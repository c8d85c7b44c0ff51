/-
The order of texts is the order of their bytes.

Texts are compared character by character, and what others see of them are the bytes of
UTF-8.  Both orders are the same one: a character with a smaller number has smaller bytes,
and the difference shows before either encoding ends, because the first byte tells how long
an encoding is and longer ones start with larger bytes.
-/
import Mathlib.Data.String.Basic

namespace Upkeep.Text

/-- The bytes of a text in UTF-8. -/
def bytes (s : String) : List UInt8 := s.toUTF8.data.toList

theorem bytes_eq (s : String) : bytes s = s.toList.flatMap String.utf8EncodeChar := by
  unfold bytes
  rw [String.toUTF8_eq_toByteArray, ← String.utf8Encode_toList, List.utf8Encode,
    List.toList_data_toByteArray]

theorem ofNat_lt_ofNat {m n : Nat} (hn : n < 256) (h : m < n) : UInt8.ofNat m < UInt8.ofNat n := by
  rw [UInt8.lt_iff_toNat_lt, UInt8.toNat_ofNat', UInt8.toNat_ofNat', Nat.mod_eq_of_lt hn,
    Nat.mod_eq_of_lt (Nat.lt_trans h hn)]
  exact h

/-- Digits in front decide, and where they are the same the digits behind them. -/
theorem cons_lt_cons_of {m n : Nat} {xs ys : List UInt8} (hn : n < 256) (hle : m ≤ n)
    (hrest : m = n → xs < ys) : UInt8.ofNat m :: xs < UInt8.ofNat n :: ys := by
  rw [List.cons_lt_cons_iff]
  rcases Nat.lt_or_eq_of_le hle with hlt | heq
  · exact .inl (ofNat_lt_ofNat hn hlt)
  · exact .inr ⟨by rw [heq], hrest heq⟩

/-- The bytes of a smaller character are smaller, whatever stands behind them. -/
theorem utf8EncodeChar_lt {c d : Char} (h : c < d) (xs ys : List UInt8) :
    String.utf8EncodeChar c ++ xs < String.utf8EncodeChar d ++ ys := by
  have hlt : c.val.toNat < d.val.toNat := h
  have hd : d.val.toNat < 0x110000 := by
    rcases d.valid with hsmall | ⟨-, hlarge⟩
    · exact Nat.lt_trans hsmall (by decide)
    · exact hlarge
  unfold String.utf8EncodeChar
  generalize c.val.toNat = v at hlt ⊢
  generalize d.val.toNat = w at hlt hd ⊢
  simp only
  -- A longer encoding starts with a larger byte; encodings of one length differ in a digit.
  split_ifs
  all_goals simp only [List.cons_append, List.nil_append]
  all_goals refine cons_lt_cons_of (by omega) (by omega) fun _ => ?_
  all_goals first | omega | refine cons_lt_cons_of (by omega) (by omega) fun _ => ?_
  all_goals first | omega | refine cons_lt_cons_of (by omega) (by omega) fun _ => ?_
  all_goals first | omega | refine cons_lt_cons_of (by omega) (by omega) fun _ => ?_
  all_goals omega

theorem flatMap_lt {cs ds : List Char} (h : cs < ds) :
    cs.flatMap String.utf8EncodeChar < ds.flatMap String.utf8EncodeChar := by
  induction cs generalizing ds with
  | nil =>
      cases ds with
      | nil => exact absurd h (List.not_lt_nil _)
      | cons d ds =>
          obtain ⟨b, bs, hd⟩ := List.exists_cons_of_ne_nil (String.utf8EncodeChar_ne_nil (c := d))
          rw [List.flatMap_cons, hd]
          exact List.nil_lt_cons _ _
  | cons c cs ih =>
      cases ds with
      | nil => exact absurd h (List.not_lt_nil _)
      | cons d ds =>
          rw [List.flatMap_cons, List.flatMap_cons]
          rcases List.cons_lt_cons_iff.mp h with hlt | ⟨rfl, hlt⟩
          · exact utf8EncodeChar_lt hlt _ _
          · exact List.append_left_lt (ih hlt)

/-- **The order of texts is the order of their bytes.** -/
theorem bytes_lt {s t : String} (h : s < t) : bytes s < bytes t := by
  rw [bytes_eq, bytes_eq]
  exact flatMap_lt h

end Upkeep.Text
