/-
Numbers and the digits that write them.

A number is what its digits write, and its digits start with a zero only where it is zero.
Runs of digits may start with zeros; of one length, they write different numbers.
-/
import Mathlib.Data.List.Basic
import Mathlib.Data.Nat.Digits.Defs
import Upkeep.Text.Digit

namespace Upkeep.Text

/-! ### The digits of a number -/

theorem valueOfDigits_digits (n : Nat) : valueOfDigits (digits n) = n := by
  have h : Nat.ofDigitChars 10 (Nat.toDigits 10 n) 0 = n := Nat.ofDigitChars_ten_toDigits
  rwa [Nat.ofDigitChars_eq_foldl] at h

theorem isDigit_of_mem_digits {n : Nat} {c : Char} (h : c ∈ digits n) : c.isDigit = true :=
  Nat.isDigit_of_mem_toDigits (by decide) (by decide) h

theorem digits_ne_nil (n : Nat) : digits n ≠ [] := Nat.toDigits_ne_nil

/-- A number that is not zero is written without a leading zero. -/
theorem head?_digits_ne (n : Nat) (hn : n ≠ 0) : (digits n).head? ≠ some '0' := by
  induction n using Nat.strongRecOn with
  | _ n ih =>
      unfold digits
      rw [Nat.toDigits_eq_if (by decide)]
      split
      next hlt =>
        have hdigit : ∀ m, m < 10 → m ≠ 0 → some m.digitChar ≠ some '0' := by decide
        exact hdigit n hlt hn
      next hge =>
        rw [List.head?_append_of_ne_nil _ Nat.toDigits_ne_nil]
        exact ih (n / 10) (by omega) (by omega)

/-! ### The number of a run of digits -/

theorem valueOfDigits_eq_ofDigits (cs : List Char) :
    valueOfDigits cs = Nat.ofDigits 10 (cs.reverse.map digitValue) := by
  rw [Nat.ofDigits_eq_foldr, List.foldr_map, List.foldr_reverse]
  unfold valueOfDigits
  congr 1
  funext n c
  simp [Nat.add_comm]

theorem valueOfDigits_append (ds es : List Char) :
    valueOfDigits (ds ++ es) = valueOfDigits ds * 10 ^ es.length + valueOfDigits es := by
  rw [valueOfDigits_eq_ofDigits, valueOfDigits_eq_ofDigits, valueOfDigits_eq_ofDigits,
    List.reverse_append, List.map_append, Nat.ofDigits_append, List.length_map, List.length_reverse,
    Nat.mul_comm, Nat.add_comm]

theorem valueOfDigits_cons (c : Char) (cs : List Char) :
    valueOfDigits (c :: cs) = digitValue c * 10 ^ cs.length + valueOfDigits cs := by
  have happend := valueOfDigits_append [c] cs
  rwa [show valueOfDigits [c] = digitValue c by simp [valueOfDigits]] at happend

theorem toNat_of_isDigit {c : Char} (h : c.isDigit = true) : 48 ≤ c.toNat ∧ c.toNat ≤ 57 := by
  simpa [Char.isDigit, UInt32.le_iff_toNat_le] using h

/-- The ASCII digits are among the digits of all scripts. -/
theorem isDigit_of_ascii {c : Char} (h : c.isDigit = true) : isDigit c = true := by
  obtain ⟨hlow, hhigh⟩ := toNat_of_isDigit h
  refine List.any_eq_true.mpr ⟨(0x30, 0x39), List.mem_cons_self, ?_⟩
  simp [hlow, hhigh]

theorem digitValue_lt {c : Char} (h : c.isDigit = true) : digitValue c < 10 := by
  obtain ⟨-, hle⟩ := toNat_of_isDigit h
  have hzero : '0'.toNat = 48 := rfl
  unfold digitValue
  omega

/-- A run of digits writes less than the power of ten with as many zeros. -/
theorem valueOfDigits_lt {cs : List Char} (h : ∀ c ∈ cs, c.isDigit = true) :
    valueOfDigits cs < 10 ^ cs.length := by
  induction cs with
  | nil => decide
  | cons c cs ih =>
      have hc : digitValue c < 10 := digitValue_lt (h c (by simp))
      have hrest := ih fun d hd => h d (by simp [hd])
      rw [valueOfDigits_cons, List.length_cons, Nat.pow_succ]
      calc digitValue c * 10 ^ cs.length + valueOfDigits cs
          < digitValue c * 10 ^ cs.length + 10 ^ cs.length := by omega
        _ = (digitValue c + 1) * 10 ^ cs.length := by rw [Nat.succ_mul]
        _ ≤ 10 ^ cs.length * 10 := by
            rw [Nat.mul_comm]
            exact Nat.mul_le_mul_left _ hc

theorem digitChar_digitValue {c : Char} (h : c.isDigit = true) :
    Nat.digitChar (digitValue c) = c := by
  have hlt : digitValue c < 10 := digitValue_lt h
  obtain ⟨hle, -⟩ := toNat_of_isDigit h
  have hvalue : digitValue c = c.toNat - 48 := rfl
  refine Char.toNat_inj.mp ?_
  rw [Nat.toNat_digitChar_of_lt_ten hlt]
  omega

/-- Runs of digits of one length write different numbers. -/
theorem valueOfDigits_inj {cs ds : List Char} (hcs : ∀ c ∈ cs, c.isDigit = true)
    (hds : ∀ d ∈ ds, d.isDigit = true) (hlength : cs.length = ds.length)
    (h : valueOfDigits cs = valueOfDigits ds) : cs = ds := by
  rw [valueOfDigits_eq_ofDigits, valueOfDigits_eq_ofDigits] at h
  have hlt : ∀ es : List Char, (∀ e ∈ es, e.isDigit = true) →
      ∀ n ∈ es.reverse.map digitValue, n < 10 := by
    intro es hes n hn
    obtain ⟨e, he, rfl⟩ := List.mem_map.mp hn
    exact digitValue_lt (hes e (List.mem_reverse.mp he))
  have hvalues : cs.map digitValue = ds.map digitValue := by
    have hreverse := Nat.ofDigits_inj_of_len_eq (by decide) (by simpa using hlength) (hlt cs hcs)
      (hlt ds hds) h
    rwa [List.map_reverse, List.map_reverse, List.reverse_inj] at hreverse
  have hback : ∀ es : List Char, (∀ e ∈ es, e.isDigit = true) →
      (es.map digitValue).map Nat.digitChar = es := by
    intro es hes
    rw [List.map_map]
    exact (List.map_congr_left fun e he => digitChar_digitValue (hes e he)).trans (List.map_id es)
  rw [← hback cs hcs, hvalues, hback ds hds]

/-- A number that is not zero is at least the power of ten of its first digit. -/
theorem pow_length_digits_le {n : Nat} (hn : n ≠ 0) : 10 ^ ((digits n).length - 1) ≤ n := by
  obtain ⟨c, cs, hcs⟩ := List.exists_cons_of_ne_nil (digits_ne_nil n)
  have hc : c.isDigit = true := isDigit_of_mem_digits (hcs ▸ List.mem_cons_self)
  have hzero : digitValue c ≠ 0 := by
    intro hvalue
    refine head?_digits_ne n hn ?_
    rw [hcs, List.head?_cons, ← digitChar_digitValue hc, hvalue]
    rfl
  have hvalue := valueOfDigits_digits n
  rw [hcs, valueOfDigits_cons] at hvalue
  rw [hcs, List.length_cons, Nat.add_sub_cancel]
  exact (Nat.le_mul_of_pos_left _ (Nat.pos_of_ne_zero hzero)).trans
    ((Nat.le_add_right _ _).trans_eq hvalue)

end Upkeep.Text
