/-
A text is read back from its bytes.

A character is followed through its bytes one by one: with the last of them its number is
complete, and nothing is begun behind it.
-/
import Upkeep.Proofs.Text.ByteOrder
import Upkeep.Text.Utf8

namespace Upkeep.Text.Utf8

variable {g : Begun} {b : Nat} {bs : List UInt8}

theorem piecesFrom_cons (g : Option Begun) (hb : b < 256) (bs : List UInt8) :
    piecesFrom g (.ofNat b :: bs) = (step g b).1 ++ piecesFrom (step g b).2 bs := by
  have hbyte : (UInt8.ofNat b).toNat = b := UInt8.toNat_ofNat_of_lt' hb
  cases g <;> simp only [piecesFrom, hbyte]

/-- A byte that is a character. -/
theorem piecesFrom_single (hb : b < 256) (hsmall : b ≤ 0x7f) :
    piecesFrom none (.ofNat b :: bs) = .char (Char.ofNat b) :: pieces bs := by
  have hstep : step none b = ([.char (Char.ofNat b)], none) := if_pos hsmall
  rw [piecesFrom_cons none hb, hstep]
  rfl

/-- A byte that begins a character. -/
theorem piecesFrom_begun (hb : b < 256) (hlarge : 0x7f < b) (hg : begun? b = some g) :
    piecesFrom none (.ofNat b :: bs) = piecesFrom (some g) bs := by
  have hstep : step none b = ([], some g) := by
    show start b = _
    unfold start
    rw [if_neg (by omega), hg]
  rw [piecesFrom_cons none hb, hstep]
  rfl

/-- A byte in the middle of a character. -/
theorem piecesFrom_inner {more : Nat} (hb : b < 256) (hmore : g.more = more + 1)
    (hrange : g.low ≤ b ∧ b ≤ g.high) :
    piecesFrom (some g) (.ofNat b :: bs) =
      piecesFrom (some { code := 64 * g.code + (b - 0x80), more, length := g.length + 1 }) bs := by
  have hstep : step (some g) b =
      ([], some { code := 64 * g.code + (b - 0x80), more, length := g.length + 1 }) := by
    unfold step
    simp only [if_pos hrange, hmore]
  rw [piecesFrom_cons _ hb, hstep]
  rfl

/-- The last byte of a character. -/
theorem piecesFrom_last (hb : b < 256) (hmore : g.more = 0) (hrange : g.low ≤ b ∧ b ≤ g.high) :
    piecesFrom (some g) (.ofNat b :: bs) =
      .char (Char.ofNat (64 * g.code + (b - 0x80))) :: pieces bs := by
  have hstep : step (some g) b = ([.char (Char.ofNat (64 * g.code + (b - 0x80)))], none) := by
    unfold step
    simp only [if_pos hrange, hmore]
  rw [piecesFrom_cons _ hb, hstep]
  rfl

/-- The first of two bytes. -/
theorem begun?_of_two {d : Nat} (hd : 2 ≤ d ∧ d < 0x20) :
    begun? (d + 0xc0) = some { code := d, more := 0 } := by
  unfold begun?
  rw [if_pos (by omega), Nat.add_sub_cancel]

/-- The first of three bytes. -/
theorem begun?_of_three {d : Nat} (hd : d < 0x10) :
    begun? (d + 0xe0) = some
      { code := d
        more := 1
        low := if d = 0 then 0xa0 else 0x80
        high := if d = 0xd then 0x9f else 0xbf } := by
  have hlow : d + 0xe0 = 0xe0 ↔ d = 0 := by omega
  have hhigh : d + 0xe0 = 0xed ↔ d = 0xd := by omega
  unfold begun?
  rw [if_neg (by omega), if_pos (by omega), Nat.add_sub_cancel]
  simp only [hlow, hhigh]

/-- The first of four bytes. -/
theorem begun?_of_four {d : Nat} (hd : d < 5) :
    begun? (d + 0xf0) = some
      { code := d
        more := 2
        low := if d = 0 then 0x90 else 0x80
        high := if d = 4 then 0x8f else 0xbf } := by
  have hlow : d + 0xf0 = 0xf0 ↔ d = 0 := by omega
  have hhigh : d + 0xf0 = 0xf4 ↔ d = 4 := by omega
  unfold begun?
  rw [if_neg (by omega), if_neg (by omega), if_pos (by omega), Nat.add_sub_cancel]
  simp only [hlow, hhigh]

/-- The bytes of a character are one piece. -/
theorem pieces_utf8EncodeChar_append (c : Char) (bs : List UInt8) :
    pieces (String.utf8EncodeChar c ++ bs) = .char c :: pieces bs := by
  have hvalid : c.val.toNat < 0xd800 ∨ 0xdfff < c.val.toNat ∧ c.val.toNat < 0x110000 := c.valid
  have hc : Char.ofNat c.val.toNat = c := Char.ofNat_toNat c
  show piecesFrom none (String.utf8EncodeChar c ++ bs) = _
  unfold String.utf8EncodeChar
  generalize c.val.toNat = v at hvalid hc ⊢
  simp only
  -- The encodings of one, two, three and four bytes.
  split_ifs with hone htwo hthree
  all_goals simp only [List.cons_append, List.nil_append]
  · rw [piecesFrom_single (by omega) hone, hc]
  · have hnumber : 64 * (v / 64 % 32) + (v % 64 + 128 - 0x80) = v := by omega
    rw [piecesFrom_begun (by omega) (by omega) (begun?_of_two (by omega)),
      piecesFrom_last (by omega) rfl (by simp only; omega)]
    simp only [hnumber, hc]
  · have hnumber :
        64 * (64 * (v / 4096 % 16) + (v / 64 % 64 + 128 - 0x80)) + (v % 64 + 128 - 0x80) = v := by
      omega
    rw [piecesFrom_begun (by omega) (by omega) (begun?_of_three (by omega)),
      piecesFrom_inner (by omega) rfl (by simp only; split_ifs <;> omega),
      piecesFrom_last (by omega) rfl (by simp only; omega)]
    simp only [hnumber, hc]
  · have hnumber :
        64 * (64 * (64 * (v / 262144 % 8) + (v / 4096 % 64 + 128 - 0x80)) +
          (v / 64 % 64 + 128 - 0x80)) + (v % 64 + 128 - 0x80) = v := by
      omega
    rw [piecesFrom_begun (by omega) (by omega) (begun?_of_four (by omega)),
      piecesFrom_inner (by omega) rfl (by simp only; split_ifs <;> omega),
      piecesFrom_inner (by omega) rfl (by simp only; omega),
      piecesFrom_last (by omega) rfl (by simp only; omega)]
    simp only [hnumber, hc]

/-- **A text is read back from its bytes.** -/
theorem decode_bytes (s : String) : decode (bytes s) = .ok s := by
  have hpieces : pieces (bytes s) = s.toList.map Piece.char := by
    rw [bytes_eq]
    induction s.toList with
    | nil => rfl
    | cons c cs ih =>
        rw [List.flatMap_cons, pieces_utf8EncodeChar_append, ih, List.map_cons]
  have hfault : ∀ (cs : List Char) (index : Nat), faultFrom index (cs.map Piece.char) = none := by
    intro cs
    induction cs with
    | nil => exact fun _ => rfl
    | cons c cs ih => exact fun index => ih (index + c.utf8Size)
  have hshown : shown (bytes s) = s := by
    unfold shown
    rw [hpieces, List.map_map]
    show String.ofList (s.toList.map id) = s
    rw [List.map_id, String.ofList_toList]
  unfold decode
  rw [hpieces, hfault, hshown]

end Upkeep.Text.Utf8
