/-
UTF-8 in bytes that need not be text.

The bytes are read one after the other.  A first byte tells how many are to follow it, and with
some of them the second byte has to be in a narrower range, so that each character is written
in one way only.  Where a byte does not fit, what has been read of the character is given up,
and the byte may begin another one.
-/

namespace Upkeep.Text.Utf8

/-- A stretch of bytes. -/
inductive Piece where
  | char (c : Char)
  /-- Some bytes that are part of no character. -/
  | broken (length : Nat)
  /-- The bytes end before the character does. -/
  | cutOff
  deriving DecidableEq, Repr

/-- A character of which some bytes have been read. -/
structure Begun where
  /-- What the bytes say of its number. -/
  code : Nat
  /-- How many bytes have been read. -/
  length : Nat := 1
  /-- How many are to follow the next one. -/
  more : Nat
  /-- The range of the next byte. -/
  low : Nat := 0x80
  high : Nat := 0xbf
  deriving DecidableEq, Repr

/-- What a byte begins that is no character by itself. -/
def begun? (b : Nat) : Option Begun :=
  if 0xc2 ≤ b ∧ b ≤ 0xdf then some { code := b - 0xc0, more := 0 }
  else if 0xe0 ≤ b ∧ b ≤ 0xef then
    some
      { code := b - 0xe0
        more := 1
        low := if b = 0xe0 then 0xa0 else 0x80
        high := if b = 0xed then 0x9f else 0xbf }
  else if 0xf0 ≤ b ∧ b ≤ 0xf4 then
    some
      { code := b - 0xf0
        more := 2
        low := if b = 0xf0 then 0x90 else 0x80
        high := if b = 0xf4 then 0x8f else 0xbf }
  else none

/-- Reads a byte that continues no character. -/
def start (b : Nat) : List Piece × Option Begun :=
  if b ≤ 0x7f then ([.char (Char.ofNat b)], none)
  else match begun? b with
    | some g => ([], some g)
    | none => ([.broken 1], none)

/-- Reads a byte: the pieces that are complete with it, and what is begun behind it. -/
def step : Option Begun → Nat → List Piece × Option Begun
  | none, b => start b
  | some g, b =>
    if g.low ≤ b ∧ b ≤ g.high then
      let code := 64 * g.code + (b - 0x80)
      match g.more with
      | 0 => ([.char (Char.ofNat code)], none)
      | more + 1 => ([], some { code, more, length := g.length + 1 })
    else
      let (ps, next) := start b
      (.broken g.length :: ps, next)

/-- The pieces of some bytes, of which the first may continue a character. -/
def piecesFrom : Option Begun → List UInt8 → List Piece
  | none, [] => []
  | some _, [] => [.cutOff]
  | g, b :: bs => (step g b.toNat).1 ++ piecesFrom (step g b.toNat).2 bs

/-- The pieces of some bytes. -/
def pieces (bs : List UInt8) : List Piece := piecesFrom none bs

/-- The character that is shown for a piece. -/
def Piece.shown : Piece → Char
  | char c => c
  | _ => '\ufffd'

/-- The bytes as they are shown, whether they are text or not. -/
def shown (bs : List UInt8) : String := String.ofList ((pieces bs).map Piece.shown)

/-- Why some bytes are no text. -/
structure Fault where
  /-- Where the first bytes are that are part of no character. -/
  index : Nat
  /-- How many these are, unless the bytes end with them. -/
  length? : Option Nat
  deriving DecidableEq, Repr

/-- The wording of a fault. -/
def Fault.message (f : Fault) : String :=
  match f.length? with
  | some n => s!"invalid utf-8 sequence of {n} bytes from index {f.index}"
  | none => s!"incomplete utf-8 byte sequence from index {f.index}"

/-- The first fault in pieces that start at an index. -/
def faultFrom (index : Nat) : List Piece → Option Fault
  | [] => none
  | .char c :: ps => faultFrom (index + c.utf8Size) ps
  | .broken n :: _ => some ⟨index, some n⟩
  | .cutOff :: _ => some ⟨index, none⟩

/-- The text that some bytes are. -/
def decode (bs : List UInt8) : Except Fault String :=
  match faultFrom 0 (pieces bs) with
  | some f => .error f
  | none => .ok (shown bs)

example : faultFrom 0 (pieces [0x61, 0xe2, 0x82]) = some ⟨1, none⟩ := by decide
example : shown [0xe2, 0x82, 0x41, 0xff] = "\ufffdA\ufffd" := by decide

end Upkeep.Text.Utf8
