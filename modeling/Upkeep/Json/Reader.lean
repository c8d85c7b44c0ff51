/-
Reading JSON.

The grammar is RFC 8259 and nothing more; blanks are space, tab, CR and LF.  A strict
reading also refuses what has no value: nesting beyond 127 levels, numbers too large for
a double and escapes that name half a surrogate pair.  A loose reading only checks the
grammar and leaves such parts without a value.

Every function takes the text that is left and returns what it read with the rest.  The
fuel bounds the calls; twice the length of the text is always enough, since each level
of nesting and each item takes a character.
-/
import Upkeep.Json.Tree
import Upkeep.Json.Literal

namespace Upkeep.Json.Reader

/-- A blank of JSON. -/
def isGap (c : Char) : Bool := c = ' ' || c = '\t' || c = '\n' || c = '\r'

/-- The text without its leading blanks. -/
def skipGap (cs : List Char) : List Char := cs.dropWhile isGap

/-- The value of a digit of base sixteen. -/
def hexValue? (c : Char) : Option Nat :=
  if '0' ≤ c ∧ c ≤ '9' then some (c.toNat - '0'.toNat)
  else if 'a' ≤ c ∧ c ≤ 'f' then some (c.toNat - 'a'.toNat + 10)
  else if 'A' ≤ c ∧ c ≤ 'F' then some (c.toNat - 'A'.toNat + 10)
  else none

/-- The number written by four digits of base sixteen. -/
def hexFour? : List Char → Option (Nat × List Char)
  | a :: b :: c :: d :: r => do
    let a ← hexValue? a
    let b ← hexValue? b
    let c ← hexValue? c
    let d ← hexValue? d
    some (4096 * a + 256 * b + 16 * c + d, r)
  | _ => none

/-- Reads four digits of base sixteen; what is wrong is judged by four bytes. -/
def hexFour (cs : List Char) : Except Stop (Nat × List Char) :=
  match hexFour? cs with
  | some (n, r) => .ok (n, r)
  | none =>
    if 4 ≤ byteCount cs then .error ⟨.badEscape, byteCount cs - 4⟩
    else .error ⟨.endOfString, 0⟩

/-- The code unit is the first half of a surrogate pair. -/
def isLeading (n : Nat) : Bool := 0xd800 ≤ n && n ≤ 0xdbff

/-- The code unit is the second half of a surrogate pair. -/
def isTrailing (n : Nat) : Bool := 0xdc00 ≤ n && n ≤ 0xdfff

/-- The character named by a surrogate pair. -/
def pairChar (leading trailing : Nat) : Char :=
  Char.ofNat (0x10000 + (leading - 0xd800) * 1024 + (trailing - 0xdc00))

/-- Reads the second half of a pair; anything else there is an error. -/
def trailingHalf (leading : Nat) (cs : List Char) : Except Stop (Char × List Char) :=
  match cs with
  | [] | ['\\'] => .error ⟨.endOfString, 0⟩
  | '\\' :: 'u' :: r => do
    let (n, rest) ← hexFour r
    if isTrailing n then .ok (pairChar leading n, rest) else .error (.here .loneSurrogate rest)
  | '\\' :: r => .error (.ahead .endOfHexEscape r)
  | r => .error (.ahead .endOfHexEscape r)

/-- Reads the number of a `\u` escape, and the second half of its pair. -/
def unicodeEscape (strict : Bool) (cs : List Char) : Except Stop (Option Char × List Char) := do
  let (n, r) ← hexFour cs
  if isTrailing n then
    if strict then .error (.here .loneSurrogate r) else .ok (none, r)
  else if isLeading n then
    match trailingHalf n r with
    | .ok (c, rest) => .ok (some c, rest)
    | .error stop => if strict then .error stop else .ok (none, r)
  else .ok (some (Char.ofNat n), r)

/-- The character of a one-letter escape. -/
def letterEscape? (c : Char) : Option Char :=
  if c = '"' ∨ c = '\\' ∨ c = '/' then some c
  else if c = 'n' then some '\n'
  else if c = 'r' then some '\r'
  else if c = 't' then some '\t'
  else if c = 'b' then some '\x08'
  else if c = 'f' then some '\x0c'
  else none

/-- Reads an escape, after its backslash. -/
def escape (strict : Bool) : List Char → Except Stop (Option Char × List Char)
  | [] => .error ⟨.endOfString, 0⟩
  | c :: r =>
    match letterEscape? c with
    | some x => .ok (some x, r)
    | none =>
      if c = 'u' then unicodeEscape strict r
      else .error ⟨.badEscape, byteCount (c :: r) - 1⟩

/-- Reads the characters of a string up to its closing quote. -/
def characters (strict : Bool) : Nat → List Char → Except Stop (Option (List Char) × List Char)
  | 0, cs => .error (.here .endOfString cs)
  | _ + 1, [] => .error (.here .endOfString [])
  | fuel + 1, c :: cs =>
    if c = '"' then .ok (some [], cs)
    else if c = '\\' then do
      let (x, r) ← escape strict cs
      let (s, rest) ← characters strict fuel r
      .ok (x.bind fun x => s.map (x :: ·), rest)
    else if c.toNat < 0x20 then .error (.here .controlCharacter cs)
    else do
      let (s, rest) ← characters strict fuel cs
      .ok (s.map (c :: ·), rest)

/-- Reads a string, after its opening quote. -/
def string (strict : Bool) (cs : List Char) : Except Stop (Option String × List Char) := do
  let (s, rest) ← characters strict (cs.length + 1) cs
  .ok (s.map String.ofList, rest)

/-- Reads the letters of a word that has been recognised by its first. -/
def word : List Char → Tree → List Char → Except Stop (Tree × List Char)
  | [], t, cs => .ok (t, cs)
  | _ :: _, _, [] => .error (.here .endOfValue [])
  | w :: ws, t, c :: cs =>
    if c = w then word ws t cs else .error ⟨.identExpected, byteCount (c :: cs) - 1⟩

/-- Reads a number, after its sign. -/
def number (strict negative : Bool) (cs : List Char) : Except Stop (Tree × List Char) := do
  let (l, rest) ← Literal.scan negative cs
  match l.number? with
  | some n => .ok (.number (some n), rest)
  | none =>
    if strict then .error ⟨.numberOutOfRange, l.tooLargeAt rest⟩ else .ok (.number none, rest)

mutual

/-- Reads a document with room for so many more levels. -/
def tree (strict : Bool) : Nat → Nat → List Char → Except Stop (Tree × List Char)
  | 0, _, cs => .error (.here .endOfValue cs)
  | fuel + 1, room, cs =>
    match skipGap cs with
    | [] => .error (.here .endOfValue [])
    | c :: r =>
      if c = 'n' then word ['u', 'l', 'l'] .null r
      else if c = 't' then word ['r', 'u', 'e'] (.bool true) r
      else if c = 'f' then word ['a', 'l', 's', 'e'] (.bool false) r
      else if c = '-' then number strict true r
      else if c.isDigit then number strict false (c :: r)
      else if c = '"' then do
        let (s, rest) ← string strict r
        .ok (.string s, rest)
      else if c = '[' then
        if strict ∧ room = 0 then .error (.ahead .tooDeep (c :: r))
        else do
          let (ts, rest) ← items strict fuel (room - 1) r
          .ok (.array ts, rest)
      else if c = '\x7b' then
        if strict ∧ room = 0 then .error (.ahead .tooDeep (c :: r))
        else do
          let (ms, rest) ← members strict fuel (room - 1) r
          .ok (.object ms, rest)
      else .error (.ahead .valueExpected (c :: r))

/-- Reads the items of an array, after its bracket. -/
def items (strict : Bool) : Nat → Nat → List Char → Except Stop (List Tree × List Char)
  | 0, _, cs => .error (.here .endOfArray cs)
  | fuel + 1, room, cs =>
    match skipGap cs with
    | [] => .error (.here .endOfArray [])
    | c :: r =>
      if c = ']' then .ok ([], r)
      else do
        let (t, rest) ← tree strict fuel room (c :: r)
        let (ts, rest) ← moreItems strict fuel room rest
        .ok (t :: ts, rest)

/-- Reads the items after the first, each behind a comma. -/
def moreItems (strict : Bool) : Nat → Nat → List Char → Except Stop (List Tree × List Char)
  | 0, _, cs => .error (.here .endOfArray cs)
  | fuel + 1, room, cs =>
    match skipGap cs with
    | [] => .error (.here .endOfArray [])
    | c :: r =>
      if c = ']' then .ok ([], r)
      else if c = ',' then
        match skipGap r with
        | [] => .error (.here .endOfValue [])
        | d :: r =>
          if d = ']' then .error (.ahead .trailingComma (d :: r))
          else do
            let (t, rest) ← tree strict fuel room (d :: r)
            let (ts, rest) ← moreItems strict fuel room rest
            .ok (t :: ts, rest)
      else .error (.ahead .arrayCommaExpected (c :: r))

/-- Reads the members of an object, after its brace. -/
def members (strict : Bool) : Nat → Nat → List Char →
    Except Stop (List (Option String × Tree) × List Char)
  | 0, _, cs => .error (.here .endOfObject cs)
  | fuel + 1, room, cs =>
    match skipGap cs with
    | [] => .error (.here .endOfObject [])
    | c :: r =>
      if c = '\x7d' then .ok ([], r)
      else if c = '"' then do
        let (m, rest) ← member strict fuel room r
        let (ms, rest) ← moreMembers strict fuel room rest
        .ok (m :: ms, rest)
      else .error (.ahead .keyExpected (c :: r))

/-- Reads the members after the first, each behind a comma. -/
def moreMembers (strict : Bool) : Nat → Nat → List Char →
    Except Stop (List (Option String × Tree) × List Char)
  | 0, _, cs => .error (.here .endOfObject cs)
  | fuel + 1, room, cs =>
    match skipGap cs with
    | [] => .error (.here .endOfObject [])
    | c :: r =>
      if c = '\x7d' then .ok ([], r)
      else if c = ',' then
        match skipGap r with
        | [] => .error (.here .endOfValue [])
        | d :: r =>
          if d = '"' then do
            let (m, rest) ← member strict fuel room r
            let (ms, rest) ← moreMembers strict fuel room rest
            .ok (m :: ms, rest)
          else if d = '\x7d' then .error (.ahead .trailingComma (d :: r))
          else .error (.ahead .keyExpected (d :: r))
      else .error (.ahead .objectCommaExpected (c :: r))

/-- Reads a key, after its opening quote, and its value. -/
def member (strict : Bool) : Nat → Nat → List Char →
    Except Stop ((Option String × Tree) × List Char)
  | 0, _, cs => .error (.here .endOfObject cs)
  | fuel + 1, room, cs => do
    let (k, rest) ← string strict cs
    match skipGap rest with
    | [] => .error (.here .endOfObject [])
    | c :: r =>
      if c = ':' then do
        let (t, rest) ← tree strict fuel room r
        .ok ((k, t), rest)
      else .error (.ahead .colonExpected (c :: r))

end

/-- The deepest nesting that a strict reading accepts. -/
def maxDepth : Nat := 127

/-- Reads a whole text: one document and blanks around it. -/
def document (strict : Bool) (cs : List Char) : Except Stop Tree := do
  let (t, rest) ← tree strict (2 * cs.length + 2) maxDepth cs
  match skipGap rest with
  | [] => .ok t
  | r => .error (.ahead .trailingCharacters r)

end Reader

/-- The document meant by a text.  What a strict reading accepts always has a value. -/
def readChars (cs : List Char) : Except Stop Value := do
  match (← Reader.document true cs).value? with
  | some v => .ok v
  | none => .error (.here .valueExpected [])

/-- The document meant by a text, or the problem with it. -/
def read (text : String) : Except Problem Value :=
  (readChars text.toList).mapError (Stop.locate text.toList)

/-- The document as it is written, if the text is one at all. -/
def readLoose (text : String) : Option Tree := (Reader.document false text.toList).toOption

/-- The members of the object that a text writes.  Where it writes something else, that
is the problem, found as soon as the kind of the value is seen. -/
def readMembers (text : String) : Except Problem (Entries String Value) :=
  let cs := text.toList
  let wrongKind (v : Value) (rest : List Char) : Except Problem (Entries String Value) :=
    .error (Stop.locate cs (.here (.mismatch v.described "a map") rest))
  match Reader.skipGap cs with
  | '[' :: r => wrongKind (.array []) ('[' :: r)
  | '\x7b' :: _ => match readChars cs with
    | .ok v => .ok (v.members?.getD [])
    | .error stop => .error (stop.locate cs)
  | rest => match Reader.tree true 2 Reader.maxDepth rest with
    | .ok (t, rest) => wrongKind (t.value?.getD .null) rest
    | .error stop => .error (stop.locate cs)

end Upkeep.Json
