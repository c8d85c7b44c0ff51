/-
Semantic versions.

A version is three numbers, a pre-release and build metadata, both lists of
identifiers.  There are two orders.  Precedence ignores build metadata; the full order
compares it last, so that versions are equal in it only if they are written alike.
Both are lexicographic over keys, which makes transitivity and totality a matter of
instances.
-/
import Upkeep.Text.Digit

namespace Upkeep

/-- An identifier of a pre-release: a number, or a word that is not all digits. -/
inductive Identifier where
  | number (n : Nat)
  | word (letters : List Char)
  deriving DecidableEq, Repr

/-- A semantic version. -/
structure Version where
  major : Nat
  minor : Nat
  patch : Nat
  /-- Identifiers of the pre-release; none for a release. -/
  pre : List Identifier
  /-- Identifiers of the build metadata, as written. -/
  build : List (List Char)
  deriving DecidableEq, Repr

namespace Identifier

/-- Numbers come before words. -/
def rank : Identifier → Nat
  | number _ => 0
  | word _ => 1

/-- The value of a number. -/
def value : Identifier → Nat
  | number n => n
  | word _ => 0

/-- The letters of a word. -/
def letters : Identifier → List Char
  | number _ => []
  | word cs => cs

/-- Numbers by value and below words, words by their letters. -/
instance : Ord Identifier where
  compare := compareLex (compareOn rank) (compareLex (compareOn value) (compareOn letters))

/-- The written form of an identifier. -/
def text : Identifier → List Char
  | number n => Text.digits n
  | word cs => cs

end Identifier

/-- An identifier of build metadata that is all digits. -/
def isNumeric (cs : List Char) : Bool := cs.all Char.isDigit

/-- Identifiers of build metadata: numbers by value, then by length, and below words. -/
def compareBuild : List Char → List Char → Ordering :=
  compareLex (compareOn fun cs => !isNumeric cs)
    (compareLex (compareOn fun cs => if isNumeric cs then Text.valueOfDigits cs else 0)
      (compareLex (compareOn fun cs => if isNumeric cs then cs.length else 0)
        (compareOn fun cs => if isNumeric cs then [] else cs)))

namespace Version

/-- A release. -/
def release (major minor patch : Nat) : Version := ⟨major, minor, patch, [], []⟩

/-- Precedence: the three numbers, then a pre-release below its release, then the
identifiers of the pre-release.  Build metadata does not count. -/
def precedence : Version → Version → Ordering :=
  compareLex (compareOn major) <|
    compareLex (compareOn minor) <|
      compareLex (compareOn patch) <|
        compareLex (compareOn fun v => v.pre.isEmpty) (compareOn pre)

/-- The full order: precedence, then the identifiers of the build metadata. -/
instance : Ord Version where
  compare := compareLex precedence fun v w => List.compareLex compareBuild v.build w.build

instance : LE Version := ⟨fun v w => (compare v w).isLE⟩
instance : LT Version := ⟨fun v w => compare v w = .lt⟩

instance (v w : Version) : Decidable (v ≤ w) :=
  inferInstanceAs (Decidable ((compare v w).isLE = true))
instance (v w : Version) : Decidable (v < w) := inferInstanceAs (Decidable (compare v w = .lt))

/-- Identifiers with points between them. -/
def dotted (parts : List (List Char)) : List Char := List.intercalate ['.'] parts

/-- The written form of a version. -/
def chars (v : Version) : List Char :=
  dotted [Text.digits v.major, Text.digits v.minor, Text.digits v.patch] ++
    (if v.pre = [] then [] else '-' :: dotted (v.pre.map Identifier.text)) ++
    (if v.build = [] then [] else '+' :: dotted v.build)

/-- The written form of a version as a string. -/
def text (v : Version) : String := String.ofList v.chars

example : compare (release 1 2 3) (release 1 10 0) = .lt := by decide
example : compare { release 1 0 0 with pre := [.number 9] }
    { release 1 0 0 with pre := [.word ['a']] } = .lt := by
  decide
example : precedence { release 1 0 0 with build := [['1']] } (release 1 0 0) = .eq := by decide
example : (release 1 0 0) < { release 1 0 0 with build := [['0']] } := by decide

end Version

end Upkeep
