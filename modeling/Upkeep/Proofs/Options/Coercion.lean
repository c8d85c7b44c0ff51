/-
What a raw value stands for.

A field takes values of its own kind as they are, and texts that write such a value.
`FieldKind.StandsFor` says rule by rule which raw value stands for which, and coercion
answers just that; a raw value stands for one value at most.  What is coerced is then held
against bounds, and what is told is the first one that it violates.
-/
import Mathlib.Logic.Basic
import Upkeep.Options.Validation

namespace Upkeep

open Json

/-! ### Numbers as texts -/

/-- The text writes the integer: ASCII digits, with or without a sign in front. -/
inductive WritesInteger : List Char → Int → Prop where
  | unsigned {ds : List Char} {n : Nat} (h : Text.natural? ds = some n) : WritesInteger ds n
  | plus {ds : List Char} {n : Nat} (h : Text.natural? ds = some n) : WritesInteger ('+' :: ds) n
  | minus {ds : List Char} {n : Nat} (h : Text.natural? ds = some n) :
    WritesInteger ('-' :: ds) (-n)

/-- The integer is one of 64 bits with a sign. -/
def IsInteger64 (i : Int) : Prop := -9223372036854775808 ≤ i ∧ i ≤ 9223372036854775807

theorem natural?_cons {c : Char} (hc : c.isDigit = false) (cs : List Char) :
    Text.natural? (c :: cs) = none := by
  unfold Text.natural?
  rw [if_neg]
  simp [hc]

/-- The number that an integer of 64 bits is. -/
def integerNumber? (i : Int) : Option Number :=
  if h : -9223372036854775808 ≤ i ∧ i ≤ 9223372036854775807 then
    some (.integer i (fits_of_signed h.1 h.2))
  else none

theorem integerNumber?_eq_some_iff {i : Int} {m : Number} :
    integerNumber? i = some m ↔ ∃ fits, m = .integer i fits ∧ IsInteger64 i := by
  unfold integerNumber?
  split
  next hi =>
    rw [Option.some.injEq]
    constructor
    · rintro rfl
      exact ⟨_, rfl, hi⟩
    · rintro ⟨fits, rfl, -⟩
      rfl
  next hi =>
    constructor
    · intro h
      cases h
    · rintro ⟨fits, -, hi'⟩
      exact absurd hi' hi

theorem integer64?_minus (ds : List Char) :
    integer64? ('-' :: ds) = (Text.natural? ds).bind fun n => integerNumber? (-(n : Int)) := rfl

theorem integer64?_plus (ds : List Char) :
    integer64? ('+' :: ds) = (Text.natural? ds).bind fun n => integerNumber? n := rfl

theorem integer64?_unsigned {ds : List Char} (hplus : ds.head? ≠ some '+')
    (hminus : ds.head? ≠ some '-') :
    integer64? ds = (Text.natural? ds).bind fun n => integerNumber? n := by
  unfold integer64?
  split
  next heq =>
    split at heq
    · simp at hminus
    · simp at hplus
    · cases heq
      rfl

theorem head?_ne_of_natural? {c : Char} (hc : c.isDigit = false) {ds : List Char} {n : Nat}
    (h : Text.natural? ds = some n) : ds.head? ≠ some c := by
  intro hhead
  obtain ⟨cs, rfl⟩ := List.head?_eq_some_iff.mp hhead
  rw [natural?_cons hc] at h
  cases h

/-- An integer is read of just the texts that write it. -/
theorem integer64?_eq_some_iff {cs : List Char} {m : Number} :
    integer64? cs = some m ↔
      ∃ i fits, m = .integer i fits ∧ WritesInteger cs i ∧ IsInteger64 i := by
  constructor
  · intro h
    have hread : ∀ {ds : List Char} {f : Nat → Int},
        ((Text.natural? ds).bind fun n => integerNumber? (f n)) = some m →
        (∀ {n}, Text.natural? ds = some n → WritesInteger cs (f n)) →
        ∃ i fits, m = .integer i fits ∧ WritesInteger cs i ∧ IsInteger64 i := by
      intro ds f hbind hwrites
      obtain ⟨n, hn, hm⟩ := Option.bind_eq_some_iff.mp hbind
      obtain ⟨fits, hm, hi⟩ := integerNumber?_eq_some_iff.mp hm
      exact ⟨f n, fits, hm, hwrites hn, hi⟩
    -- A sign is looked for in front; no digit is one.
    by_cases hminus : cs.head? = some '-'
    · obtain ⟨ds, rfl⟩ := List.head?_eq_some_iff.mp hminus
      exact hread (f := fun n => -(n : Int)) h .minus
    by_cases hplus : cs.head? = some '+'
    · obtain ⟨ds, rfl⟩ := List.head?_eq_some_iff.mp hplus
      exact hread (f := fun n => (n : Int)) h .plus
    · rw [integer64?_unsigned hplus hminus] at h
      exact hread (f := fun n => (n : Int)) h .unsigned
  · rintro ⟨i, fits, rfl, hwrites, hi⟩
    have hnumber : integerNumber? i = some (.integer i fits) :=
      integerNumber?_eq_some_iff.mpr ⟨fits, rfl, hi⟩
    cases hwrites with
    | unsigned h =>
        rw [integer64?_unsigned (head?_ne_of_natural? (by decide) h)
          (head?_ne_of_natural? (by decide) h), h]
        exact hnumber
    | plus h => rw [integer64?_plus, h]; exact hnumber
    | minus h => rw [integer64?_minus, h]; exact hnumber

/-- An integer that fits into 64 bits is read as one, and anything else as a double. -/
theorem numberOfText?_eq_some_iff {cs : List Char} {m : Number} :
    numberOfText? cs = some m ↔
      (∃ i fits, m = .integer i fits ∧ WritesInteger cs i ∧ IsInteger64 i) ∨
        ((¬∃ i, WritesInteger cs i ∧ IsInteger64 i) ∧
          ∃ x, m = .float x ∧ Binary64.ofText? cs = some x) := by
  have hnone : integer64? cs = none ↔ ¬∃ i, WritesInteger cs i ∧ IsInteger64 i := by
    constructor
    · rintro h ⟨i, hwrites, hi⟩
      have hsome := integer64?_eq_some_iff.mpr ⟨i, fits_of_signed hi.1 hi.2, rfl, hwrites, hi⟩
      rw [h] at hsome
      cases hsome
    · intro h
      refine Option.eq_none_iff_forall_ne_some.mpr fun m hm => h ?_
      obtain ⟨i, -, -, hwrites, hi⟩ := integer64?_eq_some_iff.mp hm
      exact ⟨i, hwrites, hi⟩
  rw [← hnone, ← integer64?_eq_some_iff]
  unfold numberOfText?
  rcases integer64? cs with _ | n
  · rw [Option.map_eq_some_iff]
    simp [eq_comm, and_comm]
  · simp

/-! ### Values by kind -/

namespace FieldKind

/-- The value is one of the kind. -/
def Holds : FieldKind → Value → Prop
  | .bool, v => ∃ b, v = .bool b
  | .string, v => ∃ s, v = .string s
  | .number, v => ∃ n, v = .number n
  | .list, v => ∃ items : List String, v = .array (items.map .string)

/-- The raw value stands for the other one in a field of the kind. -/
inductive StandsFor : FieldKind → Value → Value → Prop where
  /-- A value of the kind stands for itself. -/
  | itself {kind : FieldKind} {v : Value} (h : kind.Holds v) : StandsFor kind v v
  | yes {s : String} (h : String.ofList ((Text.trim s.toList).map Char.toLower) ∈
      ["true", "1", "yes"]) : StandsFor .bool (.string s) (.bool true)
  | no {s : String} (h : String.ofList ((Text.trim s.toList).map Char.toLower) ∈
      ["false", "0", "no"]) : StandsFor .bool (.string s) (.bool false)
  | integer {s : String} {i : Int} (h : WritesInteger (Text.trim s.toList) i)
      (hi : IsInteger64 i) :
    StandsFor .number (.string s) (.number (.integer i (fits_of_signed hi.1 hi.2)))
  /-- A number that is no integer of 64 bits is read as the nearest double. -/
  | decimal {s : String} {x : Binary64}
      (hnone : ¬∃ i, WritesInteger (Text.trim s.toList) i ∧ IsInteger64 i)
      (h : Binary64.ofText? (Text.trim s.toList) = some x) :
    StandsFor .number (.string s) (.number (.float x))
  | numberText (n : Number) : StandsFor .string (.number n) (.string (String.ofList n.text))
  | boolText (b : Bool) : StandsFor .string (.bool b) (.string (if b then "true" else "false"))
  /-- The items stand between commas, without the blanks around them and without empty ones. -/
  | items (s : String) : StandsFor .list (.string s)
      (.array ((itemsOfText s.toList).map fun item => .string (String.ofList item)))

variable {kind : FieldKind} {raw v w : Value}

theorem boolOfText?_eq_some_iff {cs : List Char} {b : Bool} :
    boolOfText? cs = some b ↔
      String.ofList (cs.map Char.toLower) ∈
        if b then ["true", "1", "yes"] else ["false", "0", "no"] := by
  unfold boolOfText?
  simp only
  generalize String.ofList (cs.map Char.toLower) = lower
  split
  next h =>
    rcases b with _ | _
    · -- The two lists have no text in common.
      simp only [List.mem_cons, List.not_mem_nil, or_false] at h
      rcases h with rfl | rfl | rfl <;> decide
    · simpa using h
  next h =>
    split
    next h' => rcases b with _ | _ <;> simp_all
    next h' => rcases b with _ | _ <;> simp_all

theorem holds_list_iff {items : List Value} :
    FieldKind.list.Holds (.array items) ↔ items.all (fun v => v.string?.isSome) = true := by
  rw [List.all_eq_true]
  constructor
  · rintro ⟨texts, htexts⟩ v hv
    cases htexts
    obtain ⟨s, -, rfl⟩ := List.mem_map.mp hv
    rfl
  · intro h
    refine ⟨items.filterMap Value.string?, ?_⟩
    rw [Value.array.injEq]
    induction items with
    | nil => rfl
    | cons v items ih =>
        obtain ⟨s, hs⟩ := Option.isSome_iff_exists.mp (h v List.mem_cons_self)
        have hv : v = .string s := by cases v <;> cases hs; rfl
        rw [List.filterMap_cons_some hs, List.map_cons, ← hv,
          ← ih fun w hw => h w (List.mem_cons_of_mem _ hw)]

/-- A value of the kind is taken as it is. -/
theorem coerce?_of_holds (h : kind.Holds v) : kind.coerce? v = some v := by
  cases kind with
  | bool => obtain ⟨b, rfl⟩ := h; rfl
  | string => obtain ⟨s, rfl⟩ := h; rfl
  | number => obtain ⟨n, rfl⟩ := h; rfl
  | list =>
      obtain ⟨items, rfl⟩ := h
      exact if_pos (holds_list_iff.mp ⟨items, rfl⟩)

/-- **Coercion answers what a raw value stands for.** -/
theorem coerce?_eq_some_iff : kind.coerce? raw = some v ↔ kind.StandsFor raw v := by
  constructor
  · intro h
    unfold coerce? at h
    split at h
    next b => cases h; exact .itself ⟨b, rfl⟩
    next s =>
      obtain ⟨b, hb, rfl⟩ := Option.map_eq_some_iff.mp h
      have hb := boolOfText?_eq_some_iff.mp hb
      cases b
      · exact .no hb
      · exact .yes hb
    next n => cases h; exact .itself ⟨n, rfl⟩
    next s =>
      obtain ⟨m, hm, rfl⟩ := Option.map_eq_some_iff.mp h
      rcases numberOfText?_eq_some_iff.mp hm with ⟨i, fits, rfl, hwrites, hi⟩ | ⟨hnone, x, rfl, hx⟩
      · exact .integer hwrites hi
      · exact .decimal hnone hx
    next s => cases h; exact .itself ⟨s, rfl⟩
    next n => cases h; exact .numberText n
    next b => cases h; exact .boolText b
    next items =>
      split at h
      next hall => cases h; exact .itself (holds_list_iff.mpr hall)
      next => cases h
    next s => cases h; exact .items s
    next => cases h
  · intro h
    cases h with
    | itself h => exact coerce?_of_holds h
    | yes h => exact congrArg (Option.map Value.bool) (boolOfText?_eq_some_iff.mpr h)
    | no h => exact congrArg (Option.map Value.bool) (boolOfText?_eq_some_iff.mpr h)
    | integer h hi =>
        exact congrArg (Option.map Value.number)
          (numberOfText?_eq_some_iff.mpr (.inl ⟨_, _, rfl, h, hi⟩))
    | decimal hnone h =>
        exact congrArg (Option.map Value.number)
          (numberOfText?_eq_some_iff.mpr (.inr ⟨hnone, _, rfl, h⟩))
    | numberText n => rfl
    | boolText b => rfl
    | items s => rfl

/-- A raw value stands for one value at most. -/
theorem StandsFor.unique (h : kind.StandsFor raw v) (h' : kind.StandsFor raw w) : v = w :=
  Option.some.inj ((coerce?_eq_some_iff.mpr h).symm.trans (coerce?_eq_some_iff.mpr h'))

/-- What a raw value stands for is of the kind. -/
theorem StandsFor.holds (h : kind.StandsFor raw v) : kind.Holds v := by
  cases h with
  | itself h => exact h
  | yes | no => exact ⟨_, rfl⟩
  | integer | decimal => exact ⟨_, rfl⟩
  | numberText | boolText => exact ⟨_, rfl⟩
  | items s => exact ⟨(itemsOfText s.toList).map String.ofList, by rw [List.map_map]; rfl⟩

end FieldKind

/-! ### Bounds -/

namespace Limit

variable {l : Limit} {x : Binary64}

/-- The limit lies above the number.  One that is no number lies nowhere. -/
inductive Above : Limit → Binary64 → Prop where
  | finite {x least : Binary64} (h : x.units < least.units) : Above (.finite least) x
  | infinite (x : Binary64) : Above (.infinite false) x

/-- The limit lies below the number. -/
inductive Below : Limit → Binary64 → Prop where
  | finite {x greatest : Binary64} (h : greatest.units < x.units) : Below (.finite greatest) x
  | infinite (x : Binary64) : Below (.infinite true) x

theorem isAbove_iff : l.isAbove x = true ↔ l.Above x := by
  constructor
  · intro h
    cases l with
    | finite least => exact .finite (by simpa [isAbove, Binary64.lt] using h)
    | infinite negative =>
        cases negative with
        | false => exact .infinite x
        | true => cases h
    | nan => cases h
  · intro h
    cases h with
    | finite h => simpa [isAbove, Binary64.lt] using h
    | infinite => rfl

theorem isBelow_iff : l.isBelow x = true ↔ l.Below x := by
  constructor
  · intro h
    cases l with
    | finite greatest => exact .finite (by simpa [isBelow, Binary64.lt] using h)
    | infinite negative =>
        cases negative with
        | false => cases h
        | true => exact .infinite x
    | nan => cases h
  · intro h
    cases h with
    | finite h => simpa [isBelow, Binary64.lt] using h
    | infinite => rfl

end Limit

namespace Bounds

/-- The value is within the bounds that concern it: a string by the number of its characters,
a number by the nearest double. -/
def Admits (b : Bounds) : Value → Prop
  | .string s => (∀ least, b.minLength = some least → least ≤ s.length) ∧
      ∀ greatest, b.maxLength = some greatest → s.length ≤ greatest
  | .number n => (∀ least, b.minimum = some least → ¬least.Above n.toBinary64) ∧
      ∀ greatest, b.maximum = some greatest → ¬greatest.Below n.toBinary64
  | _ => True

/-- The problem is the first bound that the value violates, the lower one being the first. -/
inductive Violates (b : Bounds) : Value → Problem → Prop where
  | tooShort {s : String} {least : Nat} (h : b.minLength = some least) (hs : s.length < least) :
    Violates b (.string s) (.tooShort least)
  | tooLong {s : String} {greatest : Nat}
      (hleast : ∀ least, b.minLength = some least → least ≤ s.length)
      (h : b.maxLength = some greatest) (hs : greatest < s.length) :
    Violates b (.string s) (.tooLong greatest)
  | belowMinimum {n : Number} {least : Limit} (h : b.minimum = some least)
      (hn : least.Above n.toBinary64) : Violates b (.number n) (.belowMinimum least)
  | aboveMaximum {n : Number} {greatest : Limit}
      (hleast : ∀ least, b.minimum = some least → ¬least.Above n.toBinary64)
      (h : b.maximum = some greatest) (hn : greatest.Below n.toBinary64) :
    Violates b (.number n) (.aboveMaximum greatest)

variable {b : Bounds} {v : Value} {problem : Problem}

section
variable {α : Type} {low high : Option α} {p q : α → Bool} {f g : α → Problem}

theorem filter_eq_none_iff : low.filter p = none ↔ ∀ a, low = some a → p a = false := by
  cases low <;> simp

/-- Of two bounds the upper one is told only where the lower one is kept. -/
theorem first_eq_some_iff :
    ((low.filter p).map f).or ((high.filter q).map g) = some problem ↔
      (∃ a, low = some a ∧ p a = true ∧ f a = problem) ∨
        (∀ a, low = some a → p a = false) ∧ ∃ a, high = some a ∧ q a = true ∧ g a = problem := by
  rw [← filter_eq_none_iff]
  cases hlow : low.filter p with
  | some a =>
      obtain ⟨rfl, ha⟩ := Option.filter_eq_some_iff.mp hlow
      simp [ha]
  | none =>
      have hkept := filter_eq_none_iff.mp hlow
      simp only [Option.map_none, Option.none_or, Option.map_eq_some_iff, Option.filter_eq_some_iff,
        true_and, and_assoc]
      refine ⟨.inr, fun h => h.resolve_left ?_⟩
      rintro ⟨a, ha, hp, -⟩
      rw [hkept a ha] at hp
      cases hp

theorem first_eq_none_iff :
    ((low.filter p).map f).or ((high.filter q).map g) = none ↔
      (∀ a, low = some a → p a = false) ∧ ∀ a, high = some a → q a = false := by
  rw [← filter_eq_none_iff, ← filter_eq_none_iff]
  cases low.filter p <;> simp

end

theorem lengthProblem?_eq (length : Nat) :
    b.lengthProblem? length =
      ((b.minLength.filter fun least => length < least).map .tooShort).or
        ((b.maxLength.filter fun greatest => greatest < length).map .tooLong) := by
  unfold lengthProblem?
  cases b.minLength.filter fun least => length < least <;> rfl

theorem sizeProblem?_eq (x : Binary64) :
    b.sizeProblem? x =
      ((b.minimum.filter fun least => least.isAbove x).map .belowMinimum).or
        ((b.maximum.filter fun greatest => greatest.isBelow x).map .aboveMaximum) := by
  unfold sizeProblem?
  cases b.minimum.filter fun least => least.isAbove x <;> rfl

/-- A value has no problem exactly where the bounds admit it. -/
theorem problem?_eq_none_iff : b.problem? v = none ↔ b.Admits v := by
  cases v with
  | string s =>
      show b.lengthProblem? s.length = none ↔ _
      rw [lengthProblem?_eq, first_eq_none_iff]
      simp only [decide_eq_false_iff_not, Nat.not_lt, Admits]
  | number n =>
      show b.sizeProblem? n.toBinary64 = none ↔ _
      rw [sizeProblem?_eq, first_eq_none_iff]
      simp only [← Bool.not_eq_true, Limit.isAbove_iff, Limit.isBelow_iff, Admits]
  | _ => simp [problem?, Admits]

/-- **The problem of a value is the first bound that it violates.** -/
theorem problem?_eq_some_iff : b.problem? v = some problem ↔ b.Violates v problem := by
  cases v with
  | string s =>
      show b.lengthProblem? s.length = some problem ↔ _
      rw [lengthProblem?_eq, first_eq_some_iff]
      simp only [decide_eq_false_iff_not, decide_eq_true_eq, Nat.not_lt]
      constructor
      · rintro (⟨least, h, hs, rfl⟩ | ⟨hleast, greatest, h, hs, rfl⟩)
        · exact .tooShort h hs
        · exact .tooLong hleast h hs
      · intro hviolates
        cases hviolates with
        | tooShort h hs => exact .inl ⟨_, h, hs, rfl⟩
        | tooLong hleast h hs => exact .inr ⟨hleast, _, h, hs, rfl⟩
  | number n =>
      show b.sizeProblem? n.toBinary64 = some problem ↔ _
      rw [sizeProblem?_eq, first_eq_some_iff]
      simp only [← Bool.not_eq_true, Limit.isAbove_iff, Limit.isBelow_iff]
      constructor
      · rintro (⟨least, h, hn, rfl⟩ | ⟨hleast, greatest, h, hn, rfl⟩)
        · exact .belowMinimum h hn
        · exact .aboveMaximum hleast h hn
      · intro hviolates
        cases hviolates with
        | belowMinimum h hn => exact .inl ⟨_, h, hn, rfl⟩
        | aboveMaximum hleast h hn => exact .inr ⟨hleast, _, h, hn, rfl⟩
  | null | bool _ | array _ | object _ =>
      -- No other value has bounds.
      constructor
      · intro h
        cases h
      · intro hviolates
        cases hviolates

/-- A value violates one bound first. -/
theorem Violates.unique {problem' : Problem} (h : b.Violates v problem)
    (h' : b.Violates v problem') : problem = problem' :=
  Option.some.inj ((problem?_eq_some_iff.mpr h).symm.trans (problem?_eq_some_iff.mpr h'))

/-- A value that violates a bound is not admitted. -/
theorem Violates.not_admits (h : b.Violates v problem) : ¬b.Admits v := by
  intro hadmits
  have hnone := problem?_eq_none_iff.mpr hadmits
  rw [problem?_eq_some_iff.mpr h] at hnone
  cases hnone

end Bounds

end Upkeep
