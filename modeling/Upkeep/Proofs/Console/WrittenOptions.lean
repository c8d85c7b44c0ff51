/-
Options written on the command line.

An option arrives as a text behind its name, whatever kind its field has.  `FieldKind.Writes`
says which text writes which value: a word for a truth value, digits for an integer, items
between commas, with blanks around them, for a list, and the string itself.  In a field of the
kind that text stands for the value that it writes, just as the value does itself, so nobody
can tell afterwards which of the two was given.
-/
import Upkeep.Console.KeyValue
import Upkeep.Proofs.Options.Projection
import Upkeep.Proofs.Text.Digits
import Upkeep.Proofs.Text.Lines

namespace Upkeep

open Json

/-! ### Integers as texts -/

theorem natural?_digits (n : Nat) : Text.natural? (Text.digits n) = some n := by
  have hdigits : (Text.digits n).all Char.isDigit = true :=
    List.all_eq_true.mpr fun _ => Text.isDigit_of_mem_digits
  unfold Text.natural?
  rw [if_pos ⟨Text.digits_ne_nil n, hdigits⟩, Text.valueOfDigits_digits]

/-- The digits of an integer write it. -/
theorem writesInteger_integerText (i : Int) : WritesInteger (integerText i) i := by
  have hdigits := natural?_digits i.natAbs
  unfold integerText
  split
  next hneg =>
    have hwrites : WritesInteger ('-' :: Text.digits i.natAbs) (-(i.natAbs : Int)) := .minus hdigits
    rwa [show -(i.natAbs : Int) = i by omega] at hwrites
  next hnonneg =>
    have hwrites : WritesInteger (Text.digits i.natAbs) (i.natAbs : Int) := .unsigned hdigits
    rwa [show (i.natAbs : Int) = i by omega] at hwrites

theorem isBlank_of_isDigit {c : Char} (h : c.isDigit = true) : Text.isBlank c = false := by
  obtain ⟨hlow, hhigh⟩ := Text.toNat_of_isDigit h
  simp [Text.isBlank]
  omega

theorem trim_integerText (i : Int) : Text.trim (integerText i) = integerText i := by
  have hdigits : ∀ c ∈ Text.digits i.natAbs, Text.isBlank c = false :=
    fun c hc => isBlank_of_isDigit (Text.isDigit_of_mem_digits hc)
  refine Text.trim_of_no_blank fun c hc => ?_
  unfold integerText at hc
  split at hc
  · rcases List.mem_cons.mp hc with rfl | hc
    · decide
    · exact hdigits c hc
  · exact hdigits c hc

/-! ### Items as texts -/

/-- The item can stand in a list that is written as a text: it is not empty, no blank stands at
either of its ends, and it has no comma. -/
def IsItem (item : String) : Prop :=
  item ≠ "" ∧ Text.trim item.toList = item.toList ∧ ',' ∉ item.toList

/-- The part of a text is the item, with any blanks around it. -/
def Surrounds (part : List Char) (item : String) : Prop :=
  ∃ before after : List Char, (∀ c ∈ before, Text.isBlank c = true) ∧
    (∀ c ∈ after, Text.isBlank c = true) ∧ part = before ++ item.toList ++ after

variable {part : List Char} {item : String}

theorem Surrounds.trim_eq (h : Surrounds part item) (hitem : IsItem item) :
    Text.trim part = item.toList := by
  obtain ⟨before, after, hbefore, hafter, rfl⟩ := h
  rw [Text.trim_append_blanks hafter, Text.trim_blanks_append hbefore, hitem.2.1]

theorem Surrounds.comma_notMem (h : Surrounds part item) (hitem : IsItem item) : ',' ∉ part := by
  obtain ⟨before, after, hbefore, hafter, rfl⟩ := h
  have hcomma : ∀ blanks : List Char, (∀ c ∈ blanks, Text.isBlank c = true) → ',' ∉ blanks :=
    fun blanks hblanks hmem => absurd (hblanks _ hmem) (by decide)
  simp [hcomma before hbefore, hcomma after hafter, hitem.2.2]

/-- Items between commas are read back. -/
theorem itemsOfText_intercalate {parts : List (List Char)} {items : List String}
    (hitems : ∀ item ∈ items, IsItem item) (hparts : List.Forall₂ Surrounds parts items) :
    itemsOfText ([','].intercalate parts) = items.map String.toList := by
  have htrimmed : parts.map Text.trim = items.map String.toList := by
    induction hparts with
    | nil => rfl
    | cons hpart _ ih =>
        rw [List.map_cons, List.map_cons, hpart.trim_eq (hitems _ List.mem_cons_self),
          ih fun item hitem => hitems item (List.mem_cons_of_mem _ hitem)]
  have hcomma : ∀ part ∈ parts, ',' ∉ part := by
    clear htrimmed
    induction hparts with
    | nil => exact fun part hpart => absurd hpart List.not_mem_nil
    | cons hpart _ ih =>
        exact List.forall_mem_cons.mpr ⟨hpart.comma_notMem (hitems _ List.mem_cons_self),
          ih fun item hitem => hitems item (List.mem_cons_of_mem _ hitem)⟩
  unfold itemsOfText
  by_cases hnil : parts = []
  · -- A text without any part is still one part, an empty one that is left out.
    subst hnil
    rw [← htrimmed]
    rfl
  · rw [List.splitOn_intercalate ',' hcomma hnil, htrimmed, List.filter_eq_self]
    intro cs hcs
    obtain ⟨item, hitem, rfl⟩ := List.mem_map.mp hcs
    simpa using (hitems item hitem).1

/-! ### Values as texts -/

namespace FieldKind

/-- The text writes the value in a field of the kind. -/
inductive Writes : FieldKind → String → Value → Prop where
  | bool (b : Bool) : Writes .bool (if b then "true" else "false") (.bool b)
  | string (s : String) : Writes .string s (.string s)
  /-- An integer of 64 bits is written by its digits. -/
  | integer {i : Int} (hi : IsInteger64 i) : Writes .number (String.ofList (integerText i))
      (.number (.integer i (fits_of_signed hi.1 hi.2)))
  | list {parts : List (List Char)} {items : List String} (hitems : ∀ item ∈ items, IsItem item)
      (hparts : List.Forall₂ Surrounds parts items) :
    Writes .list (String.ofList ([','].intercalate parts)) (.array (items.map .string))

variable {kind : FieldKind} {text : String} {v : Value}

theorem Writes.holds (h : kind.Writes text v) : kind.Holds v := by
  cases h with
  | bool b => exact ⟨b, rfl⟩
  | string => exact ⟨text, rfl⟩
  | integer hi => exact ⟨_, rfl⟩
  | list hitems hparts => exact ⟨_, rfl⟩

/-- A text stands for the value that it writes. -/
theorem Writes.standsFor (h : kind.Writes text v) : kind.StandsFor (.string text) v := by
  cases h with
  | bool b =>
      cases b with
      | false => exact .no (by decide)
      | true => exact .yes (by decide)
  | string => exact .itself ⟨text, rfl⟩
  | @integer i hi =>
      refine .integer (i := i) ?_ hi
      rw [String.toList_ofList, trim_integerText]
      exact writesInteger_integerText i
  | @list parts items hitems hparts =>
      have hread : itemsOfText (String.ofList ([','].intercalate parts)).toList =
          items.map String.toList := by
        rw [String.toList_ofList, itemsOfText_intercalate hitems hparts]
      have hvalues : (items.map String.toList).map (fun item => Value.string (.ofList item)) =
          items.map .string := by
        rw [List.map_map]
        exact List.map_congr_left fun item _ => congrArg Value.string String.ofList_toList
      rw [← hvalues, ← hread]
      exact .items _

end FieldKind

/-! ### Options as texts -/

/-- A field judges the text as it judges the value that the text writes. -/
theorem Field.judge_written {f : Field} {text : String} {v : Value} (h : f.kind.Writes text v)
    (raw : Options) : f.judge (raw.put f.name (.string text)) = f.judge (raw.put f.name v) := by
  have hcoerce : f.kind.coerce? (.string text) = f.kind.coerce? v := by
    rw [FieldKind.coerce?_eq_some_iff.mpr h.standsFor, FieldKind.coerce?_of_holds h.holds]
  have hsupplied : ∀ w, w ≠ .null → f.supplied? (raw.put f.name w) = some w := fun w hw =>
    Field.supplied?_eq_some_iff.mpr ⟨Entries.get?_put_self raw f.name w, hw⟩
  unfold Field.judge Field.accept
  rw [hsupplied _ (by simp), hsupplied _ h.holds.ne_null]
  simp only [hcoerce]

namespace Console

/-- What follows the first `=` is the value, whatever is in it. -/
theorem parseKeyValue_eq {name : String} (hne : name ≠ "")
    (htrim : Text.trim name.toList = name.toList) (hequals : '=' ∉ name.toList) (text : String) :
    parseKeyValue (name ++ "=" ++ text) = .ok (name, text) := by
  have hcut : Text.cut '=' (name ++ "=" ++ text).toList = (name.toList, some text.toList) := by
    rw [String.toList_append, String.toList_append, List.append_assoc]
    exact Text.cut_append hequals
  obtain ⟨c, cs, hname⟩ : ∃ c cs, name.toList = c :: cs :=
    List.exists_cons_of_ne_nil (by simpa using hne)
  have hback : String.ofList (c :: cs) = name := by rw [← hname, String.ofList_toList]
  unfold parseKeyValue
  simp only [hcut]
  rw [htrim, hname]
  simp only [hback, String.ofList_toList]

/-- **An option that is written on the command line means what the value means that it writes.**

It is parsed into the name of its field and its text.  Beside any other options, the field gets
the same value from the text as from the value, or has the same problem with it.  A schema that
gives the name to fields of this kind only, as every schema does whose names are distinct, then
answers the same options or the same failures. -/
theorem written_option_validates (f : Field) (hne : f.name ≠ "")
    (htrim : Text.trim f.name.toList = f.name.toList) (hequals : '=' ∉ f.name.toList)
    (text : String) (v : Value) (hwrites : f.kind.Writes text v) :
    ∃ key value, parseKeyValue (f.name ++ "=" ++ text) = .ok (key, value) ∧
      ∀ raw : Options, f.judge (raw.put key (.string value)) = f.judge (raw.put f.name v) ∧
        ∀ (s : Schema) (codemod : String), (∀ g ∈ s, g.name = f.name → g.kind = f.kind) →
          s.validate codemod (raw.put key (.string value)) =
            s.validate codemod (raw.put f.name v) := by
  refine ⟨f.name, text, parseKeyValue_eq hne htrim hequals text, fun raw =>
    ⟨Field.judge_written hwrites raw, fun s codemod hkinds => ?_⟩⟩
  refine Schema.validate_of_judge (fun g hg => ?_) codemod
  by_cases hname : g.name = f.name
  · rw [← hname]
    exact Field.judge_written (hkinds g hg hname ▸ hwrites) raw
  · refine Field.judge_congr ?_
    rw [Entries.get?_put_of_ne _ _ (Ne.symm hname), Entries.get?_put_of_ne _ _ (Ne.symm hname)]

/-- A list with blanks around its items, one of which has an equals sign in it. -/
theorem written_option_validates_list :
    parseKeyValue "frameworks= react ,\tvue=x" = .ok ("frameworks", " react ,\tvue=x") ∧
      Schema.ofEachKind.validate "example"
          [("featureName", .string "abc"), ("frameworks", .string " react ,\tvue=x")] =
        Schema.ofEachKind.validate "example"
          [("featureName", .string "abc"),
            ("frameworks", .array [.string "react", .string "vue=x"])] := by
  let f : Field := { name := "frameworks", kind := .list }
  have hwrites : f.kind.Writes " react ,\tvue=x" (.array [.string "react", .string "vue=x"]) :=
    @FieldKind.Writes.list [" react ".toList, "\tvue=x".toList] ["react", "vue=x"]
      (by simp only [IsItem]; decide)
      (.cons ⟨[' '], [' '], by simp [Text.isBlank], by simp [Text.isBlank], rfl⟩
        (.cons ⟨['\t'], [], by simp [Text.isBlank], by simp, rfl⟩ .nil))
  obtain ⟨key, value, hparse, hsame⟩ :=
    written_option_validates f (by decide) (by decide) (by decide) _ _ hwrites
  obtain ⟨rfl, rfl⟩ : key = "frameworks" ∧ value = " react ,\tvue=x" := by
    have hparsed : parseKeyValue "frameworks= react ,\tvue=x" = .ok (key, value) := hparse
    rw [show parseKeyValue "frameworks= react ,\tvue=x" =
      .ok ("frameworks", " react ,\tvue=x") by decide +kernel] at hparsed
    cases hparsed
    exact ⟨rfl, rfl⟩
  exact ⟨hparse, (hsame [("featureName", .string "abc")]).2 Schema.ofEachKind "example" (by decide)⟩

end Console

end Upkeep
