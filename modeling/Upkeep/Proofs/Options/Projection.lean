/-
Validated options are valid.

What a field yields is a value of its kind within its bounds, its default, or nothing.  Given
back as the raw value of the field, each of these is yielded again, so options that were
validated once pass as they are.  The one value that is not taken as it is is null: it comes
from a default only, counts as not supplied, and the default steps in a second time.
-/
import Upkeep.Proofs.Options.FieldWise

namespace Upkeep

open Json

/-- No kind has null among its values. -/
theorem FieldKind.Holds.ne_null {kind : FieldKind} {v : Value} (h : kind.Holds v) :
    v ≠ .null := by
  rintro rfl
  cases kind with
  | bool | string | number | list =>
      obtain ⟨_, hv⟩ := h
      cases hv

namespace Field

variable {f : Field} {raw values : Options} {o o' : Option Value}

/-- A field yields one thing. -/
theorem Yields.unique (h : f.Yields raw o) (h' : f.Yields raw o') : o = o' := by
  cases h with
  | supplied hv hw =>
      cases h' with
      | supplied hv' hw' =>
          obtain rfl := hv.unique hv'
          rw [hw.unique hw']
      | default hnone | omitted hnone => exact absurd hv (hnone _)
  | default hnone hdefault =>
      cases h' with
      | supplied hv => exact absurd hv (hnone _)
      | default _ hdefault' => exact hdefault.symm.trans hdefault'
      | omitted _ hdefault' => simp [hdefault] at hdefault'
  | omitted hnone hdefault =>
      cases h' with
      | supplied hv => exact absurd hv (hnone _)
      | default _ hdefault' => simp [hdefault] at hdefault'
      | omitted => rfl

theorem judge_eq_ok_iff : f.judge raw = .ok o ↔ f.Yields raw o := by
  constructor
  · exact yields_of_judge
  · intro h
    obtain ⟨o', hjudge⟩ := judge_ok_iff.mpr h.fine
    rw [hjudge, (yields_of_judge hjudge).unique h]

/-- What a field yields is yielded again where it is supplied. -/
theorem Yields.again (h : f.Yields raw o) (hvalues : values.get? f.name = o)
    (hdefault : ∀ v, f.default = some v → v = .null ∨ (f.kind.Holds v ∧ f.bounds.Admits v)) :
    f.Yields values o := by
  cases h with
  | supplied hv hw hbounds =>
      exact .supplied ⟨hvalues, hw.holds.ne_null⟩ (.itself hw.holds) hbounds
  | @default v hnone hv =>
      rcases hdefault v hv with rfl | ⟨hholds, hbounds⟩
      · refine .default (fun w hw => hw.2 ?_) hv
        exact Option.some.inj (hw.1.symm.trans hvalues)
      · exact .supplied ⟨hvalues, hholds.ne_null⟩ (.itself hholds) hbounds
  | omitted hnone hnodefault hrequired =>
      refine .omitted (fun w hw => ?_) hnodefault hrequired
      rw [hw.1] at hvalues
      cases hvalues

end Field

namespace Schema

variable {s : Schema} {raw values : Options} {codemod : String}

theorem validate_eq_ok_iff (hnames : (s.map Field.name).Nodup) :
    s.validate codemod raw = .ok values ↔ (∀ f ∈ s, f.Fine raw) ∧ s.values raw = values := by
  rw [validate_eq hnames, ← failures_eq_nil_iff]
  split
  next hnil => simp [hnil]
  next hfailures => simp [hfailures]

/-- A field is judged by its value as it was judged by what was supplied for it. -/
theorem judge_values (hnames : (s.map Field.name).Nodup) (hdefaults : s.DefaultsHold)
    (hfine : ∀ f ∈ s, f.Fine raw) {f : Field} (hf : f ∈ s) :
    f.judge (s.values raw) = f.judge raw := by
  obtain ⟨o, hjudge⟩ := Field.judge_ok_iff.mpr (hfine f hf)
  have hvalue : (s.values raw).get? f.name = o := get?_values hnames hf hjudge
  have hyields := Field.judge_eq_ok_iff.mp hjudge
  rw [hjudge, Field.judge_eq_ok_iff]
  exact hyields.again hvalue (hdefaults f hf)

/-- **Validation is a projection.**  Options that a schema answered are valid for it, and it
answers just them, in the same order. -/
theorem validate_projects (s : Schema) (hnames : (s.map Field.name).Nodup)
    (hdefaults : s.DefaultsHold) (codemod : String) (raw values : Options)
    (h : s.validate codemod raw = .ok values) : s.validate codemod values = .ok values := by
  obtain ⟨hfine, rfl⟩ := (validate_eq_ok_iff hnames).mp h
  rw [validate_of_judge (fun f hf => judge_values hnames hdefaults hfine hf), h]

/-- A number that was given for a text, texts that were given for a number and for a list, and a
default that is null are answered a second time as they were the first time. -/
theorem validate_projects_texts :
    let s : Schema :=
      [{ name := "name", kind := .string, bounds := { minLength := some 3, maxLength := some 5 } },
       { name := "note", kind := .string, required := true, default := some .null },
       { name := "port", kind := .number,
         bounds := { minimum := (Binary64.ofInt? 1000).map .finite } },
       { name := "quiet", kind := .bool },
       { name := "tags", kind := .list }]
    let raw : Options := [("tags", .string " a,, b "), ("port", .string "+3000 "),
      ("name", .number (.integer 12345 (by decide)))]
    let values : Options := [("name", .string "12345"), ("note", .null),
      ("port", .number (.integer 3000 (by decide))), ("tags", .array [.string "a", .string "b"])]
    s.validate "example" raw = .ok values ∧ s.validate "example" values = .ok values := by
  intro s raw values
  have hdefaults : s.DefaultsHold := by
    intro f hf v hv
    simp only [s, List.mem_cons, List.not_mem_nil, or_false] at hf
    rcases hf with rfl | rfl | rfl | rfl | rfl <;> cases hv
    exact .inl rfl
  have hraw : s.validate "example" raw = .ok values := by decide +kernel
  exact ⟨hraw, validate_projects s (by decide) hdefaults "example" raw values hraw⟩

end Schema

end Upkeep
