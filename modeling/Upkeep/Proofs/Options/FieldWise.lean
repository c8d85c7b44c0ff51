/-
Options are validated field by field.

Whether a field is fine, which value it gets and what is wrong with it depends on the raw
value of that field alone.  `Field.Yields` and `Field.Fails` say so for one field without the
order in which things are checked, and judging a field decides between them.  A schema then
accepts raw options where each of its fields is fine, with the fields' values in the order
of the schema, and otherwise reports each field that fails, once and in that order.
-/
import Upkeep.Proofs.Entries
import Upkeep.Proofs.Options.Coercion

namespace Upkeep

open Json

/-! ### One field -/

namespace Field

variable {f : Field} {raw raw' : Options} {v : Value} {problem : Problem} {o : Option Value}

/-- The raw options have this value for the field; a null counts for none. -/
def Supplied (f : Field) (raw : Options) (v : Value) : Prop :=
  raw.get? f.name = some v ∧ v ≠ .null

/-- The field is fine: what is supplied for it stands for a value within its bounds, and where
nothing is supplied there is a default, or the field is not required. -/
def Fine (f : Field) (raw : Options) : Prop :=
  (∀ v, f.Supplied raw v → ∃ w, f.kind.StandsFor v w ∧ f.bounds.Admits w) ∧
    ((∀ v, ¬f.Supplied raw v) → f.default ≠ none ∨ f.required = false)

/-- The value that a fine field gets, if it gets one. -/
inductive Yields (f : Field) (raw : Options) : Option Value → Prop where
  | supplied {v w : Value} (hv : f.Supplied raw v) (hw : f.kind.StandsFor v w)
      (hbounds : f.bounds.Admits w) : Yields f raw (some w)
  | default {v : Value} (hnone : ∀ v, ¬f.Supplied raw v) (h : f.default = some v) :
    Yields f raw (some v)
  | omitted (hnone : ∀ v, ¬f.Supplied raw v) (hdefault : f.default = none)
      (h : f.required = false) : Yields f raw none

/-- What is wrong with a field. -/
inductive Fails (f : Field) (raw : Options) : Problem → Prop where
  | missing (hnone : ∀ v, ¬f.Supplied raw v) (hdefault : f.default = none)
      (h : f.required = true) : Fails f raw .missing
  | wrongKind {v : Value} (hv : f.Supplied raw v) (hw : ∀ w, ¬f.kind.StandsFor v w) :
    Fails f raw (.wrongKind f.kind)
  | bound {v w : Value} {problem : Problem} (hv : f.Supplied raw v) (hw : f.kind.StandsFor v w)
      (hbounds : f.bounds.Violates w problem) : Fails f raw problem

theorem supplied?_eq_some_iff : f.supplied? raw = some v ↔ f.Supplied raw v := by
  unfold supplied? Supplied
  rw [Option.filter_eq_some_iff, decide_eq_true_eq]

theorem supplied?_eq_none_iff : f.supplied? raw = none ↔ ∀ v, ¬f.Supplied raw v := by
  rw [Option.eq_none_iff_forall_ne_some]
  exact forall_congr' fun v => not_congr supplied?_eq_some_iff

theorem Supplied.unique {w : Value} (h : f.Supplied raw v) (h' : f.Supplied raw w) : v = w :=
  Option.some.inj (h.1.symm.trans h'.1)

/-- A supplied value is accepted, of the wrong kind, or out of bounds. -/
theorem accept_cases (f : Field) (v : Value) :
    (∃ w, f.accept v = .ok w ∧ f.kind.StandsFor v w ∧ f.bounds.Admits w) ∨
      (f.accept v = .error (.wrongKind f.kind) ∧ ∀ w, ¬f.kind.StandsFor v w) ∨
        ∃ w problem, f.accept v = .error problem ∧ f.kind.StandsFor v w ∧
          f.bounds.Violates w problem := by
  unfold accept
  cases hw : f.kind.coerce? v with
  | none =>
      refine .inr (.inl ⟨rfl, fun w hstands => ?_⟩)
      rw [FieldKind.coerce?_eq_some_iff.mpr hstands] at hw
      cases hw
  | some w =>
      have hstands := FieldKind.coerce?_eq_some_iff.mp hw
      cases hproblem : f.bounds.problem? w with
      | none => exact .inl ⟨w, by simp [hproblem], hstands, Bounds.problem?_eq_none_iff.mp hproblem⟩
      | some problem =>
          exact .inr (.inr
            ⟨w, problem, by simp [hproblem], hstands, Bounds.problem?_eq_some_iff.mp hproblem⟩)

/-- **A field is judged to have a value, or none, or to fail, as it is.** -/
theorem judge_cases (f : Field) (raw : Options) :
    (∃ o, f.judge raw = .ok o ∧ f.Yields raw o) ∨
      ∃ problem, f.judge raw = .error problem ∧ f.Fails raw problem := by
  unfold judge
  cases hv : f.supplied? raw with
  | some v =>
      have hsupplied := supplied?_eq_some_iff.mp hv
      rcases f.accept_cases v with ⟨w, hok, hw, hb⟩ | ⟨hkind, hw⟩ | ⟨w, problem, hbound, hw, hb⟩
      · exact .inl ⟨some w, by simp only [hok, Except.map], .supplied hsupplied hw hb⟩
      · exact .inr ⟨_, by simp only [hkind, Except.map], .wrongKind hsupplied hw⟩
      · exact .inr ⟨problem, by simp only [hbound, Except.map], .bound hsupplied hw hb⟩
  | none =>
      have hnone := supplied?_eq_none_iff.mp hv
      cases hdefault : f.default with
      | some v => exact .inl ⟨some v, rfl, .default hnone hdefault⟩
      | none =>
          cases hrequired : f.required with
          | false => exact .inl ⟨none, rfl, .omitted hnone hdefault hrequired⟩
          | true => exact .inr ⟨.missing, rfl, .missing hnone hdefault hrequired⟩

/-- A field that gets a value, or none, is fine. -/
theorem Yields.fine (h : f.Yields raw o) : f.Fine raw := by
  cases h with
  | supplied hv hw hbounds =>
      refine ⟨fun v hv' => ?_, fun hnone => absurd hv (hnone _)⟩
      obtain rfl := hv.unique hv'
      exact ⟨_, hw, hbounds⟩
  | default hnone h =>
      exact ⟨fun v hv => absurd hv (hnone v), fun _ => .inl (by simp [h])⟩
  | omitted hnone _ h => exact ⟨fun v hv => absurd hv (hnone v), fun _ => .inr h⟩

/-- A field that fails is not fine. -/
theorem Fails.not_fine (h : f.Fails raw problem) : ¬f.Fine raw := by
  rintro ⟨hsupplied, hmissing⟩
  cases h with
  | missing hnone hdefault h => simpa [hdefault, h] using hmissing hnone
  | wrongKind hv hw =>
      obtain ⟨w, hstands, -⟩ := hsupplied _ hv
      exact hw w hstands
  | bound hv hw hbounds =>
      obtain ⟨w, hstands, hadmits⟩ := hsupplied _ hv
      obtain rfl := hw.unique hstands
      exact hbounds.not_admits hadmits

/-- A field has one problem at most. -/
theorem Fails.unique {problem' : Problem} (h : f.Fails raw problem) (h' : f.Fails raw problem') :
    problem = problem' := by
  cases h with
  | missing hnone =>
      cases h' with
      | missing => rfl
      | wrongKind hv | bound hv => exact absurd hv (hnone _)
  | wrongKind hv hw =>
      cases h' with
      | missing hnone => exact absurd hv (hnone _)
      | wrongKind => rfl
      | bound hv' hw' =>
          obtain rfl := hv.unique hv'
          exact absurd hw' (hw _)
  | bound hv hw hbounds =>
      cases h' with
      | missing hnone => exact absurd hv (hnone _)
      | wrongKind hv' hw' =>
          obtain rfl := hv.unique hv'
          exact absurd hw (hw' _)
      | bound hv' hw' hbounds' =>
          obtain rfl := hv.unique hv'
          obtain rfl := hw.unique hw'
          exact hbounds.unique hbounds'

theorem judge_ok_iff : (∃ o, f.judge raw = .ok o) ↔ f.Fine raw := by
  rcases f.judge_cases raw with ⟨o, ho, hyields⟩ | ⟨problem, hproblem, hfails⟩
  · exact iff_of_true ⟨o, ho⟩ hyields.fine
  · refine iff_of_false ?_ hfails.not_fine
    rintro ⟨o, ho⟩
    rw [hproblem] at ho
    cases ho

/-- What is not fine fails. -/
theorem exists_fails_iff : (∃ problem, f.Fails raw problem) ↔ ¬f.Fine raw := by
  constructor
  · rintro ⟨problem, hfails⟩
    exact hfails.not_fine
  · intro hfine
    rcases f.judge_cases raw with ⟨o, -, hyields⟩ | ⟨problem, -, hfails⟩
    · exact absurd hyields.fine hfine
    · exact ⟨problem, hfails⟩

theorem yields_of_judge (h : f.judge raw = .ok o) : f.Yields raw o := by
  rcases f.judge_cases raw with ⟨o', ho', hyields⟩ | ⟨problem, hproblem, -⟩
  · rw [h] at ho'
    cases ho'
    exact hyields
  · rw [h] at hproblem
    cases hproblem

/-- The problem that a field is judged to have is the one that it has. -/
theorem judge_error_iff : f.judge raw = .error problem ↔ f.Fails raw problem := by
  rcases f.judge_cases raw with ⟨o, ho, hyields⟩ | ⟨problem', hproblem, hfails⟩
  · refine iff_of_false (fun h => ?_) fun hfails => hfails.not_fine hyields.fine
    rw [ho] at h
    cases h
  · rw [hproblem, Except.error.injEq]
    constructor
    · rintro rfl
      exact hfails
    · exact hfails.unique

/-- A field looks at no other raw value than its own. -/
theorem judge_congr (h : raw'.get? f.name = raw.get? f.name) : f.judge raw' = f.judge raw := by
  unfold judge supplied?
  rw [h]

theorem value?_eq_some_iff {e : String × Value} :
    f.value? raw = some e ↔ e.1 = f.name ∧ f.judge raw = .ok (some e.2) := by
  obtain ⟨name, v⟩ := e
  unfold value?
  split
  next w hw => rw [hw]; simp [eq_comm]
  next hother =>
    refine iff_of_false (fun h => by cases h) ?_
    rintro ⟨-, h⟩
    exact hother v h

theorem failure?_eq_some_iff {failure : FieldFailure} :
    f.failure? raw = some failure ↔
      failure.field = f.name ∧ f.judge raw = .error failure.problem := by
  obtain ⟨field, problem⟩ := failure
  unfold failure?
  split
  next problem' hproblem => rw [hproblem]; simp [eq_comm]
  next o ho => rw [ho]; simp

end Field

/-! ### All fields -/

namespace Schema

variable {s : Schema} {raw raw' : Options} {f : Field}

/-- What is kept of some elements stands in their order. -/
theorem sublist_filterMap {α β γ : Type} {g : α → Option β} {key : β → γ} {name : α → γ}
    (h : ∀ a b, g a = some b → key b = name a) (as : List α) :
    ((as.filterMap g).map key).Sublist (as.map name) := by
  induction as with
  | nil => exact .slnil
  | cons a as ih =>
      cases hg : g a with
      | none =>
          rw [List.filterMap_cons_none hg]
          exact ih.cons _
      | some b =>
          rw [List.filterMap_cons_some hg, List.map_cons, h a b hg]
          exact ih.cons_cons _

/-- The values of the fields, in the order of the schema. -/
def values (s : Schema) (raw : Options) : Options := s.filterMap fun f => f.value? raw

/-- The failures of the fields, in the order of the schema. -/
def failures (s : Schema) (raw : Options) : List FieldFailure := s.filterMap fun f => f.failure? raw

theorem values_sublist (s : Schema) (raw : Options) :
    ((s.values raw).keys).Sublist (s.map Field.name) :=
  sublist_filterMap (fun _ _ h => (Field.value?_eq_some_iff.mp h).1) s

theorem failures_sublist (s : Schema) (raw : Options) :
    ((s.failures raw).map FieldFailure.field).Sublist (s.map Field.name) :=
  sublist_filterMap (fun _ _ h => (Field.failure?_eq_some_iff.mp h).1) s

theorem distinct_values (hnames : (s.map Field.name).Nodup) : (s.values raw).Distinct :=
  (s.values_sublist raw).nodup hnames

/-- Under the name of a field stands the value of that field. -/
theorem get?_values (hnames : (s.map Field.name).Nodup) (hf : f ∈ s) {o : Option Value}
    (hjudge : f.judge raw = .ok o) : (s.values raw).get? f.name = o := by
  cases o with
  | some v =>
      refine Entries.get?_of_mem (distinct_values hnames) (List.mem_filterMap.mpr ⟨f, hf, ?_⟩)
      exact Field.value?_eq_some_iff.mpr ⟨rfl, hjudge⟩
  | none =>
      rw [Entries.get?_eq_none_iff]
      intro hmem
      obtain ⟨e, he, hname⟩ := List.mem_map.mp hmem
      obtain ⟨g, hg, hvalue⟩ := List.mem_filterMap.mp he
      obtain ⟨hgname, hgjudge⟩ := Field.value?_eq_some_iff.mp hvalue
      -- No other field has this name, so the value would be that of the field itself.
      obtain rfl : g = f := List.inj_on_of_nodup_map hnames hg hf (hgname.symm.trans hname)
      rw [hjudge] at hgjudge
      cases hgjudge

/-- A field is among the failures with the problem that it has. -/
theorem mem_failures_iff (hnames : (s.map Field.name).Nodup) (hf : f ∈ s) {problem : Problem} :
    ⟨f.name, problem⟩ ∈ s.failures raw ↔ f.Fails raw problem := by
  rw [← Field.judge_error_iff]
  constructor
  · intro hmem
    obtain ⟨g, hg, hfailure⟩ := List.mem_filterMap.mp hmem
    obtain ⟨hname, hjudge⟩ := Field.failure?_eq_some_iff.mp hfailure
    obtain rfl : f = g := List.inj_on_of_nodup_map hnames hf hg hname
    exact hjudge
  · intro hjudge
    exact List.mem_filterMap.mpr ⟨f, hf, Field.failure?_eq_some_iff.mpr ⟨rfl, hjudge⟩⟩

theorem failures_eq_nil_iff : s.failures raw = [] ↔ ∀ f ∈ s, f.Fine raw := by
  unfold failures
  rw [List.filterMap_eq_nil_iff]
  refine forall₂_congr fun f _ => ?_
  rw [← Field.judge_ok_iff]
  unfold Field.failure?
  split
  next problem hproblem => simp [hproblem]
  next o ho => simp [ho]

/-- The values are those of the schema for the raw options: they stand in the order of its
fields, each field has the value that it yields, and a value that is no null is of the kind of
its field and within its bounds. -/
structure Accepts (s : Schema) (raw values : Options) : Prop where
  ordered : values.keys.Sublist (s.map Field.name)
  yields : ∀ f ∈ s, f.Yields raw (values.get? f.name)
  holds : ∀ f ∈ s, ∀ v, values.get? f.name = some v → v ≠ .null →
    f.kind.Holds v ∧ f.bounds.Admits v

/-- The error is that of the schema for the raw options: its failures stand in the order of the
fields, they are those of the fields that are not fine, each once, and each tells what is wrong
with its field. -/
structure Reports (s : Schema) (codemod : String) (raw : Options) (e : ValidationError) : Prop where
  codemod : e.codemod = codemod
  ordered : (e.failures.map FieldFailure.field).Sublist (s.map Field.name)
  once : (e.failures.map FieldFailure.field).Nodup
  failing : ∀ f ∈ s, f.name ∈ e.failures.map FieldFailure.field ↔ ¬f.Fine raw
  fails : ∀ f ∈ s, ∀ problem, ⟨f.name, problem⟩ ∈ e.failures ↔ f.Fails raw problem

/-- The defaults of the schema are null, or of the kind of their field and within its
bounds. -/
def DefaultsHold (s : Schema) : Prop :=
  ∀ f ∈ s, ∀ v, f.default = some v → v = .null ∨ (f.kind.Holds v ∧ f.bounds.Admits v)

theorem accepts_values (hnames : (s.map Field.name).Nodup) (hdefaults : s.DefaultsHold)
    (hfine : ∀ f ∈ s, f.Fine raw) : s.Accepts raw (s.values raw) := by
  have hyields : ∀ f ∈ s, f.Yields raw ((s.values raw).get? f.name) := by
    intro f hf
    obtain ⟨o, hjudge⟩ := Field.judge_ok_iff.mpr (hfine f hf)
    rw [get?_values hnames hf hjudge]
    exact Field.yields_of_judge hjudge
  refine ⟨s.values_sublist raw, hyields, fun f hf v hv hnull => ?_⟩
  have hyield := hyields f hf
  rw [hv] at hyield
  cases hyield with
  | supplied hv hw hbounds => exact ⟨hw.holds, hbounds⟩
  | default _ hdefault => exact (hdefaults f hf v hdefault).resolve_left hnull

theorem reports_failures (hnames : (s.map Field.name).Nodup) (codemod : String) (raw : Options) :
    s.Reports codemod raw ⟨codemod, s.failures raw⟩ := by
  refine ⟨rfl, s.failures_sublist raw, (s.failures_sublist raw).nodup hnames, fun f hf => ?_,
    fun f hf problem => mem_failures_iff hnames hf⟩
  rw [← Field.exists_fails_iff]
  constructor
  · intro hmem
    obtain ⟨⟨field, problem⟩, hfailure, rfl⟩ := List.mem_map.mp hmem
    exact ⟨problem, (mem_failures_iff hnames hf).mp hfailure⟩
  · rintro ⟨problem, hfails⟩
    exact List.mem_map.mpr ⟨_, (mem_failures_iff hnames hf).mpr hfails, rfl⟩

theorem validate_eq (hnames : (s.map Field.name).Nodup) (codemod : String) (raw : Options) :
    s.validate codemod raw =
      if s.failures raw = [] then .ok (s.values raw) else .error ⟨codemod, s.failures raw⟩ := by
  show (if s.failures raw = [] then Except.ok (Entries.putAll [] (s.values raw)) else _) = _
  rw [Entries.putAll_nil_of_distinct (distinct_values hnames)]
  rfl

/-- Validation looks at nothing but what each field is judged to have. -/
theorem validate_of_judge (h : ∀ f ∈ s, f.judge raw' = f.judge raw) (codemod : String) :
    s.validate codemod raw' = s.validate codemod raw := by
  have hvalues : (s.filterMap fun f => f.value? raw') = s.filterMap fun f => f.value? raw :=
    List.filterMap_congr fun f hf => by unfold Field.value?; rw [h f hf]
  have hfailures : (s.filterMap fun f => f.failure? raw') = s.filterMap fun f => f.failure? raw :=
    List.filterMap_congr fun f hf => by unfold Field.failure?; rw [h f hf]
  unfold validate
  rw [hvalues, hfailures]

/-- What the other raw options are, and in which order, does not matter. -/
theorem validate_congr (h : ∀ f ∈ s, raw'.get? f.name = raw.get? f.name) (codemod : String) :
    s.validate codemod raw' = s.validate codemod raw :=
  validate_of_judge (fun f hf => Field.judge_congr (h f hf)) codemod

/-- **Validation is exact, field by field.**

The raw options are valid exactly where each field on its own is fine.  What is answered then
are the values of the schema for them, and what is answered otherwise is the error of the schema
for them.  Raw options that agree on the fields of the schema get the same answer, whatever else
they hold and in which order. -/
theorem validate_exact (s : Schema) (hnames : (s.map Field.name).Nodup)
    (hdefaults : s.DefaultsHold) (codemod : String) (raw : Options) :
    ((∃ values, s.validate codemod raw = .ok values) ↔ ∀ f ∈ s, f.Fine raw) ∧
      (∀ values, s.validate codemod raw = .ok values → s.Accepts raw values) ∧
      (∀ e, s.validate codemod raw = .error e → s.Reports codemod raw e) ∧
      ∀ raw' : Options, (∀ f ∈ s, raw'.get? f.name = raw.get? f.name) →
        s.validate codemod raw' = s.validate codemod raw := by
  have hvalidate := validate_eq hnames codemod raw
  by_cases hfine : ∀ f ∈ s, f.Fine raw
  · rw [if_pos (failures_eq_nil_iff.mpr hfine)] at hvalidate
    refine ⟨iff_of_true ⟨_, hvalidate⟩ hfine, fun values hvalues => ?_, fun e he => ?_,
      fun raw' h => validate_congr h codemod⟩
    · obtain rfl := Except.ok.inj (hvalidate.symm.trans hvalues)
      exact accepts_values hnames hdefaults hfine
    · rw [hvalidate] at he
      cases he
  · rw [if_neg fun hnil => hfine (failures_eq_nil_iff.mp hnil)] at hvalidate
    refine ⟨iff_of_false ?_ hfine, fun values hvalues => ?_, fun e he => ?_,
      fun raw' h => validate_congr h codemod⟩
    · rintro ⟨values, hvalues⟩
      rw [hvalidate] at hvalues
      cases hvalues
    · rw [hvalidate] at hvalues
      cases hvalues
    · obtain rfl := Except.error.inj (hvalidate.symm.trans he)
      exact reports_failures hnames codemod raw

/-- A schema with a field of each kind, a required one among them. -/
def ofEachKind : Schema :=
  [{ name := "featureName", kind := .string, required := true,
     bounds := { minLength := some 3, maxLength := some 50 } },
   { name := "enabled", kind := .bool, default := some (.bool true) },
   { name := "port", kind := .number, bounds := { minimum := (Binary64.ofInt? 1000).map .finite } },
   { name := "frameworks", kind := .list, default := some (.array [.string "react"]) }]

/-- A short name and a small port fail, once each and in the order of the schema; raw options
that tell the same in another order and with more get the same error. -/
theorem validate_ofEachKind :
    ∃ e, ofEachKind.validate "example"
        [("port", .number (.integer 80 (by decide))), ("other", .null),
          ("featureName", .string "ab")] = .error e ∧
      e.failures.map FieldFailure.field = ["featureName", "port"] ∧
      ofEachKind.Reports "example" [("featureName", .string "ab"),
        ("port", .number (.integer 80 (by decide)))] e := by
  have hdefaults : ofEachKind.DefaultsHold := by
    intro f hf v hv
    simp only [ofEachKind, List.mem_cons, List.not_mem_nil, or_false] at hf
    rcases hf with rfl | rfl | rfl | rfl <;> cases hv
    · exact .inr ⟨⟨true, rfl⟩, trivial⟩
    · exact .inr ⟨⟨["react"], rfl⟩, trivial⟩
  obtain ⟨-, -, hreports, hsame⟩ := validate_exact ofEachKind (by decide) hdefaults "example"
    [("featureName", .string "ab"), ("port", .number (.integer 80 (by decide)))]
  refine ⟨_, ?_, ?_, hreports _ rfl⟩
  · exact (hsame _ (by decide +kernel)).trans rfl
  · decide +kernel

end Schema

end Upkeep
