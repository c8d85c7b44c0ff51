/-
The range that requests leave a package with.

Requests for one package all work on one entry: the one under which the package was declared,
or else the one that the first of them adds.  There they raise the range in order, and requests
for other packages have no part in it.  So what is left of a package after any requests, even
many for one name, is told by its `home?` and by `raiseAll` of the ranges that were asked for.
-/
import Upkeep.Proofs.Manifest.Requests
import Upkeep.Proofs.Version.Supersession

namespace Upkeep.Manifest

open Json (Value)
open Version (raise raiseAll)

/-- The ranges that are asked for a package, in order. -/
def rangesFor (rs : List Request) (name : String) : List String :=
  (rs.filter fun r => r.name = name).map Request.range

namespace Declared

variable {d d' : Declared} {s t : Section} {name range : String} {r : Request} {rs : List Request}
  {ps : Packages}

theorem declared?_eq_some_iff :
    declared? ps name = some range ↔ ps.get? name = some (.string range) ∧ range ≠ "" := by
  unfold declared?
  rw [Option.filter_eq_some_iff]
  cases ps.get? name with
  | none => simp
  | some v => cases v <;> simp [Value.string?]

/-- A package is found in the first section that declares it. -/
theorem find?_eq_some_iff :
    d.find? name = some (s, range) ↔
      ((d.part s).get? name = some (.string range) ∧ range ≠ "") ∧
        (s = .runtime ∨ declared? (d.part .runtime) name = none) := by
  rw [find?_eq, ← declared?_eq_some_iff]
  cases hruntime : declared? (d.part .runtime) name with
  | some other => cases s <;> simp [hruntime]
  | none => cases s <;> simp [hruntime]

theorem find?_eq_none_iff :
    d.find? name = none ↔ ∀ s, declared? (d.part s) name = none := by
  rw [find?_eq]
  constructor
  · intro h s
    split at h
    · cases h
    next hruntime =>
      cases s with
      | runtime => exact hruntime
      | development => simpa using h
  · intro h
    rw [h .runtime, h .development]
    rfl

/-- A package that is found is raised where it stands. -/
theorem request_of_some (h : d.find? r.name = some (s, range)) :
    d.request r = d.declare s r.name (raise range r.range) := by
  unfold Declared.request raise
  rw [h]
  simp only
  split
  · rfl
  · obtain ⟨⟨hget, -⟩, -⟩ := find?_eq_some_iff.mp h
    cases s with
    | runtime => exact congrArg (Declared.mk · d.development) (Entries.put_of_get? hget).symm
    | development => exact congrArg (Declared.mk d.runtime) (Entries.put_of_get? hget).symm

theorem request_of_none (h : d.find? r.name = none) :
    d.request r = d.declare r.target r.name r.range := by
  unfold Declared.request
  rw [h]

/-- The section in which requests leave a package, with the range that they raise: those under
which it is declared, or else those of the first request for it. -/
def home? (d : Declared) (rs : List Request) (name : String) : Option (Section × String) :=
  (d.find? name).or ((rs.find? fun r => r.name = name).map fun r => (r.target, r.range))

theorem home?_of_find? (h : d.find? name = some (s, range)) (rs : List Request) :
    d.home? rs name = some (s, range) := by
  unfold home?
  rw [h]
  rfl

theorem home?_cases (h : d.home? rs name = some (s, range)) :
    d.find? name = some (s, range) ∨
      d.find? name = none ∧
        ∃ r ∈ rs.find? (fun r => r.name = name), r.target = s ∧ r.range = range := by
  unfold home? at h
  cases hfind : d.find? name with
  | some found =>
      rw [hfind] at h
      exact .inl h
  | none =>
      rw [hfind, Option.none_or, Option.map_eq_some_iff] at h
      obtain ⟨r, hr, hhome⟩ := h
      obtain ⟨hs, hrange⟩ := Prod.mk.inj hhome
      exact .inr ⟨rfl, r, hr, hs, hrange⟩

theorem exists_home? (d : Declared) (hr : r ∈ rs) :
    ∃ s range, d.home? rs r.name = some (s, range) := by
  have hfound : (rs.find? fun q => q.name = r.name).isSome = true :=
    List.find?_isSome.mpr ⟨r, hr, by simp⟩
  obtain ⟨q, hq⟩ := Option.isSome_iff_exists.mp hfound
  unfold home?
  rw [hq]
  cases d.find? r.name with
  | none => exact ⟨_, _, rfl⟩
  | some found => exact ⟨_, _, rfl⟩

/-- The range at home says something, if those that are asked for do. -/
theorem home?_ne_empty (hne : ∀ r ∈ rs, r.range ≠ "") (h : d.home? rs name = some (s, range)) :
    range ≠ "" := by
  rcases home?_cases h with hfind | ⟨-, r, hr, -, rfl⟩
  · exact (find?_eq_some_iff.mp hfind).1.2
  · exact hne r (List.mem_of_find?_eq_some hr)

/-- A package at home in the second section is not declared in the first. -/
theorem home?_not_hidden (h : d.home? rs name = some (s, range)) :
    s = .runtime ∨ declared? (d.part .runtime) name = none := by
  rcases home?_cases h with hfind | ⟨hnone, -⟩
  · exact (find?_eq_some_iff.mp hfind).2
  · exact .inr (find?_eq_none_iff.mp hnone .runtime)

/-- Answering a request declares its package at home. -/
theorem request_of_home (h : d.home? (r :: rs) r.name = some (s, range)) :
    d.request r = d.declare s r.name (raise range r.range) := by
  rcases home?_cases h with hfind | ⟨hnone, q, hq, rfl, rfl⟩
  · exact request_of_some hfind
  · rw [List.find?_cons_of_pos (by simp)] at hq
    cases hq
    rw [Version.raise_self]
    exact request_of_none hnone

/-- **What requests leave of a package that is declared or asked for.**  Only the entry at home
changes, and it has the range that the requests for it leave. -/
theorem get?_requestAll_home (hne : ∀ r ∈ rs, r.range ≠ "")
    (h : d.home? rs name = some (s, range)) (t : Section) :
    ((d.requestAll rs).part t).get? name =
      if s = t then some (.string (raiseAll range (rangesFor rs name)))
      else (d.part t).get? name := by
  induction rs generalizing d range with
  | nil =>
      have hfind : d.find? name = some (s, range) := by simpa [home?] using h
      obtain ⟨⟨hget, -⟩, -⟩ := find?_eq_some_iff.mp hfind
      split
      next hst => exact hst ▸ hget
      next => rfl
  | cons r rs ih =>
      have hrest : ∀ q ∈ rs, q.range ≠ "" := fun q hq => hne q (by simp [hq])
      show (((d.request r).requestAll rs).part t).get? name = _
      by_cases hname : r.name = name
      · subst hname
        have hraised : raise range r.range ≠ "" := by
          unfold Version.raise
          split
          · exact hne r (by simp)
          · exact home?_ne_empty hne h
        have hranges : rangesFor (r :: rs) r.name = r.range :: rangesFor rs r.name := by
          simp [rangesFor]
        have hdeclared : (d.declare s r.name (raise range r.range)).find? r.name =
            some (s, raise range r.range) := find?_declare hraised (home?_not_hidden h)
        rw [request_of_home h, ih hrest (home?_of_find? hdeclared rs), hranges]
        split
        next => rfl
        next hst => rw [part_declare, if_neg hst]
      · have hsame : ∀ t, ((d.request r).part t).get? name = (d.part t).get? name :=
          get?_request_of_ne hname
        have hhome : (d.request r).home? rs name = some (s, range) := by
          unfold home? at h ⊢
          rw [find?_congr fun s => declared?_congr (hsame s)]
          rwa [List.find?_cons_of_neg (by simpa using hname)] at h
        have hranges : rangesFor (r :: rs) name = rangesFor rs name := by
          simp [rangesFor, hname]
        rw [ih hrest hhome, hsame, hranges]

/-- After the requests a package is found at home. -/
theorem find?_requestAll (hne : ∀ r ∈ rs, r.range ≠ "")
    (h : d.home? rs name = some (s, range)) :
    (d.requestAll rs).find? name = some (s, raiseAll range (rangesFor rs name)) := by
  have hget := get?_requestAll_home hne h
  rw [find?_eq_some_iff, hget s, if_pos rfl]
  refine ⟨⟨rfl, ?_⟩, ?_⟩
  · rcases Version.raiseAll_mem range (rangesFor rs name) with hsame | hmem
    · rw [hsame]
      exact home?_ne_empty hne h
    · obtain ⟨r, hr, hr'⟩ := List.mem_map.mp hmem
      rw [← hr']
      exact hne r (List.mem_of_mem_filter hr)
  · by_cases hs : s = .runtime
    · exact .inl hs
    · refine .inr ?_
      rw [declared?_congr ((hget .runtime).trans (if_neg hs))]
      exact (home?_not_hidden h).resolve_left hs

/-! ### The entries as a whole -/

theorem keys_prefix_declare (d : Declared) (s t : Section) (name range : String) :
    (d.part t).keys <+: ((d.declare s name range).part t).keys := by
  rw [part_declare]
  split
  · exact Entries.keys_prefix_put _ _ _
  · exact List.prefix_rfl

/-- Entries keep their places, and new ones come behind. -/
theorem keys_prefix_requestAll (d : Declared) (rs : List Request) (t : Section) :
    (d.part t).keys <+: ((d.requestAll rs).part t).keys := by
  induction rs generalizing d with
  | nil => exact List.prefix_rfl
  | cons r rs ih =>
      refine List.IsPrefix.trans ?_ (ih (d.request r))
      rcases request_cases d r with ⟨-, hsame⟩ | ⟨s, -, hdeclare⟩
      · simp only [hsame, List.prefix_rfl]
      · rw [hdeclare]
        exact keys_prefix_declare d s t r.name r.range

theorem ext_part (h : ∀ s, d'.part s = d.part s) : d' = d := by
  obtain ⟨runtime, development⟩ := d
  obtain ⟨runtime', development'⟩ := d'
  obtain rfl : runtime' = runtime := h .runtime
  obtain rfl : development' = development := h .development
  rfl

theorem distinct_requestAll (h : ∀ s, (d.part s).Distinct) (rs : List Request) (s : Section) :
    ((d.requestAll rs).part s).Distinct := by
  induction rs generalizing d with
  | nil => exact h s
  | cons r rs ih =>
      refine ih (d := d.request r) fun t => ?_
      rcases request_cases d r with ⟨-, hsame⟩ | ⟨t', -, hdeclare⟩
      · rw [hsame]
        exact h t
      · rw [hdeclare, part_declare]
        split
        · exact (h t).put _ _
        · exact h t

/-- Requests that leave all values as they were have changed nothing. -/
theorem requestAll_eq_of_get? (hdistinct : ∀ s, (d.part s).Distinct)
    (h : ∀ s name, ((d.requestAll rs).part s).get? name = (d.part s).get? name) :
    d.requestAll rs = d :=
  ext_part fun s => Entries.eq_of_keys_prefix (keys_prefix_requestAll d rs s)
    (distinct_requestAll hdistinct rs s) (h s)

/-- **Requests that have been answered are answered again without a change**, however often one
package is asked for. -/
theorem requestAll_of_answered (hne : ∀ r ∈ rs, r.range ≠ "")
    (hdistinct : ∀ s, (d'.part s).Distinct)
    (h : ∀ s name, (d'.part s).get? name = ((d.requestAll rs).part s).get? name) :
    d'.requestAll rs = d' := by
  refine requestAll_eq_of_get? hdistinct fun t name => ?_
  by_cases hname : name ∈ rs.map Request.name
  · obtain ⟨r, hr, rfl⟩ := List.mem_map.mp hname
    obtain ⟨s, range, hhome⟩ := exists_home? d hr
    have hfind : d'.find? r.name = some (s, raiseAll range (rangesFor rs r.name)) :=
      (find?_congr fun t => declared?_congr (h t r.name)).trans (find?_requestAll hne hhome)
    obtain ⟨⟨hget, -⟩, -⟩ := find?_eq_some_iff.mp hfind
    rw [get?_requestAll_home hne (home?_of_find? hfind rs), Version.raiseAll_raiseAll]
    split
    next hst => exact hst ▸ hget.symm
    next => rfl
  · exact get?_requestAll hname d' t

end Declared

end Upkeep.Manifest
