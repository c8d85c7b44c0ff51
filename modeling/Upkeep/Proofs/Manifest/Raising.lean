/-
A manifest in which requests have been answered.

Requests only move ranges up: a declared package keeps its section, and there its range, unless
the one that is asked for supersedes it.  Everything else is left alone.  A manifest that is
written has its sections by name, and one whose entries would stay as they are is not written.

Requests for one package may well be many, with ranges that replace each other in turn.  When
they come again the manifest stays as it is all the same.
-/
import Upkeep.Proofs.Manifest.Ranges
import Upkeep.Proofs.Registry.Settled

namespace Upkeep.Manifest

open Declared
open Json (Value)
open Version (raise raiseAll)

variable {before after members : Entries String Value} {rs : List Request} {r : Request}
  {name range : String} {s t : Section} {ps : Packages}

/-! ### Requests for different packages -/

theorem rangesFor_of_notMem (h : name ∉ rs.map Request.name) : rangesFor rs name = [] := by
  unfold rangesFor
  rw [List.map_eq_nil_iff, List.filter_eq_nil_iff]
  intro r hr hname
  exact h (List.mem_map.mpr ⟨r, hr, by simpa using hname⟩)

/-- Of different packages each is asked for once. -/
theorem rangesFor_of_mem (hnodup : (rs.map Request.name).Nodup) (hr : r ∈ rs) :
    rangesFor rs r.name = [r.range] := by
  induction rs with
  | nil => cases hr
  | cons q rs ih =>
      obtain ⟨hq, hnodup⟩ := List.nodup_cons.mp hnodup
      rcases List.mem_cons.mp hr with rfl | hr
      · have hrest := rangesFor_of_notMem hq
        unfold rangesFor at hrest ⊢
        rw [List.filter_cons_of_pos (by simp), List.map_cons, hrest]
      · have hne : q.name ≠ r.name := fun h => hq (h ▸ List.mem_map_of_mem hr)
        have hrest := ih hnodup hr
        unfold rangesFor at hrest ⊢
        rwa [List.filter_cons_of_neg (by simpa using hne)]

theorem rangesFor_cases (hnodup : (rs.map Request.name).Nodup) (name : String) :
    rangesFor rs name = [] ∨ ∃ r ∈ rs, r.name = name ∧ rangesFor rs name = [r.range] := by
  by_cases h : name ∈ rs.map Request.name
  · obtain ⟨r, hr, rfl⟩ := List.mem_map.mp h
    exact .inr ⟨r, hr, rfl, rangesFor_of_mem hnodup hr⟩
  · exact .inl (rangesFor_of_notMem h)

/-- Among different packages the first request for one is the only one. -/
theorem home?_of_none {d : Declared} (hnodup : (rs.map Request.name).Nodup) (hr : r ∈ rs)
    (h : d.find? r.name = none) : d.home? rs r.name = some (r.target, r.range) := by
  obtain ⟨s, range, hhome⟩ := exists_home? d hr
  rcases home?_cases hhome with hfind | ⟨-, q, hq, rfl, rfl⟩
  · rw [h] at hfind
    cases hfind
  · have hname : q.name = r.name := by simpa using List.find?_some hq
    have hqr : q = r := List.inj_on_of_nodup_map hnodup (List.mem_of_find?_eq_some hq) hr hname
    rwa [hqr] at hhome

/-! ### What requests do to a manifest -/

/-- The package is declared in the section with this range, and the first section does not
declare it instead. -/
def DeclaredIn (members : Entries String Value) (name : String) (s : Section) (range : String) :
    Prop :=
  declared? (packages (.object members) s) name = some range ∧
    (s = .runtime ∨ declared? (packages (.object members) .runtime) name = none)

theorem declaredIn_iff :
    DeclaredIn members name s range ↔
      (ofManifest (.object members)).find? name = some (s, range) := by
  rw [find?_eq_some_iff, ← declared?_eq_some_iff]
  cases s <;> exact Iff.rfl

/-- A member that holds no section. -/
def isOther (key : String) : Bool := key ≠ Section.runtime.key && key ≠ Section.development.key

/-- The members beside the sections, in their order. -/
def others (members : Entries String Value) : Entries String Value :=
  members.filter fun e => isOther e.1

/-- The members of a manifest before and after requests for different packages. -/
structure Raises (rs : List Request) (before after : Entries String Value) : Prop where
  /-- A declared package keeps its range, unless the request for it supersedes that. -/
  kept : ∀ name s range, DeclaredIn before name s range →
    (∀ r ∈ rs, r.name = name → Version.supersedes r.range range false = false) →
      declared? (packages (.object after) s) name = some range
  raised : ∀ r ∈ rs, ∀ s range, DeclaredIn before r.name s range →
    Version.supersedes r.range range false = true →
      declared? (packages (.object after) s) r.name = some r.range
  /-- Where a declared package is not declared, its entry stays what it was. -/
  elsewhere : ∀ name s range, DeclaredIn before name s range → ∀ t, t ≠ s →
    (packages (.object after) t).get? name = (packages (.object before) t).get? name
  /-- Of two ranges that stand for versions and are no tags the later is not the lower. -/
  upward : ∀ name s range range', DeclaredIn before name s range →
    declared? (packages (.object after) s) name = some range' →
      Version.tagRank? range = none → Version.tagRank? range' = none →
        ∀ v w, Version.coerce? range = some v → Version.coerce? range' = some w → v ≤ w
  /-- A package that was declared nowhere is declared as it was asked for, and nowhere else. -/
  added : ∀ r ∈ rs, (∀ s, declared? (packages (.object before) s) r.name = none) →
    declared? (packages (.object after) r.target) r.name = some r.range ∧
      ∀ t, t ≠ r.target →
        (packages (.object after) t).get? r.name = (packages (.object before) t).get? r.name
  unasked : ∀ name, name ∉ rs.map Request.name → ∀ s,
    (packages (.object after) s).get? name = (packages (.object before) s).get? name
  others : others after = others before

/-- The sections hold what the requests come to. -/
def Answers (rs : List Request) (before after : Entries String Value) : Prop :=
  ∀ s name, (packages (.object after) s).get? name =
    (((ofManifest (.object before)).requestAll rs).part s).get? name

namespace Answers

variable (h : Answers rs before after)

include h

/-- A declared package has one entry that may change. -/
theorem get?_of_declaredIn (hne : ∀ r ∈ rs, r.range ≠ "") (hd : DeclaredIn before name s range)
    (t : Section) :
    (packages (.object after) t).get? name =
      if s = t then some (.string (raiseAll range (rangesFor rs name)))
      else (packages (.object before) t).get? name := by
  rw [h, get?_requestAll_home hne (home?_of_find? (declaredIn_iff.mp hd) rs), part_ofManifest]

theorem declared?_of_declaredIn (hne : ∀ r ∈ rs, r.range ≠ "")
    (hd : DeclaredIn before name s range) :
    declared? (packages (.object after) s) name = some (raiseAll range (rangesFor rs name)) := by
  have hfind := find?_requestAll hne (home?_of_find? (declaredIn_iff.mp hd) rs)
  rw [declared?_congr (h s name)]
  exact declared?_eq_some_iff.mpr (find?_eq_some_iff.mp hfind).1

/-- A package that was declared nowhere has its entry where the only request for it wants it. -/
theorem get?_of_undeclared (hnodup : (rs.map Request.name).Nodup)
    (hne : ∀ r ∈ rs, r.range ≠ "") (hr : r ∈ rs)
    (hnone : ∀ s, declared? (packages (.object before) s) r.name = none) (t : Section) :
    (packages (.object after) t).get? r.name =
      if r.target = t then some (.string r.range)
      else (packages (.object before) t).get? r.name := by
  have hfind : (ofManifest (.object before)).find? r.name = none :=
    find?_eq_none_iff.mpr fun s => by rw [part_ofManifest]; exact hnone s
  have hraised : raiseAll r.range (rangesFor rs r.name) = r.range := by
    rw [rangesFor_of_mem hnodup hr]
    exact Version.raise_self r.range
  rw [h, get?_requestAll_home hne (home?_of_none hnodup hr hfind), hraised, part_ofManifest]

end Answers

theorem standing_of_coerce? {v : Version} (htag : Version.tagRank? range = none)
    (hv : Version.coerce? range = some v) : Version.standing range = .version v := by
  unfold Version.standing
  rw [htag, hv]

/-- What requests for different packages come to raises the manifest of before. -/
theorem Answers.raises (h : Answers rs before after) (hnodup : (rs.map Request.name).Nodup)
    (hne : ∀ r ∈ rs, r.range ≠ "") (hothers : others after = others before) :
    Raises rs before after where
  kept name s range hd hkept := by
    rw [h.declared?_of_declaredIn hne hd]
    rcases rangesFor_cases hnodup name with hnil | ⟨r, hr, hname, hone⟩
    · rw [hnil]
      rfl
    · rw [hone]
      show some (raise range r.range) = some range
      rw [Version.raise_of_atMost (Version.supersedes_eq_false_iff.mp (hkept r hr hname))]
  raised r hr s range hd hraised := by
    rw [h.declared?_of_declaredIn hne hd, rangesFor_of_mem hnodup hr]
    show some (raise range r.range) = some r.range
    unfold Version.raise
    rw [if_pos hraised]
  elsewhere name s range hd t ht := by
    rw [h.get?_of_declaredIn hne hd, if_neg (Ne.symm ht)]
  upward name s range range' hd hafter htag htag' v w hv hw := by
    rw [h.declared?_of_declaredIn hne hd] at hafter
    cases hafter
    have hstanding := standing_of_coerce? htag hv
    have hstanding' := standing_of_coerce? htag' hw
    rcases rangesFor_cases hnodup name with hnil | ⟨r, -, -, hone⟩
    · rw [hnil] at hstanding'
      cases hstanding.symm.trans hstanding'
      exact (Version.le_total v v).elim id id
    · rw [hone] at hstanding'
      exact Version.le_of_raise hstanding hstanding'
  added r hr hnone := by
    have hentry := h.get?_of_undeclared hnodup hne hr hnone
    refine ⟨declared?_eq_some_iff.mpr ⟨?_, hne r hr⟩, fun t ht => ?_⟩
    · rw [hentry, if_pos rfl]
    · rw [hentry, if_neg (Ne.symm ht)]
  unasked name hname s := by
    rw [h, get?_requestAll hname, part_ofManifest]
  others := hothers

/-! ### The manifest that is written -/

/-- Sorted by name, entries ascend: no name stands twice. -/
theorem pairwise_keys_sortByName (d : ps.Distinct) : (sortByName ps).keys.Pairwise (· < ·) := by
  have hsorted : (sortByName ps).keys.Pairwise (· ≤ ·) := by
    have htrans : ∀ a b c : String × Value, decide (a.1 ≤ b.1) = true →
        decide (b.1 ≤ c.1) = true → decide (a.1 ≤ c.1) = true := by
      intro a b c hab hbc
      exact decide_eq_true (String.le_trans (of_decide_eq_true hab) (of_decide_eq_true hbc))
    have htotal : ∀ a b : String × Value, (decide (a.1 ≤ b.1) || decide (b.1 ≤ a.1)) = true := by
      intro a b
      simpa using String.le_total a.1 b.1
    have hpairs := List.pairwise_mergeSort htrans htotal ps
    exact List.pairwise_map.mpr (hpairs.imp fun h => by simpa using h)
  have hnodup : (sortByName ps).keys.Nodup := ((sortByName_perm ps).map Prod.fst).nodup_iff.mpr d
  refine hsorted.imp₂ (fun a b hle hne => ?_) hnodup
  exact String.not_le.mp fun hge => hne (String.le_antisymm hle hge)

theorem others_putSection (members : Entries String Value) (s : Section) (ps : Packages) :
    others (putSection members s ps) = others members := by
  unfold putSection
  split
  · rfl
  · exact Entries.filter_put (p := isOther) (by cases s <;> decide) members _

theorem others_withSections (members : Entries String Value) (d : Declared) :
    others (withSections members d) = others members := by
  unfold withSections
  rw [others_putSection, others_putSection]

variable {o o' : Overlay} {runtime development : List (String × String)}

/-- The entries of a manifest that is held stand once. -/
theorem distinct_of_holds {manifest : Value} (hM : o.Holds path manifest) (s : Section) :
    ((ofManifest manifest).part s).Distinct := by
  obtain ⟨n, -, hdistinct, -⟩ := (shaped_part (shaped_of_holds hM) s).of_object
  exact hdistinct

/-- Requests in a manifest that is an object are answered, and it is written only if an entry
changes. -/
theorem addDependencies_cases (hM : o.Holds path (.object members))
    (runtime development : List (String × String)) :
    let d := (ofManifest (.object members)).requestAll (requests runtime development)
    d = ofManifest (.object members) ∧ addDependencies o runtime development = .ok o ∨
      ∃ o', addDependencies o runtime development = .ok o' ∧ o.Touches path o' ∧
        o'.Holds path (.object (withSections members d)) := by
  intro d
  by_cases hsame : d = ofManifest (.object members)
  · refine .inl ⟨hsame, ?_⟩
    unfold addDependencies
    rw [hM.readDocument]
    exact if_pos hsame
  · have ⟨⟨text, htext, _⟩, _⟩ := hM
    obtain ⟨o', hwrite⟩ :=
      Overlay.exists_writeDocument htext (.object (withSections members d))
    have hadd : addDependencies o runtime development = .ok o' := by
      unfold addDependencies
      rw [hM.readDocument]
      exact (if_neg hsame).trans hwrite
    have hwritten := shaped_withSections (requests runtime development) (shaped_of_holds hM)
    exact .inr ⟨o', hadd, Overlay.holds_writeDocument hwritten.readable hwrite⟩

/-- **Requests for different packages only raise what a manifest declares.**  They are answered
in any manifest that is an object, whose members they raise; no other file changes.  If
anything is written both sections stand by name, and if no entry changes nothing is. -/
theorem addDependencies_raises (hread : o.readDocument path = .ok (.object members))
    (hnumbers : NumbersReadBack o)
    (hnodup : ((requests runtime development).map Request.name).Nodup)
    (hne : ∀ r ∈ requests runtime development, r.range ≠ "") :
    ∃ o' members', addDependencies o runtime development = .ok o' ∧
      o'.readDocument path = .ok (.object members') ∧
      Raises (requests runtime development) members members' ∧ o.Touches path o' ∧
      (o' ≠ o → ∀ s, (packages (.object members') s).keys.Pairwise (· < ·)) ∧
      ((∀ s name, (packages (.object members') s).get? name =
        (packages (.object members) s).get? name) → o' = o) := by
  have hM := hnumbers.holds hread
  have hdistinct := distinct_of_holds hM
  rcases addDependencies_cases hM runtime development with ⟨hsame, hadd⟩ | ⟨o', hadd, T, hM'⟩
  · have hanswers : Answers (requests runtime development) members members := by
      intro s name
      rw [hsame, part_ofManifest]
    exact ⟨o, members, hadd, hread, hanswers.raises hnodup hne rfl, .refl o path,
      fun h => absurd rfl h, fun _ => rfl⟩
  · have hanswers : Answers (requests runtime development) members (withSections members
        ((ofManifest (.object members)).requestAll (requests runtime development))) := by
      intro s name
      rw [← part_ofManifest]
      exact get?_withSections (shaped_of_holds hM) s name
    refine ⟨o', _, hadd, hM'.readDocument, hanswers.raises hnodup hne (others_withSections _ _), T,
      fun _ s => ?_, fun hidle => ?_⟩
    · rw [packages_withSections]
      split
      next hempty =>
        have hbefore := part_of_requestAll hempty
        rw [part_ofManifest] at hbefore
        rw [hbefore]
        exact .nil
      next => exact pairwise_keys_sortByName (distinct_requestAll hdistinct _ s)
    · have hsame := requestAll_eq_of_get? hdistinct fun s name => by
        rw [← hanswers, hidle, part_ofManifest]
      have hnothing : addDependencies o runtime development = .ok o := by
        unfold addDependencies
        rw [hread]
        exact if_pos hsame
      rw [hnothing] at hadd
      cases hadd
      rfl

/-- A package is raised where it stands, another keeps its later range, and one is added. -/
theorem addDependencies_raises_types :
    let o : Overlay := .empty (.ofTexts [("package.json",
      "\x7b\"dependencies\":\x7b\"react\":\"^18.2.0\"\x7d,\"private\":true," ++
        "\"devDependencies\":\x7b\"typescript\":\"^5.4.0\",\"@types/react\":\"^18.0.0\"\x7d\x7d")])
    let members : Entries String Value := [
      ("dependencies", .object [("react", .string "^18.2.0")]), ("private", .bool true),
      ("devDependencies", .object [("typescript", .string "^5.4.0"),
        ("@types/react", .string "^18.0.0")])]
    let runtime := [("@types/react", "^18.3.0"), ("rxjs", "^7.8.0")]
    let development := [("typescript", "^5.0.0")]
    o.readDocument path = .ok (.object members) ∧ NumbersReadBack o ∧
      ((requests runtime development).map Request.name).Nodup ∧
      (∀ r ∈ requests runtime development, r.range ≠ "") ∧
      ∃ o' members', addDependencies o runtime development = .ok o' ∧
        o'.readDocument path = .ok (.object members') ∧
        Raises (requests runtime development) members members' := by
  intro o members runtime development
  have hread : o.readDocument path = .ok (.object members) := by decide +kernel
  have hnumbers : NumbersReadBack o := by decide +kernel
  have hnodup : ((requests runtime development).map Request.name).Nodup := by decide +kernel
  have hne : ∀ r ∈ requests runtime development, r.range ≠ "" := by decide +kernel
  obtain ⟨o', members', hadd, hread', R, -⟩ := addDependencies_raises hread hnumbers hnodup hne
  exact ⟨hread, hnumbers, hnodup, hne, o', members', hadd, hread', R⟩

/-- **Requests that have been answered are answered again without a change**, even if they ask
for one package many times. -/
theorem addDependencies_again (hnumbers : NumbersReadBack o)
    (hne : ∀ r ∈ requests runtime development, r.range ≠ "")
    (h : addDependencies o runtime development = .ok o') :
    addDependencies o' runtime development = .ok o' := by
  obtain ⟨manifest, hread⟩ : ∃ manifest, o.readDocument path = .ok manifest := by
    obtain ⟨manifest, hread, -⟩ := Except.bind_ok h
    exact ⟨manifest, hread⟩
  obtain ⟨-, manifest', hM', hget⟩ := addDependencies_ok (hnumbers.holds hread) h
  have hanswered := requestAll_of_answered hne (distinct_of_holds hM') hget
  unfold addDependencies
  rw [hM'.readDocument]
  exact if_pos hanswered

/-- Tags, versions and text that is neither, asked for under one name. -/
theorem addDependencies_again_mixed :
    let o : Overlay := .empty (.ofTexts [("package.json",
      "\x7b\"devDependencies\":\x7b\"react\":\"^19.0.0\"\x7d\x7d")])
    let runtime := [("react", "next"), ("react", "^18.2.0")]
    let development := [("react", "workspace"), ("react", "latest"), ("react", "^17.0.0")]
    NumbersReadBack o ∧ (∀ r ∈ requests runtime development, r.range ≠ "") ∧
      ∃ o', addDependencies o runtime development = .ok o' ∧
        o'.content? path = some
          "\x7b\n  \"devDependencies\": \x7b\n    \"react\": \"^17.0.0\"\n  \x7d\n\x7d" ∧
        addDependencies o' runtime development = .ok o' := by
  intro o runtime development
  have hnumbers : NumbersReadBack o := by decide +kernel
  have hne : ∀ r ∈ requests runtime development, r.range ≠ "" := by decide +kernel
  have hwritten : ∃ o' ∈ (addDependencies o runtime development).toOption, o'.content? path = some
      "\x7b\n  \"devDependencies\": \x7b\n    \"react\": \"^17.0.0\"\n  \x7d\n\x7d" := by
    decide +kernel
  obtain ⟨o', hadd, htext⟩ := Except.exists_ok hwritten
  exact ⟨hnumbers, hne, o', hadd, htext, addDependencies_again hnumbers hne hadd⟩

end Upkeep.Manifest
