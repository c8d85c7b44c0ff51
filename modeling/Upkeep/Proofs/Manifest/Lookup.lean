/-
Two ways of looking a package up.

Whoever asks for the range of a package is answered by `version?`, and a request goes by what
`Declared.find?` finds.  Both look at the first section and then at the second, and both take a
text only if it is not empty.  But the one passes over an empty text and looks on, and the other
stops at it.  So they part at one kind of manifest: an empty text in the first section hides a
range in the second from `version?`, and nothing hides it from a request.
-/
import Upkeep.Proofs.Manifest.Ranges

namespace Upkeep.Manifest

open Json (Value)
open Version (raise)

variable {manifest : Value} {s : Section} {name range : String}

/-- The text that a section of a manifest has for a package, be it empty. -/
def text? (manifest : Value) (s : Section) (name : String) : Option String :=
  ((manifest.member? s.key).bind fun v => v.member? name).bind Value.string?

/-- The range is declared for the package: by a text that is not empty in the first section, or
in the second where the first has no such text. -/
inductive Declares (manifest : Value) (name range : String) : Prop where
  | runtime (h : text? manifest .runtime name = some range) (hne : range ≠ "")
  | development (hnone : ∀ other, text? manifest .runtime name = some other → other = "")
      (h : text? manifest .development name = some range) (hne : range ≠ "")

/-- An empty text in the first section stands in front of a range in the second. -/
def Hidden (manifest : Value) (name : String) : Prop :=
  text? manifest .runtime name = some "" ∧
    ∃ range, text? manifest .development name = some range ∧ range ≠ ""

theorem text?_eq (manifest : Value) (s : Section) (name : String) :
    text? manifest s name = ((packages manifest s).get? name).bind Value.string? := by
  unfold text? packages Value.member?
  cases (manifest.members?.bind fun members => members.get? s.key) with
  | none => rfl
  | some v => cases v <;> rfl

theorem declared?_packages (manifest : Value) (s : Section) (name : String) :
    declared? (packages manifest s) name =
      (text? manifest s name).filter fun range => range ≠ "" := by
  rw [text?_eq]
  rfl

theorem declared?_packages_eq_some_iff :
    declared? (packages manifest s) name = some range ↔
      text? manifest s name = some range ∧ range ≠ "" := by
  rw [declared?_packages, Option.filter_eq_some_iff, decide_eq_true_eq]

theorem declared?_packages_eq_none_iff :
    declared? (packages manifest s) name = none ↔
      ∀ other, text? manifest s name = some other → other = "" := by
  rw [declared?_packages, Option.filter_eq_none_iff]
  simp

/-- A request goes by the range that is declared. -/
theorem found_eq_some_iff :
    ((Declared.ofManifest manifest).find? name).map Prod.snd = some range ↔
      Declares manifest name range := by
  have hfound : ((Declared.ofManifest manifest).find? name).map Prod.snd =
      (declared? (packages manifest .runtime) name).or
        (declared? (packages manifest .development) name) := by
    rw [Declared.find?_eq, Declared.part_ofManifest, Declared.part_ofManifest]
    cases declared? (packages manifest .runtime) name with
    | some other => rfl
    | none => cases declared? (packages manifest .development) name <;> rfl
  rw [hfound, Option.or_eq_some_iff, declared?_packages_eq_some_iff, declared?_packages_eq_some_iff,
    declared?_packages_eq_none_iff]
  constructor
  · rintro (⟨h, hne⟩ | ⟨hnone, h, hne⟩)
    · exact .runtime h hne
    · exact .development hnone h hne
  · intro h
    cases h with
    | runtime h hne => exact .inl ⟨h, hne⟩
    | development hnone h hne => exact .inr ⟨hnone, h, hne⟩

/-- Asked for, a range is what the first section with any text has. -/
theorem version?_eq_some_iff :
    version? manifest name = some range ↔
      (text? manifest .runtime name = some range ∨
        text? manifest .runtime name = none ∧ text? manifest .development name = some range) ∧
      range ≠ "" := by
  show ((text? manifest .runtime name).or (text? manifest .development name)).filter _ = _ ↔ _
  rw [Option.filter_eq_some_iff, Option.or_eq_some_iff, decide_eq_true_eq]

theorem version?_of_hidden (h : Hidden manifest name) : version? manifest name = none := by
  refine Option.eq_none_iff_forall_ne_some.mpr fun range hrange => ?_
  obtain ⟨hruntime | ⟨hnone, -⟩, hne⟩ := version?_eq_some_iff.mp hrange
  · rw [h.1] at hruntime
    exact hne (Option.some.inj hruntime).symm
  · rw [h.1] at hnone
    cases hnone

/-- Where nothing is hidden the range that is asked for is the declared one. -/
theorem version?_eq_some_iff_declares (h : ¬Hidden manifest name) :
    version? manifest name = some range ↔ Declares manifest name range := by
  rw [version?_eq_some_iff]
  constructor
  · rintro ⟨hruntime | ⟨hnone, hdevelopment⟩, hne⟩
    · exact .runtime hruntime hne
    · exact .development (by simp [hnone]) hdevelopment hne
  · intro hdeclares
    cases hdeclares with
    | runtime hruntime hne => exact ⟨.inl hruntime, hne⟩
    | development hempty hdevelopment hne =>
        refine ⟨.inr ⟨?_, hdevelopment⟩, hne⟩
        cases hruntime : text? manifest .runtime name with
        | none => rfl
        | some other =>
            rw [hempty other hruntime] at hruntime
            exact absurd ⟨hruntime, range, hdevelopment, hne⟩ h

/-- A request leaves its package with the range that is found, raised. -/
theorem found_request {r : Request} (hne : r.range ≠ "") (d : Declared) :
    ((d.request r).find? r.name).map Prod.snd =
      some (raise (((d.find? r.name).map Prod.snd).getD r.range) r.range) := by
  obtain ⟨s, range, hhome⟩ := d.exists_home? (List.mem_singleton_self r)
  have hfind := Declared.find?_requestAll (by simpa using hne) hhome
  have hranges : rangesFor [r] r.name = [r.range] := by simp [rangesFor]
  rw [hranges] at hfind
  show (((d.requestAll [r]).find? r.name).map Prod.snd) = _
  rw [hfind]
  have hrange : ((d.find? r.name).map Prod.snd).getD r.range = range := by
    rcases Declared.home?_cases hhome with hfound | ⟨hnone, q, hq, -, rfl⟩
    · rw [hfound]
      rfl
    · rw [List.find?_cons_of_pos (by simp)] at hq
      cases hq
      rw [hnone]
      rfl
  rw [hrange]
  rfl

/-- **The two ways agree exactly where nothing is hidden.**  A request always goes by the range
that is declared, and leaves the package with that range or a newer one.  Where a range is hidden
nothing is answered to whoever asks for it, and a request goes by it all the same. -/
theorem version?_eq_found_iff (manifest : Value) (name : String) :
    let found := ((Declared.ofManifest manifest).find? name).map Prod.snd
    (∀ range, found = some range ↔ Declares manifest name range) ∧
    (∀ r : Request, r.name = name → r.range ≠ "" →
      (((Declared.ofManifest manifest).request r).find? name).map Prod.snd =
        some (raise (found.getD r.range) r.range)) ∧
    (version? manifest name = found ↔ ¬Hidden manifest name) ∧
    (Hidden manifest name → version? manifest name = none ∧
      found = text? manifest .development name ∧ found ≠ none) := by
  intro found
  have hhidden : Hidden manifest name →
      version? manifest name = none ∧ found = text? manifest .development name ∧ found ≠ none := by
    rintro ⟨hempty, range, hrange, hne⟩
    have hfound : found = some range := by
      refine found_eq_some_iff.mpr (.development (fun other hother => ?_) hrange hne)
      rw [hempty] at hother
      exact (Option.some.inj hother).symm
    exact ⟨version?_of_hidden ⟨hempty, range, hrange, hne⟩, hfound.trans hrange.symm,
      by simp [hfound]⟩
  refine ⟨fun _ => found_eq_some_iff, ?_, ⟨fun hagree h => ?_, fun h => ?_⟩, hhidden⟩
  · rintro r rfl hne
    exact found_request hne _
  · obtain ⟨hnone, -, hfound⟩ := hhidden h
    exact hfound (hagree.symm.trans hnone)
  · exact Option.ext fun range => (version?_eq_some_iff_declares h).trans found_eq_some_iff.symm

/-- A package with an empty range in the first section and another one in the second: nobody who
asks is told of it, and a request for an older one is not granted. -/
theorem version?_ne_found_of_empty :
    let manifest : Value := .object
      [("dependencies", .object [("react", .string "")]),
        ("devDependencies", .object [("react", .string "18.2.0")])]
    version? manifest "react" = none ∧
      ((Declared.ofManifest manifest).find? "react").map Prod.snd = some "18.2.0" ∧
      (((Declared.ofManifest manifest).request ⟨"react", "17.0.0", .runtime⟩).find? "react").map
        Prod.snd = some "18.2.0" := by
  intro manifest
  have hhidden : Hidden manifest "react" := ⟨rfl, "18.2.0", rfl, by decide⟩
  obtain ⟨-, hrequest, -, hparted⟩ := version?_eq_found_iff manifest "react"
  obtain ⟨hnone, hfound, -⟩ := hparted hhidden
  refine ⟨hnone, hfound, (hrequest ⟨"react", "17.0.0", .runtime⟩ rfl (by decide)).trans ?_⟩
  rw [hfound]
  decide +kernel

end Upkeep.Manifest
