/-
What the check of a codemod that runs twice says.

The check looks at the paths that either run touched and at no others.  That is enough: a
path that neither outcome has a record for is read through to the project below, which is
the same for both.  And it loses nothing: the paths that are compared are the written forms
of the recorded ones, a written path is read as the path that it was written for, and no
two recorded paths are written alike.  So the check passes exactly when both runs succeed
and the outcomes agree on every spelling, and otherwise names each path on which they
differ, once and in the order of its bytes.
-/
import Upkeep.Codemod.Idempotence
import Upkeep.Proofs.Overlay.Listing

namespace Upkeep

namespace Overlay

/-! ### What the check compares -/

variable {o once twice : Overlay} {p : ProjectPath}

theorem mem_touchedEither {path : String} :
    path ∈ once.touchedEither twice ↔
      ∃ p, (p ∈ once.records.keys ∨ p ∈ twice.records.keys) ∧ p.text = path := by
  unfold touchedEither ChangeSet.paths Entries.keys
  rw [mem_sortNames, List.mem_eraseDups, List.mem_map]
  simp only [List.mem_append]

theorem nodup_touchedEither (once twice : Overlay) : (once.touchedEither twice).Nodup :=
  (List.mergeSort_perm _ _).nodup_iff.mpr (nodup_eraseDups _)

/-- Overlays of one project differ only at paths for which one of them has a record. -/
theorem mem_keys_of_contentAt?_ne (hproject : twice.project = once.project)
    (hne : once.contentAt? p ≠ twice.contentAt? p) :
    p ∈ once.records.keys ∨ p ∈ twice.records.keys := by
  by_contra hnone
  obtain ⟨honce, htwice⟩ := not_or.mp hnone
  refine hne (contentAt?_congr hproject ?_).symm
  unfold record?
  rw [Entries.get?_eq_none_iff.mpr honce, Entries.get?_eq_none_iff.mpr htwice]

/-- The paths that the check finds are just those on which the outcomes differ. -/
theorem mem_changed_iff (hproject : twice.project = once.project) {path : String} :
    path ∈ (once.touchedEither twice).filter
        (fun path => once.content? path ≠ twice.content? path) ↔
      ∃ p, p.text = path ∧ once.contentAt? p ≠ twice.contentAt? p := by
  rw [List.mem_filter, mem_touchedEither, decide_eq_true_eq]
  constructor
  · rintro ⟨⟨p, -, rfl⟩, hne⟩
    rw [content?_text, content?_text] at hne
    exact ⟨p, rfl, hne⟩
  · rintro ⟨p, rfl, hne⟩
    rw [content?_text, content?_text]
    exact ⟨⟨p, mem_keys_of_contentAt?_ne hproject hne, rfl⟩, hne⟩

/-- The check finds nothing exactly where the outcomes agree on every spelling. -/
theorem changed_eq_nil_iff (hproject : twice.project = once.project) :
    (once.touchedEither twice).filter (fun path => once.content? path ≠ twice.content? path) = [] ↔
      ∀ s, once.content? s = twice.content? s := by
  rw [List.eq_nil_iff_forall_not_mem]
  constructor
  · intro hnone s
    by_contra hne
    refine hnone (once.resolve s).text ((mem_changed_iff hproject).mpr ⟨once.resolve s, rfl, ?_⟩)
    unfold content? at hne
    rwa [resolve_of_project hproject] at hne
  · intro hagree path hpath
    exact of_decide_eq_true (List.mem_filter.mp hpath).2 (hagree path)

end Overlay

namespace Codemod

/-- Where the codemod succeeds, its outcome stands on the project that it was given: changes
are left pending, and none is carried out on the way. -/
def KeepsProject (c : Codemod) : Prop :=
  ∀ o options o', c.run o options = .ok o' → o'.project = o.project

/-- A codemod whose outcomes calls on the overlay could have led to carries nothing out. -/
theorem keepsProject_of_reaches {c : Codemod}
    (hreaches : ∀ o options o', c.run o options = .ok o' → o.Reaches o') : c.KeepsProject := by
  intro o options o' h
  exact (hreaches o options o' h).project

variable {c : Codemod} {o once twice : Overlay} {options : Options}

/-- The check where both runs succeed. -/
theorem checkIdempotent_of_ok (hproject : twice.project = once.project)
    (honce : c.run o options = .ok once) (htwice : c.run once options = .ok twice) :
    c.checkIdempotent o options =
      let changed := (once.touchedEither twice).filter fun path =>
        once.content? path ≠ twice.content? path
      if changed = [] then .ok once else .error (.differs c.name changed) := by
  have hsame : { once with project := twice.project } = once := by rw [hproject]
  simp only [checkIdempotent, runNamed, honce, htwice, Except.mapError, bind, Except.bind, hsame]

/-- Where the outcomes differ at one path and no other, that is the one that is named. -/
theorem checkIdempotent_of_one {q : ProjectPath} (hproject : twice.project = once.project)
    (honce : c.run o options = .ok once) (htwice : c.run once options = .ok twice)
    (hdiffer : ∀ r, once.contentAt? r ≠ twice.contentAt? r ↔ r = q) :
    c.checkIdempotent o options = .error (.differs c.name [q.text]) := by
  have hchanged : (once.touchedEither twice).filter
      (fun path => once.content? path ≠ twice.content? path) = [q.text] := by
    refine List.perm_singleton.mp ?_
    rw [List.perm_ext_iff_of_nodup ((Overlay.nodup_touchedEither once twice).filter _) (by simp)]
    intro path
    rw [Overlay.mem_changed_iff hproject, List.mem_singleton]
    simp only [hdiffer, and_comm, exists_eq_left]
    exact eq_comm
  rw [checkIdempotent_of_ok hproject honce htwice]
  simp only [hchanged]
  exact if_neg (by simp)

/-- The check passes only where both runs succeed. -/
theorem runs_of_checkIdempotent (hkeeps : c.KeepsProject)
    (h : c.checkIdempotent o options = .ok once) :
    c.run o options = .ok once ∧ ∃ twice, c.run once options = .ok twice := by
  rcases hfirst : c.run o options with halt | first
  · simp [checkIdempotent, runNamed, hfirst, Except.mapError, bind, Except.bind] at h
  rcases hsecond : c.run first options with halt | second
  · simp [checkIdempotent, runNamed, hfirst, hsecond, Except.mapError, bind, Except.bind] at h
  rw [checkIdempotent_of_ok (hkeeps _ _ _ hsecond) hfirst hsecond] at h
  simp only at h
  split at h
  · cases h
    exact ⟨rfl, second, hsecond⟩
  · simp at h

/-- **The check is sound and complete.**  It answers the outcome of the first run exactly
where both runs succeed and show the same under every spelling, be the path touched or not.
Where both succeed and differ somewhere, it names the paths on which they differ and no
others, in the order of their bytes and so each once. -/
theorem checkIdempotent_iff_agree (c : Codemod) (hkeeps : c.KeepsProject) (o : Overlay)
    (options : Options) :
    (∀ once, c.checkIdempotent o options = .ok once ↔
      c.run o options = .ok once ∧
        ∃ twice, c.run once options = .ok twice ∧ ∀ s, once.content? s = twice.content? s) ∧
    ∀ once twice, c.run o options = .ok once → c.run once options = .ok twice →
      (∃ s, once.content? s ≠ twice.content? s) →
        ∃ paths, c.checkIdempotent o options = .error (.differs c.name paths) ∧
          paths.Pairwise (fun a b => Text.bytes a < Text.bytes b) ∧
          ∀ path, path ∈ paths ↔
            ∃ s, (o.resolve s).text = path ∧ once.content? s ≠ twice.content? s := by
  constructor
  · intro once
    constructor
    · intro h
      obtain ⟨honce, twice, htwice⟩ := runs_of_checkIdempotent hkeeps h
      have hproject : twice.project = once.project := hkeeps _ _ _ htwice
      refine ⟨honce, twice, htwice, (Overlay.changed_eq_nil_iff hproject).mp ?_⟩
      rw [checkIdempotent_of_ok hproject honce htwice] at h
      by_contra hchanged
      simp only [if_neg hchanged] at h
      cases h
    · rintro ⟨honce, twice, htwice, hagree⟩
      have hproject : twice.project = once.project := hkeeps _ _ _ htwice
      rw [checkIdempotent_of_ok hproject honce htwice]
      exact if_pos ((Overlay.changed_eq_nil_iff hproject).mpr hagree)
  · rintro once twice honce htwice ⟨s, hdiffer⟩
    have hproject : twice.project = once.project := hkeeps _ _ _ htwice
    refine ⟨_, ?_, ?_, fun path => (Overlay.mem_changed_iff hproject).trans ?_⟩
    · rw [checkIdempotent_of_ok hproject honce htwice]
      exact if_neg fun hnil => hdiffer ((Overlay.changed_eq_nil_iff hproject).mp hnil s)
    · exact (Overlay.pairwise_sortNames (Overlay.nodup_eraseDups _)).filter _
    · have honceproject : once.project = o.project := hkeeps _ _ _ honce
      constructor
      · rintro ⟨p, rfl, hne⟩
        refine ⟨p.text, by rw [Overlay.resolve_text], ?_⟩
        rwa [Overlay.content?_text, Overlay.content?_text]
      · rintro ⟨s, rfl, hne⟩
        refine ⟨o.resolve s, rfl, ?_⟩
        unfold Overlay.content? at hne
        rwa [Overlay.resolve_of_project hproject, Overlay.resolve_of_project honceproject] at hne

/-- A codemod that appends to one file each time it runs, and settles another: the check
names the first file and not the second. -/
theorem checkIdempotent_iff_agree_append :
    let append : Codemod := ⟨"append", none, fun o _ =>
      .ok (o.run [.update "./a" ((o.content? "a").getD "" ++ "!"), .update "b/../b" "y"])⟩
    let o : Overlay := .empty (.ofTexts [("a", "x"), ("b", "x")])
    append.KeepsProject ∧ ∃ paths, append.checkIdempotent o [] = .error (.differs "append" paths) ∧
      "a" ∈ paths ∧ "b" ∉ paths := by
  intro append o
  have hkeeps : append.KeepsProject := by
    refine keepsProject_of_reaches ?_
    intro o options o' h
    cases h
    exact ⟨_, rfl⟩
  obtain ⟨-, hdiffers⟩ := checkIdempotent_iff_agree append hkeeps o []
  obtain ⟨paths, hcheck, -, hpaths⟩ := hdiffers _ _ rfl rfl ⟨"a", by decide +kernel⟩
  refine ⟨hkeeps, paths, hcheck, (hpaths "a").mpr ⟨"a", by decide +kernel⟩, fun hb => ?_⟩
  obtain ⟨s, hs, hne⟩ := (hpaths "b").mp hb
  -- Every spelling of the second file is read as that file.
  have hresolve : o.resolve s = ⟨["b"], by decide⟩ := ProjectPath.text_injective hs
  have hread : ∀ o' : Overlay, o'.project = o.project →
      o'.content? s = o'.contentAt? ⟨["b"], by decide⟩ := by
    intro o' hproject
    unfold Overlay.content?
    rw [Overlay.resolve_of_project hproject, hresolve]
  rw [hread _ (hkeeps o [] _ rfl), hread _ ((hkeeps _ [] _ rfl).trans (hkeeps o [] _ rfl))] at hne
  exact absurd hne (by decide +kernel)

end Codemod

end Upkeep
