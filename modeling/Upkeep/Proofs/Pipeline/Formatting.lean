/-
What a step carries out.

The formatter is asked about every file that is to be written, as the codemod left it, and its
answers are put into the records one by one while the overlay is in use.  That comes to the
same as rewording each record on its own: no two records are of one path, so no answer meets
the record of another file, and a record that is reworded keeps its path, its place and its
kind.  Deletions are not asked about.

Since the kinds stay, the records still stand on the files that they stood on, and all of
them are carried out.
-/
import Upkeep.Proofs.Entries
import Upkeep.Proofs.Overlay.Flush
import Upkeep.Proofs.Pipeline.Prefix

namespace Upkeep

/-- What becomes of a content that the formatter is asked about as one more after so many: its
answer, or the content itself where the formatter fails or has nothing to change. -/
def Collaborators.wording (c : Collaborators) (n : Nat) (path : ProjectPath) (content : String) :
    String :=
  match c.format n path content with
  | .ok (some formatted) => formatted
  | _ => content

/-- The same kind of change with its content changed. -/
def Pending.reworded (f : String → String) : Pending → Pending
  | add content => add (f content)
  | update content => update (f content)
  | delete => delete

/-- The touched paths in order, each with what kind of change it is. -/
def ChangeSet.outline (changes : ChangeSet) : List (ProjectPath × ChangeKind) :=
  changes.map fun e => (e.1, e.2.kind)

/-- How many files of an overlay the formatter is asked about before this one. -/
def Overlay.turn (o : Overlay) (q : ProjectPath) : Nat := (o.pendingFiles.map Prod.fst).idxOf q

namespace Pending

variable {r : Pending} {content : String}

@[simp] theorem kind_reworded (f : String → String) (r : Pending) :
    (r.reworded f).kind = r.kind := by cases r <;> rfl

@[simp] theorem content?_reworded (f : String → String) (r : Pending) :
    (r.reworded f).content? = r.content?.map f := by cases r <;> rfl

theorem kind_withContent (content : String) (r : Pending) :
    (r.withContent content).kind = r.kind := by cases r <;> rfl

theorem withContent_eq (h : r.content? = some content) (f : String → String) :
    r.withContent (f content) = r.reworded f := by
  cases r with
  | add d | update d => cases h; rfl
  | delete => rfl

theorem reworded_id (r : Pending) : r.reworded id = r := by cases r <;> rfl

theorem reworded_of_none (h : r.content? = none) (f : String → String) : r.reworded f = r := by
  cases r with
  | add d | update d => simp [content?] at h
  | delete => rfl

end Pending

/-! ### Rewording one record -/

namespace Overlay

variable {o : Overlay} {p q : ProjectPath}

/-- A record that is reworded stays where it is and what it is. -/
theorem outline_reword (o : Overlay) (p : ProjectPath) (content : String) :
    (o.reword p content).records.outline = o.records.outline := by
  unfold reword
  rcases hr : o.record? p with _ | r
  · rfl
  have hkind : Entries.get? o.records.outline p = some r.kind := by
    unfold ChangeSet.outline
    rw [Entries.get?_map, show o.records.get? p = some r from hr]
    rfl
  show ChangeSet.outline (o.records.put p (r.withContent content)) = _
  unfold ChangeSet.outline
  rw [Entries.map_put, Pending.kind_withContent]
  exact Entries.put_of_get? hkind

/-- The content that a record has already changes nothing. -/
theorem reword_self {content : String}
    (h : (o.record? p).bind Pending.content? = some content) : o.reword p content = o := by
  unfold reword
  rcases hr : o.record? p with _ | r
  · rfl
  rw [hr, Option.bind_some] at h
  have hsame : r.withContent content = r := by
    rw [← id_eq content, Pending.withContent_eq h id, Pending.reworded_id]
  show o.put p (r.withContent content) = o
  unfold put
  rw [hsame, Entries.put_of_get? hr]

/-! ### The files that are asked about -/

theorem mem_pendingFiles {content : String} :
    (q, content) ∈ o.pendingFiles ↔ ∃ r, (q, r) ∈ o.records ∧ r.content? = some content := by
  unfold pendingFiles
  rw [List.mem_filterMap]
  constructor
  · rintro ⟨⟨p, r⟩, hmem, h⟩
    obtain ⟨d, hd, heq⟩ := Option.map_eq_some_iff.mp h
    cases heq
    exact ⟨r, hmem, hd⟩
  · rintro ⟨r, hmem, h⟩
    exact ⟨(q, r), hmem, by simp [h]⟩

/-- The files that are asked about are some of the records, in their order. -/
theorem pendingFiles_sublist (o : Overlay) :
    (o.pendingFiles.map Prod.fst).Sublist o.records.keys := by
  unfold pendingFiles
  induction o.records with
  | nil => exact .slnil
  | cons e es ih =>
      obtain ⟨p, r⟩ := e
      cases r with
      | add content => exact ih.cons_cons p
      | update content => exact ih.cons_cons p
      | delete => exact ih.cons p

end Overlay

namespace Session

variable {c : Collaborators}

/-! ### Asking about the files in turn -/

theorem count_note (s : Session) (e : Event) (kind : Event → Bool) :
    (s.note e).count kind = s.count kind + if kind e then 1 else 0 := by
  unfold count note
  rw [List.countP_append, List.countP_singleton]

theorem count_formatFile (o : Overlay) (s : Session) (file : ProjectPath × String) :
    (formatFile c (o, s) file).2.count Event.isFormat = s.count Event.isFormat + 1 := by
  obtain ⟨path, content⟩ := file
  unfold formatFile
  simp only
  split
  next => exact count_note s _ _
  next => exact count_note s _ _
  next => rw [count_note, count_note]; rfl

/-- Where the file has the content that is asked about, the answer becomes its content. -/
theorem formatFile_fst {o : Overlay} {path : ProjectPath} {content : String}
    (h : (o.record? path).bind Pending.content? = some content) (s : Session) :
    (formatFile c (o, s) (path, content)).1 =
      o.reword path (c.wording (s.count Event.isFormat) path content) := by
  unfold formatFile Collaborators.wording
  simp only
  rcases c.format (s.count Event.isFormat) path content with e | _ | formatted
  · exact (Overlay.reword_self h).symm
  · exact (Overlay.reword_self h).symm
  · show (if formatted = content then o else o.reword path formatted) = _
    split
    next hsame => rw [hsame, Overlay.reword_self h]
    next => rfl

/-- What files make of the records that are asked about in turn: each is reworded on its own,
and all stay what and where they are. -/
theorem foldl_formatFile {files : List (ProjectPath × String)}
    (hnodup : (files.map Prod.fst).Nodup) {o : Overlay} {s : Session}
    (hpending : ∀ file ∈ files, (o.record? file.1).bind Pending.content? = some file.2) :
    (files.foldl (formatFile c) (o, s)).1.records.outline = o.records.outline ∧
      ∀ q, (files.foldl (formatFile c) (o, s)).1.record? q =
        if q ∈ files.map Prod.fst then
          (o.record? q).map (Pending.reworded
            (c.wording (s.count Event.isFormat + (files.map Prod.fst).idxOf q) q))
        else o.record? q := by
  induction files generalizing o s with
  | nil => exact ⟨rfl, fun q => rfl⟩
  | cons file files ih =>
      obtain ⟨path, content⟩ := file
      obtain ⟨hpath, hnodup⟩ := List.nodup_cons.mp hnodup
      have hcontent := hpending _ List.mem_cons_self
      rcases hfile : formatFile c (o, s) (path, content) with ⟨o₁, s₁⟩
      have hoverlay := formatFile_fst hcontent (c := c) s
      have hcount := count_formatFile (c := c) o s (path, content)
      rw [hfile] at hoverlay hcount
      simp only at hoverlay hcount
      have hothers : ∀ q, path ≠ q → o₁.record? q = o.record? q := by
        intro q hq
        rw [hoverlay, Overlay.record?_reword, if_neg hq]
      obtain ⟨houtline, hrecord⟩ := ih (o := o₁) (s := s₁) hnodup fun file hfile => by
        have hne : path ≠ file.1 := fun heq =>
          hpath (List.mem_map.mpr ⟨file, hfile, heq.symm⟩)
        rw [hothers _ hne]
        exact hpending file (List.mem_cons_of_mem _ hfile)
      rw [List.foldl_cons, hfile]
      refine ⟨?_, fun q => ?_⟩
      · rw [houtline, hoverlay, Overlay.outline_reword]
      rw [hrecord, List.map_cons]
      by_cases hq : path = q
      · subst hq
        obtain ⟨r, hr, hcontent⟩ := Option.bind_eq_some_iff.mp hcontent
        rw [if_neg hpath, if_pos List.mem_cons_self, List.idxOf_cons_self, hoverlay,
          Overlay.record?_reword, if_pos rfl, hr, Option.map_some, Option.map_some,
          Pending.withContent_eq hcontent, Nat.add_zero]
      · have hturn : s₁.count Event.isFormat + (files.map Prod.fst).idxOf q =
            s.count Event.isFormat + (path :: files.map Prod.fst).idxOf q := by
          rw [hcount, List.idxOf_cons_ne _ hq]
          omega
        have hmem : q ∈ path :: files.map Prod.fst ↔ q ∈ files.map Prod.fst := by
          rw [List.mem_cons, or_iff_right (Ne.symm hq)]
        rw [hothers q hq, hturn, if_congr hmem rfl rfl]

/-- **Having an overlay formatted rewords each record on its own.**  No path, place or kind of a
record changes, and the content of each is what the formatter makes of it in its turn. -/
theorem formatAll_records (s : Session) {o : Overlay} (hdistinct : o.records.Distinct) :
    (s.formatAll c o).1.records.outline = o.records.outline ∧
      ∀ q, (s.formatAll c o).1.record? q = (o.record? q).map
        (Pending.reworded (c.wording (s.count Event.isFormat + o.turn q) q)) := by
  have hnodup : (o.pendingFiles.map Prod.fst).Nodup :=
    List.Nodup.sublist o.pendingFiles_sublist hdistinct
  have hpending : ∀ file ∈ o.pendingFiles,
      (o.record? file.1).bind Pending.content? = some file.2 := by
    intro file hfile
    obtain ⟨r, hmem, hr⟩ := Overlay.mem_pendingFiles.mp hfile
    rw [show o.record? file.1 = some r from Entries.get?_of_mem hdistinct hmem]
    exact hr
  obtain ⟨houtline, hrecord⟩ := foldl_formatFile (c := c) hnodup (s := s) hpending
  refine ⟨houtline, fun q => ?_⟩
  unfold formatAll Overlay.turn
  rw [hrecord]
  split
  next => rfl
  next hq =>
    -- What is not asked about has no record, or one without a content.
    rcases hr : o.record? q with _ | r
    · rfl
    have hnone : r.content? = none := by
      by_contra hsome
      obtain ⟨content, hcontent⟩ := Option.ne_none_iff_exists'.mp hsome
      have hmem : (q, content) ∈ o.pendingFiles :=
        Overlay.mem_pendingFiles.mpr ⟨r, Entries.mem_of_get? hr, hcontent⟩
      exact hq (List.mem_map.mpr ⟨_, hmem, rfl⟩)
    rw [Option.map_some, Pending.reworded_of_none hnone]

/-- Having files formatted only adds to what has happened. -/
theorem formatAll_trace (s : Session) (o : Overlay) :
    ∃ asked, (s.formatAll c o).2.trace = s.trace ++ asked := by
  refine formatAll_invariant (P := fun state => ∃ asked, state.2.trace = s.trace ++ asked) ?_
    ⟨[], (List.append_nil _).symm⟩
  rintro ⟨o', s'⟩ ⟨path, content⟩ ⟨asked, hasked⟩
  unfold formatFile note
  simp only at hasked ⊢
  rw [hasked]
  split
  next => exact ⟨_, List.append_assoc ..⟩
  next => exact ⟨_, List.append_assoc ..⟩
  next => exact ⟨_, by rw [List.append_assoc, List.append_assoc]⟩

theorem install_trace (s : Session) (o : Overlay) :
    ∃ later, (s.install c o).1.trace = s.trace ++ later := by
  unfold install note
  split
  next => exact ⟨[], (List.append_nil _).symm⟩
  next =>
    split
    next => exact ⟨[], (List.append_nil _).symm⟩
    next =>
      simp only
      split
      next => exact ⟨_, List.append_assoc ..⟩
      next => exact ⟨_, by rw [List.append_assoc, List.append_assoc]⟩

end Session

/-- The second project is the first with an overlay carried out as the formatter words it, the
files being asked about after so many others.  What is added or replaced has the formatter's
content, what is deleted is gone, and the store keeps all the rest. -/
structure Project.SetsFormatted (c : Collaborators) (n : Nat) (p : Project) (o : Overlay)
    (p' : Project) : Prop where
  written : ∀ q content, (o.record? q).bind Pending.content? = some content →
    p'.content? q = some (c.wording (n + o.turn q) q content)
  deleted : ∀ q, o.record? q = some .delete → p'.held q = none
  kept : ∀ cs, (∀ q ∈ o.records.keys, Path.components (q.locate p.base) ≠ cs) →
    p'.store.held cs = p.store.held cs

namespace Session

variable {c : Collaborators}

theorem keys_eq_of_outline {changes changes' : ChangeSet} (h : changes'.outline = changes.outline) :
    changes'.keys = changes.keys := by
  have hfst : ∀ changes : ChangeSet, changes.outline.map Prod.fst = changes.keys := by
    intro changes
    unfold ChangeSet.outline Entries.keys
    rw [List.map_map]
    rfl
  rw [← hfst, ← hfst, h]

/-- A formatted overlay is carried out as a whole, just as it would be unformatted. -/
theorem flush_formatAll {s : Session} {o : Overlay} (hopen : s.project.IsOpen) (G : o.Grounded)
    (hproject : o.project = s.project) :
    ∃ p', (s.formatAll c o).1.flush = (p', none) ∧
      s.project.SetsFormatted c (s.count Event.isFormat) o p' := by
  obtain ⟨houtline, hrecord⟩ := formatAll_records (c := c) s G.distinct
  have hkeys := keys_eq_of_outline houtline
  obtain ⟨hoverlay, -⟩ := formatAll_projects (c := c) s o
  generalize (s.formatAll c o).1 = o' at *
  have hdistinct : o'.records.Distinct := by
    unfold Entries.Distinct
    rw [hkeys]
    exact G.distinct
  have hgrounded : ∀ q r, o'.records.get? q = some r → r.kind ≠ .add →
      (s.project.content? q).isSome = true := by
    intro q r hr hkind
    rw [show o'.records.get? q = _ from hrecord q] at hr
    obtain ⟨r₀, hr₀, rfl⟩ := Option.map_eq_some_iff.mp hr
    rw [← hproject]
    exact G.isSome q r₀ hr₀ (by rwa [Pending.kind_reworded] at hkind)
  obtain ⟨p', happly, S⟩ := Project.applyAll_ok hopen hdistinct hgrounded
  have hcontent : ∀ q r, o.record? q = some r →
      p'.content? q = r.content?.map (c.wording (s.count Event.isFormat + o.turn q) q) := by
    intro q r hr
    rw [S.content?, show o'.records.get? q = _ from hrecord q, hr, Option.map_some]
    exact Pending.content?_reworded _ r
  refine ⟨p', ?_, fun q content hq => ?_, fun q hq => ?_, fun cs hcs => S.frame cs ?_⟩
  · unfold Overlay.flush
    rw [hoverlay, hproject]
    exact happly
  · obtain ⟨r, hr, hr'⟩ := Option.bind_eq_some_iff.mp hq
    rw [hcontent q r hr, hr']
    rfl
  · rw [← S.isOpen.content?_eq, hcontent q _ hq]
    rfl
  · rwa [hkeys]

/-- **A step applies exactly the formatted overlay.**  Where its codemod has succeeded with an
overlay that calls lead to, nothing is refused, whatever the formatter answers for whichever
files.  When the changes are reported, the project has what the formatter made of each
file that is added or replaced, nothing where files are deleted, and all else as it was; and
the changes that are reported are those of the codemod, of the same paths in the same order
and of the same kinds. -/
theorem apply_sets_formatted (c : Collaborators) (s : Session) (step : Step) (raw : Options)
    (o : Overlay) (hopen : s.project.IsOpen) (hexecute : (s.execute step raw).2 = .ok o)
    (hreaches : (Overlay.empty s.project).Reaches o) :
    ∃ outcome asked later p',
      (s.apply c step raw).2 = .ok outcome ∧
      (s.apply c step raw).1.trace =
        s.trace ++ asked ++ ⟨.report step.name step.description outcome.changes, p'⟩ :: later ∧
      (s.apply c step raw).1.project = p' ∧
      s.project.SetsFormatted c (s.count Event.isFormat) o p' ∧
      outcome.changes.outline = o.records.outline := by
  have hproject : o.project = s.project := hreaches.project
  have G : o.Grounded := hreaches.grounded hopen
  have happly : s.apply c step raw = s.carryOut c step o := by
    unfold apply
    rw [execute_eq hexecute, hproject]
    rfl
  obtain ⟨p', hflush, S⟩ := flush_formatAll (c := c) hopen G hproject
  obtain ⟨houtline, -⟩ := formatAll_records (c := c) s G.distinct
  obtain ⟨asked, hasked⟩ := formatAll_trace (c := c) s o
  obtain ⟨hoverlay, hsession⟩ := formatAll_projects (c := c) s o
  rw [happly]
  unfold carryOut
  rcases hformat : s.formatAll c o with ⟨o', s'⟩
  rw [hformat] at hflush houtline hasked hoverlay hsession
  simp only at hflush houtline hasked hoverlay hsession ⊢
  have hsame : o'.project = s'.project := hoverlay.trans (hproject.trans hsession.symm)
  rw [flush_eq (congrArg Project.base hsame), hflush]
  simp only
  obtain ⟨later, hlater⟩ := install_trace (c := c)
    ({ s' with project := p' }.note (.report step.name step.description o'.records)) o'
  refine ⟨_, asked, later, p', rfl, ?_, ?_, S, houtline⟩
  · rw [hlater]
    unfold note
    simp only
    rw [hasked, List.append_assoc]
    rfl
  · rw [install_project, note_project]

/-- A file that is replaced and one that is added, of which the formatter fails on one and words
the other anew, and one that is deleted. -/
theorem apply_sets_formatted_partly :
    let p : Project := .ofTexts [("a", "x"), ("b", "y"), ("c", "z")]
    let edit : Codemod := .ofEdit "edit" none fun o _ =>
      .ok (o.run [.update "a" "1", .add "d" "2", .delete "b"])
    let step : Step := .migration ⟨"001-edit", "1.1.0", "Edits", edit⟩
    let c : Collaborators := { Collaborators.none with
      format := fun _ path content =>
        if path.text = "a" then .error (.raised "no parser" []) else .ok (some (content ++ "\n")) }
    p.IsOpen ∧ ∃ outcome p', ((start p).apply c step []).2 = .ok outcome ∧
      ((start p).apply c step []).1.project = p' ∧
      p'.content? (p.resolve "a") = some "1" ∧ p'.content? (p.resolve "d") = some "2\n" ∧
      p'.held (p.resolve "b") = none ∧
      outcome.changes.outline.map Prod.snd = [.update, .add, .delete] := by
  intro p edit step c
  have hopen : p.IsOpen := Project.isOpen_ofTexts _
  have hexecute : ((start p).execute step []).2 =
      .ok ((Overlay.empty p).run [.update "a" "1", .add "d" "2", .delete "b"]) := rfl
  obtain ⟨outcome, asked, later, p', hok, -, hp', S, houtline⟩ :=
    apply_sets_formatted c (start p) step [] _ hopen hexecute ⟨_, rfl⟩
  refine ⟨hopen, outcome, p', hok, hp', ?_, ?_, S.deleted _ (by decide +kernel), ?_⟩
  · rw [S.written _ "1" (by decide +kernel)]
    decide +kernel
  · rw [S.written _ "2" (by decide +kernel)]
    decide +kernel
  · rw [houtline]
    decide +kernel

end Session

end Upkeep
