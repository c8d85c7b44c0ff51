/-
A bundled `@grafana/ui`, once and again.

An edited text of externals has nothing to edit: its lines for `@grafana/ui` are gone, and the
new element is named in it or had no place to begin with.  A text that named the element still
does, since no line that is dropped has a quote in it.  The requirement is raised to one that
suffices, which is found in the description when it is read again, whatever became of the
numbers beside it.

Three files are looked at, and neither half of the addition touches those of the other.
-/
import Upkeep.Proofs.Codemod.Idempotence
import Upkeep.Proofs.Overlay.Rewritten
import Upkeep.Proofs.Registry.ExternalsEdit
import Upkeep.Proofs.Registry.Settled
import Upkeep.Proofs.Version.Order

namespace Upkeep.BundleGrafanaUi

open Json (Value)

variable {o o' : Overlay} {source new : String} {line : Line}

/-! ### Editing a text again -/

theorem names_of_newElement {lines : List Line} (blanks : Line)
    (h : blanks ++ newElement ∈ lines) : Names (Text.unlines lines) := by
  have hquoted : "'react-inlinesvg'".toList <:+: newElement := by decide
  have hline : "'react-inlinesvg'".toList <:+: blanks ++ newElement :=
    hquoted.trans (List.suffix_append _ _).isInfix
  exact .inl ((Text.infix_unlines_iff (by decide) (by decide)).mpr ⟨_, h, hline⟩)

/-- A line for `@grafana/ui` has no character but blanks and those of the element. -/
theorem mem_of_isUiElement (h : isUiElement line = true) {c : Char} (hc : c ∈ line)
    (hblank : Text.isBlank c = false) : c ∈ "/^@grafana\\/ui/i,".toList := by
  have hmem := Text.mem_trim_of_mem hc hblank
  unfold isUiElement isElement at h
  simp only [Bool.or_eq_true, decide_eq_true_eq] at h
  rcases h with htrim | htrim
  · rw [htrim] at hmem
    exact List.mem_append_left [','] hmem
  · rwa [htrim] at hmem

/-- A quoted text stands in a line that is kept. -/
theorem exists_keptLine {needle : List Char} (quote : Char) (hquote : quote ∈ needle)
    (hblank : Text.isBlank quote = false) (hother : quote ∉ "/^@grafana\\/ui/i,".toList)
    (hline : '\n' ∉ needle) (h : needle <:+: source.toList) :
    ∃ line ∈ keptLines source, needle <:+: line := by
  obtain ⟨line, hmem, hneedle⟩ :=
    (Text.infix_iff_lines hline (List.ne_nil_of_mem hquote) source).mp h
  refine ⟨line, List.mem_filter.mpr ⟨hmem, ?_⟩, hneedle⟩
  by_contra hui
  exact hother (mem_of_isUiElement (by simpa using hui) (hneedle.subset hquote) hblank)

/-- Dropping lines hides no quoted `react-inlinesvg`. -/
theorem names_of_keptLines (h : Names source) : Names (Text.unlines (keptLines source)) := by
  rcases h with h | h
  · exact .inl ((Text.infix_unlines_iff (by decide) (by decide)).mpr
      (exists_keptLine '\'' (by decide) (by decide) (by decide) (by decide) h))
  · exact .inr ((Text.infix_unlines_iff (by decide) (by decide)).mpr
      (exists_keptLine '"' (by decide) (by decide) (by decide) (by decide) h))

theorem keptLines_unlines (h : keptLines source ≠ []) :
    keptLines (Text.unlines (keptLines source)) = keptLines source := by
  have hlines := Text.lines_unlines h fun line hline => notMem_of_mem_keptLines hline
  refine (congrArg (List.filter fun line => !isUiElement line) hlines).trans ?_
  exact List.filter_eq_self.mpr fun line hline => by simp [isUiElement_of_mem_keptLines hline]

/-- **An edited text is not edited again.** -/
theorem edit?_again (h : edit? source = some new) : edit? new = none := by
  obtain ⟨lines, rfl, hedited⟩ := editedLines_of_edit? h
  refine edit?_eq_none_iff.mpr ⟨isUiElement_of_edited hedited, ?_⟩
  cases hedited with
  | dropped hplace =>
      by_cases hnil : keptLines source = []
      · rw [hnil]
        exact (edit?_eq_none_iff.mp (by decide : edit? (Text.unlines []) = none)).2
      · rintro ⟨hnames, hwanted⟩
        rw [keptLines_unlines hnil] at hwanted
        exact hplace ⟨mt names_of_keptLines hnames, hwanted⟩
  | @inserted front rest previous punctuated hnames hkept hplace hcomma =>
      rintro ⟨hnames', -⟩
      exact hnames' (names_of_newElement (indentBehind previous rest) (by simp))

/-! ### The externals of a project -/

theorem names_externalsPath (o : Overlay) :
    (o.resolve externalsPath).names = [".config", "bundler", "externals.ts"] :=
  Overlay.names_resolve (by decide) o

theorem names_olderPath (o : Overlay) :
    (o.resolve olderPath).names = [".config", "webpack", "webpack.config.ts"] :=
  Overlay.names_resolve (by decide) o

theorem names_pluginPath (o : Overlay) : (o.resolve pluginPath).names = ["src", "plugin.json"] :=
  Overlay.names_resolve (by decide) o

/-- The files that may list the externals. -/
def externalsFiles (o : Overlay) : List ProjectPath :=
  [o.resolve externalsPath, o.resolve olderPath]

theorem pluginPath_notMem (o : Overlay) : o.resolve pluginPath ∉ externalsFiles o :=
  Overlay.notMem_of_names
    (by simp [externalsFiles, names_externalsPath, names_olderPath, names_pluginPath])

theorem target?_mem {path : String} (h : target? o = some path) :
    o.resolve path ∈ externalsFiles o := by
  unfold target? at h
  unfold externalsFiles
  split at h
  · cases h
    simp
  · split at h
    · cases h
      simp
    · cases h

/-- There is nothing to edit in the target, if there is one. -/
def Idle (o : Overlay) : Prop :=
  ∀ path, target? o = some path → edit? ((o.content? path).getD "") = none

theorem editExternals_of_idle (h : Idle o) : editExternals o = .ok o := by
  unfold editExternals
  split
  · rfl
  next path hpath => rw [h path hpath]

/-- A target that has been updated is the target still. -/
theorem target?_update {path text : String} (hpath : target? o = some path)
    (W : o.Writes path text o') (A : o.Alters [o.resolve path] o') : target? o' = some path := by
  have hcontent : o'.content? path = some text := by rw [W.content?, if_pos rfl]
  have hother : o.resolve externalsPath ≠ o.resolve olderPath :=
    Overlay.resolve_ne_of_names (by rw [names_externalsPath, names_olderPath]; decide)
  unfold target? at hpath
  split at hpath
  next =>
    cases hpath
    have hhas : o'.has externalsPath = true :=
      Overlay.hasAt_of_contentAt? (by simp [names_externalsPath]) hcontent
    unfold target?
    rw [if_pos hhas]
  next hnone =>
    split at hpath
    next =>
      cases hpath
      have hhas : o'.has olderPath = true :=
        Overlay.hasAt_of_contentAt? (by simp [names_olderPath]) hcontent
      unfold target?
      rw [A.has (by simpa using hother), if_neg hnone, if_pos hhas]
    next => cases hpath

/-- **Edited externals are idle**, and only the files of externals have changed. -/
theorem editExternals_ok (h : editExternals o = .ok o') :
    o.Alters (externalsFiles o) o' ∧ Idle o' := by
  cases htarget : target? o with
  | none =>
      unfold editExternals at h
      rw [htarget] at h
      cases h
      refine ⟨.refl o _, fun path hpath => ?_⟩
      rw [htarget] at hpath
      cases hpath
  | some path =>
      cases hedit : edit? ((o.content? path).getD "") with
      | none =>
          have hidle : Idle o := by
            intro path' hpath'
            rw [htarget] at hpath'
            cases hpath'
            exact hedit
          rw [editExternals_of_idle hidle] at h
          cases h
          exact ⟨.refl o _, hidle⟩
      | some text =>
          unfold editExternals at h
          rw [htarget] at h
          simp only [hedit] at h
          have hupdate := Overlay.mapError_ok h
          have A := Overlay.alters_update hupdate
          have W := Overlay.update_ok hupdate
          refine ⟨A.mono (by simpa using target?_mem htarget), fun path' hpath' => ?_⟩
          rw [target?_update htarget W A] at hpath'
          cases hpath'
          rw [W.content?, if_pos rfl, Option.getD_some]
          exact edit?_again hedit

theorem Idle.congr (h : Idle o) {paths : List ProjectPath} (A : o.Alters paths o')
    (hpaths : ∀ p ∈ externalsFiles o, p ∉ paths) : Idle o' := by
  have hexternals : o.resolve externalsPath ∉ paths := hpaths _ (by simp [externalsFiles])
  have holder : o.resolve olderPath ∉ paths := hpaths _ (by simp [externalsFiles])
  have htarget : target? o' = target? o := by
    unfold target?
    rw [A.has hexternals, A.has holder]
  intro path hpath
  rw [htarget] at hpath
  rw [A.content? (hpaths _ (target?_mem hpath))]
  exact h path hpath

/-! ### The requirement -/

/-- The range of Grafana that a plugin asks for. -/
def requirement? (plugin : Value) : Option String :=
  ((plugin.member? "dependencies").bind fun d => d.member? "grafanaDependency").bind Value.string?

/-- The range without the signs of comparison in front of it. -/
def bare (range : String) : String :=
  String.ofList (range.toList.dropWhile fun c => c = '>' || c = '<' || c = '=')

/-- The range reads as a version, and that can run the plugin. -/
def Suffices (range : String) : Prop := ∃ v, Version.coerce? (bare range) = some v ∧ minimum ≤ v

theorem isBelowMinimum_eq_false_iff {range : String} :
    isBelowMinimum range = false ↔ Suffices range := by
  unfold isBelowMinimum Suffices bare
  simp only
  split
  next v hv => simp [hv, Version.not_lt_iff]
  next hv => simp [hv]

/-- What is asked for stands in a text, whatever the numbers beside it are. -/
theorem requirement?_outline (plugin : Value) :
    requirement? plugin.outline = requirement? plugin := by
  unfold requirement?
  rw [Value.member?_outline]
  cases plugin.member? "dependencies" with
  | none => rfl
  | some d =>
      show ((d.outline.member? "grafanaDependency").bind _) = (d.member? "grafanaDependency").bind _
      rw [Value.member?_outline]
      cases d.member? "grafanaDependency" with
      | none => rfl
      | some range => exact Value.string?_outline range

variable {members members' dependencies : Entries String Value} {range : String} {room : Nat}
  {P : Json.Number → Prop}

/-- The dependencies of a plugin, if they are an object or could become one. -/
def dependencies? (members : Entries String Value) : Option (Entries String Value) :=
  ((members.get? "dependencies").getD (.object [])).members?

/-- The members with another requirement. -/
def withRequirement (members dependencies : Entries String Value) (range : String) :
    Entries String Value :=
  members.put "dependencies" (.object (dependencies.put "grafanaDependency" (.string range)))

theorem requirement?_withRequirement :
    requirement? (.object (withRequirement members dependencies range)) = some range := by
  unfold requirement? withRequirement Value.member? Value.members?
  simp [Value.string?]

theorem shaped_withRequirement (h : Value.Shaped P (room + 2) (.object members))
    (hdependencies : dependencies? members = some dependencies) (range : String) :
    Value.Shaped P (room + 2) (.object (withRequirement members dependencies range)) := by
  have hshaped : Value.Shaped P (room + 1) (.object dependencies) := by
    have hobject := Value.eq_object hdependencies
    cases hget : members.get? "dependencies" with
    | none =>
        rw [hget] at hobject
        cases hobject
        exact .empty
    | some d =>
        rw [hget, Option.getD_some] at hobject
        rw [← hobject]
        exact h.get? hget
  exact h.put _ (hshaped.put _ (.string range))

/-- The requirement that is raised to. -/
def raised : String := ">=" ++ minimum.text

theorem suffices_raised : Suffices raised :=
  isBelowMinimum_eq_false_iff.mp (by decide)

theorem requirement?_eq (h : dependencies? members = some dependencies) :
    requirement? (.object members) =
      (dependencies.get? "grafanaDependency").bind Value.string? := by
  have hobject := Value.eq_object h
  unfold requirement?
  show ((members.get? "dependencies").bind fun d => d.member? "grafanaDependency").bind _ = _
  cases hget : members.get? "dependencies" with
  | none =>
      rw [hget] at hobject
      cases hobject
      rfl
  | some d =>
      rw [hget, Option.getD_some] at hobject
      rw [hobject]
      rfl

theorem raise?_eq (h : dependencies? members = some dependencies) :
    raise? members =
      if isBelowMinimum ((requirement? (.object members)).getD ">=9.0.0") then
        some (withRequirement members dependencies raised) else none := by
  rw [requirement?_eq h]
  unfold dependencies? at h
  unfold raise? withRequirement raised
  rw [h]
  simp only [Option.bind_eq_bind, Option.bind_some]

/-- The requirement is raised exactly where there is a place for it and it does not suffice. -/
theorem raise?_cases (members : Entries String Value) :
    (raise? members = none ∧ (dependencies? members = none ∨
      ∃ range, requirement? (.object members) = some range ∧ Suffices range)) ∨
    ∃ dependencies, dependencies? members = some dependencies ∧
      (∀ range, requirement? (.object members) = some range → ¬Suffices range) ∧
        raise? members = some (withRequirement members dependencies raised) := by
  cases hdependencies : dependencies? members with
  | none =>
      refine .inl ⟨?_, .inl rfl⟩
      unfold dependencies? at hdependencies
      unfold raise?
      rw [hdependencies]
      rfl
  | some dependencies =>
      rw [raise?_eq hdependencies]
      by_cases hbelow : isBelowMinimum ((requirement? (.object members)).getD ">=9.0.0") = true
      · refine .inr ⟨dependencies, rfl, fun range hrange hsuffices => ?_, if_pos hbelow⟩
        rw [hrange, Option.getD_some, isBelowMinimum_eq_false_iff.mpr hsuffices] at hbelow
        cases hbelow
      · refine .inl ⟨if_neg hbelow, .inr ?_⟩
        cases hrange : requirement? (.object members) with
        | none =>
            rw [hrange] at hbelow
            exact absurd (by decide) hbelow
        | some range =>
            rw [hrange, Option.getD_some, Bool.not_eq_true] at hbelow
            exact ⟨range, rfl, isBelowMinimum_eq_false_iff.mp hbelow⟩

/-! ### The requirement of a project -/

theorem raiseRequirement_of_read {plugin : Value} (hread : o.readDocument pluginPath = .ok plugin)
    (h : plugin.members?.bind raise? = none) : raiseRequirement o = .ok o := by
  unfold raiseRequirement
  rw [hread]
  split
  · rfl
  · simp only [bind, Except.bind]
    rw [h]

/-- A requirement that suffices is not raised. -/
theorem raise?_of_suffices {plugin : Value} (h : requirement? plugin = some range)
    (hrange : Suffices range) : plugin.members?.bind raise? = none := by
  cases hmembers : plugin.members? with
  | none => rfl
  | some members =>
      obtain rfl := Value.eq_object hmembers
      obtain ⟨hnone, -⟩ | ⟨-, -, hnot, -⟩ := raise?_cases members
      · exact hnone
      · exact absurd hrange (hnot range h)

/-- What raising the requirement does: nothing, the description being none that it could be
raised in or one that suffices, or it is written with a requirement that is found in it. -/
theorem raiseRequirement_ok (h : raiseRequirement o = .ok o') :
    (o' = o ∧ ∀ plugin, o.readDocument pluginPath = .ok plugin →
      ∀ members, plugin = .object members → dependencies? members = none ∨
        ∃ range, requirement? plugin = some range ∧ Suffices range) ∨
    ∃ before after, o.readDocument pluginPath = .ok before ∧
      (∀ range, requirement? before = some range → ¬Suffices range) ∧
      o.Alters [o.resolve pluginPath] o' ∧ o'.readDocument pluginPath = .ok after ∧
      requirement? after = some raised := by
  unfold raiseRequirement at h
  split at h
  next hlacking =>
    cases h
    refine .inl ⟨rfl, fun plugin hread => ?_⟩
    obtain ⟨text, htext, -⟩ := Overlay.readDocument_ok hread
    have hhas : o.has pluginPath = true :=
      Overlay.hasAt_of_contentAt? (by simp [names_pluginPath]) htext
    simp [hhas] at hlacking
  next =>
    obtain ⟨plugin, hread, h⟩ := Except.bind_ok h
    cases hmembers : plugin.members? with
    | none =>
        simp only [hmembers, Option.bind_none] at h
        cases h
        refine .inl ⟨rfl, fun plugin' hread' members hobject => ?_⟩
        cases hread.symm.trans hread'
        rw [hobject] at hmembers
        cases hmembers
    | some members =>
        obtain rfl := Value.eq_object hmembers
        simp only [hmembers, Option.bind_some] at h
        obtain ⟨hnone, hwhy⟩ | ⟨dependencies, hdependencies, hnot, hraise⟩ := raise?_cases members
        · rw [hnone] at h
          cases h
          refine .inl ⟨rfl, fun plugin' hread' members' hobject => ?_⟩
          cases hread.symm.trans hread'
          cases hobject
          exact hwhy
        · rw [hraise] at h
          have hshaped : Value.Shaped Json.Number.InRange (125 + 2) (.object members) :=
            Overlay.shaped_of_readDocument hread
          obtain ⟨after, hafter, houtline⟩ := Overlay.exists_readDocument_of_write
            (shaped_withRequirement hshaped hdependencies raised) h
          refine .inr ⟨_, after, hread, hnot, Overlay.alters_writeDocument h, hafter, ?_⟩
          rw [← requirement?_outline, houtline, requirement?_outline, requirement?_withRequirement]

/-- **A raised requirement is not raised again**, and only the description has changed. -/
theorem raiseRequirement_again (h : raiseRequirement o = .ok o') :
    o.Alters [o.resolve pluginPath] o' ∧ raiseRequirement o' = .ok o' := by
  obtain ⟨rfl, -⟩ | ⟨-, after, -, -, A, hafter, hraised⟩ := raiseRequirement_ok h
  · exact ⟨.refl _ _, h⟩
  · exact ⟨A, raiseRequirement_of_read hafter (raise?_of_suffices hraised suffices_raised)⟩

/-- **Dependencies that are an object ask for what suffices**, and keep asking for what did. -/
theorem suffices_of_raiseRequirement (h : raiseRequirement o = .ok o') {plugin : Value}
    (hread : o'.readDocument pluginPath = .ok plugin)
    (hdependencies : plugin.member? "dependencies" = some (.object dependencies)) :
    ∃ range, requirement? plugin = some range ∧ Suffices range ∧
      ∀ before range₀, o.readDocument pluginPath = .ok before →
        requirement? before = some range₀ → Suffices range₀ → range = range₀ := by
  obtain ⟨rfl, hkept⟩ | ⟨before, after, hbefore, hnot, -, hafter, hraised⟩ := raiseRequirement_ok h
  · obtain ⟨members, hmembers, hget⟩ := Option.bind_eq_some_iff.mp hdependencies
    obtain rfl := Value.eq_object hmembers
    obtain hnone | ⟨range, hrange, hsuffices⟩ := hkept _ hread members rfl
    · unfold dependencies? at hnone
      rw [hget] at hnone
      cases hnone
    · refine ⟨range, hrange, hsuffices, fun before range₀ hbefore hrange₀ _ => ?_⟩
      cases hread.symm.trans hbefore
      exact Option.some.inj (hrange.symm.trans hrange₀)
  · cases hafter.symm.trans hread
    refine ⟨raised, hraised, suffices_raised, fun before' range₀ hbefore' hrange₀ hsuffices => ?_⟩
    cases hbefore.symm.trans hbefore'
    exact absurd hsuffices (hnot range₀ hrange₀)

/-! ### The addition -/

theorem run_again (h : run o = .ok o') : run o' = .ok o' := by
  obtain ⟨o₁, hexternals, hrequirement⟩ := Except.bind_ok h
  obtain ⟨A, hidle⟩ := editExternals_ok hexternals
  obtain ⟨A', hagain⟩ := raiseRequirement_again hrequirement
  have hidle' : Idle o' := by
    refine hidle.congr A' fun p hp hmem => ?_
    rw [List.mem_singleton.mp hmem] at hp
    exact pluginPath_notMem o₁ hp
  unfold run
  rw [editExternals_of_idle hidle']
  exact hagain

/-- **Bundling again changes nothing, and the requirement never falls.**  After any run that
succeeds the check passes and another run leaves everything on record as it is.  If then the
dependencies of the plugin are an object, they ask for a Grafana that can run it, and for the
same as before where that was one already. -/
theorem codemod_settles {options : Options} (h : codemod.run o options = .ok o') :
    codemod.checkIdempotent o options = .ok o' ∧
    (∀ options', codemod.run o' options' = .ok o') ∧
    ∀ (plugin : Value) (dependencies : Entries String Value),
      o'.readDocument pluginPath = .ok plugin →
      plugin.member? "dependencies" = some (.object dependencies) →
        ∃ range, dependencies.get? "grafanaDependency" = some (.string range) ∧ Suffices range ∧
          ∀ before range₀, o.readDocument pluginPath = .ok before →
            requirement? before = some range₀ → Suffices range₀ → range = range₀ := by
  have hrun : run o = .ok o' := Overlay.mapError_ok h
  have hagain : ∀ options', codemod.run o' options' = .ok o' := by
    intro options'
    show (run o').mapError _ = _
    rw [run_again hrun]
    rfl
  refine ⟨?_, hagain, fun plugin dependencies hread hdependencies => ?_⟩
  · rw [Codemod.checkIdempotent_of_ok rfl h (hagain options)]
    exact if_pos ((Overlay.changed_eq_nil_iff rfl).mpr fun _ => rfl)
  · obtain ⟨o₁, hexternals, hrequirement⟩ := Except.bind_ok hrun
    obtain ⟨A, -⟩ := editExternals_ok hexternals
    rw [← A.readDocument (pluginPath_notMem o)]
    obtain ⟨range, hrange, hsuffices, hkept⟩ :=
      suffices_of_raiseRequirement hrequirement hread hdependencies
    refine ⟨range, ?_, hsuffices, hkept⟩
    unfold requirement? at hrange
    rw [hdependencies] at hrange
    obtain ⟨v, hv, hstring⟩ := Option.bind_eq_some_iff.mp hrange
    cases v with
    | string s =>
        cases hstring
        exact hv
    | _ => cases hstring

/-- Externals that lose one element and gain another, and a plugin that asks for a version with
a sign before it, beside a number that doubles do not hold. -/
theorem codemod_settles_raised :
    let o : Overlay := .empty (.ofTexts [
      (".config/bundler/externals.ts",
        "externals: [\n/^@grafana\\/ui/i,\n/^@grafana\\/data/i\n]"),
      ("src/plugin.json",
        "\x7b\"a\":1e-999,\"dependencies\":\x7b\"grafanaDependency\":\">=9\"\x7d\x7d")])
    ∃ o', codemod.run o [] = .ok o' ∧ o'.records.length = 2 ∧
      codemod.checkIdempotent o [] = .ok o' ∧
      (∀ options', codemod.run o' options' = .ok o') ∧
      ∀ (plugin : Value) (dependencies : Entries String Value),
        o'.readDocument pluginPath = .ok plugin →
        plugin.member? "dependencies" = some (.object dependencies) →
          ∃ range, dependencies.get? "grafanaDependency" = some (.string range) ∧ Suffices range ∧
            ∀ before range₀, o.readDocument pluginPath = .ok before →
              requirement? before = some range₀ → Suffices range₀ → range = range₀ := by
  intro o
  have hrun : ∃ o' ∈ (codemod.run o []).toOption, o'.records.length = 2 := by decide +kernel
  obtain ⟨o', hok, hrecords⟩ := Except.exists_ok hrun
  exact ⟨o', hok, hrecords, codemod_settles hok⟩

end Upkeep.BundleGrafanaUi
