/-
What a revision of the ESLint configuration changes.

`Revises` compares two configurations member by member: only overrides for TypeScript sources
may differ, and of those only the list of plugins and the rules.  Keys stay in their order
throughout; a member is gone only where a list of plugins has become empty, and one is new
only where the rules did not have the new rule yet.

A written configuration has the comment lines of the old one in front, and what is read
behind them is a revision of what was read before.
-/
import Upkeep.Proofs.Overlay.Frame
import Upkeep.Proofs.Registry.EslintDeprecation

namespace Upkeep.EslintDeprecation

open Json (Value)

variable {members members' rules : Entries String Value} {config config' : Value}

/-! ### What may differ -/

/-- The override is for the TypeScript sources: their pattern is among its files. -/
def Targets (override : Value) : Prop :=
  (∃ files, override.member? "files" = some (.array files) ∧ .string sourcePattern ∈ files) ∨
    ∃ files, override.member? "files" = some (.string files) ∧
      sourcePattern.toList <:+: files.toList

theorem isTarget_iff {override : Value} : isTarget override = true ↔ Targets override := by
  unfold isTarget Targets
  cases override.member? "files" with
  | none => simp
  | some files =>
      cases files with
      | array files => simp [Value.string?_eq_some_iff]
      | string files => simp [Text.containsText, Text.contains_iff]
      | _ => simp

/-- Rules without the old one, and with the new one as a warning: where it stands, or at
the end. -/
inductive RevisesRules : Entries String Value → Entries String Value → Prop
  | replaced {rules : Entries String Value} (h : newRule ∈ rules.keys) :
      RevisesRules rules
        ((rules.filter fun m => m.1 ≠ oldRule).map fun m =>
          if m.1 = newRule then (newRule, .string "warn") else m)
  | added {rules : Entries String Value} (h : newRule ∉ rules.keys) :
      RevisesRules rules ((rules.filter fun m => m.1 ≠ oldRule) ++ [(newRule, .string "warn")])

/-- The plugins that stay. -/
def otherPlugins (plugins : List Value) : List Value :=
  plugins.filter fun p => p ≠ .string "deprecation"

/-- Members of an override for TypeScript sources: a list of plugins loses the old one, and
goes where that leaves it empty; an object of rules is revised; every other member stays. -/
inductive RevisesMembers : Entries String Value → Entries String Value → Prop
  | nil : RevisesMembers [] []
  | plugins {plugins : List Value} {members members' : Entries String Value}
      (hothers : otherPlugins plugins ≠ []) (h : RevisesMembers members members') :
      RevisesMembers (("plugins", .array plugins) :: members)
        (("plugins", .array (otherPlugins plugins)) :: members')
  | noPlugins {plugins : List Value} {members members' : Entries String Value}
      (hothers : otherPlugins plugins = []) (h : RevisesMembers members members') :
      RevisesMembers (("plugins", .array plugins) :: members) members'
  | rules {rules rules' members members' : Entries String Value}
      (hrules : RevisesRules rules rules') (h : RevisesMembers members members') :
      RevisesMembers (("rules", .object rules) :: members) (("rules", .object rules') :: members')
  | other {m : String × Value} {members members' : Entries String Value}
      (hplugins : ∀ plugins, m ≠ ("plugins", .array plugins))
      (hrules : ∀ rules, m ≠ ("rules", .object rules)) (h : RevisesMembers members members') :
      RevisesMembers (m :: members) (m :: members')

/-- An override for TypeScript sources with its members revised, or another one as it is. -/
inductive RevisesOverride : Value → Value → Prop
  | target {members members' : Entries String Value} (htarget : Targets (.object members))
      (h : RevisesMembers members members') : RevisesOverride (.object members) (.object members')
  | other {override : Value} (h : ¬Targets override) : RevisesOverride override override

/-- A configuration in which at most overrides differ, each a revision of the one in its
place. -/
inductive Revises : Value → Value → Prop
  | overrides {front back : Entries String Value} {overrides overrides' : List Value}
      (hfirst : "overrides" ∉ front.keys) (h : List.Forall₂ RevisesOverride overrides overrides') :
      Revises (.object (front ++ ("overrides", .array overrides) :: back))
        (.object (front ++ ("overrides", .array overrides') :: back))

/-! ### A revision changes no more -/

theorem revisesRules (d : rules.Distinct) :
    RevisesRules rules ((rules.erase oldRule).put newRule (.string "warn")) := by
  have hkeys : newRule ∈ (rules.erase oldRule).keys ↔ newRule ∈ rules.keys := by
    rw [Entries.keys_erase, List.mem_filter]
    exact and_iff_left (by decide)
  by_cases h : newRule ∈ rules.keys
  · rw [Entries.put_eq_map (d.erase oldRule) (hkeys.mpr h)]
    exact .replaced h
  · rw [Entries.put_of_notMem _ (mt hkeys.mp h)]
    exact .added h

theorem dropPlugin_of_notMem (h : "plugins" ∉ members.keys) : dropPlugin members = members := by
  unfold dropPlugin
  rw [Entries.get?_eq_none_iff.mpr h]

theorem replaceRule_of_notMem (h : "rules" ∉ members.keys) : replaceRule members = members := by
  unfold replaceRule
  rw [Entries.get?_eq_none_iff.mpr h]

/-- Members of other names are passed by. -/
theorem dropPlugin_cons {k : String} (hk : k ≠ "plugins") (v : Value)
    (members : Entries String Value) :
    dropPlugin ((k, v) :: members) = (k, v) :: dropPlugin members := by
  unfold dropPlugin
  rw [Entries.get?_cons, if_neg hk]
  cases members.get? "plugins" with
  | none => rfl
  | some w =>
      cases w with
      | array plugins =>
          simp only [Entries.erase_cons, Entries.put_cons, if_neg hk]
          split <;> rfl
      | _ => rfl

theorem replaceRule_cons {k : String} (hk : k ≠ "rules") (v : Value)
    (members : Entries String Value) :
    replaceRule ((k, v) :: members) = (k, v) :: replaceRule members := by
  unfold replaceRule
  rw [Entries.get?_cons, if_neg hk]
  cases members.get? "rules" with
  | none => rfl
  | some w =>
      cases w with
      | object rules => simp only [Entries.put_cons, if_neg hk]
      | _ => rfl

/-- The members of a list of plugins, once it is revised. -/
theorem dropPlugin_array {plugins : List Value} (h : "plugins" ∉ members.keys) :
    dropPlugin (("plugins", .array plugins) :: members) =
      if otherPlugins plugins = [] then members
      else ("plugins", .array (otherPlugins plugins)) :: members := by
  have hkept : plugins.filter (fun p => p.string? ≠ some "deprecation") = otherPlugins plugins :=
    List.filter_congr fun p _ => by simp [Value.string?_eq_some_iff]
  unfold dropPlugin
  rw [Entries.get?_cons, if_pos rfl]
  simp only [hkept, Entries.erase_cons, Entries.put_cons, if_true, Entries.erase_of_notMem h]

theorem replaceRule_object (members : Entries String Value) :
    replaceRule (("rules", .object rules) :: members) =
      ("rules", .object ((Entries.erase rules oldRule).put newRule (.string "warn"))) ::
        members := by
  unfold replaceRule
  rw [Entries.get?_cons, if_pos rfl]
  simp only [Entries.put_cons, if_true]

/-- What is no list of plugins is passed by. -/
theorem dropPlugin_other {v : Value} (hv : ∀ plugins, v ≠ .array plugins) :
    dropPlugin (("plugins", v) :: members) = ("plugins", v) :: members := by
  unfold dropPlugin
  rw [Entries.get?_cons, if_pos rfl]
  split
  next plugins heq => exact absurd (Option.some.inj heq) (hv plugins)
  next => rfl

theorem replaceRule_other {v : Value} (hv : ∀ rules, v ≠ .object rules) :
    replaceRule (("rules", v) :: members) = ("rules", v) :: members := by
  unfold replaceRule
  rw [Entries.get?_cons, if_pos rfl]
  split
  next rules heq => exact absurd (Option.some.inj heq) (hv rules)
  next => rfl

/-- **Only the plugins and the rules of an override are revised.** -/
theorem revisesMembers (d : members.Distinct)
    (hrules : ∀ rules, ("rules", .object rules) ∈ members → Entries.Distinct rules) :
    RevisesMembers members (replaceRule (dropPlugin members)) := by
  induction members with
  | nil => exact .nil
  | cons m members ih =>
      obtain ⟨k, v⟩ := m
      obtain ⟨hk, d⟩ : k ∉ Entries.keys members ∧ Entries.Distinct members := List.nodup_cons.mp d
      have ih := ih d fun rules hmem => hrules rules (List.mem_cons_of_mem _ hmem)
      by_cases hplugins : k = "plugins"
      · subst hplugins
        rw [dropPlugin_of_notMem hk] at ih
        by_cases hv : ∃ plugins, v = .array plugins
        · obtain ⟨plugins, rfl⟩ := hv
          rw [dropPlugin_array hk]
          split
          next hothers => exact .noPlugins hothers ih
          next hothers =>
            rw [replaceRule_cons (by decide)]
            exact .plugins hothers ih
        · rw [dropPlugin_other fun plugins h => hv ⟨plugins, h⟩, replaceRule_cons (by decide)]
          exact .other (fun plugins h => hv ⟨plugins, (Prod.mk.inj h).2⟩) (by simp) ih
      · rw [dropPlugin_cons hplugins]
        by_cases hk' : k = "rules"
        · subst hk'
          have hrest : "rules" ∉ (dropPlugin members).keys := by
            rw [← Entries.get?_eq_none_iff, get?_dropPlugin (by decide)]
            exact Entries.get?_eq_none_iff.mpr hk
          rw [replaceRule_of_notMem hrest] at ih
          by_cases hv : ∃ rules, v = .object rules
          · obtain ⟨rules, rfl⟩ := hv
            rw [replaceRule_object]
            exact .rules (revisesRules (hrules rules List.mem_cons_self)) ih
          · rw [replaceRule_other fun rules h => hv ⟨rules, h⟩]
            exact .other (by simp) (fun rules h => hv ⟨rules, (Prod.mk.inj h).2⟩) ih
        · rw [replaceRule_cons hk']
          exact .other (fun plugins h => hplugins (Prod.mk.inj h).1)
            (fun rules h => hk' (Prod.mk.inj h).1) ih

variable {room : Nat} {o o' : Overlay}

theorem revisesOverride {override : Value} (h : override.Readable room) :
    RevisesOverride override (revise override) := by
  by_cases htarget : isTarget override = true
  · cases override with
    | object members =>
        obtain ⟨n, -, d, hmembers⟩ := h.of_object
        have hrevise : revise (.object members) = .object (replaceRule (dropPlugin members)) := by
          unfold revise
          exact if_pos htarget
        rw [hrevise]
        refine .target (isTarget_iff.mp htarget) (revisesMembers d fun rules hmem => ?_)
        obtain ⟨-, -, d', -⟩ := (hmembers _ hmem).of_object
        exact d'
    | _ => cases htarget
  · have hrevise : revise override = override := by
      cases override with
      | object members =>
          unfold revise
          exact if_neg htarget
      | _ => rfl
    rw [hrevise]
    exact .other (mt isTarget_iff.mpr htarget)

/-- **A revised configuration is a revision.** -/
theorem revises_reviseAll {overrides : List Value} (hconfig : config.Readable room)
    (h : overrides? config = some overrides) : Revises config (reviseAll config) := by
  obtain ⟨v, hv, hitems⟩ := Option.bind_eq_some_iff.mp h
  cases config with
  | object members =>
      cases v with
      | array items =>
          cases hitems
          have hget : Entries.get? members "overrides" = some (.array overrides) := hv
          have hrevised : reviseAll (.object members) =
              .object (Entries.put members "overrides" (.array (overrides.map revise))) := by
            unfold reviseAll Value.updateMember
            simp only [hget]
          obtain ⟨front, back, rfl, hfirst, hput⟩ := Entries.exists_append_of_get? hget
          rw [hrevised, hput]
          obtain ⟨n, -, -, hmembers⟩ := hconfig.of_object
          obtain ⟨n', -, hoverrides⟩ :=
            (hmembers ("overrides", .array overrides) (by simp)).of_array
          refine .overrides hfirst ?_
          rw [List.forall₂_map_right_iff, List.forall₂_same]
          exact fun override hmem => revisesOverride (hoverrides override hmem)
      | _ => cases hitems
  | _ => cases hv

/-! ### A run that revises -/

/-- With nothing to revise the run leaves the record of the configuration as it is. -/
theorem record?_of_idle (h : dropPackage o = .ok o') :
    o'.record? (o.resolve configPath) = o.record? (o.resolve configPath) :=
  (Manifest.alters_removeDependencies h).frame _ (by simpa using resolve_ne o)

/-- A run that records a change of the configuration has revised it. -/
theorem revised_of_record (h : run o = .ok o')
    (hchanged : o'.record? (o.resolve configPath) ≠ o.record? (o.resolve configPath)) :
    ∃ config overrides, Json.read (body (configText o)) = .ok config ∧
      overrides? config = some overrides ∧
      (reviseFiles o (commentLines (configText o)) config >>= dropPackage) = .ok o' := by
  by_cases hhas : (!o.has configPath || !o.has Manifest.path) = true
  · rw [run_of_lacking hhas] at h
    cases h
    exact absurd rfl hchanged
  have hhas' : (!o.has configPath || !o.has Manifest.path) = false := by simpa using hhas
  obtain ⟨config, hread⟩ := read_of_run hhas' h
  rw [run_of_config hhas' hread] at h
  split at h
  · exact absurd (record?_of_idle h) hchanged
  next overrides hoverrides =>
    split at h
    · exact ⟨config, overrides, hread, hoverrides, h⟩
    · exact absurd (record?_of_idle h) hchanged

/-- **The migration edits what it is for and keeps the comment lines.**  A run that records a
change of the configuration leaves its comment lines, in order, and behind them a revision of
what was read. -/
theorem codemod_revises {options : Options} (hconfig : NumbersReadBack o)
    (h : codemod.run o options = .ok o')
    (hchanged : o'.record? (o.resolve configPath) ≠ o.record? (o.resolve configPath)) :
    commentLines (configText o') = commentLines (configText o) ∧
      ∃ config config', Json.read (body (configText o)) = .ok config ∧
        Json.read (body (configText o')) = .ok config' ∧ Revises config config' := by
  have hrun : run o = .ok o' := Overlay.mapError_ok h
  obtain ⟨config, overrides, hread, hoverrides, hrevised⟩ := revised_of_record hrun hchanged
  have hcontent := content?_of_revised hrevised
  have hreadable : config.Readable Json.Reader.maxDepth := Json.readable_of_read hconfig hread
  refine ⟨?_, config, reviseAll config, hread, read_of_revised hreadable hcontent,
    revises_reviseAll hreadable hoverrides⟩
  rw [configText_eq hcontent, commentLines_withComments (allComments_commentLines _)]

/-- A line above the text and one between members, each with its own kind of line end: they
stay, and the rule is replaced. -/
theorem codemod_revises_banner :
    let o : Overlay := .empty (.ofTexts [
      (".config/.eslintrc",
        "/* x */\r\n\x7b\"overrides\":[\x7b\"files\":\"src/**/*.\x7bts,tsx\x7d\",\n * y\n" ++
          "\"rules\":\x7b\"deprecation/deprecation\":1\x7d\x7d]\x7d"),
      ("package.json",
        "\x7b\"dependencies\":\x7b\"@typescript-eslint/eslint-plugin\":\"9\"," ++
          "\"@typescript-eslint/parser\":\"9\"\x7d\x7d")])
    NumbersReadBack o ∧ ∃ o', codemod.run o [] = .ok o' ∧
      o'.record? (o.resolve configPath) ≠ o.record? (o.resolve configPath) ∧
      commentLines (configText o') = ["/* x */\r".toList, " * y".toList] ∧
      ∃ config config', Json.read (body (configText o)) = .ok config ∧
        Json.read (body (configText o')) = .ok config' ∧ Revises config config' := by
  intro o
  have hconfig : NumbersReadBack o := by decide +kernel
  have hrun : ∃ o' ∈ (codemod.run o []).toOption,
      o'.record? (o.resolve configPath) ≠ o.record? (o.resolve configPath) := by decide +kernel
  obtain ⟨o', hok, hchanged⟩ := Except.exists_ok hrun
  obtain ⟨hcomments, hrevises⟩ := codemod_revises hconfig hok hchanged
  refine ⟨hconfig, o', hok, hchanged, ?_, hrevises⟩
  rw [hcomments]
  decide +kernel

end Upkeep.EslintDeprecation
