/-
What is left of a manifest that packages are dropped from.

Packages are dropped one name after the other, and a name that is asked for may be unknown, stand
for something that is no range, or come twice.  What is left is told without any of that: each
section without the entries that have one of the names and a range, and all else as it was.

Whether an entry goes shows in the outline of the manifest.  So the manifest that is read after
the removal has nothing more to drop, with no word about its numbers.
-/
import Upkeep.Proofs.Manifest.Ranges
import Upkeep.Proofs.Manifest.Rewritten
import Upkeep.Proofs.Registry.Settled

namespace Upkeep.Manifest

open Declared
open Json (Value)

variable {ps : Packages} {name : String} {manifest manifest' : Value}
  {members : Entries String Value} {runtime development : List String}

/-- The value is a range: a text that is not empty. -/
def isRange : Value → Bool
  | .string range => range ≠ ""
  | _ => false

/-- The entry goes when these packages are dropped. -/
def Goes (names : List String) (e : String × Value) : Prop := e.1 ∈ names ∧ isRange e.2 = true

instance (names : List String) (e : String × Value) : Decidable (Goes names e) := by
  unfold Goes
  infer_instance

/-- A section without the entries that go; what is no object stays. -/
def remainingIn (names : List String) : Value → Value
  | .object ps => .object (ps.filter fun e => ¬Goes names e)
  | v => v

/-- The packages that are dropped from a section. -/
def listFor (runtime development : List String) : Section → List String
  | .runtime => runtime
  | .development => development

/-- A manifest without the entries that go; what is no object stays. -/
def remaining (runtime development : List String) : Value → Value
  | .object members => .object <| members.map fun m =>
      (m.1, if m.1 = Section.runtime.key then remainingIn runtime m.2
        else if m.1 = Section.development.key then remainingIn development m.2
        else m.2)
  | v => v

/-- No entry of the manifest goes. -/
def NoneGoes (runtime development : List String) (manifest : Value) : Prop :=
  ∀ s ps, manifest.member? s.key = some (.object ps) →
    ∀ e ∈ ps, ¬Goes (listFor runtime development s) e

/-! ### One section -/

theorem declared?_isSome_iff :
    (declared? ps name).isSome = true ↔ ∃ v, ps.get? name = some v ∧ isRange v = true := by
  rw [Option.isSome_iff_exists]
  simp only [declared?_eq_some_iff]
  constructor
  · rintro ⟨range, hget, hne⟩
    exact ⟨_, hget, by simpa [isRange] using hne⟩
  · rintro ⟨v, hget, hrange⟩
    cases v with
    | string range => exact ⟨range, hget, by simpa [isRange] using hrange⟩
    | _ => cases hrange

theorem declared?_eq_none_iff (d : ps.Distinct) :
    declared? ps name = none ↔ ∀ e ∈ ps, e.1 = name → isRange e.2 = false := by
  rw [← Option.not_isSome_iff_eq_none, declared?_isSome_iff]
  constructor
  · rintro hnone e he rfl
    simpa using fun hrange => hnone ⟨e.2, Entries.get?_of_mem d he, hrange⟩
  · rintro hnone ⟨v, hget, hrange⟩
    rw [hnone _ (Entries.mem_of_get? hget) rfl] at hrange
    cases hrange

/-- One name takes one entry, if that is a range. -/
theorem drop_eq_filter (d : ps.Distinct) (name : String) :
    drop ps name = ps.filter fun e => ¬Goes [name] e := by
  unfold drop
  split
  next hdeclared =>
    obtain ⟨v, hget, hrange⟩ := declared?_isSome_iff.mp hdeclared
    refine List.filter_congr fun e he => decide_eq_decide.mpr ?_
    have hvalue : e.1 = name → e.2 = v := by
      rintro rfl
      exact Option.some.inj ((Entries.get?_of_mem d he).symm.trans hget)
    constructor
    · exact fun hne hgoes => hne (by simpa using hgoes.1)
    · exact fun hstays heq => hstays ⟨by simp [heq], by rw [hvalue heq, hrange]⟩
  next hnone =>
    have hentries := (declared?_eq_none_iff d).mp (by simpa using hnone)
    refine (List.filter_eq_self.mpr fun e he => ?_).symm
    rw [decide_eq_true_eq]
    rintro ⟨hname, hrange⟩
    rw [hentries e he (by simpa using hname)] at hrange
    cases hrange

/-- **Names in any number take the entries that go.** -/
theorem dropAll_eq_filter (d : ps.Distinct) (names : List String) :
    dropAll ps names = ps.filter fun e => ¬Goes names e := by
  induction names generalizing ps with
  | nil => exact (List.filter_eq_self.mpr fun e _ => by simp [Goes]).symm
  | cons name names ih =>
      have d' : (drop ps name).Distinct := by
        unfold drop
        split
        · exact d.erase name
        · exact d
      show dropAll (drop ps name) names = _
      rw [ih d', drop_eq_filter d, List.filter_filter]
      refine List.filter_congr fun e _ => ?_
      rw [← Bool.decide_and, decide_eq_decide]
      unfold Goes
      rw [List.mem_singleton, List.mem_cons]
      tauto

/-! ### The manifest -/

/-- Of members whose keys stand once, the one with the key is changed. -/
theorem updateMember_eq_map (d : members.Distinct) (k : String) (f : Value → Value) :
    (Value.object members).updateMember k f =
      .object (members.map fun m => (m.1, if m.1 = k then f m.2 else m.2)) := by
  cases hk : members.get? k with
  | none =>
      rw [Value.updateMember_none hk]
      have hsame : ∀ m ∈ members, (m.1, if m.1 = k then f m.2 else m.2) = m := by
        intro m hm
        rw [if_neg]
        rintro rfl
        exact Entries.get?_eq_none_iff.mp hk (List.mem_map_of_mem hm)
      rw [List.map_congr_left hsame, List.map_id']
  | some v =>
      have hmem : k ∈ Entries.keys members := Entries.mem_keys_iff.mpr (by simp [hk])
      rw [Value.updateMember_object hk, Entries.put_eq_map d hmem]
      refine congrArg Value.object (List.map_congr_left fun m hm => ?_)
      split
      next hmk =>
        subst hmk
        rw [Option.some.inj (hk.symm.trans (Entries.get?_of_mem d hm))]
      next => rfl

/-- In a section of a manifest that was read the names take the entries that go. -/
theorem dropSection_eq {P : Json.Number → Prop} {room : Nat} {v : Value} (h : v.Shaped P room)
    (names : List String) : dropSection names v = remainingIn names v := by
  cases v with
  | object ps =>
      obtain ⟨-, -, d, -⟩ := h.of_object
      exact congrArg Value.object (dropAll_eq_filter d names)
  | _ => rfl

/-- **Dropping packages leaves what remains without them.** -/
theorem removed_eq_remaining {P : Json.Number → Prop} {room : Nat} (h : manifest.Shaped P room)
    (runtime development : List String) :
    removed manifest runtime development = remaining runtime development manifest := by
  cases manifest with
  | object members =>
      obtain ⟨n, rfl, d, hmembers⟩ := h.of_object
      unfold removed remaining
      rw [dropFrom_eq, dropFrom_eq, updateMember_eq_map d, updateMember_eq_map (d.map _),
        List.map_map]
      refine congrArg Value.object (List.map_congr_left fun m hm => ?_)
      have hsection : ∀ names, dropSection names m.2 = remainingIn names m.2 :=
        dropSection_eq (hmembers m hm)
      simp only [Function.comp_apply]
      by_cases hruntime : m.1 = Section.runtime.key
      · have hdevelopment : m.1 ≠ Section.development.key := by rw [hruntime]; decide
        rw [if_neg hdevelopment, if_pos hruntime, if_pos hruntime, hsection]
      · rw [if_neg hruntime, if_neg hruntime, hsection]
  | _ => rfl

/-! ### What still goes -/

theorem packages_of_member? {s : Section} (h : manifest.member? s.key = some (.object ps)) :
    packages manifest s = ps := by
  unfold packages
  rw [h]
  rfl

theorem mem_packages_iff {s : Section} {e : String × Value} :
    e ∈ packages manifest s ↔ ∃ ps, manifest.member? s.key = some (.object ps) ∧ e ∈ ps := by
  constructor
  · intro he
    unfold packages at he
    cases hv : manifest.member? s.key with
    | none =>
        rw [hv] at he
        cases he
    | some v =>
        rw [hv] at he
        cases v with
        | object ps => exact ⟨ps, rfl, he⟩
        | _ => cases he
  · rintro ⟨ps, hps, he⟩
    rwa [packages_of_member? hps]

theorem distinct_packages {P : Json.Number → Prop} {room : Nat} (h : manifest.Shaped P (room + 2))
    (s : Section) : (packages manifest s).Distinct := by
  obtain ⟨-, -, d, -⟩ := (shaped_part h s).of_object
  rwa [part_ofManifest] at d

/-- Nothing goes if no section declares a package that is dropped from it. -/
theorem noneGoes_iff {P : Json.Number → Prop} {room : Nat} (h : manifest.Shaped P (room + 2)) :
    NoneGoes runtime development manifest ↔
      ∀ s, ∀ name ∈ listFor runtime development s, declared? (packages manifest s) name = none := by
  have hnone : ∀ s name, declared? (packages manifest s) name = none ↔
      ∀ e ∈ packages manifest s, e.1 = name → isRange e.2 = false :=
    fun s name => declared?_eq_none_iff (distinct_packages h s)
  constructor
  · intro hstays s name hname
    refine (hnone s name).mpr fun e he hen => ?_
    obtain ⟨ps, hps, hmem⟩ := mem_packages_iff.mp he
    by_contra hrange
    exact hstays s ps hps e hmem ⟨hen ▸ hname, by simpa using hrange⟩
  · intro hundeclared s ps hps e he hgoes
    have hrange := (hnone s e.1).mp (hundeclared s e.1 hgoes.1) e
      (mem_packages_iff.mpr ⟨ps, hps, he⟩) rfl
    rw [hgoes.2] at hrange
    cases hrange

theorem removed_of_none
    (h : ∀ s, ∀ name ∈ listFor runtime development s, declared? (packages manifest s) name = none) :
    removed manifest runtime development = manifest := by
  have hdrop : ∀ s, dropFrom manifest s (listFor runtime development s) = manifest := by
    intro s
    refine Value.updateMember_self fun v hv => ?_
    cases v with
    | object ps =>
        have hps : packages manifest s = ps := packages_of_member? hv
        exact congrArg Value.object (dropAll_of_none fun name hname => hps ▸ h s name hname)
    | _ => rfl
  show dropFrom (dropFrom manifest .runtime runtime) .development development = manifest
  rw [show dropFrom manifest .runtime runtime = manifest from hdrop .runtime]
  exact hdrop .development

theorem declared?_removed {s : Section} (h : name ∈ listFor runtime development s)
    (manifest : Value) :
    declared? (packages (removed manifest runtime development) s) name = none := by
  unfold removed
  rw [packages_dropFrom, packages_dropFrom]
  cases s with
  | runtime =>
      rw [if_neg (by decide), if_pos rfl]
      exact declared?_dropAll _ h
  | development =>
      rw [if_pos rfl]
      exact declared?_dropAll _ h

/-- **What was dropped stays dropped in every manifest of the outline.** -/
theorem removed_of_outline
    (h : manifest'.outline = (removed manifest runtime development).outline) :
    removed manifest' runtime development = manifest' := by
  refine removed_of_none fun s name hname => ?_
  rw [← declared?_outline, h, declared?_outline, declared?_removed hname]

variable {o o' : Overlay}

/-- **Exactly what is asked for is dropped from a manifest.**  The removal succeeds on whatever is
read as a manifest and changes no other file.  The manifest that is read next is that of before
without the entries that go, as far as numbers are read as they are printed, and in any case but
for its numbers.  Nothing is written if no entry goes, and the same names have nothing to drop
the second time. -/
theorem removeDependencies_exact (hread : o.readDocument path = .ok manifest)
    (runtime development : List String) :
    ∃ o' manifest', removeDependencies o runtime development = .ok o' ∧ o.Touches path o' ∧
      o'.readDocument path = .ok manifest' ∧
      manifest'.outline = (remaining runtime development manifest).outline ∧
      (NumbersReadBack o → manifest' = remaining runtime development manifest) ∧
      (o' = o ↔ NoneGoes runtime development manifest) ∧
      removeDependencies o' runtime development = .ok o' := by
  have hshaped := Overlay.shaped_of_readDocument hread
  have hremaining := removed_eq_remaining hshaped runtime development
  by_cases hsame : removed manifest runtime development = manifest
  · have hremove : removeDependencies o runtime development = .ok o := by
      unfold removeDependencies
      rw [hread]
      exact if_pos hsame
    have hleft : manifest = remaining runtime development manifest := hsame.symm.trans hremaining
    refine ⟨o, manifest, hremove, .refl o path, hread, congrArg Value.outline hleft,
      fun _ => hleft, ⟨fun _ => ?_, fun _ => rfl⟩, hremove⟩
    exact (noneGoes_iff hshaped).mpr fun s name hname => hsame ▸ declared?_removed hname manifest
  · obtain ⟨text, htext, -⟩ := Overlay.readDocument_ok hread
    obtain ⟨o', hwrite⟩ :=
      Overlay.exists_writeDocument htext (removed manifest runtime development)
    have hremove : removeDependencies o runtime development = .ok o' := by
      unfold removeDependencies
      rw [hread]
      exact (if_neg hsame).trans hwrite
    obtain ⟨manifest', hread', houtline⟩ := readDocument_removeDependencies hread hremove
    have hagain : removeDependencies o' runtime development = .ok o' := by
      unfold removeDependencies
      rw [hread']
      exact if_pos (removed_of_outline houtline)
    refine ⟨o', manifest', hremove, (Overlay.writeDocument_ok hwrite).touches, hread',
      hremaining ▸ houtline, fun hnumbers => ?_, ⟨?_, fun hstays => ?_⟩, hagain⟩
    · have hwritten := shaped_removed (hnumbers.holds hread).2.shaped runtime development
      have hM' := (Overlay.holds_writeDocument hwritten.readable hwrite).2
      rw [hM'.readDocument] at hread'
      exact (Except.ok.inj hread').symm.trans hremaining
    · rintro rfl
      cases hread.symm.trans hread'
      exact absurd (removed_of_outline houtline) hsame
    · exact absurd (removed_of_none ((noneGoes_iff hshaped).mp hstays)) hsame

/-- Names that come twice, are unknown or stand for no range, beside a section that is no object. -/
theorem removeDependencies_exact_mixed :
    let o : Overlay := .empty (.ofTexts [("package.json",
      "\x7b\"version\":1.5," ++
        "\"dependencies\":\x7b\"a\":\"1\",\"b\":\"\",\"c\":null,\"d\":\"2\"\x7d," ++
        "\"devDependencies\":[\"a\"],\"peerDependencies\":\x7b\"a\":\"1\"\x7d\x7d")])
    let manifest : Value := .object [
      ("version", .number (.float ⟨false, 6755399441055744, -52⟩)),
      ("dependencies", .object
        [("a", .string "1"), ("b", .string ""), ("c", .null), ("d", .string "2")]),
      ("devDependencies", .array [.string "a"]),
      ("peerDependencies", .object [("a", .string "1")])]
    let runtime := ["c", "a", "x", "b", "a"]
    let development := ["a"]
    o.readDocument path = .ok manifest ∧ NumbersReadBack o ∧
      ¬NoneGoes runtime development manifest ∧
      ∃ o', removeDependencies o runtime development = .ok o' ∧ o' ≠ o ∧
        o'.readDocument path = .ok (.object [
          ("version", .number (.float ⟨false, 6755399441055744, -52⟩)),
          ("dependencies", .object [("b", .string ""), ("c", .null), ("d", .string "2")]),
          ("devDependencies", .array [.string "a"]),
          ("peerDependencies", .object [("a", .string "1")])]) ∧
        removeDependencies o' runtime development = .ok o' := by
  intro o manifest runtime development
  have hread : o.readDocument path = .ok manifest := by decide +kernel
  have hnumbers : NumbersReadBack o := by decide +kernel
  have hgoes : ¬NoneGoes runtime development manifest := fun hnone =>
    hnone .runtime _ rfl ("a", .string "1") (by simp) (by decide)
  obtain ⟨o', manifest', hremove, -, hread', -, hexact, hidle, hagain⟩ :=
    removeDependencies_exact hread runtime development
  refine ⟨hread, hnumbers, hgoes, o', hremove, fun hsame => hgoes (hidle.mp hsame), ?_, hagain⟩
  rw [hread', hexact hnumbers]
  decide +kernel

end Upkeep.Manifest
