/-
Spellings of one path.

What a spelling means can be read piece by piece: behind a slash the components of the
rest follow those of what stands in front (`parts_append_slash`).  So a slash that is
turned or repeated says nothing new, and neither does a step into a name and out again.
`Respells` is such a change at any place of a spelling.  It never makes a relative
spelling an absolute one, which is what keeps the base of the project out of the matter;
the laws for one change then carry over to any number of them.
-/
import Mathlib.Logic.Relation
import Upkeep.Proofs.Location

namespace Upkeep

namespace ProjectPath

/-- A slash of either kind. -/
def IsSlash (c : Char) : Prop := c = '/' ∨ c = '\\'

instance (c : Char) : Decidable (IsSlash c) := by unfold IsSlash; infer_instance

/-- The spelling starts with no slash. -/
def IsRelative (spelling : List Char) : Prop := ∀ c, spelling.head? = some c → ¬IsSlash c

/-- What comes next begins a component: nothing stands in front of it, or a slash does. -/
def IsBoundary (front : List Char) : Prop := ∀ c, front.getLast? = some c → IsSlash c

instance (spelling : List Char) : Decidable (IsRelative spelling) :=
  decidable_of_iff (spelling.head?.all fun c => ¬IsSlash c)
    (by simp [IsRelative, Option.all_eq_true])

instance (front : List Char) : Decidable (IsBoundary front) :=
  decidable_of_iff (front.getLast?.all fun c => IsSlash c)
    (by simp [IsBoundary, Option.all_eq_true])

/-- The second spelling is the first one with one change that means nothing. -/
inductive Respells : List Char → List Char → Prop where
  /-- A slash is turned into one of the other kind. -/
  | turned (front rest : List Char) {c d : Char} (hc : IsSlash c) (hd : IsSlash d) :
      Respells (front ++ c :: rest) (front ++ d :: rest)
  /-- A slash is repeated. -/
  | repeated (front rest : List Char) {c d : Char} (hc : IsSlash c) (hd : IsSlash d) :
      Respells (front ++ c :: rest) (front ++ c :: d :: rest)
  /-- A point with a slash is put in where a component begins. -/
  | here (front rest : List Char) {c : Char} (hfront : IsBoundary front) (hc : IsSlash c) :
      Respells (front ++ rest) (front ++ '.' :: c :: rest)
  /-- A name and the way out of it are put in where a component begins. -/
  | detour (front rest : List Char) {x : String} {c d : Char} (hfront : IsBoundary front)
      (hx : Ordinary x) (hc : IsSlash c) (hd : IsSlash d) :
      Respells (front ++ rest) (front ++ x.toList ++ c :: '.' :: '.' :: d :: rest)

/-! ### What a spelling means, piece by piece -/

/-- The components of a spelling, those at its beginning apart. -/
def parts (spelling : List Char) : List Component :=
  Path.ofParts ((unify (String.ofList spelling)).splitOn '/')

@[simp] theorem parts_nil : parts [] = [] := by decide

@[simp] theorem parts_point : parts ['.'] = [] := by decide

@[simp] theorem parts_points : parts ['.', '.'] = [.up] := by decide

theorem parts_name {x : String} (h : Ordinary x) : parts x.toList = [.name x] := by
  have hsplit : x.toList.splitOn '/' = [x.toList] := List.splitOn_eq_singleton h.2.2.2.1
  unfold parts
  rw [String.ofList_toList, unify_of_notMem h.2.2.2.2, hsplit]
  unfold Path.ofParts
  rw [List.filterMap_cons_some (Component.ofPart?_ordinary h), List.filterMap_nil]

theorem unify_append_slash (front rest : List Char) {c : Char} (hc : IsSlash c) :
    unify (String.ofList (front ++ c :: rest)) =
      unify (String.ofList front) ++ '/' :: unify (String.ofList rest) := by
  rcases hc with rfl | rfl <;> simp [unify]

/-- Behind a slash the components of the rest follow. -/
theorem parts_append_slash (front rest : List Char) {c : Char} (hc : IsSlash c) :
    parts (front ++ c :: rest) = parts front ++ parts rest := by
  unfold parts
  rw [unify_append_slash front rest hc, List.splitOn_append_cons_self, Path.ofParts_append]

/-- Where a component begins, the components of the rest follow. -/
theorem parts_append {front : List Char} (h : IsBoundary front) (rest : List Char) :
    parts (front ++ rest) = parts front ++ parts rest := by
  rcases List.eq_nil_or_concat' front with rfl | ⟨before, c, rfl⟩
  · simp
  have hc : IsSlash c := h c (by simp)
  rw [List.append_assoc, List.singleton_append, parts_append_slash before rest hc,
    parts_append_slash before [] hc, parts_nil, List.append_nil]

/-- Nothing is done for the point that a spelling may begin with. -/
theorem follow_here (cs : List Component) : follow (.here :: cs) = follow cs := by
  unfold follow
  rw [List.foldl_cons, step]

theorem IsRelative.head?_unify {spelling : String} (h : IsRelative spelling.toList) :
    (unify spelling).head? ≠ some '/' := by
  unfold unify
  rw [List.head?_map]
  cases hs : spelling.toList.head? with
  | none => simp
  | some c =>
      have hc := h c hs
      unfold IsSlash at hc
      simp only [Option.map_some, ne_eq, Option.some.injEq]
      split <;> simp_all

/-- A relative spelling begins with its parts, or with a point. -/
theorem IsRelative.components_unify {spelling : String} (h : IsRelative spelling.toList) :
    Path.components (String.ofList (unify spelling)) = parts spelling.toList ∨
      Path.components (String.ofList (unify spelling)) = .here :: parts spelling.toList := by
  rw [Path.components_eq, String.toList_ofList]
  unfold Path.lead parts
  rw [if_neg h.head?_unify, String.ofList_toList]
  split
  · exact .inr rfl
  · exact .inl rfl

/-- A relative spelling names what its components lead to from the root of the project. -/
theorem names_resolve_relative (base : String) {spelling : String}
    (h : IsRelative spelling.toList) :
    (resolve base spelling).names = follow (parts spelling.toList) := by
  have hroot : .root ∉ parts spelling.toList := Path.root_notMem_ofParts _
  have hhead : (parts spelling.toList).head? ≠ some .root :=
    fun hc => hroot (List.mem_of_head? hc)
  rw [names_resolve]
  unfold relative
  simp only
  rcases h.components_unify with hcs | hcs
  · rw [hcs, if_neg hhead]
  · rw [hcs, if_neg (by simp), follow_here]

/-! ### One change, and many -/

theorem follow_detour (before after : List Component) (x : String) :
    follow (before ++ .name x :: .up :: after) = follow (before ++ after) := by
  have hback : step (step (follow before) (.name x)) .up = follow before := List.dropLast_concat
  unfold follow at hback ⊢
  rw [List.foldl_append, List.foldl_append, List.foldl_cons, List.foldl_cons, hback]

namespace Respells

variable {s t : List Char}

theorem isRelative (h : Respells s t) (hs : IsRelative s) : IsRelative t := by
  cases h with
  | turned front rest hc hd =>
      cases front with
      | nil => exact absurd hc (hs _ rfl)
      | cons => exact hs
  | repeated front rest hc hd =>
      cases front with
      | nil => exact absurd hc (hs _ rfl)
      | cons => exact hs
  | here front rest hfront hc =>
      cases front with
      | nil =>
          intro e he
          cases he
          decide
      | cons => exact hs
  | @detour front rest x c d hfront hx hc hd =>
      cases front with
      | cons => exact hs
      | nil =>
          obtain ⟨e, es, hchars⟩ := List.exists_cons_of_ne_nil
            (show x.toList ≠ [] from fun hnil => hx.1 (by simpa using hnil))
          intro e' he
          rw [hchars] at he
          cases he
          rintro (rfl | rfl)
          · exact hx.2.2.2.1 (by simp [hchars])
          · exact hx.2.2.2.2 (by simp [hchars])

theorem follow_parts (h : Respells s t) : follow (parts t) = follow (parts s) := by
  cases h with
  | turned front rest hc hd =>
      rw [parts_append_slash front rest hd, parts_append_slash front rest hc]
  | @repeated front rest c d hc hd =>
      rw [parts_append_slash front (d :: rest) hc, parts_append_slash front rest hc,
        ← List.nil_append (d :: rest), parts_append_slash [] rest hd, parts_nil, List.nil_append]
  | @here front rest c hfront hc =>
      have hpoint : parts ('.' :: c :: rest) = parts rest := by
        rw [← List.singleton_append, parts_append_slash ['.'] rest hc, parts_point,
          List.nil_append]
      rw [parts_append hfront, hpoint, parts_append hfront]
  | @detour front rest x c d hfront hx hc hd =>
      have hpoints : parts ('.' :: '.' :: d :: rest) = .up :: parts rest := by
        rw [show '.' :: '.' :: d :: rest = ['.', '.'] ++ d :: rest from rfl,
          parts_append_slash _ rest hd, parts_points, List.singleton_append]
      rw [List.append_assoc, parts_append hfront, parts_append_slash x.toList _ hc, hpoints,
        parts_name hx, List.singleton_append, follow_detour, parts_append hfront]

/-- Any number of such changes leaves a relative spelling one of the same path. -/
theorem resolve_eq (base : String) {s t : String} (hs : IsRelative s.toList)
    (h : Relation.ReflTransGen Respells s.toList t.toList) : resolve base t = resolve base s := by
  have hrun : ∀ cs, Relation.ReflTransGen Respells s.toList cs →
      IsRelative cs ∧ follow (parts cs) = follow (parts s.toList) := by
    intro cs hcs
    induction hcs with
    | refl => exact ⟨hs, rfl⟩
    | tail _ hstep ih => exact ⟨hstep.isRelative ih.1, hstep.follow_parts.trans ih.2⟩
  obtain ⟨ht, hfollow⟩ := hrun _ h
  refine ext_names ?_
  rw [names_resolve_relative base ht, names_resolve_relative base hs, hfollow]

end Respells

/-! ### Spellings that start at the base -/

/-- What goes on behind an absolute base is taken from the base, whether it climbs or not. -/
theorem resolve_behind_base {base : String} (habsolute : Path.isAbsolute base)
    (hplain : '\\' ∉ base.toList) {s : String} (hs : IsRelative s.toList) :
    resolve base (base ++ "/" ++ s) = resolve base s := by
  obtain ⟨rest, hbase⟩ : ∃ rest, base.toList = '/' :: rest :=
    List.head?_eq_some_iff.mp (by simpa [Path.isAbsolute] using habsolute)
  have hspelled : base ++ "/" ++ s = String.ofList (base.toList ++ '/' :: s.toList) :=
    String.toList_injective (by simp)
  have hunify : unify (base ++ "/" ++ s) = base.toList ++ '/' :: unify s := by
    rw [hspelled, unify_append_slash base.toList s.toList (.inl rfl), String.ofList_toList,
      String.ofList_toList, unify_of_notMem hplain]
  have hcomponents : Path.components (String.ofList (unify (base ++ "/" ++ s))) =
      Path.components base ++ parts s.toList := by
    rw [hunify, Path.components_append_slash (by simp [hbase]), String.ofList_toList]
    unfold parts
    rw [String.ofList_toList]
  have hroot : (Path.components base ++ parts s.toList).head? = some .root := by
    rw [Path.components_eq, hbase]
    rfl
  refine ext_names ?_
  rw [names_resolve_relative base hs, names_resolve]
  unfold relative Path.within?
  simp only
  rw [hcomponents, if_pos hroot, if_pos (by simp), List.drop_left, Option.getD_some]

/-- **A path has one written form, which every spelling of it comes to.**  The written form is
a spelling of its own path; a relative spelling may have its slashes turned or repeated and
steps that lead nowhere put in wherever a component begins, as often as one likes; and behind
an absolute base without backslashes it means what it means alone. -/
theorem resolve_canonical (base : String) :
    (∀ s, resolve base (resolve base s).text = resolve base s) ∧
    (∀ s t : String, IsRelative s.toList →
      Relation.ReflTransGen Respells s.toList t.toList → resolve base t = resolve base s) ∧
    (Path.isAbsolute base → '\\' ∉ base.toList → ∀ s : String, IsRelative s.toList →
      resolve base (base ++ "/" ++ s) = resolve base s) :=
  ⟨fun s => resolve_text base (resolve base s),
    fun _ _ hs h => Respells.resolve_eq base hs h,
    fun habsolute hplain _ hs => resolve_behind_base habsolute hplain hs⟩

/-- A spelling that climbs out of the project and is changed in every way. -/
theorem resolve_canonical_climbing :
    resolve "/p" (resolve "/p" "../etc/x").text = resolve "/p" "../etc/x" ∧
    resolve "/p" "./..\\q/..//etc/x" = resolve "/p" "../etc/x" ∧
    resolve "/p" ("/p" ++ "/" ++ "../etc/x") = resolve "/p" "../etc/x" ∧
    (resolve "/p" "../etc/x").text = "etc/x" := by
  have hrelative : IsRelative "../etc/x".toList := by decide
  have h1 : Respells "../etc/x".toList "./../etc/x".toList :=
    .here [] "../etc/x".toList (by decide) (.inl rfl)
  have h2 : Respells "./../etc/x".toList "./../q/../etc/x".toList :=
    .detour "./../".toList "etc/x".toList (x := "q") (by decide) (by decide) (.inl rfl) (.inl rfl)
  have h3 : Respells "./../q/../etc/x".toList "./..\\q/../etc/x".toList :=
    .turned "./..".toList "q/../etc/x".toList (.inl rfl) (.inr rfl)
  have h4 : Respells "./..\\q/../etc/x".toList "./..\\q/..//etc/x".toList :=
    .repeated "./..\\q/..".toList "etc/x".toList (.inl rfl) (.inl rfl)
  obtain ⟨hreread, hrespelled, hbehind⟩ := resolve_canonical "/p"
  refine ⟨hreread _, hrespelled _ _ hrelative ?_, hbehind (by decide) (by decide) _ hrelative, ?_⟩
  · exact (((Relation.ReflTransGen.single h1).tail h2).tail h3).tail h4
  · decide +kernel

end ProjectPath

end Upkeep
