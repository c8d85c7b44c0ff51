/-
What an overlay can become.

Besides the calls there are two more ways on: another content for a file that is pending anyway,
and carrying out what is pending, which changes the project below and keeps the records.
`ArisesFrom` is the closure under the three, refused calls and refused changes included.

Over a project in memory each of them keeps what a listing has to rely on (`Standing`).  No path
has two records, and an update is of a file that the project has, also after the updates were
carried out.  And what lies below the base lies there by ordinary names: it did so at first, if
the paths of the files are plain, and whatever is carried out is stored by ordinary names.  Only
an empty base leads to files that no path of the project names, those whose paths start at the
root of the file system or with a point.
-/
import Upkeep.Proofs.Overlay.Flush
import Upkeep.Proofs.Overlay.PartialFlush

namespace Upkeep

/-! ### Components below the base -/

/-- The component is a name that can stand for an entry of a directory. -/
def Component.IsName (c : Component) : Prop := ∃ n, c = .name n ∧ Ordinary n

theorem ProjectPath.isName_of_mem (q : ProjectPath) {c : Component} (h : c ∈ q.names.map .name) :
    c.IsName := by
  obtain ⟨n, hn, rfl⟩ := List.mem_map.mp h
  exact ⟨n, rfl, q.ordinary n hn⟩

namespace Path

/-- Only the empty path has no components. -/
theorem eq_empty_of_components (path : String) (h : components path = []) : path = "" := by
  rw [components_eq, List.append_eq_nil_iff] at h
  obtain ⟨hlead, hparts⟩ := h
  obtain ⟨part, parts, hsplit⟩ := List.exists_cons_of_ne_nil (List.splitOn_ne_nil '/' path.toList)
  have htext : ['/'].intercalate (part :: parts) = path.toList := by
    rw [← hsplit]
    exact List.intercalate_splitOn '/'
  obtain ⟨hslash, hpoint⟩ : path.toList.head? ≠ some '/' ∧ part ≠ ['.'] := by
    unfold lead at hlead
    rw [hsplit] at hlead
    refine ⟨fun hc => ?_, fun hc => ?_⟩
    · rw [if_pos hc] at hlead
      cases hlead
    · rw [hc, List.head?_cons, if_pos rfl] at hlead
      split at hlead <;> cases hlead
  have hpart : part = [] := by
    rw [hsplit] at hparts
    exact (Component.ofPart?_eq_none
      (List.filterMap_eq_nil_iff.mp hparts part List.mem_cons_self)).resolve_right hpoint
  -- An empty part at the beginning is all of the path, or stands in front of a slash.
  subst hpart
  cases parts with
  | nil => exact String.toList_injective (by simpa using htext.symm)
  | cons next rest =>
      refine absurd ?_ hslash
      rw [← htext]
      simp [List.intercalate]

variable {path : String} {c : Component}

/-- Without steps up and backslashes a path goes by ordinary names, but for its beginning. -/
theorem isName_of_mem (hup : .up ∉ components path) (hplain : '\\' ∉ path.toList)
    (hc : c ∈ components path) : c.IsName ∨ c = .root ∨ c = .here := by
  have hmem := hc
  rw [components_eq, List.mem_append] at hmem
  rcases hmem with hlead | hpart
  · refine .inr ?_
    rcases lead_cases path.toList with heq | heq | heq
    · rw [heq] at hlead
      exact .inl (List.mem_singleton.mp hlead)
    · rw [heq] at hlead
      exact .inr (List.mem_singleton.mp hlead)
    · rw [heq] at hlead
      cases hlead
  · obtain ⟨part, -, hpart⟩ := List.mem_filterMap.mp hpart
    rcases Component.eq_of_ofPart? hpart with rfl | ⟨n, rfl⟩
    · exact absurd hc hup
    · obtain ⟨hempty, hpoint, hpoints, hslash, hchars⟩ := ProjectPath.name_mem_components hc
      exact .inl ⟨n, rfl, hempty, hpoint, hpoints, hslash, fun hback => hplain (hchars _ hback)⟩

/-- Only the first component of a path can be its beginning. -/
theorem isName_of_mem_tail (hup : .up ∉ components path) (hplain : '\\' ∉ path.toList)
    (hc : c ∈ (components path).tail) : c.IsName := by
  refine (isName_of_mem hup hplain (List.mem_of_mem_tail hc)).resolve_right fun hbeginning => ?_
  have hpart : c ∈ ofParts (path.toList.splitOn '/') := by
    rw [components_eq] at hc
    rcases lead_cases path.toList with heq | heq | heq
    · rwa [heq] at hc
    · rwa [heq] at hc
    · rw [heq] at hc
      exact List.mem_of_mem_tail hc
  obtain ⟨part, -, hpart⟩ := List.mem_filterMap.mp hpart
  rcases Component.eq_of_ofPart? hpart with rfl | ⟨n, rfl⟩
  · simp at hbeginning
  · simp at hbeginning

end Path

/-! ### Projects whose files have plain paths -/

namespace Project

/-- The paths of the files hold no step up and no backslash. -/
def Plain (p : Project) : Prop :=
  ∀ key, p.store.leadsToFile key = true →
    ∃ path : String, Path.components path = key ∧ .up ∉ key ∧ '\\' ∉ path.toList

/-- What lies below the base lies there by ordinary names, but for what an empty base leads to:
there the way to a file may start at the root of the file system or with a point. -/
def Orderly (p : Project) : Prop :=
  ∀ c rest, p.store.leadsToFile (Path.components p.base ++ c :: rest) = true →
    (c.IsName ∨ p.base = "" ∧ (c = .root ∨ c = .here)) ∧ ∀ d ∈ rest, d.IsName

variable {p p' : Project}

theorem Plain.orderly (h : p.Plain) : p.Orderly := by
  intro c rest hfile
  obtain ⟨path, hkey, hup, hplain⟩ := h _ hfile
  rw [← hkey] at hup
  have htail : ∀ d ∈ (Path.components p.base ++ c :: rest).tail, d.IsName := by
    rw [← hkey]
    exact fun d => Path.isName_of_mem_tail hup hplain
  cases hbase : Path.components p.base with
  | nil =>
      rw [hbase] at hkey htail
      refine ⟨?_, htail⟩
      have hc : c ∈ Path.components path := by
        rw [hkey]
        exact List.mem_cons_self
      exact (Path.isName_of_mem hup hplain hc).imp_right
        (And.intro (Path.eq_empty_of_components _ hbase))
  | cons b bs =>
      rw [hbase] at htail
      obtain ⟨-, hbelow⟩ := List.forall_mem_append.mp htail
      obtain ⟨hc, hrest⟩ := List.forall_mem_cons.mp hbelow
      exact ⟨.inl hc, hrest⟩

/-- What is stored for a path of the project is stored by ordinary names. -/
theorem Orderly.sets {q : ProjectPath} {content : Option String} (h : p.Orderly)
    (hopen : p.IsOpen) (S : Sets p q content p') : p'.Orderly := by
  intro c rest hfile
  rw [S.base] at hfile ⊢
  by_cases hsame : Path.components (q.locate p.base) = Path.components p.base ++ c :: rest
  · rw [ProjectPath.components_locate] at hsame
    have hnames : ∀ d ∈ c :: rest, d.IsName := by
      rw [← List.append_cancel_left hsame]
      exact fun d => q.isName_of_mem
    obtain ⟨hc, hrest⟩ := List.forall_mem_cons.mp hnames
    exact ⟨.inl hc, hrest⟩
  · rw [S.isOpen.leadsToFile_eq, S.frame _ hsame, ← hopen.leadsToFile_eq] at hfile
    exact h c rest hfile

/-- The removal of a file that is not there leaves the project as it was. -/
theorem IsOpen.remove_missing (hopen : p.IsOpen) (q : ProjectPath)
    (hq : (p.content? q).isSome = false) : (p.remove q).1 = p := by
  rw [← hopen.store_isFile_eq] at hq
  obtain ⟨m, hm, h⟩ := hopen
  rw [hm] at hq
  have hfile : m.isFile (q.locate p.base) = false := hq
  obtain ⟨base, store⟩ := p
  subst hm
  simp only [Project.remove, Store.remove, Memory.remove, h.isClosed, hfile, Except.map,
    Store.attempt]
  rfl

/-- A change leaves a project in memory as it was, or sets the path to what it says. -/
theorem IsOpen.apply_cases (hopen : p.IsOpen) (q : ProjectPath) (r : Pending) :
    (p.apply q r).1 = p ∨ Sets p q r.content? (p.apply q r).1 := by
  have hwrite : ∀ content, Sets p q (some content) (p.write q content).1 := by
    intro content
    obtain ⟨p', hwritten, S⟩ := hopen.write q content
    rwa [hwritten]
  cases r with
  | add content => exact .inr (hwrite content)
  | update content => exact .inr (hwrite content)
  | delete =>
      show (p.remove q).1 = p ∨ Sets p q none (p.remove q).1
      cases hq : (p.content? q).isSome with
      | false => exact .inl (hopen.remove_missing q hq)
      | true =>
          obtain ⟨p', hremoved, S⟩ := hopen.remove q hq
          rw [hremoved]
          exact .inr S

end Project

/-! ### Overlays and what they can become -/

namespace Overlay

/-- The overlay has come about over the project by calls, by formatting, and by carrying out
what was pending, whatever was refused on the way. -/
inductive ArisesFrom (p : Project) : Overlay → Prop where
  | start : ArisesFrom p (.empty p)
  | call {o : Overlay} (op : Operation) (h : ArisesFrom p o) : ArisesFrom p (o.after op)
  | reword {o : Overlay} (q : ProjectPath) (content : String) (h : ArisesFrom p o) :
      ArisesFrom p (o.reword q content)
  | flush {o : Overlay} (h : ArisesFrom p o) : ArisesFrom p { o with project := o.flush.1 }

/-- Over a project in memory: no path has two records, an update is of a file that the project
has, and what lies below the base lies there by ordinary names. -/
structure Standing (o : Overlay) : Prop where
  isOpen : o.project.IsOpen
  orderly : o.project.Orderly
  distinct : o.records.Distinct
  updated : ∀ q content, o.record? q = some (.update content) →
    (o.project.content? q).isSome = true

namespace Standing

variable {o : Overlay}

theorem empty {p : Project} (hopen : p.IsOpen) (hplain : p.Plain) : Standing (.empty p) :=
  ⟨hopen, hplain.orderly, List.nodup_nil, fun q content h => by cases h⟩

theorem after (S : Standing o) (op : Operation) : Standing (o.after op) := by
  cases hop : o.perform op with
  | error e => rwa [after_of_error hop]
  | ok o' =>
      rw [after_of_ok hop]
      have hproject := perform_project hop
      refine ⟨hproject ▸ S.isOpen, hproject ▸ S.orderly, distinct_perform S.distinct hop,
        fun q content hrecord => ?_⟩
      rw [hproject]
      rcases record?_update_cases hop hrecord with
        hbefore | ⟨path, current, -, -, hcurrent, -, hnone | ⟨other, hother⟩⟩
      · exact S.updated q content hbefore
      · rw [contentAt?_of_none hnone] at hcurrent
        rw [hcurrent]
        rfl
      · exact S.updated q other hother

theorem reword (S : Standing o) (q : ProjectPath) (content : String) :
    Standing (o.reword q content) := by
  refine ⟨by rw [reword_project]; exact S.isOpen, by rw [reword_project]; exact S.orderly, ?_,
    fun r text hrecord => ?_⟩
  · unfold Overlay.reword
    split
    · exact S.distinct.put q _
    · exact S.distinct
  · rw [reword_project]
    rw [record?_reword] at hrecord
    split at hrecord
    next heq =>
      subst heq
      obtain ⟨other, hother, hreworded⟩ := Option.map_eq_some_iff.mp hrecord
      cases other with
      | add => cases hreworded
      | delete => cases hreworded
      | update before => exact S.updated q before hother
    next => exact S.updated r text hrecord

/-- **Carrying out keeps an overlay standing, however far it comes.** -/
theorem flush (S : Standing o) : Standing { o with project := o.flush.1 } := by
  have hall : Standing { o with project := (o.project.applyAll o.records).1 } := by
    refine Project.applyAll_keeps (P := fun p => Standing { o with project := p })
      (fun p q r hmem hp => ?_) S
    rcases hp.isOpen.apply_cases q r with heq | hsets
    · rwa [heq]
    · refine ⟨hsets.isOpen, hp.orderly.sets hp.isOpen hsets, S.distinct, fun q' content h => ?_⟩
      show ((p.apply q r).1.content? q').isSome = true
      rw [hsets.content?]
      split
      next heq =>
        -- The record that is carried out is the only one of its path.
        subst heq
        have hrecord : o.record? q = some r := Entries.get?_of_mem S.distinct hmem
        have hsame : r = .update content := Option.some.inj (hrecord.symm.trans h)
        rw [hsame]
        rfl
      next => exact hp.updated q' content h
  exact hall

end Standing

/-- **Every overlay that arises from a project in memory with plain files is standing.** -/
theorem ArisesFrom.standing {p : Project} {o : Overlay} (h : ArisesFrom p o) (hopen : p.IsOpen)
    (hplain : p.Plain) : Standing o := by
  induction h with
  | start => exact .empty hopen hplain
  | call op _ ih => exact ih.after op
  | reword q content _ ih => exact ih.reword q content
  | flush _ ih => exact ih.flush

end Overlay

end Upkeep
