/-
Documents that are read back as they were printed.

A document is `Readable` when its numbers read back, no key stands twice in an object and
no part lies too deep.  In either style, and with blanks behind, its text is then read as
the document it was printed from; the other way round, a document that was read is readable
as soon as its numbers are, so that what holds a file once can hold it again after an edit.

Both directions go over the document: the rules of the reader say what a text is in terms
of its parts, and the depth that is allowed falls by one for each array and each object.
-/
import Upkeep.Proofs.Json.Printed
import Upkeep.Proofs.Json.Shape

namespace Upkeep.Json

namespace Value

mutual

/-- The document as it is written. -/
def tree : Value → Tree
  | .null => .null
  | .bool b => .bool b
  | .number n => .number (some n)
  | .string s => .string (some s)
  | .array items => .array (itemTrees items)
  | .object members => .object (memberTrees members)

/-- The items of an array as they are written. -/
def itemTrees : List Value → List Tree
  | [] => []
  | v :: vs => tree v :: itemTrees vs

/-- The members of an object as they are written. -/
def memberTrees : List (String × Value) → List (Option String × Tree)
  | [] => []
  | (k, v) :: ms => (some k, tree v) :: memberTrees ms

end

@[simp] theorem tree_array (items : List Value) : (array items).tree = .array (itemTrees items) :=
  rfl

@[simp] theorem tree_object (members : List (String × Value)) :
    (object members).tree = .object (memberTrees members) := rfl

@[simp] theorem itemTrees_cons (v : Value) (vs : List Value) :
    itemTrees (v :: vs) = v.tree :: itemTrees vs := rfl

@[simp] theorem memberTrees_cons (k : String) (v : Value) (ms : List (String × Value)) :
    memberTrees ((k, v) :: ms) = (some k, v.tree) :: memberTrees ms := rfl

/-- The document is read back from its text, where so many levels are allowed. -/
inductive Readable : Nat → Value → Prop
  | null {room : Nat} : Readable room .null
  | bool {room : Nat} (b : Bool) : Readable room (.bool b)
  | number {room : Nat} {n : Number} (h : n.ReadsBack) : Readable room (.number n)
  | string {room : Nat} (s : String) : Readable room (.string s)
  | array {room : Nat} {items : List Value} (h : ∀ v ∈ items, Readable room v) :
      Readable (room + 1) (.array items)
  | object {room : Nat} {members : List (String × Value)}
      (distinct : Entries.Distinct members) (h : ∀ m ∈ members, Readable room m.2) :
      Readable (room + 1) (.object members)

/-- A document is read back when its numbers are, and its shape allows it. -/
theorem readable_iff {room : Nat} {v : Value} :
    Readable room v ↔ Shaped Number.ReadsBack room v := by
  constructor <;> intro h
  · induction h with
    | null => exact .null
    | bool b => exact .bool b
    | number h => exact .number h
    | string s => exact .string s
    | array h ih => exact .array ih
    | object distinct h ih => exact .object distinct ih
  · induction h with
    | null => exact .null
    | bool b => exact .bool b
    | number h => exact .number h
    | string s => exact .string s
    | array h ih => exact .array ih
    | object distinct h ih => exact .object distinct ih

theorem Readable.shaped {room : Nat} {v : Value} (h : Readable room v) :
    Shaped Number.ReadsBack room v := readable_iff.mp h

theorem Shaped.readable {room : Nat} {v : Value} (h : Shaped Number.ReadsBack room v) :
    Readable room v := readable_iff.mpr h

/-! ### From the document to what is written -/

theorem itemValues?_itemTrees {items : List Value} (h : ∀ v ∈ items, v.tree.value? = some v) :
    Tree.itemValues? (itemTrees items) = some items := by
  induction items with
  | nil => rfl
  | cons v items ih =>
      unfold itemTrees Tree.itemValues?
      rw [h v (by simp), ih fun w hw => h w (by simp [hw])]

theorem memberValues?_memberTrees {members : List (String × Value)}
    (h : ∀ m ∈ members, m.2.tree.value? = some m.2) :
    Tree.memberValues? (memberTrees members) = some members := by
  induction members with
  | nil => rfl
  | cons m members ih =>
      obtain ⟨k, v⟩ := m
      unfold memberTrees Tree.memberValues?
      rw [h (k, v) (by simp), ih fun w hw => h w (by simp [hw])]

/-- What is written for a readable document means that document. -/
theorem Readable.value?_tree {room : Nat} {v : Value} (h : Readable room v) :
    v.tree.value? = some v := by
  induction h with
  | null => rfl
  | bool b => rfl
  | number h => rfl
  | string s => rfl
  | array h ih =>
      unfold tree Tree.value?
      rw [itemValues?_itemTrees ih]
      rfl
  | object distinct h ih =>
      unfold tree Tree.value?
      rw [memberValues?_memberTrees ih, Option.map_some, Entries.putAll_nil_of_distinct distinct]

end Value

/-! ### From the printed text to what is written -/

namespace Value

variable {style : Style} {strict : Bool} {room : Nat}

/-- The document is read from its printed text, wherever that stands and if enough fuel is
left; this is what the induction over a document shows. -/
def Prints (style : Style) (strict : Bool) (room : Nat) (v : Value) : Prop :=
  ∀ depth fuel rest, 2 * (v.render style depth).length ≤ fuel → Literal.Ends rest →
    Reader.tree strict fuel room (v.render style depth ++ rest) = .ok (v.tree, rest)

theorem itemTrees_eq (items : List Value) : itemTrees items = items.map tree := by
  induction items with
  | nil => rfl
  | cons v items ih => rw [itemTrees_cons, ih, List.map_cons]

theorem memberTrees_eq (members : List (String × Value)) :
    memberTrees members = members.map fun m => (some m.1, m.2.tree) := by
  induction members with
  | nil => rfl
  | cons m members ih => rw [memberTrees_cons, ih, List.map_cons]

/-- **A readable document is read from what is printed for it**, wherever it stands. -/
theorem Readable.prints (hstyle : style.Blank) {n : Nat} {v : Value} (h : Readable n v)
    (hroom : n ≤ room) : Prints style strict room v := by
  induction h generalizing room with
  | null => exact PrintsAs.null
  | bool b => exact PrintsAs.bool b
  | number h => exact PrintsAs.number h
  | string s => exact PrintsAs.string s
  | array h ih =>
      show PrintsAs style strict room _ (.array (itemTrees _))
      rw [itemTrees_eq]
      exact .array hstyle (by omega) fun v hv => ih v hv (by omega)
  | object distinct h ih =>
      show PrintsAs style strict room _ (.object (memberTrees _))
      rw [memberTrees_eq]
      exact .object hstyle (by omega) fun m hm => ih m hm (by omega)

/-- A document in either style, with blanks behind it, is read as it was printed. -/
theorem Readable.document (hstyle : style.Blank) {v : Value} (h : Readable Reader.maxDepth v)
    {gap : List Char} (hgap : Reader.Blank gap) :
    Reader.document strict (v.render style 0 ++ gap) = .ok v.tree :=
  PrintsAs.document (h.prints hstyle (Nat.le_refl _)) hgap

/-- **What is printed for a readable document is read as that document.** -/
theorem Readable.read_pretty {v : Value} (h : Readable Reader.maxDepth v) {gap : String}
    (hgap : Reader.Blank gap.toList) : read (v.pretty ++ gap) = .ok v := by
  refine read_ok_iff.mpr ⟨v.tree, ?_, h.value?_tree⟩
  unfold pretty
  rw [String.toList_append, String.toList_ofList]
  exact h.document Style.blank_pretty hgap

end Value

/-! ### What was read -/

/-- The number is the value of a literal. -/
def Number.IsRead (n : Number) : Prop := ∃ l : Literal, l.number? = some n

namespace Tree

/-- The document meant, if there is one, keeps to the levels, and its numbers were read. -/
def Keeps (room : Nat) (t : Tree) : Prop :=
  ∀ v, t.value? = some v → v.Shaped Number.IsRead room

theorem mem_itemValues? {ts : List Tree} {vs : List Value} (h : itemValues? ts = some vs)
    {v : Value} (hv : v ∈ vs) : ∃ t ∈ ts, t.value? = some v := by
  induction ts generalizing vs with
  | nil =>
      cases h
      simp at hv
  | cons t ts ih =>
      unfold itemValues? at h
      split at h
      next w ws hw hws =>
        cases h
        rcases List.mem_cons.mp hv with rfl | hv
        · exact ⟨t, by simp, hw⟩
        · obtain ⟨t', ht', hvalue⟩ := ih hws hv
          exact ⟨t', by simp [ht'], hvalue⟩
      · simp at h

theorem mem_memberValues? {ms : List (Option String × Tree)} {vs : List (String × Value)}
    (h : memberValues? ms = some vs) {e : String × Value} (he : e ∈ vs) :
    ∃ m ∈ ms, m.2.value? = some e.2 := by
  induction ms generalizing vs with
  | nil =>
      cases h
      simp at he
  | cons m ms ih =>
      obtain ⟨k, t⟩ := m
      unfold memberValues? at h
      split at h
      next l w ws hw hws =>
        cases h
        rcases List.mem_cons.mp he with rfl | he
        · exact ⟨(some l, t), by simp, hw⟩
        · obtain ⟨m', hm', hvalue⟩ := ih hws he
          exact ⟨m', by simp [hm'], hvalue⟩
      · simp at h

/-- In an object that was read no key stands twice. -/
theorem distinct_of_value? {t : Tree} {members : Entries String Value}
    (h : t.value? = some (.object members)) : members.Distinct := by
  cases t with
  | object ms =>
      unfold value? at h
      obtain ⟨vs, -, hvs⟩ := Option.map_eq_some_iff.mp h
      cases hvs
      exact Entries.distinct_nil.putAll vs
  | _ => simp [value?] at h

/-- The members of an object that was read were read themselves. -/
theorem value?_of_mem {t : Tree} {members : Entries String Value}
    (h : t.value? = some (.object members)) {m : String × Value} (hm : m ∈ members) :
    ∃ u : Tree, u.value? = some m.2 := by
  cases t with
  | object ms =>
      unfold value? at h
      obtain ⟨vs, hvs, hmembers⟩ := Option.map_eq_some_iff.mp h
      cases hmembers
      rcases Entries.mem_putAll hm with hnil | hmem
      · simp at hnil
      obtain ⟨u, -, hu⟩ := mem_memberValues? hvs hmem
      exact ⟨u.2, hu⟩
  | _ => simp [value?] at h

theorem keeps_array {room : Nat} {ts : List Tree} (h : ∀ t ∈ ts, t.Keeps room) :
    (array ts).Keeps (room + 1) := by
  intro v hv
  unfold value? at hv
  obtain ⟨vs, hvs, rfl⟩ := Option.map_eq_some_iff.mp hv
  refine .array fun w hw => ?_
  obtain ⟨t, ht, hvalue⟩ := mem_itemValues? hvs hw
  exact h t ht w hvalue

theorem keeps_object {room : Nat} {ms : List (Option String × Tree)}
    (h : ∀ m ∈ ms, m.2.Keeps room) : (object ms).Keeps (room + 1) := by
  intro v hv
  unfold value? at hv
  obtain ⟨vs, hvs, rfl⟩ := Option.map_eq_some_iff.mp hv
  refine .object (Entries.distinct_nil.putAll vs) fun e he => ?_
  rcases Entries.mem_putAll he with hnil | hmem
  · simp at hnil
  obtain ⟨m, hm, hvalue⟩ := mem_memberValues? hvs hmem
  exact h m hm e.2 hvalue

end Tree

namespace Reader

/-- Whatever the reader takes with this much fuel keeps to the levels that are left. -/
structure Keeps (fuel : Nat) : Prop where
  tree : ∀ {room cs t rest}, tree true fuel room cs = .ok (t, rest) → t.Keeps room
  items : ∀ {room cs ts rest}, items true fuel room cs = .ok (ts, rest) →
    ∀ t ∈ ts, Tree.Keeps room t
  moreItems : ∀ {room cs ts rest}, moreItems true fuel room cs = .ok (ts, rest) →
    ∀ t ∈ ts, Tree.Keeps room t
  members : ∀ {room cs ms rest}, members true fuel room cs = .ok (ms, rest) →
    ∀ m ∈ ms, Tree.Keeps room m.2
  moreMembers : ∀ {room cs ms rest}, moreMembers true fuel room cs = .ok (ms, rest) →
    ∀ m ∈ ms, Tree.Keeps room m.2
  member : ∀ {room cs m rest}, member true fuel room cs = .ok (m, rest) → Tree.Keeps room m.2

theorem keeps_tree {fuel room : Nat} {cs rest : List Char} {t : Tree} (K : Keeps fuel)
    (h : tree true (fuel + 1) room cs = .ok (t, rest)) : t.Keeps room := by
  have hnumber : ∀ negative body, number true negative body = .ok (t, rest) → t.Keeps room := by
    intro negative body hbody v hv
    obtain ⟨l, -, rfl⟩ := number_ok hbody
    unfold Tree.value? at hv
    obtain ⟨n, hn, rfl⟩ := Option.map_eq_some_iff.mp hv
    exact .number ⟨l, hn⟩
  obtain ⟨c, r, -, rfl | ⟨b, rfl⟩ | ⟨-, h⟩ | ⟨-, h⟩ | ⟨s, rfl⟩ | ⟨ts, hroom, hitems, rfl⟩ |
    ⟨ms, hroom, hmembers, rfl⟩⟩ := tree_ok h
  · intro v hv
    cases hv
    exact .null
  · intro v hv
    cases hv
    exact .bool b
  · exact hnumber true r h
  · exact hnumber false (c :: r) h
  · intro v hv
    unfold Tree.value? at hv
    obtain ⟨s, -, rfl⟩ := Option.map_eq_some_iff.mp hv
    exact .string s
  · obtain ⟨room, rfl⟩ : ∃ n, room = n + 1 := ⟨room - 1, by simp at hroom; omega⟩
    exact Tree.keeps_array (K.items hitems)
  · obtain ⟨room, rfl⟩ : ∃ n, room = n + 1 := ⟨room - 1, by simp at hroom; omega⟩
    exact Tree.keeps_object (K.members hmembers)

theorem keeps (fuel : Nat) : Keeps fuel := by
  induction fuel with
  | zero =>
      constructor <;> intro room cs x rest h
      · simp [tree] at h
      · simp [items] at h
      · simp [moreItems] at h
      · simp [members] at h
      · simp [moreMembers] at h
      · simp [member] at h
  | succ fuel K =>
      have hmore : ∀ {room ts cs r rest t}, tree true fuel room cs = .ok (t, r) →
          moreItems true fuel room r = .ok (ts, rest) → ∀ u ∈ t :: ts, Tree.Keeps room u := by
        intro room ts cs r rest t htree hmore u hu
        rcases List.mem_cons.mp hu with rfl | hu
        · exact K.tree htree
        · exact K.moreItems hmore u hu
      have hmoreMembers : ∀ {room ms cs r rest m}, member true fuel room cs = .ok (m, r) →
          moreMembers true fuel room r = .ok (ms, rest) →
          ∀ u ∈ m :: ms, Tree.Keeps room u.2 := by
        intro room ms cs r rest m hmember hmore u hu
        rcases List.mem_cons.mp hu with rfl | hu
        · exact K.member hmember
        · exact K.moreMembers hmore u hu
      refine ⟨keeps_tree K, fun h => ?_, fun h => ?_, fun h => ?_, fun h => ?_, fun h => ?_⟩
      · rcases items_ok h with rfl | ⟨t, ts', cs', r, htree, hrest, rfl⟩
        · simp
        · exact hmore htree hrest
      · rcases moreItems_ok h with rfl | ⟨t, ts', cs', r, htree, hrest, rfl⟩
        · simp
        · exact hmore htree hrest
      · rcases members_ok h with rfl | ⟨m, ms', cs', r, hmember, hrest, rfl⟩
        · simp
        · exact hmoreMembers hmember hrest
      · rcases moreMembers_ok h with rfl | ⟨m, ms', cs', r, hmember, hrest, rfl⟩
        · simp
        · exact hmoreMembers hmember hrest
      · obtain ⟨cs', htree⟩ := member_ok h
        exact K.tree htree

end Reader

/-- The numbers of a document, if the text is one, read back. -/
def NumbersReadBack (text : String) : Prop :=
  ∀ v, read text = .ok v → ∀ n ∈ v.numbers, n.ReadsBack

instance (text : String) : Decidable (NumbersReadBack text) :=
  decidable_of_iff (∀ v ∈ (read text).toOption, ∀ n ∈ v.numbers, n.ReadsBack) <| by
    unfold NumbersReadBack
    cases read text <;> simp [Except.toOption]

/-- A document that was read has the shape that a reader asks for. -/
theorem shaped_of_read {text : String} {v : Value} (h : read text = .ok v) :
    v.Shaped Number.IsRead Reader.maxDepth := by
  obtain ⟨t, hdocument, hvalue⟩ := read_ok_iff.mp h
  obtain ⟨rest, htree, -⟩ := Reader.document_ok hdocument
  exact (Reader.keeps _).tree htree v hvalue

/-- **A document that was read can be read back, as soon as its numbers can.** -/
theorem readable_of_read {text : String} {v : Value} (hnumbers : NumbersReadBack text)
    (h : read text = .ok v) : v.Readable Reader.maxDepth :=
  ((shaped_of_read h).imp fun n hn _ => hnumbers v h n hn).readable

end Upkeep.Json
