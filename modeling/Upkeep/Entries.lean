/-
Keyed entries in order.

An `Entries` is a list of pairs in which a key is meant to stand once.  Putting a key
that is already there replaces its value where it stands; a new key goes to the end.
Members of a JSON object, the records of an overlay, options and flags are all of this
kind, and what is reported about them is reported in this order.

The lemmas give each operation through two views: `get?`, which answers a key, and
`keys`, which is the order.
-/

namespace Upkeep

/-- Pairs of a key and a value, in the order in which the keys came. -/
abbrev Entries (κ : Type _) (υ : Type _) := List (κ × υ)

namespace Entries

variable {κ : Type _} {υ : Type _} [DecidableEq κ]

/-- The value of the first entry with the key. -/
def get? : Entries κ υ → κ → Option υ
  | [], _ => none
  | (l, w) :: es, k => if l = k then some w else get? es k

/-- Replaces the value of a key where it stands, or adds the entry at the end. -/
def put : Entries κ υ → κ → υ → Entries κ υ
  | [], k, v => [(k, v)]
  | (l, w) :: es, k, v => if l = k then (l, v) :: es else (l, w) :: put es k v

/-- Drops the key and keeps the rest in order. -/
def erase (es : Entries κ υ) (k : κ) : Entries κ υ := es.filter fun e => e.1 ≠ k

/-- The keys in order. -/
def keys (es : Entries κ υ) : List κ := es.map Prod.fst

/-- The key has an entry. -/
def has (es : Entries κ υ) (k : κ) : Bool := (get? es k).isSome

/-- Puts every pair in turn: a key keeps its first position and has its last value. -/
def putAll (es : Entries κ υ) (news : List (κ × υ)) : Entries κ υ :=
  news.foldl (fun acc e => put acc e.1 e.2) es

/-- No key stands twice. -/
def Distinct (es : Entries κ υ) : Prop := (keys es).Nodup

instance (es : Entries κ υ) : Decidable (Distinct es) := by unfold Distinct; infer_instance

/-! ### Through `get?` -/

@[simp] theorem get?_nil (k : κ) : get? ([] : Entries κ υ) k = none := rfl

theorem get?_put (es : Entries κ υ) (k : κ) (v : υ) (l : κ) :
    get? (put es k v) l = if k = l then some v else get? es l := by
  induction es with
  | nil => rfl
  | cons e es ih => obtain ⟨m, w⟩ := e; grind [put, get?]

@[simp] theorem get?_put_self (es : Entries κ υ) (k : κ) (v : υ) :
    get? (put es k v) k = some v := by simp [get?_put]

theorem get?_put_of_ne (es : Entries κ υ) {k l : κ} (v : υ) (h : k ≠ l) :
    get? (put es k v) l = get? es l := by simp [get?_put, h]

theorem get?_erase (es : Entries κ υ) (k l : κ) :
    get? (erase es k) l = if k = l then none else get? es l := by
  induction es with
  | nil => simp [erase]
  | cons e es ih =>
    obtain ⟨m, w⟩ := e
    grind [erase, get?]

theorem get?_eq_none_iff {es : Entries κ υ} {k : κ} : get? es k = none ↔ k ∉ keys es := by
  induction es with
  | nil => simp [keys]
  | cons e es ih => obtain ⟨m, w⟩ := e; grind [get?, keys]

theorem mem_keys_iff {es : Entries κ υ} {k : κ} : k ∈ keys es ↔ (get? es k).isSome := by
  have h : get? es k = none ↔ k ∉ keys es := get?_eq_none_iff
  cases hg : get? es k <;> simp_all

theorem mem_of_get? {es : Entries κ υ} {k : κ} {v : υ} (h : get? es k = some v) : (k, v) ∈ es := by
  induction es with
  | nil => simp at h
  | cons e es ih => obtain ⟨m, w⟩ := e; grind [get?]

theorem get?_of_mem {es : Entries κ υ} (d : Distinct es) {k : κ} {v : υ} (h : (k, v) ∈ es) :
    get? es k = some v := by
  induction es with
  | nil => simp at h
  | cons e es ih =>
    obtain ⟨m, w⟩ := e
    simp only [Distinct, keys, List.map_cons, List.nodup_cons] at d
    have : k ∈ es.map Prod.fst ∨ (k = m ∧ v = w) := by
      rcases List.mem_cons.1 h with h | h
      · exact .inr (by simpa using h)
      · exact .inl (List.mem_map.2 ⟨_, h, rfl⟩)
    grind [get?, Distinct, keys]

/-! ### Through `keys` -/

theorem keys_put_of_mem {es : Entries κ υ} {k : κ} (v : υ) (h : k ∈ keys es) :
    keys (put es k v) = keys es := by
  induction es with
  | nil => simp [keys] at h
  | cons e es ih => obtain ⟨m, w⟩ := e; grind [put, keys]

theorem keys_put_of_notMem {es : Entries κ υ} {k : κ} (v : υ) (h : k ∉ keys es) :
    keys (put es k v) = keys es ++ [k] := by
  induction es with
  | nil => rfl
  | cons e es ih => obtain ⟨m, w⟩ := e; grind [put, keys]

theorem keys_erase (es : Entries κ υ) (k : κ) : keys (erase es k) = (keys es).filter (· ≠ k) := by
  simp [keys, erase, List.filter_map, Function.comp_def]

theorem Distinct.put {es : Entries κ υ} (d : Distinct es) (k : κ) (v : υ) :
    Distinct (es.put k v) := by
  unfold Distinct at d ⊢
  by_cases h : k ∈ keys es
  · rwa [keys_put_of_mem v h]
  · rw [keys_put_of_notMem v h]
    exact List.nodup_append.2 ⟨d, by simp, by grind⟩

theorem Distinct.erase {es : Entries κ υ} (d : Distinct es) (k : κ) : Distinct (es.erase k) := by
  unfold Distinct at d ⊢
  rw [keys_erase]
  exact List.Pairwise.filter _ d

theorem Distinct.putAll {es : Entries κ υ} (d : Distinct es) (news : List (κ × υ)) :
    Distinct (es.putAll news) := by
  unfold Entries.putAll
  induction news generalizing es with
  | nil => exact d
  | cons e news ih => exact ih (d.put e.1 e.2)

theorem put_of_notMem {es : Entries κ υ} {k : κ} (v : υ) (h : k ∉ keys es) :
    put es k v = es ++ [(k, v)] := by
  induction es with
  | nil => rfl
  | cons e es ih => obtain ⟨m, w⟩ := e; grind [put, keys]

/-- Pairs with distinct keys are their own entries. -/
theorem putAll_nil_of_distinct {news : List (κ × υ)} (d : Distinct (news : Entries κ υ)) :
    putAll [] news = news := by
  suffices h : ∀ (pre news : List (κ × υ)), Distinct (pre ++ news : Entries κ υ) →
      putAll pre news = pre ++ news by simpa using h [] news (by simpa using d)
  intro pre news
  induction news generalizing pre with
  | nil => intro _; simp [putAll]
  | cons e news ih =>
    intro d
    have hk : e.1 ∉ keys pre := by
      unfold Distinct keys at d; unfold keys
      rw [List.map_append, List.nodup_append] at d
      intro hm
      exact d.2.2 _ hm _ (by simp) rfl
    have := ih (pre ++ [e]) (by simpa using d)
    simpa [putAll, put_of_notMem e.2 hk] using this

end Entries

end Upkeep
