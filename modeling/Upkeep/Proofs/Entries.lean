/-
More about keyed entries.

Putting a value that a key has already, or putting twice, changes nothing; changes under
different keys can trade places.  This is what makes an edit of a document harmless the
second time.
-/
import Mathlib.Data.List.Nodup
import Upkeep.Entries

namespace Upkeep.Entries

variable {κ : Type _} {υ : Type _}

theorem distinct_nil : Distinct ([] : Entries κ υ) := List.nodup_nil

/-- Keys that stood once stand once when the values are changed. -/
theorem Distinct.map {υ' : Type _} {es : Entries κ υ} (d : es.Distinct) (f : κ × υ → υ') :
    Distinct (es.map fun e => (e.1, f e)) := by
  unfold Distinct keys
  rw [List.map_map]
  exact d

variable [DecidableEq κ] {es : Entries κ υ} {k l : κ} {v w : υ}

/-! ### Members -/

theorem mem_put {e : κ × υ} (h : e ∈ es.put k v) : e = (k, v) ∨ e ∈ es := by
  induction es with
  | nil => exact .inl (List.mem_singleton.mp h)
  | cons e' es ih =>
      obtain ⟨m, u⟩ := e'
      unfold put at h
      split at h
      next hm =>
        rcases List.mem_cons.mp h with rfl | h
        · exact .inl (by rw [hm])
        · exact .inr (List.mem_cons_of_mem _ h)
      next =>
        rcases List.mem_cons.mp h with rfl | h
        · exact .inr List.mem_cons_self
        · exact (ih h).imp_right (List.mem_cons_of_mem _)

theorem mem_putAll {news : List (κ × υ)} {e : κ × υ} (h : e ∈ es.putAll news) :
    e ∈ es ∨ e ∈ news := by
  induction news generalizing es with
  | nil => exact .inl h
  | cons n news ih =>
      rcases ih h with h | h
      · rcases mem_put h with rfl | h
        · exact .inr List.mem_cons_self
        · exact .inl h
      · exact .inr (List.mem_cons_of_mem _ h)

theorem mem_erase {e : κ × υ} (h : e ∈ es.erase k) : e ∈ es := List.mem_of_mem_filter h

/-! ### Changes that change nothing -/

theorem get?_cons (m : κ) (u : υ) (es : Entries κ υ) (k : κ) :
    get? ((m, u) :: es) k = if m = k then some u else get? es k := rfl

theorem put_cons (m : κ) (u : υ) (es : Entries κ υ) (k : κ) (v : υ) :
    put ((m, u) :: es) k v = if m = k then (m, v) :: es else (m, u) :: put es k v := rfl

theorem erase_cons (m : κ) (u : υ) (es : Entries κ υ) (k : κ) :
    erase ((m, u) :: es) k = if m = k then erase es k else (m, u) :: erase es k := by
  unfold erase
  by_cases h : m = k
  · simp [h]
  · simp [h]

/-- Putting the value that the key has changes nothing. -/
theorem put_of_get? (h : es.get? k = some v) : es.put k v = es := by
  induction es with
  | nil => simp at h
  | cons e es ih =>
      obtain ⟨m, u⟩ := e
      unfold get? at h
      unfold put
      by_cases hm : m = k
      · rw [if_pos hm] at h ⊢
        cases h
        rfl
      · rw [if_neg hm] at h ⊢
        rw [ih h]

theorem put_put (es : Entries κ υ) (k : κ) (v w : υ) : (es.put k v).put k w = es.put k w := by
  induction es with
  | nil => simp [put]
  | cons e es ih =>
      obtain ⟨m, u⟩ := e
      by_cases hm : m = k
      · simp [put, hm]
      · simp [put, hm, ih]

theorem erase_erase (es : Entries κ υ) (k : κ) : (es.erase k).erase k = es.erase k := by
  unfold erase
  rw [List.filter_filter]
  simp

/-- Erasing one key and putting another can trade places. -/
theorem erase_put_of_ne (h : k ≠ l) (v : υ) : (es.put k v).erase l = (es.erase l).put k v := by
  induction es with
  | nil => simp [put, erase, h]
  | cons e es ih =>
      obtain ⟨m, u⟩ := e
      rw [put_cons, erase_cons]
      by_cases hk : m = k
      · subst hk
        rw [if_pos rfl, erase_cons, if_neg h, if_neg h, put_cons, if_pos rfl]
      rw [if_neg hk, erase_cons, ih]
      by_cases hl : m = l
      · rw [if_pos hl, if_pos hl]
      · rw [if_neg hl, if_neg hl, put_cons, if_neg hk]

/-- Entries that leave a key out do not show what is put under it. -/
theorem filter_put {p : κ → Bool} (h : p k = false) (es : Entries κ υ) (v : υ) :
    (es.put k v).filter (fun e => p e.1) = es.filter fun e => p e.1 := by
  induction es with
  | nil => simp [put, h]
  | cons e es ih =>
      obtain ⟨m, u⟩ := e
      rw [put_cons]
      by_cases hm : m = k
      · subst hm
        rw [if_pos rfl, List.filter_cons_of_neg (by simp [h]),
          List.filter_cons_of_neg (by simp [h])]
      · rw [if_neg hm, List.filter_cons, List.filter_cons, ih]

/-! ### Many values -/

theorem putAll_cons (es : Entries κ υ) (n : κ × υ) (news : List (κ × υ)) :
    es.putAll (n :: news) = (es.put n.1 n.2).putAll news := rfl

/-- Of values under distinct keys each one is found, and the others are those of before. -/
theorem get?_putAll {news : Entries κ υ} (d : news.Distinct) (es : Entries κ υ) (k : κ) :
    get? (es.putAll news) k = (news.get? k).or (es.get? k) := by
  induction news generalizing es with
  | nil => rfl
  | cons n news ih =>
      obtain ⟨m, u⟩ := n
      obtain ⟨hm, d⟩ : m ∉ keys news ∧ Distinct news := List.nodup_cons.mp d
      rw [putAll_cons, ih d, get?_put]
      by_cases hk : m = k
      · subst hk
        simp [get?, get?_eq_none_iff.mpr hm]
      · simp [get?, hk]

/-- A key that no new value is for has the value of before. -/
theorem get?_putAll_of_none {news : Entries κ υ} (h : news.get? k = none) (es : Entries κ υ) :
    get? (es.putAll news) k = es.get? k := by
  induction news generalizing es with
  | nil => rfl
  | cons n news ih =>
      obtain ⟨m, u⟩ := n
      unfold get? at h
      by_cases hk : m = k
      · simp [hk] at h
      · rw [if_neg hk] at h
        rw [putAll_cons, ih h, get?_put_of_ne _ _ hk]

/-- What holds of the values that are found holds of all of them, if no key stands twice. -/
theorem forall_mem_iff (d : es.Distinct) {P : κ → υ → Prop} :
    (∀ e ∈ es, P e.1 e.2) ↔ ∀ k v, es.get? k = some v → P k v := by
  constructor
  · intro h k v hk
    exact h (k, v) (mem_of_get? hk)
  · rintro h ⟨k, v⟩ he
    exact h k v (get?_of_mem d he)

/-- Values can be changed one by one, whatever the keys are. -/
theorem get?_map {υ' : Type _} (f : υ → υ') (es : Entries κ υ) (k : κ) :
    get? (es.map fun e => (e.1, f e.2)) k = (es.get? k).map f := by
  induction es with
  | nil => rfl
  | cons e es ih =>
      obtain ⟨m, u⟩ := e
      by_cases hk : m = k
      · simp [get?, hk]
      · simpa [get?, hk] using ih

theorem map_put {υ' : Type _} (f : υ → υ') (es : Entries κ υ) (k : κ) (v : υ) :
    (es.put k v).map (fun e => (e.1, f e.2)) =
      put (es.map fun e => (e.1, f e.2)) k (f v) := by
  induction es with
  | nil => rfl
  | cons e es ih =>
      obtain ⟨m, u⟩ := e
      by_cases hk : m = k
      · simp [put, hk]
      · simp [put, hk, ih]

theorem map_putAll {υ' : Type _} (f : υ → υ') (es : Entries κ υ) (news : List (κ × υ)) :
    (es.putAll news).map (fun e => (e.1, f e.2)) =
      putAll (es.map fun e => (e.1, f e.2)) (news.map fun e => (e.1, f e.2)) := by
  induction news generalizing es with
  | nil => rfl
  | cons n news ih => rw [putAll_cons, ih, map_put, List.map_cons, putAll_cons]

/-- Putting values that are all there already changes nothing. -/
theorem putAll_of_get? {news : List (κ × υ)} (h : ∀ n ∈ news, es.get? n.1 = some n.2) :
    es.putAll news = es := by
  induction news with
  | nil => rfl
  | cons n news ih =>
      rw [putAll_cons, put_of_get? (h n List.mem_cons_self)]
      exact ih fun m hm => h m (List.mem_cons_of_mem _ hm)

/-! ### Places -/

/-- Keys keep their places, and a new one comes last. -/
theorem keys_prefix_put (es : Entries κ υ) (k : κ) (v : υ) : es.keys <+: (es.put k v).keys := by
  by_cases h : k ∈ es.keys
  · exact ⟨[], (List.append_nil _).trans (keys_put_of_mem v h).symm⟩
  · rw [keys_put_of_notMem v h]
    exact List.prefix_append _ _

theorem keys_prefix_putAll (es : Entries κ υ) (news : List (κ × υ)) :
    es.keys <+: Entries.keys (es.putAll news) := by
  induction news generalizing es with
  | nil => exact List.prefix_rfl
  | cons n news ih => exact (es.keys_prefix_put n.1 n.2).trans (ih _)

/-- Entries with the same keys in the same places are told apart by their values alone. -/
theorem eq_of_keys {fs : Entries κ υ} (hkeys : fs.keys = es.keys) (d : es.Distinct)
    (hget : ∀ k, fs.get? k = es.get? k) : fs = es := by
  induction es generalizing fs with
  | nil => exact List.map_eq_nil_iff.mp hkeys
  | cons e es ih =>
      cases fs with
      | nil => cases hkeys
      | cons f fs =>
          obtain ⟨k, v⟩ := e
          obtain ⟨l, w⟩ := f
          obtain ⟨rfl, hrest⟩ : l = k ∧ keys fs = keys es := List.cons_eq_cons.mp hkeys
          obtain ⟨hnew, d⟩ : l ∉ keys es ∧ Distinct es := List.nodup_cons.mp d
          have hhead : w = v := by simpa [get?] using hget l
          refine congrArg₂ List.cons (by rw [hhead]) (ih hrest d fun k => ?_)
          by_cases hk : l = k
          · subst hk
            have hnew' : l ∉ keys fs := by rwa [hrest]
            rw [get?_eq_none_iff.mpr hnew, get?_eq_none_iff.mpr hnew']
          · simpa [get?, hk] using hget k

/-- Where keys can only have come behind, no new value means no change. -/
theorem eq_of_keys_prefix {fs : Entries κ υ} (hkeys : es.keys <+: fs.keys) (d : fs.Distinct)
    (hget : ∀ k, fs.get? k = es.get? k) : fs = es := by
  obtain ⟨later, hlater⟩ := hkeys
  have d' : (es.keys ++ later).Nodup := hlater ▸ d
  have hnone : later = [] := by
    refine List.eq_nil_iff_forall_not_mem.mpr fun k hk => ?_
    have hfound : k ∈ es.keys := by
      rw [mem_keys_iff, ← hget, ← mem_keys_iff, ← hlater]
      exact List.mem_append_right _ hk
    exact (List.nodup_append.mp d').2.2 k hfound k hk rfl
  rw [hnone, List.append_nil] at hlater d'
  exact eq_of_keys hlater.symm d' hget

/-! ### Where a change shows -/

/-- A key that is there splits the entries at its first one, which is the one that is
replaced. -/
theorem exists_append_of_get? (h : es.get? k = some v) :
    ∃ front back, es = front ++ (k, v) :: back ∧ k ∉ keys front ∧
      ∀ w, es.put k w = front ++ (k, w) :: back := by
  induction es with
  | nil => cases h
  | cons e es ih =>
      obtain ⟨l, u⟩ := e
      by_cases hl : l = k
      · subst hl
        have hu : u = v := by simpa [get?] using h
        subst hu
        exact ⟨[], es, rfl, by simp [keys], fun w => by simp [put]⟩
      · obtain ⟨front, back, rfl, hfront, hput⟩ := ih (by simpa [get?, hl] using h)
        refine ⟨(l, u) :: front, back, rfl, ?_, fun w => ?_⟩
        · simpa [keys, Ne.symm hl] using hfront
        · rw [put_cons, if_neg hl, hput, List.cons_append]

theorem put_eq_map (d : Distinct es) (h : k ∈ keys es) (v : υ) :
    es.put k v = es.map fun e => if e.1 = k then (k, v) else e := by
  induction es with
  | nil => simp [keys] at h
  | cons e es ih =>
      obtain ⟨l, u⟩ := e
      obtain ⟨hl, d⟩ : l ∉ keys es ∧ Distinct es := List.nodup_cons.mp d
      rw [put_cons, List.map_cons]
      by_cases hlk : l = k
      · subst hlk
        have hrest : es.map (fun e => if e.1 = l then (l, v) else e) = es.map id := by
          refine List.map_congr_left fun e he => if_neg fun hel => hl ?_
          exact hel ▸ List.mem_map_of_mem he
        rw [if_pos rfl, if_pos rfl, hrest, List.map_id]
      · have hk : k ∈ keys es := by simpa [keys, Ne.symm hlk] using h
        rw [if_neg hlk, if_neg hlk, ih d hk]

theorem erase_of_notMem (h : k ∉ keys es) : es.erase k = es :=
  List.filter_eq_self.mpr fun e he => by
    simpa using fun hek : e.1 = k => h (hek ▸ List.mem_map_of_mem he)

/-- A new key that is erased again leaves nothing behind. -/
theorem erase_put_of_notMem (h : k ∉ keys es) (v : υ) : (es.put k v).erase k = es := by
  have hothers := erase_of_notMem h
  unfold erase at hothers ⊢
  rw [put_of_notMem v h, List.filter_append, hothers]
  simp

/-! ### Sorting -/

/-- Entries in another order have the same values, if no key stands twice. -/
theorem get?_perm {fs : Entries κ υ} (hperm : fs.Perm es) (d : es.Distinct) (k : κ) :
    fs.get? k = es.get? k := by
  have d' : fs.Distinct := (hperm.map Prod.fst).nodup_iff.mpr d
  cases h : es.get? k with
  | some v => exact get?_of_mem d' (hperm.mem_iff.mpr (mem_of_get? h))
  | none =>
      rw [get?_eq_none_iff] at h ⊢
      exact fun hk => h ((hperm.map Prod.fst).mem_iff.mp hk)

end Upkeep.Entries
