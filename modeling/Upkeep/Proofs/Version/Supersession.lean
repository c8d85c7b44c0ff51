/-
What becomes of a range when others are asked for.

A range has a standing: it is a tag with a rank, it stands for a version, or it cannot be read.
Only tags are compared with tags and versions with versions.  In all other cases the range that
is asked for wins, so the range that is left after many is no maximum of them: a tag and a
version replace each other in turn.

Asking for the same ranges once more still changes nothing.  Either some range on the way won
for its standing alone, and then what was there before has no say in the outcome; or all of
them were compared, and the one that is left is at least each of them.
-/
import Mathlib.Data.List.Induction
import Upkeep.Proofs.Version.Order
import Upkeep.Version.Coercion

namespace Upkeep.Version

/-- What a range is compared by. -/
inductive Standing where
  | tag (rank : Nat)
  | version (v : Version)
  | unreadable

/-- The kinds of standing. -/
inductive Standing.Kind where
  | tag
  | version
  | unreadable
  deriving DecidableEq

namespace Standing

def kind : Standing → Kind
  | tag _ => .tag
  | version _ => .version
  | unreadable => .unreadable

/-- Both are tags, in order of rank, or both stand for versions, in their order. -/
def AtMost : Standing → Standing → Prop
  | tag a, tag b => a ≤ b
  | version v, version w => v ≤ w
  | _, _ => False

variable {a b c : Standing}

theorem AtMost.trans (hab : a.AtMost b) (hbc : b.AtMost c) : a.AtMost c := by
  cases a <;> cases b <;> cases c <;> try contradiction
  · exact Nat.le_trans hab hbc
  · exact Version.le_trans hab hbc

/-- What is compared is of one kind, and can be read. -/
theorem AtMost.kind_eq (h : a.AtMost b) : a.kind = b.kind ∧ a.kind ≠ .unreadable := by
  cases a <;> cases b <;> try contradiction
  · exact ⟨rfl, nofun⟩
  · exact ⟨rfl, nofun⟩

/-- Within a kind that can be read any two compare. -/
theorem atMost_total (hkind : a.kind = b.kind) (hread : a.kind ≠ .unreadable) :
    a.AtMost b ∨ b.AtMost a := by
  cases a <;> cases b <;> try contradiction
  · exact Nat.le_total _ _
  · exact Version.le_total _ _

theorem atMost_refl (hread : a.kind ≠ .unreadable) : a.AtMost a :=
  (atMost_total rfl hread).elim id id

end Standing

/-- The standing of a range. -/
def standing (range : String) : Standing :=
  match tagRank? range with
  | some rank => .tag rank
  | none => match coerce? range with
    | some v => .version v
    | none => .unreadable

/-- A range is not replaced only by one that it is compared with and is at least. -/
theorem supersedes_eq_false_iff {incoming existing : String} :
    supersedes incoming existing false = false ↔
      (standing incoming).AtMost (standing existing) := by
  unfold supersedes standing
  cases tagRank? incoming with
  | some a => cases tagRank? existing with
    | some b => simp [Standing.AtMost]
    | none => cases coerce? existing <;> simp [Standing.AtMost]
  | none => cases tagRank? existing with
    | some b => cases coerce? incoming <;> simp [Standing.AtMost]
    | none => cases coerce? incoming with
      | none => simp [Standing.AtMost]
      | some v => cases coerce? existing with
        | none => simp [Standing.AtMost]
        | some w => simp [Standing.AtMost, not_lt_iff]

/-- What a range becomes when another is asked for. -/
def raise (existing incoming : String) : String :=
  if supersedes incoming existing false then incoming else existing

/-- What a range becomes when others are asked for in order. -/
def raiseAll (existing : String) (ranges : List String) : String := ranges.foldl raise existing

variable {range existing incoming : String} {ranges : List String}

theorem raise_of_atMost (h : (standing incoming).AtMost (standing existing)) :
    raise existing incoming = existing := by
  unfold raise
  rw [if_neg (by simp [supersedes_eq_false_iff.mpr h])]

theorem raise_of_not_atMost (h : ¬(standing incoming).AtMost (standing existing)) :
    raise existing incoming = incoming := by
  unfold raise
  rw [← supersedes_eq_false_iff] at h
  rw [if_pos (by simpa using h)]

theorem raise_self (range : String) : raise range range = range := by
  unfold raise
  split <;> rfl

/-- The range that is left has the kind of the one asked for last. -/
theorem kind_raise (existing incoming : String) :
    (standing (raise existing incoming)).kind = (standing incoming).kind := by
  by_cases h : (standing incoming).AtMost (standing existing)
  · rw [raise_of_atMost h]
    exact h.kind_eq.1.symm
  · rw [raise_of_not_atMost h]

/-- A version gives way to no lower one. -/
theorem le_of_raise {v w : Version} (hv : standing existing = .version v)
    (hw : standing (raise existing incoming) = .version w) : v ≤ w := by
  by_cases h : (standing incoming).AtMost (standing existing)
  · rw [raise_of_atMost h, hv] at hw
    cases hw
    exact (Version.le_total v v).elim id id
  · rw [raise_of_not_atMost h] at hw
    rw [hv, hw] at h
    exact (Version.le_total v w).resolve_right h

theorem raiseAll_concat (existing : String) (ranges : List String) (range : String) :
    raiseAll existing (ranges ++ [range]) = raise (raiseAll existing ranges) range := by
  unfold raiseAll
  rw [List.foldl_append]
  rfl

/-- What is left is what was there, or one of those that were asked for. -/
theorem raiseAll_mem (existing : String) (ranges : List String) :
    raiseAll existing ranges = existing ∨ raiseAll existing ranges ∈ ranges := by
  induction ranges using List.reverseRecOn with
  | nil => exact .inl rfl
  | append_singleton ranges range ih =>
      rw [raiseAll_concat]
      unfold raise
      split
      · exact .inr (by simp)
      · exact ih.imp_right (List.mem_append_left _)

/-- Once something was asked for, the kind of what is left does not depend on what was there. -/
theorem kind_raiseAll (hne : ranges ≠ []) (u v : String) :
    (standing (raiseAll u ranges)).kind = (standing (raiseAll v ranges)).kind := by
  obtain ⟨front, last, rfl⟩ := (List.eq_nil_or_concat ranges).resolve_left hne
  rw [List.concat_eq_append, raiseAll_concat, raiseAll_concat, kind_raise, kind_raise]

/-- The outcome does not depend on what was there, or it is at least all that was asked for. -/
theorem raiseAll_cases (existing : String) (ranges : List String) :
    (∀ other, raiseAll other ranges = raiseAll existing ranges) ∨
      ∀ range ∈ ranges, (standing range).AtMost (standing (raiseAll existing ranges)) := by
  induction ranges using List.reverseRecOn with
  | nil => exact .inr (by simp)
  | append_singleton ranges last ih =>
      simp only [raiseAll_concat]
      rcases ih with hsame | hleast
      · exact .inl fun other => by rw [hsame other]
      by_cases hlast : (standing last).AtMost (standing (raiseAll existing ranges))
      · rw [raise_of_atMost hlast]
        exact .inr (List.forall_mem_append.mpr ⟨hleast, by simpa using hlast⟩)
      -- The last one wins.  It wins over anything, unless it has been compared.
      rw [raise_of_not_atMost hlast]
      by_cases hread : (standing last).kind = .unreadable
      · exact .inl fun other => raise_of_not_atMost fun h => h.kind_eq.2 hread
      have hself : (standing last).AtMost (standing last) := Standing.atMost_refl hread
      by_cases hkind : (standing (raiseAll existing ranges)).kind = (standing last).kind
      · have hbelow : (standing (raiseAll existing ranges)).AtMost (standing last) :=
          (Standing.atMost_total hkind (hkind ▸ hread)).resolve_right hlast
        exact .inr (List.forall_mem_append.mpr
          ⟨fun range hrange => (hleast range hrange).trans hbelow, by simpa using hself⟩)
      by_cases hne : ranges = []
      · exact .inr (by simpa [hne] using hself)
      · refine .inl fun other => raise_of_not_atMost fun h => hkind ?_
        rw [kind_raiseAll hne existing other]
        exact h.kind_eq.1.symm

/-- Ranges that were compared with what is left change nothing. -/
theorem raiseAll_of_atMost (h : ∀ range ∈ ranges, (standing range).AtMost (standing existing)) :
    raiseAll existing ranges = existing := by
  induction ranges with
  | nil => rfl
  | cons range ranges ih =>
      show raiseAll (raise existing range) ranges = existing
      rw [raise_of_atMost (h range (by simp))]
      exact ih fun other hother => h other (by simp [hother])

/-- **Asking for the same ranges again changes nothing.** -/
theorem raiseAll_raiseAll (existing : String) (ranges : List String) :
    raiseAll (raiseAll existing ranges) ranges = raiseAll existing ranges := by
  rcases raiseAll_cases existing ranges with hsame | hleast
  · exact hsame _
  · exact raiseAll_of_atMost hleast

example : raiseAll "1.0.0" ["next", "^0.5"] = "^0.5" := by decide +kernel

end Upkeep.Version
