/-
What is printed is read piece by piece.

A printed document is read as some tree wherever it stands and whatever the depth it was
printed at, as long as its parts are: the marks and blanks of a style are what the rules of
the reader ask for, and a number ends where the style goes on.  Which tree that is, is left
to whoever knows the parts.
-/
import Upkeep.Proofs.Json.Rules

namespace Upkeep.Json

/-- The style leaves only blanks between the marks of a document. -/
structure Style.Blank (style : Style) : Prop where
  gap : ∀ depth, Reader.Blank (style.gap depth)
  colon : ∃ r, style.colon = ':' :: r ∧ Reader.Blank r

theorem Style.blank_pretty : Style.pretty.Blank := by
  refine ⟨fun depth c hc => ?_, [' '], rfl, by simp [Reader.Blank, Reader.isGap]⟩
  rcases List.mem_cons.mp hc with rfl | hc
  · rfl
  · rw [List.eq_of_mem_replicate hc]
    rfl

theorem Literal.ends_blank {c : Char} (h : Reader.isGap c = true) (cs : List Char) :
    Ends (c :: cs) := by
  have hc : c = ' ' ∨ c = '\t' ∨ c = '\n' ∨ c = '\r' := by
    simpa [Reader.isGap, or_assoc] using h
  refine ends_cons cs ?_
  rcases hc with rfl | rfl | rfl | rfl <;> decide

/-- A number ends at blanks and at a mark behind them. -/
theorem Literal.ends_gap {gap : List Char} (hgap : Reader.Blank gap) {c : Char} (cs : List Char)
    (hc : c.isDigit = false ∧ c ≠ '.' ∧ c ≠ 'e' ∧ c ≠ 'E') : Ends (gap ++ c :: cs) := by
  cases gap with
  | nil => exact ends_cons cs hc
  | cons d gap => exact ends_blank (hgap d (by simp)) _

namespace Value

variable {style : Style} {strict : Bool} {room depth fuel : Nat} {rest : List Char}

/-- The printed text of the document is read as the tree, wherever it stands and if enough
fuel is left. -/
def PrintsAs (style : Style) (strict : Bool) (room : Nat) (v : Value) (t : Tree) : Prop :=
  ∀ depth fuel rest, 2 * (v.render style depth).length ≤ fuel → Literal.Ends rest →
    Reader.tree strict fuel room (v.render style depth ++ rest) = .ok (t, rest)

/-- Blanks in front of a document are passed over. -/
theorem PrintsAs.tree_gap {v : Value} {t : Tree} (h : PrintsAs style strict room v t)
    {gap : List Char} (hgap : Reader.Blank gap)
    (hfuel : 2 * (v.render style depth).length + 1 ≤ fuel) (hrest : Literal.Ends rest) :
    Reader.tree strict fuel room (gap ++ (v.render style depth ++ rest)) = .ok (t, rest) := by
  obtain ⟨fuel, rfl⟩ : ∃ n, fuel = n + 1 := ⟨fuel - 1, by omega⟩
  rw [Reader.tree_gap hgap]
  exact h depth (fuel + 1) rest (by omega) hrest

/-! ### Items -/

/-- What stands behind an item of an array ends a number. -/
theorem ends_renderItems (hstyle : style.Blank) (depth : Nat) (items : List Value)
    (rest : List Char) :
    Literal.Ends (renderItems style (depth + 1) items ++ (style.gap depth ++ ']' :: rest)) := by
  cases items with
  | nil => exact Literal.ends_gap (hstyle.gap depth) rest (by decide)
  | cons v items => exact Literal.ends_cons _ (by decide)

variable {f : Value → Tree}

theorem moreItems_render (hstyle : style.Blank) {items : List Value}
    (h : ∀ v ∈ items, PrintsAs style strict room v (f v))
    (hfuel : 2 * (renderItems style (depth + 1) items).length + 1 ≤ fuel) :
    Reader.moreItems strict fuel room
      (renderItems style (depth + 1) items ++ (style.gap depth ++ ']' :: rest)) =
        .ok (items.map f, rest) := by
  obtain ⟨fuel, rfl⟩ : ∃ n, fuel = n + 1 := ⟨fuel - 1, by omega⟩
  induction items generalizing fuel with
  | nil => exact Reader.moreItems_close (hstyle.gap depth) rest
  | cons v items ih =>
      unfold renderItems at hfuel ⊢
      simp only [List.length_cons, List.length_append] at hfuel
      obtain ⟨fuel, rfl⟩ : ∃ n, fuel = n + 1 := ⟨fuel - 1, by omega⟩
      have htree := (h v (by simp)).tree_gap (hstyle.gap (depth + 1))
        (show 2 * (v.render style (depth + 1)).length + 1 ≤ fuel + 1 by omega)
        (ends_renderItems hstyle depth items rest)
      have hmore := ih (fun w hw => h w (by simp [hw])) fuel (by omega)
      simpa only [List.cons_append, List.append_assoc, List.map_cons] using
        Reader.moreItems_comma htree hmore

theorem items_render (hstyle : style.Blank) {v : Value} {items : List Value}
    (h : ∀ w ∈ v :: items, PrintsAs style strict room w (f w)) (depth fuel : Nat)
    (rest : List Char)
    (hfuel : 2 * (v.render style (depth + 1)).length +
      2 * (renderItems style (depth + 1) items).length + 2 ≤ fuel) :
    Reader.items strict fuel room (style.gap (depth + 1) ++ (v.render style (depth + 1) ++
      (renderItems style (depth + 1) items ++ (style.gap depth ++ ']' :: rest)))) =
        .ok ((v :: items).map f, rest) := by
  obtain ⟨fuel, rfl⟩ : ∃ n, fuel = n + 1 := ⟨fuel - 1, by omega⟩
  exact Reader.items_cons
    ((h v (by simp)).tree_gap (hstyle.gap (depth + 1)) (by omega)
      (ends_renderItems hstyle depth items rest))
    (moreItems_render hstyle (fun w hw => h w (by simp [hw])) (by omega))

/-! ### Members -/

theorem ends_renderMembers (hstyle : style.Blank) (depth : Nat)
    (members : List (String × Value)) (rest : List Char) :
    Literal.Ends
      (renderMembers style (depth + 1) members ++ (style.gap depth ++ '\x7d' :: rest)) := by
  cases members with
  | nil => exact Literal.ends_gap (hstyle.gap depth) rest (by decide)
  | cons m members => exact Literal.ends_cons _ (by decide)

theorem member_render (hstyle : style.Blank) {k : String} {v : Value} {t : Tree}
    (h : PrintsAs style strict room v t) (hfuel : 2 * (v.render style depth).length + 2 ≤ fuel)
    (hrest : Literal.Ends rest) :
    Reader.member strict fuel room
      (k.toList.flatMap escapeChar ++ '"' :: (style.colon ++ (v.render style depth ++ rest))) =
        .ok ((some k, t), rest) := by
  obtain ⟨fuel, rfl⟩ : ∃ n, fuel = n + 1 := ⟨fuel - 1, by omega⟩
  obtain ⟨gap, hcolon, hgap⟩ := hstyle.colon
  have htree : Reader.tree strict fuel room (gap ++ (v.render style depth ++ rest)) =
      .ok (t, rest) := h.tree_gap hgap (by omega) hrest
  refine Reader.member_colon ?_ htree
  rw [Reader.string_quoted, hcolon]
  rfl

theorem moreMembers_render (hstyle : style.Blank) {members : List (String × Value)}
    (h : ∀ m ∈ members, PrintsAs style strict room m.2 (f m.2))
    (hfuel : 2 * (renderMembers style (depth + 1) members).length + 1 ≤ fuel) :
    Reader.moreMembers strict fuel room
      (renderMembers style (depth + 1) members ++ (style.gap depth ++ '\x7d' :: rest)) =
        .ok (members.map fun m => (some m.1, f m.2), rest) := by
  obtain ⟨fuel, rfl⟩ : ∃ n, fuel = n + 1 := ⟨fuel - 1, by omega⟩
  induction members generalizing fuel with
  | nil => exact Reader.moreMembers_close (hstyle.gap depth) rest
  | cons m members ih =>
      obtain ⟨k, v⟩ := m
      unfold renderMembers quote at hfuel ⊢
      simp only [List.length_cons, List.length_append] at hfuel
      obtain ⟨fuel, rfl⟩ : ∃ n, fuel = n + 1 := ⟨fuel - 1, by omega⟩
      have hmember := member_render hstyle (k := k) (h (k, v) (by simp))
        (show 2 * (v.render style (depth + 1)).length + 2 ≤ fuel + 1 by omega)
        (ends_renderMembers hstyle depth members rest)
      have hmore := ih (fun w hw => h w (by simp [hw])) fuel (by omega)
      simpa only [List.cons_append, List.append_assoc, List.nil_append, List.map_cons] using
        Reader.moreMembers_comma (hstyle.gap (depth + 1)) hmember hmore

theorem members_render (hstyle : style.Blank) {k : String} {v : Value}
    {members : List (String × Value)}
    (h : ∀ m ∈ (k, v) :: members, PrintsAs style strict room m.2 (f m.2)) (depth fuel : Nat)
    (rest : List Char)
    (hfuel : 2 * (v.render style (depth + 1)).length +
      2 * (renderMembers style (depth + 1) members).length + 3 ≤ fuel) :
    Reader.members strict fuel room (style.gap (depth + 1) ++ '"' ::
      (k.toList.flatMap escapeChar ++ '"' :: (style.colon ++ (v.render style (depth + 1) ++
        (renderMembers style (depth + 1) members ++ (style.gap depth ++ '\x7d' :: rest)))))) =
          .ok (((k, v) :: members).map fun m => (some m.1, f m.2), rest) := by
  obtain ⟨fuel, rfl⟩ : ∃ n, fuel = n + 1 := ⟨fuel - 1, by omega⟩
  exact Reader.members_cons (hstyle.gap (depth + 1))
    (member_render hstyle (h (k, v) (by simp)) (by omega)
      (ends_renderMembers hstyle depth members rest))
    (moreMembers_render hstyle (fun w hw => h w (by simp [hw])) (by omega))

/-! ### Documents -/

theorem PrintsAs.null : PrintsAs style strict room .null .null := by
  intro depth fuel rest hfuel hrest
  obtain ⟨fuel, rfl⟩ : ∃ n, fuel = n + 1 := ⟨fuel - 1, by simp [render] at hfuel; omega⟩
  exact Reader.tree_null rest

theorem PrintsAs.bool (b : Bool) : PrintsAs style strict room (.bool b) (.bool b) := by
  intro depth fuel rest hfuel hrest
  cases b with
  | true =>
      obtain ⟨fuel, rfl⟩ : ∃ n, fuel = n + 1 := ⟨fuel - 1, by simp [render] at hfuel; omega⟩
      exact Reader.tree_true rest
  | false =>
      obtain ⟨fuel, rfl⟩ : ∃ n, fuel = n + 1 := ⟨fuel - 1, by simp [render] at hfuel; omega⟩
      exact Reader.tree_false rest

theorem PrintsAs.string (s : String) :
    PrintsAs style strict room (.string s) (.string (some s)) := by
  intro depth fuel rest hfuel hrest
  obtain ⟨fuel, rfl⟩ : ∃ n, fuel = n + 1 := ⟨fuel - 1, by simp [render, quote] at hfuel; omega⟩
  unfold render quote
  rw [List.cons_append, List.append_assoc]
  exact Reader.tree_string (Reader.string_quoted s rest)

theorem PrintsAs.number {n : Number} (h : n.ReadsBack) :
    PrintsAs style strict room (.number n) (.number (some n)) := by
  intro depth fuel rest hfuel hrest
  have hlength : 0 < n.text.length :=
    List.length_pos_of_ne_nil (Number.scans_of_readsBack h).text_ne_nil
  obtain ⟨fuel, rfl⟩ : ∃ n, fuel = n + 1 := ⟨fuel - 1, by simp only [render] at hfuel; omega⟩
  exact Reader.tree_number (Number.scans_of_readsBack h) hrest

theorem PrintsAs.array (hstyle : style.Blank) {items : List Value}
    (hroom : ¬(strict = true ∧ room = 0))
    (h : ∀ v ∈ items, PrintsAs style strict (room - 1) v (f v)) :
    PrintsAs style strict room (.array items) (.array (items.map f)) := by
  intro depth fuel rest hfuel hrest
  cases items with
  | nil =>
      have htwo : 2 * ['[', ']'].length ≤ fuel := hfuel
      obtain ⟨fuel, rfl⟩ : ∃ n, fuel = n + 2 := ⟨fuel - 2, by simp at htwo; omega⟩
      exact Reader.tree_array hroom (Reader.items_close Reader.blank_nil rest)
  | cons v items =>
      unfold render at hfuel ⊢
      simp only [List.length_cons, List.length_append] at hfuel
      obtain ⟨fuel, rfl⟩ : ∃ n, fuel = n + 1 := ⟨fuel - 1, by omega⟩
      have hitems := items_render hstyle h depth fuel rest (by omega)
      simpa only [List.cons_append, List.append_assoc, List.nil_append] using
        Reader.tree_array hroom hitems

theorem PrintsAs.object (hstyle : style.Blank) {members : List (String × Value)}
    (hroom : ¬(strict = true ∧ room = 0))
    (h : ∀ m ∈ members, PrintsAs style strict (room - 1) m.2 (f m.2)) :
    PrintsAs style strict room (.object members)
      (.object (members.map fun m => (some m.1, f m.2))) := by
  intro depth fuel rest hfuel hrest
  cases members with
  | nil =>
      have htwo : 2 * ['\x7b', '\x7d'].length ≤ fuel := hfuel
      obtain ⟨fuel, rfl⟩ : ∃ n, fuel = n + 2 := ⟨fuel - 2, by simp at htwo; omega⟩
      exact Reader.tree_object hroom (Reader.members_close Reader.blank_nil rest)
  | cons m members =>
      obtain ⟨k, v⟩ := m
      unfold render quote at hfuel ⊢
      simp only [List.length_cons, List.length_append] at hfuel
      obtain ⟨fuel, rfl⟩ : ∃ n, fuel = n + 1 := ⟨fuel - 1, by omega⟩
      have hmembers := members_render hstyle h depth fuel rest (by omega)
      simpa only [List.cons_append, List.append_assoc, List.nil_append] using
        Reader.tree_object hroom hmembers

/-- A document in either style, with blanks behind it, is read as a whole. -/
theorem PrintsAs.document {v : Value} {t : Tree} (h : PrintsAs style strict Reader.maxDepth v t)
    {gap : List Char} (hgap : Reader.Blank gap) :
    Reader.document strict (v.render style 0 ++ gap) = .ok t := by
  have hends : Literal.Ends gap := by
    cases gap with
    | nil => exact Literal.ends_nil
    | cons c gap => exact Literal.ends_blank (hgap c (by simp)) gap
  exact Reader.document_of_tree rfl
    (h 0 _ gap (by rw [List.length_append]; omega) hends) hgap

end Value

end Upkeep.Json
