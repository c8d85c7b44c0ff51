/-
Comment lines in front of a document.

A printed document has no line that starts as a comment: a line starts with a bracket, a
quote, a number or a word.  So the lines that were set aside and put in front of a document
are the comment lines of the result, and what is left of it is the document.

`plain` follows a text and knows whether only blanks stand before it on its line; it falls
over a comment mark there and nowhere else.
-/
import Upkeep.Registry.EslintDeprecation
import Upkeep.Proofs.Json.Outline
import Upkeep.Proofs.Text.Lines

namespace Upkeep.EslintDeprecation

open Json (Value)

/-- The character is no comment mark where a line starts. -/
def isStart (c : Char) : Bool := !Text.isBlank c && c ≠ '/' && c ≠ '*'

/-- No line starts with a comment mark; the line that the text starts in is told to be
blank so far, or not. -/
def plain : Bool → List Char → Bool
  | _, [] => true
  | blank, c :: cs =>
    if c = '\n' then plain true cs
    else if blank && Text.isBlank c then plain true cs
    else (!blank || isStart c) && plain false cs

theorem plain_cons (blank : Bool) (c : Char) (cs : List Char) :
    plain blank (c :: cs) =
      if c = '\n' then plain true cs
      else if blank && Text.isBlank c then plain true cs
      else (!blank || isStart c) && plain false cs := rfl

theorem isCommentLine_start {blanks : List Char} {c : Char} (cs : List Char)
    (hblanks : ∀ d ∈ blanks, Text.isBlank d = true) (hc : isStart c = true) :
    isCommentLine (blanks ++ c :: cs) = false := by
  obtain ⟨⟨hblank, hslash⟩, hstar⟩ : (Text.isBlank c = false ∧ c ≠ '/') ∧ c ≠ '*' := by
    simpa [isStart] using hc
  obtain ⟨ds, hds⟩ := Text.trim_start cs hblanks hblank
  unfold isCommentLine
  rw [hds]
  split
  next heq =>
    cases heq
    exact absurd rfl hslash
  next heq =>
    cases heq
    exact absurd rfl hstar
  next => rfl

theorem isCommentLine_blanks {blanks : List Char} (h : ∀ d ∈ blanks, Text.isBlank d = true) :
    isCommentLine blanks = false := by
  unfold isCommentLine
  rw [Text.trim_blanks h]

/-- What stands on the line so far: only blanks, or no comment mark in front. -/
def Before (blank : Bool) (pre : List Char) : Prop :=
  '\n' ∉ pre ∧
    match blank with
    | true => ∀ d ∈ pre, Text.isBlank d = true
    | false => ∃ blanks c cs, pre = blanks ++ c :: cs ∧
        (∀ d ∈ blanks, Text.isBlank d = true) ∧ isStart c = true

theorem Before.isCommentLine {blank : Bool} {pre : List Char} (h : Before blank pre) :
    isCommentLine pre = false := by
  obtain ⟨-, h⟩ := h
  cases blank with
  | true => exact isCommentLine_blanks h
  | false =>
      obtain ⟨blanks, c, cs, rfl, hblanks, hc⟩ := h
      exact isCommentLine_start cs hblanks hc

theorem before_nil : Before true [] := ⟨by simp, by simp⟩

/-- A character that ends no line, after what stands there so far. -/
theorem Before.snoc {blank : Bool} {pre cs : List Char} {c : Char} (h : Before blank pre)
    (hfeed : c ≠ '\n') (hplain : plain blank (c :: cs) = true) :
    ∃ blank', Before blank' (pre ++ [c]) ∧ plain blank' cs = true := by
  obtain ⟨hpre, h⟩ := h
  have hpre' : '\n' ∉ pre ++ [c] := by
    rw [List.mem_append, List.mem_singleton]
    exact not_or.mpr ⟨hpre, Ne.symm hfeed⟩
  rw [plain_cons, if_neg hfeed] at hplain
  cases blank with
  | true =>
      by_cases hblank : Text.isBlank c = true
      · rw [if_pos (by simpa using hblank)] at hplain
        refine ⟨true, ⟨hpre', fun d hd => ?_⟩, hplain⟩
        rcases List.mem_append.mp hd with hd | hd
        · exact h d hd
        · rw [List.mem_singleton.mp hd]
          exact hblank
      · rw [if_neg (by simpa using hblank)] at hplain
        obtain ⟨hstart, hrest⟩ : isStart c = true ∧ plain false cs = true := by
          simpa using hplain
        exact ⟨false, ⟨hpre', pre, c, [], rfl, h, hstart⟩, hrest⟩
  | false =>
      obtain ⟨blanks, d, ds, rfl, hblanks, hstart⟩ := h
      rw [if_neg (by simp)] at hplain
      refine ⟨false, ⟨hpre', blanks, d, ds ++ [c], by simp, hblanks, hstart⟩, ?_⟩
      simpa using hplain

/-- **A plain text has no comment lines.**  The induction carries what stands on the line
that has not ended yet. -/
theorem isCommentLine_of_plain {blank : Bool} {pre cs : List Char} (hpre : Before blank pre)
    (h : plain blank cs = true) :
    ∀ line ∈ (pre ++ cs).splitOn '\n', isCommentLine line = false := by
  induction cs generalizing blank pre with
  | nil =>
      intro line hline
      rw [List.append_nil, List.splitOn_eq_singleton hpre.1] at hline
      rw [List.mem_singleton.mp hline]
      exact hpre.isCommentLine
  | cons c cs ih =>
      by_cases hfeed : c = '\n'
      · subst hfeed
        intro line hline
        rw [List.splitOn_append_cons_self_of_not_mem hpre.1] at hline
        rcases List.mem_cons.mp hline with rfl | hline
        · exact hpre.isCommentLine
        · exact ih before_nil (by simpa [plain] using h) line hline
      · obtain ⟨blank', hbefore, hplain⟩ := hpre.snoc hfeed h
        have hrest := ih hbefore hplain
        rwa [List.append_assoc] at hrest

/-! ### Printed documents are plain -/

variable {blank : Bool} {cs : List Char}

/-- Within a line anything may follow. -/
theorem plain_append {ds : List Char} (h : '\n' ∉ ds) (cs : List Char) :
    plain false (ds ++ cs) = plain false cs := by
  induction ds with
  | nil => rfl
  | cons d ds ih =>
      obtain ⟨hd, hds⟩ := not_or.mp fun hc => h (List.mem_cons.mpr hc)
      rw [List.cons_append, plain_cons, if_neg (Ne.symm hd), if_neg (by simp), ih hds]
      rfl

/-- A word may stand where a line starts. -/
theorem plain_word {c : Char} {ds : List Char} (hc : isStart c = true) (h : '\n' ∉ ds)
    (cs : List Char) : plain blank (c :: (ds ++ cs)) = plain false cs := by
  have hblank : Text.isBlank c = false := by
    simp [isStart] at hc
    exact hc.1.1
  have hfeed : c ≠ '\n' := by
    rintro rfl
    exact absurd hblank (by decide)
  rw [plain_cons, if_neg hfeed, if_neg (by simp [hblank]), hc, plain_append h]
  simp

theorem plain_mark {c : Char} (hc : isStart c = true) (cs : List Char) :
    plain blank (c :: cs) = plain false cs := by
  have hword : plain blank (c :: ([] ++ cs)) = plain false cs := plain_word hc (by simp) cs
  rwa [List.nil_append] at hword

/-- The blanks in front of an item start a line. -/
theorem plain_gap (depth : Nat) (cs : List Char) :
    plain blank (Json.Style.pretty.gap depth ++ cs) = plain true cs := by
  have hindent : ∀ n, plain true (List.replicate n ' ' ++ cs) = plain true cs := by
    intro n
    induction n with
    | zero => rfl
    | succ n ih =>
        rw [List.replicate_succ, List.cons_append, plain_cons, if_neg (by decide),
          if_pos (by decide), ih]
  show plain blank ('\n' :: (List.replicate (2 * depth) ' ' ++ cs)) = _
  rw [plain_cons, if_pos rfl, hindent]

theorem feed_notMem_hexDigit : ∀ n, n < 16 → Json.hexDigit n ≠ '\n' := by decide

theorem feed_notMem_escapeChar (c : Char) : '\n' ∉ Json.escapeChar c := by
  by_cases hfeed : c = '\n'
  · subst hfeed
    decide
  by_cases hcontrol : c.toNat < 0x20
  · have hhigh := feed_notMem_hexDigit (c.toNat / 16) (by omega)
    have hlow := feed_notMem_hexDigit (c.toNat % 16) (by omega)
    unfold Json.escapeChar
    rw [if_neg hfeed, if_pos hcontrol]
    split_ifs <;> simp [Ne.symm hhigh, Ne.symm hlow]
  · unfold Json.escapeChar
    rw [if_neg hfeed, if_neg hcontrol]
    split_ifs <;> simp [Ne.symm hfeed]

theorem plain_quote (s : List Char) (cs : List Char) :
    plain blank (Json.quote s ++ cs) = plain false cs := by
  refine plain_word (by decide) ?_ cs
  rw [List.mem_append, List.mem_flatMap]
  rintro (⟨c, -, hc⟩ | hc)
  · exact feed_notMem_escapeChar c hc
  · simp at hc

theorem isStart_of_isDigit {c : Char} (h : c.isDigit = true) : isStart c = true := by
  obtain ⟨hlow, hhigh⟩ := Text.toNat_of_isDigit h
  have hblank : Text.isBlank c = false := by
    simp [Text.isBlank]
    omega
  have hslash : c ≠ '/' := Json.Reader.ne_of_isDigit h rfl
  have hstar : c ≠ '*' := Json.Reader.ne_of_isDigit h rfl
  simp [isStart, hblank, hslash, hstar]

theorem isStart_of_isNumeral {c : Char} (h : Json.isNumeral c = true) : isStart c = true := by
  have hcases : c.isDigit = true ∨ c = '.' ∨ c = 'e' ∨ c = '+' ∨ c = '-' := by
    simpa [Json.isNumeral, or_assoc] using h
  rcases hcases with hdigit | rfl | rfl | rfl | rfl
  · exact isStart_of_isDigit hdigit
  · decide
  · decide
  · decide
  · decide

theorem plain_number (n : Json.Number) (cs : List Char) :
    plain blank (n.text ++ cs) = plain false cs := by
  have hstart : ∀ c ∈ n.text, isStart c = true := fun c hc =>
    isStart_of_isNumeral (Json.Number.mem_text hc)
  obtain ⟨c, ds, hcs⟩ := List.exists_cons_of_ne_nil n.text_ne_nil
  rw [hcs] at hstart ⊢
  refine plain_word (hstart c (by simp)) (fun hfeed => ?_) cs
  exact absurd (hstart '\n' (by simp [hfeed])) (by decide)

theorem plain_items {depth : Nat} {items : List Value}
    (h : ∀ v ∈ items, ∀ blank depth cs, plain blank (v.render .pretty depth ++ cs) = plain false cs)
    (cs : List Char) :
    plain false (Value.renderItems .pretty depth items ++ cs) = plain false cs := by
  induction items with
  | nil => rfl
  | cons v items ih =>
      unfold Value.renderItems
      rw [List.cons_append, plain_mark (by decide), List.append_assoc, List.append_assoc,
        plain_gap, h v (by simp), ih fun w hw => h w (by simp [hw])]

theorem plain_members {depth : Nat} {members : List (String × Value)}
    (h : ∀ m ∈ members, ∀ blank depth cs,
      plain blank (m.2.render .pretty depth ++ cs) = plain false cs)
    (cs : List Char) :
    plain false (Value.renderMembers .pretty depth members ++ cs) = plain false cs := by
  induction members with
  | nil => rfl
  | cons m members ih =>
      obtain ⟨k, v⟩ := m
      unfold Value.renderMembers
      rw [List.cons_append, plain_mark (by decide)]
      simp only [List.append_assoc]
      rw [plain_gap, plain_quote, plain_append (by decide), h (k, v) (by simp),
        ih fun w hw => h w (by simp [hw])]

/-- **A printed document is plain.** -/
theorem plain_render (v : Value) :
    ∀ blank depth cs, plain blank (v.render .pretty depth ++ cs) = plain false cs := by
  fun_induction Value.outline v with
  | case1 => exact fun blank depth cs => plain_word (by decide) (by decide) cs
  | case2 b =>
      intro blank depth cs
      cases b with
      | true => exact plain_word (by decide) (by decide) cs
      | false => exact plain_word (by decide) (by decide) cs
  | case3 n => exact fun blank depth cs => plain_number n cs
  | case4 s => exact fun blank depth cs => plain_quote s.toList cs
  | case5 items ih =>
      intro blank depth cs
      cases items with
      | nil => exact plain_word (by decide) (by decide) cs
      | cons v items =>
          unfold Value.render
          rw [List.cons_append, plain_mark (by decide)]
          simp only [List.append_assoc]
          rw [plain_gap, ih v (by simp), plain_items fun w hw => ih w (by simp [hw])]
          rw [plain_gap]
          exact plain_word (by decide) (by decide) cs
  | case6 members ih =>
      intro blank depth cs
      cases members with
      | nil => exact plain_word (by decide) (by decide) cs
      | cons m members =>
          obtain ⟨k, v⟩ := m
          unfold Value.render
          rw [List.cons_append, plain_mark (by decide)]
          simp only [List.append_assoc]
          rw [plain_gap, plain_quote, plain_append (by decide), ih (k, v) (by simp),
            plain_members fun w hw => ih w (by simp [hw])]
          rw [plain_gap]
          exact plain_word (by decide) (by decide) cs

/-! ### Setting comment lines aside -/

variable {comments : List (List Char)} {v : Value}

theorem lines_pretty (v : Value) :
    ∀ line ∈ Text.lines v.pretty, isCommentLine line = false := by
  have hplain : plain true (v.render .pretty 0) = true := by
    have hrender := plain_render v true 0 []
    rwa [List.append_nil] at hrender
  intro line hline
  refine isCommentLine_of_plain before_nil hplain line ?_
  unfold Text.lines Value.pretty at hline
  rwa [String.toList_ofList] at hline

/-- Comment lines, each a line of its own. -/
def AllComments (comments : List (List Char)) : Prop :=
  ∀ line ∈ comments, isCommentLine line = true ∧ '\n' ∉ line

theorem allComments_commentLines (text : String) : AllComments (commentLines text) := by
  intro line hline
  obtain ⟨hmem, hcomment⟩ := List.mem_filter.mp hline
  exact ⟨hcomment, Text.notMem_of_mem_lines hmem⟩

theorem lines_withComments (h : AllComments comments) :
    Text.lines (withComments comments v) = comments ++ Text.lines v.pretty := by
  unfold withComments
  by_cases hnil : comments = []
  · rw [if_pos hnil, hnil]
    rfl
  · rw [if_neg hnil, Text.lines_append, Text.lines_unlines hnil fun line hline => (h line hline).2]

/-- **The comment lines are the ones that were put in front.** -/
theorem commentLines_withComments (h : AllComments comments) (v : Value) :
    commentLines (withComments comments v) = comments := by
  unfold commentLines
  rw [lines_withComments h, List.filter_append,
    List.filter_eq_self.mpr fun line hline => (h line hline).1,
    List.filter_eq_nil_iff.mpr fun line hline => by simp [lines_pretty v line hline],
    List.append_nil]

/-- **The rest is the document**, its last line ended. -/
theorem body_withComments (h : AllComments comments) (v : Value) :
    body (withComments comments v) = v.pretty ++ "\n" := by
  have hkept : (Text.lines (withComments comments v)).filter (fun line => !isCommentLine line) =
      Text.lines v.pretty := by
    rw [lines_withComments h, List.filter_append,
      List.filter_eq_nil_iff.mpr fun line hline => by simp [(h line hline).1],
      List.filter_eq_self.mpr fun line hline => by simp [lines_pretty v line hline],
      List.nil_append]
  unfold body
  simp only [hkept]
  rw [Text.flatMap_lines]
  apply String.toList_injective
  simp

theorem blank_feed : Json.Reader.Blank "\n".toList := by
  simp [Json.Reader.Blank, Json.Reader.isGap]

/-- What is read behind the comment lines is the document that was written there. -/
theorem read_body_withComments (h : AllComments comments)
    (hv : v.Readable Json.Reader.maxDepth) :
    Json.read (body (withComments comments v)) = .ok v := by
  rw [body_withComments h]
  exact hv.read_pretty blank_feed

/-- Whatever its numbers are, it is that document but for them. -/
theorem exists_read_body_withComments (h : AllComments comments)
    (hv : v.Shaped Json.Number.InRange Json.Reader.maxDepth) :
    ∃ w, Json.read (body (withComments comments v)) = .ok w ∧ w.outline = v.outline := by
  rw [body_withComments h]
  exact hv.exists_read_pretty blank_feed

end Upkeep.EslintDeprecation
