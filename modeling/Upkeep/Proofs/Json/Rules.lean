/-
The rules of the reader.

What the reader does at a text is said here once for each kind of document, in terms of
what it does at the parts, so that nothing else has to open its loops.  Blanks in front of
a document, an item or a mark never matter.  A string in quotes is read back whatever its
characters are, and a number that reads back does so in front of any text that ends it.
-/
import Upkeep.Proofs.Json.Number

namespace Upkeep.Json

namespace Reader

variable {strict : Bool} {fuel room : Nat} {c : Char} {gap cs r rest rest' : List Char}
  {t : Tree} {ts : List Tree} {m : Option String × Tree} {ms : List (Option String × Tree)}

/-! ### Blanks -/

/-- Nothing but blanks. -/
def Blank (gap : List Char) : Prop := ∀ c ∈ gap, isGap c = true

theorem blank_nil : Blank [] := fun _ h => by simp at h

theorem skipGap_append (h : Blank gap) (cs : List Char) : skipGap (gap ++ cs) = skipGap cs :=
  List.dropWhile_append_of_pos h

theorem skipGap_cons (h : isGap c = false) (cs : List Char) : skipGap (c :: cs) = c :: cs := by
  simp [skipGap, List.dropWhile, h]

/-- The first character that is no blank, and all behind it, skip to themselves. -/
theorem skipGap_self (h : skipGap cs = c :: r) : skipGap (c :: r) = c :: r := by
  refine skipGap_cons ?_ r
  by_contra hc
  have hhead := List.head?_dropWhile_not isGap cs
  rw [show cs.dropWhile isGap = c :: r from h] at hhead
  simp [hc] at hhead

theorem tree_skipGap (h : skipGap cs = c :: r) :
    tree strict (fuel + 1) room (c :: r) = tree strict (fuel + 1) room cs := by
  unfold tree
  rw [h, skipGap_self h]

/-- Blanks in front of a document do not matter. -/
theorem tree_gap (h : Blank gap) (cs : List Char) :
    tree strict (fuel + 1) room (gap ++ cs) = tree strict (fuel + 1) room cs := by
  unfold tree
  rw [skipGap_append h]

/-- A document starts with a character that is no blank and closes nothing. -/
theorem tree_start (h : tree strict fuel room cs = .ok (t, rest)) :
    ∃ c r, skipGap cs = c :: r ∧ c ≠ ']' ∧ tree strict fuel room (c :: r) = .ok (t, rest) := by
  cases fuel with
  | zero => simp [tree] at h
  | succ fuel =>
      cases hs : skipGap cs with
      | nil => simp [tree, hs] at h
      | cons c r =>
          refine ⟨c, r, rfl, ?_, ?_⟩
          · rintro rfl
            simp [tree, hs] at h
          · rwa [tree_skipGap hs]

/-! ### Items -/

theorem items_close (h : Blank gap) (rest : List Char) :
    items strict (fuel + 1) room (gap ++ ']' :: rest) = .ok ([], rest) := by
  unfold items
  rw [skipGap_append h, skipGap_cons rfl]
  rfl

theorem items_cons (h : tree strict fuel room cs = .ok (t, rest))
    (hmore : moreItems strict fuel room rest = .ok (ts, rest')) :
    items strict (fuel + 1) room cs = .ok (t :: ts, rest') := by
  obtain ⟨c, r, hs, hclose, htree⟩ := tree_start h
  unfold items
  rw [hs]
  simp only
  rw [if_neg hclose, htree]
  simp only [bind, Except.bind, hmore]

theorem moreItems_close (h : Blank gap) (rest : List Char) :
    moreItems strict (fuel + 1) room (gap ++ ']' :: rest) = .ok ([], rest) := by
  unfold moreItems
  rw [skipGap_append h, skipGap_cons rfl]
  rfl

theorem moreItems_comma (h : tree strict fuel room cs = .ok (t, rest))
    (hmore : moreItems strict fuel room rest = .ok (ts, rest')) :
    moreItems strict (fuel + 1) room (',' :: cs) = .ok (t :: ts, rest') := by
  obtain ⟨c, r, hs, hclose, htree⟩ := tree_start h
  unfold moreItems
  rw [skipGap_cons rfl]
  simp only [Char.reduceEq, if_false, if_true, hs]
  rw [if_neg hclose, htree]
  simp only [bind, Except.bind, hmore]

/-! ### Members -/

theorem member_colon {k : Option String} (hkey : string strict cs = .ok (k, ':' :: r))
    (h : tree strict fuel room r = .ok (t, rest)) :
    member strict (fuel + 1) room cs = .ok ((k, t), rest) := by
  unfold member
  rw [hkey]
  simp only [bind, Except.bind]
  rw [skipGap_cons rfl]
  simp only [if_true, h]

theorem members_close (h : Blank gap) (rest : List Char) :
    members strict (fuel + 1) room (gap ++ '\x7d' :: rest) = .ok ([], rest) := by
  unfold members
  rw [skipGap_append h, skipGap_cons rfl]
  rfl

theorem members_cons (hgap : Blank gap) (h : member strict fuel room cs = .ok (m, rest))
    (hmore : moreMembers strict fuel room rest = .ok (ms, rest')) :
    members strict (fuel + 1) room (gap ++ '"' :: cs) = .ok (m :: ms, rest') := by
  unfold members
  rw [skipGap_append hgap, skipGap_cons rfl]
  simp only [Char.reduceEq, if_false, if_true]
  rw [h]
  simp only [bind, Except.bind, hmore]

theorem moreMembers_close (h : Blank gap) (rest : List Char) :
    moreMembers strict (fuel + 1) room (gap ++ '\x7d' :: rest) = .ok ([], rest) := by
  unfold moreMembers
  rw [skipGap_append h, skipGap_cons rfl]
  rfl

theorem moreMembers_comma (hgap : Blank gap) (h : member strict fuel room cs = .ok (m, rest))
    (hmore : moreMembers strict fuel room rest = .ok (ms, rest')) :
    moreMembers strict (fuel + 1) room (',' :: (gap ++ '"' :: cs)) = .ok (m :: ms, rest') := by
  unfold moreMembers
  have hquote : skipGap (gap ++ '"' :: cs) = '"' :: cs := by
    rw [skipGap_append hgap, skipGap_cons rfl]
  rw [skipGap_cons rfl]
  simp only [Char.reduceEq, if_false, if_true, hquote]
  rw [h]
  simp only [bind, Except.bind, hmore]

/-! ### Documents -/

theorem tree_array (hroom : ¬(strict = true ∧ room = 0))
    (h : items strict fuel (room - 1) r = .ok (ts, rest)) :
    tree strict (fuel + 1) room ('[' :: r) = .ok (.array ts, rest) := by
  unfold tree
  rw [skipGap_cons rfl]
  simp [hroom, h, bind, Except.bind, Char.isDigit]

theorem tree_object (hroom : ¬(strict = true ∧ room = 0))
    (h : members strict fuel (room - 1) r = .ok (ms, rest)) :
    tree strict (fuel + 1) room ('\x7b' :: r) = .ok (.object ms, rest) := by
  unfold tree
  rw [skipGap_cons rfl]
  simp [hroom, h, bind, Except.bind, Char.isDigit]

theorem tree_string {s : Option String} (h : string strict r = .ok (s, rest)) :
    tree strict (fuel + 1) room ('"' :: r) = .ok (.string s, rest) := by
  unfold tree
  rw [skipGap_cons rfl]
  simp [h, bind, Except.bind, Char.isDigit]

theorem word_append (ws : List Char) (t : Tree) (rest : List Char) :
    word ws t (ws ++ rest) = .ok (t, rest) := by
  induction ws with
  | nil => rfl
  | cons w ws ih => simpa [word] using ih

theorem tree_null (rest : List Char) :
    tree strict (fuel + 1) room (['n', 'u', 'l', 'l'] ++ rest) = .ok (.null, rest) := by
  unfold tree
  rw [List.cons_append, skipGap_cons rfl]
  exact word_append ['u', 'l', 'l'] .null rest

theorem tree_true (rest : List Char) :
    tree strict (fuel + 1) room (['t', 'r', 'u', 'e'] ++ rest) = .ok (.bool true, rest) := by
  unfold tree
  rw [List.cons_append, skipGap_cons rfl]
  exact word_append ['r', 'u', 'e'] (.bool true) rest

theorem tree_false (rest : List Char) :
    tree strict (fuel + 1) room (['f', 'a', 'l', 's', 'e'] ++ rest) = .ok (.bool false, rest) := by
  unfold tree
  rw [List.cons_append, skipGap_cons rfl]
  exact word_append ['a', 'l', 's', 'e'] (.bool false) rest

theorem word_ok {ws : List Char} {t t' : Tree} (h : word ws t cs = .ok (t', rest)) : t' = t := by
  induction ws generalizing cs with
  | nil =>
      cases h
      rfl
  | cons w ws ih =>
      cases cs with
      | nil => simp [word] at h
      | cons c cs =>
          unfold word at h
          by_cases hc : c = w
          · rw [if_pos hc] at h
            exact ih h
          · rw [if_neg hc] at h
            simp at h

/-! ### Strings -/

theorem hexValue?_hexDigit : ∀ n, n < 16 → hexValue? (hexDigit n) = some n := by decide

/-- A control character is read back from its number. -/
theorem escape_control {c : Char} (h : c.toNat < 0x20) (cs : List Char) :
    escape strict ('u' :: '0' :: '0' :: hexDigit (c.toNat / 16) :: hexDigit (c.toNat % 16) :: cs) =
      .ok (some c, cs) := by
  have hhigh := hexValue?_hexDigit (c.toNat / 16) (by omega)
  have hlow := hexValue?_hexDigit (c.toNat % 16) (by omega)
  have hzero : hexValue? '0' = some 0 := by decide
  have hfour : hexFour ('0' :: '0' :: hexDigit (c.toNat / 16) :: hexDigit (c.toNat % 16) :: cs) =
      .ok (c.toNat, cs) := by
    unfold hexFour hexFour?
    simp only [hzero, hhigh, hlow, Option.bind_eq_bind, Option.bind_some]
    rw [show 4096 * 0 + 256 * 0 + 16 * (c.toNat / 16) + c.toNat % 16 = c.toNat by omega]
  have hsingle : isTrailing c.toNat = false ∧ isLeading c.toNat = false := by
    simp [isTrailing, isLeading]
    omega
  have hnone : letterEscape? 'u' = none := by decide
  unfold escape
  simp only [hnone, if_true]
  unfold unicodeEscape
  simp only [hfour, bind, Except.bind, hsingle.1, hsingle.2]
  rw [Char.ofNat_toNat]
  rfl

/-- Each character is read back from how it is printed between quotes. -/
theorem characters_escapeChar (c : Char) (fuel : Nat) (cs : List Char) :
    characters strict (fuel + 1) (escapeChar c ++ cs) =
      characters strict fuel cs >>= fun (s, rest) => .ok (s.map (c :: ·), rest) := by
  have hletter : ∀ x y, letterEscape? x = some y → characters strict (fuel + 1) ('\\' :: x :: cs) =
      characters strict fuel cs >>= fun (s, rest) => .ok (s.map (y :: ·), rest) := by
    intro x y hxy
    simp [characters, escape, hxy, bind, Except.bind]
  by_cases hplain : c ≠ '"' ∧ c ≠ '\\' ∧ c ≠ '\n' ∧ c ≠ '\r' ∧ c ≠ '\t' ∧ c ≠ '\x08' ∧ c ≠ '\x0c'
  · obtain ⟨h1, h2, h3, h4, h5, h6, h7⟩ := hplain
    by_cases hcontrol : c.toNat < 0x20
    · simp [escapeChar, h1, h2, h3, h4, h5, h6, h7, hcontrol, characters, escape_control hcontrol,
        bind, Except.bind]
    · simp [escapeChar, h1, h2, h3, h4, h5, h6, h7, hcontrol, characters]
  · have hcases : c = '"' ∨ c = '\\' ∨ c = '\n' ∨ c = '\r' ∨ c = '\t' ∨ c = '\x08' ∨ c = '\x0c' := by
      by_contra hnone
      simp only [not_or] at hnone
      exact hplain hnone
    rcases hcases with rfl | rfl | rfl | rfl | rfl | rfl | rfl
    · exact hletter '"' '"' (by decide)
    · exact hletter '\\' '\\' (by decide)
    · exact hletter 'n' '\n' (by decide)
    · exact hletter 'r' '\r' (by decide)
    · exact hletter 't' '\t' (by decide)
    · exact hletter 'b' '\x08' (by decide)
    · exact hletter 'f' '\x0c' (by decide)

theorem characters_quoted (s rest : List Char) (h : s.length < fuel) :
    characters strict fuel (s.flatMap escapeChar ++ '"' :: rest) = .ok (some s, rest) := by
  induction s generalizing fuel with
  | nil =>
      cases fuel with
      | zero => simp at h
      | succ fuel => simp [characters]
  | cons c s ih =>
      cases fuel with
      | zero => simp at h
      | succ fuel =>
          rw [List.flatMap_cons, List.append_assoc, characters_escapeChar,
            ih (by simpa using h)]
          rfl

theorem length_le_flatMap_escapeChar (s : List Char) :
    s.length ≤ (s.flatMap escapeChar).length := by
  induction s with
  | nil => simp
  | cons c s ih =>
      have hc : 1 ≤ (escapeChar c).length := by
        unfold escapeChar
        split_ifs <;> simp
      rw [List.flatMap_cons, List.length_append, List.length_cons]
      omega

/-- **What is printed for a string is read as that string, up to its closing quote.** -/
theorem string_quoted (s : String) (rest : List Char) :
    string strict (s.toList.flatMap escapeChar ++ '"' :: rest) = .ok (some s, rest) := by
  have hlength := length_le_flatMap_escapeChar s.toList
  unfold string
  rw [characters_quoted _ _ (by rw [List.length_append]; omega)]
  simp [bind, Except.bind]

/-! ### Numbers -/

theorem ne_of_isDigit {c d : Char} (hc : c.isDigit = true) (hd : d.isDigit = false) : c ≠ d := by
  rintro rfl
  rw [hc] at hd
  simp at hd

end Reader

namespace Number

/-- The printed number is a literal, taken whole, that has the number as its value. -/
def Scans (n : Number) : Prop :=
  ∃ negative body l, n.text = (if negative then '-' :: body else body) ∧
    (negative = false → ∃ c r, body = c :: r ∧ c.isDigit = true) ∧
    Literal.scan negative body = .ok (l, []) ∧ l.number? = some n

theorem Scans.text_ne_nil {n : Number} (h : n.Scans) : n.text ≠ [] := by
  obtain ⟨negative, body, l, htext, hdigit, -, -⟩ := h
  rw [htext]
  cases negative with
  | true => simp
  | false =>
      obtain ⟨c, r, rfl, -⟩ := hdigit rfl
      simp

theorem scans_integer (i : Int) (fits : Fits i) : (integer i fits).Scans := by
  refine ⟨i < 0, Text.digits i.natAbs, _, ?_, fun _ => ?_, Literal.scan_digits _ _,
    Literal.number?_integer i fits⟩
  · show integerText i = _
    unfold integerText
    by_cases hi : i < 0
    · rw [if_pos hi, if_pos (by simpa using hi)]
    · rw [if_neg hi, if_neg (by simpa using hi)]
  · obtain ⟨c, r, hcr⟩ := List.exists_cons_of_ne_nil (Text.digits_ne_nil i.natAbs)
    exact ⟨c, r, hcr, Text.isDigit_of_mem_digits (hcr ▸ List.mem_cons_self)⟩

end Number

namespace Reader

theorem number_scan {negative : Bool} {l : Literal}
    (hscan : Literal.scan negative cs = .ok (l, rest))
    (hvalue : strict = true → l.number?.isSome = true) :
    number strict negative cs = .ok (.number l.number?, rest) := by
  unfold number
  rw [hscan]
  simp only [bind, Except.bind]
  cases hn : l.number? with
  | some n => rfl
  | none =>
      have hloose : ¬strict = true := fun hstrict => by simpa [hn] using hvalue hstrict
      simp only [if_neg hloose]

/-- A literal is read as such, in front of anything that ends it. -/
theorem tree_literal {negative : Bool} {body : List Char} {l : Literal}
    (hdigit : negative = false → ∃ c r, body = c :: r ∧ c.isDigit = true)
    (hscan : Literal.scan negative body = .ok (l, []))
    (hvalue : strict = true → l.number?.isSome = true) (hrest : Literal.Ends rest) :
    tree strict (fuel + 1) room ((if negative then '-' :: body else body) ++ rest) =
      .ok (.number l.number?, rest) := by
  have hnumber : number strict negative (body ++ rest) = .ok (.number l.number?, rest) :=
    number_scan (Literal.scan_append hscan hrest) hvalue
  unfold tree
  cases negative with
  | true =>
      rw [if_pos rfl, List.cons_append, skipGap_cons rfl]
      simpa using hnumber
  | false =>
      obtain ⟨c, r, rfl, hc⟩ := hdigit rfl
      have hgap : isGap c = false := isGap_of_isNumeral (by simp [isNumeral, hc])
      rw [if_neg (by simp), List.cons_append, skipGap_cons hgap]
      simp only [if_neg (ne_of_isDigit hc (d := 'n') rfl), if_neg (ne_of_isDigit hc (d := 't') rfl),
        if_neg (ne_of_isDigit hc (d := 'f') rfl), if_neg (ne_of_isDigit hc (d := '-') rfl),
        if_pos hc]
      exact hnumber

/-- A number that was printed is read as that number, in front of anything that ends it. -/
theorem tree_number {n : Number} (h : n.Scans) (hrest : Literal.Ends rest) :
    tree strict (fuel + 1) room (n.text ++ rest) = .ok (.number (some n), rest) := by
  obtain ⟨negative, body, l, htext, hdigit, hscan, hn⟩ := h
  rw [htext, ← hn]
  exact tree_literal hdigit hscan (fun _ => by rw [hn]; rfl) hrest

theorem number_ok {negative : Bool} (h : number strict negative cs = .ok (t, rest)) :
    ∃ l, Literal.scan negative cs = .ok (l, rest) ∧ t = .number l.number? := by
  obtain ⟨⟨l, r⟩, hscan, hl⟩ := Except.bind_ok h
  simp only at hl
  refine ⟨l, ?_⟩
  cases hn : l.number? with
  | none =>
      rw [hn] at hl
      cases strict with
      | true => simp at hl
      | false =>
          cases hl
          exact ⟨hscan, rfl⟩
  | some n =>
      rw [hn] at hl
      cases hl
      exact ⟨hscan, rfl⟩

/-! ### What a document can be -/

/-- The ways in which a document is read. -/
theorem tree_ok (h : tree strict (fuel + 1) room cs = .ok (t, rest)) :
    ∃ c r, skipGap cs = c :: r ∧
      (t = .null ∨ (∃ b, t = .bool b) ∨
        (c = '-' ∧ number strict true r = .ok (t, rest)) ∨
        (c.isDigit = true ∧ number strict false (c :: r) = .ok (t, rest)) ∨
        (∃ s, t = .string s) ∨
        (∃ ts, ¬(strict = true ∧ room = 0) ∧ items strict fuel (room - 1) r = .ok (ts, rest) ∧
          t = .array ts) ∨
        ∃ ms, ¬(strict = true ∧ room = 0) ∧ members strict fuel (room - 1) r = .ok (ms, rest) ∧
          t = .object ms) := by
  unfold tree at h
  split at h
  · simp at h
  next c r hs =>
    refine ⟨c, r, hs, ?_⟩
    by_cases hnull : c = 'n'
    · rw [if_pos hnull] at h
      exact .inl (word_ok h)
    by_cases htrue : c = 't'
    · rw [if_neg hnull, if_pos htrue] at h
      exact .inr (.inl ⟨true, word_ok h⟩)
    by_cases hfalse : c = 'f'
    · rw [if_neg hnull, if_neg htrue, if_pos hfalse] at h
      exact .inr (.inl ⟨false, word_ok h⟩)
    rw [if_neg hnull, if_neg htrue, if_neg hfalse] at h
    refine .inr (.inr ?_)
    by_cases hminus : c = '-'
    · rw [if_pos hminus] at h
      exact .inl ⟨hminus, h⟩
    by_cases hdigit : c.isDigit = true
    · rw [if_neg hminus, if_pos hdigit] at h
      exact .inr (.inl ⟨hdigit, h⟩)
    rw [if_neg hminus, if_neg hdigit] at h
    refine .inr (.inr ?_)
    by_cases hquote : c = '"'
    · rw [if_pos hquote] at h
      obtain ⟨⟨s, r'⟩, -, hs'⟩ := Except.bind_ok h
      cases hs'
      exact .inl ⟨s, rfl⟩
    rw [if_neg hquote] at h
    refine .inr ?_
    by_cases hbracket : c = '['
    · rw [if_pos hbracket] at h
      by_cases hroom : strict = true ∧ room = 0
      · rw [if_pos hroom] at h
        simp at h
      · rw [if_neg hroom] at h
        obtain ⟨⟨ts, r'⟩, hitems, hts⟩ := Except.bind_ok h
        cases hts
        exact .inl ⟨ts, hroom, hitems, rfl⟩
    rw [if_neg hbracket] at h
    by_cases hbrace : c = '\x7b'
    · rw [if_pos hbrace] at h
      by_cases hroom : strict = true ∧ room = 0
      · rw [if_pos hroom] at h
        simp at h
      · rw [if_neg hroom] at h
        obtain ⟨⟨ms, r'⟩, hmembers, hms⟩ := Except.bind_ok h
        cases hms
        exact .inr ⟨ms, hroom, hmembers, rfl⟩
    · rw [if_neg hbrace] at h
      simp at h

/-- Items are none, or a document and more items. -/
theorem items_ok (h : items strict (fuel + 1) room cs = .ok (ts, rest)) :
    ts = [] ∨ ∃ t ts' cs' r, tree strict fuel room cs' = .ok (t, r) ∧
      moreItems strict fuel room r = .ok (ts', rest) ∧ ts = t :: ts' := by
  unfold items at h
  split at h
  · simp at h
  next c r hs =>
    by_cases hclose : c = ']'
    · rw [if_pos hclose] at h
      cases h
      exact .inl rfl
    · rw [if_neg hclose] at h
      obtain ⟨⟨t, r₁⟩, htree, h⟩ := Except.bind_ok h
      obtain ⟨⟨ts', r₂⟩, hmore, h⟩ := Except.bind_ok h
      cases h
      exact .inr ⟨t, ts', _, r₁, htree, hmore, rfl⟩

theorem moreItems_ok (h : moreItems strict (fuel + 1) room cs = .ok (ts, rest)) :
    ts = [] ∨ ∃ t ts' cs' r, tree strict fuel room cs' = .ok (t, r) ∧
      moreItems strict fuel room r = .ok (ts', rest) ∧ ts = t :: ts' := by
  unfold moreItems at h
  split at h
  · simp at h
  next c r hs =>
    by_cases hclose : c = ']'
    · rw [if_pos hclose] at h
      cases h
      exact .inl rfl
    rw [if_neg hclose] at h
    by_cases hcomma : c = ','
    · rw [if_pos hcomma] at h
      split at h
      · simp at h
      next d r' hs' =>
        by_cases htrailing : d = ']'
        · rw [if_pos htrailing] at h
          simp at h
        · rw [if_neg htrailing] at h
          obtain ⟨⟨t, r₁⟩, htree, h⟩ := Except.bind_ok h
          obtain ⟨⟨ts', r₂⟩, hmore, h⟩ := Except.bind_ok h
          cases h
          exact .inr ⟨t, ts', _, r₁, htree, hmore, rfl⟩
    · rw [if_neg hcomma] at h
      simp at h

/-- Members are none, or a member and more members. -/
theorem members_ok (h : members strict (fuel + 1) room cs = .ok (ms, rest)) :
    ms = [] ∨ ∃ m ms' cs' r, member strict fuel room cs' = .ok (m, r) ∧
      moreMembers strict fuel room r = .ok (ms', rest) ∧ ms = m :: ms' := by
  unfold members at h
  split at h
  · simp at h
  next c r hs =>
    by_cases hclose : c = '\x7d'
    · rw [if_pos hclose] at h
      cases h
      exact .inl rfl
    rw [if_neg hclose] at h
    by_cases hquote : c = '"'
    · rw [if_pos hquote] at h
      obtain ⟨⟨m, r₁⟩, hmember, h⟩ := Except.bind_ok h
      obtain ⟨⟨ms', r₂⟩, hmore, h⟩ := Except.bind_ok h
      cases h
      exact .inr ⟨m, ms', _, r₁, hmember, hmore, rfl⟩
    · rw [if_neg hquote] at h
      simp at h

theorem moreMembers_ok (h : moreMembers strict (fuel + 1) room cs = .ok (ms, rest)) :
    ms = [] ∨ ∃ m ms' cs' r, member strict fuel room cs' = .ok (m, r) ∧
      moreMembers strict fuel room r = .ok (ms', rest) ∧ ms = m :: ms' := by
  unfold moreMembers at h
  split at h
  · simp at h
  next c r hs =>
    by_cases hclose : c = '\x7d'
    · rw [if_pos hclose] at h
      cases h
      exact .inl rfl
    rw [if_neg hclose] at h
    by_cases hcomma : c = ','
    · rw [if_pos hcomma] at h
      split at h
      · simp at h
      next d r' hs' =>
        by_cases hquote : d = '"'
        · rw [if_pos hquote] at h
          obtain ⟨⟨m, r₁⟩, hmember, h⟩ := Except.bind_ok h
          obtain ⟨⟨ms', r₂⟩, hmore, h⟩ := Except.bind_ok h
          cases h
          exact .inr ⟨m, ms', _, r₁, hmember, hmore, rfl⟩
        · rw [if_neg hquote] at h
          split at h <;> simp at h
    · rw [if_neg hcomma] at h
      simp at h

theorem member_ok (h : member strict (fuel + 1) room cs = .ok (m, rest)) :
    ∃ cs', tree strict fuel room cs' = .ok (m.2, rest) := by
  unfold member at h
  obtain ⟨⟨k, r⟩, -, h⟩ := Except.bind_ok h
  simp only at h
  split at h
  · simp at h
  next c r' hs =>
    by_cases hcolon : c = ':'
    · rw [if_pos hcolon] at h
      obtain ⟨⟨t, r₁⟩, htree, h⟩ := Except.bind_ok h
      cases h
      exact ⟨_, htree⟩
    · rw [if_neg hcolon] at h
      simp at h

/-- A text that is read as a number is a literal of that value. -/
theorem tree_ok_number {n : Number} (h : tree strict (fuel + 1) room cs = .ok (t, rest))
    (ht : t.value? = some (.number n)) :
    ∃ c r negative body l, skipGap cs = c :: r ∧
      ((c = '-' ∧ negative = true ∧ body = r) ∨
        (c.isDigit = true ∧ negative = false ∧ body = c :: r)) ∧
      Literal.scan negative body = .ok (l, rest) ∧ l.number? = some n := by
  have hnumber : ∀ negative body, number strict negative body = .ok (t, rest) →
      ∃ l, Literal.scan negative body = .ok (l, rest) ∧ l.number? = some n := by
    intro negative body hbody
    obtain ⟨l, hscan, rfl⟩ := number_ok hbody
    refine ⟨l, hscan, ?_⟩
    cases hn : l.number? with
    | none => simp [Tree.value?, hn] at ht
    | some n' => simpa [Tree.value?, hn] using ht
  obtain ⟨c, r, hs, rfl | ⟨b, rfl⟩ | ⟨hc, h⟩ | ⟨hc, h⟩ | ⟨s, rfl⟩ | ⟨ts, -, -, rfl⟩ |
    ⟨ms, -, -, rfl⟩⟩ := tree_ok h
  · simp [Tree.value?] at ht
  · simp [Tree.value?] at ht
  · obtain ⟨l, hscan, hn⟩ := hnumber true r h
    exact ⟨c, r, true, r, l, hs, .inl ⟨hc, rfl, rfl⟩, hscan, hn⟩
  · obtain ⟨l, hscan, hn⟩ := hnumber false (c :: r) h
    exact ⟨c, r, false, c :: r, l, hs, .inr ⟨hc, rfl, rfl⟩, hscan, hn⟩
  · simp [Tree.value?] at ht
  · simp [Tree.value?] at ht
  · simp [Tree.value?] at ht

/-! ### Whole texts -/

theorem document_of_tree (hlength : 2 * cs.length + 2 = fuel)
    (h : tree strict fuel maxDepth cs = .ok (t, rest)) (hrest : Blank rest) :
    document strict cs = .ok t := by
  have hskip : skipGap rest = [] := by
    rw [← List.append_nil rest, skipGap_append hrest]
    rfl
  unfold document
  rw [hlength, h]
  simp only [bind, Except.bind, hskip]

theorem document_ok (h : document strict cs = .ok t) :
    ∃ rest, tree strict (2 * cs.length + 2) maxDepth cs = .ok (t, rest) ∧ skipGap rest = [] := by
  obtain ⟨⟨t', rest⟩, htree, hrest⟩ := Except.bind_ok h
  simp only at hrest
  cases hs : skipGap rest with
  | nil =>
      rw [hs] at hrest
      cases hrest
      exact ⟨rest, htree, hs⟩
  | cons c r =>
      rw [hs] at hrest
      simp at hrest

end Reader

theorem read_ok_iff {text : String} {v : Value} :
    read text = .ok v ↔ ∃ t, Reader.document true text.toList = .ok t ∧ t.value? = some v := by
  unfold read readChars
  cases hdocument : Reader.document true text.toList with
  | error stop => simp [bind, Except.bind, Except.mapError]
  | ok t =>
      cases hvalue : t.value? with
      | none => simp [bind, Except.bind, Except.mapError, hvalue]
      | some w => simp [bind, Except.bind, Except.mapError, hvalue]

/-- Members are those of a document that was read. -/
theorem readMembers_ok {text : String} {ms : Entries String Value}
    (h : readMembers text = .ok ms) : ∃ v, read text = .ok v ∧ ms = v.members?.getD [] := by
  unfold readMembers at h
  simp only at h
  split at h
  · simp at h
  · split at h
    next v hv =>
      cases h
      refine ⟨v, ?_, rfl⟩
      unfold read
      rw [hv]
      rfl
    next => simp at h
  · split at h <;> simp at h

namespace Number

variable {n : Number}

theorem scans_of_readsBack (h : n.ReadsBack) : n.Scans := by
  obtain ⟨t, hdocument, hvalue⟩ := read_ok_iff.mp h
  rw [String.toList_ofList] at hdocument
  obtain ⟨rest, htree, hrest⟩ := Reader.document_ok hdocument
  obtain ⟨c, r, negative, body, l, hs, hbody, hscan, hn⟩ := Reader.tree_ok_number htree hvalue
  have hplain : ∀ d ∈ n.text, Reader.isGap d = false := fun d hd =>
    isGap_of_isNumeral (mem_text hd)
  -- No character of the text is a blank, neither in front of the literal nor behind it.
  have hskip : ∀ ds, ds ⊆ n.text → Reader.skipGap ds = ds := by
    intro ds hds
    cases ds with
    | nil => rfl
    | cons d ds => exact Reader.skipGap_cons (hplain d (hds (by simp))) ds
  have htext : n.text = c :: r := by rw [← hs, hskip _ (List.Subset.refl _)]
  have hsubset : body ⊆ n.text := by
    rw [htext]
    rcases hbody with ⟨-, -, rfl⟩ | ⟨-, -, rfl⟩
    · exact List.subset_cons_self c _
    · exact List.Subset.refl _
  rw [hskip rest (List.Subset.trans (Literal.scan_suffix hscan).subset hsubset)] at hrest
  subst hrest
  refine ⟨negative, body, l, ?_, fun hnegative => ?_, hscan, hn⟩
  · rcases hbody with ⟨rfl, rfl, rfl⟩ | ⟨-, rfl, rfl⟩
    · exact htext
    · exact htext
  · rcases hbody with ⟨-, rfl, -⟩ | ⟨hc, -, rfl⟩
    · simp at hnegative
    · exact ⟨c, r, rfl, hc⟩

theorem readsBack_of_scans (h : n.Scans) : n.ReadsBack := by
  refine read_ok_iff.mpr ⟨.number (some n), ?_, rfl⟩
  rw [String.toList_ofList]
  have htree : Reader.tree true (2 * n.text.length + 2) Reader.maxDepth (n.text ++ []) =
      .ok (.number (some n), []) := Reader.tree_number h Literal.ends_nil
  rw [List.append_nil] at htree
  exact Reader.document_of_tree rfl htree Reader.blank_nil

/-- **Integers read back.** -/
theorem readsBack_integer (i : Int) (fits : Fits i) : (integer i fits).ReadsBack :=
  readsBack_of_scans (scans_integer i fits)

end Number

end Upkeep.Json
