/-
Numbers that are read back as they were printed.

An integer always is.  A double need not be: the reader values the digits of a literal by
one product or quotient, which can miss the double that was printed by one place.  So
whether a number reads back is a property, `Number.ReadsBack`, that is free for integers
and asked of doubles.

A literal is read the same way whatever follows it, as long as that cannot go on with it.
-/
import Mathlib.Data.List.Basic
import Mathlib.Data.List.TakeWhile
import Upkeep.Json.Reader
import Upkeep.Proofs.Text.Digits

namespace Upkeep

/-- A step that came from two steps that both succeeded. -/
theorem Except.bind_ok {ε α β : Type} {x : Except ε α} {f : α → Except ε β} {b : β}
    (h : (x >>= f) = .ok b) : ∃ a, x = .ok a ∧ f a = .ok b := by
  cases x with
  | error e => simp [bind, Except.bind] at h
  | ok a => exact ⟨a, rfl, h⟩

/-- A step whose result can be named succeeded. -/
theorem Except.exists_ok {ε α : Type} {x : Except ε α} {p : α → Prop}
    (h : ∃ a ∈ x.toOption, p a) : ∃ a, x = .ok a ∧ p a := by
  obtain ⟨a, ha, hp⟩ := h
  cases x with
  | error e => cases ha
  | ok b =>
      obtain rfl : b = a := Option.some.inj ha
      exact ⟨b, rfl, hp⟩

namespace Json

namespace Literal

/-- The text does not go on with a number that stands in front of it. -/
def Ends (rest : List Char) : Prop :=
  ∀ c cs, rest = c :: cs → c.isDigit = false ∧ c ≠ '.' ∧ c ≠ 'e' ∧ c ≠ 'E'

theorem ends_nil : Ends [] := fun _ _ h => by simp at h

theorem ends_cons {c : Char} (cs : List Char)
    (h : c.isDigit = false ∧ c ≠ '.' ∧ c ≠ 'e' ∧ c ≠ 'E') : Ends (c :: cs) := by
  intro d ds heq
  cases heq
  exact h

variable {cs rest : List Char}

/-- A run of digits ends where the number does. -/
theorem digits_append (cs : List Char) (hrest : Ends rest) :
    (cs ++ rest).takeWhile Char.isDigit = cs.takeWhile Char.isDigit ∧
      (cs ++ rest).dropWhile Char.isDigit = cs.dropWhile Char.isDigit ++ rest := by
  induction cs with
  | nil =>
      cases rest with
      | nil => exact ⟨rfl, rfl⟩
      | cons c rest =>
          obtain ⟨hdigit, -⟩ := hrest c rest rfl
          simp [List.takeWhile, List.dropWhile, hdigit]
  | cons c cs ih =>
      by_cases hdigit : c.isDigit = true
      · simpa [List.takeWhile, List.dropWhile, hdigit] using ih
      · simp [List.takeWhile, List.dropWhile, hdigit]

/-- The sign of an exponent, and what stands behind it. -/
def exponentSign (cs : List Char) : Bool × List Char :=
  match cs with
  | '+' :: r => (false, r)
  | '-' :: r => (true, r)
  | r => (false, r)

theorem exponentSign_append (h : cs ≠ []) :
    exponentSign (cs ++ rest) = ((exponentSign cs).1, (exponentSign cs).2 ++ rest) := by
  cases cs with
  | nil => exact absurd rfl h
  | cons c cs =>
      by_cases hplus : c = '+'
      · subst hplus
        rfl
      by_cases hminus : c = '-'
      · subst hminus
        rfl
      simp [exponentSign, hplus, hminus]

theorem scanExponent_eq (cs : List Char) :
    scanExponent cs = match (exponentSign cs).2 with
      | [] => .error (.here .endOfValue [])
      | c :: r =>
        if c.isDigit then
          .ok (((exponentSign cs).1, c :: r.takeWhile Char.isDigit), r.dropWhile Char.isDigit)
        else .error ⟨.badNumber, byteCount (exponentSign cs).2 - 1⟩ := rfl

theorem scanExponent_append {e : Bool × List Char} {r : List Char}
    (h : scanExponent cs = .ok (e, r)) (hrest : Ends rest) :
    scanExponent (cs ++ rest) = .ok (e, r ++ rest) := by
  have hcs : cs ≠ [] := by
    rintro rfl
    simp [scanExponent] at h
  rw [scanExponent_eq, exponentSign_append hcs]
  rw [scanExponent_eq] at h
  cases hbody : (exponentSign cs).2 with
  | nil => simp [hbody] at h
  | cons c body =>
      simp only [hbody, List.cons_append] at h ⊢
      by_cases hdigit : c.isDigit = true
      · rw [if_pos hdigit] at h ⊢
        obtain ⟨htake, hdrop⟩ := digits_append body hrest
        rw [htake, hdrop]
        cases h
        rfl
      · rw [if_neg hdigit] at h
        simp at h

variable {negative : Bool} {whole r : List Char} {fraction : Option (List Char)} {l : Literal}

theorem scanTail_mark {c : Char} (hc : c = 'e' ∨ c = 'E') (cs : List Char) :
    scanTail negative whole fraction (c :: cs) = scanExponent cs >>= fun (exponent, rest) =>
      .ok (⟨negative, whole, fraction, some exponent⟩, rest) := by
  rcases hc with rfl | rfl <;> rfl

theorem scanTail_end (h : ∀ c ds, cs = c :: ds → c ≠ 'e' ∧ c ≠ 'E') :
    scanTail negative whole fraction cs = .ok (⟨negative, whole, fraction, none⟩, cs) := by
  unfold scanTail
  split
  · exact absurd rfl (h _ _ rfl).1
  · exact absurd rfl (h _ _ rfl).2
  · rfl

theorem scanTail_append (h : scanTail negative whole fraction cs = .ok (l, r))
    (hrest : Ends rest) : scanTail negative whole fraction (cs ++ rest) = .ok (l, r ++ rest) := by
  have hend : ∀ c ds, rest = c :: ds → c ≠ 'e' ∧ c ≠ 'E' := fun c ds hc =>
    (hrest c ds hc).2.2
  cases cs with
  | nil =>
      cases h
      exact scanTail_end hend
  | cons c cs =>
      by_cases hc : c = 'e' ∨ c = 'E'
      · rw [scanTail_mark hc] at h
        obtain ⟨⟨e, r'⟩, he, hl⟩ := Except.bind_ok h
        cases hl
        rw [List.cons_append, scanTail_mark hc, scanExponent_append he hrest]
        rfl
      · have hne : ∀ ds d es, c :: ds = d :: es → d ≠ 'e' ∧ d ≠ 'E' := by
          rintro ds d es heq
          cases heq
          exact not_or.mp hc
        rw [scanTail_end (hne cs)] at h
        rw [List.cons_append, scanTail_end (hne _)]
        cases h
        rfl

theorem scanFraction_point (cs : List Char) :
    scanFraction negative whole ('.' :: cs) =
      if cs.takeWhile Char.isDigit = [] then
        .error (.ahead (if cs.dropWhile Char.isDigit = [] then .endOfValue else .badNumber)
          (cs.dropWhile Char.isDigit))
      else scanTail negative whole (some (cs.takeWhile Char.isDigit))
        (cs.dropWhile Char.isDigit) := rfl

theorem scanFraction_end (h : ∀ c ds, cs = c :: ds → c ≠ '.') :
    scanFraction negative whole cs = scanTail negative whole none cs := by
  unfold scanFraction
  split
  · exact absurd rfl (h _ _ rfl)
  · rfl

theorem scanFraction_append (h : scanFraction negative whole cs = .ok (l, r))
    (hrest : Ends rest) : scanFraction negative whole (cs ++ rest) = .ok (l, r ++ rest) := by
  cases cs with
  | nil =>
      rw [List.nil_append, scanFraction_end fun c ds hc => (hrest c ds hc).2.1]
      have htail : scanTail negative whole none [] = .ok (l, r) := h
      exact scanTail_append htail hrest
  | cons c cs =>
      by_cases hc : c = '.'
      · subst hc
        obtain ⟨htake, hdrop⟩ := digits_append cs hrest
        rw [scanFraction_point] at h
        rw [List.cons_append, scanFraction_point, htake, hdrop]
        by_cases hdigits : cs.takeWhile Char.isDigit = []
        · rw [if_pos hdigits] at h
          simp at h
        · rw [if_neg hdigits] at h ⊢
          exact scanTail_append h hrest
      · have hne : ∀ ds d es, c :: ds = d :: es → d ≠ '.' := by
          rintro ds d es heq
          cases heq
          exact hc
        rw [scanFraction_end (hne cs)] at h
        rw [List.cons_append, scanFraction_end (hne _)]
        exact scanTail_append h hrest

/-- **A literal is scanned the same way whatever ends it.** -/
theorem scan_append (h : scan negative cs = .ok (l, r)) (hrest : Ends rest) :
    scan negative (cs ++ rest) = .ok (l, r ++ rest) := by
  cases cs with
  | nil => simp [scan] at h
  | cons c cs =>
      obtain ⟨htake, hdrop⟩ := digits_append cs hrest
      rw [List.cons_append]
      unfold scan at h ⊢
      simp only at h ⊢
      by_cases hzero : c = '0'
      · rw [if_pos hzero] at h ⊢
        cases cs with
        | nil =>
            have hfraction : scanFraction negative [c] ([] ++ rest) = .ok (l, r ++ rest) :=
              scanFraction_append h hrest
            cases rest with
            | nil => exact hfraction
            | cons d rest =>
                obtain ⟨hdigit, -⟩ := hrest d rest rfl
                simpa [hdigit] using hfraction
        | cons d cs =>
            simp only [List.cons_append] at h ⊢
            by_cases hdigit : d.isDigit = true
            · rw [if_pos hdigit] at h
              simp at h
            · rw [if_neg hdigit] at h ⊢
              exact scanFraction_append h hrest
      · rw [if_neg hzero] at h ⊢
        by_cases hdigit : c.isDigit = true
        · rw [if_pos hdigit] at h ⊢
          rw [htake, hdrop]
          exact scanFraction_append h hrest
        · rw [if_neg hdigit] at h
          simp at h

/-! ### What a scan leaves -/

theorem scanExponent_suffix {e : Bool × List Char} (h : scanExponent cs = .ok (e, r)) :
    r <:+ cs := by
  have hsign : (exponentSign cs).2 <:+ cs := by
    unfold exponentSign
    split
    · exact List.suffix_cons _ _
    · exact List.suffix_cons _ _
    · exact List.suffix_rfl
  rw [scanExponent_eq] at h
  cases hbody : (exponentSign cs).2 with
  | nil => simp [hbody] at h
  | cons c body =>
      rw [hbody] at hsign
      simp only [hbody] at h
      by_cases hdigit : c.isDigit = true
      · rw [if_pos hdigit] at h
        cases h
        exact ((List.dropWhile_suffix _).trans (List.suffix_cons c body)).trans hsign
      · rw [if_neg hdigit] at h
        simp at h

theorem scanTail_suffix (h : scanTail negative whole fraction cs = .ok (l, r)) : r <:+ cs := by
  cases cs with
  | nil =>
      cases h
      exact List.suffix_rfl
  | cons c cs =>
      by_cases hc : c = 'e' ∨ c = 'E'
      · rw [scanTail_mark hc] at h
        obtain ⟨⟨e, r'⟩, he, hl⟩ := Except.bind_ok h
        cases hl
        exact (scanExponent_suffix he).trans (List.suffix_cons c cs)
      · rw [scanTail_end] at h
        · cases h
          exact List.suffix_rfl
        · rintro d ds heq
          cases heq
          exact not_or.mp hc

theorem scanFraction_suffix (h : scanFraction negative whole cs = .ok (l, r)) : r <:+ cs := by
  cases cs with
  | nil => exact scanTail_suffix h
  | cons c cs =>
      by_cases hc : c = '.'
      · subst hc
        rw [scanFraction_point] at h
        by_cases hdigits : cs.takeWhile Char.isDigit = []
        · rw [if_pos hdigits] at h
          simp at h
        · rw [if_neg hdigits] at h
          exact ((scanTail_suffix h).trans (List.dropWhile_suffix _)).trans (List.suffix_cons _ _)
      · rw [scanFraction_end] at h
        · exact scanTail_suffix h
        · rintro d ds heq
          cases heq
          exact hc

theorem scan_suffix (h : scan negative cs = .ok (l, r)) : r <:+ cs := by
  cases cs with
  | nil => simp [scan] at h
  | cons c cs =>
      unfold scan at h
      simp only at h
      by_cases hzero : c = '0'
      · rw [if_pos hzero] at h
        cases cs with
        | nil => exact (scanFraction_suffix h).trans (List.suffix_cons _ _)
        | cons d cs =>
            simp only at h
            by_cases hdigit : d.isDigit = true
            · rw [if_pos hdigit] at h
              simp at h
            · rw [if_neg hdigit] at h
              exact (scanFraction_suffix h).trans (List.suffix_cons _ _)
      · rw [if_neg hzero] at h
        by_cases hdigit : c.isDigit = true
        · rw [if_pos hdigit] at h
          exact ((scanFraction_suffix h).trans (List.dropWhile_suffix _)).trans
            (List.suffix_cons _ _)
        · rw [if_neg hdigit] at h
          simp at h

/-! ### Integers -/

theorem scan_digits (negative : Bool) (n : Nat) :
    scan negative (Text.digits n) = .ok (⟨negative, Text.digits n, none, none⟩, []) := by
  by_cases hn : n = 0
  · subst hn
    rfl
  obtain ⟨c, cs, hcs⟩ := List.exists_cons_of_ne_nil (Text.digits_ne_nil n)
  have hall : ∀ d ∈ c :: cs, d.isDigit = true := fun d hd =>
    Text.isDigit_of_mem_digits (hcs ▸ hd)
  have hzero : c ≠ '0' := by
    rintro rfl
    exact Text.head?_digits_ne n hn (by rw [hcs]; rfl)
  have htail : ∀ d ∈ cs, d.isDigit = true := fun d hd => hall d (by simp [hd])
  rw [hcs]
  unfold scan
  simp only
  rw [if_neg hzero, if_pos (hall c (by simp)), List.takeWhile_eq_self_iff.mpr htail,
    List.dropWhile_eq_nil_iff.mpr htail]
  rfl

/-- The literal of an integer is valued as that integer. -/
theorem number?_integer (i : Int) (fits : Fits i) :
    number? ⟨i < 0, Text.digits i.natAbs, none, none⟩ = some (.integer i fits) := by
  have hvalue : (if (decide (i < 0)) = true then -(i.natAbs : Int) else i.natAbs) = i := by
    by_cases hi : i < 0
    · rw [if_pos (by simpa using hi)]
      omega
    · rw [if_neg (by simpa using hi)]
      omega
  unfold number?
  simp only [Text.valueOfDigits_digits, hvalue]
  rw [dif_pos]
  refine ⟨trivial, trivial, ?_, fits⟩
  simp only [decide_eq_true_eq]
  omega

end Literal

/-! ### The printed form -/

/-- A character of a printed number. -/
def isNumeral (c : Char) : Bool :=
  c.isDigit || c = '.' || c = 'e' || c = '+' || c = '-'

theorem isNumeral_of_mem_digits {n : Nat} {c : Char} (h : c ∈ Text.digits n) :
    isNumeral c = true := by
  unfold isNumeral
  rw [Text.isDigit_of_mem_digits h]
  rfl

theorem isGap_of_isNumeral {c : Char} (h : isNumeral c = true) : Reader.isGap c = false := by
  by_contra hgap
  rw [Bool.not_eq_false] at hgap
  have hblank : c = ' ' ∨ c = '\t' ∨ c = '\n' ∨ c = '\r' := by
    simpa [Reader.isGap, or_assoc] using hgap
  rcases hblank with rfl | rfl | rfl | rfl <;> exact absurd h (by decide)

theorem mem_positionalText {markWhole : Bool} {ds : List Char} {leading : Int} {c : Char}
    (hds : ∀ d ∈ ds, isNumeral d = true)
    (h : c ∈ Binary64.positionalText markWhole ds leading) : isNumeral c = true := by
  have hmarks : isNumeral '0' = true ∧ isNumeral '.' = true := by decide
  unfold Binary64.positionalText at h
  by_cases hsmall : leading < 0
  · rw [if_pos hsmall] at h
    simp only [List.mem_cons, List.mem_append, List.mem_replicate] at h
    rcases h with rfl | rfl | ⟨-, rfl⟩ | h
    · exact hmarks.1
    · exact hmarks.2
    · exact hmarks.1
    · exact hds c h
  · rw [if_neg hsmall] at h
    simp only at h
    by_cases hwhole : ds.length ≤ leading.toNat + 1
    · rw [if_pos hwhole, List.mem_append, List.mem_append, List.mem_replicate] at h
      rcases h with (h | ⟨-, rfl⟩) | h
      · exact hds c h
      · exact hmarks.1
      · cases markWhole with
        | true =>
            have hc : c = '.' ∨ c = '0' := by simpa using h
            rcases hc with rfl | rfl
            · exact hmarks.2
            · exact hmarks.1
        | false => simp at h
    · rw [if_neg hwhole, List.mem_append, List.mem_cons] at h
      rcases h with h | rfl | h
      · exact hds c (List.mem_of_mem_take h)
      · exact hmarks.2
      · exact hds c (List.mem_of_mem_drop h)

theorem mem_scientificText {ds : List Char} {leading : Int} {c : Char}
    (hds : ∀ d ∈ ds, isNumeral d = true) (h : c ∈ Binary64.scientificText ds leading) :
    isNumeral c = true := by
  unfold Binary64.scientificText at h
  rcases List.mem_append.mp h with h | h
  · split at h
    next d e r =>
      rcases List.mem_cons.mp h with rfl | h
      · exact hds c (by simp)
      rcases List.mem_cons.mp h with rfl | h
      · decide
      · exact hds c (List.mem_cons_of_mem _ h)
    · exact hds c h
  rcases List.mem_cons.mp h with rfl | h
  · decide
  rcases List.mem_cons.mp h with rfl | h
  · split <;> decide
  · exact isNumeral_of_mem_digits h

theorem mem_magnitudeText {l : Binary64.Layout} {x : Binary64} {c : Char}
    (h : c ∈ l.magnitudeText x) : isNumeral c = true := by
  unfold Binary64.Layout.magnitudeText at h
  simp only at h
  split at h
  · exact mem_positionalText (fun d hd => isNumeral_of_mem_digits hd) h
  · split at h
    · exact mem_positionalText (fun d hd => isNumeral_of_mem_digits hd) h
    · exact mem_scientificText (fun d hd => isNumeral_of_mem_digits hd) h

theorem mem_render {l : Binary64.Layout} {x : Binary64} {c : Char} (h : c ∈ l.render x) :
    isNumeral c = true := by
  have hmagnitude : ∀ d ∈ (if x.significand = 0 then Binary64.positionalText l.markWhole ['0'] 0
      else l.magnitudeText x), isNumeral d = true := by
    intro d hd
    split at hd
    · refine mem_positionalText (fun e he => ?_) hd
      rw [List.mem_singleton.mp he]
      decide
    · exact mem_magnitudeText hd
  unfold Binary64.Layout.render at h
  simp only at h
  split at h
  · rcases List.mem_cons.mp h with rfl | h
    · decide
    · exact hmagnitude c h
  · exact hmagnitude c h

namespace Number

theorem mem_text {n : Number} {c : Char} (h : c ∈ n.text) : isNumeral c = true := by
  cases n with
  | integer i fits =>
      have hi : c ∈ integerText i := h
      unfold integerText at hi
      split at hi
      · rcases List.mem_cons.mp hi with rfl | hi
        · decide
        · exact isNumeral_of_mem_digits hi
      · exact isNumeral_of_mem_digits hi
  | float x => exact mem_render h

/-- What is printed for the number is read as that number. -/
def ReadsBack (n : Number) : Prop := read (String.ofList n.text) = .ok (.number n)

instance (n : Number) : Decidable n.ReadsBack := by
  unfold ReadsBack
  infer_instance

end Number

end Json

end Upkeep
