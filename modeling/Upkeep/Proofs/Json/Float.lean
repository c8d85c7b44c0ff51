/-
Every printed number is a literal.

A double need not be read back as it was printed, but what is printed for it is a literal
in any case, so a reader that asks for no value takes it whole.  What the grammar wants is
that a whole part has no leading zero.  The digits of a double are those of its shortest
decimal, which is not zero unless the double is: zero does not lie in the interval of reals
that round to another double, and dropping trailing zeros never drops a last digit.
-/
import Upkeep.Proofs.Json.Number

namespace Upkeep

namespace Binary64

/-! ### The shortest decimal is not zero -/

variable {x : Binary64}

theorem not_contains_zero (hx : x.significand ≠ 0) (scale : Int) :
    x.interval.contains 0 scale = false := by
  have hlow : 0 < x.interval.low * Nat.pow 10 (-scale).toNat := by
    refine Nat.mul_pos ?_ (Nat.pow_pos (by decide))
    unfold interval
    refine Nat.mul_pos ?_ (Nat.pow_pos (by decide))
    split <;> omega
  unfold Interval.contains
  simp only [Nat.zero_mul]
  split
  · rw [decide_eq_false (by omega), Bool.false_and]
  · rw [decide_eq_false (by omega), Bool.false_and]

theorem gridPoint?_ne_zero (hx : x.significand ≠ 0) {tie : Tie} {scale : Int} {d : Decimal}
    (h : x.interval.gridPoint? tie scale = some d) : d.coefficient ≠ 0 := by
  have hzero : ∀ n, x.interval.contains n scale = true → n ≠ 0 := by
    rintro n hn rfl
    rw [not_contains_zero hx] at hn
    simp at hn
  unfold Interval.gridPoint? at h
  simp only at h
  split at h
  · simp at h
  next hbelow _ =>
    cases h
    exact hzero _ hbelow
  next =>
    cases h
    exact Nat.succ_ne_zero _
  next hbelow _ =>
    have hne := hzero _ hbelow
    split at h
    · cases h
      exact hne
    split at h
    · cases h
      exact Nat.succ_ne_zero _
    split at h
    · cases h
      show (if _ then _ else _) ≠ 0
      split
      · exact hne
      · exact Nat.succ_ne_zero _
    · cases h
      exact Nat.succ_ne_zero _

theorem stripZeros_ne_zero (fuel : Nat) {d : Decimal} (h : d.coefficient ≠ 0) :
    (d.stripZeros fuel).coefficient ≠ 0 := by
  induction fuel generalizing d with
  | zero => exact h
  | succ fuel ih =>
      unfold Decimal.stripZeros
      split
      · refine ih ?_
        show d.coefficient / 10 ≠ 0
        omega
      · exact h

theorem shortest_ne_zero (tie : Tie) (hx : x.significand ≠ 0) :
    (shortest tie x).coefficient ≠ 0 := by
  unfold shortest
  simp only
  refine stripZeros_ne_zero 20 ?_
  rcases hfound : (List.range 17).findSome? fun n : Nat =>
    x.interval.gridPoint? tie (x.interval.magnitude - (n : Int)) with _ | d
  · exact hx
  · obtain ⟨n, -, hn⟩ := List.exists_of_findSome?_eq_some hfound
    exact gridPoint?_ne_zero hx hn

end Binary64

namespace Json

namespace Literal

variable {negative : Bool} {ds es cs : List Char}

/-! ### Literals from their parts -/

/-- At least one digit and nothing else. -/
structure Run (ds : List Char) : Prop where
  ne_nil : ds ≠ []
  isDigit : ∀ c ∈ ds, c.isDigit = true

/-- What a literal may have in front of its point: digits, and a zero only as the one digit. -/
structure Whole (ds : List Char) : Prop extends Run ds where
  head?_ne : ds.head? ≠ some '0' ∨ ds = ['0']

theorem run_digits (n : Nat) : Run (Text.digits n) :=
  ⟨Text.digits_ne_nil n, fun _ hc => Text.isDigit_of_mem_digits hc⟩

theorem whole_digits (n : Nat) : Whole (Text.digits n) := by
  refine ⟨run_digits n, ?_⟩
  by_cases hn : n = 0
  · rw [hn]
    exact .inr rfl
  · exact .inl (Text.head?_digits_ne n hn)

/-- The text does not go on with a digit. -/
def NoDigit (cs : List Char) : Prop := ∀ c ds, cs = c :: ds → c.isDigit = false

theorem noDigit_nil : NoDigit [] := fun _ _ h => by simp at h

theorem noDigit_cons {c : Char} (hc : c.isDigit = false) (cs : List Char) : NoDigit (c :: cs) := by
  intro d ds h
  cases h
  exact hc

theorem Run.takeWhile (R : Run ds) (hcs : NoDigit cs) :
    (ds ++ cs).takeWhile Char.isDigit = ds := by
  rw [List.takeWhile_append_of_pos R.isDigit]
  cases cs with
  | nil => simp
  | cons c cs => simp [List.takeWhile, hcs c cs rfl]

theorem Run.dropWhile (R : Run ds) (hcs : NoDigit cs) :
    (ds ++ cs).dropWhile Char.isDigit = cs := by
  rw [List.dropWhile_append_of_pos R.isDigit]
  cases cs with
  | nil => rfl
  | cons c cs => simp [List.dropWhile, hcs c cs rfl]

/-- A whole part is scanned as such. -/
theorem scan_whole (W : Whole ds) (hcs : NoDigit cs) :
    scan negative (ds ++ cs) = scanFraction negative ds cs := by
  rcases W.head?_ne with hhead | rfl
  · obtain ⟨c, ds, rfl⟩ := List.exists_cons_of_ne_nil W.ne_nil
    have hzero : c ≠ '0' := by
      rintro rfl
      exact hhead rfl
    have R : (c :: (ds ++ cs)).takeWhile Char.isDigit = c :: ds := W.toRun.takeWhile hcs
    have R' : (c :: (ds ++ cs)).dropWhile Char.isDigit = cs := W.toRun.dropWhile hcs
    have hc : c.isDigit = true := W.isDigit c (by simp)
    simp only [List.takeWhile, List.dropWhile, hc, List.cons.injEq, true_and] at R R'
    rw [List.cons_append]
    unfold scan
    simp only
    rw [if_neg hzero, if_pos hc, R, R']
  · cases cs with
    | nil => rfl
    | cons c cs =>
        have hc := hcs c cs rfl
        unfold scan
        simp [hc]

/-- A fraction is scanned as such. -/
theorem scanFraction_run (negative : Bool) (R : Run es) (hcs : NoDigit cs) (ds : List Char) :
    scanFraction negative ds ('.' :: (es ++ cs)) = scanTail negative ds (some es) cs := by
  rw [scanFraction_point, R.takeWhile hcs, R.dropWhile hcs, if_neg R.ne_nil]

/-- An exponent is scanned as such. -/
theorem scanTail_exponent (R : Run es) (minus : Bool) (ds : List Char)
    (fraction : Option (List Char)) :
    scanTail negative ds fraction ('e' :: (if minus then '-' else '+') :: es) =
      .ok (⟨negative, ds, fraction, some (minus, es)⟩, []) := by
  have hscan : scanExponent ((if minus then '-' else '+') :: es) = .ok ((minus, es), []) := by
    obtain ⟨c, es, rfl⟩ := List.exists_cons_of_ne_nil R.ne_nil
    have htail : ∀ d ∈ es, d.isDigit = true := fun d hd => R.isDigit d (by simp [hd])
    have hsign : exponentSign ((if minus then '-' else '+') :: c :: es) = (minus, c :: es) := by
      cases minus <;> rfl
    rw [scanExponent_eq, hsign]
    simp only
    rw [if_pos (R.isDigit c (by simp)), List.takeWhile_eq_self_iff.mpr htail,
      List.dropWhile_eq_nil_iff.mpr htail]
  rw [scanTail_mark (.inl rfl), hscan]
  rfl

/-! ### The layouts of a double -/

/-- The text is this literal, taken whole. -/
structure Scanned (negative : Bool) (cs : List Char) (l : Literal) : Prop where
  head : ∃ c r, cs = c :: r ∧ c.isDigit = true
  scan : Literal.scan negative cs = .ok (l, [])

variable {l : Literal}

theorem Scanned.whole (W : Whole ds) (hcs : NoDigit cs)
    (h : scanFraction negative ds cs = .ok (l, [])) : Scanned negative (ds ++ cs) l := by
  constructor
  · obtain ⟨c, r, rfl⟩ := List.exists_cons_of_ne_nil W.ne_nil
    exact ⟨c, r ++ cs, rfl, W.isDigit c (by simp)⟩
  · rwa [scan_whole W hcs]

theorem Scanned.fraction (W : Whole ds) (R : Run es) :
    Scanned negative (ds ++ '.' :: es) ⟨negative, ds, some es, none⟩ := by
  refine .whole W (noDigit_cons (by decide) es) ?_
  have hfraction := scanFraction_run negative R noDigit_nil ds
  rwa [List.append_nil] at hfraction

theorem isDigit_zero : '0'.isDigit = true := by decide

/-- A digit that is no zero can have zeros behind it. -/
theorem whole_append_zeros (W : Whole ds) {k : Nat} (hk : ds = ['0'] → k = 0) :
    Whole (ds ++ List.replicate k '0') := by
  refine ⟨⟨by simp [W.ne_nil], fun c hc => ?_⟩, ?_⟩
  · rcases List.mem_append.mp hc with hc | hc
    · exact W.isDigit c hc
    · rw [List.eq_of_mem_replicate hc]
      exact isDigit_zero
  · rcases W.head?_ne with hhead | hzero
    · exact .inl (by rwa [List.head?_append_of_ne_nil _ W.ne_nil])
    · rw [hk hzero]
      exact .inr (by simpa using hzero)

/-- A positional text is a literal without an exponent, and its whole part reaches down from
the first digit. -/
theorem scanned_positionalText (markWhole : Bool) (W : Whole ds) (leading : Int)
    (hzero : ds = ['0'] → leading = 0) :
    ∃ l, Scanned negative (Binary64.positionalText markWhole ds leading) l ∧
      l.exponent = none ∧ Run l.whole ∧ l.whole.length ≤ leading.toNat + 1 := by
  have hpoint : Whole ['0'] := whole_digits 0
  unfold Binary64.positionalText
  split
  next =>
    -- Only zeros stand in front of the digits.
    refine ⟨_, .fraction hpoint ⟨by simp [W.ne_nil], fun c hc => ?_⟩, rfl, hpoint.toRun, by simp⟩
    rcases List.mem_append.mp hc with hc | hc
    · rw [List.eq_of_mem_replicate hc]
      exact isDigit_zero
    · exact W.isDigit c hc
  next hleading =>
    simp only
    split
    next hlength =>
      have hwhole : Whole (ds ++ List.replicate (leading.toNat + 1 - ds.length) '0') := by
        refine whole_append_zeros W fun hds => ?_
        rw [hzero hds, hds]
        rfl
      have hplaces : (ds ++ List.replicate (leading.toNat + 1 - ds.length) '0').length ≤
          leading.toNat + 1 := by
        rw [List.length_append, List.length_replicate]
        omega
      cases markWhole with
      | true => exact ⟨_, .fraction hwhole hpoint.toRun, rfl, hwhole.toRun, hplaces⟩
      | false => exact ⟨_, .whole hwhole noDigit_nil rfl, rfl, hwhole.toRun, hplaces⟩
    next hlength =>
      have hhead : ds.head? ≠ some '0' := by
        refine W.head?_ne.resolve_right fun hds => ?_
        simp [hds] at hlength
      have hwhole : Whole (ds.take (leading.toNat + 1)) := by
        refine ⟨⟨?_, fun c hc => W.isDigit c (List.mem_of_mem_take hc)⟩, .inl ?_⟩
        · simp [W.ne_nil]
        · rwa [List.head?_take, if_neg (by omega)]
      refine ⟨_, .fraction hwhole ⟨?_, fun c hc => W.isDigit c (List.mem_of_mem_drop hc)⟩, rfl,
        hwhole.toRun, List.length_take_le _ _⟩
      simpa using hlength

/-- A scientific text is a literal with one digit in front of its point and the others
behind it. -/
theorem scanned_scientificText (W : Whole ds) (hzero : ds ≠ ['0']) (leading : Int) :
    Scanned negative (Binary64.scientificText ds leading)
      ⟨negative, ds.take 1, if ds.length = 1 then none else some (ds.drop 1),
        some (leading < 0, Text.digits leading.natAbs)⟩ := by
  have hhead : ds.head? ≠ some '0' := W.head?_ne.resolve_right hzero
  have hexponent : ∀ whole fraction, scanTail negative whole fraction
      ('e' :: (if leading < 0 then '-' else '+') :: Text.digits leading.natAbs) =
        .ok (⟨negative, whole, fraction, some (leading < 0, Text.digits leading.natAbs)⟩, []) := by
    intro whole fraction
    simpa using scanTail_exponent (run_digits leading.natAbs) (decide (leading < 0)) whole fraction
  have hmark : NoDigit ('e' :: (if leading < 0 then '-' else '+') :: Text.digits leading.natAbs) :=
    noDigit_cons (by decide) _
  obtain ⟨d, r, rfl⟩ := List.exists_cons_of_ne_nil W.ne_nil
  cases r with
  | nil =>
      refine .whole W hmark ((scanFraction_end ?_).trans (hexponent [d] none))
      intro c cs h
      cases h
      decide
  | cons e r =>
      have hd : Whole [d] := by
        refine ⟨⟨by simp, fun c hc => W.isDigit c (by simp_all)⟩, .inl ?_⟩
        simpa using hhead
      have hr : Run (e :: r) := ⟨by simp, fun c hc => W.isDigit c (List.mem_cons_of_mem _ hc)⟩
      have hpoint := (scanFraction_run negative hr hmark [d]).trans (hexponent _ _)
      exact (Scanned.whole hd (noDigit_cons (by decide) _) hpoint :)

theorem digits_shortest_ne (tie : Binary64.Tie) {x : Binary64} (hx : x.significand ≠ 0) :
    Text.digits (Binary64.shortest tie x).coefficient ≠ ['0'] := by
  intro hzero
  refine Text.head?_digits_ne _ (Binary64.shortest_ne_zero tie hx) ?_
  rw [hzero]
  rfl

/-- What is printed for the magnitude of a double is a literal, in every layout. -/
theorem scanned_magnitude (layout : Binary64.Layout) (x : Binary64) :
    ∃ l, Scanned negative (if x.significand = 0 then
      Binary64.positionalText layout.markWhole ['0'] 0 else layout.magnitudeText x) l := by
  split
  next =>
    obtain ⟨l, hl, -⟩ := scanned_positionalText layout.markWhole (whole_digits 0) 0 fun _ => rfl
    exact ⟨l, hl⟩
  next hx =>
    have hne : Text.digits (Binary64.shortest layout.tie x).coefficient ≠ ['0'] :=
      digits_shortest_ne layout.tie hx
    have hpositional : ∀ leading, ∃ l, Scanned negative (Binary64.positionalText
        layout.markWhole (Text.digits (Binary64.shortest layout.tie x).coefficient) leading) l := by
      intro leading
      obtain ⟨l, hl, -⟩ := scanned_positionalText layout.markWhole (whole_digits _) leading
        fun h => absurd h hne
      exact ⟨l, hl⟩
    unfold Binary64.Layout.magnitudeText
    simp only
    split
    · exact hpositional _
    · split
      · exact hpositional _
      · exact ⟨_, scanned_scientificText (whole_digits _) hne _⟩

end Literal

/-- **What is printed for a number is a literal**, whether or not it is read back. -/
theorem Number.scanned (n : Number) :
    ∃ negative body l, n.text = (if negative then '-' :: body else body) ∧
      Literal.Scanned negative body l := by
  cases n with
  | integer i fits =>
      obtain ⟨c, r, hcr⟩ := List.exists_cons_of_ne_nil (Text.digits_ne_nil i.natAbs)
      refine ⟨decide (i < 0), Text.digits i.natAbs, _, ?_, ⟨c, r, hcr, ?_⟩,
        Literal.scan_digits _ _⟩
      · show integerText i = _
        unfold integerText
        by_cases hi : i < 0 <;> simp [hi]
      · exact Text.isDigit_of_mem_digits (hcr ▸ List.mem_cons_self)
  | float x =>
      obtain ⟨l, hl⟩ := Literal.scanned_magnitude Binary64.Layout.document x
      exact ⟨x.negative, _, l, rfl, hl⟩

end Json

end Upkeep
