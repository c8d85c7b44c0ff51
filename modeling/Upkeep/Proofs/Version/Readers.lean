/-
The two readers of versions.

A version is read in two ways: strictly, or as what a range stands for.  The second way has two
routes itself, the strict grammar on the text without its leading signs, and the first numbers
of the text as it is.  Which of them is taken depends on what stands behind the numbers, and
hardly anything else does: a text that the strict grammar accepts starts with the numbers of its
version, and neither the signs that were taken off nor the blanks around it hold a digit.  So
both routes come to the same three numbers (`firstNumbers?_of_coerce?`), and what is left to say
is which numbers stand first in a text.
-/
import Upkeep.Proofs.Json.Number
import Upkeep.Proofs.Text.Digits
import Upkeep.Proofs.Text.Lines
import Upkeep.Version.Coercion

namespace Upkeep

namespace Text

variable {c : Char}

/-- The code points of blanks. -/
def blankCodes : List Nat :=
  [9, 10, 11, 12, 13, 0x20, 0x85, 0xa0, 0x1680, 0x2000, 0x2001, 0x2002, 0x2003, 0x2004, 0x2005,
   0x2006, 0x2007, 0x2008, 0x2009, 0x200a, 0x2028, 0x2029, 0x202f, 0x205f, 0x3000]

theorem mem_blankCodes (h : isBlank c = true) : c.toNat ∈ blankCodes := by
  simp only [isBlank, Bool.or_eq_true, Bool.and_eq_true, decide_eq_true_eq, beq_iff_eq] at h
  simp only [blankCodes, List.mem_cons, List.not_mem_nil, or_false]
  omega

/-- No blank is a digit. -/
theorem isDigit_of_isBlank (h : isBlank c = true) : isDigit c = false := by
  have hnone : ∀ n ∈ blankCodes, isDigit (Char.ofNat n) = false := by decide +kernel
  rw [← Char.ofNat_toNat c]
  exact hnone _ (mem_blankCodes h)

end Text

namespace Version

variable {cs rest front : List Char} {v w : Version} {n major minor patch : Nat}

/-- No digit of any script stands first. -/
def NoDigit (cs : List Char) : Prop := ∀ c, cs.head? = some c → Text.isDigit c = false

/-! ### What the strict grammar accepts -/

theorem word64?_eq_some_iff : word64? cs = some n ↔
    cs ≠ [] ∧ (∀ c ∈ cs, c.isDigit = true) ∧ Text.valueOfDigits cs = n ∧ n < UInt64.size := by
  unfold word64? Text.natural?
  rw [Option.filter_eq_some_iff, Option.ite_none_right_eq_some, List.all_eq_true]
  simp only [Option.some.injEq, decide_eq_true_eq, and_assoc]

theorem word64?_digits (h : n < UInt64.size) : word64? (Text.digits n) = some n :=
  word64?_eq_some_iff.mpr ⟨Text.digits_ne_nil n, fun _ => Text.isDigit_of_mem_digits,
    Text.valueOfDigits_digits n, h⟩

/-- A number that was taken further is the run of digits in front of what is left. -/
theorem scanNumber_ok {part : Part} {value : Nat} {started : Bool} (hvalue : value < UInt64.size)
    (h : scanNumber part value started cs = .ok (n, rest)) :
    ∃ run, cs = run ++ rest ∧ (started = false → run ≠ []) ∧ (∀ c ∈ run, c.isDigit = true) ∧
      run.foldl (fun n c => 10 * n + Text.digitValue c) value = n ∧ n < UInt64.size := by
  induction cs generalizing value started with
  | nil =>
      unfold scanNumber at h
      split at h
      next hstarted =>
        cases h
        exact ⟨[], rfl, fun hc => absurd hc (by simp [hstarted]), by simp, rfl, hvalue⟩
      next => cases h
  | cons c cs ih =>
      unfold scanNumber at h
      split at h
      next hdigit =>
        split at h
        · cases h
        simp only at h
        split at h
        · cases h
        next hsmall =>
          obtain ⟨run, rfl, -, hrun, hfold, hn⟩ := ih (Nat.lt_of_not_le hsmall) h
          exact ⟨c :: run, rfl, fun _ => by simp, List.forall_mem_cons.mpr ⟨hdigit, hrun⟩, hfold,
            hn⟩
      next =>
        split at h
        next hstarted =>
          cases h
          exact ⟨[], rfl, fun hc => absurd hc (by simp [hstarted]), by simp, rfl, hvalue⟩
        next => cases h

/-- A number that was taken stands in front of what is left. -/
theorem exists_word_of_scanNumber {part : Part} (h : scanNumber part 0 false cs = .ok (n, rest)) :
    ∃ run, cs = run ++ rest ∧ word64? run = some n := by
  obtain ⟨run, hcs, hne, hrun, hfold, hn⟩ := scanNumber_ok (by decide) h
  exact ⟨run, hcs, word64?_eq_some_iff.mpr ⟨hne rfl, hrun, hfold, hn⟩⟩

theorem scanPoint_ok {part : Part} (h : scanPoint part cs = .ok rest) : cs = '.' :: rest := by
  unfold scanPoint at h
  split at h
  · cases h
  · split at h
    next hpoint =>
      cases h
      rw [hpoint]
    next => cases h

/-- What follows the three numbers keeps them, and starts with a sign of its own. -/
theorem scanBuild_ok {last : Part} (h : scanBuild last v cs = .ok w) :
    release w.major w.minor w.patch = release v.major v.minor v.patch ∧
      (cs = [] ∨ cs.head? = some '+') := by
  unfold scanBuild at h
  split at h
  · cases h
    exact ⟨rfl, .inl rfl⟩
  · split at h
    next hplus =>
      obtain ⟨⟨build, left⟩, -, h⟩ := Except.bind_ok h
      simp only at h
      split at h
      · cases h
        exact ⟨rfl, .inr (by rw [hplus]; rfl)⟩
      · cases h
    next => cases h

theorem scanPre_ok (h : scanPre v cs = .ok w) :
    release w.major w.minor w.patch = release v.major v.minor v.patch ∧ NoDigit cs := by
  unfold scanPre at h
  split at h
  next cs =>
    obtain ⟨⟨pre, left⟩, -, h⟩ := Except.bind_ok h
    refine ⟨(scanBuild_ok h).1, fun c hc => ?_⟩
    cases hc
    decide
  next =>
    obtain ⟨hsame, hrest⟩ := scanBuild_ok h
    refine ⟨hsame, fun c hc => ?_⟩
    rcases hrest with rfl | hplus
    · cases hc
    · rw [hplus] at hc
      cases hc
      decide

/-- Three numbers with points between them, and a rest that does not go on with a digit. -/
structure Numbers (cs : List Char) (major minor patch : Nat) (rest : List Char) : Prop where
  split : ∃ x y z, cs = x ++ '.' :: (y ++ '.' :: (z ++ rest)) ∧ word64? x = some major ∧
    word64? y = some minor ∧ word64? z = some patch
  noDigit : NoDigit rest

/-- **A text that the strict grammar accepts starts with the numbers of its version.** -/
theorem numbers_of_parse (h : parse cs = .ok v) :
    ∃ rest, Numbers cs v.major v.minor v.patch rest := by
  unfold parse at h
  split at h
  · cases h
  obtain ⟨⟨a, _⟩, hmajor, h₁⟩ := Except.bind_ok h
  obtain ⟨_, hpoint, h₂⟩ := Except.bind_ok h₁
  obtain ⟨⟨b, _⟩, hminor, h₃⟩ := Except.bind_ok h₂
  obtain ⟨_, hpoint', h₄⟩ := Except.bind_ok h₃
  obtain ⟨⟨c, rest⟩, hpatch, h₅⟩ := Except.bind_ok h₄
  obtain ⟨hsame, hrest⟩ := scanPre_ok h₅
  obtain ⟨x, rfl, hx⟩ := exists_word_of_scanNumber hmajor
  obtain rfl := scanPoint_ok hpoint
  obtain ⟨y, rfl, hy⟩ := exists_word_of_scanNumber hminor
  obtain rfl := scanPoint_ok hpoint'
  obtain ⟨z, rfl, hz⟩ := exists_word_of_scanNumber hpatch
  obtain ⟨ha, hb, hc⟩ : v.major = a ∧ v.minor = b ∧ v.patch = c := by simpa [release] using hsame
  exact ⟨rest, ⟨x, y, z, rfl, ha ▸ hx, hb ▸ hy, hc ▸ hz⟩, hrest⟩

/-! ### The first numbers of a text -/

/-- What stands in front of the first digit has no say. -/
theorem firstNumbers?_append (hfront : ∀ c ∈ front, Text.isDigit c = false) (cs : List Char) :
    firstNumbers? (front ++ cs) = firstNumbers? cs := by
  unfold firstNumbers?
  rw [List.dropWhile_append_of_pos fun c hc => by simp [hfront c hc]]

theorem takeWhile_word (hword : word64? cs = some n) (hrest : NoDigit rest) :
    (cs ++ rest).takeWhile Text.isDigit = cs ∧ (cs ++ rest).dropWhile Text.isDigit = rest := by
  obtain ⟨-, hdigits, -⟩ := word64?_eq_some_iff.mp hword
  have hrun : ∀ c ∈ cs, Text.isDigit c = true := fun c hc => Text.isDigit_of_ascii (hdigits c hc)
  rw [List.takeWhile_append_of_pos hrun, List.dropWhile_append_of_pos hrun]
  cases rest with
  | nil => simp
  | cons c rest => simp [hrest c rfl]

/-- Behind a point a number is taken up to its last digit. -/
theorem nextRun_word (hword : word64? cs = some n) (hrest : NoDigit rest) :
    nextRun ('.' :: (cs ++ rest)) = (cs, rest) ∧ partValue? cs = some n := by
  obtain ⟨htake, hdrop⟩ := takeWhile_word hword hrest
  obtain ⟨hne, -⟩ := word64?_eq_some_iff.mp hword
  unfold nextRun partValue?
  simp only [htake, hdrop]
  rw [if_neg hne, if_neg hne]
  exact ⟨rfl, hword⟩

/-- **The numbers that a text starts with are its first numbers.** -/
theorem Numbers.firstNumbers? (h : Numbers cs major minor patch rest) :
    Version.firstNumbers? cs = some (release major minor patch) := by
  obtain ⟨⟨x, y, z, rfl, hx, hy, hz⟩, hrest⟩ := h
  have hpoint : ∀ ds : List Char, NoDigit ('.' :: ds) := by
    intro ds c hc
    cases hc
    decide
  obtain ⟨htake, hdrop⟩ := takeWhile_word hx (hpoint (y ++ '.' :: (z ++ rest)))
  obtain ⟨hnextMinor, hminor⟩ := nextRun_word hy (hpoint (z ++ rest))
  obtain ⟨hnextPatch, hpatch⟩ := nextRun_word hz hrest
  -- The text starts with a digit, so nothing is skipped.
  have hstart : (x ++ '.' :: (y ++ '.' :: (z ++ rest))).dropWhile (fun c => !Text.isDigit c) =
      x ++ '.' :: (y ++ '.' :: (z ++ rest)) := by
    obtain ⟨hne, hdigits, -⟩ := word64?_eq_some_iff.mp hx
    obtain ⟨c, ds, rfl⟩ := List.exists_cons_of_ne_nil hne
    simp [Text.isDigit_of_ascii (hdigits c List.mem_cons_self)]
  unfold Version.firstNumbers?
  simp only [hstart, htake, hdrop, hnextMinor, hnextPatch, hx, hminor, hpatch, Option.bind_eq_bind,
    Option.bind_some, Option.pure_def]

theorem Numbers.append (h : Numbers cs major minor patch rest) {back : List Char}
    (hback : NoDigit back) : Numbers (cs ++ back) major minor patch (rest ++ back) := by
  obtain ⟨⟨x, y, z, rfl, hx, hy, hz⟩, hrest⟩ := h
  refine ⟨⟨x, y, z, by simp, hx, hy, hz⟩, ?_⟩
  cases rest with
  | nil => exact hback
  | cons c rest => exact fun d hd => hrest d hd

/-- The first numbers of a text make a release. -/
theorem release_of_firstNumbers? (h : firstNumbers? cs = some v) :
    release v.major v.minor v.patch = v := by
  unfold firstNumbers? at h
  simp only [Option.bind_eq_bind, Option.bind_eq_some_iff, Option.pure_def, Option.some.injEq] at h
  obtain ⟨a, -, b, -, c, -, rfl⟩ := h
  rfl

/-! ### Both routes -/

/-- The signs in front of a version that a range may have. -/
def isSign (c : Char) : Bool := c = '=' || c = 'v'

/-- What the strict grammar is tried on has lost no digit in front and nothing but blanks
behind. -/
theorem exists_eq_append_cleaned (cs : List Char) :
    ∃ front back, cs = front ++ (Text.trim cs).dropWhile isSign ++ back ∧
      (∀ c ∈ front, Text.isDigit c = false) ∧ ∀ c ∈ back, Text.isBlank c = true := by
  refine ⟨cs.takeWhile Text.isBlank ++ (Text.trim cs).takeWhile isSign,
    ((Text.trimStart cs).reverse.takeWhile Text.isBlank).reverse, ?_, ?_, ?_⟩
  · rw [List.append_assoc, List.append_assoc, ← List.append_assoc (List.takeWhile isSign _),
      List.takeWhile_append_dropWhile]
    unfold Text.trim
    rw [Text.trimEnd_append_takeWhile]
    exact (List.takeWhile_append_dropWhile).symm
  · rw [List.forall_mem_append]
    refine ⟨fun c hc => Text.isDigit_of_isBlank (List.mem_takeWhile_imp hc), fun c hc => ?_⟩
    have hsign : isSign c = true := List.mem_takeWhile_imp hc
    unfold isSign at hsign
    rw [Bool.or_eq_true, decide_eq_true_eq, decide_eq_true_eq] at hsign
    rcases hsign with rfl | rfl
    · decide
    · decide
  · exact fun c hc => List.mem_takeWhile_imp (List.mem_reverse.mp hc)

theorem coerce?_eq (text : String) :
    coerce? text = match parse ((Text.trim text.toList).dropWhile isSign) with
      | .ok v => some v
      | .error _ => firstNumbers? text.toList := rfl

/-- **By either route a text stands for a version with the numbers that stand first in it.** -/
theorem firstNumbers?_of_coerce? {text : String} (h : coerce? text = some v) :
    firstNumbers? text.toList = some (release v.major v.minor v.patch) := by
  rw [coerce?_eq] at h
  split at h
  next w hparse =>
    cases h
    obtain ⟨rest, hnumbers⟩ := numbers_of_parse hparse
    obtain ⟨front, back, htext, hfront, hback⟩ := exists_eq_append_cleaned text.toList
    have hnoDigit : NoDigit back := fun c hc =>
      Text.isDigit_of_isBlank (hback c (List.mem_of_head? hc))
    rw [htext, List.append_assoc, firstNumbers?_append hfront]
    exact (hnumbers.append hnoDigit).firstNumbers?
  next => rw [release_of_firstNumbers? h, h]

/-- A text with first numbers stands for a version that has them. -/
theorem exists_coerce?_of_firstNumbers? {text : String}
    (h : firstNumbers? text.toList = some (release major minor patch)) :
    ∃ v, coerce? text = some v ∧ v.major = major ∧ v.minor = minor ∧ v.patch = patch := by
  have hsome : ∃ v, coerce? text = some v := by
    rw [coerce?_eq]
    split
    next v _ => exact ⟨v, rfl⟩
    next => exact ⟨_, h⟩
  obtain ⟨v, hv⟩ := hsome
  have hsame := (firstNumbers?_of_coerce? hv).symm.trans h
  exact ⟨v, hv, by simpa [release] using hsame⟩

/-- A text that the strict grammar accepts starts with a digit, so no sign is taken off. -/
theorem dropWhile_isSign_of_parse (h : parse cs = .ok v) : cs.dropWhile isSign = cs := by
  obtain ⟨rest, ⟨x, y, z, rfl, hx, -⟩, -⟩ := numbers_of_parse h
  obtain ⟨hne, hdigits, -⟩ := word64?_eq_some_iff.mp hx
  obtain ⟨c, ds, rfl⟩ := List.exists_cons_of_ne_nil hne
  refine List.dropWhile_cons_of_neg fun hsign => ?_
  have hdigit := hdigits c List.mem_cons_self
  unfold isSign at hsign
  rw [Bool.or_eq_true, decide_eq_true_eq, decide_eq_true_eq] at hsign
  rcases hsign with rfl | rfl
  · cases hdigit
  · cases hdigit

/-- What is read strictly stands for the version that was read. -/
theorem coerce?_of_read {text : String} (h : read text = .ok v) : coerce? text = some v := by
  have hcleaned : ∃ cs, (Text.trim text.toList).dropWhile isSign = cs ∧ parse cs = .ok v := by
    unfold read at h
    split at h
    next cs htrim =>
      refine ⟨cs, ?_, h⟩
      rw [htrim, List.dropWhile_cons_of_pos (by decide), dropWhile_isSign_of_parse h]
    next => exact ⟨_, dropWhile_isSign_of_parse h, h⟩
  obtain ⟨cs, hcs, hparse⟩ := hcleaned
  rw [coerce?_eq, hcs, hparse]

theorem numbers_release (hmajor : major < UInt64.size) (hminor : minor < UInt64.size)
    (hpatch : patch < UInt64.size) {back : List Char} (hback : NoDigit back) :
    Numbers (s!"{major}.{minor}.{patch}".toList ++ back) major minor patch back := by
  refine ⟨⟨Text.digits major, Text.digits minor, Text.digits patch, ?_, word64?_digits hmajor,
    word64?_digits hminor, word64?_digits hpatch⟩, hback⟩
  simp [toString, Nat.repr, Text.digits]

/-- **The two readers of versions agree.**  Whatever the strict one reads the other one reads as
the same version.  And three numbers of 64 bits with points between them are the numbers of the
version that the other one reads, with anything in front that holds no digit and anything behind
that does not go on with one, be it a pre-release, build metadata or neither. -/
theorem readers_agree :
    (∀ text v, read text = .ok v → coerce? text = some v) ∧
    ∀ (front back : String) (major minor patch : Nat),
      major < UInt64.size → minor < UInt64.size → patch < UInt64.size →
      (∀ c ∈ front.toList, Text.isDigit c = false) → NoDigit back.toList →
      ∃ v, coerce? (front ++ s!"{major}.{minor}.{patch}" ++ back) = some v ∧
        v.major = major ∧ v.minor = minor ∧ v.patch = patch := by
  refine ⟨fun _ _ => coerce?_of_read, fun front back major minor patch hmajor hminor hpatch
    hfront hback => exists_coerce?_of_firstNumbers? ?_⟩
  rw [String.toList_append, String.toList_append, List.append_assoc, firstNumbers?_append hfront]
  exact (numbers_release hmajor hminor hpatch hback).firstNumbers?

/-- A release candidate between blanks, and a range of a workspace with the largest number. -/
theorem readers_agree_workspace :
    let candidate : Version := ⟨1, 2, 3, [.word "rc".toList, .number 1], ["05".toList]⟩
    read " v1.2.3-rc.1+05\n" = .ok candidate ∧ coerce? " v1.2.3-rc.1+05\n" = some candidate ∧
      ∃ v, coerce? "workspace:^18446744073709551615.0.7.4-beta" = some v ∧
        v.major = 18446744073709551615 ∧ v.minor = 0 ∧ v.patch = 7 := by
  intro candidate
  obtain ⟨hsame, hnumbers⟩ := readers_agree
  have hread : read " v1.2.3-rc.1+05\n" = .ok candidate := by decide +kernel
  have hnone : ("workspace:^".toList.all fun c => !Text.isDigit c) = true := by decide +kernel
  have hfront : ∀ c ∈ "workspace:^".toList, Text.isDigit c = false :=
    fun c hc => by simpa using List.all_eq_true.mp hnone c hc
  have hback : NoDigit ".4-beta".toList := by
    intro c hc
    cases hc
    decide
  exact ⟨hread, hsame _ _ hread, hnumbers "workspace:^" ".4-beta" 18446744073709551615 0 7
    (by decide) (by decide) (by decide) hfront hback⟩

end Version

end Upkeep
