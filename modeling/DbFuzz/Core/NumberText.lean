import DbFuzz.Core.Number
import Mathlib.Algebra.Order.Floor.Semifield
import Mathlib.Data.Rat.Floor
import Mathlib.Tactic.Ring

/-! The texts `is_number` accepts, and what `nomoalize_content` makes of them
(`general_process.cc`). -/

namespace DbFuzz

/-! `std::stod`. -/

/-- The exponent that follows a literal, if there is one. -/
def exponentPrefix : List Char → ℤ
  | c :: rest =>
    let body := if rest.head?.any isSignChar then rest.tail else rest
    let digits := body.takeWhile isDigitChar
    if (c = 'e' ∨ c = 'E') ∧ digits ≠ [] then
      if rest.head? = some '-' then -(Nat.ofDigitChars 10 digits 0 : ℤ)
      else Nat.ofDigitChars 10 digits 0
    else 0
  | [] => 0

/-- The longest decimal literal at the start, behind blanks; `none` for `invalid_argument`. The
other forms of a number (hexadecimal, infinity, NaN) have letters. -/
def stod (str : String) : Option Decimal :=
  let cs := str.toList.dropWhile isSpaceChar
  let body := if cs.head?.any isSignChar then cs.tail else cs
  let whole := body.takeWhile isDigitChar
  let (frac, rest) := splitPoint (body.dropWhile isDigitChar)
  if whole ++ frac = [] then none
  else some ⟨cs.head? = some '-', Nat.ofDigitChars 10 (whole ++ frac) 0,
    exponentPrefix rest - frac.length⟩

def Decimal.abs (d : Decimal) : ℚ := d.mant * 10 ^ d.exp

/-- `round(value * 100)` without its sign: half away from zero. -/
def Decimal.hundredths (d : Decimal) : ℕ := ⌊d.abs * 100 + 1 / 2⌋₊

/-! The grammar. -/

/-- Digits with points between them. -/
def DigitOrPoint (c : Char) : Prop := c = '.' ∨ isDigitChar c = true

/-- A single digit; or two and more characters, an optional sign in front of a digit that digits
with at most one point follow, or a point that digits follow. -/
def NumberText (cs : List Char) : Prop :=
  (∃ d, cs = [d] ∧ isDigitChar d = true) ∨
    2 ≤ cs.length ∧
      ((∃ sign d rest, cs = sign ++ d :: rest ∧ (sign = [] ∨ ∃ c, sign = [c] ∧ isSignChar c = true) ∧
          isDigitChar d = true ∧ (∀ c ∈ rest, DigitOrPoint c) ∧ rest.count '.' ≤ 1) ∨
        ∃ rest, cs = '.' :: rest ∧ rest ≠ [] ∧ ∀ c ∈ rest, isDigitChar c = true)

theorem count_point_eq_zero {cs : List Char} :
    cs.count '.' = 0 ∧ (∀ c ∈ cs, DigitOrPoint c) ↔ ∀ c ∈ cs, isDigitChar c = true := by
  rw [List.count_eq_zero]
  constructor
  · rintro ⟨hpoint, hall⟩ c hc
    exact (hall c hc).resolve_left fun h => hpoint (h ▸ hc)
  · intro hall
    exact ⟨fun hmem => absurd (hall _ hmem) (by decide), fun c hc => Or.inr (hall c hc)⟩

theorem not_sign_of_digit {c : Char} (h : isDigitChar c = true) : c ≠ '.' ∧ isSignChar c = false :=
  ⟨by rintro rfl; exact absurd h (by decide), isSignChar_of_isDigitChar h⟩

/-- The checks of `is_number` on two and more characters. -/
theorem isNumber_cons_cons {s : String} {c0 c1 : Char} {rest : List Char}
    (hs : s.toList = c0 :: c1 :: rest) :
    isNumber s = true ↔ (c0 = '.' ∨ isDigitChar c0 = true ∨ isSignChar c0 = true) ∧
      (isSignChar c0 = true → isDigitChar c1 = true) ∧ (∀ c ∈ c1 :: rest, DigitOrPoint c) ∧
      (c0 :: c1 :: rest).count '.' ≤ 1 := by
  have htail : ((c1 :: rest).any fun c => c ≠ '.' && !isDigitChar c) = true ↔
      ¬ ∀ c ∈ c1 :: rest, DigitOrPoint c := by
    have hchar : ∀ c, (c ≠ '.' && !isDigitChar c) = true ↔ ¬ DigitOrPoint c := by
      simp [DigitOrPoint]
    rw [List.any_eq_true]
    constructor
    · rintro ⟨c, hc, hbad⟩ hall
      exact (hchar c).1 hbad (hall c hc)
    · intro h
      by_contra hnone
      exact h fun c hc => by_contra fun hbad => hnone ⟨c, hc, (hchar c).2 hbad⟩
  have hfirst : (c0 ≠ '.' && !isDigitChar c0 && !isSignChar c0) = true ↔
      ¬ (c0 = '.' ∨ isDigitChar c0 = true ∨ isSignChar c0 = true) := by
    simp [and_assoc]
  have hsign : (isSignChar c0 && !isDigitChar c1) = true ↔
      ¬ (isSignChar c0 = true → isDigitChar c1 = true) := by
    simp
  rw [isNumber, hs]
  dsimp only
  by_cases h1 : c0 = '.' ∨ isDigitChar c0 = true ∨ isSignChar c0 = true
  · rw [if_neg (fun h => hfirst.1 h h1)]
    by_cases h2 : isSignChar c0 = true → isDigitChar c1 = true
    · rw [if_neg (fun h => hsign.1 h h2)]
      by_cases h3 : ∀ c ∈ c1 :: rest, DigitOrPoint c
      · rw [if_neg (fun h => htail.1 h h3), decide_eq_true_eq]
        exact ⟨fun h => ⟨h1, h2, h3, h⟩, fun h => h.2.2.2⟩
      · rw [if_pos (htail.2 h3)]
        exact iff_of_false Bool.false_ne_true fun h => h3 h.2.2.1
    · rw [if_pos (hsign.2 h2)]
      exact iff_of_false Bool.false_ne_true fun h => h2 h.2.1
  · rw [if_pos (hfirst.2 h1)]
    exact iff_of_false Bool.false_ne_true fun h => h1 h.1

theorem isNumber_iff (s : String) : isNumber s = true ↔ NumberText s.toList := by
  cases hs : s.toList with
  | nil =>
    rw [isNumber, hs]
    simp [NumberText]
  | cons c0 cs =>
    cases cs with
    | nil =>
      rw [isNumber, hs]
      simp [NumberText]
    | cons c1 rest =>
      rw [isNumber_cons_cons hs]
      constructor
      · rintro ⟨h0, hsign, hall, hcount⟩
        refine Or.inr ⟨by simp, ?_⟩
        rcases h0 with rfl | hdigit | hsigned
        · rw [List.count_cons_self] at hcount
          exact Or.inr ⟨_, rfl, List.cons_ne_nil _ _,
            count_point_eq_zero.1 ⟨by omega, hall⟩⟩
        · obtain ⟨hpoint, -⟩ := not_sign_of_digit hdigit
          rw [List.count_cons_of_ne hpoint] at hcount
          exact Or.inl ⟨[], c0, _, rfl, Or.inl rfl, hdigit, hall, hcount⟩
        · have hdigit := hsign hsigned
          have hpoint : c0 ≠ '.' := by
            rintro rfl
            exact absurd hsigned (by decide)
          rw [List.count_cons_of_ne hpoint, List.count_cons_of_ne (not_sign_of_digit hdigit).1]
            at hcount
          exact Or.inl ⟨[c0], c1, rest, rfl, Or.inr ⟨c0, rfl, hsigned⟩, hdigit,
            fun c hc => hall c (List.mem_cons_of_mem _ hc), hcount⟩
      · rintro (⟨d, hone, -⟩ | ⟨-, ⟨sign, d, tail, heq, hform, hdigit, hall, hcount⟩ |
          ⟨tail, heq, -, hall⟩⟩)
        · cases hone
        · obtain ⟨hpoint, hnot⟩ := not_sign_of_digit hdigit
          rcases hform with rfl | ⟨c, rfl, hsigned⟩
          · cases heq
            refine ⟨Or.inr (Or.inl hdigit), fun h => absurd (h.symm.trans hnot) (by decide), hall, ?_⟩
            rw [List.count_cons_of_ne hpoint]
            exact hcount
          · cases heq
            have hpoint' : c0 ≠ '.' := by
              rintro rfl
              exact absurd hsigned (by decide)
            refine ⟨Or.inr (Or.inr hsigned), fun _ => hdigit,
              List.forall_mem_cons.2 ⟨Or.inr hdigit, hall⟩, ?_⟩
            rw [List.count_cons_of_ne hpoint', List.count_cons_of_ne hpoint]
            exact hcount
        · cases heq
          obtain ⟨hzero, hall'⟩ := count_point_eq_zero.2 hall
          refine ⟨Or.inl rfl, fun h => absurd h (by decide), hall', ?_⟩
          rw [List.count_cons_self, hzero]

/-! Numbers with a point. -/

/-- A number text with a point, cut at its sign and its point. -/
structure Parts (cs sign whole frac : List Char) : Prop where
  eq : cs = sign ++ (whole ++ '.' :: frac)
  signed : sign = [] ∨ ∃ c, sign = [c] ∧ isSignChar c = true
  wholeDigits : ∀ c ∈ whole, isDigitChar c = true
  fracDigits : ∀ c ∈ frac, isDigitChar c = true
  digits : whole ++ frac ≠ []

theorem NumberText.parts {cs : List Char} (h : NumberText cs) (hpoint : '.' ∈ cs) :
    ∃ sign whole frac, Parts cs sign whole frac := by
  rcases h with ⟨d, rfl, hdigit⟩ | ⟨-, ⟨sign, d, rest, rfl, hsign, hdigit, hall, hcount⟩ |
    ⟨rest, rfl, hne, hall⟩⟩
  · obtain rfl := List.mem_singleton.1 hpoint
    exact absurd hdigit (by decide)
  · have hrest : '.' ∈ rest := by
      rcases List.mem_append.1 hpoint with hmem | hmem
      · rcases hsign with rfl | ⟨c, rfl, hc⟩
        · cases hmem
        · obtain rfl := List.mem_singleton.1 hmem
          exact absurd hc (by decide)
      · exact (List.mem_cons.1 hmem).resolve_left (not_sign_of_digit hdigit).1.symm
    obtain ⟨r1, r2, rfl⟩ := List.append_of_mem hrest
    rw [List.count_append, List.count_cons_self] at hcount
    refine ⟨sign, d :: r1, r2, rfl, hsign, List.forall_mem_cons.2 ⟨hdigit, ?_⟩, ?_,
      List.cons_ne_nil _ _⟩
    · exact count_point_eq_zero.1 ⟨by omega, fun c hc => hall c (List.mem_append_left _ hc)⟩
    · exact count_point_eq_zero.1 ⟨by omega, fun c hc =>
        hall c (List.mem_append_right _ (List.mem_cons_of_mem _ hc))⟩
  · exact ⟨[], [], rest, rfl, Or.inl rfl, by simp, hall, hne⟩

namespace Parts

variable {cs sign whole frac : List Char}

theorem numberText (h : Parts cs sign whole frac) (hwhole : whole ≠ []) : NumberText cs := by
  obtain ⟨d, w, rfl⟩ := List.exists_cons_of_ne_nil hwhole
  obtain ⟨hd, hw⟩ := List.forall_mem_cons.1 h.wholeDigits
  obtain ⟨hwcount, hwall⟩ := count_point_eq_zero.2 hw
  obtain ⟨hfcount, hfall⟩ := count_point_eq_zero.2 h.fracDigits
  refine Or.inr ⟨by rw [h.eq]; simp; omega, Or.inl ⟨sign, d, w ++ '.' :: frac, h.eq, h.signed, hd, ?_, ?_⟩⟩
  · exact List.forall_mem_append.2 ⟨hwall, List.forall_mem_cons.2 ⟨Or.inl rfl, hfall⟩⟩
  · rw [List.count_append, List.count_cons_self, hwcount, hfcount]

/-- The text behind the sign starts with no sign. -/
theorem head_rest (h : Parts cs sign whole frac) :
    (whole ++ '.' :: frac).head?.any isSignChar = false := by
  cases whole with
  | nil => rfl
  | cons d w => exact (not_sign_of_digit (h.wholeDigits d List.mem_cons_self)).2

theorem unsigned_eq (h : Parts cs sign whole frac) :
    (if cs.head?.any isSignChar then cs.tail else cs) = whole ++ '.' :: frac := by
  have hhead := h.head_rest
  rw [h.eq]
  rcases h.signed with rfl | ⟨c, rfl, hc⟩
  · rw [List.nil_append, hhead, if_neg Bool.false_ne_true]
  · simp [hc]

theorem negative_iff (h : Parts cs sign whole frac) : cs.head? = some '-' ↔ sign = ['-'] := by
  have hhead := h.head_rest
  rw [h.eq]
  rcases h.signed with rfl | ⟨c, rfl, hc⟩
  · rw [List.nil_append]
    refine iff_of_false (fun heq => ?_) (by simp)
    rw [heq] at hhead
    exact absurd hhead (by decide)
  · simp

theorem dropWhile_space (h : Parts cs sign whole frac) : cs.dropWhile isSpaceChar = cs := by
  have hfirst : ∀ c ∈ cs.head?, isSpaceChar c = false := by
    rw [h.eq]
    rcases h.signed with rfl | ⟨c, rfl, hc⟩
    · cases whole with
      | nil => simp; decide
      | cons d w => simpa using isSpaceChar_of_isDigitChar (h.wholeDigits d List.mem_cons_self)
    · simp only [isSignChar, Bool.or_eq_true, beq_iff_eq] at hc
      rcases hc with rfl | rfl <;> simp <;> decide
  cases cs with
  | nil => rfl
  | cons c rest => rw [List.dropWhile_cons_of_neg (by simp [hfirst c rfl])]

/-- Up to the point, and behind it. -/
theorem takeWhile_digit (h : Parts cs sign whole frac) :
    (whole ++ '.' :: frac).takeWhile isDigitChar = whole ∧
      splitPoint ((whole ++ '.' :: frac).dropWhile isDigitChar) = (frac, []) := by
  have hpoint : isDigitChar '.' = false := by decide
  rw [List.takeWhile_append_of_pos h.wholeDigits, List.dropWhile_append_of_pos h.wholeDigits,
    List.takeWhile_cons_of_neg (by simp [hpoint]), List.dropWhile_cons_of_neg (by simp [hpoint]),
    List.append_nil, splitPoint, List.takeWhile_eq_self_iff.2 h.fracDigits,
    List.dropWhile_eq_nil_iff.2 h.fracDigits]
  exact ⟨rfl, rfl⟩

theorem takeWhile_ne_point (h : Parts cs sign whole frac) :
    (whole ++ '.' :: frac).takeWhile (· ≠ '.') = whole ∧
      ((whole ++ '.' :: frac).dropWhile (· ≠ '.')).tail = frac := by
  have hwhole : ∀ c ∈ whole, (decide (c ≠ '.')) = true :=
    fun c hc => decide_eq_true (not_sign_of_digit (h.wholeDigits c hc)).1
  rw [List.takeWhile_append_of_pos hwhole, List.dropWhile_append_of_pos hwhole]
  simp

/-- `stod` reads the whole text. -/
theorem stod_eq {s : String} (h : Parts s.toList sign whole frac) :
    stod s = some ⟨sign = ['-'], Nat.ofDigitChars 10 (whole ++ frac) 0, -frac.length⟩ := by
  unfold stod
  rw [h.dropWhile_space]
  dsimp only
  rw [h.unsigned_eq, h.takeWhile_digit.1, h.takeWhile_digit.2]
  dsimp only
  rw [if_neg h.digits, exponentPrefix, zero_sub]
  simp only [h.negative_iff]

theorem roundToHundredths_eq {s : String} (h : Parts s.toList sign whole frac) :
    roundToHundredths s = hundredthsToString (sign = ['-'])
      ((200 * Nat.ofDigitChars 10 (whole ++ frac) 0 + 10 ^ frac.length) / (2 * 10 ^ frac.length)) := by
  unfold roundToHundredths
  dsimp only
  rw [h.unsigned_eq, h.takeWhile_ne_point.1, h.takeWhile_ne_point.2]
  simp only [h.negative_iff]

end Parts

theorem Decimal.hundredths_eq (neg : Bool) (mant k : ℕ) :
    Decimal.hundredths ⟨neg, mant, -k⟩ = (200 * mant + 10 ^ k) / (2 * 10 ^ k) := by
  have hpow : (10 : ℚ) ^ k ≠ 0 := pow_ne_zero k (by norm_num)
  have hvalue : (mant * 10 ^ (-k : ℤ) * 100 + 1 / 2 : ℚ) =
      ((200 * mant + 10 ^ k : ℕ) : ℚ) / ((2 * 10 ^ k : ℕ) : ℚ) := by
    push_cast
    rw [zpow_neg, zpow_natCast]
    field_simp
    ring
  rw [Decimal.hundredths, Decimal.abs, hvalue, Nat.floor_div_eq_div]

/-! Printed numbers. -/

theorem digitChar_digit {n : ℕ} (hn : n < 10) : isDigitChar n.digitChar = true := by
  rw [isDigitChar_iff, Nat.toNat_digitChar_of_lt_ten hn]
  omega

/-- The text of `to_string`: six digits stand behind the point. -/
theorem hundredthsToString_parts (neg : Bool) (h : ℕ) :
    Parts (hundredthsToString neg h).toList (if neg then ['-'] else []) (Nat.toDigits 10 (h / 100))
      ((h % 100 / 10).digitChar :: (h % 10).digitChar :: List.replicate 4 '0') where
  eq := by simp [hundredthsToString]
  signed := by
    cases neg with
    | false => exact Or.inl rfl
    | true => exact Or.inr ⟨'-', rfl, by decide⟩
  wholeDigits := fun _ hc => isDigitChar_of_mem_toDigits hc
  fracDigits := by
    refine List.forall_mem_cons.2 ⟨digitChar_digit (by omega), ?_⟩
    refine List.forall_mem_cons.2 ⟨digitChar_digit (by omega), ?_⟩
    intro c hc
    rw [List.eq_of_mem_replicate hc]
    decide
  digits := by simp

theorem ofDigitChars_hundredths (h : ℕ) :
    Nat.ofDigitChars 10 (Nat.toDigits 10 (h / 100) ++
      (h % 100 / 10).digitChar :: (h % 10).digitChar :: List.replicate 4 '0') 0 = h * 10 ^ 4 := by
  rw [Nat.ofDigitChars_append, Nat.ofDigitChars_ten_toDigits,
    Nat.ofDigitChars_cons_digitChar_of_lt_ten (by omega),
    Nat.ofDigitChars_cons_digitChar_of_lt_ten (by omega), Nat.ofDigitChars_replicate_zero]
  omega

/-- A number of hundredths is its own rounding. -/
theorem roundToHundredths_hundredthsToString (neg : Bool) (h : ℕ) :
    roundToHundredths (hundredthsToString neg h) = hundredthsToString neg h := by
  have hround : (200 * (h * 10 ^ 4) + 10 ^ 6) / (2 * 10 ^ 6) = h := by omega
  have hneg : decide ((if neg then ['-'] else []) = ['-']) = neg := by cases neg <;> rfl
  rw [(hundredthsToString_parts neg h).roundToHundredths_eq, ofDigitChars_hundredths, hneg]
  exact congrArg _ hround

theorem isNumber_hundredthsToString (neg : Bool) (h : ℕ) :
    isNumber (hundredthsToString neg h) = true :=
  (isNumber_iff _).2 ((hundredthsToString_parts neg h).numberText Nat.toDigits_ne_nil)

/-- What `nomoalize_content` hands to `stod` is read, and the cell becomes the rounded value. -/
theorem roundToHundredths_of_isNumber {s : String} (hnumber : isNumber s = true)
    (hpoint : '.' ∈ s.toList) :
    ∃ d, stod s = some d ∧ roundToHundredths s = hundredthsToString d.neg d.hundredths := by
  obtain ⟨sign, whole, frac, hparts⟩ := ((isNumber_iff s).1 hnumber).parts hpoint
  refine ⟨_, hparts.stod_eq, ?_⟩
  rw [hparts.roundToHundredths_eq, Decimal.hundredths_eq]

theorem nomoalizeCell_cases (s : String) :
    nomoalizeCell s = s ∨ ∃ neg h, nomoalizeCell s = hundredthsToString neg h := by
  unfold nomoalizeCell
  split_ifs with hskip
  · exact Or.inl rfl
  · simp only [Bool.or_eq_true, Bool.not_eq_true', not_or, Bool.not_eq_false,
      List.contains_iff_mem] at hskip
    obtain ⟨d, -, hround⟩ := roundToHundredths_of_isNumber hskip.1 hskip.2
    exact Or.inr ⟨_, _, hround⟩

theorem nomoalizeCell_hundredthsToString (neg : Bool) (h : ℕ) :
    nomoalizeCell (hundredthsToString neg h) = hundredthsToString neg h := by
  unfold nomoalizeCell
  rw [roundToHundredths_hundredthsToString, ite_self]

/-- Normalising makes and unmakes no number. -/
theorem isNumber_nomoalizeCell (s : String) : isNumber (nomoalizeCell s) = isNumber s := by
  unfold nomoalizeCell
  split_ifs with hskip
  · rfl
  · simp only [Bool.or_eq_true, Bool.not_eq_true', not_or, Bool.not_eq_false,
      List.contains_iff_mem] at hskip
    obtain ⟨d, -, hround⟩ := roundToHundredths_of_isNumber hskip.1 hskip.2
    rw [hround, isNumber_hundredthsToString, hskip.1]

theorem nomoalizeCell_nomoalizeCell (s : String) :
    nomoalizeCell (nomoalizeCell s) = nomoalizeCell s := by
  rcases nomoalizeCell_cases s with hsame | ⟨neg, h, hprinted⟩
  · rw [hsame, hsame]
  · rw [hprinted, nomoalizeCell_hundredthsToString]

end DbFuzz
