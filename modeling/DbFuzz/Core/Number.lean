import DbFuzz.Core.Content
import Mathlib.Algebra.Group.Int.Defs
import Mathlib.Data.List.DropRight

/-! Normalisation of result cells by the drivers (`postgres.cc`, `mysql.cc`) and
`std::stoi`. A `long double` is an exact decimal, printed rounding half to even. -/

namespace DbFuzz

/-- `(-1)^neg * mant * 10^exp` -/
structure Decimal where
  neg : Bool
  mant : ℕ
  exp : ℤ

/-- The exponent part of a decimal literal, up to the end of the text. -/
def readExponent : List Char → Option ℤ
  | [] => some 0
  | c :: rest =>
    let body := if rest.head?.any isSignChar then rest.tail else rest
    if (c = 'e' ∨ c = 'E') ∧ body ≠ [] ∧ body.all isDigitChar then
      some (if rest.head? = some '-' then -(Nat.ofDigitChars 10 body 0 : ℤ)
        else Nat.ofDigitChars 10 body 0)
    else none

def splitPoint (cs : List Char) : List Char × List Char :=
  match cs with
  | '.' :: rest => (rest.takeWhile isDigitChar, rest.dropWhile isDigitChar)
  | _ => ([], cs)

/-- `is_double`: the whole text is one literal, with no blank in front. -/
def isDouble (cs : List Char) : Option Decimal :=
  let body := if cs.head?.any isSignChar then cs.tail else cs
  let whole := body.takeWhile isDigitChar
  let (frac, rest) := splitPoint (body.dropWhile isDigitChar)
  if whole ++ frac = [] then none
  else (readExponent rest).map fun e =>
    ⟨cs.head? = some '-', Nat.ofDigitChars 10 (whole ++ frac) 0, e - frac.length⟩

def roundHalfEven (a b : ℕ) : ℕ :=
  if 2 * (a % b) < b then a / b
  else if b < 2 * (a % b) then a / b + 1
  else a / b + a / b % 2

/-- `log10(result) > 5`; the logarithm of a negative number is a NaN. -/
def Decimal.log10Above5 (d : Decimal) : Bool :=
  !d.neg && decide (100000 * 10 ^ (-d.exp).toNat < d.mant * 10 ^ d.exp.toNat)

/-- `setiosflags(ios::fixed) << setprecision(0)` -/
def Decimal.fixed0 (d : Decimal) : List Char :=
  (if d.neg then ['-'] else []) ++
    Nat.toDigits 10 (roundHalfEven (d.mant * 10 ^ d.exp.toNat) (10 ^ (-d.exp).toNat))

/-- Five significant digits and the power of ten of the first one. -/
def Decimal.round5 (d : Decimal) : ℕ × ℤ :=
  let k := (Nat.toDigits 10 d.mant).length
  let m := if k ≤ 5 then d.mant * 10 ^ (5 - k) else roundHalfEven d.mant (10 ^ (k - 5))
  if m = 100000 then (10000, d.exp + k) else (m, d.exp + k - 1)

/-- `setprecision(5)` on a number above `10^5`: scientific notation, trailing
zeros dropped, at least two digits of exponent. -/
def Decimal.precision5 (d : Decimal) : List Char :=
  let digits := Nat.toDigits 10 d.round5.1
  let frac := digits.tail.rdropWhile (· == '0')
  let e := Nat.toDigits 10 d.round5.2.toNat
  digits.take 1 ++ (if frac = [] then [] else '.' :: frac) ++ ['e', '+'] ++
    (if e.length < 2 then ['0'] else []) ++ e

def Decimal.normalised (d : Decimal) : String :=
  if d.mant = 0 then "0"
  else if d.log10Above5 then String.ofList d.precision5
  else String.ofList d.fixed0

/-- `mysql.cc` -/
def processAnItem (item : String) : String :=
  match isDouble item.toList with
  | none => item
  | some d => d.normalised

def trimSpaces (str : String) : String :=
  String.ofList ((str.toList.dropWhile (· == ' ')).rdropWhile (· == ' '))

/-- `postgres.cc` -/
def processNumberString (str : String) : String :=
  let str := trimSpaces str
  match isDouble str.toList with
  | none => if str = "-Infinity" then "Infinity" else str
  | some d => d.normalised

example : (["101000", "102000.5", "100000", "-0.0", "1e10", "abc", "-7.5"].map processAnItem) =
    ["1.01e+05", "1.02e+05", "100000", "0", "1e+10", "abc", "-8"] := by decide

/-! `std::stoi`. -/

inductive StoiError
  | invalidArgument
  | outOfRange
  deriving DecidableEq, Repr

def isSpaceChar (c : Char) : Bool :=
  c == ' ' || c == '\t' || c == '\n' || c == '\x0b' || c == '\x0c' || c == '\r'

def stoi (s : String) : Except StoiError ℤ :=
  let cs := s.toList.dropWhile isSpaceChar
  let body := if cs.head?.any isSignChar then cs.tail else cs
  let digits := body.takeWhile isDigitChar
  if digits = [] then .error .invalidArgument
  else
    let n : ℤ := Nat.ofDigitChars 10 digits 0
    let v := if cs.head? = some '-' then -n else n
    if -2 ^ 31 ≤ v ∧ v < 2 ^ 31 then .ok v else .error .outOfRange

/-! `operator<<` and `operator>>` of an `int`. -/

def InIntRange (z : ℤ) : Prop := -2 ^ 31 ≤ z ∧ z < 2 ^ 31

instance (z : ℤ) : Decidable (InIntRange z) := inferInstanceAs (Decidable (_ ∧ _))

def printInt (z : ℤ) : List Char :=
  if z < 0 then '-' :: Nat.toDigits 10 z.natAbs else Nat.toDigits 10 z.natAbs

/-- The number read and what follows it, if the stream does not fail. -/
def readInt (cs : List Char) : Option (ℤ × List Char) :=
  let cs := cs.dropWhile isSpaceChar
  let body := if cs.head?.any isSignChar then cs.tail else cs
  let digits := body.takeWhile isDigitChar
  let n : ℤ := Nat.ofDigitChars 10 digits 0
  let v := if cs.head? = some '-' then -n else n
  if digits ≠ [] ∧ InIntRange v then some (v, body.dropWhile isDigitChar) else none

def readIntsAux : ℕ → List Char → List ℤ
  | 0, _ => []
  | fuel + 1, cs =>
    match readInt cs with
    | none => []
    | some (z, rest) => z :: readIntsAux fuel rest

/-- `while (file >> x)`; a number takes a character at least. -/
def readInts (cs : List Char) : List ℤ := readIntsAux cs.length cs

/-- One number a line. -/
def printInts (zs : List ℤ) : List Char := zs.flatMap fun z => printInt z ++ ['\n']

example : readInts " 12\n-3 x 4".toList = [12, -3] := by decide

/-! Digit lists. -/

theorem isDigitChar_iff (c : Char) : isDigitChar c = true ↔ 48 ≤ c.toNat ∧ c.toNat ≤ 57 := by
  simp only [isDigitChar, Bool.and_eq_true, decide_eq_true_eq, Char.le_def, UInt32.le_iff_toNat_le]
  rfl

theorem isDigitChar_of_mem_toDigits {n : ℕ} {c : Char} (h : c ∈ Nat.toDigits 10 n) :
    isDigitChar c = true := by
  have := Nat.isDigit_of_mem_toDigits (b := 10) (by decide) (by decide) h
  simp only [Char.isDigit, Bool.and_eq_true, decide_eq_true_eq, UInt32.le_iff_toNat_le] at this
  exact (isDigitChar_iff c).2 this

theorem isSignChar_of_isDigitChar {c : Char} (h : isDigitChar c = true) : isSignChar c = false := by
  rw [isDigitChar_iff] at h
  have hne : ∀ d : Char, d.toNat < 48 → (c == d) = false := by
    intro d hd
    simp only [beq_eq_false_iff_ne]
    rintro rfl
    omega
  simp [isSignChar, hne '+' (by decide), hne '-' (by decide)]

theorem isSpaceChar_of_isDigitChar {c : Char} (h : isDigitChar c = true) :
    isSpaceChar c = false := by
  rw [isDigitChar_iff] at h
  have hne : ∀ d : Char, d.toNat < 48 → (c == d) = false := by
    intro d hd
    simp only [beq_eq_false_iff_ne]
    rintro rfl
    omega
  simp [isSpaceChar, hne ' ' (by decide), hne '\t' (by decide), hne '\n' (by decide),
    hne '\x0b' (by decide), hne '\x0c' (by decide), hne '\r' (by decide)]

theorem takeWhile_toDigits_append (n : ℕ) (rest : List Char)
    (h : ∀ c ∈ rest.head?, isDigitChar c = false) :
    (Nat.toDigits 10 n ++ rest).takeWhile isDigitChar = Nat.toDigits 10 n := by
  rw [List.takeWhile_append_of_pos fun c hc => isDigitChar_of_mem_toDigits hc]
  cases rest with
  | nil => simp
  | cons c rest => simp [h c (by simp)]

theorem exists_toDigits_eq_cons (n : ℕ) :
    ∃ c rest, Nat.toDigits 10 n = c :: rest ∧ isDigitChar c = true := by
  obtain ⟨c, rest, h⟩ := List.exists_cons_of_ne_nil (Nat.toDigits_ne_nil (b := 10) (n := n))
  exact ⟨c, rest, h, isDigitChar_of_mem_toDigits (n := n) (by rw [h]; simp)⟩

theorem isDouble_toDigits (n : ℕ) : isDouble (Nat.toDigits 10 n) = some ⟨false, n, 0⟩ := by
  obtain ⟨c, rest, h, hc⟩ := exists_toDigits_eq_cons n
  have hsign := isSignChar_of_isDigitChar hc
  have hminus : c ≠ '-' := by rintro rfl; simp [isDigitChar] at hc
  have htake := takeWhile_toDigits_append n [] (by simp)
  have hdrop : (Nat.toDigits 10 n).dropWhile isDigitChar = [] := by
    rw [List.dropWhile_eq_nil_iff]
    exact fun c hc => isDigitChar_of_mem_toDigits hc
  rw [List.append_nil] at htake
  have hhead : (Nat.toDigits 10 n).head? = some c := by rw [h]; rfl
  simp [isDouble, hhead, hsign, htake, hdrop, splitPoint, readExponent, hminus,
    Nat.ofDigitChars_ten_toDigits, Nat.toDigits_ne_nil]

/-- `stoi` on a digit sequence followed by something else. -/
theorem stoi_toDigits_append (n : ℕ) (hn : n < 2 ^ 31) (rest : List Char)
    (h : ∀ c ∈ rest.head?, isDigitChar c = false) :
    stoi (String.ofList (Nat.toDigits 10 n ++ rest)) = .ok n := by
  obtain ⟨c, tail, hcons, hc⟩ := exists_toDigits_eq_cons n
  have hdrop : (Nat.toDigits 10 n ++ rest).dropWhile isSpaceChar = Nat.toDigits 10 n ++ rest := by
    rw [hcons]; simp [isSpaceChar_of_isDigitChar hc]
  have hminus : c ≠ '-' := by rintro rfl; simp [isDigitChar] at hc
  have hhead : (Nat.toDigits 10 n ++ rest).head? = some c := by rw [hcons]; rfl
  simp [stoi, hdrop, hhead, isSignChar_of_isDigitChar hc, takeWhile_toDigits_append n rest h, hminus,
    Nat.ofDigitChars_ten_toDigits, Nat.toDigits_ne_nil]
  omega

theorem dropWhile_toDigits_append (n : ℕ) (rest : List Char)
    (h : ∀ c ∈ rest.head?, isDigitChar c = false) :
    (Nat.toDigits 10 n ++ rest).dropWhile isDigitChar = rest := by
  rw [List.dropWhile_append_of_pos fun c hc => isDigitChar_of_mem_toDigits hc]
  cases rest with
  | nil => rfl
  | cons c rest => simp [h c (by simp)]

/-- A printed number is read back, with the end of its line left. -/
theorem readInt_printInt {z : ℤ} (hz : InIntRange z) (rest : List Char) :
    readInt (printInt z ++ '\n' :: rest) = some (z, '\n' :: rest) := by
  have hend : ∀ c ∈ ('\n' :: rest).head?, isDigitChar c = false := by simp [isDigitChar]
  have htake := takeWhile_toDigits_append z.natAbs _ hend
  have hdrop := dropWhile_toDigits_append z.natAbs _ hend
  unfold printInt
  split_ifs with hneg
  · have hval : -(z.natAbs : ℤ) = z := by omega
    generalize z.natAbs = n at hval htake hdrop
    simp [readInt, isSpaceChar, isSignChar, htake, hdrop, Nat.ofDigitChars_ten_toDigits,
      Nat.toDigits_ne_nil, hval, hz]
  · have hval : (z.natAbs : ℤ) = z := by omega
    obtain ⟨c, tail, hcons, hc⟩ := exists_toDigits_eq_cons z.natAbs
    have hspace : (Nat.toDigits 10 z.natAbs ++ '\n' :: rest).dropWhile isSpaceChar =
        Nat.toDigits 10 z.natAbs ++ '\n' :: rest := by
      rw [hcons]; simp [isSpaceChar_of_isDigitChar hc]
    have hminus : c ≠ '-' := by rintro rfl; simp [isDigitChar] at hc
    have hhead : (Nat.toDigits 10 z.natAbs ++ '\n' :: rest).head? = some c := by rw [hcons]; rfl
    simp [readInt, hspace, hhead, isSignChar_of_isDigitChar hc, htake, hdrop, hminus,
      Nat.ofDigitChars_ten_toDigits, Nat.toDigits_ne_nil, hval, hz]

theorem readInt_newline (cs : List Char) : readInt ('\n' :: cs) = readInt cs := by
  simp [readInt, isSpaceChar]

theorem readIntsAux_printInts {zs : List ℤ} (hz : ∀ z ∈ zs, InIntRange z) (fuel : ℕ)
    (hfuel : zs.length ≤ fuel) :
    readIntsAux fuel (printInts zs) = zs ∧ readIntsAux fuel ('\n' :: printInts zs) = zs := by
  induction zs generalizing fuel with
  | nil => cases fuel <;> simp [readIntsAux, printInts, readInt, isSpaceChar]
  | cons z zs ih =>
    cases fuel with
    | zero => simp at hfuel
    | succ fuel =>
      have hread : readInt (printInts (z :: zs)) = some (z, '\n' :: printInts zs) := by
        simpa [printInts] using readInt_printInt (hz z (by simp)) (printInts zs)
      have hrest := (ih (fun y hy => hz y (by simp [hy])) fuel (by simpa using hfuel)).2
      simp only [readIntsAux, readInt_newline, hread, hrest, and_self]

theorem length_le_length_printInts (zs : List ℤ) : zs.length ≤ (printInts zs).length := by
  induction zs with
  | nil => simp
  | cons z zs ih => simp only [printInts, List.flatMap_cons, List.length_append,
      List.length_cons] at ih ⊢; omega

/-- Printed numbers are read back. -/
theorem readInts_printInts {zs : List ℤ} (hz : ∀ z ∈ zs, InIntRange z) :
    readInts (printInts zs) = zs :=
  (readIntsAux_printInts hz _ (length_le_length_printInts zs)).1

theorem fixed0_nat (n : ℕ) : Decimal.fixed0 ⟨false, n, 0⟩ = Nat.toDigits 10 n := by
  simp [Decimal.fixed0, roundHalfEven, Nat.mod_one]

end DbFuzz
