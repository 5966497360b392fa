import Mathlib.Data.Nat.Notation
import Mathlib.Algebra.Order.Group.Int
import Mathlib.Data.List.Forall2
import Mathlib.Tactic.Common

/-! The random source that reads a file (`random.cc`), and the draws that are made of it. -/

namespace DbFuzz

/-- The value of an `int` after an operation. -/
def wrapInt (x : ℤ) : ℤ := (x + 2 ^ 31) % 2 ^ 32 - 2 ^ 31

def littleEndian : List UInt8 → ℕ
  | [] => 0
  | b :: rest => b.toNat + 256 * littleEndian rest

/-- `shownAllUsed` is a static variable of `get_random_num`. -/
structure FileRandomMachine where
  buffer : Option (List UInt8)
  curPos : ℤ
  endPos : ℤ
  readByte : ℤ
  shownAllUsed : Bool

namespace FileRandomMachine

/-- The constructor on the contents of the file; `none` for `exit(0)`. -/
def ofFile (contents : List UInt8) : Option FileRandomMachine :=
  let endPos := wrapInt contents.length
  if endPos = 0 then some ⟨none, 0, 0, 0, false⟩
  else if endPos < 100 then none
  else some ⟨some (contents.take endPos.toNat), 0, endPos, 0, false⟩

/-- `memcpy(&rand_num, buffer + pos, num)` into an `int` that is 0; `none` where it would read
outside the loaded bytes or write outside the `int`. -/
def copyInt (buffer : List UInt8) (pos num : ℤ) : Option ℤ :=
  if 0 ≤ pos ∧ 0 ≤ num ∧ num ≤ 4 ∧ pos + num ≤ buffer.length then
    some (wrapInt (littleEndian ((buffer.drop pos.toNat).take num.toNat)))
  else none

/-- `read_num`: what is left, or what is asked for. -/
def readNum (m : FileRandomMachine) (byteNum : ℤ) : ℤ :=
  if m.endPos - m.curPos < byteNum then m.endPos - m.curPos else byteNum

/-- The position behind the bytes that were read, or the start again. -/
def advance (m : FileRandomMachine) (readNum : ℤ) : FileRandomMachine :=
  let curPos := if m.curPos + readNum ≥ m.endPos then 0 else m.curPos + readNum
  let readByte := wrapInt (m.readByte + readNum)
  { m with
    curPos := curPos, readByte := readByte
    shownAllUsed := m.shownAllUsed || decide (readByte > curPos) }

def getRandomNum (min max byteNum : ℤ) (m : FileRandomMachine) : Option (ℤ × FileRandomMachine) :=
  match m.buffer with
  | none => some (0, m)
  | some buffer =>
    let scope := wrapInt (wrapInt (max - min) + 1)
    if scope ≤ 0 then some (min, m)
    else (copyInt buffer m.curPos (m.readNum byteNum)).map fun randNum =>
      (wrapInt (min + randNum.tmod scope), m.advance (m.readNum byteNum))

def d6 : FileRandomMachine → Option (ℤ × FileRandomMachine) := getRandomNum 1 6 1

def d9 : FileRandomMachine → Option (ℤ × FileRandomMachine) := getRandomNum 1 9 1

def d12 : FileRandomMachine → Option (ℤ × FileRandomMachine) := getRandomNum 1 12 1

def d20 : FileRandomMachine → Option (ℤ × FileRandomMachine) := getRandomNum 1 20 1

def d42 : FileRandomMachine → Option (ℤ × FileRandomMachine) := getRandomNum 1 42 2

def d100 : FileRandomMachine → Option (ℤ × FileRandomMachine) := getRandomNum 1 100 2

/-- "1 - x; max: 0xffffff 3 bytes" -/
def dx (x : ℤ) (m : FileRandomMachine) : Option (ℤ × FileRandomMachine) :=
  if x = 1 then some (1, m)
  else
    let bytenum := if x ≤ 0xff >>> 3 then 1 else if x ≤ 0xffff >>> 3 then 2 else 3
    getRandomNum 1 x bytenum m

/-- The index of the element that is picked; no index when the container is empty and an
exception is thrown. -/
def randomPick (size : ℕ) (m : FileRandomMachine) : Option (Option ℤ × FileRandomMachine) :=
  if size = 0 then some (none, m)
  else (dx (wrapInt size) m).map fun r => (some (r.1 - 1), r.2)

end FileRandomMachine

/-! Runs. -/

inductive Request
  | getRandomNum (min max byteNum : ℤ)
  | d6
  | d9
  | d12
  | d20
  | d42
  | d100
  | dx (x : ℤ)
  | randomPick (size : ℕ)

namespace Request

open FileRandomMachine

def run : Request → FileRandomMachine → Option (Option ℤ × FileRandomMachine)
  | getRandomNum min max byteNum, m =>
    (FileRandomMachine.getRandomNum min max byteNum m).map fun r => (some r.1, r.2)
  | d6, m => (FileRandomMachine.d6 m).map fun r => (some r.1, r.2)
  | d9, m => (FileRandomMachine.d9 m).map fun r => (some r.1, r.2)
  | d12, m => (FileRandomMachine.d12 m).map fun r => (some r.1, r.2)
  | d20, m => (FileRandomMachine.d20 m).map fun r => (some r.1, r.2)
  | d42, m => (FileRandomMachine.d42 m).map fun r => (some r.1, r.2)
  | d100, m => (FileRandomMachine.d100 m).map fun r => (some r.1, r.2)
  | dx x, m => (FileRandomMachine.dx x m).map fun r => (some r.1, r.2)
  | randomPick size, m => FileRandomMachine.randomPick size m

/-- The `int`s a caller may pass: a range that is not empty, and at most four bytes. -/
def Valid : Request → Prop
  | getRandomNum min max byteNum =>
    -2 ^ 31 ≤ min ∧ min ≤ max ∧ max < 2 ^ 31 ∧ 0 ≤ byteNum ∧ byteNum ≤ 4
  | dx x => 1 ≤ x ∧ x < 2 ^ 31
  | _ => True

/-- The first and the last value a request is for. -/
def range : Request → ℤ × ℤ
  | getRandomNum min max _ => (min, max)
  | d6 => (1, 6)
  | d9 => (1, 9)
  | d12 => (1, 12)
  | d20 => (1, 20)
  | d42 => (1, 42)
  | d100 => (1, 100)
  | dx x => (1, x)
  | randomPick size => (0, size - 1)

def InRange (r : Request) (result : Option ℤ) : Prop :=
  ∀ v ∈ result, r.range.1 ≤ v ∧ v ≤ r.range.2

end Request

/-- The results of the requests in turn. -/
def runRequests : List Request → FileRandomMachine → Option (List (Option ℤ) × FileRandomMachine)
  | [], m => some ([], m)
  | r :: rest, m =>
    (r.run m).bind fun out => (runRequests rest out.2).map fun outs => (out.1 :: outs.1, outs.2)

/-! What one request does. -/

namespace FileRandomMachine

/-- The position is inside the loaded bytes. -/
def Valid (m : FileRandomMachine) : Prop :=
  ∀ buffer ∈ m.buffer, m.endPos = buffer.length ∧ 0 ≤ m.curPos ∧ m.curPos < m.endPos

/-- The bytes the next request for `byteNum` bytes reads. -/
def nextBytes (m : FileRandomMachine) (buffer : List UInt8) (byteNum : ℤ) : List UInt8 :=
  (buffer.drop m.curPos.toNat).take (m.readNum byteNum).toNat

end FileRandomMachine

/-- Zero is in the range. -/
def Request.FitsZero : Request → Prop
  | .getRandomNum min max _ => min ≤ 0 ∧ 0 ≤ max
  | .dx x => x = 1
  | .randomPick size => size = 0 ∨ wrapInt size = 1
  | _ => False

/-- The range is all of `int`, or no four bytes with the sign bit are read, or the range divides
the number they make. -/
def Request.FitsBytes (m : FileRandomMachine) (buffer : List UInt8) : Request → Prop
  | .getRandomNum min max byteNum =>
    2 ^ 31 - 1 ≤ max - min ∨ (∀ b ∈ (m.nextBytes buffer byteNum)[3]?, b < 128) ∨
      (max - min + 1) ∣ (littleEndian (m.nextBytes buffer byteNum) : ℤ) - 2 ^ 32
  | _ => True

def Request.Fits (r : Request) (m : FileRandomMachine) : Prop :=
  match m.buffer with
  | none => r.FitsZero
  | some buffer => r.FitsBytes m buffer

/-- Only the fourth byte can make the number negative. -/
theorem wrapInt_littleEndian {bytes : List UInt8} (h : bytes.length ≤ 4) :
    ((∀ b ∈ bytes[3]?, b < 128) → wrapInt (littleEndian bytes) = littleEndian bytes) ∧
      (¬ (∀ b ∈ bytes[3]?, b < 128) →
        wrapInt (littleEndian bytes) = littleEndian bytes - 2 ^ 32 ∧
          wrapInt (littleEndian bytes) < 0) := by
  have hbyte : ∀ b : UInt8, b.toNat < 256 := fun b => b.toNat_lt
  match bytes, h with
  | [], _ => simp [littleEndian, wrapInt]
  | [a], _ =>
    have := hbyte a
    simp only [littleEndian, wrapInt]
    simp
    omega
  | [a, b], _ =>
    have := hbyte a
    have := hbyte b
    simp only [littleEndian, wrapInt]
    simp
    omega
  | [a, b, c], _ =>
    have := hbyte a
    have := hbyte b
    have := hbyte c
    simp only [littleEndian, wrapInt]
    simp
    omega
  | [a, b, c, d], _ =>
    have := hbyte a
    have := hbyte b
    have := hbyte c
    have := hbyte d
    have hd : d < 128 ↔ d.toNat < 128 := UInt8.lt_iff_toNat_lt
    simp only [littleEndian, wrapInt]
    simp [hd]
    omega

/-- The remainder leaves the range when it is negative, and it is so for a negative number that
the range does not divide. -/
theorem wrapInt_add_tmod {min max w : ℤ} (hmin : -2 ^ 31 ≤ min) (hle : min ≤ max)
    (hmax : max < 2 ^ 31) (hsmall : max - min < 2 ^ 31 - 1) :
    (min ≤ wrapInt (min + w.tmod (max - min + 1)) ∧
        wrapInt (min + w.tmod (max - min + 1)) ≤ max) ↔
      0 ≤ w ∨ (max - min + 1) ∣ w := by
  have hpos : 0 < max - min + 1 := by omega
  have hlt := Int.tmod_lt_of_pos w hpos
  have hgt := Int.lt_tmod_of_pos w hpos
  have hdvd : (max - min + 1) ∣ w ↔ w.tmod (max - min + 1) = 0 := Int.dvd_iff_tmod_eq_zero
  have hrange : (min ≤ wrapInt (min + w.tmod (max - min + 1)) ∧
      wrapInt (min + w.tmod (max - min + 1)) ≤ max) ↔ 0 ≤ w.tmod (max - min + 1) := by
    unfold wrapInt
    omega
  rw [hrange, hdvd]
  constructor
  · intro h
    by_contra hnot
    have hneg := Int.tmod_nonneg (max - min + 1) (show 0 ≤ -w by omega)
    rw [Int.neg_tmod] at hneg
    omega
  · rintro (h | h)
    · exact Int.tmod_nonneg _ h
    · exact h.ge

namespace FileRandomMachine

variable {m : FileRandomMachine} {buffer : List UInt8} {min max byteNum : ℤ}

theorem readNum_bounds (hm : m.Valid) (hbuffer : m.buffer = some buffer) (h0 : 0 ≤ byteNum) :
    0 ≤ m.readNum byteNum ∧ m.readNum byteNum ≤ byteNum ∧
      m.curPos + m.readNum byteNum ≤ buffer.length := by
  obtain ⟨hend, hcur, hlt⟩ := hm buffer hbuffer
  unfold readNum
  split_ifs <;> omega

/-- The bytes that are read are loaded. -/
theorem copyInt_next (hm : m.Valid) (hbuffer : m.buffer = some buffer) (h0 : 0 ≤ byteNum)
    (h4 : byteNum ≤ 4) :
    copyInt buffer m.curPos (m.readNum byteNum) =
      some (wrapInt (littleEndian (m.nextBytes buffer byteNum))) := by
  obtain ⟨hread0, hread, hend⟩ := readNum_bounds hm hbuffer h0
  exact if_pos ⟨(hm buffer hbuffer).2.1, hread0, hread.trans h4, hend⟩

theorem valid_advance (hm : m.Valid) (h0 : 0 ≤ byteNum) : (m.advance (m.readNum byteNum)).Valid := by
  intro buffer hbuffer
  obtain ⟨hend, hcur, hlt⟩ := hm buffer hbuffer
  obtain ⟨hread0, -, -⟩ := readNum_bounds hm hbuffer h0
  refine ⟨hend, ?_⟩
  unfold advance
  dsimp only
  split_ifs <;> omega

theorem length_nextBytes_le (hm : m.Valid) (hbuffer : m.buffer = some buffer) (h0 : 0 ≤ byteNum) :
    ((m.nextBytes buffer byteNum).length : ℤ) ≤ byteNum := by
  obtain ⟨hread0, hread, -⟩ := readNum_bounds hm hbuffer h0
  rw [nextBytes, List.length_take]
  omega

theorem scope_spec (min max : ℤ) (hmin : -2 ^ 31 ≤ min) (hle : min ≤ max) (hmax : max < 2 ^ 31) :
    (wrapInt (wrapInt (max - min) + 1) ≤ 0 ↔ 2 ^ 31 - 1 ≤ max - min) ∧
      (max - min < 2 ^ 31 - 1 → wrapInt (wrapInt (max - min) + 1) = max - min + 1) := by
  unfold wrapInt
  omega

theorem getRandomNum_eq (hm : m.Valid) (hbuffer : m.buffer = some buffer) (hmin : -2 ^ 31 ≤ min)
    (hle : min ≤ max) (hmax : max < 2 ^ 31) (hsmall : max - min < 2 ^ 31 - 1) (h0 : 0 ≤ byteNum)
    (h4 : byteNum ≤ 4) :
    getRandomNum min max byteNum m =
      some (wrapInt (min + (wrapInt (littleEndian (m.nextBytes buffer byteNum))).tmod
        (max - min + 1)), m.advance (m.readNum byteNum)) := by
  obtain ⟨hscope, hvalue⟩ := scope_spec min max hmin hle hmax
  rw [getRandomNum, hbuffer]
  dsimp only
  rw [if_neg (fun h => absurd (hscope.1 h) (not_le.2 hsmall)), copyInt_next hm hbuffer h0 h4,
    hvalue hsmall]
  rfl

theorem getRandomNum_spec (hm : m.Valid) (hmin : -2 ^ 31 ≤ min) (hle : min ≤ max)
    (hmax : max < 2 ^ 31) (h0 : 0 ≤ byteNum) (h4 : byteNum ≤ 4) :
    ∃ v m', getRandomNum min max byteNum m = some (v, m') ∧ m'.Valid ∧ m'.buffer = m.buffer ∧
      (min ≤ v ∧ v ≤ max ↔ (Request.getRandomNum min max byteNum).Fits m) := by
  unfold Request.Fits
  cases hbuffer : m.buffer with
  | none => exact ⟨0, m, by rw [getRandomNum, hbuffer], hm, hbuffer, Iff.rfl⟩
  | some buffer =>
    obtain ⟨hscope, hsmall⟩ := scope_spec min max hmin hle hmax
    by_cases hwide : 2 ^ 31 - 1 ≤ max - min
    · refine ⟨min, m, ?_, hm, hbuffer, iff_of_true ⟨le_rfl, hle⟩ (Or.inl hwide)⟩
      rw [getRandomNum, hbuffer]
      exact if_pos (hscope.2 hwide)
    · have hlength : (m.nextBytes buffer byteNum).length ≤ 4 := by
        have := length_nextBytes_le hm hbuffer h0
        omega
      obtain ⟨hclear, hset⟩ := wrapInt_littleEndian hlength
      refine ⟨_, _, getRandomNum_eq hm hbuffer hmin hle hmax (not_le.1 hwide) h0 h4,
        valid_advance hm h0, hbuffer, ?_⟩
      rw [wrapInt_add_tmod hmin hle hmax (not_le.1 hwide)]
      simp only [Request.FitsBytes, hwide, false_or]
      by_cases htop : ∀ b ∈ (m.nextBytes buffer byteNum)[3]?, b < 128
      · exact iff_of_true (Or.inl (by rw [hclear htop]; omega)) (Or.inl htop)
      · obtain ⟨heq, hneg⟩ := hset htop
        rw [← heq, or_iff_right (not_le.2 hneg), or_iff_right htop]

/-- Three bytes make no negative number. -/
theorem die_spec {n : ℤ} (hm : m.Valid) (h1 : 1 ≤ n) (hn : n < 2 ^ 31) (h0 : 0 ≤ byteNum)
    (h3 : byteNum ≤ 3) :
    ∃ v m', getRandomNum 1 n byteNum m = some (v, m') ∧ m'.Valid ∧ m'.buffer = m.buffer ∧
      (1 ≤ v ∧ v ≤ n ↔ m.buffer ≠ none) := by
  obtain ⟨v, m', hrun, hm', hbuffer, hrange⟩ :=
    getRandomNum_spec hm (show -2 ^ 31 ≤ (1 : ℤ) by decide) h1 hn h0 (by omega)
  refine ⟨v, m', hrun, hm', hbuffer, hrange.trans ?_⟩
  unfold Request.Fits
  cases hb : m.buffer with
  | none => simp [Request.FitsZero]
  | some buffer =>
    refine iff_of_true (Or.inr (Or.inl ?_)) (Option.some_ne_none buffer)
    have := length_nextBytes_le hm hb h0
    rw [List.getElem?_eq_none (by omega)]
    simp

theorem dx_spec {x : ℤ} (hm : m.Valid) (hmin : -2 ^ 31 ≤ x) (hmax : x < 2 ^ 31) :
    ∃ v m', dx x m = some (v, m') ∧ m'.Valid ∧ m'.buffer = m.buffer ∧
      (m.buffer = none → v = if x = 1 then 1 else 0) ∧
      (m.buffer ≠ none → 1 ≤ v ∧ (v ≤ x ∨ v = 1)) := by
  by_cases hx : x = 1
  · exact ⟨1, m, if_pos hx, hm, rfl, fun _ => (if_pos hx).symm, fun _ => ⟨le_rfl, Or.inr rfl⟩⟩
  obtain ⟨k, hk, h0, h3⟩ : ∃ k, dx x m = getRandomNum 1 x k m ∧ 0 ≤ k ∧ k ≤ 3 :=
    ⟨_, if_neg hx, by split_ifs <;> decide, by split_ifs <;> decide⟩
  rw [hk, if_neg hx]
  have hzero : m.buffer = none → getRandomNum 1 x k m = some (0, m) := fun hb => by
    rw [getRandomNum, hb]
  by_cases hpos : 1 ≤ x
  · obtain ⟨v, m', hrun, hm', hbuffer, hrange⟩ := die_spec hm hpos hmax h0 h3
    refine ⟨v, m', hrun, hm', hbuffer, fun hb => ?_, fun hb => ?_⟩
    · rw [hzero hb] at hrun
      cases hrun
      rfl
    · obtain ⟨hv, hvx⟩ := hrange.2 hb
      exact ⟨hv, Or.inl hvx⟩
  · cases hb : m.buffer with
    | none => exact ⟨0, m, hzero hb, hm, hb, fun _ => rfl, fun h => absurd rfl h⟩
    | some buffer =>
      have hscope : wrapInt (wrapInt (x - 1) + 1) ≤ 0 := by
        unfold wrapInt
        omega
      refine ⟨1, m, ?_, hm, hb, fun h => absurd h (Option.some_ne_none _),
        fun _ => ⟨le_rfl, Or.inr rfl⟩⟩
      rw [getRandomNum, hb]
      exact if_pos hscope

theorem wrapInt_bounds (x : ℤ) : -2 ^ 31 ≤ wrapInt x ∧ wrapInt x < 2 ^ 31 := by
  unfold wrapInt
  omega

theorem randomPick_spec {size : ℕ} (hm : m.Valid) :
    ∃ v m', randomPick size m = some (v, m') ∧ m'.Valid ∧ m'.buffer = m.buffer ∧
      ((Request.randomPick size).InRange v ↔ (Request.randomPick size).Fits m) := by
  unfold randomPick Request.Fits
  by_cases hsize : size = 0
  · refine ⟨none, m, if_pos hsize, hm, rfl, iff_of_true (fun v hv => by cases hv) ?_⟩
    cases m.buffer with
    | none => exact Or.inl hsize
    | some buffer => trivial
  · obtain ⟨hlow, hhigh⟩ := wrapInt_bounds size
    obtain ⟨v, m', hrun, hm', hbuffer, hnone, hsome⟩ := dx_spec hm hlow hhigh
    refine ⟨some (v - 1), m', by rw [if_neg hsize, hrun]; rfl, hm', hbuffer, ?_⟩
    have hrange : (Request.randomPick size).InRange (some (v - 1)) ↔
        0 ≤ v - 1 ∧ v - 1 ≤ (size : ℤ) - 1 := by
      simp [Request.InRange, Request.range]
    have hwrap : wrapInt size ≤ size := by
      unfold wrapInt
      omega
    rw [hrange]
    cases hb : m.buffer with
    | none =>
      rw [hnone hb]
      simp only [Request.FitsZero, hsize, false_or]
      split_ifs with h1 <;> omega
    | some buffer =>
      have := hsome (by rw [hb]; exact Option.some_ne_none buffer)
      exact iff_of_true (by omega) trivial

end FileRandomMachine

namespace Request

open FileRandomMachine

variable {m : FileRandomMachine}

/-- The dice ask for one or two bytes. -/
theorem die_run {r : Request} {n byteNum : ℤ}
    (hrun : r.run m = (FileRandomMachine.getRandomNum 1 n byteNum m).map fun p => (some p.1, p.2))
    (hrange : r.range = (1, n)) (hm : m.Valid) (h1 : 1 ≤ n) (hn : n < 2 ^ 31)
    (h0 : 0 ≤ byteNum) (h3 : byteNum ≤ 3) (hfits : r.Fits m ↔ m.buffer ≠ none) :
    ∃ v m', r.run m = some (v, m') ∧ m'.Valid ∧ m'.buffer = m.buffer ∧
      (r.InRange v ↔ r.Fits m) := by
  obtain ⟨v, m', hget, hm', hbuffer, hv⟩ := die_spec hm h1 hn h0 h3
  refine ⟨some v, m', by rw [hrun, hget]; rfl, hm', hbuffer, ?_⟩
  rw [hfits, ← hv, InRange, hrange]
  simp

theorem fits_die {r : Request} (hzero : ¬ r.FitsZero) (hbytes : ∀ buffer, r.FitsBytes m buffer) :
    r.Fits m ↔ m.buffer ≠ none := by
  unfold Fits
  cases m.buffer with
  | none => simp [hzero]
  | some buffer => simp [hbytes]

theorem run_spec {r : Request} (hr : r.Valid) (hm : m.Valid) :
    ∃ v m', r.run m = some (v, m') ∧ m'.Valid ∧ m'.buffer = m.buffer ∧
      (r.InRange v ↔ r.Fits m) := by
  cases r with
  | getRandomNum min max byteNum =>
    obtain ⟨hmin, hle, hmax, h0, h4⟩ := hr
    obtain ⟨v, m', hget, hm', hbuffer, hv⟩ := getRandomNum_spec hm hmin hle hmax h0 h4
    refine ⟨some v, m', by rw [run, hget]; rfl, hm', hbuffer, ?_⟩
    rw [← hv, InRange]
    simp [range]
  | dx x =>
    obtain ⟨h1, hx⟩ := hr
    obtain ⟨v, m', hget, hm', hbuffer, hnone, hsome⟩ := dx_spec hm (by omega) hx
    refine ⟨some v, m', by rw [run, hget]; rfl, hm', hbuffer, ?_⟩
    have hrange : (dx x).InRange (some v) ↔ 1 ≤ v ∧ v ≤ x := by simp [InRange, range]
    rw [hrange, Fits]
    cases hb : m.buffer with
    | none =>
      rw [hnone hb]
      simp only [FitsZero]
      split_ifs with h <;> omega
    | some buffer =>
      have := hsome (by rw [hb]; exact Option.some_ne_none buffer)
      exact iff_of_true (by omega) trivial
  | randomPick size => exact randomPick_spec hm
  | d6 =>
    exact die_run rfl rfl hm (by decide) (by decide) (by decide) (by decide)
      (fits_die id fun _ => trivial)
  | d9 =>
    exact die_run rfl rfl hm (by decide) (by decide) (by decide) (by decide)
      (fits_die id fun _ => trivial)
  | d12 =>
    exact die_run rfl rfl hm (by decide) (by decide) (by decide) (by decide)
      (fits_die id fun _ => trivial)
  | d20 =>
    exact die_run rfl rfl hm (by decide) (by decide) (by decide) (by decide)
      (fits_die id fun _ => trivial)
  | d42 =>
    exact die_run rfl rfl hm (by decide) (by decide) (by decide) (by decide)
      (fits_die id fun _ => trivial)
  | d100 =>
    exact die_run rfl rfl hm (by decide) (by decide) (by decide) (by decide)
      (fits_die id fun _ => trivial)

end Request

/-! Runs. -/

theorem FileRandomMachine.valid_ofFile {contents : List UInt8} {m : FileRandomMachine}
    (h : ofFile contents = some m) : m.Valid := by
  have hle : wrapInt contents.length ≤ contents.length := by
    unfold wrapInt
    omega
  unfold ofFile at h
  dsimp only at h
  split_ifs at h with hempty hsmall
  · obtain rfl := Option.some.inj h
    exact fun buffer hbuffer => absurd hbuffer (by simp)
  · obtain rfl := Option.some.inj h
    intro buffer hbuffer
    obtain rfl := Option.some.inj hbuffer
    dsimp only
    rw [List.length_take]
    omega

/-- Each request fits the state it is made in. -/
def AllFit (requests : List Request) (m : FileRandomMachine) : Prop :=
  ∀ pre r post, requests = pre ++ r :: post →
    ∀ results m', runRequests pre m = some (results, m') → r.Fits m'

theorem allFit_cons {r : Request} {rest : List Request} {m m' : FileRandomMachine} {v : Option ℤ}
    (hrun : r.run m = some (v, m')) : AllFit (r :: rest) m ↔ r.Fits m ∧ AllFit rest m' := by
  constructor
  · refine fun h => ⟨h [] r rest rfl [] m rfl, fun pre q post heq results t hpre => ?_⟩
    refine h (r :: pre) q post (by rw [heq, List.cons_append]) (v :: results) t ?_
    rw [runRequests, hrun, Option.bind_some, hpre]
    rfl
  · rintro ⟨hfirst, hrest⟩ pre q post heq results t hpre
    cases pre with
    | nil =>
      obtain ⟨rfl, -⟩ := List.cons.inj heq
      cases hpre
      exact hfirst
    | cons p pre =>
      rw [List.cons_append] at heq
      obtain ⟨rfl, hrest'⟩ := List.cons.inj heq
      rw [runRequests, hrun, Option.bind_some] at hpre
      obtain ⟨out, hout, hpair⟩ := Option.map_eq_some_iff.1 hpre
      cases hpair
      exact hrest pre q post hrest' out.1 out.2 hout

/-- A run reads only loaded bytes and keeps its position among them; its results are in their
ranges when every request fits. -/
theorem runRequests_spec {requests : List Request} {m : FileRandomMachine}
    (hrequests : ∀ r ∈ requests, r.Valid) (hm : m.Valid) :
    ∃ results m', runRequests requests m = some (results, m') ∧ m'.Valid ∧
      (List.Forall₂ Request.InRange requests results ↔ AllFit requests m) := by
  induction requests generalizing m with
  | nil =>
    refine ⟨[], m, rfl, hm, iff_of_true List.Forall₂.nil fun pre r post heq => ?_⟩
    exact absurd heq.symm (by simp)
  | cons r rest ih =>
    obtain ⟨v, m1, hrun, hm1, -, hv⟩ := Request.run_spec (hrequests r List.mem_cons_self) hm
    obtain ⟨results, m', hrest, hm', hresults⟩ :=
      ih (fun q hq => hrequests q (List.mem_cons_of_mem r hq)) hm1
    refine ⟨v :: results, m', ?_, hm', ?_⟩
    · rw [runRequests, hrun, Option.bind_some, hrest]
      rfl
    · rw [List.forall₂_cons, hv, hresults, allFit_cons hrun]

/-- A file of a hundred bytes serves every request for at most three of them. -/
theorem allFit_of_three_bytes {requests : List Request} {m : FileRandomMachine} (hm : m.Valid)
    (hbuffer : m.buffer ≠ none) (hvalid : ∀ r ∈ requests, r.Valid)
    (hthree : ∀ min max byteNum, .getRandomNum min max byteNum ∈ requests → byteNum ≤ 3) :
    AllFit requests m := by
  induction requests generalizing m with
  | nil => exact fun pre r post heq => absurd heq.symm (by simp)
  | cons r rest ih =>
    obtain ⟨v, m1, hrun, hm1, hsame, -⟩ := Request.run_spec (hvalid r List.mem_cons_self) hm
    refine (allFit_cons hrun).2 ⟨?_, ih hm1 (hsame ▸ hbuffer)
      (fun q hq => hvalid q (List.mem_cons_of_mem r hq))
      fun min max k hk => hthree min max k (List.mem_cons_of_mem r hk)⟩
    obtain ⟨buffer, hb⟩ := Option.ne_none_iff_exists'.1 hbuffer
    unfold Request.Fits
    rw [hb]
    cases r with
    | getRandomNum min max byteNum =>
      obtain ⟨-, -, -, h0, -⟩ := hvalid _ List.mem_cons_self
      have h3 := hthree min max byteNum List.mem_cons_self
      have hlength := FileRandomMachine.length_nextBytes_le hm hb h0
      refine Or.inr (Or.inl ?_)
      rw [List.getElem?_eq_none (by omega)]
      simp
    | _ => trivial

/-- Of every file the constructor accepts. -/
theorem requests_inRange_iff {contents : List UInt8} {m : FileRandomMachine}
    (hfile : FileRandomMachine.ofFile contents = some m) {requests : List Request}
    (hrequests : ∀ r ∈ requests, r.Valid) :
    ∃ results m', runRequests requests m = some (results, m') ∧ m'.Valid ∧
      (List.Forall₂ Request.InRange requests results ↔ AllFit requests m) :=
  runRequests_spec hrequests (FileRandomMachine.valid_ofFile hfile)

theorem requests_inRange_iff_hundred :
    ∃ results m', runRequests [.d6, .dx 300, .getRandomNum 0 0 4, .randomPick 3]
        ⟨some (List.replicate 100 200), 0, 100, 0, false⟩ = some (results, m') ∧ m'.Valid ∧
      (List.Forall₂ Request.InRange [.d6, .dx 300, .getRandomNum 0 0 4, .randomPick 3] results ↔
        AllFit [.d6, .dx 300, .getRandomNum 0 0 4, .randomPick 3]
          ⟨some (List.replicate 100 200), 0, 100, 0, false⟩) :=
  requests_inRange_iff (by rfl : FileRandomMachine.ofFile (List.replicate 100 200) = _)
    (by simp [Request.Valid])

/-- The empty file answers 0 to every request. -/
theorem not_requests_inRange :
    ¬ ∀ (contents : List UInt8) (m : FileRandomMachine) (requests : List Request),
      FileRandomMachine.ofFile contents = some m → (∀ r ∈ requests, r.Valid) →
        ∃ results m', runRequests requests m = some (results, m') ∧ m'.Valid ∧
          List.Forall₂ Request.InRange requests results := by
  intro h
  obtain ⟨results, m', hrun, -, hrange⟩ :=
    h [] ⟨none, 0, 0, 0, false⟩ [.d6] rfl (by simp [Request.Valid])
  have hzero : runRequests [.d6] ⟨none, 0, 0, 0, false⟩ =
      some ([some 0], ⟨none, 0, 0, 0, false⟩) := rfl
  rw [hzero] at hrun
  cases hrun
  have := (List.forall₂_cons.1 hrange).1 0 rfl
  simp [Request.range] at this

end DbFuzz
