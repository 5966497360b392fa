import DbFuzz.Core.FileRandom

/-! `random_string` (`random.cc`): what it returns, and from which sources it returns. -/

namespace DbFuzz

/-- The characters that are drawn again. -/
def excludedChars : List Char := ['\'', '"', '\\', '%', '_', '\n']

/-- The character of a `dx(0x100)`; `rand_value` is the `unsigned int` one below. -/
def randomChar (draw : ℤ) : Char := Char.ofNat (32 + ((draw - 1) % 2 ^ 32).toNat % 95)

def allowedDraw (draw : ℤ) : Bool := decide (randomChar draw ∉ excludedChars)

section

variable {σ : Type} (dx256 : σ → ℤ × σ)

/-- The loop of `random_string(char_num)` over a source with the draw `dx(0x100)`. -/
def randomString : ℕ → ℤ → String → σ → Option (String × σ)
  | 0, charNum, str, s => if charNum > 0 then none else some (str, s)
  | fuel + 1, charNum, str, s =>
    if charNum > 0 then
      let c := randomChar (dx256 s).1
      if c ∈ excludedChars then randomString fuel charNum str (dx256 s).2
      else randomString fuel (charNum - 1) (str.push c) (dx256 s).2
    else some (str, s)

/-- The loop ends in a string of the length asked for, without excluded characters. -/
def ReturnsString (charNum : ℤ) (s : σ) : Prop :=
  ∃ str s', (∃ n, ∀ fuel ≥ n, randomString dx256 fuel charNum "" s = some (str, s')) ∧
    str.length = charNum.toNat ∧ ∀ c ∈ str.toList, c ∉ excludedChars

/-- How many of the next `n` draws are allowed. -/
def allowedCount (s : σ) : ℕ → ℕ
  | 0 => 0
  | n + 1 => (if allowedDraw (dx256 s).1 then 1 else 0) + allowedCount (dx256 s).2 n

/-- The source after `n` draws. -/
def afterDraws (s : σ) : ℕ → σ
  | 0 => s
  | n + 1 => afterDraws (dx256 s).2 n

variable {dx256} {s : σ}

theorem allowedCount_add (m n : ℕ) :
    allowedCount dx256 s (m + n) =
      allowedCount dx256 s m + allowedCount dx256 (afterDraws dx256 s m) n := by
  induction m generalizing s with
  | zero => simp [allowedCount, afterDraws]
  | succ m ih => rw [Nat.add_right_comm, allowedCount, allowedCount, ih, afterDraws, Nat.add_assoc]

theorem afterDraws_add (m n : ℕ) :
    afterDraws dx256 s (m + n) = afterDraws dx256 (afterDraws dx256 s m) n := by
  induction m generalizing s with
  | zero => rw [Nat.zero_add, afterDraws]
  | succ m ih => rw [Nat.add_right_comm, afterDraws, afterDraws, ih]

theorem allowedCount_mono {m n : ℕ} (h : m ≤ n) : allowedCount dx256 s m ≤ allowedCount dx256 s n := by
  obtain ⟨d, rfl⟩ := Nat.exists_eq_add_of_le h
  rw [allowedCount_add]
  exact Nat.le_add_right _ _

/-- The loop ends within its fuel when that many draws hold enough allowed ones. -/
theorem randomString_isSome_iff {fuel : ℕ} {charNum : ℤ} {str : String} :
    (randomString dx256 fuel charNum str s).isSome ↔ charNum ≤ allowedCount dx256 s fuel := by
  induction fuel generalizing charNum str s with
  | zero =>
    rw [randomString, allowedCount]
    split_ifs with h <;> simp <;> omega
  | succ fuel ih =>
    rw [randomString, allowedCount]
    by_cases hpos : charNum > 0
    · rw [if_pos hpos]
      dsimp only
      by_cases hex : randomChar (dx256 s).1 ∈ excludedChars
      · rw [if_pos hex, ih, allowedDraw, if_neg (by simpa using hex), Nat.zero_add]
      · rw [if_neg hex, ih, allowedDraw, if_pos (by simpa using hex)]
        omega
    · rw [if_neg hpos]
      simp
      omega

theorem randomString_stable {fuel fuel' : ℕ} {charNum : ℤ} {str : String} {out : String × σ}
    (hle : fuel ≤ fuel') (h : randomString dx256 fuel charNum str s = some out) :
    randomString dx256 fuel' charNum str s = some out := by
  induction fuel generalizing charNum str s fuel' with
  | zero =>
    rw [randomString] at h
    split_ifs at h with hpos
    cases fuel' with
    | zero => rw [randomString, if_neg hpos, h]
    | succ fuel' => rw [randomString, if_neg hpos, h]
  | succ fuel ih =>
    obtain ⟨fuel', rfl⟩ : ∃ m, fuel' = m + 1 := ⟨fuel' - 1, by omega⟩
    rw [randomString] at h ⊢
    dsimp only at h ⊢
    split_ifs at h ⊢
    · exact ih (by omega) h
    · exact ih (by omega) h
    · exact h

/-- What a run that ends has appended. -/
theorem randomString_some {fuel : ℕ} {charNum : ℤ} {str : String} {out : String × σ}
    (h : randomString dx256 fuel charNum str s = some out) :
    ∃ cs : List Char, out.1.toList = str.toList ++ cs ∧ cs.length = charNum.toNat ∧
      ∀ c ∈ cs, c ∉ excludedChars := by
  induction fuel generalizing charNum str s with
  | zero =>
    rw [randomString] at h
    split_ifs at h with hpos
    cases h
    exact ⟨[], by simp, by rw [List.length_nil]; omega, by simp⟩
  | succ fuel ih =>
    rw [randomString] at h
    dsimp only at h
    split_ifs at h with hpos hex
    · exact ih h
    · obtain ⟨cs, hout, hlength, hcs⟩ := ih h
      refine ⟨randomChar (dx256 s).1 :: cs, ?_, ?_, List.forall_mem_cons.2 ⟨hex, hcs⟩⟩
      · rw [hout, String.toList_push, List.append_assoc, List.singleton_append]
      · rw [List.length_cons]
        omega
    · cases h
      exact ⟨[], by simp, by rw [List.length_nil]; omega, by simp⟩

/-- From any source the string comes when enough of the draws are allowed. -/
theorem returnsString_iff {charNum : ℤ} :
    ReturnsString dx256 charNum s ↔ ∃ n, charNum ≤ allowedCount dx256 s n := by
  constructor
  · rintro ⟨str, s', ⟨n, hn⟩, -⟩
    exact ⟨n, randomString_isSome_iff.1 (by rw [hn n le_rfl]; rfl)⟩
  · rintro ⟨n, hn⟩
    obtain ⟨⟨str, s'⟩, hrun⟩ := Option.isSome_iff_exists.1 (randomString_isSome_iff.2 hn)
    obtain ⟨cs, hout, hlength, hcs⟩ := randomString_some hrun
    rw [String.toList_empty, List.nil_append] at hout
    exact ⟨str, s', ⟨n, fun fuel hfuel => randomString_stable hfuel hrun⟩,
      by rw [← String.length_toList, hout, hlength], by rw [hout]; exact hcs⟩

end

/-! A file. -/

/-- A file source between two requests. -/
abbrev FileSource := { m : FileRandomMachine // m.Valid }

namespace FileSource

open FileRandomMachine

theorem dx256_isSome (m : FileSource) : (dx 256 m.1).isSome := by
  obtain ⟨v, m', hrun, -⟩ := dx_spec m.2 (by decide) (by decide : (256 : ℤ) < 2 ^ 31)
  rw [hrun]
  rfl

theorem valid_dx256 (m : FileSource) : ((dx 256 m.1).get m.dx256_isSome).2.Valid := by
  obtain ⟨v, m', hrun, hvalid, -⟩ := dx_spec m.2 (by decide) (by decide : (256 : ℤ) < 2 ^ 31)
  have hget : (dx 256 m.1).get m.dx256_isSome = (v, m') := Option.get_of_eq_some _ hrun
  rw [hget]
  exact hvalid

def dx256 (m : FileSource) : ℤ × FileSource :=
  (((dx 256 m.1).get m.dx256_isSome).1, ⟨((dx 256 m.1).get m.dx256_isSome).2, m.valid_dx256⟩)

theorem dx256_of_run {m : FileSource} {v : ℤ} {m' : FileRandomMachine} (h : dx 256 m.1 = some (v, m')) :
    (m.dx256).1 = v ∧ (m.dx256).2.1 = m' := by
  have hget : (dx 256 m.1).get m.dx256_isSome = (v, m') := Option.get_of_eq_some _ h
  exact ⟨congrArg Prod.fst hget, congrArg Prod.snd hget⟩

/-- The empty file gives no allowed character. -/
theorem allowedCount_empty {m : FileSource} (h : m.1.buffer = none) (n : ℕ) :
    allowedCount dx256 m n = 0 := by
  induction n generalizing m with
  | zero => rfl
  | succ n ih =>
    have hrun : dx 256 m.1 = some (0, m.1) := by rw [dx, if_neg (by decide), getRandomNum, h]
    obtain ⟨hv, hm'⟩ := dx256_of_run hrun
    have hnot : allowedDraw 0 = false := by decide
    rw [allowedCount, hv, hnot, if_neg Bool.false_ne_true, ih (by rw [hm']; exact h)]

theorem dx_256 (m : FileRandomMachine) : dx 256 m = getRandomNum 1 256 2 m := rfl

/-- Only the first byte counts, since the range is a byte. -/
theorem wrapInt_tmod_byte {b : UInt8} {tail : List UInt8} (h : tail.length ≤ 1) :
    wrapInt (1 + (wrapInt (littleEndian (b :: tail))).tmod (256 - 1 + 1)) = 1 + b.toNat := by
  have hb := b.toNat_lt
  have hword : wrapInt (littleEndian (b :: tail)) = littleEndian (b :: tail) ∧
      (littleEndian (b :: tail) : ℤ) % 256 = b.toNat := by
    match tail, h with
    | [], _ => simp only [littleEndian, wrapInt]; omega
    | [c], _ =>
      have hc := c.toNat_lt
      simp only [littleEndian, wrapInt]
      omega
  rw [hword.1, Int.tmod_eq_emod_of_nonneg (Int.natCast_nonneg _), show (256 - 1 + 1 : ℤ) = 256 by rfl,
    hword.2, wrapInt]
  omega

/-- The draw is the byte at the position; the byte behind it is read as well. -/
theorem dx256_spec {m : FileSource} {buffer : List UInt8} (h : m.1.buffer = some buffer) :
    ∃ b rest, buffer.drop m.1.curPos.toNat = b :: rest ∧ (m.dx256).1 = 1 + b.toNat ∧
      (m.dx256).2.1.buffer = some buffer ∧
      (m.dx256).2.1.curPos = if m.1.curPos + 2 ≥ buffer.length then 0 else m.1.curPos + 2 := by
  obtain ⟨hend, hcur, hlt⟩ := m.2 buffer h
  have hrun : dx 256 m.1 = _ := (dx_256 m.1).trans
    (getRandomNum_eq m.2 h (by decide) (by decide) (by decide) (by decide) (by decide) (by decide))
  obtain ⟨hv, hm'⟩ := dx256_of_run hrun
  cases hdrop : buffer.drop m.1.curPos.toNat with
  | nil =>
    rw [List.drop_eq_nil_iff] at hdrop
    omega
  | cons b rest =>
    have hlength : buffer.length = m.1.curPos.toNat + (rest.length + 1) := by
      have := congrArg List.length hdrop
      rw [List.length_drop, List.length_cons] at this
      omega
    have hbounds := readNum_bounds m.2 h (by decide : (0 : ℤ) ≤ 2)
    have hread : m.1.readNum 2 = 1 ∧ rest.length = 0 ∨ m.1.readNum 2 = 2 := by
      unfold readNum
      split_ifs <;> omega
    refine ⟨b, rest, rfl, ?_, by rw [hm']; exact h, ?_⟩
    · rw [hv, nextBytes, hdrop]
      have hone : 1 ≤ (m.1.readNum 2).toNat := by omega
      rw [List.take_cons hone]
      exact wrapInt_tmod_byte (by rw [List.length_take]; omega)
    · rw [hm', advance]
      dsimp only
      split_ifs <;> omega

def allowedByte (b : UInt8) : Bool := allowedDraw (1 + b.toNat)

/-- The bytes the draws give on the way through a list. -/
def everySecond : List UInt8 → List UInt8
  | [] => []
  | [b] => [b]
  | b :: _ :: rest => b :: everySecond rest

theorem everySecond_cons (b : UInt8) (rest : List UInt8) :
    everySecond (b :: rest) = b :: everySecond (rest.drop 1) := by
  cases rest <;> rfl

variable {m : FileSource} {buffer : List UInt8}

/-- The draws up to the end of the file. -/
theorem pass (h : m.1.buffer = some buffer) :
    let bytes := everySecond (buffer.drop m.1.curPos.toNat)
    allowedCount dx256 m bytes.length = bytes.countP allowedByte ∧
      (afterDraws dx256 m bytes.length).1.buffer = some buffer ∧
      (afterDraws dx256 m bytes.length).1.curPos = 0 := by
  dsimp only
  induction hk : buffer.length - m.1.curPos.toNat using Nat.strong_induction_on generalizing m with
  | _ k ih =>
    obtain ⟨hend, hcur, hlt⟩ := m.2 buffer h
    obtain ⟨b, rest, hdrop, hv, hbuffer, hpos⟩ := dx256_spec h
    have hcount : ∀ tail : List UInt8, (b :: tail).countP allowedByte =
        (if allowedDraw (m.dx256).1 then 1 else 0) + tail.countP allowedByte := fun tail => by
      rw [List.countP_cons, Nat.add_comm, hv]
      rfl
    have hrest : (rest.drop 1) = buffer.drop (m.1.curPos.toNat + 2) := by
      rw [← List.drop_drop, hdrop]
      cases rest <;> rfl
    rw [hdrop, everySecond_cons, hrest, List.length_cons, allowedCount, afterDraws, hcount]
    split_ifs at hpos with hlast
    · rw [List.drop_eq_nil_of_le (by omega)]
      exact ⟨rfl, hbuffer, hpos⟩
    · have hnat : (m.dx256).2.1.curPos.toNat = m.1.curPos.toNat + 2 := by omega
      obtain ⟨hrec, hafter⟩ := ih (buffer.length - (m.1.curPos.toNat + 2)) (by omega) hbuffer
        (by rw [hnat])
      rw [hnat] at hrec hafter
      exact ⟨by rw [hrec], hafter⟩

/-- The draws of `j` times through the file. -/
theorem passes (h : m.1.buffer = some buffer) (hcur : m.1.curPos = 0) (j : ℕ) :
    allowedCount dx256 m (j * (everySecond buffer).length) =
      j * (everySecond buffer).countP allowedByte := by
  induction j generalizing m with
  | zero => rw [Nat.zero_mul, Nat.zero_mul, allowedCount]
  | succ j ih =>
    obtain ⟨hcount, hbuffer, hpos⟩ := pass h
    rw [hcur, Int.toNat_zero, List.drop_zero] at hcount hbuffer hpos
    rw [Nat.succ_mul, Nat.add_comm, allowedCount_add, hcount, ih hbuffer hpos, Nat.succ_mul,
      Nat.add_comm]

/-- There are enough allowed draws if the rest of the file has them or any byte that is drawn
once the position is at the start again is allowed. -/
theorem exists_allowedCount_iff (h : m.1.buffer = some buffer) (charNum : ℤ) :
    (∃ n, charNum ≤ allowedCount dx256 m n) ↔
      charNum ≤ (everySecond (buffer.drop m.1.curPos.toNat)).countP allowedByte ∨
        ∃ b ∈ everySecond buffer, allowedByte b = true := by
  obtain ⟨hcount, hbuffer, hpos⟩ := pass h
  have hall := fun j => passes hbuffer hpos j
  constructor
  · rintro ⟨n, hn⟩
    by_contra hnot
    rw [not_or, not_le] at hnot
    have hzero : (everySecond buffer).countP allowedByte = 0 :=
      List.countP_eq_zero.2 fun b hb hallowed => hnot.2 ⟨b, hb, hallowed⟩
    have hlength : 0 < (everySecond buffer).length := by
      obtain ⟨hend, hcur, hlt⟩ := m.2 buffer h
      cases buffer with
      | nil => simp at hend; omega
      | cons b rest => rw [everySecond_cons]; exact Nat.succ_pos _
    have hle : n ≤ (everySecond (buffer.drop m.1.curPos.toNat)).length +
        n * (everySecond buffer).length :=
      (Nat.le_mul_of_pos_right n hlength).trans (Nat.le_add_left _ _)
    have hmono : allowedCount dx256 m n ≤ _ := allowedCount_mono hle
    rw [allowedCount_add, hcount, hall n, hzero, Nat.mul_zero] at hmono
    omega
  · rintro (hrest | ⟨b, hb, hallowed⟩)
    · exact ⟨_, hrest.trans (by rw [hcount])⟩
    · refine ⟨(everySecond (buffer.drop m.1.curPos.toNat)).length +
        charNum.toNat * (everySecond buffer).length, ?_⟩
      have hpos : 1 ≤ (everySecond buffer).countP allowedByte :=
        List.countP_pos_iff.2 ⟨b, hb, hallowed⟩
      have hmul := Nat.le_mul_of_pos_right charNum.toNat hpos
      rw [allowedCount_add, hall]
      omega

end FileSource

/-- From any source, and from a file by its bytes. -/
theorem returnsString_sources_iff (charNum : ℤ) :
    (∀ (σ : Type) (dx256 : σ → ℤ × σ) (s : σ),
      ReturnsString dx256 charNum s ↔ ∃ n, charNum ≤ allowedCount dx256 s n) ∧
    ∀ m : FileSource, ReturnsString FileSource.dx256 charNum m ↔
      charNum ≤ 0 ∨ ∃ buffer, m.1.buffer = some buffer ∧
        (charNum ≤ (FileSource.everySecond (buffer.drop m.1.curPos.toNat)).countP
            FileSource.allowedByte ∨
          ∃ b ∈ FileSource.everySecond buffer, FileSource.allowedByte b = true) := by
  refine ⟨fun σ dx256 s => returnsString_iff, fun m => ?_⟩
  rw [returnsString_iff]
  cases h : m.1.buffer with
  | none =>
    simp only [FileSource.allowedCount_empty h]
    simp
  | some buffer =>
    rw [FileSource.exists_allowedCount_iff h]
    simp only [Option.some.injEq, exists_eq_left']
    constructor
    · exact Or.inr
    · rintro (hzero | hbytes)
      · exact Or.inl (hzero.trans (Int.natCast_nonneg _))
      · exact hbytes

/-- A file of quotation marks, as `random_string` reads it. -/
def quotes : List UInt8 := List.replicate 100 2

theorem not_returnsString :
    ¬ ∀ (contents : List UInt8) (m : FileRandomMachine) (hm : FileRandomMachine.ofFile contents = some m)
      (charNum : ℤ), 100 ≤ contents.length →
        ReturnsString FileSource.dx256 charNum ⟨m, FileRandomMachine.valid_ofFile hm⟩ := by
  intro h
  have hfile : FileRandomMachine.ofFile quotes = some ⟨some quotes, 0, 100, 0, false⟩ := rfl
  have hnone : ¬ ((1 : ℤ) ≤ (FileSource.everySecond (quotes.drop 0)).countP FileSource.allowedByte ∨
      ∃ b ∈ FileSource.everySecond quotes, FileSource.allowedByte b = true) := by
    decide +kernel
  have hstring := returnsString_iff.1 (h quotes _ hfile 1 (by decide))
  rw [FileSource.exists_allowedCount_iff rfl] at hstring
  exact hnone hstring

end DbFuzz
