import DbFuzz.Core.Number
import Mathlib.Tactic.IntervalCases

/-! Primary and version keys: the counters of `grammar.cc`, the text a driver
makes of a key and the number the analyzer reads back from it. -/

namespace DbFuzz

/-- The static counters `write_op_id` and `row_id`. -/
structure KeyState where
  writeOpId : ℕ
  rowId : ℕ
  deriving DecidableEq, Repr

def KeyState.init : KeyState := ⟨0, 10000⟩

inductive WriteStmt
  | insertStmt
  | insertSelectStmt
  | updateStmt
  | deleteStmt
  deriving DecidableEq, Repr

structure AssignedKeys where
  primary : List ℕ
  version : List ℕ

/-- The constructor of each statement: the new counters and the keys it writes. -/
def WriteStmt.construct (k : KeyState) : WriteStmt → KeyState × AssignedKeys
  | .insertStmt => (⟨k.writeOpId + 1, k.rowId + 1000⟩, ⟨[k.rowId + 1000], [k.writeOpId + 1]⟩)
  | .insertSelectStmt => (⟨k.writeOpId + 1, k.rowId⟩, ⟨[], [k.writeOpId + 1]⟩)
  | .updateStmt => (⟨k.writeOpId + 1, k.rowId⟩, ⟨[], [k.writeOpId + 1]⟩)
  | .deleteStmt => (⟨k.writeOpId + 1, k.rowId⟩, ⟨[], []⟩)

def constructAll (k : KeyState) : List WriteStmt → KeyState × AssignedKeys
  | [] => (k, ⟨[], []⟩)
  | w :: ws =>
    let (k', a) := w.construct k
    let (k'', b) := constructAll k' ws
    (k'', ⟨a.primary ++ b.primary, a.version ++ b.version⟩)

/-- The drivers that normalise their cells in the two ways of the source. -/
inductive Driver
  | postgres
  | mysql
  deriving DecidableEq, Repr

def Driver.process : Driver → String → String
  | .postgres => processNumberString
  | .mysql => processAnItem

/-- The analyzer's `stoi` on the cell in which the driver returns the key `n`. -/
def readKey (d : Driver) (n : ℕ) : Except StoiError ℤ := stoi (d.process (toString n))

/-! The keys of a run. -/

theorem constructAll_counters (ws : List WriteStmt) (k : KeyState) :
    (constructAll k ws).1.writeOpId = k.writeOpId + ws.length ∧
      (constructAll k ws).1.rowId = k.rowId + 1000 * ws.count .insertStmt := by
  induction ws generalizing k with
  | nil => simp [constructAll]
  | cons w ws ih =>
    obtain ⟨h1, h2⟩ := ih (w.construct k).1
    simp only [constructAll, h1, h2]
    cases w <;> simp [WriteStmt.construct] <;> omega

/-- The `i`-th insert of a run writes the primary key `row_id + 1000 * (i + 1)`. -/
theorem constructAll_primary (ws : List WriteStmt) (k : KeyState) :
    (constructAll k ws).2.primary =
      (List.range (ws.count .insertStmt)).map fun i => k.rowId + 1000 * (i + 1) := by
  induction ws generalizing k with
  | nil => simp [constructAll]
  | cons w ws ih =>
    simp only [constructAll, ih (w.construct k).1]
    cases w with
    | insertStmt =>
      have hshift : ∀ i, k.rowId + 1000 + 1000 * (i + 1) = k.rowId + 1000 * (i + 1 + 1) := by
        intro i; omega
      simp [WriteStmt.construct, List.range_succ_eq_map, Function.comp_def, hshift]
    | _ => simp [WriteStmt.construct]

theorem mem_version_constructAll {ws : List WriteStmt} {k : KeyState} {v : ℕ}
    (h : v ∈ (constructAll k ws).2.version) :
    k.writeOpId < v ∧ v ≤ k.writeOpId + ws.length := by
  induction ws generalizing k with
  | nil => simp [constructAll] at h
  | cons w ws ih =>
    simp only [constructAll, List.mem_append] at h
    rcases h with h | h
    · cases w <;> simp [WriteStmt.construct] at h <;> subst h <;> simp
    · have hk : (w.construct k).1.writeOpId = k.writeOpId + 1 := by cases w <;> rfl
      have := ih h
      simp only [List.length_cons]
      omega

/-- No two keys of a run are equal. -/
theorem constructAll_nodup (ws : List WriteStmt) (k : KeyState) :
    (constructAll k ws).2.primary.Nodup ∧ (constructAll k ws).2.version.Nodup := by
  constructor
  · rw [constructAll_primary]
    refine List.Nodup.map (fun i j h => ?_) List.nodup_range
    omega
  · induction ws generalizing k with
    | nil => simp [constructAll]
    | cons w ws ih =>
      simp only [constructAll]
      refine List.nodup_append.2 ⟨by cases w <;> simp [WriteStmt.construct], ih _, ?_⟩
      intro v hv v' hv'
      have := (mem_version_constructAll hv').1
      have hle : v ≤ (w.construct k).1.writeOpId := by
        cases w <;> simp [WriteStmt.construct] at hv ⊢ <;> omega
      omega

/-! Reading a key back. -/

theorem process_toString (d : Driver) (n : ℕ) :
    d.process (toString n) = (⟨false, n, 0⟩ : Decimal).normalised := by
  have hlist : (toString n).toList = Nat.toDigits 10 n := Nat.toList_repr
  cases d with
  | mysql => simp only [Driver.process, processAnItem, hlist, isDouble_toDigits]
  | postgres =>
    have hspace : ∀ c ∈ Nat.toDigits 10 n, (c == ' ') = false := by
      intro c hc
      have := isDigitChar_of_mem_toDigits hc
      simp only [beq_eq_false_iff_ne]
      rintro rfl
      simp [isDigitChar] at this
    have htrim : (trimSpaces (toString n)).toList = Nat.toDigits 10 n := by
      rw [trimSpaces, hlist, String.toList_ofList, List.dropWhile_eq_self_iff.2,
        List.rdropWhile_eq_self_iff.2]
      · intro hl; simpa using hspace _ (List.getLast_mem hl)
      · intro hl; simpa using hspace _ (List.getElem_mem hl)
    simp only [Driver.process, processNumberString, htrim, isDouble_toDigits]

theorem log10Above5_nat (n : ℕ) : Decimal.log10Above5 ⟨false, n, 0⟩ = decide (100000 < n) := by
  simp [Decimal.log10Above5]

/-- Above `10^5` only the leading digit is read: the next character is a point or
the `e` of the exponent. -/
theorem stoi_precision5 (d : Decimal) :
    ∃ k < 10, stoi (String.ofList d.precision5) = .ok (k : ℕ) := by
  obtain ⟨c, rest, h, hc⟩ := exists_toDigits_eq_cons d.round5.1
  rw [isDigitChar_iff] at hc
  obtain ⟨k, hk, hck⟩ : ∃ k < 10, Nat.toDigits 10 k = [c] := by
    refine ⟨c.toNat - 48, by omega, ?_⟩
    rw [Nat.toDigits_of_lt_base (by omega)]
    generalize hn : c.toNat - 48 = k
    have hcv : c = Char.ofNat (48 + k) := by rw [show 48 + k = c.toNat by omega, Char.ofNat_toNat]
    have hk : k < 10 := by omega
    subst hcv
    interval_cases k <;> rfl
  refine ⟨k, hk, ?_⟩
  unfold Decimal.precision5
  simp only [h, List.take_succ_cons, List.take_zero, List.tail_cons]
  rw [← hck, List.append_assoc, List.append_assoc, List.append_assoc]
  refine stoi_toDigits_append k (by omega) _ ?_
  split_ifs <;> simp [isDigitChar]

/-- A key survives the driver and `stoi` exactly up to `10^5`. -/
theorem readKey_eq_iff (d : Driver) (n : ℕ) : readKey d n = .ok (n : ℤ) ↔ n ≤ 100000 := by
  unfold readKey
  rw [process_toString]
  by_cases hle : n ≤ 100000
  · refine iff_of_true ?_ hle
    unfold Decimal.normalised
    have := stoi_toDigits_append n (by omega) [] (by simp)
    rw [List.append_nil] at this
    by_cases h0 : n = 0
    · subst h0; exact this
    · simp [h0, log10Above5_nat, show ¬ 100000 < n by omega, fixed0_nat, this]
  · refine iff_of_false ?_ hle
    obtain ⟨k, hk, hstoi⟩ := stoi_precision5 ⟨false, n, 0⟩
    have h0 : n ≠ 0 := by omega
    have h5 : 100000 < n := by omega
    simp only [Decimal.normalised, h0, reduceIte, log10Above5_nat, h5, decide_true, hstoi,
      Except.ok.injEq, Nat.cast_inj]
    omega

/-- The 91st and the 92nd insert of a run get different primary keys, which both
read back as 1. -/
theorem readKey_merges_primary_keys :
    let keys := (constructAll KeyState.init (List.replicate 92 .insertStmt)).2.primary
    101000 ∈ keys ∧ 102000 ∈ keys ∧
      ∀ d, readKey d 101000 = .ok 1 ∧ readKey d 102000 = .ok 1 := by
  refine ⟨?_, ?_, ?_⟩
  · rw [constructAll_primary]; decide
  · rw [constructAll_primary]; decide
  · intro d; cases d <;> decide

end DbFuzz
