import Mathlib.Data.Nat.Notation
import Mathlib.Order.Basic

/-! The feedback about failed productions (`core/impedance.cc`): in how many failed and in how many
executed statements each class of productions occurred. -/

namespace DbFuzz

structure Impedance where
  occurancesInFailedQuery : String → ℕ
  occurancesInOkQuery : String → ℕ

namespace Impedance

/-- The maps before the first statement. -/
def empty : Impedance := ⟨fun _ => 0, fun _ => 0⟩

/-- `impedance_visitor`, on the classes that a statement visits: each class it found counts
once. -/
def visit (occured : String → ℕ) (visited : List String) : String → ℕ :=
  fun name => if name ∈ visited then occured name + 1 else occured name

/-- `impedance_feedback::executed` -/
def executed (i : Impedance) (visited : List String) : Impedance :=
  { i with occurancesInOkQuery := visit i.occurancesInOkQuery visited }

/-- `impedance_feedback::error` -/
def error (i : Impedance) (visited : List String) : Impedance :=
  { i with occurancesInFailedQuery := visit i.occurancesInFailedQuery visited }

/-- `impedance::matched`; the comparison `error_rate > 0.99` in exact numbers -/
def matched (i : Impedance) (name : String) : Bool :=
  if 100 > i.occurancesInFailedQuery name then true
  else if 100 * i.occurancesInFailedQuery name >
      99 * (i.occurancesInFailedQuery name + i.occurancesInOkQuery name) then false
  else true

/-- So many failures rule out a class that occurred in `ok` executed statements. -/
def limit (ok : ℕ) : ℕ := max 100 (99 * ok + 1)

/-- No class has failed more often than its limit. -/
def Bounded (i : Impedance) (name : String) : Prop :=
  i.occurancesInFailedQuery name ≤ limit (i.occurancesInOkQuery name)

variable {i : Impedance} {visited : List String} {name : String}

theorem visit_of_mem {occured : String → ℕ} (h : name ∈ visited) :
    visit occured visited name = occured name + 1 := if_pos h

theorem visit_of_notMem {occured : String → ℕ} (h : name ∉ visited) :
    visit occured visited name = occured name := if_neg h

theorem matched_eq_false_iff :
    i.matched name = false ↔ limit (i.occurancesInOkQuery name) ≤ i.occurancesInFailedQuery name := by
  unfold matched limit
  split_ifs with h h'
  · apply iff_of_false nofun
    omega
  · apply iff_of_true rfl
    omega
  · apply iff_of_false nofun
    omega

theorem bounded_empty : empty.Bounded name := Nat.zero_le _

/-- A success only raises the limit. -/
theorem Bounded.executed (h : i.Bounded name) : (i.executed visited).Bounded name := by
  have hle : i.occurancesInOkQuery name ≤ visit i.occurancesInOkQuery visited name := by
    unfold visit
    split_ifs <;> omega
  apply Nat.le_trans h
  unfold limit
  change max 100 (99 * i.occurancesInOkQuery name + 1) ≤
    max 100 (99 * visit i.occurancesInOkQuery visited name + 1)
  omega

/-- A class that can still be constructed is below its limit, so one more failure is within it. -/
theorem Bounded.error (h : i.Bounded name) (hmatched : name ∈ visited → i.matched name = true) :
    (i.error visited).Bounded name := by
  by_cases hname : name ∈ visited
  · have hlt : i.occurancesInFailedQuery name < limit (i.occurancesInOkQuery name) := by
      by_contra hle
      exact Bool.eq_false_iff.1 (matched_eq_false_iff.2 (Nat.le_of_not_lt hle)) (hmatched hname)
    change visit i.occurancesInFailedQuery visited name ≤ limit (i.occurancesInOkQuery name)
    rw [visit_of_mem hname]
    exact hlt
  · change visit i.occurancesInFailedQuery visited name ≤ limit (i.occurancesInOkQuery name)
    rw [visit_of_notMem hname]
    exact h

theorem Bounded.matched_eq_false_iff (h : i.Bounded name) : i.matched name = false ↔
    i.occurancesInFailedQuery name = limit (i.occurancesInOkQuery name) := by
  rw [Impedance.matched_eq_false_iff]
  exact ⟨Nat.le_antisymm h, fun heq => Nat.le_of_eq heq.symm⟩

/-- A statement without the class changes nothing about it. -/
theorem matched_executed (h : name ∉ visited) : (i.executed visited).matched name = i.matched name := by
  unfold matched
  change (if 100 > i.occurancesInFailedQuery name then true
    else if 100 * i.occurancesInFailedQuery name > 99 * (i.occurancesInFailedQuery name +
      visit i.occurancesInOkQuery visited name) then false else true) = _
  rw [visit_of_notMem h]

theorem matched_error (h : name ∉ visited) : (i.error visited).matched name = i.matched name := by
  unfold matched
  change (if 100 > visit i.occurancesInFailedQuery visited name then true
    else if 100 * visit i.occurancesInFailedQuery visited name >
      99 * (visit i.occurancesInFailedQuery visited name + i.occurancesInOkQuery name) then false
    else true) = _
  rw [visit_of_notMem h]

end Impedance

end DbFuzz
