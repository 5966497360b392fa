import Mathlib.Data.List.Dedup
import Mathlib.Data.List.Perm.Lattice
import Mathlib.Data.List.Count

/-! Three-valued truth after Kleene, and the membership it gives for lists with
unknown comparisons. -/

inductive Truth
  | yes
  | no
  | unknown
  deriving DecidableEq, Repr

namespace Truth

variable {α : Type} {a b c : Truth}

def ofBool : Bool → Truth
  | true => yes
  | false => no

protected def not : Truth → Truth
  | yes => no
  | no => yes
  | unknown => unknown

protected def and : Truth → Truth → Truth
  | yes, b => b
  | no, _ => no
  | unknown, no => no
  | unknown, _ => unknown

protected def or : Truth → Truth → Truth
  | yes, _ => yes
  | no, b => b
  | unknown, yes => yes
  | unknown, _ => unknown

@[simp] theorem not_not : a.not.not = a := by cases a <;> rfl

@[simp] theorem yes_and : yes.and a = a := rfl

@[simp] theorem no_or : no.or a = a := rfl

@[simp] theorem and_no : a.and no = no := by cases a <;> rfl

@[simp] theorem or_yes : a.or yes = yes := by cases a <;> rfl

theorem and_eq_yes : a.and b = yes ↔ a = yes ∧ b = yes := by
  cases a <;> cases b <;> simp [Truth.and]

theorem or_eq_yes : a.or b = yes ↔ a = yes ∨ b = yes := by
  cases a <;> cases b <;> simp [Truth.or]

theorem or_eq_no : a.or b = no ↔ a = no ∧ b = no := by
  cases a <;> cases b <;> simp [Truth.or]

theorem ofBool_eq_yes {b : Bool} : ofBool b = yes ↔ b = true := by
  cases b <;> simp [ofBool]

/-- De Morgan, with the operands turned round. -/
theorem not_or_not : (b.not.or a.not).not = a.and b := by
  cases a <;> cases b <;> rfl

theorem not_and_not : (b.not.and a.not).not = a.or b := by
  cases a <;> cases b <;> rfl

theorem not_eq_iff : a.not = a ↔ a = unknown := by
  cases a <;> simp [Truth.not]

/-- The disjunction of a list. -/
def any (ts : List Truth) : Truth := ts.foldr Truth.or no

@[simp] theorem any_nil : any [] = no := rfl

@[simp] theorem any_cons {ts : List Truth} : any (a :: ts) = a.or (any ts) := rfl

theorem any_eq_yes {ts : List Truth} : any ts = yes ↔ yes ∈ ts := by
  induction ts with
  | nil => simp
  | cons a ts ih => rw [any_cons, or_eq_yes, ih, List.mem_cons, eq_comm (a := a)]

theorem any_eq_no {ts : List Truth} : any ts = no ↔ ∀ t ∈ ts, t = no := by
  induction ts with
  | nil => simp
  | cons a ts ih => rw [any_cons, or_eq_no, ih, List.forall_mem_cons]

/-- A disjunction without an unknown member is known. -/
theorem any_of_known {ts : List Truth} (h : ∀ t ∈ ts, t ≠ unknown) :
    any ts = ofBool (decide (yes ∈ ts)) := by
  by_cases hy : yes ∈ ts
  · rw [any_eq_yes.2 hy, decide_eq_true hy, ofBool]
  · rw [decide_eq_false hy, ofBool, any_eq_no]
    intro t ht
    cases t with
    | yes => exact absurd ht hy
    | no => rfl
    | unknown => exact absurd rfl (h _ ht)

end Truth
