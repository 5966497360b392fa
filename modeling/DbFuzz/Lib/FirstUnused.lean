import Mathlib.Data.List.Nodup
import Mathlib.Data.List.Perm.Subperm
import Mathlib.Data.Nat.Notation
import Mathlib.Tactic.Common

/-! The search for the first number whose key is not in use. -/

namespace FirstUnused

variable {κ : Type}

/-- `while (1) { if (!used(i)) break; i++; }` from `i` on. -/
def firstUnused (used : ℕ → Bool) : ℕ → ℕ → Option ℕ
  | 0, _ => none
  | fuel + 1, i => if used i then firstUnused used fuel (i + 1) else some i

variable {used : ℕ → Bool} {fuel i k : ℕ}

theorem firstUnused_some (h : firstUnused used fuel i = some k) : used k = false := by
  induction fuel generalizing i with
  | zero => cases h
  | succ fuel ih =>
    rw [firstUnused] at h
    split_ifs at h with hused
    · exact ih h
    · cases h
      exact Bool.eq_false_iff.2 hused

theorem firstUnused_none (h : firstUnused used fuel i = none) :
    ∀ j, i ≤ j → j < i + fuel → used j = true := by
  induction fuel generalizing i with
  | zero => intro j _ _; omega
  | succ fuel ih =>
    rw [firstUnused] at h
    split_ifs at h with hused
    intro j hij hj
    rcases Nat.eq_or_lt_of_le hij with rfl | hlt
    · exact hused
    · exact ih h j hlt (by omega)

/-- Among one number more than there are keys in use, one is free. -/
theorem exists_firstUnused [DecidableEq κ] {key : ℕ → κ} (hkey : Function.Injective key)
    (keys : List κ) :
    ∃ k, firstUnused (fun j => decide (key j ∈ keys)) (keys.length + 1) 0 = some k ∧
      key k ∉ keys := by
  cases h : firstUnused (fun j => decide (key j ∈ keys)) (keys.length + 1) 0 with
  | some k => exact ⟨k, rfl, by simpa using firstUnused_some h⟩
  | none =>
    have hnodup : ((List.range (keys.length + 1)).map key).Nodup := List.nodup_range.map hkey
    have hsub : (List.range (keys.length + 1)).map key ⊆ keys := by
      intro s hs
      obtain ⟨j, hj, rfl⟩ := List.mem_map.1 hs
      exact of_decide_eq_true (firstUnused_none h j (Nat.zero_le j) (by simpa using hj))
    have hle := (hnodup.subperm hsub).length_le
    rw [List.length_map, List.length_range] at hle
    omega

end FirstUnused
