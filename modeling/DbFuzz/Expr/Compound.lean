import DbFuzz.Expr.Preserve
import DbFuzz.Expr.Tester

/-! What the transforms of a set operation and of `exists` do to the rows and to the truth
value. -/

namespace DbFuzz.Expr

variable {D : Type} {I : Interp D} {s : Schema}

variable (I) in
/-- The same set of rows: duplicates are removed, and NULLs are equal. -/
def Interp.SameRows (a b : List (SqlRow D)) : Prop :=
  ∀ row, (∃ x ∈ a, I.sameRow row x = true) ↔ ∃ x ∈ b, I.sameRow row x = true

theorem unionTransform_defined {l r : QuerySpec} {type : CompoundType} {w : Wrap Subquery}
    (hp : (Subquery.union l type r w).Paired) (hne : l.selectList.valueExprs ≠ []) :
    ∃ u, unionTransform l type r w = some u := by
  obtain ⟨hw, -, -, hlen⟩ := hp
  unfold unionTransform
  rw [if_neg (by simp [hw])]
  by_cases hk : (l.keeps || r.keeps || !type.splices) = true
  · exact ⟨_, if_pos hk⟩
  · obtain ⟨p, hpred⟩ := intersectPredicate_defined hlen hne
    rw [if_neg hk, hpred]
    exact ⟨_, rfl⟩

end DbFuzz.Expr
