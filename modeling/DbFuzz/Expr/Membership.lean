import DbFuzz.Expr.Preserve
import DbFuzz.Expr.Tester

/-! `in_query::equivalent_transform` makes its expression from an `in_query` of its own that
is not negated. -/

namespace DbFuzz.Expr

variable {D : Type} {I : Interp D} {s : Schema}

theorem eval_inQuery {isNegated : Bool} {l : ValueExpr} {q : Subquery} {w : Wrap ValueExpr}
    (hw : w.Idle fun _ => True) (env : Env D) :
    (BoolForm.inQuery isNegated l q w).out.eval I env =
      I.ofTruth (if isNegated then (I.member (l.out.eval I env) (q.out.rows I env)).not
        else I.member (l.out.eval I env) (q.out.rows I env)) := by
  rw [out_fresh_inQuery hw, Sql.eval, Interp.member]

/-- What the expression of a negated `in_query` and of one that is not negated comes to. -/
theorem inQuery_eval_transform {isNegated : Bool} {l : ValueExpr} {q : Subquery}
    {w : Wrap ValueExpr} {form : BoolForm} {ρ : Choices}
    (hs : (BoolForm.inQuery isNegated l q w).Settled) (hl : l.All (Movable I s))
    (hq : q.All (Movable I s)) (hm : q.Matchable I l) (hc : s.targetDbms ≠ .clickhouse)
    (h : (BoolForm.inQuery isNegated l q w).transform s ρ = some form) (env : Env D) :
    form.out.eval I env = I.ofTruth (I.member (l.out.eval I env) (q.out.rows I env)) := by
  rw [BoolForm.Settled] at hs
  obtain ⟨hw, hsl, hsq⟩ := hs
  simp only [BoolForm.transform, hc, if_false, Option.bind_eq_bind, Option.bind_eq_some_iff,
    Option.some.injEq] at h
  obtain ⟨l', hl', q', hq', eq, heq, rfl⟩ := h
  have hevall := l.eval_transform (fun _ h => h) _ hsl hl hl'
  have halike := q.alike_transform (fun _ h => h) _ _ hsq hq hq'
  have hpaired := q.paired_settled hsq
  rw [BoolForm.out, inQueryEq_eval heq (halike.paired hpaired) (hm.alike halike hevall), hevall,
    halike.rows hpaired]

end DbFuzz.Expr
