import DbFuzz.Expr.Meaning
import DbFuzz.Expr.Restore

/-! The equivalent expressions have the value of what they stand for. -/

namespace DbFuzz.Expr

variable {D : Type} {I : Interp D}

attribute [local simp] Sql.eval ValueExpr.out Wrap.outValue ValueForm.out BoolExpr.out
  Wrap.outBool BoolForm.out

/-- A condition has a truth value. -/
theorem Sql.eval_condition {e : Sql} (h : e.isCondition = true) (env : Env D) :
    I.ofTruth (I.toTruth (e.eval I env)) = e.eval I env := by
  match e, h with
  | .test _, _ | .comparison .., _ | .distinct .., _ | .not _, _ | .isNull .., _
  | .between .., _ | .like .., _ | .inQuery .., _ | .exists _, _ | .compSubquery .., _
  | .literal (some _), _ | .logic true _ _, _ | .logic false _ _, _ => simp [Sql.eval]
  | .literal none, _ => rfl

theorem eval_newNot (e : BoolExpr) (env : Env D) :
    (BoolExpr.newNot e).out.eval I env = I.ofTruth (I.toTruth (e.out.eval I env)).not := by
  simp only [BoolExpr.newNot, BoolExpr.out, Wrap.outBool, BoolForm.out, Sql.eval]

theorem eval_newNull (e : ValueExpr) (isNull : Bool) (env : Env D) :
    (BoolExpr.newNull e isNull).out.eval I env =
      I.ofTruth (.ofBool ((e.out.eval I env).isNone == isNull)) := by
  simp only [BoolExpr.newNull, BoolExpr.out, Wrap.outBool, BoolForm.out, Sql.eval]

theorem eval_newOr (l r : BoolExpr) (env : Env D) :
    (BoolExpr.newTerm true l r).out.eval I env =
      I.ofTruth ((I.toTruth (l.out.eval I env)).or (I.toTruth (r.out.eval I env))) := by
  simp only [BoolExpr.newTerm, BoolExpr.out, Wrap.outBool, BoolForm.out, Sql.eval]

theorem eval_newAnd (l r : BoolExpr) (env : Env D) :
    (BoolExpr.newTerm false l r).out.eval I env =
      I.ofTruth ((I.toTruth (l.out.eval I env)).and (I.toTruth (r.out.eval I env))) := by
  simp only [BoolExpr.newTerm, BoolExpr.out, Wrap.outBool, BoolForm.out, Sql.eval]

theorem eval_newComparison (oper : String) (l r : ValueExpr) (env : Env D) :
    (BoolExpr.newComparison oper l r).out.eval I env =
      I.ofTruth (I.compare oper (l.out.eval I env) (r.out.eval I env)) := by
  simp only [BoolExpr.newComparison, BoolExpr.out, Wrap.outBool, BoolForm.out, Sql.eval]

theorem eval_newCase (c : BoolExpr) (t f : ValueExpr) (env : Env D) :
    (ValueExpr.newCase c t f).out.eval I env =
      if I.toTruth (c.out.eval I env) = .yes then t.out.eval I env else f.out.eval I env := by
  simp only [ValueExpr.newCase, ValueExpr.out, Wrap.outValue, ValueForm.out, Sql.eval]

theorem eval_newConst (op : Option Bool) (env : Env D) :
    (BoolExpr.newConst op).out.eval I env = (Sql.literal op).eval I env := by
  simp only [BoolExpr.newConst, BoolExpr.out]

/-- Of a value, its negation and its being NULL one is true. -/
theorem trueValue_yes (random : BoolExpr) (env : Env D) :
    I.toTruth ((trueValue random).out.eval I env) = .yes := by
  rw [trueValue, eval_newOr, eval_newOr, eval_newNot, eval_newNull, ValueExpr.out]
  simp only [Interp.toTruth_ofTruth]
  cases random.out.eval I env with
  | none => rfl
  | some d => cases h : I.truth d <;> simp [Interp.toTruth, h, Truth.ofBool, Truth.not, Truth.or]

theorem falseValue_no (random : BoolExpr) (env : Env D) :
    I.toTruth ((falseValue random).out.eval I env) = .no := by
  rw [falseValue, eval_newAnd, eval_newAnd, eval_newNot, eval_newNull, ValueExpr.out]
  simp only [Interp.toTruth_ofTruth]
  cases random.out.eval I env with
  | none => rfl
  | some d => cases h : I.truth d <;> simp [Interp.toTruth, h, Truth.ofBool, Truth.not, Truth.and]

/-- Whatever the guard says, the branch is the expression itself or a print of it. -/
theorem eqValueExpr_eval (d : Draw) {printed this : Sql} {env : Env D}
    (h : printed.eval I env = this.eval I env) :
    ((eqValueExpr d printed).out this).eval I env = this.eval I env := by
  unfold eqValueExpr
  split_ifs
  · simp only [EqValue.out, Arm.out, Sql.eval, trueValue_yes, if_true]
  · simp only [EqValue.out, Arm.out, Sql.eval, falseValue_no, reduceCtorEq, if_false]
  · simp only [EqValue.out, Arm.out, Sql.eval, ValueExpr.out, h, ite_self]
  · simp only [EqValue.out, Arm.out, Sql.eval, ValueExpr.out, h, ite_self]

theorem eqBoolExpr_eval (d : Draw) {this : Sql} {env : Env D}
    (h : I.ofTruth (I.toTruth (this.eval I env)) = this.eval I env) :
    ((eqBoolExpr d).out this).eval I env = this.eval I env := by
  unfold eqBoolExpr
  split_ifs
  · simp only [EqBool.out, Sql.eval, trueValue_yes, Truth.yes_and, h]
  · simp only [EqBool.out, Sql.eval, falseValue_no, Truth.no_or, h]

theorem eqConstBool_eval (d : Draw) (op : Option Bool) (env : Env D) :
    (eqConstBool d op).out.eval I env = (Sql.literal op).eval I env := by
  match op with
  | none => rw [eqConstBool, eval_newConst]
  | some false =>
    rw [eqConstBool, eval_newAnd, eval_newConst, Sql.eval, Interp.toTruth_ofTruth]
    simp only [Truth.ofBool, Truth.and_no]
  | some true =>
    rw [eqConstBool, eval_newOr, eval_newConst, Sql.eval, Interp.toTruth_ofTruth]
    simp only [Truth.ofBool, Truth.or_yes]

/-- De Morgan, with the operands turned round. -/
theorem equalExpr_eval (isOr : Bool) (l r : BoolExpr) (env : Env D) :
    (BoolExpr.newNot (.newTerm (!isOr) (.newNot r) (.newNot l))).out.eval I env =
      (Sql.logic isOr l.out r.out).eval I env := by
  cases isOr
  · rw [eval_newNot, Bool.not_false, eval_newOr, eval_newNot, eval_newNot, Sql.eval]
    simp only [Interp.toTruth_ofTruth, Truth.not_or_not]
  · rw [eval_newNot, Bool.not_true, eval_newAnd, eval_newNot, eval_newNot, Sql.eval]
    simp only [Interp.toTruth_ofTruth, Truth.not_and_not]

theorem betweenTransform_eval (l m r : ValueExpr) (env : Env D) :
    (BoolExpr.newTerm false (.newComparison ">=" m l) (.newComparison "<=" m r)).out.eval I env =
      (Sql.between m.out l.out r.out).eval I env := by
  rw [eval_newAnd, eval_newComparison, eval_newComparison, Sql.eval]
  simp only [Interp.toTruth_ofTruth]

/-- A boolean expression that is not transformed prints a condition. -/
theorem BoolForm.out_condition (form : BoolForm) (h : form.Settled) :
    form.out.isCondition = true := by
  match form with
  | .kept _ | .comparisonOp _ _ _ | .distinctPred _ _ | .notExpr _ | .nullPredicate _ _
  | .likeOp _ _ _ | .compSubquery _ _ _ => simp only [BoolForm.out, Sql.isCondition]
  | .boolTerm _ _ _ equal =>
    rw [BoolForm.Settled] at h
    rw [h.1, BoolForm.out, Sql.isCondition]
  | .betweenOp _ _ _ w | .inQuery _ _ _ w =>
    rw [BoolForm.Settled] at h
    cases w with
    | fresh | cached eq => simp only [BoolForm.out, Sql.isCondition]
    | transformed eq => exact absurd h.1 (by simp [Wrap.Idle])
  | .existsPredicate _ _ w =>
    rw [BoolForm.Settled] at h
    cases w with
    | fresh | cached eq => simp only [BoolForm.out, Sql.isCondition]
    | transformed eq => exact absurd h.2.1 (by simp [Wrap.Idle])

theorem BoolExpr.out_condition (e : BoolExpr) (h : e.Settled) : e.out.isCondition = true := by
  cases e with
  | node w form =>
    rw [BoolExpr.Settled] at h
    rw [BoolExpr.out, h.1.outBool]
    exact form.out_condition h.2
  | plain w text => rw [BoolExpr.out, Sql.isCondition]
  | constBool w op =>
    rw [BoolExpr.Settled] at h
    cases w with
    | fresh | cached eq => simp only [BoolExpr.out, Sql.isCondition]
    | transformed eq => exact absurd h (by simp [Wrap.Idle])

end DbFuzz.Expr
