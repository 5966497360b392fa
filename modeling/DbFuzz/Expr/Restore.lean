import DbFuzz.Expr.Transform

/-! `back_transform` takes back what `equivalent_transform` did. Only the stored equivalent
expressions remain; `bare` leaves them out. -/

namespace DbFuzz.Expr

variable {α : Type}

/-- Not transformed, and what is stored was built here. -/
def Wrap.Idle (stored : α → Prop) : Wrap α → Prop
  | .fresh => True
  | .cached eq => stored eq
  | .transformed _ => False

namespace Wrap

theorem Idle.mark {stored : α → Prop} {w : Wrap α} (h : w.Idle stored) {new : α}
    (hnew : stored new) : ∃ eq, w.mark new = some (.transformed eq) ∧ stored eq := by
  cases w with
  | fresh => exact ⟨new, rfl, hnew⟩
  | cached eq => exact ⟨eq, rfl, h⟩
  | transformed eq => exact absurd h (by simp [Idle])

theorem Idle.isTransformed {stored : α → Prop} {w : Wrap α} (h : w.Idle stored) :
    w.isTransformed = false := by
  cases w with
  | fresh | cached eq => rfl
  | transformed eq => exact absurd h (by simp [Idle])

theorem Idle.outValue {stored : EqValue → Prop} {w : Wrap EqValue} (h : w.Idle stored)
    (this : Sql) : w.outValue this = this := by
  cases w with
  | fresh | cached eq => simp only [Wrap.outValue]
  | transformed eq => exact absurd h (by simp [Idle])

theorem Idle.outBool {stored : EqBool → Prop} {w : Wrap EqBool} (h : w.Idle stored)
    (this : Sql) : w.outBool this = this := by
  cases w with
  | fresh | cached eq => simp only [Wrap.outBool]
  | transformed eq => exact absurd h (by simp [Idle])

theorem Idle.unmark {stored : α → Prop} {w : Wrap α} (h : w.Idle stored) : w.unmark = none := by
  cases w with
  | fresh | cached eq => rfl
  | transformed eq => exact absurd h (by simp [Idle])

theorem Idle.release {stored : α → Prop} {w : Wrap α} (h : w.Idle stored) : w.release = w := by
  cases w with
  | fresh | cached eq => rfl
  | transformed eq => exact absurd h (by simp [Idle])

end Wrap

mutual

/-- No node is transformed, and the operands of a union have as many columns each and no
order, as its constructor leaves them. -/
def ValueExpr.Settled : ValueExpr → Prop
  | .node w form => w.Idle (fun eq => ∃ d, eq = eqValueExpr d form.out) ∧ form.Settled
  | .plain w text => w.Idle fun eq => ∃ d, eq = eqValueExpr d text
  | .bool e => e.Settled

def ValueForm.Settled : ValueForm → Prop
  | .columnReference _ _ | .constExpr _ | .kept _ => True
  | .caseExpr c t f => c.Settled ∧ t.Settled ∧ f.Settled
  | .coalesce _ es | .funcall _ _ es | .winFuncall _ es => ListSettled es
  | .binopExpr _ l r | .intervalExpr _ _ l r => l.Settled ∧ r.Settled
  | .castExpr _ _ e | .mysqlJsonOp _ _ e => e.Settled

def ListSettled : List ValueExpr → Prop
  | [] => True
  | e :: es => e.Settled ∧ ListSettled es

def BoolExpr.Settled : BoolExpr → Prop
  | .node w form => w.Idle (fun eq => ∃ d, eq = eqBoolExpr d) ∧ form.Settled
  | .plain w _ => w.Idle fun eq => ∃ d, eq = eqBoolExpr d
  | .constBool w op => w.Idle fun eq => ∃ d, eq = eqConstBool d op

def BoolForm.Settled : BoolForm → Prop
  | .kept _ => True
  | .comparisonOp _ l r | .distinctPred l r => l.Settled ∧ r.Settled
  | .notExpr e => e.Settled
  | .nullPredicate _ e | .likeOp e _ _ => e.Settled
  | .boolTerm _ l r equal => equal = none ∧ l.Settled ∧ r.Settled
  | .betweenOp l m r w => w.Idle (fun _ => True) ∧ l.Settled ∧ m.Settled ∧ r.Settled
  | .inQuery _ l q w => w.Idle (fun _ => True) ∧ l.Settled ∧ q.Settled
  | .existsPredicate q saved w => saved = none ∧ w.Idle (fun _ => True) ∧ q.Settled
  | .compSubquery l _ q => l.Settled ∧ q.Settled

def SelectList.Settled : SelectList → Prop
  | .mk _ _ es => es ≠ [] ∧ ListSettled es

def QuerySpec.Settled : QuerySpec → Prop
  | .mk _ _ sl from_ search group _ _ _ =>
    sl.Settled ∧ from_.Settled ∧ search.Settled ∧ GroupSettled group

def GroupSettled : Option GroupClause → Prop
  | none => True
  | some (.mk _ having) => having.Settled

def Subquery.Settled : Subquery → Prop
  | .spec q => q.Settled
  | .union l _ r w => w.Idle (fun _ => True) ∧ l.withoutOrder = l ∧ r.withoutOrder = r ∧
    l.selectList.valueExprs.length = r.selectList.valueExprs.length ∧ l.Settled ∧ r.Settled

def TableRef.Settled : TableRef → Prop
  | .table _ => True
  | .subquery _ q _ => q.Settled
  | .joined l r _ _ => l.Settled ∧ r.Settled

end

mutual

/-- The tree without the stored expressions. -/
def ValueExpr.bare : ValueExpr → ValueExpr
  | .node _ form => .node .fresh form.bare
  | .plain _ text => .plain .fresh text
  | .bool e => .bool e.bare

def ValueForm.bare : ValueForm → ValueForm
  | .columnReference reference collation => .columnReference reference collation
  | .constExpr expr => .constExpr expr
  | .kept text => .kept text
  | .caseExpr c t f => .caseExpr c.bare t.bare f.bare
  | .coalesce abbrev_ es => .coalesce abbrev_ (bareList es)
  | .binopExpr oper l r => .binopExpr oper l.bare r.bare
  | .funcall proc isAggregate es => .funcall proc isAggregate (bareList es)
  | .winFuncall proc es => .winFuncall proc (bareList es)
  | .castExpr useConvert target e => .castExpr useConvert target e.bare
  | .intervalExpr isAdd unit date amount => .intervalExpr isAdd unit date.bare amount.bare
  | .mysqlJsonOp op path l => .mysqlJsonOp op path l.bare

def bareList : List ValueExpr → List ValueExpr
  | [] => []
  | e :: es => e.bare :: bareList es

def BoolExpr.bare : BoolExpr → BoolExpr
  | .node _ form => .node .fresh form.bare
  | .plain _ text => .plain .fresh text
  | .constBool _ op => .constBool .fresh op

def BoolForm.bare : BoolForm → BoolForm
  | .kept text => .kept text
  | .comparisonOp oper l r => .comparisonOp oper l.bare r.bare
  | .distinctPred l r => .distinctPred l.bare r.bare
  | .notExpr e => .notExpr e.bare
  | .nullPredicate isNull e => .nullPredicate isNull e.bare
  | .likeOp l likeOperator likeFormat => .likeOp l.bare likeOperator likeFormat
  | .boolTerm isOr l r equal => .boolTerm isOr l.bare r.bare equal
  | .betweenOp l m r _ => .betweenOp l.bare m.bare r.bare .fresh
  | .inQuery isNegated l q _ => .inQuery isNegated l.bare q.bare .fresh
  | .existsPredicate q saved _ => .existsPredicate q.bare saved .fresh
  | .compSubquery l op q => .compSubquery l.bare op q.bare

def SelectList.bare : SelectList → SelectList
  | .mk columns names es => .mk columns names (bareList es)

def QuerySpec.bare : QuerySpec → QuerySpec
  | .mk options quantifier sl from_ search group window order limit =>
    .mk options quantifier sl.bare from_.bare search.bare (bareGroup group) window order limit

def bareGroup : Option GroupClause → Option GroupClause
  | none => none
  | some (.mk groupBy having) => some (.mk groupBy having.bare)

def Subquery.bare : Subquery → Subquery
  | .spec q => .spec q.bare
  | .union l type r _ => .union l.bare type r.bare .fresh

def TableRef.bare : TableRef → TableRef
  | .table text => .table text
  | .subquery isLateral q ident => .subquery isLateral q.bare ident
  | .joined l r type condition => .joined l.bare r.bare type condition

end

/-! What a settled tree prints. -/

mutual

theorem ValueExpr.out_bare : ∀ (e : ValueExpr), e.Settled → e.bare.out = e.out
  | .node w form, h => by
    rw [ValueExpr.Settled] at h
    rw [ValueExpr.bare, ValueExpr.out, ValueExpr.out, h.1.outValue, form.out_bare h.2]
    simp only [Wrap.outValue]
  | .plain w text, _ => by rw [ValueExpr.bare, ValueExpr.out, ValueExpr.out]
  | .bool e, h => by
    rw [ValueExpr.Settled] at h
    rw [ValueExpr.bare, ValueExpr.out, ValueExpr.out, e.out_bare h]

theorem ValueForm.out_bare : ∀ (form : ValueForm), form.Settled → form.bare.out = form.out
  | .columnReference _ _, _ | .constExpr _, _ | .kept _, _ => by rw [ValueForm.bare]
  | .caseExpr c t f, h => by
    rw [ValueForm.Settled] at h
    rw [ValueForm.bare, ValueForm.out, ValueForm.out, c.out_bare h.1, t.out_bare h.2.1,
      f.out_bare h.2.2]
  | .coalesce _ es, h | .funcall _ _ es, h | .winFuncall _ es, h => by
    rw [ValueForm.Settled] at h
    rw [ValueForm.bare, ValueForm.out, ValueForm.out, outList_bare es h]
  | .binopExpr _ l r, h | .intervalExpr _ _ l r, h => by
    rw [ValueForm.Settled] at h
    rw [ValueForm.bare, ValueForm.out, ValueForm.out, l.out_bare h.1, r.out_bare h.2]
  | .castExpr _ _ e, h | .mysqlJsonOp _ _ e, h => by
    rw [ValueForm.Settled] at h
    rw [ValueForm.bare, ValueForm.out, ValueForm.out, e.out_bare h]

theorem outList_bare : ∀ (es : List ValueExpr), ListSettled es → outList (bareList es) = outList es
  | [], _ => by rw [bareList]
  | e :: es, h => by
    rw [ListSettled] at h
    rw [bareList, outList, outList, e.out_bare h.1, outList_bare es h.2]

theorem BoolExpr.out_bare : ∀ (e : BoolExpr), e.Settled → e.bare.out = e.out
  | .node w form, h => by
    rw [BoolExpr.Settled] at h
    rw [BoolExpr.bare, BoolExpr.out, BoolExpr.out, h.1.outBool, form.out_bare h.2]
    simp only [Wrap.outBool]
  | .plain w text, _ => by rw [BoolExpr.bare, BoolExpr.out, BoolExpr.out]
  | .constBool w op, h => by
    rw [BoolExpr.Settled] at h
    cases w with
    | fresh => rfl
    | cached eq => simp only [BoolExpr.bare, BoolExpr.out]
    | transformed eq => exact absurd h (by simp [Wrap.Idle])

theorem BoolForm.out_bare : ∀ (form : BoolForm), form.Settled → form.bare.out = form.out
  | .kept _, _ => by rw [BoolForm.bare]
  | .comparisonOp _ l r, h | .distinctPred l r, h => by
    rw [BoolForm.Settled] at h
    rw [BoolForm.bare, BoolForm.out, BoolForm.out, l.out_bare h.1, r.out_bare h.2]
  | .notExpr e, h => by
    rw [BoolForm.Settled] at h
    rw [BoolForm.bare, BoolForm.out, BoolForm.out, e.out_bare h]
  | .nullPredicate _ e, h | .likeOp e _ _, h => by
    rw [BoolForm.Settled] at h
    rw [BoolForm.bare, BoolForm.out, BoolForm.out, e.out_bare h]
  | .boolTerm _ l r equal, h => by
    rw [BoolForm.Settled] at h
    obtain ⟨rfl, hl, hr⟩ := h
    rw [BoolForm.bare, BoolForm.out, BoolForm.out, l.out_bare hl, r.out_bare hr]
  | .betweenOp l m r w, h => by
    rw [BoolForm.Settled] at h
    obtain ⟨hw, hl, hm, hr⟩ := h
    have hout : (BoolForm.betweenOp l m r w).out = .between m.out l.out r.out := by
      cases w with
      | fresh | cached eq => simp only [BoolForm.out]
      | transformed eq => exact absurd hw (by simp [Wrap.Idle])
    rw [hout, BoolForm.bare, BoolForm.out, l.out_bare hl, m.out_bare hm, r.out_bare hr]
  | .inQuery n l q w, h => by
    rw [BoolForm.Settled] at h
    obtain ⟨hw, hl, hq⟩ := h
    have hout : (BoolForm.inQuery n l q w).out = .inQuery n l.out q.out := by
      cases w with
      | fresh | cached eq => simp only [BoolForm.out]
      | transformed eq => exact absurd hw (by simp [Wrap.Idle])
    rw [hout, BoolForm.bare, BoolForm.out, l.out_bare hl, q.out_bare hq]
  | .existsPredicate q saved w, h => by
    rw [BoolForm.Settled] at h
    obtain ⟨-, hw, hq⟩ := h
    have hout : (BoolForm.existsPredicate q saved w).out = .exists q.out := by
      cases w with
      | fresh | cached eq => simp only [BoolForm.out]
      | transformed eq => exact absurd hw (by simp [Wrap.Idle])
    rw [hout, BoolForm.bare, BoolForm.out, q.out_bare hq]
  | .compSubquery l _ q, h => by
    rw [BoolForm.Settled] at h
    rw [BoolForm.bare, BoolForm.out, BoolForm.out, l.out_bare h.1, q.out_bare h.2]

theorem QuerySpec.out_bare : ∀ (q : QuerySpec), q.Settled → q.bare.out = q.out
  | .mk _ _ (.mk _ _ es) from_ search group _ _ _, h => by
    rw [QuerySpec.Settled, SelectList.Settled] at h
    rw [QuerySpec.bare, SelectList.bare, QuerySpec.out, QuerySpec.out, outList_bare es h.1.2,
      from_.out_bare h.2.1, search.out_bare h.2.2.1, outGroup_bare group h.2.2.2]

theorem outGroup_bare : ∀ (group : Option GroupClause), GroupSettled group →
    outGroup (bareGroup group) = outGroup group
  | none, _ => by rw [bareGroup]
  | some (.mk groupBy having), h => by
    rw [GroupSettled] at h
    rw [bareGroup, outGroup, outGroup, having.out_bare h]

theorem Subquery.out_bare : ∀ (q : Subquery), q.Settled → q.bare.out = q.out
  | .spec q, h => by
    rw [Subquery.Settled] at h
    rw [Subquery.bare, Subquery.out, Subquery.out, q.out_bare h]
  | .union l type r w, h => by
    rw [Subquery.Settled] at h
    obtain ⟨hw, -, -, -, hl, hr⟩ := h
    have hout : (Subquery.union l type r w).out = .compound l.out type r.out := by
      cases w with
      | fresh | cached eq => simp only [Subquery.out]
      | transformed eq => exact absurd hw (by simp [Wrap.Idle])
    rw [hout, Subquery.bare, Subquery.out, l.out_bare hl, r.out_bare hr]

theorem TableRef.out_bare : ∀ (t : TableRef), t.Settled → t.bare.out = t.out
  | .table _, _ => by rw [TableRef.bare]
  | .subquery _ q _, h => by
    rw [TableRef.Settled] at h
    rw [TableRef.bare, TableRef.out, TableRef.out, q.out_bare h]
  | .joined l r _ _, h => by
    rw [TableRef.Settled] at h
    rw [TableRef.bare, TableRef.out, TableRef.out, l.out_bare h.1, r.out_bare h.2]

end

end DbFuzz.Expr
