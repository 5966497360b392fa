import DbFuzz.Expr.Syntax

/-! What the expression classes print. A transformed node prints its equivalent expression,
and prints itself where that expression points back at it. -/

namespace DbFuzz.Expr

mutual

def ValueExpr.out : ValueExpr → Sql
  | .node w form => w.outValue form.out
  | .plain _ text => text
  | .bool e => e.out

/-- `out_eq_value_expr` when the flag is set; `this` is what the class itself prints. -/
def Wrap.outValue : Wrap EqValue → Sql → Sql
  | .transformed eq, this => eq.out this
  | .fresh, this => this
  | .cached _, this => this

def EqValue.out : EqValue → Sql → Sql
  | .caseExpr c t f, this => .caseWhen c.out (t.out this) (f.out this)

def Arm.out : Arm → Sql → Sql
  | .shareThis, this => this
  | .other e, _ => e.out

def ValueForm.out : ValueForm → Sql
  | .columnReference reference collation => .column reference collation
  | .constExpr expr => .constant expr
  | .kept text => .kept text
  | .caseExpr c t f => .caseWhen c.out t.out f.out
  | .coalesce abbrev_ es => .coalesce abbrev_ (outList es)
  | .binopExpr oper l r => .binop oper l.out r.out
  | .funcall proc isAggregate es => .funcall proc isAggregate (outList es)
  | .winFuncall proc es => .winFuncall proc (outList es)
  | .castExpr useConvert target e => .cast useConvert target e.out
  | .intervalExpr isAdd unit date amount => .interval isAdd unit date.out amount.out
  | .mysqlJsonOp op path l => .mysqlJson op path l.out

def outList : List ValueExpr → List Sql
  | [] => []
  | e :: es => e.out :: outList es

def BoolExpr.out : BoolExpr → Sql
  | .node w form => w.outBool form.out
  | .plain _ text => .test text
  | .constBool (.transformed eq) _ => eq.out
  | .constBool .fresh op => .literal op
  | .constBool (.cached _) op => .literal op

def Wrap.outBool : Wrap EqBool → Sql → Sql
  | .transformed eq, this => eq.out this
  | .fresh, this => this
  | .cached _, this => this

def EqBool.out : EqBool → Sql → Sql
  | .boolTerm isOr l, this => .logic isOr l.out this

def BoolForm.out : BoolForm → Sql
  | .kept text => .test text
  | .comparisonOp oper l r => .comparison oper l.out r.out
  | .distinctPred l r => .distinct l.out r.out
  | .notExpr e => .not e.out
  | .nullPredicate isNull e => .isNull isNull e.out
  | .likeOp l likeOperator likeFormat => .like l.out likeOperator likeFormat
  | .boolTerm _ _ _ (some equal) => equal.out
  | .boolTerm isOr l r none => .logic isOr l.out r.out
  | .betweenOp _ _ _ (.transformed eq) => eq.out
  | .betweenOp l m r .fresh => .between m.out l.out r.out
  | .betweenOp l m r (.cached _) => .between m.out l.out r.out
  | .inQuery _ _ _ (.transformed eq) => eq.out
  | .inQuery isNegated l q .fresh => .inQuery isNegated l.out q.out
  | .inQuery isNegated l q (.cached _) => .inQuery isNegated l.out q.out
  | .existsPredicate _ _ (.transformed eq) => eq.out
  | .existsPredicate q _ .fresh => .exists q.out
  | .existsPredicate q _ (.cached _) => .exists q.out
  | .compSubquery l op q => .compSubquery l.out op q.out

def QuerySpec.out : QuerySpec → SqlQuery
  | .mk options quantifier (.mk _ names es) from_ search group window order limit =>
    .select options quantifier (outList es) names from_.out search.out (outGroup group)
      window order limit

def outGroup : Option GroupClause → Option SqlGroup
  | none => none
  | some (.mk groupBy having) => some (.mk groupBy having.out)

def Subquery.out : Subquery → SqlQuery
  | .spec q => q.out
  | .union _ _ _ (.transformed eq) => eq.out
  | .union l type r .fresh => .compound l.out type r.out
  | .union l type r (.cached _) => .compound l.out type r.out

def TableRef.out : TableRef → SqlTable
  | .table text => .table text
  | .subquery isLateral q ident => .subquery isLateral q.out ident
  | .joined l r type condition => .joined l.out r.out type condition

end

theorem outList_eq (es : List ValueExpr) : outList es = es.map ValueExpr.out := by
  induction es with
  | nil => rfl
  | cons e es ih => rw [outList, ih, List.map_cons]

end DbFuzz.Expr
