import Mathlib.Data.List.Range

/-! The `component_id` of an expression: the three functions each expression class has for it and
the testers' functions over whole statements. Their caller reduces one component after another. -/

namespace DbFuzz.Components

mutual

inductive ValueExpr
  | value (componentId : ℤ) (isTransformed : Bool) (form : ValueForm)
  | bool (expr : BoolExpr)

inductive ValueForm
  /-- A class that inherits the three functions. -/
  | kept (text : String)
  | binopExpr (oper : String) (lhs rhs : ValueExpr)
  | caseExpr (condition : BoolExpr) (trueExpr falseExpr : ValueExpr)
  | coalesce (abbrev_ : String) (valueExprs : Exprs)
  | funcall (proc : String) (parms : Exprs)
  | winFuncall (proc : String) (parms : Exprs)
  | castExpr (targetType : String) (innerExpr : ValueExpr)
  | intervalExpr (isAdd : Bool) (intervalUnit : String) (dateExpr amount : ValueExpr)
  | mysqlJsonOp (op jsonPath : String) (lhs : ValueExpr)

inductive Exprs
  | nil
  | cons (expr : ValueExpr) (rest : Exprs)

inductive BoolExpr
  | node (componentId : ℤ) (isTransformed : Bool) (form : BoolForm)
  /-- A `bool_term` has its `equal_expr` exactly while `is_transformed` is set. -/
  | transformedTerm (componentId : ℤ) (op : String) (lhs rhs : ValueExpr) (equalExpr : BoolExpr)

inductive BoolForm
  | kept (text : String)
  /-- `comparison_op`, `distinct_pred` -/
  | boolBinop (oper : String) (lhs rhs : ValueExpr)
  | boolTerm (op : String) (lhs rhs : ValueExpr)
  | notExpr (innerExpr : BoolExpr)
  | nullPredicate (negate : String) (expr : ValueExpr)
  | likeOp (lhs : ValueExpr) (likeOperator likeFormat : String)
  | betweenOp (lhs mhs rhs : ValueExpr)
  | inQuery (isNegated : Bool) (lhs : ValueExpr) (inSubquery : Subquery)
  | existsPredicate (subquery : Subquery)
  | compSubquery (lhs : ValueExpr) (compOp : String) (targetSubquery : Subquery)

/-- A `query_spec` or a `unioned_query`. Only the where clauses are visited, `text` is the rest. -/
inductive Subquery
  | spec (text : String) (search : BoolExpr)
  | union (text : String) (lhsSearch rhsSearch : BoolExpr)

end

namespace ValueExpr

def componentId : ValueExpr → ℤ
  | value id _ _ => id
  | bool (.node id _ _) => id
  | bool (.transformedTerm id _ _ _ _) => id

def withComponentId (id : ℤ) : ValueExpr → ValueExpr
  | value _ b form => value id b form
  | bool (.node _ b form) => bool (.node id b form)
  | bool (.transformedTerm _ op lhs rhs eq) => bool (.transformedTerm id op lhs rhs eq)

end ValueExpr

namespace BoolExpr

def componentId (e : BoolExpr) : ℤ := (ValueExpr.bool e).componentId

def withComponentId (id : ℤ) : BoolExpr → BoolExpr
  | node _ b form => node id b form
  | transformedTerm _ op lhs rhs eq => transformedTerm id op lhs rhs eq

end BoolExpr

/-! `set_component_id`: the reference `id` counts on. `none` is its assertion failing. -/

mutual

def ValueExpr.setComponentId : ValueExpr → ℤ → Option (ValueExpr × ℤ)
  | .value _ isTransformed form, id =>
    if isTransformed then none
    else do
      let f ← form.setComponentId (id + 1)
      return (.value id false f.1, f.2)
  | .bool expr, id => do
    let e ← expr.setComponentId id
    return (.bool e.1, e.2)

def ValueForm.setComponentId : ValueForm → ℤ → Option (ValueForm × ℤ)
  | .kept text, id => some (.kept text, id)
  | .binopExpr oper lhs rhs, id => do
    let l ← lhs.setComponentId id
    let r ← rhs.setComponentId l.2
    return (.binopExpr oper l.1 r.1, r.2)
  | .caseExpr condition trueExpr falseExpr, id => do
    let c ← condition.setComponentId id
    let t ← trueExpr.setComponentId c.2
    let f ← falseExpr.setComponentId t.2
    return (.caseExpr c.1 t.1 f.1, f.2)
  | .coalesce abbrev_ valueExprs, id => do
    let es ← valueExprs.setComponentId id
    return (.coalesce abbrev_ es.1, es.2)
  | .funcall proc parms, id => do
    let es ← parms.setComponentId id
    return (.funcall proc es.1, es.2)
  | .winFuncall proc parms, id => do
    let es ← parms.setComponentId id
    return (.winFuncall proc es.1, es.2)
  | .castExpr targetType innerExpr, id => do
    let e ← innerExpr.setComponentId id
    return (.castExpr targetType e.1, e.2)
  | .intervalExpr isAdd unit dateExpr amount, id => do
    let d ← dateExpr.setComponentId id
    let a ← amount.setComponentId d.2
    return (.intervalExpr isAdd unit d.1 a.1, a.2)
  | .mysqlJsonOp op jsonPath lhs, id => do
    let l ← lhs.setComponentId id
    return (.mysqlJsonOp op jsonPath l.1, l.2)

def Exprs.setComponentId : Exprs → ℤ → Option (Exprs × ℤ)
  | .nil, id => some (.nil, id)
  | .cons expr rest, id => do
    let e ← expr.setComponentId id
    let r ← rest.setComponentId e.2
    return (.cons e.1 r.1, r.2)

def BoolExpr.setComponentId : BoolExpr → ℤ → Option (BoolExpr × ℤ)
  | .node _ isTransformed form, id =>
    if isTransformed then none
    else do
      let f ← form.setComponentId (id + 1)
      return (.node id false f.1, f.2)
  | .transformedTerm _ _ _ _ _, _ => none

def BoolForm.setComponentId : BoolForm → ℤ → Option (BoolForm × ℤ)
  | .kept text, id => some (.kept text, id)
  | .boolBinop oper lhs rhs, id => do
    let l ← lhs.setComponentId id
    let r ← rhs.setComponentId l.2
    return (.boolBinop oper l.1 r.1, r.2)
  | .boolTerm op lhs rhs, id => do
    let l ← lhs.setComponentId id
    let r ← rhs.setComponentId l.2
    return (.boolTerm op l.1 r.1, r.2)
  | .notExpr innerExpr, id => do
    let e ← innerExpr.setComponentId id
    return (.notExpr e.1, e.2)
  | .nullPredicate negate expr, id => do
    let e ← expr.setComponentId id
    return (.nullPredicate negate e.1, e.2)
  | .likeOp lhs likeOperator likeFormat, id => do
    let l ← lhs.setComponentId id
    return (.likeOp l.1 likeOperator likeFormat, l.2)
  | .betweenOp lhs mhs rhs, id => do
    let l ← lhs.setComponentId id
    let m ← mhs.setComponentId l.2
    let r ← rhs.setComponentId m.2
    return (.betweenOp l.1 m.1 r.1, r.2)
  | .inQuery isNegated lhs inSubquery, id => do
    let l ← lhs.setComponentId id
    let q ← inSubquery.setComponentId l.2
    return (.inQuery isNegated l.1 q.1, q.2)
  | .existsPredicate subquery, id => do
    let q ← subquery.setComponentId id
    return (.existsPredicate q.1, q.2)
  | .compSubquery lhs compOp targetSubquery, id => do
    let l ← lhs.setComponentId id
    let q ← targetSubquery.setComponentId l.2
    return (.compSubquery l.1 compOp q.1, q.2)

def Subquery.setComponentId : Subquery → ℤ → Option (Subquery × ℤ)
  | .spec text search, id => do
    let s ← search.setComponentId id
    return (.spec text s.1, s.2)
  | .union text lhsSearch rhsSearch, id => do
    let l ← lhsSearch.setComponentId id
    let r ← rhsSearch.setComponentId l.2
    return (.union text l.1 r.1, r.2)

end

/-- `GET_COMPONENT_FROM_ID_CHILD`; `below` is the child's own search. -/
def getChild (id : ℤ) (child : ValueExpr) (below : Option ValueExpr) : Option ValueExpr :=
  if child.componentId = id then some child else below

mutual

def ValueExpr.getComponentFromId (id : ℤ) : ValueExpr → Option ValueExpr
  | .value _ _ form => form.getComponentFromId id
  | .bool expr => expr.getComponentFromId id

def ValueForm.getComponentFromId (id : ℤ) : ValueForm → Option ValueExpr
  | .kept _ => none
  | .binopExpr _ lhs rhs =>
    (getChild id lhs (lhs.getComponentFromId id)).or
      (getChild id rhs (rhs.getComponentFromId id))
  | .caseExpr condition trueExpr falseExpr =>
    (getChild id (.bool condition) (condition.getComponentFromId id)).or
      ((getChild id trueExpr (trueExpr.getComponentFromId id)).or
        (getChild id falseExpr (falseExpr.getComponentFromId id)))
  | .coalesce _ valueExprs => valueExprs.getComponentFromId id
  | .funcall _ parms => parms.getComponentFromId id
  | .winFuncall _ parms => parms.getComponentFromId id
  | .castExpr _ innerExpr => getChild id innerExpr (innerExpr.getComponentFromId id)
  | .intervalExpr _ _ dateExpr amount =>
    (getChild id dateExpr (dateExpr.getComponentFromId id)).or
      (getChild id amount (amount.getComponentFromId id))
  | .mysqlJsonOp _ _ lhs => getChild id lhs (lhs.getComponentFromId id)

def Exprs.getComponentFromId (id : ℤ) : Exprs → Option ValueExpr
  | .nil => none
  | .cons expr rest =>
    (getChild id expr (expr.getComponentFromId id)).or (rest.getComponentFromId id)

def BoolExpr.getComponentFromId (id : ℤ) : BoolExpr → Option ValueExpr
  | .node _ _ form => form.getComponentFromId id
  | .transformedTerm _ _ lhs rhs equalExpr =>
    (getChild id (.bool equalExpr) (equalExpr.getComponentFromId id)).or
      ((getChild id lhs (lhs.getComponentFromId id)).or
        (getChild id rhs (rhs.getComponentFromId id)))

def BoolForm.getComponentFromId (id : ℤ) : BoolForm → Option ValueExpr
  | .kept _ => none
  | .boolBinop _ lhs rhs =>
    (getChild id lhs (lhs.getComponentFromId id)).or
      (getChild id rhs (rhs.getComponentFromId id))
  | .boolTerm _ lhs rhs =>
    (getChild id lhs (lhs.getComponentFromId id)).or
      (getChild id rhs (rhs.getComponentFromId id))
  | .notExpr innerExpr => getChild id (.bool innerExpr) (innerExpr.getComponentFromId id)
  | .nullPredicate _ expr => getChild id expr (expr.getComponentFromId id)
  | .likeOp lhs _ _ => getChild id lhs (lhs.getComponentFromId id)
  | .betweenOp lhs mhs rhs =>
    (getChild id lhs (lhs.getComponentFromId id)).or
      ((getChild id mhs (mhs.getComponentFromId id)).or
        (getChild id rhs (rhs.getComponentFromId id)))
  -- the subquery comes first here, the left operand in the numbering
  | .inQuery _ lhs inSubquery =>
    (inSubquery.getComponentFromId id).or (getChild id lhs (lhs.getComponentFromId id))
  | .existsPredicate subquery => subquery.getComponentFromId id
  | .compSubquery lhs _ targetSubquery =>
    (targetSubquery.getComponentFromId id).or (getChild id lhs (lhs.getComponentFromId id))

def Subquery.getComponentFromId (id : ℤ) : Subquery → Option ValueExpr
  | .spec _ search => getChild id (.bool search) (search.getComponentFromId id)
  | .union _ lhsSearch rhsSearch =>
    (getChild id (.bool lhsSearch) (lhsSearch.getComponentFromId id)).or
      (getChild id (.bool rhsSearch) (rhsSearch.getComponentFromId id))

end

/-- What a call of `set_component_from_id` comes to. `crash` is an id written through a null
component. -/
inductive Outcome (α : Type)
  | unchanged
  | replaced (new : α)
  | crash

namespace Outcome

variable {α β : Type}

def map (f : α → β) : Outcome α → Outcome β
  | unchanged => unchanged
  | replaced a => replaced (f a)
  | crash => crash

/-- The return value `true`. -/
def new? : Outcome α → Option α
  | replaced a => some a
  | _ => none

def orElse : Outcome α → Outcome α → Outcome α
  | unchanged, next => next
  | done, _ => done

end Outcome

/-- A component pointer; `none` is null. -/
abbrev Pointer : Type := Option ValueExpr

/-- `dynamic_pointer_cast<bool_expr>` -/
def Pointer.boolValue : Pointer → Option BoolExpr
  | some (.bool expr) => some expr
  | _ => none

/-- `SET_COMPONENT_FROM_ID_CHILD` -/
def setChild (id : ℤ) (component : Pointer) (child : ValueExpr) (below : Outcome ValueExpr) :
    Outcome ValueExpr :=
  if child.componentId = id then
    match component with
    | some x => .replaced (x.withComponentId id)
    | none => .crash
  else below

/-- A child of the type `bool_expr`: without a `bool_value` it is not replaced itself. -/
def setBoolChild (id : ℤ) (component : Pointer) (child : BoolExpr) (below : Outcome BoolExpr) :
    Outcome BoolExpr :=
  match component.boolValue with
  | some x => if child.componentId = id then .replaced (x.withComponentId id) else below
  | none => below

mutual

def ValueExpr.setComponentFromId (id : ℤ) (component : Pointer) : ValueExpr → Outcome ValueExpr
  | .value i b form => (form.setComponentFromId id component).map (.value i b)
  | .bool expr => (expr.setComponentFromId id component).map .bool

def ValueForm.setComponentFromId (id : ℤ) (component : Pointer) : ValueForm → Outcome ValueForm
  | .kept _ => .unchanged
  | .binopExpr oper lhs rhs =>
    ((setChild id component lhs (lhs.setComponentFromId id component)).map
      (.binopExpr oper · rhs)).orElse
    ((setChild id component rhs (rhs.setComponentFromId id component)).map (.binopExpr oper lhs))
  | .caseExpr condition trueExpr falseExpr =>
    ((setBoolChild id component condition (condition.setComponentFromId id component)).map
      (.caseExpr · trueExpr falseExpr)).orElse
    (((setChild id component trueExpr (trueExpr.setComponentFromId id component)).map
      (.caseExpr condition · falseExpr)).orElse
    ((setChild id component falseExpr (falseExpr.setComponentFromId id component)).map
      (.caseExpr condition trueExpr)))
  | .coalesce abbrev_ valueExprs =>
    (valueExprs.setComponentFromId id component).map (.coalesce abbrev_)
  | .funcall proc parms => (parms.setComponentFromId id component).map (.funcall proc)
  | .winFuncall proc parms => (parms.setComponentFromId id component).map (.winFuncall proc)
  | .castExpr targetType innerExpr =>
    (setChild id component innerExpr (innerExpr.setComponentFromId id component)).map
      (.castExpr targetType)
  | .intervalExpr isAdd unit dateExpr amount =>
    ((setChild id component dateExpr (dateExpr.setComponentFromId id component)).map
      (.intervalExpr isAdd unit · amount)).orElse
    ((setChild id component amount (amount.setComponentFromId id component)).map
      (.intervalExpr isAdd unit dateExpr))
  | .mysqlJsonOp op jsonPath lhs =>
    (setChild id component lhs (lhs.setComponentFromId id component)).map
      (.mysqlJsonOp op jsonPath)

def Exprs.setComponentFromId (id : ℤ) (component : Pointer) : Exprs → Outcome Exprs
  | .nil => .unchanged
  | .cons expr rest =>
    ((setChild id component expr (expr.setComponentFromId id component)).map
      (.cons · rest)).orElse
    ((rest.setComponentFromId id component).map (.cons expr))

def BoolExpr.setComponentFromId (id : ℤ) (component : Pointer) : BoolExpr → Outcome BoolExpr
  | .node i b form => (form.setComponentFromId id component).map (.node i b)
  -- `bool_value`, null here, is what the search below `equal_expr` gets
  | .transformedTerm i op lhs rhs equalExpr =>
    ((setBoolChild id component equalExpr
      (equalExpr.setComponentFromId id (component.boolValue.map .bool))).map
        (.transformedTerm i op lhs rhs)).orElse
    (((setChild id component lhs (lhs.setComponentFromId id component)).map
      (.transformedTerm i op · rhs equalExpr)).orElse
    ((setChild id component rhs (rhs.setComponentFromId id component)).map
      (.transformedTerm i op lhs · equalExpr)))

def BoolForm.setComponentFromId (id : ℤ) (component : Pointer) : BoolForm → Outcome BoolForm
  | .kept _ => .unchanged
  | .boolBinop oper lhs rhs =>
    ((setChild id component lhs (lhs.setComponentFromId id component)).map
      (.boolBinop oper · rhs)).orElse
    ((setChild id component rhs (rhs.setComponentFromId id component)).map (.boolBinop oper lhs))
  | .boolTerm op lhs rhs =>
    ((setChild id component lhs (lhs.setComponentFromId id component)).map
      (.boolTerm op · rhs)).orElse
    ((setChild id component rhs (rhs.setComponentFromId id component)).map (.boolTerm op lhs))
  | .notExpr innerExpr =>
    (setBoolChild id component innerExpr (innerExpr.setComponentFromId id component)).map .notExpr
  | .nullPredicate negate expr =>
    (setChild id component expr (expr.setComponentFromId id component)).map (.nullPredicate negate)
  | .likeOp lhs likeOperator likeFormat =>
    (setChild id component lhs (lhs.setComponentFromId id component)).map
      (.likeOp · likeOperator likeFormat)
  | .betweenOp lhs mhs rhs =>
    ((setChild id component lhs (lhs.setComponentFromId id component)).map
      (.betweenOp · mhs rhs)).orElse
    (((setChild id component mhs (mhs.setComponentFromId id component)).map
      (.betweenOp lhs · rhs)).orElse
    ((setChild id component rhs (rhs.setComponentFromId id component)).map (.betweenOp lhs mhs)))
  | .inQuery isNegated lhs inSubquery =>
    ((inSubquery.setComponentFromId id component).map (.inQuery isNegated lhs)).orElse
    ((setChild id component lhs (lhs.setComponentFromId id component)).map
      (.inQuery isNegated · inSubquery))
  | .existsPredicate subquery =>
    (subquery.setComponentFromId id component).map .existsPredicate
  | .compSubquery lhs compOp targetSubquery =>
    ((targetSubquery.setComponentFromId id component).map (.compSubquery lhs compOp)).orElse
    ((setChild id component lhs (lhs.setComponentFromId id component)).map
      (.compSubquery · compOp targetSubquery))

def Subquery.setComponentFromId (id : ℤ) (component : Pointer) : Subquery → Outcome Subquery
  | .spec text search =>
    (setBoolChild id component search (search.setComponentFromId id component)).map (.spec text)
  | .union text lhsSearch rhsSearch =>
    ((setBoolChild id component lhsSearch (lhsSearch.setComponentFromId id component)).map
      (.union text · rhsSearch)).orElse
    ((setBoolChild id component rhsSearch (rhsSearch.setComponentFromId id component)).map
      (.union text lhsSearch))

end

/-! The testers' functions, over the last entry of a from clause. Join conditions are not
visited. -/

mutual

/-- `having` is there when `has_group` is. -/
inductive QuerySpec
  | mk (text : String) (selectList : Exprs) (fromClause : TableRef) (search : BoolExpr)
      (having : Option BoolExpr)

inductive TableRef
  | tableOrQueryName (text : String)
  | tableSubquery (text : String) (query : QuerySpec)
  | joinedTable (text : String) (lhs rhs : TableRef)

end

/-- Whether the select list is visited. -/
def visitsSelect (targetDbms : String) (having : Option BoolExpr) : Bool :=
  targetDbms ≠ "clickhouse" && having.isNone

def setCompidForHaving : Option BoolExpr → ℤ → Option (Option BoolExpr × ℤ)
  | none, id => some (none, id)
  | some search, id => do
    let s ← search.setComponentId id
    return (some s.1, s.2)

def getCompFromIdHaving (id : ℤ) : Option BoolExpr → Option ValueExpr
  | none => none
  | some search => getChild id (.bool search) (search.getComponentFromId id)

def setCompFromIdHaving (id : ℤ) (comp : Pointer) : Option BoolExpr → Outcome (Option BoolExpr)
  | none => .unchanged
  | some search =>
    (setBoolChild id comp search (search.setComponentFromId id comp)).map some

section

variable (targetDbms : String)

mutual

def QuerySpec.setCompidForQuery : QuerySpec → ℤ → Option (QuerySpec × ℤ)
  | .mk text selectList fromClause search having, id => do
    let l ← (if visitsSelect targetDbms having then selectList.setComponentId id
      else some (selectList, id))
    let f ← fromClause.setCompidForTableRef l.2
    let s ← search.setComponentId f.2
    let h ← setCompidForHaving having s.2
    return (.mk text l.1 f.1 s.1 h.1, h.2)

def TableRef.setCompidForTableRef : TableRef → ℤ → Option (TableRef × ℤ)
  | .tableOrQueryName text, id => some (.tableOrQueryName text, id)
  | .tableSubquery text query, id => do
    let q ← query.setCompidForQuery id
    return (.tableSubquery text q.1, q.2)
  | .joinedTable text lhs rhs, id => do
    let l ← lhs.setCompidForTableRef id
    let r ← rhs.setCompidForTableRef l.2
    return (.joinedTable text l.1 r.1, r.2)

end

mutual

def QuerySpec.getCompFromIdQuery (id : ℤ) : QuerySpec → Option ValueExpr
  | .mk _ selectList fromClause search having =>
    (if visitsSelect targetDbms having then selectList.getComponentFromId id else none).or
      ((fromClause.getCompFromIdTable id).or
        ((getChild id (.bool search) (search.getComponentFromId id)).or
          (getCompFromIdHaving id having)))

def TableRef.getCompFromIdTable (id : ℤ) : TableRef → Option ValueExpr
  | .tableOrQueryName _ => none
  | .tableSubquery _ query => query.getCompFromIdQuery id
  | .joinedTable _ lhs rhs => (lhs.getCompFromIdTable id).or (rhs.getCompFromIdTable id)

end

mutual

def QuerySpec.setCompFromIdQuery (id : ℤ) (comp : Pointer) : QuerySpec → Outcome QuerySpec
  | .mk text selectList fromClause search having =>
    ((if visitsSelect targetDbms having then selectList.setComponentFromId id comp
      else .unchanged).map (.mk text · fromClause search having)).orElse
    (((fromClause.setCompFromIdTable id comp).map (.mk text selectList · search having)).orElse
    (((setBoolChild id comp search (search.setComponentFromId id comp)).map
      (.mk text selectList fromClause · having)).orElse
    ((setCompFromIdHaving id comp having).map (.mk text selectList fromClause search))))

def TableRef.setCompFromIdTable (id : ℤ) (comp : Pointer) : TableRef → Outcome TableRef
  | .tableOrQueryName _ => .unchanged
  | .tableSubquery text query => (query.setCompFromIdQuery id comp).map (.tableSubquery text)
  | .joinedTable text lhs rhs =>
    ((lhs.setCompFromIdTable id comp).map (.joinedTable text · rhs)).orElse
    ((rhs.setCompFromIdTable id comp).map (.joinedTable text lhs))

end

/-- The `with_queries` of a `common_table_expression`. -/
inductive WithQueries
  | nil
  | cons (query : QuerySpec) (rest : WithQueries)

def WithQueries.setCompid : WithQueries → ℤ → Option (WithQueries × ℤ)
  | .nil, id => some (.nil, id)
  | .cons query rest, id => do
    let q ← query.setCompidForQuery targetDbms id
    let r ← rest.setCompid q.2
    return (.cons q.1 r.1, r.2)

def WithQueries.getCompFromId (id : ℤ) : WithQueries → Option ValueExpr
  | .nil => none
  | .cons query rest => (query.getCompFromIdQuery targetDbms id).or (rest.getCompFromId id)

def WithQueries.setCompFromId (id : ℤ) (comp : Pointer) : WithQueries → Outcome WithQueries
  | .nil => .unchanged
  | .cons query rest =>
    ((query.setCompFromIdQuery targetDbms id comp).map (.cons · rest)).orElse
    ((rest.setCompFromId id comp).map (.cons query))

/-- What the four testers reduce. -/
inductive Statement
  | select (query : QuerySpec)
  | commonTableExpression (text : String) (query : QuerySpec) (withQueries : WithQueries)
  | update (text : String) (setList : Exprs) (search : BoolExpr)
  | delete (text : String) (search : BoolExpr)

namespace Statement

/-- `set_compid_for_query` -/
def setCompidForQuery : Statement → ℤ → Option (Statement × ℤ)
  | select query, id => do
    let q ← query.setCompidForQuery targetDbms id
    return (select q.1, q.2)
  | commonTableExpression text query withQueries, id => do
    let q ← query.setCompidForQuery targetDbms id
    let w ← withQueries.setCompid targetDbms q.2
    return (commonTableExpression text q.1 w.1, w.2)
  | update text setList search, id => do
    let l ← setList.setComponentId id
    let s ← search.setComponentId l.2
    return (update text l.1 s.1, s.2)
  | delete text search, id => do
    let s ← search.setComponentId id
    return (delete text s.1, s.2)

/-- `get_comp_from_id_query` -/
def getCompFromIdQuery (id : ℤ) : Statement → Option ValueExpr
  | select query => query.getCompFromIdQuery targetDbms id
  | commonTableExpression _ query withQueries =>
    (query.getCompFromIdQuery targetDbms id).or (withQueries.getCompFromId targetDbms id)
  | update _ setList search =>
    (setList.getComponentFromId id).or
      (getChild id (.bool search) (search.getComponentFromId id))
  | delete _ search => getChild id (.bool search) (search.getComponentFromId id)

/-- `set_comp_from_id_query` -/
def setCompFromIdQuery (id : ℤ) (comp : Pointer) : Statement → Outcome Statement
  | select query => (query.setCompFromIdQuery targetDbms id comp).map select
  | commonTableExpression text query withQueries =>
    ((query.setCompFromIdQuery targetDbms id comp).map
      (commonTableExpression text · withQueries)).orElse
    ((withQueries.setCompFromId targetDbms id comp).map (commonTableExpression text query))
  | update text setList search =>
    ((setList.setComponentFromId id comp).map (update text · search)).orElse
    ((setBoolChild id comp search (search.setComponentFromId id comp)).map (update text setList))
  | delete text search =>
    (setBoolChild id comp search (search.setComponentFromId id comp)).map (delete text)

/-- The null literal that `minimize_testcase` puts in a component's place. -/
def nullValue (nullLiteral : String) (id : ℤ) : ValueExpr :=
  .bool (.node id false (.kept nullLiteral))

/-- One round of the first loop of `minimize_testcase`: `none` when an assertion on `set_status`
fails. `triggers` is a `qcn_test` that returns false; it leaves the statement as it was. -/
def minimizeRound (nullLiteral : String) (triggers : Statement → Bool) (s : Statement) (id : ℤ) :
    Option Statement :=
  (s.getCompFromIdQuery targetDbms id).elim (some s) fun tmpComp =>
    (s.setCompFromIdQuery targetDbms id (some (nullValue nullLiteral id))).new?.bind fun s' =>
      if triggers s' then some s'
      else (s'.setCompFromIdQuery targetDbms id (some tmpComp)).new?

/-- The loop up to `count`; the tests may depend on the round. -/
def minimizeLoop (nullLiteral : String) (triggers : ℕ → Statement → Bool) (count : ℕ)
    (s : Statement) : Option Statement :=
  (List.range count).foldlM
    (fun s id => minimizeRound targetDbms nullLiteral (triggers id) s id) s

end Statement

end

end DbFuzz.Components
