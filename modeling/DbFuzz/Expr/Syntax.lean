import DbFuzz.Expr.Sql

/-! The expression classes of `expr/` and the queries inside them. The fields that
`value_expr` and `bool_expr` keep for a transform stand in `Wrap`, the fields of a class in
its form. A class that inherits both transforms unchanged keeps its operands as text. -/

namespace DbFuzz.Expr

/-- A flag such as `is_transformed` with the equivalent expression it switches on. The
expression stays behind when the flag is taken back. -/
inductive Wrap (α : Type)
  | fresh
  | cached (eq : α)
  | transformed (eq : α)

namespace Wrap

variable {α : Type}

def isTransformed : Wrap α → Bool
  | transformed _ => true
  | _ => false

/-- `mark_transformed`, with its assertion; an expression already stored is used again. -/
def mark (new : α) : Wrap α → Option (Wrap α)
  | fresh => some (transformed new)
  | cached eq => some (transformed eq)
  | transformed _ => none

/-- `unmark_transformed`, with its assertion. -/
def unmark : Wrap α → Option (Wrap α)
  | transformed eq => some (cached eq)
  | _ => none

/-- A flag taken back without an assertion. -/
def release : Wrap α → Wrap α
  | transformed eq => cached eq
  | w => w

end Wrap

mutual

inductive ValueExpr
  /-- A class whose `out` looks at `is_transformed` first. -/
  | node (wrap : Wrap EqValue) (form : ValueForm)
  /-- A class whose `out` does not: `printed_expr`, `row_constructor`, `json_extract_op`,
  `array_constructor`. -/
  | plain (wrap : Wrap EqValue) (text : Sql)
  | bool (expr : BoolExpr)

inductive ValueForm
  | columnReference (reference collation : String)
  | constExpr (expr : String)
  /-- `atomic_subselect`, `window_function`, `win_func_using_exist_win` -/
  | kept (text : String)
  | caseExpr (condition : BoolExpr) (trueExpr falseExpr : ValueExpr)
  /-- `coalesce` and `nullif` -/
  | coalesce (abbrev_ : String) (valueExprs : List ValueExpr)
  | binopExpr (oper : String) (lhs rhs : ValueExpr)
  | funcall (proc : String) (isAggregate : Bool) (parms : List ValueExpr)
  | winFuncall (proc : String) (parms : List ValueExpr)
  | castExpr (useConvert : Bool) (targetType : String) (innerExpr : ValueExpr)
  | intervalExpr (isAdd : Bool) (unit : String) (dateExpr amount : ValueExpr)
  | mysqlJsonOp (op jsonPath : String) (lhs : ValueExpr)

inductive BoolExpr
  | node (wrap : Wrap EqBool) (form : BoolForm)
  /-- `quantified_comparison`, `regexp_expr`, `sounds_like_expr` -/
  | plain (wrap : Wrap EqBool) (text : String)
  /-- `op` is one of the three literals of the schema. -/
  | constBool (wrap : Wrap BoolExpr) (op : Option Bool)

inductive BoolForm
  /-- `member_of_expr` -/
  | kept (text : String)
  | comparisonOp (oper : String) (lhs rhs : ValueExpr)
  | distinctPred (lhs rhs : ValueExpr)
  | notExpr (innerExpr : BoolExpr)
  | nullPredicate (isNull : Bool) (expr : ValueExpr)
  | likeOp (lhs : ValueExpr) (likeOperator likeFormat : String)
  /-- `has_equal_expr` is set exactly while there is an `equal_expr`. -/
  | boolTerm (isOr : Bool) (lhs rhs : BoolExpr) (equalExpr : Option BoolExpr)
  /-- `eqExpr` holds `use_eq_expr` too. -/
  | betweenOp (lhs mhs rhs : ValueExpr) (eqExpr : Wrap BoolExpr)
  | inQuery (isNegated : Bool) (lhs : ValueExpr) (inSubquery : Subquery)
      (eqExpr : Wrap ValueExpr)
  /-- `saved` is the one entry that the vectors `ori_columns`, `ori_derived_table` and
  `ori_value_exprs` can hold. -/
  | existsPredicate (subquery : Subquery) (saved : Option SelectList) (eqExer : Wrap BoolExpr)
  | compSubquery (lhs : ValueExpr) (compOp : String) (targetSubquery : Subquery)

/-- The expressions `eq_value_expr` is set to. -/
inductive EqValue
  | caseExpr (condition : BoolExpr) (trueExpr falseExpr : Arm)

/-- `share_this` points back at the expression whose `eq_value_expr` it stands in. -/
inductive Arm
  | shareThis
  | other (expr : ValueExpr)

/-- The expressions `eq_bool_expr` is set to; the right operand is `share_this`. -/
inductive EqBool
  | boolTerm (isOr : Bool) (lhs : BoolExpr)

inductive SelectList
  | mk (columns : ℕ) (derivedTable : List String) (valueExprs : List ValueExpr)

/-- `group`, `window`, `order` and `limit` are there when the `has_` flag of the clause is
set. A from clause has one table reference. -/
inductive QuerySpec
  | mk (mysqlSelectOptions setQuantifier : String) (selectList : SelectList)
      (fromClause : TableRef) (search : BoolExpr) (group : Option GroupClause)
      (window : Option String) (order : Option (List (String × Bool))) (limit : Option ℕ)

inductive GroupClause
  | mk (groupBy : String) (havingCondSearch : BoolExpr)

/-- A `query_spec` or a `unioned_query`; `eqQuery` holds its `is_transformed` too. -/
inductive Subquery
  | spec (query : QuerySpec)
  | union (lhs : QuerySpec) (type : CompoundType) (rhs : QuerySpec) (eqQuery : Wrap Subquery)

inductive TableRef
  | table (text : String)
  | subquery (isLateral : Bool) (query : QuerySpec) (ident : String)
  | joined (lhs rhs : TableRef) (type : String) (condition : Option Sql)

end

namespace SelectList

def valueExprs : SelectList → List ValueExpr
  | mk _ _ exprs => exprs

end SelectList

namespace QuerySpec

def selectList : QuerySpec → SelectList
  | mk _ _ sl _ _ _ _ _ _ => sl

def search : QuerySpec → BoolExpr
  | mk _ _ _ _ search _ _ _ _ => search

def group : QuerySpec → Option GroupClause
  | mk _ _ _ _ _ group _ _ _ => group

def window : QuerySpec → Option String
  | mk _ _ _ _ _ _ window _ _ => window

def withSearch (search : BoolExpr) : QuerySpec → QuerySpec
  | mk options quantifier sl from_ _ group window order limit =>
    mk options quantifier sl from_ search group window order limit

def withSelectList (sl : SelectList) : QuerySpec → QuerySpec
  | mk options quantifier _ from_ search group window order limit =>
    mk options quantifier sl from_ search group window order limit

/-- What the constructor of a `unioned_query` does to its operands. -/
def withoutOrder : QuerySpec → QuerySpec
  | mk options quantifier sl from_ search group window _ _ =>
    mk options quantifier sl from_ search group window none none

end QuerySpec

end DbFuzz.Expr
