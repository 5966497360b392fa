import DbFuzz.Grammar.Statements

/-! What the `out` functions of the expression classes print. `Sql` keeps the structure
of the printed text, which is bracketed throughout; `text` gives the characters, with a
blank wherever the source starts a new line. -/

namespace DbFuzz.Expr

/-- What the expression classes read of `schema`. Every schema registers `=`. -/
structure Schema where
  targetDbms : TargetDbms
  operators : List String
  trueLiteral : String
  falseLiteral : String
  nullLiteral : String
  booltype : String
  eq_registered : "=" ∈ operators

/-- `schema_mysql` -/
def schemaMysql : Schema where
  targetDbms := .mysql
  operators := ["&", ">>", "<<", "^", "|", ">", "<", ">=", "<=", "<>", "!=", "<=>", "=", "%", "*",
    "+", "-", "/", "DIV", "&&", "||", "XOR"]
  trueLiteral := "true"
  falseLiteral := "false"
  nullLiteral := "null"
  booltype := "tinyint"
  eq_registered := by simp

/-- `schema::compound_operators` -/
inductive CompoundType
  | union
  | unionDistinct
  | unionAll
  | intersect
  | intersectAll
  | except
  | exceptAll
  deriving DecidableEq, Repr

mutual

inductive Sql
  | column (reference collation : String)
  | constant (expr : String)
  /-- a value no transform looks into -/
  | kept (text : String)
  /-- a condition no transform looks into -/
  | test (text : String)
  | literal (op : Option Bool)
  | caseWhen (condition trueExpr falseExpr : Sql)
  | coalesce (abbrev_ : String) (valueExprs : List Sql)
  | binop (oper : String) (lhs rhs : Sql)
  | funcall (proc : String) (isAggregate : Bool) (parms : List Sql)
  | winFuncall (proc : String) (parms : List Sql)
  | cast (useConvert : Bool) (targetType : String) (innerExpr : Sql)
  | interval (isAdd : Bool) (unit : String) (dateExpr amount : Sql)
  | mysqlJson (op jsonPath : String) (lhs : Sql)
  | comparison (oper : String) (lhs rhs : Sql)
  | distinct (lhs rhs : Sql)
  | logic (isOr : Bool) (lhs rhs : Sql)
  | not (innerExpr : Sql)
  | isNull (isNull : Bool) (expr : Sql)
  | between (mhs lhs rhs : Sql)
  | like (lhs : Sql) (likeOperator likeFormat : String)
  | inQuery (isNegated : Bool) (lhs : Sql) (subquery : SqlQuery)
  | exists (subquery : SqlQuery)
  | compSubquery (lhs : Sql) (compOp : String) (subquery : SqlQuery)

inductive SqlQuery
  | select (mysqlSelectOptions setQuantifier : String) (valueExprs : List Sql)
      (names : List String) (fromClause : SqlTable) (search : Sql) (group : Option SqlGroup)
      (window : Option String) (order : Option (List (String × Bool))) (limit : Option ℕ)
  | compound (lhs : SqlQuery) (type : CompoundType) (rhs : SqlQuery)

inductive SqlGroup
  | mk (groupBy : String) (having : Sql)

inductive SqlTable
  | table (text : String)
  | subquery (isLateral : Bool) (query : SqlQuery) (ident : String)
  | joined (lhs rhs : SqlTable) (type : String) (condition : Option Sql)

end

/-- The text of a boolean expression. -/
def Sql.isCondition : Sql → Bool
  | .test _ | .literal _ | .comparison .. | .distinct .. | .logic .. | .not _ | .isNull ..
  | .between .. | .like .. | .inQuery .. | .exists _ | .compSubquery .. => true
  | _ => false

def CompoundType.text : CompoundType → String
  | union => "union"
  | unionDistinct => "union distinct"
  | unionAll => "union all"
  | intersect => "intersect"
  | intersectAll => "intersect all"
  | except => "except"
  | exceptAll => "except all"

/-- `const_bool::out` of an expression that is not transformed. -/
def literalText (s : Schema) (op : Option Bool) : String :=
  let text := match op with
    | some true => s.trueLiteral
    | some false => s.falseLiteral
    | none => s.nullLiteral
  match s.targetDbms with
  | .postgres | .yugabyte | .cockroach => text ++ "::" ++ s.booltype
  | _ => text

def orderText (order : List (String × Bool)) : String :=
  ", ".intercalate (order.map fun o => o.1 ++ " " ++ if o.2 then "asc" else "desc")

/-- The items of a select list with the names of the derived table. -/
def itemTexts : List String → List String → List String
  | expr :: exprs, name :: names => (expr ++ " as " ++ name) :: itemTexts exprs names
  | exprs, _ => exprs

mutual

def Sql.text (s : Schema) : Sql → String
  | .column reference collation => reference ++ collation
  | .constant expr => expr
  | .kept text | .test text => text
  | .literal op => literalText s op
  | .caseWhen c t f =>
    "case when (" ++ c.text s ++ ") then (" ++ t.text s ++ ") else (" ++ f.text s ++ ") end "
  | .coalesce abbrev_ exprs => abbrev_ ++ "(" ++ ", ".intercalate (texts s exprs) ++ ")"
  | .binop oper l r | .comparison oper l r =>
    "(" ++ l.text s ++ ") " ++ oper ++ " (" ++ r.text s ++ ")"
  | .funcall proc isAggregate parms =>
    proc ++ "(" ++ ", ".intercalate (texts s parms) ++
      (if isAggregate && parms.isEmpty then "*" else "") ++ ")"
  | .winFuncall proc parms =>
    proc ++ "(" ++ ",".intercalate (texts s parms) ++
      (if (proc = "count" ∨ proc = "COUNT") ∧ parms.isEmpty then "*" else "") ++ ")"
  | .cast true target e => "convert(" ++ e.text s ++ ", " ++ target ++ ")"
  | .cast false target e => "cast(" ++ e.text s ++ " as " ++ target ++ ")"
  | .interval isAdd unit date amount =>
    "(" ++ date.text s ++ ") " ++ (if isAdd then "+" else "-") ++ " interval (" ++
      amount.text s ++ ") " ++ unit
  | .mysqlJson op path l => "(" ++ l.text s ++ ")" ++ op ++ path
  | .distinct l r => "(" ++ l.text s ++ ") is distinct from (" ++ r.text s ++ ")"
  | .logic isOr l r =>
    "(" ++ l.text s ++ ") " ++ (if isOr then "or" else "and") ++ " (" ++ r.text s ++ ")"
  | .not e => "not (" ++ e.text s ++ ")"
  | .isNull isNull e =>
    "(" ++ e.text s ++ ") is " ++ (if isNull then "" else "not ") ++ s.nullLiteral
  | .between m l r =>
    "(" ++ m.text s ++ ") between (" ++ l.text s ++ ") and (" ++ r.text s ++ ")"
  | .like l likeOperator likeFormat => "(" ++ l.text s ++ ")" ++ likeOperator ++ likeFormat
  | .inQuery isNegated l q =>
    "(" ++ l.text s ++ ") " ++ (if isNegated then "not in" else "in") ++ " (" ++ q.text s ++ ")"
  | .exists q => "exists ( " ++ q.text s ++ ")"
  | .compSubquery l op q => "(" ++ l.text s ++ ") " ++ op ++ " ( " ++ q.text s ++ ")"

def texts (s : Schema) : List Sql → List String
  | [] => []
  | e :: es => e.text s :: texts s es

def SqlQuery.text (s : Schema) : SqlQuery → String
  | .select options quantifier exprs names from_ search group window order limit =>
    "select " ++ options ++ quantifier ++ " " ++
      ", ".intercalate (itemTexts (texts s exprs) names) ++ " from " ++ from_.text s ++
      " where " ++ search.text s ++
      (match group with
        | some g => " " ++ g.text s
        | none => "") ++
      (match window with
        | some w => " " ++ w
        | none => "") ++
      (match order with
        | some o => " order by " ++ orderText o
        | none => "") ++
      (match limit with
        | some n => " limit " ++ toString n
        | none => "")
  | .compound l type r => l.text s ++ " " ++ type.text ++ " " ++ r.text s

def SqlGroup.text (s : Schema) : SqlGroup → String
  | .mk groupBy having => groupBy ++ " having " ++ having.text s

def SqlTable.text (s : Schema) : SqlTable → String
  | .table text => text
  | .subquery isLateral q ident =>
    (if isLateral then "lateral " else "") ++ "(" ++ q.text s ++ ") as " ++ ident
  | .joined l r type condition =>
    let join := match type with
      | "straight_join" => "straight_join "
      | "natural" => "natural join "
      | _ => type ++ " join "
    let on := match condition with
      | some c => if type = "cross" ∨ type = "natural" then "" else "on (" ++ c.text s ++ ")"
      | none => ""
    let text := l.text s ++ " " ++ join ++ r.text s ++ " " ++ on
    if s.targetDbms = .clickhouse then text else "(" ++ text ++ ")"

end

end DbFuzz.Expr
