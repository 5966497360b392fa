import DbFuzz.Grammar.Statements
import DbFuzz.Lib.Productions

/-! The generator of expressions and queries (`expr/` and `grammar.cc`): what each constructor can
build, whatever it draws, from what its operands are. A tree is what one call of a factory
returns. -/

namespace DbFuzz.Generator

/-! The schema and the scope. -/

structure Routine (τ : Type) where
  name : String
  argtypes : List τ
  restype : τ
  deriving DecidableEq

structure Op (τ : Type) where
  name : String
  left : τ
  right : τ
  result : τ
  deriving DecidableEq

/-- `aggUsed` is set for a column that a having clause can only use inside an aggregate. -/
structure Column (τ : Type) where
  name : String
  type : τ
  aggUsed : Option (Routine τ)
  deriving DecidableEq

structure NamedRelation (τ : Type) where
  ident : String
  columns : List (Column τ)
  isBaseTable : Bool
  deriving DecidableEq

/-- `schema`, with the tables of the scope. `jsonTypes` are the types named `json` or `JSON`; the
types are pointers, so a type is consistent with itself only. -/
structure Schema (τ : Type) where
  targetDbms : TargetDbms
  boolType : τ
  intType : τ
  realType : τ
  textType : τ
  dateType : τ
  internalType : τ
  arrayType : τ
  jsonTypes : List τ
  operators : List (Op τ)
  routines : List (Routine τ)
  aggregates : List (Routine τ)
  windows : List (Routine τ)
  tables : List (NamedRelation τ)
  scopeTables : List (NamedRelation τ)
  hasQuantifiedCmp : Bool
  hasRegexp : Bool
  hasJsonJsonb : Bool
  hasArrayOps : Bool
  hasCast : Bool
  hasIntervalExpr : Bool
  hasMysqlJson : Bool
  hasWindowFrame : Bool
  hasGroupingSets : Bool
  hasJsonTable : Bool

/-! The productions. -/

/-- The classes of the productions, each value expression with its `type`. A `columnReference`
puts a column with `aggUsed` in its aggregate; a `columnByName` comes from the constructor that
prints the names it is given. -/
inductive Production (τ : Type)
  | windowFunction (type : τ)
  | winFuncall (proc : Routine τ) (type : τ)
  | winFuncUsingExistWin (type : τ)
  | coalesce (abbrev_ : String) (type : τ)
  | funcall (proc : Routine τ) (isAggregate : Bool) (type : τ)
  | caseExpr (type : τ)
  | binopExpr (oper : Op τ) (type : τ)
  | jsonExtractOp (type : τ)
  | arrayConstructor (type : τ)
  | castExpr (targetTypeName : String) (type : τ)
  | intervalExpr (type : τ)
  | mysqlJsonOp (type : τ)
  | atomicSubselect (agg : Option (Routine τ)) (tab : NamedRelation τ) (col : Column τ) (type : τ)
  | columnReference (rel : NamedRelation τ) (col : Column τ)
  | columnByName (rel : NamedRelation τ) (col : Column τ)
  | constExpr (type : τ)
  | comparisonOp (oper : Op τ)
  | boolTerm
  | notExpr
  | nullPredicate
  | constBool
  | betweenOp
  | likeOp
  | inQuery
  | compSubquery
  | quantifiedComparison
  | regexpExpr
  | existsPredicate
  | querySpec (columns : List τ)
  | unionedQuery (columns : List τ)
  | selectList (columns : List τ)
  | fromClause (refs : List (NamedRelation τ))
  | tableOrQueryName (ref : NamedRelation τ)
  | tableSubquery (ref : NamedRelation τ)
  | jsonTableRef (ref : NamedRelation τ)
  | joinedTable (refs : List (NamedRelation τ))
  | simpleJoinCond (left right : NamedRelation τ × Column τ)
  | exprJoinCond
  | groupClause (fromRefs having : List (NamedRelation τ))
  | groupingSets
  | namedWindow
  | windowFrame

/-- A production with its `level`. -/
structure Labelled (τ : Type) where
  level : ℕ
  prod : Production τ

variable {τ : Type}

namespace Production

/-- The field `type` of a value expression. -/
def type (σ : Schema τ) : Production τ → Option τ
  | windowFunction u | winFuncall _ u | winFuncUsingExistWin u | coalesce _ u | funcall _ _ u
  | caseExpr u | binopExpr _ u | jsonExtractOp u | arrayConstructor u | castExpr _ u
  | intervalExpr u | mysqlJsonOp u | atomicSubselect _ _ _ u | constExpr u => some u
  | columnReference _ col | columnByName _ col => some col.type
  | comparisonOp _ | boolTerm | notExpr | nullPredicate | constBool | betweenOp | likeOp | inQuery
  | compSubquery | quantifiedComparison | regexpExpr | existsPredicate => some σ.boolType
  | _ => none

/-- The types of the columns that a query or its select list has. -/
def columns : Production τ → List τ
  | querySpec cols | unionedQuery cols | selectList cols => cols
  | _ => []

/-- The field `refs` of a table reference. -/
def refs : Production τ → List (NamedRelation τ)
  | fromClause refs | joinedTable refs => refs
  | tableOrQueryName r | tableSubquery r | jsonTableRef r => [r]
  | _ => []

end Production

/-! Requests. -/

/-- What a constructor finds in its parent: the references of the scope, the level, whether
`window_function::allowed` holds and whether `in_in_clause` is set. -/
structure Ctx (τ : Type) where
  refs : List (NamedRelation τ)
  level : ℕ
  windows : Bool
  inInClause : Bool

/-- A call of a factory or a constructor. -/
inductive Request (τ : Type)
  | value (type : Option τ) (preferRefs : Option (List (NamedRelation τ)))
  | bool
  | column (type : Option τ) (preferRefs : Option (List (NamedRelation τ)))
  | columnOf (rel : NamedRelation τ) (col : Column τ)
  | const (type : τ)
  | winFuncall (type : Option τ)
  | winFuncUsingExistWin (type : τ)
  | aggregateCall
  | query (pointedType : Option (List τ)) (txnMode : Bool)
  | unioned (pointedType : Option (List τ))
  | fromClause (onlyBaseTable : Bool)
  | tableRef (noJoin : Bool)
  | baseTable
  | joinCond (lhs rhs : List (NamedRelation τ))
  | selectList (fromRefs : List (NamedRelation τ)) (pointedType : Option (List τ)) (selectAll : Bool)
  | windowedList (fromRefs : List (NamedRelation τ)) (pointedType : Option (List τ))
  | groupedList (fromRefs : List (NamedRelation τ)) (target : NamedRelation τ × Column τ)
  | aggregateList
  | groupClause (fromRefs : List (NamedRelation τ)) (target : NamedRelation τ × Column τ)
  | groupingSets (fromRefs : List (NamedRelation τ))
  | namedWindow
  | windowFrame

abbrev Call (τ : Type) := Ctx τ × Request τ

namespace Ctx

/-- What the operands of a value expression find. -/
def below (c : Ctx τ) : Ctx τ := { c with level := c.level + 1 }

/-- What the parts of another production find. -/
def inside (c : Ctx τ) : Ctx τ := { c with level := c.level + 1, windows := false }

def withRefs (c : Ctx τ) (refs : List (NamedRelation τ)) : Ctx τ := { c with refs := refs }

/-- The scope of a subquery in an expression: no references in ClickHouse. -/
def forSubquery (σ : Schema τ) (c : Ctx τ) : Ctx τ :=
  c.inside.withRefs (if σ.targetDbms = .clickhouse then [] else c.refs)

def label (c : Ctx τ) (p : Production τ) : Labelled τ := ⟨c.level + 1, p⟩

/-- Every column of every reference, in the order of the scope. -/
def allColumns (refs : List (NamedRelation τ)) : List (Request τ) :=
  refs.flatMap fun r => r.columns.map (.columnOf r)

end Ctx

def valuesOf (c : Ctx τ) (types : List τ) : List (Call τ) :=
  types.map fun t => (c, .value (some t) none)

/-- The type of the second operand: that of the operator, or that of the first operand when both
sides have one type. -/
def Op.RightType (o : Op τ) (left : Option τ) (u : τ) : Prop :=
  u = o.right ∨ o.left = o.right ∧ left = some u

/-- The candidates of `cast_expr`. -/
def Schema.castTargets (σ : Schema τ) : List (String × τ) :=
  [("SIGNED", σ.intType), ("CHAR", σ.textType), ("DECIMAL", σ.realType), ("DATE", σ.dateType),
    ("DATETIME", σ.dateType), ("TIME", σ.dateType)]

/-- Functions that can be called: no internal type, no array argument. -/
structure Schema.Callable (σ : Schema τ) (proc : Routine τ) : Prop where
  restype : proc.restype ≠ σ.internalType
  internal : σ.internalType ∉ proc.argtypes
  array : σ.arrayType ∉ proc.argtypes

/-- The type constraint, when there is one. -/
def Meets (constraint : Option τ) (t : τ) : Prop := ∀ u ∈ constraint, u = t

/-- The columns `column_reference` picks from. -/
def Picks (c : Ctx τ) (type : Option τ) (preferRefs : Option (List (NamedRelation τ)))
    (rel : NamedRelation τ) (col : Column τ) : Prop :=
  col ∈ rel.columns ∧
    match type with
    | some t => rel ∈ c.refs ∧ t = col.type
    | none => rel ∈ preferRefs.getD c.refs

/-! Boolean expressions. -/

/-- `bool_expr::factory`; the level is compared with a `d20`. The operand of a `not_expr` is made
for the parent of the `not_expr`. -/
inductive BoolRule (σ : Schema τ) (c : Ctx τ) :
    Production τ → List (Call τ) → List (Production τ) → Prop
  | constBool : BoolRule σ c .constBool [] []
  | comparisonOp {o : Op τ} {l r : Production τ} {u : τ} : c.level ≤ 20 → o ∈ σ.operators →
    o.result = σ.boolType → o.RightType (l.type σ) u →
    BoolRule σ c (.comparisonOp o)
      [(c.below, .value (some o.left) none), (c.below, .value (some u) none)] [l, r]
  | boolTerm {l r : Production τ} : c.level ≤ 20 →
    BoolRule σ c .boolTerm [(c.below, .bool), (c.below, .bool)] [l, r]
  | notExpr {p : Production τ} : c.level ≤ 20 → BoolRule σ c .notExpr [(c, .bool)] [p]
  | nullPredicate {p : Production τ} : c.level ≤ 20 →
    BoolRule σ c .nullPredicate [(c.below, .value none none)] [p]
  | betweenOp {ls : List (Production τ)} : c.level ≤ 20 →
    BoolRule σ c .betweenOp (valuesOf c.below [σ.intType, σ.intType, σ.intType]) ls
  | likeOp {p : Production τ} : c.level ≤ 20 →
    BoolRule σ c .likeOp (valuesOf c.below [σ.textType]) [p]
  | inQuery {l q : Production τ} {u : τ} (union : Bool) : c.level ≤ 20 → l.type σ = some u →
    BoolRule σ c .inQuery
      [(c.below, .value none none),
        ({ c.forSubquery σ with inInClause := true },
          if union then .unioned (some [u]) else .query (some [u]) false)] [l, q]
  | compSubquery {l q : Production τ} {u : τ} : c.level ≤ 20 → l.type σ = some u →
    BoolRule σ c .compSubquery
      [(c.below, .value none none), (c.forSubquery σ, .query (some [u]) false)] [l, q]
  | quantifiedComparison {l q : Production τ} {u : τ} {lhs : Request τ} : c.level ≤ 20 →
    σ.hasQuantifiedCmp = true →
    (∃ rel ∈ c.refs, ∃ col ∈ rel.columns, col.type = σ.intType ∧ lhs = .columnOf rel col) ∨
      (∀ rel ∈ c.refs, ∀ col ∈ rel.columns, col.type ≠ σ.intType) ∧
        (c.refs ≠ [] ∧ lhs = .column none none ∨ c.refs = [] ∧ lhs = .const σ.intType) →
    l.type σ = some u →
    BoolRule σ c .quantifiedComparison [(c.below, lhs), (c.inside, .query (some [u]) false)] [l, q]
  | regexpExpr {ls : List (Production τ)} : c.level ≤ 20 → σ.hasRegexp = true →
    BoolRule σ c .regexpExpr (valuesOf c.below [σ.textType, σ.textType]) ls
  | existsPredicate {q : Production τ} (union : Bool) : c.level ≤ 20 →
    -- the numbers of two classes the server lacks fall through to this one
    σ.hasQuantifiedCmp = false ∨ σ.hasRegexp = false →
    BoolRule σ c .existsPredicate
      [(c.forSubquery σ, if union then .unioned none else .query none false)] [q]

/-! Other values. -/

/-- `value_expr::factory` past the boolean types. -/
inductive ValueRule (σ : Schema τ) (c : Ctx τ) (t : Option τ)
    (preferRefs : Option (List (NamedRelation τ))) :
    Production τ → List (Call τ) → List (Production τ) → Prop
  | windowFunction {u : τ} {n : ℕ} {l : Production τ} {ls : List (Production τ)}
    {frame : List (Call τ)} : c.level ≤ 5 → c.windows = true → l.type σ = some u →
    frame = [] ∨ σ.hasWindowFrame = true ∧ frame = [(c.inside, .windowFrame)] →
    ValueRule σ c t preferRefs (.windowFunction u)
      ((c.inside, .winFuncall t) ::
        (List.replicate (n + 1) (c.inside, .column none none) ++
          (Ctx.allColumns c.refs).map (Prod.mk c.inside) ++ frame)) (l :: ls)
  | coalesce {abbrev_ : String} {l r : Production τ} {u : τ} : c.level ≤ 5 →
    abbrev_ ∈ ["coalesce", "nullif"] → l.type σ = some u → r.type σ = some u →
    ValueRule σ c t preferRefs (.coalesce abbrev_ u)
      [(c.below, .value t none), (c.below, .value (some u) none)] [l, r]
  | funcall {proc : Routine τ} {ls : List (Production τ)} : c.level ≤ 5 → proc ∈ σ.routines →
    Meets t proc.restype → σ.Callable proc →
    ValueRule σ c t preferRefs (.funcall proc false (t.getD proc.restype))
      (valuesOf c.below proc.argtypes) ls
  | caseExpr {b l r : Production τ} {u : τ} : c.level ≤ 5 → l.type σ = some u →
    ValueRule σ c t preferRefs (.caseExpr u)
      [(c.below, .bool), (c.below, .value t none), (c.below, .value (some u) none)] [b, l, r]
  | binopExpr {o : Op τ} {l r : Production τ} {u : τ} : c.level ≤ 5 → o ∈ σ.operators →
    Meets t o.result → o.RightType (l.type σ) u →
    ValueRule σ c t preferRefs (.binopExpr o o.result)
      [(c.below, .value (some o.left) none), (c.below, .value (some u) none)] [l, r]
  | jsonExtractOp {p : Production τ} {lhs : Request τ} : c.level ≤ 5 → σ.hasJsonJsonb = true →
    Meets t σ.textType →
    c.refs ≠ [] ∧ lhs = .column none none ∨ c.refs = [] ∧ lhs = .const σ.textType →
    ValueRule σ c t preferRefs (.jsonExtractOp σ.textType) [(c.below, lhs)] [p]
  | arrayConstructor {n : ℕ} {ls : List (Production τ)} : c.level ≤ 5 → σ.hasArrayOps = true →
    t = none → 2 ≤ n → n ≤ 5 →
    ValueRule σ c t preferRefs (.arrayConstructor σ.intType)
      (valuesOf c.below (List.replicate n σ.intType)) ls
  | castExpr {p : Production τ} {name : String} {u : τ} : c.level ≤ 5 → σ.hasCast = true →
    (name, u) ∈ σ.castTargets → Meets t u →
    ValueRule σ c t preferRefs (.castExpr name u) [(c.below, .value none none)] [p]
  | intervalExpr {ls : List (Production τ)} : c.level ≤ 5 → σ.hasIntervalExpr = true →
    Meets t σ.dateType →
    ValueRule σ c t preferRefs (.intervalExpr σ.dateType)
      (valuesOf c.below [σ.dateType, σ.intType]) ls
  | mysqlJsonOp {p : Production τ} : c.level ≤ 5 → σ.hasMysqlJson = true → Meets t σ.textType →
    ValueRule σ c t preferRefs (.mysqlJsonOp σ.textType) (valuesOf c.below [σ.textType]) [p]
  | aggregateSubselect {agg : Routine τ} {u : τ} {tab : NamedRelation τ} {col : Column τ} :
    c.inInClause = false → agg ∈ σ.aggregates → Meets t agg.restype → agg.argtypes = [u] →
    tab ∈ σ.tables → col ∈ tab.columns → col.type = u →
    ValueRule σ c t preferRefs (.atomicSubselect (some agg) tab col agg.restype) [] []
  | typedSubselect {u : τ} {tab : NamedRelation τ} {col : Column τ} : c.inInClause = false →
    t = some u → tab ∈ σ.tables → col ∈ tab.columns → col.type = u →
    ValueRule σ c t preferRefs (.atomicSubselect none tab col col.type) [] []
  | anySubselect {tab : NamedRelation τ} {col : Column τ} : c.inInClause = false →
    t = none → tab ∈ σ.scopeTables → col ∈ tab.columns →
    ValueRule σ c t preferRefs (.atomicSubselect none tab col col.type) [] []
  | columnReference {rel : NamedRelation τ} {col : Column τ} : c.refs ≠ [] →
    Picks c t preferRefs rel col → ValueRule σ c t preferRefs (.columnReference rel col) [] []
  | constExpr : ValueRule σ c t preferRefs (.constExpr (t.getD σ.intType)) [] []

/-! Queries. -/

/-- The columns of a derived table; ClickHouse gets names of its own for them. -/
def derivedTable (ident : String) (columnName : ℕ → String) (types : List τ) : NamedRelation τ :=
  ⟨ident, types.mapIdx fun i t => ⟨columnName i, t, none⟩, false⟩

/-- The relation that a having clause sees in place of a reference of the from clause: the column
of the group, and every other one once for each aggregate of its type. -/
def groupedRelation [DecidableEq τ] (σ : Schema τ) (target : NamedRelation τ × Column τ)
    (rel : NamedRelation τ) : NamedRelation τ :=
  ⟨rel.ident, rel.columns.flatMap fun col =>
    if rel.ident ++ "." ++ col.name = target.1.ident ++ "." ++ target.2.name then [col]
    else (σ.aggregates.filter fun a => a.argtypes = [col.type]).map fun a =>
      ⟨col.name, a.restype, some a⟩, false⟩

def havingRefs [DecidableEq τ] (σ : Schema τ) (scope fromRefs : List (NamedRelation τ))
    (target : NamedRelation τ × Column τ) : List (NamedRelation τ) :=
  scope.filter (· ∉ fromRefs) ++ fromRefs.map (groupedRelation σ target)

/-- A column of a select list: in ClickHouse always a reference. -/
def selected (σ : Schema τ) (c : Ctx τ) (fromRefs : List (NamedRelation τ)) (t : Option τ) :
    Call τ :=
  ({ c.below with windows := true },
    if σ.targetDbms = .clickhouse then .column t (some fromRefs) else .value t (some fromRefs))

variable [DecidableEq τ]

/-- The scope of a query after its from clause. -/
def Ctx.queryScope (c : Ctx τ) (fromRefs : List (NamedRelation τ)) : Ctx τ :=
  c.inside.withRefs (c.refs ++ fromRefs)

/-- The constructors of queries and of their clauses. `use_group` is a global variable that an
exception can leave at any value, so a query without given types may always be grouped. -/
inductive QueryRule (σ : Schema τ) (c : Ctx τ) :
    Request τ → Production τ → List (Call τ) → List (Production τ) → Prop
  | querySpec {pointedType : Option (List τ)} {txnMode : Bool} {refs : List (NamedRelation τ)}
    {search : Production τ} {cols : List τ} :
    QueryRule σ c (.query pointedType txnMode) (.querySpec cols)
      [(c.inside, .fromClause txnMode), (c.queryScope refs, .bool),
        (c.queryScope refs, .selectList refs pointedType txnMode)]
      [.fromClause refs, search, .selectList cols]
  | windowedQuery {pointedType : Option (List τ)} {refs : List (NamedRelation τ)}
    {search window : Production τ} {cols : List τ} :
    QueryRule σ c (.query pointedType false) (.querySpec cols)
      [(c.inside, .fromClause false), (c.queryScope refs, .bool),
        (c.queryScope refs, .windowedList refs pointedType), (c.queryScope refs, .namedWindow)]
      [.fromClause refs, search, .selectList cols, window]
  | groupedQuery {refs : List (NamedRelation τ)} {search group : Production τ} {cols : List τ}
    {target : NamedRelation τ × Column τ} : target.1 ∈ refs → target.2 ∈ target.1.columns →
    QueryRule σ c (.query none false) (.querySpec cols)
      [(c.inside, .fromClause false), (c.queryScope refs, .bool),
        (c.queryScope refs, .groupedList refs target), (c.queryScope refs, .groupClause refs target)]
      [.fromClause refs, search, .selectList cols, group]
  | groupingSetsQuery {refs : List (NamedRelation τ)} {search group : Production τ}
    {cols : List τ} : σ.hasGroupingSets = true →
    QueryRule σ c (.query none false) (.querySpec cols)
      [(c.inside, .fromClause false), (c.queryScope refs, .bool),
        (c.queryScope refs, .aggregateList), (c.queryScope refs, .groupingSets refs)]
      [.fromClause refs, search, .selectList cols, group]
  | unionedQuery {pointedType : Option (List τ)} {l r : Production τ} :
    QueryRule σ c (.unioned pointedType) (.unionedQuery l.columns)
      [(c.inside, .query pointedType false), (c.inside, .query (some l.columns) false)] [l, r]
  | selectAll {refs : List (NamedRelation τ)} {cols : List τ} {ls : List (Production τ)} :
    ls.map (Production.type σ) = cols.map some →
    QueryRule σ c (.selectList refs none true) (.selectList cols)
      ((Ctx.allColumns refs).map (Prod.mk c.inside)) ls
  | selectAny {refs : List (NamedRelation τ)} {cols : List τ} {ls : List (Production τ)} :
    cols ≠ [] → ls.map (Production.type σ) = cols.map some →
    QueryRule σ c (.selectList refs none false) (.selectList cols)
      (cols.map fun _ => selected σ c refs none) ls
  | selectPointed {refs : List (NamedRelation τ)} {types cols : List τ} {ls : List (Production τ)} :
    ls.map (Production.type σ) = cols.map some →
    QueryRule σ c (.selectList refs (some types) false) (.selectList cols)
      (types.map fun t => selected σ c refs (some t)) ls
  -- each expression keeps its place or makes way for a call over the window
  | windowedAny {refs : List (NamedRelation τ)} {cols : List τ} {ls : List (Production τ)}
    {calls : List (Call τ)} : ls.map (Production.type σ) = cols.map some →
    List.Forall₂ (fun _ call => call = selected σ c refs none ∨
      ∃ u, call = (c, .winFuncUsingExistWin u)) cols calls →
    QueryRule σ c (.windowedList refs none) (.selectList cols) calls ls
  | windowedPointed {refs : List (NamedRelation τ)} {types cols : List τ}
    {ls : List (Production τ)} {calls : List (Call τ)} :
    ls.map (Production.type σ) = cols.map some →
    List.Forall₂ (fun t call => call = selected σ c refs (some t) ∨
      call = (c, .winFuncUsingExistWin t)) types calls →
    QueryRule σ c (.windowedList refs (some types)) (.selectList cols) calls ls
  | groupedList {refs : List (NamedRelation τ)} {target : NamedRelation τ × Column τ}
    {cols : List τ} {ls : List (Production τ)} {n : ℕ} :
    ls.map (Production.type σ) = cols.map some →
    QueryRule σ c (.groupedList refs target) (.selectList cols)
      ((c.inside, .columnOf target.1 target.2) ::
        List.replicate n (c.inside.withRefs refs, .aggregateCall)) ls
  | aggregateList {cols : List τ} {ls : List (Production τ)} {n : ℕ} :
    ls.map (Production.type σ) = cols.map some →
    QueryRule σ c .aggregateList (.selectList cols)
      (List.replicate n (c.inside, .aggregateCall)) ls
  | groupClause {refs : List (NamedRelation τ)} {target : NamedRelation τ × Column τ}
    {having : Production τ} :
    QueryRule σ c (.groupClause refs target)
      (.groupClause refs (havingRefs σ c.refs refs target))
      [(c.inside.withRefs (havingRefs σ c.refs refs target), .bool)] [having]
  | groupingSets {refs : List (NamedRelation τ)} {ls : List (Production τ)} {n : ℕ} :
    2 ≤ n → n ≤ 4 → n ≤ (Ctx.allColumns refs).length →
    QueryRule σ c (.groupingSets refs) .groupingSets
      (((Ctx.allColumns refs).take n).map (Prod.mk c.inside) ++
        [(c.inside, .bool)]) ls
  | namedWindow {ls : List (Production τ)} {n : ℕ} {frame : List (Call τ)} : n ∈ [1, 2] →
    (∀ p ∈ ls.take n, ∀ u, p ≠ .constExpr u) →
    frame = [] ∨ σ.hasWindowFrame = true ∧ frame = [(c.inside, .windowFrame)] →
    QueryRule σ c .namedWindow .namedWindow
      (List.replicate n (c.inside, if σ.targetDbms = .clickhouse then .column none none
          else .value none none) ++
        (Ctx.allColumns c.refs).map (Prod.mk c.inside) ++ frame) ls
  | windowFrame : QueryRule σ c .windowFrame .windowFrame [] []

/-! Table references. -/

/-- `table_ref::factory` and the from clause around it; the levels are compared with a `d6`. -/
inductive TableRule (σ : Schema τ) (c : Ctx τ) :
    Request τ → Production τ → List (Call τ) → List (Production τ) → Prop
  | fromClause {p : Production τ} {onlyBaseTable : Bool} :
    TableRule σ c (.fromClause onlyBaseTable) (.fromClause p.refs)
      [(c.inside, if onlyBaseTable then .baseTable else .tableRef false)] [p]
  | tableSubquery {noJoin : Bool} {q : Production τ} {ident : String} {columnName : ℕ → String} :
    c.level ≤ 5 → σ.targetDbms = .clickhouse ∨ columnName = (fun i => "c_" ++ toString i) →
    TableRule σ c (.tableRef noJoin) (.tableSubquery (derivedTable ident columnName q.columns))
      [(c.inside, .query none false)] [q]
  | joinedTable {l r : Production τ} {cond : List (Production τ)} {calls : List (Call τ)} :
    c.level ≤ 8 →
    calls = [] ∨ calls = [(c.inside, .joinCond l.refs r.refs)] →
    TableRule σ c (.tableRef false) (.joinedTable (l.refs ++ r.refs))
      ((c.inside, .tableRef false) ::
        (c.inside, .tableRef (decide (σ.targetDbms = .clickhouse))) :: calls) (l :: r :: cond)
  | jsonTableRef {noJoin : Bool} {source : NamedRelation τ} {ident : String} :
    σ.hasJsonTable = true → σ.targetDbms = .mysql → source ∈ σ.scopeTables →
    (∃ col ∈ source.columns, col.type ∈ σ.jsonTypes) →
    TableRule σ c (.tableRef noJoin) (.jsonTableRef ⟨ident, [], false⟩) [] []
  | tableOrQueryName {noJoin : Bool} {t : NamedRelation τ} {ident : String} :
    t ∈ σ.scopeTables →
    TableRule σ c (.tableRef noJoin) (.tableOrQueryName ⟨ident, t.columns, false⟩) [] []
  | baseTable {t : NamedRelation τ} {ident : String} : t ∈ σ.scopeTables → t.isBaseTable = true →
    TableRule σ c .baseTable (.tableOrQueryName ⟨ident, t.columns, false⟩) [] []
  | simpleJoinCond {lhs rhs : List (NamedRelation τ)} {l r : NamedRelation τ × Column τ} :
    l.1 ∈ lhs → l.2 ∈ l.1.columns → r.1 ∈ rhs → r.2 ∈ r.1.columns → l.2.type = r.2.type →
    TableRule σ c (.joinCond lhs rhs) (.simpleJoinCond l r) [] []
  | exprJoinCond {lhs rhs : List (NamedRelation τ)} {search : Production τ} :
    σ.targetDbms ∉ [TargetDbms.tidb, .clickhouse, .postgres] →
    TableRule σ c (.joinCond lhs rhs) .exprJoinCond
      [(c.inside.withRefs (lhs ++ rhs), .bool)] [search]

/-- What a call can build. -/
inductive Rule (σ : Schema τ) :
    Call τ → Labelled τ → List (Call τ) → List (Labelled τ) → Prop
  | bool {c : Ctx τ} {p : Production τ} {calls : List (Call τ)} {ls : List (Labelled τ)} :
    BoolRule σ c p calls (ls.map Labelled.prod) → Rule σ (c, .bool) (c.label p) calls ls
  | boolValue {c : Ctx τ} {t : Option τ} {preferRefs : Option (List (NamedRelation τ))}
    {p : Production τ} {calls : List (Call τ)} {ls : List (Labelled τ)} : Meets t σ.boolType →
    BoolRule σ c p calls (ls.map Labelled.prod) →
    Rule σ (c, .value t preferRefs) (c.label p) calls ls
  -- a second attempt has no preferred references
  | value {c : Ctx τ} {t : Option τ} {preferRefs used : Option (List (NamedRelation τ))}
    {p : Production τ} {calls : List (Call τ)} {ls : List (Labelled τ)} : t ≠ some σ.boolType →
    used = preferRefs ∨ used = none → ValueRule σ c t used p calls (ls.map Labelled.prod) →
    Rule σ (c, .value t preferRefs) (c.label p) calls ls
  | column {c : Ctx τ} {t : Option τ} {preferRefs : Option (List (NamedRelation τ))}
    {rel : NamedRelation τ} {col : Column τ} : Picks c t preferRefs rel col →
    Rule σ (c, .column t preferRefs) (c.label (.columnReference rel col)) [] []
  | columnOf {c : Ctx τ} {rel : NamedRelation τ} {col : Column τ} :
    Rule σ (c, .columnOf rel col) (c.label (.columnByName rel col)) [] []
  | const {c : Ctx τ} {t : τ} : Rule σ (c, .const t) (c.label (.constExpr t)) [] []
  | winFuncall {c : Ctx τ} {t : Option τ} {proc : Routine τ} {ls : List (Labelled τ)} :
    proc ∈ σ.aggregates ∨ proc ∈ σ.windows → Meets t proc.restype → σ.Callable proc →
    Rule σ (c, .winFuncall t) (c.label (.winFuncall proc (t.getD proc.restype)))
      (valuesOf c.below proc.argtypes) ls
  | winFuncUsingExistWin {c : Ctx τ} {t u : τ} {l : Labelled τ} : l.prod.type σ = some u →
    Rule σ (c, .winFuncUsingExistWin t) (c.label (.winFuncUsingExistWin u))
      [(c.inside, .winFuncall (some t))] [l]
  | aggregateCall {c : Ctx τ} {proc : Routine τ} {ls : List (Labelled τ)} :
    proc ∈ σ.aggregates → σ.Callable proc →
    Rule σ (c, .aggregateCall) (c.label (.funcall proc true proc.restype))
      (valuesOf c.below proc.argtypes) ls
  | query {c : Ctx τ} {r : Request τ} {p : Production τ} {calls : List (Call τ)}
    {ls : List (Labelled τ)} : QueryRule σ c r p calls (ls.map Labelled.prod) →
    Rule σ (c, r) (c.label p) calls ls
  | table {c : Ctx τ} {r : Request τ} {p : Production τ} {calls : List (Call τ)}
    {ls : List (Labelled τ)} : TableRule σ c r p calls (ls.map Labelled.prod) →
    Rule σ (c, r) (c.label p) calls ls

/-- What a call can return, whatever is drawn. -/
abbrev Generates (σ : Schema τ) : Call τ → LabelTree (Labelled τ) → Prop :=
  LabelTree.Derives (Rule σ)

/-! A schema with one table, and the query over it that a transaction test makes. -/

def column₀ : Column String := ⟨"c_0", "integer", none⟩

def table₀ : NamedRelation String := ⟨"t_0", [column₀], true⟩

def ref₀ : NamedRelation String := ⟨"ref_0", [column₀], false⟩

def equals : Op String := ⟨"=", "integer", "integer", "boolean"⟩

def oneTable : Schema String where
  targetDbms := .sqlite
  boolType := "boolean"
  intType := "integer"
  realType := "real"
  textType := "text"
  dateType := "timestamp"
  internalType := "internal"
  arrayType := "array"
  jsonTypes := []
  operators := [equals]
  routines := []
  aggregates := []
  windows := []
  tables := [table₀]
  scopeTables := [table₀]
  hasQuantifiedCmp := false
  hasRegexp := false
  hasJsonJsonb := false
  hasArrayOps := false
  hasCast := false
  hasIntervalExpr := false
  hasMysqlJson := false
  hasWindowFrame := false
  hasGroupingSets := false
  hasJsonTable := false

def start : Ctx String := ⟨[], 0, false, false⟩

/-- `select ref_0.c_0 from t_0 as ref_0 where ref_0.c_0 = 1`, and its levels. -/
def selectAllFrom : LabelTree (Labelled String) :=
  .node ⟨1, .querySpec ["integer"]⟩
    [.node ⟨2, .fromClause [ref₀]⟩ [.node ⟨3, .tableOrQueryName ref₀⟩ []],
      .node ⟨2, .comparisonOp equals⟩
        [.node ⟨3, .columnReference ref₀ column₀⟩ [], .node ⟨3, .constExpr "integer"⟩ []],
      .node ⟨2, .selectList ["integer"]⟩ [.node ⟨3, .columnByName ref₀ column₀⟩ []]]

theorem generates_selectAllFrom : Generates oneTable (start, .query none true) selectAllFrom := by
  refine .of_forall₂ (.query .querySpec) (.cons ?_ (.cons ?_ (.cons ?_ .nil)))
  · refine .of_forall₂ (.table (.fromClause (p := .tableOrQueryName ref₀))) (.cons ?_ .nil)
    exact .of_forall₂ (.table (.baseTable (t := table₀) (List.mem_singleton.2 rfl) rfl)) .nil
  · refine .of_forall₂ (.bool (.comparisonOp (by decide) (List.mem_singleton.2 rfl) rfl (.inl rfl)))
      (.cons ?_ (.cons ?_ .nil))
    · exact .of_forall₂ (.value (by decide) (.inl rfl) (.columnReference (by decide)
        ⟨List.mem_singleton.2 rfl, List.mem_singleton.2 rfl, rfl⟩)) .nil
    · exact .of_forall₂ (.value (by decide) (.inl rfl) .constExpr) .nil
  · exact .of_forall₂ (.query (.selectAll rfl)) (.cons (.of_forall₂ .columnOf .nil) .nil)

end DbFuzz.Generator
