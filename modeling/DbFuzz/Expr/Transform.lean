import DbFuzz.Expr.Print

/-! `equivalent_transform` and `back_transform`. `none` stands for an assertion that fires
or a pointer that is not there. -/

namespace DbFuzz.Expr

/-- What one `equivalent_transform` draws. A factory builds nodes that are not transformed,
so its boolean expressions print conditions. -/
structure Draw where
  randomValue : ValueExpr
  randomBool : BoolExpr
  d9 : ℕ
  d6 : ℕ
  bool_condition : randomBool.out.isCondition = true

/-- The draws of the nodes of a tree, by their paths. -/
def Choices := List ℕ → Draw

def Choices.sub (ρ : Choices) (i : ℕ) : Choices := fun path => ρ (i :: path)

/-! The constructors that are given their operands. -/

def BoolExpr.newConst (op : Option Bool) : BoolExpr := .constBool .fresh op

/-- Draws that nest no further nodes. -/
def plainDraws : Choices := fun _ =>
  { randomValue := .node .fresh (.constExpr "1"), randomBool := .newConst (some true), d9 := 1,
    d6 := 4, bool_condition := by simp only [BoolExpr.newConst, BoolExpr.out, Sql.isCondition] }

def BoolExpr.newNot (e : BoolExpr) : BoolExpr := .node .fresh (.notExpr e)

def BoolExpr.newNull (e : ValueExpr) (isNull : Bool) : BoolExpr :=
  .node .fresh (.nullPredicate isNull e)

def BoolExpr.newTerm (isOr : Bool) (l r : BoolExpr) : BoolExpr :=
  .node .fresh (.boolTerm isOr l r none)

def BoolExpr.newComparison (oper : String) (l r : ValueExpr) : BoolExpr :=
  .node .fresh (.comparisonOp oper l r)

def BoolExpr.newIn (l : ValueExpr) (q : Subquery) : BoolExpr :=
  .node .fresh (.inQuery false l q .fresh)

def BoolExpr.newExists (q : Subquery) : BoolExpr :=
  .node .fresh (.existsPredicate q none .fresh)

def ValueExpr.newCase (c : BoolExpr) (t f : ValueExpr) : ValueExpr :=
  .node .fresh (.caseExpr c t f)

/-- (rand_bool) or (not rand_bool) or (rand_bool is null) -/
def trueValue (random : BoolExpr) : BoolExpr :=
  .newTerm true (.newTerm true random (.newNot random)) (.newNull (.bool random) true)

/-- (rand_bool) and (not rand_bool) and (rand_bool is not null) -/
def falseValue (random : BoolExpr) : BoolExpr :=
  .newTerm false (.newTerm false random (.newNot random)) (.newNull (.bool random) false)

/-- The `eq_value_expr` of an expression that prints `printed`. -/
def eqValueExpr (d : Draw) (printed : Sql) : EqValue :=
  if d.d9 ≤ 3 then .caseExpr (trueValue d.randomBool) .shareThis (.other d.randomValue)
  else if d.d9 ≤ 6 then .caseExpr (falseValue d.randomBool) (.other d.randomValue) .shareThis
  else if d.d6 ≥ 3 then .caseExpr d.randomBool (.other (.plain .fresh printed)) .shareThis
  else .caseExpr d.randomBool .shareThis (.other (.plain .fresh printed))

def eqBoolExpr (d : Draw) : EqBool :=
  if d.d6 > 3 then .boolTerm false (trueValue d.randomBool)
  else .boolTerm true (falseValue d.randomBool)

/-- The `eq_expr` of a `const_bool`. -/
def eqConstBool (d : Draw) : Option Bool → BoolExpr
  | none => .newConst none
  | some false => .newTerm false d.randomBool (.newConst (some false))
  | some true => .newTerm true d.randomBool (.newConst (some true))

/-! `unioned_query` -/

/-- The operands stay as they are. -/
def QuerySpec.keeps (q : QuerySpec) : Bool := q.group.isSome || q.window.isSome

def eqOrNull (a b : ValueExpr) : BoolExpr :=
  .newTerm true (.newComparison "=" a b) (.newTerm false (.newNull a true) (.newNull b true))

def intersectPredicateFrom (p : BoolExpr) : List ValueExpr → List ValueExpr → Option BoolExpr
  | [], _ => some p
  | _ :: _, [] => none
  | a :: as, b :: bs => intersectPredicateFrom (.newTerm false p (eqOrNull a b)) as bs

def intersectPredicate : List ValueExpr → List ValueExpr → Option BoolExpr
  | a :: as, b :: bs => intersectPredicateFrom (eqOrNull a b) as bs
  | _, _ => none

/-- `intersect` and `except` become a condition of the left operand. -/
def CompoundType.splices : CompoundType → Bool
  | .intersect | .except => true
  | _ => false

/-- `unioned_query::unioned_query` of two given operands. -/
def Subquery.newUnion (l r : QuerySpec) (type : CompoundType) : Subquery :=
  .union l.withoutOrder type r.withoutOrder .fresh

/-- `unioned_query::equivalent_transform` -/
def unionTransform (l : QuerySpec) (type : CompoundType) (r : QuerySpec) (w : Wrap Subquery) :
    Option Subquery :=
  if w.isTransformed then none
  else if l.keeps || r.keeps || !type.splices then
    some (.union l.withoutOrder type r.withoutOrder (.transformed (.newUnion l r type)))
  else do
    let p ← intersectPredicate l.selectList.valueExprs r.selectList.valueExprs
    let r := r.withSearch (.newTerm false p r.search)
    let existsRhs := BoolExpr.newExists (.spec r)
    let l := l.withSearch (.newTerm false
      (if type = .intersect then existsRhs else .newNot existsRhs) l.search)
    some (.union l type r (.transformed (.spec l)))

/-- The right operand of a search condition that is a conjunction. -/
def BoolExpr.rightOperand : BoolExpr → Option BoolExpr
  | .node _ (.boolTerm _ _ r _) => some r
  | _ => none

/-- `unioned_query::back_transform` -/
def unionBack (l : QuerySpec) (type : CompoundType) (r : QuerySpec) (w : Wrap Subquery) :
    Option Subquery := do
  let w ← w.unmark
  if l.keeps || r.keeps || !type.splices then some (.union l type r w)
  else do
    let rs ← r.search.rightOperand
    let ls ← l.search.rightOperand
    some (.union (l.withSearch ls) type (r.withSearch rs) w)

/-! `in_query` and `exists_predicate` -/

/-- The query with the comparison as a further condition. -/
def QuerySpec.withMatch (l : ValueExpr) (q : QuerySpec) : Option QuerySpec := do
  let selected ← q.selectList.valueExprs.getLast?
  some (q.withSearch (.newTerm false (.newComparison "=" l selected) q.search))

/-- What stands for the condition inside the `eq_expr` of an `in_query`. -/
def Subquery.withMatch (l : ValueExpr) : Subquery → Option Subquery
  | .spec q => do
    let q ← q.withMatch l
    some (.spec q)
  | .union lhs type rhs _ => do
    let lhs ← lhs.withMatch l
    let rhs ← rhs.withMatch l
    unionTransform lhs.withoutOrder type rhs.withoutOrder .fresh

/-- The `eq_expr` of an `in_query`. -/
def inQueryEq (l : ValueExpr) (q : Subquery) : Option ValueExpr := do
  let new ← q.withMatch l
  some (.newCase (.newNull (.bool (.newIn l q)) false) (.bool (.newExists new))
    (.bool (.newConst none)))

/-- The union in the `eq_expr` of an `in_query`, turned back. -/
def inQueryUnionBack : Wrap ValueExpr → Option Subquery
  | .transformed (.node _ (.caseExpr _ (.bool (.node _ (.existsPredicate
      (.union l type r w) _ _))) _)) => unionBack l type r w
  | _ => none

/-- The select list that holds the search condition. -/
def QuerySpec.selectingSearch (q : QuerySpec) : SelectList :=
  .mk 1 ["c0"] [.newCase (.newNull (.bool q.search) true) (.bool (.newConst (some false)))
    (.bool q.search)]

/-- The second half of `exists_predicate::equivalent_transform`. -/
def existsTransform (s : Schema) (saved : Option SelectList) : Subquery → Option BoolForm
  | .spec q =>
    if saved.isSome then none
    else if q.keeps then
      some (.existsPredicate (.spec q) none (.transformed (.newExists (.spec q))))
    else
      let new := (q.withSearch (.newConst (some true))).withSelectList q.selectingSearch
      some (.existsPredicate (.spec new) (some q.selectList)
        (.transformed (.newIn (.bool (.newConst (some true))) (.spec new))))
  | .union l type r w =>
    if saved.isSome then none
    else do
      let new ← if s.targetDbms = .clickhouse then some (.union l type r w)
        else unionTransform l type r w
      some (.existsPredicate new none (.transformed (.newExists new)))

def betweenTransform (s : Schema) (l m r : ValueExpr) (w : Wrap BoolExpr) : Wrap BoolExpr :=
  if ">=" ∈ s.operators ∧ "<=" ∈ s.operators then
    .transformed (.newTerm false (.newComparison ">=" m l) (.newComparison "<=" m r))
  else w

/-! The transform. -/

mutual

def ValueExpr.transform (s : Schema) (ρ : Choices) : ValueExpr → Option ValueExpr
  | .node w form => do
    let w ← w.mark (eqValueExpr (ρ []) form.out)
    let form ← form.transform s ρ
    some (.node w form)
  | .plain w text => do
    let w ← w.mark (eqValueExpr (ρ []) text)
    some (.plain w text)
  | .bool e => do
    let e ← e.transform s ρ
    some (.bool e)

def ValueForm.transform (s : Schema) (ρ : Choices) : ValueForm → Option ValueForm
  | .columnReference reference collation => some (.columnReference reference collation)
  | .constExpr expr => some (.constExpr expr)
  | .kept text => some (.kept text)
  | .caseExpr c t f => do
    let c ← c.transform s (ρ.sub 0)
    let t ← t.transform s (ρ.sub 1)
    let f ← f.transform s (ρ.sub 2)
    some (.caseExpr c t f)
  | .coalesce abbrev_ es => do
    let es ← transformList s ρ 0 es
    some (.coalesce abbrev_ es)
  | .binopExpr oper l r => do
    let l ← l.transform s (ρ.sub 0)
    let r ← r.transform s (ρ.sub 1)
    some (.binopExpr oper l r)
  | .funcall proc isAggregate es => do
    let es ← if s.targetDbms = .clickhouse then some es else transformList s ρ 0 es
    some (.funcall proc isAggregate es)
  | .winFuncall proc es => do
    let es ← if s.targetDbms = .clickhouse then some es else transformList s ρ 0 es
    some (.winFuncall proc es)
  | .castExpr useConvert target e => do
    let e ← e.transform s (ρ.sub 0)
    some (.castExpr useConvert target e)
  | .intervalExpr isAdd unit date amount => do
    let date ← date.transform s (ρ.sub 0)
    let amount ← amount.transform s (ρ.sub 1)
    some (.intervalExpr isAdd unit date amount)
  | .mysqlJsonOp op path l => do
    let l ← l.transform s (ρ.sub 0)
    some (.mysqlJsonOp op path l)

def transformList (s : Schema) (ρ : Choices) : ℕ → List ValueExpr → Option (List ValueExpr)
  | _, [] => some []
  | i, e :: es => do
    let e ← e.transform s (ρ.sub i)
    let es ← transformList s ρ (i + 1) es
    some (e :: es)

def BoolExpr.transform (s : Schema) (ρ : Choices) : BoolExpr → Option BoolExpr
  | .node w form => do
    let w ← w.mark (eqBoolExpr (ρ []))
    let form ← form.transform s ρ
    some (.node w form)
  | .plain w text => do
    let w ← w.mark (eqBoolExpr (ρ []))
    some (.plain w text)
  | .constBool w op => do
    let w ← w.mark (eqConstBool (ρ []) op)
    some (.constBool w op)

def BoolForm.transform (s : Schema) (ρ : Choices) : BoolForm → Option BoolForm
  | .kept text => some (.kept text)
  | .comparisonOp oper l r => do
    let l ← l.transform s (ρ.sub 0)
    let r ← r.transform s (ρ.sub 1)
    some (.comparisonOp oper l r)
  | .distinctPred l r => do
    let l ← l.transform s (ρ.sub 0)
    let r ← r.transform s (ρ.sub 1)
    some (.distinctPred l r)
  | .notExpr e => do
    let e ← e.transform s (ρ.sub 0)
    some (.notExpr e)
  | .nullPredicate isNull e => do
    let e ← e.transform s (ρ.sub 0)
    some (.nullPredicate isNull e)
  | .likeOp l likeOperator likeFormat => do
    let l ← l.transform s (ρ.sub 0)
    some (.likeOp l likeOperator likeFormat)
  | .boolTerm isOr l r _ => do
    let l ← l.transform s (ρ.sub 0)
    let r ← r.transform s (ρ.sub 1)
    some (.boolTerm (!isOr) l r (some (.newNot (.newTerm (!isOr) (.newNot r) (.newNot l)))))
  | .betweenOp l m r w => do
    let l ← l.transform s (ρ.sub 0)
    let m ← m.transform s (ρ.sub 1)
    let r ← r.transform s (ρ.sub 2)
    some (.betweenOp l m r (betweenTransform s l m r w))
  | .inQuery isNegated l q w => do
    let l ← l.transform s (ρ.sub 0)
    let q ← q.transformParts s (ρ.sub 1) (s.targetDbms ≠ .clickhouse)
    if s.targetDbms = .clickhouse then some (.inQuery isNegated l q w)
    else do
      let eq ← inQueryEq l q
      some (.inQuery isNegated l q (.transformed eq))
  | .existsPredicate q saved _ => do
    let q ← q.transformParts s (ρ.sub 0) (s.targetDbms ≠ .clickhouse)
    existsTransform s saved q
  | .compSubquery l op q => do
    let l ← l.transform s (ρ.sub 0)
    let q ← q.transformParts s (ρ.sub 1) false
    some (.compSubquery l op q)

/-- The search condition and, if `list` is set, the select list. -/
def QuerySpec.transformParts (s : Schema) (ρ : Choices) (list : Bool) :
    QuerySpec → Option QuerySpec
  | .mk options quantifier (.mk columns names es) from_ search group window order limit => do
    let search ← search.transform s (ρ.sub 0)
    let es ← if list then transformList s (ρ.sub 1) 0 es else some es
    some (.mk options quantifier (.mk columns names es) from_ search group window order limit)

def Subquery.transformParts (s : Schema) (ρ : Choices) (list : Bool) :
    Subquery → Option Subquery
  | .spec q => do
    let q ← q.transformParts s ρ list
    some (.spec q)
  | .union l type r w => do
    let l ← l.transformParts s (ρ.sub 0) list
    let r ← r.transformParts s (ρ.sub 1) list
    some (.union l type r w)

end

/-! The way back. -/

mutual

def ValueExpr.back (s : Schema) : ValueExpr → Option ValueExpr
  | .node w form => do
    let form ← form.back s
    let w ← w.unmark
    some (.node w form)
  | .plain w text => do
    let w ← w.unmark
    some (.plain w text)
  | .bool e => do
    let e ← e.back s
    some (.bool e)

def ValueForm.back (s : Schema) : ValueForm → Option ValueForm
  | .columnReference reference collation => some (.columnReference reference collation)
  | .constExpr expr => some (.constExpr expr)
  | .kept text => some (.kept text)
  | .caseExpr c t f => do
    let f ← f.back s
    let t ← t.back s
    let c ← c.back s
    some (.caseExpr c t f)
  | .coalesce abbrev_ es => do
    let es ← backList s es
    some (.coalesce abbrev_ es)
  | .binopExpr oper l r => do
    let r ← r.back s
    let l ← l.back s
    some (.binopExpr oper l r)
  | .funcall proc isAggregate es => do
    let es ← if s.targetDbms = .clickhouse then some es else backList s es
    some (.funcall proc isAggregate es)
  | .winFuncall proc es => do
    let es ← if s.targetDbms = .clickhouse then some es else backList s es
    some (.winFuncall proc es)
  | .castExpr useConvert target e => do
    let e ← e.back s
    some (.castExpr useConvert target e)
  | .intervalExpr isAdd unit date amount => do
    let date ← date.back s
    let amount ← amount.back s
    some (.intervalExpr isAdd unit date amount)
  | .mysqlJsonOp op path l => do
    let l ← l.back s
    some (.mysqlJsonOp op path l)

def backList (s : Schema) : List ValueExpr → Option (List ValueExpr)
  | [] => some []
  | e :: es => do
    let e ← e.back s
    let es ← backList s es
    some (e :: es)

def BoolExpr.back (s : Schema) : BoolExpr → Option BoolExpr
  | .node w form => do
    let form ← form.back s
    let w ← w.unmark
    some (.node w form)
  | .plain w text => do
    let w ← w.unmark
    some (.plain w text)
  | .constBool w op => do
    let w ← w.unmark
    some (.constBool w op)

/-- The inner expression of a `not_expr`. -/
def BoolExpr.backInner (s : Schema) : BoolExpr → Option BoolExpr
  | .node _ (.notExpr e) => e.back s
  | _ => none

/-- The operands of a `bool_term` from its `equal_expr`. -/
def BoolExpr.backOperands (s : Schema) : BoolExpr → Option (BoolExpr × BoolExpr)
  | .node _ (.notExpr (.node _ (.boolTerm _ tmp2 tmp1 _))) => do
    let r ← tmp2.backInner s
    let l ← tmp1.backInner s
    some (l, r)
  | _ => none

/-- The right operand of a conjunction. -/
def BoolExpr.backRight (s : Schema) : BoolExpr → Option BoolExpr
  | .node _ (.boolTerm _ _ r _) => r.back s
  | _ => none

/-- The search condition that the last expression of a select list holds. -/
def backSearch (s : Schema) : List ValueExpr → Option BoolExpr
  | [] => none
  | [.node _ (.caseExpr _ _ (.bool e))] => e.back s
  | _ :: es => backSearch s es

def BoolForm.back (s : Schema) : BoolForm → Option BoolForm
  | .kept text => some (.kept text)
  | .comparisonOp oper l r => do
    let r ← r.back s
    let l ← l.back s
    some (.comparisonOp oper l r)
  | .distinctPred l r => do
    let r ← r.back s
    let l ← l.back s
    some (.distinctPred l r)
  | .notExpr e => do
    let e ← e.back s
    some (.notExpr e)
  | .nullPredicate isNull e => do
    let e ← e.back s
    some (.nullPredicate isNull e)
  | .likeOp l likeOperator likeFormat => do
    let l ← l.back s
    some (.likeOp l likeOperator likeFormat)
  | .boolTerm isOr _ _ (some equal) => do
    let (l, r) ← equal.backOperands s
    some (.boolTerm (!isOr) l r none)
  | .boolTerm _ _ _ none => none
  | .betweenOp l m r w => do
    let r ← r.back s
    let m ← m.back s
    let l ← l.back s
    some (.betweenOp l m r w.release)
  | .inQuery isNegated l (.spec q) w => do
    let q ← q.backParts s (s.targetDbms ≠ .clickhouse) false
    let l ← l.back s
    some (.inQuery isNegated l (.spec q) w.release)
  | .inQuery isNegated l (.union lhs type rhs wq) w => do
    if s.targetDbms ≠ .clickhouse then
      let _ ← inQueryUnionBack w
    let lhs ← lhs.backParts s (s.targetDbms ≠ .clickhouse) false
    let rhs ← rhs.backParts s (s.targetDbms ≠ .clickhouse) false
    let l ← l.back s
    some (.inQuery isNegated l (.union lhs type rhs wq) w.release)
  -- the search condition stands in the select list, whose own content was saved
  | .existsPredicate (.spec (.mk options quantifier (.mk _ _ new) from_ _ none none order limit))
      (some (.mk columns names es)) w => do
    let es ← if s.targetDbms = .clickhouse then some es else backList s es
    let search ← backSearch s new
    some (.existsPredicate (.spec (.mk options quantifier (.mk columns names es) from_ search
      none none order limit)) none w.release)
  | .existsPredicate (.spec (.mk _ _ _ _ _ none none _ _)) none _ => none
  | .existsPredicate (.spec q) saved w => do
    let q ← q.backParts s (s.targetDbms ≠ .clickhouse) false
    some (.existsPredicate (.spec q) saved w.release)
  | .existsPredicate (.union l type r wq) saved w => do
    let wq ← if s.targetDbms = .clickhouse then some wq else wq.unmark
    let splices := decide (s.targetDbms ≠ .clickhouse) && !(l.keeps || r.keeps || !type.splices)
    let l ← l.backParts s (s.targetDbms ≠ .clickhouse) splices
    let r ← r.backParts s (s.targetDbms ≠ .clickhouse) splices
    some (.existsPredicate (.union l type r wq) saved w.release)
  | .compSubquery l op (.spec q) => do
    let q ← q.backParts s false false
    let l ← l.back s
    some (.compSubquery l op (.spec q))
  | .compSubquery l op (.union lhs type rhs wq) => do
    let lhs ← lhs.backParts s false false
    let rhs ← rhs.backParts s false false
    let l ← l.back s
    some (.compSubquery l op (.union lhs type rhs wq))

/-- The select list, if `list` is set, and the search condition, or its right operand if a
condition was put in front of it. -/
def QuerySpec.backParts (s : Schema) (list splices : Bool) : QuerySpec → Option QuerySpec
  | .mk options quantifier (.mk columns names es) from_ search group window order limit => do
    let es ← if list then backList s es else some es
    let search ← if splices then search.backRight s else search.back s
    some (.mk options quantifier (.mk columns names es) from_ search group window order limit)

end

end DbFuzz.Expr
