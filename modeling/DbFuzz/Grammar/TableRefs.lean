import DbFuzz.Grammar.Exclusion

/-! The table references in the expressions of a writing statement: where the classes of `expr/`
and `grammar.cc` take them from, when they are built and when they are transformed later. -/

namespace DbFuzz.Grammar

variable {τ : Type}

/-- The classes that only hand their scope, or a copy of it, on to their operands. -/
inductive ProdClass
  | windowFunction
  | winFuncUsingExistWin
  | coalesce
  | nullif
  | funcall
  | caseExpr
  | binopExpr
  | jsonExtractOp
  | arrayConstructor
  | castExpr
  | intervalExpr
  | mysqlJsonOp
  | columnReference
  | constExpr
  | printedExpr
  | comparisonOp
  | boolTerm
  | notExpr
  | nullPredicate
  | constBool
  | betweenOp
  | likeOp
  | inQuery
  | compSubquery
  | quantifiedComparison
  | regexpExpr
  | existsPredicate
  | unionedQuery
  | tableSubquery
  | joinedTable
  | groupClause
  | namedWindow
  deriving DecidableEq

/-- A production with its operands. `stored` is one that keeps an equivalent expression, printed in
its place while the flag is set; `shareThis` in there points back at the production. -/
inductive ProdTree (τ : Type)
  | node (cls : ProdClass) (operands : List (ProdTree τ))
  | querySpec (fromClause search : ProdTree τ) (valueExprs clauses : List (ProdTree τ))
  | atomicSubselect (typeConstraint : Option τ) (tab : NamedRelation τ)
  | correlatedSubquery (innerTab : NamedRelation τ)
  | tableOrQueryName (t : NamedRelation τ)
  | jsonTableRef (sourceTable : NamedRelation τ)
  | shareThis
  | stored (isTransformed : Bool) (self equivalent : ProdTree τ)

mutual

/-- The relations that stand behind a `from`. -/
def ProdTree.tableRefs : ProdTree τ → List (NamedRelation τ)
  | .node _ operands => listTableRefs operands
  | .querySpec fromClause search valueExprs clauses =>
    fromClause.tableRefs ++ search.tableRefs ++ listTableRefs valueExprs ++ listTableRefs clauses
  | .atomicSubselect _ t | .correlatedSubquery t | .tableOrQueryName t | .jsonTableRef t => [t]
  | .shareThis => []
  | .stored _ self equivalent => self.tableRefs ++ equivalent.tableRefs

def listTableRefs : List (ProdTree τ) → List (NamedRelation τ)
  | [] => []
  | p :: ps => p.tableRefs ++ listTableRefs ps

end

/-- What the constructors can build in a scope, whatever they draw. The scope of a subquery is a
copy with the same tables. -/
inductive Made (s : Sources τ) : ProdTree τ → Prop
  | node (cls : ProdClass) {operands : List (ProdTree τ)} :
    (∀ p ∈ operands, Made s p) → Made s (.node cls operands)
  | querySpec {fromClause search : ProdTree τ} {valueExprs clauses : List (ProdTree τ)} :
    Made s fromClause → Made s search → (∀ p ∈ valueExprs, Made s p) →
    (∀ p ∈ clauses, Made s p) → Made s (.querySpec fromClause search valueExprs clauses)
  | atomicSubselectOfType {type : τ} {tab : NamedRelation τ} :
    (type, tab) ∈ s.index → Made s (.atomicSubselect (some type) tab)
  | atomicSubselect {tab : NamedRelation τ} : tab ∈ s.tables → Made s (.atomicSubselect none tab)
  | correlatedSubquery {t : NamedRelation τ} : t ∈ s.tables → Made s (.correlatedSubquery t)
  | tableOrQueryName {t : NamedRelation τ} : t ∈ s.tables → Made s (.tableOrQueryName t)
  | jsonTableRef {t : NamedRelation τ} : t ∈ s.tables → Made s (.jsonTableRef t)

/-- The relations that can be drawn in a scope. -/
def Sources.Has (s : Sources τ) (t : NamedRelation τ) : Prop :=
  t ∈ s.tables ∨ ∃ type, (type, t) ∈ s.index

theorem mem_listTableRefs {ps : List (ProdTree τ)} {t : NamedRelation τ} :
    t ∈ listTableRefs ps ↔ ∃ p ∈ ps, t ∈ p.tableRefs := by
  induction ps with
  | nil => simp [listTableRefs]
  | cons p ps ih => simp [listTableRefs, ih]

/-- Each reference in a production is to an allowed relation. -/
def ProdTree.RefersTo (P : NamedRelation τ → Prop) (p : ProdTree τ) : Prop := ∀ t ∈ p.tableRefs, P t

section

variable {P : NamedRelation τ → Prop}

@[simp]
theorem refersTo_node {cls : ProdClass} {ps : List (ProdTree τ)} :
    (ProdTree.node cls ps).RefersTo P ↔ ∀ p ∈ ps, p.RefersTo P := by
  simp only [ProdTree.RefersTo, ProdTree.tableRefs, mem_listTableRefs]
  exact ⟨fun h p hp t ht => h t ⟨p, hp, ht⟩, fun h t ⟨p, hp, ht⟩ => h p hp t ht⟩

@[simp]
theorem refersTo_querySpec {from_ search : ProdTree τ} {exprs clauses : List (ProdTree τ)} :
    (ProdTree.querySpec from_ search exprs clauses).RefersTo P ↔ from_.RefersTo P ∧
      search.RefersTo P ∧ (∀ p ∈ exprs, p.RefersTo P) ∧ ∀ p ∈ clauses, p.RefersTo P := by
  rw [← @refersTo_node _ _ .unionedQuery, ← @refersTo_node _ _ .unionedQuery]
  simp only [ProdTree.RefersTo, ProdTree.tableRefs, List.forall_mem_append, and_assoc]

@[simp]
theorem refersTo_stored {flag : Bool} {p eq : ProdTree τ} :
    (ProdTree.stored flag p eq).RefersTo P ↔ p.RefersTo P ∧ eq.RefersTo P := by
  simp only [ProdTree.RefersTo, ProdTree.tableRefs, List.forall_mem_append]

@[simp]
theorem refersTo_shareThis : (ProdTree.shareThis : ProdTree τ).RefersTo P := by
  simp [ProdTree.RefersTo, ProdTree.tableRefs]

end

theorem Made.refersTo {s : Sources τ} {p : ProdTree τ} (h : Made s p) : p.RefersTo s.Has := by
  induction h with
  | node cls _ ih => exact refersTo_node.2 ih
  | querySpec _ _ _ _ hfrom hsearch hexprs hclauses =>
    exact refersTo_querySpec.2 ⟨hfrom, hsearch, hexprs, hclauses⟩
  | @atomicSubselectOfType type tab htab =>
    intro t ht
    rw [ProdTree.tableRefs, List.mem_singleton] at ht
    exact Or.inr ⟨type, ht ▸ htab⟩
  | atomicSubselect htab | correlatedSubquery htab | tableOrQueryName htab | jsonTableRef htab =>
    intro t ht
    rw [ProdTree.tableRefs, List.mem_singleton] at ht
    exact Or.inl (ht ▸ htab)

/-! The transforms. -/

namespace ProdTree

def boolTerm (l r : ProdTree τ) : ProdTree τ := .node .boolTerm [l, r]
def notExpr (e : ProdTree τ) : ProdTree τ := .node .notExpr [e]
def nullPredicate (e : ProdTree τ) : ProdTree τ := .node .nullPredicate [e]
def constBool : ProdTree τ := .node .constBool []
def caseExpr (c t f : ProdTree τ) : ProdTree τ := .node .caseExpr [c, t, f]
def comparisonOp (l r : ProdTree τ) : ProdTree τ := .node .comparisonOp [l, r]
def betweenOp (m l r : ProdTree τ) : ProdTree τ := .node .betweenOp [m, l, r]
def inQuery (l q : ProdTree τ) : ProdTree τ := .node .inQuery [l, q]
def unionedQuery (l r : ProdTree τ) : ProdTree τ := .node .unionedQuery [l, r]

/-- With the select list that `ori_value_exprs` keeps. -/
def existsPredicate (q : ProdTree τ) (ori : List (ProdTree τ)) : ProdTree τ :=
  .node .existsPredicate (q :: ori)

/-- `random or not random or random is null`, or its dual. -/
def knownValue (random : ProdTree τ) : ProdTree τ :=
  boolTerm (boolTerm random (notExpr random)) (nullPredicate random)

def eqOrNull (a b : ProdTree τ) : ProdTree τ :=
  boolTerm (comparisonOp a b) (boolTerm (nullPredicate a) (nullPredicate b))

/-- `intersect_predicate` over two select lists. -/
def intersectPredicate (p : ProdTree τ) : List (ProdTree τ) → List (ProdTree τ) → ProdTree τ
  | a :: as, b :: bs => intersectPredicate (boolTerm p (eqOrNull a b)) as bs
  | _, _ => p

end ProdTree

open ProdTree

/-- The expression that a class stores for itself in `equivalent_transform`. What it draws, it
draws in its scope at that time. -/
inductive Equivalent (s : Sources τ) : ProdTree τ → ProdTree τ → Prop
  | caseTrue (self : ProdTree τ) {bool value : ProdTree τ} : Made s bool → Made s value →
    Equivalent s self (caseExpr (knownValue bool) .shareThis value)
  | caseFalse (self : ProdTree τ) {bool value : ProdTree τ} : Made s bool → Made s value →
    Equivalent s self (caseExpr (knownValue bool) value .shareThis)
  | casePrinted (self : ProdTree τ) {bool : ProdTree τ} : Made s bool →
    Equivalent s self (caseExpr bool (.node .printedExpr [self]) .shareThis)
  | casePrintedLast (self : ProdTree τ) {bool : ProdTree τ} : Made s bool →
    Equivalent s self (caseExpr bool .shareThis (.node .printedExpr [self]))
  | boolExpr (self : ProdTree τ) {bool : ProdTree τ} : Made s bool →
    Equivalent s self (boolTerm (knownValue bool) .shareThis)
  | constNull : Equivalent s constBool constBool
  | constBool {bool : ProdTree τ} : Made s bool → Equivalent s constBool (boolTerm bool constBool)
  | boolTerm (l r : ProdTree τ) :
    Equivalent s (boolTerm l r) (notExpr (boolTerm (notExpr r) (notExpr l)))
  | betweenOp (m l r : ProdTree τ) :
    Equivalent s (betweenOp m l r) (boolTerm (comparisonOp m l) (comparisonOp m r))
  | inQuerySpec (l from_ search selected : ProdTree τ) {exprs : List (ProdTree τ)}
    (clauses : List (ProdTree τ)) : selected ∈ exprs →
    Equivalent s (inQuery l (.querySpec from_ search exprs clauses))
      (caseExpr (nullPredicate (inQuery l (.querySpec from_ search exprs clauses)))
        (existsPredicate (.querySpec from_ (boolTerm (comparisonOp l selected) search) exprs clauses)
          []) constBool)
  | inQueryUnion (l from₁ search₁ selected₁ from₂ search₂ selected₂ : ProdTree τ)
    {exprs₁ exprs₂ : List (ProdTree τ)} (clauses₁ clauses₂ : List (ProdTree τ)) :
    selected₁ ∈ exprs₁ → selected₂ ∈ exprs₂ →
    Equivalent s (inQuery l (unionedQuery (.querySpec from₁ search₁ exprs₁ clauses₁)
        (.querySpec from₂ search₂ exprs₂ clauses₂)))
      (caseExpr (nullPredicate (inQuery l (unionedQuery (.querySpec from₁ search₁ exprs₁ clauses₁)
          (.querySpec from₂ search₂ exprs₂ clauses₂))))
        (existsPredicate (unionedQuery
          (.querySpec from₁ (boolTerm (comparisonOp l selected₁) search₁) exprs₁ clauses₁)
          (.querySpec from₂ (boolTerm (comparisonOp l selected₂) search₂) exprs₂ clauses₂)) [])
        constBool)
  /-- Kept as it is: a group or a window, or a compound query. -/
  | existsPredicate (q : ProdTree τ) : Equivalent s (existsPredicate q []) (existsPredicate q [])
  | unionedQuery (l r : ProdTree τ) : Equivalent s (unionedQuery l r) (unionedQuery l r)

/-- The single steps of `equivalent_transform` and `back_transform`, at any node. -/
inductive TransformStep (s : Sources τ) : ProdTree τ → ProdTree τ → Prop
  | operand (cls : ProdClass) {p p' : ProdTree τ} (before after : List (ProdTree τ)) :
    TransformStep s p p' →
    TransformStep s (.node cls (before ++ p :: after)) (.node cls (before ++ p' :: after))
  | fromClause {p p' : ProdTree τ} (search : ProdTree τ) (exprs clauses : List (ProdTree τ)) :
    TransformStep s p p' →
    TransformStep s (.querySpec p search exprs clauses) (.querySpec p' search exprs clauses)
  | search {p p' : ProdTree τ} (from_ : ProdTree τ) (exprs clauses : List (ProdTree τ)) :
    TransformStep s p p' →
    TransformStep s (.querySpec from_ p exprs clauses) (.querySpec from_ p' exprs clauses)
  | valueExpr {p p' : ProdTree τ} (from_ search : ProdTree τ)
    (before after clauses : List (ProdTree τ)) : TransformStep s p p' →
    TransformStep s (.querySpec from_ search (before ++ p :: after) clauses)
      (.querySpec from_ search (before ++ p' :: after) clauses)
  | clause {p p' : ProdTree τ} (from_ search : ProdTree τ)
    (exprs before after : List (ProdTree τ)) : TransformStep s p p' →
    TransformStep s (.querySpec from_ search exprs (before ++ p :: after))
      (.querySpec from_ search exprs (before ++ p' :: after))
  | self (flag : Bool) {p p' : ProdTree τ} (eq : ProdTree τ) : TransformStep s p p' →
    TransformStep s (.stored flag p eq) (.stored flag p' eq)
  | equivalent (flag : Bool) (p : ProdTree τ) {eq eq' : ProdTree τ} : TransformStep s eq eq' →
    TransformStep s (.stored flag p eq) (.stored flag p eq')
  | store {p eq : ProdTree τ} : Equivalent s p eq → TransformStep s p (.stored true p eq)
  /-- The flag alone: the stored expression is used again. -/
  | flag (flag flag' : Bool) (p eq : ProdTree τ) :
    TransformStep s (.stored flag p eq) (.stored flag' p eq)
  | reset (flag : Bool) (p eq : ProdTree τ) : TransformStep s (.stored flag p eq) p
  /-- The search condition becomes the only selected expression. -/
  | existsMove (from_ search : ProdTree τ) (exprs clauses : List (ProdTree τ)) :
    TransformStep s (existsPredicate (.querySpec from_ search exprs clauses) [])
      (.stored true
        (existsPredicate (.querySpec from_ constBool
          [caseExpr (nullPredicate search) constBool search] clauses) exprs)
        (inQuery constBool (.querySpec from_ constBool
          [caseExpr (nullPredicate search) constBool search] clauses)))
  | existsBack (from_ search t n f : ProdTree τ) (ori clauses : List (ProdTree τ)) :
    TransformStep s (existsPredicate (.querySpec from_ t [caseExpr n f search] clauses) ori)
      (existsPredicate (.querySpec from_ search ori clauses) [])
  /-- `intersect`; for `except` there is a `not` before the `exists`. -/
  | compound (wrap : ProdTree τ → ProdTree τ) (from₁ search₁ a from₂ search₂ b : ProdTree τ)
    (exprs₁ clauses₁ exprs₂ clauses₂ : List (ProdTree τ)) : wrap = id ∨ wrap = notExpr →
    TransformStep s
      (unionedQuery (.querySpec from₁ search₁ (a :: exprs₁) clauses₁)
        (.querySpec from₂ search₂ (b :: exprs₂) clauses₂))
      (let rhs := .querySpec from₂
          (boolTerm (intersectPredicate (eqOrNull a b) exprs₁ exprs₂) search₂) (b :: exprs₂) clauses₂
        let lhs := .querySpec from₁ (boolTerm (wrap (existsPredicate rhs [])) search₁)
          (a :: exprs₁) clauses₁
        .stored true (unionedQuery lhs rhs) lhs)
  | compoundBack (from₁ added₁ search₁ from₂ added₂ search₂ : ProdTree τ)
    (exprs₁ clauses₁ exprs₂ clauses₂ : List (ProdTree τ)) :
    TransformStep s
      (unionedQuery (.querySpec from₁ (boolTerm added₁ search₁) exprs₁ clauses₁)
        (.querySpec from₂ (boolTerm added₂ search₂) exprs₂ clauses₂))
      (unionedQuery (.querySpec from₁ search₁ exprs₁ clauses₁)
        (.querySpec from₂ search₂ exprs₂ clauses₂))

section

variable {P : NamedRelation τ → Prop}

@[simp]
theorem refersTo_boolTerm {l r : ProdTree τ} :
    (ProdTree.boolTerm l r).RefersTo P ↔ l.RefersTo P ∧ r.RefersTo P := by
  simp [ProdTree.boolTerm]

@[simp]
theorem refersTo_comparisonOp {l r : ProdTree τ} :
    (comparisonOp l r).RefersTo P ↔ l.RefersTo P ∧ r.RefersTo P := by
  simp [comparisonOp]

@[simp]
theorem refersTo_unionedQuery {l r : ProdTree τ} :
    (ProdTree.unionedQuery l r).RefersTo P ↔ l.RefersTo P ∧ r.RefersTo P := by
  simp [ProdTree.unionedQuery]

@[simp]
theorem refersTo_inQuery {l q : ProdTree τ} :
    (inQuery l q).RefersTo P ↔ l.RefersTo P ∧ q.RefersTo P := by
  simp [inQuery]

@[simp]
theorem refersTo_notExpr {e : ProdTree τ} : (notExpr e).RefersTo P ↔ e.RefersTo P := by
  simp [notExpr]

@[simp]
theorem refersTo_nullPredicate {e : ProdTree τ} :
    (nullPredicate e).RefersTo P ↔ e.RefersTo P := by
  simp [nullPredicate]

@[simp]
theorem refersTo_constBool : (ProdTree.constBool : ProdTree τ).RefersTo P := by
  simp [ProdTree.constBool]

@[simp]
theorem refersTo_caseExpr {c t f : ProdTree τ} :
    (caseExpr c t f).RefersTo P ↔ c.RefersTo P ∧ t.RefersTo P ∧ f.RefersTo P := by
  simp [caseExpr]

@[simp]
theorem refersTo_existsPredicate {q : ProdTree τ} {ori : List (ProdTree τ)} :
    (ProdTree.existsPredicate q ori).RefersTo P ↔ q.RefersTo P ∧ ∀ p ∈ ori, p.RefersTo P := by
  simp [ProdTree.existsPredicate]

@[simp]
theorem refersTo_knownValue {p : ProdTree τ} : (knownValue p).RefersTo P ↔ p.RefersTo P := by
  simp [knownValue]

@[simp]
theorem refersTo_eqOrNull {a b : ProdTree τ} :
    (eqOrNull a b).RefersTo P ↔ a.RefersTo P ∧ b.RefersTo P := by
  simp [eqOrNull]

theorem refersTo_intersectPredicate {p : ProdTree τ} {as bs : List (ProdTree τ)}
    (hp : p.RefersTo P) (has : ∀ a ∈ as, a.RefersTo P) (hbs : ∀ b ∈ bs, b.RefersTo P) :
    (intersectPredicate p as bs).RefersTo P := by
  induction as generalizing p bs with
  | nil => exact hp
  | cons a as ih =>
    cases bs with
    | nil => exact hp
    | cons b bs =>
      rw [List.forall_mem_cons] at has hbs
      refine ih ?_ has.2 hbs.2
      simp [hp, has.1, hbs.1]

/-- An equivalent expression refers to what its production does or to something drawn. -/
theorem Equivalent.refersTo {s : Sources τ} (hs : ∀ t, s.Has t → P t) {p eq : ProdTree τ}
    (h : Equivalent s p eq) (hp : p.RefersTo P) : eq.RefersTo P := by
  have hdrawn : ∀ {q : ProdTree τ}, Made s q → q.RefersTo P :=
    fun hq t ht => hs t (hq.refersTo t ht)
  cases h with
  | caseTrue self hbool hvalue | caseFalse self hbool hvalue =>
    simp [hdrawn hbool, hdrawn hvalue]
  | casePrinted self hbool | casePrintedLast self hbool => simp [hdrawn hbool, hp]
  | boolExpr self hbool | constBool hbool => simp [hdrawn hbool]
  | boolTerm l r =>
    rw [refersTo_boolTerm] at hp
    simp [hp]
  | betweenOp m l r =>
    simp only [ProdTree.betweenOp, refersTo_node, List.forall_mem_cons] at hp
    simp [hp]
  | inQuerySpec l from_ search selected clauses hselected =>
    have hold := hp
    simp only [refersTo_inQuery, refersTo_querySpec] at hp
    obtain ⟨hl, hfrom, hsearch, hexprs, hclauses⟩ := hp
    have hnew : (ProdTree.boolTerm (comparisonOp l selected) search).RefersTo P := by
      simp [hl, hexprs _ hselected, hsearch]
    have hquery := refersTo_querySpec.2 ⟨hfrom, hnew, hexprs, hclauses⟩
    simp only [refersTo_caseExpr, refersTo_nullPredicate, refersTo_existsPredicate]
    exact ⟨hold, ⟨hquery, by simp⟩, refersTo_constBool⟩
  | inQueryUnion l from₁ search₁ selected₁ from₂ search₂ selected₂ clauses₁ clauses₂ h₁ h₂ =>
    have hold := hp
    simp only [refersTo_inQuery, refersTo_unionedQuery, refersTo_querySpec] at hp
    obtain ⟨hl, ⟨hfrom₁, hsearch₁, hexprs₁, hclauses₁⟩, hfrom₂, hsearch₂, hexprs₂, hclauses₂⟩ := hp
    have hnew₁ : (ProdTree.boolTerm (comparisonOp l selected₁) search₁).RefersTo P := by
      simp [hl, hexprs₁ _ h₁, hsearch₁]
    have hnew₂ : (ProdTree.boolTerm (comparisonOp l selected₂) search₂).RefersTo P := by
      simp [hl, hexprs₂ _ h₂, hsearch₂]
    have hquery := refersTo_unionedQuery.2
      ⟨refersTo_querySpec.2 ⟨hfrom₁, hnew₁, hexprs₁, hclauses₁⟩,
        refersTo_querySpec.2 ⟨hfrom₂, hnew₂, hexprs₂, hclauses₂⟩⟩
    simp only [refersTo_caseExpr, refersTo_nullPredicate, refersTo_existsPredicate]
    exact ⟨hold, ⟨hquery, by simp⟩, refersTo_constBool⟩
  | constNull | existsPredicate q | unionedQuery l r => exact hp

/-- A step adds no reference but what it draws. -/
theorem TransformStep.refersTo {s : Sources τ} (hs : ∀ t, s.Has t → P t) {p p' : ProdTree τ}
    (h : TransformStep s p p') (hp : p.RefersTo P) : p'.RefersTo P := by
  induction h with
  | operand cls before after _ ih =>
    simp only [refersTo_node, List.forall_mem_append, List.forall_mem_cons] at hp ⊢
    exact ⟨hp.1, ih hp.2.1, hp.2.2⟩
  | fromClause search exprs clauses _ ih =>
    rw [refersTo_querySpec] at hp ⊢
    exact ⟨ih hp.1, hp.2⟩
  | search from_ exprs clauses _ ih =>
    rw [refersTo_querySpec] at hp ⊢
    exact ⟨hp.1, ih hp.2.1, hp.2.2⟩
  | valueExpr from_ search before after clauses _ ih =>
    simp only [refersTo_querySpec, List.forall_mem_append, List.forall_mem_cons] at hp ⊢
    obtain ⟨hfrom, hsearch, ⟨hbefore, hstep, hafter⟩, hclauses⟩ := hp
    exact ⟨hfrom, hsearch, ⟨hbefore, ih hstep, hafter⟩, hclauses⟩
  | clause from_ search exprs before after _ ih =>
    simp only [refersTo_querySpec, List.forall_mem_append, List.forall_mem_cons] at hp ⊢
    obtain ⟨hfrom, hsearch, hexprs, hbefore, hstep, hafter⟩ := hp
    exact ⟨hfrom, hsearch, hexprs, hbefore, ih hstep, hafter⟩
  | self flag eq _ ih =>
    rw [refersTo_stored] at hp ⊢
    exact ⟨ih hp.1, hp.2⟩
  | equivalent flag p _ ih =>
    rw [refersTo_stored] at hp ⊢
    exact ⟨hp.1, ih hp.2⟩
  | store heq => exact refersTo_stored.2 ⟨hp, heq.refersTo hs hp⟩
  | flag flag flag' p eq => exact refersTo_stored.2 (refersTo_stored.1 hp)
  | reset flag p eq => exact (refersTo_stored.1 hp).1
  | existsMove from_ search exprs clauses =>
    simp only [refersTo_existsPredicate, refersTo_querySpec] at hp
    obtain ⟨⟨hfrom, hsearch, hexprs, hclauses⟩, -⟩ := hp
    have hmoved : (ProdTree.querySpec from_ constBool
        [caseExpr (nullPredicate search) constBool search] clauses).RefersTo P :=
      refersTo_querySpec.2 ⟨hfrom, refersTo_constBool, by simp [hsearch], hclauses⟩
    rw [refersTo_stored, refersTo_existsPredicate, refersTo_inQuery]
    exact ⟨⟨hmoved, hexprs⟩, refersTo_constBool, hmoved⟩
  | existsBack from_ search t n f ori clauses =>
    simp only [refersTo_existsPredicate, refersTo_querySpec, List.forall_mem_singleton,
      refersTo_caseExpr] at hp
    obtain ⟨⟨hfrom, -, ⟨-, -, hsearch⟩, hclauses⟩, hori⟩ := hp
    exact refersTo_existsPredicate.2
      ⟨refersTo_querySpec.2 ⟨hfrom, hsearch, hori, hclauses⟩, by simp⟩
  | compound wrap from₁ search₁ a from₂ search₂ b exprs₁ clauses₁ exprs₂ clauses₂ hwrap =>
    rw [refersTo_unionedQuery, refersTo_querySpec, refersTo_querySpec] at hp
    obtain ⟨⟨hfrom₁, hsearch₁, hexprs₁, hclauses₁⟩, hfrom₂, hsearch₂, hexprs₂, hclauses₂⟩ := hp
    have hpredicate : (intersectPredicate (eqOrNull a b) exprs₁ exprs₂).RefersTo P := by
      rw [List.forall_mem_cons] at hexprs₁ hexprs₂
      exact refersTo_intersectPredicate (refersTo_eqOrNull.2 ⟨hexprs₁.1, hexprs₂.1⟩)
        hexprs₁.2 hexprs₂.2
    have hrhs := refersTo_querySpec.2
      ⟨hfrom₂, refersTo_boolTerm.2 ⟨hpredicate, hsearch₂⟩, hexprs₂, hclauses₂⟩
    have hexists : (wrap (existsPredicate (.querySpec from₂ (boolTerm
        (intersectPredicate (eqOrNull a b) exprs₁ exprs₂) search₂) (b :: exprs₂) clauses₂)
          [])).RefersTo P := by
      rcases hwrap with rfl | rfl
      · exact refersTo_existsPredicate.2 ⟨hrhs, by simp⟩
      · exact refersTo_notExpr.2 (refersTo_existsPredicate.2 ⟨hrhs, by simp⟩)
    have hlhs := refersTo_querySpec.2
      ⟨hfrom₁, refersTo_boolTerm.2 ⟨hexists, hsearch₁⟩, hexprs₁, hclauses₁⟩
    exact refersTo_stored.2 ⟨refersTo_unionedQuery.2 ⟨hlhs, hrhs⟩, hlhs⟩
  | compoundBack from₁ added₁ search₁ from₂ added₂ search₂ exprs₁ clauses₁ exprs₂ clauses₂ =>
    simp only [refersTo_unionedQuery, refersTo_querySpec, refersTo_boolTerm] at hp
    obtain ⟨⟨hfrom₁, ⟨-, hsearch₁⟩, hexprs₁, hclauses₁⟩,
      hfrom₂, ⟨-, hsearch₂⟩, hexprs₂, hclauses₂⟩ := hp
    exact refersTo_unionedQuery.2 ⟨refersTo_querySpec.2 ⟨hfrom₁, hsearch₁, hexprs₁, hclauses₁⟩,
      refersTo_querySpec.2 ⟨hfrom₂, hsearch₂, hexprs₂, hclauses₂⟩⟩

end

/-! The run: other statements of the schema are generated, and the expressions of this one are
transformed. -/

/-- A writing statement that was just generated. A scope can hold the aliases of the common table
expressions around the statement. -/
structure GeneratedWrite [DecidableEq τ] (schema : Schema τ) where
  victim : Victim schema
  aliases : List (NamedRelation τ)
  earlier : List (Stmt schema)
  exprs : List (ProdTree τ)
  made : ∀ p ∈ exprs,
    Made (excludeForWrite victim.table ⟨schema.tables ++ aliases, indexAfter schema earlier⟩) p

/-- The index of the schema and the expressions of the statement. -/
structure WriteState (τ : Type) where
  index : TypeIndex τ
  exprs : List (ProdTree τ)

section

variable [DecidableEq τ] {schema : Schema τ}

namespace GeneratedWrite

def sources (w : GeneratedWrite schema) : Sources τ :=
  excludeForWrite w.victim.table ⟨schema.tables ++ w.aliases, indexAfter schema w.earlier⟩

def state (w : GeneratedWrite schema) : WriteState τ := ⟨w.sources.index, w.exprs⟩

/-- The tables of its scope stay, the index is the one of that time. -/
inductive Later (w : GeneratedWrite schema) : WriteState τ → WriteState τ → Prop
  | generate (st : Stmt schema) (s : WriteState τ) :
    Later w s ⟨(st.sources s.index).index, s.exprs⟩
  | transform (index : TypeIndex τ) (before after : List (ProdTree τ)) {p p' : ProdTree τ} :
    TransformStep ⟨w.sources.tables, index⟩ p p' →
    Later w ⟨index, before ++ p :: after⟩ ⟨index, before ++ p' :: after⟩

/-- What a state keeps: the index only loses entries. -/
structure Kept (w : GeneratedWrite schema) (s : WriteState τ) : Prop where
  index : s.index ⊆ w.sources.index
  exprs : ∀ p ∈ s.exprs, p.RefersTo w.sources.Has

theorem Later.kept {w : GeneratedWrite schema} {s s' : WriteState τ} (h : w.Later s s')
    (hs : w.Kept s) : w.Kept s' := by
  cases h with
  | generate st s => exact ⟨fun e he => hs.index (st.sources_index_subset _ he), hs.exprs⟩
  | transform index before after hstep =>
    have hhas : ∀ t, (⟨w.sources.tables, index⟩ : Sources τ).Has t → w.sources.Has t := by
      rintro t (ht | ⟨type, ht⟩)
      · exact Or.inl ht
      · exact Or.inr ⟨type, hs.index ht⟩
    refine ⟨hs.index, ?_⟩
    have hexprs := hs.exprs
    rw [List.forall_mem_append, List.forall_mem_cons] at hexprs ⊢
    exact ⟨hexprs.1, hstep.refersTo hhas hexprs.2.1, hexprs.2.2⟩

theorem kept_of_run {w : GeneratedWrite schema} {s : WriteState τ}
    (hrun : Relation.ReflTransGen w.Later w.state s) : w.Kept s := by
  induction hrun with
  | refl => exact ⟨fun _ h => h, fun p hp => (w.made p hp).refersTo⟩
  | tail _ hstep ih => exact hstep.kept ih

/-- The target of the statement or a view. -/
def Changes (w : GeneratedWrite schema) (name : String) : Prop :=
  name = w.victim.table.ident ∨ ∃ v ∈ schema.tables, v.isView = true ∧ name = v.ident

theorem not_changes_of_has (w : GeneratedWrite schema) {t : NamedRelation τ}
    (h : w.sources.Has t) : ¬ w.Changes t.ident := by
  have hgone : ¬ Gone (schema.tables ++ w.aliases) w.victim.table t := by
    rcases h with h | ⟨type, h⟩
    · exact (mem_excludeForWrite.1 t |>.1 h).2
    · exact (mem_excludeForWrite.2 _ |>.1 h).2
  rintro (h | ⟨v, hv, hview, h⟩)
  · exact hgone (Or.inl h)
  · exact hgone (Or.inr ⟨v, List.mem_append_left _ hv, hview, h⟩)

/-- After any run no table reference in the expressions of the statement names its target or a
view, and what the references name is what it was before the statement changes its target. -/
theorem not_changes_tableRefs (w : GeneratedWrite schema) {s : WriteState τ}
    (hrun : Relation.ReflTransGen w.Later w.state s) {p : ProdTree τ} (hp : p ∈ s.exprs) :
    (∀ t ∈ p.tableRefs, ¬ w.Changes t.ident) ∧
      ∀ (Content : Type) (before after : String → Content),
        (∀ name, ¬ w.Changes name → after name = before name) →
        p.tableRefs.map (fun t => after t.ident) = p.tableRefs.map fun t => before t.ident := by
  have hnot : ∀ t ∈ p.tableRefs, ¬ w.Changes t.ident :=
    fun t ht => w.not_changes_of_has ((kept_of_run hrun).exprs p hp t ht)
  exact ⟨hnot, fun Content before after hsame =>
    List.map_congr_left fun t ht => hsame _ (hnot t ht)⟩

end GeneratedWrite

end

/-! A delete whose condition compares a column with a subselect, and the transform of it. -/

def secondTable : NamedRelation String := ⟨"t_1", [("pkey", "int")], some true⟩

def comparison : ProdTree String :=
  comparisonOp (.node .columnReference []) (.atomicSubselect (some "int") secondTable)

theorem made_comparison :
    Made (excludeForWrite ⟨"t_0", [("pkey", "int")], some true⟩
      ⟨twoTables.tables ++ [], indexAfter twoTables []⟩) comparison := by
  refine Made.node _ (List.forall_mem_cons.2 ⟨Made.node _ (by simp), ?_⟩)
  exact List.forall_mem_singleton.2 (Made.atomicSubselectOfType (by decide))

/-- `t_0`, the table the delete is about. -/
def firstTable : NamedRelation String := ⟨"t_0", [("pkey", "int")], some true⟩

theorem firstTable_mem : firstTable ∈ twoTables.tables := List.mem_cons_self

theorem firstTable_base : firstTable.baseTable = some true := rfl

theorem firstTable_columns : firstTable.columns ≠ [] := List.cons_ne_nil _ _

def firstVictim : Victim twoTables := ⟨firstTable, firstTable_mem, firstTable_base, firstTable_columns⟩

def comparisonDelete : GeneratedWrite twoTables where
  victim := firstVictim
  aliases := []
  earlier := []
  exprs := [comparison]
  made := List.forall_mem_singleton.2 made_comparison

theorem not_changes_comparisonDelete :
    ((ProdTree.stored true comparison
        (boolTerm (knownValue comparison) .shareThis)).tableRefs.map NamedRelation.ident).Forall
      fun name => ¬ comparisonDelete.Changes name :=
  List.forall_iff_forall_mem.2 fun name hname => by
    obtain ⟨t, ht, rfl⟩ := List.mem_map.1 hname
    exact (comparisonDelete.not_changes_tableRefs (Relation.ReflTransGen.single
      (GeneratedWrite.Later.transform comparisonDelete.sources.index [] []
        (TransformStep.store (Equivalent.boolExpr comparison made_comparison))))
      (List.mem_singleton.2 rfl)).1 t ht

end DbFuzz.Grammar
