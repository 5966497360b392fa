import DbFuzz.Expr.Tester

/-! The statements a cross test runs, and what `transform_select` and
`back_transform_select` do to one of them. -/

namespace DbFuzz.Cross

open DbFuzz.Expr

/-- A with-query stands beside the name its reference prints. -/
abbrev WithQueries := List (String × Expr.QuerySpec)

structure CommonTableExpression where
  isRecursive : Bool
  withQueries : WithQueries
  query : Expr.QuerySpec

/-- `transform_select` looks into two classes of statements. -/
inductive Statement
  | querySpec (query : Expr.QuerySpec)
  | commonTableExpression (cte : CommonTableExpression)
  | other (text : String)

/-- `common_table_expression::out` -/
def CommonTableExpression.text (s : Schema) (cte : CommonTableExpression) : String :=
  let item := fun (w : String × Expr.QuerySpec) =>
    " " ++ w.1 ++ " AS (" ++ w.2.out.text s ++
      (if cte.isRecursive then " union all " ++ cte.query.out.text s else "") ++ ")"
  "WITH " ++ (if cte.isRecursive then "RECURSIVE " else "") ++
    ",  ".intercalate (cte.withQueries.map item) ++ " " ++
    (if cte.isRecursive then "select * from " ++ (cte.withQueries.head?.map Prod.fst).getD ""
      else cte.query.out.text s) ++ " "

/-- `print_stmt_to_string` -/
def Statement.text (s : Schema) : Statement → String
  | .querySpec q => q.out.text s
  | .commonTableExpression cte => cte.text s
  | .other text => text

/-- What `transform_select` does to a query: the condition, the select list, the condition
on the groups. The from clause stays. -/
def transformQuery (s : Schema) (ρ : Choices) : Expr.QuerySpec → Option Expr.QuerySpec
  | .mk options quantifier (.mk columns names es) from_ search group window order limit => do
    let search ← search.transform s (ρ.sub 0)
    let es ← transformList s (ρ.sub 1) 0 es
    let group ← group.mapM (GroupClause.eqTransform s (ρ.sub 2))
    some (.mk options quantifier (.mk columns names es) from_ search group window order limit)

def backTransformQuery (s : Schema) : Expr.QuerySpec → Option Expr.QuerySpec
  | .mk options quantifier (.mk columns names es) from_ search group window order limit => do
    let search ← search.back s
    let es ← backList s es
    let group ← group.mapM (GroupClause.backTransform s)
    some (.mk options quantifier (.mk columns names es) from_ search group window order limit)

def transformWith (s : Schema) (ρ : Choices) :
    ℕ → WithQueries → Option WithQueries
  | _, [] => some []
  | i, (ident, q) :: rest => do
    let q ← transformQuery s (ρ.sub i) q
    let rest ← transformWith s ρ (i + 1) rest
    some ((ident, q) :: rest)

def backTransformWith (s : Schema) : WithQueries → Option WithQueries
  | [] => some []
  | (ident, q) :: rest => do
    let q ← backTransformQuery s q
    let rest ← backTransformWith s rest
    some ((ident, q) :: rest)

def transformSelect (s : Schema) (ρ : Choices) : Statement → Option Statement
  | .querySpec q => do
    let q ← transformQuery s ρ q
    some (.querySpec q)
  | .commonTableExpression ⟨isRecursive, withQueries, query⟩ => do
    let query ← transformQuery s (ρ.sub 0) query
    let withQueries ← transformWith s (ρ.sub 1) 0 withQueries
    some (.commonTableExpression ⟨isRecursive, withQueries, query⟩)
  | .other text => some (.other text)

def backTransformSelect (s : Schema) : Statement → Option Statement
  | .querySpec q => do
    let q ← backTransformQuery s q
    some (.querySpec q)
  | .commonTableExpression ⟨isRecursive, withQueries, query⟩ => do
    let query ← backTransformQuery s query
    let withQueries ← backTransformWith s withQueries
    some (.commonTableExpression ⟨isRecursive, withQueries, query⟩)
  | .other text => some (.other text)

/-! Untransformed statements. -/

def WithSettled (withQueries : WithQueries) : Prop :=
  ∀ w ∈ withQueries, w.2.Settled

def Statement.Settled : Statement → Prop
  | .querySpec q => q.Settled
  | .commonTableExpression cte => WithSettled cte.withQueries ∧ cte.query.Settled
  | .other _ => True

def bareWith (withQueries : WithQueries) : List (String × Expr.QuerySpec) :=
  withQueries.map fun w => (w.1, w.2.bare)

/-- The statement without the stored expressions. -/
def Statement.bare : Statement → Statement
  | .querySpec q => .querySpec q.bare
  | .commonTableExpression ⟨isRecursive, withQueries, query⟩ =>
    .commonTableExpression ⟨isRecursive, bareWith withQueries, query.bare⟩
  | .other text => .other text

variable {s : Schema}

theorem Statement.text_bare {st : Statement} (h : st.Settled) : st.bare.text s = st.text s := by
  cases st with
  | querySpec q => exact congrArg (SqlQuery.text s) (q.out_bare h)
  | commonTableExpression cte =>
    obtain ⟨isRecursive, withQueries, query⟩ := cte
    obtain ⟨hwith, hquery⟩ := h
    have hitems : ∀ f : String → SqlQuery → String,
        (bareWith withQueries).map (fun w => f w.1 w.2.out) =
          withQueries.map fun w => f w.1 w.2.out := by
      intro f
      rw [bareWith, List.map_map]
      refine List.map_congr_left fun w hw => ?_
      rw [Function.comp_apply, w.2.out_bare (hwith w hw)]
    have hhead : (bareWith withQueries).head?.map Prod.fst = withQueries.head?.map Prod.fst := by
      cases withQueries <;> rfl
    simp only [Statement.bare, Statement.text, CommonTableExpression.text, query.out_bare hquery,
      hhead, hitems fun ident q => " " ++ ident ++ " AS (" ++ q.text s ++
        (if isRecursive then " union all " ++ query.out.text s else "") ++ ")"]
  | other text => rfl

theorem query_comesBack (q : Expr.QuerySpec) (ρ : Choices) (h : q.Settled) :
    ComesBack (transformQuery s ρ) (backTransformQuery s) Expr.QuerySpec.Settled
      Expr.QuerySpec.bare q := by
  obtain ⟨options, quantifier, ⟨columns, names, es⟩, from_, search, group, window, order,
    limit⟩ := q
  rw [Expr.QuerySpec.Settled, SelectList.Settled] at h
  obtain ⟨⟨hne, hes⟩, hfrom, hsearch, hgroup⟩ := h
  obtain ⟨search', hts, search'', hbs, hss, hs⟩ := search.comesBack (s := s) (ρ.sub 0) hsearch
  obtain ⟨es', hte, es'', hbe, hse, he⟩ := listComesBack (s := s) es (ρ.sub 1) 0 hes
  obtain ⟨group', htg, group'', hbg, hsg, hg⟩ :=
    group_comesBack (s := s) group (ρ.sub 2) hgroup
  refine ⟨.mk options quantifier (.mk columns names es') from_ search' group' window order limit,
    by simp [transformQuery, hts, hte, htg],
    .mk options quantifier (.mk columns names es'') from_ search'' group'' window order limit,
    by simp [backTransformQuery, hbs, hbe, hbg], ?_,
    by simp only [Expr.QuerySpec.bare, SelectList.bare, he, hs, hg]⟩
  have hlen := bareList_length he
  rw [← List.length_pos_iff] at hne
  rw [Expr.QuerySpec.Settled, SelectList.Settled]
  exact ⟨⟨by rw [← List.length_pos_iff]; omega, hse⟩, hfrom, hss, hsg⟩

theorem with_comesBack (withQueries : WithQueries) (ρ : Choices) (i : ℕ)
    (h : WithSettled withQueries) :
    ComesBack (transformWith s ρ i) (backTransformWith s) WithSettled bareWith withQueries := by
  induction withQueries generalizing i with
  | nil => exact ⟨[], rfl, [], rfl, h, rfl⟩
  | cons w rest ih =>
    obtain ⟨ident, q⟩ := w
    rw [WithSettled, List.forall_mem_cons] at h
    refine (query_comesBack (s := s) q (ρ.sub i) h.1).two (ih (i + 1) h.2)
      (fun q rest => (ident, q) :: rest) (fun y v hy hv => ?_) (fun y z v w hz hw => ?_)
      (fun z w hz hw => ?_) fun z w => rfl
    · simp [transformWith, hy, hv]
    · simp [backTransformWith, hz, hw]
    · rw [WithSettled, List.forall_mem_cons]
      exact ⟨hz, hw⟩

/-- Whatever a transform draws, it is defined on an untransformed statement, and the way back
leads to that statement. -/
theorem Statement.comesBack (st : Statement) (ρ : Choices) (h : st.Settled) :
    ComesBack (transformSelect s ρ) (backTransformSelect s) Statement.Settled Statement.bare
      st := by
  cases st with
  | querySpec q =>
    refine (query_comesBack (s := s) q ρ h).one Statement.querySpec (fun y hy => ?_)
      (fun y z hz => ?_) (fun z hz => hz) fun z => rfl
    · simp [transformSelect, hy]
    · simp [backTransformSelect, hz]
  | commonTableExpression cte =>
    obtain ⟨isRecursive, withQueries, query⟩ := cte
    refine (query_comesBack (s := s) query (ρ.sub 0) h.2).two
      (with_comesBack (s := s) withQueries (ρ.sub 1) 0 h.1)
      (fun q w => Statement.commonTableExpression ⟨isRecursive, w, q⟩)
      (fun y v hy hv => ?_) (fun y z v w hz hw => ?_) (fun z w hz hw => ⟨hw, hz⟩) fun z w => rfl
    · simp [transformSelect, hy, hv]
    · simp [backTransformSelect, hz, hw]
  | other text => exact ⟨.other text, rfl, .other text, rfl, h, rfl⟩

/-! The way back of an untransformed statement. -/

theorem search_back_settled {e : BoolExpr} (h : e.Settled) : e.back s = none := by
  cases e with
  | node w form =>
    rw [BoolExpr.Settled] at h
    simp [BoolExpr.back, h.1.unmark]
  | plain w text =>
    rw [BoolExpr.Settled] at h
    simp [BoolExpr.back, h.unmark]
  | constBool w op =>
    rw [BoolExpr.Settled] at h
    simp [BoolExpr.back, h.unmark]

theorem query_back_settled {q : Expr.QuerySpec} (h : q.Settled) :
    backTransformQuery s q = none := by
  obtain ⟨options, quantifier, ⟨columns, names, es⟩, from_, search, group, window, order,
    limit⟩ := q
  rw [QuerySpec.Settled] at h
  simp [backTransformQuery, search_back_settled h.2.2.1]

/-- The assertion fires on what `transform_select` looks into, and the rest stays. -/
theorem Statement.back_settled {st z : Statement} (h : st.Settled)
    (hz : backTransformSelect s st = some z) : z = st := by
  cases st with
  | querySpec q => simp [backTransformSelect, query_back_settled h] at hz
  | commonTableExpression cte => simp [backTransformSelect, query_back_settled h.2] at hz
  | other text => exact (Option.some.inj hz).symm

end DbFuzz.Cross
