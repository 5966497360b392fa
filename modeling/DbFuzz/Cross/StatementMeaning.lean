import DbFuzz.Cross.Statement
import DbFuzz.Expr.QueryMeaning

/-! What selects with a with clause return, and that the transforms of the cross test and of
`qcn_cte_tester` leave it as it is. -/

namespace DbFuzz.Expr

/-- What a from clause calls the with-query `ident`, where its text names it. -/
def aliasOf (ident text : String) : Option String :=
  let start := (ident ++ " as ").toList
  if text = ident then some ident
  else if start.isPrefixOf text.toList then
    some (String.ofList ((text.toList.drop start.length).takeWhile (· ≠ ' ')))
  else none

namespace Interp

variable {D : Type}

/-- The database in which `ident` names these rows. -/
def define (I : Interp D) (ident : String) (names : List String) (rows : List (SqlRow D)) :
    Interp D :=
  { I with
    columns := fun text => match aliasOf ident text with
      | some ref => names.map (ref ++ "." ++ ·)
      | none => I.columns text
    table := fun text => if (aliasOf ident text).isSome then rows else I.table text }

/-- Each with-query sees those before it. -/
def defineAll (env : Env D) : Interp D → List (String × SqlQuery) → Interp D
  | I, [] => I
  | I, (ident, q) :: rest => defineAll env (I.define ident q.names (q.rows I env)) rest

end Interp

/-- A recursive with-query: the rows of a round are the table of the next one. The server gives up
after `depth` rounds. -/
def recurse {α : Type} (step : List α → List α) : ℕ → List α → Option (List α)
  | _, [] => some []
  | 0, _ :: _ => none
  | depth + 1, a :: found => do
    let more ← recurse step depth (step (a :: found))
    some (a :: found ++ more)

end DbFuzz.Expr

namespace DbFuzz.Cross

open DbFuzz.Expr

variable {D : Type} {s : Schema}

/-- The rows of a `with` statement. The constructor gives a recursive one a single with-query. -/
def CommonTableExpression.rows (I : Interp D) (depth : ℕ) (env : Env D)
    (cte : CommonTableExpression) : Option (List (SqlRow D)) :=
  if cte.isRecursive then
    cte.withQueries.head?.bind fun w =>
      recurse (fun rows => cte.query.out.rows (I.define w.1 w.2.out.names rows) env) depth
        (w.2.out.rows I env)
  else some (cte.query.out.rows
    (I.defineAll env (cte.withQueries.map fun w => (w.1, w.2.out))) env)

/-- The rows of a select. One that no transform looks into is a text. -/
def Statement.rows (I : Interp D) (depth : ℕ) (env : Env D) :
    Statement → Option (List (SqlRow D))
  | .querySpec q => some (q.out.rows I env)
  | .commonTableExpression cte => cte.rows I depth env
  | .other text => some (I.table text)

/-! No single rewriting is wrong, on the databases that the queries are evaluated on. -/

def WithMoves (s : Schema) (env : Env D) (query : Expr.QuerySpec) :
    Interp D → WithQueries → Prop
  | I, [] => query.Throughout (Movable I s)
  | I, (ident, q) :: rest => q.Throughout (Movable I s) ∧
    WithMoves s env query (I.define ident q.out.names (q.out.rows I env)) rest

def CommonTableExpression.Moves (I : Interp D) (s : Schema) (env : Env D)
    (cte : CommonTableExpression) : Prop :=
  if cte.isRecursive then
    ∀ w ∈ cte.withQueries.head?, w.2.Throughout (Movable I s) ∧
      ∀ rows, cte.query.Throughout (Movable (I.define w.1 w.2.out.names rows) s)
  else WithMoves s env cte.query I cte.withQueries

def Statement.Moves (I : Interp D) (s : Schema) (env : Env D) : Statement → Prop
  | .querySpec q => q.Throughout (Movable I s)
  | .commonTableExpression cte => cte.Moves I s env
  | .other _ => True

/-! Rewritten queries in a with clause. -/

/-- `q'` has the columns of `q`, and its rows where no single rewriting of `q` is wrong. -/
structure Rewrites (D : Type) (s : Schema) (q q' : Expr.QuerySpec) : Prop where
  names : q'.out.names = q.out.names
  rows : ∀ I : Interp D, q.Throughout (Movable I s) → q'.out.rows I = q.out.rows I

/-- The with-queries keep their names. -/
def WithRewrites (D : Type) (s : Schema) : WithQueries → WithQueries → Prop :=
  List.Forall₂ fun w w' => w'.1 = w.1 ∧ Rewrites D s w.2 w'.2

theorem recurse_congr {α : Type} {step step' : List α → List α} (h : ∀ rows, step' rows = step rows)
    (depth : ℕ) (found : List α) : recurse step' depth found = recurse step depth found := by
  rw [funext h]

theorem defineAll_rewrites {env : Env D} {query query' : Expr.QuerySpec} {ws ws' : WithQueries}
    (hws : WithRewrites D s ws ws') (hquery : Rewrites D s query query') (I : Interp D)
    (hmoves : WithMoves s env query I ws) :
    query'.out.rows (I.defineAll env (ws'.map fun w => (w.1, w.2.out))) =
      query.out.rows (I.defineAll env (ws.map fun w => (w.1, w.2.out))) := by
  induction hws generalizing I with
  | nil => exact hquery.rows I hmoves
  | @cons w w' ws ws' hw hws ih =>
    obtain ⟨ident, q⟩ := w
    obtain ⟨ident', q'⟩ := w'
    obtain ⟨rfl, hq⟩ := hw
    rw [WithMoves] at hmoves
    simp only [List.map_cons, Interp.defineAll]
    rw [hq.names, hq.rows I hmoves.1]
    exact ih _ hmoves.2

theorem CommonTableExpression.rows_rewrites {I : Interp D} {env : Env D}
    (cte cte' : CommonTableExpression) (hrec : cte'.isRecursive = cte.isRecursive)
    (hws : WithRewrites D s cte.withQueries cte'.withQueries)
    (hquery : Rewrites D s cte.query cte'.query) (hmoves : cte.Moves I s env) (depth : ℕ) :
    cte'.rows I depth env = cte.rows I depth env := by
  obtain ⟨isRecursive, ws, query⟩ := cte
  obtain ⟨isRecursive', ws', query'⟩ := cte'
  dsimp only at hrec hws hquery
  subst hrec
  cases isRecursive' with
  | false =>
    have hrows := defineAll_rewrites hws hquery I hmoves
    simp only [rows, Bool.false_eq_true, if_false, hrows]
  | true =>
    cases hws with
    | nil => rfl
    | @cons w w' ws ws' hw hws =>
      obtain ⟨ident, anchor⟩ := w
      obtain ⟨ident', anchor'⟩ := w'
      obtain ⟨rfl, hanchor⟩ := hw
      have hround : anchor.Throughout (Movable I s) ∧
          ∀ rows, query.Throughout (Movable (I.define ident' anchor.out.names rows) s) :=
        hmoves (ident', anchor) rfl
      -- every round sees the same table
      have hstep : ∀ rows, query'.out.rows (I.define ident' anchor.out.names rows) env =
          query.out.rows (I.define ident' anchor.out.names rows) env := fun rows => by
        rw [hquery.rows _ (hround.2 rows)]
      simp only [rows, if_true, List.head?_cons, Option.bind_some, hanchor.names,
        hanchor.rows I hround.1]
      exact recurse_congr hstep depth _

/-- A loop over the with-queries, where each turn is right. -/
theorem withRewrites_of_each {T : Choices → Expr.QuerySpec → Option Expr.QuerySpec}
    {W : ℕ → WithQueries → Option WithQueries} {ρ : Choices} (hnil : ∀ i, W i [] = some [])
    (hcons : ∀ i ident q rest, W i ((ident, q) :: rest) =
      (T (ρ.sub i) q).bind fun q => (W (i + 1) rest).bind fun rest => some ((ident, q) :: rest))
    (hT : ∀ ρ q q', q.Settled → T ρ q = some q' → Rewrites D s q q') {ws ws' : WithQueries} {i : ℕ}
    (hs : WithSettled ws) (h : W i ws = some ws') : WithRewrites D s ws ws' := by
  induction ws generalizing i ws' with
  | nil =>
    rw [hnil] at h
    cases h
    exact .nil
  | cons w ws ih =>
    obtain ⟨ident, q⟩ := w
    rw [WithSettled, List.forall_mem_cons] at hs
    simp only [hcons, Option.bind_eq_some_iff, Option.some.injEq] at h
    obtain ⟨q', hq, rest, hrest, rfl⟩ := h
    exact .cons ⟨rfl, hT _ q q' hs.1 hq⟩ (ih hs.2 hrest)

/-! The transform of the cross test. -/

theorem transformQuery_rewrites {q q' : Expr.QuerySpec} {ρ : Choices} (hs : q.Settled)
    (h : transformQuery s ρ q = some q') : Rewrites D s q q' := by
  obtain ⟨options, quantifier, ⟨columns, names, es⟩, from_, search, group, window, order,
    limit⟩ := q
  rw [Expr.QuerySpec.Settled, SelectList.Settled] at hs
  simp only [transformQuery, Option.bind_eq_bind, Option.bind_eq_some_iff, Option.some.injEq] at h
  obtain ⟨search', hsearch, es', hes, group', hgroup, rfl⟩ := h
  refine ⟨?_, fun I hp => ?_⟩
  · simp only [Expr.QuerySpec.out, SqlQuery.names]
  · rw [Expr.QuerySpec.Throughout] at hp
    have hlist := evals_transform (fun _ h => h) es _ _ hs.1.2 hp.1 hes
    have hcondition := search.eval_transform (fun _ h => h) _ hs.2.2.1 hp.2.2.1 hsearch
    have hgrouped := grouped_transform (fun _ h => h) hs.2.2.2 hp.2.2.2 hgroup
    funext env
    simp only [Expr.QuerySpec.out, SqlQuery.rows, hlist, hcondition, hgrouped]

theorem transformWith_rewrites {ws ws' : WithQueries} {ρ : Choices} {i : ℕ} (hs : WithSettled ws)
    (h : transformWith s ρ i ws = some ws') : WithRewrites D s ws ws' :=
  withRewrites_of_each (W := transformWith s ρ) (fun _ => rfl) (fun _ _ _ _ => rfl)
    (fun _ _ _ => transformQuery_rewrites) hs h

theorem rows_transformSelect {I : Interp D} {env : Env D} {st st' : Statement} {ρ : Choices}
    (hs : st.Settled) (hmoves : st.Moves I s env) (h : transformSelect s ρ st = some st')
    (depth : ℕ) : st'.rows I depth env = st.rows I depth env := by
  cases st with
  | querySpec q =>
    simp only [transformSelect, Option.bind_eq_bind, Option.bind_eq_some_iff,
      Option.some.injEq] at h
    obtain ⟨q', hq, rfl⟩ := h
    have hrewrites := transformQuery_rewrites (D := D) hs hq
    rw [Statement.rows, Statement.rows, hrewrites.rows I hmoves]
  | commonTableExpression cte =>
    obtain ⟨isRecursive, ws, query⟩ := cte
    simp only [transformSelect, Option.bind_eq_bind, Option.bind_eq_some_iff,
      Option.some.injEq] at h
    obtain ⟨query', hquery, ws', hws, rfl⟩ := h
    apply CommonTableExpression.rows_rewrites ⟨isRecursive, ws, query⟩
      ⟨isRecursive, ws', query'⟩ rfl
    · exact transformWith_rewrites hs.1 hws
    · exact transformQuery_rewrites hs.2 hquery
    · exact hmoves
  | other text =>
    cases h
    rfl

/-- `WITH RECURSIVE cte_0 AS (select 2 as c0 from t as ref_0 where true union all
select 2 as c0 from cte_0 as ref_1 where false) select * from cte_0` -/
def twoTwice : CommonTableExpression where
  isRecursive := true
  withQueries := [("cte_0", selectTwo)]
  query := .mk "" "" (.mk 1 ["c0"] [.node .fresh (.constExpr "2")]) (.table "cte_0 as ref_1")
    (.newConst (some false)) none none none none

theorem twoTwice_settled : Statement.Settled (.commonTableExpression twoTwice) := by
  refine ⟨fun w hw => ?_, ?_⟩
  · rw [List.mem_singleton.1 hw]
    exact selectTwo_settled
  · simp [twoTwice, QuerySpec.Settled, SelectList.Settled, ListSettled, ValueExpr.Settled,
      ValueForm.Settled, TableRef.Settled, BoolExpr.newConst, BoolExpr.Settled, GroupSettled,
      Wrap.Idle]

theorem selectTwo_movable (I : Interp D) : selectTwo.Throughout (Movable I schemaMysql) := by
  simp [selectTwo, QuerySpec.Throughout, TableRef.Throughout, ListAll, ValueExpr.All,
    ValueForm.All, BoolExpr.newConst, BoolExpr.All]

theorem twoTwice_movable (I : Interp D) : twoTwice.query.Throughout (Movable I schemaMysql) := by
  simp [twoTwice, QuerySpec.Throughout, TableRef.Throughout, ListAll, ValueExpr.All,
    ValueForm.All, BoolExpr.newConst, BoolExpr.All]

end DbFuzz.Cross
