import DbFuzz.Cross.StatementMeaning
import DbFuzz.Eet.QcnTester

/-! The statements of the five testers, what they return or write, and their transforms. -/

namespace DbFuzz.Eet

open DbFuzz.Expr
open DbFuzz.Cross (WithQueries WithSettled Rewrites)

variable {D : Type} {s : Expr.Schema} {ρ : Choices}

structure InsertSelectStmt where
  victim : String
  valuedColumnName : List String
  targetSubquery : Expr.QuerySpec

/-- The statement of a tester. -/
inductive TesterQuery
  | select (q : Expr.QuerySpec)
  | cte (c : Cross.CommonTableExpression)
  | update (u : UpdateQuery)
  | delete (d : DeleteQuery)
  | insertSelect (i : InsertSelectStmt)

/-! `eq_transform_query` of the testers -/

def eqTransformWith (s : Expr.Schema) (ρ : Choices) : ℕ → WithQueries → Option WithQueries
  | _, [] => some []
  | i, (ident, q) :: rest => do
    let q ← q.eqTransform s (ρ.sub i)
    let rest ← eqTransformWith s ρ (i + 1) rest
    some ((ident, q) :: rest)

def eqTransformCte (s : Expr.Schema) (ρ : Choices) (c : Cross.CommonTableExpression) :
    Option Cross.CommonTableExpression := do
  let withQueries ← eqTransformWith s (ρ.sub 0) 0 c.withQueries
  let query ← c.query.eqTransform s (ρ.sub 1)
  some { c with withQueries, query }

def InsertSelectStmt.eqTransform (s : Expr.Schema) (ρ : Choices) (i : InsertSelectStmt) :
    Option InsertSelectStmt := do
  let targetSubquery ← i.targetSubquery.eqTransform s ρ
  some { i with targetSubquery }

/-- What a server makes of statements: the database that the statements of a list build, the rows as
they are received, the columns outside of any row, the limit of a recursion, and what an insert
puts into the columns that it does not list. -/
structure Meaning (D : Type) where
  db : List String → Interp D
  render : SqlRow D → RowOutput
  noColumn : Env D
  depth : ℕ
  fill : ℕ → String → Option D

/-- The rows as the tester compares them. -/
def Meaning.rendered (M : Meaning D) (rows : List (SqlRow D)) : Multiset RowOutput :=
  (rows.map M.render : List RowOutput)

/-- The table after the insert. -/
def InsertSelectStmt.content (M : Meaning D) (I : Interp D) (i : InsertSelectStmt) :
    List (SqlRow D) :=
  I.table i.victim ++ (i.targetSubquery.out.rows I M.noColumn).mapIdx fun n row =>
    let values := (i.valuedColumnName.map (i.victim ++ "." ++ ·)).zip row
    (I.columns i.victim).map fun column => (values.lookup column).getD (M.fill n column)

namespace TesterQuery

def kind : TesterQuery → QcnKind
  | select _ => .select
  | cte _ => .cte
  | update _ => .update
  | delete _ => .delete
  | insertSelect _ => .insertSelect

def victim : TesterQuery → String
  | select _ | cte _ => ""
  | update u => u.victim
  | delete d => d.victim
  | insertSelect i => i.victim

/-- What `out` prints, up to white space. -/
def text (s : Expr.Schema) : TesterQuery → String
  | select q => q.out.text s
  | cte c => c.text s
  | update u =>
    (if s.targetDbms = .clickhouse then "alter table " ++ u.victim ++ " update "
      else "update " ++ u.victim ++ " set ") ++
      ", ".intercalate ((u.names.zip (texts s (outList u.valueExprs))).map fun e =>
        e.1 ++ " = " ++ e.2) ++
      " where " ++ u.search.out.text s ++ (u.orderLimit.map OrderLimit.out).getD ""
  | delete d =>
    (if s.targetDbms = .clickhouse then "alter table " ++ d.victim ++ " delete"
      else "delete from " ++ d.victim) ++
      " where " ++ d.search.out.text s ++ (d.orderLimit.map OrderLimit.out).getD ""
  | insertSelect i =>
    "insert into " ++ i.victim ++ " (" ++ ", ".intercalate i.valuedColumnName ++ ") " ++
      i.targetSubquery.out.text s

def eqTransform (s : Expr.Schema) (ρ : Choices) : TesterQuery → Option TesterQuery
  | select q => (q.eqTransform s ρ).map select
  | cte c => (eqTransformCte s ρ c).map cte
  | update u => (u.eqTransform s ρ).map update
  | delete d => (d.eqTransform s ρ).map delete
  | insertSelect i => (i.eqTransform s ρ).map insertSelect

def Settled : TesterQuery → Prop
  | select q => q.Settled
  | cte c => WithSettled c.withQueries ∧ c.query.Settled
  | update u => ListSettled u.valueExprs ∧ u.search.Settled
  | delete d => d.search.Settled
  | insertSelect i => i.targetSubquery.Settled

/-- No single rewriting is wrong on this database. -/
def Moves (M : Meaning D) (I : Interp D) (s : Expr.Schema) : TesterQuery → Prop
  | select q => q.Throughout (Movable I s)
  | cte c => c.Moves I s M.noColumn
  | update u => ListAll (Movable I s) u.valueExprs ∧ u.search.All (Movable I s)
  | delete d => d.search.All (Movable I s)
  | insertSelect i => i.targetSubquery.Throughout (Movable I s)

/-- The rows that the statement returns. -/
def queried (M : Meaning D) (I : Interp D) : TesterQuery → Option (List (SqlRow D))
  | select q => some (q.out.rows I M.noColumn)
  | cte c => c.rows I M.depth M.noColumn
  | _ => none

/-- The victim after the statement. -/
def written (M : Meaning D) (I : Interp D) : TesterQuery → Option (List (SqlRow D))
  | update u => some (u.content I M.noColumn)
  | delete d => some (d.content I M.noColumn)
  | insertSelect i => some (i.content M I)
  | _ => none

/-- What the tester compares: the rows that are returned, or those of the victim that are new after
an update or an insert and gone after a delete. -/
def result (M : Meaning D) (I : Interp D) (Q : TesterQuery) : Option (Multiset RowOutput) :=
  match Q.kind with
  | .select | .cte => (Q.queried M I).map M.rendered
  | .update | .insertSelect => (Q.written M I).map fun rows =>
    changedRows (M.rendered rows) (M.rendered (I.table Q.victim))
  | .delete => (Q.written M I).map fun rows =>
    changedRows (M.rendered (I.table Q.victim)) (M.rendered rows)

end TesterQuery

/-! A statement and its transform are compared by the same rows. -/

theorem eqTransform_rewrites {q q' : Expr.QuerySpec} (hs : q.Settled)
    (h : q.eqTransform s ρ = some q') : Rewrites D s q q' := by
  refine ⟨?_, fun I hmove => (q.rows_transform (fun _ h => h) ρ hs hmove h).1⟩
  obtain ⟨options, quantifier, ⟨columns, names, es⟩, from_, search, group, window, order,
    limit⟩ := q
  simp only [Expr.QuerySpec.eqTransform, Option.bind_eq_bind] at h
  split at h <;>
  · simp only [Option.bind_eq_some_iff, Option.some.injEq] at h
    obtain ⟨es', -, from', -, search', -, group', -, rfl⟩ := h
    simp only [Expr.QuerySpec.out, SqlQuery.names]

theorem eqTransformCte_rows {I : Interp D} {env : Env D} {c c' : Cross.CommonTableExpression}
    (hs : WithSettled c.withQueries ∧ c.query.Settled) (hmoves : c.Moves I s env)
    (h : eqTransformCte s ρ c = some c') (depth : ℕ) : c'.rows I depth env = c.rows I depth env := by
  simp only [eqTransformCte, Option.bind_eq_bind, Option.bind_eq_some_iff, Option.some.injEq] at h
  obtain ⟨ws, hws, query, hquery, rfl⟩ := h
  apply Cross.CommonTableExpression.rows_rewrites c { c with withQueries := ws, query } rfl
  · exact Cross.withRewrites_of_each (W := eqTransformWith s (ρ.sub 0)) (fun _ => rfl)
      (fun _ _ _ _ => rfl) (fun _ _ _ => eqTransform_rewrites) hs.1 hws
  · exact eqTransform_rewrites hs.2 hquery
  · exact hmoves

theorem InsertSelectStmt.content_transform {M : Meaning D} {I : Interp D} {i i' : InsertSelectStmt}
    (hs : i.targetSubquery.Settled) (hmoves : i.targetSubquery.Throughout (Movable I s))
    (h : i.eqTransform s ρ = some i') : i'.content M I = i.content M I := by
  simp only [InsertSelectStmt.eqTransform, Option.bind_eq_bind, Option.bind_eq_some_iff,
    Option.some.injEq] at h
  obtain ⟨q, hq, rfl⟩ := h
  simp only [InsertSelectStmt.content, (eqTransform_rewrites hs hq).rows I hmoves]

namespace TesterQuery

variable {M : Meaning D} {I : Interp D} {Q Q' : TesterQuery}

theorem transform_kind (h : Q.eqTransform s ρ = some Q') :
    Q'.kind = Q.kind ∧ Q'.victim = Q.victim := by
  cases Q with
  | select q =>
    obtain ⟨q', -, rfl⟩ := Option.map_eq_some_iff.1 h
    exact ⟨rfl, rfl⟩
  | cte c =>
    obtain ⟨c', -, rfl⟩ := Option.map_eq_some_iff.1 h
    exact ⟨rfl, rfl⟩
  | update u =>
    obtain ⟨u', hu, rfl⟩ := Option.map_eq_some_iff.1 h
    simp only [UpdateQuery.eqTransform, Option.bind_eq_bind, Option.bind_eq_some_iff,
      Option.some.injEq] at hu
    obtain ⟨es, -, search, -, rfl⟩ := hu
    exact ⟨rfl, rfl⟩
  | delete d =>
    obtain ⟨d', hd, rfl⟩ := Option.map_eq_some_iff.1 h
    simp only [DeleteQuery.eqTransform, Option.bind_eq_bind, Option.bind_eq_some_iff,
      Option.some.injEq] at hd
    obtain ⟨search, -, rfl⟩ := hd
    exact ⟨rfl, rfl⟩
  | insertSelect i =>
    obtain ⟨i', hi, rfl⟩ := Option.map_eq_some_iff.1 h
    simp only [InsertSelectStmt.eqTransform, Option.bind_eq_bind, Option.bind_eq_some_iff,
      Option.some.injEq] at hi
    obtain ⟨q, -, rfl⟩ := hi
    exact ⟨rfl, rfl⟩

theorem rows_transform (hs : Q.Settled) (hmoves : Q.Moves M I s)
    (h : Q.eqTransform s ρ = some Q') :
    Q'.queried M I = Q.queried M I ∧ Q'.written M I = Q.written M I := by
  cases Q with
  | select q =>
    obtain ⟨q', hq, rfl⟩ := Option.map_eq_some_iff.1 h
    have hrows := (eqTransform_rewrites hs hq).rows I hmoves
    exact ⟨by simp only [queried, hrows], rfl⟩
  | cte c =>
    obtain ⟨c', hc, rfl⟩ := Option.map_eq_some_iff.1 h
    exact ⟨eqTransformCte_rows hs hmoves hc M.depth, rfl⟩
  | update u =>
    obtain ⟨u', hu, rfl⟩ := Option.map_eq_some_iff.1 h
    have hcontent := UpdateQuery.content_transform hs.1 hs.2 hmoves.1 hmoves.2 hu
    exact ⟨rfl, by simp only [written, hcontent]⟩
  | delete d =>
    obtain ⟨d', hd, rfl⟩ := Option.map_eq_some_iff.1 h
    have hcontent := DeleteQuery.content_transform hs hmoves hd
    exact ⟨rfl, by simp only [written, hcontent]⟩
  | insertSelect i =>
    obtain ⟨i', hi, rfl⟩ := Option.map_eq_some_iff.1 h
    exact ⟨rfl, congrArg some (InsertSelectStmt.content_transform hs hmoves hi)⟩

theorem result_transform (hs : Q.Settled) (hmoves : Q.Moves M I s)
    (h : Q.eqTransform s ρ = some Q') : Q'.result M I = Q.result M I := by
  obtain ⟨hkind, hvictim⟩ := transform_kind h
  obtain ⟨hqueried, hwritten⟩ := rows_transform hs hmoves h
  rw [result, result, hkind, hvictim, hqueried, hwritten]

end TesterQuery

end DbFuzz.Eet
