import DbFuzz.Expr.Preserve
import DbFuzz.Expr.Tester
import DbFuzz.Grammar.Statements

/-! `qcn_select_tester`, `qcn_update_tester` and `qcn_delete_tester` compare a statement with its
transform. The two have the same rows, or leave the same table, wherever no single rewriting is
wrong. -/

namespace DbFuzz.Expr

variable {D : Type} {I : Interp D} {s : Schema}

mutual

/-- `p` holds of every node with a subquery in the list, the from clause, the conditions. -/
def QuerySpec.Throughout (p : BoolForm → Prop) : QuerySpec → Prop
  | .mk _ _ (.mk _ _ es) from_ search group _ _ _ =>
    ListAll p es ∧ from_.Throughout p ∧ search.All p ∧
      ∀ groupBy having, group = some (.mk groupBy having) → having.All p

def TableRef.Throughout (p : BoolForm → Prop) : TableRef → Prop
  | .table _ => True
  | .subquery _ q _ => q.Throughout p
  | .joined l r _ _ => l.Throughout p ∧ r.Throughout p

end

section Transform

set_option linter.unusedSectionVars false

variable {p : BoolForm → Prop} (hmove : ∀ form, p form → Movable I s form)

include hmove

/-- A having clause and its transform keep the same groups. -/
theorem grouped_transform {group group' : Option GroupClause} {ρ : Choices}
    (hs : GroupSettled group)
    (hp : ∀ groupBy having, group = some (.mk groupBy having) → having.All p)
    (h : group.mapM (GroupClause.eqTransform s ρ) = some group') :
    grouped I (outGroup group') = grouped I (outGroup group) := by
  cases group with
  | none =>
    cases h
    rfl
  | some g =>
    obtain ⟨groupBy, having⟩ := g
    rw [GroupSettled] at hs
    simp only [Option.mapM_some, Option.map_eq_map, Option.map_eq_some_iff, GroupClause.eqTransform,
      Option.bind_eq_bind, Option.bind_eq_some_iff, Option.some.injEq] at h
    obtain ⟨_, ⟨having', hhaving, rfl⟩, rfl⟩ := h
    have heval := having.eval_transform hmove ρ hs (hp groupBy having rfl) hhaving
    funext env found
    simp only [outGroup, grouped, heval]

mutual

theorem QuerySpec.rows_transform : ∀ (q : QuerySpec) (ρ : Choices) {q' : QuerySpec},
    q.Settled → q.Throughout p → q.eqTransform s ρ = some q' →
      q'.out.rows I = q.out.rows I ∧ q'.out.names = q.out.names
  | .mk options quantifier (.mk columns names es) from_ search group window order limit, ρ, q',
    hs, hp, h => by
    rw [QuerySpec.Settled, SelectList.Settled] at hs
    rw [QuerySpec.Throughout] at hp
    simp only [QuerySpec.eqTransform, Option.bind_eq_bind] at h
    -- the list is transformed, or it is one of a group or for ClickHouse
    obtain ⟨es', hlist, from', hfrom, search', hsearch, group', hgroup, rfl⟩ : ∃ es',
        evals I (outList es') = evals I (outList es) ∧
        ∃ from', from_.eqTransform s (ρ.sub 1) = some from' ∧
        ∃ search', search.transform s (ρ.sub 2) = some search' ∧
        ∃ group', group.mapM (GroupClause.eqTransform s (ρ.sub 3)) = some group' ∧
          .mk options quantifier (.mk columns names es') from' search' group' window order limit =
            q' := by
      split at h
      · simp only [Option.bind_eq_some_iff, Option.some.injEq] at h
        obtain ⟨es', hes, rest⟩ := h
        exact ⟨es', evals_transform hmove es _ _ hs.1.2 hp.1 hes, rest⟩
      · simp only [Option.bind_eq_some_iff, Option.some.injEq] at h
        obtain ⟨_, rfl, rest⟩ := h
        exact ⟨es, rfl, rest⟩
    obtain ⟨hrows, hnames⟩ := from_.rows_transform (ρ.sub 1) hs.2.1 hp.2.1 hfrom
    have hcondition := search.eval_transform hmove _ hs.2.2.1 hp.2.2.1 hsearch
    have hgrouped := grouped_transform hmove hs.2.2.2 hp.2.2.2 hgroup
    refine ⟨funext fun env => ?_, by rw [QuerySpec.out, QuerySpec.out, SqlQuery.names, SqlQuery.names]⟩
    simp only [QuerySpec.out, SqlQuery.rows, hrows, hnames, hlist, hcondition, hgrouped]

theorem TableRef.rows_transform : ∀ (t : TableRef) (ρ : Choices) {t' : TableRef},
    t.Settled → t.Throughout p → t.eqTransform s ρ = some t' →
      t'.out.rows I = t.out.rows I ∧ t'.out.names I = t.out.names I
  | .table text, ρ, t', hs, hp, h => by
    rw [TableRef.eqTransform, Option.some.injEq] at h
    rw [← h]
    exact ⟨rfl, rfl⟩
  | .subquery isLateral q ident, ρ, t', hs, hp, h => by
    rw [TableRef.Settled] at hs
    rw [TableRef.Throughout] at hp
    simp only [TableRef.eqTransform, Option.bind_eq_bind, Option.bind_eq_some_iff,
      Option.some.injEq] at h
    obtain ⟨q', hq, rfl⟩ := h
    obtain ⟨hrows, hnames⟩ := q.rows_transform (ρ.sub 0) hs hp hq
    refine ⟨funext fun env => ?_, ?_⟩
    · rw [TableRef.out, TableRef.out, SqlTable.rows, SqlTable.rows, hrows]
    · rw [TableRef.out, TableRef.out, SqlTable.names, SqlTable.names, hnames]
  | .joined l r type condition, ρ, t', hs, hp, h => by
    rw [TableRef.Settled] at hs
    rw [TableRef.Throughout] at hp
    simp only [TableRef.eqTransform, Option.bind_eq_bind, Option.bind_eq_some_iff,
      Option.some.injEq] at h
    obtain ⟨l', hl, r', hr, rfl⟩ := h
    obtain ⟨hlrows, hlnames⟩ := l.rows_transform (ρ.sub 0) hs.1 hp.1 hl
    obtain ⟨hrrows, hrnames⟩ := r.rows_transform (ρ.sub 1) hs.2 hp.2 hr
    refine ⟨funext fun env => ?_, ?_⟩
    · simp only [TableRef.out, SqlTable.rows, hlrows, hlnames, hrrows, hrnames]
    · simp only [TableRef.out, SqlTable.names, hlnames, hrnames]

end

end Transform

/-- Whatever is drawn, a query of any nesting (derived tables, joins, groups, set operations and
subqueries in its conditions) can be transformed, and an error-free database returns the same
rows in the same order for the query and its transform, so a difference is no false alarm. -/
theorem eqTransform_rows (I : Interp D) (s : Schema) (q : QuerySpec) (ρ : Choices)
    (hs : q.Settled) (hmove : q.Throughout (Movable I s)) :
    ∃ q', q.eqTransform s ρ = some q' ∧ ∀ env, q'.out.rows I env = q.out.rows I env := by
  obtain ⟨q', hq, -⟩ := q.query_comesBack (s := s) ρ hs
  refine ⟨q', hq, fun env => ?_⟩
  rw [(q.rows_transform (fun _ h => h) ρ hs hmove hq).1]

/-- `select 2 as c0 from (select 2 as c0 from t as ref_0 where true) as subq_0
where (1) in (select 2 as c0 from t as ref_0 where true)` -/
def oneInTwo : QuerySpec :=
  .mk "" "" (.mk 1 ["c0"] [.node .fresh (.constExpr "2")]) (.subquery false selectTwo "subq_0")
    (.node .fresh (.inQuery false (.node .fresh (.constExpr "1")) (.spec selectTwo) .fresh))
    none none none none

theorem oneInTwo_settled : oneInTwo.Settled := by
  simp [oneInTwo, QuerySpec.Settled, SelectList.Settled, ListSettled, ValueExpr.Settled,
    ValueForm.Settled, TableRef.Settled, BoolExpr.Settled, BoolForm.Settled, Subquery.Settled,
    selectTwo_settled, GroupSettled, Wrap.Idle]

theorem oneInTwo_movable : oneInTwo.Throughout (Movable integers schemaMysql) := by
  have hmatch : Movable integers schemaMysql
      (.inQuery false (.node .fresh (.constExpr "1")) (.spec selectTwo) .fresh) :=
    .inr ⟨rfl, ⟨rfl, rfl, fun _ _ _ => rfl⟩, fun _ _ _ => rfl⟩
  simp only [oneInTwo, selectTwo, QuerySpec.Throughout, TableRef.Throughout, ListAll,
    ValueExpr.All, ValueForm.All, BoolExpr.All, BoolForm.All, Subquery.All, QuerySpec.All,
    BoolExpr.newConst, reduceCtorEq, false_implies, implies_true, and_true, true_and]
  exact hmatch

/-- A row of integers as a client receives it. -/
def renderInteger (row : SqlRow ℤ) : List String := row.map fun v => (v.map toString).getD "NULL"

theorem eqTransform_rows_oneInTwo :
    ∃ q', oneInTwo.eqTransform schemaMysql plainDraws = some q' ∧
      ∀ env, q'.out.rows integers env = oneInTwo.out.rows integers env :=
  eqTransform_rows integers schemaMysql oneInTwo plainDraws oneInTwo_settled oneInTwo_movable

/-! Updates and deletes. -/

structure UpdateQuery where
  victim : String
  names : List String
  valueExprs : List ValueExpr
  search : BoolExpr
  orderLimit : Option OrderLimit

structure DeleteQuery where
  victim : String
  search : BoolExpr
  orderLimit : Option OrderLimit

/-- `eq_transform_query` of `qcn_update_tester` -/
def UpdateQuery.eqTransform (s : Schema) (ρ : Choices) (u : UpdateQuery) : Option UpdateQuery := do
  let valueExprs ← transformList s (ρ.sub 0) 0 u.valueExprs
  let search ← u.search.transform s (ρ.sub 1)
  some { u with valueExprs, search }

/-- `eq_transform_query` of `qcn_delete_tester` -/
def DeleteQuery.eqTransform (s : Schema) (ρ : Choices) (d : DeleteQuery) : Option DeleteQuery := do
  let search ← d.search.transform s ρ
  some { d with search }

section Content

variable (I)

def Interp.rowEnv (victim : String) (env : Env D) (row : SqlRow D) : Env D :=
  env.bind (I.columns victim) row

/-- The positions of the rows that a statement changes. -/
def Interp.targets (victim : String) (search : Sql) (orderLimit : Option OrderLimit)
    (env : Env D) : List ℕ :=
  let rows := I.table victim
  let found := (List.range rows.length).filter fun i =>
    I.toTruth (search.eval I (I.rowEnv victim env (rows.getD i []))) = .yes
  match orderLimit with
  | some o =>
    let key := ((I.columns victim).idxOf (victim ++ "." ++ o.orderCol), o.orderAsc)
    (found.insertionSort fun i j => I.inOrder [key] (rows.getD i []) (rows.getD j [])).take o.limitNum
  | none => found

/-- The table after the update. -/
def UpdateQuery.content (u : UpdateQuery) (env : Env D) : List (SqlRow D) :=
  let changed := I.targets u.victim u.search.out u.orderLimit env
  (I.table u.victim).mapIdx fun i row =>
    let values := (u.names.map (u.victim ++ "." ++ ·)).zip
      (evals I (outList u.valueExprs) (I.rowEnv u.victim env row))
    if i ∈ changed then
      ((I.columns u.victim).zip row).map fun cell => (values.lookup cell.1).getD cell.2
    else row

/-- The table after the delete. -/
def DeleteQuery.content (d : DeleteQuery) (env : Env D) : List (SqlRow D) :=
  let changed := I.targets d.victim d.search.out d.orderLimit env
  ((I.table d.victim).zipIdx.filter fun row => row.2 ∉ changed).map Prod.fst

end Content

theorem targets_congr {victim : String} {search search' : Sql} {orderLimit : Option OrderLimit}
    (h : search'.eval I = search.eval I) :
    I.targets victim search' orderLimit = I.targets victim search orderLimit := by
  funext env
  simp only [Interp.targets, h]

/-- The transform of an update writes the same values into the same rows. -/
theorem UpdateQuery.content_transform {u u' : UpdateQuery} {ρ : Choices}
    (hvalues : ListSettled u.valueExprs) (hsearch : u.search.Settled)
    (hmove : ListAll (Movable I s) u.valueExprs) (hmove' : u.search.All (Movable I s))
    (h : u.eqTransform s ρ = some u') : u'.content I = u.content I := by
  simp only [UpdateQuery.eqTransform, Option.bind_eq_bind, Option.bind_eq_some_iff,
    Option.some.injEq] at h
  obtain ⟨es, hes, search, hs, rfl⟩ := h
  have hlist := evals_transform (fun _ h => h) u.valueExprs _ _ hvalues hmove hes
  have hcondition := u.search.eval_transform (fun _ h => h) _ hsearch hmove' hs
  funext env
  simp only [UpdateQuery.content, hlist, targets_congr hcondition]

theorem DeleteQuery.content_transform {d d' : DeleteQuery} {ρ : Choices}
    (hsearch : d.search.Settled) (hmove : d.search.All (Movable I s))
    (h : d.eqTransform s ρ = some d') : d'.content I = d.content I := by
  simp only [DeleteQuery.eqTransform, Option.bind_eq_bind, Option.bind_eq_some_iff,
    Option.some.injEq] at h
  obtain ⟨search, hs, rfl⟩ := h
  have hcondition := d.search.eval_transform (fun _ h => h) _ hsearch hmove hs
  funext env
  simp only [DeleteQuery.content, targets_congr hcondition]

/-- Whatever is drawn, an update or a delete can be transformed, and an error-free database has
the same table after the statement and after its transform. -/
theorem eqTransform_content (I : Interp D) (s : Schema) (u : UpdateQuery) (d : DeleteQuery)
    (ρ : Choices) (hvalues : ListSettled u.valueExprs) (hupdate : u.search.Settled)
    (hdelete : d.search.Settled) (hmove : ListAll (Movable I s) u.valueExprs)
    (hmoveUpdate : u.search.All (Movable I s)) (hmoveDelete : d.search.All (Movable I s)) :
    (∃ u', u.eqTransform s ρ = some u' ∧ ∀ env, u'.content I env = u.content I env) ∧
      ∃ d', d.eqTransform s ρ = some d' ∧ ∀ env, d'.content I env = d.content I env := by
  obtain ⟨es, hes, -⟩ := listComesBack (s := s) u.valueExprs (ρ.sub 0) 0 hvalues
  obtain ⟨search, hsearch, -⟩ := u.search.comesBack (s := s) (ρ.sub 1) hupdate
  obtain ⟨search', hsearch', -⟩ := d.search.comesBack (s := s) ρ hdelete
  have hu : u.eqTransform s ρ = some { u with valueExprs := es, search } := by
    simp only [UpdateQuery.eqTransform, hes, hsearch, Option.bind_eq_bind, Option.bind_some]
  have hd : d.eqTransform s ρ = some { d with search := search' } := by
    simp only [DeleteQuery.eqTransform, hsearch', Option.bind_eq_bind, Option.bind_some]
  refine ⟨⟨_, hu, fun env => ?_⟩, _, hd, fun env => ?_⟩
  · rw [UpdateQuery.content_transform hvalues hupdate hmove hmoveUpdate hu]
  · rw [DeleteQuery.content_transform hdelete hmoveDelete hd]

/-- `update t set c0 = 2 where true` and `delete from t where true` -/
theorem eqTransform_content_two :
    (∃ u', UpdateQuery.eqTransform schemaMysql plainDraws
        ⟨"t", ["c0"], [.node .fresh (.constExpr "2")], .newConst (some true), none⟩ = some u' ∧
      ∀ env, u'.content integers env = UpdateQuery.content integers
        ⟨"t", ["c0"], [.node .fresh (.constExpr "2")], .newConst (some true), none⟩ env) ∧
      ∃ d', DeleteQuery.eqTransform schemaMysql plainDraws
          ⟨"t", .newConst (some true), some ⟨"c0", true, 1⟩⟩ = some d' ∧
        ∀ env, d'.content integers env =
          DeleteQuery.content integers ⟨"t", .newConst (some true), some ⟨"c0", true, 1⟩⟩ env := by
  have hsettled : (BoolExpr.newConst (some true)).Settled := by
    simp [BoolExpr.newConst, BoolExpr.Settled, Wrap.Idle]
  have hall : (BoolExpr.newConst (some true)).All (Movable integers schemaMysql) := by
    simp only [BoolExpr.newConst, BoolExpr.All]
  refine eqTransform_content integers schemaMysql _ _ plainDraws ?_ hsettled hsettled ?_ hall hall
  · simp [ListSettled, ValueExpr.Settled, ValueForm.Settled, Wrap.Idle]
  · simp only [ListAll, ValueExpr.All, ValueForm.All, and_self]

end DbFuzz.Expr
