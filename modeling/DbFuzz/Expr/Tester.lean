import DbFuzz.Expr.RoundTrip

/-! `qcn_select_tester`: a query is transformed, printed and turned back, any number of
times. -/

namespace DbFuzz.Expr

def GroupClause.eqTransform (s : Schema) (ρ : Choices) : GroupClause → Option GroupClause
  | .mk groupBy having => do
    let having ← having.transform s ρ
    some (.mk groupBy having)

def GroupClause.backTransform (s : Schema) : GroupClause → Option GroupClause
  | .mk groupBy having => do
    let having ← having.back s
    some (.mk groupBy having)

mutual

/-- `eq_transform_query` -/
def QuerySpec.eqTransform (s : Schema) (ρ : Choices) : QuerySpec → Option QuerySpec
  | .mk options quantifier (.mk columns names es) from_ search group window order limit => do
    let es ← if s.targetDbms ≠ .clickhouse ∧ group.isNone then transformList s (ρ.sub 0) 0 es
      else some es
    let from_ ← from_.eqTransform s (ρ.sub 1)
    let search ← search.transform s (ρ.sub 2)
    let group ← group.mapM (GroupClause.eqTransform s (ρ.sub 3))
    some (.mk options quantifier (.mk columns names es) from_ search group window order limit)

/-- `eq_transform_table_ref` -/
def TableRef.eqTransform (s : Schema) (ρ : Choices) : TableRef → Option TableRef
  | .table text => some (.table text)
  | .subquery isLateral q ident => do
    let q ← q.eqTransform s (ρ.sub 0)
    some (.subquery isLateral q ident)
  | .joined l r type condition => do
    let l ← l.eqTransform s (ρ.sub 0)
    let r ← r.eqTransform s (ρ.sub 1)
    some (.joined l r type condition)

end

mutual

/-- `back_transform_query` -/
def QuerySpec.backTransform (s : Schema) : QuerySpec → Option QuerySpec
  | .mk options quantifier (.mk columns names es) from_ search group window order limit => do
    let es ← if s.targetDbms ≠ .clickhouse ∧ group.isNone then backList s es else some es
    let from_ ← from_.backTransform s
    let search ← search.back s
    let group ← group.mapM (GroupClause.backTransform s)
    some (.mk options quantifier (.mk columns names es) from_ search group window order limit)

/-- `back_transform_table_ref` -/
def TableRef.backTransform (s : Schema) : TableRef → Option TableRef
  | .table text => some (.table text)
  | .subquery isLateral q ident => do
    let q ← q.backTransform s
    some (.subquery isLateral q ident)
  | .joined l r type condition => do
    let l ← l.backTransform s
    let r ← r.backTransform s
    some (.joined l r type condition)

end

variable {s : Schema}

theorem group_comesBack (group : Option GroupClause) (ρ : Choices) (h : GroupSettled group) :
    ComesBack (·.mapM (GroupClause.eqTransform s ρ)) (·.mapM (GroupClause.backTransform s))
      GroupSettled bareGroup group := by
  cases group with
  | none => exact ⟨none, rfl, none, rfl, h, rfl⟩
  | some g =>
    obtain ⟨groupBy, having⟩ := g
    rw [GroupSettled] at h
    obtain ⟨having', ht, having'', hb, hs, hbare⟩ := having.comesBack (s := s) ρ h
    refine ⟨some (.mk groupBy having'), by simp [GroupClause.eqTransform, ht],
      some (.mk groupBy having''), by simp [GroupClause.backTransform, hb], ?_,
      by simp only [bareGroup, hbare]⟩
    rw [GroupSettled]
    exact hs

/-- The select list, transformed or left alone. -/
theorem list_comesBack {es : List ValueExpr} (ρ : Choices) (p : Prop) [Decidable p]
    (h : ListSettled es) :
    ComesBack (fun es => if p then transformList s ρ 0 es else some es)
      (fun es => if p then backList s es else some es) ListSettled bareList es := by
  by_cases hp : p
  · simp only [if_pos hp]
    exact listComesBack es ρ 0 h
  · simp only [if_neg hp]
    exact ⟨es, rfl, es, rfl, h, rfl⟩

mutual

theorem QuerySpec.query_comesBack : ∀ (q : QuerySpec) (ρ : Choices), q.Settled →
    ComesBack (QuerySpec.eqTransform s ρ) (QuerySpec.backTransform s) QuerySpec.Settled
      QuerySpec.bare q
  | .mk options quantifier (.mk columns names es) from_ search group window order limit, ρ, h => by
    rw [QuerySpec.Settled, SelectList.Settled] at h
    obtain ⟨⟨hne, hes⟩, hfrom, hsearch, hgroup⟩ := h
    obtain ⟨es', hte, es'', hbe, hse, he⟩ := list_comesBack (s := s) (ρ.sub 0)
      (s.targetDbms ≠ .clickhouse ∧ group.isNone) hes
    obtain ⟨from', htf, from'', hbf, hsf, hf⟩ := from_.table_comesBack (ρ.sub 1) hfrom
    obtain ⟨search', hts, search'', hbs, hss, hs⟩ := search.comesBack (s := s) (ρ.sub 2) hsearch
    obtain ⟨group', htg, group'', hbg, hsg, hg⟩ := group_comesBack (s := s) group (ρ.sub 3) hgroup
    have hnone : group'.isNone = group.isNone := by
      cases group with
      | none =>
        cases htg
        rfl
      | some g =>
        simp only [Option.mapM_some, Option.map_eq_map, Option.map_eq_some_iff] at htg
        obtain ⟨_, -, rfl⟩ := htg
        rfl
    refine ⟨.mk options quantifier (.mk columns names es') from' search' group' window order limit,
      ?_, .mk options quantifier (.mk columns names es'') from'' search'' group'' window order
        limit, ?_, ?_, by simp only [QuerySpec.bare, SelectList.bare, he, hf, hs, hg]⟩
    · by_cases hp : s.targetDbms ≠ .clickhouse ∧ group.isNone
      · simp only [if_pos hp] at hte
        simp only [QuerySpec.eqTransform, if_pos hp, hte, htf, hts, htg, Option.bind_eq_bind,
          Option.bind_some]
      · simp only [if_neg hp, Option.some.injEq] at hte
        simp only [QuerySpec.eqTransform, if_neg hp, hte, htf, hts, htg, Option.bind_eq_bind,
          Option.bind_some]
    · rw [← hnone] at hbe
      by_cases hp : s.targetDbms ≠ .clickhouse ∧ group'.isNone
      · simp only [if_pos hp] at hbe
        simp only [QuerySpec.backTransform, if_pos hp, hbe, hbf, hbs, hbg, Option.bind_eq_bind,
          Option.bind_some]
      · simp only [if_neg hp, Option.some.injEq] at hbe
        simp only [QuerySpec.backTransform, if_neg hp, hbe, hbf, hbs, hbg, Option.bind_eq_bind,
          Option.bind_some]
    · have hlen := bareList_length he
      rw [← List.length_pos_iff] at hne
      rw [QuerySpec.Settled, SelectList.Settled]
      exact ⟨⟨by rw [← List.length_pos_iff]; omega, hse⟩, hsf, hss, hsg⟩

theorem TableRef.table_comesBack : ∀ (t : TableRef) (ρ : Choices), t.Settled →
    ComesBack (TableRef.eqTransform s ρ) (TableRef.backTransform s) TableRef.Settled
      TableRef.bare t
  | .table _, ρ, h => ⟨_, by rw [TableRef.eqTransform], _, by rw [TableRef.backTransform], h, rfl⟩
  | .subquery isLateral q ident, ρ, h => by
    rw [TableRef.Settled] at h
    refine (q.query_comesBack (ρ.sub 0) h).one (TableRef.subquery isLateral · ident)
      (fun y hy => ?_) (fun y z hz => ?_) (fun z hz => ?_) fun z => ?_
    · simp [TableRef.eqTransform, hy]
    · simp [TableRef.backTransform, hz]
    · simpa only [TableRef.Settled] using hz
    · simp only [TableRef.bare]
  | .joined l r type condition, ρ, h => by
    rw [TableRef.Settled] at h
    refine (l.table_comesBack (ρ.sub 0) h.1).two (r.table_comesBack (ρ.sub 1) h.2)
      (TableRef.joined · · type condition) (fun y v hy hv => ?_) (fun y z v w hz hw => ?_)
      (fun z w hz hw => ?_) fun z w => ?_
    · simp [TableRef.eqTransform, hy, hv]
    · simp [TableRef.backTransform, hz, hw]
    · simpa only [TableRef.Settled] using ⟨hz, hw⟩
    · simp only [TableRef.bare]

end

/-- One transform and its way back. -/
def ValueExpr.round (s : Schema) (e : ValueExpr) (ρ : Choices) : Option ValueExpr :=
  (e.transform s ρ).bind (ValueExpr.back s)

def QuerySpec.round (s : Schema) (q : QuerySpec) (ρ : Choices) : Option QuerySpec :=
  (q.eqTransform s ρ).bind (QuerySpec.backTransform s)

/-- Rounds of transform and way back leave every expression and every query as it was: all
of them are defined, no node of the result is transformed, and its nodes, select lists,
conditions and text are those of the start. -/
theorem rounds_restore (s : Schema) (ρs : List Choices) :
    (∀ e : ValueExpr, e.Settled → ∃ e', ρs.foldlM (ValueExpr.round s) e = some e' ∧
      e'.Settled ∧ e'.bare = e.bare ∧ e'.out.text s = e.out.text s) ∧
    ∀ q : QuerySpec, q.Settled → ∃ q', ρs.foldlM (QuerySpec.round s) q = some q' ∧
      q'.Settled ∧ q'.bare = q.bare ∧ q'.out.text s = q.out.text s := by
  refine ⟨fun e he => ?_, fun q hq => ?_⟩
  · obtain ⟨e', hround, hs, hbare⟩ :=
      ComesBack.rounds (fun e he ρ => ValueExpr.comesBack (s := s) e ρ he) ρs he
    exact ⟨e', hround, hs, hbare, by rw [← e'.out_bare hs, hbare, e.out_bare he]⟩
  · obtain ⟨q', hround, hs, hbare⟩ :=
      ComesBack.rounds (fun q hq ρ => QuerySpec.query_comesBack (s := s) q ρ hq) ρs hq
    exact ⟨q', hround, hs, hbare, by rw [← q'.out_bare hs, hbare, q.out_bare hq]⟩

def selectTwo : QuerySpec :=
  .mk "" "" (.mk 1 ["c0"] [.node .fresh (.constExpr "2")]) (.table "t as ref_0")
    (.newConst (some true)) none none none none

/-- `(1) not in (select 2 as c0 from t as ref_0 where true)` -/
def oneNotInTwo : BoolExpr :=
  .node .fresh (.inQuery true (.node .fresh (.constExpr "1")) (.spec selectTwo) .fresh)

theorem selectTwo_settled : selectTwo.Settled := by
  simp [selectTwo, QuerySpec.Settled, SelectList.Settled, ListSettled, ValueExpr.Settled,
    ValueForm.Settled, TableRef.Settled, BoolExpr.newConst, BoolExpr.Settled, GroupSettled, Wrap.Idle]

theorem oneNotInTwo_settled : oneNotInTwo.Settled := by
  simp [oneNotInTwo, BoolExpr.Settled, BoolForm.Settled, ValueExpr.Settled, ValueForm.Settled,
    Subquery.Settled, selectTwo_settled, Wrap.Idle]

theorem rounds_restore_selectTwo :
    (∃ e', [plainDraws, plainDraws].foldlM (ValueExpr.round schemaMysql) (.bool oneNotInTwo) =
        some e' ∧ e'.Settled ∧ e'.bare = (ValueExpr.bool oneNotInTwo).bare ∧
          e'.out.text schemaMysql = (ValueExpr.bool oneNotInTwo).out.text schemaMysql) ∧
      ∃ q', [plainDraws, plainDraws].foldlM (QuerySpec.round schemaMysql) selectTwo = some q' ∧
        q'.Settled ∧ q'.bare = selectTwo.bare ∧
          q'.out.text schemaMysql = selectTwo.out.text schemaMysql :=
  ⟨(rounds_restore schemaMysql [plainDraws, plainDraws]).1 (.bool oneNotInTwo)
      (by simpa only [ValueExpr.Settled] using oneNotInTwo_settled),
    (rounds_restore schemaMysql [plainDraws, plainDraws]).2 selectTwo selectTwo_settled⟩

end DbFuzz.Expr
