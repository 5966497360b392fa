import DbFuzz.Expr.Splice

/-! `equivalent_transform` does not change what an expression means. -/

namespace DbFuzz.Expr

variable {D : Type} {I : Interp D} {s : Schema}

/-! ### Queries with other select lists and conditions of the same meaning -/

/-- The queries differ in their select list and search condition, which mean the same. -/
structure QuerySpec.Alike (I : Interp D) (q q' : QuerySpec) : Prop where
  parts : ∃ es search, q' = q.withParts es search
  search : q'.search.out.eval I = q.search.out.eval I
  list : q'.list I = q.list I
  length : q'.selectList.valueExprs.length = q.selectList.valueExprs.length

namespace QuerySpec.Alike

variable {q q' : QuerySpec} (h : q.Alike I q')

include h

theorem columns : q'.columns I = q.columns I := by
  obtain ⟨es, search, rfl⟩ := h.parts
  obtain ⟨_, _, ⟨⟩, _, _, _, _, _, _⟩ := q
  rfl

theorem tables : q'.tables I = q.tables I := by
  obtain ⟨es, search, rfl⟩ := h.parts
  obtain ⟨_, _, ⟨⟩, _, _, _, _, _, _⟩ := q
  rfl

theorem limit : q'.limit = q.limit := by
  obtain ⟨es, search, rfl⟩ := h.parts
  obtain ⟨_, _, ⟨⟩, _, _, _, _, _, _⟩ := q
  rfl

theorem keeps : q'.keeps = q.keeps := by
  obtain ⟨es, search, rfl⟩ := h.parts
  exact withParts_keeps

theorem withoutOrder (ho : q.withoutOrder = q) : q'.withoutOrder = q' := by
  obtain ⟨es, search, rfl⟩ := h.parts
  exact withParts_withoutOrder ho

theorem flat (hq : q.Flat I) : q'.Flat I := by
  refine ⟨?_, ?_, by rw [h.list]; exact hq.list⟩
  · rw [← hq.group]
    obtain ⟨es, search, rfl⟩ := h.parts
    obtain ⟨_, _, ⟨⟩, _, _, _, _, _, _⟩ := q
    rfl
  · rw [← hq.limit]
    obtain ⟨es, search, rfl⟩ := h.parts
    obtain ⟨_, _, ⟨⟩, _, _, _, _, _, _⟩ := q
    rfl

theorem rows : q'.out.rows I = q.out.rows I := by
  have hlist := h.list
  have hsearch := h.search
  obtain ⟨es, search, rfl⟩ := h.parts
  obtain ⟨_, _, ⟨columns, names, es'⟩, _, _, _, _, _, _⟩ := q
  have hes : evals I (outList es) = evals I (outList es') := hlist
  funext env
  simp only [withParts, QuerySpec.search] at hsearch
  simp only [withParts, out, SqlQuery.rows, hsearch, hes]

end QuerySpec.Alike

theorem QuerySpec.Apart.alike {l l' r r' : QuerySpec} (h : l.Apart I r) (hl : l.Alike I l')
    (hr : r.Alike I r') : l'.Apart I r' where
  tables := by
    rw [hl.columns, hr.tables]
    exact h.tables
  search := by
    rw [hl.columns, hr.search]
    exact h.search
  list := by
    rw [hl.columns, hr.list]
    exact h.list
  list_left := by
    rw [hr.columns, hl.list]
    exact h.list_left

theorem QuerySpec.Spliceable.alike {l l' r r' : QuerySpec} {type : CompoundType}
    (h : l.Spliceable I type r) (hl : l.Alike I l') (hr : r.Alike I r') :
    l'.Spliceable I type r' := by
  intro hk
  rw [hl.keeps, hr.keeps] at hk
  obtain ⟨hfl, hfr, hap⟩ := h hk
  exact ⟨hl.flat hfl, hr.flat hfr, hap.alike hl hr⟩

inductive Subquery.Alike (I : Interp D) : Subquery → Subquery → Prop
  | spec {q q'} (h : q.Alike I q') : Alike I (.spec q) (.spec q')
  | union {l l' r r' type w} (hl : l.Alike I l') (hr : r.Alike I r') :
    Alike I (.union l type r w) (.union l' type r' w)

namespace Subquery.Alike

variable {q q' : Subquery} (h : q.Alike I q')

include h

theorem paired (hp : q.Paired) : q'.Paired := by
  cases h with
  | spec h => trivial
  | union hl hr =>
    obtain ⟨hw, hol, hor, hlen⟩ := hp
    exact ⟨hw, hl.withoutOrder hol, hr.withoutOrder hor, by rw [hl.length, hr.length, hlen]⟩

theorem rows (hp : q.Paired) : q'.out.rows I = q.out.rows I := by
  cases h with
  | spec h => exact h.rows
  | union hl hr =>
    funext env
    rw [out_union hp.1, out_union hp.1, SqlQuery.rows, SqlQuery.rows, hl.rows, hr.rows]

end Subquery.Alike

/-! ### The nodes with a subquery -/

mutual

/-- `p` holds of every node with a subquery. -/
def ValueExpr.All (p : BoolForm → Prop) : ValueExpr → Prop
  | .node _ form => form.All p
  | .plain _ _ => True
  | .bool e => e.All p

def ValueForm.All (p : BoolForm → Prop) : ValueForm → Prop
  | .columnReference _ _ | .constExpr _ | .kept _ => True
  | .caseExpr c t f => c.All p ∧ t.All p ∧ f.All p
  | .coalesce _ es | .funcall _ _ es | .winFuncall _ es => ListAll p es
  | .binopExpr _ l r | .intervalExpr _ _ l r => l.All p ∧ r.All p
  | .castExpr _ _ e | .mysqlJsonOp _ _ e => e.All p

def ListAll (p : BoolForm → Prop) : List ValueExpr → Prop
  | [] => True
  | e :: es => e.All p ∧ ListAll p es

def BoolExpr.All (p : BoolForm → Prop) : BoolExpr → Prop
  | .node _ form => form.All p
  | .plain _ _ | .constBool _ _ => True

def BoolForm.All (p : BoolForm → Prop) : BoolForm → Prop
  | .kept _ => True
  | .comparisonOp _ l r | .distinctPred l r => l.All p ∧ r.All p
  | .notExpr e => e.All p
  | .nullPredicate _ e | .likeOp e _ _ => e.All p
  | .boolTerm _ l r _ => l.All p ∧ r.All p
  | .betweenOp l m r _ => l.All p ∧ m.All p ∧ r.All p
  | .inQuery isNegated l q w => p (.inQuery isNegated l q w) ∧ l.All p ∧ q.All p
  | .existsPredicate q saved w => p (.existsPredicate q saved w) ∧ q.All p
  | .compSubquery l op q => p (.compSubquery l op q) ∧ l.All p ∧ q.All p

def QuerySpec.All (p : BoolForm → Prop) : QuerySpec → Prop
  | .mk _ _ (.mk _ _ es) _ search _ _ _ _ => ListAll p es ∧ search.All p

def Subquery.All (p : BoolForm → Prop) : Subquery → Prop
  | .spec q => q.All p
  | .union l _ r _ => l.All p ∧ r.All p

end

variable (I s) in
/-- The condition of an `exists_predicate` can go into its select list. -/
def Subquery.Selectable : Subquery → Prop
  | .spec q => q.keeps = true ∨ q.limit = none ∧ RowLocal (q.search.out.eval I)
  | .union l type r _ => s.targetDbms = .clickhouse ∨ l.Spliceable I type r

variable (I s) in
/-- No condition is lost and no column captured where the transform moves an expression. -/
def Movable : BoolForm → Prop
  | .inQuery isNegated l q _ => s.targetDbms = .clickhouse ∨ isNegated = false ∧ q.Matchable I l
  | .existsPredicate q _ _ => q.Selectable I s
  | _ => True

/-- An ungrouped query has rows when it finds rows. -/
theorem QuerySpec.exists_found {q : QuerySpec} (hgroup : q.group = none) (hlimit : q.limit = none)
    (env : Env D) : (∃ row ∈ q.out.rows I env, True) ↔ ∃ e, e ∈ q.found I env := by
  obtain ⟨options, quantifier, ⟨columns, names, es⟩, from_, search, group, window, order, limit⟩ := q
  obtain rfl : group = none := hgroup
  obtain rfl : limit = none := hlimit
  rw [out, outGroup, SqlQuery.rows, I.exists_finish fun _ _ _ h => h, grouped]
  simp only [List.mem_map, and_true]
  constructor
  · rintro ⟨_, _, ⟨e, he, -⟩, -⟩
    exact ⟨e, he⟩
  · rintro ⟨e, he⟩
    exact ⟨_, _, ⟨e, he, rfl⟩, rfl⟩

/-- The value that a row has in the new select list. -/
theorem selectingSearch_eval {q : QuerySpec} {env : Env D}
    (h : I.ofTruth (I.toTruth (q.search.out.eval I env)) = q.search.out.eval I env) :
    evals I (outList q.selectingSearch.valueExprs) env =
      [I.ofTruth (.ofBool (decide (q.holds I env = .yes)))] := by
  rw [QuerySpec.selectingSearch, SelectList.valueExprs, outList, outList, evals, evals,
    eval_newCase, eval_newNull, ValueExpr.out, ValueExpr.out, eval_newConst, Sql.eval,
    Interp.toTruth_ofTruth, QuerySpec.holds, ← h]
  cases I.toTruth (q.search.out.eval I env) <;> simp [Interp.ofTruth, Truth.ofBool, Interp.toTruth,
    I.truth_ofBool]

/-- The comparison of `true` with a truth value. -/
theorem Interp.compare_true (b : Bool) :
    I.compare "=" (some (I.ofBool true)) (I.ofTruth (.ofBool b)) = .ofBool b := by
  cases b with
  | true => exact (I.compare_equal _ _).trans (by rw [I.same_equivalence.refl])
  | false =>
    have hne : I.same (I.ofBool true) (I.ofBool false) = false := by
      by_contra h
      have htruth := I.same_truth _ _ (by simpa using h)
      simp [I.truth_ofBool] at htruth
    exact (I.compare_equal _ _).trans (by rw [hne])

/-- The query that selects its own search condition. -/
def QuerySpec.selecting (q : QuerySpec) : QuerySpec :=
  (q.withSearch (.newConst (some true))).withSelectList q.selectingSearch

section Selecting

variable {q : QuerySpec} (hk : q.keeps = false) (hlimit : q.limit = none)
  (hlocal : RowLocal (q.search.out.eval I))
  (hcond : ∀ env, I.ofTruth (I.toTruth (q.search.out.eval I env)) = q.search.out.eval I env)

include hcond in
theorem selecting_list (env : Env D) :
    q.selecting.list I env = [I.ofTruth (.ofBool (decide (q.holds I env = .yes)))] := by
  rw [← selectingSearch_eval (hcond env)]
  cases q
  rfl

include hk in
theorem group_of_keeps : q.group = none := by
  cases hg : q.group with
  | none => rfl
  | some g => simp [QuerySpec.keeps, hg] at hk

include hk hlimit hlocal hcond in
theorem selecting_flat : q.selecting.Flat I where
  group := by
    rw [← group_of_keeps hk]
    cases q
    rfl
  limit := by
    rw [← hlimit]
    cases q
    rfl
  list env peers window := by
    rw [selecting_list hcond, selecting_list hcond, QuerySpec.holds, QuerySpec.holds, hlocal]

theorem selecting_holds (env : Env D) : q.selecting.holds I env = .yes := by
  have hsearch : q.selecting.search = .newConst (some true) := by
    cases q
    rfl
  rw [QuerySpec.holds, hsearch, eval_newConst, Sql.eval, Interp.toTruth_ofTruth]
  rfl

include hk hlimit hlocal hcond

/-- It has a row for every row of the from clause. -/
theorem selecting_rows (env : Env D) {p : SqlRow D → Prop}
    (hp : ∀ a b, I.sameRow a b = true → p a → p b) :
    (∃ row ∈ q.selecting.out.rows I env, p row) ↔
      ∃ row ∈ q.tables I env,
        p [I.ofTruth (.ofBool (decide (q.holds I (env.bind (q.columns I) row) = .yes)))] := by
  have htables : q.selecting.tables I = q.tables I := by
    cases q
    rfl
  have hcolumns : q.selecting.columns I = q.columns I := by
    cases q
    rfl
  rw [(selecting_flat hk hlimit hlocal hcond).exists_rows hp]
  simp only [QuerySpec.mem_found, selecting_list hcond, htables, hcolumns, selecting_holds,
    and_true, exists_exists_and_eq_and]

/-- `true in (..)` over the search condition as the selected value. -/
theorem selecting_member (env : Env D) :
    I.member (some (I.ofBool true)) (q.selecting.out.rows I env) =
      .ofBool (!(q.out.rows I env).isEmpty) := by
  have hknown : ∀ t ∈ (q.selecting.out.rows I env).map
      fun row => I.compare "=" (some (I.ofBool true)) row.value, t ≠ .unknown := by
    intro t ht hunknown
    obtain ⟨row, hrow, rfl⟩ := List.mem_map.1 ht
    obtain ⟨inner, -, h⟩ := (selecting_rows hk hlimit hlocal hcond env
      (p := fun row => I.compare "=" (some (I.ofBool true)) row.value = .unknown)
      fun a b hab ha => by rwa [← I.compare_same _ (I.sameValue_value hab)]).1
        ⟨row, hrow, hunknown⟩
    rw [SqlRow.value, List.getLast?_singleton, Option.join_some, I.compare_true] at h
    cases hb : decide (q.holds I (env.bind (q.columns I) inner) = .yes) <;>
      simp [hb, Truth.ofBool] at h
  rw [Interp.member, Truth.any_of_known hknown]
  congr 1
  rw [Bool.eq_iff_iff, decide_eq_true_eq, ← Truth.any_eq_yes, ← Interp.member, I.member_eq_yes,
    selecting_rows hk hlimit hlocal hcond env fun a b hab ha => by rwa [← I.matches_same _ hab]]
  rw [exists_row, QuerySpec.exists_found (group_of_keeps hk) hlimit]
  simp only [QuerySpec.mem_found, Interp.matches, SqlRow.value, List.getLast?_singleton,
    Option.join_some, I.compare_true, Truth.ofBool_eq_yes, decide_eq_true_eq]
  constructor
  · rintro ⟨row, hrow, hyes⟩
    exact ⟨_, ⟨row, hrow, rfl⟩, hyes⟩
  · rintro ⟨_, ⟨row, hrow, rfl⟩, hyes⟩
    exact ⟨row, hrow, hyes⟩

end Selecting

/-- The expression of an `exists_predicate` is true when the query has rows, else false. -/
theorem existsTransform_eval {q : Subquery} {form : BoolForm}
    (h : existsTransform s none q = some form) (hq : q.Selectable I s) (hp : q.Paired)
    (hcond : ∀ spec, q = .spec spec → ∀ env,
      I.ofTruth (I.toTruth (spec.search.out.eval I env)) = spec.search.out.eval I env)
    (env : Env D) : form.out.eval I env = I.ofTruth (.ofBool (!(q.out.rows I env).isEmpty)) := by
  have hexists : ∀ new : Subquery, (BoolExpr.newExists new).out.eval I env =
      I.ofTruth (.ofBool (!(new.out.rows I env).isEmpty)) := by
    intro new
    rw [← eval_newExists, Sql.eval_condition rfl]
  cases q with
  | spec q =>
    by_cases hk : q.keeps = true
    · simp only [existsTransform, hk, Option.isSome_none, Bool.false_eq_true, if_false, if_true,
        Option.some.injEq] at h
      rw [← h, BoolForm.out, hexists]
    · simp only [existsTransform, hk, Option.isSome_none, Bool.false_eq_true, if_false,
        Option.some.injEq] at h
      obtain ⟨hlimit, hlocal⟩ := hq.resolve_left hk
      rw [← h, BoolForm.out, eval_newIn, ValueExpr.out, eval_newConst, Sql.eval, Subquery.out,
        Subquery.out]
      exact congrArg I.ofTruth
        (selecting_member (by simpa using hk) hlimit hlocal (hcond q rfl) env)
  | union l type r w =>
    obtain ⟨hw, hl, hr, hlen⟩ := hp
    by_cases hc : s.targetDbms = .clickhouse
    · simp only [existsTransform, hc, Option.isSome_none, Bool.false_eq_true, if_false, if_true,
        Option.bind_eq_bind, Option.bind_some, Option.some.injEq] at h
      rw [← h, BoolForm.out, hexists]
    · simp only [existsTransform, hc, Option.isSome_none, Bool.false_eq_true, if_false,
        Option.bind_eq_bind, Option.bind_eq_some_iff, Option.some.injEq] at h
      obtain ⟨new, hnew, rfl⟩ := h
      rw [BoolForm.out, hexists]
      congr 2
      rw [Bool.eq_iff_iff, exists_row, exists_row,
        unionTransform_exists hnew hl hr hlen (hq.resolve_left hc) env fun _ _ _ h => h,
        out_union hw, SqlQuery.rows]

theorem Subquery.Matchable.alike {q q' : Subquery} {l l' : ValueExpr} (h : q.Matchable I l)
    (hq : q.Alike I q') (hl : l'.out.eval I = l.out.eval I) : q'.Matchable I l' := by
  cases hq with
  | spec hq =>
    obtain ⟨hflat, hblind⟩ := h
    exact ⟨hq.flat hflat, by rwa [hq.columns, hl]⟩
  | union hlhs hrhs =>
    obtain ⟨⟨hflatL, hblindL⟩, ⟨hflatR, hblindR⟩, hsplice⟩ := h
    exact ⟨⟨hlhs.flat hflatL, by rwa [hlhs.columns, hl]⟩,
      ⟨hrhs.flat hflatR, by rwa [hrhs.columns, hl]⟩, hsplice.alike hlhs hrhs⟩

theorem Subquery.Selectable.alike {q q' : Subquery} (h : q.Selectable I s)
    (hq : q.Alike I q') : q'.Selectable I s := by
  cases hq with
  | spec hq =>
    obtain hk | ⟨hlimit, hlocal⟩ := h
    · exact .inl (by rwa [hq.keeps])
    · exact .inr ⟨by rw [hq.limit, hlimit], by rwa [hq.search]⟩
  | union hl hr => exact h.imp_right fun h => h.alike hl hr

/-! ### The transform -/

theorem out_fresh_inQuery {isNegated : Bool} {l : ValueExpr} {q : Subquery} {w : Wrap ValueExpr}
    (h : w.Idle fun _ => True) :
    (BoolForm.inQuery isNegated l q w).out = .inQuery isNegated l.out q.out := by
  cases w with
  | fresh | cached eq => simp only [BoolForm.out]
  | transformed eq => exact absurd h (by simp [Wrap.Idle])

theorem out_fresh_exists {q : Subquery} {saved : Option SelectList} {w : Wrap BoolExpr}
    (h : w.Idle fun _ => True) : (BoolForm.existsPredicate q saved w).out = .exists q.out := by
  cases w with
  | fresh | cached eq => simp only [BoolForm.out]
  | transformed eq => exact absurd h (by simp [Wrap.Idle])

theorem out_fresh_between {l m r : ValueExpr} {w : Wrap BoolExpr} (h : w.Idle fun _ => True) :
    (BoolForm.betweenOp l m r w).out = .between m.out l.out r.out := by
  cases w with
  | fresh | cached eq => simp only [BoolForm.out]
  | transformed eq => exact absurd h (by simp [Wrap.Idle])

theorem Subquery.paired_settled {q : Subquery} (h : q.Settled) : q.Paired := by
  cases q with
  | spec q => trivial
  | union l type r w =>
    rw [Subquery.Settled] at h
    obtain ⟨hw, hl, hr, hlen, -⟩ := h
    exact ⟨hw.isTransformed, hl, hr, hlen⟩

/-- The search condition of the query of an `exists_predicate` keeps its truth value. -/
theorem Subquery.Alike.condition {q : Subquery} {spec : QuerySpec} (h : q.Alike I (.spec spec))
    (hq : q.Settled) (env : Env D) :
    I.ofTruth (I.toTruth (spec.search.out.eval I env)) = spec.search.out.eval I env := by
  cases h with
  | @spec q _ h =>
    obtain ⟨options, quantifier, sl, from_, search, group, window, order, limit⟩ := q
    rw [Subquery.Settled, QuerySpec.Settled] at hq
    rw [h.search]
    exact Sql.eval_condition (search.out_condition hq.2.2.1) env

theorem Wrap.mark_idle {α : Type} {stored : α → Prop} {w w' : Wrap α} {new : α}
    (hw : w.Idle stored) (hnew : stored new) (h : w.mark new = some w') :
    ∃ eq, w' = .transformed eq ∧ stored eq := by
  obtain ⟨eq, hmark, hs⟩ := hw.mark hnew
  rw [hmark, Option.some.injEq] at h
  exact ⟨eq, h.symm, hs⟩

section Transform

set_option linter.unusedSectionVars false

variable {p : BoolForm → Prop} (hmove : ∀ form, p form → Movable I s form)

include hmove

mutual

theorem ValueExpr.eval_transform : ∀ (e : ValueExpr) (ρ : Choices) {e' : ValueExpr},
    e.Settled → e.All p → e.transform s ρ = some e' → e'.out.eval I = e.out.eval I
  | .node w form, ρ, e', hs, hp, h => by
    rw [ValueExpr.Settled] at hs
    rw [ValueExpr.All] at hp
    simp only [ValueExpr.transform, Option.bind_eq_bind, Option.bind_eq_some_iff,
      Option.some.injEq] at h
    obtain ⟨w', hw, form', hform, rfl⟩ := h
    obtain ⟨eq, rfl, d, rfl⟩ := Wrap.mark_idle hs.1 ⟨ρ [], rfl⟩ hw
    have heval := form.eval_transform ρ hs.2 hp hform
    funext env
    rw [ValueExpr.out, ValueExpr.out, hs.1.outValue, Wrap.outValue,
      eqValueExpr_eval d (congrFun heval env).symm, heval]
  | .plain w text, ρ, e', hs, hp, h => by
    simp only [ValueExpr.transform, Option.bind_eq_bind, Option.bind_eq_some_iff,
      Option.some.injEq] at h
    obtain ⟨w', -, rfl⟩ := h
    rw [ValueExpr.out, ValueExpr.out]
  | .bool e, ρ, e', hs, hp, h => by
    rw [ValueExpr.Settled] at hs
    rw [ValueExpr.All] at hp
    simp only [ValueExpr.transform, Option.bind_eq_bind, Option.bind_eq_some_iff,
      Option.some.injEq] at h
    obtain ⟨e', he, rfl⟩ := h
    rw [ValueExpr.out, ValueExpr.out]
    exact e.eval_transform ρ hs hp he

theorem ValueForm.eval_transform : ∀ (form : ValueForm) (ρ : Choices) {form' : ValueForm},
    form.Settled → form.All p → form.transform s ρ = some form' →
      form'.out.eval I = form.out.eval I
  | .columnReference _ _, ρ, form', hs, hp, h | .constExpr _, ρ, form', hs, hp, h
  | .kept _, ρ, form', hs, hp, h => by
    rw [ValueForm.transform, Option.some.injEq] at h
    rw [h]
  | .caseExpr c t f, ρ, form', hs, hp, h => by
    rw [ValueForm.Settled] at hs
    rw [ValueForm.All] at hp
    simp only [ValueForm.transform, Option.bind_eq_bind, Option.bind_eq_some_iff,
      Option.some.injEq] at h
    obtain ⟨c', hc, t', ht, f', hf, rfl⟩ := h
    funext env
    simp only [ValueForm.out, Sql.eval, c.eval_transform _ hs.1 hp.1 hc,
      t.eval_transform _ hs.2.1 hp.2.1 ht, f.eval_transform _ hs.2.2 hp.2.2 hf]
  | .coalesce abbrev_ es, ρ, form', hs, hp, h => by
    rw [ValueForm.Settled] at hs
    rw [ValueForm.All] at hp
    simp only [ValueForm.transform, Option.bind_eq_bind, Option.bind_eq_some_iff,
      Option.some.injEq] at h
    obtain ⟨es', hes, rfl⟩ := h
    funext env
    simp only [ValueForm.out, Sql.eval, evals_transform es _ _ hs hp hes]
  | .binopExpr oper l r, ρ, form', hs, hp, h => by
    rw [ValueForm.Settled] at hs
    rw [ValueForm.All] at hp
    simp only [ValueForm.transform, Option.bind_eq_bind, Option.bind_eq_some_iff,
      Option.some.injEq] at h
    obtain ⟨l', hl, r', hr, rfl⟩ := h
    funext env
    simp only [ValueForm.out, Sql.eval, l.eval_transform _ hs.1 hp.1 hl,
      r.eval_transform _ hs.2 hp.2 hr]
  | .funcall proc isAggregate es, ρ, form', hs, hp, h => by
    rw [ValueForm.Settled] at hs
    rw [ValueForm.All] at hp
    obtain ⟨es', rfl, heval⟩ : ∃ es', form' = .funcall proc isAggregate es' ∧
        evals I (outList es') = evals I (outList es) := by
      rw [ValueForm.transform] at h
      split at h
      · exact ⟨es, by simpa using h.symm, rfl⟩
      · simp only [Option.bind_eq_bind, Option.bind_eq_some_iff, Option.some.injEq] at h
        obtain ⟨es', hes, rfl⟩ := h
        exact ⟨es', rfl, evals_transform es _ _ hs hp hes⟩
    funext env
    cases isAggregate <;> simp only [ValueForm.out, Sql.eval, heval]
  | .winFuncall proc es, ρ, form', hs, hp, h => by
    rw [ValueForm.Settled] at hs
    rw [ValueForm.All] at hp
    obtain ⟨es', rfl, heval⟩ : ∃ es', form' = .winFuncall proc es' ∧
        evals I (outList es') = evals I (outList es) := by
      rw [ValueForm.transform] at h
      split at h
      · exact ⟨es, by simpa using h.symm, rfl⟩
      · simp only [Option.bind_eq_bind, Option.bind_eq_some_iff, Option.some.injEq] at h
        obtain ⟨es', hes, rfl⟩ := h
        exact ⟨es', rfl, evals_transform es _ _ hs hp hes⟩
    funext env
    simp only [ValueForm.out, Sql.eval, heval]
  | .castExpr useConvert target e, ρ, form', hs, hp, h => by
    rw [ValueForm.Settled] at hs
    rw [ValueForm.All] at hp
    simp only [ValueForm.transform, Option.bind_eq_bind, Option.bind_eq_some_iff,
      Option.some.injEq] at h
    obtain ⟨e', he, rfl⟩ := h
    funext env
    simp only [ValueForm.out, Sql.eval, e.eval_transform _ hs hp he]
  | .intervalExpr isAdd unit date amount, ρ, form', hs, hp, h => by
    rw [ValueForm.Settled] at hs
    rw [ValueForm.All] at hp
    simp only [ValueForm.transform, Option.bind_eq_bind, Option.bind_eq_some_iff,
      Option.some.injEq] at h
    obtain ⟨date', hd, amount', ha, rfl⟩ := h
    funext env
    simp only [ValueForm.out, Sql.eval, date.eval_transform _ hs.1 hp.1 hd,
      amount.eval_transform _ hs.2 hp.2 ha]
  | .mysqlJsonOp op path l, ρ, form', hs, hp, h => by
    rw [ValueForm.Settled] at hs
    rw [ValueForm.All] at hp
    simp only [ValueForm.transform, Option.bind_eq_bind, Option.bind_eq_some_iff,
      Option.some.injEq] at h
    obtain ⟨l', hl, rfl⟩ := h
    funext env
    simp only [ValueForm.out, Sql.eval, l.eval_transform _ hs hp hl]

theorem evals_transform : ∀ (es : List ValueExpr) (ρ : Choices) (i : ℕ) {es' : List ValueExpr},
    ListSettled es → ListAll p es → transformList s ρ i es = some es' →
      evals I (outList es') = evals I (outList es)
  | [], ρ, i, es', hs, hp, h => by
    rw [transformList, Option.some.injEq] at h
    rw [h]
  | e :: es, ρ, i, es', hs, hp, h => by
    rw [ListSettled] at hs
    rw [ListAll] at hp
    simp only [transformList, Option.bind_eq_bind, Option.bind_eq_some_iff,
      Option.some.injEq] at h
    obtain ⟨e', he, es', hes, rfl⟩ := h
    funext env
    rw [outList, outList, evals, evals, e.eval_transform _ hs.1 hp.1 he,
      evals_transform es _ _ hs.2 hp.2 hes]

theorem BoolExpr.eval_transform : ∀ (e : BoolExpr) (ρ : Choices) {e' : BoolExpr},
    e.Settled → e.All p → e.transform s ρ = some e' → e'.out.eval I = e.out.eval I
  | .node w form, ρ, e', hs, hp, h => by
    rw [BoolExpr.Settled] at hs
    rw [BoolExpr.All] at hp
    simp only [BoolExpr.transform, Option.bind_eq_bind, Option.bind_eq_some_iff,
      Option.some.injEq] at h
    obtain ⟨w', hw, form', hform, rfl⟩ := h
    obtain ⟨eq, rfl, d, rfl⟩ := Wrap.mark_idle hs.1 ⟨ρ [], rfl⟩ hw
    have heval := form.eval_transform ρ hs.2 hp hform
    funext env
    have htruth : I.ofTruth (I.toTruth (form'.out.eval I env)) = form'.out.eval I env := by
      rw [heval]
      exact Sql.eval_condition (form.out_condition hs.2) env
    rw [BoolExpr.out, BoolExpr.out, hs.1.outBool, Wrap.outBool, eqBoolExpr_eval d htruth, heval]
  | .plain w text, ρ, e', hs, hp, h => by
    simp only [BoolExpr.transform, Option.bind_eq_bind, Option.bind_eq_some_iff,
      Option.some.injEq] at h
    obtain ⟨w', -, rfl⟩ := h
    rw [BoolExpr.out, BoolExpr.out]
  | .constBool w op, ρ, e', hs, hp, h => by
    rw [BoolExpr.Settled] at hs
    simp only [BoolExpr.transform, Option.bind_eq_bind, Option.bind_eq_some_iff,
      Option.some.injEq] at h
    obtain ⟨w', hw, rfl⟩ := h
    obtain ⟨eq, rfl, d, rfl⟩ := Wrap.mark_idle hs ⟨ρ [], rfl⟩ hw
    have hout : (BoolExpr.constBool w op).out = .literal op := by
      cases w with
      | fresh | cached eq => simp only [BoolExpr.out]
      | transformed eq => exact absurd hs (by simp [Wrap.Idle])
    funext env
    rw [hout, BoolExpr.out, eqConstBool_eval]

theorem BoolForm.eval_transform : ∀ (form : BoolForm) (ρ : Choices) {form' : BoolForm},
    form.Settled → form.All p → form.transform s ρ = some form' →
      form'.out.eval I = form.out.eval I
  | .kept _, ρ, form', hs, hp, h => by
    rw [BoolForm.transform, Option.some.injEq] at h
    rw [h]
  | .comparisonOp oper l r, ρ, form', hs, hp, h | .distinctPred l r, ρ, form', hs, hp, h => by
    rw [BoolForm.Settled] at hs
    rw [BoolForm.All] at hp
    simp only [BoolForm.transform, Option.bind_eq_bind, Option.bind_eq_some_iff,
      Option.some.injEq] at h
    obtain ⟨l', hl, r', hr, rfl⟩ := h
    funext env
    simp only [BoolForm.out, Sql.eval, l.eval_transform _ hs.1 hp.1 hl,
      r.eval_transform _ hs.2 hp.2 hr]
  | .notExpr e, ρ, form', hs, hp, h => by
    rw [BoolForm.Settled] at hs
    rw [BoolForm.All] at hp
    simp only [BoolForm.transform, Option.bind_eq_bind, Option.bind_eq_some_iff,
      Option.some.injEq] at h
    obtain ⟨e', he, rfl⟩ := h
    funext env
    simp only [BoolForm.out, Sql.eval, e.eval_transform _ hs hp he]
  | .nullPredicate isNull e, ρ, form', hs, hp, h | .likeOp e _ _, ρ, form', hs, hp, h => by
    rw [BoolForm.Settled] at hs
    rw [BoolForm.All] at hp
    simp only [BoolForm.transform, Option.bind_eq_bind, Option.bind_eq_some_iff,
      Option.some.injEq] at h
    obtain ⟨e', he, rfl⟩ := h
    funext env
    simp only [BoolForm.out, Sql.eval, e.eval_transform _ hs hp he]
  | .boolTerm isOr l r equal, ρ, form', hs, hp, h => by
    rw [BoolForm.Settled] at hs
    rw [BoolForm.All] at hp
    obtain ⟨rfl, hl, hr⟩ := hs
    simp only [BoolForm.transform, Option.bind_eq_bind, Option.bind_eq_some_iff,
      Option.some.injEq] at h
    obtain ⟨l', hl', r', hr', rfl⟩ := h
    funext env
    rw [BoolForm.out, equalExpr_eval, BoolForm.out]
    cases isOr <;> simp only [Sql.eval, l.eval_transform _ hl hp.1 hl', r.eval_transform _ hr hp.2 hr']
  | .betweenOp l m r w, ρ, form', hs, hp, h => by
    rw [BoolForm.Settled] at hs
    rw [BoolForm.All] at hp
    obtain ⟨hw, hl, hm, hr⟩ := hs
    simp only [BoolForm.transform, Option.bind_eq_bind, Option.bind_eq_some_iff,
      Option.some.injEq] at h
    obtain ⟨l', hl', m', hm', r', hr', rfl⟩ := h
    have hout : ∀ env, (BoolForm.betweenOp l' m' r' (betweenTransform s l' m' r' w)).out.eval I env =
        (Sql.between m'.out l'.out r'.out).eval I env := by
      intro env
      unfold betweenTransform
      split
      · rw [BoolForm.out, betweenTransform_eval]
      · rw [out_fresh_between hw]
    funext env
    rw [hout, out_fresh_between hw]
    simp only [Sql.eval, l.eval_transform _ hl hp.1 hl', m.eval_transform _ hm hp.2.1 hm',
      r.eval_transform _ hr hp.2.2 hr']
  | .inQuery isNegated l q w, ρ, form', hs, hp, h => by
    rw [BoolForm.Settled] at hs
    rw [BoolForm.All] at hp
    obtain ⟨hw, hl, hq⟩ := hs
    obtain ⟨hpm, hpl, hpq⟩ := hp
    simp only [BoolForm.transform, Option.bind_eq_bind, Option.bind_eq_some_iff] at h
    obtain ⟨l', hl', q', hq', h⟩ := h
    have hevall := l.eval_transform _ hl hpl hl'
    have halike := q.alike_transform _ _ hq hpq hq'
    have hpaired := q.paired_settled hq
    funext env
    split at h
    · cases h
      rw [out_fresh_inQuery hw, out_fresh_inQuery hw, Sql.eval, Sql.eval, hevall,
        halike.rows hpaired]
    · rename_i hc
      obtain ⟨rfl, hmatch⟩ := (hmove _ hpm).resolve_left hc
      simp only [Option.bind_eq_some_iff, Option.some.injEq] at h
      obtain ⟨eq, heq, rfl⟩ := h
      rw [BoolForm.out, inQueryEq_eval heq (halike.paired hpaired) (hmatch.alike halike hevall),
        hevall, halike.rows hpaired, out_fresh_inQuery hw, Sql.eval, Interp.member]
      rfl
  | .existsPredicate q saved w, ρ, form', hs, hp, h => by
    rw [BoolForm.Settled] at hs
    rw [BoolForm.All] at hp
    obtain ⟨rfl, hw, hq⟩ := hs
    obtain ⟨hpm, hpq⟩ := hp
    simp only [BoolForm.transform, Option.bind_eq_bind, Option.bind_eq_some_iff] at h
    obtain ⟨q', hq', h⟩ := h
    have halike := q.alike_transform _ _ hq hpq hq'
    have hpaired := q.paired_settled hq
    funext env
    rw [existsTransform_eval h ((hmove _ hpm).alike halike) (halike.paired hpaired) ?_, out_fresh_exists hw,
      Sql.eval, halike.rows hpaired]
    rintro spec rfl
    exact halike.condition hq
  | .compSubquery l op q, ρ, form', hs, hp, h => by
    rw [BoolForm.Settled] at hs
    rw [BoolForm.All] at hp
    simp only [BoolForm.transform, Option.bind_eq_bind, Option.bind_eq_some_iff,
      Option.some.injEq] at h
    obtain ⟨l', hl', q', hq', rfl⟩ := h
    have halike := q.alike_transform _ _ hs.2 hp.2.2 hq'
    funext env
    simp only [BoolForm.out, Sql.eval, l.eval_transform _ hs.1 hp.2.1 hl',
      halike.rows (q.paired_settled hs.2)]

theorem QuerySpec.alike_transform : ∀ (q : QuerySpec) (ρ : Choices) (list : Bool)
    {q' : QuerySpec}, q.Settled → q.All p → q.transformParts s ρ list = some q' →
      q.Alike I q'
  | .mk options quantifier (.mk columns names es) from_ search group window order limit, ρ, list,
    q', hs, hp, h => by
    rw [QuerySpec.Settled, SelectList.Settled] at hs
    rw [QuerySpec.All] at hp
    simp only [QuerySpec.transformParts, Option.bind_eq_bind, Option.bind_eq_some_iff] at h
    obtain ⟨search', hsearch, h⟩ := h
    obtain ⟨es', rfl, heval, hlen⟩ : ∃ es', q' = .mk options quantifier (.mk columns names es')
        from_ search' group window order limit ∧
        evals I (outList es') = evals I (outList es) ∧ es'.length = es.length := by
      split at h
      · simp only [Option.bind_eq_some_iff, Option.some.injEq] at h
        obtain ⟨es', hes, rfl⟩ := h
        exact ⟨es', rfl, evals_transform es _ _ hs.1.2 hp.1 hes, transformList_length hes⟩
      · exact ⟨es, by simpa using h.symm, rfl, rfl⟩
    exact ⟨⟨es', search', rfl⟩, search.eval_transform _ hs.2.2.1 hp.2 hsearch, heval, hlen⟩

theorem Subquery.alike_transform : ∀ (q : Subquery) (ρ : Choices) (list : Bool)
    {q' : Subquery}, q.Settled → q.All p → q.transformParts s ρ list = some q' →
      q.Alike I q'
  | .spec q, ρ, list, q', hs, hp, h => by
    rw [Subquery.Settled] at hs
    rw [Subquery.All] at hp
    simp only [Subquery.transformParts, Option.bind_eq_bind, Option.bind_eq_some_iff,
      Option.some.injEq] at h
    obtain ⟨q', hq', rfl⟩ := h
    exact .spec (q.alike_transform _ _ hs hp hq')
  | .union l type r w, ρ, list, q', hs, hp, h => by
    rw [Subquery.Settled] at hs
    rw [Subquery.All] at hp
    obtain ⟨-, -, -, -, hl, hr⟩ := hs
    simp only [Subquery.transformParts, Option.bind_eq_bind, Option.bind_eq_some_iff,
      Option.some.injEq] at h
    obtain ⟨l', hl', r', hr', rfl⟩ := h
    exact .union (l.alike_transform _ _ hl hp.1 hl') (r.alike_transform _ _ hr hp.2 hr')

end

end Transform

/-- Whatever is drawn, the transform of an expression without subqueries is defined and has
the value of the expression for every valuation of the columns. -/
theorem equivalentTransform_equivalent (I : Interp D) (s : Schema) (e : ValueExpr) (ρ : Choices)
    (hs : e.Settled) (hq : e.All fun _ => False) :
    ∃ e', e.transform s ρ = some e' ∧ ∀ env, e'.out.eval I env = e.out.eval I env := by
  obtain ⟨e', he, -⟩ := e.comesBack (s := s) ρ hs
  refine ⟨e', he, fun env => ?_⟩
  rw [e.eval_transform (I := I) (fun _ h => h.elim) ρ hs hq he]

/-- `((1) >= (ref_0.c0)) or (not (true))` -/
theorem equivalentTransform_equivalent_term :
    ∃ e', ValueExpr.transform schemaMysql plainDraws
        (.bool (.newTerm true (.newComparison ">=" (.node .fresh (.constExpr "1"))
          (.node .fresh (.columnReference "ref_0.c0" ""))) (.newNot (.newConst (some true))))) =
        some e' ∧
      ∀ env, e'.out.eval integers env =
        (ValueExpr.bool (.newTerm true (.newComparison ">=" (.node .fresh (.constExpr "1"))
          (.node .fresh (.columnReference "ref_0.c0" "")))
            (.newNot (.newConst (some true))))).out.eval integers env :=
  equivalentTransform_equivalent integers schemaMysql _ plainDraws
    (by simp [BoolExpr.newTerm, BoolExpr.newComparison, BoolExpr.newNot, BoolExpr.newConst,
      ValueExpr.Settled, BoolExpr.Settled, BoolForm.Settled, ValueForm.Settled, Wrap.Idle])
    (by simp [BoolExpr.newTerm, BoolExpr.newComparison, BoolExpr.newNot, BoolExpr.newConst,
      ValueExpr.All, BoolExpr.All, BoolForm.All, ValueForm.All])

end DbFuzz.Expr
