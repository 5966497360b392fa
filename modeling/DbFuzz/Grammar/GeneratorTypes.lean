import DbFuzz.Grammar.Generator

/-! Types in what the generator builds: every operand has the type its place asks for. -/

namespace DbFuzz.Generator

variable {τ : Type}

/-- What a production and its operands owe to each other. -/
def Production.WellTyped (σ : Schema τ) : Production τ → List (Production τ) → Prop
  | windowFunction u, ps => ∃ p ∈ ps.head?, p.type σ = some u
  | winFuncUsingExistWin u, ps => ps.map (type σ) = [some u]
  | funcall proc _ u, ps | winFuncall proc u, ps =>
    u = proc.restype ∧ ps.map (type σ) = proc.argtypes.map some
  | coalesce _ u, ps => ps.map (type σ) = [some u, some u]
  | caseExpr u, ps => ps.map (type σ) = [some σ.boolType, some u, some u]
  | binopExpr o u, ps => u = o.result ∧ ps.map (type σ) = [some o.left, some o.right]
  | comparisonOp o, ps => o.result = σ.boolType ∧ ps.map (type σ) = [some o.left, some o.right]
  | castExpr name u, _ => (name, u) ∈ σ.castTargets
  | arrayConstructor u, ps => u = σ.intType ∧ ∀ p ∈ ps, p.type σ = some u
  | intervalExpr u, ps => u = σ.dateType ∧ ps.map (type σ) = [some σ.dateType, some σ.intType]
  | mysqlJsonOp u, ps => u = σ.textType ∧ ps.map (type σ) = [some σ.textType]
  | atomicSubselect agg _ col u, _ =>
    match agg with
    | some agg => agg.argtypes = [col.type] ∧ u = agg.restype
    | none => u = col.type
  | boolTerm, ps => ps.map (type σ) = [some σ.boolType, some σ.boolType]
  | notExpr, ps | exprJoinCond, ps | groupClause _ _, ps => ps.map (type σ) = [some σ.boolType]
  | betweenOp, ps => ps.map (type σ) = [some σ.intType, some σ.intType, some σ.intType]
  | likeOp, ps => ps.map (type σ) = [some σ.textType]
  | regexpExpr, ps => ps.map (type σ) = [some σ.textType, some σ.textType]
  | inQuery, ps | compSubquery, ps | quantifiedComparison, ps =>
    ∃ l q u, ps = [l, q] ∧ l.type σ = some u ∧ q.columns = [u]
  | querySpec cols, ps => (ps[1]?).bind (type σ) = some σ.boolType ∧
      (ps[2]?).map columns = some cols
  | unionedQuery cols, ps => ps.map columns = [cols, cols]
  | selectList cols, ps => ps.map (type σ) = cols.map some
  | tableSubquery ref, ps => ps.map columns = [ref.columns.map Column.type]
  | simpleJoinCond l r, _ => l.2.type = r.2.type
  | _, _ => True

/-- A value of the type that was asked for. -/
def OfType (σ : Schema τ) (t : Option τ) (p : Production τ) : Prop :=
  ∃ u, p.type σ = some u ∧ Meets t u

/-- What the caller may rely on. -/
def Answers (σ : Schema τ) : Request τ → Production τ → Prop
  | .value t _, p | .column t _, p | .winFuncall t, p => OfType σ t p
  | .bool, p => p.type σ = some σ.boolType
  | .columnOf _ col, p => p.type σ = some col.type
  | .const t, p | .winFuncUsingExistWin t, p => p.type σ = some t
  | .aggregateCall, p => ∃ u, p.type σ = some u
  | .query types _, p | .unioned types, p | .selectList _ types _, p | .windowedList _ types, p =>
    ∀ ts ∈ types, p.columns = ts
  | _, _ => True

abbrev Answered (σ : Schema τ) : List (Call τ) → List (Production τ) → Prop :=
  List.Forall₂ fun call p => Answers σ call.2 p

theorem OfType.type_eq {σ : Schema τ} {t : τ} {p : Production τ} (h : OfType σ (some t) p) :
    p.type σ = some t := by
  obtain ⟨u, hu, hmeets⟩ := h
  rw [hu, hmeets t rfl]

theorem meets_getD {t : Option τ} {u : τ} (h : Meets t u) : t.getD u = u := by
  cases t with
  | none => rfl
  | some v => exact h v rfl

theorem Answered.valuesOf {σ : Schema τ} {c : Ctx τ} {types : List τ} {ps : List (Production τ)}
    (h : Answered σ (valuesOf c types) ps) : ps.map (Production.type σ) = types.map some := by
  induction types generalizing ps with
  | nil =>
    cases h
    rfl
  | cons t types ih =>
    obtain ⟨p, ps, hp, hps, rfl⟩ := List.forall₂_cons_left_iff.1 h
    rw [List.map_cons, List.map_cons, ih hps, OfType.type_eq hp]

theorem Answered.pair {σ : Schema τ} {a b : Call τ} {p q : Production τ}
    (h : Answered σ [a, b] [p, q]) : Answers σ a.2 p ∧ Answers σ b.2 q := by
  cases h with
  | cons hp h =>
    cases h with
    | cons hq _ => exact ⟨hp, hq⟩

/-- The operands of a binary operator have its types, whichever of them was made again. -/
theorem Answered.operands {σ : Schema τ} {c d : Ctx τ} {o : Op τ} {l r : Production τ} {u : τ}
    (h : Answered σ [(c, .value (some o.left) none), (d, .value (some u) none)] [l, r])
    (hright : o.RightType (l.type σ) u) :
    [l, r].map (Production.type σ) = [some o.left, some o.right] := by
  obtain ⟨hl, hr⟩ := Answered.pair h
  have hl := OfType.type_eq hl
  have hr := OfType.type_eq hr
  rw [List.map_cons, List.map_cons, List.map_nil, hl, hr]
  rcases hright with rfl | ⟨hsame, hu⟩
  · rfl
  · rw [hl, Option.some.injEq] at hu
    rw [← hu, hsame]

/-! One lemma for each kind of rule. -/

theorem BoolRule.type_eq {σ : Schema τ} {c : Ctx τ} {p : Production τ} {calls : List (Call τ)}
    {ps : List (Production τ)} (h : BoolRule σ c p calls ps) : p.type σ = some σ.boolType := by
  cases h <;> rfl

theorem ValueRule.ofType {σ : Schema τ} {c : Ctx τ} {t : Option τ}
    {preferRefs : Option (List (NamedRelation τ))} {p : Production τ} {calls : List (Call τ)}
    {ps : List (Production τ)} (h : ValueRule σ c t preferRefs p calls ps)
    (hps : Answered σ calls ps) : OfType σ t p := by
  cases h with
  | windowFunction _ _ hl _ =>
    cases hps with
    | cons h _ =>
      obtain ⟨v, hv, hmeets⟩ := h
      rw [hl, Option.some.injEq] at hv
      exact ⟨_, rfl, hv ▸ hmeets⟩
  | coalesce _ _ hl _ =>
    obtain ⟨v, hv, hmeets⟩ := (Answered.pair hps).1
    rw [hl, Option.some.injEq] at hv
    exact ⟨_, rfl, hv ▸ hmeets⟩
  | funcall _ _ hmeets _ => exact ⟨_, rfl, (meets_getD hmeets).symm ▸ hmeets⟩
  | caseExpr _ hl =>
    cases hps with
    | cons _ hps =>
      obtain ⟨v, hv, hmeets⟩ := (Answered.pair hps).1
      rw [hl, Option.some.injEq] at hv
      exact ⟨_, rfl, hv ▸ hmeets⟩
  | binopExpr _ _ hmeets _ => exact ⟨_, rfl, hmeets⟩
  | jsonExtractOp _ _ hmeets _ => exact ⟨_, rfl, hmeets⟩
  | arrayConstructor _ _ ht _ _ =>
    subst ht
    exact ⟨_, rfl, nofun⟩
  | castExpr _ _ _ hmeets => exact ⟨_, rfl, hmeets⟩
  | intervalExpr _ _ hmeets => exact ⟨_, rfl, hmeets⟩
  | mysqlJsonOp _ _ hmeets => exact ⟨_, rfl, hmeets⟩
  | aggregateSubselect _ _ hmeets _ _ _ _ => exact ⟨_, rfl, hmeets⟩
  | typedSubselect _ ht _ _ hcol =>
    subst ht
    exact ⟨_, rfl, fun v hv => by rw [hcol, Option.mem_some.1 hv]⟩
  | anySubselect _ ht _ _ =>
    subst ht
    exact ⟨_, rfl, nofun⟩
  | columnReference _ hpicks =>
    cases t with
    | none => exact ⟨_, rfl, nofun⟩
    | some v => exact ⟨_, rfl, fun w hw => by rw [← hpicks.2.2, Option.mem_some.1 hw]⟩
  | constExpr => exact ⟨_, rfl, fun v hv => by rw [Option.mem_def.1 hv, Option.getD_some]⟩

theorem BoolRule.wellTyped {σ : Schema τ} {c : Ctx τ} {p : Production τ} {calls : List (Call τ)}
    {ps : List (Production τ)} (h : BoolRule σ c p calls ps) (hps : Answered σ calls ps) :
    p.WellTyped σ ps := by
  cases h with
  | constBool => trivial
  | comparisonOp _ _ hresult hright => exact ⟨hresult, Answered.operands hps hright⟩
  | boolTerm _ =>
    obtain ⟨hl, hr⟩ := Answered.pair hps
    exact congrArg₂ (fun a b => [a, b]) hl hr
  | notExpr _ =>
    cases hps with
    | cons hp _ => exact congrArg (fun a => [a]) hp
  | nullPredicate _ => trivial
  | betweenOp _ => exact Answered.valuesOf hps
  | likeOp _ => exact Answered.valuesOf hps
  | inQuery union _ hl =>
    refine ⟨_, _, _, rfl, hl, ?_⟩
    have hq := (Answered.pair hps).2
    cases union <;> exact hq _ rfl
  | compSubquery _ hl => exact ⟨_, _, _, rfl, hl, (Answered.pair hps).2 _ rfl⟩
  | quantifiedComparison _ _ _ hl => exact ⟨_, _, _, rfl, hl, (Answered.pair hps).2 _ rfl⟩
  | regexpExpr _ _ => exact Answered.valuesOf hps
  | existsPredicate _ _ _ => trivial

theorem ValueRule.wellTyped {σ : Schema τ} {c : Ctx τ} {t : Option τ}
    {preferRefs : Option (List (NamedRelation τ))} {p : Production τ} {calls : List (Call τ)}
    {ps : List (Production τ)} (h : ValueRule σ c t preferRefs p calls ps)
    (hps : Answered σ calls ps) : p.WellTyped σ ps := by
  cases h with
  | windowFunction _ _ hl _ => exact ⟨_, rfl, hl⟩
  | coalesce _ _ hl hr => exact congrArg₂ (fun a b => [a, b]) hl hr
  | funcall _ _ hmeets _ => exact ⟨meets_getD hmeets, Answered.valuesOf hps⟩
  | caseExpr _ hl =>
    cases hps with
    | cons hb hps =>
      have hr := OfType.type_eq (Answered.pair hps).2
      show [_, _, _] = _
      rw [hl, hr, show _ = some σ.boolType from hb]
  | binopExpr _ _ _ hright => exact ⟨rfl, Answered.operands hps hright⟩
  | jsonExtractOp _ _ _ _ => trivial
  | arrayConstructor _ _ _ _ _ =>
    refine ⟨rfl, fun p hp => ?_⟩
    have hmem := List.mem_map_of_mem (f := Production.type σ) hp
    rw [Answered.valuesOf hps, List.map_replicate] at hmem
    exact List.eq_of_mem_replicate hmem
  | castExpr _ _ htarget _ => exact htarget
  | intervalExpr _ _ _ => exact ⟨rfl, Answered.valuesOf hps⟩
  | mysqlJsonOp _ _ _ => exact ⟨rfl, Answered.valuesOf hps⟩
  | aggregateSubselect _ _ _ hargs _ _ hcol => exact ⟨hcol ▸ hargs, rfl⟩
  | typedSubselect _ _ _ _ _ => rfl
  | anySubselect _ _ _ _ => rfl
  | columnReference _ _ => trivial
  | constExpr => trivial

/-- A select list with one expression for each type that was asked for. -/
theorem Answered.columns_eq {σ : Schema τ} {calls : List (Call τ)} {ps : List (Production τ)}
    {types cols : List τ} (hps : Answered σ calls ps)
    (hcalls : List.Forall₂ (fun t call => ∀ p, Answers σ call.2 p → p.type σ = some t) types calls)
    (hcols : ps.map (Production.type σ) = cols.map some) : cols = types := by
  have hsome : ps.map (Production.type σ) = types.map some := by
    clear hcols
    induction hcalls generalizing ps with
    | nil =>
      cases hps
      rfl
    | cons hcall _ ih =>
      cases hps with
      | cons hp hps => rw [List.map_cons, List.map_cons, hcall _ hp, ih hps]
  exact List.map_injective_iff.2 (Option.some_injective τ) (hcols.symm.trans hsome)

theorem selected_answers {σ : Schema τ} {c : Ctx τ} {refs : List (NamedRelation τ)} {t : τ}
    {p : Production τ} (h : Answers σ (selected σ c refs (some t)).2 p) : p.type σ = some t := by
  unfold selected at h
  split at h
  · exact OfType.type_eq h
  · exact OfType.type_eq h

theorem TableRule.answers {σ : Schema τ} {c : Ctx τ} {r : Request τ} {p : Production τ}
    {calls : List (Call τ)} {ps : List (Production τ)} (h : TableRule σ c r p calls ps) :
    Answers σ r p := by
  cases h <;> trivial

theorem derivedTable_types (ident : String) (columnName : ℕ → String) (types : List τ) :
    (derivedTable ident columnName types).columns.map Column.type = types := by
  simp only [derivedTable, List.mapIdx_eq_zipIdx_map, List.map_map]
  exact List.zipIdx_map_fst 0 types

theorem TableRule.wellTyped {σ : Schema τ} {c : Ctx τ} {r : Request τ} {p : Production τ}
    {calls : List (Call τ)} {ps : List (Production τ)} (h : TableRule σ c r p calls ps)
    (hps : Answered σ calls ps) : p.WellTyped σ ps := by
  cases h with
  | tableSubquery _ _ => exact congrArg (fun a => [a]) (derivedTable_types _ _ _).symm
  | simpleJoinCond _ _ _ _ htype => exact htype
  | exprJoinCond _ =>
    cases hps with
    | cons hp _ => exact congrArg (fun a => [a]) hp
  | _ => trivial

variable [DecidableEq τ]

theorem QueryRule.answers {σ : Schema τ} {c : Ctx τ} {r : Request τ} {p : Production τ}
    {calls : List (Call τ)} {ps : List (Production τ)} (h : QueryRule σ c r p calls ps)
    (hps : Answered σ calls ps) : Answers σ r p := by
  cases h with
  | querySpec =>
    cases hps with
    | cons _ hps => exact (Answered.pair hps).2
  | windowedQuery =>
    cases hps with
    | cons _ hps =>
      cases hps with
      | cons _ hps => exact (Answered.pair hps).1
  | groupedQuery _ _ => exact nofun
  | groupingSetsQuery _ => exact nofun
  | unionedQuery => exact (Answered.pair hps).1
  | selectAll _ => exact nofun
  | selectAny _ _ => exact nofun
  | selectPointed hcols =>
    rintro _ ⟨⟩
    refine Answered.columns_eq hps ?_ hcols
    exact List.forall₂_map_right_iff.2 (List.forall₂_same.2 fun t _ p hp => selected_answers hp)
  | windowedAny _ _ => exact nofun
  | windowedPointed hcols hcalls =>
    rintro _ ⟨⟩
    refine Answered.columns_eq hps (hcalls.imp fun t call hcall p hp => ?_) hcols
    rcases hcall with rfl | rfl
    · exact selected_answers hp
    · exact hp
  | groupedList _ => trivial
  | aggregateList _ => trivial
  | groupClause => trivial
  | groupingSets _ _ _ => trivial
  | namedWindow _ _ _ => trivial
  | windowFrame => trivial

theorem QueryRule.wellTyped {σ : Schema τ} {c : Ctx τ} {r : Request τ} {p : Production τ}
    {calls : List (Call τ)} {ps : List (Production τ)} (h : QueryRule σ c r p calls ps)
    (hps : Answered σ calls ps) : p.WellTyped σ ps := by
  cases h with
  | querySpec =>
    cases hps with
    | cons _ hps => exact ⟨(Answered.pair hps).1, rfl⟩
  | windowedQuery =>
    cases hps with
    | cons _ hps =>
      cases hps with
      | cons hsearch _ => exact ⟨hsearch, rfl⟩
  | groupedQuery _ _ =>
    cases hps with
    | cons _ hps =>
      cases hps with
      | cons hsearch _ => exact ⟨hsearch, rfl⟩
  | groupingSetsQuery _ =>
    cases hps with
    | cons _ hps =>
      cases hps with
      | cons hsearch _ => exact ⟨hsearch, rfl⟩
  | unionedQuery => exact congrArg (fun a => [_, a]) ((Answered.pair hps).2 _ rfl)
  | selectAll hcols => exact hcols
  | selectAny _ hcols => exact hcols
  | selectPointed hcols => exact hcols
  | windowedAny hcols _ => exact hcols
  | windowedPointed hcols _ => exact hcols
  | groupedList hcols => exact hcols
  | aggregateList hcols => exact hcols
  | groupClause =>
    cases hps with
    | cons hp _ => exact congrArg (fun a => [a]) hp
  | groupingSets _ _ _ => trivial
  | namedWindow _ _ _ => trivial
  | windowFrame => trivial

/-! The trees. -/

theorem Rule.wellTyped {σ : Schema τ} {r : Call τ} {a : Labelled τ} {calls : List (Call τ)}
    {ls : List (Labelled τ)} (h : Rule σ r a calls ls)
    (hls : List.Forall₂ (fun call l => Answers σ call.2 l.prod) calls ls) :
    Answers σ r.2 a.prod ∧ a.prod.WellTyped σ (ls.map Labelled.prod) := by
  have hps : Answered σ calls (ls.map Labelled.prod) := List.forall₂_map_right_iff.2 hls
  cases h with
  | bool h => exact ⟨h.type_eq, h.wellTyped hps⟩
  | boolValue hmeets h => exact ⟨⟨_, h.type_eq, hmeets⟩, h.wellTyped hps⟩
  | value _ _ h => exact ⟨h.ofType hps, h.wellTyped hps⟩
  | @column c t preferRefs rel col hpicks =>
    refine ⟨⟨_, rfl, ?_⟩, trivial⟩
    cases t with
    | none => exact nofun
    | some v => exact fun w hw => by rw [← hpicks.2.2, Option.mem_some.1 hw]
  | columnOf => exact ⟨rfl, trivial⟩
  | const => exact ⟨rfl, trivial⟩
  | winFuncall _ hmeets _ =>
    have htype := meets_getD hmeets
    exact ⟨⟨_, rfl, htype.symm ▸ hmeets⟩, htype, Answered.valuesOf hps⟩
  | winFuncUsingExistWin hl =>
    cases hls with
    | cons hp hls =>
      have hu := OfType.type_eq hp
      rw [hl, Option.some.injEq] at hu
      refine ⟨congrArg some hu, ?_⟩
      cases hls
      exact congrArg (fun a => [a]) hl
  | aggregateCall _ _ => exact ⟨⟨_, rfl⟩, rfl, Answered.valuesOf hps⟩
  | query h => exact ⟨h.answers hps, h.wellTyped hps⟩
  | table h => exact ⟨h.answers, h.wellTyped hps⟩

/-- Whatever is drawn, a value has the type it was asked for, a query has the columns it was asked
for, and every operand in the tree has the type its operator, function or clause takes. -/
theorem generates_wellTyped {σ : Schema τ} {r : Call τ} {t : LabelTree (Labelled τ)}
    (h : Generates σ r t) :
    Answers σ r.2 t.label.prod ∧
      t.Everywhere fun a ls => a.prod.WellTyped σ (ls.map Labelled.prod) :=
  h.everywhere fun _ _ _ _ hr hls => hr.wellTyped hls

theorem selectAllFrom_wellTyped :
    selectAllFrom.Everywhere fun a ls => a.prod.WellTyped oneTable (ls.map Labelled.prod) :=
  (generates_wellTyped generates_selectAllFrom).2

end DbFuzz.Generator
