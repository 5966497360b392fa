import DbFuzz.Grammar.Generator

/-! Names in what the generator builds: every column belongs to a reference that is visible where
it stands. -/

namespace DbFuzz.Generator

variable {τ : Type}

/-- The references that an operand sees: those of the enclosing query and, past the from clause,
its own. A subquery of ClickHouse starts without any, a join condition has those of the two sides
only, and a having clause those of its group. -/
def Production.visible (σ : Schema τ) (s : List (NamedRelation τ)) :
    Production τ → List (Production τ) → ℕ → List (NamedRelation τ)
  | querySpec _, _, 0 => s
  | querySpec _, ps, _ + 1 => s ++ (ps.head?.map refs).getD []
  | inQuery, _, 0 | compSubquery, _, 0 => s
  | inQuery, _, _ + 1 | compSubquery, _, _ + 1 | existsPredicate, _, _ =>
    if σ.targetDbms = .clickhouse then [] else s
  | joinedTable _, _, 0 | joinedTable _, _, 1 => s
  | joinedTable _, ps, _ + 2 => (ps.take 2).flatMap refs
  | groupClause _ having, _, _ => having
  | _, _, _ => s

/-- A relation of a having clause: a reference of an enclosing query, or one of the from clause
whose columns are the column of the group or can only be used in an aggregate. -/
def InHaving (σ : Schema τ) (s fromRefs : List (NamedRelation τ))
    (target : NamedRelation τ × Column τ) (rel : NamedRelation τ) : Prop :=
  (rel ∈ s ∧ rel ∉ fromRefs) ∨
    ∃ r ∈ fromRefs, rel.ident = r.ident ∧ ∀ col ∈ rel.columns, ∃ base ∈ r.columns,
      col = base ∧ r.ident ++ "." ++ col.name = target.1.ident ++ "." ++ target.2.name ∨
        ∃ agg ∈ σ.aggregates, agg.argtypes = [base.type] ∧
          col = ⟨base.name, agg.restype, some agg⟩

/-- What a production may name. -/
def Production.Scoped (σ : Schema τ) (s : List (NamedRelation τ)) :
    Production τ → List (Production τ) → Prop
  | columnReference rel col, _ | columnByName rel col, _ => rel ∈ s ∧ col ∈ rel.columns
  | simpleJoinCond l r, _ => (l.1 ∈ s ∧ l.2 ∈ l.1.columns) ∧ r.1 ∈ s ∧ r.2 ∈ r.1.columns
  | fromClause rs, ps => ps.flatMap refs = rs
  | joinedTable rs, ps => (ps.take 2).flatMap refs = rs
  | tableOrQueryName ref, _ => ∃ t ∈ σ.scopeTables, ref.columns = t.columns
  | groupClause fromRefs having, _ => fromRefs ⊆ s ∧ ∃ target : NamedRelation τ × Column τ,
      target.1 ∈ fromRefs ∧ target.2 ∈ target.1.columns ∧
        ∀ rel ∈ having, InHaving σ s fromRefs target rel
  | _, _ => True

/-- The references that a request names are visible. -/
def Request.Within (s : List (NamedRelation τ)) : Request τ → Prop
  | .value _ preferRefs | .column _ preferRefs => ∀ rs ∈ preferRefs, rs ⊆ s
  | .columnOf rel col => rel ∈ s ∧ col ∈ rel.columns
  | .joinCond lhs rhs => lhs ⊆ s ∧ rhs ⊆ s
  | .selectList rs _ _ | .windowedList rs _ | .groupingSets rs => rs ⊆ s
  | .groupedList rs target | .groupClause rs target =>
    rs ⊆ s ∧ target.1 ∈ rs ∧ target.2 ∈ target.1.columns
  | _ => True

/-- A join condition is made where no reference of its own is in the scope yet. -/
def InScope (s : List (NamedRelation τ)) (call : Call τ) : Prop :=
  (call.1.refs ⊆ s ∨ ∃ lhs rhs, call.2 = .joinCond lhs rhs) ∧ call.2.Within s

def CallsInScope (f : ℕ → List (NamedRelation τ)) (calls : List (Call τ)) : Prop :=
  ∀ (i : ℕ) q, calls[i]? = some q → InScope (f i) q

namespace CallsInScope

theorem nil {f : ℕ → List (NamedRelation τ)} : CallsInScope f [] := nofun

theorem cons {f : ℕ → List (NamedRelation τ)} {call : Call τ} {calls : List (Call τ)}
    (h : InScope (f 0) call) (hcalls : CallsInScope (fun i => f (i + 1)) calls) :
    CallsInScope f (call :: calls) := by
  intro i q hq
  cases i with
  | zero =>
    cases hq
    exact h
  | succ i => exact hcalls i q hq

theorem of_mem {f : ℕ → List (NamedRelation τ)} {s : List (NamedRelation τ)}
    {calls : List (Call τ)} (hf : ∀ i, f i = s) (h : ∀ q ∈ calls, InScope s q) :
    CallsInScope f calls := by
  intro i q hq
  rw [hf i]
  exact h q (List.mem_of_getElem? hq)

end CallsInScope

section
variable {s : List (NamedRelation τ)} {c : Ctx τ}

theorem inScope_value (hs : c.refs ⊆ s) (t : Option τ) : InScope s (c, .value t none) :=
  ⟨.inl hs, nofun⟩

theorem inScope_column (hs : c.refs ⊆ s) (t : Option τ) : InScope s (c, .column t none) :=
  ⟨.inl hs, nofun⟩

theorem inScope_plain (hs : c.refs ⊆ s) {r : Request τ} (hr : ∀ s, r.Within s) :
    InScope s (c, r) := ⟨.inl hs, hr s⟩

theorem inScope_valuesOf (hs : c.refs ⊆ s) (types : List τ) :
    ∀ q ∈ valuesOf c types, InScope s q := by
  intro q hq
  obtain ⟨t, _, rfl⟩ := List.mem_map.1 hq
  exact inScope_value hs (some t)

theorem inScope_allColumns (hs : c.refs ⊆ s) {rs : List (NamedRelation τ)} (hrs : rs ⊆ s) :
    ∀ q ∈ (Ctx.allColumns rs).map (Prod.mk c), InScope s q := by
  intro q hq
  obtain ⟨r, hr, rfl⟩ := List.mem_map.1 hq
  obtain ⟨rel, hrel, hr⟩ := List.mem_flatMap.1 hr
  obtain ⟨col, hcol, rfl⟩ := List.mem_map.1 hr
  exact ⟨.inl hs, hrs hrel, hcol⟩

theorem inScope_selected {σ : Schema τ} (hs : c.refs ⊆ s) {rs : List (NamedRelation τ)}
    (hrs : rs ⊆ s) (t : Option τ) : InScope s (selected σ c rs t) := by
  refine ⟨.inl hs, ?_⟩
  have hprefer : ∀ rs' ∈ some rs, rs' ⊆ s := fun rs' h => Option.mem_some.1 h ▸ hrs
  unfold selected
  split
  · exact hprefer
  · exact hprefer

/-- The expressions of a list that uses a window of the query. -/
theorem inScope_windowed {σ : Schema τ} (hs : c.refs ⊆ s) {rs : List (NamedRelation τ)}
    (hrs : rs ⊆ s) {types : List τ} {calls : List (Call τ)}
    (h : List.Forall₂ (fun _ call => (∃ t, call = selected σ c rs t) ∨
      ∃ u, call = (c, .winFuncUsingExistWin u)) types calls) : ∀ q ∈ calls, InScope s q := by
  induction h with
  | nil => exact nofun
  | cons hcall _ ih =>
    refine List.forall_mem_cons.2 ⟨?_, ih⟩
    rcases hcall with ⟨t, rfl⟩ | ⟨u, rfl⟩
    · exact inScope_selected hs hrs t
    · exact inScope_plain hs fun _ => trivial

/-- A subquery of an expression sees what `forSubquery` leaves. -/
theorem forSubquery_refs {σ : Schema τ} (hs : c.refs ⊆ s) :
    (c.forSubquery σ).refs ⊆ if σ.targetDbms = .clickhouse then [] else s := by
  unfold Ctx.forSubquery
  split
  · exact List.Subset.refl _
  · exact hs

end

/-! One lemma for each kind of rule. -/

theorem BoolRule.scoped {σ : Schema τ} {c : Ctx τ} {p : Production τ} {calls : List (Call τ)}
    {ps : List (Production τ)} {s : List (NamedRelation τ)} (h : BoolRule σ c p calls ps)
    (hs : c.refs ⊆ s) : p.Scoped σ s ps ∧ CallsInScope (p.visible σ s ps) calls := by
  have hbelow : c.below.refs ⊆ s := hs
  cases h with
  | constBool => exact ⟨trivial, .nil⟩
  | comparisonOp _ _ _ _ =>
    exact ⟨trivial, .cons (inScope_value hs _) (.cons (inScope_value hs _) .nil)⟩
  | boolTerm _ =>
    have hb : InScope s (c.below, .bool) := inScope_plain hs fun _ => trivial
    exact ⟨trivial, .cons hb (.cons hb .nil)⟩
  | notExpr _ => exact ⟨trivial, .cons (inScope_plain hs fun _ => trivial) .nil⟩
  | nullPredicate _ => exact ⟨trivial, .cons (inScope_value hs _) .nil⟩
  | betweenOp _ => exact ⟨trivial, .of_mem (fun _ => rfl) (inScope_valuesOf hbelow _)⟩
  | likeOp _ => exact ⟨trivial, .of_mem (fun _ => rfl) (inScope_valuesOf hbelow _)⟩
  | regexpExpr _ _ => exact ⟨trivial, .of_mem (fun _ => rfl) (inScope_valuesOf hbelow _)⟩
  | inQuery union _ _ =>
    refine ⟨trivial, .cons (inScope_value hs _) (.cons ?_ .nil)⟩
    apply inScope_plain (forSubquery_refs hs)
    cases union <;> exact fun _ => trivial
  | compSubquery _ _ =>
    refine ⟨trivial, .cons (inScope_value hs _) (.cons ?_ .nil)⟩
    exact inScope_plain (forSubquery_refs hs) fun _ => trivial
  | existsPredicate union _ _ =>
    refine ⟨trivial, .cons ?_ .nil⟩
    apply inScope_plain (forSubquery_refs hs)
    cases union <;> exact fun _ => trivial
  | quantifiedComparison _ _ hlhs _ =>
    refine ⟨trivial, .cons ?_ (.cons (inScope_plain hs fun _ => trivial) .nil)⟩
    rcases hlhs with ⟨rel, hrel, col, hcol, _, rfl⟩ | ⟨_, ⟨_, rfl⟩ | ⟨_, rfl⟩⟩
    · exact ⟨.inl hs, hs hrel, hcol⟩
    · exact inScope_column hs none
    · exact inScope_plain hs fun _ => trivial

theorem Picks.visible {c : Ctx τ} {t : Option τ} {preferRefs : Option (List (NamedRelation τ))}
    {rel : NamedRelation τ} {col : Column τ} {s : List (NamedRelation τ)}
    (h : Picks c t preferRefs rel col) (hs : c.refs ⊆ s) (hprefer : ∀ rs ∈ preferRefs, rs ⊆ s) :
    rel ∈ s ∧ col ∈ rel.columns := by
  refine ⟨?_, h.1⟩
  cases t with
  | some t => exact hs h.2.1
  | none =>
    cases preferRefs with
    | none => exact hs h.2
    | some rs => exact hprefer rs rfl h.2

theorem ValueRule.scoped {σ : Schema τ} {c : Ctx τ} {t : Option τ}
    {preferRefs : Option (List (NamedRelation τ))} {p : Production τ} {calls : List (Call τ)}
    {ps : List (Production τ)} {s : List (NamedRelation τ)}
    (h : ValueRule σ c t preferRefs p calls ps) (hs : c.refs ⊆ s)
    (hprefer : ∀ rs ∈ preferRefs, rs ⊆ s) :
    p.Scoped σ s ps ∧ CallsInScope (p.visible σ s ps) calls := by
  have hbelow : c.below.refs ⊆ s := hs
  have hinside : c.inside.refs ⊆ s := hs
  cases h with
  | windowFunction _ _ _ hframe =>
    refine ⟨trivial, .cons (inScope_plain hs fun _ => trivial) (.of_mem (fun _ => rfl) ?_)⟩
    intro q hq
    rcases List.mem_append.1 hq with hq | hq
    · rcases List.mem_append.1 hq with hq | hq
      · rw [List.eq_of_mem_replicate hq]
        exact inScope_column hs none
      · exact inScope_allColumns hinside hs q hq
    · rcases hframe with rfl | ⟨_, rfl⟩
      · cases hq
      · rw [List.mem_singleton.1 hq]
        exact inScope_plain hs fun _ => trivial
  | coalesce _ _ _ _ =>
    exact ⟨trivial, .cons (inScope_value hs _) (.cons (inScope_value hs _) .nil)⟩
  | funcall _ _ _ _ => exact ⟨trivial, .of_mem (fun _ => rfl) (inScope_valuesOf hbelow _)⟩
  | caseExpr _ _ =>
    exact ⟨trivial, .cons (inScope_plain hs fun _ => trivial)
      (.cons (inScope_value hs _) (.cons (inScope_value hs _) .nil))⟩
  | binopExpr _ _ _ _ =>
    exact ⟨trivial, .cons (inScope_value hs _) (.cons (inScope_value hs _) .nil)⟩
  | jsonExtractOp _ _ _ hlhs =>
    refine ⟨trivial, .cons ?_ .nil⟩
    rcases hlhs with ⟨_, rfl⟩ | ⟨_, rfl⟩
    · exact inScope_column hs none
    · exact inScope_plain hs fun _ => trivial
  | arrayConstructor _ _ _ _ _ => exact ⟨trivial, .of_mem (fun _ => rfl) (inScope_valuesOf hbelow _)⟩
  | castExpr _ _ _ _ => exact ⟨trivial, .cons (inScope_value hs _) .nil⟩
  | intervalExpr _ _ _ => exact ⟨trivial, .of_mem (fun _ => rfl) (inScope_valuesOf hbelow _)⟩
  | mysqlJsonOp _ _ _ => exact ⟨trivial, .of_mem (fun _ => rfl) (inScope_valuesOf hbelow _)⟩
  | aggregateSubselect => exact ⟨trivial, .nil⟩
  | typedSubselect => exact ⟨trivial, .nil⟩
  | anySubselect => exact ⟨trivial, .nil⟩
  | columnReference _ hpicks => exact ⟨hpicks.visible hs hprefer, .nil⟩
  | constExpr => exact ⟨trivial, .nil⟩

/-- The calls below a query: the from clause sees the enclosing references, the rest those of the
query too. -/
theorem querySpec_inScope {σ : Schema τ} {c : Ctx τ} {s refs : List (NamedRelation τ)}
    {cols : List τ} {ps : List (Production τ)} {onlyBaseTable : Bool} {calls : List (Call τ)}
    (hs : c.refs ⊆ s)
    (h : ∀ s', (c.queryScope refs).refs ⊆ s' → refs ⊆ s' → ∀ q ∈ calls, InScope s' q) :
    CallsInScope ((Production.querySpec cols).visible σ s (.fromClause refs :: ps))
      ((c.inside, .fromClause onlyBaseTable) :: calls) := by
  refine .cons (inScope_plain hs fun _ => trivial) ?_
  have hrefs : (c.queryScope refs).refs ⊆ s ++ refs := by
    intro rel hrel
    rcases List.mem_append.1 hrel with hrel | hrel
    · exact List.mem_append_left _ (hs hrel)
    · exact List.mem_append_right _ hrel
  exact .of_mem (fun _ => rfl) (h _ hrefs (List.subset_append_right _ _))

theorem TableRule.scoped {σ : Schema τ} {c : Ctx τ} {r : Request τ} {p : Production τ}
    {calls : List (Call τ)} {ps : List (Production τ)} {s : List (NamedRelation τ)}
    (h : TableRule σ c r p calls ps) (hs : InScope s (c, r)) :
    p.Scoped σ s ps ∧ CallsInScope (p.visible σ s ps) calls := by
  obtain ⟨hrefs, hwithin⟩ := hs
  have hinside : (∀ lhs rhs, r ≠ .joinCond lhs rhs) → c.inside.refs ⊆ s := by
    intro hr
    rcases hrefs with hrefs | ⟨lhs, rhs, h⟩
    · exact hrefs
    · exact absurd h (hr lhs rhs)
  cases h with
  | fromClause =>
    refine ⟨List.append_nil _, .cons ?_ .nil⟩
    apply inScope_plain (hinside nofun)
    intro s'
    split <;> trivial
  | tableSubquery _ _ =>
    exact ⟨trivial, .cons (inScope_plain (hinside nofun) fun _ => trivial) .nil⟩
  | @joinedTable l r' cond calls _ hcalls =>
    refine ⟨?_, .cons ?_ (.cons ?_ ?_)⟩
    · simp only [Production.Scoped, List.take_succ_cons, List.take_zero, List.flatMap_cons,
        List.flatMap_nil, List.append_nil]
    · exact inScope_plain (hinside nofun) fun _ => trivial
    · exact inScope_plain (hinside nofun) fun _ => trivial
    · rcases hcalls with rfl | rfl
      · exact .nil
      · refine .cons ⟨.inr ⟨_, _, rfl⟩, ?_, ?_⟩ .nil
        · exact List.subset_append_left _ _
        · exact List.Subset.trans (List.subset_append_left _ []) (List.subset_append_right l.refs _)
  | jsonTableRef _ _ _ _ => exact ⟨trivial, .nil⟩
  | tableOrQueryName ht => exact ⟨⟨_, ht, rfl⟩, .nil⟩
  | baseTable ht _ => exact ⟨⟨_, ht, rfl⟩, .nil⟩
  | simpleJoinCond hl hlcol hr hrcol _ =>
    exact ⟨⟨⟨hwithin.1 hl, hlcol⟩, hwithin.2 hr, hrcol⟩, .nil⟩
  | exprJoinCond _ =>
    refine ⟨trivial, .cons (inScope_plain ?_ fun _ => trivial) .nil⟩
    exact List.append_subset.2 hwithin

variable [DecidableEq τ]

theorem mem_groupedRelation {σ : Schema τ} {target : NamedRelation τ × Column τ}
    {rel : NamedRelation τ} {col : Column τ} (h : col ∈ (groupedRelation σ target rel).columns) :
    ∃ base ∈ rel.columns,
      col = base ∧ rel.ident ++ "." ++ col.name = target.1.ident ++ "." ++ target.2.name ∨
        ∃ agg ∈ σ.aggregates, agg.argtypes = [base.type] ∧
          col = ⟨base.name, agg.restype, some agg⟩ := by
  obtain ⟨base, hbase, hcol⟩ := List.mem_flatMap.1 h
  refine ⟨base, hbase, ?_⟩
  split at hcol
  next hname =>
    rw [List.mem_singleton.1 hcol]
    exact .inl ⟨rfl, hname⟩
  next =>
    obtain ⟨agg, hagg, rfl⟩ := List.mem_map.1 hcol
    obtain ⟨hmem, hargs⟩ := List.mem_filter.1 hagg
    exact .inr ⟨agg, hmem, of_decide_eq_true hargs, rfl⟩

theorem inHaving_of_mem {σ : Schema τ} {scope fromRefs s : List (NamedRelation τ)}
    {target : NamedRelation τ × Column τ} (hs : scope ⊆ s) :
    ∀ rel ∈ havingRefs σ scope fromRefs target, InHaving σ s fromRefs target rel := by
  intro rel hrel
  rcases List.mem_append.1 hrel with hrel | hrel
  · obtain ⟨hscope, hnot⟩ := List.mem_filter.1 hrel
    exact .inl ⟨hs hscope, of_decide_eq_true hnot⟩
  · obtain ⟨r, hr, rfl⟩ := List.mem_map.1 hrel
    exact .inr ⟨r, hr, rfl, fun _ => mem_groupedRelation⟩

theorem QueryRule.scoped {σ : Schema τ} {c : Ctx τ} {r : Request τ} {p : Production τ}
    {calls : List (Call τ)} {ps : List (Production τ)} {s : List (NamedRelation τ)}
    (h : QueryRule σ c r p calls ps) (hs : InScope s (c, r)) :
    p.Scoped σ s ps ∧ CallsInScope (p.visible σ s ps) calls := by
  obtain ⟨hrefs, hwithin⟩ := hs
  replace hrefs : c.refs ⊆ s := by
    rcases hrefs with hrefs | ⟨lhs, rhs, hr⟩
    · exact hrefs
    · cases h <;> cases hr
  have hinside : c.inside.refs ⊆ s := hrefs
  cases h with
  | querySpec =>
    refine ⟨trivial, querySpec_inScope hrefs fun s' hs' hfrom => ?_⟩
    refine List.forall_mem_cons.2 ⟨inScope_plain hs' fun _ => trivial, ?_⟩
    exact List.forall_mem_singleton.2 ⟨.inl hs', hfrom⟩
  | windowedQuery =>
    refine ⟨trivial, querySpec_inScope hrefs fun s' hs' hfrom => ?_⟩
    refine List.forall_mem_cons.2 ⟨inScope_plain hs' fun _ => trivial, ?_⟩
    refine List.forall_mem_cons.2 ⟨⟨.inl hs', hfrom⟩, ?_⟩
    exact List.forall_mem_singleton.2 (inScope_plain hs' fun _ => trivial)
  | groupedQuery hrel hcol =>
    refine ⟨trivial, querySpec_inScope hrefs fun s' hs' hfrom => ?_⟩
    refine List.forall_mem_cons.2 ⟨inScope_plain hs' fun _ => trivial, ?_⟩
    refine List.forall_mem_cons.2 ⟨⟨.inl hs', hfrom, hrel, hcol⟩, ?_⟩
    exact List.forall_mem_singleton.2 ⟨.inl hs', hfrom, hrel, hcol⟩
  | groupingSetsQuery _ =>
    refine ⟨trivial, querySpec_inScope hrefs fun s' hs' hfrom => ?_⟩
    refine List.forall_mem_cons.2 ⟨inScope_plain hs' fun _ => trivial, ?_⟩
    refine List.forall_mem_cons.2 ⟨inScope_plain hs' fun _ => trivial, ?_⟩
    exact List.forall_mem_singleton.2 ⟨.inl hs', hfrom⟩
  | unionedQuery =>
    have hq : ∀ types, InScope s (c.inside, .query types false) := fun _ =>
      inScope_plain hinside fun _ => trivial
    exact ⟨trivial, .cons (hq _) (.cons (hq _) .nil)⟩
  | selectAll _ => exact ⟨trivial, .of_mem (fun _ => rfl) (inScope_allColumns hinside hwithin)⟩
  | selectAny _ _ =>
    refine ⟨trivial, .of_mem (fun _ => rfl) fun q hq => ?_⟩
    obtain ⟨_, _, rfl⟩ := List.mem_map.1 hq
    exact inScope_selected hrefs hwithin none
  | selectPointed _ =>
    refine ⟨trivial, .of_mem (fun _ => rfl) fun q hq => ?_⟩
    obtain ⟨t, _, rfl⟩ := List.mem_map.1 hq
    exact inScope_selected hrefs hwithin (some t)
  | windowedAny _ hcalls =>
    exact ⟨trivial, .of_mem (fun _ => rfl) (inScope_windowed (σ := σ) hrefs hwithin
      (hcalls.imp fun _ _ h => h.imp_left fun h => ⟨none, h⟩))⟩
  | windowedPointed _ hcalls =>
    exact ⟨trivial, .of_mem (fun _ => rfl) (inScope_windowed (σ := σ) hrefs hwithin
      (hcalls.imp fun t _ h => h.imp (fun h => ⟨some t, h⟩) fun h => ⟨t, h⟩))⟩
  | groupedList _ =>
    obtain ⟨hfrom, hrel, hcol⟩ := hwithin
    refine ⟨trivial, .of_mem (fun _ => rfl) (List.forall_mem_cons.2 ⟨?_, fun q hq => ?_⟩)⟩
    · exact ⟨.inl hinside, hfrom hrel, hcol⟩
    · rw [List.eq_of_mem_replicate hq]
      exact inScope_plain hfrom fun _ => trivial
  | aggregateList _ =>
    refine ⟨trivial, .of_mem (fun _ => rfl) fun q hq => ?_⟩
    rw [List.eq_of_mem_replicate hq]
    exact inScope_plain hinside fun _ => trivial
  | groupClause =>
    obtain ⟨hfrom, hrel, hcol⟩ := hwithin
    refine ⟨⟨hfrom, _, hrel, hcol, inHaving_of_mem hrefs⟩, .cons ?_ .nil⟩
    exact inScope_plain (List.Subset.refl _) fun _ => trivial
  | groupingSets _ _ _ =>
    refine ⟨trivial, .of_mem (fun _ => rfl) fun q hq => ?_⟩
    rcases List.mem_append.1 hq with hq | hq
    · obtain ⟨r, hr, rfl⟩ := List.mem_map.1 hq
      exact inScope_allColumns hinside hwithin _ (List.mem_map_of_mem (List.mem_of_mem_take hr))
    · rw [List.mem_singleton.1 hq]
      exact inScope_plain hinside fun _ => trivial
  | namedWindow _ _ hframe =>
    refine ⟨trivial, .of_mem (fun _ => rfl) fun q hq => ?_⟩
    rcases List.mem_append.1 hq with hq | hq
    · rcases List.mem_append.1 hq with hq | hq
      · rw [List.eq_of_mem_replicate hq]
        refine ⟨.inl hinside, ?_⟩
        dsimp only
        split
        · exact nofun
        · exact nofun
      · exact inScope_allColumns hinside hrefs q hq
    · rcases hframe with rfl | ⟨_, rfl⟩
      · cases hq
      · rw [List.mem_singleton.1 hq]
        exact inScope_plain hinside fun _ => trivial
  | windowFrame => exact ⟨trivial, .nil⟩

/-! The trees. -/

theorem Rule.scoped {σ : Schema τ} {r : Call τ} {a : Labelled τ} {calls : List (Call τ)}
    {ls : List (Labelled τ)} {s : List (NamedRelation τ)} (h : Rule σ r a calls ls)
    (hs : InScope s r) :
    a.prod.Scoped σ s (ls.map Labelled.prod) ∧
      CallsInScope (a.prod.visible σ s (ls.map Labelled.prod)) calls := by
  have hrefs : (∀ lhs rhs, r.2 ≠ .joinCond lhs rhs) → r.1.refs ⊆ s := by
    intro hr
    rcases hs.1 with hs | ⟨lhs, rhs, h⟩
    · exact hs
    · exact absurd h (hr lhs rhs)
  cases h with
  | bool h => exact h.scoped (hrefs nofun)
  | boolValue _ h => exact h.scoped (hrefs nofun)
  | value _ hused h =>
    refine h.scoped (hrefs nofun) ?_
    rcases hused with rfl | rfl
    · exact hs.2
    · exact nofun
  | column hpicks => exact ⟨hpicks.visible (hrefs nofun) hs.2, .nil⟩
  | columnOf => exact ⟨hs.2, .nil⟩
  | const => exact ⟨trivial, .nil⟩
  | @winFuncall c _ _ _ _ _ _ =>
    have hbelow : c.below.refs ⊆ s := hrefs nofun
    exact ⟨trivial, .of_mem (fun _ => rfl) (inScope_valuesOf hbelow _)⟩
  | @winFuncUsingExistWin c _ _ _ _ =>
    have hinside : c.inside.refs ⊆ s := hrefs nofun
    exact ⟨trivial, .cons (inScope_plain hinside fun _ => trivial) .nil⟩
  | @aggregateCall c _ _ _ _ =>
    have hbelow : c.below.refs ⊆ s := hrefs nofun
    exact ⟨trivial, .of_mem (fun _ => rfl) (inScope_valuesOf hbelow _)⟩
  | query h => exact h.scoped hs
  | table h => exact h.scoped hs

/-- Whatever is drawn, every column in the tree belongs to a reference that is visible at its
place, and so do both sides of every join condition; a having clause has the group's column and
columns in aggregates only. -/
theorem generates_scoped {σ : Schema τ} {r : Call τ} {t : LabelTree (Labelled τ)}
    {s : List (NamedRelation τ)} (h : Generates σ r t) (hs : InScope s r) :
    LabelTree.Licensed
      (fun s a ls i => a.prod.visible σ s (ls.map Labelled.prod) i)
      (fun s a ls => a.prod.Scoped σ s (ls.map Labelled.prod)) s t :=
  h.licensed (F := fun _ _ => True) (P := fun r s => InScope s r)
    (fun _ _ _ _ _ _ => trivial) (fun _ _ _ _ _ hr _ hs => hr.scoped hs) hs

theorem selectAllFrom_scoped :
    LabelTree.Licensed
      (fun s a ls i => a.prod.visible oneTable s (ls.map Labelled.prod) i)
      (fun s a ls => a.prod.Scoped oneTable s (ls.map Labelled.prod)) [] selectAllFrom :=
  generates_scoped generates_selectAllFrom ⟨.inl (List.Subset.refl _), trivial⟩

end DbFuzz.Generator
