import DbFuzz.Grammar.Generator

/-! Levels in what the generator builds. They grow from a production to its parts and stop at 26;
only a `not_expr`, whose operand is made for the parent, adds depth and no level. -/

namespace DbFuzz.Generator

variable {τ : Type}

/-- The highest level of a parent that is ever asked for a part. -/
def Request.cap : Request τ → ℕ
  | .unioned _ => 21
  | .query _ _ => 22
  | .fromClause _ | .selectList _ _ _ | .windowedList _ _ | .groupedList _ _ | .aggregateList
  | .groupClause _ _ | .groupingSets _ | .namedWindow | .winFuncUsingExistWin _ => 23
  | .tableRef _ | .baseTable | .joinCond _ _ | .winFuncall _ | .aggregateCall => 24
  | _ => 25

theorem Request.cap_le (r : Request τ) : 20 ≤ r.cap ∧ r.cap ≤ 25 := by
  cases r <;> exact ⟨Nat.le_of_ble_eq_true rfl, Nat.le_of_ble_eq_true rfl⟩

/-- One level more than the parent, or the same level for the operand of a `not_expr` and for a
call that replaced an expression of the list. -/
def NextLevel (a l : Labelled τ) : Prop :=
  l.level = a.level + 1 ∨
    l.level = a.level ∧ (a.prod = .notExpr ∨ ∃ u, l.prod = .winFuncUsingExistWin u)

/-- What a rule may ask for: parts one level down, and within their cap. -/
def Steps (c : Ctx τ) (p : Production τ) (call : Call τ) : Prop :=
  call.1.level ≤ call.2.cap ∧
    (call.1.level = c.level + 1 ∨
      call.1.level = c.level ∧ (p = .notExpr ∨ ∃ u, call.2 = .winFuncUsingExistWin u))

section
variable {c : Ctx τ} {p : Production τ}

theorem steps_below {r : Request τ} (h : c.level + 1 ≤ r.cap) : Steps c p (c.below, r) :=
  ⟨h, .inl rfl⟩

theorem steps_inside {r : Request τ} (h : c.level + 1 ≤ r.cap) : Steps c p (c.inside, r) :=
  ⟨h, .inl rfl⟩

theorem steps_valuesOf (h : c.level + 1 ≤ 25) (types : List τ) :
    ∀ q ∈ valuesOf c.below types, Steps c p q := by
  intro q hq
  obtain ⟨t, _, rfl⟩ := List.mem_map.1 hq
  exact steps_below h

theorem steps_allColumns (h : c.level + 1 ≤ 25) (rs : List (NamedRelation τ)) :
    ∀ q ∈ (Ctx.allColumns rs).map (Prod.mk c.inside), Steps c p q := by
  intro q hq
  obtain ⟨r, hr, rfl⟩ := List.mem_map.1 hq
  obtain ⟨rel, _, hr⟩ := List.mem_flatMap.1 hr
  obtain ⟨col, _, rfl⟩ := List.mem_map.1 hr
  exact steps_inside h

theorem steps_selected {σ : Schema τ} (h : c.level + 1 ≤ 25) (rs : List (NamedRelation τ))
    (t : Option τ) : Steps c p (selected σ c rs t) := by
  refine ⟨?_, .inl rfl⟩
  unfold selected
  split
  · exact h
  · exact h

theorem steps_windowed {σ : Schema τ} (h : c.level ≤ 23) {rs : List (NamedRelation τ)}
    {types : List τ} {calls : List (Call τ)}
    (hcalls : List.Forall₂ (fun _ call => (∃ t, call = selected σ c rs t) ∨
      ∃ u, call = (c, .winFuncUsingExistWin u)) types calls) : ∀ q ∈ calls, Steps c p q := by
  induction hcalls with
  | nil => exact nofun
  | cons hcall _ ih =>
    refine List.forall_mem_cons.2 ⟨?_, ih⟩
    rcases hcall with ⟨t, rfl⟩ | ⟨u, rfl⟩
    · exact steps_selected (by omega) rs t
    · exact ⟨h, .inr ⟨rfl, .inr ⟨u, rfl⟩⟩⟩

end

/-! One lemma for each kind of rule. -/

theorem BoolRule.steps {σ : Schema τ} {c : Ctx τ} {p : Production τ} {calls : List (Call τ)}
    {ps : List (Production τ)} (h : BoolRule σ c p calls ps) : ∀ q ∈ calls, Steps c p q := by
  have cap {r : Request τ} (hc : c.level ≤ 20) (hr : Nat.ble 21 r.cap = true) :
      c.level + 1 ≤ r.cap := (Nat.succ_le_succ hc).trans (Nat.le_of_ble_eq_true hr)
  cases h with
  | constBool => exact nofun
  | comparisonOp hc _ _ _ =>
    refine List.forall_mem_cons.2 ⟨steps_below (cap hc rfl), ?_⟩
    exact List.forall_mem_singleton.2 (steps_below (cap hc rfl))
  | boolTerm hc =>
    refine List.forall_mem_cons.2 ⟨steps_below (cap hc rfl), ?_⟩
    exact List.forall_mem_singleton.2 (steps_below (cap hc rfl))
  | notExpr hc =>
    refine List.forall_mem_singleton.2 ⟨?_, .inr ⟨rfl, .inl rfl⟩⟩
    exact hc.trans (Nat.le_of_ble_eq_true rfl)
  | nullPredicate hc => exact List.forall_mem_singleton.2 (steps_below (cap hc rfl))
  | betweenOp hc => exact steps_valuesOf (by omega) _
  | likeOp hc => exact steps_valuesOf (by omega) _
  | regexpExpr hc _ => exact steps_valuesOf (by omega) _
  | inQuery union hc _ =>
    refine List.forall_mem_cons.2 ⟨steps_below (cap hc rfl), ?_⟩
    refine List.forall_mem_singleton.2 ⟨?_, .inl rfl⟩
    apply cap hc
    cases union <;> rfl
  | compSubquery hc _ =>
    refine List.forall_mem_cons.2 ⟨steps_below (cap hc rfl), ?_⟩
    exact List.forall_mem_singleton.2 ⟨cap hc rfl, .inl rfl⟩
  | existsPredicate union hc _ =>
    refine List.forall_mem_singleton.2 ⟨?_, .inl rfl⟩
    apply cap hc
    cases union <;> rfl
  | quantifiedComparison hc _ hlhs _ =>
    refine List.forall_mem_cons.2 ⟨?_, ?_⟩
    · rcases hlhs with ⟨rel, _, col, _, _, rfl⟩ | ⟨_, ⟨_, rfl⟩ | ⟨_, rfl⟩⟩
      · exact steps_below (cap hc rfl)
      · exact steps_below (cap hc rfl)
      · exact steps_below (cap hc rfl)
    · exact List.forall_mem_singleton.2 (steps_inside (cap hc rfl))

theorem ValueRule.steps {σ : Schema τ} {c : Ctx τ} {t : Option τ}
    {preferRefs : Option (List (NamedRelation τ))} {p : Production τ} {calls : List (Call τ)}
    {ps : List (Production τ)} (h : ValueRule σ c t preferRefs p calls ps) :
    ∀ q ∈ calls, Steps c p q := by
  have cap {r : Request τ} (hc : c.level ≤ 5) (hr : Nat.ble 6 r.cap = true) :
      c.level + 1 ≤ r.cap := (Nat.succ_le_succ hc).trans (Nat.le_of_ble_eq_true hr)
  cases h with
  | windowFunction hc _ _ hframe =>
    refine List.forall_mem_cons.2 ⟨steps_inside (cap hc rfl), ?_⟩
    refine List.forall_mem_append.2 ⟨List.forall_mem_append.2 ⟨?_, ?_⟩, ?_⟩
    · intro q hq
      rw [List.eq_of_mem_replicate hq]
      exact steps_inside (cap hc rfl)
    · exact steps_allColumns (by omega) _
    · rcases hframe with rfl | ⟨_, rfl⟩
      · exact nofun
      · exact List.forall_mem_singleton.2 (steps_inside (cap hc rfl))
  | coalesce hc _ _ _ =>
    refine List.forall_mem_cons.2 ⟨steps_below (cap hc rfl), ?_⟩
    exact List.forall_mem_singleton.2 (steps_below (cap hc rfl))
  | funcall hc _ _ _ => exact steps_valuesOf (by omega) _
  | caseExpr hc _ =>
    refine List.forall_mem_cons.2 ⟨steps_below (cap hc rfl), ?_⟩
    refine List.forall_mem_cons.2 ⟨steps_below (cap hc rfl), ?_⟩
    exact List.forall_mem_singleton.2 (steps_below (cap hc rfl))
  | binopExpr hc _ _ _ =>
    refine List.forall_mem_cons.2 ⟨steps_below (cap hc rfl), ?_⟩
    exact List.forall_mem_singleton.2 (steps_below (cap hc rfl))
  | jsonExtractOp hc _ _ hlhs =>
    refine List.forall_mem_singleton.2 ?_
    rcases hlhs with ⟨_, rfl⟩ | ⟨_, rfl⟩
    · exact steps_below (cap hc rfl)
    · exact steps_below (cap hc rfl)
  | arrayConstructor hc _ _ _ _ => exact steps_valuesOf (by omega) _
  | castExpr hc _ _ _ => exact List.forall_mem_singleton.2 (steps_below (cap hc rfl))
  | intervalExpr hc _ _ => exact steps_valuesOf (by omega) _
  | mysqlJsonOp hc _ _ => exact steps_valuesOf (by omega) _
  | aggregateSubselect => exact nofun
  | typedSubselect => exact nofun
  | anySubselect => exact nofun
  | columnReference => exact nofun
  | constExpr => exact nofun

theorem TableRule.steps {σ : Schema τ} {c : Ctx τ} {r : Request τ} {p : Production τ}
    {calls : List (Call τ)} {ps : List (Production τ)} (h : TableRule σ c r p calls ps)
    (hc : c.level ≤ r.cap) : ∀ q ∈ calls, Steps c p q := by
  cases h with
  | fromClause =>
    refine List.forall_mem_singleton.2 (steps_inside ?_)
    have hc : c.level ≤ 23 := hc
    split
    · exact Nat.succ_le_succ hc
    · exact Nat.succ_le_succ hc
  | tableSubquery hlevel _ =>
    exact List.forall_mem_singleton.2 (steps_inside ((Nat.succ_le_succ hlevel).trans (Nat.le_of_ble_eq_true rfl)))
  | joinedTable hlevel hcalls =>
    have hlevel : c.level + 1 ≤ 24 := by omega
    refine List.forall_mem_cons.2 ⟨steps_inside hlevel, ?_⟩
    refine List.forall_mem_cons.2 ⟨steps_inside hlevel, ?_⟩
    rcases hcalls with rfl | rfl
    · exact nofun
    · exact List.forall_mem_singleton.2 (steps_inside hlevel)
  | exprJoinCond _ => exact List.forall_mem_singleton.2 ⟨Nat.succ_le_succ hc, .inl rfl⟩
  | _ => exact nofun

variable [DecidableEq τ]

theorem QueryRule.steps {σ : Schema τ} {c : Ctx τ} {r : Request τ} {p : Production τ}
    {calls : List (Call τ)} {ps : List (Production τ)} (h : QueryRule σ c r p calls ps)
    (hc : c.level ≤ r.cap) : ∀ q ∈ calls, Steps c p q := by
  -- the parts of a query are asked for at one level and have one cap
  have part {refs : List (NamedRelation τ)} {r : Request τ} (hc : c.level ≤ 22)
      (hr : Nat.ble 23 r.cap = true) : Steps c p (c.queryScope refs, r) :=
    ⟨(Nat.succ_le_succ hc).trans (Nat.le_of_ble_eq_true hr), .inl rfl⟩
  cases h with
  | querySpec =>
    refine List.forall_mem_cons.2 ⟨steps_inside (Nat.succ_le_succ hc), ?_⟩
    refine List.forall_mem_cons.2 ⟨part hc rfl, ?_⟩
    exact List.forall_mem_singleton.2 (part hc rfl)
  | windowedQuery =>
    refine List.forall_mem_cons.2 ⟨steps_inside (Nat.succ_le_succ hc), ?_⟩
    refine List.forall_mem_cons.2 ⟨part hc rfl, ?_⟩
    refine List.forall_mem_cons.2 ⟨part hc rfl, ?_⟩
    exact List.forall_mem_singleton.2 (part hc rfl)
  | groupedQuery _ _ =>
    refine List.forall_mem_cons.2 ⟨steps_inside (Nat.succ_le_succ hc), ?_⟩
    refine List.forall_mem_cons.2 ⟨part hc rfl, ?_⟩
    refine List.forall_mem_cons.2 ⟨part hc rfl, ?_⟩
    exact List.forall_mem_singleton.2 (part hc rfl)
  | groupingSetsQuery _ =>
    refine List.forall_mem_cons.2 ⟨steps_inside (Nat.succ_le_succ hc), ?_⟩
    refine List.forall_mem_cons.2 ⟨part hc rfl, ?_⟩
    refine List.forall_mem_cons.2 ⟨part hc rfl, ?_⟩
    exact List.forall_mem_singleton.2 (part hc rfl)
  | unionedQuery =>
    refine List.forall_mem_cons.2 ⟨steps_inside (Nat.succ_le_succ hc), ?_⟩
    exact List.forall_mem_singleton.2 (steps_inside (Nat.succ_le_succ hc))
  | selectAll _ => exact steps_allColumns (Nat.succ_le_succ (hc.trans (Nat.le_of_ble_eq_true rfl))) _
  | selectAny _ _ =>
    intro q hq
    obtain ⟨_, _, rfl⟩ := List.mem_map.1 hq
    exact steps_selected (Nat.succ_le_succ (hc.trans (Nat.le_of_ble_eq_true rfl))) _ _
  | selectPointed _ =>
    intro q hq
    obtain ⟨t, _, rfl⟩ := List.mem_map.1 hq
    exact steps_selected (Nat.succ_le_succ (hc.trans (Nat.le_of_ble_eq_true rfl))) _ _
  | windowedAny _ hcalls =>
    exact steps_windowed (σ := σ) hc (hcalls.imp fun _ _ h => h.imp_left fun h => ⟨none, h⟩)
  | windowedPointed _ hcalls =>
    exact steps_windowed (σ := σ) hc
      (hcalls.imp fun t _ h => h.imp (fun h => ⟨some t, h⟩) fun h => ⟨t, h⟩)
  | groupedList _ =>
    refine List.forall_mem_cons.2 ⟨steps_inside (Nat.succ_le_succ (hc.trans (Nat.le_of_ble_eq_true rfl))), ?_⟩
    intro q hq
    rw [List.eq_of_mem_replicate hq]
    exact ⟨Nat.succ_le_succ hc, .inl rfl⟩
  | aggregateList _ =>
    intro q hq
    rw [List.eq_of_mem_replicate hq]
    exact steps_inside (Nat.succ_le_succ hc)
  | groupClause =>
    exact List.forall_mem_singleton.2 ⟨Nat.succ_le_succ (hc.trans (Nat.le_of_ble_eq_true rfl)), .inl rfl⟩
  | groupingSets _ _ _ =>
    have hc : c.level + 1 ≤ 25 := Nat.succ_le_succ (hc.trans (Nat.le_of_ble_eq_true rfl))
    refine List.forall_mem_append.2 ⟨fun q hq => ?_, List.forall_mem_singleton.2 (steps_inside hc)⟩
    obtain ⟨r, hr, rfl⟩ := List.mem_map.1 hq
    exact steps_allColumns hc _ _ (List.mem_map_of_mem (List.mem_of_mem_take hr))
  | namedWindow _ _ hframe =>
    have hc : c.level + 1 ≤ 25 := Nat.succ_le_succ (hc.trans (Nat.le_of_ble_eq_true rfl))
    refine List.forall_mem_append.2 ⟨List.forall_mem_append.2 ⟨fun q hq => ?_, ?_⟩, ?_⟩
    · rw [List.eq_of_mem_replicate hq]
      refine steps_inside ?_
      split
      · exact hc
      · exact hc
    · exact steps_allColumns hc _
    · rcases hframe with rfl | ⟨_, rfl⟩
      · exact nofun
      · exact List.forall_mem_singleton.2 (steps_inside hc)
  | windowFrame => exact nofun

/-! The trees. -/

theorem Rule.steps {σ : Schema τ} {r : Call τ} {a : Labelled τ} {calls : List (Call τ)}
    {ls : List (Labelled τ)} (h : Rule σ r a calls ls) (hr : r.1.level ≤ r.2.cap) :
    ∀ q ∈ calls, Steps r.1 a.prod q := by
  cases h with
  | bool h => exact h.steps
  | boolValue _ h => exact h.steps
  | value _ _ h => exact h.steps
  | winFuncall _ _ _ => exact steps_valuesOf (Nat.succ_le_succ hr) _
  | winFuncUsingExistWin _ => exact List.forall_mem_singleton.2 (steps_inside (Nat.succ_le_succ hr))
  | aggregateCall _ _ => exact steps_valuesOf (Nat.succ_le_succ hr) _
  | query h => exact h.steps hr
  | table h => exact h.steps hr
  | _ => exact nofun

/-- A production is one level below its parent. -/
theorem Rule.level_eq {σ : Schema τ} {r : Call τ} {a : Labelled τ} {calls : List (Call τ)}
    {ls : List (Labelled τ)} (h : Rule σ r a calls ls) :
    a.level = r.1.level + 1 ∧
      ∀ u, r.2 = .winFuncUsingExistWin u → ∃ v, a.prod = .winFuncUsingExistWin v := by
  cases h with
  | winFuncUsingExistWin _ => exact ⟨rfl, fun _ _ => ⟨_, rfl⟩⟩
  | query h => exact ⟨rfl, fun u hu => by cases hu; cases h⟩
  | table h => exact ⟨rfl, fun u hu => by cases hu; cases h⟩
  | _ => exact ⟨rfl, nofun⟩

theorem Rule.nextLevel {σ : Schema τ} {r : Call τ} {a : Labelled τ} {calls : List (Call τ)}
    {ls : List (Labelled τ)} (h : Rule σ r a calls ls) (hr : r.1.level ≤ r.2.cap)
    (hls : List.Forall₂ (fun call l => l.level = call.1.level + 1 ∧
      ∀ u, call.2 = .winFuncUsingExistWin u → ∃ v, l.prod = .winFuncUsingExistWin v) calls ls) :
    ∀ l ∈ ls, NextLevel a l := by
  have hsteps := h.steps hr
  have ha := h.level_eq.1
  clear h
  induction hls with
  | nil => exact nofun
  | @cons call l _ _ hl _ ih =>
    obtain ⟨hcall, hsteps⟩ := List.forall_mem_cons.1 hsteps
    refine List.forall_mem_cons.2 ⟨?_, ih hsteps⟩
    obtain ⟨_, hnext | ⟨hsame, hnot | ⟨u, hu⟩⟩⟩ := hcall
    · exact .inl (by omega)
    · exact .inr ⟨by omega, .inl hnot⟩
    · exact .inr ⟨by omega, .inr (hl.2 u hu)⟩

/-- A constant under `n` negations. -/
def notChain (c : Ctx τ) : ℕ → LabelTree (Labelled τ)
  | 0 => .node (c.label .constBool) []
  | n + 1 => .node (c.label .notExpr) [notChain c n]

theorem generates_notChain (σ : Schema τ) {c : Ctx τ} (hc : c.level ≤ 20) (n : ℕ) :
    Generates σ (c, .bool) (notChain c n) := by
  induction n with
  | zero => exact .of_forall₂ (.bool .constBool) .nil
  | succ n ih => exact .of_forall₂ (.bool (.notExpr hc)) (.cons ih .nil)

/-- What is asked for at level 20 or above ends at level 26, and only a negation or a replaced
expression of a list is not one level below its parent. Yet no bound on the depth follows:
negations nest without end at one level. -/
theorem generates_levels (σ : Schema τ) {c : Ctx τ} (hc : c.level ≤ 20) :
    (∀ r t, Generates σ (c, r) t →
      t.Everywhere fun a ls => a.level ≤ 26 ∧ ∀ l ∈ ls, NextLevel a l) ∧
    ∀ n, Generates σ (c, .bool) (notChain c n) := by
  refine ⟨fun r t h => ?_, generates_notChain σ hc⟩
  refine h.licensed (P := fun r _ => r.1.level ≤ r.2.cap) (fun _ _ _ _ hr _ => hr.level_eq) ?_
    (hc.trans r.cap_le.1)
  intro r a calls ls _ hr hls hcap
  have ha := hr.level_eq.1
  have hle := r.2.cap_le.2
  refine ⟨⟨by omega, hr.nextLevel hcap hls⟩, fun i q hq => ?_⟩
  exact (hr.steps hcap q (List.mem_of_getElem? hq)).1

theorem generates_levels_start :
    (∀ r t, Generates oneTable (start, r) t →
      t.Everywhere fun a ls => a.level ≤ 26 ∧ ∀ l ∈ ls, NextLevel a l) ∧
    ∀ n, Generates oneTable (start, .bool) (notChain start n) :=
  generates_levels oneTable (Nat.zero_le 20)

end DbFuzz.Generator
