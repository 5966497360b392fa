import DbFuzz.Grammar.Generator

/-! Places in what the generator builds: where aggregates and window functions stand. -/

namespace DbFuzz.Generator

variable {τ : Type}

inductive QueryKind
  | plain
  | windowed
  | grouped
  deriving DecidableEq

/-- Where a production stands: in a query, in the list of a query or below a value of such a list,
or as the call of a window function. -/
inductive Place
  | query (kind : QueryKind)
  | list (kind : QueryKind)
  | listValue
  | call
  | elsewhere
  deriving DecidableEq

/-- A window function may stand in the list of a query that is not grouped. -/
def Place.AllowsWindow : Place → Prop
  | list .plain | list .windowed | listValue => True
  | _ => False

instance : DecidablePred Place.AllowsWindow := fun s => by
  unfold Place.AllowsWindow
  split <;> infer_instance

/-- The fourth part of a query is its window or its group. -/
def queryKind : Option (Production τ) → QueryKind
  | none => .plain
  | some .namedWindow => .windowed
  | some _ => .grouped

/-- The place of the parts of a production. -/
def Production.partPlace (s : Place) : Production τ → List (Production τ) → Place
  | querySpec _, ps => .query (queryKind ps[3]?)
  | selectList _, _ =>
    match s with
    | .query kind => .list kind
    | _ => .elsewhere
  | windowFunction _, _ | winFuncUsingExistWin _, _ => .call
  | winFuncall _ _, _ | funcall _ true _, _ => .elsewhere
  | coalesce _ _, _ | funcall _ false _, _ | caseExpr _, _ | binopExpr _ _, _ | jsonExtractOp _, _
  | arrayConstructor _, _ | castExpr _ _, _ | intervalExpr _, _ | mysqlJsonOp _, _
  | comparisonOp _, _ | boolTerm, _ | notExpr, _ | nullPredicate, _ | betweenOp, _ | likeOp, _
  | inQuery, _ | compSubquery, _ | quantifiedComparison, _ | regexpExpr, _ =>
    if s.AllowsWindow then .listValue else .elsewhere
  | _, _ => .elsewhere

/-- What may stand in a place. -/
def Production.Placed (s : Place) : Production τ → Prop
  | windowFunction _ => s.AllowsWindow
  | winFuncall _ _ => s = .call
  | winFuncUsingExistWin _ => s = .list .windowed
  | funcall _ true _ => s = .list .grouped
  | selectList _ => ∃ kind, s = .query kind
  | _ => True

/-- The place that a request is made for, if it is made for one only. -/
def Request.place : Request τ → Option Place
  | winFuncall _ => some .call
  | winFuncUsingExistWin _ => some (.list .windowed)
  | aggregateCall => some (.list .grouped)
  | selectList _ _ _ => some (.query .plain)
  | windowedList _ _ => some (.query .windowed)
  | groupedList _ _ | aggregateList => some (.query .grouped)
  | _ => none

/-- A call is made for its place, and allows window functions only where the place does. -/
def Fits (call : Call τ) (s : Place) : Prop :=
  (call.1.windows = true → s.AllowsWindow) ∧ ∀ place ∈ call.2.place, s = place

/-- The window of a query is recognised by its production. -/
def Marks (call : Call τ) (p : Production τ) : Prop := call.2 = .namedWindow ↔ p = .namedWindow

section
variable {c : Ctx τ} {s : Place}

/-- A call that allows no window functions and may be made anywhere. -/
theorem fits_free {q : Call τ} (hq : q.1.windows = false) (hr : q.2.place = none) : Fits q s := by
  refine ⟨fun h => Bool.noConfusion (hq.symm.trans h), ?_⟩
  rw [hr]
  exact nofun

theorem fits_placed {q : Call τ} (hq : q.1.windows = false) (hr : q.2.place = some s) :
    Fits q s := by
  refine ⟨fun h => Bool.noConfusion (hq.symm.trans h), ?_⟩
  rw [hr]
  exact fun _ h => Option.some.inj h

/-- An operand of a value stands in the list if the value does. -/
theorem fits_below {r : Request τ} (hs : c.windows = true → s.AllowsWindow) (hr : r.place = none) :
    Fits (c.below, r) (if s.AllowsWindow then .listValue else .elsewhere) := by
  refine ⟨fun hc => ?_, by rw [hr]; exact nofun⟩
  rw [if_pos (hs hc)]
  trivial

theorem fits_valuesOf (hs : c.windows = true → s.AllowsWindow) (types : List τ) :
    ∀ q ∈ valuesOf c.below types, Fits q (if s.AllowsWindow then .listValue else .elsewhere) := by
  intro q hq
  obtain ⟨t, _, rfl⟩ := List.mem_map.1 hq
  exact fits_below hs rfl

/-- The arguments of a call in a list: no window functions. -/
theorem fits_arguments {place : Place} (hc : c.windows = true → place.AllowsWindow)
    (hplace : ¬ place.AllowsWindow) (types : List τ) : ∀ q ∈ valuesOf c.below types, Fits q s := by
  intro q hq
  obtain ⟨t, _, rfl⟩ := List.mem_map.1 hq
  exact fits_free (Bool.eq_false_iff.2 fun h => hplace (hc h)) rfl

theorem fits_allColumns (rs : List (NamedRelation τ)) :
    ∀ q ∈ (Ctx.allColumns rs).map (Prod.mk c.inside), Fits q s := by
  intro q hq
  obtain ⟨r, hr, rfl⟩ := List.mem_map.1 hq
  obtain ⟨rel, _, hr⟩ := List.mem_flatMap.1 hr
  obtain ⟨col, _, rfl⟩ := List.mem_map.1 hr
  exact fits_free rfl rfl

end

theorem BoolRule.ne_namedWindow {σ : Schema τ} {c : Ctx τ} {p : Production τ}
    {calls : List (Call τ)} {ps : List (Production τ)} (h : BoolRule σ c p calls ps) :
    p ≠ .namedWindow := by
  cases h <;> exact nofun

theorem ValueRule.ne_namedWindow {σ : Schema τ} {c : Ctx τ} {t : Option τ}
    {preferRefs : Option (List (NamedRelation τ))} {p : Production τ} {calls : List (Call τ)}
    {ps : List (Production τ)} (h : ValueRule σ c t preferRefs p calls ps) : p ≠ .namedWindow := by
  cases h <;> exact nofun

theorem BoolRule.placed {σ : Schema τ} {c : Ctx τ} {p : Production τ} {calls : List (Call τ)}
    {ps : List (Production τ)} {s : Place} (h : BoolRule σ c p calls ps)
    (hs : c.windows = true → s.AllowsWindow) :
    p.Placed s ∧ ∀ q ∈ calls, Fits q (p.partPlace s ps) := by
  cases h with
  | constBool => exact ⟨trivial, nofun⟩
  | comparisonOp _ _ _ _ =>
    refine ⟨trivial, List.forall_mem_cons.2 ⟨fits_below hs rfl, ?_⟩⟩
    exact List.forall_mem_singleton.2 (fits_below hs rfl)
  | boolTerm _ =>
    refine ⟨trivial, List.forall_mem_cons.2 ⟨fits_below hs rfl, ?_⟩⟩
    exact List.forall_mem_singleton.2 (fits_below hs rfl)
  | notExpr _ => exact ⟨trivial, List.forall_mem_singleton.2 (fits_below (c := c) hs rfl)⟩
  | nullPredicate _ => exact ⟨trivial, List.forall_mem_singleton.2 (fits_below hs rfl)⟩
  | betweenOp _ => exact ⟨trivial, fits_valuesOf hs _⟩
  | likeOp _ => exact ⟨trivial, fits_valuesOf hs _⟩
  | regexpExpr _ _ => exact ⟨trivial, fits_valuesOf hs _⟩
  | inQuery union _ _ =>
    refine ⟨trivial, List.forall_mem_cons.2 ⟨fits_below hs rfl, ?_⟩⟩
    refine List.forall_mem_singleton.2 ⟨nofun, ?_⟩
    cases union <;> exact nofun
  | compSubquery _ _ =>
    refine ⟨trivial, List.forall_mem_cons.2 ⟨fits_below hs rfl, ?_⟩⟩
    exact List.forall_mem_singleton.2 ⟨nofun, nofun⟩
  | existsPredicate union _ _ =>
    refine ⟨trivial, List.forall_mem_singleton.2 ⟨nofun, ?_⟩⟩
    cases union <;> exact nofun
  | quantifiedComparison _ _ hlhs _ =>
    refine ⟨trivial, List.forall_mem_cons.2 ⟨?_, List.forall_mem_singleton.2 (fits_free rfl rfl)⟩⟩
    rcases hlhs with ⟨rel, _, col, _, _, rfl⟩ | ⟨_, ⟨_, rfl⟩ | ⟨_, rfl⟩⟩
    · exact fits_below hs rfl
    · exact fits_below hs rfl
    · exact fits_below hs rfl

theorem ValueRule.placed {σ : Schema τ} {c : Ctx τ} {t : Option τ}
    {preferRefs : Option (List (NamedRelation τ))} {p : Production τ} {calls : List (Call τ)}
    {ps : List (Production τ)} {s : Place} (h : ValueRule σ c t preferRefs p calls ps)
    (hs : c.windows = true → s.AllowsWindow) :
    p.Placed s ∧ ∀ q ∈ calls, Fits q (p.partPlace s ps) := by
  cases h with
  | windowFunction _ hallowed _ hframe =>
    refine ⟨hs hallowed, List.forall_mem_cons.2 ⟨fits_placed rfl rfl, ?_⟩⟩
    refine List.forall_mem_append.2 ⟨List.forall_mem_append.2 ⟨?_, ?_⟩, ?_⟩
    · intro q hq
      rw [List.eq_of_mem_replicate hq]
      exact fits_free rfl rfl
    · exact fits_allColumns _
    · rcases hframe with rfl | ⟨_, rfl⟩
      · exact nofun
      · exact List.forall_mem_singleton.2 (fits_free rfl rfl)
  | coalesce _ _ _ _ =>
    refine ⟨trivial, List.forall_mem_cons.2 ⟨fits_below hs rfl, ?_⟩⟩
    exact List.forall_mem_singleton.2 (fits_below hs rfl)
  | funcall _ _ _ _ => exact ⟨trivial, fits_valuesOf hs _⟩
  | caseExpr _ _ =>
    refine ⟨trivial, List.forall_mem_cons.2 ⟨fits_below hs rfl, ?_⟩⟩
    refine List.forall_mem_cons.2 ⟨fits_below hs rfl, ?_⟩
    exact List.forall_mem_singleton.2 (fits_below hs rfl)
  | binopExpr _ _ _ _ =>
    refine ⟨trivial, List.forall_mem_cons.2 ⟨fits_below hs rfl, ?_⟩⟩
    exact List.forall_mem_singleton.2 (fits_below hs rfl)
  | jsonExtractOp _ _ _ hlhs =>
    refine ⟨trivial, List.forall_mem_singleton.2 ?_⟩
    rcases hlhs with ⟨_, rfl⟩ | ⟨_, rfl⟩
    · exact fits_below hs rfl
    · exact fits_below hs rfl
  | arrayConstructor _ _ _ _ _ => exact ⟨trivial, fits_valuesOf hs _⟩
  | castExpr _ _ _ _ => exact ⟨trivial, List.forall_mem_singleton.2 (fits_below hs rfl)⟩
  | intervalExpr _ _ _ => exact ⟨trivial, fits_valuesOf hs _⟩
  | mysqlJsonOp _ _ _ => exact ⟨trivial, fits_valuesOf hs _⟩
  | _ => exact ⟨trivial, nofun⟩

theorem TableRule.ne_namedWindow {σ : Schema τ} {c : Ctx τ} {r : Request τ} {p : Production τ}
    {calls : List (Call τ)} {ps : List (Production τ)} (h : TableRule σ c r p calls ps) :
    r ≠ .namedWindow ∧ p ≠ .namedWindow := by
  cases h <;> exact ⟨nofun, nofun⟩

theorem TableRule.placed {σ : Schema τ} {c : Ctx τ} {r : Request τ} {p : Production τ}
    {calls : List (Call τ)} {ps : List (Production τ)} {s : Place} (h : TableRule σ c r p calls ps) :
    p.Placed s ∧ ∀ q ∈ calls, Fits q (p.partPlace s ps) := by
  cases h with
  | @fromClause _ onlyBaseTable =>
    refine ⟨trivial, List.forall_mem_singleton.2 (fits_free rfl ?_)⟩
    cases onlyBaseTable <;> rfl
  | tableSubquery _ _ => exact ⟨trivial, List.forall_mem_singleton.2 (fits_free rfl rfl)⟩
  | joinedTable _ hcalls =>
    refine ⟨trivial, List.forall_mem_cons.2 ⟨fits_free rfl rfl, ?_⟩⟩
    refine List.forall_mem_cons.2 ⟨fits_free rfl rfl, ?_⟩
    rcases hcalls with rfl | rfl
    · exact nofun
    · exact List.forall_mem_singleton.2 (fits_free rfl rfl)
  | exprJoinCond _ => exact ⟨trivial, List.forall_mem_singleton.2 ⟨nofun, nofun⟩⟩
  | _ => exact ⟨trivial, nofun⟩

theorem queryKind_of_ne {p : Production τ} (h : p ≠ .namedWindow) :
    queryKind (some p) = .grouped := by
  cases p <;> first | rfl | exact absurd rfl h

/-- A value of a list that is not grouped, or a call over the window of the query. -/
theorem fits_selected {σ : Schema τ} {c : Ctx τ} {s : Place} (hs : s.AllowsWindow)
    (rs : List (NamedRelation τ)) (t : Option τ) : Fits (selected σ c rs t) s := by
  refine ⟨fun _ => hs, ?_⟩
  unfold selected
  split
  · exact nofun
  · exact nofun

theorem fits_windowed {σ : Schema τ} {c : Ctx τ} (hc : c.windows = true → False)
    {rs : List (NamedRelation τ)} {types : List τ} {calls : List (Call τ)}
    (hcalls : List.Forall₂ (fun _ call => (∃ t, call = selected σ c rs t) ∨
      ∃ u, call = (c, .winFuncUsingExistWin u)) types calls) :
    ∀ q ∈ calls, Fits q (.list .windowed) := by
  induction hcalls with
  | nil => exact nofun
  | cons hcall _ ih =>
    refine List.forall_mem_cons.2 ⟨?_, ih⟩
    rcases hcall with ⟨t, rfl⟩ | ⟨u, rfl⟩
    · exact fits_selected (s := .list .windowed) trivial rs t
    · exact ⟨fun h => (hc h).elim, fun _ h => Option.some.inj h⟩

variable [DecidableEq τ]

theorem QueryRule.marks {σ : Schema τ} {c : Ctx τ} {r : Request τ} {p : Production τ}
    {calls : List (Call τ)} {ps : List (Production τ)} (h : QueryRule σ c r p calls ps) :
    Marks (c, r) p := by
  cases h with
  | namedWindow _ _ _ => exact iff_of_true rfl rfl
  | _ => exact iff_of_false nofun nofun

/-- The parts of a query are marked, so its kind is the kind its list is made for. -/
theorem QueryRule.placed {σ : Schema τ} {c : Ctx τ} {r : Request τ} {p : Production τ}
    {calls : List (Call τ)} {ps : List (Production τ)} {s : Place} (h : QueryRule σ c r p calls ps)
    (hps : List.Forall₂ Marks calls ps) (hs : Fits (c, r) s) :
    p.Placed s ∧ ∀ q ∈ calls, Fits q (p.partPlace s ps) := by
  cases h with
  | querySpec =>
    refine ⟨trivial, List.forall_mem_cons.2 ⟨fits_free rfl rfl, ?_⟩⟩
    refine List.forall_mem_cons.2 ⟨fits_free rfl rfl, ?_⟩
    exact List.forall_mem_singleton.2 (fits_placed rfl rfl)
  | windowedQuery =>
    obtain _ | ⟨_, _ | ⟨_, _ | ⟨_, _ | ⟨hwindow, _⟩⟩⟩⟩ := hps
    obtain rfl := hwindow.1 rfl
    refine ⟨trivial, List.forall_mem_cons.2 ⟨fits_free rfl rfl, ?_⟩⟩
    refine List.forall_mem_cons.2 ⟨fits_free rfl rfl, ?_⟩
    refine List.forall_mem_cons.2 ⟨fits_placed rfl rfl, ?_⟩
    exact List.forall_mem_singleton.2 (fits_free rfl rfl)
  | groupedQuery _ _ =>
    obtain _ | ⟨_, _ | ⟨_, _ | ⟨_, _ | ⟨hgroup, _⟩⟩⟩⟩ := hps
    have hkind := queryKind_of_ne fun h => nomatch hgroup.2 h
    refine ⟨trivial, List.forall_mem_cons.2 ⟨fits_free rfl rfl, ?_⟩⟩
    refine List.forall_mem_cons.2 ⟨fits_free rfl rfl, ?_⟩
    refine List.forall_mem_cons.2 ⟨fits_placed rfl (congrArg (some ∘ Place.query) hkind.symm), ?_⟩
    exact List.forall_mem_singleton.2 (fits_free rfl rfl)
  | groupingSetsQuery _ =>
    obtain _ | ⟨_, _ | ⟨_, _ | ⟨_, _ | ⟨hgroup, _⟩⟩⟩⟩ := hps
    have hkind := queryKind_of_ne fun h => nomatch hgroup.2 h
    refine ⟨trivial, List.forall_mem_cons.2 ⟨fits_free rfl rfl, ?_⟩⟩
    refine List.forall_mem_cons.2 ⟨fits_free rfl rfl, ?_⟩
    refine List.forall_mem_cons.2 ⟨fits_placed rfl (congrArg (some ∘ Place.query) hkind.symm), ?_⟩
    exact List.forall_mem_singleton.2 (fits_free rfl rfl)
  | unionedQuery =>
    refine ⟨trivial, List.forall_mem_cons.2 ⟨fits_free rfl rfl, ?_⟩⟩
    exact List.forall_mem_singleton.2 (fits_free rfl rfl)
  | selectAll _ =>
    obtain rfl := hs.2 _ rfl
    exact ⟨⟨_, rfl⟩, fits_allColumns _⟩
  | selectAny _ _ =>
    obtain rfl := hs.2 _ rfl
    refine ⟨⟨_, rfl⟩, fun q hq => ?_⟩
    obtain ⟨_, _, rfl⟩ := List.mem_map.1 hq
    exact fits_selected (s := .list .plain) trivial _ _
  | selectPointed _ =>
    obtain rfl := hs.2 _ rfl
    refine ⟨⟨_, rfl⟩, fun q hq => ?_⟩
    obtain ⟨t, _, rfl⟩ := List.mem_map.1 hq
    exact fits_selected (s := .list .plain) trivial _ _
  | windowedAny _ hcalls =>
    obtain rfl := hs.2 _ rfl
    refine ⟨⟨_, rfl⟩, ?_⟩
    exact fits_windowed (σ := σ) hs.1 (hcalls.imp fun _ _ h => h.imp_left fun h => ⟨none, h⟩)
  | windowedPointed _ hcalls =>
    obtain rfl := hs.2 _ rfl
    refine ⟨⟨_, rfl⟩, ?_⟩
    exact fits_windowed (σ := σ) hs.1
      (hcalls.imp fun t _ h => h.imp (fun h => ⟨some t, h⟩) fun h => ⟨t, h⟩)
  | groupedList _ =>
    obtain rfl := hs.2 _ rfl
    refine ⟨⟨_, rfl⟩, List.forall_mem_cons.2 ⟨fits_free rfl rfl, fun q hq => ?_⟩⟩
    rw [List.eq_of_mem_replicate hq]
    exact fits_placed rfl rfl
  | aggregateList _ =>
    obtain rfl := hs.2 _ rfl
    refine ⟨⟨_, rfl⟩, fun q hq => ?_⟩
    rw [List.eq_of_mem_replicate hq]
    exact fits_placed rfl rfl
  | groupClause => exact ⟨trivial, List.forall_mem_singleton.2 ⟨nofun, nofun⟩⟩
  | groupingSets _ _ _ =>
    refine ⟨trivial, List.forall_mem_append.2 ⟨fun q hq => ?_, ?_⟩⟩
    · obtain ⟨r, hr, rfl⟩ := List.mem_map.1 hq
      exact fits_allColumns _ _ (List.mem_map_of_mem (List.mem_of_mem_take hr))
    · exact List.forall_mem_singleton.2 (fits_free rfl rfl)
  | namedWindow _ _ hframe =>
    refine ⟨trivial, List.forall_mem_append.2 ⟨List.forall_mem_append.2 ⟨fun q hq => ?_, ?_⟩, ?_⟩⟩
    · rw [List.eq_of_mem_replicate hq]
      refine fits_free rfl ?_
      split
      · rfl
      · rfl
    · exact fits_allColumns _
    · rcases hframe with rfl | ⟨_, rfl⟩
      · exact nofun
      · exact List.forall_mem_singleton.2 (fits_free rfl rfl)
  | windowFrame => exact ⟨trivial, nofun⟩

theorem Rule.marks {σ : Schema τ} {r : Call τ} {a : Labelled τ} {calls : List (Call τ)}
    {ls : List (Labelled τ)} (h : Rule σ r a calls ls) : Marks r a.prod := by
  cases h with
  | bool h => exact iff_of_false nofun h.ne_namedWindow
  | boolValue _ h => exact iff_of_false nofun h.ne_namedWindow
  | value _ _ h => exact iff_of_false nofun h.ne_namedWindow
  | query h => exact h.marks
  | table h => exact iff_of_false h.ne_namedWindow.1 h.ne_namedWindow.2
  | _ => exact iff_of_false nofun nofun

theorem Rule.placed {σ : Schema τ} {r : Call τ} {a : Labelled τ} {calls : List (Call τ)}
    {ls : List (Labelled τ)} {s : Place} (h : Rule σ r a calls ls)
    (hls : List.Forall₂ (fun call l => Marks call l.prod) calls ls) (hs : Fits r s) :
    a.prod.Placed s ∧ ∀ q ∈ calls, Fits q (a.prod.partPlace s (ls.map Labelled.prod)) := by
  cases h with
  | bool h => exact h.placed hs.1
  | boolValue _ h => exact h.placed hs.1
  | value _ _ h => exact h.placed hs.1
  | winFuncall _ _ _ =>
    obtain rfl := hs.2 _ rfl
    exact ⟨rfl, fits_arguments hs.1 id _⟩
  | winFuncUsingExistWin _ =>
    obtain rfl := hs.2 _ rfl
    exact ⟨rfl, List.forall_mem_singleton.2 (fits_placed rfl rfl)⟩
  | aggregateCall _ _ =>
    obtain rfl := hs.2 _ rfl
    exact ⟨rfl, fits_arguments hs.1 id _⟩
  | query h => exact h.placed (List.forall₂_map_right_iff.2 hls) hs
  | table h => exact h.placed
  | _ => exact ⟨trivial, nofun⟩

/-- Whatever is drawn, a select list stands in a query, a window function below the values of the
list of a query that is not grouped and never below another one, a call over a named window
directly in the list of a query that has the window, and an aggregate directly in the list of a
grouped query. -/
theorem generates_placed (σ : Schema τ) {call : Call τ} {t : LabelTree (Labelled τ)}
    (hcall : Fits call .elsewhere) (h : Generates σ call t) :
    t.Licensed (fun s a ls _ => a.prod.partPlace s (ls.map Labelled.prod))
      (fun s a _ => a.prod.Placed s) .elsewhere := by
  refine h.licensed (P := Fits) (fun _ _ _ _ hr _ => hr.marks) ?_ hcall
  intro r a calls ls s hr hls hs
  obtain ⟨hplaced, hcalls⟩ := hr.placed hls hs
  exact ⟨hplaced, fun i q hq => hcalls q (List.mem_of_getElem? hq)⟩

theorem selectAllFrom_placed :
    selectAllFrom.Licensed (fun s a ls _ => a.prod.partPlace s (ls.map Labelled.prod))
      (fun s a _ => a.prod.Placed s) .elsewhere :=
  generates_placed oneTable (fits_free rfl rfl) generates_selectAllFrom

end DbFuzz.Generator
