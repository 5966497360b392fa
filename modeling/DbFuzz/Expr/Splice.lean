import DbFuzz.Expr.RoundTrip
import DbFuzz.Expr.Wrappers

/-! The rows of the subqueries that a transform puts conditions into. -/

namespace DbFuzz.Expr

variable {D : Type} {I : Interp D} {β : Type}

/-- Environments that differ in these columns only. -/
structure Env.Off (names : List String) (a b : Env D) : Prop where
  column : ∀ x, x ∉ names → a.column x = b.column x
  peers : a.peers = b.peers
  window : a.window = b.window

theorem Env.bind_off (names : List String) (row : SqlRow D) (env : Env D) :
    (env.bind names row).Off names env where
  column x hx := by
    have hnone : (names.zip row).lookup x = none := by
      rw [List.lookup_eq_none_iff]
      intro p hp
      have hmem := (List.of_mem_zip (a := p.1) (b := p.2) hp).1
      simp only [bne_iff_ne, ne_eq]
      rintro rfl
      exact hx hmem
    simp only [Env.bind, hnone, Option.getD_none]
  peers := rfl
  window := rfl

theorem Env.Off.bind {names : List String} {a b : Env D} (h : a.Off names b)
    (inner : List String) (row : SqlRow D) : (a.bind inner row).Off names (b.bind inner row) where
  column x hx := by simp only [Env.bind, h.column x hx]
  peers := h.peers
  window := h.window

/-- No column of these is named. -/
def Blind (names : List String) (f : Env D → β) : Prop := ∀ a b, a.Off names b → f a = f b

/-- No aggregate and no window function. -/
def RowLocal (f : Env D → β) : Prop :=
  ∀ env peers window, f { env with peers := peers, window := window } = f env

theorem evals_eq (es : List Sql) (env : Env D) : evals I es env = es.map (·.eval I env) := by
  induction es with
  | nil => rfl
  | cons e es ih => rw [evals, ih, List.map_cons]

namespace QuerySpec

def setQuantifier : QuerySpec → String
  | mk _ quantifier _ _ _ _ _ _ _ => quantifier

def names : QuerySpec → List String
  | mk _ _ (.mk _ names _) _ _ _ _ _ _ => names

def order : QuerySpec → Option (List (String × Bool))
  | mk _ _ _ _ _ _ _ order _ => order

def limit : QuerySpec → Option ℕ
  | mk _ _ _ _ _ _ _ _ limit => limit

variable (I) in
def columns : QuerySpec → List String
  | mk _ _ _ from_ _ _ _ _ _ => from_.out.names I

variable (I) in
def tables : QuerySpec → Env D → List (SqlRow D)
  | mk _ _ _ from_ _ _ _ _ _, env => from_.out.rows I env

variable (I) in
def holds (q : QuerySpec) (env : Env D) : Truth := I.toTruth (q.search.out.eval I env)

variable (I) in
def list (q : QuerySpec) (env : Env D) : SqlRow D := evals I (outList q.selectList.valueExprs) env

variable (I) in
/-- The rows of the from clause that the search condition keeps. -/
def found (q : QuerySpec) (env : Env D) : List (Env D) :=
  ((q.tables I env).map fun row => env.bind (q.columns I) row).filter fun env => q.holds I env = .yes

/-- No groups, no limit, and a select list without window functions. -/
structure Flat (I : Interp D) (q : QuerySpec) : Prop where
  group : q.group = none
  limit : q.limit = none
  list : RowLocal (q.list I)

section Parts

variable {q : QuerySpec} {search : BoolExpr}

@[simp] theorem columns_withSearch : (q.withSearch search).columns I = q.columns I := by
  cases q
  rfl

@[simp] theorem tables_withSearch : (q.withSearch search).tables I = q.tables I := by
  cases q
  rfl

@[simp] theorem list_withSearch : (q.withSearch search).list I = q.list I := by
  funext env
  rw [list, withSearch_valueExprs, list]

@[simp] theorem setQuantifier_withSearch :
    (q.withSearch search).setQuantifier = q.setQuantifier := by
  cases q
  rfl

@[simp] theorem names_withSearch : (q.withSearch search).names = q.names := by
  obtain ⟨_, _, ⟨⟩, _, _, _, _, _, _⟩ := q
  rfl

@[simp] theorem order_withSearch : (q.withSearch search).order = q.order := by
  cases q
  rfl

theorem order_withoutOrder (h : q.withoutOrder = q) : q.order = none := by
  rw [← h]
  cases q
  rfl

theorem Flat.withSearch (h : q.Flat I) : (q.withSearch search).Flat I where
  group := by
    rw [← h.group]
    cases q
    rfl
  limit := by
    rw [← h.limit]
    cases q
    rfl
  list := by
    rw [list_withSearch]
    exact h.list

@[simp] theorem found_withoutOrder : q.withoutOrder.found I = q.found I := by
  cases q
  rfl

@[simp] theorem columns_withoutOrder : q.withoutOrder.columns I = q.columns I := by
  cases q
  rfl

end Parts

/-- A condition put in front of the search condition. -/
theorem found_and (q : QuerySpec) (p : BoolExpr) (env : Env D) :
    (q.withSearch (.newTerm false p q.search)).found I env =
      (q.found I env).filter fun e => I.toTruth (p.out.eval I e) = .yes := by
  rw [found, found, List.filter_filter, tables_withSearch, columns_withSearch]
  congr 1
  funext e
  rw [holds, search_withSearch, eval_newAnd, Interp.toTruth_ofTruth, ← holds,
    ← Bool.decide_and]
  simp only [Truth.and_eq_yes]

theorem mem_found {q : QuerySpec} {env e : Env D} : e ∈ q.found I env ↔
    (∃ row ∈ q.tables I env, env.bind (q.columns I) row = e) ∧ q.holds I e = .yes := by
  rw [found, List.mem_filter, List.mem_map]
  simp only [decide_eq_true_eq]

end QuerySpec

/-! ### Rows -/

theorem Interp.filter_finish {p : SqlRow D → Bool}
    (hp : ∀ a b, I.sameRow a b = true → p a = p b) (setQuantifier : String) (names : List String)
    (rows : List (SqlRow D)) :
    (I.finish setQuantifier names none none rows).filter p =
      I.finish setQuantifier names none none (rows.filter p) := by
  simp only [finish]
  split
  · exact Bag.filter_distinct hp rows
  · rfl

theorem Interp.exists_finish {p : SqlRow D → Prop} (hp : ∀ a b, I.sameRow a b = true → p a → p b)
    (setQuantifier : String) (names : List String) (order : Option (List (String × Bool)))
    (rows : List (SqlRow D)) :
    (∃ row ∈ I.finish setQuantifier names order none rows, p row) ↔ ∃ row ∈ rows, p row := by
  have hdistinct : (∃ row ∈ (if setQuantifier = "distinct" then Bag.distinct I.sameRow rows
      else rows), p row) ↔ ∃ row ∈ rows, p row := by
    split
    · exact Bag.exists_distinct I.sameRow_equivalence hp
    · rfl
  cases order with
  | none => exact hdistinct
  | some keys => simpa only [finish, List.mem_insertionSort] using hdistinct

theorem QuerySpec.Flat.rows {q : QuerySpec} (h : q.Flat I) (env : Env D) :
    q.out.rows I env =
      I.finish q.setQuantifier q.names q.order none ((q.found I env).map (q.list I)) := by
  obtain ⟨options, quantifier, ⟨columns, names, es⟩, from_, search, group, window, order, limit⟩ := q
  obtain ⟨hgroup, hlimit, hlocal⟩ := h
  obtain rfl : group = none := hgroup
  obtain rfl : limit = none := hlimit
  rw [out, outGroup, SqlQuery.rows, grouped, List.map_map]
  apply congrArg
  apply List.map_congr_left
  intro e _
  exact hlocal e _ _

theorem QuerySpec.Flat.exists_rows {q : QuerySpec} (h : q.Flat I) {p : SqlRow D → Prop}
    (hp : ∀ a b, I.sameRow a b = true → p a → p b) (env : Env D) :
    (∃ row ∈ q.out.rows I env, p row) ↔ ∃ e ∈ q.found I env, p (q.list I e) := by
  rw [h.rows, I.exists_finish hp]
  simp only [List.mem_map, exists_exists_and_eq_and]

/-- A property of the classes of rows selects from both operands. -/
theorem Interp.filter_compound {p : SqlRow D → Bool}
    (hp : ∀ a b, I.sameRow a b = true → p a = p b) (type : CompoundType)
    (l r : List (SqlRow D)) :
    (I.compound type l r).filter p = I.compound type (l.filter p) (r.filter p) := by
  cases type with
  | union | unionDistinct =>
    rw [compound, compound, Bag.filter_distinct hp, List.filter_append]
  | unionAll => rw [compound, compound, List.filter_append]
  | intersect => rw [compound, compound, Bag.filter_distinct hp, Bag.filter_matched hp]
  | intersectAll => rw [compound, compound, Bag.filter_inter hp]
  | except => rw [compound, compound, Bag.filter_distinct hp, Bag.filter_unmatched hp]
  | exceptAll => rw [compound, compound, Bag.filter_diff hp]

/-! ### Membership -/

theorem Interp.compare_same (v : Option D) {a b : Option D} (h : I.sameValue a b = true) :
    I.compare "=" v a = I.compare "=" v b := by
  cases v with
  | none => rw [I.compare_null _ _ (.inl rfl), I.compare_null _ _ (.inl rfl)]
  | some v =>
    cases a <;> cases b
    · rfl
    · exact absurd h (by simp [sameValue])
    · exact absurd h (by simp [sameValue])
    · rename_i a b
      rw [I.compare_equal, I.compare_equal]
      congr 1
      rw [Bool.eq_iff_iff]
      exact ⟨fun hva => I.same_equivalence.trans hva h,
        fun hvb => I.same_equivalence.trans hvb (I.same_equivalence.symm h)⟩

theorem Interp.sameValue_value {a b : SqlRow D} (h : I.sameRow a b = true) :
    I.sameValue a.value b.value = true := by
  induction a generalizing b with
  | nil =>
    cases b with
    | nil => rfl
    | cons w b => exact absurd h (by simp [sameRow])
  | cons v a ih =>
    cases b with
    | nil => exact absurd h (by simp [sameRow])
    | cons w b =>
      simp only [sameRow, Bool.and_eq_true] at h
      cases a <;> cases b
      · exact h.1
      · exact absurd h.2 (by simp [sameRow])
      · exact absurd h.2 (by simp [sameRow])
      · simpa [SqlRow.value, List.getLast?_cons_cons] using ih h.2

variable (I) in
/-- The value is in the row. -/
def Interp.matches (v : Option D) (row : SqlRow D) : Bool := I.compare "=" v row.value = .yes

theorem Interp.matches_same (v : Option D) {a b : SqlRow D} (h : I.sameRow a b = true) :
    I.matches v a = I.matches v b := by
  rw [Interp.matches, Interp.matches, I.compare_same v (I.sameValue_value h)]

variable (I) in
/-- The truth value of `v in (rows)`. -/
def Interp.member (v : Option D) (rows : List (SqlRow D)) : Truth :=
  .any (rows.map fun row => I.compare "=" v row.value)

theorem Interp.member_eq_yes {v : Option D} {rows : List (SqlRow D)} :
    I.member v rows = .yes ↔ ∃ row ∈ rows, I.matches v row = true := by
  simp [member, Truth.any_eq_yes, Interp.matches]

namespace QuerySpec

theorem value_list {q : QuerySpec} {selected : ValueExpr}
    (h : q.selectList.valueExprs.getLast? = some selected) (env : Env D) :
    (q.list I env).value = selected.out.eval I env := by
  rw [list, evals_eq, outList_eq, SqlRow.value, List.getLast?_map, List.getLast?_map, h]
  rfl

theorem withMatch_eq {l : ValueExpr} {q new : QuerySpec} (h : q.withMatch l = some new) :
    ∃ selected, q.selectList.valueExprs.getLast? = some selected ∧
      new = q.withSearch (.newTerm false (.newComparison "=" l selected) q.search) := by
  simp only [withMatch, Option.bind_eq_bind, Option.bind_eq_some_iff, Option.some.injEq] at h
  obtain ⟨selected, hlast, rfl⟩ := h
  exact ⟨selected, hlast, rfl⟩

/-- With the comparison put in front, the matching rows are found. -/
theorem withMatch_found {l : ValueExpr} {q new : QuerySpec} (h : q.withMatch l = some new)
    (hl : Blind (q.columns I) (l.out.eval I)) (env : Env D) :
    new.found I env = (q.found I env).filter fun e => I.matches (l.out.eval I env) (q.list I e) := by
  obtain ⟨selected, hlast, rfl⟩ := withMatch_eq h
  rw [found_and]
  apply List.filter_congr
  intro e he
  obtain ⟨⟨row, -, rfl⟩, -⟩ := mem_found.1 he
  have hsees : l.out.eval I (env.bind (q.columns I) row) = l.out.eval I env :=
    hl _ _ (env.bind_off _ row)
  rw [eval_newComparison, Interp.toTruth_ofTruth, Interp.matches, value_list hlast, hsees]

/-- The rows of an operand of a union are the matching rows of the operand it was. -/
theorem withMatch_rows {l : ValueExpr} {q new : QuerySpec} (h : q.withMatch l = some new)
    (hl : Blind (q.columns I) (l.out.eval I)) (hflat : q.Flat I) (ho : q.withoutOrder = q)
    (env : Env D) :
    new.out.rows I env = (q.out.rows I env).filter (I.matches (l.out.eval I env)) := by
  have hfound := withMatch_found h hl env
  obtain ⟨selected, -, rfl⟩ := withMatch_eq h
  rw [(hflat.withSearch).rows, hflat.rows, hfound, order_withSearch, order_withoutOrder ho,
    I.filter_finish (fun _ _ => I.matches_same _), setQuantifier_withSearch, names_withSearch,
    list_withSearch, List.filter_map]
  rfl

end QuerySpec

/-! ### Intersections and differences -/

theorem eqOrNull_yes (a b : ValueExpr) (env : Env D) :
    I.toTruth ((eqOrNull a b).out.eval I env) = .yes ↔
      I.sameValue (a.out.eval I env) (b.out.eval I env) = true := by
  rw [eqOrNull, eval_newOr, eval_newComparison, eval_newAnd, eval_newNull, eval_newNull]
  simp only [Interp.toTruth_ofTruth]
  cases a.out.eval I env <;> cases b.out.eval I env
  · rw [I.compare_null _ _ (.inl rfl)]
    simp [Interp.sameValue, Truth.ofBool, Truth.or, Truth.and]
  · rw [I.compare_null _ _ (.inl rfl)]
    simp [Interp.sameValue, Truth.ofBool, Truth.or, Truth.and]
  · rw [I.compare_null _ _ (.inr rfl)]
    simp [Interp.sameValue, Truth.ofBool, Truth.or, Truth.and]
  · rw [I.compare_equal, Truth.or_eq_yes, Truth.ofBool_eq_yes]
    simp [Interp.sameValue, Truth.ofBool, Truth.and]

theorem intersectPredicateFrom_yes {as bs : List ValueExpr} {p p' : BoolExpr}
    (h : intersectPredicateFrom p as bs = some p') (hlen : as.length = bs.length) (env : Env D) :
    I.toTruth (p'.out.eval I env) = .yes ↔ I.toTruth (p.out.eval I env) = .yes ∧
      I.sameRow (evals I (outList as) env) (evals I (outList bs) env) = true := by
  induction as generalizing p bs with
  | nil =>
    cases bs with
    | nil =>
      simp only [intersectPredicateFrom, Option.some.injEq] at h
      simp [h, outList, evals, Interp.sameRow]
    | cons b bs => simp at hlen
  | cons a as ih =>
    cases bs with
    | nil => simp at hlen
    | cons b bs =>
      rw [intersectPredicateFrom] at h
      rw [ih h (by simpa using hlen), eval_newAnd, Interp.toTruth_ofTruth, Truth.and_eq_yes,
        eqOrNull_yes, outList, outList, evals, evals, Interp.sameRow, Bool.and_eq_true, and_assoc]

theorem intersectPredicate_yes {as bs : List ValueExpr} {p : BoolExpr}
    (h : intersectPredicate as bs = some p) (hlen : as.length = bs.length) (env : Env D) :
    I.toTruth (p.out.eval I env) = .yes ↔
      I.sameRow (evals I (outList as) env) (evals I (outList bs) env) = true := by
  match as, bs, h with
  | a :: as, b :: bs, h =>
    rw [intersectPredicateFrom_yes h (by simpa using hlen), eqOrNull_yes, outList, outList, evals,
      evals, Interp.sameRow, Bool.and_eq_true]

/-- The operands do not name each other's columns. -/
structure QuerySpec.Apart (I : Interp D) (l r : QuerySpec) : Prop where
  tables : Blind (l.columns I) (r.tables I)
  search : Blind (l.columns I) (r.search.out.eval I)
  list : Blind (l.columns I) (r.list I)
  list_left : Blind (r.columns I) (l.list I)

theorem eval_newExists (q : Subquery) (env : Env D) :
    I.toTruth ((BoolExpr.newExists q).out.eval I env) =
      .ofBool (!(q.out.rows I env).isEmpty) := by
  simp only [BoolExpr.newExists, BoolExpr.out, Wrap.outBool, BoolForm.out, Sql.eval,
    Interp.toTruth_ofTruth]

theorem exists_row {rows : List (SqlRow D)} : (!rows.isEmpty) = true ↔ ∃ row ∈ rows, True := by
  simp [List.eq_nil_iff_forall_not_mem]

theorem eval_newExists_yes (q : Subquery) (env : Env D) :
    I.toTruth ((BoolExpr.newExists q).out.eval I env) = .yes ↔
      ∃ row ∈ q.out.rows I env, True := by
  rw [eval_newExists, Truth.ofBool_eq_yes, exists_row]

theorem not_exists_yes (q : Subquery) (env : Env D) :
    I.toTruth ((BoolExpr.newNot (.newExists q)).out.eval I env) = .yes ↔
      ¬I.toTruth ((BoolExpr.newExists q).out.eval I env) = .yes := by
  rw [eval_newNot, Interp.toTruth_ofTruth, eval_newExists]
  cases (q.out.rows I env).isEmpty <;> simp [Truth.ofBool, Truth.not]

/-- The right operand with the predicate in front, at a row of the left one. -/
theorem spliced_rows {l r : QuerySpec} {p : BoolExpr} (hap : l.Apart I r) (hr : r.Flat I)
    (hp : intersectPredicate l.selectList.valueExprs r.selectList.valueExprs = some p)
    (hlen : l.selectList.valueExprs.length = r.selectList.valueExprs.length) {env e : Env D}
    (he : e ∈ l.found I env) :
    (∃ row ∈ (r.withSearch (.newTerm false p r.search)).out.rows I e, True) ↔
      ∃ row ∈ r.out.rows I env, I.sameRow (l.list I e) row = true := by
  obtain ⟨⟨rowA, -, rfl⟩, -⟩ := QuerySpec.mem_found.1 he
  have hoff := env.bind_off (l.columns I) rowA
  rw [(hr.withSearch).exists_rows (fun _ _ _ h => h),
    hr.exists_rows (fun a b hab ha => I.sameRow_trans ha hab), QuerySpec.found_and]
  simp only [List.mem_filter, decide_eq_true_eq, and_true, intersectPredicate_yes hp hlen,
    QuerySpec.mem_found, hap.tables _ _ hoff]
  constructor
  · rintro ⟨e, ⟨⟨rowB, hB, rfl⟩, hholds⟩, hsame⟩
    have hin := hoff.bind (r.columns I) rowB
    refine ⟨_, ⟨⟨rowB, hB, rfl⟩, ?_⟩, ?_⟩
    · rwa [QuerySpec.holds, ← hap.search _ _ hin]
    · rw [← hap.list _ _ hin]
      rwa [← QuerySpec.list, ← QuerySpec.list,
        hap.list_left _ _ (Env.bind_off (r.columns I) rowB _)] at hsame
  · rintro ⟨e, ⟨⟨rowB, hB, rfl⟩, hholds⟩, hsame⟩
    have hin := hoff.bind (r.columns I) rowB
    refine ⟨_, ⟨⟨rowB, hB, rfl⟩, ?_⟩, ?_⟩
    · rwa [QuerySpec.holds, hap.search _ _ hin]
    · rw [← QuerySpec.list, ← QuerySpec.list, hap.list _ _ hin,
        hap.list_left _ _ (Env.bind_off (r.columns I) rowB _)]
      exact hsame

/-- The rows of an intersection, up to sameness. -/
theorem Interp.exists_intersect {p : SqlRow D → Prop}
    (hp : ∀ a b, I.sameRow a b = true → p a → p b) (l r : List (SqlRow D)) :
    (∃ row ∈ I.compound .intersect l r, p row) ↔
      ∃ a ∈ l, (∃ b ∈ r, I.sameRow a b = true) ∧ p a := by
  rw [compound, Bag.exists_distinct I.sameRow_equivalence hp]
  simp [Bag.matched, and_assoc]

theorem Interp.exists_except {p : SqlRow D → Prop}
    (hp : ∀ a b, I.sameRow a b = true → p a → p b) (l r : List (SqlRow D)) :
    (∃ row ∈ I.compound .except l r, p row) ↔
      ∃ a ∈ l, (¬∃ b ∈ r, I.sameRow a b = true) ∧ p a := by
  rw [compound, Bag.exists_distinct I.sameRow_equivalence hp]
  simp [Bag.unmatched, and_assoc]

variable (I) in
/-- What the operands must satisfy where a condition goes into them. -/
def QuerySpec.Spliceable (l : QuerySpec) (type : CompoundType) (r : QuerySpec) : Prop :=
  (l.keeps || r.keeps || !type.splices) = false → l.Flat I ∧ r.Flat I ∧ l.Apart I r

/-- A union whose operands stay has the rows that it had. -/
theorem unionTransform_kept {l r : QuerySpec} {type : CompoundType} {w : Wrap Subquery}
    {u : Subquery} (h : unionTransform l type r w = some u) (hl : l.withoutOrder = l)
    (hr : r.withoutOrder = r) (hk : (l.keeps || r.keeps || !type.splices) = true) (env : Env D) :
    u.out.rows I env = I.compound type (l.out.rows I env) (r.out.rows I env) := by
  unfold unionTransform at h
  by_cases hw : w.isTransformed = true
  · rw [if_pos hw] at h
    cases h
  · rw [if_neg hw, if_pos hk] at h
    cases h
    rw [Subquery.out, Subquery.newUnion, Subquery.out, SqlQuery.rows, hl, hr]

/-- A transformed union has the rows of the union, up to sameness. -/
theorem unionTransform_exists {l r : QuerySpec} {type : CompoundType} {w : Wrap Subquery}
    {u : Subquery} (h : unionTransform l type r w = some u) (hl : l.withoutOrder = l)
    (hr : r.withoutOrder = r)
    (hlen : l.selectList.valueExprs.length = r.selectList.valueExprs.length)
    (hs : l.Spliceable I type r) (env : Env D) {p : SqlRow D → Prop}
    (hp : ∀ a b, I.sameRow a b = true → p a → p b) :
    (∃ row ∈ u.out.rows I env, p row) ↔
      ∃ row ∈ I.compound type (l.out.rows I env) (r.out.rows I env), p row := by
  by_cases hk : (l.keeps || r.keeps || !type.splices) = true
  · rw [unionTransform_kept h hl hr hk]
  obtain ⟨hfl, hfr, hap⟩ := hs (by simpa using hk)
  unfold unionTransform at h
  by_cases hw : w.isTransformed = true
  · rw [if_pos hw] at h
    cases h
  rw [if_neg hw, if_neg hk] at h
  simp only [Option.bind_eq_bind, Option.bind_eq_some_iff, Option.some.injEq] at h
  obtain ⟨pred, hpred, rfl⟩ := h
  rw [Subquery.out, Subquery.out, (hfl.withSearch).exists_rows hp, QuerySpec.found_and,
    QuerySpec.list_withSearch]
  simp only [List.mem_filter, decide_eq_true_eq]
  have hsplice : ∀ e ∈ l.found I env, (I.toTruth ((BoolExpr.newExists (.spec (r.withSearch
      (.newTerm false pred r.search)))).out.eval I e) = .yes ↔
        ∃ row ∈ r.out.rows I env, I.sameRow (l.list I e) row = true) := by
    intro e he
    rw [eval_newExists_yes, Subquery.out, spliced_rows hap hfr hpred hlen he]
  cases type with
  | intersect =>
    rw [I.exists_intersect hp, hfl.exists_rows fun a b hab ha => ?_]
    · refine exists_congr fun e => ?_
      rw [and_assoc]
      exact and_congr_right fun he => by rw [if_pos rfl, hsplice e he]
    · obtain ⟨⟨row, hrow, hsame⟩, hpa⟩ := ha
      exact ⟨⟨row, hrow, I.sameRow_trans (I.sameRow_symm hab) hsame⟩, hp a b hab hpa⟩
  | except =>
    rw [I.exists_except hp, hfl.exists_rows fun a b hab ha => ?_]
    · refine exists_congr fun e => ?_
      rw [and_assoc]
      exact and_congr_right fun he => by rw [if_neg (by simp), ← hsplice e he, not_exists_yes]
    · refine ⟨?_, hp a b hab ha.2⟩
      rintro ⟨row, hrow, hsame⟩
      exact ha.1 ⟨row, hrow, I.sameRow_trans hab hsame⟩
  | union | unionDistinct | unionAll | intersectAll | exceptAll =>
    simp [CompoundType.splices] at hk

/-! ### The expression of an `in_query` -/

theorem eval_newIn (l : ValueExpr) (q : Subquery) (env : Env D) :
    (BoolExpr.newIn l q).out.eval I env =
      I.ofTruth (I.member (l.out.eval I env) (q.out.rows I env)) := by
  simp only [BoolExpr.newIn, BoolExpr.out, Wrap.outBool, BoolForm.out, Sql.eval,
    Bool.false_eq_true, if_false, Interp.member]

/-- A membership that is known is the existence of a match; otherwise NULL is. -/
theorem inQueryCase_eval {l : ValueExpr} {q new : Subquery} {env : Env D}
    (h : (∃ row ∈ new.out.rows I env, True) ↔
      I.member (l.out.eval I env) (q.out.rows I env) = .yes) :
    (ValueExpr.newCase (.newNull (.bool (.newIn l q)) false) (.bool (.newExists new))
        (.bool (.newConst none))).out.eval I env =
      I.ofTruth (I.member (l.out.eval I env) (q.out.rows I env)) := by
  rw [eval_newCase, eval_newNull, ValueExpr.out, ValueExpr.out, ValueExpr.out, eval_newIn,
    eval_newConst, Sql.eval, Interp.toTruth_ofTruth]
  rw [← eval_newExists_yes] at h
  have hvalue : (BoolExpr.newExists new).out.eval I env =
      I.ofTruth (I.toTruth ((BoolExpr.newExists new).out.eval I env)) :=
    (Sql.eval_condition rfl env).symm
  have hknown : I.toTruth ((BoolExpr.newExists new).out.eval I env) ≠ .unknown := by
    rw [eval_newExists]
    cases (new.out.rows I env).isEmpty <;> simp [Truth.ofBool]
  rw [hvalue]
  generalize I.toTruth ((BoolExpr.newExists new).out.eval I env) = found at h hknown
  generalize I.member (l.out.eval I env) (q.out.rows I env) = member at h
  cases member <;> cases found <;> simp [Interp.ofTruth, Truth.ofBool] at h hknown ⊢

variable (I) in
/-- What an `in_query` needs of its subquery: no groups, limits and window functions, and
none of its columns in the left operand. -/
def Subquery.Matchable (l : ValueExpr) : Subquery → Prop
  | .spec q => q.Flat I ∧ Blind (q.columns I) (l.out.eval I)
  | .union lhs type rhs _ => (lhs.Flat I ∧ Blind (lhs.columns I) (l.out.eval I)) ∧
    (rhs.Flat I ∧ Blind (rhs.columns I) (l.out.eval I)) ∧ lhs.Spliceable I type rhs

theorem withMatch_keeps {l : ValueExpr} {q new : QuerySpec} (h : q.withMatch l = some new) :
    new.keeps = q.keeps := by
  obtain ⟨_, -, rfl⟩ := QuerySpec.withMatch_eq h
  exact QuerySpec.withSearch_keeps

theorem withMatch_apart {l : ValueExpr} {lhs rhs lm rm : QuerySpec}
    (hlm : lhs.withMatch l = some lm) (hrm : rhs.withMatch l = some rm)
    (hl : Blind (lhs.columns I) (l.out.eval I)) (h : lhs.Apart I rhs) : lm.Apart I rm := by
  obtain ⟨_, -, rfl⟩ := QuerySpec.withMatch_eq hlm
  obtain ⟨selected, hlast, rfl⟩ := QuerySpec.withMatch_eq hrm
  refine ⟨by simpa using h.tables, ?_, by simpa using h.list, by simpa using h.list_left⟩
  intro a b hab
  rw [QuerySpec.columns_withSearch] at hab
  have hselected : selected.out.eval I a = selected.out.eval I b := by
    rw [← QuerySpec.value_list hlast, h.list a b hab, QuerySpec.value_list hlast]
  rw [QuerySpec.search_withSearch, eval_newAnd, eval_newAnd, eval_newComparison,
    eval_newComparison, hl a b hab, hselected, h.search a b hab]

theorem withMatch_withoutOrder {l : ValueExpr} {q new : QuerySpec}
    (h : q.withMatch l = some new) (hq : q.withoutOrder = q) : new.withoutOrder = new := by
  obtain ⟨_, -, rfl⟩ := QuerySpec.withMatch_eq h
  cases q
  simp only [QuerySpec.withoutOrder, QuerySpec.mk.injEq] at hq
  obtain ⟨-, -, -, -, -, -, -, rfl, rfl⟩ := hq
  rfl

/-- A union that is not transformed, as its constructor leaves it. -/
def Subquery.Paired : Subquery → Prop
  | .spec _ => True
  | .union lhs _ rhs w => w.isTransformed = false ∧ lhs.withoutOrder = lhs ∧
    rhs.withoutOrder = rhs ∧
    lhs.selectList.valueExprs.length = rhs.selectList.valueExprs.length

theorem out_union {lhs rhs : QuerySpec} {type : CompoundType} {w : Wrap Subquery}
    (h : w.isTransformed = false) :
    (Subquery.union lhs type rhs w).out = .compound lhs.out type rhs.out := by
  cases w with
  | fresh | cached eq => simp only [Subquery.out]
  | transformed eq => exact absurd h (by simp [Wrap.isTransformed])

/-- The query with the matches in it has rows exactly when one row matches. -/
theorem Subquery.withMatch_exists {l : ValueExpr} {q new : Subquery}
    (h : q.withMatch l = some new) (hs : q.Paired) (hq : q.Matchable I l) (env : Env D) :
    (∃ row ∈ new.out.rows I env, True) ↔
      I.member (l.out.eval I env) (q.out.rows I env) = .yes := by
  have hclass : ∀ a b, I.sameRow a b = true → I.matches (l.out.eval I env) a = true →
      I.matches (l.out.eval I env) b = true := fun a b hab ha => I.matches_same _ hab ▸ ha
  cases q with
  | spec q =>
    obtain ⟨hflat, hblind⟩ := hq
    rw [Subquery.withMatch] at h
    simp only [Option.bind_eq_bind, Option.bind_eq_some_iff, Option.some.injEq] at h
    obtain ⟨q', hq', rfl⟩ := h
    have hflat' : q'.Flat I := by
      obtain ⟨_, -, rfl⟩ := QuerySpec.withMatch_eq hq'
      exact hflat.withSearch
    rw [Subquery.out, Subquery.out, I.member_eq_yes, hflat.exists_rows hclass,
      hflat'.exists_rows fun _ _ _ h => h, QuerySpec.withMatch_found hq' hblind]
    simp only [List.mem_filter, and_true]
  | union lhs type rhs w =>
    obtain ⟨⟨hflatL, hblindL⟩, ⟨hflatR, hblindR⟩, hsplice⟩ := hq
    obtain ⟨hw, hol, hor, hlen⟩ := hs
    rw [Subquery.withMatch] at h
    simp only [Option.bind_eq_bind, Option.bind_eq_some_iff] at h
    obtain ⟨lm, hlm, rm, hrm, h⟩ := h
    have hol' := withMatch_withoutOrder hlm hol
    have hor' := withMatch_withoutOrder hrm hor
    rw [hol', hor'] at h
    have hlen' : lm.selectList.valueExprs.length = rm.selectList.valueExprs.length := by
      obtain ⟨_, -, rfl⟩ := QuerySpec.withMatch_eq hlm
      obtain ⟨_, -, rfl⟩ := QuerySpec.withMatch_eq hrm
      simpa using hlen
    have hsplice' : lm.Spliceable I type rm := by
      intro hk
      rw [withMatch_keeps hlm, withMatch_keeps hrm] at hk
      refine ⟨?_, ?_, withMatch_apart hlm hrm hblindL (hsplice hk).2.2⟩
      · obtain ⟨_, -, rfl⟩ := QuerySpec.withMatch_eq hlm
        exact hflatL.withSearch
      · obtain ⟨_, -, rfl⟩ := QuerySpec.withMatch_eq hrm
        exact hflatR.withSearch
    rw [unionTransform_exists h hol' hor' hlen' hsplice' env fun _ _ _ h => h,
      QuerySpec.withMatch_rows hlm hblindL hflatL hol,
      QuerySpec.withMatch_rows hrm hblindR hflatR hor,
      ← I.filter_compound (fun _ _ => I.matches_same _), I.member_eq_yes, out_union hw, SqlQuery.rows]
    simp only [List.mem_filter, and_true]

/-- The expression of an `in_query` has the truth value of the membership. -/
theorem inQueryEq_eval {l eq : ValueExpr} {q : Subquery} (h : inQueryEq l q = some eq)
    (hs : q.Paired) (hq : q.Matchable I l) (env : Env D) :
    eq.out.eval I env = I.ofTruth (I.member (l.out.eval I env) (q.out.rows I env)) := by
  simp only [inQueryEq, Option.bind_eq_bind, Option.bind_eq_some_iff, Option.some.injEq] at h
  obtain ⟨new, hnew, rfl⟩ := h
  exact inQueryCase_eval (Subquery.withMatch_exists hnew hs hq env)

end DbFuzz.Expr
