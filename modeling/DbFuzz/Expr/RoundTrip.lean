import DbFuzz.Expr.Restore

/-! The transform of a settled tree is defined, and its way back leads to the tree. -/

namespace DbFuzz.Expr

/-- `t` is defined on `x`, and `b` leads from there to a settled tree with the same nodes. -/
def ComesBack {α : Type} (t b : α → Option α) (settled : α → Prop) (bare : α → α) (x : α) :
    Prop :=
  ∃ y, t x = some y ∧ ∃ z, b y = some z ∧ settled z ∧ bare z = bare x

namespace ComesBack

variable {α β γ : Type} {x : α} {u : β} {t b : α → Option α} {settled : α → Prop} {bare : α → α}
  {t' b' : β → Option β} {settled' : β → Prop} {bare' : β → β} {T B : γ → Option γ}
  {Settled : γ → Prop} {Bare : γ → γ}

/-- A node with one operand. -/
theorem one (h : ComesBack t b settled bare x) (c : α → γ)
    (ht : ∀ y, t x = some y → T (c x) = some (c y))
    (hb : ∀ y z, b y = some z → B (c y) = some (c z)) (hs : ∀ z, settled z → Settled (c z))
    (hbare : ∀ z, Bare (c z) = c (bare z)) : ComesBack T B Settled Bare (c x) := by
  obtain ⟨y, hy, z, hz, hsettled, he⟩ := h
  exact ⟨c y, ht y hy, c z, hb y z hz, hs z hsettled, by rw [hbare, hbare, he]⟩

/-- A node with two operands. -/
theorem two (h : ComesBack t b settled bare x) (h' : ComesBack t' b' settled' bare' u)
    (c : α → β → γ) (ht : ∀ y v, t x = some y → t' u = some v → T (c x u) = some (c y v))
    (hb : ∀ y z v w, b y = some z → b' v = some w → B (c y v) = some (c z w))
    (hs : ∀ z w, settled z → settled' w → Settled (c z w))
    (hbare : ∀ z w, Bare (c z w) = c (bare z) (bare' w)) :
    ComesBack T B Settled Bare (c x u) := by
  obtain ⟨y, hy, z, hz, hsettled, he⟩ := h
  obtain ⟨v, hv, w, hw, hsettled', he'⟩ := h'
  exact ⟨c y v, ht y v hy hv, c z w, hb y z v w hz hw, hs z w hsettled hsettled',
    by rw [hbare, hbare, he, he']⟩

/-- Any number of rounds. -/
theorem rounds {δ : Type} {t : δ → α → Option α} (h : ∀ x, settled x → ∀ d,
      ComesBack (t d) b settled bare x) (ds : List δ) (hx : settled x) :
    ∃ z, ds.foldlM (fun x d => (t d x).bind b) x = some z ∧ settled z ∧ bare z = bare x := by
  induction ds generalizing x with
  | nil => exact ⟨x, rfl, hx, rfl⟩
  | cons d ds ih =>
    obtain ⟨y, hy, z, hz, hs, hbare⟩ := h x hx d
    obtain ⟨z', hz', hs', hbare'⟩ := ih hs
    exact ⟨z', by simp [hy, hz, hz'], hs', hbare'.trans hbare⟩

end ComesBack

/-! Queries as their select list and search condition. -/

namespace QuerySpec

def withParts (es : List ValueExpr) (search : BoolExpr) : QuerySpec → QuerySpec
  | mk options quantifier (.mk columns names _) from_ _ group window order limit =>
    mk options quantifier (.mk columns names es) from_ search group window order limit

variable {q : QuerySpec} {es : List ValueExpr} {search : BoolExpr}

@[simp] theorem withParts_valueExprs : (q.withParts es search).selectList.valueExprs = es := by
  obtain ⟨_, _, ⟨⟩, _, _, _, _, _, _⟩ := q
  rfl

@[simp] theorem withParts_keeps : (q.withParts es search).keeps = q.keeps := by
  obtain ⟨_, _, ⟨⟩, _, _, _, _, _, _⟩ := q
  rfl

@[simp] theorem withSearch_keeps : (q.withSearch search).keeps = q.keeps := by
  obtain ⟨_, _, ⟨⟩, _, _, _, _, _, _⟩ := q
  rfl

@[simp] theorem withSearch_valueExprs :
    (q.withSearch search).selectList.valueExprs = q.selectList.valueExprs := by
  obtain ⟨_, _, ⟨⟩, _, _, _, _, _, _⟩ := q
  rfl

@[simp] theorem withoutOrder_valueExprs :
    q.withoutOrder.selectList.valueExprs = q.selectList.valueExprs := by
  obtain ⟨_, _, ⟨⟩, _, _, _, _, _, _⟩ := q
  rfl

theorem withParts_withoutOrder (h : q.withoutOrder = q) :
    (q.withParts es search).withoutOrder = q.withParts es search := by
  obtain ⟨_, _, ⟨⟩, _, _, _, _, _, _⟩ := q
  simp only [withoutOrder, mk.injEq] at h
  obtain ⟨-, -, -, -, -, -, -, rfl, rfl⟩ := h
  rfl

theorem withSearch_withSearch (a b : BoolExpr) : (q.withSearch a).withSearch b = q.withSearch b := by
  obtain ⟨_, _, ⟨⟩, _, _, _, _, _, _⟩ := q
  rfl

theorem withSearch_self : q.withSearch q.search = q := by
  obtain ⟨_, _, ⟨⟩, _, _, _, _, _, _⟩ := q
  rfl

theorem search_withSearch (a : BoolExpr) : (q.withSearch a).search = a := by
  obtain ⟨_, _, ⟨⟩, _, _, _, _, _, _⟩ := q
  rfl

/-- A condition put in front of the search condition does not count on the way back. -/
theorem backParts_splices (s : Schema) (list : Bool) (p : BoolExpr) :
    (q.withSearch (.newTerm false p q.search)).backParts s list true = q.backParts s list false := by
  obtain ⟨_, _, ⟨⟩, _, _, _, _, _, _⟩ := q
  simp [withSearch, search, backParts, BoolExpr.newTerm, BoolExpr.backRight]

theorem backParts_withParts {s : Schema} {list : Bool} {es' : List ValueExpr} {search' : BoolExpr}
    (hes : (if list then backList s es else some es) = some es')
    (hsearch : search.back s = some search') :
    (q.withParts es search).backParts s list false = some (q.withParts es' search') := by
  obtain ⟨_, _, ⟨⟩, _, _, _, _, _, _⟩ := q
  cases list with
  | true | false =>
    simp only [if_true, Bool.false_eq_true, if_false] at hes
    simp [withParts, backParts, hes, hsearch]

end QuerySpec

/-! Unions. -/

theorem intersectPredicateFrom_defined {as bs : List ValueExpr} (h : as.length = bs.length)
    (p : BoolExpr) : ∃ p', intersectPredicateFrom p as bs = some p' := by
  induction as generalizing bs p with
  | nil => exact ⟨p, by simp only [intersectPredicateFrom]⟩
  | cons a as ih =>
    cases bs with
    | nil => simp at h
    | cons b bs => exact ih (by simpa using h) _

theorem intersectPredicate_defined {as bs : List ValueExpr} (h : as.length = bs.length)
    (hne : as ≠ []) : ∃ p, intersectPredicate as bs = some p := by
  cases as with
  | nil => exact absurd rfl hne
  | cons a as =>
    cases bs with
    | nil => simp at h
    | cons b bs => exact intersectPredicateFrom_defined (by simpa using h) _

/-- A union of two operands with as many columns is transformed: either its operands stay,
or a condition is put in front of each search condition. -/
theorem unionTransform_cases {l r : QuerySpec} {w : Wrap Subquery} (type : CompoundType)
    (hw : w.isTransformed = false) (hl : l.withoutOrder = l) (hr : r.withoutOrder = r)
    (hlen : l.selectList.valueExprs.length = r.selectList.valueExprs.length)
    (hne : l.selectList.valueExprs ≠ []) :
    ∃ l' r' eq, unionTransform l type r w = some (.union l' type r' (.transformed eq)) ∧
      ((l.keeps || r.keeps || !type.splices) = true ∧ l' = l ∧ r' = r ∨
        (l.keeps || r.keeps || !type.splices) = false ∧
          ∃ a b, l' = l.withSearch (.newTerm false a l.search) ∧
            r' = r.withSearch (.newTerm false b r.search)) := by
  unfold unionTransform
  rw [if_neg (by simp [hw])]
  by_cases hk : (l.keeps || r.keeps || !type.splices) = true
  · rw [if_pos hk, hl, hr]
    exact ⟨l, r, _, rfl, Or.inl ⟨hk, rfl, rfl⟩⟩
  · rw [if_neg hk]
    obtain ⟨p, hp⟩ := intersectPredicate_defined hlen hne
    rw [hp]
    exact ⟨_, _, _, rfl, Or.inr ⟨by simpa using hk, _, _, rfl, rfl⟩⟩

/-- The way back of a transformed union. -/
theorem unionTransform_back {l r : QuerySpec} {w : Wrap Subquery} (type : CompoundType)
    (hw : w.isTransformed = false) (hl : l.withoutOrder = l) (hr : r.withoutOrder = r)
    (hlen : l.selectList.valueExprs.length = r.selectList.valueExprs.length)
    (hne : l.selectList.valueExprs ≠ []) :
    ∃ l' r' eq, unionTransform l type r w = some (.union l' type r' (.transformed eq)) ∧
      unionBack l' type r' (.transformed eq) = some (.union l type r (.cached eq)) := by
  obtain ⟨l', r', eq, h, ⟨hk, rfl, rfl⟩ | ⟨hk, a, b, rfl, rfl⟩⟩ :=
    unionTransform_cases type hw hl hr hlen hne
  · refine ⟨l', r', eq, h, ?_⟩
    unfold unionBack
    rw [Wrap.unmark, Option.bind_eq_bind, Option.bind_some, if_pos hk]
  · refine ⟨_, _, eq, h, ?_⟩
    unfold unionBack
    simp only [QuerySpec.withSearch_keeps]
    rw [Wrap.unmark, Option.bind_eq_bind, Option.bind_some, if_neg (by simp [hk])]
    simp [QuerySpec.search_withSearch, BoolExpr.newTerm, BoolExpr.rightOperand,
      QuerySpec.withSearch_withSearch, QuerySpec.withSearch_self]

/-! The condition of an `in_query`. -/

theorem QuerySpec.withMatch_defined (l : ValueExpr) {q : QuerySpec}
    (hne : q.selectList.valueExprs ≠ []) : ∃ p, q.withMatch l = some (q.withSearch p) := by
  unfold withMatch
  rw [List.getLast?_eq_getLast_of_ne_nil hne]
  exact ⟨_, rfl⟩

theorem inQueryEq_spec (l : ValueExpr) {q : QuerySpec} (hne : q.selectList.valueExprs ≠ []) :
    ∃ eq, inQueryEq l (.spec q) = some eq := by
  obtain ⟨p, hp⟩ := q.withMatch_defined l hne
  unfold inQueryEq
  rw [Subquery.withMatch, hp]
  exact ⟨_, rfl⟩

theorem inQueryEq_union (l : ValueExpr) {lhs rhs : QuerySpec} (type : CompoundType)
    (w : Wrap Subquery)
    (hlen : lhs.selectList.valueExprs.length = rhs.selectList.valueExprs.length)
    (hne : lhs.selectList.valueExprs ≠ []) :
    ∃ eq u, inQueryEq l (.union lhs type rhs w) = some eq ∧
      inQueryUnionBack (.transformed eq) = some u := by
  have hne' : rhs.selectList.valueExprs ≠ [] := by
    rw [← List.length_pos_iff, ← hlen, List.length_pos_iff]
    exact hne
  obtain ⟨p, hp⟩ := lhs.withMatch_defined l hne
  obtain ⟨p', hp'⟩ := rhs.withMatch_defined l hne'
  have hidem : ∀ q : QuerySpec, q.withoutOrder.withoutOrder = q.withoutOrder := fun q => by
    obtain ⟨_, _, _, _, _, _, _, _, _⟩ := q
    rfl
  obtain ⟨l', r', eq, ht, hb⟩ := unionTransform_back (l := (lhs.withSearch p).withoutOrder)
    (r := (rhs.withSearch p').withoutOrder) (w := .fresh) type rfl (hidem _) (hidem _)
    (by simpa using hlen) (by simpa using hne)
  unfold inQueryEq
  rw [Subquery.withMatch, hp, hp']
  simp only [Option.bind_eq_bind, Option.bind_some, ht]
  exact ⟨_, _, rfl, hb⟩

/-! The expression classes. -/

variable {s : Schema}

theorem bareList_length {es es' : List ValueExpr} (h : bareList es' = bareList es) :
    es'.length = es.length := by
  induction es generalizing es' with
  | nil =>
    cases es' with
    | nil => rfl
    | cons e es' => simp [bareList] at h
  | cons e es ih =>
    cases es' with
    | nil => simp [bareList] at h
    | cons e' es' =>
      simp only [bareList, List.cons.injEq] at h
      simp [ih h.2]

theorem transformList_length {ρ : Choices} {i : ℕ} {es es' : List ValueExpr}
    (h : transformList s ρ i es = some es') : es'.length = es.length := by
  induction es generalizing i es' with
  | nil =>
    simp only [transformList, Option.some.injEq] at h
    rw [← h]
  | cons e es ih =>
    simp only [transformList, Option.bind_eq_bind, Option.bind_eq_some_iff,
      Option.some.injEq] at h
    obtain ⟨e', -, es'', hes, rfl⟩ := h
    simp [ih hes]

theorem BoolForm.back_exists_kept {q : QuerySpec} (hk : q.keeps = true)
    (saved : Option SelectList) (w : Wrap BoolExpr) :
    (BoolForm.existsPredicate (.spec q) saved w).back s =
      (q.backParts s (s.targetDbms ≠ .clickhouse) false).bind fun q =>
        some (.existsPredicate (.spec q) saved w.release) := by
  obtain ⟨_, _, ⟨⟩, _, _, group, window, _, _⟩ := q
  cases group with
  | some g => simp [BoolForm.back]
  | none =>
    cases window with
    | some v => simp [BoolForm.back]
    | none => simp [QuerySpec.keeps, QuerySpec.group, QuerySpec.window] at hk

theorem BoolForm.back_exists_moved {q : QuerySpec} (hk : q.keeps = false)
    {es es' : List ValueExpr} {search search' : BoolExpr} {w : Wrap BoolExpr}
    (hes : (if decide (s.targetDbms ≠ .clickhouse) then backList s es else some es) = some es')
    (hsearch : search.back s = some search') :
    (BoolForm.existsPredicate (.spec (((q.withParts es search).withSearch
      (.newConst (some true))).withSelectList (q.withParts es search).selectingSearch))
      (some (q.withParts es search).selectList) w).back s =
        some (.existsPredicate (.spec (q.withParts es' search')) none w.release) := by
  obtain ⟨_, _, ⟨⟩, _, _, group, window, _, _⟩ := q
  simp only [QuerySpec.keeps, QuerySpec.group, QuerySpec.window, Bool.or_eq_false_iff,
    Option.isSome_eq_false_iff, Option.isNone_iff_eq_none] at hk
  obtain ⟨rfl, rfl⟩ := hk
  by_cases hch : s.targetDbms = .clickhouse
  · simp only [hch, ne_eq, not_true_eq_false, decide_false, Bool.false_eq_true, if_false,
      Option.some.injEq] at hes
    simp [QuerySpec.withParts, QuerySpec.withSearch, QuerySpec.withSelectList,
      QuerySpec.selectingSearch, QuerySpec.selectList, QuerySpec.search, BoolForm.back, hch,
      ValueExpr.newCase, backSearch, hsearch, hes]
  · simp only [hch, ne_eq, not_false_eq_true, decide_true, if_true] at hes
    simp [QuerySpec.withParts, QuerySpec.withSearch, QuerySpec.withSelectList,
      QuerySpec.selectingSearch, QuerySpec.selectList, QuerySpec.search, BoolForm.back, hch,
      ValueExpr.newCase, backSearch, hsearch, hes]

mutual

theorem ValueExpr.comesBack : ∀ (e : ValueExpr) (ρ : Choices), e.Settled →
    ComesBack (ValueExpr.transform s ρ) (ValueExpr.back s) ValueExpr.Settled ValueExpr.bare e
  | .node w form, ρ, h => by
    rw [ValueExpr.Settled] at h
    obtain ⟨eq, hmark, hstored⟩ := h.1.mark ⟨ρ [], rfl⟩
    obtain ⟨form', ht, form'', hb, hs, hbare⟩ := form.comesBack ρ h.2
    -- the stored expression may hold the printed text
    have hout : form''.out = form.out := by
      rw [← form''.out_bare hs, hbare, form.out_bare h.2]
    refine ⟨.node (.transformed eq) form', by simp [ValueExpr.transform, hmark, ht],
      .node (.cached eq) form'', by simp [ValueExpr.back, hb, Wrap.unmark], ?_,
      by simp only [ValueExpr.bare, hbare]⟩
    rw [ValueExpr.Settled, hout]
    exact ⟨hstored, hs⟩
  | .plain w text, ρ, h => by
    rw [ValueExpr.Settled] at h
    obtain ⟨eq, hmark, hstored⟩ := h.mark ⟨ρ [], rfl⟩
    refine ⟨.plain (.transformed eq) text, by simp [ValueExpr.transform, hmark],
      .plain (.cached eq) text, by simp [ValueExpr.back, Wrap.unmark], ?_,
      by simp only [ValueExpr.bare]⟩
    rw [ValueExpr.Settled]
    exact hstored
  | .bool e, ρ, h => by
    rw [ValueExpr.Settled] at h
    refine (e.comesBack ρ h).one ValueExpr.bool (fun y hy => ?_) (fun y z hz => ?_) (fun z hz => ?_)
      fun z => ?_
    · simp [ValueExpr.transform, hy]
    · simp [ValueExpr.back, hz]
    · simpa only [ValueExpr.Settled] using hz
    · simp only [ValueExpr.bare]

theorem ValueForm.comesBack : ∀ (form : ValueForm) (ρ : Choices), form.Settled →
    ComesBack (ValueForm.transform s ρ) (ValueForm.back s) ValueForm.Settled ValueForm.bare form
  | .columnReference _ _, ρ, h | .constExpr _, ρ, h | .kept _, ρ, h => by
    refine ⟨_, by rw [ValueForm.transform], _, by rw [ValueForm.back], h, rfl⟩
  | .caseExpr c t f, ρ, h => by
    rw [ValueForm.Settled] at h
    obtain ⟨c', htc, c'', hbc, hsc, hc⟩ := c.comesBack (ρ.sub 0) h.1
    obtain ⟨t', htt, t'', hbt, hst, ht⟩ := t.comesBack (ρ.sub 1) h.2.1
    obtain ⟨f', htf, f'', hbf, hsf, hf⟩ := f.comesBack (ρ.sub 2) h.2.2
    refine ⟨.caseExpr c' t' f', by simp [ValueForm.transform, htc, htt, htf],
      .caseExpr c'' t'' f'', by simp [ValueForm.back, hbc, hbt, hbf], ?_,
      by simp only [ValueForm.bare, hc, ht, hf]⟩
    rw [ValueForm.Settled]
    exact ⟨hsc, hst, hsf⟩
  | .coalesce abbrev_ es, ρ, h => by
    rw [ValueForm.Settled] at h
    refine (listComesBack es ρ 0 h).one (ValueForm.coalesce abbrev_) (fun y hy => ?_) (fun y z hz => ?_)
      (fun z hz => ?_) fun z => ?_
    · simp [ValueForm.transform, hy]
    · simp [ValueForm.back, hz]
    · simpa only [ValueForm.Settled] using hz
    · simp only [ValueForm.bare]
  | .binopExpr oper l r, ρ, h => by
    rw [ValueForm.Settled] at h
    refine (l.comesBack (ρ.sub 0) h.1).two (r.comesBack (ρ.sub 1) h.2) (ValueForm.binopExpr oper)
      (fun y v hy hv => ?_) (fun y z v w hz hw => ?_) (fun z w hz hw => ?_) fun z w => ?_
    · simp [ValueForm.transform, hy, hv]
    · simp [ValueForm.back, hz, hw]
    · simpa only [ValueForm.Settled] using ⟨hz, hw⟩
    · simp only [ValueForm.bare]
  | .funcall proc isAggregate es, ρ, h => by
    rw [ValueForm.Settled] at h
    by_cases hch : s.targetDbms = .clickhouse
    · refine ⟨.funcall proc isAggregate es, by simp [ValueForm.transform, hch],
        .funcall proc isAggregate es, by simp [ValueForm.back, hch], ?_, rfl⟩
      rw [ValueForm.Settled]
      exact h
    · refine (listComesBack es ρ 0 h).one (ValueForm.funcall proc isAggregate) (fun y hy => ?_)
        (fun y z hz => ?_) (fun z hz => ?_) fun z => ?_
      · simp [ValueForm.transform, hch, hy]
      · simp [ValueForm.back, hch, hz]
      · simpa only [ValueForm.Settled] using hz
      · simp only [ValueForm.bare]
  | .winFuncall proc es, ρ, h => by
    rw [ValueForm.Settled] at h
    by_cases hch : s.targetDbms = .clickhouse
    · refine ⟨.winFuncall proc es, by simp [ValueForm.transform, hch],
        .winFuncall proc es, by simp [ValueForm.back, hch], ?_, rfl⟩
      rw [ValueForm.Settled]
      exact h
    · refine (listComesBack es ρ 0 h).one (ValueForm.winFuncall proc) (fun y hy => ?_)
        (fun y z hz => ?_) (fun z hz => ?_) fun z => ?_
      · simp [ValueForm.transform, hch, hy]
      · simp [ValueForm.back, hch, hz]
      · simpa only [ValueForm.Settled] using hz
      · simp only [ValueForm.bare]
  | .castExpr useConvert target e, ρ, h => by
    rw [ValueForm.Settled] at h
    refine (e.comesBack (ρ.sub 0) h).one (ValueForm.castExpr useConvert target) (fun y hy => ?_)
      (fun y z hz => ?_) (fun z hz => ?_) fun z => ?_
    · simp [ValueForm.transform, hy]
    · simp [ValueForm.back, hz]
    · simpa only [ValueForm.Settled] using hz
    · simp only [ValueForm.bare]
  | .intervalExpr isAdd unit date amount, ρ, h => by
    rw [ValueForm.Settled] at h
    refine (date.comesBack (ρ.sub 0) h.1).two (amount.comesBack (ρ.sub 1) h.2)
      (ValueForm.intervalExpr isAdd unit) (fun y v hy hv => ?_) (fun y z v w hz hw => ?_)
      (fun z w hz hw => ?_) fun z w => ?_
    · simp [ValueForm.transform, hy, hv]
    · simp [ValueForm.back, hz, hw]
    · simpa only [ValueForm.Settled] using ⟨hz, hw⟩
    · simp only [ValueForm.bare]
  | .mysqlJsonOp op path l, ρ, h => by
    rw [ValueForm.Settled] at h
    refine (l.comesBack (ρ.sub 0) h).one (ValueForm.mysqlJsonOp op path) (fun y hy => ?_)
      (fun y z hz => ?_) (fun z hz => ?_) fun z => ?_
    · simp [ValueForm.transform, hy]
    · simp [ValueForm.back, hz]
    · simpa only [ValueForm.Settled] using hz
    · simp only [ValueForm.bare]

theorem listComesBack : ∀ (es : List ValueExpr) (ρ : Choices) (i : ℕ), ListSettled es →
    ComesBack (transformList s ρ i) (backList s) ListSettled bareList es
  | [], ρ, i, h => ⟨[], by rw [transformList], [], by rw [backList], h, rfl⟩
  | e :: es, ρ, i, h => by
    rw [ListSettled] at h
    refine (e.comesBack (ρ.sub i) h.1).two (listComesBack es ρ (i + 1) h.2) List.cons
      (fun y v hy hv => ?_) (fun y z v w hz hw => ?_) (fun z w hz hw => ?_) fun z w => ?_
    · simp [transformList, hy, hv]
    · simp [backList, hz, hw]
    · simpa only [ListSettled] using ⟨hz, hw⟩
    · simp only [bareList]

theorem BoolExpr.comesBack : ∀ (e : BoolExpr) (ρ : Choices), e.Settled →
    ComesBack (BoolExpr.transform s ρ) (BoolExpr.back s) BoolExpr.Settled BoolExpr.bare e
  | .node w form, ρ, h => by
    rw [BoolExpr.Settled] at h
    obtain ⟨eq, hmark, hstored⟩ := h.1.mark ⟨ρ [], rfl⟩
    obtain ⟨form', ht, form'', hb, hs, hbare⟩ := form.comesBack ρ h.2
    refine ⟨.node (.transformed eq) form', by simp [BoolExpr.transform, hmark, ht],
      .node (.cached eq) form'', by simp [BoolExpr.back, hb, Wrap.unmark], ?_,
      by simp only [BoolExpr.bare, hbare]⟩
    rw [BoolExpr.Settled]
    exact ⟨hstored, hs⟩
  | .plain w text, ρ, h => by
    rw [BoolExpr.Settled] at h
    obtain ⟨eq, hmark, hstored⟩ := h.mark ⟨ρ [], rfl⟩
    refine ⟨.plain (.transformed eq) text, by simp [BoolExpr.transform, hmark],
      .plain (.cached eq) text, by simp [BoolExpr.back, Wrap.unmark], ?_,
      by simp only [BoolExpr.bare]⟩
    rw [BoolExpr.Settled]
    exact hstored
  | .constBool w op, ρ, h => by
    rw [BoolExpr.Settled] at h
    obtain ⟨eq, hmark, hstored⟩ := h.mark ⟨ρ [], rfl⟩
    refine ⟨.constBool (.transformed eq) op, by simp [BoolExpr.transform, hmark],
      .constBool (.cached eq) op, by simp [BoolExpr.back, Wrap.unmark], ?_,
      by simp only [BoolExpr.bare]⟩
    rw [BoolExpr.Settled]
    exact hstored

theorem BoolForm.comesBack : ∀ (form : BoolForm) (ρ : Choices), form.Settled →
    ComesBack (BoolForm.transform s ρ) (BoolForm.back s) BoolForm.Settled BoolForm.bare form
  | .kept _, ρ, h => ⟨_, by rw [BoolForm.transform], _, by rw [BoolForm.back], h, rfl⟩
  | .comparisonOp oper l r, ρ, h => by
    rw [BoolForm.Settled] at h
    refine (l.comesBack (ρ.sub 0) h.1).two (r.comesBack (ρ.sub 1) h.2) (BoolForm.comparisonOp oper)
      (fun y v hy hv => ?_) (fun y z v w hz hw => ?_) (fun z w hz hw => ?_) fun z w => ?_
    · simp [BoolForm.transform, hy, hv]
    · simp [BoolForm.back, hz, hw]
    · simpa only [BoolForm.Settled] using ⟨hz, hw⟩
    · simp only [BoolForm.bare]
  | .distinctPred l r, ρ, h => by
    rw [BoolForm.Settled] at h
    refine (l.comesBack (ρ.sub 0) h.1).two (r.comesBack (ρ.sub 1) h.2) BoolForm.distinctPred
      (fun y v hy hv => ?_) (fun y z v w hz hw => ?_) (fun z w hz hw => ?_) fun z w => ?_
    · simp [BoolForm.transform, hy, hv]
    · simp [BoolForm.back, hz, hw]
    · simpa only [BoolForm.Settled] using ⟨hz, hw⟩
    · simp only [BoolForm.bare]
  | .notExpr e, ρ, h => by
    rw [BoolForm.Settled] at h
    refine (e.comesBack (ρ.sub 0) h).one BoolForm.notExpr (fun y hy => ?_) (fun y z hz => ?_)
      (fun z hz => ?_) fun z => ?_
    · simp [BoolForm.transform, hy]
    · simp [BoolForm.back, hz]
    · simpa only [BoolForm.Settled] using hz
    · simp only [BoolForm.bare]
  | .nullPredicate isNull e, ρ, h => by
    rw [BoolForm.Settled] at h
    refine (e.comesBack (ρ.sub 0) h).one (BoolForm.nullPredicate isNull) (fun y hy => ?_)
      (fun y z hz => ?_) (fun z hz => ?_) fun z => ?_
    · simp [BoolForm.transform, hy]
    · simp [BoolForm.back, hz]
    · simpa only [BoolForm.Settled] using hz
    · simp only [BoolForm.bare]
  | .likeOp l likeOperator likeFormat, ρ, h => by
    rw [BoolForm.Settled] at h
    refine (l.comesBack (ρ.sub 0) h).one (BoolForm.likeOp · likeOperator likeFormat) (fun y hy => ?_)
      (fun y z hz => ?_) (fun z hz => ?_) fun z => ?_
    · simp [BoolForm.transform, hy]
    · simp [BoolForm.back, hz]
    · simpa only [BoolForm.Settled] using hz
    · simp only [BoolForm.bare]
  | .boolTerm isOr l r equal, ρ, h => by
    rw [BoolForm.Settled] at h
    obtain ⟨rfl, hl, hr⟩ := h
    obtain ⟨l', htl, l'', hbl, hsl, hl⟩ := l.comesBack (ρ.sub 0) hl
    obtain ⟨r', htr, r'', hbr, hsr, hr⟩ := r.comesBack (ρ.sub 1) hr
    have ht : (BoolForm.boolTerm isOr l r none).transform s ρ = some (.boolTerm (!isOr) l' r'
        (some (.newNot (.newTerm (!isOr) (.newNot r') (.newNot l'))))) := by
      simp [BoolForm.transform, htl, htr]
    refine ⟨_, ht, .boolTerm isOr l'' r'' none, ?_, ?_, by simp only [BoolForm.bare, hl, hr]⟩
    · simp [BoolForm.back, BoolExpr.newNot, BoolExpr.newTerm, BoolExpr.backOperands,
        BoolExpr.backInner, hbl, hbr]
    · rw [BoolForm.Settled]
      exact ⟨rfl, hsl, hsr⟩
  | .betweenOp l m r w, ρ, h => by
    rw [BoolForm.Settled] at h
    obtain ⟨l', htl, l'', hbl, hsl, hl⟩ := l.comesBack (ρ.sub 0) h.2.1
    obtain ⟨m', htm, m'', hbm, hsm, hm⟩ := m.comesBack (ρ.sub 1) h.2.2.1
    obtain ⟨r', htr, r'', hbr, hsr, hr⟩ := r.comesBack (ρ.sub 2) h.2.2.2
    have ht : (BoolForm.betweenOp l m r w).transform s ρ =
        some (.betweenOp l' m' r' (betweenTransform s l' m' r' w)) := by
      simp [BoolForm.transform, htl, htm, htr]
    have hw : (betweenTransform s l' m' r' w).release.Idle fun _ => True := by
      unfold betweenTransform
      split_ifs
      · trivial
      · rw [h.1.release]
        exact h.1
    refine ⟨_, ht, .betweenOp l'' m'' r'' (betweenTransform s l' m' r' w).release,
      by simp [BoolForm.back, hbl, hbm, hbr], ?_, by simp only [BoolForm.bare, hl, hm, hr]⟩
    rw [BoolForm.Settled]
    exact ⟨hw, hsl, hsm, hsr⟩
  | .inQuery isNegated l (.spec q) w, ρ, h => by
    rw [BoolForm.Settled, Subquery.Settled] at h
    obtain ⟨hw, hl, hq⟩ := h
    obtain ⟨l', htl, l'', hbl, hsl, hl⟩ := l.comesBack (ρ.sub 0) hl
    obtain ⟨es', search', htq, hne, es'', search'', hes, hsearch, -, hsq, hbare⟩ :=
      q.comesBack (ρ.sub 1) (s.targetDbms ≠ .clickhouse) hq
    obtain ⟨w', ht, hw'⟩ : ∃ w', (BoolForm.inQuery isNegated l (.spec q) w).transform s ρ =
        some (.inQuery isNegated l' (.spec (q.withParts es' search')) w') ∧
          w'.release.Idle fun _ => True := by
      by_cases hch : s.targetDbms = .clickhouse
      · exact ⟨w, by simp_all [BoolForm.transform, Subquery.transformParts],
          by rw [hw.release]; exact hw⟩
      · obtain ⟨eq, heq⟩ := inQueryEq_spec l' (q := q.withParts es' search') (by simpa using hne.1)
        exact ⟨.transformed eq, by simp_all [BoolForm.transform, Subquery.transformParts], trivial⟩
    have hb := QuerySpec.backParts_withParts (q := q) hes hsearch
    refine ⟨_, ht, .inQuery isNegated l'' (.spec (q.withParts es'' search'')) w'.release,
      by simp only [BoolForm.back, hb, hbl, Option.bind_eq_bind, Option.bind_some], ?_,
      by simp only [BoolForm.bare, Subquery.bare, hl, hbare]⟩
    rw [BoolForm.Settled, Subquery.Settled]
    exact ⟨hw', hsl, hsq⟩
  | .inQuery isNegated l (.union lhs type rhs wq) w, ρ, h => by
    rw [BoolForm.Settled, Subquery.Settled] at h
    obtain ⟨hw, hl, hwq, hol, hor, hlen, hlhs, hrhs⟩ := h
    obtain ⟨l', htl, l'', hbl, hsl, hl⟩ := l.comesBack (ρ.sub 0) hl
    obtain ⟨es₁, search₁, ht₁, hne₁, es₁', search₁', hes₁, hsearch₁, hlen₁, hs₁, hb₁⟩ :=
      lhs.comesBack ((ρ.sub 1).sub 0) (s.targetDbms ≠ .clickhouse) hlhs
    obtain ⟨es₂, search₂, ht₂, hne₂, es₂', search₂', hes₂, hsearch₂, hlen₂, hs₂, hb₂⟩ :=
      rhs.comesBack ((ρ.sub 1).sub 1) (s.targetDbms ≠ .clickhouse) hrhs
    obtain ⟨w', ht, hw', hu⟩ : ∃ w', (BoolForm.inQuery isNegated l (.union lhs type rhs wq)
        w).transform s ρ = some (.inQuery isNegated l' (.union (lhs.withParts es₁ search₁) type
          (rhs.withParts es₂ search₂) wq) w') ∧ (w'.release.Idle fun _ => True) ∧
            (s.targetDbms ≠ .clickhouse → ∃ u, inQueryUnionBack w' = some u) := by
      by_cases hch : s.targetDbms = .clickhouse
      · refine ⟨w, by simp_all [BoolForm.transform, Subquery.transformParts], ?_,
          fun hne => absurd hch hne⟩
        rw [hw.release]
        exact hw
      · have hlen' : (lhs.withParts es₁ search₁).selectList.valueExprs.length =
            (rhs.withParts es₂ search₂).selectList.valueExprs.length := by
          simp [hne₁.2, hne₂.2, hlen]
        obtain ⟨eq, u, heq, hu⟩ := inQueryEq_union l' type wq hlen' (by simpa using hne₁.1)
        exact ⟨.transformed eq, by simp_all [BoolForm.transform, Subquery.transformParts], trivial,
          fun _ => ⟨u, hu⟩⟩
    have hback₁ := QuerySpec.backParts_withParts (q := lhs) hes₁ hsearch₁
    have hback₂ := QuerySpec.backParts_withParts (q := rhs) hes₂ hsearch₂
    refine ⟨_, ht, .inQuery isNegated l'' (.union (lhs.withParts es₁' search₁') type
      (rhs.withParts es₂' search₂') wq) w'.release, ?_, ?_,
      by simp only [BoolForm.bare, Subquery.bare, hl, hb₁, hb₂]⟩
    · by_cases hch : s.targetDbms = .clickhouse
      · simp_all [BoolForm.back]
      · obtain ⟨u, hu⟩ := hu hch
        simp_all [BoolForm.back]
    · rw [BoolForm.Settled, Subquery.Settled]
      exact ⟨hw', hsl, hwq, QuerySpec.withParts_withoutOrder hol,
        QuerySpec.withParts_withoutOrder hor, by simp [hlen₁, hlen₂, hlen], hs₁, hs₂⟩
  | .existsPredicate (.spec q) saved w, ρ, h => by
    rw [BoolForm.Settled, Subquery.Settled] at h
    obtain ⟨rfl, hw, hq⟩ := h
    obtain ⟨es', search', htq, hne, es'', search'', hes, hsearch, hlen, hsq, hbare⟩ :=
      q.comesBack (ρ.sub 0) (s.targetDbms ≠ .clickhouse) hq
    have ht : (BoolForm.existsPredicate (.spec q) none w).transform s ρ =
        existsTransform s none (.spec (q.withParts es' search')) := by
      simp only [BoolForm.transform, Subquery.transformParts, htq, Option.bind_eq_bind,
        Option.bind_some]
    by_cases hk : q.keeps = true
    · have hb := QuerySpec.backParts_withParts (q := q) hes hsearch
      refine ⟨.existsPredicate (.spec (q.withParts es' search')) none
        (.transformed (.newExists (.spec (q.withParts es' search')))), ?_,
        .existsPredicate (.spec (q.withParts es'' search'')) none
          (.cached (.newExists (.spec (q.withParts es' search')))), ?_, ?_,
        by simp only [BoolForm.bare, Subquery.bare, hbare]⟩
      · rw [ht]
        simp [existsTransform, hk]
      · rw [BoolForm.back_exists_kept (by simpa using hk), hb]
        rfl
      · rw [BoolForm.Settled, Subquery.Settled]
        exact ⟨rfl, trivial, hsq⟩
    · refine ⟨_, by rw [ht, existsTransform, if_neg (by simp), if_neg (by simpa using hk)], _,
        BoolForm.back_exists_moved (by simpa using hk) hes hsearch, ?_,
        by simp only [BoolForm.bare, Subquery.bare, hbare]⟩
      rw [BoolForm.Settled, Subquery.Settled]
      exact ⟨rfl, trivial, hsq⟩
  | .existsPredicate (.union l type r wq) saved w, ρ, h => by
    rw [BoolForm.Settled, Subquery.Settled] at h
    obtain ⟨rfl, hw, hwq, hol, hor, hlen, hl, hr⟩ := h
    obtain ⟨es₁, search₁, ht₁, hne₁, es₁', search₁', hes₁, hsearch₁, hlen₁, hs₁, hb₁⟩ :=
      l.comesBack ((ρ.sub 0).sub 0) (s.targetDbms ≠ .clickhouse) hl
    obtain ⟨es₂, search₂, ht₂, hne₂, es₂', search₂', hes₂, hsearch₂, hlen₂, hs₂, hb₂⟩ :=
      r.comesBack ((ρ.sub 0).sub 1) (s.targetDbms ≠ .clickhouse) hr
    have hback₁ := QuerySpec.backParts_withParts (q := l) hes₁ hsearch₁
    have hback₂ := QuerySpec.backParts_withParts (q := r) hes₂ hsearch₂
    have hsettled : ∀ wq' : Wrap Subquery, wq'.Idle (fun _ => True) →
        (Subquery.union (l.withParts es₁' search₁') type (r.withParts es₂' search₂') wq').Settled :=
      fun wq' hwq' => by
        rw [Subquery.Settled]
        exact ⟨hwq', QuerySpec.withParts_withoutOrder hol, QuerySpec.withParts_withoutOrder hor,
          by simp [hlen₁, hlen₂, hlen], hs₁, hs₂⟩
    by_cases hch : s.targetDbms = .clickhouse
    · refine ⟨.existsPredicate (.union (l.withParts es₁ search₁) type (r.withParts es₂ search₂) wq)
        none (.transformed (.newExists (.union (l.withParts es₁ search₁) type
          (r.withParts es₂ search₂) wq))), ?_, .existsPredicate (.union (l.withParts es₁' search₁')
            type (r.withParts es₂' search₂') wq) none (.cached (.newExists (.union
              (l.withParts es₁ search₁) type (r.withParts es₂ search₂) wq))), ?_, ?_,
        by simp only [BoolForm.bare, Subquery.bare, hb₁, hb₂]⟩
      · simp_all [BoolForm.transform, Subquery.transformParts, existsTransform]
      · simp_all [BoolForm.back, Wrap.release]
      · rw [BoolForm.Settled]
        exact ⟨rfl, trivial, hsettled wq hwq⟩
    · obtain ⟨l₂, r₂, eq, hu, hcase⟩ := unionTransform_cases (l := l.withParts es₁ search₁)
        (r := r.withParts es₂ search₂) type hwq.isTransformed
        (QuerySpec.withParts_withoutOrder hol) (QuerySpec.withParts_withoutOrder hor)
        (by simp [hne₁.2, hne₂.2, hlen]) (by simpa using hne₁.1)
      refine ⟨.existsPredicate (.union l₂ type r₂ (.transformed eq)) none
        (.transformed (.newExists (.union l₂ type r₂ (.transformed eq)))), ?_,
        .existsPredicate (.union (l.withParts es₁' search₁') type (r.withParts es₂' search₂')
          (.cached eq)) none (.cached (.newExists (.union l₂ type r₂ (.transformed eq)))), ?_, ?_,
        by simp only [BoolForm.bare, Subquery.bare, hb₁, hb₂]⟩
      · simp_all [BoolForm.transform, Subquery.transformParts, existsTransform]
      · rcases hcase with ⟨hk, rfl, rfl⟩ | ⟨hk, a, b, rfl, rfl⟩
        · simp only [BoolForm.back, if_neg hch, hk, Bool.not_true, Bool.and_false, hback₁, hback₂,
            Wrap.unmark, Wrap.release, Option.bind_eq_bind, Option.bind_some]
        · have hne : decide (s.targetDbms ≠ .clickhouse) = true := by simpa using hch
          simp only [BoolForm.back, if_neg hch, QuerySpec.withSearch_keeps, hk, Bool.not_false,
            hne, Bool.and_true, QuerySpec.backParts_splices, Wrap.unmark, Wrap.release,
            Option.bind_eq_bind, Option.bind_some]
          rw [hne] at hback₁ hback₂
          rw [hback₁, hback₂]
          rfl
      · rw [BoolForm.Settled]
        exact ⟨rfl, trivial, hsettled (.cached eq) trivial⟩
  | .compSubquery l op (.spec q), ρ, h => by
    rw [BoolForm.Settled, Subquery.Settled] at h
    obtain ⟨l', htl, l'', hbl, hsl, hl⟩ := l.comesBack (ρ.sub 0) h.1
    obtain ⟨es', search', htq, -, es'', search'', hes, hsearch, -, hsq, hbare⟩ :=
      q.comesBack (ρ.sub 1) false h.2
    have hb := QuerySpec.backParts_withParts (q := q) hes hsearch
    refine ⟨.compSubquery l' op (.spec (q.withParts es' search')),
      by simp [BoolForm.transform, Subquery.transformParts, htl, htq],
      .compSubquery l'' op (.spec (q.withParts es'' search'')), by simp [BoolForm.back, hb, hbl],
      ?_, by simp only [BoolForm.bare, Subquery.bare, hl, hbare]⟩
    rw [BoolForm.Settled, Subquery.Settled]
    exact ⟨hsl, hsq⟩
  | .compSubquery l op (.union lhs type rhs wq), ρ, h => by
    rw [BoolForm.Settled, Subquery.Settled] at h
    obtain ⟨hl, hwq, hol, hor, hlen, hlhs, hrhs⟩ := h
    obtain ⟨l', htl, l'', hbl, hsl, hl⟩ := l.comesBack (ρ.sub 0) hl
    obtain ⟨es₁, search₁, ht₁, -, es₁', search₁', hes₁, hsearch₁, hlen₁, hs₁, hb₁⟩ :=
      lhs.comesBack ((ρ.sub 1).sub 0) false hlhs
    obtain ⟨es₂, search₂, ht₂, -, es₂', search₂', hes₂, hsearch₂, hlen₂, hs₂, hb₂⟩ :=
      rhs.comesBack ((ρ.sub 1).sub 1) false hrhs
    have hback₁ := QuerySpec.backParts_withParts (q := lhs) hes₁ hsearch₁
    have hback₂ := QuerySpec.backParts_withParts (q := rhs) hes₂ hsearch₂
    refine ⟨.compSubquery l' op (.union (lhs.withParts es₁ search₁) type
      (rhs.withParts es₂ search₂) wq),
      by simp [BoolForm.transform, Subquery.transformParts, htl, ht₁, ht₂],
      .compSubquery l'' op (.union (lhs.withParts es₁' search₁') type
        (rhs.withParts es₂' search₂') wq), by simp [BoolForm.back, hback₁, hback₂, hbl],
      ?_, by simp only [BoolForm.bare, Subquery.bare, hl, hb₁, hb₂]⟩
    rw [BoolForm.Settled, Subquery.Settled]
    exact ⟨hsl, hwq, QuerySpec.withParts_withoutOrder hol, QuerySpec.withParts_withoutOrder hor,
      by simp [hlen₁, hlen₂, hlen], hs₁, hs₂⟩

theorem QuerySpec.comesBack : ∀ (q : QuerySpec) (ρ : Choices) (list : Bool), q.Settled →
    ∃ es' search', q.transformParts s ρ list = some (q.withParts es' search') ∧
      (es' ≠ [] ∧ es'.length = q.selectList.valueExprs.length) ∧
      ∃ es'' search'', (if list then backList s es' else some es') = some es'' ∧
        search'.back s = some search'' ∧ es''.length = q.selectList.valueExprs.length ∧
          (q.withParts es'' search'').Settled ∧
          (q.withParts es'' search'').bare = q.bare
  | .mk options quantifier (.mk columns names es) from_ search group window order limit, ρ, list,
      h => by
    rw [QuerySpec.Settled, SelectList.Settled] at h
    obtain ⟨⟨hne, hes⟩, hfrom, hsearch, hgroup⟩ := h
    obtain ⟨search', ht, search'', hb, hs, hbare⟩ := search.comesBack (ρ.sub 0) hsearch
    cases list with
    | true =>
      obtain ⟨es', hts, es'', hbs, hss, hbares⟩ := listComesBack es (ρ.sub 1) 0 hes
      have hlen := transformList_length hts
      have hlen' := bareList_length hbares
      rw [← List.length_pos_iff] at hne
      refine ⟨es', search', by simp [QuerySpec.transformParts, ht, hts, QuerySpec.withParts],
        ⟨by rw [← List.length_pos_iff]; omega, hlen⟩, es'', search'', by simpa using hbs, hb,
        hlen', ?_, ?_⟩
      · rw [QuerySpec.withParts, QuerySpec.Settled, SelectList.Settled]
        exact ⟨⟨by rw [← List.length_pos_iff]; omega, hss⟩, hfrom, hs, hgroup⟩
      · simp only [QuerySpec.withParts, QuerySpec.bare, SelectList.bare, hbare, hbares]
    | false =>
      refine ⟨es, search', by simp [QuerySpec.transformParts, ht, QuerySpec.withParts], ⟨hne, rfl⟩,
        es, search'', rfl, hb, rfl, ?_, ?_⟩
      · rw [QuerySpec.withParts, QuerySpec.Settled, SelectList.Settled]
        exact ⟨⟨hne, hes⟩, hfrom, hs, hgroup⟩
      · simp only [QuerySpec.withParts, QuerySpec.bare, hbare]

end

end DbFuzz.Expr
