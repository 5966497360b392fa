import DbFuzz.Expr.RoundTrip

/-! A tree that was transformed once and turned back. Whatever a later transform draws, it leads
to the same tree as the first one. -/

namespace DbFuzz.Expr

/-- `t` with the draws `ρ` is defined on `x`, and on what `b` makes of the result `t` gives that
result again. -/
def Again {α : Type} (t : Choices → α → Option α) (b : α → Option α) (ρ : Choices) (x : α) : Prop :=
  ∃ y, t ρ x = some y ∧ ∃ z, b y = some z ∧ ∀ ρ', t ρ' z = some y

variable {s : Schema}

mutual

theorem ValueExpr.again : ∀ (e : ValueExpr) (ρ : Choices), e.Settled →
    Again (ValueExpr.transform s) (ValueExpr.back s) ρ e
  | .node w form, ρ, h => by
    rw [ValueExpr.Settled] at h
    obtain ⟨eq, hmark, -⟩ := h.1.mark ⟨ρ [], rfl⟩
    obtain ⟨form', ht, form'', hb, hagain⟩ := form.again ρ h.2
    exact ⟨.node (.transformed eq) form', by simp [ValueExpr.transform, hmark, ht],
      .node (.cached eq) form'', by simp [ValueExpr.back, hb, Wrap.unmark],
      fun ρ' => by simp [ValueExpr.transform, Wrap.mark, hagain ρ']⟩
  | .plain w text, ρ, h => by
    rw [ValueExpr.Settled] at h
    obtain ⟨eq, hmark, -⟩ := h.mark ⟨ρ [], rfl⟩
    exact ⟨.plain (.transformed eq) text, by simp [ValueExpr.transform, hmark],
      .plain (.cached eq) text, by simp [ValueExpr.back, Wrap.unmark],
      fun ρ' => by simp [ValueExpr.transform, Wrap.mark]⟩
  | .bool e, ρ, h => by
    rw [ValueExpr.Settled] at h
    obtain ⟨e', ht, e'', hb, he⟩ := e.again ρ h
    exact ⟨.bool e', by simp [ValueExpr.transform, ht], .bool e'', by simp [ValueExpr.back, hb],
      fun ρ' => by simp [ValueExpr.transform, he]⟩

theorem ValueForm.again : ∀ (form : ValueForm) (ρ : Choices), form.Settled →
    Again (ValueForm.transform s) (ValueForm.back s) ρ form
  | .columnReference _ _, ρ, h | .constExpr _, ρ, h | .kept _, ρ, h =>
    ⟨_, by rw [ValueForm.transform], _, by rw [ValueForm.back],
      fun _ => by rw [ValueForm.transform]⟩
  | .caseExpr c t f, ρ, h => by
    rw [ValueForm.Settled] at h
    obtain ⟨c', htc, c'', hbc, hc⟩ := c.again (ρ.sub 0) h.1
    obtain ⟨t', htt, t'', hbt, ht⟩ := t.again (ρ.sub 1) h.2.1
    obtain ⟨f', htf, f'', hbf, hf⟩ := f.again (ρ.sub 2) h.2.2
    exact ⟨.caseExpr c' t' f', by simp [ValueForm.transform, htc, htt, htf],
      .caseExpr c'' t'' f'', by simp [ValueForm.back, hbc, hbt, hbf],
      fun ρ' => by simp [ValueForm.transform, hc, ht, hf]⟩
  | .coalesce abbrev_ es, ρ, h => by
    rw [ValueForm.Settled] at h
    obtain ⟨es', ht, es'', hb, hagain⟩ := listAgain es ρ 0 h
    exact ⟨.coalesce abbrev_ es', by simp [ValueForm.transform, ht],
      .coalesce abbrev_ es'', by simp [ValueForm.back, hb],
      fun ρ' => by simp [ValueForm.transform, hagain]⟩
  | .binopExpr oper l r, ρ, h => by
    rw [ValueForm.Settled] at h
    obtain ⟨l', ht₁, l'', hb₁, h₁⟩ := l.again (ρ.sub 0) h.1
    obtain ⟨r', ht₂, r'', hb₂, h₂⟩ := r.again (ρ.sub 1) h.2
    exact ⟨.binopExpr oper l' r', by simp [ValueForm.transform, ht₁, ht₂],
      .binopExpr oper l'' r'', by simp [ValueForm.back, hb₁, hb₂],
      fun ρ' => by simp [ValueForm.transform, h₁, h₂]⟩
  | .funcall proc isAggregate es, ρ, h => by
    rw [ValueForm.Settled] at h
    by_cases hch : s.targetDbms = .clickhouse
    · exact ⟨.funcall proc isAggregate es, by simp [ValueForm.transform, hch], .funcall proc isAggregate es,
        by simp [ValueForm.back, hch], fun ρ' => by simp [ValueForm.transform, hch]⟩
    · obtain ⟨es', ht, es'', hb, hagain⟩ := listAgain es ρ 0 h
      exact ⟨.funcall proc isAggregate es', by simp [ValueForm.transform, hch, ht],
        .funcall proc isAggregate es'', by simp [ValueForm.back, hch, hb],
        fun ρ' => by simp [ValueForm.transform, hch, hagain]⟩
  | .winFuncall proc es, ρ, h => by
    rw [ValueForm.Settled] at h
    by_cases hch : s.targetDbms = .clickhouse
    · exact ⟨.winFuncall proc es, by simp [ValueForm.transform, hch], .winFuncall proc es,
        by simp [ValueForm.back, hch], fun ρ' => by simp [ValueForm.transform, hch]⟩
    · obtain ⟨es', ht, es'', hb, hagain⟩ := listAgain es ρ 0 h
      exact ⟨.winFuncall proc es', by simp [ValueForm.transform, hch, ht],
        .winFuncall proc es'', by simp [ValueForm.back, hch, hb],
        fun ρ' => by simp [ValueForm.transform, hch, hagain]⟩
  | .castExpr useConvert target e, ρ, h => by
    rw [ValueForm.Settled] at h
    obtain ⟨e', ht, e'', hb, hagain⟩ := e.again (ρ.sub 0) h
    exact ⟨.castExpr useConvert target e', by simp [ValueForm.transform, ht],
      .castExpr useConvert target e'', by simp [ValueForm.back, hb],
      fun ρ' => by simp [ValueForm.transform, hagain]⟩
  | .intervalExpr isAdd unit date amount, ρ, h => by
    rw [ValueForm.Settled] at h
    obtain ⟨date', ht₁, date'', hb₁, h₁⟩ := date.again (ρ.sub 0) h.1
    obtain ⟨amount', ht₂, amount'', hb₂, h₂⟩ := amount.again (ρ.sub 1) h.2
    exact ⟨.intervalExpr isAdd unit date' amount', by simp [ValueForm.transform, ht₁, ht₂],
      .intervalExpr isAdd unit date'' amount'', by simp [ValueForm.back, hb₁, hb₂],
      fun ρ' => by simp [ValueForm.transform, h₁, h₂]⟩
  | .mysqlJsonOp op path l, ρ, h => by
    rw [ValueForm.Settled] at h
    obtain ⟨l', ht, l'', hb, hagain⟩ := l.again (ρ.sub 0) h
    exact ⟨.mysqlJsonOp op path l', by simp [ValueForm.transform, ht],
      .mysqlJsonOp op path l'', by simp [ValueForm.back, hb],
      fun ρ' => by simp [ValueForm.transform, hagain]⟩

theorem listAgain : ∀ (es : List ValueExpr) (ρ : Choices) (i : ℕ), ListSettled es →
    Again (fun ρ => transformList s ρ i) (backList s) ρ es
  | [], ρ, i, h => ⟨[], by simp only [transformList], [], by rw [backList],
      fun _ => by simp only [transformList]⟩
  | e :: es, ρ, i, h => by
    rw [ListSettled] at h
    obtain ⟨e', ht₁, e'', hb₁, h₁⟩ := e.again (ρ.sub i) h.1
    obtain ⟨es', ht₂, es'', hb₂, h₂⟩ := listAgain es ρ (i + 1) h.2
    exact ⟨e' :: es', by simp [transformList, ht₁, ht₂], e'' :: es'', by simp [backList, hb₁, hb₂],
      fun ρ' => by simp [transformList, h₁, h₂]⟩

theorem BoolExpr.again : ∀ (e : BoolExpr) (ρ : Choices), e.Settled →
    Again (BoolExpr.transform s) (BoolExpr.back s) ρ e
  | .node w form, ρ, h => by
    rw [BoolExpr.Settled] at h
    obtain ⟨eq, hmark, -⟩ := h.1.mark ⟨ρ [], rfl⟩
    obtain ⟨form', ht, form'', hb, hagain⟩ := form.again ρ h.2
    exact ⟨.node (.transformed eq) form', by simp [BoolExpr.transform, hmark, ht],
      .node (.cached eq) form'', by simp [BoolExpr.back, hb, Wrap.unmark],
      fun ρ' => by simp [BoolExpr.transform, Wrap.mark, hagain ρ']⟩
  | .plain w text, ρ, h => by
    rw [BoolExpr.Settled] at h
    obtain ⟨eq, hmark, -⟩ := h.mark ⟨ρ [], rfl⟩
    exact ⟨.plain (.transformed eq) text, by simp [BoolExpr.transform, hmark],
      .plain (.cached eq) text, by simp [BoolExpr.back, Wrap.unmark],
      fun ρ' => by simp [BoolExpr.transform, Wrap.mark]⟩
  | .constBool w op, ρ, h => by
    rw [BoolExpr.Settled] at h
    obtain ⟨eq, hmark, -⟩ := h.mark ⟨ρ [], rfl⟩
    exact ⟨.constBool (.transformed eq) op, by simp [BoolExpr.transform, hmark],
      .constBool (.cached eq) op, by simp [BoolExpr.back, Wrap.unmark],
      fun ρ' => by simp [BoolExpr.transform, Wrap.mark]⟩

theorem BoolForm.again : ∀ (form : BoolForm) (ρ : Choices), form.Settled →
    Again (BoolForm.transform s) (BoolForm.back s) ρ form
  | .kept _, ρ, h => ⟨_, by rw [BoolForm.transform], _, by rw [BoolForm.back],
      fun _ => by rw [BoolForm.transform]⟩
  | .comparisonOp oper l r, ρ, h => by
    rw [BoolForm.Settled] at h
    obtain ⟨l', ht₁, l'', hb₁, h₁⟩ := l.again (ρ.sub 0) h.1
    obtain ⟨r', ht₂, r'', hb₂, h₂⟩ := r.again (ρ.sub 1) h.2
    exact ⟨.comparisonOp oper l' r', by simp [BoolForm.transform, ht₁, ht₂],
      .comparisonOp oper l'' r'', by simp [BoolForm.back, hb₁, hb₂],
      fun ρ' => by simp [BoolForm.transform, h₁, h₂]⟩
  | .distinctPred l r, ρ, h => by
    rw [BoolForm.Settled] at h
    obtain ⟨l', ht₁, l'', hb₁, h₁⟩ := l.again (ρ.sub 0) h.1
    obtain ⟨r', ht₂, r'', hb₂, h₂⟩ := r.again (ρ.sub 1) h.2
    exact ⟨.distinctPred l' r', by simp [BoolForm.transform, ht₁, ht₂],
      .distinctPred l'' r'', by simp [BoolForm.back, hb₁, hb₂],
      fun ρ' => by simp [BoolForm.transform, h₁, h₂]⟩
  | .notExpr e, ρ, h => by
    rw [BoolForm.Settled] at h
    obtain ⟨e', ht, e'', hb, hagain⟩ := e.again (ρ.sub 0) h
    exact ⟨.notExpr e', by simp [BoolForm.transform, ht],
      .notExpr e'', by simp [BoolForm.back, hb],
      fun ρ' => by simp [BoolForm.transform, hagain]⟩
  | .nullPredicate isNull e, ρ, h => by
    rw [BoolForm.Settled] at h
    obtain ⟨e', ht, e'', hb, hagain⟩ := e.again (ρ.sub 0) h
    exact ⟨.nullPredicate isNull e', by simp [BoolForm.transform, ht],
      .nullPredicate isNull e'', by simp [BoolForm.back, hb],
      fun ρ' => by simp [BoolForm.transform, hagain]⟩
  | .likeOp l likeOperator likeFormat, ρ, h => by
    rw [BoolForm.Settled] at h
    obtain ⟨l', ht, l'', hb, hagain⟩ := l.again (ρ.sub 0) h
    exact ⟨.likeOp l' likeOperator likeFormat, by simp [BoolForm.transform, ht],
      .likeOp l'' likeOperator likeFormat, by simp [BoolForm.back, hb],
      fun ρ' => by simp [BoolForm.transform, hagain]⟩
  | .boolTerm isOr l r equal, ρ, h => by
    rw [BoolForm.Settled] at h
    obtain ⟨l', ht₁, l'', hb₁, h₁⟩ := l.again (ρ.sub 0) h.2.1
    obtain ⟨r', ht₂, r'', hb₂, h₂⟩ := r.again (ρ.sub 1) h.2.2
    refine ⟨.boolTerm (!isOr) l' r' (some (.newNot (.newTerm (!isOr) (.newNot r') (.newNot l')))),
      by simp [BoolForm.transform, ht₁, ht₂], .boolTerm isOr l'' r'' none, ?_,
      fun ρ' => by simp [BoolForm.transform, h₁, h₂]⟩
    simp [BoolForm.back, BoolExpr.newNot, BoolExpr.newTerm, BoolExpr.backOperands,
      BoolExpr.backInner, hb₁, hb₂]
  | .betweenOp l m r w, ρ, h => by
    rw [BoolForm.Settled] at h
    obtain ⟨l', ht₁, l'', hb₁, h₁⟩ := l.again (ρ.sub 0) h.2.1
    obtain ⟨m', ht₂, m'', hb₂, h₂⟩ := m.again (ρ.sub 1) h.2.2.1
    obtain ⟨r', ht₃, r'', hb₃, h₃⟩ := r.again (ρ.sub 2) h.2.2.2
    have hw : betweenTransform s l' m' r' (betweenTransform s l' m' r' w).release =
        betweenTransform s l' m' r' w := by
      unfold betweenTransform
      split_ifs
      · rfl
      · exact h.1.release
    exact ⟨.betweenOp l' m' r' (betweenTransform s l' m' r' w),
      by simp [BoolForm.transform, ht₁, ht₂, ht₃],
      .betweenOp l'' m'' r'' (betweenTransform s l' m' r' w).release,
      by simp [BoolForm.back, hb₁, hb₂, hb₃],
      fun ρ' => by simp [BoolForm.transform, h₁, h₂, h₃, hw]⟩
  | .inQuery isNegated l (.spec q) w, ρ, h => by
    rw [BoolForm.Settled, Subquery.Settled] at h
    obtain ⟨hw, hl, hq⟩ := h
    obtain ⟨l', ht, l'', hbl, hagain⟩ := l.again (ρ.sub 0) hl
    obtain ⟨es', search', htq, hne, es'', search'', hes, hsearch, hq⟩ :=
      q.again (ρ.sub 1) (s.targetDbms ≠ .clickhouse) hq
    have hb := QuerySpec.backParts_withParts (q := q) hes hsearch
    by_cases hch : s.targetDbms = .clickhouse
    · refine ⟨.inQuery isNegated l' (.spec (q.withParts es' search')) w,
        by simp_all [BoolForm.transform, Subquery.transformParts],
        .inQuery isNegated l'' (.spec (q.withParts es'' search'')) w.release,
        by simp only [BoolForm.back, hb, hbl, Option.bind_eq_bind, Option.bind_some],
        fun ρ' => ?_⟩
      rw [hw.release]
      simp_all [BoolForm.transform, Subquery.transformParts]
    · obtain ⟨eq, heq⟩ := inQueryEq_spec l' (q := q.withParts es' search') (by simpa using hne.1)
      exact ⟨.inQuery isNegated l' (.spec (q.withParts es' search')) (.transformed eq),
        by simp_all [BoolForm.transform, Subquery.transformParts],
        .inQuery isNegated l'' (.spec (q.withParts es'' search'')) (.cached eq),
        by simp only [BoolForm.back, hb, hbl, Option.bind_eq_bind, Option.bind_some, Wrap.release],
        fun ρ' => by simp_all [BoolForm.transform, Subquery.transformParts]⟩
  | .inQuery isNegated l (.union lhs type rhs wq) w, ρ, h => by
    rw [BoolForm.Settled, Subquery.Settled] at h
    obtain ⟨hw, hl, -, -, -, hlen, hlhs, hrhs⟩ := h
    obtain ⟨l', ht, l'', hbl, hagain⟩ := l.again (ρ.sub 0) hl
    obtain ⟨es₁, search₁, ht₁, hne₁, es₁', search₁', hes₁, hsearch₁, h₁⟩ :=
      lhs.again ((ρ.sub 1).sub 0) (s.targetDbms ≠ .clickhouse) hlhs
    obtain ⟨es₂, search₂, ht₂, hne₂, es₂', search₂', hes₂, hsearch₂, h₂⟩ :=
      rhs.again ((ρ.sub 1).sub 1) (s.targetDbms ≠ .clickhouse) hrhs
    have hb₁ := QuerySpec.backParts_withParts (q := lhs) hes₁ hsearch₁
    have hb₂ := QuerySpec.backParts_withParts (q := rhs) hes₂ hsearch₂
    by_cases hch : s.targetDbms = .clickhouse
    · refine ⟨.inQuery isNegated l' (.union (lhs.withParts es₁ search₁) type
        (rhs.withParts es₂ search₂) wq) w, by simp_all [BoolForm.transform, Subquery.transformParts],
        .inQuery isNegated l'' (.union (lhs.withParts es₁' search₁') type
          (rhs.withParts es₂' search₂') wq) w.release, by simp_all [BoolForm.back], fun ρ' => ?_⟩
      rw [hw.release]
      simp_all [BoolForm.transform, Subquery.transformParts]
    · have hlen' : (lhs.withParts es₁ search₁).selectList.valueExprs.length =
          (rhs.withParts es₂ search₂).selectList.valueExprs.length := by
        simp [hne₁.2, hne₂.2, hlen]
      obtain ⟨eq, u, heq, hu⟩ := inQueryEq_union l' type wq hlen' (by simpa using hne₁.1)
      exact ⟨.inQuery isNegated l' (.union (lhs.withParts es₁ search₁) type
        (rhs.withParts es₂ search₂) wq) (.transformed eq),
        by simp_all [BoolForm.transform, Subquery.transformParts],
        .inQuery isNegated l'' (.union (lhs.withParts es₁' search₁') type
          (rhs.withParts es₂' search₂') wq) (.cached eq),
        by simp_all [BoolForm.back, Wrap.release],
        fun ρ' => by simp_all [BoolForm.transform, Subquery.transformParts]⟩
  | .existsPredicate (.spec q) saved w, ρ, h => by
    rw [BoolForm.Settled, Subquery.Settled] at h
    obtain ⟨rfl, -, hq⟩ := h
    obtain ⟨es', search', htq, -, es'', search'', hes, hsearch, hq⟩ :=
      q.again (ρ.sub 0) (s.targetDbms ≠ .clickhouse) hq
    have ht : ∀ (q' : QuerySpec) (ρ : Choices) (w : Wrap BoolExpr),
        q'.transformParts s (ρ.sub 0) (s.targetDbms ≠ .clickhouse) =
          some (q.withParts es' search') →
        (BoolForm.existsPredicate (.spec q') none w).transform s ρ =
          existsTransform s none (.spec (q.withParts es' search')) := fun q' ρ w h => by
      simp only [BoolForm.transform, Subquery.transformParts, h, Option.bind_eq_bind,
        Option.bind_some]
    by_cases hk : q.keeps = true
    · have hb := QuerySpec.backParts_withParts (q := q) hes hsearch
      have hnew : existsTransform s none (.spec (q.withParts es' search')) =
          some (.existsPredicate (.spec (q.withParts es' search')) none
            (.transformed (.newExists (.spec (q.withParts es' search'))))) := by
        simp [existsTransform, hk]
      refine ⟨_, (ht q ρ w htq).trans hnew, .existsPredicate (.spec (q.withParts es'' search'')) none
        (.cached (.newExists (.spec (q.withParts es' search')))), ?_,
        fun ρ' => (ht _ ρ' _ (hq _)).trans hnew⟩
      rw [BoolForm.back_exists_kept (by simpa using hk), hb]
      rfl
    · refine ⟨_, by rw [ht q ρ w htq, existsTransform, if_neg (by simp),
        if_neg (by simpa using hk)], _, BoolForm.back_exists_moved (by simpa using hk) hes hsearch,
        fun ρ' => ?_⟩
      rw [ht _ ρ' _ (hq (ρ'.sub 0)), existsTransform, if_neg (by simp), if_neg (by simpa using hk)]
  | .existsPredicate (.union l type r wq) saved w, ρ, h => by
    rw [BoolForm.Settled, Subquery.Settled] at h
    obtain ⟨rfl, -, hwq, hol, hor, hlen, hl, hr⟩ := h
    obtain ⟨es₁, search₁, ht₁, hne₁, es₁', search₁', hes₁, hsearch₁, h₁⟩ :=
      l.again ((ρ.sub 0).sub 0) (s.targetDbms ≠ .clickhouse) hl
    obtain ⟨es₂, search₂, ht₂, hne₂, es₂', search₂', hes₂, hsearch₂, h₂⟩ :=
      r.again ((ρ.sub 0).sub 1) (s.targetDbms ≠ .clickhouse) hr
    have hb₁ := QuerySpec.backParts_withParts (q := l) hes₁ hsearch₁
    have hb₂ := QuerySpec.backParts_withParts (q := r) hes₂ hsearch₂
    by_cases hch : s.targetDbms = .clickhouse
    · exact ⟨.existsPredicate (.union (l.withParts es₁ search₁) type (r.withParts es₂ search₂) wq)
        none (.transformed (.newExists (.union (l.withParts es₁ search₁) type
          (r.withParts es₂ search₂) wq))),
        by simp_all [BoolForm.transform, Subquery.transformParts, existsTransform],
        .existsPredicate (.union (l.withParts es₁' search₁') type (r.withParts es₂' search₂') wq)
          none (.cached (.newExists (.union (l.withParts es₁ search₁) type
            (r.withParts es₂ search₂) wq))),
        by simp_all [BoolForm.back, Wrap.release],
        fun ρ' => by simp_all [BoolForm.transform, Subquery.transformParts, existsTransform]⟩
    · have hwq' := hwq.isTransformed
      have hsame : ∀ eq, unionTransform (l.withParts es₁ search₁) type (r.withParts es₂ search₂)
          (.cached eq) =
            unionTransform (l.withParts es₁ search₁) type (r.withParts es₂ search₂) wq := by
        intro eq
        have hcached : (Wrap.cached eq).isTransformed = false := rfl
        simp only [unionTransform, hwq', hcached]
      obtain ⟨l₂, r₂, eq, hu, hcase⟩ := unionTransform_cases (l := l.withParts es₁ search₁)
        (r := r.withParts es₂ search₂) type hwq'
        (QuerySpec.withParts_withoutOrder hol) (QuerySpec.withParts_withoutOrder hor)
        (by simp [hne₁.2, hne₂.2, hlen]) (by simpa using hne₁.1)
      refine ⟨.existsPredicate (.union l₂ type r₂ (.transformed eq)) none
        (.transformed (.newExists (.union l₂ type r₂ (.transformed eq)))),
        by simp_all [BoolForm.transform, Subquery.transformParts, existsTransform],
        .existsPredicate (.union (l.withParts es₁' search₁') type (r.withParts es₂' search₂')
          (.cached eq)) none (.cached (.newExists (.union l₂ type r₂ (.transformed eq)))), ?_,
        fun ρ' => by simp_all [BoolForm.transform, Subquery.transformParts, existsTransform]⟩
      rcases hcase with ⟨hk, rfl, rfl⟩ | ⟨hk, a, b, rfl, rfl⟩
      · simp only [BoolForm.back, if_neg hch, hk, Bool.not_true, Bool.and_false, hb₁, hb₂,
          Wrap.unmark, Wrap.release, Option.bind_eq_bind, Option.bind_some]
      · have hne : decide (s.targetDbms ≠ .clickhouse) = true := by simpa using hch
        simp only [BoolForm.back, if_neg hch, QuerySpec.withSearch_keeps, hk, Bool.not_false,
          hne, Bool.and_true, QuerySpec.backParts_splices, Wrap.unmark, Wrap.release,
          Option.bind_eq_bind, Option.bind_some]
        rw [hne] at hb₁ hb₂
        rw [hb₁, hb₂]
        rfl
  | .compSubquery l op (.spec q), ρ, h => by
    rw [BoolForm.Settled, Subquery.Settled] at h
    obtain ⟨l', ht, l'', hbl, hagain⟩ := l.again (ρ.sub 0) h.1
    obtain ⟨es', search', htq, -, es'', search'', hes, hsearch, hq⟩ :=
      q.again (ρ.sub 1) false h.2
    have hb := QuerySpec.backParts_withParts (q := q) hes hsearch
    exact ⟨.compSubquery l' op (.spec (q.withParts es' search')),
      by simp [BoolForm.transform, Subquery.transformParts, ht, htq],
      .compSubquery l'' op (.spec (q.withParts es'' search'')), by simp [BoolForm.back, hb, hbl],
      fun ρ' => by simp [BoolForm.transform, Subquery.transformParts, hagain, hq]⟩
  | .compSubquery l op (.union lhs type rhs wq), ρ, h => by
    rw [BoolForm.Settled, Subquery.Settled] at h
    obtain ⟨hl, -, -, -, -, hlhs, hrhs⟩ := h
    obtain ⟨l', ht, l'', hbl, hagain⟩ := l.again (ρ.sub 0) hl
    obtain ⟨es₁, search₁, ht₁, -, es₁', search₁', hes₁, hsearch₁, h₁⟩ :=
      lhs.again ((ρ.sub 1).sub 0) false hlhs
    obtain ⟨es₂, search₂, ht₂, -, es₂', search₂', hes₂, hsearch₂, h₂⟩ :=
      rhs.again ((ρ.sub 1).sub 1) false hrhs
    have hb₁ := QuerySpec.backParts_withParts (q := lhs) hes₁ hsearch₁
    have hb₂ := QuerySpec.backParts_withParts (q := rhs) hes₂ hsearch₂
    exact ⟨.compSubquery l' op (.union (lhs.withParts es₁ search₁) type
      (rhs.withParts es₂ search₂) wq),
      by simp [BoolForm.transform, Subquery.transformParts, ht, ht₁, ht₂],
      .compSubquery l'' op (.union (lhs.withParts es₁' search₁') type
        (rhs.withParts es₂' search₂') wq), by simp [BoolForm.back, hb₁, hb₂, hbl],
      fun ρ' => by simp [BoolForm.transform, Subquery.transformParts, hagain, h₁, h₂]⟩

theorem QuerySpec.again : ∀ (q : QuerySpec) (ρ : Choices) (list : Bool), q.Settled →
    ∃ es' search', q.transformParts s ρ list = some (q.withParts es' search') ∧
      (es' ≠ [] ∧ es'.length = q.selectList.valueExprs.length) ∧
      ∃ es'' search'', (if list then backList s es' else some es') = some es'' ∧
        search'.back s = some search'' ∧ ∀ ρ',
          (q.withParts es'' search'').transformParts s ρ' list = some (q.withParts es' search')
  | .mk options quantifier (.mk columns names es) from_ search group window order limit, ρ, list,
      h => by
    rw [QuerySpec.Settled, SelectList.Settled] at h
    obtain ⟨⟨hne, hes⟩, -, hsearch, -⟩ := h
    obtain ⟨search', ht, search'', hb, hagain⟩ := search.again (ρ.sub 0) hsearch
    cases list with
    | true =>
      obtain ⟨es', hts, es'', hbs, hagains⟩ := listAgain es (ρ.sub 1) 0 hes
      have hlen := transformList_length hts
      rw [← List.length_pos_iff] at hne
      exact ⟨es', search', by simp [QuerySpec.transformParts, ht, hts, QuerySpec.withParts],
        ⟨by rw [← List.length_pos_iff]; omega, hlen⟩, es'', search'', by simpa using hbs, hb,
        fun ρ' => by simp [QuerySpec.transformParts, QuerySpec.withParts, hagain, hagains]⟩
    | false =>
      exact ⟨es, search', by simp [QuerySpec.transformParts, ht, QuerySpec.withParts], ⟨hne, rfl⟩,
        es, search'', rfl, hb,
        fun ρ' => by simp [QuerySpec.transformParts, QuerySpec.withParts, hagain]⟩

end

end DbFuzz.Expr
