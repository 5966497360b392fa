import DbFuzz.TxCheck.Rounds

/-! What the refinement loop does, iteration by iteration. -/

namespace DbFuzz

open Loop AnalyzedQueue

namespace RoundTest

variable {Val : Type}

/-! Calls without a loop that the model bounds. -/

theorem analyzeTxnDependency_ne_outOfFuel (t : RoundTest Val) :
    t.analyzeTxnDependency ≠ .error .outOfFuel := by
  refine bind_ne_error (dependencyAnalyzer_ne_outOfFuel _) fun a _ => ?_
  obtain ⟨b, hb, -⟩ := a.checkG1c_spec
  split_ifs
  · simp [pure, Except.pure]
  · simp [pure, Except.pure]
  · exact bind_ne_error (by simp [hb]) fun _ _ => by simp [pure, Except.pure]

theorem normalStmtTest_ne_outOfFuel (env : RoundEnv Val) (path : List StmtId) (t : RoundTest Val) :
    t.normalStmtTest env path ≠ .error .outOfFuel := by
  have hpath : ∀ (t : RoundTest Val) (s : StmtId), t.pathStmt s ≠ .error .outOfFuel := by
    intro t s
    unfold pathStmt
    split <;> simp
  refine bind_ne_error (forEach_ne_error (fun s _ t => ?_) t) fun _ _ => by
    simp [pure, Except.pure]
  exact bind_ne_error (hpath t s) fun _ _ => by simp [pure, Except.pure]

theorem checkNormalStmtResult_ne_outOfFuel (t : RoundTest Val) (path : List StmtId) :
    t.checkNormalStmtResult path ≠ .error .outOfFuel := by
  have hresult : ∀ s, t.pathResult s ≠ .error .outOfFuel := by
    intro s
    unfold pathResult
    dsimp only
    split <;> simp
  unfold checkNormalStmtResult
  split
  · simp
  · simp
  · exact bind_ne_error (mapM_ne_error fun s _ => hresult s) fun _ _ => by
      simp [pure, Except.pure]

theorem alignTxns_txn (t : RoundTest Val) (tid : ℕ) : t.alignTxns.planned.txn tid =
    if tid < t.planned.transNum then
      { t.planned.txn tid with
        stmts := (t.planned.plan.ofTxn tid (List.range t.planned.plan.stmtNum)).map t.planned.stmt }
    else t.planned.txn tid := rfl

end RoundTest

theorem TransTest.Cleared.alignTxns {Val : Type} {t : RoundTest Val} (h : t.planned.test.Cleared) :
    t.alignTxns.planned.test.Cleared := by
  have hsame : ∀ tid, (t.alignTxns.planned.txn tid).isBlocked = (t.planned.txn tid).isBlocked ∧
      (t.alignTxns.planned.txn tid).stmtOutputs = (t.planned.txn tid).stmtOutputs ∧
      (t.alignTxns.planned.txn tid).stmtErrInfo = (t.planned.txn tid).stmtErrInfo := by
    intro tid
    rw [RoundTest.alignTxns_txn]
    split_ifs <;> exact ⟨rfl, rfl, rfl⟩
  exact ⟨fun tid => (hsame tid).1.trans (h.unblocked tid),
    fun tid => (hsame tid).2.1.trans (h.outputs tid),
    fun tid => (hsame tid).2.2.trans (h.errs tid), h.real⟩

namespace PlannedTest

/-! A call of `refine_stmt_queue` that changes nothing. -/

/-- Only the texts in `trans_arr` differ. -/
structure SameRun (t t' : PlannedTest) : Prop where
  eq : ∃ transArr, t' = { t with test := { t.test with transArr := transArr } }
  status : ∀ tid, (t'.txn tid).status = (t.txn tid).status
  outputs : ∀ tid, (t'.txn tid).stmtOutputs = (t.txn tid).stmtOutputs
  errs : ∀ tid, (t'.txn tid).stmtErrInfo = (t.txn tid).stmtErrInfo

theorem SameRun.refl (t : PlannedTest) : SameRun t t :=
  ⟨⟨t.test.transArr, rfl⟩, fun _ => rfl, fun _ => rfl, fun _ => rfl⟩

theorem SameRun.trans {t t' t'' : PlannedTest} (h : SameRun t t') (h' : SameRun t' t'') :
    SameRun t t'' := by
  obtain ⟨⟨a, rfl⟩, h2, h3, h4⟩ := h
  obtain ⟨⟨b, rfl⟩, h2', h3', h4'⟩ := h'
  exact ⟨⟨b, rfl⟩, fun tid => (h2' tid).trans (h2 tid), fun tid => (h3' tid).trans (h3 tid),
    fun tid => (h4' tid).trans (h4 tid)⟩

theorem SameRun.plan {t t' : PlannedTest} (h : SameRun t t') : t'.plan = t.plan := by
  obtain ⟨a, rfl⟩ := h.eq
  rfl

theorem SameRun.stmt {t t' : PlannedTest} (h : SameRun t t') (i : ℕ) : t'.stmt i = t.stmt i := by
  obtain ⟨a, rfl⟩ := h.eq
  rfl

theorem SameRun.analyzerInput {t t' : PlannedTest} (h : SameRun t t')
    (initContent : List StmtOutput) :
    t'.analyzerInput initContent = t.analyzerInput initContent := by
  have hstatus := h.status
  obtain ⟨a, rfl⟩ := h.eq
  simp only [PlannedTest.analyzerInput]
  congr 1
  exact List.map_congr_left fun tid _ => hstatus tid

theorem SameRun.dropped_iff {t t' : PlannedTest} (h : SameRun t t') (path : List StmtId) (i : ℕ) :
    t'.Dropped path i ↔ t.Dropped path i := by
  obtain ⟨a, rfl⟩ := h.eq
  rfl

theorem copyTxnStmt_sameRun {i : ℕ} {r r' : (ℕ → ℕ) × PlannedTest}
    (h : copyTxnStmt i r = .ok r') : SameRun r.2 r'.2 := by
  obtain ⟨pos, t⟩ := r
  simp only [copyTxnStmt] at h
  split at h
  · split at h
    · cases h
      refine ⟨⟨_, rfl⟩, ?_, ?_, ?_⟩ <;>
      · intro tid
        rw [setTxn_txn]
        split
        · next he => rw [he]
        · rfl
    · cases h
  · cases h
    exact SameRun.refl t

theorem changeTxnStatus_false {t t' : PlannedTest} {target : ℕ} {finalStatus : TxnStatus}
    (h : t.changeTxnStatus target finalStatus = .ok (false, t')) :
    t' = t ∧ (t.txn target).status = finalStatus := by
  unfold changeTxnStatus at h
  split at h
  · cases h
  split at h
  · next heq =>
    cases h
    exact ⟨rfl, heq⟩
  split at h
  · cases h
  · cases h

/-- What the second loop has found when it has changed nothing. -/
theorem abortOffPath_false {path : List StmtId} {n : ℕ} {t : PlannedTest}
    {r : Bool × PlannedTest} (h : forRange n (abortOffPath path) (false, t) = .ok r)
    (hr : r.1 = false) : r.2 = t ∧
      ∀ tid < n, onPath path tid = false → (t.txn tid).status = .abort := by
  have hinv := forRange_inv (fun k (r : Bool × PlannedTest) => r.1 = false → r.2 = t ∧
      ∀ tid < k, onPath path tid = false → (t.txn tid).status = .abort)
    (fun _ => ⟨rfl, fun tid htid => by omega⟩)
    (fun k hk r r' ih hstep hflag => by
      unfold abortOffPath at hstep
      split at hstep
      · next hon =>
        cases hstep
        obtain ⟨h1, h2⟩ := ih hflag
        refine ⟨h1, fun tid htid hoff => ?_⟩
        rcases Nat.lt_succ_iff_lt_or_eq.1 htid with hlt | rfl
        · exact h2 tid hlt hoff
        · rw [hon] at hoff; cases hoff
      · obtain ⟨⟨changed, t1⟩, hchange, hstep⟩ := bind_eq_ok_iff.1 hstep
        cases hstep
        rw [Bool.or_eq_false_iff] at hflag
        obtain ⟨h1, h2⟩ := ih hflag.1
        obtain rfl : changed = false := hflag.2
        obtain ⟨rfl, hstatus⟩ := changeTxnStatus_false hchange
        refine ⟨h1, fun tid htid hoff => ?_⟩
        rcases Nat.lt_succ_iff_lt_or_eq.1 htid with hlt | rfl
        · exact h2 tid hlt hoff
        · rw [← h1]; exact hstatus) h
  exact hinv hr

/-- What the third loop has found when it has changed nothing. -/
theorem refineRound_false {q : AnalyzedQueue} {path : List StmtId} {t : PlannedTest}
    {g : StmtGraph} {s : Refining}
    (h : forRange t.plan.stmtNum (refineRound q path) ⟨fun _ => 0, false, g, t⟩ = .ok s)
    (hs : s.isRefined = false) : s.test = t ∧ ∀ i < t.plan.stmtNum, ¬ t.Dropped path i := by
  have hinv := forRange_inv
    (fun k (s : Refining) => s.isRefined = false → s.test = t ∧
      (∀ tid, onPath path tid = true → s.stmtPosOfTxn tid = posOf t.plan k tid) ∧
      ∀ i < k, ¬ t.Dropped path i)
    (fun _ => ⟨rfl, fun _ _ => rfl, fun i hi => by omega⟩)
    (fun k hk s s' ih hstep hflag => by
      simp only [refineRound] at hstep
      split at hstep
      · next hoff =>
        cases hstep
        obtain ⟨rfl, hpos, hnone⟩ := ih hflag
        refine ⟨rfl, fun tid hon => ?_, fun i hi hd => ?_⟩
        · rw [hpos tid hon, posOf_succ, if_neg]
          rintro rfl
          rw [hon] at hoff
          cases hoff
        · rcases Nat.lt_succ_iff_lt_or_eq.1 hi with hlt | rfl
          · exact hnone i hlt hd
          · rw [hd.2.1] at hoff; cases hoff
      next hon =>
      rw [Bool.not_eq_true, Bool.not_eq_false'] at hon
      have hnext : s.test = t → (∀ tid, onPath path tid = true →
          s.stmtPosOfTxn tid = posOf t.plan k tid) → ∀ tid, onPath path tid = true →
          Function.update s.stmtPosOfTxn (s.test.plan.tidQueue k)
            (s.stmtPosOfTxn (s.test.plan.tidQueue k) + 1) tid = posOf t.plan (k + 1) tid := by
        rintro rfl hpos tid htid
        rw [Function.update_apply, posOf_succ]
        by_cases heq : tid = s.test.plan.tidQueue k
        · rw [if_pos heq, if_pos heq.symm, ← heq, hpos tid htid]
        · rw [if_neg heq, if_neg (Ne.symm heq), hpos tid htid]
      split at hstep
      · next hpath =>
        cases hstep
        obtain ⟨rfl, hpos, hnone⟩ := ih hflag
        refine ⟨rfl, hnext rfl hpos, fun i hi hd => ?_⟩
        rcases Nat.lt_succ_iff_lt_or_eq.1 hi with hlt | rfl
        · exact hnone i hlt hd
        · rw [hpos _ hon] at hpath
          exact hd.2.2.1 (sid_eq s.test hk ▸ hpath)
      split at hstep
      · next htxn =>
        cases hstep
        obtain ⟨rfl, hpos, hnone⟩ := ih hflag
        refine ⟨rfl, hnext rfl hpos, fun i hi hd => ?_⟩
        rcases Nat.lt_succ_iff_lt_or_eq.1 hi with hlt | rfl
        · exact hnone i hlt hd
        · exact absurd (hd.2.2.2.1.symm.trans htxn) (by decide)
      split at hstep
      · next hinst =>
        cases hstep
        obtain ⟨rfl, hpos, hnone⟩ := ih hflag
        refine ⟨rfl, hnext rfl hpos, fun i hi hd => ?_⟩
        rcases Nat.lt_succ_iff_lt_or_eq.1 hi with hlt | rfl
        · exact hnone i hlt hd
        · exact absurd (hd.2.2.2.2.symm.trans hinst) (by decide)
      · obtain ⟨⟨g', changeSet⟩, -, hstep⟩ := bind_eq_ok_iff.1 hstep
        cases hstep
        cases hflag) h
  exact ⟨(hinv hs).1, (hinv hs).2.2⟩

/-- When nothing is changed, the transactions off the path are aborts already, and no
statement is dropped. -/
theorem refineStmtQueue_false {t t' : PlannedTest} {q : AnalyzedQueue} {g g' : StmtGraph}
    {path : List StmtId} (h : t.refineStmtQueue q g path = .ok (false, g', t')) :
    SameRun t t' ∧
      (∀ tid < t.transNum, onPath path tid = false → (t.txn tid).status = .abort) ∧
      ∀ i < t.plan.stmtNum, ¬ t.Dropped path i := by
  obtain ⟨⟨pos, t1⟩, hcopy, h⟩ := bind_eq_ok_iff.1 h
  obtain ⟨⟨isRefined, t2⟩, habort, h⟩ := bind_eq_ok_iff.1 h
  obtain ⟨s, hround, h⟩ := bind_eq_ok_iff.1 h
  have hflag : s.isRefined = false := by
    by_contra hc
    rw [Bool.not_eq_false] at hc
    rw [hc] at h
    cases h
  rw [hflag] at h
  cases h
  have hsame : SameRun t t1 := forRange_inv (fun _ r => SameRun t r.2) (SameRun.refl t)
    (fun i _ r r' hr hstep => hr.trans (copyTxnStmt_sameRun hstep)) hcopy
  have hmono : isRefined = false := by
    by_contra hc
    rw [Bool.not_eq_false] at hc
    subst hc
    have : s.isRefined = true := forRange_inv (fun _ s => s.isRefined = true) rfl
      (fun i _ s s' hs hstep => by
        simp only [refineRound] at hstep
        split at hstep
        · cases hstep; exact hs
        split at hstep
        · cases hstep; exact hs
        split at hstep
        · cases hstep; exact hs
        split at hstep
        · cases hstep; exact hs
        · obtain ⟨_, -, hstep⟩ := bind_eq_ok_iff.1 hstep
          cases hstep
          rfl) hround
    rw [this] at hflag
    cases hflag
  subst hmono
  obtain ⟨rfl, hoff⟩ := abortOffPath_false habort rfl
  obtain ⟨htest, hnone⟩ := refineRound_false hround hflag
  rw [htest]
  refine ⟨hsame, fun tid htid hp => ?_, fun i hi hd => ?_⟩
  · rw [← hsame.status]
    refine hoff tid ?_ hp
    obtain ⟨a, rfl⟩ := hsame.eq
    exact htid
  · rw [← hsame.dropped_iff] at hd
    exact hnone i (by rw [hsame.plan]; exact hi) hd

end PlannedTest

/-! Group queries leave the labels as they are. -/

namespace AnalyzedQueue

variable {q : AnalyzedQueue} {g : StmtGraph}

theorem findZeroIndegree_sameLabels {st : SortState} {i : ℕ} {g : StmtGraph} {checked : Finset ℕ}
    {r : StmtGraph × Option ℕ} (h : q.findZeroIndegree st i g checked = .ok r) :
    SameLabels g r.1 := by
  induction i generalizing g checked with
  | zero =>
    cases h
    exact SameLabels.refl g
  | succ i ih =>
    rw [findZeroIndegree] at h
    split at h
    · exact ih h
    split at h
    · exact ih h
    · obtain ⟨⟨g', idxSet⟩, hquery, h⟩ := bind_eq_ok_iff.1 h
      have hsame : SameLabels g g' := getInstrumentedStmtSet_sameLabels hquery
      dsimp only at h
      split at h
      · exact hsame.trans (ih h)
      · cases h
        exact hsame

theorem deleteRound_sameLabels {st : SortState} {i : ℕ} {s s' : DeleteSearch}
    (h : q.deleteRound st i s = .ok s') : SameLabels s.graph s'.graph := by
  unfold deleteRound at h
  split at h
  · cases h
    exact SameLabels.refl _
  split at h
  · cases h
    exact SameLabels.refl _
  · obtain ⟨⟨g', idxSet⟩, hquery, h⟩ := bind_eq_ok_iff.1 h
    have hsame : SameLabels s.graph g' := getInstrumentedStmtSet_sameLabels hquery
    cases h
    split <;> exact hsame

theorem sortRound_sameLabels {st st' : SortState} (h : q.sortRound st = .ok st') :
    SameLabels st.graph st'.graph := by
  obtain ⟨⟨g, zero⟩, hfind, h⟩ := bind_eq_ok_iff.1 h
  have hsame : SameLabels st.graph g := findZeroIndegree_sameLabels hfind
  cases zero with
  | none =>
    obtain ⟨s, hsearch, h⟩ := bind_eq_ok_iff.1 h
    have hsearch : SameLabels g s.graph := forRange_inv
      (fun _ (s : DeleteSearch) => SameLabels g s.graph) (SameLabels.refl g)
      (fun i _ s s' hs hstep => hs.trans (deleteRound_sameLabels hstep)) hsearch
    split at h
    · cases h
    · obtain ⟨⟨g', idxSet⟩, hquery, h⟩ := bind_eq_ok_iff.1 h
      have hquery : SameLabels s.graph g' := getInstrumentedStmtSet_sameLabels hquery
      cases h
      rw [graph_foldl_deleteStmt]
      exact (hsame.trans hsearch).trans hquery
  | some i =>
    obtain ⟨⟨g', idxSet⟩, hquery, h⟩ := bind_eq_ok_iff.1 h
    have hquery : SameLabels g g' := getInstrumentedStmtSet_sameLabels hquery
    cases h
    rw [graph_foldl_outputStmt]
    exact hsame.trans hquery

theorem sortLoop_sameLabels {fuel : ℕ} {st st' : SortState} (h : q.sortLoop fuel st = .ok st') :
    SameLabels st.graph st'.graph := by
  induction fuel generalizing st with
  | zero => cases h
  | succ fuel ih =>
    rw [sortLoop] at h
    split at h
    · obtain ⟨st1, hround, h⟩ := bind_eq_ok_iff.1 h
      exact (sortRound_sameLabels hround).trans (ih h)
    · cases h
      exact SameLabels.refl _

theorem topologicalSortPath_sameLabels {deletedNodes : Finset StmtId} {st : SortState}
    (h : q.topologicalSortPath g deletedNodes = .ok st) : SameLabels g st.graph := by
  obtain ⟨st1, hloop, h⟩ := bind_eq_ok_iff.1 h
  obtain ⟨path, -, h⟩ := bind_eq_ok_iff.1 h
  obtain ⟨path', -, h⟩ := bind_eq_ok_iff.1 h
  cases h
  have hinit : (q.sortInit g deletedNodes).graph = g := graph_foldl_deleteStmt _ _
  have hsame := sortLoop_sameLabels hloop
  rwa [hinit] at hsame

end AnalyzedQueue

theorem PlannedTest.refineStmtQueue_sameLabels {t t' : PlannedTest} {q : AnalyzedQueue}
    {g g' : StmtGraph} {path : List StmtId} {b : Bool}
    (h : t.refineStmtQueue q g path = .ok (b, g', t')) : SameLabels g g' := by
  obtain ⟨⟨pos, t1⟩, -, h⟩ := bind_eq_ok_iff.1 h
  obtain ⟨⟨isRefined, t2⟩, -, h⟩ := bind_eq_ok_iff.1 h
  obtain ⟨s, hround, h⟩ := bind_eq_ok_iff.1 h
  have hsame : SameLabels g s.graph := forRange_inv
    (fun _ (s : Refining) => SameLabels g s.graph) (SameLabels.refl g)
    (fun i _ s s' hs hstep => by
      simp only [refineRound] at hstep
      split at hstep
      · cases hstep; exact hs
      split at hstep
      · cases hstep; exact hs
      split at hstep
      · cases hstep; exact hs
      split at hstep
      · cases hstep; exact hs
      · obtain ⟨r, hquery, hstep⟩ := bind_eq_ok_iff.1 hstep
        cases hstep
        exact hs.trans (getInstrumentedStmtSet_sameLabels hquery)) hround
  split at h
  · cases h
    exact hsame
  · cases h
    exact hsame

variable {Val : Type}

theorem copiesOf_sameLabels {q : AnalyzedQueue} {before : List (Emitted Val)} {e : Emitted Val}
    {pos : ℕ} {g : StmtGraph} {r : ℕ × StmtGraph} (h : copiesOf q before e pos g = .ok r) :
    SameLabels g r.2 := by
  unfold copiesOf at h
  split at h
  · cases h
    exact SameLabels.refl g
  split at h
  · cases h
  split at h
  · cases h
    exact SameLabels.refl g
  · obtain ⟨⟨g', idxSet⟩, hquery, h⟩ := bind_eq_ok_iff.1 h
    cases h
    exact getInstrumentedStmtSet_sameLabels hquery

theorem inferInstrument_sameLabels {q : AnalyzedQueue} {before done after : List (Emitted Val)}
    {g : StmtGraph} {r : List (Emitted Val) × StmtGraph}
    (h : inferInstrument q before done after g = .ok r) : SameLabels g r.2 := by
  induction after generalizing done g r with
  | nil =>
    cases h
    exact SameLabels.refl g
  | cons e after ih =>
    obtain ⟨c, hcopies, h⟩ := bind_eq_ok_iff.1 h
    obtain ⟨rest, hrest, h⟩ := bind_eq_ok_iff.1 h
    cases h
    have hsame : SameLabels c.2 rest.2 := ih hrest
    exact (copiesOf_sameLabels hcopies).trans hsame

/-! The iterations of the loop. -/

namespace RefineState

variable {env : RoundEnv Val} {fuel : ℕ} {deletedNodes : Finset StmtId}
  {r r' s s' : RefineState Val} {exit : RefineExit}

/-- An iteration that changed something and found a path. -/
def Iteration (env : RoundEnv Val) (deletedNodes : Finset StmtId) (r r' : RefineState Val) : Prop :=
  ∃ s fuel, r.refineStmtQueue = .ok (true, s) ∧ s.rerun env fuel deletedNodes = .ok (none, r')

/-- The states at the loop's head. -/
def Iterates (env : RoundEnv Val) (deletedNodes : Finset StmtId) :
    RefineState Val → RefineState Val → Prop :=
  Relation.ReflTransGen (Iteration env deletedNodes)

/-- The last call of `refine_stmt_queue`, and the run after it unless nothing changed. -/
theorem loop_exit (h : loop env deletedNodes fuel r = .ok (exit, r')) :
    ∃ r1, Iterates env deletedNodes r r1 ∧
      (exit = .unchanged ∧ r1.refineStmtQueue = .ok (false, r') ∨
        ∃ s fuel, r1.refineStmtQueue = .ok (true, s) ∧
          s.rerun env fuel deletedNodes = .ok (some exit, r')) := by
  induction fuel generalizing r with
  | zero => cases h
  | succ fuel ih =>
    obtain ⟨⟨isRefined, s⟩, hrefine, h⟩ := bind_eq_ok_iff.1 h
    cases isRefined with
    | false =>
      cases h
      exact ⟨r, .refl, Or.inl ⟨rfl, hrefine⟩⟩
    | true =>
      obtain ⟨⟨exit', s'⟩, hrerun, h⟩ := bind_eq_ok_iff.1 h
      cases exit' with
      | some exit' =>
        cases h
        exact ⟨r, .refl, Or.inr ⟨s, fuel, hrefine, hrerun⟩⟩
      | none =>
        obtain ⟨r1, hiter, hend⟩ := ih h
        exact ⟨r1, .head ⟨s, fuel, hrefine, hrerun⟩ hiter, hend⟩

/-- The analyzers are the same, and `init_da` has the same labels. -/
structure SameInit (r r' : RefineState Val) : Prop where
  da : r'.initDa.da = r.initDa.da
  labels : SameLabels r.initDa.graph r'.initDa.graph

theorem SameInit.refl (r : RefineState Val) : SameInit r r := ⟨rfl, SameLabels.refl _⟩

theorem SameInit.trans {r'' : RefineState Val} (h : SameInit r r') (h' : SameInit r' r'') :
    SameInit r r'' := ⟨h'.da.trans h.da, h.labels.trans h'.labels⟩

/-- What a call of `refine_stmt_queue` is, whichever analyzer it is given. -/
theorem refineStmtQueue_spec {b : Bool} (h : r.refineStmtQueue = .ok (b, s)) :
    ∃ q g g' planned, r.test.planned.refineStmtQueue q g r.longestStmtPath = .ok (b, g', planned) ∧
      s.test = (if b then (r.test.withPlanned planned).clearExecutionStatus
        else r.test.withPlanned planned) ∧
      s.longestStmtPath = r.longestStmtPath ∧ SameInit r s ∧
      s.tmpDa.map (·.da) = r.tmpDa.map (·.da) ∧
      ∀ a ∈ r.tmpDa, ∀ a' ∈ s.tmpDa, SameLabels a.graph a'.graph := by
  unfold refineStmtQueue at h
  cases htmp : r.tmpDa with
  | none =>
    rw [htmp] at h
    obtain ⟨⟨isRefined, g', planned⟩, hrefine, h⟩ := bind_eq_ok_iff.1 h
    cases h
    refine ⟨_, _, _, _, hrefine, rfl, rfl,
      ⟨rfl, PlannedTest.refineStmtQueue_sameLabels hrefine⟩, rfl, ?_⟩
    intro a ha
    cases ha
  | some a =>
    rw [htmp] at h
    obtain ⟨⟨isRefined, g', planned⟩, hrefine, h⟩ := bind_eq_ok_iff.1 h
    cases h
    refine ⟨_, _, _, _, hrefine, rfl, rfl, ⟨rfl, SameLabels.refl _⟩, rfl, ?_⟩
    rintro b hb b' hb'
    obtain rfl := Option.mem_some_iff.1 hb
    obtain rfl := Option.mem_some_iff.1 hb'
    exact PlannedTest.refineStmtQueue_sameLabels hrefine

theorem reschedule_spec (h : s.reschedule env fuel = .ok s') :
    s'.longestStmtPath = s.longestStmtPath ∧ s'.tmpDa = s.tmpDa ∧ SameInit s s' := by
  obtain ⟨test, -, h⟩ := bind_eq_ok_iff.1 h
  obtain ⟨⟨after, g⟩, hinfer, h⟩ := bind_eq_ok_iff.1 h
  obtain ⟨test', -, h⟩ := bind_eq_ok_iff.1 h
  cases h
  exact ⟨rfl, rfl, rfl, inferInstrument_sameLabels hinfer⟩

/-- The two ends of the body: the run is given up, or its path is the new one. -/
theorem rerun_spec {exit : Option RefineExit}
    (h : s.rerun env fuel deletedNodes = .ok (exit, s')) : SameInit s s' ∧
      (exit = some .errorRate ∧ s'.test.errorRateHigh = true ∧
          s'.longestStmtPath = s.longestStmtPath ∧ s'.tmpDa = s.tmpDa ∨
        s'.test.errorRateHigh = false ∧ ∃ da sort,
          s'.test.analyzeTxnDependency = .ok (false, da) ∧
          da.queue.topologicalSortPath da.graphs.stmt deletedNodes = .ok sort ∧
          s'.tmpDa = some ⟨da, sort.graph⟩ ∧ s'.longestStmtPath = sort.path ∧
          exit = if sort.path = [] then some .emptyPath else none) := by
  obtain ⟨s1, hsched, h⟩ := bind_eq_ok_iff.1 h
  obtain ⟨test, -, h⟩ := bind_eq_ok_iff.1 h
  obtain ⟨hpath, htmp, hinit⟩ := reschedule_spec hsched
  cases herr : test.errorRateHigh with
  | true =>
    rw [herr] at h
    cases h
    exact ⟨⟨hinit.da, hinit.labels⟩, Or.inl ⟨rfl, herr, hpath, htmp⟩⟩
  | false =>
    rw [herr] at h
    obtain ⟨⟨bug, da⟩, hda, h⟩ := bind_eq_ok_iff.1 h
    cases bug with
    | true => cases h
    | false =>
      obtain ⟨sort, hsort, h⟩ := bind_eq_ok_iff.1 h
      cases h
      exact ⟨⟨hinit.da, hinit.labels⟩, Or.inr ⟨herr, da, sort, hda, hsort, rfl, rfl, rfl⟩⟩

theorem Iterates.sameInit (h : Iterates env deletedNodes r r') : SameInit r r' := by
  induction h with
  | refl => exact SameInit.refl r
  | tail _ hstep ih =>
    obtain ⟨s, fuel, hrefine, hrerun⟩ := hstep
    obtain ⟨-, -, -, -, -, -, -, hsame, -⟩ := refineStmtQueue_spec hrefine
    exact (ih.trans hsame).trans (rerun_spec hrerun).1

theorem loop_sameInit (h : loop env deletedNodes fuel r = .ok (exit, r')) : SameInit r r' := by
  obtain ⟨r1, hiter, ⟨-, hrefine⟩ | ⟨s, fuel, hrefine, hrerun⟩⟩ := loop_exit h
  · obtain ⟨-, -, -, -, -, -, -, hsame, -⟩ := refineStmtQueue_spec hrefine
    exact hiter.sameInit.trans hsame
  · obtain ⟨-, -, -, -, -, -, -, hsame, -⟩ := refineStmtQueue_spec hrefine
    exact (hiter.sameInit.trans hsame).trans (rerun_spec hrerun).1

end RefineState

end DbFuzz
