import DbFuzz.TxCheck.RowEdges
import DbFuzz.TxCheck.Refine

/-! The statements `refine_stmt_queue` replaces: the third loop, and the whole function. -/

namespace DbFuzz

open Loop

namespace PlannedTest

/-! What the third loop does. -/

/-- The id of a planned statement. -/
def sid (t : PlannedTest) (i : ℕ) : StmtId :=
  .ofQueue ((List.range t.plan.stmtNum).map t.plan.tidQueue) i

/-- A basic statement of a transaction of the path that is not on the path itself. -/
def Dropped (t : PlannedTest) (path : List StmtId) (i : ℕ) : Prop :=
  i < t.plan.stmtNum ∧ onPath path (t.plan.tidQueue i) = true ∧ t.sid i ∉ path ∧
    t.isTxnStmt i = false ∧ (t.use i).isInstrumented = false

instance (t : PlannedTest) (path : List StmtId) (i : ℕ) : Decidable (t.Dropped path i) :=
  inferInstanceAs (Decidable (_ ∧ _ ∧ _ ∧ _ ∧ _))

theorem sid_eq (t : PlannedTest) {i : ℕ} (hi : i < t.plan.stmtNum) :
    t.sid i = ⟨t.plan.tidQueue i, posOf t.plan i (t.plan.tidQueue i)⟩ := by
  have hget : ((List.range t.plan.stmtNum).map t.plan.tidQueue).getD i 0 = t.plan.tidQueue i := by
    simp [List.getD, hi]
  have htake : ((List.range t.plan.stmtNum).map t.plan.tidQueue).take (i + 1) =
      (List.range (i + 1)).map t.plan.tidQueue := by
    rw [← List.map_take, List.take_range, Nat.min_eq_left hi]
  have hcount : ((List.range (i + 1)).map t.plan.tidQueue).count (t.plan.tidQueue i) =
      posOf t.plan (i + 1) (t.plan.tidQueue i) := by
    unfold posOf TestPlan.ofTxn
    rw [List.count_eq_countP, List.countP_map, List.countP_eq_length_filter]
    rfl
  unfold sid StmtId.ofQueue
  rw [hget, htake]
  dsimp only
  rw [hcount, posOf_succ, if_pos rfl]
  simp

/-- The indices whose group query has been answered. -/
def Changed (t : PlannedTest) (q : AnalyzedQueue) (g : StmtGraph) (path : List StmtId) (i k : ℕ) :
    Prop :=
  ∃ j < i, t.Dropped path j ∧ k ∈ q.stmtSet g j

/-- The state of the third loop before round `i`. -/
structure Refined (t : PlannedTest) (q : AnalyzedQueue) (g : StmtGraph) (path : List StmtId)
    (b : Bool) (i : ℕ) (s : Refining) : Prop where
  pos : ∀ tid, onPath path tid = true → s.stmtPosOfTxn tid = posOf t.plan i tid
  graph : AnalyzedQueue.SameLabels g s.graph
  stmtNum : s.test.plan.stmtNum = t.plan.stmtNum
  tidQueue : s.test.plan.tidQueue = t.plan.tidQueue
  transNum : s.test.transNum = t.transNum
  txn : s.test.txn = t.txn
  isRefined : s.isRefined = true ↔ b = true ∨ ∃ j < i, t.Dropped path j
  replaced : ∀ k, t.Changed q g path i k →
    s.test.isTxnStmt k = true ∧ (s.test.use k).isInstrumented = false ∧
      s.test.stmt k = spaceHolderStmt
  kept : ∀ k, ¬t.Changed q g path i k → s.test.isTxnString k = t.isTxnString k ∧
    s.test.use k = t.use k ∧ s.test.stmt k = t.stmt k

theorem placeHolders_replaced (t : PlannedTest) {changeSet : Finset ℕ} {k : ℕ}
    (hk : k ∈ changeSet) : (t.placeHolders changeSet).isTxnStmt k = true ∧
      ((t.placeHolders changeSet).use k).isInstrumented = false ∧
      (t.placeHolders changeSet).stmt k = spaceHolderStmt := by
  simp [placeHolders, isTxnStmt, use, stmt, hk]

theorem placeHolders_kept (t : PlannedTest) {changeSet : Finset ℕ} {k : ℕ}
    (hk : k ∉ changeSet) : (t.placeHolders changeSet).isTxnString k = t.isTxnString k ∧
      (t.placeHolders changeSet).use k = t.use k ∧ (t.placeHolders changeSet).stmt k = t.stmt k := by
  simp [placeHolders, use, stmt, hk]

/-- A round that adds no group: the statement is not dropped, or its group was replaced. -/
theorem Refined.keep {t : PlannedTest} {q : AnalyzedQueue} {g : StmtGraph} {path : List StmtId}
    {b : Bool} {i : ℕ} {s : Refining} (h : Refined t q g path b i s) {pos : ℕ → ℕ}
    (hpos : ∀ tid, onPath path tid = true → pos tid = posOf t.plan (i + 1) tid)
    (hold : t.Dropped path i → ∃ j < i, t.Dropped path j ∧ q.stmtSet g i = q.stmtSet g j) :
    Refined t q g path b (i + 1) { s with stmtPosOfTxn := pos } := by
  have hchanged : ∀ k, t.Changed q g path (i + 1) k ↔ t.Changed q g path i k := by
    intro k
    constructor
    · rintro ⟨j, hj, hd, hk⟩
      rcases Nat.lt_succ_iff_lt_or_eq.1 hj with hj | rfl
      · exact ⟨j, hj, hd, hk⟩
      · obtain ⟨j', hj', hd', he⟩ := hold hd
        exact ⟨j', hj', hd', he ▸ hk⟩
    · rintro ⟨j, hj, h⟩
      exact ⟨j, by omega, h⟩
  have hdropped : (∃ j < i + 1, t.Dropped path j) ↔ ∃ j < i, t.Dropped path j := by
    constructor
    · rintro ⟨j, hj, hd⟩
      rcases Nat.lt_succ_iff_lt_or_eq.1 hj with hj | rfl
      · exact ⟨j, hj, hd⟩
      · obtain ⟨j', hj', hd', -⟩ := hold hd
        exact ⟨j', hj', hd'⟩
    · rintro ⟨j, hj, hd⟩
      exact ⟨j, by omega, hd⟩
  exact
    { h with
      pos := hpos
      isRefined := by rw [hdropped]; exact h.isRefined
      replaced := fun k hk => h.replaced k ((hchanged k).1 hk)
      kept := fun k hk => h.kept k fun hc => hk ((hchanged k).2 hc) }

/-- A round that replaces the group of its statement. -/
theorem Refined.add {t : PlannedTest} {q : AnalyzedQueue} {g g' : StmtGraph} {path : List StmtId}
    {b : Bool} {i : ℕ} {s : Refining} (h : Refined t q g path b i s) {pos : ℕ → ℕ}
    (hpos : ∀ tid, onPath path tid = true → pos tid = posOf t.plan (i + 1) tid)
    (hd : t.Dropped path i) (hg : AnalyzedQueue.SameLabels g g') :
    Refined t q g path b (i + 1)
      { stmtPosOfTxn := pos, isRefined := true, graph := g'
        test := s.test.placeHolders (q.stmtSet g i) } := by
  have hchanged : ∀ k, t.Changed q g path (i + 1) k ↔
      k ∈ q.stmtSet g i ∨ t.Changed q g path i k := by
    intro k
    constructor
    · rintro ⟨j, hj, hdj, hk⟩
      rcases Nat.lt_succ_iff_lt_or_eq.1 hj with hj | rfl
      · exact Or.inr ⟨j, hj, hdj, hk⟩
      · exact Or.inl hk
    · rintro (hk | ⟨j, hj, h⟩)
      · exact ⟨i, by omega, hd, hk⟩
      · exact ⟨j, by omega, h⟩
  refine
    { pos := hpos, graph := hg, stmtNum := h.stmtNum, tidQueue := h.tidQueue
      transNum := h.transNum, txn := h.txn
      isRefined := iff_of_true rfl (Or.inr ⟨i, by omega, hd⟩)
      replaced := fun k hk => ?_, kept := fun k hk => ?_ }
  · by_cases hmem : k ∈ q.stmtSet g i
    · exact placeHolders_replaced _ hmem
    · obtain ⟨h1, h2, h3⟩ := placeHolders_kept s.test hmem
      have hprev := h.replaced k (((hchanged k).1 hk).resolve_left hmem)
      refine ⟨?_, by rw [h2]; exact hprev.2.1, by rw [h3]; exact hprev.2.2⟩
      have := hprev.1
      unfold isTxnStmt at this ⊢
      rwa [h1, h2]
  · rw [hchanged, not_or] at hk
    obtain ⟨h1, h2, h3⟩ := placeHolders_kept s.test hk.1
    obtain ⟨e1, e2, e3⟩ := h.kept k hk.2
    exact ⟨h1.trans e1, h2.trans e2, h3.trans e3⟩

theorem refineRound_ok {t : PlannedTest} {q : AnalyzedQueue} {g : StmtGraph} {path : List StmtId}
    {b : Bool} {i : ℕ} {s : Refining} (hnum : q.stmtNum = t.plan.stmtNum) (hi : i < t.plan.stmtNum)
    (h : Refined t q g path b i s) :
    ∃ s', refineRound q path i s = .ok s' ∧ Refined t q g path b (i + 1) s' := by
  have hiq : i < q.stmtNum := hnum ▸ hi
  unfold refineRound
  rw [h.tidQueue]
  dsimp only
  by_cases hon : onPath path (t.plan.tidQueue i) = true
  · have hpos : ∀ tid, onPath path tid = true → Function.update s.stmtPosOfTxn (t.plan.tidQueue i)
        (s.stmtPosOfTxn (t.plan.tidQueue i) + 1) tid = posOf t.plan (i + 1) tid := by
      intro tid htid
      rw [Function.update_apply, posOf_succ]
      by_cases he : tid = t.plan.tidQueue i
      · rw [if_pos he, if_pos he.symm, he, h.pos _ hon]
      · rw [if_neg he, if_neg fun h' => he h'.symm, h.pos _ htid]
    rw [if_neg (by simp [hon]), h.pos _ hon, ← sid_eq t hi]
    rw [h.pos _ hon] at hpos
    by_cases hpath : t.sid i ∈ path
    · rw [if_pos hpath]
      exact ⟨_, rfl, h.keep hpos fun hd => absurd hpath hd.2.2.1⟩
    · rw [if_neg hpath]
      by_cases hchanged : t.Changed q g path i i
      · -- the group of `i` was already replaced, with `i` in it
        rw [if_pos (h.replaced i hchanged).1]
        refine ⟨_, rfl, h.keep hpos fun _ => ?_⟩
        obtain ⟨j, hj, hdj, hij⟩ := hchanged
        exact ⟨j, hj, hdj, AnalyzedQueue.stmtSet_eq (by omega) hij⟩
      · obtain ⟨e1, e2, -⟩ := h.kept i hchanged
        have hcasted : s.test.isTxnStmt i = t.isTxnStmt i := by
          unfold isTxnStmt
          rw [e1, e2]
        rw [hcasted, e2]
        split
        · next hcast =>
          exact ⟨_, rfl, h.keep hpos fun hd => by simp [hd.2.2.2.1] at hcast⟩
        · next hcast =>
          split
          · next hinst =>
            exact ⟨_, rfl, h.keep hpos fun hd => by simp [hd.2.2.2.2] at hinst⟩
          · next hinst =>
            obtain ⟨g', hquery, hg'⟩ := AnalyzedQueue.getInstrumentedStmtSet_eq h.graph hiq
            rw [hquery]
            exact ⟨_, rfl, h.add hpos ⟨hi, hon, hpath, by simpa using hcast, by simpa using hinst⟩ hg'⟩
  · rw [if_pos (by simpa using hon)]
    have hpos : ∀ tid, onPath path tid = true → s.stmtPosOfTxn tid = posOf t.plan (i + 1) tid := by
      intro tid htid
      have hne : t.plan.tidQueue i ≠ tid := fun he => hon (by rw [he]; exact htid)
      rw [posOf_succ, if_neg hne, h.pos tid htid]
    exact ⟨s, rfl, h.keep hpos fun hd => absurd hd.2.1 hon⟩

/-! The refined queue. -/

/-- The analyzer was built from a run of the planned queue: `order` lists the planned
indices in the order of execution, each transaction's own order kept. -/
structure BuiltFromRun (t : PlannedTest) (a : DependencyAnalyzer) (order : List ℕ) : Prop where
  perm : order.Perm (List.range t.plan.stmtNum)
  ascending : order.Pairwise fun i j => t.plan.tidQueue i = t.plan.tidQueue j → i < j
  tids : a.queue.fTxnIdQueue = order.map t.plan.tidQueue

/-- `k` lies in the instrument group of `i`, both planned indices. -/
def InGroup (a : DependencyAnalyzer) (order : List ℕ) (i k : ℕ) : Prop :=
  ∃ m ∈ a.queue.stmtSet a.graphs.stmt (order.idxOf i), order[m]? = some k

/-- A run of `trans_test`, analyzed by `analyze_txn_dependency`. -/
theorem builtFromRun {t : PlannedTest} {s : TransTest} {a : DependencyAnalyzer}
    {initContent : List StmtOutput} (hclear : t.test.Cleared)
    (hrun : transTest t.plan t.test = .ok s)
    (ha : dependencyAnalyzer ({ t with test := s }.analyzerInput initContent) = .ok a) :
    ∃ order, { t with test := s }.BuiltFromRun a order := by
  obtain ⟨order, res, hrec⟩ := transTest_record hclear hrun
  obtain ⟨_, _, _, _, _, hbuilt⟩ := dependencyAnalyzer_run ha
  refine ⟨order, hrec.perm, hrec.ascending, ?_⟩
  rw [(copy_fields hbuilt.copy).2.2.1, ← hrec.realTid]
  rfl

theorem BuiltFromRun.stmtNum {t : PlannedTest} {a : DependencyAnalyzer} {order : List ℕ}
    (h : t.BuiltFromRun a order) : a.queue.stmtNum = t.plan.stmtNum := by
  rw [AnalyzedQueue.stmtNum, h.tids, List.length_map, h.perm.length_eq, List.length_range]

/-- Where no statement of a group was moved, the group has the same planned and
executed indices. -/
theorem BuiltFromRun.inGroup_iff {t : PlannedTest} {a : DependencyAnalyzer} {order : List ℕ}
    (h : t.BuiltFromRun a order) {i : ℕ} (hi : i < t.plan.stmtNum)
    (hplace : ∀ k, InGroup a order i k → order[k]? = some k) (k : ℕ) :
    InGroup a order i k ↔ k ∈ a.queue.stmtSet a.graphs.stmt i := by
  have hnodup : order.Nodup := h.perm.nodup_iff.2 List.nodup_range
  have hmem : i ∈ order := h.perm.mem_iff.2 (List.mem_range.2 hi)
  have hidx : order.idxOf i < a.queue.stmtNum := by
    rw [h.stmtNum, ← List.length_range (n := t.plan.stmtNum), ← h.perm.length_eq]
    exact List.idxOf_lt_length_iff.2 hmem
  have hself : order[order.idxOf i]? = some i := by
    rw [List.getElem?_eq_getElem (List.idxOf_lt_length_iff.2 hmem), List.getElem_idxOf]
  have heq : ∀ {m k : ℕ}, order[m]? = some k → order[k]? = some k → m = k := by
    intro m k hm hk
    obtain ⟨hm', hme⟩ := List.getElem?_eq_some_iff.1 hm
    obtain ⟨hk', hke⟩ := List.getElem?_eq_some_iff.1 hk
    exact (hnodup.getElem_inj_iff).1 (hme.trans hke.symm)
  have hi' : order.idxOf i = i :=
    heq hself (hplace i ⟨_, AnalyzedQueue.self_mem_stmtSet hidx, hself⟩)
  constructor
  · rintro ⟨m, hm, hmk⟩
    rw [← heq hmk (hplace k ⟨m, hm, hmk⟩), ← hi']
    exact hm
  · intro hk
    have hlt : k < order.length := by
      rw [h.perm.length_eq, List.length_range, ← h.stmtNum]
      exact AnalyzedQueue.lt_of_mem_stmtSet (by rw [h.stmtNum]; exact hi) hk
    have hin : InGroup a order i order[k] :=
      ⟨k, by rw [hi']; exact hk, List.getElem?_eq_getElem hlt⟩
    have := heq (List.getElem?_eq_getElem hlt) (hplace _ hin)
    rwa [← this] at hin

theorem Refined.init {t : PlannedTest} {q : AnalyzedQueue} {g : StmtGraph} {path : List StmtId}
    {b : Bool} : Refined t q g path b 0 ⟨fun _ => 0, b, g, t⟩ where
  pos _ _ := rfl
  graph := AnalyzedQueue.SameLabels.refl g
  stmtNum := rfl
  tidQueue := rfl
  transNum := rfl
  txn := rfl
  isRefined := by simp
  replaced _ h := by obtain ⟨j, hj, -⟩ := h; omega
  kept _ _ := ⟨rfl, rfl, rfl⟩

theorem Refined.aligned {t : PlannedTest} {q : AnalyzedQueue} {g : StmtGraph} {path : List StmtId}
    {b : Bool} {i : ℕ} {s : Refining} (h : Refined t q g path b i s) (ht : t.Aligned) :
    s.test.Aligned where
  tid_lt := by rw [h.stmtNum, h.tidQueue, h.transNum]; exact ht.tid_lt
  begin := by rw [h.stmtNum, h.tidQueue, h.transNum]; exact ht.begin
  length tid htid := by
    rw [h.transNum] at htid
    rw [h.txn, h.stmtNum, ht.length tid htid]
    unfold TestPlan.ofTxn
    rw [h.tidQueue]

/-- Transactions of the path keep their statements in the second loop. -/
theorem Aborts.dropped_iff {t t' : PlannedTest} {path : List StmtId}
    (h : Aborts t t' (t.TurnsAbort path)) (i : ℕ) : t'.Dropped path i ↔ t.Dropped path i := by
  have hsid : t'.sid i = t.sid i := by
    unfold sid
    rw [h.plan]
  have huse : t'.use i = t.use i := by
    unfold use
    rw [h.plan]
  have htxn : onPath path (t.plan.tidQueue i) = true → t'.isTxnStmt i = t.isTxnStmt i := by
    intro hon
    have hkept := h.kept i fun hc => by simp [TurnsAbort, hon] at hc
    unfold isTxnStmt
    rw [hkept.2, huse]
  unfold Dropped
  rw [h.plan, hsid, huse]
  constructor
  · rintro ⟨hi, hon, hpath, hcast, hinst⟩
    exact ⟨hi, hon, hpath, htxn hon ▸ hcast, hinst⟩
  · rintro ⟨hi, hon, hpath, hcast, hinst⟩
    exact ⟨hi, hon, hpath, (htxn hon).trans hcast, hinst⟩

end PlannedTest

/-- The groups of a graph the callers may hold are those of the constructed graph. -/
theorem DependencyAnalyzer.Derived.stmtSet_eq {a : DependencyAnalyzer} {g : StmtGraph} {i : ℕ}
    (he : a.Explained) (hg : a.Derived g) (hi : i < a.queue.stmtNum) :
    a.queue.stmtSet g i = a.queue.stmtSet a.graphs.stmt i := by
  have hlinked : a.queue.Linked g = a.queue.Linked a.graphs.stmt := by
    funext x y
    exact propext ((hg.linked_iff he).trans ((Derived.refl a).linked_iff he).symm)
  ext k
  rw [AnalyzedQueue.mem_stmtSet hi, AnalyzedQueue.mem_stmtSet hi, AnalyzedQueue.SameGroup,
    AnalyzedQueue.SameGroup, hlinked]

namespace PlannedTest

/-- The planned order is `B0 B1 S0 R1 U1 R1 C0 C1`. -/
def updateTest (answers : List TestResult) : PlannedTest :=
  let texts := ["BEGIN", "BEGIN", "select a from t_1", "select * from t_0 where c = 0",
    "update t_0 set c = 1 where c = 0", "select * from t_0 where wkey = 3", "COMMIT", "COMMIT"]
  let usages : List StmtUsage := [.mk' .initType false, .mk' .initType false,
    ⟨.selectRead, false, ""⟩, ⟨.beforeWriteRead, true, "t_0"⟩, ⟨.updateWrite, false, "t_0"⟩,
    ⟨.afterWriteRead, true, "t_0"⟩, .mk' .initType false, .mk' .initType false]
  { plan :=
      { stmtNum := 8, tidQueue := fun i => [0, 1, 0, 1, 1, 1, 0, 1].getD i 0
        stmtUse := fun i => usages.getD i (.mk' .initType false)
        commitStmt := "COMMIT", abortStmt := "ROLLBACK"
        dbms := fun k => answers.getD k (.ok []) }
    transNum := 2
    isTxnString := fun i => i ∈ [0, 1, 6, 7]
    test :=
      { stmtQueue := fun i => texts.getD i ""
        transArr := fun tid => ⟨false, if tid = 0 then ["BEGIN", "select a from t_1", "COMMIT"] else
          ["BEGIN", "select * from t_0 where c = 0", "update t_0 set c = 1 where c = 0",
            "select * from t_0 where wkey = 3", "COMMIT"], [], [], .commit⟩
        statusQueue := fun _ => false
        realTidQueue := [], realStmtQueue := [], realOutputQueue := [], realStmtUsage := []
        calls := [] } }

/-- The run, the analysis and the refinement: the order of execution, the statements
dropped and the new text of each statement. -/
def refineAfterRun (t : PlannedTest) (path : List StmtId) :
    Except Failure (List ℕ × List ℕ × List String) := do
  let s ← transTest t.plan t.test
  let t := { t with test := s }
  let a ← dependencyAnalyzer (t.analyzerInput [])
  let (_, _, t') ← t.refineStmtQueue a.queue a.graphs.stmt path
  return (s.realTidQueue, (List.range t.plan.stmtNum).filter (t.Dropped path ·),
    (List.range t.plan.stmtNum).map t'.stmt)

/-- The analyzer input of the run in planned order. -/
def updateInput : AnalyzerInput where
  initOutput := []
  totalOutput := List.replicate 8 []
  finalTidQueue := [0, 1, 0, 1, 1, 1, 0, 1]
  finalStmtUsage := (List.range 8).map (updateTest []).plan.stmtUse
  finalTxnStatus := [.commit, .commit]
  primaryKeyIdx := 1
  writeOpKeyIdx := 0

end PlannedTest

end DbFuzz
