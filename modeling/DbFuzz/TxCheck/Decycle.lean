import DbFuzz.TxCheck.RealQueue
import DbFuzz.TxCheck.RoundCheck
import DbFuzz.TxCheck.RunLog
import DbFuzz.TxCheck.TxnSort

/-! `txn_decycle_test` (`tx_general_process.cc`): a test case is run, and either one of the
transactions that cannot be sorted is blanked and the case tried again, or the sorted
transactions are run one after the other and compared. -/

namespace DbFuzz

open Loop

/-- An entry of `stmt_queue`, `tid_queue` and `usage_queue`. -/
structure CaseStmt (Val : Type) where
  stmt : Prod Val
  tid : ℕ
  usage : StmtUsage

/-- What the calls read of their surroundings. Every call has its own `delete_nodes`, and the
server may answer each in its own way. -/
structure DecycleEnv (Val : Type) where
  round : List ℕ → RoundEnv Val
  dbms : List ℕ → ℕ → TestResult
  commitStmt : String
  abortStmt : String

variable {Val : Type}

def CaseStmt.emitted (e : CaseStmt Val) : Emitted Val := ⟨e.stmt, e.tid, e.usage⟩

/-- `max_tid + 1` -/
def caseTransNum (queue : List (CaseStmt Val)) : ℕ :=
  queue.foldl (fun n e => max n (e.tid + 1)) 0

/-- The status that the last statement of a transaction says. -/
def caseStatus (stmts : List String) : TxnStatus :=
  match stmts.getLast? with
  | none => .abort
  | some stmt => if containsText stmt "COMMIT" then .commit else .abort

namespace DecycleEnv

/-- `transaction_test re_test(d_info)` with its new transactions. -/
def newTest (env : DecycleEnv Val) (queue : List (CaseStmt Val)) (deleteNodes : List ℕ) :
    RoundTest Val :=
  let plan : TestPlan :=
    { stmtNum := 0, tidQueue := fun _ => 0, stmtUse := fun _ => .mk' .initType false
      commitStmt := env.commitStmt, abortStmt := env.abortStmt, dbms := env.dbms deleteNodes }
  let test : TransTest :=
    { stmtQueue := fun _ => "", transArr := fun _ => ⟨false, [], [], [], .notDefined⟩
      statusQueue := fun _ => false, realTidQueue := [], realStmtQueue := []
      realOutputQueue := [], realStmtUsage := [], calls := [] }
  { planned := ⟨plan, caseTransNum queue, fun _ => false, test⟩, objects := fun _ => .txnString ""
    initDbContent := .empty, transDbContent := .empty
    normalStmtOutput := [], normalStmtErrInfo := [], normalStmtDbContent := .empty
    contentCalls := 0, normalCalls := 0 }

/-- The status of each transaction, read off its statements. -/
def setStatuses (t : RoundTest Val) : RoundTest Val :=
  { t with
    planned :=
      { t.planned with
        test :=
          { t.planned.test with
            transArr := fun tid =>
              { t.planned.txn tid with status := caseStatus (t.planned.txn tid).stmts } } } }

/-- `re_test` before the run. -/
def reTest (env : DecycleEnv Val) (queue : List (CaseStmt Val)) (deleteNodes : List ℕ) :
    RoundTest Val :=
  setStatuses (((env.newTest queue deleteNodes).setStmtQueue (env.round deleteNodes)
    (queue.map CaseStmt.emitted)).alignTxns)

end DecycleEnv

/-- The run of a test case up to `check_txn_graph_cycle`. -/
structure DecycleRun (Val : Type) where
  test : RoundTest Val
  da : DependencyAnalyzer
  cycleNodes : Finset ℕ
  sortedNodes : List ℕ

namespace DecycleEnv

def run (env : DecycleEnv Val) (queue : List (CaseStmt Val)) (deleteNodes : List ℕ) :
    Except Failure (DecycleRun Val) := do
  let test ← (env.reTest queue deleteNodes).transTest (env.round deleteNodes)
  -- what `analyze_txn_dependency` finds is not looked at
  let (_, da) ← test.analyzeTxnDependency
  let (cycleNodes, sortedNodes) ← da.checkTxnGraphCycle
  return ⟨test, da, cycleNodes, sortedNodes⟩

end DecycleEnv

/-- The queues without the statements of a transaction, its begin and its end apart. -/
def blankTxn (txnId : ℕ) (queue : List (CaseStmt Val)) : List (CaseStmt Val) :=
  queue.map fun e =>
    if e.tid ≠ txnId then e
    else if e.usage.stmtType = .initType then e
    else ⟨.txnString spaceHolderStmt, e.tid, { e.usage.assign .initType with isInstrumented := false }⟩

/-- `usage_queue[i] == INIT_TYPE` -/
def isInitAt (queue : List (CaseStmt Val)) (i : ℕ) : Bool :=
  (queue[i]?).any fun e => e.usage.stmtType == .initType

/-- A statement of the sorted path; begin, commit, abort and placeholders are left out. -/
def pushStmt (queue : List (CaseStmt Val)) (txnId count : ℕ) (path : List StmtId) :
    Except Failure (List StmtId) :=
  let sId : StmtId := ⟨txnId, count⟩
  match sId.transfer2StmtIdx (queue.map CaseStmt.tid) with
  | none => .error .badIndex
  | some stmtIdx =>
    if isInitAt queue stmtIdx then .ok path else .ok (path ++ [sId])

/-- `txn_stmt_path` -/
def txnStmtPath (queue : List (CaseStmt Val)) (stmtNum : ℕ → ℕ) (sortedNodes : List ℕ) :
    Except Failure (List StmtId) :=
  forEach sortedNodes (fun txnId path => forRange (stmtNum txnId) (pushStmt queue txnId) path) []

namespace DecycleEnv

/-- The path of the serial run. -/
def path (env : DecycleEnv Val) (queue : List (CaseStmt Val)) (deleteNodes : List ℕ)
    (sortedNodes : List ℕ) : Except Failure (List StmtId) :=
  txnStmtPath queue (fun txnId => ((env.reTest queue deleteNodes).planned.txn txnId).stmts.length)
    sortedNodes

/-- The serial run and its comparison. -/
def compareSerial (env : DecycleEnv Val) (queue : List (CaseStmt Val)) (deleteNodes : List ℕ)
    (r : DecycleRun Val) : Except Failure Bool := do
  let path ← env.path queue deleteNodes r.sortedNodes
  let t ← r.test.normalStmtTest (env.round deleteNodes) path
  t.checkNormalStmtResult path

/-- The `catch` clause; `exit` and an undefined access are no exceptions. -/
def catchAll (counts : ℕ × ℕ) : Failure → Except Failure (ℕ × ℕ)
  | .runtimeError _ | .stoiError => .ok (counts.1, counts.2 + 1)
  | e => .error e

end DecycleEnv

/-- `txn_decycle_test`; `counts` are `succeed_time` and `all_time`. -/
def txnDecycleTest (env : DecycleEnv Val) :
    ℕ → List (CaseStmt Val) → List ℕ → ℕ × ℕ → Except Failure (ℕ × ℕ)
  | 0, _, _, _ => .error .outOfFuel
  | fuel + 1, queue, deleteNodes, counts =>
    match env.run queue deleteNodes with
    | .error e => DecycleEnv.catchAll counts e
    | .ok r =>
      if r.cycleNodes ≠ ∅ then
        forEach ((List.range r.da.queue.tidNum).filter (· ∈ r.cycleNodes))
          (fun txnId counts =>
            txnDecycleTest env fuel (blankTxn txnId queue) (deleteNodes ++ [txnId]) counts) counts
      else
        match env.compareSerial queue deleteNodes r with
        | .error e => DecycleEnv.catchAll counts e
        | .ok true => .ok (counts.1, counts.2 + 1)
        | .ok false => .ok (counts.1 + 1, counts.2 + 1)

/-! The test case in the transactions. -/

section ReTest

theorem TransTest.Cleared.setStatuses {t : RoundTest Val} (h : t.planned.test.Cleared) :
    (DecycleEnv.setStatuses t).planned.test.Cleared :=
  ⟨h.unblocked, h.outputs, h.errs, h.real⟩

variable {env : DecycleEnv Val} {queue : List (CaseStmt Val)} {deleteNodes : List ℕ}

theorem le_caseTransNum (queue : List (CaseStmt Val)) : ∀ e ∈ queue, e.tid < caseTransNum queue := by
  have hfold : ∀ (queue : List (CaseStmt Val)) (n : ℕ),
      n ≤ queue.foldl (fun n e => max n (e.tid + 1)) n ∧
        ∀ e ∈ queue, e.tid < queue.foldl (fun n e => max n (e.tid + 1)) n := by
    intro queue
    induction queue with
    | nil => intro n; simp
    | cons e rest ih =>
      intro n
      obtain ⟨hle, hall⟩ := ih (max n (e.tid + 1))
      refine ⟨le_trans (le_max_left _ _) hle, List.forall_mem_cons.2 ⟨?_, hall⟩⟩
      exact lt_of_lt_of_le (by omega) (le_trans (le_max_right n _) hle)
  exact (hfold queue 0).2

theorem stmtNum_reTest (env : DecycleEnv Val) (queue : List (CaseStmt Val))
    (deleteNodes : List ℕ) : (env.reTest queue deleteNodes).planned.plan.stmtNum = queue.length :=
  List.length_map _

theorem cleared_reTest : (env.reTest queue deleteNodes).planned.test.Cleared := by
  have hnew : ((env.newTest queue deleteNodes).setStmtQueue (env.round deleteNodes)
      (queue.map CaseStmt.emitted)).planned.test.Cleared :=
    ⟨fun _ => rfl, fun _ => rfl, fun _ => rfl, rfl, rfl, rfl, rfl⟩
  exact hnew.alignTxns.setStatuses

theorem entry_reTest {i : ℕ} (hi : i < queue.length) :
    (env.reTest queue deleteNodes).planned.plan.tidQueue i = queue[i].tid ∧
      (env.reTest queue deleteNodes).planned.plan.stmtUse i = queue[i].usage := by
  have hget : (queue.map CaseStmt.emitted).getD i ⟨.txnString "", 0, .mk' .initType false⟩ =
      queue[i].emitted := by
    rw [List.getD_eq_getElem _ _ (by simpa using hi), List.getElem_map]
  refine ⟨?_, ?_⟩
  · show ((queue.map CaseStmt.emitted).getD i ⟨.txnString "", 0, .mk' .initType false⟩).tid.toNat = _
    rw [hget]
    rfl
  · show ((queue.map CaseStmt.emitted).getD i ⟨.txnString "", 0, .mk' .initType false⟩).usage = _
    rw [hget]
    rfl

theorem tids_reTest (env : DecycleEnv Val) (queue : List (CaseStmt Val)) (deleteNodes : List ℕ) :
    (env.reTest queue deleteNodes).planned.plan.tids = queue.map CaseStmt.tid := by
  refine List.ext_getElem ?_ fun i hi hi' => ?_
  · rw [TestPlan.tids, List.length_map, List.length_range, stmtNum_reTest, List.length_map]
  · rw [List.length_map] at hi'
    simp only [TestPlan.tids, List.getElem_map, List.getElem_range, (entry_reTest hi').1]

theorem length_idxsOf (tids : List ℕ) (t : ℕ) : (idxsOf tids t).length = tids.count t := by
  have := congrArg List.length (map_ofQueue_idxsOf tids t)
  simpa using this

theorem length_stmts_reTest (txnId : ℕ) :
    ((env.reTest queue deleteNodes).planned.txn txnId).stmts.length =
      (queue.map CaseStmt.tid).count txnId := by
  have hidxs : ((env.reTest queue deleteNodes).planned.plan.ofTxn txnId
      (List.range (env.reTest queue deleteNodes).planned.plan.stmtNum)).length =
      (queue.map CaseStmt.tid).count txnId := by
    rw [← idxsOf_tids, tids_reTest, length_idxsOf]
  by_cases htid : txnId < caseTransNum queue
  · have hstmts : ((env.reTest queue deleteNodes).planned.txn txnId).stmts =
        ((env.reTest queue deleteNodes).planned.plan.ofTxn txnId
          (List.range (env.reTest queue deleteNodes).planned.plan.stmtNum)).map
          (env.reTest queue deleteNodes).planned.stmt :=
      congrArg Transaction.stmts (if_pos htid)
    rw [hstmts, List.length_map, hidxs]
  · have hstmts : ((env.reTest queue deleteNodes).planned.txn txnId).stmts = [] :=
      congrArg Transaction.stmts (if_neg htid)
    rw [hstmts, List.length_nil, eq_comm, List.count_eq_zero, List.mem_map]
    rintro ⟨e, he, rfl⟩
    exact htid (le_caseTransNum queue e he)

/-- The ids that a transaction gives to the path. -/
def idsOf (queue : List (CaseStmt Val)) (txnId : ℕ) : List StmtId :=
  ((idxsOf (queue.map CaseStmt.tid) txnId).filter (!isInitAt queue ·)).map
    (StmtId.ofQueue (queue.map CaseStmt.tid))

theorem mem_idxsOf {tids : List ℕ} {t i : ℕ} :
    i ∈ idxsOf tids t ↔ i < tids.length ∧ tids.getD i 0 = t := by
  rw [idxsOf, List.mem_filter, List.mem_range, beq_iff_eq]

theorem pushStmts_eq (queue : List (CaseStmt Val)) (txnId : ℕ) (path : List StmtId) :
    forRange ((queue.map CaseStmt.tid).count txnId) (pushStmt queue txnId) path =
      .ok (path ++ idsOf queue txnId) := by
  generalize htids : queue.map CaseStmt.tid = tids
  have hprefix : ∀ k ≤ (idxsOf tids txnId).length, forRange k (pushStmt queue txnId) path =
      .ok (path ++ (((idxsOf tids txnId).take k).filter (!isInitAt queue ·)).map
        (StmtId.ofQueue tids)) := by
    intro k
    induction k with
    | zero => intro _; simp [forRange]
    | succ k ih =>
      intro hk
      have hmem := mem_idxsOf.1 (List.getElem_mem (show k < (idxsOf tids txnId).length by omega))
      -- the id of the round is the one of the next statement
      have hid : (⟨txnId, k⟩ : StmtId) = StmtId.ofQueue tids (idxsOf tids txnId)[k] := by
        have := congrArg (fun l => l[k]?) (map_ofQueue_idxsOf tids txnId)
        rw [List.getElem?_map, List.getElem?_map, List.getElem?_eq_getElem (by omega),
          List.getElem?_range (by rw [← length_idxsOf]; omega), Option.map_some, Option.map_some,
          Option.some.injEq] at this
        exact this.symm
      have hround : pushStmt queue txnId k (path ++ (((idxsOf tids txnId).take k).filter
            (!isInitAt queue ·)).map (StmtId.ofQueue tids)) =
          .ok (path ++ (((idxsOf tids txnId).take (k + 1)).filter
            (!isInitAt queue ·)).map (StmtId.ofQueue tids)) := by
        rw [pushStmt, htids, hid, transfer2StmtIdx_ofQueue hmem.1,
          List.take_succ_eq_append_getElem (by omega), List.filter_append, List.map_append]
        dsimp only
        by_cases hinit : isInitAt queue (idxsOf tids txnId)[k] = true
        · rw [if_pos hinit, List.filter_cons_of_neg (by simp [hinit]), List.filter_nil,
            List.map_nil, List.append_nil]
        · rw [if_neg hinit, List.filter_cons_of_pos (by simp [hinit]), List.filter_nil,
            List.append_assoc]
          rfl
      rw [forRange, ih (by omega)]
      exact hround
  have := hprefix _ le_rfl
  rw [length_idxsOf, List.take_of_length_le (by rw [length_idxsOf])] at this
  rw [idsOf, htids]
  exact this

/-- The path has the planned statements of the sorted transactions. -/
theorem path_eq (sortedNodes : List ℕ) :
    env.path queue deleteNodes sortedNodes = .ok (sortedNodes.flatMap (idsOf queue)) := by
  have hloop : ∀ (nodes : List ℕ) (path : List StmtId),
      forEach nodes (fun txnId path => forRange
        ((env.reTest queue deleteNodes).planned.txn txnId).stmts.length (pushStmt queue txnId) path)
        path = .ok (path ++ nodes.flatMap (idsOf queue)) := by
    intro nodes
    induction nodes with
    | nil => intro path; simp [forEach]
    | cons txnId rest ih =>
      intro path
      rw [forEach, length_stmts_reTest, pushStmts_eq, List.flatMap_cons, ← List.append_assoc]
      exact ih _
  exact hloop sortedNodes []

end ReTest

/-! Who has an incoming dependency. -/

section Labels

variable {inp : AnalyzerInput} {a : DependencyAnalyzer} {g1 g2 g3 g4 g5 : Graphs}

theorem NearestIn.target_mem {ops : List OperateUnit} {target op : OperateUnit}
    (h : NearestIn ops target op) : target ∈ ops := by
  obtain ⟨before, between, after, heq, -⟩ := h
  simp [heq]

open AnalyzedQueue in
/-- When begin, commit, abort and placeholders return no rows, a transaction with an incoming
dependency has another statement. -/
theorem DependencyAnalyzer.Run.target_basic (hrun : a.Run inp g1 g2 g3 g4 g5)
    (hsilent : ∀ k < a.queue.stmtNum, (a.queue.usage k).stmtType = .initType → a.queue.output k = [])
    {t u : ℕ} {dt : DependencyType} (hdt : dt ∈ DependencyAnalyzer.txnOrderTypes)
    (h : dt ∈ a.graphs.txn t u) :
    ∃ k < a.queue.stmtNum, a.queue.tid k = u ∧ (a.queue.usage k).stmtType ≠ .initType := by
  have hlabel : a.graphs.HasLabel (.txn t u dt) := h
  have hkeyed := (buildHistory_spec hrun.history).2.1
  have hempty : ∀ l, ¬ Graphs.empty.HasLabel l := by
    intro l
    cases l <;> simp [Graphs.HasLabel, Graphs.empty, StmtGraph.labels]
  by_cases hrow : RowType dt
  · obtain ⟨op, target, hedge, hop⟩ := (hrun.rowLabel_iff (l := .txn t u dt) hrow).1 hlabel
    have htarget : target ∈ a.queue.allOps inp.initOutput ∧ a.queue.LooksUp target := by
      cases hedge with
      | writeRead hlook hnear => exact ⟨hnear.target_mem, hlook⟩
      | writeWrite hlook _ hnear => exact ⟨hnear.target_mem, hlook⟩
      | readWrite hlook _ hmem => exact ⟨hmem, hlook⟩
    have hu : u = target.tid := by
      rcases hop with ⟨_, _, -, -, hl⟩ | ⟨-, hl⟩
      · cases hl
      · cases hl
        rfl
    rw [allOps, List.mem_append] at htarget
    rcases htarget with ⟨hinit | hstmt, hlook⟩
    · obtain ⟨row, -, rfl⟩ := List.mem_map.1 hinit
      exact absurd rfl hlook.1
    · obtain ⟨k, hk, hops⟩ := List.mem_flatMap.1 hstmt
      obtain ⟨row, hrowk, rfl⟩ := List.mem_map.1 hops
      refine ⟨k, List.mem_range.1 hk, hu.symm, fun hinit => ?_⟩
      rw [hsilent k (List.mem_range.1 hk) hinit] at hrowk
      cases hrowk
  · have hkind : dt = .versionSetDepend ∨ dt = .overwriteDepend := by
      simp only [DependencyAnalyzer.txnOrderTypes, Finset.mem_insert, Finset.mem_singleton] at hdt
      unfold RowType at hrow
      tauto
    have hnone : ¬ g3.HasLabel (.txn t u dt) := by
      rw [(built_buildStartDependency hrun.start).hasLabel_iff
          (by rcases hkind with rfl | rfl <;> simp [Label.type]),
        (built_buildRowDependencies hrun.rows).hasLabel_iff (l := .txn t u dt) hrow,
        (built_buildStmtInstrumentDependency hrun.instrument).hasLabel_iff
          (by rcases hkind with rfl | rfl <;> simp [Label.type])]
      exact hempty _
    rw [(built_buildStmtInnerDependency hrun.inner).hasLabel_iff
      (by rcases hkind with rfl | rfl <;> simp [Label.type])] at hlabel
    rcases hkind with rfl | rfl
    · rw [(built_buildOWDependency hrun.overwrite).hasLabel_iff (by simp [Label.type]),
        buildVSDependency_adds hkeyed hrun.versionSet, or_iff_right hnone] at hlabel
      obtain ⟨i, hi, htype, j, -, b, -, hedge⟩ := hlabel
      rcases hedge with hl | ⟨-, hl⟩
      · cases hl
      · cases hl
        exact ⟨i, hi, rfl, by simp [htype]⟩
    · have hnone4 : ¬ g4.HasLabel (.txn t u .overwriteDepend) := by
        rw [(built_buildVSDependency hrun.versionSet).hasLabel_iff (by simp [Label.type])]
        exact hnone
      rw [buildOWDependency_adds hkeyed hrun.overwrite, or_iff_right hnone4] at hlabel
      obtain ⟨i, -, -, o, -, j, hj, b, hpair, hedge⟩ := hlabel
      rcases hedge with hl | ⟨-, hl⟩
      · cases hl
      · cases hl
        refine ⟨j, hj, rfl, ?_⟩
        rcases hpair with ⟨htype | htype, -⟩ | ⟨htype, -⟩ <;> simp [htype]

end Labels

/-! One run of a test case. -/

namespace DecycleRun

/-- The statements of a transaction that were executed with a type other than `INIT_TYPE`. -/
def executedIds (r : DecycleRun Val) (txnId : ℕ) : List StmtId :=
  ((idxsOf r.test.planned.test.realTidQueue txnId).filter fun k =>
    (r.test.planned.test.realStmtUsage.getD k (.mk' .initType false)).stmtType != .initType).map
    (StmtId.ofQueue r.test.planned.test.realTidQueue)

/-- The executed statements of the sorted transactions, one transaction after the other. -/
def executedPath (r : DecycleRun Val) : List StmtId := r.sortedNodes.flatMap r.executedIds

/-- What the server made of a planned statement. -/
def settled (r : DecycleRun Val) (i : ℕ) : Option Settled :=
  r.test.planned.test.settled r.test.planned.plan i

end DecycleRun

namespace DecycleEnv

/-- The transaction ends with a commit that the server does not refuse. -/
def Commits (env : DecycleEnv Val) (queue : List (CaseStmt Val)) (deleteNodes : List ℕ)
    (r : DecycleRun Val) (tid : ℕ) : Prop :=
  ((env.reTest queue deleteNodes).planned.txn tid).status = .commit ∧
    ¬ (env.reTest queue deleteNodes).planned.plan.CommitRefused r.test.planned.test.calls tid

/-- The server skips no statement of a transaction that commits, its begin and its end and
placeholders apart. -/
def SkipFree (env : DecycleEnv Val) (queue : List (CaseStmt Val)) (deleteNodes : List ℕ)
    (r : DecycleRun Val) : Prop :=
  ∀ i (hi : i < queue.length), isInitAt queue i = false →
    env.Commits queue deleteNodes r queue[i].tid → ∀ s, r.settled i = some s → s.skipped = false

/-- The server returns no rows for begin, commit, abort and placeholders. -/
def Silent (queue : List (CaseStmt Val)) (r : DecycleRun Val) : Prop :=
  ∀ i < queue.length, isInitAt queue i = true → ∀ s, r.settled i = some s → s.output = []

end DecycleEnv

section Level

variable {env : DecycleEnv Val} {queue : List (CaseStmt Val)} {deleteNodes : List ℕ}
  {r : DecycleRun Val}

theorem run_parts (h : env.run queue deleteNodes = .ok r) :
    DbFuzz.transTest (env.reTest queue deleteNodes).planned.plan
        (env.reTest queue deleteNodes).planned.test = .ok r.test.planned.test ∧
      r.test.planned.plan = (env.reTest queue deleteNodes).planned.plan ∧
      r.test.planned.transNum = caseTransNum queue ∧
      (∃ initContent, dependencyAnalyzer (r.test.planned.analyzerInput initContent) = .ok r.da) ∧
      r.da.checkTxnGraphCycle = .ok (r.cycleNodes, r.sortedNodes) := by
  obtain ⟨test, htest, h⟩ := bind_eq_ok_iff.1 h
  obtain ⟨⟨b, da⟩, hda, h⟩ := bind_eq_ok_iff.1 h
  obtain ⟨⟨cycleNodes, sortedNodes⟩, hcycle, h⟩ := bind_eq_ok_iff.1 h
  cases h
  obtain ⟨s, hs, htest⟩ := bind_eq_ok_iff.1 htest
  cases htest
  obtain ⟨a, ha, hda⟩ := bind_eq_ok_iff.1 hda
  have hsame : a = da := by
    split at hda
    · cases hda
      rfl
    · split at hda
      · cases hda
        rfl
      · obtain ⟨c, -, hda⟩ := bind_eq_ok_iff.1 hda
        cases hda
        rfl
  exact ⟨hs, rfl, rfl, ⟨_, hsame ▸ ha⟩, hcycle⟩

/-- A skipped statement has no rows. -/
theorem settled_skipped_output {p : TestPlan} {s : TransTest} {i : ℕ} {res : Settled}
    (h : s.settled p i = some res) (hskip : res.skipped = true) : res.output = [] := by
  obtain ⟨c, -, hsettle⟩ := Option.bind_eq_some_iff.1 h
  unfold TestPlan.settle at hsettle
  split at hsettle
  · cases hsettle
    cases hskip
  · split_ifs at hsettle
    · cases hsettle
      rfl
    · cases hsettle
      cases hskip

theorem isInitAt_eq (env : DecycleEnv Val) (deleteNodes : List ℕ) {i : ℕ}
    (hi : i < queue.length) : isInitAt queue i =
    (((env.reTest queue deleteNodes).planned.plan.stmtUse i).stmtType == .initType) := by
  rw [(entry_reTest hi).2, isInitAt, List.getElem?_eq_getElem hi, Option.any_some]

/-- The executed statements of a transaction are its planned ones but the skipped. -/
theorem executedIds_eq {order : List ℕ} {res : ℕ → Settled}
    (hrec : RunRecord (env.reTest queue deleteNodes).planned.plan
      (env.reTest queue deleteNodes).planned.test.stmtQueue r.test.planned.test order res)
    (txnId : ℕ) :
    r.executedIds txnId = ((idxsOf (queue.map CaseStmt.tid) txnId).filter fun i =>
      !(res i).skipped && !isInitAt queue i).map (StmtId.ofQueue (queue.map CaseStmt.tid)) := by
  have hstmtNum := stmtNum_reTest env queue deleteNodes
  have hlength : r.test.planned.test.realTidQueue.length = queue.length := by
    rw [hrec.realTid, List.length_map, hrec.length_order, hstmtNum]
  have hget : ∀ k < queue.length, order.getD k 0 < queue.length := by
    intro k hk
    have hk' : k < order.length := by rw [hrec.length_order, hstmtNum]; exact hk
    have hmem := List.mem_range.1 (hrec.perm.subset (List.getElem_mem hk'))
    rw [hstmtNum] at hmem
    rwa [List.getD_eq_getElem _ _ hk']
  rw [← tids_reTest env queue deleteNodes, idxsOf_tids,
    ← hrec.map_order_idxsOf, List.filter_map, List.map_map, DecycleRun.executedIds]
  have hfilter : ((idxsOf r.test.planned.test.realTidQueue txnId).filter fun k =>
        (r.test.planned.test.realStmtUsage.getD k (.mk' .initType false)).stmtType != .initType) =
      (idxsOf r.test.planned.test.realTidQueue txnId).filter
        ((fun i => !(res i).skipped && !isInitAt queue i) ∘ fun k => order.getD k 0) := by
    refine List.filter_congr fun k hk => ?_
    have hlt : k < queue.length := by rw [← hlength]; exact (mem_idxsOf.1 hk).1
    have hk' : k < order.length := by rw [hrec.length_order, hstmtNum]; exact hlt
    rw [Function.comp_apply, isInitAt_eq env deleteNodes (hget k hlt),
      hrec.realUsage, List.getD_eq_getElem _ _ (by simpa using hk'), List.getElem_map,
      List.getD_eq_getElem _ _ hk', Settled.usage]
    cases (res order[k]).skipped
    · simp [bne]
    · rfl
  rw [hfilter]
  refine List.map_congr_left fun k hk => ?_
  have hlt := (mem_idxsOf.1 (List.mem_of_mem_filter hk)).1
  rw [Function.comp_apply, hrec.ofQueue_real (by rw [hstmtNum, ← hlength]; exact hlt)]

theorem caseStatus_ne_commit {stmts : List String} (h : caseStatus stmts ≠ .commit) :
    caseStatus stmts = .abort := by
  unfold caseStatus at h ⊢
  split
  · rfl
  · split_ifs with hcommit
    · simp_all
    · rfl

/-- The analyzer sorts the transactions that commit. -/
theorem sortable_iff (h : env.run queue deleteNodes = .ok r) {i : ℕ} (hi : i < queue.length) :
    r.da.Sortable queue[i].tid ↔ env.Commits queue deleteNodes r queue[i].tid := by
  obtain ⟨hrun, hplan, htransNum, ⟨init, hda⟩, -⟩ := run_parts h
  obtain ⟨_, _, _, _, _, hbuilt⟩ := dependencyAnalyzer_run hda
  obtain ⟨htidNum, hstatus, -⟩ := copy_fields hbuilt.copy
  have hlt := le_caseTransNum queue _ (List.getElem_mem hi)
  have htidNum' : r.da.queue.tidNum = caseTransNum queue + 1 := by
    rw [htidNum, AnalyzerInput.tNum, PlannedTest.analyzerInput, List.length_map, List.length_range,
      htransNum]
  have hst : r.da.queue.status queue[i].tid = (r.test.planned.txn queue[i].tid).status := by
    rw [AnalyzedQueue.status, hstatus, PlannedTest.analyzerInput, htransNum,
      List.getD_append _ _ _ _ (by simpa using hlt), List.getD_eq_getElem _ _ (by simpa using hlt),
      List.getElem_map, List.getElem_range]
  have hlog : (r.test.planned.txn queue[i].tid).status ≠ .abort ↔ _ :=
    not_congr ((transTest_log rfl hrun).aborted queue[i].tid)
  rw [DependencyAnalyzer.Sortable, htidNum', hst, DecycleEnv.Commits, hlog]
  constructor
  · rintro ⟨-, -, hnot⟩
    rw [not_or] at hnot
    refine ⟨?_, hnot.2⟩
    by_contra hne
    exact hnot.1 (caseStatus_ne_commit hne)
  · rintro ⟨hcommit, hrefused⟩
    refine ⟨by omega, by omega, ?_⟩
    rintro (hstart | href)
    · have hstart' : ((env.reTest queue deleteNodes).planned.txn queue[i].tid).status = .abort :=
        hstart
      rw [hstart'] at hcommit
      cases hcommit
    · exact hrefused href

/-- The path of the serial run has exactly the executed statements when nothing was skipped. -/
theorem path_eq_executedPath_iff (h : env.run queue deleteNodes = .ok r) (hnone : r.cycleNodes = ∅) :
    env.path queue deleteNodes r.sortedNodes = .ok r.executedPath ↔
      env.SkipFree queue deleteNodes r := by
  obtain ⟨hrun, hplan, -, -, hcheck⟩ := run_parts h
  obtain ⟨order, res, hrec⟩ := transTest_record cleared_reTest hrun
  obtain ⟨removedTxn, sortedNodes, hcheck', hsorting, -⟩ := r.da.checkTxnGraphCycle_sorting
  obtain ⟨hleft, rfl⟩ := Prod.mk.inj (Except.ok.inj (hcheck.symm.trans hcheck'))
  have hsorted : ∀ t, r.da.Sortable t ↔ t ∈ r.sortedNodes := by
    intro t
    rw [← DependencyAnalyzer.mem_leftTxn_start, hsorting.peeled.cover t, ← hleft, hnone]
    simp
  have hsettled : ∀ i < queue.length, r.settled i = some (res i) := by
    intro i hi
    rw [DecycleRun.settled, hplan]
    exact hrec.settled i (by rw [stmtNum_reTest]; exact hi)
  rw [path_eq, Except.ok.injEq, DecycleRun.executedPath]
  constructor
  · intro hsame i hi hinit hcommits s hs
    rw [hsettled i hi, Option.some.injEq] at hs
    subst hs
    have hi' : i < (queue.map CaseStmt.tid).length := by rwa [List.length_map]
    have htid : (queue.map CaseStmt.tid).getD i 0 = queue[i].tid := by
      rw [List.getD_eq_getElem _ _ hi', List.getElem_map]
    have hmem : StmtId.ofQueue (queue.map CaseStmt.tid) i ∈ r.sortedNodes.flatMap (idsOf queue) :=
      List.mem_flatMap.2 ⟨queue[i].tid, (hsorted _).1 ((sortable_iff h hi).2 hcommits),
        List.mem_map_of_mem (List.mem_filter.2 ⟨mem_idxsOf.2 ⟨hi', htid⟩, by simp [hinit]⟩)⟩
    rw [hsame] at hmem
    obtain ⟨t, -, hids⟩ := List.mem_flatMap.1 hmem
    rw [executedIds_eq hrec] at hids
    obtain ⟨j, hj, hid⟩ := List.mem_map.1 hids
    obtain ⟨hidx, hkept⟩ := List.mem_filter.1 hj
    rw [ofQueue_inj (mem_idxsOf.1 hidx).1 hi' hid, Bool.and_eq_true, Bool.not_eq_true'] at hkept
    exact hkept.1
  · intro hfree
    refine List.flatMap_congr fun t ht => ?_
    rw [idsOf, executedIds_eq hrec]
    refine congrArg _ (List.filter_congr fun i hi => ?_)
    obtain ⟨hi', htid⟩ := mem_idxsOf.1 hi
    rw [List.length_map] at hi'
    rw [List.getD_eq_getElem _ _ (by rwa [List.length_map]), List.getElem_map] at htid
    cases hinit : isInitAt queue i with
    | true => simp
    | false =>
      have hcommits := (sortable_iff h hi').1 ((hsorted _).2 (htid ▸ ht))
      rw [hfree i hi' hinit hcommits _ (hsettled i hi')]
      rfl

/-- The number of statements that can still be blanked. -/
def basicNum (queue : List (CaseStmt Val)) : ℕ :=
  queue.countP fun e => e.usage.stmtType != .initType

theorem basicNum_blankTxn_lt {txnId : ℕ} {e : CaseStmt Val} (he : e ∈ queue) (htid : e.tid = txnId)
    (hbasic : e.usage.stmtType ≠ .initType) : basicNum (blankTxn txnId queue) < basicNum queue := by
  rw [basicNum, basicNum, blankTxn, List.countP_map]
  refine countP_lt_of_imp (fun d _ hd => ?_) he (bne_iff_ne.2 hbasic) ?_
  · simp only [Function.comp_apply] at hd
    split_ifs at hd
    · exact hd
    · exact hd
    · cases hd
  · rw [Function.comp_apply, if_neg (not_not.2 htid), if_neg hbasic]
    rfl

/-- A transaction that could not be sorted has a statement to blank. -/
theorem cycleNode_basic (h : env.run queue deleteNodes = .ok r)
    (hsilent : DecycleEnv.Silent queue r) {txnId : ℕ} (hmem : txnId ∈ r.cycleNodes) :
    ∃ e ∈ queue, e.tid = txnId ∧ e.usage.stmtType ≠ .initType := by
  obtain ⟨hrun, hplan, -, ⟨init, hda⟩, hcheck⟩ := run_parts h
  obtain ⟨order, res, hrec⟩ := transTest_record cleared_reTest hrun
  obtain ⟨_, _, _, _, _, hbuilt⟩ := dependencyAnalyzer_run hda
  obtain ⟨-, -, htids, husage, houtput⟩ := copy_fields hbuilt.copy
  obtain ⟨removedTxn, sortedNodes, hcheck', -, hstuck⟩ := r.da.checkTxnGraphCycle_sorting
  obtain ⟨hleft, -⟩ := Prod.mk.inj (Except.ok.inj (hcheck.symm.trans hcheck'))
  obtain ⟨j, -, -, -, dt, hdt, hlabel⟩ := hstuck txnId (hleft ▸ hmem)
  have hnum : r.da.queue.stmtNum = queue.length := by
    rw [AnalyzedQueue.stmtNum, htids, PlannedTest.analyzerInput, hrec.realTid, List.length_map,
      hrec.length_order, stmtNum_reTest]
  -- the entry `k` of the real queues comes from the planned statement `order[k]`
  have hentry : ∀ k < queue.length, ∃ i, ∃ hi : i < queue.length,
      r.da.queue.tid k = queue[i].tid ∧ r.da.queue.usage k = (res i).usage queue[i].usage ∧
      r.da.queue.output k = (res i).output ∧ r.settled i = some (res i) := by
    intro k hk
    have hk' : k < order.length := by rw [hrec.length_order, stmtNum_reTest]; exact hk
    have hi := List.mem_range.1 (hrec.perm.subset (List.getElem_mem hk'))
    have hsettled := hrec.settled _ hi
    rw [stmtNum_reTest] at hi
    refine ⟨order[k], hi, ?_, ?_, ?_, ?_⟩
    · rw [AnalyzedQueue.tid, htids, PlannedTest.analyzerInput, hrec.realTid,
        List.getD_eq_getElem _ _ (by simpa using hk'), List.getElem_map, (entry_reTest hi).1]
    · rw [AnalyzedQueue.usage, husage, PlannedTest.analyzerInput, hrec.realUsage,
        List.getD_eq_getElem _ _ (by simpa using hk'), List.getElem_map, (entry_reTest hi).2]
    · rw [AnalyzedQueue.output, houtput, PlannedTest.analyzerInput, hrec.realOutput,
        List.getD_eq_getElem _ _ (by simpa using hk'), List.getElem_map]
    · rw [DecycleRun.settled, hplan]
      exact hsettled
  have hquiet : ∀ k < r.da.queue.stmtNum, (r.da.queue.usage k).stmtType = .initType →
      r.da.queue.output k = [] := by
    intro k hk hinit
    rw [hnum] at hk
    obtain ⟨i, hi, -, husage', houtput', hsettled⟩ := hentry k hk
    rw [houtput']
    by_cases hskip : (res i).skipped = true
    · exact settled_skipped_output hsettled hskip
    · refine hsilent i hi ?_ _ hsettled
      rw [husage', Settled.usage, if_neg hskip] at hinit
      rw [isInitAt, List.getElem?_eq_getElem hi, Option.any_some, hinit]
      rfl
  obtain ⟨k, hk, htid, htype⟩ := hbuilt.target_basic hquiet hdt hlabel
  rw [hnum] at hk
  obtain ⟨i, hi, htid', husage', -, -⟩ := hentry k hk
  refine ⟨queue[i], List.getElem_mem hi, htid'.symm.trans htid, fun hinit => htype ?_⟩
  rw [husage', Settled.usage]
  split_ifs
  · rfl
  · exact hinit

end Level

/-! The levels of the recursion. -/

/-- The test cases that the calls are made with. -/
inductive DecycleEnv.Reached (env : DecycleEnv Val) (queue : List (CaseStmt Val))
    (deleteNodes : List ℕ) : List (CaseStmt Val) → List ℕ → Prop
  | start : env.Reached queue deleteNodes queue deleteNodes
  | blank {q : List (CaseStmt Val)} {nodes : List ℕ} {r : DecycleRun Val} {txnId : ℕ}
      (h : env.Reached queue deleteNodes q nodes) (hrun : env.run q nodes = .ok r)
      (hmem : txnId ∈ r.cycleNodes) :
      env.Reached queue deleteNodes (blankTxn txnId q) (nodes ++ [txnId])

section Ends

variable {env : DecycleEnv Val} {queue : List (CaseStmt Val)} {deleteNodes : List ℕ}
  {r : DecycleRun Val}

theorem DecycleEnv.Reached.first {q q' : List (CaseStmt Val)} {nodes nodes' : List ℕ}
    (h : env.Reached q nodes q' nodes') {txnId : ℕ} {q0 : List (CaseStmt Val)} {nodes0 : List ℕ}
    {r : DecycleRun Val} (hrun : env.run q0 nodes0 = .ok r) (hmem : txnId ∈ r.cycleNodes)
    (hq : q = blankTxn txnId q0) (hnodes : nodes = nodes0 ++ [txnId]) :
    env.Reached q0 nodes0 q' nodes' := by
  induction h with
  | start =>
    subst hq hnodes
    exact .blank .start hrun hmem
  | blank _ hrun' hmem' ih => exact .blank ih hrun' hmem'

theorem run_ne_outOfFuel : env.run queue deleteNodes ≠ .error .outOfFuel := by
  refine bind_ne_error ?_ fun test _ => bind_ne_error ?_ fun x _ => ?_
  · exact bind_ne_error (transTest_ne_outOfFuel cleared_reTest) fun s _ => by
      simp [pure, Except.pure]
  · exact test.analyzeTxnDependency_ne_outOfFuel
  · obtain ⟨removedTxn, sortedNodes, hcheck, -, -⟩ := x.2.checkTxnGraphCycle_sorting
    exact bind_ne_error (by simp [hcheck]) fun y _ => by simp [pure, Except.pure]

theorem compareSerial_ne_outOfFuel :
    env.compareSerial queue deleteNodes r ≠ .error .outOfFuel := by
  refine bind_ne_error (by simp [path_eq]) fun path _ => bind_ne_error ?_ fun t _ => ?_
  · exact r.test.normalStmtTest_ne_outOfFuel (env.round deleteNodes) path
  · exact t.checkNormalStmtResult_ne_outOfFuel path

theorem catchAll_ne_outOfFuel (counts : ℕ × ℕ) {e : Failure} (he : e ≠ .outOfFuel) :
    DecycleEnv.catchAll counts e ≠ .error .outOfFuel := by
  cases e <;> simp_all [DecycleEnv.catchAll]

/-- Every level blanks a statement that is not blank yet. -/
theorem txnDecycleTest_ne_outOfFuel (fuel : ℕ) : ∀ (queue : List (CaseStmt Val))
    (deleteNodes : List ℕ) (counts : ℕ × ℕ),
    (∀ q nodes r, env.Reached queue deleteNodes q nodes → env.run q nodes = .ok r →
      DecycleEnv.Silent q r) → basicNum queue < fuel →
    txnDecycleTest env fuel queue deleteNodes counts ≠ .error .outOfFuel := by
  induction fuel with
  | zero => intro queue deleteNodes counts _ hfuel; omega
  | succ fuel ih =>
    intro queue deleteNodes counts hsilent hfuel
    rw [txnDecycleTest]
    cases hrun : env.run queue deleteNodes with
    | error e =>
      refine catchAll_ne_outOfFuel counts fun he => ?_
      exact run_ne_outOfFuel (he ▸ hrun)
    | ok r =>
      dsimp only
      split_ifs with hcycle
      · refine forEach_ne_error (fun txnId htxn counts => ?_) counts
        have hmem : txnId ∈ r.cycleNodes := by simpa using (List.mem_filter.1 htxn).2
        obtain ⟨e, he, htid, hbasic⟩ := cycleNode_basic hrun (hsilent _ _ _ .start hrun) hmem
        refine ih _ _ counts (fun q nodes r' hreached hrun' => ?_) ?_
        · exact hsilent q nodes r' (hreached.first hrun hmem rfl rfl) hrun'
        · have := basicNum_blankTxn_lt he htid hbasic
          omega
      · cases hserial : env.compareSerial queue deleteNodes r with
        | error e =>
          refine catchAll_ne_outOfFuel counts fun he => ?_
          exact compareSerial_ne_outOfFuel (he ▸ hserial)
        | ok b => cases b <;> simp

/-- When no run returns rows for begin, commit, abort and placeholders, the test of a case ends;
and the path of a serial run has the executed statements of the sorted transactions, one
transaction after the other, exactly when the server skipped none that the path replays. -/
theorem txnDecycleTest_path_iff (env : DecycleEnv Val) (queue : List (CaseStmt Val))
    (deleteNodes : List ℕ) :
    ((∀ q nodes r, env.Reached queue deleteNodes q nodes → env.run q nodes = .ok r →
        DecycleEnv.Silent q r) →
      ∀ fuel, basicNum queue < fuel → ∀ counts,
        txnDecycleTest env fuel queue deleteNodes counts ≠ .error .outOfFuel) ∧
    ∀ q nodes r, env.Reached queue deleteNodes q nodes → env.run q nodes = .ok r →
      r.cycleNodes = ∅ →
      (env.path q nodes r.sortedNodes = .ok r.executedPath ↔ env.SkipFree q nodes r) :=
  ⟨fun hsilent fuel hfuel counts => txnDecycleTest_ne_outOfFuel fuel queue deleteNodes counts
      hsilent hfuel,
    fun _ _ _ _ hrun hnone => path_eq_executedPath_iff hrun hnone⟩

end Ends

/-- A select with its version set read. -/
def skippedSelect : List (CaseStmt ℕ) :=
  [⟨.txnString "BEGIN", 0, .mk' .initType false⟩,
    ⟨.other "SELECT * FROM t0", 0, .mk' .versionSetRead true⟩,
    ⟨.other "SELECT * FROM t0", 0, .mk' .selectRead false⟩,
    ⟨.txnString "COMMIT", 0, .mk' .initType false⟩]

/-- The server skips both reads; the serial run reads a row. -/
def skippingServer : DecycleEnv ℕ where
  round _ := emptyDatabase [.ok [["10000", "1"]], .ok [["10000", "1"]]]
  dbms _ k := if k = 1 ∨ k = 2 then .error "skipped" else .ok []
  commitStmt := "COMMIT"
  abortStmt := "ROLLBACK"

/-- The skipped reads are replayed and their rows count as a bug. -/
theorem txnDecycleTest_skippedSelect :
    (∃ r, skippingServer.run skippedSelect [] = .ok r ∧ r.cycleNodes = ∅ ∧
      r.executedPath = [] ∧
      skippingServer.path skippedSelect [] r.sortedNodes = .ok [⟨0, 1⟩, ⟨0, 2⟩]) ∧
    txnDecycleTest skippingServer 4 skippedSelect [] (0, 0) = .ok (1, 1) := by
  refine ⟨?_, by decide +kernel⟩
  have hrun : (match skippingServer.run skippedSelect [] with
    | .ok r => decide (r.cycleNodes = ∅) && decide (r.sortedNodes = [0]) &&
        decide (r.executedPath = [])
    | .error _ => false) = true := by decide +kernel
  split at hrun
  · next r hr =>
    simp only [Bool.and_eq_true, decide_eq_true_eq] at hrun
    refine ⟨r, hr, hrun.1.1, hrun.2, ?_⟩
    rw [hrun.1.2]
    decide +kernel
  · cases hrun

end DbFuzz
