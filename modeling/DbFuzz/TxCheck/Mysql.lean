import DbFuzz.TxCheck.InitContent
import DbFuzz.TxCheck.Refine
import DbFuzz.TxCheck.RowEdges
import DbFuzz.TxCheck.RunLog
import DbFuzz.TxCheck.SortPath

/-! The driver `dut_mysql` under a run of `trans_test`. The server rolls back the whole
transaction whose statement fails with a deadlock. -/

namespace DbFuzz

open Loop AnalyzedQueue

/-- The three bodies of `dut_mysql::test` the preprocessor chooses from. -/
inductive MysqlTest
  /-- `HAVE_MYSQL_NONBLOCK` without `NOT_TEST_TXN` -/
  | async
  /-- `NOT_TEST_TXN`: a call of `block_test` -/
  | blockTest
  /-- neither: the fallback -/
  | fallback
  deriving DecidableEq, Repr

structure MysqlBuild where
  test : MysqlTest
  /-- `__FILE__` -/
  file : String
  processId : ℕ
  /-- `regex_match(err, e_crash)` -/
  isCrash : String → Bool
  /-- one of the patterns for errors that are expected from the query -/
  isExpected : String → Bool
  /-- one of those for errors that are expected from the result -/
  isExpectedStore : String → Bool

def MysqlBuild.debugInfo (b : MysqlBuild) (func : String) (line : ℕ) : String :=
  func ++ "(" ++ b.file ++ ":" ++ toString line ++ ")"

/-- What the server makes of a statement. After `Commands out of sync` the driver sends
the statement again at once, so a reply is the first other one. `blocked` stands for a
query that other connections block. -/
inductive ServerReply
  | rows (rows : List (List (Option String)))
  | queryError (err : String)
  | storeError (err : String)
  | blocked (pids : List ℕ)

def ServerReply.isDeadlock : ServerReply → Bool
  | .queryError err | .storeError err => containsText err "Deadlock found"
  | _ => false

/-- The fields of a connection. -/
structure DutMysql where
  txnAbort : Bool
  hasSentSql : Bool
  sentSql : String

def DutMysql.init : DutMysql := ⟨false, false, ""⟩

/-- A statement is sent once, and then asked about. -/
def DutMysql.send (d : DutMysql) (stmt : String) : DutMysql :=
  if d.hasSentSql then d else ⟨d.txnAbort, true, stmt⟩

/-- A failed statement is no longer the sent one; a deadlock is remembered. -/
def DutMysql.failed (d : DutMysql) (err : String) : DutMysql :=
  ⟨d.txnAbort || containsText err "Deadlock found", false, ""⟩

/-- `dut_mysql::test` with the nonblocking calls. -/
def MysqlBuild.asyncTest (b : MysqlBuild) (d : DutMysql) (stmt : String) (reply : ServerReply) :
    TestResult × DutMysql :=
  if d.txnAbort then
    if stmt = "COMMIT;" then
      (.error ("txn aborted, can only rollback \nLocation: " ++ b.debugInfo "test" 924), d)
    else if stmt = "ROLLBACK;" then (.ok [], d)
    else (.error ("txn aborted, stmt skipped \nLocation: " ++ b.debugInfo "test" 927), d)
  else if (d.send stmt).sentSql ≠ stmt then
    (.error ("sent sql stmt changed in " ++ b.debugInfo "test" 949 ++ "\nsent_sql: " ++
      (d.send stmt).sentSql ++ "\nstmt: " ++ stmt), d.send stmt)
  else
    match reply with
    | .blocked pids =>
      (.error ("blocked in " ++ b.debugInfo "test" 964 ++
        String.join (pids.map fun pid => "\nblocking_pid->[" ++ toString pid ++ "]<-") ++
        "\nself_pid->[" ++ toString b.processId ++ "]<-"), d.send stmt)
    | .queryError err =>
      (.error ("NET_ASYNC_ERROR(skipped): " ++ err ++ "\nLocation: " ++ b.debugInfo "test" 989),
        d.failed err)
    | .storeError err =>
      (.error ("mysql_store_result fails, stmt skipped: " ++ err ++ "\nLocation: " ++
        b.debugInfo "test" 1003), d.failed err)
    | .rows rows => (.ok (rows.map fun row => row.map (·.getD "NULL")), ⟨false, false, ""⟩)

/-- The blocking body, with the name it prints; it does not return while it is blocked. -/
def MysqlBuild.syncTest (b : MysqlBuild) (name : String) (line : ℕ) (reply : ServerReply) :
    Option TestResult :=
  match reply with
  | .blocked _ => none
  | .queryError err =>
    if b.isCrash err then some (.error ("BUG!!! " ++ err ++ " in mysql::" ++ name))
    else if b.isExpected err then some (.error ("mysql " ++ name ++ " expected error:" ++ err))
    else some (.error ("[" ++ err ++ "] in mysql::" ++ name))
  | .storeError err =>
    if b.isExpectedStore err then
      some (.error ("mysql " ++ name ++ "/mysql_store_result expected error: " ++ err))
    else some (.error (name ++ ": mysql_store_result fails [" ++ err ++ "]\nLocation: " ++
      b.debugInfo name line))
  | .rows rows => some (.ok (rows.map contentRow))

/-- `dut_mysql::test` -/
def MysqlBuild.dutTest (b : MysqlBuild) (d : DutMysql) (stmt : String) (reply : ServerReply) :
    Option (TestResult × DutMysql) :=
  match b.test with
  | .async => some (b.asyncTest d stmt reply)
  | .blockTest => (b.syncTest "block_test" 882 reply).map (·, d)
  | .fallback => (b.syncTest "test" 1113 reply).map (·, d)

/-- The statement reaches the server. -/
def MysqlBuild.sends (b : MysqlBuild) (d : DutMysql) : Bool :=
  b.test != .async || !d.txnAbort

/-! A run against a server. -/

/-- The connections, and the transactions the server has rolled back. -/
structure MysqlState where
  duts : ℕ → DutMysql
  rolledBack : List ℕ

/-- One call of the log, answered as the driver does it. -/
def MysqlState.step (b : MysqlBuild) (p : TestPlan) (m : MysqlState) (reply : ServerReply)
    (c : Call) : Option MysqlState :=
  let tid := p.tidQueue c.pos
  match b.dutTest (m.duts tid) c.text reply with
  | none => none
  | some (result, d) =>
    if result = c.result then
      some
        { duts := Function.update m.duts tid d
          rolledBack :=
            if b.sends (m.duts tid) && reply.isDeadlock then tid :: m.rolledBack
            else m.rolledBack }
    else none

/-- The log of a run, as the driver answers it for the replies of the server; `none` when
it is not such a log. -/
def mysqlRun (b : MysqlBuild) (p : TestPlan) : List (ServerReply × Call) → MysqlState →
    Option MysqlState
  | [], m => some m
  | (reply, c) :: calls, m => (m.step b p reply c).bind (mysqlRun b p calls)

/-- `m` is left by the run with log `calls`. -/
def MysqlRun (b : MysqlBuild) (p : TestPlan) (replies : List ServerReply) (calls : List Call)
    (m : MysqlState) : Prop :=
  replies.length = calls.length ∧ mysqlRun b p (replies.zip calls) ⟨fun _ => .init, []⟩ = some m

/-- Every call of the log is an answer of the driver. -/
theorem mysqlRun_answer {b : MysqlBuild} {p : TestPlan} {calls : List (ServerReply × Call)}
    {m m' : MysqlState} (h : mysqlRun b p calls m = some m') :
    ∀ rc ∈ calls, ∃ d d', b.dutTest d rc.2.text rc.1 = some (rc.2.result, d') := by
  induction calls generalizing m with
  | nil => simp
  | cons rc calls ih =>
    obtain ⟨reply, c⟩ := rc
    obtain ⟨m1, hstep, h⟩ := Option.bind_eq_some_iff.1 h
    intro rc hrc
    rcases List.mem_cons.1 hrc with rfl | hrc
    · unfold MysqlState.step at hstep
      dsimp only at hstep
      split at hstep
      · cases hstep
      · next result d hdut =>
        split at hstep
        · next he => exact ⟨_, d, he ▸ hdut⟩
        · cases hstep
    · exact ih h rc hrc

/-! The nonblocking driver never refuses a commit. -/

theorem containsText_append_left {a w : String} (b : String) (h : containsText a w = true) :
    containsText (a ++ b) w = true := by
  unfold containsText at h ⊢
  rw [List.any_eq_true] at h ⊢
  obtain ⟨l, hl, hw⟩ := h
  obtain ⟨pre, hpre⟩ := (List.mem_tails l _).1 hl
  refine ⟨l ++ b.toList, (List.mem_tails _ _).2 ⟨pre, ?_⟩, ?_⟩
  · rw [String.toList_append, ← hpre, List.append_assoc]
  · exact List.isPrefixOf_iff_prefix.2
      ((List.isPrefixOf_iff_prefix.1 hw).trans (List.prefix_append _ _))

/-- Its errors are told apart by `trans_test_unit` from an answer to the statement. -/
theorem asyncTest_not_plain (b : MysqlBuild) (d : DutMysql) {stmt : String} (hstmt : stmt ≠ "COMMIT;")
    (reply : ServerReply) : (b.asyncTest d stmt reply).1.isPlainError = false := by
  have hmark : ∀ (pre post : String), (containsText pre "blocked" = true ∨
      containsText pre "skipped" = true ∨ containsText pre "sent sql stmt changed" = true) →
      (TestResult.error (pre ++ post)).isPlainError = false := by
    intro pre post h
    unfold TestResult.isPlainError
    rcases h with h | h | h <;> simp [containsText_append_left post h]
  unfold MysqlBuild.asyncTest
  by_cases habort : d.txnAbort = true
  · rw [if_pos habort, if_neg hstmt]
    split
    · rfl
    · exact hmark "txn aborted, stmt skipped \nLocation: " _ (Or.inr (Or.inl (by decide)))
  rw [if_neg habort]
  by_cases hsent : (d.send stmt).sentSql = stmt
  · rw [if_neg (not_not.2 hsent)]
    cases reply with
    | rows rows => rfl
    | queryError err =>
      simp only [String.append_assoc]
      exact hmark "NET_ASYNC_ERROR(skipped): " _ (Or.inr (Or.inl (by decide)))
    | storeError err =>
      simp only [String.append_assoc]
      exact hmark "mysql_store_result fails, stmt skipped: " _ (Or.inr (Or.inl (by decide)))
    | blocked pids =>
      simp only [String.append_assoc]
      exact hmark "blocked in " _ (Or.inl (by decide))
  · rw [if_pos hsent]
    simp only [String.append_assoc]
    exact hmark "sent sql stmt changed in " _ (Or.inr (Or.inr (by decide)))

theorem not_commitRefused_of_async {b : MysqlBuild} (hb : b.test = .async) {p : TestPlan}
    {replies : List ServerReply} {calls : List Call} {m : MysqlState}
    (h : MysqlRun b p replies calls m) (htext : ∀ c ∈ calls, c.wantsOutput = true →
      isControl c.text p.commitStmt = true → c.text ≠ "COMMIT;") (t : ℕ) :
    ¬p.CommitRefused calls t := by
  rintro ⟨c, hc, -, href⟩
  simp only [TestPlan.refusedCommit, Bool.and_eq_true] at href
  obtain ⟨k, hk, hck⟩ := List.getElem_of_mem hc
  have hkr : k < replies.length := h.1 ▸ hk
  have hmem : (replies[k], c) ∈ replies.zip calls := by
    rw [← hck]
    exact List.mem_iff_getElem.2 ⟨k, by simp [h.1, hk], by simp⟩
  obtain ⟨d, d', hdut⟩ := mysqlRun_answer h.2 _ hmem
  rw [MysqlBuild.dutTest, hb] at hdut
  have hresult : (b.asyncTest d c.text replies[k]).1 = c.result :=
    congrArg Prod.fst (Option.some.inj hdut)
  have hplain := asyncTest_not_plain b d (htext c hc href.1.1 href.1.2) replies[k]
  rw [hresult, href.2] at hplain
  cases hplain

/-! Aborted transactions and the sort. -/

/-- The path of the sort holds statements of committed transactions only. -/
theorem topologicalSortPath_committed {inp : AnalyzerInput} {a : DependencyAnalyzer}
    {g : StmtGraph} {deletedNodes : Finset StmtId} {st : SortState}
    (haccept : dependencyAnalyzer inp = .ok a) (hg : a.Derived g)
    (hids : ∀ s ∈ deletedNodes, ∃ i < a.queue.stmtNum, s = a.queue.sid i)
    (hclosed : ∀ i < a.queue.stmtNum, a.queue.sid i ∈ deletedNodes → ∀ j ∈ a.queue.stmtSet g i,
      a.queue.sid j ∈ deletedNodes)
    (h : a.queue.topologicalSortPath g deletedNodes = .ok st) {s : StmtId} (hs : s ∈ st.path) :
    ∃ i < a.queue.stmtNum, s = a.queue.sid i ∧ a.queue.status (a.queue.tid i) = .commit := by
  have he := dependencyAnalyzer_explained haccept
  obtain ⟨st', hloop, hinv, -⟩ :=
    sortLoop_inv (sortInit_inv hids hclosed fun i hi j hj => hg.tid_stmtSet he hi hj)
  rw [topologicalSortPath_eq (fun s hs => hinv.ids s (Or.inl ((hinv.mem_path s).1 hs))) hloop] at h
  obtain rfl := Except.ok.inj h
  have hout := (hinv.mem_path s).1 (List.mem_of_mem_filter hs)
  obtain ⟨i, hi, rfl⟩ := hinv.ids s (Or.inl hout)
  refine ⟨i, hi, rfl, ?_⟩
  by_contra habort
  exact hinv.apart _ hout (hinv.aborted i hi habort)

/-- No path that the analyzer of the run sorts has a statement of the transaction. -/
def PlannedTest.OffPaths (t : PlannedTest) (tid : ℕ) : Prop :=
  ∀ initContent a g deletedNodes st, dependencyAnalyzer (t.analyzerInput initContent) = .ok a →
    a.Derived g → (∀ s ∈ deletedNodes, ∃ i < a.queue.stmtNum, s = a.queue.sid i) →
    (∀ i < a.queue.stmtNum, a.queue.sid i ∈ deletedNodes → ∀ j ∈ a.queue.stmtSet g i,
      a.queue.sid j ∈ deletedNodes) →
    a.queue.topologicalSortPath g deletedNodes = .ok st → ∀ s ∈ st.path, s.txnId ≠ tid

theorem PlannedTest.offPaths_of_abort {t : PlannedTest} {tid : ℕ}
    (htid : ∀ u ∈ t.test.realTidQueue, u < t.transNum) (habort : (t.txn tid).status = .abort) :
    t.OffPaths tid := by
  intro initContent a g deletedNodes st ha hg hids hclosed hst s hs heq
  obtain ⟨i, hi, rfl, hcommit⟩ := topologicalSortPath_committed ha hg hids hclosed hst hs
  obtain ⟨g1, g2, g3, g4, g5, hrun⟩ := dependencyAnalyzer_run ha
  have hcopy := hrun.copy
  unfold AnalyzerInput.copy at hcopy
  split_ifs at hcopy
  have hqueue := Except.ok.inj hcopy
  have htids : a.queue.fTxnIdQueue = t.test.realTidQueue := by rw [← hqueue]; rfl
  have hstatus : a.queue.fTxnStatus =
      (List.range t.transNum).map (fun u => (t.txn u).status) ++ [.commit] := by rw [← hqueue]; rfl
  have htidi : a.queue.tid i = tid := by
    have : (a.queue.tid i : ℤ) = tid := heq
    omega
  have hlt : tid < t.transNum := by
    rw [← htidi]
    refine htid _ ?_
    rw [← htids]
    unfold AnalyzedQueue.tid
    have hi' : i < a.queue.fTxnIdQueue.length := hi
    rw [List.getD, List.getElem?_eq_getElem hi', Option.getD_some]
    exact List.getElem_mem hi'
  rw [htidi, AnalyzedQueue.status, hstatus] at hcommit
  have hget : ((List.range t.transNum).map (fun u => (t.txn u).status) ++ [TxnStatus.commit]).getD
      tid .commit = (t.txn tid).status := by
    rw [List.getD, List.getElem?_append_left (by simpa using hlt)]
    simp [hlt]
  rw [hget, habort] at hcommit
  cases hcommit

/-- In a run against MySQL, the rolled back transactions all end as aborts, off every
path, exactly when each of them was planned as one, or is one whose commit a blocking
build saw refused. -/
theorem rolledBack_abort_iff {t : PlannedTest} {s' : TransTest} {b : MysqlBuild}
    {replies : List ServerReply} {m : MysqlState} (hclear : t.test.Cleared)
    (hcalls : t.test.calls = []) (htid : ∀ i < t.plan.stmtNum, t.plan.tidQueue i < t.transNum)
    (hcommit : t.plan.commitStmt = "COMMIT") (habort : t.plan.abortStmt = "ROLLBACK")
    (hcontrol : ∀ i < t.plan.stmtNum, isControl (t.stmt i) t.plan.commitStmt = true →
      t.stmt i = t.plan.commitStmt)
    (hrun : transTest t.plan t.test = .ok s') (hserver : MysqlRun b t.plan replies s'.calls m) :
    (∀ tid ∈ m.rolledBack, (s'.transArr tid).status = .abort ∧
        { t with test := s' }.OffPaths tid) ↔
      ∀ tid ∈ m.rolledBack, (t.txn tid).status = .abort ∨
        b.test ≠ .async ∧ t.plan.CommitRefused s'.calls tid := by
  have hlog := transTest_log hcalls hrun
  have htext : ∀ c ∈ s'.calls, c.wantsOutput = true →
      isControl c.text t.plan.commitStmt = true → c.text ≠ "COMMIT;" := by
    intro c hc hw hctrl
    obtain ⟨hpos, htext | htext⟩ := hlog.call c hc hw
    · have : c.text = "COMMIT" := by
        rw [← hcommit, htext]
        rw [htext] at hctrl
        exact hcontrol c.pos hpos hctrl
      rw [this]
      decide
    · rw [htext, habort]
      decide
  have hreal : ∀ u ∈ s'.realTidQueue, u < t.transNum := by
    obtain ⟨order, res, hrec⟩ := transTest_record hclear hrun
    intro u hu
    rw [hrec.realTid] at hu
    obtain ⟨i, hi, rfl⟩ := List.mem_map.1 hu
    exact htid i (List.mem_range.1 (hrec.perm.mem_iff.1 hi))
  have hstatus : ∀ tid, (s'.transArr tid).status = .abort ↔ (t.txn tid).status = .abort ∨
      b.test ≠ .async ∧ t.plan.CommitRefused s'.calls tid := by
    intro tid
    rw [hlog.aborted]
    refine or_congr Iff.rfl ⟨fun href => ⟨fun hb => ?_, href⟩, And.right⟩
    exact not_commitRefused_of_async hb hserver htext tid href
  constructor
  · exact fun h tid hmem => (hstatus tid).1 (h tid hmem).1
  · intro h tid hmem
    have habort := (hstatus tid).2 (h tid hmem)
    exact ⟨habort, PlannedTest.offPaths_of_abort hreal habort⟩

/-! Two transactions that lock each other out. -/

/-- The reads of the second transaction wait for those of the first and the other way
round; the second is planned with a status. -/
def deadlockTest (status : TxnStatus) (answers : List TestResult) : PlannedTest :=
  let last := if status = .commit then "COMMIT" else "ROLLBACK"
  let texts := ["START TRANSACTION", "START TRANSACTION", "select c from t_0 for update",
    "select c from t_1 for update", "select c from t_1 for update", "select c from t_0 for update",
    last, "COMMIT"]
  { plan :=
      { stmtNum := 8, tidQueue := fun i => [0, 1, 0, 1, 0, 1, 1, 0].getD i 0
        stmtUse := fun i => .mk' (if i ∈ [0, 1, 6, 7] then .initType else .selectRead) false
        commitStmt := "COMMIT", abortStmt := "ROLLBACK"
        dbms := fun k => answers.getD k (.ok []) }
    transNum := 2
    isTxnString := fun i => i ∈ [0, 1, 6, 7]
    test :=
      { stmtQueue := fun i => texts.getD i ""
        transArr := fun tid => ⟨false, [], [], [], if tid = 1 then status else .commit⟩
        statusQueue := fun _ => false
        realTidQueue := [], realStmtQueue := [], realOutputQueue := [], realStmtUsage := []
        calls := [] } }

def mysqlBuild (test : MysqlTest) : MysqlBuild where
  test := test
  file := "schema/mysql.cc"
  processId := 8
  isCrash _ := false
  isExpected _ := false
  isExpectedStore _ := false

def deadlockErr : String := "Deadlock found when trying to get lock; try restarting transaction"

/-- The replies with nonblocking calls: the deadlock is found while the first transaction
waits. -/
def asyncReplies : List ServerReply :=
  [.rows [], .rows [], .rows [], .rows [], .blocked [9], .queryError deadlockErr, .rows [],
    .rows [], .rows []]

def asyncAnswers : List TestResult :=
  [.ok [], .ok [], .ok [], .ok [],
    .error "blocked in test(schema/mysql.cc:964)\nblocking_pid->[9]<-\nself_pid->[8]<-",
    .error ("NET_ASYNC_ERROR(skipped): " ++ deadlockErr ++ "\nLocation: test(schema/mysql.cc:989)"),
    .error "txn aborted, stmt skipped \nLocation: test(schema/mysql.cc:927)", .ok [], .ok []]

/-- The replies with `block_test`. -/
def blockReplies : List ServerReply :=
  [.rows [], .rows [], .rows [], .rows [], .rows [], .queryError deadlockErr, .rows [], .rows []]

def blockAnswers : List TestResult :=
  [.ok [], .ok [], .ok [], .ok [], .ok [],
    .error ("[" ++ deadlockErr ++ "] in mysql::block_test"), .ok [], .ok []]

/-- The transactions rolled back, and the statuses after the run. -/
def deadlockRun (b : MysqlBuild) (replies : List ServerReply) (t : PlannedTest) :
    Except Failure (Option (List ℕ) × List TxnStatus) := do
  let s ← transTest t.plan t.test
  let m := mysqlRun b t.plan (replies.zip s.calls) ⟨fun _ => .init, []⟩
  return (m.map MysqlState.rolledBack,
    (List.range t.transNum).map fun tid => (s.transArr tid).status)

/-- The second transaction is rolled back and stays a commit, in both builds. -/
theorem rolledBack_stays_commit :
    deadlockRun (mysqlBuild .async) asyncReplies (deadlockTest .commit asyncAnswers) =
        .ok (some [1], [.commit, .commit]) ∧
      deadlockRun (mysqlBuild .blockTest) blockReplies (deadlockTest .commit blockAnswers) =
        .ok (some [1], [.commit, .commit]) := by
  constructor <;> decide +kernel

/-- A transaction planned as an abort stays off every path. -/
theorem rolledBack_abort_iff_deadlock : ∃ s',
    transTest (deadlockTest .abort asyncAnswers).plan (deadlockTest .abort asyncAnswers).test = .ok s' ∧
      (s'.transArr 1).status = .abort ∧
      { deadlockTest .abort asyncAnswers with test := s' }.OffPaths 1 := by
  have heval : deadlockRun (mysqlBuild .async) asyncReplies (deadlockTest .abort asyncAnswers) =
      .ok (some [1], [.commit, .abort]) ∧
    (transTest (deadlockTest .abort asyncAnswers).plan (deadlockTest .abort asyncAnswers).test).map
      (fun s => s.calls.length) = .ok 9 := by
    constructor <;> decide +kernel
  cases hrun : transTest (deadlockTest .abort asyncAnswers).plan
      (deadlockTest .abort asyncAnswers).test with
  | error e =>
    rw [hrun] at heval
    cases heval.2
  | ok s' =>
    unfold deadlockRun at heval
    rw [hrun] at heval
    have hlength : s'.calls.length = 9 := Except.ok.inj heval.2
    have hboth := Except.ok.inj heval.1
    obtain ⟨m, hm, hrolled⟩ := Option.map_eq_some_iff.1 (congrArg Prod.fst hboth)
    have hserver : MysqlRun (mysqlBuild .async) (deadlockTest .abort asyncAnswers).plan asyncReplies
        s'.calls m := ⟨hlength.symm, hm⟩
    have hcontrol : ∀ i < (deadlockTest .abort asyncAnswers).plan.stmtNum,
        isControl ((deadlockTest .abort asyncAnswers).stmt i)
          (deadlockTest .abort asyncAnswers).plan.commitStmt = true →
        (deadlockTest .abort asyncAnswers).stmt i =
          (deadlockTest .abort asyncAnswers).plan.commitStmt := by
      decide
    have hiff := rolledBack_abort_iff (t := deadlockTest .abort asyncAnswers)
      ⟨fun _ => rfl, fun _ => rfl, fun _ => rfl, rfl, rfl, rfl, rfl⟩ rfl (by decide) rfl rfl hcontrol
      hrun hserver
    rw [hrolled] at hiff
    obtain ⟨hstatus, hoff⟩ := hiff.2 (fun tid htid => Or.inl (by
      rw [List.mem_singleton.1 htid]; rfl)) 1 (List.mem_singleton.2 rfl)
    exact ⟨s', rfl, hstatus, hoff⟩

end DbFuzz
