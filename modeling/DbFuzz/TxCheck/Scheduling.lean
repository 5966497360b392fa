import DbFuzz.TxCheck.ExecEnd
import DbFuzz.TxCheck.RealQueue
import DbFuzz.TxCheck.RoundCheck
import DbFuzz.TxCheck.RunLog

/-! `block_scheduling` against a deterministic server. A run without skipped statements
leaves a queue that the server executes in order, so that the next run changes nothing. -/

namespace DbFuzz

open Loop

/-- A server: the answer to a statement of a transaction, after the statements executed before. -/
abbrev TxnServer := List (ℕ × String) → ℕ → String → TestResult

/-- The statement counts as executed. A blocked or skipped one leaves no trace. -/
def TestResult.executes : TestResult → Bool
  | .ok _ => true
  | .error err => (TestResult.error err).isPlainError

/-- Placeholders are executed, and no commit fails. -/
structure TxnServer.Lenient (D : TxnServer) (commitStmt : String) : Prop where
  placeholder : ∀ hist tid, (D hist tid spaceHolderStmt).executes = true
  commit : ∀ hist tid text, isControl text commitStmt = true →
    (D hist tid text).isPlainError = false

namespace TestPlan

/-- The statements executed in a log. -/
def history (p : TestPlan) (log : List Call) : List (ℕ × String) :=
  (log.filter fun c => c.result.executes).map fun c => (p.tidQueue c.pos, c.text)

/-- Each call of the log has the answer of the server. -/
def Follows (p : TestPlan) (D : TxnServer) (log : List Call) : Prop :=
  ∀ before c after, log = before ++ c :: after →
    c.result = D (p.history before) (p.tidQueue c.pos) c.text

/-- What a run sees of its server: the answer to each first attempt, and, when the run
returns, all the answers of its log. -/
structure ServedBy (p : TestPlan) (D : TxnServer) (s : TransTest) : Prop where
  attempt : ∀ k < p.stmtNum, ∀ t,
    forRange k (mainRound p) { s with statusQueue := fun _ => false } = .ok t →
    (t.transArr (p.tidQueue k)).isBlocked = false →
    p.dbms t.calls.length =
      D (p.history (t.calls.drop s.calls.length)) (p.tidQueue k) (t.stmtQueue k)
  log : ∀ s', transTest p s = .ok s' → p.Follows D (s'.calls.drop s.calls.length)

/-- The queue with its transactions. -/
def queueOf (p : TestPlan) (stmtQueue : ℕ → String) : List (ℕ × String) :=
  (List.range p.stmtNum).map fun i => (p.tidQueue i, stmtQueue i)

end TestPlan

/-- The server executes the queue in its order. -/
def TxnServer.Runs (D : TxnServer) (queue : List (ℕ × String)) : Prop :=
  ∀ before e after, queue = before ++ e :: after → (D before e.1 e.2).executes = true

/-! The log of a run. -/

section Log

variable {p : TestPlan} {D : TxnServer}

theorem history_append (p : TestPlan) (log log' : List Call) :
    p.history (log ++ log') = p.history log ++ p.history log' := by
  simp [TestPlan.history]

theorem history_singleton (p : TestPlan) (c : Call) :
    p.history [c] = if c.result.executes then [(p.tidQueue c.pos, c.text)] else [] := by
  unfold TestPlan.history
  by_cases h : c.result.executes = true
  · simp [h]
  · simp [h]

/-- The statements that were executed can be executed again in that order. -/
theorem TestPlan.Follows.runs {log : List Call} (h : p.Follows D log) : D.Runs (p.history log) := by
  intro before e after heq
  unfold TestPlan.history at heq
  obtain ⟨l, rest, hsplit, hbefore, hrest⟩ := List.map_eq_append_iff.1 heq
  obtain ⟨c, l', rfl, rfl, hafter⟩ := List.map_eq_cons_iff.1 hrest
  obtain ⟨log1, log2, rfl, hlog1, hlog2⟩ := List.filter_eq_append_iff.1 hsplit
  obtain ⟨gap, log3, rfl, hgap, hc, -⟩ := List.filter_eq_cons_iff.1 hlog2
  have hanswer := h (log1 ++ gap) c log3 (by rw [List.append_assoc])
  have hhist : p.history (log1 ++ gap) = before := by
    have hnil : gap.filter (fun c => c.result.executes) = [] :=
      List.filter_eq_nil_iff.2 fun c hc => by simpa using hgap c hc
    rw [← hbefore, ← hlog1, TestPlan.history, List.filter_append, hnil, List.append_nil]
  rw [hhist] at hanswer
  rw [← hanswer]
  exact hc

theorem TestPlan.Follows.prefix {log log' : List Call} (h : p.Follows D (log ++ log')) :
    p.Follows D log := by
  rintro before c after rfl
  exact h before c (after ++ log') (by simp)

/-- A call whose commit is not refused: one entry of the log, and the return code says
whether the statement was executed. -/
theorem transTestUnit_answer {pos : ℕ} {s s' : TransTest} {e : Executed} {output : StmtOutput}
    (h : transTestUnit p pos s = .ok (e, output, s'))
    (hrefused : p.refusedCommit ⟨pos, s.stmtQueue pos, true, p.dbms s.calls.length⟩ = false) :
    s'.calls = s.calls ++ [⟨pos, s.stmtQueue pos, true, p.dbms s.calls.length⟩] ∧
      s'.stmtQueue = s.stmtQueue ∧ (e = .executed ↔ (p.dbms s.calls.length).executes = true) := by
  unfold transTestUnit TransTest.test at h
  dsimp only at h
  unfold TestPlan.refusedCommit at hrefused
  cases hanswer : p.dbms s.calls.length with
  | ok out =>
    rw [hanswer] at h
    cases h
    exact ⟨rfl, rfl, by simp [TestResult.executes]⟩
  | error err =>
    rw [hanswer] at h hrefused
    dsimp only at h
    by_cases hlost : (containsText err "ost connection" || containsText err "BUG") = true
    · rw [if_pos hlost] at h
      cases h
    rw [if_neg hlost] at h
    rw [Bool.not_eq_true, Bool.or_eq_false_iff] at hlost
    by_cases hblocked : containsText err "blocked" = true
    · rw [if_pos hblocked] at h
      cases h
      exact ⟨rfl, rfl, by simp [TestResult.executes, TestResult.isPlainError, hblocked]⟩
    rw [if_neg hblocked] at h
    by_cases hskipped : containsText err "skipped" = true
    · rw [if_pos hskipped] at h
      cases h
      exact ⟨rfl, rfl, by simp [TestResult.executes, TestResult.isPlainError, hskipped]⟩
    rw [if_neg hskipped] at h
    by_cases hchanged : containsText err "sent sql stmt changed" = true
    · rw [if_pos hchanged] at h
      cases h
    rw [if_neg hchanged] at h
    have hplain : (TestResult.error err).isPlainError = true := by
      simp [TestResult.isPlainError, hlost.1, hlost.2, hblocked, hskipped, hchanged]
    rw [hplain, Bool.true_and, Bool.and_true] at hrefused
    dsimp only at hrefused
    rw [if_pos (by simp [hrefused])] at h
    cases h
    exact ⟨rfl, rfl, by simp [TestResult.executes, hplain]⟩

/-- The call of an answer that executes. -/
theorem transTestUnit_executes {pos : ℕ} {s : TransTest}
    (hanswer : (p.dbms s.calls.length).executes = true)
    (hrefused : p.refusedCommit ⟨pos, s.stmtQueue pos, true, p.dbms s.calls.length⟩ = false) :
    ∃ output s', transTestUnit p pos s = .ok (.executed, output, s') := by
  unfold TestPlan.refusedCommit at hrefused
  unfold transTestUnit TransTest.test
  dsimp only
  cases hr : p.dbms s.calls.length with
  | ok output => exact ⟨_, _, rfl⟩
  | error err =>
    rw [hr, TestResult.executes] at hanswer
    rw [hr, hanswer, Bool.true_and, Bool.and_true] at hrefused
    dsimp only at hrefused
    simp only [TestResult.isPlainError, Bool.and_eq_true, Bool.not_eq_true'] at hanswer
    obtain ⟨⟨⟨⟨hlost, hbug⟩, hblocked⟩, hskipped⟩, hchanged⟩ := hanswer
    simp only [hlost, hbug, hblocked, hskipped, hchanged, hrefused, Bool.or_self,
      Bool.false_eq_true, Bool.not_false, reduceIte]
    exact ⟨_, _, rfl⟩

/-- Nothing was skipped so far. -/
def TestPlan.Unskipped (p : TestPlan) (s : TransTest) : Prop :=
  ∀ i < p.stmtNum, s.statusQueue i = true → ∀ r, s.settled p i = some r → r.skipped = false

/-- The state of a run after the calls of `log`, none of which is a refused commit. -/
structure Logged (p : TestPlan) (planned : ℕ → String) (log : List Call) (s : TransTest) : Prop where
  queue : s.stmtQueue = planned
  call : ∀ c ∈ log, c.text = planned c.pos
  called : ∀ i, s.statusQueue i = true → ∃ c ∈ log, c.pos = i
  lengths : s.realTidQueue.length = s.realStmtQueue.length
  history : p.Unskipped s → s.realTidQueue.zip s.realStmtQueue = p.history log

def LoggedFrom (p : TestPlan) (planned : ℕ → String) (base : List Call) (s : TransTest) : Prop :=
  ∃ log, s.calls = base ++ log ∧
    ((∀ c ∈ log, p.refusedCommit c = false) → Logged p planned log s)

variable {planned : ℕ → String} {log : List Call} {s s' : TransTest} {pos : ℕ} {e : Executed}
  {output : StmtOutput}

/-- A logged call and its pushes. -/
theorem Logged.round (h : Logged p planned log s) (hpos : pos < p.stmtNum)
    (hopen : s.statusQueue pos = false)
    (hunit : transTestUnit p pos s = .ok (e, output, s'))
    (hrefused : p.refusedCommit ⟨pos, s.stmtQueue pos, true, p.dbms s.calls.length⟩ = false) :
    Logged p planned (log ++ [⟨pos, s.stmtQueue pos, true, p.dbms s.calls.length⟩])
      ((s'.push p pos e output).setBlocked (p.tidQueue pos) (decide (e = .blocked))) := by
  obtain ⟨-, hqueue, hexecuted⟩ := transTestUnit_answer hunit hrefused
  obtain ⟨hframe, houtcome⟩ := transTestUnit_spec hunit
  have hsame := sameLog_pushBlocked s' p pos e output
  have hcall : ∀ c ∈ log ++ [⟨pos, s.stmtQueue pos, true, p.dbms s.calls.length⟩],
      c.text = planned c.pos := by
    intro c hc
    rcases List.mem_append.1 hc with hc | hc
    · exact h.call c hc
    · rw [List.mem_singleton.1 hc, h.queue]
  -- what is settled before stays settled: the call is for another statement
  have hothers : ∀ i, s.statusQueue i = true → s'.settled p i = s.settled p i := by
    intro i hi
    refine hframe.settledOthers i ?_
    rintro rfl
    rw [hopen] at hi
    cases hi
  cases houtcome with
  | blocked _ _ _ =>
    refine ⟨hsame.stmtQueue.trans (hqueue.trans h.queue), hcall, fun i hi => ?_, ?_, fun hun => ?_⟩
    · have hi' : s.statusQueue i = true := by rw [← hframe.status]; exact hi
      obtain ⟨c, hc, rfl⟩ := h.called i hi'
      exact ⟨c, List.mem_append_left _ hc, rfl⟩
    · exact (congrArg List.length hframe.realTid).trans
        (h.lengths.trans (congrArg List.length hframe.realStmt).symm)
    · have hnot : (p.dbms s.calls.length).executes = false := by
        rw [Bool.eq_false_iff]
        exact fun hx => absurd (hexecuted.2 hx) (by decide)
      rw [history_append, history_singleton, hnot, if_neg (by decide), List.append_nil,
        ← h.history fun i hlt hi r hr => ?_]
      · exact congrArg₂ List.zip hframe.realTid hframe.realStmt
      · exact hun i hlt (by rw [← hframe.status] at hi; exact hi) r ((hothers i hi).trans hr)
  | settled r hr _ _ =>
    rw [push_settled] at hsame ⊢
    refine ⟨hsame.stmtQueue.trans (hqueue.trans h.queue), hcall, fun i hi => ?_, ?_, fun hun => ?_⟩
    · by_cases hi' : i = pos
      · subst hi'
        exact ⟨_, List.mem_append_right _ (List.mem_singleton_self _), rfl⟩
      · have hdone : s'.statusQueue i = true := by
          simpa [TransTest.setBlocked, TransTest.modifyTxn, hi'] using hi
        obtain ⟨c, hc, rfl⟩ := h.called i (by rw [← hframe.status]; exact hdone)
        exact ⟨c, List.mem_append_left _ hc, rfl⟩
    · simp [TransTest.setBlocked, TransTest.modifyTxn, hframe.realTid, hframe.realStmt, h.lengths]
    · have hrun : r.skipped = false :=
        hun pos hpos (by simp [TransTest.setBlocked, TransTest.modifyTxn]) r hr
      have hx : (p.dbms s.calls.length).executes = true := hexecuted.1 (by rw [hrun]; rfl)
      rw [history_append, history_singleton, hx, if_pos rfl, ← h.history fun i hlt hi r' hr' => ?_]
      · simp only [TransTest.setBlocked, TransTest.modifyTxn, hframe.realTid, hframe.realStmt]
        rw [List.zip_append h.lengths, hqueue, Settled.stmt, hrun]
        rfl
      · refine hun i hlt ?_ r' ((hothers i hi).trans hr')
        by_cases hi' : i = pos
        · simp [TransTest.setBlocked, TransTest.modifyTxn, hi']
        · simpa [TransTest.setBlocked, TransTest.modifyTxn, hi', hframe.status] using hi

theorem keptRound_logged (p : TestPlan) (planned : ℕ → String) (base : List Call) :
    KeptRound p p.stmtNum (LoggedFrom p planned base) := by
  rintro pos hpos s e output s' hopen ⟨log, hcalls, hlog⟩ hunit
  obtain ⟨rest, hrest, -⟩ := transTestUnit_log hunit
  refine ⟨log ++ ⟨pos, s.stmtQueue pos, true, p.dbms s.calls.length⟩ :: rest, ?_, fun hno => ?_⟩
  · rw [(sameLog_pushBlocked s' p pos e output).calls, hrest, hcalls, List.append_assoc]
  · have hrefused := hno _ (List.mem_append_right _ List.mem_cons_self)
    have hcall := (transTestUnit_answer hunit hrefused).1
    rw [hrest, List.append_cancel_left_eq] at hcall
    rw [hcall]
    exact (hlog fun c hc => hno c (List.mem_append_left _ hc)).round hpos hopen hunit hrefused

/-- The log of a run that returns. -/
theorem TestPlan.ServedBy.logged (h : p.ServedBy D s) (hD : D.Lenient p.commitStmt)
    (hclear : s.Cleared) (hr : transTest p s = .ok s') :
    ∃ log, s'.calls = s.calls ++ log ∧ p.Follows D log ∧ Logged p s.stmtQueue log s' := by
  have hstart : LoggedFrom p s.stmtQueue s.calls { s with statusQueue := fun _ => false } := by
    refine ⟨[], (List.append_nil _).symm, fun _ => ⟨rfl, by simp, by simp, ?_, fun _ => ?_⟩⟩
    · simp [hclear.real.1, hclear.real.2.1]
    · rw [hclear.real.1]
      rfl
  obtain ⟨log, hcalls, hlog⟩ := transTest_rounds (keptRound_logged p _ _) hstart hr
  have hfollows := h.log s' hr
  rw [hcalls, List.drop_left] at hfollows
  refine ⟨log, hcalls, hfollows, hlog fun c hc => ?_⟩
  obtain ⟨before, after, rfl⟩ := List.append_of_mem hc
  unfold TestPlan.refusedCommit
  by_cases hcontrol : isControl c.text p.commitStmt = true
  · rw [hfollows before c after rfl, hD.commit _ _ _ hcontrol, Bool.and_false]
  · simp [hcontrol]

/-- A placeholder is not skipped. -/
theorem Logged.skipped (h : Logged p planned log s) (hD : D.Lenient p.commitStmt) {base : List Call}
    (hcalls : s.calls = base ++ log) (hfollows : p.Follows D log) {i : ℕ}
    (hdone : s.statusQueue i = true) {r : Settled} (hr : s.settled p i = some r)
    (hskipped : r.skipped = true) : planned i ≠ spaceHolderStmt := by
  obtain ⟨d, hd, hdi⟩ := h.called i hdone
  -- the last call for `i` is one of this run
  obtain ⟨c, hlast⟩ : ∃ c, log.reverse.find? (fun c => c.pos == i) = some c :=
    Option.isSome_iff_exists.1 (List.find?_isSome.2 ⟨d, List.mem_reverse.2 hd, by simp [hdi]⟩)
  have hmem : c ∈ log := List.mem_reverse.1 (List.mem_of_find?_eq_some hlast)
  have hpos : c.pos = i := by simpa using List.find?_some hlast
  have hsettle : p.settle c = some r := by
    have hcall : s.lastCall i = some c := by
      rw [TransTest.lastCall, hcalls, List.reverse_append, List.find?_append, hlast]
      rfl
    rw [TransTest.settled, hcall] at hr
    exact hr
  obtain ⟨before, after, rfl⟩ := List.append_of_mem hmem
  have hanswer := hfollows before c after rfl
  rintro hholder
  rw [h.call c hmem, hpos, hholder] at hanswer
  have hx := hD.placeholder (p.history before) (p.tidQueue i)
  rw [← hanswer] at hx
  cases hresult : c.result with
  | ok out =>
    rw [TestPlan.settle, hresult, Option.some.injEq] at hsettle
    rw [← hsettle] at hskipped
    cases hskipped
  | error err =>
    rw [hresult] at hx
    simp only [TestResult.executes, TestResult.isPlainError, Bool.and_eq_true,
      Bool.not_eq_true'] at hx
    simp only [TestPlan.settle, hresult, hx.1.2, Bool.false_eq_true, reduceIte] at hsettle
    split_ifs at hsettle
    cases hsettle
    cases hskipped

end Log

/-! Runs in the order of the queue. -/

/-- The first `k` statements were executed, each at its first attempt. -/
structure InOrder (p : TestPlan) (s : TransTest) (k : ℕ) (t : TransTest) : Prop where
  queue : t.stmtQueue = s.stmtQueue
  calls : ∃ log, t.calls = s.calls ++ log ∧ (∀ c ∈ log, c.result.executes = true) ∧
    log.map (fun c => (c.pos, c.text)) = (List.range k).map fun i => (i, s.stmtQueue i)
  unblocked : ∀ u, (t.transArr u).isBlocked = false
  status : ∀ j, t.statusQueue j = true ↔ j < k
  realTid : t.realTidQueue = (List.range k).map p.tidQueue
  realStmt : t.realStmtQueue = (List.range k).map s.stmtQueue
  realUsage : t.realStmtUsage = (List.range k).map p.stmtUse
  unskipped : ∀ i < k, ∀ r, t.settled p i = some r → r.skipped = false

section Replay

variable {p : TestPlan} {D : TxnServer} {s s' t : TransTest} {k : ℕ}

/-- The history after the first statements. -/
theorem InOrder.history (h : InOrder p s k t) :
    p.history (t.calls.drop s.calls.length) =
      (List.range k).map fun i => (p.tidQueue i, s.stmtQueue i) := by
  obtain ⟨log, hcalls, hexecutes, hlog⟩ := h.calls
  rw [hcalls, List.drop_left, TestPlan.history, List.filter_eq_self.2 hexecutes]
  have := congrArg (List.map fun e : ℕ × String => (p.tidQueue e.1, e.2)) hlog
  simpa only [List.map_map, Function.comp_def] using this

theorem queueOf_split (p : TestPlan) (queue : ℕ → String) (hk : k < p.stmtNum) :
    ∃ after, p.queueOf queue =
      (List.range k).map (fun i => (p.tidQueue i, queue i)) ++ (p.tidQueue k, queue k) :: after := by
  obtain ⟨m, hm⟩ := Nat.exists_eq_add_of_lt hk
  refine ⟨((List.range m).map (k + 1 + ·)).map fun i => (p.tidQueue i, queue i), ?_⟩
  rw [TestPlan.queueOf, show p.stmtNum = k + 1 + m by omega, List.range_add, List.map_append,
    List.range_succ, List.map_append, List.append_assoc]
  rfl

theorem setBlocked_isBlocked (s : TransTest) (u : ℕ) (b : Bool) (v : ℕ) :
    ((s.setBlocked u b).transArr v).isBlocked = if v = u then b else (s.transArr v).isBlocked := by
  by_cases hv : v = u
  · subst hv; simp [TransTest.setBlocked, TransTest.modifyTxn]
  · simp [TransTest.setBlocked, TransTest.modifyTxn, hv]

/-- The next statement is executed as well. -/
theorem InOrder.step (h : InOrder p s k t) (hk : k < p.stmtNum) (hD : D.Lenient p.commitStmt)
    (hruns : D.Runs (p.queueOf s.stmtQueue)) (hserved : p.ServedBy D s)
    (ht : forRange k (mainRound p) { s with statusQueue := fun _ => false } = .ok t) :
    ∃ t', mainRound p k t = .ok t' ∧ InOrder p s (k + 1) t' := by
  have hanswer := hserved.attempt k hk t ht (h.unblocked _)
  rw [h.history, h.queue] at hanswer
  have hexecutes : (p.dbms t.calls.length).executes = true := by
    obtain ⟨after, hsplit⟩ := queueOf_split p s.stmtQueue hk
    rw [hanswer]
    exact hruns _ _ after hsplit
  have hrefused : p.refusedCommit ⟨k, t.stmtQueue k, true, p.dbms t.calls.length⟩ = false := by
    unfold TestPlan.refusedCommit
    by_cases hcontrol : isControl (s.stmtQueue k) p.commitStmt = true
    · rw [hanswer, hD.commit _ _ _ hcontrol, Bool.and_false]
    · simp [h.queue, hcontrol]
  obtain ⟨output, t1, hunit⟩ := transTestUnit_executes hexecutes hrefused
  obtain ⟨hcalls, hqueue, -⟩ := transTestUnit_answer hunit hrefused
  obtain ⟨hframe, houtcome⟩ := transTestUnit_spec hunit
  have hround : mainRound p k t =
      .ok ((t1.push p k .executed output).setBlocked (p.tidQueue k) false) := by
    rw [mainRound_eq p k t (h.unblocked _), hunit]
    simp only [bind, Except.bind, reduceCtorEq, decide_false, true_and]
    split
    · refine retryBlockStmt_done fun j hj => ?_
      have hdone := (h.status j).2 hj
      simp [TransTest.setBlocked, TransTest.modifyTxn, TransTest.push, TransTest.pushExecuted,
        hframe.status, hdone, hj.ne]
    · rfl
  refine ⟨_, hround, hqueue.trans h.queue, ?_, fun u => ?_, fun j => ?_, ?_, ?_, ?_, fun i hi r hr => ?_⟩
  · obtain ⟨log, hlog, hall, hmap⟩ := h.calls
    refine ⟨log ++ [⟨k, t.stmtQueue k, true, p.dbms t.calls.length⟩], ?_, fun c hc => ?_, ?_⟩
    · exact hcalls.trans (by rw [hlog, List.append_assoc])
    · rcases List.mem_append.1 hc with hc | hc
      · exact hall c hc
      · rw [List.mem_singleton.1 hc]
        exact hexecutes
    · rw [List.map_append, hmap, List.range_succ, List.map_append, h.queue]
      rfl
  · rw [setBlocked_isBlocked]
    split_ifs
    · rfl
    · exact (hframe.isBlocked u).trans (h.unblocked u)
  · by_cases hj : j = k
    · simp [hj, TransTest.setBlocked, TransTest.modifyTxn, TransTest.push, TransTest.pushExecuted]
    · have hlt : j < k + 1 ↔ j < k := by omega
      simp [TransTest.setBlocked, TransTest.modifyTxn, TransTest.push, TransTest.pushExecuted, hj,
        hframe.status, h.status j, hlt]
  · simp [TransTest.setBlocked, TransTest.modifyTxn, TransTest.push, TransTest.pushExecuted,
      hframe.realTid, h.realTid, List.range_succ]
  · simp [TransTest.setBlocked, TransTest.modifyTxn, TransTest.push, TransTest.pushExecuted,
      hframe.realStmt, h.realStmt, hqueue, h.queue, List.range_succ]
  · simp [TransTest.setBlocked, TransTest.modifyTxn, TransTest.push, TransTest.pushExecuted,
      hframe.realUsage, h.realUsage, List.range_succ]
  · have hr' : t1.settled p i = some r := hr
    by_cases hik : i = k
    · subst hik
      generalize he : Executed.executed = e at houtcome
      cases houtcome with
      | blocked => cases he
      | settled r' hsettled =>
        rw [hsettled, Option.some.injEq] at hr'
        rw [← hr', Bool.eq_false_iff]
        intro hskip
        rw [if_pos hskip] at he
        cases he
    · rw [hframe.settledOthers i hik] at hr'
      exact h.unskipped i (by omega) r hr'

/-- A queue that the server executes in its order is executed so. -/
theorem transTest_inOrder (hclear : s.Cleared) (hD : D.Lenient p.commitStmt)
    (hruns : D.Runs (p.queueOf s.stmtQueue)) (hserved : p.ServedBy D s) :
    ∃ s', transTest p s = .ok s' ∧ InOrder p s p.stmtNum s' := by
  have hmain : ∀ k ≤ p.stmtNum, ∃ t,
      forRange k (mainRound p) { s with statusQueue := fun _ => false } = .ok t ∧
        InOrder p s k t := by
    intro k
    induction k with
    | zero =>
      intro _
      refine ⟨_, rfl, rfl, ⟨[], (List.append_nil _).symm, by simp, rfl⟩, hclear.unblocked, by simp,
        hclear.real.1, hclear.real.2.1, hclear.real.2.2.2, by simp⟩
    | succ k ih =>
      intro hk
      obtain ⟨t, ht, hin⟩ := ih (by omega)
      obtain ⟨t', ht', hin'⟩ := hin.step hk hD hruns hserved ht
      exact ⟨t', bind_eq_ok_iff.2 ⟨t, ht, ht'⟩, hin'⟩
  obtain ⟨t, ht, hin⟩ := hmain p.stmtNum le_rfl
  have hnum : executedNum p t = p.stmtNum := by
    unfold executedNum
    rw [List.countP_eq_length.2 fun i hi => (hin.status i).2 (List.mem_range.1 hi),
      List.length_range]
  have hall : (List.range p.stmtNum).all t.statusQueue = true := by
    simpa using fun i hi => (hin.status i).2 hi
  refine ⟨t, ?_, hin⟩
  have hfinish : finishLoop p (p.stmtNum + 4) (executedNum p t) 0 t = .ok t := by
    rw [hnum, finishLoop, if_pos le_rfl]
  simp only [transTest, ht, hfinish, bind, Except.bind, hall, Bool.not_true, Bool.false_eq_true,
    reduceIte, hin.realStmt, List.length_map, List.length_range, ne_eq, not_true_eq_false]
  rfl

end Replay

/-! The rounds of `block_scheduling`. -/

namespace RoundTest

variable {Val : Type}

/-- The texts of the queue are those of its statements. -/
def Printed (env : RoundEnv Val) (t : RoundTest Val) : Prop :=
  ∀ i < t.planned.plan.stmtNum, t.planned.stmt i = env.print (t.objects i)

/-- The number of statements that are no placeholders. -/
def work (t : RoundTest Val) : ℕ :=
  (List.range t.planned.plan.stmtNum).countP fun i => t.planned.stmt i != spaceHolderStmt

/-- The queue of a round after one that failed. -/
def again (env : RoundEnv Val) (t : RoundTest Val) : RoundTest Val :=
  (t.setStmtQueue env t.realQueue).clearExecutionStatus

/-- The tests that `block_scheduling` runs. -/
inductive Scheduled (env : RoundEnv Val) (t : RoundTest Val) : RoundTest Val → Prop
  | start : Scheduled env t t
  | again {t1 t2 : RoundTest Val} (h : Scheduled env t t1) (hrun : t1.transTest env = .ok t2)
      (hfailing : t2.noFailing = false) : Scheduled env t (t2.again env)

/-- The server answers each of these runs, and a run of the test that is returned. -/
structure Serves (env : RoundEnv Val) (D : TxnServer) (t : RoundTest Val) : Prop where
  scheduled : ∀ x, Scheduled env t x → x.planned.plan.ServedBy D x.planned.test
  returned : ∀ x x2, Scheduled env t x → x.transTest env = .ok x2 → x2.noFailing = true →
    x2.planned.plan.ServedBy D x2.clearExecutionStatus.planned.test

variable {env : RoundEnv Val} {D : TxnServer} {t t' t2 : RoundTest Val}

theorem transTest_run (h : t.transTest env = .ok t2) :
    DbFuzz.transTest t.planned.plan t.planned.test = .ok t2.planned.test ∧
      t2.planned.plan = t.planned.plan ∧ t2.planned.transNum = t.planned.transNum ∧
      ∀ i, t2.objects i = if t2.planned.stmt i = t.planned.stmt i then t.objects i
        else .txnString (t2.planned.stmt i) := by
  obtain ⟨s, hs, h⟩ := bind_eq_ok_iff.1 h
  cases h
  refine ⟨hs, rfl, rfl, fun i => if_congr ⟨fun hsame => hsame.1, fun hsame => ⟨hsame, ?_⟩⟩ rfl rfl⟩
  show (t.planned.isTxnString i || s.stmtQueue i != t.planned.stmt i) = t.planned.isTxnString i
  rw [bne_eq_false_iff_eq.2 (show s.stmtQueue i = t.planned.stmt i from hsame), Bool.or_false]

theorem Printed.transTest (hp : t.Printed env) (h : t.transTest env = .ok t2) : t2.Printed env := by
  obtain ⟨-, hplan, -, hobjects⟩ := transTest_run h
  intro i hi
  rw [hplan] at hi
  rw [hobjects]
  split_ifs with hsame
  · rw [hsame, hp i hi]
  · rfl

theorem printed_again (env : RoundEnv Val) (t : RoundTest Val) : (t.again env).Printed env :=
  fun _ _ => rfl

/-- The texts of the next round are those of the real queue. -/
theorem print_realQueue (hp : t.Printed env) :
    t.realQueue.map (fun e => (e.tid, env.print e.stmt)) =
      (List.range t.planned.test.realTidQueue.length).map fun r =>
        ((t.planned.test.realTidQueue.getD r 0 : ℤ), t.planned.test.realStmtQueue.getD r "") := by
  rw [realQueue, List.map_map]
  refine List.map_congr_left fun r _ => Prod.ext rfl ?_
  dsimp only [Function.comp]
  cases hidx : t.plannedIdx r with
  | none => rfl
  | some i =>
    dsimp only
    split_ifs with hsame
    · have hi := (ofQueue_of_transfer hidx).1
      rw [List.length_map, List.length_range] at hi
      rw [← hp i hi]
      exact hsame.1
    · rfl

theorem again_entry (hp : t.Printed env) {i : ℕ} (hi : i < t.planned.test.realTidQueue.length) :
    (t.again env).planned.plan.tidQueue i = t.planned.test.realTidQueue.getD i 0 ∧
      (t.again env).planned.stmt i = t.planned.test.realStmtQueue.getD i "" := by
  have hlength : i < t.realQueue.length := by
    rw [realQueue, List.length_map, List.length_range]
    exact hi
  have hget := congrArg (fun l => l[i]?) (print_realQueue hp)
  rw [List.getElem?_map, List.getElem?_map, List.getElem?_range hi, List.getElem?_eq_getElem hlength,
    Option.map_some, Option.map_some, Option.some.injEq, Prod.mk.injEq] at hget
  have hentry : t.realQueue.getD i ⟨.txnString "", 0, .mk' .initType false⟩ = t.realQueue[i] :=
    List.getD_eq_getElem _ _ hlength
  refine ⟨?_, ?_⟩
  · show (t.realQueue.getD i ⟨.txnString "", 0, .mk' .initType false⟩).tid.toNat = _
    rw [hentry, hget.1, Int.toNat_natCast]
  · show env.print (t.realQueue.getD i ⟨.txnString "", 0, .mk' .initType false⟩).stmt = _
    rw [hentry, hget.2]

theorem stmtNum_again (env : RoundEnv Val) (t : RoundTest Val) :
    (t.again env).planned.plan.stmtNum = t.planned.test.realTidQueue.length := by
  show t.realQueue.length = _
  rw [realQueue, List.length_map, List.length_range]

theorem queueOf_again (hp : t.Printed env)
    (hlength : t.planned.test.realTidQueue.length = t.planned.test.realStmtQueue.length) :
    (t.again env).planned.plan.queueOf (t.again env).planned.stmt =
      t.planned.test.realTidQueue.zip t.planned.test.realStmtQueue := by
  have hentries : (t.again env).planned.plan.queueOf (t.again env).planned.stmt =
      (List.range t.planned.test.realTidQueue.length).map fun i =>
        (t.planned.test.realTidQueue.getD i 0, t.planned.test.realStmtQueue.getD i "") := by
    rw [TestPlan.queueOf, stmtNum_again]
    refine List.map_congr_left fun i hi => ?_
    obtain ⟨htid, hstmt⟩ := again_entry hp (List.mem_range.1 hi)
    rw [htid, hstmt]
  conv_rhs => rw [← map_getD_range t.planned.test.realTidQueue 0,
    ← map_getD_range t.planned.test.realStmtQueue "", ← hlength, List.zip_map']
  exact hentries

theorem work_again (hp : t.Printed env)
    (hlength : t.planned.test.realTidQueue.length = t.planned.test.realStmtQueue.length) :
    (t.again env).work = t.planned.test.realStmtQueue.countP (· != spaceHolderStmt) := by
  conv_rhs => rw [← map_getD_range t.planned.test.realStmtQueue "", List.countP_map, ← hlength]
  rw [work, stmtNum_again]
  refine List.countP_congr fun i hi => ?_
  rw [(again_entry hp (List.mem_range.1 hi)).2]
  rfl

/-- A round of `block_scheduling` that returns from `trans_test`. -/
theorem scheduling_round (hp : t.Printed env) (hclear : t.planned.test.Cleared)
    (hD : D.Lenient t.planned.plan.commitStmt) (hserved : t.planned.plan.ServedBy D t.planned.test)
    (h : t.transTest env = .ok t2) :
    t2.planned.test.realTidQueue.length = t2.planned.test.realStmtQueue.length ∧
      if t2.noFailing = true then
        t2.planned.stmt = t.planned.stmt ∧ D.Runs (t.planned.plan.queueOf t.planned.stmt)
      else (t2.again env).work < t.work ∨
        D.Runs ((t2.again env).planned.plan.queueOf (t2.again env).planned.stmt) := by
  obtain ⟨hrun, hplan, -, hobjects⟩ := transTest_run h
  have hp2 := hp.transTest h
  obtain ⟨order, res, hrec⟩ := transTest_record hclear hrun
  obtain ⟨log, hcalls, hfollows, hlog⟩ := hserved.logged hD hclear hrun
  have hqueue : t2.planned.stmt = t.planned.stmt := hlog.queue
  refine ⟨hlog.lengths, ?_⟩
  by_cases hsome : ∃ i < t.planned.plan.stmtNum, (res i).skipped = true
  · obtain ⟨i, hi, hskipped⟩ := hsome
    have hnot : t2.noFailing ≠ true := by
      intro hnone
      rw [noFailing, Bool.and_eq_true, List.all_eq_true] at hnone
      have := hnone.2 i (by rw [hplan]; exact List.mem_range.2 hi)
      rw [hplan, hrec.settled i hi] at this
      simp [hskipped] at this
    rw [if_neg hnot]
    left
    -- a skipped statement was no placeholder and is one now
    have hold := hlog.skipped hD hcalls hfollows (transTest_status hrun i hi) (hrec.settled i hi)
      hskipped
    have hreal : t2.planned.test.realStmtQueue.countP (· != spaceHolderStmt) =
        (List.range t.planned.plan.stmtNum).countP fun i =>
          (res i).stmt (t.planned.stmt i) != spaceHolderStmt := by
      rw [hrec.realStmt, List.countP_map, hrec.perm.countP_eq, ← hqueue]
      rfl
    rw [work_again hp2 hlog.lengths, hreal, work]
    refine countP_lt_of_imp (fun j _ hj => ?_) (List.mem_range.2 hi) (bne_iff_ne.2 hold) ?_
    · unfold Settled.stmt at hj
      split_ifs at hj
      · exact absurd hj (by decide)
      · exact hj
    · rw [Settled.stmt, if_pos hskipped]
      decide
  · have hun : t.planned.plan.Unskipped t2.planned.test := by
      intro i hi _ r hr
      rw [hrec.settled i hi, Option.some.injEq] at hr
      rw [Bool.eq_false_iff, ← hr]
      exact fun hskip => hsome ⟨i, hi, hskip⟩
    have hruns : D.Runs (t2.planned.test.realTidQueue.zip t2.planned.test.realStmtQueue) := by
      rw [hlog.history hun]
      exact hfollows.runs
    split_ifs with hnone
    · refine ⟨hqueue, ?_⟩
      rw [noFailing, Bool.and_eq_true, beq_iff_eq, hplan] at hnone
      have horder := hrec.order_eq hnone.1
      have hstmt : t2.planned.test.realStmtQueue =
          (List.range t.planned.plan.stmtNum).map t.planned.stmt := by
        rw [hrec.realStmt, horder]
        refine List.map_congr_left fun i hi => ?_
        have hskip : (res i).skipped = false := by
          rw [Bool.eq_false_iff]
          exact fun hskip => hsome ⟨i, List.mem_range.1 hi, hskip⟩
        rw [Settled.stmt, hskip, ← hqueue]
        rfl
      rw [hnone.1, hstmt, List.zip_map'] at hruns
      exact hruns
    · right
      rw [queueOf_again hp2 hlog.lengths]
      exact hruns

/-- A queue that the server executes in its order is left as it is. -/
theorem transTest_replays (hclear : t.planned.test.Cleared)
    (hD : D.Lenient t.planned.plan.commitStmt)
    (hruns : D.Runs (t.planned.plan.queueOf t.planned.stmt))
    (hserved : t.planned.plan.ServedBy D t.planned.test) :
    ∃ t2, t.transTest env = .ok t2 ∧
      InOrder t.planned.plan t.planned.test t.planned.plan.stmtNum t2.planned.test ∧
      t2.noFailing = true ∧ t2.stmtQueue = t.stmtQueue ∧ t2.realQueue = t.stmtQueue := by
  obtain ⟨s, hrun, hin⟩ := transTest_inOrder hclear hD hruns hserved
  obtain ⟨t2, ht2⟩ : ∃ t2, t.transTest env = .ok t2 := by
    unfold transTest
    rw [hrun]
    exact ⟨_, rfl⟩
  obtain ⟨hrun2, hplan, -, hobjects⟩ := transTest_run ht2
  obtain rfl := Except.ok.inj (hrun.symm.trans hrun2)
  have hqueue : t2.planned.stmt = t.planned.stmt := hin.queue
  have hsame : ∀ i, t2.objects i = t.objects i := fun i => by rw [hobjects, hqueue, if_pos rfl]
  have hnone : ∀ i < t.planned.plan.stmtNum,
      (t2.planned.test.settled t.planned.plan i).any (·.skipped) = false := by
    intro i hi
    cases hr : t2.planned.test.settled t.planned.plan i with
    | none => rfl
    | some r => exact hin.unskipped i hi r hr
  refine ⟨t2, ht2, hin, ?_, ?_, ?_⟩
  · rw [noFailing, hplan, hin.realTid, beq_self_eq_true, Bool.true_and, List.all_eq_true]
    intro i hi
    rw [hnone i (List.mem_range.1 hi)]
    rfl
  · rw [stmtQueue, stmtQueue, hplan]
    exact List.map_congr_left fun i _ => by rw [hsame]
  · rw [realQueue, stmtQueue, hin.realTid, List.length_map, List.length_range]
    refine List.map_congr_left fun r hr => ?_
    have hlt := List.mem_range.1 hr
    have hidx : t2.plannedIdx r = some r := by
      rw [plannedIdx, hplan, hin.realTid]
      exact transfer2StmtIdx_ofQueue (by simpa using hlt)
    have hget : ∀ {α : Type} (f : ℕ → α) (d : α),
        ((List.range t.planned.plan.stmtNum).map f).getD r d = f r := by
      intro α f d
      rw [List.getD_eq_getElem _ _ (by simpa using hlt), List.getElem_map, List.getElem_range]
    rw [hidx, hin.realStmt, hin.realUsage, hget, hget, hget]
    dsimp only
    rw [hqueue, hsame]
    exact congrArg (Emitted.mk · _ _) (if_pos ⟨rfl, by rw [hplan]; exact hnone r hlt⟩)

theorem Scheduled.after {x : RoundTest Val} (hrun : t.transTest env = .ok t2)
    (hfailing : t2.noFailing = false) (h : Scheduled env (t2.again env) x) : Scheduled env t x := by
  induction h with
  | start => exact .again .start hrun hfailing
  | again _ hrun' hfailing' ih => exact .again ih hrun' hfailing'

theorem Serves.after (h : t.Serves env D) (hrun : t.transTest env = .ok t2)
    (hfailing : t2.noFailing = false) : (t2.again env).Serves env D where
  scheduled x hx := h.scheduled x (hx.after hrun hfailing)
  returned x x2 hx := h.returned x x2 (hx.after hrun hfailing)

theorem commitStmt_again (h : t.transTest env = .ok t2) :
    (t2.again env).planned.plan.commitStmt = t.planned.plan.commitStmt := by
  obtain ⟨-, hplan, -⟩ := transTest_run h
  rw [← hplan]
  rfl

/-- Each round skips a statement or is followed by the last one. -/
theorem blockScheduling_ne_outOfFuel (work : ℕ) : ∀ (t : RoundTest Val) (fuel : ℕ),
    t.Printed env → t.planned.test.Cleared → D.Lenient t.planned.plan.commitStmt →
    t.Serves env D → t.work ≤ work → work + 2 ≤ fuel →
    t.blockScheduling env fuel ≠ .error .outOfFuel := by
  induction work using Nat.strong_induction_on with
  | _ work ih =>
    intro t fuel hp hclear hD hserved hwork hfuel
    obtain ⟨fuel, rfl⟩ : ∃ m, fuel = m + 2 := ⟨fuel - 2, by omega⟩
    rw [blockScheduling]
    refine bind_ne_error ?_ fun t2 ht2 => ?_
    · refine bind_ne_error (transTest_ne_outOfFuel hclear) fun s _ => ?_
      simp [pure, Except.pure]
    split
    · simp [pure, Except.pure]
    rename_i hfailing
    have hround := (scheduling_round hp hclear hD (hserved.scheduled t .start) ht2).2
    rw [if_neg hfailing] at hround
    rw [Bool.not_eq_true] at hfailing
    have hnext := hserved.after ht2 hfailing
    have hD2 : D.Lenient (t2.again env).planned.plan.commitStmt := by
      rw [commitStmt_again ht2]
      exact hD
    rcases hround with hless | hruns
    · exact ih _ (lt_of_lt_of_le hless hwork) _ _ (printed_again env t2)
        (cleared_clearExecutionStatus _) hD2 hnext le_rfl (by omega)
    · obtain ⟨t3, ht3, -, hnone, -⟩ := transTest_replays (t := t2.again env)
        (cleared_clearExecutionStatus _) hD2 hruns (hnext.scheduled _ .start)
      change (t2.again env).blockScheduling env (fuel + 1) ≠ _
      rw [blockScheduling, ht3]
      simp only [bind, Except.bind, hnone, reduceIte]
      simp [pure, Except.pure]

/-- The round in which `block_scheduling` returns. -/
theorem blockScheduling_returns (fuel : ℕ) : ∀ t : RoundTest Val, t.Printed env →
    t.planned.test.Cleared → t.blockScheduling env fuel = .ok t' → ∃ t1 t2, Scheduled env t t1 ∧
      t1.Printed env ∧ t1.planned.test.Cleared ∧
      t1.planned.plan.commitStmt = t.planned.plan.commitStmt ∧ t1.transTest env = .ok t2 ∧
      t2.noFailing = true ∧ t' = t2.clearExecutionStatus := by
  induction fuel with
  | zero => intro t _ _ h; cases h
  | succ fuel ih =>
    intro t hp hclear h
    obtain ⟨t2, ht2, h⟩ := bind_eq_ok_iff.1 h
    split at h
    · cases h
      exact ⟨t, t2, .start, hp, hclear, rfl, ht2, ‹_›, rfl⟩
    · rename_i hfailing
      rw [Bool.not_eq_true] at hfailing
      obtain ⟨t1, t3, hsched, hp1, hclear1, hcommit, hlast⟩ :=
        ih (t2.again env) (printed_again env t2) (cleared_clearExecutionStatus _) h
      exact ⟨t1, t3, hsched.after ht2 hfailing, hp1, hclear1,
        hcommit.trans (commitStmt_again ht2), hlast⟩

/-- Against a server whose answers depend on what it has executed, `block_scheduling` ends
within a round for each statement that is no placeholder and two more, and the server
executes the queue it leaves statement by statement, with nothing moved or replaced. -/
theorem blockScheduling_settles (env : RoundEnv Val) (D : TxnServer) (t0 : RoundTest Val)
    (queue : List (Emitted Val)) (hD : D.Lenient t0.planned.plan.commitStmt)
    (hserved : (t0.setStmtQueue env queue).clearExecutionStatus.Serves env D) :
    let t := (t0.setStmtQueue env queue).clearExecutionStatus
    (∀ fuel, t.work + 2 ≤ fuel → t.blockScheduling env fuel ≠ .error .outOfFuel) ∧
    ∀ fuel t', t.blockScheduling env fuel = .ok t' → ∃ t2, t'.transTest env = .ok t2 ∧
      InOrder t'.planned.plan t'.planned.test t'.planned.plan.stmtNum t2.planned.test ∧
      t2.noFailing = true ∧ t2.stmtQueue = t'.stmtQueue ∧ t2.realQueue = t'.stmtQueue := by
  intro t
  have hp : t.Printed env := fun _ _ => rfl
  have hclear : t.planned.test.Cleared := cleared_clearExecutionStatus _
  refine ⟨fun fuel hfuel => blockScheduling_ne_outOfFuel t.work t fuel hp hclear hD hserved le_rfl
    hfuel, fun fuel t' h => ?_⟩
  obtain ⟨t1, t2, hsched, hp1, hclear1, hcommit, hrun, hnone, rfl⟩ :=
    blockScheduling_returns fuel t hp hclear h
  have hD1 : D.Lenient t1.planned.plan.commitStmt := by
    rw [hcommit]
    exact hD
  have hround := (scheduling_round hp1 hclear1 hD1 (hserved.scheduled t1 hsched) hrun).2
  rw [if_pos hnone] at hround
  obtain ⟨hqueue, hruns⟩ := hround
  have hplan := (transTest_run hrun).2.1
  refine transTest_replays (cleared_clearExecutionStatus t2) ?_ ?_
    (hserved.returned t1 t2 hsched hrun hnone)
  · show D.Lenient t2.planned.plan.commitStmt
    rw [hplan]
    exact hD1
  · show D.Runs (t2.planned.plan.queueOf t2.planned.stmt)
    rw [hplan, hqueue]
    exact hruns

/-! The hypothesis on the server can be computed. -/

theorem Scheduled.first {x : RoundTest Val} (h : Scheduled env t x) :
    x = t ∨ ∃ t2, t.transTest env = .ok t2 ∧ t2.noFailing = false ∧ Scheduled env (t2.again env) x := by
  induction h with
  | start => exact Or.inl rfl
  | again _ hrun hfailing ih =>
    right
    rcases ih with rfl | ⟨t2, hrun', hfailing', hx⟩
    · exact ⟨_, hrun, hfailing, .start⟩
    · exact ⟨t2, hrun', hfailing', .again hx hrun hfailing⟩

end RoundTest

def TestPlan.follows (p : TestPlan) (D : TxnServer) (log : List Call) : Bool :=
  (List.range log.length).all fun i => (log[i]?).all fun c =>
    decide (c.result = D (p.history (log.take i)) (p.tidQueue c.pos) c.text)

theorem follows_spec {p : TestPlan} {D : TxnServer} {log : List Call} (h : p.follows D log = true) :
    p.Follows D log := by
  rintro before c after rfl
  have hc := List.all_eq_true.1 h before.length (by simp)
  simpa using hc

def TestPlan.served (p : TestPlan) (D : TxnServer) (s : TransTest) : Bool :=
  ((List.range p.stmtNum).all fun k =>
    (forRange k (mainRound p) { s with statusQueue := fun _ => false }).toOption.all fun t =>
      (t.transArr (p.tidQueue k)).isBlocked || decide (p.dbms t.calls.length =
        D (p.history (t.calls.drop s.calls.length)) (p.tidQueue k) (t.stmtQueue k))) &&
  (transTest p s).toOption.all fun s' => p.follows D (s'.calls.drop s.calls.length)

theorem served_spec {p : TestPlan} {D : TxnServer} {s : TransTest} (h : p.served D s = true) :
    p.ServedBy D s := by
  rw [TestPlan.served, Bool.and_eq_true, List.all_eq_true] at h
  refine ⟨fun k hk t ht hblocked => ?_, fun s' hs' => follows_spec ?_⟩
  · have := h.1 k (List.mem_range.2 hk)
    simpa [ht, Except.toOption, hblocked] using this
  · simpa [hs', Except.toOption] using h.2

namespace RoundTest

variable {Val : Type} {env : RoundEnv Val} {D : TxnServer}

def servesRounds (env : RoundEnv Val) (D : TxnServer) : ℕ → RoundTest Val → Bool
  | 0, _ => false
  | fuel + 1, t => t.planned.plan.served D t.planned.test &&
    (t.transTest env).toOption.all fun t2 =>
      if t2.noFailing then t2.planned.plan.served D t2.clearExecutionStatus.planned.test
      else servesRounds env D fuel (t2.again env)

theorem servesRounds_spec (fuel : ℕ) : ∀ t : RoundTest Val, servesRounds env D fuel t = true →
    t.Serves env D := by
  induction fuel with
  | zero => intro t h; cases h
  | succ fuel ih =>
    intro t h
    rw [servesRounds, Bool.and_eq_true] at h
    have hnext : ∀ t2, t.transTest env = .ok t2 → t2.noFailing = false →
        (t2.again env).Serves env D := by
      intro t2 ht2 hfailing
      have := h.2
      simp only [ht2, Except.toOption, Option.all_some, hfailing, Bool.false_eq_true, reduceIte]
        at this
      exact ih _ this
    refine ⟨fun x hx => ?_, fun x x2 hx hrun hnone => ?_⟩
    · rcases hx.first with rfl | ⟨t2, ht2, hfailing, hx⟩
      · exact served_spec h.1
      · exact (hnext t2 ht2 hfailing).scheduled x hx
    · rcases hx.first with rfl | ⟨t2, ht2, hfailing, hx⟩
      · have := h.2
        simp only [hrun, Except.toOption, Option.all_some, hnone, reduceIte] at this
        exact served_spec this
      · exact (hnext t2 ht2 hfailing).returned x x2 hx hrun hnone

/-- Transaction 0 blocks the update of transaction 1 until its commit, and the insert is
always skipped. -/
def sampleServer : TxnServer := fun hist _ text =>
  if text = "insert" then .error "skipped"
  else if text = "update" ∧ (0, "COMMIT") ∉ hist then .error "blocked"
  else .ok []

/-- The update moves behind the commit and the insert becomes a placeholder. -/
theorem blockScheduling_settles_blocked :
    let t0 := generatedTest 2 [] [.ok [], .error "blocked", .ok [], .ok [], .error "skipped"]
    let env := emptyDatabase []
    let t := (t0.setStmtQueue env [⟨.txnString "BEGIN", 0, .mk' .initType false⟩,
      ⟨.other "update", 1, .mk' .initType false⟩, ⟨.txnString "COMMIT", 0, .mk' .initType false⟩,
      ⟨.other "insert", 1, .mk' .initType false⟩]).clearExecutionStatus
    (∀ fuel, t.work + 2 ≤ fuel → t.blockScheduling env fuel ≠ .error .outOfFuel) ∧
    ∀ fuel t', t.blockScheduling env fuel = .ok t' → ∃ t2, t'.transTest env = .ok t2 ∧
      InOrder t'.planned.plan t'.planned.test t'.planned.plan.stmtNum t2.planned.test ∧
      t2.noFailing = true ∧ t2.stmtQueue = t'.stmtQueue ∧ t2.realQueue = t'.stmtQueue := by
  intro t0 env
  refine blockScheduling_settles env sampleServer t0 _ ⟨fun hist tid => ?_, fun hist tid text _ => ?_⟩
    (servesRounds_spec 3 _ (by decide +kernel))
  · rw [sampleServer, if_neg (by decide +kernel), if_neg (fun h => by
      have := h.1
      revert this
      decide +kernel)]
    rfl
  · unfold sampleServer
    split_ifs <;> decide +kernel

end RoundTest

end DbFuzz
