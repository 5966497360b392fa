import DbFuzz.TxCheck.ExecRun
import DbFuzz.TxCheck.RoundTest

/-! Runs of `trans_test` in which the server only executes and skips: the statements are settled
in the order of the queue, and the state after the run has a closed form. -/

namespace DbFuzz

open Loop

/-- The answer settles its statement at once. -/
def TestResult.settles : TestResult → Bool
  | .ok _ => true
  | .error err => !(containsText err "ost connection" || containsText err "BUG") &&
      !containsText err "blocked" && containsText err "skipped"

def TestResult.isOk : TestResult → Bool
  | .ok _ => true
  | .error _ => false

def TestResult.output : TestResult → StmtOutput
  | .ok output => output
  | .error _ => []

/-- The answer to a statement of a run in the order of the queue. -/
def TestPlan.answer (p : TestPlan) (s : TransTest) (i : ℕ) : TestResult :=
  p.dbms (s.calls.length + i)

/-- The state after the first `k` statements of such a run. -/
def plainRun (p : TestPlan) (s : TransTest) (k : ℕ) : TransTest where
  stmtQueue := s.stmtQueue
  transArr tid :=
    { s.transArr tid with
      isBlocked := false
      stmtOutputs := (p.ofTxn tid (List.range k)).map fun i => (p.answer s i).output
      stmtErrInfo := (p.ofTxn tid (List.range k)).map fun _ => "" }
  statusQueue i := decide (i < k)
  realTidQueue := (List.range k).map p.tidQueue
  realStmtQueue := (List.range k).map fun i =>
    if (p.answer s i).isOk then s.stmtQueue i else spaceHolderStmt
  realOutputQueue := (List.range k).map fun i => (p.answer s i).output
  realStmtUsage := (List.range k).map fun i =>
    if (p.answer s i).isOk then p.stmtUse i else .mk' .initType (p.stmtUse i).isInstrumented
  calls := s.calls ++ (List.range k).map fun i => ⟨i, s.stmtQueue i, true, p.answer s i⟩

variable {p : TestPlan} {s : TransTest} {k : ℕ}

theorem retryBlockStmt_done {cur : ℕ} (h : ∀ j < cur, s.statusQueue j = true) :
    retryBlockStmt p cur s = .ok s := by
  rw [retryBlockStmt_eq, retryPass]
  obtain ⟨st, hfirst, rfl⟩ := forRange_ok (n := cur) (f := retryFirst p) (s := (([] : List ℕ), s))
    (fun _ st => st = ([], s)) rfl fun i hi st hst => ⟨st, by simp [hst, retryFirst, h i hi], hst⟩
  obtain ⟨s', hnext, rfl⟩ := forRange_ok (n := cur) (f := retryNext p (retryBlockStmt p)) (s := s)
    (fun _ t => t = s) rfl fun i hi t ht => ⟨t, by simp [ht, retryNext, h i hi], ht⟩
  rw [hfirst]
  exact hnext

theorem transTestUnit_settles {pos : ℕ} (h : (p.dbms s.calls.length).settles = true) :
    transTestUnit p pos s = .ok
      (if (p.dbms s.calls.length).isOk then .executed else .skipped,
        (p.dbms s.calls.length).output,
        (s.test p pos (s.stmtQueue pos) true).2.record (p.tidQueue pos)
          (p.dbms s.calls.length).output "") := by
  unfold transTestUnit TransTest.test
  generalize p.dbms s.calls.length = answer at h
  cases answer with
  | ok output => rfl
  | error err =>
    simp only [TestResult.settles, Bool.and_eq_true, Bool.not_eq_true'] at h
    obtain ⟨⟨hlost, hblocked⟩, hskipped⟩ := h
    simp [hlost, hblocked, hskipped, TestResult.isOk, TestResult.output]

attribute [ext] TransTest

theorem ofTxn_range_succ (p : TestPlan) (tid k : ℕ) :
    p.ofTxn tid (List.range (k + 1)) =
      if p.tidQueue k = tid then p.ofTxn tid (List.range k) ++ [k] else p.ofTxn tid (List.range k) := by
  rw [TestPlan.ofTxn, List.range_succ, List.filter_append, TestPlan.ofTxn]
  split_ifs with h <;> simp [h]

/-- The pushes of the next statement. -/
theorem plainRun_push (p : TestPlan) (s : TransTest) (k : ℕ) :
    ((((plainRun p s k).test p k (s.stmtQueue k) true).2.record (p.tidQueue k)
        (p.answer s k).output "").push p k (if (p.answer s k).isOk then .executed else .skipped)
          (p.answer s k).output).setBlocked (p.tidQueue k) false = plainRun p s (k + 1) := by
  have hcalls : ((plainRun p s k).test p k (s.stmtQueue k) true).2.calls =
      (plainRun p s (k + 1)).calls := by
    simp [plainRun, TransTest.test, TestPlan.answer, List.range_succ]
  have htxn : ∀ (t : TransTest), t.transArr = (plainRun p s k).transArr →
      ((t.record (p.tidQueue k) (p.answer s k).output "").setBlocked (p.tidQueue k) false).transArr =
        (plainRun p s (k + 1)).transArr := by
    intro t ht
    funext tid
    by_cases htid : tid = p.tidQueue k
    · subst htid
      simp [TransTest.record, TransTest.setBlocked, TransTest.modifyTxn, ht, plainRun,
        ofTxn_range_succ, List.replicate_succ']
    · simp [TransTest.record, TransTest.setBlocked, TransTest.modifyTxn, ht, plainRun,
        ofTxn_range_succ, htid, Ne.symm htid]
  have hstatus : Function.update (plainRun p s k).statusQueue k true =
      (plainRun p s (k + 1)).statusQueue := by
    funext i
    by_cases hi : i = k
    · simp [hi, plainRun]
    · have hlt : i < k ↔ i < k + 1 := by omega
      simp [hi, plainRun, hlt]
  cases hok : (p.answer s k).isOk with
  | true =>
    refine TransTest.ext rfl (htxn _ rfl) hstatus ?_ ?_ ?_ ?_ hcalls
    all_goals simp [TransTest.push, TransTest.pushExecuted, TransTest.setBlocked,
      TransTest.modifyTxn, TransTest.record, TransTest.test, plainRun, List.range_succ, hok]
  | false =>
    refine TransTest.ext rfl (htxn _ rfl) hstatus ?_ ?_ ?_ ?_ hcalls
    all_goals simp [TransTest.push, TransTest.pushSkipped, TransTest.setBlocked,
      TransTest.modifyTxn, TransTest.record, TransTest.test, plainRun, List.range_succ, hok]

theorem mainRound_plain (h : (p.answer s k).settles = true) :
    mainRound p k (plainRun p s k) = .ok (plainRun p s (k + 1)) := by
  have hanswer : p.dbms (plainRun p s k).calls.length = p.answer s k := by
    simp [plainRun, TestPlan.answer]
  have hqueue : (plainRun p s k).stmtQueue = s.stmtQueue := rfl
  have hdone : ∀ j < k, (plainRun p s (k + 1)).statusQueue j = true := fun j hj =>
    decide_eq_true (by omega)
  have hexecuted : (if (p.answer s k).isOk = true then Executed.executed else .skipped) ≠ .blocked := by
    split_ifs <;> simp
  rw [mainRound_eq p k _ rfl, transTestUnit_settles (by rw [hanswer]; exact h), hanswer, hqueue]
  simp only [bind, Except.bind, hexecuted, decide_false, plainRun_push, retryBlockStmt_done hdone]
  split_ifs <;> rfl

/-- Such a run settles the statements in the order of the queue. -/
theorem transTest_plain (hclear : s.Cleared) (h : ∀ k < p.stmtNum, (p.answer s k).settles = true) :
    transTest p s = .ok (plainRun p s p.stmtNum) := by
  have hstart : ({ s with statusQueue := fun _ => false } : TransTest) = plainRun p s 0 := by
    obtain ⟨hreal1, hreal2, hreal3, hreal4⟩ := hclear.real
    refine TransTest.ext rfl (funext fun tid => ?_) (funext fun i => by simp [plainRun]) hreal1 hreal2
      hreal3 hreal4 (by simp [plainRun])
    have hunblocked := hclear.unblocked tid
    have houtputs := hclear.outputs tid
    have herrs := hclear.errs tid
    simp only [plainRun, List.range_zero, TestPlan.ofTxn, List.filter_nil, List.map_nil]
    rw [← hunblocked, ← houtputs, ← herrs]
  have hmain : ∀ k ≤ p.stmtNum, forRange k (mainRound p) (plainRun p s 0) = .ok (plainRun p s k) := by
    intro k
    induction k with
    | zero => exact fun _ => rfl
    | succ k ih =>
      intro hk
      exact bind_eq_ok_iff.2 ⟨_, ih (by omega), mainRound_plain (h k hk)⟩
  have hdone : ∀ i ∈ List.range p.stmtNum, (plainRun p s p.stmtNum).statusQueue i = true :=
    fun i hi => decide_eq_true (List.mem_range.1 hi)
  have hnum : executedNum p (plainRun p s p.stmtNum) = p.stmtNum := by
    rw [executedNum, List.countP_eq_length.2 hdone, List.length_range]
  have hall : (List.range p.stmtNum).all (plainRun p s p.stmtNum).statusQueue = true :=
    List.all_eq_true.2 hdone
  have hfinish : finishLoop p (p.stmtNum + 4) p.stmtNum 0 (plainRun p s p.stmtNum) =
      .ok (plainRun p s p.stmtNum) := by
    rw [finishLoop, if_pos le_rfl]
  have hlength : (plainRun p s p.stmtNum).realStmtQueue.length = p.stmtNum := by simp [plainRun]
  simp only [transTest, hstart, hmain _ le_rfl, hnum, hfinish, bind, Except.bind, hall,
    Bool.not_true, Bool.false_eq_true, reduceIte, hlength, ne_eq, not_true_eq_false]
  rfl

namespace RoundTest

variable {Val : Type} {env : RoundEnv Val} {t : RoundTest Val} {fuel : ℕ}

theorem cleared_clearExecutionStatus (t : RoundTest Val) :
    t.clearExecutionStatus.planned.test.Cleared :=
  ⟨fun _ => rfl, fun _ => rfl, fun _ => rfl, rfl, rfl, rfl, rfl⟩

/-- Every statement of the queue is settled at once. -/
def allSettle (t : RoundTest Val) : Bool :=
  (List.range t.planned.plan.stmtNum).all fun i =>
    (t.planned.plan.answer t.planned.test i).settles

/-- The test after such a run. -/
def plainTest (env : RoundEnv Val) (t : RoundTest Val) : RoundTest Val :=
  { t with
    planned :=
      { t.planned with
        test := plainRun t.planned.plan t.planned.test t.planned.plan.stmtNum }
    initDbContent := env.contents t.contentCalls
    transDbContent := env.contents (t.contentCalls + 1)
    contentCalls := t.contentCalls + 2 }

theorem transTest_plainTest (hclear : t.planned.test.Cleared) (h : t.allSettle = true) :
    t.transTest env = .ok (t.plainTest env) := by
  have hrun := transTest_plain hclear fun k hk => List.all_eq_true.1 h k (List.mem_range.2 hk)
  have hflags : (fun i => t.planned.isTxnString i ||
      (plainRun t.planned.plan t.planned.test t.planned.plan.stmtNum).stmtQueue i !=
        t.planned.stmt i) = t.planned.isTxnString := by
    funext i
    have hsame : ((plainRun t.planned.plan t.planned.test t.planned.plan.stmtNum).stmtQueue i !=
        t.planned.stmt i) = false := bne_self_eq_false _
    rw [hsame, Bool.or_false]
  have hobjects : (t.withPlanned { t.planned with
      test := plainRun t.planned.plan t.planned.test t.planned.plan.stmtNum }).objects = t.objects :=
    funext fun i => if_pos ⟨rfl, rfl⟩
  have hwith : t.withPlanned { t.planned with
      test := plainRun t.planned.plan t.planned.test t.planned.plan.stmtNum } =
    { t with planned := { t.planned with
      test := plainRun t.planned.plan t.planned.test t.planned.plan.stmtNum } } :=
    congrArg (fun objects => { t with
      objects := objects
      planned := { t.planned with
        test := plainRun t.planned.plan t.planned.test t.planned.plan.stmtNum } }) hobjects
  unfold transTest
  rw [hrun]
  simp only [bind, Except.bind, hflags, hwith]
  rfl

/-- A round of the scheduling after which the queue changes. -/
theorem blockScheduling_again (hclear : t.planned.test.Cleared) (h : t.allSettle = true)
    (hfailing : (t.plainTest env).noFailing = false) :
    t.blockScheduling env (fuel + 1) = ((t.plainTest env).setStmtQueue env
      (t.plainTest env).realQueue).clearExecutionStatus.blockScheduling env fuel := by
  rw [blockScheduling, transTest_plainTest hclear h]
  simp only [bind, Except.bind, hfailing, Bool.false_eq_true, if_false]

/-- The last round. -/
theorem blockScheduling_done (hclear : t.planned.test.Cleared) (h : t.allSettle = true)
    (hfine : (t.plainTest env).noFailing = true) :
    t.blockScheduling env (fuel + 1) = .ok (t.plainTest env).clearExecutionStatus := by
  rw [blockScheduling, transTest_plainTest hclear h]
  simp only [bind, Except.bind, hfine, if_true]
  rfl

end RoundTest

end DbFuzz
