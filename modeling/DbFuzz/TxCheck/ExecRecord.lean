import DbFuzz.TxCheck.Exec
import Mathlib.Data.List.Nodup

/-! What a run of the planned queue leaves behind. One call of `trans_test_unit`
touches only its own statement and transaction (`UnitSpec`); the loops keep the
invariant `RunInv`, in which `order` lists the statements in the order they were
pushed and `res` says how each was settled. -/

namespace DbFuzz

open Loop

/-- How a statement left the queue. -/
structure Settled where
  skipped : Bool
  output : StmtOutput
  err : String

/-- The result a call gives its statement; `none` when the statement stays open. -/
def TestPlan.settle (p : TestPlan) (c : Call) : Option Settled :=
  match c.result with
  | .ok output => some ⟨false, if c.wantsOutput then output else [], ""⟩
  | .error err =>
    if !c.wantsOutput || containsText err "blocked" then none
    else if containsText err "skipped" then some ⟨true, [], ""⟩
    else if isControl c.text p.commitStmt then none
    else some ⟨false, [], err⟩

def TransTest.lastCall (s : TransTest) (pos : ℕ) : Option Call :=
  s.calls.reverse.find? fun c => c.pos == pos

/-- The result of the last call made for a statement. -/
def TransTest.settled (s : TransTest) (p : TestPlan) (pos : ℕ) : Option Settled :=
  (s.lastCall pos).bind p.settle

/-! One call of `trans_test_unit`. -/

/-- `s'` differs from `s` only at the statement `pos`, in the results of its
transaction and in the log. -/
structure Frame (p : TestPlan) (pos : ℕ) (s s' : TransTest) : Prop where
  status : s'.statusQueue = s.statusQueue
  realTid : s'.realTidQueue = s.realTidQueue
  realStmt : s'.realStmtQueue = s.realStmtQueue
  realOutput : s'.realOutputQueue = s.realOutputQueue
  realUsage : s'.realStmtUsage = s.realStmtUsage
  others : ∀ t ≠ p.tidQueue pos, s'.transArr t = s.transArr t
  isBlocked : ∀ t, (s'.transArr t).isBlocked = (s.transArr t).isBlocked
  queueOthers : ∀ i ≠ pos, s'.stmtQueue i = s.stmtQueue i
  queuePos : s'.stmtQueue pos = s.stmtQueue pos ∨
    isControl (s.stmtQueue pos) p.commitStmt = true ∧ s'.stmtQueue pos = p.abortStmt
  settledOthers : ∀ i ≠ pos, s'.settled p i = s.settled p i

theorem Frame.trans {p : TestPlan} {pos : ℕ} {s s' s'' : TransTest} (h : Frame p pos s s')
    (h' : Frame p pos s' s'') : Frame p pos s s'' where
  status := h'.status.trans h.status
  realTid := h'.realTid.trans h.realTid
  realStmt := h'.realStmt.trans h.realStmt
  realOutput := h'.realOutput.trans h.realOutput
  realUsage := h'.realUsage.trans h.realUsage
  others t ht := (h'.others t ht).trans (h.others t ht)
  isBlocked t := (h'.isBlocked t).trans (h.isBlocked t)
  queueOthers i hi := (h'.queueOthers i hi).trans (h.queueOthers i hi)
  queuePos := by
    rcases h.queuePos with he | ⟨hc, he⟩
    · rw [← he]; exact h'.queuePos
    · rcases h'.queuePos with he' | ⟨-, he'⟩
      · exact Or.inr ⟨hc, he'.trans he⟩
      · exact Or.inr ⟨hc, he'⟩
  settledOthers i hi := (h'.settledOthers i hi).trans (h.settledOthers i hi)

theorem frame_test (p : TestPlan) (pos : ℕ) (s : TransTest) (text : String) (w : Bool) :
    Frame p pos s (s.test p pos text w).2 := by
  refine ⟨rfl, rfl, rfl, rfl, rfl, fun _ _ => rfl, fun _ => rfl, fun _ _ => rfl, Or.inl rfl, ?_⟩
  intro i hi
  simp [TransTest.settled, TransTest.lastCall, TransTest.test, Ne.symm hi]

theorem frame_record (p : TestPlan) (pos : ℕ) (s : TransTest) (output : StmtOutput) (err : String) :
    Frame p pos s (s.record (p.tidQueue pos) output err) := by
  refine ⟨rfl, rfl, rfl, rfl, rfl, ?_, ?_, fun _ _ => rfl, Or.inl rfl, fun _ _ => rfl⟩
  · intro t ht; simp [TransTest.record, TransTest.modifyTxn, ht]
  · intro t
    by_cases ht : t = p.tidQueue pos
    · subst ht; simp [TransTest.record, TransTest.modifyTxn]
    · simp [TransTest.record, TransTest.modifyTxn, ht]

theorem frame_replaceCommit (p : TestPlan) (pos : ℕ) (s : TransTest)
    (hc : isControl (s.stmtQueue pos) p.commitStmt = true) : Frame p pos s (s.replaceCommit p pos) := by
  refine ⟨rfl, rfl, rfl, rfl, rfl, ?_, ?_, ?_, ?_, fun _ _ => rfl⟩
  · intro t ht; simp [TransTest.replaceCommit, TransTest.modifyTxn, ht]
  · intro t
    by_cases ht : t = p.tidQueue pos
    · subst ht; simp [TransTest.replaceCommit, TransTest.modifyTxn]
    · simp [TransTest.replaceCommit, TransTest.modifyTxn, ht]
  · intro i hi; simp [TransTest.replaceCommit, TransTest.modifyTxn, hi]
  · exact Or.inr ⟨hc, by simp [TransTest.replaceCommit]⟩

theorem settled_test (p : TestPlan) (pos : ℕ) (s : TransTest) (text : String) (w : Bool) :
    (s.test p pos text w).2.settled p pos = p.settle ⟨pos, text, w, (s.test p pos text w).1⟩ := by
  simp [TransTest.settled, TransTest.lastCall, TransTest.test]

/-- The results of the statement's transaction after the call. -/
inductive UnitOutcome (p : TestPlan) (pos : ℕ) (s s' : TransTest) : Executed → StmtOutput → Prop
  | blocked (output : StmtOutput)
      (houtputs : (s'.transArr (p.tidQueue pos)).stmtOutputs =
        (s.transArr (p.tidQueue pos)).stmtOutputs)
      (herrs : (s'.transArr (p.tidQueue pos)).stmtErrInfo =
        (s.transArr (p.tidQueue pos)).stmtErrInfo) : UnitOutcome p pos s s' .blocked output
  | settled (r : Settled) (hsettled : s'.settled p pos = some r)
      (houtputs : (s'.transArr (p.tidQueue pos)).stmtOutputs =
        (s.transArr (p.tidQueue pos)).stmtOutputs ++ [r.output])
      (herrs : (s'.transArr (p.tidQueue pos)).stmtErrInfo =
        (s.transArr (p.tidQueue pos)).stmtErrInfo ++ [r.err]) :
      UnitOutcome p pos s s' (if r.skipped then .skipped else .executed) r.output

structure UnitSpec (p : TestPlan) (pos : ℕ) (s : TransTest) (isExecuted : Executed)
    (output : StmtOutput) (s' : TransTest) : Prop where
  frame : Frame p pos s s'
  outcome : UnitOutcome p pos s s' isExecuted output

/-- A call followed by the two pushes of its result. -/
theorem unitSpec_record {p : TestPlan} {pos : ℕ} {s s' : TransTest} (hframe : Frame p pos s s')
    (htxn : ∀ t, (s'.transArr t).stmtOutputs = (s.transArr t).stmtOutputs ∧
      (s'.transArr t).stmtErrInfo = (s.transArr t).stmtErrInfo)
    (r : Settled) (hr : s'.settled p pos = some r) :
    UnitSpec p pos s (if r.skipped then .skipped else .executed) r.output
      (s'.record (p.tidQueue pos) r.output r.err) := by
  refine ⟨hframe.trans (frame_record p pos s' r.output r.err), ?_⟩
  refine UnitOutcome.settled r hr ?_ ?_
  · simp [TransTest.record, TransTest.modifyTxn, (htxn _).1]
  · simp [TransTest.record, TransTest.modifyTxn, (htxn _).2]

theorem transTestUnit_spec {p : TestPlan} {pos : ℕ} {s s' : TransTest} {isExecuted : Executed}
    {output : StmtOutput} (h : transTestUnit p pos s = .ok (isExecuted, output, s')) :
    UnitSpec p pos s isExecuted output s' := by
  have hframe := frame_test p pos s (s.stmtQueue pos) true
  have hsettled := settled_test p pos s (s.stmtQueue pos) true
  have htxn : ∀ t, ((s.test p pos (s.stmtQueue pos) true).2.transArr t).stmtOutputs =
      (s.transArr t).stmtOutputs ∧ ((s.test p pos (s.stmtQueue pos) true).2.transArr t).stmtErrInfo =
      (s.transArr t).stmtErrInfo := fun _ => ⟨rfl, rfl⟩
  have hqueue : (s.test p pos (s.stmtQueue pos) true).2.stmtQueue pos = s.stmtQueue pos := rfl
  simp only [transTestUnit] at h
  revert h hframe hsettled htxn hqueue
  generalize s.test p pos (s.stmtQueue pos) true = r
  obtain ⟨answer, s1⟩ := r
  intro hframe hsettled htxn hqueue h
  cases answer with
  | ok out =>
    simp only [Except.ok.injEq, Prod.mk.injEq] at h
    obtain ⟨rfl, rfl, rfl⟩ := h
    exact unitSpec_record hframe htxn ⟨false, out, ""⟩ hsettled
  | error err =>
    simp only at h hframe hsettled htxn hqueue
    by_cases hlost : (containsText err "ost connection" || containsText err "BUG") = true
    · simp [hlost] at h
    by_cases hblocked : containsText err "blocked" = true
    · simp only [hlost, hblocked, reduceIte] at h
      cases h
      exact ⟨hframe, .blocked _ (htxn _).1 (htxn _).2⟩
    by_cases hskipped : containsText err "skipped" = true
    · simp only [hlost, hblocked, hskipped, reduceIte] at h
      cases h
      exact unitSpec_record hframe htxn ⟨true, [], ""⟩
        (by simp [hsettled, TestPlan.settle, hblocked, hskipped])
    by_cases hchanged : containsText err "sent sql stmt changed" = true
    · simp [hlost, hblocked, hskipped, hchanged] at h
    by_cases hcommit : isControl (s.stmtQueue pos) p.commitStmt = true
    · -- a failed commit: a second call sends the abort
      simp only [hlost, hblocked, hskipped, hchanged, hcommit, Bool.not_true] at h
      have hframe2 := hframe.trans (frame_replaceCommit p pos s1 (by rw [hqueue]; exact hcommit))
      have hframe3 := hframe2.trans (frame_test p pos (s1.replaceCommit p pos)
        ((s1.replaceCommit p pos).stmtQueue pos) false)
      have hsettled3 := settled_test p pos (s1.replaceCommit p pos)
        ((s1.replaceCommit p pos).stmtQueue pos) false
      have htxn3 : ∀ t, (((s1.replaceCommit p pos).test p pos
          ((s1.replaceCommit p pos).stmtQueue pos) false).2.transArr t).stmtOutputs =
          (s.transArr t).stmtOutputs ∧ (((s1.replaceCommit p pos).test p pos
          ((s1.replaceCommit p pos).stmtQueue pos) false).2.transArr t).stmtErrInfo =
          (s.transArr t).stmtErrInfo := by
        intro t
        rw [← (htxn t).1, ← (htxn t).2]
        by_cases ht : t = p.tidQueue pos
        · subst ht; simp [TransTest.test, TransTest.replaceCommit, TransTest.modifyTxn]
        · simp [TransTest.test, TransTest.replaceCommit, TransTest.modifyTxn, ht]
      revert h hframe3 hsettled3 htxn3
      generalize (s1.replaceCommit p pos).test p pos ((s1.replaceCommit p pos).stmtQueue pos) false = r
      obtain ⟨answer, s3⟩ := r
      intro h hframe3 hsettled3 htxn3
      cases answer with
      | ok out =>
        simp only [Bool.false_eq_true, reduceIte, Except.ok.injEq, Prod.mk.injEq] at h
        obtain ⟨rfl, rfl, rfl⟩ := h
        exact unitSpec_record hframe3 htxn3 ⟨false, [], ""⟩ hsettled3
      | error err' =>
        simp only [Bool.false_eq_true, reduceIte, Except.ok.injEq, Prod.mk.injEq] at h
        obtain ⟨rfl, rfl, rfl⟩ := h
        exact ⟨hframe3, .blocked _ (htxn3 _).1 (htxn3 _).2⟩
    · simp only [hlost, hblocked, hskipped, hchanged, hcommit, reduceIte, Bool.not_false] at h
      cases h
      exact unitSpec_record hframe htxn ⟨false, [], err⟩
        (by simp [hsettled, TestPlan.settle, hblocked, hskipped, hcommit])

end DbFuzz
