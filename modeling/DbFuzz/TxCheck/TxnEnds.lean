import DbFuzz.Lib.Bracketed
import DbFuzz.TxCheck.RefineMeasure

/-! The ends of the transactions in the queue of `multi_stmt_round_test`: the begin statement
comes first, and the last statement is the commit or abort statement of the status. -/

namespace DbFuzz

open Loop

/-- The words of every driver. -/
def dutSetup (transNum : ℕ) : RoundSetup := ⟨transNum, "COMMIT", "ROLLBACK"⟩

def endsText (text : String) : Bool := isControl text "COMMIT" || isControl text "ROLLBACK"

def endWord (status : TxnStatus) : String := if status = .abort then "ROLLBACK" else "COMMIT"

theorem endsPlain_dutSetup (n : ℕ) : RoundTest.EndsPlain (dutSetup n) := by
  constructor
  · rw [show (dutSetup n).commitStmt = "COMMIT" from rfl]
    decide +kernel
  · rw [show (dutSetup n).abortStmt = "ROLLBACK" from rfl]
    decide +kernel

theorem endsText_endWord (status : TxnStatus) : endsText (endWord status) = true := by
  unfold endWord
  split_ifs <;> decide +kernel

/-- A word that begins a transaction. -/
structure BeginWord (text : String) : Prop where
  inner : endsText text = false
  read : containsText text "SELECT * FROM" = false
  kept : isSpaceHolder text = false

theorem endsText_of_long {text : String} (h : 12 ≤ text.utf8ByteSize) : endsText text = false := by
  have hcommit : "COMMIT".utf8ByteSize = 6 := by decide +kernel
  have habort : "ROLLBACK".utf8ByteSize = 8 := by decide +kernel
  have h1 : ¬ text.utf8ByteSize ≤ "COMMIT".utf8ByteSize + 3 := by omega
  have h2 : ¬ text.utf8ByteSize ≤ "ROLLBACK".utf8ByteSize + 3 := by omega
  simp [endsText, isControl, h1, h2]

theorem endsText_versionSet (table : String) : endsText ("SELECT * FROM " ++ table) = false := by
  refine endsText_of_long ?_
  have hsize : "SELECT * FROM ".utf8ByteSize = 14 := by decide +kernel
  rw [String.utf8ByteSize_append, hsize]
  omega

theorem endsText_spaceHolder : endsText spaceHolderStmt = false := by decide +kernel

/-! A transaction of a queue. -/

/-- A control statement with the text, as the instrumentor marks it. -/
def IsControl (text : String) (x : String × StmtUsage) : Prop :=
  x.1 = text ∧ x.2.stmtType = .initType ∧ x.2.isInstrumented = false

/-- The statements of a transaction between its begin statement and the end its status asks
for. -/
def Framed (beginStmt : String) (status : TxnStatus) : List (String × StmtUsage) → Prop :=
  Bracketed (IsControl beginStmt) (IsControl (endWord status)) fun x => endsText x.1 = false

namespace PlannedTest

/-- The texts of a transaction in the queue with their usages. -/
def view (p : PlannedTest) (tid : ℕ) : List (String × StmtUsage) :=
  (p.plan.ofTxn tid (List.range p.plan.stmtNum)).map fun i => (p.stmt i, p.use i)

/-- Every transaction of the queue is framed. -/
def AllFramed (beginStmt : ℕ → String) (p : PlannedTest) : Prop :=
  ∀ tid < p.transNum, Framed (beginStmt tid) (p.txn tid).status (p.view tid)

end PlannedTest

/-! What a run of `trans_test` does to the ends. -/

/-- Equal queues, statuses and statements of the transactions. -/
structure SameTxns (s s' : TransTest) : Prop where
  stmtQueue : s'.stmtQueue = s.stmtQueue
  txn : ∀ t, (s'.transArr t).status = (s.transArr t).status ∧
    (s'.transArr t).stmts = (s.transArr t).stmts

theorem SameTxns.trans {s s' s'' : TransTest} (h : SameTxns s s') (h' : SameTxns s' s'') :
    SameTxns s s'' where
  stmtQueue := h'.stmtQueue.trans h.stmtQueue
  txn t := ⟨(h'.txn t).1.trans (h.txn t).1, (h'.txn t).2.trans (h.txn t).2⟩

theorem sameTxns_modifyTxn (s : TransTest) (tid : ℕ) {f : Transaction → Transaction}
    (hf : ∀ x, (f x).status = x.status ∧ (f x).stmts = x.stmts) : SameTxns s (s.modifyTxn tid f) := by
  refine ⟨rfl, fun t => ?_⟩
  by_cases ht : t = tid
  · subst ht
    simpa [TransTest.modifyTxn] using hf (s.transArr t)
  · simp [TransTest.modifyTxn, ht]

theorem sameTxns_record (s : TransTest) (tid : ℕ) (output : StmtOutput) (err : String) :
    SameTxns s (s.record tid output err) :=
  sameTxns_modifyTxn s tid fun _ => ⟨rfl, rfl⟩

theorem sameTxns_pushBlocked (s : TransTest) (p : TestPlan) (pos : ℕ) (e : Executed)
    (output : StmtOutput) :
    SameTxns s ((s.push p pos e output).setBlocked (p.tidQueue pos) (decide (e = .blocked))) := by
  have hpush : SameTxns s (s.push p pos e output) := by
    cases e <;> exact ⟨rfl, fun _ => ⟨rfl, rfl⟩⟩
  exact hpush.trans (sameTxns_modifyTxn _ _ fun _ => ⟨rfl, rfl⟩)

/-- A call changes the ends only when a commit fails. -/
theorem transTestUnit_ends {p : TestPlan} {pos : ℕ} {s s' : TransTest} {e : Executed}
    {output : StmtOutput} (h : transTestUnit p pos s = .ok (e, output, s')) :
    SameTxns s s' ∨
      isControl (s.stmtQueue pos) p.commitStmt = true ∧ SameTxns (s.replaceCommit p pos) s' := by
  have hcall : ∀ calls, SameTxns s { s with calls := calls } := fun _ => ⟨rfl, fun _ => ⟨rfl, rfl⟩⟩
  unfold transTestUnit TransTest.test at h
  dsimp only at h
  cases hanswer : p.dbms s.calls.length with
  | ok out =>
    rw [hanswer] at h
    cases h
    exact Or.inl ((hcall _).trans (sameTxns_record _ _ _ _))
  | error err =>
    rw [hanswer] at h
    dsimp only at h
    split_ifs at h with hlost hblocked hskipped hchanged hcommit
    · cases h
      exact Or.inl (hcall _)
    · cases h
      exact Or.inl ((hcall _).trans (sameTxns_record _ _ _ _))
    · cases h
      exact Or.inl ((hcall _).trans (sameTxns_record _ _ _ _))
    · -- whatever the server says to the abort
      refine Or.inr ⟨by simpa using hcommit, ?_⟩
      have hreplaced : ∀ calls calls', SameTxns (s.replaceCommit p pos)
          { (TransTest.replaceCommit { s with calls := calls } p pos) with calls := calls' } :=
        fun _ _ => ⟨rfl, fun _ => ⟨rfl, rfl⟩⟩
      split at h
      · cases h
        exact (hreplaced _ _).trans (sameTxns_record _ _ _ _)
      · cases h
        exact hreplaced _ _

/-- The ends after a run: a transaction is as before, or its commit failed and was replaced. -/
def EndsReplaced (p : TestPlan) (s s' : TransTest) : Prop :=
  ∀ t, ((s'.transArr t).status = (s.transArr t).status ∧
      (s'.transArr t).stmts = (s.transArr t).stmts ∧
      ∀ i, p.tidQueue i = t → s'.stmtQueue i = s.stmtQueue i) ∨
    (s'.transArr t).status = .abort ∧
      (s'.transArr t).stmts = (s.transArr t).stmts.dropLast ++ [p.abortStmt] ∧
      ∃ i < p.stmtNum, p.tidQueue i = t ∧ isControl (s.stmtQueue i) p.commitStmt = true ∧
        s'.stmtQueue i = p.abortStmt

theorem EndsReplaced.sameTxns {p : TestPlan} {s u u' : TransTest} (h : EndsReplaced p s u)
    (hsame : SameTxns u u') : EndsReplaced p s u' := by
  intro t
  rw [(hsame.txn t).1, (hsame.txn t).2, hsame.stmtQueue]
  exact h t

theorem EndsReplaced.replaceCommit {p : TestPlan} {s u : TransTest} {pos : ℕ}
    (h : EndsReplaced p s u) (hpos : pos < p.stmtNum)
    (hcommit : isControl (u.stmtQueue pos) p.commitStmt = true) :
    EndsReplaced p s (u.replaceCommit p pos) := by
  have htext : ∀ i, (u.replaceCommit p pos).stmtQueue i =
      if i = pos then p.abortStmt else u.stmtQueue i := fun i => Function.update_apply _ _ _ _
  have htxn : ∀ t, (u.replaceCommit p pos).transArr t = if t = p.tidQueue pos then
      { u.transArr (p.tidQueue pos) with
        status := .abort
        stmts := (u.transArr (p.tidQueue pos)).stmts.dropLast ++ [p.abortStmt] }
      else u.transArr t := fun t => Function.update_apply _ _ _ _
  intro t
  rw [htxn]
  by_cases ht : t = p.tidQueue pos
  · subst ht
    right
    rw [if_pos rfl]
    rcases h (p.tidQueue pos) with ⟨-, hstmts, hqueue⟩ | ⟨-, hstmts, i, hi, htid, hold, hnew⟩
    · refine ⟨rfl, by dsimp only; rw [hstmts], pos, hpos, rfl, ?_, by rw [htext, if_pos rfl]⟩
      rw [← hqueue pos rfl]
      exact hcommit
    · refine ⟨rfl, by dsimp only; rw [hstmts, List.dropLast_concat], i, hi, htid, hold, ?_⟩
      rw [htext]
      split_ifs
      · rfl
      · exact hnew
  · rw [if_neg ht]
    have hother : ∀ i, p.tidQueue i = t → (u.replaceCommit p pos).stmtQueue i = u.stmtQueue i := by
      intro i hi
      rw [htext, if_neg]
      rintro rfl
      exact ht hi.symm
    rcases h t with ⟨hstatus, hstmts, hqueue⟩ | ⟨hstatus, hstmts, i, hi, htid, hold, hnew⟩
    · exact Or.inl ⟨hstatus, hstmts, fun i hi => (hother i hi).trans (hqueue i hi)⟩
    · exact Or.inr ⟨hstatus, hstmts, i, hi, htid, hold, (hother i htid).trans hnew⟩

theorem transTest_ends {p : TestPlan} {s s' : TransTest} (hr : transTest p s = .ok s') :
    EndsReplaced p s s' := by
  refine transTest_rounds (P := EndsReplaced p s) (fun pos hpos u e output u' _ hu hunit => ?_)
    (fun t => Or.inl ⟨rfl, rfl, fun _ _ => rfl⟩) hr
  refine EndsReplaced.sameTxns ?_ (sameTxns_pushBlocked u' p pos e output)
  rcases transTestUnit_ends hunit with hsame | ⟨hcommit, hsame⟩
  · exact hu.sameTxns hsame
  · exact (hu.replaceCommit hpos hcommit).sameTxns hsame

namespace RoundTest

variable {Val : Type} {env : RoundEnv Val} {beginStmt : ℕ → String} {n : ℕ}
  {E : Prod Val → StmtUsage → Prop} {t t' t2 : RoundTest Val}

/-- The statements of every transaction in `trans_arr` are those of the queue; the begin
statement is the first and the end that the status asks for the last one. -/
structure Consistent (beginStmt : ℕ → String) (t : RoundTest Val) : Prop where
  length : t.stmtQueue.length = t.planned.plan.stmtNum
  stmts : ∀ tid < t.planned.transNum, (t.planned.txn tid).stmts =
    (t.planned.plan.ofTxn tid (List.range t.planned.plan.stmtNum)).map t.planned.stmt
  first : ∀ tid < t.planned.transNum, (t.planned.txn tid).stmts.head? = some (beginStmt tid)
  commits : ∀ tid < t.planned.transNum, (t.planned.txn tid).status = .commit →
    (t.planned.txn tid).stmts.getLast? = some t.planned.plan.commitStmt
  aborts : ∀ tid < t.planned.transNum, (t.planned.txn tid).status = .abort →
    (t.planned.txn tid).stmts.getLast? = some t.planned.plan.abortStmt

/-- Framed transactions whose statements `trans_arr` has are consistent. -/
theorem consistent_of_framed (ht : t.QueueInv env (dutSetup n) E)
    (h : t.planned.AllFramed beginStmt)
    (hstmts : ∀ tid < t.planned.transNum, (t.planned.txn tid).stmts =
      (t.planned.plan.ofTxn tid (List.range t.planned.plan.stmtNum)).map t.planned.stmt) :
    t.Consistent beginStmt := by
  obtain ⟨hcommit, habort⟩ := ht.words
  have hview : ∀ tid < t.planned.transNum,
      (t.planned.txn tid).stmts = (t.planned.view tid).map Prod.fst := by
    intro tid htid
    rw [hstmts tid htid, PlannedTest.view, List.map_map]
    rfl
  have hlast : ∀ tid < t.planned.transNum,
      (t.planned.txn tid).stmts.getLast? = some (endWord (t.planned.txn tid).status) := by
    intro tid htid
    obtain ⟨x, hx, htext, -⟩ := (h tid htid).getLast
    rw [hview tid htid, List.getLast?_map, hx, Option.map_some, htext]
  refine ⟨by simp [stmtQueue], hstmts, fun tid htid => ?_, fun tid htid hst => ?_,
    fun tid htid hst => ?_⟩
  · obtain ⟨x, hx, htext, -⟩ := (h tid htid).head
    rw [hview tid htid, List.head?_map, hx, Option.map_some, htext]
  · rw [hlast tid htid, hst, ← hcommit]
    rfl
  · rw [hlast tid htid, hst, ← habort]
    rfl

theorem allFramed_alignTxns (h : t.planned.AllFramed beginStmt) :
    t.alignTxns.planned.AllFramed beginStmt := by
  intro tid htid
  rw [status_alignTxns]
  exact h tid htid

theorem consistent_alignTxns (ht : t.alignTxns.QueueInv env (dutSetup n) E)
    (h : t.planned.AllFramed beginStmt) : t.alignTxns.Consistent beginStmt := by
  refine consistent_of_framed ht (allFramed_alignTxns h) fun tid htid => ?_
  have htid' : tid < t.planned.transNum := htid
  rw [alignTxns_txn, if_pos htid']
  rfl

/-! A queue as its transactions. -/

/-- The texts of a transaction in a list of entries, with their usages. -/
def viewOf (env : RoundEnv Val) (queue : List (Emitted Val)) (tid : ℕ) :
    List (String × StmtUsage) :=
  (queue.filter fun e => e.tid.toNat == tid).map fun e => (env.print e.stmt, e.usage)

theorem view_setStmtQueue (env : RoundEnv Val) (t : RoundTest Val) (queue : List (Emitted Val))
    (tid : ℕ) : (t.setStmtQueue env queue).planned.view tid = viewOf env queue tid := by
  unfold viewOf
  conv_rhs => rw [← map_getD_range queue ⟨.txnString "", 0, .mk' .initType false⟩, List.filter_map,
    List.map_map]
  rfl

theorem view_eq (h : t.Printed env) (tid : ℕ) : t.planned.view tid = viewOf env t.stmtQueue tid := by
  unfold viewOf stmtQueue PlannedTest.view
  rw [List.filter_map, List.map_map]
  refine List.map_congr_left fun i hi => ?_
  have hi' : i < t.planned.plan.stmtNum := List.mem_range.1 (List.mem_filter.1 hi).1
  rw [h i hi']
  rfl

/-- A new queue whose transactions are framed. -/
theorem allFramed_setStmtQueue {queue : List (Emitted Val)}
    (h : ∀ tid < t.planned.transNum,
      Framed (beginStmt tid) (t.planned.txn tid).status (viewOf env queue tid)) :
    (t.setStmtQueue env queue).planned.AllFramed beginStmt := by
  intro tid htid
  rw [view_setStmtQueue]
  exact h tid htid

/-! `trans_test` and `block_scheduling` -/

theorem QueueInv.dutWords (h : t.QueueInv env (dutSetup n) E) :
    t.planned.plan.commitStmt = "COMMIT" ∧ t.planned.plan.abortStmt = "ROLLBACK" :=
  ⟨h.words.1.symm, h.words.2.symm⟩

theorem mem_ofTxn {p : TestPlan} {tid i : ℕ} :
    i ∈ p.ofTxn tid (List.range p.stmtNum) ↔ i < p.stmtNum ∧ p.tidQueue i = tid := by
  simp [TestPlan.ofTxn]

theorem isControl_of_inner {text : String} (h : endsText text = false) :
    isControl text "COMMIT" = false :=
  (Bool.or_eq_false_iff.1 h).1

theorem allFramed_transTest (ht : t.QueueInv env (dutSetup n) E)
    (hclear : t.planned.test.Cleared) (h : t.planned.AllFramed beginStmt)
    (hrun : t.transTest env = .ok t2) : t2.planned.AllFramed beginStmt := by
  obtain ⟨hrun', hplan, hnum, -⟩ := transTest_run hrun
  obtain ⟨order, res, hrec⟩ := transTest_record hclear hrun'
  obtain ⟨hcommit, habort⟩ := ht.dutWords
  intro tid htid
  rw [hnum] at htid
  have hframe := h tid htid
  unfold PlannedTest.view PlannedTest.use at hframe ⊢
  rw [hplan]
  rcases transTest_ends hrun' tid with ⟨hstatus, -, hqueue⟩ | ⟨hstatus, -, j, hj, hjt, hold, hnew⟩
  · have hsame : ∀ i ∈ t.planned.plan.ofTxn tid (List.range t.planned.plan.stmtNum),
        (t2.planned.stmt i, t.planned.plan.stmtUse i) =
          (t.planned.stmt i, t.planned.plan.stmtUse i) :=
      fun i hi => congrArg (·, _) (hqueue i (mem_ofTxn.1 hi).2)
    rw [List.map_congr_left hsame, show (t2.planned.txn tid).status = _ from hstatus]
    exact hframe
  · rw [show (t2.planned.txn tid).status = _ from hstatus]
    have hinner : ∀ i, endsText (t.planned.stmt i) = false →
        t2.planned.stmt i = t.planned.stmt i := by
      intro i hi
      rcases hrec.queue i with hq | ⟨hcontrol, -⟩
      · exact hq
      · have hno : isControl (t.planned.test.stmtQueue i) "COMMIT" = false := isControl_of_inner hi
        rw [hcommit, hno] at hcontrol
        cases hcontrol
    refine (Bracketed.map_iff _).2 (((Bracketed.map_iff _).1 hframe).imp (fun i _ hfirst hin => ?_)
      (fun i _ hin => ?_) fun i _ hlast hunique => ?_)
    · exact ⟨(hinner i hin).trans hfirst.1, hfirst.2⟩
    · rw [Function.comp_apply, hinner i hin]
      exact hin
    · refine ⟨?_, hlast.2⟩
      rcases hunique j (mem_ofTxn.2 ⟨hj, hjt⟩) with hin | rfl
      · have hno : isControl (t.planned.test.stmtQueue j) "COMMIT" = false := isControl_of_inner hin
        rw [hcommit, hno] at hold
        cases hold
      · rw [habort] at hnew
        exact hnew

end RoundTest

/-- The statement is a begin, commit or abort statement. -/
def PlannedTest.IsControlStmt (beginStmt : ℕ → String) (p : PlannedTest) (i : ℕ) : Prop :=
  p.stmt i = beginStmt (p.plan.tidQueue i) ∨ endsText (p.stmt i) = true

namespace RoundTest

variable {Val : Type} {env : RoundEnv Val} {beginStmt : ℕ → String} {n : ℕ}
  {E : Prod Val → StmtUsage → Prop} {t t' t2 : RoundTest Val}

/-- The control statements of a run of `trans_test` are not skipped. -/
def ControlsRun (beginStmt : ℕ → String) (t t2 : RoundTest Val) : Prop :=
  ∀ i < t.planned.plan.stmtNum, t.planned.IsControlStmt beginStmt i →
    (t2.planned.test.settled t2.planned.plan i).any (·.skipped) = false

/-- No control statement is skipped in a run of the scheduling. -/
def ControlsScheduled (env : RoundEnv Val) (beginStmt : ℕ → String) (t : RoundTest Val) : Prop :=
  ∀ x x2, Scheduled env t x → x.transTest env = .ok x2 → ControlsRun beginStmt x x2

/-- The transactions of the real queues: the planned ones, with placeholders. -/
theorem view_again (hclear : t.planned.test.Cleared) (hrun : t.transTest env = .ok t2) :
    ∃ res : ℕ → Settled,
      (∀ i < t.planned.plan.stmtNum, t2.planned.test.settled t2.planned.plan i = some (res i)) ∧
      ∀ tid, (t2.again env).planned.view tid =
        (t.planned.plan.ofTxn tid (List.range t.planned.plan.stmtNum)).map fun i =>
          (env.print (t.realEntry t2 res i).stmt, (t.realEntry t2 res i).usage) := by
  obtain ⟨-, hplan, -⟩ := transTest_run hrun
  obtain ⟨order, res, hrec, hreal⟩ := realQueue_eq hclear hrun
  refine ⟨res, fun i hi => by rw [hplan]; exact hrec.settled i hi, fun tid => ?_⟩
  have htid : ∀ i, (t.realEntry t2 res i).tid = t.planned.plan.tidQueue i := by
    intro i
    unfold realEntry
    split_ifs <;> rfl
  have hview : (t2.again env).planned.view tid = viewOf env t2.realQueue tid :=
    view_setStmtQueue env t2 t2.realQueue tid
  rw [hview, hreal, viewOf, List.filter_map, List.map_map,
    ← ofTxn_eq_of_perm hrec.perm hrec.ascending tid]
  unfold TestPlan.ofTxn
  congr 1
  refine List.filter_congr fun i _ => ?_
  rw [Function.comp_apply, htid, Int.toNat_natCast]

theorem allFramed_again (ht : t.QueueInv env (dutSetup n) E) (hrule : EntryRule env (dutSetup n) E)
    (hclear : t.planned.test.Cleared) (h : t.planned.AllFramed beginStmt)
    (hrun : t.transTest env = .ok t2) (hspared : ControlsRun beginStmt t t2) :
    (t2.again env).planned.AllFramed beginStmt ∧
      ∀ tid, ((t2.again env).planned.view tid).length = (t.planned.view tid).length := by
  have h2 := allFramed_transTest ht hclear h hrun
  have hprinted := (ht.transTest hrule hclear hrun).printed
  obtain ⟨hrun', hplan, hnum, -⟩ := transTest_run hrun
  obtain ⟨_, _, hrec⟩ := transTest_record hclear hrun'
  obtain ⟨hcommit, -⟩ := ht.dutWords
  obtain ⟨res, hres, hview⟩ := view_again hclear hrun
  -- a control statement was one before the run, and is in the real queue
  have hkept : ∀ i < t.planned.plan.stmtNum, t2.planned.IsControlStmt beginStmt i →
      (res i).skipped = false := by
    intro i hi hcontrol
    have hany := hspared i hi ?_
    · rw [hres i hi] at hany
      exact hany
    · rcases hrec.queue i with hq | ⟨hold, hq⟩
      · unfold PlannedTest.IsControlStmt at hcontrol ⊢
        rw [hplan, show t2.planned.stmt i = t.planned.stmt i from hq] at hcontrol
        exact hcontrol
      · rw [hcommit] at hold
        exact Or.inr (Bool.or_eq_true_iff.2 (Or.inl hold))
  have hentry : ∀ i < t.planned.plan.stmtNum,
      (env.print (t.realEntry t2 res i).stmt, (t.realEntry t2 res i).usage) =
        if (res i).skipped then
          (spaceHolderStmt, .mk' .initType (t.planned.plan.stmtUse i).isInstrumented)
        else (t2.planned.stmt i, t.planned.plan.stmtUse i) := by
    intro i hi
    unfold realEntry
    split_ifs
    · rfl
    · rw [hprinted i (by rw [hplan]; exact hi)]
  refine ⟨fun tid htid => ?_, fun tid => by rw [hview, PlannedTest.view, List.length_map,
    List.length_map]⟩
  have hframe := h2 tid htid
  unfold PlannedTest.view PlannedTest.use at hframe
  rw [hplan] at hframe
  rw [hview]
  refine (Bracketed.map_iff _).2 (((Bracketed.map_iff _).1 hframe).imp (fun i hi hfirst hin => ?_)
    (fun i hi hin => ?_) fun i hi hlast _ => ?_)
  · obtain ⟨hi, htq⟩ := mem_ofTxn.1 hi
    rw [Function.comp_apply, hentry i hi, hkept i hi (Or.inl ?_), if_neg Bool.false_ne_true]
    · exact hfirst
    · rw [hplan, htq]
      exact hfirst.1
  · obtain ⟨hi, -⟩ := mem_ofTxn.1 hi
    rw [Function.comp_apply, hentry i hi]
    split_ifs
    · exact endsText_spaceHolder
    · exact hin
  · obtain ⟨hi, -⟩ := mem_ofTxn.1 hi
    rw [Function.comp_apply, hentry i hi, hkept i hi (Or.inr ?_), if_neg Bool.false_ne_true]
    · exact hlast
    · rw [show t2.planned.stmt i = _ from hlast.1]
      exact endsText_endWord _

theorem allFramed_blockScheduling (hrule : EntryRule env (dutSetup n) E) (fuel : ℕ) :
    ∀ t t' : RoundTest Val, t.QueueInv env (dutSetup n) E → t.planned.test.Cleared →
      t.planned.AllFramed beginStmt → ControlsScheduled env beginStmt t →
      t.blockScheduling env fuel = .ok t' → t'.planned.AllFramed beginStmt ∧
        ∀ tid, (t'.planned.view tid).length = (t.planned.view tid).length := by
  induction fuel with
  | zero => intro t t' _ _ _ _ h; cases h
  | succ fuel ih =>
    intro t t' ht hclear hframed hcontrols h
    obtain ⟨t2, hrun, h⟩ := bind_eq_ok_iff.1 h
    by_cases hfailing : t2.noFailing = true
    · rw [if_pos hfailing] at h
      cases h
      have h2 := allFramed_transTest ht hclear hframed hrun
      refine ⟨h2, fun tid => ?_⟩
      obtain ⟨-, hplan, -⟩ := transTest_run hrun
      show (t2.planned.view tid).length = _
      rw [PlannedTest.view, PlannedTest.view, hplan, List.length_map, List.length_map]
    · rw [if_neg hfailing] at h
      rw [Bool.not_eq_true] at hfailing
      obtain ⟨hagain, hlength⟩ := allFramed_again ht hrule hclear hframed hrun
        (hcontrols t t2 .start hrun)
      obtain ⟨hend, hlength'⟩ := ih (t2.again env) t' (ht.again hrule hclear hrun)
        (cleared_clearExecutionStatus _) hagain
        (fun x x2 hx => hcontrols x x2 (hx.after hrun hfailing)) h
      exact ⟨hend, fun tid => (hlength' tid).trans (hlength tid)⟩

/-! The queue without placeholders, and without the placed reads. -/

theorem viewOf_filter (env : RoundEnv Val) (queue : List (Emitted Val))
    (keep : String × StmtUsage → Bool) (tid : ℕ) :
    viewOf env (queue.filter fun e => keep (env.print e.stmt, e.usage)) tid =
      (viewOf env queue tid).filter keep := by
  unfold viewOf
  rw [List.filter_map, List.filter_filter, List.filter_filter]
  congr 1
  exact List.filter_congr fun e _ => Bool.and_comm _ _

theorem allFramed_cleanInstrument (hprinted : t.Printed env) (h : t.planned.AllFramed beginStmt) :
    (t.setStmtQueue env (DbFuzz.cleanInstrument t.stmtQueue)).planned.AllFramed beginStmt := by
  refine allFramed_setStmtQueue fun tid htid => ?_
  have hframe := h tid htid
  rw [view_eq hprinted] at hframe
  rw [DbFuzz.cleanInstrument, viewOf_filter env _ fun x => !x.2.isInstrumented]
  exact hframe.filter (fun x _ hx _ => by rw [hx.2.2]; rfl) fun x _ hx => by rw [hx.2.2]; rfl

theorem allFramed_filter (hbegin : ∀ tid, BeginWord (beginStmt tid)) (hprinted : t.Printed env)
    (h : t.planned.AllFramed beginStmt) :
    (t.setStmtQueue env
      (t.stmtQueue.filter fun e => !isSpaceHolder (env.print e.stmt))).planned.AllFramed beginStmt := by
  refine allFramed_setStmtQueue fun tid htid => ?_
  have hframe := h tid htid
  rw [view_eq hprinted] at hframe
  rw [viewOf_filter env _ fun x => !isSpaceHolder x.1]
  refine hframe.filter (fun x _ hx _ => ?_) fun x _ hx => ?_
  · rw [hx.1, (hbegin tid).kept]
    rfl
  · rw [hx.1]
    unfold endWord
    split_ifs <;> decide +kernel

/-! `instrument_txn_stmts` -/

theorem viewOf_flatMap {α : Type} {l : List α} (key : α → ℤ) {f : α → List (Emitted Val)}
    (hf : ∀ a ∈ l, ∀ d ∈ f a, d.tid = key a) (tid : ℕ) :
    viewOf env (l.flatMap f) tid = (l.filter fun a => (key a).toNat == tid).flatMap fun a =>
      (f a).map fun d => (env.print d.stmt, d.usage) := by
  unfold viewOf
  rw [List.filter_flatMap, List.map_flatMap]
  induction l with
  | nil => rfl
  | cons a l ih =>
    rw [List.forall_mem_cons] at hf
    rw [List.flatMap_cons, ih hf.2, List.filter_cons]
    by_cases htid : (key a).toNat = tid
    · rw [if_pos (beq_iff_eq.2 htid), List.flatMap_cons, List.filter_eq_self.2]
      intro d hd
      rw [hf.1 d hd, htid, beq_self_eq_true]
    · rw [if_neg (by simpa using htid), List.filter_eq_nil_iff.2, List.map_nil, List.nil_append]
      intro d hd
      rw [hf.1 d hd]
      simpa using htid

/-- A begin, commit or abort statement is an object of its own, which the instrumentor leaves
alone. -/
def ControlEntry (env : RoundEnv Val) (beginStmt : ℕ → String) (o : Prod Val) (u : StmtUsage) :
    Prop :=
  u.stmtType = .initType → (∃ tid, env.print o = beginStmt tid) ∨ endsText (env.print o) = true →
    ∃ text, o = .txnString text ∧ containsText text "SELECT * FROM" = false

theorem InitEntry.control {o : Prod Val} {u : StmtUsage} (h : InitEntry o u) :
    ControlEntry env beginStmt o u :=
  fun hinit _ => h hinit

theorem entryRule_control (env : RoundEnv Val) (beginStmt : ℕ → String) {w : RoundSetup}
    (hw : EndsPlain w) : EntryRule env w (ControlEntry env beginStmt) where
  skip _ _ _ := (initEntry_spaceHolder _).control
  drop _ _ _ := (initEntry_spaceHolder _).control
  ends _ _ _ _ := ⟨fun _ _ => ⟨_, rfl, hw.1⟩, fun _ _ => ⟨_, rfl, hw.2⟩⟩

/-- What the instrumentor emits for a control statement is the statement. -/
theorem blockOf_control {text : String} {e : Emitted Val}
    (he : ControlEntry env beginStmt e.stmt e.usage)
    (htext : (∃ tid, text = beginStmt tid) ∨ endsText text = true)
    (h : IsControl text (env.print e.stmt, e.usage)) :
    ∃ y, (blockOf env.instrument env.queryText e).map (fun d => (env.print d.stmt, d.usage)) = [y] ∧
      IsControl text y := by
  obtain ⟨hprint, hinit, -⟩ := h
  obtain ⟨text', hstmt, hread⟩ := he hinit (by rw [show env.print e.stmt = text from hprint]; exact htext)
  have htext' : text' = text := by
    rw [← hprint, hstmt]
    rfl
  subst htext'
  have hblock : blockOf env.instrument env.queryText e =
      [⟨e.stmt, e.tid, .mk' .initType false⟩] := by
    rw [blockOf, hstmt]
    simp [instrumentStmt, hread, Except.toOption]
  refine ⟨(text', .mk' .initType false), ?_, rfl, rfl, rfl⟩
  rw [hblock, hstmt]
  rfl

theorem endsText_emitted (hquery : ∀ q, endsText (env.queryText q) = false) {stmt : Prod Val}
    {tid : ℤ} {d : Emitted Val} (h : EmittedFor stmt tid d)
    (hstmt : endsText (env.print stmt) = false) : endsText (env.print d.stmt) = false := by
  cases h with
  | versionSet table => exact endsText_versionSet table
  | before q => exact hquery q
  | after q => exact hquery q
  | stmt => exact hstmt

theorem allFramed_instrumentTxnStmts (hquery : ∀ q, endsText (env.queryText q) = false)
    (ht : t.QueueInv env (dutSetup n) E) (hE : ∀ o u, E o u → ControlEntry env beginStmt o u)
    (h : t.planned.AllFramed beginStmt) (hinst : t.instrumentTxnStmts env = .ok t') :
    ∃ queue, t' = (t.setStmtQueue env queue).alignTxns ∧
      (t.setStmtQueue env queue).planned.AllFramed beginStmt := by
  obtain ⟨out, hout, hinst⟩ := bind_eq_ok_iff.1 hinst
  cases hinst
  refine ⟨out, rfl, allFramed_setStmtQueue fun tid htid => ?_⟩
  obtain ⟨hflat, hall⟩ := instrumentor_blockOf hout
  have hframe := h tid htid
  rw [view_eq ht.printed] at hframe
  rw [hflat, viewOf_flatMap (fun e => e.tid) fun e _ d hd => tid_blockOf d hd]
  refine Bracketed.flatMap ((Bracketed.map_iff _).1 hframe) (fun e he hx _ => ?_)
    (fun e he hin y hy => ?_) fun e he hx => ?_
  · exact blockOf_control (hE _ _ (ht.entry_mem e (List.mem_filter.1 he).1)) (Or.inl ⟨tid, rfl⟩) hx
  · obtain ⟨d, hd, rfl⟩ := List.mem_map.1 hy
    obtain ⟨block, hblock⟩ := hall e (List.mem_filter.1 he).1
    rw [blockOf, hblock] at hd
    exact endsText_emitted hquery (mem_instrumentStmt hblock d hd) hin
  · exact blockOf_control (hE _ _ (ht.entry_mem e (List.mem_filter.1 he).1))
      (Or.inr (endsText_endWord _)) hx

/-! `infer_instrument_after_blocking` -/

/-- The basic statement that the index is looked up for. -/
theorem basicIdx_entry {tid : ℤ} {queue : List (Emitted Val)} {pos i k : ℕ}
    (h : basicIdx tid queue pos i = some k) : ∃ m e, k = i + m ∧ queue[m]? = some e ∧
      ((DbFuzz.cleanInstrument queue).filter fun d => d.tid == tid)[pos]? = some e := by
  induction queue generalizing pos i with
  | nil => cases h
  | cons e rest ih =>
    have hnext : ∀ {p : ℕ}, basicIdx tid rest p (i + 1) = some k → ∃ m e', k = i + m ∧
        (e :: rest)[m]? = some e' ∧
        ((DbFuzz.cleanInstrument rest).filter fun d => d.tid == tid)[p]? = some e' := by
      intro p hp
      obtain ⟨m, e', rfl, hget, he'⟩ := ih hp
      exact ⟨m + 1, e', by omega, hget, he'⟩
    rw [basicIdx] at h
    unfold DbFuzz.cleanInstrument at hnext ⊢
    rw [List.filter_cons]
    by_cases htid : e.tid = tid
    · rw [if_neg (not_not.2 htid)] at h
      by_cases hinst : e.usage.isInstrumented = true
      · rw [if_pos hinst] at h
        rw [if_neg (by simp [hinst])]
        exact hnext h
      · rw [if_neg hinst] at h
        rw [if_pos (by simpa using hinst), List.filter_cons, if_pos (by simpa using htid)]
        by_cases hpos : pos = 0
        · rw [if_pos hpos] at h
          cases h
          exact ⟨0, e, rfl, rfl, by rw [hpos]; rfl⟩
        · rw [if_neg hpos] at h
          obtain ⟨p, rfl⟩ : ∃ p, pos = p + 1 := ⟨pos - 1, by omega⟩
          rw [List.getElem?_cons_succ]
          exact hnext h
    · rw [if_pos htid] at h
      have hother : ((if (!e.usage.isInstrumented) = true then
          e :: List.filter (fun d => !d.usage.isInstrumented) rest
          else List.filter (fun d => !d.usage.isInstrumented) rest).filter fun d => d.tid == tid) =
            (List.filter (fun d => !d.usage.isInstrumented) rest).filter fun d => d.tid == tid := by
        split_ifs
        · rw [List.filter_cons, if_neg (by simpa using htid)]
        · rfl
      rw [hother]
      exact hnext h

/-- A statement without a type before is put back once. -/
theorem copyNum_of_init {q : AnalyzedQueue} {g : StmtGraph} {before : List (Emitted Val)}
    {e : Emitted Val} {pos : ℕ}
    (h : ∀ b, ((DbFuzz.cleanInstrument before).filter fun d => d.tid == e.tid)[pos]? = some b →
      b.usage.stmtType = .initType) : copyNum q g before e pos = 1 := by
  have hnone : turnedIdx before e pos = none := by
    unfold turnedIdx
    split_ifs
    · rfl
    cases hj : basicIdx e.tid before pos 0 with
    | none => rfl
    | some j =>
      obtain ⟨m, b, hm, hb, hbasic⟩ := basicIdx_entry hj
      rw [Nat.zero_add] at hm
      rw [Option.filter_some, hm, hb, Option.any_some, h b hbasic]
      rfl
  rw [copyNum, hnone]

/-- The entries of a transaction with their copies: each has its place in the transaction. -/
theorem filter_withCopies (q : AnalyzedQueue) (g : StmtGraph)
    {before done scheduled : List (Emitted Val)} (hdone : ∀ e ∈ done, 0 ≤ e.tid)
    (hscheduled : ∀ e ∈ scheduled, 0 ≤ e.tid) (tid : ℕ) :
    (withCopies q g before done scheduled).filter (fun c => c.1.tid.toNat == tid) =
      ((scheduled.filter fun e => e.tid.toNat == tid).zipIdx
        (done.countP fun d => d.tid.toNat == tid)).map fun x => (x.1, copyNum q g before x.1 x.2) := by
  induction scheduled generalizing done with
  | nil => rfl
  | cons e rest ih =>
    rw [List.forall_mem_cons] at hscheduled
    have hdone' : ∀ d ∈ done ++ [e], 0 ≤ d.tid := by
      intro d hd
      rcases List.mem_append.1 hd with hd | hd
      · exact hdone d hd
      · rw [List.mem_singleton.1 hd]
        exact hscheduled.1
    rw [withCopies, List.filter_cons, List.filter_cons, ih hdone' hscheduled.2,
      List.countP_append, List.countP_singleton]
    by_cases htid : e.tid.toNat = tid
    · have hcount : (done.countP fun d => d.tid == e.tid) =
          done.countP fun d => d.tid.toNat == tid := by
        refine List.countP_congr fun d hd => ?_
        rw [beq_iff_eq, beq_iff_eq, ← htid]
        exact ⟨fun h => by rw [h], fun h => by
          have := hdone d hd
          have := hscheduled.1
          omega⟩
      rw [if_pos (beq_iff_eq.2 htid), if_pos (beq_iff_eq.2 htid), if_pos (beq_iff_eq.2 htid),
        List.zipIdx_cons, List.map_cons, hcount]
    · rw [if_neg (by simpa using htid), if_neg (by simpa using htid), if_neg (by simpa using htid),
        Nat.add_zero]

/-- The statements that begin and end a transaction keep their place and are put back once. -/
theorem allFramed_inferInstrument {q : AnalyzedQueue} {g : StmtGraph} {before : List (Emitted Val)}
    {status : ℕ → TxnStatus} {r : List (Emitted Val) × StmtGraph}
    (hprinted : t.Printed env) (h : t.planned.AllFramed beginStmt) (htids : ∀ e ∈ before, 0 ≤ e.tid)
    (hbefore : ∀ tid < t.planned.transNum,
      Framed (beginStmt tid) (status tid) (viewOf env (DbFuzz.cleanInstrument before) tid))
    (hlength : ∀ tid, (viewOf env t.stmtQueue tid).length =
      (viewOf env (DbFuzz.cleanInstrument before) tid).length)
    (hinfer : inferInstrument q before [] t.stmtQueue g = .ok r) :
    (t.setStmtQueue env r.1).planned.AllFramed beginStmt := by
  refine allFramed_setStmtQueue fun tid htid => ?_
  have hframe := h tid htid
  rw [view_eq hprinted] at hframe
  have hold := (Bracketed.map_iff _).1 (hbefore tid htid)
  rw [inferInstrument_eq hinfer (AnalyzedQueue.SameLabels.refl g),
    viewOf_flatMap (fun c => c.1.tid) fun c _ d hd => by rw [List.eq_of_mem_replicate hd],
    filter_withCopies q g (by simp) t.tid_nonneg, List.countP_nil, List.flatMap_map]
  -- the basic statement at the place of a scheduled one
  have hplace : ∀ e ∈ t.stmtQueue.filter (fun e => e.tid.toNat == tid),
      ((DbFuzz.cleanInstrument before).filter fun d => d.tid == e.tid) =
        (DbFuzz.cleanInstrument before).filter fun d => d.tid.toNat == tid := by
    intro e he
    obtain ⟨he, htid'⟩ := List.mem_filter.1 he
    refine List.filter_congr fun d hd => ?_
    have hd0 := htids d (List.mem_filter.1 hd).1
    have he0 := t.tid_nonneg e he
    rw [← beq_iff_eq.1 htid', Bool.eq_iff_iff, beq_iff_eq, beq_iff_eq]
    omega
  have hlen := hlength tid
  unfold viewOf at hlen
  rw [List.length_map, List.length_map] at hlen
  refine Bracketed.flatMap ((Bracketed.map_iff _).1 hframe).zipIdx (fun x hx hfirst _ => ?_)
    (fun x _ hin y hy => ?_) fun x hx hlast => ?_
  · have hone : copyNum q g before x.1 x.2 = 1 := by
      refine copyNum_of_init fun b hb => ?_
      rw [hplace x.1 (List.fst_mem_of_mem_zipIdx hx), hfirst.2] at hb
      exact (hold.zero b hb).2.1
    rw [hone]
    exact ⟨_, rfl, hfirst.1⟩
  · obtain ⟨d, hd, rfl⟩ := List.mem_map.1 hy
    rw [List.eq_of_mem_replicate hd]
    exact hin
  · have hone : copyNum q g before x.1 x.2 = 1 := by
      refine copyNum_of_init fun b hb => ?_
      rw [hplace x.1 (List.fst_mem_of_mem_zipIdx hx)] at hb
      refine (hold.pred_length b ?_).2.1
      rw [← hlen, ← hlast.2, Nat.add_sub_cancel]
      exact hb
    rw [hone]
    exact ⟨_, rfl, hlast.1⟩

end RoundTest

/-! `refine_stmt_queue` -/

namespace PlannedTest

variable {beginStmt : ℕ → String} {t p p' : PlannedTest}

/-- What the loops of a refinement keep: a control statement was one before, and a statement
of the test was not changed before. -/
structure RefineFramed (beginStmt : ℕ → String) (t p : PlannedTest) : Prop where
  places : SamePlaces t p
  words : p.plan.commitStmt = "COMMIT" ∧ p.plan.abortStmt = "ROLLBACK"
  framed : p.AllFramed beginStmt
  control : ∀ k, p.IsControlStmt beginStmt k → t.IsControlStmt beginStmt k
  unchanged : ∀ k < p.plan.stmtNum, p.isTxnStmt k = false →
    t.isTxnStmt k = false ∧ (t.use k).isInstrumented = (p.use k).isInstrumented

theorem endsTxn_eq (hwords : p.plan.commitStmt = "COMMIT" ∧ p.plan.abortStmt = "ROLLBACK")
    (text : String) : p.plan.endsTxn text = endsText text := by
  rw [TestPlan.endsTxn, hwords.1, hwords.2, endsText]

theorem endStmt_eq (hwords : p.plan.commitStmt = "COMMIT" ∧ p.plan.abortStmt = "ROLLBACK")
    (status : TxnStatus) : p.endStmt status = endWord status := by
  rw [endStmt, hwords.1, hwords.2, endWord]

end PlannedTest

/-- The last statement of a framed transaction is the only one that ends it. -/
theorem Framed.ends {p : PlannedTest} {first : String} {status : TxnStatus} {k : ℕ}
    (h : Framed first status (p.view (p.plan.tidQueue k))) (hk : k < p.plan.stmtNum)
    (hends : endsText (p.stmt k) = true) : IsControl (endWord status) (p.stmt k, p.use k) := by
  have hlast : Bracketed (fun _ => True) (fun i => i = k ∧
      IsControl (endWord status) (p.stmt i, p.use i))
      (fun _ => True) (p.plan.ofTxn (p.plan.tidQueue k) (List.range p.plan.stmtNum)) := by
    refine ((Bracketed.map_iff _).1 h).imp (fun _ _ _ _ => trivial) (fun _ _ _ => trivial)
      fun i _ hlast hunique => ⟨?_, hlast⟩
    rcases hunique k (RoundTest.mem_ofTxn.2 ⟨hk, rfl⟩) with hin | hik
    · rw [Function.comp_apply, hends] at hin
      cases hin
    · exact hik.symm
  obtain ⟨i, -, rfl, hcontrol⟩ := hlast.getLast
  exact hcontrol

namespace PlannedTest

variable {beginStmt : ℕ → String} {t p p' : PlannedTest}

theorem allFramed_of_same (h : p.AllFramed beginStmt) (hplaces : SamePlaces p p')
    (hstatus : ∀ tid, (p'.txn tid).status = (p.txn tid).status)
    (hentry : ∀ k, p'.stmt k = p.stmt k ∧ p'.use k = p.use k) : p'.AllFramed beginStmt := by
  intro tid htid
  have hview : p'.view tid = p.view tid := by
    unfold view TestPlan.ofTxn
    rw [hplaces.stmtNum, hplaces.tidQueue]
    exact List.map_congr_left fun k _ => by rw [(hentry k).1, (hentry k).2]
  rw [hstatus, hview]
  exact h tid (by rw [← hplaces.transNum]; exact htid)

/-- A transaction with another status ends with the word of that status. -/
theorem AllFramed.statusChanged {tid : ℕ} {status : TxnStatus} (h : p.AllFramed beginStmt)
    (hwords : p.plan.commitStmt = "COMMIT" ∧ p.plan.abortStmt = "ROLLBACK")
    (hchanged : StatusChanged p p' tid status) : p'.AllFramed beginStmt := by
  intro u hu
  rw [hchanged.transNum] at hu
  have hframe := h u hu
  unfold view use at hframe ⊢
  rw [hchanged.plan, hchanged.txn]
  by_cases htid : u = tid
  · subst htid
    rw [if_pos rfl]
    have hkept : ∀ k, endsText (p.stmt k) = false → p'.stmt k = p.stmt k := by
      intro k hk
      refine (hchanged.kept k fun hend => ?_).1
      rw [endsTxn_eq hwords, hk] at hend
      cases hend.2.2
    refine (Bracketed.map_iff _).2 (((Bracketed.map_iff _).1 hframe).imp (fun k _ hfirst hin => ?_)
      (fun k _ hin => ?_) fun k hk hlast _ => ?_)
    · exact ⟨(hkept k hin).trans hfirst.1, hfirst.2⟩
    · rw [Function.comp_apply, hkept k hin]
      exact hin
    · obtain ⟨hk, hkt⟩ := RoundTest.mem_ofTxn.1 hk
      refine ⟨?_, hlast.2⟩
      have hends : p.plan.endsTxn (p.stmt k) = true := by
        rw [endsTxn_eq hwords, show p.stmt k = _ from hlast.1]
        exact endsText_endWord _
      show p'.stmt k = endWord status
      rw [(hchanged.replaced k ⟨hk, hkt, hends⟩).1, endStmt_eq hwords]
  · rw [if_neg htid]
    have hsame : ∀ k ∈ p.plan.ofTxn u (List.range p.plan.stmtNum),
        (p'.stmt k, p.plan.stmtUse k) = (p.stmt k, p.plan.stmtUse k) := by
      intro k hk
      refine congrArg (·, _) (hchanged.kept k fun hend => htid ?_).1
      rw [← (RoundTest.mem_ofTxn.1 hk).2, hend.2.1]
    rw [List.map_congr_left hsame]
    exact hframe

/-- The statements of a set without control statements become placeholders. -/
theorem AllFramed.placeHolders {changeSet : Finset ℕ} (h : p.AllFramed beginStmt)
    (hspared : ∀ k ∈ changeSet, ¬ p.IsControlStmt beginStmt k) :
    (p.placeHolders changeSet).AllFramed beginStmt := by
  intro tid htid
  have hentry : ∀ k, k ∉ changeSet →
      ((p.placeHolders changeSet).stmt k, (p.placeHolders changeSet).use k) = (p.stmt k, p.use k) := by
    intro k hk
    obtain ⟨-, huse, hstmt⟩ := p.placeHolders_kept hk
    rw [huse, hstmt]
  have hframe := (Bracketed.map_iff _).1 (h tid htid)
  refine (Bracketed.map_iff _).2 (hframe.imp (fun k hk hfirst _ => ?_) (fun k _ hin => ?_)
    fun k _ hlast _ => ?_)
  · have hout : k ∉ changeSet := fun hmem => hspared k hmem (Or.inl (by
      rw [(RoundTest.mem_ofTxn.1 hk).2]
      exact hfirst.1))
    rw [Function.comp_apply, hentry k hout]
    exact hfirst
  · by_cases hmem : k ∈ changeSet
    · have hstmt : (p.placeHolders changeSet).stmt k = spaceHolderStmt := if_pos hmem
      rw [Function.comp_apply, hstmt]
      exact endsText_spaceHolder
    · rw [Function.comp_apply, hentry k hmem]
      exact hin
  · have hout : k ∉ changeSet := fun hmem => hspared k hmem (Or.inr (by
      rw [show p.stmt k = _ from hlast.1]
      exact endsText_endWord _))
    rw [Function.comp_apply, hentry k hout]
    exact hlast

theorem RefineFramed.setTxn {tid pos : ℕ} {text : String} (h : RefineFramed beginStmt t p) :
    RefineFramed beginStmt t (p.setTxn tid fun x => { x with stmts := x.stmts.set pos text }) := by
  refine ⟨⟨h.places.transNum, h.places.stmtNum, h.places.tidQueue⟩, h.words,
    allFramed_of_same h.framed ⟨rfl, rfl, rfl⟩ (fun u => ?_) fun _ => ⟨rfl, rfl⟩, h.control,
    h.unchanged⟩
  rw [setTxn_txn]
  split_ifs with hu
  · rw [hu]
  · rfl

theorem RefineFramed.statusChanged {tid : ℕ} {status : TxnStatus} (h : RefineFramed beginStmt t p)
    (htid : tid < p.transNum) (hchanged : StatusChanged p p' tid status) :
    RefineFramed beginStmt t p' := by
  have huse : ∀ k, p'.use k = p.use k := fun k => by rw [use, hchanged.plan, use]
  refine ⟨hchanged.samePlaces h.places, by rw [hchanged.plan]; exact h.words,
    h.framed.statusChanged h.words hchanged, fun k hk => ?_, fun k hk hcast => ?_⟩
  · by_cases hend : k < p.plan.stmtNum ∧ p.plan.tidQueue k = tid ∧ p.plan.endsTxn (p.stmt k) = true
    · exact h.control k (Or.inr (by rw [← endsTxn_eq h.words]; exact hend.2.2))
    · refine h.control k ?_
      unfold IsControlStmt at hk ⊢
      rwa [(hchanged.kept k hend).1, hchanged.plan] at hk
  · rw [hchanged.plan] at hk
    by_cases hend : k < p.plan.stmtNum ∧ p.plan.tidQueue k = tid ∧ p.plan.endsTxn (p.stmt k) = true
    · -- what ends a transaction has no type
      have hcontrol := (h.framed _ (by rw [hend.2.1]; exact htid)).ends hk
        (by rw [← endsTxn_eq h.words]; exact hend.2.2)
      have hinit : (p.use k).stmtType = .initType := hcontrol.2.1
      rw [isTxnStmt, huse, (hchanged.replaced k hend).2, hinit] at hcast
      cases hcast
    · rw [isTxnStmt, huse, (hchanged.kept k hend).2] at hcast
      rw [huse]
      exact h.unchanged k hk hcast

theorem RefineFramed.placeHolders {changeSet : Finset ℕ} (h : RefineFramed beginStmt t p)
    (hbegin : ∀ tid, BeginWord (beginStmt tid))
    (hspared : ∀ k ∈ changeSet, ¬ t.IsControlStmt beginStmt k) :
    RefineFramed beginStmt t (p.placeHolders changeSet) := by
  refine ⟨h.places.placeHolders _, h.words,
    h.framed.placeHolders fun k hk hcontrol => hspared k hk (h.control k hcontrol),
    fun k hk => ?_, fun k hk hcast => ?_⟩
  · by_cases hmem : k ∈ changeSet
    · have hstmt : (p.placeHolders changeSet).stmt k = spaceHolderStmt := if_pos hmem
      unfold IsControlStmt at hk
      rw [hstmt, endsText_spaceHolder] at hk
      rcases hk with hk | hk
      · have hkept := (hbegin ((p.placeHolders changeSet).plan.tidQueue k)).kept
        rw [← hk] at hkept
        exact absurd hkept (by decide +kernel)
      · cases hk
    · refine h.control k ?_
      unfold IsControlStmt at hk ⊢
      rwa [(p.placeHolders_kept hmem).2.2] at hk
  · by_cases hmem : k ∈ changeSet
    · rw [(p.placeHolders_replaced hmem).1] at hcast
      cases hcast
    · obtain ⟨hflag, huse, -⟩ := p.placeHolders_kept hmem
      rw [isTxnStmt, hflag, huse] at hcast
      rw [huse]
      exact h.unchanged k hk hcast

/-- The rule for a refinement whose groups have no control statement. -/
theorem refineFramed_rule {q : AnalyzedQueue} {g : StmtGraph} {path : List StmtId}
    (hbegin : ∀ tid, BeginWord (beginStmt tid))
    (hspared : ∀ i, t.Dropped path i → ∀ k ∈ q.stmtSet g i, ¬ t.IsControlStmt beginStmt k) :
    RefineRule t q g path fun _ p => RefineFramed beginStmt t p where
  places _ _ hp := hp.places
  copy _ _ _ _ _ hp := hp.setTxn
  abort b p tid b' p' hp htid _ hchange := by
    obtain ⟨-, ⟨-, -, rfl⟩ | ⟨-, -, -, hchanged⟩⟩ := changeTxnStatus_spec hchange
    · exact hp
    · exact hp.statusChanged (by rw [hp.places.transNum]; exact htid) hchanged
  drop b p i hp hi hon hsid hcast hinst _ := by
    obtain ⟨hcast', hinst'⟩ := hp.unchanged i (by rw [hp.places.stmtNum]; exact hi) hcast
    exact hp.placeHolders hbegin (hspared i ⟨hi, hon, hsid, hcast', by rw [hinst', hinst]⟩)

theorem allFramed_refine {q : AnalyzedQueue} {g g' : StmtGraph} {path : List StmtId} {b : Bool}
    (hbegin : ∀ tid, BeginWord (beginStmt tid))
    (hwords : t.plan.commitStmt = "COMMIT" ∧ t.plan.abortStmt = "ROLLBACK")
    (h : t.AllFramed beginStmt)
    (hspared : ∀ i, t.Dropped path i → ∀ k ∈ q.stmtSet g i, ¬ t.IsControlStmt beginStmt k)
    (hrefine : t.refineStmtQueue q g path = .ok (b, g', p')) : p'.AllFramed beginStmt := by
  have h0 : RefineFramed beginStmt t t :=
    ⟨.refl t, hwords, h, fun _ hk => hk, fun _ _ hcast => ⟨hcast, rfl⟩⟩
  obtain ⟨p, hp, rfl⟩ := refineStmtQueue_rule (refineFramed_rule hbegin hspared) h0 hrefine
  split_ifs
  · exact hp.framed
  · exact hp.framed

end PlannedTest

end DbFuzz
