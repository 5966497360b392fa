import DbFuzz.TxCheck.ExecRecord
import Mathlib.Data.List.Sort

/-! The invariant of `trans_test` and its loops. `order` lists the statements in the
order they were pushed, `res` says how each was settled. -/

namespace DbFuzz

open Loop

/-- The entry of `real_stmt_queue` for a statement. -/
def Settled.stmt (r : Settled) (text : String) : String :=
  if r.skipped then spaceHolderStmt else text

/-- The entry of `real_stmt_usage` for a statement. -/
def Settled.usage (r : Settled) (u : StmtUsage) : StmtUsage :=
  if r.skipped then .mk' .initType u.isInstrumented else u

/-- The statements of a transaction among those of a list. -/
def TestPlan.ofTxn (p : TestPlan) (t : ℕ) (order : List ℕ) : List ℕ :=
  order.filter fun i => p.tidQueue i == t

structure RunInv (p : TestPlan) (planned : ℕ → String) (s : TransTest) (order : List ℕ)
    (res : ℕ → Settled) : Prop where
  status : ∀ i, i ∈ order ↔ s.statusQueue i = true
  below : ∀ i ∈ order, i < p.stmtNum
  nodup : order.Nodup
  ascending : order.Pairwise fun i j => p.tidQueue i = p.tidQueue j → i < j
  closed : ∀ j ∈ order, ∀ i < j, p.tidQueue i = p.tidQueue j → i ∈ order
  settled : ∀ i ∈ order, s.settled p i = some (res i)
  realTid : s.realTidQueue = order.map p.tidQueue
  realStmt : s.realStmtQueue = order.map fun i => (res i).stmt (s.stmtQueue i)
  realOutput : s.realOutputQueue = order.map fun i => (res i).output
  realUsage : s.realStmtUsage = order.map fun i => (res i).usage (p.stmtUse i)
  outputs : ∀ t, (s.transArr t).stmtOutputs = (p.ofTxn t order).map fun i => (res i).output
  errs : ∀ t, (s.transArr t).stmtErrInfo = (p.ofTxn t order).map fun i => (res i).err
  queue : ∀ i, s.stmtQueue i = planned i ∨
    isControl (planned i) p.commitStmt = true ∧ s.stmtQueue i = p.abortStmt

def Good (p : TestPlan) (planned : ℕ → String) (s : TransTest) : Prop :=
  ∃ order res, RunInv p planned s order res

namespace RunInv

variable {p : TestPlan} {planned : ℕ → String} {s s' : TransTest} {order : List ℕ}
  {res : ℕ → Settled}

/-- The invariant does not look at `is_blocked`. -/
theorem setBlocked (h : RunInv p planned s order res) (t : ℕ) (b : Bool) :
    RunInv p planned (s.setBlocked t b) order res := by
  have htxn : ∀ u, ((s.setBlocked t b).transArr u).stmtOutputs = (s.transArr u).stmtOutputs ∧
      ((s.setBlocked t b).transArr u).stmtErrInfo = (s.transArr u).stmtErrInfo := by
    intro u
    by_cases hu : u = t
    · subst hu; simp [TransTest.setBlocked, TransTest.modifyTxn]
    · simp [TransTest.setBlocked, TransTest.modifyTxn, hu]
  exact
    { h with
      outputs := fun u => (htxn u).1.trans (h.outputs u)
      errs := fun u => (htxn u).2.trans (h.errs u) }

theorem queue_frame {pos : ℕ} (h : RunInv p planned s order res) (hf : Frame p pos s s') (i : ℕ) :
    s'.stmtQueue i = planned i ∨
      isControl (planned i) p.commitStmt = true ∧ s'.stmtQueue i = p.abortStmt := by
  by_cases hi : i = pos
  · subst hi
    rcases hf.queuePos with he | ⟨hc, he⟩
    · rw [he]; exact h.queue i
    · rcases h.queue i with hq | ⟨hcp, -⟩
      · exact Or.inr ⟨hq ▸ hc, he⟩
      · exact Or.inr ⟨hcp, he⟩
  · rw [hf.queueOthers i hi]; exact h.queue i

/-- A call that leaves its statement open. -/
theorem blocked {pos : ℕ} {output : StmtOutput} (h : RunInv p planned s order res)
    (hpos : pos ∉ order) (hu : UnitSpec p pos s .blocked output s') :
    RunInv p planned s' order res := by
  obtain ⟨hf, hout⟩ := hu
  have hne : ∀ i ∈ order, i ≠ pos := fun i hi he => hpos (he ▸ hi)
  have htxn : ∀ t, (s'.transArr t).stmtOutputs = (s.transArr t).stmtOutputs ∧
      (s'.transArr t).stmtErrInfo = (s.transArr t).stmtErrInfo := by
    intro t
    by_cases ht : t = p.tidQueue pos
    · subst ht
      generalize he : Executed.blocked = e at hout
      cases hout with
      | blocked _ h1 h2 => exact ⟨h1, h2⟩
      | settled r => split at he <;> cases he
    · rw [hf.others t ht]; exact ⟨rfl, rfl⟩
  exact
    { h with
      status := fun i => by rw [hf.status]; exact h.status i
      settled := fun i hi => (hf.settledOthers i (hne i hi)).trans (h.settled i hi)
      realTid := hf.realTid.trans h.realTid
      realStmt := by
        rw [hf.realStmt, h.realStmt]
        exact List.map_congr_left fun i hi => by rw [hf.queueOthers i (hne i hi)]
      realOutput := hf.realOutput.trans h.realOutput
      realUsage := hf.realUsage.trans h.realUsage
      outputs := fun t => (htxn t).1.trans (h.outputs t)
      errs := fun t => (htxn t).2.trans (h.errs t)
      queue := h.queue_frame hf }

end RunInv

/-- What the caller pushes after a call that settled its statement. -/
def TransTest.push (s : TransTest) (p : TestPlan) (pos : ℕ) (isExecuted : Executed)
    (output : StmtOutput) : TransTest :=
  match isExecuted with
  | .executed => s.pushExecuted p pos output
  | .skipped => s.pushSkipped p pos output
  | .blocked => s

theorem push_settled (s : TransTest) (p : TestPlan) (pos : ℕ) (r : Settled) :
    s.push p pos (if r.skipped then .skipped else .executed) r.output =
      { s with
        statusQueue := Function.update s.statusQueue pos true
        realTidQueue := s.realTidQueue ++ [p.tidQueue pos]
        realStmtQueue := s.realStmtQueue ++ [r.stmt (s.stmtQueue pos)]
        realOutputQueue := s.realOutputQueue ++ [r.output]
        realStmtUsage := s.realStmtUsage ++ [r.usage (p.stmtUse pos)] } := by
  cases hr : r.skipped <;> simp [TransTest.push, TransTest.pushExecuted, TransTest.pushSkipped,
    Settled.stmt, Settled.usage, hr]

theorem map_update_of_notMem {β : Type} {order : List ℕ} {pos : ℕ} (hpos : pos ∉ order)
    (res : ℕ → Settled) (r : Settled) (f : ℕ → Settled → β) :
    (order ++ [pos]).map (fun i => f i (Function.update res pos r i)) =
      order.map (fun i => f i (res i)) ++ [f pos r] := by
  rw [List.map_append, List.map_singleton, Function.update_self]
  congr 1
  refine List.map_congr_left fun i hi => ?_
  have hne : i ≠ pos := fun he => hpos (he ▸ hi)
  rw [Function.update_of_ne hne]

theorem ofTxn_map_push {β : Type} {p : TestPlan} {order : List ℕ} {pos : ℕ} (hpos : pos ∉ order)
    (res : ℕ → Settled) (r : Settled) (f : Settled → β) (t : ℕ) :
    (p.ofTxn t (order ++ [pos])).map (fun i => f (Function.update res pos r i)) =
      (p.ofTxn t order).map (fun i => f (res i)) ++ if p.tidQueue pos = t then [f r] else [] := by
  have hmem : pos ∉ p.ofTxn t order := fun hin => hpos (List.mem_of_mem_filter hin)
  by_cases ht : p.tidQueue pos = t
  · have happ : p.ofTxn t (order ++ [pos]) = p.ofTxn t order ++ [pos] := by
      simp [TestPlan.ofTxn, List.filter_append, ht]
    rw [happ, if_pos ht, map_update_of_notMem hmem res r fun _ r => f r]
  · have happ : p.ofTxn t (order ++ [pos]) = p.ofTxn t order := by
      simp [TestPlan.ofTxn, List.filter_append, ht]
    rw [happ, if_neg ht, List.append_nil]
    refine List.map_congr_left fun i hi => ?_
    have hne : i ≠ pos := fun he => hmem (he ▸ hi)
    rw [Function.update_of_ne hne]

/-- A call that settles the next statement of its transaction, and the pushes after it. -/
theorem RunInv.push {p : TestPlan} {planned : ℕ → String} {s s' : TransTest} {order : List ℕ}
    {res : ℕ → Settled} {pos : ℕ} {isExecuted : Executed} {output : StmtOutput}
    (h : RunInv p planned s order res) (hpos : pos ∉ order) (hlt : pos < p.stmtNum)
    (hprev : ∀ i < pos, p.tidQueue i = p.tidQueue pos → i ∈ order)
    (hu : UnitSpec p pos s isExecuted output s') (hne : isExecuted ≠ .blocked) :
    ∃ r, RunInv p planned (s'.push p pos isExecuted output) (order ++ [pos])
      (Function.update res pos r) := by
  obtain ⟨hf, hout⟩ := hu
  cases hout with
  | blocked => exact absurd rfl hne
  | settled r hr houtputs herrs =>
    refine ⟨r, ?_⟩
    rw [push_settled]
    have hold : ∀ i ∈ order, i ≠ pos := fun i hi he => hpos (he ▸ hi)
    have hqueue := h.queue_frame hf
    refine
      { status := ?_, below := ?_, nodup := ?_, ascending := ?_, closed := ?_, settled := ?_,
        realTid := ?_, realStmt := ?_, realOutput := ?_, realUsage := ?_, outputs := ?_, errs := ?_,
        queue := ?_ }
    · intro i
      by_cases hi : i = pos
      · subst hi; simp
      · simp [hi, hf.status, h.status i]
    · intro i hi
      rcases List.mem_append.1 hi with hi | hi
      · exact h.below i hi
      · rw [List.mem_singleton.1 hi]; exact hlt
    · exact List.nodup_append.2 ⟨h.nodup, by simp, by simpa using fun i hi => hold i hi⟩
    · refine List.pairwise_append.2 ⟨h.ascending, by simp, ?_⟩
      intro i hi j hj htid
      rw [List.mem_singleton.1 hj] at htid ⊢
      by_contra hge
      have hgt : pos < i := by have := hold i hi; omega
      exact hpos (h.closed i hi pos hgt htid.symm)
    · intro j hj i hij htid
      rcases List.mem_append.1 hj with hj | hj
      · exact List.mem_append_left _ (h.closed j hj i hij htid)
      · rw [List.mem_singleton.1 hj] at hij htid
        exact List.mem_append_left _ (hprev i hij htid)
    · intro i hi
      rcases List.mem_append.1 hi with hi | hi
      · rw [Function.update_of_ne (hold i hi)]
        exact (hf.settledOthers i (hold i hi)).trans (h.settled i hi)
      · rw [List.mem_singleton.1 hi, Function.update_self]; exact hr
    · simp [hf.realTid, h.realTid]
    · rw [map_update_of_notMem hpos res r fun i r => r.stmt (s'.stmtQueue i)]
      simp only [hf.realStmt, h.realStmt]
      congr 1
      exact List.map_congr_left fun i hi => by rw [hf.queueOthers i (hold i hi)]
    · rw [map_update_of_notMem hpos res r fun _ r => r.output, ← h.realOutput, ← hf.realOutput]
    · rw [map_update_of_notMem hpos res r fun i r => r.usage (p.stmtUse i), ← h.realUsage,
        ← hf.realUsage]
    · intro t
      rw [ofTxn_map_push hpos res r Settled.output t, ← h.outputs t]
      by_cases ht : p.tidQueue pos = t
      · rw [if_pos ht, ← ht]; exact houtputs
      · rw [if_neg ht, List.append_nil]; exact congrArg _ (hf.others t (Ne.symm ht))
    · intro t
      rw [ofTxn_map_push hpos res r Settled.err t, ← h.errs t]
      by_cases ht : p.tidQueue pos = t
      · rw [if_pos ht, ← ht]; exact herrs
      · rw [if_neg ht, List.append_nil]; exact congrArg _ (hf.others t (Ne.symm ht))
    · exact hqueue

/-! Rounds of the loops. -/

/-- A round that made a call for `pos`. -/
structure Stepped (p : TestPlan) (planned : ℕ → String) (pos : ℕ) (s : TransTest) (e : Executed)
    (s' : TransTest) : Prop where
  good : Good p planned s'
  status : ∀ j, s'.statusQueue j = true ↔ (j = pos ∧ e ≠ .blocked) ∨ s.statusQueue j = true
  isBlocked : ∀ t, (s'.transArr t).isBlocked =
    if t = p.tidQueue pos then decide (e = .blocked) else (s.transArr t).isBlocked

/-- The statements before `cur` of unblocked transactions are done. -/
def Front (p : TestPlan) (cur : ℕ) (s : TransTest) : Prop :=
  ∀ j < cur, (s.transArr (p.tidQueue j)).isBlocked = false → s.statusQueue j = true

/-- Nothing is undone, and only statements before `cur` are done in between. -/
structure Grows (cur : ℕ) (s s' : TransTest) : Prop where
  mono : ∀ j, s.statusQueue j = true → s'.statusQueue j = true
  below : ∀ j, s'.statusQueue j = true → s.statusQueue j = true ∨ j < cur

theorem Grows.refl (cur : ℕ) (s : TransTest) : Grows cur s s := ⟨fun _ h => h, fun _ h => Or.inl h⟩

theorem Grows.trans {cur cur' : ℕ} {s s' s'' : TransTest} (h : Grows cur s s')
    (h' : Grows cur' s' s'') (hle : cur' ≤ cur) : Grows cur s s'' where
  mono j hj := h'.mono j (h.mono j hj)
  below j hj := by
    rcases h'.below j hj with hj | hj
    · exact h.below j hj
    · exact Or.inr (by omega)

theorem Stepped.grows {p : TestPlan} {planned : ℕ → String} {pos cur : ℕ} {s s' : TransTest}
    {e : Executed} (h : Stepped p planned pos s e s') (hlt : pos < cur) : Grows cur s s' where
  mono j hj := (h.status j).2 (Or.inr hj)
  below j hj := by
    rcases (h.status j).1 hj with ⟨rfl, -⟩ | hj
    · exact Or.inr hlt
    · exact Or.inl hj

/-- The call for the next open statement of a transaction, the pushes and the block
flag that every loop ends up with. -/
theorem stepped_of_unit {p : TestPlan} {planned : ℕ → String} {pos : ℕ} {s s' : TransTest}
    {e : Executed} {output : StmtOutput} (hg : Good p planned s) (hlt : pos < p.stmtNum)
    (hopen : s.statusQueue pos ≠ true)
    (hprev : ∀ i < pos, p.tidQueue i = p.tidQueue pos → s.statusQueue i = true)
    (h : transTestUnit p pos s = .ok (e, output, s')) :
    Stepped p planned pos s e
      ((s'.push p pos e output).setBlocked (p.tidQueue pos) (decide (e = .blocked))) := by
  obtain ⟨order, res, hinv⟩ := hg
  have hu := transTestUnit_spec h
  have hpos : pos ∉ order := fun hin => hopen ((hinv.status pos).1 hin)
  have htransArr : (s'.push p pos e output).transArr = s'.transArr := by cases e <;> rfl
  refine ⟨?_, ?_, ?_⟩
  · by_cases he : e = .blocked
    · subst he
      exact ⟨order, res, (hinv.blocked hpos hu).setBlocked _ _⟩
    · obtain ⟨r, hr⟩ := hinv.push hpos hlt
        (fun i hi ht => (hinv.status i).2 (hprev i hi ht)) hu he
      exact ⟨_, _, hr.setBlocked _ _⟩
  · intro j
    have hstatus : ((s'.push p pos e output).setBlocked (p.tidQueue pos)
        (decide (e = .blocked))).statusQueue = (s'.push p pos e output).statusQueue := rfl
    rw [hstatus, ← hu.frame.status]
    cases e with
    | blocked => simp [TransTest.push]
    | executed | skipped =>
      by_cases hj : j = pos
      · subst hj; simp [TransTest.push, TransTest.pushExecuted, TransTest.pushSkipped]
      · simp [TransTest.push, TransTest.pushExecuted, TransTest.pushSkipped, hj]
  · intro t
    by_cases ht : t = p.tidQueue pos
    · subst ht; simp [TransTest.setBlocked, TransTest.modifyTxn]
    · simp [TransTest.setBlocked, TransTest.modifyTxn, ht, htransArr, hu.frame.isBlocked t]

/-- A round of the first retry loop that makes a call. -/
theorem retryFirst_eq (p : TestPlan) (i : ℕ) (tried : List ℕ) (s : TransTest)
    (hopen : s.statusQueue i = false) (hblocked : (s.transArr (p.tidQueue i)).isBlocked = true)
    (htried : p.tidQueue i ∉ tried) :
    retryFirst p i (tried, s) = do
      let (e, output, s') ← transTestUnit p i s
      return (p.tidQueue i :: tried,
        (s'.push p i e output).setBlocked (p.tidQueue i) (decide (e = .blocked))) := by
  simp only [retryFirst, hopen, hblocked, htried, Bool.false_eq_true, Bool.not_true, reduceIte]
  congr 1
  funext ⟨e, output, s'⟩
  cases e <;> rfl

theorem retryNext_eq (p : TestPlan) (retry : ℕ → TransTest → Except Failure TransTest) (i : ℕ)
    (s : TransTest) (hopen : s.statusQueue i = false)
    (hblocked : (s.transArr (p.tidQueue i)).isBlocked = false) :
    retryNext p retry i s = do
      let (e, output, s') ← transTestUnit p i s
      let s' := (s'.push p i e output).setBlocked (p.tidQueue i) (decide (e = .blocked))
      if e = .executed ∧ p.endsTxn (s'.stmtQueue i) then retry i s' else return s' := by
  simp only [retryNext, hopen, hblocked, Bool.false_eq_true, reduceIte]
  congr 1
  funext ⟨e, output, s'⟩
  cases e with
  | executed => simp only [true_and]; rfl
  | _ => rfl

theorem mainRound_eq (p : TestPlan) (i : ℕ) (s : TransTest)
    (hblocked : (s.transArr (p.tidQueue i)).isBlocked = false) :
    mainRound p i s = do
      let (e, output, s') ← transTestUnit p i s
      let s' := (s'.push p i e output).setBlocked (p.tidQueue i) (decide (e = .blocked))
      if e = .executed ∧ p.endsTxn (s'.stmtQueue i) then retryBlockStmt p i s' else return s' := by
  simp only [mainRound, hblocked, Bool.false_eq_true, reduceIte]
  cases hu : transTestUnit p i s with
  | error e => rfl
  | ok r =>
    obtain ⟨e, output, s'⟩ := r
    have hf := (transTestUnit_spec hu).frame.isBlocked (p.tidQueue i)
    -- the flag is already false, so that setting it changes nothing
    have hself : ∀ t : TransTest, (t.transArr (p.tidQueue i)).isBlocked = false →
        t.setBlocked (p.tidQueue i) false = t := by
      intro t ht
      have htxn : { t.transArr (p.tidQueue i) with isBlocked := false } =
          t.transArr (p.tidQueue i) := by rw [← ht]
      simp [TransTest.setBlocked, TransTest.modifyTxn, htxn]
    cases e with
    | blocked => rfl
    | executed =>
      have hs := hself (s'.pushExecuted p i output) (hf.trans hblocked)
      simp only [bind, Except.bind, TransTest.push, reduceCtorEq, decide_false, hs, true_and]
    | skipped =>
      have hs := hself (s'.pushSkipped p i output) (hf.trans hblocked)
      simp only [bind, Except.bind, TransTest.push, reduceCtorEq, decide_false, hs, false_and,
        reduceIte]

/-! The loops. -/

/-- Of each transaction not yet tried, the statements before `i` are done if it is
blocked. -/
def FirstInv (p : TestPlan) (planned : ℕ → String) (cur : ℕ) (s0 : TransTest) (i : ℕ)
    (st : List ℕ × TransTest) : Prop :=
  Good p planned st.2 ∧ Grows cur s0 st.2 ∧ ∀ j < i, p.tidQueue j ∉ st.1 →
    (st.2.transArr (p.tidQueue j)).isBlocked = true → st.2.statusQueue j = true

theorem retryFirst_step {p : TestPlan} {planned : ℕ → String} {cur i : ℕ} {s0 : TransTest}
    {st st' : List ℕ × TransTest} (hcur : cur ≤ p.stmtNum) (hi : i < cur)
    (hinv : FirstInv p planned cur s0 i st) (h : retryFirst p i st = .ok st') :
    FirstInv p planned cur s0 (i + 1) st' := by
  obtain ⟨tried, s⟩ := st
  obtain ⟨hgood, hgrows, hdone⟩ := hinv
  -- a round that makes no call leaves everything as it is
  have hkeep : (p.tidQueue i ∉ tried → (s.transArr (p.tidQueue i)).isBlocked = true →
      s.statusQueue i = true) → FirstInv p planned cur s0 (i + 1) (tried, s) := by
    intro hself
    refine ⟨hgood, hgrows, fun j hj => ?_⟩
    rcases Nat.lt_succ_iff_lt_or_eq.1 hj with hj | rfl
    · exact hdone j hj
    · exact hself
  by_cases hopen : s.statusQueue i = true
  · simp only [retryFirst, hopen, reduceIte, Except.ok.injEq] at h
    exact h ▸ hkeep fun _ _ => hopen
  by_cases hblocked : (s.transArr (p.tidQueue i)).isBlocked = true
  swap
  · simp only [retryFirst, hopen, hblocked, Bool.not_false, reduceIte, Bool.false_eq_true,
      Except.ok.injEq] at h
    exact h ▸ hkeep fun _ hb => absurd hb hblocked
  by_cases htried : p.tidQueue i ∈ tried
  · simp only [retryFirst, hopen, hblocked, htried, Bool.not_true, reduceIte, Bool.false_eq_true,
      Except.ok.injEq] at h
    exact h ▸ hkeep fun hn _ => absurd htried hn
  rw [retryFirst_eq p i tried s (by simpa using hopen) hblocked htried] at h
  obtain ⟨⟨e, output, s'⟩, hunit, h⟩ := bind_eq_ok_iff.1 h
  cases h
  have hstep := stepped_of_unit hgood (by omega) hopen
    (fun j hj ht => hdone j hj (by rw [ht]; exact htried) (by rw [ht]; exact hblocked)) hunit
  refine ⟨hstep.good, hgrows.trans (hstep.grows hi) le_rfl, fun j hj hnot hb => ?_⟩
  simp only [List.mem_cons, not_or] at hnot
  have hlt : j < i := by
    rcases Nat.lt_succ_iff_lt_or_eq.1 hj with hj | rfl
    · exact hj
    · exact absurd rfl hnot.1
  have hbs := hstep.isBlocked (p.tidQueue j)
  rw [if_neg hnot.1] at hbs
  exact (hstep.status j).2 (Or.inr (hdone j hlt hnot.2 (hbs.symm.trans hb)))

/-- What a call of `retry_block_stmt` promises. -/
structure RetrySpec (p : TestPlan) (planned : ℕ → String) (cur : ℕ) (s s' : TransTest) : Prop where
  good : Good p planned s'
  grows : Grows cur s s'
  front : Front p cur s'

theorem Front.succ {p : TestPlan} {i : ℕ} {s : TransTest} (h : Front p i s)
    (hi : (s.transArr (p.tidQueue i)).isBlocked = false → s.statusQueue i = true) :
    Front p (i + 1) s := by
  intro j hj
  rcases Nat.lt_succ_iff_lt_or_eq.1 hj with hj | rfl
  · exact h j hj
  · exact hi

/-- After a call for `pos` the front moves past it: a blocked answer blocks the
transaction, any other one settles the statement. -/
theorem Stepped.front {p : TestPlan} {planned : ℕ → String} {pos : ℕ} {s s' : TransTest}
    {e : Executed} (h : Stepped p planned pos s e s') (hfront : Front p pos s)
    (hblocked : (s.transArr (p.tidQueue pos)).isBlocked = false) : Front p (pos + 1) s' := by
  have hpos : (s'.transArr (p.tidQueue pos)).isBlocked = false → s'.statusQueue pos = true := by
    intro hb
    rw [h.isBlocked, if_pos rfl, decide_eq_false_iff_not] at hb
    exact (h.status pos).2 (Or.inl ⟨rfl, hb⟩)
  refine Front.succ (fun j hj hb => ?_) hpos
  refine (h.status j).2 (Or.inr (hfront j hj ?_))
  rw [h.isBlocked] at hb
  split_ifs at hb with ht
  · rw [ht]; exact hblocked
  · exact hb

/-- The common tail of a round: after a commit or abort the earlier statements are
retried. -/
theorem retry_after {p : TestPlan} {planned : ℕ → String} {i : ℕ} {s s1 s' : TransTest}
    {e : Executed} {retry : ℕ → TransTest → Except Failure TransTest} (hfront : Front p i s)
    (hblocked : (s.transArr (p.tidQueue i)).isBlocked = false)
    (hstep : Stepped p planned i s e s1)
    (hretry : ∀ t t', Good p planned t → retry i t = .ok t' → RetrySpec p planned i t t')
    (h : (if e = .executed ∧ p.endsTxn (s1.stmtQueue i) then retry i s1 else return s1) = .ok s') :
    Good p planned s' ∧ Grows (i + 1) s s' ∧ Front p (i + 1) s' := by
  split_ifs at h with hend
  · obtain ⟨hgood, hgrows, hfr⟩ := hretry _ _ hstep.good h
    refine ⟨hgood, (hstep.grows (by omega)).trans hgrows (by omega), hfr.succ fun _ => ?_⟩
    exact hgrows.mono i ((hstep.status i).2 (Or.inl ⟨rfl, by rw [hend.1]; decide⟩))
  · cases h
    exact ⟨hstep.good, hstep.grows (by omega), hstep.front hfront hblocked⟩

theorem retryNext_step {p : TestPlan} {planned : ℕ → String} {cur i : ℕ} {s0 s s' : TransTest}
    {retry : ℕ → TransTest → Except Failure TransTest} (hcur : cur ≤ p.stmtNum) (hi : i < cur)
    (hretry : ∀ t t', Good p planned t → retry i t = .ok t' → RetrySpec p planned i t t')
    (hinv : Good p planned s ∧ Grows cur s0 s ∧ Front p i s)
    (h : retryNext p retry i s = .ok s') :
    Good p planned s' ∧ Grows cur s0 s' ∧ Front p (i + 1) s' := by
  obtain ⟨hgood, hgrows, hfront⟩ := hinv
  by_cases hblocked : (s.transArr (p.tidQueue i)).isBlocked = true
  · simp only [retryNext, hblocked, reduceIte, Except.ok.injEq] at h
    exact h ▸ ⟨hgood, hgrows, hfront.succ fun hb => absurd (hb.symm.trans hblocked) (by decide)⟩
  by_cases hopen : s.statusQueue i = true
  · simp only [retryNext, hblocked, hopen, reduceIte, Bool.false_eq_true, Except.ok.injEq] at h
    exact h ▸ ⟨hgood, hgrows, hfront.succ fun _ => hopen⟩
  rw [Bool.not_eq_true] at hblocked
  rw [retryNext_eq p retry i s (by simpa using hopen) hblocked] at h
  obtain ⟨⟨e, output, s1⟩, hunit, h⟩ := bind_eq_ok_iff.1 h
  have hstep := stepped_of_unit hgood (by omega) hopen
    (fun j hj ht => hfront j hj (by rw [ht]; exact hblocked)) hunit
  obtain ⟨hg, hgr, hf⟩ := retry_after hfront hblocked hstep hretry h
  exact ⟨hg, hgrows.trans hgr (by omega), hf⟩

theorem retryDepth_spec {p : TestPlan} {planned : ℕ → String} (depth : ℕ) :
    ∀ cur ≤ p.stmtNum, ∀ s s', Good p planned s → retryDepth p depth cur s = .ok s' →
      RetrySpec p planned cur s s' := by
  induction depth with
  | zero => intro cur _ s s' _ h; cases h
  | succ depth ih =>
    intro cur hcur s s' hgood h
    obtain ⟨⟨tried, s1⟩, hfirst, hnext⟩ := bind_eq_ok_iff.1 h
    have h1 := forRange_inv (FirstInv p planned cur s)
      ⟨hgood, Grows.refl cur s, fun j hj => absurd hj (by omega)⟩
      (fun i hi st st' hst => retryFirst_step hcur hi hst) hfirst
    have h2 := forRange_inv
      (fun i t => Good p planned t ∧ Grows cur s t ∧ Front p i t)
      ⟨h1.1, h1.2.1, fun j hj => absurd hj (by omega)⟩
      (fun i hi t t' ht => retryNext_step hcur hi (ih i (by omega)) ht) hnext
    exact ⟨h2.1, h2.2.1, h2.2.2⟩

theorem retryBlockStmt_spec {p : TestPlan} {planned : ℕ → String} {cur : ℕ} {s s' : TransTest}
    (hcur : cur ≤ p.stmtNum) (hgood : Good p planned s) (h : retryBlockStmt p cur s = .ok s') :
    RetrySpec p planned cur s s' :=
  retryDepth_spec (cur + 1) cur hcur s s' hgood h

/-- The main loop has done nothing beyond its index. -/
theorem mainRound_step {p : TestPlan} {planned : ℕ → String} {i : ℕ} {s s' : TransTest}
    (hi : i < p.stmtNum)
    (hinv : Good p planned s ∧ Front p i s ∧ ∀ j, s.statusQueue j = true → j < i)
    (h : mainRound p i s = .ok s') :
    Good p planned s' ∧ Front p (i + 1) s' ∧ ∀ j, s'.statusQueue j = true → j < i + 1 := by
  obtain ⟨hgood, hfront, hbelow⟩ := hinv
  by_cases hblocked : (s.transArr (p.tidQueue i)).isBlocked = true
  · simp only [mainRound, hblocked, reduceIte, Except.ok.injEq] at h
    subst h
    exact ⟨hgood, hfront.succ fun hb => absurd (hb.symm.trans hblocked) (by decide),
      fun j hj => Nat.lt_succ_of_lt (hbelow j hj)⟩
  rw [Bool.not_eq_true] at hblocked
  rw [mainRound_eq p i s hblocked] at h
  obtain ⟨⟨e, output, s1⟩, hunit, h⟩ := bind_eq_ok_iff.1 h
  have hstep := stepped_of_unit hgood hi (fun ho => absurd (hbelow i ho) (by omega))
    (fun j hj ht => hfront j hj (by rw [ht]; exact hblocked)) hunit
  obtain ⟨hg, hgr, hf⟩ := retry_after hfront hblocked hstep
    (fun t t' ht hr => retryBlockStmt_spec (by omega) ht hr) h
  refine ⟨hg, hf, fun j hj => ?_⟩
  rcases hgr.below j hj with hj | hj
  · exact Nat.lt_succ_of_lt (hbelow j hj)
  · exact hj

theorem finishLoop_good {p : TestPlan} {planned : ℕ → String} (fuel : ℕ) :
    ∀ executed noChange s s', Good p planned s → finishLoop p fuel executed noChange s = .ok s' →
      Good p planned s' := by
  induction fuel with
  | zero => intro executed noChange s s' _ h; cases h
  | succ fuel ih =>
    intro executed noChange s s' hgood h
    rw [finishLoop] at h
    by_cases hdone : p.stmtNum ≤ executed
    · rw [if_pos hdone] at h
      cases h
      exact hgood
    rw [if_neg hdone] at h
    obtain ⟨s1, hretry, h⟩ := bind_eq_ok_iff.1 h
    have hg := (retryBlockStmt_spec le_rfl hgood hretry).good
    dsimp only at h
    split at h
    · cases h; exact hg
    · split at h
      · split at h
        · cases h; exact hg
        · exact ih _ _ _ _ hg h
      · exact ih _ _ _ _ hg h

/-! The fuel is never used up. -/

theorem retryPass_congr {p : TestPlan} {r r' : ℕ → TransTest → Except Failure TransTest} {cur : ℕ}
    (h : ∀ i < cur, ∀ t, r i t = r' i t) (s : TransTest) :
    retryPass p r cur s = retryPass p r' cur s := by
  unfold retryPass
  congr 1
  funext ⟨_, t⟩
  refine forRange_congr (fun i hi t => ?_) t
  unfold retryNext
  simp only [h i hi]

theorem retryDepth_stable (p : TestPlan) (cur : ℕ) :
    ∀ depth, cur < depth → ∀ s, retryDepth p depth cur s = retryBlockStmt p cur s := by
  induction cur using Nat.strong_induction_on with
  | _ cur ih =>
    intro depth hdepth s
    obtain ⟨d, rfl⟩ : ∃ d, depth = d + 1 := ⟨depth - 1, by omega⟩
    refine retryPass_congr (fun i hi t => ?_) s
    rw [ih i hi d (by omega) t, ih i hi cur hi t]

/-- `retry_block_stmt` calls itself. -/
theorem retryBlockStmt_eq (p : TestPlan) (cur : ℕ) (s : TransTest) :
    retryBlockStmt p cur s = retryPass p (retryBlockStmt p) cur s :=
  retryPass_congr (fun i hi t => retryDepth_stable p i cur hi t) s

theorem transTestUnit_ne_outOfFuel (p : TestPlan) (pos : ℕ) (s : TransTest) :
    transTestUnit p pos s ≠ .error .outOfFuel := by
  simp only [transTestUnit]
  repeat' split
  all_goals simp

theorem retryBlockStmt_ne_outOfFuel (p : TestPlan) (cur : ℕ) :
    ∀ s, retryBlockStmt p cur s ≠ .error .outOfFuel := by
  induction cur using Nat.strong_induction_on with
  | _ cur ih =>
    intro s
    rw [retryBlockStmt_eq]
    refine bind_ne_error (forRange_ne_error (fun i _ st => ?_) _)
      fun st _ => forRange_ne_error (fun i hi t => ?_) _
    · obtain ⟨tried, t⟩ := st
      simp only [retryFirst]
      split
      · simp
      split
      · simp
      split
      · simp
      refine bind_ne_error (transTestUnit_ne_outOfFuel p i _) fun r _ => ?_
      split <;> simp [pure, Except.pure]
    · simp only [retryNext]
      split
      · simp
      split
      · simp
      refine bind_ne_error (transTestUnit_ne_outOfFuel p i _) fun r _ => ?_
      split
      · split
        · exact ih i hi _
        · simp [pure, Except.pure]
      · simp [pure, Except.pure]
      · simp [pure, Except.pure]

theorem mainRound_ne_outOfFuel (p : TestPlan) (i : ℕ) (s : TransTest) :
    mainRound p i s ≠ .error .outOfFuel := by
  simp only [mainRound]
  split
  · simp
  refine bind_ne_error (transTestUnit_ne_outOfFuel p i _) fun r _ => ?_
  split
  · simp [pure, Except.pure]
  · simp [pure, Except.pure]
  · split
    · exact retryBlockStmt_ne_outOfFuel p i _
    · simp [pure, Except.pure]

theorem executedNum_mono {p : TestPlan} {cur : ℕ} {s s' : TransTest} (h : Grows cur s s') :
    executedNum p s ≤ executedNum p s' :=
  List.countP_mono_left fun i _ hi => h.mono i hi

/-- Each round of the finishing loop executes a statement or counts in `no_change`. -/
theorem finishLoop_ne_outOfFuel {p : TestPlan} {planned : ℕ → String} (fuel : ℕ) :
    ∀ noChange s, Good p planned s → noChange ≤ 2 →
      (p.stmtNum - executedNum p s) + (3 - noChange) < fuel →
      finishLoop p fuel (executedNum p s) noChange s ≠ .error .outOfFuel := by
  induction fuel with
  | zero => intro noChange s _ _ hfuel; omega
  | succ fuel ih =>
    intro noChange s hgood hno hfuel
    rw [finishLoop]
    by_cases hdone : p.stmtNum ≤ executedNum p s
    · rw [if_pos hdone]; simp
    rw [if_neg hdone]
    cases hr : retryBlockStmt p p.stmtNum s with
    | error e =>
      have := retryBlockStmt_ne_outOfFuel p p.stmtNum s
      rw [hr] at this
      exact this
    | ok s1 =>
      have hspec := retryBlockStmt_spec le_rfl hgood hr
      have hmono := executedNum_mono (p := p) hspec.grows
      simp only [bind, Except.bind]
      split
      · simp [pure, Except.pure]
      · split
        · split
          · simp [pure, Except.pure]
          · exact ih _ _ hspec.good (by omega) (by omega)
        · exact ih _ _ hspec.good hno (by omega)

/-! The whole run. -/

theorem good_cleared {p : TestPlan} {s : TransTest} (hclear : s.Cleared) :
    Good p s.stmtQueue { s with statusQueue := fun _ => false } :=
  ⟨[], fun _ => ⟨false, [], ""⟩,
    { status := by simp, below := by simp, nodup := List.nodup_nil, ascending := List.Pairwise.nil
      closed := by simp, settled := by simp, realTid := hclear.real.1, realStmt := hclear.real.2.1
      realOutput := hclear.real.2.2.1, realUsage := hclear.real.2.2.2, outputs := hclear.outputs
      errs := hclear.errs, queue := fun _ => Or.inl rfl }⟩

theorem mainLoop_good {p : TestPlan} {s s' : TransTest} (hclear : s.Cleared)
    (h : forRange p.stmtNum (mainRound p) { s with statusQueue := fun _ => false } = .ok s') :
    Good p s.stmtQueue s' :=
  (forRange_inv (fun i t => Good p s.stmtQueue t ∧ Front p i t ∧ ∀ j, t.statusQueue j = true → j < i)
    ⟨good_cleared hclear, fun j hj => absurd hj (by omega), by simp⟩
    (fun i hi t t' ht => mainRound_step hi ht) h).1

/-- `trans_test` ends: with a result, or with an exception of the source. -/
theorem transTest_ne_outOfFuel {p : TestPlan} {s : TransTest} (hclear : s.Cleared) :
    transTest p s ≠ .error .outOfFuel := by
  refine bind_ne_error (forRange_ne_error (fun i _ t => mainRound_ne_outOfFuel p i t) _)
    fun s1 hmain => ?_
  have hfin := finishLoop_ne_outOfFuel (p.stmtNum + 4) 0 s1 (mainLoop_good hclear hmain)
  refine bind_ne_error (hfin (by omega) (by omega)) fun s2 _ => ?_
  split
  · simp [throw, throwThe, MonadExceptOf.throw]
  · split
    · simp [throw, throwThe, MonadExceptOf.throw]
    · simp [pure, Except.pure]

/-- A complete run: `order` is the common order of the four real queues, and `res` is
what the last call for each statement made of it. -/
structure RunRecord (p : TestPlan) (planned : ℕ → String) (s : TransTest) (order : List ℕ)
    (res : ℕ → Settled) : Prop where
  perm : order.Perm (List.range p.stmtNum)
  ascending : order.Pairwise fun i j => p.tidQueue i = p.tidQueue j → i < j
  settled : ∀ i < p.stmtNum, s.settled p i = some (res i)
  queue : ∀ i, s.stmtQueue i = planned i ∨
    isControl (planned i) p.commitStmt = true ∧ s.stmtQueue i = p.abortStmt
  realTid : s.realTidQueue = order.map p.tidQueue
  realStmt : s.realStmtQueue = order.map fun i => (res i).stmt (s.stmtQueue i)
  realOutput : s.realOutputQueue = order.map fun i => (res i).output
  realUsage : s.realStmtUsage = order.map fun i => (res i).usage (p.stmtUse i)
  outputs : ∀ t, (s.transArr t).stmtOutputs =
    (p.ofTxn t (List.range p.stmtNum)).map fun i => (res i).output
  errs : ∀ t, (s.transArr t).stmtErrInfo =
    (p.ofTxn t (List.range p.stmtNum)).map fun i => (res i).err

/-- The pushed statements of a transaction are its planned ones, in planned order. -/
theorem ofTxn_eq_of_perm {p : TestPlan} {order : List ℕ} (hperm : order.Perm (List.range p.stmtNum))
    (hasc : order.Pairwise fun i j => p.tidQueue i = p.tidQueue j → i < j) (t : ℕ) :
    p.ofTxn t order = p.ofTxn t (List.range p.stmtNum) := by
  have hanti : ∀ a b, a ∈ p.ofTxn t order → b ∈ p.ofTxn t (List.range p.stmtNum) →
      a < b → b < a → a = b := fun a b _ _ h h' => by omega
  refine (hperm.filter _).eq_of_pairwise hanti ?_ ?_
  · refine (List.Pairwise.filter _ hasc).imp_of_mem fun {i j} hi hj h => h ?_
    have hti := (List.mem_filter.1 hi).2
    have htj := (List.mem_filter.1 hj).2
    simp only [beq_iff_eq] at hti htj
    exact hti.trans htj.symm
  · exact List.Pairwise.filter _ List.pairwise_lt_range

/-- A run that returns has executed every statement. -/
theorem transTest_status {p : TestPlan} {s s' : TransTest} (h : transTest p s = .ok s') :
    ∀ i < p.stmtNum, s'.statusQueue i = true := by
  obtain ⟨s1, -, h⟩ := bind_eq_ok_iff.1 h
  obtain ⟨s2, -, h⟩ := bind_eq_ok_iff.1 h
  split at h
  · cases h
  rename_i hall
  split at h
  · cases h
  cases h
  simpa using hall

/-- A run of `trans_test` that returns has settled every planned statement once, in
the order of its transaction, with its results in its place. -/
theorem transTest_record {p : TestPlan} {s s' : TransTest} (hclear : s.Cleared)
    (h : transTest p s = .ok s') : ∃ order res, RunRecord p s.stmtQueue s' order res := by
  have hstatus := transTest_status h
  obtain ⟨s1, hmain, h⟩ := bind_eq_ok_iff.1 h
  obtain ⟨s2, hfin, h⟩ := bind_eq_ok_iff.1 h
  obtain ⟨order, res, hinv⟩ := finishLoop_good _ _ _ _ _ (mainLoop_good hclear hmain) hfin
  split at h
  · cases h
  split at h
  · cases h
  cases h
  have hperm : order.Perm (List.range p.stmtNum) := by
    refine (List.perm_ext_iff_of_nodup hinv.nodup List.nodup_range).2 fun i => ?_
    rw [List.mem_range]
    exact ⟨hinv.below i, fun hi => (hinv.status i).2 (hstatus i hi)⟩
  refine ⟨order, res, ?_⟩
  exact
    { perm := hperm, ascending := hinv.ascending
      settled := fun i hi => hinv.settled i ((hinv.status i).2 (hstatus i hi))
      queue := hinv.queue, realTid := hinv.realTid, realStmt := hinv.realStmt
      realOutput := hinv.realOutput, realUsage := hinv.realUsage
      outputs := fun t => by rw [← ofTxn_eq_of_perm hperm hinv.ascending]; exact hinv.outputs t
      errs := fun t => by rw [← ofTxn_eq_of_perm hperm hinv.ascending]; exact hinv.errs t }

/-- Two transactions: the first commit wakes up the second transaction, whose blocked
update is then skipped and whose own commit fails and becomes a rollback. -/
theorem transTest_record_retry :
    let answers : List TestResult := [.ok [["1"]], .error "blocked", .ok [], .error "skipped",
      .error "Deadlock found", .ok []]
    let p : TestPlan :=
      { stmtNum := 4, tidQueue := fun i => i % 2
        stmtUse := fun i => if i < 2 then ⟨.updateWrite, false, "t_0"⟩ else .mk' .initType false
        commitStmt := "COMMIT", abortStmt := "ROLLBACK"
        dbms := fun k => (answers[k]?).getD (.error "") }
    let s : TransTest :=
      { stmtQueue := fun i => if i < 2 then "update t_0 set c = 1" else "COMMIT"
        transArr := fun _ => ⟨false, [], [], [], .commit⟩, statusQueue := fun _ => false
        realTidQueue := [], realStmtQueue := [], realOutputQueue := [], realStmtUsage := []
        calls := [] }
    ∃ s', (s'.realStmtQueue = ["update t_0 set c = 1", "COMMIT", spaceHolderStmt, "ROLLBACK"]) ∧
      ∃ order res, RunRecord p s.stmtQueue s' order res := by
  intro answers p s
  have hrun : (transTest p s).map TransTest.realStmtQueue =
      .ok ["update t_0 set c = 1", "COMMIT", spaceHolderStmt, "ROLLBACK"] := by
    decide +kernel
  cases h : transTest p s with
  | error e => rw [h] at hrun; cases hrun
  | ok s' =>
    rw [h] at hrun
    refine ⟨s', by simpa [Except.map] using hrun, transTest_record ?_ h⟩
    exact ⟨fun _ => rfl, fun _ => rfl, fun _ => rfl, rfl, rfl, rfl, rfl⟩

end DbFuzz
