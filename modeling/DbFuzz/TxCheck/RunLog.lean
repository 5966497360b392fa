import DbFuzz.TxCheck.ExecRun

/-! The log of calls of a run of `trans_test`, and what it says about the statuses: a
transaction becomes an abort only when the server refuses its commit. -/

namespace DbFuzz

open Loop

/-- Equal but for the fields that the loops around `trans_test_unit` write. -/
structure SameLog (s s' : TransTest) : Prop where
  calls : s'.calls = s.calls
  stmtQueue : s'.stmtQueue = s.stmtQueue
  status : ∀ t, (s'.transArr t).status = (s.transArr t).status

theorem SameLog.trans {s s' s'' : TransTest} (h : SameLog s s') (h' : SameLog s' s'') :
    SameLog s s'' where
  calls := h'.calls.trans h.calls
  stmtQueue := h'.stmtQueue.trans h.stmtQueue
  status t := (h'.status t).trans (h.status t)

theorem sameLog_setBlocked (s : TransTest) (t : ℕ) (b : Bool) : SameLog s (s.setBlocked t b) := by
  refine ⟨rfl, rfl, fun u => ?_⟩
  by_cases hu : u = t
  · subst hu; simp [TransTest.setBlocked, TransTest.modifyTxn]
  · simp [TransTest.setBlocked, TransTest.modifyTxn, hu]

theorem sameLog_push (s : TransTest) (p : TestPlan) (pos : ℕ) (e : Executed) (output : StmtOutput) :
    SameLog s (s.push p pos e output) := by
  cases e <;> exact ⟨rfl, rfl, fun _ => rfl⟩

/-- What the pushes after a call change. -/
theorem sameLog_pushBlocked (s : TransTest) (p : TestPlan) (pos : ℕ) (e : Executed)
    (output : StmtOutput) :
    SameLog s ((s.push p pos e output).setBlocked (p.tidQueue pos) (decide (e = .blocked))) :=
  (sameLog_push s p pos e output).trans (sameLog_setBlocked _ _ _)

/-! The invariant rule of a run. -/

section Run

variable {p : TestPlan} {n : ℕ} {P : TransTest → Prop}

/-- A unit call for an open statement before `n`, and the pushes after it, keep `P`. -/
def KeptRound (p : TestPlan) (n : ℕ) (P : TransTest → Prop) : Prop :=
  ∀ pos < n, ∀ s e output s', s.statusQueue pos = false → P s →
    transTestUnit p pos s = .ok (e, output, s') →
    P ((s'.push p pos e output).setBlocked (p.tidQueue pos) (decide (e = .blocked)))

/-- A unit call keeps `P`, and `P` does not look at what the loops write. -/
structure Kept (p : TestPlan) (P : TransTest → Prop) : Prop where
  unit : ∀ pos < p.stmtNum, ∀ s e output s', P s → transTestUnit p pos s = .ok (e, output, s') → P s'
  same : ∀ s s', SameLog s s' → P s → P s'

theorem Kept.round (h : Kept p P) : KeptRound p p.stmtNum P :=
  fun pos hpos s e output s' _ hs hunit =>
    h.same _ _ (sameLog_pushBlocked s' p pos e output) (h.unit pos hpos s e output s' hs hunit)

theorem KeptRound.retryFirst (h : KeptRound p n P) {i : ℕ} (hi : i < n) {st st' : List ℕ × TransTest}
    (hst : P st.2) (hr : retryFirst p i st = .ok st') : P st'.2 := by
  obtain ⟨tried, s⟩ := st
  by_cases hskip : s.statusQueue i = true ∨ (s.transArr (p.tidQueue i)).isBlocked = false ∨
      p.tidQueue i ∈ tried
  · have : DbFuzz.retryFirst p i (tried, s) = .ok (tried, s) := by
      unfold DbFuzz.retryFirst
      dsimp only
      rcases hskip with hs | hs | hs
      · rw [if_pos hs]
      · rw [hs]; split <;> rfl
      · split
        · rfl
        · split <;> rfl
    rw [this] at hr
    obtain rfl := Except.ok.inj hr
    exact hst
  · rw [not_or, not_or, Bool.not_eq_true, Bool.not_eq_false] at hskip
    rw [retryFirst_eq p i tried s hskip.1 hskip.2.1 hskip.2.2] at hr
    obtain ⟨⟨e, output, s1⟩, hunit, hr⟩ := bind_eq_ok_iff.1 hr
    obtain rfl := Except.ok.inj hr
    exact h i hi _ _ _ _ hskip.1 hst hunit

theorem KeptRound.retryNext (h : KeptRound p n P) {i : ℕ} (hi : i < n) {s s' : TransTest}
    {retry : ℕ → TransTest → Except Failure TransTest}
    (hretry : ∀ t t', P t → retry i t = .ok t' → P t') (hs : P s)
    (hr : retryNext p retry i s = .ok s') : P s' := by
  by_cases hskip : (s.transArr (p.tidQueue i)).isBlocked = true ∨ s.statusQueue i = true
  · have : DbFuzz.retryNext p retry i s = .ok s := by
      unfold DbFuzz.retryNext
      dsimp only
      rcases hskip with hb | hb
      · rw [if_pos hb]
      · rw [hb]; split <;> rfl
    rw [this] at hr
    exact Except.ok.inj hr ▸ hs
  · rw [not_or, Bool.not_eq_true, Bool.not_eq_true] at hskip
    rw [retryNext_eq p retry i s hskip.2 hskip.1] at hr
    obtain ⟨⟨e, output, s1⟩, hunit, hr⟩ := bind_eq_ok_iff.1 hr
    have h1 := h i hi _ _ _ _ hskip.2 hs hunit
    dsimp only at hr
    split at hr
    · exact hretry _ _ h1 hr
    · exact Except.ok.inj hr ▸ h1

theorem KeptRound.retryDepth (h : KeptRound p n P) (depth : ℕ) : ∀ cur ≤ n, ∀ s s', P s →
    retryDepth p depth cur s = .ok s' → P s' := by
  induction depth with
  | zero => intro cur _ s s' _ hr; cases hr
  | succ depth ih =>
    intro cur hcur s s' hs hr
    obtain ⟨⟨tried, s1⟩, hfirst, hnext⟩ := bind_eq_ok_iff.1 hr
    have h1 : P s1 := forRange_inv (fun _ st => P st.2) hs
      (fun i hi st st' hst => h.retryFirst (by omega) hst) hfirst
    exact forRange_inv (fun _ t => P t) h1
      (fun i hi t t' ht => h.retryNext (by omega) (fun u u' hu => ih i (by omega) u u' hu) ht) hnext

theorem KeptRound.retryBlockStmt (h : KeptRound p n P) {cur : ℕ} (hcur : cur ≤ n) {s s' : TransTest}
    (hs : P s) (hr : retryBlockStmt p cur s = .ok s') : P s' :=
  h.retryDepth (cur + 1) cur hcur s s' hs hr

theorem KeptRound.mainRound (h : KeptRound p n P) {i : ℕ} (hi : i < n) {s s' : TransTest}
    (hopen : s.statusQueue i = false) (hs : P s)
    (hr : mainRound p i s = .ok s') : P s' := by
  by_cases hblocked : (s.transArr (p.tidQueue i)).isBlocked = true
  · simp only [DbFuzz.mainRound, hblocked, reduceIte, Except.ok.injEq] at hr
    exact hr ▸ hs
  · rw [mainRound_eq p i s (by simpa using hblocked)] at hr
    obtain ⟨⟨e, output, s1⟩, hunit, hr⟩ := bind_eq_ok_iff.1 hr
    have h1 := h i hi _ _ _ _ hopen hs hunit
    dsimp only at hr
    split at hr
    · exact h.retryBlockStmt (by omega) h1 hr
    · exact Except.ok.inj hr ▸ h1

theorem KeptRound.finishLoop (h : KeptRound p p.stmtNum P) (fuel : ℕ) : ∀ executed noChange s s', P s →
    finishLoop p fuel executed noChange s = .ok s' → P s' := by
  induction fuel with
  | zero => intro executed noChange s s' _ hr; cases hr
  | succ fuel ih =>
    intro executed noChange s s' hs hr
    rw [DbFuzz.finishLoop] at hr
    by_cases hdone : p.stmtNum ≤ executed
    · rw [if_pos hdone] at hr
      exact Except.ok.inj hr ▸ hs
    rw [if_neg hdone] at hr
    obtain ⟨s1, hretry, hr⟩ := bind_eq_ok_iff.1 hr
    have h1 := h.retryBlockStmt le_rfl hs hretry
    dsimp only at hr
    split at hr
    · exact Except.ok.inj hr ▸ h1
    · split at hr
      · split at hr
        · exact Except.ok.inj hr ▸ h1
        · exact ih _ _ _ _ h1 hr
      · exact ih _ _ _ _ h1 hr

theorem push_status (s : TransTest) (p : TestPlan) (pos : ℕ) (e : Executed) (output : StmtOutput)
    {j : ℕ} (h : (s.push p pos e output).statusQueue j = true) : j = pos ∨ s.statusQueue j = true := by
  by_cases hj : j = pos
  · exact Or.inl hj
  · cases e <;> simpa [TransTest.push, TransTest.pushExecuted, TransTest.pushSkipped, hj] using h

/-- The main loop has marked nothing beyond its index, so that each of its calls is for an
open statement. -/
theorem KeptRound.mainLoop (h : KeptRound p p.stmtNum P) {s s' : TransTest}
    (h0 : P { s with statusQueue := fun _ => false })
    (hr : forRange p.stmtNum (DbFuzz.mainRound p) { s with statusQueue := fun _ => false } = .ok s') :
    P s' := by
  refine (forRange_inv (fun i t => P t ∧ ∀ j, t.statusQueue j = true → j < i)
    ⟨h0, fun j hj => by cases hj⟩ (fun i hi t t' ht hround => ?_) hr).1
  have hkept : KeptRound p (i + 1) fun u => P u ∧ ∀ j, u.statusQueue j = true → j < i + 1 := by
    intro pos hpos u e output u' hopen hu hunit
    refine ⟨h pos (by omega) u e output u' hopen hu.1 hunit, fun j hj => ?_⟩
    rcases push_status u' p pos e output hj with rfl | hj
    · exact hpos
    · rw [(transTestUnit_spec hunit).frame.status] at hj
      exact hu.2 j hj
  refine hkept.mainRound (by omega) ?_ ⟨ht.1, fun j hj => by have := ht.2 j hj; omega⟩ hround
  rw [Bool.eq_false_iff]
  exact fun hdone => absurd (ht.2 i hdone) (by omega)

/-- What every call and its pushes keep, a run keeps. -/
theorem transTest_rounds (h : KeptRound p p.stmtNum P) {s s' : TransTest}
    (h0 : P { s with statusQueue := fun _ => false }) (hr : transTest p s = .ok s') : P s' := by
  obtain ⟨s1, hmain, hr⟩ := bind_eq_ok_iff.1 hr
  obtain ⟨s2, hfin, hr⟩ := bind_eq_ok_iff.1 hr
  have h2 := h.finishLoop _ _ _ _ _ (h.mainLoop h0 hmain) hfin
  split at hr
  · cases hr
  · split at hr
    · cases hr
    · exact Except.ok.inj hr ▸ h2

theorem transTest_inv (h : Kept p P) {s s' : TransTest} (hs : P s) (hr : transTest p s = .ok s') :
    P s' :=
  transTest_rounds h.round (h.same s _ ⟨rfl, rfl, fun _ => rfl⟩ hs) hr

end Run

/-! The statuses of a run. -/

/-- An error that `trans_test_unit` takes for an answer to the statement. -/
def TestResult.isPlainError : TestResult → Bool
  | .ok _ => false
  | .error err => !containsText err "ost connection" && !containsText err "BUG" &&
      !containsText err "blocked" && !containsText err "skipped" &&
      !containsText err "sent sql stmt changed"

/-- A call for a commit statement that was refused. The abort after it wants no output. -/
def TestPlan.refusedCommit (p : TestPlan) (c : Call) : Bool :=
  c.wantsOutput && isControl c.text p.commitStmt && c.result.isPlainError

def TestPlan.CommitRefused (p : TestPlan) (calls : List Call) (t : ℕ) : Prop :=
  ∃ c ∈ calls, p.tidQueue c.pos = t ∧ p.refusedCommit c = true

/-- What one call of `trans_test_unit` adds to the log and changes in the statuses. -/
theorem transTestUnit_log {p : TestPlan} {pos : ℕ} {s s' : TransTest} {e : Executed}
    {output : StmtOutput} (h : transTestUnit p pos s = .ok (e, output, s')) :
    ∃ rest, s'.calls = s.calls ++ ⟨pos, s.stmtQueue pos, true, p.dbms s.calls.length⟩ :: rest ∧
      (∀ c ∈ rest, c.wantsOutput = false) ∧
      (∀ i, s'.stmtQueue i = s.stmtQueue i ∨ s'.stmtQueue i = p.abortStmt) ∧
      ∀ t, (s'.transArr t).status = if t = p.tidQueue pos ∧
          p.refusedCommit ⟨pos, s.stmtQueue pos, true, p.dbms s.calls.length⟩ = true then .abort
        else (s.transArr t).status := by
  have hrecord : ∀ (s1 : TransTest) (o : StmtOutput) (err : String) (t : ℕ),
      ((s1.record (p.tidQueue pos) o err).transArr t).status = (s1.transArr t).status := by
    intro s1 o err t
    by_cases ht : t = p.tidQueue pos
    · subst ht; simp [TransTest.record, TransTest.modifyTxn]
    · simp [TransTest.record, TransTest.modifyTxn, ht]
  unfold transTestUnit TransTest.test at h
  dsimp only at h
  unfold TestPlan.refusedCommit TestResult.isPlainError
  cases hanswer : p.dbms s.calls.length with
  | ok out =>
    rw [hanswer] at h
    cases h
    exact ⟨[], rfl, by simp, fun _ => Or.inl rfl, fun t => by simp [hrecord]⟩
  | error err =>
    rw [hanswer] at h
    dsimp only at h ⊢
    by_cases hlost : (containsText err "ost connection" || containsText err "BUG") = true
    · rw [if_pos hlost] at h; cases h
    rw [if_neg hlost] at h
    rw [Bool.not_eq_true, Bool.or_eq_false_iff] at hlost
    by_cases hblocked : containsText err "blocked" = true
    · rw [if_pos hblocked] at h
      cases h
      exact ⟨[], rfl, by simp, fun _ => Or.inl rfl, fun t => by simp [hblocked]⟩
    rw [if_neg hblocked] at h
    by_cases hskipped : containsText err "skipped" = true
    · rw [if_pos hskipped] at h
      cases h
      exact ⟨[], rfl, by simp, fun _ => Or.inl rfl, fun t => by simp [hrecord, hskipped]⟩
    rw [if_neg hskipped] at h
    by_cases hchanged : containsText err "sent sql stmt changed" = true
    · rw [if_pos hchanged] at h; cases h
    rw [if_neg hchanged] at h
    by_cases hcommit : isControl (s.stmtQueue pos) p.commitStmt = true
    · -- the status changes, whatever the server says to the abort
      rw [if_neg (by simp [hcommit])] at h
      have hplain : (true && isControl (s.stmtQueue pos) p.commitStmt &&
          (!containsText err "ost connection" && !containsText err "BUG" &&
          !containsText err "blocked" && !containsText err "skipped" &&
          !containsText err "sent sql stmt changed")) = true := by
        simp [hcommit, hlost.1, hlost.2, hblocked, hskipped, hchanged]
      rw [hplain]
      simp only [and_true]
      have hstatus : ∀ t, ((TransTest.replaceCommit
          { s with calls := s.calls ++ [⟨pos, s.stmtQueue pos, true, .error err⟩] } p pos).transArr
          t).status = if t = p.tidQueue pos then .abort else (s.transArr t).status := by
        intro t
        by_cases ht : t = p.tidQueue pos
        · subst ht; simp [TransTest.replaceCommit, TransTest.modifyTxn]
        · simp [TransTest.replaceCommit, TransTest.modifyTxn, ht]
      have hqueue : ∀ i, (TransTest.replaceCommit
          { s with calls := s.calls ++ [⟨pos, s.stmtQueue pos, true, .error err⟩] } p pos).stmtQueue
          i = s.stmtQueue i ∨ (TransTest.replaceCommit
          { s with calls := s.calls ++ [⟨pos, s.stmtQueue pos, true, .error err⟩] } p pos).stmtQueue
          i = p.abortStmt := by
        intro i
        by_cases hi : i = pos
        · subst hi; exact Or.inr (by simp [TransTest.replaceCommit])
        · exact Or.inl (by simp [TransTest.replaceCommit, TransTest.modifyTxn, hi])
      split at h
      · cases h
        refine ⟨[_], List.append_assoc _ _ _, by simp, hqueue, fun t => ?_⟩
        rw [hrecord]
        exact hstatus t
      · cases h
        exact ⟨[_], List.append_assoc _ _ _, by simp, hqueue, hstatus⟩
    · rw [if_pos (by simp [hcommit])] at h
      cases h
      exact ⟨[], rfl, by simp, fun _ => Or.inl rfl, fun t => by simp [hrecord, hcommit]⟩

/-- The state of a run that began with queue `planned` and statuses `status`. -/
structure LogInv (p : TestPlan) (planned : ℕ → String) (status : ℕ → TxnStatus) (s : TransTest) :
    Prop where
  queue : ∀ i, s.stmtQueue i = planned i ∨ s.stmtQueue i = p.abortStmt
  call : ∀ c ∈ s.calls, c.wantsOutput = true →
    c.pos < p.stmtNum ∧ (c.text = planned c.pos ∨ c.text = p.abortStmt)
  aborted : ∀ t, (s.transArr t).status = .abort ↔ status t = .abort ∨ p.CommitRefused s.calls t

theorem kept_logInv (p : TestPlan) (planned : ℕ → String) (status : ℕ → TxnStatus) :
    Kept p (LogInv p planned status) where
  unit pos hpos s e output s' hs h := by
    obtain ⟨rest, hcalls, hrest, hqueue, hstatus⟩ := transTestUnit_log h
    refine ⟨fun i => ?_, fun c hc hw => ?_, fun t => ?_⟩
    · rcases hqueue i with hi | hi
      · rw [hi]; exact hs.queue i
      · exact Or.inr hi
    · rw [hcalls, List.mem_append, List.mem_cons] at hc
      rcases hc with hc | rfl | hc
      · exact hs.call c hc hw
      · exact ⟨hpos, hs.queue pos⟩
      · rw [hrest c hc] at hw; cases hw
    · have hrefused : p.CommitRefused s'.calls t ↔ p.CommitRefused s.calls t ∨ t = p.tidQueue pos ∧
          p.refusedCommit ⟨pos, s.stmtQueue pos, true, p.dbms s.calls.length⟩ = true := by
        unfold TestPlan.CommitRefused
        rw [hcalls]
        constructor
        · rintro ⟨c, hc, htid, href⟩
          rw [List.mem_append, List.mem_cons] at hc
          rcases hc with hc | rfl | hc
          · exact Or.inl ⟨c, hc, htid, href⟩
          · exact Or.inr ⟨htid.symm, href⟩
          · simp [TestPlan.refusedCommit, hrest c hc] at href
        · rintro (⟨c, hc, h⟩ | ⟨htid, href⟩)
          · exact ⟨c, List.mem_append_left _ hc, h⟩
          · exact ⟨_, List.mem_append_right _ List.mem_cons_self, htid.symm, href⟩
      rw [hstatus, hrefused]
      split
      · next hc => simp [hc]
      · next hc => rw [hs.aborted, or_iff_left (b := _ ∧ _) hc]
  same s s' h hs := by
    refine ⟨?_, ?_, ?_⟩
    · rw [h.stmtQueue]; exact hs.queue
    · rw [h.calls]; exact hs.call
    · intro t; rw [h.status, h.calls]; exact hs.aborted t

/-- A transaction is an abort after a run exactly when it was one before, or the server
refused its commit. -/
theorem transTest_log {p : TestPlan} {s s' : TransTest} (hcalls : s.calls = [])
    (h : transTest p s = .ok s') :
    LogInv p s.stmtQueue (fun t => (s.transArr t).status) s' := by
  refine transTest_inv (kept_logInv p _ _) ⟨fun i => Or.inl rfl, ?_, fun t => ?_⟩ h
  · rw [hcalls]; simp
  · simp [TestPlan.CommitRefused, hcalls]

end DbFuzz
