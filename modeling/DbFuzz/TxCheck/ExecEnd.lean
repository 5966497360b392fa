import DbFuzz.TxCheck.ExecRun

/-! How the loops of `trans_test` end, from any status array: `retry_block_stmt` only marks
statements, so a pass of the finishing loop marks one or makes no progress. -/

namespace DbFuzz

open Loop

/-- Every answer counts as executed, blocked or skipped: no call throws, no call exits. -/
def TestPlan.Answers (p : TestPlan) : Prop :=
  ∀ k err, p.dbms k = .error err →
    (containsText err "ost connection" || containsText err "BUG") = false ∧
      (containsText err "blocked" = true ∨ containsText err "skipped" = true ∨
        containsText err "sent sql stmt changed" = false)

variable {p : TestPlan} {s s' s'' : TransTest}

/-- What is marked stays marked. -/
def Marks (s s' : TransTest) : Prop := ∀ j, s.statusQueue j = true → s'.statusQueue j = true

theorem Marks.refl (s : TransTest) : Marks s s := fun _ h => h

theorem Marks.trans (h : Marks s s') (h' : Marks s' s'') : Marks s s'' :=
  fun j hj => h' j (h j hj)

theorem Marks.setBlocked (s : TransTest) (t : ℕ) (b : Bool) : Marks s (s.setBlocked t b) :=
  fun _ h => h

theorem Marks.push (s : TransTest) (p : TestPlan) (pos : ℕ) (e : Executed) (output : StmtOutput) :
    Marks s (s.push p pos e output) := by
  intro j hj
  cases e with
  | blocked => exact hj
  | executed | skipped =>
    by_cases h : j = pos
    · subst h
      simp [TransTest.push, TransTest.pushExecuted, TransTest.pushSkipped]
    · simpa [TransTest.push, TransTest.pushExecuted, TransTest.pushSkipped, h] using hj

/-- The state that every loop reaches after a call. -/
theorem Marks.settle {pos : ℕ} {e : Executed} {output : StmtOutput}
    (h : transTestUnit p pos s = .ok (e, output, s')) (t : ℕ) (b : Bool) :
    Marks s ((s'.push p pos e output).setBlocked t b) := by
  have hcall : Marks s s' := fun j hj => by rw [(transTestUnit_spec h).frame.status]; exact hj
  exact (hcall.trans (Marks.push s' p pos e output)).trans (Marks.setBlocked _ t b)

/-! Calls and loops that return. -/

theorem transTestUnit_ok (hdbms : p.Answers) (pos : ℕ) (s : TransTest) :
    ∃ e output s', transTestUnit p pos s = .ok (e, output, s') := by
  unfold transTestUnit
  cases hanswer : p.dbms s.calls.length with
  | ok output =>
    simp only [TransTest.test, hanswer]
    exact ⟨_, _, _, rfl⟩
  | error err =>
    obtain ⟨hlost, hkind⟩ := hdbms _ _ hanswer
    simp only [TransTest.test, hanswer, hlost, Bool.false_eq_true, reduceIte]
    split
    · exact ⟨_, _, _, rfl⟩
    · next hblocked =>
      split
      · exact ⟨_, _, _, rfl⟩
      · next hskipped =>
        split
        · next hchanged =>
          rcases hkind with h | h | h
          · exact absurd h hblocked
          · exact absurd h hskipped
          · rw [h] at hchanged
            cases hchanged
        · split
          · exact ⟨_, _, _, rfl⟩
          · split
            · exact ⟨_, _, _, rfl⟩
            · exact ⟨_, _, _, rfl⟩

theorem retryFirst_ok (hdbms : p.Answers) (i : ℕ) (r : List ℕ × TransTest) :
    ∃ r', retryFirst p i r = .ok r' ∧ Marks r.2 r'.2 := by
  obtain ⟨tried, s⟩ := r
  by_cases hopen : s.statusQueue i = true
  · exact ⟨(tried, s), by simp [retryFirst, hopen], Marks.refl s⟩
  rw [Bool.not_eq_true] at hopen
  by_cases hblocked : (s.transArr (p.tidQueue i)).isBlocked = true
  · by_cases htried : p.tidQueue i ∈ tried
    · exact ⟨(tried, s), by simp [retryFirst, htried], Marks.refl s⟩
    · obtain ⟨e, output, s', h⟩ := transTestUnit_ok hdbms i s
      rw [retryFirst_eq p i tried s hopen hblocked htried, h]
      exact ⟨_, rfl, Marks.settle h _ _⟩
  · exact ⟨(tried, s), by simp [retryFirst, hblocked], Marks.refl s⟩

theorem retryNext_ok {retry : ℕ → TransTest → Except Failure TransTest} {i : ℕ}
    (hdbms : p.Answers) (hretry : ∀ t, ∃ t', retry i t = .ok t' ∧ Marks t t') (s : TransTest) :
    ∃ s', retryNext p retry i s = .ok s' ∧ Marks s s' := by
  by_cases hblocked : (s.transArr (p.tidQueue i)).isBlocked = true
  · exact ⟨s, by simp [retryNext, hblocked], Marks.refl s⟩
  by_cases hopen : s.statusQueue i = true
  · exact ⟨s, by simp [retryNext, hopen], Marks.refl s⟩
  rw [Bool.not_eq_true] at hblocked hopen
  obtain ⟨e, output, s1, h⟩ := transTestUnit_ok hdbms i s
  have hmarks := Marks.settle h (p.tidQueue i) (decide (e = .blocked))
  rw [retryNext_eq p retry i s hopen hblocked, h]
  simp only [bind, Except.bind]
  split_ifs
  · obtain ⟨s2, h2, hmarks2⟩ := hretry
      ((s1.push p i e output).setBlocked (p.tidQueue i) (decide (e = .blocked)))
    exact ⟨s2, h2, hmarks.trans hmarks2⟩
  · exact ⟨_, rfl, hmarks⟩

/-- `retry_block_stmt` returns, by recursion on the length of its prefix. -/
theorem retryBlockStmt_ok (hdbms : p.Answers) (cur : ℕ) :
    ∀ s, ∃ s', retryBlockStmt p cur s = .ok s' ∧ Marks s s' := by
  induction cur using Nat.strong_induction_on with
  | _ cur ih =>
    intro s
    rw [retryBlockStmt_eq, retryPass]
    obtain ⟨⟨tried, s1⟩, h1, hmarks1⟩ := forRange_ok (n := cur) (f := retryFirst p)
      (s := (([] : List ℕ), s)) (fun _ (r : List ℕ × TransTest) => Marks s r.2) (Marks.refl s)
      fun i _ r hr => by
        obtain ⟨r', h, hmarks⟩ := retryFirst_ok hdbms i r
        exact ⟨r', h, hr.trans hmarks⟩
    obtain ⟨s2, h2, hmarks2⟩ := forRange_ok (n := cur) (f := retryNext p (retryBlockStmt p))
      (s := s1) (fun _ t => Marks s t) hmarks1 fun i hi t ht => by
        obtain ⟨t', h, hmarks⟩ := retryNext_ok hdbms (ih i hi) t
        exact ⟨t', h, ht.trans hmarks⟩
    refine ⟨s2, ?_, hmarks2⟩
    simp only [h1, bind, Except.bind]
    exact h2

theorem mainRound_ok (hdbms : p.Answers) (i : ℕ) (s : TransTest) :
    ∃ s', mainRound p i s = .ok s' := by
  by_cases hblocked : (s.transArr (p.tidQueue i)).isBlocked = true
  · exact ⟨s, by simp [mainRound, hblocked]⟩
  rw [Bool.not_eq_true] at hblocked
  obtain ⟨e, output, s1, h⟩ := transTestUnit_ok hdbms i s
  rw [mainRound_eq p i s hblocked, h]
  simp only [bind, Except.bind]
  split_ifs
  · obtain ⟨s2, h2, -⟩ := retryBlockStmt_ok hdbms i
      ((s1.push p i e output).setBlocked (p.tidQueue i) (decide (e = .blocked)))
    exact ⟨s2, h2⟩
  · exact ⟨_, rfl⟩

/-! The passes of the finishing loop. -/

/-- The states after each pass, and the last one. -/
inductive Passes (p : TestPlan) : TransTest → List TransTest → TransTest → Prop
  | done (s : TransTest) : Passes p s [] s
  | pass {s s1 s' : TransTest} {rest : List TransTest}
      (h : retryBlockStmt p p.stmtNum s = .ok s1) (hrest : Passes p s1 rest s') :
      Passes p s (s1 :: rest) s'

/-- The number of passes that leave the number of executed statements as it is. -/
def stalledNum (p : TestPlan) : TransTest → List TransTest → ℕ
  | _, [] => 0
  | s, s1 :: rest =>
    (if executedNum p s1 = executedNum p s then 1 else 0) + stalledNum p s1 rest

theorem Marks.executedNum_le (h : Marks s s') : executedNum p s ≤ executedNum p s' :=
  List.countP_mono_left fun i _ hi => h i hi

theorem finishLoop_passes (hdbms : p.Answers) (fuel : ℕ) : ∀ noChange s, noChange ≤ 2 →
    p.stmtNum - executedNum p s + (3 - noChange) < fuel →
    ∃ passes s', finishLoop p fuel (executedNum p s) noChange s = .ok s' ∧ Passes p s passes s' ∧
      passes.length ≤ p.stmtNum - executedNum p s + (3 - noChange) ∧
      noChange + stalledNum p s passes ≤ 3 := by
  induction fuel with
  | zero => intro noChange s _ hfuel; omega
  | succ fuel ih =>
    intro noChange s hno hfuel
    rw [finishLoop]
    by_cases hdone : p.stmtNum ≤ executedNum p s
    · rw [if_pos hdone]
      exact ⟨[], s, rfl, .done s, by simp, by simp [stalledNum]; omega⟩
    rw [if_neg hdone]
    obtain ⟨s1, hretry, hmarks⟩ := retryBlockStmt_ok hdbms p.stmtNum s
    have hmono := hmarks.executedNum_le (p := p)
    simp only [hretry, bind, Except.bind]
    by_cases hall : executedNum p s1 = p.stmtNum
    · rw [if_pos hall]
      refine ⟨[s1], s1, rfl, .pass hretry (.done s1), ?_, ?_⟩
      · rw [List.length_singleton]
        omega
      · rw [stalledNum, stalledNum, if_neg (by omega)]
        omega
    rw [if_neg hall]
    by_cases hsame : executedNum p s = executedNum p s1
    · rw [if_pos hsame]
      by_cases hlimit : 2 < noChange + 1
      · rw [if_pos hlimit]
        refine ⟨[s1], s1, rfl, .pass hretry (.done s1), ?_, ?_⟩
        · rw [List.length_singleton]
          omega
        · rw [stalledNum, stalledNum, if_pos hsame.symm]
          omega
      · rw [if_neg hlimit]
        obtain ⟨passes, s', hloop, hpasses, hlength, hstalled⟩ :=
          ih (noChange + 1) s1 (by omega) (by omega)
        refine ⟨s1 :: passes, s', hloop, .pass hretry hpasses, ?_, ?_⟩
        · rw [List.length_cons]
          omega
        · rw [stalledNum, if_pos hsame.symm]
          omega
    · rw [if_neg hsame]
      obtain ⟨passes, s', hloop, hpasses, hlength, hstalled⟩ := ih noChange s1 hno (by omega)
      refine ⟨s1 :: passes, s', hloop, .pass hretry hpasses, ?_, ?_⟩
      · rw [List.length_cons]
        omega
      · rw [stalledNum, if_neg (Ne.symm hsame)]
        omega

/-- `retry_block_stmt` and the finishing loop end from every state, whatever the server
answers, and `trans_test` leaves its finishing loop with every statement executed or throws. -/
theorem transTest_finishes (hdbms : p.Answers) :
    (∀ cur s, ∃ s', retryBlockStmt p cur s = .ok s') ∧
    (∀ s, ∃ passes s', finishLoop p (p.stmtNum + 4) (executedNum p s) 0 s = .ok s' ∧
      Passes p s passes s' ∧ passes.length ≤ p.stmtNum - executedNum p s + 3 ∧
      stalledNum p s passes ≤ 3) ∧
    ∀ s, ∃ s1 s2, forRange p.stmtNum (mainRound p) { s with statusQueue := fun _ => false } =
        .ok s1 ∧
      finishLoop p (p.stmtNum + 4) (executedNum p s1) 0 s1 = .ok s2 ∧
      ((∀ i < p.stmtNum, s2.statusQueue i = true) ∨
        transTest p s = .error (.runtimeError "some stmt is still not executed")) := by
  have hloop : ∀ s, ∃ passes s', finishLoop p (p.stmtNum + 4) (executedNum p s) 0 s = .ok s' ∧
      Passes p s passes s' ∧ passes.length ≤ p.stmtNum - executedNum p s + 3 ∧
      stalledNum p s passes ≤ 3 := by
    intro s
    obtain ⟨passes, s', h, hpasses, hlength, hstalled⟩ :=
      finishLoop_passes hdbms (p.stmtNum + 4) 0 s (by omega) (by omega)
    exact ⟨passes, s', h, hpasses, hlength, by omega⟩
  refine ⟨fun cur s => (retryBlockStmt_ok hdbms cur s).imp fun _ h => h.1, hloop, fun s => ?_⟩
  obtain ⟨s1, hmain⟩ := forRange_succeeds (fun i _ t => mainRound_ok hdbms i t)
    { s with statusQueue := fun _ => false }
  obtain ⟨passes, s2, hfinish, -⟩ := hloop s1
  refine ⟨s1, s2, hmain, hfinish, ?_⟩
  by_cases hall : (List.range p.stmtNum).all s2.statusQueue = true
  · exact Or.inl (by simpa using hall)
  · right
    rw [Bool.not_eq_true] at hall
    simp only [transTest, hmain, hfinish, hall, bind, Except.bind, Bool.not_false, reduceIte]
    rfl

/-- A server that answers nothing but "blocked". -/
theorem transTest_finishes_blocked :
    let p : TestPlan :=
      { stmtNum := 2, tidQueue := fun i => i, stmtUse := fun _ => .mk' .initType false
        commitStmt := "COMMIT", abortStmt := "ROLLBACK", dbms := fun _ => .error "blocked" }
    ∀ s, ∃ passes s', finishLoop p (p.stmtNum + 4) (executedNum p s) 0 s = .ok s' ∧
      Passes p s passes s' ∧ passes.length ≤ p.stmtNum - executedNum p s + 3 ∧
      stalledNum p s passes ≤ 3 := by
  intro p
  have hdbms : p.Answers := by
    rintro k err h
    cases h
    exact ⟨by decide +kernel, Or.inl (by decide +kernel)⟩
  exact (transTest_finishes hdbms).2.1

end DbFuzz
