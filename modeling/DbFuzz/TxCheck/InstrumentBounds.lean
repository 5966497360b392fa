import DbFuzz.TxCheck.RowEdges

/-! The neighbours that `build_VS_dependency` and `build_OW_dependency` read without a bound
check. The control statements around every transaction keep them inside the queue. -/

namespace DbFuzz

open Loop

/-- The constructor up to `build_stmt_instrument_dependency`. -/
def AnalyzerInput.instrumented (inp : AnalyzerInput) : Except Failure (AnalyzedQueue × Graphs) := do
  let q ← inp.copy
  let _ ← q.buildHistory inp.initOutput
  let g ← q.buildStmtInstrumentDependency ⟨fun _ _ => ∅, fun _ _ => none⟩
  return (q, g)

/-- A run that completes or throws an `[INSTRUMENT_ERR]`. -/
def CompletesOrInstrumentErr {α : Type} (run : Except Failure α) : Prop :=
  (∃ a, run = .ok a) ∨ ∃ text, run = .error (AnalyzedQueue.instrumentErr text)

namespace AnalyzedQueue

/-- The first and the last statement of a transaction are control statements. -/
structure ControlEnds (q : AnalyzedQueue) : Prop where
  first : ∀ i < q.stmtNum, (∀ j < i, q.tid j ≠ q.tid i) → (q.usage i).stmtType = .initType
  last : ∀ i < q.stmtNum, (∀ j < q.stmtNum, i < j → q.tid j ≠ q.tid i) →
    (q.usage i).stmtType = .initType

variable {q : AnalyzedQueue} {e : Failure}

/-- Other statements have a statement before and behind them. -/
theorem ControlEnds.inside (hends : q.ControlEnds) {j : ℕ} (hj : j < q.stmtNum)
    (htype : (q.usage j).stmtType ≠ .initType) : 0 < j ∧ j + 1 < q.stmtNum := by
  refine ⟨Nat.pos_of_ne_zero fun hzero => ?_, ?_⟩
  · exact htype (hends.first j hj fun k hk => by omega)
  · by_contra hlast
    exact htype (hends.last j hj fun k hk hlt => by omega)

/-- An error that is not about the place of an instrumented read. -/
def NotInstrumentErr (e : Failure) : Prop := ∀ text, e ≠ instrumentErr text

theorem completesOrInstrumentErr_of_ne {α : Type} {run : Except Failure α}
    (h : ∀ e, NotInstrumentErr e → run ≠ .error e) : CompletesOrInstrumentErr run := by
  cases hrun : run with
  | ok a => exact Or.inl ⟨a, rfl⟩
  | error e =>
    refine Or.inr ?_
    by_contra hnone
    refine h e (fun text heq => hnone ⟨text, ?_⟩) hrun
    rw [heq]

theorem NotInstrumentErr.ne_instrument (he : NotInstrumentErr e) {α : Type} (text : String) :
    (.error (instrumentErr text) : Except Failure α) ≠ .error e :=
  fun h => he text (Except.error.inj h).symm

theorem pairSet_ne_error {output : StmtOutput} (hkeyed : ∀ row ∈ output, q.Keyed row) :
    q.pairSet output ≠ .error e := by
  refine mapM_ne_error fun row hrow => ?_
  obtain ⟨⟨p, hp⟩, v, hv⟩ := hkeyed row hrow
  rw [pairOf_of_keyOf hp hv]
  simp

theorem primarySet_ne_error {output : StmtOutput} (hkeyed : ∀ row ∈ output, q.Keyed row) :
    q.primarySet output ≠ .error e := by
  refine mapM_ne_error fun row hrow => ?_
  obtain ⟨⟨p, hp⟩, -⟩ := hkeyed row hrow
  rw [primaryOf, hp]
  simp

theorem afterWriteOf_ne_error (he : NotInstrumentErr e) {text : String} {j : ℕ}
    (hj : j + 1 < q.stmtNum) : q.afterWriteOf text j ≠ .error e := by
  have hread : q.usageAt ((j : ℤ) + 1) = .ok (q.usage ((j : ℤ) + 1).toNat) :=
    if_pos ⟨by omega, by omega⟩
  rw [afterWriteOf, hread]
  refine bind_ne_error (by simp) fun u _ => ?_
  split_ifs
  · simp
  · exact he.ne_instrument _

theorem beforeWriteOf_ne_error (he : NotInstrumentErr e) {text : String} {j : ℕ} (hpos : 0 < j)
    (hj : j < q.stmtNum) : q.beforeWriteOf text j ≠ .error e := by
  have hread : q.usageAt ((j : ℤ) - 1) = .ok (q.usage ((j : ℤ) - 1).toNat) :=
    if_pos ⟨by omega, by omega⟩
  rw [beforeWriteOf, hread]
  refine bind_ne_error (by simp) fun u _ => ?_
  split_ifs
  · simp
  · exact he.ne_instrument _

theorem versionSetRound_ne_error (hends : q.ControlEnds)
    (hkeyed : ∀ k < q.stmtNum, ∀ row ∈ q.output k, q.Keyed row) (he : NotInstrumentErr e)
    {i j : ℕ} {iPairs : List (ℤ × ℤ)} (hj : j < q.stmtNum) (g : Graphs) :
    q.versionSetRound i iPairs j g ≠ .error e := by
  unfold versionSetRound
  split
  -- an update or an insert reads the statement behind it
  case h_1 hu | h_2 hu =>
    obtain ⟨-, hnext⟩ := hends.inside hj (by rw [hu]; simp)
    refine bind_ne_error (afterWriteOf_ne_error he hnext) fun _ _ =>
      bind_ne_error (pairSet_ne_error (hkeyed _ hnext)) fun _ _ => ?_
    simp [pure, Except.pure]
  -- a delete the one before it
  case h_3 hu =>
    obtain ⟨hpos, -⟩ := hends.inside hj (by rw [hu]; simp)
    refine bind_ne_error (beforeWriteOf_ne_error he hpos hj) fun _ _ => ?_
    split_ifs
    · exact he.ne_instrument _
    · simp
    · simp
    · refine bind_ne_error (primarySet_ne_error (hkeyed _ (by omega))) fun _ _ => ?_
      simp [pure, Except.pure]
  case h_4 => simp

theorem buildVSDependency_ne_error (hends : q.ControlEnds)
    (hkeyed : ∀ k < q.stmtNum, ∀ row ∈ q.output k, q.Keyed row) (he : NotInstrumentErr e)
    (g : Graphs) : q.buildVSDependency g ≠ .error e := by
  refine forRange_ne_error (fun i hi t => ?_) g
  split_ifs
  · simp
  · exact bind_ne_error (pairSet_ne_error (hkeyed i hi)) fun _ _ =>
      forRange_ne_error (fun j hj s => versionSetRound_ne_error hends hkeyed he hj s) t

theorem orginalIndex_ne_error (hends : q.ControlEnds) (he : NotInstrumentErr e) (i : ℕ) :
    q.orginalIndex i ≠ .error e := by
  unfold orginalIndex
  split
  · exact he.ne_instrument _
  next j hfind =>
  have hj : j < q.stmtNum := List.mem_range.1 (List.mem_of_find?_eq_some hfind)
  split_ifs with hwrite
  · have htype : (q.usage j).stmtType ≠ .initType := by
      rcases hwrite with hu | hu <;> simp [hu]
    refine bind_ne_error (afterWriteOf_ne_error he (hends.inside hj htype).2) fun _ _ => ?_
    simp [pure, Except.pure]
  · simp

theorem overwriteRound_ne_error (hends : q.ControlEnds)
    (hkeyed : ∀ k < q.stmtNum, ∀ row ∈ q.output k, q.Keyed row) (he : NotInstrumentErr e)
    {i o j : ℕ} {iPairs : List (ℤ × ℤ)} (hj : j < q.stmtNum) (g : Graphs) :
    q.overwriteRound i iPairs o j g ≠ .error e := by
  unfold overwriteRound
  split
  case h_1 hu | h_2 hu =>
    obtain ⟨hpos, -⟩ := hends.inside hj (by rw [hu]; simp)
    refine bind_ne_error (beforeWriteOf_ne_error he hpos hj) fun _ _ =>
      bind_ne_error (pairSet_ne_error (hkeyed _ (by omega))) fun _ _ => ?_
    simp [pure, Except.pure]
  case h_3 hu =>
    obtain ⟨-, hnext⟩ := hends.inside hj (by rw [hu]; simp)
    refine bind_ne_error (afterWriteOf_ne_error he hnext) fun _ _ => ?_
    split_ifs
    · exact he.ne_instrument _
    · simp
    · simp
    · refine bind_ne_error (primarySet_ne_error (hkeyed _ hnext)) fun _ _ => ?_
      simp [pure, Except.pure]
  case h_4 => simp

theorem buildOWDependency_ne_error (hends : q.ControlEnds)
    (hkeyed : ∀ k < q.stmtNum, ∀ row ∈ q.output k, q.Keyed row) (he : NotInstrumentErr e)
    (g : Graphs) : q.buildOWDependency g ≠ .error e := by
  refine forRange_ne_error (fun i hi t => ?_) g
  split_ifs
  · simp
  · exact bind_ne_error (pairSet_ne_error (hkeyed i hi)) fun _ _ =>
      bind_ne_error (orginalIndex_ne_error hends he i) fun _ _ =>
        forRange_ne_error (fun j hj s => overwriteRound_ne_error hends hkeyed he hj s) t

end AnalyzedQueue

/-- Behind `build_stmt_instrument_dependency` every write has both neighbours, and from any
graphs the two builders complete or throw an `[INSTRUMENT_ERR]`. -/
theorem instrumented_completes {inp : AnalyzerInput} {q : AnalyzedQueue} {g : Graphs}
    (hinst : inp.instrumented = .ok (q, g)) (hends : q.ControlEnds) (g' : Graphs) :
    (∀ j < q.stmtNum, (q.usage j).stmtType ≠ .initType → 0 < j ∧ j + 1 < q.stmtNum) ∧
      CompletesOrInstrumentErr (q.buildVSDependency g') ∧
      CompletesOrInstrumentErr (q.buildOWDependency g') := by
  obtain ⟨q', -, hinst⟩ := bind_eq_ok_iff.1 hinst
  obtain ⟨h, hhist, hinst⟩ := bind_eq_ok_iff.1 hinst
  obtain ⟨g1, -, hinst⟩ := bind_eq_ok_iff.1 hinst
  cases hinst
  have hkeyed := (AnalyzedQueue.buildHistory_spec hhist).2.1
  refine ⟨fun j hj htype => hends.inside hj htype, ?_, ?_⟩
  · exact AnalyzedQueue.completesOrInstrumentErr_of_ne fun e he =>
      AnalyzedQueue.buildVSDependency_ne_error hends hkeyed he g'
  · exact AnalyzedQueue.completesOrInstrumentErr_of_ne fun e he =>
      AnalyzedQueue.buildOWDependency_ne_error hends hkeyed he g'

theorem insertAlone_status_length : [TxnStatus.commit, .commit].length = 2 := rfl

theorem insertAlone_tid_lt : ∀ t ∈ [0, 0, 0, 0, 0], t < 2 := by decide

/-- A transaction that inserts one row. -/
def insertAlone : AnalyzedQueue where
  tidNum := 2
  primaryKeyIndex := 1
  versionKeyIndex := 0
  fTxnStatus := [.commit, .commit]
  fTxnIdQueue := [0, 0, 0, 0, 0]
  fStmtUsage := [.mk' .initType false, ⟨.versionSetRead, true, "t0"⟩, ⟨.insertWrite, false, "t0"⟩,
    ⟨.afterWriteRead, true, "t0"⟩, .mk' .initType false]
  fStmtOutput := [[], [["0", "10000"]], [], [["1", "11000"]], []]
  usage_length := rfl
  output_length := rfl
  status_length := insertAlone_status_length
  tid_lt := insertAlone_tid_lt

theorem insertAlone_controlEnds : insertAlone.ControlEnds where
  first := by decide
  last := by decide

theorem insertAlone_completes :
    (∀ j < insertAlone.stmtNum, (insertAlone.usage j).stmtType ≠ .initType →
        0 < j ∧ j + 1 < insertAlone.stmtNum) ∧
      CompletesOrInstrumentErr (insertAlone.buildVSDependency .empty) ∧
      CompletesOrInstrumentErr (insertAlone.buildOWDependency .empty) := by
  have hinst : ∃ g, AnalyzerInput.instrumented
      ⟨[[["0", "10000"]]], insertAlone.fStmtOutput, insertAlone.fTxnIdQueue, insertAlone.fStmtUsage,
        [.commit], 1, 0⟩ = .ok (insertAlone, g) := ⟨_, by rfl⟩
  obtain ⟨g, hg⟩ := hinst
  exact instrumented_completes hg insertAlone_controlEnds .empty

end DbFuzz
