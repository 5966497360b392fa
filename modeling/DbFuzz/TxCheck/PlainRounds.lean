import DbFuzz.TxCheck.PlainRun
import DbFuzz.TxCheck.RoundLoop

/-! The loops of `multi_stmt_round_test` once more, where each run is taken in its closed form if
it has one. They compute the same, in far fewer steps. -/

namespace DbFuzz

open Loop

/-! Most texts are a placeholder, or too short for one. -/

theorem append_of_containsText {str sub : String} (h : containsText str sub = true) :
    ∃ pre post, str = pre ++ sub ++ post := by
  obtain ⟨l, hl, hprefix⟩ := List.any_eq_true.1 h
  obtain ⟨pre, hpre⟩ := (List.mem_tails l _).1 hl
  obtain ⟨post, hpost⟩ := List.isPrefixOf_iff_prefix.1 hprefix
  refine ⟨String.ofList pre, String.ofList post, String.toList_inj.1 ?_⟩
  rw [String.toList_append, String.toList_append, String.toList_ofList, String.toList_ofList,
    List.append_assoc, hpost, hpre]

theorem containsText_self (str : String) : containsText str str = true :=
  List.any_eq_true.2 ⟨_, (List.mem_tails _ _).2 (List.suffix_refl _),
    List.isPrefixOf_iff_prefix.2 (List.prefix_refl _)⟩

/-- `isSpaceHolder` -/
def quickSpaceHolder (text : String) : Bool :=
  text == spaceHolderStmt ||
    decide (spaceHolderStmt.utf8ByteSize ≤ text.utf8ByteSize) && isSpaceHolder text

theorem isSpaceHolder_eq_quick (text : String) : isSpaceHolder text = quickSpaceHolder text := by
  unfold quickSpaceHolder
  by_cases htext : text = spaceHolderStmt
  · subst htext
    simp [isSpaceHolder, containsText_self]
  · cases hholder : isSpaceHolder text with
    | false => simp [htext]
    | true =>
      obtain ⟨pre, post, rfl⟩ := append_of_containsText (Bool.and_eq_true_iff.1 hholder).1
      simp [String.utf8ByteSize_append]
      omega

variable {Val : Type} {env : RoundEnv Val} {fuel : ℕ} {deletedNodes : Finset StmtId}

namespace RoundTest

variable {t t' : RoundTest Val}

/-! The real queues are empty before each run. -/

theorem cleared_setStmtQueue (hclear : t.planned.test.Cleared) (queue : List (Emitted Val)) :
    (t.setStmtQueue env queue).planned.test.Cleared :=
  ⟨hclear.unblocked, hclear.outputs, hclear.errs, hclear.real⟩

theorem cleared_cleanInstrument (hclear : t.planned.test.Cleared) :
    (t.cleanInstrument env).planned.test.Cleared :=
  TransTest.Cleared.alignTxns (cleared_setStmtQueue hclear _)

theorem cleared_instrumentTxnStmts (hclear : t.planned.test.Cleared)
    (h : t.instrumentTxnStmts env = .ok t') : t'.planned.test.Cleared := by
  obtain ⟨out, -, h⟩ := bind_eq_ok_iff.1 h
  cases h
  exact TransTest.Cleared.alignTxns (cleared_setStmtQueue hclear _)

theorem cleared_blockScheduling (h : t.blockScheduling env fuel = .ok t') :
    t'.planned.test.Cleared := by
  induction fuel generalizing t with
  | zero => cases h
  | succ fuel ih =>
    obtain ⟨t1, -, h⟩ := bind_eq_ok_iff.1 h
    split_ifs at h with hfine
    · cases h
      exact cleared_clearExecutionStatus t1
    · exact ih h

/-! The runs. -/

/-- `trans_test` -/
def quickTest (env : RoundEnv Val) (t : RoundTest Val) : Except Failure (RoundTest Val) :=
  if t.allSettle then .ok (t.plainTest env) else t.transTest env

theorem transTest_eq_quick (hclear : t.planned.test.Cleared) :
    t.transTest env = t.quickTest env := by
  unfold quickTest
  split_ifs with hsettle
  · exact transTest_plainTest hclear hsettle
  · rfl

/-- `block_scheduling` -/
def quickScheduling (env : RoundEnv Val) : ℕ → RoundTest Val → Except Failure (RoundTest Val)
  | 0, _ => .error .outOfFuel
  | fuel + 1, t => do
    let t ← t.quickTest env
    if t.noFailing then return t.clearExecutionStatus
    else quickScheduling env fuel (t.setStmtQueue env t.realQueue).clearExecutionStatus

theorem blockScheduling_eq_quick (hclear : t.planned.test.Cleared) :
    t.blockScheduling env fuel = t.quickScheduling env fuel := by
  induction fuel generalizing t with
  | zero => rfl
  | succ fuel ih =>
    rw [blockScheduling, quickScheduling, transTest_eq_quick hclear]
    refine bind_congr_ok fun t1 _ => ?_
    rw [ih (cleared_clearExecutionStatus _)]

/-- `errorRateHigh` -/
def quickErrorRateHigh (t : RoundTest Val) : Bool :=
  let real := t.planned.test.realStmtQueue
  real ≠ [] && decide (real.length < 2 * (real.countP quickSpaceHolder))

theorem errorRateHigh_eq_quick (t : RoundTest Val) : t.errorRateHigh = t.quickErrorRateHigh := by
  rw [errorRateHigh, funext isSpaceHolder_eq_quick]
  rfl

end RoundTest

/-- `firstAnalysis` -/
def quickAnalysis (env : RoundEnv Val) (fuel : ℕ) (t : RoundTest Val) :
    Except Failure (Option (InitStatus Val × RoundState Val)) := do
  let t ← t.quickScheduling env fuel
  let t := t.setStmtQueue env (t.stmtQueue.filter fun e => !quickSpaceHolder (env.print e.stmt))
  let t ← t.instrumentTxnStmts env
  let t ← t.quickTest env
  if t.quickErrorRateHigh then return none
  let (bug, da) ← t.analyzeTxnDependency
  if bug then throw (.runtimeError "BUG: found in analyze_txn_dependency()")
  return some (⟨t.stmtQueue, fun tid => (t.planned.txn tid).status,
    fun tid => (t.planned.txn tid).stmts⟩, ⟨t, ⟨da, da.graphs.stmt⟩, ∅, 0⟩)

theorem firstAnalysis_eq_quick {t : RoundTest Val} (hclear : t.planned.test.Cleared) :
    firstAnalysis env fuel t = quickAnalysis env fuel t := by
  unfold firstAnalysis quickAnalysis
  simp only [← RoundTest.blockScheduling_eq_quick hclear, ← RoundTest.errorRateHigh_eq_quick,
    ← isSpaceHolder_eq_quick]
  refine bind_congr_ok fun t1 hsched => bind_congr_ok fun t2 hinst => ?_
  rw [RoundTest.transTest_eq_quick (RoundTest.cleared_instrumentTxnStmts
    (RoundTest.cleared_setStmtQueue (RoundTest.cleared_blockScheduling hsched) _) hinst)]

namespace RefineState

variable {r s s' : RefineState Val}

theorem cleared_refine (h : r.refineStmtQueue = .ok (true, s)) : s.test.planned.test.Cleared := by
  obtain ⟨q, g, g', planned, -, htest, -⟩ := refineStmtQueue_spec h
  rw [htest, if_pos rfl]
  exact RoundTest.cleared_clearExecutionStatus _

theorem cleared_reschedule (h : s.reschedule env fuel = .ok s') :
    s'.test.planned.test.Cleared := by
  obtain ⟨t1, hsched, h⟩ := bind_eq_ok_iff.1 h
  obtain ⟨⟨after, g⟩, -, h⟩ := bind_eq_ok_iff.1 h
  obtain ⟨t2, hinst, h⟩ := bind_eq_ok_iff.1 h
  cases h
  exact RoundTest.cleared_instrumentTxnStmts
    (RoundTest.cleared_setStmtQueue (RoundTest.cleared_blockScheduling hsched) _) hinst

/-- `reschedule` -/
def quickReschedule (env : RoundEnv Val) (fuel : ℕ) (s : RefineState Val) :
    Except Failure (RefineState Val) := do
  let before := s.test.stmtQueue
  let test ← (s.test.cleanInstrument env).quickScheduling env fuel
  let (after, g) ← inferInstrument s.initDa.da.queue before [] test.stmtQueue s.initDa.graph
  let test ← (test.setStmtQueue env after).instrumentTxnStmts env
  return { s with test := test, initDa := ⟨s.initDa.da, g⟩ }

theorem reschedule_eq_quick (hclear : s.test.planned.test.Cleared) :
    s.reschedule env fuel = s.quickReschedule env fuel := by
  unfold reschedule quickReschedule
  rw [← RoundTest.blockScheduling_eq_quick (RoundTest.cleared_cleanInstrument hclear)]

/-- `rerun` -/
def quickRerun (env : RoundEnv Val) (fuel : ℕ) (deletedNodes : Finset StmtId)
    (s : RefineState Val) : Except Failure (Option RefineExit × RefineState Val) := do
  let s ← s.quickReschedule env fuel
  let test ← s.test.quickTest env
  let s := { s with test := test }
  if test.quickErrorRateHigh then return (some .errorRate, s)
  let (bug, da) ← test.analyzeTxnDependency
  if bug then throw (.runtimeError "BUG: found in analyze_txn_dependency()")
  let sort ← da.queue.topologicalSortPath da.graphs.stmt deletedNodes
  let s := { s with tmpDa := some ⟨da, sort.graph⟩, longestStmtPath := sort.path }
  return (if sort.path = [] then some .emptyPath else none, s)

theorem rerun_eq_quick (hclear : s.test.planned.test.Cleared) :
    s.rerun env fuel deletedNodes = s.quickRerun env fuel deletedNodes := by
  unfold rerun quickRerun
  simp only [← reschedule_eq_quick hclear, ← RoundTest.errorRateHigh_eq_quick]
  refine bind_congr_ok fun s1 hsched => ?_
  rw [RoundTest.transTest_eq_quick (cleared_reschedule hsched)]

/-- `loop` -/
def quickLoop (env : RoundEnv Val) (deletedNodes : Finset StmtId) :
    ℕ → RefineState Val → Except Failure (RefineExit × RefineState Val)
  | 0, _ => .error .outOfFuel
  | fuel + 1, s => do
    let (isRefined, s) ← s.refineStmtQueue
    if !isRefined then return (.unchanged, s)
    else do
      let (exit, s) ← s.quickRerun env fuel deletedNodes
      match exit with
      | some exit => return (exit, s)
      | none => quickLoop env deletedNodes fuel s

theorem loop_eq_quick (s : RefineState Val) :
    loop env deletedNodes fuel s = quickLoop env deletedNodes fuel s := by
  induction fuel generalizing s with
  | zero => rfl
  | succ fuel ih =>
    rw [loop, quickLoop]
    refine bind_congr_ok fun r hrefine => ?_
    obtain ⟨isRefined, s1⟩ := r
    cases isRefined with
    | false => rfl
    | true =>
      simp only [Bool.not_true, Bool.false_eq_true, if_false, rerun_eq_quick (cleared_refine hrefine)]
      refine bind_congr_ok fun r2 _ => ?_
      obtain ⟨exit, s2⟩ := r2
      cases exit with
      | some exit => rfl
      | none => exact ih s2

end RefineState

/-- `refineRounds` -/
def quickRounds (env : RoundEnv Val) (fuel : ℕ) (s : RoundState Val) :
    Except Failure (Option (RefineExit × RefineState Val)) := do
  let sort ← s.initDa.da.queue.topologicalSortPath s.initDa.graph s.deletedNodes
  if sort.path = [] then return none
  let r ← RefineState.quickLoop env s.deletedNodes fuel
    ⟨s.test, ⟨s.initDa.da, sort.graph⟩, none, sort.path⟩
  return some r

theorem refineRounds_eq_quick (s : RoundState Val) :
    refineRounds env fuel s = quickRounds env fuel s := by
  unfold refineRounds quickRounds
  refine bind_congr_ok fun sort _ => ?_
  rw [RefineState.loop_eq_quick]

end DbFuzz
