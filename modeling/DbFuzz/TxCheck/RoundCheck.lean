import DbFuzz.TxCheck.PlainRounds
import DbFuzz.TxCheck.RoundRun
import DbFuzz.TxCheck.TableNames

/-! The rounds of `multi_stmt_round_test` as a run: which path a round compares, and how
far the deleted nodes have grown. -/

namespace DbFuzz

open Loop AnalyzedQueue

variable {Val : Type}

namespace RefineState

variable {env : RoundEnv Val} {fuel : ℕ} {deletedNodes : Finset StmtId}
  {r r' s s' : RefineState Val} {exit : RefineExit}

/-- The analysis that `tmp_da` points to. -/
def current (r : RefineState Val) : Analysis := r.tmpDa.getD r.initDa

/-- The analyzer is the same, with the same labels. -/
structure SameCurrent (r r' : RefineState Val) : Prop where
  da : r'.current.da = r.current.da
  labels : SameLabels r.current.graph r'.current.graph

theorem SameInit.sameCurrent (h : SameInit r r') (htmp : r'.tmpDa = r.tmpDa) :
    SameCurrent r r' := by
  cases ha : r.tmpDa with
  | none =>
    constructor
    · simpa [current, htmp, ha] using h.da
    · simpa [current, htmp, ha] using h.labels
  | some a =>
    constructor
    · simp [current, htmp, ha]
    · simpa [current, htmp, ha] using SameLabels.refl a.graph

theorem refineStmtQueue_current {b : Bool} (h : r.refineStmtQueue = .ok (b, s)) :
    SameCurrent r s := by
  obtain ⟨-, -, -, -, -, -, -, hinit, hmap, hlabels⟩ := refineStmtQueue_spec h
  cases ha : r.tmpDa with
  | none =>
    rw [ha, Option.map_none, Option.map_eq_none_iff] at hmap
    exact hinit.sameCurrent (hmap.trans ha.symm)
  | some a =>
    rw [ha, Option.map_some, Option.map_eq_some_iff] at hmap
    obtain ⟨a', ha', hda⟩ := hmap
    constructor
    · simpa [current, ha, ha'] using hda
    · simpa [current, ha, ha'] using hlabels a ha a' ha'

/-- The path is the one the sort of the current analysis returned. -/
def Sorted (deletedNodes : Finset StmtId) (r : RefineState Val) : Prop :=
  ∃ g sort, r.current.da.Derived g ∧ SameLabels g r.current.graph ∧
    r.current.da.queue.topologicalSortPath g deletedNodes = .ok sort ∧
    r.longestStmtPath = sort.path

theorem Sorted.of_same (h : r.Sorted deletedNodes) (hsame : SameCurrent r s)
    (hpath : s.longestStmtPath = r.longestStmtPath) : s.Sorted deletedNodes := by
  obtain ⟨g, sort, hderived, hlabels, hsort, hp⟩ := h
  exact ⟨g, sort, hsame.da ▸ hderived, hlabels.trans hsame.labels, hsame.da ▸ hsort,
    hpath.trans hp⟩

theorem refineStmtQueue_sorted {b : Bool} (hr : r.Sorted deletedNodes)
    (h : r.refineStmtQueue = .ok (b, s)) : s.Sorted deletedNodes := by
  obtain ⟨-, -, -, -, -, -, hpath, -⟩ := refineStmtQueue_spec h
  exact hr.of_same (refineStmtQueue_current h) hpath

theorem rerun_sorted {exit : Option RefineExit} (hr : s.Sorted deletedNodes)
    (h : s.rerun env fuel deletedNodes = .ok (exit, s')) : s'.Sorted deletedNodes := by
  obtain ⟨hinit, ⟨-, -, hpath, htmp⟩ | ⟨-, da, sort, -, hsort, htmp, hpath, -⟩⟩ := rerun_spec h
  · exact hr.of_same (hinit.sameCurrent htmp) hpath
  · have hcurrent : s'.current = ⟨da, sort.graph⟩ := by rw [current, htmp]; rfl
    refine ⟨da.graphs.stmt, sort, ?_, ?_, ?_, hpath⟩
    · rw [hcurrent]
      exact DependencyAnalyzer.Derived.refl da
    · rw [hcurrent]
      exact topologicalSortPath_sameLabels hsort
    · rw [hcurrent]
      exact hsort

theorem Iterates.sorted (hr : r.Sorted deletedNodes) (h : Iterates env deletedNodes r r') :
    r'.Sorted deletedNodes := by
  induction h with
  | refl => exact hr
  | tail _ hstep ih =>
    obtain ⟨s, fuel, hrefine, hrerun⟩ := hstep
    exact rerun_sorted (refineStmtQueue_sorted ih hrefine) hrerun

theorem loop_sorted (hr : r.Sorted deletedNodes)
    (h : loop env deletedNodes fuel r = .ok (exit, r')) : r'.Sorted deletedNodes := by
  obtain ⟨r1, hiter, ⟨-, hrefine⟩ | ⟨s, fuel, hrefine, hrerun⟩⟩ := loop_exit h
  · exact refineStmtQueue_sorted (hiter.sorted hr) hrefine
  · exact rerun_sorted (refineStmtQueue_sorted (hiter.sorted hr) hrefine) hrerun

/-- The current analysis is the one of the run whose results the test holds. -/
def Analyzed (r : RefineState Val) : Prop :=
  r.test.analyzeTxnDependency = .ok (false, r.current.da)

theorem rerun_analyzed (h : s.rerun env fuel deletedNodes = .ok (none, s')) : s'.Analyzed := by
  obtain ⟨-, ⟨hexit, -⟩ | ⟨-, da, sort, hda, -, htmp, -⟩⟩ := rerun_spec h
  · cases hexit
  · rw [Analyzed, hda, current, htmp]
    rfl

theorem Iterates.analyzed (hr : r.Analyzed) (h : Iterates env deletedNodes r r') :
    r'.Analyzed := by
  cases Relation.ReflTransGen.cases_tail h with
  | inl heq => exact heq ▸ hr
  | inr hlast =>
    obtain ⟨r1, -, s, fuel, -, hrerun⟩ := hlast
    exact rerun_analyzed hrerun

/-- A call that changes nothing leaves the results of the run. -/
theorem refineStmtQueue_analyzed (hr : r.Analyzed) (h : r.refineStmtQueue = .ok (false, s)) :
    s.Analyzed := by
  have hcurrent := (refineStmtQueue_current h).da
  obtain ⟨q, g, g', planned, hrefine, htest, -⟩ := refineStmtQueue_spec h
  obtain ⟨hsame, -⟩ := PlannedTest.refineStmtQueue_false hrefine
  rw [if_neg Bool.false_ne_true] at htest
  have hanalyze : s.test.analyzeTxnDependency = r.test.analyzeTxnDependency := by
    rw [htest]
    unfold RoundTest.analyzeTxnDependency RoundTest.withPlanned
    dsimp only
    rw [hsame.analyzerInput]
  rw [Analyzed, hanalyze, hcurrent]
  exact hr

/-- Every non-INIT basic statement of every committed transaction is on the path. -/
def Complete (r : RefineState Val) : Prop :=
  ∀ i < r.test.planned.plan.stmtNum,
    r.test.planned.plan.tidQueue i < r.test.planned.transNum →
    (r.test.planned.txn (r.test.planned.plan.tidQueue i)).status = .commit →
    (r.test.planned.use i).stmtType ≠ .initType →
    (r.test.planned.use i).isInstrumented = false →
    r.test.planned.sid i ∈ r.longestStmtPath

theorem refineStmtQueue_complete (h : r.refineStmtQueue = .ok (false, s)) : s.Complete := by
  obtain ⟨q, g, g', planned, hrefine, htest, hpath, -⟩ := refineStmtQueue_spec h
  obtain ⟨hsame, hoff, hnone⟩ := PlannedTest.refineStmtQueue_false hrefine
  rw [if_neg Bool.false_ne_true] at htest
  have hplanned : s.test.planned = planned := by rw [htest]; rfl
  have hnum : planned.transNum = r.test.planned.transNum := by
    obtain ⟨a, rfl⟩ := hsame.eq
    rfl
  rw [← hsame.plan] at hnone
  rw [← hnum] at hoff
  rw [Complete, hplanned, hpath]
  intro i hi htid hcommit hinit hbasic
  by_contra hmem
  -- the transaction is on the path, so the statement would have been dropped
  have hon : PlannedTest.onPath r.longestStmtPath (planned.plan.tidQueue i) = true := by
    by_contra hon
    rw [Bool.not_eq_true] at hon
    have habort := hoff _ htid hon
    rw [← hsame.status, hcommit] at habort
    cases habort
  have hcast : planned.isTxnStmt i = false := by
    simp [PlannedTest.isTxnStmt, hinit]
  exact hnone i hi ((hsame.dropped_iff _ i).1 ⟨hi, hon, hmem, hcast, hbasic⟩)

end RefineState

/-! The rounds. -/

variable {env : RoundEnv Val} {init : InitStatus Val} {fuel : ℕ} {s0 s s' : RoundState Val}
  {t : RoundTest Val} {paths : List (List StmtId)} {exit : RefineExit}
  {r : RefineState Val}

/-- The state at the head of the refinement loop, after the sort of the first analysis. -/
def RoundState.refineStart (s : RoundState Val) (sort : SortState) : RefineState Val :=
  ⟨s.test, ⟨s.initDa.da, sort.graph⟩, none, sort.path⟩

/-- Complete rounds from `s0` on, each from a state that meets a condition, with the paths
they compared. -/
inductive Rounds (env : RoundEnv Val) (init : InitStatus Val) (fuel : ℕ)
    (Meets : RoundState Val → Prop) (s0 : RoundState Val) :
    RoundState Val → List (List StmtId) → Prop
  | start : Rounds env init fuel Meets s0 s0 []
  | next {s s' : RoundState Val} {paths : List (List StmtId)} {exit : RefineExit}
      {r : RefineState Val} : Rounds env init fuel Meets s0 s paths → Meets s →
      refineRounds env fuel s = .ok (some (exit, r)) →
      multiStmtRound env init fuel s = .ok (.next s') →
      Rounds env init fuel Meets s0 s' (paths ++ [r.longestStmtPath])

theorem refineRounds_spec (h : refineRounds env fuel s = .ok (some (exit, r))) :
    ∃ sort, s.initDa.da.queue.topologicalSortPath s.initDa.graph s.deletedNodes = .ok sort ∧
      sort.path ≠ [] ∧
      RefineState.loop env s.deletedNodes fuel (s.refineStart sort) = .ok (exit, r) := by
  obtain ⟨sort, hsort, h⟩ := bind_eq_ok_iff.1 h
  split at h
  · cases h
  · next hne =>
    obtain ⟨r', hloop, h⟩ := bind_eq_ok_iff.1 h
    cases h
    exact ⟨sort, hsort, hne, hloop⟩

/-- A round leaves the first analyzer, with the same labels, until the deletion. -/
theorem refineRounds_initDa (h : refineRounds env fuel s = .ok (some (exit, r))) :
    r.initDa.da = s.initDa.da ∧ SameLabels s.initDa.graph r.initDa.graph := by
  obtain ⟨sort, hsort, -, hloop⟩ := refineRounds_spec h
  obtain ⟨hda, hlabels⟩ := RefineState.loop_sameInit hloop
  exact ⟨hda, (topologicalSortPath_sameLabels hsort).trans hlabels⟩

theorem refineRounds_sorted (hs : s.initDa.da.Derived s.initDa.graph)
    (h : refineRounds env fuel s = .ok (some (exit, r))) : r.Sorted s.deletedNodes := by
  obtain ⟨sort, hsort, -, hloop⟩ := refineRounds_spec h
  have hstart : (s.refineStart sort).Sorted s.deletedNodes :=
    ⟨s.initDa.graph, sort, hs, topologicalSortPath_sameLabels hsort, hsort, rfl⟩
  exact RefineState.loop_sorted hstart hloop

/-- What a round with a comparison that agrees has deleted. -/
theorem multiStmtRound_next (hrefine : refineRounds env fuel s = .ok (some (exit, r)))
    (h : multiStmtRound env init fuel s = .ok (.next s')) :
    s'.initDa.da = s.initDa.da ∧
      forEach r.longestStmtPath (deletePathStmt s.initDa.da.queue)
        (r.initDa.graph, s.deletedNodes) = .ok (s'.initDa.graph, s'.deletedNodes) := by
  obtain ⟨loopEnd, hloop, h⟩ := bind_eq_ok_iff.1 h
  obtain rfl := Except.ok.inj (hloop.symm.trans hrefine)
  obtain ⟨v, -, hv⟩ := bind_eq_ok_iff.1 h
  obtain ⟨hda, -⟩ := refineRounds_initDa hrefine
  rw [← hda]
  cases v with
  | none => cases hv
  | some v =>
    obtain ⟨b, t⟩ := v
    cases b with
    | false => cases hv
    | true =>
      obtain ⟨d, hdelete, hv⟩ := bind_eq_ok_iff.1 hv
      obtain ⟨t', -, hv⟩ := bind_eq_ok_iff.1 hv
      cases hv
      exact ⟨rfl, hdelete⟩

theorem firstAnalysis_spec (h : firstAnalysis env fuel t = .ok (some (init, s0))) :
    s0.initDa.graph = s0.initDa.da.graphs.stmt ∧ s0.deletedNodes = ∅ ∧
      s0.test.analyzeTxnDependency = .ok (false, s0.initDa.da) := by
  obtain ⟨t1, -, h⟩ := bind_eq_ok_iff.1 h
  obtain ⟨t2, -, h⟩ := bind_eq_ok_iff.1 h
  obtain ⟨t3, -, h⟩ := bind_eq_ok_iff.1 h
  split at h
  · cases h
  · obtain ⟨⟨bug, da⟩, hda, h⟩ := bind_eq_ok_iff.1 h
    cases bug with
    | true => cases h
    | false =>
      cases h
      exact ⟨rfl, rfl, hda⟩

theorem Rounds.initDa {Meets : RoundState Val → Prop}
    (h : Rounds env init fuel Meets s0 s paths) :
    s.initDa.da = s0.initDa.da ∧ KeepsInstrument s0.initDa.graph s.initDa.graph := by
  induction h with
  | start => exact ⟨rfl, KeepsInstrument.refl _⟩
  | next _ _ hrefine hround ih =>
    obtain ⟨hda, hdelete⟩ := multiStmtRound_next hrefine hround
    obtain ⟨hkeeps, -⟩ := forEach_deletePathStmt hdelete
    have hlabels := (refineRounds_initDa hrefine).2.keepsInstrument
    exact ⟨hda.trans ih.1, (ih.2.trans hlabels).trans hkeeps⟩

/-! The comparison of a round. -/

/-- A round calls `check_normal_stmt_result` after its refinement loop. -/
def Checks (env : RoundEnv Val) (fuel : ℕ) (s : RoundState Val) (exit : RefineExit)
    (r : RefineState Val) : Prop :=
  refineRounds env fuel s = .ok (some (exit, r)) ∧ ∃ v, checkRound env s exit r = .ok (some v)

/-- The loop ended because nothing was left to change: the path is complete for the
committed transactions, and was computed from the run that is compared. -/
structure ChecksRun (deletedNodes : Finset StmtId) (exit : RefineExit) (r : RefineState Val) :
    Prop where
  unchanged : exit = .unchanged
  complete : r.Complete
  analyzed : r.Analyzed
  sorted : r.Sorted deletedNodes

/-- No run of the refinement loop is given up. A later round, which starts with the
results of the round before, changes something first. -/
structure RefinesToEnd (env : RoundEnv Val) (fuel : ℕ) (s : RoundState Val) : Prop where
  rerun : ∀ sort, s.initDa.da.queue.topologicalSortPath s.initDa.graph s.deletedNodes = .ok sort →
    ∀ r1, RefineState.Iterates env s.deletedNodes (s.refineStart sort) r1 →
    ∀ r2, r1.refineStmtQueue = .ok (true, r2) →
    ∀ k exit r3, r2.rerun env k s.deletedNodes = .ok (exit, r3) →
      r3.test.errorRateHigh = false ∧ r3.longestStmtPath ≠ []
  first : s.test.analyzeTxnDependency = .ok (false, s.initDa.da) ∨
    ∀ sort, s.initDa.da.queue.topologicalSortPath s.initDa.graph s.deletedNodes = .ok sort →
      ∀ r, (s.refineStart sort).refineStmtQueue ≠ .ok (false, r)

theorem RefinesToEnd.analyzed (h : RefinesToEnd env fuel s)
    (hrefine : refineRounds env fuel s = .ok (some (exit, r))) :
    exit = .unchanged ∧ r.Complete ∧ r.Analyzed := by
  obtain ⟨sort, hsort, -, hloop⟩ := refineRounds_spec hrefine
  obtain ⟨r1, hiter, ⟨hexit, hlast⟩ | ⟨r2, k, hlast, hrerun⟩⟩ := RefineState.loop_exit hloop
  · refine ⟨hexit, RefineState.refineStmtQueue_complete hlast, ?_⟩
    rcases h.first with hanalyze | hfirst
    · have hstart : (s.refineStart sort).Analyzed := hanalyze
      exact RefineState.refineStmtQueue_analyzed (hiter.analyzed hstart) hlast
    · -- the loop did not end with its first call
      cases Relation.ReflTransGen.cases_tail hiter with
      | inl heq =>
        subst heq
        exact absurd hlast (hfirst sort hsort r)
      | inr hstep =>
        obtain ⟨r0, -, r2, k, hchange, hrerun⟩ := hstep
        exact RefineState.refineStmtQueue_analyzed (RefineState.rerun_analyzed hrerun) hlast
  · obtain ⟨herr, hpath⟩ := h.rerun sort hsort r1 hiter r2 hlast k _ r hrerun
    obtain ⟨-, ⟨-, herr', -⟩ | ⟨-, da, sort', -, -, -, hpath', hexit⟩⟩ :=
      RefineState.rerun_spec hrerun
    · rw [herr] at herr'
      cases herr'
    · rw [if_neg (hpath' ▸ hpath)] at hexit
      cases hexit

/-- A round that is refined to its end, whatever the rounds before it did, compares the run
its path was computed from. -/
theorem check_of_refinesToEnd {P : RoundState Val → Prop}
    (hfirst : firstAnalysis env fuel t = .ok (some (init, s0)))
    (hrun : Rounds env init fuel P s0 s paths)
    (hs : RefinesToEnd env fuel s) (hcheck : Checks env fuel s exit r) :
    ChecksRun s.deletedNodes exit r := by
  obtain ⟨hgraph, -, -⟩ := firstAnalysis_spec hfirst
  obtain ⟨hda, hkeeps⟩ := hrun.initDa
  have hderived : s.initDa.da.Derived s.initDa.graph := by
    rw [hda]
    exact ((DependencyAnalyzer.Derived.refl _).of_keeps (hgraph ▸ hkeeps))
  obtain ⟨hexit, hcomplete, hanalyzed⟩ := hs.analyzed hcheck.1
  exact ⟨hexit, hcomplete, hanalyzed, refineRounds_sorted hderived hcheck.1⟩

/-! A run of the refinement loop with too many failures. -/

/-- A test as `gen_txn_stmts` leaves it, and the server's answers. -/
def generatedTest (transNum : ℕ) (queue : List (Prod ℕ × ℕ)) (answers : List TestResult) :
    RoundTest ℕ :=
  let plan : TestPlan := ⟨0, fun _ => 0, fun _ => .mk' .initType false, "COMMIT", "ROLLBACK",
    fun k => answers.getD k (.ok [])⟩
  let test : TransTest := ⟨fun _ => "", fun _ => ⟨false, [], [], [], .commit⟩, fun _ => false,
    [], [], [], [], []⟩
  let t : RoundTest ℕ := ⟨⟨plan, transNum, fun _ => false, test⟩, fun _ => .txnString "",
    .empty, .empty, [], [], .empty, 0, 0⟩
  let env : RoundEnv ℕ := ⟨plainEnv, fun _ => "", fun _ => .empty, fun _ => .ok []⟩
  (t.setStmtQueue env (queue.map fun e => ⟨e.1, e.2, .mk' .initType false⟩)).alignTxns

theorem cleared_generated (transNum : ℕ) (queue : List (Prod ℕ × ℕ)) (answers : List TestResult) :
    (generatedTest transNum queue answers).planned.test.Cleared :=
  TransTest.Cleared.alignTxns ⟨fun _ => rfl, fun _ => rfl, fun _ => rfl, rfl, rfl, rfl, rfl⟩

def emptyDatabase (normalAnswers : List TestResult) : RoundEnv ℕ where
  instrument := plainEnv
  queryText _ := ""
  contents _ := .empty
  normalAnswers k := normalAnswers.getD k (.ok [])

/-- The way out of the first round's loop and the result of its comparison. -/
def firstCheck (env : RoundEnv Val) (fuel : ℕ) (t : RoundTest Val) :
    Except Failure (Option (RefineExit × Bool)) := do
  match ← firstAnalysis env fuel t with
  | none => return none
  | some (_, s) =>
    match ← refineRounds env fuel s with
    | none => return none
    | some (exit, r) => return (← checkRound env s exit r).map fun v => (exit, v.1)

theorem firstCheck_spec {b : Bool} (h : firstCheck env fuel t = .ok (some (exit, b))) :
    ∃ init s r, firstAnalysis env fuel t = .ok (some (init, s)) ∧ Checks env fuel s exit r ∧
      (b = false → multiStmtRound env init fuel s = .ok .bug) := by
  obtain ⟨first, hfirst, h⟩ := bind_eq_ok_iff.1 h
  cases first with
  | none => cases h
  | some first =>
    obtain ⟨loopEnd, hrefine, h⟩ := bind_eq_ok_iff.1 h
    cases loopEnd with
    | none => cases h
    | some loopEnd =>
      obtain ⟨v, hcheck, h⟩ := bind_eq_ok_iff.1 h
      cases v with
      | none => cases h
      | some v =>
        cases h
        refine ⟨first.1, first.2, loopEnd.2, hfirst, ⟨hrefine, v, hcheck⟩, fun hbug => ?_⟩
        obtain ⟨b, t'⟩ := v
        obtain rfl : b = false := hbug
        exact bind_eq_ok_iff.2 ⟨_, hrefine, bind_eq_ok_iff.2 ⟨_, hcheck, rfl⟩⟩

/-- Four statements of a transaction, one after the other. -/
def sampleTxn (tid : ℕ) : List (Prod ℕ × ℕ) :=
  [(.txnString "BEGIN", tid), (.other "select 1", tid), (.other "select 1", tid),
    (.txnString "COMMIT", tid)]

/-- Six transactions; the scheduling leaves one select. -/
def sampleRounds (answers : List TestResult) : RoundTest ℕ :=
  let skipped : TestResult := .error "skipped"
  generatedTest 6 ((List.range 6).flatMap sampleTxn)
    ([.ok [], .ok [], skipped, .ok []] ++
      (List.replicate 5 [.ok [], skipped, skipped, .ok []]).flatten ++
      List.replicate 24 (.ok []) ++ answers)

/-- After the first run and the scheduling, 7 of the 13 statements are skipped. The round
is not given up: it compares the path of the first run and reports a bug. -/
theorem check_after_errorRate :
    let t := sampleRounds (List.replicate 26 (.ok []) ++ List.replicate 7 (.error "skipped"))
    let env := emptyDatabase [.ok [["1"]]]
    ∃ init s0 r, firstAnalysis env 10 t = .ok (some (init, s0)) ∧
      Checks env 10 s0 .errorRate r ∧ multiStmtRound env init 10 s0 = .ok .bug ∧
      ¬ ChecksRun s0.deletedNodes .errorRate r := by
  intro t env
  have hclear : t.planned.test.Cleared := cleared_generated _ _ _
  have hexit : firstCheck env 10 t = .ok (some (.errorRate, false)) := by
    simp only [firstCheck, firstAnalysis_eq_quick hclear, refineRounds_eq_quick]
    decide +kernel
  obtain ⟨init, s, r, hfirst, hcheck, hbug⟩ := firstCheck_spec hexit
  refine ⟨init, s, r, hfirst, hcheck, hbug rfl, fun h => ?_⟩
  cases h.unchanged

/-- Fuel for one round of the scheduling suffices only when nothing is changed. -/
theorem RefineState.loop_one {deletedNodes : Finset StmtId} {r r' : RefineState Val}
    (h : loop env deletedNodes 1 r = .ok (exit, r')) : r.refineStmtQueue = .ok (false, r') := by
  obtain ⟨⟨isRefined, s⟩, hrefine, h⟩ := bind_eq_ok_iff.1 h
  cases isRefined with
  | false =>
    cases h
    exact hrefine
  | true =>
    obtain ⟨_, hrerun, -⟩ := bind_eq_ok_iff.1 h
    obtain ⟨_, hsched, -⟩ := bind_eq_ok_iff.1 hrerun
    obtain ⟨_, hblock, -⟩ := bind_eq_ok_iff.1 hsched
    cases hblock

theorem RefinesToEnd.of_one (hanalyze : s.test.analyzeTxnDependency = .ok (false, s.initDa.da))
    (hrefine : refineRounds env 1 s = .ok (some (exit, r))) (k : ℕ) : RefinesToEnd env k s := by
  refine ⟨fun sort hsort r1 hiter r2 hchange => ?_, Or.inl hanalyze⟩
  obtain ⟨sort', hsort', -, hloop⟩ := refineRounds_spec hrefine
  obtain rfl := Except.ok.inj (hsort.symm.trans hsort')
  have hunchanged := RefineState.loop_one hloop
  cases Relation.ReflTransGen.cases_head hiter with
  | inl heq =>
    rw [← heq, hunchanged] at hchange
    cases hchange
  | inr hstep =>
    obtain ⟨_, ⟨_, _, hchange', -⟩, -⟩ := hstep
    rw [hunchanged] at hchange'
    cases hchange'

theorem check_of_refinesToEnd_select :
    let t := generatedTest 1 (sampleTxn 0) []
    let env := emptyDatabase []
    ∃ init s r, firstAnalysis env 1 t = .ok (some (init, s)) ∧ Checks env 1 s .unchanged r ∧
      ChecksRun s.deletedNodes .unchanged r := by
  intro t env
  have hexit : firstCheck env 1 t = .ok (some (.unchanged, true)) := by decide +kernel
  obtain ⟨init, s, r, hfirst, hcheck, -⟩ := firstCheck_spec hexit
  obtain ⟨-, -, hanalyze⟩ := firstAnalysis_spec hfirst
  exact ⟨init, s, r, hfirst, hcheck, check_of_refinesToEnd (P := fun _ => True) hfirst .start
    (RefinesToEnd.of_one hanalyze hcheck.1 1) hcheck⟩

end DbFuzz
