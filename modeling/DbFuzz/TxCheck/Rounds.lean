import DbFuzz.TxCheck.RoundTest

/-! The loops of `multi_stmt_round_test`. A round sorts the graph of the first analysis,
refines the queue to the path until nothing changes, compares, and deletes the path. -/

namespace DbFuzz

open Loop

variable {Val : Type}

/-! `infer_instrument_after_blocking` -/

/-- The index of the `pos`-th basic statement of a transaction from `j` on. -/
def basicIdx (tid : ℤ) : List (Emitted Val) → ℕ → ℕ → Option ℕ
  | [], _, _ => none
  | e :: rest, pos, j =>
    if e.tid ≠ tid then basicIdx tid rest pos (j + 1)
    else if e.usage.isInstrumented then basicIdx tid rest pos (j + 1)
    else if pos = 0 then some j
    else basicIdx tid rest (pos - 1) (j + 1)

/-- The number of times an entry is put back: the size of the group that `before_da` has
at the index of the statement in the queue before the scheduling. -/
def copiesOf (q : AnalyzedQueue) (before : List (Emitted Val)) (e : Emitted Val) (stmtPos : ℕ)
    (g : StmtGraph) : Except Failure (ℕ × StmtGraph) :=
  if e.usage.stmtType ≠ .initType then .ok (1, g)
  else
    match basicIdx e.tid before stmtPos 0 with
    | none => .error .badIndex
    | some j =>
      if (before[j]?).any (fun b => b.usage.stmtType == .initType) then .ok (1, g)
      else do
        let (g, instrumentedSet) ← q.getInstrumentedStmtSet g j
        return (instrumentedSet.card, g)

/-- The loop over the scheduled queue; `done` are the entries before. -/
def inferInstrument (q : AnalyzedQueue) (before : List (Emitted Val)) :
    List (Emitted Val) → List (Emitted Val) → StmtGraph →
      Except Failure (List (Emitted Val) × StmtGraph)
  | _, [], g => .ok ([], g)
  | done, e :: rest, g => do
    let (copies, g) ← copiesOf q before e (done.countP fun d => d.tid == e.tid) g
    let (after, g) ← inferInstrument q before (done ++ [e]) rest g
    return (List.replicate copies e ++ after, g)

/-! The refinement loop. -/

/-- A `dependency_analyzer` with its graph as the queries and deletions have left it. -/
structure Analysis where
  da : DependencyAnalyzer
  graph : StmtGraph

/-- The variables of the refinement loop; `tmpDa` is `none` while `tmp_da` is `init_da`. -/
structure RefineState (Val : Type) where
  test : RoundTest Val
  initDa : Analysis
  tmpDa : Option Analysis
  longestStmtPath : List StmtId

/-- The ways out of the refinement loop. -/
inductive RefineExit
  | unchanged
  | errorRate
  | emptyPath
  deriving DecidableEq, Repr

namespace RefineState

/-- `refine_stmt_queue(longest_stmt_path, tmp_da)` -/
def refineStmtQueue (s : RefineState Val) : Except Failure (Bool × RefineState Val) :=
  match s.tmpDa with
  | none => do
    let (isRefined, g, planned) ←
      s.test.planned.refineStmtQueue s.initDa.da.queue s.initDa.graph s.longestStmtPath
    let test := s.test.withPlanned planned
    return (isRefined, { s with
      initDa := ⟨s.initDa.da, g⟩
      test := if isRefined then test.clearExecutionStatus else test })
  | some da => do
    let (isRefined, g, planned) ←
      s.test.planned.refineStmtQueue da.da.queue da.graph s.longestStmtPath
    let test := s.test.withPlanned planned
    return (isRefined, { s with
      tmpDa := some ⟨da.da, g⟩
      test := if isRefined then test.clearExecutionStatus else test })

/-- From `clean_instrument` to `instrument_txn_stmts`. -/
def reschedule (env : RoundEnv Val) (fuel : ℕ) (s : RefineState Val) :
    Except Failure (RefineState Val) := do
  let before := s.test.stmtQueue
  let test ← (s.test.cleanInstrument env).blockScheduling env fuel
  let (after, g) ← inferInstrument s.initDa.da.queue before [] test.stmtQueue s.initDa.graph
  let test ← (test.setStmtQueue env after).instrumentTxnStmts env
  return { s with test := test, initDa := ⟨s.initDa.da, g⟩ }

/-- The body of the refinement loop, and the way out it takes. -/
def rerun (env : RoundEnv Val) (fuel : ℕ) (deletedNodes : Finset StmtId) (s : RefineState Val) :
    Except Failure (Option RefineExit × RefineState Val) := do
  let s ← s.reschedule env fuel
  let test ← s.test.transTest env
  let s := { s with test := test }
  if test.errorRateHigh then return (some .errorRate, s)
  let (bug, da) ← test.analyzeTxnDependency
  if bug then throw (.runtimeError "BUG: found in analyze_txn_dependency()")
  let sort ← da.queue.topologicalSortPath da.graphs.stmt deletedNodes
  let s := { s with tmpDa := some ⟨da, sort.graph⟩, longestStmtPath := sort.path }
  return (if sort.path = [] then some .emptyPath else none, s)

/-- `while (refine_stmt_queue(longest_stmt_path, tmp_da) == true)` -/
def loop (env : RoundEnv Val) (deletedNodes : Finset StmtId) :
    ℕ → RefineState Val → Except Failure (RefineExit × RefineState Val)
  | 0, _ => .error .outOfFuel
  | fuel + 1, s => do
    let (isRefined, s) ← s.refineStmtQueue
    if !isRefined then return (.unchanged, s)
    else do
      let (exit, s) ← s.rerun env fuel deletedNodes
      match exit with
      | some exit => return (exit, s)
      | none => loop env deletedNodes fuel s

end RefineState

/-! The rounds. -/

/-- What is recorded of the first run. -/
structure InitStatus (Val : Type) where
  stmtQueue : List (Emitted Val)
  txnStatus : ℕ → TxnStatus
  txnStmt : ℕ → List String

structure RoundState (Val : Type) where
  test : RoundTest Val
  initDa : Analysis
  deletedNodes : Finset StmtId
  stmtPathEmptyTime : ℕ

inductive RoundResult (Val : Type)
  | skip
  | bug
  | next (s : RoundState Val)

/-- A branch keeps its instrument dependency only. -/
def keepInstrument (g : StmtGraph) (a b : StmtId) : StmtGraph :=
  if .instrumentDepend ∈ g.labels a b then g.set a b (some {.instrumentDepend}) else g.erase a b

/-- The branches between a statement and every statement. -/
def deleteBranches (q : AnalyzedQueue) (s : StmtId) (g : StmtGraph) : StmtGraph :=
  (List.range q.stmtNum).foldl
    (fun g j => keepInstrument (keepInstrument g (q.sid j) s) s (q.sid j)) g

/-- The deletion of a statement of the compared path, with its group. -/
def deletePathStmt (q : AnalyzedQueue) (s : StmtId) (r : StmtGraph × Finset StmtId) :
    Except Failure (StmtGraph × Finset StmtId) :=
  match s.transfer2StmtIdx q.fTxnIdQueue with
  | none => .error .badIndex
  | some queueIdx => do
    let (g, idxSet) ← q.getInstrumentedStmtSet r.1 queueIdx
    return (q.indices idxSet).foldl
      (fun r i => (deleteBranches q (q.sid i) r.1, insert (q.sid i) r.2)) (g, r.2)

/-- The queue and the transactions of the first run again. -/
def restore (env : RoundEnv Val) (init : InitStatus Val) (t : RoundTest Val) :
    Except Failure (RoundTest Val) :=
  let t := t.setStmtQueue env init.stmtQueue
  forRange t.planned.transNum
    (fun tid t => do
      let planned := t.planned.setTxn tid fun x => { x with stmts := init.txnStmt tid }
      let (_, planned) ← planned.changeTxnStatus tid (init.txnStatus tid)
      return t.withPlanned planned) t

/-- A round up to the end of the refinement loop; `none` when the ideal path is empty. -/
def refineRounds (env : RoundEnv Val) (fuel : ℕ) (s : RoundState Val) :
    Except Failure (Option (RefineExit × RefineState Val)) := do
  let sort ← s.initDa.da.queue.topologicalSortPath s.initDa.graph s.deletedNodes
  if sort.path = [] then return none
  let r ← RefineState.loop env s.deletedNodes fuel
    ⟨s.test, ⟨s.initDa.da, sort.graph⟩, none, sort.path⟩
  return some r

/-- The number of empty paths so far. -/
def emptyTime (s : RoundState Val) (exit : RefineExit) : ℕ :=
  if exit = .emptyPath then s.stmtPathEmptyTime + 1 else s.stmtPathEmptyTime

/-- The comparison of a round, or `none` when the graph is skipped before. -/
def checkRound (env : RoundEnv Val) (s : RoundState Val) (exit : RefineExit)
    (r : RefineState Val) : Except Failure (Option (Bool × RoundTest Val)) :=
  if exit = .emptyPath ∧ 3 ≤ emptyTime s exit then .ok none
  else do
    let t ← r.test.normalStmtTest env r.longestStmtPath
    return some (← t.checkNormalStmtResult r.longestStmtPath, t)

def multiStmtRound (env : RoundEnv Val) (init : InitStatus Val) (fuel : ℕ) (s : RoundState Val) :
    Except Failure (RoundResult Val) := do
  match ← refineRounds env fuel s with
  | none => return .skip
  | some (exit, r) =>
    match ← checkRound env s exit r with
    | none => return .skip
    | some (false, _) => return .bug
    | some (true, t) =>
      let (g, deletedNodes) ← forEach r.longestStmtPath (deletePathStmt r.initDa.da.queue)
        (r.initDa.graph, s.deletedNodes)
      return .next ⟨← restore env init t, ⟨r.initDa.da, g⟩, deletedNodes, emptyTime s exit⟩

/-- `while (1)` -/
def multiStmtRounds (env : RoundEnv Val) (init : InitStatus Val) (fuel : ℕ) :
    ℕ → RoundState Val → Except Failure Bool
  | 0, _ => .error .outOfFuel
  | rounds + 1, s => do
    match ← multiStmtRound env init fuel s with
    | .skip => return false
    | .bug => return true
    | .next s => multiStmtRounds env init fuel rounds s

/-- The part before the rounds; `none` when too many statements failed. -/
def firstAnalysis (env : RoundEnv Val) (fuel : ℕ) (t : RoundTest Val) :
    Except Failure (Option (InitStatus Val × RoundState Val)) := do
  let t ← t.blockScheduling env fuel
  let t := t.setStmtQueue env (t.stmtQueue.filter fun e => !isSpaceHolder (env.print e.stmt))
  let t ← t.instrumentTxnStmts env
  let t ← t.transTest env
  if t.errorRateHigh then return none
  let (bug, da) ← t.analyzeTxnDependency
  if bug then throw (.runtimeError "BUG: found in analyze_txn_dependency()")
  return some (⟨t.stmtQueue, fun tid => (t.planned.txn tid).status,
    fun tid => (t.planned.txn tid).stmts⟩, ⟨t, ⟨da, da.graphs.stmt⟩, ∅, 0⟩)

def multiStmtRoundTest (env : RoundEnv Val) (fuel : ℕ) (t : RoundTest Val) :
    Except Failure Bool := do
  match ← firstAnalysis env fuel t with
  | none => return false
  | some (init, s) => multiStmtRounds env init fuel fuel s

end DbFuzz
