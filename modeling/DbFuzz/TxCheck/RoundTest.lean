import DbFuzz.TxCheck.Anomalies
import DbFuzz.TxCheck.Blocks
import DbFuzz.TxCheck.InitContent
import DbFuzz.TxCheck.RefineGroup
import DbFuzz.TxCheck.TopoSort

/-! `multi_stmt_round_test` (`transaction_test.cc`). A statement of the queue is a `prod`,
and the run of the queue, where a statement is its text, is the one of `Exec`. -/

namespace DbFuzz

open Loop

/-- `dynamic_pointer_cast<txn_string_stmt>(stmt)` -/
def Prod.isTxnString {Val : Type} : Prod Val → Bool
  | .txnString _ => true
  | _ => false

/-- What the test reads of its surroundings: `contents` are the answers to
`dut_get_content` and `normalAnswers` those to the calls of `normal_dut->test`, both in
the order of the calls. -/
structure RoundEnv (Val : Type) where
  instrument : InstrumentEnv Val
  queryText : QuerySpec Val → String
  contents : ℕ → Content
  normalAnswers : ℕ → TestResult

/-- The fields of `transaction_test`; `objects` are the statements of `stmt_queue`. -/
structure RoundTest (Val : Type) where
  planned : PlannedTest
  objects : ℕ → Prod Val
  initDbContent : Content
  transDbContent : Content
  normalStmtOutput : List StmtOutput
  normalStmtErrInfo : List String
  normalStmtDbContent : Content
  contentCalls : ℕ
  normalCalls : ℕ

variable {Val : Type}

/-- `print_stmt_to_string` -/
def RoundEnv.print (env : RoundEnv Val) : Prod Val → String
  | .rowWrite w => w.out env.instrument.targetDbms
  | .insert s => s.out
  | .txnString text => text
  | .query q => env.queryText q
  | .other text => text

/-- The test for a placeholder: its text and at most three more bytes. -/
def isSpaceHolder (text : String) : Bool :=
  containsText text spaceHolderStmt &&
    decide (text.utf8ByteSize ≤ spaceHolderStmt.utf8ByteSize + 3)

namespace RoundTest

/-! The queues. -/

/-- `stmt_queue`, `tid_queue` and `stmt_use`, entry by entry. -/
def stmtQueue (t : RoundTest Val) : List (Emitted Val) :=
  (List.range t.planned.plan.stmtNum).map fun i =>
    ⟨t.objects i, t.planned.plan.tidQueue i, t.planned.plan.stmtUse i⟩

def setStmtQueue (env : RoundEnv Val) (t : RoundTest Val) (queue : List (Emitted Val)) :
    RoundTest Val :=
  let entry := fun i => queue.getD i ⟨.txnString "", 0, .mk' .initType false⟩
  { t with
    objects := fun i => (entry i).stmt
    planned :=
      { t.planned with
        plan := { t.planned.plan with
          stmtNum := queue.length
          tidQueue := fun i => (entry i).tid.toNat
          stmtUse := fun i => (entry i).usage }
        isTxnString := fun i => (entry i).stmt.isTxnString
        test := { t.planned.test with stmtQueue := fun i => env.print (entry i).stmt } } }

/-- The planned index of an entry of the real queues, which keep the order of each
transaction. -/
def plannedIdx (t : RoundTest Val) (r : ℕ) : Option ℕ :=
  (StmtId.ofQueue t.planned.test.realTidQueue r).transfer2StmtIdx
    ((List.range t.planned.plan.stmtNum).map t.planned.plan.tidQueue)

/-- `real_stmt_queue`, `real_tid_queue` and `real_stmt_usage`, entry by entry: the planned
statement, or the text that took its place. -/
def realQueue (t : RoundTest Val) : List (Emitted Val) :=
  (List.range t.planned.test.realTidQueue.length).map fun r =>
    let text := t.planned.test.realStmtQueue.getD r ""
    let stmt := match t.plannedIdx r with
      | some i =>
        -- a skipped statement is replaced even where the texts agree
        if t.planned.stmt i = text ∧
            (t.planned.test.settled t.planned.plan i).any (·.skipped) = false then t.objects i
        else .txnString text
      | none => .txnString text
    ⟨stmt, t.planned.test.realTidQueue.getD r 0,
      t.planned.test.realStmtUsage.getD r (.mk' .initType false)⟩

/-- `trans_arr[tid].stmts` and `stmt_num`, rebuilt from the queue. -/
def alignTxns (t : RoundTest Val) : RoundTest Val :=
  { t with
    planned :=
      { t.planned with
        test :=
          { t.planned.test with
            transArr := fun tid =>
              if tid < t.planned.transNum then
                { t.planned.test.transArr tid with
                  stmts := (t.planned.plan.ofTxn tid (List.range t.planned.plan.stmtNum)).map
                    t.planned.stmt }
              else t.planned.test.transArr tid } } }

def instrumentTxnStmts (env : RoundEnv Val) (t : RoundTest Val) : Except Failure (RoundTest Val) :=
  return (t.setStmtQueue env (← instrumentor env.instrument env.queryText
    (t.stmtQueue.map fun e => (e.stmt, e.tid)))).alignTxns

def cleanInstrument (env : RoundEnv Val) (t : RoundTest Val) : RoundTest Val :=
  (t.setStmtQueue env (DbFuzz.cleanInstrument t.stmtQueue)).alignTxns

def clearExecutionStatus (t : RoundTest Val) : RoundTest Val :=
  { t with
    planned := t.planned.clearExecutionStatus
    initDbContent := .empty
    transDbContent := .empty
    normalStmtOutput := [], normalStmtErrInfo := []
    normalStmtDbContent := .empty }

/-- A planned test whose statements may be new; these are `txn_string_stmt`. -/
def withPlanned (t : RoundTest Val) (planned : PlannedTest) : RoundTest Val :=
  { t with
    planned := planned
    objects := fun i =>
      if planned.stmt i = t.planned.stmt i ∧ planned.isTxnString i = t.planned.isTxnString i then
        t.objects i
      else .txnString (planned.stmt i) }

/-- `trans_test` -/
def transTest (env : RoundEnv Val) (t : RoundTest Val) : Except Failure (RoundTest Val) := do
  let s ← DbFuzz.transTest t.planned.plan t.planned.test
  let t' := t.withPlanned { t.planned with
    test := s
    isTxnString := fun i => t.planned.isTxnString i || s.stmtQueue i != t.planned.stmt i }
  return { t' with
    initDbContent := env.contents t.contentCalls
    transDbContent := env.contents (t.contentCalls + 1)
    contentCalls := t.contentCalls + 2 }

/-- `stmt_queue == real_stmt_queue` compares pointers: nothing was moved, and no new
placeholder was made. -/
def noFailing (t : RoundTest Val) : Bool :=
  t.planned.test.realTidQueue ==
      (List.range t.planned.plan.stmtNum).map t.planned.plan.tidQueue &&
    (List.range t.planned.plan.stmtNum).all fun i =>
      !(t.planned.test.settled t.planned.plan i).any (·.skipped)

/-- `block_scheduling`; the source does not bound the rounds. -/
def blockScheduling (env : RoundEnv Val) : ℕ → RoundTest Val → Except Failure (RoundTest Val)
  | 0, _ => .error .outOfFuel
  | fuel + 1, t => do
    let t ← t.transTest env
    if t.noFailing then return t.clearExecutionStatus
    else blockScheduling env fuel (t.setStmtQueue env t.realQueue).clearExecutionStatus

/-! The analysis. -/

/-- `analyze_txn_dependency`: whether an anomaly was found, and the analyzer. -/
def analyzeTxnDependency (t : RoundTest Val) : Except Failure (Bool × DependencyAnalyzer) := do
  let a ← dependencyAnalyzer (t.planned.analyzerInput (t.initDbContent.tables.map Prod.snd))
  if a.checkG1a then return (true, a)
  else if a.checkG1b then return (true, a)
  else return (← a.checkG1c, a)

/-- More than half of the executed statements are placeholders. -/
def errorRateHigh (t : RoundTest Val) : Bool :=
  let real := t.planned.test.realStmtQueue
  real ≠ [] && decide (real.length < 2 * (real.countP isSpaceHolder))

/-! The normal test. -/

/-- A statement of a path, as `trans_arr` has it. -/
def pathStmt (t : RoundTest Val) (s : StmtId) : Except Failure String :=
  match (t.planned.txn s.txnId.toNat).stmts[s.stmtIdxInTxn.toNat]? with
  | some stmt => .ok stmt
  | none => .error .badIndex

/-- A call of `normal_dut->test`, and its output and error text. -/
def normalStmt (env : RoundEnv Val) (s : StmtId) (t : RoundTest Val) :
    Except Failure (RoundTest Val) := do
  let _ ← t.pathStmt s
  let (output, err) := match env.normalAnswers t.normalCalls with
    | .ok output => (output, "")
    | .error err => ([], if containsText err "skipped" then "" else err)
  return { t with
    normalStmtOutput := t.normalStmtOutput ++ [output]
    normalStmtErrInfo := t.normalStmtErrInfo ++ [err]
    normalCalls := t.normalCalls + 1 }

def normalStmtTest (env : RoundEnv Val) (path : List StmtId) (t : RoundTest Val) :
    Except Failure (RoundTest Val) := do
  let t ← forEach path (normalStmt env) t
  return { t with
    normalStmtDbContent := env.contents t.contentCalls, contentCalls := t.contentCalls + 1 }

/-- The output and the error text of a statement of a path in the concurrent run. -/
def pathResult (t : RoundTest Val) (s : StmtId) : Except Failure (StmtOutput × String) :=
  let txn := t.planned.txn s.txnId.toNat
  match txn.stmtOutputs[s.stmtIdxInTxn.toNat]?, txn.stmtErrInfo[s.stmtIdxInTxn.toNat]? with
  | some output, some err => .ok (output, err)
  | _, _ => .error .badIndex

end RoundTest

/-- Two error texts agree when both are there or both are empty. -/
def sameErrInfo (a b : String) : Bool := a == b || (a != "" && b != "")

/-- `compare_output` -/
def compareOutput (a b : List StmtOutput) : Bool :=
  a.length == b.length && (a.zip b).all fun e =>
    sameHashes (nomoalizeContent e.1) (nomoalizeContent e.2)

/-- `check_normal_stmt_result` -/
def RoundTest.checkNormalStmtResult (t : RoundTest Val) (path : List StmtId) :
    Except Failure Bool :=
  match compareContent t.transDbContent t.normalStmtDbContent with
  | none => .error .badIndex
  | some (false, _, _) => .ok false
  | some (true, _, _) => do
    let results ← path.mapM t.pathResult
    return results.length == t.normalStmtErrInfo.length &&
      (results.zip t.normalStmtErrInfo).all (fun e => sameErrInfo e.1.2 e.2) &&
      compareOutput (results.map Prod.fst) t.normalStmtOutput

end DbFuzz
