import DbFuzz.Core.Content
import DbFuzz.Lib.Loop
import DbFuzz.TxCheck.Usage
import Mathlib.Logic.Function.Basic

/-! The concurrent run of a planned queue (`transaction_test.cc`): `trans_test_unit`,
`retry_block_stmt` and `trans_test`. A statement is its printed text, and an array is
a function of its index. The server is the sequence of its answers, one for each call
of `dut->test`; `calls` is the log of these calls. -/

namespace DbFuzz

open Loop

inductive TestResult
  | ok (output : StmtOutput)
  | error (what : String)
  deriving DecidableEq, Repr

structure Call where
  pos : ℕ
  text : String
  wantsOutput : Bool
  result : TestResult
  deriving DecidableEq, Repr

structure Transaction where
  isBlocked : Bool
  stmts : List String
  stmtOutputs : List StmtOutput
  stmtErrInfo : List String
  status : TxnStatus

structure TestPlan where
  stmtNum : ℕ
  tidQueue : ℕ → ℕ
  stmtUse : ℕ → StmtUsage
  commitStmt : String
  abortStmt : String
  dbms : ℕ → TestResult

structure TransTest where
  stmtQueue : ℕ → String
  transArr : ℕ → Transaction
  statusQueue : ℕ → Bool
  realTidQueue : List ℕ
  realStmtQueue : List String
  realOutputQueue : List StmtOutput
  realStmtUsage : List StmtUsage
  calls : List Call

def spaceHolderStmt : String := "select 1 from (select 1) as subq_0 where 0 <> 0"

/-- The test for a commit or abort statement: the word and at most three more bytes. -/
def isControl (stmt word : String) : Bool :=
  containsText stmt word && decide (stmt.utf8ByteSize ≤ word.utf8ByteSize + 3) &&
    decide (word.utf8ByteSize ≤ stmt.utf8ByteSize)

def TestPlan.endsTxn (p : TestPlan) (stmt : String) : Bool :=
  isControl stmt p.commitStmt || isControl stmt p.abortStmt

namespace TransTest

def modifyTxn (s : TransTest) (tid : ℕ) (f : Transaction → Transaction) : TransTest :=
  { s with transArr := Function.update s.transArr tid (f (s.transArr tid)) }

def setBlocked (s : TransTest) (tid : ℕ) (b : Bool) : TransTest :=
  s.modifyTxn tid fun t => { t with isBlocked := b }

/-- One entry each for `stmt_outputs` and `stmt_err_info`. -/
def record (s : TransTest) (tid : ℕ) (output : StmtOutput) (err : String) : TransTest :=
  s.modifyTxn tid fun t =>
    { t with stmtOutputs := t.stmtOutputs ++ [output], stmtErrInfo := t.stmtErrInfo ++ [err] }

/-- `dut->test`: the answer is the next one of the server. -/
def test (s : TransTest) (p : TestPlan) (pos : ℕ) (text : String) (wantsOutput : Bool) :
    TestResult × TransTest :=
  let result := p.dbms s.calls.length
  (result, { s with calls := s.calls ++ [⟨pos, text, wantsOutput, result⟩] })

/-- A failed commit turns into an abort, in the transaction and in the queue. -/
def replaceCommit (s : TransTest) (p : TestPlan) (pos : ℕ) : TransTest :=
  let s := s.modifyTxn (p.tidQueue pos) fun t =>
    { t with status := .abort, stmts := t.stmts.dropLast ++ [p.abortStmt] }
  { s with stmtQueue := Function.update s.stmtQueue pos p.abortStmt }

/-- The pushes for an executed statement. -/
def pushExecuted (s : TransTest) (p : TestPlan) (pos : ℕ) (output : StmtOutput) : TransTest :=
  { s with
    statusQueue := Function.update s.statusQueue pos true
    realTidQueue := s.realTidQueue ++ [p.tidQueue pos]
    realStmtQueue := s.realStmtQueue ++ [s.stmtQueue pos]
    realOutputQueue := s.realOutputQueue ++ [output]
    realStmtUsage := s.realStmtUsage ++ [p.stmtUse pos] }

/-- The pushes for a skipped statement: a placeholder of type `INIT_TYPE`. -/
def pushSkipped (s : TransTest) (p : TestPlan) (pos : ℕ) (output : StmtOutput) : TransTest :=
  { s with
    statusQueue := Function.update s.statusQueue pos true
    realTidQueue := s.realTidQueue ++ [p.tidQueue pos]
    realStmtQueue := s.realStmtQueue ++ [spaceHolderStmt]
    realOutputQueue := s.realOutputQueue ++ [output]
    realStmtUsage := s.realStmtUsage ++ [.mk' .initType (p.stmtUse pos).isInstrumented] }

end TransTest

/-- The return codes 1, 2 and 0 of `trans_test_unit`. -/
inductive Executed
  | executed
  | skipped
  | blocked
  deriving DecidableEq, Repr

def transTestUnit (p : TestPlan) (pos : ℕ) (s : TransTest) :
    Except Failure (Executed × StmtOutput × TransTest) :=
  let tid := p.tidQueue pos
  let stmt := s.stmtQueue pos
  let (answer, s) := s.test p pos stmt true
  match answer with
  | .ok output => .ok (.executed, output, s.record tid output "")
  | .error err =>
    -- `throw e` copies the base class, so the text is lost
    if containsText err "ost connection" || containsText err "BUG" then
      .error (.runtimeError "std::exception")
    else if containsText err "blocked" then .ok (.blocked, [], s)
    else if containsText err "skipped" then .ok (.skipped, [], s.record tid [] "")
    else if containsText err "sent sql stmt changed" then .error .exit
    else if !isControl stmt p.commitStmt then .ok (.executed, [], s.record tid [] err)
    else
      let s := s.replaceCommit p pos
      let (answer, s) := s.test p pos (s.stmtQueue pos) false
      match answer with
      | .ok _ => .ok (.executed, [], s.record tid [] "")
      | .error _ => .ok (.blocked, [], s)

/-- The first loop of `retry_block_stmt`: the first open statement of each blocked
transaction. -/
def retryFirst (p : TestPlan) (i : ℕ) : List ℕ × TransTest → Except Failure (List ℕ × TransTest)
  | (firstTriedTid, s) =>
    let tid := p.tidQueue i
    if s.statusQueue i then .ok (firstTriedTid, s)
    else if !(s.transArr tid).isBlocked then .ok (firstTriedTid, s)
    else if tid ∈ firstTriedTid then .ok (firstTriedTid, s)
    else do
      let (isExecuted, output, s) ← transTestUnit p i s
      match isExecuted with
      | .executed => return (tid :: firstTriedTid, (s.setBlocked tid false).pushExecuted p i output)
      | .skipped => return (tid :: firstTriedTid, (s.setBlocked tid false).pushSkipped p i output)
      | .blocked => return (tid :: firstTriedTid, s.setBlocked tid true)

/-- The second loop, with the recursive call as an argument. -/
def retryNext (p : TestPlan) (retry : ℕ → TransTest → Except Failure TransTest) (stmtPos : ℕ)
    (s : TransTest) : Except Failure TransTest :=
  let tid := p.tidQueue stmtPos
  if (s.transArr tid).isBlocked then .ok s
  else if s.statusQueue stmtPos then .ok s
  else do
    let (isExecuted, output, s) ← transTestUnit p stmtPos s
    match isExecuted with
    | .executed =>
      let s := (s.setBlocked tid false).pushExecuted p stmtPos output
      if p.endsTxn (s.stmtQueue stmtPos) then retry stmtPos s else return s
    | .skipped => return (s.setBlocked tid false).pushSkipped p stmtPos output
    | .blocked => return s.setBlocked tid true

def retryPass (p : TestPlan) (retry : ℕ → TransTest → Except Failure TransTest) (curStmtNum : ℕ)
    (s : TransTest) : Except Failure TransTest := do
  let (_, s) ← forRange curStmtNum (retryFirst p) ([], s)
  forRange curStmtNum (retryNext p retry) s

/-- Recursion down to `depth` nested calls. -/
def retryDepth (p : TestPlan) : ℕ → ℕ → TransTest → Except Failure TransTest
  | 0, _, _ => .error .outOfFuel
  | depth + 1, curStmtNum, s => retryPass p (retryDepth p depth) curStmtNum s

def retryBlockStmt (p : TestPlan) (curStmtNum : ℕ) (s : TransTest) : Except Failure TransTest :=
  retryDepth p (curStmtNum + 1) curStmtNum s

/-- A round of the main loop of `trans_test`. -/
def mainRound (p : TestPlan) (stmtIndex : ℕ) (s : TransTest) : Except Failure TransTest :=
  let tid := p.tidQueue stmtIndex
  if (s.transArr tid).isBlocked then .ok s
  else do
    let (isExecuted, output, s) ← transTestUnit p stmtIndex s
    match isExecuted with
    | .blocked => return s.setBlocked tid true
    | .skipped => return s.pushSkipped p stmtIndex output
    | .executed =>
      let s := s.pushExecuted p stmtIndex output
      if p.endsTxn (s.stmtQueue stmtIndex) then retryBlockStmt p stmtIndex s else return s

def executedNum (p : TestPlan) (s : TransTest) : ℕ := (List.range p.stmtNum).countP s.statusQueue

/-- `while (executed < stmt_num)` -/
def finishLoop (p : TestPlan) : ℕ → ℕ → ℕ → TransTest → Except Failure TransTest
  | 0, _, _, _ => .error .outOfFuel
  | fuel + 1, executed, noChange, s =>
    if p.stmtNum ≤ executed then .ok s
    else do
      let s ← retryBlockStmt p p.stmtNum s
      let newExecuted := executedNum p s
      if newExecuted = p.stmtNum then return s
      else if executed = newExecuted then
        if 2 < noChange + 1 then return s
        else finishLoop p fuel newExecuted (noChange + 1) s
      else finishLoop p fuel newExecuted noChange s

def transTest (p : TestPlan) (s : TransTest) : Except Failure TransTest := do
  let s := { s with statusQueue := fun _ => false }
  let s ← forRange p.stmtNum (mainRound p) s
  let s ← finishLoop p (p.stmtNum + 4) (executedNum p s) 0 s
  if !(List.range p.stmtNum).all s.statusQueue then
    throw (.runtimeError "some stmt is still not executed")
  else if s.realStmtQueue.length ≠ p.stmtNum then
    throw (.runtimeError "real_stmt_queue size is not equal to stmt_queue size, something wrong")
  else return s

/-- `clear_execution_status` resets these fields. -/
structure TransTest.Cleared (s : TransTest) : Prop where
  unblocked : ∀ t, (s.transArr t).isBlocked = false
  outputs : ∀ t, (s.transArr t).stmtOutputs = []
  errs : ∀ t, (s.transArr t).stmtErrInfo = []
  real : s.realTidQueue = [] ∧ s.realStmtQueue = [] ∧ s.realOutputQueue = [] ∧ s.realStmtUsage = []

end DbFuzz
