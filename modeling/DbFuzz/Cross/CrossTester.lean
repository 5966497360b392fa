import Mathlib.Data.Multiset.AddSub
import Mathlib.Logic.Function.Basic
import DbFuzz.Core.Content
import DbFuzz.Cross.Statement
import DbFuzz.Lib.Proc
import DbFuzz.TxCheck.Usage

/-! `cross_tester`: the runs of a path with and without the transforms, their comparison, and
the two phases of `minimize`. A shared pointer is an address of the heap. -/

namespace DbFuzz.Cross

open DbFuzz.Expr

/-- An entry of `path_stmts` with the one of `path_usages`; the two always change together. -/
structure PathStmt where
  stmt : ℕ
  usage : StmtBasicType

/-- What the tester did. A run carries the texts it sent, and a loop of transforms and a save
of `normal_stmts.sql` the statements of the queue as they then were. -/
inductive Event
  | transforms (queue : List Statement)
  | executes (texts : List String) (usages : List StmtBasicType)
  | saves (queue : List Statement)
  | savesTransformed (queue : List Statement)

/-- The databases are of any type. -/
structure CrossState (σ : Type) where
  heap : ℕ → Statement
  live : σ
  backup : σ
  calls : ℕ
  drawn : ℕ
  events : List Event
  lastPath : List PathStmt
  lastBugConfirmed : Bool

/-- `fails` is the exception of a call other than `dut->test`, and `test` what a statement
returns or throws and the database it leaves. -/
structure CrossEnv (σ : Type) where
  schema : Schema
  draws : ℕ → Choices
  fails : CrossState σ → Option String
  test : CrossState σ → String → Except String StmtOutput × σ
  content : CrossState σ → Content

abbrev CrossProc (σ α : Type) := Proc (CrossState σ) String α

/-- The results of a path and the content after it. -/
abbrev RunResult := Multiset RowOutput × Content

def isSelectLikeUsage : StmtBasicType → Bool
  | .selectRead | .versionSetRead => true
  | _ => false

variable {σ : Type}

def record (event : Event) : CrossProc σ Unit :=
  Proc.modify fun t => { t with events := t.events ++ [event] }

def stmtsOf (t : CrossState σ) (path : List PathStmt) : List Statement :=
  path.map fun p => t.heap p.stmt

def textsOf (env : CrossEnv σ) (t : CrossState σ) (path : List PathStmt) : List String :=
  (stmtsOf t path).map (Statement.text env.schema)

/-- `dut_setup` and what is called through it. -/
def dbmsCall (env : CrossEnv σ) : CrossProc σ Unit := do
  let t ← Proc.get
  Proc.modify fun t => { t with calls := t.calls + 1 }
  Proc.throwIf (env.fails t)

def dutResetToBackup (env : CrossEnv σ) : CrossProc σ Unit := do
  dbmsCall env
  Proc.modify fun t => { t with live := t.backup }

/-- The rows that a statement adds to the results. -/
def collected (usage : StmtBasicType) : Except String StmtOutput → Multiset RowOutput
  | .ok output => if isSelectLikeUsage usage then output else 0
  | .error _ => 0

/-- One turn of the loop in `execute_normal_path`, which catches what a statement throws. -/
def testStmt (env : CrossEnv σ) (p : PathStmt) (t : CrossState σ) :
    Multiset RowOutput × CrossState σ :=
  let (answer, live) := env.test t ((t.heap p.stmt).text env.schema)
  (collected p.usage answer, { t with live := live, calls := t.calls + 1 })

def testStmts (env : CrossEnv σ) :
    List PathStmt → CrossState σ → Multiset RowOutput × CrossState σ
  | [], t => (0, t)
  | p :: path, t =>
    let (rows, t) := testStmt env p t
    let (others, t) := testStmts env path t
    (rows + others, t)

def runStmts (env : CrossEnv σ) (path : List PathStmt) : CrossProc σ (Multiset RowOutput) :=
  fun t => (.ok (testStmts env path t).1, (testStmts env path t).2)

def executeNormalPath (env : CrossEnv σ) (path : List PathStmt) : CrossProc σ RunResult := do
  dbmsCall env
  let t ← Proc.get
  record (.executes (textsOf env t path) (path.map PathStmt.usage))
  let results ← runStmts env path
  dbmsCall env
  let t ← Proc.get
  pure (results, env.content t)

/-- `transform_select` of a statement of the queue, in place. -/
def transformStmt (env : CrossEnv σ) (stmt : ℕ) : CrossProc σ Unit := do
  let t ← Proc.get
  let st ← Proc.assert (transformSelect env.schema (env.draws t.drawn) (t.heap stmt))
  Proc.modify fun t => { t with heap := Function.update t.heap stmt st, drawn := t.drawn + 1 }

def backTransformStmt (env : CrossEnv σ) (stmt : ℕ) : CrossProc σ Unit := do
  let t ← Proc.get
  let st ← Proc.assert (backTransformSelect env.schema (t.heap stmt))
  Proc.modify fun t => { t with heap := Function.update t.heap stmt st }

/-- The statements at `select_indices` -/
def selects (path : List PathStmt) : List ℕ :=
  (path.filter fun p => isSelectLikeUsage p.usage).map PathStmt.stmt

def transformStmts (env : CrossEnv σ) (path : List PathStmt) (targets : List ℕ) :
    CrossProc σ Unit := do
  let t ← Proc.get
  record (.transforms (stmtsOf t path))
  Proc.forEach targets (transformStmt env)

def backTransformStmts (env : CrossEnv σ) (targets : List ℕ) : CrossProc σ Unit :=
  Proc.forEach targets (backTransformStmt env)

/-- The normal run of a path and its transformed run, with the statements turned back. -/
def runBothPaths (env : CrossEnv σ) (path : List PathStmt) :
    CrossProc σ (RunResult × RunResult) := do
  dutResetToBackup env
  let normal ← executeNormalPath env path
  transformStmts env path (selects path)
  dutResetToBackup env
  let transformed ← executeNormalPath env path
  backTransformStmts env (selects path)
  pure (normal, transformed)

/-- `compare_content` -/
def contentOk (a b : Content) : Bool := (compareContent a b).map Prod.fst = some true

/-- `diff_persists` -/
def differ (a b : RunResult) : Bool := decide (a.1 ≠ b.1) || !contentOk a.2 b.2

def revalidateBug (env : CrossEnv σ) (path : List PathStmt) : CrossProc σ Bool := do
  let runs ← runBothPaths env path
  pure (differ runs.1 runs.2)

def saveBugReport (env : CrossEnv σ) (path : List PathStmt) : CrossProc σ Unit := do
  let t ← Proc.get
  record (.saves (stmtsOf t path))
  transformStmts env path (selects path)
  let t ← Proc.get
  record (.savesTransformed ((selects path).map t.heap))
  backTransformStmts env (selects path)
  dbmsCall env

/-- The four comparisons of phase 7, the last two after the filter. -/
def noBug (tx normal transformed : RunResult) : Bool :=
  let eetTransformFailure := decide (transformed.1 = 0) && decide (normal.1 ≠ 0)
  decide (tx.1 = normal.1) && contentOk tx.2 normal.2 &&
    (eetTransformFailure || decide (normal.1 = transformed.1)) &&
    (eetTransformFailure || contentOk normal.2 transformed.2)

/-- `cross_test` from phase 5 on, with the path and the results of the transaction run. -/
def crossTest (env : CrossEnv σ) (bugDir : String) (path : List PathStmt) (tx : RunResult) :
    CrossProc σ Bool := do
  let runs ← runBothPaths env path
  if noBug tx runs.1 runs.2 then pure false
  else do
    let bugConfirmed ← revalidateBug env path
    if !bugConfirmed then pure false
    else do
      Proc.modify fun t => { t with lastPath := path, lastBugConfirmed := true }
      (if bugDir ≠ "" then saveBugReport env path else pure ())
      pure true

/-! `minimize` -/

/-- The loop over the statements of a path, of which `done` has been passed. -/
def removalPass (env : CrossEnv σ) : List PathStmt → List PathStmt → CrossProc σ Bool
  | _, [] => pure false
  | done, p :: rest =>
    if isSelectLikeUsage p.usage then removalPass env (done ++ [p]) rest
    else if (done ++ rest).isEmpty then pure false
    else do
      let runs ← runBothPaths env (done ++ rest)
      if differ runs.1 runs.2 then do
        Proc.modify fun t => { t with lastPath := done ++ rest }
        pure true
      else removalPass env (done ++ [p]) rest

/-- Phase 1: `while (changed)` -/
def removeStmts (env : CrossEnv σ) : ℕ → CrossProc σ Unit
  | 0 => Proc.stuck
  | fuel + 1 => do
    let t ← Proc.get
    let changed ← removalPass env [] t.lastPath
    if changed then removeStmts env fuel else pure ()

def isCandidate (path : List PathStmt) (i : ℕ) : Bool :=
  (path[i]?).any fun p => isSelectLikeUsage p.usage

/-- The selected statements apart from the candidate. -/
def others (path : List PathStmt) (i : ℕ) : List ℕ := selects (path.eraseIdx i)

/-- The two runs of a candidate. `tmp_stmts` holds the pointers of `last_path_stmts`. -/
def runCandidate (env : CrossEnv σ) (path : List PathStmt) (i : ℕ) :
    CrossProc σ (RunResult × RunResult) := do
  let tmp := path
  transformStmts env tmp (others tmp i)
  dutResetToBackup env
  let normal ← executeNormalPath env path
  dutResetToBackup env
  let transformed ← executeNormalPath env tmp
  backTransformStmts env (others tmp i)
  pure (normal, transformed)

def revertTransform (env : CrossEnv σ) (i : ℕ) : CrossProc σ Unit := do
  let t ← Proc.get
  if isCandidate t.lastPath i then do
    let runs ← runCandidate env t.lastPath i
    if differ runs.1 runs.2 then
      Proc.modify fun t =>
        { t with lastPath := t.lastPath.modify i fun p => { p with usage := .initType } }
    else pure ()
  else pure ()

/-- Phase 2 -/
def revertTransforms (env : CrossEnv σ) : CrossProc σ Unit := do
  let t ← Proc.get
  Proc.forEach (List.range t.lastPath.length) (revertTransform env)

def saveMinimized (env : CrossEnv σ) : CrossProc σ Unit := do
  let t ← Proc.get
  saveBugReport env t.lastPath

/-- The body of the `try` block. -/
def minimizeBody (env : CrossEnv σ) : CrossProc σ Unit := do
  let t ← Proc.get
  removeStmts env (t.lastPath.length + 1)
  revertTransforms env
  saveMinimized env

def minimize (env : CrossEnv σ) : CrossProc σ Unit := do
  let t ← Proc.get
  if !t.lastBugConfirmed || t.lastPath.isEmpty then pure ()
  else Proc.tryCatch (minimizeBody env) fun _ => saveMinimized env

/-- What `cross_run` does with a new tester. -/
def crossRun (env : CrossEnv σ) (bugDir : String) (path : List PathStmt) (tx : RunResult) :
    CrossProc σ Unit := do
  let bug ← crossTest env bugDir path tx
  if bug then minimize env else pure ()

end DbFuzz.Cross
