import Mathlib.Data.Multiset.AddSub
import Mathlib.Data.Multiset.Filter
import DbFuzz.Core.Content
import DbFuzz.Lib.ProcPartial
import DbFuzz.TxCheck.Usage

/-! `qcn_tester`: how the two queries of a tester are executed and compared. A database is the
list of the statements that it was built from. -/

namespace DbFuzz.Eet

/-- What `backup` saves: the database of the server, a copy of `db_setup.sql`, or nothing, where
`reset_to_backup` replays `db_setup.sql`. -/
inductive BackupKind
  | dump
  | copySetup
  | record
  deriving DecidableEq

inductive QcnKind
  | select
  | cte
  | update
  | delete
  | insertSelect
  deriving DecidableEq

structure QcnTester where
  kind : QcnKind
  dbmsName : String
  tableName : String
  envSettingStmts : List String
  originalQuery : String
  qitQuery : String
  originalQueryResult : Multiset RowOutput
  qitQueryResult : Multiset RowOutput
  skipOneOriginalExecution : Bool
  ignoreCrash : Bool

/-- The tester with the server and the backup file; `tested` are the databases that it has sent
its queries to. -/
structure QcnState where
  qcn : QcnTester
  built : List String
  backup : Option (List String)
  calls : ℕ
  tested : List (List String)

/-- A call of the driver. -/
inductive DutCall
  | setup
  | reset
  | backup
  | resetToBackup
  | test (stmt : String) (envSettingStmts : List String)
  | getContent (tableName : String)

/-- `setup` is `db_setup.sql`. A call throws or returns rows. -/
structure QcnEnv where
  backupKind : BackupKind
  setup : List String
  answer : QcnState → DutCall → Except String StmtOutput

abbrev QcnProc (α : Type) := Proc QcnState String α

/-! The driver. -/

def dutCall (env : QcnEnv) (call : DutCall) : QcnProc StmtOutput := do
  let s ← Proc.get
  Proc.modify fun s => { s with calls := s.calls + 1 }
  match env.answer s call with
  | .error err => Proc.throw err
  | .ok output => pure output

def dutSetup (env : QcnEnv) : QcnProc Unit := do
  let _ ← dutCall env .setup
  pure ()

def dutReset (env : QcnEnv) : QcnProc Unit := do
  let _ ← dutCall env .reset
  Proc.modify fun s => { s with built := [] }

/-- `dut->test` of a statement that changes the database. -/
def dutTest (env : QcnEnv) (stmt : String) (envSettingStmts : List String) : QcnProc Unit := do
  let _ ← dutCall env (.test stmt envSettingStmts)
  Proc.modify fun s => { s with built := s.built ++ [stmt] }

def dutBackup (env : QcnEnv) : QcnProc Unit := do
  let _ ← dutCall env .backup
  Proc.modify fun s => match env.backupKind with
    | .dump => { s with backup := some s.built }
    | .copySetup => { s with backup := some env.setup }
    | .record => s

/-- What `reset_to_backup` builds. Without a backup file the database stays empty. -/
def restored (env : QcnEnv) (s : QcnState) : List String :=
  match env.backupKind with
  | .record => env.setup
  | _ => s.backup.getD []

def dutResetToBackup (env : QcnEnv) : QcnProc Unit := do
  let _ ← dutCall env .resetToBackup
  Proc.modify fun s => { s with built := restored env s }

/-! The executions. -/

def isBug (err : String) : Bool := containsText err "BUG" || containsText err "CONNECTION FAIL"

/-- The handler of both functions. -/
def orAbort {α : Type} (p : QcnProc α) : QcnProc α :=
  Proc.tryCatch p fun err => do
    let s ← Proc.get
    if isBug err && !s.qcn.ignoreCrash then Proc.assert none
    else Proc.throw err

def recordTested : QcnProc Unit := Proc.modify fun s => { s with tested := s.tested ++ [s.built] }

def executeQuery (env : QcnEnv) (query : String) : QcnProc (Multiset RowOutput) :=
  orAbort do
    dutSetup env
    let s ← Proc.get
    let output ← dutCall env (.test query s.qcn.envSettingStmts)
    pure output

/-- The rows of the first content that are not found in the second one. -/
def changedRows (target according : Multiset RowOutput) : Multiset RowOutput :=
  target.filter fun item => item ∉ according

def executeGetChangedResults (env : QcnEnv) (query : String) (isAfter : Bool) :
    QcnProc (Multiset RowOutput) :=
  orAbort do
    dutSetup env
    dutResetToBackup env
    let s ← Proc.get
    let prev ← dutCall env (.getContent s.qcn.tableName)
    recordTested
    dutTest env query s.qcn.envSettingStmts
    let new ← dutCall env (.getContent s.qcn.tableName)
    pure (if isAfter then changedRows new prev else changedRows prev new)

/-- How a tester executes one of its queries. -/
def execute (env : QcnEnv) (kind : QcnKind) (query : String) : QcnProc (Multiset RowOutput) :=
  match kind with
  | .select | .cte => do
    recordTested
    executeQuery env query
  | .update | .insertSelect => executeGetChangedResults env query true
  | .delete => executeGetChangedResults env query false

def runOriginal (env : QcnEnv) : QcnProc Unit := do
  let s ← Proc.get
  Proc.modify fun s => { s with qcn := { s.qcn with originalQueryResult := 0 } }
  let result ← execute env s.qcn.kind s.qcn.originalQuery
  Proc.modify fun s => { s with qcn := { s.qcn with originalQueryResult := result } }

def runQit (env : QcnEnv) : QcnProc Unit := do
  let s ← Proc.get
  Proc.modify fun s => { s with qcn := { s.qcn with qitQueryResult := 0 } }
  let result ← execute env s.qcn.kind s.qcn.qitQuery
  Proc.modify fun s => { s with qcn := { s.qcn with qitQueryResult := result } }

/-- A `try` block that returns `true` in its handler. -/
def succeeds (p : QcnProc Unit) : QcnProc Bool :=
  Proc.tryCatch (do p; pure true) fun _ => pure false

def sameResults : QcnProc Bool := do
  let s ← Proc.get
  pure (decide (s.qcn.qitQueryResult = s.qcn.originalQueryResult))

/-- The second execution of both queries. Only `qcn_insert_select_tester` does not catch what
they throw. -/
def validate (env : QcnEnv) : QcnProc Bool := do
  let s ← Proc.get
  if s.qcn.kind = .insertSelect then do
    if s.qcn.dbmsName = "tidb" then do
      let result ← executeQuery env "SET MAX_EXECUTION_TIME = 600000;"
      Proc.modify fun s => { s with qcn := { s.qcn with qitQueryResult := result } }
    runOriginal env
    runQit env
    pure true
  else succeeds do
    runOriginal env
    runQit env

def firstOriginal (env : QcnEnv) : QcnProc Bool := do
  let s ← Proc.get
  if s.qcn.skipOneOriginalExecution then do
    Proc.modify fun s => { s with qcn := { s.qcn with skipOneOriginalExecution := false } }
    pure true
  else succeeds (runOriginal env)

/-- `true`: no bug -/
def qcnTestWithoutInitialization (env : QcnEnv) : QcnProc Bool := do
  let ok ← firstOriginal env
  if !ok then pure true
  else do
    let ok ← succeeds (runQit env)
    if !ok then pure true
    else do
      let same ← sameResults
      if same then pure true
      else do
        let ok ← validate env
        if !ok then pure true else sameResults

/-! What the calls leave. -/

theorem dutCall_run (env : QcnEnv) (call : DutCall) (s : QcnState) :
    dutCall env call s = match env.answer s call with
      | .error err => (.error (.exception err), { s with calls := s.calls + 1 })
      | .ok output => (.ok output, { s with calls := s.calls + 1 }) := by
  have hrun : dutCall env call s = (match env.answer s call with
      | .error err => Proc.throw err
      | .ok output => pure output : QcnProc StmtOutput) { s with calls := s.calls + 1 } := rfl
  rw [hrun]
  cases env.answer s call with
  | error err => rfl
  | ok output => rfl

theorem dutCall_ok {env : QcnEnv} {call : DutCall} {s t : QcnState} {output : StmtOutput}
    (h : dutCall env call s = (.ok output, t)) :
    env.answer s call = .ok output ∧ t = { s with calls := s.calls + 1 } := by
  rw [dutCall_run] at h
  cases hanswer : env.answer s call with
  | error err =>
    rw [hanswer] at h
    cases h
  | ok output' =>
    rw [hanswer] at h
    cases h
    exact ⟨rfl, rfl⟩

theorem dutSetup_ok {env : QcnEnv} {s t : QcnState} (h : dutSetup env s = (.ok (), t)) :
    t = { s with calls := s.calls + 1 } := by
  obtain ⟨_, u, hcall, hpure⟩ := Proc.bind_ok h
  cases hpure
  exact (dutCall_ok hcall).2

theorem dutTest_ok {env : QcnEnv} {stmt : String} {settings : List String} {s t : QcnState}
    (h : dutTest env stmt settings s = (.ok (), t)) :
    t = { s with calls := s.calls + 1, built := s.built ++ [stmt] } := by
  obtain ⟨_, u, hcall, hmodify⟩ := Proc.bind_ok h
  cases hmodify
  rw [(dutCall_ok hcall).2]

theorem dutResetToBackup_ok {env : QcnEnv} {s t : QcnState}
    (h : dutResetToBackup env s = (.ok (), t)) :
    t = { s with calls := s.calls + 1, built := restored env s } := by
  obtain ⟨_, u, hcall, hmodify⟩ := Proc.bind_ok h
  cases hmodify
  rw [(dutCall_ok hcall).2]
  rfl

theorem orAbort_ok {α : Type} {p : QcnProc α} {s t : QcnState} {a : α}
    (h : orAbort p s = (.ok a, t)) : p s = (.ok a, t) := by
  unfold orAbort Proc.tryCatch at h
  rcases hp : p s with ⟨r, u⟩
  rw [hp] at h
  rcases r with (err | - | -) | b
  · obtain ⟨s', u', hget, h⟩ := Proc.bind_ok h
    cases hget
    split_ifs at h
    · cases h
    · cases h
  · cases h
  · cases h
  · exact h

end DbFuzz.Eet
