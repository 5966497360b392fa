import DbFuzz.Core.Number
import DbFuzz.Lib.Loop
import DbFuzz.TxCheck.StmtId
import DbFuzz.TxCheck.Usage
import Mathlib.Data.Finset.Basic

/-! The constructor of `dependency_analyzer`: row histories and the two dependency
graphs. An `int` parsed from a cell is an integer; an index of a row operation is
`none` for the initial rows. -/

namespace DbFuzz

open Loop

inductive DependencyType
  | writeRead
  | writeWrite
  | readWrite
  | startDepend
  | strictStartDepend
  | instrumentDepend
  | versionSetDepend
  | overwriteDepend
  | innerDepend
  deriving DecidableEq, Repr

/-! The graphs. -/

abbrev DependencySet := Finset DependencyType

/-- `map<pair<stmt_id, stmt_id>, set<dependency_type>>` -/
abbrev StmtGraph := StmtId → StmtId → Option DependencySet

namespace StmtGraph

def labels (g : StmtGraph) (a b : StmtId) : DependencySet := (g a b).getD ∅

def set (g : StmtGraph) (a b : StmtId) (e : Option DependencySet) : StmtGraph :=
  fun x y => if x = a ∧ y = b then e else g x y

def insert (g : StmtGraph) (a b : StmtId) (dt : DependencyType) : StmtGraph :=
  g.set a b (some (Insert.insert dt (g.labels a b)))

def erase (g : StmtGraph) (a b : StmtId) : StmtGraph := g.set a b none

/-- Reading through `operator[]` leaves an entry behind. -/
def touch (g : StmtGraph) (a b : StmtId) : StmtGraph := g.set a b (some (g.labels a b))

theorem mem_labels_insert {g : StmtGraph} {a b x y : StmtId} {dt d : DependencyType} :
    d ∈ (g.insert a b dt).labels x y ↔ (x = a ∧ y = b ∧ d = dt) ∨ d ∈ g.labels x y := by
  by_cases h : x = a ∧ y = b
  · obtain ⟨rfl, rfl⟩ := h
    simp [insert, set, labels]
  · simp only [insert, set, labels, h, if_false]
    constructor
    · exact Or.inr
    · rintro (⟨rfl, rfl, -⟩ | hd)
      · exact absurd ⟨rfl, rfl⟩ h
      · exact hd

@[simp] theorem labels_touch (g : StmtGraph) (a b x y : StmtId) :
    (g.touch a b).labels x y = g.labels x y := by
  by_cases h : x = a ∧ y = b
  · obtain ⟨rfl, rfl⟩ := h; simp [touch, set, labels]
  · simp only [touch, set, labels, h, if_false]

theorem erase_eq (g : StmtGraph) (a b x y : StmtId) :
    g.erase a b x y = if x = a ∧ y = b then none else g x y := rfl

end StmtGraph

structure Graphs where
  txn : ℕ → ℕ → DependencySet
  stmt : StmtGraph

namespace Graphs

def addTxn (g : Graphs) (t u : ℕ) (dt : DependencyType) : Graphs :=
  { g with txn := fun x y => if x = t ∧ y = u then insert dt (g.txn x y) else g.txn x y }

def addStmt (g : Graphs) (a b : StmtId) (dt : DependencyType) : Graphs :=
  { g with stmt := g.stmt.insert a b dt }

@[simp] theorem addTxn_stmt (g : Graphs) (t u : ℕ) (dt : DependencyType) :
    (g.addTxn t u dt).stmt = g.stmt := rfl

end Graphs

/-! The input. -/

/-- The arguments of the constructor. The caller passes one status for each
transaction. -/
structure AnalyzerInput where
  initOutput : List StmtOutput
  totalOutput : List StmtOutput
  finalTidQueue : List ℕ
  finalStmtUsage : List StmtUsage
  finalTxnStatus : List TxnStatus
  primaryKeyIdx : ℕ
  writeOpKeyIdx : ℕ

def AnalyzerInput.tNum (inp : AnalyzerInput) : ℕ := inp.finalTxnStatus.length

/-- The copied fields, after the size check. The last transaction is the initial one. -/
structure AnalyzedQueue where
  tidNum : ℕ
  primaryKeyIndex : ℕ
  versionKeyIndex : ℕ
  fTxnStatus : List TxnStatus
  fTxnIdQueue : List ℕ
  fStmtUsage : List StmtUsage
  fStmtOutput : List StmtOutput
  usage_length : fStmtUsage.length = fTxnIdQueue.length
  output_length : fStmtOutput.length = fTxnIdQueue.length
  status_length : fTxnStatus.length = tidNum
  tid_lt : ∀ t ∈ fTxnIdQueue, t < tidNum

namespace AnalyzedQueue

def stmtNum (q : AnalyzedQueue) : ℕ := q.fTxnIdQueue.length

def tid (q : AnalyzedQueue) (i : ℕ) : ℕ := q.fTxnIdQueue.getD i 0

def usage (q : AnalyzedQueue) (i : ℕ) : StmtUsage := q.fStmtUsage.getD i (.mk' .initType false)

def output (q : AnalyzedQueue) (i : ℕ) : StmtOutput := q.fStmtOutput.getD i []

def sid (q : AnalyzedQueue) (i : ℕ) : StmtId := .ofQueue q.fTxnIdQueue i

def status (q : AnalyzedQueue) (t : ℕ) : TxnStatus := q.fTxnStatus.getD t .commit

/-- `f_txn_size` -/
def txnSize (q : AnalyzedQueue) (t : ℕ) : ℕ := q.fTxnIdQueue.count t

theorem sid_inj {q : AnalyzedQueue} {i j : ℕ} (hi : i < q.stmtNum) (hj : j < q.stmtNum)
    (h : q.sid i = q.sid j) : i = j := ofQueue_inj hi hj h

/-- A usage at an index the source does not check. -/
def usageAt (q : AnalyzedQueue) (i : ℤ) : Except Failure StmtUsage :=
  if 0 ≤ i ∧ i < q.stmtNum then .ok (q.usage i.toNat) else .error .badIndex

/-- `stoi(row[idx])` -/
def keyOf (row : RowOutput) (idx : ℕ) : Except Failure ℤ :=
  match row[idx]? with
  | none => .error .badIndex
  | some cell =>
    match stoi cell with
    | .ok k => .ok k
    | .error _ => .error .stoiError

def primaryOf (q : AnalyzedQueue) (row : RowOutput) : Except Failure ℤ :=
  keyOf row q.primaryKeyIndex

/-- The pair of primary key and version key. -/
def pairOf (q : AnalyzedQueue) (row : RowOutput) : Except Failure (ℤ × ℤ) := do
  let rowId ← keyOf row q.primaryKeyIndex
  let versionId ← keyOf row q.versionKeyIndex
  return (rowId, versionId)

def primarySet (q : AnalyzedQueue) (output : StmtOutput) : Except Failure (List ℤ) :=
  output.mapM q.primaryOf

def pairSet (q : AnalyzedQueue) (output : StmtOutput) : Except Failure (List (ℤ × ℤ)) :=
  output.mapM q.pairOf

end AnalyzedQueue

/-- The statement types an instrumented read belongs to. -/
def StmtBasicType.isNormal : StmtBasicType → Bool
  | .selectRead | .updateWrite | .deleteWrite | .insertWrite => true
  | _ => false

/-! Row histories. -/

structure OperateUnit where
  stmtU : StmtUsage
  writeOpId : ℤ
  tid : ℕ
  stmtIdx : Option ℕ
  rowId : ℤ
  hash : UInt64

/-- `change_history`: the operations on each row. -/
abbrev History := List (ℤ × List OperateUnit)

def insertToHistory (op : OperateUnit) : History → History
  | [] => [(op.rowId, [op])]
  | (rowId, ops) :: rest =>
    if rowId = op.rowId then (rowId, ops ++ [op]) :: rest
    else (rowId, ops) :: insertToHistory op rest

/-- `hash_output`; unlike `bkdrHash` it reads on after a NUL. -/
def hashOutput (row : RowOutput) : UInt64 :=
  row.foldl (fun hash str => (cStr str).foldl (fun h c => h * 131 + charToSizeT c) hash) 0

namespace AnalyzedQueue

/-- One row of an output. -/
def insertRow (q : AnalyzedQueue) (u : StmtUsage) (tid : ℕ) (stmtIdx : Option ℕ) (row : RowOutput)
    (h : History) : Except Failure History := do
  let rowId ← keyOf row q.primaryKeyIndex
  let writeOpId ← keyOf row q.versionKeyIndex
  return insertToHistory ⟨u, writeOpId, tid, stmtIdx, rowId, hashOutput row⟩ h

/-- The history of the initial rows and then of every output. -/
def buildHistory (q : AnalyzedQueue) (initOutput : List StmtOutput) : Except Failure History := do
  let h ← forEach initOutput (fun output =>
    forEach output (q.insertRow (.mk' .afterWriteRead false) (q.tidNum - 1) none)) []
  forRange q.stmtNum (fun i => forEach (q.output i) (q.insertRow (q.usage i) (q.tid i) (some i))) h

/-! Dependencies of rows. -/

/-- `build_stmt_depend_from_stmt_idx` -/
def buildStmtDepend (q : AnalyzedQueue) (i j : ℕ) (dt : DependencyType) (g : Graphs) : Graphs :=
  g.addStmt (q.sid i) (q.sid j) dt

/-- The two insertions for a pair of row operations. -/
def buildOpDepend (q : AnalyzedQueue) (op target : OperateUnit) (dt : DependencyType) (g : Graphs) :
    Graphs :=
  let g := match op.stmtIdx, target.stmtIdx with
    | some i, some j => q.buildStmtDepend i j dt g
    | _, _ => g
  if op.tid ≠ target.tid then g.addTxn op.tid target.tid dt else g

/-- The nearest write of the target's row version before it. -/
def nearestWrite (opList : List OperateUnit) (opIdx : ℕ) (target : OperateUnit) :
    Option OperateUnit :=
  (opList.take opIdx).reverse.find? fun op =>
    op.stmtU.stmtType == .afterWriteRead && op.hash == target.hash

/-- `build_WR_dependency` and `build_WW_dependency` search for the same write. -/
def buildNearestWrite (q : AnalyzedQueue) (dt : DependencyType) (opList : List OperateUnit)
    (opIdx : ℕ) (target : OperateUnit) (g : Graphs) : Except Failure Graphs :=
  match nearestWrite opList opIdx target with
  | none => .error (.runtimeError "BUG: Cannot find the corresponding write")
  | some op => .ok (q.buildOpDepend op target dt g)

def buildWRDependency (q : AnalyzedQueue) := q.buildNearestWrite .writeRead

def buildWWDependency (q : AnalyzedQueue) := q.buildNearestWrite .writeWrite

/-- Every read or write result of the version the target is about to replace, anywhere
in the list. -/
def buildRWDependency (q : AnalyzedQueue) (opList : List OperateUnit) (target : OperateUnit)
    (g : Graphs) : Except Failure Graphs :=
  forEach opList (fun op g =>
    if (op.stmtU.stmtType = .selectRead ∨ op.stmtU.stmtType = .afterWriteRead) ∧
        op.writeOpId = target.writeOpId then .ok (q.buildOpDepend op target .readWrite g)
    else .ok g) g

def buildRowDependency (q : AnalyzedQueue) (opList : List OperateUnit) (opIdx : ℕ) (g : Graphs) :
    Except Failure Graphs :=
  match opList[opIdx]? with
  | none => .error .badIndex
  | some target =>
    if target.tid = q.tidNum - 1 then .ok g
    else if target.stmtU.stmtType = .afterWriteRead then .ok g
    else do
      let g ← q.buildWRDependency opList opIdx target g
      if target.stmtU.stmtType = .beforeWriteRead then
        let g ← q.buildWWDependency opList opIdx target g
        q.buildRWDependency opList target g
      else return g

/-! Instrument dependencies. -/

def instrumentErr (text : String) : Failure := .runtimeError ("[INSTRUMENT_ERR] " ++ text)

/-- The search for the statement a version set read belongs to; `remaining` statements
are left from `normalPos` on. -/
def normalPosOf (q : AnalyzedQueue) (i : ℕ) : ℕ → ℕ → Except Failure ℕ
  | 0, _ => .error (instrumentErr
      ("VERSION_SET_READ: cannot find the normal one, cur: " ++ toString i))
  | remaining + 1, normalPos =>
    if q.tid normalPos ≠ q.tid i then .error (instrumentErr
      ("VERSION_SET_READ: next_tid != cur_tid, cur: " ++ toString i ++ " next: " ++
        toString normalPos))
    else if (q.usage normalPos).stmtType.isNormal then .ok normalPos
    else q.normalPosOf i remaining (normalPos + 1)

def instrumentRound (q : AnalyzedQueue) (i : ℕ) (g : Graphs) : Except Failure Graphs :=
  match (q.usage i).stmtType with
  | .beforeWriteRead =>
    if q.stmtNum ≤ i + 1 then .error (instrumentErr
      ("i = BEFORE_WRITE_READ, i + 1 >= stmt_num, i = " ++ toString i))
    else if q.tid (i + 1) ≠ q.tid i then .error (instrumentErr
      ("BEFORE_WRITE_READ: next_tid != cur_tid, i = " ++ toString i))
    else if (q.usage (i + 1)).stmtType ≠ .updateWrite ∧
        (q.usage (i + 1)).stmtType ≠ .deleteWrite then .error (instrumentErr
      ("BEFORE_WRITE_READ: next_usage != UPDATE_WRITE && next_usage != DELETE_WRITE, i = " ++
        toString i))
    else .ok (q.buildStmtDepend i (i + 1) .instrumentDepend g)
  | .afterWriteRead =>
    if i = 0 then .error (instrumentErr ("i = AFTER_WRITE_READ, i - 1 < 0, i = " ++ toString i))
    else if q.tid (i - 1) ≠ q.tid i then .error (instrumentErr
      ("AFTER_WRITE_READ: prev_tid != cur_tid, i = " ++ toString i))
    else if (q.usage (i - 1)).stmtType ≠ .updateWrite ∧
        (q.usage (i - 1)).stmtType ≠ .insertWrite then .error (instrumentErr
      ("AFTER_WRITE_READ: prev_tid != UPDATE_WRITE && prev_tid != INSERT_WRITE, i = " ++
        toString i))
    else .ok (q.buildStmtDepend (i - 1) i .instrumentDepend g)
  | .versionSetRead => do
    let normalPos ← q.normalPosOf i (q.stmtNum - (i + 1)) (i + 1)
    return q.buildStmtDepend i normalPos .instrumentDepend g
  | _ => .ok g

def buildStmtInstrumentDependency (q : AnalyzedQueue) (g : Graphs) : Except Failure Graphs :=
  forRange q.stmtNum q.instrumentRound g

/-! Start and inner dependencies. -/

/-- `tid_begin_idx`, `tid_strict_begin_idx` and `tid_end_idx`, with `-1` for unset. -/
structure TxnSpans where
  hasUsedBegin : ℕ → Bool
  strictBeginIdx : ℕ → ℤ
  beginIdx : ℕ → ℤ
  endIdx : ℕ → ℤ

def TxnSpans.init : TxnSpans := ⟨fun _ => false, fun _ => -1, fun _ => -1, fun _ => -1⟩

def TxnSpans.visit (sp : TxnSpans) (tid i : ℕ) : TxnSpans :=
  if !sp.hasUsedBegin tid then
    { sp with
      hasUsedBegin := fun t => if t = tid then true else sp.hasUsedBegin t
      strictBeginIdx := fun t => if t = tid then i else sp.strictBeginIdx t }
  else
    { sp with
      beginIdx := fun t => if t = tid ∧ sp.beginIdx tid = -1 then i else sp.beginIdx t
      endIdx := fun t => if t = tid ∧ sp.endIdx tid < i then i else sp.endIdx t }

def spans (q : AnalyzedQueue) : TxnSpans :=
  (List.range q.stmtNum).foldl (fun sp i => sp.visit (q.tid i) i) .init

/-- `build_stmt_start_dependency` -/
def buildStmtStartDependency (q : AnalyzedQueue) (prevTid laterTid : ℕ) (dt : DependencyType)
    (g : Graphs) : Except Failure Graphs :=
  forRange q.stmtNum (fun i g =>
    if q.tid i ≠ prevTid then .ok g
    else forRange q.stmtNum (fun j g =>
      if j ≤ i ∨ q.tid j ≠ laterTid then .ok g else .ok (q.buildStmtDepend i j dt g)) g) g

/-- One of the two comparisons of `build_start_dependency`. -/
def startRound (q : AnalyzedQueue) (i j : ℕ) (dt : DependencyType) (later : Bool) (g : Graphs) :
    Except Failure Graphs :=
  if later then q.buildStmtStartDependency i j dt (g.addTxn i j dt) else .ok g

def buildStartDependency (q : AnalyzedQueue) (g : Graphs) : Except Failure Graphs :=
  let sp := q.spans
  forRange q.tidNum (fun i g => forRange q.tidNum (fun j g =>
    if i = j then .ok g
    else do
      let g ← q.startRound i j .startDepend (sp.endIdx i < sp.beginIdx j) g
      q.startRound i j .strictStartDepend (sp.endIdx i < sp.strictBeginIdx j) g) g) g

def buildStmtInnerDependency (q : AnalyzedQueue) (g : Graphs) : Except Failure Graphs :=
  forRange q.stmtNum (fun i g => forRange i (fun j g =>
    if q.tid j = q.tid i then .ok (q.buildStmtDepend j i .innerDepend g) else .ok g) g) g

/-! Predicate dependencies. -/

/-- The insertion into the transaction graph is skipped inside a transaction. -/
def addTxnIfOther (q : AnalyzedQueue) (i j : ℕ) (dt : DependencyType) (g : Graphs) : Graphs :=
  if q.tid i ≠ q.tid j then g.addTxn (q.tid i) (q.tid j) dt else g

/-- The usage after a write, which has to be an after write read. -/
def afterWriteOf (q : AnalyzedQueue) (text : String) (j : ℕ) : Except Failure StmtUsage := do
  let afterUsage ← q.usageAt ((j : ℤ) + 1)
  if afterUsage.stmtType = .afterWriteRead then .ok afterUsage
  else .error (instrumentErr (text ++ toString (j + 1)))

/-- The usage before a write, which has to be a before write read. -/
def beforeWriteOf (q : AnalyzedQueue) (text : String) (j : ℕ) : Except Failure StmtUsage := do
  let beforeUsage ← q.usageAt ((j : ℤ) - 1)
  if beforeUsage.stmtType = .beforeWriteRead then .ok beforeUsage
  else .error (instrumentErr (text ++ toString ((j : ℤ) - 1)))

/-- One pair of `build_VS_dependency`: the read `i` with its keys, and the statement `j`. -/
def versionSetRound (q : AnalyzedQueue) (i : ℕ) (iPairs : List (ℤ × ℤ)) (j : ℕ) (g : Graphs) :
    Except Failure Graphs :=
  match (q.usage j).stmtType with
  | .updateWrite | .insertWrite => do
    let _ ← q.afterWriteOf
      "build_VS_dependency: after_write_idx is not AFTER_WRITE_READ, after_write_idx = " j
    let afterPairs ← q.pairSet (q.output (j + 1))
    return if iPairs.any (afterPairs.contains ·) then
        q.buildStmtDepend (j + 1) i .versionSetDepend (q.addTxnIfOther j i .versionSetDepend g)
      else g
  | .deleteWrite => do
    let beforeUsage ← q.beforeWriteOf
      "build_VS_dependency: before_write_idx is not BEFORE_WRITE_READ, before_write_idx = " j
    if beforeUsage.targetTable = "" ∨ (q.usage i).targetTable = "" then .error (instrumentErr
      ("build_VS_dependency: target_table is not initialized, before_write_idx = " ++
        toString ((j : ℤ) - 1)))
    else if beforeUsage.targetTable ≠ (q.usage i).targetTable then .ok g
    else if q.output (j - 1) = [] then .ok g
    else do
      let beforePrimary ← q.primarySet (q.output (j - 1))
      return if !(iPairs.map Prod.fst).any (beforePrimary.contains ·) then
          q.buildStmtDepend j i .versionSetDepend (q.addTxnIfOther j i .versionSetDepend g)
        else g
  | _ => .ok g

def buildVSDependency (q : AnalyzedQueue) (g : Graphs) : Except Failure Graphs :=
  forRange q.stmtNum (fun i g =>
    if (q.usage i).stmtType ≠ .versionSetRead then .ok g
    else do
      let iPairs ← q.pairSet (q.output i)
      forRange q.stmtNum (q.versionSetRound i iPairs) g) g

/-- The statement a version set read was placed for, or the read after it. -/
def orginalIndex (q : AnalyzedQueue) (i : ℕ) : Except Failure ℕ :=
  match (List.range q.stmtNum).find? (fun j => decide (i < j) && (q.usage j).stmtType.isNormal) with
  | none => .error (instrumentErr "cannot find the orginal_index in build_OW_dependency")
  | some j =>
    if (q.usage j).stmtType = .updateWrite ∨ (q.usage j).stmtType = .insertWrite then do
      let _ ← q.afterWriteOf ("build_OW_dependency: orginal_index + 1 is not AFTER_WRITE_READ, " ++
        "orginal_index = ") j
      return j + 1
    else .ok j

/-- One pair of `build_OW_dependency`. -/
def overwriteRound (q : AnalyzedQueue) (i : ℕ) (iPairs : List (ℤ × ℤ)) (orginal j : ℕ)
    (g : Graphs) : Except Failure Graphs :=
  match (q.usage j).stmtType with
  | .updateWrite | .deleteWrite => do
    let _ ← q.beforeWriteOf
      "build_OW_dependency: before_write_idx is not BEFORE_WRITE_READ, before_write_idx = " j
    let beforePairs ← q.pairSet (q.output (j - 1))
    return if iPairs.any (beforePairs.contains ·) then
        q.buildStmtDepend orginal (j - 1) .overwriteDepend
          (q.addTxnIfOther i j .overwriteDepend g)
      else g
  | .insertWrite => do
    let afterUsage ← q.afterWriteOf
      "build_OW_dependency: after_write_idx is not AFTER_WRITE_READ, after_write_idx = " j
    if afterUsage.targetTable = "" ∨ (q.usage i).targetTable = "" then .error (instrumentErr
      ("build_OW_dependency: target_table is not initialized, after_write_idx = " ++
        toString (j + 1)))
    else if afterUsage.targetTable ≠ (q.usage i).targetTable then .ok g
    else if q.output (j + 1) = [] then .ok g
    else do
      let afterPrimary ← q.primarySet (q.output (j + 1))
      return if !(iPairs.map Prod.fst).any (afterPrimary.contains ·) then
          q.buildStmtDepend orginal j .overwriteDepend (q.addTxnIfOther i j .overwriteDepend g)
        else g
  | _ => .ok g

def buildOWDependency (q : AnalyzedQueue) (g : Graphs) : Except Failure Graphs :=
  forRange q.stmtNum (fun i g =>
    if (q.usage i).stmtType ≠ .versionSetRead then .ok g
    else do
      let iPairs ← q.pairSet (q.output i)
      let orginal ← q.orginalIndex i
      forRange q.stmtNum (q.overwriteRound i iPairs orginal) g) g

def buildRowDependencies (q : AnalyzedQueue) (h : History) (g : Graphs) : Except Failure Graphs :=
  forEach h (fun row g => forRange row.2.length (q.buildRowDependency row.2) g) g

end AnalyzedQueue

/-! The constructor. -/

structure DependencyAnalyzer where
  queue : AnalyzedQueue
  h : History
  graphs : Graphs

/-- The size check; a transaction id beyond the arrays is undefined behaviour. -/
def AnalyzerInput.copy (inp : AnalyzerInput) : Except Failure AnalyzedQueue :=
  if hsize : inp.totalOutput.length = inp.finalTidQueue.length ∧
      inp.totalOutput.length = inp.finalStmtUsage.length then
    if htid : ∀ t ∈ inp.finalTidQueue, t < inp.tNum + 1 then
      .ok
        { tidNum := inp.tNum + 1
          primaryKeyIndex := inp.primaryKeyIdx
          versionKeyIndex := inp.writeOpKeyIdx
          fTxnStatus := inp.finalTxnStatus ++ [.commit]
          fTxnIdQueue := inp.finalTidQueue
          fStmtUsage := inp.finalStmtUsage
          fStmtOutput := inp.totalOutput
          usage_length := hsize.2.symm.trans hsize.1
          output_length := hsize.1
          status_length := by simp [AnalyzerInput.tNum]
          tid_lt := htid }
    else .error .badIndex
  else .error (.runtimeError
    "dependency_analyzer: total_output, final_tid_queue and final_stmt_usage size are not equal")

def dependencyAnalyzer (inp : AnalyzerInput) : Except Failure DependencyAnalyzer := do
  let q ← inp.copy
  let h ← q.buildHistory inp.initOutput
  let g ← q.buildStmtInstrumentDependency ⟨fun _ _ => ∅, fun _ _ => none⟩
  let g ← q.buildRowDependencies h g
  let g ← q.buildStartDependency g
  let g ← q.buildVSDependency g
  let g ← q.buildOWDependency g
  let g ← q.buildStmtInnerDependency g
  return ⟨q, h, g⟩

end DbFuzz
