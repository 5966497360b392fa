import DbFuzz.Core.Number
import DbFuzz.Lib.Loop
import DbFuzz.Lib.Split
import DbFuzz.TxCheck.Usage

/-! Saved test cases: the three files that `save_test_case` and `save_current_testcase`
write, and the loader of the reproduce mode (`txcheck_run.cc`). -/

namespace DbFuzz

/-- The place in the enumeration, which `operator<<` prints. -/
def StmtBasicType.code : StmtBasicType → ℤ
  | .initType => 0
  | .selectRead => 1
  | .updateWrite => 2
  | .insertWrite => 3
  | .deleteWrite => 4
  | .beforeWriteRead => 5
  | .afterWriteRead => 6
  | .versionSetRead => 7

/-- The flag the loader gives a usage of the type. -/
def StmtBasicType.loadedFlag : StmtBasicType → Bool
  | .beforeWriteRead | .afterWriteRead | .versionSetRead => true
  | _ => false

/-- The queues to save, with every statement as its text. -/
structure TestCase where
  stmtQueue : List String
  tidQueue : List ℤ
  usageQueue : List StmtUsage
  tid_length : tidQueue.length = stmtQueue.length
  usage_length : usageQueue.length = stmtQueue.length
  tid_range : ∀ t ∈ tidQueue, InIntRange t

structure SavedFiles where
  stmtFile : List Char
  tidFile : List Char
  usageFile : List Char
  deriving DecidableEq

structure LoadedCase where
  stmtQueue : List String
  tidQueue : List ℤ
  usageQueue : List StmtUsage
  deriving DecidableEq

/-- Each text with a line end and an empty line. -/
def printStmts (stmts : List String) : List Char :=
  stmts.flatMap fun stmt => stmt.toList ++ ['\n'] ++ ['\n']

def printUsages (usages : List StmtUsage) : List Char :=
  printInts (usages.map (·.stmtType.code))

namespace TestCase

/-- `save_test_case` counts the lines of all three files by the statements. -/
def saveTestCase (c : TestCase) : SavedFiles where
  stmtFile := printStmts c.stmtQueue
  tidFile := printInts (c.tidQueue.take c.stmtQueue.length)
  usageFile := printUsages (c.usageQueue.take c.stmtQueue.length)

def saveCurrentTestcase (c : TestCase) : SavedFiles where
  stmtFile := printStmts c.stmtQueue
  tidFile := printInts c.tidQueue
  usageFile := printUsages c.usageQueue

theorem saveTestCase_eq (c : TestCase) : c.saveTestCase = c.saveCurrentTestcase := by
  simp only [saveTestCase, saveCurrentTestcase, ← c.tid_length, List.take_length]
  rw [c.tid_length, ← c.usage_length, List.take_length]

end TestCase

/-! The loader. -/

/-- `";\n\n"` -/
def stmtEnd : List Char := [';', '\n', '\n']

/-- The loader knows no table. -/
def loadUsage (use : ℤ) : Except Failure StmtUsage :=
  match use with
  | 0 => .ok ⟨.initType, false, "t_***"⟩
  | 1 => .ok ⟨.selectRead, false, "t_***"⟩
  | 2 => .ok ⟨.updateWrite, false, "t_***"⟩
  | 3 => .ok ⟨.insertWrite, false, "t_***"⟩
  | 4 => .ok ⟨.deleteWrite, false, "t_***"⟩
  | 5 => .ok ⟨.beforeWriteRead, true, "t_***"⟩
  | 6 => .ok ⟨.afterWriteRead, true, "t_***"⟩
  | 7 => .ok ⟨.versionSetRead, true, "t_***"⟩
  | _ => .error .exit

def loadTestCase (files : SavedFiles) : Except Failure LoadedCase := do
  let usageQueue ← (readInts files.usageFile).mapM loadUsage
  return ⟨(Split.ended stmtEnd files.stmtFile).map String.ofList, readInts files.tidFile, usageQueue⟩

/-- What a usage is after it was saved and loaded. -/
def StmtUsage.reload (u : StmtUsage) : StmtUsage := ⟨u.stmtType, u.stmtType.loadedFlag, "t_***"⟩

@[simp] theorem StmtUsage.reload_stmtType (u : StmtUsage) : u.reload.stmtType = u.stmtType := rfl

theorem loadUsage_code (u : StmtUsage) : loadUsage u.stmtType.code = .ok u.reload := by
  unfold StmtUsage.reload
  cases u.stmtType <;> rfl

theorem inIntRange_code (t : StmtBasicType) : InIntRange t.code := by cases t <;> decide

theorem readInts_printUsages (usages : List StmtUsage) :
    (readInts (printUsages usages)).mapM loadUsage = .ok (usages.map StmtUsage.reload) := by
  rw [printUsages, readInts_printInts (by
    intro z hz
    obtain ⟨u, -, rfl⟩ := List.mem_map.1 hz
    exact inIntRange_code _)]
  induction usages with
  | nil => rfl
  | cons u usages ih =>
    simp only [List.map_cons, List.mapM_cons, loadUsage_code, ih]
    rfl

/-- A saved case loads; only its statements can come out otherwise than expected. -/
theorem loadTestCase_saveCurrentTestcase (c : TestCase) :
    loadTestCase c.saveCurrentTestcase = .ok
      ⟨(Split.ended stmtEnd (printStmts c.stmtQueue)).map String.ofList, c.tidQueue,
        c.usageQueue.map StmtUsage.reload⟩ := by
  simp only [loadTestCase, TestCase.saveCurrentTestcase, readInts_printUsages,
    readInts_printInts c.tid_range]
  rfl

/-! What comes back. -/

/-- A text and its text without the terminator. -/
def SameSql (saved loaded : String) : Prop :=
  saved.toList = loaded.toList ∨ saved.toList = loaded.toList ++ [';']

/-- A text that the separator cuts right behind its own terminator. -/
def Terminated (stmt : String) : Prop :=
  ∃ u, stmt.toList = u ++ [';'] ∧ ¬ stmtEnd <:+: u

theorem ended_printStmts {stmts : List String} (h : ∀ stmt ∈ stmts, Terminated stmt) :
    List.Forall₂ SameSql stmts ((Split.ended stmtEnd (printStmts stmts)).map String.ofList) := by
  induction stmts with
  | nil => exact List.Forall₂.nil
  | cons stmt stmts ih =>
    obtain ⟨u, hu, hinfix⟩ := h stmt (by simp)
    have hcut : Split.cut stmtEnd (printStmts (stmt :: stmts)) = some (u, printStmts stmts) := by
      have := Split.cut_append_of_notInfix (c := ';') (t := ['\n', '\n']) (by decide) hinfix
        (r := printStmts stmts)
      simpa [printStmts, hu, stmtEnd] using this
    rw [Split.ended_of_some (by decide) hcut, List.map_cons]
    exact List.Forall₂.cons (Or.inr (by simpa using hu)) (ih fun s hs => h s (by simp [hs]))

theorem terminated_of_ended {stmts : List String}
    (h : List.Forall₂ SameSql stmts ((Split.ended stmtEnd (printStmts stmts)).map String.ofList)) :
    ∀ stmt ∈ stmts, Terminated stmt := by
  induction stmts with
  | nil => simp
  | cons stmt stmts ih =>
    cases hcut : Split.cut stmtEnd (printStmts (stmt :: stmts)) with
    | none =>
      rw [Split.ended_of_none hcut] at h
      cases h
    | some p =>
      obtain ⟨u, r⟩ := p
      obtain ⟨hfile, hfirst⟩ := Split.cut_eq_some hcut
      have hfile' : stmt.toList ++ ('\n' :: '\n' :: printStmts stmts) =
          u ++ (';' :: '\n' :: '\n' :: r) := by
        simpa [printStmts, stmtEnd] using hfile
      rw [Split.ended_of_some (by decide) hcut, List.map_cons, List.forall₂_cons] at h
      obtain ⟨hsame, hrest⟩ := h
      rcases hsame with hsame | hsame
      · -- without a terminator the file goes on with a line end, not with the separator
        rw [String.toList_ofList] at hsame
        rw [hsame, List.append_cancel_left_eq] at hfile'
        cases hfile'
      · rw [String.toList_ofList] at hsame
        rw [hsame, List.append_assoc, List.append_cancel_left_eq] at hfile'
        cases hfile'
        have hterm : Terminated stmt := by
          refine ⟨u, hsame, ?_⟩
          rintro ⟨v, w, hvw⟩
          exact hfirst v (stmtEnd ++ w) (by simpa using hvw.symm) (by simp [stmtEnd])
            ⟨w ++ stmtEnd ++ printStmts stmts, by simp⟩
        intro s hs
        rcases List.mem_cons.1 hs with rfl | hs
        · exact hterm
        · exact ih hrest s hs

/-- Loading the files gives the case back: each text up to its terminator, the transaction
ids, the types and the flags. -/
def TestCase.Reproduced (c : TestCase) (files : SavedFiles) : Prop :=
  ∃ l, loadTestCase files = .ok l ∧ List.Forall₂ SameSql c.stmtQueue l.stmtQueue ∧
    l.tidQueue = c.tidQueue ∧ List.Forall₂ (fun u v => v.stmtType = u.stmtType ∧
      v.isInstrumented = u.isInstrumented) c.usageQueue l.usageQueue

theorem TestCase.reproduced_iff (c : TestCase) :
    c.Reproduced c.saveCurrentTestcase ↔ (∀ stmt ∈ c.stmtQueue, Terminated stmt) ∧
      ∀ u ∈ c.usageQueue, u.isInstrumented = u.stmtType.loadedFlag := by
  have husage : List.Forall₂ (fun u v : StmtUsage => v.stmtType = u.stmtType ∧
      v.isInstrumented = u.isInstrumented) c.usageQueue (c.usageQueue.map StmtUsage.reload) ↔
      ∀ u ∈ c.usageQueue, u.isInstrumented = u.stmtType.loadedFlag := by
    rw [List.forall₂_map_right_iff, List.forall₂_same]
    exact forall₂_congr fun u _ => by simp [StmtUsage.reload, eq_comm]
  simp only [Reproduced, loadTestCase_saveCurrentTestcase, Except.ok.injEq, exists_eq_left',
    true_and, husage]
  exact and_congr_left fun _ => ⟨terminated_of_ended, ended_printStmts⟩

/-- Both writers: the case is reproduced exactly when every text carries its own terminator
and every flag is the one of its type. -/
theorem testCase_reproduced_iff (c : TestCase) :
    (c.Reproduced c.saveTestCase ∧ c.Reproduced c.saveCurrentTestcase) ↔
      (∀ stmt ∈ c.stmtQueue, Terminated stmt) ∧
      ∀ u ∈ c.usageQueue, u.isInstrumented = u.stmtType.loadedFlag := by
  rw [c.saveTestCase_eq, and_self]
  exact c.reproduced_iff

/-- A transaction whose statements carry no terminator. -/
def plainCase : TestCase where
  stmtQueue := ["START TRANSACTION", "SELECT * FROM t1", "COMMIT"]
  tidQueue := [0, 0, 0]
  usageQueue := [⟨.initType, false, ""⟩, ⟨.selectRead, false, ""⟩, ⟨.initType, false, ""⟩]
  tid_length := rfl
  usage_length := rfl
  tid_range := by decide

/-- No statement of it is loaded. -/
theorem plainCase_not_reproduced : ¬ plainCase.Reproduced plainCase.saveTestCase := by
  rintro ⟨l, hl, hstmts, -⟩
  have hload : loadTestCase plainCase.saveTestCase = .ok ⟨[], [0, 0, 0],
      [⟨.initType, false, "t_***"⟩, ⟨.selectRead, false, "t_***"⟩, ⟨.initType, false, "t_***"⟩]⟩ := by
    decide +kernel
  rw [hload] at hl
  cases hl
  cases hstmts

end DbFuzz
