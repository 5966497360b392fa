import DbFuzz.Eet.QcnTester

/-! What `execute_get_changed_results` reports of the two contents of a table. -/

namespace DbFuzz.Eet

theorem count_changedRows (target according : Multiset RowOutput) (row : RowOutput) :
    (changedRows target according).count row =
      if row ∈ according then 0 else target.count row := by
  unfold changedRows
  rw [Multiset.count_filter]
  by_cases hrow : row ∈ according
  · rw [if_pos hrow, if_neg (not_not_intro hrow)]
  · rw [if_neg hrow, if_pos hrow]

/-- The membership tests miss the further copies of a row that both contents have. -/
theorem changedRows_eq_sub_iff (target according : Multiset RowOutput) :
    changedRows target according = target - according ↔
      ∀ row ∈ according, target.count row ≤ according.count row := by
  rw [Multiset.ext]
  refine forall_congr' fun row => ?_
  rw [count_changedRows, Multiset.count_sub]
  by_cases hrow : row ∈ according
  · rw [if_pos hrow]
    constructor
    · intro h _
      omega
    · intro h
      have := h hrow
      omega
  · rw [if_neg hrow, Multiset.count_eq_zero_of_notMem hrow, Nat.sub_zero]
    exact ⟨fun _ h => absurd h hrow, fun _ => rfl⟩

/-- The state of the first `get_content`. -/
def beforeQuery (env : QcnEnv) (s : QcnState) : QcnState :=
  { s with calls := s.calls + 2, built := restored env s }

/-- The state of the second `get_content`. -/
def afterQuery (env : QcnEnv) (query : String) (s : QcnState) : QcnState :=
  { s with calls := s.calls + 4, built := restored env s ++ [query],
           tested := s.tested ++ [restored env s] }

/-- The server returns these contents of the table before and after the query. -/
structure Contents (env : QcnEnv) (query : String) (s : QcnState) (prev new : StmtOutput) :
    Prop where
  prev : env.answer (beforeQuery env s) (.getContent s.qcn.tableName) = .ok prev
  new : env.answer (afterQuery env query s) (.getContent s.qcn.tableName) = .ok new

theorem executeGetChangedResults_ok {env : QcnEnv} {query : String} {isAfter : Bool}
    {s t : QcnState} {rows : Multiset RowOutput}
    (h : executeGetChangedResults env query isAfter s = (.ok rows, t)) :
    ∃ prev new, Contents env query s prev new ∧
      rows = if isAfter then changedRows new prev else changedRows prev new := by
  obtain ⟨_, s1, hsetup, h⟩ := Proc.bind_ok (orAbort_ok h)
  obtain ⟨_, s2, hreset, h⟩ := Proc.bind_ok h
  obtain ⟨_, _, hget, h⟩ := Proc.bind_ok h
  cases hget
  obtain ⟨prev, s3, hprev, h⟩ := Proc.bind_ok h
  obtain ⟨_, s4, hrecord, h⟩ := Proc.bind_ok h
  obtain ⟨_, s5, htest, h⟩ := Proc.bind_ok h
  obtain ⟨new, s6, hnew, h⟩ := Proc.bind_ok h
  cases h
  have hs2 : s2 = beforeQuery env s := by
    rw [dutResetToBackup_ok hreset, dutSetup_ok hsetup]
    rfl
  obtain ⟨hprev, hs3⟩ := dutCall_ok hprev
  have hs4 : s4 = { s3 with tested := s3.tested ++ [s3.built] } := (Prod.mk.inj hrecord).2.symm
  have hs5 : s5 = afterQuery env query s := by
    rw [dutTest_ok htest, hs4, hs3, hs2]
    rfl
  obtain ⟨hnew, -⟩ := dutCall_ok hnew
  rw [hs2] at hprev hnew
  rw [hs5] at hnew
  exact ⟨prev, new, ⟨hprev, hnew⟩, rfl⟩

/-- The function reports the multiset difference of the contents exactly when no row that both
have occurs more often in the content that is asked for. -/
theorem executeGetChangedResults_iff {env : QcnEnv} {query : String} {isAfter : Bool}
    {s t : QcnState} {rows : Multiset RowOutput}
    (h : executeGetChangedResults env query isAfter s = (.ok rows, t)) :
    ∃ prev new : StmtOutput, Contents env query s prev new ∧
      let target : Multiset RowOutput := if isAfter then new else prev
      let according : Multiset RowOutput := if isAfter then prev else new
      (rows = target - according ↔ ∀ row ∈ according, target.count row ≤ according.count row) := by
  obtain ⟨prev, new, hcontents, rfl⟩ := executeGetChangedResults_ok h
  refine ⟨prev, new, hcontents, ?_⟩
  cases isAfter with
  | true => exact changedRows_eq_sub_iff new prev
  | false => exact changedRows_eq_sub_iff prev new

/-- A server whose first content of a table is `prev` and whose second one is `new`. -/
def twoContents (prev new : StmtOutput) : QcnEnv where
  backupKind := .dump
  setup := []
  answer s call :=
    match call with
    | .getContent _ => .ok (if s.built = [] then prev else new)
    | _ => .ok []

def updateState : QcnState where
  qcn := ⟨.update, "mysql", "t_0", [], "", "", 0, 0, false, false⟩
  built := []
  backup := some []
  calls := 0
  tested := []

theorem run_twoContents (prev new : StmtOutput) (query : String) (isAfter : Bool) :
    (executeGetChangedResults (twoContents prev new) query isAfter updateState).1 =
      .ok (if isAfter then changedRows new prev else changedRows prev new) := by
  rfl

/-- An update that makes a second row equal to one that was there. -/
theorem executeGetChangedResults_misses_row :
    let env := twoContents [["1"], ["2"]] [["1"], ["1"]]
    let query := "update t_0 set c_0 = 1"
    (executeGetChangedResults env query true updateState).1 = .ok 0 ∧
      ([["1"], ["1"]] : Multiset RowOutput) - ([["1"], ["2"]] : Multiset RowOutput) ≠ 0 := by
  refine ⟨?_, by decide⟩
  rw [run_twoContents, if_pos rfl]
  decide

theorem executeGetChangedResults_iff_new_row :
    let env := twoContents [["1"], ["2"]] [["1"], ["3"]]
    let query := "update t_0 set c_0 = 3 where c_0 = 2"
    ∃ prev new : StmtOutput, Contents env query updateState prev new ∧
      (changedRows ([["1"], ["3"]] : StmtOutput) ([["1"], ["2"]] : StmtOutput) =
          (new : Multiset RowOutput) - prev ↔
        ∀ row ∈ (prev : Multiset RowOutput),
          (new : Multiset RowOutput).count row ≤ (prev : Multiset RowOutput).count row) := by
  intro env query
  have hrun : executeGetChangedResults env query true updateState =
      (.ok (changedRows ([["1"], ["3"]] : StmtOutput) ([["1"], ["2"]] : StmtOutput)),
        (executeGetChangedResults env query true updateState).2) :=
    Prod.ext (run_twoContents _ _ query true) rfl
  exact executeGetChangedResults_iff hrun

end DbFuzz.Eet
