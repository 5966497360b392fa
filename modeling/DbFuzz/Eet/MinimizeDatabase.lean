import Mathlib.Data.List.InsertIdx
import DbFuzz.Eet.QcnTester
import DbFuzz.Lib.Split

/-! `minimize_qcn_database`: the statements of a record file are removed one by one, from the last
to the first, as long as the bug shows. -/

namespace DbFuzz.Eet

inductive Outcome
  | replayError
  | raised
  | bugGone
  | bugShown
  deriving DecidableEq

/-- One turn of the loop. `tested` are the databases that the tester sent its queries to. -/
structure Attempt where
  index : ℕ
  before : List String
  after : List String
  outcome : Outcome
  tested : List (List String)

/-- `minOutputs` are `min_origin_output` and `min_qit_output`, `none` as long as they are not
set. -/
structure Minimized where
  stmtQueue : List String
  minOutputs : Option (Multiset RowOutput × Multiset RowOutput)
  attempts : List Attempt

/-- The statements of the record file, each with its semicolon again. -/
def readStmts (record : String) : List String :=
  (Split.ended [';', '\n'] record.toList).map fun stmt => String.ofList (stmt ++ [';'])

/-- A loop until nothing is thrown. -/
def retry : ℕ → QcnProc Unit → QcnProc Unit
  | 0, _ => Proc.stuck
  | fuel + 1, p => Proc.tryCatch p fun _ => retry fuel p

def testOutcome (env : QcnEnv) : QcnProc Outcome :=
  Proc.tryCatch (do
    let noTriggerBug ← qcnTestWithoutInitialization env
    pure (if noTriggerBug then .bugGone else .bugShown)) fun _ => pure .raised

def rebuildAndTest (env : QcnEnv) (fuel : ℕ) (stmts : List String) : QcnProc Outcome := do
  retry fuel do
    dutSetup env
    dutReset env
  let replayed ← succeeds (Proc.forEach stmts fun stmt => dutTest env stmt [])
  if !replayed then pure .replayError
  else do
    retry fuel (dutBackup env)
    testOutcome env

/-- The queue after a turn. The handler of the test's exception does not put the statement
back. -/
def afterTurn (queue : List String) (i : ℕ) : Outcome → List String
  | .replayError | .bugGone => (queue.eraseIdx i).insertIdx i (queue.getD i "")
  | .raised | .bugShown => queue.eraseIdx i

def tryRemove (env : QcnEnv) (fuel : ℕ) (i : ℕ) (m : Minimized) : QcnProc Minimized := do
  Proc.modify fun s => { s with tested := [] }
  let outcome ← rebuildAndTest env fuel (m.stmtQueue.eraseIdx i)
  let s ← Proc.get
  let after := afterTurn m.stmtQueue i outcome
  pure
    { stmtQueue := after
      minOutputs :=
        if outcome = .bugShown then some (s.qcn.originalQueryResult, s.qcn.qitQueryResult)
        else m.minOutputs
      attempts := m.attempts ++ [⟨i, m.stmtQueue, after, outcome, s.tested⟩] }

def removeLoop (env : QcnEnv) (fuel : ℕ) : ℕ → Minimized → QcnProc Minimized
  | 0, m => pure m
  | i + 1, m => do
    let m ← tryRemove env fuel i m
    removeLoop env fuel i m

/-- The saved statements are `stmtQueue`. -/
def minimizeQcnDatabase (env : QcnEnv) (fuel : ℕ) (record : String) : QcnProc Minimized := do
  let s ← Proc.get
  Proc.modify fun s => { s with qcn := { s.qcn with ignoreCrash := true } }
  let stmtQueue := readStmts record
  let m ← removeLoop env fuel stmtQueue.length ⟨stmtQueue, none, []⟩
  Proc.modify fun t => { t with qcn := { t.qcn with ignoreCrash := s.qcn.ignoreCrash } }
  pure m

/-! What a turn tests. -/

/-- Only these testers leave the database of the server as it is. -/
def TestsServer (kind : QcnKind) : Prop := kind = .select ∨ kind = .cte

instance (kind : QcnKind) : Decidable (TestsServer kind) :=
  inferInstanceAs (Decidable (_ ∨ _))

/-- What `reset_to_backup` builds after a backup of the rebuilt database. -/
def backedUp (env : QcnEnv) (stmts : List String) : List String :=
  if env.backupKind = .dump then stmts else env.setup

/-- The database that the tester sends its queries to. -/
def testedDb (env : QcnEnv) (kind : QcnKind) (stmts : List String) : List String :=
  if TestsServer kind then stmts else backedUp env stmts

/-- The states of a test of `stmts`. After `ran` a query has been sent. -/
structure Testing (env : QcnEnv) (kind : QcnKind) (stmts : List String) (ran : Prop)
    (s : QcnState) : Prop where
  sameKind : s.qcn.kind = kind
  built : TestsServer kind → s.built = stmts
  restored : restored env s = backedUp env stmts
  tested : ∀ db ∈ s.tested, db = testedDb env kind stmts
  ran : ran → s.tested ≠ []

section Test

variable {env : QcnEnv} {kind : QcnKind} {stmts : List String} {ran : Prop}
variable {P : QcnState → Prop} {α : Type}

/-- A call of the driver throws or returns, in both cases with the state as it was. -/
theorem dutCall_triple (call : DutCall) (h : ∀ s, P s → P { s with calls := s.calls + 1 }) :
    Proc.Partial P (dutCall env call) (fun _ => P) P := by
  intro s hs
  rw [dutCall_run]
  cases env.answer s call with
  | error err =>
    refine ⟨fun a s' hp => ?_, fun e s' hp => ?_⟩
    · cases hp
    · cases hp
      exact h s hs
  | ok output =>
    refine ⟨fun a s' hp => ?_, fun e s' hp => ?_⟩
    · cases hp
      exact h s hs
    · cases hp

theorem dutSetup_triple (h : ∀ s, P s → P { s with calls := s.calls + 1 }) :
    Proc.Partial P (dutSetup env) (fun _ => P) P :=
  (dutCall_triple .setup h).bind fun _ => Proc.Partial.pure fun _ hs => hs

theorem orAbort_triple {Q : α → QcnState → Prop} {p : QcnProc α}
    (h : Proc.Partial P p Q P) : Proc.Partial P (orAbort p) Q P := by
  refine h.tryCatch fun err => Proc.Partial.get.bind fun s => Proc.Partial.ite (fun _ => ?_)
    fun _ => Proc.Partial.throw fun _ hs => hs.2
  exact Proc.Partial.assert fun _ _ _ h => nomatch h

theorem succeeds_triple {Q : QcnState → Prop} {p : QcnProc Unit}
    (h : Proc.Partial P p (fun _ => Q) P) :
    Proc.Partial P (succeeds p) (fun ok s => if ok = true then Q s else P s) (fun _ => False) := by
  refine Proc.Partial.tryCatch (M := P) (h.bind fun _ => Proc.Partial.pure fun s hs => ?_)
    fun _ => Proc.Partial.pure fun s hs => ?_
  · exact hs
  · exact hs

theorem Testing.calls {s : QcnState} (h : Testing env kind stmts ran s) (n : ℕ) :
    Testing env kind stmts ran { s with calls := n } :=
  ⟨h.sameKind, h.built, h.restored, h.tested, h.ran⟩

theorem Testing.results {s : QcnState} (h : Testing env kind stmts ran s)
    (original qit : Multiset RowOutput) (skip : Bool) :
    Testing env kind stmts ran { s with qcn := { s.qcn with
      originalQueryResult := original, qitQueryResult := qit,
      skipOneOriginalExecution := skip } } :=
  ⟨h.sameKind, h.built, h.restored, h.tested, h.ran⟩

theorem Testing.of_ran {s : QcnState} (h : Testing env kind stmts True s) :
    Testing env kind stmts ran s :=
  ⟨h.sameKind, h.built, h.restored, h.tested, fun _ => h.ran trivial⟩

theorem executeQuery_triple (query : String) :
    Proc.Partial (Testing env kind stmts ran) (executeQuery env query)
      (fun _ => Testing env kind stmts ran) (Testing env kind stmts ran) := by
  refine orAbort_triple ?_
  refine (dutSetup_triple fun s hs => hs.calls _).bind fun _ => Proc.Partial.get.bind fun s => ?_
  refine (((dutCall_triple _ fun s hs => hs.calls _).pre fun _ h => h.2).bind fun output => ?_)
  exact Proc.Partial.pure fun _ hs => hs

/-- The database is restored first, so the query is sent to what `reset_to_backup` builds. -/
theorem executeGetChangedResults_triple (query : String) (isAfter : Bool)
    (hkind : ¬ TestsServer kind) :
    Proc.Partial (Testing env kind stmts ran) (executeGetChangedResults env query isAfter)
      (fun _ => Testing env kind stmts True) (Testing env kind stmts ran) := by
  refine orAbort_triple ?_
  refine (dutSetup_triple fun s hs => hs.calls _).bind fun _ => ?_
  refine Proc.Partial.bind (M := fun _ s => Testing env kind stmts ran s ∧
    s.built = backedUp env stmts) ?_ fun _ => ?_
  · refine (dutCall_triple _ fun s hs => hs.calls _).bind fun _ => Proc.Partial.modify fun s hs => ?_
    exact ⟨⟨hs.sameKind, fun h => absurd h hkind, hs.restored, hs.tested, hs.ran⟩, hs.restored⟩
  refine Proc.Partial.get.bind fun s => Proc.Partial.pre (P := fun s =>
    Testing env kind stmts ran s ∧ s.built = backedUp env stmts) ?_ fun _ h => h.2
  refine Proc.Partial.bind (M := fun _ s => Testing env kind stmts ran s ∧
    s.built = backedUp env stmts) ?_ fun prev => ?_
  · refine (dutCall_triple _ fun s hs => ?_).conseq (fun _ h => h) (fun _ _ h => h) fun _ h => h.1
    exact ⟨hs.1.calls _, hs.2⟩
  refine Proc.Partial.bind (M := fun _ => Testing env kind stmts True) ?_ fun _ => ?_
  · refine Proc.Partial.modify fun s hs => ⟨hs.1.sameKind, hs.1.built, hs.1.restored, ?_, by simp⟩
    intro db hdb
    rcases List.mem_append.1 hdb with hdb | hdb
    · exact hs.1.tested db hdb
    · rw [List.mem_singleton.1 hdb, hs.2, testedDb, if_neg hkind]
  refine Proc.Partial.bind (M := fun _ => Testing env kind stmts True) ?_ fun _ => ?_
  · refine ((dutCall_triple _ fun s hs => hs.calls _).bind fun _ => ?_).conseq (fun _ h => h)
      (fun _ _ h => h) fun _ h => h.of_ran
    exact Proc.Partial.modify fun s hs =>
      ⟨hs.sameKind, fun h => absurd h hkind, hs.restored, hs.tested, hs.ran⟩
  refine Proc.Partial.bind (M := fun _ => Testing env kind stmts True) ?_ fun _ => ?_
  · exact (dutCall_triple _ fun s hs => hs.calls _).conseq (fun _ h => h)
      (fun _ _ h => h) fun _ h => h.of_ran
  exact Proc.Partial.pure fun _ hs => hs

theorem execute_triple (query : String) :
    Proc.Partial (Testing env kind stmts ran) (execute env kind query)
      (fun _ => Testing env kind stmts True) (Testing env kind stmts ran) := by
  have hquery (hkind : TestsServer kind) : Proc.Partial (Testing env kind stmts ran)
      (recordTested >>= fun _ => executeQuery env query)
      (fun _ => Testing env kind stmts True) (Testing env kind stmts ran) := by
    refine Proc.Partial.bind (M := fun _ => Testing env kind stmts True) ?_ fun _ =>
      (executeQuery_triple query).conseq (fun _ h => h) (fun _ _ h => h) fun _ h => h.of_ran
    refine Proc.Partial.modify fun s hs => ⟨hs.sameKind, hs.built, hs.restored, ?_, by simp⟩
    intro db hdb
    rcases List.mem_append.1 hdb with hdb | hdb
    · exact hs.tested db hdb
    · rw [List.mem_singleton.1 hdb, hs.built hkind, testedDb, if_pos hkind]
  cases kind with
  | select => exact hquery (Or.inl rfl)
  | cte => exact hquery (Or.inr rfl)
  | update => exact executeGetChangedResults_triple query true (by decide)
  | delete => exact executeGetChangedResults_triple query false (by decide)
  | insertSelect => exact executeGetChangedResults_triple query true (by decide)

theorem runOriginal_triple :
    Proc.Partial (Testing env kind stmts ran) (runOriginal env)
      (fun _ => Testing env kind stmts True) (Testing env kind stmts ran) := by
  refine Proc.Partial.of_start fun s hs => Proc.Partial.get.bind fun t =>
    Proc.Partial.of_start fun u hu => ?_
  obtain ⟨rfl, rfl⟩ := hu
  rw [hs.sameKind]
  refine Proc.Partial.bind (M := fun _ => Testing env kind stmts ran) ?_ fun _ => ?_
  · refine Proc.Partial.modify fun u hu => ?_
    subst hu
    exact hs.results 0 _ _
  · exact (execute_triple _).bind fun _ => Proc.Partial.modify fun u hu => hu.results _ _ _

theorem runQit_triple :
    Proc.Partial (Testing env kind stmts ran) (runQit env)
      (fun _ => Testing env kind stmts True) (Testing env kind stmts ran) := by
  refine Proc.Partial.of_start fun s hs => Proc.Partial.get.bind fun t =>
    Proc.Partial.of_start fun u hu => ?_
  obtain ⟨rfl, rfl⟩ := hu
  rw [hs.sameKind]
  refine Proc.Partial.bind (M := fun _ => Testing env kind stmts ran) ?_ fun _ => ?_
  · refine Proc.Partial.modify fun u hu => ?_
    subst hu
    exact hs.results _ 0 _
  · exact (execute_triple _).bind fun _ => Proc.Partial.modify fun u hu => hu.results _ _ _

/-- Only the test of `qcn_insert_select_tester` can throw. -/
theorem validate_triple :
    Proc.Partial (Testing env kind stmts True) (validate env)
      (fun _ => Testing env kind stmts True) (fun s => s.qcn.kind = kind ∧ kind = .insertSelect) := by
  have hrun : Proc.Partial (Testing env kind stmts True)
      (runOriginal env >>= fun _ => runQit env)
      (fun _ => Testing env kind stmts True) (Testing env kind stmts True) :=
    runOriginal_triple.bind fun _ => runQit_triple
  refine Proc.Partial.of_start fun s hs => Proc.Partial.get.bind fun t =>
    Proc.Partial.pre (P := fun u => t = s ∧ Testing env kind stmts True u) ?_
    fun u h => ⟨h.1.trans h.2, h.2 ▸ hs⟩
  refine Proc.Partial.ite (fun hinsert => ?_) fun _ => ?_
  · refine Proc.Partial.of_start fun u hu => ?_
    have hkind : kind = .insertSelect := by rw [← hs.sameKind, ← hu.1, hinsert]
    refine Proc.Partial.conseq (P := Testing env kind stmts True) (R := Testing env kind stmts True)
      ?_ (fun v hv => hv ▸ hu.2) (fun _ _ h => h) fun _ h => ⟨h.sameKind, hkind⟩
    have hrest : Proc.Partial (Testing env kind stmts True)
        (runOriginal env >>= fun _ => runQit env >>= fun _ => pure true)
        (fun _ => Testing env kind stmts True) (Testing env kind stmts True) :=
      runOriginal_triple.bind fun _ => runQit_triple.bind fun _ => Proc.Partial.pure fun _ h => h
    refine Proc.Partial.ite (fun _ => (executeQuery_triple _).bind fun _ => ?_) fun _ => hrest
    exact Proc.Partial.bind (M := fun _ => Testing env kind stmts True)
      (Proc.Partial.modify fun u hu => hu.results _ _ _) fun _ => hrest
  · exact (succeeds_triple hrun).conseq (fun _ h => h.2)
      (fun ok s h => by split_ifs at h <;> exact h) fun _ h => h.elim

theorem firstOriginal_triple :
    Proc.Partial (Testing env kind stmts ran) (firstOriginal env)
      (fun _ => Testing env kind stmts ran) (fun _ => False) := by
  refine Proc.Partial.get.bind fun t => Proc.Partial.pre (P := Testing env kind stmts ran) ?_
    fun _ h => h.2
  refine Proc.Partial.ite (fun _ => ?_) fun _ => ?_
  · exact Proc.Partial.bind (M := fun _ => Testing env kind stmts ran)
      (Proc.Partial.modify fun u hu => hu.results _ _ _) fun _ => Proc.Partial.pure fun _ h => h
  · have hrun : Proc.Partial (Testing env kind stmts ran) (runOriginal env) _ _ :=
      runOriginal_triple
    refine (succeeds_triple hrun).conseq (fun _ h => h) (fun ok s h => ?_) fun _ h => h.elim
    split_ifs at h
    · exact h.of_ran
    · exact h

/-- A test that shows the bug has sent its queries to the database of the turn. -/
theorem qcnTestWithoutInitialization_triple :
    Proc.Partial (Testing env kind stmts False) (qcnTestWithoutInitialization env)
      (fun noBug s => Testing env kind stmts (noBug = false) s)
      (fun s => s.qcn.kind = kind ∧ kind = .insertSelect) := by
  have hnoBug : ∀ s, Testing env kind stmts False s → Testing env kind stmts (true = false) s :=
    fun s h => ⟨h.sameKind, h.built, h.restored, h.tested, fun h => nomatch h⟩
  have hsame : Proc.Partial (Testing env kind stmts True) sameResults
      (fun noBug s => Testing env kind stmts (noBug = false) s) (fun s => s.qcn.kind = kind ∧ kind = .insertSelect) :=
    Proc.Partial.get.bind fun t => Proc.Partial.pure fun _ h => h.2.of_ran
  unfold qcnTestWithoutInitialization
  refine (firstOriginal_triple.conseq (fun _ h => h) (fun _ _ h => h)
    fun _ h => h.elim).bind fun ok => Proc.Partial.ite
    (fun _ => Proc.Partial.pure hnoBug) fun _ => ?_
  refine ((succeeds_triple (@runQit_triple env kind stmts False)).conseq (fun _ h => h) (fun _ _ h => h)
    fun _ h => h.elim).bind fun ok => ?_
  cases ok with
  | false => exact Proc.Partial.pure hnoBug
  | true =>
    refine Proc.Partial.bind (M := fun _ => Testing env kind stmts True) ?_ fun same => ?_
    · exact Proc.Partial.get.bind fun t => Proc.Partial.pure fun _ h => h.2
    refine Proc.Partial.ite (fun _ => Proc.Partial.pure fun _ h => h.of_ran) fun _ => ?_
    exact validate_triple.bind fun ok =>
      Proc.Partial.ite (fun _ => Proc.Partial.pure fun _ h => h.of_ran) fun _ => hsame

theorem retry_triple {Q R : QcnState → Prop} {p : QcnProc Unit} (fuel : ℕ)
    (h : Proc.Partial P p (fun _ => Q) P) : Proc.Partial P (retry fuel p) (fun _ => Q) R := by
  induction fuel with
  | zero => exact Proc.Partial.stuck
  | succ fuel ih => exact h.tryCatch fun _ => ih

/-- The states while a database is rebuilt. -/
structure Rebuilding (kind : QcnKind) (s : QcnState) : Prop where
  sameKind : s.qcn.kind = kind
  tested : s.tested = []

/-- What a turn leaves. -/
structure Turned (env : QcnEnv) (kind : QcnKind) (stmts : List String) (outcome : Outcome)
    (s : QcnState) : Prop where
  sameKind : s.qcn.kind = kind
  raised : outcome = .raised → kind = .insertSelect
  ran : outcome = .bugShown → s.tested ≠ []
  tested : outcome = .bugShown → ∀ db ∈ s.tested, db = testedDb env kind stmts

theorem testOutcome_triple :
    Proc.Partial (Testing env kind stmts False) (testOutcome env) (Turned env kind stmts)
      (fun _ => False) := by
  refine Proc.Partial.tryCatch (qcnTestWithoutInitialization_triple.bind fun noBug =>
    Proc.Partial.pure fun s hs => ?_) fun _ => Proc.Partial.pure fun s hs => ?_
  · cases noBug with
    | false => exact ⟨hs.sameKind, nofun, fun _ => hs.ran rfl, fun _ => hs.tested⟩
    | true => exact ⟨hs.sameKind, nofun, nofun, nofun⟩
  · exact ⟨hs.1, fun _ => hs.2, nofun, nofun⟩

/-- After a backup of the rebuilt database the test can start. -/
theorem backup_triple :
    Proc.Partial (fun s => Rebuilding kind s ∧ s.built = stmts) (dutBackup env)
      (fun _ => Testing env kind stmts False) (fun s => Rebuilding kind s ∧ s.built = stmts) := by
  refine (dutCall_triple _ fun s hs => ⟨⟨hs.1.sameKind, hs.1.tested⟩, hs.2⟩).bind fun _ =>
    Proc.Partial.modify fun s ⟨hs, hbuilt⟩ => ?_
  have htested : ∀ db ∈ s.tested, db = testedDb env kind stmts := by
    rw [hs.tested]
    exact nofun
  cases hbackup : env.backupKind with
  | dump =>
    refine ⟨hs.sameKind, fun _ => hbuilt, ?_, htested, nofun⟩
    rw [restored, backedUp, hbackup, if_pos rfl]
    exact hbuilt
  | copySetup =>
    refine ⟨hs.sameKind, fun _ => hbuilt, ?_, htested, nofun⟩
    rw [restored, backedUp, hbackup, if_neg (by decide)]
    rfl
  | record =>
    refine ⟨hs.sameKind, fun _ => hbuilt, ?_, htested, nofun⟩
    rw [restored, backedUp, hbackup, if_neg (by decide)]

theorem rebuildAndTest_triple (fuel : ℕ) :
    Proc.Partial (Rebuilding kind) (rebuildAndTest env fuel stmts) (Turned env kind stmts)
      (fun _ => False) := by
  have hcalls : ∀ s, Rebuilding kind s → Rebuilding kind { s with calls := s.calls + 1 } :=
    fun s hs => ⟨hs.sameKind, hs.tested⟩
  refine Proc.Partial.bind (retry_triple (Q := fun s => Rebuilding kind s ∧ s.built = []) fuel ?_)
    fun _ => ?_
  · refine (dutSetup_triple hcalls).bind fun _ => (dutCall_triple _ hcalls).bind fun _ => ?_
    exact Proc.Partial.modify fun s hs => ⟨⟨hs.sameKind, hs.tested⟩, rfl⟩
  have hreplay : Proc.Partial (fun s => Rebuilding kind s ∧ s.built = [])
      (Proc.forEach stmts fun stmt => dutTest env stmt [])
      (fun _ s => Rebuilding kind s ∧ s.built = stmts) (Rebuilding kind) := by
    refine Proc.Partial.forEach (fun done s => Rebuilding kind s ∧ s.built = done)
      fun done stmt rest _ => ?_
    refine Proc.Partial.bind (M := fun _ s => Rebuilding kind s ∧ s.built = done) ?_ fun _ =>
      Proc.Partial.modify fun s hs => ⟨⟨hs.1.sameKind, hs.1.tested⟩, by rw [hs.2]⟩
    exact (dutCall_triple _ fun s hs => ⟨hcalls s hs.1, hs.2⟩).conseq (fun _ h => h)
      (fun _ _ h => h) fun _ h => h.1
  refine Proc.Partial.bind (M := fun ok s => Rebuilding kind s ∧ (ok = true → s.built = stmts))
    ?_ fun ok => ?_
  · refine Proc.Partial.tryCatch (M := Rebuilding kind) (hreplay.bind fun _ =>
      Proc.Partial.pure fun s hs => ⟨hs.1, fun _ => hs.2⟩) fun _ =>
      Proc.Partial.pure fun s hs => ⟨hs, nofun⟩
  cases ok with
  | false => exact Proc.Partial.pure fun s hs => ⟨hs.1.sameKind, nofun, nofun, nofun⟩
  | true =>
    refine Proc.Partial.bind ((retry_triple fuel backup_triple).pre fun s hs => ?_) fun _ =>
      testOutcome_triple
    exact ⟨hs.1, hs.2 rfl⟩

end Test

/-! The run. -/

/-- The queue stays, or the test showed the bug on what was left of it. -/
def Attempt.Right (a : Attempt) : Prop :=
  a.after = a.before ∨ (a.after = a.before.eraseIdx a.index ∧ a.outcome = .bugShown ∧
    ∀ db ∈ a.tested, db = a.before.eraseIdx a.index)

instance (a : Attempt) : Decidable a.Right := inferInstanceAs (Decidable (_ ∨ _))

/-- The tester sends its queries to the database that was rebuilt from `stmts`. -/
def TestsRebuilt (env : QcnEnv) (kind : QcnKind) (stmts : List String) : Prop :=
  TestsServer kind ∨ env.backupKind = .dump ∨ env.setup = stmts

theorem testedDb_eq_iff (env : QcnEnv) (kind : QcnKind) (stmts : List String) :
    testedDb env kind stmts = stmts ↔ TestsRebuilt env kind stmts := by
  unfold testedDb backedUp TestsRebuilt
  split_ifs with hserver hdump
  · simp [hserver]
  · simp [hdump]
  · simp [hserver, hdump]

/-- What the loop says of one of its turns. -/
structure Attempt.Made (env : QcnEnv) (kind : QcnKind) (a : Attempt) : Prop where
  index : a.index < a.before.length
  after : a.after = afterTurn a.before a.index a.outcome
  raised : a.outcome = .raised → kind = .insertSelect
  ran : a.outcome = .bugShown → a.tested ≠ []
  tested : a.outcome = .bugShown →
    ∀ db ∈ a.tested, db = testedDb env kind (a.before.eraseIdx a.index)

/-- The turns that lead from one queue to another one. -/
def Turns : List String → List Attempt → List String → Prop
  | queue, [], queue' => queue = queue'
  | queue, a :: attempts, queue' => a.before = queue ∧ Turns a.after attempts queue'

theorem Turns.append {queue queue' : List String} {attempts : List Attempt} {a : Attempt}
    (h : Turns queue attempts queue') (ha : a.before = queue') :
    Turns queue (attempts ++ [a]) a.after := by
  induction attempts generalizing queue with
  | nil => exact ⟨ha.trans (Eq.symm h), rfl⟩
  | cons b attempts ih => exact ⟨h.1, ih h.2⟩

theorem afterTurn_putBack {queue : List String} {i : ℕ} (hi : i < queue.length) :
    (queue.eraseIdx i).insertIdx i (queue.getD i "") = queue := by
  have hget : queue.getD i "" = queue[i] := by simp [hi]
  rw [hget]
  exact List.insertIdx_eraseIdx_getElem hi

theorem afterTurn_sublist {queue : List String} {i : ℕ} (hi : i < queue.length)
    (outcome : Outcome) : (afterTurn queue i outcome).Sublist queue := by
  cases outcome with
  | replayError => rw [afterTurn, afterTurn_putBack hi]
  | bugGone => rw [afterTurn, afterTurn_putBack hi]
  | raised => exact List.eraseIdx_sublist queue i
  | bugShown => exact List.eraseIdx_sublist queue i

theorem le_length_afterTurn {queue : List String} {i : ℕ} (hi : i < queue.length)
    (outcome : Outcome) : i ≤ (afterTurn queue i outcome).length := by
  have herase : (queue.eraseIdx i).length = queue.length - 1 := List.length_eraseIdx_of_lt hi
  cases outcome with
  | replayError => exact (congrArg List.length (afterTurn_putBack hi)).ge.trans' hi.le
  | bugGone => exact (congrArg List.length (afterTurn_putBack hi)).ge.trans' hi.le
  | raised =>
    change i ≤ (queue.eraseIdx i).length
    omega
  | bugShown =>
    change i ≤ (queue.eraseIdx i).length
    omega

theorem Turns.sublist {env : QcnEnv} {kind : QcnKind} {queue queue' : List String}
    {attempts : List Attempt} (h : Turns queue attempts queue')
    (hmade : ∀ a ∈ attempts, a.Made env kind) : queue'.Sublist queue := by
  induction attempts generalizing queue with
  | nil =>
    rw [(h : queue = queue')]
  | cons a attempts ih =>
    have ha := hmade a List.mem_cons_self
    refine (ih h.2 fun b hb => hmade b (List.mem_cons_of_mem a hb)).trans ?_
    rw [ha.after, ← h.1]
    exact afterTurn_sublist ha.index a.outcome

/-- A turn is right unless its test threw, or showed the bug on another database. -/
theorem Attempt.Made.right_iff {env : QcnEnv} {kind : QcnKind} {a : Attempt}
    (h : a.Made env kind) : a.Right ↔ a.outcome ≠ .raised ∧
      (a.outcome = .bugShown → TestsRebuilt env kind (a.before.eraseIdx a.index)) := by
  have hshort : a.before.eraseIdx a.index ≠ a.before := by
    intro heq
    have hlen := List.length_eraseIdx_of_lt h.index
    rw [heq] at hlen
    have := h.index
    omega
  have hafter := h.after
  unfold Attempt.Right
  cases houtcome : a.outcome with
  | replayError =>
    rw [houtcome] at hafter
    exact iff_of_true (Or.inl (hafter.trans (afterTurn_putBack h.index))) ⟨nofun, nofun⟩
  | bugGone =>
    rw [houtcome] at hafter
    exact iff_of_true (Or.inl (hafter.trans (afterTurn_putBack h.index))) ⟨nofun, nofun⟩
  | raised =>
    rw [houtcome] at hafter
    simp [hafter, afterTurn, hshort]
  | bugShown =>
    rw [houtcome] at hafter
    have hdb : (∀ db ∈ a.tested, db = a.before.eraseIdx a.index) ↔
        testedDb env kind (a.before.eraseIdx a.index) = a.before.eraseIdx a.index := by
      obtain ⟨db, hdb⟩ := List.exists_mem_of_ne_nil _ (h.ran houtcome)
      constructor
      · intro hall
        rw [← h.tested houtcome db hdb, hall db hdb]
      · intro heq db' hdb'
        rw [h.tested houtcome db' hdb', heq]
    simp [hafter, afterTurn, hshort, hdb, testedDb_eq_iff]

/-- What the loop has done when its next index is below `i`. -/
structure Removing (env : QcnEnv) (kind : QcnKind) (input : List String) (i : ℕ)
    (m : Minimized) : Prop where
  left : i ≤ m.stmtQueue.length
  made : ∀ a ∈ m.attempts, a.Made env kind
  turns : Turns input m.attempts m.stmtQueue
  indices : m.attempts.map (·.index) ++ (List.range i).reverse = (List.range input.length).reverse

theorem Removing.start (env : QcnEnv) (kind : QcnKind) (input : List String) :
    Removing env kind input input.length ⟨input, none, []⟩ :=
  ⟨le_rfl, nofun, rfl, rfl⟩

theorem tryRemove_triple {env : QcnEnv} {kind : QcnKind} {input : List String} {i : ℕ}
    {m : Minimized} (fuel : ℕ) (h : Removing env kind input (i + 1) m) :
    Proc.Partial (fun s => s.qcn.kind = kind) (tryRemove env fuel i m)
      (fun m' s => Removing env kind input i m' ∧ s.qcn.kind = kind) (fun _ => False) := by
  refine Proc.Partial.bind (M := fun _ => Rebuilding kind)
    (Proc.Partial.modify fun s hs => ⟨hs, rfl⟩) fun _ => ?_
  refine (rebuildAndTest_triple fuel).bind fun outcome => Proc.Partial.get.bind fun s =>
    Proc.Partial.pure ?_
  rintro t ⟨rfl, ht⟩
  refine ⟨⟨le_length_afterTurn h.left outcome, ?_, h.turns.append rfl, ?_⟩, ht.sameKind⟩
  · intro a ha
    rcases List.mem_append.1 ha with ha | ha
    · exact h.made a ha
    · rw [List.mem_singleton.1 ha]
      exact ⟨h.left, rfl, ht.raised, ht.ran, ht.tested⟩
  · rw [← h.indices, List.range_succ]
    simp

theorem removeLoop_triple {env : QcnEnv} {kind : QcnKind} {input : List String} {i : ℕ}
    {m : Minimized} (fuel : ℕ) (h : Removing env kind input i m) :
    Proc.Partial (fun s => s.qcn.kind = kind) (removeLoop env fuel i m)
      (fun m' _ => Removing env kind input 0 m') (fun _ => False) := by
  induction i generalizing m with
  | zero => exact Proc.Partial.pure fun _ _ => h
  | succ i ih =>
    refine (tryRemove_triple fuel h).bind fun m' s hs => ?_
    exact ih hs.1 s hs.2

theorem minimizeQcnDatabase_removing {env : QcnEnv} {fuel : ℕ} {record : String} {s t : QcnState}
    {m : Minimized} (h : minimizeQcnDatabase env fuel record s = (.ok m, t)) :
    Removing env s.qcn.kind (readStmts record) 0 m := by
  have hrun : Proc.Partial (fun u => u = s) (minimizeQcnDatabase env fuel record)
      (fun m _ => Removing env s.qcn.kind (readStmts record) 0 m) (fun _ => False) := by
    refine Proc.Partial.get.bind fun u => ?_
    refine Proc.Partial.bind (M := fun _ v => v.qcn.kind = s.qcn.kind) ?_ fun _ => ?_
    · refine Proc.Partial.modify fun v hv => ?_
      rw [hv.2]
    · refine (removeLoop_triple fuel (Removing.start env s.qcn.kind _)).bind fun m => ?_
      exact Proc.Partial.bind (Proc.Partial.modify fun _ hm => hm) fun _ =>
        Proc.Partial.pure fun _ hm => hm
  exact hrun.ok rfl h

/-- The saved statements come from the record file by one turn for each index. All turns are right
exactly when no test throws and each test that shows the bug is made on the rebuilt database. -/
theorem minimizeQcnDatabase_right_iff {env : QcnEnv} {fuel : ℕ} {record : String}
    {s t : QcnState} {m : Minimized} (h : minimizeQcnDatabase env fuel record s = (.ok m, t)) :
    m.stmtQueue.Sublist (readStmts record) ∧
      Turns (readStmts record) m.attempts m.stmtQueue ∧
      m.attempts.map (·.index) = (List.range (readStmts record).length).reverse ∧
      ((∀ a ∈ m.attempts, a.Right) ↔ ∀ a ∈ m.attempts, a.outcome ≠ .raised ∧
        (a.outcome = .bugShown →
          TestsRebuilt env s.qcn.kind (a.before.eraseIdx a.index))) := by
  have hm := minimizeQcnDatabase_removing h
  refine ⟨hm.turns.sublist hm.made, hm.turns, by simpa using hm.indices, ?_⟩
  exact forall₂_congr fun a ha => (hm.made a ha).right_iff

theorem exists_run {β : Type} (env : QcnEnv) (fuel : ℕ) (record : String) (s : QcnState)
    (f : Minimized → β) (b : β)
    (h : (minimizeQcnDatabase env fuel record s).1.toOption.map f = some b) :
    ∃ m t, minimizeQcnDatabase env fuel record s = (.ok m, t) ∧ f m = b := by
  rcases hrun : minimizeQcnDatabase env fuel record s with ⟨r, t⟩
  rw [hrun] at h
  cases r with
  | error e => cases h
  | ok m =>
    cases h
    exact ⟨m, t, rfl, rfl⟩

/-! A server on which the second update writes another value, with one table and one row. -/

def createStmt : String := "create table t_0 (c_0 int);"
def insertStmt : String := "insert into t_0 values (1);"

def recordFile : String := "create table t_0 (c_0 int);\ninsert into t_0 values (1);\n"

def wrongUpdate (kind : BackupKind) : QcnEnv where
  backupKind := kind
  setup := [createStmt, insertStmt]
  answer s call :=
    match call with
    | .getContent _ =>
      if insertStmt ∉ s.built then .ok []
      else if "update t_0 set c_0 = 2" ∈ s.built then .ok [["2"]]
      else if "update t_0 set c_0 = 1 + 1" ∈ s.built then .ok [["3"]]
      else .ok [["1"]]
    | .test stmt _ => if stmt = insertStmt ∧ createStmt ∉ s.built then .error "no table" else .ok []
    | _ => .ok []

def updateTester : QcnState where
  qcn := ⟨.update, "postgres", "t_0", [], "update t_0 set c_0 = 2", "update t_0 set c_0 = 1 + 1",
    0, 0, false, false⟩
  built := []
  backup := none
  calls := 0
  tested := []

/-- A backup that copies `db_setup.sql` brings all statements back before each query, so
the row that the bug needs is removed from the saved statements, and then the table. -/
theorem minimizeQcnDatabase_removes_needed :
    ∃ m t, minimizeQcnDatabase (wrongUpdate .copySetup) 1 recordFile updateTester = (.ok m, t) ∧
      m.stmtQueue = [] ∧ ¬ ∀ a ∈ m.attempts, a.Right := by
  obtain ⟨m, t, hrun, hm⟩ := exists_run (wrongUpdate .copySetup) 1 recordFile updateTester
    (fun m => (m.stmtQueue, decide (∀ a ∈ m.attempts, a.Right))) ([], false) (by decide +kernel)
  obtain ⟨hqueue, hright⟩ := Prod.mk.inj hm
  exact ⟨m, t, hrun, hqueue, of_decide_eq_false hright⟩

/-- With a dump the same run keeps both statements. -/
theorem minimizeQcnDatabase_right_dump :
    ∃ m t, minimizeQcnDatabase (wrongUpdate .dump) 1 recordFile updateTester = (.ok m, t) ∧
      m.stmtQueue.Sublist (readStmts recordFile) ∧
      ((∀ a ∈ m.attempts, a.Right) ↔ ∀ a ∈ m.attempts, a.outcome ≠ .raised ∧
        (a.outcome = .bugShown →
          TestsRebuilt (wrongUpdate .dump) .update (a.before.eraseIdx a.index))) := by
  obtain ⟨m, t, hrun, -⟩ := exists_run (wrongUpdate .dump) 1 recordFile updateTester
    (fun m => m.stmtQueue) [createStmt, insertStmt] (by decide +kernel)
  have h := minimizeQcnDatabase_right_iff hrun
  exact ⟨m, t, hrun, h.1, h.2.2.2⟩

end DbFuzz.Eet
