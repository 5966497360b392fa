import Mathlib.Data.List.Basic
import Mathlib.Logic.Relation
import DbFuzz.Grammar.StatementFactory
import DbFuzz.TxCheck.Usage

/-! `smoke_run`: each generated statement is tested in a transaction that is rolled back, a lost
connection is set up again, and the results are fed back to the generator. -/

namespace DbFuzz.Smoke

/-- What a run talks to. A call of the driver throws the text of an error or returns; `dutSetup`
opens a new connection. -/
structure SmokeEnv (σ : Type) where
  maxQueries : ℕ
  dryRun : Bool
  exactPatterns : List String
  regexPatterns : List (String → Bool)
  test : σ → String → Option String × σ
  dutSetup : σ → Option String × σ
  generator : StmtGenerator

/-- What the loggers are told about a statement. -/
inductive Outcome
  | generated
  | executed
  | failed (known : Bool)
  | broken
  deriving DecidableEq

def Outcome.isError : Outcome → Bool
  | failed _ | broken => true
  | _ => false

/-- The variables of the loop, with the number of the next attempt to construct a statement and
the statements so far. -/
structure SmokeState (σ : Type) where
  server : σ
  attempts : ℕ
  queryCount : ℕ
  suppressedCount : ℕ
  impedance : Impedance
  log : List (Ast × Outcome)

variable {σ : Type}

def isConnectionError (err : String) : Bool :=
  ["connection", "server closed", "broken pipe", "Connection refused", "CONNECTION_BAD",
    "Lost connection", "MySQL server has gone", "Can't connect"].any (containsText err)

namespace SmokeEnv

variable (env : SmokeEnv σ)

def isKnownError (msg : String) : Bool :=
  env.exactPatterns.any (containsText msg) || env.regexPatterns.any (· msg)

/-- `conn->test` for one statement after the other, up to the first that throws. -/
def testAll : List String → σ → Option String × σ
  | [], s => (none, s)
  | stmt :: rest, s =>
    match env.test s stmt with
    | (none, s) => testAll rest s
    | (some err, s) => (some err, s)

/-- The first `ROLLBACK` may throw. -/
def execute (sql : String) (s : σ) : Option String × σ :=
  env.testAll ["BEGIN", sql, "ROLLBACK"] (env.test s "ROLLBACK").2

def settings : List String :=
  ["SET statement_timeout TO '1s'", "SET client_min_messages TO 'ERROR'",
    "SET application_name TO 'dbfuzz::dut'"]

/-- Each setting may throw. -/
def setSession (s : σ) : σ := settings.foldl (fun s stmt => (env.test s stmt).2) s

def reconnect (s : σ) : σ :=
  match env.dutSetup s with
  | (none, s) => env.setSession s
  | (some _, s) => s

/-- One turn of the inner loop with the statement `a`, and the recovery of the outer loop when it
throws. -/
def testStmt (a : Ast) (st : SmokeState σ) : SmokeState σ :=
  if env.dryRun then
    { st with queryCount := st.queryCount + 1, log := st.log ++ [(a, .generated)] }
  else
    match env.execute a.text st.server with
    | (none, s) =>
      { st with
        server := s
        queryCount := st.queryCount + 1
        impedance := st.impedance.executed a.visited
        log := st.log ++ [(a, .executed)] }
    | (some err, s) =>
      if isConnectionError err then
        { st with
          server := env.reconnect s
          impedance := st.impedance.error a.visited
          log := st.log ++ [(a, .broken)] }
      else
        { st with
          server := (env.test s "ROLLBACK").2
          queryCount := st.queryCount + 1
          suppressedCount := st.suppressedCount + if env.isKnownError err then 1 else 0
          impedance := st.impedance.error a.visited
          log := st.log ++ [(a, .failed (env.isKnownError err))] }

/-- The state before the first turn, on a connection to a server in the state `s`. -/
def start (s : σ) : SmokeState σ where
  server := if env.dryRun then s else env.setSession s
  attempts := 0
  queryCount := 0
  suppressedCount := 0
  impedance := .empty
  log := []

/-- The loop returns here. -/
def Returns (st : SmokeState σ) : Prop := 0 < env.maxQueries ∧ env.maxQueries ≤ st.queryCount

/-- One turn, with the statement that `statement_factory` returns. -/
inductive Turn : SmokeState σ → SmokeState σ → Prop
  | mk {st : SmokeState σ} {fuel n : ℕ} {a : Ast} : ¬ env.Returns st →
    env.generator.statementFactory st.impedance fuel st.attempts = some (a, n) →
    Turn st (env.testStmt a { st with attempts := n })

abbrev Turns : SmokeState σ → SmokeState σ → Prop := Relation.ReflTransGen env.Turn

end SmokeEnv

variable {env : SmokeEnv σ} {st st' : SmokeState σ} {a : Ast}

/-! What a turn can do: the outcome, and the server after it. -/

/-- The records of a statement with the given outcome. -/
def SmokeState.tell (st : SmokeState σ) (a : Ast) (outcome : Outcome) (server : σ) :
    SmokeState σ where
  server := server
  attempts := st.attempts
  queryCount := st.queryCount + if outcome = .broken then 0 else 1
  suppressedCount := st.suppressedCount + if outcome = .failed true then 1 else 0
  impedance :=
    if outcome.isError then st.impedance.error a.visited
    else if outcome = .executed then st.impedance.executed a.visited
    else st.impedance
  log := st.log ++ [(a, outcome)]

inductive Replies (env : SmokeEnv σ) (a : Ast) (s : σ) : Outcome → σ → Prop
  | generated : env.dryRun = true → Replies env a s .generated s
  | executed {t : σ} : env.execute a.text s = (none, t) → Replies env a s .executed t
  | broken {err : String} {t : σ} : env.execute a.text s = (some err, t) →
    Replies env a s .broken (env.reconnect t)
  | failed {err : String} {t : σ} : env.execute a.text s = (some err, t) →
    Replies env a s (.failed (env.isKnownError err)) (env.test t "ROLLBACK").2

theorem testStmt_cases (env : SmokeEnv σ) (a : Ast) (st : SmokeState σ) :
    ∃ outcome s, Replies env a st.server outcome s ∧ env.testStmt a st = st.tell a outcome s := by
  unfold SmokeEnv.testStmt
  by_cases hdry : env.dryRun = true
  · rw [if_pos hdry]
    exact ⟨_, _, .generated hdry, rfl⟩
  · rw [if_neg hdry]
    rcases hrun : env.execute a.text st.server with ⟨_ | err, s⟩
    · exact ⟨_, _, .executed hrun, rfl⟩
    · dsimp only
      by_cases hconn : isConnectionError err = true
      · rw [if_pos hconn]
        exact ⟨_, _, .broken hrun, rfl⟩
      · rw [if_neg hconn]
        refine ⟨_, _, .failed hrun, ?_⟩
        unfold SmokeState.tell
        cases env.isKnownError err <;> rfl

/-- A turn tests a statement that the generator could construct. -/
theorem SmokeEnv.Turn.cases (h : env.Turn st st') : ∃ a n outcome s, ¬ env.Returns st ∧
    env.generator.Constructs st.impedance a ∧ Replies env a st.server outcome s ∧
      st' = { st with attempts := n }.tell a outcome s := by
  obtain ⟨hreturns, hfactory⟩ := h
  rename_i fuel n a
  obtain ⟨outcome, s, hreplies, heq⟩ := testStmt_cases env a { st with attempts := n }
  exact ⟨a, n, outcome, s, hreturns, StmtGenerator.statementFactory_constructs hfactory, hreplies, heq⟩

/-- What a turn keeps, a run keeps. -/
theorem SmokeEnv.turns_inv {P : SmokeState σ → Prop} (hrun : env.Turns st st') (hstart : P st)
    (hturn : ∀ u a n outcome s, P u → ¬ env.Returns u → env.generator.Constructs u.impedance a →
      Replies env a u.server outcome s → P ({ u with attempts := n }.tell a outcome s)) : P st' := by
  induction hrun with
  | refl => exact hstart
  | tail _ h ih =>
    obtain ⟨a, n, outcome, s, hreturns, hconstructs, hreplies, rfl⟩ := h.cases
    exact hturn _ a n outcome s ih hreturns hconstructs hreplies

/-! The records. -/

namespace SmokeState

def failures (st : SmokeState σ) (name : String) : ℕ :=
  st.log.countP fun t => t.2.isError && decide (name ∈ t.1.visited)

def successes (st : SmokeState σ) (name : String) : ℕ :=
  st.log.countP fun t => decide (t.2 = .executed) && decide (name ∈ t.1.visited)

/-- The counters agree with the statements so far. -/
structure Accounts (st : SmokeState σ) : Prop where
  queryCount : st.queryCount = st.log.countP fun t => decide (t.2 ≠ .broken)
  suppressed : st.suppressedCount = st.log.countP fun t => decide (t.2 = .failed true)
  failed : ∀ name, st.impedance.occurancesInFailedQuery name = st.failures name
  ok : ∀ name, st.impedance.occurancesInOkQuery name = st.successes name

end SmokeState

open SmokeState

theorem accounts_start (env : SmokeEnv σ) (s : σ) : (env.start s).Accounts :=
  ⟨rfl, rfl, fun _ => rfl, fun _ => rfl⟩

theorem SmokeState.Accounts.tell (h : st.Accounts) (a : Ast) (n : ℕ) (outcome : Outcome) (s : σ) :
    ({ st with attempts := n }.tell a outcome s).Accounts where
  queryCount := by
    simp only [SmokeState.tell, List.countP_append, List.countP_singleton, h.queryCount]
    cases outcome <;> rfl
  suppressed := by
    simp only [SmokeState.tell, List.countP_append, List.countP_singleton, h.suppressed]
    simp only [decide_eq_true_eq]
  failed := by
    intro name
    have hfailed := h.failed name
    simp only [failures] at hfailed
    simp only [failures, SmokeState.tell, List.countP_append, List.countP_singleton, ← hfailed]
    cases outcome <;>
      by_cases hname : name ∈ a.visited <;>
        simp [Outcome.isError, Impedance.error, Impedance.executed, Impedance.visit, hname]
  ok := by
    intro name
    have hok := h.ok name
    simp only [successes] at hok
    simp only [successes, SmokeState.tell, List.countP_append, List.countP_singleton, ← hok]
    cases outcome <;>
      by_cases hname : name ∈ a.visited <;>
        simp [Outcome.isError, Impedance.error, Impedance.executed, Impedance.visit, hname]

theorem SmokeState.bounded_tell {name : String} {n : ℕ} {outcome : Outcome} {s : σ}
    (h : st.impedance.Bounded name)
    (hmatched : name ∈ a.visited → st.impedance.matched name = true) :
    ({ st with attempts := n }.tell a outcome s).impedance.Bounded name := by
  unfold SmokeState.tell
  dsimp only
  split_ifs
  · exact h.error hmatched
  · exact h.executed
  · exact h

theorem SmokeState.matched_tell {name : String} {n : ℕ} {outcome : Outcome} {s : σ}
    (hname : name ∉ a.visited) : ({ st with attempts := n }.tell a outcome s).impedance.matched name =
      st.impedance.matched name := by
  unfold SmokeState.tell
  dsimp only
  split_ifs
  · exact Impedance.matched_error hname
  · exact Impedance.matched_executed hname
  · rfl

/-- A server with transactions. `content` is what is committed, `quiet` says that no transaction
is open which a `BEGIN` would commit, and `inTxn` that one is open; the server commits the classes
in `commits` whatever the client asks for. -/
structure Transacts {D : Type} (env : SmokeEnv σ) (commits : StmtClass → Bool) (content : σ → D)
    (quiet inTxn : σ → Prop) : Prop where
  rollback : ∀ s, content (env.test s "ROLLBACK").2 = content s ∧ quiet (env.test s "ROLLBACK").2
  beginTxn : ∀ s, quiet s → content (env.test s "BEGIN").2 = content s
  opens : ∀ s, (env.test s "BEGIN").1 = none → inTxn (env.test s "BEGIN").2
  statement : ∀ s n i c text below, inTxn s → commits c = false →
    env.generator.construct n i c = some (text, below) → content (env.test s text).2 = content s
  setting : ∀ s, ∀ stmt ∈ SmokeEnv.settings, content (env.test s stmt).2 = content s
  setup : ∀ s, content (env.dutSetup s).2 = content s

namespace Transacts

variable {D : Type} {commits : StmtClass → Bool} {content : σ → D} {quiet inTxn : σ → Prop}

theorem content_setSession (h : Transacts env commits content quiet inTxn) (s : σ) :
    content (env.setSession s) = content s := by
  have hall : ∀ stmts : List String, (∀ stmt ∈ stmts, stmt ∈ SmokeEnv.settings) → ∀ s,
      content (stmts.foldl (fun s stmt => (env.test s stmt).2) s) = content s := by
    intro stmts
    induction stmts with
    | nil => exact fun _ _ => rfl
    | cons stmt stmts ih =>
      intro hmem s
      rw [List.foldl_cons, ih fun stmt h => hmem stmt (List.mem_cons_of_mem _ h)]
      exact h.setting s stmt (hmem stmt List.mem_cons_self)
  exact hall _ (fun _ h => h) s

theorem content_reconnect (h : Transacts env commits content quiet inTxn) (s : σ) :
    content (env.reconnect s) = content s := by
  have hsetup := h.setup s
  unfold SmokeEnv.reconnect
  generalize env.dutSetup s = r at hsetup ⊢
  rcases r with ⟨_ | err, t⟩
  · exact (h.content_setSession t).trans hsetup
  · exact hsetup

theorem content_execute (h : Transacts env commits content quiet inTxn) {i : Impedance}
    (hconstructs : env.generator.Constructs i a) (hstmt : commits a.stmt = false) (s : σ) :
    content (env.execute a.text s).2 = content s := by
  obtain ⟨-, n, below, hbuilt, -⟩ := hconstructs.parts
  obtain ⟨hroll, hquiet⟩ := h.rollback s
  have hbegin := h.beginTxn _ hquiet
  have hopens := h.opens (env.test s "ROLLBACK").2
  unfold SmokeEnv.execute
  rw [SmokeEnv.testAll]
  generalize env.test (env.test s "ROLLBACK").2 "BEGIN" = r at hbegin hopens ⊢
  rcases r with ⟨_ | err, t⟩
  · -- the transaction is open for the statement
    have htext := h.statement t n i a.stmt a.text below (hopens rfl) hstmt hbuilt
    dsimp only
    rw [SmokeEnv.testAll]
    generalize env.test t a.text = r at htext ⊢
    rcases r with ⟨_ | err, u⟩
    · have hend := (h.rollback u).1
      dsimp only
      rw [SmokeEnv.testAll]
      generalize env.test u "ROLLBACK" = r at hend ⊢
      rcases r with ⟨_ | err, v⟩
      · exact hend.trans (htext.trans (hbegin.trans hroll))
      · exact hend.trans (htext.trans (hbegin.trans hroll))
    · exact htext.trans (hbegin.trans hroll)
  · exact hbegin.trans hroll

theorem content_replies (h : Transacts env commits content quiet inTxn) {i : Impedance} {s t : σ}
    {outcome : Outcome} (hconstructs : env.generator.Constructs i a)
    (hstmt : commits a.stmt = false) (hreplies : Replies env a s outcome t) :
    content t = content s := by
  have hexecute := h.content_execute hconstructs hstmt s
  cases hreplies with
  | generated _ => rfl
  | executed hrun => rwa [hrun] at hexecute
  | broken hrun =>
    rw [hrun] at hexecute
    exact (h.content_reconnect _).trans hexecute
  | failed hrun =>
    rw [hrun] at hexecute
    exact (h.rollback _).1.trans hexecute

end Transacts

/-- On a server with transactions a run leaves the committed content as it found it, whatever
fails and however often the connection is lost, as long as it tests no statement that the server
commits by itself. -/
theorem smoke_content {D : Type} {commits : StmtClass → Bool} {content : σ → D}
    {quiet inTxn : σ → Prop} (h : Transacts env commits content quiet inTxn) {s : σ}
    (hrun : env.Turns (env.start s) st) (hlog : ∀ t ∈ st.log, commits t.1.stmt = false) :
    content st.server = content s := by
  have hstart : content (env.start s).server = content s := by
    unfold SmokeEnv.start
    dsimp only
    split_ifs
    · rfl
    · exact h.content_setSession s
  revert hlog
  apply SmokeEnv.turns_inv hrun fun _ => hstart
  intro u a n outcome t hu _ hconstructs hreplies hlog
  have hstmt : commits a.stmt = false :=
    hlog (a, outcome) (List.mem_append_right _ (List.mem_singleton.2 rfl))
  have hbefore := hu fun x hx => hlog x (List.mem_append_left _ hx)
  exact (h.content_replies hconstructs hstmt hreplies).trans hbefore

/-! A run. -/

/-- A server with one table of texts: what is committed, and what the open transaction sees. -/
structure TextServer where
  committed : List String
  working : Option (List String)

/-- It has no settings, and `BEGIN` commits what is open. -/
def TextServer.test (s : TextServer) (stmt : String) : Option String × TextServer :=
  if stmt = "ROLLBACK" then (none, ⟨s.committed, none⟩)
  else if stmt = "BEGIN" then
    (none, ⟨s.working.getD s.committed, some (s.working.getD s.committed)⟩)
  else if stmt ∈ SmokeEnv.settings then (some "unknown variable", s)
  else match s.working with
    | some rows => (none, ⟨s.committed, some (rows ++ [stmt])⟩)
    | none => (none, ⟨s.committed ++ [stmt], none⟩)

def insertText : String := "insert into t_0 values ((select max(c_0) from t_1))"

/-- Every draw is 8: each statement inserts a subquery, as long as those are not ruled out. -/
def insertingEnv : SmokeEnv TextServer where
  maxQueries := 1
  dryRun := false
  exactPatterns := []
  regexPatterns := []
  test := TextServer.test
  dutSetup s := (none, ⟨s.committed, none⟩)
  generator :=
    { targetDbms := .mysql
      features := ⟨false, true, true, true, true, true, true, true⟩
      tables := 2
      draws := fun _ _ => 8
      construct := fun _ i _ =>
        if i.matched "atomic_subselect" then some (insertText, ["atomic_subselect"]) else none }

def insertAst : Ast := ⟨.insert, insertText, ["insert_stmt", "atomic_subselect"]⟩

def emptyServer : TextServer := ⟨[], none⟩

def afterInsert : SmokeState TextServer :=
  insertingEnv.testStmt insertAst { insertingEnv.start emptyServer with attempts := 1 }

theorem turns_afterInsert : insertingEnv.Turns (insertingEnv.start emptyServer) afterInsert := by
  have hfactory : insertingEnv.generator.statementFactory .empty 1 0 = some (insertAst, 1) := rfl
  have hreturns : ¬ insertingEnv.Returns (insertingEnv.start emptyServer) :=
    fun h => absurd h.2 (by decide)
  exact .single (.mk hreturns hfactory)

theorem insertingEnv_guards : insertingEnv.generator.Guards := by
  intro n i c text below h name hname _
  change (if i.matched "atomic_subselect" then some (insertText, ["atomic_subselect"]) else none) =
    some (text, below) at h
  split_ifs at h with hmatched
  cases h
  rwa [List.mem_singleton.1 hname]

theorem insertingEnv_transacts : Transacts insertingEnv StmtClass.commitsImplicitly
    TextServer.committed (fun s => s.working = none) fun s => s.working ≠ none where
  rollback _ := ⟨rfl, rfl⟩
  beginTxn s hs := by
    change s.working.getD s.committed = s.committed
    rw [hs]
    rfl
  opens _ _ := Option.some_ne_none _
  statement := by
    intro s n i c text below hs _ h
    change (if i.matched "atomic_subselect" then some (insertText, ["atomic_subselect"]) else none) =
      some (text, below) at h
    split_ifs at h
    cases h
    obtain ⟨rows, hrows⟩ := Option.ne_none_iff_exists'.1 hs
    change (TextServer.test s insertText).2.committed = s.committed
    rw [TextServer.test, if_neg (by decide), if_neg (by decide), if_neg (by decide), hrows]
  setting := by
    intro s stmt hstmt
    change (TextServer.test s stmt).2.committed = s.committed
    have hother : stmt ≠ "ROLLBACK" ∧ stmt ≠ "BEGIN" := by
      revert stmt
      decide
    rw [TextServer.test, if_neg hother.1, if_neg hother.2, if_pos hstmt]
  setup _ := rfl

theorem smoke_content_insert : afterInsert.server.committed = emptyServer.committed :=
  smoke_content insertingEnv_transacts turns_afterInsert
    fun _ ht => List.mem_singleton.1 ht ▸ rfl

end DbFuzz.Smoke
