import DbFuzz.Core.Impedance
import DbFuzz.Grammar.Statements

/-! `statement_factory`: which class of statements it constructs for its draws, and how it starts
again when a constructor throws. -/

namespace DbFuzz

/-- The classes that `statement_factory` constructs. -/
inductive StmtClass
  | createTable
  | createView
  | alterTable
  | dropTable
  | delete
  | update
  | createIndex
  | createTrigger
  | insert
  | insertSelect
  | commonTableExpression
  | dataModifyingCte
  | replace
  | unionedQuery
  | explain
  | tableMaintenance
  | savepoint
  | lock
  | setIsolation
  | xa
  | multiTableUpdate
  | multiTableDelete
  | querySpec
  deriving DecidableEq

structure StmtFeatures where
  hasDataModCte : Bool
  hasReplace : Bool
  hasExplain : Bool
  hasSavepoint : Bool
  hasSetIsolation : Bool
  hasXaTransaction : Bool
  hasMultiTableUpdate : Bool
  hasMultiTableDelete : Bool

namespace StmtClass

def className : StmtClass → String
  | createTable => "create_table_stmt"
  | createView => "create_view_stmt"
  | alterTable => "alter_table_stmt"
  | dropTable => "drop_table_stmt"
  | delete => "delete_stmt"
  | update => "update_stmt"
  | createIndex => "create_index_stmt"
  | createTrigger => "create_trigger_stmt"
  | insert => "insert_stmt"
  | insertSelect => "insert_select_stmt"
  | commonTableExpression => "common_table_expression"
  | dataModifyingCte => "data_modifying_cte"
  | replace => "replace_stmt"
  | unionedQuery => "unioned_query"
  | explain => "explain_stmt"
  | tableMaintenance => "table_maintenance_stmt"
  | savepoint => "savepoint_stmt"
  | lock => "lock_stmt"
  | setIsolation => "set_isolation_stmt"
  | xa => "xa_stmt"
  | multiTableUpdate => "multi_table_update_stmt"
  | multiTableDelete => "multi_table_delete_stmt"
  | querySpec => "query_spec"

/-- The classes for which a constructor of the statement calls `match`. A `replace_stmt` is built
by the constructor of its base class. -/
def matches_ : StmtClass → List String
  | insert | replace => ["insert_stmt"]
  | insertSelect => ["insert_select_stmt"]
  | dataModifyingCte => ["data_modifying_cte"]
  | _ => []

/-- MySQL ends the transaction before it executes such a statement. -/
def commitsImplicitly : StmtClass → Bool
  | createTable | createView | alterTable | dropTable | createIndex | createTrigger
  | tableMaintenance | lock => true
  | _ => false

end StmtClass

/-- The classes whose own constructor calls `match`. -/
def guardedClasses : List String :=
  ["window_function", "quantified_comparison", "json_extract_op", "array_constructor",
    "row_constructor", "atomic_subselect", "table_sample", "insert_stmt", "insert_select_stmt",
    "data_modifying_cte", "cte_dml_item", "delete_returning", "update_returning", "upsert_stmt",
    "merge_stmt"]

/-- The statements with a `d42` of their own, which is drawn where the server has them. -/
def rareClasses (dbms : TargetDbms) (f : StmtFeatures) : List (Bool × StmtClass) :=
  [(f.hasExplain, .explain), (dbms = .mysql, .tableMaintenance), (f.hasSavepoint, .savepoint),
    (dbms = .mysql, .lock), (f.hasSetIsolation, .setIsolation),
    (f.hasXaTransaction && dbms = .mysql, .xa),
    (f.hasMultiTableUpdate && dbms = .mysql, .multiTableUpdate),
    (f.hasMultiTableDelete && dbms = .mysql, .multiTableDelete)]

def rareClass (draws : ℕ → ℕ) : ℕ → List (Bool × StmtClass) → StmtClass
  | _, [] => .querySpec
  | k, (present, c) :: rest =>
    if present then if draws k = 1 then c else rareClass draws (k + 1) rest
    else rareClass draws k rest

/-- The class that `statement_factory` constructs, as it is compiled (`TEST_MYSQL`, `TEST_TIDB`).
The first draw is a `d6` with fewer than two tables in the scope, else a `d20`. -/
def statementClass (dbms : TargetDbms) (f : StmtFeatures) (tables : ℕ) (draws : ℕ → ℕ) :
    StmtClass :=
  if tables < 2 then
    if tables = 0 ∨ draws 0 > 3 then .createTable else .createView
  else
    let rare := rareClass draws 1 (rareClasses dbms f)
    match draws 0 with
    | 1 => .createTable
    | 3 => .alterTable
    | 4 => .delete
    | 5 => .update
    | 6 => .createIndex
    | 7 => .createTrigger
    | 8 => .insert
    | 9 => .insertSelect
    | 10 | 11 | 12 => .commonTableExpression
    | 13 | 14 | 15 => .unionedQuery
    | 16 => if f.hasDataModCte then .dataModifyingCte else rare
    | 17 => if f.hasReplace then .replace else rare
    | 18 => .dropTable
    | _ => rare

/-- A generated statement: its text and the classes that `accept` visits. -/
structure Ast where
  stmt : StmtClass
  text : String
  visited : List String

/-- The generator of a run. Its attempts to construct a statement are numbered; `construct` returns
the text and the classes below the statement, or nothing where a constructor threw. -/
structure StmtGenerator where
  targetDbms : TargetDbms
  features : StmtFeatures
  tables : ℕ
  draws : ℕ → ℕ → ℕ
  construct : ℕ → Impedance → StmtClass → Option (String × List String)

namespace StmtGenerator

def attempt (g : StmtGenerator) (i : Impedance) (n : ℕ) : Option Ast :=
  let c := statementClass g.targetDbms g.features g.tables (g.draws n)
  if c.matches_.all i.matched then
    (g.construct n i c).map fun built => ⟨c, built.1, c.className :: built.2⟩
  else none

/-- `statement_factory` calls itself as long as a constructor throws. Returns the statement and the
number of the next attempt. -/
def statementFactory (g : StmtGenerator) (i : Impedance) : ℕ → ℕ → Option (Ast × ℕ)
  | 0, _ => none
  | fuel + 1, n =>
    match g.attempt i n with
    | some a => some (a, n + 1)
    | none => g.statementFactory i fuel (n + 1)

/-- `prod::match`: the constructor of a guarded class throws when the class is ruled out. -/
def Guards (g : StmtGenerator) : Prop :=
  ∀ n i c text below, g.construct n i c = some (text, below) →
    ∀ name ∈ below, name ∈ guardedClasses → i.matched name = true

/-- A statement of some attempt. -/
def Constructs (g : StmtGenerator) (i : Impedance) (a : Ast) : Prop := ∃ n, g.attempt i n = some a

variable {g : StmtGenerator} {i : Impedance} {a : Ast}

theorem statementFactory_constructs {fuel n m : ℕ} (h : g.statementFactory i fuel n = some (a, m)) :
    g.Constructs i a := by
  induction fuel generalizing n with
  | zero => cases h
  | succ fuel ih =>
    rw [statementFactory] at h
    cases hattempt : g.attempt i n with
    | some b =>
      rw [hattempt] at h
      cases h
      exact ⟨n, hattempt⟩
    | none =>
      rw [hattempt] at h
      exact ih h

theorem Constructs.parts (h : g.Constructs i a) : a.stmt.matches_.all i.matched = true ∧
    ∃ n below, g.construct n i a.stmt = some (a.text, below) ∧
      a.visited = a.stmt.className :: below := by
  obtain ⟨n, h⟩ := h
  unfold attempt at h
  dsimp only at h
  split_ifs at h with hmatched
  obtain ⟨⟨text, below⟩, hbuilt, rfl⟩ := Option.map_eq_some_iff.1 h
  exact ⟨hmatched, n, below, hbuilt, rfl⟩

theorem className_guarded {c : StmtClass} (h : c.className ∈ guardedClasses) :
    c.className ∈ c.matches_ := by
  revert h
  cases c <;> decide

/-- Every guarded class of a new statement, the statement's own included, could be constructed. -/
theorem Constructs.matched (hguards : g.Guards) (h : g.Constructs i a) {name : String}
    (hname : name ∈ guardedClasses) (hmem : name ∈ a.visited ∨ name ∈ a.stmt.matches_) :
    i.matched name = true := by
  obtain ⟨hall, n, below, hbuilt, hvisited⟩ := h.parts
  have hown : ∀ name ∈ a.stmt.matches_, i.matched name = true := List.all_eq_true.1 hall
  rcases hmem with hmem | hmem
  · rw [hvisited, List.mem_cons] at hmem
    rcases hmem with rfl | hmem
    · exact hown _ (className_guarded hname)
    · exact hguards n i a.stmt a.text below hbuilt name hmem hname
  · exact hown name hmem

end StmtGenerator

end DbFuzz
