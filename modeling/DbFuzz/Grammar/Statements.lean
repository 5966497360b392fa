import Mathlib.Data.List.Sort

/-! Generated DML statements and single-table selects (`grammar.cc`): what they
print, and which rows of their table they read or change. A row maps column names
to values; the rows of a table are listed in no particular order. -/

namespace DbFuzz

/-- `schema::target_dbms` -/
inductive TargetDbms
  | postgres
  | mysql
  | tidb
  | sqlite
  | oceanbase
  | clickhouse
  | gaussdb
  | cockroach
  | yugabyte
  deriving DecidableEq, Repr

structure Table where
  ident : String
  columns : List String

abbrev Row (Val : Type) := String → Val
abbrev Database (Val : Type) := String → List (Row Val)

/-- The server's `=` and its order of values in an `order by`, a total preorder. -/
structure Collation (Val : Type) where
  eqTruth : Val → Val → Option Bool
  le : Val → Val → Bool
  le_total : ∀ a b, le a b || le b a
  le_trans : ∀ a b c, le a b → le b c → le a c

/-- A `value_expr`: its text and its value on a row of the statement's table. -/
structure ValueText (Val : Type) where
  text : String
  value : Database Val → Row Val → Val

/-- A `bool_expr`: its text and its three-valued truth on a row. -/
structure Search (Val : Type) where
  text : String
  truth : Database Val → Row Val → Option Bool

/-- `has_order_limit` with the three fields it guards. -/
structure OrderLimit where
  orderCol : String
  orderAsc : Bool
  limitNum : ℕ

structure UpdateStmt (Val : Type) where
  victim : Table
  setList : List (String × ValueText Val)
  search : Search Val
  orderLimit : Option OrderLimit

structure DeleteStmt (Val : Type) where
  victim : Table
  search : Search Val
  orderLimit : Option OrderLimit

structure InsertStmt (Val : Type) where
  victim : Table
  valuedColumnName : List String
  valueExprsVector : List (List (ValueText Val))

/-- A `query_spec` over one table, without group and window. -/
structure QuerySpec (Val : Type) where
  selectList : List String
  fromTable : Table
  search : Search Val
  orderLimit : Option OrderLimit

/-! Printed text. -/

def indent (level : ℕ) : String := "\n" ++ String.join (List.replicate level "  ")

def OrderLimit.out (o : OrderLimit) : String :=
  indent 0 ++ "order by " ++ o.orderCol ++ (if o.orderAsc then " asc" else " desc") ++
    indent 0 ++ "limit " ++ toString o.limitNum

def setListOut (dbms : TargetDbms) (sets : List (String × ValueText Val)) : String :=
  (if dbms = .clickhouse then " update " else " set ") ++
    ", ".intercalate (sets.map fun e => indent 1 ++ e.1 ++ " = " ++ e.2.text)

namespace UpdateStmt

def out (dbms : TargetDbms) (s : UpdateStmt Val) : String :=
  (if dbms = .clickhouse then "alter table " else "update ") ++ s.victim.ident ++
    setListOut dbms s.setList ++ indent 0 ++ "where " ++ s.search.text ++
    (s.orderLimit.map OrderLimit.out).getD ""

end UpdateStmt

namespace DeleteStmt

def out (dbms : TargetDbms) (s : DeleteStmt Val) : String :=
  (if dbms = .clickhouse then "alter table " ++ s.victim.ident ++ " delete"
    else "delete from " ++ s.victim.ident) ++
    indent 0 ++ "where " ++ "\n" ++ s.search.text ++ (s.orderLimit.map OrderLimit.out).getD ""

end DeleteStmt

namespace InsertStmt

def out (s : InsertStmt Val) : String :=
  "insert into " ++ s.victim.ident ++ " (" ++ ", ".intercalate s.valuedColumnName ++ ") " ++
    if s.valueExprsVector = [] then "default values"
    else "values " ++ ", ".intercalate (s.valueExprsVector.map fun exprs =>
      indent 0 ++ "(" ++ ", ".intercalate (exprs.map ValueText.text) ++ ")")

end InsertStmt

/-- The reference of a column as `column_reference` prints it. -/
def columnReference (dbms : TargetDbms) (handleTable : Option Table) (t : Table)
    (column : String) : String :=
  if dbms = .clickhouse ∧ handleTable.map Table.ident = some t.ident then column
  else t.ident ++ "." ++ column

namespace QuerySpec

/-- `query_spec(p, s, from_table, where_search)`: all columns, no further clause. -/
def ofSearch (fromTable : Table) (whereSearch : Search Val) : QuerySpec Val where
  selectList := fromTable.columns.map fun c => fromTable.ident ++ "." ++ c
  fromTable := fromTable
  search := whereSearch
  orderLimit := none

/-- `query_spec(p, s, from_table, target_op, left_operand, right_operand)`, at the
operator `=`, a column of the table and a value. -/
def ofEquality (coll : Collation Val) (fromTable : Table) (reference column : String)
    (right : ValueText Val) : QuerySpec Val :=
  ofSearch fromTable
    { text := "(" ++ reference ++ ") = (" ++ right.text ++ ")"
      truth := fun db row => coll.eqTruth (row column) (right.value db row) }

end QuerySpec

/-! Rows read and changed. -/

/-- `where` keeps the rows on which the search is true. -/
def matching (db : Database Val) (t : Table) (search : Search Val) : List (Row Val) :=
  (db t.ident).filter fun row => search.truth db row == some true

def OrderLimit.before (coll : Collation Val) (o : OrderLimit) (r s : Row Val) : Bool :=
  if o.orderAsc then coll.le (r o.orderCol) (s o.orderCol)
  else coll.le (s o.orderCol) (r o.orderCol)

/-- The rows left by `order by .. limit n`. The server may order equal keys in any
way, so every sorted arrangement counts. -/
def Picks (coll : Collation Val) (orderLimit : Option OrderLimit) (rows picked : List (Row Val)) :
    Prop :=
  match orderLimit with
  | none => picked.Perm rows
  | some o => ∃ sorted : List (Row Val), sorted.Perm rows ∧
      sorted.Pairwise (fun r s => o.before coll r s) ∧ picked.Perm (sorted.take o.limitNum)

def QuerySpec.Returns (coll : Collation Val) (q : QuerySpec Val) (db : Database Val)
    (rows : List (Row Val)) : Prop :=
  Picks coll q.orderLimit (matching db q.fromTable q.search) rows

def UpdateStmt.Changes (coll : Collation Val) (s : UpdateStmt Val) (db : Database Val)
    (rows : List (Row Val)) : Prop :=
  Picks coll s.orderLimit (matching db s.victim s.search) rows

def DeleteStmt.Changes (coll : Collation Val) (s : DeleteStmt Val) (db : Database Val)
    (rows : List (Row Val)) : Prop :=
  Picks coll s.orderLimit (matching db s.victim s.search) rows

theorem OrderLimit.before_total (coll : Collation Val) (o : OrderLimit) (r s : Row Val) :
    o.before coll r s ∨ o.before coll s r := by
  have h := coll.le_total (r o.orderCol) (s o.orderCol)
  rw [Bool.or_eq_true] at h
  unfold OrderLimit.before
  split_ifs
  · exact h
  · exact h.symm

theorem OrderLimit.before_trans (coll : Collation Val) (o : OrderLimit) {r s t : Row Val}
    (h1 : o.before coll r s) (h2 : o.before coll s t) : o.before coll r t := by
  unfold OrderLimit.before at *
  split_ifs at * with hasc
  · exact coll.le_trans _ _ _ h1 h2
  · exact coll.le_trans _ _ _ h2 h1

/-- The clauses always leave some rows. -/
theorem exists_picks (coll : Collation Val) (orderLimit : Option OrderLimit)
    (rows : List (Row Val)) : ∃ picked, Picks coll orderLimit rows picked := by
  cases orderLimit with
  | none => exact ⟨rows, List.Perm.refl _⟩
  | some o =>
    have : Std.Total (fun r s : Row Val => o.before coll r s = true) := ⟨o.before_total coll⟩
    have : IsTrans (Row Val) (fun r s => o.before coll r s = true) :=
      ⟨fun _ _ _ => o.before_trans coll⟩
    refine ⟨_, rows.insertionSort (fun r s => o.before coll r s), ?_, ?_, List.Perm.refl _⟩
    · exact List.perm_insertionSort _ _
    · exact List.pairwise_insertionSort _ _

/-- The clauses leave all rows exactly when the limit does not cut. -/
theorem Picks.perm_iff {coll : Collation Val} {orderLimit : Option OrderLimit}
    {rows picked : List (Row Val)} (h : Picks coll orderLimit rows picked) :
    picked.Perm rows ↔ ∀ o ∈ orderLimit, rows.length ≤ o.limitNum := by
  cases orderLimit with
  | none => exact iff_of_true h (by simp)
  | some o =>
    obtain ⟨sorted, hperm, -, hpick⟩ := h
    simp only [Option.mem_def, Option.some.injEq, forall_eq']
    constructor
    · intro hp
      have hlen := (hpick.symm.trans hp).length_eq
      rw [List.length_take, hperm.length_eq] at hlen
      omega
    · intro hle
      rw [List.take_of_length_le (by rw [hperm.length_eq]; exact hle)] at hpick
      exact hpick.trans hperm

end DbFuzz
