import DbFuzz.TxCheck.Instrumentor

/-! The statements of a tested transaction: `txn_statement_factory` (`grammar.cc`) and the
classes it picks from. -/

namespace DbFuzz

inductive XaType
  | start
  | end_
  | prepare
  | commit
  | rollback
  deriving DecidableEq, Repr

/-- `xid` is the value of `xa_counter` in the name. -/
structure XaStmt where
  type : XaType
  xid : ℕ
  onePhase : Bool

def XaStmt.out (s : XaStmt) : String :=
  let xid := "'xa_" ++ toString s.xid ++ "'"
  match s.type with
  | .start => "XA START " ++ xid
  | .end_ => "XA END " ++ xid
  | .prepare => "XA PREPARE " ++ xid
  | .commit => "XA COMMIT " ++ xid ++ if s.onePhase then " ONE PHASE" else ""
  | .rollback => "XA ROLLBACK " ++ xid

inductive IsolationLevel
  | readUncommitted
  | readCommitted
  | repeatableRead
  | serializable
  deriving DecidableEq, Repr

def IsolationLevel.text : IsolationLevel → String
  | readUncommitted => "READ UNCOMMITTED"
  | readCommitted => "READ COMMITTED"
  | repeatableRead => "REPEATABLE READ"
  | serializable => "SERIALIZABLE"

/-- The statement of a `set_isolation_stmt`; the first wording is the one of postgres. -/
def setIsolationOut (dbms : TargetDbms) (level : IsolationLevel) : String :=
  if dbms = .postgres ∨ dbms = .gaussdb then
    "SET SESSION CHARACTERISTICS AS TRANSACTION ISOLATION LEVEL " ++ level.text
  else "SET SESSION TRANSACTION ISOLATION LEVEL " ++ level.text

/-- `query_spec` in `txn_mode`: every column of a base table, in the order of the table. The
clauses that only order the rows are left out. -/
def QuerySpec.ofTxnMode {Val : Type} (alias_ : String) (fromTable : Table) (search : Search Val) :
    QuerySpec Val where
  selectList := fromTable.columns.map fun c => alias_ ++ "." ++ c
  fromTable := fromTable
  search := search
  orderLimit := none

/-- A `common_table_expression` that is not recursive: the constructor makes one entry or more. -/
structure CommonTableExpression (Val : Type) where
  first : String × QuerySpec Val
  more : List (String × QuerySpec Val)
  query : QuerySpec Val

namespace CommonTableExpression

variable {Val : Type}

def withQueries (c : CommonTableExpression Val) : List (String × QuerySpec Val) :=
  c.first :: c.more

/-- `queryText` is how a query prints inside the statement. -/
def out (queryText : QuerySpec Val → String) (c : CommonTableExpression Val) : String :=
  let entry (e : String × QuerySpec Val) := indent 0 ++ e.1 ++ " AS " ++ "(" ++ queryText e.2 ++ ")"
  "WITH " ++ (entry c.first ++ String.join (c.more.map fun e => ", " ++ indent 0 ++ entry e)) ++
    indent 0 ++ queryText c.query ++ indent 0

end CommonTableExpression

/-- A statement of `txn_statement_factory`. -/
inductive TxnStmt (Val : Type)
  | xaStmt (s : XaStmt)
  | setIsolationStmt (level : IsolationLevel)
  | deleteStmt (s : DeleteStmt Val)
  | commonTableExpression (c : CommonTableExpression Val)
  | querySpec (q : QuerySpec Val)
  | insertStmt (s : InsertStmt Val)
  | updateStmt (s : UpdateStmt Val)

inductive TxnClass
  | xaStmt
  | setIsolationStmt
  | deleteStmt
  | commonTableExpression
  | querySpec
  | insertStmt
  | updateStmt
  deriving DecidableEq, Repr

/-- What the factory reads of the schema. The tables are as `create_table_stmt` makes them: the
version key is the first column, the primary key the second. -/
structure TxnSchema where
  targetDbms : TargetDbms
  hasXaTransaction : Bool
  hasSetIsolation : Bool
  versionKeyName : String
  baseTables : List (String × List String)

namespace TxnSchema

variable {Val : Type}

/-- A base table with its further columns. -/
def table (s : TxnSchema) (t : String × List String) : Table :=
  ⟨t.1, s.versionKeyName :: "pkey" :: t.2⟩

/-- `txn_statement_factory`, up to the constructor it calls. The two draws of `d20` are taken
only where the feature is there; a constructor that throws is called again. -/
def txnStatementFactory (s : TxnSchema) (choice xaDraw isolationDraw : ℕ) : TxnClass :=
  if s.hasXaTransaction ∧ s.targetDbms = .mysql ∧ xaDraw = 1 then .xaStmt
  else if s.hasSetIsolation ∧ isolationDraw = 1 then .setIsolationStmt
  else if choice ≤ 2 then .deleteStmt
  else if choice = 3 then .commonTableExpression
  else if choice = 4 then .querySpec
  else if choice ≤ 7 then .insertStmt
  else .updateStmt

/-- `from_clause(p, true)` picks the table. -/
def TxnMode (s : TxnSchema) (q : QuerySpec Val) : Prop :=
  ∃ alias_, ∃ t ∈ s.baseTables, ∃ search, q = .ofTxnMode alias_ (s.table t) search

/-- What the constructor makes of a statement, as far as it decides the output rows. -/
def Constructs (s : TxnSchema) : TxnClass → TxnStmt Val → Prop
  | .xaStmt, .xaStmt _ => True
  | .setIsolationStmt, .setIsolationStmt _ => True
  | .deleteStmt, .deleteStmt _ => True
  | .commonTableExpression, .commonTableExpression c =>
    s.TxnMode c.query ∧ ∀ e ∈ c.withQueries, s.TxnMode e.2
  | .querySpec, .querySpec q => s.TxnMode q
  | .insertStmt, .insertStmt _ => True
  | .updateStmt, .updateStmt _ => True
  | _, _ => False

/-- A statement the factory can return. -/
def Drawn (s : TxnSchema) (c : TxnStmt Val) : Prop :=
  ∃ choice xaDraw isolationDraw : ℕ, 1 ≤ choice ∧ choice ≤ 12 ∧ 1 ≤ xaDraw ∧ xaDraw ≤ 20 ∧
    1 ≤ isolationDraw ∧ isolationDraw ≤ 20 ∧
      s.Constructs (s.txnStatementFactory choice xaDraw isolationDraw) c

end TxnSchema

/-- The statement as the instrumentor meets it. -/
def TxnStmt.prod {Val : Type} (dbms : TargetDbms) (queryText : QuerySpec Val → String) :
    TxnStmt Val → Prod Val
  | .xaStmt s => .other s.out
  | .setIsolationStmt level => .other (setIsolationOut dbms level)
  | .deleteStmt s => .rowWrite (.delete s)
  | .commonTableExpression c => .other (c.out queryText)
  | .querySpec q => .query q
  | .insertStmt s => .insert s
  | .updateStmt s => .rowWrite (.update s)

/-! A query whose rows begin with the two keys. -/

namespace TxnSchema

variable {Val : Type}

/-- The output columns of a query over one base table. -/
structure KeyRows (s : TxnSchema) (q : QuerySpec Val) : Prop where
  base : ∃ t ∈ s.baseTables, q.fromTable = s.table t
  keys : ∃ alias_ rest, q.selectList =
    (alias_ ++ "." ++ s.versionKeyName) :: (alias_ ++ "." ++ "pkey") :: rest

theorem TxnMode.keyRows {s : TxnSchema} {q : QuerySpec Val} (h : s.TxnMode q) : s.KeyRows q := by
  obtain ⟨alias_, t, ht, search, rfl⟩ := h
  exact ⟨⟨t, ht, rfl⟩, alias_, t.2.map fun c => alias_ ++ "." ++ c, rfl⟩

/-- A `query_spec` whose rows begin with the keys, alone or behind a `with` clause. -/
inductive KeyQuery (s : TxnSchema) (queryText : QuerySpec Val → String) : Prod Val → Prop
  | querySpec {q : QuerySpec Val} (h : s.KeyRows q) : KeyQuery s queryText (.query q)
  | commonTableExpression {c : CommonTableExpression Val} (h : s.KeyRows c.query) :
      KeyQuery s queryText (.other (c.out queryText))

/-- A statement that changes the state of the session or of the transaction. -/
inductive ChangesSession (s : TxnSchema) : Prod Val → Prop
  | xaStmt (x : XaStmt) : ChangesSession s (.other x.out)
  | setIsolationStmt (level : IsolationLevel) :
      ChangesSession s (.other (setIsolationOut s.targetDbms level))

theorem Drawn.keyQuery_or {s : TxnSchema} {c : TxnStmt Val} {queryText : QuerySpec Val → String}
    (h : s.Drawn c) : s.KeyQuery queryText (c.prod s.targetDbms queryText) ∨
      s.ChangesSession (c.prod s.targetDbms queryText) ∨
      (∃ w, c.prod s.targetDbms queryText = .rowWrite w) ∨
      ∃ i, c.prod s.targetDbms queryText = .insert i := by
  obtain ⟨choice, xaDraw, isolationDraw, -, -, -, -, -, -, h⟩ := h
  cases c with
  | xaStmt x => exact Or.inr (Or.inl (.xaStmt x))
  | setIsolationStmt level => exact Or.inr (Or.inl (.setIsolationStmt level))
  | deleteStmt d => exact Or.inr (Or.inr (Or.inl ⟨_, rfl⟩))
  | updateStmt u => exact Or.inr (Or.inr (Or.inl ⟨_, rfl⟩))
  | insertStmt i => exact Or.inr (Or.inr (Or.inr ⟨_, rfl⟩))
  | commonTableExpression c =>
    generalize s.txnStatementFactory choice xaDraw isolationDraw = cls at h
    cases cls <;> first | exact h.elim | exact Or.inl (.commonTableExpression h.1.keyRows)
  | querySpec q =>
    generalize s.txnStatementFactory choice xaDraw isolationDraw = cls at h
    cases cls <;> first | exact h.elim | exact Or.inl (.querySpec h.keyRows)

/-! The first letters tell a query from a statement that changes the session. -/

theorem toList_head_append (a b : String) (h : a.toList ≠ []) :
    (a ++ b).toList.head? = a.toList.head? := by
  rw [String.toList_append, List.head?_append_of_ne_nil _ h]

theorem XaStmt.head_out (x : XaStmt) : x.out.toList.head? = some 'X' := by
  obtain ⟨type, xid, onePhase⟩ := x
  cases type <;> simp only [XaStmt.out, String.append_assoc] <;>
    (rw [toList_head_append _ _ (by decide)]; rfl)

theorem head_setIsolationOut (dbms : TargetDbms) (level : IsolationLevel) :
    (setIsolationOut dbms level).toList.head? = some 'S' := by
  unfold setIsolationOut
  split_ifs <;> (rw [toList_head_append _ _ (by decide)]; rfl)

theorem head_commonTableExpression (queryText : QuerySpec Val → String)
    (c : CommonTableExpression Val) : (c.out queryText).toList.head? = some 'W' := by
  simp only [CommonTableExpression.out, String.append_assoc]
  rw [toList_head_append _ _ (by decide)]
  rfl

theorem ChangesSession.not_keyQuery {s : TxnSchema} {queryText : QuerySpec Val → String}
    {o : Prod Val} (h : s.ChangesSession o) : ¬ s.KeyQuery queryText o := by
  intro hkey
  cases h with
  | xaStmt x =>
    generalize htext : x.out = text at hkey
    cases hkey with
    | commonTableExpression h =>
      have hhead := head_commonTableExpression queryText _ ▸ htext ▸ XaStmt.head_out x
      revert hhead
      decide
  | setIsolationStmt level =>
    generalize htext : setIsolationOut s.targetDbms level = text at hkey
    cases hkey with
    | commonTableExpression h =>
      have hhead := head_commonTableExpression queryText _ ▸
        htext ▸ head_setIsolationOut s.targetDbms level
      revert hhead
      decide

end TxnSchema

end DbFuzz
