import DbFuzz.Core.RecordText
import DbFuzz.TxCheck.Usage

/-! `generate_database` (`general_process.cc`) on PostgreSQL, the record file it writes, and
the restore from it (`dut_libpq::backup`, `dut_libpq::reset_to_backup`). -/

namespace DbFuzz

/-! Parts of the printed text. -/

structure Token where
  chars : List Char
  isToken : IsToken chars

/-- A token that can begin a line, such as a name. -/
structure Word extends Token where
  begins : BeginsLine chars

def Token.piece (t : Token) : Piece := .token t.chars

def lit (s : String) : Piece := .token s.toList

/-- What a production below the statement prints: it is indented on every line. -/
structure InnerText where
  pieces : List Piece
  begins : BeginsPieces pieces
  tokens : ∀ s, Piece.token s ∈ pieces → IsToken s
  levels : ∀ n, Piece.indent n ∈ pieces → 0 < n

theorem wellPrinted_of_inner {ps : List Piece} (ht : ∀ s, Piece.token s ∈ ps → IsToken s)
    (hl : ∀ n, Piece.indent n ∈ ps → 0 < n) : WellPrinted ps := by
  induction ps with
  | nil => trivial
  | cons p ps ih =>
    have hps := ih (fun s hs => ht s (List.mem_cons_of_mem _ hs))
      fun n hn => hl n (List.mem_cons_of_mem _ hn)
    cases p with
    | token s => exact ⟨ht s List.mem_cons_self, hps⟩
    | indent level =>
      have := hl level List.mem_cons_self
      cases level with
      | zero => omega
      | succ n => exact hps

theorem InnerText.wellPrinted (t : InnerText) : WellPrinted t.pieces :=
  wellPrinted_of_inner t.tokens t.levels

/-! Constants. -/

/-- `random_string` draws from the printable characters and leaves some out. -/
structure RandomString where
  chars : List Char
  printable : ∀ c ∈ chars, 32 ≤ c.toNat ∧ c.toNat < 127 ∧ c ∉ ['\'', '"', '\\', '%', '_']

/-- `const_expr` on PostgreSQL, and the keys that `insert_stmt` writes into it. -/
inductive ConstExpr
  | null (typeName : Token)
  | int (z : ℤ)
  | minusZero
  | real (whole : ℤ) (fraction : ℕ)
  | minusZeroReal
  | text (s : RandomString)
  | timestamp (year month day hour minute second : ℕ)
  | key (n : ℕ)

/-- `to_string` -/
def digits (n : ℕ) : List Char := (toString n).toList

def signedDigits (z : ℤ) : List Char := (if z < 0 then ['-'] else []) ++ digits z.natAbs

def ConstExpr.out : ConstExpr → List Char
  | null typeName => "null::".toList ++ typeName.chars
  | int z => signedDigits z
  | minusZero => "-0".toList
  | real whole fraction => signedDigits whole ++ ".".toList ++ digits fraction
  | minusZeroReal => "-0.0".toList
  | text s => '\'' :: s.chars ++ ['\'']
  | timestamp year month day hour minute second =>
    "make_timestamp(".toList ++ digits year ++
      ([month, day, hour, minute, second].flatMap fun n => ", ".toList ++ digits n) ++ ")".toList
  | key n => digits n

theorem isToken_digits (n : ℕ) : IsToken (digits n) := by
  refine IsToken.of_forall fun c hc => ?_
  have hdigit : isDigitChar c = true :=
    isDigitChar_of_mem_toDigits (n := n) ((Nat.toList_repr (n := n)) ▸ hc)
  constructor <;> rintro rfl <;> simp [isDigitChar] at hdigit

theorem isToken_signedDigits (z : ℤ) : IsToken (signedDigits z) := by
  unfold signedDigits
  refine IsToken.append ?_ (isToken_digits _)
  split_ifs <;> decide

theorem RandomString.newline_not_mem (s : RandomString) : '\n' ∉ s.chars := by
  intro h
  have := (s.printable _ h).1
  revert this
  decide

theorem ConstExpr.isToken (e : ConstExpr) : IsToken e.out := by
  cases e with
  | null typeName => exact IsToken.append (by decide) typeName.isToken
  | int z => exact isToken_signedDigits z
  | minusZero | minusZeroReal => decide
  | real whole fraction =>
    exact ((isToken_signedDigits whole).append (by decide)).append (isToken_digits fraction)
  | text s => exact IsToken.quoted s.newline_not_mem
  | timestamp year month day hour minute second =>
    have hpart : ∀ n, IsToken (", ".toList ++ digits n) := fun n =>
      IsToken.append (by decide) (isToken_digits n)
    refine IsToken.append (IsToken.append (IsToken.append (by decide) (isToken_digits year)) ?_)
      (by decide)
    simp only [List.flatMap_cons, List.flatMap_nil]
    exact (hpart _).append ((hpart _).append ((hpart _).append ((hpart _).append
      ((hpart _).append (by decide)))))
  | key n => exact isToken_digits n

/-! Statements. -/

structure CreateTable where
  name : Token
  /-- Name and type; the constraint is empty here. -/
  columns : List (Word × Token)
  primaryKey : Option Token
  /-- The column, the other table and its primary key. -/
  foreignKey : Option (Token × Token × Token)
  /-- The clause of `pg_partition_option`; the name and the values of each part. -/
  partition : Option (Token × List (Token × Token))

structure InsertText where
  victim : Token
  valuedColumnName : List Token
  valueExprsVector : List (List ConstExpr)

structure CreateIndex where
  isUnique : Bool
  name : Token
  table : Token
  columns : List Token
  whereExpr : Option Token

inductive DdlStmt
  | createTable (s : CreateTable)
  | createView (name : Token) (subquery : InnerText)
  /-- The trigger's head up to the table, and the statements of its body. -/
  | createTrigger (head : Token) (body : List InnerText)

inductive BasicDmlStmt
  | analyze (target : Token)
  | createIndex (s : CreateIndex)
  | insert (s : InsertText)

inductive GenStmt
  | ddl (s : DdlStmt)
  | dml (s : BasicDmlStmt)

def sepBy (sep : Piece) : List Piece → List Piece
  | [] => []
  | [p] => [p]
  | p :: q :: ps => p :: sep :: sepBy sep (q :: ps)

namespace CreateTable

def columnPieces : List (Word × Token) → List Piece
  | [] => []
  | [(name, type)] => [name.piece, lit " ", type.piece, lit " ", .indent 0]
  | (name, type) :: rest =>
    [name.piece, lit " ", type.piece, lit " ", lit ",", .indent 0] ++ columnPieces rest

/-- The statement up to its partitions. -/
def head (s : CreateTable) : List Piece :=
  [lit "create table ", s.name.piece, lit " ( ", .indent 0] ++ columnPieces s.columns ++
    (match s.primaryKey with
      | none => []
      | some column => [lit ",", .indent 0, lit "primary key(", column.piece, lit ")"]) ++
    (match s.foreignKey with
      | none => []
      | some (column, table, key) =>
        [lit ",", .indent 0, lit "foreign key", lit "(", column.piece, lit ")", lit " references ",
          table.piece, lit "(", key.piece, lit ")"]) ++
    [.indent 0, lit ")"] ++
    (match s.partition with
      | none => []
      | some (option, _) => [lit " ", option.piece])

def partitionSubtableStmts (s : CreateTable) : List (List Piece) :=
  ((s.partition.map Prod.snd).getD []).map fun part =>
    [lit "create table ", part.1.piece, lit " partition of ", s.name.piece, lit " ", part.2.piece]

/-- `create_table_stmt::out` -/
def out (s : CreateTable) : List Piece :=
  s.head ++ s.partitionSubtableStmts.flatMap fun stmt => [lit ";", .indent 0] ++ stmt

end CreateTable

namespace InsertText

def row (exprs : List ConstExpr) : List Piece :=
  [.indent 0, lit "("] ++ sepBy (lit ", ") (exprs.map fun e => .token e.out) ++ [lit ")"]

def rows : List (List ConstExpr) → List Piece
  | [] => []
  | [exprs] => row exprs
  | exprs :: rest => row exprs ++ [lit ", "] ++ rows rest

def out (s : InsertText) : List Piece :=
  [lit "insert into ", s.victim.piece, lit " ("] ++
    sepBy (lit ", ") (s.valuedColumnName.map Token.piece) ++ [lit ") "] ++
    if s.valueExprsVector = [] then [lit "default values"]
    else [lit "values "] ++ rows s.valueExprsVector

end InsertText

def CreateIndex.out (s : CreateIndex) : List Piece :=
  [lit "create", lit (if s.isUnique then " unique " else " "), lit "index ", s.name.piece, lit " on ",
    s.table.piece, lit " ("] ++ sepBy (lit ", ") (s.columns.map Token.piece) ++ [lit ")"] ++
    (match s.whereExpr with
      | none => []
      | some e => [lit " where ", e.piece])

def DdlStmt.out : DdlStmt → List Piece
  | createTable s => s.out
  | createView name subquery =>
    [lit "create view ", name.piece, lit " as ", .indent 0] ++ subquery.pieces
  | createTrigger head body =>
    [lit "create trigger ", head.piece, .indent 0, lit "for each row", .indent 0, lit "begin ",
      .indent 0] ++ (body.flatMap fun stmt => stmt.pieces ++ [lit "; ", .indent 0]) ++ [lit "end"]

def BasicDmlStmt.out : BasicDmlStmt → List Piece
  | analyze target => [lit "ANALYZE ", target.piece]
  | createIndex s => s.out
  | insert s => s.out

def GenStmt.out : GenStmt → List Piece
  | ddl s => s.out
  | dml s => s.out

/-- The text that `interect_test` and `normal_test` send. -/
def GenStmt.sql (s : GenStmt) : List Char := sentText s.out

/-- The SQL commands of the text: a partitioned table brings one for each part. -/
def GenStmt.commands : GenStmt → List (List Piece)
  | ddl (.createTable s) => s.head :: s.partitionSubtableStmts
  | s => [s.out]

/-! Every command is well printed. -/

/-- A piece that is a token. -/
def Piece.IsTok (p : Piece) : Prop := ∃ s, p = .token s ∧ IsToken s

theorem Token.isTok (t : Token) : t.piece.IsTok := ⟨t.chars, rfl, t.isToken⟩

theorem isTok_lit {s : String} (h : IsToken s.toList) : (lit s).IsTok := ⟨s.toList, rfl, h⟩

theorem wellPrinted_of_isTok {ps : List Piece} (h : ∀ p ∈ ps, p.IsTok) : WellPrinted ps := by
  refine wellPrinted_of_inner ?_ ?_
  · intro s hs
    obtain ⟨s', hs', htok⟩ := h _ hs
    cases hs'
    exact htok
  · intro n hn
    obtain ⟨s', hs', -⟩ := h _ hn
    cases hs'

theorem mem_sepBy {sep p : Piece} {ps : List Piece} (h : p ∈ sepBy sep ps) : p = sep ∨ p ∈ ps := by
  induction ps using sepBy.induct with
  | case1 => cases h
  | case2 q => exact Or.inr h
  | case3 q r ps ih =>
    rw [sepBy, List.mem_cons, List.mem_cons] at h
    rcases h with rfl | rfl | h
    · exact Or.inr List.mem_cons_self
    · exact Or.inl rfl
    · exact (ih h).imp id fun h => List.mem_cons_of_mem _ h

namespace CreateTable

theorem columnPieces_wellPrinted (columns : List (Word × Token)) :
    WellPrinted (columnPieces columns) ∧ BeginsPieces (columnPieces columns) := by
  induction columns using columnPieces.induct with
  | case1 => exact ⟨trivial, trivial⟩
  | case2 name type =>
    exact ⟨⟨name.isToken, by decide, type.isToken, by decide, trivial, trivial⟩, name.begins⟩
  | case3 name type rest hne ih =>
    have hhead : WellPrinted [name.piece, lit " ", type.piece, lit " ", lit ",", .indent 0] :=
      ⟨name.isToken, by decide, type.isToken, by decide, by decide, trivial, trivial⟩
    simp only [columnPieces]
    exact ⟨hhead.append ih.1 ih.2, name.begins⟩

theorem head_wellPrinted (s : CreateTable) : WellPrinted s.head ∧ BeginsPieces s.head := by
  have hcolumns := columnPieces_wellPrinted s.columns
  refine ⟨?_, by exact ⟨'c', _, rfl, by decide⟩⟩
  unfold head
  refine WellPrinted.append (WellPrinted.append (WellPrinted.append (WellPrinted.append
    (WellPrinted.append ?_ hcolumns.1 hcolumns.2) ?_ ?_) ?_ ?_) ?_ ?_) ?_ ?_
  · exact ⟨by decide, s.name.isToken, by decide, trivial, trivial⟩
  · cases s.primaryKey with
    | none => trivial
    | some column => exact ⟨by decide, (by decide : BeginsLine "primary key(".toList), by decide, column.isToken,
      by decide, trivial⟩
  · cases s.primaryKey with
    | none => trivial
    | some column => exact (by decide : BeginsLine ",".toList)
  · cases s.foreignKey with
    | none => trivial
    | some f =>
      obtain ⟨column, table, key⟩ := f
      exact ⟨by decide, (by decide : BeginsLine "foreign key".toList), by decide, by decide, column.isToken, by decide, by decide,
        table.isToken, by decide, key.isToken, by decide, trivial⟩
  · cases s.foreignKey with
    | none => trivial
    | some f => exact (by decide : BeginsLine ",".toList)
  · exact ⟨(by decide : BeginsLine ")".toList), by decide, trivial⟩
  · trivial
  · cases s.partition with
    | none => trivial
    | some p => exact ⟨by decide, p.1.isToken, trivial⟩
  · cases s.partition with
    | none => trivial
    | some p => exact (by decide : BeginsLine " ".toList)

theorem partitionSubtableStmts_wellPrinted (s : CreateTable) :
    ∀ c ∈ s.partitionSubtableStmts, WellPrinted c ∧ BeginsPieces c := by
  intro c hc
  obtain ⟨part, -, rfl⟩ := List.mem_map.1 hc
  exact ⟨⟨by decide, part.1.isToken, by decide, s.name.isToken, by decide, part.2.isToken, trivial⟩,
    (by decide : BeginsLine "create table ".toList)⟩

end CreateTable

namespace InsertText

theorem row_wellPrinted (exprs : List ConstExpr) : WellPrinted (row exprs) := by
  have hvalues : WellPrinted (sepBy (lit ", ") (exprs.map fun e => .token e.out) ++ [lit ")"]) := by
    refine wellPrinted_of_isTok fun p hp => ?_
    rcases List.mem_append.1 hp with hp | hp
    · rcases mem_sepBy hp with rfl | hp
      · exact isTok_lit (by decide)
      · obtain ⟨e, -, rfl⟩ := List.mem_map.1 hp
        exact ⟨_, rfl, e.isToken⟩
    · rw [List.mem_singleton.1 hp]
      exact isTok_lit (by decide)
  unfold row
  rw [List.append_assoc]
  exact ⟨(by decide : BeginsLine "(".toList), by decide, hvalues⟩

theorem rows_wellPrinted (rows' : List (List ConstExpr)) :
    WellPrinted (rows rows') ∧ BeginsPieces (rows rows') := by
  induction rows' using rows.induct with
  | case1 => exact ⟨trivial, trivial⟩
  | case2 exprs => exact ⟨row_wellPrinted exprs, trivial⟩
  | case3 exprs rest hne ih =>
    simp only [rows]
    refine ⟨?_, trivial⟩
    refine WellPrinted.append (WellPrinted.append (row_wellPrinted exprs) ?_ ?_) ih.1 ih.2
    · exact ⟨by decide, trivial⟩
    · exact (by decide : BeginsLine ", ".toList)

theorem out_wellPrinted (s : InsertText) : WellPrinted s.out ∧ BeginsPieces s.out := by
  refine ⟨?_, by exact ⟨'i', _, rfl, by decide⟩⟩
  have hhead : WellPrinted ([lit "insert into ", s.victim.piece, lit " ("] ++
      sepBy (lit ", ") (s.valuedColumnName.map Token.piece) ++ [lit ") "]) := by
    refine wellPrinted_of_isTok fun p hp => ?_
    simp only [List.mem_append, List.mem_cons, List.not_mem_nil, or_false] at hp
    rcases hp with ((rfl | rfl | rfl) | hp) | rfl
    · exact isTok_lit (by decide)
    · exact s.victim.isTok
    · exact isTok_lit (by decide)
    · rcases mem_sepBy hp with rfl | hp
      · exact isTok_lit (by decide)
      · obtain ⟨t, -, rfl⟩ := List.mem_map.1 hp
        exact t.isTok
    · exact isTok_lit (by decide)
  unfold out
  split_ifs
  · exact hhead.append ⟨by decide, trivial⟩ (by decide : BeginsLine "default values".toList)
  · obtain ⟨hrows, hbegins⟩ := rows_wellPrinted s.valueExprsVector
    refine hhead.append ?_ (by decide : BeginsLine "values ".toList)
    exact ⟨by decide, hrows⟩

end InsertText

/-- The statements that a server of PostgreSQL runs and the program records. -/
def GenStmt.recordable : GenStmt → Bool
  | ddl (.createTable _) | ddl (.createView _ _) | dml (.insert _) => true
  | _ => false

theorem GenStmt.commands_wellPrinted {s : GenStmt} (h : s.recordable) :
    ∀ c ∈ s.commands, WellPrinted c ∧ BeginsPieces c := by
  intro c hc
  cases s with
  | ddl d =>
    cases d with
    | createTable t =>
      rcases List.mem_cons.1 hc with rfl | hc
      · exact t.head_wellPrinted
      · exact t.partitionSubtableStmts_wellPrinted c hc
    | createView name subquery =>
      rw [List.mem_singleton.1 hc]
      refine ⟨WellPrinted.append ?_ subquery.wellPrinted subquery.begins,
        by exact ⟨'c', _, rfl, by decide⟩⟩
      exact ⟨by decide, name.isToken, by decide, trivial, trivial⟩
    | createTrigger head body => cases h
  | dml d =>
    cases d with
    | insert t =>
      rw [List.mem_singleton.1 hc]
      exact t.out_wellPrinted
    | analyze target | createIndex t => cases h

/-- The recorded text is the text of the commands. -/
theorem GenStmt.sql_commands (s : GenStmt) :
    s.sql ++ ['\n'] = s.commands.flatMap fun c => sentText c ++ ['\n'] := by
  have hone : ∀ c, [c].flatMap (fun c => sentText c ++ ['\n']) = sentText c ++ ['\n'] := by simp
  cases s with
  | dml d => exact (hone _).symm
  | ddl d =>
    cases d with
    | createView name subquery => exact (hone _).symm
    | createTrigger head body => exact (hone _).symm
    | createTable t =>
      -- the semicolon in front of each part ends the command before it
      have hparts : ∀ (ps : List Piece) (stmts : List (List Piece)),
          sentText (ps ++ stmts.flatMap fun stmt => [lit ";", .indent 0] ++ stmt) ++ ['\n'] =
            (ps :: stmts).flatMap fun c => sentText c ++ ['\n'] := by
        intro ps stmts
        induction stmts generalizing ps with
        | nil => simp
        | cons stmt stmts ih =>
          have h := ih stmt
          simp only [List.flatMap_cons, sentText, outPieces, List.flatMap_append,
            List.append_assoc] at h ⊢
          rw [← h]
          simp [lit, Piece.out]
      exact hparts t.head t.partitionSubtableStmts

/-! The server and the run. -/

section Run

variable {D : Type}

/-- The commands of one text, in one transaction; the answer is that of the last one. -/
def execAll (exec : List Char → D → Except String (D × ℤ)) : List (List Char) → D → Except String (D × ℤ)
  | [], d => .ok (d, 0)
  | [c], d => exec c d
  | c :: cs, d => do
    let r ← exec c d
    execAll exec cs r.1

/-- `PQexec` on the tables, rows and indexes `D`: the text of the exception, or the new
content and the affected rows. -/
structure PgServer (D : Type) where
  empty : D
  exec : List Char → D → Except String (D × ℤ)
  commands : ∀ (s : GenStmt) d, s.recordable → exec s.sql d = execAll exec (s.commands.map sentText) d
  emptyLines : ∀ (s : GenStmt) d, s.recordable → ∀ c ∈ s.commands,
    exec (chunkOf c) d = exec (sentText c) d
  /-- No rows are affected by a statement other than DML. -/
  affected : ∀ (s : GenStmt) d r, exec s.sql d = .ok r → (∀ i, s ≠ .dml (.insert i)) → r.2 = 0
  insert_none : ∀ i d r, exec (GenStmt.dml (.insert i)).sql d = .ok r → r.2 ≤ 0 → r.1 = d
  analyze_keeps : ∀ t d r, exec (GenStmt.dml (.analyze t)).sql d = .ok r → r.1 = d
  index_changes : ∀ i d r, exec (GenStmt.dml (.createIndex i)).sql d = .ok r → r.1 ≠ d
  /-- A trigger calls a function here; a body in `begin` and `end` is a syntax error. -/
  trigger_rejected : ∀ head body d r, exec (GenStmt.ddl (.createTrigger head body)).sql d ≠ .ok r

/-- One statement sent, for the record of the run. -/
structure Attempt (D : Type) where
  stmt : GenStmt
  before : D
  outcome : Except String (D × ℤ)
  recorded : Bool

structure GenState (D : Type) where
  db : D
  recordFile : List Char
  log : List (Attempt D)

/-- The `try` block, and the text of the exception it throws. -/
def attempt (srv : PgServer D) (needAffect : Bool) (stmt : GenStmt) (s : GenState D) :
    GenState D × Option String :=
  match srv.exec stmt.sql s.db with
  | .error e => ({ s with log := s.log ++ [⟨stmt, s.db, .error e, false⟩] }, some e)
  | .ok (db, affectNum) =>
    if needAffect && decide (affectNum ≤ 0) then
      (⟨db, s.recordFile, s.log ++ [⟨stmt, s.db, .ok (db, affectNum), false⟩]⟩,
        some "expected error: affect result empty")
    else
      (⟨db, s.recordFile ++ (stmt.sql ++ ['\n']),
        s.log ++ [⟨stmt, s.db, .ok (db, affectNum), true⟩]⟩, none)

def isFatal (err : String) : Bool := containsText err "BUG" || containsText err "CONNECTION FAIL"

/-- `interect_test` and `normal_test`: up to `tries` statements are drawn until one is
accepted. `none` is an exception to the caller, or an abort. -/
def oneTest (srv : PgServer D) (needAffect : Bool) :
    ℕ → List GenStmt → GenState D → Option (GenState D × List GenStmt)
  | 0, _, _ => none
  | _ + 1, [], _ => none
  | tries + 1, stmt :: draws, s =>
    match attempt srv needAffect stmt s with
    | (s, none) => some (s, draws)
    | (s, some err) => if isFatal err then none else oneTest srv needAffect tries draws s

def repeatTest (srv : PgServer D) (needAffect : Bool) :
    ℕ → List GenStmt → GenState D → Option (GenState D)
  | 0, _, s => some s
  | num + 1, draws, s => do
    let (s, draws) ← oneTest srv needAffect 9 draws s
    repeatTest srv needAffect num draws s

def generateDatabase (srv : PgServer D) (ddlStmtNum basicDmlStmtNum : ℕ) (ddl : List DdlStmt)
    (dml : List BasicDmlStmt) : Option (GenState D) := do
  let s ← repeatTest srv false ddlStmtNum (ddl.map .ddl) ⟨srv.empty, [], []⟩
  repeatTest srv true basicDmlStmtNum (dml.map .dml) s

/-- An error of one text is ignored. -/
def restoreText (srv : PgServer D) (d : D) (text : List Char) : D :=
  match srv.exec text d with
  | .ok r => r.1
  | .error _ => d

def resetToBackup (srv : PgServer D) (backupFile : List Char) : D :=
  (restoreChunks [] (Split.lines '\n' backupFile)).foldl (restoreText srv) srv.empty

def GenState.recorded (s : GenState D) : List GenStmt :=
  (s.log.filter fun a => a.recorded).map Attempt.stmt

/-- The record file stands for the run. -/
structure GenState.Replays (srv : PgServer D) (s : GenState D) : Prop where
  effects : ∀ a ∈ s.log, ∀ r, a.outcome = .ok r → r.1 ≠ a.before → a.recorded
  took : ∀ a ∈ s.log, a.recorded → ∃ r, a.outcome = .ok r
  split : restoreChunks [] (Split.lines '\n' s.recordFile) =
    (s.recorded.flatMap GenStmt.commands).map chunkOf
  content : resetToBackup srv s.recordFile = s.db

/-! What every run keeps. -/

variable {srv : PgServer D} {s : GenState D}

def GenStmt.isCreateIndex : GenStmt → Prop
  | dml (.createIndex _) => True
  | _ => False

/-- No index was created. -/
def GenState.NoIndex (s : GenState D) : Prop :=
  ∀ a ∈ s.log, a.stmt.isCreateIndex → ∃ e, a.outcome = .error e

structure GenInv (srv : PgServer D) (s : GenState D) : Prop where
  file : s.recordFile = s.recorded.flatMap fun t => t.sql ++ ['\n']
  outcomes : ∀ a ∈ s.log, a.outcome = srv.exec a.stmt.sql a.before
  accepted : ∀ a ∈ s.log, a.recorded → (∃ r, a.outcome = .ok r) ∧ a.stmt.recordable
  rejected : ∀ a ∈ s.log, a.recorded = false → (∃ e, a.outcome = .error e) ∨
    ∃ d r, a.stmt = .dml d ∧ a.outcome = .ok r ∧ r.2 ≤ 0
  content : s.NoIndex →
    ((s.recorded.flatMap GenStmt.commands).map chunkOf).foldl (restoreText srv) srv.empty = s.db

theorem genInv_init (srv : PgServer D) : GenInv srv ⟨srv.empty, [], []⟩ where
  file := rfl
  outcomes := by simp
  accepted := by simp
  rejected := by simp
  content := fun _ => rfl

/-- A statement that runs with its own text runs again command by command. -/
theorem foldl_restoreText {cmds : List (List Piece)}
    (h : ∀ c ∈ cmds, ∀ d, srv.exec (chunkOf c) d = srv.exec (sentText c) d) {d : D} {r : D × ℤ}
    (hexec : execAll srv.exec (cmds.map sentText) d = .ok r) :
    (cmds.map chunkOf).foldl (restoreText srv) d = r.1 := by
  have hone : ∀ c ∈ cmds, ∀ d r, srv.exec (sentText c) d = .ok r →
      restoreText srv d (chunkOf c) = r.1 := by
    intro c hc d r hr
    rw [restoreText, h c hc d, hr]
  induction cmds generalizing d with
  | nil =>
    cases hexec
    rfl
  | cons c cmds ih =>
    rw [List.map_cons, List.foldl_cons]
    cases hcmds : cmds with
    | nil =>
      rw [hcmds] at hexec
      exact hone c (by simp) d r hexec
    | cons c' cmds' =>
      rw [← hcmds]
      have hsplit : execAll srv.exec ((c :: cmds).map sentText) d =
          (srv.exec (sentText c) d).bind fun r => execAll srv.exec (cmds.map sentText) r.1 := by
        rw [hcmds]
        rfl
      rw [hsplit] at hexec
      cases hc : srv.exec (sentText c) d with
      | error e =>
        rw [hc] at hexec
        cases hexec
      | ok r₁ =>
        rw [hc] at hexec
        rw [hone c (by simp) d r₁ hc]
        exact ih (fun c'' hc'' => h c'' (by simp [hc''])) hexec
          fun c'' hc'' => hone c'' (by simp [hc''])

theorem foldl_restoreText_stmt {t : GenStmt} (ht : t.recordable) {d : D} {r : D × ℤ}
    (hexec : srv.exec t.sql d = .ok r) :
    (t.commands.map chunkOf).foldl (restoreText srv) d = r.1 := by
  rw [srv.commands t d ht] at hexec
  exact foldl_restoreText (fun c hc d => srv.emptyLines t d ht c hc) hexec

section Append

variable {a : Attempt D} {db : D} {file : List Char}

theorem GenState.NoIndex.of_append (h : GenState.NoIndex ⟨db, file, s.log ++ [a]⟩) : s.NoIndex :=
  fun a' ha' => h a' (List.mem_append_left _ ha')

theorem recorded_append : GenState.recorded ⟨db, file, s.log ++ [a]⟩ =
    s.recorded ++ if a.recorded then [a.stmt] else [] := by
  unfold GenState.recorded
  cases hr : a.recorded <;> simp [List.filter_append, hr]

/-- A statement that is not recorded. -/
theorem GenInv.skip (h : GenInv srv s) (houtcome : a.outcome = srv.exec a.stmt.sql a.before)
    (hrecorded : a.recorded = false)
    (hrejected : (∃ e, a.outcome = .error e) ∨ ∃ d r, a.stmt = .dml d ∧ a.outcome = .ok r ∧ r.2 ≤ 0)
    (hdb : (a.stmt.isCreateIndex → ∃ e, a.outcome = .error e) → db = s.db) :
    GenInv srv ⟨db, s.recordFile, s.log ++ [a]⟩ := by
  have hrec : GenState.recorded ⟨db, s.recordFile, s.log ++ [a]⟩ = s.recorded := by
    rw [recorded_append, hrecorded]
    simp
  refine ⟨by rw [hrec]; exact h.file, ?_, ?_, ?_, ?_⟩
  · intro a' ha'
    rcases List.mem_append.1 ha' with ha' | ha'
    · exact h.outcomes a' ha'
    · rw [List.mem_singleton.1 ha', houtcome]
  · intro a' ha' hr
    rcases List.mem_append.1 ha' with ha' | ha'
    · exact h.accepted a' ha' hr
    · rw [List.mem_singleton.1 ha', hrecorded] at hr
      cases hr
  · intro a' ha' hr
    rcases List.mem_append.1 ha' with ha' | ha'
    · exact h.rejected a' ha' hr
    · rw [List.mem_singleton.1 ha']
      exact hrejected
  · intro hno
    rw [hrec, h.content hno.of_append]
    exact (hdb (hno a (by simp))).symm

/-- A statement that is recorded. -/
theorem GenInv.record (h : GenInv srv s) {stmt : GenStmt} {r : D × ℤ}
    (hexec : srv.exec stmt.sql s.db = .ok r) (hrecordable : stmt.recordable) :
    GenInv srv ⟨r.1, s.recordFile ++ (stmt.sql ++ ['\n']), s.log ++ [⟨stmt, s.db, .ok r, true⟩]⟩ := by
  have hrec : GenState.recorded ⟨r.1, s.recordFile ++ (stmt.sql ++ ['\n']),
      s.log ++ [⟨stmt, s.db, .ok r, true⟩]⟩ = s.recorded ++ [stmt] := by
    rw [recorded_append]
    simp
  refine ⟨?_, ?_, ?_, ?_, ?_⟩
  · rw [hrec, List.flatMap_append, ← h.file]
    simp
  · intro a' ha'
    rcases List.mem_append.1 ha' with ha' | ha'
    · exact h.outcomes a' ha'
    · rw [List.mem_singleton.1 ha', hexec]
  · intro a' ha' hr
    rcases List.mem_append.1 ha' with ha' | ha'
    · exact h.accepted a' ha' hr
    · rw [List.mem_singleton.1 ha']
      exact ⟨⟨r, rfl⟩, hrecordable⟩
  · intro a' ha' hr
    rcases List.mem_append.1 ha' with ha' | ha'
    · exact h.rejected a' ha' hr
    · rw [List.mem_singleton.1 ha'] at hr
      cases hr
  · intro hno
    rw [hrec, List.flatMap_append, List.map_append, List.foldl_append, h.content hno.of_append]
    simp only [List.flatMap_cons, List.flatMap_nil, List.append_nil]
    exact foldl_restoreText_stmt hrecordable hexec

end Append

/-- The statements of a phase: `interect_test` draws DDL, `normal_test` the rest. -/
def OfPhase (needAffect : Bool) (stmt : GenStmt) : Prop :=
  if needAffect then ∃ d, stmt = .dml d else ∃ d, stmt = .ddl d

theorem GenInv.attempt (h : GenInv srv s) {needAffect : Bool} {stmt : GenStmt}
    (hphase : OfPhase needAffect stmt) : GenInv srv (attempt srv needAffect stmt s).1 := by
  unfold DbFuzz.attempt
  cases hexec : srv.exec stmt.sql s.db with
  | error e =>
    exact h.skip hexec.symm rfl (Or.inl ⟨e, rfl⟩) fun _ => rfl
  | ok r =>
    obtain ⟨db, n⟩ := r
    cases needAffect with
    | false =>
      obtain ⟨d, rfl⟩ := hphase
      refine h.record hexec ?_
      cases d with
      | createTrigger head body => exact absurd hexec (srv.trigger_rejected _ _ _ _)
      | createTable t | createView name subquery => rfl
    | true =>
      obtain ⟨d, rfl⟩ := hphase
      by_cases hn : n ≤ 0
      · simp only [Bool.true_and, hn, decide_true, if_true]
        refine h.skip hexec.symm rfl (Or.inr ⟨d, _, rfl, rfl, hn⟩) fun hindex => ?_
        cases d with
        | insert i => exact srv.insert_none _ _ _ hexec hn
        | analyze t => exact srv.analyze_keeps _ _ _ hexec
        | createIndex i =>
          obtain ⟨e, he⟩ := hindex trivial
          cases he
      · simp only [Bool.true_and, hn, decide_false, Bool.false_eq_true, if_false]
        refine h.record hexec ?_
        cases d with
        | insert i => rfl
        | analyze t =>
          exact absurd (srv.affected _ _ _ hexec (by rintro i hi; cases hi)).le hn
        | createIndex i =>
          exact absurd (srv.affected _ _ _ hexec (by rintro i hi; cases hi)).le hn

theorem GenInv.oneTest {needAffect : Bool} {tries : ℕ} {draws draws' : List GenStmt}
    {s' : GenState D} (h : GenInv srv s) (hphase : ∀ stmt ∈ draws, OfPhase needAffect stmt)
    (hrun : oneTest srv needAffect tries draws s = some (s', draws')) :
    GenInv srv s' ∧ ∀ stmt ∈ draws', OfPhase needAffect stmt := by
  induction tries generalizing draws s with
  | zero => cases hrun
  | succ tries ih =>
    cases draws with
    | nil => cases hrun
    | cons stmt draws =>
      have hrest : ∀ stmt ∈ draws, OfPhase needAffect stmt := fun t ht => hphase t (by simp [ht])
      have hinv := h.attempt (hphase stmt (by simp))
      rw [DbFuzz.oneTest] at hrun
      cases hattempt : DbFuzz.attempt srv needAffect stmt s with
      | mk s₁ err =>
        rw [hattempt] at hrun hinv
        cases err with
        | none =>
          cases hrun
          exact ⟨hinv, hrest⟩
        | some err =>
          simp only at hrun
          split_ifs at hrun
          exact ih hinv hrest hrun

theorem GenInv.repeatTest {needAffect : Bool} {num : ℕ} {draws : List GenStmt} {s' : GenState D}
    (h : GenInv srv s) (hphase : ∀ stmt ∈ draws, OfPhase needAffect stmt)
    (hrun : repeatTest srv needAffect num draws s = some s') : GenInv srv s' := by
  induction num generalizing draws s with
  | zero =>
    cases hrun
    exact h
  | succ num ih =>
    obtain ⟨⟨s₁, draws₁⟩, hone, hrest⟩ := Option.bind_eq_some_iff.1 hrun
    obtain ⟨hinv, hphase₁⟩ := h.oneTest hphase hone
    exact ih hinv hphase₁ hrest

theorem generateDatabase_inv {ddlStmtNum basicDmlStmtNum : ℕ} {ddl : List DdlStmt}
    {dml : List BasicDmlStmt}
    (h : generateDatabase srv ddlStmtNum basicDmlStmtNum ddl dml = some s) : GenInv srv s := by
  obtain ⟨s₁, hddl, hdml⟩ := Option.bind_eq_some_iff.1 h
  have h₁ : GenInv srv s₁ := by
    have hphase : ∀ stmt ∈ ddl.map GenStmt.ddl, OfPhase false stmt := by
      intro stmt hstmt
      obtain ⟨d, -, rfl⟩ := List.mem_map.1 hstmt
      exact ⟨d, rfl⟩
    exact (genInv_init srv).repeatTest hphase hddl
  have hphase : ∀ stmt ∈ dml.map GenStmt.dml, OfPhase true stmt := by
    intro stmt hstmt
    obtain ⟨d, -, rfl⟩ := List.mem_map.1 hstmt
    exact ⟨d, rfl⟩
  exact h₁.repeatTest hphase hdml

/-- The record file is split into what was recorded. -/
theorem GenInv.split (h : GenInv srv s) : restoreChunks [] (Split.lines '\n' s.recordFile) =
    (s.recorded.flatMap GenStmt.commands).map chunkOf := by
  have htext : s.recordFile =
      (s.recorded.flatMap GenStmt.commands).flatMap fun c => sentText c ++ ['\n'] := by
    rw [h.file, List.flatMap_assoc]
    exact List.flatMap_congr fun t _ => t.sql_commands
  rw [htext, restoreChunks_statements]
  intro c hc
  obtain ⟨t, ht, hc⟩ := List.mem_flatMap.1 hc
  obtain ⟨a, ha, rfl⟩ := List.mem_map.1 ht
  obtain ⟨ha, hr⟩ := List.mem_filter.1 ha
  exact GenStmt.commands_wellPrinted (h.accepted a ha hr).2 c hc

end Run

/-! A server that keeps the text of what it ran. -/

def noLineEnd (t : List Char) : List Char := t.filter fun c => c ≠ '\n'

def textExec (t d : List Char) : Except String (List Char × ℤ) :=
  if "create trigger ".toList.isPrefixOf t then .error "[POSTGRES] expected error [syntax error]"
  else if "ANALYZE ".toList.isPrefixOf t then .ok (d, 0)
  else .ok (d ++ noLineEnd t, if "insert into ".toList.isPrefixOf t then 1 else 0)

theorem sentText_lit (p : String) (ps : List Piece) :
    sentText (lit p :: ps) = p.toList ++ sentText ps := by
  simp [sentText, outPieces, lit, Piece.out]

theorem linesOf_head (cur : List Char) (ps : List Piece) :
    ∃ t ls, linesOf cur ps = (cur ++ t) :: ls := by
  induction ps generalizing cur with
  | nil => exact ⟨[], [], by simp [linesOf]⟩
  | cons p ps ih =>
    cases p with
    | token s =>
      obtain ⟨t, ls, h⟩ := ih (cur ++ s)
      exact ⟨s ++ t, ls, by rw [linesOf, h, List.append_assoc]⟩
    | indent level => exact ⟨[], _, by rw [linesOf, List.append_nil]⟩

theorem chunkOf_lit {p : String} (ps : List Piece) (hp : p.toList ≠ []) :
    ∃ rest, chunkOf (lit p :: ps) = p.toList ++ rest := by
  obtain ⟨t, ls, h⟩ := linesOf_head p.toList (ps ++ [.token [';']])
  have hlines : statementLines (lit p :: ps) = (p.toList ++ t) :: ls := h
  rw [chunkOf, hlines, List.filter_cons_of_pos (by simp [hp]), List.flatMap_cons]
  exact ⟨_, by rw [List.append_assoc, List.append_assoc]⟩

theorem noLineEnd_append (s t : List Char) : noLineEnd (s ++ t) = noLineEnd s ++ noLineEnd t :=
  List.filter_append ..

theorem noLineEnd_chunkOf (ps : List Piece) : noLineEnd (chunkOf ps) = noLineEnd (sentText ps) := by
  have hlines : ∀ ls : List (List Char),
      noLineEnd ((ls.filter fun l => l ≠ []).flatMap (· ++ ['\n'])) =
        noLineEnd (ls.flatMap (· ++ ['\n'])) := by
    intro ls
    induction ls with
    | nil => rfl
    | cons l ls ih =>
      by_cases hl : l = []
      · rw [List.filter_cons_of_neg (by simp [hl]), ih, List.flatMap_cons, noLineEnd_append, hl]
        rfl
      · rw [List.filter_cons_of_pos (by simp [hl])]
        simp only [List.flatMap_cons, noLineEnd_append, ih]
  rw [chunkOf, hlines, sentText_lines, noLineEnd_append]
  exact List.append_nil _

theorem textExec_createTable (d : List Char) {t rest : List Char}
    (h : t = "create table ".toList ++ rest) : textExec t d = .ok (d ++ noLineEnd t, 0) := by
  subst h
  rfl

theorem textExec_createIndex (i : CreateIndex) (d : List Char) :
    textExec (GenStmt.dml (.createIndex i)).sql d =
      .ok (d ++ noLineEnd (GenStmt.dml (.createIndex i)).sql, 0) := by
  obtain ⟨rest, hrest⟩ : ∃ rest, (GenStmt.dml (.createIndex i)).sql =
      "create".toList ++ ((if i.isUnique then " unique " else " ").toList ++
        ("index ".toList ++ rest)) :=
    ⟨_, (sentText_lit _ _).trans <| congrArg _ <| (sentText_lit _ _).trans <| congrArg _ <|
      sentText_lit _ _⟩
  rw [hrest]
  cases i.isUnique <;> rfl

theorem textExec_tables {cmds : List (List Piece)}
    (h : ∀ c ∈ cmds, ∃ ps, c = lit "create table " :: ps) (d : List Char) :
    execAll textExec (cmds.map sentText) d = .ok (d ++ cmds.flatMap fun c => noLineEnd (sentText c), 0) := by
  have hone : ∀ c ∈ cmds, ∀ d, textExec (sentText c) d = .ok (d ++ noLineEnd (sentText c), 0) := by
    intro c hc d
    obtain ⟨ps, rfl⟩ := h c hc
    exact textExec_createTable d (sentText_lit _ _)
  induction cmds generalizing d with
  | nil => simp [execAll]
  | cons c cmds ih =>
    have ih' := ih (fun c' hc' => h c' (by simp [hc'])) (d ++ noLineEnd (sentText c))
      fun c' hc' => hone c' (by simp [hc'])
    cases cmds with
    | nil => simpa [execAll] using hone c (by simp) d
    | cons c' cmds =>
      simp only [List.map_cons, execAll, hone c (by simp) d] at ih' ⊢
      simp only [bind, Except.bind]
      rw [ih']
      simp

/-- Every command of a statement that is recorded starts with its keyword. -/
theorem CreateTable.commands_start (t : CreateTable) :
    ∀ c ∈ t.head :: t.partitionSubtableStmts, ∃ ps, c = lit "create table " :: ps := by
  intro c hc
  rcases List.mem_cons.1 hc with rfl | hc
  · exact ⟨_, rfl⟩
  · obtain ⟨part, -, rfl⟩ := List.mem_map.1 hc
    exact ⟨_, rfl⟩

theorem textExec_chunkOf {c ps : List Piece} {p : String} (hc : c = lit p :: ps)
    (hp : p = "create table " ∨ p = "create view " ∨ p = "insert into ") (d : List Char) :
    textExec (chunkOf c) d = textExec (sentText c) d := by
  subst hc
  obtain ⟨rest, hrest⟩ := chunkOf_lit ps (p := p) (by rcases hp with rfl | rfl | rfl <;> decide)
  have hsent := sentText_lit p ps
  have hnorm := noLineEnd_chunkOf (lit p :: ps)
  generalize chunkOf (lit p :: ps) = chunk at hrest hnorm ⊢
  generalize sentText (lit p :: ps) = sent at hsent hnorm ⊢
  unfold textExec
  rw [hnorm]
  subst hrest hsent
  rcases hp with rfl | rfl | rfl <;> rfl

theorem noLineEnd_sentText_ne_nil (ps : List Piece) : noLineEnd (sentText ps) ≠ [] := by
  rw [sentText, noLineEnd_append]
  simp [noLineEnd]

def textServer : PgServer (List Char) where
  empty := []
  exec := textExec
  commands := by
    intro s d hs
    cases s with
    | dml e =>
      cases e with
      | insert i => rfl
      | analyze t | createIndex i => cases hs
    | ddl e =>
      cases e with
      | createView name subquery => rfl
      | createTrigger head body => cases hs
      | createTable t =>
        have hsql : GenStmt.sql (.ddl (.createTable t)) = "create table ".toList ++ _ :=
          sentText_lit _ _
        have htext : noLineEnd (GenStmt.sql (.ddl (.createTable t))) =
            (t.head :: t.partitionSubtableStmts).flatMap fun c => noLineEnd (sentText c) := by
          have h := congrArg noLineEnd (GenStmt.sql_commands (.ddl (.createTable t)))
          rw [noLineEnd_append, show noLineEnd ['\n'] = [] from rfl, List.append_nil] at h
          rw [h, noLineEnd, List.filter_flatMap]
          refine List.flatMap_congr fun c _ => ?_
          exact (noLineEnd_append _ _).trans (List.append_nil _)
        rw [textExec_createTable d hsql, htext]
        exact (textExec_tables t.commands_start d).symm
  emptyLines := by
    intro s d hs c hc
    cases s with
    | dml e =>
      cases e with
      | insert i =>
        rw [List.mem_singleton.1 hc]
        exact textExec_chunkOf rfl (Or.inr (Or.inr rfl)) d
      | analyze t | createIndex i => cases hs
    | ddl e =>
      cases e with
      | createView name subquery =>
        rw [List.mem_singleton.1 hc]
        exact textExec_chunkOf rfl (Or.inr (Or.inl rfl)) d
      | createTrigger head body => cases hs
      | createTable t =>
        obtain ⟨ps, hps⟩ := t.commands_start c hc
        exact textExec_chunkOf hps (Or.inl rfl) d
  affected := by
    intro s d r hr hinsert
    cases s with
    | dml e =>
      cases e with
      | insert i => exact absurd rfl (hinsert i)
      | analyze t =>
        cases hr
        rfl
      | createIndex i =>
        rw [textExec_createIndex] at hr
        cases hr
        rfl
    | ddl e =>
      cases e with
      | createTrigger head body => cases hr
      | createTable t | createView name subquery =>
        cases hr
        rfl
  insert_none := by
    intro i d r hr hn
    cases hr
    have hone : (1 : ℤ) ≤ 0 := hn
    omega
  analyze_keeps := by
    intro t d r hr
    cases hr
    rfl
  index_changes := by
    intro i d r hr
    have hsent := noLineEnd_sentText_ne_nil (GenStmt.dml (.createIndex i)).out
    rw [textExec_createIndex] at hr
    cases hr
    simpa [GenStmt.sql] using hsent
  trigger_rejected := by
    intro head body d r hr
    cases hr

/-- The record stands for the run exactly when the server created no index. -/
theorem generateDatabase_replays_iff {D : Type} {srv : PgServer D} {s : GenState D}
    {ddlStmtNum basicDmlStmtNum : ℕ} {ddl : List DdlStmt}
    {dml : List BasicDmlStmt}
    (h : generateDatabase srv ddlStmtNum basicDmlStmtNum ddl dml = some s) :
    s.Replays srv ↔ s.NoIndex := by
  have hinv := generateDatabase_inv h
  constructor
  · intro hreplays a ha hindex
    cases houtcome : a.outcome with
    | error e => exact ⟨e, rfl⟩
    | ok r =>
      obtain ⟨stmt, before, outcome, recorded⟩ := a
      cases stmt with
      | ddl d => cases hindex
      | dml d =>
        cases d with
        | insert i | analyze t => cases hindex
        | createIndex i =>
          have hexec := (hinv.outcomes _ ha).symm.trans houtcome
          have hrecorded := hreplays.effects _ ha r houtcome (srv.index_changes _ _ _ hexec)
          exact absurd (hinv.accepted _ ha hrecorded).2 (by simp [GenStmt.recordable])
  · intro hno
    refine ⟨?_, fun a ha hr => (hinv.accepted a ha hr).1, hinv.split, ?_⟩
    · intro a ha r hr hne
      by_contra hrecorded
      rw [Bool.not_eq_true] at hrecorded
      rcases hinv.rejected a ha hrecorded with ⟨e, he⟩ | ⟨d, r', hd, hr', hn⟩
      · rw [he] at hr
        cases hr
      · have hexec := (hinv.outcomes a ha).symm.trans hr
        rw [hr] at hr'
        cases hr'
        rw [hd] at hexec
        cases d with
        | insert i => exact hne (srv.insert_none _ _ _ hexec hn)
        | analyze t => exact hne (srv.analyze_keeps _ _ _ hexec)
        | createIndex i =>
          obtain ⟨e, he⟩ := hno a ha (by rw [hd]; trivial)
          rw [he] at hr
          cases hr
    · rw [resetToBackup, hinv.split]
      exact hinv.content hno

/-! One table, an index and a row. -/

def sampleTableName : Token := ⟨"t0".toList, by decide⟩
def sampleVkey : Word := ⟨⟨"vkey".toList, by decide⟩, by decide⟩
def samplePkey : Word := ⟨⟨"pkey".toList, by decide⟩, by decide⟩
def sampleInt : Token := ⟨"int4".toList, by decide⟩

def sampleDdl : DdlStmt :=
  .createTable ⟨sampleTableName, [(sampleVkey, sampleInt), (samplePkey, sampleInt)],
    some samplePkey.toToken, none, none⟩

def sampleIndex : BasicDmlStmt :=
  .createIndex ⟨false, ⟨"i0".toList, by decide⟩, sampleTableName, [samplePkey.toToken], none⟩

def sampleRow : BasicDmlStmt :=
  .insert ⟨sampleTableName, [sampleVkey.toToken, samplePkey.toToken], [[.key 1, .key 11000]]⟩

example : String.ofList (GenStmt.ddl sampleDdl).sql =
    "create table t0 ( \nvkey int4 ,\npkey int4 \n,\nprimary key(pkey)\n);" := by decide

/-- Without an index the file gives the database back. -/
theorem generateDatabase_replays_row :
    ∃ s, generateDatabase textServer 1 1 [sampleDdl] [sampleRow] = some s ∧ s.Replays textServer := by
  have hrun : generateDatabase textServer 1 1 [sampleDdl] [sampleRow] = some _ := rfl
  refine ⟨_, hrun, (generateDatabase_replays_iff hrun).2 ?_⟩
  intro a ha hindex
  rcases List.mem_cons.1 ha with rfl | ha
  · cases hindex
  · rw [List.mem_singleton.1 ha] at hindex
    cases hindex

/-- `create index i0 on t0 (pkey)` runs and affects no row, so it is not recorded. -/
theorem generateDatabase_loses_index :
    ∃ s, generateDatabase textServer 1 1 [sampleDdl] [sampleIndex, sampleRow] = some s ∧
      ¬ s.Replays textServer := by
  refine ⟨_, rfl, fun h => ?_⟩
  have hrecorded := h.effects _ (List.mem_cons_of_mem _ List.mem_cons_self) _ rfl (by decide)
  cases hrecorded

end DbFuzz
