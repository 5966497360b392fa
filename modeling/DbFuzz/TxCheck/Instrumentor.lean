import DbFuzz.Grammar.Statements
import DbFuzz.TxCheck.Usage

/-! The instrumentor (`instrumentor.cc`) and the reads it places around a write. -/

namespace DbFuzz

/-! Table names in a statement's text. -/

def wordStart (prev : Option Char) : Bool := prev.all fun c => c == '(' || c == ' ' || c == '\n'

def wordChar (c : Char) : Bool :=
  !(c == ')' || c == '.' || c == ' ' || c == '\n' || c == ';')

/-- The scan after `prev`; the next `skip` characters belong to a word already
found, or end it. -/
def extractWordsAux (beginStr : List Char) (skip : ℕ) (prev : Option Char) :
    List Char → List String
  | [] => []
  | c :: cs =>
    match skip with
    | skip + 1 => extractWordsAux beginStr skip (some c) cs
    | 0 =>
      if beginStr.isPrefixOf (c :: cs) && wordStart prev then
        let word := c :: cs.takeWhile wordChar
        String.ofList word :: extractWordsAux beginStr word.length (some c) cs
      else extractWordsAux beginStr 0 (some c) cs

/-- `extract_words_begin_with`, as the sorted set it returns. -/
def extractWordsBeginWith (str beginStr : String) : List String :=
  (extractWordsAux beginStr.toList 0 none str.toList).dedup.insertionSort (· ≤ ·)

example : extractWordsBeginWith "update t_1 set c = (t_10.x) where not_t_3 in (t_1)" "t_" =
    ["t_1", "t_10"] := by decide

/-! Statements of the queue. -/

/-- The writes with a victim and a search. -/
inductive RowWrite (Val : Type)
  | update (s : UpdateStmt Val)
  | delete (s : DeleteStmt Val)

/-- A `prod` of the queue; `other` is any class the instrumentor does not name. -/
inductive Prod (Val : Type)
  | rowWrite (w : RowWrite Val)
  | insert (s : InsertStmt Val)
  | txnString (stmt : String)
  | query (q : QuerySpec Val)
  | other (text : String)

namespace RowWrite

def victim : RowWrite Val → Table
  | .update s => s.victim
  | .delete s => s.victim

def search : RowWrite Val → Search Val
  | .update s => s.search
  | .delete s => s.search

def orderLimit : RowWrite Val → Option OrderLimit
  | .update s => s.orderLimit
  | .delete s => s.orderLimit

def out (dbms : TargetDbms) : RowWrite Val → String
  | .update s => s.out dbms
  | .delete s => s.out dbms

def Changes (coll : Collation Val) : RowWrite Val → Database Val → List (Row Val) → Prop
  | .update s => s.Changes coll
  | .delete s => s.Changes coll

def usage (w : RowWrite Val) : StmtUsage :=
  match w with
  | .update s => ⟨.updateWrite, false, s.victim.ident⟩
  | .delete s => ⟨.deleteWrite, false, s.victim.ident⟩

/-- `before_write_select_stmt` of an update, `select_stmt` of a delete. -/
def beforeWriteSelect (w : RowWrite Val) : QuerySpec Val := .ofSearch w.victim w.search

end RowWrite

/-- What the instrumentor reads of the schema and of the globals. -/
structure InstrumentEnv (Val : Type) where
  targetDbms : TargetDbms
  versionKeyName : String
  operators : List String
  handleTable : Option Table
  collation : Collation Val

structure Emitted (Val : Type) where
  stmt : Prod Val
  tid : ℤ
  usage : StmtUsage

variable {Val : Type}

def versionSetReads (tid : ℤ) (involvedTables : List String) : List (Emitted Val) :=
  involvedTables.map fun t => ⟨.txnString ("SELECT * FROM " ++ t), tid, ⟨.versionSetRead, true, t⟩⟩

/-- The read of the rows that carry the write's version key. -/
def afterWriteSelect (env : InstrumentEnv Val) (t : Table) (value : ValueText Val) :
    QuerySpec Val :=
  .ofEquality env.collation t (columnReference env.targetDbms env.handleTable t env.versionKeyName)
    env.versionKeyName value

def instrumentUpdate (env : InstrumentEnv Val) (tid : ℤ) (s : UpdateStmt Val) :
    Except Failure (List (Emitted Val)) :=
  let w := RowWrite.update s
  if env.versionKeyName ∉ s.victim.columns then
    .error (.runtimeError ("intrument update statement: cannot find " ++ env.versionKeyName))
  else
    match s.setList.lookup env.versionKeyName with
    | none => .error (.runtimeError
        ("intrument update statement: cannot find " ++ env.versionKeyName ++ " = expr"))
    | some value =>
      if "=" ∉ env.operators then
        .error (.runtimeError "intrument update statement: cannot find = operator")
      else .ok <|
        versionSetReads tid (extractWordsBeginWith (w.out env.targetDbms) "t_") ++
          [⟨.query w.beforeWriteSelect, tid, ⟨.beforeWriteRead, true, s.victim.ident⟩⟩,
            ⟨.rowWrite w, tid, w.usage⟩,
            ⟨.query (afterWriteSelect env s.victim value), tid,
              ⟨.afterWriteRead, true, s.victim.ident⟩⟩]

def instrumentDelete (env : InstrumentEnv Val) (tid : ℤ) (s : DeleteStmt Val) :
    Except Failure (List (Emitted Val)) :=
  let w := RowWrite.delete s
  .ok <| versionSetReads tid (extractWordsBeginWith (w.out env.targetDbms) "t_") ++
    [⟨.query w.beforeWriteSelect, tid, ⟨.beforeWriteRead, true, s.victim.ident⟩⟩,
      ⟨.rowWrite w, tid, w.usage⟩]

/-- The value is the one at the version key's place among the table's columns;
`front` and the index are not checked. -/
def instrumentInsert (env : InstrumentEnv Val) (tid : ℤ) (s : InsertStmt Val) :
    Except Failure (List (Emitted Val)) :=
  match s.victim.columns.findIdx? (· == env.versionKeyName) with
  | none =>
    .error (.runtimeError ("intrument insert statement: cannot find " ++ env.versionKeyName))
  | some wkeyIdx =>
    match s.valueExprsVector.head?.bind (·[wkeyIdx]?) with
    | none => .error .badIndex
    | some value =>
      if "=" ∉ env.operators then
        .error (.runtimeError "intrument insert statement: cannot find = operator")
      else .ok <|
        versionSetReads tid ((extractWordsBeginWith s.out "t_").erase s.victim.ident) ++
          [⟨.insert s, tid, ⟨.insertWrite, false, s.victim.ident⟩⟩,
            ⟨.query (afterWriteSelect env s.victim value), tid,
              ⟨.afterWriteRead, true, s.victim.ident⟩⟩]

/-- The version set reads of a query; `text` is the query as it prints. -/
def instrumentSelect (tid : ℤ) (stmt : Prod Val) (text : String) : List (Emitted Val) :=
  versionSetReads tid (extractWordsBeginWith text "t_") ++ [⟨stmt, tid, .mk' .selectRead false⟩]

/-- One round of the constructor's loop. The text of a `query_spec` is an argument,
since only its table names are read. -/
def instrumentStmt (env : InstrumentEnv Val) (queryText : QuerySpec Val → String) (tid : ℤ)
    (stmt : Prod Val) : Except Failure (List (Emitted Val)) :=
  match stmt with
  | .rowWrite (.update s) => instrumentUpdate env tid s
  | .rowWrite (.delete s) => instrumentDelete env tid s
  | .insert s => instrumentInsert env tid s
  | .txnString text =>
    if containsText text "SELECT * FROM" then .ok (instrumentSelect tid stmt text)
    else .ok [⟨stmt, tid, .mk' .initType false⟩]
  | .query q => .ok (instrumentSelect tid stmt (queryText q))
  | .other text => .ok (instrumentSelect tid stmt text)

/-- The three final queues, entry by entry. -/
def instrumentor (env : InstrumentEnv Val) (queryText : QuerySpec Val → String)
    (queue : List (Prod Val × ℤ)) : Except Failure (List (Emitted Val)) :=
  return (← queue.mapM fun e => instrumentStmt env queryText e.2 e.1).flatten

/-! The read in front of a write. -/

theorem RowWrite.changes_iff (coll : Collation Val) (w : RowWrite Val) (db : Database Val)
    (rows : List (Row Val)) :
    w.Changes coll db rows ↔ Picks coll w.orderLimit (matching db w.victim w.search) rows := by
  cases w <;> rfl

/-- The write stands right after its `BEFORE_WRITE_READ`, which follows version set
reads only. -/
theorem instrumentStmt_rowWrite {env : InstrumentEnv Val} {queryText : QuerySpec Val → String}
    {tid : ℤ} {w : RowWrite Val} {block : List (Emitted Val)}
    (h : instrumentStmt env queryText tid (.rowWrite w) = .ok block) :
    ∃ tables rest, block = versionSetReads tid tables ++
      ⟨.query w.beforeWriteSelect, tid, ⟨.beforeWriteRead, true, w.victim.ident⟩⟩ ::
        ⟨.rowWrite w, tid, w.usage⟩ :: rest := by
  cases w with
  | update s =>
    simp only [instrumentStmt, instrumentUpdate] at h
    split at h
    · cases h
    · split at h
      · cases h
      · split at h
        · cases h
        · cases h
          exact ⟨_, _, rfl⟩
  | delete s =>
    simp only [instrumentStmt, instrumentDelete, Except.ok.injEq] at h
    exact ⟨_, _, h.symm⟩

/-- The rows the `BEFORE_WRITE_READ` returns are the rows the write changes exactly
when no limit cuts the matching rows. -/
theorem beforeWriteSelect_exact_iff (coll : Collation Val) (w : RowWrite Val) (db : Database Val) :
    (∀ read changed, w.beforeWriteSelect.Returns coll db read → w.Changes coll db changed →
        read.Perm changed) ↔
      ∀ o ∈ w.orderLimit, (matching db w.victim w.search).length ≤ o.limitNum := by
  constructor
  · intro h
    obtain ⟨changed, hc⟩ := exists_picks coll w.orderLimit (matching db w.victim w.search)
    have hread : w.beforeWriteSelect.Returns coll db (matching db w.victim w.search) :=
      List.Perm.refl _
    exact hc.perm_iff.1 (h _ _ hread ((w.changes_iff coll db changed).2 hc)).symm
  · intro h read changed hread hchanged
    rw [RowWrite.changes_iff] at hchanged
    exact List.Perm.trans hread (hchanged.perm_iff.2 h).symm

/-- `delete from t where true order by pkey asc limit 1` on two rows deletes the
first, and the read in front of it returns both. -/
theorem beforeWriteSelect_ignores_limit :
    let coll : Collation ℕ :=
      { eqTruth := fun a b => some (a == b), le := fun a b => decide (a ≤ b),
        le_total := by simpa using Nat.le_total, le_trans := by simpa using fun a b c => Nat.le_trans }
    let w : RowWrite ℕ := .delete
      { victim := ⟨"t_0", ["vkey", "pkey"]⟩, search := ⟨"true", fun _ _ => some true⟩,
        orderLimit := some ⟨"pkey", true, 1⟩ }
    let db : Database ℕ := fun _ => [fun c => if c = "pkey" then 11000 else 1,
      fun c => if c = "pkey" then 12000 else 2]
    ∃ read changed, w.beforeWriteSelect.Returns coll db read ∧ w.Changes coll db changed ∧
      ¬ read.Perm changed := by
  intro coll w db
  refine ⟨db "t_0", (db "t_0").take 1, ?_, ?_, ?_⟩
  · exact List.Perm.refl _
  · exact ⟨db "t_0", List.Perm.refl _, by simp [db, coll, OrderLimit.before], List.Perm.refl _⟩
  · intro h
    exact absurd h.length_eq (by simp [db])

end DbFuzz
