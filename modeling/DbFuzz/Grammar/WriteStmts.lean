import DbFuzz.Grammar.Keys
import DbFuzz.Grammar.Statements

/-! The constructors of the generated writes (`grammar.cc`): the values they give the
columns, and the rows an execution writes. -/

namespace DbFuzz

variable {Val : Type}

def pkeyIdent : String := "pkey"

/-- `schema::get_version_key_name` -/
def getVersionKeyName (requirePkeyWkey : Bool) : String := if requirePkeyWkey then "wkey" else "vkey"

/-- What the constructors read of the globals, and how the server reads their literals. -/
structure KeyEnv (Val : Type) where
  targetDbms : TargetDbms
  requirePkeyWkey : Bool
  int : ℤ → Val
  null : Val

namespace KeyEnv

def versionKeyName (env : KeyEnv Val) : String := getVersionKeyName env.requirePkeyWkey

/-- A `const_expr` whose text is set to `to_string(n)`. -/
def number (env : KeyEnv Val) (n : ℕ) : ValueText Val := ⟨toString n, fun _ _ => env.int n⟩

/-- The column that `schema_sqlite` adds to every base table. -/
def hidden (env : KeyEnv Val) (column : String) : Bool :=
  decide (env.targetDbms = .sqlite) && column == "rowid"

theorem versionKeyName_ne_pkeyIdent (env : KeyEnv Val) : env.versionKeyName ≠ pkeyIdent := by
  unfold versionKeyName getVersionKeyName pkeyIdent
  split_ifs <;> decide

end KeyEnv

/-- A table as `create_table_stmt` makes it and the schema reads it back. -/
structure GeneratedTable (env : KeyEnv Val) where
  ident : String
  columns : List String
  distinct : columns.Nodup
  version_mem : env.versionKeyName ∈ columns
  pkey_mem : pkeyIdent ∈ columns
  not_rowid : "rowid" ∉ columns

def GeneratedTable.table {env : KeyEnv Val} (t : GeneratedTable env) : Table :=
  ⟨t.ident, t.columns ++ if env.targetDbms = .sqlite then ["rowid"] else []⟩

/-! `insert_stmt` -/

/-- The value of one column; `expr` is what `const_expr` or `value_expr::factory` draws. -/
def insertValue (env : KeyEnv Val) (k : KeyState) (expr : String → ValueText Val) (column : String) :
    KeyState × ValueText Val :=
  if column = env.versionKeyName then (k, env.number k.writeOpId)
  else if column = pkeyIdent then
    ({ k with rowId := k.rowId + 1000 }, env.number (k.rowId + 1000))
  else (k, expr column)

def insertValues (env : KeyEnv Val) (expr : String → ValueText Val) :
    KeyState → List String → KeyState × List (ValueText Val)
  | k, [] => (k, [])
  | k, column :: columns =>
    let (k, value) := insertValue env k expr column
    let (k, values) := insertValues env expr k columns
    (k, value :: values)

/-- `fallback` is the column picked when no column is left. -/
def insertStmt (env : KeyEnv Val) (k : KeyState) (victim : Table) (fallback : String)
    (expr : String → ValueText Val) : KeyState × InsertStmt Val :=
  let k := { k with writeOpId := k.writeOpId + 1 }
  let names := victim.columns.filter fun c => !env.hidden c
  let names := if names = [] then [fallback] else names
  let (k, values) := insertValues env expr k (victim.columns.filter fun c => names.contains c)
  (k, ⟨victim, names, [values]⟩)

/-! `update_stmt` -/

/-- One column of a pass of `set_list`; `draw` gives the expression of a column whose
dice decided for it. -/
def setColumn (env : KeyEnv Val) (k : KeyState) (draw : String → Option (ValueText Val))
    (sets : List (String × ValueText Val)) (column : String) : List (String × ValueText Val) :=
  if sets.any fun e => e.1 == column then sets
  else if column = env.versionKeyName then sets ++ [(column, env.number k.writeOpId)]
  else if column = pkeyIdent || env.hidden column then sets
  else sets ++ ((draw column).map fun e => (column, e)).toList

/-- One pass of `set_list` over the columns. -/
def setListPass (env : KeyEnv Val) (k : KeyState) (draw : String → Option (ValueText Val)) :
    List (String × ValueText Val) → List String → List (String × ValueText Val) :=
  List.foldl (setColumn env k draw)

/-- The passes until two columns are set; `none` when the draws end before. -/
def setListLoop (env : KeyEnv Val) (k : KeyState) (columns : List String) :
    List (String × ValueText Val) → List (String → Option (ValueText Val)) →
      Option (List (String × ValueText Val))
  | _, [] => none
  | sets, draw :: draws =>
    let sets := setListPass env k draw sets columns
    if sets.length < 2 then setListLoop env k columns sets draws else some sets

def updateStmt (env : KeyEnv Val) (k : KeyState) (victim : Table)
    (draws : List (String → Option (ValueText Val))) (search : Search Val)
    (orderLimit : Option OrderLimit) : KeyState × Option (UpdateStmt Val) :=
  let k := { k with writeOpId := k.writeOpId + 1 }
  (k, (setListLoop env k victim.columns [] draws).map fun sets => ⟨victim, sets, search, orderLimit⟩)

/-! `delete_stmt` -/

def deleteStmt (k : KeyState) (victim : Table) (search : Search Val)
    (orderLimit : Option OrderLimit) : KeyState × DeleteStmt Val :=
  ({ k with writeOpId := k.writeOpId + 1 }, ⟨victim, search, orderLimit⟩)

/-! The rows an execution writes. -/

def InsertStmt.newRows (s : InsertStmt Val) (null : Val) (db : Database Val) : List (Row Val) :=
  s.valueExprsVector.map fun exprs column =>
    match (s.valuedColumnName.zip exprs).lookup column with
    | some e => e.value db fun _ => null
    | none => null

def UpdateStmt.newRow (s : UpdateStmt Val) (db : Database Val) (row : Row Val) : Row Val :=
  fun column =>
    match s.setList.lookup column with
    | some e => e.value db row
    | none => row column

/-! The version key of a constructed statement. -/

section Insert

variable {env : KeyEnv Val} {expr : String → ValueText Val}

theorem insertValue_writeOpId (k : KeyState) (column : String) :
    (insertValue env k expr column).1.writeOpId = k.writeOpId := by
  unfold insertValue
  split_ifs <;> rfl

theorem insertValue_versionKey (k : KeyState) :
    (insertValue env k expr env.versionKeyName).2 = env.number k.writeOpId := by
  simp [insertValue]

theorem insertValues_writeOpId (k : KeyState) (columns : List String) :
    (insertValues env expr k columns).1.writeOpId = k.writeOpId := by
  induction columns generalizing k with
  | nil => rfl
  | cons column columns ih =>
    simp only [insertValues]
    rw [ih, insertValue_writeOpId]

/-- The value at the place of the version key is the counter. -/
theorem insertValues_at (k : KeyState) (columns : List String) (i : ℕ)
    (h : columns[i]? = some env.versionKeyName) :
    (insertValues env expr k columns).2[i]? = some (env.number k.writeOpId) := by
  induction columns generalizing k i with
  | nil => simp at h
  | cons column columns ih =>
    simp only [insertValues]
    cases i with
    | zero =>
      rw [List.getElem?_cons_zero, Option.some.injEq] at h
      subst h
      rw [List.getElem?_cons_zero, insertValue_versionKey]
    | succ i =>
      rw [List.getElem?_cons_succ] at h ⊢
      rw [ih _ _ h, insertValue_writeOpId]

theorem lookup_insertValues (k : KeyState) (columns : List String)
    (h : env.versionKeyName ∈ columns) :
    (columns.zip (insertValues env expr k columns).2).lookup env.versionKeyName =
      some (env.number k.writeOpId) := by
  induction columns generalizing k with
  | nil => simp at h
  | cons column columns ih =>
    simp only [insertValues, List.zip_cons_cons, List.lookup_cons]
    by_cases hc : env.versionKeyName = column
    · subst hc
      simp [insertValue_versionKey]
    · have hmem : env.versionKeyName ∈ columns := by simpa [hc] using h
      rw [beq_false_of_ne hc, ih _ hmem, insertValue_writeOpId]

/-- The inserted columns are those of the created table. -/
theorem GeneratedTable.shown (t : GeneratedTable env) :
    (t.table.columns.filter fun c => !env.hidden c) = t.columns := by
  have hkeep : (t.columns.filter fun c => !env.hidden c) = t.columns := by
    rw [List.filter_eq_self]
    intro c hc
    have : c ≠ "rowid" := fun h => t.not_rowid (h ▸ hc)
    simp [KeyEnv.hidden, this]
  unfold GeneratedTable.table
  split_ifs with hlite
  · rw [List.filter_append, hkeep]
    simp [KeyEnv.hidden, hlite]
  · rw [List.append_nil, hkeep]

theorem GeneratedTable.valued (t : GeneratedTable env) :
    (t.table.columns.filter fun c => t.columns.contains c) = t.columns := by
  have hkeep : (t.columns.filter fun c => t.columns.contains c) = t.columns := by
    rw [List.filter_eq_self]
    simp
  unfold GeneratedTable.table
  split_ifs
  · rw [List.filter_append, hkeep]
    simp [t.not_rowid]
  · rw [List.append_nil, hkeep]

/-- The version key stands at the same place among the columns of the schema and among
the inserted ones. -/
theorem GeneratedTable.at_findIdx (t : GeneratedTable env) {i : ℕ}
    (h : t.table.columns.findIdx? (· == env.versionKeyName) = some i) :
    t.columns[i]? = some env.versionKeyName := by
  have hsome : (t.columns.findIdx? (· == env.versionKeyName)).isSome := by
    rw [List.findIdx?_isSome]
    simpa using t.version_mem
  obtain ⟨j, hj⟩ := Option.isSome_iff_exists.1 hsome
  have hij : i = j := by
    unfold GeneratedTable.table at h
    rw [List.findIdx?_append, hj, Option.some_or, Option.some.injEq] at h
    exact h.symm
  obtain ⟨hlt, heq, -⟩ := List.findIdx?_eq_some_iff_getElem.1 hj
  rw [hij, List.getElem?_eq_getElem hlt]
  simpa using heq

theorem GeneratedTable.columns_ne_nil (t : GeneratedTable env) : t.columns ≠ [] :=
  List.ne_nil_of_mem t.version_mem

theorem insertStmt_eq (k : KeyState) (t : GeneratedTable env) (fallback : String) :
    insertStmt env k t.table fallback expr =
      ((insertValues env expr { k with writeOpId := k.writeOpId + 1 } t.columns).1,
        ⟨t.table, t.columns,
          [(insertValues env expr { k with writeOpId := k.writeOpId + 1 } t.columns).2]⟩) := by
  unfold insertStmt
  simp only [t.shown, t.columns_ne_nil, if_false, t.valued]

theorem insertStmt_writeOpId (k : KeyState) (t : GeneratedTable env) (fallback : String) :
    (insertStmt env k t.table fallback expr).1.writeOpId = k.writeOpId + 1 := by
  rw [insertStmt_eq, insertValues_writeOpId]

theorem insertValues_rowId (env : KeyEnv Val) (expr : String → ValueText Val) (k : KeyState)
    (columns : List String) : (insertValues env expr k columns).1.rowId = k.rowId + 1000 * columns.count pkeyIdent := by
  induction columns generalizing k with
  | nil => rfl
  | cons column columns ih =>
    simp only [insertValues, ih, List.count_cons]
    unfold insertValue
    by_cases hv : column = env.versionKeyName
    · have hp : column ≠ pkeyIdent := fun h => env.versionKeyName_ne_pkeyIdent (hv.symm.trans h)
      simp [hv, env.versionKeyName_ne_pkeyIdent]
    · by_cases hp : column = pkeyIdent
      · simp [hp, env.versionKeyName_ne_pkeyIdent.symm]
        omega
      · simp [hv, hp]

/-- The constructors advance the counters as in `WriteStmt.construct`. -/
theorem insertStmt_keys (k : KeyState) (t : GeneratedTable env) (fallback : String) :
    (insertStmt env k t.table fallback expr).1 = (WriteStmt.insertStmt.construct k).1 := by
  have hcount : t.columns.count pkeyIdent = 1 := List.count_eq_one_of_mem t.distinct t.pkey_mem
  rw [insertStmt_eq]
  have hrow := insertValues_rowId env expr
    { k with writeOpId := k.writeOpId + 1 } t.columns
  have hop : (insertValues env expr { k with writeOpId := k.writeOpId + 1 } t.columns).1.writeOpId =
      k.writeOpId + 1 := insertValues_writeOpId _ _
  rw [hcount] at hrow
  cases hk : (insertValues env expr { k with writeOpId := k.writeOpId + 1 } t.columns).1
  rw [hk] at hrow hop
  simp only at hrow hop
  simp [WriteStmt.construct, hrow, hop]

/-- Every row of a constructed insert carries the counter. -/
theorem insertStmt_newRows {k : KeyState} {t : GeneratedTable env} {fallback : String}
    {db : Database Val} {row : Row Val}
    (h : row ∈ (insertStmt env k t.table fallback expr).2.newRows env.null db) :
    row env.versionKeyName = env.int (k.writeOpId + 1 : ℕ) := by
  rw [insertStmt_eq] at h
  simp only [InsertStmt.newRows, List.map_cons, List.map_nil, List.mem_singleton] at h
  subst h
  simp only [lookup_insertValues _ _ t.version_mem, KeyEnv.number]

end Insert

section Update

variable {env : KeyEnv Val} {k : KeyState} {draw : String → Option (ValueText Val)}

/-- The version key is not set, or set to the counter. -/
def KeepsKey (env : KeyEnv Val) (k : KeyState) (sets : List (String × ValueText Val)) : Prop :=
  ∀ e, sets.lookup env.versionKeyName = some e → e = env.number k.writeOpId

theorem setColumn_own (sets : List (String × ValueText Val)) :
    setColumn env k draw sets env.versionKeyName =
      if sets.any fun e => e.1 == env.versionKeyName then sets
      else sets ++ [(env.versionKeyName, env.number k.writeOpId)] := by
  unfold setColumn
  rw [if_pos (rfl : env.versionKeyName = env.versionKeyName)]

theorem setColumn_other {sets : List (String × ValueText Val)} {column : String}
    (h : column ≠ env.versionKeyName) :
    (setColumn env k draw sets column).lookup env.versionKeyName =
      sets.lookup env.versionKeyName := by
  have hnone : (((draw column).map fun e => (column, e)).toList).lookup env.versionKeyName = none := by
    cases draw column with
    | none => rfl
    | some e => simp [List.lookup_cons, beq_false_of_ne h.symm]
  unfold setColumn
  split_ifs
  · rfl
  · rfl
  · rw [List.lookup_append, hnone, Option.or_none]

theorem KeepsKey.setColumn {sets : List (String × ValueText Val)} (h : KeepsKey env k sets)
    (draw : String → Option (ValueText Val)) (column : String) : KeepsKey env k (setColumn env k draw sets column) := by
  by_cases hc : column = env.versionKeyName
  · rw [hc, setColumn_own]
    split_ifs
    · exact h
    · intro e he
      rw [List.lookup_append, Option.or_eq_some_iff] at he
      rcases he with he | ⟨-, he⟩
      · exact h e he
      · simpa using he.symm
  · intro e he
    rw [setColumn_other hc] at he
    exact h e he

/-- The version key is set by its own column and stays. -/
theorem lookup_setColumn_isSome {sets : List (String × ValueText Val)} {column : String}
    (h : column = env.versionKeyName ∨ (sets.lookup env.versionKeyName).isSome) :
    ((setColumn env k draw sets column).lookup env.versionKeyName).isSome := by
  by_cases hc : column = env.versionKeyName
  · rw [hc, setColumn_own]
    split_ifs with hany
    · rw [List.lookup_isSome_iff]
      simpa using hany
    · rw [List.lookup_append, Option.isSome_or]
      simp
  · rw [setColumn_other hc]
    exact h.resolve_left hc

theorem setListPass_spec (draw : String → Option (ValueText Val)) (columns : List String) {sets : List (String × ValueText Val)}
    (h : KeepsKey env k sets) :
    KeepsKey env k (setListPass env k draw sets columns) ∧
      ((env.versionKeyName ∈ columns ∨ (sets.lookup env.versionKeyName).isSome) →
        ((setListPass env k draw sets columns).lookup env.versionKeyName).isSome) := by
  induction columns generalizing sets with
  | nil => exact ⟨h, fun hs => hs.resolve_left (by simp)⟩
  | cons column columns ih =>
    obtain ⟨hkeep, hsome⟩ := ih (h.setColumn draw column)
    refine ⟨hkeep, fun hs => hsome ?_⟩
    rw [List.mem_cons, or_assoc] at hs
    rcases hs with hc | hs | hs
    · exact Or.inr (lookup_setColumn_isSome (Or.inl hc.symm))
    · exact Or.inl hs
    · exact Or.inr (lookup_setColumn_isSome (Or.inr hs))

theorem setListLoop_spec {columns : List String} (hmem : env.versionKeyName ∈ columns)
    {draws : List (String → Option (ValueText Val))} {sets out : List (String × ValueText Val)}
    (h : KeepsKey env k sets) (hout : setListLoop env k columns sets draws = some out) :
    out.lookup env.versionKeyName = some (env.number k.writeOpId) := by
  induction draws generalizing sets with
  | nil => cases hout
  | cons draw draws ih =>
    obtain ⟨hkeep, hsome⟩ := setListPass_spec draw columns h
    simp only [setListLoop] at hout
    split_ifs at hout with hlen
    · exact ih hkeep hout
    · cases hout
      obtain ⟨e, he⟩ := Option.isSome_iff_exists.1 (hsome (Or.inl hmem))
      rw [he, hkeep e he]

theorem GeneratedTable.mem_table {env : KeyEnv Val} (t : GeneratedTable env) :
    env.versionKeyName ∈ t.table.columns :=
  List.mem_append_left _ t.version_mem

theorem updateStmt_keys (k : KeyState) (victim : Table)
    (draws : List (String → Option (ValueText Val))) (search : Search Val)
    (orderLimit : Option OrderLimit) :
    (updateStmt env k victim draws search orderLimit).1 = (WriteStmt.updateStmt.construct k).1 := rfl

theorem deleteStmt_keys (k : KeyState) (victim : Table) (search : Search Val)
    (orderLimit : Option OrderLimit) :
    (deleteStmt k victim search orderLimit).1 = (WriteStmt.deleteStmt.construct k).1 := rfl

/-- A constructed update sets the version key to the counter. -/
theorem updateStmt_lookup {t : GeneratedTable env}
    {draws : List (String → Option (ValueText Val))} {search : Search Val}
    {orderLimit : Option OrderLimit} {s : UpdateStmt Val}
    (h : (updateStmt env k t.table draws search orderLimit).2 = some s) :
    s.setList.lookup env.versionKeyName = some (env.number (k.writeOpId + 1)) := by
  simp only [updateStmt, Option.map_eq_some_iff] at h
  obtain ⟨sets, hsets, rfl⟩ := h
  exact setListLoop_spec t.mem_table (fun e he => by simp at he) hsets

theorem UpdateStmt.newRow_versionKey {s : UpdateStmt Val} {n : ℕ}
    (h : s.setList.lookup env.versionKeyName = some (env.number n)) (db : Database Val)
    (row : Row Val) : s.newRow db row env.versionKeyName = env.int n := by
  simp only [UpdateStmt.newRow, h, KeyEnv.number]

end Update

end DbFuzz
