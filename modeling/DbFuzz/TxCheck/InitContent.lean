import DbFuzz.Core.Content
import DbFuzz.TxCheck.RowHistory

/-! The snapshot of the initial content (`dut_get_content`) and the operations the
analyzer records for it. The schema lists views beside the base tables. -/

namespace DbFuzz

open Loop AnalyzedQueue

/-- A relation of the schema, as `schema_mysql` loads it. -/
structure SchemaTable where
  ident : String
  isBaseTable : Bool
  deriving DecidableEq

/-- Tables and views share their names' space. -/
structure SchemaTables where
  tables : List SchemaTable
  ident_nodup : (tables.map SchemaTable.ident).Nodup

/-- The server's rows for `SELECT * FROM table ORDER BY 1;`, with `none` for `NULL`, unless
it refuses the query. -/
abbrev Server := String → Option (List (List (Option String)))

/-! The snapshot. -/

def assignTable (table : String) (rows : StmtOutput) :
    List (String × StmtOutput) → List (String × StmtOutput)
  | [] => [(table, rows)]
  | e :: es =>
    if table < e.1 then (table, rows) :: e :: es
    else if table = e.1 then (table, rows) :: es
    else e :: assignTable table rows es

theorem mem_assignTable {table : String} {rows : StmtOutput} {es : List (String × StmtOutput)}
    {e : String × StmtOutput} (h : e ∈ assignTable table rows es) : e = (table, rows) ∨ e ∈ es := by
  induction es with
  | nil => exact Or.inl (by simpa [assignTable] using h)
  | cons e' es ih =>
    rw [assignTable] at h
    split_ifs at h
    · simpa using h
    · rcases List.mem_cons.1 h with rfl | h
      · exact Or.inl rfl
      · exact Or.inr (List.mem_cons_of_mem _ h)
    · rcases List.mem_cons.1 h with rfl | h
      · exact Or.inr List.mem_cons_self
      · exact (ih h).imp_right (List.mem_cons_of_mem _)

theorem assignTable_sorted (table : String) (rows : StmtOutput) {es : List (String × StmtOutput)}
    (h : (es.map Prod.fst).Pairwise (· < ·)) :
    ((assignTable table rows es).map Prod.fst).Pairwise (· < ·) := by
  rw [List.pairwise_map] at h ⊢
  induction es with
  | nil => simp [assignTable]
  | cons e es ih =>
    obtain ⟨hhead, htail⟩ := List.pairwise_cons.1 h
    rw [assignTable]
    split_ifs with hlt heq
    · refine List.pairwise_cons.2 ⟨fun a ha => ?_, h⟩
      rcases List.mem_cons.1 ha with rfl | ha
      · exact hlt
      · exact String.lt_trans hlt (hhead a ha)
    · exact List.pairwise_cons.2 ⟨fun a ha => heq ▸ hhead a ha, htail⟩
    · refine List.pairwise_cons.2 ⟨fun a ha => ?_, ih htail⟩
      rcases mem_assignTable ha with rfl | ha
      · exact Decidable.byContradiction fun hge => heq (String.le_antisymm (String.not_lt.1 hge) (String.not_lt.1 hlt))
      · exact hhead a ha

theorem assignTable_perm {table : String} (rows : StmtOutput) {es : List (String × StmtOutput)}
    (h : table ∉ es.map Prod.fst) : (assignTable table rows es).Perm ((table, rows) :: es) := by
  induction es with
  | nil => exact List.Perm.refl _
  | cons e es ih =>
    rw [List.map_cons, List.mem_cons, not_or] at h
    rw [assignTable]
    split_ifs with hlt heq
    · exact List.Perm.refl _
    · exact absurd heq h.1
    · exact ((ih h.2).cons e).trans (List.Perm.swap _ _ _)

/-- `content[table] = rows` -/
def Content.assign (c : Content) (table : String) (rows : StmtOutput) : Content :=
  ⟨assignTable table rows c.tables, assignTable_sorted table rows c.sorted⟩

/-- A row as `get_content` stores it. -/
def contentRow (row : List (Option String)) : RowOutput :=
  row.map fun cell => processAnItem (cell.getD "NULL")

/-- One round of `dut_mysql::get_content`; a refused query leaves no entry. -/
def getContentRound (server : Server) (content : Content) (table : String) : Content :=
  match server table with
  | none => content
  | some rows => content.assign table (rows.map contentRow)

/-- `dut_get_content` asks for every relation of the schema. -/
def dutGetContent (schema : SchemaTables) (server : Server) : Content :=
  (schema.tables.map SchemaTable.ident).foldl (getContentRound server) .empty

/-- The rows of a relation, as the snapshot stores them. -/
def Server.rowsOf (server : Server) (table : String) : StmtOutput :=
  ((server table).getD []).map contentRow

theorem getContent_perm (server : Server) {names : List String} (hnodup : names.Nodup)
    (content : Content) (hnew : ∀ t ∈ names, t ∉ content.names) :
    (((names.foldl (getContentRound server) content).tables.map Prod.snd).flatten).Perm
      ((content.tables.map Prod.snd).flatten ++ names.flatMap server.rowsOf) := by
  induction names generalizing content with
  | nil => simp
  | cons t names ih =>
    obtain ⟨ht, hnames⟩ := List.nodup_cons.1 hnodup
    rw [List.foldl_cons, List.flatMap_cons]
    cases hserver : server t with
    | none =>
      have hround : getContentRound server content t = content := by
        simp [getContentRound, hserver]
      have hrows : server.rowsOf t = [] := by simp [Server.rowsOf, hserver]
      rw [hround, hrows, List.nil_append]
      exact ih hnames content fun u hu => hnew u (by simp [hu])
    | some rows =>
      have hround : getContentRound server content t = content.assign t (rows.map contentRow) := by
        simp [getContentRound, hserver]
      have hrows : server.rowsOf t = rows.map contentRow := by simp [Server.rowsOf, hserver]
      have hassign : (content.assign t (rows.map contentRow)).tables.Perm
          ((t, rows.map contentRow) :: content.tables) :=
        assignTable_perm _ (hnew t (by simp))
      have hnew' : ∀ u ∈ names, u ∉ (content.assign t (rows.map contentRow)).names := by
        intro u hu hmem
        obtain ⟨e, he, rfl⟩ := List.mem_map.1 hmem
        rcases mem_assignTable he with rfl | he
        · exact ht hu
        · exact hnew e.1 (by simp [hu]) (List.mem_map_of_mem he)
      rw [hround, hrows]
      refine (ih hnames _ hnew').trans ?_
      have hflat := (hassign.map Prod.snd).flatten
      rw [List.map_cons, List.flatten_cons] at hflat
      rw [← List.append_assoc]
      exact (hflat.trans List.perm_append_comm).append_right _

theorem dutGetContent_perm (schema : SchemaTables) (server : Server) :
    (((dutGetContent schema server).tables.map Prod.snd).flatten).Perm
      (schema.tables.flatMap fun t => server.rowsOf t.ident) := by
  have h := getContent_perm server schema.ident_nodup .empty
    (fun t _ => by simp [Content.names, Content.empty])
  rwa [List.flatMap_map] at h

/-! The analyzer's initial operations. -/

/-- The arguments that `analyze_txn_dependency` passes: the version key is the first column
and the primary key the second. -/
def analyzeTxnDependency (initDbContent : Content) (realOutputQueue : List StmtOutput)
    (realTidQueue : List ℕ) (realStmtUsage : List StmtUsage) (realTxnStatus : List TxnStatus) :
    AnalyzerInput where
  initOutput := initDbContent.tables.map Prod.snd
  totalOutput := realOutputQueue
  finalTidQueue := realTidQueue
  finalStmtUsage := realStmtUsage
  finalTxnStatus := realTxnStatus
  primaryKeyIdx := 1
  writeOpKeyIdx := 0

namespace SchemaTables

/-- The rows of the base tables. -/
def baseRows (schema : SchemaTables) (server : Server) : StmtOutput :=
  (schema.tables.filter (·.isBaseTable)).flatMap fun t => server.rowsOf t.ident

def viewRows (schema : SchemaTables) (server : Server) : StmtOutput :=
  (schema.tables.filter fun t => !t.isBaseTable).flatMap fun t => server.rowsOf t.ident

theorem rows_perm (schema : SchemaTables) (server : Server) :
    (((dutGetContent schema server).tables.map Prod.snd).flatten).Perm
      (schema.baseRows server ++ schema.viewRows server) := by
  refine (dutGetContent_perm schema server).trans ?_
  rw [baseRows, viewRows, ← List.flatMap_append]
  exact (List.filter_append_perm (·.isBaseTable) schema.tables).symm.flatMap_right _

end SchemaTables

theorem copy_keyIndex {inp : AnalyzerInput} {q : AnalyzedQueue} (h : inp.copy = .ok q) :
    q.primaryKeyIndex = inp.primaryKeyIdx ∧ q.versionKeyIndex = inp.writeOpKeyIdx := by
  unfold AnalyzerInput.copy at h
  split_ifs at h
  cases h
  exact ⟨rfl, rfl⟩

/-- The operations of no statement. -/
def History.initialOperations (h : History) : List OperateUnit :=
  h.operations.filter (·.stmtIdx.isNone)

theorem initialOperations_perm {q : AnalyzedQueue} {initOutput : List StmtOutput} {h : History}
    {ops : List OperateUnit} (hs : h.Splits (q.initOps initOutput ++ ops))
    (hops : ∀ op ∈ ops, op.stmtIdx.isSome) :
    h.initialOperations.Perm (q.initOps initOutput) := by
  refine (hs.perm.filter _).trans (List.Perm.of_eq ?_)
  have hinit : (q.initOps initOutput).filter (·.stmtIdx.isNone) = q.initOps initOutput := by
    rw [List.filter_eq_self]
    intro op hop
    obtain ⟨row, -, rfl⟩ := List.mem_map.1 hop
    rfl
  have hrest : ops.filter (·.stmtIdx.isNone) = [] := by
    rw [List.filter_eq_nil_iff]
    intro op hop hc
    have := hops op hop
    rw [Option.isNone_iff_eq_none] at hc
    rw [hc] at this
    cases this
  rw [List.filter_append, hinit, hrest, List.append_nil]

theorem initialOperations_of_splits {q : AnalyzedQueue} {initOutput : List StmtOutput} {h : History}
    (hs : h.Splits (q.initOps initOutput)) : h.initialOperations.Perm (q.initOps initOutput) := by
  rw [← List.append_nil (q.initOps initOutput)] at hs
  exact initialOperations_perm hs (by simp)

/-- The initial rows are recorded without a failure, and the operations recorded for them
are one for each row of a base table, also when those of the statements are added. -/
def AnalyzedQueue.RecordsBaseRows (q : AnalyzedQueue) (schema : SchemaTables) (server : Server) :
    Prop :=
  let initOutput := (dutGetContent schema server).tables.map Prod.snd
  (∃ h, q.initialHistory initOutput = .ok h ∧
    h.initialOperations.Perm ((schema.baseRows server).map q.initOp)) ∧
  ∀ h, q.buildHistory initOutput = .ok h →
    h.initialOperations.Perm ((schema.baseRows server).map q.initOp)

/-- The initial operations are right exactly when no view has a row and every row of a base
table begins with two integers. -/
theorem recordsBaseRows_iff {schema : SchemaTables} {server : Server} {outputs : List StmtOutput}
    {tids : List ℕ} {usages : List StmtUsage} {statuses : List TxnStatus} {q : AnalyzedQueue}
    (h : (analyzeTxnDependency (dutGetContent schema server) outputs tids usages statuses).copy =
      .ok q) :
    q.RecordsBaseRows schema server ↔ schema.viewRows server = [] ∧
      ∀ row ∈ schema.baseRows server, (∃ v, keyOf row 0 = .ok v) ∧ ∃ p, keyOf row 1 = .ok p := by
  have hkeyed : ∀ row, q.Keyed row ↔ (∃ v, keyOf row 0 = .ok v) ∧ ∃ p, keyOf row 1 = .ok p := by
    obtain ⟨hp, hv⟩ := copy_keyIndex h
    intro row
    rw [Keyed, hp, hv, and_comm]
    rfl
  have hperm := schema.rows_perm server
  have hinit : (q.initOps ((dutGetContent schema server).tables.map Prod.snd)).Perm
      ((schema.baseRows server).map q.initOp ++ (schema.viewRows server).map q.initOp) := by
    rw [initOps, ← List.map_append]
    exact hperm.map q.initOp
  simp only [← hkeyed]
  constructor
  · rintro ⟨⟨h0, hrun, hops⟩, -⟩
    obtain ⟨hrows, hs⟩ := initialHistory_spec hrun
    refine ⟨?_, fun row hrow => hrows row (hperm.mem_iff.2 (List.mem_append_left _ hrow))⟩
    have hsame := (initialOperations_of_splits hs).symm.trans hops
    have hlen := (hinit.symm.trans hsame).length_eq
    rw [List.length_append, List.length_map, List.length_map] at hlen
    exact List.eq_nil_of_length_eq_zero (by omega)
  · rintro ⟨hview, hbase⟩
    rw [hview, List.append_nil] at hperm
    rw [hview, List.map_nil, List.append_nil] at hinit
    have hrows : ∀ row ∈ ((dutGetContent schema server).tables.map Prod.snd).flatten,
        q.Keyed row := fun row hrow => hbase row (hperm.mem_iff.1 hrow)
    obtain ⟨h0, hrun⟩ := initialHistory_ok hrows
    refine ⟨⟨h0, hrun, ?_⟩, fun h hbuild => ?_⟩
    · exact (initialOperations_of_splits (initialHistory_spec hrun).2).trans hinit
    · refine (initialOperations_perm (buildHistory_spec hbuild).2.2 fun op hop => ?_).trans hinit
      obtain ⟨i, -, hop⟩ := List.mem_flatMap.1 hop
      obtain ⟨row, -, rfl⟩ := List.mem_map.1 hop
      rfl

/-- A base table with one row and a view of two texts. -/
def viewSchema : SchemaTables := ⟨[⟨"t0", true⟩, ⟨"v0", false⟩], by decide⟩

def viewServer : Server := fun table =>
  if table = "t0" then some [[some "1", some "11000"]] else some [[some "x", some "y"]]

def viewQueue : AnalyzedQueue where
  tidNum := 2
  primaryKeyIndex := 1
  versionKeyIndex := 0
  fTxnStatus := [.commit, .commit]
  fTxnIdQueue := []
  fStmtUsage := []
  fStmtOutput := []
  usage_length := rfl
  output_length := rfl
  status_length := rfl
  tid_lt := by intro t ht; cases ht

theorem viewQueue_copy :
    (analyzeTxnDependency (dutGetContent viewSchema viewServer) [] [] [] [.commit]).copy =
      .ok viewQueue := by
  simp [AnalyzerInput.copy, analyzeTxnDependency, AnalyzerInput.tNum, viewQueue]

theorem viewQueue_recordsBaseRows_iff :
    viewQueue.RecordsBaseRows viewSchema viewServer ↔ viewSchema.viewRows viewServer = [] ∧
      ∀ row ∈ viewSchema.baseRows viewServer,
        (∃ v, keyOf row 0 = .ok v) ∧ ∃ p, keyOf row 1 = .ok p :=
  recordsBaseRows_iff viewQueue_copy

/-- The view's row ends the analysis with an exception of `stoi`. -/
theorem viewQueue_not_recordsBaseRows :
    viewQueue.initialHistory ((dutGetContent viewSchema viewServer).tables.map Prod.snd) =
        .error .stoiError ∧
      ¬ viewQueue.RecordsBaseRows viewSchema viewServer := by
  have hfail : viewQueue.initialHistory
      ((dutGetContent viewSchema viewServer).tables.map Prod.snd) = .error .stoiError := by
    rfl
  refine ⟨hfail, ?_⟩
  rintro ⟨⟨h, hrun, -⟩, -⟩
  rw [hfail] at hrun
  cases hrun

end DbFuzz
