import DbFuzz.Eet.ChangedResults
import DbFuzz.Eet.MinimizeDatabase
import DbFuzz.Eet.TesterQuery

/-! The verdict of the testers on a server that computes what the statements mean. -/

namespace DbFuzz.Eet

open DbFuzz.Expr

variable {D : Type}

/-- A server that computes what a statement means on the database of `B`. It may also answer with an
error. -/
structure Computes (env : QcnEnv) (s : Expr.Schema) (M : Meaning D) (B : List String)
    (Q : TesterQuery) : Prop where
  queried : TestsServer Q.kind → ∀ t settings output, t.built = B →
    env.answer t (.test (Q.text s) settings) = .ok output →
      (Q.queried M (M.db B)).map M.rendered = some (output : Multiset RowOutput)
  written : ∀ rows, Q.written M (M.db B) = some rows →
    (M.db (B ++ [Q.text s])).table Q.victim = rows
  getContent : ∀ t table output, env.answer t (.getContent table) = .ok output →
    output = ((M.db t.built).table table).map M.render

/-- The database a tester sends its statements to is the one of `B`. -/
def At (env : QcnEnv) (kind : QcnKind) (B : List String) (s : QcnState) : Prop :=
  (if TestsServer kind then s.built else restored env s) = B

section Execute

variable {env : QcnEnv} {kind : QcnKind} {P : QcnState → Prop}

/-- An execution calls the driver, records its database and, where it restores the backup, builds
another one. -/
theorem execute_keeps (hcalls : ∀ s, P s → P { s with calls := s.calls + 1 })
    (htested : ∀ s dbs, P s → P { s with tested := dbs })
    (hbuilt : ¬ TestsServer kind → ∀ s stmts, P s → P { s with built := stmts }) (query : String) :
    Proc.Partial P (execute env kind query) (fun _ => P) P := by
  have hrecord : Proc.Partial P recordTested (fun _ => P) P :=
    Proc.Partial.modify fun s hs => htested s _ hs
  have hquery : Proc.Partial P (recordTested >>= fun _ => executeQuery env query) (fun _ => P) P := by
    refine hrecord.bind fun _ => orAbort_triple ?_
    refine (dutSetup_triple hcalls).bind fun _ => Proc.Partial.get.bind fun s => ?_
    refine ((dutCall_triple _ hcalls).pre fun _ h => h.2).bind fun output => ?_
    exact Proc.Partial.pure fun _ hs => hs
  have hchanged (isAfter : Bool) (hkind : ¬ TestsServer kind) :
      Proc.Partial P (executeGetChangedResults env query isAfter) (fun _ => P) P := by
    refine orAbort_triple ?_
    refine (dutSetup_triple hcalls).bind fun _ => ?_
    refine Proc.Partial.bind (M := fun _ => P) ?_ fun _ => ?_
    · refine (dutCall_triple _ hcalls).bind fun _ => Proc.Partial.modify fun s hs => ?_
      exact hbuilt hkind s _ hs
    refine Proc.Partial.get.bind fun s => Proc.Partial.pre (P := P) ?_ fun _ h => h.2
    refine (dutCall_triple _ hcalls).bind fun prev => hrecord.bind fun _ => ?_
    refine Proc.Partial.bind (M := fun _ => P) ?_ fun _ => ?_
    · refine (dutCall_triple _ hcalls).bind fun _ => Proc.Partial.modify fun s hs => ?_
      exact hbuilt hkind s _ hs
    exact (dutCall_triple _ hcalls).bind fun _ => Proc.Partial.pure fun _ hs => hs
  cases kind with
  | select => exact hquery
  | cte => exact hquery
  | update => exact hchanged true (by decide)
  | delete => exact hchanged false (by decide)
  | insertSelect => exact hchanged true (by decide)

theorem executeQuery_ok {query : String} {s t : QcnState} {rows : Multiset RowOutput}
    (h : executeQuery env query s = (.ok rows, t)) : ∃ u settings, ∃ output : StmtOutput,
      u.built = s.built ∧ env.answer u (.test query settings) = .ok output ∧ rows = output := by
  obtain ⟨_, s1, hsetup, h⟩ := Proc.bind_ok (orAbort_ok h)
  obtain ⟨_, _, hget, h⟩ := Proc.bind_ok h
  cases hget
  obtain ⟨output, s2, hcall, h⟩ := Proc.bind_ok h
  cases h
  refine ⟨s1, _, output, ?_, (dutCall_ok hcall).1, rfl⟩
  rw [dutSetup_ok hsetup]

end Execute

section Verdict

variable {env : QcnEnv} {s : Expr.Schema} {M : Meaning D} {B : List String}
variable {Q Q' : TesterQuery}

/-- The contents around a statement that the tester runs on the restored database. -/
theorem Computes.changed_ok (h : Computes env s M B Q) {t t' : QcnState} {isAfter : Bool}
    {rows : Multiset RowOutput} (hat : restored env t = B) (hvictim : t.qcn.tableName = Q.victim)
    {table : List (SqlRow D)} (hwritten : Q.written M (M.db B) = some table)
    (hrun : executeGetChangedResults env (Q.text s) isAfter t = (.ok rows, t')) :
    rows = if isAfter then changedRows (M.rendered table) (M.rendered ((M.db B).table Q.victim))
      else changedRows (M.rendered ((M.db B).table Q.victim)) (M.rendered table) := by
  obtain ⟨prev, new, hcontents, rfl⟩ := executeGetChangedResults_ok hrun
  have hprev := h.getContent _ _ _ hcontents.prev
  have hnew := h.getContent _ _ _ hcontents.new
  rw [beforeQuery, hvictim, hat] at hprev
  rw [afterQuery, hvictim, hat, h.written table hwritten] at hnew
  rw [hprev, hnew]
  rfl

/-- Every execution of the statement that returns, returns its rows on the tested database. -/
theorem Computes.execute_ok (h : Computes env s M B Q) {t t' : QcnState}
    {rows : Multiset RowOutput} (hat : At env Q.kind B t) (hvictim : t.qcn.tableName = Q.victim)
    (hrun : execute env Q.kind (Q.text s) t = (.ok rows, t')) :
    Q.result M (M.db B) = some rows := by
  have hquery (hkind : TestsServer Q.kind)
      (hrun : (recordTested >>= fun _ => executeQuery env (Q.text s)) t = (.ok rows, t')) :
      (Q.queried M (M.db B)).map M.rendered = some rows := by
    rw [At, if_pos hkind] at hat
    obtain ⟨_, u, hrecord, hrun⟩ := Proc.bind_ok hrun
    cases hrecord
    obtain ⟨v, settings, output, hbuilt, hanswer, rfl⟩ := executeQuery_ok hrun
    exact h.queried hkind v settings output (hbuilt.trans hat) hanswer
  have hchanged (table : List (SqlRow D)) (hkind : ¬ TestsServer Q.kind) (isAfter : Bool)
      (hwritten : Q.written M (M.db B) = some table)
      (hrun : executeGetChangedResults env (Q.text s) isAfter t = (.ok rows, t')) := by
    rw [At, if_neg hkind] at hat
    exact h.changed_ok hat hvictim hwritten hrun
  cases Q with
  | select q => exact hquery (.inl rfl) hrun
  | cte c => exact hquery (.inr rfl) hrun
  | update u =>
    rw [hchanged _ (by simp [TestsServer, TesterQuery.kind]) true rfl hrun]
    rfl
  | delete d =>
    rw [hchanged _ (by simp [TestsServer, TesterQuery.kind]) false rfl hrun]
    rfl
  | insertSelect i =>
    rw [hchanged _ (by simp [TestsServer, TesterQuery.kind]) true rfl hrun]
    rfl

/-- A tester of `Q` and its transform `Q'`, on the database of `B`. -/
structure Tester (env : QcnEnv) (s : Expr.Schema) (B : List String) (Q Q' : TesterQuery)
    (t : QcnState) : Prop where
  kind : t.qcn.kind = Q.kind
  tableName : t.qcn.tableName = Q.victim
  originalQuery : t.qcn.originalQuery = Q.text s
  qitQuery : t.qcn.qitQuery = Q'.text s
  at_ : At env Q.kind B t

/-- An execution leaves the tester as it was. -/
theorem execute_tester {c : QcnTester} (query : String) :
    Proc.Partial (fun t => At env Q.kind B t ∧ t.qcn = c) (execute env Q.kind query)
      (fun _ t => At env Q.kind B t ∧ t.qcn = c) (fun t => At env Q.kind B t ∧ t.qcn = c) := by
  refine execute_keeps (fun t ht => ht) (fun t dbs ht => ht) (fun hkind t stmts ht => ?_) query
  refine ⟨?_, ht.2⟩
  have hat := ht.1
  rw [At, if_neg hkind] at hat ⊢
  exact hat

theorem Computes.execute_triple (h : Computes env s M B Q) {c : QcnTester}
    (hvictim : c.tableName = Q.victim) :
    Proc.Partial (fun t => At env Q.kind B t ∧ t.qcn = c) (execute env Q.kind (Q.text s))
      (fun rows t => Q.result M (M.db B) = some rows ∧ At env Q.kind B t ∧ t.qcn = c)
      (fun t => At env Q.kind B t ∧ t.qcn = c) := by
  intro t ht
  obtain ⟨hok, herror⟩ := execute_tester (Q.text s) t ht
  refine ⟨fun rows t' hrun => ⟨h.execute_ok ht.1 ?_ hrun, hok rows t' hrun⟩, herror⟩
  rw [ht.2, hvictim]

theorem Tester.results {t : QcnState} (h : Tester env s B Q Q' t)
    (original qit : Multiset RowOutput) (skip : Bool) :
    Tester env s B Q Q' { t with qcn := { t.qcn with
      originalQueryResult := original, qitQueryResult := qit,
      skipOneOriginalExecution := skip } } :=
  ⟨h.kind, h.tableName, h.originalQuery, h.qitQuery, h.at_⟩

/-- The tester `c` is still there, so what was known of it holds. -/
theorem Tester.of_qcn {t u : QcnState} (h : Tester env s B Q Q' t) (hqcn : u.qcn = t.qcn)
    (hat : At env Q.kind B u) : Tester env s B Q Q' u :=
  ⟨hqcn ▸ h.kind, hqcn ▸ h.tableName, hqcn ▸ h.originalQuery, hqcn ▸ h.qitQuery, hat⟩

theorem runOriginal_result (h : Computes env s M B Q) :
    Proc.Partial (Tester env s B Q Q') (runOriginal env)
      (fun _ t => Tester env s B Q Q' t ∧
        Q.result M (M.db B) = some t.qcn.originalQueryResult)
      (Tester env s B Q Q') := by
  refine Proc.Partial.of_start fun t ht => Proc.Partial.get.bind fun u =>
    Proc.Partial.of_start fun v hv => ?_
  obtain ⟨rfl, rfl⟩ := hv
  rw [ht.kind, ht.originalQuery]
  have hcleared := ht.results 0 u.qcn.qitQueryResult u.qcn.skipOneOriginalExecution
  refine Proc.Partial.bind (M := fun _ v => At env Q.kind B v ∧
    v.qcn = { u.qcn with originalQueryResult := 0 }) ?_ fun _ => ?_
  · refine Proc.Partial.modify fun v hv => ?_
    subst hv
    exact ⟨ht.at_, rfl⟩
  · refine Proc.Partial.bind ((h.execute_triple hcleared.tableName).conseq (fun _ h => h)
      (fun _ _ h => h) fun v hv => hcleared.of_qcn hv.2 hv.1) fun rows => ?_
    refine Proc.Partial.modify fun v hv => ⟨?_, hv.1⟩
    exact (hcleared.of_qcn hv.2.2 hv.2.1).results _ _ _

theorem runQit_result (h : Computes env s M B Q') (hkind : Q'.kind = Q.kind)
    (hvictim : Q'.victim = Q.victim) :
    Proc.Partial (fun t => Tester env s B Q Q' t ∧ Q.result M (M.db B) = some t.qcn.originalQueryResult) (runQit env)
      (fun _ t => Q.result M (M.db B) = some t.qcn.originalQueryResult ∧
        Q'.result M (M.db B) = some t.qcn.qitQueryResult)
      (fun t => Tester env s B Q Q' t ∧ Q.result M (M.db B) = some t.qcn.originalQueryResult) := by
  refine Proc.Partial.of_start fun t ht => Proc.Partial.get.bind fun u =>
    Proc.Partial.of_start fun v hv => ?_
  obtain ⟨rfl, rfl⟩ := hv
  obtain ⟨ht, hX⟩ := ht
  rw [ht.kind, ht.qitQuery, ← hkind]
  have hcleared := ht.results u.qcn.originalQueryResult 0 u.qcn.skipOneOriginalExecution
  refine Proc.Partial.bind (M := fun _ v => At env Q'.kind B v ∧
    v.qcn = { u.qcn with qitQueryResult := 0 }) ?_ fun _ => ?_
  · refine Proc.Partial.modify fun v hv => ?_
    subst hv
    exact ⟨hkind ▸ ht.at_, rfl⟩
  · refine Proc.Partial.bind ((h.execute_triple (hcleared.tableName.trans hvictim.symm)).conseq
      (fun _ h => h) (fun _ _ h => h) fun v hv => ?_) fun rows => ?_
    · exact ⟨hcleared.of_qcn hv.2 (hkind ▸ hv.1), by rw [hv.2, hX]⟩
    · refine Proc.Partial.modify fun v hv => ⟨?_, hv.1⟩
      change Q.result M (M.db B) = some v.qcn.originalQueryResult
      rw [hv.2.2, hX]

/-- What the constructor kept is the result of an earlier execution on the same database. -/
def KeptResult (env : QcnEnv) (kind : QcnKind) (B : List String) (t : QcnState) : Prop :=
  t.qcn.skipOneOriginalExecution = true → ∃ u u', At env kind B u ∧
    u.qcn.tableName = t.qcn.tableName ∧
    execute env kind t.qcn.originalQuery u = (.ok t.qcn.originalQueryResult, u')

theorem firstOriginal_result (h : Computes env s M B Q) :
    Proc.Partial (fun t => Tester env s B Q Q' t ∧ KeptResult env Q.kind B t) (firstOriginal env)
      (fun ok t => ok = true → Tester env s B Q Q' t ∧
        Q.result M (M.db B) = some t.qcn.originalQueryResult)
      (fun _ => False) := by
  refine Proc.Partial.of_start fun t ht => Proc.Partial.get.bind fun u =>
    Proc.Partial.of_start fun v hv => ?_
  obtain ⟨rfl, rfl⟩ := hv
  obtain ⟨ht, hkept⟩ := ht
  refine Proc.Partial.ite (fun hskip => ?_) fun _ => ?_
  · obtain ⟨u, u', hat, htable, hrun⟩ := hkept hskip
    rw [ht.originalQuery] at hrun
    have hX := h.execute_ok hat (htable.trans ht.tableName) hrun
    refine Proc.Partial.bind (M := fun _ t => Tester env s B Q Q' t ∧
      Q.result M (M.db B) = some t.qcn.originalQueryResult) ?_
      fun _ => Proc.Partial.pure fun _ h _ => h
    exact Proc.Partial.modify fun u hu => hu ▸ ⟨ht.results _ _ _, hX⟩
  · refine (succeeds_triple (runOriginal_result h)).conseq (fun v hv => hv ▸ ht)
      (fun ok v hv hok => ?_) fun _ h => h.elim
    rwa [if_pos hok] at hv

end Verdict

/-! A test of one query. -/

/-- A server with the integers as its database. -/
def integersServer : QcnEnv where
  backupKind := .dump
  setup := []
  answer _ call :=
    match call with
    | .test _ _ => .ok ((oneInTwo.out.rows integers noRow).map renderInteger)
    | .getContent table => .ok ((integers.table table).map renderInteger)
    | _ => .ok []

/-- A tester of `oneInTwo` that keeps no result yet. -/
def oneInTwoTester (qitQuery : String) : QcnState where
  qcn := ⟨.select, "mysql", "", [], oneInTwo.out.text schemaMysql, qitQuery, 0, 0, false, false⟩
  built := []
  backup := none
  calls := 0
  tested := []

def integersMeaning : Meaning ℤ where
  db _ := integers
  render := renderInteger
  noColumn := noRow
  depth := 0
  fill _ _ := none

theorem integersServer_computes {q : Expr.QuerySpec}
    (h : TesterQuery.queried integersMeaning integers (.select q) =
      TesterQuery.queried integersMeaning integers (.select oneInTwo)) :
    Computes integersServer schemaMysql integersMeaning [] (.select q) where
  queried := by
    intro _ t settings output _ hanswer
    cases hanswer
    exact congrArg (Option.map integersMeaning.rendered) h
  written := nofun
  getContent := by
    intro t table output hanswer
    cases hanswer
    rfl

end DbFuzz.Eet
