import DbFuzz.TxCheck.ExecRun
import DbFuzz.TxCheck.Group

/-! The refinement of a queue to a path of statements (`refine_stmt_queue` in
`transaction_test.cc`), between two runs of the concurrent test. The loop walks the
planned queue; the groups are those of the analyzer, whose queue is the executed one. -/

namespace DbFuzz

open Loop

/-- The fields of `transaction_test`. `isTxnString` holds of the statements that
`dynamic_pointer_cast<txn_string_stmt>` accepts. -/
structure PlannedTest where
  plan : TestPlan
  transNum : ℕ
  isTxnString : ℕ → Bool
  test : TransTest

namespace PlannedTest

def stmt (t : PlannedTest) (i : ℕ) : String := t.test.stmtQueue i

def use (t : PlannedTest) (i : ℕ) : StmtUsage := t.plan.stmtUse i

def txn (t : PlannedTest) (tid : ℕ) : Transaction := t.test.transArr tid

/-- `casted && stmt_use[i] == INIT_TYPE` -/
def isTxnStmt (t : PlannedTest) (i : ℕ) : Bool :=
  t.isTxnString i && (t.use i).stmtType == .initType

/-- `stmt_queue[i] = make_shared<txn_string_stmt>(text)` -/
def setStmt (t : PlannedTest) (i : ℕ) (text : String) : PlannedTest :=
  { t with
    isTxnString := Function.update t.isTxnString i true
    test := { t.test with stmtQueue := Function.update t.test.stmtQueue i text } }

def setTxn (t : PlannedTest) (tid : ℕ) (f : Transaction → Transaction) : PlannedTest :=
  { t with test := t.test.modifyTxn tid f }

/-- The input of the analyzer in `analyze_txn_dependency`. -/
def analyzerInput (t : PlannedTest) (initContent : List StmtOutput) : AnalyzerInput where
  initOutput := initContent
  totalOutput := t.test.realOutputQueue
  finalTidQueue := t.test.realTidQueue
  finalStmtUsage := t.test.realStmtUsage
  finalTxnStatus := (List.range t.transNum).map fun tid => (t.txn tid).status
  primaryKeyIdx := 1
  writeOpKeyIdx := 0

/-! `change_txn_status` -/

/-- A round of the loop that looks for the commit or abort statement. -/
def replaceEnd (target : ℕ) (last : String) (t : PlannedTest) (i : ℕ) : PlannedTest :=
  if t.plan.tidQueue i ≠ target then t
  else if !t.plan.endsTxn (t.stmt i) then t
  else t.setStmt i last

def changeTxnStatus (t : PlannedTest) (target : ℕ) (finalStatus : TxnStatus) :
    Except Failure (Bool × PlannedTest) :=
  if finalStatus ≠ .abort ∧ finalStatus ≠ .commit then
    .error (.runtimeError "illegal final_status")
  else if (t.txn target).status = finalStatus then .ok (false, t)
  else if (t.txn target).stmts = [] then .error .badIndex
  else
    let last := if finalStatus = .abort then t.plan.abortStmt else t.plan.commitStmt
    let t := t.setTxn target fun x =>
      { x with status := finalStatus, stmts := x.stmts.dropLast ++ [last] }
    .ok (true, (List.range t.plan.stmtNum).foldl (replaceEnd target last) t)

/-! `refine_stmt_queue` -/

/-- The first loop: the positions reached and the test. -/
def copyTxnStmt (i : ℕ) (s : (ℕ → ℕ) × PlannedTest) : Except Failure ((ℕ → ℕ) × PlannedTest) :=
  let (stmtPosOfTxn, t) := s
  let tid := t.plan.tidQueue i
  let pos := stmtPosOfTxn tid
  let next := Function.update stmtPosOfTxn tid (pos + 1)
  if t.isTxnStmt i then
    if pos < (t.txn tid).stmts.length then
      .ok (next, t.setTxn tid fun x => { x with stmts := x.stmts.set pos (t.stmt i) })
    else .error .badIndex
  else .ok (next, t)

/-- `exist_tid.count(tid) > 0` -/
def onPath (path : List StmtId) (tid : ℕ) : Bool := path.any fun s => s.txnId == tid

/-- The second loop: transactions off the path become aborts. -/
def abortOffPath (path : List StmtId) (tid : ℕ) (s : Bool × PlannedTest) :
    Except Failure (Bool × PlannedTest) :=
  if onPath path tid then .ok s
  else do
    let (changed, t) ← s.2.changeTxnStatus tid .abort
    return (s.1 || changed, t)

/-- A placeholder for every statement of a set, no longer marked as instrumented. -/
def placeHolders (t : PlannedTest) (changeSet : Finset ℕ) : PlannedTest where
  plan :=
    { t.plan with
      stmtUse := fun k => if k ∈ changeSet then { (t.use k).assign .initType with
        isInstrumented := false } else t.use k }
  transNum := t.transNum
  isTxnString := fun k => if k ∈ changeSet then true else t.isTxnString k
  test :=
    { t.test with
      stmtQueue := fun k => if k ∈ changeSet then spaceHolderStmt else t.test.stmtQueue k }

structure Refining where
  stmtPosOfTxn : ℕ → ℕ
  isRefined : Bool
  graph : StmtGraph
  test : PlannedTest

/-- A round of the third loop. The group query is given the index of the planned queue. -/
def refineRound (q : AnalyzedQueue) (path : List StmtId) (i : ℕ) (s : Refining) :
    Except Failure Refining :=
  let tid := s.test.plan.tidQueue i
  if !onPath path tid then .ok s
  else
    let stmtIdx : StmtId := ⟨tid, s.stmtPosOfTxn tid⟩
    let s := { s with
      stmtPosOfTxn := Function.update s.stmtPosOfTxn tid (s.stmtPosOfTxn tid + 1) }
    if stmtIdx ∈ path then .ok s
    else if s.test.isTxnStmt i then .ok s
    else if (s.test.use i).isInstrumented then .ok s
    else do
      let (g, changeSet) ← q.getInstrumentedStmtSet s.graph i
      return { s with isRefined := true, graph := g, test := s.test.placeHolders changeSet }

def clearExecutionStatus (t : PlannedTest) : PlannedTest :=
  { t with
    test :=
      { t.test with
        transArr := fun tid =>
          { t.test.transArr tid with isBlocked := false, stmtOutputs := [], stmtErrInfo := [] }
        realTidQueue := [], realStmtQueue := [], realOutputQueue := [], realStmtUsage := [] } }

/-- `refine_stmt_queue` for an analyzer with queue `q` and graph `g`; the graph it
leaves is returned too. -/
def refineStmtQueue (t : PlannedTest) (q : AnalyzedQueue) (g : StmtGraph) (path : List StmtId) :
    Except Failure (Bool × StmtGraph × PlannedTest) := do
  let (_, t) ← forRange t.plan.stmtNum copyTxnStmt (fun _ => 0, t)
  let (isRefined, t) ← forRange t.transNum (abortOffPath path) (false, t)
  let s ← forRange t.plan.stmtNum (refineRound q path) ⟨fun _ => 0, isRefined, g, t⟩
  if !s.isRefined then return (false, s.graph, s.test)
  else return (true, s.graph, s.test.clearExecutionStatus)

/-! What the first loop keeps. -/

/-- Everything but the outputs and the texts in `stmts` is as before. -/
structure SameQueue (t t' : PlannedTest) : Prop where
  plan : t'.plan = t.plan
  transNum : t'.transNum = t.transNum
  isTxnString : t'.isTxnString = t.isTxnString
  stmt : ∀ i, t'.stmt i = t.stmt i
  status : ∀ tid, (t'.txn tid).status = (t.txn tid).status
  length : ∀ tid, (t'.txn tid).stmts.length = (t.txn tid).stmts.length

theorem SameQueue.refl (t : PlannedTest) : SameQueue t t :=
  ⟨rfl, rfl, rfl, fun _ => rfl, fun _ => rfl, fun _ => rfl⟩

theorem SameQueue.trans {t t' t'' : PlannedTest} (h : SameQueue t t') (h' : SameQueue t' t'') :
    SameQueue t t'' where
  plan := h'.plan.trans h.plan
  transNum := h'.transNum.trans h.transNum
  isTxnString := h'.isTxnString.trans h.isTxnString
  stmt i := (h'.stmt i).trans (h.stmt i)
  status tid := (h'.status tid).trans (h.status tid)
  length tid := (h'.length tid).trans (h.length tid)

@[simp] theorem setTxn_plan (t : PlannedTest) (tid : ℕ) (f : Transaction → Transaction) :
    (t.setTxn tid f).plan = t.plan := rfl

@[simp] theorem setTxn_isTxnString (t : PlannedTest) (tid : ℕ) (f : Transaction → Transaction) :
    (t.setTxn tid f).isTxnString = t.isTxnString := rfl

@[simp] theorem setTxn_stmt (t : PlannedTest) (tid : ℕ) (f : Transaction → Transaction) (i : ℕ) :
    (t.setTxn tid f).stmt i = t.stmt i := rfl

theorem setTxn_txn (t : PlannedTest) (tid : ℕ) (f : Transaction → Transaction) (u : ℕ) :
    (t.setTxn tid f).txn u = if u = tid then f (t.txn tid) else t.txn u := by
  simp only [txn, setTxn, TransTest.modifyTxn, Function.update_apply]

theorem sameQueue_setTxn {t : PlannedTest} {tid : ℕ} {f : Transaction → Transaction}
    (hstatus : (f (t.txn tid)).status = (t.txn tid).status)
    (hlength : (f (t.txn tid)).stmts.length = (t.txn tid).stmts.length) :
    SameQueue t (t.setTxn tid f) := by
  refine ⟨rfl, rfl, rfl, fun _ => rfl, fun u => ?_, fun u => ?_⟩
  · rw [setTxn_txn]; split
    · next h => rw [h, hstatus]
    · rfl
  · rw [setTxn_txn]; split
    · next h => rw [h, hlength]
    · rfl

/-- `instrument_txn_stmts` gives each transaction exactly its statements of the queue,
and every transaction has a begin statement. -/
structure Aligned (t : PlannedTest) : Prop where
  tid_lt : ∀ i < t.plan.stmtNum, t.plan.tidQueue i < t.transNum
  begin : ∀ tid < t.transNum, ∃ i < t.plan.stmtNum, t.plan.tidQueue i = tid
  length : ∀ tid < t.transNum,
    (t.txn tid).stmts.length = (t.plan.ofTxn tid (List.range t.plan.stmtNum)).length

theorem Aligned.of_sameQueue {t t' : PlannedTest} (ht : t.Aligned) (h : SameQueue t t') :
    t'.Aligned where
  tid_lt := by rw [h.plan, h.transNum]; exact ht.tid_lt
  begin := by rw [h.plan, h.transNum]; exact ht.begin
  length tid htid := by
    rw [h.transNum] at htid
    rw [h.plan, h.length, ht.length tid htid]

/-- The statements of a transaction before an index. -/
def posOf (p : TestPlan) (i tid : ℕ) : ℕ := (p.ofTxn tid (List.range i)).length

theorem posOf_succ (p : TestPlan) (i tid : ℕ) :
    posOf p (i + 1) tid = if p.tidQueue i = tid then posOf p i tid + 1 else posOf p i tid := by
  unfold posOf TestPlan.ofTxn
  rw [List.range_succ, List.filter_append, List.length_append]
  by_cases h : p.tidQueue i = tid
  · simp [h]
  · simp [h]

theorem posOf_mono (p : TestPlan) (tid : ℕ) {i j : ℕ} (h : i ≤ j) : posOf p i tid ≤ posOf p j tid := by
  induction h with
  | refl => exact Nat.le_refl _
  | step _ ih =>
    rw [posOf_succ]
    split <;> omega

theorem Aligned.posOf_lt {t : PlannedTest} (ht : t.Aligned) {i : ℕ} (hi : i < t.plan.stmtNum) :
    posOf t.plan i (t.plan.tidQueue i) < (t.txn (t.plan.tidQueue i)).stmts.length := by
  rw [ht.length _ (ht.tid_lt i hi)]
  have hsucc := posOf_succ t.plan i (t.plan.tidQueue i)
  rw [if_pos rfl] at hsucc
  have hle := posOf_mono t.plan (t.plan.tidQueue i) (show i + 1 ≤ t.plan.stmtNum from hi)
  unfold posOf at hsucc hle ⊢
  omega

theorem copyTxnStmts_ok {t : PlannedTest} (ht : t.Aligned) :
    ∃ r, forRange t.plan.stmtNum copyTxnStmt (fun _ => 0, t) = .ok r ∧ SameQueue t r.2 := by
  have hstep : ∀ i < t.plan.stmtNum, ∀ r : (ℕ → ℕ) × PlannedTest,
      (r.1 = posOf t.plan i ∧ SameQueue t r.2) → ∃ r', copyTxnStmt i r = .ok r' ∧
        (r'.1 = posOf t.plan (i + 1) ∧ SameQueue t r'.2) := by
    rintro i hi ⟨pos, t1⟩ ⟨hpos, hsame⟩
    dsimp only at hpos hsame
    have hlt := (ht.of_sameQueue hsame).posOf_lt (i := i) (by rw [hsame.plan]; exact hi)
    have hnext : Function.update pos (t1.plan.tidQueue i) (pos (t1.plan.tidQueue i) + 1) =
        posOf t.plan (i + 1) := by
      funext tid
      rw [posOf_succ, Function.update_apply, hpos, hsame.plan]
      by_cases h : tid = t.plan.tidQueue i
      · rw [if_pos h, if_pos h.symm, h]
      · rw [if_neg h, if_neg fun h' => h h'.symm]
    rw [hsame.plan, ← hpos, ← hsame.plan] at hlt
    unfold copyTxnStmt
    dsimp only
    split
    · exact ⟨_, rfl, hnext, hsame.trans (sameQueue_setTxn rfl List.length_set)⟩
    · exact ⟨_, rfl, hnext, hsame⟩
  obtain ⟨r, hr, -, hsame⟩ := forRange_ok _ (s := ((fun _ => 0), t)) ⟨rfl, SameQueue.refl t⟩ hstep
  exact ⟨r, hr, hsame⟩

/-! What the second loop does. -/

/-- `t'` is `t` with the transactions of `target` turned into aborts, together with their
commit or abort statements. -/
structure Aborts (t t' : PlannedTest) (target : ℕ → Prop) : Prop where
  plan : t'.plan = t.plan
  transNum : t'.transNum = t.transNum
  replaced : ∀ k < t.plan.stmtNum, target (t.plan.tidQueue k) → t.plan.endsTxn (t.stmt k) →
    t'.stmt k = t.plan.abortStmt ∧ t'.isTxnString k = true
  kept : ∀ k, ¬(k < t.plan.stmtNum ∧ target (t.plan.tidQueue k) ∧ t.plan.endsTxn (t.stmt k)) →
    t'.stmt k = t.stmt k ∧ t'.isTxnString k = t.isTxnString k
  aborted : ∀ tid, target tid → (t'.txn tid).status = .abort
  others : ∀ tid, ¬target tid → (t'.txn tid).status = (t.txn tid).status
  length : ∀ tid, (t'.txn tid).stmts.length = (t.txn tid).stmts.length

theorem Aborts.none (t : PlannedTest) {target : ℕ → Prop} (h : ∀ tid, ¬target tid) :
    Aborts t t target where
  plan := rfl
  transNum := rfl
  replaced _ _ ht := absurd ht (h _)
  kept _ _ := ⟨rfl, rfl⟩
  aborted _ ht := absurd ht (h _)
  others _ _ := rfl
  length _ := rfl

theorem Aborts.congr {t t' : PlannedTest} {target target' : ℕ → Prop} (h : Aborts t t' target)
    (he : ∀ tid, target tid ↔ target' tid) : Aborts t t' target' := by
  rwa [show target' = target from funext fun tid => propext (he tid).symm]

theorem Aborts.trans {t t' t'' : PlannedTest} {target target' : ℕ → Prop}
    (h : Aborts t t' target) (h' : Aborts t' t'' target')
    (hdisj : ∀ tid, target tid → ¬target' tid) :
    Aborts t t'' fun tid => target tid ∨ target' tid where
  plan := h'.plan.trans h.plan
  transNum := h'.transNum.trans h.transNum
  replaced k hk ht hend := by
    rcases ht with ht | ht
    · have hkept := h'.kept k fun hc => hdisj _ ht (h.plan ▸ hc.2.1)
      rw [hkept.1, hkept.2]
      exact h.replaced k hk ht hend
    · have hkept := h.kept k fun hc => hdisj _ hc.2.1 ht
      have := h'.replaced k (by rw [h.plan]; exact hk) (by rw [h.plan]; exact ht)
        (by rw [h.plan, hkept.1]; exact hend)
      rwa [h.plan] at this
  kept k hk := by
    have hfirst := h.kept k fun hc => hk ⟨hc.1, Or.inl hc.2.1, hc.2.2⟩
    have hsecond := h'.kept k fun hc => hk
      ⟨h.plan ▸ hc.1, Or.inr (h.plan ▸ hc.2.1), by have := hc.2.2; rwa [h.plan, hfirst.1] at this⟩
    exact ⟨hsecond.1.trans hfirst.1, hsecond.2.trans hfirst.2⟩
  aborted tid ht := by
    by_cases h2 : target' tid
    · exact h'.aborted tid h2
    · rw [h'.others tid h2]
      exact h.aborted tid (ht.resolve_right h2)
  others tid ht := (h'.others tid fun h2 => ht (Or.inr h2)).trans
    (h.others tid fun h1 => ht (Or.inl h1))
  length tid := (h'.length tid).trans (h.length tid)

@[simp] theorem setStmt_plan (t : PlannedTest) (i : ℕ) (text : String) :
    (t.setStmt i text).plan = t.plan := rfl

@[simp] theorem setStmt_txn (t : PlannedTest) (i : ℕ) (text : String) (tid : ℕ) :
    (t.setStmt i text).txn tid = t.txn tid := rfl

theorem setStmt_stmt (t : PlannedTest) (i : ℕ) (text : String) (k : ℕ) :
    (t.setStmt i text).stmt k = if k = i then text else t.stmt k := by
  simp only [stmt, setStmt, Function.update_apply]

theorem setStmt_isTxnString (t : PlannedTest) (i : ℕ) (text : String) (k : ℕ) :
    (t.setStmt i text).isTxnString k = if k = i then true else t.isTxnString k := by
  simp only [setStmt, Function.update_apply]

/-- The loop over the queue in `change_txn_status`. -/
theorem foldl_replaceEnd (t : PlannedTest) (target : ℕ) (last : String) (n : ℕ) :
    let t' := (List.range n).foldl (replaceEnd target last) t
    t'.plan = t.plan ∧ t'.transNum = t.transNum ∧ t'.txn = t.txn ∧
      ∀ k, (k < n ∧ t.plan.tidQueue k = target ∧ t.plan.endsTxn (t.stmt k) →
          t'.stmt k = last ∧ t'.isTxnString k = true) ∧
        (¬(k < n ∧ t.plan.tidQueue k = target ∧ t.plan.endsTxn (t.stmt k)) →
          t'.stmt k = t.stmt k ∧ t'.isTxnString k = t.isTxnString k) := by
  induction n with
  | zero => exact ⟨rfl, rfl, rfl, fun k => ⟨fun h => absurd h.1 (by omega), fun _ => ⟨rfl, rfl⟩⟩⟩
  | succ n ih =>
    obtain ⟨hplan, hnum, htxn, hall⟩ := ih
    rw [List.range_succ, List.foldl_append, List.foldl_cons, List.foldl_nil]
    generalize (List.range n).foldl (replaceEnd target last) t = t1 at hplan hnum htxn hall
    have hn := (hall n).2 fun h => absurd h.1 (by omega)
    by_cases hend : t.plan.tidQueue n = target ∧ t.plan.endsTxn (t.stmt n) = true
    · have hround : replaceEnd target last t1 n = t1.setStmt n last := by
        unfold replaceEnd
        rw [hplan, hn.1]
        simp [hend.1, hend.2]
      rw [hround]
      refine ⟨hplan, hnum, htxn, fun k => ?_⟩
      rw [setStmt_stmt, setStmt_isTxnString]
      by_cases hk : k = n
      · subst hk
        rw [if_pos rfl, if_pos rfl]
        exact ⟨fun _ => ⟨rfl, rfl⟩, fun h => absurd ⟨by omega, hend⟩ h⟩
      · rw [if_neg hk, if_neg hk]
        refine ⟨fun h => (hall k).1 ⟨by omega, h.2⟩, fun h => (hall k).2 fun hc => h ⟨by omega, hc.2⟩⟩
    · have hround : replaceEnd target last t1 n = t1 := by
        unfold replaceEnd
        rw [hplan, hn.1]
        by_cases htid : t.plan.tidQueue n = target
        · simp [htid, show t.plan.endsTxn (t.stmt n) = false by simpa [htid] using hend]
        · simp [htid]
      rw [hround]
      refine ⟨hplan, hnum, htxn, fun k => ⟨fun h => ?_, fun h => ?_⟩⟩
      · by_cases hk : k = n
        · exact absurd (hk ▸ h.2) hend
        · exact (hall k).1 ⟨by omega, h.2⟩
      · exact (hall k).2 fun hc => h ⟨by omega, hc.2⟩

/-- A transaction that is not aborted yet becomes one. -/
theorem changeTxnStatus_abort {t : PlannedTest} {target : ℕ}
    (hstatus : (t.txn target).status ≠ .abort) (hstmts : (t.txn target).stmts ≠ []) :
    ∃ t', t.changeTxnStatus target .abort = .ok (true, t') ∧ Aborts t t' fun tid => tid = target := by
  unfold changeTxnStatus
  rw [if_neg (by simp), if_neg hstatus, if_neg hstmts, if_pos rfl]
  refine ⟨_, rfl, ?_⟩
  have hspec := foldl_replaceEnd (t.setTxn target fun x =>
      { x with status := .abort, stmts := x.stmts.dropLast ++ [t.plan.abortStmt] })
    target t.plan.abortStmt t.plan.stmtNum
  dsimp only at hspec ⊢
  obtain ⟨hplan, hnum, htxn, hall⟩ := hspec
  have hlen : (t.txn target).stmts ≠ [] → 0 < (t.txn target).stmts.length := List.length_pos_of_ne_nil
  refine
    { plan := hplan, transNum := hnum
      replaced := fun k hk htid hend => (hall k).1 ⟨hk, htid, hend⟩
      kept := fun k hk => (hall k).2 hk
      aborted := fun tid htid => ?_, others := fun tid htid => ?_, length := fun tid => ?_ }
  · rw [setTxn_plan, htxn, setTxn_txn, if_pos htid]
  · rw [setTxn_plan, htxn, setTxn_txn, if_neg htid]
  · rw [setTxn_plan, htxn, setTxn_txn]
    split
    · next h =>
      subst h
      have := hlen hstmts
      simp only [List.length_append, List.length_dropLast, List.length_singleton]
      omega
    · rfl

/-- The transactions the second loop changes. -/
def TurnsAbort (t : PlannedTest) (path : List StmtId) (tid : ℕ) : Prop :=
  tid < t.transNum ∧ onPath path tid = false ∧ (t.txn tid).status ≠ .abort

instance (t : PlannedTest) (path : List StmtId) (tid : ℕ) : Decidable (t.TurnsAbort path tid) :=
  inferInstanceAs (Decidable (_ ∧ _ ∧ _))

theorem Aligned.of_aborts {t t' : PlannedTest} {target : ℕ → Prop} (ht : t.Aligned)
    (h : Aborts t t' target) : t'.Aligned where
  tid_lt := by rw [h.plan, h.transNum]; exact ht.tid_lt
  begin := by rw [h.plan, h.transNum]; exact ht.begin
  length tid htid := by
    rw [h.transNum] at htid
    rw [h.plan, h.length, ht.length tid htid]

theorem Aligned.stmts_ne_nil {t : PlannedTest} (ht : t.Aligned) {tid : ℕ} (htid : tid < t.transNum) :
    (t.txn tid).stmts ≠ [] := by
  obtain ⟨i, hi, hit⟩ := ht.begin tid htid
  have hmem : i ∈ t.plan.ofTxn tid (List.range t.plan.stmtNum) :=
    List.mem_filter.2 ⟨List.mem_range.2 hi, by simpa using hit⟩
  intro hnil
  have hlength := ht.length tid htid
  rw [hnil, List.length_nil] at hlength
  rw [List.length_eq_zero_iff.1 hlength.symm] at hmem
  cases hmem

theorem abortOffPath_ok {t : PlannedTest} (ht : t.Aligned) (path : List StmtId) :
    ∃ r, forRange t.transNum (abortOffPath path) (false, t) = .ok r ∧
      Aborts t r.2 (t.TurnsAbort path) ∧ (r.1 = true ↔ ∃ tid, t.TurnsAbort path tid) := by
  have hstep : ∀ i < t.transNum, ∀ r : Bool × PlannedTest,
      (Aborts t r.2 (fun tid => tid < i ∧ t.TurnsAbort path tid) ∧
        (r.1 = true ↔ ∃ tid < i, t.TurnsAbort path tid)) → ∃ r', abortOffPath path i r = .ok r' ∧
      (Aborts t r'.2 (fun tid => tid < i + 1 ∧ t.TurnsAbort path tid) ∧
        (r'.1 = true ↔ ∃ tid < i + 1, t.TurnsAbort path tid)) := by
    rintro i hi ⟨b, t1⟩ ⟨haborts, hb⟩
    dsimp only at haborts hb
    have hstatus := haborts.others i fun h => absurd h.1 (by omega)
    have hskip : ¬t.TurnsAbort path i →
        Aborts t t1 (fun tid => tid < i + 1 ∧ t.TurnsAbort path tid) ∧
          (b = true ↔ ∃ tid < i + 1, t.TurnsAbort path tid) := by
      intro hno
      have hlt : ∀ tid, tid < i ∧ t.TurnsAbort path tid ↔ tid < i + 1 ∧ t.TurnsAbort path tid := by
        intro tid
        constructor
        · exact fun h => ⟨by omega, h.2⟩
        · rintro ⟨h, hturn⟩
          rcases Nat.lt_succ_iff_lt_or_eq.1 h with h | rfl
          · exact ⟨h, hturn⟩
          · exact absurd hturn hno
      exact ⟨haborts.congr hlt, hb.trans (exists_congr hlt)⟩
    unfold abortOffPath
    by_cases hon : onPath path i = true
    · rw [if_pos hon]
      exact ⟨_, rfl, hskip fun h => by simp [TurnsAbort, hon] at h⟩
    · rw [if_neg hon]
      dsimp only
      by_cases habort : (t.txn i).status = .abort
      · have hsame : t1.changeTxnStatus i .abort = .ok (false, t1) := by
          unfold changeTxnStatus
          rw [if_neg (by simp), if_pos (hstatus.trans habort)]
        rw [hsame]
        refine ⟨(b || false, t1), rfl, ?_⟩
        dsimp only
        rw [Bool.or_false]
        exact hskip fun h => h.2.2 habort
      · have hturn : t.TurnsAbort path i := ⟨hi, by simpa using hon, habort⟩
        obtain ⟨t2, hchange, h2⟩ := changeTxnStatus_abort (t := t1) (by rwa [hstatus])
          ((ht.of_aborts haborts).stmts_ne_nil (by rw [haborts.transNum]; exact hi))
        rw [hchange]
        refine ⟨(b || true, t2), rfl, (haborts.trans h2 ?_).congr fun tid => ?_, ?_⟩
        · rintro tid ⟨htid, -⟩ rfl
          omega
        · constructor
          · rintro (⟨htid, h⟩ | rfl)
            · exact ⟨by omega, h⟩
            · exact ⟨by omega, hturn⟩
          · rintro ⟨htid, h⟩
            rcases Nat.lt_succ_iff_lt_or_eq.1 htid with htid | rfl
            · exact Or.inl ⟨htid, h⟩
            · exact Or.inr rfl
        · dsimp only
          rw [Bool.or_true]
          exact iff_of_true rfl ⟨i, by omega, hturn⟩
  obtain ⟨r, hr, haborts, hb⟩ := forRange_ok _ (s := (false, t))
    ⟨Aborts.none t fun _ h => absurd h.1 (by omega), by simp⟩ hstep
  have hlt : ∀ tid, tid < t.transNum ∧ t.TurnsAbort path tid ↔ t.TurnsAbort path tid :=
    fun tid => ⟨And.right, fun h => ⟨h.1, h⟩⟩
  exact ⟨r, hr, haborts.congr hlt, hb.trans (exists_congr hlt)⟩

end PlannedTest

end DbFuzz
