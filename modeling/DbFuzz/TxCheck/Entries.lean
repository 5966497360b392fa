import DbFuzz.TxCheck.Reschedule
import DbFuzz.TxCheck.Scheduling

/-! What a run of `multi_stmt_round_test` keeps of the entries of its queues. A condition on a
statement and its usage that is met by placeholders and by changed ends of a transaction holds
of every entry of every queue, whatever the server answers. -/

namespace DbFuzz

open Loop

/-- What no step changes. -/
structure RoundSetup where
  transNum : ℕ
  commitStmt : String
  abortStmt : String

variable {Val : Type}

/-- A condition on the entries that what is put in their place meets too. -/
structure EntryRule (env : RoundEnv Val) (w : RoundSetup) (E : Prod Val → StmtUsage → Prop) :
    Prop where
  skip : ∀ o u, E o u → E (.txnString spaceHolderStmt) (.mk' .initType u.isInstrumented)
  drop : ∀ o u, E o u →
    E (.txnString spaceHolderStmt) { u.assign .initType with isInstrumented := false }
  ends : ∀ o u, E o u →
    (isControl (env.print o) w.commitStmt || isControl (env.print o) w.abortStmt) = true →
    E (.txnString w.commitStmt) u ∧ E (.txnString w.abortStmt) u

/-- The instrumentor emits entries that meet the condition. -/
def EmitsEntries (env : RoundEnv Val) (E : Prod Val → StmtUsage → Prop) : Prop :=
  ∀ o u, E o u → u.isInstrumented = false → ∀ tid block,
    instrumentStmt env.instrument env.queryText tid o = .ok block → ∀ d ∈ block, E d.stmt d.usage

/-- The condition for a queue without instrumented entries. -/
def CleanEntry (E : Prod Val → StmtUsage → Prop) (o : Prod Val) (u : StmtUsage) : Prop :=
  E o u ∧ u.isInstrumented = false

theorem EntryRule.clean {env : RoundEnv Val} {w : RoundSetup} {E : Prod Val → StmtUsage → Prop}
    (h : EntryRule env w E) : EntryRule env w (CleanEntry E) where
  skip o u hE := ⟨h.skip o u hE.1, hE.2⟩
  drop o u hE := ⟨h.drop o u hE.1, rfl⟩
  ends o u hE hend := ⟨⟨(h.ends o u hE.1 hend).1, hE.2⟩, (h.ends o u hE.1 hend).2, hE.2⟩

namespace RoundTest

def setup (t : RoundTest Val) : RoundSetup :=
  ⟨t.planned.transNum, t.planned.plan.commitStmt, t.planned.plan.abortStmt⟩

/-- The two views of a statement agree, every transaction is to commit or to abort, and the
entries meet the condition. -/
structure QueueInv (env : RoundEnv Val) (w : RoundSetup) (E : Prod Val → StmtUsage → Prop)
    (t : RoundTest Val) : Prop where
  setup : t.setup = w
  printed : t.Printed env
  cast : ∀ i < t.planned.plan.stmtNum, t.planned.isTxnString i = (t.objects i).isTxnString
  status : ∀ tid < w.transNum, (t.planned.txn tid).status ≠ .notDefined
  entry : ∀ i < t.planned.plan.stmtNum, E (t.objects i) (t.planned.plan.stmtUse i)

variable {env : RoundEnv Val} {w : RoundSetup} {E E' : Prod Val → StmtUsage → Prop}
  {t t' t2 : RoundTest Val}

/-! The queue as a list. -/

theorem QueueInv.entry_mem (h : QueueInv env w E t) : ∀ e ∈ t.stmtQueue, E e.stmt e.usage := by
  intro e he
  obtain ⟨i, hi, rfl⟩ := List.mem_map.1 he
  exact h.entry i (List.mem_range.1 hi)

theorem QueueInv.mono (h : QueueInv env w E t) (hE : ∀ o u, E o u → E' o u) :
    QueueInv env w E' t :=
  { h with entry := fun i hi => hE _ _ (h.entry i hi) }

/-- A new queue with entries that meet a condition. -/
theorem QueueInv.setStmtQueue (h : QueueInv env w E t) {queue : List (Emitted Val)}
    (hqueue : ∀ e ∈ queue, E' e.stmt e.usage) : QueueInv env w E' (t.setStmtQueue env queue) where
  setup := h.setup
  printed _ _ := rfl
  cast _ _ := rfl
  status := h.status
  entry i hi := by
    have hi' : i < queue.length := hi
    have hget : queue.getD i ⟨.txnString "", 0, .mk' .initType false⟩ = queue[i] :=
      List.getD_eq_getElem _ _ hi'
    show E' (queue.getD i ⟨.txnString "", 0, .mk' .initType false⟩).stmt
      (queue.getD i ⟨.txnString "", 0, .mk' .initType false⟩).usage
    rw [hget]
    exact hqueue _ (List.getElem_mem hi')

theorem QueueInv.clearExecutionStatus (h : QueueInv env w E t) :
    QueueInv env w E t.clearExecutionStatus :=
  ⟨h.setup, h.printed, h.cast, h.status, h.entry⟩

theorem status_alignTxns (t : RoundTest Val) (tid : ℕ) :
    (t.alignTxns.planned.txn tid).status = (t.planned.txn tid).status := by
  rw [alignTxns_txn]
  split_ifs <;> rfl

theorem QueueInv.alignTxns (h : QueueInv env w E t) : QueueInv env w E t.alignTxns where
  setup := h.setup
  printed := h.printed
  cast := h.cast
  status tid htid := by
    rw [status_alignTxns]
    exact h.status tid htid
  entry := h.entry

/-! `clean_instrument` and `instrument_txn_stmts` -/

theorem QueueInv.cleanInstrument (h : QueueInv env w E t) :
    QueueInv env w (CleanEntry E) (t.cleanInstrument env) := by
  refine (h.setStmtQueue fun e he => ?_).alignTxns
  obtain ⟨hmem, hclean⟩ := List.mem_filter.1 he
  exact ⟨h.entry_mem e hmem, by simpa using hclean⟩

theorem QueueInv.instrumentTxnStmts_of (h : QueueInv env w E' t)
    (hemits : ∀ o u, E' o u → ∀ tid block,
      instrumentStmt env.instrument env.queryText tid o = .ok block → ∀ d ∈ block, E d.stmt d.usage)
    (hinst : t.instrumentTxnStmts env = .ok t') : QueueInv env w E t' := by
  obtain ⟨out, hout, hinst⟩ := bind_eq_ok_iff.1 hinst
  cases hinst
  refine (h.setStmtQueue fun d hd => ?_).alignTxns
  obtain ⟨hflat, hall⟩ := instrumentor_blockOf hout
  rw [hflat] at hd
  obtain ⟨e, he, hd⟩ := List.mem_flatMap.1 hd
  obtain ⟨block, hblock⟩ := hall e he
  rw [blockOf, hblock] at hd
  exact hemits e.stmt e.usage (h.entry_mem e he) e.tid block hblock d hd

theorem QueueInv.instrumentTxnStmts (h : QueueInv env w (CleanEntry E) t)
    (hemits : EmitsEntries env E) (hinst : t.instrumentTxnStmts env = .ok t') :
    QueueInv env w E t' :=
  h.instrumentTxnStmts_of (fun o u hE => hemits o u hE.1 hE.2) hinst

/-! `trans_test` and `block_scheduling` -/

/-- A run changes a status to abort or not at all. -/
theorem transTest_status_or {p : TestPlan} {s s' : TransTest} (hr : DbFuzz.transTest p s = .ok s')
    (tid : ℕ) : (s'.transArr tid).status = (s.transArr tid).status ∨
      (s'.transArr tid).status = .abort := by
  refine transTest_inv (P := fun u => (u.transArr tid).status = (s.transArr tid).status ∨
    (u.transArr tid).status = .abort) ⟨fun pos _ u e output u' hu hunit => ?_,
      fun u u' hsame hu => by rwa [hsame.status]⟩ (Or.inl rfl) hr
  obtain ⟨-, -, -, -, hstatus⟩ := transTestUnit_log hunit
  rw [hstatus]
  split_ifs
  · exact Or.inr rfl
  · exact hu

theorem QueueInv.transTest (h : QueueInv env w E t) (hrule : EntryRule env w E)
    (hclear : t.planned.test.Cleared) (hrun : t.transTest env = .ok t2) :
    QueueInv env w E t2 := by
  obtain ⟨hrun', hplan, hnum, hobjects⟩ := transTest_run hrun
  obtain ⟨order, res, hrec⟩ := transTest_record hclear hrun'
  have hflag : ∀ i, t2.planned.isTxnString i =
      (t.planned.isTxnString i || t2.planned.stmt i != t.planned.stmt i) := by
    obtain ⟨s, hs, hrun⟩ := bind_eq_ok_iff.1 hrun
    cases hrun
    exact fun _ => rfl
  refine ⟨?_, h.printed.transTest hrun, fun i hi => ?_, fun tid htid => ?_, fun i hi => ?_⟩
  · rw [← h.setup, RoundTest.setup, hplan, hnum]
    rfl
  · rw [hplan] at hi
    rw [hflag, hobjects]
    split_ifs with hsame
    · rw [bne_eq_false_iff_eq.2 hsame, Bool.or_false]
      exact h.cast i hi
    · rw [bne_iff_ne.2 hsame, Bool.or_true]
      rfl
  · rcases transTest_status_or hrun' tid with hst | hst
    · exact fun hnot => h.status tid htid (hst.symm.trans hnot)
    · exact fun hnot => by cases hst.symm.trans hnot
  · rw [hplan] at hi
    rw [hobjects, hplan]
    split_ifs with hsame
    · exact h.entry i hi
    · rcases hrec.queue i with hq | ⟨hcontrol, hq⟩
      · exact absurd hq hsame
      have hw : w.commitStmt = t.planned.plan.commitStmt ∧ w.abortStmt = t.planned.plan.abortStmt := by
        rw [← h.setup]
        exact ⟨rfl, rfl⟩
      have hend : (isControl (env.print (t.objects i)) w.commitStmt ||
          isControl (env.print (t.objects i)) w.abortStmt) = true := by
        rw [← h.printed i hi, hw.1, Bool.or_eq_true]
        exact Or.inl hcontrol
      have habort := (hrule.ends _ _ (h.entry i hi) hend).2
      rw [hw.2, ← hq] at habort
      exact habort

/-- The entry of the real queues for a planned statement, or a placeholder for a skipped one. -/
def realEntry (t t2 : RoundTest Val) (res : ℕ → Settled) (i : ℕ) : Emitted Val :=
  if (res i).skipped then ⟨.txnString spaceHolderStmt, t.planned.plan.tidQueue i,
    .mk' .initType (t.planned.plan.stmtUse i).isInstrumented⟩
  else ⟨t2.objects i, t.planned.plan.tidQueue i, t.planned.plan.stmtUse i⟩

/-- The real queues are the planned ones in the order of execution. -/
theorem realQueue_eq (hclear : t.planned.test.Cleared) (hrun : t.transTest env = .ok t2) :
    ∃ order res, RunRecord t.planned.plan t.planned.stmt t2.planned.test order res ∧
      t2.realQueue = order.map (t.realEntry t2 res) := by
  obtain ⟨hrun', hplan, -, -⟩ := transTest_run hrun
  obtain ⟨order, res, hrec⟩ := transTest_record hclear hrun'
  refine ⟨order, res, hrec, List.ext_getElem ?_ fun r hr hr' => ?_⟩
  · rw [realQueue, List.length_map, List.length_map, List.length_range, hrec.realTid,
      List.length_map]
  rw [List.length_map] at hr'
  simp only [realQueue, List.getElem_map, List.getElem_range]
  have hmem := List.mem_range.1 (hrec.perm.subset (List.getElem_mem hr'))
  have hlt : r < t.planned.plan.stmtNum := by rwa [← hrec.length_order]
  have hidx : t2.plannedIdx r = some order[r] := by
    have hof := hrec.ofQueue_real hlt
    rw [List.getD_eq_getElem _ _ hr'] at hof
    rw [plannedIdx, hplan, hof]
    exact transfer2StmtIdx_ofQueue (by simpa [TestPlan.tids] using hmem)
  have hget : ∀ {α : Type} (f : ℕ → α) (d : α), (order.map f).getD r d = f order[r] := by
    intro α f d
    rw [List.getD_eq_getElem _ _ (by simpa using hr'), List.getElem_map]
  have hsettled : (t2.planned.test.settled t2.planned.plan order[r]).any (·.skipped) =
      (res order[r]).skipped := by
    rw [hplan, hrec.settled _ hmem]
    rfl
  rw [hidx, hrec.realTid, hrec.realUsage, hrec.realStmt, hget, hget, hget]
  dsimp only
  rw [hsettled, Settled.usage, Settled.stmt, realEntry]
  cases hskip : (res order[r]).skipped with
  | false =>
    rw [if_neg Bool.false_ne_true, if_neg Bool.false_ne_true, if_neg Bool.false_ne_true]
    exact congrArg (Emitted.mk · _ _) (if_pos ⟨rfl, rfl⟩)
  | true =>
    rw [if_pos rfl, if_pos rfl, if_pos rfl]
    exact congrArg (Emitted.mk · _ _) (if_neg fun hand => Bool.true_eq_false.mp hand.2)

theorem QueueInv.again (h : QueueInv env w E t) (hrule : EntryRule env w E)
    (hclear : t.planned.test.Cleared) (hrun : t.transTest env = .ok t2) :
    QueueInv env w E (t2.again env) := by
  have h2 := h.transTest hrule hclear hrun
  obtain ⟨-, hplan, -, -⟩ := transTest_run hrun
  refine (h2.setStmtQueue fun e he => ?_).clearExecutionStatus
  obtain ⟨order, res, hrec, hreal⟩ := realQueue_eq hclear hrun
  rw [hreal] at he
  obtain ⟨i, hi, rfl⟩ := List.mem_map.1 he
  have hlt := List.mem_range.1 (hrec.perm.subset hi)
  unfold realEntry
  split_ifs
  · exact hrule.skip _ _ (h.entry i hlt)
  · rw [← hplan]
    exact h2.entry i (by rw [hplan]; exact hlt)

theorem QueueInv.blockScheduling (hrule : EntryRule env w E) (fuel : ℕ) : ∀ t t' : RoundTest Val,
    QueueInv env w E t → t.planned.test.Cleared → t.blockScheduling env fuel = .ok t' →
      QueueInv env w E t' ∧ t'.planned.test.Cleared := by
  induction fuel with
  | zero => intro t t' _ _ h; cases h
  | succ fuel ih =>
    intro t t' hinv hclear h
    obtain ⟨t2, hrun, h⟩ := bind_eq_ok_iff.1 h
    split at h
    · cases h
      exact ⟨(hinv.transTest hrule hclear hrun).clearExecutionStatus,
        cleared_clearExecutionStatus t2⟩
    · exact ih _ t' (hinv.again hrule hclear hrun) (cleared_clearExecutionStatus _) h

end RoundTest

/-! The invariant rule of `refine_stmt_queue`. -/

namespace PlannedTest

/-- The queue has the places of another one. -/
structure SamePlaces (t p : PlannedTest) : Prop where
  transNum : p.transNum = t.transNum
  stmtNum : p.plan.stmtNum = t.plan.stmtNum
  tidQueue : p.plan.tidQueue = t.plan.tidQueue

theorem SamePlaces.refl (t : PlannedTest) : SamePlaces t t := ⟨rfl, rfl, rfl⟩

theorem SamePlaces.placeHolders {t p : PlannedTest} (h : SamePlaces t p) (changeSet : Finset ℕ) :
    SamePlaces t (p.placeHolders changeSet) :=
  ⟨h.transNum, h.stmtNum, h.tidQueue⟩

/-- A condition that the three loops keep; its argument says whether something was changed. -/
structure RefineRule (t : PlannedTest) (q : AnalyzedQueue) (g : StmtGraph) (path : List StmtId)
    (P : Bool → PlannedTest → Prop) : Prop where
  places : ∀ b p, P b p → SamePlaces t p
  copy : ∀ b p tid pos text, P b p →
    P b (p.setTxn tid fun x => { x with stmts := x.stmts.set pos text })
  abort : ∀ b p tid b' p', P b p → tid < t.transNum → onPath path tid = false →
    p.changeTxnStatus tid .abort = .ok (b', p') → P (b || b') p'
  drop : ∀ b p i, P b p → i < t.plan.stmtNum → onPath path (t.plan.tidQueue i) = true →
    t.sid i ∉ path → p.isTxnStmt i = false → (p.use i).isInstrumented = false →
    i ∈ q.stmtSet g i → P true (p.placeHolders (q.stmtSet g i))

variable {t : PlannedTest} {q : AnalyzedQueue} {g : StmtGraph} {path : List StmtId}
  {P : Bool → PlannedTest → Prop}

theorem copyTxnStmt_rule (hP : RefineRule t q g path P) {b : Bool} {i : ℕ}
    {s s' : (ℕ → ℕ) × PlannedTest} (h0 : P b s.2) (h : copyTxnStmt i s = .ok s') : P b s'.2 := by
  unfold copyTxnStmt at h
  dsimp only at h
  split_ifs at h
  · cases h
    exact hP.copy b s.2 _ _ _ h0
  · cases h
    exact h0

/-- The third loop counts the statements of the transactions on the path. -/
structure RefineInv (t : PlannedTest) (g : StmtGraph) (path : List StmtId)
    (P : Bool → PlannedTest → Prop) (i : ℕ) (s : Refining) : Prop where
  inv : P s.isRefined s.test
  graph : AnalyzedQueue.SameLabels g s.graph
  pos : ∀ tid, onPath path tid = true → s.stmtPosOfTxn tid = posOf t.plan i tid

theorem refineRound_rule (hP : RefineRule t q g path P) {i : ℕ} (hi : i < t.plan.stmtNum)
    {s s' : Refining} (h0 : RefineInv t g path P i s) (h : refineRound q path i s = .ok s') :
    RefineInv t g path P (i + 1) s' := by
  have hplaces := hP.places _ _ h0.inv
  unfold refineRound at h
  rw [hplaces.tidQueue] at h
  dsimp only at h
  by_cases hon : onPath path (t.plan.tidQueue i) = true
  · have hpos : ∀ tid, onPath path tid = true → Function.update s.stmtPosOfTxn (t.plan.tidQueue i)
        (s.stmtPosOfTxn (t.plan.tidQueue i) + 1) tid = posOf t.plan (i + 1) tid := by
      intro tid htid
      rw [Function.update_apply, posOf_succ]
      by_cases he : tid = t.plan.tidQueue i
      · rw [if_pos he, if_pos he.symm, he, h0.pos _ hon]
      · rw [if_neg he, if_neg fun h' => he h'.symm, h0.pos _ htid]
    rw [if_neg (by simp [hon])] at h
    split_ifs at h with hmem hcast hinst
    · cases h
      exact ⟨h0.inv, h0.graph, hpos⟩
    · cases h
      exact ⟨h0.inv, h0.graph, hpos⟩
    · cases h
      exact ⟨h0.inv, h0.graph, hpos⟩
    · obtain ⟨⟨g', changeSet⟩, hset, h⟩ := bind_eq_ok_iff.1 h
      cases h
      have hchange : q.stmtSet g i = changeSet := by
        rw [← h0.graph.stmtSet_eq, AnalyzedQueue.stmtSet, hset]
      have hsid : t.sid i ∉ path := by
        rw [sid_eq t hi, ← h0.pos _ hon]
        exact hmem
      have hdrop := hP.drop _ s.test i h0.inv hi hon hsid (by simpa using hcast)
        (by simpa using hinst) (by rw [hchange]; exact AnalyzedQueue.mem_getInstrumentedStmtSet hset)
      rw [hchange] at hdrop
      exact ⟨hdrop, h0.graph.trans (AnalyzedQueue.getInstrumentedStmtSet_sameLabels hset), hpos⟩
  · rw [if_pos (by simpa using hon)] at h
    cases h
    refine ⟨h0.inv, h0.graph, fun tid htid => ?_⟩
    have hne : t.plan.tidQueue i ≠ tid := fun he => hon (by rw [he]; exact htid)
    rw [posOf_succ, if_neg hne, h0.pos tid htid]

theorem refineStmtQueue_rule {t' : PlannedTest} (hP : RefineRule t q g path P)
    {g' : StmtGraph} {b : Bool} (h0 : P false t)
    (h : t.refineStmtQueue q g path = .ok (b, g', t')) :
    ∃ t1, P b t1 ∧ t' = if b then t1.clearExecutionStatus else t1 := by
  obtain ⟨⟨pos, t1⟩, hcopy, h⟩ := bind_eq_ok_iff.1 h
  obtain ⟨⟨b2, t2⟩, habort, h⟩ := bind_eq_ok_iff.1 h
  obtain ⟨s, hdrop, h⟩ := bind_eq_ok_iff.1 h
  have h1 : P false t1 := forRange_inv (fun _ s => P false s.2) h0
    (fun i _ s s' hs hround => copyTxnStmt_rule hP hs hround) hcopy
  have h2 : P b2 t2 := by
    refine forRange_inv (fun _ (s : Bool × PlannedTest) => P s.1 s.2) h1
      (fun tid htid s s' hs hround => ?_) habort
    rw [(hP.places _ _ h1).transNum] at htid
    unfold abortOffPath at hround
    split_ifs at hround with hpath
    · cases hround
      exact hs
    · obtain ⟨⟨b', p'⟩, hchange, hround⟩ := bind_eq_ok_iff.1 hround
      cases hround
      exact hP.abort _ _ tid b' p' hs htid (by simpa using hpath) hchange
  have h3 : P s.isRefined s.test := by
    refine (forRange_inv (RefineInv t g path P) ⟨h2, AnalyzedQueue.SameLabels.refl g, fun _ _ => rfl⟩
      (fun i hi s s' hs hround => ?_) hdrop).inv
    rw [(hP.places _ _ h2).stmtNum] at hi
    exact refineRound_rule hP hi hs hround
  cases hb : s.isRefined with
  | false =>
    rw [hb] at h h3
    cases h
    exact ⟨_, h3, rfl⟩
  | true =>
    rw [hb] at h h3
    cases h
    exact ⟨_, h3, rfl⟩

/-! `change_txn_status` -/

/-- The statement that ends a transaction of the status. -/
def endStmt (t : PlannedTest) (status : TxnStatus) : String :=
  if status = .abort then t.plan.abortStmt else t.plan.commitStmt

/-- The target gets the status, its last statement is replaced, and so are its commit or abort
statements in the queue. -/
structure StatusChanged (t t' : PlannedTest) (target : ℕ) (status : TxnStatus) : Prop where
  plan : t'.plan = t.plan
  transNum : t'.transNum = t.transNum
  txn : ∀ u, t'.txn u = if u = target then
    { t.txn target with status := status, stmts := (t.txn target).stmts.dropLast ++ [t.endStmt status] }
    else t.txn u
  replaced : ∀ k, k < t.plan.stmtNum ∧ t.plan.tidQueue k = target ∧ t.plan.endsTxn (t.stmt k) →
    t'.stmt k = t.endStmt status ∧ t'.isTxnString k = true
  kept : ∀ k, ¬(k < t.plan.stmtNum ∧ t.plan.tidQueue k = target ∧ t.plan.endsTxn (t.stmt k)) →
    t'.stmt k = t.stmt k ∧ t'.isTxnString k = t.isTxnString k

theorem StatusChanged.samePlaces {t0 t t' : PlannedTest} {target : ℕ} {status : TxnStatus}
    (h : StatusChanged t t' target status) (h0 : SamePlaces t0 t) : SamePlaces t0 t' := by
  refine ⟨h.transNum.trans h0.transNum, ?_, ?_⟩
  · rw [h.plan, h0.stmtNum]
  · rw [h.plan, h0.tidQueue]

theorem changeTxnStatus_spec {t t' : PlannedTest} {target : ℕ} {status : TxnStatus} {b : Bool}
    (h : t.changeTxnStatus target status = .ok (b, t')) :
    (status = .abort ∨ status = .commit) ∧
      (b = false ∧ (t.txn target).status = status ∧ t' = t ∨
        b = true ∧ (t.txn target).status ≠ status ∧ (t.txn target).stmts ≠ [] ∧
          StatusChanged t t' target status) := by
  unfold changeTxnStatus at h
  by_cases hlegal : status ≠ .abort ∧ status ≠ .commit
  · rw [if_pos hlegal] at h
    cases h
  rw [if_neg hlegal] at h
  refine ⟨by tauto, ?_⟩
  by_cases hsame : (t.txn target).status = status
  · rw [if_pos hsame] at h
    cases h
    exact Or.inl ⟨rfl, hsame, rfl⟩
  rw [if_neg hsame] at h
  by_cases hstmts : (t.txn target).stmts = []
  · rw [if_pos hstmts] at h
    cases h
  rw [if_neg hstmts] at h
  cases h
  obtain ⟨hplan, hnum, htxn, hall⟩ := foldl_replaceEnd (t.setTxn target fun x =>
    { x with status := status, stmts := x.stmts.dropLast ++ [t.endStmt status] }) target
      (t.endStmt status) t.plan.stmtNum
  refine Or.inr ⟨rfl, hsame, hstmts, hplan, hnum, fun u => ?_, fun k => (hall k).1,
    fun k => (hall k).2⟩
  have hu := congrFun htxn u
  rw [setTxn_txn] at hu
  exact hu

end PlannedTest

namespace RoundTest

variable {env : RoundEnv Val} {w : RoundSetup} {E E' : Prod Val → StmtUsage → Prop}
  {t t' t2 : RoundTest Val}

theorem QueueInv.words (h : QueueInv env w E t) :
    w.commitStmt = t.planned.plan.commitStmt ∧ w.abortStmt = t.planned.plan.abortStmt := by
  rw [← h.setup]
  exact ⟨rfl, rfl⟩

/-! `refine_stmt_queue` and the restored queue -/

/-- A statement that is a `txn_string_stmt` is its text. -/
theorem withPlanned_txnString (h : QueueInv env w E t) {planned : PlannedTest} {k : ℕ}
    (hk : k < t.planned.plan.stmtNum) (hflag : planned.isTxnString k = true) :
    (t.withPlanned planned).objects k = .txnString (planned.stmt k) := by
  show (if planned.stmt k = t.planned.stmt k ∧ planned.isTxnString k = t.planned.isTxnString k then
    t.objects k else .txnString (planned.stmt k)) = _
  split_ifs with hsame
  · have hcast : (t.objects k).isTxnString = true := by
      rw [← h.cast k hk, ← hsame.2, hflag]
    have hprint := h.printed k hk
    rw [← hsame.1] at hprint
    cases ho : t.objects k with
    | txnString text =>
      rw [ho] at hprint
      rw [hprint]
      rfl
    | rowWrite _ => rw [ho] at hcast; cases hcast
    | insert _ => rw [ho] at hcast; cases hcast
    | query _ => rw [ho] at hcast; cases hcast
    | other _ => rw [ho] at hcast; cases hcast
  · rfl

/-- A step that keeps an entry or makes it a `txn_string_stmt`, and sets statuses. -/
structure Rewrites (w : RoundSetup) (E : Prod Val → StmtUsage → Prop) (p p' : PlannedTest) :
    Prop where
  stmtNum : p'.plan.stmtNum = p.plan.stmtNum
  words : p'.plan.commitStmt = p.plan.commitStmt ∧ p'.plan.abortStmt = p.plan.abortStmt
  transNum : p'.transNum = p.transNum
  status : ∀ tid, (p'.txn tid).status = (p.txn tid).status ∨ (p'.txn tid).status ≠ .notDefined
  entry : ∀ k < p.plan.stmtNum,
    p'.stmt k = p.stmt k ∧ p'.isTxnString k = p.isTxnString k ∧ p'.use k = p.use k ∨
      p'.isTxnString k = true ∧ E (.txnString (p'.stmt k)) (p'.use k)

theorem QueueInv.rewrites {p p' : PlannedTest} (h : QueueInv env w E t)
    (hnum : p.plan.stmtNum = t.planned.plan.stmtNum) (hp : QueueInv env w E (t.withPlanned p))
    (hstep : Rewrites w E p p') : QueueInv env w E (t.withPlanned p') := by
  have hobject : ∀ k < t.planned.plan.stmtNum,
      (p'.stmt k = p.stmt k ∧ p'.isTxnString k = p.isTxnString k ∧ p'.use k = p.use k ∧
        (t.withPlanned p').objects k = (t.withPlanned p).objects k) ∨
      p'.isTxnString k = true ∧ E (.txnString (p'.stmt k)) (p'.use k) ∧
        (t.withPlanned p').objects k = .txnString (p'.stmt k) := by
    intro k hk
    rcases hstep.entry k (by rw [hnum]; exact hk) with ⟨hs, hf, hu⟩ | ⟨hf, hE⟩
    · refine Or.inl ⟨hs, hf, hu, ?_⟩
      show (if p'.stmt k = t.planned.stmt k ∧ p'.isTxnString k = t.planned.isTxnString k then
        t.objects k else .txnString (p'.stmt k)) = _
      rw [hs, hf]
      rfl
    · exact Or.inr ⟨hf, hE, withPlanned_txnString h hk hf⟩
  have hnum' : (t.withPlanned p').planned.plan.stmtNum = t.planned.plan.stmtNum :=
    hstep.stmtNum.trans hnum
  refine ⟨?_, fun k hk => ?_, fun k hk => ?_, fun tid htid => ?_, fun k hk => ?_⟩
  · rw [← hp.setup]
    show RoundSetup.mk p'.transNum p'.plan.commitStmt p'.plan.abortStmt =
      ⟨p.transNum, p.plan.commitStmt, p.plan.abortStmt⟩
    rw [hstep.transNum, hstep.words.1, hstep.words.2]
  · rw [hnum'] at hk
    rcases hobject k hk with ⟨hs, -, -, ho⟩ | ⟨-, -, ho⟩
    · rw [ho]
      exact hs.trans (hp.printed k (by show k < p.plan.stmtNum; rw [hnum]; exact hk))
    · rw [ho]
      rfl
  · rw [hnum'] at hk
    rcases hobject k hk with ⟨-, hf, -, ho⟩ | ⟨hf, -, ho⟩
    · rw [ho]
      exact hf.trans (hp.cast k (by show k < p.plan.stmtNum; rw [hnum]; exact hk))
    · rw [ho]
      exact hf
  · rcases hstep.status tid with hst | hst
    · exact fun hnot => hp.status tid htid (hst.symm.trans hnot)
    · exact hst
  · rw [hnum'] at hk
    rcases hobject k hk with ⟨-, -, hu, ho⟩ | ⟨-, hE, ho⟩
    · rw [ho]
      show E _ (p'.use k)
      rw [hu]
      exact hp.entry k (by show k < p.plan.stmtNum; rw [hnum]; exact hk)
    · rw [ho]
      exact hE

theorem withPlanned_self (t : RoundTest Val) : t.withPlanned t.planned = t := by
  unfold withPlanned
  simp

theorem rewrites_setTxn (p : PlannedTest) (tid : ℕ) (f : Transaction → Transaction)
    (hf : (f (p.txn tid)).status = (p.txn tid).status ∨ (f (p.txn tid)).status ≠ .notDefined) :
    Rewrites w E p (p.setTxn tid f) where
  stmtNum := rfl
  words := ⟨rfl, rfl⟩
  transNum := rfl
  status u := by
    rw [PlannedTest.setTxn_txn]
    split_ifs with hu
    · exact hu ▸ hf
    · exact Or.inl rfl
  entry _ _ := Or.inl ⟨rfl, rfl, rfl⟩

theorem rewrites_changeTxnStatus {p p' : PlannedTest} {tid : ℕ} {status : TxnStatus} {b : Bool}
    (hrule : EntryRule env w E) (hp : QueueInv env w E (t.withPlanned p))
    (h : p.changeTxnStatus tid status = .ok (b, p')) : Rewrites w E p p' := by
  obtain ⟨hlegal, ⟨-, -, rfl⟩ | ⟨-, -, -, hchanged⟩⟩ := PlannedTest.changeTxnStatus_spec h
  · exact ⟨rfl, ⟨rfl, rfl⟩, rfl, fun _ => Or.inl rfl, fun _ _ => Or.inl ⟨rfl, rfl, rfl⟩⟩
  refine ⟨?_, ?_, hchanged.transNum, fun u => ?_, fun k hk => ?_⟩
  · rw [hchanged.plan]
  · rw [hchanged.plan]
    exact ⟨rfl, rfl⟩
  · rw [hchanged.txn]
    split_ifs
    · right
      rcases hlegal with rfl | rfl <;> simp
    · exact Or.inl rfl
  · have huse : p'.use k = p.use k := by rw [PlannedTest.use, hchanged.plan, PlannedTest.use]
    by_cases hend : k < p.plan.stmtNum ∧ p.plan.tidQueue k = tid ∧ p.plan.endsTxn (p.stmt k) = true
    · obtain ⟨hs, hf⟩ := hchanged.replaced k hend
      refine Or.inr ⟨hf, ?_⟩
      rw [hs, huse]
      have hprint : p.stmt k = env.print ((t.withPlanned p).objects k) := hp.printed k hk
      obtain ⟨hcommit, habort⟩ := hrule.ends _ _ (hp.entry k hk) (by
        rw [← hprint, hp.words.1, hp.words.2]
        exact hend.2.2)
      rw [hp.words.1] at hcommit
      rw [hp.words.2] at habort
      unfold PlannedTest.endStmt
      split_ifs
      · exact habort
      · exact hcommit
    · obtain ⟨hs, hf⟩ := hchanged.kept k hend
      exact Or.inl ⟨hs, hf, huse⟩

theorem rewrites_placeHolders {p : PlannedTest} (hrule : EntryRule env w E)
    (hp : QueueInv env w E (t.withPlanned p)) (changeSet : Finset ℕ) :
    Rewrites w E p (p.placeHolders changeSet) where
  stmtNum := rfl
  words := ⟨rfl, rfl⟩
  transNum := rfl
  status _ := Or.inl rfl
  entry k hk := by
    by_cases hmem : k ∈ changeSet
    · have huse : (p.placeHolders changeSet).use k =
          { (p.use k).assign .initType with isInstrumented := false } := if_pos hmem
      have hs : (p.placeHolders changeSet).stmt k = spaceHolderStmt := if_pos hmem
      refine Or.inr ⟨if_pos hmem, ?_⟩
      rw [huse, hs]
      exact hrule.drop _ _ (hp.entry k hk)
    · obtain ⟨hf, hu, hs⟩ := p.placeHolders_kept hmem
      exact Or.inl ⟨hs, hf, hu⟩

/-- The invariant holds of the test with the statements as the call has left them. -/
theorem QueueInv.refineRule (h : QueueInv env w E t) (hrule : EntryRule env w E)
    (q : AnalyzedQueue) (g : StmtGraph) (path : List StmtId) :
    PlannedTest.RefineRule t.planned q g path fun _ p =>
      PlannedTest.SamePlaces t.planned p ∧ QueueInv env w E (t.withPlanned p) where
  places _ _ hp := hp.1
  copy b p tid pos text hp := ⟨⟨hp.1.transNum, hp.1.stmtNum, hp.1.tidQueue⟩,
    h.rewrites hp.1.stmtNum hp.2 (rewrites_setTxn p tid _ (Or.inl rfl))⟩
  abort b p tid b' p' hp _ _ hchange := by
    refine ⟨?_, h.rewrites hp.1.stmtNum hp.2 (rewrites_changeTxnStatus hrule hp.2 hchange)⟩
    obtain ⟨-, ⟨-, -, rfl⟩ | ⟨-, -, -, hchanged⟩⟩ := PlannedTest.changeTxnStatus_spec hchange
    · exact hp.1
    · exact hchanged.samePlaces hp.1
  drop b p i hp _ _ _ _ _ _ := ⟨hp.1.placeHolders _,
    h.rewrites hp.1.stmtNum hp.2 (rewrites_placeHolders hrule hp.2 _)⟩

theorem QueueInv.refineStmtQueue (h : QueueInv env w E t) (hrule : EntryRule env w E)
    {q : AnalyzedQueue} {g g' : StmtGraph} {path : List StmtId} {b : Bool} {planned : PlannedTest}
    (hrefine : t.planned.refineStmtQueue q g path = .ok (b, g', planned)) :
    QueueInv env w E (t.withPlanned planned) := by
  obtain ⟨p, ⟨-, hp⟩, rfl⟩ := PlannedTest.refineStmtQueue_rule (h.refineRule hrule q g path)
    ⟨.refl _, by rw [withPlanned_self]; exact h⟩ hrefine
  split_ifs
  · exact ⟨hp.setup, hp.printed, hp.cast, hp.status, hp.entry⟩
  · exact hp

/-- A round of the loop that restores the transactions. -/
theorem QueueInv.restoreTxn (h : QueueInv env w E t) (hrule : EntryRule env w E) {tid : ℕ}
    {stmts : List String} {status : TxnStatus} {b : Bool} {planned : PlannedTest}
    (hchange : (t.planned.setTxn tid fun x => { x with stmts := stmts }).changeTxnStatus tid status =
      .ok (b, planned)) :
    QueueInv env w E (t.withPlanned planned) := by
  have h1 : QueueInv env w E
      (t.withPlanned (t.planned.setTxn tid fun x => { x with stmts := stmts })) :=
    h.rewrites rfl (by rw [withPlanned_self]; exact h) (rewrites_setTxn _ _ _ (Or.inl rfl))
  have hnum : (t.planned.setTxn tid fun x => { x with stmts := stmts }).plan.stmtNum =
      t.planned.plan.stmtNum := rfl
  exact h.rewrites hnum h1 (rewrites_changeTxnStatus hrule h1 hchange)

end RoundTest

/-! The whole run. -/

section Run

variable {env : RoundEnv Val} {w : RoundSetup} {E : Prod Val → StmtUsage → Prop}
  {fuel : ℕ} {deletedNodes : Finset StmtId}

namespace RefineState

variable {r r' s s' : RefineState Val}

theorem queueInv_refine (hrule : EntryRule env w E) (hr : r.test.QueueInv env w E) {b : Bool}
    (h : r.refineStmtQueue = .ok (b, s)) : s.test.QueueInv env w E := by
  obtain ⟨q, g, g', planned, hrefine, htest, -⟩ := refineStmtQueue_spec h
  have hinv := hr.refineStmtQueue hrule hrefine
  rw [htest]
  split_ifs
  · exact hinv.clearExecutionStatus
  · exact hinv

/-- The queues of a reschedule, one after the other. -/
theorem reschedule_queues (hrule : EntryRule env w E) (hemits : EmitsEntries env E)
    (hs : s.test.QueueInv env w E) (hclear : s.test.planned.test.Cleared)
    (h : s.reschedule env fuel = .ok s') : ∃ t1 after g t3,
      (s.test.cleanInstrument env).blockScheduling env fuel = .ok t1 ∧
      t1.QueueInv env w (CleanEntry E) ∧
      inferInstrument s.initDa.da.queue s.test.stmtQueue [] t1.stmtQueue s.initDa.graph =
        .ok (after, g) ∧
      (t1.setStmtQueue env after).QueueInv env w (CleanEntry E) ∧
      (t1.setStmtQueue env after).instrumentTxnStmts env = .ok t3 ∧
      t3.QueueInv env w E ∧ t3.planned.test.Cleared ∧ s'.test = t3 := by
  obtain ⟨t1, hsched, h⟩ := bind_eq_ok_iff.1 h
  obtain ⟨⟨after, g⟩, hinfer, h⟩ := bind_eq_ok_iff.1 h
  obtain ⟨t3, hinst, h⟩ := bind_eq_ok_iff.1 h
  cases h
  have hclean : (s.test.cleanInstrument env).planned.test.Cleared :=
    RoundTest.cleared_cleanInstrument hclear
  obtain ⟨h1, hclear1⟩ := RoundTest.QueueInv.blockScheduling hrule.clean fuel _ _
    hs.cleanInstrument hclean hsched
  have h2 : (t1.setStmtQueue env after).QueueInv env w (CleanEntry E) :=
    h1.setStmtQueue fun e he => h1.entry_mem e (mem_inferInstrument hinfer e he)
  have hclear3 : t3.planned.test.Cleared :=
    RoundTest.cleared_instrumentTxnStmts (RoundTest.cleared_setStmtQueue hclear1 _) hinst
  exact ⟨t1, after, g, t3, hsched, h1, hinfer, h2, hinst, h2.instrumentTxnStmts hemits hinst,
    hclear3, rfl⟩

theorem queueInv_rerun (hrule : EntryRule env w E) (hemits : EmitsEntries env E)
    (hs : s.test.QueueInv env w E) (hclear : s.test.planned.test.Cleared)
    {exit : Option RefineExit} (h : s.rerun env fuel deletedNodes = .ok (exit, s')) :
    s'.test.QueueInv env w E := by
  obtain ⟨s1, hsched, h⟩ := bind_eq_ok_iff.1 h
  obtain ⟨test, hrun, h⟩ := bind_eq_ok_iff.1 h
  obtain ⟨t1, after, g, t3, -, -, -, -, -, h3, hclear3, htest⟩ :=
    reschedule_queues hrule hemits hs hclear hsched
  rw [htest] at hrun
  have hinv := h3.transTest hrule hclear3 hrun
  dsimp only at h
  split at h
  · cases h
    exact hinv
  · obtain ⟨⟨bug, da⟩, -, h⟩ := bind_eq_ok_iff.1 h
    cases bug with
    | true => cases h
    | false =>
      obtain ⟨sort, -, h⟩ := bind_eq_ok_iff.1 h
      cases h
      exact hinv

theorem Iterates.queueInv (hrule : EntryRule env w E) (hemits : EmitsEntries env E)
    (hr : r.test.QueueInv env w E) (h : Iterates env deletedNodes r r') :
    r'.test.QueueInv env w E := by
  induction h with
  | refl => exact hr
  | tail _ hstep ih =>
    obtain ⟨s, k, hrefine, hrerun⟩ := hstep
    exact queueInv_rerun hrule hemits (queueInv_refine hrule ih hrefine) (cleared_refine hrefine)
      hrerun

theorem queueInv_loop (hrule : EntryRule env w E) (hemits : EmitsEntries env E)
    (hr : r.test.QueueInv env w E) {exit : RefineExit}
    (h : loop env deletedNodes fuel r = .ok (exit, r')) : r'.test.QueueInv env w E := by
  obtain ⟨r1, hiter, ⟨-, hrefine⟩ | ⟨s, k, hrefine, hrerun⟩⟩ := loop_exit h
  · exact queueInv_refine hrule (hiter.queueInv hrule hemits hr) hrefine
  · exact queueInv_rerun hrule hemits
      (queueInv_refine hrule (hiter.queueInv hrule hemits hr) hrefine) (cleared_refine hrefine)
      hrerun

end RefineState

/-! The rounds. -/

variable {init : InitStatus Val} {s0 s s' : RoundState Val} {t t' : RoundTest Val}
  {paths : List (List StmtId)}

theorem normalStmtTest_queueInv {path : List StmtId} (ht : t.QueueInv env w E)
    (h : t.normalStmtTest env path = .ok t') : t'.QueueInv env w E := by
  obtain ⟨t1, hloop, h⟩ := bind_eq_ok_iff.1 h
  cases h
  have h1 : t1.QueueInv env w E := by
    refine forEach_inv (fun t => t.QueueInv env w E) ht (fun s _ t t' ht hround => ?_) hloop
    obtain ⟨_, -, hround⟩ := bind_eq_ok_iff.1 hround
    cases hround
    exact ⟨ht.setup, ht.printed, ht.cast, ht.status, ht.entry⟩
  exact ⟨h1.setup, h1.printed, h1.cast, h1.status, h1.entry⟩

theorem restore_queueInv (hrule : EntryRule env w E)
    (hinit : ∀ e ∈ init.stmtQueue, E e.stmt e.usage) (ht : t.QueueInv env w E)
    (h : restore env init t = .ok t') : t'.QueueInv env w E := by
  refine forRange_inv (fun _ t => t.QueueInv env w E) (ht.setStmtQueue hinit)
    (fun tid _ t t' ht hround => ?_) h
  obtain ⟨⟨b, planned⟩, hchange, hround⟩ := bind_eq_ok_iff.1 hround
  cases hround
  exact ht.restoreTxn hrule hchange

/-- The next round starts from a restored queue. -/
theorem multiStmtRound_restored (hrule : EntryRule env w E) (hemits : EmitsEntries env E)
    (hs : s.test.QueueInv env w E) (h : multiStmtRound env init fuel s = .ok (.next s')) :
    ∃ t, t.QueueInv env w E ∧ restore env init t = .ok s'.test := by
  obtain ⟨loopEnd, hloop, h⟩ := bind_eq_ok_iff.1 h
  cases loopEnd with
  | none => cases h
  | some loopEnd =>
    obtain ⟨exit, r⟩ := loopEnd
    obtain ⟨v, hv, h⟩ := bind_eq_ok_iff.1 h
    cases v with
    | none => cases h
    | some v =>
      obtain ⟨b, t⟩ := v
      cases b with
      | false => cases h
      | true =>
        obtain ⟨d, -, h⟩ := bind_eq_ok_iff.1 h
        obtain ⟨t', hrestore, h⟩ := bind_eq_ok_iff.1 h
        cases h
        obtain ⟨sort, -, -, hrun⟩ := refineRounds_spec hloop
        have hr : r.test.QueueInv env w E := RefineState.queueInv_loop hrule hemits hs hrun
        refine ⟨t, ?_, hrestore⟩
        unfold checkRound at hv
        split at hv
        · cases hv
        · obtain ⟨t1, hnormal, hv⟩ := bind_eq_ok_iff.1 hv
          obtain ⟨b, -, hv⟩ := bind_eq_ok_iff.1 hv
          cases hv
          exact normalStmtTest_queueInv hr hnormal

theorem multiStmtRound_queueInv (hrule : EntryRule env w E) (hemits : EmitsEntries env E)
    (hinit : ∀ e ∈ init.stmtQueue, E e.stmt e.usage) (hs : s.test.QueueInv env w E)
    (h : multiStmtRound env init fuel s = .ok (.next s')) : s'.test.QueueInv env w E := by
  obtain ⟨t, ht, hrestore⟩ := multiStmtRound_restored hrule hemits hs h
  exact restore_queueInv hrule hinit ht hrestore

theorem Rounds.queueInv {P : RoundState Val → Prop} (hrule : EntryRule env w E)
    (hemits : EmitsEntries env E) (hinit : ∀ e ∈ init.stmtQueue, E e.stmt e.usage)
    (h0 : s0.test.QueueInv env w E) (h : Rounds env init fuel P s0 s paths) :
    s.test.QueueInv env w E := by
  induction h with
  | start => exact h0
  | next _ _ _ hround ih => exact multiStmtRound_queueInv hrule hemits hinit ih hround

/-- A test as `multi_stmt_round_test` is called with: nothing has run, and every transaction
is to commit or to abort. -/
structure RoundTest.Called (env : RoundEnv Val) (t : RoundTest Val) : Prop where
  printed : t.Printed env
  cast : ∀ i < t.planned.plan.stmtNum, t.planned.isTxnString i = (t.objects i).isTxnString
  status : ∀ tid < t.planned.transNum, (t.planned.txn tid).status ≠ .notDefined
  cleared : t.planned.test.Cleared

theorem RoundTest.Called.queueInv (h : t.Called env) {E0 : Prod Val → StmtUsage → Prop}
    (hE0 : ∀ e ∈ t.stmtQueue, E0 e.stmt e.usage) : t.QueueInv env t.setup E0 :=
  ⟨rfl, h.printed, h.cast, h.status, fun i hi =>
    hE0 ⟨t.objects i, t.planned.plan.tidQueue i, t.planned.plan.stmtUse i⟩
      (List.mem_map.2 ⟨i, List.mem_range.2 hi, rfl⟩)⟩

theorem called_generated (transNum : ℕ) (queue : List (Prod ℕ × ℕ)) (answers : List TestResult)
    (normalAnswers : List TestResult) :
    (generatedTest transNum queue answers).Called (emptyDatabase normalAnswers) := by
  refine ⟨fun _ _ => rfl, fun _ _ => rfl, fun tid _ => ?_, cleared_generated _ _ _⟩
  unfold generatedTest
  rw [RoundTest.status_alignTxns]
  exact TxnStatus.noConfusion

theorem firstAnalysis_queueInv {E0 : Prod Val → StmtUsage → Prop} (hrule0 : EntryRule env w E0)
    (hrule : EntryRule env w E)
    (hemits : ∀ o u, E0 o u → ∀ tid block,
      instrumentStmt env.instrument env.queryText tid o = .ok block → ∀ d ∈ block, E d.stmt d.usage)
    (ht : t.QueueInv env w E0) (hclear : t.planned.test.Cleared)
    (h : firstAnalysis env fuel t = .ok (some (init, s0))) :
    s0.test.QueueInv env w E ∧ ∀ e ∈ init.stmtQueue, E e.stmt e.usage := by
  obtain ⟨t1, hsched, h⟩ := bind_eq_ok_iff.1 h
  obtain ⟨t2, hinst, h⟩ := bind_eq_ok_iff.1 h
  obtain ⟨t3, hrun, h⟩ := bind_eq_ok_iff.1 h
  split_ifs at h with hhigh
  · cases h
  obtain ⟨⟨bug, da⟩, -, h⟩ := bind_eq_ok_iff.1 h
  cases bug with
  | true => cases h
  | false =>
    cases h
    obtain ⟨h1, hclear1⟩ := RoundTest.QueueInv.blockScheduling hrule0 fuel _ _ ht hclear hsched
    have hfilter : (t1.setStmtQueue env (t1.stmtQueue.filter fun e =>
        !isSpaceHolder (env.print e.stmt))).QueueInv env w E0 :=
      h1.setStmtQueue fun e he => h1.entry_mem e (List.mem_filter.1 he).1
    have h2 : t2.QueueInv env w E := hfilter.instrumentTxnStmts_of hemits hinst
    have hclear2 : t2.planned.test.Cleared :=
      RoundTest.cleared_instrumentTxnStmts (RoundTest.cleared_setStmtQueue hclear1 _) hinst
    have h3 := h2.transTest hrule hclear2 hrun
    exact ⟨h3, h3.entry_mem⟩

end Run

end DbFuzz
