import DbFuzz.TxCheck.Entries

/-! The refinement loop ends. The transactions to be committed and the statements that are no
placeholders become fewer with every refinement that reports a change, and no step up to the
next one adds to them. -/

namespace DbFuzz

open Loop AnalyzedQueue

/-- A statement of the test that is neither a control statement nor a placeholder. -/
def StmtUsage.isBasic (u : StmtUsage) : Bool := !u.isInstrumented && u.stmtType != .initType

namespace PlannedTest

def commitNum (t : PlannedTest) : ℕ :=
  (List.range t.transNum).countP fun tid => (t.txn tid).status == .commit

def basicNum (t : PlannedTest) : ℕ :=
  (List.range t.plan.stmtNum).countP fun i => (t.use i).isBasic

/-- What a refinement can still take away. -/
def refinable (t : PlannedTest) : ℕ := t.commitNum + t.basicNum

/-! `refine_stmt_queue` -/

variable {t t' : PlannedTest}

theorem commitNum_le (hnum : t'.transNum = t.transNum)
    (hstatus : ∀ tid, (t'.txn tid).status = (t.txn tid).status ∨ (t'.txn tid).status = .abort) :
    t'.commitNum ≤ t.commitNum := by
  unfold commitNum
  rw [hnum]
  refine List.countP_mono_left fun tid _ h => ?_
  rcases hstatus tid with hst | hst
  · rwa [hst] at h
  · rw [hst] at h
    cases h

/-- A transaction that becomes an abort was to be committed. -/
theorem commitNum_changeTxnStatus {tid : ℕ} {b : Bool} (htid : tid < t.transNum)
    (hdefined : (t.txn tid).status ≠ .notDefined)
    (h : t.changeTxnStatus tid .abort = .ok (b, t')) :
    t'.commitNum ≤ t.commitNum ∧ (b = true → t'.commitNum < t.commitNum) := by
  obtain ⟨-, ⟨rfl, -, rfl⟩ | ⟨rfl, hcommit, -, hchanged⟩⟩ := changeTxnStatus_spec h
  · exact ⟨le_rfl, by simp⟩
  have habort : (t'.txn tid).status = .abort := by
    rw [hchanged.txn, if_pos rfl]
  have hold : (t.txn tid).status = .commit := by
    cases hst : (t.txn tid).status with
    | notDefined => exact absurd hst hdefined
    | commit => rfl
    | abort => exact absurd hst hcommit
  have hstatus : ∀ u, (t'.txn u).status = (t.txn u).status ∨ (t'.txn u).status = .abort := by
    intro u
    rw [hchanged.txn]
    split_ifs
    · exact Or.inr rfl
    · exact Or.inl rfl
  have hless : t'.commitNum < t.commitNum := by
    unfold commitNum
    rw [hchanged.transNum]
    refine countP_lt_of_imp (fun u _ hu => ?_) (List.mem_range.2 htid) (by rw [hold]; rfl)
      (by rw [habort]; rfl)
    rcases hstatus u with hst | hst
    · rwa [hst] at hu
    · rw [hst] at hu
      cases hu
  exact ⟨hless.le, fun _ => hless⟩

/-- A set with a statement that is no placeholder becomes placeholders. -/
theorem basicNum_placeHolders {i : ℕ} {changeSet : Finset ℕ} (hi : i < t.plan.stmtNum)
    (hbasic : (t.use i).isBasic = true) (hmem : i ∈ changeSet) :
    (t.placeHolders changeSet).basicNum < t.basicNum := by
  have huse : ∀ k ∈ changeSet, ((t.placeHolders changeSet).use k).isBasic = false := by
    intro k hk
    have huse : (t.placeHolders changeSet).use k =
        { (t.use k).assign .initType with isInstrumented := false } := if_pos hk
    rw [huse]
    rfl
  refine countP_lt_of_imp (fun k _ hk => ?_) (List.mem_range.2 hi) hbasic (huse i hmem)
  by_cases hset : k ∈ changeSet
  · rw [huse k hset] at hk
    cases hk
  · rwa [(t.placeHolders_kept hset).2.1] at hk

end PlannedTest

namespace RoundTest

variable {Val : Type} {env : RoundEnv Val} {w : RoundSetup} {t t' t2 t3 : RoundTest Val}

/-! The entries of the queue. -/

/-- Statements without a type are control statements and placeholders, which the instrumentor
leaves alone. -/
def InitEntry (o : Prod Val) (u : StmtUsage) : Prop :=
  u.stmtType = .initType → ∃ text, o = .txnString text ∧ containsText text "SELECT * FROM" = false

/-- The statements that end a transaction are no reads of a version set. -/
def EndsPlain (w : RoundSetup) : Prop :=
  containsText w.commitStmt "SELECT * FROM" = false ∧
    containsText w.abortStmt "SELECT * FROM" = false

theorem initEntry_spaceHolder (u : StmtUsage) :
    InitEntry (.txnString spaceHolderStmt : Prod Val) u :=
  fun _ => ⟨spaceHolderStmt, rfl, by decide +kernel⟩

theorem entryRule_init (env : RoundEnv Val) (hw : EndsPlain w) : EntryRule env w InitEntry where
  skip _ _ _ := initEntry_spaceHolder _
  drop _ _ _ := initEntry_spaceHolder _
  ends _ _ _ _ := ⟨fun _ => ⟨_, rfl, hw.1⟩, fun _ => ⟨_, rfl, hw.2⟩⟩

theorem initEntry_emittedFor {stmt : Prod Val} {tid : ℤ} {d : Emitted Val}
    (h : EmittedFor stmt tid d) : InitEntry d.stmt d.usage := by
  intro hinit
  cases h with
  | versionSet => cases hinit
  | before => cases hinit
  | after => cases hinit
  | stmt =>
    cases stmt with
    | rowWrite write => cases write <;> cases hinit
    | insert => cases hinit
    | query => cases hinit
    | other => cases hinit
    | txnString text =>
      simp only [Prod.usage] at hinit
      split_ifs at hinit with htext
      · cases hinit
      · exact ⟨text, rfl, Bool.eq_false_iff.2 htext⟩

theorem emitsEntries_init (env : RoundEnv Val) : EmitsEntries env InitEntry :=
  fun _ _ _ _ _ _ hblock d hd => initEntry_emittedFor (mem_instrumentStmt hblock d hd)

/-! What a step of the loop adds to neither number. -/

/-- A status changes to abort only, and no statement of the test is added. -/
structure Lessens (t t' : RoundTest Val) : Prop where
  transNum : t'.planned.transNum = t.planned.transNum
  status : ∀ tid, (t'.planned.txn tid).status = (t.planned.txn tid).status ∨
    (t'.planned.txn tid).status = .abort
  basicNum : t'.planned.basicNum ≤ t.planned.basicNum

theorem Lessens.refl (t : RoundTest Val) : Lessens t t := ⟨rfl, fun _ => Or.inl rfl, le_rfl⟩

theorem Lessens.trans (h : Lessens t t2) (h' : Lessens t2 t3) : Lessens t t3 where
  transNum := h'.transNum.trans h.transNum
  status tid := by
    rcases h'.status tid with hst | hst
    · exact (h.status tid).imp hst.trans hst.trans
    · exact Or.inr hst
  basicNum := h'.basicNum.trans h.basicNum

theorem Lessens.refinable (h : Lessens t t') : t'.planned.refinable ≤ t.planned.refinable :=
  Nat.add_le_add (PlannedTest.commitNum_le h.transNum h.status) h.basicNum

theorem basicNum_eq (t : RoundTest Val) :
    t.planned.basicNum = t.stmtQueue.countP fun e => e.usage.isBasic := by
  rw [stmtQueue, List.countP_map]
  rfl

theorem basicNum_setStmtQueue (env : RoundEnv Val) (t : RoundTest Val)
    (queue : List (Emitted Val)) :
    (t.setStmtQueue env queue).planned.basicNum = queue.countP fun e => e.usage.isBasic := by
  unfold PlannedTest.basicNum
  have hmap := map_getD_range queue ⟨.txnString "", 0, .mk' .initType false⟩
  conv_rhs => rw [← hmap, List.countP_map]
  rfl

/-- A new queue without more statements of the test. -/
theorem Lessens.setStmtQueue (env : RoundEnv Val) {queue : List (Emitted Val)}
    (h : (queue.countP fun e => e.usage.isBasic) ≤ t.planned.basicNum) :
    Lessens t (t.setStmtQueue env queue) :=
  ⟨rfl, fun _ => Or.inl rfl, (basicNum_setStmtQueue env t queue).trans_le h⟩

theorem Lessens.alignTxns (t : RoundTest Val) : Lessens t t.alignTxns :=
  ⟨rfl, fun tid => Or.inl (status_alignTxns t tid), le_rfl⟩

theorem Lessens.clearExecutionStatus (t : RoundTest Val) : Lessens t t.clearExecutionStatus :=
  ⟨rfl, fun _ => Or.inl rfl, le_rfl⟩

theorem lessens_cleanInstrument (env : RoundEnv Val) (t : RoundTest Val) :
    Lessens t (t.cleanInstrument env) := by
  refine (Lessens.setStmtQueue env ?_).trans (.alignTxns _)
  rw [basicNum_eq]
  exact List.filter_sublist.countP_le

theorem lessens_transTest (h : t.transTest env = .ok t2) : Lessens t t2 := by
  obtain ⟨hrun, hplan, hnum, -⟩ := transTest_run h
  refine ⟨hnum, fun tid => transTest_status_or hrun tid, ?_⟩
  unfold PlannedTest.basicNum PlannedTest.use
  rw [hplan]

/-- The real queues are the planned ones in another order, some statements made placeholders. -/
theorem lessens_again (hclear : t.planned.test.Cleared) (h : t.transTest env = .ok t2) :
    Lessens t (t2.again env) := by
  refine (lessens_transTest h).trans ((Lessens.setStmtQueue env ?_).trans (.clearExecutionStatus _))
  obtain ⟨order, res, hrec, hreal⟩ := realQueue_eq hclear h
  obtain ⟨-, hplan, -⟩ := transTest_run h
  have hbasic : t2.planned.basicNum =
      order.countP fun i => (t.planned.plan.stmtUse i).isBasic := by
    rw [hrec.perm.countP_eq, ← hplan]
    rfl
  rw [hreal, List.countP_map, hbasic]
  refine List.countP_mono_left fun i _ hi => ?_
  rw [Function.comp_apply, realEntry] at hi
  split_ifs at hi
  · simp [StmtUsage.isBasic, StmtUsage.mk'] at hi
  · exact hi

theorem lessens_blockScheduling (fuel : ℕ) : ∀ t t' : RoundTest Val, t.planned.test.Cleared →
    t.blockScheduling env fuel = .ok t' → Lessens t t' := by
  induction fuel with
  | zero => intro t t' _ h; cases h
  | succ fuel ih =>
    intro t t' hclear h
    obtain ⟨t2, hrun, h⟩ := bind_eq_ok_iff.1 h
    split at h
    · cases h
      exact (lessens_transTest hrun).trans (.clearExecutionStatus _)
    · exact (lessens_again hclear hrun).trans
        (ih _ t' (cleared_clearExecutionStatus _) h)

/-! `infer_instrument_after_blocking` and `instrument_txn_stmts` -/

theorem mem_withCopies {q : AnalyzedQueue} {g : StmtGraph} {before scheduled done : List (Emitted Val)}
    {c : Emitted Val × ℕ} (h : c ∈ withCopies q g before done scheduled) :
    ∃ pos, c.2 = copyNum q g before c.1 pos := by
  induction scheduled generalizing done with
  | nil => cases h
  | cons e rest ih =>
    rcases List.mem_cons.1 h with rfl | h
    · exact ⟨_, rfl⟩
    · exact ih h

/-- Statements with a type are put back once. -/
theorem copyNum_basic {q : AnalyzedQueue} {g : StmtGraph} {before : List (Emitted Val)}
    {e : Emitted Val} (he : e.usage.isBasic = true) (pos : ℕ) : copyNum q g before e pos = 1 := by
  have htype : e.usage.stmtType ≠ .initType := by
    simp only [StmtUsage.isBasic, Bool.and_eq_true, bne_iff_ne] at he
    exact he.2
  rw [copyNum, turnedIdx, if_pos htype]

theorem countP_copies {cs : List (Emitted Val × ℕ)}
    (hcs : ∀ c ∈ cs, c.1.usage.isBasic = true → c.2 = 1) :
    ((cs.flatMap fun c => List.replicate c.2 c.1).countP fun e => e.usage.isBasic) =
      (cs.map Prod.fst).countP fun e => e.usage.isBasic := by
  induction cs with
  | nil => rfl
  | cons c cs ih =>
    rw [List.flatMap_cons, List.countP_append, List.map_cons, List.countP_cons,
      ih fun d hd => hcs d (List.mem_cons_of_mem c hd), List.countP_replicate, Nat.add_comm]
    congr 1
    by_cases hc : c.1.usage.isBasic = true
    · rw [if_pos hc, if_pos hc, hcs c List.mem_cons_self hc]
    · rw [if_neg hc, if_neg hc]

theorem lessens_inferInstrument {q : AnalyzedQueue} {g : StmtGraph} {before : List (Emitted Val)}
    {r : List (Emitted Val) × StmtGraph} (h : inferInstrument q before [] t.stmtQueue g = .ok r) :
    Lessens t (t.setStmtQueue env r.1) := by
  refine .setStmtQueue env ?_
  rw [inferInstrument_eq h (SameLabels.refl g), countP_copies fun c hc hbasic => ?_, map_withCopies,
    ← basicNum_eq]
  obtain ⟨pos, hpos⟩ := mem_withCopies hc
  rw [hpos, copyNum_basic hbasic]

/-- The instrumentor places reads around a statement with a type, and no statement of the test
for another. -/
theorem countP_blockOf {e : Emitted Val} (he : CleanEntry InitEntry e.stmt e.usage)
    {block : List (Emitted Val)} (hblock : instrumentStmt env.instrument env.queryText e.tid e.stmt = .ok block) :
    (block.countP fun d => d.usage.isBasic) ≤ if e.usage.isBasic then 1 else 0 := by
  split_ifs with hbasic
  · obtain ⟨b, -, rfl⟩ := instrumentStmt_block hblock
    have hone : (b.entries.countP fun d => !d.usage.isInstrumented) = 1 := by
      have := congrArg List.length b.clean_entries
      rwa [DbFuzz.cleanInstrument, ← List.countP_eq_length_filter, List.length_singleton] at this
    rw [← hone]
    refine List.countP_mono_left fun d _ hd => ?_
    rw [StmtUsage.isBasic, Bool.and_eq_true] at hd
    exact hd.1
  · have hinit : e.usage.stmtType = .initType := by
      by_contra htype
      exact hbasic (by simp [StmtUsage.isBasic, he.2, htype])
    obtain ⟨text, hstmt, htext⟩ := he.1 hinit
    rw [hstmt] at hblock
    simp only [instrumentStmt, htext, Bool.false_eq_true, reduceIte] at hblock
    cases hblock
    simp [StmtUsage.isBasic, StmtUsage.mk']

theorem countP_blocks {queue : List (Emitted Val)}
    (hclean : ∀ e ∈ queue, CleanEntry InitEntry e.stmt e.usage)
    (hall : ∀ e ∈ queue, ∃ block,
      instrumentStmt env.instrument env.queryText e.tid e.stmt = .ok block) :
    ((queue.flatMap (blockOf env.instrument env.queryText)).countP fun d => d.usage.isBasic) ≤
      queue.countP fun e => e.usage.isBasic := by
  induction queue with
  | nil => exact le_rfl
  | cons e queue ih =>
    rw [List.forall_mem_cons] at hclean hall
    obtain ⟨block, hblock⟩ := hall.1
    have hof : blockOf env.instrument env.queryText e = block := by
      rw [blockOf, hblock]
      rfl
    rw [List.flatMap_cons, List.countP_append, List.countP_cons, hof, Nat.add_comm]
    exact Nat.add_le_add (ih hclean.2 hall.2) (countP_blockOf hclean.1 hblock)

theorem lessens_instrumentTxnStmts (ht : t.QueueInv env w (CleanEntry InitEntry))
    (h : t.instrumentTxnStmts env = .ok t') : Lessens t t' := by
  obtain ⟨hqueue, hall⟩ := stmtQueue_instrumentTxnStmts h
  have hcount : t'.planned.basicNum ≤ t.planned.basicNum := by
    rw [basicNum_eq, basicNum_eq, hqueue]
    exact countP_blocks ht.entry_mem hall
  obtain ⟨out, -, h⟩ := bind_eq_ok_iff.1 h
  cases h
  exact ⟨rfl, fun tid => Or.inl (status_alignTxns _ tid), hcount⟩

/-! `refine_stmt_queue` -/

/-- Every change takes a commit or a statement of the test away. -/
theorem QueueInv.refineMeasure (h : t.QueueInv env w InitEntry) (hw : EndsPlain w)
    (q : AnalyzedQueue) (g : StmtGraph) (path : List StmtId) :
    PlannedTest.RefineRule t.planned q g path fun b p =>
      (PlannedTest.SamePlaces t.planned p ∧ QueueInv env w InitEntry (t.withPlanned p)) ∧
      p.refinable ≤ t.planned.refinable ∧ (b = true → p.refinable < t.planned.refinable) := by
  have hrule := h.refineRule (entryRule_init env hw) q g path
  refine ⟨fun b p hp => hrule.places b p hp.1, fun b p tid pos text hp => ?_,
    fun b p tid b' p' hp htid hpath hchange => ?_,
    fun b p i hp hi hon hsid hcast hinst hmem => ?_⟩
  · refine ⟨hrule.copy b p tid pos text hp.1, ?_⟩
    have hsame : (p.setTxn tid fun x => { x with stmts := x.stmts.set pos text }).refinable =
        p.refinable := by
      have hstatus : ∀ u, ((p.setTxn tid fun x => { x with stmts := x.stmts.set pos text }).txn
          u).status = (p.txn u).status := by
        intro u
        rw [PlannedTest.setTxn_txn]
        split_ifs with hu
        · rw [hu]
        · rfl
      unfold PlannedTest.refinable PlannedTest.commitNum
      simp only [hstatus]
      rfl
    rw [hsame]
    exact hp.2
  · refine ⟨hrule.abort b p tid b' p' hp.1 htid hpath hchange, ?_⟩
    have hdefined : (p.txn tid).status ≠ .notDefined :=
      hp.1.2.status tid (by rw [← h.setup]; exact htid)
    obtain ⟨hle, hlt⟩ := PlannedTest.commitNum_changeTxnStatus
      (by rw [hp.1.1.transNum]; exact htid) hdefined hchange
    have hplan : p'.plan = p.plan := by
      obtain ⟨-, ⟨-, -, rfl⟩ | ⟨-, -, -, hchanged⟩⟩ := PlannedTest.changeTxnStatus_spec hchange
      · rfl
      · exact hchanged.plan
    have hbasic : p'.basicNum = p.basicNum := by
      unfold PlannedTest.basicNum PlannedTest.use
      rw [hplan]
    obtain ⟨hle0, hlt0⟩ := hp.2
    unfold PlannedTest.refinable at hle0 hlt0 ⊢
    rw [hbasic]
    refine ⟨by omega, fun hb => ?_⟩
    rw [Bool.or_eq_true] at hb
    rcases hb with hb | hb
    · have := hlt0 hb
      omega
    · have := hlt hb
      omega
  · refine ⟨hrule.drop b p i hp.1 hi hon hsid hcast hinst hmem, ?_⟩
    have hip : i < p.plan.stmtNum := by rw [hp.1.1.stmtNum]; exact hi
    have hbasic : (p.use i).isBasic = true := by
      by_contra hnot
      have hinit : (p.use i).stmtType = .initType := by
        by_contra htype
        exact hnot (by simp [StmtUsage.isBasic, hinst, htype])
      obtain ⟨text, hobject, -⟩ := hp.1.2.entry i hip hinit
      have hstring : p.isTxnString i = true := by
        rw [show p.isTxnString i = _ from hp.1.2.cast i hip, hobject]
        rfl
      rw [PlannedTest.isTxnStmt, hstring, hinit] at hcast
      cases hcast
    have hless := PlannedTest.basicNum_placeHolders hip hbasic hmem
    have hcommit : (p.placeHolders (q.stmtSet g i)).commitNum = p.commitNum := rfl
    obtain ⟨hle0, -⟩ := hp.2
    unfold PlannedTest.refinable at hle0 ⊢
    rw [hcommit]
    exact ⟨by omega, fun _ => by omega⟩

end RoundTest

namespace RefineState

open RoundTest

variable {Val : Type} {env : RoundEnv Val} {w : RoundSetup} {deletedNodes : Finset StmtId}
  {fuel k : ℕ} {r r0 s s' : RefineState Val}

/-- A refinement that changed something leaves less to refine. -/
theorem refinable_refine (hr : r.test.QueueInv env w InitEntry) (hw : EndsPlain w)
    (h : r.refineStmtQueue = .ok (true, s)) :
    s.test.planned.refinable < r.test.planned.refinable := by
  obtain ⟨q, g, g', planned, hrefine, htest, -⟩ := refineStmtQueue_spec h
  obtain ⟨p, ⟨-, -, hless⟩, hp⟩ := PlannedTest.refineStmtQueue_rule
    (hr.refineMeasure hw q g r.longestStmtPath)
    ⟨⟨.refl _, by rw [withPlanned_self]; exact hr⟩, le_rfl, by simp⟩ hrefine
  rw [htest, if_pos rfl, hp, if_pos rfl]
  exact hless rfl

/-- What is between two refinements. -/
structure StepsLessen (env : RoundEnv Val) (s : RefineState Val) : Prop where
  clean : (s.test.cleanInstrument env).planned.refinable ≤ s.test.planned.refinable
  schedule : ∀ fuel t1, (s.test.cleanInstrument env).blockScheduling env fuel = .ok t1 →
    t1.planned.refinable ≤ (s.test.cleanInstrument env).planned.refinable
  infer : ∀ fuel t1 after g, (s.test.cleanInstrument env).blockScheduling env fuel = .ok t1 →
    inferInstrument s.initDa.da.queue s.test.stmtQueue [] t1.stmtQueue s.initDa.graph =
      .ok (after, g) →
    (t1.setStmtQueue env after).planned.refinable ≤ t1.planned.refinable
  instrument : ∀ fuel t1 after g t2,
    (s.test.cleanInstrument env).blockScheduling env fuel = .ok t1 →
    inferInstrument s.initDa.da.queue s.test.stmtQueue [] t1.stmtQueue s.initDa.graph =
      .ok (after, g) →
    (t1.setStmtQueue env after).instrumentTxnStmts env = .ok t2 →
    t2.planned.refinable ≤ (t1.setStmtQueue env after).planned.refinable
  test : ∀ fuel s' t3, s.reschedule env fuel = .ok s' → s'.test.transTest env = .ok t3 →
    t3.planned.refinable ≤ s'.test.planned.refinable

theorem stepsLessen (hs : s.test.QueueInv env w InitEntry) (hw : EndsPlain w)
    (hclear : s.test.planned.test.Cleared) : StepsLessen env s where
  clean := (lessens_cleanInstrument env s.test).refinable
  schedule fuel t1 h :=
    (lessens_blockScheduling fuel _ t1 (RoundTest.cleared_cleanInstrument hclear) h).refinable
  infer _ _ _ _ _ h := (lessens_inferInstrument h).refinable
  instrument fuel t1 after g t2 hsched hinfer h := by
    obtain ⟨h1, -⟩ := QueueInv.blockScheduling (entryRule_init env hw).clean fuel _ _
      hs.cleanInstrument (RoundTest.cleared_cleanInstrument hclear) hsched
    have h2 : (t1.setStmtQueue env after).QueueInv env w (CleanEntry InitEntry) :=
      h1.setStmtQueue fun e he => h1.entry_mem e (mem_inferInstrument hinfer e he)
    exact (lessens_instrumentTxnStmts h2 h).refinable
  test _ _ _ _ h := (lessens_transTest h).refinable

theorem refinable_rerun (hs : s.test.QueueInv env w InitEntry) (hw : EndsPlain w)
    (hclear : s.test.planned.test.Cleared) {exit : Option RefineExit}
    (h : s.rerun env fuel deletedNodes = .ok (exit, s')) :
    s'.test.planned.refinable ≤ s.test.planned.refinable := by
  have hsteps := stepsLessen hs hw hclear
  obtain ⟨s1, hsched, h⟩ := bind_eq_ok_iff.1 h
  obtain ⟨test, hrun, h⟩ := bind_eq_ok_iff.1 h
  obtain ⟨t1, after, g, t3, hblock, -, hinfer, -, hinst, -, -, htest⟩ :=
    reschedule_queues (entryRule_init env hw) (emitsEntries_init env) hs hclear hsched
  have hchain : test.planned.refinable ≤ s.test.planned.refinable :=
    calc test.planned.refinable
      _ ≤ s1.test.planned.refinable := hsteps.test _ _ _ hsched hrun
      _ = t3.planned.refinable := by rw [htest]
      _ ≤ (t1.setStmtQueue env after).planned.refinable :=
        hsteps.instrument _ _ _ _ _ hblock hinfer hinst
      _ ≤ t1.planned.refinable := hsteps.infer _ _ _ _ hblock hinfer
      _ ≤ (s.test.cleanInstrument env).planned.refinable := hsteps.schedule _ _ hblock
      _ ≤ s.test.planned.refinable := hsteps.clean
  dsimp only at h
  split at h
  · cases h
    exact hchain
  · obtain ⟨⟨bug, da⟩, -, h⟩ := bind_eq_ok_iff.1 h
    cases bug with
    | true => cases h
    | false =>
      obtain ⟨sort, -, h⟩ := bind_eq_ok_iff.1 h
      cases h
      exact hchain

end RefineState

/-! Only `block_scheduling` has no bound. -/

theorem PlannedTest.refineStmtQueue_ne_outOfFuel (t : PlannedTest) (q : AnalyzedQueue)
    (g : StmtGraph) (path : List StmtId) : t.refineStmtQueue q g path ≠ .error .outOfFuel := by
  have hcopy : ∀ i s, PlannedTest.copyTxnStmt i s ≠ .error .outOfFuel := by
    intro i s
    unfold PlannedTest.copyTxnStmt
    dsimp only
    split_ifs <;> simp
  have habort : ∀ tid s, PlannedTest.abortOffPath path tid s ≠ .error .outOfFuel := by
    intro tid s
    unfold PlannedTest.abortOffPath
    split_ifs
    · simp
    · refine bind_ne_error ?_ fun _ _ => by simp [pure, Except.pure]
      unfold PlannedTest.changeTxnStatus
      split_ifs <;> simp
  have hround : ∀ i s, PlannedTest.refineRound q path i s ≠ .error .outOfFuel := by
    intro i s
    unfold PlannedTest.refineRound
    dsimp only
    split_ifs
    any_goals simp
    exact bind_ne_error (getInstrumentedStmtSet_ne_outOfFuel q _ i) fun _ _ => by
      simp
  refine bind_ne_error (forRange_ne_error (fun i _ s => hcopy i s) _) fun _ _ => ?_
  refine bind_ne_error (forRange_ne_error (fun tid _ s => habort tid s) _) fun _ _ => ?_
  refine bind_ne_error (forRange_ne_error (fun i _ s => hround i s) _) fun _ _ => ?_
  split_ifs <;> nofun

variable {Val : Type}

theorem inferInstrument_ne_outOfFuel (q : AnalyzedQueue) (before done scheduled : List (Emitted Val))
    (g : StmtGraph) : inferInstrument q before done scheduled g ≠ .error .outOfFuel := by
  have hcopies : ∀ e pos g, copiesOf q before e pos g ≠ .error .outOfFuel := by
    intro e pos g
    unfold copiesOf
    split_ifs
    · simp
    split
    · simp
    split_ifs
    · simp
    · exact bind_ne_error (getInstrumentedStmtSet_ne_outOfFuel q g _) fun _ _ => by
        simp [pure, Except.pure]
  induction scheduled generalizing done g with
  | nil => simp [inferInstrument]
  | cons e rest ih =>
    refine bind_ne_error (hcopies _ _ _) fun c _ => ?_
    exact bind_ne_error (ih _ _) fun _ _ => by simp [pure, Except.pure]

theorem instrumentStmt_ne_outOfFuel (env : InstrumentEnv Val) (queryText : QuerySpec Val → String)
    (tid : ℤ) (stmt : Prod Val) : instrumentStmt env queryText tid stmt ≠ .error .outOfFuel := by
  cases stmt with
  | rowWrite write =>
    cases write with
    | update s =>
      simp only [instrumentStmt, instrumentUpdate]
      split
      · simp
      split
      · simp
      split <;> simp
    | delete s => simp [instrumentStmt, instrumentDelete]
  | insert s =>
    simp only [instrumentStmt, instrumentInsert]
    split
    · simp
    split
    · simp
    split_ifs <;> simp
  | txnString text =>
    simp only [instrumentStmt]
    split_ifs <;> simp
  | query q => simp [instrumentStmt]
  | other text => simp [instrumentStmt]

namespace RoundTest

variable {env : RoundEnv Val}

theorem instrumentTxnStmts_ne_outOfFuel (env : RoundEnv Val) (t : RoundTest Val) :
    t.instrumentTxnStmts env ≠ .error .outOfFuel := by
  refine bind_ne_error (bind_ne_error (mapM_ne_error fun e _ => ?_) fun _ _ => ?_) fun _ _ => ?_
  · exact instrumentStmt_ne_outOfFuel _ _ _ _
  · simp [pure, Except.pure]
  · simp [pure, Except.pure]

theorem transTest_ne_outOfFuel (env : RoundEnv Val) {t : RoundTest Val}
    (hclear : t.planned.test.Cleared) : t.transTest env ≠ .error .outOfFuel :=
  bind_ne_error (DbFuzz.transTest_ne_outOfFuel hclear) fun _ _ => by simp [pure, Except.pure]

/-- A scheduling that ends is the same with more rounds. -/
theorem blockScheduling_stable {k fuel : ℕ} (hle : k ≤ fuel) : ∀ t : RoundTest Val,
    t.blockScheduling env k ≠ .error .outOfFuel →
      t.blockScheduling env fuel = t.blockScheduling env k := by
  induction k generalizing fuel with
  | zero => exact fun t h => absurd rfl h
  | succ k ih =>
    intro t h
    obtain ⟨fuel, rfl⟩ : ∃ m, fuel = m + 1 := ⟨fuel - 1, by omega⟩
    rw [blockScheduling] at h ⊢
    rw [blockScheduling]
    cases hrun : t.transTest env with
    | error e => rfl
    | ok t2 =>
      rw [hrun] at h
      simp only [bind, Except.bind] at h ⊢
      by_cases hfailing : t2.noFailing = true
      · rw [if_pos hfailing, if_pos hfailing]
      · rw [if_neg hfailing] at h
        rw [if_neg hfailing, if_neg hfailing]
        exact ih (by omega) _ h

end RoundTest

namespace RefineState

open RoundTest

variable {env : RoundEnv Val} {w : RoundSetup} {deletedNodes : Finset StmtId}
  {fuel k : ℕ} {r r' s s' : RefineState Val}

theorem refineStmtQueue_ne_outOfFuel (r : RefineState Val) :
    r.refineStmtQueue ≠ .error .outOfFuel := by
  unfold refineStmtQueue
  split
  · exact bind_ne_error (PlannedTest.refineStmtQueue_ne_outOfFuel _ _ _ _) fun _ _ => by
      simp [pure, Except.pure]
  · exact bind_ne_error (PlannedTest.refineStmtQueue_ne_outOfFuel _ _ _ _) fun _ _ => by
      simp [pure, Except.pure]

theorem rerun_ne_outOfFuel (hs : s.test.QueueInv env w InitEntry) (hw : EndsPlain w)
    (hclear : s.test.planned.test.Cleared)
    (hsched : (s.test.cleanInstrument env).blockScheduling env fuel ≠ .error .outOfFuel) :
    s.rerun env fuel deletedNodes ≠ .error .outOfFuel := by
  have hreschedule : s.reschedule env fuel ≠ .error .outOfFuel := by
    refine bind_ne_error hsched fun t1 _ => ?_
    refine bind_ne_error (inferInstrument_ne_outOfFuel _ _ _ _ _) fun _ _ => ?_
    exact bind_ne_error (instrumentTxnStmts_ne_outOfFuel env _) fun _ _ => by
      simp [pure, Except.pure]
  refine bind_ne_error hreschedule fun s1 hs1 => ?_
  obtain ⟨t1, after, g, t3, -, -, -, -, -, -, hclear3, htest⟩ :=
    reschedule_queues (entryRule_init env hw) (emitsEntries_init env) hs hclear hs1
  refine bind_ne_error (RoundTest.transTest_ne_outOfFuel env (by rw [htest]; exact hclear3)) fun t _ => ?_
  dsimp only
  split_ifs
  · simp [pure, Except.pure]
  refine bind_ne_error (analyzeTxnDependency_ne_outOfFuel t) fun a _ => ?_
  split_ifs
  · exact bind_ne_error (by simp [throw, throwThe, MonadExceptOf.throw]) fun _ h => by cases h
  · exact bind_ne_error (topologicalSortPath_ne_outOfFuel _ _ _) fun _ _ => by
      simp [pure, Except.pure]

/-- The bound of the scheduling is the only one a rerun sees. -/
theorem rerun_stable (hle : k ≤ fuel)
    (hsched : (s.test.cleanInstrument env).blockScheduling env k ≠ .error .outOfFuel) :
    s.rerun env fuel deletedNodes = s.rerun env k deletedNodes := by
  unfold rerun reschedule
  rw [blockScheduling_stable hle _ hsched]

/-- The loop ends when every scheduling does. -/
theorem loop_ends (hw : EndsPlain w) (hr : r.test.QueueInv env w InitEntry)
    (hsched : ∀ r1 s, Iterates env deletedNodes r r1 → r1.refineStmtQueue = .ok (true, s) →
      ∃ k, (s.test.cleanInstrument env).blockScheduling env k ≠ .error .outOfFuel) :
    ∃ N, ∀ fuel ≥ N, loop env deletedNodes fuel r ≠ .error .outOfFuel := by
  induction hn : r.test.planned.refinable using Nat.strong_induction_on generalizing r with
  | _ n ih =>
    cases hrefine : r.refineStmtQueue with
    | error e =>
      refine ⟨1, fun fuel hfuel => ?_⟩
      obtain ⟨fuel, rfl⟩ : ∃ m, fuel = m + 1 := ⟨fuel - 1, by omega⟩
      rw [loop, hrefine]
      exact bind_ne_error (hrefine ▸ refineStmtQueue_ne_outOfFuel r) fun _ h => by cases h
    | ok out =>
      obtain ⟨isRefined, s⟩ := out
      cases isRefined with
      | false =>
        refine ⟨1, fun fuel hfuel => ?_⟩
        obtain ⟨fuel, rfl⟩ : ∃ m, fuel = m + 1 := ⟨fuel - 1, by omega⟩
        rw [loop, hrefine]
        exact fun h => by cases h
      | true =>
        have hs := queueInv_refine (entryRule_init env hw) hr hrefine
        have hclear := cleared_refine hrefine
        obtain ⟨k, hk⟩ := hsched r s .refl hrefine
        have hrerun : s.rerun env k deletedNodes ≠ .error .outOfFuel :=
          rerun_ne_outOfFuel hs hw hclear hk
        -- what the loop sees of the rerun from `k + 1` rounds on
        have hstable (fuel : ℕ) (hfuel : k + 1 ≤ fuel + 1) :
            s.rerun env fuel deletedNodes = s.rerun env k deletedNodes :=
          rerun_stable (by omega) hk
        cases hout : s.rerun env k deletedNodes with
        | error e =>
          refine ⟨k + 1, fun fuel hfuel => ?_⟩
          obtain ⟨fuel, rfl⟩ : ∃ m, fuel = m + 1 := ⟨fuel - 1, by omega⟩
          rw [loop, hrefine]
          refine bind_ne_error (x := s.rerun env fuel deletedNodes) ?_ fun _ h => ?_
          · rw [hstable fuel hfuel]
            exact hrerun
          · rw [hstable fuel hfuel, hout] at h
            cases h
        | ok out =>
          obtain ⟨exit, r'⟩ := out
          cases exit with
          | some exit =>
            refine ⟨k + 1, fun fuel hfuel => ?_⟩
            obtain ⟨fuel, rfl⟩ : ∃ m, fuel = m + 1 := ⟨fuel - 1, by omega⟩
            rw [loop, hrefine]
            change (s.rerun env fuel deletedNodes >>= _) ≠ _
            rw [hstable fuel hfuel, hout]
            exact fun h => by cases h
          | none =>
            have hstep : Iteration env deletedNodes r r' := ⟨s, k, hrefine, hout⟩
            have hless : r'.test.planned.refinable < n := by
              rw [← hn]
              exact (refinable_rerun hs hw hclear hout).trans_lt (refinable_refine hr hw hrefine)
            obtain ⟨N, hN⟩ := ih _ hless
              (queueInv_rerun (entryRule_init env hw) (emitsEntries_init env) hs hclear hout)
              (fun r1 s1 hiter => hsched r1 s1 (hiter.head hstep)) rfl
            refine ⟨max k N + 1, fun fuel hfuel => ?_⟩
            obtain ⟨fuel, rfl⟩ : ∃ m, fuel = m + 1 := ⟨fuel - 1, by omega⟩
            rw [loop, hrefine]
            change (s.rerun env fuel deletedNodes >>= _) ≠ _
            rw [hstable fuel (by omega), hout]
            exact hN fuel (by omega)

end RefineState

variable {env : RoundEnv Val} {init : InitStatus Val} {s0 s : RoundState Val} {t : RoundTest Val}
  {paths : List (List StmtId)} {sort : SortState} {fuel : ℕ}

/-- In every round, and from whatever path it starts, each refinement that changes something
leaves less to refine and no step up to the next refinement adds to it; the loop ends when the
scheduling always does. -/
theorem refinement_loop_ends {P : RoundState Val → Prop} (ht : t.Called env)
    (hwords : RoundTest.EndsPlain t.setup)
    (hfirst : firstAnalysis env fuel t = .ok (some (init, s0)))
    (hrounds : Rounds env init fuel P s0 s paths) :
    (∀ r r', RefineState.Iterates env s.deletedNodes (s.refineStart sort) r →
      r.refineStmtQueue = .ok (true, r') →
        r'.test.planned.refinable < r.test.planned.refinable ∧ r'.StepsLessen env) ∧
    ((∀ r r', RefineState.Iterates env s.deletedNodes (s.refineStart sort) r →
        r.refineStmtQueue = .ok (true, r') →
          ∃ k, (r'.test.cleanInstrument env).blockScheduling env k ≠ .error .outOfFuel) →
      ∃ N, ∀ fuel ≥ N,
        RefineState.loop env s.deletedNodes fuel (s.refineStart sort) ≠ .error .outOfFuel) := by
  have hrule := RoundTest.entryRule_init env hwords
  have hemits := RoundTest.emitsEntries_init env
  have hany : EntryRule env t.setup fun _ _ => True := ⟨by simp, by simp, by simp⟩
  obtain ⟨h0, hinit⟩ := firstAnalysis_queueInv hany hrule
    (fun _ _ _ _ _ hblock d hd => RoundTest.initEntry_emittedFor (mem_instrumentStmt hblock d hd))
    (ht.queueInv fun _ _ => trivial) ht.cleared hfirst
  have hs : s.test.QueueInv env t.setup RoundTest.InitEntry :=
    hrounds.queueInv hrule hemits hinit h0
  have hstart : (s.refineStart sort).test.QueueInv env t.setup RoundTest.InitEntry := hs
  refine ⟨fun r r' hiter hrefine => ?_, fun hsched =>
    RefineState.loop_ends hwords hstart hsched⟩
  have hr := hiter.queueInv hrule hemits hstart
  exact ⟨RefineState.refinable_refine hr hwords hrefine,
    RefineState.stepsLessen (RefineState.queueInv_refine hrule hr hrefine) hwords
      (RefineState.cleared_refine hrefine)⟩

/-- The first call of a test: whether it changes the queue. -/
def firstRefine (env : RoundEnv Val) (fuel : ℕ) (t : RoundTest Val) :
    Except Failure (Option Bool) := do
  match ← firstAnalysis env fuel t with
  | none => return none
  | some (_, s) =>
    let sort ← s.initDa.da.queue.topologicalSortPath s.initDa.graph s.deletedNodes
    let (isRefined, _) ← (s.refineStart sort).refineStmtQueue
    return some isRefined

theorem firstRefine_spec {b : Bool} (h : firstRefine env fuel t = .ok (some b)) :
    ∃ init s sort r, firstAnalysis env fuel t = .ok (some (init, s)) ∧
      s.initDa.da.queue.topologicalSortPath s.initDa.graph s.deletedNodes = .ok sort ∧
      (s.refineStart sort).refineStmtQueue = .ok (b, r) := by
  obtain ⟨first, hfirst, h⟩ := bind_eq_ok_iff.1 h
  cases first with
  | none => cases h
  | some first =>
    obtain ⟨sort, hsort, h⟩ := bind_eq_ok_iff.1 h
    obtain ⟨⟨isRefined, r⟩, hrefine, h⟩ := bind_eq_ok_iff.1 h
    cases h
    exact ⟨first.1, first.2, sort, r, hfirst, hsort, hrefine⟩

/-- The second transaction has no statement on a path and is aborted. -/
theorem refinement_loop_ends_abort :
    let t := generatedTest 2 (sampleTxn 0 ++ [(.txnString "BEGIN", 1), (.txnString "COMMIT", 1)]) []
    let env := emptyDatabase []
    ∃ init s sort r, firstAnalysis env 2 t = .ok (some (init, s)) ∧
      (s.refineStart sort).refineStmtQueue = .ok (true, r) ∧
      r.test.planned.refinable < s.test.planned.refinable ∧ r.StepsLessen env := by
  intro t env
  have hrefined : firstRefine env 2 t = .ok (some true) := by decide +kernel
  obtain ⟨init, s, sort, r, hfirst, -, hrefine⟩ := firstRefine_spec hrefined
  exact ⟨init, s, sort, r, hfirst, hrefine,
    (refinement_loop_ends (P := fun _ => True) (called_generated _ _ _ _)
      ⟨by decide +kernel, by decide +kernel⟩ hfirst .start).1 _ r .refl hrefine⟩

end DbFuzz
