import DbFuzz.TxCheck.TxnEnds

/-! `trans_arr` and the queue along a whole run of `multi_stmt_round_test`. They agree, and the
ends of the transactions are in place, as long as no begin, commit or abort statement is skipped
by the scheduling or replaced with the group of another statement. -/

namespace DbFuzz

open Loop

namespace RoundTest

variable {Val : Type} {env : RoundEnv Val} {beginStmt : ℕ → String} {n : ℕ}
  {E : Prod Val → StmtUsage → Prop} {t t' t2 : RoundTest Val}

/-- A run of `trans_test` replaces a failed commit in the queue and in `trans_arr`. -/
theorem consistent_transTest (ht : t.QueueInv env (dutSetup n) E)
    (hrule : EntryRule env (dutSetup n) E) (hclear : t.planned.test.Cleared)
    (h : t.planned.AllFramed beginStmt) (hcons : t.Consistent beginStmt)
    (hrun : t.transTest env = .ok t2) : t2.Consistent beginStmt := by
  refine consistent_of_framed (ht.transTest hrule hclear hrun)
    (allFramed_transTest ht hclear h hrun) fun tid htid => ?_
  obtain ⟨hrun', hplan, hnum, -⟩ := transTest_run hrun
  obtain ⟨order, res, hrec⟩ := transTest_record hclear hrun'
  obtain ⟨hcommit, habort⟩ := ht.dutWords
  rw [hnum] at htid
  have hstmts := hcons.stmts tid htid
  rw [hplan]
  rcases transTest_ends hrun' tid with ⟨-, hsame, hqueue⟩ | ⟨-, hlast, j, hj, hjt, hold, hnew⟩
  · rw [show (t2.planned.txn tid).stmts = _ from hsame]
    refine hstmts.trans (List.map_congr_left fun i hi => ?_)
    exact (hqueue i (mem_ofTxn.1 hi).2).symm
  · rw [show (t2.planned.txn tid).stmts = _ from hlast,
      show (t.planned.test.transArr tid).stmts = _ from hstmts]
    have hmem : j ∈ t.planned.plan.ofTxn tid (List.range t.planned.plan.stmtNum) :=
      mem_ofTxn.2 ⟨hj, hjt⟩
    have hframe := (Bracketed.map_iff _).1 (h tid htid)
    generalize t.planned.plan.ofTxn tid (List.range t.planned.plan.stmtNum) = idxs at hmem hframe
    obtain ⟨b, mid, e, rfl, -, -, hinner⟩ := hframe
    have hkept : ∀ i ∈ b :: mid, t2.planned.stmt i = t.planned.stmt i ∧ i ≠ j := by
      intro i hi
      have hno : isControl (t.planned.test.stmtQueue i) "COMMIT" = false :=
        isControl_of_inner (hinner i hi)
      rw [← hcommit] at hno
      refine ⟨?_, ?_⟩
      · rcases hrec.queue i with hq | ⟨hcontrol, -⟩
        · exact hq
        · exact absurd (hcontrol.symm.trans hno) (by decide)
      · rintro rfl
        exact absurd (hold.symm.trans hno) (by decide)
    have hje : j = e := by
      rw [← List.cons_append] at hmem
      rcases List.mem_append.1 hmem with hmem | hmem
      · exact absurd rfl (hkept j hmem).2
      · exact List.mem_singleton.1 hmem
    subst hje
    rw [← List.cons_append, List.map_append, List.map_append, List.map_singleton, List.map_singleton,
      List.dropLast_concat, show t2.planned.stmt j = _ from hnew]
    exact congrArg (· ++ _) (List.map_congr_left fun i hi => (hkept i hi).1.symm)

end RoundTest

/-! The restored queue. -/

section Restore

variable {Val : Type} {env : RoundEnv Val} {beginStmt : ℕ → String} {n : ℕ}
  {E : Prod Val → StmtUsage → Prop} {t t' : RoundTest Val} {init : InitStatus Val}

/-- The recorded transactions are framed, and their statements are those of the recorded queue. -/
def InitFramed (env : RoundEnv Val) (beginStmt : ℕ → String) (n : ℕ) (init : InitStatus Val) :
    Prop :=
  ∀ tid < n, Framed (beginStmt tid) (init.txnStatus tid) (RoundTest.viewOf env init.stmtQueue tid) ∧
    init.txnStmt tid = (RoundTest.viewOf env init.stmtQueue tid).map Prod.fst

/-- The state of the loop that restores the transactions, before transaction `k`. -/
structure Restored (env : RoundEnv Val) (E : Prod Val → StmtUsage → Prop) (n : ℕ)
    (init : InitStatus Val) (t0 : RoundTest Val) (k : ℕ) (t : RoundTest Val) : Prop where
  inv : t.QueueInv env (dutSetup n) E
  plan : t.planned.plan = t0.planned.plan
  stmt : ∀ i < t0.planned.plan.stmtNum, t.planned.stmt i = t0.planned.stmt i
  txn : ∀ tid < k, (t.planned.txn tid).status = init.txnStatus tid ∧
    (t.planned.txn tid).stmts = init.txnStmt tid

theorem Restored.round (hrule : EntryRule env (dutSetup n) E)
    (hframed : InitFramed env beginStmt n init) {t0 : RoundTest Val}
    (hqueue : ∀ tid, t0.planned.view tid = RoundTest.viewOf env init.stmtQueue tid) {tid : ℕ}
    (htid : tid < n) (h : Restored env E n init t0 tid t) {b : Bool} {planned : PlannedTest}
    (hchange : (t.planned.setTxn tid fun x => { x with stmts := init.txnStmt tid }).changeTxnStatus
      tid (init.txnStatus tid) = .ok (b, planned)) :
    Restored env E n init t0 (tid + 1) (t.withPlanned planned) := by
  have hinv := h.inv.restoreTxn hrule hchange
  have hwords := h.inv.dutWords
  have htxn : ∀ u, ((t.planned.setTxn tid fun x => { x with stmts := init.txnStmt tid }).txn u) =
      if u = tid then { t.planned.txn tid with stmts := init.txnStmt tid } else t.planned.txn u :=
    PlannedTest.setTxn_txn _ _ _
  obtain ⟨-, ⟨-, hstatus, rfl⟩ | ⟨-, -, -, hchanged⟩⟩ := PlannedTest.changeTxnStatus_spec hchange
  · refine ⟨hinv, h.plan, h.stmt, fun u hu => ?_⟩
    show ((t.planned.setTxn tid fun x => { x with stmts := init.txnStmt tid }).txn u).status = _ ∧
      ((t.planned.setTxn tid fun x => { x with stmts := init.txnStmt tid }).txn u).stmts = _
    rw [htxn, if_pos rfl] at hstatus
    rw [htxn]
    by_cases hut : u = tid
    · subst hut
      rw [if_pos rfl]
      exact ⟨hstatus, rfl⟩
    · rw [if_neg hut]
      exact h.txn u (by omega)
  · refine ⟨hinv, hchanged.plan.trans h.plan, fun i hi => ?_, fun u hu => ?_⟩
    · show planned.stmt i = _
      by_cases hend : i < t.planned.plan.stmtNum ∧ t.planned.plan.tidQueue i = tid ∧
          t.planned.plan.endsTxn (t.planned.stmt i) = true
      · -- the word that the status asks for is already there
        rw [(hchanged.replaced i hend).1]
        have hends : endsText (t0.planned.stmt i) = true := by
          rw [← h.stmt i hi, ← PlannedTest.endsTxn_eq hwords]
          exact hend.2.2
        have hview : Framed (beginStmt tid) (init.txnStatus tid)
            (t0.planned.view (t0.planned.plan.tidQueue i)) := by
          rw [hqueue, ← h.plan, hend.2.1]
          exact (hframed tid htid).1
        rw [show t0.planned.stmt i = _ from (hview.ends hi hends).1]
        exact PlannedTest.endStmt_eq hwords _
      · rw [(hchanged.kept i hend).1]
        exact h.stmt i hi
    · show (planned.txn u).status = _ ∧ (planned.txn u).stmts = _
      rw [hchanged.txn, htxn, htxn]
      by_cases hut : u = tid
      · subst hut
        rw [if_pos rfl, if_pos rfl]
        refine ⟨rfl, ?_⟩
        obtain ⟨hframe, hstmts⟩ := hframed u htid
        obtain ⟨x, hx, htext, -⟩ := hframe.getLast
        have hlast : (init.txnStmt u).getLast? = some (endWord (init.txnStatus u)) := by
          rw [hstmts, List.getLast?_map, hx, Option.map_some, htext]
        have hend : (t.planned.setTxn u fun x => { x with stmts := init.txnStmt u }).endStmt
            (init.txnStatus u) = endWord (init.txnStatus u) := PlannedTest.endStmt_eq hwords _
        rw [hend]
        exact List.dropLast_append_getLast? _ hlast
      · rw [if_neg hut, if_neg hut]
        exact h.txn u (by omega)

theorem restore_consistent (hrule : EntryRule env (dutSetup n) E)
    (hinit : ∀ e ∈ init.stmtQueue, E e.stmt e.usage) (hframed : InitFramed env beginStmt n init)
    (ht : t.QueueInv env (dutSetup n) E) (h : restore env init t = .ok t') :
    t'.planned.AllFramed beginStmt ∧ t'.Consistent beginStmt := by
  have hqueue := RoundTest.view_setStmtQueue env t init.stmtQueue
  have hnum : t.planned.transNum = n := congrArg RoundSetup.transNum ht.setup
  have hstart : Restored env E n init (t.setStmtQueue env init.stmtQueue) 0
      (t.setStmtQueue env init.stmtQueue) :=
    ⟨ht.setStmtQueue hinit, rfl, fun _ _ => rfl, fun tid htid => absurd htid (Nat.not_lt_zero tid)⟩
  have hend := forRange_inv (Restored env E n init (t.setStmtQueue env init.stmtQueue)) hstart
    (fun tid htid u u' hu hround => by
      obtain ⟨⟨b, planned⟩, hchange, hround⟩ := bind_eq_ok_iff.1 hround
      cases hround
      have htid' : tid < t.planned.transNum := htid
      exact hu.round hrule hframed hqueue (by rw [← hnum]; exact htid') hchange) h
  have hnum' : t'.planned.transNum = n := congrArg RoundSetup.transNum hend.inv.setup
  have htxn : ∀ tid < n, (t'.planned.txn tid).status = init.txnStatus tid ∧
      (t'.planned.txn tid).stmts = init.txnStmt tid := by
    intro tid htid
    refine hend.txn tid ?_
    show tid < t.planned.transNum
    rw [hnum]
    exact htid
  have hview : ∀ tid, t'.planned.view tid = RoundTest.viewOf env init.stmtQueue tid := by
    intro tid
    rw [← hqueue, PlannedTest.view, PlannedTest.view, hend.plan]
    refine List.map_congr_left fun i hi => ?_
    rw [hend.stmt i (RoundTest.mem_ofTxn.1 hi).1, PlannedTest.use, hend.plan, PlannedTest.use]
  have hall : t'.planned.AllFramed beginStmt := by
    intro tid htid
    rw [hnum'] at htid
    rw [hview, (htxn tid htid).1]
    exact (hframed tid htid).1
  refine ⟨hall, RoundTest.consistent_of_framed hend.inv hall fun tid htid => ?_⟩
  rw [hnum'] at htid
  rw [(htxn tid htid).2, (hframed tid htid).2, ← hview, PlannedTest.view, List.map_map]
  rfl

end Restore

/-! The refinement loop. -/

namespace RefineState

variable {Val : Type} {env : RoundEnv Val} {beginStmt : ℕ → String} {n fuel : ℕ}
  {deletedNodes : Finset StmtId} {r r' s s' : RefineState Val}

/-- The analysis that `refine_stmt_queue` is given. -/
def refineDa (r : RefineState Val) : Analysis := r.tmpDa.getD r.initDa

theorem refineStmtQueue_refineDa {b : Bool} (h : r.refineStmtQueue = .ok (b, s)) :
    ∃ g' planned, r.test.planned.refineStmtQueue r.refineDa.da.queue r.refineDa.graph
        r.longestStmtPath = .ok (b, g', planned) ∧
      ∀ beginStmt, s.test.planned.AllFramed beginStmt = planned.AllFramed beginStmt := by
  unfold refineStmtQueue at h
  unfold refineDa
  cases htmp : r.tmpDa with
  | none =>
    rw [htmp] at h
    obtain ⟨⟨isRefined, g', planned⟩, hrefine, h⟩ := bind_eq_ok_iff.1 h
    cases h
    refine ⟨g', planned, hrefine, fun beginStmt => ?_⟩
    cases b <;> rfl
  | some a =>
    rw [htmp] at h
    obtain ⟨⟨isRefined, g', planned⟩, hrefine, h⟩ := bind_eq_ok_iff.1 h
    cases h
    refine ⟨g', planned, hrefine, fun beginStmt => ?_⟩
    cases b <;> rfl

/-- The group of a statement that the refinement drops has no begin, commit or abort statement. -/
def ControlsSpared (beginStmt : ℕ → String) (r : RefineState Val) : Prop :=
  ∀ i, r.test.planned.Dropped r.longestStmtPath i →
    ∀ k ∈ r.refineDa.da.queue.stmtSet r.refineDa.graph i, ¬ r.test.planned.IsControlStmt beginStmt k

/-- A refinement and the scheduling after it that spare the control statements. -/
structure ControlsKept (env : RoundEnv Val) (beginStmt : ℕ → String) (r s : RefineState Val) :
    Prop where
  spared : r.ControlsSpared beginStmt
  scheduled : (s.test.cleanInstrument env).ControlsScheduled env beginStmt

/-- The states at the loop's head as long as the control statements are spared. -/
def KeptIterates (env : RoundEnv Val) (beginStmt : ℕ → String) (deletedNodes : Finset StmtId) :
    RefineState Val → RefineState Val → Prop :=
  Relation.ReflTransGen fun r r' => ∃ s fuel, r.refineStmtQueue = .ok (true, s) ∧
    ControlsKept env beginStmt r s ∧ s.rerun env fuel deletedNodes = .ok (none, r')

theorem KeptIterates.iterates (h : KeptIterates env beginStmt deletedNodes r r') :
    Iterates env deletedNodes r r' :=
  Relation.ReflTransGen.mono (fun _ _ ⟨s, fuel, hrefine, _, hrerun⟩ => ⟨s, fuel, hrefine, hrerun⟩)
    _ _ h

theorem allFramed_refined (hbegin : ∀ tid, BeginWord (beginStmt tid))
    (hr : r.test.QueueInv env (dutSetup n) RoundTest.InitEntry)
    (hframed : r.test.planned.AllFramed beginStmt) (hspared : r.ControlsSpared beginStmt) {b : Bool}
    (h : r.refineStmtQueue = .ok (b, s)) : s.test.planned.AllFramed beginStmt := by
  obtain ⟨g', planned, hrefine, hsame⟩ := refineStmtQueue_refineDa h
  rw [hsame]
  exact PlannedTest.allFramed_refine hbegin hr.dutWords hframed hspared hrefine

/-- After `clean_instrument`, and after the instrumentation of the rescheduled queue. -/
theorem consistent_reschedule (hquery : ∀ q, endsText (env.queryText q) = false)
    (hs : s.test.QueueInv env (dutSetup n) RoundTest.InitEntry)
    (hclear : s.test.planned.test.Cleared) (hframed : s.test.planned.AllFramed beginStmt) :
    (s.test.cleanInstrument env).Consistent beginStmt ∧
      ((s.test.cleanInstrument env).ControlsScheduled env beginStmt → ∀ fuel s',
        s.reschedule env fuel = .ok s' → s'.test.planned.AllFramed beginStmt ∧
          s'.test.Consistent beginStmt) := by
  have hrule := RoundTest.entryRule_init env (endsPlain_dutSetup n)
  have hemits := RoundTest.emitsEntries_init env
  have hclean : (s.test.setStmtQueue env
      (DbFuzz.cleanInstrument s.test.stmtQueue)).planned.AllFramed beginStmt :=
    RoundTest.allFramed_cleanInstrument hs.printed hframed
  have hframed' : (s.test.cleanInstrument env).planned.AllFramed beginStmt :=
    RoundTest.allFramed_alignTxns hclean
  refine ⟨RoundTest.consistent_alignTxns hs.cleanInstrument hclean,
    fun hcontrols fuel s' h => ?_⟩
  obtain ⟨t1, after, g, t3, hsched, h1, hinfer, h2, hinst, h3, -, htest⟩ :=
    reschedule_queues hrule hemits hs hclear h
  have hcleared : (s.test.cleanInstrument env).planned.test.Cleared :=
    RoundTest.cleared_cleanInstrument hclear
  obtain ⟨hframed1, hlength⟩ := RoundTest.allFramed_blockScheduling hrule.clean fuel _ _
    hs.cleanInstrument hcleared hframed' hcontrols hsched
  have hview : ∀ tid, (s.test.cleanInstrument env).planned.view tid =
      RoundTest.viewOf env (DbFuzz.cleanInstrument s.test.stmtQueue) tid :=
    RoundTest.view_setStmtQueue env s.test _
  have hbefore : ∀ tid < t1.planned.transNum, Framed (beginStmt tid)
      ((s.test.cleanInstrument env).planned.txn tid).status
      (RoundTest.viewOf env (DbFuzz.cleanInstrument s.test.stmtQueue) tid) := by
    intro tid htid
    rw [show t1.planned.transNum = n from congrArg RoundSetup.transNum h1.setup] at htid
    rw [← hview]
    refine hframed' tid ?_
    rw [show (s.test.cleanInstrument env).planned.transNum = n from
      congrArg RoundSetup.transNum hs.cleanInstrument.setup]
    exact htid
  have hafter : (t1.setStmtQueue env after).planned.AllFramed beginStmt :=
    RoundTest.allFramed_inferInstrument h1.printed hframed1 s.test.tid_nonneg hbefore
      (fun tid => by rw [← RoundTest.view_eq h1.printed, ← hview]; exact hlength tid) hinfer
  obtain ⟨queue, rfl, hout⟩ := RoundTest.allFramed_instrumentTxnStmts hquery h2
    (fun _ _ he => he.1.control) hafter hinst
  rw [htest]
  exact ⟨RoundTest.allFramed_alignTxns hout, RoundTest.consistent_alignTxns h3 hout⟩

theorem allFramed_rerun (hquery : ∀ q, endsText (env.queryText q) = false)
    (hs : s.test.QueueInv env (dutSetup n) RoundTest.InitEntry)
    (hclear : s.test.planned.test.Cleared) (hframed : s.test.planned.AllFramed beginStmt)
    (hcontrols : (s.test.cleanInstrument env).ControlsScheduled env beginStmt)
    {exit : Option RefineExit} (h : s.rerun env fuel deletedNodes = .ok (exit, s')) :
    s'.test.planned.AllFramed beginStmt := by
  have hrule := RoundTest.entryRule_init env (endsPlain_dutSetup n)
  have hemits := RoundTest.emitsEntries_init env
  obtain ⟨s1, hsched, h⟩ := bind_eq_ok_iff.1 h
  obtain ⟨test, hrun, h⟩ := bind_eq_ok_iff.1 h
  obtain ⟨t1, after, g, t3, -, -, -, -, -, h3, hclear3, htest⟩ :=
    reschedule_queues hrule hemits hs hclear hsched
  have h1 := ((consistent_reschedule hquery hs hclear hframed).2 hcontrols _ _ hsched).1
  rw [htest] at hrun h1
  have hend := RoundTest.allFramed_transTest h3 hclear3 h1 hrun
  dsimp only at h
  split_ifs at h with herr
  · cases h
    exact hend
  · obtain ⟨⟨bug, da⟩, -, h⟩ := bind_eq_ok_iff.1 h
    cases bug with
    | true => cases h
    | false =>
      obtain ⟨sort, -, h⟩ := bind_eq_ok_iff.1 h
      cases h
      exact hend

theorem KeptIterates.allFramed (hbegin : ∀ tid, BeginWord (beginStmt tid))
    (hquery : ∀ q, endsText (env.queryText q) = false)
    (hr : r.test.QueueInv env (dutSetup n) RoundTest.InitEntry)
    (hframed : r.test.planned.AllFramed beginStmt)
    (h : KeptIterates env beginStmt deletedNodes r r') : r'.test.planned.AllFramed beginStmt := by
  have hrule := RoundTest.entryRule_init env (endsPlain_dutSetup n)
  have hemits := RoundTest.emitsEntries_init env
  induction h with
  | refl => exact hframed
  | tail hiter hstep ih =>
    obtain ⟨s, fuel, hrefine, hkept, hrerun⟩ := hstep
    have hinv := KeptIterates.iterates hiter |>.queueInv hrule hemits hr
    exact allFramed_rerun hquery (queueInv_refine hrule hinv hrefine) (cleared_refine hrefine)
      (allFramed_refined hbegin hinv ih hkept.spared hrefine) hkept.scheduled hrerun

end RefineState

/-! The run. -/

section Run

variable {Val : Type} {env : RoundEnv Val} {beginStmt : ℕ → String} {n fuel : ℕ}
  {E : Prod Val → StmtUsage → Prop} {t t' : RoundTest Val} {init : InitStatus Val}
  {s0 s : RoundState Val} {paths : List (List StmtId)}

/-- What the first run of the statements records. -/
theorem firstAnalysis_initFramed (h : firstAnalysis env fuel t = .ok (some (init, s0)))
    (hs0 : s0.test.QueueInv env (dutSetup n) E) (hframed : s0.test.planned.AllFramed beginStmt)
    (hcons : s0.test.Consistent beginStmt) : InitFramed env beginStmt n init := by
  have hnum : s0.test.planned.transNum = n := congrArg RoundSetup.transNum hs0.setup
  have hinit : init = ⟨s0.test.stmtQueue, fun tid => (s0.test.planned.txn tid).status,
      fun tid => (s0.test.planned.txn tid).stmts⟩ := by
    obtain ⟨t1, -, h⟩ := bind_eq_ok_iff.1 h
    obtain ⟨t2, -, h⟩ := bind_eq_ok_iff.1 h
    obtain ⟨t3, -, h⟩ := bind_eq_ok_iff.1 h
    split_ifs at h
    · cases h
    obtain ⟨⟨bug, da⟩, -, h⟩ := bind_eq_ok_iff.1 h
    cases bug with
    | true => cases h
    | false =>
      cases h
      rfl
  subst hinit
  intro tid htid
  rw [← hnum] at htid
  refine ⟨?_, ?_⟩
  · rw [← RoundTest.view_eq hs0.printed]
    exact hframed tid htid
  · rw [← RoundTest.view_eq hs0.printed, PlannedTest.view, List.map_map]
    exact hcons.stmts tid htid

/-- The first instrumentation, and the run after it. -/
theorem firstAnalysis_framed (hbegin : ∀ tid, BeginWord (beginStmt tid))
    (hquery : ∀ q, endsText (env.queryText q) = false)
    (ht : t.QueueInv env (dutSetup n) (RoundTest.ControlEntry env beginStmt))
    (hclear : t.planned.test.Cleared) (hframed : t.planned.AllFramed beginStmt)
    (hcontrols : t.ControlsScheduled env beginStmt) {t1 t2 : RoundTest Val}
    (hsched : t.blockScheduling env fuel = .ok t1)
    (hinst : (t1.setStmtQueue env
      (t1.stmtQueue.filter fun e => !isSpaceHolder (env.print e.stmt))).instrumentTxnStmts env =
        .ok t2) :
    t2.QueueInv env (dutSetup n) RoundTest.InitEntry ∧ t2.planned.test.Cleared ∧
      t2.planned.AllFramed beginStmt ∧ t2.Consistent beginStmt := by
  have hrule := RoundTest.entryRule_control env beginStmt (endsPlain_dutSetup n)
  obtain ⟨h1, hclear1⟩ := RoundTest.QueueInv.blockScheduling hrule fuel _ _ ht hclear hsched
  obtain ⟨hframed1, -⟩ := RoundTest.allFramed_blockScheduling hrule fuel _ _ ht hclear hframed
    hcontrols hsched
  have hfilter : (t1.setStmtQueue env (t1.stmtQueue.filter fun e =>
      !isSpaceHolder (env.print e.stmt))).QueueInv env (dutSetup n)
        (RoundTest.ControlEntry env beginStmt) :=
    h1.setStmtQueue fun e he => h1.entry_mem e (List.mem_filter.1 he).1
  have h2 : t2.QueueInv env (dutSetup n) RoundTest.InitEntry :=
    hfilter.instrumentTxnStmts_of
      (fun _ _ _ _ _ hblock d hd => RoundTest.initEntry_emittedFor (mem_instrumentStmt hblock d hd))
      hinst
  obtain ⟨queue, rfl, hout⟩ := RoundTest.allFramed_instrumentTxnStmts hquery hfilter
    (fun _ _ he => he) (RoundTest.allFramed_filter hbegin h1.printed hframed1) hinst
  exact ⟨h2, TransTest.Cleared.alignTxns (RoundTest.cleared_setStmtQueue hclear1 _),
    RoundTest.allFramed_alignTxns hout, RoundTest.consistent_alignTxns h2 hout⟩

theorem firstAnalysis_consistent (hbegin : ∀ tid, BeginWord (beginStmt tid))
    (hquery : ∀ q, endsText (env.queryText q) = false)
    (ht : t.QueueInv env (dutSetup n) (RoundTest.ControlEntry env beginStmt))
    (hclear : t.planned.test.Cleared) (hframed : t.planned.AllFramed beginStmt)
    (hcontrols : t.ControlsScheduled env beginStmt)
    (h : firstAnalysis env fuel t = .ok (some (init, s0))) :
    s0.test.QueueInv env (dutSetup n) RoundTest.InitEntry ∧
      s0.test.planned.AllFramed beginStmt ∧ s0.test.Consistent beginStmt := by
  obtain ⟨t1, hsched, h⟩ := bind_eq_ok_iff.1 h
  obtain ⟨t2, hinst, h⟩ := bind_eq_ok_iff.1 h
  obtain ⟨t3, hrun, h⟩ := bind_eq_ok_iff.1 h
  obtain ⟨h2, hclear2, hframed2, hcons2⟩ := firstAnalysis_framed hbegin hquery ht hclear hframed
    hcontrols hsched hinst
  have hrule := RoundTest.entryRule_init env (endsPlain_dutSetup n)
  split_ifs at h with hhigh
  · cases h
  obtain ⟨⟨bug, da⟩, -, h⟩ := bind_eq_ok_iff.1 h
  cases bug with
  | true => cases h
  | false =>
    cases h
    exact ⟨h2.transTest hrule hclear2 hrun, RoundTest.allFramed_transTest h2 hclear2 hframed2 hrun,
      RoundTest.consistent_transTest h2 hrule hclear2 hframed2 hcons2 hrun⟩

theorem rounds_consistent {P : RoundState Val → Prop}
    (hs0 : s0.test.QueueInv env (dutSetup n) RoundTest.InitEntry)
    (hframed : s0.test.planned.AllFramed beginStmt) (hcons : s0.test.Consistent beginStmt)
    (hinit : ∀ e ∈ init.stmtQueue, RoundTest.InitEntry e.stmt e.usage)
    (hrecord : InitFramed env beginStmt n init) (h : Rounds env init fuel P s0 s paths) :
    s.test.planned.AllFramed beginStmt ∧ s.test.Consistent beginStmt := by
  have hrule := RoundTest.entryRule_init env (endsPlain_dutSetup n)
  have hemits := RoundTest.emitsEntries_init env
  cases h with
  | start => exact ⟨hframed, hcons⟩
  | next hrounds _ _ hround =>
    obtain ⟨t, ht, hrestore⟩ :=
      multiStmtRound_restored hrule hemits (hrounds.queueInv hrule hemits hinit hs0) hround
    exact restore_consistent hrule hinit hrecord ht hrestore

/-- As long as no begin, commit or abort statement is skipped by the scheduling or replaced with
the group of a statement that is not on the path, `trans_arr` has the statements of the queue,
from the begin statement to the end that the status asks for. -/
theorem trans_arr_consistent (hbegin : ∀ tid, BeginWord (beginStmt tid))
    (hquery : ∀ q, endsText (env.queryText q) = false) (ht : t.Called env)
    (hsetup : t.setup = dutSetup n)
    (hentry : ∀ e ∈ t.stmtQueue, RoundTest.ControlEntry env beginStmt e.stmt e.usage)
    (hframed : t.planned.AllFramed beginStmt) (hcontrols : t.ControlsScheduled env beginStmt) :
    (∀ t1 t2, t.blockScheduling env fuel = .ok t1 →
      (t1.setStmtQueue env
        (t1.stmtQueue.filter fun e => !isSpaceHolder (env.print e.stmt))).instrumentTxnStmts env =
          .ok t2 → t2.Consistent beginStmt) ∧
    ∀ init s0 s paths, firstAnalysis env fuel t = .ok (some (init, s0)) →
      Rounds env init fuel (fun _ => True) s0 s paths → s.test.Consistent beginStmt ∧
        ∀ sort r r', RefineState.KeptIterates env beginStmt s.deletedNodes (s.refineStart sort) r →
          r.refineStmtQueue = .ok (true, r') → r.ControlsSpared beginStmt →
            (r'.test.cleanInstrument env).Consistent beginStmt ∧
              ((r'.test.cleanInstrument env).ControlsScheduled env beginStmt →
                ∀ fuel r2, r'.reschedule env fuel = .ok r2 → r2.test.Consistent beginStmt) := by
  have hqueue : t.QueueInv env (dutSetup n) (RoundTest.ControlEntry env beginStmt) :=
    hsetup ▸ ht.queueInv hentry
  have hrule := RoundTest.entryRule_init env (endsPlain_dutSetup n)
  have hemits := RoundTest.emitsEntries_init env
  refine ⟨fun t1 t2 hsched hinst => (firstAnalysis_framed hbegin hquery hqueue ht.cleared hframed
    hcontrols hsched hinst).2.2.2, fun init s0 s paths hfirst hrounds => ?_⟩
  obtain ⟨hs0, hframed0, hcons0⟩ := firstAnalysis_consistent hbegin hquery hqueue ht.cleared hframed
    hcontrols hfirst
  have hinit : ∀ e ∈ init.stmtQueue, RoundTest.InitEntry e.stmt e.usage :=
    (firstAnalysis_queueInv (RoundTest.entryRule_control env beginStmt (endsPlain_dutSetup n)) hrule
      (fun _ _ _ _ _ hblock d hd => RoundTest.initEntry_emittedFor (mem_instrumentStmt hblock d hd))
      hqueue ht.cleared hfirst).2
  obtain ⟨hframed', hcons⟩ := rounds_consistent hs0 hframed0 hcons0 hinit
    (firstAnalysis_initFramed hfirst hs0 hframed0 hcons0) hrounds
  have hs : s.test.QueueInv env (dutSetup n) RoundTest.InitEntry :=
    hrounds.queueInv hrule hemits hinit hs0
  refine ⟨hcons, fun sort r r' hiter hrefine hspared => ?_⟩
  have hr : r.test.QueueInv env (dutSetup n) RoundTest.InitEntry :=
    hiter.iterates.queueInv hrule hemits hs
  have hframedr : r.test.planned.AllFramed beginStmt := hiter.allFramed hbegin hquery hs hframed'
  obtain ⟨hclean, hagain⟩ := RefineState.consistent_reschedule hquery
    (RefineState.queueInv_refine hrule hr hrefine) (RefineState.cleared_refine hrefine)
    (RefineState.allFramed_refined hbegin hr hframedr hspared hrefine)
  exact ⟨hclean, fun hcontrols' fuel r2 hresched => (hagain hcontrols' fuel r2 hresched).2⟩

/-! A transaction of four statements. -/

theorem beginWord_begin : BeginWord "BEGIN" :=
  ⟨by decide +kernel, by decide +kernel, by decide +kernel⟩

theorem framed_sampleTxn (answers : List TestResult) :
    (generatedTest 1 (sampleTxn 0) answers).planned.AllFramed fun _ => "BEGIN" := by
  intro tid htid
  obtain rfl : tid = 0 := Nat.lt_one_iff.1 htid
  let use : StmtUsage := .mk' .initType false
  refine ⟨("BEGIN", use), [("select 1", use), ("select 1", use)], ("COMMIT", use), rfl,
    ⟨rfl, rfl, rfl⟩, ⟨rfl, rfl, rfl⟩, ?_⟩
  simp only [List.forall_mem_cons]
  exact ⟨by decide +kernel, by decide +kernel, by decide +kernel, by simp⟩

/-- The statements of the first transaction at the head of the first round. -/
def headStmts (env : RoundEnv Val) (fuel : ℕ) (t : RoundTest Val) :
    Except Failure (Option (List String)) := do
  match ← firstAnalysis env fuel t with
  | none => return none
  | some (_, s) => return some (s.test.planned.txn 0).stmts

theorem headStmts_spec {stmts : List String} (h : headStmts env fuel t = .ok (some stmts)) :
    ∃ init s, firstAnalysis env fuel t = .ok (some (init, s)) ∧
      (s.test.planned.txn 0).stmts = stmts := by
  obtain ⟨first, hfirst, h⟩ := bind_eq_ok_iff.1 h
  cases first with
  | none => cases h
  | some first =>
    cases h
    exact ⟨first.1, first.2, hfirst, rfl⟩

/-- A skipped begin statement is erased with the placeholders. -/
theorem begin_skipped :
    let env := emptyDatabase []
    let t := generatedTest 1 (sampleTxn 0) [.error "skipped"]
    t.Called env ∧ t.setup = dutSetup 1 ∧ t.planned.AllFramed (fun _ => "BEGIN") ∧
      ∃ init s, firstAnalysis env 3 t = .ok (some (init, s)) ∧
        ¬ s.test.Consistent fun _ => "BEGIN" := by
  intro env t
  refine ⟨called_generated _ _ _ _, rfl, framed_sampleTxn _, ?_⟩
  have hhead : headStmts env 3 t = .ok (some ["select 1", "select 1", "COMMIT"]) := by
    decide +kernel
  obtain ⟨init, s, hfirst, hstmts⟩ := headStmts_spec hhead
  refine ⟨init, s, hfirst, fun hcons => ?_⟩
  have hnum : s.test.planned.transNum = 1 := by
    have hcalled : t.Called env := called_generated _ _ _ _
    have hany : EntryRule env t.setup fun _ _ => True := ⟨by simp, by simp, by simp⟩
    have hinv := firstAnalysis_queueInv hany hany (by simp) (hcalled.queueInv fun _ _ => trivial)
      hcalled.cleared hfirst
    exact congrArg RoundSetup.transNum hinv.1.setup
  have hbegin := hcons.first 0 (by rw [hnum]; exact Nat.zero_lt_one)
  rw [hstmts] at hbegin
  revert hbegin
  decide

/-- A first run in which nothing is skipped ends the scheduling. -/
theorem controlsScheduled_of_noFailing {t2 : RoundTest Val} (hrun : t.transTest env = .ok t2)
    (hfailing : t2.noFailing = true) (hcontrols : RoundTest.ControlsRun beginStmt t t2) :
    t.ControlsScheduled env beginStmt := by
  have honly : ∀ x, RoundTest.Scheduled env t x → x = t := by
    intro x hx
    induction hx with
    | start => rfl
    | again _ hrun' hfailing' ih =>
      rw [ih, hrun] at hrun'
      cases hrun'
      exact absurd (hfailing'.symm.trans hfailing) (by decide)
  intro x x2 hx hrun'
  rw [honly x hx, hrun] at hrun'
  cases hrun'
  rw [honly x hx]
  exact hcontrols

/-- Whether a run of the statements skips nothing. -/
def runsUnskipped (env : RoundEnv Val) (t : RoundTest Val) : Bool :=
  match t.transTest env with
  | .error _ => false
  | .ok t2 => t2.noFailing && (List.range t.planned.plan.stmtNum).all fun i =>
      !(t2.planned.test.settled t2.planned.plan i).any (·.skipped)

theorem controlsScheduled_of_runsUnskipped (h : runsUnskipped env t = true) :
    t.ControlsScheduled env beginStmt := by
  unfold runsUnskipped at h
  cases hrun : t.transTest env with
  | error => rw [hrun] at h; cases h
  | ok t2 =>
    rw [hrun] at h
    obtain ⟨hfailing, hall⟩ := Bool.and_eq_true_iff.1 h
    refine controlsScheduled_of_noFailing hrun hfailing fun i hi _ => ?_
    simpa using List.all_eq_true.1 hall i (List.mem_range.2 hi)

theorem trans_arr_consistent_commit :
    let env := emptyDatabase []
    let t := generatedTest 1 (sampleTxn 0) []
    ∃ init s, firstAnalysis env 3 t = .ok (some (init, s)) ∧
      s.test.Consistent fun _ => "BEGIN" := by
  intro env t
  have hhead : headStmts env 3 t = .ok (some ["BEGIN", "select 1", "select 1", "COMMIT"]) := by
    decide +kernel
  obtain ⟨init, s, hfirst, -⟩ := headStmts_spec hhead
  refine ⟨init, s, hfirst, ?_⟩
  have hempty : endsText "" = false := by decide +kernel
  have hother : ¬ ((∃ tid : ℕ, "select 1" = "BEGIN") ∨ endsText "select 1" = true) := by
    rintro (⟨-, h⟩ | h)
    · revert h
      decide
    · revert h
      decide +kernel
  refine ((trans_arr_consistent (fun _ => beginWord_begin) (fun _ => hempty)
    (called_generated _ _ _ _) rfl ?_ (framed_sampleTxn _)
    (controlsScheduled_of_runsUnskipped (by decide +kernel))).2 init s s [] hfirst .start).1
  rw [show t.stmtQueue = (sampleTxn 0).map fun e => ⟨e.1, e.2, .mk' .initType false⟩ from rfl]
  simp only [sampleTxn, List.map_cons, List.map_nil, List.forall_mem_cons]
  exact ⟨fun _ _ => ⟨_, rfl, by decide +kernel⟩, fun _ h => absurd h hother,
    fun _ h => absurd h hother, fun _ _ => ⟨_, rfl, by decide +kernel⟩, by simp⟩

end Run

end DbFuzz
