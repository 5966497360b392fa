import DbFuzz.TxCheck.Visibility
import Mathlib.Data.List.GetD

/-! What `check_G1a` and `check_G1b` find in a history: reads of aborted versions, and
versions that their writer overwrites while another transaction holds them. -/

namespace DbFuzz

deriving instance DecidableEq for OperateUnit

namespace AnalyzedQueue

variable {q : AnalyzedQueue} {ops : List OperateUnit}

/-! Aborted reads. -/

/-- A committed transaction read a row whose last earlier write result of the same hash is
one of another transaction, which aborted. -/
def AbortedRead (q : AnalyzedQueue) (ops : List OperateUnit) : Prop :=
  ∃ before op between target after, ops = before ++ op :: (between ++ target :: after) ∧
    (op.stmtU.stmtType = .afterWriteRead ∧ op.rowId = target.rowId ∧ op.hash = target.hash) ∧
    (∀ o ∈ between, ¬(o.stmtU.stmtType = .afterWriteRead ∧ o.rowId = target.rowId ∧
      o.hash = target.hash)) ∧
    q.LooksUp target ∧ q.status target.tid = .commit ∧ op.tid ≠ target.tid ∧
    q.status op.tid = .abort

theorem txn_writeRead_iff {t u : ℕ} : q.SequenceLabel ops (.txn t u .writeRead) ↔
    ∃ op target, q.LooksUp target ∧ NearestIn ops target op ∧ op.tid ≠ target.tid ∧
      t = op.tid ∧ u = target.tid := by
  constructor
  · rintro ⟨op, target, hedge, ⟨i, j, -, -, hl⟩ | ⟨hne, hl⟩⟩
    · cases hl
    · injection hl with ht hu
      cases hedge with
      | writeRead hlook hnear => exact ⟨op, target, hlook, hnear, hne, ht, hu⟩
  · rintro ⟨op, target, hlook, hnear, hne, rfl, rfl⟩
    exact ⟨op, target, .writeRead hlook hnear, Or.inr ⟨hne, rfl⟩⟩

theorem lt_of_status_abort {t : ℕ} (h : q.status t = .abort) : t < q.tidNum := by
  by_contra hlt
  rw [status, List.getD_eq_default _ _ (by rw [q.status_length]; omega)] at h
  cases h

theorem tid_lt_of_mem {initOutput : List StmtOutput} {op : OperateUnit}
    (h : op ∈ q.allOps initOutput) (hne : op.tid ≠ q.tidNum - 1) : op.tid < q.tidNum := by
  rcases mem_allOps_iff.1 h with ⟨row, -, rfl⟩ | ⟨i, hi, row, -, rfl⟩
  · exact absurd rfl hne
  · have hmem : q.tid i ∈ q.fTxnIdQueue := by
      unfold tid
      rw [List.getD_eq_getElem _ _ hi]
      exact List.getElem_mem hi
    exact q.tid_lt _ hmem

/-! Intermediate reads. -/

/-- `r` holds, in another transaction, the version that `w` wrote and whose writer reads
the row again for another write. -/
def Overwritten (ops : List OperateUnit) (w r : OperateUnit) : Prop :=
  w.stmtU.stmtType = .afterWriteRead ∧
    (∃ s ∈ ops, [w, s].Sublist ops ∧ s.rowId = w.rowId ∧ s.tid = w.tid ∧
      s.stmtU.stmtType = .beforeWriteRead) ∧
    r.rowId = w.rowId ∧ r.writeOpId = w.writeOpId ∧ r.tid ≠ w.tid

/-- A read of a committed transaction. -/
def CommittedRead (q : AnalyzedQueue) (r : OperateUnit) : Prop :=
  (r.stmtU.stmtType = .selectRead ∨ r.stmtU.stmtType = .versionSetRead ∨
    r.stmtU.stmtType = .beforeWriteRead) ∧ q.status r.tid = .commit

/-- A committed transaction read a version that its writer overwrote or deleted. -/
def IntermediateRead (q : AnalyzedQueue) (ops : List OperateUnit) : Prop :=
  ∃ w ∈ ops, ∃ r ∈ ops, Overwritten ops w r ∧ q.CommittedRead r

/-- `r` stands behind the write, up to the last statement of the writer. -/
def InTime (q : AnalyzedQueue) (ops : List OperateUnit) (w r : OperateUnit) : Prop :=
  [w, r].Sublist ops ∧ r.idx ≤ q.spans.endIdx w.tid

/-- Overwritten versions are held in time, but no committed transaction reads one. -/
def FalseAlarm (q : AnalyzedQueue) (ops : List OperateUnit) : Prop :=
  (∃ w r, Overwritten ops w r ∧ q.InTime ops w r) ∧
    ∀ w ∈ ops, ∀ r ∈ ops, Overwritten ops w r → ¬q.CommittedRead r

/-- Committed transactions read overwritten versions, but these are held before the read
of the write itself or behind the writer's last statement only. -/
def LateOnly (q : AnalyzedQueue) (ops : List OperateUnit) : Prop :=
  (∃ w ∈ ops, ∃ r ∈ ops, Overwritten ops w r ∧ q.CommittedRead r) ∧
    ∀ w r, Overwritten ops w r → ¬q.InTime ops w r

instance (ops : List OperateUnit) (w r : OperateUnit) : Decidable (Overwritten ops w r) :=
  inferInstanceAs (Decidable (_ ∧ _))

instance (q : AnalyzedQueue) (r : OperateUnit) : Decidable (q.CommittedRead r) :=
  inferInstanceAs (Decidable (_ ∧ _))

instance (q : AnalyzedQueue) (ops : List OperateUnit) : Decidable (q.IntermediateRead ops) :=
  inferInstanceAs (Decidable (∃ w ∈ ops, _))

end AnalyzedQueue

/-! Two updates of a row by one transaction, and the selects of another one. -/

def twiceTids : List ℕ := [0, 1, 0, 0, 0, 1, 0, 0, 0, 0, 1, 1]

/-- `before` and `after` are what the selects return between the updates, and behind the end
of their transaction. -/
def twiceUpdated (before after : StmtOutput) (writer reader : TxnStatus) : AnalyzerInput where
  initOutput := [[["0", "11000", "c"]]]
  totalOutput := [[], [], [["0", "11000", "c"]], [], [["2", "11000", "a"]], before,
    [["2", "11000", "a"]], [], [["3", "11000", "b"]], [], after, []]
  finalTidQueue := twiceTids
  finalStmtUsage := [.mk' .initType false, .mk' .initType false, ⟨.beforeWriteRead, true, "t_0"⟩,
    ⟨.updateWrite, false, "t_0"⟩, ⟨.afterWriteRead, true, "t_0"⟩, ⟨.selectRead, false, ""⟩,
    ⟨.beforeWriteRead, true, "t_0"⟩, ⟨.updateWrite, false, "t_0"⟩,
    ⟨.afterWriteRead, true, "t_0"⟩, .mk' .initType false, ⟨.selectRead, false, ""⟩,
    .mk' .initType false]
  finalTxnStatus := [writer, reader]
  primaryKeyIdx := 1
  writeOpKeyIdx := 0

theorem exists_ok_of_map (inp : AnalyzerInput) (p : DependencyAnalyzer → Bool)
    (h : ((dependencyAnalyzer inp).map p).toOption = some true) :
    ∃ a, dependencyAnalyzer inp = .ok a ∧ p a = true := by
  cases ha : dependencyAnalyzer inp with
  | error e =>
    rw [ha] at h
    cases h
  | ok a =>
    rw [ha] at h
    exact ⟨a, rfl, Option.some.inj h⟩

/-- `check_G1a` reports exactly the aborted reads. -/
theorem checkG1a_abortedRead {inp : AnalyzerInput} {a : DependencyAnalyzer}
    (h : dependencyAnalyzer inp = .ok a) :
    a.checkG1a = true ↔ a.queue.AbortedRead (a.queue.allOps inp.initOutput) := by
  obtain ⟨g1, g2, g3, g4, g5, hrun⟩ := dependencyAnalyzer_run h
  rw [DependencyAnalyzer.checkG1a_iff]
  constructor
  · rintro ⟨j, -, i, -, habort, hcommit, hdep⟩
    obtain ⟨op, target, hlook, ⟨before, between, after, hops, hmatch, hbetween⟩, hne, rfl, rfl⟩ :=
      AnalyzedQueue.txn_writeRead_iff.1
        ((hrun.rowLabel_iff (l := .txn j i .writeRead) (by simp [AnalyzedQueue.RowType, Label.type])).1 hdep)
    exact ⟨before, op, between, target, after, hops, hmatch, hbetween, hlook, hcommit, hne, habort⟩
  · rintro ⟨before, op, between, target, after, hops, hmatch, hbetween, hlook, hcommit, hne, habort⟩
    have hmem : target ∈ a.queue.allOps inp.initOutput := by
      rw [hops]
      simp
    refine ⟨op.tid, AnalyzedQueue.lt_of_status_abort habort, target.tid,
      AnalyzedQueue.tid_lt_of_mem hmem hlook.1, habort, hcommit, ?_⟩
    exact (hrun.rowLabel_iff (l := .txn op.tid target.tid .writeRead)
      (by simp [AnalyzedQueue.RowType, Label.type])).2 (AnalyzedQueue.txn_writeRead_iff.2
        ⟨op, target, hlook, ⟨before, between, after, hops, hmatch, hbetween⟩, hne, rfl, rfl⟩)

/-- A committed transaction reads the first version of an aborted one. -/
theorem checkG1a_abortedRead_update :
    ∃ a, dependencyAnalyzer (twiceUpdated [["2", "11000", "a"]] [] .abort .commit) = .ok a ∧
      (a.checkG1a = true ↔ a.queue.AbortedRead
        (a.queue.allOps (twiceUpdated [["2", "11000", "a"]] [] .abort .commit).initOutput)) := by
  obtain ⟨a, ha, -⟩ := exists_ok_of_map
    (twiceUpdated [["2", "11000", "a"]] [] .abort .commit)
    (fun a => a.checkG1a) (by decide +kernel)
  exact ⟨a, ha, checkG1a_abortedRead ha⟩

/-! What `check_G1b` looks for. -/

namespace AnalyzedQueue

variable {q : AnalyzedQueue}

/-- The end index is behind every statement of the transaction, unless it is not set. -/
theorem le_endIdx (q : AnalyzedQueue) (t : ℕ) :
    q.spans.endIdx t = -1 ∨ ∀ k < q.stmtNum, q.tid k = t → (k : ℤ) ≤ q.spans.endIdx t := by
  have hfold : ∀ n : ℕ,
      let sp := (List.range n).foldl (fun sp i => sp.visit (q.tid i) i) TxnSpans.init
      (sp.hasUsedBegin t = false → sp.endIdx t = -1) ∧ sp.endIdx t < n ∧
        (sp.endIdx t = -1 ∨ ∀ k < n, q.tid k = t → (k : ℤ) ≤ sp.endIdx t) := by
    intro n
    induction n with
    | zero => exact ⟨fun _ => rfl, (by decide : (-1 : ℤ) < 0), Or.inl rfl⟩
    | succ n ih =>
      rw [List.range_succ, List.foldl_append, List.foldl_cons, List.foldl_nil]
      generalize (List.range n).foldl (fun sp i => sp.visit (q.tid i) i) TxnSpans.init = sp at ih
      obtain ⟨hunused, hlt, hall⟩ := ih
      by_cases htid : q.tid n = t
      · subst htid
        cases hused : sp.hasUsedBegin (q.tid n) with
        | false =>
          simp only [TxnSpans.visit, hused, Bool.not_false, if_true]
          exact ⟨fun h => hunused hused, by omega, Or.inl (hunused hused)⟩
        | true =>
          simp only [TxnSpans.visit, hused, Bool.not_true, Bool.false_eq_true, if_false, true_and,
            if_pos hlt]
          exact ⟨fun h => absurd h (by simp), by omega, Or.inr fun k hk _ => by omega⟩
      · have hend : (sp.visit (q.tid n) n).endIdx t = sp.endIdx t := by
          unfold TxnSpans.visit
          split
          · rfl
          · exact if_neg fun h => htid h.1.symm
        have hbegin : (sp.visit (q.tid n) n).hasUsedBegin t = sp.hasUsedBegin t := by
          unfold TxnSpans.visit
          split
          · exact if_neg fun h => htid h.symm
          · rfl
        dsimp only
        rw [hend, hbegin]
        refine ⟨hunused, by omega, hall.imp id fun h k hk hkt => h k ?_ hkt⟩
        have : k ≠ n := fun hkn => htid (hkn ▸ hkt)
        omega
  exact (hfold q.stmtNum).2.2

/-- A scan, with what it has found so far. -/
theorem g1bScan_iff {wopId : ℤ} {tid : ℕ} {txnEndIdx : ℤ} {ops : List OperateUnit}
    (hops : ops.Pairwise fun x y => x.idx ≤ y.idx) {otherRead secondWrite : Bool}
    (hnew : (otherRead && secondWrite) = false) :
    DependencyAnalyzer.g1bScan wopId tid txnEndIdx otherRead secondWrite ops = true ↔
      (otherRead = true ∨ ∃ r ∈ ops, r.idx ≤ txnEndIdx ∧ r.writeOpId = wopId ∧ r.tid ≠ tid) ∧
      (secondWrite = true ∨ ∃ s ∈ ops, s.idx ≤ txnEndIdx ∧ s.tid = tid ∧
        s.stmtU.stmtType = .beforeWriteRead) := by
  induction ops generalizing otherRead secondWrite with
  | nil =>
    refine iff_of_false Bool.false_ne_true ?_
    rintro ⟨h | ⟨_, h, _⟩, h' | ⟨_, h', _⟩⟩
    · rw [h, h'] at hnew
      cases hnew
    · cases h'
    · cases h
    · cases h
  | cons op rest ih =>
    obtain ⟨hle, hrest⟩ := List.pairwise_cons.1 hops
    rw [DependencyAnalyzer.g1bScan]
    by_cases hidx : op.idx > txnEndIdx
    · -- the statements behind are later still
      rw [if_pos hidx]
      refine iff_of_false Bool.false_ne_true ?_
      have hlate : ∀ x ∈ op :: rest, ¬x.idx ≤ txnEndIdx := by
        intro x hx
        rcases List.mem_cons.1 hx with rfl | hx
        · omega
        · have := hle x hx
          omega
      rintro ⟨h | ⟨r, hr, hidx, -⟩, h' | ⟨s, hs, hidx', -⟩⟩
      · rw [h, h'] at hnew
        cases hnew
      · exact hlate s hs hidx'
      · exact hlate r hr hidx
      · exact hlate r hr hidx
    · rw [if_neg hidx]
      have hread : ((otherRead || (op.writeOpId == wopId && op.tid != tid)) = true ∨
          ∃ r ∈ rest, r.idx ≤ txnEndIdx ∧ r.writeOpId = wopId ∧ r.tid ≠ tid) ↔
          (otherRead = true ∨ ∃ r ∈ op :: rest, r.idx ≤ txnEndIdx ∧ r.writeOpId = wopId ∧
            r.tid ≠ tid) := by
        simp only [Bool.or_eq_true, Bool.and_eq_true, beq_iff_eq, bne_iff_ne, ne_eq, List.mem_cons,
          exists_eq_or_imp, not_lt.1 hidx, true_and, or_assoc]
      have hwrite : ((secondWrite || (op.tid == tid && op.stmtU.stmtType == .beforeWriteRead)) =
            true ∨
          ∃ s ∈ rest, s.idx ≤ txnEndIdx ∧ s.tid = tid ∧ s.stmtU.stmtType = .beforeWriteRead) ↔
          (secondWrite = true ∨ ∃ s ∈ op :: rest, s.idx ≤ txnEndIdx ∧ s.tid = tid ∧
            s.stmtU.stmtType = .beforeWriteRead) := by
        simp only [Bool.or_eq_true, Bool.and_eq_true, beq_iff_eq, List.mem_cons,
          exists_eq_or_imp, not_lt.1 hidx, true_and, or_assoc]
      rw [← hread, ← hwrite]
      generalize (otherRead || (op.writeOpId == wopId && op.tid != tid)) = otherRead'
      generalize (secondWrite || (op.tid == tid && op.stmtU.stmtType == .beforeWriteRead)) =
        secondWrite'
      dsimp only
      cases hboth : otherRead' && secondWrite' with
      | false =>
        rw [if_neg (by simp)]
        exact ih hrest hboth
      | true =>
        rw [if_pos rfl]
        rw [Bool.and_eq_true] at hboth
        exact iff_of_true rfl ⟨Or.inl hboth.1, Or.inl hboth.2⟩

/-- Two entries behind the same one. -/
theorem exists_split_of_pairs {α : Type} [DecidableEq α] {w r s : α} {l : List α}
    (hr : [w, r].Sublist l) (hs : [w, s].Sublist l) :
    ∃ before after, l = before ++ w :: after ∧ r ∈ after ∧ s ∈ after := by
  induction l with
  | nil => cases hr
  | cons x l ih =>
    by_cases hx : x = w
    · subst hx
      rw [List.cons_sublist_cons, List.singleton_sublist] at hr hs
      exact ⟨[], l, rfl, hr, hs⟩
    · have hskip : ∀ y, [w, y].Sublist (x :: l) → [w, y].Sublist l := by
        intro y hy
        cases hy with
        | cons _ hy => exact hy
        | cons_cons _ _ => exact absurd rfl hx
      obtain ⟨before, after, rfl, hra, hsa⟩ := ih (hskip r hr) (hskip s hs)
      exact ⟨x :: before, after, rfl, hra, hsa⟩

theorem g1bRow_iff {ops : List OperateUnit} (hops : ops.Pairwise fun x y => x.idx ≤ y.idx) :
    DependencyAnalyzer.g1bRow q ops = true ↔ ∃ w r s, [w, r].Sublist ops ∧ [w, s].Sublist ops ∧
      w.stmtU.stmtType = .afterWriteRead ∧
      (r.idx ≤ q.spans.endIdx w.tid ∧ r.writeOpId = w.writeOpId ∧ r.tid ≠ w.tid) ∧
      (s.idx ≤ q.spans.endIdx w.tid ∧ s.tid = w.tid ∧ s.stmtU.stmtType = .beforeWriteRead) := by
  have hsplit : ∀ ops : List OperateUnit, ops.Pairwise (fun x y => x.idx ≤ y.idx) →
      (DependencyAnalyzer.g1bRow q ops = true ↔ ∃ before w after, ops = before ++ w :: after ∧
        w.stmtU.stmtType = .afterWriteRead ∧
        (∃ r ∈ after, r.idx ≤ q.spans.endIdx w.tid ∧ r.writeOpId = w.writeOpId ∧ r.tid ≠ w.tid) ∧
        ∃ s ∈ after, s.idx ≤ q.spans.endIdx w.tid ∧ s.tid = w.tid ∧
          s.stmtU.stmtType = .beforeWriteRead) := by
    intro ops hops
    induction ops with
    | nil =>
      refine iff_of_false Bool.false_ne_true ?_
      rintro ⟨before, w, after, h, -⟩
      simp at h
    | cons op rest ih =>
      obtain ⟨-, hrest⟩ := List.pairwise_cons.1 hops
      rw [DependencyAnalyzer.g1bRow, Bool.or_eq_true, Bool.and_eq_true, beq_iff_eq, ih hrest,
        g1bScan_iff hrest (by rfl)]
      simp only [Bool.false_eq_true, false_or]
      constructor
      · rintro (⟨htype, hr, hs⟩ | ⟨before, w, after, rfl, hw⟩)
        · exact ⟨[], op, rest, rfl, htype, hr, hs⟩
        · exact ⟨op :: before, w, after, rfl, hw⟩
      · rintro ⟨before, w, after, h, hw⟩
        cases before with
        | nil =>
          obtain ⟨rfl, rfl⟩ := List.cons.inj h
          exact Or.inl hw
        | cons x before =>
          obtain ⟨rfl, rfl⟩ := List.cons.inj h
          exact Or.inr ⟨before, w, after, rfl, hw⟩
  rw [hsplit ops hops]
  constructor
  · rintro ⟨before, w, after, rfl, htype, ⟨r, hr, hread⟩, s, hs, hwrite⟩
    have hpair : ∀ x ∈ after, [w, x].Sublist (before ++ w :: after) := fun x hx =>
      (List.cons_sublist_cons.2 (List.singleton_sublist.2 hx)).trans
        (List.sublist_append_right before _)
    exact ⟨w, r, s, hpair r hr, hpair s hs, htype, hread, hwrite⟩
  · rintro ⟨w, r, s, hr, hs, htype, hread, hwrite⟩
    obtain ⟨before, after, rfl, hra, hsa⟩ := exists_split_of_pairs hr hs
    exact ⟨before, w, after, rfl, htype, ⟨r, hra, hread⟩, s, hsa, hwrite⟩

/-- The further write of the writer is in time when what another transaction holds is. -/
theorem again_in_time {initOutput : List StmtOutput} {w r s : OperateUnit}
    (hr : q.InTime (q.allOps initOutput) w r) (hne : r.tid ≠ w.tid)
    (hs : s ∈ q.allOps initOutput) (htid : s.tid = w.tid)
    (htype : s.stmtU.stmtType = .beforeWriteRead) : s.idx ≤ q.spans.endIdx w.tid := by
  obtain ⟨hpair, hidx⟩ := hr
  rcases mem_allOps_iff.1 hs with ⟨row, -, rfl⟩ | ⟨k, hk, row, -, rfl⟩
  · cases htype
  rcases q.le_endIdx w.tid with hunset | hall
  · -- then `r` and `w` are initial rows, of one transaction
    have hle : w.idx ≤ r.idx := by
      simpa using (q.allOps_ordered initOutput).sublist hpair
    have hinit : ∀ x ∈ [w, r], x.idx ≤ -1 → x.tid = q.tidNum - 1 := by
      intro x hx hidx
      rcases mem_allOps_iff.1 (hpair.subset hx) with ⟨row, -, rfl⟩ | ⟨i, -, row, -, rfl⟩
      · rfl
      · have hi : (i : ℤ) ≤ -1 := hidx
        omega
    have hwt := hinit w (by simp) (by omega)
    have hrt := hinit r (by simp) (by omega)
    exact absurd (hrt.trans hwt.symm) hne
  · exact hall k hk htid

end AnalyzedQueue

/-- `check_G1b` reports what another transaction holds of an overwritten version in time. -/
theorem checkG1b_inTime {inp : AnalyzerInput} {a : DependencyAnalyzer}
    (h : dependencyAnalyzer inp = .ok a) : a.checkG1b = true ↔
      ∃ w r, AnalyzedQueue.Overwritten (a.queue.allOps inp.initOutput) w r ∧
        a.queue.InTime (a.queue.allOps inp.initOutput) w r := by
  obtain ⟨g1, g2, g3, g4, g5, hrun⟩ := dependencyAnalyzer_run h
  have hsplits := (AnalyzedQueue.buildHistory_spec hrun.history).2.2
  have hordered := a.queue.allOps_ordered inp.initOutput
  generalize hops : a.queue.allOps inp.initOutput = ops at hsplits hordered
  have hrow : ∀ row ∈ a.h, row.2 = ops.filter fun o => o.rowId = row.1 := hsplits.row
  rw [DependencyAnalyzer.checkG1b, List.any_eq_true]
  constructor
  · rintro ⟨row, hmem, hg⟩
    have hsub : row.2.Sublist ops := by
      rw [hrow row hmem]
      exact List.filter_sublist
    have hid : ∀ x ∈ row.2, x.rowId = row.1 := by
      intro x hx
      rw [hrow row hmem] at hx
      simpa using (List.mem_filter.1 hx).2
    obtain ⟨w, r, s, hr, hs, htype, ⟨hidx, hkey, hne⟩, -, htid, hbefore⟩ :=
      (AnalyzedQueue.g1bRow_iff (hordered.sublist hsub)).1 hg
    have hwid := hid w (hr.subset (by simp))
    exact ⟨w, r, ⟨htype, ⟨s, hsub.subset (hs.subset (by simp)), hs.trans hsub,
      (hid s (hs.subset (by simp))).trans hwid.symm, htid, hbefore⟩,
      (hid r (hr.subset (by simp))).trans hwid.symm, hkey, hne⟩, hr.trans hsub, hidx⟩
  · rintro ⟨w, r, ⟨htype, ⟨s, hs, hws, hsid, htid, hbefore⟩, hrid, hkey, hne⟩, htime⟩
    have hsidx := AnalyzedQueue.again_in_time (hops ▸ htime) hne (hops ▸ hs) htid hbefore
    obtain ⟨hwr, hidx⟩ := htime
    obtain ⟨row, hmem, hid⟩ := List.mem_map.1 (hsplits.listed w (hwr.subset (by simp)))
    have hpair : ∀ x, [w, x].Sublist ops → x.rowId = w.rowId → [w, x].Sublist row.2 := by
      intro x hx hxid
      rw [hrow row hmem]
      have := hx.filter fun o => decide (o.rowId = row.1)
      rwa [List.filter_eq_self.2 (by simp [hid, hxid])] at this
    refine ⟨row, hmem, (AnalyzedQueue.g1bRow_iff ?_).2 ⟨w, r, s, hpair r hwr hrid,
      hpair s hws hsid, htype, ⟨hidx, hkey, hne⟩, hsidx, htid, hbefore⟩⟩
    rw [hrow row hmem]
    exact hordered.sublist List.filter_sublist

end DbFuzz
