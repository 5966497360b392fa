import DbFuzz.TxCheck.Anomalies
import DbFuzz.TxCheck.RowEdges
import Mathlib.Data.Finset.Lattice.Fold
import Mathlib.Order.Lattice.Nat

/-! Histories of a store with correct isolation: a read returns its own latest version of
a row, an initial row, or the last version of a committed transaction. On these the
analyzer raises no alarm, as long as the versions of a row are told apart by their hash. -/

namespace DbFuzz

open Loop

namespace AnalyzedQueue

/-! The visibility rule. -/

/-- A version of a row: an initial row, or one an after write read returned. -/
def Version (q : AnalyzedQueue) (initOutput : List StmtOutput) : Option ℕ → RowOutput → Prop
  | none, row => row ∈ initOutput.flatten
  | some j, row =>
    j < q.stmtNum ∧ (q.usage j).stmtType = .afterWriteRead ∧ row ∈ q.output j

/-- The transaction of the version wrote no later one of the row before statement `k`. -/
def LastBefore (q : AnalyzedQueue) (j k : ℕ) (row : RowOutput) : Prop :=
  ∀ m, j < m → m < k → q.tid m = q.tid j → (q.usage m).stmtType = .afterWriteRead →
    ∀ row' ∈ q.output m, q.primaryOf row' ≠ q.primaryOf row

/-- The commit, the last statement of the transaction, stands before `i`. -/
def CommitsBefore (q : AnalyzedQueue) (t i : ℕ) : Prop :=
  q.status t = .commit ∧ ∃ c < i, q.tid c = t ∧ ∀ k < q.stmtNum, q.tid k = t → k ≤ c

/-- The rows that the read `i` may return. -/
inductive Visible (q : AnalyzedQueue) (initOutput : List StmtOutput) (i : ℕ) (row : RowOutput) :
    Prop
  | own (j : ℕ) (hj : j < i) (hv : q.Version initOutput (some j) row) (htid : q.tid j = q.tid i)
      (hlast : q.LastBefore j i row) : Visible q initOutput i row
  | initial (hv : q.Version initOutput none row) : Visible q initOutput i row
  | committed (j : ℕ) (hv : q.Version initOutput (some j) row)
      (hcommit : q.CommitsBefore (q.tid j) i) (hlast : q.LastBefore j q.stmtNum row) :
      Visible q initOutput i row

structure CorrectHistory (q : AnalyzedQueue) (initOutput : List StmtOutput) : Prop where
  tids : ∀ i < q.stmtNum, q.tid i < q.tidNum - 1
  reads : ∀ i < q.stmtNum, (q.usage i).stmtType ≠ .afterWriteRead → ∀ row ∈ q.output i,
    q.Visible initOutput i row
  distinct : ∀ v w row row', q.Version initOutput v row → q.Version initOutput w row' →
    q.primaryOf row = q.primaryOf row' →
    keyOf row q.versionKeyIndex = keyOf row' q.versionKeyIndex → v = w ∧ row = row'

/-- The versions of one row have different hashes. -/
def NoCollision (q : AnalyzedQueue) (initOutput : List StmtOutput) : Prop :=
  ∀ v w row row', q.Version initOutput v row → q.Version initOutput w row' →
    q.primaryOf row = q.primaryOf row' → hashOutput row = hashOutput row' → row = row'

/-! Versions as operations. -/

def writer (q : AnalyzedQueue) : Option ℕ → ℕ
  | none => q.tidNum - 1
  | some j => q.tid j

def versionOp (q : AnalyzedQueue) (v : Option ℕ) (row : RowOutput) : OperateUnit :=
  match v with
  | none => q.initOp row
  | some j => q.rowOp (q.usage j) (q.tid j) (some j) row

variable {q : AnalyzedQueue} {initOutput : List StmtOutput}

@[simp] theorem versionOp_tid (q : AnalyzedQueue) (v : Option ℕ) (row : RowOutput) :
    (q.versionOp v row).tid = q.writer v := by cases v <;> rfl

@[simp] theorem versionOp_stmtIdx (q : AnalyzedQueue) (v : Option ℕ) (row : RowOutput) :
    (q.versionOp v row).stmtIdx = v := by cases v <;> rfl

@[simp] theorem versionOp_hash (q : AnalyzedQueue) (v : Option ℕ) (row : RowOutput) :
    (q.versionOp v row).hash = hashOutput row := by cases v <;> rfl

theorem versionOp_rowId (q : AnalyzedQueue) (v : Option ℕ) (row : RowOutput) :
    (q.versionOp v row).rowId = (q.primaryOf row).toOption.getD 0 := by cases v <;> rfl

theorem versionOp_writeOpId (q : AnalyzedQueue) (v : Option ℕ) (row : RowOutput) :
    (q.versionOp v row).writeOpId = (keyOf row q.versionKeyIndex).toOption.getD 0 := by
  cases v <;> rfl

theorem Version.type_eq {v : Option ℕ} {row : RowOutput} (h : q.Version initOutput v row) :
    (q.versionOp v row).stmtU.stmtType = .afterWriteRead := by
  cases v with
  | none => rfl
  | some j => exact h.2.1

theorem mem_allOps_iff {op : OperateUnit} : op ∈ q.allOps initOutput ↔
    (∃ row ∈ initOutput.flatten, op = q.initOp row) ∨
      ∃ i < q.stmtNum, ∃ row ∈ q.output i, op = q.rowOp (q.usage i) (q.tid i) (some i) row := by
  simp only [allOps, initOps, stmtOps, List.mem_append, List.mem_map, List.mem_flatMap,
    List.mem_range]
  constructor
  · rintro (⟨row, hrow, rfl⟩ | ⟨i, hi, row, hrow, rfl⟩)
    · exact Or.inl ⟨row, hrow, rfl⟩
    · exact Or.inr ⟨i, hi, row, hrow, rfl⟩
  · rintro (⟨row, hrow, rfl⟩ | ⟨i, hi, row, hrow, rfl⟩)
    · exact Or.inl ⟨row, hrow, rfl⟩
    · exact Or.inr ⟨i, hi, row, hrow, rfl⟩

theorem Version.mem_allOps {v : Option ℕ} {row : RowOutput} (h : q.Version initOutput v row) :
    q.versionOp v row ∈ q.allOps initOutput := by
  rw [mem_allOps_iff]
  cases v with
  | none => exact Or.inl ⟨row, h, rfl⟩
  | some j => exact Or.inr ⟨j, h.1, row, h.2.2, rfl⟩

/-- An operation of the sequence is a version or a row of a read. -/
theorem mem_allOps_cases {op : OperateUnit} (h : op ∈ q.allOps initOutput) :
    (∃ v row, q.Version initOutput v row ∧ op = q.versionOp v row) ∨
      ∃ i < q.stmtNum, (q.usage i).stmtType ≠ .afterWriteRead ∧ ∃ row ∈ q.output i,
        op = q.versionOp (some i) row := by
  rcases mem_allOps_iff.1 h with ⟨row, hrow, rfl⟩ | ⟨i, hi, row, hrow, rfl⟩
  · exact Or.inl ⟨none, row, hrow, rfl⟩
  · by_cases htype : (q.usage i).stmtType = .afterWriteRead
    · exact Or.inl ⟨some i, row, ⟨hi, htype, hrow⟩, rfl⟩
    · exact Or.inr ⟨i, hi, htype, row, hrow, rfl⟩

/-- The sequence is in the order of the queue. -/
theorem allOps_ordered (q : AnalyzedQueue) (initOutput : List StmtOutput) :
    (q.allOps initOutput).Pairwise fun x y => x.idx ≤ y.idx := by
  have hinit : ∀ op ∈ q.initOps initOutput, op.idx = -1 := by
    intro op hop
    obtain ⟨row, -, rfl⟩ := List.mem_map.1 hop
    rfl
  have hstmt : ∀ i, ∀ op ∈ q.stmtOps i, op.idx = i := by
    intro i op hop
    obtain ⟨row, -, rfl⟩ := List.mem_map.1 hop
    rfl
  refine List.pairwise_append.2 ⟨?_, ?_, ?_⟩
  · refine List.Pairwise.imp_of_mem (R := fun _ _ => True) ?_ (List.pairwise_of_forall fun _ _ => trivial)
    intro x y hx hy _
    rw [hinit x hx, hinit y hy]
  · rw [List.pairwise_flatMap]
    refine ⟨fun i _ => ?_, ?_⟩
    · refine List.Pairwise.imp_of_mem (R := fun _ _ => True) ?_ (List.pairwise_of_forall fun _ _ => trivial)
      intro x y hx hy _
      rw [hstmt i x hx, hstmt i y hy]
    · refine List.pairwise_lt_range.imp fun {i j} hij x hx y hy => ?_
      rw [hstmt i x hx, hstmt j y hy]
      omega
  · intro x hx y hy
    obtain ⟨i, -, hy⟩ := List.mem_flatMap.1 hy
    rw [hinit x hx, hstmt i y hy]
    omega

/-! What a read of a correct history is traced to. -/

theorem Version.keyed {h : History} (hbuild : q.buildHistory initOutput = .ok h) {v : Option ℕ}
    {row : RowOutput} (hv : q.Version initOutput v row) : q.Keyed row := by
  obtain ⟨hinit, houtput, -⟩ := buildHistory_spec hbuild
  cases v with
  | none => exact hinit row hv
  | some j => exact houtput j hv.1 row hv.2.2

/-- Rows with integer keys and the same id have the same key. -/
theorem key_eq_of_getD {idx : ℕ} {row row' : RowOutput} (h : ∃ k, keyOf row idx = .ok k)
    (h' : ∃ k, keyOf row' idx = .ok k)
    (he : (keyOf row idx).toOption.getD 0 = (keyOf row' idx).toOption.getD 0) :
    keyOf row idx = keyOf row' idx := by
  obtain ⟨k, hk⟩ := h
  obtain ⟨k', hk'⟩ := h'
  rw [hk, hk'] at he ⊢
  exact congrArg _ he

/-- The version a read returns stands before it, and its writer has committed unless it is
the reader. -/
theorem Visible.source {i : ℕ} {row : RowOutput} (h : q.Visible initOutput i row) :
    ∃ v, q.Version initOutput v row ∧ (q.versionOp v row).idx < i ∧
      (q.writer v = q.tid i ∨ v = none ∨ q.CommitsBefore (q.writer v) i) := by
  cases h with
  | own j hj hv htid => exact ⟨some j, hv, Int.ofNat_lt.2 hj, Or.inl htid⟩
  | initial hv => exact ⟨none, hv, Int.negSucc_lt_zero 0 |>.trans_le (Int.natCast_nonneg i),
      Or.inr (Or.inl rfl)⟩
  | committed j hv hcommit =>
    have ⟨_, c, hci, _, hlast⟩ := hcommit
    have hj := hlast j hv.1 rfl
    exact ⟨some j, hv, Int.ofNat_lt.2 (by omega), Or.inr (Or.inr hcommit)⟩

section Correct

variable {h : History}

/-- A version of the same row with the same hash is the one returned. -/
theorem NoCollision.eq_of_matches (hhash : q.NoCollision initOutput)
    (hc : q.CorrectHistory initOutput) (hbuild : q.buildHistory initOutput = .ok h)
    {v w : Option ℕ} {row row' : RowOutput} (hv : q.Version initOutput v row)
    (hw : q.Version initOutput w row')
    (hrow : (q.versionOp w row').rowId = (q.versionOp v row).rowId)
    (heq : (q.versionOp w row').hash = (q.versionOp v row).hash) : w = v := by
  rw [versionOp_rowId, versionOp_rowId] at hrow
  rw [versionOp_hash, versionOp_hash] at heq
  have hprimary := key_eq_of_getD (hw.keyed hbuild).1 (hv.keyed hbuild).1 hrow
  obtain rfl := hhash w v row' row hw hv hprimary heq
  exact (hc.distinct w v row' row' hw hv rfl rfl).1

/-- A version of the same row with the same version key is the one returned. -/
theorem CorrectHistory.eq_of_key (hc : q.CorrectHistory initOutput)
    (hbuild : q.buildHistory initOutput = .ok h) {v w : Option ℕ} {row row' : RowOutput}
    (hv : q.Version initOutput v row) (hw : q.Version initOutput w row')
    (hrow : (q.versionOp w row').rowId = (q.versionOp v row).rowId)
    (heq : (q.versionOp w row').writeOpId = (q.versionOp v row).writeOpId) : w = v := by
  rw [versionOp_rowId, versionOp_rowId] at hrow
  rw [versionOp_writeOpId, versionOp_writeOpId] at heq
  exact (hc.distinct w v row' row hw hv
    (key_eq_of_getD (hw.keyed hbuild).1 (hv.keyed hbuild).1 hrow)
    (key_eq_of_getD (hw.keyed hbuild).2 (hv.keyed hbuild).2 heq)).1

/-- A looked up operation is a row of a read, with the version it returns. -/
theorem CorrectHistory.lookup (hc : q.CorrectHistory initOutput) {target : OperateUnit}
    (htarget : target ∈ q.allOps initOutput) (hlook : q.LooksUp target) :
    ∃ i < q.stmtNum, ∃ v row, target = q.versionOp (some i) row ∧ q.Version initOutput v row ∧
      (q.versionOp v row).idx < i ∧
      (q.writer v = q.tid i ∨ v = none ∨ q.CommitsBefore (q.writer v) i) := by
  rcases mem_allOps_cases htarget with ⟨v, row, hv, rfl⟩ | ⟨i, hi, htype, row, hrow, rfl⟩
  · exact absurd hv.type_eq hlook.2
  · obtain ⟨v, hv, hlt, hw⟩ := (hc.reads i hi htype row hrow).source
    exact ⟨i, hi, v, row, rfl, hv, hlt, hw⟩

/-- Every read has its write before it. -/
theorem CorrectHistory.not_unmatched (hc : q.CorrectHistory initOutput) {target : OperateUnit}
    (hlook : q.LooksUp target) : ¬Unmatched (q.allOps initOutput) target := by
  rintro ⟨before, after, hops, hnone⟩
  obtain ⟨i, -, v, row, rfl, hv, hlt, -⟩ := hc.lookup (by rw [hops]; simp) hlook
  have hordered := allOps_ordered q initOutput
  have hmem := hv.mem_allOps
  rw [hops] at hordered hmem
  have hafter := (List.pairwise_append.1 hordered).2.1
  have hidx : (q.versionOp (some i) row).idx = i := rfl
  rcases List.mem_append.1 hmem with hb | ha
  · exact hnone _ hb ⟨hv.type_eq, by rw [versionOp_rowId, versionOp_rowId],
      by rw [versionOp_hash, versionOp_hash]⟩
  · rcases List.mem_cons.1 ha with he | ha
    · rw [he, hidx] at hlt
      omega
    · have := (List.pairwise_cons.1 hafter).1 _ ha
      rw [hidx] at this
      omega

/-- A read dependency between two transactions comes from the initial rows or from a
transaction that has committed before the read. -/
theorem CorrectHistory.txn_edge (hc : q.CorrectHistory initOutput)
    (hhash : q.NoCollision initOutput) (hbuild : q.buildHistory initOutput = .ok h) {t u : ℕ}
    {dt : DependencyType} (hdt : dt = .writeRead ∨ dt = .writeWrite)
    (hlabel : q.SequenceLabel (q.allOps initOutput) (.txn t u dt)) :
    ∃ i < q.stmtNum, u = q.tid i ∧ (t = q.tidNum - 1 ∨ q.CommitsBefore t i) := by
  obtain ⟨op, target, hedge, hop⟩ := hlabel
  have hnear : q.LooksUp target ∧ NearestIn (q.allOps initOutput) target op := by
    change q.RowEdge _ dt op target at hedge
    cases hedge with
    | writeRead hlook hnear => exact ⟨hlook, hnear⟩
    | writeWrite hlook _ hnear => exact ⟨hlook, hnear⟩
    | readWrite => rcases hdt with hdt | hdt <;> cases hdt
  obtain ⟨hlook, before, between, after, hops, ⟨htype, hrow, heq⟩, -⟩ := hnear
  obtain ⟨i, hi, v, row, rfl, hv, -, hwriter⟩ := hc.lookup (by rw [hops]; simp) hlook
  -- the nearest match is the version the read returned
  have hop' : op.tid = q.writer v := by
    have hmem : op ∈ q.allOps initOutput := by rw [hops]; simp
    rcases mem_allOps_cases hmem with ⟨w, row', hw, rfl⟩ | ⟨k, -, hread, row', -, rfl⟩
    · rw [versionOp_rowId, versionOp_rowId, ← versionOp_rowId q v row, ← versionOp_rowId q w row']
        at hrow
      rw [versionOp_hash, versionOp_hash, ← versionOp_hash q v row, ← versionOp_hash q w row'] at heq
      rw [versionOp_tid, hhash.eq_of_matches hc hbuild hv hw hrow heq]
    · exact absurd htype hread
  rcases hop with ⟨_, _, -, -, hl⟩ | ⟨hne, hl⟩
  · cases hl
  · injection hl with ht hu
    subst ht hu
    refine ⟨i, hi, rfl, ?_⟩
    rw [hop'] at hne ⊢
    rcases hwriter with hself | rfl | hcommit
    · exact absurd hself hne
    · exact Or.inl rfl
    · exact Or.inr hcommit

end Correct

/-! The end index of `build_start_dependency`. -/

theorem endIdx_spec (q : AnalyzedQueue) (t : ℕ) :
    q.spans.endIdx t = -1 ∨ ∃ k < q.stmtNum, q.tid k = t ∧ q.spans.endIdx t = k := by
  have hfold : ∀ n, let sp := (List.range n).foldl (fun sp i => sp.visit (q.tid i) i) TxnSpans.init
      sp.endIdx t = -1 ∨ ∃ k < n, q.tid k = t ∧ sp.endIdx t = k := by
    intro n
    induction n with
    | zero => exact Or.inl rfl
    | succ n ih =>
      rw [List.range_succ, List.foldl_append, List.foldl_cons, List.foldl_nil]
      generalize (List.range n).foldl (fun sp i => sp.visit (q.tid i) i) TxnSpans.init = sp at ih
      have hold : sp.endIdx t = -1 ∨ ∃ k < n + 1, q.tid k = t ∧ sp.endIdx t = k :=
        ih.imp id fun ⟨k, hk, hkt⟩ => ⟨k, by omega, hkt⟩
      unfold TxnSpans.visit
      dsimp only
      split
      · exact hold
      · dsimp only
        split
        · next hc => exact Or.inr ⟨n, by omega, hc.1.symm, rfl⟩
        · exact hold
  exact hfold q.stmtNum

/-- The first transaction id beyond the arrays is the initial one, which has committed. -/
theorem status_initial {inp : AnalyzerInput} (hq : inp.copy = .ok q) :
    q.status (q.tidNum - 1) = .commit := by
  unfold AnalyzerInput.copy at hq
  split_ifs at hq
  obtain rfl := Except.ok.inj hq
  simp [AnalyzedQueue.status, AnalyzerInput.tNum]

/-- The rank of a transaction: the place of its last statement. -/
def endRank (q : AnalyzedQueue) (t : ℕ) : ℕ :=
  if t = q.tidNum - 1 then 0
  else ((Finset.range q.stmtNum).filter fun k => q.tid k = t).sup id + 1

theorem CommitsBefore.endRank_lt {t i : ℕ} (h : q.CommitsBefore t i) (hi : i < q.stmtNum)
    (htid : q.tid i ≠ q.tidNum - 1) : q.endRank t < q.endRank (q.tid i) := by
  obtain ⟨-, c, hci, -, hlast⟩ := h
  have hle : i ≤ ((Finset.range q.stmtNum).filter fun k => q.tid k = q.tid i).sup id :=
    Finset.le_sup (f := id) (Finset.mem_filter.2 ⟨Finset.mem_range.2 hi, rfl⟩)
  have hsup : ((Finset.range q.stmtNum).filter fun k => q.tid k = t).sup id ≤ c := by
    refine Finset.sup_le fun k hk => ?_
    rw [Finset.mem_filter, Finset.mem_range] at hk
    exact hlast k hk.1 hk.2
  unfold endRank
  rw [if_neg htid]
  split <;> omega

end AnalyzedQueue

open AnalyzedQueue

/-! The constructor fails with its bug report only in the row builders. -/

theorem copy_ne_bugError (inp : AnalyzerInput) : inp.copy ≠ .error bugError := by
  unfold AnalyzerInput.copy
  split_ifs
  · simp
  · simp [bugError]
  · rw [bugError, ne_eq, Except.error.injEq, Failure.runtimeError.injEq]
    decide

theorem dependencyAnalyzer_ne_bugError {inp : AnalyzerInput} (hrows : ∀ q h, inp.copy = .ok q →
      q.buildHistory inp.initOutput = .ok h → ∀ target, q.LooksUp target →
        ¬Unmatched (q.allOps inp.initOutput) target) :
    dependencyAnalyzer inp ≠ .error bugError := by
  refine bind_ne_error (copy_ne_bugError inp) fun q hq => ?_
  refine bind_ne_error (foreign_bugError.buildHistory_ne q _) fun h hh => ?_
  refine bind_ne_error (foreign_bugError.buildStmtInstrumentDependency_ne q _) fun g1 _ => ?_
  obtain ⟨g2, h2⟩ := (buildRowDependencies_ok_iff (buildHistory_spec hh).2.2 g1).2 (hrows q h hq hh)
  refine bind_ne_error (by rw [h2]; simp) fun g _ => ?_
  obtain ⟨g3, h3⟩ := q.buildStartDependency_ok g
  refine bind_ne_error (by rw [h3]; simp) fun g _ => ?_
  refine bind_ne_error (foreign_bugError.buildVSDependency_ne q g) fun g _ => ?_
  refine bind_ne_error (foreign_bugError.buildOWDependency_ne q g) fun g _ => ?_
  obtain ⟨g6, h6⟩ := q.buildStmtInnerDependency_ok g
  exact bind_ne_error (by rw [h6]; simp) fun g _ => by simp [pure, Except.pure]

/-! No alarm. -/

section NoAlarm

variable {inp : AnalyzerInput} {a : DependencyAnalyzer} {g1 g2 g3 g4 g5 : Graphs}

theorem DependencyAnalyzer.Run.txn_edge (hrun : a.Run inp g1 g2 g3 g4 g5)
    (hc : a.queue.CorrectHistory inp.initOutput) (hhash : a.queue.NoCollision inp.initOutput)
    {t u : ℕ} {dt : DependencyType} (hdt : dt = .writeRead ∨ dt = .writeWrite)
    (h : dt ∈ a.graphs.txn t u) :
    ∃ i < a.queue.stmtNum, u = a.queue.tid i ∧
      (t = a.queue.tidNum - 1 ∨ a.queue.CommitsBefore t i) := by
  have htype : RowType (Label.txn t u dt).type := by
    rcases hdt with rfl | rfl <;> simp [RowType, Label.type]
  exact hc.txn_edge hhash hrun.history hdt ((hrun.rowLabel_iff htype).1 h)

theorem DependencyAnalyzer.Run.checkG1a_false (hrun : a.Run inp g1 g2 g3 g4 g5)
    (hc : a.queue.CorrectHistory inp.initOutput) (hhash : a.queue.NoCollision inp.initOutput) :
    a.checkG1a = false := by
  rw [← Bool.not_eq_true, checkG1a_iff]
  rintro ⟨j, -, i, -, habort, -, hdep⟩
  obtain ⟨k, -, -, rfl | hcommit⟩ := hrun.txn_edge hc hhash (Or.inl rfl) hdep
  · rw [status_initial hrun.copy] at habort
    cases habort
  · rw [hcommit.1] at habort
    cases habort

theorem DependencyAnalyzer.Run.checkG1c_false (hrun : a.Run inp g1 g2 g3 g4 g5)
    (hc : a.queue.CorrectHistory inp.initOutput) (hhash : a.queue.NoCollision inp.initOutput) :
    a.checkG1c = .ok false := by
  obtain ⟨b, hb, hcyclic⟩ := a.checkG1c_spec
  have hacyclic : ¬Reduce.Cyclic a.queue.tidNum a.g1cGraph := by
    refine Reduce.not_cyclic_of_rank a.queue.endRank fun t u hedge => ?_
    have hdep := hedge.2.2
    rw [g1cGraph, Bool.and_eq_true, decide_eq_true_eq] at hdep
    have hsome : ∃ dt : DependencyType, (dt = .writeRead ∨ dt = .writeWrite) ∧
        dt ∈ a.graphs.txn t u := by
      rcases hdep.2 with hww | hwr
      · exact ⟨_, Or.inr rfl, hww⟩
      · exact ⟨_, Or.inl rfl, hwr⟩
    obtain ⟨dt, hdt, hmem⟩ := hsome
    obtain ⟨i, hi, rfl, rfl | hcommit⟩ := hrun.txn_edge hc hhash hdt hmem
    · have := hc.tids i hi
      unfold endRank
      rw [if_pos rfl, if_neg (by omega)]
      omega
    · have := hc.tids i hi
      exact hcommit.endRank_lt hi (by omega)
  cases b with
  | false => exact hb
  | true => exact absurd (hcyclic.1 rfl) hacyclic

theorem DependencyAnalyzer.Run.checkG1b_false (hrun : a.Run inp g1 g2 g3 g4 g5)
    (hc : a.queue.CorrectHistory inp.initOutput) : a.checkG1b = false := by
  rw [← Bool.not_eq_true]
  intro hg
  obtain ⟨row, hrow, op, op', hsub, htype, hidx, hkey, htid⟩ := checkG1b_read hg
  have hsplits := (buildHistory_spec hrun.history).2.2
  rw [hsplits.row row hrow] at hsub
  have hmem : ∀ x ∈ [op, op'], x ∈ a.queue.allOps inp.initOutput ∧ x.rowId = row.1 := by
    intro x hx
    simpa using List.mem_filter.1 (hsub.subset hx)
  obtain ⟨hop, hoprow⟩ := hmem op (by simp)
  obtain ⟨hop', hoprow'⟩ := hmem op' (by simp)
  -- `op` is a version, whose key `op'` carries in another transaction
  rcases mem_allOps_cases hop with ⟨v, r, hv, rfl⟩ | ⟨k, -, hread, r, -, rfl⟩
  swap
  · exact hread htype
  rw [versionOp_tid] at htid hidx
  have hend := a.queue.endIdx_spec (a.queue.writer v)
  rcases mem_allOps_cases hop' with ⟨w, r', hw, rfl⟩ | ⟨i, hi, hread, r', hr', rfl⟩
  · have := hc.eq_of_key hrun.history hv hw (hoprow'.trans hoprow.symm) hkey
    rw [versionOp_tid, this] at htid
    exact htid rfl
  · obtain ⟨w, hw, -, hwriter⟩ := (hc.reads i hi hread r' hr').source
    have hsame : w = v := by
      refine hc.eq_of_key hrun.history hv hw ?_ ?_
      · rw [hoprow, ← hoprow', versionOp_rowId, versionOp_rowId]
      · rw [← hkey, versionOp_writeOpId, versionOp_writeOpId]
    subst hsame
    rw [versionOp_tid] at htid
    have hidx' : (i : ℤ) ≤ a.queue.spans.endIdx (a.queue.writer w) := hidx
    rcases hwriter with hself | rfl | ⟨-, c, hci, -, hlast⟩
    · exact htid hself.symm
    · -- no statement belongs to the initial transaction
      rcases hend with hend | ⟨k, hk, hkt, -⟩
      · omega
      · have := hc.tids k hk
        rw [hkt] at this
        exact absurd this (by simp [writer])
    · rcases hend with hend | ⟨k, hk, hkt, hke⟩
      · omega
      · have := hlast k hk hkt
        omega

end NoAlarm

/-- The order is `B0 B1 R0 U0 R0 S1 C1 A0`. -/
def updateTids : List ℕ := [0, 1, 0, 0, 0, 1, 1, 0]

def updateUsages : List StmtUsage :=
  [.mk' .initType false, .mk' .initType false, ⟨.beforeWriteRead, true, "t_0"⟩,
    ⟨.updateWrite, false, "t_0"⟩, ⟨.afterWriteRead, true, "t_0"⟩, ⟨.selectRead, false, ""⟩,
    .mk' .initType false, .mk' .initType false]

def initialRow : RowOutput := ["0", "11000", "naaaaadiafbll"]

def updateOutputs (text : String) : List StmtOutput :=
  [[], [], [initialRow], [], [["2", "11000", text]], [initialRow], [], []]

/-- The update writes `text`. -/
def abortedUpdate (text : String) : AnalyzerInput where
  initOutput := [[initialRow]]
  totalOutput := updateOutputs text
  finalTidQueue := updateTids
  finalStmtUsage := updateUsages
  finalTxnStatus := [.abort, .commit]
  primaryKeyIdx := 1
  writeOpKeyIdx := 0

def abortedUpdateQueue (text : String) : AnalyzedQueue where
  tidNum := 3
  primaryKeyIndex := 1
  versionKeyIndex := 0
  fTxnStatus := [.abort, .commit, .commit]
  fTxnIdQueue := updateTids
  fStmtUsage := updateUsages
  fStmtOutput := updateOutputs text
  usage_length := rfl
  output_length := rfl
  status_length := rfl
  tid_lt := by decide

theorem abortedUpdate_version {text : String} {v : Option ℕ} {row : RowOutput}
    (h : (abortedUpdateQueue text).Version (abortedUpdate text).initOutput v row) :
    v = none ∧ row = initialRow ∨ v = some 4 ∧ row = ["2", "11000", text] := by
  cases v with
  | none => exact Or.inl ⟨rfl, List.mem_singleton.1 h⟩
  | some j =>
    obtain ⟨hj, htype, hrow⟩ := h
    have hafter : ∀ j < 8, (updateUsages.getD j (.mk' .initType false)).stmtType = .afterWriteRead →
        j = 4 := by decide
    obtain rfl := hafter j hj htype
    exact Or.inr ⟨rfl, List.mem_singleton.1 hrow⟩

theorem abortedUpdate_correct (text : String) :
    (abortedUpdateQueue text).CorrectHistory (abortedUpdate text).initOutput where
  tids := by
    have htids : ∀ i < 8, updateTids.getD i 0 < 2 := by decide
    exact htids
  reads i hi htype row hrow := by
    have hinit : ∀ i < 8, i ≠ 4 → ∀ row ∈ (updateOutputs text).getD i [], row = initialRow := by
      intro i hi hne row hrow
      have hi : i = 0 ∨ i = 1 ∨ i = 2 ∨ i = 3 ∨ i = 5 ∨ i = 6 ∨ i = 7 := by omega
      rcases hi with rfl | rfl | rfl | rfl | rfl | rfl | rfl
      any_goals exact absurd hrow List.not_mem_nil
      all_goals exact List.mem_singleton.1 hrow
    refine .initial ?_
    rw [hinit i hi (fun h4 => htype (by rw [h4]; rfl)) row hrow]
    exact List.mem_singleton.2 rfl
  distinct v w row row' hv hw _ hkey := by
    have hkeys : keyOf initialRow 0 ≠ keyOf ["2", "11000", text] 0 := by
      have h0 : keyOf initialRow 0 = .ok 0 := by decide
      have h2 : keyOf ["2", "11000", text] 0 = .ok 2 := by rfl
      rw [h0, h2]
      decide
    rcases abortedUpdate_version hv with ⟨rfl, rfl⟩ | ⟨rfl, rfl⟩ <;>
      rcases abortedUpdate_version hw with ⟨rfl, rfl⟩ | ⟨rfl, rfl⟩
    · exact ⟨rfl, rfl⟩
    · exact absurd hkey hkeys
    · exact absurd hkey hkeys.symm
    · exact ⟨rfl, rfl⟩

end DbFuzz
