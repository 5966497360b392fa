import DbFuzz.TxCheck.TopoSort

/-! What one round of the sort does: it outputs a group no branch enters, or, when a
branch enters every group that is left, deletes a group. -/

namespace DbFuzz

open Loop

namespace AnalyzedQueue

variable {q : AnalyzedQueue} {g g' : StmtGraph} {st st' : SortState} {i j : ℕ}

/-- The statement is neither in the path nor deleted. -/
def Left (q : AnalyzedQueue) (st : SortState) (i : ℕ) : Prop :=
  q.sid i ∉ st.outputted ∧ q.sid i ∉ st.deleted

theorem isDone_eq_false : st.isDone (q.sid i) = false ↔ q.Left st i := by
  simp [SortState.isDone, Left]

/-- A branch enters the group of `i` from outside. -/
def Entered (q : AnalyzedQueue) (g tmp : StmtGraph) (i : ℕ) : Prop :=
  ∃ c ∈ q.stmtSet g i, ∃ j < q.stmtNum, j ∉ q.stmtSet g i ∧ q.Branch tmp j c

theorem Entered.of_mem {tmp : StmtGraph} (h : q.Entered g tmp i) (hi : i < q.stmtNum)
    (hj : j ∈ q.stmtSet g i) : q.Entered g tmp j := by
  unfold Entered
  rw [stmtSet_eq hi hj]
  exact h

/-- The effect of erasing the branches of some statements. -/
def Erased (q : AnalyzedQueue) (l : List ℕ) (tmp tmp' : StmtGraph) : Prop :=
  ∀ i j, i < q.stmtNum → j < q.stmtNum → tmp' (q.sid i) (q.sid j) =
    if i ∈ l ∨ j ∈ l then none else tmp (q.sid i) (q.sid j)

theorem Erased.refl (q : AnalyzedQueue) (tmp : StmtGraph) : q.Erased [] tmp tmp := by
  intro i j _ _
  simp

theorem Erased.cons {c : ℕ} {l : List ℕ} {tmp tmp' : StmtGraph} (hc : c < q.stmtNum)
    (h : q.Erased l (q.eraseBranches (q.sid c) tmp) tmp') : q.Erased (c :: l) tmp tmp' := by
  intro i j hi hj
  rw [h i j hi hj, eraseBranches_sid hi hj hc]
  simp only [List.mem_cons]
  split_ifs with h1 h2 h3 <;> first | rfl | grind

theorem Erased.branch_iff {l : List ℕ} {tmp tmp' : StmtGraph} (h : q.Erased l tmp tmp')
    (hi : i < q.stmtNum) (hj : j < q.stmtNum) :
    q.Branch tmp' i j ↔ q.Branch tmp i j ∧ i ∉ l ∧ j ∉ l := by
  unfold Branch
  rw [h i j hi hj]
  split_ifs with hl
  · simp only [Option.isSome_none, Bool.false_eq_true, false_iff]
    rintro ⟨-, h1, h2⟩
    exact hl.elim h1 h2
  · rw [not_or] at hl
    exact ⟨fun hb => ⟨hb, hl⟩, fun hb => hb.1⟩

theorem Erased.ordered_iff {l : List ℕ} {tmp tmp' : StmtGraph} (h : q.Erased l tmp tmp')
    (hi : i < q.stmtNum) (hj : j < q.stmtNum) :
    q.Ordered tmp' i j ↔ q.Ordered tmp i j ∧ i ∉ l ∧ j ∉ l := by
  unfold Ordered StmtGraph.labels
  rw [h i j hi hj]
  split_ifs with hl
  · simp only [Option.getD_none, Finset.notMem_empty, false_and, exists_false, false_iff]
    rintro ⟨-, h1, h2⟩
    exact hl.elim h1 h2
  · rw [not_or] at hl
    exact ⟨fun hb => ⟨hb, hl⟩, fun hb => hb.1⟩

/-- `st'` is `st` after the statements `l` were deleted. -/
structure DeletedBy (q : AnalyzedQueue) (l : List ℕ) (st st' : SortState) : Prop where
  graph : st'.graph = st.graph
  outputted : st'.outputted = st.outputted
  path : st'.path = st.path
  flag : st'.deleteFlag = st.deleteFlag
  mem : ∀ s, s ∈ st'.deleted ↔ s ∈ st.deleted ∨ ∃ c ∈ l, s = q.sid c
  tmp : q.Erased l st.tmp st'.tmp

/-- `st'` is `st` after the statements `l` were put on the path. -/
structure OutputBy (q : AnalyzedQueue) (l : List ℕ) (st st' : SortState) : Prop where
  graph : st'.graph = st.graph
  deleted : st'.deleted = st.deleted
  path : st'.path = st.path ++ l.map q.sid
  flag : st'.deleteFlag = st.deleteFlag
  mem : ∀ s, s ∈ st'.outputted ↔ s ∈ st.outputted ∨ ∃ c ∈ l, s = q.sid c
  tmp : q.Erased l st.tmp st'.tmp

theorem foldl_deleteStmt (l : List ℕ) (hl : ∀ c ∈ l, c < q.stmtNum) (st : SortState) :
    q.DeletedBy l st (l.foldl q.deleteStmt st) := by
  induction l generalizing st with
  | nil => exact ⟨rfl, rfl, rfl, rfl, by simp, Erased.refl q _⟩
  | cons c l ih =>
    have hrest := ih (fun d hd => hl d (List.mem_cons_of_mem c hd)) (q.deleteStmt st c)
    refine ⟨hrest.graph, hrest.outputted, hrest.path, hrest.flag, fun s => ?_,
      hrest.tmp.cons (hl c List.mem_cons_self)⟩
    rw [List.foldl_cons, hrest.mem]
    simp only [deleteStmt, Finset.mem_insert, List.mem_cons, exists_eq_or_imp]
    tauto

theorem foldl_outputStmt (l : List ℕ) (hl : ∀ c ∈ l, c < q.stmtNum) (st : SortState) :
    q.OutputBy l st (l.foldl q.outputStmt st) := by
  induction l generalizing st with
  | nil => exact ⟨rfl, rfl, by simp, rfl, by simp, Erased.refl q _⟩
  | cons c l ih =>
    have hrest := ih (fun d hd => hl d (List.mem_cons_of_mem c hd)) (q.outputStmt st c)
    refine ⟨hrest.graph, hrest.deleted, ?_, hrest.flag, fun s => ?_,
      hrest.tmp.cons (hl c List.mem_cons_self)⟩
    · rw [List.foldl_cons, hrest.path]
      simp [outputStmt]
    · rw [List.foldl_cons, hrest.mem]
      simp only [outputStmt, Finset.mem_insert, List.mem_cons, exists_eq_or_imp]
      tauto

/-! The searches. -/

theorem hasInBranch_iff {tmp : StmtGraph} {idxSet : Finset ℕ} {c : ℕ} :
    q.hasInBranch tmp idxSet c = true ↔ ∃ j < q.stmtNum, j ∉ idxSet ∧ q.Branch tmp j c := by
  simp [hasInBranch, Branch]

theorem hasIndegree_fst {tmp : StmtGraph} {idxSet : Finset ℕ} (l : List ℕ) (checked : Finset ℕ) :
    (q.hasIndegree tmp idxSet l checked).1 = true ↔
      ∃ c ∈ l, q.hasInBranch tmp idxSet c = true := by
  induction l generalizing checked with
  | nil => simp [hasIndegree]
  | cons c l ih =>
    rw [hasIndegree]
    split_ifs with h
    · simp [h]
    · rw [ih]
      simp [h]

theorem hasIndegree_snd {tmp : StmtGraph} {idxSet : Finset ℕ} (l : List ℕ) (checked : Finset ℕ) :
    ∀ k ∈ (q.hasIndegree tmp idxSet l checked).2, k ∈ checked ∨ k ∈ l := by
  induction l generalizing checked with
  | nil => exact fun k hk => Or.inl hk
  | cons c l ih =>
    intro k hk
    rw [hasIndegree] at hk
    split_ifs at hk with h
    · rcases Finset.mem_insert.1 hk with rfl | hk
      · exact Or.inr List.mem_cons_self
      · exact Or.inl hk
    · rcases ih _ k hk with hk | hk
      · rcases Finset.mem_insert.1 hk with rfl | hk
        · exact Or.inr List.mem_cons_self
        · exact Or.inl hk
      · exact Or.inr (List.mem_cons_of_mem c hk)

/-- The query over a whole group decides whether a branch enters it. -/
theorem hasIndegree_stmtSet {tmp : StmtGraph} {checked : Finset ℕ} :
    (q.hasIndegree tmp (q.stmtSet g i) (q.indices (q.stmtSet g i)) checked).1 = true ↔
      ∃ c ∈ q.indices (q.stmtSet g i), ∃ j < q.stmtNum, j ∉ q.stmtSet g i ∧ q.Branch tmp j c := by
  rw [hasIndegree_fst]
  simp only [hasInBranch_iff]

theorem entered_iff {tmp : StmtGraph} (hi : i < q.stmtNum) : q.Entered g tmp i ↔
    ∃ c ∈ q.indices (q.stmtSet g i), ∃ j < q.stmtNum, j ∉ q.stmtSet g i ∧ q.Branch tmp j c := by
  constructor
  · rintro ⟨c, hc, h⟩
    exact ⟨c, mem_indices.2 ⟨lt_of_mem_stmtSet hi hc, hc⟩, h⟩
  · rintro ⟨c, hc, h⟩
    exact ⟨c, (mem_indices.1 hc).2, h⟩

theorem findZeroIndegree_spec (st : SortState) (k : ℕ) (hk : k ≤ q.stmtNum) (hg : SameLabels g g')
    (checked : Finset ℕ) (hchecked : ∀ c ∈ checked, q.Entered g st.tmp c) :
    ∃ g'' zero, q.findZeroIndegree st k g' checked = .ok (g'', zero) ∧ SameLabels g g'' ∧
      (∀ i, zero = some i → i < q.stmtNum ∧ q.Left st i ∧ ¬ q.Entered g st.tmp i) ∧
      (zero = none → ∀ i < k, q.Left st i → q.Entered g st.tmp i) := by
  induction k generalizing g' checked with
  | zero => exact ⟨g', none, rfl, hg, by simp, by simp⟩
  | succ k ih =>
    have hkn : k < q.stmtNum := by omega
    -- what a round that skips `k` leaves to the later ones
    have hskip : ∀ g1 checked1, SameLabels g g1 → (∀ c ∈ checked1, q.Entered g st.tmp c) →
        (q.Left st k → q.Entered g st.tmp k) →
        ∃ g'' zero, q.findZeroIndegree st k g1 checked1 = .ok (g'', zero) ∧ SameLabels g g'' ∧
          (∀ i, zero = some i → i < q.stmtNum ∧ q.Left st i ∧ ¬ q.Entered g st.tmp i) ∧
          (zero = none → ∀ i < k + 1, q.Left st i → q.Entered g st.tmp i) := by
      intro g1 checked1 hg1 hchecked1 hkk
      obtain ⟨g'', zero, hok, hsame, hsome, hnone⟩ := ih (by omega) hg1 checked1 hchecked1
      refine ⟨g'', zero, hok, hsame, hsome, fun hz i hi hleft => ?_⟩
      rcases Nat.lt_succ_iff_lt_or_eq.1 hi with hi | rfl
      · exact hnone hz i hi hleft
      · exact hkk hleft
    rw [findZeroIndegree]
    split_ifs with h1 h2
    · exact hskip g' checked hg hchecked fun _ => hchecked k h1
    · refine hskip g' checked hg hchecked fun hleft => ?_
      rw [isDone_eq_false.2 hleft] at h2
      cases h2
    · rw [Bool.not_eq_true] at h2
      obtain ⟨g1, hok, hg1⟩ := getInstrumentedStmtSet_eq hg hkn
      simp only [hok, bind, Except.bind]
      split_ifs with h3
      · have hentered := (entered_iff hkn).2 (hasIndegree_stmtSet.1 h3)
        refine hskip g1 _ hg1 (fun c hc => ?_) fun _ => hentered
        rcases hasIndegree_snd _ _ c hc with hc | hc
        · exact hchecked c hc
        · exact hentered.of_mem hkn (mem_indices.1 hc).2
      · refine ⟨g1, some k, rfl, hg1, fun i hi => ?_, by simp⟩
        cases hi
        exact ⟨hkn, isDone_eq_false.1 h2, fun he => h3 (hasIndegree_stmtSet.2 ((entered_iff hkn).1 he))⟩

/-- The target of the search so far; before the first candidate there is none. -/
structure Searched (q : AnalyzedQueue) (g : StmtGraph) (st : SortState) (k : ℕ)
    (s : DeleteSearch) : Prop where
  same : SameLabels g s.graph
  target : (s.targetIdx < q.stmtNum ∧ q.Left st s.targetIdx) ∨
    (s.maxEdgeNum = 0 ∧ s.checked = ∅ ∧ ∀ i < k, ¬ q.Left st i)

theorem Searched.skip {k : ℕ} {s : DeleteSearch} (h : q.Searched g st k s)
    (hk : s.checked = ∅ → ¬ q.Left st k) : q.Searched g st (k + 1) s := by
  refine ⟨h.same, ?_⟩
  rcases h.target with ht | ⟨h0, he, hnone⟩
  · exact Or.inl ht
  · refine Or.inr ⟨h0, he, fun i hi => ?_⟩
    rcases Nat.lt_succ_iff_lt_or_eq.1 hi with hi | rfl
    · exact hnone i hi
    · exact hk he

theorem deleteRound_spec {k : ℕ} {s : DeleteSearch} (hk : k < q.stmtNum)
    (h : q.Searched g st k s) :
    ∃ s', q.deleteRound st k s = .ok s' ∧ q.Searched g st (k + 1) s' := by
  unfold deleteRound
  split_ifs with h1 h2
  · refine ⟨s, rfl, h.skip fun he => ?_⟩
    rw [he] at h1
    simp at h1
  · refine ⟨s, rfl, h.skip fun _ hleft => ?_⟩
    rw [isDone_eq_false.2 hleft] at h2
    cases h2
  · rw [Bool.not_eq_true] at h2
    obtain ⟨g1, hok, hg1⟩ := getInstrumentedStmtSet_eq h.same hk
    simp only [hok, bind, Except.bind]
    refine ⟨_, rfl, ?_⟩
    split_ifs with h3
    · exact ⟨hg1, Or.inl ⟨hk, isDone_eq_false.1 h2⟩⟩
    · refine ⟨hg1, Or.inl ?_⟩
      rcases h.target with ht | ⟨h0, -, -⟩
      · exact ht
      · rw [h0] at h3
        exact absurd (Nat.zero_le _) h3

theorem breakCycle_spec (hg : SameLabels g g') (hleft : ∃ i < q.stmtNum, q.Left st i) :
    ∃ t st', q.breakCycle st g' = .ok st' ∧ t < q.stmtNum ∧ q.Left st t ∧
      SameLabels g st'.graph ∧ ∃ g'', q.DeletedBy (q.indices (q.stmtSet g t))
        { st with graph := g'', deleteFlag := true } st' := by
  obtain ⟨s, hs, hsearched⟩ := forRange_ok (q.Searched g st) (f := q.deleteRound st)
    (s := ⟨g', ∅, 0, 0⟩) ⟨hg, Or.inr ⟨rfl, rfl, by simp⟩⟩
    (fun i hi t ht => deleteRound_spec hi ht)
  have htarget : s.targetIdx < q.stmtNum ∧ q.Left st s.targetIdx := by
    rcases hsearched.target with ht | ⟨-, -, hnone⟩
    · exact ht
    · obtain ⟨i, hi, hl⟩ := hleft
      exact absurd hl (hnone i hi)
  obtain ⟨g1, hok, hg1⟩ := getInstrumentedStmtSet_eq hsearched.same htarget.1
  have htransfer : (q.sid s.targetIdx).transfer2StmtIdx q.fTxnIdQueue = some s.targetIdx :=
    transfer2StmtIdx_ofQueue htarget.1
  have hdel := foldl_deleteStmt (q.indices (q.stmtSet g s.targetIdx))
    (fun c hc => (mem_indices.1 hc).1) { st with graph := g1, deleteFlag := true }
  refine ⟨s.targetIdx, _, ?_, htarget.1, htarget.2, ?_, g1, hdel⟩
  · simp only [breakCycle, hs, bind, Except.bind, htransfer, hok]
    rfl
  · rw [hdel.graph]
    exact hg1

/-- A round outputs a group that no branch enters, or deletes one when all are entered. -/
theorem sortRound_spec (hg : SameLabels g st.graph) (hleft : ∃ i < q.stmtNum, q.Left st i) :
    ∃ t st', q.sortRound st = .ok st' ∧ t < q.stmtNum ∧ q.Left st t ∧ SameLabels g st'.graph ∧
      ∃ g'', (¬ q.Entered g st.tmp t ∧
          q.OutputBy (q.indices (q.stmtSet g t)) { st with graph := g'' } st') ∨
        ((∀ i < q.stmtNum, q.Left st i → q.Entered g st.tmp i) ∧
          q.DeletedBy (q.indices (q.stmtSet g t))
            { st with graph := g'', deleteFlag := true } st') := by
  obtain ⟨g1, zero, hfind, hg1, hsome, hnone⟩ :=
    findZeroIndegree_spec st q.stmtNum le_rfl hg ∅ (by simp)
  unfold sortRound
  simp only [hfind, bind, Except.bind]
  cases zero with
  | none =>
    obtain ⟨t, st', hok, ht, hl, hsame, g'', hdel⟩ := breakCycle_spec hg1 hleft
    exact ⟨t, st', hok, ht, hl, hsame, g'', Or.inr ⟨hnone rfl, hdel⟩⟩
  | some t =>
    obtain ⟨ht, hl, hentered⟩ := hsome t rfl
    obtain ⟨g2, hok, hg2⟩ := getInstrumentedStmtSet_eq hg1 ht
    have hout := foldl_outputStmt (q.indices (q.stmtSet g t))
      (fun c hc => (mem_indices.1 hc).1) { st with graph := g2 }
    refine ⟨t, _, ?_, ht, hl, ?_, g2, Or.inl ⟨hentered, hout⟩⟩
    · simp only [outputSet, hok, bind, Except.bind]
      rfl
    · rw [hout.graph]
      exact hg2

end AnalyzedQueue

end DbFuzz
