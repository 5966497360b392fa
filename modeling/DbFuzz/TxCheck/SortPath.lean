import DbFuzz.TxCheck.SortOrder

/-! The path of `topological_sort_path` over an accepted history, and its flag. -/

namespace DbFuzz

open Loop Relation

namespace AnalyzedQueue

variable {q : AnalyzedQueue} {g : StmtGraph} {given : Finset StmtId} {st st' : SortState} {i j : ℕ}

/-! The two passes over the path. -/

def IsFirst (q : AnalyzedQueue) (i : ℕ) : Prop := ∀ k < i, q.tid k ≠ q.tid i

def IsLast (q : AnalyzedQueue) (i : ℕ) : Prop := ∀ k < q.stmtNum, i < k → q.tid k ≠ q.tid i

instance (q : AnalyzedQueue) (i : ℕ) : Decidable (q.IsFirst i) :=
  inferInstanceAs (Decidable (∀ k < i, q.tid k ≠ q.tid i))

instance (q : AnalyzedQueue) (i : ℕ) : Decidable (q.IsLast i) :=
  inferInstanceAs (Decidable (∀ k < q.stmtNum, i < k → q.tid k ≠ q.tid i))

theorem count_take_tid (hi : i < q.stmtNum) : (q.fTxnIdQueue.take (i + 1)).count (q.tid i) =
    (q.fTxnIdQueue.take i).count (q.tid i) + 1 := by
  have hget : q.fTxnIdQueue[i]? = some (q.tid i) := by
    have hi' : i < q.fTxnIdQueue.length := hi
    simp [tid, List.getD, hi']
  rw [List.take_add_one, hget, List.count_append]
  simp

theorem isFirst_iff (hi : i < q.stmtNum) : q.IsFirst i ↔ (q.sid i).stmtIdxInTxn = 0 := by
  have hidx : (q.sid i).stmtIdxInTxn =
      ((q.fTxnIdQueue.take (i + 1)).count (q.tid i) : ℤ) - 1 := rfl
  have hzero : (q.fTxnIdQueue.take i).count (q.tid i) = 0 ↔ q.IsFirst i := by
    rw [List.count_eq_zero, List.mem_take_iff_getElem]
    constructor
    · intro h k hk hkt
      have hkn : k < q.fTxnIdQueue.length := lt_trans hk hi
      exact h ⟨k, by omega, by simpa [tid, List.getD, hkn] using hkt⟩
    · rintro h ⟨k, hk, hkt⟩
      refine h k (by omega) ?_
      simp only [lt_inf_iff] at hk
      rw [← hkt]
      simp [tid, List.getD, hk.2]
  rw [hidx, count_take_tid hi, ← hzero]
  omega

theorem isLast_iff (q : AnalyzedQueue) (i : ℕ) : q.IsLast i ↔
    (q.txnSize (q.sid i).txnId.toNat : ℤ) = (q.sid i).stmtIdxInTxn + 1 := by
  have hidx : (q.sid i).stmtIdxInTxn + 1 = ((q.fTxnIdQueue.take (i + 1)).count (q.tid i) : ℤ) := by
    change ((q.fTxnIdQueue.take (i + 1)).count (q.tid i) : ℤ) - 1 + 1 = _
    omega
  have hsize : q.txnSize (q.sid i).txnId.toNat = (q.fTxnIdQueue.take (i + 1)).count (q.tid i) +
      (q.fTxnIdQueue.drop (i + 1)).count (q.tid i) := by
    rw [← List.count_append, List.take_append_drop]
    rfl
  have hzero : (q.fTxnIdQueue.drop (i + 1)).count (q.tid i) = 0 ↔ q.IsLast i := by
    rw [List.count_eq_zero, List.mem_drop_iff_getElem]
    constructor
    · intro h k hk hik hkt
      have hkn : k < q.fTxnIdQueue.length := hk
      refine h ⟨k - (i + 1), by omega, ?_⟩
      have hadd : i + 1 + (k - (i + 1)) = k := by omega
      simpa [tid, List.getD, hkn, hadd] using hkt
    · rintro h ⟨k, hk, hkt⟩
      have hlt : i + 1 + k < q.fTxnIdQueue.length := by omega
      refine h (i + 1 + k) hlt (by omega) ?_
      rw [← hkt]
      simp [tid, List.getD, hlt]
  rw [hidx, hsize, ← hzero]
  omega

theorem isBorder_iff (hi : i < q.stmtNum) :
    q.isBorder (q.sid i) = true ↔ q.IsFirst i ∨ q.IsLast i := by
  rw [isFirst_iff hi, isLast_iff q i]
  simp [isBorder]

theorem isReplaced_sid (hi : i < q.stmtNum) :
    q.isReplaced (q.sid i) = .ok ((q.usage i).stmtType == .initType) := by
  have htransfer : (q.sid i).transfer2StmtIdx q.fTxnIdQueue = some i := transfer2StmtIdx_ofQueue hi
  simp only [isReplaced, htransfer]

/-- The statement survives both passes. -/
def Shown (q : AnalyzedQueue) (i : ℕ) : Prop :=
  ¬ q.IsFirst i ∧ ¬ q.IsLast i ∧ (q.usage i).stmtType ≠ .initType

/-- What the two passes keep. -/
def isShown (q : AnalyzedQueue) (s : StmtId) : Bool :=
  !q.isBorder s && !(q.isReplaced s).toOption.getD false

theorem isShown_iff (hi : i < q.stmtNum) : q.isShown (q.sid i) = true ↔ q.Shown i := by
  have hborder := isBorder_iff hi
  unfold isShown Shown
  rw [isReplaced_sid hi, ← and_assoc, ← not_or, ← hborder]
  simp [Except.toOption]

theorem topologicalSortPath_eq (hpath : ∀ s ∈ st.path, ∃ i < q.stmtNum, s = q.sid i)
    (hloop : q.sortLoop (q.stmtNum + 1) (q.sortInit g given) = .ok st) :
    q.topologicalSortPath g given = .ok { st with path := st.path.filter q.isShown } := by
  have hborder : eraseInPlace (fun s => .ok (q.isBorder s)) st.path.length 0 st.path =
      (.ok (st.path.filter fun s => !q.isBorder s) : Except Failure (List StmtId)) :=
    eraseInPlace_eq fun _ _ => rfl
  have hreplaced : ∀ path : List StmtId, (∀ s ∈ path, s ∈ st.path) →
      eraseInPlace q.isReplaced path.length 0 path =
        .ok (path.filter fun s => !(q.isReplaced s).toOption.getD false) := by
    intro path hsub
    refine eraseInPlace_eq fun s hs => ?_
    obtain ⟨i, hi, rfl⟩ := hpath s (hsub s hs)
    rw [isReplaced_sid hi]
    rfl
  unfold topologicalSortPath
  simp only [hloop, bind, Except.bind, hborder,
    hreplaced _ fun s hs => List.mem_of_mem_filter hs, List.filter_filter, pure, Except.pure]
  congr 3
  funext s
  rw [isShown, Bool.and_comm]

/-! The loop from the first state on. -/

theorem sortLoop_inv (h : q.SortInv g given (q.sortInit g given)) :
    ∃ st, q.sortLoop (q.stmtNum + 1) (q.sortInit g given) = .ok st ∧ q.SortInv g given st ∧
      ∀ i < q.stmtNum, ¬ q.Left st i := by
  obtain ⟨st, hok, hinv, hdone⟩ := sortLoop_spec (P := q.SortInv g given)
    (fun _ hst => hst.doneNum_le)
    (fun _ hst hleft => by
      obtain ⟨st', hok, hinv, hdone, -⟩ := hst.round hleft
      exact ⟨st', hok, hinv, hdone⟩) h
    (show q.stmtNum < q.stmtNum + 1 + doneNum (q.sortInit g given) by omega)
  exact ⟨st, hok, hinv, fun i hi => hinv.not_left hdone hi⟩

theorem Chained.nodup {groups : List (Finset ℕ)} {path : List StmtId}
    (h : q.Chained g groups path) : path.Nodup := by
  rw [h.path_eq, List.nodup_flatMap]
  refine ⟨fun A _ => groupIds_nodup q A, h.disjoint.imp fun {A B} hAB => ?_⟩
  rw [Function.onFun_apply, List.disjoint_left]
  intro s hsA hsB
  obtain ⟨i, hi, hiA, rfl⟩ := mem_groupIds.1 hsA
  obtain ⟨j, hj, hjB, hij⟩ := mem_groupIds.1 hsB
  rw [sid_inj hi hj hij] at hiA
  exact Finset.disjoint_left.1 hAB hiA hjB

/-- The group of a statement on the path is one of the groups the path is made of. -/
theorem Chained.mem_groups {groups : List (Finset ℕ)} {path : List StmtId}
    (h : q.Chained g groups path) (hi : i < q.stmtNum) (hs : q.sid i ∈ path) :
    q.stmtSet g i ∈ groups := by
  rw [h.path_eq] at hs
  obtain ⟨A, hA, hs⟩ := List.mem_flatMap.1 hs
  obtain ⟨k, hk, rfl⟩ := h.group A hA
  obtain ⟨j, hj, hjA, hij⟩ := mem_groupIds.1 hs
  rw [sid_inj hi hj hij, stmtSet_eq hk hjA]
  exact hA

theorem Chained.isInfix {groups : List (Finset ℕ)} {path : List StmtId}
    (h : q.Chained g groups path) (hi : i < q.stmtNum) (hs : q.sid i ∈ path) :
    q.groupIds (q.stmtSet g i) <:+: path := by
  obtain ⟨before, after, hsplit⟩ := List.append_of_mem (h.mem_groups hi hs)
  refine ⟨before.flatMap q.groupIds, after.flatMap q.groupIds, ?_⟩
  rw [h.path_eq, hsplit, List.flatMap_append, List.flatMap_cons, List.append_assoc]

/-- An edge between two groups of the path orders their statements. -/
theorem Chained.pair_sublist {groups : List (Finset ℕ)} {path : List StmtId}
    (h : q.Chained g groups path) (hi : i < q.stmtNum) (hj : j < q.stmtNum)
    (hsi : q.sid i ∈ path) (hsj : q.sid j ∈ path) (hne : j ∉ q.stmtSet g i)
    (hord : q.Ordered g i j) : [q.sid i, q.sid j].Sublist path := by
  have hdistinct : q.stmtSet g i ≠ q.stmtSet g j :=
    fun he => hne (he ▸ self_mem_stmtSet hj)
  have hpair := Cycle.pair_sublist h.forward (h.mem_groups hi hsi) (h.mem_groups hj hsj) hdistinct
    ⟨i, self_mem_stmtSet hi, j, self_mem_stmtSet hj, hord⟩
  have hone : ∀ k < q.stmtNum, [q.sid k].Sublist (q.groupIds (q.stmtSet g k)) := fun k hk =>
    List.singleton_sublist.2 (mem_groupIds.2 ⟨k, hk, self_mem_stmtSet hk, rfl⟩)
  rw [h.path_eq]
  refine List.Sublist.trans ?_ (hpair.flatMap q.groupIds)
  simpa using (hone i hi).append (hone j hj)

/-! What the path is. -/

/-- The path the sort returns, for the deleted nodes `given`. -/
structure SortedPath (q : AnalyzedQueue) (g : StmtGraph) (given : Finset StmtId)
    (path : List StmtId) : Prop where
  nodup : path.Nodup
  kept : ∀ s ∈ path, ∃ i < q.stmtNum, s = q.sid i ∧ q.status (q.tid i) = .commit ∧ s ∉ given ∧
    ¬ q.IsFirst i ∧ ¬ q.IsLast i ∧ (q.usage i).stmtType ≠ .initType
  whole : ∀ i < q.stmtNum, q.sid i ∈ path → q.groupIds (q.stmtSet g i) <:+: path
  ordered : ∀ i j, i < q.stmtNum → j < q.stmtNum → q.sid i ∈ path → q.sid j ∈ path →
    j ∉ q.stmtSet g i → (∃ dt ∈ g.labels (q.sid i) (q.sid j), dt.isData = true) →
    [q.sid i, q.sid j].Sublist path

theorem Ordered.of_isData (h : ∃ dt ∈ g.labels (q.sid i) (q.sid j), dt.isData = true) :
    q.Ordered g i j := by
  obtain ⟨dt, hdt, hdata⟩ := h
  refine ⟨dt, hdt, ?_⟩
  cases dt <;> simp_all [DependencyType.isData]

theorem SortInv.sortedPath (h : q.SortInv g given st)
    (hshown : ∀ i < q.stmtNum, q.Shown i → ∀ j ∈ q.stmtSet g i, q.Shown j) :
    q.SortedPath g given (st.path.filter q.isShown) := by
  obtain ⟨groups, hch⟩ := h.chained
  have hmem : ∀ i < q.stmtNum, q.sid i ∈ st.path.filter q.isShown →
      q.sid i ∈ st.path ∧ q.Shown i := by
    intro i hi hs
    rw [List.mem_filter, isShown_iff hi] at hs
    exact hs
  refine ⟨hch.nodup.filter _, ?_, ?_, ?_⟩
  · intro s hs
    have hout := (h.mem_path s).1 (List.mem_of_mem_filter hs)
    obtain ⟨i, hi, rfl⟩ := h.ids s (Or.inl hout)
    have hdel := h.apart _ hout
    refine ⟨i, hi, rfl, ?_, fun hg => hdel (h.keepsGiven hg), (hmem i hi hs).2⟩
    by_contra habort
    exact hdel (h.aborted i hi habort)
  · intro i hi hs
    obtain ⟨hs, hsh⟩ := hmem i hi hs
    have hall : (q.groupIds (q.stmtSet g i)).filter q.isShown = q.groupIds (q.stmtSet g i) := by
      refine List.filter_eq_self.2 fun s hs => ?_
      obtain ⟨j, hj, hjA, rfl⟩ := mem_groupIds.1 hs
      exact (isShown_iff hj).2 (hshown i hi hsh j hjA)
    rw [← hall]
    exact (hch.isInfix hi hs).filter _
  · intro i j hi hj hsi hsj hne hdata
    obtain ⟨hpi, hshi⟩ := hmem i hi hsi
    obtain ⟨hpj, hshj⟩ := hmem j hj hsj
    have hsub := (hch.pair_sublist hi hj hpi hpj hne (Ordered.of_isData hdata)).filter q.isShown
    have hboth : [q.sid i, q.sid j].filter q.isShown = [q.sid i, q.sid j] := by
      simp [(isShown_iff hi).2 hshi, (isShown_iff hj).2 hshj]
    rwa [hboth] at hsub

end AnalyzedQueue

/-! Accepted histories. -/

namespace DependencyAnalyzer

open AnalyzedQueue

variable {a : DependencyAnalyzer} {g : StmtGraph} {i j : ℕ}

theorem Derived.tid_stmtSet (he : a.Explained) (hg : a.Derived g) (hi : i < a.queue.stmtNum)
    (hj : j ∈ a.queue.stmtSet g i) : a.queue.tid j = a.queue.tid i :=
  (hg.tid_eq he ((mem_stmtSet hi).1 hj)).symm

/-- Where the borders are control statements, a group is shown whole. -/
theorem Derived.shown_stmtSet (he : a.Explained) (hg : a.Derived g)
    (hcontrol : ∀ k < a.queue.stmtNum, a.queue.IsFirst k ∨ a.queue.IsLast k →
      (a.queue.usage k).stmtType = .initType)
    (hi : i < a.queue.stmtNum) (hs : a.queue.Shown i) (hj : j ∈ a.queue.stmtSet g i) :
    a.queue.Shown j := by
  have hjn := lt_of_mem_stmtSet hi hj
  have hinit : (a.queue.usage j).stmtType ≠ .initType := by
    intro hinit
    have := hg.eq_of_init he ((mem_stmtSet hi).1 hj).symm hinit
    rw [← this] at hinit
    exact hs.2.2 hinit
  exact ⟨fun h => hinit (hcontrol j hjn (Or.inl h)), fun h => hinit (hcontrol j hjn (Or.inr h)),
    hinit⟩

end DependencyAnalyzer

open AnalyzedQueue in
/-- The sort of an accepted history whose transactions stand between control statements. -/
theorem topologicalSortPath_sorted {inp : AnalyzerInput} {a : DependencyAnalyzer} {g : StmtGraph}
    {deletedNodes : Finset StmtId} (haccept : dependencyAnalyzer inp = .ok a)
    (hcontrol : ∀ i < a.queue.stmtNum, a.queue.IsFirst i ∨ a.queue.IsLast i →
      (a.queue.usage i).stmtType = .initType)
    (hg : a.Derived g) (hids : ∀ s ∈ deletedNodes, ∃ i < a.queue.stmtNum, s = a.queue.sid i)
    (hclosed : ∀ i < a.queue.stmtNum, a.queue.sid i ∈ deletedNodes → ∀ j ∈ a.queue.stmtSet g i,
      a.queue.sid j ∈ deletedNodes) :
    ∃ st, a.queue.topologicalSortPath g deletedNodes = .ok st ∧
      a.queue.SortedPath g deletedNodes st.path := by
  have he := dependencyAnalyzer_explained haccept
  obtain ⟨st, hloop, hinv, -⟩ :=
    sortLoop_inv (sortInit_inv hids hclosed fun i hi j hj => hg.tid_stmtSet he hi hj)
  refine ⟨_, topologicalSortPath_eq (fun s hs => ?_) hloop, hinv.sortedPath fun i hi hs j hj =>
    hg.shown_stmtSet he hcontrol hi hs hj⟩
  exact hinv.ids s (Or.inl ((hinv.mem_path s).1 hs))

/-- A transaction inserts a row, the next one selects it. -/
def insertThenSelect : AnalyzerInput where
  initOutput := []
  totalOutput := [[], [], [["1", "11000"]], [], [], [["1", "11000"]], []]
  finalTidQueue := [0, 0, 0, 0, 1, 1, 1]
  finalStmtUsage := [.mk' .initType false, .mk' .insertWrite false, .mk' .afterWriteRead true,
    .mk' .initType false, .mk' .initType false, .mk' .selectRead false, .mk' .initType false]
  finalTxnStatus := [.commit, .commit]
  primaryKeyIdx := 1
  writeOpKeyIdx := 0

/-- The insert and the read of its result. -/
def insertGroup : Finset StmtId := {⟨0, 1⟩, ⟨0, 2⟩}

theorem topologicalSortPath_sorted_insert : ∃ a st, dependencyAnalyzer insertThenSelect = .ok a ∧
    a.queue.topologicalSortPath a.graphs.stmt insertGroup = .ok st ∧
    a.queue.SortedPath a.graphs.stmt insertGroup st.path := by
  have heval : ((dependencyAnalyzer insertThenSelect).toOption.any fun a =>
      decide (∀ i < a.queue.stmtNum, a.queue.IsFirst i ∨ a.queue.IsLast i →
        (a.queue.usage i).stmtType = .initType) &&
      decide (∀ s ∈ insertGroup, ∃ i < a.queue.stmtNum, s = a.queue.sid i) &&
      decide (∀ i < a.queue.stmtNum, a.queue.sid i ∈ insertGroup →
        ∀ j ∈ a.queue.stmtSet a.graphs.stmt i, a.queue.sid j ∈ insertGroup)) = true := by
    decide +kernel
  cases haccept : dependencyAnalyzer insertThenSelect with
  | error e =>
    rw [haccept] at heval
    cases heval
  | ok a =>
    rw [haccept] at heval
    simp only [Except.toOption, Option.any_some, Bool.and_eq_true, decide_eq_true_eq] at heval
    obtain ⟨st, hst⟩ := topologicalSortPath_sorted haccept heval.1.1 (.refl a) heval.1.2 heval.2
    exact ⟨a, st, rfl, hst⟩

end DbFuzz
