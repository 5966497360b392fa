import DbFuzz.TxCheck.SortPath

/-! The flag of `topological_sort_path`: a cycle through groups. -/

namespace DbFuzz

open Loop Relation

namespace AnalyzedQueue

variable {q : AnalyzedQueue} {g : StmtGraph} {given : Finset StmtId} {st st' : SortState} {i j : ℕ}

/-- A statement of a committed transaction that is not deleted. -/
def Sorted (q : AnalyzedQueue) (given : Finset StmtId) (i : ℕ) : Prop :=
  i < q.stmtNum ∧ q.status (q.tid i) = .commit ∧ q.sid i ∉ given

instance (q : AnalyzedQueue) (given : Finset StmtId) (i : ℕ) : Decidable (q.Sorted given i) :=
  inferInstanceAs (Decidable (_ ∧ _ ∧ _))

/-- The quotient of the statement graph by groups: an edge between two groups is a data
dependency between their statements. -/
def GroupEdge (q : AnalyzedQueue) (g : StmtGraph) (given : Finset StmtId) (A B : Finset ℕ) : Prop :=
  A ≠ B ∧ ∃ i j, q.Sorted given i ∧ q.Sorted given j ∧ A = q.stmtSet g i ∧ B = q.stmtSet g j ∧
    ∃ dt ∈ g.labels (q.sid i) (q.sid j), dt.isData = true

/-- Where nothing but the given nodes and aborted statements was deleted. -/
def Undeleted (q : AnalyzedQueue) (given : Finset StmtId) (st : SortState) : Prop :=
  ∀ i < q.stmtNum, q.sid i ∈ st.deleted → q.sid i ∈ given ∨ q.status (q.tid i) ≠ .commit

theorem SortInv.left_iff_sorted (h : q.SortInv g given st) (hu : q.Undeleted given st)
    (hi : i < q.stmtNum) : q.sid i ∉ st.deleted ↔ q.Sorted given i := by
  constructor
  · intro hd
    refine ⟨hi, ?_, fun hg => hd (h.keepsGiven hg)⟩
    by_contra habort
    exact hd (h.aborted i hi habort)
  · rintro ⟨-, hc, hg⟩ hd
    exact (hu i hi hd).elim hg fun ha => ha hc

/-- Once every group is entered there is a cycle: the groups that are left have
predecessors among themselves. -/
theorem SortInv.exists_cycle (h : q.SortInv g given st) (hu : q.Undeleted given st)
    (hleft : ∃ i < q.stmtNum, q.Left st i)
    (hgiven : ∀ i j, i < q.stmtNum → j < q.stmtNum → q.sid i ∈ given →
      ¬ ∃ dt ∈ g.labels (q.sid i) (q.sid j), dt.isData = true)
    (hdata : ∀ i j, i < q.stmtNum → j < q.stmtNum → q.Ordered g i j → i ∉ q.stmtSet g j →
      ∃ dt ∈ g.labels (q.sid i) (q.sid j), dt.isData = true)
    (hall : ∀ i < q.stmtNum, q.Left st i → q.Entered g st.tmp i) :
    ∃ A, TransGen (q.GroupEdge g given) A A := by
  classical
  obtain ⟨i0, hi0, hl0⟩ := hleft
  refine Cycle.exists_cycle
    (((Finset.range q.stmtNum).filter fun i => q.Left st i).image (q.stmtSet g)) ?_ ?_
  · exact ⟨_, Finset.mem_image.2 ⟨i0, by simp [hi0, hl0], rfl⟩⟩
  intro B hB
  obtain ⟨i, hi, rfl⟩ := Finset.mem_image.1 hB
  rw [Finset.mem_filter, Finset.mem_range] at hi
  obtain ⟨hin, hli⟩ := hi
  obtain ⟨c, hc, x, hx, hxi, hbranch⟩ := hall i hin hli
  have hcn := lt_of_mem_stmtSet hin hc
  have hci : q.stmtSet g c = q.stmtSet g i := stmtSet_eq hin hc
  obtain ⟨hord, hxo, hxd⟩ := h.only x c hx hcn hbranch
  have hedge := hdata x c hx hcn hord (by rw [hci]; exact hxi)
  have hlx : q.Left st x := ⟨hxo, fun hd => hgiven x c hx hcn (hxd hd) hedge⟩
  have hlc := h.left_of_mem hin hli hc
  refine ⟨q.stmtSet g x, Finset.mem_image.2 ⟨x, by simp [hx, hlx], rfl⟩, ?_, x, c,
    (h.left_iff_sorted hu hx).1 hlx.2, (h.left_iff_sorted hu hcn).1 hlc.2, rfl, hci.symm, hedge⟩
  intro he
  exact hxi (he ▸ self_mem_stmtSet hx)

/-- A path that holds every sorted statement rules a cycle out. -/
theorem Chained.acyclic {groups : List (Finset ℕ)} {path : List StmtId}
    (h : q.Chained g groups path) (hall : ∀ i, q.Sorted given i → q.sid i ∈ path) (A : Finset ℕ) :
    ¬ TransGen (q.GroupEdge g given) A A := by
  have hedge : ∀ A B, q.GroupEdge g given A B → q.GroupOrdered g A B ∧ A ∈ groups ∧ B ∈ groups ∧
      A ≠ B := by
    rintro A B ⟨hne, i, j, hi, hj, rfl, rfl, hdata⟩
    exact ⟨⟨i, self_mem_stmtSet hi.1, j, self_mem_stmtSet hj.1, Ordered.of_isData hdata⟩,
      h.mem_groups hi.1 (hall i hi), h.mem_groups hj.1 (hall j hj), hne⟩
  refine Cycle.acyclic_of_pairwise (h.forward.imp fun {A B} hf hBA => hf (hedge B A hBA).1) ?_ A
  exact fun A B hAB => (hedge A B hAB).2

/-- The flag of the loop, and what it says about deletions so far. -/
structure FlagInv (q : AnalyzedQueue) (g : StmtGraph) (given : Finset StmtId)
    (st : SortState) : Prop where
  inv : q.SortInv g given st
  clear : st.deleteFlag = false → q.Undeleted given st
  cycle : st.deleteFlag = true → ∃ A, TransGen (q.GroupEdge g given) A A

theorem FlagInv.round (h : q.FlagInv g given st) (hleft : ∃ i < q.stmtNum, q.Left st i)
    (hgiven : ∀ i j, i < q.stmtNum → j < q.stmtNum → q.sid i ∈ given →
      ¬ ∃ dt ∈ g.labels (q.sid i) (q.sid j), dt.isData = true)
    (hdata : ∀ i j, i < q.stmtNum → j < q.stmtNum → q.Ordered g i j → i ∉ q.stmtSet g j →
      ∃ dt ∈ g.labels (q.sid i) (q.sid j), dt.isData = true) :
    ∃ st', q.sortRound st = .ok st' ∧ q.FlagInv g given st' ∧ doneNum st < doneNum st' := by
  obtain ⟨st', hok, hinv, hdone, hcase⟩ := h.inv.round hleft
  refine ⟨st', hok, ⟨hinv, ?_, ?_⟩, hdone⟩
  · intro hflag
    rcases hcase with ⟨hf, hd⟩ | ⟨hf, -⟩
    · unfold Undeleted
      rw [hd]
      exact h.clear (hf ▸ hflag)
    · rw [hf] at hflag
      cases hflag
  · intro hflag
    rcases hcase with ⟨hf, -⟩ | ⟨-, hall⟩
    · exact h.cycle (hf ▸ hflag)
    · cases hold : st.deleteFlag with
      | true => exact h.cycle hold
      | false => exact h.inv.exists_cycle (h.clear hold) hleft hgiven hdata hall

/-- The loop sets the flag exactly when the groups form a cycle. -/
theorem sortLoop_flag (h : q.FlagInv g given (q.sortInit g given))
    (hgiven : ∀ i j, i < q.stmtNum → j < q.stmtNum → q.sid i ∈ given →
      ¬ ∃ dt ∈ g.labels (q.sid i) (q.sid j), dt.isData = true)
    (hdata : ∀ i j, i < q.stmtNum → j < q.stmtNum → q.Ordered g i j → i ∉ q.stmtSet g j →
      ∃ dt ∈ g.labels (q.sid i) (q.sid j), dt.isData = true) :
    ∃ st, q.sortLoop (q.stmtNum + 1) (q.sortInit g given) = .ok st ∧ q.SortInv g given st ∧
      (st.deleteFlag = true ↔ ∃ A, TransGen (q.GroupEdge g given) A A) ∧
      (st.deleteFlag = false → ∀ i, q.Sorted given i → q.sid i ∈ st.path) := by
  obtain ⟨st, hok, hinv, hdone⟩ := sortLoop_spec (P := q.FlagInv g given)
    (fun _ hst => hst.inv.doneNum_le) (fun _ hst hleft => hst.round hleft hgiven hdata) h
    (show q.stmtNum < q.stmtNum + 1 + doneNum (q.sortInit g given) by omega)
  have hall : st.deleteFlag = false → ∀ i, q.Sorted given i → q.sid i ∈ st.path := by
    intro hflag i hi
    have hd := (hinv.inv.left_iff_sorted (hinv.clear hflag) hi.1).2 hi
    by_contra hp
    exact hinv.inv.not_left hdone hi.1 ⟨fun ho => hp ((hinv.inv.mem_path _).2 ho), hd⟩
  refine ⟨st, hok, hinv.inv, ⟨hinv.cycle, ?_⟩, hall⟩
  rintro ⟨A, hA⟩
  by_contra hflag
  rw [Bool.not_eq_true] at hflag
  obtain ⟨groups, hch⟩ := hinv.inv.chained
  exact hch.acyclic (hall hflag) A hA

theorem sortInit_flag (q : AnalyzedQueue) (g : StmtGraph) (given : Finset StmtId) :
    (q.sortInit g given).deleteFlag = false ∧ q.Undeleted given (q.sortInit g given) := by
  have hdel := foldl_deleteStmt q.abortedIndices (fun c hc => (mem_abortedIndices.1 hc).1)
    ⟨g, g, ∅, given, [], false⟩
  refine ⟨hdel.flag, fun i hi hd => ?_⟩
  rcases (hdel.mem _).1 hd with hd | ⟨c, hc, hic⟩
  · exact Or.inl hd
  · obtain ⟨hcn, hs⟩ := mem_abortedIndices.1 hc
    rw [sid_inj hi hcn hic]
    exact Or.inr hs

end AnalyzedQueue

open AnalyzedQueue

/-- Between two groups every label the sort looks at is a data dependency. -/
theorem DependencyAnalyzer.Derived.isData_of_ordered {a : DependencyAnalyzer} {g : StmtGraph}
    {i j : ℕ} (he : a.Explained) (hg : a.Derived g) (hi : i < a.queue.stmtNum)
    (hj : j < a.queue.stmtNum) (hord : a.queue.Ordered g i j) (hne : i ∉ a.queue.stmtSet g j) :
    ∃ dt ∈ g.labels (a.queue.sid i) (a.queue.sid j), dt.isData = true := by
  obtain ⟨dt, hdt, h1, h2, h3⟩ := hord
  refine ⟨dt, hdt, ?_⟩
  have hinstr : dt ≠ .instrumentDepend := by
    rintro rfl
    obtain ⟨i', j', hi', hj', hii, hjj, hedge⟩ := he.sound _ _ _ (hg.sub _ _ hdt)
    rw [← sid_inj hi hi' hii, ← sid_inj hj hj' hjj] at hedge
    have hlinked : a.queue.Linked g j i := (hg.linked_iff he).2 (Or.inr hedge)
    exact hne ((mem_stmtSet hj).2 (ReflTransGen.single hlinked))
  cases dt <;> simp_all [DependencyType.isData]

/-- What the sort of a graph returns, seen from its flag. -/
theorem DependencyAnalyzer.Explained.sort_flag {a : DependencyAnalyzer} {g : StmtGraph}
    {deletedNodes : Finset StmtId} (he : a.Explained) (hg : a.Derived g)
    (hids : ∀ s ∈ deletedNodes, ∃ i < a.queue.stmtNum, s = a.queue.sid i)
    (hclosed : ∀ i < a.queue.stmtNum, a.queue.sid i ∈ deletedNodes → ∀ j ∈ a.queue.stmtSet g i,
      a.queue.sid j ∈ deletedNodes)
    (hedges : ∀ s ∈ deletedNodes, ∀ s' dt, dt.isData = true →
      dt ∉ g.labels s s' ∧ dt ∉ g.labels s' s) :
    ∃ st, a.queue.topologicalSortPath g deletedNodes = .ok st ∧
      (st.deleteFlag = true ↔ ∃ A, TransGen (a.queue.GroupEdge g deletedNodes) A A) ∧
      (st.deleteFlag = false → ∀ i, a.queue.Sorted deletedNodes i → a.queue.Shown i →
        st.path.count (a.queue.sid i) = 1) := by
  have hinv := sortInit_inv hids hclosed fun i hi j hj => hg.tid_stmtSet he hi hj
  obtain ⟨hclear, hundeleted⟩ := sortInit_flag a.queue g deletedNodes
  obtain ⟨st, hloop, hst, hflag, hall⟩ := sortLoop_flag
    ⟨hinv, fun _ => hundeleted, fun h => by rw [hclear] at h; cases h⟩
    (fun i j _ _ hi ⟨dt, hdt, hdata⟩ => (hedges _ hi _ dt hdata).1 hdt)
    (fun i j hi hj hord hne => hg.isData_of_ordered he hi hj hord hne)
  refine ⟨_, topologicalSortPath_eq
    (fun s hs => hst.ids s (Or.inl ((hst.mem_path s).1 hs))) hloop, hflag, ?_⟩
  intro hf i hi hshown
  obtain ⟨groups, hch⟩ := hst.chained
  exact List.count_eq_one_of_mem (hch.nodup.filter _)
    (List.mem_filter.2 ⟨hall hf i hi, (isShown_iff hi.1).2 hshown⟩)

/-- The flag of the sort and, when it is clear, the statements on the path. -/
theorem topologicalSortPath_flag {inp : AnalyzerInput} {a : DependencyAnalyzer} {g : StmtGraph}
    {deletedNodes : Finset StmtId} (haccept : dependencyAnalyzer inp = .ok a) (hg : a.Derived g)
    (hids : ∀ s ∈ deletedNodes, ∃ i < a.queue.stmtNum, s = a.queue.sid i)
    (hclosed : ∀ i < a.queue.stmtNum, a.queue.sid i ∈ deletedNodes → ∀ j ∈ a.queue.stmtSet g i,
      a.queue.sid j ∈ deletedNodes)
    (hedges : ∀ s ∈ deletedNodes, ∀ s' dt, dt.isData = true →
      dt ∉ g.labels s s' ∧ dt ∉ g.labels s' s) :
    ∃ st, a.queue.topologicalSortPath g deletedNodes = .ok st ∧
      (st.deleteFlag = true ↔ ∃ A, TransGen (a.queue.GroupEdge g deletedNodes) A A) ∧
      (st.deleteFlag = false → ∀ i < a.queue.stmtNum, a.queue.sid i ∉ deletedNodes →
        a.queue.status (a.queue.tid i) = .commit → ¬ a.queue.IsFirst i → ¬ a.queue.IsLast i →
        (a.queue.usage i).stmtType ≠ .initType → st.path.count (a.queue.sid i) = 1) := by
  obtain ⟨st, hst, hflag, hall⟩ :=
    (dependencyAnalyzer_explained haccept).sort_flag hg hids hclosed hedges
  exact ⟨st, hst, hflag, fun hf i hi hd hc h1 h2 h3 => hall hf i ⟨hi, hc, hd⟩ ⟨h1, h2, h3⟩⟩

theorem topologicalSortPath_flag_insert : ∃ a st, dependencyAnalyzer insertThenSelect = .ok a ∧
    a.queue.topologicalSortPath a.graphs.stmt ∅ = .ok st ∧
    (st.deleteFlag = true ↔ ∃ A, TransGen (a.queue.GroupEdge a.graphs.stmt ∅) A A) := by
  have heval : (dependencyAnalyzer insertThenSelect).toOption.isSome = true := by decide +kernel
  cases haccept : dependencyAnalyzer insertThenSelect with
  | error e =>
    rw [haccept] at heval
    cases heval
  | ok a =>
    obtain ⟨st, hst, hflag, -⟩ := topologicalSortPath_flag haccept (.refl a)
      (show ∀ s ∈ (∅ : Finset StmtId), ∃ i < a.queue.stmtNum, s = a.queue.sid i by simp)
      (by simp) (by simp)
    exact ⟨a, st, rfl, hst, hflag⟩

end DbFuzz
