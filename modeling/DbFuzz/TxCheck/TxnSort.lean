import DbFuzz.Lib.Peel
import DbFuzz.TxCheck.Analyzer

/-! `check_txn_graph_cycle`: the committed transactions that can be listed against their
dependencies, and those that are left on or behind a cycle. -/

namespace DbFuzz

open Loop Relation

namespace DependencyAnalyzer

/-- The labels that count as an incoming edge. -/
def txnOrderTypes : DependencySet :=
  {.writeRead, .writeWrite, .readWrite, .versionSetDepend, .overwriteDepend}

def hasTxnIndegree (a : DependencyAnalyzer) (removedTxn : Finset ℕ) (i : ℕ) : Bool :=
  (List.range a.queue.tidNum).any fun j =>
    decide (j ∉ removedTxn) && decide (txnOrderTypes ∩ a.graphs.txn j i ≠ ∅)

def zeroIndegreeTxn (a : DependencyAnalyzer) (removedTxn : Finset ℕ) : Option ℕ :=
  (List.range a.queue.tidNum).find? fun i =>
    decide (i ∉ removedTxn) && !a.hasTxnIndegree removedTxn i

def txnSortLoop (a : DependencyAnalyzer) :
    ℕ → Finset ℕ → List ℕ → Except Failure (Finset ℕ × List ℕ)
  | 0, _, _ => .error .outOfFuel
  | fuel + 1, removedTxn, sortedNodes =>
    if removedTxn.card < a.queue.tidNum then
      match a.zeroIndegreeTxn removedTxn with
      | none => .ok (removedTxn, sortedNodes)
      | some i => a.txnSortLoop fuel (insert i removedTxn) (sortedNodes ++ [i])
    else .ok (removedTxn, sortedNodes)

/-- The aborted transactions and the initial one. -/
def removedAtStart (a : DependencyAnalyzer) : Finset ℕ :=
  insert (a.queue.tidNum - 1)
    ((Finset.range a.queue.tidNum).filter fun i => a.queue.status i = .abort)

/-- `cycle_nodes` and `sorted_nodes` -/
def checkTxnGraphCycle (a : DependencyAnalyzer) : Except Failure (Finset ℕ × List ℕ) := do
  let (removedTxn, sortedNodes) ← a.txnSortLoop (a.queue.tidNum + 1) a.removedAtStart []
  return ((Finset.range a.queue.tidNum).filter (· ∉ removedTxn), sortedNodes)

/-- The transactions to sort. -/
def Sortable (a : DependencyAnalyzer) (i : ℕ) : Prop :=
  i < a.queue.tidNum ∧ i ≠ a.queue.tidNum - 1 ∧ a.queue.status i ≠ .abort

/-- A dependency of two of them. -/
def TxnEdge (a : DependencyAnalyzer) (i j : ℕ) : Prop :=
  a.Sortable i ∧ a.Sortable j ∧ ∃ dt ∈ txnOrderTypes, dt ∈ a.graphs.txn i j

/-- What the removed transactions leave. -/
def leftTxn (a : DependencyAnalyzer) (removedTxn : Finset ℕ) : Finset ℕ :=
  (Finset.range a.queue.tidNum).filter (· ∉ removedTxn)

variable {a : DependencyAnalyzer} {removedTxn : Finset ℕ} {sortedNodes : List ℕ} {i : ℕ}

theorem mem_leftTxn : i ∈ a.leftTxn removedTxn ↔ i < a.queue.tidNum ∧ i ∉ removedTxn := by
  rw [leftTxn, Finset.mem_filter, Finset.mem_range]

theorem mem_leftTxn_start : i ∈ a.leftTxn a.removedAtStart ↔ a.Sortable i := by
  rw [mem_leftTxn, removedAtStart, Finset.mem_insert, Finset.mem_filter, Finset.mem_range,
    Sortable]
  tauto

theorem leftTxn_insert : a.leftTxn (insert i removedTxn) = (a.leftTxn removedTxn).erase i := by
  ext j
  simp only [mem_leftTxn, Finset.mem_insert, Finset.mem_erase]
  tauto

/-- What the loop keeps: only sortable transactions are left. -/
structure SortingTxns (a : DependencyAnalyzer) (removedTxn : Finset ℕ) (sortedNodes : List ℕ) :
    Prop where
  start : a.removedAtStart ⊆ removedTxn
  bound : ∀ i ∈ removedTxn, 0 < a.queue.tidNum → i < a.queue.tidNum
  peeled : Peel.Peeled a.TxnEdge (a.leftTxn a.removedAtStart) sortedNodes (a.leftTxn removedTxn)

theorem SortingTxns.sortable (h : a.SortingTxns removedTxn sortedNodes)
    (hi : i ∈ a.leftTxn removedTxn) : a.Sortable i := by
  obtain ⟨hlt, hnot⟩ := mem_leftTxn.1 hi
  exact mem_leftTxn_start.1 (mem_leftTxn.2 ⟨hlt, fun hstart => hnot (h.start hstart)⟩)

/-- An incoming edge comes from a transaction that is left. -/
theorem SortingTxns.hasTxnIndegree_iff (h : a.SortingTxns removedTxn sortedNodes)
    (hi : i ∈ a.leftTxn removedTxn) :
    a.hasTxnIndegree removedTxn i = true ↔ ∃ j ∈ a.leftTxn removedTxn, a.TxnEdge j i := by
  simp only [hasTxnIndegree, List.any_eq_true, List.mem_range, Bool.and_eq_true,
    decide_eq_true_eq, ← Finset.nonempty_iff_ne_empty, Finset.Nonempty, Finset.mem_inter]
  constructor
  · rintro ⟨j, hj, hleft, hlabel⟩
    have hmem := mem_leftTxn.2 ⟨hj, hleft⟩
    exact ⟨j, hmem, h.sortable hmem, h.sortable hi, hlabel⟩
  · rintro ⟨j, hj, -, -, hlabel⟩
    obtain ⟨hlt, hleft⟩ := mem_leftTxn.1 hj
    exact ⟨j, hlt, hleft, hlabel⟩

theorem SortingTxns.take (h : a.SortingTxns removedTxn sortedNodes)
    (hfind : a.zeroIndegreeTxn removedTxn = some i) :
    a.SortingTxns (insert i removedTxn) (sortedNodes ++ [i]) ∧ i ∈ a.leftTxn removedTxn := by
  have hlt := List.mem_range.1 (List.mem_of_find?_eq_some hfind)
  have hkept := List.find?_some hfind
  rw [Bool.and_eq_true, decide_eq_true_eq, Bool.not_eq_true'] at hkept
  have hi := mem_leftTxn.2 ⟨hlt, hkept.1⟩
  refine ⟨⟨h.start.trans (Finset.subset_insert i removedTxn), ?_, ?_⟩, hi⟩
  · exact Finset.forall_mem_insert _ _ _ |>.2 ⟨fun _ => hlt, h.bound⟩
  rw [leftTxn_insert]
  refine h.peeled.take hi fun j hj hji => ?_
  rw [(h.hasTxnIndegree_iff hi).2 ⟨j, hj, hji⟩] at hkept
  cases hkept.2

theorem SortingTxns.stuck (h : a.SortingTxns removedTxn sortedNodes)
    (hfind : a.zeroIndegreeTxn removedTxn = none) (hi : i ∈ a.leftTxn removedTxn) :
    ∃ j ∈ a.leftTxn removedTxn, a.TxnEdge j i := by
  obtain ⟨hlt, hleft⟩ := mem_leftTxn.1 hi
  have hnone := List.find?_eq_none.1 hfind i (List.mem_range.2 hlt)
  refine (h.hasTxnIndegree_iff hi).1 ?_
  simpa [hleft] using hnone

/-- The count of the loop condition says when nothing is left. -/
theorem SortingTxns.left_eq_empty (h : a.SortingTxns removedTxn sortedNodes)
    (hcard : a.queue.tidNum ≤ removedTxn.card) : a.leftTxn removedTxn = ∅ := by
  refine Finset.eq_empty_iff_forall_notMem.2 fun i hi => ?_
  obtain ⟨hlt, hleft⟩ := mem_leftTxn.1 hi
  have hsub : removedTxn ⊆ Finset.range a.queue.tidNum := fun j hj =>
    Finset.mem_range.2 (h.bound j hj (by omega))
  have hall := Finset.eq_of_subset_of_card_le hsub (by rwa [Finset.card_range])
  exact hleft (hall ▸ Finset.mem_range.2 hlt)

/-- The loop ends with a list that cannot go on. -/
theorem SortingTxns.loop_spec (fuel : ℕ) (h : a.SortingTxns removedTxn sortedNodes)
    (hfuel : (a.leftTxn removedTxn).card < fuel) :
    ∃ removedTxn' sortedNodes', a.txnSortLoop fuel removedTxn sortedNodes =
        .ok (removedTxn', sortedNodes') ∧ a.SortingTxns removedTxn' sortedNodes' ∧
      ∀ i ∈ a.leftTxn removedTxn', ∃ j ∈ a.leftTxn removedTxn', a.TxnEdge j i := by
  induction fuel generalizing removedTxn sortedNodes with
  | zero => omega
  | succ fuel ih =>
    rw [txnSortLoop]
    split
    · cases hfind : a.zeroIndegreeTxn removedTxn with
      | none => exact ⟨removedTxn, sortedNodes, rfl, h, fun i hi => h.stuck hfind hi⟩
      | some i =>
        obtain ⟨hnext, hi⟩ := h.take hfind
        refine ih hnext ?_
        rw [leftTxn_insert, Finset.card_erase_of_mem hi]
        have := Finset.card_pos.2 ⟨i, hi⟩
        omega
    · next hcard =>
      refine ⟨removedTxn, sortedNodes, rfl, h, fun i hi => ?_⟩
      rw [h.left_eq_empty (not_lt.1 hcard)] at hi
      cases hi

theorem sortingTxns_start (a : DependencyAnalyzer) : a.SortingTxns a.removedAtStart [] := by
  refine ⟨Finset.Subset.refl _, fun i hi htid => ?_, Peel.Peeled.nil _ _⟩
  rw [removedAtStart, Finset.mem_insert, Finset.mem_filter, Finset.mem_range] at hi
  omega

theorem TxnEdge.mem_left {i j : ℕ} (h : a.TxnEdge i j) : i ∈ a.leftTxn a.removedAtStart :=
  mem_leftTxn_start.2 h.1

/-- `check_txn_graph_cycle` peels until each transaction that is left depends on another. -/
theorem checkTxnGraphCycle_sorting (a : DependencyAnalyzer) : ∃ removedTxn sortedNodes,
    a.checkTxnGraphCycle = .ok (a.leftTxn removedTxn, sortedNodes) ∧
    a.SortingTxns removedTxn sortedNodes ∧
    ∀ i ∈ a.leftTxn removedTxn, ∃ j ∈ a.leftTxn removedTxn, a.TxnEdge j i := by
  have hfuel : (a.leftTxn a.removedAtStart).card < a.queue.tidNum + 1 := by
    have := Finset.card_filter_le (Finset.range a.queue.tidNum) (· ∉ a.removedAtStart)
    rw [Finset.card_range] at this
    exact Nat.lt_succ_of_le this
  obtain ⟨removedTxn, sortedNodes, hloop, hsorting, hstuck⟩ :=
    a.sortingTxns_start.loop_spec (a.queue.tidNum + 1) hfuel
  refine ⟨removedTxn, sortedNodes, ?_, hsorting, hstuck⟩
  simp only [checkTxnGraphCycle, hloop, bind, Except.bind]
  rfl

/-- What `check_txn_graph_cycle` returns: the sorted transactions come before what depends on
them, and every transaction on a cycle is among the others. -/
theorem checkTxnGraphCycle_correct (a : DependencyAnalyzer) : ∃ cycleNodes sortedNodes,
    a.checkTxnGraphCycle = .ok (cycleNodes, sortedNodes) ∧
    (cycleNodes = ∅ ↔ ∀ i, ¬TransGen a.TxnEdge i i) ∧
    sortedNodes.Nodup ∧ (sortedNodes.Pairwise fun i j => ¬a.TxnEdge j i) ∧
    (∀ i ∈ sortedNodes, ∀ j ∈ cycleNodes, ¬a.TxnEdge j i) ∧
    (∀ i, a.Sortable i ↔ i ∈ sortedNodes ∨ i ∈ cycleNodes) ∧
    (∀ i ∈ sortedNodes, i ∉ cycleNodes) ∧ ∀ i, TransGen a.TxnEdge i i → i ∈ cycleNodes := by
  obtain ⟨removedTxn, sortedNodes, hcheck, hsorting, hstuck⟩ := a.checkTxnGraphCycle_sorting
  have hpeeled := hsorting.peeled
  have hedge : ∀ i j, a.TxnEdge i j → i ∈ a.leftTxn a.removedAtStart := fun _ _ h => h.mem_left
  refine ⟨a.leftTxn removedTxn, sortedNodes, hcheck, hpeeled.rest_eq_empty_iff hedge hstuck,
    hpeeled.nodup, hpeeled.ordered, hpeeled.behind, fun i => ?_, hpeeled.apart,
    fun i hi => hpeeled.mem_rest hedge hi⟩
  rw [← mem_leftTxn_start]
  exact hpeeled.cover i

end DependencyAnalyzer

end DbFuzz
