import DbFuzz.TxCheck.Analyzer
import DbFuzz.TxCheck.GraphReduction

/-! The checks of the constructed graphs: aborted reads (G1a), intermediate reads (G1b)
and circular information flow (G1c). -/

namespace DbFuzz

open Loop

/-- `stmt_idx`, with `-1` for an initial row. -/
def OperateUnit.idx (op : OperateUnit) : ℤ :=
  match op.stmtIdx with
  | none => -1
  | some i => i

namespace DependencyAnalyzer

def checkG1a (a : DependencyAnalyzer) : Bool :=
  (List.range a.queue.tidNum).any fun j => a.queue.status j == .abort &&
    (List.range a.queue.tidNum).any fun i => a.queue.status i == .commit &&
      decide (.writeRead ∈ a.graphs.txn j i)

/-- The inner loop of `check_G1b`, for the write of version `wopId` by `tid`: whether
another transaction has read it and `tid` has read it for a second write. -/
def g1bScan (wopId : ℤ) (tid : ℕ) (txnEndIdx : ℤ) : Bool → Bool → List OperateUnit → Bool
  | _, _, [] => false
  | otherRead, secondWrite, op :: rest =>
    if op.idx > txnEndIdx then false
    else
      let otherRead := otherRead || (op.writeOpId == wopId && op.tid != tid)
      let secondWrite := secondWrite ||
        (op.tid == tid && op.stmtU.stmtType == .beforeWriteRead)
      if otherRead && secondWrite then true else g1bScan wopId tid txnEndIdx otherRead secondWrite rest

def g1bRow (q : AnalyzedQueue) : List OperateUnit → Bool
  | [] => false
  | op :: rest =>
    (op.stmtU.stmtType == .afterWriteRead &&
      g1bScan op.writeOpId op.tid (q.spans.endIdx op.tid) false false rest) || g1bRow q rest

def checkG1b (a : DependencyAnalyzer) : Bool := a.h.any fun row => g1bRow a.queue row.2

/-- `tmp_dgraph`: an edge for a write-write or write-read dependency of committed
transactions. -/
def g1cGraph (a : DependencyAnalyzer) (i j : ℕ) : Bool :=
  a.queue.status i == .commit && a.queue.status j == .commit &&
    decide (.writeWrite ∈ a.graphs.txn i j ∨ .writeRead ∈ a.graphs.txn i j)

/-- The second reduction runs on the matrix that the first one leaves. -/
def checkG1c (a : DependencyAnalyzer) : Except Failure Bool := do
  let tmpDgraph : DirectGraph := fun i j => if a.g1cGraph i j then 1 else 0
  let (_, tmpDgraph) ← tmpDgraph.reduceGraphIndegree a.queue.tidNum
  let (haveCycle, _) ← tmpDgraph.reduceGraphOutdegree a.queue.tidNum
  return haveCycle

/-! What the checks say. -/

variable {a : DependencyAnalyzer}

theorem checkG1a_iff : a.checkG1a = true ↔ ∃ j < a.queue.tidNum, ∃ i < a.queue.tidNum,
    a.queue.status j = .abort ∧ a.queue.status i = .commit ∧ .writeRead ∈ a.graphs.txn j i := by
  simp only [checkG1a, List.any_eq_true, List.mem_range, Bool.and_eq_true, beq_iff_eq,
    decide_eq_true_eq]
  constructor
  · rintro ⟨j, hj, habort, i, hi, hcommit, hdep⟩
    exact ⟨j, hj, i, hi, habort, hcommit, hdep⟩
  · rintro ⟨j, hj, i, hi, habort, hcommit, hdep⟩
    exact ⟨j, hj, habort, i, hi, hcommit, hdep⟩

/-- A scan that answers has met the version in another transaction. -/
theorem g1bScan_read {wopId : ℤ} {tid : ℕ} {txnEndIdx : ℤ} {ops : List OperateUnit} {w : Bool}
    (h : g1bScan wopId tid txnEndIdx false w ops = true) :
    ∃ op ∈ ops, op.idx ≤ txnEndIdx ∧ op.writeOpId = wopId ∧ op.tid ≠ tid := by
  induction ops generalizing w with
  | nil => cases h
  | cons op rest ih =>
    rw [g1bScan] at h
    split at h
    · cases h
    · next hidx =>
      by_cases hread : op.writeOpId = wopId ∧ op.tid ≠ tid
      · exact ⟨op, List.mem_cons_self, by omega, hread⟩
      · have hfalse : (op.writeOpId == wopId && op.tid != tid) = false := by simpa using hread
        simp only [hfalse, Bool.or_false, Bool.false_and, Bool.false_eq_true, reduceIte] at h
        obtain ⟨op', hop', hspec⟩ := ih h
        exact ⟨op', List.mem_cons_of_mem op hop', hspec⟩

/-- An intermediate read: a version that another transaction holds before its writer's
last statement. -/
theorem checkG1b_read (h : a.checkG1b = true) : ∃ row ∈ a.h, ∃ op op', [op, op'].Sublist row.2 ∧
    op.stmtU.stmtType = .afterWriteRead ∧ op'.idx ≤ a.queue.spans.endIdx op.tid ∧
    op'.writeOpId = op.writeOpId ∧ op'.tid ≠ op.tid := by
  have hrow : ∀ ops : List OperateUnit, g1bRow a.queue ops = true → ∃ op op',
      [op, op'].Sublist ops ∧ op.stmtU.stmtType = .afterWriteRead ∧
      op'.idx ≤ a.queue.spans.endIdx op.tid ∧ op'.writeOpId = op.writeOpId ∧ op'.tid ≠ op.tid := by
    intro ops
    induction ops with
    | nil => intro h; cases h
    | cons op rest ih =>
      intro h
      rw [g1bRow, Bool.or_eq_true, Bool.and_eq_true, beq_iff_eq] at h
      rcases h with ⟨htype, hscan⟩ | h
      · obtain ⟨op', hop', hspec⟩ := g1bScan_read hscan
        exact ⟨op, op', List.Sublist.cons_cons _ (List.singleton_sublist.2 hop'), htype, hspec⟩
      · obtain ⟨x, y, hsub, hspec⟩ := ih h
        exact ⟨x, y, hsub.cons _, hspec⟩
  obtain ⟨row, hmem, hg⟩ := List.any_eq_true.1 h
  exact ⟨row, hmem, hrow row.2 hg⟩

/-- G1c is a cycle of committed transactions. -/
theorem checkG1c_spec (a : DependencyAnalyzer) : ∃ b, a.checkG1c = .ok b ∧
    (b = true ↔ Reduce.Cyclic a.queue.tidNum a.g1cGraph) := by
  have hedges : DirectGraph.edges (fun i j => if a.g1cGraph i j then 1 else 0) = a.g1cGraph := by
    funext i j
    unfold DirectGraph.edges
    cases h : a.g1cGraph i j with
    | false => simp [h]
    | true => simp [h]
  obtain ⟨b1, g1, h1, -, hleft⟩ := DirectGraph.reduceGraphIndegree_spec a.queue.tidNum
    fun i j => if a.g1cGraph i j then 1 else 0
  obtain ⟨b2, g2, h2, hcyclic, -⟩ := DirectGraph.reduceGraphOutdegree_spec a.queue.tidNum g1
  refine ⟨b2, ?_, ?_⟩
  · rw [checkG1c]
    simp only [bind, Except.bind, h1, h2]
    rfl
  · rw [hcyclic, hleft, DirectGraph.cyclic_iff_edges, hedges]

/-- A dependency that `check_G1c` takes for an edge. -/
def G1cEdge (a : DependencyAnalyzer) (i j : ℕ) : Prop :=
  i < a.queue.tidNum ∧ j < a.queue.tidNum ∧ a.queue.status i = .commit ∧
    a.queue.status j = .commit ∧ (.writeWrite ∈ a.graphs.txn i j ∨ .writeRead ∈ a.graphs.txn i j)

/-- Both reductions end, with the verdict that the matrix has a cycle, and the second one
agrees with the first on what that leaves; so the check is that of a cycle of committed
transactions. -/
theorem reductions_cyclic (length : ℕ) (g : DirectGraph) (a : DependencyAnalyzer) :
    (∃ b left, g.reduceGraphIndegree length = .ok (b, left) ∧ (b = true ↔ g.Cyclic length) ∧
        ∃ left', left.reduceGraphOutdegree length = .ok (b, left')) ∧
      (∃ b left, g.reduceGraphOutdegree length = .ok (b, left) ∧ (b = true ↔ g.Cyclic length)) ∧
      ∃ b, a.checkG1c = .ok b ∧ (b = true ↔ ∃ i, Relation.TransGen a.G1cEdge i i) := by
  obtain ⟨b1, left, h1, hb1, hleft⟩ := g.reduceGraphIndegree_spec length
  obtain ⟨b2, left', h2, hb2, -⟩ := left.reduceGraphOutdegree_spec length
  obtain ⟨b3, left3, h3, hb3, -⟩ := g.reduceGraphOutdegree_spec length
  obtain ⟨b4, h4, hb4⟩ := a.checkG1c_spec
  have hsame : b2 = b1 := by rw [Bool.eq_iff_iff, hb1, hb2, hleft]
  have hedge : Reduce.Edge a.queue.tidNum a.g1cGraph = a.G1cEdge := by
    funext i j
    simp only [Reduce.Edge, g1cGraph, G1cEdge, Bool.and_eq_true, beq_iff_eq, decide_eq_true_eq,
      and_assoc]
  refine ⟨⟨b1, left, h1, hb1, left', hsame ▸ h2⟩, ⟨b3, left3, h3, hb3⟩, b4, h4, ?_⟩
  rw [hb4, Reduce.Cyclic, hedge]

end DependencyAnalyzer

end DbFuzz
