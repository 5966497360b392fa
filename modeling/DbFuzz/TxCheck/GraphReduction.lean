import DbFuzz.Lib.Reduce
import DbFuzz.TxCheck.Exec

/-! `reduce_graph_indegree` and `reduce_graph_outdegree`: an integer matrix, where a positive
entry is an edge, is peeled off until it is empty or every node that is left has an edge. -/

namespace DbFuzz

/-- `int **direct_graph` -/
abbrev DirectGraph := ℕ → ℕ → ℤ

namespace DirectGraph

/-- The positive entries. -/
def edges (g : DirectGraph) (i j : ℕ) : Bool := decide (g i j > 0)

def hasIndegree (length : ℕ) (g : DirectGraph) (i : ℕ) : Bool :=
  (List.range length).any fun j => decide (g j i > 0)

def hasOutdegree (length : ℕ) (g : DirectGraph) (i : ℕ) : Bool :=
  (List.range length).any fun j => decide (g i j > 0)

def clearRow (idx : ℕ) (g : DirectGraph) : DirectGraph := fun i j => if i = idx then 0 else g i j

def clearColumn (idx : ℕ) (g : DirectGraph) : DirectGraph :=
  fun i j => if j = idx then 0 else g i j

/-- `while (1)`, with the matrix that is left. -/
def indegreeLoop (length : ℕ) :
    ℕ → Finset ℕ → DirectGraph → Except Failure (Bool × DirectGraph)
  | 0, _, _ => .error .outOfFuel
  | fuel + 1, deletedNodes, g =>
    if deletedNodes.card = length then .ok (false, g)
    else
      match (List.range length).find? fun i =>
          decide (i ∉ deletedNodes) && !g.hasIndegree length i with
      | none => .ok (true, g)
      | some idx => indegreeLoop length fuel (insert idx deletedNodes) (g.clearRow idx)

def outdegreeLoop (length : ℕ) :
    ℕ → Finset ℕ → DirectGraph → Except Failure (Bool × DirectGraph)
  | 0, _, _ => .error .outOfFuel
  | fuel + 1, deletedNodes, g =>
    if deletedNodes.card = length then .ok (false, g)
    else
      match (List.range length).find? fun i =>
          decide (i ∉ deletedNodes) && !g.hasOutdegree length i with
      | none => .ok (true, g)
      | some idx => outdegreeLoop length fuel (insert idx deletedNodes) (g.clearColumn idx)

/-- Every round but the last deletes a node. -/
def reduceGraphIndegree (length : ℕ) (g : DirectGraph) : Except Failure (Bool × DirectGraph) :=
  indegreeLoop length (length + 1) ∅ g

def reduceGraphOutdegree (length : ℕ) (g : DirectGraph) : Except Failure (Bool × DirectGraph) :=
  outdegreeLoop length (length + 1) ∅ g

/-- A directed cycle of positive entries; a self loop is one. -/
def Cyclic (length : ℕ) (g : DirectGraph) : Prop :=
  ∃ i, Relation.TransGen (fun a b => a < length ∧ b < length ∧ g a b > 0) i i

variable {length : ℕ} {g : DirectGraph}

theorem cyclic_iff_edges : g.Cyclic length ↔ Reduce.Cyclic length g.edges := by
  unfold Cyclic Reduce.Cyclic Reduce.Edge edges
  simp only [decide_eq_true_eq]

theorem edges_clearRow (idx : ℕ) : (g.clearRow idx).edges = Reduce.removeRow idx g.edges := by
  funext i j
  unfold clearRow edges Reduce.removeRow
  by_cases h : i = idx
  · simp [h]
  · simp [h]

theorem edges_clearColumn (idx : ℕ) :
    flip (g.clearColumn idx).edges = Reduce.removeRow idx (flip g.edges) := by
  funext i j
  unfold flip clearColumn edges Reduce.removeRow
  by_cases h : i = idx
  · simp [h]
  · simp [h]

theorem find_indegree (length : ℕ) (deletedNodes : Finset ℕ) :
    ((List.range length).find? fun i => decide (i ∉ deletedNodes) && !g.hasIndegree length i) =
      Reduce.firstFree length g.edges deletedNodes := by
  unfold Reduce.firstFree hasIndegree edges
  simp only [List.not_any_eq_all_not]

theorem find_outdegree (length : ℕ) (deletedNodes : Finset ℕ) :
    ((List.range length).find? fun i => decide (i ∉ deletedNodes) && !g.hasOutdegree length i) =
      Reduce.firstFree length (flip g.edges) deletedNodes := by
  unfold Reduce.firstFree hasOutdegree edges flip
  simp only [List.not_any_eq_all_not]

/-- The loop follows the reduction of the graph of the positive entries. -/
theorem indegreeLoop_refines (fuel : ℕ) : ∀ (deletedNodes : Finset ℕ) (g : DirectGraph),
    ∀ {b edges'}, Reduce.reduce length fuel deletedNodes g.edges = some (b, edges') →
      ∃ g', indegreeLoop length fuel deletedNodes g = .ok (b, g') ∧ g'.edges = edges' := by
  induction fuel with
  | zero =>
    intro deletedNodes g b edges' h
    cases h
  | succ fuel ih =>
    intro deletedNodes g b edges' h
    rw [Reduce.reduce] at h
    rw [indegreeLoop]
    by_cases hcard : deletedNodes.card = length
    · rw [if_pos hcard] at h ⊢
      cases h
      exact ⟨g, rfl, rfl⟩
    · rw [if_neg hcard] at h ⊢
      rw [find_indegree]
      cases hfree : Reduce.firstFree length g.edges deletedNodes with
      | none =>
        rw [hfree] at h
        cases h
        exact ⟨g, rfl, rfl⟩
      | some idx =>
        rw [hfree] at h
        dsimp only at h
        rw [← edges_clearRow] at h
        exact ih _ _ h

/-- The other loop follows it against the direction of the edges. -/
theorem outdegreeLoop_refines (fuel : ℕ) : ∀ (deletedNodes : Finset ℕ) (g : DirectGraph),
    ∀ {b edges'}, Reduce.reduce length fuel deletedNodes (flip g.edges) = some (b, edges') →
      ∃ g', outdegreeLoop length fuel deletedNodes g = .ok (b, g') ∧ flip g'.edges = edges' := by
  induction fuel with
  | zero =>
    intro deletedNodes g b edges' h
    cases h
  | succ fuel ih =>
    intro deletedNodes g b edges' h
    rw [Reduce.reduce] at h
    rw [outdegreeLoop]
    by_cases hcard : deletedNodes.card = length
    · rw [if_pos hcard] at h ⊢
      cases h
      exact ⟨g, rfl, rfl⟩
    · rw [if_neg hcard] at h ⊢
      rw [find_outdegree]
      cases hfree : Reduce.firstFree length (flip g.edges) deletedNodes with
      | none =>
        rw [hfree] at h
        cases h
        exact ⟨g, rfl, rfl⟩
      | some idx =>
        rw [hfree] at h
        dsimp only at h
        rw [← edges_clearColumn] at h
        exact ih _ _ h

theorem reduceGraphIndegree_spec (length : ℕ) (g : DirectGraph) :
    ∃ b g', reduceGraphIndegree length g = .ok (b, g') ∧ (b = true ↔ g.Cyclic length) ∧
      (g'.Cyclic length ↔ g.Cyclic length) := by
  obtain ⟨b, edges', h, hb, hleft⟩ := Reduce.reduce_spec length g.edges
  obtain ⟨g', hloop, rfl⟩ := indegreeLoop_refines (length + 1) ∅ g h
  refine ⟨b, g', hloop, ?_, ?_⟩
  · rw [cyclic_iff_edges, hb]
  · rw [cyclic_iff_edges, cyclic_iff_edges, hleft]

theorem reduceGraphOutdegree_spec (length : ℕ) (g : DirectGraph) :
    ∃ b g', reduceGraphOutdegree length g = .ok (b, g') ∧ (b = true ↔ g.Cyclic length) ∧
      (g'.Cyclic length ↔ g.Cyclic length) := by
  obtain ⟨b, edges', h, hb, hleft⟩ := Reduce.reduce_spec length (flip g.edges)
  obtain ⟨g', hloop, rfl⟩ := outdegreeLoop_refines (length + 1) ∅ g h
  rw [Reduce.cyclic_flip] at hb
  rw [Reduce.cyclic_flip, Reduce.cyclic_flip] at hleft
  refine ⟨b, g', hloop, ?_, ?_⟩
  · rw [cyclic_iff_edges, hb]
  · rw [cyclic_iff_edges, cyclic_iff_edges, hleft]

end DirectGraph

end DbFuzz
