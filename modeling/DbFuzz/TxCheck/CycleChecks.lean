import DbFuzz.TxCheck.Anomalies
import DbFuzz.TxCheck.ReadAnomalies

/-! The checks of the transaction graph for cycles with an anti-dependency (G2-item and
G-SIb). Both peel the matrix of the committed transactions. -/

namespace DbFuzz

open Loop Relation

namespace DirectGraph

variable {length : ℕ} {g g' : DirectGraph}

/-- `direct_graph[i][j] = value` -/
def setEntry (g : DirectGraph) (e : ℕ × ℕ) (value : ℤ) : DirectGraph :=
  fun i j => if (i, j) = e then value else g i j

def ofEdges (edges : ℕ → ℕ → Bool) : DirectGraph := fun i j => if edges i j then 1 else 0

theorem edges_ofEdges (edges : ℕ → ℕ → Bool) : (ofEdges edges).edges = edges := by
  funext i j
  unfold DirectGraph.edges ofEdges
  cases h : edges i j with
  | false => simp
  | true => simp

/-- The positive entries inside the matrix. -/
def Edge (length : ℕ) (g : DirectGraph) : ℕ → ℕ → Prop := Reduce.Edge length g.edges

theorem cyclic_iff_transGen : g.Cyclic length ↔ ∃ i, TransGen (g.Edge length) i i := cyclic_iff_edges

theorem edge_setEntry_one {e : ℕ × ℕ} (he : e.1 < length ∧ e.2 < length) :
    (g.setEntry e 1).Edge length = fun x y => g.Edge length x y ∨ x = e.1 ∧ y = e.2 := by
  obtain ⟨u, v⟩ := e
  funext x y
  simp only [Edge, Reduce.Edge, DirectGraph.edges, setEntry, Prod.mk.injEq, eq_iff_iff]
  by_cases hxy : x = u ∧ y = v
  · obtain ⟨rfl, rfl⟩ := hxy
    simp [he]
  · simp [hxy]

theorem edge_setEntry_zero {e : ℕ × ℕ} {x y : ℕ} (h : (g.setEntry e 0).Edge length x y) :
    g.Edge length x y := by
  obtain ⟨hx, hy, h⟩ := h
  refine ⟨hx, hy, ?_⟩
  simp only [DirectGraph.edges, setEntry] at h ⊢
  split at h
  · cases h
  · exact h

/-- The first reduction leaves the edges a cycle leads to. -/
theorem reduceGraphIndegree_left (length : ℕ) (g : DirectGraph) :
    ∃ b g', reduceGraphIndegree length g = .ok (b, g') ∧ (b = true ↔ g.Cyclic length) ∧
      ∀ x y, g'.Edge length x y ↔ g.Edge length x y ∧ Reduce.FromCycle length g.edges x := by
  obtain ⟨b, edges', h, hb, -⟩ := Reduce.reduce_spec length g.edges
  obtain ⟨g', hloop, rfl⟩ := indegreeLoop_refines (length + 1) ∅ g h
  refine ⟨b, g', hloop, hb.trans cyclic_iff_edges.symm, ?_⟩
  exact Reduce.reduce_edge_iff _ _ _ (Finset.empty_subset _) (by simp) h

/-- The second one leaves those that lead to a cycle. -/
theorem reduceGraphOutdegree_left (length : ℕ) (g : DirectGraph) :
    ∃ b g', reduceGraphOutdegree length g = .ok (b, g') ∧ (b = true ↔ g.Cyclic length) ∧
      ∀ x y, g'.Edge length x y ↔
        g.Edge length x y ∧ Reduce.FromCycle length (flip g.edges) y := by
  obtain ⟨b, edges', h, hb, -⟩ := Reduce.reduce_spec length (flip g.edges)
  obtain ⟨g', hloop, rfl⟩ := outdegreeLoop_refines (length + 1) ∅ g h
  rw [Reduce.cyclic_flip] at hb
  refine ⟨b, g', hloop, hb.trans cyclic_iff_edges.symm, fun x y => ?_⟩
  have hleft := Reduce.reduce_edge_iff _ _ _ (Finset.empty_subset _) (by simp) h y x
  have hswap : ∀ f : ℕ → ℕ → Bool, Reduce.Edge length (flip f) y x ↔ Reduce.Edge length f x y :=
    fun f => ⟨fun ⟨hy, hx, hf⟩ => ⟨hx, hy, hf⟩, fun ⟨hx, hy, hf⟩ => ⟨hy, hx, hf⟩⟩
  rwa [hswap, hswap] at hleft

/-- The reductions only clear entries. -/
theorem indegreeLoop_entries (fuel : ℕ) : ∀ (deletedNodes : Finset ℕ) (g : DirectGraph)
    {b : Bool} {g' : DirectGraph}, indegreeLoop length fuel deletedNodes g = .ok (b, g') →
    ∀ i j, g' i j = 0 ∨ g' i j = g i j := by
  induction fuel with
  | zero =>
    intro deletedNodes g b g' h
    cases h
  | succ fuel ih =>
    intro deletedNodes g b g' h i j
    rw [indegreeLoop] at h
    split at h
    · cases h
      exact Or.inr rfl
    · split at h
      · cases h
        exact Or.inr rfl
      · next idx _ =>
        rcases ih _ _ h i j with h0 | h0
        · exact Or.inl h0
        · rw [h0, clearRow]
          by_cases hi : i = idx
          · exact Or.inl (if_pos hi)
          · exact Or.inr (if_neg hi)

theorem outdegreeLoop_entries (fuel : ℕ) : ∀ (deletedNodes : Finset ℕ) (g : DirectGraph)
    {b : Bool} {g' : DirectGraph}, outdegreeLoop length fuel deletedNodes g = .ok (b, g') →
    ∀ i j, g' i j = 0 ∨ g' i j = g i j := by
  induction fuel with
  | zero =>
    intro deletedNodes g b g' h
    cases h
  | succ fuel ih =>
    intro deletedNodes g b g' h i j
    rw [outdegreeLoop] at h
    split at h
    · cases h
      exact Or.inr rfl
    · split at h
      · cases h
        exact Or.inr rfl
      · next idx _ =>
        rcases ih _ _ h i j with h0 | h0
        · exact Or.inl h0
        · rw [h0, clearColumn]
          by_cases hj : j = idx
          · exact Or.inl (if_pos hj)
          · exact Or.inr (if_neg hj)

/-- Clearing some entries removes their edges. -/
theorem edge_foldl_setEntry (es : List (ℕ × ℕ)) (g : DirectGraph) (x y : ℕ) :
    (es.foldl (fun g e => g.setEntry e 0) g).Edge length x y ↔
      g.Edge length x y ∧ (x, y) ∉ es := by
  induction es generalizing g with
  | nil => simp
  | cons e es ih =>
    rw [List.foldl_cons, ih, List.mem_cons, not_or, ← and_assoc]
    refine and_congr_left fun _ => ⟨fun h => ⟨edge_setEntry_zero h, ?_⟩, fun h => ?_⟩
    · rintro rfl
      have := h.2.2
      simp [DirectGraph.edges, setEntry] at this
    · obtain ⟨⟨hx, hy, hg⟩, hne⟩ := h
      refine ⟨hx, hy, ?_⟩
      simpa [DirectGraph.edges, setEntry, hne] using hg

end DirectGraph

namespace DependencyAnalyzer

/-- The entry of `tmp_dgraph` for two committed transactions with a label of the set. -/
def committedGraph (a : DependencyAnalyzer) (types : DependencySet) (i j : ℕ) : Bool :=
  a.queue.status i == .commit && a.queue.status j == .commit &&
    decide (types ∩ a.graphs.txn i j ≠ ∅)

/-! G2-item -/

def checkG2Item (a : DependencyAnalyzer) : Except Failure Bool := do
  let tmpDgraph := DirectGraph.ofEdges (a.committedGraph {.writeWrite, .writeRead, .readWrite})
  let (_, tmpDgraph) ← tmpDgraph.reduceGraphIndegree a.queue.tidNum
  let (haveCycle, _) ← tmpDgraph.reduceGraphOutdegree a.queue.tidNum
  return haveCycle

variable {a : DependencyAnalyzer} {types types' : DependencySet}

/-- A dependency of committed transactions with a label of the set. -/
def CommittedEdge (a : DependencyAnalyzer) (types : DependencySet) (i j : ℕ) : Prop :=
  i < a.queue.tidNum ∧ j < a.queue.tidNum ∧ a.queue.status i = .commit ∧
    a.queue.status j = .commit ∧ ∃ dt ∈ types, dt ∈ a.graphs.txn i j

theorem edge_committedGraph (a : DependencyAnalyzer) (types : DependencySet) :
    Reduce.Edge a.queue.tidNum (a.committedGraph types) = a.CommittedEdge types := by
  funext i j
  simp only [Reduce.Edge, committedGraph, CommittedEdge, Bool.and_eq_true, beq_iff_eq,
    decide_eq_true_eq, and_assoc, ← Finset.nonempty_iff_ne_empty, Finset.Nonempty,
    Finset.mem_inter]

theorem CommittedEdge.mono (hsub : types ⊆ types') {i j : ℕ} (h : a.CommittedEdge types i j) :
    a.CommittedEdge types' i j := by
  obtain ⟨hi, hj, hci, hcj, dt, hdt, hmem⟩ := h
  exact ⟨hi, hj, hci, hcj, dt, hsub hdt, hmem⟩

/-- The check is one for any cycle of the three dependencies. -/
theorem checkG2Item_spec (a : DependencyAnalyzer) : ∃ b, a.checkG2Item = .ok b ∧
    (b = true ↔
      ∃ i, TransGen (a.CommittedEdge {.writeWrite, .writeRead, .readWrite}) i i) := by
  obtain ⟨b1, g1, h1, -, hleft⟩ := DirectGraph.reduceGraphIndegree_spec a.queue.tidNum
    (.ofEdges (a.committedGraph {.writeWrite, .writeRead, .readWrite}))
  obtain ⟨b2, g2, h2, hcyclic, -⟩ := DirectGraph.reduceGraphOutdegree_spec a.queue.tidNum g1
  refine ⟨b2, ?_, ?_⟩
  · simp only [checkG2Item, bind, Except.bind, h1, h2]
    rfl
  · rw [hcyclic, hleft, DirectGraph.cyclic_iff_edges, DirectGraph.edges_ofEdges, Reduce.Cyclic,
      edge_committedGraph]

/-- A cycle of committed transactions, one of whose edges is an anti-dependency. -/
def ItemCycle (a : DependencyAnalyzer) : Prop :=
  ∃ i j, a.CommittedEdge {.readWrite} i j ∧
    ReflTransGen (a.CommittedEdge {.writeWrite, .writeRead, .readWrite}) j i

theorem committedEdge_or : a.CommittedEdge {.writeWrite, .writeRead, .readWrite} =
    fun i j => a.CommittedEdge {.writeWrite, .writeRead} i j ∨ a.CommittedEdge {.readWrite} i j := by
  funext i j
  refine propext ⟨?_, ?_⟩
  · rintro ⟨hi, hj, hci, hcj, dt, hdt, hmem⟩
    simp only [Finset.mem_insert, Finset.mem_singleton] at hdt
    rcases hdt with rfl | rfl | rfl
    · exact Or.inl ⟨hi, hj, hci, hcj, _, by simp, hmem⟩
    · exact Or.inl ⟨hi, hj, hci, hcj, _, by simp, hmem⟩
    · exact Or.inr ⟨hi, hj, hci, hcj, _, by simp, hmem⟩
  · rintro (h | h)
    · exact h.mono (by decide)
    · exact h.mono (by decide)

theorem cycle_iff_itemCycle :
    (∃ i, TransGen (a.CommittedEdge {.writeWrite, .writeRead, .readWrite}) i i) ↔
      (∃ i, TransGen (a.CommittedEdge {.writeWrite, .writeRead}) i i) ∨ a.ItemCycle := by
  constructor
  · rintro ⟨i, hi⟩
    rw [committedEdge_or] at hi
    rcases Cycle.transGen_or hi with h | ⟨x, y, hix, hxy, hyi⟩
    · exact Or.inl ⟨i, h⟩
    · rw [← committedEdge_or] at hix hyi
      exact Or.inr ⟨x, y, hxy, hyi.trans hix⟩
  · rintro (⟨i, hi⟩ | ⟨i, j, hij, hji⟩)
    · exact ⟨i, TransGen.mono (fun _ _ h => h.mono (by decide)) _ _ hi⟩
    · exact ⟨i, TransGen.head' (hij.mono (by decide)) hji⟩

/-- The check finds the anti-dependency cycles exactly when there is one beside every cycle
of write dependencies. -/
theorem checkG2Item_correct_iff (a : DependencyAnalyzer) :
    (∃ b, a.checkG2Item = .ok b ∧ (b = true ↔ a.ItemCycle)) ↔
      ((∃ i, TransGen (a.CommittedEdge {.writeWrite, .writeRead}) i i) → a.ItemCycle) := by
  obtain ⟨b, hb, hcycle⟩ := a.checkG2Item_spec
  rw [cycle_iff_itemCycle] at hcycle
  constructor
  · rintro ⟨b', hb', hitem⟩ hpure
    obtain rfl := Except.ok.inj (hb.symm.trans hb')
    exact hitem.1 (hcycle.2 (Or.inl hpure))
  · intro h
    refine ⟨b, hb, hcycle.trans ⟨?_, Or.inr⟩⟩
    rintro (hpure | hitem)
    · exact h hpure
    · exact hitem

/-- A row that a transaction inserts and the other one reads, both ways. -/
def readBothWays : AnalyzerInput where
  initOutput := []
  totalOutput := [[], [], [], [["1", "11000"]], [["1", "11000"]], [], [["2", "12000"]],
    [["2", "12000"]], [], []]
  finalTidQueue := [0, 1, 0, 0, 1, 1, 1, 0, 0, 1]
  finalStmtUsage := [.mk' .initType false, .mk' .initType false, ⟨.insertWrite, false, "t0"⟩,
    ⟨.afterWriteRead, true, "t0"⟩, .mk' .selectRead false, ⟨.insertWrite, false, "t0"⟩,
    ⟨.afterWriteRead, true, "t0"⟩, .mk' .selectRead false, .mk' .initType false,
    .mk' .initType false]
  finalTxnStatus := [.commit, .commit]
  primaryKeyIdx := 1
  writeOpKeyIdx := 0

/-- A cycle of two write-read dependencies is reported. -/
theorem checkG2Item_writeReads : ∃ a, dependencyAnalyzer readBothWays = .ok a ∧
    a.checkG2Item = .ok true ∧ ¬a.ItemCycle := by
  obtain ⟨a, ha, h⟩ := exists_ok_of_map readBothWays (fun a =>
    decide (a.checkG2Item = .ok true) &&
      decide (∀ i < a.queue.tidNum, ∀ j < a.queue.tidNum,
        DependencyType.readWrite ∉ a.graphs.txn i j))
    (by decide +kernel)
  rw [Bool.and_eq_true, decide_eq_true_eq, decide_eq_true_eq] at h
  refine ⟨a, ha, h.1, ?_⟩
  rintro ⟨i, j, ⟨hi, hj, -, -, dt, hdt, hmem⟩, -⟩
  obtain rfl := Finset.mem_singleton.1 hdt
  exact h.2 i hi j hj hmem

/-! G-SIb -/

/-- `target_dependency_set` -/
def gsibTypes : DependencySet := {.writeWrite, .writeRead, .readWrite, .strictStartDepend}

/-- The two tests for an edge that has the one label READ_WRITE. -/
def isReadWriteOnly (a : DependencyAnalyzer) (e : ℕ × ℕ) : Bool :=
  !decide (1 < (a.graphs.txn e.1 e.2).card) && decide (.readWrite ∈ a.graphs.txn e.1 e.2)

/-- The entries of the matrix in the order of the two loops. -/
def rwEdges (a : DependencyAnalyzer) (tmpDgraph : DirectGraph) : List (ℕ × ℕ) :=
  ((List.range a.queue.tidNum).flatMap fun i =>
    (List.range a.queue.tidNum).map fun j => (i, j)).filter fun e =>
      tmpDgraph e.1 e.2 != 0 && a.isReadWriteOnly e

/-- The loop that puts back one edge at a time; each test works on the matrix that the one
before it left. -/
def gsibLoop (length : ℕ) : List (ℕ × ℕ) → DirectGraph → Except Failure Bool
  | [], _ => .ok false
  | rwEdge :: rest, tmpDgraph => do
    let (hasRwCycle, tmpDgraph) ← (tmpDgraph.setEntry rwEdge 1).reduceGraphIndegree length
    if hasRwCycle then return true else gsibLoop length rest (tmpDgraph.setEntry rwEdge 0)

def checkGSIb (a : DependencyAnalyzer) : Except Failure Bool := do
  let tmpDgraph := DirectGraph.ofEdges (a.committedGraph gsibTypes)
  let (left, tmpDgraph) ← tmpDgraph.reduceGraphIndegree a.queue.tidNum
  if !left then return false
  let (left, tmpDgraph) ← tmpDgraph.reduceGraphOutdegree a.queue.tidNum
  if !left then return false
  let rwEdges := a.rwEdges tmpDgraph
  gsibLoop a.queue.tidNum rwEdges (rwEdges.foldl (fun g e => g.setEntry e 0) tmpDgraph)

/-- An edge that has the one label READ_WRITE, and an edge with another label. -/
def ReadWriteOnly (a : DependencyAnalyzer) (i j : ℕ) : Prop :=
  a.CommittedEdge gsibTypes i j ∧ a.graphs.txn i j = {.readWrite}

def OtherEdge (a : DependencyAnalyzer) (i j : ℕ) : Prop :=
  a.CommittedEdge gsibTypes i j ∧ a.graphs.txn i j ≠ {.readWrite}

/-- The edge closes a cycle of edges with other labels. -/
def ClosesCycle (a : DependencyAnalyzer) (e : ℕ × ℕ) : Prop :=
  a.ReadWriteOnly e.1 e.2 ∧ ReflTransGen a.OtherEdge e.2 e.1

/-- A cycle with exactly one edge whose only label is READ_WRITE. -/
def MissedEffects (a : DependencyAnalyzer) : Prop := ∃ e, a.ClosesCycle e

def OtherCycle (a : DependencyAnalyzer) : Prop := ∃ i, TransGen a.OtherEdge i i

/-- A cycle leads to the edge, and the edge to a cycle. -/
def BetweenCycles (a : DependencyAnalyzer) (i j : ℕ) : Prop :=
  (∃ k, TransGen (a.CommittedEdge gsibTypes) k k ∧ TransGen (a.CommittedEdge gsibTypes) k i) ∧
    ∃ k, TransGen (a.CommittedEdge gsibTypes) k k ∧ TransGen (a.CommittedEdge gsibTypes) j k

/-- The edges that are put back. -/
def Candidate (a : DependencyAnalyzer) (e : ℕ × ℕ) : Prop :=
  a.ReadWriteOnly e.1 e.2 ∧ a.BetweenCycles e.1 e.2

/-- The first of them, row by row. -/
def FirstCandidate (a : DependencyAnalyzer) (e : ℕ × ℕ) : Prop :=
  a.Candidate e ∧ ∀ e', a.Candidate e' → e.1 < e'.1 ∨ e.1 = e'.1 ∧ e.2 ≤ e'.2

/-! The loop. -/

theorem gsibLoop_false {length : ℕ} {es : List (ℕ × ℕ)} {g : DirectGraph}
    (hes : ∀ e ∈ es, e.1 < length ∧ e.2 < length ∧ e.1 ≠ e.2)
    (hnone : ∀ x y, ¬g.Edge length x y) : gsibLoop length es g = .ok false := by
  induction es generalizing g with
  | nil => rfl
  | cons e es ih =>
    obtain ⟨⟨h1, h2, hne⟩, hrest⟩ := List.forall_mem_cons.1 hes
    obtain ⟨b, g', hreduce, hb, hleft⟩ :=
      DirectGraph.reduceGraphIndegree_left length (g.setEntry e 1)
    -- the one edge is no loop
    have hacyclic : ¬(g.setEntry e 1).Cyclic length := by
      rw [DirectGraph.cyclic_iff_transGen, DirectGraph.edge_setEntry_one ⟨h1, h2⟩,
        Cycle.cycle_insert]
      rintro (⟨i, hi⟩ | h)
      · obtain ⟨z, -, hz⟩ := TransGen.tail'_iff.1 hi
        exact hnone _ _ hz
      · rcases ReflTransGen.cases_head h with heq | ⟨z, hz, -⟩
        · exact hne heq.symm
        · exact hnone _ _ hz
    obtain rfl : b = false := Bool.eq_false_iff.2 fun h => hacyclic (hb.1 h)
    have hnone' : ∀ x y, ¬(g'.setEntry e 0).Edge length x y := by
      intro x y hxy
      obtain ⟨z, hz, -⟩ := ((hleft x y).1 (DirectGraph.edge_setEntry_zero hxy)).2
      exact hacyclic (DirectGraph.cyclic_iff_edges.2 ⟨z, hz⟩)
    simp only [gsibLoop, bind, Except.bind, hreduce]
    exact ih hrest hnone'

/-- Only the first edge is tested together with the others. -/
theorem gsibLoop_cons {length : ℕ} {e : ℕ × ℕ} {es : List (ℕ × ℕ)} (g : DirectGraph)
    (hes : ∀ e' ∈ e :: es, e'.1 < length ∧ e'.2 < length ∧ e'.1 ≠ e'.2) :
    ∃ b, gsibLoop length (e :: es) g = .ok b ∧
      (b = true ↔ (∃ i, TransGen (g.Edge length) i i) ∨
        ReflTransGen (g.Edge length) e.2 e.1) := by
  obtain ⟨⟨h1, h2, -⟩, hrest⟩ := List.forall_mem_cons.1 hes
  obtain ⟨b, g', hreduce, hb, hleft⟩ :=
    DirectGraph.reduceGraphIndegree_left length (g.setEntry e 1)
  have hcycle : b = true ↔ (∃ i, TransGen (g.Edge length) i i) ∨
      ReflTransGen (g.Edge length) e.2 e.1 := by
    rw [hb, DirectGraph.cyclic_iff_transGen, DirectGraph.edge_setEntry_one ⟨h1, h2⟩,
      Cycle.cycle_insert]
  refine ⟨b, ?_, hcycle⟩
  simp only [gsibLoop, bind, Except.bind, hreduce]
  cases b with
  | true => rfl
  | false =>
    refine gsibLoop_false hrest fun x y hxy => ?_
    obtain ⟨z, hz, -⟩ := ((hleft x y).1 (DirectGraph.edge_setEntry_zero hxy)).2
    exact Bool.false_ne_true (hb.2 (DirectGraph.cyclic_iff_edges.2 ⟨z, hz⟩))

/-! What the reductions leave to the loop. -/

/-- The matrix after both reductions. -/
structure LeftBetween (a : DependencyAnalyzer) (tmpDgraph : DirectGraph) : Prop where
  edge : ∀ i j, tmpDgraph.Edge a.queue.tidNum i j ↔
    a.CommittedEdge gsibTypes i j ∧ a.BetweenCycles i j
  entry : ∀ i j, tmpDgraph i j = 0 ∨ tmpDgraph i j = 1

theorem checkGSIb_eq (a : DependencyAnalyzer) : ∃ tmpDgraph, a.LeftBetween tmpDgraph ∧
    a.checkGSIb = gsibLoop a.queue.tidNum (a.rwEdges tmpDgraph)
      ((a.rwEdges tmpDgraph).foldl (fun g e => g.setEntry e 0) tmpDgraph) := by
  have hedge : Reduce.Edge a.queue.tidNum (DirectGraph.ofEdges (a.committedGraph gsibTypes)).edges =
      a.CommittedEdge gsibTypes := by
    rw [DirectGraph.edges_ofEdges, edge_committedGraph]
  have hcyclic : (DirectGraph.ofEdges (a.committedGraph gsibTypes)).Cyclic a.queue.tidNum ↔
      ∃ i, TransGen (a.CommittedEdge gsibTypes) i i := by
    rw [DirectGraph.cyclic_iff_edges, Reduce.Cyclic, hedge]
  obtain ⟨b1, g1, h1, hb1, hleft1⟩ := DirectGraph.reduceGraphIndegree_left a.queue.tidNum
    (.ofEdges (a.committedGraph gsibTypes))
  obtain ⟨b2, g2, h2, hb2, hleft2⟩ := DirectGraph.reduceGraphOutdegree_left a.queue.tidNum g1
  have hentry0 : ∀ i j, DirectGraph.ofEdges (a.committedGraph gsibTypes) i j = 0 ∨
      DirectGraph.ofEdges (a.committedGraph gsibTypes) i j = 1 := by
    intro i j
    unfold DirectGraph.ofEdges
    split
    · exact Or.inr rfl
    · exact Or.inl rfl
  have hentry1 : ∀ i j, g1 i j = 0 ∨ g1 i j = 1 := by
    intro i j
    rcases DirectGraph.indegreeLoop_entries _ _ _ h1 i j with h | h
    · exact Or.inl h
    · rw [h]
      exact hentry0 i j
  have hentry2 : ∀ i j, g2 i j = 0 ∨ g2 i j = 1 := by
    intro i j
    rcases DirectGraph.outdegreeLoop_entries _ _ _ h2 i j with h | h
    · exact Or.inl h
    · rw [h]
      exact hentry1 i j
  have hedge1 : ∀ i j, g1.Edge a.queue.tidNum i j ↔ a.CommittedEdge gsibTypes i j ∧
      ∃ k, TransGen (a.CommittedEdge gsibTypes) k k ∧
        TransGen (a.CommittedEdge gsibTypes) k i := by
    intro i j
    have h := hleft1 i j
    unfold DirectGraph.Edge Reduce.FromCycle at h
    rwa [hedge] at h
  cases b1 with
  | false =>
    -- there is no cycle, so no edge is left
    have hacyclic : ¬∃ i, TransGen (a.CommittedEdge gsibTypes) i i := fun h =>
      Bool.false_ne_true (hb1.2 (hcyclic.2 h))
    have hnone : ∀ i j, ¬g1.Edge a.queue.tidNum i j := fun i j h => by
      obtain ⟨-, k, hk, -⟩ := (hedge1 i j).1 h
      exact hacyclic ⟨k, hk⟩
    have hrw : a.rwEdges g1 = [] := by
      refine List.filter_eq_nil_iff.2 fun e he hkept => ?_
      simp only [List.mem_flatMap, List.mem_map, List.mem_range] at he
      obtain ⟨i, hi, j, hj, rfl⟩ := he
      rw [Bool.and_eq_true, bne_iff_ne] at hkept
      refine hnone i j ⟨hi, hj, ?_⟩
      rw [DirectGraph.edges, (hentry1 i j).resolve_left hkept.1]
      rfl
    refine ⟨g1, ⟨fun i j => iff_of_false (hnone i j) ?_, hentry1⟩, ?_⟩
    · rintro ⟨-, ⟨k, hk, -⟩, -⟩
      exact hacyclic ⟨k, hk⟩
    · simp only [checkGSIb, bind, Except.bind, h1, hrw]
      rfl
  | true =>
    obtain ⟨i0, hi0⟩ := hcyclic.1 (hb1.1 rfl)
    -- walks from a cycle keep their edges in the first reduction
    have hwalk : ∀ i j, (∃ k, TransGen (a.CommittedEdge gsibTypes) k k ∧
        TransGen (a.CommittedEdge gsibTypes) k i) → TransGen (a.CommittedEdge gsibTypes) i j →
        TransGen (g1.Edge a.queue.tidNum) i j := by
      rintro i j ⟨k, hk, hki⟩ hij
      induction hij with
      | single h => exact .single ((hedge1 _ _).2 ⟨h, k, hk, hki⟩)
      | tail hij hjl ih => exact ih.tail ((hedge1 _ _).2 ⟨hjl, k, hk, hki.trans hij⟩)
    have hback : ∀ i j, TransGen (g1.Edge a.queue.tidNum) i j →
        TransGen (a.CommittedEdge gsibTypes) i j :=
      fun i j h => TransGen.mono (fun x y hxy => ((hedge1 x y).1 hxy).1) _ _ h
    have hflip : ∀ i j, TransGen (Reduce.Edge a.queue.tidNum (flip g1.edges)) i j ↔
        TransGen (g1.Edge a.queue.tidNum) j i := by
      intro i j
      have hswap : Reduce.Edge a.queue.tidNum (flip g1.edges) =
          Function.swap (g1.Edge a.queue.tidNum) := by
        funext x y
        exact propext ⟨fun h => ⟨h.2.1, h.1, h.2.2⟩, fun h => ⟨h.2.1, h.1, h.2.2⟩⟩
      rw [hswap]
      exact transGen_swap
    obtain rfl : b2 = true := by
      refine hb2.2 (DirectGraph.cyclic_iff_transGen.2 ⟨i0, hwalk i0 i0 ⟨i0, hi0, hi0⟩ hi0⟩)
    refine ⟨g2, ⟨fun i j => ?_, hentry2⟩, ?_⟩
    · rw [hleft2, hedge1, and_assoc, BetweenCycles]
      refine and_congr_right fun hij => and_congr_right fun hbefore => ?_
      obtain ⟨k, hk, hki⟩ := hbefore
      constructor
      · rintro ⟨x, hx, hxj⟩
        exact ⟨x, hback x x ((hflip x x).1 hx), hback j x ((hflip x j).1 hxj)⟩
      · rintro ⟨x, hx, hjx⟩
        refine ⟨x, (hflip x x).2 ?_, (hflip x j).2 ?_⟩
        · exact hwalk x x ⟨k, hk, ((hki.tail hij).trans hjx)⟩ hx
        · exact hwalk j x ⟨k, hk, hki.tail hij⟩ hjx
    · simp only [checkGSIb, bind, Except.bind, h1, h2]
      rfl

theorem isReadWriteOnly_iff {e : ℕ × ℕ} :
    a.isReadWriteOnly e = true ↔ a.graphs.txn e.1 e.2 = {.readWrite} := by
  rw [isReadWriteOnly, Bool.and_eq_true, Bool.not_eq_true', decide_eq_false_iff_not,
    decide_eq_true_eq]
  constructor
  · rintro ⟨hcard, hmem⟩
    exact (Finset.eq_singleton_iff_unique_mem).2
      ⟨hmem, fun x hx => Finset.card_le_one.1 (not_lt.1 hcard) x hx _ hmem⟩
  · intro h
    rw [h]
    simp

section Left

variable {tmpDgraph : DirectGraph}

theorem LeftBetween.mem_rwEdges (h : a.LeftBetween tmpDgraph) {e : ℕ × ℕ} :
    e ∈ a.rwEdges tmpDgraph ↔ a.Candidate e := by
  obtain ⟨i, j⟩ := e
  have hedge := h.edge i j
  simp only [rwEdges, List.mem_filter, List.mem_flatMap, List.mem_map, List.mem_range,
    Prod.mk.injEq, Bool.and_eq_true, bne_iff_ne, isReadWriteOnly_iff, Candidate, ReadWriteOnly]
  constructor
  · rintro ⟨⟨x, hx, y, hy, rfl, rfl⟩, hne, honly⟩
    have hpos : tmpDgraph.Edge a.queue.tidNum x y := by
      refine ⟨hx, hy, ?_⟩
      rw [DirectGraph.edges, (h.entry x y).resolve_left hne]
      rfl
    exact ⟨⟨(hedge.1 hpos).1, honly⟩, (hedge.1 hpos).2⟩
  · rintro ⟨⟨hcommitted, honly⟩, hbetween⟩
    obtain ⟨hi, hj, hpos⟩ := hedge.2 ⟨hcommitted, hbetween⟩
    refine ⟨⟨i, hi, j, hj, rfl, rfl⟩, fun hzero => ?_, honly⟩
    rw [DirectGraph.edges, hzero] at hpos
    cases hpos

/-- The list is in the order of the rows. -/
theorem rwEdges_pairwise (a : DependencyAnalyzer) (tmpDgraph : DirectGraph) :
    (a.rwEdges tmpDgraph).Pairwise fun e e' => e.1 < e'.1 ∨ e.1 = e'.1 ∧ e.2 < e'.2 := by
  refine List.Pairwise.filter _ (List.pairwise_flatMap.2 ⟨fun i _ => ?_, ?_⟩)
  · refine List.pairwise_map.2 ?_
    exact List.pairwise_lt_range.imp fun h => Or.inr ⟨rfl, h⟩
  · refine List.pairwise_lt_range.imp fun h e he e' he' => Or.inl ?_
    obtain ⟨x, -, rfl⟩ := List.mem_map.1 he
    obtain ⟨y, -, rfl⟩ := List.mem_map.1 he'
    exact h

theorem LeftBetween.firstCandidate (h : a.LeftBetween tmpDgraph) {e : ℕ × ℕ}
    {es : List (ℕ × ℕ)} (hlist : a.rwEdges tmpDgraph = e :: es) : a.FirstCandidate e := by
  have hpairwise := a.rwEdges_pairwise tmpDgraph
  rw [hlist] at hpairwise
  refine ⟨h.mem_rwEdges.1 (hlist ▸ List.mem_cons_self), fun e' he' => ?_⟩
  have hmem := h.mem_rwEdges.2 he'
  rw [hlist] at hmem
  rcases List.mem_cons.1 hmem with rfl | hmem
  · exact Or.inr ⟨rfl, le_rfl⟩
  · rcases List.rel_of_pairwise_cons hpairwise hmem with hlt | ⟨heq, hlt⟩
    · exact Or.inl hlt
    · exact Or.inr ⟨heq, hlt.le⟩

/-- The matrix without the candidates has the other edges between cycles. -/
theorem LeftBetween.edge_other (h : a.LeftBetween tmpDgraph) (i j : ℕ) :
    ((a.rwEdges tmpDgraph).foldl (fun g e => g.setEntry e 0) tmpDgraph).Edge a.queue.tidNum i j ↔
      a.OtherEdge i j ∧ a.BetweenCycles i j := by
  rw [DirectGraph.edge_foldl_setEntry, h.edge, h.mem_rwEdges]
  simp only [Candidate, ReadWriteOnly, OtherEdge]
  tauto

end Left

theorem FirstCandidate.unique {e e' : ℕ × ℕ} (h : a.FirstCandidate e) (h' : a.FirstCandidate e') :
    e = e' := by
  have h1 := h.2 e' h'.1
  have h2 := h'.2 e h.1
  exact Prod.ext (by omega) (by omega)

/-- A walk of other edges that something closes runs between cycles. -/
theorem OtherEdge.between {u v : ℕ} (h : ReflTransGen a.OtherEdge u v)
    (hclose : TransGen (a.CommittedEdge gsibTypes) v u) :
    ReflTransGen (fun i j => a.OtherEdge i j ∧ a.BetweenCycles i j) u v := by
  induction h using ReflTransGen.head_induction_on with
  | refl => exact .refl
  | head hxy hyv ih =>
    have hback := ReflTransGen.mono (fun _ _ h => h.1) _ _ hyv
    have hcycle := hclose.tail hxy.1
    refine .head ⟨hxy, ⟨v, hcycle.trans_left hback, hclose⟩, v, hcycle.trans_left hback, ?_⟩
      (ih hcycle)
    exact (hcycle.trans_left hback).trans_right hback

theorem otherCycle_iff : (∃ i, TransGen (fun i j => a.OtherEdge i j ∧ a.BetweenCycles i j) i i) ↔
    a.OtherCycle := by
  constructor
  · rintro ⟨i, hi⟩
    exact ⟨i, TransGen.mono (fun _ _ h => h.1) _ _ hi⟩
  · rintro ⟨i, hi⟩
    have hcycle : TransGen (a.CommittedEdge gsibTypes) i i :=
      TransGen.mono (fun _ _ h => h.1) _ _ hi
    obtain ⟨j, hij, hji⟩ := TransGen.head'_iff.1 hi
    refine ⟨i, TransGen.head' ⟨hij, ⟨i, hcycle, hcycle⟩, i, hcycle, ?_⟩
      (OtherEdge.between hji (.single hij.1))⟩
    exact hcycle.trans_right (ReflTransGen.mono (fun _ _ h => h.1) _ _ hji)

theorem ClosesCycle.candidate {e : ℕ × ℕ} (h : a.ClosesCycle e) : a.Candidate e := by
  obtain ⟨honly, hback⟩ := h
  have hback' : ReflTransGen (a.CommittedEdge gsibTypes) e.2 e.1 :=
    ReflTransGen.mono (fun _ _ h => h.1) _ _ hback
  have h1 : TransGen (a.CommittedEdge gsibTypes) e.1 e.1 := .head' honly.1 hback'
  have h2 : TransGen (a.CommittedEdge gsibTypes) e.2 e.2 := .tail' hback' honly.1
  exact ⟨honly, ⟨e.1, h1, h1⟩, e.2, h2, h2⟩

/-- An anti-dependency joins two transactions. -/
theorem ne_of_readWrite {inp : AnalyzerInput} (h : dependencyAnalyzer inp = .ok a) {i j : ℕ}
    (hmem : .readWrite ∈ a.graphs.txn i j) : i ≠ j := by
  obtain ⟨g1, g2, g3, g4, g5, hrun⟩ := dependencyAnalyzer_run h
  have hlabel : a.graphs.HasLabel (.txn i j .readWrite) := hmem
  obtain ⟨op, target, -, hop⟩ := (hrun.rowLabel_iff (Or.inr (Or.inr rfl))).1 hlabel
  rcases hop with ⟨x, y, -, -, hl⟩ | ⟨hne, hl⟩
  · cases hl
  · cases hl
    exact hne

/-- The verdict: there is a candidate, and the other edges have a cycle, or the first
candidate closes one. -/
theorem checkGSIb_spec {inp : AnalyzerInput} (h : dependencyAnalyzer inp = .ok a) :
    ∃ b, a.checkGSIb = .ok b ∧ (b = true ↔ (∃ e, a.Candidate e) ∧
      (a.OtherCycle ∨ ∃ e, a.FirstCandidate e ∧ a.ClosesCycle e)) := by
  obtain ⟨tmpDgraph, hleft, heq⟩ := a.checkGSIb_eq
  rw [heq]
  cases hlist : a.rwEdges tmpDgraph with
  | nil =>
    refine ⟨false, rfl, iff_of_false Bool.false_ne_true ?_⟩
    rintro ⟨⟨e, he⟩, -⟩
    have hmem := hleft.mem_rwEdges.2 he
    rw [hlist] at hmem
    cases hmem
  | cons e es =>
    have hes : ∀ e' ∈ e :: es, e'.1 < a.queue.tidNum ∧ e'.2 < a.queue.tidNum ∧ e'.1 ≠ e'.2 := by
      intro e' he'
      obtain ⟨⟨⟨h1, h2, -⟩, honly⟩, -⟩ := hleft.mem_rwEdges.1 (hlist ▸ he')
      exact ⟨h1, h2, ne_of_readWrite h (by rw [honly]; exact Finset.mem_singleton_self _)⟩
    obtain ⟨b, hloop, hb⟩ :=
      gsibLoop_cons ((e :: es).foldl (fun g e => g.setEntry e 0) tmpDgraph) hes
    refine ⟨b, hloop, hb.trans ?_⟩
    have hfirst := hleft.firstCandidate hlist
    have hedge : ((e :: es).foldl (fun g e => g.setEntry e 0) tmpDgraph).Edge a.queue.tidNum =
        fun i j => a.OtherEdge i j ∧ a.BetweenCycles i j := by
      funext i j
      rw [← hlist]
      exact propext (hleft.edge_other i j)
    rw [hedge, otherCycle_iff, and_iff_right ⟨e, hfirst.1⟩]
    refine or_congr Iff.rfl ⟨fun hwalk => ⟨e, hfirst, hfirst.1.1, ?_⟩, ?_⟩
    · exact ReflTransGen.mono (fun _ _ h => h.1) _ _ hwalk
    · rintro ⟨e', hfirst', hclose⟩
      obtain rfl := hfirst.unique hfirst'
      exact OtherEdge.between hclose.2 (.single hclose.1.1)

/-- `check_GSIb` finds the missed effects exactly when the first candidate closes a cycle if
some edge does, or the other edges have one; and when, beside such a cycle of the others, a
candidate comes with an edge that closes one. -/
theorem checkGSIb_correct_iff {inp : AnalyzerInput} (h : dependencyAnalyzer inp = .ok a) :
    (∃ b, a.checkGSIb = .ok b ∧ (b = true ↔ a.MissedEffects)) ↔
      (a.MissedEffects → a.OtherCycle ∨ ∃ e, a.FirstCandidate e ∧ a.ClosesCycle e) ∧
        (a.OtherCycle → (∃ e, a.Candidate e) → a.MissedEffects) := by
  obtain ⟨b, hb, hspec⟩ := checkGSIb_spec h
  constructor
  · rintro ⟨b', hb', hmissed⟩
    obtain rfl := Except.ok.inj (hb.symm.trans hb')
    rw [hspec] at hmissed
    exact ⟨fun h => (hmissed.2 h).2, fun hother hcandidate =>
      hmissed.1 ⟨hcandidate, Or.inl hother⟩⟩
  · rintro ⟨hfirst, hother⟩
    refine ⟨b, hb, hspec.trans ⟨?_, fun hmissed => ?_⟩⟩
    · rintro ⟨hcandidate, hcycle | ⟨e, -, hclose⟩⟩
      · exact hother hcycle hcandidate
      · exact ⟨e, hclose⟩
    · obtain ⟨e, hclose⟩ := id hmissed
      exact ⟨⟨e, hclose.candidate⟩, hfirst hmissed⟩

/-- Transactions 0 and 1 each overwrite what the other one has read. Transaction 3 reads a
row before and after the update of transaction 2. -/
def skewAndReread : AnalyzerInput where
  initOutput := [[["0", "11000"], ["0", "12000"], ["0", "13000"]]]
  totalOutput := List.replicate 4 [] ++ [[["0", "11000"]], [["0", "12000"]], [["0", "12000"]], [],
    [["1", "12000"]], [["0", "11000"]], [], [["2", "11000"]], [["0", "13000"]], [["0", "13000"]],
    [], [["3", "13000"]], [["3", "13000"]]] ++ List.replicate 4 []
  finalTidQueue := [0, 1, 2, 3, 0, 1, 0, 0, 0, 1, 1, 1, 3, 2, 2, 2, 3, 0, 1, 2, 3]
  finalStmtUsage :=
    let update := [⟨.beforeWriteRead, true, "t0"⟩, ⟨.updateWrite, false, "t0"⟩,
      ⟨.afterWriteRead, true, "t0"⟩]
    let select : StmtUsage := .mk' .selectRead false
    List.replicate 4 (.mk' .initType false) ++ [select, select] ++ update ++ update ++ [select] ++
      update ++ [select] ++ List.replicate 4 (.mk' .initType false)
  finalTxnStatus := List.replicate 4 .commit
  primaryKeyIdx := 1
  writeOpKeyIdx := 0

/-- The edge from 3 to 2 closes a cycle, and comes third. -/
theorem checkGSIb_misses : ∃ a, dependencyAnalyzer skewAndReread = .ok a ∧
    (∀ i, ¬TransGen (a.CommittedEdge {.writeWrite, .writeRead, .strictStartDepend}) i i) ∧
    a.checkGSIb = .ok false ∧ a.MissedEffects := by
  let rank : ℕ → ℕ := fun i => if i = 4 then 0 else if i = 2 then 1 else 2
  let types : DependencySet := {.writeWrite, .writeRead, .strictStartDepend}
  obtain ⟨a, ha, h⟩ := exists_ok_of_map skewAndReread (fun a =>
    decide (a.checkGSIb = .ok false) &&
      decide (∀ i < a.queue.tidNum, ∀ j < a.queue.tidNum,
        types ∩ a.graphs.txn i j = ∅ ∨ rank i < rank j) &&
      (a.committedGraph gsibTypes 3 2 && a.committedGraph gsibTypes 2 3) &&
      decide (3 < a.queue.tidNum ∧ a.graphs.txn 3 2 = {.readWrite} ∧
        a.graphs.txn 2 3 ≠ {.readWrite})) (by decide +kernel)
  simp only [Bool.and_eq_true, decide_eq_true_eq] at h
  obtain ⟨⟨⟨hcheck, hrank⟩, h32, h23⟩, htid, honly, hother⟩ := h
  have hedge : ∀ i < a.queue.tidNum, ∀ j < a.queue.tidNum,
      a.committedGraph gsibTypes i j = true → a.CommittedEdge gsibTypes i j := by
    intro i hi j hj hij
    rw [← edge_committedGraph]
    exact ⟨hi, hj, hij⟩
  refine ⟨a, ha, fun i hi => ?_, hcheck, (3, 2), ⟨hedge 3 htid 2 (by omega) h32, honly⟩,
    .single ⟨hedge 2 (by omega) 3 htid h23, hother⟩⟩
  refine Reduce.not_cyclic_of_rank (n := a.queue.tidNum) (g := a.committedGraph types) rank ?_
    ⟨i, by rw [edge_committedGraph]; exact hi⟩
  intro x y hxy
  rw [edge_committedGraph] at hxy
  obtain ⟨hx, hy, -, -, dt, hdt, hmem⟩ := hxy
  exact (hrank x hx y hy).resolve_left
    (Finset.nonempty_iff_ne_empty.1 ⟨dt, Finset.mem_inter.2 ⟨hdt, hmem⟩⟩)

/-- Without an update there is nothing to miss. -/
theorem checkGSIb_correct_iff_inserts : ∃ a, dependencyAnalyzer readBothWays = .ok a ∧
    ((∃ b, a.checkGSIb = .ok b ∧ (b = true ↔ a.MissedEffects)) ↔
      (a.MissedEffects → a.OtherCycle ∨ ∃ e, a.FirstCandidate e ∧ a.ClosesCycle e) ∧
        (a.OtherCycle → (∃ e, a.Candidate e) → a.MissedEffects)) := by
  obtain ⟨a, ha, -⟩ := exists_ok_of_map readBothWays (fun _ => true) (by decide +kernel)
  exact ⟨a, ha, checkGSIb_correct_iff ha⟩

end DependencyAnalyzer

end DbFuzz
