import DbFuzz.Lib.LinearExt
import DbFuzz.TxCheck.SortFlag

/-! `get_all_topo_sort_path`: every order of the groups on the path of the sort. A level of
`recur_topo_sort` tries each group that no other open group points to. -/

namespace DbFuzz

open Loop LinearExt

/-- The branches that do not start at one of the nodes. -/
def StmtGraph.without (g : StmtGraph) (nodes : Finset StmtId) : StmtGraph :=
  fun x y => if x ∈ nodes then none else g x y

/-- The parameters and variables of one call, with `stmt_dependency_graph`. -/
structure LevelState where
  graph : StmtGraph
  visitedInstrument : Finset ℕ
  currentPath : List StmtId
  deletedNodes : Finset StmtId
  totalPath : List (List StmtId)
  flag : Bool

namespace AnalyzedQueue

/-- The loop body; `recur` is the call one level down. The group is taken back afterwards. -/
def levelRound (q : AnalyzedQueue) (graph : StmtGraph)
    (recur : List StmtId → Finset StmtId → StmtGraph → List (List StmtId) →
      Except Failure (StmtGraph × List (List StmtId))) (i : ℕ) (s : LevelState) :
    Except Failure LevelState :=
  if i ∈ s.visitedInstrument then .ok s
  else if q.sid i ∈ s.deletedNodes then .ok s
  else do
    let (g, idxSet) ← q.getInstrumentedStmtSet s.graph i
    let r := q.hasIndegree (graph.without s.deletedNodes) idxSet (q.indices idxSet)
      s.visitedInstrument
    if r.1 then return { s with graph := g, visitedInstrument := r.2 }
    else do
      let chosen := q.groupIds idxSet
      let currentPath := s.currentPath ++ chosen
      let deletedNodes := s.deletedNodes ∪ chosen.toFinset
      let (g, totalPath) ← recur currentPath deletedNodes g s.totalPath
      return ⟨g, r.2, currentPath.take (currentPath.length - chosen.length),
        deletedNodes \ chosen.toFinset, totalPath, true⟩

def recurTopoSort (q : AnalyzedQueue) (graph : StmtGraph) : ℕ → List StmtId → Finset StmtId →
    StmtGraph → List (List StmtId) → Except Failure (StmtGraph × List (List StmtId))
  | 0, _, _, _, _ => .error .outOfFuel
  | fuel + 1, currentPath, deletedNodes, g, totalPath => do
    let s ← forRange q.stmtNum (q.levelRound graph (q.recurTopoSort graph fuel))
      ⟨g, ∅, currentPath, deletedNodes, totalPath, false⟩
    return (s.graph, if s.flag then s.totalPath else s.totalPath ++ [s.currentPath])

/-- A node is deleted, and its branches in the copy of the graph. -/
def deleteNode (q : AnalyzedQueue) (s : Finset StmtId × StmtGraph) (i : ℕ) :
    Finset StmtId × StmtGraph :=
  (insert (q.sid i) s.1, q.eraseBranches (q.sid i) s.2)

def initIndices (q : AnalyzedQueue) : List ℕ :=
  (List.range q.stmtNum).filter fun i => (q.usage i).stmtType = .initType

/-- `get_all_topo_sort_path`, with the graph it leaves. -/
def getAllTopoSortPath (q : AnalyzedQueue) (g : StmtGraph) :
    Except Failure (StmtGraph × List (List StmtId)) := do
  let (deletedNodes, tmp) := (q.abortedIndices ++ q.initIndices).foldl q.deleteNode (∅, g)
  let st ← q.topologicalSortPath g deletedNodes
  let deletedNodes := (List.range q.stmtNum).foldl
    (fun nodes i => if q.sid i ∈ st.path then nodes else insert (q.sid i) nodes) deletedNodes
  q.recurTopoSort (q.purgeBranches tmp) (q.stmtNum + 1) [] deletedNodes st.graph []

/-! Open groups. -/

variable {q : AnalyzedQueue} {g g' graph : StmtGraph} {deleted : Finset StmtId} {i j k : ℕ}
  {A B : Finset ℕ}

/-- A data dependency leads from the first group to the second. -/
def DataEdge (q : AnalyzedQueue) (g : StmtGraph) (A B : Finset ℕ) : Prop :=
  ∃ i ∈ A, ∃ j ∈ B, ∃ dt ∈ g.labels (q.sid i) (q.sid j), dt.isData = true

/-- The groups of the statements that are not deleted. -/
def openGroups (q : AnalyzedQueue) (g : StmtGraph) (deleted : Finset StmtId) : Finset (Finset ℕ) :=
  ((Finset.range q.stmtNum).filter fun i => q.sid i ∉ deleted).image (q.stmtSet g)

/-- Groups are deleted whole, and between open ones the branches are the data dependencies. -/
structure Openable (q : AnalyzedQueue) (g graph : StmtGraph) (deleted : Finset StmtId) : Prop where
  whole : ∀ i < q.stmtNum, q.sid i ∉ deleted → ∀ j ∈ q.stmtSet g i, q.sid j ∉ deleted
  branch : ∀ i j, i < q.stmtNum → j < q.stmtNum → q.sid i ∉ deleted → q.sid j ∉ deleted →
    i ∉ q.stmtSet g j →
    (q.Branch graph i j ↔ ∃ dt ∈ g.labels (q.sid i) (q.sid j), dt.isData = true)
  free : ∀ T ⊆ q.openGroups g deleted, T.Nonempty → ∃ A, Free (q.DataEdge g) T A

theorem mem_openGroups : A ∈ q.openGroups g deleted ↔
    ∃ i < q.stmtNum, q.sid i ∉ deleted ∧ A = q.stmtSet g i := by
  simp only [openGroups, Finset.mem_image, Finset.mem_filter, Finset.mem_range]
  constructor
  · rintro ⟨i, ⟨hi, hd⟩, rfl⟩
    exact ⟨i, hi, hd, rfl⟩
  · rintro ⟨i, hi, hd, rfl⟩
    exact ⟨i, ⟨hi, hd⟩, rfl⟩

theorem sid_mem_groupIds (hi : i < q.stmtNum) : q.sid i ∈ q.groupIds A ↔ i ∈ A := by
  rw [mem_groupIds]
  constructor
  · rintro ⟨j, hj, hjA, hij⟩
    rwa [sid_inj hi hj hij]
  · intro hiA
    exact ⟨i, hi, hiA, rfl⟩

theorem mem_iff_stmtSet_eq (hi : i < q.stmtNum) (hk : k < q.stmtNum) :
    i ∈ q.stmtSet g k ↔ q.stmtSet g i = q.stmtSet g k :=
  ⟨fun h => stmtSet_eq hk h, fun h => h ▸ self_mem_stmtSet hi⟩

/-- A statement of an open group is not deleted, and the group is its group. -/
theorem Openable.of_mem (h : q.Openable g graph deleted) (hA : A ∈ q.openGroups g deleted)
    (hi : i ∈ A) : i < q.stmtNum ∧ q.sid i ∉ deleted ∧ A = q.stmtSet g i := by
  obtain ⟨k, hk, hd, rfl⟩ := mem_openGroups.1 hA
  exact ⟨lt_of_mem_stmtSet hk hi, h.whole k hk hd i hi, (stmtSet_eq hk hi).symm⟩

theorem openGroups_delete (hk : k < q.stmtNum) :
    q.openGroups g (deleted ∪ (q.groupIds (q.stmtSet g k)).toFinset) =
      (q.openGroups g deleted).erase (q.stmtSet g k) := by
  ext B
  rw [Finset.mem_erase, mem_openGroups, mem_openGroups]
  simp only [Finset.mem_union, List.mem_toFinset, not_or]
  constructor
  · rintro ⟨i, hi, ⟨hd, hnot⟩, rfl⟩
    rw [sid_mem_groupIds hi, mem_iff_stmtSet_eq hi hk] at hnot
    exact ⟨hnot, i, hi, hd, rfl⟩
  · rintro ⟨hne, i, hi, hd, rfl⟩
    refine ⟨i, hi, ⟨hd, ?_⟩, rfl⟩
    rwa [sid_mem_groupIds hi, mem_iff_stmtSet_eq hi hk]

theorem Openable.delete (h : q.Openable g graph deleted) (hk : k < q.stmtNum) :
    q.Openable g graph (deleted ∪ (q.groupIds (q.stmtSet g k)).toFinset) where
  whole := by
    intro i hi hd j hj
    simp only [Finset.mem_union, List.mem_toFinset, not_or] at hd ⊢
    have hjn := lt_of_mem_stmtSet hi hj
    refine ⟨h.whole i hi hd.1 j hj, ?_⟩
    rw [sid_mem_groupIds hjn, mem_iff_stmtSet_eq hjn hk, stmtSet_eq hi hj,
      ← mem_iff_stmtSet_eq hi hk, ← sid_mem_groupIds hi]
    exact hd.2
  branch := by
    intro i j hi hj hdi hdj hne
    rw [Finset.mem_union, not_or] at hdi hdj
    exact h.branch i j hi hj hdi.1 hdj.1 hne
  free := by
    intro T hT hne
    rw [openGroups_delete hk] at hT
    exact h.free T (hT.trans (Finset.erase_subset _ _)) hne

/-- The test of a group is whether it can come first. -/
theorem Openable.hasIndegree_iff (h : q.Openable g graph deleted) (hk : k < q.stmtNum)
    (hd : q.sid k ∉ deleted) (visited : Finset ℕ) :
    (q.hasIndegree (graph.without deleted) (q.stmtSet g k) (q.indices (q.stmtSet g k)) visited).1 =
      false ↔ Free (q.DataEdge g) (q.openGroups g deleted) (q.stmtSet g k) := by
  rw [← Bool.not_eq_true, hasIndegree_stmtSet]
  have hmem : q.stmtSet g k ∈ q.openGroups g deleted := mem_openGroups.2 ⟨k, hk, hd, rfl⟩
  have hbranch : ∀ j c, q.Branch (graph.without deleted) j c ↔
      q.sid j ∉ deleted ∧ q.Branch graph j c := by
    intro j c
    unfold Branch StmtGraph.without
    split_ifs with hj <;> simp [hj]
  constructor
  · refine fun hnone => ⟨hmem, fun B hB hne => ?_⟩
    rintro ⟨j, hj, c, hc, hdata⟩
    obtain ⟨hjn, hjd, rfl⟩ := h.of_mem hB hj
    obtain ⟨hcn, hcd, hck⟩ := h.of_mem hmem hc
    have hout : j ∉ q.stmtSet g k := fun hj => hne (stmtSet_eq hk hj)
    refine hnone ⟨c, mem_indices.2 ⟨hcn, hc⟩, j, hjn, hout, (hbranch j c).2 ⟨hjd, ?_⟩⟩
    exact (h.branch j c hjn hcn hjd hcd (hck ▸ hout)).2 hdata
  · rintro ⟨-, hfree⟩ ⟨c, hc, j, hj, hout, hb⟩
    obtain ⟨hcn, hc⟩ := mem_indices.1 hc
    obtain ⟨hjd, hb⟩ := (hbranch j c).1 hb
    obtain ⟨-, hcd, hck⟩ := h.of_mem hmem hc
    refine hfree (q.stmtSet g j) (mem_openGroups.2 ⟨j, hj, hjd, rfl⟩)
      (fun he => hout ((mem_iff_stmtSet_eq hj hk).2 he)) ⟨j, self_mem_stmtSet hj, c, hc, ?_⟩
    exact (h.branch j c hj hcn hjd hcd (hck ▸ hout)).1 hb

theorem subset_hasIndegree {tmp : StmtGraph} {idxSet : Finset ℕ} (l : List ℕ)
    (checked : Finset ℕ) : checked ⊆ (q.hasIndegree tmp idxSet l checked).2 := by
  induction l generalizing checked with
  | nil => exact Finset.Subset.refl checked
  | cons c l ih =>
    rw [hasIndegree]
    split_ifs with h
    · exact Finset.subset_insert c checked
    · exact (Finset.subset_insert c checked).trans (ih _)

/-- Without a branch the whole set has been visited. -/
theorem hasIndegree_visits {tmp : StmtGraph} {idxSet : Finset ℕ} {l : List ℕ}
    {checked : Finset ℕ} (h : (q.hasIndegree tmp idxSet l checked).1 = false) :
    ∀ c ∈ l, c ∈ (q.hasIndegree tmp idxSet l checked).2 := by
  induction l generalizing checked with
  | nil => simp
  | cons c l ih =>
    rw [hasIndegree] at h ⊢
    split_ifs at h ⊢ with hb
    intro d hd
    rcases List.mem_cons.1 hd with rfl | hd
    · exact subset_hasIndegree l _ (Finset.mem_insert_self d checked)
    · exact ih h d hd

/-! One level. -/

/-- What the paths of a level are, for the groups tried and the orders after each. -/
def levelPaths (q : AnalyzedQueue) (path : List StmtId)
    (tried : List (Finset ℕ × List (List (Finset ℕ)))) : List (List StmtId) :=
  (tried.flatMap fun e => e.2.map (e.1 :: ·)).map fun groups => path ++ groups.flatMap q.groupIds

/-- The loop before index `k`. -/
structure LevelInv (q : AnalyzedQueue) (g : StmtGraph) (path : List StmtId)
    (deleted : Finset StmtId) (total : List (List StmtId)) (k : ℕ)
    (tried : List (Finset ℕ × List (List (Finset ℕ)))) (s : LevelState) : Prop where
  same : SameLabels g s.graph
  currentPath : s.currentPath = path
  deletedNodes : s.deletedNodes = deleted
  totalPath : s.totalPath = total ++ q.levelPaths path tried
  flag : s.flag = !tried.isEmpty
  visited : ∀ i ∈ s.visitedInstrument, ∃ j < k, i ∈ q.stmtSet g j
  seen : ∀ A ∈ tried.map Prod.fst, A ⊆ s.visitedInstrument
  nodup : (tried.map Prod.fst).Nodup
  mem : ∀ A, A ∈ tried.map Prod.fst ↔
    Free (q.DataEdge g) (q.openGroups g deleted) A ∧ ∃ i < k, i ∈ A
  orders : ∀ e ∈ tried, Enumerates (q.DataEdge g) ((q.openGroups g deleted).erase e.1) e.2

variable {path : List StmtId} {total : List (List StmtId)} {s : LevelState}
  {tried : List (Finset ℕ × List (List (Finset ℕ)))}

theorem LevelInv.init (hg : SameLabels g g') :
    q.LevelInv g path deleted total 0 [] ⟨g', ∅, path, deleted, total, false⟩ where
  same := hg
  currentPath := rfl
  deletedNodes := rfl
  totalPath := by simp [levelPaths]
  flag := rfl
  visited := by simp
  seen := by simp
  nodup := List.nodup_nil
  mem := by simp
  orders := by simp

/-- An index that brings no new group that can come first. -/
theorem LevelInv.skip {s' : LevelState} (h : q.LevelInv g path deleted total k tried s)
    (hgraph : SameLabels g s'.graph) (hpath : s'.currentPath = s.currentPath)
    (hdeleted : s'.deletedNodes = s.deletedNodes) (htotal : s'.totalPath = s.totalPath)
    (hflag : s'.flag = s.flag) (hsub : s.visitedInstrument ⊆ s'.visitedInstrument)
    (hvisited : ∀ i ∈ s'.visitedInstrument, i ∈ s.visitedInstrument ∨ i ∈ q.stmtSet g k)
    (hnew : ∀ A, Free (q.DataEdge g) (q.openGroups g deleted) A → k ∈ A → ∃ i < k, i ∈ A) :
    q.LevelInv g path deleted total (k + 1) tried s' where
  same := hgraph
  currentPath := hpath.trans h.currentPath
  deletedNodes := hdeleted.trans h.deletedNodes
  totalPath := htotal.trans h.totalPath
  flag := hflag.trans h.flag
  visited := by
    intro i hi
    rcases hvisited i hi with hi | hi
    · obtain ⟨j, hj, hij⟩ := h.visited i hi
      exact ⟨j, by omega, hij⟩
    · exact ⟨k, by omega, hi⟩
  seen := fun A hA => (h.seen A hA).trans hsub
  nodup := h.nodup
  mem := by
    intro A
    rw [h.mem]
    refine and_congr_right fun hfree => ⟨?_, ?_⟩
    · rintro ⟨i, hi, hiA⟩
      exact ⟨i, by omega, hiA⟩
    · rintro ⟨i, hi, hiA⟩
      rcases Nat.lt_succ_iff_lt_or_eq.1 hi with hi | rfl
      · exact ⟨i, hi, hiA⟩
      · exact hnew A hfree hiA
  orders := h.orders

theorem levelPaths_append (q : AnalyzedQueue) (path : List StmtId) (A : Finset ℕ)
    (orders : List (List (Finset ℕ))) :
    q.levelPaths path (tried ++ [(A, orders)]) = q.levelPaths path tried ++
      orders.map fun groups => path ++ q.groupIds A ++ groups.flatMap q.groupIds := by
  simp [levelPaths, List.flatMap_append, Function.comp_def]

/-- A new group that can come first. -/
theorem LevelInv.push {visited' : Finset ℕ} {orders : List (List (Finset ℕ))}
    (h : q.LevelInv g path deleted total k tried s) (hready : q.Openable g graph deleted)
    (hk : k < q.stmtNum) (hnew : k ∉ s.visitedInstrument) (hg : SameLabels g g')
    (hfree : Free (q.DataEdge g) (q.openGroups g deleted) (q.stmtSet g k))
    (hsub : s.visitedInstrument ⊆ visited')
    (hvisited : ∀ i ∈ visited', i ∈ s.visitedInstrument ∨ i ∈ q.stmtSet g k)
    (hall : q.stmtSet g k ⊆ visited')
    (horders : Enumerates (q.DataEdge g) ((q.openGroups g deleted).erase (q.stmtSet g k)) orders) :
    q.LevelInv g path deleted total (k + 1) (tried ++ [(q.stmtSet g k, orders)])
      ⟨g', visited', path, deleted, s.totalPath ++ orders.map fun groups =>
        path ++ q.groupIds (q.stmtSet g k) ++ groups.flatMap q.groupIds, true⟩ where
  same := hg
  currentPath := rfl
  deletedNodes := rfl
  totalPath := by rw [levelPaths_append, h.totalPath, List.append_assoc]
  flag := by simp
  visited := by
    intro i hi
    rcases hvisited i hi with hi | hi
    · obtain ⟨j, hj, hij⟩ := h.visited i hi
      exact ⟨j, by omega, hij⟩
    · exact ⟨k, by omega, hi⟩
  seen := by
    intro A hA
    rw [List.map_append, List.mem_append] at hA
    rcases hA with hA | hA
    · exact (h.seen A hA).trans hsub
    · obtain rfl := List.mem_singleton.1 hA
      exact hall
  nodup := by
    rw [List.map_append, List.nodup_append]
    refine ⟨h.nodup, List.nodup_singleton _, fun A hA B hB => ?_⟩
    obtain rfl := List.mem_singleton.1 hB
    rintro rfl
    exact hnew (h.seen _ hA (self_mem_stmtSet hk))
  mem := by
    intro A
    rw [List.map_append, List.mem_append, h.mem, List.map_singleton, List.mem_singleton]
    constructor
    · rintro (⟨hA, i, hi, hiA⟩ | rfl)
      · exact ⟨hA, i, by omega, hiA⟩
      · exact ⟨hfree, k, by omega, self_mem_stmtSet hk⟩
    · rintro ⟨hA, i, hi, hiA⟩
      rcases Nat.lt_succ_iff_lt_or_eq.1 hi with hi | rfl
      · exact Or.inl ⟨hA, i, hi, hiA⟩
      · exact Or.inr (hready.of_mem hA.1 hiA).2.2
  orders := by
    intro e he
    rcases List.mem_append.1 he with he | he
    · exact h.orders e he
    · obtain rfl := List.mem_singleton.1 he
      exact horders

/-- The group is taken back from the path and from the deleted nodes. -/
theorem delete_restore (hready : q.Openable g graph deleted) (hk : k < q.stmtNum)
    (hdel : q.sid k ∉ deleted) :
    (deleted ∪ (q.groupIds (q.stmtSet g k)).toFinset) \ (q.groupIds (q.stmtSet g k)).toFinset =
      deleted := by
  refine Finset.union_sdiff_cancel_right (Finset.disjoint_right.2 fun x hx => ?_)
  obtain ⟨i, hi, hik, rfl⟩ := mem_groupIds.1 (List.mem_toFinset.1 hx)
  exact hready.whole k hk hdel i hik

/-- The result of the call one level down. -/
def RecurSpec (q : AnalyzedQueue) (g : StmtGraph)
    (recur : List StmtId → Finset StmtId → StmtGraph → List (List StmtId) →
      Except Failure (StmtGraph × List (List StmtId))) (deleted : Finset StmtId) : Prop :=
  ∀ path g' total, SameLabels g g' → ∃ g'' orders, recur path deleted g' total =
      .ok (g'', total ++ orders.map fun groups => path ++ groups.flatMap q.groupIds) ∧
    SameLabels g g'' ∧ Enumerates (q.DataEdge g) (q.openGroups g deleted) orders

theorem LevelInv.round {recur : List StmtId → Finset StmtId → StmtGraph → List (List StmtId) →
      Except Failure (StmtGraph × List (List StmtId))}
    (hready : q.Openable g graph deleted)
    (hrecur : ∀ i < q.stmtNum, q.sid i ∉ deleted →
      q.RecurSpec g recur (deleted ∪ (q.groupIds (q.stmtSet g i)).toFinset))
    (hk : k < q.stmtNum) (h : q.LevelInv g path deleted total k tried s) :
    ∃ s' tried', q.levelRound graph recur k s = .ok s' ∧
      q.LevelInv g path deleted total (k + 1) tried' s' := by
  have hown : ∀ A, Free (q.DataEdge g) (q.openGroups g deleted) A → k ∈ A →
      A = q.stmtSet g k := fun A hfree hkA => (hready.of_mem hfree.1 hkA).2.2
  rw [levelRound]
  split_ifs with hvisited hdel
  · -- the group of `k` was met at an earlier index
    obtain ⟨j, hj, hkj⟩ := h.visited k hvisited
    refine ⟨s, tried, rfl, h.skip h.same rfl rfl rfl rfl (Finset.Subset.refl _)
      (fun i hi => Or.inl hi) fun A hfree hkA => ⟨j, hj, ?_⟩⟩
    rw [hown A hfree hkA, stmtSet_eq (hj.trans hk) hkj]
    exact self_mem_stmtSet (hj.trans hk)
  · rw [h.deletedNodes] at hdel
    refine ⟨s, tried, rfl, h.skip h.same rfl rfl rfl rfl (Finset.Subset.refl _)
      (fun i hi => Or.inl hi) fun A hfree hkA => ?_⟩
    exact absurd hdel (hready.of_mem hfree.1 hkA).2.1
  · rw [h.deletedNodes] at hdel
    obtain ⟨g1, hget, hg1⟩ := getInstrumentedStmtSet_eq h.same hk
    have hfree := hready.hasIndegree_iff hk hdel s.visitedInstrument
    have hsub : s.visitedInstrument ⊆ (q.hasIndegree (graph.without deleted) (q.stmtSet g k)
        (q.indices (q.stmtSet g k)) s.visitedInstrument).2 := subset_hasIndegree _ _
    have hsnd : ∀ i ∈ (q.hasIndegree (graph.without deleted) (q.stmtSet g k)
        (q.indices (q.stmtSet g k)) s.visitedInstrument).2,
        i ∈ s.visitedInstrument ∨ i ∈ q.indices (q.stmtSet g k) := hasIndegree_snd _ _
    have hvisits : (q.hasIndegree (graph.without deleted) (q.stmtSet g k)
        (q.indices (q.stmtSet g k)) s.visitedInstrument).1 = false →
        ∀ c ∈ q.indices (q.stmtSet g k), c ∈ (q.hasIndegree (graph.without deleted)
          (q.stmtSet g k) (q.indices (q.stmtSet g k)) s.visitedInstrument).2 := hasIndegree_visits
    simp only [hget, bind, Except.bind, h.deletedNodes]
    generalize q.hasIndegree (graph.without deleted) (q.stmtSet g k)
      (q.indices (q.stmtSet g k)) s.visitedInstrument = r at hfree hsub hsnd hvisits ⊢
    have hvisited' : ∀ i ∈ r.2, i ∈ s.visitedInstrument ∨ i ∈ q.stmtSet g k := fun i hi =>
      (hsnd i hi).imp_right fun hi => (mem_indices.1 hi).2
    obtain ⟨b, visited'⟩ := r
    cases b with
    | true =>
      have hnot : ¬Free (q.DataEdge g) (q.openGroups g deleted) (q.stmtSet g k) := fun hf =>
        Bool.false_ne_true (hfree.2 hf).symm
      refine ⟨_, tried, rfl, h.skip hg1 rfl h.deletedNodes.symm rfl rfl hsub hvisited'
        fun A hA hkA => absurd (hown A hA hkA ▸ hA) hnot⟩
    | false =>
      obtain ⟨g2, orders, hcall, hg2, horders⟩ :=
        hrecur k hk hdel (s.currentPath ++ q.groupIds (q.stmtSet g k)) g1 s.totalPath hg1
      rw [openGroups_delete hk] at horders
      have hgroup := hfree.1 rfl
      simp only [Bool.false_eq_true, reduceIte, hcall, List.length_append, Nat.add_sub_cancel,
        List.take_left, delete_restore hready hk hdel]
      refine ⟨_, tried ++ [(q.stmtSet g k, orders)], rfl, ?_⟩
      rw [h.currentPath]
      exact h.push hready hk hvisited hg2 hgroup hsub hvisited'
        (fun i hi => hvisits rfl i (mem_indices.2 ⟨lt_of_mem_stmtSet hk hi, hi⟩)) horders

/-- A call lists the orders of the open groups. -/
theorem recurTopoSort_spec (fuel : ℕ) : ∀ {deleted : Finset StmtId},
    q.Openable g graph deleted → (q.openGroups g deleted).card < fuel →
    q.RecurSpec g (q.recurTopoSort graph fuel) deleted := by
  induction fuel with
  | zero =>
    intro deleted hready hfuel
    omega
  | succ fuel ih =>
    intro deleted hready hfuel path g' total hg
    have hrecur : ∀ i < q.stmtNum, q.sid i ∉ deleted →
        q.RecurSpec g (q.recurTopoSort graph fuel)
          (deleted ∪ (q.groupIds (q.stmtSet g i)).toFinset) := by
      intro i hi hd
      refine ih (hready.delete hi) ?_
      have hopen : q.stmtSet g i ∈ q.openGroups g deleted := mem_openGroups.2 ⟨i, hi, hd, rfl⟩
      rw [openGroups_delete hi, Finset.card_erase_of_mem hopen]
      have := Finset.card_pos.2 ⟨_, hopen⟩
      omega
    obtain ⟨s, hloop, tried, hinv⟩ := forRange_ok
      (fun k s => ∃ tried, q.LevelInv g path deleted total k tried s)
      (f := q.levelRound graph (q.recurTopoSort graph fuel)) ⟨[], LevelInv.init hg⟩
      fun k hk s ⟨tried, hinv⟩ => by
        obtain ⟨s', tried', hround, hinv'⟩ := hinv.round hready hrecur hk
        exact ⟨s', hround, tried', hinv'⟩
    simp only [recurTopoSort, hloop, bind, Except.bind, pure, Except.pure]
    have hmem : ∀ A, A ∈ tried.map Prod.fst ↔ Free (q.DataEdge g) (q.openGroups g deleted) A := by
      intro A
      rw [hinv.mem]
      refine and_iff_left_of_imp fun hA => ?_
      obtain ⟨i, hi, -, rfl⟩ := mem_openGroups.1 hA.1
      exact ⟨i, hi, self_mem_stmtSet hi⟩
    by_cases hne : (q.openGroups g deleted).Nonempty
    · obtain ⟨A, hA⟩ := hready.free _ (Finset.Subset.refl _) hne
      have hflag : s.flag = true := by
        rw [hinv.flag]
        cases tried with
        | nil => cases (hmem A).2 hA
        | cons e tried => rfl
      refine ⟨s.graph, tried.flatMap fun e => e.2.map (e.1 :: ·), ?_, hinv.same,
        Enumerates.flatMap hne hinv.nodup hmem hinv.orders⟩
      rw [hflag, if_pos rfl, hinv.totalPath]
      rfl
    · rw [Finset.not_nonempty_iff_eq_empty] at hne
      have htried : tried = [] := by
        cases tried with
        | nil => rfl
        | cons e tried =>
          have he := ((hmem e.1).1 List.mem_cons_self).1
          rw [hne] at he
          cases he
      subst htried
      rw [hne]
      refine ⟨s.graph, [[]], ?_, hinv.same, Enumerates.empty _⟩
      have hflag : s.flag = false := hinv.flag
      rw [hflag, hinv.totalPath, hinv.currentPath]
      simp [levelPaths]

/-! The nodes of the enumeration. -/

def initNodes (q : AnalyzedQueue) : Finset StmtId := (q.initIndices.map q.sid).toFinset

theorem mem_initNodes (hi : i < q.stmtNum) :
    q.sid i ∈ q.initNodes ↔ (q.usage i).stmtType = .initType := by
  simp only [initNodes, initIndices, List.mem_toFinset, List.mem_map, List.mem_filter,
    List.mem_range, decide_eq_true_eq]
  constructor
  · rintro ⟨j, ⟨hj, hinit⟩, hij⟩
    rwa [← sid_inj hj hi hij]
  · intro hinit
    exact ⟨i, ⟨hi, hinit⟩, rfl⟩

theorem foldl_deleteNode (l : List ℕ) (hl : ∀ c ∈ l, c < q.stmtNum)
    (s : Finset StmtId × StmtGraph) :
    (l.foldl q.deleteNode s).1 = s.1 ∪ (l.map q.sid).toFinset ∧
      q.Erased l s.2 (l.foldl q.deleteNode s).2 := by
  induction l generalizing s with
  | nil => exact ⟨by simp, Erased.refl q _⟩
  | cons c l ih =>
    obtain ⟨hnodes, herased⟩ := ih (fun d hd => hl d (List.mem_cons_of_mem c hd)) (q.deleteNode s c)
    refine ⟨?_, herased.cons (hl c List.mem_cons_self)⟩
    rw [List.foldl_cons, hnodes]
    ext x
    simp [deleteNode, or_left_comm]

theorem foldl_deleteStmt_eq (l : List ℕ) (st : SortState) : l.foldl q.deleteStmt st =
    { st with
      deleted := st.deleted ∪ (l.map q.sid).toFinset
      tmp := l.foldl (fun tmp i => q.eraseBranches (q.sid i) tmp) st.tmp } := by
  induction l generalizing st with
  | nil => simp
  | cons c l ih =>
    rw [List.foldl_cons, ih]
    simp only [deleteStmt, List.map_cons, List.toFinset_cons, List.foldl_cons, SortState.mk.injEq,
      true_and, and_true]
    rw [Finset.insert_union, Finset.union_insert]

/-- The sort deletes the aborted statements itself. -/
theorem topologicalSortPath_aborted (q : AnalyzedQueue) (g : StmtGraph) (given : Finset StmtId) :
    q.topologicalSortPath g (given ∪ (q.abortedIndices.map q.sid).toFinset) =
      q.topologicalSortPath g given := by
  have hinit : q.sortInit g (given ∪ (q.abortedIndices.map q.sid).toFinset) =
      q.sortInit g given := by
    unfold sortInit
    rw [foldl_deleteStmt_eq, foldl_deleteStmt_eq]
    simp only [Finset.union_assoc, Finset.union_self]
  unfold topologicalSortPath
  rw [hinit]

theorem foldl_offPath (path : List StmtId) (l : List ℕ) (nodes : Finset StmtId) (x : StmtId) :
    x ∈ l.foldl (fun nodes i => if q.sid i ∈ path then nodes else insert (q.sid i) nodes) nodes ↔
      x ∈ nodes ∨ x ∉ path ∧ ∃ i ∈ l, x = q.sid i := by
  induction l generalizing nodes with
  | nil => simp
  | cons i l ih =>
    rw [List.foldl_cons, ih]
    simp only [List.mem_cons, exists_eq_or_imp]
    by_cases hi : q.sid i ∈ path
    · rw [if_pos hi]
      constructor
      · rintro (h | ⟨hx, h⟩)
        · exact Or.inl h
        · exact Or.inr ⟨hx, Or.inr h⟩
      · rintro (h | ⟨hx, rfl | h⟩)
        · exact Or.inl h
        · exact absurd hi hx
        · exact Or.inr ⟨hx, h⟩
    · rw [if_neg hi, Finset.mem_insert]
      constructor
      · rintro ((rfl | h) | ⟨hx, h⟩)
        · exact Or.inr ⟨hi, Or.inl rfl⟩
        · exact Or.inl h
        · exact Or.inr ⟨hx, Or.inr h⟩
      · rintro (h | ⟨hx, rfl | h⟩)
        · exact Or.inl (Or.inr h)
        · exact Or.inl (Or.inl rfl)
        · exact Or.inr ⟨hx, h⟩

theorem groupIds_stmtSet_ne_nil (hi : i < q.stmtNum) : q.groupIds (q.stmtSet g i) ≠ [] :=
  List.ne_nil_of_mem ((sid_mem_groupIds hi).2 (self_mem_stmtSet hi))

/-- The groups can be read off a path. -/
theorem flatMap_groupIds_inj {groups : List (Finset ℕ)} : ∀ {groups' : List (Finset ℕ)},
    (∀ A ∈ groups, ∃ i < q.stmtNum, A = q.stmtSet g i) →
    (∀ A ∈ groups', ∃ i < q.stmtNum, A = q.stmtSet g i) →
    groups.flatMap q.groupIds = groups'.flatMap q.groupIds → groups = groups' := by
  induction groups with
  | nil =>
    intro groups' _ hgroups' heq
    cases groups' with
    | nil => rfl
    | cons B groups' =>
      obtain ⟨j, hj, rfl⟩ := hgroups' B List.mem_cons_self
      rw [List.flatMap_nil, List.flatMap_cons, eq_comm, List.append_eq_nil_iff] at heq
      exact absurd heq.1 (groupIds_stmtSet_ne_nil hj)
  | cons A groups ih =>
    intro groups' hgroups hgroups' heq
    obtain ⟨i, hi, rfl⟩ := hgroups A List.mem_cons_self
    cases groups' with
    | nil =>
      rw [List.flatMap_nil, List.flatMap_cons, List.append_eq_nil_iff] at heq
      exact absurd heq.1 (groupIds_stmtSet_ne_nil hi)
    | cons B groups' =>
      obtain ⟨j, hj, rfl⟩ := hgroups' B List.mem_cons_self
      -- both groups hold the first statement
      have hsame : q.stmtSet g i = q.stmtSet g j := by
        obtain ⟨s, rest, hs⟩ := List.exists_cons_of_ne_nil (groupIds_stmtSet_ne_nil (g := g) hi)
        obtain ⟨s', rest', hs'⟩ := List.exists_cons_of_ne_nil (groupIds_stmtSet_ne_nil (g := g) hj)
        rw [List.flatMap_cons, List.flatMap_cons, hs, hs', List.cons_append, List.cons_append,
          List.cons.injEq] at heq
        obtain ⟨k, hk, hki, rfl⟩ := mem_groupIds.1 (hs ▸ List.mem_cons_self)
        have hkj : q.sid k ∈ q.groupIds (q.stmtSet g j) := by
          rw [hs', heq.1]
          exact List.mem_cons_self
        rw [← stmtSet_eq hi hki, stmtSet_eq hj ((sid_mem_groupIds hk).1 hkj)]
      rw [hsame, List.flatMap_cons, List.flatMap_cons, List.append_cancel_left_eq] at heq
      rw [hsame, ih (fun A hA => hgroups A (List.mem_cons_of_mem _ hA))
        (fun A hA => hgroups' A (List.mem_cons_of_mem _ hA)) heq]

/-- The groups of a sorted path have an order, so every part of them has a first one. -/
theorem SortInv.exists_free {given : Finset StmtId} {st : SortState} (h : q.SortInv g given st)
    (hopen : ∀ i < q.stmtNum, q.sid i ∉ deleted → q.sid i ∈ st.path) (T : Finset (Finset ℕ))
    (hT : T ⊆ q.openGroups g deleted) (hne : T.Nonempty) : ∃ A, Free (q.DataEdge g) T A := by
  obtain ⟨groups, hch⟩ := h.chained
  have hdistinct : groups.Nodup := by
    refine hch.disjoint.imp_of_mem fun {A B} hA _ hAB hne => ?_
    obtain ⟨i, hi, rfl⟩ := hch.group A hA
    rw [← hne, disjoint_self] at hAB
    exact Finset.ne_empty_of_mem (self_mem_stmtSet hi) hAB
  have hext : Extension (q.DataEdge g) (q.openGroups g deleted)
      (groups.filter (· ∈ q.openGroups g deleted)) := by
    refine ⟨hdistinct.filter _, fun A => ?_, (hch.forward.imp fun {A B} hAB => ?_).filter _⟩
    · rw [List.mem_filter, decide_eq_true_eq]
      refine and_iff_right_of_imp fun hA => ?_
      obtain ⟨i, hi, hd, rfl⟩ := mem_openGroups.1 hA
      exact hch.mem_groups hi (hopen i hi hd)
    · rintro ⟨j, hj, i, hi, hdata⟩
      exact hAB ⟨j, hj, i, hi, Ordered.of_isData hdata⟩
  exact hext.exists_free hT hne

/-- An order of the groups of `nodes` without a data dependency backwards. -/
structure GroupOrder (q : AnalyzedQueue) (g : StmtGraph) (nodes : List StmtId)
    (groups : List (Finset ℕ)) : Prop where
  nodup : groups.Nodup
  mem : ∀ A, A ∈ groups ↔ ∃ i < q.stmtNum, q.sid i ∈ nodes ∧ A = q.stmtSet g i
  ordered : groups.Pairwise fun A B => ∀ i ∈ A, ∀ j ∈ B,
    ∀ dt ∈ g.labels (q.sid j) (q.sid i), dt.isData = false

theorem groupOrder_iff {nodes : List StmtId} {groups : List (Finset ℕ)}
    (hnodes : ∀ i < q.stmtNum, q.sid i ∈ nodes ↔ q.sid i ∉ deleted) :
    q.GroupOrder g nodes groups ↔ Extension (q.DataEdge g) (q.openGroups g deleted) groups := by
  have hmem : ∀ A, A ∈ q.openGroups g deleted ↔
      ∃ i < q.stmtNum, q.sid i ∈ nodes ∧ A = q.stmtSet g i := by
    intro A
    rw [mem_openGroups]
    exact exists_congr fun i => and_congr_right fun hi => by rw [hnodes i hi]
  have hedge : ∀ A B, (¬q.DataEdge g B A) ↔ ∀ i ∈ A, ∀ j ∈ B,
      ∀ dt ∈ g.labels (q.sid j) (q.sid i), dt.isData = false := by
    intro A B
    constructor
    · intro h i hi j hj dt hdt
      exact Bool.eq_false_iff.2 fun hdata => h ⟨j, hj, i, hi, dt, hdt, hdata⟩
    · rintro h ⟨j, hj, i, hi, dt, hdt, hdata⟩
      rw [h i hi j hj dt hdt] at hdata
      cases hdata
  constructor
  · rintro ⟨hnodup, hgroups, hordered⟩
    exact ⟨hnodup, fun A => (hgroups A).trans (hmem A).symm, hordered.imp fun h => (hedge _ _).2 h⟩
  · rintro ⟨hnodup, hgroups, hordered⟩
    exact ⟨hnodup, fun A => (hgroups A).trans (hmem A), hordered.imp fun h => (hedge _ _).1 h⟩

end AnalyzedQueue

open AnalyzedQueue

namespace DependencyAnalyzer

variable {a : DependencyAnalyzer} {g : StmtGraph}

theorem initNodes_closed (he : a.Explained) (hg : a.Derived g) :
    ∀ i < a.queue.stmtNum, a.queue.sid i ∈ a.queue.initNodes → ∀ j ∈ a.queue.stmtSet g i,
      a.queue.sid j ∈ a.queue.initNodes := by
  intro i hi hinit j hj
  rw [hg.eq_of_init he ((mem_stmtSet hi).1 hj) ((mem_initNodes hi).1 hinit)]
  exact hinit

/-- The nodes that the enumeration deletes are those off the path. -/
theorem sid_notMem_offPath {path : List StmtId} {i : ℕ}
    (hsorted : a.queue.SortedPath g a.queue.initNodes path) (hi : i < a.queue.stmtNum) :
    (a.queue.sid i ∉ (List.range a.queue.stmtNum).foldl
      (fun nodes i => if a.queue.sid i ∈ path then nodes else insert (a.queue.sid i) nodes)
      (a.queue.initNodes ∪ (a.queue.abortedIndices.map a.queue.sid).toFinset)) ↔
      a.queue.sid i ∈ path := by
  rw [foldl_offPath, not_or, not_and, not_exists]
  constructor
  · rintro ⟨-, hoff⟩
    by_contra hnot
    exact hoff hnot i ⟨List.mem_range.2 hi, rfl⟩
  · intro hon
    obtain ⟨j, hj, hij, hcommit, hnot, -⟩ := hsorted.kept _ hon
    refine ⟨fun hmem => ?_, fun hnot => absurd hon hnot⟩
    rcases Finset.mem_union.1 hmem with hmem | hmem
    · exact hnot hmem
    · obtain ⟨k, hk, hki⟩ := List.mem_map.1 (List.mem_toFinset.1 hmem)
      obtain ⟨hkn, hstatus⟩ := mem_abortedIndices.1 hk
      rw [sid_inj hkn hj (hki.trans hij)] at hstatus
      exact hstatus hcommit

/-- What is on the path is open: whole groups, with the data dependencies as branches. -/
theorem Derived.openable {tmp : StmtGraph} {path : List StmtId} {deleted : Finset StmtId}
    {st : SortState} (he : a.Explained) (hg : a.Derived g)
    (hinv : a.queue.SortInv g a.queue.initNodes st)
    (hsorted : a.queue.SortedPath g a.queue.initNodes path) (hsub : ∀ s ∈ path, s ∈ st.path)
    (herased : a.queue.Erased (a.queue.abortedIndices ++ a.queue.initIndices) g tmp)
    (hpath : ∀ i < a.queue.stmtNum, a.queue.sid i ∉ deleted ↔ a.queue.sid i ∈ path) :
    a.queue.Openable g (a.queue.purgeBranches tmp) deleted where
  whole := by
    intro i hi hd j hj
    have hjn := lt_of_mem_stmtSet hi hj
    have hgroup := hsorted.whole i hi ((hpath i hi).1 hd)
    exact (hpath j hjn).2 (hgroup.subset ((sid_mem_groupIds hjn).2 hj))
  branch := by
    intro i j hi hj hdi hdj hne
    have hkept : ∀ k < a.queue.stmtNum, a.queue.sid k ∉ deleted →
        k ∉ a.queue.abortedIndices ++ a.queue.initIndices := by
      intro k hk hd hmem
      obtain ⟨m, hm, hkm, hcommit, hnot, -⟩ := hsorted.kept _ ((hpath k hk).1 hd)
      obtain rfl := sid_inj hk hm hkm
      rcases List.mem_append.1 hmem with hmem | hmem
      · exact (mem_abortedIndices.1 hmem).2 hcommit
      · exact hnot (List.mem_toFinset.2 (List.mem_map_of_mem hmem))
    rw [branch_purgeBranches hi hj, herased.ordered_iff hi hj,
      and_iff_left ⟨hkept i hi hdi, hkept j hj hdj⟩]
    exact ⟨fun hord => hg.isData_of_ordered he hi hj hord hne, Ordered.of_isData⟩
  free := hinv.exists_free fun i hi hd => hsub _ ((hpath i hi).1 hd)

end DependencyAnalyzer

namespace AnalyzedQueue

variable {q : AnalyzedQueue} {g graph : StmtGraph} {deleted : Finset StmtId}

/-- The first call lists the orders of the open groups. -/
theorem Openable.recurTopoSort {nodes : List StmtId} {g' : StmtGraph}
    (h : q.Openable g graph deleted) (hg : SameLabels g g')
    (hnodes : ∀ i < q.stmtNum, q.sid i ∈ nodes ↔ q.sid i ∉ deleted) :
    ∃ g'' paths, q.recurTopoSort graph (q.stmtNum + 1) [] deleted g' [] = .ok (g'', paths) ∧
      paths.Nodup ∧ ∀ p, p ∈ paths ↔
        ∃ groups, q.GroupOrder g nodes groups ∧ p = groups.flatMap q.groupIds := by
  have hcard : (q.openGroups g deleted).card < q.stmtNum + 1 := by
    refine Nat.lt_succ_of_le (Finset.card_image_le.trans ?_)
    simpa using Finset.card_filter_le (Finset.range q.stmtNum) fun i => q.sid i ∉ deleted
  obtain ⟨g'', orders, hrecur, -, henum⟩ :=
    recurTopoSort_spec (q.stmtNum + 1) h hcard [] g' [] hg
  have hgroup : ∀ groups ∈ orders, ∀ A ∈ groups, ∃ i < q.stmtNum, A = q.stmtSet g i := by
    intro groups hgroups A hA
    obtain ⟨i, hi, -, rfl⟩ := mem_openGroups.1 ((((henum.mem groups).1 hgroups).mem A).1 hA)
    exact ⟨i, hi, rfl⟩
  refine ⟨g'', orders.map fun groups => groups.flatMap q.groupIds, ?_, ?_, fun p => ?_⟩
  · rw [hrecur]
    simp
  · exact List.Nodup.map_on (fun groups hgroups groups' hgroups' heq =>
      flatMap_groupIds_inj (hgroup groups hgroups) (hgroup groups' hgroups') heq) henum.nodup
  · rw [List.mem_map]
    refine exists_congr fun groups => and_congr ?_ eq_comm
    rw [henum.mem, groupOrder_iff hnodes]

end AnalyzedQueue

/-- `get_all_topo_sort_path` returns each order of the groups on the path of the sort that
respects the data dependencies, once. -/
theorem getAllTopoSortPath_enumerates {inp : AnalyzerInput} {a : DependencyAnalyzer}
    (haccept : dependencyAnalyzer inp = .ok a)
    (hcontrol : ∀ i < a.queue.stmtNum, a.queue.IsFirst i ∨ a.queue.IsLast i →
      (a.queue.usage i).stmtType = .initType) :
    ∃ g paths st, a.queue.getAllTopoSortPath a.graphs.stmt = .ok (g, paths) ∧
      a.queue.topologicalSortPath a.graphs.stmt a.queue.initNodes = .ok st ∧ paths.Nodup ∧
      ∀ p, p ∈ paths ↔ ∃ groups, a.queue.GroupOrder a.graphs.stmt st.path groups ∧
        p = groups.flatMap a.queue.groupIds := by
  have he := dependencyAnalyzer_explained haccept
  have hg := DependencyAnalyzer.Derived.refl a
  have hids : ∀ s ∈ a.queue.initNodes, ∃ i < a.queue.stmtNum, s = a.queue.sid i := by
    intro s hs
    simp only [initNodes, initIndices, List.mem_toFinset, List.mem_map, List.mem_filter,
      List.mem_range] at hs
    obtain ⟨i, ⟨hi, -⟩, rfl⟩ := hs
    exact ⟨i, hi, rfl⟩
  obtain ⟨st, hloop, hinv, -⟩ := sortLoop_inv (sortInit_inv hids
    (DependencyAnalyzer.initNodes_closed he hg) fun i hi j hj => hg.tid_stmtSet he hi hj)
  have hpath := topologicalSortPath_eq
    (fun s hs => hinv.ids s (Or.inl ((hinv.mem_path s).1 hs))) hloop
  have hsorted := hinv.sortedPath fun i hi hs j hj => hg.shown_stmtSet he hcontrol hi hs hj
  -- the deleted nodes and the copy of the graph
  have hlt : ∀ c ∈ a.queue.abortedIndices ++ a.queue.initIndices, c < a.queue.stmtNum := by
    intro c hc
    rcases List.mem_append.1 hc with hc | hc
    · exact (mem_abortedIndices.1 hc).1
    · exact List.mem_range.1 (List.mem_of_mem_filter hc)
  obtain ⟨hnodes, herased⟩ := foldl_deleteNode _ hlt (∅, a.graphs.stmt)
  rw [Finset.empty_union, List.map_append, List.toFinset_append, Finset.union_comm] at hnodes
  rw [getAllTopoSortPath]
  generalize (a.queue.abortedIndices ++ a.queue.initIndices).foldl a.queue.deleteNode
    (∅, a.graphs.stmt) = r at herased hnodes ⊢
  obtain ⟨given, tmp⟩ := r
  obtain rfl : given = a.queue.initNodes ∪ (a.queue.abortedIndices.map a.queue.sid).toFinset :=
    hnodes
  simp only [topologicalSortPath_aborted, hpath, bind, Except.bind]
  have hoff := fun i hi => DependencyAnalyzer.sid_notMem_offPath (i := i) hsorted hi
  have hopen := hg.openable he hinv hsorted (fun s hs => List.mem_of_mem_filter hs) herased hoff
  obtain ⟨g, paths, hrecur, hspec⟩ := hopen.recurTopoSort hinv.same fun i hi => (hoff i hi).symm
  exact ⟨g, paths, _, hrecur, rfl, hspec⟩

theorem getAllTopoSortPath_enumerates_insert : ∃ a g paths st,
    dependencyAnalyzer insertThenSelect = .ok a ∧
    a.queue.getAllTopoSortPath a.graphs.stmt = .ok (g, paths) ∧
    a.queue.topologicalSortPath a.graphs.stmt a.queue.initNodes = .ok st ∧ paths.Nodup ∧
    ∀ p, p ∈ paths ↔ ∃ groups, a.queue.GroupOrder a.graphs.stmt st.path groups ∧
      p = groups.flatMap a.queue.groupIds := by
  have heval : ((dependencyAnalyzer insertThenSelect).toOption.any fun a =>
      decide (∀ i < a.queue.stmtNum, a.queue.IsFirst i ∨ a.queue.IsLast i →
        (a.queue.usage i).stmtType = .initType)) = true := by
    decide +kernel
  cases haccept : dependencyAnalyzer insertThenSelect with
  | error e =>
    rw [haccept] at heval
    cases heval
  | ok a =>
    rw [haccept] at heval
    simp only [Except.toOption, Option.any_some, decide_eq_true_eq] at heval
    exact ⟨a, getAllTopoSortPath_enumerates haccept heval |>.imp fun g h => h |>.imp
      fun paths h => h |>.imp fun st h => ⟨rfl, h⟩⟩

end DbFuzz
