import DbFuzz.Core.FileRandom
import DbFuzz.Lib.LongestWalk
import DbFuzz.TxCheck.ReadAnomalies
import DbFuzz.TxCheck.TopoSort

/-! `longest_stmt_path`: a longest-path table over the statements in topological order. Where
every statement left has a predecessor, a random one is deleted with its instrument group. -/

namespace DbFuzz

open Loop LongestWalk

/-- `map<pair<stmt_id, stmt_id>, int>` -/
abbrev StmtDistGraph := StmtId → StmtId → Option ℤ

/-- The locals of the loop, with `stmt_dependency_graph` and the number of calls of `rand`. -/
structure LongestState where
  graph : StmtGraph
  tmpStmtGraph : StmtDistGraph
  dadStmt : StmtId → StmtId
  distLength : StmtId → ℤ
  realDeletedNode : Finset StmtId
  deleteNode : Finset StmtId
  randNum : ℕ

namespace LongestState

/-- The statement is in neither of the two node sets. -/
def isLeft (st : LongestState) (s : StmtId) : Bool :=
  decide (s ∉ st.deleteNode) && decide (s ∉ st.realDeletedNode)

/-- `delete_node.size() + real_deleted_node.size()` -/
def handled (st : LongestState) : ℕ := st.deleteNode.card + st.realDeletedNode.card

end LongestState

namespace AnalyzedQueue

/-- `all_stmt_set`, in the order of `stmt_id`. -/
def allStmtSet (q : AnalyzedQueue) : List StmtId :=
  ((List.range q.tidNum).flatMap fun t =>
    (List.range q.stmtNum).filter fun i => q.tid i = t).map q.sid

/-- The out branches of a statement, and its in branches. -/
def eraseOut (q : AnalyzedQueue) (s : StmtId) (g : StmtDistGraph) : StmtDistGraph :=
  fun x y => if x = s ∧ y ∈ q.allStmtSet then none else g x y

def eraseIn (q : AnalyzedQueue) (s : StmtId) (g : StmtDistGraph) : StmtDistGraph :=
  fun x y => if y = s ∧ x ∈ q.allStmtSet then none else g x y

def longestInit (g : StmtGraph) (stmtDistGraph : StmtDistGraph) :
    LongestState where
  graph := g
  tmpStmtGraph := stmtDistGraph
  dadStmt := fun _ => .init
  distLength := fun _ => 0
  realDeletedNode := ∅
  deleteNode := ∅
  randNum := 0

/-- The first statement left that no branch enters. -/
def zeroIndegreeIdx (q : AnalyzedQueue) (st : LongestState) : Option ℕ :=
  (List.range q.stmtNum).find? fun i => st.isLeft (q.sid i) &&
    !(List.range q.stmtNum).any fun j => (st.tmpStmtGraph (q.sid j) (q.sid i)).isSome

/-- The instrument group of a random statement left. -/
def selectIdxSet (q : AnalyzedQueue) (randoms : ℕ → ℕ) (st : LongestState) :
    Except Failure (StmtGraph × Finset ℕ) :=
  let tmpStmtSet := q.allStmtSet.filter st.isLeft
  match tmpStmtSet[randoms st.randNum % tmpStmtSet.length]? with
  | none => .error .badIndex
  | some selectStmtId =>
    match selectStmtId.transfer2StmtIdx q.fTxnIdQueue with
    | none => .error .badIndex
    | some selectQueueIdx => q.getInstrumentedStmtSet st.graph selectQueueIdx

def deleteReally (q : AnalyzedQueue) (st : LongestState) (chosenIdx : ℕ) : LongestState :=
  { st with
    realDeletedNode := insert (q.sid chosenIdx) st.realDeletedNode
    tmpStmtGraph := q.eraseIn (q.sid chosenIdx) (q.eraseOut (q.sid chosenIdx) st.tmpStmtGraph) }

/-- The branch of the main loop for a cycle. -/
def decycleRound (q : AnalyzedQueue) (randoms : ℕ → ℕ) (st : LongestState) :
    Except Failure LongestState := do
  let (g, idxSet) ← q.selectIdxSet randoms st
  return (q.indices idxSet).foldl q.deleteReally { st with graph := g, randNum := st.randNum + 1 }

/-- One predecessor of the search for the longest way to a statement; lengths are `int`s. -/
def dadRound (q : AnalyzedQueue) (stmtDistGraph : StmtDistGraph) (st : LongestState) (s : StmtId)
    (cur : ℤ × StmtId) (i : ℕ) : ℤ × StmtId :=
  if q.sid i ∈ st.realDeletedNode then cur
  else
    match stmtDistGraph (q.sid i) s with
    | none => cur
    | some dist =>
      let length := wrapInt (st.distLength (q.sid i) + dist)
      if cur.1 < length then (length, q.sid i) else cur

/-- `cur_max_length` and `cur_max_dad` -/
def curMax (q : AnalyzedQueue) (stmtDistGraph : StmtDistGraph) (st : LongestState) (s : StmtId) :
    ℤ × StmtId :=
  (List.range q.stmtNum).foldl (q.dadRound stmtDistGraph st s) (0, .init)

/-- The branch of the main loop for a statement that no branch enters. -/
def processStmt (q : AnalyzedQueue) (stmtDistGraph : StmtDistGraph) (st : LongestState)
    (s : StmtId) : LongestState :=
  let cur := q.curMax stmtDistGraph st s
  { st with
    distLength := fun x => if x = s then cur.1 else st.distLength x
    dadStmt := fun x => if x = s then cur.2 else st.dadStmt x
    deleteNode := insert s st.deleteNode
    tmpStmtGraph := q.eraseOut s st.tmpStmtGraph }

def longestRound (q : AnalyzedQueue) (stmtDistGraph : StmtDistGraph) (randoms : ℕ → ℕ)
    (st : LongestState) : Except Failure LongestState :=
  match q.zeroIndegreeIdx st with
  | none => q.decycleRound randoms st
  | some i => .ok (q.processStmt stmtDistGraph st (q.sid i))

/-- The condition of the main loop. -/
def longestGuard (q : AnalyzedQueue) (st : LongestState) : Bool := decide (st.handled < q.stmtNum)

def longestLoop (q : AnalyzedQueue) (stmtDistGraph : StmtDistGraph) (randoms : ℕ → ℕ) :
    ℕ → LongestState → Except Failure LongestState
  | 0, _ => .error .outOfFuel
  | fuel + 1, st =>
    if q.longestGuard st then do
      let st ← q.longestRound stmtDistGraph randoms st
      q.longestLoop stmtDistGraph randoms fuel st
    else .ok st

/-- One statement of the search for the end of the path. -/
def endRound (q : AnalyzedQueue) (st : LongestState) (cur : ℤ × StmtId) (i : ℕ) : ℤ × StmtId :=
  if q.sid i ∈ st.realDeletedNode then cur
  else if cur.1 < st.distLength (q.sid i) then (st.distLength (q.sid i), q.sid i) else cur

/-- `longest_dist` and `longest_dist_stmt` -/
def longestDist (q : AnalyzedQueue) (st : LongestState) : ℤ × StmtId :=
  (List.range q.stmtNum).foldl (q.endRound st) (0, .init)

/-- The loop that follows `dad_stmt` back, with the path so far. -/
def dadLoop (dadStmt : StmtId → StmtId) : ℕ → StmtId → List StmtId → Except Failure (List StmtId)
  | 0, _, _ => .error .outOfFuel
  | fuel + 1, s, path =>
    if s.txnId = -1 then .ok path else dadLoop dadStmt fuel (dadStmt s) (s :: path)

/-- `longest_stmt_path`, with the last state of its loop. -/
def longestStmtPath (q : AnalyzedQueue) (g : StmtGraph) (stmtDistGraph : StmtDistGraph)
    (randoms : ℕ → ℕ) : Except Failure (List StmtId × LongestState) := do
  let st ← q.longestLoop stmtDistGraph randoms (q.stmtNum + 1) (longestInit g stmtDistGraph)
  let path ← dadLoop st.dadStmt (q.stmtNum + 1) (q.longestDist st).2 []
  return (path, st)

/-- The round deletes a statement that has been processed. -/
def deletesProcessed (q : AnalyzedQueue) (randoms : ℕ → ℕ) (st : LongestState) : Bool :=
  match q.zeroIndegreeIdx st with
  | some _ => false
  | none =>
    match q.selectIdxSet randoms st with
    | .ok (_, idxSet) => (q.indices idxSet).any fun i => decide (q.sid i ∈ st.deleteNode)
    | .error _ => false

/-- No round of the loop deletes a processed statement. -/
def deletesOnlyLeft (q : AnalyzedQueue) (stmtDistGraph : StmtDistGraph) (randoms : ℕ → ℕ) :
    ℕ → LongestState → Bool
  | 0, _ => true
  | fuel + 1, st =>
    !q.longestGuard st || !q.deletesProcessed randoms st &&
      match q.longestRound stmtDistGraph randoms st with
      | .ok st => q.deletesOnlyLeft stmtDistGraph randoms fuel st
      | .error _ => true

/-! The caller. -/

/-- The weight of a branch with these labels, if it gets one. -/
def branchDist (labels : DependencySet) : Option ℤ :=
  let dependSet := (labels.erase .startDepend).erase .instrumentDepend
  if dependSet = ∅ then none
  else if .innerDepend ∈ dependSet ∧ dependSet.card = 1 then some 1
  else if .strictStartDepend ∈ dependSet ∧ dependSet.card = 1 then some 10
  else if .strictStartDepend ∈ dependSet ∨ .innerDepend ∈ dependSet then some 100
  else if .writeWrite ∈ dependSet ∨ .writeRead ∈ dependSet then some 100000
  else if .versionSetDepend ∈ dependSet ∨ .overwriteDepend ∈ dependSet ∨ .readWrite ∈ dependSet then
    some 10000
  else none

/-- The statements of committed transactions. -/
def committedStmts (q : AnalyzedQueue) : List StmtId :=
  ((List.range q.stmtNum).filter fun i => q.status (q.tid i) = .commit).map q.sid

/-- `stmt_dist_graph` -/
def stmtDistGraph (q : AnalyzedQueue) (g : StmtGraph) : StmtDistGraph :=
  fun x y => if x ∈ q.committedStmts ∧ y ∈ q.committedStmts then (g x y).bind branchDist else none

/-! What the loop keeps. -/

/-- A statement of the queue. -/
def IsStmt (q : AnalyzedQueue) (s : StmtId) : Prop := ∃ i < q.stmtNum, s = q.sid i

/-- A statement that was not deleted. -/
def Alive (q : AnalyzedQueue) (st : LongestState) (s : StmtId) : Prop :=
  q.IsStmt s ∧ s ∉ st.realDeletedNode

/-- What `longest_stmt_path` is for: a longest path of the graph without the statements it
deleted. -/
def FindsLongest (q : AnalyzedQueue) (g : StmtGraph) (stmtDistGraph : StmtDistGraph)
    (randoms : ℕ → ℕ) : Prop :=
  ∃ path st, q.longestStmtPath g stmtDistGraph randoms = .ok (path, st) ∧
    IsLongest stmtDistGraph (q.Alive st) path

/-- No path without a repeated statement weighs more than an `int`. -/
def FitsInt (q : AnalyzedQueue) (stmtDistGraph : StmtDistGraph) : Prop :=
  ∀ p x n, Walk stmtDistGraph p x n → p.Nodup → (∀ s ∈ p, q.IsStmt s) → n < 2 ^ 31

/-- The two node sets share nothing, and the table is right for the processed statements. -/
structure LongestInv (q : AnalyzedQueue) (dist : StmtDistGraph) (st : LongestState) : Prop where
  known : ∀ s, s ∈ st.deleteNode ∨ s ∈ st.realDeletedNode → q.IsStmt s
  apart : Disjoint st.deleteNode st.realDeletedNode
  tmp : ∀ x y, q.IsStmt x → q.IsStmt y → st.tmpStmtGraph x y =
    if x ∈ st.deleteNode ∨ x ∈ st.realDeletedNode ∨ y ∈ st.realDeletedNode then none else dist x y
  table : LongestWalk.Table dist (q.Alive st) st.deleteNode st.distLength st.dadStmt .init

variable {q : AnalyzedQueue} {dist : StmtDistGraph} {randoms : ℕ → ℕ} {st st' : LongestState}

theorem isStmt_sid {i : ℕ} (hi : i < q.stmtNum) : q.IsStmt (q.sid i) := ⟨i, hi, rfl⟩

theorem mem_allStmtSet {s : StmtId} : s ∈ q.allStmtSet ↔ q.IsStmt s := by
  have htid : ∀ i < q.stmtNum, q.tid i < q.tidNum := by
    intro i hi
    rw [tid, List.getD_eq_getElem _ _ hi]
    exact q.tid_lt _ (List.getElem_mem hi)
  simp only [allStmtSet, List.mem_map, List.mem_flatMap, List.mem_range, List.mem_filter,
    decide_eq_true_eq]
  constructor
  · rintro ⟨i, ⟨t, -, hi, -⟩, rfl⟩
    exact isStmt_sid hi
  · rintro ⟨i, hi, rfl⟩
    exact ⟨i, ⟨q.tid i, htid i hi, hi, rfl⟩, rfl⟩

theorem card_stmts (q : AnalyzedQueue) : ((Finset.range q.stmtNum).image q.sid).card = q.stmtNum := by
  rw [Finset.card_image_of_injOn, Finset.card_range]
  intro i hi j hj hij
  simp only [Finset.coe_range, Set.mem_Iio] at hi hj
  exact sid_inj hi hj hij

theorem LongestInv.handled_le (h : q.LongestInv dist st) : st.handled ≤ q.stmtNum := by
  rw [LongestState.handled, ← Finset.card_union_of_disjoint h.apart, ← card_stmts q]
  refine Finset.card_le_card fun s hs => ?_
  obtain ⟨i, hi, rfl⟩ := h.known s (Finset.mem_union.1 hs)
  exact Finset.mem_image_of_mem _ (Finset.mem_range.2 hi)

/-- While the loop goes on, some statement is left. -/
theorem exists_isLeft (h : q.longestGuard st = true) : ∃ i < q.stmtNum, st.isLeft (q.sid i) = true := by
  by_contra hnone
  have hsub : (Finset.range q.stmtNum).image q.sid ⊆ st.deleteNode ∪ st.realDeletedNode := by
    intro s hs
    obtain ⟨i, hi, rfl⟩ := Finset.mem_image.1 hs
    by_contra hnot
    rw [Finset.mem_union, not_or] at hnot
    exact hnone ⟨i, Finset.mem_range.1 hi, by simp [LongestState.isLeft, hnot.1, hnot.2]⟩
  have hcard := (Finset.card_le_card hsub).trans (Finset.card_union_le _ _)
  rw [card_stmts] at hcard
  rw [longestGuard, LongestState.handled, decide_eq_true_eq] at h
  omega

theorem isLeft_iff {s : StmtId} :
    st.isLeft s = true ↔ s ∉ st.deleteNode ∧ s ∉ st.realDeletedNode := by
  simp [LongestState.isLeft]

/-- At the end nothing is left. -/
theorem LongestInv.all_done (h : q.LongestInv dist st) (hguard : q.longestGuard st = false)
    {s : StmtId} (hs : q.Alive st s) : s ∈ st.deleteNode := by
  obtain ⟨⟨i, hi, rfl⟩, halive⟩ := hs
  have hsub : st.deleteNode ∪ st.realDeletedNode ⊆ (Finset.range q.stmtNum).image q.sid := by
    intro s hs
    obtain ⟨j, hj, rfl⟩ := h.known s (Finset.mem_union.1 hs)
    exact Finset.mem_image_of_mem _ (Finset.mem_range.2 hj)
  have heq := Finset.eq_of_subset_of_card_le hsub (by
    rw [card_stmts, Finset.card_union_of_disjoint h.apart]
    exact not_lt.1 (of_decide_eq_false hguard))
  have hmem : q.sid i ∈ st.deleteNode ∪ st.realDeletedNode := by
    rw [heq]
    exact Finset.mem_image_of_mem _ (Finset.mem_range.2 hi)
  exact (Finset.mem_union.1 hmem).resolve_right halive

theorem longestInv_init (g : StmtGraph) (dist : StmtDistGraph) :
    q.LongestInv dist (longestInit g dist) where
  known := by simp [longestInit]
  apart := Finset.disjoint_empty_left _
  tmp := by simp [longestInit]
  table := LongestWalk.Table.empty _ _ _ _ _

/-! A statement that no branch enters. -/

theorem zeroIndegreeIdx_spec {i : ℕ} (h : q.zeroIndegreeIdx st = some i) :
    i < q.stmtNum ∧ st.isLeft (q.sid i) = true ∧
      ∀ j < q.stmtNum, st.tmpStmtGraph (q.sid j) (q.sid i) = none := by
  have hmem := List.mem_range.1 (List.mem_of_find?_eq_some h)
  have hprop := List.find?_some h
  simp only [Bool.and_eq_true, Bool.not_eq_true', List.any_eq_false, List.mem_range,
    Bool.not_eq_true] at hprop
  exact ⟨hmem, hprop.1, fun j hj => by simpa using hprop.2 j hj⟩

/-- Its predecessors that were not deleted have been processed. -/
theorem LongestInv.pred_done (h : q.LongestInv dist st) {i : ℕ} (hz : q.zeroIndegreeIdx st = some i)
    {x : StmtId} {m : ℤ} (hx : q.Alive st x) (hm : dist x (q.sid i) = some m) :
    x ∈ st.deleteNode := by
  obtain ⟨hi, hleft, hnone⟩ := zeroIndegreeIdx_spec hz
  obtain ⟨⟨j, hj, rfl⟩, halive⟩ := hx
  have htmp := h.tmp _ _ (isStmt_sid hj) (isStmt_sid hi)
  rw [hnone j hj, hm] at htmp
  by_contra hdone
  rw [if_neg (by simp [hdone, halive, (isLeft_iff.1 hleft).2])] at htmp
  cases htmp

/-- One more branch leaves an `int`. -/
theorem LongestInv.length_eq (h : q.LongestInv dist st) (hpos : ∀ x y m, dist x y = some m → 0 < m)
    (hfit : q.FitsInt dist) {x z : StmtId} {m : ℤ} (hx : x ∈ st.deleteNode) (hz : q.IsStmt z)
    (hnew : z ∉ st.deleteNode) (hm : dist x z = some m) :
    wrapInt (st.distLength x + m) = st.distLength x + m := by
  obtain ⟨p, hp⟩ := h.table.walk x hx
  have hlt : st.distLength x + m < 2 ^ 31 := by
    refine hfit (p ++ [z]) z _ (hp.walk.snoc hm) ?_ ?_
    · refine List.nodup_append.2 ⟨hp.nodup, by simp, ?_⟩
      rintro a ha b hb rfl
      exact hnew (List.mem_singleton.1 hb ▸ hp.mem_done a ha)
    · intro s hs
      rcases List.mem_append.1 hs with hs | hs
      · exact h.known s (Or.inl (hp.mem_done s hs))
      · rw [List.mem_singleton.1 hs]
        exact hz
  have := h.table.nonneg x hx
  have := hpos x z m hm
  unfold wrapInt
  omega

/-- The value of a predecessor in the search of `dadRound`. -/
def dadValue (q : AnalyzedQueue) (dist : StmtDistGraph) (st : LongestState) (z : StmtId) (i : ℕ) :
    Option (ℤ × StmtId) :=
  if q.sid i ∈ st.realDeletedNode then none
  else (dist (q.sid i) z).map fun m => (wrapInt (st.distLength (q.sid i) + m), q.sid i)

theorem curMax_spec (q : AnalyzedQueue) (dist : StmtDistGraph) (st : LongestState) (z : StmtId) :
    0 ≤ (q.curMax dist st z).1 ∧
      (∀ i < q.stmtNum, ∀ v, q.dadValue dist st z i = some v → v.1 ≤ (q.curMax dist st z).1) ∧
      (q.curMax dist st z = (0, .init) ∨
        ∃ i < q.stmtNum, q.dadValue dist st z i = some (q.curMax dist st z)) := by
  have hnone : ∀ cur i, q.dadValue dist st z i = none → q.dadRound dist st z cur i = cur := by
    intro cur i hval
    unfold dadValue at hval
    unfold dadRound
    split_ifs at hval ⊢ with hdel
    · rfl
    · rw [Option.map_eq_none_iff] at hval
      rw [hval]
  have hsome : ∀ cur i v, q.dadValue dist st z i = some v →
      q.dadRound dist st z cur i = if cur.1 < v.1 then v else cur := by
    intro cur i v hval
    unfold dadValue at hval
    unfold dadRound
    split_ifs at hval ⊢ with hdel
    all_goals
      obtain ⟨m, hm, rfl⟩ := Option.map_eq_some_iff.1 hval
      rw [hm]
      simp_all
  have h := foldl_best hnone hsome (List.range q.stmtNum) (0, .init)
  simpa only [curMax, List.mem_range] using h

/-- A processed statement joins the table. -/
theorem LongestInv.processStmt (h : q.LongestInv dist st) (hpos : ∀ x y m, dist x y = some m → 0 < m)
    (hfit : q.FitsInt dist) {i : ℕ} (hz : q.zeroIndegreeIdx st = some i) :
    q.LongestInv dist (q.processStmt dist st (q.sid i)) ∧
      (q.processStmt dist st (q.sid i)).handled = st.handled + 1 := by
  obtain ⟨hi, hleft, -⟩ := zeroIndegreeIdx_spec hz
  obtain ⟨hnew, halive⟩ := isLeft_iff.1 hleft
  obtain ⟨hnonneg, hgreatest, hbest⟩ := q.curMax_spec dist st (q.sid i)
  have hlength := fun x m hx hm => h.length_eq hpos hfit (x := x) (m := m) hx (isStmt_sid hi) hnew hm
  have hpred : ∀ x m, q.Alive st x → dist x (q.sid i) = some m →
      x ∈ st.deleteNode ∧ st.distLength x + m ≤ (q.curMax dist st (q.sid i)).1 := by
    intro x m hx hm
    have hdone := h.pred_done hz hx hm
    obtain ⟨⟨j, hj, rfl⟩, hxa⟩ := hx
    refine ⟨hdone, ?_⟩
    have hval := hgreatest j hj (wrapInt (st.distLength (q.sid j) + m), q.sid j) (by
      rw [dadValue, if_neg hxa, hm]
      rfl)
    rwa [hlength _ m hdone hm] at hval
  refine ⟨⟨?_, ?_, ?_, ?_⟩, ?_⟩
  · intro s hs
    simp only [AnalyzedQueue.processStmt, Finset.mem_insert] at hs
    rcases hs with (rfl | hs) | hs
    · exact isStmt_sid hi
    · exact h.known s (Or.inl hs)
    · exact h.known s (Or.inr hs)
  · exact Finset.disjoint_insert_left.2 ⟨halive, h.apart⟩
  · intro x y hx hy
    simp only [AnalyzedQueue.processStmt, eraseOut, Finset.mem_insert, mem_allStmtSet, hy, and_true]
    rw [h.tmp x y hx hy]
    by_cases hxi : x = q.sid i
    · simp [hxi]
    · simp only [hxi, if_false, false_or]
  · refine h.table.insert hnew ⟨isStmt_sid hi, halive⟩ hpred hnonneg ?_
    rcases hbest with heq | ⟨j, hj, hval⟩
    · exact Or.inl ⟨congrArg Prod.snd heq, congrArg Prod.fst heq⟩
    · unfold dadValue at hval
      split_ifs at hval with hdel
      obtain ⟨m, hm, heq⟩ := Option.map_eq_some_iff.1 hval
      have hdone := h.pred_done hz ⟨isStmt_sid hj, hdel⟩ hm
      rw [← heq]
      exact Or.inr ⟨hdone, m, hm, hlength _ m hdone hm⟩
  · simp only [LongestState.handled, AnalyzedQueue.processStmt, Finset.card_insert_of_notMem hnew]
    omega

/-! A cycle. -/

theorem foldl_deleteReally (l : List ℕ) (st : LongestState) :
    (l.foldl q.deleteReally st).deleteNode = st.deleteNode ∧
      (l.foldl q.deleteReally st).distLength = st.distLength ∧
      (l.foldl q.deleteReally st).dadStmt = st.dadStmt ∧
      (∀ s, s ∈ (l.foldl q.deleteReally st).realDeletedNode ↔
        s ∈ st.realDeletedNode ∨ ∃ c ∈ l, s = q.sid c) ∧
      ∀ x y, q.IsStmt x → q.IsStmt y → (l.foldl q.deleteReally st).tmpStmtGraph x y =
        if ∃ c ∈ l, x = q.sid c ∨ y = q.sid c then none else st.tmpStmtGraph x y := by
  induction l generalizing st with
  | nil => simp
  | cons c l ih =>
    obtain ⟨h1, h2, h3, h4, h5⟩ := ih (q.deleteReally st c)
    refine ⟨h1, h2, h3, fun s => ?_, fun x y hx hy => ?_⟩
    · rw [List.foldl_cons, h4]
      simp only [deleteReally, Finset.mem_insert, List.mem_cons, exists_eq_or_imp]
      tauto
    · rw [List.foldl_cons, h5 x y hx hy]
      simp only [deleteReally, eraseIn, eraseOut, mem_allStmtSet, hx, hy, and_true, List.mem_cons,
        exists_eq_or_imp]
      by_cases hl : ∃ d ∈ l, x = q.sid d ∨ y = q.sid d
      · rw [if_pos hl, if_pos (Or.inr hl)]
      · rw [if_neg hl]
        by_cases hyc : y = q.sid c
        · rw [if_pos hyc, if_pos (Or.inl (Or.inr hyc))]
        · by_cases hxc : x = q.sid c
          · rw [if_neg hyc, if_pos hxc, if_pos (Or.inl (Or.inl hxc))]
          · have hnot : ¬ ((x = q.sid c ∨ y = q.sid c) ∨ ∃ d ∈ l, x = q.sid d ∨ y = q.sid d) := by
              simp only [hxc, hyc, hl, or_self, not_false_eq_true]
            rw [if_neg hyc, if_neg hxc, if_neg hnot]

/-- The group of a random statement left. -/
theorem selectIdxSet_spec (randoms : ℕ → ℕ) (hguard : q.longestGuard st = true) :
    ∃ g idxSet i, q.selectIdxSet randoms st = .ok (g, idxSet) ∧ i < q.stmtNum ∧ i ∈ idxSet ∧
      st.isLeft (q.sid i) = true := by
  obtain ⟨k, hk, hkleft⟩ := exists_isLeft hguard
  have hmem : q.sid k ∈ q.allStmtSet.filter st.isLeft :=
    List.mem_filter.2 ⟨mem_allStmtSet.2 (isStmt_sid hk), hkleft⟩
  have hlt := Nat.mod_lt (randoms st.randNum) (List.length_pos_of_mem hmem)
  have hget := List.getElem?_eq_getElem hlt
  generalize (q.allStmtSet.filter st.isLeft)[randoms st.randNum %
    (q.allStmtSet.filter st.isLeft).length] = s at hget
  have hs := List.mem_filter.1 (List.mem_of_getElem? hget)
  obtain ⟨i, hi, rfl⟩ := mem_allStmtSet.1 hs.1
  obtain ⟨g, idxSet, hok, -, hgroup⟩ := getInstrumentedStmtSet_spec (q := q) st.graph hi
  refine ⟨g, idxSet, i, ?_, hi, (hgroup i).2 (SameGroup.refl q _ i), hs.2⟩
  unfold selectIdxSet
  dsimp only
  rw [hget]
  dsimp only
  rw [show (q.sid i).transfer2StmtIdx q.fTxnIdQueue = some i from transfer2StmtIdx_ofQueue hi]
  exact hok

/-- Deleting statements that are left keeps the table. -/
theorem LongestInv.decycleRound (h : q.LongestInv dist st) (hguard : q.longestGuard st = true)
    (hz : q.zeroIndegreeIdx st = none) (hclean : q.deletesProcessed randoms st = false) :
    ∃ st', q.decycleRound randoms st = .ok st' ∧ q.LongestInv dist st' ∧
      st.handled < st'.handled := by
  obtain ⟨g, idxSet, i, hok, hi, himem, hleft⟩ := selectIdxSet_spec randoms hguard
  have hfresh : ∀ c ∈ q.indices idxSet, q.sid c ∉ st.deleteNode := by
    unfold deletesProcessed at hclean
    rw [hz, hok] at hclean
    simpa using hclean
  obtain ⟨h1, h2, h3, h4, h5⟩ := foldl_deleteReally (q := q) (q.indices idxSet)
    { st with graph := g, randNum := st.randNum + 1 }
  refine ⟨_, bind_eq_ok_iff.2 ⟨_, hok, rfl⟩, ⟨?_, ?_, ?_, ?_⟩, ?_⟩
  · intro s hs
    rw [h1, h4] at hs
    rcases hs with hs | hs | ⟨c, hc, rfl⟩
    · exact h.known s (Or.inl hs)
    · exact h.known s (Or.inr hs)
    · exact isStmt_sid (mem_indices.1 hc).1
  · rw [h1, Finset.disjoint_left]
    intro s hs hdel
    rcases (h4 s).1 hdel with hdel | ⟨c, hc, rfl⟩
    · exact Finset.disjoint_left.1 h.apart hs hdel
    · exact hfresh c hc hs
  · intro x y hx hy
    rw [h5 x y hx hy, h1]
    dsimp only
    rw [h.tmp x y hx hy]
    simp only [h4]
    split_ifs <;> first | rfl | grind
  · rw [h1, h2, h3]
    refine h.table.mono (fun a ha => ⟨ha.1, fun hmem => ha.2 ((h4 a).2 (Or.inl hmem))⟩) ?_
    intro y hy
    refine ⟨h.known y (Or.inl hy), fun hdel => ?_⟩
    rcases (h4 y).1 hdel with hdel | ⟨c, hc, rfl⟩
    · exact Finset.disjoint_left.1 h.apart hy hdel
    · exact hfresh c hc hy
  · have hlt : st.realDeletedNode.card <
        ((q.indices idxSet).foldl q.deleteReally
          { st with graph := g, randNum := st.randNum + 1 }).realDeletedNode.card := by
      refine Finset.card_lt_card (Finset.ssubset_iff_subset_ne.2 ⟨fun s hs => (h4 s).2 (Or.inl hs), ?_⟩)
      intro heq
      have hmem := (h4 (q.sid i)).2 (Or.inr ⟨i, mem_indices.2 ⟨hi, himem⟩, rfl⟩)
      rw [← heq] at hmem
      exact (isLeft_iff.1 hleft).2 hmem
    rw [LongestState.handled, LongestState.handled, h1]
    exact Nat.add_lt_add_left hlt _

/-! The run. -/

theorem LongestInv.longestLoop (hpos : ∀ x y m, dist x y = some m → 0 < m) (hfit : q.FitsInt dist)
    {fuel : ℕ} (h : q.LongestInv dist st) (hfuel : q.stmtNum < fuel + st.handled)
    (hclean : q.deletesOnlyLeft dist randoms fuel st = true) :
    ∃ st', q.longestLoop dist randoms fuel st = .ok st' ∧ q.LongestInv dist st' ∧
      q.longestGuard st' = false := by
  induction fuel generalizing st with
  | zero =>
    have := h.handled_le
    omega
  | succ fuel ih =>
    rw [AnalyzedQueue.longestLoop]
    cases hguard : q.longestGuard st with
    | false => exact ⟨st, rfl, h, hguard⟩
    | true =>
      rw [deletesOnlyLeft, hguard, Bool.not_true, Bool.false_or, Bool.and_eq_true,
        Bool.not_eq_true'] at hclean
      obtain ⟨hround, hrest⟩ := hclean
      have hstep : ∃ st', q.longestRound dist randoms st = .ok st' ∧ q.LongestInv dist st' ∧
          st.handled < st'.handled := by
        unfold longestRound
        cases hz : q.zeroIndegreeIdx st with
        | none => exact h.decycleRound hguard hz hround
        | some i =>
          obtain ⟨hinv, hcount⟩ := h.processStmt hpos hfit hz
          exact ⟨_, rfl, hinv, by omega⟩
      obtain ⟨st', hok, hinv, hlt⟩ := hstep
      rw [hok] at hrest ⊢
      exact ih hinv (by omega) hrest

/-- The end of the path: a statement of the greatest length, if one has a length. -/
theorem longestDist_spec (q : AnalyzedQueue) (st : LongestState) :
    (∀ s, q.Alive st s → st.distLength s ≤ (q.longestDist st).1) ∧
      (q.longestDist st = (0, .init) ∨
        ∃ s, q.Alive st s ∧ q.longestDist st = (st.distLength s, s)) := by
  let val : ℕ → Option (ℤ × StmtId) := fun i =>
    if q.sid i ∈ st.realDeletedNode then none else some (st.distLength (q.sid i), q.sid i)
  have hnone : ∀ cur i, val i = none → q.endRound st cur i = cur := by
    intro cur i hval
    simp only [val] at hval
    split_ifs at hval with hdel
    rw [endRound, if_pos hdel]
  have hsome : ∀ cur i v, val i = some v → q.endRound st cur i = if cur.1 < v.1 then v else cur := by
    intro cur i v hval
    simp only [val] at hval
    split_ifs at hval with hdel
    obtain rfl := Option.some.inj hval
    rw [endRound, if_neg hdel]
  obtain ⟨-, hgreatest, hbest⟩ := foldl_best hnone hsome (List.range q.stmtNum) (0, .init)
  refine ⟨?_, hbest.imp_right ?_⟩
  · rintro s ⟨⟨i, hi, rfl⟩, halive⟩
    exact hgreatest i (List.mem_range.2 hi) _ (if_neg halive)
  · rintro ⟨i, hi, hval⟩
    simp only [val] at hval
    split_ifs at hval with hdel
    exact ⟨q.sid i, ⟨isStmt_sid (List.mem_range.1 hi), hdel⟩, (Option.some.inj hval).symm⟩

theorem IsStmt.txnId_ne {s : StmtId} (h : q.IsStmt s) : s.txnId ≠ -1 := by
  obtain ⟨i, -, rfl⟩ := h
  show ((q.fTxnIdQueue.getD i 0 : ℕ) : ℤ) ≠ -1
  omega

theorem dadLoop_init (dad : StmtId → StmtId) (fuel : ℕ) (path : List StmtId) :
    dadLoop dad (fuel + 1) .init path = .ok path := if_pos rfl

/-- The loop back along `dad_stmt` collects the walk of the table. -/
theorem dadLoop_eq {done : Finset StmtId} {dad : StmtId → StmtId} {p : List StmtId} {x : StmtId}
    {n : ℤ} (hp : DadWalk dist done dad .init p x n) (hdone : ∀ s ∈ done, q.IsStmt s)
    {fuel : ℕ} (hfuel : p.length < fuel) (path : List StmtId) :
    dadLoop dad fuel x path = .ok (p ++ path) := by
  induction hp generalizing fuel path with
  | start hy hdad =>
    obtain ⟨fuel, rfl⟩ : ∃ k, fuel = k + 2 := ⟨fuel - 2, by
      rw [List.length_singleton] at hfuel
      omega⟩
    rw [dadLoop, if_neg (hdone _ hy).txnId_ne, hdad, dadLoop_init]
    rfl
  | snoc _ hy _ hdad _ ih =>
    obtain ⟨fuel, rfl⟩ : ∃ k, fuel = k + 1 := ⟨fuel - 1, by omega⟩
    rw [List.length_append, List.length_singleton] at hfuel
    rw [dadLoop, if_neg (hdone _ hy).txnId_ne, hdad, ih (by omega), List.append_assoc]
    rfl

theorem fitsInt_of_le {b : ℤ} (hle : ∀ x y m, dist x y = some m → m ≤ b) (hb : 0 ≤ b)
    (hnum : b * q.stmtNum < 2 ^ 31) : q.FitsInt dist := by
  intro p x n hp hnodup hstmts
  have hsub : p.toFinset ⊆ (Finset.range q.stmtNum).image q.sid := by
    intro s hs
    obtain ⟨i, hi, rfl⟩ := hstmts s (List.mem_toFinset.1 hs)
    exact Finset.mem_image_of_mem _ (Finset.mem_range.2 hi)
  have hcard := Finset.card_le_card hsub
  rw [List.toFinset_card_of_nodup hnodup, card_stmts] at hcard
  have hmul := Int.mul_le_mul_of_nonneg_left (Int.ofNat_le.2 hcard) hb
  have := hp.add_le hle
  omega

theorem branchDist_bounds {labels : DependencySet} {m : ℤ} (h : branchDist labels = some m) :
    0 < m ∧ m ≤ 100000 := by
  unfold branchDist at h
  dsimp only at h
  split_ifs at h
  all_goals
    obtain rfl := Option.some.inj h
    exact ⟨by decide, by decide⟩

theorem stmtDistGraph_bounds {g : StmtGraph} {x y : StmtId} {m : ℤ}
    (h : q.stmtDistGraph g x y = some m) : 0 < m ∧ m ≤ 100000 := by
  unfold AnalyzedQueue.stmtDistGraph at h
  split_ifs at h
  obtain ⟨labels, -, hm⟩ := Option.bind_eq_some_iff.1 h
  exact branchDist_bounds hm

/-- The caller's weights stay in an `int` for any queue of this length. -/
theorem fitsInt_stmtDistGraph (g : StmtGraph) (h : q.stmtNum ≤ 21474) :
    q.FitsInt (q.stmtDistGraph g) :=
  fitsInt_of_le (fun _ _ _ hm => (stmtDistGraph_bounds hm).2) (by decide) (by omega)

/-- A run that never deletes a processed statement returns a longest path. -/
theorem findsLongest_of_deletesOnlyLeft {g : StmtGraph} (hpos : ∀ x y m, dist x y = some m → 0 < m)
    (hfit : q.FitsInt dist)
    (hclean : q.deletesOnlyLeft dist randoms (q.stmtNum + 1) (longestInit g dist) = true) :
    q.FindsLongest g dist randoms := by
  obtain ⟨st, hloop, hinv, hguard⟩ := (longestInv_init g dist).longestLoop hpos hfit
    (by omega) hclean
  have hdone : ∀ s, q.Alive st s → s ∈ st.deleteNode := fun s hs => hinv.all_done hguard hs
  have hknown : ∀ s ∈ st.deleteNode, q.IsStmt s := fun s hs => hinv.known s (Or.inl hs)
  obtain ⟨hgreatest, hend⟩ := q.longestDist_spec st
  rcases hend with hnil | ⟨x, hx, hlast⟩
  · refine ⟨[], st, bind_eq_ok_iff.2 ⟨st, hloop, bind_eq_ok_iff.2 ⟨[], ?_, rfl⟩⟩, ?_⟩
    · rw [hnil, dadLoop_init]
    · refine hinv.table.isLongest_nil hdone fun y hy => ?_
      have := hgreatest y (hinv.table.inside y hy)
      rwa [hnil] at this
  · obtain ⟨p, hp⟩ := hinv.table.walk x (hdone x hx)
    have hlength : p.length < q.stmtNum + 1 := by
      have hsub : p.toFinset ⊆ st.deleteNode := fun s hs =>
        hp.mem_done s (List.mem_toFinset.1 hs)
      have hcard := Finset.card_le_card hsub
      rw [List.toFinset_card_of_nodup hp.nodup] at hcard
      have := hinv.handled_le
      rw [LongestState.handled] at this
      omega
    refine ⟨p, st, bind_eq_ok_iff.2 ⟨st, hloop, bind_eq_ok_iff.2 ⟨p, ?_, rfl⟩⟩, ?_⟩
    · rw [hlast, dadLoop_eq hp hknown hlength, List.append_nil]
    · refine hinv.table.isLongest_dadWalk hdone (fun y hy => ?_) hp
      have := hgreatest y (hinv.table.inside y hy)
      rwa [hlast] at this

end AnalyzedQueue

/-- An insert with its read, and a select of the new row: no statement is deleted. -/
theorem insertedRead_findsLongest : ∃ a, dependencyAnalyzer insertedRead = .ok a ∧
    a.queue.FindsLongest a.graphs.stmt (a.queue.stmtDistGraph a.graphs.stmt) fun _ => 0 := by
  obtain ⟨a, ha, h⟩ := exists_ok_of_map insertedRead (fun a =>
    decide (a.queue.stmtNum ≤ 21474) &&
      a.queue.deletesOnlyLeft (a.queue.stmtDistGraph a.graphs.stmt) (fun _ => 0)
        (a.queue.stmtNum + 1)
        (AnalyzedQueue.longestInit a.graphs.stmt (a.queue.stmtDistGraph a.graphs.stmt)))
    (by decide +kernel)
  rw [Bool.and_eq_true, decide_eq_true_eq] at h
  exact ⟨a, ha, AnalyzedQueue.findsLongest_of_deletesOnlyLeft
    (fun _ _ _ hm => (AnalyzedQueue.stmtDistGraph_bounds hm).1)
    (AnalyzedQueue.fitsInt_stmtDistGraph _ h.1) h.2⟩

/-- A transaction that updates the row its version set read has seen. -/
def updateAlone : AnalyzerInput where
  initOutput := [[["0", "10000"]]]
  totalOutput := [[], [["0", "10000"]], [["0", "10000"]], [], [["1", "10000"]], []]
  finalTidQueue := List.replicate 6 0
  finalStmtUsage := [.mk' .initType false, ⟨.versionSetRead, true, "t0"⟩,
    ⟨.beforeWriteRead, true, "t0"⟩, ⟨.updateWrite, false, "t0"⟩, ⟨.afterWriteRead, true, "t0"⟩,
    .mk' .initType false]
  finalTxnStatus := [.commit]
  primaryKeyIdx := 1
  writeOpKeyIdx := 0

/-- The version set read counts twice, and the loop ends before the last statement. -/
theorem not_findsLongest : ¬ ∀ (q : AnalyzedQueue) (g : StmtGraph) (dist : StmtDistGraph)
    (randoms : ℕ → ℕ), (∀ x y m, dist x y = some m → 0 < m) → q.FitsInt dist →
      q.FindsLongest g dist randoms := by
  intro hclaim
  obtain ⟨a, ha, h⟩ := exists_ok_of_map updateAlone (fun a =>
    decide (a.queue.stmtNum = 6) &&
      decide (a.queue.stmtDistGraph a.graphs.stmt (a.queue.sid 0) (a.queue.sid 5) = some 1) &&
      ((a.queue.longestStmtPath a.graphs.stmt (a.queue.stmtDistGraph a.graphs.stmt)
        fun _ => 0).toOption.any fun (r : List StmtId × LongestState) => decide (r.1 = []) &&
          decide (a.queue.sid 0 ∉ r.2.realDeletedNode) &&
          decide (a.queue.sid 5 ∉ r.2.realDeletedNode))) (by decide +kernel)
  simp only [Bool.and_eq_true, decide_eq_true_eq] at h
  obtain ⟨⟨hnum, hedge⟩, hrun⟩ := h
  obtain ⟨path, st, hok, n, hwalk, -, hmax⟩ := hclaim a.queue a.graphs.stmt
    (a.queue.stmtDistGraph a.graphs.stmt) (fun _ => 0)
    (fun _ _ _ hm => (AnalyzedQueue.stmtDistGraph_bounds hm).1)
    (AnalyzedQueue.fitsInt_stmtDistGraph _ (by omega))
  rw [hok] at hrun
  simp only [Except.toOption, Option.any_some, Bool.and_eq_true, decide_eq_true_eq] at hrun
  obtain ⟨⟨rfl, h0⟩, h5⟩ := hrun
  have hzero : n = 0 := by
    rcases hwalk with ⟨-, rfl⟩ | ⟨x, hx⟩
    · rfl
    · exact absurd hx.last_mem (List.not_mem_nil)
  have hstep : Walk (a.queue.stmtDistGraph a.graphs.stmt) [a.queue.sid 0, a.queue.sid 5]
      (a.queue.sid 5) (0 + 1) := (Walk.single (a.queue.sid 0)).snoc hedge
  have := hmax _ _ _ hstep (by
    intro s hs
    rcases List.mem_pair.1 hs with rfl | rfl
    · exact ⟨AnalyzedQueue.isStmt_sid (by omega), h0⟩
    · exact ⟨AnalyzedQueue.isStmt_sid (by omega), h5⟩)
  omega

end DbFuzz
