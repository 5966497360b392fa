import DbFuzz.TxCheck.Group
import Mathlib.Algebra.GroupWithZero.Nat

/-! `topological_sort_path`: groups without an incoming edge go to the path; when there
is none, the group with the most edges is deleted. The sort works on a copy of the graph,
the group queries on the original. -/

namespace DbFuzz

open Loop

/-- The labels the sort looks at. -/
def DependencySet.significant (labels : DependencySet) : DependencySet :=
  labels \ {.startDepend, .strictStartDepend, .innerDepend}

/-- An entry without start and inner labels; an empty one is erased. -/
def purgeEntry : Option DependencySet → Option DependencySet
  | none => none
  | some labels =>
    if DependencySet.significant labels = ∅ then none
    else some (DependencySet.significant labels)

def StmtGraph.purge (g : StmtGraph) (a b : StmtId) : StmtGraph := g.set a b (purgeEntry (g a b))

/-- The two node sets, the path and the flag of the sort, with `stmt_dependency_graph`
and its copy. -/
structure SortState where
  graph : StmtGraph
  tmp : StmtGraph
  outputted : Finset StmtId
  deleted : Finset StmtId
  path : List StmtId
  deleteFlag : Bool

def SortState.isDone (st : SortState) (s : StmtId) : Bool :=
  decide (s ∈ st.outputted) || decide (s ∈ st.deleted)

namespace AnalyzedQueue

/-- A set of indices in the order of its iteration. -/
def indices (q : AnalyzedQueue) (s : Finset ℕ) : List ℕ := (List.range q.stmtNum).filter (· ∈ s)

/-- The branches between a statement and every statement. -/
def eraseBranches (q : AnalyzedQueue) (s : StmtId) (g : StmtGraph) : StmtGraph :=
  (List.range q.stmtNum).foldl (fun g j => (g.erase s (q.sid j)).erase (q.sid j) s) g

def deleteStmt (q : AnalyzedQueue) (st : SortState) (i : ℕ) : SortState :=
  { st with
    deleted := insert (q.sid i) st.deleted
    tmp := q.eraseBranches (q.sid i) st.tmp }

def outputStmt (q : AnalyzedQueue) (st : SortState) (i : ℕ) : SortState :=
  { st with
    path := st.path ++ [q.sid i]
    outputted := insert (q.sid i) st.outputted
    tmp := q.eraseBranches (q.sid i) st.tmp }

/-- The indices of transactions that did not commit. -/
def abortedIndices (q : AnalyzedQueue) : List ℕ :=
  (List.range q.stmtNum).filter fun i => q.status (q.tid i) ≠ .commit

/-- The loop that deletes start and inner dependencies. -/
def purgeBranches (q : AnalyzedQueue) (g : StmtGraph) : StmtGraph :=
  (List.range q.stmtNum).foldl (fun g i =>
    (List.range' i (q.stmtNum - i)).foldl (fun g j =>
      (g.purge (q.sid i) (q.sid j)).purge (q.sid j) (q.sid i)) g) g

/-- The state before the first round. -/
def sortInit (q : AnalyzedQueue) (g : StmtGraph) (deletedNodes : Finset StmtId) : SortState :=
  let st := q.abortedIndices.foldl q.deleteStmt ⟨g, g, ∅, deletedNodes, [], false⟩
  { st with tmp := q.purgeBranches st.tmp }

/-- Some branch enters the statement from outside its set. -/
def hasInBranch (q : AnalyzedQueue) (tmp : StmtGraph) (idxSet : Finset ℕ) (chosen : ℕ) : Bool :=
  (List.range q.stmtNum).any fun j =>
    decide (j ∉ idxSet) && (tmp (q.sid j) (q.sid chosen)).isSome

/-- The loop over a set; it stops, with the set checked so far, at the first branch. -/
def hasIndegree (q : AnalyzedQueue) (tmp : StmtGraph) (idxSet : Finset ℕ) :
    List ℕ → Finset ℕ → Bool × Finset ℕ
  | [], checked => (false, checked)
  | chosen :: rest, checked =>
    if q.hasInBranch tmp idxSet chosen then (true, insert chosen checked)
    else q.hasIndegree tmp idxSet rest (insert chosen checked)

/-- The search for a set without incoming branches, from index `i - 1` down. -/
def findZeroIndegree (q : AnalyzedQueue) (st : SortState) :
    ℕ → StmtGraph → Finset ℕ → Except Failure (StmtGraph × Option ℕ)
  | 0, g, _ => .ok (g, none)
  | i + 1, g, checked =>
    if i ∈ checked then q.findZeroIndegree st i g checked
    else if st.isDone (q.sid i) then q.findZeroIndegree st i g checked
    else do
      let (g, idxSet) ← q.getInstrumentedStmtSet g i
      let r := q.hasIndegree st.tmp idxSet (q.indices idxSet) checked
      if r.1 then q.findZeroIndegree st i g r.2 else return (g, some i)

/-- The branches between a set and the statements outside it. -/
def edgeNum (q : AnalyzedQueue) (tmp : StmtGraph) (idxSet : Finset ℕ) : ℕ :=
  ((q.indices idxSet).map fun chosen =>
    (((List.range q.stmtNum).filter (· ∉ idxSet)).map fun j =>
      (tmp (q.sid j) (q.sid chosen)).isSome.toNat +
        (tmp (q.sid chosen) (q.sid j)).isSome.toNat).sum).sum

structure DeleteSearch where
  graph : StmtGraph
  checked : Finset ℕ
  maxEdgeNum : ℕ
  targetIdx : ℕ

/-- A round of the search for the set to delete. -/
def deleteRound (q : AnalyzedQueue) (st : SortState) (i : ℕ) (s : DeleteSearch) :
    Except Failure DeleteSearch :=
  if i ∈ s.checked then .ok s
  else if st.isDone (q.sid i) then .ok s
  else do
    let (g, idxSet) ← q.getInstrumentedStmtSet s.graph i
    let num := q.edgeNum st.tmp idxSet
    return if s.maxEdgeNum ≤ num then ⟨g, s.checked ∪ idxSet, num, i⟩
      else ⟨g, s.checked ∪ idxSet, s.maxEdgeNum, s.targetIdx⟩

/-- The branch of the main loop for a cycle. -/
def breakCycle (q : AnalyzedQueue) (st : SortState) (g : StmtGraph) : Except Failure SortState := do
  let s ← forRange q.stmtNum (q.deleteRound st) ⟨g, ∅, 0, 0⟩
  match (q.sid s.targetIdx).transfer2StmtIdx q.fTxnIdQueue with
  | none => .error .badIndex
  | some selectIdx => do
    let (g, idxSet) ← q.getInstrumentedStmtSet s.graph selectIdx
    return (q.indices idxSet).foldl q.deleteStmt { st with graph := g, deleteFlag := true }

/-- The branch of the main loop for a set without incoming branches. -/
def outputSet (q : AnalyzedQueue) (st : SortState) (g : StmtGraph) (i : ℕ) :
    Except Failure SortState := do
  let (g, idxSet) ← q.getInstrumentedStmtSet g i
  return (q.indices idxSet).foldl q.outputStmt { st with graph := g }

def sortRound (q : AnalyzedQueue) (st : SortState) : Except Failure SortState := do
  let (g, zeroIndegreeIdx) ← q.findZeroIndegree st q.stmtNum st.graph ∅
  match zeroIndegreeIdx with
  | none => q.breakCycle st g
  | some i => q.outputSet st g i

def sortLoop (q : AnalyzedQueue) : ℕ → SortState → Except Failure SortState
  | 0, _ => .error .outOfFuel
  | fuel + 1, st =>
    if st.outputted.card + st.deleted.card < q.stmtNum then do
      let st ← q.sortRound st
      q.sortLoop fuel st
    else .ok st

/-- The first or the last statement of its transaction. -/
def isBorder (q : AnalyzedQueue) (s : StmtId) : Bool :=
  decide (s.stmtIdxInTxn = 0) || decide ((q.txnSize s.txnId.toNat : ℤ) = s.stmtIdxInTxn + 1)

/-- A placeholder of a replaced statement. -/
def isReplaced (q : AnalyzedQueue) (s : StmtId) : Except Failure Bool :=
  match s.transfer2StmtIdx q.fTxnIdQueue with
  | none => .error .badIndex
  | some queueIdx => .ok ((q.usage queueIdx).stmtType == .initType)

/-- `topological_sort_path`: the path and the flag, with the graph it leaves. -/
def topologicalSortPath (q : AnalyzedQueue) (g : StmtGraph) (deletedNodes : Finset StmtId) :
    Except Failure SortState := do
  let st ← q.sortLoop (q.stmtNum + 1) (q.sortInit g deletedNodes)
  let path ← eraseInPlace (fun s => .ok (q.isBorder s)) st.path.length 0 st.path
  let path ← eraseInPlace q.isReplaced path.length 0 path
  return { st with path := path }

/-! The copy of the graph, seen from indices. -/

variable {q : AnalyzedQueue} {g g' : StmtGraph} {i j : ℕ}

/-- The copy has an entry for the pair. -/
def Branch (q : AnalyzedQueue) (tmp : StmtGraph) (i j : ℕ) : Prop :=
  (tmp (q.sid i) (q.sid j)).isSome = true

/-- Some label of the pair is neither a start nor an inner one. -/
def Ordered (q : AnalyzedQueue) (g : StmtGraph) (i j : ℕ) : Prop :=
  ∃ dt ∈ g.labels (q.sid i) (q.sid j),
    dt ≠ .startDepend ∧ dt ≠ .strictStartDepend ∧ dt ≠ .innerDepend

theorem mem_indices {s : Finset ℕ} : i ∈ q.indices s ↔ i < q.stmtNum ∧ i ∈ s := by
  simp [indices]

theorem indices_sorted (q : AnalyzedQueue) (s : Finset ℕ) : (q.indices s).Pairwise (· < ·) :=
  List.pairwise_lt_range.filter _

theorem sid_eq_iff (hi : i < q.stmtNum) (hj : j < q.stmtNum) : q.sid i = q.sid j ↔ i = j :=
  ⟨sid_inj hi hj, fun h => h ▸ rfl⟩

/-- Erasing branches in any number of rounds leaves the entries of other pairs. -/
theorem foldl_erase (q : AnalyzedQueue) (s x y : StmtId) (g : StmtGraph) (k : ℕ) :
    (List.range k).foldl (fun g j => (g.erase s (q.sid j)).erase (q.sid j) s) g x y =
      if (x = s ∧ ∃ j < k, y = q.sid j) ∨ (y = s ∧ ∃ j < k, x = q.sid j) then none else g x y := by
  induction k with
  | zero => simp
  | succ k ih =>
    rw [List.range_succ, List.foldl_append, List.foldl_cons, List.foldl_nil, StmtGraph.erase_eq,
      StmtGraph.erase_eq, ih]
    have hexists : ∀ z, (∃ j < k + 1, z = q.sid j) ↔ (∃ j < k, z = q.sid j) ∨ z = q.sid k := by
      intro z
      constructor
      · rintro ⟨j, hj, rfl⟩
        rcases Nat.lt_succ_iff_lt_or_eq.1 hj with hj | rfl
        · exact Or.inl ⟨j, hj, rfl⟩
        · exact Or.inr rfl
      · rintro (⟨j, hj, rfl⟩ | rfl)
        · exact ⟨j, by omega, rfl⟩
        · exact ⟨k, by omega, rfl⟩
    simp only [hexists]
    by_cases h1 : x = q.sid k ∧ y = s
    · simp [h1]
    · by_cases h2 : x = s ∧ y = q.sid k
      · simp [h2]
      · rw [if_neg h1, if_neg h2]
        congr 1
        grind

theorem eraseBranches_sid {c : ℕ} (hi : i < q.stmtNum) (hj : j < q.stmtNum) (hc : c < q.stmtNum) :
    q.eraseBranches (q.sid c) g (q.sid i) (q.sid j) =
      if i = c ∨ j = c then none else g (q.sid i) (q.sid j) := by
  unfold eraseBranches
  have hid : ∀ k, k < q.stmtNum → ∃ m < q.stmtNum, q.sid k = q.sid m := fun k hk => ⟨k, hk, rfl⟩
  rw [foldl_erase]
  simp only [hid i hi, hid j hj, and_true, sid_eq_iff hi hc, sid_eq_iff hj hc]

theorem purgeEntry_purgeEntry (e : Option DependencySet) :
    purgeEntry (purgeEntry e) = purgeEntry e := by
  have hidem : ∀ labels : DependencySet, DependencySet.significant
      (DependencySet.significant labels) = DependencySet.significant labels := by
    intro labels
    unfold DependencySet.significant
    rw [Finset.sdiff_idem]
  cases e with
  | none => rfl
  | some labels =>
    simp only [purgeEntry]
    split_ifs with h
    · rfl
    · simp only [hidem, h, if_false]

/-- A pair that was purged once stays so, whatever is purged later. -/
theorem foldl_purge (ps : List (StmtId × StmtId)) (g : StmtGraph) (x y : StmtId) :
    ps.foldl (fun g p => g.purge p.1 p.2) g x y =
      if (x, y) ∈ ps then purgeEntry (g x y) else g x y := by
  induction ps generalizing g with
  | nil => simp
  | cons p rest ih =>
    rw [List.foldl_cons, ih]
    unfold StmtGraph.purge StmtGraph.set
    by_cases hp : x = p.1 ∧ y = p.2
    · obtain ⟨rfl, rfl⟩ := hp
      simp [purgeEntry_purgeEntry]
    · have hne : (x, y) ≠ p := fun h => hp ⟨congrArg Prod.fst h, congrArg Prod.snd h⟩
      simp [hp, hne]

/-- The pairs of `purgeBranches` in their order. -/
theorem purgeBranches_eq (q : AnalyzedQueue) (g : StmtGraph) :
    q.purgeBranches g = ((List.range q.stmtNum).flatMap fun i =>
      (List.range' i (q.stmtNum - i)).flatMap fun j =>
        [(q.sid i, q.sid j), (q.sid j, q.sid i)]).foldl (fun g p => g.purge p.1 p.2) g := by
  simp only [purgeBranches, List.foldl_flatMap, List.foldl_cons, List.foldl_nil]

/-- Every pair of statements is purged. -/
theorem purgeBranches_sid (q : AnalyzedQueue) (g : StmtGraph) (hi : i < q.stmtNum)
    (hj : j < q.stmtNum) :
    q.purgeBranches g (q.sid i) (q.sid j) = purgeEntry (g (q.sid i) (q.sid j)) := by
  have hmem : (q.sid i, q.sid j) ∈ (List.range q.stmtNum).flatMap fun i =>
      (List.range' i (q.stmtNum - i)).flatMap fun j =>
        [(q.sid i, q.sid j), (q.sid j, q.sid i)] := by
    simp only [List.mem_flatMap, List.mem_range, List.mem_range'_1, List.mem_cons,
      List.not_mem_nil, or_false]
    rcases Nat.le_total i j with h | h
    · exact ⟨i, hi, j, by omega, Or.inl rfl⟩
    · exact ⟨j, hj, i, by omega, Or.inr rfl⟩
  rw [purgeBranches_eq, foldl_purge, if_pos hmem]

theorem branch_purgeBranches (hi : i < q.stmtNum) (hj : j < q.stmtNum) :
    q.Branch (q.purgeBranches g) i j ↔ q.Ordered g i j := by
  unfold Branch Ordered
  rw [purgeBranches_sid q g hi hj]
  unfold StmtGraph.labels
  cases g (q.sid i) (q.sid j) with
  | none => simp [purgeEntry]
  | some labels =>
    simp only [purgeEntry, Option.getD_some]
    have hiff : DependencySet.significant labels ≠ ∅ ↔ ∃ dt ∈ labels,
        dt ≠ .startDepend ∧ dt ≠ .strictStartDepend ∧ dt ≠ .innerDepend := by
      rw [← Finset.nonempty_iff_ne_empty]
      simp only [Finset.Nonempty, DependencySet.significant, Finset.mem_sdiff, Finset.mem_insert,
        Finset.mem_singleton, not_or]
    rw [← hiff]
    split_ifs with h <;> simp [h]

theorem graph_foldl_deleteStmt (l : List ℕ) (st : SortState) :
    (l.foldl q.deleteStmt st).graph = st.graph := by
  induction l generalizing st with
  | nil => rfl
  | cons c l ih => exact ih _

theorem graph_foldl_outputStmt (l : List ℕ) (st : SortState) :
    (l.foldl q.outputStmt st).graph = st.graph := by
  induction l generalizing st with
  | nil => rfl
  | cons c l ih => exact ih _

theorem ordered_of_sameLabels (h : SameLabels g g') : q.Ordered g' i j ↔ q.Ordered g i j := by
  unfold Ordered
  rw [h]

end AnalyzedQueue

end DbFuzz
