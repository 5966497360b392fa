import DbFuzz.Lib.Related
import DbFuzz.TxCheck.AllPaths
import Mathlib.Order.Partition.Finpartition

/-! What a group query leaves behind: empty entries for pairs it looked at. Neither sort
tells a graph with them from the one without. -/

namespace DbFuzz

open Loop Relation

/-- The two states differ in the entries of `stmt_dependency_graph` only. -/
def SortState.Alike (st st' : SortState) : Prop :=
  AnalyzedQueue.SameLabels st.graph st'.graph ∧ st' = { st with graph := st'.graph }

namespace AnalyzedQueue

/-- `g'` is `g` with empty entries for pairs of statements that had none. -/
def Padded (q : AnalyzedQueue) (g g' : StmtGraph) : Prop :=
  ∀ x y, g' x y = g x y ∨ g x y = none ∧ g' x y = some ∅ ∧
    ∃ i < q.stmtNum, ∃ j < q.stmtNum, x = q.sid i ∧ y = q.sid j

variable {q : AnalyzedQueue} {g g' g'' : StmtGraph} {i j : ℕ}

theorem Padded.refl (q : AnalyzedQueue) (g : StmtGraph) : q.Padded g g := fun _ _ => Or.inl rfl

theorem Padded.trans (h : q.Padded g g') (h' : q.Padded g' g'') : q.Padded g g'' := by
  intro x y
  rcases h' x y with h2 | ⟨hnone, hsome, hids⟩
  · rw [h2]
    exact h x y
  · rcases h x y with h1 | ⟨-, h1, -⟩
    · exact Or.inr ⟨h1 ▸ hnone, hsome, hids⟩
    · rw [h1] at hnone
      cases hnone

theorem Padded.sameLabels (h : q.Padded g g') : SameLabels g g' := by
  intro x y
  unfold StmtGraph.labels
  rcases h x y with h | ⟨hnone, hsome, -⟩
  · rw [h]
  · rw [hnone, hsome]
    rfl

theorem padded_touch (g : StmtGraph) (hi : i < q.stmtNum) (hj : j < q.stmtNum) :
    q.Padded g (g.touch (q.sid i) (q.sid j)) := by
  intro x y
  unfold StmtGraph.touch StmtGraph.set StmtGraph.labels
  split_ifs with hxy
  · obtain ⟨rfl, rfl⟩ := hxy
    cases hentry : g (q.sid i) (q.sid j) with
    | none => exact Or.inr ⟨rfl, rfl, i, hi, j, hj, rfl, rfl⟩
    | some labels => exact Or.inl rfl
  · exact Or.inl rfl

theorem padded_groupVisit (hi : i < q.stmtNum) (hj : j < q.stmtNum) (done : Finset ℕ)
    (s : StmtGraph × Finset ℕ) : q.Padded s.1 (q.groupVisit i done s j).1 := by
  unfold groupVisit instrumentPair
  split
  · exact Padded.refl q _
  · dsimp only
    split
    · exact padded_touch _ hj hi
    · exact padded_touch _ hi hj

/-- The inner loop adds an entry for each pair it looks at. -/
theorem padded_groupExpand (hi : i < q.stmtNum) (done : Finset ℕ) (g : StmtGraph) :
    q.Padded g (q.groupExpand i done g).1 := by
  have hprefix : ∀ k ≤ q.stmtNum,
      q.Padded g ((List.range k).foldl (q.groupVisit i done) (g, ∅)).1 := by
    intro k
    induction k with
    | zero => exact fun _ => Padded.refl q g
    | succ k ih =>
      intro hk
      rw [List.range_succ, List.foldl_append, List.foldl_cons, List.foldl_nil]
      exact (ih (by omega)).trans (padded_groupVisit hi (by omega) done _)
  exact hprefix q.stmtNum le_rfl

/-- The group query ends with the group, and adds empty entries. -/
theorem getInstrumentedStmtSet_padded (g : StmtGraph) (hi : i < q.stmtNum) :
    ∃ g', q.getInstrumentedStmtSet g i = .ok (g', q.stmtSet g i) ∧ q.Padded g g' := by
  have hfound : ∀ a < q.stmtNum, ∀ done s, q.Padded g s →
      ∀ b, b ∈ (q.groupExpand a done s).2 ↔ b ∉ done ∧ q.Linked g a b := by
    intro a ha done s hs b
    rw [groupExpand, (foldl_groupVisit q a done s q.stmtNum).2, hs.sameLabels]
    constructor
    · rintro ⟨hb, hdone, hl⟩
      exact ⟨hdone, ha, hb, hl⟩
    · rintro ⟨hdone, -, hb, hl⟩
      exact ⟨hb, hdone, hl⟩
  have hfuel : q.stmtNum < q.stmtNum + 2 + (∅ : Finset ℕ).card := by simp
  obtain ⟨g', group, hsearch, hpad, -⟩ := Worklist.search_spec (fun a b h => h.2.1)
    (fun a ha done s hs => Padded.trans hs (padded_groupExpand ha done s)) hfound
    (Worklist.Searching.init _ hi) (Padded.refl q g) hfuel
  have hok : q.getInstrumentedStmtSet g i = .ok (g', group) := by
    rw [getInstrumentedStmtSet, hsearch]
  refine ⟨g', ?_, hpad⟩
  rw [stmtSet, hok]

/-! The sort. -/

theorem exists_getInstrumentedStmtSet (q : AnalyzedQueue) (g : StmtGraph) (i : ℕ) :
    ∃ g', q.getInstrumentedStmtSet g i = .ok (g', q.stmtSet g i) ∧ SameLabels g g' := by
  have hends := getInstrumentedStmtSet_ne_outOfFuel q g i
  cases hquery : q.getInstrumentedStmtSet g i with
  | error e =>
    have hfuel : e = .outOfFuel := by
      unfold getInstrumentedStmtSet at hquery
      split at hquery
      · cases hquery
      · cases hquery
        rfl
    exact absurd (hfuel ▸ hquery) hends
  | ok r =>
    refine ⟨r.1, ?_, getInstrumentedStmtSet_sameLabels hquery⟩
    rw [stmtSet, hquery]

/-- The same value, with graphs that agree on every label. -/
def SameReading {α : Type} (r r' : StmtGraph × α) : Prop := SameLabels r.1 r'.1 ∧ r'.2 = r.2

theorem related_query (h : SameLabels g g') (i : ℕ) :
    Related SameReading (q.getInstrumentedStmtSet g i) (q.getInstrumentedStmtSet g' i) := by
  obtain ⟨g₁, hok, hsame⟩ := exists_getInstrumentedStmtSet q g i
  obtain ⟨g₁', hok', hsame'⟩ := exists_getInstrumentedStmtSet q g' i
  rw [hok, hok']
  refine .ok ⟨fun x y => ?_, h.stmtSet_eq i⟩
  rw [hsame', h, hsame]

theorem related_findZeroIndegree (st : SortState) (k : ℕ) (h : SameLabels g g')
    (checked : Finset ℕ) (fresh : StmtGraph) : Related SameReading
      (q.findZeroIndegree st k g checked)
      (q.findZeroIndegree { st with graph := fresh } k g' checked) := by
  induction k generalizing g g' checked with
  | zero => exact .ok ⟨h, rfl⟩
  | succ k ih =>
    rw [findZeroIndegree, findZeroIndegree]
    have hdone : SortState.isDone { st with graph := fresh } (q.sid k) = st.isDone (q.sid k) := rfl
    rw [hdone]
    split_ifs
    · exact ih h checked
    · exact ih h checked
    · refine (related_query h k).bind fun r r' hr => ?_
      dsimp only
      rw [hr.2]
      split
      · exact ih hr.1 _
      · exact .ok ⟨hr.1, rfl⟩

/-- The searches for the set to delete differ in the graph only. -/
def SameSearch (s s' : DeleteSearch) : Prop :=
  SameLabels s.graph s'.graph ∧ s' = { s with graph := s'.graph }

theorem related_deleteRound (st : SortState) (fresh : StmtGraph) (i : ℕ) {s s' : DeleteSearch}
    (h : SameSearch s s') :
    Related SameSearch (q.deleteRound st i s) (q.deleteRound { st with graph := fresh } i s') := by
  obtain ⟨hgraph, hrest⟩ := h
  have hchecked : s'.checked = s.checked := by rw [hrest]
  have hmax : s'.maxEdgeNum = s.maxEdgeNum := by rw [hrest]
  have htarget : s'.targetIdx = s.targetIdx := by rw [hrest]
  have hdone : SortState.isDone { st with graph := fresh } (q.sid i) = st.isDone (q.sid i) := rfl
  unfold deleteRound
  rw [hchecked, hmax, htarget, hdone]
  split_ifs
  · exact .ok ⟨hgraph, hrest⟩
  · exact .ok ⟨hgraph, hrest⟩
  · refine (related_query hgraph i).bind fun r r' hr => ?_
    dsimp only
    rw [hr.2]
    split_ifs
    · exact .ok ⟨hr.1, rfl⟩
    · exact .ok ⟨hr.1, rfl⟩

theorem foldl_deleteStmt_graph (l : List ℕ) (st : SortState) (fresh : StmtGraph) :
    l.foldl q.deleteStmt { st with graph := fresh } =
      { l.foldl q.deleteStmt st with graph := fresh } :=
  List.foldl_hom (fun st : SortState => { st with graph := fresh }) fun _ _ => rfl

theorem foldl_outputStmt_graph (l : List ℕ) (st : SortState) (fresh : StmtGraph) :
    l.foldl q.outputStmt { st with graph := fresh } =
      { l.foldl q.outputStmt st with graph := fresh } :=
  List.foldl_hom (fun st : SortState => { st with graph := fresh }) fun _ _ => rfl

theorem related_breakCycle (st : SortState) (fresh : StmtGraph) (h : SameLabels g g') :
    Related SortState.Alike (q.breakCycle st g)
      (q.breakCycle { st with graph := fresh } g') := by
  unfold breakCycle
  refine (Related.forRange (R := SameSearch) ⟨h, rfl⟩ fun i _ s s' hs =>
    related_deleteRound st fresh i hs).bind fun s s' hs => ?_
  have htarget : s'.targetIdx = s.targetIdx := by rw [hs.2]
  rw [htarget]
  split
  · exact .error _
  · refine (related_query hs.1 _).bind fun r r' hr => ?_
    dsimp only
    rw [hr.2]
    refine .ok ⟨?_, ?_⟩
    · rw [graph_foldl_deleteStmt, graph_foldl_deleteStmt]
      exact hr.1
    · rw [graph_foldl_deleteStmt]
      exact foldl_deleteStmt_graph _ { st with graph := r.1, deleteFlag := true } r'.1

theorem related_outputSet (st : SortState) (fresh : StmtGraph) (h : SameLabels g g') (i : ℕ) :
    Related SortState.Alike (q.outputSet st g i)
      (q.outputSet { st with graph := fresh } g' i) := by
  unfold outputSet
  refine (related_query h i).bind fun r r' hr => ?_
  dsimp only
  rw [hr.2]
  refine .ok ⟨?_, ?_⟩
  · rw [graph_foldl_outputStmt, graph_foldl_outputStmt]
    exact hr.1
  · rw [graph_foldl_outputStmt]
    exact foldl_outputStmt_graph _ { st with graph := r.1 } r'.1

/-- A round of the sort looks at labels of the graph and at entries of its copy. -/
theorem related_sortRound {st st' : SortState} (h : st.Alike st') :
    Related SortState.Alike (q.sortRound st) (q.sortRound st') := by
  obtain ⟨hgraph, hrest⟩ := h
  rw [hrest]
  unfold sortRound
  refine (related_findZeroIndegree st q.stmtNum hgraph ∅ st'.graph).bind fun r r' hr => ?_
  dsimp only
  rw [hr.2]
  split
  · exact related_breakCycle st st'.graph hr.1
  · exact related_outputSet st st'.graph hr.1 _

theorem related_sortLoop (fuel : ℕ) {st st' : SortState} (h : st.Alike st') :
    Related SortState.Alike (q.sortLoop fuel st) (q.sortLoop fuel st') := by
  induction fuel generalizing st st' with
  | zero => exact .error _
  | succ fuel ih =>
    have hout : st'.outputted = st.outputted := by rw [h.2]
    have hdel : st'.deleted = st.deleted := by rw [h.2]
    rw [sortLoop, sortLoop, hout, hdel]
    split_ifs
    · exact (related_sortRound h).bind fun _ _ hst => ih hst
    · exact .ok h

theorem Padded.erase (h : q.Padded g g') (a b : StmtId) : q.Padded (g.erase a b) (g'.erase a b) := by
  intro x y
  rw [StmtGraph.erase_eq, StmtGraph.erase_eq]
  split_ifs
  · exact Or.inl rfl
  · exact h x y

theorem Padded.eraseBranches (h : q.Padded g g') (s : StmtId) :
    q.Padded (q.eraseBranches s g) (q.eraseBranches s g') := by
  unfold AnalyzedQueue.eraseBranches
  induction List.range q.stmtNum generalizing g g' with
  | nil => exact h
  | cons j l ih => exact ih ((h.erase _ _).erase _ _)

/-- The purge drops an empty entry. -/
theorem Padded.purgeBranches (h : q.Padded g g') : q.purgeBranches g' = q.purgeBranches g := by
  funext x y
  rcases h x y with heq | ⟨hnone, hsome, i, hi, j, hj, rfl, rfl⟩
  · rw [purgeBranches_eq, purgeBranches_eq, foldl_purge, foldl_purge, heq]
  · rw [purgeBranches_sid q g hi hj, purgeBranches_sid q g' hi hj, hnone, hsome]
    rfl

theorem Padded.foldl_eraseBranches (h : q.Padded g g') (l : List ℕ) :
    q.Padded (l.foldl (fun g i => q.eraseBranches (q.sid i) g) g)
      (l.foldl (fun g i => q.eraseBranches (q.sid i) g) g') := by
  induction l generalizing g g' with
  | nil => exact h
  | cons c l ih => exact ih (h.eraseBranches _)

/-- The copy of a graph with empty entries is the same once it is purged. -/
theorem Padded.sortInit (h : q.Padded g g') (deletedNodes : Finset StmtId) :
    q.sortInit g' deletedNodes = { q.sortInit g deletedNodes with graph := g' } := by
  unfold AnalyzedQueue.sortInit
  rw [foldl_deleteStmt_eq, foldl_deleteStmt_eq]
  dsimp only
  rw [(h.foldl_eraseBranches q.abortedIndices).purgeBranches]

theorem graph_sortInit (q : AnalyzedQueue) (g : StmtGraph) (deletedNodes : Finset StmtId) :
    (q.sortInit g deletedNodes).graph = g := by
  unfold sortInit
  rw [foldl_deleteStmt_eq]

theorem Padded.topologicalSortPath (h : q.Padded g g') (deletedNodes : Finset StmtId) :
    Related SortState.Alike (q.topologicalSortPath g deletedNodes)
      (q.topologicalSortPath g' deletedNodes) := by
  have hinit : (q.sortInit g deletedNodes).Alike (q.sortInit g' deletedNodes) := by
    rw [h.sortInit]
    exact ⟨by rw [graph_sortInit]; exact h.sameLabels, rfl⟩
  unfold AnalyzedQueue.topologicalSortPath
  refine (related_sortLoop _ hinit).bind fun st st' hst => ?_
  have hpath : st'.path = st.path := by rw [hst.2]
  rw [hpath]
  refine Related.bind (R := Eq) (.refl _) fun path _ hp => ?_
  subst hp
  refine Related.bind (R := Eq) (.refl _) fun path _ hp => ?_
  subst hp
  exact .ok ⟨hst.1, by rw [hst.2]⟩

/-! The enumeration. -/

/-- The variables of a level differ in the graph only. -/
def SameLevel (s s' : LevelState) : Prop :=
  SameLabels s.graph s'.graph ∧ s' = { s with graph := s'.graph }

theorem related_levelRound (tmp : StmtGraph)
    {recur : List StmtId → Finset StmtId → StmtGraph → List (List StmtId) →
      Except Failure (StmtGraph × List (List StmtId))}
    (hrecur : ∀ path deleted g g' total, SameLabels g g' →
      Related SameReading (recur path deleted g total) (recur path deleted g' total))
    (i : ℕ) {s s' : LevelState} (h : SameLevel s s') :
    Related SameLevel (q.levelRound tmp recur i s) (q.levelRound tmp recur i s') := by
  obtain ⟨hgraph, hrest⟩ := h
  rw [hrest]
  unfold levelRound
  dsimp only
  split_ifs
  · exact .ok ⟨hgraph, rfl⟩
  · exact .ok ⟨hgraph, rfl⟩
  · refine (related_query hgraph i).bind fun r r' hr => ?_
    rw [hr.2]
    split_ifs
    · exact .ok ⟨hr.1, rfl⟩
    · refine (hrecur _ _ _ _ _ hr.1).bind fun t t' ht => ?_
      rw [ht.2]
      exact .ok ⟨ht.1, rfl⟩

theorem related_recurTopoSort (tmp : StmtGraph) (fuel : ℕ) (path : List StmtId)
    (deleted : Finset StmtId) (total : List (List StmtId)) (h : SameLabels g g') :
    Related SameReading (q.recurTopoSort tmp fuel path deleted g total)
      (q.recurTopoSort tmp fuel path deleted g' total) := by
  induction fuel generalizing path deleted g g' total with
  | zero => exact .error _
  | succ fuel ih =>
    rw [recurTopoSort, recurTopoSort]
    refine (Related.forRange (R := SameLevel) ⟨h, rfl⟩ fun i _ s s' hs =>
      related_levelRound tmp (fun path deleted g g' total hg => ih path deleted total hg)
        i hs).bind fun s s' hs => ?_
    rw [hs.2]
    exact .ok ⟨hs.1, rfl⟩

theorem Padded.foldl_deleteNode (h : q.Padded g g') (l : List ℕ) (nodes : Finset StmtId) :
    (l.foldl q.deleteNode (nodes, g')).1 = (l.foldl q.deleteNode (nodes, g)).1 ∧
      q.Padded (l.foldl q.deleteNode (nodes, g)).2 (l.foldl q.deleteNode (nodes, g')).2 := by
  induction l generalizing nodes g g' with
  | nil => exact ⟨rfl, h⟩
  | cons c l ih => exact ih (h.eraseBranches (q.sid c)) (insert (q.sid c) nodes)

theorem Padded.getAllTopoSortPath (h : q.Padded g g') :
    Related SameReading (q.getAllTopoSortPath g) (q.getAllTopoSortPath g') := by
  unfold AnalyzedQueue.getAllTopoSortPath
  obtain ⟨hnodes, htmp⟩ := h.foldl_deleteNode (q.abortedIndices ++ q.initIndices) ∅
  dsimp only
  rw [hnodes, htmp.purgeBranches]
  refine (h.topologicalSortPath _).bind fun st st' hst => ?_
  have hpath : st'.path = st.path := by rw [hst.2]
  rw [hpath]
  exact related_recurTopoSort _ _ _ _ _ hst.1

/-! Components. -/

/-- An instrument label leads from the first statement to the second. -/
def InstrumentDepend (q : AnalyzedQueue) (g : StmtGraph) (i j : ℕ) : Prop :=
  i < q.stmtNum ∧ j < q.stmtNum ∧ .instrumentDepend ∈ g.labels (q.sid i) (q.sid j)

open Classical in
/-- The statements that instrument labels, read both ways, connect with `i`. -/
noncomputable def component (q : AnalyzedQueue) (g : StmtGraph) (i : ℕ) : Finset ℕ :=
  (Finset.range q.stmtNum).filter (EqvGen (q.InstrumentDepend g) i)

/-- A run of queries: the results, with the graph it leaves. -/
def getInstrumentedStmtSets (q : AnalyzedQueue) :
    StmtGraph → List ℕ → Except Failure (StmtGraph × List (Finset ℕ))
  | g, [] => .ok (g, [])
  | g, queueIdx :: queries => do
    let (g, idxSet) ← q.getInstrumentedStmtSet g queueIdx
    let (g, idxSets) ← q.getInstrumentedStmtSets g queries
    return (g, idxSet :: idxSets)

theorem getInstrumentedStmtSets_padded {queries : List ℕ} (h : q.Padded g g')
    (hqueries : ∀ i ∈ queries, i < q.stmtNum) :
    ∃ g'', q.getInstrumentedStmtSets g' queries = .ok (g'', queries.map (q.stmtSet g)) ∧
      q.Padded g g'' := by
  induction queries generalizing g' with
  | nil => exact ⟨g', rfl, h⟩
  | cons i queries ih =>
    obtain ⟨g₁, hquery, hpad⟩ :=
      getInstrumentedStmtSet_padded g' (hqueries i List.mem_cons_self)
    obtain ⟨g₂, hrest, hpad₂⟩ :=
      ih (h.trans hpad) fun j hj => hqueries j (List.mem_cons_of_mem i hj)
    refine ⟨g₂, ?_, hpad₂⟩
    rw [h.sameLabels.stmtSet_eq] at hquery
    rw [getInstrumentedStmtSets, hquery]
    dsimp only [bind, Except.bind]
    rw [hrest]
    rfl

/-- The groups partition the queue. -/
theorem exists_finpartition (q : AnalyzedQueue) (g : StmtGraph) :
    ∃ P : Finpartition (Finset.range q.stmtNum),
      P.parts = (Finset.range q.stmtNum).image (q.stmtSet g) := by
  refine ⟨.ofExistsUnique ((Finset.range q.stmtNum).image (q.stmtSet g)) ?_ ?_ ?_, rfl⟩
  · intro A hA j hj
    obtain ⟨i, hi, rfl⟩ := Finset.mem_image.1 hA
    exact Finset.mem_range.2 (lt_of_mem_stmtSet (Finset.mem_range.1 hi) hj)
  · intro i hi
    have hin := Finset.mem_range.1 hi
    refine ⟨q.stmtSet g i, ⟨Finset.mem_image_of_mem _ hi, self_mem_stmtSet hin⟩, ?_⟩
    rintro A ⟨hA, hiA⟩
    obtain ⟨j, hj, rfl⟩ := Finset.mem_image.1 hA
    exact (stmtSet_eq (Finset.mem_range.1 hj) hiA).symm
  · intro hempty
    obtain ⟨i, hi, hset⟩ := Finset.mem_image.1 hempty
    exact Finset.ne_empty_of_mem (self_mem_stmtSet (Finset.mem_range.1 hi)) hset

end AnalyzedQueue

open AnalyzedQueue

namespace DependencyAnalyzer

variable {a : DependencyAnalyzer} {g : StmtGraph} {i j : ℕ}

theorem Derived.instrumentDepend_iff (he : a.Explained) (h : a.Derived g) :
    a.queue.InstrumentDepend g i j ↔ a.queue.InstrumentEdge i j := by
  constructor
  · rintro ⟨hi, hj, hlabel⟩
    obtain ⟨i', j', hi', hj', hie, hje, hedge⟩ := he.sound _ _ _ (h.sub _ _ hlabel)
    rw [sid_inj hi hi' hie, sid_inj hj hj' hje]
    exact hedge
  · intro hedge
    obtain ⟨hij, hj⟩ := hedge.lt
    exact ⟨by omega, hj, h.instrument _ _ (he.linked i j hedge)⟩

/-- Instrument labels only lead forwards, so the one orientation the search looks at is
the one there can be. -/
theorem Derived.linked_iff_instrumentDepend (he : a.Explained) (h : a.Derived g) :
    a.queue.Linked g i j ↔
      a.queue.InstrumentDepend g i j ∨ a.queue.InstrumentDepend g j i := by
  rw [h.linked_iff he, h.instrumentDepend_iff he, h.instrumentDepend_iff he]

theorem Derived.sameGroup_iff (he : a.Explained) (h : a.Derived g) :
    a.queue.SameGroup g i j ↔ EqvGen (a.queue.InstrumentDepend g) i j := by
  constructor
  · intro hij
    induction hij with
    | refl => exact .refl i
    | tail _ hlink ih =>
      rcases (h.linked_iff_instrumentDepend he).1 hlink with hlink | hlink
      · exact .trans _ _ _ ih (.rel _ _ hlink)
      · exact .trans _ _ _ ih (.symm _ _ (.rel _ _ hlink))
  · intro hij
    induction hij with
    | rel x y hlink =>
      exact ReflTransGen.single ((h.linked_iff_instrumentDepend he).2 (Or.inl hlink))
    | refl x => exact SameGroup.refl _ _ x
    | symm x y _ ih => exact ih.symm
    | trans x y z _ _ ih ih' => exact ih.trans ih'

theorem Derived.stmtSet_eq_component (he : a.Explained) (h : a.Derived g)
    (hi : i < a.queue.stmtNum) : a.queue.stmtSet g i = a.queue.component g i := by
  ext j
  simp only [component, Finset.mem_filter, Finset.mem_range, mem_stmtSet hi]
  rw [← h.sameGroup_iff he]
  exact ⟨fun hij => ⟨hij.lt hi, hij⟩, fun hij => hij.2⟩

end DependencyAnalyzer

/-- What the callers of `topological_sort_path` get. -/
def SortState.result (st : SortState) : List StmtId × Bool := (st.path, st.deleteFlag)

/-- Queries end with the components of their arguments, which partition the queue, and no
sort notices that they were made. -/
theorem getInstrumentedStmtSets_unnoticed {inp : AnalyzerInput} {a : DependencyAnalyzer}
    (haccept : dependencyAnalyzer inp = .ok a) :
    (∃ P : Finpartition (Finset.range a.queue.stmtNum),
      P.parts = (Finset.range a.queue.stmtNum).image (a.queue.component a.graphs.stmt) ∧
        ∀ A ∈ P.parts, ∀ i ∈ A, ∀ j ∈ A, a.queue.tid i = a.queue.tid j) ∧
    ∀ queries : List ℕ, (∀ i ∈ queries, i < a.queue.stmtNum) → ∃ g,
      a.queue.getInstrumentedStmtSets a.graphs.stmt queries =
          .ok (g, queries.map (a.queue.component a.graphs.stmt)) ∧
        a.queue.Padded a.graphs.stmt g ∧
        (∀ deletedNodes, (a.queue.topologicalSortPath g deletedNodes).map SortState.result =
          (a.queue.topologicalSortPath a.graphs.stmt deletedNodes).map SortState.result) ∧
        (a.queue.getAllTopoSortPath g).map Prod.snd =
          (a.queue.getAllTopoSortPath a.graphs.stmt).map Prod.snd := by
  have he := dependencyAnalyzer_explained haccept
  have hg := DependencyAnalyzer.Derived.refl a
  have hset : ∀ i < a.queue.stmtNum,
      a.queue.stmtSet a.graphs.stmt i = a.queue.component a.graphs.stmt i :=
    fun i hi => hg.stmtSet_eq_component he hi
  constructor
  · obtain ⟨P, hparts⟩ := exists_finpartition a.queue a.graphs.stmt
    refine ⟨P, ?_, fun A hA i hi j hj => ?_⟩
    · rw [hparts]
      exact Finset.image_congr fun i hi => hset i (Finset.mem_range.1 hi)
    · rw [hparts] at hA
      obtain ⟨k, hk, rfl⟩ := Finset.mem_image.1 hA
      have hkn := Finset.mem_range.1 hk
      rw [← hg.tid_eq he ((mem_stmtSet hkn).1 hi), ← hg.tid_eq he ((mem_stmtSet hkn).1 hj)]
  · intro queries hqueries
    obtain ⟨g, hrun, hpad⟩ :=
      getInstrumentedStmtSets_padded (Padded.refl a.queue a.graphs.stmt) hqueries
    refine ⟨g, ?_, hpad, fun deletedNodes => ?_, ?_⟩
    · rw [hrun, List.map_congr_left fun i hi => hset i (hqueries i hi)]
    · refine ((hpad.topologicalSortPath deletedNodes).map_eq fun st st' hst => ?_).symm
      rw [hst.2]
      rfl
    · exact (hpad.getAllTopoSortPath.map_eq fun r r' hr => hr.2.symm).symm

theorem insertThenSelect_unnoticed : ∃ a, dependencyAnalyzer insertThenSelect = .ok a ∧
    (∃ P : Finpartition (Finset.range a.queue.stmtNum),
      P.parts = (Finset.range a.queue.stmtNum).image (a.queue.component a.graphs.stmt) ∧
        ∀ A ∈ P.parts, ∀ i ∈ A, ∀ j ∈ A, a.queue.tid i = a.queue.tid j) ∧
    ∀ queries : List ℕ, (∀ i ∈ queries, i < a.queue.stmtNum) → ∃ g,
      a.queue.getInstrumentedStmtSets a.graphs.stmt queries =
          .ok (g, queries.map (a.queue.component a.graphs.stmt)) ∧
        a.queue.Padded a.graphs.stmt g ∧
        (∀ deletedNodes, (a.queue.topologicalSortPath g deletedNodes).map SortState.result =
          (a.queue.topologicalSortPath a.graphs.stmt deletedNodes).map SortState.result) ∧
        (a.queue.getAllTopoSortPath g).map Prod.snd =
          (a.queue.getAllTopoSortPath a.graphs.stmt).map Prod.snd := by
  obtain ⟨a, ha⟩ : ∃ a, dependencyAnalyzer insertThenSelect = .ok a := ⟨_, by rfl⟩
  exact ⟨a, ha, getInstrumentedStmtSets_unnoticed ha⟩

end DbFuzz
