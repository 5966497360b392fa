import DbFuzz.TxCheck.RoundLoop
import DbFuzz.TxCheck.SortPath

/-! What a round and the rounds before it leave of the first analysis: its instrument
labels, and the nodes that were deleted. -/

namespace DbFuzz

open Loop AnalyzedQueue

/-! A path avoids the deleted nodes. -/

namespace AnalyzedQueue

variable {q : AnalyzedQueue} {g g' g'' : StmtGraph} {given : Finset StmtId} {st st' : SortState}
  {i j : ℕ}

/-- The deleted nodes contain each group whole. -/
def ClosedUnder (q : AnalyzedQueue) (g : StmtGraph) (given : Finset StmtId) : Prop :=
  ∀ i < q.stmtNum, q.sid i ∈ given → ∀ j ∈ q.stmtSet g i, q.sid j ∈ given

/-- What the main loop keeps when the deleted nodes are closed, also when some of them are
no statement of this queue. -/
structure Apart (q : AnalyzedQueue) (g : StmtGraph) (given : Finset StmtId)
    (st : SortState) : Prop where
  same : SameLabels g st.graph
  deleted : given ⊆ st.deleted
  path : ∀ s ∈ st.path, s ∉ given ∧ ∃ i < q.stmtNum, q.sid i = s

theorem Apart.init (q : AnalyzedQueue) (g : StmtGraph) (given : Finset StmtId) :
    q.Apart g given (q.sortInit g given) := by
  have hdel := foldl_deleteStmt q.abortedIndices (fun c hc => (mem_abortedIndices.1 hc).1)
    ⟨g, g, ∅, given, [], false⟩
  refine ⟨?_, fun s hs => (hdel.mem s).2 (Or.inl hs), fun s hs => ?_⟩
  · have hgraph : (q.sortInit g given).graph = g := hdel.graph
    rw [hgraph]
    exact SameLabels.refl g
  · have hpath : (q.sortInit g given).path = [] := hdel.path
    rw [hpath] at hs
    cases hs

theorem Apart.round (hclosed : q.ClosedUnder g given) (h : q.Apart g given st)
    (hleft : ∃ i < q.stmtNum, q.Left st i) (hok : q.sortRound st = .ok st') :
    q.Apart g given st' := by
  obtain ⟨t, st1, hok1, ht, hl, hsame, g1, hcase⟩ := sortRound_spec h.same hleft
  obtain rfl : st1 = st' := Except.ok.inj (hok1.symm.trans hok)
  rcases hcase with ⟨-, hout⟩ | ⟨-, hdel⟩
  · have hdeleted : st1.deleted = st.deleted := hout.deleted
    have hpath : st1.path = st.path ++ (q.indices (q.stmtSet g t)).map q.sid := hout.path
    refine ⟨hsame, fun s hs => hdeleted ▸ h.deleted hs, fun s hs => ?_⟩
    rw [hpath, List.mem_append] at hs
    rcases hs with hs | hs
    · exact h.path s hs
    · obtain ⟨c, hc, rfl⟩ := List.mem_map.1 hs
      obtain ⟨hcn, hct⟩ := mem_indices.1 hc
      refine ⟨fun hgiven => ?_, c, hcn, rfl⟩
      -- the group of a deleted statement is deleted, and `t` is left
      exact hl.2 (h.deleted (hclosed c hcn hgiven t ((mem_stmtSet_comm ht hcn).1 hct)))
  · have hpath : st1.path = st.path := hdel.path
    refine ⟨hsame, fun s hs => (hdel.mem s).2 (Or.inl (h.deleted hs)), ?_⟩
    rw [hpath]
    exact h.path

theorem Apart.loop (hclosed : q.ClosedUnder g given) {fuel : ℕ} (h : q.Apart g given st)
    (hok : q.sortLoop fuel st = .ok st') : q.Apart g given st' := by
  induction fuel generalizing st with
  | zero => cases hok
  | succ fuel ih =>
    rw [sortLoop] at hok
    split at hok
    · next hlt =>
      obtain ⟨st1, hround, hok⟩ := bind_eq_ok_iff.1 hok
      exact ih (h.round hclosed (exists_left hlt) hround) hok
    · cases hok
      exact h

/-- A path has statements of its queue only, and none that was deleted. -/
theorem topologicalSortPath_apart (hclosed : q.ClosedUnder g given)
    (h : q.topologicalSortPath g given = .ok st) :
    ∀ s ∈ st.path, s ∉ given ∧ ∃ i < q.stmtNum, q.sid i = s := by
  obtain ⟨st1, hloop, h⟩ := bind_eq_ok_iff.1 h
  obtain ⟨path, hborder, h⟩ := bind_eq_ok_iff.1 h
  obtain ⟨path', hreplaced, h⟩ := bind_eq_ok_iff.1 h
  cases h
  intro s hs
  exact ((Apart.init q g given).loop hclosed hloop).path s
    (mem_of_eraseInPlace hborder (mem_of_eraseInPlace hreplaced hs))

/-! The deletion of a path. -/

/-- Only labels other than `INSTRUMENT_DEPEND` were removed. -/
structure KeepsInstrument (g g' : StmtGraph) : Prop where
  sub : ∀ a b, g'.labels a b ⊆ g.labels a b
  instrument : ∀ a b, .instrumentDepend ∈ g.labels a b → .instrumentDepend ∈ g'.labels a b

theorem KeepsInstrument.refl (g : StmtGraph) : KeepsInstrument g g :=
  ⟨fun _ _ => Finset.Subset.refl _, fun _ _ h => h⟩

theorem KeepsInstrument.trans (h : KeepsInstrument g g') (h' : KeepsInstrument g' g'') :
    KeepsInstrument g g'' :=
  ⟨fun a b => (h'.sub a b).trans (h.sub a b), fun a b hd => h'.instrument a b (h.instrument a b hd)⟩

theorem SameLabels.keepsInstrument (h : SameLabels g g') : KeepsInstrument g g' :=
  ⟨fun a b => by rw [h], fun a b hd => by rw [h]; exact hd⟩

theorem KeepsInstrument.linked_iff (h : KeepsInstrument g g') :
    q.Linked g' i j ↔ q.Linked g i j :=
  and_congr_right fun _ => and_congr_right fun _ =>
    ⟨fun hd => h.sub _ _ hd, fun hd => h.instrument _ _ hd⟩

/-- Group queries give the same answer. -/
theorem KeepsInstrument.stmtSet_eq (h : KeepsInstrument g g') (hi : i < q.stmtNum) :
    q.stmtSet g' i = q.stmtSet g i := by
  have hlinked : q.Linked g' = q.Linked g := by
    funext x y
    exact propext h.linked_iff
  ext k
  rw [mem_stmtSet hi, mem_stmtSet hi, SameGroup, SameGroup, hlinked]

theorem KeepsInstrument.closedUnder_iff (h : KeepsInstrument g g') :
    q.ClosedUnder g' given ↔ q.ClosedUnder g given := by
  unfold ClosedUnder
  refine forall₂_congr fun i hi => ?_
  rw [h.stmtSet_eq hi]

end AnalyzedQueue

theorem DependencyAnalyzer.Derived.of_keeps {a : DependencyAnalyzer} {g g' : StmtGraph}
    (h : a.Derived g) (hg : KeepsInstrument g g') : a.Derived g' :=
  ⟨fun x y => (hg.sub x y).trans (h.sub x y),
    fun x y hd => hg.instrument x y (h.instrument x y hd)⟩

theorem keepInstrument_keeps (g : StmtGraph) (a b : StmtId) :
    KeepsInstrument g (keepInstrument g a b) := by
  have hlabels : ∀ x y, (keepInstrument g a b).labels x y =
      if x = a ∧ y = b then
        if .instrumentDepend ∈ g.labels a b then {.instrumentDepend} else ∅
      else g.labels x y := by
    intro x y
    unfold keepInstrument StmtGraph.erase StmtGraph.set
    by_cases hxy : x = a ∧ y = b
    · rw [if_pos hxy]
      split <;> simp [StmtGraph.labels, hxy]
    · rw [if_neg hxy]
      split <;> simp [StmtGraph.labels, hxy]
  constructor
  · intro x y
    rw [hlabels]
    split_ifs with hxy hd
    · rw [hxy.1, hxy.2]
      exact Finset.singleton_subset_iff.2 hd
    · exact Finset.empty_subset _
    · exact Finset.Subset.refl _
  · intro x y hd
    rw [hlabels]
    split_ifs with hxy hd'
    · exact Finset.mem_singleton_self _
    · rw [hxy.1, hxy.2] at hd
      exact absurd hd hd'
    · exact hd

theorem deleteBranches_keeps (q : AnalyzedQueue) (s : StmtId) (g : StmtGraph) :
    KeepsInstrument g (deleteBranches q s g) := by
  unfold deleteBranches
  generalize List.range q.stmtNum = l
  induction l generalizing g with
  | nil => exact KeepsInstrument.refl g
  | cons j l ih =>
    exact ((keepInstrument_keeps g _ _).trans (keepInstrument_keeps _ _ _)).trans (ih _)

theorem foldl_deleteBranches (q : AnalyzedQueue) (l : List ℕ) (g : StmtGraph)
    (deletedNodes : Finset StmtId) :
    let r := l.foldl (fun r i => (deleteBranches q (q.sid i) r.1, insert (q.sid i) r.2))
      (g, deletedNodes)
    KeepsInstrument g r.1 ∧ ∀ x, x ∈ r.2 ↔ x ∈ deletedNodes ∨ x ∈ l.map q.sid := by
  induction l generalizing g deletedNodes with
  | nil => exact ⟨KeepsInstrument.refl g, by simp⟩
  | cons i l ih =>
    obtain ⟨hkeeps, hmem⟩ := ih (deleteBranches q (q.sid i) g) (insert (q.sid i) deletedNodes)
    refine ⟨(deleteBranches_keeps q (q.sid i) g).trans hkeeps, fun x => ?_⟩
    rw [List.foldl_cons, hmem, Finset.mem_insert, List.map_cons, List.mem_cons]
    tauto

/-- The deletion of a statement of the path takes its whole group. -/
theorem deletePathStmt_spec {q : AnalyzedQueue} {s : StmtId} {r r' : StmtGraph × Finset StmtId}
    (h : deletePathStmt q s r = .ok r') : KeepsInstrument r.1 r'.1 ∧
      ∃ i < q.stmtNum, q.sid i = s ∧
        ∀ x, x ∈ r'.2 ↔ x ∈ r.2 ∨ x ∈ q.groupIds (q.stmtSet r.1 i) := by
  unfold deletePathStmt at h
  split at h
  · cases h
  · next i htransfer =>
    obtain ⟨hi, hsid⟩ := ofQueue_of_transfer htransfer
    obtain ⟨g, hquery, hsame⟩ := getInstrumentedStmtSet_eq (SameLabels.refl r.1) hi
    rw [hquery] at h
    cases h
    obtain ⟨hkeeps, hmem⟩ := foldl_deleteBranches q (q.indices (q.stmtSet r.1 i)) g r.2
    exact ⟨hsame.keepsInstrument.trans hkeeps, i, hi, hsid, hmem⟩

theorem forEach_deletePathStmt {q : AnalyzedQueue} {path : List StmtId}
    {r r' : StmtGraph × Finset StmtId} (h : forEach path (deletePathStmt q) r = .ok r') :
    KeepsInstrument r.1 r'.1 ∧ (∀ s ∈ path, ∃ i < q.stmtNum, q.sid i = s) ∧
      ∀ x, x ∈ r'.2 ↔ x ∈ r.2 ∨
        ∃ i < q.stmtNum, q.sid i ∈ path ∧ x ∈ q.groupIds (q.stmtSet r.1 i) := by
  induction path generalizing r with
  | nil =>
    cases h
    exact ⟨KeepsInstrument.refl _, by simp, by simp⟩
  | cons s path ih =>
    obtain ⟨r1, hs, hrest⟩ := bind_eq_ok_iff.1 h
    obtain ⟨hkeeps, i, hi, rfl, hmem⟩ := deletePathStmt_spec hs
    obtain ⟨hkeeps', hids, hmem'⟩ := ih hrest
    refine ⟨hkeeps.trans hkeeps', List.forall_mem_cons.2 ⟨⟨i, hi, rfl⟩, hids⟩, fun x => ?_⟩
    rw [hmem', hmem, or_assoc]
    refine or_congr Iff.rfl ⟨?_, ?_⟩
    · rintro (hx | ⟨j, hj, hpath, hx⟩)
      · exact ⟨i, hi, List.mem_cons_self, hx⟩
      · exact ⟨j, hj, List.mem_cons_of_mem _ hpath, hkeeps.stmtSet_eq hj ▸ hx⟩
    · rintro ⟨j, hj, hpath, hx⟩
      rcases List.mem_cons.1 hpath with heq | hpath
      · exact Or.inl (by rwa [← sid_inj hj hi heq])
      · exact Or.inr ⟨j, hj, hpath, by rwa [hkeeps.stmtSet_eq hj]⟩

end DbFuzz
