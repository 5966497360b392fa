import DbFuzz.Lib.Worklist
import DbFuzz.TxCheck.Edges

/-! Instrument groups: a statement with the reads placed around it. The query of
`get_instrumented_stmt_set` is a search along instrument labels, and what it leaves in
the graph is empty. -/

namespace DbFuzz

open Relation Loop

namespace AnalyzedQueue

/-- The pair whose labels link two indices: the earlier statement first. -/
def instrumentPair (q : AnalyzedQueue) (selectIdx i : ℕ) : StmtId × StmtId :=
  if i < selectIdx then (q.sid i, q.sid selectIdx) else (q.sid selectIdx, q.sid i)

/-- One round of the inner loop. -/
def groupVisit (q : AnalyzedQueue) (selectIdx : ℕ) (processed : Finset ℕ)
    (s : StmtGraph × Finset ℕ) (i : ℕ) : StmtGraph × Finset ℕ :=
  if i ∈ processed then s
  else
    let p := q.instrumentPair selectIdx i
    (s.1.touch p.1 p.2,
      if .instrumentDepend ∈ s.1.labels p.1 p.2 then insert i s.2 else s.2)

/-- The inner loop, with the indices it adds. -/
def groupExpand (q : AnalyzedQueue) (selectIdx : ℕ) (processed : Finset ℕ) (g : StmtGraph) :
    StmtGraph × Finset ℕ :=
  (List.range q.stmtNum).foldl (q.groupVisit selectIdx processed) (g, ∅)

/-- `get_instrumented_stmt_set`, with the graph it leaves. -/
def getInstrumentedStmtSet (q : AnalyzedQueue) (g : StmtGraph) (queueIdx : ℕ) :
    Except Failure (StmtGraph × Finset ℕ) :=
  match Worklist.search q.groupExpand (q.stmtNum + 2) g {queueIdx} ∅ with
  | some r => .ok r
  | none => .error .outOfFuel

/-- Two indices below `stmt_num` with an instrument label between them. -/
def Linked (q : AnalyzedQueue) (g : StmtGraph) (i j : ℕ) : Prop :=
  i < q.stmtNum ∧ j < q.stmtNum ∧
    .instrumentDepend ∈ g.labels (q.instrumentPair i j).1 (q.instrumentPair i j).2

/-- The indices a group query returns. -/
def SameGroup (q : AnalyzedQueue) (g : StmtGraph) : ℕ → ℕ → Prop := ReflTransGen (q.Linked g)

/-- The graphs agree on every label. -/
def SameLabels (g g' : StmtGraph) : Prop := ∀ a b, g'.labels a b = g.labels a b

variable {q : AnalyzedQueue} {g g' g'' : StmtGraph} {i j : ℕ}

theorem SameLabels.refl (g : StmtGraph) : SameLabels g g := fun _ _ => rfl

theorem SameLabels.trans (h : SameLabels g g') (h' : SameLabels g' g'') : SameLabels g g'' :=
  fun a b => (h' a b).trans (h a b)

theorem instrumentPair_comm (q : AnalyzedQueue) (i j : ℕ) :
    q.instrumentPair i j = q.instrumentPair j i := by
  unfold instrumentPair
  rcases Nat.lt_trichotomy i j with h | rfl | h
  · rw [if_neg (by omega), if_pos h]
  · rfl
  · rw [if_pos h, if_neg (by omega)]

theorem Linked.symm (h : q.Linked g i j) : q.Linked g j i :=
  ⟨h.2.1, h.1, instrumentPair_comm q i j ▸ h.2.2⟩

theorem SameGroup.refl (q : AnalyzedQueue) (g : StmtGraph) (i : ℕ) : q.SameGroup g i i :=
  ReflTransGen.refl

theorem SameGroup.symm (h : q.SameGroup g i j) : q.SameGroup g j i := by
  induction h with
  | refl => exact SameGroup.refl q g i
  | tail _ hbc ih => exact ReflTransGen.head hbc.symm ih

theorem SameGroup.trans {k : ℕ} (h : q.SameGroup g i j) (h' : q.SameGroup g j k) :
    q.SameGroup g i k := ReflTransGen.trans h h'

theorem SameGroup.lt (h : q.SameGroup g i j) (hi : i < q.stmtNum) : j < q.stmtNum := by
  induction h with
  | refl => exact hi
  | tail _ hbc _ => exact hbc.2.1

theorem linked_of_sameLabels (h : SameLabels g g') : q.Linked g' = q.Linked g := by
  funext i j
  unfold Linked
  rw [h]

theorem sameLabels_touch (g : StmtGraph) (a b : StmtId) : SameLabels g (g.touch a b) :=
  fun x y => StmtGraph.labels_touch g a b x y

theorem sameLabels_groupVisit (q : AnalyzedQueue) (a : ℕ) (done : Finset ℕ)
    (s : StmtGraph × Finset ℕ) (i : ℕ) : SameLabels s.1 (q.groupVisit a done s i).1 := by
  unfold groupVisit
  split
  · exact SameLabels.refl _
  · exact sameLabels_touch _ _ _

theorem mem_groupVisit (q : AnalyzedQueue) (a : ℕ) (done : Finset ℕ) (s : StmtGraph × Finset ℕ)
    (i b : ℕ) : b ∈ (q.groupVisit a done s i).2 ↔ b ∈ s.2 ∨ b = i ∧ b ∉ done ∧
      .instrumentDepend ∈ s.1.labels (q.instrumentPair a b).1 (q.instrumentPair a b).2 := by
  unfold groupVisit
  split
  · next hi =>
    constructor
    · exact Or.inl
    · rintro (hb | ⟨rfl, hb, -⟩)
      · exact hb
      · exact absurd hi hb
  · next hi =>
    dsimp only
    split
    · next hl =>
      rw [Finset.mem_insert]
      constructor
      · rintro (rfl | hb)
        · exact Or.inr ⟨rfl, hi, hl⟩
        · exact Or.inl hb
      · rintro (hb | ⟨rfl, -, -⟩)
        · exact Or.inr hb
        · exact Or.inl rfl
    · next hl =>
      constructor
      · exact Or.inl
      · rintro (hb | ⟨rfl, -, hb⟩)
        · exact hb
        · exact absurd hb hl

/-- The inner loop only reads labels, and finds the linked indices. -/
theorem foldl_groupVisit (q : AnalyzedQueue) (a : ℕ) (done : Finset ℕ) (g : StmtGraph) (k : ℕ) :
    let s := (List.range k).foldl (q.groupVisit a done) (g, ∅)
    SameLabels g s.1 ∧ ∀ b, b ∈ s.2 ↔ b < k ∧ b ∉ done ∧
      .instrumentDepend ∈ g.labels (q.instrumentPair a b).1 (q.instrumentPair a b).2 := by
  induction k with
  | zero => exact ⟨SameLabels.refl g, by simp⟩
  | succ k ih =>
    rw [List.range_succ, List.foldl_append, List.foldl_cons, List.foldl_nil]
    refine ⟨ih.1.trans (sameLabels_groupVisit q a done _ k), fun b => ?_⟩
    rw [mem_groupVisit, ih.2, ih.1]
    constructor
    · rintro (⟨hb, h⟩ | ⟨rfl, h⟩)
      · exact ⟨by omega, h⟩
      · exact ⟨by omega, h⟩
    · rintro ⟨hb, h⟩
      rcases Nat.lt_succ_iff_lt_or_eq.1 hb with hb | rfl
      · exact Or.inl ⟨hb, h⟩
      · exact Or.inr ⟨rfl, h⟩

/-- The group query ends, returns the group, and leaves every label as it is. -/
theorem getInstrumentedStmtSet_spec (g : StmtGraph) (hi : i < q.stmtNum) :
    ∃ g' group, q.getInstrumentedStmtSet g i = .ok (g', group) ∧ SameLabels g g' ∧
      ∀ j, j ∈ group ↔ q.SameGroup g i j := by
  have hkeep : ∀ a < q.stmtNum, ∀ done s, SameLabels g s →
      SameLabels g (q.groupExpand a done s).1 :=
    fun a _ done s hs => hs.trans (foldl_groupVisit q a done s q.stmtNum).1
  have hfound : ∀ a < q.stmtNum, ∀ done s, SameLabels g s →
      ∀ b, b ∈ (q.groupExpand a done s).2 ↔ b ∉ done ∧ q.Linked g a b := by
    intro a ha done s hs b
    rw [groupExpand, (foldl_groupVisit q a done s q.stmtNum).2, hs]
    constructor
    · rintro ⟨hb, hdone, hl⟩; exact ⟨hdone, ha, hb, hl⟩
    · rintro ⟨hdone, -, hb, hl⟩; exact ⟨hb, hdone, hl⟩
  have hfuel : q.stmtNum < q.stmtNum + 2 + (∅ : Finset ℕ).card := by simp
  obtain ⟨g', group, hsearch, hkeep, hmem⟩ := Worklist.search_spec (fun a b h => h.2.1) hkeep hfound
    (Worklist.Searching.init _ hi) (SameLabels.refl g) hfuel
  refine ⟨g', group, ?_, hkeep, hmem⟩
  rw [getInstrumentedStmtSet, hsearch]

/-- A group query only reads labels, also from an index outside the queue. -/
theorem getInstrumentedStmtSet_sameLabels {queueIdx : ℕ} {r : StmtGraph × Finset ℕ}
    (h : q.getInstrumentedStmtSet g queueIdx = .ok r) : SameLabels g r.1 := by
  unfold getInstrumentedStmtSet at h
  split at h
  · next result hsearch =>
    cases h
    have hkeep : ∀ a done s, SameLabels g s → SameLabels g (q.groupExpand a done s).1 :=
      fun a done s hs => hs.trans (foldl_groupVisit q a done s q.stmtNum).1
    exact Worklist.search_keep hkeep (SameLabels.refl g) hsearch
  · cases h

/-- A query ends, also from an index outside the queue. -/
theorem getInstrumentedStmtSet_ne_outOfFuel (q : AnalyzedQueue) (g : StmtGraph) (queueIdx : ℕ) :
    q.getInstrumentedStmtSet g queueIdx ≠ .error .outOfFuel := by
  have hfound : ∀ a done s, ∀ b ∈ (q.groupExpand a done s).2,
      b ∉ done ∧ b ∈ insert queueIdx (Finset.range q.stmtNum) := by
    intro a done s b hb
    rw [groupExpand, (foldl_groupVisit q a done s q.stmtNum).2] at hb
    exact ⟨hb.2.1, Finset.mem_insert_of_mem (Finset.mem_range.2 hb.1)⟩
  have hcard := Finset.card_insert_le queueIdx (Finset.range q.stmtNum)
  rw [Finset.card_range] at hcard
  have hends : Worklist.search q.groupExpand (q.stmtNum + 2) g {queueIdx} ∅ ≠ none :=
    Worklist.search_ends hfound (by simp) (by simp) (by rw [Finset.card_empty]; omega)
  unfold getInstrumentedStmtSet
  split
  · simp
  · next hnone => exact absurd hnone hends

/-- The index of the query is in the set. -/
theorem mem_getInstrumentedStmtSet {queueIdx : ℕ} {r : StmtGraph × Finset ℕ}
    (h : q.getInstrumentedStmtSet g queueIdx = .ok r) : queueIdx ∈ r.2 := by
  unfold getInstrumentedStmtSet at h
  split at h
  · next result hsearch =>
    cases h
    exact Worklist.subset_search hsearch (by simp)
  · cases h

/-- The set a group query returns. -/
def stmtSet (q : AnalyzedQueue) (g : StmtGraph) (i : ℕ) : Finset ℕ :=
  match q.getInstrumentedStmtSet g i with
  | .ok r => r.2
  | .error _ => ∅

/-- A group query only looks at labels. -/
theorem SameLabels.stmtSet_eq (h : SameLabels g g') (queueIdx : ℕ) :
    q.stmtSet g' queueIdx = q.stmtSet g queueIdx := by
  have hexpand : ∀ a done s t, SameLabels s t →
      (q.groupExpand a done s).2 = (q.groupExpand a done t).2 ∧
        SameLabels (q.groupExpand a done s).1 (q.groupExpand a done t).1 := by
    intro a done s t hst
    obtain ⟨hs, hmems⟩ := foldl_groupVisit q a done s q.stmtNum
    obtain ⟨ht, hmemt⟩ := foldl_groupVisit q a done t q.stmtNum
    refine ⟨Finset.ext fun b => ?_, fun x y => ?_⟩
    · rw [groupExpand, groupExpand, hmems, hmemt, hst]
    · exact (ht x y).trans ((hst x y).trans (hs x y).symm)
  have hsearch := Worklist.search_congr hexpand (q.stmtNum + 2) h {queueIdx} ∅
  unfold stmtSet getInstrumentedStmtSet
  revert hsearch
  cases Worklist.search q.groupExpand (q.stmtNum + 2) g {queueIdx} ∅ <;>
    cases Worklist.search q.groupExpand (q.stmtNum + 2) g' {queueIdx} ∅ <;> simp [eq_comm]

theorem mem_stmtSet (hi : i < q.stmtNum) : j ∈ q.stmtSet g i ↔ q.SameGroup g i j := by
  obtain ⟨g', group, hok, -, hmem⟩ := getInstrumentedStmtSet_spec g hi
  rw [stmtSet, hok]
  exact hmem j

theorem getInstrumentedStmtSet_eq (hg : SameLabels g g') (hi : i < q.stmtNum) :
    ∃ g'', q.getInstrumentedStmtSet g' i = .ok (g'', q.stmtSet g i) ∧ SameLabels g g'' := by
  obtain ⟨g'', group, hok, hsame, hmem⟩ := getInstrumentedStmtSet_spec g' hi
  refine ⟨g'', ?_, hg.trans hsame⟩
  have : group = q.stmtSet g i := by
    ext j
    rw [hmem, mem_stmtSet hi, SameGroup, SameGroup, linked_of_sameLabels hg]
  rw [hok, this]

theorem InstrumentEdge.lt (h : q.InstrumentEdge i j) : i < j ∧ j < q.stmtNum := by
  cases h with
  | before _ hlt => exact ⟨by omega, hlt⟩
  | after _ hlt => exact ⟨by omega, hlt⟩
  | versionSet _ hj => exact ⟨hj.1, hj.2.1⟩

/-- Where the instrument labels are the instrument edges, so are the links. -/
theorem linked_iff_edge (hlabel : ∀ x y, x < q.stmtNum → y < q.stmtNum →
      (.instrumentDepend ∈ g.labels (q.sid x) (q.sid y) ↔ q.InstrumentEdge x y)) :
    q.Linked g i j ↔ q.InstrumentEdge i j ∨ q.InstrumentEdge j i := by
  unfold Linked instrumentPair
  constructor
  · rintro ⟨hi, hj, hd⟩
    split_ifs at hd
    · exact Or.inr ((hlabel _ _ hj hi).1 hd)
    · exact Or.inl ((hlabel _ _ hi hj).1 hd)
  · rintro (hd | hd)
    · obtain ⟨h1, h2⟩ := hd.lt
      refine ⟨by omega, h2, ?_⟩
      rw [if_neg (by omega)]
      exact (hlabel _ _ (by omega) h2).2 hd
    · obtain ⟨h1, h2⟩ := hd.lt
      refine ⟨h2, by omega, ?_⟩
      rw [if_pos h1]
      exact (hlabel _ _ (by omega) h2).2 hd

/-! Groups form a partition. -/

theorem self_mem_stmtSet (hi : i < q.stmtNum) : i ∈ q.stmtSet g i :=
  (mem_stmtSet hi).2 (SameGroup.refl q g i)

theorem lt_of_mem_stmtSet (hi : i < q.stmtNum) (hj : j ∈ q.stmtSet g i) : j < q.stmtNum :=
  ((mem_stmtSet hi).1 hj).lt hi

theorem mem_stmtSet_comm (hi : i < q.stmtNum) (hj : j < q.stmtNum) :
    j ∈ q.stmtSet g i ↔ i ∈ q.stmtSet g j := by
  rw [mem_stmtSet hi, mem_stmtSet hj]
  exact ⟨SameGroup.symm, SameGroup.symm⟩

theorem stmtSet_eq (hi : i < q.stmtNum) (hj : j ∈ q.stmtSet g i) :
    q.stmtSet g j = q.stmtSet g i := by
  have hjn := lt_of_mem_stmtSet hi hj
  have hij := (mem_stmtSet hi).1 hj
  ext k
  rw [mem_stmtSet hi, mem_stmtSet hjn]
  exact ⟨hij.trans, hij.symm.trans⟩

end AnalyzedQueue

/-! Groups of an accepted history. -/

/-- A graph the callers may hold: the constructed one after group queries and after
edges other than instrument ones were removed. -/
structure DependencyAnalyzer.Derived (a : DependencyAnalyzer) (g : StmtGraph) : Prop where
  sub : ∀ x y, g.labels x y ⊆ a.graphs.stmt.labels x y
  instrument : ∀ x y, .instrumentDepend ∈ a.graphs.stmt.labels x y →
    .instrumentDepend ∈ g.labels x y

namespace DependencyAnalyzer

open AnalyzedQueue

variable {a : DependencyAnalyzer} {g g' : StmtGraph} {i j : ℕ}

theorem Derived.refl (a : DependencyAnalyzer) : a.Derived a.graphs.stmt :=
  ⟨fun _ _ => Finset.Subset.refl _, fun _ _ h => h⟩

theorem Derived.of_sameLabels (h : a.Derived g) (hg : SameLabels g g') : a.Derived g' :=
  ⟨fun x y => (hg x y).symm ▸ h.sub x y, fun x y hi => by rw [hg]; exact h.instrument x y hi⟩

/-- Linked statements are joined by an instrument edge in queue order. -/
theorem Derived.linked_iff (he : a.Explained) (h : a.Derived g) :
    a.queue.Linked g i j ↔ a.queue.InstrumentEdge i j ∨ a.queue.InstrumentEdge j i := by
  refine linked_iff_edge fun x y hx hy => ⟨fun hd => ?_, fun hd =>
    h.instrument _ _ (he.linked x y hd)⟩
  obtain ⟨x', y', hx', hy', hxe, hye, hj⟩ := he.sound _ _ _ (h.sub _ _ hd)
  rw [sid_inj hx hx' hxe, sid_inj hy hy' hye]
  exact hj

end DependencyAnalyzer

namespace AnalyzedQueue

variable {q : AnalyzedQueue} {i j : ℕ}

theorem InstrumentEdge.tid_eq (h : q.InstrumentEdge i j) : q.tid i = q.tid j := by
  cases h with
  | before _ _ htid => exact htid.symm
  | after _ _ htid => exact htid
  | versionSet _ hj htid => exact (htid j hj.1 le_rfl).symm

/-- Control statements take no part in an instrument edge. -/
theorem InstrumentEdge.ne_init (h : q.InstrumentEdge i j) :
    (q.usage i).stmtType ≠ .initType ∧ (q.usage j).stmtType ≠ .initType := by
  cases h with
  | before hi _ _ hnext =>
    refine ⟨by rw [hi]; decide, ?_⟩
    rcases hnext with h | h <;> rw [h] <;> decide
  | after hi _ _ hprev =>
    refine ⟨?_, by rw [hi]; decide⟩
    rcases hprev with h | h <;> rw [h] <;> decide
  | versionSet hi hj =>
    refine ⟨by rw [hi]; decide, fun hinit => ?_⟩
    have := hj.2.2.1
    rw [hinit] at this
    cases this

end AnalyzedQueue

namespace DependencyAnalyzer

open AnalyzedQueue

variable {a : DependencyAnalyzer} {g : StmtGraph} {i j : ℕ}

theorem Derived.tid_eq (he : a.Explained) (h : a.Derived g) (hij : a.queue.SameGroup g i j) :
    a.queue.tid i = a.queue.tid j := by
  induction hij with
  | refl => rfl
  | tail _ hbc ih =>
    rcases (h.linked_iff he).1 hbc with hbc | hbc
    · exact ih.trans hbc.tid_eq
    · exact ih.trans hbc.tid_eq.symm

theorem Derived.eq_of_init (he : a.Explained) (h : a.Derived g) (hij : a.queue.SameGroup g i j)
    (hinit : (a.queue.usage i).stmtType = .initType) : j = i := by
  induction hij with
  | refl => rfl
  | tail _ hbc ih =>
    subst ih
    rcases (h.linked_iff he).1 hbc with hbc | hbc
    · exact absurd hinit hbc.ne_init.1
    · exact absurd hinit hbc.ne_init.2

end DependencyAnalyzer

end DbFuzz
