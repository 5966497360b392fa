import DbFuzz.TxCheck.RowEdges
import Mathlib.Order.Defs.Unbundled

/-! Which way the edges of the two graphs point. In the statement graph only the edges of
`build_RW_dependency`, `build_VS_dependency` and `build_OW_dependency` can go back in the
queue; in the transaction graph the start dependencies are an order of intervals. -/

namespace DbFuzz

open Loop Relation

/-- The types whose edges follow the queue. -/
def DependencyType.FollowsQueue : DependencyType → Prop
  | .writeRead | .writeWrite | .startDepend | .strictStartDepend | .instrumentDepend
  | .innerDepend => True
  | .readWrite | .versionSetDepend | .overwriteDepend => False

namespace AnalyzedQueue

variable {q : AnalyzedQueue} {g g' : Graphs}

/-! Start dependencies. -/

/-- The labels of one comparison of `build_start_dependency`. -/
def StartLabel (q : AnalyzedQueue) (t u : ℕ) (dt : DependencyType) (l : Label) : Prop :=
  l = .txn t u dt ∨ ∃ i < q.stmtNum, q.tid i = t ∧ ∃ j < q.stmtNum, i < j ∧ q.tid j = u ∧
    l = .stmt (q.sid i) (q.sid j) dt

theorem buildStmtStartDependency_adds {t u : ℕ} {dt : DependencyType}
    (h : q.buildStmtStartDependency t u dt g = .ok g') :
    Adds Graphs.HasLabel g g' fun l => ∃ i < q.stmtNum, q.tid i = t ∧ ∃ j < q.stmtNum, i < j ∧
      q.tid j = u ∧ l = .stmt (q.sid i) (q.sid j) dt := by
  refine forRange_adds (fun i _ s s' hs => ?_) h
  split_ifs at hs with htid
  · cases hs
    exact (Adds.refl _ s).congr fun l => by simp [htid]
  · have hround : ∀ j < q.stmtNum, ∀ r r',
        (if j ≤ i ∨ q.tid j ≠ u then Except.ok r else .ok (q.buildStmtDepend i j dt r)) =
          (.ok r' : Except Failure _) → Adds Graphs.HasLabel r r' fun l =>
            i < j ∧ q.tid j = u ∧ l = .stmt (q.sid i) (q.sid j) dt := by
      intro j _ r r' hr
      split_ifs at hr with hskip
      · cases hr
        refine (Adds.refl _ r).congr fun l => iff_of_false id ?_
        rintro ⟨hij, hu, -⟩
        rcases hskip with hle | hne
        · omega
        · exact hne hu
      · cases hr
        rw [not_or, not_le, not_not] at hskip
        exact (addStmt_adds r _ _ _).congr fun l => by simp [hskip.1, hskip.2]
    rw [not_not] at htid
    exact (forRange_adds hround hs).congr fun l => by simp only [htid, true_and]

theorem startRound_adds {t u : ℕ} {dt : DependencyType} {later : Bool}
    (h : q.startRound t u dt later g = .ok g') :
    Adds Graphs.HasLabel g g' fun l => later = true ∧ q.StartLabel t u dt l := by
  unfold startRound at h
  split_ifs at h with hlater
  · exact ((addTxn_adds g t u dt).trans (buildStmtStartDependency_adds h)).congr fun l => by
      simp only [hlater, true_and, StartLabel]
  · cases h
    exact (Adds.refl _ g).congr fun l => by simp [hlater]

theorem buildStartDependency_adds (h : q.buildStartDependency g = .ok g') :
    Adds Graphs.HasLabel g g' fun l => ∃ t < q.tidNum, ∃ u < q.tidNum, t ≠ u ∧
      (q.spans.endIdx t < q.spans.beginIdx u ∧ q.StartLabel t u .startDepend l ∨
        q.spans.endIdx t < q.spans.strictBeginIdx u ∧ q.StartLabel t u .strictStartDepend l) := by
  refine forRange_adds (fun t _ s s' hs => forRange_adds (fun u _ r r' hr => ?_) hs) h
  split_ifs at hr with heq
  · cases hr
    exact (Adds.refl _ r).congr fun l => by simp [heq]
  · obtain ⟨r1, h1, h2⟩ := bind_eq_ok_iff.1 hr
    refine ((startRound_adds h1).trans (startRound_adds h2)).congr fun l => ?_
    simp only [decide_eq_true_eq, ne_eq, heq, not_false_eq_true, true_and]

/-! Spans. -/

/-- The spans of the transaction `t` after `n` statements, by how many of them are its own. -/
inductive SpanAt (sp : TxnSpans) (n t : ℕ) : ℕ → Prop
  | unused (hused : sp.hasUsedBegin t = false) (hbegin : sp.beginIdx t = -1)
      (hend : sp.endIdx t = -1) : SpanAt sp n t 0
  | started (hused : sp.hasUsedBegin t = true) (hstrict : sp.strictBeginIdx t < n)
      (hbegin : sp.beginIdx t = -1) (hend : sp.endIdx t = -1) : SpanAt sp n t 1
  | running {k : ℕ} (hused : sp.hasUsedBegin t = true)
      (hstrict : sp.strictBeginIdx t < sp.beginIdx t) (hbegin : 0 ≤ sp.beginIdx t)
      (hend : sp.beginIdx t ≤ sp.endIdx t) (hlt : sp.endIdx t < n) : SpanAt sp n t (k + 2)

theorem SpanAt.visit_self {sp : TxnSpans} {n t k : ℕ} (h : SpanAt sp n t k) :
    SpanAt (sp.visit t n) (n + 1) t (k + 1) := by
  cases h with
  | unused hused hbegin hend =>
    have hvisit : (sp.visit t n).strictBeginIdx t = n := by simp [TxnSpans.visit, hused]
    refine .started ?_ (by rw [hvisit]; omega) ?_ ?_ <;> simp [TxnSpans.visit, hused, hbegin, hend]
  | started hused hstrict hbegin hend =>
    refine .running ?_ ?_ ?_ ?_ ?_ <;> simp [TxnSpans.visit, hused, hbegin, hend] <;> omega
  | running hused hstrict hbegin hend hlt =>
    have hset : sp.beginIdx t ≠ -1 := by omega
    refine .running ?_ ?_ ?_ ?_ ?_ <;> simp [TxnSpans.visit, hused, hset, hlt] <;> omega

theorem SpanAt.visit_other {sp : TxnSpans} {n t u k : ℕ} (h : SpanAt sp n t k) (hne : t ≠ u) :
    SpanAt (sp.visit u n) (n + 1) t k := by
  have hsame : (sp.visit u n).hasUsedBegin t = sp.hasUsedBegin t ∧
      (sp.visit u n).strictBeginIdx t = sp.strictBeginIdx t ∧
      (sp.visit u n).beginIdx t = sp.beginIdx t ∧ (sp.visit u n).endIdx t = sp.endIdx t := by
    unfold TxnSpans.visit
    split_ifs <;> simp [hne]
  obtain ⟨h1, h2, h3, h4⟩ := hsame
  cases h with
  | unused hused hbegin hend => exact .unused (by rw [h1, hused]) (by rw [h3, hbegin]) (by rw [h4, hend])
  | started hused hstrict hbegin hend =>
    exact .started (by rw [h1, hused]) (by rw [h2]; omega) (by rw [h3, hbegin]) (by rw [h4, hend])
  | running hused hstrict hbegin hend hlt =>
    exact .running (by rw [h1, hused]) (by rw [h2, h3]; omega) (by rw [h3]; omega)
      (by rw [h3, h4]; omega) (by rw [h4]; omega)

theorem spanAt_spans (q : AnalyzedQueue) (t : ℕ) : SpanAt q.spans q.stmtNum t (q.txnSize t) := by
  have hfold : ∀ n ≤ q.stmtNum,
      SpanAt ((List.range n).foldl (fun sp i => sp.visit (q.tid i) i) .init) n t
        ((q.fTxnIdQueue.take n).count t) := by
    intro n hn
    induction n with
    | zero => exact .unused rfl rfl rfl
    | succ n ih =>
      have hprev := ih (by omega)
      have htid : q.fTxnIdQueue[n]? = some (q.tid n) := by
        rw [tid, List.getD_eq_getElem?_getD, List.getElem?_eq_getElem hn, Option.getD_some]
      rw [List.range_succ, List.foldl_append, List.take_add_one, htid, List.count_append]
      by_cases hown : q.tid n = t
      · subst hown
        simpa using hprev.visit_self
      · simpa [hown] using hprev.visit_other (Ne.symm hown)
  have h := hfold q.stmtNum le_rfl
  rwa [stmtNum, List.take_length] at h

/-- With two statements and more, a transaction begins twice before it ends. -/
theorem spans_ordered {t : ℕ} (h : 2 ≤ q.txnSize t) :
    q.spans.strictBeginIdx t < q.spans.beginIdx t ∧ q.spans.beginIdx t ≤ q.spans.endIdx t := by
  have hspan := q.spanAt_spans t
  generalize q.txnSize t = k at h hspan
  cases hspan with
  | unused => omega
  | started => omega
  | running hused hstrict hbegin hend hlt => exact ⟨hstrict, hend⟩

end AnalyzedQueue

namespace DependencyAnalyzer

open AnalyzedQueue

variable {inp : AnalyzerInput} {a : DependencyAnalyzer} {g1 g2 g3 g4 g5 : Graphs}

/-- The builders before `build_start_dependency` write no label of the later ones. -/
theorem Run.not_hasLabel_rows (hrun : a.Run inp g1 g2 g3 g4 g5) {l : Label}
    (hrow : ¬ RowType l.type) (hinst : l.type ≠ .instrumentDepend) : ¬ g2.HasLabel l := by
  rw [(built_buildRowDependencies hrun.rows).hasLabel_iff hrow,
    (built_buildStmtInstrumentDependency hrun.instrument).hasLabel_iff hinst]
  cases l <;> simp [Graphs.HasLabel, Graphs.empty, StmtGraph.labels]

theorem Run.startLabel_iff (hrun : a.Run inp g1 g2 g3 g4 g5) {l : Label}
    (hl : l.type = .startDepend ∨ l.type = .strictStartDepend) :
    a.graphs.HasLabel l ↔ ∃ t < a.queue.tidNum, ∃ u < a.queue.tidNum, t ≠ u ∧
      (a.queue.spans.endIdx t < a.queue.spans.beginIdx u ∧ a.queue.StartLabel t u .startDepend l ∨
        a.queue.spans.endIdx t < a.queue.spans.strictBeginIdx u ∧
          a.queue.StartLabel t u .strictStartDepend l) := by
  have hrow : ¬ RowType l.type := by rcases hl with h | h <;> simp [RowType, h]
  have hinst : l.type ≠ .instrumentDepend := by rcases hl with h | h <;> simp [h]
  rw [(built_buildStmtInnerDependency hrun.inner).hasLabel_iff (by rcases hl with h | h <;> simp [h]),
    (built_buildOWDependency hrun.overwrite).hasLabel_iff (by rcases hl with h | h <;> simp [h]),
    (built_buildVSDependency hrun.versionSet).hasLabel_iff (by rcases hl with h | h <;> simp [h]),
    buildStartDependency_adds hrun.start l]
  exact or_iff_right (hrun.not_hasLabel_rows hrow hinst)

theorem Run.innerLabel_iff (hrun : a.Run inp g1 g2 g3 g4 g5) {l : Label}
    (hl : l.type = .innerDepend) : a.graphs.HasLabel l ↔ ∃ i < a.queue.stmtNum, ∃ j < i,
      a.queue.tid j = a.queue.tid i ∧ l = .stmt (a.queue.sid j) (a.queue.sid i) .innerDepend := by
  rw [buildStmtInnerDependency_adds hrun.inner l,
    (built_buildOWDependency hrun.overwrite).hasLabel_iff (by simp [hl]),
    (built_buildVSDependency hrun.versionSet).hasLabel_iff (by simp [hl]),
    (built_buildStartDependency hrun.start).hasLabel_iff (by simp [hl])]
  exact or_iff_right (hrun.not_hasLabel_rows (by simp [RowType, hl]) (by simp [hl]))

/-! The statement graph. -/

/-- A statement of the queue and a later one. -/
def LaterEdge (a : DependencyAnalyzer) (x y : StmtId) : Prop :=
  ∃ i j, i < j ∧ j < a.queue.stmtNum ∧ x = a.queue.sid i ∧ y = a.queue.sid j

theorem Run.laterEdge_of_start (hrun : a.Run inp g1 g2 g3 g4 g5) {x y : StmtId}
    {dt : DependencyType} (hdt : dt = .startDepend ∨ dt = .strictStartDepend)
    (h : dt ∈ a.graphs.stmt.labels x y) : a.LaterEdge x y := by
  have hlabel : ∀ t u dt', a.queue.StartLabel t u dt' (.stmt x y dt) → a.LaterEdge x y := by
    rintro t u dt' (hl | ⟨i, -, -, j, hj, hij, -, hl⟩)
    · cases hl
    · cases hl
      exact ⟨i, j, hij, hj, rfl, rfl⟩
  obtain ⟨t, -, u, -, -, ⟨-, hl⟩ | ⟨-, hl⟩⟩ := (hrun.startLabel_iff (l := .stmt x y dt) hdt).1 h
  · exact hlabel _ _ _ hl
  · exact hlabel _ _ _ hl

theorem Run.laterEdge (hrun : a.Run inp g1 g2 g3 g4 g5) (hexp : a.Explained) {x y : StmtId}
    {dt : DependencyType} (hdt : dt.FollowsQueue) (h : dt ∈ a.graphs.stmt.labels x y) :
    a.LaterEdge x y := by
  obtain ⟨i, j, hi, hj, rfl, rfl, hjust⟩ := hexp.sound x y dt h
  cases dt with
  | writeRead | writeWrite => exact ⟨i, j, WriteEdge.lt hjust, hj, rfl, rfl⟩
  | readWrite | versionSetDepend | overwriteDepend => exact hdt.elim
  | startDepend => exact hrun.laterEdge_of_start (Or.inl rfl) h
  | strictStartDepend => exact hrun.laterEdge_of_start (Or.inr rfl) h
  | instrumentDepend =>
    refine ⟨i, j, ?_, hj, rfl, rfl⟩
    cases hjust with
    | before => omega
    | after => omega
    | versionSet _ hnext => exact hnext.1
  | innerDepend =>
    obtain ⟨k, hk, l, hl, -, heq⟩ :=
      (hrun.innerLabel_iff (l := .stmt (a.queue.sid i) (a.queue.sid j) .innerDepend) rfl).1 h
    injection heq with hx hy
    exact ⟨l, k, hl, hk, hx, hy⟩

/-- A walk along edges to later statements ends later. -/
theorem laterEdge_of_transGen {R : StmtId → StmtId → Prop} (hR : ∀ x y, R x y → a.LaterEdge x y)
    {x y : StmtId} (h : TransGen R x y) : a.LaterEdge x y := by
  induction h with
  | single hxy => exact hR _ _ hxy
  | tail _ hyz ih =>
    obtain ⟨i, j, hij, hj, hx, hy⟩ := ih
    obtain ⟨j', k, hjk, hk, hy', hz⟩ := hR _ _ hyz
    obtain rfl := sid_inj hj (by omega) (hy.symm.trans hy')
    exact ⟨i, k, by omega, hk, hx, hz⟩

theorem not_laterEdge_self (a : DependencyAnalyzer) (x : StmtId) : ¬ a.LaterEdge x x := by
  rintro ⟨i, j, hij, hj, hx, hy⟩
  have := sid_inj (by omega) hj (hx.symm.trans hy)
  omega

/-! The transaction graph. -/

/-- The transactions with a statement behind their first one. -/
def LongTxn (a : DependencyAnalyzer) : Type := {t : ℕ // 2 ≤ a.queue.txnSize t}

def TxnDepends (a : DependencyAnalyzer) (dt : DependencyType) (t u : a.LongTxn) : Prop :=
  dt ∈ a.graphs.txn t.1 u.1

theorem Run.txnDepends_start_iff (hrun : a.Run inp g1 g2 g3 g4 g5) (t u : a.LongTxn) :
    a.TxnDepends .startDepend t u ↔ t.1 < a.queue.tidNum ∧ u.1 < a.queue.tidNum ∧
      a.queue.spans.endIdx t.1 < a.queue.spans.beginIdx u.1 := by
  have hordered := a.queue.spans_ordered t.2
  refine (hrun.startLabel_iff (l := .txn t.1 u.1 .startDepend) (Or.inl rfl)).trans ?_
  simp only [StartLabel, Label.txn.injEq, reduceCtorEq, and_false, exists_const, or_false, and_true]
  constructor
  · rintro ⟨_, ht, _, hu, -, hlt, rfl, rfl⟩
    exact ⟨ht, hu, hlt⟩
  · rintro ⟨ht, hu, hlt⟩
    refine ⟨t.1, ht, u.1, hu, fun heq => ?_, hlt, rfl, rfl⟩
    rw [← heq] at hlt
    omega

theorem Run.txnDepends_strict_iff (hrun : a.Run inp g1 g2 g3 g4 g5) (t u : a.LongTxn) :
    a.TxnDepends .strictStartDepend t u ↔ t.1 < a.queue.tidNum ∧ u.1 < a.queue.tidNum ∧
      a.queue.spans.endIdx t.1 < a.queue.spans.strictBeginIdx u.1 := by
  have hordered := a.queue.spans_ordered t.2
  refine (hrun.startLabel_iff (l := .txn t.1 u.1 .strictStartDepend) (Or.inr rfl)).trans ?_
  simp only [StartLabel, Label.txn.injEq, reduceCtorEq, and_false, exists_const, or_false, false_or,
    and_true]
  constructor
  · rintro ⟨_, ht, _, hu, -, hlt, rfl, rfl⟩
    exact ⟨ht, hu, hlt⟩
  · rintro ⟨ht, hu, hlt⟩
    refine ⟨t.1, ht, u.1, hu, fun heq => ?_, hlt, rfl, rfl⟩
    rw [← heq] at hlt
    omega

/-- Intervals, one ordered before another when it ends before the other's mark. -/
theorem isStrictOrder_of_marks {r : a.LongTxn → a.LongTxn → Prop} {mark : ℕ → ℤ}
    (hmark : ∀ t : a.LongTxn, mark t.1 ≤ a.queue.spans.endIdx t.1)
    (hr : ∀ t u, r t u ↔ t.1 < a.queue.tidNum ∧ u.1 < a.queue.tidNum ∧
      a.queue.spans.endIdx t.1 < mark u.1) : IsStrictOrder a.LongTxn r where
  irrefl t h := by
    have := hmark t
    have := ((hr t t).1 h).2.2
    omega
  trans t u v htu huv := by
    obtain ⟨ht, -, h1⟩ := (hr t u).1 htu
    obtain ⟨-, hv, h2⟩ := (hr u v).1 huv
    have := hmark u
    exact (hr t v).2 ⟨ht, hv, by omega⟩

end DependencyAnalyzer

/-- The labels that follow the queue go to later statements, so a cycle has an edge without
any of them; the two start dependencies are strict orders, one inside the other. -/
theorem dependencyAnalyzer_directions {inp : AnalyzerInput} {a : DependencyAnalyzer}
    (h : dependencyAnalyzer inp = .ok a) :
    (∀ x y dt, dt.FollowsQueue → dt ∈ a.graphs.stmt.labels x y → a.LaterEdge x y) ∧
      (∀ x, ¬ TransGen (fun y z => ∃ dt ∈ a.graphs.stmt.labels y z, dt.FollowsQueue) x x) ∧
      IsStrictOrder a.LongTxn (a.TxnDepends .startDepend) ∧
      IsStrictOrder a.LongTxn (a.TxnDepends .strictStartDepend) ∧
      ∀ t u, a.TxnDepends .strictStartDepend t u → a.TxnDepends .startDepend t u := by
  obtain ⟨g1, g2, g3, g4, g5, hrun⟩ := dependencyAnalyzer_run h
  have hlater : ∀ x y dt, dt.FollowsQueue → dt ∈ a.graphs.stmt.labels x y → a.LaterEdge x y :=
    fun x y dt hdt hmem => hrun.laterEdge (dependencyAnalyzer_explained h) hdt hmem
  have hordered := fun t : a.LongTxn => a.queue.spans_ordered t.2
  refine ⟨hlater, fun x hcycle => ?_, ?_, ?_, fun t u hstrict => ?_⟩
  · refine a.not_laterEdge_self x (DependencyAnalyzer.laterEdge_of_transGen ?_ hcycle)
    rintro y z ⟨dt, hmem, hdt⟩
    exact hlater y z dt hdt hmem
  · exact DependencyAnalyzer.isStrictOrder_of_marks (fun t => (hordered t).2)
      hrun.txnDepends_start_iff
  · exact DependencyAnalyzer.isStrictOrder_of_marks (fun t => by have := hordered t; omega)
      hrun.txnDepends_strict_iff
  · obtain ⟨ht, hu, hlt⟩ := (hrun.txnDepends_strict_iff t u).1 hstrict
    have := hordered u
    exact (hrun.txnDepends_start_iff t u).2 ⟨ht, hu, by omega⟩

theorem insertedRead_directions : ∃ a, dependencyAnalyzer insertedRead = .ok a ∧
    (∀ x y dt, dt.FollowsQueue → dt ∈ a.graphs.stmt.labels x y → a.LaterEdge x y) ∧
      (∀ x, ¬ TransGen (fun y z => ∃ dt ∈ a.graphs.stmt.labels y z, dt.FollowsQueue) x x) ∧
      IsStrictOrder a.LongTxn (a.TxnDepends .startDepend) ∧
      IsStrictOrder a.LongTxn (a.TxnDepends .strictStartDepend) ∧
      ∀ t u, a.TxnDepends .strictStartDepend t u → a.TxnDepends .startDepend t u := by
  obtain ⟨a, ha⟩ : ∃ a, dependencyAnalyzer insertedRead = .ok a := ⟨_, by rfl⟩
  exact ⟨a, ha, dependencyAnalyzer_directions ha⟩

end DbFuzz
