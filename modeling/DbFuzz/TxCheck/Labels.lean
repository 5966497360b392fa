import DbFuzz.TxCheck.Edges
import DbFuzz.TxCheck.RowHistory

/-! What the builders write into the two graphs, label by label: exactly for the row
dependencies and the predicate dependencies, and up to its own types for every builder. -/

namespace DbFuzz

open Loop

inductive Label
  | stmt (a b : StmtId) (dt : DependencyType)
  | txn (t u : ℕ) (dt : DependencyType)

def Label.type : Label → DependencyType
  | .stmt _ _ dt => dt
  | .txn _ _ dt => dt

def Graphs.HasLabel (g : Graphs) : Label → Prop
  | .stmt a b dt => dt ∈ g.stmt.labels a b
  | .txn t u dt => dt ∈ g.txn t u

/-- `g'` comes from `g` by insertions of types in `p`. -/
inductive Built (p : DependencyType → Prop) (g : Graphs) : Graphs → Prop
  | refl : Built p g g
  | txn {g' : Graphs} {dt : DependencyType} (t u : ℕ) (h : Built p g g') (hdt : p dt) :
    Built p g (g'.addTxn t u dt)
  | stmt {g' : Graphs} {dt : DependencyType} (a b : StmtId) (h : Built p g g') (hdt : p dt) :
    Built p g (g'.addStmt a b dt)

variable {p : DependencyType → Prop} {g g' g'' : Graphs}

theorem Built.trans (h : Built p g g') (h' : Built p g' g'') : Built p g g'' := by
  induction h' with
  | refl => exact h
  | txn t u _ hdt ih => exact ih.txn t u hdt
  | stmt a b _ hdt ih => exact ih.stmt a b hdt

theorem Built.mono {p' : DependencyType → Prop} (hp : ∀ dt, p dt → p' dt) (h : Built p g g') :
    Built p' g g' := by
  induction h with
  | refl => exact .refl
  | txn t u _ hdt ih => exact ih.txn t u (hp _ hdt)
  | stmt a b _ hdt ih => exact ih.stmt a b (hp _ hdt)

theorem addTxn_adds (g : Graphs) (t u : ℕ) (dt : DependencyType) :
    Adds Graphs.HasLabel g (g.addTxn t u dt) (· = .txn t u dt) := by
  intro l
  cases l with
  | stmt a b d => simp [Graphs.HasLabel]
  | txn x y d =>
    simp only [Graphs.HasLabel, Graphs.addTxn]
    split_ifs with h
    · simp [h, or_comm]
    · simp only [Label.txn.injEq, ← and_assoc, h, false_and, or_false]

theorem addStmt_adds (g : Graphs) (a b : StmtId) (dt : DependencyType) :
    Adds Graphs.HasLabel g (g.addStmt a b dt) (· = .stmt a b dt) := by
  intro l
  cases l with
  | stmt x y d =>
    simp only [Graphs.HasLabel, Graphs.addStmt, StmtGraph.mem_labels_insert, Label.stmt.injEq]
    exact or_comm
  | txn t u d => simp [Graphs.HasLabel, Graphs.addStmt]

/-- Labels of other types stay as they are. -/
theorem Built.hasLabel_iff (h : Built p g g') {l : Label} (hl : ¬ p l.type) :
    g'.HasLabel l ↔ g.HasLabel l := by
  induction h with
  | refl => rfl
  | txn t u _ hdt ih =>
    rw [addTxn_adds _ t u _ l, ih, or_iff_left]
    rintro rfl
    exact hl hdt
  | stmt a b _ hdt ih =>
    rw [addStmt_adds _ a b _ l, ih, or_iff_left]
    rintro rfl
    exact hl hdt

/-- No entry of the statement graph is an empty set. -/
def Graphs.Tidy (g : Graphs) : Prop := ∀ a b, g.stmt a b ≠ some ∅

theorem Built.tidy (h : Built p g g') (hg : g.Tidy) : g'.Tidy := by
  induction h with
  | refl => exact hg
  | txn t u _ _ ih => exact ih
  | stmt a b _ _ ih =>
    intro x y
    simp only [Graphs.addStmt, StmtGraph.insert, StmtGraph.set]
    split_ifs
    · simp
    · exact ih x y

/-- Tidy graphs with the same labels are equal. -/
theorem Graphs.Tidy.stmt_eq (h : g.Tidy) (h' : g'.Tidy)
    (hl : ∀ a b dt, g.HasLabel (.stmt a b dt) ↔ g'.HasLabel (.stmt a b dt)) :
    g.stmt = g'.stmt := by
  funext a b
  have hset : g.stmt.labels a b = g'.stmt.labels a b := Finset.ext fun dt => hl a b dt
  have ha := h a b
  have hb := h' a b
  unfold StmtGraph.labels at hset
  cases hx : g.stmt a b <;> cases hy : g'.stmt a b <;> simp_all

theorem built_forRange {n : ℕ} {f : ℕ → Graphs → Except Failure Graphs}
    (hf : ∀ i < n, ∀ t t', f i t = .ok t' → Built p t t') (h : forRange n f g = .ok g') :
    Built p g g' :=
  forRange_inv (fun _ t => Built p g t) .refl
    (fun i hi t t' ht hstep => ht.trans (hf i hi t t' hstep)) h

theorem built_forEach {α : Type} {as : List α} {f : α → Graphs → Except Failure Graphs}
    (hf : ∀ a ∈ as, ∀ t t', f a t = .ok t' → Built p t t') (h : forEach as f g = .ok g') :
    Built p g g' :=
  forEach_inv (fun t => Built p g t) .refl
    (fun a ha t t' ht hstep => ht.trans (hf a ha t t' hstep)) h

namespace AnalyzedQueue

variable {q : AnalyzedQueue}

theorem built_buildStmtDepend (q : AnalyzedQueue) {dt : DependencyType} (i j : ℕ) (g : Graphs)
    (hdt : p dt) : Built p g (q.buildStmtDepend i j dt g) := Built.refl.stmt _ _ hdt

theorem built_addTxnIfOther (q : AnalyzedQueue) {dt : DependencyType} (i j : ℕ) (g : Graphs)
    (hdt : p dt) : Built p g (q.addTxnIfOther i j dt g) := by
  unfold addTxnIfOther
  split_ifs
  · exact Built.refl.txn _ _ hdt
  · exact .refl

/-- A round that makes an edge with another owner under a condition. -/
theorem built_edge_if (q : AnalyzedQueue) {dt : DependencyType} (i j k l : ℕ) (g : Graphs)
    (hdt : p dt) {c : Prop} [Decidable c] :
    Built p g (if c then q.buildStmtDepend i j dt (q.addTxnIfOther k l dt g) else g) := by
  split_ifs
  · exact (q.built_addTxnIfOther k l g hdt).trans (q.built_buildStmtDepend i j _ hdt)
  · exact .refl

/-! Row dependencies. -/

/-- The labels of one pair of operations. -/
def OpLabel (q : AnalyzedQueue) (op target : OperateUnit) (dt : DependencyType) (l : Label) :
    Prop :=
  (∃ i j, op.stmtIdx = some i ∧ target.stmtIdx = some j ∧ l = .stmt (q.sid i) (q.sid j) dt) ∨
    op.tid ≠ target.tid ∧ l = .txn op.tid target.tid dt

theorem OpLabel.type_eq {op target : OperateUnit} {dt : DependencyType} {l : Label}
    (h : q.OpLabel op target dt l) : l.type = dt := by
  rcases h with ⟨i, j, -, -, rfl⟩ | ⟨-, rfl⟩ <;> rfl

theorem buildOpDepend_adds (q : AnalyzedQueue) (op target : OperateUnit) (dt : DependencyType)
    (g : Graphs) :
    Adds Graphs.HasLabel g (q.buildOpDepend op target dt g) (q.OpLabel op target dt) := by
  unfold buildOpDepend
  dsimp only
  split_ifs with htid <;> split
  · next i j hi hj =>
    exact ((addStmt_adds g _ _ dt).trans (addTxn_adds _ _ _ dt)).congr fun l => by
      simp [OpLabel, hi, hj, htid]
  · next hnone =>
    refine (addTxn_adds g _ _ dt).congr fun l => ⟨fun hl => Or.inr ⟨htid, hl⟩, ?_⟩
    rintro (⟨i, j, hi, hj, -⟩ | ⟨-, hl⟩)
    · exact absurd hj (hnone i j hi)
    · exact hl
  · next i j hi hj =>
    exact (addStmt_adds g _ _ dt).congr fun l => by simp [OpLabel, hi, hj, htid]
  · next hnone =>
    refine (Adds.refl _ g).congr fun l => ⟨False.elim, ?_⟩
    rintro (⟨i, j, hi, hj, -⟩ | ⟨hne, -⟩)
    · exact hnone i j hi hj
    · exact htid hne

theorem built_buildOpDepend (q : AnalyzedQueue) {dt : DependencyType} (op target : OperateUnit)
    (g : Graphs) (hdt : p dt) : Built p g (q.buildOpDepend op target dt g) := by
  unfold buildOpDepend
  dsimp only
  split_ifs <;> split
  · exact (q.built_buildStmtDepend _ _ _ hdt).txn _ _ hdt
  · exact Built.refl.txn _ _ hdt
  · exact q.built_buildStmtDepend _ _ _ hdt
  · exact .refl

/-- A read that the analyzer looks up: not of the initial transaction, not the result of a
write. -/
def LooksUp (q : AnalyzedQueue) (target : OperateUnit) : Prop :=
  target.tid ≠ q.tidNum - 1 ∧ target.stmtU.stmtType ≠ .afterWriteRead

/-- The labels for the operation at `opIdx` of a row. -/
def TargetLabel (q : AnalyzedQueue) (opList : List OperateUnit) (opIdx : ℕ) (l : Label) : Prop :=
  ∃ target, opList[opIdx]? = some target ∧ q.LooksUp target ∧
    ((∃ op, nearestWrite opList opIdx target = some op ∧ (q.OpLabel op target .writeRead l ∨
        target.stmtU.stmtType = .beforeWriteRead ∧ q.OpLabel op target .writeWrite l)) ∨
      target.stmtU.stmtType = .beforeWriteRead ∧ ∃ op ∈ opList,
        (op.stmtU.stmtType = .selectRead ∨ op.stmtU.stmtType = .afterWriteRead) ∧
        op.writeOpId = target.writeOpId ∧ q.OpLabel op target .readWrite l)

theorem buildNearestWrite_eq_ok {dt : DependencyType} {opList : List OperateUnit} {opIdx : ℕ}
    {target : OperateUnit} (h : q.buildNearestWrite dt opList opIdx target g = .ok g') :
    ∃ op, nearestWrite opList opIdx target = some op ∧ g' = q.buildOpDepend op target dt g := by
  unfold buildNearestWrite at h
  split at h
  · cases h
  · next op hfind => exact ⟨op, hfind, (Except.ok.inj h).symm⟩

theorem buildRWDependency_adds {opList : List OperateUnit} {target : OperateUnit}
    (h : q.buildRWDependency opList target g = .ok g') :
    Adds Graphs.HasLabel g g' fun l => ∃ op ∈ opList,
      (op.stmtU.stmtType = .selectRead ∨ op.stmtU.stmtType = .afterWriteRead) ∧
      op.writeOpId = target.writeOpId ∧ q.OpLabel op target .readWrite l := by
  have hround : ∀ op ∈ opList, ∀ t t',
      (if (op.stmtU.stmtType = .selectRead ∨ op.stmtU.stmtType = .afterWriteRead) ∧
          op.writeOpId = target.writeOpId then
        Except.ok (q.buildOpDepend op target .readWrite t) else .ok t) = (.ok t' : Except Failure _) →
      Adds Graphs.HasLabel t t' fun l =>
        (op.stmtU.stmtType = .selectRead ∨ op.stmtU.stmtType = .afterWriteRead) ∧
          op.writeOpId = target.writeOpId ∧ q.OpLabel op target .readWrite l := by
    intro op _ t t' hstep
    split_ifs at hstep with hsame
    · cases hstep
      exact (q.buildOpDepend_adds op target .readWrite t).congr fun l => by simp [hsame]
    · cases hstep
      exact (Adds.refl _ t).congr fun l => ⟨False.elim, fun hl => hsame ⟨hl.1, hl.2.1⟩⟩
  exact forEach_adds hround h

theorem buildRowDependency_adds {opList : List OperateUnit} {opIdx : ℕ}
    (h : q.buildRowDependency opList opIdx g = .ok g') :
    Adds Graphs.HasLabel g g' (q.TargetLabel opList opIdx) := by
  unfold buildRowDependency at h
  split at h
  · cases h
  next target htarget =>
  have hno : ¬ q.LooksUp target → Adds Graphs.HasLabel g g (q.TargetLabel opList opIdx) :=
    fun hskip => (Adds.refl _ g).congr fun l => ⟨False.elim, by
      rintro ⟨t, ht, hlook, -⟩
      rw [htarget] at ht
      cases ht
      exact hskip hlook⟩
  split at h
  · next htid =>
    cases h
    exact hno fun hlook => hlook.1 htid
  split at h
  · next htype =>
    cases h
    exact hno fun hlook => hlook.2 htype
  next htid htype =>
  have hlook : q.LooksUp target := ⟨htid, htype⟩
  obtain ⟨g1, hwr, h⟩ := bind_eq_ok_iff.1 h
  obtain ⟨op, hop, rfl⟩ := buildNearestWrite_eq_ok hwr
  have h1 := q.buildOpDepend_adds op target .writeRead g
  split at h
  · next hbefore =>
    obtain ⟨g2, hww, h⟩ := bind_eq_ok_iff.1 h
    obtain ⟨op', hop', rfl⟩ := buildNearestWrite_eq_ok hww
    obtain rfl : op = op' := Option.some.inj (hop.symm.trans hop')
    have h2 := q.buildOpDepend_adds op target .writeWrite (q.buildOpDepend op target .writeRead g)
    refine ((h1.trans h2).trans (buildRWDependency_adds h)).congr fun l => ?_
    simp only [TargetLabel, htarget, Option.some.injEq, exists_eq_left', hlook, hbefore, hop,
      true_and]
  · next hbefore =>
    cases h
    refine h1.congr fun l => ?_
    simp only [TargetLabel, htarget, Option.some.injEq, exists_eq_left', hlook, hbefore, hop,
      true_and, false_and, or_false]

def RowLabel (q : AnalyzedQueue) (h : History) (l : Label) : Prop :=
  ∃ row ∈ h, ∃ opIdx < row.2.length, q.TargetLabel row.2 opIdx l

theorem buildRowDependencies_adds {h : History} (hbuild : q.buildRowDependencies h g = .ok g') :
    Adds Graphs.HasLabel g g' (q.RowLabel h) :=
  forEach_adds (fun _ _ _ _ hstep =>
    forRange_adds (fun _ _ _ _ hr => buildRowDependency_adds hr) hstep) hbuild

/-- The labels of rows have the types of rows. -/
def RowType (dt : DependencyType) : Prop := dt = .writeRead ∨ dt = .writeWrite ∨ dt = .readWrite

theorem built_buildRowDependencies {h : History} (hbuild : q.buildRowDependencies h g = .ok g') :
    Built RowType g g' := by
  refine built_forEach (fun row _ s s' hs => built_forRange (fun opIdx _ t t' ht => ?_) hs) hbuild
  unfold buildRowDependency at ht
  split at ht
  · cases ht
  next target _ =>
  split at ht
  · cases ht; exact .refl
  split at ht
  · cases ht; exact .refl
  obtain ⟨g1, hwr, ht⟩ := bind_eq_ok_iff.1 ht
  obtain ⟨op, -, rfl⟩ := buildNearestWrite_eq_ok hwr
  have h1 : Built RowType t (q.buildOpDepend op target .writeRead t) :=
    q.built_buildOpDepend op target t (Or.inl rfl)
  split at ht
  · obtain ⟨g2, hww, ht⟩ := bind_eq_ok_iff.1 ht
    obtain ⟨op', -, rfl⟩ := buildNearestWrite_eq_ok hww
    refine (h1.trans (q.built_buildOpDepend op' target _ (Or.inr (Or.inl rfl)))).trans ?_
    refine built_forEach (fun op _ r r' hr => ?_) ht
    split_ifs at hr
    · cases hr
      exact q.built_buildOpDepend op target r (Or.inr (Or.inr rfl))
    · cases hr
      exact .refl
  · cases ht
    exact h1

/-! The other builders. -/

theorem built_buildStmtInstrumentDependency (h : q.buildStmtInstrumentDependency g = .ok g') :
    Built (· = .instrumentDepend) g g' := by
  refine built_forRange (fun i _ t t' ht => ?_) h
  unfold instrumentRound at ht
  split at ht
  · split_ifs at ht
    cases ht
    exact q.built_buildStmtDepend _ _ _ rfl
  · split_ifs at ht
    cases ht
    exact q.built_buildStmtDepend _ _ _ rfl
  · obtain ⟨pos, -, ht⟩ := bind_eq_ok_iff.1 ht
    cases ht
    exact q.built_buildStmtDepend _ _ _ rfl
  · cases ht
    exact .refl

theorem built_startRound {dt : DependencyType} {i j : ℕ} {later : Bool} (hdt : p dt)
    (h : q.startRound i j dt later g = .ok g') : Built p g g' := by
  unfold startRound at h
  split_ifs at h
  · refine (Built.refl.txn i j hdt).trans (built_forRange (fun a _ t t' ht => ?_) h)
    split_ifs at ht
    · cases ht; exact .refl
    refine built_forRange (fun b _ r r' hr => ?_) ht
    split_ifs at hr
    · cases hr; exact .refl
    · cases hr; exact q.built_buildStmtDepend _ _ _ hdt
  · cases h; exact .refl

theorem built_buildStartDependency (h : q.buildStartDependency g = .ok g') :
    Built (fun dt => dt = .startDepend ∨ dt = .strictStartDepend) g g' := by
  refine built_forRange (fun i _ s s' hs => built_forRange (fun j _ t t' ht => ?_) hs) h
  split_ifs at ht
  · cases ht; exact .refl
  obtain ⟨g1, h1, h2⟩ := bind_eq_ok_iff.1 ht
  exact (built_startRound (Or.inl rfl) h1).trans (built_startRound (Or.inr rfl) h2)

theorem built_buildStmtInnerDependency (h : q.buildStmtInnerDependency g = .ok g') :
    Built (· = .innerDepend) g g' := by
  refine built_forRange (fun i _ s s' hs => built_forRange (fun j _ t t' ht => ?_) hs) h
  split_ifs at ht
  · cases ht; exact q.built_buildStmtDepend _ _ _ rfl
  · cases ht; exact .refl

theorem buildStmtInnerDependency_adds (h : q.buildStmtInnerDependency g = .ok g') :
    Adds Graphs.HasLabel g g' fun l => ∃ i < q.stmtNum, ∃ j < i, q.tid j = q.tid i ∧
      l = .stmt (q.sid j) (q.sid i) .innerDepend := by
  refine forRange_adds (fun i _ s s' hs => ?_) h
  have hround : ∀ j < i, ∀ t t',
      (if q.tid j = q.tid i then Except.ok (q.buildStmtDepend j i .innerDepend t) else .ok t) =
        (.ok t' : Except Failure _) → Adds Graphs.HasLabel t t' fun l =>
          q.tid j = q.tid i ∧ l = .stmt (q.sid j) (q.sid i) .innerDepend := by
    intro j _ t t' ht
    split_ifs at ht with htid
    · cases ht
      exact (addStmt_adds t _ _ _).congr fun l => by simp [htid]
    · cases ht
      exact (Adds.refl _ t).congr fun l => by simp [htid]
  exact forRange_adds hround hs

/-! Predicate dependencies. -/

/-- Some row version is returned by both statements. -/
def SharesVersion (q : AnalyzedQueue) (i k : ℕ) : Prop := ∃ pv, q.Reads i pv ∧ q.Reads k pv

/-- No row is returned by both statements. -/
def NoSharedRow (q : AnalyzedQueue) (i k : ℕ) : Prop :=
  ∀ p v v', q.Reads i (p, v) → ¬ q.Reads k (p, v')

/-- The statement `a` whose edge to the read `i` a write `j` of any table makes, up to the
comparison of the tables. -/
def VersionSetPair (q : AnalyzedQueue) (sameTable : ℕ → ℕ → Prop) (i j a : ℕ) : Prop :=
  ((q.usage j).stmtType = .updateWrite ∨ (q.usage j).stmtType = .insertWrite) ∧ a = j + 1 ∧
      q.SharesVersion i (j + 1) ∨
    (q.usage j).stmtType = .deleteWrite ∧ a = j ∧ sameTable (j - 1) i ∧ q.output (j - 1) ≠ [] ∧
      q.NoSharedRow i (j - 1)

/-- The statement `b` that `build_OW_dependency` reaches from a read `i` through a write `j`. -/
def OverwritePair (q : AnalyzedQueue) (sameTable : ℕ → ℕ → Prop) (i j b : ℕ) : Prop :=
  ((q.usage j).stmtType = .updateWrite ∨ (q.usage j).stmtType = .deleteWrite) ∧ b = j - 1 ∧
      q.SharesVersion i (j - 1) ∨
    (q.usage j).stmtType = .insertWrite ∧ b = j ∧ sameTable (j + 1) i ∧ q.output (j + 1) ≠ [] ∧
      q.NoSharedRow i (j + 1)

/-- The comparison of two target tables. -/
def SameTarget (q : AnalyzedQueue) (k i : ℕ) : Prop :=
  (q.usage k).targetTable = (q.usage i).targetTable

theorem any_contains_iff {i k : ℕ} {iPairs kPairs : List (ℤ × ℤ)}
    (hi : q.pairSet (q.output i) = .ok iPairs) (hk : q.pairSet (q.output k) = .ok kPairs) :
    iPairs.any (kPairs.contains ·) = true ↔ q.SharesVersion i k := by
  refine ⟨exists_common_pair hi hk, ?_⟩
  rintro ⟨pv, h1, h2⟩
  exact List.any_eq_true.2 ⟨pv, (mem_pairSet hi pv).2 h1, by simpa using (mem_pairSet hk pv).2 h2⟩

theorem not_any_contains_iff {i k : ℕ} {iPairs : List (ℤ × ℤ)} {keys : List ℤ}
    (hkeyed : ∀ row ∈ q.output k, q.Keyed row) (hi : q.pairSet (q.output i) = .ok iPairs)
    (hk : q.primarySet (q.output k) = .ok keys) :
    (!(iPairs.map Prod.fst).any (keys.contains ·)) = true ↔ q.NoSharedRow i k := by
  refine ⟨no_common_primary hi hk, fun h => ?_⟩
  rw [Bool.not_eq_true', List.any_eq_false]
  intro p hp hc
  obtain ⟨⟨p', v⟩, hpair, rfl⟩ := List.mem_map.1 hp
  rw [List.contains_iff_mem] at hc
  obtain ⟨row, hrow, hprim⟩ := (mem_mapM_iff hk p').1 hc
  obtain ⟨v', hv'⟩ := (hkeyed row hrow).2
  exact h p' v v' ((mem_pairSet hi _).1 hpair) ⟨row, hrow, pairOf_of_keyOf hprim hv'⟩

/-- The labels of an edge from `a` to `b` whose owners are those of `k` and `l`. -/
def EdgeLabel (q : AnalyzedQueue) (a b k l : ℕ) (dt : DependencyType) (x : Label) : Prop :=
  x = .stmt (q.sid a) (q.sid b) dt ∨ q.tid k ≠ q.tid l ∧ x = .txn (q.tid k) (q.tid l) dt

theorem edge_adds (q : AnalyzedQueue) (a b k l : ℕ) (dt : DependencyType) (g : Graphs) :
    Adds Graphs.HasLabel g (q.buildStmtDepend a b dt (q.addTxnIfOther k l dt g))
      (q.EdgeLabel a b k l dt) := by
  have hstmt := addStmt_adds (q.addTxnIfOther k l dt g) (q.sid a) (q.sid b) dt
  by_cases htid : q.tid k ≠ q.tid l
  · have htxn := addTxn_adds g (q.tid k) (q.tid l) dt
    rw [show g.addTxn (q.tid k) (q.tid l) dt = q.addTxnIfOther k l dt g by
      rw [addTxnIfOther, if_pos htid]] at htxn
    exact (htxn.trans hstmt).congr fun x => by simp [EdgeLabel, htid, or_comm]
  · rw [show q.addTxnIfOther k l dt g = g by rw [addTxnIfOther, if_neg htid]] at hstmt ⊢
    exact hstmt.congr fun x => by simp [EdgeLabel, htid]

/-- A round that takes the edge exactly under a condition. -/
theorem edge_if_adds (q : AnalyzedQueue) (a b k l : ℕ) (dt : DependencyType) (g : Graphs)
    {c : Prop} [Decidable c] {new : Label → Prop} (hnew : ∀ x, new x ↔ c ∧ q.EdgeLabel a b k l dt x) :
    Adds Graphs.HasLabel g
      (if c then q.buildStmtDepend a b dt (q.addTxnIfOther k l dt g) else g) new := by
  split_ifs with hc
  · exact (q.edge_adds a b k l dt g).congr fun x => by rw [hnew, and_iff_right hc]
  · exact (Adds.refl _ g).congr fun x => ⟨False.elim, fun hx => hc ((hnew x).1 hx).1⟩

theorem versionSetRound_adds {i j : ℕ} {iPairs : List (ℤ × ℤ)}
    (hkeyed : ∀ k < q.stmtNum, ∀ row ∈ q.output k, q.Keyed row)
    (hpairs : q.pairSet (q.output i) = .ok iPairs)
    (h : q.versionSetRound i iPairs j g = .ok g') :
    Adds Graphs.HasLabel g g' fun x => ∃ a, q.VersionSetPair q.SameTarget i j a ∧
      q.EdgeLabel a i j i .versionSetDepend x := by
  unfold versionSetRound at h
  split at h
  case h_1 | h_2 =>
    next hju =>
    obtain ⟨u, hafter, h⟩ := bind_eq_ok_iff.1 h
    obtain ⟨kPairs, hk, h⟩ := bind_eq_ok_iff.1 h
    obtain rfl := Except.ok.inj h
    refine q.edge_if_adds _ _ _ _ _ g fun x => ?_
    rw [any_contains_iff hpairs hk]
    simp [VersionSetPair, hju]
  case h_3 =>
    next hju =>
    obtain ⟨u, hbefore, h⟩ := bind_eq_ok_iff.1 h
    obtain ⟨-, hlt, rfl, -⟩ := beforeWriteOf_eq_ok hbefore
    have hskip : ¬ (q.SameTarget (j - 1) i ∧ q.output (j - 1) ≠ [] ∧ q.NoSharedRow i (j - 1)) →
        Adds Graphs.HasLabel g g fun x => ∃ a, q.VersionSetPair q.SameTarget i j a ∧
          q.EdgeLabel a i j i .versionSetDepend x := fun hno => by
      refine (Adds.refl _ g).congr fun x => ⟨False.elim, ?_⟩
      rintro ⟨a, ⟨hw, -⟩ | ⟨-, -, hrest⟩, -⟩
      · rw [hju] at hw; simp at hw
      · exact hno hrest
    split at h
    · cases h
    split at h
    · next htable =>
      cases h
      exact hskip fun hc => htable hc.1
    next htable =>
    split at h
    · next hempty =>
      cases h
      exact hskip fun hc => hc.2.1 hempty
    next hsome =>
    obtain ⟨keys, hk, h⟩ := bind_eq_ok_iff.1 h
    obtain rfl := Except.ok.inj h
    refine q.edge_if_adds _ _ _ _ _ g fun x => ?_
    rw [not_any_contains_iff (hkeyed _ hlt) hpairs hk]
    simp [VersionSetPair, hju, SameTarget, not_not.1 htable, hsome]
  case h_4 hu hi hd =>
    obtain rfl := Except.ok.inj h
    refine (Adds.refl _ g).congr fun x => ⟨False.elim, ?_⟩
    rintro ⟨a, ⟨hw | hw, -⟩ | ⟨hw, -⟩, -⟩
    · exact hu hw
    · exact hi hw
    · exact hd hw

theorem overwriteRound_adds {i o j : ℕ} {iPairs : List (ℤ × ℤ)}
    (hkeyed : ∀ k < q.stmtNum, ∀ row ∈ q.output k, q.Keyed row)
    (hpairs : q.pairSet (q.output i) = .ok iPairs)
    (h : q.overwriteRound i iPairs o j g = .ok g') :
    Adds Graphs.HasLabel g g' fun x => ∃ b, q.OverwritePair q.SameTarget i j b ∧
      q.EdgeLabel o b i j .overwriteDepend x := by
  unfold overwriteRound at h
  split at h
  case h_1 | h_2 =>
    next hju =>
    obtain ⟨u, hbefore, h⟩ := bind_eq_ok_iff.1 h
    obtain ⟨kPairs, hk, h⟩ := bind_eq_ok_iff.1 h
    obtain rfl := Except.ok.inj h
    refine q.edge_if_adds _ _ _ _ _ g fun x => ?_
    rw [any_contains_iff hpairs hk]
    simp [OverwritePair, hju]
  case h_3 =>
    next hju =>
    obtain ⟨u, hafter, h⟩ := bind_eq_ok_iff.1 h
    obtain ⟨hlt, rfl, -⟩ := afterWriteOf_eq_ok hafter
    have hskip : ¬ (q.SameTarget (j + 1) i ∧ q.output (j + 1) ≠ [] ∧ q.NoSharedRow i (j + 1)) →
        Adds Graphs.HasLabel g g fun x => ∃ b, q.OverwritePair q.SameTarget i j b ∧
          q.EdgeLabel o b i j .overwriteDepend x := fun hno => by
      refine (Adds.refl _ g).congr fun x => ⟨False.elim, ?_⟩
      rintro ⟨b, ⟨hw, -⟩ | ⟨-, -, hrest⟩, -⟩
      · rw [hju] at hw; simp at hw
      · exact hno hrest
    split at h
    · cases h
    split at h
    · next htable =>
      cases h
      exact hskip fun hc => htable hc.1
    next htable =>
    split at h
    · next hempty =>
      cases h
      exact hskip fun hc => hc.2.1 hempty
    next hsome =>
    obtain ⟨keys, hk, h⟩ := bind_eq_ok_iff.1 h
    obtain rfl := Except.ok.inj h
    refine q.edge_if_adds _ _ _ _ _ g fun x => ?_
    rw [not_any_contains_iff (hkeyed _ hlt) hpairs hk]
    simp [OverwritePair, hju, SameTarget, not_not.1 htable, hsome]
  case h_4 hu hd hi =>
    obtain rfl := Except.ok.inj h
    refine (Adds.refl _ g).congr fun x => ⟨False.elim, ?_⟩
    rintro ⟨a, ⟨hw | hw, -⟩ | ⟨hw, -⟩, -⟩
    · exact hu hw
    · exact hd hw
    · exact hi hw

theorem built_buildVSDependency (h : q.buildVSDependency g = .ok g') :
    Built (· = .versionSetDepend) g g' := by
  refine built_forRange (fun i _ s s' hs => ?_) h
  split at hs
  · cases hs; exact .refl
  obtain ⟨iPairs, -, hs⟩ := bind_eq_ok_iff.1 hs
  refine built_forRange (fun j _ t t' ht => ?_) hs
  unfold versionSetRound at ht
  split at ht
  case h_1 | h_2 =>
    obtain ⟨u, -, ht⟩ := bind_eq_ok_iff.1 ht
    obtain ⟨kPairs, -, ht⟩ := bind_eq_ok_iff.1 ht
    obtain rfl := Except.ok.inj ht
    refine q.built_edge_if _ _ _ _ t ?_
    rfl
  case h_3 =>
    obtain ⟨u, -, ht⟩ := bind_eq_ok_iff.1 ht
    split_ifs at ht
    · cases ht; exact .refl
    · cases ht; exact .refl
    obtain ⟨keys, -, ht⟩ := bind_eq_ok_iff.1 ht
    obtain rfl := Except.ok.inj ht
    refine q.built_edge_if _ _ _ _ t ?_
    rfl
  case h_4 => cases ht; exact .refl

theorem built_buildOWDependency (h : q.buildOWDependency g = .ok g') :
    Built (· = .overwriteDepend) g g' := by
  refine built_forRange (fun i _ s s' hs => ?_) h
  split at hs
  · cases hs; exact .refl
  obtain ⟨iPairs, -, hs⟩ := bind_eq_ok_iff.1 hs
  obtain ⟨o, -, hs⟩ := bind_eq_ok_iff.1 hs
  refine built_forRange (fun j _ t t' ht => ?_) hs
  unfold overwriteRound at ht
  split at ht
  case h_1 | h_2 =>
    obtain ⟨u, -, ht⟩ := bind_eq_ok_iff.1 ht
    obtain ⟨kPairs, -, ht⟩ := bind_eq_ok_iff.1 ht
    obtain rfl := Except.ok.inj ht
    refine q.built_edge_if _ _ _ _ t ?_
    rfl
  case h_3 =>
    obtain ⟨u, -, ht⟩ := bind_eq_ok_iff.1 ht
    split_ifs at ht
    · cases ht; exact .refl
    · cases ht; exact .refl
    obtain ⟨keys, -, ht⟩ := bind_eq_ok_iff.1 ht
    obtain rfl := Except.ok.inj ht
    refine q.built_edge_if _ _ _ _ t ?_
    rfl
  case h_4 => cases ht; exact .refl

/-- All labels of `build_VS_dependency`. -/
def VersionSetLabel (q : AnalyzedQueue) (sameTable : ℕ → ℕ → Prop) (x : Label) : Prop :=
  ∃ i < q.stmtNum, (q.usage i).stmtType = .versionSetRead ∧ ∃ j < q.stmtNum, ∃ a,
    q.VersionSetPair sameTable i j a ∧ q.EdgeLabel a i j i .versionSetDepend x

/-- All labels of `build_OW_dependency`. -/
def OverwriteLabel (q : AnalyzedQueue) (sameTable : ℕ → ℕ → Prop) (x : Label) : Prop :=
  ∃ i < q.stmtNum, (q.usage i).stmtType = .versionSetRead ∧ ∃ o, q.orginalIndex i = .ok o ∧
    ∃ j < q.stmtNum, ∃ b, q.OverwritePair sameTable i j b ∧
      q.EdgeLabel o b i j .overwriteDepend x

theorem buildVSDependency_adds (hkeyed : ∀ k < q.stmtNum, ∀ row ∈ q.output k, q.Keyed row)
    (h : q.buildVSDependency g = .ok g') :
    Adds Graphs.HasLabel g g' (q.VersionSetLabel q.SameTarget) := by
  refine forRange_adds (fun i _ s s' hs => ?_) h
  split at hs
  · next hu =>
    cases hs
    exact (Adds.refl _ _).congr fun x => ⟨False.elim, fun hx => hu hx.1⟩
  next hu =>
  obtain ⟨iPairs, hpairs, hs⟩ := bind_eq_ok_iff.1 hs
  exact (forRange_adds (fun j _ t t' ht => versionSetRound_adds hkeyed hpairs ht) hs).congr
    fun x => by rw [and_iff_right (not_not.1 hu)]

theorem buildOWDependency_adds (hkeyed : ∀ k < q.stmtNum, ∀ row ∈ q.output k, q.Keyed row)
    (h : q.buildOWDependency g = .ok g') :
    Adds Graphs.HasLabel g g' (q.OverwriteLabel q.SameTarget) := by
  refine forRange_adds (fun i _ s s' hs => ?_) h
  split at hs
  · next hu =>
    cases hs
    exact (Adds.refl _ _).congr fun x => ⟨False.elim, fun hx => hu hx.1⟩
  next hu =>
  obtain ⟨iPairs, hpairs, hs⟩ := bind_eq_ok_iff.1 hs
  obtain ⟨o, horg, hs⟩ := bind_eq_ok_iff.1 hs
  refine (forRange_adds (fun j _ t t' ht => overwriteRound_adds hkeyed hpairs ht) hs).congr
    fun x => ?_
  simp only [not_not.1 hu, true_and, horg, Except.ok.injEq, exists_eq_left']

end AnalyzedQueue

end DbFuzz
