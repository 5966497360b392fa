import DbFuzz.TxCheck.Analyzer

/-! Why an edge of the statement graph is there. Each builder only adds labels that
`Justified` explains (`Grown`), so the graph of an accepted history is explained edge
by edge. -/

namespace DbFuzz

open Loop

namespace AnalyzedQueue

/-- Some row of the output `k` has the keys. -/
def Reads (q : AnalyzedQueue) (k : ℕ) (pv : ℤ × ℤ) : Prop :=
  ∃ row ∈ q.output k, q.pairOf row = .ok pv

/-- The first normal statement after `i`. -/
def NextNormal (q : AnalyzedQueue) (i j : ℕ) : Prop :=
  i < j ∧ j < q.stmtNum ∧ (q.usage j).stmtType.isNormal = true ∧
    ∀ k, i < k → k < j → (q.usage k).stmtType.isNormal = false

/-- A write and the read of its result, or a read and the statement it belongs to. -/
inductive InstrumentEdge (q : AnalyzedQueue) : ℕ → ℕ → Prop
  | before {i : ℕ} (hi : (q.usage i).stmtType = .beforeWriteRead) (hlt : i + 1 < q.stmtNum)
      (htid : q.tid (i + 1) = q.tid i) (hnext : (q.usage (i + 1)).stmtType = .updateWrite ∨
        (q.usage (i + 1)).stmtType = .deleteWrite) : InstrumentEdge q i (i + 1)
  | after {i : ℕ} (hi : (q.usage (i + 1)).stmtType = .afterWriteRead) (hlt : i + 1 < q.stmtNum)
      (htid : q.tid i = q.tid (i + 1)) (hprev : (q.usage i).stmtType = .updateWrite ∨
        (q.usage i).stmtType = .insertWrite) : InstrumentEdge q i (i + 1)
  | versionSet {i j : ℕ} (hi : (q.usage i).stmtType = .versionSetRead) (hj : q.NextNormal i j)
      (htid : ∀ k, i < k → k ≤ j → q.tid k = q.tid i) : InstrumentEdge q i j

/-- The edges of `build_VS_dependency` into the read `i`. -/
inductive VersionSetEdge (q : AnalyzedQueue) : ℕ → ℕ → Prop
  | seen {i j : ℕ} (pv : ℤ × ℤ) (hi : (q.usage i).stmtType = .versionSetRead)
      (hj : (q.usage j).stmtType = .updateWrite ∨ (q.usage j).stmtType = .insertWrite)
      (hafter : (q.usage (j + 1)).stmtType = .afterWriteRead) (hlt : j + 1 < q.stmtNum)
      (hread : q.Reads i pv) (hwritten : q.Reads (j + 1) pv) : VersionSetEdge q (j + 1) i
  | gone {i j : ℕ} (hi : (q.usage i).stmtType = .versionSetRead)
      (hj : (q.usage j).stmtType = .deleteWrite)
      (hbefore : (q.usage (j - 1)).stmtType = .beforeWriteRead) (hpos : 0 < j)
      (htable : (q.usage (j - 1)).targetTable = (q.usage i).targetTable)
      (hsome : q.output (j - 1) ≠ [])
      (hnone : ∀ p v v', q.Reads i (p, v) → ¬ q.Reads (j - 1) (p, v')) : VersionSetEdge q j i

/-- The statement `build_OW_dependency` starts its edges from. -/
def Original (q : AnalyzedQueue) (i o : ℕ) : Prop :=
  ∃ j, q.NextNormal i j ∧
    (((q.usage j).stmtType = .updateWrite ∨ (q.usage j).stmtType = .insertWrite) ∧
        (q.usage (j + 1)).stmtType = .afterWriteRead ∧ j + 1 < q.stmtNum ∧ o = j + 1 ∨
      ((q.usage j).stmtType = .selectRead ∨ (q.usage j).stmtType = .deleteWrite) ∧ o = j)

/-- The edges of `build_OW_dependency` for the read `i`. -/
inductive OverwriteEdge (q : AnalyzedQueue) : ℕ → ℕ → Prop
  | replaced {i j o : ℕ} (pv : ℤ × ℤ) (hi : (q.usage i).stmtType = .versionSetRead)
      (ho : q.Original i o) (hj : (q.usage j).stmtType = .updateWrite ∨
        (q.usage j).stmtType = .deleteWrite)
      (hbefore : (q.usage (j - 1)).stmtType = .beforeWriteRead) (hpos : 0 < j)
      (hread : q.Reads i pv) (hreplaced : q.Reads (j - 1) pv) : OverwriteEdge q o (j - 1)
  | unseen {i j o : ℕ} (hi : (q.usage i).stmtType = .versionSetRead) (ho : q.Original i o)
      (hj : (q.usage j).stmtType = .insertWrite)
      (hafter : (q.usage (j + 1)).stmtType = .afterWriteRead) (hlt : j + 1 < q.stmtNum)
      (htable : (q.usage (j + 1)).targetTable = (q.usage i).targetTable)
      (hsome : q.output (j + 1) ≠ [])
      (hnone : ∀ p v v', q.Reads i (p, v) → ¬ q.Reads (j + 1) (p, v')) : OverwriteEdge q o j

/-- The edges of `build_WR_dependency` and `build_WW_dependency`. -/
structure WriteEdge (q : AnalyzedQueue) (i j : ℕ) : Prop where
  lt : i < j
  write : (q.usage i).stmtType = .afterWriteRead
  read : ∃ pv, q.Reads j pv

/-- The edges of `build_RW_dependency`: both statements return the same row version. -/
structure ReadWriteEdge (q : AnalyzedQueue) (i j : ℕ) : Prop where
  read : (q.usage i).stmtType = .selectRead ∨ (q.usage i).stmtType = .afterWriteRead
  write : (q.usage j).stmtType = .beforeWriteRead
  same : ∃ pv, q.Reads i pv ∧ q.Reads j pv

def Justified (q : AnalyzedQueue) (dt : DependencyType) (i j : ℕ) : Prop :=
  match dt with
  | .writeRead | .writeWrite => q.WriteEdge i j
  | .readWrite => q.ReadWriteEdge i j
  | .instrumentDepend => q.InstrumentEdge i j
  | .versionSetDepend => q.VersionSetEdge i j
  | .overwriteDepend => q.OverwriteEdge i j
  | .startDepend | .strictStartDepend | .innerDepend => True

/-- `g'` has the labels of `g` and justified ones. -/
structure Grown (q : AnalyzedQueue) (g g' : Graphs) : Prop where
  keeps : ∀ a b dt, dt ∈ g.stmt.labels a b → dt ∈ g'.stmt.labels a b
  added : ∀ a b dt, dt ∈ g'.stmt.labels a b → dt ∈ g.stmt.labels a b ∨
    ∃ i j, i < q.stmtNum ∧ j < q.stmtNum ∧ a = q.sid i ∧ b = q.sid j ∧ q.Justified dt i j

variable {q : AnalyzedQueue} {g g' g'' : Graphs}

theorem Grown.refl (q : AnalyzedQueue) (g : Graphs) : q.Grown g g :=
  ⟨fun _ _ _ h => h, fun _ _ _ h => Or.inl h⟩

theorem Grown.trans (h : q.Grown g g') (h' : q.Grown g' g'') : q.Grown g g'' where
  keeps a b dt hd := h'.keeps a b dt (h.keeps a b dt hd)
  added a b dt hd := by
    rcases h'.added a b dt hd with hd | hd
    · exact h.added a b dt hd
    · exact Or.inr hd

theorem grown_addTxn (q : AnalyzedQueue) (g : Graphs) (t u : ℕ) (dt : DependencyType) :
    q.Grown g (g.addTxn t u dt) := ⟨fun _ _ _ h => h, fun _ _ _ h => Or.inl h⟩

theorem grown_addTxnIfOther (q : AnalyzedQueue) (g : Graphs) (i j : ℕ) (dt : DependencyType) :
    q.Grown g (q.addTxnIfOther i j dt g) := by
  unfold addTxnIfOther
  split_ifs
  · exact grown_addTxn q g _ _ dt
  · exact Grown.refl q g

theorem grown_buildStmtDepend {i j : ℕ} {dt : DependencyType} (g : Graphs) (hi : i < q.stmtNum)
    (hj : j < q.stmtNum) (hjust : q.Justified dt i j) : q.Grown g (q.buildStmtDepend i j dt g) where
  keeps a b d hd := StmtGraph.mem_labels_insert.2 (Or.inr hd)
  added a b d hd := by
    rcases StmtGraph.mem_labels_insert.1 hd with ⟨rfl, rfl, rfl⟩ | hd
    · exact Or.inr ⟨i, j, hi, hj, rfl, rfl, hjust⟩
    · exact Or.inl hd

theorem grown_forRange {n : ℕ} {f : ℕ → Graphs → Except Failure Graphs}
    (hf : ∀ i < n, ∀ t t', f i t = .ok t' → q.Grown t t') (h : forRange n f g = .ok g') :
    q.Grown g g' :=
  forRange_inv (fun _ t => q.Grown g t) (Grown.refl q g)
    (fun i hi t t' ht hstep => ht.trans (hf i hi t t' hstep)) h

theorem grown_forEach {α : Type} {as : List α} {f : α → Graphs → Except Failure Graphs}
    (hf : ∀ a ∈ as, ∀ t t', f a t = .ok t' → q.Grown t t') (h : forEach as f g = .ok g') :
    q.Grown g g' :=
  forEach_inv (fun t => q.Grown g t) (Grown.refl q g)
    (fun a ha t t' ht hstep => ht.trans (hf a ha t t' hstep)) h

/-! Row histories. -/

/-- An operation of a statement before `k` comes from a row of its output. -/
def OpFrom (q : AnalyzedQueue) (k : ℕ) (op : OperateUnit) : Prop :=
  ∀ i, op.stmtIdx = some i → i < k ∧ op.stmtU = q.usage i ∧ q.Reads i (op.rowId, op.writeOpId)

/-- The operations on a row, in the order of their statements. -/
structure RowFrom (q : AnalyzedQueue) (k : ℕ) (rowId : ℤ) (ops : List OperateUnit) : Prop where
  row : ∀ op ∈ ops, op.rowId = rowId
  source : ∀ op ∈ ops, q.OpFrom k op
  ordered : ops.Pairwise fun op op' => ∀ i j, op.stmtIdx = some i → op'.stmtIdx = some j → i ≤ j

def HistoryFrom (q : AnalyzedQueue) (k : ℕ) (h : History) : Prop :=
  ∀ row ∈ h, q.RowFrom k row.1 row.2

theorem HistoryFrom.mono {k k' : ℕ} {h : History} (hh : q.HistoryFrom k h) (hle : k ≤ k') :
    q.HistoryFrom k' h := by
  intro row hrow
  obtain ⟨h1, h2, h3⟩ := hh row hrow
  refine ⟨h1, fun op hop i hi => ?_, h3⟩
  obtain ⟨hlt, hrest⟩ := h2 op hop i hi
  exact ⟨by omega, hrest⟩

theorem mem_insertToHistory {op : OperateUnit} {h : History} {row : ℤ × List OperateUnit}
    (hrow : row ∈ insertToHistory op h) :
    row ∈ h ∨ ∃ ops, row = (op.rowId, ops ++ [op]) ∧ (ops = [] ∨ (op.rowId, ops) ∈ h) := by
  induction h with
  | nil =>
    simp only [insertToHistory, List.mem_singleton] at hrow
    exact Or.inr ⟨[], by simpa using hrow, Or.inl rfl⟩
  | cons e rest ih =>
    obtain ⟨rowId, ops⟩ := e
    simp only [insertToHistory] at hrow
    split_ifs at hrow with hid
    · subst hid
      rcases List.mem_cons.1 hrow with rfl | hrow
      · exact Or.inr ⟨ops, rfl, Or.inr List.mem_cons_self⟩
      · exact Or.inl (List.mem_cons_of_mem _ hrow)
    · rcases List.mem_cons.1 hrow with rfl | hrow
      · exact Or.inl List.mem_cons_self
      · rcases ih hrow with hrow | ⟨ops', he, hops'⟩
        · exact Or.inl (List.mem_cons_of_mem _ hrow)
        · exact Or.inr ⟨ops', he, hops'.imp_right (List.mem_cons_of_mem _)⟩

/-- An operation that no earlier one follows goes to the end of its row. -/
theorem HistoryFrom.insert {k : ℕ} {h : History} {op : OperateUnit} (hh : q.HistoryFrom k h)
    (hop : q.OpFrom k op) (hlast : ∀ j, op.stmtIdx = some j → k ≤ j + 1) :
    q.HistoryFrom k (insertToHistory op h) := by
  intro row hrow
  rcases mem_insertToHistory hrow with hrow | ⟨ops, rfl, hops⟩
  · exact hh row hrow
  have hold : q.RowFrom k op.rowId ops := by
    rcases hops with rfl | hops
    · exact ⟨by simp, by simp, List.Pairwise.nil⟩
    · exact hh _ hops
  refine ⟨?_, ?_, ?_⟩
  · intro o ho
    rcases List.mem_append.1 ho with ho | ho
    · exact hold.row o ho
    · rw [List.mem_singleton.1 ho]
  · intro o ho
    rcases List.mem_append.1 ho with ho | ho
    · exact hold.source o ho
    · rw [List.mem_singleton.1 ho]; exact hop
  · refine List.pairwise_append.2 ⟨hold.ordered, by simp, ?_⟩
    intro o ho o' ho' i j hi hj
    rw [List.mem_singleton.1 ho'] at hj
    have h1 := (hold.source o ho i hi).1
    have h2 := hlast j hj
    omega

theorem pairOf_of_keyOf {row : RowOutput} {p v : ℤ} (hp : keyOf row q.primaryKeyIndex = .ok p)
    (hv : keyOf row q.versionKeyIndex = .ok v) : q.pairOf row = .ok (p, v) := by
  simp [pairOf, hp, hv, bind, Except.bind, pure, Except.pure]

theorem historyFrom_buildHistory {initOutput : List StmtOutput} {h : History}
    (hbuild : q.buildHistory initOutput = .ok h) : q.HistoryFrom q.stmtNum h := by
  obtain ⟨h0, hinit, hloop⟩ := bind_eq_ok_iff.1 hbuild
  have hbase : q.HistoryFrom 0 h0 := by
    refine forEach_inv (q.HistoryFrom 0) (by intro row hrow; cases hrow) ?_ hinit
    intro output _ t t' ht hstep
    refine forEach_inv (q.HistoryFrom 0) ht ?_ hstep
    intro row _ u u' hu hins
    obtain ⟨p, -, hins⟩ := bind_eq_ok_iff.1 hins
    obtain ⟨v, -, hins⟩ := bind_eq_ok_iff.1 hins
    cases hins
    exact hu.insert (fun i hi => by cases hi) (fun j hj => by cases hj)
  refine forRange_inv (fun i t => q.HistoryFrom i t) hbase ?_ hloop
  intro i _ t t' ht hstep
  refine forEach_inv (q.HistoryFrom (i + 1)) (ht.mono (by omega)) ?_ hstep
  intro row hrow u u' hu hins
  obtain ⟨p, hp, hins⟩ := bind_eq_ok_iff.1 hins
  obtain ⟨v, hv, hins⟩ := bind_eq_ok_iff.1 hins
  cases hins
  refine hu.insert (fun j hj => ?_) (fun j hj => ?_)
  · cases hj
    exact ⟨by omega, rfl, row, hrow, pairOf_of_keyOf hp hv⟩
  · cases hj
    omega

/-! The builders. -/

theorem grown_buildOpDepend {k : ℕ} {op target : OperateUnit} {dt : DependencyType} (g : Graphs)
    (hk : k ≤ q.stmtNum) (hop : q.OpFrom k op) (htarget : q.OpFrom k target)
    (hjust : ∀ i j, op.stmtIdx = some i → target.stmtIdx = some j → q.Justified dt i j) :
    q.Grown g (q.buildOpDepend op target dt g) := by
  have hstmt : ∀ i j, op.stmtIdx = some i → target.stmtIdx = some j →
      q.Grown g (q.buildStmtDepend i j dt g) := by
    intro i j hi hj
    have h1 := (hop i hi).1
    have h2 := (htarget j hj).1
    exact grown_buildStmtDepend g (by omega) (by omega) (hjust i j hi hj)
  unfold buildOpDepend
  dsimp only
  split_ifs <;> split
  · next i j hi hj => exact (hstmt i j hi hj).trans (grown_addTxn q _ _ _ _)
  · exact grown_addTxn q _ _ _ _
  · next i j hi hj => exact hstmt i j hi hj
  · exact Grown.refl q g

/-- The nearest write stands before the target and is not its own statement. -/
theorem grown_buildNearestWrite {rowId : ℤ} {ops : List OperateUnit} {opIdx : ℕ}
    {target : OperateUnit} {dt : DependencyType} (hrow : q.RowFrom q.stmtNum rowId ops)
    (htarget : ops[opIdx]? = some target) (hne : target.stmtU.stmtType ≠ .afterWriteRead)
    (hjust : ∀ i j, q.WriteEdge i j → q.Justified dt i j)
    (h : q.buildNearestWrite dt ops opIdx target g = .ok g') : q.Grown g g' := by
  unfold buildNearestWrite at h
  split at h
  · cases h
  next op hfind =>
  cases h
  have hmem : op ∈ ops.take opIdx := by
    have := List.mem_of_find?_eq_some hfind
    simpa using this
  have hwrite := List.find?_some hfind
  simp only [Bool.and_eq_true, beq_iff_eq] at hwrite
  have htm : target ∈ ops := List.mem_of_getElem? htarget
  refine grown_buildOpDepend g le_rfl (hrow.source op (List.mem_of_mem_take hmem))
    (hrow.source target htm) ?_
  intro i j hi hj
  have hsource := hrow.source op (List.mem_of_mem_take hmem) i hi
  have hread := hrow.source target htm j hj
  have hle : i ≤ j := by
    have hpair := hrow.ordered
    rw [← List.take_append_drop opIdx ops, List.pairwise_append] at hpair
    refine hpair.2.2 op hmem target ?_ i j hi hj
    exact List.mem_of_getElem? (i := 0) (by rw [List.getElem?_drop]; simpa using htarget)
  have husage : i ≠ j := by
    rintro rfl
    exact hne (by rw [hread.2.1, ← hsource.2.1]; exact hwrite.1)
  exact hjust i j ⟨by omega, by rw [← hsource.2.1]; exact hwrite.1, _, hread.2.2⟩

theorem grown_buildRowDependency {rowId : ℤ} {ops : List OperateUnit} {opIdx : ℕ}
    (hrow : q.RowFrom q.stmtNum rowId ops) (h : q.buildRowDependency ops opIdx g = .ok g') :
    q.Grown g g' := by
  unfold buildRowDependency at h
  split at h
  · cases h
  next target htarget =>
  split at h
  · cases h; exact Grown.refl q g
  split at h
  · cases h; exact Grown.refl q g
  next hne =>
  obtain ⟨g1, hwr, h⟩ := bind_eq_ok_iff.1 h
  have h1 : q.Grown g g1 :=
    grown_buildNearestWrite hrow htarget hne
      (show ∀ i j, q.WriteEdge i j → q.Justified .writeRead i j from fun _ _ he => he) hwr
  split at h
  · next hbefore =>
    obtain ⟨g2, hww, h⟩ := bind_eq_ok_iff.1 h
    have h2 : q.Grown g1 g2 :=
      grown_buildNearestWrite hrow htarget hne
        (show ∀ i j, q.WriteEdge i j → q.Justified .writeWrite i j from fun _ _ he => he) hww
    refine (h1.trans h2).trans (grown_forEach ?_ h)
    intro op hop t t' hstep
    split at hstep
    · next hread =>
      cases hstep
      have htm : target ∈ ops := List.mem_of_getElem? htarget
      refine grown_buildOpDepend t le_rfl (hrow.source op hop) (hrow.source target htm) ?_
      intro i j hi hj
      obtain ⟨-, hui, hri⟩ := hrow.source op hop i hi
      obtain ⟨-, huj, hrj⟩ := hrow.source target htm j hj
      refine ⟨by rw [← hui]; exact hread.1, by rw [← huj]; exact hbefore, _, hri, ?_⟩
      rw [hrow.row op hop, hread.2, ← hrow.row target htm]
      exact hrj
    · cases hstep; exact Grown.refl q t
  · cases h; exact h1

theorem grown_buildRowDependencies {h : History} (hh : q.HistoryFrom q.stmtNum h)
    (hbuild : q.buildRowDependencies h g = .ok g') : q.Grown g g' :=
  grown_forEach (fun row hrow _ _ hstep =>
    grown_forRange (fun _ _ _ _ hr => grown_buildRowDependency (hh row hrow) hr) hstep) hbuild

/-- The labels a round of `build_stmt_instrument_dependency` leaves behind. -/
def RoundDone (q : AnalyzedQueue) (g : Graphs) (r : ℕ) : Prop :=
  ∀ i j, q.InstrumentEdge i j →
    ((q.usage i).stmtType = .beforeWriteRead ∧ i = r ∨ (q.usage j).stmtType = .afterWriteRead ∧
      j = r ∨ (q.usage i).stmtType = .versionSetRead ∧ i = r) →
    DependencyType.instrumentDepend ∈ g.stmt.labels (q.sid i) (q.sid j)

theorem RoundDone.mono {r : ℕ} (h : q.RoundDone g r) (hg : q.Grown g g') : q.RoundDone g' r :=
  fun i j he hr => hg.keeps _ _ _ (h i j he hr)

/-- What the round checks of an instrumented read. -/
def Placed (q : AnalyzedQueue) (r : ℕ) : Prop :=
  match (q.usage r).stmtType with
  | .beforeWriteRead => q.InstrumentEdge r (r + 1)
  | .afterWriteRead => 0 < r ∧ q.InstrumentEdge (r - 1) r
  | .versionSetRead => ∃ j, q.InstrumentEdge r j
  | _ => True

theorem normalPosOf_spec {i remaining pos r : ℕ} (h : q.normalPosOf i remaining pos = .ok r) :
    pos ≤ r ∧ r < pos + remaining ∧ (q.usage r).stmtType.isNormal = true ∧
      (∀ k, pos ≤ k → k < r → (q.usage k).stmtType.isNormal = false) ∧
      ∀ k, pos ≤ k → k ≤ r → q.tid k = q.tid i := by
  induction remaining generalizing pos with
  | zero => cases h
  | succ remaining ih =>
    rw [normalPosOf] at h
    split at h
    · cases h
    next htid =>
    rw [not_not] at htid
    split at h
    · next hnormal =>
      cases h
      refine ⟨le_rfl, by omega, hnormal, fun k hk hk' => by omega, fun k hk hk' => ?_⟩
      obtain rfl : k = r := by omega
      exact htid
    · next hnormal =>
      obtain ⟨h1, h2, h3, h4, h5⟩ := ih h
      refine ⟨by omega, by omega, h3, fun k hk hk' => ?_, fun k hk hk' => ?_⟩
      · by_cases hpos : k = pos
        · rw [hpos]; simpa using hnormal
        · exact h4 k (by omega) hk'
      · by_cases hpos : k = pos
        · rw [hpos]; exact htid
        · exact h5 k (by omega) hk'

theorem NextNormal.unique {i j j' : ℕ} (h : q.NextNormal i j) (h' : q.NextNormal i j') : j = j' := by
  obtain ⟨h1, -, h3, h4⟩ := h
  obtain ⟨h1', -, h3', h4'⟩ := h'
  rcases Nat.lt_trichotomy j j' with hlt | rfl | hlt
  · rw [h4' j h1 hlt] at h3; cases h3
  · rfl
  · rw [h4 j' h1' hlt] at h3'; cases h3'

theorem mem_buildStmtDepend (q : AnalyzedQueue) (g : Graphs) (i j : ℕ) (dt : DependencyType) :
    dt ∈ (q.buildStmtDepend i j dt g).stmt.labels (q.sid i) (q.sid j) :=
  StmtGraph.mem_labels_insert.2 (Or.inl ⟨rfl, rfl, rfl⟩)

/-- A round adds one justified edge, and that is the only one it is responsible for. -/
theorem instrumentRound_spec {r : ℕ} (hr : r < q.stmtNum) (h : q.instrumentRound r g = .ok g') :
    q.Grown g g' ∧ q.RoundDone g' r ∧ q.Placed r := by
  unfold instrumentRound at h
  split at h
  · next hu =>
    split at h
    · cases h
    split at h
    · cases h
    split at h
    · cases h
    next hlt htid hnext =>
    cases h
    have hedge : q.InstrumentEdge r (r + 1) :=
      .before hu (by omega) (not_not.1 htid) (by
        by_contra hc
        rw [not_or] at hc
        exact hnext hc)
    have hplaced : q.Placed r := by unfold Placed; rw [hu]; exact hedge
    refine ⟨grown_buildStmtDepend g hr (by omega) hedge, fun i j he hcase => ?_, hplaced⟩
    rcases hcase with ⟨hi, rfl⟩ | ⟨hj, rfl⟩ | ⟨hi, rfl⟩
    · cases he with
      | before => exact mem_buildStmtDepend q g _ _ _
      | after => exact mem_buildStmtDepend q g _ _ _
      | versionSet hi' => rw [hu] at hi'; cases hi'
    · rw [hu] at hj; cases hj
    · rw [hu] at hi; cases hi
  · next hu =>
    split at h
    · cases h
    split at h
    · cases h
    split at h
    · cases h
    next hzero htid hprev =>
    cases h
    obtain ⟨k, rfl⟩ : ∃ k, r = k + 1 := ⟨r - 1, by omega⟩
    have hedge : q.InstrumentEdge k (k + 1) :=
      .after hu hr (not_not.1 htid) (by
        by_contra hc
        rw [not_or] at hc
        exact hprev hc)
    have hplaced : q.Placed (k + 1) := by unfold Placed; rw [hu]; exact ⟨by omega, hedge⟩
    refine ⟨grown_buildStmtDepend g (by omega) hr hedge, fun i j he hcase => ?_, hplaced⟩
    rcases hcase with ⟨hi, rfl⟩ | ⟨hj, rfl⟩ | ⟨hi, rfl⟩
    · rw [hu] at hi; cases hi
    · cases he with
      | before => exact mem_buildStmtDepend q g _ _ _
      | after => exact mem_buildStmtDepend q g _ _ _
      | versionSet _ hn =>
        have := hn.2.2.1
        rw [hu] at this
        cases this
    · rw [hu] at hi; cases hi
  · next hu =>
    obtain ⟨pos, hpos, h⟩ := bind_eq_ok_iff.1 h
    cases h
    obtain ⟨h1, h2, h3, h4, h5⟩ := normalPosOf_spec hpos
    have hnext : q.NextNormal r pos := ⟨by omega, by omega, h3, fun k hk hk' => h4 k (by omega) hk'⟩
    have hedge : q.InstrumentEdge r pos :=
      .versionSet hu hnext (fun k hk hk' => h5 k (by omega) hk')
    have hplaced : q.Placed r := by unfold Placed; rw [hu]; exact ⟨pos, hedge⟩
    refine ⟨grown_buildStmtDepend g hr hnext.2.1 hedge, fun i j he hcase => ?_, hplaced⟩
    rcases hcase with ⟨hi, rfl⟩ | ⟨hj, rfl⟩ | ⟨hi, rfl⟩
    · rw [hu] at hi; cases hi
    · rw [hu] at hj; cases hj
    · cases he with
      | before hi' => rw [hu] at hi'; cases hi'
      | after _ _ _ hprev => rw [hu] at hprev; simp at hprev
      | versionSet _ hn =>
        rw [hn.unique hnext]
        exact mem_buildStmtDepend q g _ _ _
  · next hb ha hv =>
    cases h
    have hplaced : q.Placed r := by unfold Placed; split <;> simp_all
    refine ⟨Grown.refl q g, fun i j he hcase => ?_, hplaced⟩
    rcases hcase with ⟨hi, rfl⟩ | ⟨hj, rfl⟩ | ⟨hi, rfl⟩
    · exact absurd hi hb
    · exact absurd hj ha
    · exact absurd hi hv

/-- The search finds the next normal statement when no other transaction is in between. -/
theorem normalPosOf_eq {i j remaining pos : ℕ} (hj : (q.usage j).stmtType.isNormal = true)
    (hbetween : ∀ k, pos ≤ k → k < j → (q.usage k).stmtType.isNormal = false)
    (htid : ∀ k, pos ≤ k → k ≤ j → q.tid k = q.tid i) (hpos : pos ≤ j)
    (hlt : j < pos + remaining) : q.normalPosOf i remaining pos = .ok j := by
  induction remaining generalizing pos with
  | zero => omega
  | succ remaining ih =>
    rw [normalPosOf, if_neg (not_not.2 (htid pos le_rfl hpos))]
    by_cases heq : pos = j
    · rw [heq, if_pos hj]
    · rw [if_neg (by simp [hbetween pos le_rfl (by omega)])]
      exact ih (fun k hk => hbetween k (by omega)) (fun k hk => htid k (by omega)) (by omega)
        (by omega)

/-- A round does not throw on a placed statement. -/
theorem instrumentRound_ok {r : ℕ} (h : q.Placed r) (g : Graphs) :
    ∃ g', q.instrumentRound r g = .ok g' := by
  unfold Placed at h
  unfold instrumentRound
  cases hu : (q.usage r).stmtType with
  | beforeWriteRead =>
    rw [hu] at h
    cases h with
    | before _ hlt htid hnext =>
      dsimp only
      rw [if_neg (by omega), if_neg (by simpa using htid), if_neg (by tauto)]
      exact ⟨_, rfl⟩
    | after _ _ _ hprev => rw [hu] at hprev; simp at hprev
    | versionSet hi => rw [hu] at hi; cases hi
  | afterWriteRead =>
    rw [hu] at h
    obtain ⟨hpos, hedge⟩ := h
    obtain ⟨k, rfl⟩ : ∃ k, r = k + 1 := ⟨r - 1, by omega⟩
    rw [Nat.add_sub_cancel] at hedge
    cases hedge with
    | before _ _ _ hnext => rw [hu] at hnext; simp at hnext
    | after _ _ htid hprev =>
      dsimp only
      rw [Nat.add_sub_cancel, if_neg (by omega), if_neg (by simpa using htid), if_neg (by tauto)]
      exact ⟨_, rfl⟩
    | versionSet _ hj =>
      have := hj.2.2.1
      rw [hu] at this
      cases this
  | versionSetRead =>
    rw [hu] at h
    obtain ⟨j, hedge⟩ := h
    cases hedge with
    | before hi => rw [hu] at hi; cases hi
    | after _ _ _ hprev => rw [hu] at hprev; simp at hprev
    | versionSet _ hj htid =>
      have hlt := hj.2.1
      have hfind : q.normalPosOf r (q.stmtNum - (r + 1)) (r + 1) = .ok j :=
        normalPosOf_eq hj.2.2.1 (fun k hk => hj.2.2.2 k (by omega)) (fun k hk => htid k (by omega))
          hj.1 (by omega)
      dsimp only
      rw [hfind]
      exact ⟨_, rfl⟩
  | initType | selectRead | updateWrite | insertWrite | deleteWrite => exact ⟨_, rfl⟩

theorem buildStmtInstrumentDependency_ok (h : ∀ r < q.stmtNum, q.Placed r) (g : Graphs) :
    ∃ g', q.buildStmtInstrumentDependency g = .ok g' :=
  forRange_succeeds (fun r hr t => instrumentRound_ok (h r hr) t) g

theorem buildStmtInstrumentDependency_spec (h : q.buildStmtInstrumentDependency g = .ok g') :
    q.Grown g g' ∧ (∀ i j, q.InstrumentEdge i j →
      .instrumentDepend ∈ g'.stmt.labels (q.sid i) (q.sid j)) ∧ ∀ i < q.stmtNum, q.Placed i := by
  have hinv := forRange_inv (fun k t => q.Grown g t ∧ ∀ r < k, q.RoundDone t r ∧ q.Placed r)
    ⟨Grown.refl q g, fun r hr => by omega⟩
    (fun r hr t t' ht hstep => by
      obtain ⟨hgrown, hdone, hplaced⟩ := instrumentRound_spec hr hstep
      refine ⟨ht.1.trans hgrown, fun k hk => ?_⟩
      rcases Nat.lt_succ_iff_lt_or_eq.1 hk with hk | rfl
      · exact ⟨(ht.2 k hk).1.mono hgrown, (ht.2 k hk).2⟩
      · exact ⟨hdone, hplaced⟩) h
  refine ⟨hinv.1, fun i j he => ?_, fun i hi => (hinv.2 i hi).2⟩
  have hcase := he
  cases hcase with
  | before hi hlt => exact (hinv.2 i (by omega)).1 i (i + 1) he (Or.inl ⟨hi, rfl⟩)
  | after hi hlt => exact (hinv.2 (i + 1) hlt).1 i (i + 1) he (Or.inr (Or.inl ⟨hi, rfl⟩))
  | versionSet hi hj =>
    have hij := hj.1
    have hjn := hj.2.1
    exact (hinv.2 i (by omega)).1 i j he (Or.inr (Or.inr ⟨hi, rfl⟩))

theorem grown_buildStmtStartDependency {t u : ℕ} {dt : DependencyType}
    (hjust : ∀ i j, q.Justified dt i j) (h : q.buildStmtStartDependency t u dt g = .ok g') :
    q.Grown g g' := by
  refine grown_forRange (fun i hi s s' hs => ?_) h
  split at hs
  · cases hs; exact Grown.refl q s
  · refine grown_forRange (fun j hj r r' hr => ?_) hs
    split at hr
    · cases hr; exact Grown.refl q r
    · cases hr; exact grown_buildStmtDepend r hi hj (hjust i j)

theorem grown_startRound {i j : ℕ} {dt : DependencyType} {later : Bool}
    (hjust : ∀ i j, q.Justified dt i j) (h : q.startRound i j dt later g = .ok g') :
    q.Grown g g' := by
  unfold startRound at h
  split at h
  · exact (grown_addTxn q g i j dt).trans (grown_buildStmtStartDependency hjust h)
  · cases h; exact Grown.refl q g

theorem grown_buildStartDependency (h : q.buildStartDependency g = .ok g') : q.Grown g g' := by
  refine grown_forRange (fun i _ s s' hs => grown_forRange (fun j _ r r' hr => ?_) hs) h
  split at hr
  · cases hr; exact Grown.refl q r
  obtain ⟨r1, h1, h2⟩ := bind_eq_ok_iff.1 hr
  have hstart : ∀ i j, q.Justified .startDepend i j := fun _ _ => trivial
  have hstrict : ∀ i j, q.Justified .strictStartDepend i j := fun _ _ => trivial
  exact (grown_startRound hstart h1).trans (grown_startRound hstrict h2)

theorem grown_buildStmtInnerDependency (h : q.buildStmtInnerDependency g = .ok g') :
    q.Grown g g' := by
  refine grown_forRange (fun i hi s s' hs => grown_forRange (fun j hj r r' hr => ?_) hs) h
  split at hr
  · cases hr; exact grown_buildStmtDepend r (by omega) hi trivial
  · cases hr; exact Grown.refl q r

/-! Keys. -/

theorem mem_pairSet {k : ℕ} {pairs : List (ℤ × ℤ)} (h : q.pairSet (q.output k) = .ok pairs)
    (pv : ℤ × ℤ) : pv ∈ pairs ↔ q.Reads k pv := mem_mapM_iff h pv

theorem primaryOf_of_pairOf {row : RowOutput} {p v : ℤ} (h : q.pairOf row = .ok (p, v)) :
    q.primaryOf row = .ok p := by
  obtain ⟨p', hp, h⟩ := bind_eq_ok_iff.1 h
  obtain ⟨v', -, h⟩ := bind_eq_ok_iff.1 h
  cases h
  exact hp

theorem mem_primarySet {k : ℕ} {keys : List ℤ} (h : q.primarySet (q.output k) = .ok keys)
    {p v : ℤ} (hr : q.Reads k (p, v)) : p ∈ keys := by
  obtain ⟨row, hrow, hpair⟩ := hr
  exact (mem_mapM_iff h p).2 ⟨row, hrow, primaryOf_of_pairOf hpair⟩

theorem usageAt_eq_ok {i : ℤ} {u : StmtUsage} (h : q.usageAt i = .ok u) :
    0 ≤ i ∧ i < q.stmtNum ∧ u = q.usage i.toNat := by
  unfold usageAt at h
  split_ifs at h with hi
  cases h
  exact ⟨hi.1, hi.2, rfl⟩

theorem afterWriteOf_eq_ok {text : String} {j : ℕ} {u : StmtUsage}
    (h : q.afterWriteOf text j = .ok u) :
    j + 1 < q.stmtNum ∧ u = q.usage (j + 1) ∧ u.stmtType = .afterWriteRead := by
  obtain ⟨v, hv, h⟩ := bind_eq_ok_iff.1 h
  split_ifs at h with htype
  cases h
  obtain ⟨-, h2, h3⟩ := usageAt_eq_ok hv
  exact ⟨by omega, by simpa using h3, htype⟩

theorem beforeWriteOf_eq_ok {text : String} {j : ℕ} {u : StmtUsage}
    (h : q.beforeWriteOf text j = .ok u) :
    0 < j ∧ j - 1 < q.stmtNum ∧ u = q.usage (j - 1) ∧ u.stmtType = .beforeWriteRead := by
  obtain ⟨v, hv, h⟩ := bind_eq_ok_iff.1 h
  split_ifs at h with htype
  cases h
  obtain ⟨h1, h2, h3⟩ := usageAt_eq_ok hv
  refine ⟨by omega, by omega, ?_, htype⟩
  rw [h3, show ((j : ℤ) - 1).toNat = j - 1 by omega]

/-- Two key sets that the source intersects have a common pair. -/
theorem exists_common_pair {i k : ℕ} {iPairs kPairs : List (ℤ × ℤ)}
    (hi : q.pairSet (q.output i) = .ok iPairs) (hk : q.pairSet (q.output k) = .ok kPairs)
    (h : iPairs.any (kPairs.contains ·) = true) : ∃ pv, q.Reads i pv ∧ q.Reads k pv := by
  obtain ⟨pv, hmem, hc⟩ := List.any_eq_true.1 h
  exact ⟨pv, (mem_pairSet hi pv).1 hmem, (mem_pairSet hk pv).1 (by simpa using hc)⟩

/-- Two sets of primary keys with an empty intersection. -/
theorem no_common_primary {i k : ℕ} {iPairs : List (ℤ × ℤ)} {keys : List ℤ}
    (hi : q.pairSet (q.output i) = .ok iPairs) (hk : q.primarySet (q.output k) = .ok keys)
    (h : (!(iPairs.map Prod.fst).any (keys.contains ·)) = true) (p v v' : ℤ)
    (hr : q.Reads i (p, v)) : ¬ q.Reads k (p, v') := by
  intro hrk
  rw [Bool.not_eq_true', List.any_eq_false] at h
  refine h p (List.mem_map.2 ⟨(p, v), (mem_pairSet hi _).2 hr, rfl⟩) ?_
  simpa using mem_primarySet hk hrk

theorem grown_versionSetRound {i j : ℕ} {iPairs : List (ℤ × ℤ)} (hi : i < q.stmtNum)
    (hu : (q.usage i).stmtType = .versionSetRead) (hpairs : q.pairSet (q.output i) = .ok iPairs)
    (hj : j < q.stmtNum) (h : q.versionSetRound i iPairs j g = .ok g') : q.Grown g g' := by
  have hadd := grown_addTxnIfOther q g j i .versionSetDepend
  unfold versionSetRound at h
  split at h
  -- an update or an insert
  case h_1 | h_2 =>
    next hju =>
    obtain ⟨u, hafter, h⟩ := bind_eq_ok_iff.1 h
    obtain ⟨hlt, rfl, htype⟩ := afterWriteOf_eq_ok hafter
    obtain ⟨kPairs, hk, h⟩ := bind_eq_ok_iff.1 h
    cases h
    split
    · next hany =>
      obtain ⟨pv, h1, h2⟩ := exists_common_pair hpairs hk hany
      exact hadd.trans (grown_buildStmtDepend _ hlt hi
        (VersionSetEdge.seen pv hu (by simp [hju]) htype hlt h1 h2))
    · exact Grown.refl q g
  case h_3 =>
    next hju =>
    obtain ⟨u, hbefore, h⟩ := bind_eq_ok_iff.1 h
    obtain ⟨hpos, -, rfl, htype⟩ := beforeWriteOf_eq_ok hbefore
    split at h
    · cases h
    split at h
    · cases h; exact Grown.refl q g
    next htable =>
    split at h
    · cases h; exact Grown.refl q g
    next hsome =>
    obtain ⟨keys, hk, h⟩ := bind_eq_ok_iff.1 h
    cases h
    split
    · next hnone =>
      exact hadd.trans (grown_buildStmtDepend _ hj hi (VersionSetEdge.gone hu hju htype hpos
        (not_not.1 htable) hsome (no_common_primary hpairs hk hnone)))
    · exact Grown.refl q g
  case h_4 => cases h; exact Grown.refl q g

theorem grown_buildVSDependency (h : q.buildVSDependency g = .ok g') : q.Grown g g' := by
  refine grown_forRange (fun i hi s s' hs => ?_) h
  split at hs
  · cases hs; exact Grown.refl q s
  next hu =>
  obtain ⟨iPairs, hpairs, hs⟩ := bind_eq_ok_iff.1 hs
  exact grown_forRange
    (fun j hj r r' hr => grown_versionSetRound hi (not_not.1 hu) hpairs hj hr) hs

theorem orginalIndex_spec {i o : ℕ} (h : q.orginalIndex i = .ok o) :
    q.Original i o ∧ o < q.stmtNum := by
  unfold orginalIndex at h
  split at h
  · cases h
  next j hfind =>
  obtain ⟨hp, hmem, hfirst⟩ := List.find?_range_eq_some.1 hfind
  have hj : j < q.stmtNum := List.mem_range.1 hmem
  simp only [Bool.and_eq_true, decide_eq_true_eq] at hp
  have hnext : q.NextNormal i j := by
    refine ⟨hp.1, hj, hp.2, fun k hik hkj => ?_⟩
    have := hfirst k hkj
    simpa [hik] using this
  split at h
  · next hw =>
    obtain ⟨u, hafter, h⟩ := bind_eq_ok_iff.1 h
    cases h
    obtain ⟨hlt, rfl, htype⟩ := afterWriteOf_eq_ok hafter
    exact ⟨⟨j, hnext, Or.inl ⟨hw, htype, hlt, rfl⟩⟩, hlt⟩
  · next hw =>
    cases h
    refine ⟨⟨o, hnext, Or.inr ⟨?_, rfl⟩⟩, hj⟩
    have hnormal := hp.2
    revert hw hnormal
    generalize (q.usage o).stmtType = st
    cases st <;> simp [StmtBasicType.isNormal]

theorem grown_overwriteRound {i o j : ℕ} {iPairs : List (ℤ × ℤ)}
    (hu : (q.usage i).stmtType = .versionSetRead) (hpairs : q.pairSet (q.output i) = .ok iPairs)
    (ho : q.Original i o) (hon : o < q.stmtNum) (hj : j < q.stmtNum)
    (h : q.overwriteRound i iPairs o j g = .ok g') : q.Grown g g' := by
  have hadd := grown_addTxnIfOther q g i j .overwriteDepend
  unfold overwriteRound at h
  split at h
  -- an update or a delete
  case h_1 | h_2 =>
    next hju =>
    obtain ⟨u, hbefore, h⟩ := bind_eq_ok_iff.1 h
    obtain ⟨hpos, hlt, rfl, htype⟩ := beforeWriteOf_eq_ok hbefore
    obtain ⟨kPairs, hk, h⟩ := bind_eq_ok_iff.1 h
    cases h
    split
    · next hany =>
      obtain ⟨pv, h1, h2⟩ := exists_common_pair hpairs hk hany
      exact hadd.trans (grown_buildStmtDepend _ hon hlt
        (OverwriteEdge.replaced pv hu ho (by simp [hju]) htype hpos h1 h2))
    · exact Grown.refl q g
  case h_3 =>
    next hju =>
    obtain ⟨u, hafter, h⟩ := bind_eq_ok_iff.1 h
    obtain ⟨hlt, rfl, htype⟩ := afterWriteOf_eq_ok hafter
    split at h
    · cases h
    split at h
    · cases h; exact Grown.refl q g
    next htable =>
    split at h
    · cases h; exact Grown.refl q g
    next hsome =>
    obtain ⟨keys, hk, h⟩ := bind_eq_ok_iff.1 h
    cases h
    split
    · next hnone =>
      exact hadd.trans (grown_buildStmtDepend _ hon hj (OverwriteEdge.unseen hu ho hju htype hlt
        (not_not.1 htable) hsome (no_common_primary hpairs hk hnone)))
    · exact Grown.refl q g
  case h_4 => cases h; exact Grown.refl q g

theorem grown_buildOWDependency (h : q.buildOWDependency g = .ok g') : q.Grown g g' := by
  refine grown_forRange (fun i _ s s' hs => ?_) h
  split at hs
  · cases hs; exact Grown.refl q s
  next hu =>
  obtain ⟨iPairs, hpairs, hs⟩ := bind_eq_ok_iff.1 hs
  obtain ⟨o, horg, hs⟩ := bind_eq_ok_iff.1 hs
  obtain ⟨ho, hon⟩ := orginalIndex_spec horg
  exact grown_forRange
    (fun j hj r r' hr => grown_overwriteRound (not_not.1 hu) hpairs ho hon hj hr) hs

end AnalyzedQueue

/-! The graph of an accepted history. -/

/-- Every label is explained, the instrument labels are there, and every instrumented
read has its place. -/
structure DependencyAnalyzer.Explained (a : DependencyAnalyzer) : Prop where
  sound : ∀ x y dt, dt ∈ a.graphs.stmt.labels x y → ∃ i j, i < a.queue.stmtNum ∧
    j < a.queue.stmtNum ∧ x = a.queue.sid i ∧ y = a.queue.sid j ∧ a.queue.Justified dt i j
  linked : ∀ i j, a.queue.InstrumentEdge i j →
    DependencyType.instrumentDepend ∈ a.graphs.stmt.labels (a.queue.sid i) (a.queue.sid j)
  placed : ∀ i < a.queue.stmtNum, a.queue.Placed i

theorem dependencyAnalyzer_explained {inp : AnalyzerInput} {a : DependencyAnalyzer}
    (h : dependencyAnalyzer inp = .ok a) : a.Explained := by
  obtain ⟨q, -, h⟩ := bind_eq_ok_iff.1 h
  obtain ⟨hist, hhist, h⟩ := bind_eq_ok_iff.1 h
  obtain ⟨g1, h1, h⟩ := bind_eq_ok_iff.1 h
  obtain ⟨g2, h2, h⟩ := bind_eq_ok_iff.1 h
  obtain ⟨g3, h3, h⟩ := bind_eq_ok_iff.1 h
  obtain ⟨g4, h4, h⟩ := bind_eq_ok_iff.1 h
  obtain ⟨g5, h5, h⟩ := bind_eq_ok_iff.1 h
  obtain ⟨g6, h6, h⟩ := bind_eq_ok_iff.1 h
  cases h
  obtain ⟨hg1, hlinked, hplaced⟩ := AnalyzedQueue.buildStmtInstrumentDependency_spec h1
  have hrest : q.Grown g1 g6 :=
    (AnalyzedQueue.grown_buildRowDependencies
      (AnalyzedQueue.historyFrom_buildHistory hhist) h2).trans
    ((AnalyzedQueue.grown_buildStartDependency h3).trans
    ((AnalyzedQueue.grown_buildVSDependency h4).trans
    ((AnalyzedQueue.grown_buildOWDependency h5).trans
      (AnalyzedQueue.grown_buildStmtInnerDependency h6))))
  refine ⟨fun x y dt hd => ?_, fun i j he => hrest.keeps _ _ _ (hlinked i j he),
    hplaced⟩
  rcases (hg1.trans hrest).added x y dt hd with hd | hd
  · simp [StmtGraph.labels] at hd
  · exact hd

end DbFuzz
