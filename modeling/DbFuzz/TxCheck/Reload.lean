import DbFuzz.TxCheck.RowEdges
import DbFuzz.TxCheck.Reproduce

/-! The analyzer on a reproduced test case. The usage file keeps the types only, so the two
graphs can differ where the predicate dependencies compare target tables. -/

namespace DbFuzz

open Loop

/-! The reloaded queue. -/

/-- The input with the usages that the loader reads from the saved file. -/
def AnalyzerInput.reproduced (inp : AnalyzerInput) : Except Failure AnalyzerInput := do
  let usages ← (readInts (printUsages inp.finalStmtUsage)).mapM loadUsage
  return { inp with finalStmtUsage := usages }

def AnalyzerInput.reload (inp : AnalyzerInput) : AnalyzerInput :=
  { inp with finalStmtUsage := inp.finalStmtUsage.map StmtUsage.reload }

theorem AnalyzerInput.reproduced_eq (inp : AnalyzerInput) : inp.reproduced = .ok inp.reload := by
  rw [reproduced, readInts_printUsages]
  rfl

def AnalyzedQueue.reload (q : AnalyzedQueue) : AnalyzedQueue :=
  { q with
    fStmtUsage := q.fStmtUsage.map StmtUsage.reload
    usage_length := by rw [List.length_map]; exact q.usage_length }

theorem copy_reload {inp : AnalyzerInput} {q : AnalyzedQueue} (h : inp.copy = .ok q) :
    inp.reload.copy = .ok q.reload := by
  unfold AnalyzerInput.copy at h ⊢
  split at h
  · next hsize =>
    split at h
    · next htid =>
      cases h
      have hsize' : inp.reload.totalOutput.length = inp.reload.finalTidQueue.length ∧
          inp.reload.totalOutput.length = inp.reload.finalStmtUsage.length := by
        simpa [AnalyzerInput.reload] using hsize
      have htid' : ∀ t ∈ inp.reload.finalTidQueue, t < inp.reload.tNum + 1 := htid
      rw [dif_pos hsize', dif_pos htid']
      rfl
    · cases h
  · cases h

/-- An operation without the part of its usage that no row dependency reads. -/
def OperateUnit.strip (op : OperateUnit) : OperateUnit :=
  { op with stmtU := .mk' op.stmtU.stmtType false }

@[simp] theorem OperateUnit.strip_stmtType (op : OperateUnit) :
    op.strip.stmtU.stmtType = op.stmtU.stmtType := rfl

@[simp] theorem OperateUnit.strip_rowId (op : OperateUnit) : op.strip.rowId = op.rowId := rfl

@[simp] theorem OperateUnit.strip_hash (op : OperateUnit) : op.strip.hash = op.hash := rfl

def History.strip (h : History) : History := h.map fun e => (e.1, e.2.map OperateUnit.strip)

theorem strip_insertToHistory (op : OperateUnit) (h : History) :
    (insertToHistory op h).strip = insertToHistory op.strip h.strip := by
  induction h with
  | nil => rfl
  | cons e rest ih =>
    obtain ⟨rowId, ops⟩ := e
    have hcons : History.strip ((rowId, ops) :: rest) =
        (rowId, ops.map OperateUnit.strip) :: History.strip rest := rfl
    rw [insertToHistory, hcons, insertToHistory, OperateUnit.strip_rowId]
    split_ifs
    · rw [← List.map_singleton, ← List.map_append]
      rfl
    · rw [← ih]
      rfl

namespace AnalyzedQueue

variable {q : AnalyzedQueue} {g g' : Graphs}

@[simp] theorem reload_stmtType (q : AnalyzedQueue) (i : ℕ) :
    (q.reload.usage i).stmtType = (q.usage i).stmtType := by
  simp only [usage, reload, List.getD_eq_getElem?_getD, List.getElem?_map]
  cases q.fStmtUsage[i]? <;> rfl

theorem reload_targetTable {i : ℕ} (hi : i < q.stmtNum) :
    (q.reload.usage i).targetTable = "t_***" := by
  have hlt : i < q.fStmtUsage.length := by rw [q.usage_length]; exact hi
  simp [usage, reload, hlt, StmtUsage.reload]

/-! What does not read the tables. -/

theorem strip_insertRow (q : AnalyzedQueue) (u : StmtUsage) (tid : ℕ) (stmtIdx : Option ℕ)
    (row : RowOutput) (h : History) :
    (q.insertRow u tid stmtIdx row h).map History.strip =
      q.insertRow (.mk' u.stmtType false) tid stmtIdx row h.strip := by
  unfold insertRow
  cases keyOf row q.primaryKeyIndex with
  | error e => rfl
  | ok p =>
    cases keyOf row q.versionKeyIndex with
    | error e => rfl
    | ok v =>
      simp only [bind, Except.bind, pure, Except.pure, Except.map, strip_insertToHistory]
      rfl

theorem strip_buildHistory (q : AnalyzedQueue) (initOutput : List StmtOutput) :
    (q.buildHistory initOutput).map History.strip =
      (forEach initOutput (fun output => forEach output
          (q.insertRow (.mk' .afterWriteRead false) (q.tidNum - 1) none)) [] >>= forRange q.stmtNum
        fun i => forEach (q.output i)
          (q.insertRow (.mk' (q.usage i).stmtType false) (q.tid i) (some i))) := by
  have hrows : ∀ (u : StmtUsage) (tid : ℕ) (stmtIdx : Option ℕ) (rows : StmtOutput) (h : History),
      (forEach rows (q.insertRow u tid stmtIdx) h).map History.strip =
        forEach rows (q.insertRow (.mk' u.stmtType false) tid stmtIdx) h.strip :=
    fun u tid stmtIdx rows => forEach_map fun row _ h => q.strip_insertRow u tid stmtIdx row h
  have hinit := forEach_map (fun output (_ : output ∈ initOutput) h =>
    hrows (.mk' .afterWriteRead false) (q.tidNum - 1) none output h) []
  exact bind_map hinit fun h =>
    forRange_map (fun i _ h => hrows (q.usage i) (q.tid i) (some i) (q.output i) h) h

theorem strip_buildHistory_reload (q : AnalyzedQueue) (initOutput : List StmtOutput) :
    (q.reload.buildHistory initOutput).map History.strip =
      (q.buildHistory initOutput).map History.strip := by
  rw [strip_buildHistory, strip_buildHistory]
  simp only [reload_stmtType]
  rfl

/-- The reloaded queue has a history, and it differs in usages only. -/
theorem exists_buildHistory_reload {initOutput : List StmtOutput} {h : History}
    (hbuild : q.buildHistory initOutput = .ok h) :
    ∃ h', q.reload.buildHistory initOutput = .ok h' ∧ h'.strip = h.strip := by
  have hstrip := q.strip_buildHistory_reload initOutput
  rw [hbuild] at hstrip
  cases hr : q.reload.buildHistory initOutput with
  | error e => rw [hr] at hstrip; cases hstrip
  | ok h' =>
    rw [hr] at hstrip
    exact ⟨h', rfl, Except.ok.inj hstrip⟩

theorem nearestWrite_strip (opList : List OperateUnit) (opIdx : ℕ) (target : OperateUnit) :
    nearestWrite (opList.map OperateUnit.strip) opIdx target.strip =
      (nearestWrite opList opIdx target).map OperateUnit.strip := by
  unfold nearestWrite
  rw [← List.map_take, ← List.map_reverse, List.find?_map]
  rfl

theorem buildNearestWrite_strip (q : AnalyzedQueue) (dt : DependencyType)
    (opList : List OperateUnit) (opIdx : ℕ) (target : OperateUnit) (g : Graphs) :
    q.buildNearestWrite dt (opList.map OperateUnit.strip) opIdx target.strip g =
      q.buildNearestWrite dt opList opIdx target g := by
  unfold buildNearestWrite
  rw [nearestWrite_strip]
  cases nearestWrite opList opIdx target <;> rfl

theorem buildRowDependency_strip (q : AnalyzedQueue) (opList : List OperateUnit) (opIdx : ℕ)
    (g : Graphs) :
    q.buildRowDependency (opList.map OperateUnit.strip) opIdx g =
      q.buildRowDependency opList opIdx g := by
  unfold buildRowDependency
  rw [List.getElem?_map]
  cases opList[opIdx]? with
  | none => rfl
  | some target =>
    simp only [Option.map_some, buildWRDependency, buildWWDependency, buildNearestWrite_strip,
      buildRWDependency, forEach_map_list, OperateUnit.strip_stmtType]
    rfl

theorem buildRowDependencies_strip (q : AnalyzedQueue) (h : History) (g : Graphs) :
    q.buildRowDependencies h.strip g = q.buildRowDependencies h g := by
  unfold buildRowDependencies History.strip
  rw [forEach_map_list]
  simp only [List.length_map]
  congr 1
  funext row g
  exact forRange_congr (fun opIdx _ t => q.buildRowDependency_strip row.2 opIdx t) g

theorem reload_normalPosOf (q : AnalyzedQueue) (i remaining pos : ℕ) :
    q.reload.normalPosOf i remaining pos = q.normalPosOf i remaining pos := by
  induction remaining generalizing pos with
  | zero => rfl
  | succ remaining ih =>
    rw [normalPosOf, normalPosOf, reload_stmtType, ih]
    rfl

theorem reload_instrumentRound (q : AnalyzedQueue) (i : ℕ) (g : Graphs) :
    q.reload.instrumentRound i g = q.instrumentRound i g := by
  unfold instrumentRound
  simp only [reload_stmtType, reload_normalPosOf]
  rfl

theorem reload_buildStmtInstrumentDependency (q : AnalyzedQueue) (g : Graphs) :
    q.reload.buildStmtInstrumentDependency g = q.buildStmtInstrumentDependency g :=
  forRange_congr (fun i _ t => q.reload_instrumentRound i t) g

theorem reload_buildStartDependency (q : AnalyzedQueue) (g : Graphs) :
    q.reload.buildStartDependency g = q.buildStartDependency g := rfl

theorem reload_buildStmtInnerDependency (q : AnalyzedQueue) (g : Graphs) :
    q.reload.buildStmtInnerDependency g = q.buildStmtInnerDependency g := rfl

/-! The predicate dependencies. -/

theorem usageAt_of_lt {i : ℤ} (h0 : 0 ≤ i) (hi : i < q.stmtNum) :
    q.usageAt i = .ok (q.usage i.toNat) := by
  rw [usageAt, if_pos ⟨h0, hi⟩]

theorem afterWriteOf_of_type {j : ℕ} (text : String) (hlt : j + 1 < q.stmtNum)
    (htype : (q.usage (j + 1)).stmtType = .afterWriteRead) :
    q.afterWriteOf text j = .ok (q.usage (j + 1)) := by
  unfold afterWriteOf
  rw [usageAt_of_lt (by omega) (by omega)]
  exact if_pos htype

theorem beforeWriteOf_of_type {j : ℕ} (text : String) (hpos : 0 < j) (hlt : j - 1 < q.stmtNum)
    (htype : (q.usage (j - 1)).stmtType = .beforeWriteRead) :
    q.beforeWriteOf text j = .ok (q.usage (j - 1)) := by
  unfold beforeWriteOf
  rw [usageAt_of_lt (by omega) (by omega), show ((j : ℤ) - 1).toNat = j - 1 by omega]
  exact if_pos htype

theorem reload_afterWriteOf {text : String} {j : ℕ} {u : StmtUsage}
    (h : q.afterWriteOf text j = .ok u) :
    q.reload.afterWriteOf text j = .ok (q.reload.usage (j + 1)) := by
  obtain ⟨hlt, rfl, htype⟩ := afterWriteOf_eq_ok h
  exact afterWriteOf_of_type text hlt (by rw [reload_stmtType]; exact htype)

theorem reload_beforeWriteOf {text : String} {j : ℕ} {u : StmtUsage}
    (h : q.beforeWriteOf text j = .ok u) :
    q.reload.beforeWriteOf text j = .ok (q.reload.usage (j - 1)) := by
  obtain ⟨hpos, hlt, rfl, htype⟩ := beforeWriteOf_eq_ok h
  exact beforeWriteOf_of_type text hpos hlt (by rw [reload_stmtType]; exact htype)

theorem mapM_ok {ε α β : Type} {f : α → Except ε β} {as : List α} (h : ∀ a ∈ as, ∃ b, f a = .ok b) :
    ∃ bs, as.mapM f = .ok bs := by
  induction as with
  | nil => exact ⟨[], rfl⟩
  | cons a as ih =>
    obtain ⟨b, hb⟩ := h a (by simp)
    obtain ⟨bs, hbs⟩ := ih fun c hc => h c (by simp [hc])
    exact ⟨b :: bs, by rw [List.mapM_cons, hb, hbs]; rfl⟩

theorem primarySet_ok {k : ℕ} (hkeyed : ∀ row ∈ q.output k, q.Keyed row) :
    ∃ keys, q.primarySet (q.output k) = .ok keys :=
  mapM_ok fun row hrow => (hkeyed row hrow).1

/-- A round that the original passes, the reloaded queue passes. -/
theorem reload_versionSetRound {i j : ℕ} {iPairs : List (ℤ × ℤ)} (hi : i < q.stmtNum)
    (hkeyed : ∀ k < q.stmtNum, ∀ row ∈ q.output k, q.Keyed row)
    (h : q.versionSetRound i iPairs j g = .ok g') (t : Graphs) :
    ∃ t', q.reload.versionSetRound i iPairs j t = .ok t' := by
  unfold versionSetRound at h ⊢
  rw [reload_stmtType]
  split at h
  case h_1 | h_2 =>
    obtain ⟨u, hafter, h⟩ := bind_eq_ok_iff.1 h
    obtain ⟨kPairs, hk, h⟩ := bind_eq_ok_iff.1 h
    exact ⟨_, bind_eq_ok_iff.2 ⟨_, reload_afterWriteOf hafter,
      bind_eq_ok_iff.2 ⟨kPairs, hk, rfl⟩⟩⟩
  case h_3 =>
    obtain ⟨u, hbefore, h⟩ := bind_eq_ok_iff.1 h
    obtain ⟨-, hlt, -, -⟩ := beforeWriteOf_eq_ok hbefore
    obtain ⟨keys, hk⟩ := primarySet_ok (hkeyed _ hlt)
    have hk' : q.reload.primarySet (q.reload.output (j - 1)) = .ok keys := hk
    rw [reload_beforeWriteOf hbefore]
    simp only [bind, Except.bind, reload_targetTable hi, reload_targetTable hlt, hk']
    rw [if_neg (by decide), if_neg (by simp)]
    split_ifs
    · exact ⟨t, rfl⟩
    · exact ⟨_, rfl⟩
    · exact ⟨_, rfl⟩
  case h_4 => exact ⟨t, rfl⟩

theorem reload_overwriteRound {i o j : ℕ} {iPairs : List (ℤ × ℤ)} (hi : i < q.stmtNum)
    (hkeyed : ∀ k < q.stmtNum, ∀ row ∈ q.output k, q.Keyed row)
    (h : q.overwriteRound i iPairs o j g = .ok g') (t : Graphs) :
    ∃ t', q.reload.overwriteRound i iPairs o j t = .ok t' := by
  unfold overwriteRound at h ⊢
  rw [reload_stmtType]
  split at h
  case h_1 | h_2 =>
    obtain ⟨u, hbefore, h⟩ := bind_eq_ok_iff.1 h
    obtain ⟨kPairs, hk, h⟩ := bind_eq_ok_iff.1 h
    exact ⟨_, bind_eq_ok_iff.2 ⟨_, reload_beforeWriteOf hbefore,
      bind_eq_ok_iff.2 ⟨kPairs, hk, rfl⟩⟩⟩
  case h_3 =>
    obtain ⟨u, hafter, h⟩ := bind_eq_ok_iff.1 h
    obtain ⟨hlt, -, -⟩ := afterWriteOf_eq_ok hafter
    obtain ⟨keys, hk⟩ := primarySet_ok (hkeyed _ hlt)
    have hk' : q.reload.primarySet (q.reload.output (j + 1)) = .ok keys := hk
    rw [reload_afterWriteOf hafter]
    simp only [bind, Except.bind, reload_targetTable hi, reload_targetTable hlt, hk']
    rw [if_neg (by decide), if_neg (by simp)]
    split_ifs
    · exact ⟨t, rfl⟩
    · exact ⟨_, rfl⟩
    · exact ⟨_, rfl⟩
  case h_4 => exact ⟨t, rfl⟩

theorem reload_buildVSDependency (hkeyed : ∀ k < q.stmtNum, ∀ row ∈ q.output k, q.Keyed row)
    (h : q.buildVSDependency g = .ok g') (t : Graphs) :
    ∃ t', q.reload.buildVSDependency t = .ok t' := by
  refine forRange_succeeds (fun i hi r => ?_) t
  have hi : i < q.stmtNum := hi
  obtain ⟨s, s', hs⟩ := forRange_round h hi
  rw [reload_stmtType]
  split at hs
  · next hu => exact ⟨r, if_pos hu⟩
  next hu =>
  obtain ⟨iPairs, hpairs, hs⟩ := bind_eq_ok_iff.1 hs
  have hround : ∀ j < q.stmtNum, ∀ x, ∃ x', q.reload.versionSetRound i iPairs j x = .ok x' := by
    intro j hj x
    obtain ⟨y, y', hy⟩ := forRange_round hs hj
    exact reload_versionSetRound hi hkeyed hy x
  obtain ⟨r', hr'⟩ := forRange_succeeds hround r
  exact ⟨r', (if_neg hu).trans (bind_eq_ok_iff.2 ⟨iPairs, hpairs, hr'⟩)⟩

theorem reload_orginalIndex {i o : ℕ} (h : q.orginalIndex i = .ok o) :
    q.reload.orginalIndex i = .ok o := by
  unfold orginalIndex at h ⊢
  simp only [reload_stmtType]
  split at h
  · cases h
  next j hfind =>
  have hfind' : (List.range q.reload.stmtNum).find?
      (fun j => decide (i < j) && (q.usage j).stmtType.isNormal) = some j := hfind
  rw [hfind']
  split at h
  · next hw =>
    obtain ⟨u, hafter, h⟩ := bind_eq_ok_iff.1 h
    exact (if_pos hw).trans (bind_eq_ok_iff.2 ⟨_, reload_afterWriteOf hafter, h⟩)
  · next hw => exact (if_neg hw).trans h

theorem reload_buildOWDependency (hkeyed : ∀ k < q.stmtNum, ∀ row ∈ q.output k, q.Keyed row)
    (h : q.buildOWDependency g = .ok g') (t : Graphs) :
    ∃ t', q.reload.buildOWDependency t = .ok t' := by
  refine forRange_succeeds (fun i hi r => ?_) t
  have hi : i < q.stmtNum := hi
  obtain ⟨s, s', hs⟩ := forRange_round h hi
  rw [reload_stmtType]
  split at hs
  · next hu => exact ⟨r, if_pos hu⟩
  next hu =>
  obtain ⟨iPairs, hpairs, hs⟩ := bind_eq_ok_iff.1 hs
  obtain ⟨o, horg, hs⟩ := bind_eq_ok_iff.1 hs
  have hround : ∀ j < q.stmtNum, ∀ x, ∃ x', q.reload.overwriteRound i iPairs o j x = .ok x' := by
    intro j hj x
    obtain ⟨y, y', hy⟩ := forRange_round hs hj
    exact reload_overwriteRound hi hkeyed hy x
  obtain ⟨r', hr'⟩ := forRange_succeeds hround r
  exact ⟨r', (if_neg hu).trans (bind_eq_ok_iff.2 ⟨iPairs, hpairs,
    bind_eq_ok_iff.2 ⟨o, reload_orginalIndex horg, hr'⟩⟩)⟩

/-! The two sets of labels. -/

/-- The reads that the predicate builders check beside a write. -/
structure Framed (q : AnalyzedQueue) (j : ℕ) : Prop where
  after : (q.usage j).stmtType = .updateWrite ∨ (q.usage j).stmtType = .insertWrite →
    j + 1 < q.stmtNum ∧ (q.usage (j + 1)).stmtType = .afterWriteRead
  before : (q.usage j).stmtType = .updateWrite ∨ (q.usage j).stmtType = .deleteWrite →
    0 < j ∧ (q.usage (j - 1)).stmtType = .beforeWriteRead

theorem framed_of_rounds {i o j : ℕ} {iPairs : List (ℤ × ℤ)} {s s' t t' : Graphs}
    (hvs : q.versionSetRound i iPairs j s = .ok s')
    (how : q.overwriteRound i iPairs o j t = .ok t') : q.Framed j where
  after hw := by
    unfold versionSetRound at hvs
    split at hvs
    case h_1 | h_2 =>
      obtain ⟨u, hafter, -⟩ := bind_eq_ok_iff.1 hvs
      obtain ⟨hlt, rfl, htype⟩ := afterWriteOf_eq_ok hafter
      exact ⟨hlt, htype⟩
    case h_3 hju => rw [hju] at hw; simp at hw
    case h_4 hu hi hd => exact absurd hw (not_or.2 ⟨hu, hi⟩)
  before hw := by
    unfold overwriteRound at how
    split at how
    case h_1 | h_2 =>
      obtain ⟨u, hbefore, -⟩ := bind_eq_ok_iff.1 how
      obtain ⟨hpos, -, rfl, htype⟩ := beforeWriteOf_eq_ok hbefore
      exact ⟨hpos, htype⟩
    case h_3 hju => rw [hju] at hw; simp at hw
    case h_4 hu hd hi => exact absurd hw (not_or.2 ⟨hu, hd⟩)

/-- What an accepted queue with a version set read looks like. -/
theorem framed_of_accepted {g1 g2 g3 : Graphs} (hvs : q.buildVSDependency g1 = .ok g2)
    (how : q.buildOWDependency g2 = .ok g3) {i : ℕ} (hi : i < q.stmtNum)
    (hu : (q.usage i).stmtType = .versionSetRead) :
    (∃ o, q.orginalIndex i = .ok o) ∧ ∀ j < q.stmtNum, q.Framed j := by
  obtain ⟨s, s', hs⟩ := forRange_round hvs hi
  obtain ⟨t, t', ht⟩ := forRange_round how hi
  rw [if_neg (not_not.2 hu)] at hs ht
  obtain ⟨iPairs, hpairs, hs⟩ := bind_eq_ok_iff.1 hs
  obtain ⟨iPairs', hpairs', ht⟩ := bind_eq_ok_iff.1 ht
  obtain ⟨o, horg, ht⟩ := bind_eq_ok_iff.1 ht
  obtain rfl : iPairs = iPairs' := Except.ok.inj (hpairs.symm.trans hpairs')
  refine ⟨⟨o, horg⟩, fun j hj => ?_⟩
  obtain ⟨x, x', hx⟩ := forRange_round hs hj
  obtain ⟨y, y', hy⟩ := forRange_round ht hj
  exact framed_of_rounds hx hy

theorem versionSetLabel_stmt_iff {sameTable : ℕ → ℕ → Prop} {x y : StmtId} {dt : DependencyType} :
    q.VersionSetLabel sameTable (.stmt x y dt) ↔ dt = .versionSetDepend ∧ ∃ i < q.stmtNum,
      (q.usage i).stmtType = .versionSetRead ∧ ∃ j < q.stmtNum, ∃ a,
        q.VersionSetPair sameTable i j a ∧ x = q.sid a ∧ y = q.sid i := by
  simp only [VersionSetLabel, EdgeLabel, Label.stmt.injEq, reduceCtorEq, and_false, or_false]
  constructor
  · rintro ⟨i, hi, hu, j, hj, a, hp, hx, hy, hdt⟩
    exact ⟨hdt, i, hi, hu, j, hj, a, hp, hx, hy⟩
  · rintro ⟨hdt, i, hi, hu, j, hj, a, hp, hx, hy⟩
    exact ⟨i, hi, hu, j, hj, a, hp, hx, hy, hdt⟩

theorem overwriteLabel_stmt_iff {sameTable : ℕ → ℕ → Prop} {x y : StmtId} {dt : DependencyType} :
    q.OverwriteLabel sameTable (.stmt x y dt) ↔ dt = .overwriteDepend ∧ ∃ i < q.stmtNum,
      (q.usage i).stmtType = .versionSetRead ∧ ∃ o, q.orginalIndex i = .ok o ∧
        ∃ j < q.stmtNum, ∃ b, q.OverwritePair sameTable i j b ∧ x = q.sid o ∧ y = q.sid b := by
  simp only [OverwriteLabel, EdgeLabel, Label.stmt.injEq, reduceCtorEq, and_false, or_false]
  constructor
  · rintro ⟨i, hi, hu, o, ho, j, hj, b, hp, hx, hy, hdt⟩
    exact ⟨hdt, i, hi, hu, o, ho, j, hj, b, hp, hx, hy⟩
  · rintro ⟨hdt, i, hi, hu, o, ho, j, hj, b, hp, hx, hy⟩
    exact ⟨i, hi, hu, o, ho, j, hj, b, hp, hx, hy, hdt⟩

/-- The comparison that always succeeds. -/
def AnyTarget (_ _ : ℕ) : Prop := True

theorem versionSetPair_reload {i j a : ℕ} (hi : i < q.stmtNum) (hj : j < q.stmtNum) :
    q.reload.VersionSetPair q.reload.SameTarget i j a ↔ q.VersionSetPair AnyTarget i j a := by
  have htable : q.reload.SameTarget (j - 1) i ↔ AnyTarget (j - 1) i := by
    rw [SameTarget, reload_targetTable hi, reload_targetTable (by omega)]
    exact iff_of_true rfl trivial
  simp only [VersionSetPair, reload_stmtType, htable]
  rfl

theorem overwritePair_reload {i j b : ℕ} (hi : i < q.stmtNum) (hframed : q.Framed j) :
    q.reload.OverwritePair q.reload.SameTarget i j b ↔ q.OverwritePair AnyTarget i j b := by
  have htable : (q.usage j).stmtType = .insertWrite →
      (q.reload.SameTarget (j + 1) i ↔ AnyTarget (j + 1) i) := fun hj => by
    rw [SameTarget, reload_targetTable hi, reload_targetTable (hframed.after (Or.inr hj)).1]
    exact iff_of_true rfl trivial
  simp only [OverwritePair, reload_stmtType]
  refine or_congr Iff.rfl (and_congr_right fun hj => and_congr_right fun _ => ?_)
  rw [htable hj]
  rfl

/-- A version read that returns none of the rows a delete found is of the delete's table. -/
def DeletesHere (q : AnalyzedQueue) : Prop :=
  ∀ i < q.stmtNum, (q.usage i).stmtType = .versionSetRead → ∀ j < q.stmtNum,
    (q.usage j).stmtType = .deleteWrite → q.output (j - 1) ≠ [] → q.NoSharedRow i (j - 1) →
      q.SameTarget (j - 1) i

/-- If a version read returns none of the rows an insert left, one placed for the same
statement is of the insert's table and returns none of them either. -/
def InsertsHere (q : AnalyzedQueue) : Prop :=
  ∀ i < q.stmtNum, (q.usage i).stmtType = .versionSetRead → ∀ j < q.stmtNum,
    (q.usage j).stmtType = .insertWrite → q.output (j + 1) ≠ [] → q.NoSharedRow i (j + 1) →
      ∃ i' < q.stmtNum, (q.usage i').stmtType = .versionSetRead ∧
        q.orginalIndex i' = q.orginalIndex i ∧ q.SameTarget (j + 1) i' ∧ q.NoSharedRow i' (j + 1)

theorem versionSetLabel_reload {x y : StmtId} {dt : DependencyType} :
    q.reload.VersionSetLabel q.reload.SameTarget (.stmt x y dt) ↔
      q.VersionSetLabel AnyTarget (.stmt x y dt) := by
  rw [versionSetLabel_stmt_iff, versionSetLabel_stmt_iff]
  refine and_congr_right fun _ => exists_congr fun i => and_congr_right fun hi => ?_
  rw [reload_stmtType]
  refine and_congr_right fun _ => exists_congr fun j => and_congr_right fun hj =>
    exists_congr fun a => ?_
  rw [versionSetPair_reload (show i < q.stmtNum from hi) hj]
  rfl

section Accepted

variable (hframed : ∀ i < q.stmtNum, (q.usage i).stmtType = .versionSetRead →
  (∃ o, q.orginalIndex i = .ok o) ∧ ∀ j < q.stmtNum, q.Framed j)

include hframed

theorem versionSet_labels_iff :
    (∀ x y, q.VersionSetLabel AnyTarget (.stmt x y .versionSetDepend) ↔
      q.VersionSetLabel q.SameTarget (.stmt x y .versionSetDepend)) ↔ q.DeletesHere := by
  simp only [versionSetLabel_stmt_iff, true_and]
  constructor
  · intro h i hi hu j hj hdel hsome hnone
    obtain ⟨i', hi', hu', j', hj', a, hpair, hx, hy⟩ := (h (q.sid j) (q.sid i)).1
      ⟨i, hi, hu, j, hj, j, Or.inr ⟨hdel, rfl, trivial, hsome, hnone⟩, rfl, rfl⟩
    obtain rfl := sid_inj hi hi' hy
    rcases hpair with ⟨hw, rfl, -⟩ | ⟨-, rfl, htable, -⟩
    · obtain ⟨hlt, htype⟩ := ((hframed i hi hu).2 j' hj').after hw
      obtain rfl := sid_inj hj hlt hx
      rw [hdel] at htype
      cases htype
    · obtain rfl := sid_inj hj hj' hx
      exact htable
  · intro h x y
    constructor
    · rintro ⟨i, hi, hu, j, hj, a, hpair, hx, hy⟩
      refine ⟨i, hi, hu, j, hj, a, hpair.imp_right ?_, hx, hy⟩
      rintro ⟨hdel, ha, -, hsome, hnone⟩
      exact ⟨hdel, ha, h i hi hu j hj hdel hsome hnone, hsome, hnone⟩
    · rintro ⟨i, hi, hu, j, hj, a, hpair, hx, hy⟩
      refine ⟨i, hi, hu, j, hj, a, hpair.imp_right ?_, hx, hy⟩
      rintro ⟨hdel, ha, -, hrest⟩
      exact ⟨hdel, ha, trivial, hrest⟩

theorem overwrite_labels_iff :
    (∀ x y, q.OverwriteLabel AnyTarget (.stmt x y .overwriteDepend) ↔
      q.OverwriteLabel q.SameTarget (.stmt x y .overwriteDepend)) ↔ q.InsertsHere := by
  simp only [overwriteLabel_stmt_iff, true_and]
  constructor
  · intro h i hi hu j hj hins hsome hnone
    obtain ⟨o, ho⟩ := (hframed i hi hu).1
    obtain ⟨i', hi', hu', o', ho', j', hj', b, hpair, hx, hy⟩ := (h (q.sid o) (q.sid j)).1
      ⟨i, hi, hu, o, ho, j, hj, j, Or.inr ⟨hins, rfl, trivial, hsome, hnone⟩, rfl, rfl⟩
    obtain rfl := sid_inj (orginalIndex_spec ho).2 (orginalIndex_spec ho').2 hx
    rcases hpair with ⟨hw, rfl, -⟩ | ⟨-, rfl, htable, -, hnone'⟩
    · obtain ⟨hpos, htype⟩ := ((hframed i hi hu).2 j' hj').before hw
      have hlt : j' - 1 < q.stmtNum := by omega
      obtain rfl := sid_inj hj hlt hy
      rw [hins] at htype
      cases htype
    · obtain rfl := sid_inj hj hj' hy
      exact ⟨i', hi', hu', by rw [ho, ho'], htable, hnone'⟩
  · intro h x y
    constructor
    · rintro ⟨i, hi, hu, o, ho, j, hj, b, hpair | ⟨hins, hb, -, hsome, hnone⟩, hx, hy⟩
      · exact ⟨i, hi, hu, o, ho, j, hj, b, Or.inl hpair, hx, hy⟩
      · obtain ⟨i', hi', hu', horg, htable, hnone'⟩ := h i hi hu j hj hins hsome hnone
        exact ⟨i', hi', hu', o, horg.trans ho, j, hj, b,
          Or.inr ⟨hins, hb, htable, hsome, hnone'⟩, hx, hy⟩
    · rintro ⟨i, hi, hu, o, ho, j, hj, b, hpair, hx, hy⟩
      refine ⟨i, hi, hu, o, ho, j, hj, b, hpair.imp_right ?_, hx, hy⟩
      rintro ⟨hins, hb, -, hrest⟩
      exact ⟨hins, hb, trivial, hrest⟩

theorem overwriteLabel_reload {x y : StmtId} {dt : DependencyType} :
    q.reload.OverwriteLabel q.reload.SameTarget (.stmt x y dt) ↔
      q.OverwriteLabel AnyTarget (.stmt x y dt) := by
  rw [overwriteLabel_stmt_iff, overwriteLabel_stmt_iff]
  refine and_congr_right fun _ => exists_congr fun i => and_congr_right fun hi => ?_
  rw [reload_stmtType]
  refine and_congr_right fun hu => exists_congr fun o => ?_
  obtain ⟨⟨o', ho'⟩, hall⟩ := hframed i hi hu
  have horg : q.reload.orginalIndex i = .ok o ↔ q.orginalIndex i = .ok o := by
    rw [ho', reload_orginalIndex ho']
  rw [horg]
  refine and_congr_right fun _ => exists_congr fun j => and_congr_right fun hj =>
    exists_congr fun b => ?_
  rw [overwritePair_reload (show i < q.stmtNum from hi) (hall j hj)]
  rfl

end Accepted

end AnalyzedQueue

open AnalyzedQueue

/-- The predicate dependencies are the only labels of their types. -/
theorem hasLabel_predicate {q : AnalyzedQueue} {h : History} {g1 g2 g3 : Graphs}
    (h1 : q.buildStmtInstrumentDependency .empty = .ok g1) (h2 : q.buildRowDependencies h g1 = .ok g2)
    (h3 : q.buildStartDependency g2 = .ok g3) :
    g3.Tidy ∧ ∀ l : Label, l.type = .versionSetDepend ∨ l.type = .overwriteDepend →
      ¬ g3.HasLabel l := by
  have b1 := built_buildStmtInstrumentDependency h1
  have b2 := built_buildRowDependencies h2
  have b3 := built_buildStartDependency h3
  refine ⟨b3.tidy (b2.tidy (b1.tidy Graphs.tidy_empty)), fun l hl => ?_⟩
  rw [b3.hasLabel_iff (by rcases hl with hl | hl <;> simp [hl]),
    b2.hasLabel_iff (by rcases hl with hl | hl <;> simp [RowType, hl]),
    b1.hasLabel_iff (by rcases hl with hl | hl <;> simp [hl])]
  cases l <;> simp [Graphs.HasLabel, Graphs.empty, StmtGraph.labels]

/-- Two runs of the last three builders from one graph. -/
theorem stmt_eq_iff {q q' : AnalyzedQueue} {g3 g4 g4' g5 g5' g6 g6' : Graphs} (htidy : g3.Tidy)
    (hfree : ∀ l : Label, l.type = .versionSetDepend ∨ l.type = .overwriteDepend → ¬ g3.HasLabel l)
    (hinner : q'.buildStmtInnerDependency g5' = q.buildStmtInnerDependency g5')
    (hkeyed : ∀ k < q.stmtNum, ∀ row ∈ q.output k, q.Keyed row)
    (hkeyed' : ∀ k < q'.stmtNum, ∀ row ∈ q'.output k, q'.Keyed row)
    (h4 : q.buildVSDependency g3 = .ok g4) (h5 : q.buildOWDependency g4 = .ok g5)
    (h6 : q.buildStmtInnerDependency g5 = .ok g6) (h4' : q'.buildVSDependency g3 = .ok g4')
    (h5' : q'.buildOWDependency g4' = .ok g5') (h6' : q'.buildStmtInnerDependency g5' = .ok g6') :
    g6'.stmt = g6.stmt ↔
      (∀ x y, q'.VersionSetLabel q'.SameTarget (.stmt x y .versionSetDepend) ↔
        q.VersionSetLabel q.SameTarget (.stmt x y .versionSetDepend)) ∧
      ∀ x y, q'.OverwriteLabel q'.SameTarget (.stmt x y .overwriteDepend) ↔
        q.OverwriteLabel q.SameTarget (.stmt x y .overwriteDepend) := by
  rw [hinner] at h6'
  have htidy6 := (built_buildStmtInnerDependency h6).tidy
    ((built_buildOWDependency h5).tidy ((built_buildVSDependency h4).tidy htidy))
  have htidy6' := (built_buildStmtInnerDependency h6').tidy
    ((built_buildOWDependency h5').tidy ((built_buildVSDependency h4').tidy htidy))
  have hl := ((buildVSDependency_adds hkeyed h4).trans (buildOWDependency_adds hkeyed h5)).trans
    (buildStmtInnerDependency_adds h6)
  have hl' := ((buildVSDependency_adds hkeyed' h4').trans
    (buildOWDependency_adds hkeyed' h5')).trans (buildStmtInnerDependency_adds h6')
  constructor
  · intro heq
    have hsame : ∀ x y dt, g6'.HasLabel (.stmt x y dt) ↔ g6.HasLabel (.stmt x y dt) :=
      fun x y dt => by rw [Graphs.HasLabel, Graphs.HasLabel, heq]
    constructor
    · intro x y
      have := hsame x y .versionSetDepend
      rw [hl, hl', iff_false_intro (hfree (.stmt x y .versionSetDepend) (Or.inl rfl))] at this
      simpa [overwriteLabel_stmt_iff] using this
    · intro x y
      have := hsame x y .overwriteDepend
      rw [hl, hl', iff_false_intro (hfree (.stmt x y .overwriteDepend) (Or.inr rfl))] at this
      simpa [versionSetLabel_stmt_iff] using this
  · rintro ⟨hvs, how⟩
    refine htidy6'.stmt_eq htidy6 fun x y dt => ?_
    rw [hl, hl']
    have hvs' : q'.VersionSetLabel q'.SameTarget (.stmt x y dt) ↔
        q.VersionSetLabel q.SameTarget (.stmt x y dt) := by
      by_cases hdt : dt = .versionSetDepend
      · rw [hdt]; exact hvs x y
      · simp [versionSetLabel_stmt_iff, hdt]
    have how' : q'.OverwriteLabel q'.SameTarget (.stmt x y dt) ↔
        q.OverwriteLabel q.SameTarget (.stmt x y dt) := by
      by_cases hdt : dt = .overwriteDepend
      · rw [hdt]; exact how x y
      · simp [overwriteLabel_stmt_iff, hdt]
    simp only [hvs', how']

/-- On an accepted test case, the loader's usages give an accepted one, and the same
statement graph exactly when no edge hangs on the tables. -/
theorem reproduced_graph_iff {inp : AnalyzerInput} {q : AnalyzedQueue} {a : DependencyAnalyzer}
    (hq : inp.copy = .ok q) (h : dependencyAnalyzer inp = .ok a) :
    (∃ inp' a', inp.reproduced = .ok inp' ∧ dependencyAnalyzer inp' = .ok a' ∧
      a'.graphs.stmt = a.graphs.stmt) ↔ q.DeletesHere ∧ q.InsertsHere := by
  obtain ⟨q', hist, g6⟩ := a
  obtain ⟨g1, g2, g3, g4, g5, hq', hhist, h1, h2, h3, h4, h5, h6⟩ := dependencyAnalyzer_run h
  obtain rfl : q = q' := Except.ok.inj (hq.symm.trans hq')
  dsimp only at hhist h1 h2 h3 h4 h5 h6
  have hkeyed := (buildHistory_spec hhist).2.1
  have hframed := fun i (hi : i < q.stmtNum) hu => framed_of_accepted h4 h5 hi hu
  obtain ⟨htidy, hfree⟩ := hasLabel_predicate h1 h2 h3
  -- the reloaded run
  obtain ⟨hist', hhist', hstrip⟩ := exists_buildHistory_reload hhist
  obtain ⟨g4', h4'⟩ := reload_buildVSDependency hkeyed h4 g3
  obtain ⟨g5', h5'⟩ := reload_buildOWDependency hkeyed h5 g4'
  obtain ⟨g6', h6'⟩ := q.reload.buildStmtInnerDependency_ok g5'
  have h2' : q.reload.buildRowDependencies hist' g1 = .ok g2 := by
    rw [← buildRowDependencies_strip, hstrip, ← h2]
    exact q.buildRowDependencies_strip hist g1
  have hrun : dependencyAnalyzer inp.reload = .ok ⟨q.reload, hist', g6'⟩ := by
    rw [← reload_buildStmtInstrumentDependency] at h1
    exact bind_eq_ok_iff.2 ⟨_, copy_reload hq, bind_eq_ok_iff.2 ⟨_, hhist', bind_eq_ok_iff.2
      ⟨_, h1, bind_eq_ok_iff.2 ⟨_, h2', bind_eq_ok_iff.2 ⟨_, h3, bind_eq_ok_iff.2 ⟨_, h4',
        bind_eq_ok_iff.2 ⟨_, h5', bind_eq_ok_iff.2 ⟨_, h6', rfl⟩⟩⟩⟩⟩⟩⟩⟩
  have hiff := stmt_eq_iff htidy hfree (q.reload_buildStmtInnerDependency g5') hkeyed hkeyed
    h4 h5 h6 h4' h5' h6'
  simp only [versionSetLabel_reload, overwriteLabel_reload hframed, versionSet_labels_iff hframed,
    overwrite_labels_iff hframed] at hiff
  rw [← hiff]
  constructor
  · rintro ⟨inp', a', hinp', ha', heq⟩
    rw [inp.reproduced_eq] at hinp'
    obtain rfl := Except.ok.inj hinp'
    rw [hrun] at ha'
    cases ha'
    exact heq
  · intro heq
    exact ⟨_, _, inp.reproduced_eq, hrun, heq⟩

/-- A delete from one table and then a version read of another. -/
def crossInput : AnalyzerInput where
  initOutput := [[["1", "10"]], [["1", "20"]]]
  totalOutput := [[["1", "10"]], [], [["1", "20"]], [["1", "20"]]]
  finalTidQueue := [0, 0, 0, 0]
  finalStmtUsage := [⟨.beforeWriteRead, true, "t_1"⟩, ⟨.deleteWrite, false, "t_1"⟩,
    ⟨.versionSetRead, true, "t_2"⟩, ⟨.selectRead, false, ""⟩]
  finalTxnStatus := [.commit]
  primaryKeyIdx := 1
  writeOpKeyIdx := 0

/-- Whether the version read depends on the delete. -/
def readsDelete (inp : AnalyzerInput) : Option Bool :=
  (dependencyAnalyzer inp).toOption.map fun a =>
    decide (.versionSetDepend ∈ a.graphs.stmt.labels
      (.ofQueue crossInput.finalTidQueue 1) (.ofQueue crossInput.finalTidQueue 2))

theorem crossInput_accepted :
    ∃ q a, crossInput.copy = .ok q ∧ dependencyAnalyzer crossInput = .ok a := by
  have hedge : readsDelete crossInput = some false := by decide +kernel
  cases ha : dependencyAnalyzer crossInput with
  | error e => rw [readsDelete, ha] at hedge; cases hedge
  | ok a =>
    obtain ⟨q, hq, -⟩ := bind_eq_ok_iff.1 ha
    exact ⟨q, a, hq, rfl⟩

theorem crossInput_reproduced_iff :
    ∃ q a, crossInput.copy = .ok q ∧ dependencyAnalyzer crossInput = .ok a ∧
      ((∃ inp' a', crossInput.reproduced = .ok inp' ∧ dependencyAnalyzer inp' = .ok a' ∧
        a'.graphs.stmt = a.graphs.stmt) ↔ q.DeletesHere ∧ q.InsertsHere) := by
  obtain ⟨q, a, hq, ha⟩ := crossInput_accepted
  exact ⟨q, a, hq, ha, reproduced_graph_iff hq ha⟩

/-- The reproduced graph has an edge from the delete to the read that the first one has not. -/
theorem crossInput_not_reproduced :
    ∃ a, dependencyAnalyzer crossInput = .ok a ∧
      ¬ ∃ inp' a', crossInput.reproduced = .ok inp' ∧ dependencyAnalyzer inp' = .ok a' ∧
        a'.graphs.stmt = a.graphs.stmt := by
  have hno : readsDelete crossInput = some false := by decide +kernel
  have hyes : readsDelete crossInput.reload = some true := by decide +kernel
  obtain ⟨q, a, hq, ha⟩ := crossInput_accepted
  refine ⟨a, ha, ?_⟩
  rintro ⟨inp', a', hinp', ha', heq⟩
  rw [crossInput.reproduced_eq] at hinp'
  obtain rfl := Except.ok.inj hinp'
  simp only [readsDelete, ha, ha', heq, Except.toOption, Option.map_some, Option.some.injEq,
    decide_eq_true_eq, decide_eq_false_iff_not] at hno hyes
  exact hno hyes

end DbFuzz
