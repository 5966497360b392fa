import DbFuzz.TxCheck.Labels

/-! The row dependencies by the sequence of operations alone: which reads are traced to
which write, which reads precede which replacement, and when a read has no write. -/

namespace DbFuzz

open Loop AnalyzedQueue

/-- The graph that the constructor starts from. -/
def Graphs.empty : Graphs := ⟨fun _ _ => ∅, fun _ _ => none⟩

theorem Graphs.tidy_empty : Graphs.empty.Tidy := by intro a b h; cases h

/-- `op` wrote the version of the row that `target` holds. -/
def Matches (target op : OperateUnit) : Prop :=
  op.stmtU.stmtType = .afterWriteRead ∧ op.rowId = target.rowId ∧ op.hash = target.hash

/-- `op` is the last match before an occurrence of `target`. -/
def NearestIn (ops : List OperateUnit) (target op : OperateUnit) : Prop :=
  ∃ before between after, ops = before ++ op :: (between ++ target :: after) ∧
    Matches target op ∧ ∀ o ∈ between, ¬ Matches target o

/-- An occurrence of `target` has no match before it. -/
def Unmatched (ops : List OperateUnit) (target : OperateUnit) : Prop :=
  ∃ before after, ops = before ++ target :: after ∧ ∀ o ∈ before, ¬ Matches target o

namespace AnalyzedQueue

/-- The pairs of operations that the row builders link. -/
inductive RowEdge (q : AnalyzedQueue) (ops : List OperateUnit) :
    DependencyType → OperateUnit → OperateUnit → Prop
  | writeRead {op target : OperateUnit} (hlook : q.LooksUp target)
      (hnear : NearestIn ops target op) : RowEdge q ops .writeRead op target
  | writeWrite {op target : OperateUnit} (hlook : q.LooksUp target)
      (hbefore : target.stmtU.stmtType = .beforeWriteRead) (hnear : NearestIn ops target op) :
      RowEdge q ops .writeWrite op target
  | readWrite {op target : OperateUnit} (hlook : q.LooksUp target)
      (hbefore : target.stmtU.stmtType = .beforeWriteRead) (htarget : target ∈ ops)
      (hop : op ∈ ops) (hrow : op.rowId = target.rowId)
      (hread : op.stmtU.stmtType = .selectRead ∨ op.stmtU.stmtType = .afterWriteRead)
      (hsame : op.writeOpId = target.writeOpId) : RowEdge q ops .readWrite op target

/-- A label of a linked pair: between the two statements, and between the two transactions
if they differ. -/
def SequenceLabel (q : AnalyzedQueue) (ops : List OperateUnit) (l : Label) : Prop :=
  ∃ op target, q.RowEdge ops l.type op target ∧ q.OpLabel op target l.type l

end AnalyzedQueue

/-! One row of the history. -/

theorem nearestWrite_eq_some_iff {ops : List OperateUnit} {n : ℕ} {target op : OperateUnit} :
    nearestWrite ops n target = some op ↔
      (op.stmtU.stmtType = .afterWriteRead ∧ op.hash = target.hash) ∧
        ∃ before between, ops.take n = before ++ op :: between ∧
          ∀ o ∈ between, ¬ (o.stmtU.stmtType = .afterWriteRead ∧ o.hash = target.hash) := by
  unfold nearestWrite
  rw [List.find?_eq_some_iff_append]
  simp only [Bool.and_eq_true, beq_iff_eq, Bool.not_eq_true', Bool.and_eq_false_iff,
    beq_eq_false_iff_ne, not_and_or]
  refine and_congr_right fun _ => ⟨?_, ?_⟩
  · rintro ⟨as, bs, hsplit, hnone⟩
    refine ⟨bs.reverse, as.reverse, ?_, fun o ho => hnone o (List.mem_reverse.1 ho)⟩
    rw [← List.reverse_reverse (ops.take n), hsplit]
    simp
  · rintro ⟨before, between, hsplit, hnone⟩
    exact ⟨between.reverse, before.reverse, by rw [hsplit]; simp,
      fun o ho => hnone o (List.mem_reverse.1 ho)⟩

theorem nearestWrite_eq_none_iff {ops : List OperateUnit} {n : ℕ} {target : OperateUnit} :
    nearestWrite ops n target = none ↔
      ∀ o ∈ ops.take n, ¬ (o.stmtU.stmtType = .afterWriteRead ∧ o.hash = target.hash) := by
  unfold nearestWrite
  rw [List.find?_eq_none]
  simp

/-- An occurrence in a row is an occurrence in the sequence. -/
theorem History.Splits.occurrence {h : History} {ops : List OperateUnit} (hs : h.Splits ops)
    {row : ℤ × List OperateUnit} (hrow : row ∈ h) {n : ℕ} {target : OperateUnit}
    (hget : row.2[n]? = some target) :
    ∃ before after, ops = before ++ target :: after ∧ target.rowId = row.1 ∧
      before.filter (·.rowId = row.1) = row.2.take n := by
  obtain ⟨hlt, hget⟩ := List.getElem?_eq_some_iff.1 hget
  have hsplit : ops.filter (·.rowId = row.1) = row.2.take n ++ target :: row.2.drop (n + 1) := by
    rw [← hs.row row hrow, ← hget, List.getElem_cons_drop, List.take_append_drop]
  obtain ⟨l1, l2, rfl, h1, h2⟩ := List.filter_eq_append_iff.1 hsplit
  obtain ⟨m1, m2, rfl, hm1, hrowId, -⟩ := List.filter_eq_cons_iff.1 h2
  refine ⟨l1 ++ m1, m2, by simp, by simpa using hrowId, ?_⟩
  rw [List.filter_append, h1, List.filter_eq_nil_iff.2 hm1, List.append_nil]

/-- Every occurrence in the sequence is one in its row. -/
theorem History.Splits.exists_row {h : History} {before after : List OperateUnit}
    {target : OperateUnit} (hs : h.Splits (before ++ target :: after)) :
    ∃ row ∈ h, row.1 = target.rowId ∧ ∃ n, row.2[n]? = some target ∧
      row.2.take n = before.filter (·.rowId = row.1) := by
  obtain ⟨row, hrow, hid⟩ := List.mem_map.1 (hs.listed target (by simp))
  refine ⟨row, hrow, hid, (before.filter (·.rowId = row.1)).length, ?_⟩
  rw [hs.row row hrow, List.filter_append, List.filter_cons_of_pos (by simp [hid])]
  simp

theorem exists_nearestWrite_iff {h : History} {ops : List OperateUnit} (hs : h.Splits ops)
    {target op : OperateUnit} :
    (∃ row ∈ h, ∃ n, row.2[n]? = some target ∧ nearestWrite row.2 n target = some op) ↔
      NearestIn ops target op := by
  constructor
  · rintro ⟨row, hrow, n, hget, hnear⟩
    obtain ⟨before, after, rfl, hid, hfilter⟩ := hs.occurrence hrow hget
    obtain ⟨⟨hwrite, hhash⟩, l1, l2, htake, hnone⟩ := nearestWrite_eq_some_iff.1 hnear
    rw [htake] at hfilter
    obtain ⟨m1, m2, rfl, -, h2⟩ := List.filter_eq_append_iff.1 hfilter
    obtain ⟨n1, n2, rfl, -, hop, hn2⟩ := List.filter_eq_cons_iff.1 h2
    have hop : op.rowId = row.1 := by simpa using hop
    refine ⟨m1 ++ n1, n2, after, by simp, ⟨hwrite, hop.trans hid.symm, hhash⟩, ?_⟩
    rintro o ho ⟨ho1, ho2, ho3⟩
    refine hnone o ?_ ⟨ho1, ho3⟩
    rw [← hn2, List.mem_filter]
    exact ⟨ho, by simpa using ho2.trans hid⟩
  · rintro ⟨before, between, after, hops, ⟨hwrite, hid, hhash⟩, hnone⟩
    have hsplit : ops = (before ++ op :: between) ++ target :: after := by rw [hops]; simp
    subst hsplit
    obtain ⟨row, hrow, hrowId, n, hget, htake⟩ := hs.exists_row
    refine ⟨row, hrow, n, hget, nearestWrite_eq_some_iff.2 ⟨⟨hwrite, hhash⟩,
      before.filter (·.rowId = row.1), between.filter (·.rowId = row.1), ?_, ?_⟩⟩
    · rw [htake, List.filter_append, List.filter_cons_of_pos (by simp [hid, hrowId])]
    · rintro o ho ⟨ho1, ho2⟩
      obtain ⟨hmem, hoid⟩ := List.mem_filter.1 ho
      exact hnone o hmem ⟨ho1, (by simpa using hoid : o.rowId = row.1).trans hrowId, ho2⟩

theorem exists_noWrite_iff {h : History} {ops : List OperateUnit} (hs : h.Splits ops)
    {target : OperateUnit} :
    (∃ row ∈ h, ∃ n, row.2[n]? = some target ∧ nearestWrite row.2 n target = none) ↔
      Unmatched ops target := by
  constructor
  · rintro ⟨row, hrow, n, hget, hnone⟩
    obtain ⟨before, after, rfl, hid, hfilter⟩ := hs.occurrence hrow hget
    refine ⟨before, after, rfl, ?_⟩
    rintro o ho ⟨ho1, ho2, ho3⟩
    refine nearestWrite_eq_none_iff.1 hnone o ?_ ⟨ho1, ho3⟩
    rw [← hfilter, List.mem_filter]
    exact ⟨ho, by simpa using ho2.trans hid⟩
  · rintro ⟨before, after, rfl, hnone⟩
    obtain ⟨row, hrow, hrowId, n, hget, htake⟩ := hs.exists_row
    refine ⟨row, hrow, n, hget, nearestWrite_eq_none_iff.2 ?_⟩
    rintro o ho ⟨ho1, ho2⟩
    rw [htake] at ho
    obtain ⟨hmem, hoid⟩ := List.mem_filter.1 ho
    exact hnone o hmem ⟨ho1, (by simpa using hoid : o.rowId = row.1).trans hrowId, ho2⟩

namespace AnalyzedQueue

variable {q : AnalyzedQueue} {g g' : Graphs}

/-- The labels of the rows are those of the sequence. -/
theorem rowLabel_iff {h : History} {ops : List OperateUnit} (hs : h.Splits ops) (l : Label) :
    q.RowLabel h l ↔ q.SequenceLabel ops l := by
  constructor
  · rintro ⟨row, hrow, n, -, target, hget, hlook, ⟨op, hnear, hl | ⟨hb, hl⟩⟩ |
      ⟨hb, op, hop, hread, hsame, hl⟩⟩
    · have hnearest := (exists_nearestWrite_iff hs).1 ⟨row, hrow, n, hget, hnear⟩
      refine ⟨op, target, ?_, ?_⟩ <;> rw [hl.type_eq]
      · exact .writeRead hlook hnearest
      · exact hl
    · have hnearest := (exists_nearestWrite_iff hs).1 ⟨row, hrow, n, hget, hnear⟩
      refine ⟨op, target, ?_, ?_⟩ <;> rw [hl.type_eq]
      · exact .writeWrite hlook hb hnearest
      · exact hl
    · have htarget : target ∈ row.2 := List.mem_of_getElem? hget
      rw [hs.row row hrow] at htarget hop
      obtain ⟨htarget, htid⟩ := List.mem_filter.1 htarget
      obtain ⟨hop, hopid⟩ := List.mem_filter.1 hop
      rw [decide_eq_true_eq] at htid hopid
      refine ⟨op, target, ?_, ?_⟩ <;> rw [hl.type_eq]
      · exact .readWrite hlook hb htarget hop (hopid.trans htid.symm) hread hsame
      · exact hl
  · rintro ⟨op, target, hedge, hl⟩
    generalize l.type = dt at hedge hl
    cases hedge with
    | writeRead hlook hnear =>
      obtain ⟨row, hrow, n, hget, hw⟩ := (exists_nearestWrite_iff hs).2 hnear
      exact ⟨row, hrow, n, (List.getElem?_eq_some_iff.1 hget).1, target, hget, hlook,
        Or.inl ⟨op, hw, Or.inl hl⟩⟩
    | writeWrite hlook hb hnear =>
      obtain ⟨row, hrow, n, hget, hw⟩ := (exists_nearestWrite_iff hs).2 hnear
      exact ⟨row, hrow, n, (List.getElem?_eq_some_iff.1 hget).1, target, hget, hlook,
        Or.inl ⟨op, hw, Or.inr ⟨hb, hl⟩⟩⟩
    | readWrite hlook hb htarget hop hrowId hread hsame =>
      obtain ⟨before, after, rfl⟩ := List.append_of_mem htarget
      obtain ⟨row, hrow, hid, n, hget, -⟩ := hs.exists_row
      refine ⟨row, hrow, n, (List.getElem?_eq_some_iff.1 hget).1, target, hget, hlook,
        Or.inr ⟨hb, op, ?_, hread, hsame, hl⟩⟩
      rw [hs.row row hrow, List.mem_filter]
      exact ⟨hop, by simp [hrowId, hid]⟩

/-! The failure. -/

def bugError : Failure := .runtimeError "BUG: Cannot find the corresponding write"

theorem buildRWDependency_ok (q : AnalyzedQueue) (opList : List OperateUnit) (target : OperateUnit)
    (g : Graphs) : ∃ g', q.buildRWDependency opList target g = .ok g' := by
  refine forEach_succeeds (fun op _ t => ?_) g
  split_ifs
  · exact ⟨_, rfl⟩
  · exact ⟨_, rfl⟩

/-- A round fails exactly on a read without a write, and with one error. -/
theorem buildRowDependency_cases {opList : List OperateUnit} {n : ℕ} (hn : n < opList.length)
    (g : Graphs) :
    (∃ target, opList[n]? = some target ∧ q.LooksUp target ∧ nearestWrite opList n target = none) ∧
        q.buildRowDependency opList n g = .error bugError ∨
      (∀ target, opList[n]? = some target → q.LooksUp target →
          nearestWrite opList n target ≠ none) ∧ ∃ g', q.buildRowDependency opList n g = .ok g' := by
  have hget : opList[n]? = some opList[n] := List.getElem?_eq_getElem hn
  unfold buildRowDependency
  rw [hget]
  dsimp only
  by_cases htid : opList[n].tid = q.tidNum - 1
  · refine Or.inr ⟨fun target ht hlook => ?_, g, if_pos htid⟩
    cases ht
    exact absurd htid hlook.1
  rw [if_neg htid]
  by_cases htype : opList[n].stmtU.stmtType = .afterWriteRead
  · refine Or.inr ⟨fun target ht hlook => ?_, g, if_pos htype⟩
    cases ht
    exact absurd htype hlook.2
  rw [if_neg htype]
  cases hnear : nearestWrite opList n opList[n] with
  | none =>
    refine Or.inl ⟨⟨_, rfl, ⟨htid, htype⟩, hnear⟩, ?_⟩
    rw [buildWRDependency, buildNearestWrite, hnear]
    rfl
  | some op =>
    refine Or.inr ⟨fun target ht _ => ?_, ?_⟩
    · cases ht
      rw [hnear]
      exact Option.some_ne_none op
    have hwr : ∀ t, q.buildWRDependency opList n opList[n] t =
        .ok (q.buildOpDepend op opList[n] .writeRead t) := fun t => by
      rw [buildWRDependency, buildNearestWrite, hnear]
    have hww : ∀ t, q.buildWWDependency opList n opList[n] t =
        .ok (q.buildOpDepend op opList[n] .writeWrite t) := fun t => by
      rw [buildWWDependency, buildNearestWrite, hnear]
    by_cases hbefore : opList[n].stmtU.stmtType = .beforeWriteRead
    · obtain ⟨g', hg'⟩ := q.buildRWDependency_ok opList opList[n]
        (q.buildOpDepend op opList[n] .writeWrite (q.buildOpDepend op opList[n] .writeRead g))
      exact ⟨g', bind_eq_ok_iff.2 ⟨_, hwr g, (if_pos hbefore).trans
        (bind_eq_ok_iff.2 ⟨_, hww _, hg'⟩)⟩⟩
    · exact ⟨_, bind_eq_ok_iff.2 ⟨_, hwr g, (if_neg hbefore).trans rfl⟩⟩

theorem buildRowDependencies_ok_or_error (q : AnalyzedQueue) (h : History) (g : Graphs) :
    (∃ g', q.buildRowDependencies h g = .ok g') ∨ q.buildRowDependencies h g = .error bugError :=
  forEach_ok_or_error (fun row _ s => forRange_ok_or_error (fun n hn t => by
    rcases buildRowDependency_cases hn t with ⟨-, herr⟩ | ⟨-, hok⟩
    · exact Or.inr herr
    · exact Or.inl hok) s) g

/-- The row builders succeed exactly when every read has its write. -/
theorem buildRowDependencies_ok_iff {h : History} {ops : List OperateUnit} (hs : h.Splits ops)
    (g : Graphs) :
    (∃ g', q.buildRowDependencies h g = .ok g') ↔
      ∀ target, q.LooksUp target → ¬ Unmatched ops target := by
  constructor
  · rintro ⟨g', hbuild⟩ target hlook hun
    obtain ⟨row, hrow, n, hget, hnone⟩ := (exists_noWrite_iff hs).2 hun
    obtain ⟨s, s', hs'⟩ := forEach_round hbuild hrow
    have hn := (List.getElem?_eq_some_iff.1 hget).1
    obtain ⟨t, t', ht⟩ := forRange_round hs' hn
    rcases buildRowDependency_cases hn t with ⟨-, herr⟩ | ⟨hall, -⟩
    · rw [herr] at ht
      cases ht
    · exact hall target hget hlook hnone
  · intro hall
    refine forEach_succeeds (fun row hrow s => forRange_succeeds (fun n hn t => ?_) s) g
    rcases buildRowDependency_cases hn t with ⟨⟨target, hget, hlook, hnone⟩, -⟩ | ⟨-, hok⟩
    · exact absurd ((exists_noWrite_iff hs).1 ⟨row, hrow, n, hget, hnone⟩) (hall target hlook)
    · exact hok

/-! The errors of the other builders. -/

/-- No error of the keys, of the places of instrumented reads or of an index. -/
structure Foreign (e : Failure) : Prop where
  stoi : e ≠ .stoiError
  index : e ≠ .badIndex
  instrument : ∀ text, e ≠ instrumentErr text

theorem foreign_bugError : Foreign bugError where
  stoi := by simp [bugError]
  index := by simp [bugError]
  instrument text h := by
    rw [instrumentErr, bugError, Failure.runtimeError.injEq] at h
    have hhead := congrArg (fun s => s.toList.head?) h
    simp at hhead

theorem foreign_outOfFuel : Foreign .outOfFuel where
  stoi := by simp
  index := by simp
  instrument text := by simp [instrumentErr]

section Foreign

variable {e : Failure}

theorem Foreign.ne_instrument (he : Foreign e) {α : Type} (text : String) :
    (.error (instrumentErr text) : Except Failure α) ≠ .error e :=
  fun h => he.instrument text (Except.error.inj h).symm

theorem Foreign.ne_index (he : Foreign e) {α : Type} :
    (.error .badIndex : Except Failure α) ≠ .error e :=
  fun h => he.index (Except.error.inj h).symm

theorem Foreign.ne_stoi (he : Foreign e) {α : Type} :
    (.error .stoiError : Except Failure α) ≠ .error e :=
  fun h => he.stoi (Except.error.inj h).symm

theorem Foreign.keyOf_ne (he : Foreign e) (row : RowOutput) (idx : ℕ) :
    keyOf row idx ≠ .error e := by
  unfold keyOf
  split
  · exact he.ne_index
  · split
    · simp
    · exact he.ne_stoi

theorem Foreign.pairSet_ne (he : Foreign e) (q : AnalyzedQueue) (output : StmtOutput) :
    q.pairSet output ≠ .error e := by
  refine mapM_ne_error fun row _ => bind_ne_error (he.keyOf_ne _ _) fun _ _ =>
    bind_ne_error (he.keyOf_ne _ _) fun _ _ => ?_
  simp [pure, Except.pure]

theorem Foreign.primarySet_ne (he : Foreign e) (q : AnalyzedQueue) (output : StmtOutput) :
    q.primarySet output ≠ .error e :=
  mapM_ne_error fun _ _ => he.keyOf_ne _ _

theorem Foreign.usageAt_ne (he : Foreign e) (q : AnalyzedQueue) (i : ℤ) :
    q.usageAt i ≠ .error e := by
  unfold usageAt
  split_ifs
  · simp
  · exact he.ne_index

theorem Foreign.afterWriteOf_ne (he : Foreign e) (q : AnalyzedQueue) (text : String) (j : ℕ) :
    q.afterWriteOf text j ≠ .error e := by
  refine bind_ne_error (he.usageAt_ne q _) fun u _ => ?_
  split_ifs
  · simp
  · exact he.ne_instrument _

theorem Foreign.beforeWriteOf_ne (he : Foreign e) (q : AnalyzedQueue) (text : String) (j : ℕ) :
    q.beforeWriteOf text j ≠ .error e := by
  refine bind_ne_error (he.usageAt_ne q _) fun u _ => ?_
  split_ifs
  · simp
  · exact he.ne_instrument _

theorem Foreign.versionSetRound_ne (he : Foreign e) (q : AnalyzedQueue) (i : ℕ)
    (iPairs : List (ℤ × ℤ)) (j : ℕ) (g : Graphs) :
    q.versionSetRound i iPairs j g ≠ .error e := by
  unfold versionSetRound
  split
  case h_1 | h_2 =>
    refine bind_ne_error (he.afterWriteOf_ne q _ j) fun _ _ =>
      bind_ne_error (he.pairSet_ne q _) fun _ _ => ?_
    simp [pure, Except.pure]
  case h_3 =>
    refine bind_ne_error (he.beforeWriteOf_ne q _ j) fun _ _ => ?_
    split_ifs
    · exact he.ne_instrument _
    · simp
    · simp
    · refine bind_ne_error (he.primarySet_ne q _) fun _ _ => ?_
      simp [pure, Except.pure]
  case h_4 => simp

theorem Foreign.buildVSDependency_ne (he : Foreign e) (q : AnalyzedQueue) (g : Graphs) :
    q.buildVSDependency g ≠ .error e := by
  refine forRange_ne_error (fun i _ t => ?_) g
  split_ifs
  · simp
  · exact bind_ne_error (he.pairSet_ne q _) fun _ _ =>
      forRange_ne_error (fun j _ r => he.versionSetRound_ne q i _ j r) t

theorem Foreign.orginalIndex_ne (he : Foreign e) (q : AnalyzedQueue) (i : ℕ) :
    q.orginalIndex i ≠ .error e := by
  unfold orginalIndex
  split
  · exact he.ne_instrument _
  · split_ifs
    · refine bind_ne_error (he.afterWriteOf_ne q _ _) fun _ _ => ?_
      simp [pure, Except.pure]
    · simp

theorem Foreign.overwriteRound_ne (he : Foreign e) (q : AnalyzedQueue) (i : ℕ)
    (iPairs : List (ℤ × ℤ)) (o j : ℕ) (g : Graphs) :
    q.overwriteRound i iPairs o j g ≠ .error e := by
  unfold overwriteRound
  split
  case h_1 | h_2 =>
    refine bind_ne_error (he.beforeWriteOf_ne q _ j) fun _ _ =>
      bind_ne_error (he.pairSet_ne q _) fun _ _ => ?_
    simp [pure, Except.pure]
  case h_3 =>
    refine bind_ne_error (he.afterWriteOf_ne q _ j) fun _ _ => ?_
    split_ifs
    · exact he.ne_instrument _
    · simp
    · simp
    · refine bind_ne_error (he.primarySet_ne q _) fun _ _ => ?_
      simp [pure, Except.pure]
  case h_4 => simp

theorem Foreign.buildOWDependency_ne (he : Foreign e) (q : AnalyzedQueue) (g : Graphs) :
    q.buildOWDependency g ≠ .error e := by
  refine forRange_ne_error (fun i _ t => ?_) g
  split_ifs
  · simp
  · exact bind_ne_error (he.pairSet_ne q _) fun _ _ =>
      bind_ne_error (he.orginalIndex_ne q i) fun _ _ =>
        forRange_ne_error (fun j _ r => he.overwriteRound_ne q i _ _ j r) t

theorem Foreign.buildHistory_ne (he : Foreign e) (q : AnalyzedQueue)
    (initOutput : List StmtOutput) : q.buildHistory initOutput ≠ .error e := by
  have hinsert : ∀ u tid stmtIdx row h, q.insertRow u tid stmtIdx row h ≠ .error e := by
    intro u tid stmtIdx row h
    refine bind_ne_error (he.keyOf_ne _ _) fun _ _ => bind_ne_error (he.keyOf_ne _ _) fun _ _ => ?_
    simp [pure, Except.pure]
  refine bind_ne_error (forEach_ne_error (fun output _ h =>
    forEach_ne_error (fun row _ h => hinsert _ _ _ row h) h) _) fun h _ => ?_
  exact forRange_ne_error (fun i _ h => forEach_ne_error (fun row _ h => hinsert _ _ _ row h) h) h

theorem Foreign.buildStmtInstrumentDependency_ne (he : Foreign e) (q : AnalyzedQueue)
    (g : Graphs) : q.buildStmtInstrumentDependency g ≠ .error e := by
  have hnormal : ∀ i remaining pos, q.normalPosOf i remaining pos ≠ .error e := by
    intro i remaining
    induction remaining with
    | zero => exact fun pos => he.ne_instrument _
    | succ remaining ih =>
      intro pos
      unfold normalPosOf
      split
      · exact he.ne_instrument _
      · split
        · simp
        · exact ih _
  refine forRange_ne_error (fun i _ t => ?_) g
  unfold instrumentRound
  split
  · split_ifs
    · exact he.ne_instrument _
    · exact he.ne_instrument _
    · exact he.ne_instrument _
    · simp
  · split_ifs
    · exact he.ne_instrument _
    · exact he.ne_instrument _
    · exact he.ne_instrument _
    · simp
  · refine bind_ne_error (hnormal _ _ _) fun _ _ => ?_
    simp [pure, Except.pure]
  · simp

end Foreign

theorem buildStartDependency_ok (q : AnalyzedQueue) (g : Graphs) :
    ∃ g', q.buildStartDependency g = .ok g' := by
  have hstmt : ∀ i j dt g, ∃ g', q.buildStmtStartDependency i j dt g = .ok g' := by
    intro i j dt g
    refine forRange_succeeds (fun a _ t => ?_) g
    split_ifs
    · exact ⟨t, rfl⟩
    · refine forRange_succeeds (fun b _ r => ?_) t
      split_ifs
      · exact ⟨_, rfl⟩
      · exact ⟨_, rfl⟩
  have hround : ∀ i j dt later g, ∃ g', q.startRound i j dt later g = .ok g' := by
    intro i j dt later g
    unfold startRound
    split_ifs
    · exact hstmt i j dt _
    · exact ⟨g, rfl⟩
  refine forRange_succeeds (fun i _ s => forRange_succeeds (fun j _ t => ?_) s) g
  split_ifs
  · exact ⟨t, rfl⟩
  · obtain ⟨t1, h1⟩ := hround i j .startDepend (q.spans.endIdx i < q.spans.beginIdx j) t
    obtain ⟨t2, h2⟩ := hround i j .strictStartDepend (q.spans.endIdx i < q.spans.strictBeginIdx j) t1
    exact ⟨t2, bind_eq_ok_iff.2 ⟨t1, h1, h2⟩⟩

theorem buildStmtInnerDependency_ok (q : AnalyzedQueue) (g : Graphs) :
    ∃ g', q.buildStmtInnerDependency g = .ok g' := by
  refine forRange_succeeds (fun i _ t => forRange_succeeds (fun j _ r => ?_) t) g
  split_ifs
  · exact ⟨_, rfl⟩
  · exact ⟨_, rfl⟩

end AnalyzedQueue

/-- What a successful constructor did, builder by builder. -/
structure DependencyAnalyzer.Run (inp : AnalyzerInput) (a : DependencyAnalyzer)
    (g1 g2 g3 g4 g5 : Graphs) : Prop where
  copy : inp.copy = .ok a.queue
  history : a.queue.buildHistory inp.initOutput = .ok a.h
  instrument : a.queue.buildStmtInstrumentDependency .empty = .ok g1
  rows : a.queue.buildRowDependencies a.h g1 = .ok g2
  start : a.queue.buildStartDependency g2 = .ok g3
  versionSet : a.queue.buildVSDependency g3 = .ok g4
  overwrite : a.queue.buildOWDependency g4 = .ok g5
  inner : a.queue.buildStmtInnerDependency g5 = .ok a.graphs

theorem dependencyAnalyzer_run {inp : AnalyzerInput} {a : DependencyAnalyzer}
    (h : dependencyAnalyzer inp = .ok a) : ∃ g1 g2 g3 g4 g5, a.Run inp g1 g2 g3 g4 g5 := by
  obtain ⟨q, hq, h⟩ := bind_eq_ok_iff.1 h
  obtain ⟨hist, hhist, h⟩ := bind_eq_ok_iff.1 h
  obtain ⟨g1, h1, h⟩ := bind_eq_ok_iff.1 h
  obtain ⟨g2, h2, h⟩ := bind_eq_ok_iff.1 h
  obtain ⟨g3, h3, h⟩ := bind_eq_ok_iff.1 h
  obtain ⟨g4, h4, h⟩ := bind_eq_ok_iff.1 h
  obtain ⟨g5, h5, h⟩ := bind_eq_ok_iff.1 h
  obtain ⟨g6, h6, h⟩ := bind_eq_ok_iff.1 h
  cases h
  exact ⟨g1, g2, g3, g4, g5, hq, hhist, h1, h2, h3, h4, h5, h6⟩

theorem copy_fields {inp : AnalyzerInput} {q : AnalyzedQueue} (h : inp.copy = .ok q) :
    q.tidNum = inp.tNum + 1 ∧ q.fTxnStatus = inp.finalTxnStatus ++ [.commit] ∧
      q.fTxnIdQueue = inp.finalTidQueue ∧ q.fStmtUsage = inp.finalStmtUsage ∧
      q.fStmtOutput = inp.totalOutput := by
  unfold AnalyzerInput.copy at h
  split_ifs at h
  obtain rfl := Except.ok.inj h
  exact ⟨rfl, rfl, rfl, rfl, rfl⟩

/-- The constructor has no loop that is bounded by the model. -/
theorem dependencyAnalyzer_ne_outOfFuel (inp : AnalyzerInput) :
    dependencyAnalyzer inp ≠ .error .outOfFuel := by
  have hcopy : inp.copy ≠ .error .outOfFuel := by
    unfold AnalyzerInput.copy
    split_ifs <;> simp
  refine bind_ne_error hcopy fun q _ => ?_
  refine bind_ne_error (foreign_outOfFuel.buildHistory_ne q _) fun h _ => ?_
  refine bind_ne_error (foreign_outOfFuel.buildStmtInstrumentDependency_ne q _) fun g _ => ?_
  have hrows : q.buildRowDependencies h g ≠ .error .outOfFuel := by
    rcases q.buildRowDependencies_ok_or_error h g with ⟨g', hg'⟩ | herr
    · simp [hg']
    · simp [herr, bugError]
  refine bind_ne_error hrows fun g _ => ?_
  obtain ⟨g3, h3⟩ := q.buildStartDependency_ok g
  refine bind_ne_error (by simp [h3]) fun g _ => ?_
  refine bind_ne_error (foreign_outOfFuel.buildVSDependency_ne q g) fun g _ => ?_
  refine bind_ne_error (foreign_outOfFuel.buildOWDependency_ne q g) fun g _ => ?_
  obtain ⟨g6, h6⟩ := q.buildStmtInnerDependency_ok g
  exact bind_ne_error (by simp [h6]) fun g _ => by simp [pure, Except.pure]

/-- The row labels of an accepted history. -/
theorem DependencyAnalyzer.Run.rowLabel_iff {inp : AnalyzerInput} {a : DependencyAnalyzer}
    {g1 g2 g3 g4 g5 : Graphs} (hrun : a.Run inp g1 g2 g3 g4 g5) {l : Label} (hl : RowType l.type) :
    a.graphs.HasLabel l ↔ a.queue.SequenceLabel (a.queue.allOps inp.initOutput) l := by
  have hsplits := (buildHistory_spec hrun.history).2.2
  rw [(built_buildStmtInnerDependency hrun.inner).hasLabel_iff
      (by rintro h; simp [RowType, h] at hl),
    (built_buildOWDependency hrun.overwrite).hasLabel_iff
      (by rintro h; simp [RowType, h] at hl),
    (built_buildVSDependency hrun.versionSet).hasLabel_iff
      (by rintro h; simp [RowType, h] at hl),
    (built_buildStartDependency hrun.start).hasLabel_iff
      (by rintro (h | h) <;> simp [RowType, h] at hl),
    buildRowDependencies_adds hrun.rows l, AnalyzedQueue.rowLabel_iff hsplits,
    (built_buildStmtInstrumentDependency hrun.instrument).hasLabel_iff
      (by rintro h; simp [RowType, h] at hl)]
  refine or_iff_right ?_
  cases l <;> simp [Graphs.HasLabel, Graphs.empty, StmtGraph.labels]

/-- The constructor on a queue whose instrumented reads are in place and whose keys are
integers: the row lists, the failure and the row labels. -/
theorem dependencyAnalyzer_rows {inp : AnalyzerInput} {q : AnalyzedQueue} (hq : inp.copy = .ok q)
    (hinit : ∀ row ∈ inp.initOutput.flatten, q.Keyed row)
    (houtput : ∀ i < q.stmtNum, ∀ row ∈ q.output i, q.Keyed row)
    (hinst : ∃ g, q.buildStmtInstrumentDependency .empty = .ok g) :
    (∃ h, q.buildHistory inp.initOutput = .ok h ∧ h.Splits (q.allOps inp.initOutput)) ∧
      (dependencyAnalyzer inp = .error bugError ↔
        ∃ target, q.LooksUp target ∧ Unmatched (q.allOps inp.initOutput) target) ∧
      ∀ a, dependencyAnalyzer inp = .ok a → ∀ l, RowType l.type →
        (a.graphs.HasLabel l ↔ q.SequenceLabel (q.allOps inp.initOutput) l) := by
  obtain ⟨h, hbuild⟩ := buildHistory_ok hinit houtput
  have hsplits := (buildHistory_spec hbuild).2.2
  obtain ⟨g1, h1⟩ := hinst
  have hrows := buildRowDependencies_ok_iff hsplits (q := q) g1
  refine ⟨⟨h, hbuild, hsplits⟩, ?_, fun a ha l hl => ?_⟩
  · have hstart : dependencyAnalyzer inp = (q.buildRowDependencies h g1 >>= fun g => do
        let g ← q.buildStartDependency g
        let g ← q.buildVSDependency g
        let g ← q.buildOWDependency g
        let g ← q.buildStmtInnerDependency g
        return ⟨q, h, g⟩) := by
      rw [dependencyAnalyzer, hq]
      simp only [bind, Except.bind, hbuild]
      rw [show q.buildStmtInstrumentDependency ⟨fun _ _ => ∅, fun _ _ => none⟩ = .ok g1 from h1]
    rw [hstart]
    rcases q.buildRowDependencies_ok_or_error h g1 with ⟨g2, h2⟩ | herr
    · have hall := hrows.1 ⟨g2, h2⟩
      refine iff_of_false ?_ fun ⟨target, hlook, hun⟩ => hall target hlook hun
      rw [h2]
      obtain ⟨g3, h3⟩ := q.buildStartDependency_ok g2
      refine bind_ne_error (by simp) fun _ hg => ?_
      cases hg
      refine bind_ne_error (by rw [h3]; simp) fun g _ => bind_ne_error
        (foreign_bugError.buildVSDependency_ne q g) fun g _ => bind_ne_error
          (foreign_bugError.buildOWDependency_ne q g) fun g _ => ?_
      obtain ⟨g6, h6⟩ := q.buildStmtInnerDependency_ok g
      rw [h6]
      simp [bind, Except.bind, pure, Except.pure]
    · refine iff_of_true (by rw [herr]; rfl) ?_
      by_contra hno
      obtain ⟨g2, h2⟩ := hrows.2 fun target hlook hun => hno ⟨target, hlook, hun⟩
      rw [herr] at h2
      cases h2
  · obtain ⟨g1', g2, g3, g4, g5, hrun⟩ := dependencyAnalyzer_run ha
    obtain rfl : q = a.queue := Except.ok.inj (hq.symm.trans hrun.copy)
    exact hrun.rowLabel_iff hl

/-- An insert with its read, and a select that returns the new row beside the initial one. -/
def insertedRead : AnalyzerInput where
  initOutput := [[["0", "10000"]]]
  totalOutput := [[], [["1", "11000"]], [["0", "10000"], ["1", "11000"]]]
  finalTidQueue := [0, 0, 1]
  finalStmtUsage := [⟨.insertWrite, false, "t0"⟩, ⟨.afterWriteRead, true, "t0"⟩,
    ⟨.selectRead, false, ""⟩]
  finalTxnStatus := [.commit, .commit]
  primaryKeyIdx := 1
  writeOpKeyIdx := 0

def insertedQueue : AnalyzedQueue where
  tidNum := 3
  primaryKeyIndex := 1
  versionKeyIndex := 0
  fTxnStatus := [.commit, .commit, .commit]
  fTxnIdQueue := [0, 0, 1]
  fStmtUsage := insertedRead.finalStmtUsage
  fStmtOutput := insertedRead.totalOutput
  usage_length := rfl
  output_length := rfl
  status_length := rfl
  tid_lt := by decide

theorem insertedRead_rows :
    (∃ h, insertedQueue.buildHistory insertedRead.initOutput = .ok h ∧
        h.Splits (insertedQueue.allOps insertedRead.initOutput)) ∧
      (dependencyAnalyzer insertedRead = .error bugError ↔ ∃ target, insertedQueue.LooksUp target ∧
        Unmatched (insertedQueue.allOps insertedRead.initOutput) target) ∧
      ∀ a, dependencyAnalyzer insertedRead = .ok a → ∀ l, RowType l.type →
        (a.graphs.HasLabel l ↔
          insertedQueue.SequenceLabel (insertedQueue.allOps insertedRead.initOutput) l) := by
  have hkeyed : ∀ row ∈ [["0", "10000"], ["1", "11000"]], insertedQueue.Keyed row := by
    intro row hrow
    rcases List.mem_pair.1 hrow with rfl | rfl
    · exact ⟨⟨10000, by decide⟩, 0, by decide⟩
    · exact ⟨⟨11000, by decide⟩, 1, by decide⟩
  refine dependencyAnalyzer_rows (by rfl) (fun row hrow => hkeyed row ?_) ?_ ⟨_, by rfl⟩
  · revert row
    decide
  · intro i hi row hrow
    refine hkeyed row ?_
    revert i row
    decide

end DbFuzz
