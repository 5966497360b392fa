import DbFuzz.TxCheck.Analyzer

/-! The row histories of the analyzer as one sequence: the operations of the initial rows
and then those of every output, row by row. A row's list is the part of the sequence with
its id. -/

namespace DbFuzz

open Loop

/-- The row lists of `h` split `ops` by row id and keep its order. -/
structure History.Splits (h : History) (ops : List OperateUnit) : Prop where
  nodup : (h.map Prod.fst).Nodup
  row : ∀ e ∈ h, e.2 = ops.filter (·.rowId = e.1)
  listed : ∀ op ∈ ops, op.rowId ∈ h.map Prod.fst

theorem History.splits_nil : History.Splits [] [] := ⟨List.nodup_nil, by simp, by simp⟩

theorem map_fst_insertToHistory (op : OperateUnit) (h : History) :
    (insertToHistory op h).map Prod.fst =
      if op.rowId ∈ h.map Prod.fst then h.map Prod.fst else h.map Prod.fst ++ [op.rowId] := by
  induction h with
  | nil => rfl
  | cons e rest ih =>
    obtain ⟨rowId, ops⟩ := e
    rw [insertToHistory]
    by_cases hid : rowId = op.rowId
    · simp [hid]
    · rw [if_neg hid, List.map_cons, ih]
      by_cases hmem : op.rowId ∈ rest.map Prod.fst
      · rw [if_pos hmem, if_pos (by rw [List.map_cons]; exact List.mem_cons_of_mem _ hmem)]
        rfl
      · have hnew : op.rowId ∉ ((rowId, ops) :: rest).map Prod.fst := by
          rw [List.map_cons, List.mem_cons, not_or]
          exact ⟨Ne.symm hid, hmem⟩
        rw [if_neg hmem, if_neg hnew]
        rfl

theorem mem_insertToHistory_iff {op : OperateUnit} {h : History} (hnodup : (h.map Prod.fst).Nodup)
    {e : ℤ × List OperateUnit} (he : e ∈ insertToHistory op h) :
    e ∈ h ∧ e.1 ≠ op.rowId ∨ e.1 = op.rowId ∧
      ((e.1 ∉ h.map Prod.fst ∧ e.2 = [op]) ∨ ∃ ops, (e.1, ops) ∈ h ∧ e.2 = ops ++ [op]) := by
  induction h with
  | nil =>
    rw [insertToHistory, List.mem_singleton] at he
    subst he
    exact Or.inr ⟨rfl, Or.inl ⟨by simp, rfl⟩⟩
  | cons e' rest ih =>
    obtain ⟨rowId, ops⟩ := e'
    rw [List.map_cons, List.nodup_cons] at hnodup
    rw [insertToHistory] at he
    split_ifs at he with hid
    · subst hid
      rcases List.mem_cons.1 he with rfl | he
      · exact Or.inr ⟨rfl, Or.inr ⟨ops, List.mem_cons_self, rfl⟩⟩
      · refine Or.inl ⟨List.mem_cons_of_mem _ he, fun hc => hnodup.1 ?_⟩
        exact List.mem_map.2 ⟨e, he, hc⟩
    · rcases List.mem_cons.1 he with rfl | he
      · exact Or.inl ⟨List.mem_cons_self, hid⟩
      · rcases ih hnodup.2 he with ⟨hmem, hne⟩ | ⟨hrow, hnew | ⟨ops', hmem, hops⟩⟩
        · exact Or.inl ⟨List.mem_cons_of_mem _ hmem, hne⟩
        · refine Or.inr ⟨hrow, Or.inl ⟨?_, hnew.2⟩⟩
          rw [List.map_cons, List.mem_cons, not_or]
          exact ⟨fun hc => hid (hc.symm.trans hrow), hnew.1⟩
        · exact Or.inr ⟨hrow, Or.inr ⟨ops', List.mem_cons_of_mem _ hmem, hops⟩⟩

/-- The next operation of the sequence goes to the end of its row. -/
theorem History.Splits.insert {h : History} {ops : List OperateUnit} (hs : h.Splits ops)
    (op : OperateUnit) : (insertToHistory op h).Splits (ops ++ [op]) where
  nodup := by
    rw [map_fst_insertToHistory]
    split_ifs with hmem
    · exact hs.nodup
    · exact List.nodup_append.2 ⟨hs.nodup, by simp, by
        intro a ha b hb
        rw [List.mem_singleton.1 hb]
        rintro rfl
        exact hmem ha⟩
  row e he := by
    rw [List.filter_append]
    rcases mem_insertToHistory_iff hs.nodup he with ⟨hmem, hne⟩ | ⟨hrow, hnew | ⟨ops', hmem, hops⟩⟩
    · have hother : [op].filter (·.rowId = e.1) = [] := by simp [Ne.symm hne]
      rw [hother, List.append_nil]
      exact hs.row e hmem
    · have hnone : ops.filter (·.rowId = e.1) = [] := by
        rw [List.filter_eq_nil_iff]
        intro o ho hc
        rw [decide_eq_true_eq] at hc
        exact hnew.1 (hc ▸ hs.listed o ho)
      rw [hnone, hnew.2, hrow]
      simp
    · have hold : ops' = ops.filter (·.rowId = e.1) := hs.row _ hmem
      rw [hops, hold, hrow]
      simp
  listed o ho := by
    rw [map_fst_insertToHistory]
    rcases List.mem_append.1 ho with ho | ho
    · have := hs.listed o ho
      split_ifs
      · exact this
      · exact List.mem_append_left _ this
    · rw [List.mem_singleton.1 ho]
      split_ifs with hmem
      · exact hmem
      · simp

/-- All operations of a history. -/
def History.operations (h : History) : List OperateUnit := h.flatMap Prod.snd

theorem flatMap_filter_perm {keys : List ℤ} {ops : List OperateUnit} (hnodup : keys.Nodup)
    (hmem : ∀ op ∈ ops, op.rowId ∈ keys) :
    (keys.flatMap fun k => ops.filter (·.rowId = k)).Perm ops := by
  induction keys generalizing ops with
  | nil =>
    cases ops with
    | nil => exact List.Perm.refl _
    | cons op ops => exact absurd (hmem op (by simp)) (by simp)
  | cons k keys ih =>
    obtain ⟨hk, hnodup⟩ := List.nodup_cons.1 hnodup
    have hmem' : ∀ op ∈ ops.filter (fun op => !decide (op.rowId = k)), op.rowId ∈ keys := by
      intro op hop
      obtain ⟨hop, hne⟩ := List.mem_filter.1 hop
      rcases List.mem_cons.1 (hmem op hop) with hc | hc
      · simp [hc] at hne
      · exact hc
    have hrest := ih hnodup hmem'
    have hsame : (keys.flatMap fun k' => (ops.filter (fun op => !decide (op.rowId = k))).filter
        (·.rowId = k')) = keys.flatMap fun k' => ops.filter (·.rowId = k') := by
      refine List.flatMap_congr fun k' hk' => ?_
      rw [List.filter_filter]
      refine List.filter_congr fun op _ => ?_
      by_cases hop : op.rowId = k'
      · have hne : op.rowId ≠ k := fun hc => hk (hc.symm.trans hop ▸ hk')
        simp [hop, hop ▸ hne]
      · simp [hop]
    rw [hsame] at hrest
    rw [List.flatMap_cons]
    exact (hrest.append_left _).trans
      (List.filter_append_perm (fun op => decide (op.rowId = k)) ops)

theorem History.Splits.perm {h : History} {ops : List OperateUnit} (hs : h.Splits ops) :
    h.operations.Perm ops := by
  have hrows : h.operations = (h.map Prod.fst).flatMap fun k => ops.filter (·.rowId = k) := by
    rw [History.operations, List.flatMap_map]
    exact List.flatMap_congr fun e he => hs.row e he
  rw [hrows]
  exact flatMap_filter_perm hs.nodup hs.listed

namespace AnalyzedQueue

/-- Both key cells of the row are integers. -/
def Keyed (q : AnalyzedQueue) (row : RowOutput) : Prop :=
  (∃ p, keyOf row q.primaryKeyIndex = .ok p) ∧ ∃ v, keyOf row q.versionKeyIndex = .ok v

/-- The operation of a keyed row. -/
def rowOp (q : AnalyzedQueue) (u : StmtUsage) (tid : ℕ) (stmtIdx : Option ℕ) (row : RowOutput) :
    OperateUnit :=
  ⟨u, (keyOf row q.versionKeyIndex).toOption.getD 0, tid, stmtIdx,
    (keyOf row q.primaryKeyIndex).toOption.getD 0, hashOutput row⟩

/-- The operation of an initial row. -/
def initOp (q : AnalyzedQueue) (row : RowOutput) : OperateUnit :=
  q.rowOp (.mk' .afterWriteRead false) (q.tidNum - 1) none row

def initOps (q : AnalyzedQueue) (initOutput : List StmtOutput) : List OperateUnit :=
  initOutput.flatten.map q.initOp

/-- The operations of the statement `i`. -/
def stmtOps (q : AnalyzedQueue) (i : ℕ) : List OperateUnit :=
  (q.output i).map (q.rowOp (q.usage i) (q.tid i) (some i))

/-- The sequence that the analyzer splits into rows. -/
def allOps (q : AnalyzedQueue) (initOutput : List StmtOutput) : List OperateUnit :=
  q.initOps initOutput ++ (List.range q.stmtNum).flatMap q.stmtOps

def initialHistory (q : AnalyzedQueue) (initOutput : List StmtOutput) : Except Failure History :=
  forEach initOutput (fun output =>
    forEach output (q.insertRow (.mk' .afterWriteRead false) (q.tidNum - 1) none)) []

theorem buildHistory_eq (q : AnalyzedQueue) (initOutput : List StmtOutput) :
    q.buildHistory initOutput = (q.initialHistory initOutput >>= fun h =>
      forRange q.stmtNum
        (fun i => forEach (q.output i) (q.insertRow (q.usage i) (q.tid i) (some i))) h) := rfl

variable {q : AnalyzedQueue}

theorem insertRow_eq_ok_iff {u : StmtUsage} {tid : ℕ} {stmtIdx : Option ℕ} {row : RowOutput}
    {h h' : History} : q.insertRow u tid stmtIdx row h = .ok h' ↔
      q.Keyed row ∧ h' = insertToHistory (q.rowOp u tid stmtIdx row) h := by
  constructor
  · intro hins
    obtain ⟨p, hp, hins⟩ := bind_eq_ok_iff.1 hins
    obtain ⟨v, hv, hins⟩ := bind_eq_ok_iff.1 hins
    cases hins
    exact ⟨⟨⟨p, hp⟩, v, hv⟩, by simp [rowOp, hp, hv, Except.toOption]⟩
  · rintro ⟨⟨⟨p, hp⟩, v, hv⟩, rfl⟩
    exact bind_eq_ok_iff.2 ⟨p, hp, bind_eq_ok_iff.2 ⟨v, hv, by
      simp [rowOp, hp, hv, Except.toOption, pure, Except.pure]⟩⟩

/-- The rows of one output. -/
theorem insertRows_spec {u : StmtUsage} {tid : ℕ} {stmtIdx : Option ℕ} {rows : StmtOutput}
    {h h' : History} {ops : List OperateUnit} (hs : h.Splits ops)
    (hrun : forEach rows (q.insertRow u tid stmtIdx) h = .ok h') :
    (∀ row ∈ rows, q.Keyed row) ∧ h'.Splits (ops ++ rows.map (q.rowOp u tid stmtIdx)) := by
  induction rows generalizing h ops with
  | nil =>
    cases hrun
    exact ⟨by simp, by simpa using hs⟩
  | cons row rows ih =>
    obtain ⟨h1, hins, hrun⟩ := bind_eq_ok_iff.1 hrun
    obtain ⟨hkeyed, rfl⟩ := insertRow_eq_ok_iff.1 hins
    obtain ⟨hrest, hsplit⟩ := ih (hs.insert _) hrun
    exact ⟨by simpa using ⟨hkeyed, hrest⟩, by simpa using hsplit⟩

theorem insertRows_ok {u : StmtUsage} {tid : ℕ} {stmtIdx : Option ℕ} {rows : StmtOutput}
    (hkeyed : ∀ row ∈ rows, q.Keyed row) (h : History) :
    ∃ h', forEach rows (q.insertRow u tid stmtIdx) h = .ok h' := by
  induction rows generalizing h with
  | nil => exact ⟨h, rfl⟩
  | cons row rows ih =>
    obtain ⟨h', hrun⟩ := ih (fun r hr => hkeyed r (by simp [hr]))
      (insertToHistory (q.rowOp u tid stmtIdx row) h)
    exact ⟨h', bind_eq_ok_iff.2
      ⟨_, insertRow_eq_ok_iff.2 ⟨hkeyed row (by simp), rfl⟩, hrun⟩⟩

theorem initialHistory_spec {initOutput : List StmtOutput} {h : History}
    (hrun : q.initialHistory initOutput = .ok h) :
    (∀ row ∈ initOutput.flatten, q.Keyed row) ∧ h.Splits (q.initOps initOutput) := by
  have hloop : ∀ (outs : List StmtOutput) (h0 : History) (ops : List OperateUnit), h0.Splits ops →
      forEach outs (fun output =>
        forEach output (q.insertRow (.mk' .afterWriteRead false) (q.tidNum - 1) none)) h0 = .ok h →
      (∀ row ∈ outs.flatten, q.Keyed row) ∧ h.Splits (ops ++ outs.flatten.map q.initOp) := by
    intro outs
    induction outs with
    | nil =>
      intro h0 ops hs hr
      cases hr
      exact ⟨by simp, by simpa using hs⟩
    | cons out outs ih =>
      intro h0 ops hs hr
      obtain ⟨h1, hout, hr⟩ := bind_eq_ok_iff.1 hr
      obtain ⟨hkeyed, hs1⟩ := insertRows_spec hs hout
      obtain ⟨hkeyed', hs2⟩ := ih h1 _ hs1 hr
      refine ⟨fun row hrow => ?_, ?_⟩
      · rw [List.flatten_cons, List.mem_append] at hrow
        exact hrow.elim (hkeyed row) (hkeyed' row)
      · rw [List.flatten_cons, List.map_append, ← List.append_assoc]
        exact hs2
  simpa [initOps] using hloop initOutput [] [] History.splits_nil hrun

theorem initialHistory_ok {initOutput : List StmtOutput}
    (hkeyed : ∀ row ∈ initOutput.flatten, q.Keyed row) :
    ∃ h, q.initialHistory initOutput = .ok h := by
  have hloop : ∀ (outs : List StmtOutput), (∀ row ∈ outs.flatten, q.Keyed row) → ∀ h0 : History,
      ∃ h, forEach outs (fun output =>
        forEach output (q.insertRow (.mk' .afterWriteRead false) (q.tidNum - 1) none)) h0 = .ok h := by
    intro outs
    induction outs with
    | nil => exact fun _ h0 => ⟨h0, rfl⟩
    | cons out outs ih =>
      intro hk h0
      rw [List.flatten_cons] at hk
      obtain ⟨h1, hout⟩ := insertRows_ok (fun r hr => hk r (List.mem_append_left _ hr)) h0
      obtain ⟨h, hrest⟩ := ih (fun r hr => hk r (List.mem_append_right _ hr)) h1
      exact ⟨h, bind_eq_ok_iff.2 ⟨h1, hout, hrest⟩⟩
  exact hloop initOutput hkeyed []

theorem buildHistory_spec {initOutput : List StmtOutput} {h : History}
    (hrun : q.buildHistory initOutput = .ok h) :
    (∀ row ∈ initOutput.flatten, q.Keyed row) ∧
      (∀ i < q.stmtNum, ∀ row ∈ q.output i, q.Keyed row) ∧ h.Splits (q.allOps initOutput) := by
  rw [buildHistory_eq] at hrun
  obtain ⟨h0, hinit, hrun⟩ := bind_eq_ok_iff.1 hrun
  obtain ⟨hkeyed, hs⟩ := initialHistory_spec hinit
  have hinv := forRange_inv (fun k t => (∀ i < k, ∀ row ∈ q.output i, q.Keyed row) ∧
      t.Splits (q.initOps initOutput ++ (List.range k).flatMap q.stmtOps))
    ⟨by simp, by simpa using hs⟩
    (fun k _ t t' ht hstep => by
      obtain ⟨hk, hs'⟩ := insertRows_spec ht.2 hstep
      refine ⟨fun i hi => ?_, ?_⟩
      · rcases Nat.lt_succ_iff_lt_or_eq.1 hi with hi | rfl
        · exact ht.1 i hi
        · exact hk
      · rw [List.range_succ, List.flatMap_append, ← List.append_assoc]
        simpa [stmtOps] using hs') hrun
  exact ⟨hkeyed, hinv⟩

theorem buildHistory_ok {initOutput : List StmtOutput}
    (hinit : ∀ row ∈ initOutput.flatten, q.Keyed row)
    (houtput : ∀ i < q.stmtNum, ∀ row ∈ q.output i, q.Keyed row) :
    ∃ h, q.buildHistory initOutput = .ok h := by
  obtain ⟨h0, h0run⟩ := initialHistory_ok hinit
  obtain ⟨h, hrun, -⟩ := forRange_ok
    (f := fun i => forEach (q.output i) (q.insertRow (q.usage i) (q.tid i) (some i)))
    (fun _ _ => True) (s := h0) trivial fun i hi t _ => by
      obtain ⟨t', ht'⟩ := insertRows_ok (houtput i hi) t
      exact ⟨t', ht', trivial⟩
  exact ⟨h, by rw [buildHistory_eq, h0run]; exact hrun⟩

end AnalyzedQueue

end DbFuzz
