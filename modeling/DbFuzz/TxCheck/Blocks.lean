import DbFuzz.TxCheck.Instrumentor
import DbFuzz.TxCheck.Leader
import Mathlib.Data.List.GetD
import Mathlib.Order.Interval.Finset.Nat

/-! The blocks of an instrumented queue: each statement between the reads placed for it.
`clean_instrument` keeps the statements, and the groups of the analyzer are the blocks. -/

namespace DbFuzz

open Loop Relation

/-- The queue after `clean_instrument`. -/
def cleanInstrument {Val : Type} (queue : List (Emitted Val)) : List (Emitted Val) :=
  queue.filter fun e => !e.usage.isInstrumented

/-- Which reads stand around a statement, by its type. -/
def BlockShape : StmtBasicType → Bool → Bool → List String → Prop
  | .updateWrite, true, true, _ => True
  | .deleteWrite, true, false, _ => True
  | .insertWrite, false, true, _ => True
  | .selectRead, false, false, _ => True
  | .initType, false, false, [] => True
  | _, _, _, _ => False

/-- A statement with the tables of its version set reads, the read in front of it and
the read behind it. -/
structure Block (Val : Type) where
  stmt : Prod Val
  tid : ℤ
  usage : StmtUsage
  tables : List String
  before : Option (QuerySpec Val)
  after : Option (QuerySpec Val)
  plain : usage.isInstrumented = false
  shape : BlockShape usage.stmtType before.isSome after.isSome tables

namespace Block

variable {Val : Type}

/-- The index of the statement in its block. -/
def lead (b : Block Val) : ℕ := b.tables.length + b.before.toList.length

def entries (b : Block Val) : List (Emitted Val) :=
  versionSetReads b.tid b.tables ++
    (b.before.toList.map (⟨.query ·, b.tid, ⟨.beforeWriteRead, true, b.usage.targetTable⟩⟩) ++
      ⟨b.stmt, b.tid, b.usage⟩ ::
        b.after.toList.map (⟨.query ·, b.tid, ⟨.afterWriteRead, true, b.usage.targetTable⟩⟩))

/-- The place of a block in a queue: where it starts, and the indices it covers. -/
def start (pre : List (Block Val)) : ℕ := (pre.flatMap entries).length

def span (pre : List (Block Val)) (b : Block Val) : Finset ℕ :=
  Finset.Ico (start pre) (start pre + b.entries.length)

theorem tid_entries (b : Block Val) : ∀ e ∈ b.entries, e.tid = b.tid := by
  intro e he
  simp only [entries, versionSetReads, List.mem_append, List.mem_map, List.mem_cons] at he
  rcases he with ⟨_, -, rfl⟩ | ⟨_, -, rfl⟩ | rfl | ⟨_, -, rfl⟩ <;> rfl

theorem clean_entries (b : Block Val) : cleanInstrument b.entries = [⟨b.stmt, b.tid, b.usage⟩] := by
  have hnone : ∀ (l : List (Emitted Val)), (∀ e ∈ l, e.usage.isInstrumented = true) →
      l.filter (fun e => !e.usage.isInstrumented) = [] := by
    intro l hl
    exact List.filter_eq_nil_iff.2 fun e he => by simp [hl e he]
  rw [cleanInstrument, entries, List.filter_append, List.filter_append, hnone, hnone,
    List.filter_cons_of_pos (by simp [b.plain]), hnone]
  · rfl
  · simp
  · simp
  · simp [versionSetReads]

/-- The types of a block, in order. -/
theorem types_entries (b : Block Val) : b.entries.map (·.usage.stmtType) =
    List.replicate b.tables.length .versionSetRead ++
      (List.replicate b.before.toList.length .beforeWriteRead ++
        b.usage.stmtType :: List.replicate b.after.toList.length .afterWriteRead) := by
  simp [entries, versionSetReads, Function.comp_def, List.map_const']

theorem length_entries (b : Block Val) :
    b.entries.length = b.lead + 1 + b.after.toList.length := by
  have := congrArg List.length (types_entries b)
  simp only [List.length_map, List.length_append, List.length_replicate, List.length_cons] at this
  rw [this, lead]
  omega

theorem type_of_tables (b : Block Val) (h : b.tables ≠ []) :
    b.usage.stmtType.isNormal = true := by
  have hshape := b.shape
  unfold BlockShape at hshape
  split at hshape
  · next ht _ _ => rw [ht]; rfl
  · next ht _ _ => rw [ht]; rfl
  · next ht _ _ => rw [ht]; rfl
  · next ht _ _ => rw [ht]; rfl
  · next hnil => exact absurd hnil h
  · exact hshape.elim

theorem type_of_before (b : Block Val) (h : b.before.isSome = true) :
    b.usage.stmtType = .updateWrite ∨ b.usage.stmtType = .deleteWrite := by
  have hshape := b.shape
  unfold BlockShape at hshape
  split at hshape <;> simp_all

theorem type_of_after (b : Block Val) (h : b.after.isSome = true) :
    b.usage.stmtType = .updateWrite ∨ b.usage.stmtType = .insertWrite := by
  have hshape := b.shape
  unfold BlockShape at hshape
  split at hshape <;> simp_all

/-- A statement is never one of the placed reads. -/
theorem type_normal_or_init (b : Block Val) :
    b.usage.stmtType.isNormal = true ∨ b.usage.stmtType = .initType := by
  have hshape := b.shape
  unfold BlockShape at hshape
  split at hshape <;> simp_all [StmtBasicType.isNormal]

end Block

/-! What the instrumentor emits. -/

variable {Val : Type} {env : InstrumentEnv Val} {queryText : QuerySpec Val → String}

theorem instrumentSelect_block (tid : ℤ) (stmt : Prod Val) (text : String) :
    ∃ b : Block Val, (b.stmt, b.tid) = (stmt, tid) ∧ b.entries = instrumentSelect tid stmt text :=
  ⟨⟨stmt, tid, .mk' .selectRead false, extractWordsBeginWith text "t_", none, none, rfl, trivial⟩,
    rfl, rfl⟩

/-- A round of the instrumentor emits a block of the statement. -/
theorem instrumentStmt_block {tid : ℤ} {stmt : Prod Val} {block : List (Emitted Val)}
    (h : instrumentStmt env queryText tid stmt = .ok block) :
    ∃ b : Block Val, (b.stmt, b.tid) = (stmt, tid) ∧ b.entries = block := by
  cases stmt with
  | rowWrite w =>
    let tables := extractWordsBeginWith (w.out env.targetDbms) "t_"
    let before := w.beforeWriteSelect
    cases w with
    | update s =>
      simp only [instrumentStmt, instrumentUpdate] at h
      split at h
      · cases h
      split at h
      · cases h
      next value _ =>
      split at h
      · cases h
      rw [Except.ok.injEq] at h
      exact ⟨⟨.rowWrite (.update s), tid, ⟨.updateWrite, false, s.victim.ident⟩, tables, some before,
        some (afterWriteSelect env s.victim value), rfl, trivial⟩, rfl, h⟩
    | delete s =>
      simp only [instrumentStmt, instrumentDelete, Except.ok.injEq] at h
      subst h
      exact ⟨⟨.rowWrite (.delete s), tid, (RowWrite.delete s).usage, tables, some before, none,
        rfl, trivial⟩, rfl, rfl⟩
  | insert s =>
    simp only [instrumentStmt, instrumentInsert] at h
    split at h
    · cases h
    split at h
    · cases h
    next value _ =>
    split at h
    · cases h
    cases h
    exact ⟨⟨.insert s, tid, ⟨.insertWrite, false, s.victim.ident⟩,
      (extractWordsBeginWith s.out "t_").erase s.victim.ident, none,
      some (afterWriteSelect env s.victim value), rfl, trivial⟩, rfl, rfl⟩
  | txnString text =>
    simp only [instrumentStmt] at h
    split at h
    · cases h
      exact instrumentSelect_block tid _ text
    · cases h
      exact ⟨⟨_, tid, .mk' .initType false, [], none, none, rfl, trivial⟩, rfl, rfl⟩
  | query q =>
    simp only [instrumentStmt, Except.ok.injEq] at h
    subst h
    exact instrumentSelect_block tid _ (queryText q)
  | other text =>
    simp only [instrumentStmt, Except.ok.injEq] at h
    subst h
    exact instrumentSelect_block tid _ text

/-- The usage of a statement, by the branch it takes. -/
def Prod.usage : Prod Val → StmtUsage
  | .rowWrite w => w.usage
  | .insert s => ⟨.insertWrite, false, s.victim.ident⟩
  | .txnString text =>
    if containsText text "SELECT * FROM" then .mk' .selectRead false else .mk' .initType false
  | .query _ => .mk' .selectRead false
  | .other _ => .mk' .selectRead false

/-- An entry that is emitted for a statement: a placed read, or the statement. -/
inductive EmittedFor (stmt : Prod Val) (tid : ℤ) : Emitted Val → Prop
  | versionSet (table : String) : EmittedFor stmt tid
      ⟨.txnString ("SELECT * FROM " ++ table), tid, ⟨.versionSetRead, true, table⟩⟩
  | before (q : QuerySpec Val) (table : String) : EmittedFor stmt tid
      ⟨.query q, tid, ⟨.beforeWriteRead, true, table⟩⟩
  | after (q : QuerySpec Val) (table : String) : EmittedFor stmt tid
      ⟨.query q, tid, ⟨.afterWriteRead, true, table⟩⟩
  | stmt : EmittedFor stmt tid ⟨stmt, tid, stmt.usage⟩

theorem EmittedFor.of_versionSetReads {stmt : Prod Val} {tid : ℤ} {tables : List String}
    {d : Emitted Val} (h : d ∈ versionSetReads tid tables) : EmittedFor stmt tid d := by
  obtain ⟨table, -, rfl⟩ := List.mem_map.1 h
  exact .versionSet table

theorem EmittedFor.of_instrumentSelect {stmt : Prod Val} {tid : ℤ} {text : String} {d : Emitted Val}
    (husage : stmt.usage = .mk' .selectRead false) (h : d ∈ instrumentSelect tid stmt text) :
    EmittedFor stmt tid d := by
  rcases List.mem_append.1 h with h | h
  · exact .of_versionSetReads h
  · rw [List.mem_singleton.1 h, ← husage]
    exact .stmt

theorem mem_instrumentStmt {tid : ℤ} {stmt : Prod Val} {block : List (Emitted Val)}
    (h : instrumentStmt env queryText tid stmt = .ok block) : ∀ d ∈ block, EmittedFor stmt tid d := by
  intro d hd
  cases stmt with
  | rowWrite w =>
    cases w with
    | update s =>
      simp only [instrumentStmt, instrumentUpdate] at h
      split at h
      · cases h
      split at h
      · cases h
      split at h
      · cases h
      cases h
      rcases List.mem_append.1 hd with hd | hd
      · exact .of_versionSetReads hd
      · simp only [List.mem_cons, List.not_mem_nil, or_false] at hd
        rcases hd with rfl | rfl | rfl
        · exact .before _ _
        · exact .stmt
        · exact .after _ _
    | delete s =>
      simp only [instrumentStmt, instrumentDelete, Except.ok.injEq] at h
      subst h
      rcases List.mem_append.1 hd with hd | hd
      · exact .of_versionSetReads hd
      · simp only [List.mem_cons, List.not_mem_nil, or_false] at hd
        rcases hd with rfl | rfl
        · exact .before _ _
        · exact .stmt
  | insert s =>
    simp only [instrumentStmt, instrumentInsert] at h
    split at h
    · cases h
    split at h
    · cases h
    split at h
    · cases h
    cases h
    rcases List.mem_append.1 hd with hd | hd
    · exact .of_versionSetReads hd
    · simp only [List.mem_cons, List.not_mem_nil, or_false] at hd
      rcases hd with rfl | rfl
      · exact .stmt
      · exact .after _ _
  | txnString text =>
    simp only [instrumentStmt] at h
    split_ifs at h with htext
    · cases h
      exact .of_instrumentSelect (if_pos htext) hd
    · cases h
      rw [List.mem_singleton.1 hd, ← show (Prod.txnString text : Prod Val).usage =
        .mk' .initType false from if_neg htext]
      exact .stmt
  | query q =>
    simp only [instrumentStmt, Except.ok.injEq] at h
    subst h
    exact .of_instrumentSelect rfl hd
  | other text =>
    simp only [instrumentStmt, Except.ok.injEq] at h
    subst h
    exact .of_instrumentSelect rfl hd

theorem instrumentor_flatMap {queue : List (Prod Val × ℤ)} {out : List (Emitted Val)}
    (h : instrumentor env queryText queue = .ok out) :
    ∃ blocks : List (Block Val), blocks.map (fun b => (b.stmt, b.tid)) = queue ∧
      out = blocks.flatMap Block.entries := by
  obtain ⟨parts, hparts, hout⟩ := bind_eq_ok_iff.1 h
  cases hout
  clear h
  induction queue generalizing parts with
  | nil =>
    cases hparts
    exact ⟨[], rfl, rfl⟩
  | cons e queue ih =>
    rw [List.mapM_cons] at hparts
    obtain ⟨block, hblock, hbind⟩ := bind_eq_ok_iff.1 hparts
    obtain ⟨rest, hrest, hcons⟩ := bind_eq_ok_iff.1 hbind
    obtain ⟨b, hb, hentries⟩ := instrumentStmt_block hblock
    cases hcons
    obtain ⟨blocks, hblocks, hflat⟩ := ih _ hrest
    refine ⟨b :: blocks, ?_, ?_⟩
    · rw [List.map_cons, hblocks, hb]
    · rw [List.flatMap_cons, List.flatten_cons, hentries, hflat]

theorem clean_flatMap (blocks : List (Block Val)) :
    cleanInstrument (blocks.flatMap Block.entries) = blocks.map fun b => ⟨b.stmt, b.tid, b.usage⟩ := by
  induction blocks with
  | nil => rfl
  | cons b blocks ih =>
    rw [List.flatMap_cons, cleanInstrument, List.filter_append]
    exact congrArg₂ (· ++ ·) b.clean_entries ih

/-! Places in a queue of blocks. -/

namespace Block

variable {blocks pre post pre' post' : List (Block Val)} {b b' : Block Val} {i k : ℕ}

theorem mem_span : i ∈ span pre b ↔ start pre ≤ i ∧ i < start pre + b.entries.length :=
  Finset.mem_Ico

theorem start_append (pre post : List (Block Val)) :
    start (pre ++ post) = start pre + start post := by
  rw [start, List.flatMap_append, List.length_append]
  rfl

theorem start_cons (b : Block Val) (post : List (Block Val)) :
    start (b :: post) = b.entries.length + start post := by
  rw [start, List.flatMap_cons, List.length_append]
  rfl

/-- Every index stands in a block. -/
theorem exists_span (h : i < start blocks) : ∃ pre b post, blocks = pre ++ b :: post ∧
    i ∈ span pre b := by
  induction blocks generalizing i with
  | nil => exact absurd h (Nat.not_lt_zero i)
  | cons c blocks ih =>
    by_cases hc : i < c.entries.length
    · refine ⟨[], c, blocks, rfl, mem_span.2 ⟨Nat.zero_le i, ?_⟩⟩
      rwa [show start ([] : List (Block Val)) = 0 from rfl, Nat.zero_add]
    · rw [start_cons] at h
      obtain ⟨pre, b, post, rfl, hmem⟩ := ih (i := i - c.entries.length) (by omega)
      rw [mem_span] at hmem
      refine ⟨c :: pre, b, post, rfl, mem_span.2 ?_⟩
      rw [start_cons]
      omega

/-- An index stands in one block only. -/
theorem span_unique (h : blocks = pre ++ b :: post) (h' : blocks = pre' ++ b' :: post')
    (hi : i ∈ span pre b) (hi' : i ∈ span pre' b') : span pre b = span pre' b' := by
  have hlt : ∀ {p p' q q' : List (Block Val)} {c c' : Block Val}, p ++ c :: q = p' ++ c' :: q' →
      i ∈ span p c → i ∈ span p' c' → p.length ≤ p'.length → span p c = span p' c' := by
    intro p p' q q' c c' he hc hc' hlen
    rw [mem_span] at hc hc'
    obtain ⟨t, rfl, ht⟩ | ⟨t, rfl, ht⟩ := List.append_eq_append_iff.1 he
    · cases t with
      | nil =>
        rw [List.nil_append, List.cons.injEq] at ht
        rw [ht.1, List.append_nil]
      | cons d t =>
        rw [List.cons_append, List.cons.injEq] at ht
        rw [start_append, start_cons, ← ht.1] at hc'
        omega
    · rw [List.length_append] at hlen
      obtain rfl : t = [] := List.length_eq_zero_iff.1 (by omega)
      rw [List.nil_append, List.cons.injEq] at ht
      rw [ht.1, List.append_nil]
  rcases Nat.le_total pre.length pre'.length with hlen | hlen
  · exact hlt (h.symm.trans h') hi hi' hlen
  · exact (hlt (h'.symm.trans h) hi' hi hlen).symm

end Block

/-! The analyzer's view of the emitted queue. -/

namespace AnalyzedQueue

/-- The queue of an analyzer that is given the emitted statements. -/
structure OfEmitted (q : AnalyzedQueue) (out : List (Emitted Val)) : Prop where
  tid : q.fTxnIdQueue.map (fun t : ℕ => (t : ℤ)) = out.map (·.tid)
  usage : q.fStmtUsage = out.map (·.usage)

/-- A block from an index on. -/
structure At (q : AnalyzedQueue) (s : ℕ) (b : Block Val) : Prop where
  fits : s + b.entries.length ≤ q.stmtNum
  tid : ∀ k < b.entries.length, (q.tid (s + k) : ℤ) = b.tid
  type : ∀ k < b.entries.length, (q.usage (s + k)).stmtType =
    (b.entries.map (·.usage.stmtType)).getD k .initType

variable {q : AnalyzedQueue} {out : List (Emitted Val)} {b : Block Val} {s i k : ℕ}

theorem OfEmitted.length (h : q.OfEmitted out) : q.stmtNum = out.length := by
  simpa [stmtNum] using congrArg List.length h.tid

theorem OfEmitted.tid_eq (h : q.OfEmitted out) (i : ℕ) :
    (q.tid i : ℤ) = (out.map (·.tid)).getD i 0 := by
  rw [← h.tid]
  exact (List.getD_map q.fTxnIdQueue 0 (fun t : ℕ => (t : ℤ))).symm

theorem OfEmitted.type_eq (h : q.OfEmitted out) (i : ℕ) :
    (q.usage i).stmtType = (out.map (·.usage.stmtType)).getD i .initType := by
  have hmap : out.map (·.usage.stmtType) = q.fStmtUsage.map (·.stmtType) := by
    rw [h.usage, List.map_map]
    rfl
  rw [hmap]
  exact (List.getD_map q.fStmtUsage (.mk' .initType false) (·.stmtType)).symm

theorem OfEmitted.at_start {blocks pre post : List (Block Val)}
    (h : q.OfEmitted (blocks.flatMap Block.entries)) (hb : blocks = pre ++ b :: post) :
    q.At (Block.start pre) b := by
  have hout : blocks.flatMap Block.entries =
      pre.flatMap Block.entries ++ (b.entries ++ post.flatMap Block.entries) := by
    rw [hb, List.flatMap_append, List.flatMap_cons]
  have hlen : (pre.flatMap Block.entries).length = Block.start pre := rfl
  -- what a field shows at a place of the block
  have hget : ∀ {β : Type} (f : Emitted Val → β) (d : β) (k : ℕ), k < b.entries.length →
      ((blocks.flatMap Block.entries).map f).getD (Block.start pre + k) d =
        (b.entries.map f).getD k d := by
    intro β f d k hk
    rw [hout, List.map_append, List.map_append, List.getD_append_right _ _ _ _ (by simp [hlen]),
      List.length_map, hlen, Nat.add_sub_cancel_left, List.getD_append _ _ _ _ (by simpa using hk)]
  refine ⟨?_, fun k hk => ?_, fun k hk => ?_⟩
  · rw [h.length, hout, List.length_append, List.length_append, hlen]
    omega
  · rw [h.tid_eq, hget _ _ k hk, List.getD_eq_getElem _ _ (by simpa using hk), List.getElem_map]
    exact b.tid_entries _ (List.getElem_mem hk)
  · rw [h.type_eq, hget _ _ k hk]

/-! The types in a block. -/

theorem At.versionSet (h : q.At s b) (hk : k < b.tables.length) :
    (q.usage (s + k)).stmtType = .versionSetRead := by
  have hlen := b.length_entries
  rw [Block.lead] at hlen
  rw [h.type k (by omega), b.types_entries, List.getD_append _ _ _ _ (by simpa using hk),
    List.getD_replicate _ hk]

theorem At.before (h : q.At s b) (hk : b.tables.length ≤ k) (hlead : k < b.lead) :
    (q.usage (s + k)).stmtType = .beforeWriteRead := by
  have hlen := b.length_entries
  rw [Block.lead] at hlead hlen
  rw [h.type k (by omega), b.types_entries, List.getD_append_right _ _ _ _ (by simpa using hk),
    List.length_replicate, List.getD_append _ _ _ _ (by simp; omega),
    List.getD_replicate _ (by omega)]

theorem At.lead (h : q.At s b) : (q.usage (s + b.lead)).stmtType = b.usage.stmtType := by
  have hlen := b.length_entries
  rw [h.type _ (by omega), b.types_entries, Block.lead,
    List.getD_append_right _ _ _ _ (by simp), List.length_replicate, Nat.add_sub_cancel_left,
    List.getD_append_right _ _ _ _ (by simp), List.length_replicate, Nat.sub_self,
    List.getD_cons_zero]

theorem At.after (h : q.At s b) (hk : b.lead < k) (hlt : k < b.entries.length) :
    (q.usage (s + k)).stmtType = .afterWriteRead := by
  have hlen := b.length_entries
  obtain ⟨m, rfl⟩ : ∃ m, k = b.lead + 1 + m := ⟨k - (b.lead + 1), by omega⟩
  have hm : b.lead + 1 + m - b.tables.length - b.before.toList.length = m + 1 := by
    rw [Block.lead]
    omega
  rw [h.type _ hlt, b.types_entries, List.getD_append_right _ _ _ _ (by simp [Block.lead]; omega),
    List.length_replicate, List.getD_append_right _ _ _ _ (by simp [Block.lead]; omega),
    List.length_replicate, hm, List.getD_cons_succ, List.getD_replicate _ (by omega)]

/-! Groups of an emitted queue. -/

theorem At.tid_eq (h : q.At s b) (hk : k < b.entries.length) : q.tid (s + k) = q.tid (s + b.lead) := by
  have hlen := b.length_entries
  have h1 := h.tid k hk
  have h2 := h.tid b.lead (by omega)
  exact Int.ofNat.inj (h1.trans h2.symm)

/-- The statement of a block is linked to each of its reads. -/
theorem At.edge (h : q.At s b) (hk : k < b.entries.length) : k = b.lead ∨
    q.InstrumentEdge (s + k) (s + b.lead) ∨ q.InstrumentEdge (s + b.lead) (s + k) := by
  have hlen := b.length_entries
  have hfits := h.fits
  have hlead : b.lead = b.tables.length + b.before.toList.length := rfl
  have hbefore := Option.length_toList_le (o := b.before)
  have hafter := Option.length_toList_le (o := b.after)
  rcases Nat.lt_trichotomy k b.lead with hlt | heq | hgt
  · right; left
    by_cases hv : k < b.tables.length
    · have hnormal := b.type_of_tables (by rintro hnil; rw [hnil] at hv; cases hv)
      refine .versionSet (h.versionSet hv)
        ⟨by omega, by omega, by rw [h.lead, hnormal], fun m hm hm' => ?_⟩ fun m hm hm' => ?_
      · obtain ⟨m, rfl⟩ : ∃ n, m = s + n := ⟨m - s, by omega⟩
        by_cases hmv : m < b.tables.length
        · rw [h.versionSet hmv]; rfl
        · rw [h.before (by omega) (by omega)]; rfl
      · obtain ⟨m, rfl⟩ : ∃ n, m = s + n := ⟨m - s, by omega⟩
        rw [h.tid_eq hk, h.tid_eq (k := m) (by omega)]
    · have hsome : b.before.isSome = true := by
        cases hb : b.before with
        | none => rw [hb] at hlead; simp at hlead; omega
        | some _ => rfl
      obtain rfl : k = b.lead - 1 := by omega
      have hnext : s + b.lead = s + (b.lead - 1) + 1 := by omega
      have htid := h.tid_eq hk
      have htype := h.lead
      have hread := h.before (k := b.lead - 1) (by omega) (by omega)
      rw [hnext] at htid htype ⊢
      refine .before hread (by omega) htid.symm ?_
      rw [htype]
      exact b.type_of_before hsome
  · exact Or.inl heq
  · right; right
    have hsome : b.after.isSome = true := by
      cases hb : b.after with
      | none => rw [hb] at hlen; simp at hlen; omega
      | some _ => rfl
    obtain rfl : k = b.lead + 1 := by omega
    have htype := h.lead
    refine .after (h.after hgt hk) (by omega) (h.tid_eq hk).symm ?_
    rw [htype]
    exact b.type_of_after hsome

theorem At.leader (h : q.At s b) (hk : k < b.entries.length) :
    q.leader (s + k) = s + b.lead := by
  have hself : q.leader (s + b.lead) = s + b.lead := by
    rcases b.type_normal_or_init with ht | ht
    · exact leader_of_normal (by rw [h.lead, ht])
    · have htype := h.lead
      rw [ht] at htype
      simp only [AnalyzedQueue.leader, htype]
  rcases h.edge hk with rfl | he | he
  · exact hself
  · rw [he.leader_eq, hself]
  · rw [← he.leader_eq, hself]

theorem At.placed (h : q.At s b) (hk : k < b.entries.length) : q.Placed (s + k) := by
  have hlead : b.lead = b.tables.length + b.before.toList.length := rfl
  have hbefore := Option.length_toList_le (o := b.before)
  rcases Nat.lt_trichotomy k b.lead with hlt | heq | hgt
  · have hedge : q.InstrumentEdge (s + k) (s + b.lead) := by
      rcases h.edge hk with heq | he | he
      · omega
      · exact he
      · have := he.lt; omega
    by_cases hv : k < b.tables.length
    · unfold Placed
      rw [h.versionSet hv]
      exact ⟨_, hedge⟩
    · have hnext : s + b.lead = s + k + 1 := by omega
      unfold Placed
      rw [h.before (by omega) hlt]
      rwa [hnext] at hedge
  · have htype := h.lead
    rw [← heq] at htype
    unfold Placed
    rw [htype]
    rcases b.type_normal_or_init with ht | ht
    · revert ht
      generalize b.usage.stmtType = t
      cases t <;> simp [StmtBasicType.isNormal]
    · rw [ht]; trivial
  · have hlen := b.length_entries
    have hafter := Option.length_toList_le (o := b.after)
    obtain rfl : k = b.lead + 1 := by omega
    unfold Placed
    rw [h.after hgt hk]
    refine ⟨by omega, ?_⟩
    rcases h.edge hk with heq | he | he
    · omega
    · have := he.lt; omega
    · exact he

/-- Statements are in one group exactly when they stand in one block. -/
theorem OfEmitted.sameGroup_iff {g : StmtGraph} {blocks pre post : List (Block Val)}
    (h : q.OfEmitted (blocks.flatMap Block.entries))
    (hlabel : ∀ x y, x < q.stmtNum → y < q.stmtNum →
      (.instrumentDepend ∈ g.labels (q.sid x) (q.sid y) ↔ q.InstrumentEdge x y))
    (hb : blocks = pre ++ b :: post) (hi : i ∈ Block.span pre b) (j : ℕ) :
    q.SameGroup g i j ↔ j ∈ Block.span pre b := by
  have hat := h.at_start hb
  have hwhole : ∀ m ∈ Block.span pre b, ∃ k < b.entries.length, m = Block.start pre + k := by
    intro m hm
    rw [Block.mem_span] at hm
    exact ⟨m - Block.start pre, by omega, by omega⟩
  constructor
  · intro hij
    have hleader : q.leader i = q.leader j := by
      clear hi
      induction hij with
      | refl => rfl
      | tail _ hbc ih =>
        rcases (linked_iff_edge hlabel).1 hbc with he | he
        · exact ih.trans he.leader_eq
        · exact ih.trans he.leader_eq.symm
    obtain ⟨k, hk, rfl⟩ := hwhole i hi
    have hj : j < Block.start blocks := by
      have hlt := hij.lt (by have := hat.fits; omega)
      rwa [h.length] at hlt
    obtain ⟨pre', b', post', hb', hj'⟩ := Block.exists_span hj
    have hat' := h.at_start hb'
    have hsame : Block.start pre + b.lead = Block.start pre' + b'.lead := by
      rw [Block.mem_span] at hj'
      rw [hat.leader hk] at hleader
      rw [hleader, ← hat'.leader (k := j - Block.start pre') (by omega)]
      congr 1
      omega
    have hlen := b.length_entries
    have hlen' := b'.length_entries
    rw [Block.span_unique hb hb' (i := Block.start pre + b.lead)
      (Block.mem_span.2 ⟨by omega, by omega⟩) (Block.mem_span.2 ⟨by omega, by omega⟩)]
    exact hj'
  · intro hj
    have hcentre : ∀ m ∈ Block.span pre b, q.SameGroup g m (Block.start pre + b.lead) := by
      intro m hm
      obtain ⟨k, hk, rfl⟩ := hwhole m hm
      rcases hat.edge hk with rfl | he
      · exact SameGroup.refl q g _
      · exact ReflTransGen.single ((linked_iff_edge hlabel).2 he)
    exact (hcentre i hi).trans (hcentre j hj).symm

/-- The labels that the instrument builder is responsible for. -/
def SameInstrument (g g' : StmtGraph) : Prop :=
  ∀ x y, .instrumentDepend ∈ g'.labels x y ↔ .instrumentDepend ∈ g.labels x y

end AnalyzedQueue

end DbFuzz
