import DbFuzz.TxCheck.RoundCheck

/-! The refined queue after the scheduling. A scheduled statement is put back once, or,
when the scheduling made a placeholder of it, as often as a group of the first analysis
has statements. The instrumentor then places the reads again. -/

namespace DbFuzz

open Loop AnalyzedQueue

variable {Val : Type} {q : AnalyzedQueue} {g g0 : StmtGraph}
  {before scheduled done after : List (Emitted Val)} {e : Emitted Val} {tid : ℤ} {pos j k : ℕ}

/-! The statement an entry was before. -/

theorem basicIdx_some {queue : List (Emitted Val)} {i : ℕ}
    (h : basicIdx tid queue pos i = some k) : ∃ m e, k = i + m ∧ queue[m]? = some e ∧
      e.tid = tid ∧ e.usage.isInstrumented = false := by
  induction queue generalizing pos i with
  | nil => cases h
  | cons e rest ih =>
    rw [basicIdx] at h
    have hnext : ∀ {p : ℕ}, basicIdx tid rest p (i + 1) = some k → ∃ m e', k = i + m ∧
        (e :: rest)[m]? = some e' ∧ e'.tid = tid ∧ e'.usage.isInstrumented = false := by
      intro p hp
      obtain ⟨m, e', rfl, hget, he'⟩ := ih hp
      exact ⟨m + 1, e', by omega, hget, he'⟩
    split_ifs at h with htid hinst hpos
    · exact hnext h
    · exact hnext h
    · cases h
      exact ⟨0, e, rfl, rfl, not_not.1 htid, Bool.not_eq_true _ ▸ hinst⟩
    · exact hnext h

/-- The index in the queue before of a statement the scheduling made a placeholder of. -/
def turnedIdx (before : List (Emitted Val)) (e : Emitted Val) (pos : ℕ) : Option ℕ :=
  if e.usage.stmtType ≠ .initType then none
  else (basicIdx e.tid before pos 0).filter fun j =>
    !(before[j]?).any fun b => b.usage.stmtType == .initType

/-- The number of times an entry is put back. -/
def copyNum (q : AnalyzedQueue) (g : StmtGraph) (before : List (Emitted Val)) (e : Emitted Val)
    (pos : ℕ) : ℕ :=
  match turnedIdx before e pos with
  | none => 1
  | some j => (q.stmtSet g j).card

theorem copiesOf_eq {r : ℕ × StmtGraph} (h : copiesOf q before e pos g = .ok r)
    (hg : SameLabels g0 g) : r.1 = copyNum q g0 before e pos ∧ SameLabels g0 r.2 := by
  refine ⟨?_, hg.trans (copiesOf_sameLabels h)⟩
  unfold copiesOf at h
  unfold copyNum turnedIdx
  split at h
  · next hdata =>
    cases h
    rw [if_pos hdata]
  next hinit =>
  rw [if_neg hinit]
  split at h
  · cases h
  next j hj =>
  rw [hj]
  split at h
  · next hbefore =>
    cases h
    rw [Option.filter_some, if_neg (by simp [hbefore])]
  · next hbefore =>
    obtain ⟨r', hquery, hr⟩ := bind_eq_ok_iff.1 h
    cases hr
    rw [Option.filter_some, if_pos (by simpa using hbefore)]
    dsimp only
    rw [← hg.stmtSet_eq, stmtSet, hquery]

/-- The scheduled entries with the number of times each is put back; `done` are those
before. -/
def withCopies (q : AnalyzedQueue) (g : StmtGraph) (before : List (Emitted Val)) :
    List (Emitted Val) → List (Emitted Val) → List (Emitted Val × ℕ)
  | _, [] => []
  | done, e :: rest =>
    (e, copyNum q g before e (done.countP fun d => d.tid == e.tid)) ::
      withCopies q g before (done ++ [e]) rest

theorem inferInstrument_eq {r : List (Emitted Val) × StmtGraph}
    (h : inferInstrument q before done after g = .ok r) (hg : SameLabels g0 g) :
    r.1 = (withCopies q g0 before done after).flatMap fun c => List.replicate c.2 c.1 := by
  induction after generalizing done g r with
  | nil =>
    cases h
    rfl
  | cons e after ih =>
    obtain ⟨c, hcopies, h⟩ := bind_eq_ok_iff.1 h
    obtain ⟨rest, hrest, h⟩ := bind_eq_ok_iff.1 h
    cases h
    obtain ⟨hnum, hsame⟩ := copiesOf_eq hcopies hg
    have htail := ih hrest hsame
    rw [withCopies, List.flatMap_cons, ← htail, ← hnum]

theorem map_withCopies (q : AnalyzedQueue) (g : StmtGraph)
    (before done scheduled : List (Emitted Val)) :
    (withCopies q g before done scheduled).map Prod.fst = scheduled := by
  induction scheduled generalizing done with
  | nil => rfl
  | cons e rest ih => rw [withCopies, List.map_cons, ih]

theorem getElem?_withCopies (q : AnalyzedQueue) (g : StmtGraph)
    (before done scheduled : List (Emitted Val)) (k : ℕ) :
    (withCopies q g before done scheduled)[k]? = scheduled[k]?.map fun e =>
      (e, copyNum q g before e ((done ++ scheduled.take k).countP fun d => d.tid == e.tid)) := by
  induction scheduled generalizing done k with
  | nil => rfl
  | cons e rest ih =>
    cases k with
    | zero => simp [withCopies]
    | succ k =>
      rw [withCopies, List.getElem?_cons_succ, ih, List.getElem?_cons_succ, List.take_succ_cons,
        List.append_assoc, List.singleton_append]

/-- Only scheduled entries are put back. -/
theorem mem_inferInstrument {r : List (Emitted Val) × StmtGraph}
    (h : inferInstrument q before done after g = .ok r) : ∀ e ∈ r.1, e ∈ after := by
  intro e he
  rw [inferInstrument_eq h (SameLabels.refl g)] at he
  obtain ⟨c, hc, he⟩ := List.mem_flatMap.1 he
  obtain rfl := List.eq_of_mem_replicate he
  have := List.mem_map_of_mem (f := Prod.fst) hc
  rwa [map_withCopies] at this

/-! The reads placed again. -/

section Instrument

variable (env : InstrumentEnv Val) (queryText : QuerySpec Val → String)

/-- What the instrumentor emits for an entry. -/
def blockOf (e : Emitted Val) : List (Emitted Val) :=
  (instrumentStmt env queryText e.tid e.stmt).toOption.getD []

/-- What stands for a scheduled entry in the end. -/
def partOf (c : Emitted Val × ℕ) : List (Emitted Val) :=
  (List.replicate c.2 (blockOf env queryText c.1)).flatten

/-- What the instrumentor emits, entry by entry, of the entries put back. -/
def partsOf (q : AnalyzedQueue) (g : StmtGraph) (before scheduled : List (Emitted Val)) :
    List (List (Emitted Val)) :=
  (withCopies q g before [] scheduled).map (partOf env queryText)

variable {env queryText}

theorem instrumentor_blockOf {queue out : List (Emitted Val)}
    (h : instrumentor env queryText (queue.map fun e => (e.stmt, e.tid)) = .ok out) :
    out = queue.flatMap (blockOf env queryText) ∧
      ∀ e ∈ queue, ∃ block, instrumentStmt env queryText e.tid e.stmt = .ok block := by
  obtain ⟨parts, hparts, hout⟩ := bind_eq_ok_iff.1 h
  cases hout
  clear h
  induction queue generalizing parts with
  | nil =>
    cases hparts
    exact ⟨rfl, by simp⟩
  | cons e queue ih =>
    rw [List.map_cons, List.mapM_cons] at hparts
    obtain ⟨block, hblock, hbind⟩ := bind_eq_ok_iff.1 hparts
    obtain ⟨rest, hrest, hcons⟩ := bind_eq_ok_iff.1 hbind
    cases hcons
    obtain ⟨hflat, hall⟩ := ih _ hrest
    refine ⟨?_, List.forall_mem_cons.2 ⟨⟨block, hblock⟩, hall⟩⟩
    have hof : blockOf env queryText e = block := by
      simp only [blockOf]
      rw [show instrumentStmt env queryText e.tid e.stmt = .ok block from hblock]
      rfl
    rw [List.flatten_cons, List.flatMap_cons, hflat, hof]

theorem flatMap_replicate (l : List (Emitted Val × ℕ)) :
    (l.flatMap fun c => List.replicate c.2 c.1).flatMap (blockOf env queryText) =
      (l.map (partOf env queryText)).flatten := by
  rw [List.flatMap_assoc, ← List.flatMap_def]
  congr 1
  funext c
  rw [partOf, List.flatMap_def, List.map_replicate]

end Instrument

/-! The queues of a test. -/

namespace RoundTest

variable {env : RoundEnv Val} {t t' : RoundTest Val}

theorem tid_nonneg (t : RoundTest Val) : ∀ e ∈ t.stmtQueue, 0 ≤ e.tid := by
  intro e he
  obtain ⟨i, -, rfl⟩ := List.mem_map.1 he
  exact Int.natCast_nonneg _

theorem stmtQueue_setStmtQueue {queue : List (Emitted Val)} (h : ∀ e ∈ queue, 0 ≤ e.tid) :
    (t.setStmtQueue env queue).stmtQueue = queue := by
  refine List.ext_getElem? fun i => ?_
  by_cases hi : i < queue.length
  · have hget : queue.getD i ⟨.txnString "", 0, .mk' .initType false⟩ = queue[i] := by
      rw [List.getD_eq_getElem _ _ hi]
    have htid : ((queue[i].tid.toNat : ℕ) : ℤ) = queue[i].tid :=
      Int.toNat_of_nonneg (h _ (List.getElem_mem hi))
    simp only [stmtQueue, setStmtQueue, List.getElem?_map, List.getElem?_range hi, Option.map_some,
      List.getElem?_eq_getElem hi, hget, htid]
  · simp [stmtQueue, setStmtQueue, hi]

theorem stmtQueue_instrumentTxnStmts (h : t.instrumentTxnStmts env = .ok t') :
    t'.stmtQueue = t.stmtQueue.flatMap (blockOf env.instrument env.queryText) ∧
      ∀ e ∈ t.stmtQueue, ∃ block,
        instrumentStmt env.instrument env.queryText e.tid e.stmt = .ok block := by
  obtain ⟨out, hout, h⟩ := bind_eq_ok_iff.1 h
  cases h
  obtain ⟨hflat, hall⟩ := instrumentor_blockOf hout
  have hqueue : ((t.setStmtQueue env out).alignTxns).stmtQueue =
      (t.setStmtQueue env out).stmtQueue := rfl
  rw [hqueue, stmtQueue_setStmtQueue, hflat]
  · exact ⟨rfl, hall⟩
  · intro e he
    rw [hflat] at he
    obtain ⟨e', he', hmem⟩ := List.mem_flatMap.1 he
    obtain ⟨block, hblock⟩ := hall e' he'
    obtain ⟨b, hb, rfl⟩ := instrumentStmt_block hblock
    rw [blockOf, hblock] at hmem
    have htid : e.tid = e'.tid := (b.tid_entries e hmem).trans (congrArg Prod.snd hb)
    rw [htid]
    exact t.tid_nonneg e' he'

end RoundTest

/-- The queue a reschedule leaves, part by part. -/
theorem RefineState.reschedule_eq {env : RoundEnv Val} {fuel : ℕ} {s s' : RefineState Val}
    (h : s.reschedule env fuel = .ok s') : ∃ test,
      (s.test.cleanInstrument env).blockScheduling env fuel = .ok test ∧
      s'.test.stmtQueue = (partsOf env.instrument env.queryText s.initDa.da.queue s.initDa.graph
        s.test.stmtQueue test.stmtQueue).flatten ∧
      ∀ c ∈ withCopies s.initDa.da.queue s.initDa.graph s.test.stmtQueue [] test.stmtQueue,
        0 < c.2 → ∃ block, instrumentStmt env.instrument env.queryText c.1.tid c.1.stmt =
          .ok block := by
  obtain ⟨test, htest, h⟩ := bind_eq_ok_iff.1 h
  obtain ⟨⟨after, g⟩, hinfer, h⟩ := bind_eq_ok_iff.1 h
  obtain ⟨test', hinst, h⟩ := bind_eq_ok_iff.1 h
  cases h
  have hafter := inferInstrument_eq hinfer (SameLabels.refl _)
  dsimp only at hafter
  have hmem : ∀ e ∈ after, e ∈ test.stmtQueue := mem_inferInstrument hinfer
  have hset : (test.setStmtQueue env after).stmtQueue = after :=
    RoundTest.stmtQueue_setStmtQueue fun e he => test.tid_nonneg e (hmem e he)
  obtain ⟨hqueue, hall⟩ := RoundTest.stmtQueue_instrumentTxnStmts hinst
  rw [hset, hafter] at hqueue hall
  refine ⟨test, htest, hqueue.trans (flatMap_replicate _), fun c hc hpos => hall c.1 ?_⟩
  exact List.mem_flatMap.2 ⟨c, hc, List.mem_replicate.2 ⟨by omega, rfl⟩⟩

/-! The ids of the statements. -/

/-- The id of the entry at an index of a queue. -/
def stmtIdAt (queue : List (Emitted Val)) (i : ℕ) : StmtId :=
  let tid := (queue.map (·.tid)).getD i 0
  ⟨tid, (queue.take i).countP (·.tid == tid)⟩

/-- The place of a scheduled entry in its transaction. -/
def stmtPos (scheduled : List (Emitted Val)) (e : Emitted Val) (k : ℕ) : ℕ :=
  (scheduled.take k).countP fun d => d.tid == e.tid

/-- The index of the basic statement among the parts. -/
def basicAt (parts : List (List (Emitted Val))) (k : ℕ) : ℕ :=
  (parts.take k).flatten.length + (parts.getD k []).findIdx fun e => !e.usage.isInstrumented

/-- The queue has as many statements as before, in every transaction, and the statements
of which the scheduling made no placeholder have the ids they had. -/
structure KeepsIds (before scheduled : List (Emitted Val)) (parts : List (List (Emitted Val))) :
    Prop where
  length : parts.flatten.length = before.length
  perTxn : ∀ tid, parts.flatten.countP (·.tid == tid) = before.countP (·.tid == tid)
  ids : ∀ k e j, scheduled[k]? = some e → turnedIdx before e (stmtPos scheduled e k) = none →
    basicIdx e.tid before (stmtPos scheduled e k) 0 = some j →
    stmtIdAt parts.flatten (basicAt parts k) = stmtIdAt before j

section Sizes

variable (env : InstrumentEnv Val) (queryText : QuerySpec Val → String)

/-- The statements that stand for a scheduled entry: its block, or as many blocks as the
group looked up has statements. -/
def partSize (c : Emitted Val × ℕ) : ℕ := c.2 * (blockOf env queryText c.1).length

/-- The statements that stand for the entries of a transaction. -/
def sizeOf (cs : List (Emitted Val × ℕ)) (tid : ℤ) : ℕ :=
  ((cs.filter fun c => c.1.tid == tid).map (partSize env queryText)).sum

/-- In every transaction, up to every statement that stays and up to the end, the blocks
and the groups looked up have as many statements as there were before. -/
structure SizesMatch (before scheduled : List (Emitted Val)) (cs : List (Emitted Val × ℕ)) :
    Prop where
  whole : ∀ tid, sizeOf env queryText cs tid = before.countP (·.tid == tid)
  upTo : ∀ k e j, scheduled[k]? = some e → turnedIdx before e (stmtPos scheduled e k) = none →
    basicIdx e.tid before (stmtPos scheduled e k) 0 = some j →
    sizeOf env queryText (cs.take k) e.tid +
      (blockOf env queryText e).findIdx (fun d => !d.usage.isInstrumented) =
        (before.take j).countP (·.tid == e.tid)

variable {env queryText}

theorem tid_blockOf : ∀ d ∈ blockOf env queryText e, d.tid = e.tid := by
  intro d hd
  unfold blockOf at hd
  cases hblock : instrumentStmt env queryText e.tid e.stmt with
  | error err =>
    rw [hblock] at hd
    cases hd
  | ok block =>
    rw [hblock] at hd
    obtain ⟨b, hb, rfl⟩ := instrumentStmt_block hblock
    exact (b.tid_entries d hd).trans (congrArg Prod.snd hb)

theorem tid_partOf (c : Emitted Val × ℕ) : ∀ d ∈ partOf env queryText c, d.tid = c.1.tid := by
  intro d hd
  obtain ⟨block, hblock, hd⟩ := List.mem_flatten.1 hd
  rw [List.eq_of_mem_replicate hblock] at hd
  exact tid_blockOf d hd

theorem length_partOf (c : Emitted Val × ℕ) :
    (partOf env queryText c).length = partSize env queryText c := by
  simp [partOf, partSize]

/-- The entries of a transaction among the parts. -/
theorem countP_parts (cs : List (Emitted Val × ℕ)) (tid : ℤ) :
    (cs.map (partOf env queryText)).flatten.countP (·.tid == tid) = sizeOf env queryText cs tid := by
  induction cs with
  | nil => rfl
  | cons c cs ih =>
    rw [List.map_cons, List.flatten_cons, List.countP_append, ih, sizeOf, sizeOf, List.filter_cons]
    by_cases htid : c.1.tid = tid
    · have hall : (partOf env queryText c).countP (·.tid == tid) = partSize env queryText c := by
        rw [← length_partOf, List.countP_eq_length]
        intro d hd
        simp [tid_partOf c d hd, htid]
      rw [hall, if_pos (by simpa using htid), List.map_cons, List.sum_cons]
    · have hnone : (partOf env queryText c).countP (·.tid == tid) = 0 := by
        rw [List.countP_eq_zero]
        intro d hd
        simp [tid_partOf c d hd, htid]
      rw [hnone, if_neg (by simpa using htid), Nat.zero_add]

/-- Queues with the same number of entries in every transaction have the same length. -/
theorem length_of_countP {l l' : List (Emitted Val)}
    (h : ∀ tid, l.countP (·.tid == tid) = l'.countP (·.tid == tid)) : l.length = l'.length := by
  have hperm : (l.map (·.tid)).Perm (l'.map (·.tid)) := by
    rw [List.perm_iff_count]
    intro tid
    rw [List.count_eq_countP, List.count_eq_countP, List.countP_map, List.countP_map]
    exact h tid
  simpa using hperm.length_eq

theorem stmtIdAt_append {l m r : List (Emitted Val)} {f : ℕ} (hf : f < m.length)
    (htid : ∀ d ∈ m, d.tid = tid) :
    stmtIdAt (l ++ (m ++ r)) (l.length + f) = ⟨tid, (l.countP (·.tid == tid) + f : ℕ)⟩ := by
  have hget : ((l ++ (m ++ r)).map (·.tid)).getD (l.length + f) 0 = tid := by
    rw [List.map_append, List.map_append, List.getD_append_right _ _ _ _ (by simp),
      List.length_map, Nat.add_sub_cancel_left, List.getD_append _ _ _ _ (by simpa using hf),
      List.getD_eq_getElem _ _ (by simpa using hf), List.getElem_map]
    exact htid _ (List.getElem_mem hf)
  have hcount : (m.take f).countP (·.tid == tid) = f := by
    have hlen : (m.take f).length = f := by simp; omega
    nth_rewrite 2 [← hlen]
    rw [List.countP_eq_length]
    intro d hd
    simpa using htid d (List.mem_of_mem_take hd)
  unfold stmtIdAt
  dsimp only
  rw [hget, List.take_length_add_append, List.take_append_of_le_length (Nat.le_of_lt hf),
    List.countP_append, hcount]

theorem stmtIdAt_getElem {queue : List (Emitted Val)} (h : queue[j]? = some e) :
    stmtIdAt queue j = ⟨e.tid, (queue.take j).countP (·.tid == e.tid)⟩ := by
  have hget : (queue.map (·.tid)).getD j 0 = e.tid := by
    simp [List.getD, h]
  rw [stmtIdAt]
  rw [hget]

/-- The block of an instrumented statement has the statement in it. -/
theorem findIdx_blockOf (h : ∃ block, instrumentStmt env queryText e.tid e.stmt = .ok block) :
    (blockOf env queryText e).findIdx (fun d => !d.usage.isInstrumented) <
      (blockOf env queryText e).length := by
  obtain ⟨block, hblock⟩ := h
  have hof : blockOf env queryText e = block := by rw [blockOf, hblock]; rfl
  obtain ⟨b, -, rfl⟩ := instrumentStmt_block hblock
  rw [hof, List.findIdx_lt_length]
  have hmem : (⟨b.stmt, b.tid, b.usage⟩ : Emitted Val) ∈ cleanInstrument b.entries := by
    rw [b.clean_entries]
    exact List.mem_singleton_self _
  obtain ⟨hin, hplain⟩ := List.mem_filter.1 hmem
  exact ⟨_, hin, hplain⟩

/-- The id of a statement that was put back once. -/
theorem stmtIdAt_parts {cs : List (Emitted Val × ℕ)} (hk : cs[k]? = some (e, 1))
    (hblock : ∃ block, instrumentStmt env queryText e.tid e.stmt = .ok block) :
    stmtIdAt (cs.map (partOf env queryText)).flatten
        (basicAt (cs.map (partOf env queryText)) k) =
      ⟨e.tid, (sizeOf env queryText (cs.take k) e.tid +
        (blockOf env queryText e).findIdx fun d => !d.usage.isInstrumented : ℕ)⟩ := by
  obtain ⟨hlt, hget⟩ := List.getElem?_eq_some_iff.1 hk
  have hone : partOf env queryText (e, 1) = blockOf env queryText e := by
    simp [partOf]
  have hpart : (cs.map (partOf env queryText)).getD k [] = blockOf env queryText e := by
    rw [List.getD_eq_getElem _ _ (by simpa using hlt), List.getElem_map, hget, hone]
  have hsplit : (cs.map (partOf env queryText)).flatten =
      ((cs.take k).map (partOf env queryText)).flatten ++
        (blockOf env queryText e ++ ((cs.drop (k + 1)).map (partOf env queryText)).flatten) := by
    rw [← hone, ← hget, ← List.flatten_cons, ← List.map_cons, List.getElem_cons_drop,
      ← List.flatten_append, ← List.map_append, List.take_append_drop]
  rw [basicAt, hpart, ← List.map_take, hsplit,
    stmtIdAt_append (findIdx_blockOf hblock) (fun d hd => tid_blockOf d hd), countP_parts]

theorem keepsIds_iff (q : AnalyzedQueue) (g : StmtGraph) (before scheduled : List (Emitted Val))
    (hall : ∀ c ∈ withCopies q g before [] scheduled, 0 < c.2 →
      ∃ block, instrumentStmt env queryText c.1.tid c.1.stmt = .ok block) :
    KeepsIds before scheduled (partsOf env queryText q g before scheduled) ↔
      SizesMatch env queryText before scheduled (withCopies q g before [] scheduled) := by
  -- the two sides of an id
  have hids : ∀ k e j, scheduled[k]? = some e →
      turnedIdx before e (stmtPos scheduled e k) = none →
      basicIdx e.tid before (stmtPos scheduled e k) 0 = some j →
      (stmtIdAt (partsOf env queryText q g before scheduled).flatten
          (basicAt (partsOf env queryText q g before scheduled) k) = stmtIdAt before j ↔
        sizeOf env queryText ((withCopies q g before [] scheduled).take k) e.tid +
          (blockOf env queryText e).findIdx (fun d => !d.usage.isInstrumented) =
            (before.take j).countP (·.tid == e.tid)) := by
    intro k e j hk hturned hj
    have hcopy : (withCopies q g before [] scheduled)[k]? = some (e, 1) := by
      rw [getElem?_withCopies, hk, Option.map_some, List.nil_append, copyNum]
      unfold stmtPos at hturned
      rw [hturned]
    obtain ⟨m, b, hm, hb, htid, -⟩ := basicIdx_some hj
    rw [Nat.zero_add] at hm
    rw [partsOf, stmtIdAt_parts hcopy (hall _ (List.mem_of_getElem? hcopy) Nat.one_pos),
      stmtIdAt_getElem (hm ▸ hb), htid, StmtId.mk.injEq, Int.ofNat_inj]
    exact and_iff_right rfl
  constructor
  · intro h
    exact ⟨fun tid => (countP_parts _ tid).symm.trans (h.perTxn tid),
      fun k e j hk hturned hj => (hids k e j hk hturned hj).1 (h.ids k e j hk hturned hj)⟩
  · intro h
    have hperTxn : ∀ tid, (partsOf env queryText q g before scheduled).flatten.countP
        (·.tid == tid) = before.countP (·.tid == tid) :=
      fun tid => (countP_parts _ tid).trans (h.whole tid)
    exact ⟨length_of_countP hperTxn, hperTxn,
      fun k e j hk hturned hj => (hids k e j hk hturned hj).2 (h.upTo k e j hk hturned hj)⟩

end Sizes

/-- The queue keeps its length and its ids exactly when the blocks and the groups looked up
for the placeholders have, up to each statement that stays, the sizes of what stood there. -/
theorem reschedule_keepsIds_iff {env : RoundEnv Val} {fuel : ℕ} {s s' : RefineState Val}
    (h : s.reschedule env fuel = .ok s') : ∃ test,
      (s.test.cleanInstrument env).blockScheduling env fuel = .ok test ∧
      s'.test.stmtQueue = (partsOf env.instrument env.queryText s.initDa.da.queue s.initDa.graph
        s.test.stmtQueue test.stmtQueue).flatten ∧
      (KeepsIds s.test.stmtQueue test.stmtQueue (partsOf env.instrument env.queryText
          s.initDa.da.queue s.initDa.graph s.test.stmtQueue test.stmtQueue) ↔
        SizesMatch env.instrument env.queryText s.test.stmtQueue test.stmtQueue
          (withCopies s.initDa.da.queue s.initDa.graph s.test.stmtQueue [] test.stmtQueue)) := by
  obtain ⟨test, htest, hqueue, hall⟩ := RefineState.reschedule_eq h
  exact ⟨test, htest, hqueue, keepsIds_iff _ _ _ _ hall⟩

/-! The first reschedule of a test. -/

/-- The lengths of the queue before and after, when the first refinement changes it. -/
def firstReschedule (env : RoundEnv Val) (fuel : ℕ) (t : RoundTest Val) :
    Except Failure (Option (ℕ × ℕ)) := do
  match ← firstAnalysis env fuel t with
  | none => return none
  | some (_, s) =>
    let sort ← s.initDa.da.queue.topologicalSortPath s.initDa.graph s.deletedNodes
    match ← (s.refineStart sort).refineStmtQueue with
    | (false, _) => return none
    | (true, r) =>
      let r' ← r.reschedule env fuel
      return some (r.test.stmtQueue.length, r'.test.stmtQueue.length)

/-- `firstReschedule` -/
def quickReschedules (env : RoundEnv Val) (fuel : ℕ) (t : RoundTest Val) :
    Except Failure (Option (ℕ × ℕ)) := do
  match ← quickAnalysis env fuel t with
  | none => return none
  | some (_, s) =>
    let sort ← s.initDa.da.queue.topologicalSortPath s.initDa.graph s.deletedNodes
    match ← (s.refineStart sort).refineStmtQueue with
    | (false, _) => return none
    | (true, r) =>
      let r' ← r.quickReschedule env fuel
      return some (r.test.stmtQueue.length, r'.test.stmtQueue.length)

theorem firstReschedule_eq_quick {env : RoundEnv Val} {fuel : ℕ} {t : RoundTest Val}
    (hclear : t.planned.test.Cleared) : firstReschedule env fuel t = quickReschedules env fuel t := by
  unfold firstReschedule quickReschedules
  rw [← firstAnalysis_eq_quick hclear]
  refine bind_congr_ok fun first _ => ?_
  cases first with
  | none => rfl
  | some first =>
    refine bind_congr_ok fun sort _ => bind_congr_ok fun refined hrefine => ?_
    obtain ⟨b, r⟩ := refined
    cases b with
    | false => rfl
    | true => simp only [RefineState.reschedule_eq_quick (RefineState.cleared_refine hrefine)]

/-- The refined state of the first round and the state after its reschedule. -/
def FirstReschedule (env : RoundEnv Val) (fuel : ℕ) (t : RoundTest Val) (r r' : RefineState Val) :
    Prop :=
  ∃ init s sort, firstAnalysis env fuel t = .ok (some (init, s)) ∧
    s.initDa.da.queue.topologicalSortPath s.initDa.graph s.deletedNodes = .ok sort ∧
    (s.refineStart sort).refineStmtQueue = .ok (true, r) ∧ r.reschedule env fuel = .ok r'

theorem firstReschedule_spec {env : RoundEnv Val} {fuel n m : ℕ} {t : RoundTest Val}
    (h : firstReschedule env fuel t = .ok (some (n, m))) :
    ∃ r r', FirstReschedule env fuel t r r' ∧
      r.test.stmtQueue.length = n ∧ r'.test.stmtQueue.length = m := by
  obtain ⟨first, hfirst, h⟩ := bind_eq_ok_iff.1 h
  cases first with
  | none => cases h
  | some first =>
    obtain ⟨sort, hsort, h⟩ := bind_eq_ok_iff.1 h
    obtain ⟨⟨b, r⟩, hrefine, h⟩ := bind_eq_ok_iff.1 h
    cases b with
    | false => cases h
    | true =>
      obtain ⟨r', hresched, h⟩ := bind_eq_ok_iff.1 h
      cases h
      exact ⟨r, r', ⟨first.1, first.2, sort, hfirst, hsort, hrefine, hresched⟩, rfl, rfl⟩

theorem reschedule_keepsIds_iff_select :
    let t := generatedTest 2 [(.txnString "BEGIN", 0), (.other "select 1", 0),
      (.txnString "BEGIN", 1), (.txnString "COMMIT", 1), (.txnString "COMMIT", 0)] []
    let env := emptyDatabase []
    ∃ r r', FirstReschedule env 10 t r r' ∧ ∃ test,
      (r.test.cleanInstrument env).blockScheduling env 10 = .ok test ∧
      r'.test.stmtQueue = (partsOf env.instrument env.queryText r.initDa.da.queue r.initDa.graph
        r.test.stmtQueue test.stmtQueue).flatten := by
  intro t env
  have hlengths : firstReschedule env 10 t = .ok (some (5, 5)) := by decide +kernel
  obtain ⟨r, r', hfirst, -⟩ := firstReschedule_spec hlengths
  obtain ⟨-, -, -, -, -, -, hresched⟩ := id hfirst
  obtain ⟨test, htest, hqueue, -⟩ := reschedule_keepsIds_iff hresched
  exact ⟨r, r', hfirst, test, htest, hqueue⟩

/-- An insert of transaction 0 and a select of transaction 1; the scheduling leaves no
other statement of the six transactions. -/
def sampleMoved (answers : List TestResult) : RoundTest ℕ :=
  let skipped : TestResult := .error "skipped"
  let insertRow : Prod ℕ := .insert ⟨⟨"t0", ["wkey", "pkey"]⟩, ["wkey", "pkey"],
    [[⟨"1", fun _ _ => 1⟩, ⟨"11000", fun _ _ => 11000⟩]]⟩
  generatedTest 6
    ([(.txnString "BEGIN", 0), (.txnString "BEGIN", 1), (insertRow, 0), (.other "select 1", 0),
      (.other "select 1", 1), (.other "select 1", 1), (.txnString "COMMIT", 1),
      (.txnString "COMMIT", 0)] ++ [2, 3, 4, 5].flatMap sampleTxn)
    ([.ok [], .ok [], .ok [], skipped, .ok [], skipped, .ok [], .ok []] ++
      (List.replicate 4 [.ok [], skipped, skipped, .ok []]).flatten ++
      List.replicate 24 (.ok []) ++ answers)

/-- The insert is blocked in the first run, so the select runs before it and its planned
index is the one of the insert. When the scheduling skips the select, two placeholders
take its place. -/
theorem reschedule_moves_ids :
    let t := sampleMoved ([.ok [], .ok [], .error "blocked", .ok [], .ok [], .ok [],
      .ok [["1", "11000"]], .ok []] ++ List.replicate 8 (.ok []) ++
      [.ok [], .ok [], .ok [], .error "skipped"])
    let env := emptyDatabase []
    ∃ r r' test, FirstReschedule env 10 t r r' ∧
      (r.test.cleanInstrument env).blockScheduling env 10 = .ok test ∧
      r'.test.stmtQueue.length = r.test.stmtQueue.length + 1 ∧
      ¬ KeepsIds r.test.stmtQueue test.stmtQueue (partsOf env.instrument env.queryText
          r.initDa.da.queue r.initDa.graph r.test.stmtQueue test.stmtQueue) := by
  intro t env
  have hclear : t.planned.test.Cleared := cleared_generated _ _ _
  have hlengths : firstReschedule env 10 t = .ok (some (15, 16)) := by
    rw [firstReschedule_eq_quick hclear]
    decide +kernel
  obtain ⟨r, r', hfirst, hbefore, hafter⟩ := firstReschedule_spec hlengths
  obtain ⟨-, -, -, -, -, -, hresched⟩ := id hfirst
  obtain ⟨test, htest, hqueue, -⟩ := RefineState.reschedule_eq hresched
  refine ⟨r, r', test, hfirst, htest, by rw [hbefore, hafter], fun h => ?_⟩
  have := h.length
  rw [← hqueue, hbefore, hafter] at this
  cases this

end DbFuzz
