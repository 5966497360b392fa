import DbFuzz.TxCheck.ExecRun
import DbFuzz.TxCheck.StmtId
import Mathlib.Data.List.GetD

/-! The real queues beside the planned ones: a statement keeps its id, whatever was moved. -/

namespace DbFuzz

open Loop

theorem map_getD_range {α : Type} (l : List α) (d : α) :
    (List.range l.length).map (fun i => l.getD i d) = l := by
  refine List.ext_getElem (by simp) fun i hi hi' => ?_
  rw [List.getElem_map, List.getElem_range, List.getD_eq_getElem _ _ hi']

theorem countP_lt_of_imp {α : Type} {p q : α → Bool} {l : List α} (himp : ∀ b ∈ l, p b → q b)
    {a : α} (ha : a ∈ l) (hq : q a = true) (hp : p a = false) : l.countP p < l.countP q := by
  obtain ⟨before, after, rfl⟩ := List.append_of_mem ha
  have hbefore := List.countP_mono_left (l := before) (p := p) (q := q)
    fun b hb => himp b (List.mem_append_left _ hb)
  have hafter := List.countP_mono_left (l := after) (p := p) (q := q)
    fun b hb => himp b (List.mem_append_right _ (List.mem_cons_of_mem a hb))
  simp only [List.countP_append, List.countP_cons, hq, hp, reduceIte, Bool.false_eq_true]
  omega

/-- Equal keys one by one, and equal lists for each key. -/
theorem eq_of_map_eq_of_filter_eq {f : ℕ → ℕ} {l : List ℕ} : ∀ {l' : List ℕ}, l.map f = l'.map f →
    (∀ t, (l.filter fun i => f i == t) = l'.filter fun i => f i == t) → l = l' := by
  induction l with
  | nil =>
    intro l' hmap _
    exact (List.map_eq_nil_iff.1 hmap.symm).symm
  | cons a l ih =>
    intro l' hmap hfilter
    obtain ⟨b, l', rfl, hb, hrest⟩ := List.map_eq_cons_iff.1 hmap.symm
    have hhead := hfilter (f a)
    rw [List.filter_cons_of_pos (by simp), List.filter_cons_of_pos (by simp [hb])] at hhead
    obtain ⟨rfl, -⟩ := List.cons.inj hhead
    refine congrArg (a :: ·) (ih hrest.symm fun t => ?_)
    have ht := hfilter t
    by_cases hat : f a = t
    · rw [List.filter_cons_of_pos (by simp [hat]), List.filter_cons_of_pos (by simp [hat])] at ht
      exact (List.cons.inj ht).2
    · rwa [List.filter_cons_of_neg (by simp [hat]), List.filter_cons_of_neg (by simp [hat])] at ht

/-- The indices of a transaction in a queue. -/
def idxsOf (queue : List ℕ) (t : ℕ) : List ℕ :=
  (List.range queue.length).filter fun i => queue.getD i 0 == t

/-- The ids of a transaction's statements are numbered in their order. -/
theorem map_ofQueue_idxsOf (queue : List ℕ) (t : ℕ) :
    (idxsOf queue t).map (StmtId.ofQueue queue) =
      (List.range (queue.count t)).map fun c : ℕ => ⟨t, c⟩ := by
  have hprefix : ∀ k ≤ queue.length,
      ((List.range k).filter fun i => queue.getD i 0 == t).map (StmtId.ofQueue queue) =
        (List.range ((queue.take k).count t)).map fun c : ℕ => ⟨t, c⟩ := by
    intro k
    induction k with
    | zero => intro _; rfl
    | succ k ih =>
      intro hk
      have htake : queue.take (k + 1) = queue.take k ++ [queue.getD k 0] := by
        rw [List.take_succ_eq_append_getElem (by omega), List.getD_eq_getElem _ _ (by omega)]
      rw [List.range_succ, List.filter_append, List.map_append, ih (by omega), htake,
        List.count_append]
      by_cases hkt : queue.getD k 0 = t
      · have hid : StmtId.ofQueue queue k = ⟨t, ((queue.take k).count t : ℕ)⟩ := by
          simp only [StmtId.ofQueue, htake, hkt, List.count_append, List.count_singleton_self]
          rw [StmtId.mk.injEq]
          exact ⟨rfl, by omega⟩
        rw [hkt, List.count_singleton_self, List.range_succ, List.map_append, List.map_singleton,
          List.filter_cons_of_pos (p := fun i => queue.getD i 0 == t) (beq_iff_eq.2 hkt),
          List.filter_nil, List.map_singleton, hid]
      · rw [List.count_cons_of_ne hkt, List.count_nil, Nat.add_zero,
          List.filter_cons_of_neg (p := fun i => queue.getD i 0 == t) (by rw [beq_iff_eq]; exact hkt),
          List.filter_nil, List.map_nil, List.append_nil]
  have := hprefix queue.length le_rfl
  rwa [List.take_length] at this

/-! Reordered queues. -/

/-- `order` is a reordering of the indices of `queue` in which the statements of each
transaction keep their order. -/
structure Reordering (queue order : List ℕ) : Prop where
  perm : order.Perm (List.range queue.length)
  ascending : order.Pairwise fun i j => queue.getD i 0 = queue.getD j 0 → i < j

namespace Reordering

variable {queue order : List ℕ}

theorem length_eq (h : Reordering queue order) : order.length = queue.length := by
  rw [h.perm.length_eq, List.length_range]

/-- The indices of a transaction, in the order of the new queue. -/
theorem filter_eq (h : Reordering queue order) (t : ℕ) :
    (order.filter fun i => queue.getD i 0 == t) = idxsOf queue t := by
  have hanti : ∀ a b, a ∈ order.filter (fun i => queue.getD i 0 == t) → b ∈ idxsOf queue t →
      a < b → b < a → a = b := fun a b _ _ h h' => by omega
  refine (h.perm.filter _).eq_of_pairwise hanti ?_ ?_
  · refine (List.Pairwise.filter _ h.ascending).imp_of_mem fun {i j} hi hj h => h ?_
    have hti := (List.mem_filter.1 hi).2
    have htj := (List.mem_filter.1 hj).2
    simp only [beq_iff_eq] at hti htj
    exact hti.trans htj.symm
  · exact List.Pairwise.filter _ List.pairwise_lt_range

theorem map_idxsOf (h : Reordering queue order) (t : ℕ) :
    (idxsOf (order.map (queue.getD · 0)) t).map (fun r => order.getD r 0) = idxsOf queue t := by
  rw [← h.filter_eq t]
  conv_rhs => rw [← map_getD_range order 0, List.filter_map]
  rw [idxsOf, List.length_map]
  refine congrArg _ (List.filter_congr fun r hr => ?_)
  have hlt := List.mem_range.1 hr
  rw [List.getD_eq_getElem _ _ (by simpa using hlt), List.getElem_map, Function.comp_apply,
    List.getD_eq_getElem _ _ hlt]

/-- A statement keeps its id. -/
theorem ofQueue_map (h : Reordering queue order) {r : ℕ} (hr : r < queue.length) :
    StmtId.ofQueue (order.map (queue.getD · 0)) r = StmtId.ofQueue queue (order.getD r 0) := by
  have hcount : ∀ t, (order.map (queue.getD · 0)).count t = queue.count t := fun t => by
    rw [(h.perm.map _).count_eq t, map_getD_range]
  -- both lists of ids are numbered from zero, and the indices correspond
  have hids : (idxsOf (order.map (queue.getD · 0)) ((order.map (queue.getD · 0)).getD r 0)).map
        (StmtId.ofQueue (order.map (queue.getD · 0))) =
      (idxsOf (order.map (queue.getD · 0)) ((order.map (queue.getD · 0)).getD r 0)).map
        (StmtId.ofQueue queue ∘ fun r => order.getD r 0) := by
    rw [map_ofQueue_idxsOf, hcount, ← map_ofQueue_idxsOf, ← List.map_map, h.map_idxsOf]
  exact List.map_inj_left.1 hids r (List.mem_filter.2
    ⟨List.mem_range.2 (by rw [List.length_map, h.length_eq]; exact hr), beq_self_eq_true _⟩)

end Reordering

/-- A transaction has the statements below its size, and no other. -/
theorem transfer2StmtIdx_eq_none_iff (queue : List ℕ) (t p : ℕ) :
    (⟨t, p⟩ : StmtId).transfer2StmtIdx queue = none ↔ queue.count t ≤ p := by
  have hids := map_ofQueue_idxsOf queue t
  constructor
  · intro hnone
    by_contra hlt
    have hmem : (⟨t, p⟩ : StmtId) ∈ (idxsOf queue t).map (StmtId.ofQueue queue) := by
      rw [hids]
      exact List.mem_map.2 ⟨p, List.mem_range.2 (not_le.1 hlt), rfl⟩
    obtain ⟨i, hi, heq⟩ := List.mem_map.1 hmem
    have hilt := List.mem_range.1 (List.mem_filter.1 hi).1
    rw [← heq, transfer2StmtIdx_ofQueue hilt] at hnone
    cases hnone
  · intro hle
    rw [Option.eq_none_iff_forall_not_mem]
    intro i hi
    obtain ⟨hlt, heq⟩ := ofQueue_of_transfer hi
    have htid : queue.getD i 0 = t := Int.ofNat.inj (congrArg StmtId.txnId heq)
    have hmem : (⟨t, p⟩ : StmtId) ∈ (idxsOf queue t).map (StmtId.ofQueue queue) :=
      List.mem_map.2 ⟨i, List.mem_filter.2 ⟨List.mem_range.2 hlt, beq_iff_eq.2 htid⟩, heq⟩
    rw [hids] at hmem
    obtain ⟨c, hc, heq⟩ := List.mem_map.1 hmem
    have hcp : (c : ℤ) = p := congrArg StmtId.stmtIdxInTxn heq
    have hclt := List.mem_range.1 hc
    omega

/-- Ids and indices are inverse to each other, and ids do not depend on how the transactions
are interleaved. -/
theorem stmtId_spec (queue : List ℕ) :
    (∀ i < queue.length, (StmtId.ofQueue queue i).transfer2StmtIdx queue = some i) ∧
    (∀ s i, s.transfer2StmtIdx queue = some i →
      i < queue.length ∧ StmtId.ofQueue queue i = s) ∧
    (∀ t p : ℕ, (⟨t, p⟩ : StmtId).transfer2StmtIdx queue = none ↔ queue.count t ≤ p) ∧
    ∀ order, Reordering queue order → ∀ r < queue.length,
      StmtId.ofQueue (order.map (queue.getD · 0)) r = StmtId.ofQueue queue (order.getD r 0) :=
  ⟨fun _ => transfer2StmtIdx_ofQueue, fun _ _ => ofQueue_of_transfer,
    transfer2StmtIdx_eq_none_iff queue, fun _ h _ => h.ofQueue_map⟩

/-- The transactions of the planned queue. -/
def TestPlan.tids (p : TestPlan) : List ℕ := (List.range p.stmtNum).map p.tidQueue

theorem idxsOf_tids (p : TestPlan) (t : ℕ) : idxsOf p.tids t = p.ofTxn t (List.range p.stmtNum) := by
  rw [idxsOf, TestPlan.tids, List.length_map, List.length_range, TestPlan.ofTxn]
  refine List.filter_congr fun i hi => ?_
  rw [List.getD_eq_getElem _ _ (by simpa using hi), List.getElem_map, List.getElem_range]

namespace RunRecord

variable {p : TestPlan} {planned : ℕ → String} {s : TransTest} {order : List ℕ} {res : ℕ → Settled}

theorem length_order (h : RunRecord p planned s order res) : order.length = p.stmtNum := by
  rw [h.perm.length_eq, List.length_range]

/-- A run that kept the transactions in place kept all statements in place. -/
theorem order_eq (h : RunRecord p planned s order res) (htid : s.realTidQueue = p.tids) :
    order = List.range p.stmtNum := by
  refine eq_of_map_eq_of_filter_eq (h.realTid.symm.trans htid) fun t => ?_
  exact ofTxn_eq_of_perm h.perm h.ascending t

theorem getD_tids {p : TestPlan} {i : ℕ} (hi : i < p.stmtNum) : p.tids.getD i 0 = p.tidQueue i := by
  rw [TestPlan.tids, List.getD_eq_getElem _ _ (by simpa using hi), List.getElem_map,
    List.getElem_range]

theorem below (h : RunRecord p planned s order res) {i : ℕ} (hi : i ∈ order) : i < p.stmtNum :=
  List.mem_range.1 (h.perm.mem_iff.1 hi)

/-- A run reorders the planned queue. -/
theorem reordering (h : RunRecord p planned s order res) : Reordering p.tids order where
  perm := by
    rw [TestPlan.tids, List.length_map, List.length_range]
    exact h.perm
  ascending := h.ascending.imp_of_mem fun hi hj hasc heq =>
    hasc (by rwa [getD_tids (h.below hi), getD_tids (h.below hj)] at heq)

theorem realTid_eq (h : RunRecord p planned s order res) :
    s.realTidQueue = order.map (p.tids.getD · 0) :=
  h.realTid.trans (List.map_congr_left fun _ hi => (getD_tids (h.below hi)).symm)

/-- The planned indices of a transaction, in the order of the real queue. -/
theorem map_order_idxsOf (h : RunRecord p planned s order res) (t : ℕ) :
    (idxsOf s.realTidQueue t).map (fun r => order.getD r 0) = p.ofTxn t (List.range p.stmtNum) := by
  rw [h.realTid_eq, h.reordering.map_idxsOf, idxsOf_tids]

/-- An entry of the real queues has the id of the planned statement it comes from. -/
theorem ofQueue_real (h : RunRecord p planned s order res) {r : ℕ} (hr : r < p.stmtNum) :
    StmtId.ofQueue s.realTidQueue r = StmtId.ofQueue p.tids (order.getD r 0) := by
  rw [h.realTid_eq]
  exact h.reordering.ofQueue_map (by rw [TestPlan.tids, List.length_map, List.length_range]; exact hr)

end RunRecord

end DbFuzz
