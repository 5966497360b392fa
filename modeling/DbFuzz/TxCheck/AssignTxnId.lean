import Mathlib.Algebra.BigOperators.Group.Finset.Basic
import Mathlib.Algebra.Order.BigOperators.Group.Finset
import Mathlib.Data.Finset.Card

/-! `assign_txn_id` (`transaction_test.cc`): the order in which the transactions of a test
get their statements. -/

namespace DbFuzz

def maxConcurrentTxnNum : ℕ := 3

/-- `dx(n)` for the next random number. -/
def dxOf (n random : ℕ) : ℕ := random % n + 1

/-- `set<int>`, in iteration order. -/
structure TidSet where
  tids : List ℕ
  sorted : tids.Pairwise (· < ·)

namespace TidSet

instance : Membership ℕ TidSet := ⟨fun s tid => tid ∈ s.tids⟩

def empty : TidSet := ⟨[], List.Pairwise.nil⟩

/-- The transactions below `transNum`. -/
def upTo (transNum : ℕ) : TidSet := ⟨List.range transNum, List.pairwise_lt_range⟩

def insert (tid : ℕ) (s : TidSet) : TidSet where
  tids := s.tids.filter (· < tid) ++ tid :: s.tids.filter (tid < ·)
  sorted := by
    have hbelow : ∀ a ∈ s.tids.filter (· < tid), a < tid := by simp
    have habove : ∀ a ∈ s.tids.filter (tid < ·), tid < a := by simp
    refine List.pairwise_append.2 ⟨s.sorted.filter _, List.pairwise_cons.2
      ⟨habove, s.sorted.filter _⟩, fun a ha b hb => ?_⟩
    rcases List.mem_cons.1 hb with rfl | hb
    · exact hbelow a ha
    · exact (hbelow a ha).trans (habove b hb)

def erase (tid : ℕ) (s : TidSet) : TidSet := ⟨s.tids.filter (· ≠ tid), s.sorted.filter _⟩

def size (s : TidSet) : ℕ := s.tids.length

/-- `*next(s.begin(), idx)`; `none` behind the end. -/
def next (s : TidSet) (idx : ℕ) : Option ℕ := s.tids[idx]?

theorem mem_upTo {transNum t : ℕ} : t ∈ upTo transNum ↔ t < transNum := List.mem_range

theorem mem_insert {tid t : ℕ} {s : TidSet} : t ∈ s.insert tid ↔ t = tid ∨ t ∈ s := by
  change t ∈ s.tids.filter (· < tid) ++ tid :: s.tids.filter (tid < ·) ↔ t = tid ∨ t ∈ s.tids
  have htri := Nat.lt_trichotomy t tid
  simp only [List.mem_append, List.mem_cons, List.mem_filter, decide_eq_true_eq]
  tauto

theorem mem_erase {tid t : ℕ} {s : TidSet} : t ∈ s.erase tid ↔ t ∈ s ∧ t ≠ tid := by
  change t ∈ s.tids.filter (· ≠ tid) ↔ t ∈ s.tids ∧ t ≠ tid
  simp

theorem size_eq_card {s : TidSet} {t : Finset ℕ} (h : ∀ x, x ∈ s ↔ x ∈ t) : s.size = t.card := by
  have hnodup : s.tids.Nodup := s.sorted.imp fun hlt => Nat.ne_of_lt hlt
  have heq : s.tids.toFinset = t := Finset.ext fun x => List.mem_toFinset.trans (h x)
  rw [← heq, List.toFinset_card_of_nodup hnodup, size]

/-- A random element of a set that is not empty. -/
theorem exists_next {s : TidSet} (h : 0 < s.size) (random : ℕ) :
    ∃ tid ∈ s, s.next (dxOf s.size random - 1) = some tid := by
  have hlt : dxOf s.size random - 1 < s.tids.length := Nat.mod_lt random h
  exact ⟨_, List.getElem_mem hlt, List.getElem?_eq_getElem hlt⟩

end TidSet

structure AssignState where
  concurrentTid : TidSet
  availableTid : TidSet
  tidInsertdStmt : ℕ → ℕ
  tidQueue : List ℕ

namespace AssignState

def start (transNum : ℕ) : AssignState := ⟨.empty, .upTo transNum, fun _ => 0, []⟩

/-- What happens to the transaction that is chosen. -/
def insertStmt (stmtNum : ℕ → ℕ) (tid : ℕ) (s : AssignState) : AssignState :=
  let inserted := Function.update s.tidInsertdStmt tid (s.tidInsertdStmt tid + 1)
  if inserted tid ≥ stmtNum tid then
    ⟨s.concurrentTid.erase tid, s.availableTid.erase tid, inserted, s.tidQueue ++ [tid]⟩
  else ⟨s.concurrentTid, s.availableTid, inserted, s.tidQueue ++ [tid]⟩

/-- One round of the loop. -/
def round (stmtNum : ℕ → ℕ) (random : ℕ) (s : AssignState) : Option AssignState :=
  if s.concurrentTid.size < maxConcurrentTxnNum then
    (s.availableTid.next (dxOf s.availableTid.size random - 1)).map fun tid =>
      insertStmt stmtNum tid { s with concurrentTid := s.concurrentTid.insert tid }
  else
    (s.concurrentTid.next (dxOf s.concurrentTid.size random - 1)).map fun tid =>
      insertStmt stmtNum tid s

/-- `while (available_tid.empty() == false)`, with the random numbers from the `n`th on. -/
def loop (stmtNum : ℕ → ℕ) (randoms : ℕ → ℕ) : ℕ → ℕ → AssignState → Option AssignState
  | 0, _, s => if s.availableTid.size = 0 then some s else none
  | fuel + 1, n, s =>
    if s.availableTid.size = 0 then some s
    else (round stmtNum (randoms n) s).bind (loop stmtNum randoms fuel (n + 1))

end AssignState

/-- The queue of a test with `transNum` transactions. -/
def assignTxnId (transNum : ℕ) (stmtNum : ℕ → ℕ) (randoms : ℕ → ℕ) (fuel : ℕ) : Option (List ℕ) :=
  (AssignState.loop stmtNum randoms fuel 0 (.start transNum)).map AssignState.tidQueue

example : assignTxnId 4 (fun _ => 2) (fun n => n) 20 = some [0, 1, 2, 0, 2, 3, 1, 3] := by
  decide +kernel

/-! What the queue is for. -/

/-- The transactions that have started and not finished in a prefix of the queue. -/
def running (transNum : ℕ) (stmtNum : ℕ → ℕ) (pre : List ℕ) : Finset ℕ :=
  (Finset.range transNum).filter fun t => 0 < pre.count t ∧ pre.count t < stmtNum t

namespace AssignState

variable {transNum : ℕ} {stmtNum randoms : ℕ → ℕ} {s : AssignState}

/-- What holds between the rounds. -/
structure Inv (transNum : ℕ) (stmtNum : ℕ → ℕ) (s : AssignState) : Prop where
  counted : ∀ t, s.tidInsertdStmt t = s.tidQueue.count t
  atMost : ∀ t, s.tidQueue.count t ≤ stmtNum t
  known : ∀ t ∈ s.tidQueue, t < transNum
  available : ∀ t, t ∈ s.availableTid ↔ t < transNum ∧ s.tidQueue.count t < stmtNum t
  concurrent : ∀ t, t ∈ s.concurrentTid ↔ t ∈ running transNum stmtNum s.tidQueue
  bounded : ∀ n, (running transNum stmtNum (s.tidQueue.take n)).card ≤ maxConcurrentTxnNum

theorem inv_start (transNum : ℕ) (stmtNum : ℕ → ℕ) (h : ∀ t < transNum, 1 ≤ stmtNum t) :
    Inv transNum stmtNum (start transNum) where
  counted := fun t => List.count_nil.symm
  atMost := fun t => by simp [start]
  known := by simp [start]
  available := fun t => by
    simp only [start, TidSet.mem_upTo, List.count_nil]
    exact ⟨fun ht => ⟨ht, h t ht⟩, fun ht => ht.1⟩
  concurrent := fun t => by
    simp only [start, running, List.count_nil, Nat.lt_irrefl, false_and, Finset.filter_false]
    exact iff_of_false (List.not_mem_nil) (Finset.notMem_empty t)
  bounded := fun n => by
    simp [start, running]

/-- What is left to insert. -/
def remaining (transNum : ℕ) (stmtNum : ℕ → ℕ) (s : AssignState) : ℕ :=
  ∑ t ∈ Finset.range transNum, (stmtNum t - s.tidQueue.count t)

theorem count_append_tid (queue : List ℕ) (tid t : ℕ) :
    (queue ++ [tid]).count t = queue.count t + if t = tid then 1 else 0 := by
  rw [List.count_append, List.count_singleton]
  by_cases h : t = tid <;> simp [h, Ne.symm]

/-- Only the chosen transaction can start. -/
theorem running_append_subset (queue : List ℕ) (tid : ℕ) :
    running transNum stmtNum (queue ++ [tid]) ⊆ insert tid (running transNum stmtNum queue) := by
  intro t ht
  simp only [running, Finset.mem_filter, Finset.mem_insert, count_append_tid] at ht ⊢
  by_cases h : t = tid
  · exact Or.inl h
  · rw [if_neg h, Nat.add_zero] at ht
    exact Or.inr ht

theorem insertStmt_eq (tid : ℕ) (s : AssignState) :
    insertStmt stmtNum tid s =
      ⟨if s.tidInsertdStmt tid + 1 < stmtNum tid then s.concurrentTid else s.concurrentTid.erase tid,
        if s.tidInsertdStmt tid + 1 < stmtNum tid then s.availableTid else s.availableTid.erase tid,
        Function.update s.tidInsertdStmt tid (s.tidInsertdStmt tid + 1), s.tidQueue ++ [tid]⟩ := by
  unfold insertStmt
  simp only [Function.update_self, ge_iff_le]
  by_cases h : s.tidInsertdStmt tid + 1 < stmtNum tid
  · rw [if_neg (not_le.2 h), if_pos h, if_pos h]
  · rw [if_pos (not_lt.1 h), if_neg h, if_neg h]

theorem mem_ite_erase {tid t : ℕ} {tids : TidSet} {p : Prop} [Decidable p] :
    (t ∈ if p then tids else tids.erase tid) ↔ t ∈ tids ∧ (t = tid → p) := by
  split_ifs with h
  · simp [h]
  · simp [h, TidSet.mem_erase]

theorem insertStmt_tidQueue (tid : ℕ) (s : AssignState) :
    (insertStmt stmtNum tid s).tidQueue = s.tidQueue ++ [tid] := by
  rw [insertStmt_eq]

/-- The chosen transaction was counted among the concurrent ones before. -/
theorem inv_insertStmt {tid : ℕ} {concurrentTid : TidSet} (hs : Inv transNum stmtNum s)
    (hconcurrent : ∀ t, t ∈ concurrentTid ↔ t = tid ∨ t ∈ s.concurrentTid)
    (htid : tid < transNum) (hopen : s.tidQueue.count tid < stmtNum tid)
    (hcard : (running transNum stmtNum (s.tidQueue ++ [tid])).card ≤ maxConcurrentTxnNum) :
    Inv transNum stmtNum (insertStmt stmtNum tid { s with concurrentTid := concurrentTid }) := by
  rw [insertStmt_eq]
  constructor
  case counted =>
    intro t
    dsimp only
    rw [count_append_tid, Function.update_apply, hs.counted, hs.counted]
    by_cases h : t = tid <;> simp [h]
  case atMost =>
    intro t
    have hold := hs.atMost t
    dsimp only
    rw [count_append_tid]
    by_cases h : t = tid
    · subst h
      rw [if_pos rfl]
      exact hopen
    · rw [if_neg h]
      exact hold
  case known =>
    intro t ht
    rcases List.mem_append.1 ht with hold | hnew
    · exact hs.known t hold
    · exact List.mem_singleton.1 hnew ▸ htid
  case available =>
    intro t
    dsimp only
    rw [mem_ite_erase, hs.available, hs.counted, count_append_tid]
    by_cases h : t = tid
    · subst h
      simp [htid, hopen]
    · simp [h]
  case concurrent =>
    intro t
    have hold := hs.concurrent t
    simp only [running, Finset.mem_filter, Finset.mem_range] at hold ⊢
    rw [mem_ite_erase, hconcurrent, hold, hs.counted, count_append_tid]
    by_cases h : t = tid
    · subst h
      simp [htid]
    · simp [h]
  case bounded =>
    intro n
    dsimp only
    rcases Nat.lt_or_ge s.tidQueue.length n with hlt | hle
    · rw [List.take_of_length_le (by rw [List.length_append, List.length_singleton]; omega)]
      exact hcard
    · rw [List.take_append_of_le_length hle]
      exact hs.bounded n

/-- A round adds one statement of a transaction that is not finished. -/
theorem round_spec (hs : Inv transNum stmtNum s) (hleft : s.availableTid.size ≠ 0) (random : ℕ) :
    ∃ tid s', round stmtNum random s = some s' ∧ s'.tidQueue = s.tidQueue ++ [tid] ∧
      tid < transNum ∧ s.tidQueue.count tid < stmtNum tid ∧ Inv transNum stmtNum s' := by
  have hsize : s.concurrentTid.size = (running transNum stmtNum s.tidQueue).card :=
    TidSet.size_eq_card hs.concurrent
  unfold round
  split_ifs with hfew
  · obtain ⟨tid, htid, hnext⟩ := TidSet.exists_next (Nat.pos_of_ne_zero hleft) random
    obtain ⟨hlt, hopen⟩ := (hs.available tid).1 htid
    refine ⟨tid, _, by rw [hnext]; rfl, ?_, hlt, hopen, ?_⟩
    · exact insertStmt_tidQueue tid _
    refine inv_insertStmt hs (fun t => TidSet.mem_insert) hlt hopen ?_
    have hcard := (Finset.card_le_card (running_append_subset s.tidQueue tid)).trans
      (Finset.card_insert_le tid (running transNum stmtNum s.tidQueue))
    omega
  · have hpos : 0 < s.concurrentTid.size := by
      have : 0 < maxConcurrentTxnNum := by decide
      omega
    obtain ⟨tid, htid, hnext⟩ := TidSet.exists_next hpos random
    have hrunning := (hs.concurrent tid).1 htid
    have htxn := hrunning
    simp only [running, Finset.mem_filter, Finset.mem_range] at htxn
    refine ⟨tid, _, by rw [hnext]; rfl, ?_, htxn.1, htxn.2.2, ?_⟩
    · exact insertStmt_tidQueue tid _
    refine inv_insertStmt hs (fun t => ⟨Or.inr, ?_⟩) htxn.1 htxn.2.2 ?_
    · rintro (rfl | ht)
      · exact htid
      · exact ht
    · have hsub : running transNum stmtNum (s.tidQueue ++ [tid]) ⊆ _ :=
        running_append_subset s.tidQueue tid
      rw [Finset.insert_eq_of_mem hrunning] at hsub
      have hbound := hs.bounded s.tidQueue.length
      rw [List.take_length] at hbound
      exact (Finset.card_le_card hsub).trans hbound

theorem remaining_append {tid : ℕ} {s' : AssignState} (hqueue : s'.tidQueue = s.tidQueue ++ [tid])
    (htid : tid < transNum) (hopen : s.tidQueue.count tid < stmtNum tid) :
    remaining transNum stmtNum s' < remaining transNum stmtNum s := by
  refine Finset.sum_lt_sum (fun t _ => ?_) ⟨tid, Finset.mem_range.2 htid, ?_⟩
  · rw [hqueue, count_append_tid]
    omega
  · rw [hqueue, count_append_tid, if_pos rfl]
    omega

/-- The loop ends with a state that has nothing left to insert. -/
theorem loop_spec (hs : Inv transNum stmtNum s) (n : ℕ) :
    ∃ s', (∃ N, ∀ fuel ≥ N, loop stmtNum randoms fuel n s = some s') ∧
      Inv transNum stmtNum s' ∧ s'.availableTid.size = 0 := by
  induction hk : remaining transNum stmtNum s using Nat.strong_induction_on generalizing s n with
  | _ k ih =>
    by_cases hempty : s.availableTid.size = 0
    · refine ⟨s, ⟨0, fun fuel _ => ?_⟩, hs, hempty⟩
      cases fuel with
      | zero => rw [loop, if_pos hempty]
      | succ fuel => rw [loop, if_pos hempty]
    · obtain ⟨tid, s1, hround, hqueue, htid, hopen, h1⟩ := round_spec hs hempty (randoms n)
      obtain ⟨s', ⟨N, hN⟩, h', hdone⟩ :=
        ih _ (hk ▸ remaining_append hqueue htid hopen) h1 (n + 1) rfl
      refine ⟨s', ⟨N + 1, fun fuel hfuel => ?_⟩, h', hdone⟩
      obtain ⟨fuel, rfl⟩ : ∃ m, fuel = m + 1 := ⟨fuel - 1, by omega⟩
      rw [loop, if_neg hempty, hround, Option.bind_some]
      exact hN fuel (by omega)

end AssignState

/-- For every order of random choices. -/
theorem assignTxnId_spec {transNum : ℕ} {stmtNum : ℕ → ℕ} (h : ∀ t < transNum, 1 ≤ stmtNum t)
    (randoms : ℕ → ℕ) :
    ∃ queue, (∃ N, ∀ fuel ≥ N, assignTxnId transNum stmtNum randoms fuel = some queue) ∧
      (∀ t ∈ queue, t < transNum) ∧ (∀ t < transNum, queue.count t = stmtNum t) ∧
      ∀ n, (running transNum stmtNum (queue.take n)).card ≤ maxConcurrentTxnNum := by
  obtain ⟨s, ⟨N, hN⟩, hs, hdone⟩ :=
    @AssignState.loop_spec _ _ randoms _ (AssignState.inv_start transNum stmtNum h) 0
  refine ⟨s.tidQueue, ⟨N, fun fuel hfuel => ?_⟩, hs.known, fun t ht => ?_, hs.bounded⟩
  · rw [assignTxnId, hN fuel hfuel]
    rfl
  · refine Nat.le_antisymm (hs.atMost t) (not_lt.1 fun hlt => ?_)
    have hmem : t ∈ s.availableTid.tids := (hs.available t).2 ⟨ht, hlt⟩
    rw [List.length_eq_zero_iff.1 hdone] at hmem
    cases hmem

theorem assignTxnId_six :
    ∃ queue, (∃ N, ∀ fuel ≥ N, assignTxnId 6 (fun _ => 4) (fun n => n * n) fuel = some queue) ∧
      (∀ t ∈ queue, t < 6) ∧ (∀ t < 6, queue.count t = 4) ∧
      ∀ n, (running 6 (fun _ => 4) (queue.take n)).card ≤ maxConcurrentTxnNum :=
  assignTxnId_spec (fun _ _ => by decide) _

end DbFuzz
