import Mathlib.Data.Nat.Notation
import Mathlib.Data.List.Infix
import Mathlib.Tactic.Common

/-! Statement ids (`dependency_analyzer.hh`): a statement is its transaction and its
place in it. -/

namespace DbFuzz

structure StmtId where
  txnId : ℤ
  stmtIdxInTxn : ℤ
  deriving DecidableEq, Repr

/-- `stmt_id()` -/
def StmtId.init : StmtId := ⟨-1, -1⟩

/-- `stmt_id(final_tid_queue, stmt_idx)`, for an index inside the queue. -/
def StmtId.ofQueue (finalTidQueue : List ℕ) (stmtIdx : ℕ) : StmtId :=
  let txnId := finalTidQueue.getD stmtIdx 0
  ⟨txnId, (finalTidQueue.take (stmtIdx + 1)).count txnId - 1⟩

/-- The loop of `transfer_2_stmt_idx` from index `i` on. -/
def transferLoop (s : StmtId) : List ℕ → ℕ → ℤ → Option ℕ
  | [], _, _ => none
  | t :: rest, i, tmpTargetTxnIdx =>
    if (t : ℤ) ≠ s.txnId then transferLoop s rest (i + 1) tmpTargetTxnIdx
    else if tmpTargetTxnIdx + 1 = s.stmtIdxInTxn then some i
    else transferLoop s rest (i + 1) (tmpTargetTxnIdx + 1)

/-- `none` stands for the error value `-1`. -/
def StmtId.transfer2StmtIdx (s : StmtId) (finalTidQueue : List ℕ) : Option ℕ :=
  if s.txnId = -1 ∨ s.stmtIdxInTxn = -1 then none else transferLoop s finalTidQueue 0 (-1)

theorem transferLoop_ofQueue (t : ℕ) (queue : List ℕ) (k : ℕ) (hk : queue[k]? = some t) (i : ℕ)
    (tmp : ℤ) :
    transferLoop ⟨t, tmp + (queue.take (k + 1)).count t⟩ queue i tmp = some (i + k) := by
  induction queue generalizing k i tmp with
  | nil => simp at hk
  | cons u rest ih =>
    cases k with
    | zero =>
      simp only [List.getElem?_cons_zero, Option.some.injEq] at hk
      subst hk
      simp [transferLoop]
    | succ k =>
      rw [List.getElem?_cons_succ] at hk
      have hmem : 0 < (rest.take (k + 1)).count t := by
        rw [List.count_pos_iff]
        exact List.mem_of_getElem? (i := k) (by rw [List.getElem?_take]; simpa using hk)
      rw [transferLoop]
      by_cases hu : u = t
      · subst hu
        have hcount : ((u :: rest).take (k + 1 + 1)).count u = (rest.take (k + 1)).count u + 1 := by
          simp
        have hne : tmp + 1 ≠ tmp + (((u :: rest).take (k + 1 + 1)).count u : ℤ) := by omega
        simp only [ne_eq, not_true_eq_false, reduceIte, hne]
        have := ih k hk (i + 1) (tmp + 1)
        rw [show tmp + (((u :: rest).take (k + 1 + 1)).count u : ℤ) =
          tmp + 1 + ((rest.take (k + 1)).count u : ℤ) by omega, this]
        congr 1
        omega
      · have hcount : ((u :: rest).take (k + 1 + 1)).count t = (rest.take (k + 1)).count t := by
          simp [hu]
        have hne : (u : ℤ) ≠ (t : ℤ) := by omega
        simp only [ne_eq, hne, not_false_eq_true, reduceIte, hcount]
        rw [ih k hk (i + 1) tmp]
        congr 1
        omega

theorem transfer2StmtIdx_ofQueue {queue : List ℕ} {i : ℕ} (hi : i < queue.length) :
    (StmtId.ofQueue queue i).transfer2StmtIdx queue = some i := by
  have hget : queue[i]? = some (queue.getD i 0) := by simp [List.getD, hi]
  have hmem : 0 < (queue.take (i + 1)).count (queue.getD i 0) := by
    rw [List.count_pos_iff]
    exact List.mem_of_getElem? (i := i) (by rw [List.getElem?_take]; simpa using hget)
  have hid : StmtId.ofQueue queue i =
      ⟨(queue.getD i 0 : ℕ), -1 + ((queue.take (i + 1)).count (queue.getD i 0) : ℤ)⟩ := by
    simp only [StmtId.ofQueue, StmtId.mk.injEq, true_and]
    omega
  unfold StmtId.transfer2StmtIdx
  rw [if_neg (by rw [hid]; simp only; omega), hid,
    transferLoop_ofQueue _ queue i hget 0 (-1), Nat.zero_add]

/-- The index found is the one of the statement. -/
theorem transferLoop_some {s : StmtId} {queue : List ℕ} {i k : ℕ} {tmp : ℤ}
    (h : transferLoop s queue i tmp = some k) : ∃ m < queue.length, k = i + m ∧
      (queue.getD m 0 : ℤ) = s.txnId ∧
      tmp + (queue.take (m + 1)).count (queue.getD m 0) = s.stmtIdxInTxn := by
  induction queue generalizing i tmp with
  | nil => cases h
  | cons t rest ih =>
    rw [transferLoop] at h
    split_ifs at h with htxn hidx
    · obtain ⟨m, hm, rfl, hget, hcount⟩ := ih h
      refine ⟨m + 1, Nat.succ_lt_succ hm, by omega, by simpa using hget, ?_⟩
      have hne : t ≠ rest.getD m 0 := by
        rintro rfl
        exact htxn hget
      rw [List.getD_cons_succ, List.take_succ_cons, List.count_cons_of_ne hne]
      exact hcount
    · rw [ne_eq, not_not] at htxn
      cases h
      exact ⟨0, Nat.succ_pos _, rfl, by simpa using htxn, by simpa using hidx⟩
    · rw [ne_eq, not_not] at htxn
      obtain ⟨m, hm, rfl, hget, hcount⟩ := ih h
      refine ⟨m + 1, Nat.succ_lt_succ hm, by omega, by simpa using hget, ?_⟩
      have heq : t = rest.getD m 0 := by
        have : (t : ℤ) = (rest.getD m 0 : ℕ) := htxn.trans hget.symm
        exact_mod_cast this
      simp only [List.getD_cons_succ, List.take_succ_cons, ← heq, List.count_cons_self] at hcount ⊢
      omega

theorem ofQueue_of_transfer {s : StmtId} {queue : List ℕ} {i : ℕ}
    (h : s.transfer2StmtIdx queue = some i) : i < queue.length ∧ StmtId.ofQueue queue i = s := by
  unfold StmtId.transfer2StmtIdx at h
  split_ifs at h
  obtain ⟨m, hm, rfl, hget, hcount⟩ := transferLoop_some h
  rw [Nat.zero_add]
  refine ⟨hm, ?_⟩
  unfold StmtId.ofQueue
  dsimp only
  rw [hget, show ((queue.take (m + 1)).count (queue.getD m 0) : ℤ) - 1 = s.stmtIdxInTxn by omega]

theorem ofQueue_inj {queue : List ℕ} {i j : ℕ} (hi : i < queue.length) (hj : j < queue.length)
    (h : StmtId.ofQueue queue i = StmtId.ofQueue queue j) : i = j := by
  have := transfer2StmtIdx_ofQueue hi
  rw [h, transfer2StmtIdx_ofQueue hj, Option.some.injEq] at this
  exact this.symm

end DbFuzz
