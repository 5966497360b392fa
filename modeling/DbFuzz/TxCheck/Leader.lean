import DbFuzz.TxCheck.SortFlag

/-! The leader of a group is the statement the others were placed for. In the queue the
leaders of two groups stand in the order of their members. -/

namespace DbFuzz

open Relation

namespace AnalyzedQueue

variable {q : AnalyzedQueue} {i j k : ℕ}

/-- The statement an index belongs to. -/
def leader (q : AnalyzedQueue) (i : ℕ) : ℕ :=
  match (q.usage i).stmtType with
  | .beforeWriteRead => i + 1
  | .afterWriteRead => i - 1
  | .versionSetRead =>
    ((List.range q.stmtNum).find? fun j =>
      decide (i < j) && (q.usage j).stmtType.isNormal).getD i
  | _ => i

theorem leader_of_normal (h : (q.usage i).stmtType.isNormal = true) : q.leader i = i := by
  unfold leader
  revert h
  generalize (q.usage i).stmtType = st
  cases st <;> simp [StmtBasicType.isNormal]

theorem leader_of_nextNormal (hi : (q.usage i).stmtType = .versionSetRead)
    (hj : q.NextNormal i j) : q.leader i = j := by
  have hfind : (List.range q.stmtNum).find? (fun j =>
      decide (i < j) && (q.usage j).stmtType.isNormal) = some j := by
    refine List.find?_range_eq_some.2 ⟨?_, List.mem_range.2 hj.2.1, fun k hkj => ?_⟩
    · simp [hj.1, hj.2.2.1]
    · by_cases hik : i < k
      · simp [hj.2.2.2 k hik hkj]
      · simp [hik]
  simp only [leader, hi, hfind, Option.getD_some]

theorem isNormal_of_write (h : (q.usage i).stmtType = .updateWrite ∨
    (q.usage i).stmtType = .deleteWrite ∨ (q.usage i).stmtType = .insertWrite) :
    (q.usage i).stmtType.isNormal = true := by
  rcases h with h | h | h <;> rw [h] <;> rfl

/-- An instrument edge joins statements of one leader. -/
theorem InstrumentEdge.leader_eq (h : q.InstrumentEdge i j) : q.leader i = q.leader j := by
  cases h with
  | before hi _ _ hnext =>
    rw [leader_of_normal (isNormal_of_write (hnext.imp_right Or.inl))]
    simp only [leader, hi]
  | after hi _ _ hprev =>
    rw [leader_of_normal (isNormal_of_write (hprev.imp_right Or.inr))]
    simp only [leader, hi]
    omega
  | versionSet hi hj =>
    rw [leader_of_nextNormal hi hj, leader_of_normal hj.2.2.1]

/-- What the leader of a placed statement is. -/
structure Led (q : AnalyzedQueue) (i l : ℕ) : Prop where
  normal : (q.usage l).stmtType.isNormal = true
  near : i ≤ l + 1
  edge : i = l ∨ q.InstrumentEdge i l ∨ q.InstrumentEdge l i

theorem led_leader (hplaced : q.Placed i) (hinit : (q.usage i).stmtType ≠ .initType) :
    q.Led i (q.leader i) := by
  unfold Placed at hplaced
  cases ht : (q.usage i).stmtType with
  | initType => exact absurd ht hinit
  | selectRead | updateWrite | insertWrite | deleteWrite =>
    have hnormal : (q.usage i).stmtType.isNormal = true := by rw [ht]; rfl
    rw [leader_of_normal hnormal]
    exact ⟨hnormal, by omega, Or.inl rfl⟩
  | beforeWriteRead =>
    rw [ht] at hplaced
    have hl : q.leader i = i + 1 := by simp only [leader, ht]
    rw [hl]
    refine ⟨?_, by omega, Or.inr (Or.inl hplaced)⟩
    cases hplaced with
    | before _ _ _ hnext => exact isNormal_of_write (hnext.imp_right Or.inl)
    | after _ _ _ hprev => rw [ht] at hprev; simp at hprev
    | versionSet hi => rw [ht] at hi; cases hi
  | afterWriteRead =>
    rw [ht] at hplaced
    obtain ⟨hpos, hedge⟩ := hplaced
    have hl : q.leader i = i - 1 := by simp only [leader, ht]
    rw [hl]
    refine ⟨?_, by omega, Or.inr (Or.inr hedge)⟩
    obtain ⟨m, rfl⟩ : ∃ m, i = m + 1 := ⟨i - 1, by omega⟩
    rw [Nat.add_sub_cancel] at hedge ⊢
    cases hedge with
    | before hi _ _ hnext => rw [ht] at hnext; simp at hnext
    | after _ _ _ hprev => exact isNormal_of_write (hprev.imp_right Or.inr)
    | versionSet _ hj =>
      have := hj.2.2.1
      rw [ht] at this
      cases this
  | versionSetRead =>
    rw [ht] at hplaced
    obtain ⟨j, hedge⟩ := hplaced
    have hkeep := hedge
    cases hedge with
    | before hi => rw [ht] at hi; cases hi
    | after _ _ _ hprev => rw [ht] at hprev; simp at hprev
    | versionSet hi hj =>
      rw [leader_of_nextNormal hi hj]
      have hij := hj.1
      exact ⟨hj.2.2.1, by omega, Or.inr (Or.inl hkeep)⟩

/-- Leaders stand in the order of the statements. -/
theorem leader_le (hi : q.Placed i) (hj : q.Placed j) (hinit : (q.usage i).stmtType ≠ .initType)
    (hjnit : (q.usage j).stmtType ≠ .initType) (hij : i < j) : q.leader i ≤ q.leader j := by
  have hledj := led_leader hj hjnit
  have hnear := hledj.near
  unfold Placed at hi
  cases ht : (q.usage i).stmtType with
  | initType => exact absurd ht hinit
  | selectRead | updateWrite | insertWrite | deleteWrite =>
    rw [leader_of_normal (i := i) (by rw [ht]; rfl)]
    omega
  | afterWriteRead =>
    have hl : q.leader i = i - 1 := by simp only [leader, ht]
    omega
  | beforeWriteRead =>
    rw [ht] at hi
    have hl : q.leader i = i + 1 := by simp only [leader, ht]
    have heq := hi.leader_eq
    by_cases hnext : j = i + 1
    · rw [hnext, heq]
    · omega
  | versionSetRead =>
    rw [ht] at hi
    obtain ⟨n, hedge⟩ := hi
    cases hedge with
    | before hi => rw [ht] at hi; cases hi
    | after _ _ _ hprev => rw [ht] at hprev; simp at hprev
    | versionSet hi hn =>
      rw [leader_of_nextNormal hi hn]
      -- the leader of `j` is a normal statement after `i`
      have hne : q.leader j ≠ i := by
        intro he
        have := hledj.normal
        rw [he, ht] at this
        cases this
      by_contra hlt
      have := hn.2.2.2 (q.leader j) (by omega) (by omega)
      rw [hledj.normal] at this
      cases this

end AnalyzedQueue

namespace DependencyAnalyzer

open AnalyzedQueue

variable {a : DependencyAnalyzer} {g : StmtGraph} {i j : ℕ}

theorem Derived.sameGroup_of_edge (he : a.Explained) (hg : a.Derived g)
    (h : i = j ∨ a.queue.InstrumentEdge i j ∨ a.queue.InstrumentEdge j i) :
    a.queue.SameGroup g i j := by
  rcases h with rfl | h
  · exact SameGroup.refl _ _ _
  · exact ReflTransGen.single ((hg.linked_iff he).2 h)

theorem Derived.leader_eq (he : a.Explained) (hg : a.Derived g) (h : a.queue.SameGroup g i j) :
    a.queue.leader i = a.queue.leader j := by
  induction h with
  | refl => rfl
  | tail _ hbc ih =>
    rcases (hg.linked_iff he).1 hbc with hbc | hbc
    · exact ih.trans hbc.leader_eq
    · exact ih.trans hbc.leader_eq.symm

theorem Derived.leader_ne (he : a.Explained) (hg : a.Derived g) (hi : i < a.queue.stmtNum)
    (hj : j < a.queue.stmtNum) (hinit : (a.queue.usage i).stmtType ≠ .initType)
    (hjnit : (a.queue.usage j).stmtType ≠ .initType) (hne : ¬ a.queue.SameGroup g i j) :
    a.queue.leader i ≠ a.queue.leader j := by
  intro heq
  have h1 := hg.sameGroup_of_edge he (led_leader (he.placed i hi) hinit).edge
  have h2 := hg.sameGroup_of_edge he (led_leader (he.placed j hj) hjnit).edge
  exact hne (h1.trans (heq ▸ h2.symm))

/-- Between two groups the leaders strictly follow the order of the queue. -/
theorem Derived.leader_lt (he : a.Explained) (hg : a.Derived g) (hi : i < a.queue.stmtNum)
    (hj : j < a.queue.stmtNum) (hinit : (a.queue.usage i).stmtType ≠ .initType)
    (hjnit : (a.queue.usage j).stmtType ≠ .initType) (hij : i < j)
    (hne : ¬ a.queue.SameGroup g i j) : a.queue.leader i < a.queue.leader j :=
  Nat.lt_of_le_of_ne (leader_le (he.placed i hi) (he.placed j hj) hinit hjnit hij)
    (hg.leader_ne he hi hj hinit hjnit hne)

/-- Edges that go forward between groups make no cycle of groups. -/
theorem Derived.acyclic_of_forward {given : Finset StmtId} (he : a.Explained) (hg : a.Derived g)
    (hforward : ∀ i j, a.queue.Sorted given i → a.queue.Sorted given j →
      ¬ a.queue.SameGroup g i j → (∃ dt ∈ g.labels (a.queue.sid i) (a.queue.sid j),
        dt.isData = true) → i < j ∧ (a.queue.usage i).stmtType ≠ .initType ∧
        (a.queue.usage j).stmtType ≠ .initType) (A : Finset ℕ) :
    ¬ TransGen (a.queue.GroupEdge g given) A A := by
  have hstep : ∀ A B, a.queue.GroupEdge g given A B →
      (∃ x, x ∈ A) ∧ (∃ x, x ∈ B) ∧ ∀ x ∈ A, ∀ y ∈ B, a.queue.leader x < a.queue.leader y := by
    rintro A B ⟨hne, i, j, hi, hj, rfl, rfl, hdata⟩
    refine ⟨⟨i, self_mem_stmtSet hi.1⟩, ⟨j, self_mem_stmtSet hj.1⟩, fun x hx y hy => ?_⟩
    have hdiff : ¬ a.queue.SameGroup g i j := fun h =>
      hne (AnalyzedQueue.stmtSet_eq hi.1 ((mem_stmtSet hi.1).2 h)).symm
    obtain ⟨hij, h1, h2⟩ := hforward i j hi hj hdiff hdata
    rw [← hg.leader_eq he ((mem_stmtSet hi.1).1 hx), ← hg.leader_eq he ((mem_stmtSet hj.1).1 hy)]
    exact hg.leader_lt he hi.1 hj.1 h1 h2 hij hdiff
  have hrun : ∀ B, TransGen (a.queue.GroupEdge g given) A B →
      (∃ x, x ∈ A) ∧ ∀ x ∈ A, ∀ y ∈ B, a.queue.leader x < a.queue.leader y := by
    intro B hAB
    induction hAB with
    | single h => exact ⟨(hstep _ _ h).1, (hstep _ _ h).2.2⟩
    | tail _ h ih =>
      obtain ⟨⟨m, hm⟩, -, hlt⟩ := hstep _ _ h
      exact ⟨ih.1, fun x hx y hy => (ih.2 x hx m hm).trans (hlt m hm y hy)⟩
  intro hcycle
  obtain ⟨⟨x, hx⟩, hlt⟩ := hrun A hcycle
  exact Nat.lt_irrefl _ (hlt x hx x hx)

end DependencyAnalyzer

end DbFuzz
