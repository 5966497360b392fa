import DbFuzz.Lib.Cycle
import Mathlib.Data.Finset.Card
import Mathlib.Data.Finset.Range

/-! Reduction of a finite graph: a node without incoming edges is removed with the edges
it sends, until none is left or every node has an incoming edge. -/

namespace Reduce

open Relation

/-- The edges of an adjacency matrix. -/
def Edge (n : ℕ) (g : ℕ → ℕ → Bool) (a b : ℕ) : Prop := a < n ∧ b < n ∧ g a b = true

def Cyclic (n : ℕ) (g : ℕ → ℕ → Bool) : Prop := ∃ a, TransGen (Edge n g) a a

/-- The first node that is not deleted and has no incoming edge. -/
def firstFree (n : ℕ) (g : ℕ → ℕ → Bool) (deleted : Finset ℕ) : Option ℕ :=
  (List.range n).find? fun i => decide (i ∉ deleted) && (List.range n).all fun j => !g j i

def removeRow (i : ℕ) (g : ℕ → ℕ → Bool) : ℕ → ℕ → Bool := fun a b => if a = i then false else g a b

/-- Whether nodes are left, and the graph that is left. -/
def reduce (n : ℕ) : ℕ → Finset ℕ → (ℕ → ℕ → Bool) → Option (Bool × (ℕ → ℕ → Bool))
  | 0, _, _ => none
  | fuel + 1, deleted, g =>
    if deleted.card = n then some (false, g)
    else
      match firstFree n g deleted with
      | none => some (true, g)
      | some i => reduce n fuel (insert i deleted) (removeRow i g)

variable {n i : ℕ} {g : ℕ → ℕ → Bool} {deleted : Finset ℕ}

theorem firstFree_some (h : firstFree n g deleted = some i) :
    i < n ∧ i ∉ deleted ∧ ∀ a, ¬Edge n g a i := by
  have hmem := List.mem_of_find?_eq_some h
  have hfree := List.find?_some h
  simp only [Bool.and_eq_true, decide_eq_true_eq, List.all_eq_true, Bool.not_eq_true'] at hfree
  refine ⟨List.mem_range.1 hmem, hfree.1, fun a ha => ?_⟩
  have := ha.2.2
  rw [hfree.2 a (List.mem_range.2 ha.1)] at this
  cases this

theorem firstFree_none (h : firstFree n g deleted = none) {i : ℕ} (hi : i < n)
    (hd : i ∉ deleted) : ∃ a, Edge n g a i := by
  have hnone := List.find?_eq_none.1 h i (List.mem_range.2 hi)
  simp only [hd, not_false_eq_true, decide_true, Bool.true_and, List.all_eq_true, not_forall,
    List.mem_range, Bool.not_eq_true', Bool.not_eq_false] at hnone
  obtain ⟨a, ha, hg⟩ := hnone
  exact ⟨a, ha, hi, hg⟩

theorem edge_removeRow {a b : ℕ} : Edge n (removeRow i g) a b ↔ Edge n g a b ∧ a ≠ i := by
  unfold Edge removeRow
  by_cases h : a = i
  · simp [h]
  · simp [h]

/-- A node without incoming edges is on no walk but as its start. -/
theorem transGen_removeRow (hfree : ∀ a, ¬Edge n g a i) {x y : ℕ} (hx : x ≠ i)
    (h : TransGen (Edge n g) x y) : TransGen (Edge n (removeRow i g)) x y := by
  induction h with
  | single h => exact .single (edge_removeRow.2 ⟨h, hx⟩)
  | tail hyz hzw ih =>
    obtain ⟨z, -, hz⟩ := TransGen.tail'_iff.1 hyz
    exact ih.tail (edge_removeRow.2 ⟨hzw, fun he => hfree z (he ▸ hz)⟩)

theorem transGen_of_removeRow {x y : ℕ} (h : TransGen (Edge n (removeRow i g)) x y) :
    TransGen (Edge n g) x y :=
  TransGen.mono (fun _ _ hxy => (edge_removeRow.1 hxy).1) _ _ h

theorem ne_of_cycle (hfree : ∀ a, ¬Edge n g a i) {a : ℕ} (h : TransGen (Edge n g) a a) :
    a ≠ i := by
  obtain ⟨z, -, hz⟩ := TransGen.tail'_iff.1 h
  exact fun he => hfree z (he ▸ hz)

/-- A node without incoming edges is on no cycle. -/
theorem cyclic_removeRow (hfree : ∀ a, ¬Edge n g a i) : Cyclic n (removeRow i g) ↔ Cyclic n g := by
  constructor
  · rintro ⟨a, ha⟩
    exact ⟨a, transGen_of_removeRow ha⟩
  · rintro ⟨a, ha⟩
    exact ⟨a, transGen_removeRow hfree (ne_of_cycle hfree ha) ha⟩

theorem cyclic_flip : Cyclic n (flip g) ↔ Cyclic n g := by
  have hflip : Edge n (flip g) = Function.swap (Edge n g) := by
    funext a b
    exact propext ⟨fun h => ⟨h.2.1, h.1, h.2.2⟩, fun h => ⟨h.2.1, h.1, h.2.2⟩⟩
  unfold Cyclic
  rw [hflip]
  exact exists_congr fun a => transGen_swap

/-- Deleted nodes send no edges. -/
theorem reduce_cyclic (fuel : ℕ) : ∀ (deleted : Finset ℕ) (g : ℕ → ℕ → Bool),
    deleted ⊆ Finset.range n → (∀ a ∈ deleted, ∀ b, ¬Edge n g a b) → n < fuel + deleted.card →
    ∃ b g', reduce n fuel deleted g = some (b, g') ∧ (b = true ↔ Cyclic n g) ∧
      (Cyclic n g' ↔ Cyclic n g) := by
  induction fuel with
  | zero =>
    intro deleted g hsub _ hfuel
    have := Finset.card_le_card hsub
    rw [Finset.card_range] at this
    omega
  | succ fuel ih =>
    intro deleted g hsub hrow hfuel
    rw [reduce]
    by_cases hcard : deleted.card = n
    · -- every node is deleted, so that no edge is left
      rw [if_pos hcard]
      have hall : deleted = Finset.range n :=
        Finset.eq_of_subset_of_card_le hsub (by rw [Finset.card_range, hcard])
      refine ⟨false, g, rfl, iff_of_false (by decide) ?_, Iff.rfl⟩
      rintro ⟨a, ha⟩
      obtain ⟨z, hz, -⟩ := TransGen.head'_iff.1 ha
      exact hrow a (by rw [hall, Finset.mem_range]; exact hz.1) z hz
    rw [if_neg hcard]
    cases hfree : firstFree n g deleted with
    | none =>
      refine ⟨true, g, rfl, iff_of_true rfl ?_, Iff.rfl⟩
      refine Cycle.exists_cycle (Finset.range n \ deleted) ?_ fun b hb => ?_
      · rw [← Finset.card_pos, Finset.card_sdiff_of_subset hsub, Finset.card_range]
        have := Finset.card_le_card hsub
        rw [Finset.card_range] at this
        omega
      · rw [Finset.mem_sdiff, Finset.mem_range] at hb
        obtain ⟨a, ha⟩ := firstFree_none hfree hb.1 hb.2
        refine ⟨a, ?_, ha⟩
        rw [Finset.mem_sdiff, Finset.mem_range]
        exact ⟨ha.1, fun had => hrow a had b ha⟩
    | some i =>
      obtain ⟨hi, hd, hin⟩ := firstFree_some hfree
      have hstep := cyclic_removeRow hin
      obtain ⟨b, g', hreduce, hb, hg'⟩ := ih (insert i deleted) (removeRow i g)
        (Finset.insert_subset_iff.2 ⟨Finset.mem_range.2 hi, hsub⟩)
        (fun a ha c hc => by
          obtain ⟨hc, hne⟩ := edge_removeRow.1 hc
          exact hrow a ((Finset.mem_insert.1 ha).resolve_left hne) c hc)
        (by rw [Finset.card_insert_of_notMem hd]; omega)
      exact ⟨b, g', hreduce, hb.trans hstep, hg'.trans hstep⟩

/-- Nodes are left exactly when there is a cycle, and every cycle is left. -/
theorem reduce_spec (n : ℕ) (g : ℕ → ℕ → Bool) : ∃ b g', reduce n (n + 1) ∅ g = some (b, g') ∧
    (b = true ↔ Cyclic n g) ∧ (Cyclic n g' ↔ Cyclic n g) :=
  reduce_cyclic (n + 1) ∅ g (Finset.empty_subset _) (by simp) (by simp)

/-! What is left. -/

/-- A cycle leads to the node. -/
def FromCycle (n : ℕ) (g : ℕ → ℕ → Bool) (a : ℕ) : Prop :=
  ∃ x, TransGen (Edge n g) x x ∧ TransGen (Edge n g) x a

theorem FromCycle.edge {a b : ℕ} (h : FromCycle n g a) (hab : Edge n g a b) : FromCycle n g b := by
  obtain ⟨x, hx, hxa⟩ := h
  exact ⟨x, hx, hxa.tail hab⟩

theorem fromCycle_removeRow (hfree : ∀ a, ¬Edge n g a i) {a : ℕ} :
    FromCycle n (removeRow i g) a ↔ FromCycle n g a := by
  constructor
  · rintro ⟨x, hx, hxa⟩
    exact ⟨x, transGen_of_removeRow hx, transGen_of_removeRow hxa⟩
  · rintro ⟨x, hx, hxa⟩
    have hne := ne_of_cycle hfree hx
    exact ⟨x, transGen_removeRow hfree hne hx, transGen_removeRow hfree hne hxa⟩

/-- Going back from a node, where every node of a set has a predecessor in the set, leads to
a cycle. -/
theorem fromCycle_of_pred (S : Finset ℕ) (hpred : ∀ b ∈ S, ∃ a ∈ S, Edge n g a b) {b : ℕ}
    (hb : b ∈ S) : FromCycle n g b := by
  classical
  let R := fun x y => Edge n g x y ∧ TransGen (Edge n g) y b
  obtain ⟨a, ha, hab⟩ := hpred b hb
  obtain ⟨x, hx⟩ : ∃ x, TransGen R x x := by
    apply Cycle.exists_cycle (S.filter fun x => TransGen (Edge n g) x b)
    · exact ⟨a, Finset.mem_filter.2 ⟨ha, .single hab⟩⟩
    · intro y hy
      obtain ⟨hyS, hyb⟩ := Finset.mem_filter.1 hy
      obtain ⟨z, hz, hzy⟩ := hpred y hyS
      exact ⟨z, Finset.mem_filter.2 ⟨hz, .head hzy hyb⟩, hzy, hyb⟩
  obtain ⟨z, -, hz⟩ := TransGen.tail'_iff.1 hx
  exact ⟨x, TransGen.mono (fun _ _ h => h.1) _ _ hx, hz.2⟩

/-- The edges left are those a cycle leads to. -/
theorem reduce_edge_iff (fuel : ℕ) : ∀ (deleted : Finset ℕ) (g : ℕ → ℕ → Bool) {b : Bool}
    {g' : ℕ → ℕ → Bool}, deleted ⊆ Finset.range n → (∀ a ∈ deleted, ∀ b, ¬Edge n g a b) →
    reduce n fuel deleted g = some (b, g') →
    ∀ x y, Edge n g' x y ↔ Edge n g x y ∧ FromCycle n g x := by
  induction fuel with
  | zero =>
    intro deleted g b g' _ _ h
    cases h
  | succ fuel ih =>
    intro deleted g b g' hsub hrow h x y
    rw [reduce] at h
    by_cases hcard : deleted.card = n
    · rw [if_pos hcard] at h
      cases h
      have hall : deleted = Finset.range n :=
        Finset.eq_of_subset_of_card_le hsub (by rw [Finset.card_range, hcard])
      have hnone : ¬Edge n g x y := fun hxy =>
        hrow x (by rw [hall, Finset.mem_range]; exact hxy.1) y hxy
      exact ⟨fun hxy => absurd hxy hnone, fun hxy => hxy.1⟩
    rw [if_neg hcard] at h
    cases hfree : firstFree n g deleted with
    | none =>
      rw [hfree] at h
      cases h
      refine ⟨fun hxy => ⟨hxy, ?_⟩, fun hxy => hxy.1⟩
      apply fromCycle_of_pred (Finset.range n \ deleted)
      · intro z hz
        rw [Finset.mem_sdiff, Finset.mem_range] at hz
        obtain ⟨a, ha⟩ := firstFree_none hfree hz.1 hz.2
        refine ⟨a, ?_, ha⟩
        rw [Finset.mem_sdiff, Finset.mem_range]
        exact ⟨ha.1, fun had => hrow a had z ha⟩
      · rw [Finset.mem_sdiff, Finset.mem_range]
        exact ⟨hxy.1, fun hd => hrow x hd y hxy⟩
    | some i =>
      rw [hfree] at h
      obtain ⟨hi, hd, hin⟩ := firstFree_some hfree
      have hleft := ih (insert i deleted) (removeRow i g)
        (Finset.insert_subset_iff.2 ⟨Finset.mem_range.2 hi, hsub⟩)
        (fun a ha c hc => by
          obtain ⟨hc, hne⟩ := edge_removeRow.1 hc
          exact hrow a ((Finset.mem_insert.1 ha).resolve_left hne) c hc) h x y
      rw [hleft, fromCycle_removeRow hin, edge_removeRow, and_assoc]
      refine and_congr_right fun _ => and_iff_right_of_imp ?_
      rintro ⟨z, -, hzx⟩ rfl
      obtain ⟨w, -, hw⟩ := TransGen.tail'_iff.1 hzx
      exact hin w hw

/-- A rank that every edge raises. -/
theorem not_cyclic_of_rank (rank : ℕ → ℕ) (h : ∀ a b, Edge n g a b → rank a < rank b) :
    ¬Cyclic n g := by
  rintro ⟨a, ha⟩
  have hrun : ∀ b, TransGen (Edge n g) a b → rank a < rank b := by
    intro b hab
    induction hab with
    | single hab => exact h a _ hab
    | tail _ hbc ih => exact ih.trans (h _ _ hbc)
  exact Nat.lt_irrefl _ (hrun a ha)

end Reduce
