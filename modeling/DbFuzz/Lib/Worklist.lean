import Mathlib.Data.Finset.Max
import Mathlib.Logic.Relation

/-! Worklist search from one index. The smallest pending index is processed next; what
it leads to is pending unless it was processed before. The search threads a state. -/

namespace Worklist

variable {σ : Type} {R : ℕ → ℕ → Prop} {n a j : ℕ}

/-- `*set.begin()` -/
def first (s : Finset ℕ) : Option ℕ := s.min

theorem first_eq_none {s : Finset ℕ} (h : first s = none) : s = ∅ := Finset.min_eq_top.1 h

theorem first_eq_some {s : Finset ℕ} (h : first s = some a) : a ∈ s := Finset.mem_of_min h

/-- `expand a done s` is the state after the edges of `a` and the targets outside `done`. -/
def search (expand : ℕ → Finset ℕ → σ → σ × Finset ℕ) :
    ℕ → σ → Finset ℕ → Finset ℕ → Option (σ × Finset ℕ)
  | 0, _, _, _ => none
  | fuel + 1, s, pending, done =>
    match first pending with
    | none => some (s, done)
    | some a =>
      let (s', found) := expand a (insert a done) s
      search expand fuel s' (pending.erase a ∪ found) (insert a done)

/-- Everything known is reachable, and what is processed leads to something known. -/
structure Searching (R : ℕ → ℕ → Prop) (n i : ℕ) (pending done : Finset ℕ) : Prop where
  start : i ∈ pending ∪ done
  disjoint : ∀ a ∈ pending, a ∉ done
  bounded : ∀ a ∈ pending ∪ done, a < n
  sound : ∀ a ∈ pending ∪ done, Relation.ReflTransGen R i a
  closed : ∀ a ∈ done, ∀ b, R a b → b ∈ pending ∪ done

theorem Searching.init (R : ℕ → ℕ → Prop) {i : ℕ} (hi : i < n) : Searching R n i {i} ∅ where
  start := by simp
  disjoint := by simp
  bounded := by simpa using hi
  sound := by
    intro a ha
    obtain rfl : a = i := by simpa using ha
    exact .refl
  closed := by simp

theorem Searching.step {i : ℕ} {pending done found : Finset ℕ} (h : Searching R n i pending done)
    (hR : ∀ a b, R a b → b < n) (ha : a ∈ pending)
    (hfound : ∀ b, b ∈ found ↔ b ∉ insert a done ∧ R a b) :
    Searching R n i (pending.erase a ∪ found) (insert a done) := by
  have hknown : ∀ b, b ∈ pending ∪ done → b ∈ pending.erase a ∪ found ∪ insert a done := by
    intro b hb
    simp only [Finset.mem_union, Finset.mem_erase, Finset.mem_insert] at hb ⊢
    by_cases hba : b = a
    · exact Or.inr (Or.inl hba)
    · rcases hb with hb | hb
      · exact Or.inl (Or.inl ⟨hba, hb⟩)
      · exact Or.inr (Or.inr hb)
  have hold : ∀ b, b ∈ pending.erase a ∪ found ∪ insert a done → b ∈ pending ∪ done ∨ R a b := by
    intro b hb
    simp only [Finset.mem_union, Finset.mem_erase, Finset.mem_insert] at hb ⊢
    rcases hb with (⟨-, hb⟩ | hb) | rfl | hb
    · exact Or.inl (Or.inl hb)
    · exact Or.inr ((hfound b).1 hb).2
    · exact Or.inl (Or.inl ha)
    · exact Or.inl (Or.inr hb)
  have hak : a ∈ pending ∪ done := Finset.mem_union_left _ ha
  refine ⟨hknown i h.start, ?_, ?_, ?_, ?_⟩
  · intro b hb
    rcases Finset.mem_union.1 hb with hb | hb
    · obtain ⟨hne, hb⟩ := Finset.mem_erase.1 hb
      simp only [Finset.mem_insert, not_or]
      exact ⟨hne, h.disjoint b hb⟩
    · exact ((hfound b).1 hb).1
  · intro b hb
    rcases hold b hb with hb | hb
    · exact h.bounded b hb
    · exact hR a b hb
  · intro b hb
    rcases hold b hb with hb | hb
    · exact h.sound b hb
    · exact (h.sound a hak).tail hb
  · intro b hb c hbc
    rcases Finset.mem_insert.1 hb with rfl | hb
    · by_cases hc : c ∈ insert b done
      · exact Finset.mem_union_right _ hc
      · exact Finset.mem_union_left _ (Finset.mem_union_right _ ((hfound c).2 ⟨hc, hbc⟩))
    · exact hknown c (h.closed b hb c hbc)

/-- With nothing pending, exactly the reachable indices are processed. -/
theorem Searching.mem_done {i : ℕ} {done : Finset ℕ} (h : Searching R n i ∅ done) :
    j ∈ done ↔ Relation.ReflTransGen R i j := by
  constructor
  · exact fun hj => h.sound j (by simpa using hj)
  · intro hj
    induction hj with
    | refl => simpa using h.start
    | tail _ hbc ih => simpa using h.closed _ ih _ hbc

/-- The search ends, finds what is reachable, and keeps what an expansion keeps. -/
theorem search_spec {expand : ℕ → Finset ℕ → σ → σ × Finset ℕ} {P : σ → Prop}
    (hR : ∀ a b, R a b → b < n)
    (hkeep : ∀ a < n, ∀ done s, P s → P (expand a done s).1)
    (hfound : ∀ a < n, ∀ done s, P s → ∀ b, b ∈ (expand a done s).2 ↔ b ∉ done ∧ R a b)
    {i : ℕ} {s : σ} {pending done : Finset ℕ} (h : Searching R n i pending done) (hs : P s)
    {fuel : ℕ} (hfuel : n < fuel + done.card) :
    ∃ s' result, search expand fuel s pending done = some (s', result) ∧ P s' ∧
      ∀ j, j ∈ result ↔ Relation.ReflTransGen R i j := by
  induction fuel generalizing s pending done with
  | zero =>
    have hsub : done ⊆ Finset.range n := fun a ha =>
      Finset.mem_range.2 (h.bounded a (Finset.mem_union_right _ ha))
    have := Finset.card_le_card hsub
    rw [Finset.card_range] at this
    omega
  | succ fuel ih =>
    rw [search]
    split
    · next hnone =>
      obtain rfl := first_eq_none hnone
      exact ⟨s, done, rfl, hs, fun j => h.mem_done⟩
    · next a hsome =>
      have ha := first_eq_some hsome
      have han : a < n := h.bounded a (Finset.mem_union_left _ ha)
      have hcard : (insert a done).card = done.card + 1 :=
        Finset.card_insert_of_notMem (h.disjoint a ha)
      exact ih (h.step hR ha (hfound a han _ s hs)) (hkeep a han _ s hs) (by omega)

/-- A search that stays in a finite set ends. -/
theorem search_ends {expand : ℕ → Finset ℕ → σ → σ × Finset ℕ} {S : Finset ℕ}
    (hfound : ∀ a done s, ∀ b ∈ (expand a done s).2, b ∉ done ∧ b ∈ S) {fuel : ℕ} {s : σ}
    {pending done : Finset ℕ} (hsub : pending ∪ done ⊆ S) (hdisj : ∀ a ∈ pending, a ∉ done)
    (hfuel : S.card < fuel + done.card) : search expand fuel s pending done ≠ none := by
  induction fuel generalizing s pending done with
  | zero =>
    have := Finset.card_le_card ((Finset.subset_union_right).trans hsub)
    omega
  | succ fuel ih =>
    rw [search]
    split
    · simp
    · next a hsome =>
      have ha := first_eq_some hsome
      have hcard : (insert a done).card = done.card + 1 :=
        Finset.card_insert_of_notMem (hdisj a ha)
      refine ih (fun b hb => ?_) (fun b hb => ?_) (by omega)
      · simp only [Finset.mem_union, Finset.mem_erase, Finset.mem_insert] at hb
        rcases hb with (⟨-, hb⟩ | hb) | rfl | hb
        · exact hsub (Finset.mem_union_left _ hb)
        · exact (hfound a _ s b hb).2
        · exact hsub (Finset.mem_union_left _ ha)
        · exact hsub (Finset.mem_union_right _ hb)
      · rcases Finset.mem_union.1 hb with hb | hb
        · obtain ⟨hne, hb⟩ := Finset.mem_erase.1 hb
          simp only [Finset.mem_insert, not_or]
          exact ⟨hne, hdisj b hb⟩
        · exact (hfound a _ s b hb).1

/-- What is pending or processed is in the result. -/
theorem subset_search {expand : ℕ → Finset ℕ → σ → σ × Finset ℕ} {fuel : ℕ} {s s' : σ}
    {pending done result : Finset ℕ}
    (h : search expand fuel s pending done = some (s', result)) : pending ∪ done ⊆ result := by
  induction fuel generalizing s pending done with
  | zero => cases h
  | succ fuel ih =>
    rw [search] at h
    split at h
    · next hnone =>
      cases h
      rw [first_eq_none hnone, Finset.empty_union]
    · next a hsome =>
      refine Finset.Subset.trans (fun b hb => ?_) (ih h)
      simp only [Finset.mem_union, Finset.mem_erase, Finset.mem_insert] at hb ⊢
      by_cases hba : b = a
      · exact Or.inr (Or.inl hba)
      · rcases hb with hb | hb
        · exact Or.inl (Or.inl ⟨hba, hb⟩)
        · exact Or.inr (Or.inr hb)

/-- Whatever it finds, the search keeps what an expansion keeps. -/
theorem search_keep {expand : ℕ → Finset ℕ → σ → σ × Finset ℕ} {P : σ → Prop}
    (hkeep : ∀ a done s, P s → P (expand a done s).1) {fuel : ℕ} {s s' : σ}
    {pending done result : Finset ℕ} (hs : P s)
    (h : search expand fuel s pending done = some (s', result)) : P s' := by
  induction fuel generalizing s pending done with
  | zero => cases h
  | succ fuel ih =>
    rw [search] at h
    split at h
    · cases h
      exact hs
    · exact ih (hkeep _ _ s hs) h

/-- States that no expansion tells apart lead to the same result. -/
theorem search_congr {expand : ℕ → Finset ℕ → σ → σ × Finset ℕ} {Same : σ → σ → Prop}
    (hsame : ∀ a done s t, Same s t → (expand a done s).2 = (expand a done t).2 ∧
      Same (expand a done s).1 (expand a done t).1) (fuel : ℕ) {s t : σ} (h : Same s t)
    (pending done : Finset ℕ) :
    (search expand fuel s pending done).map Prod.snd =
      (search expand fuel t pending done).map Prod.snd := by
  induction fuel generalizing s t pending done with
  | zero => rfl
  | succ fuel ih =>
    rw [search, search]
    split
    · rfl
    · next a _ =>
      obtain ⟨hfound, hnext⟩ := hsame a (insert a done) s t h
      dsimp only
      rw [hfound]
      exact ih hnext _ _

end Worklist
