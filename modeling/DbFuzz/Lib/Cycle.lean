import Mathlib.Data.Fintype.EquivFin
import Mathlib.Data.Fintype.Card
import Mathlib.Data.List.Flatten
import Mathlib.Logic.Relation

/-! Cycles of a relation and orders listed against it. -/

namespace Cycle

open Relation

variable {α : Type} {R : α → α → Prop}

/-- Where every element has a predecessor, there is a cycle. -/
theorem exists_cycle (S : Finset α) (hne : S.Nonempty) (hpred : ∀ b ∈ S, ∃ a ∈ S, R a b) :
    ∃ a, TransGen R a a := by
  by_contra hacyclic
  have hfinite : Finite S := inferInstance
  have hirrefl : Std.Irrefl fun a b : S => TransGen R a b := ⟨fun a ha => hacyclic ⟨a, ha⟩⟩
  have htrans : IsTrans S fun a b => TransGen R a b := ⟨fun _ _ _ h h' => h.trans h'⟩
  have hwf : WellFounded fun a b : S => TransGen R a b := Finite.wellFounded_of_trans_of_irrefl _
  -- no element can be the last one on the way back
  have hnone : ∀ b : S, False := by
    intro b
    induction b using hwf.induction with
    | _ b ih =>
      obtain ⟨a, ha, hab⟩ := hpred b b.2
      exact ih ⟨a, ha⟩ (TransGen.single hab)
  obtain ⟨b, hb⟩ := hne
  exact hnone ⟨b, hb⟩

/-- A walk in two relations stays in the first one, or takes a step of the second. -/
theorem transGen_or {S : α → α → Prop} {a b : α}
    (h : TransGen (fun x y => R x y ∨ S x y) a b) : TransGen R a b ∨
      ∃ x y, ReflTransGen (fun x y => R x y ∨ S x y) a x ∧ S x y ∧
        ReflTransGen (fun x y => R x y ∨ S x y) y b := by
  induction h with
  | single h =>
    rcases h with h | h
    · exact Or.inl (.single h)
    · exact Or.inr ⟨a, _, .refl, h, .refl⟩
  | tail hab hbc ih =>
    rcases ih with ih | ⟨x, y, hax, hxy, hyb⟩
    · rcases hbc with h | h
      · exact Or.inl (ih.tail h)
      · exact Or.inr ⟨_, _, hab.to_reflTransGen, h, .refl⟩
    · exact Or.inr ⟨x, y, hax, hxy, hyb.tail hbc⟩

/-- A walk with one more edge takes this edge, first and last time, or does not. -/
theorem transGen_insert {u v a b : α}
    (h : TransGen (fun x y => R x y ∨ x = u ∧ y = v) a b) :
    TransGen R a b ∨ ReflTransGen R a u ∧ ReflTransGen R v b := by
  induction h with
  | single h =>
    rcases h with h | ⟨rfl, rfl⟩
    · exact Or.inl (.single h)
    · exact Or.inr ⟨.refl, .refl⟩
  | tail _ hbc ih =>
    rcases hbc with h | ⟨rfl, rfl⟩
    · rcases ih with ih | ⟨hau, hvb⟩
      · exact Or.inl (ih.tail h)
      · exact Or.inr ⟨hau, hvb.tail h⟩
    · rcases ih with ih | ⟨hau, -⟩
      · exact Or.inr ⟨ih.to_reflTransGen, .refl⟩
      · exact Or.inr ⟨hau, .refl⟩

/-- A cycle with one more edge is one without it, or the edge closes a walk. -/
theorem cycle_insert {u v : α} :
    (∃ a, TransGen (fun x y => R x y ∨ x = u ∧ y = v) a a) ↔
      (∃ a, TransGen R a a) ∨ ReflTransGen R v u := by
  constructor
  · rintro ⟨a, ha⟩
    rcases transGen_insert ha with h | ⟨hau, hva⟩
    · exact Or.inl ⟨a, h⟩
    · exact Or.inr (hva.trans hau)
  · rintro (⟨a, ha⟩ | h)
    · exact ⟨a, TransGen.mono (fun _ _ => Or.inl) _ _ ha⟩
    · exact ⟨u, TransGen.head' (Or.inr ⟨rfl, rfl⟩) (ReflTransGen.mono (fun _ _ => Or.inl) _ _ h)⟩

theorem idxOf_lt [DecidableEq α] {l : List α} (hl : l.Pairwise fun a b => ¬ R b a) {a b : α}
    (ha : a ∈ l) (hb : b ∈ l) (hne : a ≠ b) (hR : R a b) : l.idxOf a < l.idxOf b := by
  have hia := List.idxOf_lt_length_iff.2 ha
  have hib := List.idxOf_lt_length_iff.2 hb
  rcases Nat.lt_trichotomy (l.idxOf a) (l.idxOf b) with h | h | h
  · exact h
  · refine absurd ?_ hne
    rw [← List.getElem_idxOf hia, ← List.getElem_idxOf hib]
    simp only [h]
  · have := List.pairwise_iff_getElem.1 hl _ _ hib hia h
    rw [List.getElem_idxOf, List.getElem_idxOf] at this
    exact absurd hR this

/-- A relation between distinct members of a list that never points backwards. -/
theorem acyclic_of_pairwise [DecidableEq α] {l : List α} (hl : l.Pairwise fun a b => ¬ R b a)
    (hR : ∀ a b, R a b → a ∈ l ∧ b ∈ l ∧ a ≠ b) (a : α) : ¬ TransGen R a a := by
  have hstep : ∀ a b, R a b → l.idxOf a < l.idxOf b := by
    intro a b hab
    obtain ⟨ha, hb, hne⟩ := hR a b hab
    exact idxOf_lt hl ha hb hne hab
  have hrun : ∀ b, TransGen R a b → l.idxOf a < l.idxOf b := by
    intro b hab
    induction hab with
    | single h => exact hstep _ _ h
    | tail _ h ih => exact ih.trans (hstep _ _ h)
  exact fun h => Nat.lt_irrefl _ (hrun a h)

theorem pair_sublist {l : List α} (hl : l.Pairwise fun a b => ¬ R b a) {a b : α} (ha : a ∈ l)
    (hb : b ∈ l) (hne : a ≠ b) (hR : R a b) : [a, b].Sublist l := by
  induction hl with
  | nil => cases ha
  | cons hc _ ih =>
    rcases List.mem_cons.1 ha with rfl | ha'
    · rcases List.mem_cons.1 hb with rfl | hb'
      · exact absurd rfl hne
      · exact List.Sublist.cons_cons _ (List.singleton_sublist.2 hb')
    · rcases List.mem_cons.1 hb with rfl | hb'
      · exact absurd hR (hc a ha')
      · exact (ih ha' hb').cons _

end Cycle
