import DbFuzz.Lib.Cycle
import Mathlib.Data.Finset.Basic

/-! Peeling: the elements of a finite set are listed one after the other, each when no element
that is left points to it. -/

namespace Peel

open Relation

variable {α : Type} {R : α → α → Prop} {S rest : Finset α} {sorted : List α}

/-- `sorted` has been taken from `S`, and `rest` is left. -/
structure Peeled (R : α → α → Prop) (S : Finset α) (sorted : List α) (rest : Finset α) : Prop where
  nodup : sorted.Nodup
  apart : ∀ a ∈ sorted, a ∉ rest
  cover : ∀ a, a ∈ S ↔ a ∈ sorted ∨ a ∈ rest
  ordered : sorted.Pairwise fun a b => ¬R b a
  behind : ∀ a ∈ sorted, ∀ b ∈ rest, ¬R b a
  noLoop : ∀ a ∈ sorted, ¬R a a

theorem Peeled.nil (R : α → α → Prop) (S : Finset α) : Peeled R S [] S where
  nodup := List.nodup_nil
  apart := by simp
  cover := by simp
  ordered := List.Pairwise.nil
  behind := by simp
  noLoop := by simp

/-- Taking an element that nothing left points to. -/
theorem Peeled.take [DecidableEq α] {i : α} (h : Peeled R S sorted rest) (hi : i ∈ rest)
    (hfree : ∀ j ∈ rest, ¬R j i) : Peeled R S (sorted ++ [i]) (rest.erase i) where
  nodup := by
    refine List.nodup_append.2 ⟨h.nodup, List.nodup_singleton i, ?_⟩
    rintro a ha b hb rfl
    obtain rfl := List.mem_singleton.1 hb
    exact h.apart a ha hi
  apart := by
    intro a ha hleft
    obtain ⟨hne, hrest⟩ := Finset.mem_erase.1 hleft
    rcases List.mem_append.1 ha with ha | ha
    · exact h.apart a ha hrest
    · exact hne (List.mem_singleton.1 ha)
  cover := by
    intro a
    rw [h.cover, List.mem_append, List.mem_singleton, Finset.mem_erase]
    by_cases hai : a = i
    · subst hai
      simp [hi]
    · simp [hai]
  ordered := by
    refine List.pairwise_append.2 ⟨h.ordered, List.pairwise_singleton _ i, ?_⟩
    intro a ha b hb
    obtain rfl := List.mem_singleton.1 hb
    exact h.behind a ha b hi
  behind := by
    intro a ha b hb
    have hrest := Finset.mem_of_mem_erase hb
    rcases List.mem_append.1 ha with ha | ha
    · exact h.behind a ha b hrest
    · obtain rfl := List.mem_singleton.1 ha
      exact hfree b hrest
  noLoop := by
    intro a ha
    rcases List.mem_append.1 ha with ha | ha
    · exact h.noLoop a ha
    · obtain rfl := List.mem_singleton.1 ha
      exact hfree a hi

/-- What lies behind a listed element is listed before it. -/
theorem Peeled.mem_of_reaches (h : Peeled R S sorted rest) (hR : ∀ a b, R a b → a ∈ S) {a b : α}
    (hab : ReflTransGen R a b) (hb : b ∈ sorted) : a ∈ sorted := by
  induction hab using ReflTransGen.head_induction_on with
  | refl => exact hb
  | head hxy _ ih =>
    rcases (h.cover _).1 (hR _ _ hxy) with hx | hx
    · exact hx
    · exact absurd hxy (h.behind _ ih _ hx)

/-- An element of a cycle is left. -/
theorem Peeled.mem_rest [DecidableEq α] (h : Peeled R S sorted rest) (hR : ∀ a b, R a b → a ∈ S) {a : α}
    (ha : TransGen R a a) : a ∈ rest := by
  have hstart : a ∈ S := by
    obtain ⟨b, hab, -⟩ := TransGen.head'_iff.1 ha
    exact hR a b hab
  rcases (h.cover a).1 hstart with hsorted | hrest
  · -- all of the cycle would be listed
    have hcycle : ∀ x y, (R x y ∧ ReflTransGen R y a) → x ∈ sorted ∧ y ∈ sorted ∧ x ≠ y := by
      rintro x y ⟨hxy, hya⟩
      have hy := h.mem_of_reaches hR hya hsorted
      have hx := h.mem_of_reaches hR (.head hxy hya) hsorted
      exact ⟨hx, hy, fun he => h.noLoop x hx (he ▸ hxy)⟩
    have hpairwise : sorted.Pairwise fun x y => ¬(R y x ∧ ReflTransGen R x a) :=
      h.ordered.imp fun hxy hyx => hxy hyx.1
    refine absurd ?_ (Cycle.acyclic_of_pairwise hpairwise hcycle a)
    have hwalk : ∀ x, TransGen R x a →
        TransGen (fun x y => R x y ∧ ReflTransGen R y a) x a := by
      intro x hx
      induction hx using TransGen.head_induction_on with
      | single hxy => exact .single ⟨hxy, .refl⟩
      | head hxy hya ih => exact ih.head ⟨hxy, hya.to_reflTransGen⟩
    exact hwalk a ha
  · exact hrest

/-- Where every element that is left has a predecessor there, nothing is left if and only if
there is no cycle. -/
theorem Peeled.rest_eq_empty_iff [DecidableEq α] (h : Peeled R S sorted rest)
    (hR : ∀ a b, R a b → a ∈ S)
    (hstuck : ∀ b ∈ rest, ∃ a ∈ rest, R a b) : rest = ∅ ↔ ∀ a, ¬TransGen R a a := by
  constructor
  · rintro rfl a ha
    exact absurd (h.mem_rest hR ha) (Finset.notMem_empty a)
  · intro hacyclic
    by_contra hne
    obtain ⟨a, ha⟩ := Cycle.exists_cycle rest (Finset.nonempty_iff_ne_empty.2 hne) hstuck
    exact hacyclic a ha

end Peel
