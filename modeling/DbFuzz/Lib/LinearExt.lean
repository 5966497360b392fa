import Mathlib.Data.Finset.Basic
import Mathlib.Data.List.Nodup
import Mathlib.Data.List.Infix

/-! The orders of a finite set that respect a relation, listed by the choice of the first
element. -/

namespace LinearExt

variable {α : Type} [DecidableEq α] {R : α → α → Prop} {S T : Finset α} {a : α} {l : List α}

/-- The elements of `S` in an order without an edge backwards. -/
structure Extension (R : α → α → Prop) (S : Finset α) (l : List α) : Prop where
  nodup : l.Nodup
  mem : ∀ a, a ∈ l ↔ a ∈ S
  ordered : l.Pairwise fun a b => ¬R b a

/-- An element that can come first. -/
def Free (R : α → α → Prop) (S : Finset α) (a : α) : Prop :=
  a ∈ S ∧ ∀ b ∈ S, b ≠ a → ¬R b a

omit [DecidableEq α] in
theorem extension_nil : Extension R S [] ↔ S = ∅ := by
  constructor
  · intro h
    exact Finset.eq_empty_iff_forall_notMem.2 fun a ha => List.not_mem_nil ((h.mem a).2 ha)
  · rintro rfl
    exact ⟨List.nodup_nil, by simp, List.Pairwise.nil⟩

theorem extension_cons : Extension R S (a :: l) ↔ Free R S a ∧ Extension R (S.erase a) l := by
  constructor
  · rintro ⟨hnodup, hmem, hordered⟩
    obtain ⟨hal, hl⟩ := List.nodup_cons.1 hnodup
    obtain ⟨hfirst, hrest⟩ := List.pairwise_cons.1 hordered
    refine ⟨⟨(hmem a).1 List.mem_cons_self, fun b hb hne => hfirst b ?_⟩, hl, fun b => ?_, hrest⟩
    · exact ((hmem b).2 hb |> List.mem_cons.1).resolve_left hne
    · rw [Finset.mem_erase, ← hmem, List.mem_cons]
      constructor
      · intro hb
        exact ⟨fun he => hal (he ▸ hb), Or.inr hb⟩
      · rintro ⟨hne, hb⟩
        exact hb.resolve_left hne
  · rintro ⟨⟨haS, hfree⟩, hnodup, hmem, hordered⟩
    refine ⟨List.nodup_cons.2 ⟨fun hal => ?_, hnodup⟩, fun b => ?_,
      List.pairwise_cons.2 ⟨fun b hb => ?_, hordered⟩⟩
    · exact Finset.ne_of_mem_erase ((hmem a).1 hal) rfl
    · rw [List.mem_cons, hmem, Finset.mem_erase]
      by_cases hba : b = a
      · subst hba
        simp [haS]
      · simp [hba]
    · obtain ⟨hne, hbS⟩ := Finset.mem_erase.1 ((hmem b).1 hb)
      exact hfree b hbS hne

omit [DecidableEq α] in
/-- One order gives every part an element that can come first. -/
theorem Extension.exists_free (h : Extension R S l) (hsub : T ⊆ S) (hne : T.Nonempty) :
    ∃ a, Free R T a := by
  obtain ⟨-, hmem, hordered⟩ := h
  have hall : ∀ a ∈ T, a ∈ l := fun a ha => (hmem a).2 (hsub ha)
  clear hmem
  induction hordered with
  | nil =>
    obtain ⟨a, ha⟩ := hne
    cases hall a ha
  | @cons a l hfirst _ ih =>
    by_cases ha : a ∈ T
    · exact ⟨a, ha, fun b hb hba => hfirst b ((List.mem_cons.1 (hall b hb)).resolve_left hba)⟩
    · refine ih fun b hb => (List.mem_cons.1 (hall b hb)).resolve_left ?_
      rintro rfl
      exact ha hb

/-- All orders, each of them once. -/
structure Enumerates (R : α → α → Prop) (S : Finset α) (ls : List (List α)) : Prop where
  nodup : ls.Nodup
  mem : ∀ l, l ∈ ls ↔ Extension R S l

omit [DecidableEq α] in
theorem Enumerates.empty (R : α → α → Prop) : Enumerates R ∅ [[]] := by
  refine ⟨List.nodup_singleton _, fun l => ?_⟩
  rw [List.mem_singleton]
  constructor
  · rintro rfl
    exact extension_nil.2 rfl
  · intro h
    refine List.eq_nil_iff_forall_not_mem.2 fun a ha => ?_
    exact Finset.notMem_empty a ((h.mem a).1 ha)

/-- The orders of a set from those of what each free element leaves. -/
theorem Enumerates.flatMap {free : List (α × List (List α))} (hne : S.Nonempty)
    (hnodup : (free.map Prod.fst).Nodup) (hfree : ∀ a, a ∈ free.map Prod.fst ↔ Free R S a)
    (hls : ∀ e ∈ free, Enumerates R (S.erase e.1) e.2) :
    Enumerates R S (free.flatMap fun e => e.2.map (e.1 :: ·)) := by
  rw [List.nodup_iff_pairwise_ne, List.pairwise_map] at hnodup
  refine ⟨List.nodup_flatMap.2 ⟨fun e he => ?_, hnodup.imp fun {e e'} hne => ?_⟩, fun l => ?_⟩
  · exact (hls e he).nodup.map List.cons_injective
  · rw [Function.onFun_apply, List.disjoint_left]
    intro l hl hl'
    obtain ⟨x, -, rfl⟩ := List.mem_map.1 hl
    obtain ⟨y, -, hxy⟩ := List.mem_map.1 hl'
    exact hne (List.cons.inj hxy).1.symm
  · rw [List.mem_flatMap]
    constructor
    · rintro ⟨e, he, hl⟩
      obtain ⟨x, hx, rfl⟩ := List.mem_map.1 hl
      exact extension_cons.2 ⟨(hfree e.1).1 (List.mem_map_of_mem he), ((hls e he).mem x).1 hx⟩
    · intro h
      cases l with
      | nil =>
        rw [extension_nil.1 h] at hne
        exact absurd hne Finset.not_nonempty_empty
      | cons a l =>
        obtain ⟨ha, hl⟩ := extension_cons.1 h
        obtain ⟨e, he, rfl⟩ := List.mem_map.1 ((hfree a).2 ha)
        exact ⟨e, he, List.mem_map.2 ⟨l, ((hls e he).mem l).2 hl, rfl⟩⟩

end LinearExt
