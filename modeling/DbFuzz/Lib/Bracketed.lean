import Mathlib.Data.List.Basic

/-! Lists with a first and a last element of their own kinds. -/

/-- The first element meets `first`, the last one `last`, and all but the last `inner`. -/
def Bracketed {α : Type} (first last inner : α → Prop) (l : List α) : Prop :=
  ∃ b mid e, l = b :: (mid ++ [e]) ∧ first b ∧ last e ∧ ∀ x ∈ b :: mid, inner x

namespace Bracketed

variable {α β : Type} {P P' Q Q' R R' : α → Prop} {l : List α}

theorem map_iff {P Q R : β → Prop} (f : α → β) :
    Bracketed P Q R (l.map f) ↔ Bracketed (P ∘ f) (Q ∘ f) (R ∘ f) l := by
  constructor
  · rintro ⟨b, mid, e, hl, hb, he, hinner⟩
    obtain ⟨b, rest, rfl, rfl, hrest⟩ := List.map_eq_cons_iff.1 hl
    obtain ⟨mid, last, rfl, rfl, hlast⟩ := List.map_eq_append_iff.1 hrest
    obtain ⟨e, rfl, rfl⟩ := List.map_eq_singleton_iff.1 hlast
    refine ⟨b, mid, e, rfl, hb, he, fun x hx => hinner (f x) ?_⟩
    rw [← List.map_cons]
    exact List.mem_map_of_mem hx
  · rintro ⟨b, mid, e, rfl, hb, he, hinner⟩
    refine ⟨f b, mid.map f, f e, by simp, hb, he, ?_⟩
    rw [← List.map_cons]
    intro y hy
    obtain ⟨x, hx, rfl⟩ := List.mem_map.1 hy
    exact hinner x hx

/-- An element that is no inner one is the last. -/
theorem imp (h : Bracketed P Q R l) (hfirst : ∀ x ∈ l, P x → R x → P' x)
    (hinner : ∀ x ∈ l, R x → R' x) (hlast : ∀ x ∈ l, Q x → (∀ y ∈ l, R y ∨ y = x) → Q' x) :
    Bracketed P' Q' R' l := by
  obtain ⟨b, mid, e, rfl, hb, he, hmid⟩ := h
  have hsub : ∀ x ∈ b :: mid, x ∈ b :: (mid ++ [e]) := by
    intro x hx
    rw [← List.cons_append]
    exact List.mem_append_left _ hx
  refine ⟨b, mid, e, rfl, hfirst b List.mem_cons_self hb (hmid b List.mem_cons_self),
    hlast e (by simp) he fun y hy => ?_, fun x hx => hinner x (hsub x hx) (hmid x hx)⟩
  rw [← List.cons_append] at hy
  rcases List.mem_append.1 hy with hy | hy
  · exact Or.inl (hmid y hy)
  · exact Or.inr (List.mem_singleton.1 hy)

theorem filter (h : Bracketed P Q R l) {keep : α → Bool}
    (hfirst : ∀ x ∈ l, P x → R x → keep x = true) (hlast : ∀ x ∈ l, Q x → keep x = true) :
    Bracketed P Q R (l.filter keep) := by
  obtain ⟨b, mid, e, rfl, hb, he, hmid⟩ := h
  have hbkeep := hfirst b List.mem_cons_self hb (hmid b List.mem_cons_self)
  have hekeep := hlast e (by simp) he
  refine ⟨b, mid.filter keep, e, ?_, hb, he, ?_⟩
  · rw [List.filter_cons_of_pos hbkeep, List.filter_append, List.filter_cons_of_pos hekeep,
      List.filter_nil]
  · intro x hx
    rcases List.mem_cons.1 hx with rfl | hx
    · exact hmid x List.mem_cons_self
    · exact hmid x (List.mem_cons_of_mem b (List.mem_filter.1 hx).1)

/-- The ends are replaced by one element each. -/
theorem flatMap {P' Q' R' : β → Prop} (h : Bracketed P Q R l) {f : α → List β}
    (hfirst : ∀ x ∈ l, P x → R x → ∃ y, f x = [y] ∧ P' y)
    (hinner : ∀ x ∈ l, R x → ∀ y ∈ f x, R' y)
    (hlast : ∀ x ∈ l, Q x → ∃ y, f x = [y] ∧ Q' y) : Bracketed P' Q' R' (l.flatMap f) := by
  obtain ⟨b, mid, e, rfl, hb, he, hmid⟩ := h
  obtain ⟨b', hb', hfirst'⟩ := hfirst b List.mem_cons_self hb (hmid b List.mem_cons_self)
  obtain ⟨e', he', hlast'⟩ := hlast e (by simp) he
  refine ⟨b', mid.flatMap f, e', ?_, hfirst', hlast', ?_⟩
  · rw [List.flatMap_cons, List.flatMap_append, List.flatMap_singleton, hb', he']
    rfl
  · intro y hy
    rcases List.mem_cons.1 hy with rfl | hy
    · exact hinner b List.mem_cons_self (hmid b List.mem_cons_self) y (by rw [hb']; simp)
    · obtain ⟨x, hx, hy⟩ := List.mem_flatMap.1 hy
      exact hinner x (by simp [hx]) (hmid x (List.mem_cons_of_mem b hx)) y hy

theorem zipIdx (h : Bracketed P Q R l) : Bracketed (fun x => P x.1 ∧ x.2 = 0)
    (fun x => Q x.1 ∧ x.2 + 1 = l.length) (fun x => R x.1) l.zipIdx := by
  obtain ⟨b, mid, e, rfl, hb, he, hmid⟩ := h
  refine ⟨(b, 0), mid.zipIdx 1, (e, mid.length + 1), ?_, ⟨hb, rfl⟩, ⟨he, by simp⟩, ?_⟩
  · rw [List.zipIdx_cons, List.zipIdx_append, List.zipIdx_singleton, Nat.add_comm mid.length]
  · intro x hx
    rcases List.mem_cons.1 hx with rfl | hx
    · exact hmid b List.mem_cons_self
    · exact hmid x.1 (List.mem_cons_of_mem b (List.fst_mem_of_mem_zipIdx hx))

theorem head (h : Bracketed P Q R l) : ∃ x, l.head? = some x ∧ P x := by
  obtain ⟨b, mid, e, rfl, hb, -, -⟩ := h
  exact ⟨b, rfl, hb⟩

theorem getLast (h : Bracketed P Q R l) : ∃ x, l.getLast? = some x ∧ Q x := by
  obtain ⟨b, mid, e, rfl, -, he, -⟩ := h
  refine ⟨e, ?_, he⟩
  rw [← List.cons_append, List.getLast?_concat]

theorem zero (h : Bracketed P Q R l) (x : α) (hx : l[0]? = some x) : P x := by
  obtain ⟨y, hy, hP⟩ := h.head
  rw [List.head?_eq_getElem?, hx] at hy
  cases hy
  exact hP

theorem pred_length (h : Bracketed P Q R l) (x : α) (hx : l[l.length - 1]? = some x) : Q x := by
  obtain ⟨y, hy, hQ⟩ := h.getLast
  rw [List.getLast?_eq_getElem?, hx] at hy
  cases hy
  exact hQ

end Bracketed
