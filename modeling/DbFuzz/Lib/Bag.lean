import Mathlib.Data.List.Pairwise
import Mathlib.Data.List.Basic

/-! Lists as bags of values up to an equivalence that a test decides. -/

namespace Bag

variable {α : Type} (same : α → α → Bool)

/-- One member of each class. -/
def distinct (as : List α) : List α := as.pwFilter fun a b => same a b = false

/-- The members of the first list after one partner of each member of the second is gone. -/
def diff (as bs : List α) : List α := bs.foldl (fun as b => as.eraseP (same b)) as

/-- The members of the first list that find a partner of their own in the second. -/
def inter : List α → List α → List α
  | [], _ => []
  | a :: as, bs => if bs.any (same a) then a :: inter as (bs.eraseP (same a)) else inter as bs

/-- The members of the first list with a partner in the second. -/
def matched (as bs : List α) : List α := as.filter fun a => bs.any (same a)

def unmatched (as bs : List α) : List α := as.filter fun a => !bs.any (same a)

variable {same}

section Distinct

variable (h : Equivalence fun a b => same a b = true)

include h

theorem mem_distinct {as : List α} {a : α} (ha : a ∈ as) :
    ∃ b ∈ distinct same as, same a b = true := by
  by_contra hno
  have hfar : ∀ b ∈ distinct same as, same a b = false := by simpa using hno
  rw [distinct, List.forall_mem_pwFilter] at hfar
  · exact absurd (h.refl a) (by simp [hfar a ha])
  · intro x y z hxz
    by_contra hnear
    simp only [not_or, Bool.not_eq_false] at hnear
    exact absurd (h.trans hnear.1 hnear.2) (by simp [hxz])

/-- A property of the classes holds of a bag and of its distinct members alike. -/
theorem exists_distinct {p : α → Prop} (hp : ∀ a b, same a b = true → p a → p b) {as : List α} :
    (∃ a ∈ distinct same as, p a) ↔ ∃ a ∈ as, p a := by
  constructor
  · rintro ⟨a, ha, hpa⟩
    exact ⟨a, List.pwFilter_subset as ha, hpa⟩
  · rintro ⟨a, ha, hpa⟩
    obtain ⟨b, hb, hab⟩ := mem_distinct h ha
    exact ⟨b, hb, hp a b hab hpa⟩

end Distinct

/-! A filter by a property of the classes goes into the operations. -/

section Filter

variable {p : α → Bool} (hp : ∀ a b, same a b = true → p a = p b)

include hp

theorem filter_eraseP (b : α) (as : List α) :
    (as.eraseP (same b)).filter p =
      if p b then (as.filter p).eraseP (same b) else as.filter p := by
  induction as with
  | nil => simp
  | cons a as ih =>
    by_cases hab : same b a = true
    · rw [List.eraseP_cons_of_pos hab, List.filter_cons, ← hp b a hab]
      by_cases hb : p b = true
      · simp [hb, List.eraseP_cons_of_pos, hab]
      · simp [hb]
    · rw [List.eraseP_cons_of_neg hab, List.filter_cons, List.filter_cons, ih]
      by_cases hb : p b = true
      · by_cases ha : p a = true <;> simp [hb, ha, List.eraseP_cons_of_neg, hab]
      · simp [hb]

theorem filter_distinct (as : List α) :
    (distinct same as).filter p = distinct same (as.filter p) := by
  induction as with
  | nil => rfl
  | cons a as ih =>
    by_cases hfar : ∀ b ∈ distinct same as, same a b = false
    · rw [distinct, List.pwFilter_cons_of_pos hfar, ← distinct, List.filter_cons, List.filter_cons,
        ih]
      split
      · rw [distinct, distinct, List.pwFilter_cons_of_pos]
        intro b hb
        rw [← distinct, ← ih] at hb
        exact hfar b (List.mem_of_mem_filter hb)
      · rfl
    · rw [distinct, List.pwFilter_cons_of_neg hfar, ← distinct, List.filter_cons, ih]
      split
      · rename_i ha
        rw [distinct, distinct, List.pwFilter_cons_of_neg]
        simp only [not_forall, Bool.not_eq_false] at hfar ⊢
        obtain ⟨b, hb, hab⟩ := hfar
        refine ⟨b, ?_, hab⟩
        rw [← distinct, ← ih]
        exact List.mem_filter.2 ⟨hb, hp a b hab ▸ ha⟩
      · rfl

theorem filter_diff (as bs : List α) :
    (diff same as bs).filter p = diff same (as.filter p) (bs.filter p) := by
  induction bs generalizing as with
  | nil => rfl
  | cons b bs ih =>
    have hstep : diff same as (b :: bs) = diff same (as.eraseP (same b)) bs := rfl
    rw [hstep, ih, filter_eraseP hp, List.filter_cons]
    split <;> rfl

theorem any_filter {a : α} (ha : p a = true) (bs : List α) :
    (bs.filter p).any (same a) = bs.any (same a) := by
  rw [List.any_filter]
  congr 1
  funext b
  by_cases hab : same a b = true
  · simp [hab, ← hp a b hab, ha]
  · simp [hab]

theorem filter_inter (as bs : List α) :
    (inter same as bs).filter p = inter same (as.filter p) (bs.filter p) := by
  induction as generalizing bs with
  | nil => rfl
  | cons a as ih =>
    by_cases ha : p a = true
    · rw [List.filter_cons_of_pos ha, inter, inter, any_filter hp ha]
      split
      · rw [List.filter_cons_of_pos ha, ih, filter_eraseP hp, if_pos ha]
      · exact ih bs
    · rw [List.filter_cons_of_neg ha, inter]
      split
      · rw [List.filter_cons_of_neg ha, ih, filter_eraseP hp, if_neg ha]
      · exact ih bs

theorem filter_matched (as bs : List α) :
    (matched same as bs).filter p = matched same (as.filter p) (bs.filter p) := by
  rw [matched, matched, List.filter_filter, List.filter_filter]
  apply List.filter_congr
  intro a _
  by_cases ha : p a = true
  · rw [any_filter hp ha, ha, Bool.true_and, Bool.and_true]
  · simp [ha]

theorem filter_unmatched (as bs : List α) :
    (unmatched same as bs).filter p = unmatched same (as.filter p) (bs.filter p) := by
  rw [unmatched, unmatched, List.filter_filter, List.filter_filter]
  apply List.filter_congr
  intro a _
  by_cases ha : p a = true
  · rw [any_filter hp ha, ha, Bool.true_and, Bool.and_true]
  · simp [ha]

end Filter

end Bag
