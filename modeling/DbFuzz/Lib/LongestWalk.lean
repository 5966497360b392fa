import Mathlib.Data.Finset.Insert
import Mathlib.Algebra.Order.Group.Int
import Mathlib.Algebra.Ring.Int.Defs
import Mathlib.Data.Nat.Cast.Basic
import Mathlib.Tactic.Common

/-! Longest walks of a weighted graph, from a table with a length and a predecessor for every
element that is done. -/

namespace LongestWalk

variable {α ι : Type} {w : α → α → Option ℤ} {p : List α} {x y : α} {n m : ℤ}

/-- A walk with its last element and its weight. -/
inductive Walk (w : α → α → Option ℤ) : List α → α → ℤ → Prop
  | single (x : α) : Walk w [x] x 0
  | snoc {p : List α} {x y : α} {n m : ℤ} (h : Walk w p x n) (hxy : w x y = some m) :
    Walk w (p ++ [y]) y (n + m)

theorem Walk.last_mem (h : Walk w p x n) : x ∈ p := by
  cases h <;> simp

/-- Bounded edges bound the walks. -/
theorem Walk.add_le {b : ℤ} (hle : ∀ x y m, w x y = some m → m ≤ b) (h : Walk w p x n) :
    n + b ≤ b * p.length := by
  induction h with
  | single => simp
  | snoc _ hxy ih =>
    have := hle _ _ _ hxy
    rw [List.length_append, List.length_singleton, Nat.cast_add, Nat.cast_one, mul_add, mul_one]
    omega

/-- A walk inside `S` that no other one outweighs; empty if none weighs more than 0. -/
def IsLongest (w : α → α → Option ℤ) (S : α → Prop) (p : List α) : Prop :=
  ∃ n, (p = [] ∧ n = 0 ∨ ∃ x, Walk w p x n) ∧ (∀ a ∈ p, S a) ∧
    ∀ p' x' n', Walk w p' x' n' → (∀ a ∈ p', S a) → n' ≤ n

/-- A walk along the predecessors of the table. -/
inductive DadWalk (w : α → α → Option ℤ) (done : Finset α) (dad : α → α) (root : α) :
    List α → α → ℤ → Prop
  | start {y : α} (hy : y ∈ done) (hdad : dad y = root) : DadWalk w done dad root [y] y 0
  | snoc {p : List α} {x y : α} {n m : ℤ} (h : DadWalk w done dad root p x n) (hy : y ∈ done)
    (hnew : y ∉ p) (hdad : dad y = x) (hxy : w x y = some m) :
    DadWalk w done dad root (p ++ [y]) y (n + m)

section DadWalk

variable {done done' : Finset α} {dad dad' : α → α} {root : α}

theorem DadWalk.walk (h : DadWalk w done dad root p y n) : Walk w p y n := by
  induction h with
  | start => exact .single _
  | snoc _ _ _ _ hxy ih => exact ih.snoc hxy

theorem DadWalk.mem_done (h : DadWalk w done dad root p y n) : ∀ a ∈ p, a ∈ done := by
  induction h with
  | start hy => simpa using hy
  | snoc _ hy _ _ _ ih =>
    intro a ha
    rcases List.mem_append.1 ha with ha | ha
    · exact ih a ha
    · rw [List.mem_singleton.1 ha]
      exact hy

theorem DadWalk.nodup (h : DadWalk w done dad root p y n) : p.Nodup := by
  induction h with
  | start => simp
  | snoc _ _ hnew _ _ ih => exact List.nodup_append.2 ⟨ih, by simp, by
      rintro a ha b hb rfl
      exact hnew (List.mem_singleton.1 hb ▸ ha)⟩

/-- The table may change outside the walk. -/
theorem DadWalk.congr (h : DadWalk w done dad root p y n) (hdone : ∀ a ∈ done, a ∈ done')
    (hdad : ∀ a ∈ done, dad' a = dad a) : DadWalk w done' dad' root p y n := by
  induction h with
  | start hy hroot => exact .start (hdone _ hy) ((hdad _ hy).trans hroot)
  | snoc _ hy hnew hx hxy ih => exact ih.snoc (hdone _ hy) hnew ((hdad _ hy).trans hx) hxy

end DadWalk

/-- The lengths of the elements that are done are the weights of longest walks to them. -/
structure Table (w : α → α → Option ℤ) (S : α → Prop) (done : Finset α) (len : α → ℤ)
    (dad : α → α) (root : α) : Prop where
  inside : ∀ y ∈ done, S y
  nonneg : ∀ y ∈ done, 0 ≤ len y
  closed : ∀ y ∈ done, ∀ x m, S x → w x y = some m → x ∈ done ∧ len x + m ≤ len y
  walk : ∀ y ∈ done, ∃ p, DadWalk w done dad root p y (len y)

namespace Table

variable {S S' : α → Prop} {done : Finset α} {len : α → ℤ} {dad : α → α} {root : α}

theorem empty (w : α → α → Option ℤ) (S : α → Prop) (len : α → ℤ) (dad : α → α) (root : α) :
    Table w S ∅ len dad root :=
  ⟨by simp, by simp, by simp, by simp⟩

/-- Elements that are not done may be removed. -/
theorem mono (h : Table w S done len dad root) (hsub : ∀ a, S' a → S a)
    (hdone : ∀ y ∈ done, S' y) : Table w S' done len dad root where
  inside := hdone
  nonneg := h.nonneg
  closed y hy x m hx := h.closed y hy x m (hsub x hx)
  walk := h.walk

/-- No walk to an element weighs more than its length. -/
theorem weight_le (h : Table w S done len dad root) (hwalk : Walk w p x n) (hp : ∀ a ∈ p, S a)
    (hx : x ∈ done) : n ≤ len x := by
  induction hwalk with
  | single => exact h.nonneg _ hx
  | snoc hpre hxy ih =>
    have hpre' := fun a ha => hp a (List.mem_append_left _ ha)
    obtain ⟨hdone, hle⟩ := h.closed _ hx _ _ (hpre' _ hpre.last_mem) hxy
    have := ih hpre' hdone
    omega

/-- The next element, with the longest way over its predecessors. -/
theorem insert [DecidableEq α] (h : Table w S done len dad root) {z d : α} {b : ℤ} (hz : z ∉ done)
    (hS : S z) (hpred : ∀ x m, S x → w x z = some m → x ∈ done ∧ len x + m ≤ b) (hb : 0 ≤ b)
    (hbest : d = root ∧ b = 0 ∨ d ∈ done ∧ ∃ m, w d z = some m ∧ b = len d + m) :
    Table w S (insert z done) (fun x => if x = z then b else len x)
      (fun x => if x = z then d else dad x) root := by
  have hne : ∀ y ∈ done, y ≠ z := fun y hy heq => hz (heq ▸ hy)
  have hkeep : ∀ y ∈ done, ∀ p n, DadWalk w done dad root p y n →
      DadWalk w (Insert.insert z done) (fun x => if x = z then d else dad x) root p y n :=
    fun y _ p n hp => hp.congr (fun a ha => Finset.mem_insert_of_mem ha)
      (fun a ha => if_neg (hne a ha))
  refine ⟨?_, ?_, ?_, ?_⟩
  · intro y hy
    rcases Finset.mem_insert.1 hy with rfl | hy
    · exact hS
    · exact h.inside y hy
  · intro y hy
    rcases Finset.mem_insert.1 hy with rfl | hy
    · rw [if_pos rfl]
      exact hb
    · rw [if_neg (hne y hy)]
      exact h.nonneg y hy
  · intro y hy x m hx hxy
    rcases Finset.mem_insert.1 hy with rfl | hy
    · obtain ⟨hdone, hle⟩ := hpred x m hx hxy
      rw [if_pos rfl, if_neg (hne x hdone)]
      exact ⟨Finset.mem_insert_of_mem hdone, hle⟩
    · obtain ⟨hdone, hle⟩ := h.closed y hy x m hx hxy
      rw [if_neg (hne y hy), if_neg (hne x hdone)]
      exact ⟨Finset.mem_insert_of_mem hdone, hle⟩
  · intro y hy
    rcases Finset.mem_insert.1 hy with rfl | hy
    · rw [if_pos rfl]
      rcases hbest with ⟨rfl, rfl⟩ | ⟨hd, m, hdz, rfl⟩
      · exact ⟨[y], .start hy (if_pos rfl)⟩
      · obtain ⟨p, hp⟩ := h.walk d hd
        exact ⟨p ++ [y], (hkeep d hd p _ hp).snoc hy (fun hmem => hz (hp.mem_done _ hmem))
          (if_pos rfl) hdz⟩
    · obtain ⟨p, hp⟩ := h.walk y hy
      rw [if_neg (hne y hy)]
      exact ⟨p, hkeep y hy p _ hp⟩

/-- When everything is done, no walk at all outweighs the empty one, or the walk to an element
of the greatest length is a longest one. -/
theorem isLongest_nil (h : Table w S done len dad root) (hall : ∀ a, S a → a ∈ done)
    (hle : ∀ y ∈ done, len y ≤ 0) : IsLongest w S [] := by
  refine ⟨0, Or.inl ⟨rfl, rfl⟩, by simp, fun p x n hp hS => ?_⟩
  have hx := hall x (hS x hp.last_mem)
  exact (h.weight_le hp hS hx).trans (hle x hx)

theorem isLongest_dadWalk (h : Table w S done len dad root) (hall : ∀ a, S a → a ∈ done)
    (hle : ∀ y ∈ done, len y ≤ len x) (hp : DadWalk w done dad root p x (len x)) :
    IsLongest w S p := by
  refine ⟨len x, Or.inr ⟨x, hp.walk⟩, fun a ha => h.inside a (hp.mem_done a ha), ?_⟩
  intro p' x' n' hp' hS
  have hx := hall x' (hS x' hp'.last_mem)
  exact (h.weight_le hp' hS hx).trans (hle x' hx)

end Table

/-! The greatest value of a scan. -/

/-- A scan that keeps the first of the greatest values. -/
theorem foldl_best {f : ℤ × α → ι → ℤ × α} {val : ι → Option (ℤ × α)}
    (hnone : ∀ cur i, val i = none → f cur i = cur)
    (hsome : ∀ cur i v, val i = some v → f cur i = if cur.1 < v.1 then v else cur)
    (l : List ι) (c : ℤ × α) :
    c.1 ≤ (l.foldl f c).1 ∧ (∀ i ∈ l, ∀ v, val i = some v → v.1 ≤ (l.foldl f c).1) ∧
      (l.foldl f c = c ∨ ∃ i ∈ l, val i = some (l.foldl f c)) := by
  induction l generalizing c with
  | nil => simp
  | cons i l ih =>
    obtain ⟨h1, h2, h3⟩ := ih (f c i)
    rw [List.foldl_cons]
    have hrest : l.foldl f (f c i) = f c i ∨ ∃ j ∈ i :: l, val j = some (l.foldl f (f c i)) :=
      h3.imp_right fun ⟨j, hj, hv⟩ => ⟨j, List.mem_cons_of_mem i hj, hv⟩
    cases hval : val i with
    | none =>
      have heq := hnone c i hval
      rw [heq] at h1 h2 hrest ⊢
      refine ⟨h1, fun j hj v hv => ?_, hrest⟩
      rcases List.mem_cons.1 hj with rfl | hj
      · rw [hval] at hv
        cases hv
      · exact h2 j hj v hv
    | some v =>
      have heq := hsome c i v hval
      have hle : c.1 ≤ (f c i).1 ∧ v.1 ≤ (f c i).1 ∧ (f c i = c ∨ f c i = v) := by
        rw [heq]
        split_ifs with hlt
        · exact ⟨hlt.le, le_rfl, Or.inr rfl⟩
        · exact ⟨le_rfl, not_lt.1 hlt, Or.inl rfl⟩
      refine ⟨hle.1.trans h1, fun j hj u hu => ?_, ?_⟩
      · rcases List.mem_cons.1 hj with rfl | hj
        · rw [hval] at hu
          obtain rfl := Option.some.inj hu
          exact hle.2.1.trans h1
        · exact h2 j hj u hu
      · rcases hrest with hsame | hother
        · rcases hle.2.2 with hc | hv
          · exact Or.inl (hsame.trans hc)
          · exact Or.inr ⟨i, List.mem_cons_self, by rw [hsame, hv, hval]⟩
        · exact Or.inr hother

end LongestWalk
