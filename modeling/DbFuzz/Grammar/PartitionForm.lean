import Mathlib.Data.List.Nodup
import Mathlib.Tactic.NormNum
import DbFuzz.Grammar.Partition

/-! What the loops of the partition clauses make, whatever the choices, and with it the clauses
for PostgreSQL and MySQL. -/

namespace DbFuzz.Grammar

open Draws (Settles)

variable {ρ : Choices}

theorem dx_settles {x : ℕ} (hx : 0 < x) {n : ℕ} :
    Settles (dx ρ x) n fun v => 1 ≤ v ∧ v ≤ x :=
  Settles.draw ρ.next fun k => ρ.die_range k x hx

theorem toString_injective : Function.Injective (toString : ℕ → String) := by
  intro a b h
  have hdigits : Nat.toDigits 10 a = Nat.toDigits 10 b := by
    rw [← Nat.toList_repr, ← Nat.toList_repr]
    exact congrArg String.toList h
  rw [← Nat.ofDigitChars_ten_toDigits (n := a), hdigits, Nat.ofDigitChars_ten_toDigits]

theorem append_right_injective (s : String) : Function.Injective (s ++ ·) := by
  intro a b h
  have hlist := congrArg String.toList h
  simp only [String.toList_append, List.append_cancel_left_eq] at hlist
  exact String.toList_injective hlist

/-- The names of the first partitions. -/
def Named (name : ℕ → String) (i : ℕ) (ps : List Partition) : Prop :=
  ps.map Partition.name = (List.range i).map name

theorem Named.append {name : ℕ → String} {i : ℕ} {ps : List Partition} (h : Named name i ps)
    (b : PartitionBound) : Named name (i + 1) (ps ++ [⟨name i, b⟩]) := by
  rw [Named, List.map_append, h, List.range_succ, List.map_append]
  rfl

theorem Named.nodup {name : ℕ → String} {i : ℕ} {ps : List Partition} (h : Named name i ps)
    (hname : Function.Injective name) : (ps.map Partition.name).Nodup := by
  rw [Named] at h
  rw [h]
  exact List.Nodup.map hname List.nodup_range

theorem partitionBounds_append (ps qs : List Partition) :
    partitionBounds (ps ++ qs) = partitionBounds ps ++ partitionBounds qs := List.map_append

/-! Ranges given by two bounds. -/

structure FromTo (name : ℕ → String) (i : ℕ) (s : ℤ × List Partition) : Prop where
  names : Named name i s.2
  bounds : ∀ b ∈ partitionBounds s.2, ∃ l u, b = .fromTo l u ∧ l < u ∧ u ≤ s.1
  below : (partitionBounds s.2).Pairwise PartitionBound.Below

theorem FromTo.append {name : ℕ → String} {i : ℕ} {s : ℤ × List Partition} (h : FromTo name i s)
    (gap : ℕ) {width : ℕ} (hwidth : 0 < width) :
    FromTo name (i + 1) (s.1 + gap + width,
      s.2 ++ [⟨name i, .fromTo (s.1 + gap) (s.1 + gap + width)⟩]) := by
  refine ⟨h.names.append _, ?_, ?_⟩
  · intro b hb
    rw [partitionBounds_append, List.mem_append] at hb
    rcases hb with hb | hb
    · obtain ⟨l, u, rfl, hlu, hu⟩ := h.bounds b hb
      exact ⟨l, u, rfl, hlu, by dsimp only; omega⟩
    · rw [List.mem_singleton.1 hb]
      exact ⟨_, _, rfl, by omega, Int.le_refl _⟩
  · rw [partitionBounds_append, List.pairwise_append]
    refine ⟨h.below, List.pairwise_singleton _ _, fun b hb b' hb' => ?_⟩
    obtain ⟨l, u, rfl, -, hu⟩ := h.bounds b hb
    rw [List.mem_singleton.1 hb']
    show u ≤ s.1 + gap
    omega

theorem fromTo_settles {gap width : Draws ℕ} {name : ℕ → String} (start : ℤ) (count : ℕ) {n : ℕ}
    (hgap : ∀ n, Settles gap n fun _ => True) (hwidth : ∀ n, Settles width n (0 < ·)) :
    Settles (Draws.forFrom (fromToPartition gap width name) 0 count (start, [])) n
      (FromTo name count) := by
  have hstart : FromTo name 0 (start, []) := ⟨rfl, by simp [partitionBounds], List.Pairwise.nil⟩
  have hrun := Settles.forFrom (fromToPartition gap width name) (FromTo name) count (n := n)
    hstart ?_
  · rwa [Nat.zero_add] at hrun
  · intro i _ _ s hs m
    refine Settles.bind (hgap m) fun g _ m => ?_
    exact Settles.bind (hwidth m) fun w hw m => Settles.pure (hs.append g hw)

theorem FromTo.shaped {name : ℕ → String} {i : ℕ} {s : ℤ × List Partition} (h : FromTo name i s)
    (hname : Function.Injective name) : Shaped s.2 := by
  refine ⟨?_, h.below, ?_, ?_, h.names.nodup hname⟩
  · intro b hb
    obtain ⟨l, u, rfl, hlu, -⟩ := h.bounds b hb
    exact hlu
  · have hnone : partitionValues s.2 = [] := List.flatMap_eq_nil_iff.2 fun b hb => by
      obtain ⟨l, u, rfl, -, -⟩ := h.bounds b hb
      rfl
    rw [hnone]
    exact List.nodup_nil
  · intro m r hb
    obtain ⟨l, u, heq, -⟩ := h.bounds _ hb
    cases heq

/-! Ranges given by their upper bounds. -/

structure LessThan (count : ℕ) (i : ℕ) (s : ℤ × List Partition) : Prop where
  names : Named Mysql.pName i s.2
  bounds : ∀ b ∈ partitionBounds s.2, ∃ o, b = .lessThan o
  open_ : i < count → ∀ b ∈ partitionBounds s.2, ∃ z ≤ s.1, b = .lessThan (some z)
  below : (partitionBounds s.2).Pairwise PartitionBound.Below
  first : 0 < i → 1 < count → ∃ z, .lessThan (some z) ∈ partitionBounds s.2

theorem LessThan.append {count i : ℕ} {s : ℤ × List Partition} (h : LessThan count i s)
    (hi : i + 1 < count) {d : ℕ} :
    LessThan count (i + 1) (s.1 + (d + 1),
      s.2 ++ [⟨Mysql.pName i, .lessThan (some (s.1 + (d + 1)))⟩]) := by
  have hopen : ∀ b ∈ partitionBounds (s.2 ++ [⟨Mysql.pName i, .lessThan (some (s.1 + (d + 1)))⟩]),
      ∃ z ≤ s.1 + (d + 1), b = .lessThan (some z) := by
    intro b hb
    rw [partitionBounds_append, List.mem_append] at hb
    rcases hb with hb | hb
    · obtain ⟨z, hz, rfl⟩ := h.open_ (by omega) b hb
      exact ⟨z, by omega, rfl⟩
    · exact ⟨_, Int.le_refl _, List.mem_singleton.1 hb⟩
  refine ⟨h.names.append _, ?_, fun _ => hopen, ?_, ?_⟩
  · intro b hb
    obtain ⟨z, -, rfl⟩ := hopen b hb
    exact ⟨_, rfl⟩
  · rw [partitionBounds_append, List.pairwise_append]
    refine ⟨h.below, List.pairwise_singleton _ _, fun b hb b' hb' => ?_⟩
    obtain ⟨z, hz, rfl⟩ := h.open_ (by omega) b hb
    rw [List.mem_singleton.1 hb']
    show z < s.1 + (d + 1)
    omega
  · intro _ _
    refine ⟨s.1 + (d + 1), ?_⟩
    rw [partitionBounds_append, List.mem_append]
    exact Or.inr (List.mem_singleton.2 rfl)

theorem LessThan.last {count i : ℕ} {s : ℤ × List Partition} (h : LessThan count i s)
    (hi : i + 1 = count) :
    LessThan count (i + 1) (s.1, s.2 ++ [⟨Mysql.pName i, .lessThan none⟩]) := by
  refine ⟨h.names.append _, ?_, fun hlt => absurd hi (by omega), ?_, ?_⟩
  · intro b hb
    rw [partitionBounds_append, List.mem_append] at hb
    rcases hb with hb | hb
    · exact h.bounds b hb
    · exact ⟨none, List.mem_singleton.1 hb⟩
  · rw [partitionBounds_append, List.pairwise_append]
    refine ⟨h.below, List.pairwise_singleton _ _, fun b hb b' hb' => ?_⟩
    obtain ⟨z, -, rfl⟩ := h.open_ (by omega) b hb
    rw [List.mem_singleton.1 hb']
    trivial
  · intro _ hcount
    obtain ⟨z, hz⟩ := h.first (by omega) hcount
    refine ⟨z, ?_⟩
    rw [partitionBounds_append]
    exact List.mem_append_left _ hz

theorem lessThan_settles (count : ℕ) {n : ℕ} :
    Settles (Mysql.lessThanPartitions ρ count) n fun ps => ∃ z, LessThan count count (z, ps) := by
  have hstart : LessThan count 0 (0, []) :=
    ⟨rfl, by simp [partitionBounds], by simp [partitionBounds], List.Pairwise.nil, by simp⟩
  refine Settles.bind (Settles.forFrom _ (LessThan count) count hstart ?_) fun s hs m => ?_
  · intro i _ hi s hs m
    rw [Mysql.lessThanPartition]
    split
    · next hlt =>
      exact Settles.bind (dx_settles (by norm_num)) fun d _ m => Settles.pure (hs.append hlt)
    · next hlt => exact Settles.pure (hs.last (by omega))
  · rw [Nat.zero_add] at hs
    exact Settles.pure ⟨s.1, hs⟩

theorem LessThan.shaped {count i : ℕ} {s : ℤ × List Partition} (h : LessThan count i s) :
    Shaped s.2 := by
  refine ⟨?_, h.below, ?_, ?_, h.names.nodup ((append_right_injective "p").comp toString_injective)⟩
  · intro b hb
    obtain ⟨o, rfl⟩ := h.bounds b hb
    trivial
  · have hnone : partitionValues s.2 = [] := List.flatMap_eq_nil_iff.2 fun b hb => by
      obtain ⟨o, rfl⟩ := h.bounds b hb
      rfl
    rw [hnone]
    exact List.nodup_nil
  · intro m r hb
    obtain ⟨o, heq⟩ := h.bounds _ hb
    cases heq

/-! Lists of values. -/

section

variable {κ : Type}

/-- The values drawn so far and the set of used ones. -/
structure Drawn (ρ : Choices) (s : ListStyle κ) (used : List κ) (vs : List Literal) : Prop where
  used : used = vs.flatMap s.marks
  fresh : vs.Pairwise fun a b => s.key b ∉ s.marks a
  drawn : ∀ v ∈ vs, ∃ k, v = s.pick (ρ.next k)

/-- However few values are drawn, another one keeps coming up. -/
def Plenty (ρ : Choices) (s : ListStyle κ) (N : ℕ) : Prop :=
  ∀ vs : List Literal, vs.length < N → (∀ v ∈ vs, ∃ k, v = s.pick (ρ.next k)) →
    ∀ n, ∃ k ≥ n, s.key (s.pick (ρ.next k)) ∉ vs.flatMap s.marks

theorem Drawn.append {s : ListStyle κ} {used : List κ} {vs : List Literal}
    (h : Drawn ρ s used vs) {l : Literal} (hl : ∃ k, l = s.pick (ρ.next k))
    (hfresh : s.key l ∉ used) : Drawn ρ s (used ++ s.marks l) (vs ++ [l]) := by
  refine ⟨by rw [h.used]; simp, ?_, ?_⟩
  · rw [List.pairwise_append]
    refine ⟨h.fresh, List.pairwise_singleton _ _, fun a ha b hb hmark => hfresh ?_⟩
    rw [List.mem_singleton.1 hb] at hmark
    rw [h.used]
    exact List.mem_flatMap.2 ⟨a, ha, hmark⟩
  · rw [List.forall_mem_append, List.forall_mem_singleton]
    exact ⟨h.drawn, hl⟩

variable [DecidableEq κ]

theorem listValue_settles {s : ListStyle κ} {N : ℕ} (hplenty : Plenty ρ s N)
    {used : List κ} {before values : List Literal} (h : Drawn ρ s used (before ++ values))
    (hN : (before ++ values).length < N) {n : ℕ} :
    Settles (listValue ρ s (used, values)) n fun t =>
      Drawn ρ s t.1 (before ++ t.2) ∧ t.2.length = values.length + 1 := by
  have hnew := Settles.drawUntil ρ.next (n := n) (f := s.pick)
    (p := fun l => decide (s.key l ∉ used))
    (Q := fun l => (∃ k, l = s.pick (ρ.next k)) ∧ s.key l ∉ used)
    (fun k hk => ⟨⟨k, rfl⟩, of_decide_eq_true hk⟩) ?_
  · refine Settles.bind hnew fun l hl m => Settles.pure ⟨?_, by simp⟩
    rw [← List.append_assoc]
    exact h.append hl.1 hl.2
  · obtain ⟨k, hk, hfresh⟩ := hplenty _ hN h.drawn n
    rw [← h.used] at hfresh
    exact ⟨k, hk, decide_eq_true hfresh⟩

/-- The partitions made so far, each with at least one value. -/
structure Lists (ρ : Choices) (s : ListStyle κ) (i : ℕ) (state : List κ × List Partition) :
    Prop where
  names : Named s.name i state.2
  bounds : ∀ b ∈ partitionBounds state.2, ∃ vs, b = .valuesIn vs ∧ vs ≠ []
  values : Drawn ρ s state.1 (partitionValues state.2)
  count : (partitionValues state.2).length ≤ i * (s.sides + s.least)

theorem listPartition_settles {s : ListStyle κ} {N i : ℕ} (hplenty : Plenty ρ s N)
    (hsides : 0 < s.sides) (hi : (i + 1) * (s.sides + s.least) ≤ N)
    {state : List κ × List Partition} (h : Lists ρ s i state) {n : ℕ} :
    Settles (listPartition ρ s i state) n (Lists ρ s (i + 1)) := by
  refine Settles.bind (dx_settles hsides) fun d hd m => ?_
  have hcount : (partitionValues state.2).length + (d + s.least) ≤
      (i + 1) * (s.sides + s.least) := by
    have := h.count
    rw [Nat.add_mul, Nat.one_mul]
    omega
  have hloop := Settles.forFrom (n := m) (fun _ => listValue ρ s)
    (fun j (t : List κ × List Literal) =>
      Drawn ρ s t.1 (partitionValues state.2 ++ t.2) ∧ t.2.length = j)
    (d + s.least) (k := 0) (s := (state.1, [])) ⟨by simpa using h.values, rfl⟩ ?_
  · refine Settles.bind hloop fun t ht m => Settles.pure ?_
    rw [Nat.zero_add] at ht
    have hvalues : partitionValues (state.2 ++ [⟨s.name i, .valuesIn t.2⟩]) =
        partitionValues state.2 ++ t.2 := by
      simp [partitionValues, partitionBounds, PartitionBound.values]
    refine ⟨h.names.append _, ?_, ?_, ?_⟩
    · rw [partitionBounds_append, List.forall_mem_append]
      refine ⟨h.bounds, List.forall_mem_singleton.2 ⟨t.2, rfl, ?_⟩⟩
      intro hnil
      rw [hnil, List.length_nil] at ht
      omega
    · rw [hvalues]
      exact ht.1
    · rw [hvalues, List.length_append, ht.2]
      exact hcount
  · intro j _ hj t ht m
    have hlt : (partitionValues state.2 ++ t.2).length < N := by
      rw [List.length_append, ht.2]
      omega
    refine (listValue_settles hplenty ht.1 hlt).mono fun t' ht' => ?_
    rwa [ht.2] at ht'

theorem listPartitions_settles {s : ListStyle κ} {N count : ℕ} (hplenty : Plenty ρ s N)
    (hsides : 0 < s.sides) (hcount : count * (s.sides + s.least) ≤ N) {n : ℕ} :
    Settles (listPartitions ρ s count) n fun ps => ∃ used, Lists ρ s count (used, ps) := by
  have hstart : Lists ρ s 0 ([], []) :=
    ⟨rfl, by simp [partitionBounds], ⟨rfl, List.Pairwise.nil, by simp [partitionValues,
      partitionBounds]⟩, by simp [partitionValues, partitionBounds]⟩
  refine Settles.bind (Settles.forFrom _ (Lists ρ s) count hstart ?_) fun t ht m => ?_
  · intro i _ hi t ht m
    refine listPartition_settles hplenty hsides (le_trans ?_ hcount) ht
    exact Nat.mul_le_mul_right _ (by omega)
  · rw [Nat.zero_add] at ht
    exact Settles.pure ⟨t.1, ht⟩

omit [DecidableEq κ] in
/-- Different keys have to be different values. -/
theorem Lists.shaped {s : ListStyle κ} {i : ℕ} {state : List κ × List Partition}
    (h : Lists ρ s i state) (hname : Function.Injective s.name)
    (hvalue : ∀ j k, s.key (s.pick (ρ.next k)) ∉ s.marks (s.pick (ρ.next j)) →
      (s.pick (ρ.next j)).value ≠ (s.pick (ρ.next k)).value) : Shaped state.2 := by
  refine ⟨?_, ?_, ?_, ?_, h.names.nodup hname⟩
  · intro b hb
    obtain ⟨vs, rfl, -⟩ := h.bounds b hb
    trivial
  · refine List.pairwise_of_forall_mem_list fun b hb b' hb' => ?_
    obtain ⟨vs, rfl, -⟩ := h.bounds b hb
    trivial
  · rw [List.Nodup, List.pairwise_map]
    refine h.values.fresh.imp_of_mem fun {a b} ha hb hab => ?_
    obtain ⟨j, rfl⟩ := h.values.drawn a ha
    obtain ⟨k, rfl⟩ := h.values.drawn b hb
    exact hvalue j k hab
  · intro m r hb
    obtain ⟨vs, heq, -⟩ := h.bounds _ hb
    cases heq

end

/-! Clauses of whole numbers. -/

def partitionLiterals (ps : List Partition) : List Literal :=
  (partitionBounds ps).flatMap PartitionBound.literals

def CreatedColumn.Numeric (c : CreatedColumn) : Prop :=
  c.enumDef = none ∧ (c.type = .int ∨ c.type = .real)

structure Numbers (ps : List Partition) : Prop where
  shaped : Shaped ps
  ints : ∀ l ∈ partitionLiterals ps, ∃ z, l = .int z
  some_ : ∃ l, l ∈ partitionLiterals ps

theorem Numbers.wellFormed_iff {c : PartitionClause} (h : Numbers c.partitions) :
    c.WellFormed ↔ c.column.Numeric := by
  constructor
  · intro hc
    obtain ⟨l, hl⟩ := h.some_
    obtain ⟨z, rfl⟩ := h.ints l hl
    exact hc.typed _ hl
  · refine fun hc => ⟨fun l hl => ?_, h.shaped⟩
    obtain ⟨z, rfl⟩ := h.ints l hl
    exact hc

theorem wellFormed_of_nil {c : PartitionClause} (h : c.partitions = []) : c.WellFormed := by
  refine ⟨by simp [h, partitionBounds], ?_⟩
  rw [h]
  exact ⟨by simp [partitionBounds], List.Pairwise.nil, List.nodup_nil, by simp [partitionBounds],
    List.nodup_nil⟩

theorem FromTo.numbers {name : ℕ → String} {i : ℕ} {s : ℤ × List Partition} (h : FromTo name i s)
    (hname : Function.Injective name) (hi : 0 < i) : Numbers s.2 := by
  refine ⟨h.shaped hname, ?_, ?_⟩
  · intro l hl
    obtain ⟨b, hb, hl⟩ := List.mem_flatMap.1 hl
    obtain ⟨lower, upper, rfl, -⟩ := h.bounds b hb
    simp only [PartitionBound.literals, List.mem_cons, List.not_mem_nil, or_false] at hl
    rcases hl with rfl | rfl
    · exact ⟨_, rfl⟩
    · exact ⟨_, rfl⟩
  · obtain ⟨p, hp⟩ : ∃ p, p ∈ s.2 := List.exists_mem_of_length_pos (by
      rw [← List.length_map (f := Partition.name), h.names, List.length_map, List.length_range]
      exact hi)
    have hb : p.bound ∈ partitionBounds s.2 := List.mem_map_of_mem hp
    obtain ⟨lower, upper, heq, -⟩ := h.bounds _ hb
    exact ⟨.int lower, List.mem_flatMap.2 ⟨_, hb, by rw [heq]; exact List.mem_cons_self⟩⟩

theorem LessThan.numbers {count : ℕ} {s : ℤ × List Partition} (h : LessThan count count s)
    (hcount : 1 < count) : Numbers s.2 := by
  refine ⟨h.shaped, ?_, ?_⟩
  · intro l hl
    obtain ⟨b, hb, hl⟩ := List.mem_flatMap.1 hl
    obtain ⟨o, rfl⟩ := h.bounds b hb
    cases o with
    | none => cases hl
    | some z => exact ⟨z, List.mem_singleton.1 hl⟩
  · obtain ⟨z, hz⟩ := h.first (by omega) hcount
    exact ⟨.int z, List.mem_flatMap.2 ⟨_, hz, List.mem_singleton.2 rfl⟩⟩

theorem exists_notMem_of_length_lt {α : Type} {candidates : List α} (used : List α)
    (hnodup : candidates.Nodup) (h : used.length < candidates.length) :
    ∃ a ∈ candidates, a ∉ used := by
  by_contra hcon
  push Not at hcon
  have := hnodup.length_le_of_subset hcon
  omega

theorem plenty_numberList (ρ : Choices) (sides least : ℕ) (name : ℕ → String) :
    Plenty ρ (numberList sides least name) 100 := by
  intro vs hvs _ n
  have hnodup : ((List.range 100).map fun i : ℕ => Literal.int (i + 1)).Nodup := by
    refine List.Nodup.map (fun i j h => ?_) List.nodup_range
    simpa using h
  obtain ⟨l, hl, hnew⟩ := exists_notMem_of_length_lt vs hnodup (by simpa using hvs)
  obtain ⟨i, hi, rfl⟩ := List.mem_map.1 hl
  rw [List.mem_range] at hi
  obtain ⟨k, hk, hdie⟩ := ρ.die_recurs n 100 (i + 1) (by omega) (by omega)
  refine ⟨k, hk, ?_⟩
  simpa [numberList, hdie] using hnew

theorem numbers_settles {sides least count : ℕ} {name : ℕ → String}
    (hname : Function.Injective name) (hsides : 0 < sides) (hcount : 0 < count)
    (h100 : count * (sides + least) ≤ 100) {n : ℕ} :
    Settles (listPartitions ρ (numberList sides least name) count) n fun ps =>
      Numbers ps ∧ Named name count ps ∧ ∀ m r, .hash m r ∉ partitionBounds ps := by
  refine (listPartitions_settles (plenty_numberList ρ sides least name) hsides h100).mono
    fun ps ⟨used, h⟩ => ⟨⟨h.shaped hname ?_, ?_, ?_⟩, h.names, fun m r hb => ?_⟩
  · intro j k hne heq
    refine hne (List.mem_singleton.2 ?_)
    simpa [numberList, Literal.value] using heq.symm
  · intro l hl
    obtain ⟨b, hb, hl⟩ := List.mem_flatMap.1 hl
    obtain ⟨vs, rfl, -⟩ := h.bounds b hb
    obtain ⟨k, rfl⟩ := h.values.drawn l (List.mem_flatMap.2 ⟨_, hb, hl⟩)
    exact ⟨_, rfl⟩
  · obtain ⟨p, hp⟩ : ∃ p, p ∈ ps := List.exists_mem_of_length_pos (by
      rw [← List.length_map (f := Partition.name), h.names, List.length_map, List.length_range]
      exact hcount)
    have hb : p.bound ∈ partitionBounds ps := List.mem_map_of_mem hp
    obtain ⟨vs, heq, hvs⟩ := h.bounds _ hb
    obtain ⟨l, hl⟩ := List.exists_mem_of_ne_nil vs hvs
    exact ⟨l, List.mem_flatMap.2 ⟨_, hb, by rw [heq]; exact hl⟩⟩
  · obtain ⟨vs, heq, -⟩ := h.bounds _ hb
    cases heq

/-! PostgreSQL. -/

theorem Shaped.default {ps : List Partition} {name : String} (h : Shaped ps)
    (hhash : ∀ m r, .hash m r ∉ partitionBounds ps) (hname : name ∉ ps.map Partition.name) :
    Shaped (ps ++ [⟨name, .default⟩]) := by
  refine ⟨?_, ?_, ?_, ?_, ?_⟩
  · rw [partitionBounds_append, List.forall_mem_append]
    exact ⟨h.nonEmpty, List.forall_mem_singleton.2 trivial⟩
  · rw [partitionBounds_append, List.pairwise_append]
    refine ⟨h.below, List.pairwise_singleton _ _, fun b _ b' hb' => ?_⟩
    rw [List.mem_singleton.1 hb']
    change b.Below .default
    cases b with
    | lessThan bound => cases bound <;> trivial
    | fromTo | valuesIn | hash | default => trivial
  · have hvalues : partitionValues (ps ++ [⟨name, .default⟩]) = partitionValues ps := by
      simp [partitionValues, partitionBounds, PartitionBound.values]
    rw [hvalues]
    exact h.lists
  · intro m r hb
    rw [partitionBounds_append, List.mem_append] at hb
    rcases hb with hb | hb
    · exact absurd hb (hhash m r)
    · cases List.mem_singleton.1 hb
  · rw [List.map_append, List.nodup_append]
    refine ⟨h.names, List.nodup_singleton _, fun a ha b hb => ?_⟩
    rw [List.mem_singleton.1 hb]
    exact fun heq => hname ((show a = name from heq) ▸ ha)

theorem Numbers.default {ps : List Partition} {name : String} (h : Numbers ps)
    (hhash : ∀ m r, .hash m r ∉ partitionBounds ps) (hname : name ∉ ps.map Partition.name) :
    Numbers (ps ++ [⟨name, .default⟩]) := by
  have hliterals : partitionLiterals (ps ++ [⟨name, .default⟩]) = partitionLiterals ps := by
    simp [partitionLiterals, partitionBounds, PartitionBound.literals]
  exact ⟨h.shaped.default hhash hname, by rw [hliterals]; exact h.ints,
    by rw [hliterals]; exact h.some_⟩

namespace Pg

variable (t : PartitionInput .postgres)

theorem subName_injective : Function.Injective (subName t) :=
  (append_right_injective (t.table ++ "_p")).comp toString_injective

theorem default_not_named {i : ℕ} {ps : List Partition} (h : Named (subName t) i ps) :
    (default t).name ∉ ps.map Partition.name := by
  rw [h]
  intro hmem
  obtain ⟨j, -, hj⟩ := List.mem_map.1 hmem
  have hlist := congrArg String.toList hj
  simp [subName, default, List.append_assoc] at hlist

theorem range_settles (ρ : Choices) {count : ℕ} (hcount : 0 < count) {n : ℕ} :
    Settles (range ρ t count) n fun c => Numbers c.partitions ∧ c.column = t.primaryCol := by
  refine Settles.bind (dx_settles (by omega)) fun lower _ m => ?_
  refine Settles.bind (fromTo_settles (-lower) count (fun _ => Settles.pure trivial) fun m => ?_)
    fun s hs m => ?_
  · exact Settles.bind (dx_settles (by omega)) fun w _ m => Settles.pure (Nat.add_pos_right w (by omega))
  · have hnumbers := hs.numbers (subName_injective t) hcount
    have hhash : ∀ m r, .hash m r ∉ partitionBounds s.2 := fun m r hb => by
      obtain ⟨l, u, heq, -⟩ := hs.bounds _ hb
      cases heq
    have hdefault := hnumbers.default hhash (default_not_named t hs.names)
    obtain ⟨low, ps⟩ := s
    dsimp only
    split
    · refine Settles.bind (dx_settles (by omega)) fun d _ m => Settles.pure ⟨?_, rfl⟩
      show Numbers (ps ++ if d ≤ 4 then [default t] else [])
      split
      · exact hdefault
      · rwa [List.append_nil]
    · exact Settles.pure ⟨hnumbers, rfl⟩

theorem list_settles (ρ : Choices) {count : ℕ} (hcount : 0 < count) (h4 : count ≤ 4) {n : ℕ} :
    Settles (list ρ t count) n fun c => Numbers c.partitions ∧ c.column = t.primaryCol := by
  refine Settles.bind (numbers_settles (subName_injective t) (by omega) hcount (by omega))
    fun ps ⟨hnumbers, hnames, hhash⟩ m => Settles.pure ⟨?_, rfl⟩
  show Numbers (ps ++ if t.hasPartitionDefault then [default t] else [])
  split
  · exact hnumbers.default hhash (default_not_named t hnames)
  · rwa [List.append_nil]

theorem hash_wellFormed (modulus : ℕ) : (hash t modulus).WellFormed := by
  have hbounds : partitionBounds (hash t modulus).partitions =
      (List.range modulus).map (PartitionBound.hash modulus) := by
    simp [hash, clause, partitionBounds]
  refine ⟨?_, ?_, ?_, ?_, ?_, ?_⟩
  · rw [hbounds]
    simp [PartitionBound.literals]
  · rw [hbounds]
    simp [PartitionBound.NonEmpty]
  · rw [hbounds, List.pairwise_map]
    exact List.pairwise_of_forall fun _ _ => trivial
  · have hnone : partitionValues (hash t modulus).partitions = [] :=
      List.flatMap_eq_nil_iff.2 (by rw [hbounds]; simp [PartitionBound.values])
    rw [hnone]
    exact List.nodup_nil
  · intro m r hb
    rw [hbounds] at hb ⊢
    obtain ⟨i, -, heq⟩ := List.mem_map.1 hb
    cases heq
    rfl
  · have hnames : Named (subName t) modulus (hash t modulus).partitions := by
      simp [Named, hash, clause]
    exact hnames.nodup (subName_injective t)

theorem partitionOption_settles (ρ : Choices) :
    Settles (partitionOption ρ t) 0 fun c =>
      c.WellFormed ↔ 5 ≤ (ρ.next 1).die 6 ∨ t.primaryCol.Numeric := by
  have hn := ρ.die_range 0 3 (by omega)
  rw [partitionOption, dx, Settles.draw_bind, dx, Settles.draw_bind, Nat.zero_add]
  split
  · next h2 =>
    refine (range_settles t ρ (by omega)).mono fun c ⟨hnumbers, hcolumn⟩ => ?_
    rw [hnumbers.wellFormed_iff, hcolumn]
    exact (or_iff_right (by omega)).symm
  · split
    · next h4 =>
      refine (list_settles t ρ (by omega) (by omega)).mono fun c ⟨hnumbers, hcolumn⟩ => ?_
      rw [hnumbers.wellFormed_iff, hcolumn]
      exact (or_iff_right (by omega)).symm
    · exact Settles.pure (iff_of_true (hash_wellFormed t _) (Or.inl (by omega)))

end Pg

/-! MySQL. -/

namespace Mysql

variable (t : PartitionInput .mysql)

theorem pName_injective : Function.Injective pName :=
  (append_right_injective "p").comp toString_injective

/-- The partition column of a clause that was made for a column of numbers. -/
def Fits (column : Fin (t.others.length + 2)) (c : PartitionClause) : Prop :=
  Numbers c.partitions ∧ c.column = t.col column

theorem addSubpartition_settles (ρ : Choices) {partitions : Draws (List Partition)}
    {column : Fin (t.others.length + 2)} {c : PartitionClause} (hc : Fits t column c)
    (hpartitions : ∀ n, Settles partitions n Numbers) {n : ℕ} :
    Settles (addSubpartition ρ t partitions column c) n (Fits t column) := by
  rw [addSubpartition]
  split
  · refine Settles.bind (dx_settles (by omega)) fun d _ m => ?_
    split
    · cases subCol t column with
      | none => exact Settles.pure hc
      | some i =>
        refine Settles.bind (dx_settles (by omega)) fun k _ m => ?_
        exact Settles.bind (hpartitions m) fun ps hps m => Settles.pure ⟨hps, hc.2⟩
    · exact Settles.pure hc
  · exact Settles.pure hc

theorem named_settles (ρ : Choices) (method : Bool → PartitionMethod) (columns : Bool)
    {partitions : ℕ → Draws (List Partition)}
    (hpartitions : ∀ count, 1 < count → count ≤ 4 → ∀ n, Settles (partitions count) n Numbers)
    {n : ℕ} : Settles (named ρ t method columns partitions) n
      (Fits t (if columns then t.primaryColId else (partCol t).1)) := by
  have hcol : (if columns then t.primaryColId else (partCol t).1) =
      (if columns then (t.primaryColId, true) else partCol t).1 := by
    split <;> rfl
  rw [named, hcol]
  generalize (if columns then (t.primaryColId, true) else partCol t) = col
  refine Settles.bind (dx_settles (by omega)) fun count hcount m => ?_
  have hps := hpartitions (count + 1) (by omega) (by omega)
  exact Settles.bind (hps m) fun ps hnumbers m => addSubpartition_settles t ρ ⟨hnumbers, rfl⟩ hps

theorem lessThanPartitions_settles (ρ : Choices) (count : ℕ) (hcount : 1 < count) (n : ℕ) :
    Settles (lessThanPartitions ρ count) n Numbers :=
  (lessThan_settles count).mono fun _ ⟨_, h⟩ => h.numbers hcount

theorem numberList_settles (ρ : Choices) (count : ℕ) (hcount : 1 < count) (h4 : count ≤ 4)
    (n : ℕ) : Settles (listPartitions ρ (numberList 3 1 pName) count) n Numbers :=
  (numbers_settles pName_injective (by omega) (by omega) (by omega)).mono fun _ h => h.1

/-- The version key is there for a clause that asks for an integer. -/
theorem partCol_numeric :
    (t.col (partCol t).1).Numeric ↔ t.primaryCol.type ≠ .int ∨ t.primaryCol.Numeric := by
  rw [partCol]
  by_cases hint : isInt t t.primaryColId = true
  · have htype : t.primaryCol.type = .int := of_decide_eq_true hint
    rw [if_pos hint]
    exact (or_iff_right (not_not.2 htype)).symm
  · have htype : t.primaryCol.type ≠ .int := fun heq => hint (decide_eq_true heq)
    have hfirst : firstCol t (isInt t) = some 0 := by
      rw [firstCol, List.finRange_succ, List.find?_cons_of_pos]
      exact decide_eq_true rfl
    rw [if_neg hint, hfirst]
    exact iff_of_true ⟨rfl, Or.inl rfl⟩ (Or.inl htype)

theorem partitionOption_settles (ρ : Choices) :
    Settles (partitionOption ρ t) 0 fun c => c.WellFormed ↔
      ((ρ.next 0).die 9 = 5 ∨ (ρ.next 0).die 9 = 6 ∨ (ρ.next 0).die 9 = 9) ∨
        ((ρ.next 0).die 9 ≤ 4 ∧ t.primaryCol.type ≠ .int) ∨ t.primaryCol.Numeric := by
  have hrange := ρ.die_range 0 9 (by omega)
  rw [partitionOption, dx, Settles.draw_bind]
  generalize (ρ.next 0).die 9 = choice at hrange
  have hnamed : ∀ {columns : Bool} {c : PartitionClause},
      Fits t (if columns then t.primaryColId else (partCol t).1) c →
      (c.WellFormed ↔ (columns = false ∧ t.primaryCol.type ≠ .int) ∨ t.primaryCol.Numeric) := by
    intro columns c hc
    rw [hc.1.wellFormed_iff, hc.2]
    cases columns with
    | true => exact (or_iff_right (by simp)).symm
    | false => simpa using partCol_numeric t
  split
  · next hchoice =>
    refine (named_settles t ρ _ _ fun count h1 _ => lessThanPartitions_settles ρ count h1).mono
      fun c hc => (hnamed hc).trans ?_
    rw [decide_eq_false_iff_not]
    grind
  · split
    · next hchoice =>
      refine (named_settles t ρ _ _ fun count h1 h4 => numberList_settles ρ count h1 h4).mono
        fun c hc => (hnamed hc).trans ?_
      rw [decide_eq_false_iff_not]
      grind
    · have hvalues : choice = 5 ∨ choice = 6 ∨ choice = 9 := by omega
      refine Settles.mono (Q := fun c => c.partitions = []) ?_
        fun c hc => iff_of_true (wellFormed_of_nil hc) (Or.inl hvalues)
      split
      · rw [hash]
        refine Settles.bind (dx_settles (by omega)) fun n _ m => ?_
        exact Settles.bind (dx_settles (by omega)) fun d _ m => Settles.pure rfl
      · rw [linear]
        refine Settles.bind (dx_settles (by omega)) fun d _ m => ?_
        refine Settles.bind (dx_settles (by omega)) fun n _ m => ?_
        split <;> exact Settles.pure rfl

end Mysql

end DbFuzz.Grammar
