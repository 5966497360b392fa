import DbFuzz.Lib.Cycle
import DbFuzz.TxCheck.SortRound

/-! What holds after every round of the sort, and what the path is when it ends. -/

namespace DbFuzz

open Loop Relation

/-- The labels of the row and predicate dependencies. -/
def DependencyType.isData : DependencyType → Bool
  | .writeRead | .writeWrite | .readWrite | .versionSetDepend | .overwriteDepend => true
  | _ => false

namespace AnalyzedQueue

variable {q : AnalyzedQueue} {g : StmtGraph} {given : Finset StmtId} {st st' : SortState} {i j : ℕ}

/-- The ids of a group in queue order. -/
def groupIds (q : AnalyzedQueue) (group : Finset ℕ) : List StmtId := (q.indices group).map q.sid

/-- An edge leads from the first group to the second. -/
def GroupOrdered (q : AnalyzedQueue) (g : StmtGraph) (A B : Finset ℕ) : Prop :=
  ∃ i ∈ A, ∃ j ∈ B, q.Ordered g i j

/-- The path as the groups it was built from; no edge leads back. -/
structure Chained (q : AnalyzedQueue) (g : StmtGraph) (groups : List (Finset ℕ))
    (path : List StmtId) : Prop where
  path_eq : path = groups.flatMap q.groupIds
  group : ∀ A ∈ groups, ∃ i < q.stmtNum, A = q.stmtSet g i
  disjoint : groups.Pairwise Disjoint
  forward : groups.Pairwise fun A B => ¬ q.GroupOrdered g B A

/-- The invariant of the main loop; `given` are the deleted nodes of the caller. -/
structure SortInv (q : AnalyzedQueue) (g : StmtGraph) (given : Finset StmtId)
    (st : SortState) : Prop where
  same : SameLabels g st.graph
  ids : ∀ s, s ∈ st.outputted ∨ s ∈ st.deleted → ∃ i < q.stmtNum, s = q.sid i
  apart : ∀ s ∈ st.outputted, s ∉ st.deleted
  outClosed : ∀ i < q.stmtNum, q.sid i ∈ st.outputted → ∀ j ∈ q.stmtSet g i,
    q.sid j ∈ st.outputted
  delClosed : ∀ i < q.stmtNum, q.sid i ∈ st.deleted → ∀ j ∈ q.stmtSet g i, q.sid j ∈ st.deleted
  keepsGiven : given ⊆ st.deleted
  aborted : ∀ i < q.stmtNum, q.status (q.tid i) ≠ .commit → q.sid i ∈ st.deleted
  keeps : ∀ i j, i < q.stmtNum → j < q.stmtNum → q.Ordered g i j → q.Left st i → q.Left st j →
    q.Branch st.tmp i j
  only : ∀ i j, i < q.stmtNum → j < q.stmtNum → q.Branch st.tmp i j → q.Ordered g i j ∧
    q.sid i ∉ st.outputted ∧ (q.sid i ∈ st.deleted → q.sid i ∈ given)
  preds : ∀ i j, i < q.stmtNum → j < q.stmtNum → q.sid j ∈ st.outputted → q.Ordered g i j →
    i ∉ q.stmtSet g j → ¬ q.Left st i
  mem_path : ∀ s, s ∈ st.path ↔ s ∈ st.outputted
  chained : ∃ groups, q.Chained g groups st.path

theorem mem_groupIds {s : StmtId} {A : Finset ℕ} :
    s ∈ q.groupIds A ↔ ∃ i < q.stmtNum, i ∈ A ∧ s = q.sid i := by
  simp only [groupIds, List.mem_map, mem_indices]
  constructor
  · rintro ⟨i, ⟨hi, hA⟩, rfl⟩; exact ⟨i, hi, hA, rfl⟩
  · rintro ⟨i, hi, hA, rfl⟩; exact ⟨i, ⟨hi, hA⟩, rfl⟩

theorem groupIds_nodup (q : AnalyzedQueue) (A : Finset ℕ) : (q.groupIds A).Nodup := by
  have hlt : (q.indices A).Nodup := (indices_sorted q A).imp fun hij => Nat.ne_of_lt hij
  refine List.Nodup.map_on (fun i hi j hj h => ?_) hlt
  exact sid_inj (mem_indices.1 hi).1 (mem_indices.1 hj).1 h

/-! The first state. -/

theorem mem_abortedIndices :
    i ∈ q.abortedIndices ↔ i < q.stmtNum ∧ q.status (q.tid i) ≠ .commit := by
  simp [abortedIndices]

theorem sortInit_inv (hids : ∀ s ∈ given, ∃ i < q.stmtNum, s = q.sid i)
    (hclosed : ∀ i < q.stmtNum, q.sid i ∈ given → ∀ j ∈ q.stmtSet g i, q.sid j ∈ given)
    (htid : ∀ i < q.stmtNum, ∀ j ∈ q.stmtSet g i, q.tid j = q.tid i) :
    q.SortInv g given (q.sortInit g given) := by
  have hdel := foldl_deleteStmt q.abortedIndices (fun c hc => (mem_abortedIndices.1 hc).1)
    ⟨g, g, ∅, given, [], false⟩
  unfold sortInit
  generalize q.abortedIndices.foldl q.deleteStmt ⟨g, g, ∅, given, [], false⟩ = st at hdel
  have hout : st.outputted = ∅ := hdel.outputted
  have hmem : ∀ i < q.stmtNum, (q.sid i ∈ st.deleted ↔
      q.sid i ∈ given ∨ q.status (q.tid i) ≠ .commit) := by
    intro i hi
    rw [hdel.mem]
    refine or_congr Iff.rfl ⟨?_, fun hs => ⟨i, mem_abortedIndices.2 ⟨hi, hs⟩, rfl⟩⟩
    rintro ⟨c, hc, hic⟩
    obtain ⟨hcn, hs⟩ := mem_abortedIndices.1 hc
    rw [sid_inj hi hcn hic]
    exact hs
  have hbranch : ∀ i j, i < q.stmtNum → j < q.stmtNum →
      (q.Branch (q.purgeBranches st.tmp) i j ↔
        q.Ordered g i j ∧ i ∉ q.abortedIndices ∧ j ∉ q.abortedIndices) := by
    intro i j hi hj
    rw [branch_purgeBranches hi hj, hdel.tmp.ordered_iff hi hj]
  refine ⟨?_, ?_, ?_, ?_, ?_, ?_, ?_, ?_, ?_, ?_, ?_, [], ?_⟩
  · exact hdel.graph ▸ SameLabels.refl g
  · rintro s (hs | hs)
    · simp [hout] at hs
    · rcases (hdel.mem s).1 hs with hs | ⟨c, hc, rfl⟩
      · exact hids s hs
      · exact ⟨c, (mem_abortedIndices.1 hc).1, rfl⟩
  · simp [hout]
  · simp [hout]
  · intro i hi hs j hj
    rw [hmem j (lt_of_mem_stmtSet hi hj)]
    rcases (hmem i hi).1 hs with hs | hs
    · exact Or.inl (hclosed i hi hs j hj)
    · exact Or.inr (by rw [htid i hi j hj]; exact hs)
  · exact fun s hs => (hdel.mem s).2 (Or.inl hs)
  · exact fun i hi hs => (hmem i hi).2 (Or.inr hs)
  · intro i j hi hj hord hli hlj
    have hnot : ∀ k, q.sid k ∉ st.deleted → k ∉ q.abortedIndices := fun k hk hc =>
      hk ((hdel.mem _).2 (Or.inr ⟨k, hc, rfl⟩))
    exact (hbranch i j hi hj).2 ⟨hord, hnot i hli.2, hnot j hlj.2⟩
  · intro i j hi hj hb
    obtain ⟨hord, hni, -⟩ := (hbranch i j hi hj).1 hb
    refine ⟨hord, by simp [hout], fun hs => ?_⟩
    rcases (hmem i hi).1 hs with hs | hs
    · exact hs
    · exact absurd (mem_abortedIndices.2 ⟨hi, hs⟩) hni
  · simp [hout]
  · have hpath : st.path = [] := hdel.path
    simp [hout, hpath]
  · have hpath : st.path = [] := hdel.path
    exact ⟨by simp [hpath], by simp, List.Pairwise.nil, List.Pairwise.nil⟩

/-! One round. -/

/-- The statements of a group are left together. -/
theorem SortInv.left_of_mem {t c : ℕ} (h : q.SortInv g given st) (ht : t < q.stmtNum)
    (hleft : q.Left st t) (hc : c ∈ q.stmtSet g t) : q.Left st c := by
  have hcn := lt_of_mem_stmtSet ht hc
  have htc : t ∈ q.stmtSet g c := (mem_stmtSet_comm ht hcn).1 hc
  exact ⟨fun ho => hleft.1 (h.outClosed c hcn ho t htc), fun hd => hleft.2 (h.delClosed c hcn hd t htc)⟩

theorem sid_mem_group {l : List ℕ} (hl : ∀ c ∈ l, c < q.stmtNum) (hi : i < q.stmtNum) :
    (∃ c ∈ l, q.sid i = q.sid c) ↔ i ∈ l :=
  ⟨fun ⟨c, hc, hic⟩ => sid_inj hi (hl c hc) hic ▸ hc, fun h => ⟨i, h, rfl⟩⟩

theorem SortInv.output {t : ℕ} {g' : StmtGraph} (h : q.SortInv g given st) (ht : t < q.stmtNum)
    (hleft : q.Left st t) (hentered : ¬ q.Entered g st.tmp t) (hsame : SameLabels g st'.graph)
    (hout : q.OutputBy (q.indices (q.stmtSet g t)) { st with graph := g' } st') :
    q.SortInv g given st' := by
  have hl : ∀ c ∈ q.indices (q.stmtSet g t), c < q.stmtNum := fun c hc => (mem_indices.1 hc).1
  have hdel : st'.deleted = st.deleted := hout.deleted
  have hmem : ∀ i < q.stmtNum, (q.sid i ∈ st'.outputted ↔
      q.sid i ∈ st.outputted ∨ i ∈ q.stmtSet g t) := by
    intro i hi
    rw [hout.mem, sid_mem_group hl hi, mem_indices]
    simp [hi]
  have hleft' : ∀ i < q.stmtNum, q.Left st' i → q.Left st i ∧ i ∉ q.stmtSet g t := by
    intro i hi hli
    have := (hmem i hi).not.1 hli.1
    rw [not_or] at this
    exact ⟨⟨this.1, hdel ▸ hli.2⟩, this.2⟩
  have hgroup : ∀ c ∈ q.stmtSet g t, q.Left st c := fun c hc => h.left_of_mem ht hleft hc
  have hbranch : ∀ i j, i < q.stmtNum → j < q.stmtNum → (q.Branch st'.tmp i j ↔
      q.Branch st.tmp i j ∧ i ∉ q.indices (q.stmtSet g t) ∧ j ∉ q.indices (q.stmtSet g t)) :=
    fun i j hi hj => hout.tmp.branch_iff hi hj
  have hnot : ∀ i, i ∉ q.stmtSet g t → i ∉ q.indices (q.stmtSet g t) :=
    fun i hi hc => hi (mem_indices.1 hc).2
  refine ⟨hsame, ?_, ?_, ?_, ?_, ?_, ?_, ?_, ?_, ?_, ?_, ?_⟩
  · rintro s (hs | hs)
    · rcases (hout.mem s).1 hs with hs | ⟨c, hc, rfl⟩
      · exact h.ids s (Or.inl hs)
      · exact ⟨c, hl c hc, rfl⟩
    · exact h.ids s (Or.inr (hdel ▸ hs))
  · intro s hs
    rw [hdel]
    rcases (hout.mem s).1 hs with hs | ⟨c, hc, rfl⟩
    · exact h.apart s hs
    · exact (hgroup c (mem_indices.1 hc).2).2
  · intro i hi hs j hj
    have hjn := lt_of_mem_stmtSet hi hj
    rw [hmem j hjn]
    rcases (hmem i hi).1 hs with hs | hs
    · exact Or.inl (h.outClosed i hi hs j hj)
    · exact Or.inr (stmtSet_eq ht hs ▸ hj)
  · rw [hdel]; exact h.delClosed
  · rw [hdel]; exact h.keepsGiven
  · rw [hdel]; exact h.aborted
  · intro i j hi hj hord hli hlj
    obtain ⟨hli, hit⟩ := hleft' i hi hli
    obtain ⟨hlj, hjt⟩ := hleft' j hj hlj
    exact (hbranch i j hi hj).2 ⟨h.keeps i j hi hj hord hli hlj, hnot i hit, hnot j hjt⟩
  · intro i j hi hj hb
    obtain ⟨hb, hni, -⟩ := (hbranch i j hi hj).1 hb
    obtain ⟨hord, ho, hd⟩ := h.only i j hi hj hb
    refine ⟨hord, fun hs => ?_, fun hs => hd (hdel ▸ hs)⟩
    rcases (hmem i hi).1 hs with hs | hs
    · exact ho hs
    · exact hni (mem_indices.2 ⟨hi, hs⟩)
  · intro i j hi hj hs hord hne hli
    obtain ⟨hli, hit⟩ := hleft' i hi hli
    rcases (hmem j hj).1 hs with hs | hs
    · exact h.preds i j hi hj hs hord hne hli
    · -- the edge would enter the group that was output
      exact hentered ⟨j, hs, i, hi, hit, h.keeps i j hi hj hord hli (hgroup j hs)⟩
  · intro s
    rw [hout.path, List.mem_append, h.mem_path, hout.mem]
    refine or_congr Iff.rfl ?_
    rw [List.mem_map]
    exact ⟨fun ⟨c, hc, e⟩ => ⟨c, hc, e.symm⟩, fun ⟨c, hc, e⟩ => ⟨c, hc, e.symm⟩⟩
  · obtain ⟨groups, hch⟩ := h.chained
    have hold : ∀ A ∈ groups, ∀ y ∈ A, y < q.stmtNum ∧ q.sid y ∈ st.outputted := by
      intro A hA y hy
      obtain ⟨i, hi, rfl⟩ := hch.group A hA
      have hyn := lt_of_mem_stmtSet hi hy
      refine ⟨hyn, (h.mem_path _).1 ?_⟩
      rw [hch.path_eq]
      exact List.mem_flatMap.2 ⟨_, hA, mem_groupIds.2 ⟨y, hyn, hy, rfl⟩⟩
    refine ⟨groups ++ [q.stmtSet g t], ?_, ?_, ?_, ?_⟩
    · rw [hout.path, hch.path_eq, List.flatMap_append]
      simp [groupIds]
    · intro A hA
      rcases List.mem_append.1 hA with hA | hA
      · exact hch.group A hA
      · exact ⟨t, ht, List.mem_singleton.1 hA⟩
    · refine List.pairwise_append.2 ⟨hch.disjoint, List.pairwise_singleton _ _, ?_⟩
      intro A hA B hB
      rw [List.mem_singleton.1 hB]
      exact Finset.disjoint_left.2 fun y hy hyt => (hgroup y hyt).1 (hold A hA y hy).2
    · refine List.pairwise_append.2 ⟨hch.forward, List.pairwise_singleton _ _, ?_⟩
      intro A hA B hB
      rw [List.mem_singleton.1 hB]
      rintro ⟨x, hx, y, hy, hord⟩
      obtain ⟨hyn, hyo⟩ := hold A hA y hy
      have hxn := lt_of_mem_stmtSet ht hx
      refine h.preds x y hxn hyn hyo hord (fun hxy => ?_) (hgroup x hx)
      exact (hgroup x hx).1 (h.outClosed y hyn hyo x hxy)

theorem SortInv.delete {t : ℕ} {g' : StmtGraph} (h : q.SortInv g given st) (ht : t < q.stmtNum)
    (hleft : q.Left st t) (hsame : SameLabels g st'.graph)
    (hdel : q.DeletedBy (q.indices (q.stmtSet g t))
      { st with graph := g', deleteFlag := true } st') : q.SortInv g given st' := by
  have hl : ∀ c ∈ q.indices (q.stmtSet g t), c < q.stmtNum := fun c hc => (mem_indices.1 hc).1
  have hout : st'.outputted = st.outputted := hdel.outputted
  have hpath : st'.path = st.path := hdel.path
  have hmem : ∀ i < q.stmtNum, (q.sid i ∈ st'.deleted ↔
      q.sid i ∈ st.deleted ∨ i ∈ q.stmtSet g t) := by
    intro i hi
    rw [hdel.mem, sid_mem_group hl hi, mem_indices]
    simp [hi]
  have hleft' : ∀ i < q.stmtNum, q.Left st' i → q.Left st i ∧ i ∉ q.stmtSet g t := by
    intro i hi hli
    have := (hmem i hi).not.1 hli.2
    rw [not_or] at this
    exact ⟨⟨hout ▸ hli.1, this.1⟩, this.2⟩
  have hbranch : ∀ i j, i < q.stmtNum → j < q.stmtNum → (q.Branch st'.tmp i j ↔
      q.Branch st.tmp i j ∧ i ∉ q.indices (q.stmtSet g t) ∧ j ∉ q.indices (q.stmtSet g t)) :=
    fun i j hi hj => hdel.tmp.branch_iff hi hj
  have hnot : ∀ i, i ∉ q.stmtSet g t → i ∉ q.indices (q.stmtSet g t) :=
    fun i hi hc => hi (mem_indices.1 hc).2
  refine ⟨hsame, ?_, ?_, ?_, ?_, ?_, ?_, ?_, ?_, ?_, ?_, ?_⟩
  · rintro s (hs | hs)
    · exact h.ids s (Or.inl (hout ▸ hs))
    · rcases (hdel.mem s).1 hs with hs | ⟨c, hc, rfl⟩
      · exact h.ids s (Or.inr hs)
      · exact ⟨c, hl c hc, rfl⟩
  · intro s hs hd
    rw [hout] at hs
    rcases (hdel.mem s).1 hd with hd | ⟨c, hc, rfl⟩
    · exact h.apart s hs hd
    · exact (h.left_of_mem ht hleft (mem_indices.1 hc).2).1 hs
  · rw [hout]; exact h.outClosed
  · intro i hi hs j hj
    have hjn := lt_of_mem_stmtSet hi hj
    rw [hmem j hjn]
    rcases (hmem i hi).1 hs with hs | hs
    · exact Or.inl (h.delClosed i hi hs j hj)
    · exact Or.inr (stmtSet_eq ht hs ▸ hj)
  · exact fun s hs => (hdel.mem s).2 (Or.inl (h.keepsGiven hs))
  · exact fun i hi hs => (hdel.mem _).2 (Or.inl (h.aborted i hi hs))
  · intro i j hi hj hord hli hlj
    obtain ⟨hli, hit⟩ := hleft' i hi hli
    obtain ⟨hlj, hjt⟩ := hleft' j hj hlj
    exact (hbranch i j hi hj).2 ⟨h.keeps i j hi hj hord hli hlj, hnot i hit, hnot j hjt⟩
  · intro i j hi hj hb
    obtain ⟨hb, hni, -⟩ := (hbranch i j hi hj).1 hb
    obtain ⟨hord, ho, hd⟩ := h.only i j hi hj hb
    refine ⟨hord, hout ▸ ho, fun hs => ?_⟩
    rcases (hmem i hi).1 hs with hs | hs
    · exact hd hs
    · exact absurd (mem_indices.2 ⟨hi, hs⟩) hni
  · intro i j hi hj hs hord hne hli
    exact h.preds i j hi hj (hout ▸ hs) hord hne (hleft' i hi hli).1
  · rw [hpath, hout]; exact h.mem_path
  · rw [hpath]; exact h.chained

/-- The number of statements that are done. -/
def doneNum (st : SortState) : ℕ := st.outputted.card + st.deleted.card

theorem exists_left (h : doneNum st < q.stmtNum) : ∃ i < q.stmtNum, q.Left st i := by
  by_contra hnone
  have hsub : (Finset.range q.stmtNum).image q.sid ⊆ st.outputted ∪ st.deleted := by
    intro s hs
    obtain ⟨i, hi, rfl⟩ := Finset.mem_image.1 hs
    by_contra hs
    rw [Finset.mem_union, not_or] at hs
    exact hnone ⟨i, Finset.mem_range.1 hi, hs⟩
  have hcard : ((Finset.range q.stmtNum).image q.sid).card = q.stmtNum := by
    rw [Finset.card_image_of_injOn, Finset.card_range]
    intro i hi j hj hij
    exact sid_inj (by simpa using hi) (by simpa using hj) hij
  have h1 := Finset.card_le_card hsub
  have h2 := Finset.card_union_le st.outputted st.deleted
  unfold doneNum at h
  omega

theorem SortInv.doneNum_eq (h : q.SortInv g given st) :
    doneNum st = (st.outputted ∪ st.deleted).card :=
  (Finset.card_union_of_disjoint (Finset.disjoint_left.2 h.apart)).symm

theorem SortInv.card_le (h : q.SortInv g given st) {s : Finset StmtId}
    (hs : ∀ x ∈ s, x ∈ st.outputted ∪ st.deleted ∨ ∃ i < q.stmtNum, x = q.sid i) :
    s.card ≤ q.stmtNum := by
  have hsub : s ⊆ (Finset.range q.stmtNum).image q.sid := by
    intro x hx
    obtain ⟨k, hk, rfl⟩ : ∃ k < q.stmtNum, x = q.sid k := by
      rcases hs x hx with hx | hx
      · exact h.ids x (Finset.mem_union.1 hx)
      · exact hx
    exact Finset.mem_image.2 ⟨k, Finset.mem_range.2 hk, rfl⟩
  have h1 := Finset.card_le_card hsub
  have h2 := Finset.card_image_le (s := Finset.range q.stmtNum) (f := q.sid)
  rw [Finset.card_range] at h2
  omega

theorem SortInv.doneNum_le (h : q.SortInv g given st) : doneNum st ≤ q.stmtNum := by
  rw [h.doneNum_eq]
  exact h.card_le fun x hx => Or.inl hx

theorem SortInv.not_left (h : q.SortInv g given st) (hdone : q.stmtNum ≤ doneNum st)
    (hi : i < q.stmtNum) : ¬ q.Left st i := by
  intro hleft
  have hni : q.sid i ∉ st.outputted ∪ st.deleted := by
    rw [Finset.mem_union, not_or]
    exact hleft
  have hcard := h.card_le (s := insert (q.sid i) (st.outputted ∪ st.deleted)) fun x hx => by
    rcases Finset.mem_insert.1 hx with rfl | hx
    · exact Or.inr ⟨i, hi, rfl⟩
    · exact Or.inl hx
  rw [Finset.card_insert_of_notMem hni, ← h.doneNum_eq] at hcard
  omega

/-- A set with one more element. -/
theorem card_lt_of_insert {s s' : Finset StmtId} {x : StmtId} (hsub : s ⊆ s') (h : x ∉ s)
    (h' : x ∈ s') : s.card < s'.card :=
  Finset.card_lt_card ⟨hsub, fun hback => h (hback h')⟩

theorem OutputBy.doneNum_lt {t : ℕ} {g' : StmtGraph} (ht : t < q.stmtNum) (hleft : q.Left st t)
    (h : q.OutputBy (q.indices (q.stmtSet g t)) { st with graph := g' } st') :
    doneNum st < doneNum st' := by
  have hself : t ∈ q.indices (q.stmtSet g t) := mem_indices.2 ⟨ht, self_mem_stmtSet ht⟩
  have hdeleted : st'.deleted = st.deleted := h.deleted
  have hcard : st.outputted.card < st'.outputted.card :=
    card_lt_of_insert (fun s hs => (h.mem s).2 (Or.inl hs)) hleft.1
      ((h.mem _).2 (Or.inr ⟨t, hself, rfl⟩))
  unfold doneNum
  rw [hdeleted]
  omega

theorem DeletedBy.doneNum_lt {t : ℕ} {g' : StmtGraph} {b : Bool} (ht : t < q.stmtNum)
    (hleft : q.Left st t)
    (h : q.DeletedBy (q.indices (q.stmtSet g t)) { st with graph := g', deleteFlag := b } st') :
    doneNum st < doneNum st' := by
  have hself : t ∈ q.indices (q.stmtSet g t) := mem_indices.2 ⟨ht, self_mem_stmtSet ht⟩
  have houtputted : st'.outputted = st.outputted := h.outputted
  have hcard : st.deleted.card < st'.deleted.card :=
    card_lt_of_insert (fun s hs => (h.mem s).2 (Or.inl hs)) hleft.2
      ((h.mem _).2 (Or.inr ⟨t, hself, rfl⟩))
  unfold doneNum
  rw [houtputted]
  omega

/-- What a round keeps, and how the flag can change. -/
theorem SortInv.round (h : q.SortInv g given st) (hleft : ∃ i < q.stmtNum, q.Left st i) :
    ∃ st', q.sortRound st = .ok st' ∧ q.SortInv g given st' ∧ doneNum st < doneNum st' ∧
      (st'.deleteFlag = st.deleteFlag ∧ st'.deleted = st.deleted ∨
        st'.deleteFlag = true ∧ ∀ i < q.stmtNum, q.Left st i → q.Entered g st.tmp i) := by
  obtain ⟨t, st', hok, ht, hl, hsame, g'', hcase⟩ := sortRound_spec h.same hleft
  rcases hcase with ⟨hentered, hout⟩ | ⟨hall, hdel⟩
  · exact ⟨st', hok, h.output ht hl hentered hsame hout, hout.doneNum_lt ht hl,
      Or.inl ⟨hout.flag, hout.deleted⟩⟩
  · exact ⟨st', hok, h.delete ht hl hsame hdel, hdel.doneNum_lt ht hl, Or.inr ⟨hdel.flag, hall⟩⟩

/-- The main loop ends, whatever the caller deleted: each round does a statement. -/
theorem sortLoop_ends {fuel : ℕ} (hg : SameLabels g st.graph)
    (hfuel : q.stmtNum - doneNum st < fuel) : ∃ st', q.sortLoop fuel st = .ok st' := by
  induction fuel generalizing st with
  | zero => omega
  | succ fuel ih =>
    rw [sortLoop]
    split_ifs with hlt
    · obtain ⟨t, st', hok, ht, hl, hsame, g'', hcase⟩ := sortRound_spec hg (exists_left hlt)
      have hdone : doneNum st < doneNum st' := by
        rcases hcase with ⟨-, hout⟩ | ⟨-, hdel⟩
        · exact hout.doneNum_lt ht hl
        · exact hdel.doneNum_lt ht hl
      have hnum : doneNum st < q.stmtNum := hlt
      simp only [hok, bind, Except.bind]
      exact ih hsame (by omega)
    · exact ⟨st, rfl⟩

/-- The sort ends, with a path or with an exception of the source. -/
theorem topologicalSortPath_ne_outOfFuel (q : AnalyzedQueue) (g : StmtGraph)
    (deletedNodes : Finset StmtId) : q.topologicalSortPath g deletedNodes ≠ .error .outOfFuel := by
  obtain ⟨st, hst⟩ := sortLoop_ends (q := q) (SameLabels.refl (q.sortInit g deletedNodes).graph)
    (Nat.lt_succ_of_le (Nat.sub_le q.stmtNum (doneNum (q.sortInit g deletedNodes))))
  refine bind_ne_error (by simp [hst]) fun st _ => ?_
  refine bind_ne_error (eraseInPlace_ne_error (fun s => by simp) _ _ _) fun path _ => ?_
  refine bind_ne_error (eraseInPlace_ne_error (fun s => ?_) _ _ _) fun path _ => by
    simp [pure, Except.pure]
  unfold isReplaced
  split <;> simp

/-- The main loop ends with every statement done, and keeps what each round keeps. -/
theorem sortLoop_spec {P : SortState → Prop} (hbound : ∀ st, P st → doneNum st ≤ q.stmtNum)
    (hround : ∀ st, P st → (∃ i < q.stmtNum, q.Left st i) →
      ∃ st', q.sortRound st = .ok st' ∧ P st' ∧ doneNum st < doneNum st')
    {fuel : ℕ} (h : P st) (hfuel : q.stmtNum < fuel + doneNum st) :
    ∃ st', q.sortLoop fuel st = .ok st' ∧ P st' ∧ q.stmtNum ≤ doneNum st' := by
  induction fuel generalizing st with
  | zero =>
    have := hbound st h
    omega
  | succ fuel ih =>
    rw [sortLoop]
    split_ifs with hlt
    · obtain ⟨st', hok, hP, hdone⟩ := hround st h (exists_left hlt)
      simp only [hok, bind, Except.bind]
      exact ih hP (by omega)
    · exact ⟨st, rfl, h, Nat.le_of_not_lt hlt⟩

end AnalyzedQueue

end DbFuzz
