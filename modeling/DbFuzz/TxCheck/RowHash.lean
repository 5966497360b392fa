import DbFuzz.TxCheck.RoundTest

/-! The byte sequences that the two row hashes are fed with. Both put the columns of a row
together, and the ends of the columns are lost. -/

namespace DbFuzz

/-- The hash of a byte sequence. -/
def hashBytes (bytes : List UInt8) : UInt64 := bytes.foldl (fun h c => h * 131 + charToSizeT c) 0

/-- What `BKDRHash` reads of a column. -/
def cStrHead (cell : String) : List UInt8 := (cStr cell).takeWhile (· ≠ 0)

/-- What `hash_output_to_set` hashes of a row. -/
def rowBytes (row : RowOutput) : List UInt8 := (row.map cStrHead).flatten

/-- What `dependency_analyzer::hash_output` hashes of a row. -/
def outputBytes (row : RowOutput) : List UInt8 := (row.map cStr).flatten

theorem bkdrHash_eq (str : List UInt8) (hash : UInt64) :
    bkdrHash str hash = (str.takeWhile (· ≠ 0)).foldl (fun h c => h * 131 + charToSizeT c) hash := by
  induction str generalizing hash with
  | nil => rfl
  | cons c str ih =>
    rw [bkdrHash]
    by_cases hc : c = 0
    · rw [if_pos hc, List.takeWhile_cons_of_neg (by simpa using hc), List.foldl_nil]
    · rw [if_neg hc, List.takeWhile_cons_of_pos (by simpa using hc), List.foldl_cons, ih]

theorem hashRow_eq (row : RowOutput) : hashRow row = hashBytes (rowBytes row) := by
  unfold hashRow hashBytes rowBytes
  rw [List.foldl_flatten, List.foldl_map]
  exact List.foldl_ext _ _ _ fun hash cell _ => bkdrHash_eq _ _

theorem hashOutput_eq (row : RowOutput) : hashOutput row = hashBytes (outputBytes row) := by
  unfold hashOutput hashBytes outputBytes
  rw [List.foldl_flatten, List.foldl_map]

theorem cStr_injective : Function.Injective cStr := by
  intro a b h
  have hbytes : a.toUTF8 = b.toUTF8 := ByteArray.ext (Array.toList_inj.1 h)
  exact String.toByteArray_inj.1 hbytes

/-! The lost ends. -/

/-- Where the columns end, and what stands behind a NUL in them. -/
def rowEnds (row : RowOutput) : List (ℕ × List UInt8) :=
  row.map fun cell => ((cStrHead cell).length, (cStr cell).dropWhile (· ≠ 0))

def outputEnds (row : RowOutput) : List ℕ := row.map fun cell => (cStr cell).length

theorem eq_of_outputEnds {row row' : RowOutput} (h : outputBytes row = outputBytes row')
    (hends : outputEnds row = outputEnds row') : row = row' := by
  refine (List.map_injective_iff.2 cStr_injective) ?_
  refine (List.eq_iff_flatten_eq).2 ⟨h, ?_⟩
  rw [List.map_map, List.map_map]
  exact hends

theorem eq_of_rowEnds {row row' : RowOutput} (h : rowBytes row = rowBytes row')
    (hends : rowEnds row = rowEnds row') : row = row' := by
  have hlengths := congrArg (List.map Prod.fst) hends
  have hrests := congrArg (List.map Prod.snd) hends
  unfold rowEnds at hlengths hrests
  rw [List.map_map, List.map_map] at hlengths hrests
  have hheads : row.map cStrHead = row'.map cStrHead := by
    refine (List.eq_iff_flatten_eq).2 ⟨h, ?_⟩
    rw [List.map_map, List.map_map]
    exact hlengths
  refine (List.map_injective_iff.2 cStr_injective) ?_
  have hsplit : ∀ row : RowOutput, row.map cStr = List.zipWith (· ++ ·) (row.map cStrHead)
      (row.map fun cell => (cStr cell).dropWhile (· ≠ 0)) := by
    intro row
    rw [List.zipWith_map, List.zipWith_self]
    exact List.map_congr_left fun cell _ => (List.takeWhile_append_dropWhile).symm
  rw [hsplit, hsplit, hheads]
  exact congrArg _ hrests

/-- The byte sequence determines a row among those whose columns end at the same places. -/
theorem rowBytes_injOn_iff (row row' : RowOutput) :
    (row ≠ row' → rowBytes row ≠ rowBytes row') ↔
      (rowBytes row = rowBytes row' → rowEnds row = rowEnds row') := by
  constructor
  · intro h hbytes
    by_cases hrow : row = row'
    · rw [hrow]
    · exact absurd hbytes (h hrow)
  · intro h hne hbytes
    exact hne (eq_of_rowEnds hbytes (h hbytes))

theorem outputBytes_injOn_iff (row row' : RowOutput) :
    (row ≠ row' → outputBytes row ≠ outputBytes row') ↔
      (outputBytes row = outputBytes row' → outputEnds row = outputEnds row') := by
  constructor
  · intro h hbytes
    by_cases hrow : row = row'
    · rw [hrow]
    · exact absurd hbytes (h hrow)
  · intro h hne hbytes
    exact hne (eq_of_outputEnds hbytes (h hbytes))

/-! `compare_output` -/

/-- The outputs have the same rows, statement by statement. -/
def SameOutputs (a b : List StmtOutput) : Prop :=
  List.Forall₂ (fun x y => (nomoalizeContent x).Perm (nomoalizeContent y)) a b

/-- The rows of the outputs put together to the same texts. -/
def SameBytes (a b : List StmtOutput) : Prop :=
  List.Forall₂ (fun x y => ((nomoalizeContent x).map rowBytes).Perm
    ((nomoalizeContent y).map rowBytes)) a b

/-- They also have the same column ends. -/
def SameEnds (a b : List StmtOutput) : Prop :=
  List.Forall₂ (fun x y => ((nomoalizeContent x).map fun row => (rowBytes row, rowEnds row)).Perm
    ((nomoalizeContent y).map fun row => (rowBytes row, rowEnds row))) a b

/-- No two byte sequences of the outputs collide. -/
def NoCollision (outputs : List StmtOutput) : Prop :=
  ∀ x ∈ outputs, ∀ y ∈ outputs, ∀ row ∈ nomoalizeContent x, ∀ row' ∈ nomoalizeContent y,
    hashBytes (rowBytes row) = hashBytes (rowBytes row') → rowBytes row = rowBytes row'

theorem hashOutputToSet_eq_iff (a b : StmtOutput) :
    hashOutputToSet a = hashOutputToSet b ↔ (a.map hashRow).Perm (b.map hashRow) := by
  constructor
  · intro h
    have hperm := List.perm_insertionSort (· ≤ ·) (a.map hashRow)
    unfold hashOutputToSet at h
    rw [h] at hperm
    exact hperm.symm.trans (List.perm_insertionSort _ _)
  · intro h
    have hperm := (List.perm_insertionSort (· ≤ ·) (a.map hashRow)).trans
      (h.trans (List.perm_insertionSort (· ≤ ·) (b.map hashRow)).symm)
    exact hperm.eq_of_pairwise' (List.pairwise_insertionSort _ _) (List.pairwise_insertionSort _ _)

theorem sameHashes_iff (a b : StmtOutput) :
    sameHashes a b = true ↔ (a.map hashRow).Perm (b.map hashRow) := by
  rw [← hashOutputToSet_eq_iff]
  unfold sameHashes
  by_cases hlen : (hashOutputToSet a).length = (hashOutputToSet b).length
  · rw [if_neg (by simpa using hlen)]
    simp only [List.all_eq_true, List.mem_range, beq_iff_eq]
    constructor
    · intro h
      refine List.ext_getElem? fun i => ?_
      by_cases hi : i < (hashOutputToSet a).length
      · exact h i hi
      · rw [List.getElem?_eq_none (by omega), List.getElem?_eq_none (by omega)]
    · intro h i _
      rw [h]
  · rw [if_pos hlen]
    exact ⟨fun h => absurd h Bool.false_ne_true, fun h => absurd (congrArg List.length h) hlen⟩

/-- A map that is injective on the members of two lists keeps and reflects permutations. -/
theorem map_perm_iff_of_injOn {α β : Type} [Nonempty α] {f : α → β} {l l' : List α}
    (h : Set.InjOn f {x | x ∈ l ∨ x ∈ l'}) : (l.map f).Perm (l'.map f) ↔ l.Perm l' := by
  refine ⟨fun hperm => ?_, fun hperm => hperm.map f⟩
  let g : β → α := Function.invFunOn f {x | x ∈ l ∨ x ∈ l'}
  have hback : ∀ m : List α, (∀ x ∈ m, x ∈ l ∨ x ∈ l') → (m.map f).map g = m := by
    intro m hm
    rw [List.map_map]
    exact (List.map_congr_left fun x hx => h.leftInvOn_invFunOn (hm x hx)).trans (List.map_id m)
  rw [← hback l fun x hx => Or.inl hx, ← hback l' fun x hx => Or.inr hx]
  exact (hperm.map g).trans (by rw [hback l' fun x hx => Or.inr hx])

theorem compareOutput_iff_zip (a b : List StmtOutput) : compareOutput a b = true ↔
    List.Forall₂ (fun x y => sameHashes (nomoalizeContent x) (nomoalizeContent y) = true) a b := by
  rw [compareOutput, Bool.and_eq_true, beq_iff_eq, List.all_eq_true, List.forall₂_iff_zip]
  exact and_congr_right fun _ => ⟨fun h x y hxy => h (x, y) hxy, fun h e he => h he⟩

/-- Without a collision the outputs are accepted when their rows put together are the same
texts. -/
theorem compareOutput_iff {a b : List StmtOutput} (h : NoCollision (a ++ b)) :
    compareOutput a b = true ↔ SameBytes a b := by
  rw [compareOutput_iff_zip, SameBytes, List.forall₂_iff_zip, List.forall₂_iff_zip]
  refine and_congr_right fun _ => forall_congr' fun x => forall_congr' fun y =>
    imp_congr_right fun hxy => ?_
  have hx : x ∈ a ++ b := List.mem_append_left _ (List.of_mem_zip hxy).1
  have hy : y ∈ a ++ b := List.mem_append_right _ (List.of_mem_zip hxy).2
  rw [sameHashes_iff]
  have hhash : hashRow = hashBytes ∘ rowBytes := funext hashRow_eq
  rw [hhash, ← List.map_map, ← List.map_map]
  refine map_perm_iff_of_injOn ?_
  have hrow : ∀ bytes, bytes ∈ (nomoalizeContent x).map rowBytes ∨
      bytes ∈ (nomoalizeContent y).map rowBytes →
        ∃ z ∈ a ++ b, ∃ row ∈ nomoalizeContent z, rowBytes row = bytes := by
    rintro bytes (hbytes | hbytes)
    · obtain ⟨row, hmem, rfl⟩ := List.mem_map.1 hbytes
      exact ⟨x, hx, row, hmem, rfl⟩
    · obtain ⟨row, hmem, rfl⟩ := List.mem_map.1 hbytes
      exact ⟨y, hy, row, hmem, rfl⟩
  intro bytes hbytes bytes' hbytes' heq
  obtain ⟨z, hz, row, hmem, rfl⟩ := hrow bytes hbytes
  obtain ⟨z', hz', row', hmem', rfl⟩ := hrow bytes' hbytes'
  exact h z hz z' hz' row hmem row' hmem' heq

/-- The rows and their texts with the ends of the columns are the same thing. -/
theorem sameOutputs_iff_sameEnds (a b : List StmtOutput) : SameOutputs a b ↔ SameEnds a b := by
  have hinj : Function.Injective fun row : RowOutput => (rowBytes row, rowEnds row) :=
    fun row row' h => eq_of_rowEnds (Prod.mk.inj h).1 (Prod.mk.inj h).2
  unfold SameOutputs SameEnds
  rw [List.forall₂_iff_zip, List.forall₂_iff_zip]
  exact and_congr_right fun _ => forall_congr' fun x => forall_congr' fun y =>
    imp_congr_right fun _ => (List.map_perm_map_iff hinj).symm

theorem SameEnds.sameBytes {a b : List StmtOutput} (h : SameEnds a b) : SameBytes a b := by
  refine List.Forall₂.imp (fun x y hxy => ?_) h
  have hmap := hxy.map Prod.fst
  rw [List.map_map, List.map_map] at hmap
  exact hmap

end DbFuzz
