import DbFuzz.Lib.VersionStore
import DbFuzz.TxCheck.Leader

/-! Serial executions over a reference store, and the direction of the edges the analyzer
builds for them. -/

namespace DbFuzz

open Relation Loop VersionStore

/-- A run of the reference store: rows by table, primary key and version key, and one
operation for each statement of the queue. -/
abbrev ReferenceRun := VersionStore.Run String ℤ ℤ

def rowKeys (s : Store String ℤ ℤ) : Finset (ℤ × ℤ) := s.image fun r => (r.key, r.version)

namespace AnalyzedQueue

def Committed (q : AnalyzedQueue) (i : ℕ) : Prop := q.status (q.tid i) = .commit

instance (q : AnalyzedQueue) (i : ℕ) : Decidable (q.Committed i) :=
  inferInstanceAs (Decidable (q.status (q.tid i) = .commit))

/-- The keys of an output are exactly `keys`. -/
def KeysAre (q : AnalyzedQueue) (i : ℕ) (keys : Finset (ℤ × ℤ)) : Prop :=
  match q.pairSet (q.output i) with
  | .ok pairs => pairs.toFinset = keys
  | .error _ => False

/-- The keys of an output are among `keys`. -/
def KeysWithin (q : AnalyzedQueue) (i : ℕ) (keys : Finset (ℤ × ℤ)) : Prop :=
  match q.pairSet (q.output i) with
  | .ok pairs => pairs.toFinset ⊆ keys
  | .error _ => False

/-- The statement changes the store as its type says, and its output is the true one. The
table of a write is the one its instrumented read names. -/
def Truthful (q : AnalyzedQueue) (run : ReferenceRun) (i : ℕ) : Prop :=
  match (q.usage i).stmtType with
  | .initType => (run.op i).isKeep = true ∧ q.output i = []
  | .selectRead => (run.op i).isKeep = true ∧ q.KeysWithin i (rowKeys (run.store i))
  | .versionSetRead => (run.op i).isKeep = true ∧
      q.KeysAre i (rowKeys ((run.store i).filter fun r => r.table = (q.usage i).targetTable))
  | .beforeWriteRead => (run.op i).isKeep = true ∧
      q.KeysAre i (rowKeys (run.op (i + 1)).affected)
  | .afterWriteRead => (run.op i).isKeep = true ∧
      q.KeysAre i (rowKeys ((run.store i).filter fun r =>
        (run.op (i - 1)).newVersion = some r.version))
  | .updateWrite =>
    match run.op i with
    | .update rows _ => ∀ r ∈ rows, r.table = (q.usage (i - 1)).targetTable
    | _ => False
  | .deleteWrite =>
    match run.op i with
    | .delete rows => ∀ r ∈ rows, r.table = (q.usage (i - 1)).targetTable
    | _ => False
  | .insertWrite =>
    match run.op i with
    | .insert row => row.table = (q.usage (i + 1)).targetTable
    | _ => False

instance (q : AnalyzedQueue) (i : ℕ) (keys : Finset (ℤ × ℤ)) : Decidable (q.KeysAre i keys) := by
  unfold KeysAre
  split <;> infer_instance

instance (q : AnalyzedQueue) (i : ℕ) (keys : Finset (ℤ × ℤ)) : Decidable (q.KeysWithin i keys) := by
  unfold KeysWithin
  split <;> infer_instance

instance (q : AnalyzedQueue) (run : ReferenceRun) (i : ℕ) : Decidable (q.Truthful run i) := by
  unfold Truthful
  split
  iterate 5 infer_instance
  all_goals split <;> infer_instance

/-- A serial execution: committed transactions are contiguous and stand between control
statements, their statements are truthful, and the others leave the store as it is. -/
structure SerialRun (q : AnalyzedQueue) (run : ReferenceRun) : Prop where
  valid : run.Valid
  borders : ∀ i < q.stmtNum, q.IsFirst i ∨ q.IsLast i → (q.usage i).stmtType = .initType
  contiguous : ∀ k < q.stmtNum, q.Committed k → ∀ j < k, ∀ i < j, q.tid i = q.tid k →
    q.tid j = q.tid k
  truthful : ∀ i < q.stmtNum, q.Committed i → q.Truthful run i
  aborted : ∀ i < q.stmtNum, ¬ q.Committed i → (run.op i).isKeep = true

/-- A delete of rows in a table that a version set read saw before it deletes a row that
was not inserted since. -/
def DeletesSeen (q : AnalyzedQueue) (run : ReferenceRun) : Prop :=
  ∀ i d rows, i < d → d < q.stmtNum → q.Committed i → q.Committed d →
    (q.usage i).stmtType = .versionSetRead → run.op d = .delete rows → rows.Nonempty →
    (∀ r ∈ rows, r.table = (q.usage i).targetTable) →
    ∃ r ∈ rows, ∀ k row, i ≤ k → k < d → run.op k = .insert row → row.key ≠ r.key

/-- No row inserted into a table before a version set read of it is deleted before the
read. -/
def InsertsStay (q : AnalyzedQueue) (run : ReferenceRun) : Prop :=
  ∀ i j d row rows, j < d → d < i → i < q.stmtNum → q.Committed i →
    (q.usage i).stmtType = .versionSetRead → run.op j = .insert row →
    row.table = (q.usage i).targetTable → run.op d = .delete rows → ∀ r ∈ rows, r.key ≠ row.key

variable {q : AnalyzedQueue} {run : ReferenceRun} {i j : ℕ} {p v : ℤ}

theorem KeysAre.reads_iff {keys : Finset (ℤ × ℤ)} (h : q.KeysAre i keys) (pv : ℤ × ℤ) :
    q.Reads i pv ↔ pv ∈ keys := by
  unfold KeysAre at h
  split at h
  · next pairs hpairs => rw [← h, List.mem_toFinset, mem_pairSet hpairs]
  · exact h.elim

theorem KeysWithin.mem_of_reads {keys : Finset (ℤ × ℤ)} (h : q.KeysWithin i keys) {pv : ℤ × ℤ}
    (hr : q.Reads i pv) : pv ∈ keys := by
  unfold KeysWithin at h
  split at h
  · next pairs hpairs => exact h (List.mem_toFinset.2 ((mem_pairSet hpairs pv).2 hr))
  · exact h.elim

theorem mem_rowKeys {s : Store String ℤ ℤ} :
    (p, v) ∈ rowKeys s ↔ ∃ r ∈ s, r.key = p ∧ r.version = v := by
  simp [rowKeys]

theorem KeysAre.exists_reads {keys : Finset (ℤ × ℤ)} (h : q.KeysAre i keys)
    (hne : q.output i ≠ []) : ∃ pv, q.Reads i pv := by
  obtain ⟨row, hrow⟩ := List.exists_mem_of_ne_nil _ hne
  unfold KeysAre at h
  split at h
  · next pairs hpairs =>
    obtain ⟨pv, hpv⟩ := exists_of_mapM hpairs hrow
    exact ⟨pv, row, hrow, hpv⟩
  · exact h.elim

/-! What truthful statements read. -/

theorem Truthful.output_init (h : q.Truthful run i) (ht : (q.usage i).stmtType = .initType) :
    q.output i = [] := by
  unfold Truthful at h
  rw [ht] at h
  exact h.2

theorem Truthful.reads_versionSet (h : q.Truthful run i)
    (ht : (q.usage i).stmtType = .versionSetRead) : q.Reads i (p, v) ↔
      ∃ r ∈ run.store i, r.table = (q.usage i).targetTable ∧ r.key = p ∧ r.version = v := by
  unfold Truthful at h
  rw [ht] at h
  rw [h.2.reads_iff, mem_rowKeys]
  simp only [Finset.mem_filter, and_assoc]

theorem Truthful.keys_beforeWrite (h : q.Truthful run i)
    (ht : (q.usage i).stmtType = .beforeWriteRead) :
    q.KeysAre i (rowKeys (run.op (i + 1)).affected) := by
  unfold Truthful at h
  rw [ht] at h
  exact h.2

theorem Truthful.reads_beforeWrite (h : q.Truthful run i)
    (ht : (q.usage i).stmtType = .beforeWriteRead) : q.Reads i (p, v) ↔
      ∃ r ∈ (run.op (i + 1)).affected, r.key = p ∧ r.version = v := by
  rw [(h.keys_beforeWrite ht).reads_iff, mem_rowKeys]

theorem Truthful.reads_afterWrite (h : q.Truthful run i)
    (ht : (q.usage i).stmtType = .afterWriteRead) : q.Reads i (p, v) ↔
      ∃ r ∈ run.store i, (run.op (i - 1)).newVersion = some r.version ∧ r.key = p ∧
        r.version = v := by
  unfold Truthful at h
  rw [ht] at h
  rw [h.2.reads_iff, mem_rowKeys]
  simp only [Finset.mem_filter, and_assoc]

/-- A read only returns what the store holds. -/
theorem Truthful.present (h : q.Truthful run i) (ht : (q.usage i).stmtType = .selectRead ∨
    (q.usage i).stmtType = .afterWriteRead) (hr : q.Reads i (p, v)) : run.Present i p v := by
  rcases ht with ht | ht
  · unfold Truthful at h
    rw [ht] at h
    exact mem_rowKeys.1 (h.2.mem_of_reads hr)
  · obtain ⟨r, hr, -, hk⟩ := (h.reads_afterWrite ht).1 hr
    exact ⟨r, hr, hk⟩

theorem Truthful.op_delete (h : q.Truthful run i) (ht : (q.usage i).stmtType = .deleteWrite) :
    ∃ rows, run.op i = .delete rows ∧ ∀ r ∈ rows, r.table = (q.usage (i - 1)).targetTable := by
  unfold Truthful at h
  rw [ht] at h
  dsimp only at h
  split at h
  · next rows hop => exact ⟨rows, hop, h⟩
  · exact h.elim

theorem Truthful.op_insert (h : q.Truthful run i) (ht : (q.usage i).stmtType = .insertWrite) :
    ∃ row, run.op i = .insert row ∧ row.table = (q.usage (i + 1)).targetTable := by
  unfold Truthful at h
  rw [ht] at h
  dsimp only at h
  split at h
  · next row hop => exact ⟨row, hop, h⟩
  · exact h.elim

theorem ne_of_usage {s t : StmtBasicType} (hi : (q.usage i).stmtType = s)
    (hj : (q.usage j).stmtType = t) (h : s ≠ t) : i ≠ j := by
  rintro rfl
  exact h (hi.symm.trans hj)

theorem Placed.before (h : q.Placed i) (ht : (q.usage i).stmtType = .beforeWriteRead) :
    q.InstrumentEdge i (i + 1) := by
  unfold Placed at h
  rw [ht] at h
  exact h

theorem Placed.versionSet (h : q.Placed i) (ht : (q.usage i).stmtType = .versionSetRead) :
    ∃ n, q.InstrumentEdge i n ∧ q.NextNormal i n := by
  unfold Placed at h
  rw [ht] at h
  obtain ⟨n, hedge⟩ := h
  have hkeep := hedge
  cases hedge with
  | before hi => rw [ht] at hi; cases hi
  | after _ _ _ hprev => rw [ht] at hprev; simp at hprev
  | versionSet _ hn => exact ⟨n, hkeep, hn⟩

/-! The edges. -/

/-- A read of a version stands before the read in front of the write that replaces it. -/
theorem SerialRun.readWrite_lt (h : q.SerialRun run) (hi : i < q.stmtNum) (hj : j < q.stmtNum)
    (hci : q.Committed i) (hcj : q.Committed j) (hpj : q.Placed j) (he : q.ReadWriteEdge i j) :
    i < j := by
  obtain ⟨⟨p, v⟩, hri, hrj⟩ := he.same
  have hpresent := (h.truthful i hi hci).present he.read hri
  obtain ⟨r, hr, rfl, rfl⟩ := ((h.truthful j hj hcj).reads_beforeWrite he.write).1 hrj
  have hle := h.valid.le_of_affected hr hpresent
  have hj' : i ≠ j := by
    rcases he.read with hu | hu <;> exact ne_of_usage hu he.write (by decide)
  have hnext : i ≠ j + 1 := by
    rintro rfl
    have hedge := hpj.before he.write
    have hw := he.write
    have hread := he.read
    cases hedge with
    | before _ _ _ hnext => rcases hnext with hn | hn <;> rw [hn] at hread <;> simp at hread
    | after _ _ _ hprev => rw [hw] at hprev; simp at hprev
    | versionSet hv => rw [hw] at hv; cases hv
  omega

/-- A version that a version set read sees was written before it; a deleted row that it
does not see was deleted before it. -/
theorem SerialRun.versionSet_lt (h : q.SerialRun run) (hseen : q.DeletesSeen run)
    (hi : i < q.stmtNum) (hj : j < q.stmtNum) (hci : q.Committed i) (hcj : q.Committed j)
    (hplaced : ∀ k < q.stmtNum, q.Placed k) (he : q.VersionSetEdge j i) : j < i := by
  cases he with
  | @seen _ j pv hv hw hafter hlt hread hwritten =>
    obtain ⟨p, v⟩ := pv
    obtain ⟨r, -, hnew, -, rfl⟩ := ((h.truthful (j + 1) hj hcj).reads_afterWrite hafter).1 hwritten
    obtain ⟨r', hr', -, -, hver⟩ := ((h.truthful i hi hci).reads_versionSet hv).1 hread
    have := h.valid.lt_of_newVersion hnew hr' hver
    have hne := ne_of_usage hafter hv (by decide)
    omega
  | gone hv hd hbefore hpos htable hsome hnone =>
    by_contra hji
    have hne := ne_of_usage hv hd (by decide)
    have hij : i < j := by omega
    obtain ⟨m, rfl⟩ : ∃ m, j = m + 1 := ⟨j - 1, by omega⟩
    rw [Nat.add_sub_cancel] at hbefore htable hsome hnone
    obtain ⟨rows, hop, htab⟩ := (h.truthful (m + 1) hj hcj).op_delete hd
    rw [Nat.add_sub_cancel] at htab
    have hcm : q.Committed m := by
      have htid := ((hplaced m (by omega)).before hbefore).tid_eq
      unfold Committed
      rw [htid]
      exact hcj
    have hreads := fun p v => (h.truthful m (by omega) hcm).reads_beforeWrite (p := p) (v := v) hbefore
    rw [hop] at hreads
    have hrowsne : rows.Nonempty := by
      obtain ⟨⟨p, v⟩, hpv⟩ :=
        ((h.truthful m (by omega) hcm).keys_beforeWrite hbefore).exists_reads hsome
      obtain ⟨r, hr, -⟩ := (hreads p v).1 hpv
      exact ⟨r, hr⟩
    obtain ⟨r, hr, hold⟩ := hseen i (m + 1) rows hij hj hci hcj hv hop hrowsne
      fun r hr => (htab r hr).trans htable
    have hrs : r ∈ run.store (m + 1) := by
      have := h.valid.affected_subset (m + 1)
      rw [hop] at this
      exact this hr
    rcases h.valid.traced_back (Nat.le_of_lt hij) hrs with ⟨r', hr', ht', hk'⟩ | ⟨k, row, hik, hkj, hopk, hk⟩
    · refine hnone r.key r'.version r.version ?_ ((hreads _ _).2 ⟨r, hr, rfl, rfl⟩)
      exact ((h.truthful i hi hci).reads_versionSet hv).2
        ⟨r', hr', ht'.trans ((htab r hr).trans htable), hk', rfl⟩
    · exact hold k row hik hkj hopk hk

theorem lt_of_leader_lt (hi : q.Placed i) (hj : q.Placed j)
    (hinit : (q.usage i).stmtType ≠ .initType) (hjnit : (q.usage j).stmtType ≠ .initType)
    (h : q.leader i < q.leader j) : i < j := by
  rcases Nat.lt_trichotomy i j with hij | rfl | hji
  · exact hij
  · omega
  · have := leader_le hj hi hjnit hinit hji
    omega

theorem Original.lt {o : ℕ} (ho : q.Original i o) : i < q.stmtNum := by
  obtain ⟨n, hn, -⟩ := ho
  exact hn.1.trans hn.2.1

/-- The original statement of a version set read, and its transaction. -/
theorem Original.spec {o : ℕ} (ho : q.Original i o) (hv : (q.usage i).stmtType = .versionSetRead)
    (hplaced : ∀ k < q.stmtNum, q.Placed k) :
    ∃ n, q.NextNormal i n ∧ q.leader o = n ∧ q.tid o = q.tid i ∧
      (q.usage o).stmtType ≠ .initType := by
  have hi := ho.lt
  obtain ⟨n, hn, hcase⟩ := ho
  obtain ⟨n', hedge, hn'⟩ := (hplaced i hi).versionSet hv
  obtain rfl := hn.unique hn'
  have htid := hedge.tid_eq
  rcases hcase with ⟨-, hafter, hlt, rfl⟩ | ⟨hread, rfl⟩
  · have hp := hplaced (n + 1) hlt
    unfold Placed at hp
    rw [hafter] at hp
    have hl : q.leader (n + 1) = n := by simp only [leader, hafter]; omega
    exact ⟨n, hn, hl, hp.2.tid_eq.symm.trans htid.symm, by rw [hafter]; decide⟩
  · refine ⟨o, hn, leader_of_normal hn.2.2.1, htid.symm, ?_⟩
    rcases hread with h | h <;> rw [h] <;> decide

/-- A statement that read a version set stands before the writes that changed it, or with
them in one group. -/
theorem SerialRun.overwrite_leader (h : q.SerialRun run) (hstay : q.InsertsStay run)
    {o k : ℕ} (hco : q.Committed o) (hck : q.Committed k) (hk : k < q.stmtNum)
    (hplaced : ∀ k < q.stmtNum, q.Placed k) (he : q.OverwriteEdge o k) :
    q.leader o ≤ q.leader k ∧ (q.usage o).stmtType ≠ .initType ∧
      (q.usage k).stmtType ≠ .initType := by
  have hfirst : ∀ {i n j : ℕ}, q.NextNormal i n → i < j → (q.usage j).stmtType.isNormal = true →
      n ≤ j := by
    intro i n j hn hij hj
    by_contra hlt
    rw [hn.2.2.2 j hij (by omega)] at hj
    cases hj
  cases he with
  | @replaced i j _ pv hv ho hw hbefore hpos hread hreplaced =>
    obtain ⟨p, v⟩ := pv
    have hi := ho.lt
    obtain ⟨n, hn, hl, htid, hinit⟩ := ho.spec hv hplaced
    have hci : q.Committed i := by unfold Committed; rw [← htid]; exact hco
    obtain ⟨m, rfl⟩ : ∃ m, j = m + 1 := ⟨j - 1, by omega⟩
    rw [Nat.add_sub_cancel] at hk hck hbefore hreplaced ⊢
    obtain ⟨r, hr, rfl, rfl⟩ := ((h.truthful m hk hck).reads_beforeWrite hbefore).1 hreplaced
    obtain ⟨r', hr', -, hkey, hver⟩ := ((h.truthful i hi hci).reads_versionSet hv).1 hread
    have hle := h.valid.le_of_affected hr ⟨r', hr', hkey, hver⟩
    have hnormal : (q.usage (m + 1)).stmtType.isNormal = true :=
      isNormal_of_write (hw.imp_right Or.inl)
    have hne : i ≠ m + 1 := by
      rintro rfl
      rw [hv] at hnormal
      cases hnormal
    have hlk : q.leader m = m + 1 := by simp only [leader, hbefore]
    rw [hl, hlk]
    exact ⟨hfirst hn (by omega) hnormal, hinit, by rw [hbefore]; decide⟩
  | @unseen i _ _ hv ho hins hafter hlt htable hsome hnone =>
    have hi := ho.lt
    obtain ⟨n, hn, hl, htid, hinit⟩ := ho.spec hv hplaced
    have hci : q.Committed i := by unfold Committed; rw [← htid]; exact hco
    have hnormal : (q.usage k).stmtType.isNormal = true := by rw [hins]; rfl
    have hlk : q.leader k = k := leader_of_normal hnormal
    have hkinit : (q.usage k).stmtType ≠ .initType := by rw [hins]; decide
    rw [hl, hlk]
    refine ⟨hfirst hn ?_ hnormal, hinit, hkinit⟩
    -- otherwise the inserted row is still there at the read, which sees it
    by_contra hik
    have hne := ne_of_usage hv hins (by decide)
    obtain ⟨row, hop, htab⟩ := (h.truthful k hk hck).op_insert hins
    have hrowtable := htab.trans htable
    obtain ⟨r, hr, ht, hkey⟩ := VersionStore.Run.inserted_stays hop (show k < i by omega)
      fun d rows hkd hdi hopd r hr => hstay i k d row rows hkd hdi hi hci hv hop hrowtable hopd r hr
    have hcafter : q.Committed (k + 1) := by
      have hp := hplaced (k + 1) hlt
      unfold Placed at hp
      rw [hafter] at hp
      have := hp.2.tid_eq
      rw [Nat.add_sub_cancel] at this
      unfold Committed
      rw [← this]
      exact hck
    refine hnone row.key r.version row.version ?_ ?_
    · exact ((h.truthful i hi hci).reads_versionSet hv).2 ⟨r, hr, ht.trans hrowtable, hkey, rfl⟩
    · refine ((h.truthful (k + 1) hlt hcafter).reads_afterWrite hafter).2 ⟨row, ?_, ?_, rfl, rfl⟩
      · rw [VersionStore.Run.store, hop]
        exact Finset.mem_insert_self _ _
      · rw [Nat.add_sub_cancel, hop]
        rfl

end AnalyzedQueue

open AnalyzedQueue

/-- Between the groups of committed statements every data dependency points forward. -/
theorem DependencyAnalyzer.Explained.forward {a : DependencyAnalyzer} {run : ReferenceRun}
    (he : a.Explained) (hrun : a.queue.SerialRun run) (hseen : a.queue.DeletesSeen run)
    (hstay : a.queue.InsertsStay run) {i j : ℕ} (hi : i < a.queue.stmtNum)
    (hj : j < a.queue.stmtNum) (hci : a.queue.Committed i) (hcj : a.queue.Committed j)
    (hne : ¬ a.queue.SameGroup a.graphs.stmt i j)
    (hdata : ∃ dt ∈ a.graphs.stmt.labels (a.queue.sid i) (a.queue.sid j), dt.isData = true) :
    i < j ∧ (a.queue.usage i).stmtType ≠ .initType ∧ (a.queue.usage j).stmtType ≠ .initType := by
  obtain ⟨dt, hdt, hdata⟩ := hdata
  obtain ⟨i', j', hi', hj', hii, hjj, hjust⟩ := he.sound _ _ _ hdt
  obtain rfl := sid_inj hi hi' hii
  obtain rfl := sid_inj hj hj' hjj
  have hwrite : a.queue.WriteEdge i j → i < j ∧ (a.queue.usage i).stmtType ≠ .initType ∧
      (a.queue.usage j).stmtType ≠ .initType := by
    rintro ⟨hlt, hw, pv, row, hrow, -⟩
    refine ⟨hlt, by rw [hw]; decide, fun hinit => ?_⟩
    rw [(hrun.truthful j hj hcj).output_init hinit] at hrow
    cases hrow
  cases dt with
  | startDepend | strictStartDepend | instrumentDepend | innerDepend => cases hdata
  | writeRead => exact hwrite hjust
  | writeWrite => exact hwrite hjust
  | readWrite =>
    have hedge : a.queue.ReadWriteEdge i j := hjust
    refine ⟨hrun.readWrite_lt hi hj hci hcj (he.placed j hj) hedge, ?_, by rw [hedge.write]; decide⟩
    rcases hedge.read with h | h <;> rw [h] <;> decide
  | versionSetDepend =>
    have hedge : a.queue.VersionSetEdge i j := hjust
    refine ⟨hrun.versionSet_lt hseen hj hi hcj hci he.placed hedge, ?_⟩
    cases hedge with
    | seen _ hv _ hafter => exact ⟨by rw [hafter]; decide, by rw [hv]; decide⟩
    | gone hv hd => exact ⟨by rw [hd]; decide, by rw [hv]; decide⟩
  | overwriteDepend =>
    obtain ⟨hle, hinit, hjnit⟩ := hrun.overwrite_leader hstay hci hcj hj he.placed hjust
    have hlne := DependencyAnalyzer.Derived.leader_ne he (.refl a) hi hj hinit hjnit hne
    exact ⟨lt_of_leader_lt (he.placed i hi) (he.placed j hj) hinit hjnit (by omega), hinit, hjnit⟩

/-- A serial execution whose version set reads see the rows that are deleted later, and
miss no row that was inserted before: its edges point forward, and the sort keeps all of
its statements. -/
theorem serial_sorted {inp : AnalyzerInput} {a : DependencyAnalyzer} {run : ReferenceRun}
    (haccept : dependencyAnalyzer inp = .ok a) (hrun : a.queue.SerialRun run)
    (hseen : a.queue.DeletesSeen run) (hstay : a.queue.InsertsStay run) :
    (∀ i j, i < a.queue.stmtNum → j < a.queue.stmtNum → a.queue.Committed i →
      a.queue.Committed j → j ∉ a.queue.stmtSet a.graphs.stmt i →
      (∃ dt ∈ a.graphs.stmt.labels (a.queue.sid i) (a.queue.sid j), dt.isData = true) → i < j) ∧
    ∃ st, a.queue.topologicalSortPath a.graphs.stmt ∅ = .ok st ∧ st.deleteFlag = false ∧
      ∀ i < a.queue.stmtNum, a.queue.Committed i → (a.queue.usage i).stmtType ≠ .initType →
        st.path.count (a.queue.sid i) = 1 := by
  have he := dependencyAnalyzer_explained haccept
  refine ⟨fun i j hi hj hci hcj hne hdata => (he.forward hrun hseen hstay hi hj hci hcj
    (fun h => hne ((mem_stmtSet hi).2 h)) hdata).1, ?_⟩
  obtain ⟨st, hst, hflag, hall⟩ := he.sort_flag (.refl a)
    (show ∀ s ∈ (∅ : Finset StmtId), ∃ i < a.queue.stmtNum, s = a.queue.sid i by simp)
    (by simp) (by simp)
  have hclear : st.deleteFlag = false := by
    by_contra hset
    rw [Bool.not_eq_false, hflag] at hset
    obtain ⟨A, hA⟩ := hset
    refine DependencyAnalyzer.Derived.acyclic_of_forward he (.refl a) ?_ A hA
    exact fun i j hi hj hne hdata =>
      he.forward hrun hseen hstay hi.1 hj.1 hi.2.1 hj.2.1 hne hdata
  refine ⟨st, hst, hclear, fun i hi hci hinit => hall hclear i ⟨hi, hci, by simp⟩ ⟨?_, ?_, hinit⟩⟩
  · exact fun h => hinit (hrun.borders i hi (Or.inl h))
  · exact fun h => hinit (hrun.borders i hi (Or.inr h))

/-- A run of four transactions on `t_0` with the rows its statements return: an insert,
a select, a delete and a select, each between control statements. -/
def fourTxns (outputs : List StmtOutput) (initOutput : List StmtOutput) (tids : List ℕ)
    (usages : List StmtBasicType) : AnalyzerInput where
  initOutput := initOutput
  totalOutput := outputs
  finalTidQueue := tids
  finalStmtUsage := usages.map fun u => ⟨u, false, "t_0"⟩
  finalTxnStatus := [.commit, .commit, .commit, .commit]
  primaryKeyIdx := 1
  writeOpKeyIdx := 0

/-- A row is inserted, the row that was there before is deleted. -/
def deleteOldRow : AnalyzerInput :=
  fourTxns
    [[], [], [["1", "11000"]], [],
      [], [["0", "10000"], ["1", "11000"]], [["0", "10000"]], [],
      [], [["0", "10000"], ["1", "11000"]], [["0", "10000"]], [], [],
      [], [["1", "11000"]], [["1", "11000"]], []]
    [[["0", "10000"]]]
    [0, 0, 0, 0, 1, 1, 1, 1, 2, 2, 2, 2, 2, 3, 3, 3, 3]
    [.initType, .insertWrite, .afterWriteRead, .initType,
      .initType, .versionSetRead, .selectRead, .initType,
      .initType, .versionSetRead, .beforeWriteRead, .deleteWrite, .initType,
      .initType, .versionSetRead, .selectRead, .initType]

def deleteOldRun : ReferenceRun where
  init := {⟨"t_0", 10000, 0⟩}
  ops := [.keep, .insert ⟨"t_0", 11000, 1⟩, .keep, .keep, .keep, .keep, .keep, .keep, .keep, .keep,
    .keep, .delete {⟨"t_0", 10000, 0⟩}]

/-- A row is inserted and deleted again, with a version set read before and one after. -/
def deleteNewRow : AnalyzerInput :=
  fourTxns
    [[], [], [], [],
      [], [], [["1", "11000"]], [],
      [], [["1", "11000"]], [["1", "11000"]], [], [],
      [], [], [], []]
    []
    [0, 0, 0, 0, 1, 1, 1, 1, 2, 2, 2, 2, 2, 3, 3, 3, 3]
    [.initType, .versionSetRead, .selectRead, .initType,
      .initType, .insertWrite, .afterWriteRead, .initType,
      .initType, .versionSetRead, .beforeWriteRead, .deleteWrite, .initType,
      .initType, .versionSetRead, .selectRead, .initType]

def deleteNewRun : ReferenceRun where
  init := ∅
  ops := [.keep, .keep, .keep, .keep, .keep, .insert ⟨"t_0", 11000, 1⟩, .keep, .keep, .keep, .keep,
    .keep, .delete {⟨"t_0", 11000, 1⟩}]

instance (run : ReferenceRun) : Decidable run.Valid :=
  decidable_of_iff (_ ∧ _) ⟨fun h => ⟨h.1, h.2⟩, fun h => ⟨h.1, h.2⟩⟩

instance (q : AnalyzedQueue) (run : ReferenceRun) : Decidable (q.SerialRun run) :=
  decidable_of_iff (_ ∧ _ ∧ _ ∧ _ ∧ _)
    ⟨fun h => ⟨h.1, h.2.1, h.2.2.1, h.2.2.2.1, h.2.2.2.2⟩,
      fun h => ⟨h.valid, h.borders, h.contiguous, h.truthful, h.aborted⟩⟩

/-- The cycle of groups: the insert, the delete and the last read. -/
theorem serial_backward : ∃ a, dependencyAnalyzer deleteNewRow = .ok a ∧
    a.queue.SerialRun deleteNewRun ∧
    .overwriteDepend ∈ a.graphs.stmt.labels (a.queue.sid 11) (a.queue.sid 10) ∧
    .overwriteDepend ∈ a.graphs.stmt.labels (a.queue.sid 15) (a.queue.sid 5) ∧
    .versionSetDepend ∈ a.graphs.stmt.labels (a.queue.sid 11) (a.queue.sid 1) ∧
    ∃ st, a.queue.topologicalSortPath a.graphs.stmt ∅ = .ok st ∧ st.deleteFlag = true := by
  have heval : ((dependencyAnalyzer deleteNewRow).toOption.any fun a =>
      decide (a.queue.SerialRun deleteNewRun ∧
        DependencyType.overwriteDepend ∈ a.graphs.stmt.labels (a.queue.sid 11) (a.queue.sid 10) ∧
        DependencyType.overwriteDepend ∈ a.graphs.stmt.labels (a.queue.sid 15) (a.queue.sid 5) ∧
        DependencyType.versionSetDepend ∈ a.graphs.stmt.labels (a.queue.sid 11) (a.queue.sid 1)) &&
      decide (DependencyType.versionSetDepend ∈ a.graphs.stmt.labels (a.queue.sid 6) (a.queue.sid 9) ∧
        DependencyType.versionSetDepend ∈ a.graphs.stmt.labels (a.queue.sid 11) (a.queue.sid 14)) &&
      decide (∀ i ∈ ([5, 6, 9, 11, 14, 15] : List ℕ), a.queue.Sorted ∅ i) &&
      decide (a.queue.stmtSet a.graphs.stmt 6 = {5, 6} ∧
        a.queue.stmtSet a.graphs.stmt 5 = {5, 6} ∧
        a.queue.stmtSet a.graphs.stmt 9 = {9, 10, 11} ∧
        a.queue.stmtSet a.graphs.stmt 11 = {9, 10, 11} ∧
        a.queue.stmtSet a.graphs.stmt 14 = {14, 15} ∧
        a.queue.stmtSet a.graphs.stmt 15 = {14, 15})) = true := by
    decide +kernel
  cases haccept : dependencyAnalyzer deleteNewRow with
  | error e =>
    rw [haccept] at heval
    cases heval
  | ok a =>
    rw [haccept] at heval
    simp only [Except.toOption, Option.any_some, Bool.and_eq_true, decide_eq_true_eq] at heval
    obtain ⟨⟨⟨⟨hrun, hin, hback, hgone⟩, h69, h1114⟩, hsorted⟩, s6, s5, s9, s11, s14, s15⟩ := heval
    obtain ⟨st, hst, hflag, -⟩ := (dependencyAnalyzer_explained haccept).sort_flag (.refl a)
      (show ∀ s ∈ (∅ : Finset StmtId), ∃ i < a.queue.stmtNum, s = a.queue.sid i by simp)
      (by simp) (by simp)
    refine ⟨a, rfl, hrun, hin, hback, hgone, st, hst, hflag.2 ⟨{5, 6}, ?_⟩⟩
    have hinsert : a.queue.GroupEdge a.graphs.stmt ∅ {5, 6} {9, 10, 11} :=
      ⟨by decide, 6, 9, hsorted 6 (by simp), hsorted 9 (by simp), s6.symm, s9.symm, _, h69, rfl⟩
    have hdelete : a.queue.GroupEdge a.graphs.stmt ∅ {9, 10, 11} {14, 15} :=
      ⟨by decide, 11, 14, hsorted 11 (by simp), hsorted 14 (by simp), s11.symm, s14.symm, _, h1114, rfl⟩
    have hread : a.queue.GroupEdge a.graphs.stmt ∅ {14, 15} {5, 6} :=
      ⟨by decide, 15, 5, hsorted 15 (by simp), hsorted 5 (by simp), s15.symm, s5.symm, _, hback, rfl⟩
    exact ((TransGen.single hinsert).tail hdelete).tail hread

/-- Every operation of `deleteOldRun`. -/
theorem op_deleteOldRun (k : ℕ) : deleteOldRun.op k = .keep ∨
    deleteOldRun.op k = .insert ⟨"t_0", 11000, 1⟩ ∨
    deleteOldRun.op k = .delete {⟨"t_0", 10000, 0⟩} := by
  unfold VersionStore.Run.op
  rw [List.getD_eq_getElem?_getD]
  cases hk : deleteOldRun.ops[k]? with
  | none => exact Or.inl rfl
  | some op =>
    have hmem := List.mem_of_getElem? hk
    simp only [deleteOldRun, List.mem_cons, List.not_mem_nil, or_false] at hmem
    simp only [Option.getD_some]
    tauto

theorem serial_sorted_deleteOld : ∃ a st, dependencyAnalyzer deleteOldRow = .ok a ∧
    a.queue.topologicalSortPath a.graphs.stmt ∅ = .ok st ∧ st.deleteFlag = false := by
  have heval : ((dependencyAnalyzer deleteOldRow).toOption.any fun a =>
      decide (a.queue.SerialRun deleteOldRun)) = true := by
    decide +kernel
  cases haccept : dependencyAnalyzer deleteOldRow with
  | error e =>
    rw [haccept] at heval
    cases heval
  | ok a =>
    rw [haccept] at heval
    simp only [Except.toOption, Option.any_some, decide_eq_true_eq] at heval
    have hkeys : ∀ {j d : ℕ} {row : VersionStore.Row String ℤ ℤ} {rows},
        deleteOldRun.op j = .insert row → deleteOldRun.op d = .delete rows →
        row.key = 11000 ∧ ∀ r ∈ rows, r.key = 10000 := by
      intro j d row rows hj hd
      rcases op_deleteOldRun j with h | h | h <;> rw [h] at hj <;> cases hj
      rcases op_deleteOldRun d with h | h | h <;> rw [h] at hd <;> cases hd
      simp
    obtain ⟨-, st, hst, hflag, -⟩ := serial_sorted haccept heval
      (fun i d rows _ _ _ _ _ hd hne _ => by
        obtain ⟨r, hr⟩ := hne
        refine ⟨r, hr, fun k row _ _ hk he => ?_⟩
        obtain ⟨h1, h2⟩ := hkeys hk hd
        rw [h1, h2 r hr] at he
        cases he)
      (fun i j d row rows _ _ _ _ _ hj _ hd r hr he => by
        obtain ⟨h1, h2⟩ := hkeys hj hd
        rw [h1, h2 r hr] at he
        cases he)
    exact ⟨a, st, rfl, hst, hflag⟩

end DbFuzz
