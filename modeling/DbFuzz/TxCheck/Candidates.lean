import DbFuzz.TxCheck.Minimize

/-! The candidates of `minimize_testcase` as lists of entries: what each deletion leaves of
three aligned queues. -/

namespace DbFuzz

structure QueueEntry where
  stmt : String
  tid : ℤ
  usage : StmtUsage
  deriving DecidableEq

namespace LoadedCase

def ofEntries (es : List QueueEntry) : LoadedCase :=
  ⟨es.map QueueEntry.stmt, es.map QueueEntry.tid, es.map QueueEntry.usage⟩

def Aligned (c : LoadedCase) : Prop :=
  c.tidQueue.length = c.stmtQueue.length ∧ c.usageQueue.length = c.stmtQueue.length

instance (c : LoadedCase) : Decidable c.Aligned := inferInstanceAs (Decidable (_ ∧ _))

theorem aligned_ofEntries (es : List QueueEntry) : (ofEntries es).Aligned := by
  simp [Aligned, ofEntries]

def entries (c : LoadedCase) : List QueueEntry :=
  List.zipWith3 QueueEntry.mk c.stmtQueue c.tidQueue c.usageQueue

theorem entries_ofEntries (es : List QueueEntry) : (ofEntries es).entries = es := by
  induction es with
  | nil => rfl
  | cons e es ih =>
    rw [entries] at ih ⊢
    simp only [ofEntries, List.map_cons, List.zipWith3] at ih ⊢
    rw [ih]

theorem Aligned.exists_entries {c : LoadedCase} (h : c.Aligned) : ∃ es, c = ofEntries es := by
  obtain ⟨stmts, tids, usages⟩ := c
  obtain ⟨htids, husages⟩ := h
  simp only at htids husages
  induction stmts generalizing tids usages with
  | nil =>
    rw [List.length_nil] at htids husages
    exact ⟨[], by rw [List.length_eq_zero_iff.1 htids, List.length_eq_zero_iff.1 husages]; rfl⟩
  | cons stmt stmts ih =>
    obtain ⟨tid, tids, rfl⟩ := List.exists_cons_of_length_eq_add_one htids
    obtain ⟨usage, usages, rfl⟩ := List.exists_cons_of_length_eq_add_one husages
    obtain ⟨es, hes⟩ := ih tids usages (by simpa using htids) (by simpa using husages)
    simp only [ofEntries, LoadedCase.mk.injEq] at hes
    exact ⟨⟨stmt, tid, usage⟩ :: es, by simp [ofEntries, hes.1, hes.2.1, hes.2.2]⟩

variable {pre post es : List QueueEntry} {x : QueueEntry}

theorem eraseIdx_middle {α : Type} (pre post : List α) (x : α) :
    (pre ++ x :: post).eraseIdx pre.length = pre ++ post := by
  rw [List.eraseIdx_append_of_length_le le_rfl, Nat.sub_self, List.eraseIdx_cons_zero]

theorem eraseAt_ofEntries (pre post : List QueueEntry) (x : QueueEntry) :
    (ofEntries (pre ++ x :: post)).eraseAt pre.length = .ok (ofEntries (pre ++ post)) := by
  have herase : ∀ {α : Type} (f : QueueEntry → α),
      ((pre ++ x :: post).map f).eraseIdx pre.length = (pre ++ post).map f := by
    intro α f
    have hmiddle := eraseIdx_middle (pre.map f) (post.map f) (f x)
    rw [List.length_map] at hmiddle
    simpa using hmiddle
  rw [eraseAt, if_pos (by simp [ofEntries])]
  simp only [ofEntries, herase]

/-! Whole transactions -/

def otherTxns (tid : ℤ) (es : List QueueEntry) : List QueueEntry :=
  es.filter fun e => decide (e.tid ≠ tid)

def renumber (tid : ℤ) (e : QueueEntry) : QueueEntry :=
  { e with tid := if e.tid < tid then e.tid else e.tid - 1 }

/-- The case without a transaction. -/
def withoutTxn (tid : ℤ) (es : List QueueEntry) : List QueueEntry :=
  (otherTxns tid es).map (renumber tid)

theorem deleteTid_ofEntries (tid : ℤ) (rest : List QueueEntry) (turns : ℕ)
    (hturns : rest.length ≤ turns) (done : List QueueEntry) :
    (ofEntries (done ++ rest)).deleteTid tid turns done.length =
      .ok (ofEntries (done ++ otherTxns tid rest)) := by
  induction turns generalizing done rest with
  | zero =>
    rw [List.length_eq_zero_iff.1 (Nat.le_zero.1 hturns)]
    rfl
  | succ turns ih =>
    cases rest with
    | nil => simp [deleteTid, ofEntries, otherTxns]
    | cons e rest =>
      rw [List.length_cons] at hturns
      have hread : (ofEntries (done ++ e :: rest)).tidQueue[done.length]? = some e.tid := by
        simp [ofEntries]
      rw [deleteTid, hread]
      by_cases he : e.tid = tid
      · simp only [ne_eq, he, not_true_eq_false, if_false]
        rw [eraseAt_ofEntries]
        refine (ih rest (by omega) done).trans ?_
        simp [otherTxns, he]
      · simp only [ne_eq, he, not_false_eq_true, if_true]
        have hnext := ih rest (by omega) (done ++ [e])
        rw [List.append_assoc, List.length_append] at hnext
        refine hnext.trans ?_
        simp [otherTxns, he]

/-- The candidate of a transaction. -/
theorem txnCandidate_ofEntries (tid : ℤ) (es : List QueueEntry) :
    ∃ c, (ofEntries es).deleteTid tid (ofEntries es).tidQueue.length 0 = .ok c ∧
      c.adjustTid tid = ofEntries (withoutTxn tid es) := by
  refine ⟨_, deleteTid_ofEntries tid es _ (by simp [ofEntries]) [], ?_⟩
  simp [adjustTid, ofEntries, withoutTxn, renumber, Function.comp_def]

/-! Statements with the reads around them -/

def isReadBefore (e : QueueEntry) : Bool :=
  decide (e.usage.stmtType = .beforeWriteRead ∨ e.usage.stmtType = .versionSetRead)

def isReadAfter (e : QueueEntry) : Bool := decide (e.usage.stmtType = .afterWriteRead)

/-- What follows a statement, without its read. -/
def withoutAfter : List QueueEntry → List QueueEntry
  | [] => []
  | a :: post => if isReadAfter a then post else a :: post

theorem deleteBefore_ofEntries (pre post : List QueueEntry) :
    (ofEntries (pre ++ post)).deleteBefore pre.length =
      .ok ((pre.rdropWhile isReadBefore).length,
        ofEntries (pre.rdropWhile isReadBefore ++ post)) := by
  induction pre using List.reverseRecOn with
  | nil => rfl
  | append_singleton pre e ih =>
    have hread : (ofEntries (pre ++ [e] ++ post)).usageQueue[pre.length]? = some e.usage := by
      simp [ofEntries]
    rw [List.length_append, List.length_singleton, deleteBefore, hread, List.rdropWhile_concat]
    by_cases he : isReadBefore e = true
    · have he' := of_decide_eq_true he
      simp only [if_pos he, if_pos he']
      rw [List.append_assoc, List.singleton_append, eraseAt_ofEntries]
      exact ih
    · have he' : ¬ (e.usage.stmtType = .beforeWriteRead ∨ e.usage.stmtType = .versionSetRead) :=
        fun h => he (decide_eq_true h)
      simp only [if_neg he, if_neg he', List.length_append, List.length_singleton]

theorem deleteAfter_ofEntries (pre post : List QueueEntry) (x : QueueEntry) (hpost : post ≠ []) :
    (ofEntries (pre ++ x :: post)).deleteAfter pre.length =
      .ok (ofEntries (pre ++ x :: withoutAfter post)) := by
  obtain ⟨a, post, rfl⟩ := List.exists_cons_of_ne_nil hpost
  have hread : (ofEntries (pre ++ x :: a :: post)).usageQueue[pre.length + 1]? =
      some a.usage := by
    simp [ofEntries]
  rw [deleteAfter, if_pos (by simp [ofEntries]), hread]
  by_cases ha : isReadAfter a = true
  · have herase := eraseAt_ofEntries (pre ++ [x]) post a
    rw [List.length_append, List.length_singleton, List.append_assoc, List.append_assoc] at herase
    simpa [withoutAfter, ha, of_decide_eq_true ha] using herase
  · have ha' : ¬ a.usage.stmtType = .afterWriteRead := fun h => ha (decide_eq_true h)
    simp [withoutAfter, ha, ha']

/-- The candidate of a statement that is not the last entry. -/
theorem deleteStmt_ofEntries (pre post : List QueueEntry) (x : QueueEntry) (hpost : post ≠ []) :
    (ofEntries (pre ++ x :: post)).deleteStmt pre.length =
      .ok ((pre.rdropWhile isReadBefore).length,
        ofEntries (pre.rdropWhile isReadBefore ++ withoutAfter post)) := by
  rw [deleteStmt, deleteAfter_ofEntries pre post x hpost]
  change ((ofEntries (pre ++ x :: withoutAfter post)).eraseAt pre.length >>= _) = _
  rw [eraseAt_ofEntries]
  exact deleteBefore_ofEntries pre _

/-- The last entry is followed by a read past the end. -/
theorem deleteStmt_last (pre : List QueueEntry) (x : QueueEntry) :
    (ofEntries (pre ++ [x])).deleteStmt pre.length = .error .badIndex := by
  have hread : (ofEntries (pre ++ [x])).usageQueue[pre.length + 1]? = none := by
    simp [ofEntries]
  rw [deleteStmt, deleteAfter, if_pos (by simp [ofEntries]), hread]
  rfl

end LoadedCase

end DbFuzz
