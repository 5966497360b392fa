import DbFuzz.TxCheck.Candidates

/-! Runs of `minimize_testcase`: as long as no attempt is saved every candidate is a removal from
the case itself, and a saved one leaves fewer entries for good. -/

namespace DbFuzz

open LoadedCase

/-! The removals from the case itself -/

namespace MinimizeEnv

variable (env : MinimizeEnv)

def deletable (x : QueueEntry) : Bool := !env.isControl x.stmt && !x.usage.isInstrumented

def txnAttempts (es : List QueueEntry) : ℕ → ℤ → List Trial
  | 0, _ => []
  | n + 1, tid =>
    ⟨ofEntries es, .txn tid, ofEntries (withoutTxn tid es)⟩ :: txnAttempts es n (tid + 1)

/-- What is left without a statement and the reads around it. -/
def withoutStmt (pre post : List QueueEntry) : List QueueEntry :=
  pre.rdropWhile isReadBefore ++ withoutAfter post

def stmtAttempt (pre : List QueueEntry) (x : QueueEntry) (post : List QueueEntry) : Trial :=
  ⟨ofEntries (pre ++ x :: post), .stmt pre.length (pre.rdropWhile isReadBefore).length,
    ofEntries (withoutStmt pre post)⟩

def stmtAttempts : List QueueEntry → List QueueEntry → List Trial
  | _, [] => []
  | pre, x :: post =>
    if env.deletable x then stmtAttempt pre x post :: stmtAttempts (pre ++ [x]) post
    else stmtAttempts (pre ++ [x]) post

/-- The number of calls and the error text behind the attempts, if none of them is saved. -/
def rejects : ℕ → String → List Trial → Option (ℕ × String)
  | n, err, [] => some (n, err)
  | n, err, a :: attempts =>
    match env.oracle n a.candidate err with
    | none => rejects (n + 1) err attempts
    | some err => if env.saves n then none else rejects (n + 1) err attempts

variable {env} {es pre post rest : List QueueEntry} {x : QueueEntry} {s s' : MinimizeState}

theorem rejects_append (n : ℕ) (err : String) (as bs : List Trial) :
    env.rejects n err (as ++ bs) = (env.rejects n err as).bind fun r => env.rejects r.1 r.2 bs := by
  induction as generalizing n err with
  | nil => rfl
  | cons a as ih =>
    rw [List.cons_append, rejects, rejects]
    cases env.oracle n a.candidate err with
    | none => exact ih (n + 1) err
    | some err' =>
      by_cases hsave : env.saves n = true
      · simp only [if_pos hsave, Option.bind_none]
      · simp only [if_neg hsave]
        exact ih (n + 1) err'

/-- An attempt is saved, or the next one follows. -/
theorem attempt_cases (env : MinimizeEnv) (s : MinimizeState) (removal : Removal)
    (candidate : LoadedCase) (attempts : List Trial) :
    ((env.attempt s removal candidate).1 = true ∧
        (env.attempt s removal candidate).2.final = candidate ∧
        env.rejects s.calls s.originalErr (⟨s.final, removal, candidate⟩ :: attempts) = none) ∨
    ∃ err, env.attempt s removal candidate =
        (false, ⟨s.calls + 1, err, s.tried ++ [⟨s.final, removal, candidate⟩], s.final⟩) ∧
      env.rejects s.calls s.originalErr (⟨s.final, removal, candidate⟩ :: attempts) =
        env.rejects (s.calls + 1) err attempts := by
  rw [attempt, rejects]
  cases env.oracle s.calls candidate s.originalErr with
  | none => exact Or.inr ⟨s.originalErr, rfl, rfl⟩
  | some err =>
    by_cases hsave : env.saves s.calls = true
    · exact Or.inl (by simp only [if_pos hsave, and_self])
    · simp only [if_neg hsave]
      exact Or.inr ⟨err, rfl, rfl⟩

/-! The loop over the transactions -/

theorem txnLoop_turn (n : ℕ) (tid : ℤ) (hs : s.final = ofEntries es) :
    env.txnLoop (n + 1) tid s =
      env.txnLoop n (if (env.attempt s (.txn tid) (ofEntries (withoutTxn tid es))).1 then tid
        else tid + 1) (env.attempt s (.txn tid) (ofEntries (withoutTxn tid es))).2 := by
  obtain ⟨c, hc, hadjust⟩ := txnCandidate_ofEntries tid es
  rw [txnLoop, hs, hc]
  change env.txnLoop n (if (env.attempt s (.txn tid) (c.adjustTid tid)).1 then tid else tid + 1)
    (env.attempt s (.txn tid) (c.adjustTid tid)).2 = _
  rw [hadjust]

theorem withoutTxn_length (tid : ℤ) (es : List QueueEntry) :
    (withoutTxn tid es).length ≤ es.length := by
  rw [withoutTxn, List.length_map, otherTxns]
  exact List.length_filter_le _ _

theorem withoutTxn_lt {tid : ℤ} (h : tid ∈ es.map QueueEntry.tid) :
    (withoutTxn tid es).length < es.length := by
  obtain ⟨e, he, rfl⟩ := List.mem_map.1 h
  rw [withoutTxn, List.length_map, otherTxns]
  exact List.length_filter_lt_length_iff_exists.2 ⟨e, he, by simp⟩

theorem attempt_final (env : MinimizeEnv) (s : MinimizeState) (removal : Removal)
    (candidate : LoadedCase) : (env.attempt s removal candidate).2.final = candidate ∨
      (env.attempt s removal candidate).2.final = s.final := by
  rcases attempt_cases env s removal candidate [] with ⟨-, h, -⟩ | ⟨err, h, -⟩
  · exact Or.inl h
  · exact Or.inr (by rw [h])

theorem txnLoop_final (n : ℕ) (tid : ℤ) (hs : s.final = ofEntries es) :
    ∃ s' es', env.txnLoop n tid s = .ok s' ∧ s'.final = ofEntries es' ∧
      es'.length ≤ es.length := by
  induction n generalizing tid s es with
  | zero => exact ⟨s, es, rfl, hs, le_rfl⟩
  | succ n ih =>
    rw [txnLoop_turn n tid hs]
    rcases attempt_final env s (.txn tid) (ofEntries (withoutTxn tid es)) with h | h
    · obtain ⟨s', es', hrun, hfinal, hlen⟩ := ih _ h
      exact ⟨s', es', hrun, hfinal, hlen.trans (withoutTxn_length tid es)⟩
    · exact ih _ (h.trans hs)

theorem txnLoop_rejects (n : ℕ) (tid : ℤ) {calls : ℕ} {err : String} (hs : s.final = ofEntries es)
    (h : env.rejects s.calls s.originalErr (txnAttempts es n tid) = some (calls, err)) :
    env.txnLoop n tid s = .ok ⟨calls, err, s.tried ++ txnAttempts es n tid, s.final⟩ := by
  induction n generalizing tid s with
  | zero =>
    rw [txnAttempts, rejects] at h
    cases h
    rw [txnLoop, txnAttempts, List.append_nil]
  | succ n ih =>
    rw [txnAttempts, ← hs] at h
    rw [txnLoop_turn n tid hs]
    rcases attempt_cases env s (.txn tid) (ofEntries (withoutTxn tid es))
      (txnAttempts es n (tid + 1)) with ⟨-, -, hnone⟩ | ⟨err', hattempt, hrest⟩
    · rw [hnone] at h
      cases h
    · rw [hattempt]
      refine (ih (s := ⟨s.calls + 1, err', _, s.final⟩) (tid + 1) hs
        (hrest.symm.trans h)).trans ?_
      rw [txnAttempts, ← hs, List.append_assoc]
      rfl

/-- A saved transaction leaves fewer entries. -/
theorem txnLoop_saves (n : ℕ) (tid : ℤ) (hs : s.final = ofEntries es)
    (htids : ∀ t, tid ≤ t → t < tid + n → t ∈ es.map QueueEntry.tid)
    (h : env.rejects s.calls s.originalErr (txnAttempts es n tid) = none) :
    ∃ s' es', env.txnLoop n tid s = .ok s' ∧ s'.final = ofEntries es' ∧
      es'.length < es.length := by
  induction n generalizing tid s with
  | zero => cases h
  | succ n ih =>
    rw [txnAttempts, ← hs] at h
    rw [txnLoop_turn n tid hs]
    rcases attempt_cases env s (.txn tid) (ofEntries (withoutTxn tid es))
      (txnAttempts es n (tid + 1)) with ⟨-, hfinal, -⟩ | ⟨err', hattempt, hrest⟩
    · obtain ⟨s', es', hrun, hfinal', hlen⟩ : ∃ s' es', env.txnLoop n _ _ = .ok s' ∧ _ :=
        txnLoop_final n (if (env.attempt s (.txn tid) (ofEntries (withoutTxn tid es))).1 then tid
          else tid + 1) hfinal
      exact ⟨s', es', hrun, hfinal',
        hlen.trans_lt (withoutTxn_lt (htids tid le_rfl (by omega)))⟩
    · rw [hattempt]
      exact ih (s := ⟨s.calls + 1, err', _, s.final⟩) (tid + 1) hs
        (fun t h1 h2 => htids t (by omega) (by omega)) (hrest.symm.trans h)

/-! The loop over the statements -/

theorem withoutStmt_lt (pre post : List QueueEntry) (x : QueueEntry) :
    (withoutStmt pre post).length < (pre ++ x :: post).length := by
  have hpre : (pre.rdropWhile isReadBefore).length ≤ pre.length :=
    (List.rdropWhile_prefix isReadBefore pre).length_le
  have hpost : (withoutAfter post).length ≤ post.length := by
    cases post with
    | nil => exact le_rfl
    | cons a post =>
      rw [withoutAfter]
      split_ifs
      · exact Nat.le_succ _
      · exact le_rfl
  rw [withoutStmt, List.length_append, List.length_append, List.length_cons]
  omega

theorem stmtLoop_end {i fuel : ℕ} (hs : s.final = ofEntries es) (hi : es.length ≤ i) :
    env.stmtLoop (fuel + 1) i s = .ok s := by
  rw [stmtLoop, if_pos (by simpa [hs, ofEntries] using hi)]

theorem stmtLoop_skip {fuel : ℕ} (hs : s.final = ofEntries (pre ++ x :: post))
    (hx : env.deletable x = false) :
    env.stmtLoop (fuel + 1) pre.length s = env.stmtLoop fuel (pre.length + 1) s := by
  have hstmt : s.final.stmtQueue[pre.length]? = some x.stmt := by simp [hs, ofEntries]
  have husage : s.final.usageQueue[pre.length]? = some x.usage := by simp [hs, ofEntries]
  rw [stmtLoop, if_neg (by simp [hs, ofEntries]), hstmt]
  by_cases hcontrol : env.isControl x.stmt = true
  · simp only [if_pos hcontrol]
  · have hinstrumented : x.usage.isInstrumented = true := by
      simpa [deletable, hcontrol] using hx
    simp only [if_neg hcontrol, husage, if_pos hinstrumented]

/-- A statement that may go. -/
theorem stmtLoop_delete {fuel : ℕ} (hs : s.final = ofEntries (pre ++ x :: post))
    (hx : env.deletable x = true) :
    env.stmtLoop (fuel + 1) pre.length s = (s.final.deleteStmt pre.length >>= fun r =>
      env.stmtLoop fuel
        (if (env.attempt s (.stmt pre.length r.1) r.2).1 then r.1 else pre.length + 1)
        (env.attempt s (.stmt pre.length r.1) r.2).2) := by
  have hstmt : s.final.stmtQueue[pre.length]? = some x.stmt := by simp [hs, ofEntries]
  have husage : s.final.usageQueue[pre.length]? = some x.usage := by simp [hs, ofEntries]
  have hcontrol : ¬ env.isControl x.stmt = true := fun h => by simp [deletable, h] at hx
  have hinstrumented : ¬ x.usage.isInstrumented = true := fun h => by simp [deletable, h] at hx
  rw [stmtLoop, if_neg (by simp [hs, ofEntries]), hstmt]
  simp only [if_neg hcontrol, husage, if_neg hinstrumented]

theorem stmtLoop_last {fuel : ℕ} (hs : s.final = ofEntries (pre ++ [x]))
    (hx : env.deletable x = true) :
    env.stmtLoop (fuel + 1) pre.length s = .error .badIndex := by
  rw [stmtLoop_delete hs hx, hs, deleteStmt_last]
  rfl

theorem stmtLoop_attempt {fuel : ℕ} (hs : s.final = ofEntries (pre ++ x :: post))
    (hx : env.deletable x = true) (hpost : post ≠ []) :
    env.stmtLoop (fuel + 1) pre.length s = env.stmtLoop fuel
      (if (env.attempt s (stmtAttempt pre x post).removal (ofEntries (withoutStmt pre post))).1
        then (pre.rdropWhile isReadBefore).length else pre.length + 1)
      (env.attempt s (stmtAttempt pre x post).removal (ofEntries (withoutStmt pre post))).2 := by
  rw [stmtLoop_delete hs hx, hs, deleteStmt_ofEntries pre post x hpost]
  rfl

theorem split_at {i : ℕ} (hi : i < es.length) :
    ∃ pre x post, es = pre ++ x :: post ∧ pre.length = i :=
  ⟨es.take i, es[i], es.drop (i + 1), by simp, by simp; omega⟩

theorem stmtLoop_final {fuel i : ℕ} (hs : s.final = ofEntries es)
    (h : env.stmtLoop fuel i s = .ok s') :
    ∃ es', s'.final = ofEntries es' ∧ es'.length ≤ es.length := by
  induction fuel generalizing i s es with
  | zero => cases h
  | succ fuel ih =>
    by_cases hi : es.length ≤ i
    · rw [stmtLoop_end hs hi] at h
      cases h
      exact ⟨es, hs, le_rfl⟩
    · obtain ⟨pre, x, post, rfl, rfl⟩ := split_at (Nat.lt_of_not_le hi)
      by_cases hx : env.deletable x = true
      · rcases eq_or_ne post [] with rfl | hpost
        · rw [stmtLoop_last hs hx] at h
          cases h
        · rw [stmtLoop_attempt hs hx hpost] at h
          rcases attempt_final env s (stmtAttempt pre x post).removal
            (ofEntries (withoutStmt pre post)) with hfinal | hfinal
          · obtain ⟨es', hes', hlen⟩ := ih hfinal h
            exact ⟨es', hes', hlen.trans (withoutStmt_lt pre post x).le⟩
          · exact ih (hfinal.trans hs) h
      · rw [stmtLoop_skip hs (Bool.eq_false_iff.2 hx)] at h
        exact ih hs h

/-- The last entry stays. -/
def LastStays (env : MinimizeEnv) (es : List QueueEntry) : Prop :=
  ∀ x, es.getLast? = some x → env.deletable x = false

theorem LastStays.tail (h : LastStays env (x :: post)) : LastStays env post := by
  intro y hy
  refine h y ?_
  cases post with
  | nil => cases hy
  | cons a post => rwa [List.getLast?_cons_cons]

theorem stmtLoop_rejects {fuel calls : ℕ} {err : String}
    (hs : s.final = ofEntries (pre ++ rest)) (hfuel : rest.length < fuel)
    (hlast : LastStays env rest)
    (h : env.rejects s.calls s.originalErr (env.stmtAttempts pre rest) = some (calls, err)) :
    env.stmtLoop fuel pre.length s =
      .ok ⟨calls, err, s.tried ++ env.stmtAttempts pre rest, s.final⟩ := by
  induction rest generalizing pre s fuel with
  | nil =>
    rw [stmtAttempts, rejects] at h
    cases h
    obtain ⟨fuel, rfl⟩ := Nat.exists_eq_add_of_lt hfuel
    rw [stmtLoop_end hs (by simp), stmtAttempts, List.append_nil]
  | cons x post ih =>
    obtain ⟨fuel, rfl⟩ : ∃ n, fuel = n + 1 := ⟨fuel - 1, by omega⟩
    rw [List.length_cons] at hfuel
    have hnext : ∀ t : MinimizeState, t.final = s.final →
        env.rejects t.calls t.originalErr (env.stmtAttempts (pre ++ [x]) post) =
          some (calls, err) →
        env.stmtLoop fuel (pre.length + 1) t =
          .ok ⟨calls, err, t.tried ++ env.stmtAttempts (pre ++ [x]) post, t.final⟩ := by
      intro t ht hrejects
      have ht' : t.final = ofEntries ((pre ++ [x]) ++ post) := by
        rw [ht, hs, List.append_assoc]
        rfl
      have hrun := ih ht' (by omega : post.length < fuel) hlast.tail hrejects
      rwa [List.length_append, List.length_singleton] at hrun
    by_cases hx : env.deletable x = true
    · have hpost : post ≠ [] := by
        rintro rfl
        rw [hlast x rfl] at hx
        cases hx
      rw [stmtAttempts, if_pos hx] at h ⊢
      rw [stmtLoop_attempt hs hx hpost]
      rcases attempt_cases env s (stmtAttempt pre x post).removal
        (ofEntries (withoutStmt pre post)) (env.stmtAttempts (pre ++ [x]) post) with
        ⟨-, -, hnone⟩ | ⟨err', hattempt, hrest⟩
      · rw [hs] at hnone
        exact absurd (hnone.symm.trans h) (by simp)
      · rw [hattempt]
        rw [hs] at hrest
        refine (hnext ⟨s.calls + 1, err', _, s.final⟩ rfl (hrest.symm.trans h)).trans ?_
        rw [List.append_assoc, hs]
        rfl
    · rw [stmtAttempts, if_neg hx] at h ⊢
      rw [stmtLoop_skip hs (Bool.eq_false_iff.2 hx)]
      exact hnext s rfl h

/-- A run that keeps all entries. -/
theorem stmtLoop_same {fuel : ℕ} (hs : s.final = ofEntries (pre ++ rest))
    (h : env.stmtLoop fuel pre.length s = .ok s')
    (hsame : s'.final.stmtQueue.length = (pre ++ rest).length) :
    LastStays env rest ∧
      env.rejects s.calls s.originalErr (env.stmtAttempts pre rest) ≠ none ∧
        s'.tried = s.tried ++ env.stmtAttempts pre rest := by
  induction rest generalizing pre s fuel with
  | nil =>
    cases fuel with
    | zero => cases h
    | succ fuel =>
      rw [stmtLoop_end hs (by simp)] at h
      cases h
      refine ⟨fun x hx => ?_, by simp [stmtAttempts, rejects], by simp [stmtAttempts]⟩
      cases hx
  | cons x post ih =>
    obtain ⟨fuel, rfl⟩ : ∃ n, fuel = n + 1 := by
      cases fuel with
      | zero => cases h
      | succ fuel => exact ⟨fuel, rfl⟩
    have hnext : ∀ t : MinimizeState, t.final = s.final →
        env.stmtLoop fuel (pre.length + 1) t = .ok s' →
        LastStays env post ∧
          env.rejects t.calls t.originalErr (env.stmtAttempts (pre ++ [x]) post) ≠ none ∧
            s'.tried = t.tried ++ env.stmtAttempts (pre ++ [x]) post := by
      intro t ht hrun
      have ht' : t.final = ofEntries ((pre ++ [x]) ++ post) := by
        rw [ht, hs, List.append_assoc]
        rfl
      have hrun' : env.stmtLoop fuel (pre ++ [x]).length t = .ok s' := by
        rwa [List.length_append, List.length_singleton]
      exact ih ht' hrun' (by rw [hsame, List.append_assoc]; rfl)
    by_cases hx : env.deletable x = true
    · rcases eq_or_ne post [] with rfl | hpost
      · rw [stmtLoop_last hs hx] at h
        cases h
      · rw [stmtLoop_attempt hs hx hpost] at h
        rcases attempt_cases env s (stmtAttempt pre x post).removal
          (ofEntries (withoutStmt pre post)) (env.stmtAttempts (pre ++ [x]) post) with
          ⟨-, hfinal, -⟩ | ⟨err', hattempt, hrest⟩
        · obtain ⟨es', hes', hlen⟩ := stmtLoop_final hfinal h
          have hlt := withoutStmt_lt pre post x
          rw [hes'] at hsame
          simp only [ofEntries, List.length_map] at hsame
          omega
        · rw [hattempt] at h
          obtain ⟨hlast, hrejects, htried⟩ := hnext ⟨s.calls + 1, err', _, s.final⟩ rfl h
          rw [hs] at hrest htried
          rw [stmtAttempts, if_pos hx]
          refine ⟨fun y hy => hlast y ?_, fun hnone => hrejects (hrest.symm.trans hnone), ?_⟩
          · obtain ⟨a, post, rfl⟩ := List.exists_cons_of_ne_nil hpost
            rwa [List.getLast?_cons_cons] at hy
          · rw [htried, List.append_assoc]
            rfl
    · have hx' := Bool.eq_false_iff.2 hx
      rw [stmtLoop_skip hs hx'] at h
      obtain ⟨hlast, hrejects, htried⟩ := hnext s rfl h
      rw [stmtAttempts, if_neg hx]
      refine ⟨fun y hy => ?_, hrejects, htried⟩
      cases post with
      | nil =>
        cases hy
        exact hx'
      | cons a post =>
        rw [List.getLast?_cons_cons] at hy
        exact hlast y hy

end MinimizeEnv

end DbFuzz
