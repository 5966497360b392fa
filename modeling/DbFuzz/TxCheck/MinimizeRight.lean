import Mathlib.Order.MinMax
import DbFuzz.TxCheck.MinimizeRun

/-! When the candidates of `minimize_testcase` and the queues it gives back are what they are
meant to be. -/

namespace DbFuzz

open LoadedCase MinimizeEnv

/-- Ids from 0 on without a gap. -/
def Dense (tids : List ℤ) : Prop := ∀ t ∈ tids, 0 ≤ t ∧ ∀ s, 0 ≤ s → s < t → s ∈ tids

/-- A statement with the reads that its transaction has around it. -/
structure InstrumentGroup (pre reads : List QueueEntry) (x : QueueEntry)
    (after post : List QueueEntry) : Prop where
  stmt : x.usage.isInstrumented = false
  reads : ∀ r ∈ reads, isReadBefore r = true ∧ r.tid = x.tid
  first : ∀ r, pre.getLast? = some r → ¬ (isReadBefore r = true ∧ r.tid = x.tid)
  follows : after.length ≤ 1 ∧ ∀ r ∈ after, isReadAfter r = true ∧ r.tid = x.tid
  last : after = [] → ∀ r, post.head? = some r → ¬ (isReadAfter r = true ∧ r.tid = x.tid)

/-- A whole transaction or a whole instrument group goes. -/
def Trial.Whole (a : Trial) : Prop :=
  match a.removal with
  | .txn tid => ∃ es, a.base = ofEntries es ∧ a.candidate = ofEntries (withoutTxn tid es)
  | .stmt i start => ∃ pre reads x after post,
      a.base = ofEntries (pre ++ reads ++ x :: (after ++ post)) ∧ start = pre.length ∧
        i = start + reads.length ∧ a.candidate = ofEntries (pre ++ post) ∧
          InstrumentGroup pre reads x after post

structure Trial.Right (a : Trial) : Prop where
  aligned : a.candidate.Aligned
  dense : Dense a.candidate.tidQueue
  whole : a.Whole

/-- The run stays inside the queues, its candidates are right, and the queues of the caller are
aligned and still show the bug. -/
def MinimizeRight (env : MinimizeEnv) (c : LoadedCase) : Prop :=
  ∃ minimized caller tried, env.minimizeTestcase c = .ok (minimized, caller, tried) ∧
    (∀ a ∈ tried, a.Right) ∧ caller.Aligned ∧
      ∃ n err, (env.oracle n caller err).isSome = true

variable {env : MinimizeEnv} {es pre post : List QueueEntry} {x : QueueEntry}

/-! Ids without a gap -/

theorem Dense.without (h : Dense (es.map QueueEntry.tid)) (tid : ℤ) (htid : 0 ≤ tid) :
    Dense ((withoutTxn tid es).map QueueEntry.tid) := by
  have hmem : ∀ t, t ∈ (withoutTxn tid es).map QueueEntry.tid ↔
      ∃ u ∈ es.map QueueEntry.tid, u ≠ tid ∧ t = if u < tid then u else u - 1 := by
    intro t
    simp only [withoutTxn, otherTxns, renumber, List.mem_map, List.mem_filter,
      decide_eq_true_eq]
    constructor
    · rintro ⟨_, ⟨e, ⟨he, hne⟩, rfl⟩, rfl⟩
      exact ⟨e.tid, ⟨e, he, rfl⟩, hne, rfl⟩
    · rintro ⟨_, ⟨e, he, rfl⟩, hne, rfl⟩
      exact ⟨_, ⟨e, ⟨he, hne⟩, rfl⟩, rfl⟩
  intro t ht
  obtain ⟨u, hu, hne, rfl⟩ := (hmem t).1 ht
  obtain ⟨hpos, hbelow⟩ := h u hu
  constructor
  · split_ifs <;> omega
  · intro s hs hlt
    rw [hmem]
    -- the id that becomes `s`
    by_cases hsmall : s < tid
    · refine ⟨s, hbelow s hs ?_, by omega, by rw [if_pos hsmall]⟩
      split_ifs at hlt <;> omega
    · refine ⟨s + 1, hbelow (s + 1) (by omega) ?_, by omega, by rw [if_neg (by omega)]; omega⟩
      split_ifs at hlt <;> omega

/-- Every id that goes is above all that stay. -/
def StaysDense (es left : List QueueEntry) : Prop :=
  ∀ r ∈ es, (∃ e ∈ left, e.tid = r.tid) ∨ ∀ e ∈ left, e.tid < r.tid

theorem staysDense_iff {left : List QueueEntry} (h : Dense (es.map QueueEntry.tid))
    (hleft : ∀ e ∈ left, e ∈ es) : Dense (left.map QueueEntry.tid) ↔ StaysDense es left := by
  constructor
  · intro hdense r hr
    by_cases hstays : ∃ e ∈ left, e.tid = r.tid
    · exact Or.inl hstays
    · refine Or.inr fun e he => ?_
      by_contra hge
      have hne : e.tid ≠ r.tid := fun heq => hstays ⟨e, he, heq⟩
      obtain ⟨e', he', heq⟩ := List.mem_map.1 ((hdense e.tid (List.mem_map_of_mem he)).2 r.tid
        (h r.tid (List.mem_map_of_mem hr)).1 (by omega))
      exact hstays ⟨e', he', heq⟩
  · intro hstays t ht
    obtain ⟨e, he, rfl⟩ := List.mem_map.1 ht
    obtain ⟨hpos, hbelow⟩ := h e.tid (List.mem_map_of_mem (hleft e he))
    refine ⟨hpos, fun s hs hlt => ?_⟩
    obtain ⟨r, hr, rfl⟩ := List.mem_map.1 (hbelow s hs hlt)
    rcases hstays r hr with ⟨e', he', heq⟩ | habove
    · exact heq ▸ List.mem_map_of_mem he'
    · exact absurd (habove e he) (by omega)

theorem mem_of_withoutStmt (h : x ∈ withoutStmt pre post) (y : QueueEntry) :
    x ∈ pre ++ y :: post := by
  rw [withoutStmt, List.mem_append] at h
  rw [List.mem_append, List.mem_cons]
  rcases h with h | h
  · exact Or.inl ((List.rdropWhile_prefix isReadBefore pre).subset h)
  · refine Or.inr (Or.inr ?_)
    cases post with
    | nil => cases h
    | cons a post =>
      rw [withoutAfter] at h
      split_ifs at h
      · exact List.mem_cons_of_mem a h
      · exact h

/-! Groups -/

/-- The reads that go with a statement are those of its transaction. -/
def OwnReads (pre : List QueueEntry) (x : QueueEntry) (post : List QueueEntry) : Prop :=
  (∀ r ∈ pre.rtakeWhile isReadBefore, r.tid = x.tid) ∧
    ∀ r, post.head? = some r → isReadAfter r = true → r.tid = x.tid

theorem ofEntries_injective : Function.Injective ofEntries :=
  Function.LeftInverse.injective entries_ofEntries

theorem stmtAttempt_whole_of (hx : x.usage.isInstrumented = false) (hown : OwnReads pre x post) :
    (stmtAttempt pre x post).Whole := by
  have hreads : ∀ r ∈ pre.rtakeWhile isReadBefore, isReadBefore r = true ∧ r.tid = x.tid :=
    fun r hr => ⟨List.mem_rtakeWhile_imp hr, hown.1 r hr⟩
  have hfirst : ∀ r, (pre.rdropWhile isReadBefore).getLast? = some r →
      ¬ (isReadBefore r = true ∧ r.tid = x.tid) := by
    intro r hr hread
    obtain ⟨hne, rfl⟩ := List.mem_getLast?_eq_getLast hr
    exact List.rdropWhile_last_not isReadBefore pre hne hread.1
  have hsplit : pre.rdropWhile isReadBefore ++ pre.rtakeWhile isReadBefore = pre :=
    List.rdropWhile_append_rtakeWhile
  have hlen : pre.length =
      (pre.rdropWhile isReadBefore).length + (pre.rtakeWhile isReadBefore).length := by
    conv_lhs => rw [← hsplit, List.length_append]
  have hwhole : ∀ after post', post = after ++ post' → withoutAfter post = post' →
      InstrumentGroup (pre.rdropWhile isReadBefore) (pre.rtakeWhile isReadBefore) x after post' →
      (stmtAttempt pre x post).Whole := by
    rintro after post' rfl hpost hgroup
    refine ⟨_, _, x, after, post', ?_, rfl, hlen, ?_, hgroup⟩
    · rw [hsplit]
      rfl
    · rw [stmtAttempt, withoutStmt, hpost]
  cases post with
  | nil =>
    exact hwhole [] [] rfl rfl ⟨hx, hreads, hfirst, by simp, fun _ r hr => by cases hr⟩
  | cons a post =>
    by_cases ha : isReadAfter a = true
    · refine hwhole [a] post rfl (if_pos ha) ⟨hx, hreads, hfirst, ⟨le_rfl, fun r hr => ?_⟩, ?_⟩
      · rw [List.mem_singleton.1 hr]
        exact ⟨ha, hown.2 a rfl ha⟩
      · intro h
        cases h
    · refine hwhole [] (a :: post) rfl (if_neg ha) ⟨hx, hreads, hfirst, by simp, ?_⟩
      rintro - r hr ⟨hread, -⟩
      cases hr
      exact ha hread

/-- The start and the statement fix the reads in front, and what is left the read behind. -/
theorem ownReads_of_whole (h : (stmtAttempt pre x post).Whole) : OwnReads pre x post := by
  obtain ⟨pre', reads, x', after, post', hbase, hstart, hi, hcandidate, hgroup⟩ := h
  have hsplit : pre.rdropWhile isReadBefore ++ pre.rtakeWhile isReadBefore = pre :=
    List.rdropWhile_append_rtakeWhile
  have hlen : pre.length = (pre' ++ reads).length := by
    rw [List.length_append, ← hstart]
    exact hi
  obtain ⟨hpre, htail⟩ := List.append_inj (ofEntries_injective hbase) hlen
  obtain ⟨rfl, hpost⟩ := List.cons.inj htail
  have hparts : pre.rdropWhile isReadBefore = pre' ∧ pre.rtakeWhile isReadBefore = reads :=
    List.append_inj (hsplit.trans hpre) hstart
  obtain ⟨-, hleft⟩ := List.append_inj (ofEntries_injective hcandidate) hstart
  refine ⟨fun r hr => (hgroup.reads r (hparts.2 ▸ hr)).2, fun r hr hread => ?_⟩
  cases post with
  | nil => cases hr
  | cons a post =>
    cases hr
    rw [withoutAfter, if_pos hread] at hleft
    have hafter : after = [r] := by
      have hcancel : [r] ++ post = after ++ post := by rw [hleft, ← hpost, ← hleft]; rfl
      exact (List.append_cancel_right hcancel).symm
    exact (hgroup.follows.2 r (by rw [hafter]; exact List.mem_singleton_self r)).2

/-! The whole run -/

theorem mem_stmtAttempts {env : MinimizeEnv} (rest : List QueueEntry) {a : Trial} :
    a ∈ env.stmtAttempts pre rest ↔ ∃ mid x post, rest = mid ++ x :: post ∧
      env.deletable x = true ∧ a = stmtAttempt (pre ++ mid) x post := by
  induction rest generalizing pre with
  | nil => simp [stmtAttempts]
  | cons y rest ih =>
    have hrest : (∃ mid x post, rest = mid ++ x :: post ∧ env.deletable x = true ∧
        a = stmtAttempt (pre ++ [y] ++ mid) x post) ↔
        ∃ mid x post, y :: rest = y :: mid ++ x :: post ∧ env.deletable x = true ∧
          a = stmtAttempt (pre ++ y :: mid) x post := by
      simp
    have hsplit : (∃ mid x post, y :: rest = mid ++ x :: post ∧ env.deletable x = true ∧
        a = stmtAttempt (pre ++ mid) x post) ↔
        (env.deletable y = true ∧ a = stmtAttempt pre y rest) ∨
          ∃ mid x post, y :: rest = y :: mid ++ x :: post ∧ env.deletable x = true ∧
            a = stmtAttempt (pre ++ y :: mid) x post := by
      constructor
      · rintro ⟨mid, x, post, heq, hx, rfl⟩
        cases mid with
        | nil =>
          obtain ⟨rfl, rfl⟩ := List.cons.inj heq
          exact Or.inl ⟨hx, by rw [List.append_nil]⟩
        | cons z mid =>
          obtain ⟨rfl, -⟩ := List.cons.inj heq
          exact Or.inr ⟨mid, x, post, heq, hx, rfl⟩
      · rintro (⟨hy, rfl⟩ | ⟨mid, x, post, heq, hx, rfl⟩)
        · exact ⟨[], y, rest, rfl, hy, by rw [List.append_nil]⟩
        · exact ⟨y :: mid, x, post, heq, hx, rfl⟩
    rw [hsplit, ← hrest, ← ih, stmtAttempts]
    by_cases hy : env.deletable y = true
    · simp [hy]
    · simp [hy]

theorem mem_txnAttempts {n : ℕ} {tid : ℤ} {a : Trial} (h : a ∈ txnAttempts es n tid)
    (htid : 0 ≤ tid) :
    ∃ t, 0 ≤ t ∧ a = ⟨ofEntries es, .txn t, ofEntries (withoutTxn t es)⟩ := by
  induction n generalizing tid with
  | zero => cases h
  | succ n ih =>
    rcases List.mem_cons.1 h with rfl | h
    · exact ⟨tid, htid, rfl⟩
    · exact ih h (by omega)

theorem foldl_max_cases (tids : List ℤ) (m : ℤ) :
    tids.foldl max m = m ∨ tids.foldl max m ∈ tids := by
  induction tids generalizing m with
  | nil => exact Or.inl rfl
  | cons t tids ih =>
    rw [List.foldl_cons]
    rcases ih (max m t) with h | h
    · rcases max_choice m t with hm | ht
      · exact Or.inl (h.trans hm)
      · exact Or.inr (by rw [h, ht]; exact List.mem_cons_self)
    · exact Or.inr (List.mem_cons_of_mem t h)

/-- Every id below the number of transactions occurs. -/
theorem mem_of_lt_maxTid {c : LoadedCase} (h : Dense c.tidQueue) {t : ℤ} (hpos : 0 ≤ t)
    (hlt : t < c.maxTid + 1) : t ∈ c.tidQueue := by
  rcases foldl_max_cases c.tidQueue (-1) with hmax | hmax
  · rw [maxTid, hmax] at hlt
    omega
  · by_cases heq : t = c.maxTid
    · rw [heq]
      exact hmax
    · exact (h _ hmax).2 t hpos (by rw [maxTid] at hlt heq; omega)

/-- No removal from the case itself is saved, the last entry is one that stays, the reads that go
with a statement are its own, and no id in the middle goes with it. -/
structure LeftAlone (env : MinimizeEnv) (c : LoadedCase) (err : String) : Prop where
  rejected : env.rejects 1 err (txnAttempts c.entries (c.maxTid + 1).toNat 0 ++
    env.stmtAttempts [] c.entries) ≠ none
  last : LastStays env c.entries
  own : ∀ pre x post, c.entries = pre ++ x :: post → env.deletable x = true → OwnReads pre x post
  dense : ∀ pre x post, c.entries = pre ++ x :: post → env.deletable x = true →
    StaysDense c.entries (withoutStmt pre post)

theorem minimizeTestcase_ok {c : LoadedCase} {err : String} {s s' : MinimizeState}
    (hbug : env.oracle 0 c "" = some err)
    (hs : env.txnLoop (c.maxTid + 1).toNat 0 ⟨1, err, [], c⟩ = .ok s)
    (hs' : env.stmtLoop (s.final.tidQueue.length + 1) 0 s = .ok s') :
    env.minimizeTestcase c = if s'.final.stmtQueue.length = c.stmtQueue.length then
      .ok (false, c, s'.tried)
    else .ok (true, ⟨s'.final.stmtQueue, s'.final.tidQueue, c.usageQueue⟩, s'.tried) := by
  rw [minimizeTestcase, hbug]
  change (env.txnLoop (c.maxTid + 1).toNat 0 ⟨1, err, [], c⟩ >>= _) = _
  rw [hs]
  change (env.stmtLoop (s.final.tidQueue.length + 1) 0 s >>= _) = _
  rw [hs']
  rfl

theorem minimizeTestcase_parts {c : LoadedCase} {err : String}
    {r : Bool × LoadedCase × List Trial} (hbug : env.oracle 0 c "" = some err) (h : env.minimizeTestcase c = .ok r) :
    ∃ s s', env.txnLoop (c.maxTid + 1).toNat 0 ⟨1, err, [], c⟩ = .ok s ∧
      env.stmtLoop (s.final.tidQueue.length + 1) 0 s = .ok s' := by
  rw [minimizeTestcase, hbug] at h
  obtain ⟨s, hs, hrest⟩ := Loop.bind_eq_ok_iff.1 h
  obtain ⟨s', hs', -⟩ := Loop.bind_eq_ok_iff.1 hrest
  exact ⟨s, s', hs, hs'⟩

theorem minimizeRight_of {c : LoadedCase} {err : String} (hc : c.Aligned)
    (hdense : Dense c.tidQueue) (hbug : env.oracle 0 c "" = some err)
    (h : LeftAlone env c err) : MinimizeRight env c := by
  obtain ⟨es, rfl⟩ := hc.exists_entries
  obtain ⟨hrejected, hlast, hown, hkeeps⟩ := h
  rw [entries_ofEntries] at hrejected hlast hown hkeeps
  obtain ⟨r, hr⟩ := Option.ne_none_iff_exists'.1 hrejected
  rw [rejects_append] at hr
  obtain ⟨⟨calls, err'⟩, htxn, hstmt⟩ := Option.bind_eq_some_iff.1 hr
  have hrun := txnLoop_rejects (s := ⟨1, err, [], ofEntries es⟩) _ 0 rfl htxn
  have hfuel : es.length < (ofEntries es).tidQueue.length + 1 := by simp [ofEntries]
  have hrun' := stmtLoop_rejects
    (s := ⟨calls, err', [] ++ txnAttempts es ((ofEntries es).maxTid + 1).toNat 0, ofEntries es⟩)
    (by rfl : ofEntries es = ofEntries ([] ++ es)) hfuel hlast hstmt
  refine ⟨false, ofEntries es, _, (minimizeTestcase_ok hbug hrun hrun').trans (if_pos rfl),
    fun a ha => ?_, aligned_ofEntries es, 0, "", by rw [hbug]; rfl⟩
  rw [List.nil_append] at ha
  rcases List.mem_append.1 ha with ha | ha
  · obtain ⟨t, ht, rfl⟩ := mem_txnAttempts ha le_rfl
    exact ⟨aligned_ofEntries _, hdense.without t ht, es, rfl, rfl⟩
  · obtain ⟨mid, x, post, hes, hx, rfl⟩ := (mem_stmtAttempts es).1 ha
    rw [List.nil_append]
    have hinstrumented : x.usage.isInstrumented = false := by
      simp only [deletable, Bool.and_eq_true, Bool.not_eq_true'] at hx
      exact hx.2
    refine ⟨aligned_ofEntries _, ?_, stmtAttempt_whole_of hinstrumented (hown mid x post hes hx)⟩
    exact (staysDense_iff hdense fun e he => hes ▸ mem_of_withoutStmt he x).2
      (hkeeps mid x post hes hx)

theorem leftAlone_of {c : LoadedCase} {err : String} (hc : c.Aligned)
    (hdense : Dense c.tidQueue) (hbug : env.oracle 0 c "" = some err)
    (h : MinimizeRight env c) : LeftAlone env c err := by
  obtain ⟨es, rfl⟩ := hc.exists_entries
  obtain ⟨minimized, caller, tried, hrun, hright, haligned, -⟩ := h
  obtain ⟨s, s', hs, hs'⟩ := minimizeTestcase_parts hbug hrun
  have hresult := (minimizeTestcase_ok hbug hs hs').symm.trans hrun
  have htids : ∀ t, 0 ≤ t → t < 0 + (((ofEntries es).maxTid + 1).toNat : ℤ) →
      t ∈ es.map QueueEntry.tid := fun t h0 hlt => mem_of_lt_maxTid hdense h0 (by omega)
  obtain ⟨s₁, es₁, hs₁, hfinal₁, hlen₁⟩ : ∃ s₁ es₁, env.txnLoop _ _ _ = .ok s₁ ∧ _ :=
    txnLoop_final (s := ⟨1, err, [], ofEntries es⟩) ((ofEntries es).maxTid + 1).toNat 0 rfl
  obtain rfl : s = s₁ := Except.ok.inj (hs.symm.trans hs₁)
  obtain ⟨es₂, hfinal₂, hlen₂⟩ := stmtLoop_final hfinal₁ hs'
  -- a saved attempt would leave the caller with too many usages
  have hsame : es₂.length = es.length := by
    by_contra hne
    rw [if_neg (by simpa [hfinal₂, ofEntries] using hne)] at hresult
    cases hresult
    have husage := haligned.2
    rw [hfinal₂] at husage
    simp only [ofEntries, List.length_map] at husage
    omega
  rw [if_pos (by simpa [hfinal₂, ofEntries] using hsame)] at hresult
  cases hresult
  obtain ⟨⟨calls, err'⟩, hrejects⟩ : ∃ r, env.rejects 1 err
      (txnAttempts es ((ofEntries es).maxTid + 1).toNat 0) = some r := by
    by_contra hnone
    have hnone' : env.rejects 1 err (txnAttempts es ((ofEntries es).maxTid + 1).toNat 0) = none := by
      rw [← Option.not_isSome_iff_eq_none, Option.isSome_iff_exists]
      exact hnone
    obtain ⟨s₃, es₃, hs₃, hfinal₃, hlen₃⟩ :=
      txnLoop_saves (s := ⟨1, err, [], ofEntries es⟩) _ 0 rfl htids hnone'
    obtain rfl : s = s₃ := Except.ok.inj (hs.symm.trans hs₃)
    have heq : es₁ = es₃ := ofEntries_injective (hfinal₁.symm.trans hfinal₃)
    rw [heq] at hlen₂
    omega
  have hreached := Except.ok.inj
    (hs.symm.trans (txnLoop_rejects (s := ⟨1, err, [], ofEntries es⟩) _ 0 rfl hrejects))
  subst hreached
  have hkept : s'.final.stmtQueue.length = ([] ++ es).length := by
    simpa [hfinal₂, ofEntries] using hsame
  obtain ⟨hlast, hrejects', htried⟩ :=
    stmtLoop_same (by rfl : ofEntries es = ofEntries ([] ++ es)) hs' hkept
  have hattempt : ∀ pre x post, es = pre ++ x :: post → env.deletable x = true →
      (stmtAttempt pre x post).Right := by
    intro pre x post hes hx
    refine hright _ ?_
    rw [htried]
    exact List.mem_append_right _ ((mem_stmtAttempts es).2 ⟨pre, x, post, hes, hx, rfl⟩)
  refine ⟨?_, ?_, ?_, ?_⟩ <;> rw [entries_ofEntries]
  · rw [rejects_append, hrejects]
    exact hrejects'
  · exact hlast
  · exact fun pre x post hes hx => ownReads_of_whole (hattempt pre x post hes hx).whole
  · exact fun pre x post hes hx => (staysDense_iff hdense fun e he =>
      hes ▸ mem_of_withoutStmt he x).1 (hattempt pre x post hes hx).dense

/-- For aligned queues with ids from 0 on that show the bug, any oracle and any user. -/
theorem minimizeTestcase_right_iff (env : MinimizeEnv) (c : LoadedCase) (hc : c.Aligned)
    (hdense : Dense c.tidQueue) (err : String) (hbug : env.oracle 0 c "" = some err) :
    MinimizeRight env c ↔ LeftAlone env c err :=
  ⟨leftAlone_of hc hdense hbug, minimizeRight_of hc hdense hbug⟩

/-! Two transactions, the first of which is enough for the bug -/

def twoTxns : LoadedCase where
  stmtQueue := ["BEGIN", "SELECT 1", "COMMIT", "BEGIN", "SELECT 2", "COMMIT"]
  tidQueue := [0, 0, 0, 1, 1, 1]
  usageQueue := [.mk' .initType false, .mk' .selectRead false, .mk' .initType false,
    .mk' .initType false, .mk' .selectRead false, .mk' .initType false]

/-- The bug is there as long as the first select is. -/
def firstSelect (saves : Bool) : MinimizeEnv where
  beginStmt := "BEGIN"
  commitStmt := "COMMIT"
  abortStmt := "ROLLBACK"
  oracle _ c _ := if "SELECT 1" ∈ c.stmtQueue then some "bug" else none
  saves _ := saves

theorem twoTxns_dense : Dense twoTxns.tidQueue := by
  intro t ht
  simp only [twoTxns, List.mem_cons, List.not_mem_nil, or_false] at ht ⊢
  exact ⟨by omega, fun s _ _ => by omega⟩

theorem minimizeTestcase_right_iff_twoTxns :
    MinimizeRight (firstSelect false) twoTxns ↔ LeftAlone (firstSelect false) twoTxns "bug" :=
  minimizeTestcase_right_iff (firstSelect false) twoTxns (by decide) twoTxns_dense "bug"
    (by decide)

/-- The second transaction is deleted, and the usages of all six statements come back. -/
theorem minimizeTestcase_misaligned :
    (firstSelect true).oracle 0 twoTxns "" = some "bug" ∧ twoTxns.Aligned ∧
      ¬ MinimizeRight (firstSelect true) twoTxns := by
  refine ⟨by decide, by decide, ?_⟩
  rintro ⟨minimized, caller, tried, hrun, -, haligned, -⟩
  have hcaller : ((firstSelect true).minimizeTestcase twoTxns).toOption.map (·.2.1) =
      some ⟨["BEGIN", "SELECT 1", "COMMIT"], [0, 0, 0], twoTxns.usageQueue⟩ := by decide +kernel
  rw [hrun] at hcaller
  cases hcaller
  exact absurd haligned.2 (by decide)

end DbFuzz
