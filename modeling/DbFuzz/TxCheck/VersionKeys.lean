import DbFuzz.Grammar.WriteStmts
import DbFuzz.TxCheck.Instrumentor
import Mathlib.Logic.Relation

/-! The version keys of a transaction test: the parent generates the database, each child
inherits its counters, restores the tables and runs its own statements. -/

namespace DbFuzz

variable {Val : Type}

/-- The server compares integers by `=`. -/
structure KeyServer (Val : Type) extends KeyEnv Val where
  collation : Collation Val
  eq_int : ∀ a b : ℤ, collation.eqTruth (int a) (int b) = some (decide (a = b))

namespace KeyServer

def instrumentEnv (srv : KeyServer Val) (operators : List String) (handleTable : Option Table) :
    InstrumentEnv Val where
  targetDbms := srv.targetDbms
  versionKeyName := srv.versionKeyName
  operators := operators
  handleTable := handleTable
  collation := srv.collation

theorem int_injective (srv : KeyServer Val) {a b : ℤ} (h : srv.int a = srv.int b) : a = b := by
  have := srv.eq_int a b
  rw [h, srv.eq_int b b] at this
  simpa using this.symm

end KeyServer

/-! Writes. -/

inductive Write (Val : Type)
  | insert (s : InsertStmt Val)
  | update (s : UpdateStmt Val)
  | delete (s : DeleteStmt Val)

namespace Write

def toProd : Write Val → Prod Val
  | insert s => .insert s
  | update s => .rowWrite (.update s)
  | delete s => .rowWrite (.delete s)

def victim : Write Val → Table
  | insert s => s.victim
  | update s => s.victim
  | delete s => s.victim

/-- `wkey_value` of the instrumentor. -/
def wkeyValue (versionKeyName : String) : Write Val → Option (ValueText Val)
  | insert s => (s.victim.columns.findIdx? (· == versionKeyName)).bind fun wkeyIdx =>
      s.valueExprsVector.head?.bind (·[wkeyIdx]?)
  | update s => s.setList.lookup versionKeyName
  | delete _ => none

/-- The rows one execution on the visible database writes. -/
def Writes (srv : KeyServer Val) (w : Write Val) (db : Database Val) (rows : List (Row Val)) : Prop :=
  match w with
  | insert s => rows = s.newRows srv.null db
  | update s => ∃ old, s.Changes srv.collation db old ∧ rows = old.map (s.newRow db)
  | delete _ => rows = []

/-- A write that a constructor makes from the counters, which it advances. -/
inductive Constructed (srv : KeyServer Val) (k : KeyState) : KeyState → Write Val → Prop
  | insert (t : GeneratedTable srv.toKeyEnv) (fallback : String) (expr : String → ValueText Val) :
      Constructed srv k (insertStmt srv.toKeyEnv k t.table fallback expr).1
        (.insert (insertStmt srv.toKeyEnv k t.table fallback expr).2)
  | update (t : GeneratedTable srv.toKeyEnv) (draws : List (String → Option (ValueText Val)))
      (search : Search Val) (orderLimit : Option OrderLimit) (s : UpdateStmt Val)
      (h : (updateStmt srv.toKeyEnv k t.table draws search orderLimit).2 = some s) :
      Constructed srv k (updateStmt srv.toKeyEnv k t.table draws search orderLimit).1 (.update s)
  | delete (t : GeneratedTable srv.toKeyEnv) (search : Search Val) (orderLimit : Option OrderLimit) :
      Constructed srv k (deleteStmt k t.table search orderLimit).1
        (.delete (deleteStmt k t.table search orderLimit).2)

/-- The write carries the version key `n`: its rows and its `AFTER_WRITE_READ` do. -/
structure Carries (srv : KeyServer Val) (n : ℕ) (w : Write Val) : Prop where
  rows : ∀ db rows, w.Writes srv db rows → ∀ r ∈ rows, r srv.versionKeyName = srv.int n
  value : ∀ v, w.wkeyValue srv.versionKeyName = some v → v = srv.number n

variable {srv : KeyServer Val} {k k' : KeyState} {w : Write Val}

theorem Constructed.writeOpId (h : Constructed srv k k' w) : k'.writeOpId = k.writeOpId + 1 := by
  cases h with
  | insert t fallback expr => exact insertStmt_writeOpId k t fallback
  | update t draws search orderLimit s h => rfl
  | delete t search orderLimit => rfl

/-- A constructed write carries the advanced counter. -/
theorem Constructed.carries (h : Constructed srv k k' w) : w.Carries srv k'.writeOpId := by
  rw [h.writeOpId]
  cases h with
  | insert t fallback expr =>
    refine ⟨?_, ?_⟩
    · intro db rows hrows r hr
      rw [show rows = _ from hrows] at hr
      exact insertStmt_newRows hr
    · intro v hv
      rw [insertStmt_eq] at hv
      simp only [wkeyValue, Option.bind_eq_some_iff, List.head?_cons, Option.some.injEq,
        exists_eq_left'] at hv
      obtain ⟨i, hi, hv⟩ := hv
      rw [insertValues_at _ _ _ (t.at_findIdx hi)] at hv
      exact (Option.some.inj hv).symm
  | update t draws search orderLimit s h =>
    refine ⟨?_, ?_⟩
    · rintro db rows ⟨old, -, rfl⟩ r hr
      obtain ⟨r', -, rfl⟩ := List.mem_map.1 hr
      exact UpdateStmt.newRow_versionKey (updateStmt_lookup h) db r'
    · intro v hv
      rw [wkeyValue, show srv.versionKeyName = srv.toKeyEnv.versionKeyName from rfl,
        updateStmt_lookup h] at hv
      exact (Option.some.inj hv).symm
  | delete t search orderLimit =>
    refine ⟨?_, ?_⟩
    · intro db rows hrows r hr
      rw [show rows = [] from hrows] at hr
      cases hr
    · intro v hv
      cases hv

/-- The `AFTER_WRITE_READ` of a write selects by its version key. -/
theorem instrumentStmt_afterWriteRead {operators : List String} {handleTable : Option Table}
    {queryText : QuerySpec Val → String} {tid : ℤ} {block : List (Emitted Val)}
    (h : instrumentStmt (srv.instrumentEnv operators handleTable) queryText tid w.toProd = .ok block)
    {e : Emitted Val} (he : e ∈ block) (htype : e.usage.stmtType = .afterWriteRead) :
    ∃ v, w.wkeyValue srv.versionKeyName = some v ∧
      e.stmt = .query (afterWriteSelect (srv.instrumentEnv operators handleTable) w.victim v) := by
  -- the version set reads and the other entries of the block have other types
  have hread : ∀ (tables : List String) (rest : List (Emitted Val)),
      e ∈ versionSetReads tid tables ++ rest → e ∈ rest := by
    intro tables rest hmem
    rcases List.mem_append.1 hmem with hset | hrest
    · obtain ⟨t, -, rfl⟩ := List.mem_map.1 hset
      cases htype
    · exact hrest
  cases w with
  | insert s =>
    simp only [toProd, instrumentStmt, instrumentInsert] at h
    split at h
    · cases h
    · rename_i wkeyIdx hidx
      split at h
      · cases h
      · rename_i value hvalue
        split at h
        · cases h
        · cases h
          have he := hread _ _ he
          simp only [List.mem_cons, List.not_mem_nil, or_false] at he
          rcases he with rfl | rfl
          · cases htype
          · refine ⟨value, ?_, rfl⟩
            rw [wkeyValue]
            exact Option.bind_eq_some_iff.2 ⟨wkeyIdx, hidx, hvalue⟩
  | update s =>
    simp only [toProd, instrumentStmt, instrumentUpdate] at h
    split at h
    · cases h
    · split at h
      · cases h
      · rename_i value hvalue
        split at h
        · cases h
        · cases h
          have he := hread _ _ he
          simp only [List.mem_cons, List.not_mem_nil, or_false] at he
          rcases he with rfl | rfl | rfl
          · cases htype
          · cases htype
          · exact ⟨value, hvalue, rfl⟩
  | delete s =>
    simp only [toProd, instrumentStmt, instrumentDelete, Except.ok.injEq] at h
    subst h
    have he := hread _ _ he
    simp only [List.mem_cons, List.not_mem_nil, or_false] at he
    rcases he with rfl | rfl <;> cases htype

end Write

/-! The processes and the tables. -/

/-- A row version with the execution that wrote it: the process and the place of the
statement among those it made. Process 0 is the parent. -/
structure Stored (Val : Type) where
  table : String
  row : Row Val
  writer : ℕ × ℕ

/-- The counters of a process and the writes it made, each with its `write_op_id`. -/
structure KeyProcess (Val : Type) where
  keys : KeyState
  issued : List (ℕ × Write Val)

/-- `live` are the row versions written since the tables were last reset, committed or
not; a read sees some of them. -/
structure TestState (Val : Type) where
  parent : KeyProcess Val
  child : Option (KeyProcess Val)
  forks : ℕ
  live : List (Stored Val)
  backup : List (Stored Val)
  executed : List ℕ
  /-- The running process has reset the tables. -/
  ready : Bool
  resets : ℕ

def viewDb (shown : List (Stored Val)) : Database Val := fun t =>
  (shown.filter fun v => v.table == t).map Stored.row

namespace TestState

def running (s : TestState Val) : KeyProcess Val := s.child.getD s.parent

def pid (s : TestState Val) : ℕ := if s.child.isSome then s.forks else 0

def setRunning (s : TestState Val) (p : KeyProcess Val) : TestState Val :=
  if s.child.isSome then { s with child := some p } else { s with parent := p }

def init (live : List (Stored Val)) : TestState Val where
  parent := ⟨KeyState.init, []⟩
  child := none
  forks := 0
  live := live
  backup := []
  executed := []
  ready := false
  resets := 0

/-- The running process executes its write `i` on the rows it sees. -/
structure Executes (srv : KeyServer Val) (s : TestState Val) (i n : ℕ) (w : Write Val)
    (rows : List (Row Val)) (s' : TestState Val) : Prop where
  ready : s.ready
  issued : s.running.issued[i]? = some (n, w)
  once : i ∉ s.executed
  writes : ∃ seen, seen.Sublist s.live ∧ w.Writes srv (viewDb seen) rows
  next : s' = { s with
    live := s.live ++ rows.map fun r => ⟨w.victim.ident, r, (s.pid, i)⟩
    executed := i :: s.executed }

/-- What the parent (`random_test`, `generate_database`) and its children (`transaction_test`)
do. A statement of a queue runs at most once between two resets. -/
inductive Step (srv : KeyServer Val) (s : TestState Val) : TestState Val → Prop
  | construct (k' : KeyState) (w : Write Val) (h : w.Constructed srv s.running.keys k') :
      Step srv s (s.setRunning ⟨k', s.running.issued ++ [(k'.writeOpId, w)]⟩)
  -- a constructor that throws has advanced the counters
  | rejected (k' : KeyState) (h : k'.writeOpId = s.running.keys.writeOpId + 1) :
      Step srv s (s.setRunning ⟨k', s.running.issued⟩)
  | dutReset (h : s.child = none) :
      Step srv s { s with live := [], executed := [], ready := true, resets := s.resets + 1 }
  | dutBackup (h : s.child = none) (hready : s.ready) : Step srv s { s with backup := s.live }
  | fork (h : s.child = none) :
      Step srv s { s with
        child := some ⟨s.parent.keys, []⟩, forks := s.forks + 1, executed := [], ready := false
        resets := s.resets + 1 }
  | dutResetToBackup (h : s.child.isSome) :
      Step srv s { s with
        live := s.backup, executed := [], ready := true, resets := s.resets + 1 }
  | execute (i n : ℕ) (w : Write Val) (rows : List (Row Val)) (s' : TestState Val)
      (h : s.Executes srv i n w rows s') : Step srv s s'
  | exit (h : s.child.isSome) :
      Step srv s { s with child := none, executed := [], ready := false, resets := s.resets + 1 }

def Steps (srv : KeyServer Val) : TestState Val → TestState Val → Prop :=
  Relation.ReflTransGen (Step srv)

def Reachable (srv : KeyServer Val) (s : TestState Val) : Prop := ∃ live, Steps srv (init live) s

/-! What every reachable state satisfies. -/

end TestState

/-- The keys of the writes a process made lie above `lo`, in the order of their making. -/
structure KeyProcess.Ordered (srv : KeyServer Val) (lo : ℕ) (p : KeyProcess Val) : Prop where
  le : lo ≤ p.keys.writeOpId
  carries : ∀ e ∈ p.issued, e.2.Carries srv e.1
  bounds : ∀ e ∈ p.issued, lo < e.1 ∧ e.1 ≤ p.keys.writeOpId
  increasing : p.issued.Pairwise fun a b => a.1 < b.1

section Ordered

variable {srv : KeyServer Val} {lo : ℕ} {p : KeyProcess Val} {k' : KeyState} {w : Write Val}

theorem KeyProcess.Ordered.construct (h : p.Ordered srv lo) (hw : w.Constructed srv p.keys k') :
    KeyProcess.Ordered srv lo ⟨k', p.issued ++ [(k'.writeOpId, w)]⟩ := by
  have hk := hw.writeOpId
  have hle := h.le
  refine ⟨by simp only [hk]; omega, ?_, ?_, ?_⟩
  · intro e he
    rcases List.mem_append.1 he with he | he
    · exact h.carries e he
    · rw [List.mem_singleton.1 he]
      exact hw.carries
  · intro e he
    rcases List.mem_append.1 he with he | he
    · have := h.bounds e he
      simp only [hk]
      omega
    · rw [List.mem_singleton.1 he]
      simp only [hk]
      omega
  · refine List.pairwise_append.2 ⟨h.increasing, List.pairwise_singleton _ _, ?_⟩
    intro a ha b hb
    have := h.bounds a ha
    rw [List.mem_singleton.1 hb]
    simp only [hk]
    omega

theorem KeyProcess.Ordered.rejected (h : p.Ordered srv lo)
    (hk : k'.writeOpId = p.keys.writeOpId + 1) : KeyProcess.Ordered srv lo ⟨k', p.issued⟩ := by
  have hle := h.le
  refine ⟨by simp only [hk]; omega, h.carries, ?_, h.increasing⟩
  intro e he
  have := h.bounds e he
  simp only [hk]
  omega

theorem KeyProcess.ordered_fork (srv : KeyServer Val) (keys : KeyState) :
    KeyProcess.Ordered srv keys.writeOpId ⟨keys, []⟩ :=
  ⟨le_rfl, by simp, by simp, List.Pairwise.nil⟩

/-- Two writes of a process with the same key are one. -/
theorem KeyProcess.Ordered.index_eq (h : p.Ordered srv lo) {i j n : ℕ} {w w' : Write Val}
    (hi : p.issued[i]? = some (n, w)) (hj : p.issued[j]? = some (n, w')) : i = j := by
  rw [List.getElem?_eq_some_iff] at hi hj
  obtain ⟨hil, hi⟩ := hi
  obtain ⟨hjl, hj⟩ := hj
  have hlt := List.pairwise_iff_getElem.1 h.increasing
  rcases Nat.lt_trichotomy i j with hij | hij | hij
  · have := hlt i j hil hjl hij
    rw [hi, hj] at this
    exact absurd this (lt_irrefl n)
  · exact hij
  · have := hlt j i hjl hil hij
    rw [hi, hj] at this
    exact absurd this (lt_irrefl n)

end Ordered

namespace TestState

/-- A row of the generated database. -/
def Generated (srv : KeyServer Val) (s : TestState Val) (v : Stored Val) : Prop :=
  v.writer.1 = 0 ∧ ∃ n ≤ s.parent.keys.writeOpId, v.row srv.versionKeyName = srv.int n

/-- A row of a write that the child has executed. -/
def OfChild (srv : KeyServer Val) (s : TestState Val) (v : Stored Val) : Prop :=
  ∃ c n w, s.child = some c ∧ v.writer.1 = s.forks ∧ c.issued[v.writer.2]? = some (n, w) ∧
    v.writer.2 ∈ s.executed ∧ v.table = w.victim.ident ∧ v.row srv.versionKeyName = srv.int n

structure KeyInv (srv : KeyServer Val) (s : TestState Val) : Prop where
  parent : s.parent.Ordered srv 0
  child : ∀ c ∈ s.child, c.Ordered srv s.parent.keys.writeOpId
  forked : s.child.isSome → 0 < s.forks
  backup : ∀ v ∈ s.backup, s.Generated srv v
  live : s.ready → ∀ v ∈ s.live, s.Generated srv v ∨ s.OfChild srv v

variable {srv : KeyServer Val} {s s' : TestState Val} {i n : ℕ} {w : Write Val}
  {rows : List (Row Val)}

theorem keyInv_init (live : List (Stored Val)) : KeyInv srv (init live) where
  parent := ⟨Nat.zero_le _, by simp [init], by simp [init], by simp [init]⟩
  child := by simp [init]
  forked := by simp [init]
  backup := by simp [init]
  live := by simp [init]

/-- A process keeps its writes when its counters go on. -/
theorem KeyInv.setRunning (h : KeyInv srv s) {p : KeyProcess Val}
    (hle : s.running.keys.writeOpId ≤ p.keys.writeOpId)
    (hissued : ∀ (j : ℕ) (e : ℕ × Write Val), s.running.issued[j]? = some e → p.issued[j]? = some e)
    (hordered : ∀ lo, s.running.Ordered srv lo → p.Ordered srv lo) : KeyInv srv (s.setRunning p) := by
  cases hc : s.child with
  | none =>
    have hrun : s.running = s.parent := by simp [running, hc]
    rw [hrun] at hle hordered
    have hgen : ∀ v, s.Generated srv v → Generated srv { s with parent := p } v := by
      rintro v ⟨hw, n, hn, hv⟩
      exact ⟨hw, n, hn.trans hle, hv⟩
    simp only [TestState.setRunning, hc, Option.isSome_none, Bool.false_eq_true, if_false]
    refine ⟨hordered 0 h.parent, by simp, by simp, fun v hv => hgen v (h.backup v hv), ?_⟩
    · intro hr v hv
      refine (h.live hr v hv).imp (hgen v) ?_
      rintro ⟨c, n, w, hcc, -⟩
      rw [hc] at hcc
      cases hcc
  | some c =>
    have hrun : s.running = c := by simp [running, hc]
    rw [hrun] at hissued hordered
    simp only [TestState.setRunning, hc, Option.isSome_some, if_true]
    refine ⟨h.parent, ?_, fun _ => h.forked (by simp [hc]), h.backup, ?_⟩
    · rintro c' hc'
      cases hc'
      exact hordered _ (h.child c hc)
    · intro hr v hv
      refine (h.live hr v hv).imp id ?_
      rintro ⟨c', n, w, hcc, hf, hi, hrest⟩
      rw [hc] at hcc
      cases hcc
      exact ⟨p, n, w, rfl, hf, hissued _ _ hi, hrest⟩

/-- The rows of an execution carry the key of the write. -/
theorem KeyInv.executes (h : KeyInv srv s) (hx : s.Executes srv i n w rows s') : KeyInv srv s' := by
  obtain ⟨hready, hissued, -, ⟨seen, -, hwrites⟩, rfl⟩ := hx
  refine ⟨h.parent, h.child, h.forked, h.backup, ?_⟩
  intro _ v hv
  rcases List.mem_append.1 hv with hv | hv
  · refine (h.live hready v hv).imp id ?_
    rintro ⟨c, m, w', hc, hf, hi, hmem, hrest⟩
    exact ⟨c, m, w', hc, hf, hi, List.mem_cons_of_mem _ hmem, hrest⟩
  · obtain ⟨r, hr, rfl⟩ := List.mem_map.1 hv
    rcases hc : s.child with _ | c
    · have hrun : s.running = s.parent := by simp [running, hc]
      rw [hrun] at hissued
      have hmem := List.mem_of_getElem? hissued
      refine Or.inl ⟨by simp [pid, hc], n, (h.parent.bounds _ hmem).2, ?_⟩
      exact (h.parent.carries _ hmem).rows _ _ hwrites r hr
    · have hrun : s.running = c := by simp [running, hc]
      rw [hrun] at hissued
      have hmem := List.mem_of_getElem? hissued
      refine Or.inr ⟨c, n, w, rfl, by simp [pid, hc], hissued, List.mem_cons_self, rfl, ?_⟩
      exact ((h.child c hc).carries _ hmem).rows _ _ hwrites r hr

theorem KeyInv.step (h : KeyInv srv s) (hstep : Step srv s s') : KeyInv srv s' := by
  cases hstep with
  | construct k' w hw =>
    refine h.setRunning ?_ ?_ fun lo hp => hp.construct hw
    · simp only [hw.writeOpId]
      omega
    · intro j e hj
      rw [List.getElem?_append_left (List.getElem?_eq_some_iff.1 hj).1]
      exact hj
  | rejected k' hk =>
    refine h.setRunning ?_ (fun _ _ hj => hj) fun lo hp => hp.rejected hk
    simp only [hk]
    omega
  | dutReset hc =>
    exact ⟨h.parent, h.child, h.forked, h.backup, fun _ v hv => by cases hv⟩
  | dutBackup hc hready =>
    refine ⟨h.parent, h.child, h.forked, ?_, h.live⟩
    intro v hv
    refine (h.live hready v hv).resolve_right ?_
    rintro ⟨c, n, w, hcc, -⟩
    rw [hc] at hcc
    cases hcc
  | fork hc =>
    refine ⟨h.parent, ?_, fun _ => Nat.succ_pos _, h.backup, fun hr => by cases hr⟩
    rintro c hcc
    cases hcc
    exact KeyProcess.ordered_fork srv s.parent.keys
  | dutResetToBackup hc =>
    exact ⟨h.parent, h.child, h.forked, h.backup, fun _ v hv => Or.inl (h.backup v hv)⟩
  | execute i n w rows s' hx => exact h.executes hx
  | exit hc =>
    exact ⟨h.parent, by simp, by simp, h.backup, fun hr => by cases hr⟩

theorem Reachable.keyInv (h : Reachable srv s) : KeyInv srv s := by
  obtain ⟨live, hsteps⟩ := h
  induction hsteps with
  | refl => exact keyInv_init live
  | tail _ hstep ih => exact ih.step hstep

/-! What a read returns. -/

/-- A version key in the tables names the one write that carries it. -/
theorem KeyInv.writer_eq (h : KeyInv srv s) (hready : s.ready) (hchild : s.child.isSome)
    (hi : s.running.issued[i]? = some (n, w)) {v : Stored Val} (hv : v ∈ s.live)
    (hkey : v.row srv.versionKeyName = srv.int n) : v.writer = (s.forks, i) := by
  obtain ⟨c, hc⟩ := Option.isSome_iff_exists.1 hchild
  have hrun : s.running = c := by simp [running, hc]
  rw [hrun] at hi
  have hordered := h.child c hc
  rcases h.live hready v hv with ⟨-, m, hm, hvm⟩ | ⟨c', m, w', hcc, hf, hj, -, -, hvm⟩
  · -- the keys of the generated database are smaller
    have hlo := (hordered.bounds _ (List.mem_of_getElem? hi)).1
    have := srv.int_injective (hkey.symm.trans hvm)
    simp only at hlo
    omega
  · obtain rfl : c = c' := Option.some.inj (hc.symm.trans hcc)
    have hnm : n = m := by exact_mod_cast srv.int_injective (hkey.symm.trans hvm)
    subst hnm
    exact Prod.ext hf (hordered.index_eq hj hi)

/-- A row of the write is in its table and carries its key. -/
theorem KeyInv.of_writer (h : KeyInv srv s) (hready : s.ready) (hchild : s.child.isSome)
    (hi : s.running.issued[i]? = some (n, w)) {v : Stored Val} (hv : v ∈ s.live)
    (hw : v.writer = (s.forks, i)) :
    v.table = w.victim.ident ∧ v.row srv.versionKeyName = srv.int n := by
  obtain ⟨c, hc⟩ := Option.isSome_iff_exists.1 hchild
  have hrun : s.running = c := by simp [running, hc]
  rw [hrun] at hi
  rcases h.live hready v hv with ⟨h0, -⟩ | ⟨c', m, w', hcc, -, hj, -, ht, hvm⟩
  · have := h.forked hchild
    rw [hw] at h0
    omega
  · obtain rfl : c = c' := Option.some.inj (hc.symm.trans hcc)
    rw [hw, hi] at hj
    cases hj
    exact ⟨ht, hvm⟩

/-- The read sees every row the write has written. -/
structure Shows (s : TestState Val) (writer : ℕ × ℕ) (shown : List (Stored Val)) : Prop where
  sublist : shown.Sublist s.live
  own : (shown.filter fun v => v.writer == writer) = s.live.filter fun v => v.writer == writer

/-- A read by the key returns the rows that its write has written. -/
theorem KeyInv.returns_iff (h : KeyInv srv s) (hready : s.ready) (hchild : s.child.isSome)
    (hi : s.running.issued[i]? = some (n, w)) {shown : List (Stored Val)}
    (hshown : s.Shows (s.forks, i) shown) (operators : List String) (handleTable : Option Table)
    (out : List (Row Val)) :
    (afterWriteSelect (srv.instrumentEnv operators handleTable) w.victim (srv.number n)).Returns
        srv.collation (viewDb shown) out ↔
      out.Perm ((s.live.filter fun v => v.writer == (s.forks, i)).map Stored.row) := by
  have hmatch : (((shown.filter fun v => v.table == w.victim.ident).filter fun v =>
      srv.collation.eqTruth (v.row srv.versionKeyName) (srv.int n) == some true)) =
        shown.filter fun v => v.writer == (s.forks, i) := by
    rw [List.filter_filter]
    refine List.filter_congr fun v hv => ?_
    have hlive := hshown.sublist.subset hv
    rw [Bool.eq_iff_iff]
    simp only [Bool.and_eq_true, beq_iff_eq]
    constructor
    · rintro ⟨heq, -⟩
      refine h.writer_eq hready hchild hi hlive ?_
      rcases h.live hready v hlive with ⟨-, m, -, hvm⟩ | ⟨c, m, w', -, -, -, -, -, hvm⟩ <;>
      · rw [hvm, srv.eq_int] at heq
        simp only [Option.some.injEq, decide_eq_true_eq] at heq
        rw [hvm, heq]
    · intro hw
      obtain ⟨ht, hk⟩ := h.of_writer hready hchild hi hlive hw
      exact ⟨by rw [hk, srv.eq_int]; simp, ht⟩
  have hrows : matching (viewDb shown) w.victim
      ⟨"", fun db row => srv.collation.eqTruth (row srv.versionKeyName) (srv.int n)⟩ =
        (s.live.filter fun v => v.writer == (s.forks, i)).map Stored.row := by
    rw [← hshown.own, ← hmatch, matching, viewDb, List.filter_map]
    rfl
  rw [← hrows]
  exact Iff.rfl

/-! What follows an execution until the tables are reset. -/

structure Extends (s s' : TestState Val) : Prop where
  forks : s'.forks = s.forks
  child : s'.child.isSome = s.child.isSome
  ready : s'.ready = s.ready
  issued : ∀ (j : ℕ) (e : ℕ × Write Val), s.running.issued[j]? = some e →
    s'.running.issued[j]? = some e
  executed : ∀ j ∈ s.executed, j ∈ s'.executed
  live : ∃ added, s'.live = s.live ++ added ∧ ∀ v ∈ added, v.writer.2 ∉ s.executed

theorem Extends.refl (s : TestState Val) : s.Extends s :=
  ⟨rfl, rfl, rfl, fun _ _ h => h, fun _ h => h, [], by simp, by simp⟩

theorem Extends.trans {s₁ s₂ s₃ : TestState Val} (h : s₁.Extends s₂) (h' : s₂.Extends s₃) :
    s₁.Extends s₃ := by
  obtain ⟨added, hl, hnew⟩ := h.live
  obtain ⟨added', hl', hnew'⟩ := h'.live
  refine ⟨h'.forks.trans h.forks, h'.child.trans h.child, h'.ready.trans h.ready,
    fun j e hj => h'.issued j e (h.issued j e hj), fun j hj => h'.executed j (h.executed j hj),
    added ++ added', by rw [hl', hl, List.append_assoc], ?_⟩
  intro v hv
  rcases List.mem_append.1 hv with hv | hv
  · exact hnew v hv
  · exact fun hj => hnew' v hv (h.executed _ hj)

theorem Extends.setRunning (s : TestState Val) {p : KeyProcess Val}
    (hissued : ∀ (j : ℕ) (e : ℕ × Write Val), s.running.issued[j]? = some e →
      p.issued[j]? = some e) : s.Extends (s.setRunning p) := by
  have hrun : (s.setRunning p).running = p := by
    cases hc : s.child <;> simp [TestState.setRunning, running, hc]
  refine ⟨?_, ?_, ?_, ?_, ?_, [], ?_, by simp⟩
  · unfold TestState.setRunning; split_ifs <;> rfl
  · cases hc : s.child <;> simp [TestState.setRunning, hc]
  · unfold TestState.setRunning; split_ifs <;> rfl
  · rw [hrun]; exact hissued
  · unfold TestState.setRunning; split_ifs <;> exact fun _ h => h
  · unfold TestState.setRunning; split_ifs <;> simp

theorem Executes.extends (hx : s.Executes srv i n w rows s') : s.Extends s' := by
  obtain ⟨-, -, honce, -, rfl⟩ := hx
  refine ⟨rfl, rfl, rfl, fun _ _ h => h, fun j hj => List.mem_cons_of_mem _ hj, _, rfl, ?_⟩
  intro v hv
  obtain ⟨r, -, rfl⟩ := List.mem_map.1 hv
  exact honce

/-- A step resets the tables or only adds rows of writes that had not run. -/
theorem Step.extends (hstep : Step srv s s') : s.resets < s'.resets ∨
    (s'.resets = s.resets ∧ s.Extends s') := by
  have hresets : ∀ p, (s.setRunning p).resets = s.resets := by
    intro p
    unfold TestState.setRunning
    split_ifs <;> rfl
  cases hstep with
  | construct k' w hw =>
    refine Or.inr ⟨hresets _, Extends.setRunning s fun j e hj => ?_⟩
    rw [List.getElem?_append_left (List.getElem?_eq_some_iff.1 hj).1]
    exact hj
  | rejected k' hk => exact Or.inr ⟨hresets _, Extends.setRunning s fun _ _ hj => hj⟩
  | dutReset | fork | dutResetToBackup | exit => exact Or.inl (Nat.lt_succ_self _)
  | dutBackup hc hready =>
    exact Or.inr ⟨rfl, rfl, rfl, rfl, fun _ _ h => h, fun _ h => h, [], by simp, by simp⟩
  | execute i n w rows s' hx =>
    refine Or.inr ⟨?_, hx.extends⟩
    rw [hx.next]

theorem Steps.extends (h : Steps srv s s') : s.resets ≤ s'.resets ∧
    (s'.resets = s.resets → s.Extends s') := by
  induction h with
  | refl => exact ⟨le_rfl, fun _ => Extends.refl s⟩
  | tail _ hstep ih =>
    rcases hstep.extends with hlt | ⟨heq, hext⟩
    · exact ⟨by omega, fun he => by omega⟩
    · exact ⟨by omega, fun he => (ih.2 (by omega)).trans hext⟩

/-- The rows of an execution are those the tables keep under its name. -/
theorem KeyInv.rows_of_executes (h : KeyInv srv s) (hchild : s.child.isSome)
    (hx : s.Executes srv i n w rows s') {s₂ : TestState Val} (hext : s'.Extends s₂) :
    ((s₂.live.filter fun v => v.writer == (s.forks, i)).map Stored.row) = rows := by
  obtain ⟨c, hc⟩ := Option.isSome_iff_exists.1 hchild
  obtain ⟨added, hadded, hnew⟩ := hext.live
  have hbefore : (s.live.filter fun v => v.writer == (s.forks, i)) = [] := by
    rw [List.filter_eq_nil_iff]
    intro v hv hw
    rw [beq_iff_eq] at hw
    rcases h.live hx.ready v hv with ⟨h0, -⟩ | ⟨_, _, _, _, _, _, hmem, _⟩
    · have := h.forked hchild
      rw [hw] at h0
      omega
    · rw [hw] at hmem
      exact hx.once hmem
  have hafter : (added.filter fun v => v.writer == (s.forks, i)) = [] := by
    rw [List.filter_eq_nil_iff]
    intro v hv hw
    refine hnew v hv ?_
    rw [beq_iff_eq] at hw
    rw [hx.next, hw]
    exact List.mem_cons_self
  have hpid : s.pid = s.forks := by simp [pid, hc]
  rw [hadded, hx.next, List.filter_append, List.filter_append, hbefore, hafter, List.nil_append,
    List.append_nil, hpid, List.filter_eq_self.2, List.map_map]
  · exact List.map_id rows
  · intro v hv
    obtain ⟨r, -, rfl⟩ := List.mem_map.1 hv
    simp

/-- In the tables a key names one write, and until the next reset the read after an
executed write returns the rows of that write. -/
structure ReadsExact (srv : KeyServer Val) (s : TestState Val) : Prop where
  unique : ∀ (i n : ℕ) (w : Write Val), s.running.issued[i]? = some (n, w) → ∀ v ∈ s.live,
    v.row srv.versionKeyName = srv.int n → v.writer = (s.forks, i)
  after : ∀ (i n : ℕ) (w : Write Val) (rows : List (Row Val)) (s₁ s₂ : TestState Val),
    s.Executes srv i n w rows s₁ → Steps srv s₁ s₂ →
    s₂.resets = s₁.resets →
    ∀ operators handleTable queryText tid block,
      instrumentStmt (srv.instrumentEnv operators handleTable) queryText tid w.toProd = .ok block →
      ∀ e ∈ block, e.usage.stmtType = .afterWriteRead → ∃ q, e.stmt = .query q ∧
        ∀ shown, s₂.Shows (s.forks, i) shown → ∀ out,
          q.Returns srv.collation (viewDb shown) out ↔ out.Perm rows

end TestState

/-- In every test the keys of the writes tell their rows from all others. -/
theorem readsExact (srv : KeyServer Val) {s : TestState Val} (h : TestState.Reachable srv s)
    (hchild : s.child.isSome) (hready : s.ready) : s.ReadsExact srv := by
  have hinv := h.keyInv
  refine ⟨fun i n w hi v hv hkey => hinv.writer_eq hready hchild hi hv hkey, ?_⟩
  intro i n w rows s₁ s₂ hx hrun hsame operators handleTable queryText tid block hblock e he htype
  have hinv₂ : TestState.KeyInv srv s₂ := by
    obtain ⟨live, hsteps⟩ := h
    exact TestState.Reachable.keyInv ⟨live, (hsteps.tail (.execute i n w rows s₁ hx)).trans hrun⟩
  have hext₁ := hx.extends
  have hext := (TestState.Steps.extends hrun).2 hsame
  have hi₂ := hext.issued _ _ (hext₁.issued _ _ hx.issued)
  have hready₂ : s₂.ready := by rw [hext.ready, hext₁.ready]; exact hready
  have hchild₂ : s₂.child.isSome := by rw [hext.child, hext₁.child]; exact hchild
  have hforks : s₂.forks = s.forks := hext.forks.trans hext₁.forks
  obtain ⟨v, hv, hstmt⟩ := Write.instrumentStmt_afterWriteRead hblock he htype
  -- the key of the read is the one the write carries
  obtain rfl : v = srv.number n := by
    obtain ⟨c, hc⟩ := Option.isSome_iff_exists.1 hchild₂
    have hrun₂ : s₂.running = c := by simp [TestState.running, hc]
    rw [hrun₂] at hi₂
    exact ((hinv₂.child c hc).carries _ (List.mem_of_getElem? hi₂)).value v hv
  refine ⟨_, hstmt, fun shown hshown out => ?_⟩
  rw [← hforks] at hshown
  rw [hinv₂.returns_iff hready₂ hchild₂ hi₂ hshown, hforks,
    hinv.rows_of_executes hchild hx hext]

/-! A test with one row in the generated database and one update. -/

def sampleServer : KeyServer ℤ where
  targetDbms := .postgres
  requirePkeyWkey := false
  int := id
  null := 0
  collation :=
    { eqTruth := fun a b => some (decide (a = b))
      le := fun a b => decide (a ≤ b)
      le_total := by simpa using Int.le_total
      le_trans := by simpa using fun a b c => Int.le_trans }
  eq_int := fun _ _ => rfl

def sampleTable : GeneratedTable sampleServer.toKeyEnv :=
  ⟨"t_1", ["vkey", "pkey", "c_1"], by decide, by decide, by decide, by decide⟩

def sampleInsert : KeyState × InsertStmt ℤ :=
  insertStmt sampleServer.toKeyEnv KeyState.init sampleTable.table "" fun _ => ⟨"7", fun _ _ => 7⟩

def sampleUpdate : UpdateStmt ℤ where
  victim := sampleTable.table
  setList := [("vkey", sampleServer.number 2), ("c_1", ⟨"5", fun _ _ => 5⟩)]
  search := ⟨"true", fun _ _ => some true⟩
  orderLimit := none

def sampleRows : List (Stored ℤ) :=
  (sampleInsert.2.newRows 0 (viewDb [])).map fun r => ⟨"t_1", r, (0, 0)⟩

/-- The child before it executes its update. -/
def sampleTest : TestState ℤ where
  parent := ⟨sampleInsert.1, [(1, .insert sampleInsert.2)]⟩
  child := some ⟨⟨2, 11000⟩, [(2, .update sampleUpdate)]⟩
  forks := 1
  live := sampleRows
  backup := sampleRows
  executed := []
  ready := true
  resets := 3

theorem sampleTest_reachable : sampleTest.Reachable sampleServer := by
  refine ⟨[], ?_⟩
  refine Relation.ReflTransGen.tail (b := { sampleTest with child := some ⟨⟨1, 11000⟩, []⟩ }) ?_
    (.construct ⟨2, 11000⟩ (.update sampleUpdate)
      (.update sampleTable [fun _ => some ⟨"5", fun _ _ => 5⟩] _ none sampleUpdate rfl))
  refine Relation.ReflTransGen.tail (b := { sampleTest with
    child := some ⟨⟨1, 11000⟩, []⟩, ready := false, resets := 2 }) ?_ (.dutResetToBackup rfl)
  refine Relation.ReflTransGen.tail (b := { sampleTest with
    child := none, forks := 0, executed := [0], resets := 1 }) ?_ (.fork rfl)
  refine Relation.ReflTransGen.tail (b := { sampleTest with
    child := none, forks := 0, executed := [0], backup := [], resets := 1 }) ?_
    (.dutBackup rfl rfl)
  refine Relation.ReflTransGen.tail (b := { sampleTest with
    child := none, forks := 0, live := [], backup := [], resets := 1 }) ?_
    (.execute 0 1 (.insert sampleInsert.2) (sampleInsert.2.newRows 0 (viewDb [])) _
      ⟨rfl, rfl, by simp [sampleTest], ⟨[], List.Sublist.refl _, rfl⟩, rfl⟩)
  refine Relation.ReflTransGen.tail (b := { TestState.init [] with ready := true, resets := 1 }) ?_
    (.construct _ _ (.insert sampleTable "" _))
  exact Relation.ReflTransGen.single (.dutReset rfl)

/-- The read after `update t_1 set vkey = 2, c_1 = 5 where true`. -/
theorem readsExact_update : sampleTest.ReadsExact sampleServer ∧
    ∃ rows s₁, sampleTest.Executes sampleServer 0 2 (.update sampleUpdate) rows s₁ ∧
      rows.map (fun r => (r "vkey", r "c_1")) = [(2, 5)] := by
  refine ⟨readsExact sampleServer sampleTest_reachable rfl rfl, _, _,
    ⟨rfl, rfl, by simp [sampleTest], ⟨sampleRows, List.Sublist.refl _, _, List.Perm.refl _, rfl⟩, rfl⟩, ?_⟩
  decide

end DbFuzz
