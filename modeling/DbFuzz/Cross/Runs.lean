import DbFuzz.Cross.Restores

/-! The runs of a path on a deterministic server: what a run returns depends on the texts it
sends and on the backup. -/

namespace DbFuzz.Cross

open DbFuzz.Expr

variable {σ : Type}

/-- A server without a clock: what a statement returns and leaves, and what a database holds. -/
structure Database (σ : Type) where
  answer : σ → String → Except String StmtOutput × σ
  content : σ → Content

/-- Equal statements on equal databases give equal outputs and contents. -/
structure Deterministic (env : CrossEnv σ) (db : Database σ) : Prop where
  test : ∀ t text, env.test t text = db.answer t.live text
  content : ∀ t, env.content t = db.content t.live

/-- The rows of the selects among the statements, and the database after the last one. -/
def Database.rows (db : Database σ) :
    List (String × StmtBasicType) → σ → Multiset RowOutput × σ
  | [], live => (0, live)
  | (text, usage) :: sent, live =>
    let (answer, live) := db.answer live text
    let (others, live) := db.rows sent live
    (collected usage answer + others, live)

def Database.run (db : Database σ) (texts : List String) (usages : List StmtBasicType)
    (backup : σ) : RunResult :=
  let (rows, live) := db.rows (texts.zip usages) backup
  (rows, db.content live)

namespace View

variable (env : CrossEnv σ) (v : View σ)

def stmts (path : List PathStmt) : List Statement := path.map fun p => v.heap p.stmt

def texts (path : List PathStmt) : List String := (v.stmts path).map (Statement.text env.schema)

def record (event : Event) : View σ := { v with events := v.events ++ [event] }

/-- The view after a run of the path. -/
def executes (path : List PathStmt) : View σ :=
  v.record (.executes (v.texts env path) (path.map PathStmt.usage))

end View

variable {env : CrossEnv σ} {db : Database σ} {path : List PathStmt} {v : View σ}

theorem testStmts_rows (hdb : Deterministic env db) (path : List PathStmt) (t : CrossState σ) :
    ((testStmts env path t).1, (testStmts env path t).2.live) =
      db.rows ((textsOf env t path).zip (path.map PathStmt.usage)) t.live := by
  induction path generalizing t with
  | nil => rfl
  | cons p path ih =>
    have htail := ih (testStmt env p t).2
    have htexts : textsOf env (testStmt env p t).2 path = textsOf env t path := rfl
    have hlive : (testStmt env p t).2.live =
        (db.answer t.live ((t.heap p.stmt).text env.schema)).2 := by
      rw [← hdb.test]
      rfl
    have hrows : (testStmt env p t).1 =
        collected p.usage (db.answer t.live ((t.heap p.stmt).text env.schema)).1 := by
      rw [← hdb.test]
      rfl
    rw [htexts, hlive, Prod.ext_iff] at htail
    refine Prod.ext ?_ htail.2
    change (testStmt env p t).1 + (testStmts env path (testStmt env p t).2).1 = _
    rw [hrows, htail.1]
    rfl

/-! Each procedure on the view. -/

/-- What is left when a call fails. -/
def Failed (env : CrossEnv σ) (last : List PathStmt) (t : CrossState σ) : Prop :=
  t.lastPath = last ∧ ∃ u, env.fails u ≠ none

theorem dbmsCall_view :
    Proc.Holds (fun t => t.view = v) (dbmsCall env) (fun _ t => t.view = v)
      (Failed env v.lastPath) :=
  Proc.Holds.get.bind fun t =>
    (Proc.Holds.modify (Q := fun _ t => t.view = v) fun _ h => h.2).bind fun _ =>
    Proc.Holds.throwIf (fun _ h _ => h) fun _ h hne => ⟨congrArg View.lastPath h, t, hne⟩

theorem dutResetToBackup_view :
    Proc.Holds (fun t => t.view = v) (dutResetToBackup env)
      (fun _ t => t.view = v ∧ t.live = v.backup) (Failed env v.lastPath) :=
  dbmsCall_view.bind fun _ => Proc.Holds.modify fun _ h => ⟨h, h ▸ rfl⟩

theorem dbmsCall_live {live : σ} :
    Proc.Holds (fun t => t.view = v ∧ t.live = live) (dbmsCall env)
      (fun _ t => t.view = v ∧ t.live = live) (Failed env v.lastPath) :=
  Proc.Holds.get.bind fun t =>
    (Proc.Holds.modify (Q := fun _ t => t.view = v ∧ t.live = live) fun _ h => h.2).bind fun _ =>
    Proc.Holds.throwIf (fun _ h _ => h) fun _ h hne => ⟨congrArg View.lastPath h.1, t, hne⟩

theorem executeNormalPath_view (hdb : Deterministic env db) :
    Proc.Holds (fun t => t.view = v ∧ t.live = v.backup) (executeNormalPath env path)
      (fun result t => result = db.run (v.texts env path) (path.map PathStmt.usage) v.backup ∧
        t.view = v.executes env path)
      (Failed env v.lastPath) := by
  refine dbmsCall_live.bind fun _ => Proc.Holds.get.bind fun t => Proc.Holds.of_start fun u hu => ?_
  obtain ⟨rfl, rfl, hlive⟩ := hu
  refine (Proc.Holds.modify (Q := fun _ u => u.view = t.view.executes env path ∧
      u.live = t.view.backup) (by rintro u rfl; exact ⟨rfl, hlive⟩)).bind fun _ =>
    Proc.Holds.bind (M := fun results u => u.view = t.view.executes env path ∧
      (results, u.live) = db.rows ((t.view.texts env path).zip (path.map PathStmt.usage))
        t.view.backup) ?_ fun results => ?_
  · rintro u ⟨hview, hu⟩
    refine Or.inl ⟨_, _, rfl, (testStmts_view env path u).trans hview, ?_⟩
    have htexts : textsOf env u path = t.view.texts env path := by
      have hheap : u.heap = t.heap := congrArg View.heap hview
      rw [textsOf, stmtsOf, hheap]
      rfl
    rw [testStmts_rows hdb, htexts, hu]
  · refine Proc.Holds.of_start fun u hu =>
      (dbmsCall_live.pre (P := fun w => w.view = t.view.executes env path ∧ w.live = u.live)
        ?_).bind fun _ => Proc.Holds.get.bind fun w => Proc.Holds.pure ?_
    · rintro w rfl
      exact ⟨hu.1, rfl⟩
    · rintro x ⟨rfl, hview, hx⟩
      refine ⟨?_, hview⟩
      rw [Database.run, ← hu.2, ← hx, hdb.content]

/-! The two loops. -/

/-- The trees after a loop of transforms. -/
def transformHeap (env : CrossEnv σ) : List ℕ → ℕ → (ℕ → Statement) → Option (ℕ → Statement)
  | [], _, heap => some heap
  | p :: targets, drawn, heap => do
    let st ← transformSelect env.schema (env.draws drawn) (heap p)
    transformHeap env targets (drawn + 1) (Function.update heap p st)

def backTransformHeap (env : CrossEnv σ) : List ℕ → (ℕ → Statement) → Option (ℕ → Statement)
  | [], heap => some heap
  | p :: targets, heap => do
    let st ← backTransformSelect env.schema (heap p)
    backTransformHeap env targets (Function.update heap p st)

/-- What holds of each transformed statement holds after the loop. -/
theorem transformHeap_exists {Q : ℕ → Statement → Prop} {heap : ℕ → Statement} {targets : List ℕ}
    (drawn : ℕ) (hnodup : targets.Nodup)
    (h : ∀ p ∈ targets, ∀ ρ, ∃ st, transformSelect env.schema ρ (heap p) = some st ∧ Q p st) :
    ∃ heap', transformHeap env targets drawn heap = some heap' ∧
      (∀ p ∈ targets, Q p (heap' p)) ∧ ∀ p ∉ targets, heap' p = heap p := by
  induction targets generalizing drawn heap with
  | nil => exact ⟨heap, rfl, by simp, fun _ _ => rfl⟩
  | cons p targets ih =>
    rw [List.nodup_cons] at hnodup
    rw [List.forall_mem_cons] at h
    obtain ⟨st, hst, hq⟩ := h.1 (env.draws drawn)
    have hrest : ∀ q ∈ targets, ∀ ρ, ∃ st', transformSelect env.schema ρ
        (Function.update heap p st q) = some st' ∧ Q q st' := by
      intro q hq
      rw [Function.update_of_ne (ne_of_mem_of_not_mem hq hnodup.1)]
      exact h.2 q hq
    obtain ⟨heap', hheap, hall, hsame⟩ := ih (drawn + 1) hnodup.2 hrest
    refine ⟨heap', by simp [transformHeap, hst, hheap], ?_, fun q hq => ?_⟩
    · rw [List.forall_mem_cons]
      refine ⟨?_, hall⟩
      rw [hsame p hnodup.1, Function.update_self]
      exact hq
    · rw [List.mem_cons, not_or] at hq
      rw [hsame q hq.2, Function.update_of_ne hq.1]

theorem backTransformHeap_exists {Q : ℕ → Statement → Prop} {heap : ℕ → Statement}
    {targets : List ℕ} (hnodup : targets.Nodup)
    (h : ∀ p ∈ targets, ∃ st, backTransformSelect env.schema (heap p) = some st ∧ Q p st) :
    ∃ heap', backTransformHeap env targets heap = some heap' ∧
      (∀ p ∈ targets, Q p (heap' p)) ∧ ∀ p ∉ targets, heap' p = heap p := by
  induction targets generalizing heap with
  | nil => exact ⟨heap, rfl, by simp, fun _ _ => rfl⟩
  | cons p targets ih =>
    rw [List.nodup_cons] at hnodup
    rw [List.forall_mem_cons] at h
    obtain ⟨st, hst, hq⟩ := h.1
    have hrest : ∀ q ∈ targets, ∃ st', backTransformSelect env.schema
        (Function.update heap p st q) = some st' ∧ Q q st' := by
      intro q hq
      rw [Function.update_of_ne (ne_of_mem_of_not_mem hq hnodup.1)]
      exact h.2 q hq
    obtain ⟨heap', hheap, hall, hsame⟩ := ih hnodup.2 hrest
    refine ⟨heap', by simp [backTransformHeap, hst, hheap], ?_, fun q hq => ?_⟩
    · rw [List.forall_mem_cons]
      refine ⟨?_, hall⟩
      rw [hsame p hnodup.1, Function.update_self]
      exact hq
    · rw [List.mem_cons, not_or] at hq
      rw [hsame q hq.2, Function.update_of_ne hq.1]

theorem transformHeap_away (env : CrossEnv σ) {orig heap : ℕ → Statement} {targets : List ℕ}
    (drawn : ℕ) (hnodup : targets.Nodup) (h : ∀ p ∈ targets, Kept (orig p) (heap p)) :
    ∃ heap', transformHeap env targets drawn heap = some heap' ∧
      (∀ p ∈ targets, Away env.schema (orig p) (heap' p)) ∧ ∀ p ∉ targets, heap' p = heap p :=
  transformHeap_exists drawn hnodup fun p hp ρ => (h p hp).transform ρ

theorem backTransformHeap_kept {orig heap : ℕ → Statement} {targets : List ℕ}
    (hnodup : targets.Nodup) (h : ∀ p ∈ targets, Away env.schema (orig p) (heap p)) :
    ∃ heap', backTransformHeap env targets heap = some heap' ∧
      (∀ p ∈ targets, Kept (orig p) (heap' p)) ∧ ∀ p ∉ targets, heap' p = heap p :=
  backTransformHeap_exists hnodup h

/-- The view after a loop of transforms of statements of the path. -/
def View.transforms (v : View σ) (path : List PathStmt) (targets : List ℕ)
    (heap : ℕ → Statement) : View σ :=
  { v.record (.transforms (v.stmts path)) with
    heap := heap, drawn := v.drawn + targets.length }

theorem transformStmts_view {targets : List ℕ} {heap : ℕ → Statement}
    (h : transformHeap env targets v.drawn v.heap = some heap) :
    Proc.Holds (fun t => t.view = v) (transformStmts env path targets)
      (fun _ t => t.view = v.transforms path targets heap) (Failed env v.lastPath) := by
  have hloop : ∀ (targets : List ℕ) (v : View σ),
      transformHeap env targets v.drawn v.heap = some heap →
      Proc.Holds (fun t => t.view = v) (Proc.forEach targets (transformStmt env))
        (fun _ t => t.view = { v with heap := heap, drawn := v.drawn + targets.length })
        (Failed env v.lastPath) := by
    intro targets
    induction targets with
    | nil =>
      intro v hv
      cases hv
      exact Proc.Holds.pure fun t ht => ht
    | cons p targets ih =>
      intro v hv
      obtain ⟨st, hst, hrest⟩ := Option.bind_eq_some_iff.1 hv
      refine Proc.Holds.bind (M := fun _ t => t.view =
        { v with heap := Function.update v.heap p st, drawn := v.drawn + 1 }) ?_ fun _ =>
        (ih { v with heap := Function.update v.heap p st, drawn := v.drawn + 1 } hrest).post
          fun _ t ht => by rw [ht, List.length_cons]; simp only [Nat.add_assoc, Nat.add_comm 1]
      refine Proc.Holds.get.bind fun t => (Proc.Holds.assert (Q := fun st' u => st' = st ∧
        u.view = v) ?_).bind fun st' => Proc.Holds.modify ?_
      · rintro u ⟨rfl, rfl⟩
        exact ⟨st, hst, rfl, rfl⟩
      · rintro u ⟨rfl, rfl⟩
        rfl
  refine Proc.Holds.get.bind fun t => (Proc.Holds.modify
    (Q := fun _ u => u.view = v.record (.transforms (v.stmts path))) ?_).bind fun _ =>
    hloop targets (v.record (.transforms (v.stmts path))) h
  rintro u ⟨rfl, rfl⟩
  rfl

theorem backTransformStmts_view {targets : List ℕ} {heap : ℕ → Statement}
    (h : backTransformHeap env targets v.heap = some heap) :
    Proc.Holds (fun t => t.view = v) (backTransformStmts env targets)
      (fun _ t => t.view = { v with heap := heap }) (Failed env v.lastPath) := by
  rw [backTransformStmts]
  induction targets generalizing v with
  | nil =>
    cases h
    exact Proc.Holds.pure fun t ht => ht
  | cons p targets ih =>
    obtain ⟨st, hst, hrest⟩ := Option.bind_eq_some_iff.1 h
    refine Proc.Holds.bind (M := fun _ t => t.view =
      { v with heap := Function.update v.heap p st }) ?_ fun _ =>
      ih (v := { v with heap := Function.update v.heap p st }) hrest
    refine Proc.Holds.get.bind fun t => (Proc.Holds.assert (Q := fun st' u => st' = st ∧
      u.view = v) ?_).bind fun st' => Proc.Holds.modify ?_
    · rintro u ⟨rfl, rfl⟩
      exact ⟨st, hst, rfl, rfl⟩
    · rintro u ⟨rfl, rfl⟩
      rfl

end DbFuzz.Cross
