import DbFuzz.Cross.StatementMeaning
import DbFuzz.Cross.Verdict

/-! The verdict of `cross_test` on a server that computes what the selects of a path mean. -/

namespace DbFuzz.Cross

open DbFuzz.Expr

variable {σ D : Type}

/-- The server computes what a select means and changes nothing: `meaning` is the database of a
state. A recursion that is too deep is an error. -/
structure Computes (s : Schema) (db : Database σ) (meaning : σ → Interp D)
    (render : SqlRow D → RowOutput) (depth : ℕ) (noColumn : Env D) (st : Statement) : Prop where
  live : ∀ live, (db.answer live (st.text s)).2 = live
  rows : ∀ live, collected .selectRead (db.answer live (st.text s)).1 =
    ((((st.rows (meaning live) depth noColumn).getD []).map render : List RowOutput) :
      Multiset RowOutput)

theorem collected_select {usage : StmtBasicType} (h : isSelectLikeUsage usage = true)
    (answer : Except String StmtOutput) :
    collected usage answer = collected .selectRead answer := by
  cases answer with
  | error err => rfl
  | ok output =>
    rw [collected, h]
    rfl

variable {env : CrossEnv σ} {db : Database σ} {path : List PathStmt}

/-- Two trees of a path with the same answers give the same run. -/
theorem runOf_agrees {heap heap' : ℕ → Statement} (backup : σ)
    (h : ∀ p ∈ path, ∀ live,
      collected p.usage (db.answer live ((heap p.stmt).text env.schema)).1 =
        collected p.usage (db.answer live ((heap' p.stmt).text env.schema)).1 ∧
      (db.answer live ((heap p.stmt).text env.schema)).2 =
        (db.answer live ((heap' p.stmt).text env.schema)).2) :
    runOf env db heap backup path = runOf env db heap' backup path := by
  have hrows : db.rows ((path.map fun p => (heap p.stmt).text env.schema).zip
      (path.map PathStmt.usage)) backup = db.rows ((path.map fun p =>
        (heap' p.stmt).text env.schema).zip (path.map PathStmt.usage)) backup := by
    induction path generalizing backup with
    | nil => rfl
    | cons p path ih =>
      rw [List.forall_mem_cons] at h
      obtain ⟨hcollected, hlive⟩ := h.1 backup
      have hrest := ih ((db.answer backup ((heap' p.stmt).text env.schema)).2) h.2
      simp only [List.map_cons, List.zip_cons_cons, Database.rows, hcollected, hlive, hrest]
  rw [runOf, runOf, Database.run, Database.run, hrows]

section Verdict

variable {meaning : σ → Interp D} {render : SqlRow D → RowOutput} {depth : ℕ} {noColumn : Env D}
variable {t : CrossState σ}

/-- The server computes the selects of a path and what is drawn for them. -/
def ComputesPath (env : CrossEnv σ) (db : Database σ) (meaning : σ → Interp D)
    (render : SqlRow D → RowOutput) (depth : ℕ) (noColumn : Env D) (path : List PathStmt)
    (t : CrossState σ) : Prop :=
  ∀ p ∈ selects path, Computes env.schema db meaning render depth noColumn (t.heap p) ∧
    ∀ ρ st, transformSelect env.schema ρ (t.heap p) = some st →
      Computes env.schema db meaning render depth noColumn st

/-- The transforms change no run. -/
theorem transformedRun_eq (ht : NewTester path t)
    (hcomputes : ComputesPath env db meaning render depth noColumn path t)
    (hmoves : ∀ p ∈ selects path, ∀ live, (t.heap p).Moves (meaning live) env.schema noColumn) :
    transformedRun env db t path = normalRun env db t path := by
  have hsettled : ∀ p ∈ selects path, (t.heap p).Settled := by
    intro p hp
    obtain ⟨q, hq, rfl⟩ := selects_mem hp
    exact ht.settled q hq
  obtain ⟨heap, hheap, hdrawn, hsame⟩ : ∃ heap,
      transformHeap env (selects path) t.drawn t.heap = some heap ∧
      (∀ p ∈ selects path, ∃ ρ, transformSelect env.schema ρ (t.heap p) = some (heap p)) ∧
      ∀ p ∉ selects path, heap p = t.heap p := by
    apply transformHeap_exists (Q := fun p st => ∃ ρ,
      transformSelect env.schema ρ (t.heap p) = some st) t.drawn
    · exact ht.nodup.sublist (selects_sublist path)
    · intro p hp ρ
      obtain ⟨st, hst, -⟩ := (t.heap p).comesBack (s := env.schema) ρ (hsettled p hp)
      exact ⟨st, hst, ρ, hst⟩
  rw [transformedRun, hheap, Option.getD_some, normalRun]
  apply runOf_agrees
  intro p hp live
  by_cases hselect : p.stmt ∈ selects path
  · -- a select and its transform have the same rows
    obtain ⟨ρ, hst⟩ := hdrawn p.stmt hselect
    obtain ⟨horiginal, htransforms⟩ := hcomputes p.stmt hselect
    have htransform := htransforms ρ _ hst
    have hrows := rows_transformSelect (hsettled _ hselect) (hmoves _ hselect live) hst depth
    refine ⟨?_, by rw [htransform.live, horiginal.live]⟩
    by_cases husage : isSelectLikeUsage p.usage = true
    · rw [collected_select husage, collected_select husage, htransform.rows, horiginal.rows, hrows]
    · have hnone : ∀ answer, collected p.usage answer = 0 := fun answer => by
        cases answer <;> simp [collected, husage]
      rw [hnone, hnone]
  · rw [hsame p.stmt hselect]
    exact ⟨rfl, rfl⟩

/-- On a server that computes what selects mean, `cross_test` reports no bug, whatever the path is,
whatever is drawn and whatever the transaction run has returned. -/
theorem crossTest_no_alarm (hdb : Deterministic env db) (ht : NewTester path t)
    (hcomputes : ComputesPath env db meaning render depth noColumn path t)
    (hmoves : ∀ p ∈ selects path, ∀ live, (t.heap p).Moves (meaning live) env.schema noColumn)
    (bugDir : String) (tx : RunResult) {bug : Bool}
    (hrun : (crossTest env bugDir path tx t).1 = .ok bug) : bug = false := by
  have hbug := ok_of_holds (crossTest_verdict hdb ht bugDir tx) rfl (Prod.ext hrun rfl)
  rw [transformedRun_eq ht hcomputes hmoves, differ_self, Bool.and_false] at hbug
  exact hbug

end Verdict

theorem selects_insertAndSelect : ∀ p ∈ selects insertAndSelect,
    newTester.heap p = .querySpec selectTwo := by
  rw [show selects insertAndSelect = [1] by decide]
  intro p hp
  rw [List.mem_singleton.1 hp]
  rfl

/-- The server answers every statement with the row of the select. -/
theorem rightDatabase_computes {st : Statement} (h : Statement.rows integers 0 noRow st =
      Statement.rows integers 0 noRow (.querySpec selectTwo)) :
    Computes schemaMysql rightDatabase (fun _ => integers) renderInteger 0 noRow st where
  live _ := rfl
  rows := by
    intro _
    have hselect : Statement.rows integers 0 noRow (.querySpec selectTwo) = some [[some 2]] := by
      decide +kernel
    rw [h, hselect]
    rfl

/-- The transaction has read another row than the normal run. -/
theorem crossTest_no_alarm_insertAndSelect : ∃ bug,
    (crossTest rightServer "bug" insertAndSelect ({["3"]}, Content.empty) newTester).1 = .ok bug ∧
      bug = false := by
  have hmoves : Statement.Moves integers schemaMysql noRow (.querySpec selectTwo) :=
    selectTwo_movable integers
  have hsettled : Statement.Settled (.querySpec selectTwo) := selectTwo_settled
  have hdb : Deterministic rightServer rightDatabase := ⟨fun _ _ => rfl, fun _ => rfl⟩
  have hpath : ComputesPath rightServer rightDatabase (fun _ => integers) renderInteger 0 noRow
      insertAndSelect newTester := by
    intro p hp
    rw [selects_insertAndSelect p hp]
    refine ⟨rightDatabase_computes rfl, fun ρ st hst => ?_⟩
    exact rightDatabase_computes (rows_transformSelect hsettled hmoves hst 0)
  have hrun : (crossTest rightServer "bug" insertAndSelect ({["3"]}, Content.empty) newTester).1 =
      .ok false := by decide +kernel
  exact ⟨false, hrun, crossTest_no_alarm hdb newTester_insertAndSelect hpath
    (fun p hp _ => selects_insertAndSelect p hp ▸ hmoves) "bug" _ hrun⟩

end DbFuzz.Cross
