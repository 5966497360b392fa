import DbFuzz.Cross.Removals

/-! The verdict of `cross_test` on a deterministic server. The re-validation repeats the normal
run and the transformed run, and compares nothing with the transaction run. -/

namespace DbFuzz.Cross

open DbFuzz.Expr

variable {σ : Type} {env : CrossEnv σ} {db : Database σ} {path : List PathStmt}
  {t : CrossState σ}

/-- `eet_transform_failure` -/
def transformFailure (normal transformed : RunResult) : Bool :=
  decide (transformed.1 = 0) && decide (normal.1 ≠ 0)

/-- A bug is returned if and only if one of the four comparisons shows a difference. -/
structure VerdictRight (tx normal transformed : RunResult) (bug : Bool) : Prop where
  compared : bug = true ↔ noBug tx normal transformed = false
  reported : differ tx normal = true → bug = true
  filtered : transformFailure normal transformed = true → differ tx normal = false → bug = false

theorem noBug_of_differ {tx normal transformed : RunResult} (h : differ tx normal = true) :
    noBug tx normal transformed = false := by
  rw [differ, Bool.or_eq_true, decide_eq_true_iff, Bool.not_eq_true'] at h
  rcases h with h | h <;> simp [noBug, h]

theorem noBug_of_failure {tx normal transformed : RunResult}
    (hfailure : transformFailure normal transformed = true) (h : differ tx normal = false) :
    noBug tx normal transformed = true := by
  rw [transformFailure] at hfailure
  rw [differ, Bool.or_eq_false_iff, decide_eq_false_iff_not, not_not, Bool.not_eq_false'] at h
  simp only [noBug, hfailure, h.1, h.2, Bool.true_or, decide_true, Bool.and_true]

theorem noBug_of_agree {tx normal transformed : RunResult} (h : differ tx normal = false)
    (hagree : differ normal transformed = false) : noBug tx normal transformed = true := by
  simp only [differ, Bool.or_eq_false_iff, decide_eq_false_iff_not, not_not,
    Bool.not_eq_false'] at h hagree
  simp [noBug, h, hagree]

/-- The first and the last comparison decide the verdict that the re-validation gives. -/
theorem verdictRight_iff (tx normal transformed : RunResult) :
    VerdictRight tx normal transformed
        (!noBug tx normal transformed && differ normal transformed) ↔
      (differ tx normal = true → differ normal transformed = true) := by
  refine ⟨fun h hdiffer => ?_, fun h => ⟨?_, fun hdiffer => ?_, fun hfailure hagree => ?_⟩⟩
  · have hbug := h.reported hdiffer
    rw [Bool.and_eq_true] at hbug
    exact hbug.2
  · rw [Bool.and_eq_true, Bool.not_eq_true', and_iff_left_iff_imp]
    intro hbug
    by_contra hagree
    rw [Bool.not_eq_true] at hagree
    by_cases hdiffer : differ tx normal = true
    · rw [h hdiffer] at hagree
      cases hagree
    · rw [noBug_of_agree (by simpa using hdiffer) hagree] at hbug
      cases hbug
  · rw [noBug_of_differ hdiffer, h hdiffer]
    rfl
  · rw [noBug_of_failure hfailure hagree]
    rfl

/-! The two runs of the path, the second one with the statements as they are transformed first. -/

def normalRun (env : CrossEnv σ) (db : Database σ) (t : CrossState σ) (path : List PathStmt) :
    RunResult :=
  runOf env db t.heap t.backup path

def transformedRun (env : CrossEnv σ) (db : Database σ) (t : CrossState σ)
    (path : List PathStmt) : RunResult :=
  runOf env db ((transformHeap env (selects path) t.drawn t.heap).getD t.heap) t.backup path

/-- The trees of the first transforms are those of every later one, and the way back prints the
path that was given. -/
theorem NewTester.heaps (env : CrossEnv σ) (ht : NewTester path t) :
    ∃ heap back, transformHeap env (selects path) t.drawn t.heap = some heap ∧
      backTransformHeap env (selects path) heap = some back ∧
      (∀ drawn, transformHeap env (selects path) drawn back = some heap) ∧
      PathFixed env back path ∧
      ∀ p ∈ path, (back p.stmt).text env.schema = (t.heap p.stmt).text env.schema := by
  have hnodup : (selects path).Nodup := ht.nodup.sublist (selects_sublist path)
  have hfirst : ∀ p ∈ selects path, ∀ ρ, ∃ y, transformSelect env.schema ρ (t.heap p) = some y ∧
      ∃ z, backTransformSelect env.schema y = some z ∧ backTransformSelect env.schema y = some z ∧
        (∀ ρ', transformSelect env.schema ρ' z = some y) ∧ Kept (t.heap p) z := by
    intro p hp ρ
    obtain ⟨q, hq, rfl⟩ := selects_mem hp
    obtain ⟨y, hy, z, hz, hagain⟩ := (t.heap q.stmt).again (s := env.schema) ρ (ht.settled q hq)
    have hkept : Kept (t.heap q.stmt) (t.heap q.stmt) := ⟨ht.settled q hq, rfl⟩
    obtain ⟨y', hy', z', hz', hkept'⟩ := hkept.transform (s := env.schema) ρ
    obtain rfl : y = y' := Option.some.inj (hy.symm.trans hy')
    obtain rfl : z = z' := Option.some.inj (hz.symm.trans hz')
    exact ⟨y, hy, z, hz, hz, hagain, hkept'⟩
  obtain ⟨heap, hheap, hmem, hnot⟩ := transformHeap_exists t.drawn hnodup hfirst
  obtain ⟨back, hback, hmem', hnot'⟩ := backTransformHeap_exists hnodup hmem
  refine ⟨heap, back, hheap, hback, fun drawn => ?_, ⟨ht.nodup, fun p hp =>
    ⟨heap p, (hmem' p hp).2.1, (hmem' p hp).1⟩⟩, fun p hp => ?_⟩
  · obtain ⟨heap', hheap', hmem'', hnot''⟩ := transformHeap_exists
      (Q := fun p st => st = heap p) drawn hnodup fun p hp ρ => ⟨heap p, (hmem' p hp).2.1 ρ, rfl⟩
    rw [hheap']
    congr 1
    funext p
    by_cases hp : p ∈ selects path
    · exact hmem'' p hp
    · rw [hnot'' p hp, hnot' p hp]
  · by_cases hselect : p.stmt ∈ selects path
    · exact (hmem' p.stmt hselect).2.2.text (ht.settled p hp)
    · rw [hnot' p.stmt hselect, hnot p.stmt hselect]

theorem runOf_congr {heap heap' : ℕ → Statement} {backup : σ}
    (h : ∀ p ∈ path, (heap p.stmt).text env.schema = (heap' p.stmt).text env.schema) :
    runOf env db heap backup path = runOf env db heap' backup path := by
  rw [runOf, runOf, List.map_congr_left h]

/-- What a run of `cross_test` returns. -/
theorem crossTest_verdict (hdb : Deterministic env db) (ht : NewTester path t) (bugDir : String)
    (tx : RunResult) :
    Proc.Holds (fun u => u = t) (crossTest env bugDir path tx)
      (fun bug _ => bug = (!noBug tx (normalRun env db t path) (transformedRun env db t path) &&
        differ (normalRun env db t path) (transformedRun env db t path))) (fun _ => True) := by
  obtain ⟨heap, back, hheap, hback, hagain, hfixed, htexts⟩ := ht.heaps env
  set normal := normalRun env db t path
  set transformed := transformedRun env db t path
  have htransformed : runOf env db heap t.backup path = transformed := by
    simp only [transformed, transformedRun, hheap, Option.getD_some]
  have hnormal : runOf env db back t.backup path = normal := runOf_congr htexts
  refine Proc.Holds.bind (M := fun runs u => runs = (normal, transformed) ∧
    u.heap = back ∧ u.backup = t.backup) ?_ fun runs => Proc.Holds.of_and fun hruns => ?_
  · refine (runBothPaths_view (v := t.view) hdb hheap hback).conseq ?_ ?_ fun _ _ => trivial
    · rintro u rfl
      rfl
    · rintro runs u ⟨rfl, hu, hbackup, -⟩
      rw [← htransformed]
      exact ⟨rfl, hu, hbackup⟩
  subst hruns
  by_cases hbug : noBug tx normal transformed = true
  · rw [if_pos hbug, hbug]
    exact Proc.Holds.pure fun _ _ => rfl
  rw [if_neg hbug, Bool.eq_false_iff.2 hbug]
  refine Proc.Holds.bind (M := fun bugConfirmed u => bugConfirmed = differ normal transformed ∧
    u.heap = back) ?_ fun bugConfirmed => Proc.Holds.of_and fun hconfirmed => ?_
  · -- the re-validation runs the trees of the first two runs again
    refine Proc.Holds.of_start fun u hu => ?_
    have hheap' : transformHeap env (selects path) u.view.drawn u.view.heap = some heap := by
      change transformHeap env (selects path) u.drawn u.heap = some heap
      rw [hu.1]
      exact hagain u.drawn
    refine ((runBothPaths_view (v := u.view) hdb hheap' hback).conseq ?_ ?_
      fun _ _ => trivial).bind fun runs => Proc.Holds.pure fun _ h => h
    · rintro x rfl
      rfl
    · rintro runs x ⟨rfl, hx, -⟩
      refine ⟨?_, hx⟩
      change differ (runOf env db u.heap u.backup path) (runOf env db heap u.backup path) = _
      rw [hu.1, hu.2, hnormal, htransformed]
  by_cases hpersists : bugConfirmed = true
  · rw [← hconfirmed, hpersists, if_neg (by decide)]
    refine Proc.Holds.bind (M := fun _ u => u.heap = back) (Proc.Holds.modify fun _ h => h)
      fun _ => Proc.Holds.bind (M := fun _ _ => True) ?_ fun _ => Proc.Holds.pure fun _ _ => rfl
    split_ifs
    · refine Proc.Holds.of_start fun u hu => (saveBugReport_between (b := u)
        (hu ▸ hfixed)).conseq (P := Between u u.lastPath) ?_ (fun _ _ _ => trivial)
        fun _ _ => trivial
      rintro x rfl
      exact ⟨rfl, rfl, rfl⟩
    · exact Proc.Holds.pure fun _ _ => trivial
  · rw [Bool.not_eq_true] at hpersists
    rw [← hconfirmed, hpersists, if_pos (by decide)]
    exact Proc.Holds.pure fun _ _ => rfl

/-- An exception-free run of `cross_test` on a deterministic server gives the verdict that the
comparisons call for if and only if a difference between the transaction run and the normal run
comes with one between the normal run and the transformed run. -/
theorem crossTest_verdict_iff (env : CrossEnv σ) (db : Database σ) (hdb : Deterministic env db)
    (bugDir : String) (path : List PathStmt) (tx : RunResult) (t : CrossState σ)
    (ht : NewTester path t) (bug : Bool) (hrun : (crossTest env bugDir path tx t).1 = .ok bug) :
    VerdictRight tx (normalRun env db t path) (transformedRun env db t path) bug ↔
      (differ tx (normalRun env db t path) = true →
        differ (normalRun env db t path) (transformedRun env db t path) = true) := by
  have hbug := ok_of_holds (crossTest_verdict hdb ht bugDir tx) rfl (Prod.ext hrun rfl)
  rw [hbug]
  exact verdictRight_iff tx _ _

theorem crossTest_verdict_iff_insertAndSelect :
    VerdictRight (0, Content.empty) (normalRun steadyServer wrongDatabase newTester insertAndSelect)
        (transformedRun steadyServer wrongDatabase newTester insertAndSelect) true ↔
      (differ (0, Content.empty)
          (normalRun steadyServer wrongDatabase newTester insertAndSelect) = true →
        differ (normalRun steadyServer wrongDatabase newTester insertAndSelect)
          (transformedRun steadyServer wrongDatabase newTester insertAndSelect) = true) :=
  crossTest_verdict_iff steadyServer wrongDatabase steadyServer_deterministic "bug" insertAndSelect
    (0, Content.empty) newTester newTester_insertAndSelect true (by decide +kernel)

/-! A server on which a statement and its transformed form agree. -/

def rightDatabase : Database Unit where
  answer _ _ := (.ok [["2"]], ())
  content _ := Content.empty

def rightServer : CrossEnv Unit :=
  { steadyServer with test := fun t text => rightDatabase.answer t.live text }

/-- The transaction has read another row than the normal run, and no bug is returned. -/
theorem crossTest_drops_difference :
    let tx : RunResult := ({["3"]}, Content.empty)
    Deterministic rightServer rightDatabase ∧ NewTester insertAndSelect newTester ∧
      (crossTest rightServer "bug" insertAndSelect tx newTester).1 = .ok false ∧
      ¬ VerdictRight tx (normalRun rightServer rightDatabase newTester insertAndSelect)
        (transformedRun rightServer rightDatabase newTester insertAndSelect) false :=
  ⟨⟨fun _ _ => rfl, fun _ => rfl⟩, newTester_insertAndSelect, by decide +kernel, fun h =>
    Bool.false_ne_true (h.reported (by decide +kernel))⟩

end DbFuzz.Cross
