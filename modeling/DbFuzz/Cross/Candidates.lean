import DbFuzz.Cross.Runs

/-! The candidates of phase 2 of `minimize`. The two runs of a candidate read the same trees, and
both come after the transforms. -/

namespace DbFuzz.Cross

open DbFuzz.Expr

variable {σ : Type} {env : CrossEnv σ} {db : Database σ} {v : View σ} {i : ℕ} {t u b : CrossState σ}

/-- Distinct untransformed trees. -/
structure AtRest (t : CrossState σ) : Prop where
  nodup : (t.lastPath.map PathStmt.stmt).Nodup
  settled : ∀ p ∈ t.lastPath, (t.heap p.stmt).Settled

theorem contentOk_self (c : Content) : contentOk c c = true := by
  rw [contentOk, compareContent_eq]
  simp

theorem differ_self (r : RunResult) : differ r r = false := by
  rw [differ, contentOk_self]
  simp

/-! One candidate -/

/-- What a candidate leaves: the trees turned back, and two runs with the same texts. -/
def View.candidate (env : CrossEnv σ) (v : View σ) (i : ℕ) (heap back : ℕ → Statement) : View σ :=
  { ((v.transforms v.lastPath (others v.lastPath i) heap).executes env v.lastPath).executes env
      v.lastPath with heap := back }

section

variable {heap back : ℕ → Statement}
  (hheap : transformHeap env (others v.lastPath i) v.drawn v.heap = some heap)
  (hback : backTransformHeap env (others v.lastPath i) heap = some back)

include hheap hback

theorem runCandidate_view (hdb : Deterministic env db) :
    Proc.Holds (fun t => t.view = v) (runCandidate env v.lastPath i)
      (fun runs t => runs.1 = runs.2 ∧ t.view = v.candidate env i heap back)
      (Failed env v.lastPath) := by
  set w := v.transforms v.lastPath (others v.lastPath i) heap
  exact (transformStmts_view hheap).bind fun _ =>
    (dutResetToBackup_view (v := w)).bind fun _ =>
    (executeNormalPath_view hdb).bind fun normal => Proc.Holds.of_and fun hnormal =>
    (dutResetToBackup_view (v := w.executes env v.lastPath)).bind fun _ =>
    (executeNormalPath_view hdb).bind fun transformed => Proc.Holds.of_and fun htransformed =>
    (backTransformStmts_view (v := (w.executes env v.lastPath).executes env v.lastPath)
      hback).bind fun _ =>
    Proc.Holds.pure fun t ht => ⟨hnormal.trans htransformed.symm, ht⟩

/-- The runs do not differ, so the transform stays. -/
theorem revertTransform_view (hdb : Deterministic env db)
    (hi : isCandidate v.lastPath i = true) :
    Proc.Holds (fun t => t.view = v) (revertTransform env i)
      (fun _ t => t.view = v.candidate env i heap back)
      (Failed env v.lastPath) := by
  refine Proc.Holds.get.bind fun t => Proc.Holds.of_start fun u hu => ?_
  obtain ⟨rfl, rfl⟩ := hu
  have hi' : isCandidate t.lastPath i = true := hi
  rw [if_pos hi']
  refine ((runCandidate_view hheap hback hdb).pre (by rintro x rfl; rfl)).bind fun runs =>
    Proc.Holds.of_and fun hruns => ?_
  rw [hruns, differ_self]
  exact Proc.Holds.pure fun x hx => hx

end

theorem revertTransform_skip (hi : isCandidate v.lastPath i = false) :
    Proc.Holds (fun t => t.view = v) (revertTransform env i) (fun _ t => t.view = v)
      (Failed env v.lastPath) := by
  refine Proc.Holds.get.bind fun t => Proc.Holds.of_start fun u hu => ?_
  obtain ⟨rfl, rfl⟩ := hu
  have hi' : isCandidate t.lastPath i = false := hi
  rw [hi']
  exact Proc.Holds.pure (by rintro x rfl; rfl)

theorem AtRest.heaps (env : CrossEnv σ) (h : AtRest t) (i : ℕ) : ∃ heap back : ℕ → Statement,
    transformHeap env (others t.lastPath i) t.drawn t.heap = some heap ∧
      backTransformHeap env (others t.lastPath i) heap = some back ∧
        ∀ p ∈ t.lastPath, Kept (t.heap p.stmt) (back p.stmt) := by
  have hnodup := h.nodup.sublist (others_sublist t.lastPath i)
  have hkept : ∀ p ∈ t.lastPath, Kept (t.heap p.stmt) (t.heap p.stmt) :=
    fun p hp => ⟨h.settled p hp, rfl⟩
  have hothers : ∀ p ∈ others t.lastPath i, Kept (t.heap p) (t.heap p) := by
    intro p hp
    obtain ⟨q, hq, rfl⟩ := List.mem_map.1 ((others_sublist t.lastPath i).subset hp)
    exact hkept q hq
  obtain ⟨heap, hheap, haway, hsame⟩ := transformHeap_away env t.drawn hnodup hothers
  obtain ⟨back, hback, hkept', hsame'⟩ := backTransformHeap_kept hnodup haway
  refine ⟨heap, back, hheap, hback, fun p hp => ?_⟩
  by_cases hmem : p.stmt ∈ others t.lastPath i
  · exact hkept' p.stmt hmem
  · rw [hsame' p.stmt hmem, hsame p.stmt hmem]
    exact hkept p hp

theorem ok_of_holds {α : Type} {p : CrossProc σ α} {P : CrossState σ → Prop}
    {Q : α → CrossState σ → Prop} {R : CrossState σ → Prop} {a : α} (h : Proc.Holds P p Q R)
    (ht : P t) (hrun : p t = (.ok a, u)) : Q a u := by
  rcases h t ht with ⟨a', s, hs, hq⟩ | ⟨e, s, hs, -⟩
  · rw [hrun] at hs
    cases hs
    exact hq
  · rw [hrun] at hs
    cases hs

/-- One candidate, or an index that is none. -/
theorem revertTransform_cases (hdb : Deterministic env db) (h : AtRest t)
    (hrun : revertTransform env i t = (.ok (), u)) :
    AtRest u ∧ u.lastPath = t.lastPath ∧ (isCandidate t.lastPath i = true →
      ∃ heap back : ℕ → Statement,
        transformHeap env (others t.lastPath i) t.drawn t.heap = some heap ∧
          u.view = t.view.candidate env i heap back) := by
  by_cases hi : isCandidate t.lastPath i = true
  · obtain ⟨heap, back, hheap, hback, hkept⟩ := h.heaps env i
    have hview := ok_of_holds (revertTransform_view (v := t.view) hheap hback hdb hi) rfl hrun
    have hlast : u.lastPath = t.lastPath := congrArg View.lastPath hview
    have hback' : u.heap = back := congrArg View.heap hview
    refine ⟨⟨by rw [hlast]; exact h.nodup, fun p hp => ?_⟩, hlast, fun _ =>
      ⟨heap, back, hheap, hview⟩⟩
    rw [hback']
    exact (hkept p (hlast ▸ hp)).1
  · have hview := ok_of_holds
      (revertTransform_skip (v := t.view) (Bool.eq_false_iff.2 hi)) rfl hrun
    have hlast : u.lastPath = t.lastPath := congrArg View.lastPath hview
    have hheap : u.heap = t.heap := congrArg View.heap hview
    refine ⟨⟨by rw [hlast]; exact h.nodup, fun p hp => ?_⟩, hlast, fun hi' => absurd hi' hi⟩
    rw [hheap]
    exact h.settled p (hlast ▸ hp)

/-- The texts of the path with the other selected statements transformed. -/
def transformedTexts (env : CrossEnv σ) (i : ℕ) (t : CrossState σ) : Option (List String) := do
  let heap ← transformHeap env (others t.lastPath i) t.drawn t.heap
  some (t.lastPath.map fun p => (heap p.stmt).text env.schema)

/-- The candidate as it is meant: a baseline run of the untransformed statements, a comparison
run of the statements with all selected ones but the candidate transformed, outputs of the same
statements in both, and the transform reverted if and only if these two runs differ. -/
def CandidateRight (env : CrossEnv σ) (db : Database σ) (i : ℕ) (t u : CrossState σ) : Prop :=
  ∃ queue baseline comparison usages usages', transformedTexts env i t = some comparison ∧
    baseline = textsOf env t t.lastPath ∧
    u.events = t.events ++
      [.transforms queue, .executes baseline usages, .executes comparison usages'] ∧
    usages = usages' ∧
    ((u.lastPath[i]?).map PathStmt.usage = some .initType ↔
      differ (db.run baseline usages t.backup) (db.run comparison usages' t.backup) = true)

/-- The transforms leave the texts of the other selected statements as they are. -/
def OthersPrintSame (env : CrossEnv σ) (i : ℕ) (t : CrossState σ) : Prop :=
  transformedTexts env i t = some (textsOf env t t.lastPath)

/-- A candidate that is the only selected statement. -/
theorem othersPrintSame_of_nil (h : others t.lastPath i = []) : OthersPrintSame env i t := by
  simp [OthersPrintSame, transformedTexts, h, transformHeap, textsOf, stmtsOf]

theorem candidateRight_iff (hdb : Deterministic env db) (h : AtRest t)
    (hi : isCandidate t.lastPath i = true) (hrun : revertTransform env i t = (.ok (), u)) :
    CandidateRight env db i t u ↔ OthersPrintSame env i t := by
  obtain ⟨-, hlast, hcandidate⟩ := revertTransform_cases hdb h hrun
  obtain ⟨heap, back, hheap, hview⟩ := hcandidate hi
  set sent := t.lastPath.map fun p => (heap p.stmt).text env.schema with hsent
  have htexts : transformedTexts env i t = some sent := by simp [transformedTexts, hheap, hsent]
  have hevents : u.events = t.events ++ [.transforms (stmtsOf t t.lastPath),
      .executes sent (t.lastPath.map PathStmt.usage),
      .executes sent (t.lastPath.map PathStmt.usage)] := by
    have hu : u.events = (t.view.candidate env i heap back).events := congrArg View.events hview
    rw [hu, hsent]
    simp [View.candidate, View.executes, View.transforms, View.record, View.texts, View.stmts,
      CrossState.view, stmtsOf, Function.comp_def]
  constructor
  · rintro ⟨queue, baseline, comparison, usages, usages', -, hbaseline, hright, -, -⟩
    rw [hevents] at hright
    have hsame := List.append_cancel_left hright
    simp only [List.cons.injEq, Event.executes.injEq] at hsame
    rw [OthersPrintSame, htexts, hsame.2.1.1, hbaseline]
  · intro hsame
    have hbaseline : sent = textsOf env t t.lastPath := by
      rw [OthersPrintSame, htexts] at hsame
      exact Option.some.inj hsame
    refine ⟨_, sent, sent, _, _, htexts, hbaseline, hevents, rfl, ?_⟩
    rw [differ_self, hlast]
    have husage : (t.lastPath[i]?).map PathStmt.usage ≠ some .initType := by
      intro hinit
      obtain ⟨p, hp, hpinit⟩ := Option.map_eq_some_iff.1 hinit
      simp [isCandidate, hp, hpinit, isSelectLikeUsage] at hi
    simp [husage]

/-! The whole phase -/

/-- The state after the first `i` indices of phase 2. -/
def afterCandidates (env : CrossEnv σ) (t : CrossState σ) (i : ℕ) : CrossState σ :=
  (Proc.forEach (List.range i) (revertTransform env) t).2

theorem revertTransforms_step (hrun : (revertTransforms env t).1 = .ok ())
    (hi : i < t.lastPath.length) :
    Proc.forEach (List.range i) (revertTransform env) t = (.ok (), afterCandidates env t i) ∧
      revertTransform env i (afterCandidates env t i) =
        (.ok (), afterCandidates env t (i + 1)) := by
  have hrange : List.range t.lastPath.length =
      List.range i ++ i :: (List.range (t.lastPath.length - i - 1)).map (· + (i + 1)) := by
    have hlen : t.lastPath.length = i + 1 + (t.lastPath.length - i - 1) := by omega
    conv_lhs => rw [hlen, List.range_add, List.range_succ, List.append_assoc]
    simp [Nat.add_comm]
  have hwhole : Proc.forEach (List.range t.lastPath.length) (revertTransform env) t =
      (.ok (), (revertTransforms env t).2) := Prod.ext hrun rfl
  rw [hrange] at hwhole
  obtain ⟨s, s', hs, hstep, hs'⟩ := Proc.forEach_ok hwhole
  rw [← List.range_succ] at hs'
  rw [afterCandidates, afterCandidates, hs, hs']
  exact ⟨rfl, hstep⟩

theorem afterCandidates_rest (hdb : Deterministic env db) (h : AtRest t)
    (hrun : (revertTransforms env t).1 = .ok ()) (hi : i ≤ t.lastPath.length) :
    AtRest (afterCandidates env t i) ∧ (afterCandidates env t i).lastPath = t.lastPath := by
  induction i with
  | zero => exact ⟨h, rfl⟩
  | succ i ih =>
    obtain ⟨hrest, hlast⟩ := ih (by omega)
    obtain ⟨hrest', hlast', -⟩ :=
      revertTransform_cases hdb hrest (revertTransforms_step hrun (by omega)).2
    exact ⟨hrest', hlast'.trans hlast⟩

/-- The state of a bug that `cross_test` has confirmed. -/
def confirmedBug (env : CrossEnv σ) (bugDir : String) (path : List PathStmt) (tx : RunResult)
    (t : CrossState σ) : CrossState σ := (crossTest env bugDir path tx t).2

/-- The state after phase 1. -/
def afterRemovals (env : CrossEnv σ) (b : CrossState σ) : CrossState σ :=
  (removeStmts env (b.lastPath.length + 1) b).2

/-- Phase 1 leaves the statements of a confirmed bug untransformed. -/
theorem afterRemovals_rest {bugDir : String} {path : List PathStmt} {tx : RunResult}
    (ht : NewTester path t) (hbug : (crossTest env bugDir path tx t).1 = .ok true)
    (hphase : (removeStmts env ((confirmedBug env bugDir path tx t).lastPath.length + 1)
      (confirmedBug env bugDir path tx t)).1 = .ok ()) :
    AtRest (afterRemovals env (confirmedBug env bugDir path tx t)) := by
  have hcalls : CallsLeave env t.heap (path.map PathStmt.stmt) fun _ => True :=
    fun last track away _ _ => Proc.Holds.get.bind fun _ =>
      (Proc.Holds.modify (Q := fun _ u => Stands env t.heap (path.map PathStmt.stmt) last
        track away u) fun u hu => hu.2.of_eq rfl rfl rfl).bind fun _ =>
      Proc.Holds.throwIf (fun u hu _ => hu) fun _ _ _ => trivial
  obtain ⟨last, hlast, hb⟩ := ok_of_holds (crossTest_stands hcalls rfl ht.nodup bugDir tx)
    ht.stands (Prod.ext hbug rfl)
  rw [confirmedBug, hb.last] at hphase
  obtain ⟨last', hlast', hs⟩ := ok_of_holds
    (removeStmts_stands hcalls ht.nodup (last.length + 1) hlast (Nat.lt_succ_self _)) hb
    (Prod.ext hphase rfl)
  rw [afterRemovals, confirmedBug, hb.last]
  refine ⟨by rw [hs.last]; exact ht.nodup.sublist hlast', fun p hp => ?_⟩
  rw [hs.last] at hp
  exact (hs.kept p.stmt (mem_whole hlast' p hp) List.not_mem_nil).1

theorem isCandidate_lt {path : List PathStmt} (hi : isCandidate path i = true) :
    i < path.length := by
  by_contra hge
  rw [isCandidate, List.getElem?_eq_none (by omega)] at hi
  simp at hi

/-- Phase 2 of a minimization whose calls return, on a deterministic server: all candidates are
as they are meant if and only if no transform of another selected statement changes its text. -/
theorem revertTransforms_right_iff (env : CrossEnv σ) (db : Database σ)
    (hdb : Deterministic env db) (bugDir : String) (path : List PathStmt) (tx : RunResult)
    (t : CrossState σ) (ht : NewTester path t)
    (hbug : (crossTest env bugDir path tx t).1 = .ok true)
    (hphase1 : (removeStmts env ((confirmedBug env bugDir path tx t).lastPath.length + 1)
      (confirmedBug env bugDir path tx t)).1 = .ok ())
    (hphase2 : (revertTransforms env
      (afterRemovals env (confirmedBug env bugDir path tx t))).1 = .ok ()) :
    let s := afterRemovals env (confirmedBug env bugDir path tx t)
    (∀ i, isCandidate s.lastPath i = true →
      CandidateRight env db i (afterCandidates env s i) (afterCandidates env s (i + 1))) ↔
    ∀ i, isCandidate s.lastPath i = true → OthersPrintSame env i (afterCandidates env s i) := by
  intro s
  have hrest : AtRest s := afterRemovals_rest ht hbug hphase1
  refine forall_congr' fun i => forall_congr' fun hi => ?_
  have hlt : i < s.lastPath.length := isCandidate_lt hi
  obtain ⟨hrest', hlast'⟩ := afterCandidates_rest hdb hrest hphase2 hlt.le
  exact candidateRight_iff hdb hrest' (by rw [hlast']; exact hi)
    (revertTransforms_step hphase2 hlt).2

/-! The server that answers every transformed select wrongly, with one and with two selects. -/

def wrongDatabase : Database Unit where
  answer _ text :=
    (.ok (if text = (Statement.querySpec selectTwo).text schemaMysql then [["2"]] else [["3"]]), ())
  content _ := Content.empty

def steadyServer : CrossEnv Unit := wrongServer fun _ => none

theorem steadyServer_deterministic : Deterministic steadyServer wrongDatabase :=
  ⟨fun _ _ => rfl, fun _ => rfl⟩

/-- The state in front of phase 2. -/
def steadyBug (path : List PathStmt) : CrossState Unit :=
  afterRemovals steadyServer (confirmedBug steadyServer "bug" path (0, Content.empty) newTester)

theorem revertTransforms_right_iff_insertAndSelect :
    (∀ i, isCandidate (steadyBug insertAndSelect).lastPath i = true →
      CandidateRight steadyServer wrongDatabase i
        (afterCandidates steadyServer (steadyBug insertAndSelect) i)
        (afterCandidates steadyServer (steadyBug insertAndSelect) (i + 1))) ↔
    ∀ i, isCandidate (steadyBug insertAndSelect).lastPath i = true →
      OthersPrintSame steadyServer i
        (afterCandidates steadyServer (steadyBug insertAndSelect) i) :=
  revertTransforms_right_iff steadyServer wrongDatabase steadyServer_deterministic "bug"
    insertAndSelect (0, Content.empty) newTester newTester_insertAndSelect (by decide +kernel)
    (by decide +kernel) (by decide +kernel)

def twoSelects : List PathStmt := [⟨1, .selectRead⟩, ⟨2, .selectRead⟩]

theorem newTester_twoSelects : NewTester twoSelects newTester := by
  refine ⟨rfl, rfl, by decide, fun p hp => ?_⟩
  simp only [twoSelects, List.mem_cons, List.not_mem_nil, or_false] at hp
  rcases hp with rfl | rfl <;> exact selectTwo_settled

def Event.sentTexts : Event → List String
  | .executes texts _ => texts
  | _ => []

/-- With two selects the baseline run of the first candidate already sends the second one
transformed. -/
theorem revertTransforms_wrong :
    let s := steadyBug twoSelects
    NewTester twoSelects newTester ∧
      (crossTest steadyServer "bug" twoSelects (0, Content.empty) newTester).1 = .ok true ∧
      (revertTransforms steadyServer s).1 = .ok () ∧ isCandidate s.lastPath 0 = true ∧
      ¬ CandidateRight steadyServer wrongDatabase 0 (afterCandidates steadyServer s 0)
        (afterCandidates steadyServer s 1) := by
  intro s
  refine ⟨newTester_twoSelects, by decide +kernel, by decide +kernel, by decide +kernel, ?_⟩
  rintro ⟨queue, baseline, comparison, usages, usages', -, hbaseline, hevents, -, -⟩
  have hsent : ((afterCandidates steadyServer s 1).events.map Event.sentTexts)[
      (afterCandidates steadyServer s 0).events.length + 1]? ≠
        some (textsOf steadyServer (afterCandidates steadyServer s 0)
          (afterCandidates steadyServer s 0).lastPath) := by decide +kernel
  rw [hevents, ← hbaseline] at hsent
  simp [Event.sentTexts] at hsent

end DbFuzz.Cross
