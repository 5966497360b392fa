import DbFuzz.TxCheck.RoundCheck

/-! The rounds of `multi_stmt_round_test` end: each takes a group of the first analysis
that was not taken before. -/

namespace DbFuzz

open Loop AnalyzedQueue

variable {Val : Type} {env : RoundEnv Val} {init : InitStatus Val} {fuel : ℕ}
  {s0 s s' : RoundState Val} {t : RoundTest Val} {paths : List (List StmtId)} {exit : RefineExit}
  {r : RefineState Val}

/-- The ids of an instrument group of the first analysis. -/
def initGroup (s0 : RoundState Val) (i : ℕ) : List StmtId :=
  s0.initDa.da.queue.groupIds (s0.initDa.da.queue.stmtSet s0.initDa.graph i)

/-- The round compares a path, and the analysis of this path has no group with a deleted
statement and another one. -/
def DeletesPath (env : RoundEnv Val) (fuel : ℕ) (s : RoundState Val) : Prop :=
  ∀ exit r, refineRounds env fuel s = .ok (some (exit, r)) →
    r.longestStmtPath ≠ [] ∧
      r.current.da.queue.ClosedUnder r.current.graph s.deletedNodes

/-- The deleted nodes after some rounds. -/
structure Deleted (s0 s : RoundState Val) (paths : List (List StmtId)) : Prop where
  da : s.initDa.da = s0.initDa.da
  keeps : KeepsInstrument s0.initDa.graph s.initDa.graph
  ids : ∀ x ∈ s.deletedNodes, ∃ i < s0.initDa.da.queue.stmtNum, s0.initDa.da.queue.sid i = x
  closed : s0.initDa.da.queue.ClosedUnder s0.initDa.graph s.deletedNodes
  compared : ∀ path ∈ paths, ∀ x ∈ path, x ∈ s.deletedNodes
  disjoint : paths.Pairwise List.Disjoint
  length : paths.length ≤ s.deletedNodes.card

/-- The path of a round has none of the deleted nodes. -/
theorem DeletesPath.path_apart (hs : DeletesPath env fuel s)
    (hderived : s.initDa.da.Derived s.initDa.graph)
    (hrefine : refineRounds env fuel s = .ok (some (exit, r))) :
    ∀ x ∈ r.longestStmtPath, x ∉ s.deletedNodes := by
  obtain ⟨-, hclosed⟩ := hs exit r hrefine
  obtain ⟨g, sort, -, hlabels, hsort, hpath⟩ := refineRounds_sorted hderived hrefine
  rw [hlabels.keepsInstrument.closedUnder_iff] at hclosed
  intro x hx
  rw [hpath] at hx
  exact (topologicalSortPath_apart hclosed hsort x hx).1

/-- What a round that reaches the deletion adds. -/
theorem multiStmtRound_adds (hd : Deleted s0 s paths) (hs : DeletesPath env fuel s)
    (hderived : s.initDa.da.Derived s.initDa.graph)
    (hrefine : refineRounds env fuel s = .ok (some (exit, r)))
    (hround : multiStmtRound env init fuel s = .ok (.next s')) :
    (∃ i < s0.initDa.da.queue.stmtNum, s0.initDa.da.queue.sid i ∈ r.longestStmtPath ∧
      ∀ x ∈ initGroup s0 i, x ∉ s.deletedNodes ∧ x ∈ s'.deletedNodes) ∧
    (∀ x ∈ r.longestStmtPath, x ∈ s'.deletedNodes) ∧
    ∀ x, x ∈ s'.deletedNodes ↔ x ∈ s.deletedNodes ∨
      ∃ i < s0.initDa.da.queue.stmtNum, s0.initDa.da.queue.sid i ∈ r.longestStmtPath ∧
        x ∈ initGroup s0 i := by
  obtain ⟨-, hdelete⟩ := multiStmtRound_next hrefine hround
  obtain ⟨-, hids, hmem⟩ := forEach_deletePathStmt hdelete
  have hkeeps := hd.keeps.trans (refineRounds_initDa hrefine).2.keepsInstrument
  rw [hd.da] at hids hmem
  have hmem' : ∀ x, x ∈ s'.deletedNodes ↔ x ∈ s.deletedNodes ∨
      ∃ i < s0.initDa.da.queue.stmtNum, s0.initDa.da.queue.sid i ∈ r.longestStmtPath ∧
        x ∈ initGroup s0 i := by
    intro x
    rw [hmem]
    refine or_congr Iff.rfl (exists_congr fun i => and_congr_right fun hi => ?_)
    rw [initGroup, ← hkeeps.stmtSet_eq hi]
  have hself : ∀ i < s0.initDa.da.queue.stmtNum, s0.initDa.da.queue.sid i ∈ initGroup s0 i :=
    fun i hi => mem_groupIds.2 ⟨i, hi, self_mem_stmtSet hi, rfl⟩
  refine ⟨?_, fun x hx => ?_, hmem'⟩
  · obtain ⟨x, path, hpath⟩ := List.exists_cons_of_ne_nil (hs exit r hrefine).1
    obtain ⟨i, hi, hix⟩ := hids x (by rw [hpath]; exact List.mem_cons_self)
    have hmemi : s0.initDa.da.queue.sid i ∈ r.longestStmtPath := by
      rw [hix, hpath]
      exact List.mem_cons_self
    refine ⟨i, hi, hmemi, fun y hy => ⟨fun hdel => ?_, (hmem' y).2 (Or.inr ⟨i, hi, hmemi, hy⟩)⟩⟩
    -- the deleted nodes are closed, so the statement of the path would be deleted too
    obtain ⟨j, hj, hjg, rfl⟩ := mem_groupIds.1 hy
    exact hs.path_apart hderived hrefine _ hmemi
      (hd.closed j hj hdel i ((mem_stmtSet_comm hi hj).1 hjg))
  · obtain ⟨i, hi, rfl⟩ := hids x hx
    exact (hmem' _).2 (Or.inr ⟨i, hi, hx, hself i hi⟩)

theorem Deleted.next (hd : Deleted s0 s paths) (hs : DeletesPath env fuel s)
    (hderived : s.initDa.da.Derived s.initDa.graph)
    (hrefine : refineRounds env fuel s = .ok (some (exit, r)))
    (hround : multiStmtRound env init fuel s = .ok (.next s')) :
    Deleted s0 s' (paths ++ [r.longestStmtPath]) := by
  obtain ⟨⟨i, hi, hpath, hnew⟩, hcompared, hmem⟩ :=
    multiStmtRound_adds hd hs hderived hrefine hround
  obtain ⟨hda, hdelete⟩ := multiStmtRound_next hrefine hround
  obtain ⟨hkeeps, -⟩ := forEach_deletePathStmt hdelete
  have hlabels := (refineRounds_initDa hrefine).2.keepsInstrument
  have hsub : s.deletedNodes ⊆ s'.deletedNodes := fun x hx => (hmem x).2 (Or.inl hx)
  refine ⟨hda.trans hd.da, (hd.keeps.trans hlabels).trans hkeeps, ?_, ?_, ?_, ?_, ?_⟩
  · intro x hx
    rcases (hmem x).1 hx with hx | ⟨j, -, -, hx⟩
    · exact hd.ids x hx
    · obtain ⟨k, hk, -, rfl⟩ := mem_groupIds.1 hx
      exact ⟨k, hk, rfl⟩
  · intro j hj hdel k hk
    rcases (hmem _).1 hdel with hold | ⟨l, hl, hlp, hjl⟩
    · exact hsub (hd.closed j hj hold k hk)
    · obtain ⟨j', hj', hjl, heq⟩ := mem_groupIds.1 hjl
      obtain rfl := sid_inj hj hj' heq
      rw [stmtSet_eq hl hjl] at hk
      exact (hmem _).2 (Or.inr ⟨l, hl, hlp,
        mem_groupIds.2 ⟨k, lt_of_mem_stmtSet hl hk, hk, rfl⟩⟩)
  · intro path hp x hx
    rcases List.mem_append.1 hp with hp | hp
    · exact hsub (hd.compared path hp x hx)
    · rw [List.mem_singleton] at hp
      exact hcompared x (hp ▸ hx)
  · refine List.pairwise_append.2 ⟨hd.disjoint, List.pairwise_singleton _ _, ?_⟩
    intro path hp path' hp' x hx hx'
    rw [List.mem_singleton] at hp'
    exact hs.path_apart hderived hrefine x (hp' ▸ hx') (hd.compared path hp x hx)
  · have hin : s0.initDa.da.queue.sid i ∈ initGroup s0 i :=
      mem_groupIds.2 ⟨i, hi, self_mem_stmtSet hi, rfl⟩
    have hlt : s.deletedNodes.card < s'.deletedNodes.card :=
      Finset.card_lt_card ⟨hsub, fun hback => (hnew _ hin).1 (hback (hnew _ hin).2)⟩
    have := hd.length
    rw [List.length_append, List.length_singleton]
    omega

theorem Deleted.start (h : s0.deletedNodes = ∅) : Deleted s0 s0 [] where
  da := rfl
  keeps := KeepsInstrument.refl _
  ids x hx := by simp [h] at hx
  closed i _ hx := by simp [h] at hx
  compared path hp := by cases hp
  disjoint := List.Pairwise.nil
  length := Nat.zero_le _

/-- A run of rounds that compare a path takes at most as many rounds as the first analysis
has statements. -/
theorem Deleted.length_le (hd : Deleted s0 s paths) :
    paths.length ≤ s0.initDa.da.queue.stmtNum := by
  have hsub : s.deletedNodes ⊆
      (Finset.range s0.initDa.da.queue.stmtNum).image s0.initDa.da.queue.sid := by
    intro x hx
    obtain ⟨i, hi, rfl⟩ := hd.ids x hx
    exact Finset.mem_image_of_mem _ (Finset.mem_range.2 hi)
  have hcard := Finset.card_le_card hsub
  have himage := Finset.card_image_le (s := Finset.range s0.initDa.da.queue.stmtNum)
    (f := s0.initDa.da.queue.sid)
  rw [Finset.card_range] at himage
  have := hd.length
  omega

theorem Rounds.derived (hfirst : firstAnalysis env fuel t = .ok (some (init, s0)))
    {P : RoundState Val → Prop} (hrun : Rounds env init fuel P s0 s paths) :
    s.initDa.da.Derived s.initDa.graph := by
  obtain ⟨hgraph, -, -⟩ := firstAnalysis_spec hfirst
  obtain ⟨hda, hkeeps⟩ := hrun.initDa
  rw [hda]
  exact (DependencyAnalyzer.Derived.refl _).of_keeps (hgraph ▸ hkeeps)

theorem Rounds.deleted (hfirst : firstAnalysis env fuel t = .ok (some (init, s0)))
    (hrun : Rounds env init fuel (DeletesPath env fuel) s0 s paths) : Deleted s0 s paths := by
  induction hrun with
  | start => exact .start (firstAnalysis_spec hfirst).2.1
  | next hrun hs hrefine hround ih => exact ih.next hs (hrun.derived hfirst) hrefine hround

/-- What holds at the head of a round, and what the round adds. -/
structure RoundsEnd (env : RoundEnv Val) (init : InitStatus Val) (fuel : ℕ)
    (s0 s : RoundState Val) (paths : List (List StmtId)) : Prop where
  /-- The rounds are bounded by the statements of the first analysis. -/
  bounded : paths.length ≤ s0.initDa.da.queue.stmtNum
  closed : s0.initDa.da.queue.ClosedUnder s0.initDa.graph s.deletedNodes
  instrument : ∀ a b, .instrumentDepend ∈ s.initDa.graph.labels a b ↔
    .instrumentDepend ∈ s0.initDa.graph.labels a b
  groups : ∀ i < s0.initDa.da.queue.stmtNum,
    ∃ g, s.initDa.da.queue.getInstrumentedStmtSet s.initDa.graph i =
      .ok (g, s0.initDa.da.queue.stmtSet s0.initDa.graph i)
  disjoint : paths.Pairwise List.Disjoint
  /-- The round compares no statement again. -/
  fresh : ∀ exit r, refineRounds env fuel s = .ok (some (exit, r)) →
    ∀ path ∈ paths, path.Disjoint r.longestStmtPath
  adds : ∀ exit r s', refineRounds env fuel s = .ok (some (exit, r)) →
    multiStmtRound env init fuel s = .ok (.next s') →
    s.deletedNodes ⊆ s'.deletedNodes ∧
      ∃ i < s0.initDa.da.queue.stmtNum,
        ∀ x ∈ initGroup s0 i, x ∉ s.deletedNodes ∧ x ∈ s'.deletedNodes

/-- In a run whose rounds delete a path, each takes a group that was not taken before. -/
theorem rounds_end (hfirst : firstAnalysis env fuel t = .ok (some (init, s0)))
    (hrun : Rounds env init fuel (DeletesPath env fuel) s0 s paths)
    (hs : DeletesPath env fuel s) : RoundsEnd env init fuel s0 s paths := by
  have hd := hrun.deleted hfirst
  have hderived := hrun.derived hfirst
  refine ⟨hd.length_le, hd.closed, fun a b => ⟨fun h => hd.keeps.sub a b h,
    hd.keeps.instrument a b⟩, fun i hi => ?_, hd.disjoint, ?_, ?_⟩
  · rw [hd.da, ← hd.keeps.stmtSet_eq hi]
    obtain ⟨g, hok, -⟩ := getInstrumentedStmtSet_eq (SameLabels.refl s.initDa.graph) hi
    exact ⟨g, hok⟩
  · intro exit r hrefine path hp x hx hx'
    exact hs.path_apart hderived hrefine x hx' (hd.compared path hp x hx)
  · intro exit r s' hrefine hround
    obtain ⟨⟨i, hi, -, hnew⟩, -, hmem⟩ := multiStmtRound_adds hd hs hderived hrefine hround
    exact ⟨fun x hx => (hmem x).2 (Or.inl hx), i, hi, hnew⟩

/-- A round that changes nothing compares the path of the first analysis. -/
theorem DeletesPath.of_one (hempty : s.deletedNodes = ∅)
    (hrefine : refineRounds env 1 s = .ok (some (exit, r))) : DeletesPath env 1 s := by
  intro exit' r' hrefine'
  obtain ⟨rfl, rfl⟩ := Prod.mk.inj (Option.some.inj (Except.ok.inj (hrefine.symm.trans hrefine')))
  obtain ⟨sort, -, hne, hloop⟩ := refineRounds_spec hrefine
  obtain ⟨-, -, -, -, -, -, hpath, -⟩ :=
    RefineState.refineStmtQueue_spec (RefineState.loop_one hloop)
  refine ⟨by rw [hpath]; exact hne, fun i _ hi => ?_⟩
  rw [hempty] at hi
  exact absurd hi (Finset.notMem_empty _)

theorem rounds_end_select :
    let t := generatedTest 1 (sampleTxn 0) []
    let env := emptyDatabase []
    ∃ init s0, firstAnalysis env 1 t = .ok (some (init, s0)) ∧ RoundsEnd env init 1 s0 s0 [] := by
  intro t env
  have hexit : firstCheck env 1 t = .ok (some (.unchanged, true)) := by decide +kernel
  obtain ⟨init, s, r, hfirst, hcheck, -⟩ := firstCheck_spec hexit
  obtain ⟨-, hempty, -⟩ := firstAnalysis_spec hfirst
  exact ⟨init, s, hfirst, rounds_end hfirst .start (.of_one hempty hcheck.1)⟩

/-! A round with an empty path. -/

theorem refineRounds_emptyPath (h : refineRounds env fuel s = .ok (some (.emptyPath, r))) :
    r.longestStmtPath = [] := by
  obtain ⟨sort, -, -, hloop⟩ := refineRounds_spec h
  obtain ⟨r1, -, ⟨hexit, -⟩ | ⟨r2, k, -, hrerun⟩⟩ := RefineState.loop_exit hloop
  · cases hexit
  · obtain ⟨-, ⟨hexit, -⟩ | ⟨-, da, sort', -, -, -, hpath, hexit⟩⟩ := RefineState.rerun_spec hrerun
    · cases hexit
    · split at hexit
      · next hempty => exact hpath.trans hempty
      · cases hexit

/-- The way out of the first round's loop, when the round goes on to the next one. -/
def firstRound (env : RoundEnv Val) (fuel : ℕ) (t : RoundTest Val) :
    Except Failure (Option RefineExit) := do
  match ← firstAnalysis env fuel t with
  | none => return none
  | some (init, s) =>
    match ← refineRounds env fuel s with
    | none => return none
    | some (exit, r) =>
      match ← checkRound env s exit r with
      | some (true, t) => do
        let _ ← restore env init t
        return some exit
      | _ => return none

theorem firstRound_emptyPath (h : firstRound env fuel t = .ok (some .emptyPath)) :
    ∃ init s r s', firstAnalysis env fuel t = .ok (some (init, s)) ∧
      refineRounds env fuel s = .ok (some (.emptyPath, r)) ∧ r.longestStmtPath = [] ∧
      multiStmtRound env init fuel s = .ok (.next s') ∧ s'.deletedNodes = s.deletedNodes := by
  obtain ⟨first, hfirst, h⟩ := bind_eq_ok_iff.1 h
  cases first with
  | none => cases h
  | some first =>
    obtain ⟨loopEnd, hrefine, h⟩ := bind_eq_ok_iff.1 h
    cases loopEnd with
    | none => cases h
    | some loopEnd =>
      obtain ⟨exit, r⟩ := loopEnd
      obtain ⟨v, hcheck, h⟩ := bind_eq_ok_iff.1 h
      rcases v with - | ⟨- | -, t'⟩
      · cases h
      · cases h
      · obtain ⟨t'', hrestore, h⟩ := bind_eq_ok_iff.1 h
        cases h
        have hempty := refineRounds_emptyPath hrefine
        refine ⟨first.1, first.2, r, ⟨t'', ⟨r.initDa.da, r.initDa.graph⟩, first.2.deletedNodes,
          emptyTime first.2 .emptyPath⟩, hfirst, hrefine, hempty, ?_, rfl⟩
        have hdelete : forEach r.longestStmtPath (deletePathStmt r.initDa.da.queue)
            (r.initDa.graph, first.2.deletedNodes) =
              .ok (r.initDa.graph, first.2.deletedNodes) := by
          rw [hempty]
          rfl
        exact bind_eq_ok_iff.2 ⟨_, hrefine, bind_eq_ok_iff.2 ⟨_, hcheck,
          bind_eq_ok_iff.2 ⟨_, hdelete, bind_eq_ok_iff.2 ⟨_, hrestore, rfl⟩⟩⟩⟩

/-- The scheduling of the refined queue skips the select, so the run after it has an empty
path. The round goes on to the deletion and deletes nothing. -/
theorem round_without_path :
    let t := sampleRounds (List.replicate 14 (.ok []) ++ [.error "skipped"])
    let env := emptyDatabase []
    ∃ init s r s', firstAnalysis env 10 t = .ok (some (init, s)) ∧
      refineRounds env 10 s = .ok (some (.emptyPath, r)) ∧ r.longestStmtPath = [] ∧
      multiStmtRound env init 10 s = .ok (.next s') ∧ s'.deletedNodes = s.deletedNodes := by
  intro t env
  have hclear : t.planned.test.Cleared := cleared_generated _ _ _
  have hexit : firstRound env 10 t = .ok (some .emptyPath) := by
    simp only [firstRound, firstAnalysis_eq_quick hclear, refineRounds_eq_quick]
    decide +kernel
  exact firstRound_emptyPath hexit

end DbFuzz
