import DbFuzz.Cross.CrossTester

/-! The statements of the queue between `transform_select` and `back_transform_select`, over a
whole run of a tester. -/

namespace DbFuzz.Cross

open DbFuzz.Expr

variable {σ : Type} {s : Schema} {orig st : Statement}

/-- Untransformed, with the nodes it had. -/
def Kept (orig st : Statement) : Prop := st.Settled ∧ st.bare = orig.bare

/-- Away from its untransformed state, with a way back to it. -/
def Away (s : Schema) (orig st : Statement) : Prop :=
  ∃ z, backTransformSelect s st = some z ∧ Kept orig z

theorem Kept.text (h : Kept orig st) (horig : orig.Settled) : st.text s = orig.text s := by
  rw [← Statement.text_bare h.1, h.2, Statement.text_bare horig]

theorem Kept.transform (h : Kept orig st) (ρ : Choices) :
    ∃ y, transformSelect s ρ st = some y ∧ Away s orig y := by
  obtain ⟨y, hy, z, hz, hs, hbare⟩ := st.comesBack (s := s) ρ h.1
  exact ⟨y, hy, z, hz, hs, hbare.trans h.2⟩

theorem Away.kept (h : Away s orig st) (hs : st.Settled) : Kept orig st := by
  obtain ⟨z, hz, hk⟩ := h
  rwa [st.back_settled hs hz] at hk

/-- What a loop of transforms finds is untransformed, and what is saved are statements of the
start. -/
def EventRight (orig : ℕ → Statement) (whole : List ℕ) : Event → Prop
  | .transforms queue => ∀ st ∈ queue, st.Settled
  | .saves queue => ∃ kept, kept.Sublist whole ∧ List.Forall₂ (fun p => Kept (orig p)) kept queue
  | _ => True

variable (env : CrossEnv σ) (orig : ℕ → Statement) (whole : List ℕ)

/-- A state without the live database and the clock. -/
structure View (σ : Type) where
  heap : ℕ → Statement
  backup : σ
  drawn : ℕ
  events : List Event
  lastPath : List PathStmt
  lastBugConfirmed : Bool

def CrossState.view (t : CrossState σ) : View σ :=
  ⟨t.heap, t.backup, t.drawn, t.events, t.lastPath, t.lastBugConfirmed⟩

/-- Of the tracked statements, those in `away` are transformed. -/
structure Stands (last : List PathStmt) (track away : List ℕ) (t : CrossState σ) : Prop where
  kept : ∀ p ∈ track, p ∉ away → Kept (orig p) (t.heap p)
  away : ∀ p ∈ track, p ∈ away → Away env.schema (orig p) (t.heap p)
  last : t.lastPath = last
  events : ∀ ev ∈ t.events, EventRight orig whole ev

/-- What an exception leaves. -/
structure Calm (t : CrossState σ) : Prop where
  kept : ∀ p ∈ t.lastPath, Kept (orig p.stmt) (t.heap p.stmt)
  last : (t.lastPath.map PathStmt.stmt).Sublist whole
  events : ∀ ev ∈ t.events, EventRight orig whole ev

variable {env orig whole} {last path : List PathStmt} {track away : List ℕ} {t u : CrossState σ}
  {R : CrossState σ → Prop}

theorem Stands.of_eq (h : Stands env orig whole last track away t) (hheap : u.heap = t.heap)
    (hlast : u.lastPath = t.lastPath) (hevents : u.events = t.events) :
    Stands env orig whole last track away u where
  kept := by rw [hheap]; exact h.kept
  away := by rw [hheap]; exact h.away
  last := hlast.trans h.last
  events := by rw [hevents]; exact h.events

theorem Stands.calm (h : Stands env orig whole last track [] t)
    (hlast : (last.map PathStmt.stmt).Sublist whole) (htrack : ∀ p ∈ last, p.stmt ∈ track) :
    Calm orig whole t where
  kept := by
    intro p hp
    rw [h.last] at hp
    exact h.kept p.stmt (htrack p hp) List.not_mem_nil
  last := by rw [h.last]; exact hlast
  events := h.events

/-- The condition: no call fails while a statement that `minimize` keeps is transformed. -/
def FailsAtRest (env : CrossEnv σ) : Prop :=
  ∀ t : CrossState σ, (∃ p ∈ t.lastPath, ¬ (t.heap p.stmt).Settled) → env.fails t = none

/-- The calls leave the statements as they are, and `R` where one fails. -/
def CallsLeave (env : CrossEnv σ) (orig : ℕ → Statement) (whole : List ℕ)
    (R : CrossState σ → Prop) : Prop :=
  ∀ (last : List PathStmt) (track away : List ℕ), (last.map PathStmt.stmt).Sublist whole →
    (∀ p ∈ last, p.stmt ∈ track) →
    Proc.Holds (Stands env orig whole last track away) (dbmsCall env)
      (fun _ => Stands env orig whole last track away) R

theorem FailsAtRest.callsLeave (hfails : FailsAtRest env) :
    CallsLeave env orig whole (Calm orig whole) := by
  intro last track away hlast htrack
  refine Proc.Holds.get.bind fun t =>
    (Proc.Holds.modify (Q := fun _ u => Stands env orig whole last track away u ∧
      u.heap = t.heap ∧ u.lastPath = t.lastPath) ?_).bind fun _ =>
    Proc.Holds.throwIf (fun u hu _ => hu.1) ?_
  · rintro u ⟨rfl, hu⟩
    exact ⟨hu.of_eq rfl rfl rfl, rfl, rfl⟩
  · rintro u ⟨hu, hheap, hlastPath⟩ hne
    -- the call failed, so every statement of `lastPath` is untransformed
    have hsettled : ∀ p ∈ t.lastPath, (t.heap p.stmt).Settled := by
      by_contra hcon
      push Not at hcon
      obtain ⟨p, hp, hns⟩ := hcon
      exact hne (hfails t ⟨p, hp, hns⟩)
    refine ⟨fun p hp => ?_, by rw [hu.last]; exact hlast, hu.events⟩
    have hp' : p.stmt ∈ track := htrack p (hu.last ▸ hp)
    by_cases haway : p.stmt ∈ away
    · refine (hu.away p.stmt hp' haway).kept ?_
      rw [hheap]
      exact hsettled p (hlastPath ▸ hp)
    · exact hu.kept p.stmt hp' haway

section

variable (hR : CallsLeave env orig whole R) (hlast : (last.map PathStmt.stmt).Sublist whole)
  (htrack : ∀ p ∈ last, p.stmt ∈ track)

include hR hlast htrack in
theorem dutResetToBackup_stands :
    Proc.Holds (Stands env orig whole last track away) (dutResetToBackup env)
      (fun _ => Stands env orig whole last track away) R :=
  (hR _ _ _ hlast htrack).bind fun _ =>
    Proc.Holds.modify fun _ h => h.of_eq rfl rfl rfl

theorem testStmts_view (env : CrossEnv σ) (path : List PathStmt) (t : CrossState σ) :
    (testStmts env path t).2.view = t.view := by
  induction path generalizing t with
  | nil => rfl
  | cons p path ih => exact ih (testStmt env p t).2

theorem record_stands (env : CrossEnv σ) {event : Event} (h : EventRight orig whole event) :
    Proc.Holds (Stands env orig whole last track away) (record event)
      (fun _ => Stands env orig whole last track away) R := by
  refine Proc.Holds.modify fun t ht => ⟨ht.kept, ht.away, ht.last, fun ev hev => ?_⟩
  rcases List.mem_append.1 hev with hev | hev
  · exact ht.events ev hev
  · rw [List.mem_singleton.1 hev]
    exact h

include hR hlast htrack in
theorem executeNormalPath_stands :
    Proc.Holds (Stands env orig whole last track away) (executeNormalPath env path)
      (fun _ => Stands env orig whole last track away) R := by
  refine (hR _ _ _ hlast htrack).bind fun _ => Proc.Holds.get.bind fun t =>
    ((record_stands env (by exact trivial)).pre fun u hu => hu.2).bind fun _ =>
    Proc.Holds.bind (M := fun _ => Stands env orig whole last track away) ?_ fun _ =>
    (hR _ _ _ hlast htrack).bind fun _ => Proc.Holds.get.bind fun t =>
    Proc.Holds.pure fun u hu => hu.2
  intro u hu
  have hview := testStmts_view env path u
  exact Or.inl ⟨_, _, rfl, hu.of_eq (congrArg View.heap hview) (congrArg View.lastPath hview)
    (congrArg View.events hview)⟩

/-! The two loops. -/

/-- A statement set to another one. -/
theorem Stands.set {away' : List ℕ} {p : ℕ} {st : Statement}
    (h : Stands env orig whole last track away t) (hheap : u.heap = Function.update t.heap p st)
    (hlast : u.lastPath = t.lastPath) (hevents : u.events = t.events)
    (hkept : p ∉ away' → Kept (orig p) st) (haway : p ∈ away' → Away env.schema (orig p) st)
    (hothers : ∀ q, q ≠ p → (q ∈ away' ↔ q ∈ away)) :
    Stands env orig whole last track away' u where
  kept := by
    intro q hq hnot
    rw [hheap]
    by_cases hqp : q = p
    · subst hqp
      rw [Function.update_self]
      exact hkept hnot
    · rw [Function.update_of_ne hqp]
      exact h.kept q hq ((hothers q hqp).not.1 hnot)
  away := by
    intro q hq hmem
    rw [hheap]
    by_cases hqp : q = p
    · subst hqp
      rw [Function.update_self]
      exact haway hmem
    · rw [Function.update_of_ne hqp]
      exact h.away q hq ((hothers q hqp).1 hmem)
  last := hlast.trans h.last
  events := by rw [hevents]; exact h.events

theorem transformStmt_stands {p : ℕ} (hp : p ∈ track) (haway : p ∉ away) :
    Proc.Holds (Stands env orig whole last track away) (transformStmt env p)
      (fun _ => Stands env orig whole last track (away ++ [p])) R := by
  refine Proc.Holds.get.bind fun t =>
    (Proc.Holds.assert (Q := fun st u => Away env.schema (orig p) st ∧
      Stands env orig whole last track away u) ?_).bind fun st => Proc.Holds.modify ?_
  · rintro u ⟨rfl, hu⟩
    obtain ⟨y, hy, hback⟩ :=
      (hu.kept p hp haway).transform (s := env.schema) (env.draws t.drawn)
    exact ⟨y, hy, hback, hu⟩
  · rintro u ⟨hst, hu⟩
    exact hu.set rfl rfl rfl (fun h => absurd h (by simp)) (fun _ => hst) fun q hqp => by
      simp [hqp]

theorem backTransformStmt_stands {p : ℕ} (hp : p ∈ track) (haway : p ∉ away) :
    Proc.Holds (Stands env orig whole last track (p :: away)) (backTransformStmt env p)
      (fun _ => Stands env orig whole last track away) R := by
  refine Proc.Holds.get.bind fun t =>
    (Proc.Holds.assert (Q := fun st u => Kept (orig p) st ∧
      Stands env orig whole last track (p :: away) u) ?_).bind fun st => Proc.Holds.modify ?_
  · rintro u ⟨rfl, hu⟩
    obtain ⟨z, hz, hk⟩ := hu.away p hp List.mem_cons_self
    exact ⟨z, hz, hk, hu⟩
  · rintro u ⟨hst, hu⟩
    exact hu.set rfl rfl rfl (fun _ => hst) (fun h => absurd h haway) fun q hqp => by
      simp [hqp]

theorem transformStmts_stands {targets : List ℕ} (hnodup : targets.Nodup)
    (htargets : ∀ p ∈ targets, p ∈ track) (hpath : ∀ p ∈ path, p.stmt ∈ track) :
    Proc.Holds (Stands env orig whole last track []) (transformStmts env path targets)
      (fun _ => Stands env orig whole last track targets) R := by
  refine Proc.Holds.get.bind fun t =>
    (Proc.Holds.of_start fun u hu => ((record_stands env ?_).pre ?_)).bind fun _ =>
    Proc.Holds.forEach (fun done => Stands env orig whole last track done) fun done p rest h => ?_
  · rcases hu with ⟨rfl, hu⟩
    intro st hst
    obtain ⟨p, hp, rfl⟩ := List.mem_map.1 hst
    exact (hu.kept p.stmt (hpath p hp) List.not_mem_nil).1
  · rintro v rfl
    exact hu.2
  · rw [h] at hnodup htargets
    refine transformStmt_stands (htargets p (by simp)) fun hp => ?_
    exact (List.nodup_append.1 hnodup).2.2 p hp p (by simp) rfl

theorem backTransformStmts_stands {targets : List ℕ} (hnodup : targets.Nodup)
    (htargets : ∀ p ∈ targets, p ∈ track) :
    Proc.Holds (Stands env orig whole last track targets) (backTransformStmts env targets)
      (fun _ => Stands env orig whole last track []) R := by
  have hloop : Proc.Holds _ (Proc.forEach targets (backTransformStmt env)) _ R := Proc.Holds.forEach
    (fun done => Stands env orig whole last track (targets.drop done.length))
    fun done p rest h => by
      rw [h, List.drop_left, List.append_cons done p rest, List.drop_left]
      rw [h] at hnodup htargets
      exact backTransformStmt_stands (htargets p (by simp))
        (List.nodup_cons.1 (List.nodup_append.1 hnodup).2.1).1
  rw [backTransformStmts]
  simpa using hloop

end

/-! The procedures of the tester. -/

theorem selects_mem {p : ℕ} (h : p ∈ selects path) : ∃ q ∈ path, q.stmt = p := by
  obtain ⟨q, hq, rfl⟩ := List.mem_map.1 h
  exact ⟨q, List.mem_of_mem_filter hq, rfl⟩

theorem selects_sublist (path : List PathStmt) :
    (selects path).Sublist (path.map PathStmt.stmt) := List.filter_sublist.map _

section

variable (hR : CallsLeave env orig whole R) (hlast : (last.map PathStmt.stmt).Sublist whole)
  (htrack : ∀ p ∈ last, p.stmt ∈ track) (hnodup : (path.map PathStmt.stmt).Nodup)
  (hpath : ∀ p ∈ path, p.stmt ∈ track)

include hR hlast htrack hnodup hpath

theorem runBothPaths_stands :
    Proc.Holds (Stands env orig whole last track []) (runBothPaths env path)
      (fun _ => Stands env orig whole last track []) R := by
  have hselects : (selects path).Nodup := hnodup.sublist (selects_sublist path)
  have htargets : ∀ p ∈ selects path, p ∈ track := by
    intro p hp
    obtain ⟨q, hq, rfl⟩ := selects_mem hp
    exact hpath q hq
  exact (dutResetToBackup_stands hR hlast htrack).bind fun _ =>
    (executeNormalPath_stands hR hlast htrack).bind fun _ =>
    (transformStmts_stands hselects htargets hpath).bind fun _ =>
    (dutResetToBackup_stands hR hlast htrack).bind fun _ =>
    (executeNormalPath_stands hR hlast htrack).bind fun _ =>
    (backTransformStmts_stands hselects htargets).bind fun _ =>
    Proc.Holds.pure fun _ h => h

theorem revalidateBug_stands :
    Proc.Holds (Stands env orig whole last track []) (revalidateBug env path)
      (fun _ => Stands env orig whole last track []) R :=
  (runBothPaths_stands hR hlast htrack hnodup hpath).bind fun _ =>
    Proc.Holds.pure fun _ h => h

theorem saveBugReport_stands (hwhole : (path.map PathStmt.stmt).Sublist whole) :
    Proc.Holds (Stands env orig whole last track []) (saveBugReport env path)
      (fun _ => Stands env orig whole last track []) R := by
  have hselects : (selects path).Nodup := hnodup.sublist (selects_sublist path)
  have htargets : ∀ p ∈ selects path, p ∈ track := by
    intro p hp
    obtain ⟨q, hq, rfl⟩ := selects_mem hp
    exact hpath q hq
  have hsaves : ∀ t, Stands env orig whole last track [] t →
      EventRight orig whole (.saves (stmtsOf t path)) := by
    intro t ht
    refine ⟨path.map PathStmt.stmt, hwhole, ?_⟩
    rw [stmtsOf, List.forall₂_map_left_iff, List.forall₂_map_right_iff, List.forall₂_same]
    exact fun p hp => ht.kept p.stmt (hpath p hp) List.not_mem_nil
  exact Proc.Holds.get.bind fun t =>
    (Proc.Holds.of_start fun u hu =>
      ((record_stands env (hu.1 ▸ hsaves u hu.2)).pre (by rintro v rfl; exact hu.2))).bind
        fun _ =>
    (transformStmts_stands hselects htargets hpath).bind fun _ => Proc.Holds.get.bind fun t =>
    ((record_stands env (by exact trivial)).pre fun u hu => hu.2).bind fun _ =>
    (backTransformStmts_stands hselects htargets).bind fun _ =>
    hR _ _ _ hlast htrack

end

/-! `minimize` -/

theorem others_sublist (path : List PathStmt) (i : ℕ) :
    (others path i).Sublist (path.map PathStmt.stmt) :=
  (selects_sublist _).trans ((path.eraseIdx_sublist i).map _)

theorem map_stmt_modify (path : List PathStmt) (i : ℕ) (usage : StmtBasicType) :
    (path.modify i fun p => { p with usage := usage }).map PathStmt.stmt =
      path.map PathStmt.stmt := by
  induction path generalizing i with
  | nil => simp
  | cons p path ih =>
    cases i with
    | zero => simp
    | succ i => simp [ih]

theorem mem_whole (hlast : (last.map PathStmt.stmt).Sublist whole) :
    ∀ p ∈ last, p.stmt ∈ whole := fun _ hp => hlast.subset (List.mem_map_of_mem hp)

section

variable (hR : CallsLeave env orig whole R) (hwhole : whole.Nodup)

include hR hwhole

theorem removalPass_stands (hlast : (last.map PathStmt.stmt).Sublist whole)
    (done rest : List PathStmt) (h : last = done ++ rest) :
    Proc.Holds (Stands env orig whole last whole []) (removalPass env done rest)
      (fun changed t => ∃ last', ((last'.map PathStmt.stmt).Sublist whole ∧
        (changed = true → last'.length < last.length)) ∧ Stands env orig whole last' whole [] t)
      R := by
  induction rest generalizing done with
  | nil => exact Proc.Holds.pure fun t ht => ⟨last, ⟨hlast, by simp⟩, ht⟩
  | cons p rest ih =>
    have hnext := ih (done ++ [p]) (by rw [h, List.append_cons])
    rw [removalPass]
    split_ifs with hselect hempty
    · exact hnext
    · exact Proc.Holds.pure fun t ht => ⟨last, ⟨hlast, by simp⟩, ht⟩
    · have hsub : ((done ++ rest).map PathStmt.stmt).Sublist (last.map PathStmt.stmt) := by
        rw [h]
        exact ((List.sublist_cons_self p rest).append_left done).map _
      refine (runBothPaths_stands hR hlast (mem_whole hlast)
        (hwhole.sublist (hsub.trans hlast)) (mem_whole (hsub.trans hlast))).bind fun runs => ?_
      split_ifs with hdiff
      · refine (Proc.Holds.modify (Q := fun _ => Stands env orig whole (done ++ rest) whole [])
          fun t ht => ⟨ht.kept, ht.away, rfl, ht.events⟩).bind fun _ => Proc.Holds.pure fun t ht =>
          ⟨done ++ rest, ⟨hsub.trans hlast, fun _ => ?_⟩, ht⟩
        rw [h]
        simp
      · exact hnext

theorem removeStmts_stands (fuel : ℕ) (hlast : (last.map PathStmt.stmt).Sublist whole)
    (hfuel : last.length < fuel) :
    Proc.Holds (Stands env orig whole last whole []) (removeStmts env fuel)
      (fun _ t => ∃ last', (last'.map PathStmt.stmt).Sublist whole ∧
        Stands env orig whole last' whole [] t) R := by
  induction fuel generalizing last with
  | zero => omega
  | succ fuel ih =>
    refine Proc.Holds.get.bind fun t => Proc.Holds.of_start fun u hu => ?_
    obtain ⟨rfl, hu⟩ := hu
    rw [hu.last]
    refine ((removalPass_stands hR hwhole hlast [] last rfl).pre
      (by rintro v rfl; exact hu)).bind fun changed => Proc.Holds.of_exists fun last' =>
      Proc.Holds.of_and fun ⟨hlast', hshorter⟩ => ?_
    split_ifs with hchanged
    · have hlt := hshorter hchanged
      exact ih hlast' (by omega)
    · exact Proc.Holds.pure fun v hv => ⟨last', hlast', hv⟩

theorem runCandidate_stands (i : ℕ) (hlast : (last.map PathStmt.stmt).Sublist whole) :
    Proc.Holds (Stands env orig whole last whole []) (runCandidate env last i)
      (fun _ => Stands env orig whole last whole []) R := by
  have hsub : (others last i).Sublist whole := (others_sublist last i).trans hlast
  have htargets : ∀ p ∈ others last i, p ∈ whole := fun p hp => hsub.subset hp
  have hmem := mem_whole hlast
  exact (transformStmts_stands (hwhole.sublist hsub) htargets hmem).bind fun _ =>
    (dutResetToBackup_stands hR hlast hmem).bind fun _ =>
    (executeNormalPath_stands hR hlast hmem).bind fun _ =>
    (dutResetToBackup_stands hR hlast hmem).bind fun _ =>
    (executeNormalPath_stands hR hlast hmem).bind fun _ =>
    (backTransformStmts_stands (hwhole.sublist hsub) htargets).bind fun _ =>
    Proc.Holds.pure fun _ h => h

theorem revertTransform_stands (i : ℕ) (hlast : (last.map PathStmt.stmt).Sublist whole) :
    Proc.Holds (Stands env orig whole last whole []) (revertTransform env i)
      (fun _ t => ∃ last', (last'.map PathStmt.stmt).Sublist whole ∧
        Stands env orig whole last' whole [] t) R := by
  refine Proc.Holds.get.bind fun t => Proc.Holds.of_start fun u hu => ?_
  obtain ⟨rfl, hu⟩ := hu
  rw [hu.last]
  split_ifs
  · refine ((runCandidate_stands hR hwhole i hlast).pre (by rintro v rfl; exact hu)).bind
      fun runs => ?_
    split_ifs
    · refine Proc.Holds.modify fun v hv =>
        ⟨last.modify i fun p => { p with usage := .initType }, ?_, hv.kept, hv.away, ?_, hv.events⟩
      · rwa [map_stmt_modify]
      · rw [hv.last]
    · exact Proc.Holds.pure fun v hv => ⟨last, hlast, hv⟩
  · exact Proc.Holds.pure fun v hv => ⟨last, hlast, hv ▸ hu⟩

theorem revertTransforms_stands (hlast : (last.map PathStmt.stmt).Sublist whole) :
    Proc.Holds (Stands env orig whole last whole []) (revertTransforms env)
      (fun _ t => ∃ last', (last'.map PathStmt.stmt).Sublist whole ∧
        Stands env orig whole last' whole [] t) R := by
  refine Proc.Holds.get.bind fun t => Proc.Holds.pre (Proc.Holds.forEach
    (fun _ t => ∃ last', (last'.map PathStmt.stmt).Sublist whole ∧
      Stands env orig whole last' whole [] t) fun done i rest _ => ?_)
    fun u hu => ⟨last, hlast, hu.2⟩
  exact Proc.Holds.of_exists fun last' => Proc.Holds.of_and fun hlast' =>
    revertTransform_stands hR hwhole i hlast'

end

/-- A save of the path that is left, at rest. -/
theorem saveMinimized_calm (hfails : FailsAtRest env) (hwhole : whole.Nodup) :
    Proc.Holds (Calm orig whole) (saveMinimized env) (fun _ => Calm orig whole)
      (Calm orig whole) := by
  refine Proc.Holds.get.bind fun t => Proc.Holds.of_start fun u hu => ?_
  obtain ⟨rfl, hu⟩ := hu
  have hstands : Stands env orig whole t.lastPath (t.lastPath.map PathStmt.stmt) [] t := by
    refine ⟨fun p hp _ => ?_, fun p _ hp => absurd hp List.not_mem_nil, rfl, hu.events⟩
    obtain ⟨q, hq, rfl⟩ := List.mem_map.1 hp
    exact hu.kept q hq
  have hmem : ∀ p ∈ t.lastPath, p.stmt ∈ t.lastPath.map PathStmt.stmt :=
    fun p hp => List.mem_map_of_mem hp
  exact ((saveBugReport_stands hfails.callsLeave hu.last hmem (hwhole.sublist hu.last) hmem hu.last).pre
    (by rintro v rfl; exact hstands)).post fun _ v hv => hv.calm hu.last hmem

theorem minimize_calm (hfails : FailsAtRest env) (hwhole : whole.Nodup)
    (hlast : (last.map PathStmt.stmt).Sublist whole) :
    Proc.Holds (Stands env orig whole last whole []) (minimize env) (fun _ => Calm orig whole)
      (Calm orig whole) := by
  refine Proc.Holds.get.bind fun t => Proc.Holds.of_start fun u hu => ?_
  obtain ⟨rfl, hu⟩ := hu
  have hcalm : Calm orig whole t := hu.calm hlast (mem_whole hlast)
  split_ifs with hnothing
  · exact Proc.Holds.pure (by rintro v rfl; exact hcalm)
  · refine Proc.Holds.tryCatch (M := Calm orig whole) (Proc.Holds.pre ?_
      (by rintro v rfl; exact hu)) fun _ => saveMinimized_calm hfails hwhole
    refine Proc.Holds.get.bind fun v => Proc.Holds.of_start fun w hw => ?_
    obtain ⟨rfl, hw⟩ := hw
    rw [hw.last]
    exact ((removeStmts_stands hfails.callsLeave hwhole _ hlast (Nat.lt_succ_self _)).pre
        (by rintro x rfl; exact hw)).bind fun _ =>
      Proc.Holds.of_exists fun last' => Proc.Holds.of_and fun hlast' =>
      (revertTransforms_stands hfails.callsLeave hwhole hlast').bind fun _ =>
      Proc.Holds.of_exists fun last'' => Proc.Holds.of_and fun hlast'' =>
      (saveMinimized_calm hfails hwhole).pre fun x hx => hx.calm hlast'' (mem_whole hlast'')

/-! `cross_test` and the whole run. -/

theorem crossTest_stands (hR : CallsLeave env orig whole R) (hwhole : path.map PathStmt.stmt = whole)
    (hnodup : whole.Nodup) (bugDir : String) (tx : RunResult) :
    Proc.Holds (Stands env orig whole [] whole []) (crossTest env bugDir path tx)
      (fun _ t => ∃ last, (last.map PathStmt.stmt).Sublist whole ∧
        Stands env orig whole last whole [] t) R := by
  have hsub : (path.map PathStmt.stmt).Sublist whole := hwhole ▸ List.Sublist.refl _
  have hpath := mem_whole hsub
  have hnil : (([] : List PathStmt).map PathStmt.stmt).Sublist whole := List.nil_sublist whole
  refine (runBothPaths_stands hR hnil (by simp) (hnodup.sublist hsub) hpath).bind
    fun runs => ?_
  by_cases hbug : noBug tx runs.1 runs.2 = true
  · rw [if_pos hbug]
    exact Proc.Holds.pure fun t ht => ⟨[], hnil, ht⟩
  · rw [if_neg hbug]
    refine (revalidateBug_stands hR hnil (by simp) (hnodup.sublist hsub) hpath).bind
      fun bugConfirmed => ?_
    by_cases hconfirmed : (!bugConfirmed) = true
    · rw [if_pos hconfirmed]
      exact Proc.Holds.pure fun t ht => ⟨[], hnil, ht⟩
    · rw [if_neg hconfirmed]
      refine (Proc.Holds.modify (Q := fun _ => Stands env orig whole path whole [])
        fun t ht => ⟨ht.kept, ht.away, rfl, ht.events⟩).bind fun _ =>
        Proc.Holds.bind (M := fun _ => Stands env orig whole path whole []) ?_ fun _ =>
        Proc.Holds.pure fun t ht => ⟨path, hsub, ht⟩
      split_ifs
      · exact saveBugReport_stands hR hsub hpath (hnodup.sublist hsub) hpath hsub
      · exact Proc.Holds.pure fun t ht => ht

theorem crossRun_calm (hfails : FailsAtRest env) (hwhole : path.map PathStmt.stmt = whole)
    (hnodup : whole.Nodup) (bugDir : String) (tx : RunResult) :
    Proc.Holds (Stands env orig whole [] whole []) (crossRun env bugDir path tx)
      (fun _ => Calm orig whole) (Calm orig whole) := by
  refine (crossTest_stands hfails.callsLeave hwhole hnodup bugDir tx).bind fun bug =>
    Proc.Holds.of_exists fun last => Proc.Holds.of_and fun hlast => ?_
  split_ifs
  · exact minimize_calm hfails hnodup hlast
  · exact Proc.Holds.pure fun t ht => ht.calm hlast (mem_whole hlast)

/-- The statements a new tester is given: distinct trees, none of them transformed. -/
structure NewTester (path : List PathStmt) (t : CrossState σ) : Prop where
  lastPath : t.lastPath = []
  events : t.events = []
  nodup : (path.map PathStmt.stmt).Nodup
  settled : ∀ p ∈ path, (t.heap p.stmt).Settled

theorem NewTester.stands (ht : NewTester path t) :
    Stands env t.heap (path.map PathStmt.stmt) [] (path.map PathStmt.stmt) [] t := by
  refine ⟨fun p hp _ => ?_, fun p _ hp => absurd hp List.not_mem_nil, ht.lastPath, by
    simp [ht.events]⟩
  obtain ⟨q, hq, rfl⟩ := List.mem_map.1 hp
  exact ⟨ht.settled q hq, rfl⟩

/-- The statements of the queue are untransformed at every loop of transforms and at every save,
and what is saved are the texts of the path or of a part of it. -/
def Event.Right (s : Schema) (path : List PathStmt) (t : CrossState σ) : Event → Prop
  | .transforms queue => ∀ st ∈ queue, st.Settled
  | .saves queue => (∀ st ∈ queue, st.Settled) ∧
      ∃ kept : List ℕ, kept.Sublist (path.map PathStmt.stmt) ∧
        queue.map (Statement.text s) = kept.map fun p => (t.heap p).text s
  | _ => True

theorem texts_of_kept {orig : ℕ → Statement} {kept : List ℕ} {queue : List Statement}
    (h : List.Forall₂ (fun p => Kept (orig p)) kept queue) (horig : ∀ p ∈ kept, (orig p).Settled) :
    (∀ st ∈ queue, st.Settled) ∧
      queue.map (Statement.text s) = kept.map fun p => (orig p).text s := by
  induction h with
  | nil => simp
  | @cons p st kept queue hst _ ih =>
    rw [List.forall_mem_cons] at horig
    obtain ⟨hsettled, htexts⟩ := ih horig.2
    rw [List.forall_mem_cons, List.map_cons, List.map_cons, htexts, hst.text horig.1]
    exact ⟨⟨hst.1, hsettled⟩, rfl⟩

theorem EventRight.right {event : Event} (h : EventRight t.heap (path.map PathStmt.stmt) event)
    (hsettled : ∀ p ∈ path, (t.heap p.stmt).Settled) : event.Right s path t := by
  cases event with
  | transforms queue =>
    rw [Event.Right]
    exact h
  | saves queue =>
    obtain ⟨kept, hkept, hall⟩ := h
    have horig : ∀ p ∈ kept, (t.heap p).Settled := by
      intro p hp
      obtain ⟨q, hq, rfl⟩ := List.mem_map.1 (hkept.subset hp)
      exact hsettled q hq
    obtain ⟨hqueue, htexts⟩ := texts_of_kept (s := s) hall horig
    exact ⟨hqueue, kept, hkept, htexts⟩
  | executes texts usages => trivial
  | savesTransformed queue => trivial

/-- A run of a tester in which no call fails while a statement of the queue of `minimize` is
transformed: no assertion fires, whatever fails otherwise, and the statements are back before
every loop of transforms and every save. -/
theorem crossRun_restores (env : CrossEnv σ) (bugDir : String) (path : List PathStmt)
    (tx : RunResult) (t : CrossState σ) (ht : NewTester path t) (hfails : FailsAtRest env) :
    ((crossRun env bugDir path tx t).1 = .ok () ∨
      ∃ e, (crossRun env bugDir path tx t).1 = .error (.exception e)) ∧
    ∀ event ∈ (crossRun env bugDir path tx t).2.events, event.Right env.schema path t := by
  rcases crossRun_calm hfails rfl ht.nodup bugDir tx t ht.stands with
    ⟨_, u, hu, hcalm⟩ | ⟨e, u, hu, hcalm⟩
  · rw [hu]
    exact ⟨Or.inl rfl, fun event h => (hcalm.events event h).right ht.settled⟩
  · rw [hu]
    exact ⟨Or.inr ⟨e, rfl⟩, fun event h => (hcalm.events event h).right ht.settled⟩

/-! An insert and a select, on a server that answers a transformed select wrongly. -/

def insertAndSelect : List PathStmt := [⟨0, .insertWrite⟩, ⟨1, .selectRead⟩]

def newTester : CrossState Unit where
  heap
    | 0 => .other "insert into t values (2)"
    | _ => .querySpec selectTwo
  live := ()
  backup := ()
  calls := 0
  drawn := 0
  events := []
  lastPath := []
  lastBugConfirmed := false

def wrongServer (fails : CrossState Unit → Option String) : CrossEnv Unit where
  schema := schemaMysql
  draws _ := plainDraws
  fails := fails
  test _ text :=
    (.ok (if text = (Statement.querySpec selectTwo).text schemaMysql then [["2"]] else [["3"]]), ())
  content _ := Content.empty

theorem newTester_insertAndSelect : NewTester insertAndSelect newTester := by
  refine ⟨rfl, rfl, by decide, fun p hp => ?_⟩
  simp only [insertAndSelect, List.mem_cons, List.not_mem_nil, or_false] at hp
  rcases hp with rfl | rfl
  · trivial
  · exact selectTwo_settled

/-- The server is lost while `cross_test` has the select transformed. -/
def failsInCrossTest (t : CrossState Unit) : Option String :=
  if t.lastPath.isEmpty ∧ t.drawn = 1 then some "CONNECTION FAIL" else none

theorem crossRun_restores_insertAndSelect :
    ((crossRun (wrongServer failsInCrossTest) "bug" insertAndSelect (0, Content.empty) newTester).1 =
        .ok () ∨
      ∃ e, (crossRun (wrongServer failsInCrossTest) "bug" insertAndSelect (0, Content.empty)
        newTester).1 = .error (.exception e)) ∧
    ∀ event ∈ (crossRun (wrongServer failsInCrossTest) "bug" insertAndSelect (0, Content.empty)
      newTester).2.events, event.Right schemaMysql insertAndSelect newTester :=
  crossRun_restores (wrongServer failsInCrossTest) "bug" insertAndSelect (0, Content.empty)
    newTester newTester_insertAndSelect (by
      rintro t ⟨p, hp, -⟩
      exact if_neg fun h => by simp [List.isEmpty_iff.1 h.1] at hp)

/-- The server is lost while `minimize` has the select transformed. -/
def failsInMinimize (t : CrossState Unit) : Option String :=
  if ¬ t.lastPath.isEmpty ∧ t.drawn = 4 then some "CONNECTION FAIL" else none

def Event.savedTexts (s : Schema) : Event → List String
  | .saves queue => queue.map (Statement.text s)
  | _ => []

/-- The partial result is saved with a transformed select, whose next transform then aborts. -/
theorem crossRun_saves_transformed :
    let run := crossRun (wrongServer failsInMinimize) "bug" insertAndSelect (0, Content.empty)
      newTester
    NewTester insertAndSelect newTester ∧ run.1 = .error .abort ∧
      ∃ text ∈ run.2.events.flatMap (Event.savedTexts schemaMysql),
        text ∉ textsOf (wrongServer failsInMinimize) newTester insertAndSelect :=
  ⟨newTester_insertAndSelect, by decide +kernel⟩

end DbFuzz.Cross
