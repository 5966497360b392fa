import DbFuzz.Cross.Candidates
import DbFuzz.Expr.Steady

/-! Phase 1 of `minimize` on a deterministic server. The runs of `cross_test` have stored the
equivalent expressions, so a path is sent with the same texts whenever it is run again. -/

namespace DbFuzz.Cross

open DbFuzz.Expr

variable {σ : Type} {s : Schema}

/-! A statement that was transformed once and turned back. -/

theorem group_again (group : Option GroupClause) (ρ : Choices) (h : GroupSettled group) :
    Again (fun ρ group => group.mapM (GroupClause.eqTransform s ρ))
      (fun group => group.mapM (GroupClause.backTransform s)) ρ group := by
  cases group with
  | none => exact ⟨none, rfl, none, rfl, fun _ => rfl⟩
  | some g =>
    obtain ⟨groupBy, having⟩ := g
    rw [GroupSettled] at h
    obtain ⟨having', ht, having'', hb, hagain⟩ := having.again (s := s) ρ h
    exact ⟨some (.mk groupBy having'), by simp [GroupClause.eqTransform, ht],
      some (.mk groupBy having''), by simp [GroupClause.backTransform, hb],
      fun ρ' => by simp [GroupClause.eqTransform, hagain]⟩

theorem query_again (q : Expr.QuerySpec) (ρ : Choices) (h : q.Settled) :
    Again (transformQuery s) (backTransformQuery s) ρ q := by
  obtain ⟨options, quantifier, ⟨columns, names, es⟩, from_, search, group, window, order,
    limit⟩ := q
  rw [Expr.QuerySpec.Settled, SelectList.Settled] at h
  obtain ⟨⟨-, hes⟩, -, hsearch, hgroup⟩ := h
  obtain ⟨search', ht₁, search'', hb₁, h₁⟩ := search.again (s := s) (ρ.sub 0) hsearch
  obtain ⟨es', ht₂, es'', hb₂, h₂⟩ := listAgain (s := s) es (ρ.sub 1) 0 hes
  obtain ⟨group', ht₃, group'', hb₃, h₃⟩ := group_again (s := s) group (ρ.sub 2) hgroup
  exact ⟨.mk options quantifier (.mk columns names es') from_ search' group' window order limit,
    by simp [transformQuery, ht₁, ht₂, ht₃],
    .mk options quantifier (.mk columns names es'') from_ search'' group'' window order limit,
    by simp [backTransformQuery, hb₁, hb₂, hb₃],
    fun ρ' => by simp [transformQuery, h₁, h₂, h₃]⟩

theorem with_again (withQueries : WithQueries) (ρ : Choices) (i : ℕ)
    (h : WithSettled withQueries) :
    Again (fun ρ => transformWith s ρ i) (backTransformWith s) ρ withQueries := by
  induction withQueries generalizing i with
  | nil => exact ⟨[], rfl, [], rfl, fun _ => rfl⟩
  | cons w rest ih =>
    obtain ⟨ident, q⟩ := w
    rw [WithSettled, List.forall_mem_cons] at h
    obtain ⟨q', ht₁, q'', hb₁, h₁⟩ := query_again (s := s) q (ρ.sub i) h.1
    obtain ⟨rest', ht₂, rest'', hb₂, h₂⟩ := ih (i + 1) h.2
    exact ⟨(ident, q') :: rest', by simp [transformWith, ht₁, ht₂], (ident, q'') :: rest'',
      by simp [backTransformWith, hb₁, hb₂], fun ρ' => by simp [transformWith, h₁, h₂]⟩

theorem Statement.again (st : Statement) (ρ : Choices) (h : st.Settled) :
    Again (transformSelect s) (backTransformSelect s) ρ st := by
  cases st with
  | querySpec q =>
    obtain ⟨q', ht, q'', hb, hagain⟩ := query_again (s := s) q ρ h
    exact ⟨.querySpec q', by simp [transformSelect, ht], .querySpec q'',
      by simp [backTransformSelect, hb], fun ρ' => by simp [transformSelect, hagain]⟩
  | commonTableExpression cte =>
    obtain ⟨isRecursive, withQueries, query⟩ := cte
    obtain ⟨query', ht₁, query'', hb₁, h₁⟩ := query_again (s := s) query (ρ.sub 0) h.2
    obtain ⟨with', ht₂, with'', hb₂, h₂⟩ := with_again (s := s) withQueries (ρ.sub 1) 0 h.1
    exact ⟨.commonTableExpression ⟨isRecursive, with', query'⟩,
      by simp [transformSelect, ht₁, ht₂], .commonTableExpression ⟨isRecursive, with'', query''⟩,
      by simp [backTransformSelect, hb₁, hb₂], fun ρ' => by simp [transformSelect, h₁, h₂]⟩
  | other text => exact ⟨.other text, rfl, .other text, rfl, fun _ => rfl⟩

/-- The transform no longer depends on what it draws, and the way back leads here. -/
def Fixed (s : Schema) (st : Statement) : Prop :=
  ∃ y, (∀ ρ, transformSelect s ρ st = some y) ∧ backTransformSelect s y = some st

theorem Statement.Settled.fixed {st : Statement} (h : st.Settled) (ρ : Choices) :
    ∃ y, transformSelect s ρ st = some y ∧ ∃ z, backTransformSelect s y = some z ∧ Fixed s z := by
  obtain ⟨y, ht, z, hb, hagain⟩ := st.again ρ h
  exact ⟨y, ht, z, hb, y, hagain, hb⟩

variable {env : CrossEnv σ} {db : Database σ} {path last : List PathStmt} {t u b : CrossState σ}

/-- The selected statements of the path are fixed. -/
def PathFixed (env : CrossEnv σ) (heap : ℕ → Statement) (path : List PathStmt) : Prop :=
  (path.map PathStmt.stmt).Nodup ∧ ∀ p ∈ selects path, Fixed env.schema (heap p)

theorem PathFixed.sublist {heap : ℕ → Statement} {path' : List PathStmt}
    (h : PathFixed env heap path) (hsub : path'.Sublist path) : PathFixed env heap path' :=
  ⟨h.1.sublist (hsub.map _), fun p hp => h.2 p ((hsub.filter _).map _ |>.subset hp)⟩

/-- The trees of a loop of transforms do not depend on what it draws, and turn back to those
from which it started. -/
theorem PathFixed.heaps {heap : ℕ → Statement} (h : PathFixed env heap path) :
    ∃ heap', (∀ drawn, transformHeap env (selects path) drawn heap = some heap') ∧
      backTransformHeap env (selects path) heap' = some heap := by
  have hnodup : (selects path).Nodup := h.1.sublist (selects_sublist path)
  have hchoice : ∀ p, ∃ y, p ∈ selects path →
      (∀ ρ, transformSelect env.schema ρ (heap p) = some y) ∧
        backTransformSelect env.schema y = some (heap p) := by
    intro p
    by_cases hp : p ∈ selects path
    · obtain ⟨y, hy⟩ := h.2 p hp
      exact ⟨y, fun _ => hy⟩
    · exact ⟨heap p, fun hp' => absurd hp' hp⟩
  choose y hy using hchoice
  have hsame : ∀ heap' : ℕ → Statement, (∀ p ∈ selects path, heap' p = y p) →
      (∀ p ∉ selects path, heap' p = heap p) →
        heap' = fun p => if p ∈ selects path then y p else heap p := by
    intro heap' hmem hnot
    funext p
    split_ifs with hp
    · exact hmem p hp
    · exact hnot p hp
  refine ⟨fun p => if p ∈ selects path then y p else heap p, fun drawn => ?_, ?_⟩
  · obtain ⟨heap', hheap, hmem, hnot⟩ := transformHeap_exists (Q := fun p st => st = y p) drawn
      hnodup fun p hp ρ => ⟨y p, (hy p hp).1 ρ, rfl⟩
    rw [hheap, hsame heap' hmem hnot]
  · have hback : ∀ p ∈ selects path, ∃ st, backTransformSelect env.schema
        (if p ∈ selects path then y p else heap p) = some st ∧ st = heap p := fun p hp =>
      ⟨heap p, by rw [if_pos hp]; exact (hy p hp).2, rfl⟩
    obtain ⟨heap', hheap, hmem, hnot⟩ := backTransformHeap_exists hnodup hback
    rw [hheap]
    congr 1
    funext p
    by_cases hp : p ∈ selects path
    · exact hmem p hp
    · rw [hnot p hp, if_neg hp]

/-! The two runs of a path. -/

/-- A run of the statements of the path as a heap has them. -/
def runOf (env : CrossEnv σ) (db : Database σ) (heap : ℕ → Statement) (backup : σ)
    (path : List PathStmt) : RunResult :=
  db.run (path.map fun p => (heap p.stmt).text env.schema) (path.map PathStmt.usage) backup

/-- The path shows the difference: its normal run and its transformed run differ. -/
def Shows (env : CrossEnv σ) (db : Database σ) (t : CrossState σ) (path : List PathStmt) : Prop :=
  ∃ heap, transformHeap env (selects path) t.drawn t.heap = some heap ∧
    differ (runOf env db t.heap t.backup path) (runOf env db heap t.backup path) = true

theorem runBothPaths_view {heap back : ℕ → Statement} {v : View σ} (hdb : Deterministic env db)
    (hheap : transformHeap env (selects path) v.drawn v.heap = some heap)
    (hback : backTransformHeap env (selects path) heap = some back) :
    Proc.Holds (fun t => t.view = v) (runBothPaths env path)
      (fun runs t => runs = (runOf env db v.heap v.backup path, runOf env db heap v.backup path) ∧
        t.heap = back ∧ t.backup = v.backup ∧ t.lastPath = v.lastPath)
      (Failed env v.lastPath) := by
  set w := v.executes env path
  set x := w.transforms path (selects path) heap
  have htexts : ∀ v : View σ, v.texts env path =
      path.map fun p => (v.heap p.stmt).text env.schema := fun v => by
    simp [View.texts, View.stmts, Function.comp_def]
  exact (dutResetToBackup_view (v := v)).bind fun _ =>
    (executeNormalPath_view hdb).bind fun normal => Proc.Holds.of_and fun hnormal =>
    (transformStmts_view (v := w) hheap).bind fun _ =>
    (dutResetToBackup_view (v := x)).bind fun _ =>
    (executeNormalPath_view hdb).bind fun transformed => Proc.Holds.of_and fun htransformed =>
    (backTransformStmts_view (v := x.executes env path) hback).bind fun _ =>
    Proc.Holds.pure fun t ht => ⟨by rw [hnormal, htransformed, htexts, htexts]; rfl,
      congrArg View.heap ht, congrArg View.backup ht, congrArg View.lastPath ht⟩

/-- The states between two runs: the statements and the backup are those of `b`. -/
structure Between (b : CrossState σ) (last : List PathStmt) (t : CrossState σ) : Prop where
  heap : t.heap = b.heap
  backup : t.backup = b.backup
  last : t.lastPath = last

theorem runBothPaths_between (hdb : Deterministic env db) (hfixed : PathFixed env b.heap path) :
    Proc.Holds (Between b last) (runBothPaths env path)
      (fun runs t => (differ runs.1 runs.2 = true ↔ Shows env db b path) ∧ Between b last t)
      (Failed env last) := by
  obtain ⟨heap, hheap, hback⟩ := hfixed.heaps
  refine Proc.Holds.of_start fun t ht => ?_
  have hheap' : transformHeap env (selects path) t.view.drawn t.view.heap = some heap := by
    change transformHeap env (selects path) t.drawn t.heap = some heap
    rw [ht.heap]
    exact hheap t.drawn
  refine (runBothPaths_view (v := t.view) hdb hheap' hback).conseq ?_ ?_ ?_
  · rintro u rfl
    rfl
  · rintro runs u ⟨rfl, hu, hbackup, hlast⟩
    refine ⟨?_, hu, hbackup.trans ht.backup, hlast.trans ht.last⟩
    have hstart : t.view.heap = b.heap ∧ t.view.backup = b.backup := ⟨ht.heap, ht.backup⟩
    rw [hstart.1, hstart.2, Shows, hheap b.drawn]
    simp
  · intro u hu
    exact ⟨hu.1.trans ht.last, hu.2⟩

theorem Between.shows_iff (hfixed : PathFixed env b.heap path) (ht : Between b last t) :
    Shows env db t path ↔ Shows env db b path := by
  obtain ⟨heap, hheap, -⟩ := hfixed.heaps
  rw [Shows, Shows, ht.heap, ht.backup, hheap, hheap]

theorem not_shows_nil : ¬ Shows env db b [] := by
  rintro ⟨heap, -, hdiffer⟩
  rw [show runOf env db heap b.backup [] = runOf env db b.heap b.backup [] from rfl,
    differ_self] at hdiffer
  exact Bool.false_ne_true hdiffer

/-! The loops. -/

/-- A path that the phase may leave. -/
structure Left (env : CrossEnv σ) (db : Database σ) (b : CrossState σ) (path last : List PathStmt) :
    Prop where
  sublist : last.Sublist path
  shows : Shows env db b last

/-- No statement behind `done` can be removed alone. -/
def NoneRemovable (env : CrossEnv σ) (db : Database σ) (b : CrossState σ)
    (done rest : List PathStmt) : Prop :=
  ∀ pre p post, rest = pre ++ p :: post → isSelectLikeUsage p.usage = false →
    ¬ Shows env db b (done ++ pre ++ post)

theorem NoneRemovable.cons {done rest : List PathStmt} {p : PathStmt}
    (hp : isSelectLikeUsage p.usage = false → ¬ Shows env db b (done ++ rest))
    (h : NoneRemovable env db b (done ++ [p]) rest) : NoneRemovable env db b done (p :: rest) := by
  intro pre q post hrest hq
  cases pre with
  | nil =>
    obtain ⟨rfl, rfl⟩ := List.cons.inj hrest
    rw [List.append_nil]
    exact hp hq
  | cons r pre =>
    obtain ⟨hr, htail⟩ := List.cons.inj hrest
    rw [← hr, List.append_cons done p pre]
    exact h pre q post htail hq

theorem removalPass_between (hdb : Deterministic env db) (hfixed : PathFixed env b.heap last)
    (done rest : List PathStmt) (h : last = done ++ rest) :
    Proc.Holds (Between b last) (removalPass env done rest)
      (fun changed t => ∃ last', (if changed = true then last'.Sublist last ∧
          last'.length < last.length ∧ Shows env db b last'
        else last' = last ∧ NoneRemovable env db b done rest) ∧ Between b last' t)
      (Failed env last) := by
  induction rest generalizing done with
  | nil => exact Proc.Holds.pure fun t ht => ⟨last, ⟨rfl, fun pre p post hnil => by simp at hnil⟩, ht⟩
  | cons p rest ih =>
    -- the loop goes on behind `p`
    have hnext (hp : isSelectLikeUsage p.usage = false → ¬ Shows env db b (done ++ rest)) :
        Proc.Holds (Between b last) (removalPass env (done ++ [p]) rest)
          (fun changed t => ∃ last', (if changed = true then last'.Sublist last ∧
              last'.length < last.length ∧ Shows env db b last'
            else last' = last ∧ NoneRemovable env db b done (p :: rest)) ∧ Between b last' t)
          (Failed env last) :=
      (ih (done ++ [p]) (by rw [h, List.append_cons])).post
        fun changed t ⟨last', hlast', ht⟩ => by
          refine ⟨last', ?_, ht⟩
          split_ifs at hlast' ⊢
          · exact hlast'
          · exact ⟨hlast'.1, hlast'.2.cons hp⟩
    rw [removalPass]
    split_ifs with hselect hempty
    · exact hnext fun hp => by simp [hselect] at hp
    · refine Proc.Holds.pure fun t ht => ⟨last, ⟨rfl, NoneRemovable.cons (fun _ => ?_) ?_⟩, ht⟩
      · rw [List.isEmpty_iff.1 hempty]
        exact not_shows_nil
      · rw [(List.append_eq_nil_iff.1 (List.isEmpty_iff.1 hempty)).2]
        exact fun pre p post hnil => by simp at hnil
    · have hsub : (done ++ rest).Sublist last := by
        rw [h]
        exact (List.sublist_cons_self p rest).append_left done
      refine (runBothPaths_between hdb (hfixed.sublist hsub)).bind fun runs =>
        Proc.Holds.of_and fun hshows => ?_
      split_ifs with hdiff
      · refine (Proc.Holds.modify (Q := fun _ => Between b (done ++ rest))
          fun t ht => ⟨ht.heap, ht.backup, rfl⟩).bind fun _ => Proc.Holds.pure fun t ht =>
          ⟨done ++ rest, ⟨hsub, ?_, hshows.1 hdiff⟩, ht⟩
        rw [h]
        simp
      · exact hnext fun _ hcon => hdiff (hshows.2 hcon)

theorem removeStmts_between (hdb : Deterministic env db) (fuel : ℕ)
    (hfixed : PathFixed env b.heap path) (hlast : Left env db b path last)
    (hfuel : last.length < fuel) :
    Proc.Holds (Between b last) (removeStmts env fuel)
      (fun _ t => Left env db b path t.lastPath ∧ NoneRemovable env db b [] t.lastPath)
      (fun t => Left env db b path t.lastPath ∧ ∃ u, env.fails u ≠ none) := by
  induction fuel generalizing last with
  | zero => omega
  | succ fuel ih =>
    refine Proc.Holds.get.bind fun t => Proc.Holds.of_start fun u hu => ?_
    obtain ⟨rfl, hu⟩ := hu
    rw [hu.last]
    refine ((removalPass_between hdb (hfixed.sublist hlast.sublist) [] last rfl).conseq
      (by rintro v rfl; exact hu) (fun _ _ h => h) fun v hv => ?_).bind fun changed =>
      Proc.Holds.of_exists fun last' => Proc.Holds.of_and fun hlast' => ?_
    · rw [hv.1]
      exact ⟨hlast, hv.2⟩
    · split_ifs at hlast' ⊢ with hchanged
      · exact ih ⟨hlast'.1.trans hlast.sublist, hlast'.2.2⟩ (by omega)
      · refine Proc.Holds.pure fun v hv => ?_
        rw [hv.last, hlast'.1]
        exact ⟨hlast, hlast'.2⟩

/-! The start of the phase. -/

/-- The first run of a path stores the equivalent expressions of its selected statements. -/
theorem runBothPaths_first (hdb : Deterministic env db) (ht : NewTester path t) :
    Proc.Holds (fun u => u = t) (runBothPaths env path)
      (fun _ u => PathFixed env u.heap path) (fun _ => True) := by
  have hnodup : (selects path).Nodup := ht.nodup.sublist (selects_sublist path)
  have hfirst : ∀ p ∈ selects path, ∀ ρ, ∃ y, transformSelect env.schema ρ (t.heap p) = some y ∧
      ∃ z, backTransformSelect env.schema y = some z ∧ Fixed env.schema z := by
    intro p hp ρ
    obtain ⟨q, hq, rfl⟩ := selects_mem hp
    exact (ht.settled q hq).fixed ρ
  obtain ⟨heap, hheap, hmem, -⟩ := transformHeap_exists t.drawn hnodup hfirst
  obtain ⟨back, hback, hfixed, -⟩ := backTransformHeap_exists hnodup hmem
  refine (runBothPaths_view (v := t.view) hdb hheap hback).conseq ?_ ?_ fun _ _ => trivial
  · rintro u rfl
    rfl
  · rintro runs u ⟨-, hu, -, -⟩
    rw [hu]
    exact ⟨ht.nodup, hfixed⟩

theorem saveBugReport_between (hfixed : PathFixed env b.heap path) :
    Proc.Holds (Between b last) (saveBugReport env path) (fun _ => Between b last)
      (fun _ => True) := by
  obtain ⟨heap, hheap, hback⟩ := hfixed.heaps
  have hview : ∀ v : View σ, v.heap = b.heap →
      transformHeap env (selects path) v.drawn v.heap = some heap := fun v hv => by
    rw [hv]
    exact hheap v.drawn
  refine Proc.Holds.get.bind fun t => Proc.Holds.of_start fun u hu => ?_
  obtain ⟨rfl, hu⟩ := hu
  set v := t.view.record (.saves (stmtsOf t path))
  refine (Proc.Holds.modify (Q := fun _ u => u.view = v) (by rintro w rfl; rfl)).bind fun _ =>
    ((transformStmts_view (v := v) (hview v hu.heap)).conseq (fun _ h => h) (fun _ _ h => h)
      fun _ _ => trivial).bind fun _ => Proc.Holds.get.bind fun w => ?_
  refine (Proc.Holds.modify (Q := fun _ u => u.heap = heap ∧ u.backup = b.backup ∧ u.lastPath = last)
    ?_).bind fun _ => ?_
  · rintro x ⟨rfl, hx⟩
    exact ⟨congrArg View.heap hx, (congrArg View.backup hx).trans hu.backup,
      (congrArg View.lastPath hx).trans hu.last⟩
  · refine Proc.Holds.of_start fun x hx => ?_
    have hback' : backTransformHeap env (selects path) x.view.heap = some b.heap := by
      change backTransformHeap env (selects path) x.heap = some b.heap
      rw [hx.1]
      exact hback
    refine ((backTransformStmts_view (v := x.view) hback').conseq (by rintro y rfl; rfl)
      (fun _ _ h => h) fun _ _ => trivial).bind fun _ =>
      (dbmsCall_view.conseq (fun _ h => h) (fun _ y hy => ?_) fun _ _ => trivial)
    exact ⟨congrArg View.heap hy, (congrArg View.backup hy).trans hx.2.1,
      (congrArg View.lastPath hy).trans hx.2.2⟩

/-- A confirmed bug shows on its path. -/
theorem crossTest_shows (hdb : Deterministic env db) (ht : NewTester path t) (bugDir : String)
    (tx : RunResult) :
    Proc.Holds (fun u => u = t) (crossTest env bugDir path tx)
      (fun bug u => bug = true → PathFixed env u.heap path ∧ Shows env db u path ∧
        u.lastPath = path) (fun _ => True) := by
  refine (runBothPaths_first hdb ht).bind fun runs => Proc.Holds.of_start fun b hfixed => ?_
  by_cases hbug : noBug tx runs.1 runs.2 = true
  · rw [if_pos hbug]
    exact Proc.Holds.pure fun _ _ h => nomatch h
  rw [if_neg hbug]
  refine Proc.Holds.bind (M := fun bugConfirmed u => (bugConfirmed = true ↔ Shows env db b path) ∧
    Between b b.lastPath u) ?_ fun bugConfirmed => Proc.Holds.of_and fun hshows => ?_
  · refine ((runBothPaths_between hdb hfixed).conseq ?_ (fun _ _ h => h) fun _ _ => trivial).bind
      fun runs => Proc.Holds.pure fun _ h => h
    rintro u rfl
    exact ⟨rfl, rfl, rfl⟩
  by_cases hconfirmed : (!bugConfirmed) = true
  · rw [if_pos hconfirmed]
    exact Proc.Holds.pure fun _ _ h => nomatch h
  rw [if_neg hconfirmed]
  have hleft : ∀ u, Between b path u → PathFixed env u.heap path ∧ Shows env db u path ∧
      u.lastPath = path := fun u hu => by
    refine ⟨by rw [hu.heap]; exact hfixed, (hu.shows_iff hfixed).2 (hshows.1 ?_), hu.last⟩
    simpa using hconfirmed
  refine (Proc.Holds.modify (Q := fun _ => Between b path)
    fun u hu => ⟨hu.heap, hu.backup, rfl⟩).bind fun _ =>
    Proc.Holds.bind (M := fun _ => Between b path) ?_ fun _ => Proc.Holds.pure fun u hu _ => hleft u hu
  by_cases hdir : bugDir ≠ ""
  · rw [if_pos hdir]
    exact saveBugReport_between hfixed
  · rw [if_neg hdir]
    exact Proc.Holds.pure fun u hu => hu

/-! The whole phase. -/

/-- The single removals of the phase no longer show the difference. -/
def OneMinimal (env : CrossEnv σ) (db : Database σ) (b : CrossState σ) (last : List PathStmt) :
    Prop :=
  ∀ i, (∃ p, last[i]? = some p ∧ isSelectLikeUsage p.usage = false) →
    ¬ Shows env db b (last.eraseIdx i)

theorem NoneRemovable.oneMinimal (h : NoneRemovable env db b [] last) :
    OneMinimal env db b last := by
  rintro i ⟨p, hp, husage⟩
  obtain ⟨hi, rfl⟩ := List.getElem?_eq_some_iff.1 hp
  have hsplit : last = last.take i ++ last[i] :: last.drop (i + 1) := by
    rw [← List.drop_eq_getElem_cons hi, List.take_append_drop]
  rw [List.eraseIdx_eq_take_drop_succ]
  exact h _ _ _ hsplit husage

/-- Phase 1 of a confirmed bug on a deterministic server: it stops, the path it leaves is a part of
the first one that shows the difference, and unless a call failed no further statement can be
removed from it alone. -/
theorem removeStmts_minimal (env : CrossEnv σ) (db : Database σ) (hdb : Deterministic env db)
    (bugDir : String) (path : List PathStmt) (tx : RunResult) (t : CrossState σ)
    (ht : NewTester path t) (hbug : (crossTest env bugDir path tx t).1 = .ok true) (fuel : ℕ)
    (hfuel : path.length < fuel) :
    let b := confirmedBug env bugDir path tx t
    ∃ result u, removeStmts env fuel b = (result, u) ∧ Left env db b path u.lastPath ∧
      (result = .ok () ∧ OneMinimal env db b u.lastPath ∨
        (∃ e, result = .error (.exception e)) ∧ ∃ v, env.fails v ≠ none) := by
  intro b
  obtain ⟨hfixed, hshows, hlast⟩ := ok_of_holds (crossTest_shows hdb ht bugDir tx) rfl
    (Prod.ext hbug rfl) rfl
  have hleft : Left env db b path path := ⟨List.Sublist.refl path, hshows⟩
  rcases removeStmts_between hdb fuel hfixed hleft hfuel b ⟨rfl, rfl, hlast⟩ with
    ⟨_, u, hrun, hu, hnone⟩ | ⟨e, u, hrun, hu, hfails⟩
  · exact ⟨_, u, hrun, hu, Or.inl ⟨rfl, hnone.oneMinimal⟩⟩
  · exact ⟨_, u, hrun, hu, Or.inr ⟨⟨e, rfl⟩, hfails⟩⟩

theorem removeStmts_minimal_insertAndSelect :
    let b := confirmedBug steadyServer "bug" insertAndSelect (0, Content.empty) newTester
    ∃ result u, removeStmts steadyServer 3 b = (result, u) ∧
      Left steadyServer wrongDatabase b insertAndSelect u.lastPath ∧
      (result = .ok () ∧ OneMinimal steadyServer wrongDatabase b u.lastPath ∨
        (∃ e, result = .error (.exception e)) ∧ ∃ v, steadyServer.fails v ≠ none) :=
  removeStmts_minimal steadyServer wrongDatabase steadyServer_deterministic "bug" insertAndSelect
    (0, Content.empty) newTester newTester_insertAndSelect (by decide +kernel) 3 (by decide)

/-- The insert is removed, and the select stays. -/
example : ((removeStmts steadyServer 3 (confirmedBug steadyServer "bug" insertAndSelect
    (0, Content.empty) newTester)).2.lastPath.map PathStmt.stmt) = [1] := by decide +kernel

end DbFuzz.Cross
