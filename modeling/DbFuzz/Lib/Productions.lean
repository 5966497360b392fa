import Mathlib.Data.List.Forall2
import Mathlib.Data.Nat.Notation

/-! Trees that local rules derive. A rule says which label a request may get and which requests
its children answer; what holds of every node is then proved rule by rule. -/

inductive LabelTree (α : Type)
  | node (label : α) (children : List (LabelTree α))

namespace LabelTree

variable {α σ ι : Type}

def label : LabelTree α → α
  | node a _ => a

def children : LabelTree α → List (LabelTree α)
  | node _ cs => cs

/-- Every node meets a condition on its label, the labels of its children and an attribute that is
passed down from the root. -/
inductive Licensed (down : σ → α → List α → ℕ → σ) (R : σ → α → List α → Prop) :
    σ → LabelTree α → Prop
  | node {s : σ} {a : α} {cs : List (LabelTree α)} : R s a (cs.map label) →
    (∀ (i : ℕ) c, cs[i]? = some c → Licensed down R (down s a (cs.map label) i) c) →
    Licensed down R s (node a cs)

/-- Every node meets a condition on its label and the labels of its children. -/
abbrev Everywhere (R : α → List α → Prop) : LabelTree α → Prop :=
  Licensed (fun _ _ _ _ => ()) (fun _ => R) ()

/-- The trees that answer a request. A rule sees the labels its children got. -/
inductive Derives (Rule : ι → α → List ι → List α → Prop) : ι → LabelTree α → Prop
  | node {r : ι} {a : α} {requests : List ι} {cs : List (LabelTree α)} :
    Rule r a requests (cs.map label) → requests.length = cs.length →
    (∀ (i : ℕ) q c, requests[i]? = some q → cs[i]? = some c → Derives Rule q c) →
    Derives Rule r (node a cs)

variable {Rule : ι → α → List ι → List α → Prop} {F : ι → α → Prop}

theorem forall₂_of_getElem? {R : ι → α → Prop} {requests : List ι} {cs : List (LabelTree α)}
    (hlength : requests.length = cs.length)
    (h : ∀ (i : ℕ) q c, requests[i]? = some q → cs[i]? = some c → R q c.label) :
    List.Forall₂ R requests (cs.map label) := by
  induction requests generalizing cs with
  | nil =>
    rw [List.length_eq_zero_iff.1 hlength.symm]
    exact .nil
  | cons q requests ih =>
    cases cs with
    | nil => cases hlength
    | cons c cs =>
      refine .cons (h 0 q c rfl rfl) (ih (Nat.succ.inj hlength) fun i q c hq hc => ?_)
      exact h (i + 1) q c hq hc

theorem Derives.of_forall₂ {r : ι} {a : α} {requests : List ι} {cs : List (LabelTree α)}
    (hr : Rule r a requests (cs.map label)) (h : List.Forall₂ (Derives Rule) requests cs) :
    Derives Rule r (LabelTree.node a cs) := by
  refine .node hr h.length_eq fun i q c hq hc => ?_
  obtain ⟨hi, rfl⟩ := List.getElem?_eq_some_iff.1 hq
  obtain ⟨hj, rfl⟩ := List.getElem?_eq_some_iff.1 hc
  exact h.get hi hj

theorem Derives.fits {r : ι} {t : LabelTree α}
    (hrule : ∀ r a requests labels, Rule r a requests labels → List.Forall₂ F requests labels →
      F r a) (h : Derives Rule r t) : F r t.label := by
  induction h with
  | node hr hlength _ ih => exact hrule _ _ _ _ hr (forall₂_of_getElem? hlength ih)

/-- What each rule keeps, given that the labels below answer their requests, holds at every node
of a derived tree. -/
theorem Derives.licensed {down : σ → α → List α → ℕ → σ} {R : σ → α → List α → Prop}
    {P : ι → σ → Prop}
    (hrule : ∀ r a requests labels, Rule r a requests labels → List.Forall₂ F requests labels →
      F r a)
    (hlocal : ∀ r a requests labels s, Rule r a requests labels →
      List.Forall₂ F requests labels → P r s →
      R s a labels ∧ ∀ (i : ℕ) q, requests[i]? = some q → P q (down s a labels i))
    {r : ι} {t : LabelTree α} {s : σ} (h : Derives Rule r t) (hat : P r s) :
    Licensed down R s t := by
  induction h generalizing s with
  | @node r a requests cs hr hlength hderives ih =>
    have hfits : List.Forall₂ F requests (cs.map label) :=
      forall₂_of_getElem? hlength fun i q c hq hc => (hderives i q c hq hc).fits hrule
    obtain ⟨hR, hdown⟩ := hlocal r a requests _ s hr hfits hat
    refine .node hR fun i c hc => ?_
    have hi : i < requests.length := by
      rw [hlength]
      exact (List.getElem?_eq_some_iff.1 hc).1
    have hq : requests[i]? = some requests[i] := List.getElem?_eq_getElem hi
    exact ih i _ c hq hc (hdown i _ hq)

theorem Derives.everywhere {R : α → List α → Prop}
    (hrule : ∀ r a requests labels, Rule r a requests labels → List.Forall₂ F requests labels →
      F r a ∧ R a labels)
    {r : ι} {t : LabelTree α} (h : Derives Rule r t) : F r t.label ∧ t.Everywhere R := by
  refine ⟨h.fits fun r a requests labels hr hfits => (hrule r a requests labels hr hfits).1, ?_⟩
  refine h.licensed (P := fun _ _ => True) (fun r a requests labels hr hfits =>
    (hrule r a requests labels hr hfits).1) (fun r a requests labels _ hr hfits _ =>
    ⟨(hrule r a requests labels hr hfits).2, fun _ _ _ => trivial⟩) trivial

end LabelTree
