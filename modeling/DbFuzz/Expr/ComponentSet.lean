import DbFuzz.Expr.ComponentIds

/-! `setComponentFromId` replaces an item in the tree of a statement. -/

namespace DbFuzz.Components

open IdTree (replace replaceSlots replaceHere)

namespace Outcome

variable {α β γ : Type}

def ofOption : Option α → Outcome α
  | some a => replaced a
  | none => unchanged

theorem ofOption_or (a b : Option α) : ofOption (a.or b) = (ofOption a).orElse (ofOption b) := by
  cases a <;> rfl

theorem ofOption_map (f : α → β) (a : Option α) : ofOption (a.map f) = (ofOption a).map f := by
  cases a <;> rfl

theorem map_orElse (f : α → β) (a b : Outcome α) :
    (a.orElse b).map f = (a.map f).orElse (b.map f) := by
  cases a <;> rfl

theorem map_map (f : α → β) (g : β → γ) (a : Outcome α) :
    (a.map f).map g = a.map fun x => g (f x) := by
  cases a <;> rfl

end Outcome

open Outcome (ofOption)

/-- Replacing in a tree comes to the same as replacing in what the tree was made from. -/
def Replaces {α : Type} (id : ℤ) (x : ValueExpr) (view : α → Tree) (e : α) (out : Outcome α) :
    Prop :=
  IdTree.Meets Label.untransformed id x.view (view e) →
    ofOption (replace id x.view (view e)) = out.map view

/-- The same of a child in a slot. -/
def ReplacesHere {α : Type} (id : ℤ) (x : ValueExpr) (strict : Bool) (view : α → Tree) (e : α)
    (out : Outcome α) : Prop :=
  IdTree.MeetsHere Label.untransformed id x.view strict (view e) →
    ofOption (replaceHere id x.view strict (view e)) = out.map view

theorem ValueExpr.special_view (e : ValueExpr) : e.view.special = (Pointer.boolValue (some e)).isSome := by
  cases e with
  | value i b form => rfl
  | bool expr => cases expr <;> rfl

theorem ValueExpr.view_withComponentId (e : ValueExpr) (id : ℤ) :
    (e.withComponentId id).view = e.view.withId id := by
  cases e with
  | value i b form => rfl
  | bool expr => cases expr <;> rfl

theorem BoolExpr.view_withComponentId (e : BoolExpr) (id : ℤ) :
    (e.withComponentId id).view = e.view.withId id := by
  cases e <;> rfl

theorem Replaces.child {id : ℤ} {x e : ValueExpr}
    (h : Replaces id x ValueExpr.view e (e.setComponentFromId id (some x))) :
    ReplacesHere id x false ValueExpr.view e
      (setChild id (some x) e (e.setComponentFromId id (some x))) := by
  intro hmeets
  rw [replaceHere, setChild, ValueExpr.hasId_view]
  by_cases hid : e.componentId = id
  · simp [hid, ofOption, Outcome.map, ValueExpr.view_withComponentId]
  · rw [if_neg hid, if_neg (by simp [hid])]
    exact h (hmeets.resolve_left (by simp [ValueExpr.hasId_view, hid]))

theorem Replaces.boolChild {id : ℤ} {x : ValueExpr} {e : BoolExpr}
    (h : Replaces id x BoolExpr.view e (e.setComponentFromId id (some x))) :
    ReplacesHere id x true BoolExpr.view e
      (setBoolChild id (some x) e (e.setComponentFromId id (some x))) := by
  intro hmeets
  rw [replaceHere, setBoolChild, BoolExpr.hasId_view]
  cases x with
  | value i b form =>
    rw [if_neg (by simp [ValueExpr.view, IdTree.special])]
    exact h (hmeets.resolve_left (by simp [ValueExpr.view, IdTree.special]))
  | bool b =>
    by_cases hid : e.componentId = id
    · have hspecial : (ValueExpr.bool b).view.special = true := by
        rw [ValueExpr.special_view]
        rfl
      rw [if_pos ⟨by simp [hid], Or.inl hspecial⟩]
      simp [hid, ofOption, Outcome.map, Pointer.boolValue, ValueExpr.view,
        BoolExpr.view_withComponentId]
    · rw [if_neg (by simp [hid]), Pointer.boolValue]
      simp only [hid, if_false]
      exact h (hmeets.resolve_left (by simp [BoolExpr.hasId_view, hid]))

theorem Replaces.group {α : Type} {id : ℤ} {x : ValueExpr} {kind : Kind} {slots : Slots}
    {view : α → Tree} {e : α} {out : Outcome α} (hview : view e = Components.group kind slots)
    (h : IdTree.MeetsSlots Label.untransformed id x.view slots →
      (ofOption (replaceSlots id x.view false slots)).map (Components.group kind) =
        out.map view) : Replaces id x view e out := by
  intro hmeets
  rw [hview, Components.group, IdTree.Meets] at hmeets
  rw [hview, Components.group, replace, Outcome.ofOption_map]
  exact h hmeets.2

theorem Replaces.here {α : Type} {id : ℤ} {x : ValueExpr} {kind : Kind} {slots : Slots}
    {view : α → Tree} {e : α} {out : Outcome α} (hview : view e = Components.group kind slots)
    (h : Replaces id x view e out) : ReplacesHere id x false view e out := by
  intro hmeets
  have hgroup : (view e).hasId id = false := by
    rw [hview]
    rfl
  rw [replaceHere, if_neg (by simp [hgroup])]
  exact h (hmeets.resolve_left (by simp [hgroup]))

theorem ReplacesHere.group {α : Type} {id : ℤ} {x : ValueExpr} {kind : Kind} {slots : Slots}
    {view : α → Tree} {e : α} {out : Outcome α} (hview : view e = Components.group kind slots)
    (h : IdTree.MeetsSlots Label.untransformed id x.view slots →
      (ofOption (replaceSlots id x.view false slots)).map (Components.group kind) =
        out.map view) : ReplacesHere id x false view e out :=
  (Replaces.group hview h).here hview

attribute [local simp] IdTree.replaceSlots_cons Outcome.ofOption_or Outcome.ofOption_map
  Outcome.map_orElse Outcome.map_map

theorem ofOption_replaceSlots_nil (id : ℤ) (x : Tree) (firstLast : Bool) :
    ofOption (replaceSlots id x firstLast (.nil : Slots)) = .unchanged := by
  rw [replaceSlots, ofOption]

@[simp]
theorem Outcome.map_unchanged {α β : Type} (f : α → β) : (unchanged : Outcome α).map f = unchanged :=
  rfl

@[simp]
theorem Outcome.unchanged_orElse {α : Type} (a : Outcome α) : unchanged.orElse a = a := rfl

@[simp]
theorem Outcome.orElse_unchanged {α : Type} (a : Outcome α) : a.orElse unchanged = a := by
  cases a <;> rfl

attribute [local simp] ofOption_replaceSlots_nil

mutual

theorem ValueExpr.replaces {id : ℤ} {x : ValueExpr} : ∀ {e : ValueExpr},
    Replaces id x ValueExpr.view e (e.setComponentFromId id (some x))
  | .value i b form => fun hmeets => by
    rw [ValueExpr.view, IdTree.Meets] at hmeets
    have hform := congrArg
      (Outcome.map fun p => (.item i false ⟨p.1, b⟩ false p.2 : Tree))
      (ValueForm.replaces hmeets.2)
    rw [ValueExpr.view, replace, ValueExpr.setComponentFromId]
    simpa [ValueExpr.view] using hform
  | .bool expr => fun hmeets => by
    rw [ValueExpr.view, ValueExpr.setComponentFromId, BoolExpr.replaces hmeets, Outcome.map_map]
    rfl

theorem ValueForm.replaces {id : ℤ} {x : ValueExpr} : ∀ {f : ValueForm},
    IdTree.MeetsSlots Label.untransformed id x.view f.slots →
      (ofOption (replaceSlots id x.view false f.slots)).map (fun s => (f.kind, s)) =
        (f.setComponentFromId id (some x)).map fun g => (g.kind, g.slots)
  | .kept _ => fun _ => by simp [ValueForm.slots, ValueForm.setComponentFromId]
  | .binopExpr _ l r => fun h => by
    simp only [ValueForm.slots, IdTree.meetsSlots_cons] at h
    have hl := ValueExpr.replaces.child h.1
    have hr := ValueExpr.replaces.child h.2.1
    simp [ValueForm.slots, ValueForm.kind, ValueForm.setComponentFromId, hl, hr]
  | .caseExpr c t f => fun h => by
    simp only [ValueForm.slots, IdTree.meetsSlots_cons] at h
    have hc := BoolExpr.replaces.boolChild h.1
    have ht := ValueExpr.replaces.child h.2.1
    have hf := ValueExpr.replaces.child h.2.2.1
    simp [ValueForm.slots, ValueForm.kind, ValueForm.setComponentFromId, hc, ht, hf]
  | .coalesce _ es => fun h => by
    simp [ValueForm.slots, ValueForm.kind, ValueForm.setComponentFromId, Exprs.replaces h]
  | .funcall _ es => fun h => by
    simp [ValueForm.slots, ValueForm.kind, ValueForm.setComponentFromId, Exprs.replaces h]
  | .winFuncall _ es => fun h => by
    simp [ValueForm.slots, ValueForm.kind, ValueForm.setComponentFromId, Exprs.replaces h]
  | .castExpr _ e => fun h => by
    simp only [ValueForm.slots, IdTree.meetsSlots_cons] at h
    have he := ValueExpr.replaces.child h.1
    simp [ValueForm.slots, ValueForm.kind, ValueForm.setComponentFromId, he]
  | .intervalExpr _ _ d a => fun h => by
    simp only [ValueForm.slots, IdTree.meetsSlots_cons] at h
    have hd := ValueExpr.replaces.child h.1
    have ha := ValueExpr.replaces.child h.2.1
    simp [ValueForm.slots, ValueForm.kind, ValueForm.setComponentFromId, hd, ha]
  | .mysqlJsonOp _ _ l => fun h => by
    simp only [ValueForm.slots, IdTree.meetsSlots_cons] at h
    have hl := ValueExpr.replaces.child h.1
    simp [ValueForm.slots, ValueForm.kind, ValueForm.setComponentFromId, hl]

theorem Exprs.replaces {id : ℤ} {x : ValueExpr} : ∀ {es : Exprs},
    IdTree.MeetsSlots Label.untransformed id x.view es.slots →
      ofOption (replaceSlots id x.view false es.slots) =
        (es.setComponentFromId id (some x)).map Exprs.slots
  | .nil => fun _ => by simp [Exprs.slots, Exprs.setComponentFromId]
  | .cons e rest => fun h => by
    simp only [Exprs.slots, IdTree.meetsSlots_cons] at h
    have he := ValueExpr.replaces.child h.1
    have hrest := Exprs.replaces h.2
    simp [Exprs.slots, Exprs.setComponentFromId, he, hrest]

theorem BoolExpr.replaces {id : ℤ} {x : ValueExpr} : ∀ {e : BoolExpr},
    Replaces id x BoolExpr.view e (e.setComponentFromId id (some x))
  | .node i b form => fun hmeets => by
    rw [BoolExpr.view, IdTree.Meets] at hmeets
    have hform := congrArg
      (Outcome.map fun p => (.item i true ⟨p.1, b⟩ p.2.1 p.2.2 : Tree))
      (BoolForm.replaces hmeets.2)
    rw [BoolExpr.view, replace, BoolExpr.setComponentFromId]
    simpa [BoolExpr.view] using hform
  | .transformedTerm _ _ _ _ _ => fun hmeets => by
    rw [BoolExpr.view, IdTree.Meets] at hmeets
    exact absurd hmeets.1 Bool.false_ne_true.symm

theorem BoolForm.replaces {id : ℤ} {x : ValueExpr} : ∀ {f : BoolForm},
    IdTree.MeetsSlots Label.untransformed id x.view f.slots →
      (ofOption (replaceSlots id x.view f.lhsLast f.slots)).map
          (fun s => (f.kind, f.lhsLast, s)) =
        (f.setComponentFromId id (some x)).map fun g => (g.kind, g.lhsLast, g.slots)
  | .kept _ => fun _ => by simp [BoolForm.slots, BoolForm.setComponentFromId]
  | .boolBinop _ l r => fun h => by
    simp only [BoolForm.slots, IdTree.meetsSlots_cons] at h
    have hl := ValueExpr.replaces.child h.1
    have hr := ValueExpr.replaces.child h.2.1
    simp [BoolForm.slots, BoolForm.kind, BoolForm.lhsLast, BoolForm.setComponentFromId, hl, hr]
  | .boolTerm _ l r => fun h => by
    simp only [BoolForm.slots, IdTree.meetsSlots_cons] at h
    have hl := ValueExpr.replaces.child h.1
    have hr := ValueExpr.replaces.child h.2.1
    simp [BoolForm.slots, BoolForm.kind, BoolForm.lhsLast, BoolForm.setComponentFromId, hl, hr]
  | .notExpr e => fun h => by
    simp only [BoolForm.slots, IdTree.meetsSlots_cons] at h
    have he := BoolExpr.replaces.boolChild h.1
    simp [BoolForm.slots, BoolForm.kind, BoolForm.lhsLast, BoolForm.setComponentFromId, he]
  | .nullPredicate _ e => fun h => by
    simp only [BoolForm.slots, IdTree.meetsSlots_cons] at h
    have he := ValueExpr.replaces.child h.1
    simp [BoolForm.slots, BoolForm.kind, BoolForm.lhsLast, BoolForm.setComponentFromId, he]
  | .likeOp l _ _ => fun h => by
    simp only [BoolForm.slots, IdTree.meetsSlots_cons] at h
    have hl := ValueExpr.replaces.child h.1
    simp [BoolForm.slots, BoolForm.kind, BoolForm.lhsLast, BoolForm.setComponentFromId, hl]
  | .betweenOp l m r => fun h => by
    simp only [BoolForm.slots, IdTree.meetsSlots_cons] at h
    have hl := ValueExpr.replaces.child h.1
    have hm := ValueExpr.replaces.child h.2.1
    have hr := ValueExpr.replaces.child h.2.2.1
    simp [BoolForm.slots, BoolForm.kind, BoolForm.lhsLast, BoolForm.setComponentFromId, hl, hm, hr]
  | .inQuery _ l q => fun h => by
    simp only [BoolForm.slots, IdTree.meetsSlots_cons] at h
    have hl := ValueExpr.replaces.child h.1
    have hq := Subquery.replaces h.2.1
    simp [BoolForm.slots, BoolForm.kind, BoolForm.lhsLast, BoolForm.setComponentFromId, hl, hq]
  | .existsPredicate q => fun h => by
    simp only [BoolForm.slots, IdTree.meetsSlots_cons] at h
    have hq := Subquery.replaces h.1
    simp [BoolForm.slots, BoolForm.kind, BoolForm.lhsLast, BoolForm.setComponentFromId, hq]
  | .compSubquery l _ q => fun h => by
    simp only [BoolForm.slots, IdTree.meetsSlots_cons] at h
    have hl := ValueExpr.replaces.child h.1
    have hq := Subquery.replaces h.2.1
    simp [BoolForm.slots, BoolForm.kind, BoolForm.lhsLast, BoolForm.setComponentFromId, hl, hq]

theorem Subquery.replaces {id : ℤ} {x : ValueExpr} : ∀ {q : Subquery},
    ReplacesHere id x false Subquery.view q (q.setComponentFromId id (some x))
  | .spec _ s => .group (by rw [Subquery.view]) fun h => by
    have hs := BoolExpr.replaces.boolChild (IdTree.meetsSlots_cons.1 h).1
    simp [Subquery.view, Subquery.setComponentFromId, hs]
  | .union _ l r => .group (by rw [Subquery.view]) fun h => by
    simp only [IdTree.meetsSlots_cons] at h
    have hl := BoolExpr.replaces.boolChild h.1
    have hr := BoolExpr.replaces.boolChild h.2.1
    simp [Subquery.view, Subquery.setComponentFromId, hl, hr]

end

theorem exprs_replaces {id : ℤ} {x : ValueExpr} {es : Exprs} :
    ReplacesHere id x false (fun es => group .exprs es.slots) es
      (es.setComponentFromId id (some x)) := .group rfl fun h => by
  rw [Exprs.replaces h, Outcome.map_map]

section

variable {targetDbms : String}

mutual

theorem QuerySpec.replaces {id : ℤ} {x : ValueExpr} : ∀ {q : QuerySpec},
    ReplacesHere id x false (QuerySpec.view targetDbms) q
      (q.setCompFromIdQuery targetDbms id (some x))
  | .mk _ l f s none => by
    cases hv : visitsSelect targetDbms none with
    | true =>
      refine .group (by rw [QuerySpec.view, if_pos hv]) fun h => ?_
      simp only [IdTree.meetsSlots_cons] at h
      have hl := exprs_replaces h.1
      have hf := TableRef.replaces h.2.1
      have hs := BoolExpr.replaces.boolChild h.2.2.1
      simp [QuerySpec.setCompFromIdQuery, QuerySpec.view, havingSlots, setCompFromIdHaving, hv,
        hl, hf, hs]
    | false =>
      refine .group (by rw [QuerySpec.view, if_neg (by simp [hv])]) fun h => ?_
      simp only [IdTree.meetsSlots_cons] at h
      have hf := TableRef.replaces h.1
      have hs := BoolExpr.replaces.boolChild h.2.1
      simp [QuerySpec.setCompFromIdQuery, QuerySpec.view, havingSlots, setCompFromIdHaving, hv,
        hf, hs]
  | .mk _ _ f s (some e) => by
    have hv (e' : BoolExpr) : visitsSelect targetDbms (some e') = false := by simp [visitsSelect]
    refine .group (by rw [QuerySpec.view, if_neg (by simp [hv])]) fun h => ?_
    simp only [havingSlots, IdTree.meetsSlots_cons] at h
    have hf := TableRef.replaces h.1
    have hs := BoolExpr.replaces.boolChild h.2.1
    have he := BoolExpr.replaces.boolChild h.2.2.1
    simp [QuerySpec.setCompFromIdQuery, QuerySpec.view, havingSlots, setCompFromIdHaving, hv,
      hf, hs, he]

theorem TableRef.replaces {id : ℤ} {x : ValueExpr} : ∀ {t : TableRef},
    ReplacesHere id x false (TableRef.view targetDbms) t
      (t.setCompFromIdTable targetDbms id (some x))
  | .tableOrQueryName _ => .group (by rw [TableRef.view]) fun h => by
    simp [TableRef.setCompFromIdTable]
  | .tableSubquery _ q => .group (by rw [TableRef.view]) fun h => by
    simp only [IdTree.meetsSlots_cons] at h
    have hq := QuerySpec.replaces h.1
    simp [TableRef.view, TableRef.setCompFromIdTable, hq]
  | .joinedTable _ l r => .group (by rw [TableRef.view]) fun h => by
    simp only [IdTree.meetsSlots_cons] at h
    have hl := TableRef.replaces h.1
    have hr := TableRef.replaces h.2.1
    simp [TableRef.view, TableRef.setCompFromIdTable, hl, hr]

end

theorem WithQueries.replaces {id : ℤ} {x : ValueExpr} : ∀ {w : WithQueries},
    IdTree.MeetsSlots Label.untransformed id x.view (w.slots targetDbms) →
      ofOption (replaceSlots id x.view false (w.slots targetDbms)) =
        (w.setCompFromId targetDbms id (some x)).map (WithQueries.slots targetDbms)
  | .nil => fun _ => by simp [WithQueries.slots, WithQueries.setCompFromId]
  | .cons _ rest => fun h => by
    simp only [WithQueries.slots, IdTree.meetsSlots_cons] at h
    have hq := QuerySpec.replaces h.1
    have hrest := WithQueries.replaces h.2
    simp [WithQueries.slots, WithQueries.setCompFromId, hq, hrest]

theorem withQueries_replaces {id : ℤ} {x : ValueExpr} {w : WithQueries} :
    ReplacesHere id x false (fun w => group .withQueries (w.slots targetDbms)) w
      (w.setCompFromId targetDbms id (some x)) := .group rfl fun h => by
  rw [WithQueries.replaces h, Outcome.map_map]

theorem Statement.replaces {id : ℤ} {x : ValueExpr} : ∀ {s : Statement},
    Replaces id x (Statement.view targetDbms) s (s.setCompFromIdQuery targetDbms id (some x))
  | .select _ => .group (by rw [Statement.view]) fun h => by
    have hq := QuerySpec.replaces (IdTree.meetsSlots_cons.1 h).1
    simp [Statement.view, Statement.setCompFromIdQuery, hq]
  | .commonTableExpression _ _ _ => .group (by rw [Statement.view]) fun h => by
    simp only [IdTree.meetsSlots_cons] at h
    have hq := QuerySpec.replaces h.1
    have hw := withQueries_replaces h.2.1
    simp [Statement.view, Statement.setCompFromIdQuery, hq, hw]
  | .update _ _ _ => .group (by rw [Statement.view]) fun h => by
    simp only [IdTree.meetsSlots_cons] at h
    have hl := exprs_replaces h.1
    have he := BoolExpr.replaces.boolChild h.2.1
    simp [Statement.view, Statement.setCompFromIdQuery, hl, he]
  | .delete _ _ => .group (by rw [Statement.view]) fun h => by
    have he := BoolExpr.replaces.boolChild (IdTree.meetsSlots_cons.1 h).1
    simp [Statement.view, Statement.setCompFromIdQuery, he]

end

end DbFuzz.Components
