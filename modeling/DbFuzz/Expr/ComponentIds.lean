import DbFuzz.Expr.ComponentTree

/-! `getComponentFromId` looks an item up in the tree of a statement and `setComponentId` numbers
it. -/

namespace DbFuzz.Components

open IdTree (number numberSlots find findSlots findHere)

/-! Looking up. -/

theorem ValueExpr.hasId_view {e : ValueExpr} {id : ℤ} :
    e.view.hasId id = decide (e.componentId = id) := by
  cases e with
  | value i b form => rfl
  | bool expr => cases expr <;> rfl

theorem BoolExpr.hasId_view {e : BoolExpr} {id : ℤ} :
    e.view.hasId id = decide (e.componentId = id) := ValueExpr.hasId_view (e := .bool e)

theorem findHere_view {e : ValueExpr} {id : ℤ}
    (h : find id e.view = (e.getComponentFromId id).map ValueExpr.view) :
    findHere id e.view = (getChild id e (e.getComponentFromId id)).map ValueExpr.view := by
  rw [findHere, getChild, ValueExpr.hasId_view, h]
  by_cases hid : e.componentId = id <;> simp [hid]

theorem findHere_boolView {e : BoolExpr} {id : ℤ}
    (h : find id e.view = (e.getComponentFromId id).map ValueExpr.view) :
    findHere id e.view = (getChild id (.bool e) (e.getComponentFromId id)).map ValueExpr.view := by
  have hbool := @findHere_view (.bool e) id
  simp only [ValueExpr.view, ValueExpr.getComponentFromId] at hbool
  exact hbool h

theorem find_group (id : ℤ) (kind : Kind) (slots : Slots) :
    find id (group kind slots) = findSlots id false slots := by
  rw [group, find]

theorem findHere_group (id : ℤ) (kind : Kind) (slots : Slots) :
    findHere id (group kind slots) = findSlots id false slots := by
  rw [← find_group id kind]
  rfl

attribute [local simp] IdTree.findSlots_cons findHere_group Option.map_or

theorem findSlots_nil (id : ℤ) (firstLast : Bool) :
    findSlots id firstLast (.nil : Slots) = none := by rw [findSlots]

attribute [local simp] findSlots_nil

mutual

theorem ValueExpr.find_view {id : ℤ} : ∀ {e : ValueExpr},
    find id e.view = (e.getComponentFromId id).map ValueExpr.view
  | .value _ _ form => by
    rw [ValueExpr.view, find, form.find_slots, ValueExpr.getComponentFromId]
  | .bool expr => by rw [ValueExpr.view, expr.find_view, ValueExpr.getComponentFromId]

theorem ValueForm.find_slots {id : ℤ} : ∀ {f : ValueForm},
    findSlots id false f.slots = (f.getComponentFromId id).map ValueExpr.view
  | .kept _ => by simp [ValueForm.slots, ValueForm.getComponentFromId]
  | .binopExpr _ l r => by
    simp [ValueForm.slots, ValueForm.getComponentFromId, findHere_view l.find_view,
      findHere_view r.find_view]
  | .caseExpr c t f => by
    simp [ValueForm.slots, ValueForm.getComponentFromId, findHere_boolView c.find_view,
      findHere_view t.find_view, findHere_view f.find_view]
  | .coalesce _ es => by simp [ValueForm.slots, ValueForm.getComponentFromId, es.find_slots]
  | .funcall _ es => by simp [ValueForm.slots, ValueForm.getComponentFromId, es.find_slots]
  | .winFuncall _ es => by simp [ValueForm.slots, ValueForm.getComponentFromId, es.find_slots]
  | .castExpr _ e => by
    simp [ValueForm.slots, ValueForm.getComponentFromId, findHere_view e.find_view]
  | .intervalExpr _ _ d a => by
    simp [ValueForm.slots, ValueForm.getComponentFromId, findHere_view d.find_view,
      findHere_view a.find_view]
  | .mysqlJsonOp _ _ l => by
    simp [ValueForm.slots, ValueForm.getComponentFromId, findHere_view l.find_view]

theorem Exprs.find_slots {id : ℤ} : ∀ {es : Exprs},
    findSlots id false es.slots = (es.getComponentFromId id).map ValueExpr.view
  | .nil => by simp [Exprs.slots, Exprs.getComponentFromId]
  | .cons e rest => by
    simp [Exprs.slots, Exprs.getComponentFromId, findHere_view e.find_view, rest.find_slots]

theorem BoolExpr.find_view {id : ℤ} : ∀ {e : BoolExpr},
    find id e.view = (e.getComponentFromId id).map ValueExpr.view
  | .node _ _ form => by
    rw [BoolExpr.view, find, form.find_slots, BoolExpr.getComponentFromId]
  | .transformedTerm _ _ l r e => by
    simp [BoolExpr.view, BoolExpr.getComponentFromId, find, findHere_view l.find_view,
      findHere_view r.find_view, findHere_boolView e.find_view]

theorem BoolForm.find_slots {id : ℤ} : ∀ {f : BoolForm},
    findSlots id f.lhsLast f.slots = (f.getComponentFromId id).map ValueExpr.view
  | .kept _ => by simp [BoolForm.slots, BoolForm.getComponentFromId]
  | .boolBinop _ l r => by
    simp [BoolForm.slots, BoolForm.lhsLast, BoolForm.getComponentFromId,
      findHere_view l.find_view, findHere_view r.find_view]
  | .boolTerm _ l r => by
    simp [BoolForm.slots, BoolForm.lhsLast, BoolForm.getComponentFromId,
      findHere_view l.find_view, findHere_view r.find_view]
  | .notExpr e => by
    simp [BoolForm.slots, BoolForm.lhsLast, BoolForm.getComponentFromId,
      findHere_boolView e.find_view]
  | .nullPredicate _ e => by
    simp [BoolForm.slots, BoolForm.lhsLast, BoolForm.getComponentFromId, findHere_view e.find_view]
  | .likeOp l _ _ => by
    simp [BoolForm.slots, BoolForm.lhsLast, BoolForm.getComponentFromId, findHere_view l.find_view]
  | .betweenOp l m r => by
    simp [BoolForm.slots, BoolForm.lhsLast, BoolForm.getComponentFromId,
      findHere_view l.find_view, findHere_view m.find_view, findHere_view r.find_view]
  | .inQuery _ l q => by
    simp [BoolForm.slots, BoolForm.lhsLast, BoolForm.getComponentFromId,
      findHere_view l.find_view, q.find_view]
  | .existsPredicate q => by
    simp [BoolForm.slots, BoolForm.lhsLast, BoolForm.getComponentFromId, q.find_view]
  | .compSubquery l _ q => by
    simp [BoolForm.slots, BoolForm.lhsLast, BoolForm.getComponentFromId,
      findHere_view l.find_view, q.find_view]

/-- A subquery is no component itself. -/
theorem Subquery.find_view {id : ℤ} : ∀ {q : Subquery},
    findHere id q.view = (q.getComponentFromId id).map ValueExpr.view
  | .spec _ s => by
    simp [Subquery.view, Subquery.getComponentFromId, findHere_boolView s.find_view]
  | .union _ l r => by
    simp [Subquery.view, Subquery.getComponentFromId, findHere_boolView l.find_view,
      findHere_boolView r.find_view]

end

theorem find_havingSlots {id : ℤ} : ∀ {h : Option BoolExpr},
    findSlots id false (havingSlots h) = (getCompFromIdHaving id h).map ValueExpr.view
  | none => by simp [havingSlots, getCompFromIdHaving]
  | some s => by
    simp [havingSlots, getCompFromIdHaving, findHere_boolView s.find_view]

mutual

theorem QuerySpec.find_view {targetDbms : String} {id : ℤ} : ∀ {q : QuerySpec},
    findHere id (q.view targetDbms) = (q.getCompFromIdQuery targetDbms id).map ValueExpr.view
  | .mk _ l f s h => by
    rw [QuerySpec.view, QuerySpec.getCompFromIdQuery]
    split <;> simp [l.find_slots, f.find_view, findHere_boolView s.find_view, find_havingSlots]

theorem TableRef.find_view {targetDbms : String} {id : ℤ} : ∀ {t : TableRef},
    findHere id (t.view targetDbms) = (t.getCompFromIdTable targetDbms id).map ValueExpr.view
  | .tableOrQueryName _ => by simp [TableRef.view, TableRef.getCompFromIdTable]
  | .tableSubquery _ q => by simp [TableRef.view, TableRef.getCompFromIdTable, q.find_view]
  | .joinedTable _ l r => by
    simp [TableRef.view, TableRef.getCompFromIdTable, l.find_view, r.find_view]

end

theorem WithQueries.find_slots {targetDbms : String} {id : ℤ} : ∀ {w : WithQueries},
    findSlots id false (w.slots targetDbms) =
      (w.getCompFromId targetDbms id).map ValueExpr.view
  | .nil => by simp [WithQueries.slots, WithQueries.getCompFromId]
  | .cons q rest => by
    simp [WithQueries.slots, WithQueries.getCompFromId, q.find_view, rest.find_slots]

theorem Statement.find_view {targetDbms : String} {id : ℤ} (s : Statement) :
    find id (s.view targetDbms) = (s.getCompFromIdQuery targetDbms id).map ValueExpr.view := by
  cases s <;>
    simp [Statement.view, Statement.getCompFromIdQuery, find_group, QuerySpec.find_view,
      WithQueries.find_slots, Exprs.find_slots, findHere_boolView BoolExpr.find_view]

/-! Numbering. -/

/-- What the numbering of a part with these slots comes to. -/
structure Numbered (before after : Slots) (n m : ℤ) : Prop where
  slots : numberSlots before n = (after, m)
  untransformed : IdTree.AllSlots Label.untransformed after

theorem Numbered.nil (n : ℤ) : Numbered .nil .nil n n :=
  ⟨by rw [numberSlots], by rw [IdTree.AllSlots]; trivial⟩

theorem Numbered.cons {t t' : Tree} {rest rest' : Slots} {b : Bool} {n m k : ℤ}
    (ht : number t n = (t', m) ∧ IdTree.All Label.untransformed t')
    (hrest : Numbered rest rest' m k) : Numbered (.cons b t rest) (.cons b t' rest') n k :=
  ⟨by rw [numberSlots, ht.1, hrest.slots],
    by rw [IdTree.AllSlots]; exact ⟨ht.2, hrest.untransformed⟩⟩

theorem Numbered.group {kind : Kind} {s s' : Slots} {n m : ℤ} (h : Numbered s s' n m) :
    number (Components.group kind s) n = (Components.group kind s', m) ∧
      IdTree.All Label.untransformed (Components.group kind s') :=
  ⟨by rw [Components.group, number, h.slots]; rfl,
    by rw [Components.group, IdTree.All]; exact ⟨rfl, h.untransformed⟩⟩

theorem Numbered.item {kind : Kind} {s s' : Slots} {n m i : ℤ} {special firstLast : Bool}
    (h : Numbered s s' (n + 1) m) :
    number (.item i special ⟨kind, false⟩ firstLast s) n =
        (.item n special ⟨kind, false⟩ firstLast s', m) ∧
      IdTree.All Label.untransformed (.item n special ⟨kind, false⟩ firstLast s') :=
  ⟨by rw [number, h.slots], by rw [IdTree.All]; exact ⟨rfl, h.untransformed⟩⟩

theorem Numbered.one {t t' : Tree} {b : Bool} {n m : ℤ}
    (h : number t n = (t', m) ∧ IdTree.All Label.untransformed t') :
    Numbered (.cons b t .nil) (.cons b t' .nil) n m := .cons h (.nil m)

theorem Numbered.two {t t' u u' : Tree} {b c : Bool} {n m k : ℤ}
    (ht : number t n = (t', m) ∧ IdTree.All Label.untransformed t')
    (hu : number u m = (u', k) ∧ IdTree.All Label.untransformed u') :
    Numbered (.cons b t (.cons c u .nil)) (.cons b t' (.cons c u' .nil)) n k :=
  .cons ht (.one hu)

theorem Numbered.three {t t' u u' v v' : Tree} {b c d : Bool} {n m k l : ℤ}
    (ht : number t n = (t', m) ∧ IdTree.All Label.untransformed t')
    (hu : number u m = (u', k) ∧ IdTree.All Label.untransformed u')
    (hv : number v k = (v', l) ∧ IdTree.All Label.untransformed v') :
    Numbered (.cons b t (.cons c u (.cons d v .nil))) (.cons b t' (.cons c u' (.cons d v' .nil)))
      n l := .cons ht (.two hu hv)

mutual

theorem ValueExpr.number_view : ∀ {e : ValueExpr} {n : ℤ} {r : ValueExpr × ℤ},
    e.setComponentId n = some r →
      number e.view n = (r.1.view, r.2) ∧ IdTree.All Label.untransformed r.1.view
  | .value _ true _, _, _, h => by simp [ValueExpr.setComponentId] at h
  | .value _ false form, n, _, h => by
    simp only [ValueExpr.setComponentId, Bool.false_eq_true, if_false, Option.bind_eq_bind,
      Option.bind_eq_some_iff, Option.pure_def, Option.some.injEq] at h
    obtain ⟨f, hf, rfl⟩ := h
    obtain ⟨hkind, hslots⟩ := form.number_slots hf
    rw [ValueExpr.view, ValueExpr.view, hkind]
    exact hslots.item
  | .bool expr, _, _, h => by
    simp only [ValueExpr.setComponentId, Option.bind_eq_bind, Option.bind_eq_some_iff,
      Option.pure_def, Option.some.injEq] at h
    obtain ⟨e, he, rfl⟩ := h
    exact expr.number_view he

theorem ValueForm.number_slots : ∀ {f : ValueForm} {n : ℤ} {r : ValueForm × ℤ},
    f.setComponentId n = some r → r.1.kind = f.kind ∧ Numbered f.slots r.1.slots n r.2
  | .kept _, n, _, h => by
    obtain rfl := Option.some.inj h
    exact ⟨rfl, .nil n⟩
  | .binopExpr _ _ _, _, _, h => by
    simp only [ValueForm.setComponentId, Option.bind_eq_bind, Option.bind_eq_some_iff,
      Option.pure_def, Option.some.injEq] at h
    obtain ⟨l, hl, r, hr, rfl⟩ := h
    exact ⟨rfl, .two (ValueExpr.number_view hl) (ValueExpr.number_view hr)⟩
  | .caseExpr _ _ _, _, _, h => by
    simp only [ValueForm.setComponentId, Option.bind_eq_bind, Option.bind_eq_some_iff,
      Option.pure_def, Option.some.injEq] at h
    obtain ⟨c, hc, t, ht, f, hf, rfl⟩ := h
    exact ⟨rfl, .three (BoolExpr.number_view hc) (ValueExpr.number_view ht)
      (ValueExpr.number_view hf)⟩
  | .coalesce _ _, _, _, h => by
    simp only [ValueForm.setComponentId, Option.bind_eq_bind, Option.bind_eq_some_iff,
      Option.pure_def, Option.some.injEq] at h
    obtain ⟨es, hes, rfl⟩ := h
    exact ⟨rfl, Exprs.number_slots hes⟩
  | .funcall _ _, _, _, h => by
    simp only [ValueForm.setComponentId, Option.bind_eq_bind, Option.bind_eq_some_iff,
      Option.pure_def, Option.some.injEq] at h
    obtain ⟨es, hes, rfl⟩ := h
    exact ⟨rfl, Exprs.number_slots hes⟩
  | .winFuncall _ _, _, _, h => by
    simp only [ValueForm.setComponentId, Option.bind_eq_bind, Option.bind_eq_some_iff,
      Option.pure_def, Option.some.injEq] at h
    obtain ⟨es, hes, rfl⟩ := h
    exact ⟨rfl, Exprs.number_slots hes⟩
  | .castExpr _ _, _, _, h => by
    simp only [ValueForm.setComponentId, Option.bind_eq_bind, Option.bind_eq_some_iff,
      Option.pure_def, Option.some.injEq] at h
    obtain ⟨e, he, rfl⟩ := h
    exact ⟨rfl, .one (ValueExpr.number_view he)⟩
  | .intervalExpr _ _ _ _, _, _, h => by
    simp only [ValueForm.setComponentId, Option.bind_eq_bind, Option.bind_eq_some_iff,
      Option.pure_def, Option.some.injEq] at h
    obtain ⟨d, hd, a, ha, rfl⟩ := h
    exact ⟨rfl, .two (ValueExpr.number_view hd) (ValueExpr.number_view ha)⟩
  | .mysqlJsonOp _ _ _, _, _, h => by
    simp only [ValueForm.setComponentId, Option.bind_eq_bind, Option.bind_eq_some_iff,
      Option.pure_def, Option.some.injEq] at h
    obtain ⟨l, hl, rfl⟩ := h
    exact ⟨rfl, .one (ValueExpr.number_view hl)⟩

theorem Exprs.number_slots : ∀ {es : Exprs} {n : ℤ} {r : Exprs × ℤ},
    es.setComponentId n = some r → Numbered es.slots r.1.slots n r.2
  | .nil, n, _, h => by
    obtain rfl := Option.some.inj h
    exact .nil n
  | .cons _ _, _, _, h => by
    simp only [Exprs.setComponentId, Option.bind_eq_bind, Option.bind_eq_some_iff,
      Option.pure_def, Option.some.injEq] at h
    obtain ⟨e, he, rest, hrest, rfl⟩ := h
    exact .cons (ValueExpr.number_view he) (Exprs.number_slots hrest)

theorem BoolExpr.number_view : ∀ {e : BoolExpr} {n : ℤ} {r : BoolExpr × ℤ},
    e.setComponentId n = some r →
      number e.view n = (r.1.view, r.2) ∧ IdTree.All Label.untransformed r.1.view
  | .node _ true _, _, _, h => by simp [BoolExpr.setComponentId] at h
  | .node _ false form, n, _, h => by
    simp only [BoolExpr.setComponentId, Bool.false_eq_true, if_false, Option.bind_eq_bind,
      Option.bind_eq_some_iff, Option.pure_def, Option.some.injEq] at h
    obtain ⟨f, hf, rfl⟩ := h
    obtain ⟨hkind, hlast, hslots⟩ := form.number_slots hf
    rw [BoolExpr.view, BoolExpr.view, hkind, hlast]
    exact hslots.item
  | .transformedTerm _ _ _ _ _, _, _, h => by simp [BoolExpr.setComponentId] at h

theorem BoolForm.number_slots : ∀ {f : BoolForm} {n : ℤ} {r : BoolForm × ℤ},
    f.setComponentId n = some r →
      r.1.kind = f.kind ∧ r.1.lhsLast = f.lhsLast ∧ Numbered f.slots r.1.slots n r.2
  | .kept _, n, _, h => by
    obtain rfl := Option.some.inj h
    exact ⟨rfl, rfl, .nil n⟩
  | .boolBinop _ _ _, _, _, h => by
    simp only [BoolForm.setComponentId, Option.bind_eq_bind, Option.bind_eq_some_iff,
      Option.pure_def, Option.some.injEq] at h
    obtain ⟨l, hl, r, hr, rfl⟩ := h
    exact ⟨rfl, rfl, .two (ValueExpr.number_view hl) (ValueExpr.number_view hr)⟩
  | .boolTerm _ _ _, _, _, h => by
    simp only [BoolForm.setComponentId, Option.bind_eq_bind, Option.bind_eq_some_iff,
      Option.pure_def, Option.some.injEq] at h
    obtain ⟨l, hl, r, hr, rfl⟩ := h
    exact ⟨rfl, rfl, .two (ValueExpr.number_view hl) (ValueExpr.number_view hr)⟩
  | .notExpr _, _, _, h => by
    simp only [BoolForm.setComponentId, Option.bind_eq_bind, Option.bind_eq_some_iff,
      Option.pure_def, Option.some.injEq] at h
    obtain ⟨e, he, rfl⟩ := h
    exact ⟨rfl, rfl, .one (BoolExpr.number_view he)⟩
  | .nullPredicate _ _, _, _, h => by
    simp only [BoolForm.setComponentId, Option.bind_eq_bind, Option.bind_eq_some_iff,
      Option.pure_def, Option.some.injEq] at h
    obtain ⟨e, he, rfl⟩ := h
    exact ⟨rfl, rfl, .one (ValueExpr.number_view he)⟩
  | .likeOp _ _ _, _, _, h => by
    simp only [BoolForm.setComponentId, Option.bind_eq_bind, Option.bind_eq_some_iff,
      Option.pure_def, Option.some.injEq] at h
    obtain ⟨l, hl, rfl⟩ := h
    exact ⟨rfl, rfl, .one (ValueExpr.number_view hl)⟩
  | .betweenOp _ _ _, _, _, h => by
    simp only [BoolForm.setComponentId, Option.bind_eq_bind, Option.bind_eq_some_iff,
      Option.pure_def, Option.some.injEq] at h
    obtain ⟨l, hl, m, hm, r, hr, rfl⟩ := h
    exact ⟨rfl, rfl, .three (ValueExpr.number_view hl) (ValueExpr.number_view hm)
      (ValueExpr.number_view hr)⟩
  | .inQuery _ _ _, _, _, h => by
    simp only [BoolForm.setComponentId, Option.bind_eq_bind, Option.bind_eq_some_iff,
      Option.pure_def, Option.some.injEq] at h
    obtain ⟨l, hl, q, hq, rfl⟩ := h
    exact ⟨rfl, rfl, .two (ValueExpr.number_view hl) (Subquery.number_view hq)⟩
  | .existsPredicate _, _, _, h => by
    simp only [BoolForm.setComponentId, Option.bind_eq_bind, Option.bind_eq_some_iff,
      Option.pure_def, Option.some.injEq] at h
    obtain ⟨q, hq, rfl⟩ := h
    exact ⟨rfl, rfl, .one (Subquery.number_view hq)⟩
  | .compSubquery _ _ _, _, _, h => by
    simp only [BoolForm.setComponentId, Option.bind_eq_bind, Option.bind_eq_some_iff,
      Option.pure_def, Option.some.injEq] at h
    obtain ⟨l, hl, q, hq, rfl⟩ := h
    exact ⟨rfl, rfl, .two (ValueExpr.number_view hl) (Subquery.number_view hq)⟩

theorem Subquery.number_view : ∀ {q : Subquery} {n : ℤ} {r : Subquery × ℤ},
    q.setComponentId n = some r →
      number q.view n = (r.1.view, r.2) ∧ IdTree.All Label.untransformed r.1.view
  | .spec _ _, _, _, h => by
    simp only [Subquery.setComponentId, Option.bind_eq_bind, Option.bind_eq_some_iff,
      Option.pure_def, Option.some.injEq] at h
    obtain ⟨s, hs, rfl⟩ := h
    exact (Numbered.one (BoolExpr.number_view hs)).group
  | .union _ _ _, _, _, h => by
    simp only [Subquery.setComponentId, Option.bind_eq_bind, Option.bind_eq_some_iff,
      Option.pure_def, Option.some.injEq] at h
    obtain ⟨l, hl, r, hr, rfl⟩ := h
    exact (Numbered.two (BoolExpr.number_view hl) (BoolExpr.number_view hr)).group

end

theorem number_havingSlots : ∀ {o : Option BoolExpr} {n : ℤ} {r : Option BoolExpr × ℤ},
    setCompidForHaving o n = some r → r.1.isNone = o.isNone ∧
      Numbered (havingSlots o) (havingSlots r.1) n r.2
  | none, n, _, h => by
    obtain rfl := Option.some.inj h
    exact ⟨rfl, .nil n⟩
  | some _, _, _, h => by
    simp only [setCompidForHaving, Option.bind_eq_bind, Option.bind_eq_some_iff,
      Option.pure_def, Option.some.injEq] at h
    obtain ⟨s, hs, rfl⟩ := h
    exact ⟨rfl, .one (BoolExpr.number_view hs)⟩

section

variable {targetDbms : String}

mutual

theorem QuerySpec.number_view : ∀ {q : QuerySpec} {n : ℤ} {r : QuerySpec × ℤ},
    q.setCompidForQuery targetDbms n = some r →
      number (q.view targetDbms) n = (r.1.view targetDbms, r.2) ∧
        IdTree.All Label.untransformed (r.1.view targetDbms)
  | .mk _ _ _ _ h, _, _, hr => by
    simp only [QuerySpec.setCompidForQuery, Option.bind_eq_bind, Option.bind_eq_some_iff,
      Option.pure_def, Option.some.injEq] at hr
    obtain ⟨l, hl, f, hf, s, hs, o, ho, rfl⟩ := hr
    obtain ⟨hnone, hhaving⟩ := number_havingSlots ho
    have hvisits : visitsSelect targetDbms o.1 = visitsSelect targetDbms h := by
      rw [visitsSelect, visitsSelect, hnone]
    have hrest := Numbered.cons (b := false) (TableRef.number_view hf)
      (.cons (b := true) (BoolExpr.number_view hs) hhaving)
    rw [QuerySpec.view, QuerySpec.view, hvisits]
    cases hv : visitsSelect targetDbms h with
    | true =>
      rw [hv, if_pos rfl] at hl
      exact (Numbered.cons (Exprs.number_slots hl).group hrest).group
    | false =>
      rw [hv, if_neg Bool.false_ne_true] at hl
      obtain rfl := Option.some.inj hl
      exact hrest.group

theorem TableRef.number_view : ∀ {t : TableRef} {n : ℤ} {r : TableRef × ℤ},
    t.setCompidForTableRef targetDbms n = some r →
      number (t.view targetDbms) n = (r.1.view targetDbms, r.2) ∧
        IdTree.All Label.untransformed (r.1.view targetDbms)
  | .tableOrQueryName _, n, _, h => by
    obtain rfl := Option.some.inj h
    exact (Numbered.nil n).group
  | .tableSubquery _ _, _, _, h => by
    simp only [TableRef.setCompidForTableRef, Option.bind_eq_bind, Option.bind_eq_some_iff,
      Option.pure_def, Option.some.injEq] at h
    obtain ⟨q, hq, rfl⟩ := h
    exact (Numbered.one (QuerySpec.number_view hq)).group
  | .joinedTable _ _ _, _, _, h => by
    simp only [TableRef.setCompidForTableRef, Option.bind_eq_bind, Option.bind_eq_some_iff,
      Option.pure_def, Option.some.injEq] at h
    obtain ⟨l, hl, r, hr, rfl⟩ := h
    exact (Numbered.two (TableRef.number_view hl) (TableRef.number_view hr)).group

end

theorem WithQueries.number_slots : ∀ {w : WithQueries} {n : ℤ} {r : WithQueries × ℤ},
    w.setCompid targetDbms n = some r →
      Numbered (w.slots targetDbms) (r.1.slots targetDbms) n r.2
  | .nil, n, _, h => by
    obtain rfl := Option.some.inj h
    exact .nil n
  | .cons _ _, _, _, h => by
    simp only [WithQueries.setCompid, Option.bind_eq_bind, Option.bind_eq_some_iff,
      Option.pure_def, Option.some.injEq] at h
    obtain ⟨q, hq, rest, hrest, rfl⟩ := h
    exact .cons (QuerySpec.number_view hq) (WithQueries.number_slots hrest)

theorem Statement.number_view {s : Statement} {n : ℤ} {r : Statement × ℤ}
    (h : s.setCompidForQuery targetDbms n = some r) :
    number (s.view targetDbms) n = (r.1.view targetDbms, r.2) ∧
      IdTree.All Label.untransformed (r.1.view targetDbms) := by
  cases s with
  | select q =>
    simp only [Statement.setCompidForQuery, Option.bind_eq_bind, Option.bind_eq_some_iff,
      Option.pure_def, Option.some.injEq] at h
    obtain ⟨q', hq, rfl⟩ := h
    exact (Numbered.one (QuerySpec.number_view hq)).group
  | commonTableExpression text q w =>
    simp only [Statement.setCompidForQuery, Option.bind_eq_bind, Option.bind_eq_some_iff,
      Option.pure_def, Option.some.injEq] at h
    obtain ⟨q', hq, w', hw, rfl⟩ := h
    exact (Numbered.two (QuerySpec.number_view hq) (WithQueries.number_slots hw).group).group
  | update text l e =>
    simp only [Statement.setCompidForQuery, Option.bind_eq_bind, Option.bind_eq_some_iff,
      Option.pure_def, Option.some.injEq] at h
    obtain ⟨l', hl, e', he, rfl⟩ := h
    exact (Numbered.two (Exprs.number_slots hl).group (BoolExpr.number_view he)).group
  | delete text e =>
    simp only [Statement.setCompidForQuery, Option.bind_eq_bind, Option.bind_eq_some_iff,
      Option.pure_def, Option.some.injEq] at h
    obtain ⟨e', he, rfl⟩ := h
    exact (Numbered.one (BoolExpr.number_view he)).group

end

end DbFuzz.Components
