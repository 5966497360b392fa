import DbFuzz.Expr.ComponentSet

/-! After `set_component_id` every component is found under its id and replaced under it, and the
first loop of `minimize_testcase` runs to its end. -/

namespace DbFuzz.Components

open IdTree (UniqueIds Under Fits FitsSlots All Meets)

/-! A slot of the type `bool_expr` holds one. -/

@[simp]
theorem BoolExpr.special_view (e : BoolExpr) : e.view.special = true := by
  cases e <;> rfl

attribute [local simp] FitsSlots

theorem fits_group {kind : Kind} {slots : Slots} (h : FitsSlots slots) :
    Fits (group kind slots) := by
  rw [group, Fits]
  exact h

mutual

theorem ValueExpr.fits : ∀ (e : ValueExpr), Fits e.view
  | .value _ _ form => by
    rw [ValueExpr.view, Fits]
    exact form.fits
  | .bool expr => expr.fits

theorem ValueForm.fits : ∀ (f : ValueForm), FitsSlots f.slots
  | .kept _ => by simp [ValueForm.slots]
  | .binopExpr _ l r => by simp [ValueForm.slots, l.fits, r.fits]
  | .caseExpr c t f => by simp [ValueForm.slots, c.fits, t.fits, f.fits]
  | .coalesce _ es => es.fits
  | .funcall _ es => es.fits
  | .winFuncall _ es => es.fits
  | .castExpr _ e => by simp [ValueForm.slots, e.fits]
  | .intervalExpr _ _ d a => by simp [ValueForm.slots, d.fits, a.fits]
  | .mysqlJsonOp _ _ l => by simp [ValueForm.slots, l.fits]

theorem Exprs.fits : ∀ (es : Exprs), FitsSlots es.slots
  | .nil => by simp [Exprs.slots]
  | .cons e rest => by simp [Exprs.slots, e.fits, rest.fits]

theorem BoolExpr.fits : ∀ (e : BoolExpr), Fits e.view
  | .node _ _ form => by
    rw [BoolExpr.view, Fits]
    exact form.fits
  | .transformedTerm _ _ l r e => by simp [BoolExpr.view, Fits, l.fits, r.fits, e.fits]

theorem BoolForm.fits : ∀ (f : BoolForm), FitsSlots f.slots
  | .kept _ => by simp [BoolForm.slots]
  | .boolBinop _ l r => by simp [BoolForm.slots, l.fits, r.fits]
  | .boolTerm _ l r => by simp [BoolForm.slots, l.fits, r.fits]
  | .notExpr e => by simp [BoolForm.slots, e.fits]
  | .nullPredicate _ e => by simp [BoolForm.slots, e.fits]
  | .likeOp l _ _ => by simp [BoolForm.slots, l.fits]
  | .betweenOp l m r => by simp [BoolForm.slots, l.fits, m.fits, r.fits]
  | .inQuery _ l q => by simp [BoolForm.slots, l.fits, q.fits]
  | .existsPredicate q => by simp [BoolForm.slots, q.fits]
  | .compSubquery l _ q => by simp [BoolForm.slots, l.fits, q.fits]

theorem Subquery.fits : ∀ (q : Subquery), Fits q.view
  | .spec _ s => fits_group (by simp [s.fits])
  | .union _ l r => fits_group (by simp [l.fits, r.fits])

end

theorem havingSlots_fits : ∀ (o : Option BoolExpr), FitsSlots (havingSlots o)
  | none => by simp [havingSlots]
  | some s => by simp [havingSlots, s.fits]

section

variable {targetDbms : String}

mutual

theorem QuerySpec.fits : ∀ (q : QuerySpec), Fits (q.view targetDbms)
  | .mk _ l f s h => by
    rw [QuerySpec.view]
    split
    · exact fits_group (by simp [fits_group l.fits, f.fits, s.fits, havingSlots_fits h])
    · exact fits_group (by simp [f.fits, s.fits, havingSlots_fits h])

theorem TableRef.fits : ∀ (t : TableRef), Fits (t.view targetDbms)
  | .tableOrQueryName _ => fits_group (by simp)
  | .tableSubquery _ q => fits_group (by simp [q.fits])
  | .joinedTable _ l r => fits_group (by simp [l.fits, r.fits])

end

theorem WithQueries.fits : ∀ (w : WithQueries), FitsSlots (w.slots targetDbms)
  | .nil => by simp [WithQueries.slots]
  | .cons q rest => by simp [WithQueries.slots, q.fits, rest.fits]

theorem Statement.fits : ∀ (s : Statement), Fits (s.view targetDbms)
  | .select q => fits_group (by simp [q.fits])
  | .commonTableExpression _ q w => fits_group (by simp [q.fits, fits_group w.fits])
  | .update _ l e => fits_group (by simp [fits_group l.fits, e.fits])
  | .delete _ e => fits_group (by simp [e.fits])

/-! One component. -/

def ValueExpr.isBool (e : ValueExpr) : Bool := (Pointer.boolValue (some e)).isSome

theorem Statement.setCompFromIdQuery_of_replace {s : Statement} {id : ℤ} {x : ValueExpr} {v : Tree}
    (hmeets : Meets Label.untransformed id x.view (s.view targetDbms))
    (h : IdTree.replace id x.view (s.view targetDbms) = some v) :
    ∃ s', s.setCompFromIdQuery targetDbms id (some x) = .replaced s' ∧
      s'.view targetDbms = v := by
  have hview := Statement.replaces hmeets
  rw [h, Outcome.ofOption] at hview
  cases hout : s.setCompFromIdQuery targetDbms id (some x) with
  | replaced s' =>
    rw [hout, Outcome.map] at hview
    exact ⟨s', rfl, (Outcome.replaced.inj hview).symm⟩
  | unchanged =>
    rw [hout] at hview
    cases hview
  | crash =>
    rw [hout] at hview
    cases hview

theorem Statement.setCompFromIdQuery_of_not_replace {s : Statement} {id : ℤ} {x : ValueExpr}
    (hmeets : Meets Label.untransformed id x.view (s.view targetDbms))
    (h : IdTree.replace id x.view (s.view targetDbms) = none) :
    s.setCompFromIdQuery targetDbms id (some x) = .unchanged := by
  have hview := Statement.replaces hmeets
  rw [h, Outcome.ofOption] at hview
  cases hout : s.setCompFromIdQuery targetDbms id (some x) with
  | unchanged => rfl
  | replaced s' =>
    rw [hout] at hview
    cases hview
  | crash =>
    rw [hout] at hview
    cases hview

theorem Statement.getCompFromIdQuery_of_find {s : Statement} {id : ℤ} {c : ValueExpr}
    (h : IdTree.find id (s.view targetDbms) = some c.view) :
    s.getCompFromIdQuery targetDbms id = some c := by
  rw [Statement.find_view] at h
  obtain ⟨c', hc', hview⟩ := Option.map_eq_some_iff.1 h
  rw [hc', ValueExpr.view_inj.1 hview]

/-- The component stands at the place, with this id, and nothing else has the id. -/
structure Statement.Located (targetDbms : String) (s : Statement) (id : ℤ) (c : ValueExpr)
    (place : List ℕ) : Prop where
  stands : (s.view targetDbms).at? place = some c.view
  hasId : c.componentId = id
  only : ∀ ρ e, (s.view targetDbms).at? ρ = some e → e.hasId id = true → ρ = place

/-- Whether the slot at the place takes a `bool_expr` only. -/
def Statement.boolOnly (targetDbms : String) (s : Statement) (place : List ℕ) : Bool :=
  (s.view targetDbms).strictAt place

/-- What `set_component_from_id` does to one component of a statement. -/
structure Statement.Replaced (targetDbms : String) (s : Statement) (id : ℤ) (c : ValueExpr)
    (place : List ℕ) (x : ValueExpr) (s' : Statement) : Prop where
  set : s.setCompFromIdQuery targetDbms id (some x) = .replaced s'
  view : s'.view targetDbms = IdTree.putAt (x.view.withId id) (s.view targetDbms) place
  get : s'.getCompFromIdQuery targetDbms id = some (x.withComponentId id)
  back : s'.setCompFromIdQuery targetDbms id (some c) = .replaced s

theorem Statement.replaced_of_located {s : Statement} {id : ℤ} {c : ValueExpr} {k : ℕ}
    {π : List ℕ} (hall : All Label.untransformed (s.view targetDbms))
    (h : s.Located targetDbms id c (k :: π)) {x : ValueExpr}
    (hx : x.isBool = true ∨ s.boolOnly targetDbms (k :: π) = false) :
    ∃ s', s.Replaced targetDbms id c (k :: π) x s' := by
  have hid : c.view.hasId id = true := by simp [ValueExpr.hasId_view, h.hasId]
  have hunder : (s.view targetDbms).Under id (k :: π) :=
    fun j ρ d hd hide => h.only (j :: ρ) d hd hide ▸ List.prefix_rfl
  have hfit : x.view.special = true ∨ (s.view targetDbms).strictAt (k :: π) = false := by
    rw [ValueExpr.special_view]
    exact hx
  obtain ⟨s', hs', hview⟩ := s.setCompFromIdQuery_of_replace hall.meets
    (IdTree.replace_of_under h.stands hid hunder hfit)
  -- the same place in the new statement
  have hstands : (s'.view targetDbms).at? (k :: π) = some (x.withComponentId id).view := by
    rw [hview, ValueExpr.view_withComponentId]
    exact IdTree.at?_putAt_self h.stands _
  have hid' : (x.withComponentId id).view.hasId id = true := by
    rw [ValueExpr.view_withComponentId]
    cases x with
    | value i b form => exact decide_eq_true rfl
    | bool e => cases e <;> exact decide_eq_true rfl
  have hunder' : (s'.view targetDbms).Under id (k :: π) := by
    rw [hview]
    exact IdTree.under_putAt h.stands hunder
  -- the old component fits where it stood
  have hback : c.view.special = true ∨ (s'.view targetDbms).strictAt (k :: π) = false := by
    rw [hview, IdTree.strictAt_putAt h.stands]
    cases hstrict : (s.view targetDbms).strictAt (k :: π) with
    | false => exact Or.inr rfl
    | true => exact Or.inl (s.fits.special h.stands hstrict)
  have hmeets : Meets Label.untransformed id c.view (s'.view targetDbms) := by
    rw [hview] at hback ⊢
    rw [IdTree.strictAt_putAt h.stands] at hback
    rw [← ValueExpr.view_withComponentId]
    exact hall.meets_putAt h.stands hid' hback
  obtain ⟨s'', hs'', hrestored⟩ := s'.setCompFromIdQuery_of_replace hmeets
    (IdTree.replace_of_under hstands hid' hunder' hback)
  rw [IdTree.withId_of_hasId hid, hview, IdTree.putAt_putAt h.stands] at hrestored
  refine ⟨s', hs', hview, ?_, Statement.view_inj.1 hrestored ▸ hs''⟩
  exact s'.getCompFromIdQuery_of_find (IdTree.find_of_under hstands hid' hunder')

theorem Statement.unchanged_of_located {s : Statement} {id : ℤ} {c : ValueExpr} {place : List ℕ}
    (hall : All Label.untransformed (s.view targetDbms)) (h : s.Located targetDbms id c place)
    {x : ValueExpr} (hx : x.isBool = false) (hplace : s.boolOnly targetDbms place = true) :
    s.setCompFromIdQuery targetDbms id (some x) = .unchanged := by
  refine s.setCompFromIdQuery_of_not_replace hall.meets ?_
  by_contra hsome
  obtain ⟨v, hv⟩ := Option.ne_none_iff_exists'.1 hsome
  obtain ⟨k, π, d, hd, hid, hok⟩ := IdTree.replace_place _ hv
  rw [h.only (k :: π) d hd hid, ValueExpr.special_view] at hok
  rcases hok with hok | hok
  · exact Bool.false_ne_true (hx.symm.trans hok)
  · exact Bool.false_ne_true (hok.symm.trans hplace)

theorem Statement.located_of_get {s : Statement} {id : ℤ} {c : ValueExpr}
    (hunique : (s.view targetDbms).UniqueIds)
    (h : s.getCompFromIdQuery targetDbms id = some c) :
    ∃ k π, s.Located targetDbms id c (k :: π) := by
  have hfind : IdTree.find id (s.view targetDbms) = _ := s.find_view
  rw [h] at hfind
  obtain ⟨k, π, hat, hid⟩ := IdTree.find_sound _ hfind
  refine ⟨k, π, hat, ?_, fun ρ e he hide => hunique id ρ (k :: π) e c.view he hat hide hid⟩
  rw [ValueExpr.hasId_view] at hid
  exact of_decide_eq_true hid

/-! The reduction. -/

/-- What the reduction keeps of the numbering: it takes ids away. -/
structure Statement.Reducible (targetDbms : String) (s : Statement) : Prop where
  unique : (s.view targetDbms).UniqueIds
  untransformed : All Label.untransformed (s.view targetDbms)

theorem Statement.Reducible.round {s : Statement} (h : s.Reducible targetDbms)
    (nullLiteral : String) (triggers : Statement → Bool) (id : ℤ) :
    ∃ s', s.minimizeRound targetDbms nullLiteral triggers id = some s' ∧
      s'.Reducible targetDbms := by
  rw [Statement.minimizeRound]
  cases hget : s.getCompFromIdQuery targetDbms id with
  | none => exact ⟨s, rfl, h⟩
  | some c =>
    obtain ⟨k, π, hc⟩ := s.located_of_get h.unique hget
    obtain ⟨s', hs'⟩ := Statement.replaced_of_located h.untransformed hc
      (x := nullValue nullLiteral id) (Or.inl rfl)
    rw [Option.elim, hs'.set]
    simp only [Outcome.new?, Option.bind_some]
    cases triggers s' with
    | false =>
      rw [if_neg Bool.false_ne_true, hs'.back]
      exact ⟨s, rfl, h⟩
    | true =>
      have hid : c.view.hasId id = true := by simp [ValueExpr.hasId_view, hc.hasId]
      refine ⟨s', if_pos rfl, ?_, ?_⟩
      · rw [hs'.view]
        exact h.unique.putAt hc.stands hid rfl
      · rw [hs'.view]
        refine h.untransformed.putAt ?_ hc.stands
        exact ⟨rfl, trivial⟩

theorem Statement.Reducible.loop {s : Statement} (h : s.Reducible targetDbms)
    (nullLiteral : String) (triggers : ℕ → Statement → Bool) (count : ℕ) :
    ∃ s', s.minimizeLoop targetDbms nullLiteral triggers count = some s' ∧
      s'.Reducible targetDbms := by
  rw [Statement.minimizeLoop]
  generalize List.range count = ids
  induction ids generalizing s with
  | nil => exact ⟨s, rfl, h⟩
  | cons id ids ih =>
    obtain ⟨s', hs', hreducible⟩ := h.round nullLiteral (triggers id) id
    rw [List.foldlM_cons, hs']
    exact ih hreducible

theorem Statement.reducible_of_numbered {s t : Statement} {n count : ℤ}
    (h : s.setCompidForQuery targetDbms n = some (t, count)) : t.Reducible targetDbms := by
  obtain ⟨hnumber, hall⟩ := Statement.number_view h
  refine ⟨?_, hall⟩
  rw [show t.view targetDbms = (IdTree.number (s.view targetDbms) n).1 by rw [hnumber]]
  exact IdTree.uniqueIds_number _ _

theorem Statement.ids_of_numbered {s t : Statement} {count : ℤ}
    (h : s.setCompidForQuery targetDbms 0 = some (t, count)) :
    IdTree.ids (t.view targetDbms) = IdTree.idsFrom 0 count.toNat := by
  obtain ⟨hnumber, -⟩ := Statement.number_view h
  have hids := IdTree.ids_number (s.view targetDbms) 0
  have hcount := IdTree.number_snd (s.view targetDbms) 0
  rw [hnumber] at hids hcount
  have hsize : count = IdTree.size (s.view targetDbms) := by simpa using hcount
  rw [hsize, Int.toNat_natCast]
  exact hids

theorem Statement.get_of_numbered {s t : Statement} {count id : ℤ}
    (h : s.setCompidForQuery targetDbms 0 = some (t, count)) (hid : 0 ≤ id) (hcount : id < count) :
    ∃ c, t.getCompFromIdQuery targetDbms id = some c := by
  have hmem : id ∈ IdTree.ids (t.view targetDbms) := by
    rw [Statement.ids_of_numbered h, IdTree.mem_idsFrom]
    omega
  obtain ⟨π, d, hat, hd⟩ := IdTree.at?_of_mem_ids _ hmem
  have hunique := (Statement.reducible_of_numbered h).unique
  cases π with
  | nil =>
    obtain rfl := Option.some.inj hat
    cases t <;> cases hd
  | cons k π =>
    have hfind := IdTree.find_of_under hat hd (hunique.under hat hd)
    rw [Statement.find_view] at hfind
    exact (Option.map_eq_some_iff.1 hfind).imp fun _ h => h.1

/-- After the numbering the ids count through the components. Each names one component, which is
replaced by every expression that fits its slot and put back again; what stands apart stays. The
reduction meets no failing assertion. -/
theorem Statement.components_addressable {s t : Statement} {count : ℤ}
    (h : s.setCompidForQuery targetDbms 0 = some (t, count)) :
    IdTree.ids (t.view targetDbms) = IdTree.idsFrom 0 count.toNat ∧
    (∀ id, 0 ≤ id → id < count → ∃ c place,
      t.getCompFromIdQuery targetDbms id = some c ∧ t.Located targetDbms id c place ∧
      ∀ x : ValueExpr,
        (x.isBool = true ∨ t.boolOnly targetDbms place = false →
          ∃ t', t.setCompFromIdQuery targetDbms id (some x) = .replaced t' ∧
            t'.getCompFromIdQuery targetDbms id = some (x.withComponentId id) ∧
            (∀ ρ, ¬ place <+: ρ → ¬ ρ <+: place →
              (t'.view targetDbms).at? ρ = (t.view targetDbms).at? ρ) ∧
            t'.setCompFromIdQuery targetDbms id (some c) = .replaced t) ∧
        (x.isBool = false → t.boolOnly targetDbms place = true →
          t.setCompFromIdQuery targetDbms id (some x) = .unchanged)) ∧
    ∀ nullLiteral triggers,
      (t.minimizeLoop targetDbms nullLiteral triggers count.toNat).isSome := by
  have hred := Statement.reducible_of_numbered h
  refine ⟨Statement.ids_of_numbered h, fun id hid hcount => ?_, fun nullLiteral triggers => ?_⟩
  · obtain ⟨c, hget⟩ := Statement.get_of_numbered h hid hcount
    obtain ⟨k, π, hc⟩ := t.located_of_get hred.unique hget
    refine ⟨c, k :: π, hget, hc, fun x => ⟨fun hx => ?_, fun hx hplace => ?_⟩⟩
    · obtain ⟨t', ht'⟩ := Statement.replaced_of_located hred.untransformed hc hx
      refine ⟨t', ht'.set, ht'.get, fun ρ hdown hup => ?_, ht'.back⟩
      rw [ht'.view]
      exact IdTree.at?_putAt_of_apart hc.stands _ hdown hup
    · exact Statement.unchanged_of_located hred.untransformed hc hx hplace
  · obtain ⟨t', ht', -⟩ := hred.loop nullLiteral triggers count.toNat
    rw [ht']
    rfl

end

/-- `update t set c1 = coalesce(c2, 1) where c3 in (select .. where c1 is not null)` -/
def sampleUpdate : Statement :=
  .update "update t set c1 = "
    (.cons (.value (-1) false
      (.coalesce "coalesce"
        (.cons (.value (-1) false (.kept "t.c2"))
          (.cons (.value (-1) false (.kept "1")) .nil)))) .nil)
    (.node (-1) false (.inQuery false (.value (-1) false (.kept "t.c3"))
      (.spec "select ref_0.c3 from t as ref_0"
        (.node (-1) false (.nullPredicate "not" (.value (-1) false (.kept "ref_0.c1")))))))

theorem sampleUpdate_addressable :
    ∃ t, sampleUpdate.setCompidForQuery "mysql" 0 = some (t, 7) ∧
      IdTree.ids (t.view "mysql") = IdTree.idsFrom 0 7 :=
  ⟨_, rfl, (@Statement.components_addressable "mysql" sampleUpdate _ 7 rfl).1⟩

/-- Its where clause is not replaced by an expression that is no `bool_expr`. -/
theorem not_components_all_set :
    ¬ ∀ (s t : Statement) (count id : ℤ) (x : ValueExpr),
      s.setCompidForQuery "mysql" 0 = some (t, count) → 0 ≤ id → id < count →
        ∃ t', t.setCompFromIdQuery "mysql" id (some x) = .replaced t' := by
  intro h
  obtain ⟨t', ht'⟩ := h sampleUpdate _ 7 3 (.value (-1) false (.kept "t.c1")) rfl
    (by decide) (by decide)
  cases ht'

end DbFuzz.Components
