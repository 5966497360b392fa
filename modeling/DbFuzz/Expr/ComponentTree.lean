import DbFuzz.Expr.Components
import DbFuzz.Lib.IdTree

/-! The components of a statement as a tree of numbered items. -/

namespace DbFuzz.Components

/-- What an expression, a query or a statement has besides its components. -/
inductive Kind
  | kept (text : String)
  | binopExpr (oper : String)
  | caseExpr
  | coalesce (abbrev_ : String)
  | funcall (proc : String)
  | winFuncall (proc : String)
  | castExpr (targetType : String)
  | intervalExpr (isAdd : Bool) (intervalUnit : String)
  | mysqlJsonOp (op jsonPath : String)
  | boolBinop (oper : String)
  | boolTerm (op : String)
  | transformedTerm (op : String)
  | notExpr
  | nullPredicate (negate : String)
  | likeOp (likeOperator likeFormat : String)
  | betweenOp
  | inQuery (isNegated : Bool)
  | existsPredicate
  | compSubquery (compOp : String)
  | spec (text : String)
  | union (text : String)
  | exprs
  | querySpec (text : String) (unvisited : Option Exprs)
  | tableOrQueryName (text : String)
  | tableSubquery (text : String)
  | joinedTable (text : String)
  | withQueries
  | select
  | commonTableExpression (text : String)
  | update (text : String)
  | delete (text : String)

structure Label where
  kind : Kind
  isTransformed : Bool

def Label.untransformed (l : Label) : Prop := l.isTransformed = false

abbrev Tree : Type := IdTree Label

abbrev Slots : Type := IdSlots Label

def group (kind : Kind) (slots : Slots) : Tree := .group ⟨kind, false⟩ slots

def ValueForm.kind : ValueForm → Kind
  | kept text => .kept text
  | binopExpr oper _ _ => .binopExpr oper
  | caseExpr _ _ _ => .caseExpr
  | coalesce abbrev_ _ => .coalesce abbrev_
  | funcall proc _ => .funcall proc
  | winFuncall proc _ => .winFuncall proc
  | castExpr targetType _ => .castExpr targetType
  | intervalExpr isAdd intervalUnit _ _ => .intervalExpr isAdd intervalUnit
  | mysqlJsonOp op jsonPath _ => .mysqlJsonOp op jsonPath

def BoolForm.kind : BoolForm → Kind
  | kept text => .kept text
  | boolBinop oper _ _ => .boolBinop oper
  | boolTerm op _ _ => .boolTerm op
  | notExpr _ => .notExpr
  | nullPredicate negate _ => .nullPredicate negate
  | likeOp _ likeOperator likeFormat => .likeOp likeOperator likeFormat
  | betweenOp _ _ _ => .betweenOp
  | inQuery isNegated _ _ => .inQuery isNegated
  | existsPredicate _ => .existsPredicate
  | compSubquery _ compOp _ => .compSubquery compOp

/-- Whether the subquery, numbered after the left operand, is searched before it. -/
def BoolForm.lhsLast : BoolForm → Bool
  | inQuery _ _ _ => true
  | compSubquery _ _ _ => true
  | _ => false

mutual

def ValueExpr.view : ValueExpr → Tree
  | .value id b form => .item id false ⟨form.kind, b⟩ false form.slots
  | .bool expr => expr.view

def ValueForm.slots : ValueForm → Slots
  | .kept _ => .nil
  | .binopExpr _ lhs rhs => .cons false lhs.view (.cons false rhs.view .nil)
  | .caseExpr condition trueExpr falseExpr =>
    .cons true condition.view (.cons false trueExpr.view (.cons false falseExpr.view .nil))
  | .coalesce _ valueExprs => valueExprs.slots
  | .funcall _ parms => parms.slots
  | .winFuncall _ parms => parms.slots
  | .castExpr _ innerExpr => .cons false innerExpr.view .nil
  | .intervalExpr _ _ dateExpr amount => .cons false dateExpr.view (.cons false amount.view .nil)
  | .mysqlJsonOp _ _ lhs => .cons false lhs.view .nil

def Exprs.slots : Exprs → Slots
  | .nil => .nil
  | .cons expr rest => .cons false expr.view rest.slots

def BoolExpr.view : BoolExpr → Tree
  | .node id b form => .item id true ⟨form.kind, b⟩ form.lhsLast form.slots
  | .transformedTerm id op lhs rhs equalExpr =>
    .item id true ⟨.transformedTerm op, true⟩ false
      (.cons true equalExpr.view (.cons false lhs.view (.cons false rhs.view .nil)))

def BoolForm.slots : BoolForm → Slots
  | .kept _ => .nil
  | .boolBinop _ lhs rhs => .cons false lhs.view (.cons false rhs.view .nil)
  | .boolTerm _ lhs rhs => .cons false lhs.view (.cons false rhs.view .nil)
  | .notExpr innerExpr => .cons true innerExpr.view .nil
  | .nullPredicate _ expr => .cons false expr.view .nil
  | .likeOp lhs _ _ => .cons false lhs.view .nil
  | .betweenOp lhs mhs rhs =>
    .cons false lhs.view (.cons false mhs.view (.cons false rhs.view .nil))
  | .inQuery _ lhs inSubquery => .cons false lhs.view (.cons false inSubquery.view .nil)
  | .existsPredicate subquery => .cons false subquery.view .nil
  | .compSubquery lhs _ targetSubquery =>
    .cons false lhs.view (.cons false targetSubquery.view .nil)

def Subquery.view : Subquery → Tree
  | .spec text search => group (.spec text) (.cons true search.view .nil)
  | .union text lhsSearch rhsSearch =>
    group (.union text) (.cons true lhsSearch.view (.cons true rhsSearch.view .nil))

end

def havingSlots : Option BoolExpr → Slots
  | none => .nil
  | some search => .cons true search.view .nil

section

variable (targetDbms : String)

mutual

def QuerySpec.view : QuerySpec → Tree
  | .mk text selectList fromClause search having =>
    if visitsSelect targetDbms having then
      group (.querySpec text none)
        (.cons false (group .exprs selectList.slots)
          (.cons false fromClause.view (.cons true search.view (havingSlots having))))
    else
      group (.querySpec text (some selectList))
        (.cons false fromClause.view (.cons true search.view (havingSlots having)))

def TableRef.view : TableRef → Tree
  | .tableOrQueryName text => group (.tableOrQueryName text) .nil
  | .tableSubquery text query => group (.tableSubquery text) (.cons false query.view .nil)
  | .joinedTable text lhs rhs =>
    group (.joinedTable text) (.cons false lhs.view (.cons false rhs.view .nil))

end

def WithQueries.slots : WithQueries → Slots
  | .nil => .nil
  | .cons query rest => .cons false (query.view targetDbms) rest.slots

def Statement.view : Statement → Tree
  | .select query => group .select (.cons false (query.view targetDbms) .nil)
  | .commonTableExpression text query withQueries =>
    group (.commonTableExpression text)
      (.cons false (query.view targetDbms)
        (.cons false (group .withQueries (withQueries.slots targetDbms)) .nil))
  | .update text setList search =>
    group (.update text) (.cons false (group .exprs setList.slots) (.cons true search.view .nil))
  | .delete text search => group (.delete text) (.cons true search.view .nil)

end

/-! A tree comes from one expression only. -/

@[simp]
theorem group_inj {k k' : Kind} {s s' : Slots} : group k s = group k' s' ↔ k = k' ∧ s = s' := by
  simp [group]

theorem ValueForm.form_of_kind {f g : ValueForm} (h : f.kind = g.kind) : match f with
    | .kept text => g = .kept text
    | .binopExpr oper _ _ => ∃ lhs rhs, g = .binopExpr oper lhs rhs
    | .caseExpr _ _ _ => ∃ c t f, g = .caseExpr c t f
    | .coalesce abbrev_ _ => ∃ es, g = .coalesce abbrev_ es
    | .funcall proc _ => ∃ es, g = .funcall proc es
    | .winFuncall proc _ => ∃ es, g = .winFuncall proc es
    | .castExpr targetType _ => ∃ e, g = .castExpr targetType e
    | .intervalExpr isAdd intervalUnit _ _ => ∃ d a, g = .intervalExpr isAdd intervalUnit d a
    | .mysqlJsonOp op jsonPath _ => ∃ e, g = .mysqlJsonOp op jsonPath e := by
  cases f <;> cases g <;> cases h <;> simp

theorem BoolForm.form_of_kind {f g : BoolForm} (h : f.kind = g.kind) : match f with
    | .kept text => g = .kept text
    | .boolBinop oper _ _ => ∃ lhs rhs, g = .boolBinop oper lhs rhs
    | .boolTerm op _ _ => ∃ lhs rhs, g = .boolTerm op lhs rhs
    | .notExpr _ => ∃ e, g = .notExpr e
    | .nullPredicate negate _ => ∃ e, g = .nullPredicate negate e
    | .likeOp _ likeOperator likeFormat => ∃ lhs, g = .likeOp lhs likeOperator likeFormat
    | .betweenOp _ _ _ => ∃ lhs mhs rhs, g = .betweenOp lhs mhs rhs
    | .inQuery isNegated _ _ => ∃ lhs q, g = .inQuery isNegated lhs q
    | .existsPredicate _ => ∃ q, g = .existsPredicate q
    | .compSubquery _ compOp _ => ∃ lhs q, g = .compSubquery lhs compOp q := by
  cases f <;> cases g <;> cases h <;> simp

mutual

@[simp]
theorem ValueExpr.view_inj : ∀ {e e' : ValueExpr}, e.view = e'.view ↔ e = e'
  | .value _ _ form, .value _ _ form' => by
    have hform : form.kind = form'.kind → form.slots = form'.slots → form = form' :=
      ValueForm.slots_inj
    refine ⟨fun h => ?_, fun h => by rw [h]⟩
    simp only [ValueExpr.view, IdTree.item.injEq, Label.mk.injEq] at h
    obtain ⟨rfl, -, ⟨hkind, rfl⟩, -, hslots⟩ := h
    rw [hform hkind hslots]
  | .value _ _ _, .bool (.node _ _ _) => by simp [ValueExpr.view, BoolExpr.view]
  | .value _ _ _, .bool (.transformedTerm _ _ _ _ _) => by simp [ValueExpr.view, BoolExpr.view]
  | .bool (.node _ _ _), .value _ _ _ => by simp [ValueExpr.view, BoolExpr.view]
  | .bool (.transformedTerm _ _ _ _ _), .value _ _ _ => by simp [ValueExpr.view, BoolExpr.view]
  | .bool expr, .bool expr' => by
    have hexpr : expr.view = expr'.view ↔ expr = expr' := BoolExpr.view_inj
    simp [ValueExpr.view, hexpr]

theorem ValueForm.slots_inj : ∀ {f g : ValueForm}, f.kind = g.kind → f.slots = g.slots → f = g
  | .kept _, _, hkind, _ => (ValueForm.form_of_kind hkind).symm
  | .binopExpr _ lhs rhs, _, hkind, hslots => by
    obtain ⟨l, r, rfl⟩ := ValueForm.form_of_kind hkind
    simp only [ValueForm.slots, IdSlots.cons.injEq, lhs.view_inj, rhs.view_inj] at hslots
    obtain ⟨-, rfl, -, rfl, -⟩ := hslots
    rfl
  | .caseExpr c t f, _, hkind, hslots => by
    obtain ⟨c', t', f', rfl⟩ := ValueForm.form_of_kind hkind
    simp only [ValueForm.slots, IdSlots.cons.injEq, c.view_inj, t.view_inj, f.view_inj] at hslots
    obtain ⟨-, rfl, -, rfl, -, rfl, -⟩ := hslots
    rfl
  | .coalesce _ es, _, hkind, hslots => by
    obtain ⟨es', rfl⟩ := ValueForm.form_of_kind hkind
    rw [es.slots_inj.1 hslots]
  | .funcall _ es, _, hkind, hslots => by
    obtain ⟨es', rfl⟩ := ValueForm.form_of_kind hkind
    rw [es.slots_inj.1 hslots]
  | .winFuncall _ es, _, hkind, hslots => by
    obtain ⟨es', rfl⟩ := ValueForm.form_of_kind hkind
    rw [es.slots_inj.1 hslots]
  | .castExpr _ e, _, hkind, hslots => by
    obtain ⟨e', rfl⟩ := ValueForm.form_of_kind hkind
    simp only [ValueForm.slots, IdSlots.cons.injEq, e.view_inj] at hslots
    rw [hslots.2.1]
  | .intervalExpr _ _ d a, _, hkind, hslots => by
    obtain ⟨d', a', rfl⟩ := ValueForm.form_of_kind hkind
    simp only [ValueForm.slots, IdSlots.cons.injEq, d.view_inj, a.view_inj] at hslots
    obtain ⟨-, rfl, -, rfl, -⟩ := hslots
    rfl
  | .mysqlJsonOp _ _ e, _, hkind, hslots => by
    obtain ⟨e', rfl⟩ := ValueForm.form_of_kind hkind
    simp only [ValueForm.slots, IdSlots.cons.injEq, e.view_inj] at hslots
    rw [hslots.2.1]

theorem Exprs.slots_inj : ∀ {es es' : Exprs}, es.slots = es'.slots ↔ es = es'
  | .nil, .nil => by simp [Exprs.slots]
  | .nil, .cons _ _ => by simp [Exprs.slots]
  | .cons _ _, .nil => by simp [Exprs.slots]
  | .cons e rest, .cons _ _ => by simp [Exprs.slots, e.view_inj, rest.slots_inj]

@[simp]
theorem BoolExpr.view_inj : ∀ {e e' : BoolExpr}, e.view = e'.view ↔ e = e'
  | .node _ _ form, .node _ _ form' => by
    have hform : form.kind = form'.kind → form.slots = form'.slots → form = form' :=
      BoolForm.slots_inj
    refine ⟨fun h => ?_, fun h => by rw [h]⟩
    simp only [BoolExpr.view, IdTree.item.injEq, Label.mk.injEq] at h
    obtain ⟨rfl, -, ⟨hkind, rfl⟩, -, hslots⟩ := h
    rw [hform hkind hslots]
  | .node _ _ form, .transformedTerm _ _ _ _ _ => by
    cases form <;> simp [BoolExpr.view, BoolForm.kind]
  | .transformedTerm _ _ _ _ _, .node _ _ form => by
    cases form <;> simp [BoolExpr.view, BoolForm.kind]
  | .transformedTerm _ _ l r e, .transformedTerm _ _ _ _ _ => by
    refine ⟨fun h => ?_, fun h => by rw [h]⟩
    simp only [BoolExpr.view, IdTree.item.injEq, Label.mk.injEq, Kind.transformedTerm.injEq,
      IdSlots.cons.injEq, l.view_inj, r.view_inj, e.view_inj] at h
    obtain ⟨rfl, -, ⟨rfl, -⟩, -, -, rfl, -, rfl, -, rfl, -⟩ := h
    rfl

theorem BoolForm.slots_inj : ∀ {f g : BoolForm}, f.kind = g.kind → f.slots = g.slots → f = g
  | .kept _, _, hkind, _ => (BoolForm.form_of_kind hkind).symm
  | .boolBinop _ l r, _, hkind, hslots => by
    obtain ⟨l', r', rfl⟩ := BoolForm.form_of_kind hkind
    simp only [BoolForm.slots, IdSlots.cons.injEq, l.view_inj, r.view_inj] at hslots
    obtain ⟨-, rfl, -, rfl, -⟩ := hslots
    rfl
  | .boolTerm _ l r, _, hkind, hslots => by
    obtain ⟨l', r', rfl⟩ := BoolForm.form_of_kind hkind
    simp only [BoolForm.slots, IdSlots.cons.injEq, l.view_inj, r.view_inj] at hslots
    obtain ⟨-, rfl, -, rfl, -⟩ := hslots
    rfl
  | .notExpr e, _, hkind, hslots => by
    obtain ⟨e', rfl⟩ := BoolForm.form_of_kind hkind
    simp only [BoolForm.slots, IdSlots.cons.injEq, e.view_inj] at hslots
    rw [hslots.2.1]
  | .nullPredicate _ e, _, hkind, hslots => by
    obtain ⟨e', rfl⟩ := BoolForm.form_of_kind hkind
    simp only [BoolForm.slots, IdSlots.cons.injEq, e.view_inj] at hslots
    rw [hslots.2.1]
  | .likeOp e _ _, _, hkind, hslots => by
    obtain ⟨e', rfl⟩ := BoolForm.form_of_kind hkind
    simp only [BoolForm.slots, IdSlots.cons.injEq, e.view_inj] at hslots
    rw [hslots.2.1]
  | .betweenOp l m r, _, hkind, hslots => by
    obtain ⟨l', m', r', rfl⟩ := BoolForm.form_of_kind hkind
    simp only [BoolForm.slots, IdSlots.cons.injEq, l.view_inj, m.view_inj, r.view_inj] at hslots
    obtain ⟨-, rfl, -, rfl, -, rfl, -⟩ := hslots
    rfl
  | .inQuery _ l q, _, hkind, hslots => by
    obtain ⟨l', q', rfl⟩ := BoolForm.form_of_kind hkind
    simp only [BoolForm.slots, IdSlots.cons.injEq, l.view_inj, q.view_inj] at hslots
    obtain ⟨-, rfl, -, rfl, -⟩ := hslots
    rfl
  | .existsPredicate q, _, hkind, hslots => by
    obtain ⟨q', rfl⟩ := BoolForm.form_of_kind hkind
    simp only [BoolForm.slots, IdSlots.cons.injEq, q.view_inj] at hslots
    rw [hslots.2.1]
  | .compSubquery l _ q, _, hkind, hslots => by
    obtain ⟨l', q', rfl⟩ := BoolForm.form_of_kind hkind
    simp only [BoolForm.slots, IdSlots.cons.injEq, l.view_inj, q.view_inj] at hslots
    obtain ⟨-, rfl, -, rfl, -⟩ := hslots
    rfl

theorem Subquery.view_inj : ∀ {q q' : Subquery}, q.view = q'.view ↔ q = q'
  | .spec _ s, .spec _ _ => by simp [Subquery.view, s.view_inj]
  | .spec _ _, .union _ _ _ => by simp [Subquery.view]
  | .union _ _ _, .spec _ _ => by simp [Subquery.view]
  | .union _ l r, .union _ _ _ => by simp [Subquery.view, l.view_inj, r.view_inj]

end

section

variable {targetDbms : String}

theorem havingSlots_inj : ∀ {h h' : Option BoolExpr}, havingSlots h = havingSlots h' ↔ h = h'
  | none, none => by simp
  | none, some _ => by simp [havingSlots]
  | some _, none => by simp [havingSlots]
  | some s, some _ => by simp [havingSlots, s.view_inj]

mutual

theorem QuerySpec.view_inj : ∀ {q q' : QuerySpec},
    q.view targetDbms = q'.view targetDbms ↔ q = q'
  | .mk _ l f s h, .mk _ l' _ _ h' => by
    have hsame (heq : h = h') : visitsSelect targetDbms h = visitsSelect targetDbms h' := by
      rw [heq]
    rw [QuerySpec.view, QuerySpec.view]
    cases hv : visitsSelect targetDbms h <;> cases hv' : visitsSelect targetDbms h' <;>
      simp only [Bool.false_eq_true, if_true, if_false, group_inj, Kind.querySpec.injEq,
        IdSlots.cons.injEq, Option.some.injEq, f.view_inj, s.view_inj, l.slots_inj,
        havingSlots_inj, QuerySpec.mk.injEq, true_and, and_true, reduceCtorEq, and_false,
        false_and, false_iff] <;>
      rw [hv, hv'] at hsame <;> tauto

theorem TableRef.view_inj : ∀ {t t' : TableRef}, t.view targetDbms = t'.view targetDbms ↔ t = t'
  | .tableOrQueryName _, t' => by cases t' <;> simp [TableRef.view]
  | .tableSubquery _ q, t' => by cases t' <;> simp [TableRef.view, q.view_inj]
  | .joinedTable _ l r, t' => by cases t' <;> simp [TableRef.view, l.view_inj, r.view_inj]

end

theorem WithQueries.slots_inj : ∀ {w w' : WithQueries},
    w.slots targetDbms = w'.slots targetDbms ↔ w = w'
  | .nil, .nil => by simp
  | .nil, .cons _ _ => by simp [WithQueries.slots]
  | .cons _ _, .nil => by simp [WithQueries.slots]
  | .cons q rest, .cons _ _ => by simp [WithQueries.slots, q.view_inj, rest.slots_inj]

theorem Statement.view_inj {s s' : Statement} :
    s.view targetDbms = s'.view targetDbms ↔ s = s' := by
  cases s <;> cases s' <;>
    simp [Statement.view, QuerySpec.view_inj, WithQueries.slots_inj, Exprs.slots_inj]

end

end DbFuzz.Components
