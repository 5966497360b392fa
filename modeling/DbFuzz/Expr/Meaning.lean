import DbFuzz.Expr.Print
import DbFuzz.Lib.Bag
import DbFuzz.Lib.Truth
import Mathlib.Data.List.Sort

/-! What the printed text means on a database. NULL is `none`. -/

namespace DbFuzz.Expr

abbrev SqlRow (D : Type) := List (Option D)

/-- Where a text is evaluated: the columns it can name, the rows of its group or window and
the definition of its named window. -/
structure Env (D : Type) where
  column : String → Option D
  peers : List (String → Option D)
  window : Option String

/-- The rows of a table as columns. -/
def Env.bind {D : Type} (names : List String) (row : SqlRow D) (env : Env D) : Env D :=
  { env with column := fun x => ((names.zip row).lookup x).getD (env.column x) }

/-- A database, and what its functions and operators compute. The functions have no effects
and depend on nothing but their arguments. -/
structure Interp (D : Type) where
  ofBool : Bool → D
  truth : D → Bool
  truth_ofBool : ∀ b, truth (ofBool b) = b
  /-- equal values, up to the collation -/
  same : D → D → Bool
  same_equivalence : Equivalence fun a b => same a b = true
  same_truth : ∀ a b, same a b = true → truth a = truth b
  precedes : Option D → Option D → Bool
  constant : String → Option D
  collate : String → Option D → Option D
  kept : String → Env D → Option D
  test : String → Env D → Truth
  call : String → List (Option D) → Option D
  aggregate : String → List (SqlRow D) → Option D
  windowed : String → Option String → List (SqlRow D) → SqlRow D → Option D
  binop : String → Option D → Option D → Option D
  cast : String → Option D → Option D
  interval : Bool → String → Option D → Option D → Option D
  json : String → String → Option D → Option D
  compare : String → Option D → Option D → Truth
  compare_equal : ∀ a b, compare "=" (some a) (some b) = Truth.ofBool (same a b)
  compare_null : ∀ a b, a = none ∨ b = none → compare "=" a b = .unknown
  like : String → String → Option D → Truth
  columns : String → List String
  table : String → List (SqlRow D)
  /-- the rows of a join; the right operand may name columns of the left -/
  join : String → List (SqlRow D) → (SqlRow D → List (SqlRow D)) →
    (SqlRow D → SqlRow D → Truth) → List (SqlRow D)
  /-- the groups of a `group by`: the columns of a representative, and the members -/
  group : String → List (String → Option D) →
    List ((String → Option D) × List (String → Option D))

namespace Interp

variable {D : Type} (I : Interp D)

def ofTruth : Truth → Option D
  | .yes => some (I.ofBool true)
  | .no => some (I.ofBool false)
  | .unknown => none

def toTruth : Option D → Truth
  | some d => .ofBool (I.truth d)
  | none => .unknown

@[simp] theorem toTruth_ofTruth (t : Truth) : I.toTruth (I.ofTruth t) = t := by
  cases t <;> simp [ofTruth, toTruth, I.truth_ofBool, Truth.ofBool]

theorem ofTruth_inj {a b : Truth} : I.ofTruth a = I.ofTruth b ↔ a = b :=
  ⟨fun h => by simpa using congrArg I.toTruth h, fun h => h ▸ rfl⟩

/-- NULLs are not distinct. -/
def sameValue : Option D → Option D → Bool
  | some a, some b => I.same a b
  | none, none => true
  | _, _ => false

def sameRow : SqlRow D → SqlRow D → Bool
  | [], [] => true
  | a :: as, b :: bs => I.sameValue a b && sameRow as bs
  | _, _ => false

theorem sameValue_equivalence : Equivalence fun a b => I.sameValue a b = true where
  refl a := by
    cases a with
    | none => rfl
    | some a => exact I.same_equivalence.refl a
  symm {a b} h := by
    cases a <;> cases b
    · rfl
    · exact absurd h (by simp [sameValue])
    · exact absurd h (by simp [sameValue])
    · exact I.same_equivalence.symm h
  trans {a b c} hab hbc := by
    cases a <;> cases b <;> cases c
    case none.none.none => rfl
    case some.some.some => exact I.same_equivalence.trans hab hbc
    all_goals simp [sameValue] at hab hbc

theorem sameRow_refl (a : SqlRow D) : I.sameRow a a = true := by
  induction a with
  | nil => rfl
  | cons v a ih => simp [sameRow, ih, I.sameValue_equivalence.refl v]

theorem sameRow_symm {a b : SqlRow D} (h : I.sameRow a b = true) : I.sameRow b a = true := by
  induction a generalizing b with
  | nil =>
    cases b with
    | nil => rfl
    | cons w b => exact absurd h (by simp [sameRow])
  | cons v a ih =>
    cases b with
    | nil => exact absurd h (by simp [sameRow])
    | cons w b =>
      simp only [sameRow, Bool.and_eq_true] at h ⊢
      exact ⟨I.sameValue_equivalence.symm h.1, ih h.2⟩

theorem sameRow_trans {a b c : SqlRow D} (hab : I.sameRow a b = true)
    (hbc : I.sameRow b c = true) : I.sameRow a c = true := by
  induction a generalizing b c with
  | nil =>
    cases b with
    | nil => exact hbc
    | cons w b => exact absurd hab (by simp [sameRow])
  | cons v a ih =>
    cases b with
    | nil => exact absurd hab (by simp [sameRow])
    | cons w b =>
      cases c with
      | nil => exact absurd hbc (by simp [sameRow])
      | cons u c =>
        simp only [sameRow, Bool.and_eq_true] at hab hbc ⊢
        exact ⟨I.sameValue_equivalence.trans hab.1 hbc.1, ih hab.2 hbc.2⟩

theorem sameRow_equivalence : Equivalence fun a b => I.sameRow a b = true :=
  ⟨I.sameRow_refl, I.sameRow_symm, I.sameRow_trans⟩

/-- The order of two rows by their columns at these positions. -/
def inOrder : List (ℕ × Bool) → SqlRow D → SqlRow D → Bool
  | [], _, _ => true
  | (i, asc) :: keys, a, b =>
    let x := (a[i]?).getD none
    let y := (b[i]?).getD none
    if I.sameValue x y then inOrder keys a b
    else if asc then I.precedes x y
    else I.precedes y x

def compound : CompoundType → List (SqlRow D) → List (SqlRow D) → List (SqlRow D)
  | .union, l, r | .unionDistinct, l, r => Bag.distinct I.sameRow (l ++ r)
  | .unionAll, l, r => l ++ r
  | .intersect, l, r => Bag.distinct I.sameRow (Bag.matched I.sameRow l r)
  | .intersectAll, l, r => Bag.inter I.sameRow l r
  | .except, l, r => Bag.distinct I.sameRow (Bag.unmatched I.sameRow l r)
  | .exceptAll, l, r => Bag.diff I.sameRow l r

/-- What `distinct`, `order by` and `limit` leave of the rows of a select list. -/
def finish (setQuantifier : String) (names : List String) (order : Option (List (String × Bool)))
    (limit : Option ℕ) (rows : List (SqlRow D)) : List (SqlRow D) :=
  let rows := if setQuantifier = "distinct" then Bag.distinct I.sameRow rows else rows
  let rows := match order with
    | some keys => rows.insertionSort fun a b =>
        I.inOrder (keys.map fun key => (names.idxOf key.1, key.2)) a b = true
    | none => rows
  match limit with
  | some n => rows.take n
  | none => rows

end Interp

/-- The value of a row of a query with one column. -/
def SqlRow.value {D : Type} (row : SqlRow D) : Option D := row.getLast?.join

def SqlQuery.names : SqlQuery → List String
  | .select _ _ _ names _ _ _ _ _ _ => names
  | .compound l _ _ => l.names

def SqlTable.names {D : Type} (I : Interp D) : SqlTable → List String
  | .table text => I.columns text
  | .subquery _ q ident => q.names.map (ident ++ "." ++ ·)
  | .joined l r _ _ => l.names I ++ r.names I

mutual

def Sql.eval {D : Type} (I : Interp D) : Sql → Env D → Option D
  | .column reference collation, env => I.collate collation (env.column reference)
  | .constant expr, _ => I.constant expr
  | .kept text, env => I.kept text env
  | .test text, env => I.ofTruth (I.test text env)
  | .literal (some b), _ => I.ofTruth (.ofBool b)
  | .literal none, _ => none
  | .caseWhen c t f, env => if I.toTruth (c.eval I env) = .yes then t.eval I env else f.eval I env
  | .coalesce abbrev_ es, env => I.call abbrev_ (evals I es env)
  | .binop oper l r, env => I.binop oper (l.eval I env) (r.eval I env)
  | .funcall proc true es, env =>
    I.aggregate proc (env.peers.map fun column => evals I es { env with column })
  | .funcall proc false es, env => I.call proc (evals I es env)
  | .winFuncall proc es, env =>
    I.windowed proc env.window (env.peers.map fun column => evals I es { env with column })
      (evals I es env)
  | .cast _ targetType e, env => I.cast targetType (e.eval I env)
  | .interval isAdd unit date amount, env =>
    I.interval isAdd unit (date.eval I env) (amount.eval I env)
  | .mysqlJson op path l, env => I.json op path (l.eval I env)
  | .comparison oper l r, env => I.ofTruth (I.compare oper (l.eval I env) (r.eval I env))
  | .distinct l r, env =>
    I.ofTruth (.ofBool (!I.sameValue (l.eval I env) (r.eval I env)))
  | .logic true l r, env =>
    I.ofTruth ((I.toTruth (l.eval I env)).or (I.toTruth (r.eval I env)))
  | .logic false l r, env =>
    I.ofTruth ((I.toTruth (l.eval I env)).and (I.toTruth (r.eval I env)))
  | .not e, env => I.ofTruth (I.toTruth (e.eval I env)).not
  | .isNull isNull e, env => I.ofTruth (.ofBool ((e.eval I env).isNone == isNull))
  | .between m l r, env =>
    I.ofTruth ((I.compare ">=" (m.eval I env) (l.eval I env)).and
      (I.compare "<=" (m.eval I env) (r.eval I env)))
  | .like l likeOperator likeFormat, env =>
    I.ofTruth (I.like likeOperator likeFormat (l.eval I env))
  | .inQuery isNegated l q, env =>
    let member := Truth.any ((q.rows I env).map fun row => I.compare "=" (l.eval I env) row.value)
    I.ofTruth (if isNegated then member.not else member)
  | .exists q, env => I.ofTruth (.ofBool (!(q.rows I env).isEmpty))
  | .compSubquery l op q, env =>
    I.ofTruth (I.compare op (l.eval I env) ((q.rows I env).head?.bind SqlRow.value))

def evals {D : Type} (I : Interp D) : List Sql → Env D → SqlRow D
  | [], _ => []
  | e :: es, env => e.eval I env :: evals I es env

def SqlQuery.rows {D : Type} (I : Interp D) : SqlQuery → Env D → List (SqlRow D)
  | .select _ setQuantifier es names from_ search group window order limit, env =>
    let found := ((from_.rows I env).map fun row => env.bind (from_.names I) row).filter
      fun env => I.toTruth (search.eval I env) = .yes
    let list := grouped I group
      ({ env with peers := found.map Env.column, window := window })
      found
    I.finish setQuantifier names order limit (list.map fun env => evals I es env)
  | .compound l type r, env => I.compound type (l.rows I env) (r.rows I env)

/-- The environments of the select list: one for each row, or one for each group. -/
def grouped {D : Type} (I : Interp D) : Option SqlGroup → Env D → List (Env D) → List (Env D)
  | none, env, found => found.map fun e => { env with column := e.column }
  | some (.mk groupBy having), env, found =>
    ((I.group groupBy (found.map Env.column)).map fun g =>
      { env with column := g.1, peers := g.2 }).filter
        fun env => I.toTruth (having.eval I env) = .yes

def SqlTable.rows {D : Type} (I : Interp D) : SqlTable → Env D → List (SqlRow D)
  | .table text, _ => I.table text
  | .subquery _ q _, env => q.rows I env
  | .joined l r type condition, env =>
    I.join type (l.rows I env) (fun row => r.rows I (env.bind (l.names I) row))
      fun a b => onCondition I condition (env.bind (l.names I ++ r.names I) (a ++ b))

def onCondition {D : Type} (I : Interp D) : Option Sql → Env D → Truth
  | none, _ => .yes
  | some c, env => I.toTruth (c.eval I env)

end

/-- Integers, and one table with one row. -/
def integers : Interp ℤ where
  ofBool b := if b then 1 else 0
  truth d := d ≠ 0
  truth_ofBool b := by cases b <;> rfl
  same a b := a = b
  same_equivalence := ⟨by simp, by simp, by simp⟩
  same_truth a b h := by
    rw [decide_eq_true_eq] at h
    rw [h]
  precedes a b := match a, b with
    | none, _ => true
    | some _, none => false
    | some a, some b => a ≤ b
  constant text := if text = "1" then some 1 else if text = "2" then some 2 else none
  collate _ v := v
  kept _ _ := none
  test _ _ := .unknown
  call _ args := args.head?.join
  aggregate _ rows := some rows.length
  windowed _ _ rows _ := some rows.length
  binop _ a b := match a, b with
    | some a, some b => some (a + b)
    | _, _ => none
  cast _ v := v
  interval _ _ v _ := v
  json _ _ v := v
  compare oper a b := match a, b with
    | some a, some b =>
      if oper = "=" then .ofBool (a = b)
      else if oper = "<=" then .ofBool (a ≤ b)
      else if oper = ">=" then .ofBool (b ≤ a)
      else .unknown
    | _, _ => .unknown
  compare_equal _ _ := rfl
  compare_null a b h := by
    rcases h with rfl | rfl
    · rfl
    · cases a <;> rfl
  like _ _ _ := .unknown
  columns _ := ["ref_0.c0"]
  table _ := [[some 1]]
  join _ ls rs on := ls.flatMap fun l => ((rs l).filter fun r => on l r = .yes).map (l ++ ·)
  group _ rows := rows.map fun row => (row, [row])

/-- The columns of no row. -/
def noRow : Env ℤ := ⟨fun _ => none, [], none⟩

end DbFuzz.Expr
