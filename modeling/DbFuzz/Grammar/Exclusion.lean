import Mathlib.Data.List.Dedup
import DbFuzz.Grammar.Keys

/-! `exclude_tables`: what a writing statement takes out of its own scope and out of the index
that all statements of a schema share. -/

namespace DbFuzz.Grammar

variable {τ : Type}

/-- `baseTable` is the `is_base_table` of a table; an alias has none. -/
structure NamedRelation (τ : Type) where
  ident : String
  columns : List (String × τ)
  baseTable : Option Bool
  deriving DecidableEq

namespace NamedRelation

def isView (t : NamedRelation τ) : Bool := t.baseTable == some false

def types (t : NamedRelation τ) : List τ := t.columns.map Prod.snd

end NamedRelation

/-- `tables_with_columns_of_type` -/
abbrev TypeIndex (τ : Type) := List (τ × NamedRelation τ)

/-- The tables of a scope and the index. -/
structure Sources (τ : Type) where
  tables : List (NamedRelation τ)
  index : TypeIndex τ

/-- The excluded entries are not kept: nothing puts them back. -/
def excludeTables (victim : NamedRelation τ) (s : Sources τ) : Sources τ where
  tables := s.tables.filter fun t => t.ident ≠ victim.ident
  index := s.index.filter fun e => e.2.ident ≠ victim.ident

def excludeAll (victims : List (NamedRelation τ)) (s : Sources τ) : Sources τ :=
  victims.foldl (fun s v => excludeTables v s) s

/-- The target and then the views, as the constructor of each writing statement does it. -/
def excludeForWrite (victim : NamedRelation τ) (s : Sources τ) : Sources τ :=
  let s := excludeTables victim s
  excludeAll (s.tables.filter NamedRelation.isView) s

theorem mem_excludeAll (victims : List (NamedRelation τ)) (s : Sources τ) :
    (∀ t, t ∈ (excludeAll victims s).tables ↔ t ∈ s.tables ∧ ∀ v ∈ victims, t.ident ≠ v.ident) ∧
      ∀ e, e ∈ (excludeAll victims s).index ↔
        e ∈ s.index ∧ ∀ v ∈ victims, e.2.ident ≠ v.ident := by
  induction victims generalizing s with
  | nil => simp [excludeAll]
  | cons v victims ih =>
    obtain ⟨htables, hindex⟩ := ih (excludeTables v s)
    constructor
    · intro t
      rw [excludeAll, List.foldl_cons, ← excludeAll, htables, List.forall_mem_cons]
      simp [excludeTables, and_assoc]
    · intro e
      rw [excludeAll, List.foldl_cons, ← excludeAll, hindex, List.forall_mem_cons]
      simp [excludeTables, and_assoc]

/-- Gone for a statement with this target: the target and the views of its scope. -/
def Gone (tables : List (NamedRelation τ)) (victim t : NamedRelation τ) : Prop :=
  t.ident = victim.ident ∨ ∃ v ∈ tables, v.isView = true ∧ t.ident = v.ident

theorem not_gone_iff {tables : List (NamedRelation τ)} {victim t : NamedRelation τ} :
    ¬ Gone tables victim t ↔ t.ident ≠ victim.ident ∧ ∀ v ∈ (tables.filter fun t =>
      t.ident ≠ victim.ident).filter NamedRelation.isView, t.ident ≠ v.ident := by
  simp only [Gone, not_or, not_exists, not_and, List.mem_filter, decide_eq_true_eq, and_imp]
  refine and_congr_right fun hne => forall₂_congr fun v _ => ⟨fun h _ => h, fun h hview heq => ?_⟩
  by_cases hv : v.ident = victim.ident
  · exact hne (heq.trans hv)
  · exact h hv hview heq

theorem mem_excludeForWrite {victim : NamedRelation τ} {s : Sources τ} :
    (∀ t, t ∈ (excludeForWrite victim s).tables ↔ t ∈ s.tables ∧ ¬ Gone s.tables victim t) ∧
      ∀ e, e ∈ (excludeForWrite victim s).index ↔ e ∈ s.index ∧ ¬ Gone s.tables victim e.2 := by
  obtain ⟨htables, hindex⟩ := mem_excludeAll
    ((excludeTables victim s).tables.filter NamedRelation.isView) (excludeTables victim s)
  constructor
  · intro t
    rw [excludeForWrite, htables, not_gone_iff, ← and_assoc]
    exact and_congr_left fun _ => by simp [excludeTables]
  · intro e
    rw [excludeForWrite, hindex, not_gone_iff, ← and_assoc]
    exact and_congr_left fun _ => by simp [excludeTables]

/-! The statements of a schema. -/

/-- The tables of a database, whose names differ. -/
structure Schema (τ : Type) where
  tables : List (NamedRelation τ)
  nodup : (tables.map NamedRelation.ident).Nodup

/-- What `pick_victim` accepts. -/
structure Victim (schema : Schema τ) where
  table : NamedRelation τ
  mem : table ∈ schema.tables
  base : table.baseTable = some true
  columns : table.columns ≠ []

/-- A generated statement. A query excludes nothing; a statement whose constructor throws
after the exclusion is one too. -/
inductive Stmt (schema : Schema τ)
  | query
  | write (stmt : WriteStmt) (victim : Victim schema)

variable {schema : Schema τ}

theorem ident_inj (schema : Schema τ) {t u : NamedRelation τ} (ht : t ∈ schema.tables)
    (hu : u ∈ schema.tables) (h : t.ident = u.ident) : t = u :=
  List.inj_on_of_nodup_map schema.nodup ht hu h

theorem gone_iff (victim : Victim schema) {t : NamedRelation τ} (ht : t ∈ schema.tables) :
    Gone schema.tables victim.table t ↔ t = victim.table ∨ t.isView = true := by
  constructor
  · rintro (h | ⟨v, hv, hview, h⟩)
    · exact Or.inl (ident_inj schema ht victim.mem h)
    · rw [ident_inj schema ht hv h]
      exact Or.inr hview
  · rintro (rfl | h)
    · exact Or.inl rfl
    · exact Or.inr ⟨t, ht, h, rfl⟩

def Stmt.victim : Stmt schema → Option (NamedRelation τ)
  | .query => none
  | .write _ victim => some victim.table

/-- What the expressions of a statement are made from. Its scope is a copy, the index is not. -/
def Stmt.sources (index : TypeIndex τ) : Stmt schema → Sources τ
  | .query => ⟨schema.tables, index⟩
  | .write _ victim => excludeForWrite victim.table ⟨schema.tables, index⟩

/-- The own target of a statement and, if it has one, the views. -/
def Stmt.Excludes (st : Stmt schema) (t : NamedRelation τ) : Prop :=
  ∃ v, st.victim = some v ∧ (t = v ∨ t.isView = true)

theorem Stmt.mem_sources_index (st : Stmt schema) {index : TypeIndex τ} {e : τ × NamedRelation τ}
    (he : e.2 ∈ schema.tables) :
    e ∈ (st.sources index).index ↔ e ∈ index ∧ ¬ st.Excludes e.2 := by
  cases st with
  | query => simp [Stmt.sources, Stmt.Excludes, Stmt.victim]
  | write stmt victim =>
    rw [Stmt.sources, mem_excludeForWrite.2, gone_iff victim he]
    simp [Stmt.Excludes, Stmt.victim]

/-- The index never gains an entry. -/
theorem Stmt.sources_index_subset (st : Stmt schema) (index : TypeIndex τ) :
    (st.sources index).index ⊆ index := by
  cases st with
  | query => exact fun _ h => h
  | write stmt victim => exact fun e h => (mem_excludeForWrite.2 e |>.1 h).1

/-! The index of a run. -/

section

variable [DecidableEq τ]

/-- One entry for a table and each type of its columns. -/
def generateIndex (tables : List (NamedRelation τ)) : TypeIndex τ :=
  tables.flatMap fun t => t.types.dedup.map fun type => (type, t)

/-- The tables that `atomic_subselect` picks from for a type. -/
def subselectCandidates (index : TypeIndex τ) (type : τ) : List (NamedRelation τ) :=
  (index.filter fun e => e.1 = type).map Prod.snd

theorem mem_generateIndex {tables : List (NamedRelation τ)} {e : τ × NamedRelation τ} :
    e ∈ generateIndex tables ↔ e.2 ∈ tables ∧ e.1 ∈ e.2.types := by
  obtain ⟨type, t⟩ := e
  simp only [generateIndex, List.mem_flatMap, List.mem_map, List.mem_dedup, Prod.mk.injEq]
  constructor
  · rintro ⟨t', ht', type', htype, rfl, rfl⟩
    exact ⟨ht', htype⟩
  · rintro ⟨ht, htype⟩
    exact ⟨t, ht, type, htype, rfl, rfl⟩

theorem mem_subselectCandidates {index : TypeIndex τ} {type : τ} {t : NamedRelation τ} :
    t ∈ subselectCandidates index type ↔ (type, t) ∈ index := by
  simp [subselectCandidates]

/-- The index after a sequence of statements. -/
def indexAfter (schema : Schema τ) (earlier : List (Stmt schema)) : TypeIndex τ :=
  earlier.foldl (fun index st => (st.sources index).index) (generateIndex schema.tables)

/-- The tables that a subselect of a statement may choose for a type. -/
def Stmt.candidates (earlier : List (Stmt schema)) (st : Stmt schema) (type : τ) :
    List (NamedRelation τ) :=
  subselectCandidates (st.sources (indexAfter schema earlier)).index type

theorem mem_indexAfter (earlier : List (Stmt schema)) {e : τ × NamedRelation τ} :
    e ∈ indexAfter schema earlier ↔
      (e.2 ∈ schema.tables ∧ e.1 ∈ e.2.types) ∧ ∀ st ∈ earlier, ¬ st.Excludes e.2 := by
  rw [← mem_generateIndex]
  have hrun : ∀ index : TypeIndex τ, (∀ e ∈ index, e.2 ∈ schema.tables) →
      (e ∈ earlier.foldl (fun index st => (st.sources index).index) index ↔
        e ∈ index ∧ ∀ st ∈ earlier, ¬ st.Excludes e.2) := by
    induction earlier with
    | nil => simp
    | cons st earlier ih =>
      intro index hindex
      rw [List.foldl_cons, ih _ fun e he => hindex e (st.sources_index_subset index he),
        List.forall_mem_cons]
      by_cases he : e ∈ index
      · rw [st.mem_sources_index (hindex e he), and_assoc]
      · exact iff_of_false (fun h => he (st.sources_index_subset index h.1)) fun h => he h.1
  exact hrun _ fun e he => (mem_generateIndex.1 he).1

/-- The candidates of a statement lack what it excludes and what any earlier one excluded. -/
theorem Stmt.mem_candidates (earlier : List (Stmt schema)) (st : Stmt schema) {type : τ}
    {t : NamedRelation τ} :
    t ∈ st.candidates earlier type ↔ (t ∈ schema.tables ∧ type ∈ t.types) ∧
      (∀ st ∈ earlier, ¬ st.Excludes t) ∧ ¬ st.Excludes t := by
  rw [Stmt.candidates, mem_subselectCandidates]
  by_cases ht : t ∈ schema.tables
  · rw [st.mem_sources_index ht, mem_indexAfter, and_assoc]
  · refine iff_of_false (fun h => ht ?_) fun h => ht h.1.1
    exact ((mem_indexAfter earlier).1 (st.sources_index_subset _ h)).1.1

/-- The candidates of a statement as they are without the statements before it. -/
def Stmt.Unaffected (earlier : List (Stmt schema)) (st : Stmt schema) : Prop :=
  ∀ type t, t ∈ st.candidates earlier type ↔
    t ∈ schema.tables ∧ type ∈ t.types ∧ ¬ st.Excludes t

/-- The statements before it leave the candidates of a statement as they are exactly when each
writing one among them has its target. -/
theorem Stmt.unaffected_iff (earlier : List (Stmt schema)) (st : Stmt schema) :
    st.Unaffected earlier ↔ ∀ e ∈ earlier, ∀ v, e.victim = some v → st.victim = some v := by
  constructor
  · intro h e he v hv
    obtain ⟨stmt, victim, rfl, rfl⟩ : ∃ stmt victim, e = .write stmt victim ∧ victim.table = v := by
      cases e with
      | query => cases hv
      | write stmt victim => exact ⟨stmt, victim, rfl, Option.some.inj hv⟩
    -- the earlier target has a column, and no candidate list holds it
    obtain ⟨c, hc⟩ := List.exists_mem_of_ne_nil _ victim.columns
    have htype : c.2 ∈ victim.table.types := List.mem_map_of_mem hc
    have hnot : victim.table ∉ st.candidates earlier c.2 := fun hmem =>
      ((st.mem_candidates earlier).1 hmem).2.1 _ he ⟨_, rfl, Or.inl rfl⟩
    rw [h c.2 victim.table] at hnot
    obtain ⟨w, hw, heq | hview⟩ : st.Excludes victim.table := by
      by_contra hcon
      exact hnot ⟨victim.mem, htype, hcon⟩
    · rw [hw, heq]
    · simp [NamedRelation.isView, victim.base] at hview
  · intro h type t
    rw [st.mem_candidates]
    constructor
    · exact fun ⟨⟨ht, htype⟩, _, hst⟩ => ⟨ht, htype, hst⟩
    · refine fun ⟨ht, htype, hst⟩ => ⟨⟨ht, htype⟩, fun e he hex => hst ?_, hst⟩
      obtain ⟨v, hv, hor⟩ := hex
      exact ⟨v, h e he v hv, hor⟩

end

/-! Two tables, of which a delete takes one from every later query. -/

def twoTables : Schema String where
  tables := [⟨"t_0", [("pkey", "int")], some true⟩, ⟨"t_1", [("pkey", "int")], some true⟩]
  nodup := by decide

def deleteFirst : Stmt twoTables :=
  .write .deleteStmt ⟨⟨"t_0", [("pkey", "int")], some true⟩, by decide, rfl, by decide⟩

theorem query_affected :
    (Stmt.query.candidates [deleteFirst] "int").map NamedRelation.ident = ["t_1"] ∧
      ¬ (Stmt.query : Stmt twoTables).Unaffected [deleteFirst] := by
  refine ⟨by decide, fun h => ?_⟩
  have hnone := (Stmt.unaffected_iff [deleteFirst] Stmt.query).1 h deleteFirst (by simp) _ rfl
  cases hnone

end DbFuzz.Grammar
