import DbFuzz.Lib.Loop
import DbFuzz.TxCheck.TxnFactory

/-! The tags that the instrumentor gives to the statements of `txn_statement_factory`. It knows the
writes and the control strings, and whatever is neither counts as a read of rows with keys. -/

namespace DbFuzz

variable {Val : Type}

/-- `BEGIN`, `COMMIT`, `ABORT` or the space holder. -/
def Prod.IsControl (p : Prod Val) : Prop :=
  ∃ text, p = .txnString text ∧ containsText text "SELECT * FROM" = false

namespace TxnSchema

variable {s : TxnSchema} {env : InstrumentEnv Val} {queryText : QuerySpec Val → String}

/-- A statement of a tested transaction. -/
def FromFactory (s : TxnSchema) (queryText : QuerySpec Val → String) (p : Prod Val) : Prop :=
  p.IsControl ∨ ∃ c, s.Drawn c ∧ p = c.prod s.targetDbms queryText

/-- What the instrumentor may emit for a statement, and under which tag. -/
inductive Tagged (s : TxnSchema) (env : InstrumentEnv Val) (queryText : QuerySpec Val → String) :
    Prod Val → Prod Val → StmtUsage → Prop
  | control {p : Prod Val} : p.IsControl → Tagged s env queryText p p (.mk' .initType false)
  | versionSet {p : Prod Val} (t : String) :
    Tagged s env queryText p (.txnString ("SELECT * FROM " ++ t)) ⟨.versionSetRead, true, t⟩
  | keyRead {p : Prod Val} : s.KeyQuery queryText p →
    Tagged s env queryText p p (.mk' .selectRead false)
  | sessionRead {p : Prod Val} : s.ChangesSession p →
    Tagged s env queryText p p (.mk' .selectRead false)
  | before (w : RowWrite Val) :
    Tagged s env queryText (.rowWrite w) (.query w.beforeWriteSelect)
      ⟨.beforeWriteRead, true, w.victim.ident⟩
  | rowWrite (w : RowWrite Val) : Tagged s env queryText (.rowWrite w) (.rowWrite w) w.usage
  | insert (i : InsertStmt Val) :
    Tagged s env queryText (.insert i) (.insert i) ⟨.insertWrite, false, i.victim.ident⟩
  | after {p : Prod Val} (t : Table) (value : ValueText Val) :
    Tagged s env queryText p (.query (afterWriteSelect env t value))
      ⟨.afterWriteRead, true, t.ident⟩

theorem tagged_versionSetReads {p : Prod Val} {tid : ℤ} {tables : List String} :
    ∀ e ∈ versionSetReads tid tables, s.Tagged env queryText p e.stmt e.usage := by
  intro e he
  obtain ⟨t, _, rfl⟩ := List.mem_map.1 he
  exact .versionSet t

theorem tagged_update {tid : ℤ} {u : UpdateStmt Val} {block : List (Emitted Val)}
    (h : instrumentUpdate env tid u = .ok block) :
    ∀ e ∈ block, s.Tagged env queryText (.rowWrite (.update u)) e.stmt e.usage := by
  revert h
  unfold instrumentUpdate
  by_cases hkey : env.versionKeyName ∉ u.victim.columns
  · rw [if_pos hkey]
    exact nofun
  · rw [if_neg hkey]
    generalize u.setList.lookup env.versionKeyName = found
    intro h
    cases found with
    | none => cases h
    | some value =>
      dsimp only at h
      split_ifs at h
      cases h
      refine List.forall_mem_append.2 ⟨tagged_versionSetReads, ?_⟩
      refine List.forall_mem_cons.2 ⟨.before (.update u), ?_⟩
      refine List.forall_mem_cons.2 ⟨.rowWrite (.update u), ?_⟩
      exact List.forall_mem_singleton.2 (.after u.victim value)

theorem tagged_delete {tid : ℤ} {d : DeleteStmt Val} {block : List (Emitted Val)}
    (h : instrumentDelete env tid d = .ok block) :
    ∀ e ∈ block, s.Tagged env queryText (.rowWrite (.delete d)) e.stmt e.usage := by
  cases h
  refine List.forall_mem_append.2 ⟨tagged_versionSetReads, ?_⟩
  refine List.forall_mem_cons.2 ⟨.before (.delete d), ?_⟩
  exact List.forall_mem_singleton.2 (.rowWrite (.delete d))

theorem tagged_insert {tid : ℤ} {i : InsertStmt Val} {block : List (Emitted Val)}
    (h : instrumentInsert env tid i = .ok block) :
    ∀ e ∈ block, s.Tagged env queryText (.insert i) e.stmt e.usage := by
  revert h
  unfold instrumentInsert
  generalize i.victim.columns.findIdx? (· == env.versionKeyName) = wkeyIdx
  intro h
  cases wkeyIdx with
  | none => cases h
  | some wkeyIdx =>
    revert h
    dsimp only
    generalize i.valueExprsVector.head?.bind (·[wkeyIdx]?) = found
    intro h
    cases found with
    | none => cases h
    | some value =>
      dsimp only at h
      split_ifs at h
      cases h
      refine List.forall_mem_append.2 ⟨tagged_versionSetReads, ?_⟩
      refine List.forall_mem_cons.2 ⟨.insert i, ?_⟩
      exact List.forall_mem_singleton.2 (.after i.victim value)

theorem tagged_select {tid : ℤ} {p : Prod Val} {text : String}
    (h : s.KeyQuery queryText p ∨ s.ChangesSession p) :
    ∀ e ∈ instrumentSelect tid p text, s.Tagged env queryText p e.stmt e.usage := by
  refine List.forall_mem_append.2 ⟨tagged_versionSetReads, List.forall_mem_singleton.2 ?_⟩
  rcases h with h | h
  · exact .keyRead h
  · exact .sessionRead h

/-- The text that a query is searched for table names. -/
def readText (queryText : QuerySpec Val → String) : Prod Val → String
  | .query q => queryText q
  | .other text => text
  | _ => ""

theorem instrumentStmt_keyQuery {p : Prod Val} {tid : ℤ} (h : s.KeyQuery queryText p) :
    instrumentStmt env queryText tid p = .ok (instrumentSelect tid p (readText queryText p)) := by
  cases h with
  | querySpec _ => exact rfl
  | @commonTableExpression c _ =>
    generalize c.out queryText = text
    exact rfl

theorem instrumentStmt_changesSession {p : Prod Val} {tid : ℤ} (h : s.ChangesSession p) :
    instrumentStmt env queryText tid p = .ok (instrumentSelect tid p (readText queryText p)) := by
  cases h with
  | xaStmt x =>
    generalize x.out = text
    exact rfl
  | setIsolationStmt level =>
    generalize setIsolationOut s.targetDbms level = text
    exact rfl

/-- One round of the loop, for each class the factory can return. -/
theorem FromFactory.tagged {p : Prod Val} {tid : ℤ} {block : List (Emitted Val)}
    (hp : s.FromFactory queryText p) (h : instrumentStmt env queryText tid p = .ok block) :
    ∀ e ∈ block, s.Tagged env queryText p e.stmt e.usage := by
  rcases hp with ⟨text, rfl, htext⟩ | ⟨c, hdrawn, hc⟩
  · rw [instrumentStmt, if_neg (by rw [htext]; decide)] at h
    cases h
    exact List.forall_mem_singleton.2 (.control ⟨text, rfl, htext⟩)
  · have hclass : s.KeyQuery queryText p ∨ s.ChangesSession p ∨
        (∃ w, p = .rowWrite w) ∨ ∃ i, p = .insert i := hc ▸ hdrawn.keyQuery_or
    rcases hclass with hkey | hsession | ⟨w, hw⟩ | ⟨i, hi⟩
    · rw [instrumentStmt_keyQuery hkey] at h
      exact Except.ok.inj h ▸ tagged_select (.inl hkey)
    · rw [instrumentStmt_changesSession hsession] at h
      exact Except.ok.inj h ▸ tagged_select (.inr hsession)
    · subst hw
      cases w with
      | update u => exact tagged_update h
      | delete d => exact tagged_delete h
    · subst hi
      exact tagged_insert h

theorem Tagged.keyQuery {source p : Prod Val} {usage : StmtUsage}
    (h : s.Tagged env queryText source p usage) (hread : usage.stmtType = .selectRead)
    (hnot : ¬ s.ChangesSession source) : s.KeyQuery queryText p := by
  cases h with
  | keyRead hkey => exact hkey
  | sessionRead hsession => exact absurd hsession hnot
  | rowWrite w => cases w <;> cases hread
  | _ => cases hread

end TxnSchema

theorem mem_instrumentor {env : InstrumentEnv Val} {queryText : QuerySpec Val → String}
    {queue : List (Prod Val × ℤ)} {entries : List (Emitted Val)}
    (h : instrumentor env queryText queue = .ok entries) (e : Emitted Val) :
    e ∈ entries ↔
      ∃ x ∈ queue, ∃ block, instrumentStmt env queryText x.2 x.1 = .ok block ∧ e ∈ block := by
  obtain ⟨parts, hparts, h⟩ := Loop.bind_eq_ok_iff.1 h
  cases h
  rw [List.mem_flatten]
  constructor
  · rintro ⟨block, hblock, he⟩
    obtain ⟨x, hx, hx'⟩ := (Loop.mem_mapM_iff hparts block).1 hblock
    exact ⟨x, hx, block, hx', he⟩
  · rintro ⟨x, hx, block, hx', he⟩
    exact ⟨block, (Loop.mem_mapM_iff hparts block).2 ⟨x, hx, hx'⟩, he⟩

end DbFuzz
