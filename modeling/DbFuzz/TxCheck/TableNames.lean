import DbFuzz.Core.Number
import DbFuzz.Lib.FirstUnused
import DbFuzz.TxCheck.Instrumentor
import Mathlib.Data.List.Dedup

/-! The names `unique_table_name` gives to tables, against the words the instrumentor
takes for tables: `t0`, `t1`, .. do not begin with `t_`. -/

namespace DbFuzz

open FirstUnused

/-! The generator. -/

def upperChar (c : Char) : Char :=
  if 'a' ≤ c ∧ c ≤ 'z' then Char.ofNat (c.toNat + 'A'.toNat - 'a'.toNat) else c

def upperTranslate (str : String) : String := String.ofList (str.toList.map upperChar)

def tableName (i : ℕ) : String := "t" ++ toString i

/-- The rounds of the loop from `i` on. -/
def uniqueTableNameAux (existTableName : List String) : ℕ → ℕ → Option String
  | 0, _ => none
  | fuel + 1, i =>
    if upperTranslate (tableName i) ∉ existTableName then some (tableName i)
    else uniqueTableNameAux existTableName fuel (i + 1)

/-- `existTableName` holds the upper case of every name in use. -/
def uniqueTableName (existTableName : List String) : Option String :=
  uniqueTableNameAux existTableName (existTableName.length + 1) 0

example : uniqueTableName ["T0", "T2"] = some "t1" := by decide +kernel

theorem toList_tableName (i : ℕ) : (tableName i).toList = 't' :: Nat.toDigits 10 i := by
  simp [tableName, toString, Nat.repr]

theorem upperChar_of_isDigitChar {c : Char} (h : isDigitChar c = true) : upperChar c = c := by
  rw [isDigitChar_iff] at h
  unfold upperChar
  rw [if_neg]
  rintro ⟨ha, -⟩
  have : 97 ≤ c.toNat := ha
  omega

/-- The number at the end of a name has no case. -/
theorem toList_upperTranslate_numbered (letter : String) (i : ℕ) :
    (upperTranslate (letter ++ toString i)).toList =
      letter.toList.map upperChar ++ Nat.toDigits 10 i := by
  have hdigits : (Nat.toDigits 10 i).map upperChar = Nat.toDigits 10 i := by
    conv_rhs => rw [← List.map_id (Nat.toDigits 10 i)]
    exact List.map_congr_left fun c hc => upperChar_of_isDigitChar (isDigitChar_of_mem_toDigits hc)
  rw [upperTranslate, String.toList_ofList, String.toList_append, List.map_append]
  simp only [toString, Nat.repr, String.toList_ofList, hdigits]

theorem upperTranslate_numbered_inj (letter : String) :
    Function.Injective fun i : ℕ => upperTranslate (letter ++ toString i) := by
  intro i j h
  have hlist := congrArg String.toList h
  dsimp only at hlist
  rw [toList_upperTranslate_numbered, toList_upperTranslate_numbered, List.append_cancel_left_eq]
    at hlist
  have hval := congrArg (fun ds => Nat.ofDigitChars 10 ds 0) hlist
  simpa using hval

theorem uniqueTableNameAux_eq (exist : List String) (fuel i : ℕ) :
    uniqueTableNameAux exist fuel i =
      (firstUnused (fun j => decide (upperTranslate (tableName j) ∈ exist)) fuel i).map
        tableName := by
  induction fuel generalizing i with
  | zero => rfl
  | succ fuel ih =>
    rw [uniqueTableNameAux, firstUnused, ih]
    by_cases h : upperTranslate (tableName i) ∈ exist <;> simp [h]

/-- The loop ends: among one name more than are in use, one is free. -/
theorem uniqueTableName_fresh (exist : List String) :
    ∃ j, uniqueTableName exist = some (tableName j) ∧ upperTranslate (tableName j) ∉ exist := by
  obtain ⟨j, hj, hfree⟩ := exists_firstUnused (upperTranslate_numbered_inj "t") exist
  refine ⟨j, ?_, hfree⟩
  rw [uniqueTableName, uniqueTableNameAux_eq]
  exact congrArg (Option.map tableName) hj

/-- A name that the generator can return. -/
def Generated (t : String) : Prop := ∃ exist, uniqueTableName exist = some t

theorem Generated.eq_tableName {t : String} (h : Generated t) : ∃ j, t = tableName j := by
  obtain ⟨exist, h⟩ := h
  rw [uniqueTableName, uniqueTableNameAux_eq] at h
  obtain ⟨j, -, hj⟩ := Option.map_eq_some_iff.1 h
  exact ⟨j, hj.symm⟩

/-! The scanner. -/

theorem prefix_of_mem_extractWordsAux {c : Char} {b : List Char} (hb : ∀ d ∈ b, wordChar d = true)
    {skip : ℕ} {prev : Option Char} {cs : List Char} {w : String}
    (h : w ∈ extractWordsAux (c :: b) skip prev cs) : c :: b <+: w.toList := by
  induction cs generalizing skip prev with
  | nil => simp [extractWordsAux] at h
  | cons d cs ih =>
    cases skip with
    | succ skip => exact ih h
    | zero =>
      rw [extractWordsAux] at h
      split at h
      · next hfound =>
        rcases List.mem_cons.1 h with rfl | h
        · rw [Bool.and_eq_true, List.isPrefixOf_iff_prefix] at hfound
          obtain ⟨rest, hrest⟩ := hfound.1
          rw [List.cons_append, List.cons.injEq] at hrest
          obtain ⟨rfl, rfl⟩ := hrest
          rw [List.takeWhile_append_of_pos hb, String.toList_ofList]
          exact ⟨_, List.cons_append⟩
        · exact ih h
      · exact ih h

/-- No word the instrumentor looks for is a name of the generator. -/
theorem not_generated_of_mem_words {text t : String} (h : t ∈ extractWordsBeginWith text "t_") :
    ¬ Generated t := by
  intro hgen
  obtain ⟨j, rfl⟩ := hgen.eq_tableName
  have hmem : tableName j ∈ extractWordsAux ['t', '_'] 0 none text.toList := by
    simpa [extractWordsBeginWith] using h
  obtain ⟨rest, hrest⟩ := prefix_of_mem_extractWordsAux (by simp [wordChar]) hmem
  obtain ⟨d, ds, hdigits, hd⟩ := exists_toDigits_eq_cons j
  rw [toList_tableName, hdigits] at hrest
  cases hrest
  exact absurd hd (by decide)

/-! Version sets. -/

variable {Val : Type}

/-- The statement as it prints. -/
def Prod.text (env : InstrumentEnv Val) (queryText : QuerySpec Val → String) : Prod Val → String
  | .rowWrite w => w.out env.targetDbms
  | .insert s => s.out
  | .txnString stmt => stmt
  | .query q => queryText q
  | .other text => text

/-- The text has the name as a word, in the scanner's sense of a word. -/
def Mentions (text t : String) : Prop :=
  ∃ before after, text.toList = before ++ t.toList ++ after ∧ wordStart before.getLast? = true ∧
    ∀ c ∈ after.head?, wordChar c = false

/-- A table of the generator that needs a version set in front of the statement. -/
def Referenced (env : InstrumentEnv Val) (queryText : QuerySpec Val → String) (stmt : Prod Val)
    (t : String) : Prop :=
  Generated t ∧ Mentions (stmt.text env queryText) t ∧ ∀ s, stmt = .insert s → t ≠ s.victim.ident

/-- The version set reads of a table among the emitted statements. -/
def versionSetsOf (block : List (Emitted Val)) (t : String) : List (Emitted Val) :=
  block.filter fun e => e.usage.stmtType == .versionSetRead && e.usage.targetTable == t

theorem mem_versionSetReads {tid : ℤ} {tables : List String} {e : Emitted Val}
    (h : e ∈ versionSetReads tid tables) : e.usage.targetTable ∈ tables := by
  obtain ⟨t, ht, rfl⟩ := List.mem_map.1 h
  exact ht

/-- A version set read is of a word that the scanner found. -/
theorem instrumentStmt_versionSet {env : InstrumentEnv Val} {queryText : QuerySpec Val → String}
    {tid : ℤ} {stmt : Prod Val} {block : List (Emitted Val)}
    (h : instrumentStmt env queryText tid stmt = .ok block) {e : Emitted Val} (he : e ∈ block)
    (hu : e.usage.stmtType = .versionSetRead) :
    e.usage.targetTable ∈ extractWordsBeginWith (stmt.text env queryText) "t_" := by
  have hblock : ∃ tables rest, block = versionSetReads tid tables ++ rest ∧
      tables ⊆ extractWordsBeginWith (stmt.text env queryText) "t_" ∧
      ∀ e ∈ rest, e.usage.stmtType ≠ .versionSetRead := by
    cases stmt with
    | rowWrite w =>
      cases w with
      | update s =>
        simp only [instrumentStmt, instrumentUpdate] at h
        split at h
        · cases h
        split at h
        · cases h
        split at h
        · cases h
        exact ⟨_, _, (Except.ok.inj h).symm, List.Subset.refl _, by simp [RowWrite.usage]⟩
      | delete s =>
        exact ⟨_, _, (Except.ok.inj h).symm, List.Subset.refl _, by simp [RowWrite.usage]⟩
    | insert s =>
      simp only [instrumentStmt, instrumentInsert] at h
      split at h
      · cases h
      split at h
      · cases h
      split at h
      · cases h
      exact ⟨_, _, (Except.ok.inj h).symm, List.erase_subset, by simp⟩
    | txnString text =>
      simp only [instrumentStmt] at h
      split at h
      · exact ⟨_, _, (Except.ok.inj h).symm, List.Subset.refl _, by simp [StmtUsage.mk']⟩
      · exact ⟨[], _, (Except.ok.inj h).symm, by simp, by simp [StmtUsage.mk']⟩
    | query q =>
      exact ⟨_, _, (Except.ok.inj h).symm, List.Subset.refl _, by simp [StmtUsage.mk']⟩
    | other text =>
      exact ⟨_, _, (Except.ok.inj h).symm, List.Subset.refl _, by simp [StmtUsage.mk']⟩
  obtain ⟨tables, rest, rfl, hsub, hrest⟩ := hblock
  rcases List.mem_append.1 he with he | he
  · exact hsub (mem_versionSetReads he)
  · exact absurd hu (hrest e he)

theorem versionSetsOf_generated {env : InstrumentEnv Val} {queryText : QuerySpec Val → String}
    {tid : ℤ} {stmt : Prod Val} {block : List (Emitted Val)}
    (h : instrumentStmt env queryText tid stmt = .ok block) {t : String} (ht : Generated t) :
    versionSetsOf block t = [] := by
  rw [versionSetsOf, List.filter_eq_nil_iff]
  intro e he hc
  rw [Bool.and_eq_true, beq_iff_eq, beq_iff_eq] at hc
  have hword := instrumentStmt_versionSet h he hc.1
  rw [hc.2] at hword
  exact not_generated_of_mem_words hword ht

/-- Every referenced table has its version set exactly when no table is referenced. -/
theorem versionSets_iff {env : InstrumentEnv Val} {queryText : QuerySpec Val → String} {tid : ℤ}
    {stmt : Prod Val} {block : List (Emitted Val)}
    (h : instrumentStmt env queryText tid stmt = .ok block) :
    (∀ t, Referenced env queryText stmt t → (versionSetsOf block t).length = 1) ↔
      ∀ t, ¬ Referenced env queryText stmt t := by
  constructor
  · intro hone t ht
    have := hone t ht
    rw [versionSetsOf_generated h ht.1] at this
    cases this
  · intro hnone t ht
    exact absurd ht (hnone t)

/-- A delete from the first generated table. -/
def deleteFirst : Prod ℕ :=
  .rowWrite (.delete ⟨⟨"t0", ["wkey", "pkey"]⟩, ⟨"(0 = 0)", fun _ _ => some true⟩, none⟩)

def plainEnv : InstrumentEnv ℕ where
  targetDbms := .mysql
  versionKeyName := "wkey"
  operators := ["="]
  handleTable := none
  collation :=
    { eqTruth := fun a b => some (a == b), le := fun a b => decide (a ≤ b)
      le_total := by simpa using Nat.le_total
      le_trans := by simpa using fun a b c => Nat.le_trans }

theorem deleteFirst_versionSets :
    ∃ block, instrumentStmt plainEnv (fun _ => "") 0 deleteFirst = .ok block ∧
      ((∀ t, Referenced plainEnv (fun _ => "") deleteFirst t → (versionSetsOf block t).length = 1) ↔
        ∀ t, ¬ Referenced plainEnv (fun _ => "") deleteFirst t) :=
  ⟨_, rfl, versionSets_iff rfl⟩

/-- No version set stands in front of the delete, which names its table. -/
theorem deleteFirst_without_versionSet :
    ∃ block, instrumentStmt plainEnv (fun _ => "") 0 deleteFirst = .ok block ∧
      Referenced plainEnv (fun _ => "") deleteFirst "t0" ∧ versionSetsOf block "t0" = [] := by
  have hgen : Generated "t0" := ⟨[], by decide +kernel⟩
  refine ⟨_, rfl, ⟨hgen, ⟨"delete from ".toList, "\nwhere \n(0 = 0)".toList, ?_, ?_, ?_⟩, ?_⟩, ?_⟩
  · decide +kernel
  · rfl
  · simp [wordChar]
  · intro s hs; cases hs
  · exact versionSetsOf_generated (show instrumentStmt plainEnv (fun _ => "") 0 deleteFirst = _ from rfl)
      hgen

end DbFuzz
