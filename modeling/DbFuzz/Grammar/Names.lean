import DbFuzz.TxCheck.TableNames

/-! The names `unique_column_name`, `unique_window_name`, `unique_table_name` and
`unique_index_name` return between two calls of `clear_naming_data` (`grammar.cc`). -/

namespace DbFuzz.Naming

open FirstUnused

/-- The `ident()`s of a scope's tables, and its indexes. -/
structure Scope where
  tables : List String
  indexes : List String

/-- The static variables of the generators. -/
structure NamingData where
  createdColNames : List String
  createdWinNames : List String
  existTableName : List String
  existIndexName : List String
  tableInit : Bool
  indexInit : Bool

def clearNamingData (d : NamingData) : NamingData :=
  { d with
    createdColNames := [], createdWinNames := [], existTableName := [], existIndexName := []
    tableInit := false, indexInit := false }

/-- The loop of a generator: the first name whose upper case is not in the set. -/
def uniqueName (letter : String) (used : List String) : Option String :=
  (firstUnused (fun i => decide (upperTranslate (letter ++ toString i) ∈ used))
    (used.length + 1) 0).map fun i => letter ++ toString i

def uniqueColumnName (d : NamingData) : Option (String × NamingData) :=
  (uniqueName "c" d.createdColNames).map fun columnName =>
    (columnName, { d with createdColNames := upperTranslate columnName :: d.createdColNames })

/-- The set keeps the name as it is. -/
def uniqueWindowName (d : NamingData) : Option (String × NamingData) :=
  (uniqueName "w" d.createdWinNames).map fun windowName =>
    (windowName, { d with createdWinNames := windowName :: d.createdWinNames })

/-- The set after the names of the scope went in, which they do once. -/
def initNames (init : Bool) (names used : List String) : List String :=
  if init then used else names.map upperTranslate ++ used

def uniqueTableName (s : Scope) (d : NamingData) : Option (String × NamingData) :=
  let existTableName := initNames d.tableInit s.tables d.existTableName
  (uniqueName "t" existTableName).map fun newTableName =>
    (newTableName, { d with
      existTableName := upperTranslate newTableName :: existTableName, tableInit := true })

def uniqueIndexName (s : Scope) (d : NamingData) : Option (String × NamingData) :=
  let existIndexName := initNames d.indexInit s.indexes d.existIndexName
  (uniqueName "i" existIndexName).map fun newIndexName =>
    (newIndexName, { d with
      existIndexName := upperTranslate newIndexName :: existIndexName, indexInit := true })

/-! Runs. -/

inductive Kind
  | column
  | window
  | table
  | index
  deriving DecidableEq

inductive Call
  | uniqueColumnName
  | uniqueWindowName
  | uniqueTableName (s : Scope)
  | uniqueIndexName (s : Scope)

namespace Call

def kind : Call → Kind
  | uniqueColumnName => .column
  | uniqueWindowName => .window
  | uniqueTableName _ => .table
  | uniqueIndexName _ => .index

/-- The names the scope already has, of the kind that is asked for. -/
def existing : Call → List String
  | uniqueColumnName | uniqueWindowName => []
  | uniqueTableName s => s.tables
  | uniqueIndexName s => s.indexes

def run : Call → NamingData → Option (String × NamingData)
  | uniqueColumnName => Naming.uniqueColumnName
  | uniqueWindowName => Naming.uniqueWindowName
  | uniqueTableName s => Naming.uniqueTableName s
  | uniqueIndexName s => Naming.uniqueIndexName s

end Call

/-- The calls with the names they return. -/
def runCalls : List Call → NamingData → Option (List (Call × String) × NamingData)
  | [], d => some ([], d)
  | c :: rest, d =>
    (c.run d).bind fun r => (runCalls rest r.2).map fun out => ((c, r.1) :: out.1, out.2)

/-- The names in the scope of the first call of a kind. -/
def firstExisting (k : Kind) (results : List (Call × String)) : List String :=
  match results.find? fun r => r.1.kind = k with
  | some r => r.1.existing
  | none => []

/-- What the names are for. -/
structure NamesUnique (results : List (Call × String)) : Prop where
  distinct : results.Pairwise fun r r' =>
    r.1.kind = r'.1.kind → upperTranslate r.2 ≠ upperTranslate r'.2
  notExisting : ∀ r ∈ results, ∀ name ∈ firstExisting r.1.kind results,
    upperTranslate r.2 ≠ upperTranslate name

/-! The loop of a generator. -/

theorem uniqueName_fresh (letter : String) (used : List String) :
    ∃ i : ℕ, uniqueName letter used = some (letter ++ toString i) ∧
      upperTranslate (letter ++ toString i) ∉ used := by
  obtain ⟨i, hi, hfree⟩ := exists_firstUnused (upperTranslate_numbered_inj letter) used
  exact ⟨i, by rw [uniqueName, hi]; rfl, hfree⟩

/-- The generator the table names of `TableNames` come from. -/
theorem uniqueName_table (used : List String) : uniqueName "t" used = DbFuzz.uniqueTableName used := by
  rw [DbFuzz.uniqueTableName, uniqueTableNameAux_eq]
  rfl

/-- No stored window name is in upper case, so the first name is always free. -/
theorem uniqueName_window {used : List String} (h : ∀ name ∈ used, name = "w0") :
    uniqueName "w" used = some "w0" := by
  have hfree : upperTranslate ("w" ++ toString 0) ∉ used := by
    intro hmem
    exact absurd (h _ hmem) (by decide)
  rw [uniqueName, firstUnused, if_neg (by simpa using hfree)]
  rfl

/-! One call. -/

namespace NamingData

def used (d : NamingData) : Kind → List String
  | .column => d.createdColNames
  | .window => d.createdWinNames
  | .table => d.existTableName
  | .index => d.existIndexName

/-- The scope has been looked at. -/
def ready (d : NamingData) : Kind → Bool
  | .column | .window => true
  | .table => d.tableInit
  | .index => d.indexInit

end NamingData

/-- What a call other than `unique_window_name` does. -/
structure Issues (c : Call) (d : NamingData) (name : String) (d' : NamingData) : Prop where
  others : ∀ k ≠ c.kind, d'.used k = d.used k ∧ d'.ready k = d.ready k
  ready : d'.ready c.kind = true
  fresh : upperTranslate name ∉ d.used c.kind
  stored : upperTranslate name ∈ d'.used c.kind
  grows : d.used c.kind ⊆ d'.used c.kind
  existing : d.ready c.kind = false → ∀ n ∈ c.existing,
    upperTranslate n ∈ d'.used c.kind ∧ upperTranslate name ≠ upperTranslate n

theorem subset_initNames (init : Bool) (names used : List String) :
    used ⊆ initNames init names used := by
  cases init with
  | true => exact List.Subset.refl used
  | false => exact List.subset_append_right _ used

theorem mem_initNames {names used : List String} {n : String} (hn : n ∈ names) :
    upperTranslate n ∈ initNames false names used :=
  List.mem_append_left _ (List.mem_map_of_mem hn)

theorem uniqueColumnName_issues (d : NamingData) :
    ∃ name d', uniqueColumnName d = some (name, d') ∧ Issues .uniqueColumnName d name d' := by
  obtain ⟨i, hi, hfree⟩ := uniqueName_fresh "c" d.createdColNames
  refine ⟨_, _, by rw [uniqueColumnName, hi]; rfl, ?_⟩
  refine ⟨fun k hk => ?_, rfl, hfree, List.mem_cons_self, List.subset_cons_self _ _,
    fun h => by cases h⟩
  cases k <;> first | exact absurd rfl hk | exact ⟨rfl, rfl⟩

theorem uniqueTableName_issues (s : Scope) (d : NamingData) :
    ∃ name d', uniqueTableName s d = some (name, d') ∧ Issues (.uniqueTableName s) d name d' := by
  obtain ⟨i, hi, hfree⟩ := uniqueName_fresh "t" (initNames d.tableInit s.tables d.existTableName)
  have hgrows := subset_initNames d.tableInit s.tables d.existTableName
  refine ⟨_, _, by rw [uniqueTableName, hi]; rfl, ?_⟩
  refine ⟨fun k hk => ?_, rfl, fun h => hfree (hgrows h), List.mem_cons_self,
    fun n hn => List.mem_cons_of_mem _ (hgrows hn), fun hinit n hn => ?_⟩
  · cases k <;> first | exact absurd rfl hk | exact ⟨rfl, rfl⟩
  · have hinit : d.tableInit = false := hinit
    rw [hinit] at hfree ⊢
    exact ⟨List.mem_cons_of_mem _ (mem_initNames hn), fun heq => hfree (heq ▸ mem_initNames hn)⟩

theorem uniqueIndexName_issues (s : Scope) (d : NamingData) :
    ∃ name d', uniqueIndexName s d = some (name, d') ∧ Issues (.uniqueIndexName s) d name d' := by
  obtain ⟨i, hi, hfree⟩ := uniqueName_fresh "i" (initNames d.indexInit s.indexes d.existIndexName)
  have hgrows := subset_initNames d.indexInit s.indexes d.existIndexName
  refine ⟨_, _, by rw [uniqueIndexName, hi]; rfl, ?_⟩
  refine ⟨fun k hk => ?_, rfl, fun h => hfree (hgrows h), List.mem_cons_self,
    fun n hn => List.mem_cons_of_mem _ (hgrows hn), fun hinit n hn => ?_⟩
  · cases k <;> first | exact absurd rfl hk | exact ⟨rfl, rfl⟩
  · have hinit : d.indexInit = false := hinit
    rw [hinit] at hfree ⊢
    exact ⟨List.mem_cons_of_mem _ (mem_initNames hn), fun heq => hfree (heq ▸ mem_initNames hn)⟩

theorem Call.run_issues {c : Call} (h : c.kind ≠ .window) (d : NamingData) :
    ∃ name d', c.run d = some (name, d') ∧ Issues c d name d' := by
  cases c with
  | uniqueColumnName => exact uniqueColumnName_issues d
  | uniqueWindowName => exact absurd rfl h
  | uniqueTableName s => exact uniqueTableName_issues s d
  | uniqueIndexName s => exact uniqueIndexName_issues s d

/-- `unique_window_name` returns one name again and again. -/
theorem run_uniqueWindowName {d : NamingData} (h : ∀ name ∈ d.createdWinNames, name = "w0") :
    Call.uniqueWindowName.run d =
      some ("w0", { d with createdWinNames := "w0" :: d.createdWinNames }) := by
  rw [Call.run, Naming.uniqueWindowName, uniqueName_window h]
  rfl

/-! Runs. -/

theorem firstExisting_append (k : Kind) (past : List (Call × String)) (r : Call × String) :
    firstExisting k (past ++ [r]) =
      if ∃ q ∈ past, q.1.kind = k then firstExisting k past
      else if r.1.kind = k then r.1.existing else [] := by
  unfold firstExisting
  rw [List.find?_append]
  cases hfind : past.find? fun r => r.1.kind = k with
  | some q =>
    have hmem := List.mem_of_find?_eq_some hfind
    have hk := List.find?_some hfind
    rw [if_pos ⟨q, hmem, by simpa using hk⟩]
    rfl
  | none =>
    rw [if_neg (by simpa using hfind)]
    by_cases hk : r.1.kind = k <;> simp [hk]

theorem existing_of_window {c : Call} (h : c.kind = .window) : c.existing = [] := by
  cases c <;> first | rfl | cases h

theorem firstExisting_window (results : List (Call × String)) : firstExisting .window results = [] := by
  unfold firstExisting
  cases hfind : results.find? fun r => r.1.kind = .window with
  | none => rfl
  | some r => exact existing_of_window (by simpa using List.find?_some hfind)

/-- What holds between the calls. -/
structure Held (past : List (Call × String)) (d : NamingData) : Prop where
  windows : ∀ name ∈ d.createdWinNames, name = "w0"
  ready : ∀ r ∈ past, d.ready r.1.kind = true
  called : ∀ k, d.ready k = true → k = .table ∨ k = .index → ∃ r ∈ past, r.1.kind = k
  stored : ∀ r ∈ past, r.1.kind ≠ .window → upperTranslate r.2 ∈ d.used r.1.kind
  existing : ∀ k, d.ready k = true → ∀ n ∈ firstExisting k past, upperTranslate n ∈ d.used k
  window : ∀ r ∈ past, r.1.kind = .window → r.2 = "w0"
  distinct : past.Pairwise fun r r' =>
    r.1.kind = r'.1.kind → r.1.kind ≠ .window → upperTranslate r.2 ≠ upperTranslate r'.2
  notExisting : ∀ r ∈ past, ∀ n ∈ firstExisting r.1.kind past,
    upperTranslate r.2 ≠ upperTranslate n

theorem held_clearNamingData (d : NamingData) : Held [] (clearNamingData d) where
  windows := by simp [clearNamingData]
  ready := by simp
  called := fun k hk => by rintro (rfl | rfl) <;> cases hk
  stored := by simp
  existing := by simp [firstExisting]
  window := by simp
  distinct := List.Pairwise.nil
  notExisting := by simp

/-- What the results keep when a call comes after them. -/
theorem Held.results {past : List (Call × String)} {d : NamingData} (h : Held past d) {c : Call}
    {name : String} (hnew : c.kind ≠ .window → upperTranslate name ∉ d.used c.kind) :
    (past ++ [(c, name)]).Pairwise fun r r' =>
      r.1.kind = r'.1.kind → r.1.kind ≠ .window → upperTranslate r.2 ≠ upperTranslate r'.2 := by
  refine List.pairwise_append.2 ⟨h.distinct, List.pairwise_singleton _ _, fun r hr r' hr' => ?_⟩
  obtain rfl := List.mem_singleton.1 hr'
  intro hkind hwin heq
  refine hnew (hkind ▸ hwin) ?_
  rw [← hkind, ← heq]
  exact h.stored r hr hwin

/-- The names of the first scope are stored, or the call is the first of its kind. -/
theorem Held.first {past : List (Call × String)} {d : NamingData} (h : Held past d) {c : Call}
    {name n : String} (hn : n ∈ firstExisting c.kind (past ++ [(c, name)])) :
    upperTranslate n ∈ d.used c.kind ∨ d.ready c.kind = false ∧ n ∈ c.existing := by
  rw [firstExisting_append, if_pos (show (c, name).1.kind = c.kind from rfl)] at hn
  split_ifs at hn with hpast
  · obtain ⟨q, hq, hk⟩ := hpast
    exact Or.inl (h.existing _ (hk ▸ h.ready q hq) n hn)
  · refine Or.inr ⟨?_, hn⟩
    -- a column or a window call has no names in its scope
    rw [← Bool.not_eq_true]
    intro hready
    refine hpast (h.called _ hready ?_)
    cases c with
    | uniqueColumnName => cases hn
    | uniqueWindowName => cases hn
    | uniqueTableName s => exact Or.inl rfl
    | uniqueIndexName s => exact Or.inr rfl

theorem firstExisting_append_of_mem {past : List (Call × String)} {q r : Call × String}
    (hq : q ∈ past) : firstExisting q.1.kind (past ++ [r]) = firstExisting q.1.kind past := by
  rw [firstExisting_append, if_pos ⟨q, hq, rfl⟩]

theorem Held.issues {past : List (Call × String)} {d d' : NamingData} (h : Held past d) {c : Call}
    {name : String} (hc : c.kind ≠ .window) (hi : Issues c d name d') :
    Held (past ++ [(c, name)]) d' := by
  have hused : ∀ k, d.used k ⊆ d'.used k := fun k => by
    by_cases hk : k = c.kind
    · exact hk ▸ hi.grows
    · rw [(hi.others k hk).1]
      exact List.Subset.refl _
  have hready : ∀ k, d.ready k = true → d'.ready k = true := fun k hk => by
    by_cases hkc : k = c.kind
    · exact hkc ▸ hi.ready
    · rw [(hi.others k hkc).2]
      exact hk
  have hmem : ∀ {P : Call × String → Prop}, (∀ r ∈ past, P r) → P (c, name) →
      ∀ r ∈ past ++ [(c, name)], P r :=
    fun hp hnew r hr => (List.mem_append.1 hr).elim (hp r) fun hr => List.mem_singleton.1 hr ▸ hnew
  constructor
  case windows =>
    intro n hn
    have hwin : d'.createdWinNames = d.createdWinNames := (hi.others .window (Ne.symm hc)).1
    exact h.windows n (hwin ▸ hn)
  case ready => exact hmem (fun r hr => hready _ (h.ready r hr)) hi.ready
  case called =>
    intro k hk hkind
    by_cases hkc : k = c.kind
    · exact ⟨_, List.mem_append_right _ List.mem_cons_self, hkc.symm⟩
    · rw [(hi.others k hkc).2] at hk
      obtain ⟨r, hr, hrk⟩ := h.called k hk hkind
      exact ⟨r, List.mem_append_left _ hr, hrk⟩
  case stored => exact hmem (fun r hr hw => hused _ (h.stored r hr hw)) fun _ => hi.stored
  case existing =>
    intro k hk n hn
    by_cases hkc : k = c.kind
    · subst hkc
      rcases h.first hn with hold | ⟨hnot, hnew⟩
      · exact hi.grows hold
      · exact (hi.existing hnot n hnew).1
    · rw [(hi.others k hkc).2] at hk
      rw [firstExisting_append, if_neg (Ne.symm hkc)] at hn
      split_ifs at hn
      · exact hused k (h.existing k hk n hn)
      · cases hn
  case window => exact hmem h.window fun hw => absurd hw hc
  case distinct => exact h.results fun _ => hi.fresh
  case notExisting =>
    refine hmem (fun r hr n hn => ?_) fun n hn => ?_
    · rw [firstExisting_append_of_mem hr] at hn
      exact h.notExisting r hr n hn
    · rcases h.first hn with hold | ⟨hnot, hnew⟩
      · exact fun heq => hi.fresh (heq ▸ hold)
      · exact (hi.existing hnot n hnew).2

theorem Held.window_call {past : List (Call × String)} {d : NamingData} (h : Held past d) :
    Held (past ++ [(.uniqueWindowName, "w0")])
      { d with createdWinNames := "w0" :: d.createdWinNames } := by
  have hused : ∀ k ≠ .window,
      NamingData.used { d with createdWinNames := "w0" :: d.createdWinNames } k = d.used k :=
    fun k hk => by cases k <;> first | exact absurd rfl hk | rfl
  have hready : ∀ k,
      NamingData.ready { d with createdWinNames := "w0" :: d.createdWinNames } k = d.ready k :=
    fun k => by cases k <;> rfl
  have hmem : ∀ {P : Call × String → Prop}, (∀ r ∈ past, P r) → P (.uniqueWindowName, "w0") →
      ∀ r ∈ past ++ [(.uniqueWindowName, "w0")], P r :=
    fun hp hnew r hr => (List.mem_append.1 hr).elim (hp r) fun hr => List.mem_singleton.1 hr ▸ hnew
  constructor
  case windows => exact List.forall_mem_cons.2 ⟨rfl, h.windows⟩
  case ready => exact hmem (fun r hr => (hready _).trans (h.ready r hr)) rfl
  case called =>
    intro k hk hkind
    obtain ⟨r, hr, hrk⟩ := h.called k ((hready k).symm.trans hk) hkind
    exact ⟨r, List.mem_append_left _ hr, hrk⟩
  case stored =>
    exact hmem (fun r hr hw => (hused _ hw).symm ▸ h.stored r hr hw) fun hw => absurd rfl hw
  case existing =>
    intro k hk n hn
    by_cases hw : k = .window
    · rw [hw, firstExisting_window] at hn
      cases hn
    · rw [hused k hw]
      have hkind : Call.uniqueWindowName.kind ≠ k := Ne.symm hw
      rw [firstExisting_append, if_neg hkind] at hn
      split_ifs at hn
      · exact h.existing k ((hready k).symm.trans hk) n hn
      · cases hn
  case window => exact hmem h.window fun _ => rfl
  case distinct => exact h.results fun hw => absurd rfl hw
  case notExisting =>
    refine hmem (fun r hr n hn => ?_) fun n hn => ?_
    · rw [firstExisting_append_of_mem hr] at hn
      exact h.notExisting r hr n hn
    · rw [Call.kind, firstExisting_window] at hn
      cases hn

/-- A run of the generators ends, and what holds between the calls holds behind it. -/
theorem runCalls_held (calls : List Call) {past : List (Call × String)} {d : NamingData}
    (h : Held past d) : ∃ results d', runCalls calls d = some (results, d') ∧
      results.map Prod.fst = calls ∧ Held (past ++ results) d' := by
  induction calls generalizing past d with
  | nil => exact ⟨[], d, rfl, rfl, by rwa [List.append_nil]⟩
  | cons c rest ih =>
    have hone : ∃ name d', c.run d = some (name, d') ∧ Held (past ++ [(c, name)]) d' := by
      by_cases hc : c.kind = .window
      · cases c with
        | uniqueWindowName => exact ⟨_, _, run_uniqueWindowName h.windows, h.window_call⟩
        | uniqueColumnName => cases hc
        | uniqueTableName s => cases hc
        | uniqueIndexName s => cases hc
      · obtain ⟨name, d', hrun, hi⟩ := Call.run_issues hc d
        exact ⟨name, d', hrun, h.issues hc hi⟩
    obtain ⟨name, d1, hrun, h1⟩ := hone
    obtain ⟨results, d', hrest, hmap, h'⟩ := ih h1
    refine ⟨(c, name) :: results, d', ?_, by rw [List.map_cons, hmap], ?_⟩
    · rw [runCalls, hrun, Option.bind_some, hrest]
      rfl
    · rwa [List.append_assoc, List.singleton_append] at h'

theorem pairwise_false_iff {α : Type} {l : List α} :
    l.Pairwise (fun _ _ => False) ↔ l.length ≤ 1 := by
  match l with
  | [] => simp
  | [_] => simp
  | x :: y :: rest =>
    refine ⟨fun h => ((List.pairwise_cons.1 h).1 y List.mem_cons_self).elim, fun h => ?_⟩
    simp only [List.length_cons] at h
    omega

/-- The names are what they are for when at most one of the calls is for a window. -/
theorem namesUnique_iff (calls : List Call) (d : NamingData) :
    ∃ results d', runCalls calls (clearNamingData d) = some (results, d') ∧
      results.map Prod.fst = calls ∧
      (NamesUnique results ↔ (calls.filter fun c => c.kind = .window).length ≤ 1) := by
  obtain ⟨results, d', hrun, hmap, h⟩ := runCalls_held calls (held_clearNamingData d)
  rw [List.nil_append] at h
  have hwindows : (calls.filter fun c => c.kind = .window).length ≤ 1 ↔
      results.Pairwise fun r r' => r.1.kind = .window → r'.1.kind = .window → False := by
    rw [← hmap, List.filter_map, List.length_map, ← pairwise_false_iff, List.pairwise_filter]
    simp
  rw [hwindows]
  refine ⟨results, d', hrun, hmap, fun hunique => ?_, fun hone => ⟨?_, h.notExisting⟩⟩
  · refine hunique.distinct.imp_of_mem fun hr hr' hdistinct hw hw' => ?_
    refine hdistinct (hw.trans hw'.symm) ?_
    rw [h.window _ hr hw, h.window _ hr' hw']
  · refine (h.distinct.and hone).imp fun {r r'} hboth hkind => ?_
    by_cases hw : r.1.kind = .window
    · exact (hboth.2 hw (hkind.symm.trans hw)).elim
    · exact hboth.1 hkind hw

/-- A second window gets the name of the first. -/
theorem not_namesUnique :
    ¬ ∀ (calls : List Call) (d : NamingData) (results : List (Call × String)) (d' : NamingData),
      runCalls calls (clearNamingData d) = some (results, d') → NamesUnique results := by
  intro h
  have hrun : runCalls [.uniqueWindowName, .uniqueWindowName]
      (clearNamingData ⟨[], [], [], [], false, false⟩) = some
        ([(.uniqueWindowName, "w0"), (.uniqueWindowName, "w0")],
          ⟨[], ["w0", "w0"], [], [], false, false⟩) := by
    rfl
  have hdistinct := (h _ _ _ _ hrun).distinct
  simp [List.pairwise_cons] at hdistinct

end DbFuzz.Naming
