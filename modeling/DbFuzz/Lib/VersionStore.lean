import Mathlib.Data.Finset.Image
import Mathlib.Data.Finset.SDiff

/-! A store of row versions and its runs. An insert brings a fresh key and a fresh
version, an update gives rows a fresh version, a delete removes rows. -/

namespace VersionStore

variable {τ κ ν : Type}

structure Row (τ κ ν : Type) where
  table : τ
  key : κ
  version : ν
  deriving DecidableEq

abbrev Store (τ κ ν : Type) := Finset (Row τ κ ν)

inductive Op (τ κ ν : Type)
  | keep
  | insert (row : Row τ κ ν)
  | update (rows : Store τ κ ν) (version : ν)
  | delete (rows : Store τ κ ν)

variable [DecidableEq τ] [DecidableEq κ] [DecidableEq ν]

def Op.apply : Op τ κ ν → Store τ κ ν → Store τ κ ν
  | .keep, s => s
  | .insert row, s => Insert.insert row s
  | .update rows version, s => s \ rows ∪ rows.image fun r => { r with version := version }
  | .delete rows, s => s \ rows

/-- The rows whose versions an operation replaces. -/
def Op.affected : Op τ κ ν → Store τ κ ν
  | .update rows _ | .delete rows => rows
  | _ => ∅

def Op.newVersion : Op τ κ ν → Option ν
  | .insert row => some row.version
  | .update _ version => some version
  | _ => none

def Op.isKeep : Op τ κ ν → Bool
  | .keep => true
  | _ => false

structure Run (τ κ ν : Type) where
  init : Store τ κ ν
  ops : List (Op τ κ ν)

namespace Run

def op (run : Run τ κ ν) (k : ℕ) : Op τ κ ν := run.ops.getD k .keep

/-- The store before operation `k`. -/
def store (run : Run τ κ ν) : ℕ → Store τ κ ν
  | 0 => run.init
  | k + 1 => (run.op k).apply (run.store k)

/-- The operation changes rows of the store and brings what no store had so far. -/
def Allowed (run : Run τ κ ν) (k : ℕ) : Prop :=
  match run.op k with
  | .keep => True
  | .insert row => ∀ m < k + 1, ∀ r ∈ run.store m, r.key ≠ row.key ∧ r.version ≠ row.version
  | .update rows version =>
    rows ⊆ run.store k ∧ ∀ m < k + 1, ∀ r ∈ run.store m, r.version ≠ version
  | .delete rows => rows ⊆ run.store k

instance (run : Run τ κ ν) (k : ℕ) : Decidable (run.Allowed k) := by
  unfold Allowed
  split <;> infer_instance

structure Valid (run : Run τ κ ν) : Prop where
  distinct : ∀ r ∈ run.init, ∀ r' ∈ run.init, r.key = r'.key → r = r'
  allowed : ∀ k < run.ops.length, run.Allowed k

variable {run : Run τ κ ν} {i j k : ℕ} {r row : Row τ κ ν} {p : κ} {v : ν}

theorem Valid.at (h : run.Valid) (k : ℕ) : run.Allowed k := by
  by_cases hk : k < run.ops.length
  · exact h.allowed k hk
  · unfold Allowed op
    rw [List.getD_eq_getElem?_getD, List.getElem?_eq_none (Nat.le_of_not_lt hk)]
    trivial

/-- What a row of the next store was before. -/
inductive From (run : Run τ κ ν) (k : ℕ) (r : Row τ κ ν) : Prop
  | old (h : r ∈ run.store k) (hna : r ∉ (run.op k).affected) : From run k r
  | inserted (h : run.op k = .insert r) : From run k r
  | updated (rows : Store τ κ ν) (r' : Row τ κ ν) (h : run.op k = .update rows r.version)
      (hr' : r' ∈ rows) (htable : r'.table = r.table) (hkey : r'.key = r.key) : From run k r

theorem mem_succ (h : r ∈ run.store (k + 1)) : run.From k r := by
  rw [store] at h
  cases hop : run.op k with
  | keep =>
    rw [hop] at h
    exact .old h (by simp [hop, Op.affected])
  | insert row =>
    rw [hop] at h
    rcases Finset.mem_insert.1 h with rfl | h
    · exact .inserted hop
    · exact .old h (by simp [hop, Op.affected])
  | update rows version =>
    rw [hop] at h
    rcases Finset.mem_union.1 h with h | h
    · obtain ⟨h, hn⟩ := Finset.mem_sdiff.1 h
      exact .old h (by simpa [hop, Op.affected] using hn)
    · obtain ⟨r', hr', rfl⟩ := Finset.mem_image.1 h
      exact .updated rows r' hop hr' rfl rfl
  | delete rows =>
    rw [hop] at h
    obtain ⟨h, hn⟩ := Finset.mem_sdiff.1 h
    exact .old h (by simpa [hop, Op.affected] using hn)

theorem Valid.insert_fresh (h : run.Valid) (hop : run.op k = .insert row) (hik : i ≤ k)
    (hr : r ∈ run.store i) : r.key ≠ row.key ∧ r.version ≠ row.version := by
  have hallowed := h.at k
  rw [Allowed, hop] at hallowed
  exact hallowed i (by omega) r hr

theorem Valid.affected_subset (h : run.Valid) (k : ℕ) : (run.op k).affected ⊆ run.store k := by
  have hallowed := h.at k
  unfold Allowed at hallowed
  cases hop : run.op k with
  | keep | insert row => simp [Op.affected]
  | update rows version => rw [hop] at hallowed; exact hallowed.1
  | delete rows => rw [hop] at hallowed; exact hallowed

/-- A version is only there after the operation that brought it. -/
theorem Valid.lt_of_newVersion (h : run.Valid) (hnew : (run.op j).newVersion = some v)
    (hr : r ∈ run.store i) (hv : r.version = v) : j < i := by
  by_contra hij
  have hallowed := h.at j
  unfold Allowed at hallowed
  cases hop : run.op j with
  | keep | delete rows => rw [hop] at hnew; cases hnew
  | insert row =>
    rw [hop] at hnew hallowed
    cases hnew
    exact (hallowed i (by omega) r hr).2 hv
  | update rows version =>
    rw [hop] at hnew hallowed
    cases hnew
    exact hallowed.2 i (by omega) r hr hv

/-- In every store a key belongs to one row. -/
theorem Valid.unique (h : run.Valid) (k : ℕ) :
    ∀ r ∈ run.store k, ∀ r' ∈ run.store k, r.key = r'.key → r = r' := by
  induction k with
  | zero => exact h.distinct
  | succ k ih =>
    -- an updated row and one that was not touched have different keys
    have hmixed : ∀ (r r' : Row τ κ ν) (rows : Store τ κ ν), r ∈ run.store k → r ∉ (run.op k).affected →
        ∀ r0 ∈ rows, (run.op k).affected = rows → r0.key = r'.key → r.key ≠ r'.key := by
      intro r r' rows hr hna r0 hr0 haff hk0 hkr
      have h0 : r0 ∈ run.store k := h.affected_subset k (haff ▸ hr0)
      rw [ih r hr r0 h0 (hkr.trans hk0.symm), haff] at hna
      exact hna hr0
    intro r hr r' hr' hkey
    cases mem_succ hr with
    | old hr hna =>
      cases mem_succ hr' with
      | old hr' _ => exact ih r hr r' hr' hkey
      | inserted hop => exact absurd hkey (h.insert_fresh hop le_rfl hr).1
      | updated rows r0 hop hr0 _ hk0 =>
        exact absurd hkey (hmixed r r' rows hr hna r0 hr0 (by rw [hop]; rfl) hk0)
    | inserted hop =>
      cases mem_succ hr' with
      | old hr' _ => exact absurd hkey.symm (h.insert_fresh hop le_rfl hr').1
      | inserted hop' => rw [hop] at hop'; cases hop'; rfl
      | updated rows r0 hop' => rw [hop] at hop'; cases hop'
    | updated rows r0 hop hr0 ht0 hk0 =>
      cases mem_succ hr' with
      | old hr' hna' =>
        exact absurd hkey.symm (hmixed r' r rows hr' hna' r0 hr0 (by rw [hop]; rfl) hk0)
      | inserted hop' => rw [hop] at hop'; cases hop'
      | updated rows' r1 hop' hr1 ht1 hk1 =>
        rw [hop] at hop'
        injection hop' with hrows hversion
        subst hrows
        have hsub := h.affected_subset k
        rw [hop] at hsub
        have h01 : r0 = r1 := ih r0 (hsub hr0) r1 (hsub hr1) (by rw [hk0, hk1, hkey])
        cases r; cases r'
        simp_all

/-- The store holds the version `v` of the key `p`. -/
def Present (run : Run τ κ ν) (k : ℕ) (p : κ) (v : ν) : Prop :=
  ∃ r ∈ run.store k, r.key = p ∧ r.version = v

/-- A version that went never comes back. -/
theorem Valid.absent_stays (h : run.Valid) {a b c : ℕ} (ha : run.Present a p v) (hab : a ≤ b)
    (hb : ¬ run.Present b p v) (hbc : b ≤ c) : ¬ run.Present c p v := by
  obtain ⟨ra, hra, rfl, rfl⟩ := ha
  induction c, hbc using Nat.le_induction with
  | base => exact hb
  | succ c hbc ih =>
    rintro ⟨r, hr, hk, hv⟩
    cases mem_succ hr with
    | old hr _ => exact ih ⟨r, hr, hk, hv⟩
    | inserted hop => exact (h.insert_fresh hop (by omega) hra).1 hk.symm
    | updated rows r0 hop =>
      have := h.lt_of_newVersion (j := c) (i := a) (v := r.version) (by rw [hop]; rfl) hra hv.symm
      omega

/-- The versions an operation replaces are gone after it. -/
theorem Valid.not_present_affected (h : run.Valid) (hr : r ∈ (run.op j).affected) :
    ¬ run.Present (j + 1) r.key r.version := by
  rintro ⟨r', hr', hk, hv⟩
  have hrs := h.affected_subset j hr
  cases mem_succ hr' with
  | old hr' hna =>
    rw [h.unique j r' hr' r hrs hk] at hna
    exact hna hr
  | inserted hop => rw [hop] at hr; simp [Op.affected] at hr
  | updated rows r0 hop =>
    have := h.lt_of_newVersion (j := j) (i := j) (v := r'.version) (by rw [hop]; rfl) hrs hv.symm
    omega

theorem Valid.le_of_affected (h : run.Valid) (hr : r ∈ (run.op j).affected)
    (hi : run.Present i r.key r.version) : i ≤ j := by
  by_contra hij
  exact h.absent_stays ⟨r, h.affected_subset j hr, rfl, rfl⟩ (Nat.le_succ j)
    (h.not_present_affected hr) (by omega) hi

/-- A row was in an earlier store, in the same table, or came in between. -/
theorem Valid.traced_back (h : run.Valid) (hij : i ≤ j) (hr : r ∈ run.store j) :
    (∃ r' ∈ run.store i, r'.table = r.table ∧ r'.key = r.key) ∨
      ∃ k row, i ≤ k ∧ k < j ∧ run.op k = .insert row ∧ row.key = r.key := by
  induction j, hij using Nat.le_induction generalizing r with
  | base => exact Or.inl ⟨r, hr, rfl, rfl⟩
  | succ j hij ih =>
    have hearlier : ∀ r0 ∈ run.store j, r0.table = r.table → r0.key = r.key →
        (∃ r' ∈ run.store i, r'.table = r.table ∧ r'.key = r.key) ∨
          ∃ k row, i ≤ k ∧ k < j + 1 ∧ run.op k = .insert row ∧ row.key = r.key := by
      intro r0 hr0 ht hk
      rcases ih hr0 with ⟨r', hr', ht', hk'⟩ | ⟨k, row, hik, hkj, hop, hrow⟩
      · exact Or.inl ⟨r', hr', ht'.trans ht, hk'.trans hk⟩
      · exact Or.inr ⟨k, row, hik, by omega, hop, hrow.trans hk⟩
    cases mem_succ hr with
    | old hr _ => exact hearlier r hr rfl rfl
    | inserted hop => exact Or.inr ⟨j, r, hij, by omega, hop, rfl⟩
    | updated rows r0 hop hr0 ht hk =>
      have hsub := h.affected_subset j
      rw [hop] at hsub
      exact hearlier r0 (hsub hr0) ht hk

/-- An inserted row stays in its table as long as no delete removes it. -/
theorem inserted_stays (hop : run.op j = .insert row) (hji : j < i)
    (hno : ∀ d rows, j < d → d < i → run.op d = .delete rows → ∀ r ∈ rows, r.key ≠ row.key) :
    ∃ r ∈ run.store i, r.table = row.table ∧ r.key = row.key := by
  induction i, (show j + 1 ≤ i from hji) using Nat.le_induction with
  | base => exact ⟨row, by simp [store, hop, Op.apply], rfl, rfl⟩
  | succ i hji ih =>
    obtain ⟨r, hr, ht, hk⟩ := ih (by omega) fun d rows hjd hdi => hno d rows hjd (by omega)
    cases hopi : run.op i with
    | keep => exact ⟨r, by simpa [store, hopi, Op.apply] using hr, ht, hk⟩
    | insert row' => exact ⟨r, by simp [store, hopi, Op.apply, hr], ht, hk⟩
    | update rows version =>
      by_cases hm : r ∈ rows
      · refine ⟨{ r with version := version }, ?_, ht, hk⟩
        rw [store, hopi]
        exact Finset.mem_union_right _ (Finset.mem_image_of_mem _ hm)
      · refine ⟨r, ?_, ht, hk⟩
        rw [store, hopi]
        exact Finset.mem_union_left _ (Finset.mem_sdiff.2 ⟨hr, hm⟩)
    | delete rows =>
      refine ⟨r, ?_, ht, hk⟩
      rw [store, hopi]
      exact Finset.mem_sdiff.2 ⟨hr, fun hm => hno i rows (by omega) (by omega) hopi r hm hk⟩

end Run

end VersionStore
