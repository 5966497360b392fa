import Mathlib.Data.List.Infix
import Mathlib.Tactic.Common

/-! The error classification of the PostgreSQL driver (`postgres.cc`). A position in a string is
`none` for `string::npos`. -/

namespace DbFuzz.Postgres

/-- `error.find(err)` from position `i` on. -/
def findFrom (err : List Char) : ℕ → List Char → Option ℕ
  | i, [] => if err.isPrefixOf [] then some i else none
  | i, c :: rest => if err.isPrefixOf (c :: rest) then some i else findFrom err (i + 1) rest

def find (error err : String) : Option ℕ := findFrom err.toList 0 error.toList

/-- A position as a condition: false for position 0 only, since `npos` is not 0. -/
def positionTrue : Option ℕ → Bool
  | none => true
  | some i => i ≠ 0

/-- "connection lost = expected, framework handles restart" -/
def crashPatterns : List String :=
  ["server closed the connection unexpectedly", "connection to server was lost",
    "terminating connection due to administrator command", "no connection to the server"]

def isExpectedError (pgerrmsg : List String) (error : String) : Bool :=
  if pgerrmsg.any fun err => positionTrue (find error err) then true
  else if crashPatterns.any fun p => find error p ≠ none then true
  else false

/-- What `dut_libpq::test` throws for the message of a failed statement. -/
def testError (pgerrmsg : List String) (connectionBad : Bool) (err : String) : String :=
  if connectionBad then "BUG!!! [POSTGRES] connection lost: " ++ err ++ " in dut_libpq::test"
  else if isExpectedError pgerrmsg err then "[POSTGRES] expected error [" ++ err ++ "]"
  else "[POSTGRES] execution error [" ++ err ++ "]"

/-! What the classification is for. -/

def Contains (error err : String) : Prop := err.toList <:+: error.toList

def StartsWith (error err : String) : Prop := err.toList <+: error.toList

/-- The message contains one of the patterns, wherever it occurs. -/
def Expected (pgerrmsg : List String) (error : String) : Prop :=
  (∃ err ∈ pgerrmsg, Contains error err) ∨ ∃ err ∈ crashPatterns, Contains error err

instance (error err : String) : Decidable (Contains error err) :=
  inferInstanceAs (Decidable (err.toList <:+: error.toList))

instance (pgerrmsg : List String) (error : String) : Decidable (Expected pgerrmsg error) :=
  inferInstanceAs (Decidable (_ ∨ _))

theorem StartsWith.contains {error err : String} (h : StartsWith error err) : Contains error err :=
  h.isInfix

/-! The position found. -/

theorem le_of_findFrom {err cs : List Char} {i k : ℕ} (h : findFrom err i cs = some k) : i ≤ k := by
  induction cs generalizing i with
  | nil =>
    rw [findFrom] at h
    split_ifs at h
    exact (Option.some.inj h).le
  | cons c rest ih =>
    rw [findFrom] at h
    split_ifs at h
    · exact (Option.some.inj h).le
    · exact Nat.le_of_succ_le (ih h)

theorem findFrom_eq_none_iff {err cs : List Char} {i : ℕ} :
    findFrom err i cs = none ↔ ¬ err <:+: cs := by
  induction cs generalizing i with
  | nil => simp [findFrom]
  | cons c rest ih =>
    rw [findFrom, List.infix_cons_iff]
    by_cases h : err <+: c :: rest <;> simp [h, ih]

theorem findFrom_eq_self_iff {err cs : List Char} {i : ℕ} :
    findFrom err i cs = some i ↔ err <+: cs := by
  cases cs with
  | nil => simp [findFrom]
  | cons c rest =>
    rw [findFrom]
    by_cases h : err <+: c :: rest
    · simp [h]
    · have hlater : findFrom err (i + 1) rest ≠ some i := fun hk => by
        have := le_of_findFrom hk
        omega
      simp [h, hlater]

/-- The condition is false exactly where the pattern starts the message. -/
theorem positionTrue_find (error err : String) :
    positionTrue (find error err) = true ↔ ¬ StartsWith error err := by
  rw [StartsWith, ← findFrom_eq_self_iff, find]
  cases h : findFrom err.toList 0 error.toList with
  | none => simp [positionTrue]
  | some i => simp [positionTrue]

theorem find_ne_none_iff (error err : String) : find error err ≠ none ↔ Contains error err := by
  rw [find, ne_eq, findFrom_eq_none_iff, not_not, Contains]

theorem isExpectedError_iff (pgerrmsg : List String) (error : String) :
    isExpectedError pgerrmsg error = true ↔
      (∃ err ∈ pgerrmsg, ¬ StartsWith error err) ∨ ∃ err ∈ crashPatterns, Contains error err := by
  have hcrash : (crashPatterns.any fun p => find error p ≠ none) = true ↔
      ∃ err ∈ crashPatterns, Contains error err := by
    simp only [List.any_eq_true, decide_eq_true_eq, find_ne_none_iff]
  have hany : (pgerrmsg.any fun err => positionTrue (find error err)) = true ↔
      ∃ err ∈ pgerrmsg, ¬ StartsWith error err := by
    simp only [List.any_eq_true, positionTrue_find]
  rw [← hcrash, ← hany, isExpectedError]
  split_ifs <;> simp_all

/-- The text of the exception tells the two classes apart. -/
theorem testError_expected_iff (pgerrmsg : List String) (err : String) :
    testError pgerrmsg false err = "[POSTGRES] expected error [" ++ err ++ "]" ↔
      isExpectedError pgerrmsg err = true := by
  have hne : "[POSTGRES] execution error [" ++ err ++ "]" ≠
      "[POSTGRES] expected error [" ++ err ++ "]" := fun h => by
    have htake := congrArg (fun s : String => s.toList.take 14) h
    simp at htake
  rw [testError, if_neg Bool.false_ne_true]
  split_ifs with h
  · exact iff_of_true rfl h
  · exact iff_of_false hne h

/-- The classification is right for the messages with a crash pattern, for an empty pattern list,
and where one pattern occurs in the message and one does not start it. -/
theorem isExpectedError_correct_iff (pgerrmsg : List String) (error : String) :
    (isExpectedError pgerrmsg error = true ↔ Expected pgerrmsg error) ↔
      (∃ err ∈ crashPatterns, Contains error err) ∨ pgerrmsg = [] ∨
        (∃ err ∈ pgerrmsg, Contains error err) ∧ ∃ err ∈ pgerrmsg, ¬ StartsWith error err := by
  rw [isExpectedError_iff, Expected]
  by_cases hcrash : ∃ err ∈ crashPatterns, Contains error err
  · exact iff_of_true ⟨fun _ => Or.inr hcrash, fun _ => Or.inr hcrash⟩ (Or.inl hcrash)
  simp only [hcrash, or_false, false_or]
  cases pgerrmsg with
  | nil => simp
  | cons err rest =>
    -- a pattern that starts the message occurs in it
    have hstart : ¬ (∃ e ∈ err :: rest, ¬ StartsWith error e) →
        ∃ e ∈ err :: rest, Contains error e := fun hall => by
      by_contra hnone
      exact hall ⟨err, List.mem_cons_self, fun hs => hnone ⟨err, List.mem_cons_self, hs.contains⟩⟩
    simp only [reduceCtorEq, false_or]
    constructor
    · intro hiff
      by_cases hlater : ∃ e ∈ err :: rest, ¬ StartsWith error e
      · exact ⟨hiff.1 hlater, hlater⟩
      · exact absurd (hiff.2 (hstart hlater)) hlater
    · rintro ⟨hmem, hlater⟩
      exact iff_of_true hlater hmem

/-- An error no pattern knows is expected. -/
theorem not_isExpectedError_correct :
    ¬ ∀ (pgerrmsg : List String) (error : String),
      isExpectedError pgerrmsg error = true ↔ Expected pgerrmsg error := by
  intro h
  have hexpected := (h ["deadlock"] "ERROR:  division by zero").1 (by decide +kernel)
  exact absurd hexpected (by decide +kernel)

end DbFuzz.Postgres
