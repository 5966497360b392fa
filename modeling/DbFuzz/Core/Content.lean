import Mathlib.Algebra.Group.Nat.Defs
import Mathlib.Data.List.Sort
import Mathlib.Data.List.Perm.Basic

/-! Database snapshots and their comparison (`general_process.cc`). A snapshot
maps table names to rows of cells; `compareContent` is the final-state oracle of
the transaction test. Doubles are exact decimals with a sign. -/

namespace DbFuzz

abbrev RowOutput := List String
abbrev StmtOutput := List RowOutput

/-! Hashing of rows. -/

/-- `(size_t)*str` for a signed `char`. -/
def charToSizeT (c : UInt8) : UInt64 :=
  if c < 128 then c.toUInt64 else c.toUInt64 + 0xFFFFFFFFFFFFFF00

/-- The C string ends at its first NUL. -/
def bkdrHash : List UInt8 → UInt64 → UInt64
  | [], hash => hash
  | c :: str, hash => if c = 0 then hash else bkdrHash str (hash * 131 + charToSizeT c)

def cStr (s : String) : List UInt8 := s.toUTF8.data.toList

def hashRow (row : RowOutput) : UInt64 := row.foldl (fun hash cell => bkdrHash (cStr cell) hash) 0

def hashOutputToSet (output : StmtOutput) : List UInt64 :=
  (output.map hashRow).insertionSort (· ≤ ·)

/-! Normalisation of numeric cells. -/

def isDigitChar (c : Char) : Bool := decide ('0' ≤ c) && decide (c ≤ '9')

def isSignChar (c : Char) : Bool := c == '+' || c == '-'

def isNumber (s : String) : Bool :=
  match s.toList with
  | [] => false
  | [c] => isDigitChar c
  | c0 :: c1 :: rest =>
    if c0 ≠ '.' && !isDigitChar c0 && !isSignChar c0 then false
    else if isSignChar c0 && !isDigitChar c1 then false
    else if (c1 :: rest).any (fun c => c ≠ '.' && !isDigitChar c) then false
    else decide ((c0 :: c1 :: rest).count '.' ≤ 1)

/-- The digits of `to_string(h / 100.0)`: six decimals, of which four are zero. -/
def hundredthsToString (neg : Bool) (h : ℕ) : String :=
  String.ofList ((if neg then ['-'] else []) ++ Nat.toDigits 10 (h / 100) ++ ['.'] ++
    [Nat.digitChar (h % 100 / 10), Nat.digitChar (h % 10)] ++ List.replicate 4 '0')

/-- `to_string(round(stod(str) * 100) / 100)` on a text that `isNumber` accepts:
rounding is half away from zero and the sign of a zero survives. -/
def roundToHundredths (str : String) : String :=
  let cs := str.toList
  let body := if cs.head?.any isSignChar then cs.tail else cs
  let whole := body.takeWhile (· ≠ '.')
  let frac := (body.dropWhile (· ≠ '.')).tail
  let n := Nat.ofDigitChars 10 (whole ++ frac) 0
  hundredthsToString (cs.head? = some '-') ((200 * n + 10 ^ frac.length) / (2 * 10 ^ frac.length))

def nomoalizeCell (str : String) : String :=
  if !isNumber str || !str.toList.contains '.' then str else roundToHundredths str

def nomoalizeContent (content : StmtOutput) : StmtOutput := content.map (·.map nomoalizeCell)

example : (["1.005", "-0.001", "7", "a.b", "2.5"].map nomoalizeCell) =
    ["1.010000", "-0.000000", "7", "a.b", "2.500000"] := by decide

/-! Snapshots. -/

/-- `map<string, vector<vector<string>>>`, in iteration order. -/
structure Content where
  tables : List (String × StmtOutput)
  sorted : (tables.map Prod.fst).Pairwise (· < ·)

namespace Content

def empty : Content := ⟨[], List.Pairwise.nil⟩

def size (c : Content) : ℕ := c.tables.length

def names (c : Content) : List String := c.tables.map Prod.fst

def count (c : Content) (table : String) : ℕ := c.names.count table

def rows (c : Content) (table : String) : StmtOutput := (c.tables.lookup table).getD []

/-- Assignment through `c[table]` for a table that is present. -/
def modify (c : Content) (table : String) (f : StmtOutput → StmtOutput) : Content where
  tables := c.tables.map fun e => if e.1 = table then (e.1, f e.2) else e
  sorted := by
    have h : ∀ e : String × StmtOutput,
        (if e.1 = table then (e.1, f e.2) else e).1 = e.1 := by
      intro e; split_ifs <;> rfl
    simpa [List.map_map, Function.comp_def, h] using c.sorted

@[simp] theorem modify_length (c : Content) (table : String) (f : StmtOutput → StmtOutput) :
    (c.modify table f).tables.length = c.tables.length := by
  simp [modify]

theorem names_nodup (c : Content) : c.names.Nodup :=
  List.Pairwise.imp (fun h => by rintro rfl; exact String.lt_irrefl _ h) c.sorted

end Content

/-- The sizes and then the sorted hashes, one by one. -/
def sameHashes (a b : StmtOutput) : Bool :=
  let aSet := hashOutputToSet a
  let bSet := hashOutputToSet b
  if aSet.length ≠ bSet.length then false
  else (List.range aSet.length).all fun i => aSet[i]? == bSet[i]?

/-- The loop `for (iter; iter != stop; iter++)` of `compare_content`; an iterator
is its distance from `begin()`. Both snapshots are normalised in place.
Dereferencing `end()` is undefined, modelled by `none`. -/
def compareLoop (stop iter : ℕ) (a b : Content) : Option (Bool × Content × Content) :=
  if iter = stop then some (true, a, b)
  else
    match h : a.tables[iter]? with
    | none => none
    | some (table, _) =>
      if b.count table = 0 then some (false, a, b)
      else
        let a' := a.modify table nomoalizeContent
        let b' := b.modify table nomoalizeContent
        if sameHashes (a'.rows table) (b'.rows table) then compareLoop stop (iter + 1) a' b'
        else some (false, a', b')
termination_by a.tables.length - iter
decreasing_by
  have := (List.getElem?_eq_some_iff.1 h).1
  simp only [Content.modify_length]
  omega

/-- The source's loop runs from `a_content.begin()` while
`iter != a_content.begin()`. -/
def compareContent (a b : Content) : Option (Bool × Content × Content) :=
  if a.size ≠ b.size then some (false, a, b) else compareLoop 0 0 a b

/-! What the oracle is for: same tables, same rows up to order and normalisation. -/

def SameContent (a b : Content) : Prop :=
  (∀ table, table ∈ a.names ↔ table ∈ b.names) ∧
    ∀ table ∈ a.names, (nomoalizeContent (a.rows table)).Perm (nomoalizeContent (b.rows table))

theorem SameContent.size_eq {a b : Content} (h : SameContent a b) : a.size = b.size := by
  have hperm : a.names.Perm b.names :=
    (List.perm_ext_iff_of_nodup a.names_nodup b.names_nodup).2 h.1
  simpa [Content.names, Content.size] using hperm.length_eq

/-- The loop condition is false at once, so only the sizes are compared. -/
theorem compareContent_eq (a b : Content) :
    compareContent a b = some (decide (a.size = b.size), a, b) := by
  unfold compareContent
  by_cases h : a.size = b.size
  · rw [if_neg (by simpa using h), compareLoop, if_pos rfl]
    simp [h]
  · simp [h]

end DbFuzz
