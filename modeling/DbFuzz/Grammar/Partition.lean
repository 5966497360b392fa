import DbFuzz.Lib.Draws
import Mathlib.Data.Rat.Init
import Mathlib.Data.Int.Cast.Lemmas

/-! The partition clauses of `create_table_stmt` for PostgreSQL, MySQL and CockroachDB, with
the random choices they are made from. -/

namespace DbFuzz.Grammar

/-- The column types that `create_table_stmt` draws from. -/
inductive SqlType
  | int
  | real
  | text
  | date
  deriving DecidableEq

/-- `enumDef` is a constraint that starts with `ENUM(`; it is printed in place of the type. -/
structure CreatedColumn where
  name : String
  type : SqlType
  enumDef : Option String
  deriving DecidableEq

inductive Literal
  | null (type : SqlType)
  | int (z : ℤ)
  | negZero
  | real (negative : Bool) (whole fraction : ℕ)
  | string (s : String)
  | timestamp (fields : List ℕ)
  deriving DecidableEq

namespace Literal

/-- The name of the type in CockroachDB. -/
def typeName : SqlType → String
  | .int => "int4"
  | .real => "numeric"
  | .text => "text"
  | .date => "timestamp"

def out : Literal → String
  | null type => "null::" ++ typeName type
  | int z => toString z
  | negZero => "-0"
  | real negative whole fraction =>
    (if negative then "-" else "") ++ toString whole ++ "." ++ toString fraction
  | string s => "'" ++ s ++ "'"
  | timestamp fields => "make_timestamp(" ++ ", ".intercalate (fields.map toString) ++ ")"

/-- A number without a fraction is a literal of both numeric types. -/
def HasType (type : SqlType) : Literal → Prop
  | null t => t = type
  | int _ | negZero => type = .int ∨ type = .real
  | real _ _ _ => type = .real
  | string _ => type = .text
  | timestamp _ => type = .date

end Literal

/-- The value of a literal in its column. -/
inductive Datum
  | null
  | number (q : ℚ)
  | string (s : String)
  | timestamp (fields : List ℕ)
  deriving DecidableEq

def Literal.value : Literal → Datum
  | null _ => .null
  | int z => .number z
  | negZero => .number 0
  | real negative whole fraction =>
    let q : ℚ := whole + fraction / 10 ^ (toString fraction).length
    .number (if negative then -q else q)
  | string s => .string s
  | timestamp fields => .timestamp fields

/-- An `ENUM` column takes none of these literals. -/
def Literal.IsOf (column : CreatedColumn) (l : Literal) : Prop :=
  column.enumDef = none ∧ l.HasType column.type

/-! Random choices. -/

/-- The dice of one `const_expr`: its `d9`, `d6`, the two `d100`, its `random_string` and the
fields of its date. -/
structure ConstDice where
  null : ℕ
  kind : ℕ
  first : ℕ
  second : ℕ
  word : List Char
  fields : List ℕ

def allowedChar (c : Char) : Bool :=
  32 ≤ c.toNat && c.toNat < 127 && !(['\'', '"', '\\', '%', '_'].contains c)

structure ConstDice.Valid (d : ConstDice) : Prop where
  null : 1 ≤ d.null ∧ d.null ≤ 9
  kind : 1 ≤ d.kind ∧ d.kind ≤ 6
  first : 1 ≤ d.first ∧ d.first ≤ 100
  second : 1 ≤ d.second ∧ d.second ≤ 100
  word : d.word.length ≤ 5 ∧ ∀ c ∈ d.word, allowedChar c = true

/-- What the next choice gives: `dx` for each number of sides, and a `const_expr`. -/
structure Choice where
  die : ℕ → ℕ
  const : ConstDice

/-- A sequence of choices in which each outcome keeps coming up. -/
structure Choices where
  next : ℕ → Choice
  die_range : ∀ n x, 0 < x → 1 ≤ (next n).die x ∧ (next n).die x ≤ x
  const_valid : ∀ n, (next n).const.Valid
  die_recurs : ∀ n x v, 1 ≤ v → v ≤ x → ∃ k ≥ n, (next k).die x = v
  const_recurs : ∀ n d, ConstDice.Valid d → ∃ k ≥ n, (next k).const = d

def dx (ρ : Choices) (x : ℕ) : Draws ℕ := Draws.draw ρ.next fun c => c.die x

/-- The constructor of `const_expr` for CockroachDB. -/
def constExpr (type : SqlType) (d : ConstDice) : Literal :=
  if d.null = 1 then .null type
  else match type with
  | .int =>
    if d.kind = 1 then .int 0
    else if d.kind = 2 then .negZero
    else if d.kind ≤ 4 then .int (0 - d.first)
    else .int d.first
  | .real =>
    if d.kind = 1 then .real false 0 0
    else if d.kind = 2 then .real true 0 0
    else if d.kind ≤ 4 then .real false (d.first - 1) d.second
    else .real true d.first d.second
  | .text => .string (String.ofList d.word)
  | .date => .timestamp d.fields

/-! Clauses. -/

/-- `lessThan none` stands for `maxvalue`. -/
inductive PartitionBound
  | fromTo (lower upper : ℤ)
  | lessThan (bound : Option ℤ)
  | valuesIn (values : List Literal)
  | hash (modulus remainder : ℕ)
  | default
  deriving DecidableEq

structure Partition where
  name : String
  bound : PartitionBound
  deriving DecidableEq

inductive PartitionMethod
  | nothing
  | range (columns : Bool)
  | list (columns : Bool)
  | hash (linear : Bool)
  | key (linear : Bool)
  deriving DecidableEq

structure Subpartition where
  useKey : Bool
  column : CreatedColumn
  count : ℕ
  deriving DecidableEq

/-- `count` is the number of a clause that does not name its partitions. -/
structure PartitionClause where
  method : PartitionMethod
  column : CreatedColumn
  count : Option ℕ
  subpartition : Option Subpartition
  partitions : List Partition
  deriving DecidableEq

namespace PartitionBound

def literals : PartitionBound → List Literal
  | fromTo lower upper => [.int lower, .int upper]
  | lessThan bound => (bound.map Literal.int).toList
  | valuesIn values => values
  | hash _ _ | default => []

def values : PartitionBound → List Literal
  | valuesIn values => values
  | _ => []

def NonEmpty : PartitionBound → Prop
  | fromTo lower upper => lower < upper
  | _ => True

/-- The bound of a partition and of a later one. -/
def Below : PartitionBound → PartitionBound → Prop
  | fromTo _ upper, fromTo lower _ => upper ≤ lower
  | lessThan (some b), lessThan (some b') => b < b'
  | lessThan none, lessThan _ => False
  | _, _ => True

end PartitionBound

def partitionBounds (ps : List Partition) : List PartitionBound := ps.map Partition.bound

def partitionValues (ps : List Partition) : List Literal :=
  (partitionBounds ps).flatMap PartitionBound.values

/-- What does not depend on the type of the column. -/
structure Shaped (ps : List Partition) : Prop where
  nonEmpty : ∀ b ∈ partitionBounds ps, b.NonEmpty
  below : (partitionBounds ps).Pairwise PartitionBound.Below
  lists : ((partitionValues ps).map Literal.value).Nodup
  hash : ∀ m r, .hash m r ∈ partitionBounds ps →
    partitionBounds ps = (List.range m).map (PartitionBound.hash m)
  names : (ps.map Partition.name).Nodup

structure PartitionClause.WellFormed (c : PartitionClause) : Prop where
  typed : ∀ l ∈ (partitionBounds c.partitions).flatMap PartitionBound.literals, l.IsOf c.column
  shaped : Shaped c.partitions

/-! The loops. -/

/-- How a `LIST` clause draws its values: `key` is what goes into the set of used values, with
the other texts that `marks` adds, and a list has `sides` values and `least` more. -/
structure ListStyle (κ : Type) where
  pick : Choice → Literal
  key : Literal → κ
  marks : Literal → List κ
  sides : ℕ
  least : ℕ
  name : ℕ → String

section

variable {κ : Type} [DecidableEq κ] (ρ : Choices)

def listValue (s : ListStyle κ) (state : List κ × List Literal) : Draws (List κ × List Literal) :=
  Draws.bind (Draws.drawUntil ρ.next s.pick fun l => s.key l ∉ state.1) fun l =>
    Draws.pure (state.1 ++ s.marks l, state.2 ++ [l])

def listPartition (s : ListStyle κ) (i : ℕ) (state : List κ × List Partition) :
    Draws (List κ × List Partition) :=
  Draws.bind (dx ρ s.sides) fun n =>
    Draws.bind (Draws.forFrom (fun _ => listValue ρ s) 0 (n + s.least) (state.1, []))
      fun (used, values) => Draws.pure (used, state.2 ++ [⟨s.name i, .valuesIn values⟩])

def listPartitions (s : ListStyle κ) (count : ℕ) : Draws (List Partition) :=
  Draws.bind (Draws.forFrom (listPartition ρ s) 0 count ([], [])) fun state => Draws.pure state.2

end

/-- A list of numbers between 1 and 100, as PostgreSQL and MySQL get it. -/
def numberList (sides least : ℕ) (name : ℕ → String) : ListStyle Literal where
  pick c := .int (c.die 100)
  key l := l
  marks l := [l]
  sides := sides
  least := least
  name := name

/-- One turn of a range that is given from one bound to the next. -/
def fromToPartition (gap width : Draws ℕ) (name : ℕ → String) (i : ℕ)
    (state : ℤ × List Partition) : Draws (ℤ × List Partition) :=
  Draws.bind gap fun g => Draws.bind width fun w =>
    Draws.pure (state.1 + g + w, state.2 ++ [⟨name i, .fromTo (state.1 + g) (state.1 + g + w)⟩])

/-- The servers whose tables can be partitioned. -/
inductive Server
  | postgres
  | mysql
  | cockroach
  deriving DecidableEq

/-- The table as it is when the options are made, and what the schema supports. The version key
and the primary key come first; only MySQL has `ENUM` columns. -/
structure PartitionInput (server : Server) where
  table : String
  versionKeyName : String
  others : List CreatedColumn
  enums : server ≠ .mysql → ∀ c ∈ others, c.enumDef = none
  primaryColId : Fin (others.length + 2)
  hasPartitionDefault : Bool
  hasSubpartition : Bool

namespace PartitionInput

variable {server : Server} (t : PartitionInput server)

def columns : List CreatedColumn :=
  ⟨t.versionKeyName, .int, none⟩ :: ⟨"pkey", .int, none⟩ :: t.others

def col (i : Fin (t.others.length + 2)) : CreatedColumn := t.columns.get i

def primaryCol : CreatedColumn := t.col t.primaryColId

end PartitionInput

/-! PostgreSQL. -/

namespace Pg

variable (ρ : Choices) (t : PartitionInput .postgres)

def subName (i : ℕ) : String := t.table ++ "_p" ++ toString i

def clause (method : PartitionMethod) (partitions : List Partition) : PartitionClause :=
  ⟨method, t.primaryCol, none, none, partitions⟩

def default : Partition := ⟨t.table ++ "_default", .default⟩

def range (count : ℕ) : Draws PartitionClause :=
  Draws.bind (dx ρ 20) fun lower =>
    Draws.bind (Draws.forFrom (fromToPartition (Draws.pure 0)
        (Draws.bind (dx ρ 60) fun w => Draws.pure (w + 10)) (subName t)) 0 count (-lower, []))
      fun (_, partitions) =>
        if t.hasPartitionDefault then
          Draws.bind (dx ρ 6) fun d =>
            Draws.pure (clause t (.range false) (partitions ++ if d ≤ 4 then [default t] else []))
        else Draws.pure (clause t (.range false) partitions)

def list (count : ℕ) : Draws PartitionClause :=
  Draws.bind (listPartitions ρ (numberList 4 2 (subName t)) count) fun partitions =>
    Draws.pure (clause t (.list false)
      (partitions ++ if t.hasPartitionDefault then [default t] else []))

def hash (modulus : ℕ) : PartitionClause :=
  clause t (.hash false) ((List.range modulus).map fun i => ⟨subName t i, .hash modulus i⟩)

def partitionOption : Draws PartitionClause :=
  Draws.bind (dx ρ 3) fun n => Draws.bind (dx ρ 6) fun choice =>
    if choice ≤ 2 then range ρ t (n + 1)
    else if choice ≤ 4 then list ρ t (n + 1)
    else Draws.pure (hash t (n + 1))

/-- The text after the name of the table in one of `sub_stmts`. -/
def boundOut : PartitionBound → String
  | .fromTo lower upper =>
    " for values from (" ++ toString lower ++ ") to (" ++ toString upper ++ ")"
  | .lessThan _ => ""
  | .valuesIn values => " for values in (" ++ ", ".intercalate (values.map Literal.out) ++ ")"
  | .hash modulus remainder =>
    " for values with (modulus " ++ toString modulus ++ ", remainder " ++ toString remainder ++ ")"
  | .default => " default"

def methodOut : PartitionMethod → String
  | .range _ => "range"
  | .list _ => "list"
  | _ => "hash"

/-- The option and the statements for the partitions. -/
def out (c : PartitionClause) : String × List String :=
  ("partition by " ++ methodOut c.method ++ " (" ++ c.column.name ++ ")",
    c.partitions.map fun p =>
      "create table " ++ p.name ++ " partition of " ++ t.table ++ boundOut p.bound)

end Pg

/-! MySQL. -/

namespace Mysql

variable (ρ : Choices) (t : PartitionInput .mysql)

def pName (i : ℕ) : String := "p" ++ toString i

def firstCol (p : Fin (t.others.length + 2) → Bool) : Option (Fin (t.others.length + 2)) :=
  (List.finRange _).find? p

def isInt (i : Fin (t.others.length + 2)) : Bool := (t.col i).type = .int

/-- The column of a clause that asks for an integer, and whether there is none. -/
def partCol : Fin (t.others.length + 2) × Bool :=
  if isInt t t.primaryColId then (t.primaryColId, false)
  else match firstCol t (isInt t) with
    | some i => (i, false)
    | none => (t.primaryColId, true)

def lessThanPartition (count i : ℕ) (state : ℤ × List Partition) : Draws (ℤ × List Partition) :=
  if i + 1 < count then
    Draws.bind (dx ρ 30) fun d =>
      Draws.pure (state.1 + (d + 1), state.2 ++ [⟨pName i, .lessThan (some (state.1 + (d + 1)))⟩])
  else Draws.pure (state.1, state.2 ++ [⟨pName i, .lessThan none⟩])

def lessThanPartitions (count : ℕ) : Draws (List Partition) :=
  Draws.bind (Draws.forFrom (lessThanPartition ρ count) 0 count (0, [])) fun state =>
    Draws.pure state.2

def subCol (partCol : Fin (t.others.length + 2)) : Option (Fin (t.others.length + 2)) :=
  (firstCol t fun i => i ≠ partCol && isInt t i).or (firstCol t fun i => i ≠ partCol)

/-- A clause with a subpartition is built anew, with new values. -/
def addSubpartition (partitions : Draws (List Partition)) (partCol : Fin (t.others.length + 2))
    (c : PartitionClause) : Draws PartitionClause :=
  if t.hasSubpartition then
    Draws.bind (dx ρ 100) fun d =>
      if d ≤ 30 then
        match subCol t partCol with
        | some i => Draws.bind (dx ρ 2) fun n => Draws.bind partitions fun partitions =>
          Draws.pure { c with
            subpartition := some ⟨!isInt t i, t.col i, n + 2⟩, partitions := partitions }
        | none => Draws.pure c
      else Draws.pure c
  else Draws.pure c

/-- A clause that names its partitions, whose number is drawn. -/
def named (method : Bool → PartitionMethod) (columns : Bool)
    (partitions : ℕ → Draws (List Partition)) : Draws PartitionClause :=
  let col := if columns then (t.primaryColId, true) else partCol t
  Draws.bind (dx ρ 3) fun n => Draws.bind (partitions (n + 1)) fun ps =>
    addSubpartition ρ t (partitions (n + 1)) col.1
      ⟨method col.2, t.col col.1, none, none, ps⟩

def hash (isKey : Bool) : Draws PartitionClause :=
  let col := if isKey then (t.primaryColId, true) else partCol t
  Draws.bind (dx ρ 3) fun n => Draws.bind (dx ρ 100) fun d =>
    Draws.pure ⟨if col.2 then .key (d ≤ 10) else .hash (d ≤ 10), t.col col.1,
      some (n + 2), none, []⟩

/-- `LINEAR HASH` stays with a column that is no integer when there is no other. -/
def linear : Draws PartitionClause :=
  Draws.bind (dx ρ 6) fun d => Draws.bind (dx ρ 3) fun n =>
    if d ≤ 3 then Draws.pure ⟨.key true, t.primaryCol, some (n + 2), none, []⟩
    else Draws.pure ⟨.hash true, t.col (partCol t).1, some (n + 2), none, []⟩

def partitionOption : Draws PartitionClause :=
  Draws.bind (dx ρ 9) fun choice =>
    if choice ≤ 2 ∨ choice = 7 then
      named ρ t .range (choice = 7) (lessThanPartitions ρ)
    else if choice ≤ 4 ∨ choice = 8 then
      named ρ t .list (choice = 8) (listPartitions ρ (numberList 3 1 pName))
    else if choice ≤ 6 then hash ρ t (choice = 6)
    else linear ρ t

def boundOut : PartitionBound → String
  | .lessThan (some b) => "values less than (" ++ toString b ++ ")"
  | .lessThan none => "values less than (maxvalue)"
  | .valuesIn values => "values in (" ++ ", ".intercalate (values.map Literal.out) ++ ")"
  | _ => ""

def methodOut : PartitionMethod → String
  | .nothing => ""
  | .range columns => if columns then "range columns" else "range"
  | .list columns => if columns then "list columns" else "list"
  | .hash linear => if linear then "linear hash" else "hash"
  | .key linear => if linear then "linear key" else "key"

def subpartitionOut (s : Subpartition) : String :=
  "\nsubpartition by " ++ (if s.useKey then "key" else "hash") ++ " (" ++ s.column.name ++
    ")\nsubpartitions " ++ toString s.count

def out (c : PartitionClause) : String :=
  "partition by " ++ methodOut c.method ++ " (" ++ c.column.name ++ ")" ++
    match c.count with
    | some n => "\npartitions " ++ toString n
    | none => (c.subpartition.map subpartitionOut).getD "" ++ " (\n" ++ ",\n".intercalate
        (c.partitions.map fun p => "partition " ++ p.name ++ " " ++ boundOut p.bound) ++ ")"

end Mysql

/-! CockroachDB. -/

namespace Cockroach

variable (ρ : Choices) (t : PartitionInput .cockroach)

def zeros : List String := ["0", "-0", "0.0", "-0.0"]

def constList (type : SqlType) : ListStyle String where
  pick c := constExpr type c.const
  key l := l.out
  marks l := l.out :: if l.out ∈ zeros then zeros else []
  sides := 4
  least := 0
  name := Mysql.pName

def clause (method : PartitionMethod) (partitions : List Partition) : PartitionClause :=
  ⟨method, t.primaryCol, none, none, partitions⟩

def list : Draws PartitionClause :=
  Draws.bind (dx ρ 4) fun n =>
    Draws.bind (listPartitions ρ (constList t.primaryCol.type) n) fun partitions =>
      Draws.pure (clause t (.list false) partitions)

def range : Draws PartitionClause :=
  Draws.bind (dx ρ 4) fun n =>
    Draws.bind (Draws.forFrom (fromToPartition (dx ρ (100 / n)) (dx ρ (100 / n)) Mysql.pName)
        0 n (0, []))
      fun (_, partitions) => Draws.pure (clause t (.range false) partitions)

def numeric (type : SqlType) : Bool := type = .int ∨ type = .real

def tableOption : Draws PartitionClause :=
  Draws.bind (dx ρ 9) fun rand =>
    if t.primaryCol.type = .date ∨ rand = 1 then Draws.pure (clause t .nothing [])
    else if rand = 2 ∧ numeric t.primaryCol.type then
      Draws.bind (dx ρ 4) fun n =>
        Draws.pure ⟨.hash false, t.primaryCol, some (n + 1), none, []⟩
    else if rand ≤ 6 ∨ ¬ numeric t.primaryCol.type then list ρ t
    else range ρ t

def boundOut : PartitionBound → String
  | .fromTo lower upper => "values from (" ++ toString lower ++ ") to (" ++ toString upper ++ ")"
  | bound => Mysql.boundOut bound

def out (c : PartitionClause) : String :=
  "partition by " ++
    match c.method, c.count with
    | .nothing, _ => "nothing"
    | method, some n => Mysql.methodOut method ++ " (" ++ c.column.name ++ ")\npartitions " ++
      toString n
    | method, none => Mysql.methodOut method ++ " (" ++ c.column.name ++ ") (\n" ++
      ", \n".intercalate
        (c.partitions.map fun p => "partition " ++ p.name ++ " " ++ boundOut p.bound) ++ ")"

end Cockroach

end DbFuzz.Grammar
