import Mathlib.Data.Countable.Basic
import Mathlib.Data.Nat.Pairing
import Mathlib.Logic.Equiv.List
import DbFuzz.Grammar.PartitionForm

/-! The partition clauses for CockroachDB, and when those of all three servers are well formed. -/

namespace DbFuzz.Grammar

open Draws (Settles)

namespace Cockroach

theorem constExpr_hasType (type : SqlType) (d : ConstDice) : (constExpr type d).HasType type := by
  cases type <;> rw [constExpr] <;> split_ifs <;> simp [Literal.HasType]

theorem constExpr_int (d : ConstDice) :
    constExpr .int d = .null .int ∨ (∃ z, constExpr .int d = .int z) ∨
      constExpr .int d = .negZero := by
  rw [constExpr]
  split_ifs <;> simp

theorem constExpr_text (d : ConstDice) :
    constExpr .text d = .null .text ∨ ∃ s, constExpr .text d = .string s := by
  rw [constExpr]
  split_ifs <;> simp

theorem out_mem_marks (type : SqlType) (l : Literal) :
    l.out ∈ (constList type).marks l := List.mem_cons_self

/-- The zeros exclude each other. -/
theorem zero_mem_marks (type : SqlType) :
    Literal.negZero.out ∈ (constList type).marks (.int 0) ∧
      (Literal.int 0).out ∈ (constList type).marks .negZero := by
  have hzero : Int.repr 0 = "0" := rfl
  simp [constList, zeros, hzero, Literal.out]

theorem value_ne_of_int {a b : ConstDice}
    (h : (constExpr .int b).out ∉ (constList .int).marks (constExpr .int a)) :
    (constExpr .int a).value ≠ (constExpr .int b).value := by
  have hne : constExpr .int a ≠ constExpr .int b := fun heq => h (heq ▸ out_mem_marks .int _)
  rcases constExpr_int a with ha | ⟨z, ha⟩ | ha <;> rcases constExpr_int b with hb | ⟨w, hb⟩ | hb <;>
    rw [ha, hb] at hne h ⊢
  · exact absurd rfl hne
  · simp [Literal.value]
  · simp [Literal.value]
  · simp [Literal.value]
  · simpa [Literal.value] using hne
  · intro heq
    obtain rfl : z = 0 := by simpa [Literal.value] using heq
    exact h (zero_mem_marks .int).1
  · simp [Literal.value]
  · intro heq
    obtain rfl : 0 = w := by simpa [Literal.value, eq_comm] using heq
    exact h (zero_mem_marks .int).2
  · exact absurd rfl hne

theorem value_ne_of_text {a b : ConstDice}
    (h : (constExpr .text b).out ∉ (constList .text).marks (constExpr .text a)) :
    (constExpr .text a).value ≠ (constExpr .text b).value := by
  have hne : constExpr .text a ≠ constExpr .text b := fun heq => h (heq ▸ out_mem_marks .text _)
  rcases constExpr_text a with ha | ⟨s, ha⟩ <;> rcases constExpr_text b with hb | ⟨w, hb⟩ <;>
    rw [ha, hb] at hne ⊢
  · exact absurd rfl hne
  · simp [Literal.value]
  · simp [Literal.value]
  · simpa [Literal.value] using hne

theorem length_flatMap_marks_le (type : SqlType) (vs : List Literal) :
    (vs.flatMap (constList type).marks).length ≤ 5 * vs.length := by
  induction vs with
  | nil => simp
  | cons v vs ih =>
    have hv : ((constList type).marks v).length ≤ 5 := by
      simp only [constList, List.length_cons]
      split
      · exact Nat.le_refl 5
      · simp
    rw [List.flatMap_cons, List.length_append, List.length_cons]
    omega

/-- Enough dice with different texts. -/
theorem plenty_of_dice (ρ : Choices) {type : SqlType} (dice : List ConstDice)
    (hvalid : ∀ d ∈ dice, d.Valid) (hnodup : (dice.map fun d => (constExpr type d).out).Nodup)
    (hlen : 75 < dice.length) : Plenty ρ (constList type) 16 := by
  intro vs hvs _ n
  have hused := length_flatMap_marks_le type vs
  obtain ⟨text, htext, hnew⟩ := exists_notMem_of_length_lt
    (vs.flatMap (constList type).marks) hnodup (by rw [List.length_map]; omega)
  obtain ⟨d, hd, rfl⟩ := List.mem_map.1 htext
  obtain ⟨k, hk, hdice⟩ := ρ.const_recurs n d (hvalid d hd)
  refine ⟨k, hk, ?_⟩
  show (constExpr type (ρ.next k).const).out ∉ _
  rw [hdice]
  exact hnew

def numberDice (n : ℕ) : ConstDice := ⟨2, 5, n + 1, 1, [], []⟩

theorem numberDice_valid {n : ℕ} (h : n < 100) : (numberDice n).Valid :=
  ⟨by simp [numberDice], by simp [numberDice], by simp [numberDice]; omega,
    by simp [numberDice], by simp [numberDice]⟩

theorem plenty_int (ρ : Choices) : Plenty ρ (constList .int) 16 := by
  refine plenty_of_dice ρ ((List.range 100).map numberDice) ?_ ?_ (by simp)
  · intro d hd
    obtain ⟨n, hn, rfl⟩ := List.mem_map.1 hd
    exact numberDice_valid (List.mem_range.1 hn)
  · rw [List.map_map]
    refine List.Nodup.map (fun m n h => ?_) List.nodup_range
    have htext : toString (m + 1) = toString (n + 1) := h
    exact Nat.succ_injective (toString_injective htext)

/-- The characters that a `random_string` can hold. -/
def wordDice (c : Char) : ConstDice := ⟨2, 1, 1, 1, [c], []⟩

def allowedChars : List Char := ((List.range 127).map Char.ofNat).filter allowedChar

theorem plenty_text (ρ : Choices) : Plenty ρ (constList .text) 16 := by
  refine plenty_of_dice ρ (allowedChars.map wordDice) ?_ ?_ (by
    rw [List.length_map]
    decide +kernel)
  · intro d hd
    obtain ⟨c, hc, rfl⟩ := List.mem_map.1 hd
    exact ⟨by simp [wordDice], by simp [wordDice], by simp [wordDice], by simp [wordDice],
      by simpa [wordDice] using (List.mem_filter.1 hc).2⟩
  · rw [List.map_map]
    refine List.Nodup.map (fun c d h => ?_) (by decide +kernel)
    have htext := congrArg String.toList h
    simpa [wordDice, constExpr, Literal.out] using htext

variable (t : PartitionInput .cockroach)

theorem primaryCol_enumDef : t.primaryCol.enumDef = none := by
  have hmem : t.primaryCol ∈ t.columns := List.get_mem _ _
  rcases List.mem_cons.1 hmem with heq | hmem
  · rw [heq]
  · rcases List.mem_cons.1 hmem with heq | hmem
    · rw [heq]
    · exact t.enums (by decide) _ hmem

theorem list_settles (ρ : Choices) (hplenty : Plenty ρ (constList t.primaryCol.type) 16)
    (hvalue : ∀ a b, (constExpr t.primaryCol.type b).out ∉
        (constList t.primaryCol.type).marks (constExpr t.primaryCol.type a) →
      (constExpr t.primaryCol.type a).value ≠ (constExpr t.primaryCol.type b).value) {n : ℕ} :
    Settles (list ρ t) n PartitionClause.WellFormed := by
  refine Settles.bind (dx_settles (by omega)) fun count hcount m => ?_
  refine Settles.bind (listPartitions_settles hplenty (by simp [constList]) ?_)
    fun ps hps m => ?_
  · simp only [constList]
    omega
  · obtain ⟨used, h⟩ := hps
    refine Settles.pure ⟨fun l hl => ⟨primaryCol_enumDef t, ?_⟩,
      h.shaped Mysql.pName_injective fun j k => hvalue _ _⟩
    obtain ⟨b, hb, hl⟩ := List.mem_flatMap.1 hl
    obtain ⟨vs, rfl, -⟩ := h.bounds b hb
    obtain ⟨k, rfl⟩ := h.values.drawn l (List.mem_flatMap.2 ⟨_, hb, hl⟩)
    exact constExpr_hasType _ _

theorem range_settles (ρ : Choices) (hnumeric : numeric t.primaryCol.type = true) {n : ℕ} :
    Settles (range ρ t) n PartitionClause.WellFormed := by
  refine Settles.bind (dx_settles (by omega)) fun count hcount m => ?_
  have hlen : 0 < 100 / count := Nat.div_pos (by omega) (by omega)
  refine Settles.bind (fromTo_settles 0 count (fun m => (dx_settles hlen).mono fun _ _ => trivial)
    fun m => (dx_settles hlen).mono fun _ h => h.1) fun s hs m => Settles.pure ?_
  have hnumbers := hs.numbers Mysql.pName_injective (by omega)
  refine hnumbers.wellFormed_iff.2 ⟨primaryCol_enumDef t, ?_⟩
  exact of_decide_eq_true hnumeric

/-- A list over a column of reals is the only clause that can go wrong. -/
theorem tableOption_settles (ρ : Choices)
    (h : ¬ (t.primaryCol.type = .real ∧ 3 ≤ (ρ.next 0).die 9 ∧ (ρ.next 0).die 9 ≤ 6)) :
    Settles (tableOption ρ t) 0 PartitionClause.WellFormed := by
  have hrange := ρ.die_range 0 9 (by omega)
  rw [tableOption, dx, Settles.draw_bind]
  generalize (ρ.next 0).die 9 = rand at h hrange
  split
  · exact Settles.pure (wellFormed_of_nil rfl)
  · next hdate =>
    split
    · refine Settles.bind (dx_settles (by omega)) fun n _ m => Settles.pure (wellFormed_of_nil rfl)
    · next hhash =>
      split
      · next hlist =>
        have hlistable : t.primaryCol.type = .int ∨ t.primaryCol.type = .text := by
          cases htype : t.primaryCol.type with
          | int | text => simp
          | date => exact absurd (Or.inl htype) hdate
          | real =>
            have hnumeric : numeric t.primaryCol.type = true := by rw [htype]; rfl
            have h2 : rand ≠ 2 := by simpa [hnumeric] using hhash
            have h6 : rand ≤ 6 := by simpa [hnumeric] using hlist
            have h1 : rand ≠ 1 := fun heq => hdate (Or.inr heq)
            exact absurd ⟨htype, by omega, h6⟩ h
        rcases hlistable with htype | htype
        · exact list_settles t ρ (by rw [htype]; exact plenty_int ρ)
            (by rw [htype]; exact fun a b => value_ne_of_int)
        · exact list_settles t ρ (by rw [htype]; exact plenty_text ρ)
            (by rw [htype]; exact fun a b => value_ne_of_text)
      · next hlist =>
        exact range_settles t ρ (not_not.1 (not_or.1 hlist).2)

/-! Choices that lead a list of reals to one number twice. -/

end Cockroach

/-- Another choice at one place. -/
def Choices.set (ρ : Choices) (n : ℕ) (c : Choice)
    (hdie : ∀ x, 0 < x → 1 ≤ c.die x ∧ c.die x ≤ x) (hconst : c.const.Valid) : Choices where
  next k := if k = n then c else ρ.next k
  die_range k x hx := by
    split
    · exact hdie x hx
    · exact ρ.die_range k x hx
  const_valid k := by
    split
    · exact hconst
    · exact ρ.const_valid k
  die_recurs m x v h1 hx := by
    obtain ⟨k, hk, hv⟩ := ρ.die_recurs (max m (n + 1)) x v h1 hx
    exact ⟨k, by omega, by rw [if_neg (by omega)]; exact hv⟩
  const_recurs m d hd := by
    obtain ⟨k, hk, hdice⟩ := ρ.const_recurs (max m (n + 1)) d hd
    exact ⟨k, by omega, by rw [if_neg (by omega)]; exact hdice⟩

/-- A choice with one die set. -/
def Choices.setDie (ρ : Choices) (n x v : ℕ) (hv : 1 ≤ v ∧ v ≤ x) : Choices :=
  ρ.set n ⟨fun y => if y = x then v else (ρ.next n).die y, (ρ.next n).const⟩
    (fun y hy => by
      dsimp only
      split
      · next h => exact h ▸ hv
      · exact ρ.die_range n y hy)
    (ρ.const_valid n)

def Choices.setConst (ρ : Choices) (n : ℕ) (d : ConstDice) (hd : d.Valid) : Choices :=
  ρ.set n ⟨(ρ.next n).die, d⟩ (ρ.die_range n) hd

namespace Cockroach

/-- 5.1 and then 5.10 -/
def tenthDice (second : ℕ) : ConstDice := ⟨2, 3, 6, second, [], []⟩

def sameNumber (ρ : Choices) : Choices :=
  (((ρ.setDie 1 4 1 (by omega)).setDie 2 4 2 (by omega)).setConst 3 (tenthDice 1)
    ⟨by simp [tenthDice], by simp [tenthDice], by simp [tenthDice], by simp [tenthDice],
      by simp [tenthDice]⟩).setConst 4 (tenthDice 10)
    ⟨by simp [tenthDice], by simp [tenthDice], by simp [tenthDice], by simp [tenthDice],
      by simp [tenthDice]⟩

theorem tenth_not_marked :
    (Literal.real false 5 10).out ∉ (constList .real).marks (.real false 5 1) := by
  decide +kernel

theorem listPartitions_sameNumber (ρ : Choices) (fuel : ℕ) :
    listPartitions (sameNumber ρ) (constList .real) 1 (fuel + 1) 2 =
      some ([⟨Mysql.pName 0, .valuesIn [.real false 5 1, .real false 5 10]⟩], 5) := by
  have h3 : (constList .real).pick ((sameNumber ρ).next 3) = .real false 5 1 := rfl
  have h4 : (constList .real).pick ((sameNumber ρ).next 4) = .real false 5 10 := rfl
  have hfirst : listValue (sameNumber ρ) (constList .real) ([], []) (fuel + 1) 3 =
      some (((constList .real).marks (.real false 5 1), [.real false 5 1]), 4) := by
    simp [listValue, Draws.bind, Draws.drawUntil, Draws.pure, h3]
  have hsecond : listValue (sameNumber ρ) (constList .real)
      ((constList .real).marks (.real false 5 1), [.real false 5 1]) (fuel + 1) 4 =
      some (((constList .real).marks (.real false 5 1) ++ (constList .real).marks (.real false 5 10),
        [.real false 5 1, .real false 5 10]), 5) := by
    have hnew : (constList .real).key (.real false 5 10) ∉
        (constList .real).marks (.real false 5 1) := tenth_not_marked
    simp [listValue, Draws.bind, Draws.drawUntil, Draws.pure, h4, hnew]
  have hvalues : Draws.forFrom (fun _ => listValue (sameNumber ρ) (constList .real)) 0 2 ([], [])
      (fuel + 1) 3 = some (((constList .real).marks (.real false 5 1) ++
        (constList .real).marks (.real false 5 10), [.real false 5 1, .real false 5 10]), 5) := by
    simp only [Draws.forFrom, Draws.bind, hfirst, hsecond, Draws.pure]
  have hlen : dx (sameNumber ρ) (constList .real).sides (fuel + 1) 2 = some (2, 3) := rfl
  have hpartition : listPartition (sameNumber ρ) (constList .real) 0 ([], []) (fuel + 1) 2 =
      some (((constList .real).marks (.real false 5 1) ++ (constList .real).marks (.real false 5 10),
        [⟨Mysql.pName 0, .valuesIn [.real false 5 1, .real false 5 10]⟩]), 5) := by
    rw [listPartition, Draws.bind, hlen]
    dsimp only
    rw [Draws.bind, show 2 + (constList .real).least = 2 from rfl, hvalues]
    rfl
  rw [listPartitions, Draws.bind]
  simp only [Draws.forFrom, Draws.bind, hpartition, Draws.pure]

theorem value_tenth : (Literal.real false 5 1).value = (Literal.real false 5 10).value := by
  have h1 : (toString 1).length = 1 := by decide +kernel
  have h10 : (toString 10).length = 2 := by decide +kernel
  simp only [Literal.value, h1, h10]
  norm_num

variable (t : PartitionInput .cockroach)

theorem tableOption_sameNumber (ρ : Choices) (htype : t.primaryCol.type = .real)
    (hrand : 3 ≤ (ρ.next 0).die 9 ∧ (ρ.next 0).die 9 ≤ 6) :
    Settles (tableOption (sameNumber ρ) t) 0 fun c => ¬ c.WellFormed := by
  have hdie : ((sameNumber ρ).next 0).die 9 = (ρ.next 0).die 9 := rfl
  rw [tableOption, dx, Settles.draw_bind, hdie, if_neg (by simp [htype]; omega),
    if_neg (by omega), if_pos (by omega), list, dx, Settles.draw_bind]
  refine Settles.bind (Q := fun ps => ps =
    [⟨Mysql.pName 0, .valuesIn [.real false 5 1, .real false 5 10]⟩])
    ⟨_, 5, rfl, 1, fun f hf => ?_⟩ fun ps hps m => Settles.pure fun hwell => ?_
  · obtain ⟨fuel, rfl⟩ : ∃ fuel, f = fuel + 1 := ⟨f - 1, by omega⟩
    rw [htype]
    exact listPartitions_sameNumber ρ fuel
  · have hlists := hwell.shaped.lists
    simp [clause, hps, partitionValues, partitionBounds, PartitionBound.values, value_tenth]
      at hlists

end Cockroach

/-! The three generators. -/

def Server.option : (server : Server) → Choices → PartitionInput server → Draws PartitionClause
  | .postgres => Pg.partitionOption
  | .mysql => Mysql.partitionOption
  | .cockroach => Cockroach.tableOption

/-- The choice of the partition method. -/
def Server.branch (ρ : Choices) : Server → ℕ
  | .postgres => (ρ.next 1).die 6
  | .mysql | .cockroach => (ρ.next 0).die 9

/-- The key column suits the values that the method writes. -/
def Server.Suits (key : CreatedColumn) (choice : ℕ) : Server → Prop
  | .postgres => 5 ≤ choice ∨ key.Numeric
  | .mysql => (choice = 5 ∨ choice = 6 ∨ choice = 9) ∨ (choice ≤ 4 ∧ key.type ≠ .int) ∨ key.Numeric
  | .cockroach => ¬ (key.type = .real ∧ 3 ≤ choice ∧ choice ≤ 6)

/-- A partition clause is well formed, however the choices after that of its method come out,
exactly when the key column suits the method. -/
theorem option_wellFormed_iff {server : Server} (t : PartitionInput server) (ρ : Choices) :
    (∀ ρ' : Choices, server.branch ρ' = server.branch ρ →
      Settles (server.option ρ' t) 0 PartitionClause.WellFormed) ↔
      server.Suits t.primaryCol (server.branch ρ) := by
  cases server with
  | postgres =>
    constructor
    · exact fun h => (Settles.iff_of _ (Pg.partitionOption_settles t ρ)).1 (h ρ rfl)
    · intro h ρ' hbranch
      refine (Settles.iff_of _ (Pg.partitionOption_settles t ρ')).2 ?_
      rwa [show (ρ'.next 1).die 6 = (ρ.next 1).die 6 from hbranch]
  | mysql =>
    constructor
    · exact fun h => (Settles.iff_of _ (Mysql.partitionOption_settles t ρ)).1 (h ρ rfl)
    · intro h ρ' hbranch
      refine (Settles.iff_of _ (Mysql.partitionOption_settles t ρ')).2 ?_
      rwa [show (ρ'.next 0).die 9 = (ρ.next 0).die 9 from hbranch]
  | cockroach =>
    constructor
    · rintro h ⟨htype, hrand⟩
      have hbad := Cockroach.tableOption_sameNumber t ρ htype hrand
      obtain ⟨c, hc, hnot⟩ := (h (Cockroach.sameNumber ρ) rfl).unique hbad
      exact hnot hc
    · intro h ρ' hbranch
      refine Cockroach.tableOption_settles t ρ' ?_
      rwa [show (ρ'.next 0).die 9 = (ρ.next 0).die 9 from hbranch]

/-! A key column of texts in PostgreSQL. -/

theorem exists_dice : ∃ dice : ℕ → {d : ConstDice // d.Valid}, Function.Surjective dice := by
  have hinj : Function.Injective fun d : {d : ConstDice // d.Valid} =>
      (d.1.null, d.1.kind, d.1.first, d.1.second, d.1.word.map Char.toNat, d.1.fields) := by
    rintro ⟨⟨_, _, _, _, w, _⟩, _⟩ ⟨⟨_, _, _, _, w', _⟩, _⟩ h
    simp only [Prod.mk.injEq] at h
    obtain ⟨rfl, rfl, rfl, rfl, hword, rfl⟩ := h
    have hchar : Function.Injective Char.toNat := fun a b h => Char.toNat_inj.1 h
    obtain rfl := hchar.list_map hword
    rfl
  have hcountable := hinj.countable
  have hnonempty : Nonempty {d : ConstDice // d.Valid} :=
    ⟨⟨Cockroach.numberDice 0, Cockroach.numberDice_valid (by omega)⟩⟩
  exact exists_surjective_nat _

theorem exists_choices : Nonempty Choices := by
  obtain ⟨dice, hdice⟩ := exists_dice
  refine ⟨⟨fun n => ⟨fun x => n % x + 1, (dice n.unpair.2).1⟩, ?_, ?_, ?_, ?_⟩⟩
  · intro n x hx
    exact ⟨Nat.le_add_left 1 _, Nat.mod_lt n hx⟩
  · exact fun n => (dice n.unpair.2).2
  · intro n x v h1 hx
    refine ⟨x * n + (v - 1), ?_, ?_⟩
    · have := Nat.le_mul_of_pos_left n (show 0 < x by omega)
      omega
    · show (x * n + (v - 1)) % x + 1 = v
      rw [Nat.mul_add_mod, Nat.mod_eq_of_lt (by omega)]
      omega
  · intro n d hd
    obtain ⟨m, hm⟩ := hdice ⟨d, hd⟩
    refine ⟨Nat.pair n m, Nat.left_le_pair n m, ?_⟩
    rw [Nat.unpair_pair, hm]

def textKey : PartitionInput .postgres where
  table := "t_0"
  versionKeyName := "vkey"
  others := [⟨"c_0", .text, none⟩, ⟨"c_1", .int, none⟩, ⟨"c_2", .int, none⟩]
  enums := fun _ => by simp
  primaryColId := 2
  hasPartitionDefault := true
  hasSubpartition := true

/-- A range of whole numbers over a column of texts. -/
theorem textKey_ill_formed : (∃ ρ : Choices, (ρ.next 1).die 6 = 1) ∧
    ∀ ρ : Choices, (ρ.next 1).die 6 = 1 →
      ¬ Settles (Pg.partitionOption ρ textKey) 0 PartitionClause.WellFormed := by
  constructor
  · obtain ⟨ρ⟩ := exists_choices
    exact ⟨ρ.setDie 1 6 1 (by omega), rfl⟩
  · intro ρ hdie hwell
    have hiff := (Settles.iff_of _ (Pg.partitionOption_settles textKey ρ)).1 hwell
    rw [hdie] at hiff
    rcases hiff with h | ⟨-, h | h⟩
    · omega
    · cases h
    · cases h

end DbFuzz.Grammar
