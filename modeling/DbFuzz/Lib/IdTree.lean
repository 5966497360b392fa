import Mathlib.Data.List.Range
import Mathlib.Data.List.Nodup
import Mathlib.Tactic.Ring

/-! Trees whose items carry a number: numbering them, looking one up and replacing one, each by its
own walk over the children. -/

mutual

/-- An item has a number and can be special. Some items are looked up with the first child last.
A group stands between items. -/
inductive IdTree (α : Type)
  | item (id : ℤ) (special : Bool) (label : α) (firstLast : Bool) (slots : IdSlots α)
  | group (label : α) (slots : IdSlots α)

/-- A strict slot takes special items only. -/
inductive IdSlots (α : Type)
  | nil
  | cons (strict : Bool) (child : IdTree α) (rest : IdSlots α)

end

namespace IdTree

variable {α : Type}

def slots : IdTree α → IdSlots α
  | item _ _ _ _ s => s
  | group _ s => s

def withSlots (s : IdSlots α) : IdTree α → IdTree α
  | item i b l h _ => item i b l h s
  | group l _ => group l s

def firstLast : IdTree α → Bool
  | item _ _ _ h _ => h
  | group _ _ => false

def special : IdTree α → Bool
  | item _ b _ _ _ => b
  | group _ _ => false

def hasId (i : ℤ) : IdTree α → Bool
  | item j _ _ _ _ => j = i
  | group _ _ => false

def withId (i : ℤ) : IdTree α → IdTree α
  | item _ b l h s => item i b l h s
  | group l s => group l s

mutual

/-- An item takes its number before the items below it. -/
def number : IdTree α → ℤ → IdTree α × ℤ
  | item _ b l h s, n => (item n b l h (numberSlots s (n + 1)).1, (numberSlots s (n + 1)).2)
  | group l s, n => (group l (numberSlots s n).1, (numberSlots s n).2)

def numberSlots : IdSlots α → ℤ → IdSlots α × ℤ
  | .nil, n => (.nil, n)
  | .cons b c rest, n =>
    (.cons b (number c n).1 (numberSlots rest (number c n).2).1,
      (numberSlots rest (number c n).2).2)

end

mutual

/-- The items below, never the tree itself. -/
def find (i : ℤ) : IdTree α → Option (IdTree α)
  | item _ _ _ h s => findSlots i h s
  | group _ s => findSlots i false s

def findSlots (i : ℤ) : Bool → IdSlots α → Option (IdTree α)
  | _, .nil => none
  | firstLast, .cons _ c rest =>
    let here := if c.hasId i then some c else find i c
    let later := findSlots i false rest
    if firstLast then later.or here else here.or later

end

mutual

/-- `none` when nothing was replaced. -/
def replace (i : ℤ) (x : IdTree α) : IdTree α → Option (IdTree α)
  | item j b l h s => (replaceSlots i x h s).map (item j b l h)
  | group l s => (replaceSlots i x false s).map (group l)

def replaceSlots (i : ℤ) (x : IdTree α) : Bool → IdSlots α → Option (IdSlots α)
  | _, .nil => none
  | firstLast, .cons b c rest =>
    let here := if c.hasId i ∧ (x.special ∨ b = false) then some (x.withId i) else replace i x c
    let later := replaceSlots i x false rest
    if firstLast then (later.map (.cons b c)).or (here.map (.cons b · rest))
    else (here.map (.cons b · rest)).or (later.map (.cons b c))

end

end IdTree

namespace IdSlots

variable {α : Type}

def get? : IdSlots α → ℕ → Option (Bool × IdTree α)
  | nil, _ => none
  | cons b c _, 0 => some (b, c)
  | cons _ _ rest, k + 1 => rest.get? k

def set : IdSlots α → ℕ → IdTree α → IdSlots α
  | nil, _, _ => nil
  | cons b _ rest, 0, x => cons b x rest
  | cons b c rest, k + 1, x => cons b c (rest.set k x)

theorem get?_set_self {b : Bool} {c : IdTree α} (x : IdTree α) :
    ∀ (s : IdSlots α) (k : ℕ), s.get? k = some (b, c) → (s.set k x).get? k = some (b, x)
  | nil, _, h => by cases h
  | cons _ _ _, 0, h => by
    cases h
    rfl
  | cons _ _ rest, k + 1, h => get?_set_self x rest k h

theorem get?_set_ne (x : IdTree α) :
    ∀ (s : IdSlots α) {j k : ℕ}, j ≠ k → (s.set k x).get? j = s.get? j
  | nil, _, _, _ => rfl
  | cons _ _ _, 0, 0, h => absurd rfl h
  | cons _ _ _, _ + 1, 0, _ => rfl
  | cons _ _ _, 0, _ + 1, _ => rfl
  | cons _ _ rest, _ + 1, _ + 1, h => get?_set_ne x rest fun heq => h (congrArg Nat.succ heq)

theorem set_set_get? {b : Bool} {c : IdTree α} (x : IdTree α) :
    ∀ (s : IdSlots α) (k : ℕ), s.get? k = some (b, c) → (s.set k x).set k c = s
  | nil, _, h => by cases h
  | cons _ _ _, 0, h => by
    cases h
    rfl
  | cons b' c' rest, k + 1, h => congrArg (cons b' c') (set_set_get? x rest k h)

end IdSlots

namespace IdTree

variable {α : Type}

/-- The tree at a path of child positions. -/
def at? : IdTree α → List ℕ → Option (IdTree α)
  | t, [] => some t
  | t, k :: π =>
    match t.slots.get? k with
    | some (_, c) => c.at? π
    | none => none

/-- Whether the slot at a path is strict. -/
def strictAt (t : IdTree α) : List ℕ → Bool
  | [] => false
  | k :: π =>
    match t.slots.get? k with
    | some (b, c) => if π = [] then b else c.strictAt π
    | none => false

def putAt (x : IdTree α) : IdTree α → List ℕ → IdTree α
  | _, [] => x
  | t, k :: π =>
    match t.slots.get? k with
    | some (_, c) => t.withSlots (t.slots.set k (putAt x c π))
    | none => t

@[simp]
theorem slots_withSlots (t : IdTree α) (s : IdSlots α) : (t.withSlots s).slots = s := by
  cases t <;> rfl

@[simp]
theorem withSlots_slots (t : IdTree α) : t.withSlots t.slots = t := by
  cases t <;> rfl

@[simp]
theorem withSlots_withSlots (t : IdTree α) (s s' : IdSlots α) :
    (t.withSlots s).withSlots s' = t.withSlots s' := by
  cases t <;> rfl

theorem at?_cons {t c : IdTree α} {k : ℕ} {b : Bool} (h : t.slots.get? k = some (b, c))
    (π : List ℕ) : t.at? (k :: π) = c.at? π := by
  rw [at?, h]

theorem putAt_cons {t c : IdTree α} {k : ℕ} {b : Bool} (h : t.slots.get? k = some (b, c))
    (x : IdTree α) (π : List ℕ) :
    putAt x t (k :: π) = t.withSlots (t.slots.set k (putAt x c π)) := by
  rw [putAt, h]

theorem at?_cons_eq_some {t d : IdTree α} {k : ℕ} {π : List ℕ} (h : t.at? (k :: π) = some d) :
    ∃ b c, t.slots.get? k = some (b, c) ∧ c.at? π = some d := by
  rw [at?] at h
  cases hk : t.slots.get? k with
  | none => simp [hk] at h
  | some bc => exact ⟨bc.1, bc.2, rfl, by simpa [hk] using h⟩

/-! Reading and writing at a path. -/

theorem at?_putAt_self {t c : IdTree α} {π : List ℕ} (h : t.at? π = some c) (x : IdTree α) :
    (putAt x t π).at? π = some x := by
  induction π generalizing t with
  | nil => rfl
  | cons k π ih =>
    obtain ⟨b, d, hk, hd⟩ := at?_cons_eq_some h
    rw [putAt_cons hk, at?_cons (b := b) (by rw [slots_withSlots]; exact IdSlots.get?_set_self _ _ _ hk)]
    exact ih hd

/-- Only the paths through the place, and those above it, see the new tree. -/
theorem at?_putAt_of_apart {t c : IdTree α} {π ρ : List ℕ} (h : t.at? π = some c) (x : IdTree α)
    (hπρ : ¬ π <+: ρ) (hρπ : ¬ ρ <+: π) : (putAt x t π).at? ρ = t.at? ρ := by
  induction π generalizing t ρ with
  | nil => exact absurd List.nil_prefix hπρ
  | cons k π ih =>
    obtain ⟨b, d, hk, hd⟩ := at?_cons_eq_some h
    cases ρ with
    | nil => exact absurd List.nil_prefix hρπ
    | cons j ρ =>
      rw [putAt_cons hk]
      by_cases hjk : j = k
      · subst hjk
        have hset := IdSlots.get?_set_self (putAt x d π) t.slots j hk
        rw [at?_cons hk, at?_cons (b := b) (by rw [slots_withSlots]; exact hset)]
        refine ih hd (fun hpre => hπρ ?_) fun hpre => hρπ ?_
        · exact List.cons_prefix_cons.2 ⟨rfl, hpre⟩
        · exact List.cons_prefix_cons.2 ⟨rfl, hpre⟩
      · rw [at?, at?, slots_withSlots, IdSlots.get?_set_ne _ _ hjk]

theorem putAt_putAt {t c : IdTree α} {π : List ℕ} (h : t.at? π = some c) (x : IdTree α) :
    putAt c (putAt x t π) π = t := by
  induction π generalizing t with
  | nil => exact (Option.some.inj h).symm
  | cons k π ih =>
    obtain ⟨b, d, hk, hd⟩ := at?_cons_eq_some h
    have hset := IdSlots.get?_set_self (putAt x d π) t.slots k hk
    rw [putAt_cons hk, putAt_cons (b := b) (by rw [slots_withSlots]; exact hset), slots_withSlots,
      withSlots_withSlots, ih hd]
    have hback := IdSlots.set_set_get? (putAt x d π) t.slots k hk
    rw [hback, withSlots_slots]

/-! Looking up. -/

/-- The tree itself or an item below it. -/
def findHere (i : ℤ) (c : IdTree α) : Option (IdTree α) := if c.hasId i then some c else find i c

theorem findSlots_cons (i : ℤ) (firstLast b : Bool) (c : IdTree α) (rest : IdSlots α) :
    findSlots i firstLast (.cons b c rest) =
      if firstLast then (findSlots i false rest).or (findHere i c)
      else (findHere i c).or (findSlots i false rest) := by
  rw [findSlots, findHere]

theorem findSlots_cases {i : ℤ} {firstLast b : Bool} {c d : IdTree α} {rest : IdSlots α}
    (h : findSlots i firstLast (.cons b c rest) = some d) :
    findHere i c = some d ∨ findSlots i false rest = some d := by
  rw [findSlots_cons] at h
  split at h
  · exact (Option.or_eq_some_iff.1 h).elim Or.inr fun h => Or.inl h.2
  · exact (Option.or_eq_some_iff.1 h).elim Or.inl fun h => Or.inr h.2

mutual

theorem find_sound {i : ℤ} : ∀ (t : IdTree α) {d : IdTree α}, find i t = some d →
    ∃ k π, t.at? (k :: π) = some d ∧ d.hasId i = true
  | item j b l h s, _, hd => by
    rw [find] at hd
    obtain ⟨k, _, c, π, hk, hc, hid⟩ := findSlots_sound h s hd
    exact ⟨k, π, (at?_cons (t := item j b l h s) hk π).trans hc, hid⟩
  | group l s, _, hd => by
    rw [find] at hd
    obtain ⟨k, _, c, π, hk, hc, hid⟩ := findSlots_sound false s hd
    exact ⟨k, π, (at?_cons (t := group l s) hk π).trans hc, hid⟩

theorem findSlots_sound {i : ℤ} : ∀ (firstLast : Bool) (s : IdSlots α) {d : IdTree α},
    findSlots i firstLast s = some d →
      ∃ k b c π, s.get? k = some (b, c) ∧ c.at? π = some d ∧ d.hasId i = true
  | _, .nil, _, hd => by simp [findSlots] at hd
  | _, .cons b c rest, d, hd => by
    rcases findSlots_cases hd with hd | hd
    · rw [findHere] at hd
      by_cases hid : c.hasId i = true
      · rw [if_pos hid] at hd
        cases hd
        exact ⟨0, b, c, [], rfl, rfl, hid⟩
      · rw [if_neg hid] at hd
        obtain ⟨k, π, hat, hid⟩ := find_sound c hd
        exact ⟨0, b, c, k :: π, rfl, hat, hid⟩
    · obtain ⟨k, b', c', π, hk, hat, hid⟩ := findSlots_sound false rest hd
      exact ⟨k + 1, b', c', π, hk, hat, hid⟩

end

theorem findHere_sound {i : ℤ} {c d : IdTree α} (h : findHere i c = some d) :
    ∃ π, c.at? π = some d ∧ d.hasId i = true := by
  rw [findHere] at h
  by_cases hid : c.hasId i = true
  · rw [if_pos hid] at h
    cases h
    exact ⟨[], rfl, hid⟩
  · rw [if_neg hid] at h
    obtain ⟨k, π, hat, hid⟩ := find_sound c h
    exact ⟨k :: π, hat, hid⟩

theorem findSlots_eq_none {i : ℤ} : ∀ {firstLast : Bool} (s : IdSlots α),
    (∀ k b c, s.get? k = some (b, c) → findHere i c = none) → findSlots i firstLast s = none
  | _, .nil, _ => by rw [findSlots]
  | firstLast, .cons b c rest, h => by
    rw [findSlots_cons, h 0 b c rfl, findSlots_eq_none rest fun k => h (k + 1)]
    cases firstLast <;> rfl

/-- The order of the walk does not matter when one child has the item. -/
theorem findSlots_of_one {i : ℤ} {b : Bool} {c d : IdTree α} (hd : findHere i c = some d) :
    ∀ {firstLast : Bool} (s : IdSlots α) (k : ℕ), s.get? k = some (b, c) →
      (∀ j b' c', j ≠ k → s.get? j = some (b', c') → findHere i c' = none) →
      findSlots i firstLast s = some d
  | _, .nil, _, hk, _ => by cases hk
  | firstLast, .cons b' c' rest, 0, hk, hother => by
    cases hk
    rw [findSlots_cons, hd, findSlots_eq_none rest fun k b' c' =>
      hother (k + 1) b' c' (Nat.succ_ne_zero k)]
    cases firstLast <;> rfl
  | firstLast, .cons b' c' rest, k + 1, hk, hother => by
    have hrest : findSlots i false rest = some d := findSlots_of_one hd rest k hk
      fun j b' c' hj => hother (j + 1) b' c' fun heq => hj (Nat.succ_injective heq)
    rw [findSlots_cons, hrest, hother 0 b' c' (Nat.succ_ne_zero k).symm rfl]
    cases firstLast <;> rfl

/-- The items with the number are at this path or below it. -/
def Under (t : IdTree α) (i : ℤ) (π : List ℕ) : Prop :=
  ∀ k ρ d, t.at? (k :: ρ) = some d → d.hasId i = true → π <+: k :: ρ

theorem find_slots {i : ℤ} (t : IdTree α) : find i t = findSlots i t.firstLast t.slots := by
  cases t <;> rw [find] <;> rfl

theorem Under.not_hasId {t c : IdTree α} {i : ℤ} {k k' : ℕ} {π : List ℕ} {b : Bool}
    (h : t.Under i (k :: k' :: π)) (hk : t.slots.get? k = some (b, c)) : ¬ c.hasId i = true :=
  fun hid => by simpa using (h k [] c (at?_cons hk []) hid).length_le

theorem Under.child {t c : IdTree α} {i : ℤ} {k : ℕ} {π : List ℕ} {b : Bool}
    (h : t.Under i (k :: π)) (hk : t.slots.get? k = some (b, c)) : c.Under i π :=
  fun j ρ e he hide =>
    (List.cons_prefix_cons.1 (h k (j :: ρ) e ((at?_cons hk _).trans he) hide)).2

theorem Under.eq_of_at? {t c d : IdTree α} {i : ℤ} {j k : ℕ} {π ρ : List ℕ} {b : Bool}
    (h : t.Under i (k :: π)) (hj : t.slots.get? j = some (b, c)) (hd : c.at? ρ = some d)
    (hid : d.hasId i = true) : j = k :=
  (List.cons_prefix_cons.1 (h j ρ d ((at?_cons hj ρ).trans hd) hid)).1.symm

theorem Under.findHere_eq_none {t : IdTree α} {i : ℤ} {k : ℕ} {π : List ℕ}
    (h : t.Under i (k :: π)) (j : ℕ) (b : Bool) (c : IdTree α) (hjk : j ≠ k)
    (hj : t.slots.get? j = some (b, c)) : findHere i c = none := by
  by_contra hsome
  obtain ⟨d, hd⟩ := Option.ne_none_iff_exists'.1 hsome
  obtain ⟨ρ, hρ, hid⟩ := findHere_sound hd
  exact hjk (h.eq_of_at? hj hρ hid)

theorem find_of_under {t c : IdTree α} {i : ℤ} {k : ℕ} {π : List ℕ}
    (hat : t.at? (k :: π) = some c) (hid : c.hasId i = true) (h : t.Under i (k :: π)) :
    find i t = some c := by
  induction π generalizing t k with
  | nil =>
    obtain ⟨b, d, hk, hd⟩ := at?_cons_eq_some hat
    cases hd
    have hhere : findHere i c = some c := by rw [findHere, if_pos hid]
    rw [find_slots]
    exact findSlots_of_one hhere t.slots k hk h.findHere_eq_none
  | cons k' π ih =>
    obtain ⟨b, d, hk, hd⟩ := at?_cons_eq_some hat
    have hhere : findHere i d = some c := by
      rw [findHere, if_neg (h.not_hasId hk), ih hd (h.child hk)]
    rw [find_slots]
    exact findSlots_of_one hhere t.slots k hk h.findHere_eq_none

/-! Replacing. -/

/-- The child itself, if its slot takes the new item, or an item below it. -/
def replaceHere (i : ℤ) (x : IdTree α) (strict : Bool) (c : IdTree α) : Option (IdTree α) :=
  if c.hasId i ∧ (x.special ∨ strict = false) then some (x.withId i) else replace i x c

theorem replaceSlots_cons (i : ℤ) (x : IdTree α) (firstLast b : Bool) (c : IdTree α)
    (rest : IdSlots α) :
    replaceSlots i x firstLast (.cons b c rest) =
      if firstLast then
        ((replaceSlots i x false rest).map (.cons b c)).or
          ((replaceHere i x b c).map (.cons b · rest))
      else
        ((replaceHere i x b c).map (.cons b · rest)).or
          ((replaceSlots i x false rest).map (.cons b c)) := by
  rw [replaceSlots, replaceHere]

theorem replace_slots {i : ℤ} {x : IdTree α} (t : IdTree α) :
    replace i x t = (replaceSlots i x t.firstLast t.slots).map t.withSlots := by
  cases t <;> rw [replace] <;> rfl

theorem replaceSlots_cases {i : ℤ} {x : IdTree α} {firstLast b : Bool} {c : IdTree α}
    {rest s' : IdSlots α} (h : replaceSlots i x firstLast (.cons b c rest) = some s') :
    (∃ c', replaceHere i x b c = some c') ∨ ∃ r, replaceSlots i x false rest = some r := by
  have here {o : Option (IdTree α)} (ho : o.map (IdSlots.cons b · rest) = some s') :
      ∃ c', o = some c' := (Option.map_eq_some_iff.1 ho).imp fun _ h => h.1
  have later {o : Option (IdSlots α)} (ho : o.map (IdSlots.cons b c) = some s') :
      ∃ r, o = some r := (Option.map_eq_some_iff.1 ho).imp fun _ h => h.1
  rw [replaceSlots_cons] at h
  split at h
  · exact (Option.or_eq_some_iff.1 h).elim (fun h => Or.inr (later h)) fun h => Or.inl (here h.2)
  · exact (Option.or_eq_some_iff.1 h).elim (fun h => Or.inl (here h)) fun h => Or.inr (later h.2)

mutual

/-- Nothing is replaced without a place that takes the new item. -/
theorem replace_place {i : ℤ} {x : IdTree α} : ∀ (t : IdTree α) {t' : IdTree α},
    replace i x t = some t' →
      ∃ k π d, t.at? (k :: π) = some d ∧ d.hasId i = true ∧
        (x.special = true ∨ t.strictAt (k :: π) = false)
  | item j b l h s, _, ht => by
    rw [replace_slots] at ht
    obtain ⟨s', hs', -⟩ := Option.map_eq_some_iff.1 ht
    obtain ⟨k, b', c, π, d, hk, hc, hid, hok⟩ := replaceSlots_place h s hs'
    exact ⟨k, π, d, (at?_cons (t := item j b l h s) hk π).trans hc, hid,
      hok.imp id fun hb => by rw [strictAt, slots, hk]; exact hb⟩
  | group l s, _, ht => by
    rw [replace_slots] at ht
    obtain ⟨s', hs', -⟩ := Option.map_eq_some_iff.1 ht
    obtain ⟨k, b', c, π, d, hk, hc, hid, hok⟩ := replaceSlots_place false s hs'
    exact ⟨k, π, d, (at?_cons (t := group l s) hk π).trans hc, hid,
      hok.imp id fun hb => by rw [strictAt, slots, hk]; exact hb⟩

theorem replaceSlots_place {i : ℤ} {x : IdTree α} :
    ∀ (firstLast : Bool) (s : IdSlots α) {s' : IdSlots α},
      replaceSlots i x firstLast s = some s' →
        ∃ k b c π d, s.get? k = some (b, c) ∧ c.at? π = some d ∧ d.hasId i = true ∧
          (x.special = true ∨ (if π = [] then b else c.strictAt π) = false)
  | _, .nil, _, hs => by simp [replaceSlots] at hs
  | _, .cons b c rest, _, hs => by
    rcases replaceSlots_cases hs with ⟨c', hc'⟩ | ⟨r, hr⟩
    · rw [replaceHere] at hc'
      by_cases hid : c.hasId i = true ∧ (x.special = true ∨ b = false)
      · exact ⟨0, b, c, [], c, rfl, rfl, hid.1, hid.2⟩
      · rw [if_neg hid] at hc'
        obtain ⟨k, π, d, hat, hid, hok⟩ := replace_place c hc'
        exact ⟨0, b, c, k :: π, d, rfl, hat, hid, hok⟩
    · obtain ⟨k, b', c', π, d, hk, hat, hid, hok⟩ := replaceSlots_place false rest hr
      exact ⟨k + 1, b', c', π, d, hk, hat, hid, hok⟩

end

theorem replaceHere_place {i : ℤ} {x c c' : IdTree α} {b : Bool}
    (h : replaceHere i x b c = some c') : ∃ π d, c.at? π = some d ∧ d.hasId i = true := by
  rw [replaceHere] at h
  by_cases hid : c.hasId i = true ∧ (x.special = true ∨ b = false)
  · exact ⟨[], c, rfl, hid.1⟩
  · rw [if_neg hid] at h
    obtain ⟨k, π, d, hat, hid, -⟩ := replace_place c h
    exact ⟨k :: π, d, hat, hid⟩

theorem Under.replaceHere_eq_none {t x : IdTree α} {i : ℤ} {k : ℕ} {π : List ℕ}
    (h : t.Under i (k :: π)) (j : ℕ) (b : Bool) (c : IdTree α) (hjk : j ≠ k)
    (hj : t.slots.get? j = some (b, c)) : replaceHere i x b c = none := by
  by_contra hsome
  obtain ⟨d, hd⟩ := Option.ne_none_iff_exists'.1 hsome
  obtain ⟨ρ, e, hρ, hid⟩ := replaceHere_place hd
  exact hjk (h.eq_of_at? hj hρ hid)

theorem replaceSlots_eq_none {i : ℤ} {x : IdTree α} : ∀ {firstLast : Bool} (s : IdSlots α),
    (∀ k b c, s.get? k = some (b, c) → replaceHere i x b c = none) →
    replaceSlots i x firstLast s = none
  | _, .nil, _ => by rw [replaceSlots]
  | firstLast, .cons b c rest, h => by
    rw [replaceSlots_cons, h 0 b c rfl, replaceSlots_eq_none rest fun k => h (k + 1)]
    cases firstLast <;> rfl

theorem replaceSlots_of_one {i : ℤ} {x c c' : IdTree α} {b : Bool}
    (hc' : replaceHere i x b c = some c') :
    ∀ {firstLast : Bool} (s : IdSlots α) (k : ℕ), s.get? k = some (b, c) →
      (∀ j b' d, j ≠ k → s.get? j = some (b', d) → replaceHere i x b' d = none) →
      replaceSlots i x firstLast s = some (s.set k c')
  | _, .nil, _, hk, _ => by cases hk
  | firstLast, .cons b' d rest, 0, hk, hother => by
    cases hk
    rw [replaceSlots_cons, hc', replaceSlots_eq_none rest fun k b' d =>
      hother (k + 1) b' d (Nat.succ_ne_zero k)]
    cases firstLast <;> rfl
  | firstLast, .cons b' d rest, k + 1, hk, hother => by
    have hrest : replaceSlots i x false rest = some (rest.set k c') :=
      replaceSlots_of_one hc' rest k hk fun j b' d hj =>
        hother (j + 1) b' d fun heq => hj (Nat.succ_injective heq)
    rw [replaceSlots_cons, hrest, hother 0 b' d (Nat.succ_ne_zero k).symm rfl]
    cases firstLast <;> rfl

theorem replace_of_under {t c x : IdTree α} {i : ℤ} {k : ℕ} {π : List ℕ}
    (hat : t.at? (k :: π) = some c) (hid : c.hasId i = true) (h : t.Under i (k :: π))
    (hok : x.special = true ∨ t.strictAt (k :: π) = false) :
    replace i x t = some (putAt (x.withId i) t (k :: π)) := by
  induction π generalizing t k with
  | nil =>
    obtain ⟨b, d, hk, hd⟩ := at?_cons_eq_some hat
    cases hd
    rw [strictAt, hk] at hok
    have hhere : replaceHere i x b c = some (x.withId i) := by
      rw [replaceHere, if_pos ⟨hid, hok⟩]
    rw [replace_slots, replaceSlots_of_one hhere t.slots k hk, putAt_cons hk]
    · rfl
    · exact h.replaceHere_eq_none
  | cons k' π ih =>
    obtain ⟨b, d, hk, hd⟩ := at?_cons_eq_some hat
    rw [strictAt, hk] at hok
    have hhere : replaceHere i x b d = some (putAt (x.withId i) d (k' :: π)) := by
      rw [replaceHere, if_neg fun hdid => h.not_hasId hk hdid.1, ih hd (h.child hk) hok]
    rw [replace_slots, replaceSlots_of_one hhere t.slots k hk, putAt_cons hk]
    · rfl
    · exact h.replaceHere_eq_none

/-! Numbering. -/

mutual

/-- The numbers of the items, an item before those below it. -/
def ids : IdTree α → List ℤ
  | item i _ _ _ s => i :: idsSlots s
  | group _ s => idsSlots s

def idsSlots : IdSlots α → List ℤ
  | .nil => []
  | .cons _ c rest => ids c ++ idsSlots rest

end

theorem idsSlots_sublist_ids (t : IdTree α) : (idsSlots t.slots).Sublist (ids t) := by
  cases t with
  | item i b l h s => exact List.sublist_cons_self i (idsSlots s)
  | group l s => exact List.Sublist.refl (idsSlots s)

theorem ids_sublist_idsSlots {b : Bool} {c : IdTree α} : ∀ (s : IdSlots α) (k : ℕ),
    s.get? k = some (b, c) → (ids c).Sublist (idsSlots s)
  | .nil, _, h => by cases h
  | .cons _ _ rest, 0, h => by
    cases h
    exact List.sublist_append_left (ids c) (idsSlots rest)
  | .cons _ c' rest, k + 1, h =>
    (ids_sublist_idsSlots rest k h).trans (List.sublist_append_right (ids c') (idsSlots rest))

theorem mem_ids_of_at? {t d : IdTree α} {i : ℤ} {π : List ℕ} (hat : t.at? π = some d)
    (hid : d.hasId i = true) : i ∈ ids t := by
  induction π generalizing t with
  | nil =>
    obtain rfl := Option.some.inj hat
    cases t with
    | item j b l h s =>
      have hj : j = i := of_decide_eq_true hid
      exact hj ▸ List.mem_cons_self
    | group l s => simp [hasId] at hid
  | cons k π ih =>
    obtain ⟨b, c, hk, hc⟩ := at?_cons_eq_some hat
    exact (idsSlots_sublist_ids t).subset ((ids_sublist_idsSlots t.slots k hk).subset (ih hc))

mutual

theorem at?_of_mem_ids {i : ℤ} : ∀ (t : IdTree α), i ∈ ids t →
    ∃ π d, t.at? π = some d ∧ d.hasId i = true
  | item j b l h s, hi => by
    rw [ids] at hi
    rcases List.mem_cons.1 hi with rfl | hi
    · exact ⟨[], _, rfl, decide_eq_true rfl⟩
    · obtain ⟨k, b', c, π, d, hk, hd, hid⟩ := get?_of_mem_idsSlots s hi
      exact ⟨k :: π, d, (at?_cons (t := item j b l h s) hk π).trans hd, hid⟩
  | group l s, hi => by
    rw [ids] at hi
    obtain ⟨k, b', c, π, d, hk, hd, hid⟩ := get?_of_mem_idsSlots s hi
    exact ⟨k :: π, d, (at?_cons (t := group l s) hk π).trans hd, hid⟩

theorem get?_of_mem_idsSlots {i : ℤ} : ∀ (s : IdSlots α), i ∈ idsSlots s →
    ∃ k b c π d, s.get? k = some (b, c) ∧ c.at? π = some d ∧ d.hasId i = true
  | .nil, hi => by simp [idsSlots] at hi
  | .cons b c rest, hi => by
    rw [idsSlots] at hi
    rcases List.mem_append.1 hi with hi | hi
    · obtain ⟨π, d, hd, hid⟩ := at?_of_mem_ids c hi
      exact ⟨0, b, c, π, d, rfl, hd, hid⟩
    · obtain ⟨k, b', c', π, d, hk, hd, hid⟩ := get?_of_mem_idsSlots rest hi
      exact ⟨k + 1, b', c', π, d, hk, hd, hid⟩

end

theorem idsSlots_disjoint {i : ℤ} {b b' : Bool} {c c' : IdTree α} :
    ∀ (s : IdSlots α), (idsSlots s).Nodup → ∀ (j k : ℕ), s.get? j = some (b, c) →
      s.get? k = some (b', c') → i ∈ ids c → i ∈ ids c' → j = k
  | .nil, _, _, _, hj, _, _, _ => by cases hj
  | .cons _ _ _, _, 0, 0, _, _, _, _ => rfl
  | .cons _ _ rest, hs, 0, k + 1, hj, hk, hi, hi' => by
    cases hj
    have hrest := (ids_sublist_idsSlots rest k hk).subset hi'
    exact absurd rfl ((List.nodup_append.1 hs).2.2 i hi i hrest)
  | .cons _ _ rest, hs, j + 1, 0, hj, hk, hi, hi' => by
    cases hk
    have hrest := (ids_sublist_idsSlots rest j hj).subset hi
    exact absurd rfl ((List.nodup_append.1 hs).2.2 i hi' i hrest)
  | .cons _ _ rest, hs, j + 1, k + 1, hj, hk, hi, hi' =>
    congrArg Nat.succ
      (idsSlots_disjoint rest (List.nodup_append.1 hs).2.1 j k hj hk hi hi')

/-- Every number stands at one place at most. -/
def UniqueIds (t : IdTree α) : Prop :=
  ∀ i π ρ d e, t.at? π = some d → t.at? ρ = some e → d.hasId i = true → e.hasId i = true → π = ρ

theorem uniqueIds_of_nodup {t : IdTree α} (ht : (ids t).Nodup) : t.UniqueIds := by
  intro i π
  induction π generalizing t with
  | nil =>
    intro ρ d e hd he hid hide
    cases hd
    cases ρ with
    | nil => rfl
    | cons k ρ =>
      obtain ⟨b, c, hk, hc⟩ := at?_cons_eq_some he
      have hin := (ids_sublist_idsSlots t.slots k hk).subset (mem_ids_of_at? hc hide)
      cases t with
      | item j b l h s =>
        have hj : j = i := of_decide_eq_true hid
        exact absurd (hj ▸ hin) (List.nodup_cons.1 ht).1
      | group l s => simp [hasId] at hid
  | cons k π ih =>
    intro ρ d e hd he hid hide
    obtain ⟨b, c, hk, hc⟩ := at?_cons_eq_some hd
    have hs := ht.sublist (idsSlots_sublist_ids t)
    cases ρ with
    | nil =>
      cases he
      have hin := (ids_sublist_idsSlots t.slots k hk).subset (mem_ids_of_at? hc hid)
      cases t with
      | item j b l h s =>
        have hj : j = i := of_decide_eq_true hide
        exact absurd (hj ▸ hin) (List.nodup_cons.1 ht).1
      | group l s => simp [hasId] at hide
    | cons j ρ =>
      obtain ⟨b', c', hj, hc'⟩ := at?_cons_eq_some he
      have hkj := idsSlots_disjoint t.slots hs k j hk hj (mem_ids_of_at? hc hid)
        (mem_ids_of_at? hc' hide)
      subst hkj
      cases hk.symm.trans hj
      rw [ih (hs.sublist (ids_sublist_idsSlots t.slots k hk)) ρ d e hc hc' hid hide]

mutual

/-- The number of items. -/
def size : IdTree α → ℕ
  | item _ _ _ _ s => sizeSlots s + 1
  | group _ s => sizeSlots s

def sizeSlots : IdSlots α → ℕ
  | .nil => 0
  | .cons _ c rest => size c + sizeSlots rest

end

mutual

theorem number_snd : ∀ (t : IdTree α) (n : ℤ), (number t n).2 = n + size t
  | item _ _ _ _ s, n => by
    rw [number, numberSlots_snd s, size]
    push_cast
    ring
  | group _ s, n => by rw [number, numberSlots_snd s, size]

theorem numberSlots_snd : ∀ (s : IdSlots α) (n : ℤ), (numberSlots s n).2 = n + sizeSlots s
  | .nil, n => by simp [numberSlots, sizeSlots]
  | .cons _ c rest, n => by
    rw [numberSlots, numberSlots_snd rest, number_snd c, sizeSlots]
    push_cast
    ring

end

/-- The numbers from a first one on. -/
def idsFrom (n : ℤ) (k : ℕ) : List ℤ := (List.range k).map fun j : ℕ => n + (j : ℤ)

theorem idsFrom_add (n : ℤ) (j k : ℕ) : idsFrom n (j + k) = idsFrom n j ++ idsFrom (n + j) k := by
  rw [idsFrom, List.range_add, List.map_append, List.map_map]
  refine congrArg _ (List.map_congr_left fun i _ => ?_)
  simp [add_assoc]

theorem idsFrom_succ (n : ℤ) (k : ℕ) : idsFrom n (k + 1) = n :: idsFrom (n + 1) k := by
  rw [add_comm, idsFrom_add]
  simp [idsFrom]

theorem mem_idsFrom {i n : ℤ} {k : ℕ} : i ∈ idsFrom n k ↔ n ≤ i ∧ i < n + k := by
  simp only [idsFrom, List.mem_map, List.mem_range]
  constructor
  · rintro ⟨j, hj, rfl⟩
    omega
  · rintro ⟨hn, hk⟩
    exact ⟨(i - n).toNat, by omega, by omega⟩

theorem nodup_idsFrom (n : ℤ) (k : ℕ) : (idsFrom n k).Nodup :=
  List.nodup_range.map fun a b h => by simpa using h

mutual

theorem ids_number : ∀ (t : IdTree α) (n : ℤ), ids (number t n).1 = idsFrom n (size t)
  | item _ _ _ _ s, n => by
    rw [number, ids, idsSlots_numberSlots s, size, idsFrom_succ]
  | group _ s, n => by rw [number, ids, idsSlots_numberSlots s, size]

theorem idsSlots_numberSlots : ∀ (s : IdSlots α) (n : ℤ),
    idsSlots (numberSlots s n).1 = idsFrom n (sizeSlots s)
  | .nil, n => rfl
  | .cons _ c rest, n => by
    rw [numberSlots, idsSlots, ids_number c, idsSlots_numberSlots rest, number_snd, sizeSlots,
      idsFrom_add]

end

theorem uniqueIds_number (t : IdTree α) (n : ℤ) : (number t n).1.UniqueIds :=
  uniqueIds_of_nodup (by rw [ids_number]; exact nodup_idsFrom n _)

/-! Replacing where the numbers are unique. -/

theorem UniqueIds.under {t c : IdTree α} {i : ℤ} {π : List ℕ} (h : t.UniqueIds)
    (hat : t.at? π = some c) (hid : c.hasId i = true) : t.Under i π :=
  fun k ρ d hd hide => h i π (k :: ρ) c d hat hd hid hide ▸ List.prefix_rfl

/-- Outside the place every item keeps its number. -/
theorem at?_putAt_outside {t c d x : IdTree α} {π ρ : List ℕ} (h : t.at? π = some c)
    (hπρ : ¬ π <+: ρ) (hd : (putAt x t π).at? ρ = some d) :
    ∃ e, t.at? ρ = some e ∧ ∀ i, d.hasId i = e.hasId i := by
  induction π generalizing t ρ with
  | nil => exact absurd List.nil_prefix hπρ
  | cons k π ih =>
    obtain ⟨b, c', hk, hc'⟩ := at?_cons_eq_some h
    rw [putAt_cons hk] at hd
    cases ρ with
    | nil =>
      obtain rfl := Option.some.inj hd
      exact ⟨t, rfl, fun i => by cases t <;> rfl⟩
    | cons j ρ =>
      by_cases hjk : j = k
      · subst hjk
        have hset := IdSlots.get?_set_self (putAt x c' π) t.slots j hk
        rw [at?_cons (b := b) (by rw [slots_withSlots]; exact hset)] at hd
        rw [at?_cons hk]
        exact ih hc' (fun hpre => hπρ (List.cons_prefix_cons.2 ⟨rfl, hpre⟩)) hd
      · rw [at?, slots_withSlots, IdSlots.get?_set_ne _ _ hjk, ← at?] at hd
        exact ⟨d, hd, fun _ => rfl⟩

theorem at?_putAt_append {t c : IdTree α} {π : List ℕ} (h : t.at? π = some c) (x : IdTree α)
    (ρ : List ℕ) : (putAt x t π).at? (π ++ ρ) = x.at? ρ := by
  induction π generalizing t with
  | nil => rfl
  | cons k π ih =>
    obtain ⟨b, d, hk, hd⟩ := at?_cons_eq_some h
    have hset := IdSlots.get?_set_self (putAt x d π) t.slots k hk
    rw [putAt_cons hk, List.cons_append, at?_cons (b := b) (by rw [slots_withSlots]; exact hset)]
    exact ih hd

theorem hasId_withId (i : ℤ) (x : IdTree α) (j : ℤ) (hj : (x.withId i).hasId j = true) : i = j := by
  cases x with
  | item k b l h s => exact of_decide_eq_true hj
  | group l s => simp [withId, hasId] at hj

theorem under_putAt {t c x : IdTree α} {i : ℤ} {π : List ℕ} (hat : t.at? π = some c)
    (h : t.Under i π) : (putAt x t π).Under i π := by
  intro k ρ d hd hid
  by_contra hnot
  obtain ⟨e, he, hsame⟩ := at?_putAt_outside hat hnot hd
  exact hnot (h k ρ e he (hsame i ▸ hid))

/-- A leaf that takes over the number of the item it replaces. -/
theorem UniqueIds.putAt {t c x : IdTree α} {i : ℤ} {π : List ℕ} (h : t.UniqueIds)
    (hat : t.at? π = some c) (hid : c.hasId i = true) (hx : x.slots = .nil) :
    (IdTree.putAt (x.withId i) t π).UniqueIds := by
  have below {ρ : List ℕ} {d : IdTree α} (hpre : π <+: ρ)
      (hd : (IdTree.putAt (x.withId i) t π).at? ρ = some d) : ρ = π ∧ d = x.withId i := by
    obtain ⟨σ, rfl⟩ := hpre
    rw [at?_putAt_append hat] at hd
    cases σ with
    | nil => exact ⟨List.append_nil π, (Option.some.inj hd).symm⟩
    | cons k σ =>
      have hnil : (x.withId i).slots = .nil := by rw [← hx]; cases x <;> rfl
      rw [at?, hnil] at hd
      cases hd
  intro j ρ σ d e hd he hdid heid
  by_cases hρ : π <+: ρ
  · obtain ⟨rfl, rfl⟩ := below hρ hd
    obtain rfl := hasId_withId i x j hdid
    by_cases hσ : ρ <+: σ
    · exact (below hσ he).1.symm
    · obtain ⟨e', he', hsame⟩ := at?_putAt_outside hat hσ he
      exact h i ρ σ c e' hat he' hid (hsame i ▸ heid)
  · obtain ⟨d', hd', hsame⟩ := at?_putAt_outside hat hρ hd
    by_cases hσ : π <+: σ
    · obtain ⟨rfl, rfl⟩ := below hσ he
      obtain rfl := hasId_withId i x j heid
      exact h i ρ σ d' c hd' hat (hsame i ▸ hdid) hid
    · obtain ⟨e', he', hsame'⟩ := at?_putAt_outside hat hσ he
      exact h j ρ σ d' e' hd' he' (hsame j ▸ hdid) (hsame' j ▸ heid)

theorem strictAt_putAt {t c x : IdTree α} {π : List ℕ} (h : t.at? π = some c) :
    (IdTree.putAt x t π).strictAt π = t.strictAt π := by
  induction π generalizing t with
  | nil => rfl
  | cons k π ih =>
    obtain ⟨b, d, hk, hd⟩ := at?_cons_eq_some h
    have hset := IdSlots.get?_set_self (IdTree.putAt x d π) t.slots k hk
    rw [putAt_cons hk, strictAt, strictAt, slots_withSlots, hset, hk]
    simp only
    rw [ih hd]

theorem withId_of_hasId {x : IdTree α} {i : ℤ} (h : x.hasId i = true) : x.withId i = x := by
  cases x with
  | item j b l h' s =>
    have hj : j = i := of_decide_eq_true h
    rw [withId, hj]
  | group l s => rfl

/-! Labels and slots everywhere in a tree. -/

mutual

def All (p : α → Prop) : IdTree α → Prop
  | item _ _ l _ s => p l ∧ AllSlots p s
  | group l s => p l ∧ AllSlots p s

def AllSlots (p : α → Prop) : IdSlots α → Prop
  | .nil => True
  | .cons _ c rest => All p c ∧ AllSlots p rest

end

theorem AllSlots.get? {p : α → Prop} {b : Bool} {c : IdTree α} : ∀ {s : IdSlots α} {k : ℕ},
    AllSlots p s → s.get? k = some (b, c) → All p c
  | .nil, _, _, h => by cases h
  | .cons _ _ _, 0, hs, h => by
    cases h
    rw [AllSlots] at hs
    exact hs.1
  | .cons _ _ rest, k + 1, hs, h => by
    rw [AllSlots] at hs
    exact AllSlots.get? (s := rest) hs.2 h

theorem AllSlots.set {p : α → Prop} {x : IdTree α} (hx : All p x) : ∀ {s : IdSlots α} {k : ℕ},
    AllSlots p s → AllSlots p (s.set k x)
  | .nil, _, hs => hs
  | .cons _ _ _, 0, hs => by
    rw [AllSlots] at hs
    rw [IdSlots.set, AllSlots]
    exact ⟨hx, hs.2⟩
  | .cons _ _ rest, k + 1, hs => by
    rw [AllSlots] at hs
    rw [IdSlots.set, AllSlots]
    exact ⟨hs.1, AllSlots.set (s := rest) hx hs.2⟩

theorem All.slots {p : α → Prop} {t : IdTree α} (h : All p t) : AllSlots p t.slots := by
  cases t <;> (rw [All] at h; exact h.2)

theorem All.withSlots {p : α → Prop} {t : IdTree α} (h : All p t) {s : IdSlots α}
    (hs : AllSlots p s) : All p (t.withSlots s) := by
  cases t <;> (rw [All] at h; rw [IdTree.withSlots, All]; exact ⟨h.1, hs⟩)

theorem All.putAt {p : α → Prop} {t c x : IdTree α} {π : List ℕ} (h : All p t) (hx : All p x)
    (hat : t.at? π = some c) : All p (IdTree.putAt x t π) := by
  induction π generalizing t with
  | nil => exact hx
  | cons k π ih =>
    obtain ⟨b, d, hk, hd⟩ := at?_cons_eq_some hat
    rw [putAt_cons hk]
    exact h.withSlots (AllSlots.set (ih (h.slots.get? hk) hd) h.slots)

mutual

/-- What stands in a strict slot is special. -/
def Fits : IdTree α → Prop
  | item _ _ _ _ s => FitsSlots s
  | group _ s => FitsSlots s

def FitsSlots : IdSlots α → Prop
  | .nil => True
  | .cons b c rest => (b = true → c.special = true) ∧ Fits c ∧ FitsSlots rest

end

theorem FitsSlots.get? {b : Bool} {c : IdTree α} : ∀ {s : IdSlots α} {k : ℕ},
    FitsSlots s → s.get? k = some (b, c) → (b = true → c.special = true) ∧ Fits c
  | .nil, _, _, h => by cases h
  | .cons _ _ _, 0, hs, h => by
    cases h
    rw [FitsSlots] at hs
    exact ⟨hs.1, hs.2.1⟩
  | .cons _ _ rest, k + 1, hs, h => by
    rw [FitsSlots] at hs
    exact FitsSlots.get? (s := rest) hs.2.2 h

theorem Fits.special {t c : IdTree α} {π : List ℕ} (h : Fits t) (hat : t.at? π = some c)
    (hstrict : t.strictAt π = true) : c.special = true := by
  induction π generalizing t with
  | nil => cases hstrict
  | cons k π ih =>
    obtain ⟨b, d, hk, hd⟩ := at?_cons_eq_some hat
    have hslots : FitsSlots t.slots := by cases t <;> (rw [Fits] at h; exact h)
    have hfit := hslots.get? hk
    rw [strictAt, hk] at hstrict
    cases π with
    | nil =>
      obtain rfl := Option.some.inj hd
      exact hfit.1 hstrict
    | cons j π => exact ih hfit.2 hd hstrict

mutual

/-- The labels `replace` comes past; an item it replaces is not entered. -/
def Meets (p : α → Prop) (i : ℤ) (x : IdTree α) : IdTree α → Prop
  | item _ _ l _ s => p l ∧ MeetsSlots p i x s
  | group l s => p l ∧ MeetsSlots p i x s

def MeetsSlots (p : α → Prop) (i : ℤ) (x : IdTree α) : IdSlots α → Prop
  | .nil => True
  | .cons b c rest =>
    (c.hasId i = true ∧ (x.special = true ∨ b = false) ∨ Meets p i x c) ∧ MeetsSlots p i x rest

end

def MeetsHere (p : α → Prop) (i : ℤ) (x : IdTree α) (strict : Bool) (c : IdTree α) : Prop :=
  c.hasId i = true ∧ (x.special = true ∨ strict = false) ∨ Meets p i x c

theorem meetsSlots_cons {p : α → Prop} {i : ℤ} {x c : IdTree α} {b : Bool} {rest : IdSlots α} :
    MeetsSlots p i x (.cons b c rest) ↔ MeetsHere p i x b c ∧ MeetsSlots p i x rest := by
  rw [MeetsSlots, MeetsHere]

mutual

theorem All.meets {p : α → Prop} {i : ℤ} {x : IdTree α} : ∀ {t : IdTree α}, All p t → Meets p i x t
  | item _ _ _ _ s, h => by
    rw [All] at h
    rw [Meets]
    exact ⟨h.1, AllSlots.meets (s := s) h.2⟩
  | group _ s, h => by
    rw [All] at h
    rw [Meets]
    exact ⟨h.1, AllSlots.meets (s := s) h.2⟩

theorem AllSlots.meets {p : α → Prop} {i : ℤ} {x : IdTree α} :
    ∀ {s : IdSlots α}, AllSlots p s → MeetsSlots p i x s
  | .nil, _ => by rw [MeetsSlots]; trivial
  | .cons _ c rest, h => by
    rw [AllSlots] at h
    exact meetsSlots_cons.2 ⟨Or.inr (All.meets (t := c) h.1), AllSlots.meets (s := rest) h.2⟩

end

theorem MeetsSlots.set {p : α → Prop} {i : ℤ} {x d : IdTree α} {b : Bool} {c : IdTree α}
    (hd : MeetsHere p i x b d) :
    ∀ {s : IdSlots α} {k : ℕ}, AllSlots p s → s.get? k = some (b, c) →
      MeetsSlots p i x (s.set k d)
  | .nil, _, _, hk => by cases hk
  | .cons _ _ _, 0, hs, hk => by
    cases hk
    rw [AllSlots] at hs
    exact meetsSlots_cons.2 ⟨hd, hs.2.meets⟩
  | .cons _ _ rest, k + 1, hs, hk => by
    rw [AllSlots] at hs
    exact meetsSlots_cons.2 ⟨Or.inr hs.1.meets, MeetsSlots.set hd (s := rest) hs.2 hk⟩

theorem All.meets_withSlots {p : α → Prop} {i : ℤ} {x t : IdTree α} (h : All p t) {s : IdSlots α}
    (hs : MeetsSlots p i x s) : Meets p i x (t.withSlots s) := by
  cases t <;> (rw [All] at h; rw [IdTree.withSlots, Meets]; exact ⟨h.1, hs⟩)

/-- A replacement of what was put at a path does not look at it. -/
theorem All.meets_putAt {p : α → Prop} {i : ℤ} {t c x d : IdTree α} {k : ℕ} {π : List ℕ}
    (h : All p t) (hat : t.at? (k :: π) = some c) (hd : d.hasId i = true)
    (hx : x.special = true ∨ t.strictAt (k :: π) = false) :
    Meets p i x (IdTree.putAt d t (k :: π)) := by
  induction π generalizing t k with
  | nil =>
    obtain ⟨b, c', hk, hc'⟩ := at?_cons_eq_some hat
    rw [strictAt, hk] at hx
    rw [putAt_cons hk]
    exact h.meets_withSlots (MeetsSlots.set (Or.inl ⟨hd, hx⟩) h.slots hk)
  | cons j π ih =>
    obtain ⟨b, c', hk, hc'⟩ := at?_cons_eq_some hat
    rw [strictAt, hk] at hx
    rw [putAt_cons hk]
    exact h.meets_withSlots
      (MeetsSlots.set (Or.inr (ih (h.slots.get? hk) hc' hx)) h.slots hk)

end IdTree
