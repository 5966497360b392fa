import Mathlib.Data.Nat.Notation

/-! Programs that make random choices, one after the other from a sequence, with fuel for the
loops that choose again until a test holds. -/

/-- From the fuel and the place in the sequence to a value and the place after it. -/
def Draws (α : Type) := ℕ → ℕ → Option (α × ℕ)

namespace Draws

variable {γ α β σ : Type}

protected def pure (a : α) : Draws α := fun _ n => some (a, n)

protected def bind (g : Draws α) (h : α → Draws β) : Draws β := fun fuel n =>
  match g fuel n with
  | some (a, n) => h a fuel n
  | none => none

instance : Monad Draws where
  pure := Draws.pure
  bind := Draws.bind

variable (choices : ℕ → γ)

def draw (f : γ → α) : Draws α := fun _ n => some (f (choices n), n + 1)

/-- `do { x = draw; } while (!p(x));` -/
def drawUntil (f : γ → α) (p : α → Bool) : Draws α
  | 0, _ => none
  | fuel + 1, n => if p (f (choices n)) then some (f (choices n), n + 1)
    else drawUntil f p fuel (n + 1)

/-- `for (i = k; i < k + n; i++)` with the state threaded through. -/
def forFrom (step : ℕ → σ → Draws σ) : ℕ → ℕ → σ → Draws σ
  | _, 0, s => Draws.pure s
  | k, n + 1, s => Draws.bind (step k s) fun s => forFrom step (k + 1) n s

/-- With enough fuel the program ends in one value, and the value has the property. -/
def Settles (g : Draws α) (n : ℕ) (Q : α → Prop) : Prop :=
  ∃ a m, Q a ∧ ∃ f₀, ∀ f ≥ f₀, g f n = some (a, m)

namespace Settles

variable {g : Draws α} {n : ℕ} {Q R : α → Prop}

theorem mono (h : Settles g n Q) (hQR : ∀ a, Q a → R a) : Settles g n R := by
  obtain ⟨a, m, ha, hrun⟩ := h
  exact ⟨a, m, hQR a ha, hrun⟩

theorem pure {a : α} (h : Q a) : Settles (Draws.pure a) n Q := ⟨a, n, h, 0, fun _ _ => rfl⟩

theorem bind {h : α → Draws β} {S : β → Prop} (hg : Settles g n Q)
    (hh : ∀ a, Q a → ∀ m, Settles (h a) m S) : Settles (Draws.bind g h) n S := by
  obtain ⟨a, m, ha, f₁, hrun₁⟩ := hg
  obtain ⟨b, k, hb, f₂, hrun₂⟩ := hh a ha m
  refine ⟨b, k, hb, max f₁ f₂, fun f hf => ?_⟩
  rw [Draws.bind, hrun₁ f (by omega)]
  exact hrun₂ f (by omega)

/-- The value is the only one. -/
theorem unique (hQ : Settles g n Q) (hR : Settles g n R) : ∃ a, Q a ∧ R a := by
  obtain ⟨a, m, ha, f₁, hrun₁⟩ := hQ
  obtain ⟨b, k, hb, f₂, hrun₂⟩ := hR
  have h : some (a, m) = some (b, k) := by
    rw [← hrun₁ (max f₁ f₂) (by omega), hrun₂ (max f₁ f₂) (by omega)]
  cases h
  exact ⟨a, ha, hb⟩

theorem iff_of (P : Prop) (h : Settles g n fun a => Q a ↔ P) : Settles g n Q ↔ P := by
  constructor
  · intro hQ
    obtain ⟨a, ha, haP⟩ := hQ.unique h
    exact haP.1 ha
  · exact fun hP => h.mono fun a haP => haP.2 hP

theorem draw_bind {f : γ → α} {h : α → Draws β} {S : β → Prop} :
    Settles (Draws.bind (draw choices f) h) n S ↔ Settles (h (f (choices n))) (n + 1) S := Iff.rfl

theorem draw {f : γ → α} (hQ : ∀ k, Q (f (choices k))) : Settles (draw choices f) n Q :=
  ⟨f (choices n), n + 1, hQ n, 0, fun _ _ => rfl⟩

/-- The loop ends when what it waits for comes up again and again. -/
theorem drawUntil {f : γ → α} {p : α → Bool} (hQ : ∀ k, p (f (choices k)) = true → Q (f (choices k)))
    (hrecurs : ∃ k ≥ n, p (f (choices k)) = true) : Settles (drawUntil choices f p) n Q := by
  obtain ⟨k, hk, hp⟩ := hrecurs
  obtain ⟨d, rfl⟩ := Nat.exists_eq_add_of_le hk
  clear hk
  induction d generalizing n with
  | zero =>
    refine ⟨f (choices n), n + 1, hQ n hp, 1, fun fuel hfuel => ?_⟩
    obtain ⟨fuel, rfl⟩ : ∃ fuel', fuel = fuel' + 1 := ⟨fuel - 1, by omega⟩
    exact if_pos hp
  | succ d ih =>
    by_cases hn : p (f (choices n)) = true
    · refine ⟨f (choices n), n + 1, hQ n hn, 1, fun fuel hfuel => ?_⟩
      obtain ⟨fuel, rfl⟩ : ∃ fuel', fuel = fuel' + 1 := ⟨fuel - 1, by omega⟩
      exact if_pos hn
    · obtain ⟨a, m, ha, f₀, hrun⟩ := @ih (n + 1) (by rwa [show n + 1 + d = n + (d + 1) by omega])
      refine ⟨a, m, ha, f₀ + 1, fun fuel hfuel => ?_⟩
      obtain ⟨fuel, rfl⟩ : ∃ fuel', fuel = fuel' + 1 := ⟨fuel - 1, by omega⟩
      rw [Draws.drawUntil, if_neg hn]
      exact hrun fuel (by omega)

/-- What each turn preserves, the loop preserves. -/
theorem forFrom (step : ℕ → σ → Draws σ) (P : ℕ → σ → Prop) (count : ℕ) {k : ℕ} {s : σ}
    (hstart : P k s)
    (hstep : ∀ i, k ≤ i → i < k + count → ∀ s, P i s → ∀ m, Settles (step i s) m (P (i + 1))) :
    Settles (forFrom step k count s) n (P (k + count)) := by
  induction count generalizing k s n with
  | zero => exact Settles.pure hstart
  | succ count ih =>
    refine Settles.bind (hstep k (Nat.le_refl k) (by omega) s hstart n) fun s hs m => ?_
    have hrest := @ih m (k + 1) s hs fun i hk hi => hstep i (by omega) (by omega)
    rwa [Nat.add_right_comm, Nat.add_assoc] at hrest

end Settles

end Draws
