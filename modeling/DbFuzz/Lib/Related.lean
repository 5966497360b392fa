import DbFuzz.Lib.Loop

/-! Two runs of a fallible computation that end alike: with the same failure, or with
related values. -/

namespace Loop

variable {ε α β γ δ σ τ : Type}

inductive Related (R : α → β → Prop) : Except ε α → Except ε β → Prop
  | ok {a : α} {b : β} (h : R a b) : Related R (.ok a) (.ok b)
  | error (e : ε) : Related R (.error e) (.error e)

namespace Related

variable {R : α → β → Prop} {S : γ → δ → Prop} {x : Except ε α} {y : Except ε β}

theorem refl (x : Except ε α) : Related Eq x x := by
  cases x with
  | ok a => exact .ok (Eq.refl a)
  | error e => exact .error e

theorem bind {f : α → Except ε γ} {g : β → Except ε δ} (h : Related R x y)
    (hf : ∀ a b, R a b → Related S (f a) (g b)) : Related S (x >>= f) (y >>= g) := by
  cases h with
  | ok hab => exact hf _ _ hab
  | error e => exact .error e

/-- The same reading of related values is the same result. -/
theorem map_eq {f : α → γ} {g : β → γ} (h : Related R x y) (hf : ∀ a b, R a b → f a = g b) :
    x.map f = y.map g := by
  cases h with
  | ok hab => exact congrArg Except.ok (hf _ _ hab)
  | error e => rfl

/-- A relation that a round keeps, the loop keeps. -/
theorem forRange {R : σ → τ → Prop} {n : ℕ} {f : ℕ → σ → Except ε σ} {g : ℕ → τ → Except ε τ}
    {s : σ} {t : τ} (h : R s t) (hstep : ∀ i < n, ∀ s t, R s t → Related R (f i s) (g i t)) :
    Related R (Loop.forRange n f s) (Loop.forRange n g t) := by
  induction n with
  | zero => exact .ok h
  | succ n ih => exact bind (ih fun i hi => hstep i (by omega)) (hstep n (by omega))

end Related

end Loop
