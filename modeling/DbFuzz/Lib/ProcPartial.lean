import DbFuzz.Lib.Proc

/-! Partial correctness of procedures: what holds if one returns, and what if it throws. One
that aborts or runs out of fuel meets every postcondition. -/

namespace Proc

variable {σ ε α β ι : Type}

/-- From `P`, a return leaves `Q` and an exception `R`. -/
def Partial (P : σ → Prop) (p : Proc σ ε α) (Q : α → σ → Prop) (R : σ → Prop) : Prop :=
  ∀ s, P s → (∀ a s', p s = (.ok a, s') → Q a s') ∧
    ∀ e s', p s = (.error (.exception e), s') → R s'

namespace Partial

variable {P P' R R' : σ → Prop} {Q Q' : α → σ → Prop} {p : Proc σ ε α}

theorem ok (h : Partial P p Q R) {s s' : σ} {a : α} (hs : P s) (hp : p s = (.ok a, s')) : Q a s' :=
  (h s hs).1 a s' hp

theorem conseq (h : Partial P p Q R) (hP : ∀ s, P' s → P s) (hQ : ∀ a s, Q a s → Q' a s)
    (hR : ∀ s, R s → R' s) : Partial P' p Q' R' :=
  fun s hs => ⟨fun a s' hp => hQ a s' ((h s (hP s hs)).1 a s' hp),
    fun e s' hp => hR s' ((h s (hP s hs)).2 e s' hp)⟩

theorem pre (h : Partial P p Q R) (hP : ∀ s, P' s → P s) : Partial P' p Q R :=
  h.conseq hP (fun _ _ h => h) fun _ h => h

theorem post (h : Partial P p Q R) (hQ : ∀ a s, Q a s → Q' a s) : Partial P p Q' R :=
  h.conseq (fun _ h => h) hQ fun _ h => h

/-- A fact about the start that the rest of the precondition may be used with. -/
theorem of_start (h : ∀ s, P s → Partial (fun t => t = s) p Q R) : Partial P p Q R :=
  fun s hs => h s hs s rfl

theorem pure {a : α} (h : ∀ s, P s → Q a s) : Partial P (ε := ε) (Pure.pure a) Q R := by
  intro s hs
  refine ⟨fun b s' hp => ?_, fun e s' hp => ?_⟩
  · cases hp
    exact h s hs
  · cases hp

theorem bind {M : α → σ → Prop} {f : α → Proc σ ε β} {Q : β → σ → Prop} (hp : Partial P p M R)
    (hf : ∀ a, Partial (M a) (f a) Q R) : Partial P (p >>= f) Q R := by
  intro s hs
  change (∀ a s', Proc.bind p f s = (.ok a, s') → _) ∧ ∀ e s', Proc.bind p f s = _ → _
  rw [Proc.bind]
  rcases hrun : p s with ⟨r, t⟩
  cases r with
  | ok a => exact hf a t ((hp s hs).1 a t hrun)
  | error e =>
    refine ⟨fun a s' h => ?_, fun e' s' h => ?_⟩
    · cases h
    · cases h
      exact (hp s hs).2 e' t hrun

theorem get : Partial P (Proc.get : Proc σ ε σ) (fun a s => a = s ∧ P s) R := by
  intro s hs
  refine ⟨fun a s' hp => ?_, fun e s' hp => ?_⟩
  · cases hp
    exact ⟨rfl, hs⟩
  · cases hp

theorem modify {f : σ → σ} {Q : Unit → σ → Prop} (h : ∀ s, P s → Q () (f s)) :
    Partial P (Proc.modify f : Proc σ ε Unit) Q R := by
  intro s hs
  refine ⟨fun a s' hp => ?_, fun e s' hp => ?_⟩
  · cases hp
    exact h s hs
  · cases hp

theorem throw {e : ε} (h : ∀ s, P s → R s) : Partial P (Proc.throw e : Proc σ ε α) Q R := by
  intro s hs
  refine ⟨fun a s' hp => ?_, fun e s' hp => ?_⟩
  · cases hp
  · cases hp
    exact h s hs

theorem throwIf {o : Option ε} {Q : Unit → σ → Prop} (h : ∀ s, P s → o = none → Q () s)
    (hR : ∀ s, P s → o ≠ none → R s) : Partial P (Proc.throwIf o : Proc σ ε Unit) Q R := by
  cases o with
  | none => exact pure fun s hs => h s hs rfl
  | some e => exact throw fun s hs => hR s hs (Option.some_ne_none e)

theorem assert {o : Option α} (h : ∀ s, P s → ∀ a, o = some a → Q a s) :
    Partial P (Proc.assert o : Proc σ ε α) Q R := by
  cases o with
  | some a => exact pure fun s hs => h s hs a rfl
  | none =>
    intro s _
    refine ⟨fun a s' hp => ?_, fun e s' hp => ?_⟩
    · cases hp
    · cases hp

theorem stuck : Partial P (Proc.stuck : Proc σ ε α) Q R := by
  intro s _
  refine ⟨fun a s' hp => ?_, fun e s' hp => ?_⟩
  · cases hp
  · cases hp

theorem tryCatch {M : σ → Prop} {handler : ε → Proc σ ε α} (hp : Partial P p Q M)
    (hh : ∀ e, Partial M (handler e) Q R) : Partial P (Proc.tryCatch p handler) Q R := by
  intro s hs
  rw [Proc.tryCatch]
  rcases hrun : p s with ⟨r, t⟩
  rcases r with (e | - | -) | a
  · exact hh e t ((hp s hs).2 e t hrun)
  · refine ⟨fun a s' h => ?_, fun e' s' h => ?_⟩
    · cases h
    · cases h
  · refine ⟨fun a s' h => ?_, fun e' s' h => ?_⟩
    · cases h
    · cases h
  · refine ⟨fun b s' h => ?_, fun e' s' h => ?_⟩
    · cases h
      exact (hp s hs).1 a t hrun
    · cases h

/-- A loop over a list, with an invariant about the entries that are done. -/
theorem forEach {f : ι → Proc σ ε Unit} (I : List ι → σ → Prop) {xs : List ι}
    (h : ∀ done x rest, xs = done ++ x :: rest →
      Partial (I done) (f x) (fun _ => I (done ++ [x])) R) :
    Partial (I []) (Proc.forEach xs f) (fun _ => I xs) R := by
  have hloop : ∀ rest done, xs = done ++ rest →
      Partial (I done) (Proc.forEach rest f) (fun _ => I xs) R := by
    intro rest
    induction rest with
    | nil =>
      intro done hxs
      rw [List.append_nil] at hxs
      exact pure fun s hs => hxs ▸ hs
    | cons x rest ih =>
      intro done hxs
      exact (h done x rest hxs).bind fun _ => ih (done ++ [x]) (by simpa using hxs)
  exact hloop xs [] rfl

/-- A branch. -/
theorem ite {c : Prop} [Decidable c] {q : Proc σ ε α}
    (hp : c → Partial P p Q R) (hq : ¬ c → Partial P q Q R) :
    Partial P (if c then p else q) Q R := by
  by_cases hc : c
  · rw [if_pos hc]
    exact hp hc
  · rw [if_neg hc]
    exact hq hc

end Partial

end Proc
