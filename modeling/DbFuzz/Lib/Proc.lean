import Mathlib.Data.Nat.Notation

/-! Procedures on a state that can throw, abort or run out of fuel, and the rules of their
pre- and postconditions. What a procedure did before it stopped stays done. -/

/-- The ways to stop without a value. Only an exception can be caught. -/
inductive Stop (ε : Type)
  | exception (e : ε)
  | abort
  | outOfFuel
  deriving DecidableEq

def Proc (σ ε α : Type) := σ → Except (Stop ε) α × σ

namespace Proc

variable {σ ε α β ι : Type}

protected def pure (a : α) : Proc σ ε α := fun s => (.ok a, s)

protected def bind (p : Proc σ ε α) (f : α → Proc σ ε β) : Proc σ ε β := fun s =>
  match p s with
  | (.ok a, s) => f a s
  | (.error e, s) => (.error e, s)

instance : Monad (Proc σ ε) where
  pure := Proc.pure
  bind := Proc.bind

def get : Proc σ ε σ := fun s => (.ok s, s)

def modify (f : σ → σ) : Proc σ ε Unit := fun s => (.ok (), f s)

def throw (e : ε) : Proc σ ε α := fun s => (.error (.exception e), s)

def throwIf (e : Option ε) : Proc σ ε Unit := fun s =>
  match e with
  | some e => (.error (.exception e), s)
  | none => (.ok (), s)

/-- A value that has to be there. -/
def assert (a : Option α) : Proc σ ε α := fun s =>
  match a with
  | some a => (.ok a, s)
  | none => (.error .abort, s)

def stuck : Proc σ ε α := fun s => (.error .outOfFuel, s)

def tryCatch (p : Proc σ ε α) (handler : ε → Proc σ ε α) : Proc σ ε α := fun s =>
  match p s with
  | (.error (.exception e), s) => handler e s
  | r => r

def forEach : List ι → (ι → Proc σ ε Unit) → Proc σ ε Unit
  | [], _ => pure ()
  | x :: xs, f => f x >>= fun _ => forEach xs f

theorem bind_ok {p : Proc σ ε α} {f : α → Proc σ ε β} {s u : σ} {b : β}
    (h : (p >>= f) s = (.ok b, u)) : ∃ a t, p s = (.ok a, t) ∧ f a t = (.ok b, u) := by
  change Proc.bind p f s = _ at h
  rw [Proc.bind] at h
  rcases hp : p s with ⟨r, t⟩
  rw [hp] at h
  cases r with
  | ok a => exact ⟨a, t, rfl, h⟩
  | error e => cases h

theorem forEach_append (xs ys : List ι) (f : ι → Proc σ ε Unit) (s : σ) :
    forEach (xs ++ ys) f s = (forEach xs f >>= fun _ => forEach ys f) s := by
  induction xs generalizing s with
  | nil => rfl
  | cons x xs ih =>
    change Proc.bind (f x) (fun _ => forEach (xs ++ ys) f) s =
      Proc.bind (Proc.bind (f x) fun _ => forEach xs f) (fun _ => forEach ys f) s
    rcases hx : f x s with ⟨r, t⟩
    cases r with
    | ok a =>
      rw [Proc.bind, Proc.bind, Proc.bind, hx]
      exact ih t
    | error e => rw [Proc.bind, Proc.bind, Proc.bind, hx]

/-- A loop that returns has returned from each of its turns. -/
theorem forEach_ok {xs ys : List ι} {x : ι} {f : ι → Proc σ ε Unit} {s u : σ}
    (h : forEach (xs ++ x :: ys) f s = (.ok (), u)) :
    ∃ t t', forEach xs f s = (.ok (), t) ∧ f x t = (.ok (), t') ∧
      forEach (xs ++ [x]) f s = (.ok (), t') := by
  rw [forEach_append] at h
  obtain ⟨_, t, hxs, hrest⟩ := bind_ok h
  obtain ⟨_, t', hx, -⟩ := bind_ok hrest
  refine ⟨t, t', hxs, hx, ?_⟩
  rw [forEach_append]
  change Proc.bind (forEach xs f) (fun _ => Proc.bind (f x) fun _ => forEach [] f) s = _
  rw [Proc.bind, hxs]
  change Proc.bind (f x) (fun _ => forEach [] f) t = _
  rw [Proc.bind, hx]
  rfl

/-- From `P`, the procedure returns with `Q` or throws with `R`. -/
def Holds (P : σ → Prop) (p : Proc σ ε α) (Q : α → σ → Prop) (R : σ → Prop) : Prop :=
  ∀ s, P s → (∃ a s', p s = (.ok a, s') ∧ Q a s') ∨ ∃ e s', p s = (.error (.exception e), s') ∧ R s'

namespace Holds

variable {P P' R R' : σ → Prop} {Q Q' : α → σ → Prop} {p : Proc σ ε α}

theorem conseq (h : Holds P p Q R) (hP : ∀ s, P' s → P s) (hQ : ∀ a s, Q a s → Q' a s)
    (hR : ∀ s, R s → R' s) : Holds P' p Q' R' := by
  intro s hs
  rcases h s (hP s hs) with ⟨a, s', hp, hq⟩ | ⟨e, s', hp, hr⟩
  · exact Or.inl ⟨a, s', hp, hQ a s' hq⟩
  · exact Or.inr ⟨e, s', hp, hR s' hr⟩

theorem pre (h : Holds P p Q R) (hP : ∀ s, P' s → P s) : Holds P' p Q R :=
  h.conseq hP (fun _ _ h => h) fun _ h => h

theorem post (h : Holds P p Q R) (hQ : ∀ a s, Q a s → Q' a s) : Holds P p Q' R :=
  h.conseq (fun _ h => h) hQ fun _ h => h

/-- A fact about the start that the rest of the precondition may be used with. -/
theorem of_start (h : ∀ s, P s → Holds (fun t => t = s) p Q R) : Holds P p Q R :=
  fun s hs => h s hs s rfl

theorem of_exists {P : ι → σ → Prop} (h : ∀ i, Holds (P i) p Q R) :
    Holds (fun s => ∃ i, P i s) p Q R := fun s ⟨i, hs⟩ => h i s hs

theorem of_and {c : Prop} (h : c → Holds P p Q R) : Holds (fun s => c ∧ P s) p Q R :=
  fun s hs => h hs.1 s hs.2

theorem pure {a : α} (h : ∀ s, P s → Q a s) : Holds P (ε := ε) (Pure.pure a) Q R :=
  fun s hs => Or.inl ⟨a, s, rfl, h s hs⟩

theorem bind {M : α → σ → Prop} {f : α → Proc σ ε β} {Q : β → σ → Prop} (hp : Holds P p M R)
    (hf : ∀ a, Holds (M a) (f a) Q R) : Holds P (p >>= f) Q R := by
  intro s hs
  rcases hp s hs with ⟨a, s', hp, hm⟩ | ⟨e, s', hp, hr⟩
  · rcases hf a s' hm with ⟨b, t, hb, hq⟩ | ⟨e, t, he, hr⟩
    · exact Or.inl ⟨b, t, by rw [← hb]; change Proc.bind p f s = _; rw [Proc.bind, hp], hq⟩
    · exact Or.inr ⟨e, t, by rw [← he]; change Proc.bind p f s = _; rw [Proc.bind, hp], hr⟩
  · exact Or.inr ⟨e, s', by change Proc.bind p f s = _; rw [Proc.bind, hp], hr⟩

theorem get : Holds P (Proc.get : Proc σ ε σ) (fun a s => a = s ∧ P s) R :=
  fun s hs => Or.inl ⟨s, s, rfl, rfl, hs⟩

theorem modify {f : σ → σ} {Q : Unit → σ → Prop} (h : ∀ s, P s → Q () (f s)) :
    Holds P (Proc.modify f : Proc σ ε Unit) Q R :=
  fun s hs => Or.inl ⟨(), f s, rfl, h s hs⟩

theorem throw {e : ε} (h : ∀ s, P s → R s) : Holds P (Proc.throw e : Proc σ ε α) Q R :=
  fun s hs => Or.inr ⟨e, s, rfl, h s hs⟩

theorem throwIf {o : Option ε} {Q : Unit → σ → Prop} (h : ∀ s, P s → o = none → Q () s)
    (hR : ∀ s, P s → o ≠ none → R s) : Holds P (Proc.throwIf o : Proc σ ε Unit) Q R := by
  intro s hs
  cases o with
  | none => exact Or.inl ⟨(), s, rfl, h s hs rfl⟩
  | some e => exact Or.inr ⟨e, s, rfl, hR s hs (by simp)⟩

theorem assert {o : Option α} (h : ∀ s, P s → ∃ a, o = some a ∧ Q a s) :
    Holds P (Proc.assert o : Proc σ ε α) Q R := by
  intro s hs
  obtain ⟨a, rfl, hq⟩ := h s hs
  exact Or.inl ⟨a, s, rfl, hq⟩

theorem tryCatch {M : σ → Prop} {handler : ε → Proc σ ε α} (hp : Holds P p Q M)
    (hh : ∀ e, Holds M (handler e) Q R) : Holds P (Proc.tryCatch p handler) Q R := by
  intro s hs
  rcases hp s hs with ⟨a, s', hp, hq⟩ | ⟨e, s', hp, hm⟩
  · exact Or.inl ⟨a, s', by rw [Proc.tryCatch, hp], hq⟩
  · rcases hh e s' hm with ⟨b, t, hb, hq⟩ | ⟨e', t, he, hr⟩
    · exact Or.inl ⟨b, t, by rw [Proc.tryCatch, hp]; exact hb, hq⟩
    · exact Or.inr ⟨e', t, by rw [Proc.tryCatch, hp]; exact he, hr⟩

/-- A loop over a list, with an invariant about the entries that are done. -/
theorem forEach {f : ι → Proc σ ε Unit} (I : List ι → σ → Prop) {xs : List ι}
    (h : ∀ done x rest, xs = done ++ x :: rest →
      Holds (I done) (f x) (fun _ => I (done ++ [x])) R) :
    Holds (I []) (Proc.forEach xs f) (fun _ => I xs) R := by
  have hloop : ∀ rest done, xs = done ++ rest →
      Holds (I done) (Proc.forEach rest f) (fun _ => I xs) R := by
    intro rest
    induction rest with
    | nil =>
      intro done hxs
      rw [List.append_nil] at hxs
      exact Holds.pure fun s hs => hxs ▸ hs
    | cons x rest ih =>
      intro done hxs
      exact (h done x rest hxs).bind fun _ => ih (done ++ [x]) (by simpa using hxs)
  exact hloop xs [] rfl

end Holds

end Proc
