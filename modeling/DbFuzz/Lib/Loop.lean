import Mathlib.Data.Nat.Notation

/-! Counting loops that can fail, and their invariant rule. -/

namespace Loop

variable {ε σ α β : Type}

theorem bind_eq_ok_iff {x : Except ε α} {f : α → Except ε β} {b : β} :
    x >>= f = .ok b ↔ ∃ a, x = .ok a ∧ f a = .ok b := by
  cases x with
  | error e => simp [bind, Except.bind]
  | ok a => simp [bind, Except.bind]

theorem bind_ne_error {x : Except ε α} {f : α → Except ε β} {e : ε} (hx : x ≠ .error e)
    (hf : ∀ a, x = .ok a → f a ≠ .error e) : x >>= f ≠ .error e := by
  cases x with
  | error e' => simpa [bind, Except.bind] using hx
  | ok a => exact hf a rfl

theorem bind_congr_ok {x : Except ε α} {f g : α → Except ε β} (h : ∀ a, x = .ok a → f a = g a) :
    x >>= f = x >>= g := by
  cases x with
  | error e => rfl
  | ok a => exact h a rfl

/-- `for (i = 0; i < n; i++)` with the state threaded through. -/
def forRange : ℕ → (ℕ → σ → Except ε σ) → σ → Except ε σ
  | 0, _, s => .ok s
  | n + 1, f, s => forRange n f s >>= f n

/-- What a round preserves, the loop preserves. -/
theorem forRange_inv {n : ℕ} {f : ℕ → σ → Except ε σ} (P : ℕ → σ → Prop) {s s' : σ}
    (h0 : P 0 s) (hstep : ∀ i < n, ∀ t t', P i t → f i t = .ok t' → P (i + 1) t')
    (h : forRange n f s = .ok s') : P n s' := by
  induction n generalizing s' with
  | zero =>
    simp only [forRange, Except.ok.injEq] at h
    exact h ▸ h0
  | succ n ih =>
    obtain ⟨t, ht, hf⟩ := bind_eq_ok_iff.1 h
    exact hstep n (by omega) t s' (ih (fun i hi => hstep i (by omega)) ht) hf

/-- A loop whose rounds succeed succeeds. -/
theorem forRange_ok {n : ℕ} {f : ℕ → σ → Except ε σ} (P : ℕ → σ → Prop) {s : σ} (h0 : P 0 s)
    (hstep : ∀ i < n, ∀ t, P i t → ∃ t', f i t = .ok t' ∧ P (i + 1) t') :
    ∃ s', forRange n f s = .ok s' ∧ P n s' := by
  induction n with
  | zero => exact ⟨s, rfl, h0⟩
  | succ n ih =>
    obtain ⟨t, ht, hP⟩ := ih fun i hi => hstep i (by omega)
    obtain ⟨s', hs', hP'⟩ := hstep n (by omega) t hP
    exact ⟨s', bind_eq_ok_iff.2 ⟨t, ht, hs'⟩, hP'⟩

theorem forRange_succeeds {n : ℕ} {f : ℕ → σ → Except ε σ}
    (hstep : ∀ i < n, ∀ t, ∃ t', f i t = .ok t') (s : σ) : ∃ s', forRange n f s = .ok s' := by
  obtain ⟨s', hs', -⟩ := forRange_ok (fun _ _ => True) trivial fun i hi t _ =>
    (hstep i hi t).imp fun _ ht => ⟨ht, trivial⟩
  exact ⟨s', hs'⟩

/-- A loop only sees the body below its bound. -/
theorem forRange_congr {n : ℕ} {f g : ℕ → σ → Except ε σ} (h : ∀ i < n, ∀ t, f i t = g i t)
    (s : σ) : forRange n f s = forRange n g s := by
  induction n with
  | zero => rfl
  | succ n ih =>
    simp only [forRange]
    rw [ih fun i hi => h i (by omega)]
    congr 1
    funext t
    exact h n (by omega) t

/-- An error no round makes, the loop does not make. -/
theorem forRange_ne_error {n : ℕ} {f : ℕ → σ → Except ε σ} {e : ε}
    (hstep : ∀ i < n, ∀ t, f i t ≠ .error e) (s : σ) : forRange n f s ≠ .error e := by
  induction n with
  | zero => simp [forRange]
  | succ n ih =>
    have hn := ih fun i hi => hstep i (by omega)
    simp only [forRange]
    cases hx : forRange n f s with
    | error e' => rw [hx] at hn; exact hn
    | ok t => exact hstep n (by omega) t

/-- `for (auto& a : as)` with the state threaded through. -/
def forEach : List α → (α → σ → Except ε σ) → σ → Except ε σ
  | [], _, s => .ok s
  | a :: as, f, s => f a s >>= forEach as f

theorem forEach_inv {as : List α} {f : α → σ → Except ε σ} (P : σ → Prop) {s s' : σ} (h0 : P s)
    (hstep : ∀ a ∈ as, ∀ t t', P t → f a t = .ok t' → P t') (h : forEach as f s = .ok s') :
    P s' := by
  induction as generalizing s with
  | nil =>
    simp only [forEach, Except.ok.injEq] at h
    exact h ▸ h0
  | cons a as ih =>
    obtain ⟨t, ht, h⟩ := bind_eq_ok_iff.1 h
    exact ih (hstep a List.mem_cons_self s t h0 ht)
      (fun b hb => hstep b (List.mem_cons_of_mem a hb)) h

theorem forEach_succeeds {as : List α} {f : α → σ → Except ε σ}
    (hstep : ∀ a ∈ as, ∀ t, ∃ t', f a t = .ok t') (s : σ) : ∃ s', forEach as f s = .ok s' := by
  induction as generalizing s with
  | nil => exact ⟨s, rfl⟩
  | cons a as ih =>
    obtain ⟨t, ht⟩ := hstep a List.mem_cons_self s
    obtain ⟨s', hs'⟩ := ih (fun b hb => hstep b (List.mem_cons_of_mem a hb)) t
    exact ⟨s', bind_eq_ok_iff.2 ⟨t, ht, hs'⟩⟩

theorem forEach_ne_error {as : List α} {f : α → σ → Except ε σ} {e : ε}
    (hstep : ∀ a ∈ as, ∀ t, f a t ≠ .error e) (s : σ) : forEach as f s ≠ .error e := by
  induction as generalizing s with
  | nil => simp [forEach]
  | cons a as ih =>
    exact bind_ne_error (hstep a List.mem_cons_self s) fun t _ =>
      ih (fun b hb => hstep b (List.mem_cons_of_mem a hb)) t

theorem forEach_round {as : List α} {f : α → σ → Except ε σ} {s s' : σ}
    (h : forEach as f s = .ok s') {a : α} (ha : a ∈ as) : ∃ t t', f a t = .ok t' := by
  induction as generalizing s with
  | nil => cases ha
  | cons b as ih =>
    obtain ⟨t, ht, h⟩ := bind_eq_ok_iff.1 h
    rcases List.mem_cons.1 ha with rfl | ha
    · exact ⟨s, t, ht⟩
    · exact ih h ha

/-- Rounds that know one error leave the loop with that error or none. -/
theorem forEach_ok_or_error {as : List α} {f : α → σ → Except ε σ} {e : ε}
    (hstep : ∀ a ∈ as, ∀ t, (∃ t', f a t = .ok t') ∨ f a t = .error e) (s : σ) :
    (∃ s', forEach as f s = .ok s') ∨ forEach as f s = .error e := by
  induction as generalizing s with
  | nil => exact Or.inl ⟨s, rfl⟩
  | cons a as ih =>
    rw [forEach]
    rcases hstep a List.mem_cons_self s with ⟨t, ht⟩ | herr
    · rw [ht]
      exact ih (fun b hb => hstep b (List.mem_cons_of_mem a hb)) t
    · exact Or.inr (by rw [herr]; rfl)

theorem forRange_ok_or_error {n : ℕ} {f : ℕ → σ → Except ε σ} {e : ε}
    (hstep : ∀ i < n, ∀ t, (∃ t', f i t = .ok t') ∨ f i t = .error e) (s : σ) :
    (∃ s', forRange n f s = .ok s') ∨ forRange n f s = .error e := by
  induction n with
  | zero => exact Or.inl ⟨s, rfl⟩
  | succ n ih =>
    rw [forRange]
    rcases ih fun i hi => hstep i (by omega) with ⟨t, ht⟩ | herr
    · rw [ht]
      exact hstep n (by omega) t
    · exact Or.inr (by rw [herr]; rfl)

section Map

variable {τ : Type} {m : σ → τ}

theorem bind_map {x : Except ε σ} {y : Except ε τ} {f : σ → Except ε σ} {g : τ → Except ε τ}
    (hx : x.map m = y) (hf : ∀ s, (f s).map m = g (m s)) : (x >>= f).map m = y >>= g := by
  subst hx
  cases x with
  | error e => rfl
  | ok s => exact hf s

/-- A view of the state that every round respects, the loop respects. -/
theorem forEach_map {as : List α} {f : α → σ → Except ε σ} {g : α → τ → Except ε τ}
    (hf : ∀ a ∈ as, ∀ s, (f a s).map m = g a (m s)) (s : σ) :
    (forEach as f s).map m = forEach as g (m s) := by
  induction as generalizing s with
  | nil => rfl
  | cons a as ih =>
    exact bind_map (hf a List.mem_cons_self s)
      fun t => ih (fun b hb => hf b (List.mem_cons_of_mem a hb)) t

theorem forRange_map {n : ℕ} {f : ℕ → σ → Except ε σ} {g : ℕ → τ → Except ε τ}
    (hf : ∀ i < n, ∀ s, (f i s).map m = g i (m s)) (s : σ) :
    (forRange n f s).map m = forRange n g (m s) := by
  induction n with
  | zero => rfl
  | succ n ih => exact bind_map (ih fun i hi => hf i (by omega)) fun t => hf n (by omega) t

end Map

theorem forEach_map_list (m : β → α) (bs : List β) (f : α → σ → Except ε σ) (s : σ) :
    forEach (bs.map m) f s = forEach bs (fun b => f (m b)) s := by
  induction bs generalizing s with
  | nil => rfl
  | cons b bs ih =>
    simp only [List.map_cons, forEach]
    congr 1
    funext t
    exact ih t

theorem mem_mapM_iff {f : α → Except ε β} {as : List α} {bs : List β} (h : as.mapM f = .ok bs)
    (b : β) : b ∈ bs ↔ ∃ a ∈ as, f a = .ok b := by
  induction as generalizing bs with
  | nil =>
    simp only [List.mapM_nil, pure, Except.pure, Except.ok.injEq] at h
    simp [← h]
  | cons a as ih =>
    rw [List.mapM_cons] at h
    obtain ⟨c, hc, h⟩ := bind_eq_ok_iff.1 h
    obtain ⟨cs, hcs, h⟩ := bind_eq_ok_iff.1 h
    cases h
    simp [ih hcs, hc, eq_comm]

theorem mapM_ne_error {f : α → Except ε β} {as : List α} {e : ε} (hf : ∀ a ∈ as, f a ≠ .error e) :
    as.mapM f ≠ .error e := by
  induction as with
  | nil => simp [pure, Except.pure]
  | cons a as ih =>
    rw [List.mapM_cons]
    refine bind_ne_error (hf a List.mem_cons_self) fun b _ => bind_ne_error ?_ fun bs _ => ?_
    · exact ih fun c hc => hf c (List.mem_cons_of_mem a hc)
    · simp [pure, Except.pure]

theorem exists_of_mapM {f : α → Except ε β} {as : List α} {bs : List β} (h : as.mapM f = .ok bs)
    {a : α} (ha : a ∈ as) : ∃ b, f a = .ok b := by
  induction as generalizing bs with
  | nil => cases ha
  | cons c as ih =>
    rw [List.mapM_cons] at h
    obtain ⟨b, hb, h⟩ := bind_eq_ok_iff.1 h
    obtain ⟨cs, hcs, -⟩ := bind_eq_ok_iff.1 h
    rcases List.mem_cons.1 ha with rfl | ha
    · exact ⟨b, hb⟩
    · exact ih hcs ha

/-- Every round of a loop that succeeds succeeded at some state. -/
theorem forRange_round {n : ℕ} {f : ℕ → σ → Except ε σ} {s s' : σ} (h : forRange n f s = .ok s')
    {i : ℕ} (hi : i < n) : ∃ t t', f i t = .ok t' := by
  induction n generalizing s' with
  | zero => omega
  | succ n ih =>
    obtain ⟨t, ht, hf⟩ := bind_eq_ok_iff.1 h
    rcases Nat.lt_succ_iff_lt_or_eq.1 hi with hi | rfl
    · exact ih ht hi
    · exact ⟨t, s', hf⟩

/-! Loops that only add. -/

section Adds

variable {Fact : Type} {holds : σ → Fact → Prop} {s s' s'' : σ}

/-- The facts of `s'` are those of `s` and the new ones. -/
def Adds (holds : σ → Fact → Prop) (s s' : σ) (new : Fact → Prop) : Prop :=
  ∀ l, holds s' l ↔ holds s l ∨ new l

theorem Adds.refl (holds : σ → Fact → Prop) (s : σ) : Adds holds s s fun _ => False :=
  fun _ => by rw [or_false]

theorem Adds.trans {new new' : Fact → Prop} (h : Adds holds s s' new)
    (h' : Adds holds s' s'' new') : Adds holds s s'' fun l => new l ∨ new' l :=
  fun l => by rw [h' l, h l, or_assoc]

theorem Adds.congr {new new' : Fact → Prop} (h : Adds holds s s' new)
    (he : ∀ l, new l ↔ new' l) : Adds holds s s' new' :=
  fun l => by rw [h l, he l]

theorem forRange_adds {n : ℕ} {f : ℕ → σ → Except ε σ} {new : ℕ → Fact → Prop}
    (hf : ∀ i < n, ∀ t t', f i t = .ok t' → Adds holds t t' (new i))
    (h : forRange n f s = .ok s') : Adds holds s s' fun l => ∃ i < n, new i l := by
  have hinv := forRange_inv (fun k t => Adds holds s t fun l => ∃ i < k, new i l)
    ((Adds.refl holds s).congr fun l => ⟨False.elim, fun ⟨i, hi, _⟩ => absurd hi (by omega)⟩)
    (fun i hi t t' ht hstep => (ht.trans (hf i hi t t' hstep)).congr fun l => ?_) h
  · exact hinv
  · constructor
    · rintro (⟨j, hj, hl⟩ | hl)
      · exact ⟨j, by omega, hl⟩
      · exact ⟨i, by omega, hl⟩
    · rintro ⟨j, hj, hl⟩
      rcases Nat.lt_succ_iff_lt_or_eq.1 hj with hj | rfl
      · exact Or.inl ⟨j, hj, hl⟩
      · exact Or.inr hl

theorem forEach_adds {as : List α} {f : α → σ → Except ε σ} {new : α → Fact → Prop}
    (hf : ∀ a ∈ as, ∀ t t', f a t = .ok t' → Adds holds t t' (new a))
    (h : forEach as f s = .ok s') : Adds holds s s' fun l => ∃ a ∈ as, new a l := by
  induction as generalizing s with
  | nil =>
    cases h
    exact (Adds.refl holds _).congr fun l => by simp
  | cons a as ih =>
    obtain ⟨t, ht, h⟩ := bind_eq_ok_iff.1 h
    refine ((hf a List.mem_cons_self s t ht).trans
      (ih (fun b hb => hf b (List.mem_cons_of_mem a hb)) h)).congr fun l => ?_
    simp

end Adds

/-! Erasing in place. -/

/-- `for (i = 0; i < size; i++) if (drop(path[i])) { erase(begin + i); size--; i--; }`,
with `k` rounds left. -/
def eraseInPlace (drop : α → Except ε Bool) : ℕ → ℕ → List α → Except ε (List α)
  | 0, _, path => .ok path
  | k + 1, i, path =>
    match path[i]? with
    | none => .ok path
    | some a => do
      if ← drop a then eraseInPlace drop k i (path.eraseIdx i)
      else eraseInPlace drop k (i + 1) path

theorem mem_of_eraseInPlace {drop : α → Except ε Bool} {k i : ℕ} {path path' : List α}
    (h : eraseInPlace drop k i path = .ok path') {a : α} (ha : a ∈ path') : a ∈ path := by
  induction k generalizing i path with
  | zero =>
    cases h
    exact ha
  | succ k ih =>
    rw [eraseInPlace] at h
    split at h
    · cases h
      exact ha
    · obtain ⟨b, -, h⟩ := bind_eq_ok_iff.1 h
      cases b with
      | true => exact List.mem_of_mem_eraseIdx (ih h)
      | false => exact ih h

theorem eraseInPlace_ne_error {drop : α → Except ε Bool} {e : ε} (h : ∀ a, drop a ≠ .error e)
    (k i : ℕ) (path : List α) : eraseInPlace drop k i path ≠ .error e := by
  induction k generalizing i path with
  | zero => simp [eraseInPlace]
  | succ k ih =>
    rw [eraseInPlace]
    split
    · simp
    · refine bind_ne_error (h _) fun b _ => ?_
      cases b with
      | true => exact ih i _
      | false => exact ih (i + 1) path

theorem eraseInPlace_append {drop : α → Except ε Bool} {p : α → Bool} (before after : List α)
    (h : ∀ a ∈ after, drop a = .ok (p a)) :
    eraseInPlace drop after.length before.length (before ++ after) =
      .ok (before ++ after.filter (!p ·)) := by
  induction after generalizing before with
  | nil => simp [eraseInPlace]
  | cons a rest ih =>
    have hrest : ∀ b ∈ rest, drop b = .ok (p b) := fun b hb => h b (List.mem_cons_of_mem a hb)
    have hget : (before ++ a :: rest)[before.length]? = some a := by simp
    rw [List.length_cons, eraseInPlace, hget]
    dsimp only
    rw [h a List.mem_cons_self]
    cases hp : p a with
    | true =>
      have herase : (before ++ a :: rest).eraseIdx before.length = before ++ rest := by
        rw [List.eraseIdx_append_of_length_le (Nat.le_refl _)]
        simp
      simp only [bind, Except.bind, reduceIte, herase, ih before hrest, List.filter_cons, hp,
        Bool.not_true, Bool.false_eq_true]
    | false =>
      have happ := ih (before ++ [a]) hrest
      rw [List.append_assoc, List.singleton_append, List.length_append, List.length_singleton]
        at happ
      simp only [bind, Except.bind, Bool.false_eq_true, reduceIte, happ, List.filter_cons, hp,
        Bool.not_false]
      simp

/-- The loop keeps what is not dropped, in its order. -/
theorem eraseInPlace_eq {drop : α → Except ε Bool} {p : α → Bool} {path : List α}
    (h : ∀ a ∈ path, drop a = .ok (p a)) :
    eraseInPlace drop path.length 0 path = .ok (path.filter (!p ·)) :=
  eraseInPlace_append [] path h

end Loop
