import Mathlib.Data.List.Infix

/-! The parts of a text that a separator ends. -/

namespace Split

variable {α : Type} [DecidableEq α] {sep s u r rest : List α}

/-- The text before the first separator and the text after it. -/
def cut (sep : List α) : List α → Option (List α × List α)
  | [] => if sep = [] then some ([], []) else none
  | c :: cs =>
    if sep.isPrefixOf (c :: cs) then some ([], (c :: cs).drop sep.length)
    else (cut sep cs).map fun p => (c :: p.1, p.2)

def endedAux (sep : List α) : ℕ → List α → List (List α)
  | 0, _ => []
  | fuel + 1, s =>
    match cut sep s with
    | none => []
    | some (u, r) => u :: endedAux sep fuel r

/-- The parts that a separator ends, without it. What follows the last one is lost. -/
def ended (sep s : List α) : List (List α) := endedAux sep (s.length + 1) s

theorem cut_eq_some (h : cut sep s = some (u, r)) :
    s = u ++ sep ++ r ∧ ∀ v w, u = v ++ w → w ≠ [] → ¬ sep <+: w ++ sep ++ r := by
  induction s generalizing u r with
  | nil =>
    simp only [cut] at h
    split_ifs at h with hsep
    cases h
    refine ⟨by simp [hsep], fun v w hvw hw => ?_⟩
    exact absurd (List.append_eq_nil_iff.1 hvw.symm).2 hw
  | cons c cs ih =>
    simp only [cut] at h
    split_ifs at h with hp
    · cases h
      refine ⟨?_, fun v w hvw hw => absurd (List.append_eq_nil_iff.1 hvw.symm).2 hw⟩
      obtain ⟨t, ht⟩ := List.isPrefixOf_iff_prefix.1 hp
      rw [← ht]
      simp
    · obtain ⟨p, hcut, he⟩ := Option.map_eq_some_iff.1 h
      obtain ⟨u', r'⟩ := p
      cases he
      obtain ⟨hs, hfirst⟩ := ih hcut
      refine ⟨by simp [hs], fun v w hvw hw => ?_⟩
      cases v with
      | nil =>
        rw [List.nil_append] at hvw
        subst hvw
        intro hpre
        refine hp (List.isPrefixOf_iff_prefix.2 ?_)
        rw [hs]
        simpa using hpre
      | cons c' v' =>
        rw [List.cons_append] at hvw
        exact hfirst v' w (List.cons.inj hvw).2 hw

theorem cut_append (hfirst : ∀ v w, u = v ++ w → w ≠ [] → ¬ sep <+: w ++ sep ++ r) :
    cut sep (u ++ sep ++ r) = some (u, r) := by
  induction u with
  | nil =>
    cases hs : sep ++ r with
    | nil => simp_all [cut]
    | cons c cs =>
      have hp : sep.isPrefixOf (c :: cs) = true :=
        List.isPrefixOf_iff_prefix.2 ⟨r, hs⟩
      rw [List.nil_append, hs, cut, if_pos hp, ← hs, List.drop_left]
  | cons c u ih =>
    have hp : ¬ sep.isPrefixOf (c :: (u ++ sep ++ r)) = true := fun hp =>
      hfirst [] (c :: u) rfl (by simp) (by simpa using List.isPrefixOf_iff_prefix.1 hp)
    have hrest : cut sep (u ++ sep ++ r) = some (u, r) :=
      ih fun v w hvw hw => hfirst (c :: v) w (by rw [hvw, List.cons_append]) hw
    simp only [List.cons_append, cut, hp, Bool.false_eq_true, if_false]
    rw [hrest, Option.map_some]

/-- A separator whose first character does not come again in it cannot start in `u` and
end behind it. -/
theorem cut_append_of_notInfix {c : α} {t : List α} (hc : c ∉ t) (hu : ¬ (c :: t) <:+: u) :
    cut (c :: t) (u ++ (c :: t) ++ r) = some (u, r) := by
  refine cut_append fun v w hvw hw hpre => ?_
  obtain ⟨x, hx⟩ := hpre
  rcases le_or_gt (c :: t).length w.length with hle | hlt
  · refine hu ?_
    have hpw : (c :: t) <+: w :=
      List.prefix_of_prefix_length_le ⟨x, hx⟩ ⟨(c :: t) ++ r, by simp⟩ hle
    rw [hvw]
    exact hpw.isInfix.trans (List.suffix_append v w).isInfix
  · -- the first character of the separator itself would lie inside the earlier one
    have hwp : w <+: c :: t :=
      List.prefix_of_prefix_length_le ⟨(c :: t) ++ r, by simp⟩ ⟨x, hx⟩ hlt.le
    obtain ⟨y, hy⟩ := hwp
    cases w with
    | nil => exact hw rfl
    | cons d w =>
      rw [List.cons_append, List.cons.injEq] at hy
      obtain ⟨rfl, rfl⟩ := hy
      cases y with
      | nil => simp at hlt
      | cons e y =>
        have he : e = d := (by simpa using hx : e = d ∧ _).1
        exact hc (by simp [he])

/-! All parts. -/

theorem endedAux_eq (hsep : sep ≠ []) {n m : ℕ} (hn : s.length < n) (hm : s.length < m) :
    endedAux sep n s = endedAux sep m s := by
  induction n generalizing s m with
  | zero => omega
  | succ n ih =>
    cases m with
    | zero => omega
    | succ m =>
      simp only [endedAux]
      cases hcut : cut sep s with
      | none => rfl
      | some p =>
        have hlen : s.length = (p.1 ++ sep ++ p.2).length :=
          congrArg List.length (cut_eq_some hcut).1
        have hpos : 0 < sep.length := List.length_pos_iff.2 hsep
        simp only [List.length_append] at hlen
        exact congrArg (p.1 :: ·) (ih (by omega) (by omega))

theorem ended_of_none (h : cut sep s = none) : ended sep s = [] := by
  simp [ended, endedAux, h]

theorem ended_of_some (hsep : sep ≠ []) (h : cut sep s = some (u, r)) :
    ended sep s = u :: ended sep r := by
  have hlen : s.length = (u ++ sep ++ r).length := congrArg List.length (cut_eq_some h).1
  have hpos : 0 < sep.length := List.length_pos_iff.2 hsep
  simp only [List.length_append] at hlen
  have hrest : endedAux sep s.length r = ended sep r :=
    endedAux_eq hsep (by omega) (by omega)
  simp only [ended, endedAux, h] at hrest ⊢
  rw [hrest]

/-- The parts come back if no part holds the separator, which does not repeat its first
character. -/
theorem ended_flatMap {c : α} {t : List α} (hc : c ∉ t) {parts : List (List α)}
    (h : ∀ u ∈ parts, ¬ (c :: t) <:+: u) :
    ended (c :: t) (parts.flatMap (· ++ c :: t)) = parts := by
  induction parts with
  | nil => exact ended_of_none (by simp [cut])
  | cons u parts ih =>
    have hcut : cut (c :: t) (u ++ (c :: t) ++ parts.flatMap (· ++ c :: t)) = some (u, _) :=
      cut_append_of_notInfix hc (h u (by simp))
    rw [List.flatMap_cons, ended_of_some (by simp) hcut, ih fun v hv => h v (by simp [hv])]

/-! Lines: the parts that a single element ends, and what follows the last one. -/

variable {c : α}

def linesAux (c : α) (line : List α) : List α → List (List α)
  | [] => if line = [] then [] else [line]
  | a :: s => if a = c then line :: linesAux c [] s else linesAux c (line ++ [a]) s

def lines (c : α) (s : List α) : List (List α) := linesAux c [] s

theorem linesAux_append {l : List α} (hl : c ∉ l) (line s : List α) :
    linesAux c line (l ++ s) = linesAux c (line ++ l) s := by
  induction l generalizing line with
  | nil => simp
  | cons a l ih =>
    have ha : a ≠ c := fun h => hl (h ▸ List.mem_cons_self)
    have hl' : c ∉ l := fun h => hl (List.mem_cons_of_mem _ h)
    rw [List.cons_append, linesAux, if_neg ha, ih hl', List.append_assoc, List.singleton_append]

theorem lines_cons {l : List α} (hl : c ∉ l) (s : List α) :
    lines c (l ++ c :: s) = l :: lines c s := by
  rw [lines, linesAux_append hl, linesAux, if_pos rfl, List.nil_append, lines]

/-- Ended lines are read back one by one. -/
theorem lines_flatMap {ls : List (List α)} (h : ∀ l ∈ ls, c ∉ l) :
    lines c (ls.flatMap (· ++ [c])) = ls := by
  induction ls with
  | nil => rfl
  | cons l ls ih =>
    rw [List.flatMap_cons, List.append_assoc, List.singleton_append, lines_cons (h l (by simp)),
      ih fun l' hl' => h l' (by simp [hl'])]

end Split
