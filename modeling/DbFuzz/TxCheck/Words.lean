import DbFuzz.Core.ExpectedErrors
import DbFuzz.TxCheck.Instrumentor
import Mathlib.Data.Finset.Dedup
import Mathlib.Data.Finset.Lattice.Lemmas
import Mathlib.Data.List.TakeWhile

/-! `extract_words_begin_with` (`instrumentor.cc`) as a loop over positions: it ends with
the words that begin with a text, and finds what the scan of the instrumentor finds. -/

namespace DbFuzz

namespace Words

/-- `str.find(begin_str, pos)` -/
def find (str beginStr : List Char) (pos : ℕ) : Option ℕ :=
  Postgres.findFrom beginStr pos (str.drop pos)

/-- `str[pos - 1]` -/
def prevChar (str : List Char) : ℕ → Option Char
  | 0 => none
  | pos + 1 => str[pos]?

/-- The loop that moves `interval_pos` over the rest of a word. -/
def intervalPos : ℕ → List Char → ℕ
  | pos, [] => pos
  | pos, c :: rest => if wordChar c then intervalPos (pos + 1) rest else pos

/-- The main loop; `pos` is what the last search found. -/
def extractLoop (str beginStr : List Char) :
    ℕ → Option ℕ → Finset String → Except Failure (Finset String)
  | 0, _, _ => .error .outOfFuel
  | _ + 1, none, words => .ok words
  | fuel + 1, some pos, words =>
    if wordStart (prevChar str pos) then
      let intervalPos := intervalPos (pos + 1) (str.drop (pos + 1))
      let words := insert (String.ofList ((str.drop pos).take (intervalPos - pos))) words
      if intervalPos = str.length then .ok words
      else extractLoop str beginStr fuel (find str beginStr (intervalPos + 1)) words
    else extractLoop str beginStr fuel (find str beginStr (pos + 1)) words

/-- `extract_words_begin_with` -/
def extract (str beginStr : String) : Except Failure (Finset String) :=
  extractLoop str.toList beginStr.toList (str.toList.length + 2)
    (find str.toList beginStr.toList 0) ∅

/-! The words. -/

/-- What a word may begin after. -/
def openers : List Char := ['(', ' ', '\n']

/-- What a word ends before. -/
def delimiters : List Char := [')', '.', ' ', '\n', ';']

/-- The text `w` at position `pos` is a word that begins with `beginStr`. -/
structure WordAt (str beginStr : List Char) (pos : ℕ) (w : List Char) : Prop where
  starts : beginStr <+: w
  begins : pos = 0 ∨ ∃ c ∈ openers, str[pos - 1]? = some c
  text : w <+: str.drop pos
  plain : ∀ c ∈ w, c ∉ delimiters
  ends : pos + w.length = str.length ∨ ∃ c ∈ delimiters, str[pos + w.length]? = some c

/-- A word that does not lie inside an earlier one. -/
def KeptWord (str beginStr : List Char) (pos : ℕ) (w : List Char) : Prop :=
  WordAt str beginStr pos w ∧
    ∀ pos' w', WordAt str beginStr pos' w' → pos' < pos → pos' + w'.length ≤ pos

variable {str b w w' : List Char} {pos pos' : ℕ}

theorem wordChar_iff {c : Char} : wordChar c = true ↔ c ∉ delimiters := by
  simp [wordChar, delimiters, and_assoc]

theorem wordStart_prevChar (h : pos ≤ str.length) : wordStart (prevChar str pos) = true ↔
    pos = 0 ∨ ∃ c ∈ openers, str[pos - 1]? = some c := by
  cases pos with
  | zero => simp [prevChar, wordStart]
  | succ pos =>
    have hget : str[pos]? = some str[pos] := List.getElem?_eq_getElem (by omega)
    rw [Nat.add_sub_cancel, prevChar, hget]
    simp [wordStart, openers, or_assoc]

namespace WordAt

/-- A character of the word, at its place in the text. -/
theorem getElem? (h : WordAt str b pos w) {k : ℕ} (hk : k < w.length) :
    ∃ c ∈ w, str[pos + k]? = some c := by
  obtain ⟨rest, hrest⟩ := h.text
  refine ⟨w[k], List.getElem_mem hk, ?_⟩
  rw [← List.getElem?_drop, ← hrest, List.getElem?_append_left hk, List.getElem?_eq_getElem hk]

theorem length_le (h : WordAt str b pos w) (hpos : pos ≤ str.length) :
    pos + w.length ≤ str.length := by
  have := h.text.length_le
  rw [List.length_drop] at this
  omega

theorem length_pos (h : WordAt str b pos w) (hb : b ≠ []) : 0 < w.length :=
  (List.length_pos_iff.2 hb).trans_le h.starts.length_le

theorem lt_length (h : WordAt str b pos w) (hb : b ≠ []) : pos < str.length := by
  have hle := h.text.length_le
  have := h.length_pos hb
  rw [List.length_drop] at hle
  omega

/-- A word has nothing of what ends another. -/
theorem not_ends (h : WordAt str b pos w) (hb : b ≠ []) {k : ℕ} (hk : k < w.length) :
    ¬ (pos + k = str.length ∨ ∃ c ∈ delimiters, str[pos + k]? = some c) := by
  obtain ⟨c, hc, hget⟩ := h.getElem? hk
  rintro (heq | ⟨d, hd, hget'⟩)
  · have := h.length_le (h.lt_length hb).le
    omega
  · rw [hget, Option.some.injEq] at hget'
    exact h.plain c hc (hget' ▸ hd)

/-- A word inside another ends where the other does, or before. -/
theorem end_le (h : WordAt str b pos w) (h' : WordAt str b pos' w') (hb : b ≠ [])
    (hinside : pos' ≤ pos + w.length) : pos' + w'.length ≤ pos + w.length := by
  by_contra hlt
  obtain ⟨k, hk⟩ := Nat.exists_eq_add_of_le hinside
  have hends := h.ends
  rw [hk] at hends
  exact h'.not_ends hb (by omega) hends

theorem eq_takeWhile (h : WordAt str b pos w) : w = (str.drop pos).takeWhile wordChar := by
  obtain ⟨rest, hrest⟩ := h.text
  have hrest0 : rest.takeWhile wordChar = [] := by
    cases rest with
    | nil => rfl
    | cons c rest =>
      have hget : str[pos + w.length]? = some c := by
        rw [← List.getElem?_drop, ← hrest, List.getElem?_append_right le_rfl]
        simp
      rcases h.ends with heq | ⟨d, hd, hget'⟩
      · rw [List.getElem?_eq_none heq.ge] at hget
        cases hget
      · rw [hget, Option.some.injEq] at hget'
        rw [List.takeWhile_cons_of_neg fun hc => wordChar_iff.1 hc (hget' ▸ hd)]
  rw [← hrest, List.takeWhile_append_of_pos fun c hc => wordChar_iff.2 (h.plain c hc), hrest0,
    List.append_nil]

end WordAt

/-- A word begins where the text is found after an opener. -/
theorem exists_wordAt_iff (hplain : ∀ c ∈ b, c ∉ delimiters)
    (hpos : pos ≤ str.length) :
    (∃ w, WordAt str b pos w) ↔ b <+: str.drop pos ∧ wordStart (prevChar str pos) = true := by
  rw [wordStart_prevChar hpos]
  constructor
  · rintro ⟨w, h⟩
    exact ⟨h.starts.trans h.text, h.begins⟩
  · rintro ⟨⟨rest, hrest⟩, hbegins⟩
    have hstarts : b <+: (str.drop pos).takeWhile wordChar := by
      rw [← hrest, List.takeWhile_append_of_pos fun c hc => wordChar_iff.2 (hplain c hc)]
      exact List.prefix_append _ _
    have hsplit := List.takeWhile_append_dropWhile (p := wordChar) (l := str.drop pos)
    have hw : ∀ c ∈ (str.drop pos).takeWhile wordChar, c ∉ delimiters :=
      fun c hc => wordChar_iff.1 (List.mem_takeWhile_imp hc)
    generalize (str.drop pos).takeWhile wordChar = w at hstarts hsplit hw
    refine ⟨w, hstarts, hbegins, ⟨_, hsplit⟩, hw, ?_⟩
    cases htail : (str.drop pos).dropWhile wordChar with
    | nil =>
      have hlen := congrArg List.length hsplit
      rw [htail, List.append_nil, List.length_drop] at hlen
      exact Or.inl (by omega)
    | cons c tail =>
      have hstop : wordChar c = false := by
        have hhead := List.head?_dropWhile_not wordChar (str.drop pos)
        rwa [htail] at hhead
      refine Or.inr ⟨c, ?_, ?_⟩
      · by_contra hc
        rw [wordChar_iff.2 hc] at hstop
        cases hstop
      · rw [← List.getElem?_drop, ← hsplit, htail, List.getElem?_append_right le_rfl]
        simp

/-! The scan of the instrumentor, from a position on. -/

def scan (str b : List Char) (pos : ℕ) : List String :=
  extractWordsAux b 0 (prevChar str pos) (str.drop pos)

theorem scan_of_length_le (h : str.length ≤ pos) : scan str b pos = [] := by
  rw [scan, List.drop_eq_nil_of_le h]
  rfl

theorem extractWordsAux_skip (str b : List Char) (skip pos : ℕ) :
    extractWordsAux b skip (prevChar str pos) (str.drop pos) = scan str b (pos + skip) := by
  induction skip generalizing pos with
  | zero => rfl
  | succ skip ih =>
    rcases Nat.lt_or_ge pos str.length with hlt | hge
    · have hnext : prevChar str (pos + 1) = some str[pos] := List.getElem?_eq_getElem hlt
      rw [List.drop_eq_getElem_cons hlt, extractWordsAux, ← hnext, ih]
      congr 1
      omega
    · rw [List.drop_eq_nil_of_le hge, scan_of_length_le (by omega)]
      rfl

theorem scan_word (hb : b ≠ []) (hplain : ∀ c ∈ b, c ∉ delimiters) (h : WordAt str b pos w) :
    scan str b pos = String.ofList w :: scan str b (pos + w.length + 1) := by
  have hlt := h.lt_length hb
  have hnext : prevChar str (pos + 1) = some str[pos] := List.getElem?_eq_getElem hlt
  obtain ⟨hfound, hstart⟩ := (exists_wordAt_iff hplain hlt.le).1 ⟨w, h⟩
  have hw := h.eq_takeWhile
  rw [List.drop_eq_getElem_cons hlt] at hw hfound
  have hc : wordChar str[pos] = true := by
    by_contra hc
    rw [List.takeWhile_cons_of_neg hc] at hw
    have := h.length_pos hb
    rw [hw] at this
    cases this
  rw [List.takeWhile_cons_of_pos hc] at hw
  rw [scan, List.drop_eq_getElem_cons hlt, extractWordsAux,
    if_pos (by rw [List.isPrefixOf_iff_prefix.2 hfound, hstart]; rfl), ← hw, ← hnext]
  dsimp only
  rw [extractWordsAux_skip, Nat.add_right_comm]

theorem scan_next (hplain : ∀ c ∈ b, c ∉ delimiters) (h : ∀ w, ¬ WordAt str b pos w)
    (hlt : pos < str.length) : scan str b pos = scan str b (pos + 1) := by
  have hnext : prevChar str (pos + 1) = some str[pos] := List.getElem?_eq_getElem hlt
  have hno := mt (exists_wordAt_iff hplain hlt.le).2 (not_exists.2 h)
  rw [scan, scan, List.drop_eq_getElem_cons hlt, extractWordsAux, if_neg, ← hnext]
  rw [Bool.and_eq_true, List.isPrefixOf_iff_prefix, ← List.drop_eq_getElem_cons hlt]
  exact hno

theorem scan_eq_of_no_word (hplain : ∀ c ∈ b, c ∉ delimiters) (hle : pos ≤ pos')
    (h : ∀ k, pos ≤ k → k < pos' → ∀ w, ¬ WordAt str b k w) (hlen : pos' ≤ str.length) :
    scan str b pos = scan str b pos' := by
  induction hle with
  | refl => rfl
  | @step m hle ih =>
    rw [ih (fun k hk hkm => h k hk (by omega)) (by omega)]
    exact scan_next hplain (h m hle (Nat.lt_succ_self m)) (by omega)

/-- From a position that no earlier word reaches over, the scan finds the words kept. -/
theorem mem_scan_iff (hb : b ≠ []) (hplain : ∀ c ∈ b, c ∉ delimiters) {word : String} (n : ℕ)
    (hn : str.length ≤ pos + n)
    (hfree : ∀ k w, WordAt str b k w → k < pos → k + w.length ≤ pos) :
    word ∈ scan str b pos ↔ ∃ k, pos ≤ k ∧ KeptWord str b k word.toList := by
  induction n using Nat.strong_induction_on generalizing pos with
  | _ n ih =>
    rcases Nat.lt_or_ge pos str.length with hlt | hge
    · by_cases hword : ∃ w, WordAt str b pos w
      · obtain ⟨w, hw⟩ := hword
        have hfree' : ∀ k w', WordAt str b k w' → k < pos + w.length + 1 →
            k + w'.length ≤ pos + w.length + 1 := by
          intro k w' hw' hk
          have := hw.end_le hw' hb (by omega)
          omega
        rw [scan_word hb hplain hw, List.mem_cons,
          ih (n - (w.length + 1)) (by have := hw.length_pos hb; omega) (by omega) hfree']
        constructor
        · rintro (rfl | ⟨k, hk, hkept⟩)
          · rw [String.toList_ofList]
            exact ⟨pos, le_rfl, hw, fun k w' hw' hk => hfree k w' hw' hk⟩
          · exact ⟨k, by omega, hkept⟩
        · rintro ⟨k, hk, hkept⟩
          rcases Nat.lt_or_ge (pos + w.length) k with hafter | hinside
          · exact Or.inr ⟨k, hafter, hkept⟩
          · left
            -- a word in between would lie inside, or begin with what ends this one
            obtain rfl : k = pos := by
              by_contra hne
              have hfar := hkept.2 pos w hw (by omega)
              obtain rfl : k = pos + w.length := by omega
              exact hkept.1.not_ends hb (hkept.1.length_pos hb) hw.ends
            rw [hw.eq_takeWhile, ← hkept.1.eq_takeWhile, String.ofList_toList]
      · rw [not_exists] at hword
        rw [scan_next hplain hword hlt, ih (n - 1) (by omega) (by omega)]
        · refine exists_congr fun k => and_congr_left fun hkept => ?_
          constructor
          · exact fun hk => by omega
          · intro hk
            rcases Nat.eq_or_lt_of_le hk with rfl | hk
            · exact absurd hkept.1 (hword _)
            · exact hk
        · intro k w hw hk
          rcases Nat.lt_succ_iff_lt_or_eq.1 hk with hk | rfl
          · exact (hfree k w hw hk).trans (Nat.le_succ pos)
          · exact absurd hw (hword w)
    · rw [scan_of_length_le hge]
      constructor
      · exact fun h => absurd h List.not_mem_nil
      · rintro ⟨k, hk, hkept⟩
        have := hkept.1.lt_length hb
        omega

/-! The loop. -/

theorem findFrom_spec {cs : List Char} {i k : ℕ} (h : Postgres.findFrom b i cs = some k) :
    ∃ m, k = i + m ∧ b <+: cs.drop m ∧ ∀ n < m, ¬ b <+: cs.drop n := by
  induction cs generalizing i with
  | nil =>
    rw [Postgres.findFrom] at h
    split_ifs at h with hfound
    cases h
    exact ⟨0, rfl, List.isPrefixOf_iff_prefix.1 hfound, fun n hn => absurd hn n.not_lt_zero⟩
  | cons c cs ih =>
    rw [Postgres.findFrom] at h
    split_ifs at h with hfound
    · cases h
      exact ⟨0, rfl, List.isPrefixOf_iff_prefix.1 hfound, fun n hn => absurd hn n.not_lt_zero⟩
    · obtain ⟨m, rfl, hm, hbefore⟩ := ih h
      refine ⟨m + 1, by omega, hm, fun n hn => ?_⟩
      cases n with
      | zero => exact fun hb => hfound (List.isPrefixOf_iff_prefix.2 hb)
      | succ n => exact hbefore n (by omega)

theorem find_eq_some (h : find str b pos = some pos') : pos ≤ pos' ∧ b <+: str.drop pos' ∧
    ∀ k, pos ≤ k → k < pos' → ¬ b <+: str.drop k := by
  obtain ⟨m, rfl, hm, hbefore⟩ := findFrom_spec h
  rw [List.drop_drop] at hm
  refine ⟨by omega, hm, fun k hk hlt => ?_⟩
  have := hbefore (k - pos) (by omega)
  rwa [List.drop_drop, Nat.add_sub_cancel' hk] at this

theorem find_eq_none (h : find str b pos = none) {k : ℕ} (hk : pos ≤ k) :
    ¬ b <+: str.drop k := by
  intro hb
  refine Postgres.findFrom_eq_none_iff.1 h (hb.isInfix.trans ?_)
  rw [← Nat.add_sub_cancel' hk, ← List.drop_drop]
  exact (List.drop_suffix _ _).isInfix

theorem intervalPos_eq (pos : ℕ) (cs : List Char) :
    intervalPos pos cs = pos + (cs.takeWhile wordChar).length := by
  induction cs generalizing pos with
  | nil => rfl
  | cons c cs ih =>
    rw [intervalPos, List.takeWhile_cons]
    split_ifs
    · rw [ih, List.length_cons]
      omega
    · rfl

/-- The loop stops behind the word it found. -/
theorem WordAt.intervalPos_eq (h : WordAt str b pos w) (hb : b ≠ []) :
    intervalPos (pos + 1) (str.drop (pos + 1)) = pos + w.length := by
  have hlt := h.lt_length hb
  have hw := h.eq_takeWhile
  have hpos := h.length_pos hb
  rw [List.drop_eq_getElem_cons hlt, List.takeWhile_cons] at hw
  rw [Words.intervalPos_eq]
  split_ifs at hw
  · rw [hw, List.length_cons]
    omega
  · rw [hw] at hpos
    cases hpos

theorem extractLoop_eq (hb : b ≠ []) (hplain : ∀ c ∈ b, c ∉ delimiters) (fuel : ℕ) {words}
    (hpos : pos ≤ str.length + 1) (hfuel : str.length + 1 < fuel + pos) :
    extractLoop str b fuel (find str b pos) words = .ok (words ∪ (scan str b pos).toFinset) := by
  induction fuel generalizing pos words with
  | zero => omega
  | succ fuel ih =>
    cases hfind : find str b pos with
    | none =>
      have hscan : scan str b pos = [] := by
        rcases Nat.le_or_ge str.length pos with hle | hle
        · exact scan_of_length_le hle
        · rw [scan_eq_of_no_word hplain hle (fun k hk _ w hw => find_eq_none hfind hk
            (hw.starts.trans hw.text)) le_rfl, scan_of_length_le le_rfl]
      rw [extractLoop, hscan, List.toFinset_nil, Finset.union_empty]
    | some found =>
      obtain ⟨hle, hfound, hbefore⟩ := find_eq_some hfind
      have hlt : found < str.length := by
        have := (List.length_pos_iff.2 hb).trans_le hfound.length_le
        rw [List.length_drop] at this
        omega
      rw [scan_eq_of_no_word hplain hle
        (fun k hk hkf w hw => hbefore k hk hkf (hw.starts.trans hw.text)) hlt.le, extractLoop]
      split_ifs with hstart
      · obtain ⟨w, hw⟩ := (exists_wordAt_iff hplain hlt.le).2 ⟨hfound, hstart⟩
        have hend := hw.length_le hlt.le
        have htake : (str.drop found).take w.length = w :=
          (List.prefix_iff_eq_take.1 hw.text).symm
        dsimp only
        rw [hw.intervalPos_eq hb, Nat.add_sub_cancel_left, htake, scan_word hb hplain hw]
        split_ifs with hlast
        · rw [scan_of_length_le (by omega), List.toFinset_cons, List.toFinset_nil,
            Finset.union_insert, Finset.union_empty]
        · rw [ih (by omega) (by omega), List.toFinset_cons, Finset.union_insert,
            Finset.insert_union]
      · have hno : ∀ w, ¬ WordAt str b found w := fun w hw =>
          hstart ((exists_wordAt_iff hplain hlt.le).1 ⟨w, hw⟩).2
        rw [ih (by omega) (by omega), scan_next hplain hno hlt]

theorem extractWordsBeginWith_toFinset (str beginStr : String) :
    (extractWordsBeginWith str beginStr).toFinset =
      (scan str.toList beginStr.toList 0).toFinset := by
  ext word
  simp [extractWordsBeginWith, scan, prevChar]

end Words

open Words

/-- The search ends with the words kept, and so does the scan of the instrumentor. -/
theorem extract_spec (str beginStr : String) (hne : beginStr ≠ "")
    (hplain : ∀ c ∈ beginStr.toList, c ∉ ['(', ')', '.', ';', ' ', '\n']) :
    ∃ words, extract str beginStr = .ok words ∧
      (∀ word, word ∈ words ↔ ∃ pos, KeptWord str.toList beginStr.toList pos word.toList) ∧
      (extractWordsBeginWith str beginStr).toFinset = words := by
  have hb : beginStr.toList ≠ [] := by simpa using hne
  have hdelim : ∀ c ∈ beginStr.toList, c ∉ delimiters := by
    intro c hc hmem
    refine hplain c hc ?_
    simp only [delimiters, List.mem_cons, List.not_mem_nil, or_false] at hmem ⊢
    tauto
  refine ⟨(scan str.toList beginStr.toList 0).toFinset, ?_, fun word => ?_,
    extractWordsBeginWith_toFinset str beginStr⟩
  · rw [extract, extractLoop_eq hb hdelim _ (Nat.zero_le _) (by omega), Finset.empty_union]
  · rw [List.mem_toFinset, mem_scan_iff hb hdelim str.toList.length (by omega)
      fun k w _ hk => absurd hk k.not_lt_zero]
    exact exists_congr fun k => and_iff_right (Nat.zero_le k)

/-- One name begins the text, one has no opener before it, one lies inside another. -/
theorem extract_joined : ∃ words,
    extract "t_1.c, x_t_2 (t_3(t_4);" "t_" = .ok words ∧
      (∀ word, word ∈ words ↔
        ∃ pos, KeptWord "t_1.c, x_t_2 (t_3(t_4);".toList "t_".toList pos word.toList) ∧
      (extractWordsBeginWith "t_1.c, x_t_2 (t_3(t_4);" "t_").toFinset = words :=
  extract_spec _ _ (by decide) fun c hc => by
    rcases List.mem_cons.1 hc with rfl | hc
    · decide
    · rw [List.mem_singleton.1 hc]
      decide

end DbFuzz
