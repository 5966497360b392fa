import DbFuzz.Core.Number
import DbFuzz.Lib.Split

/-! The statements `generate_database` draws: what they print, and how the backup file is
split again (`dut_libpq::reset_to_backup`). -/

namespace DbFuzz

def isBlank (c : Char) : Bool := c == ' ' || c == '\n' || c == '\t'

/-- The text ends with a semicolon, trailing white space aside. -/
def endsStatement (s : List Char) : Bool := (s.rdropWhile isBlank).getLast? == some ';'

/-! What an `out` function prints. -/

inductive Piece
  | token (s : List Char)
  /-- `indent`: a line end and two spaces for each level. -/
  | indent (level : ℕ)

def Piece.out : Piece → List Char
  | token s => s
  | indent level => '\n' :: List.replicate (2 * level) ' '

def outPieces (ps : List Piece) : List Char := ps.flatMap Piece.out

/-- The lines of the text; `cur` is the line printed so far. -/
def linesOf : List Char → List Piece → List (List Char)
  | cur, [] => [cur]
  | cur, .token s :: ps => linesOf (cur ++ s) ps
  | cur, .indent level :: ps => cur :: linesOf (List.replicate (2 * level) ' ') ps

/-- A token has no line end and does not end a statement. -/
def IsToken (s : List Char) : Prop := '\n' ∉ s ∧ endsStatement s = false

/-- A text that can begin a line of the backup file. -/
def BeginsLine (s : List Char) : Prop := ∃ c rest, s = c :: rest ∧ c ≠ '-' ∧ c ≠ '#'

instance (s : List Char) : Decidable (IsToken s) := by unfold IsToken; infer_instance

instance (s : List Char) : Decidable (BeginsLine s) :=
  match s with
  | [] => isFalse (by rintro ⟨c, rest, h, -⟩; cases h)
  | c :: rest => decidable_of_iff (c ≠ '-' ∧ c ≠ '#')
      ⟨fun h => ⟨c, rest, rfl, h⟩, by rintro ⟨c', rest', h, h'⟩; cases h; exact h'⟩

/-- What follows a line end without indentation. -/
def BeginsPieces : List Piece → Prop
  | .token s :: _ => BeginsLine s
  | _ => True

/-- The pieces of one statement. -/
def WellPrinted : List Piece → Prop
  | [] => True
  | .token s :: ps => IsToken s ∧ WellPrinted ps
  | .indent 0 :: ps => BeginsPieces ps ∧ WellPrinted ps
  | .indent (_ + 1) :: ps => WellPrinted ps

theorem WellPrinted.append {ps qs : List Piece} (hps : WellPrinted ps) (hqs : WellPrinted qs)
    (hbegins : BeginsPieces qs) : WellPrinted (ps ++ qs) := by
  induction ps with
  | nil => exact hqs
  | cons p ps ih =>
    cases p with
    | token s => exact ⟨hps.1, ih hps.2⟩
    | indent level =>
      cases level with
      | succ n => exact ih hps
      | zero =>
        refine ⟨?_, ih hps.2⟩
        cases ps with
        | nil => exact hbegins
        | cons p' ps => cases p' <;> exact hps.1

/-! Tokens. -/

theorem rdropWhile_append {α : Type} (p : α → Bool) (s t : List α) :
    (s ++ t).rdropWhile p = if t.rdropWhile p = [] then s.rdropWhile p else s ++ t.rdropWhile p := by
  induction t using List.reverseRecOn with
  | nil => simp
  | append_singleton t c ih =>
    rw [← List.append_assoc, List.rdropWhile_concat, List.rdropWhile_concat]
    by_cases hc : p c
    · simp only [hc, if_true]
      exact ih
    · simp [hc]

theorem endsStatement_append (s t : List Char) :
    endsStatement (s ++ t) = if t.rdropWhile isBlank = [] then endsStatement s else endsStatement t := by
  unfold endsStatement
  rw [rdropWhile_append]
  split_ifs with h
  · rfl
  · rw [List.getLast?_append_of_ne_nil _ h]

theorem endsStatement_semicolon (s : List Char) : endsStatement (s ++ [';', '\n']) = true := by
  rw [endsStatement_append, if_neg (by decide)]
  decide

theorem endsStatement_newline (s : List Char) : endsStatement (s ++ ['\n']) = endsStatement s := by
  rw [endsStatement_append]
  rfl

theorem IsToken.append {s t : List Char} (hs : IsToken s) (ht : IsToken t) : IsToken (s ++ t) := by
  refine ⟨fun h => (List.mem_append.1 h).elim hs.1 ht.1, ?_⟩
  rw [endsStatement_append]
  split_ifs
  · exact hs.2
  · exact ht.2

theorem IsToken.of_forall {s : List Char} (h : ∀ c ∈ s, c ≠ '\n' ∧ c ≠ ';') : IsToken s := by
  refine ⟨fun hn => (h _ hn).1 rfl, ?_⟩
  unfold endsStatement
  rw [beq_eq_false_iff_ne]
  intro hlast
  have hmem : ';' ∈ s := (List.rdropWhile_prefix _ _).subset (List.mem_of_getLast? hlast)
  exact (h _ hmem).2 rfl

/-- A text in quotes. -/
theorem IsToken.quoted {s : List Char} (h : '\n' ∉ s) : IsToken ('\'' :: s ++ ['\'']) := by
  refine ⟨by simp [h], ?_⟩
  rw [endsStatement_append, if_neg (by decide)]
  decide

theorem isToken_spaces (n : ℕ) : IsToken (List.replicate n ' ') := by
  refine IsToken.of_forall fun c hc => ?_
  rw [List.eq_of_mem_replicate hc]
  decide

/-! The lines of well printed pieces. -/

/-- A line that the restore keeps, unless it is empty, and that ends no statement. -/
structure GoodLine (l : List Char) : Prop where
  token : IsToken l
  begins : l = [] ∨ BeginsLine l

theorem BeginsLine.append {s : List Char} (h : BeginsLine s) (t : List Char) : BeginsLine (s ++ t) := by
  obtain ⟨c, rest, rfl, hc⟩ := h
  exact ⟨c, rest ++ t, rfl, hc⟩

theorem beginsLine_spaces (n : ℕ) : BeginsLine (List.replicate (2 * (n + 1)) ' ') :=
  ⟨' ', List.replicate (2 * n + 1) ' ', rfl, by decide⟩

theorem goodLine_linesOf {ps : List Piece} {cur : List Char} (hps : WellPrinted ps)
    (hcur : IsToken cur) (hbegins : BeginsLine cur ∨ cur = [] ∧ BeginsPieces ps) :
    ∀ l ∈ linesOf cur ps, GoodLine l := by
  induction ps generalizing cur with
  | nil =>
    intro l hl
    rw [linesOf, List.mem_singleton] at hl
    subst hl
    exact ⟨hcur, hbegins.elim Or.inr fun h => Or.inl h.1⟩
  | cons p ps ih =>
    cases p with
    | token s =>
      obtain ⟨hs, hps⟩ := hps
      rw [linesOf]
      refine ih hps (hcur.append hs) (Or.inl ?_)
      rcases hbegins with h | ⟨rfl, h⟩
      · exact h.append s
      · exact h
    | indent level =>
      rw [linesOf]
      intro l hl
      rcases List.mem_cons.1 hl with rfl | hl
      · exact ⟨hcur, hbegins.elim Or.inr fun h => Or.inl h.1⟩
      · cases level with
        | zero => exact ih hps.2 (isToken_spaces 0) (Or.inr ⟨rfl, hps.1⟩) l hl
        | succ n => exact ih hps (isToken_spaces _) (Or.inl (beginsLine_spaces n)) l hl

/-- Each line ended by a line end is the text ended by one. -/
theorem flatMap_linesOf (cur : List Char) (ps : List Piece) :
    (linesOf cur ps).flatMap (· ++ ['\n']) = cur ++ outPieces ps ++ ['\n'] := by
  induction ps generalizing cur with
  | nil => simp [linesOf, outPieces]
  | cons p ps ih =>
    cases p with
    | token s =>
      rw [linesOf, ih]
      simp [outPieces, Piece.out]
    | indent level =>
      rw [linesOf, List.flatMap_cons, ih]
      simp [outPieces, Piece.out]

/-- A token at the end goes to the last line. -/
theorem linesOf_concat (cur : List Char) (ps : List Piece) :
    ∃ init last, linesOf cur ps = init ++ [last] ∧
      ∀ s, linesOf cur (ps ++ [.token s]) = init ++ [last ++ s] := by
  induction ps generalizing cur with
  | nil => exact ⟨[], cur, rfl, fun s => rfl⟩
  | cons p ps ih =>
    cases p with
    | token t => exact ih _
    | indent level =>
      obtain ⟨init, last, h, hs⟩ := ih (List.replicate (2 * level) ' ')
      refine ⟨cur :: init, last, ?_, fun s => ?_⟩
      · rw [linesOf, h, List.cons_append]
      · rw [List.cons_append, linesOf, hs, List.cons_append]

/-! `reset_to_backup` -/

/-- The texts sent to the server; `accumulated` are the lines since the last one. -/
def restoreChunks (accumulated : List Char) : List (List Char) → List (List Char)
  | [] => if accumulated = [] then [] else [accumulated]
  | line :: rest =>
    if line = [] ∨ line.head? = some '-' ∨ line.head? = some '#' then restoreChunks accumulated rest
    else
      let accumulated := accumulated ++ (line ++ ['\n'])
      if endsStatement accumulated then accumulated :: restoreChunks [] rest
      else restoreChunks accumulated rest

/-- A statement in the backup file, with the semicolon that ends it. -/
def statementLines (ps : List Piece) : List (List Char) := linesOf [] (ps ++ [.token [';']])

/-- The statement without its empty lines. -/
def chunkOf (ps : List Piece) : List Char :=
  ((statementLines ps).filter fun l => l ≠ []).flatMap (· ++ ['\n'])

theorem not_skipped {l : List Char} (h : BeginsLine l) :
    ¬ (l = [] ∨ l.head? = some '-' ∨ l.head? = some '#') := by
  obtain ⟨c, rest, rfl, h1, h2⟩ := h
  simp [h1, h2]

/-- Good lines are gathered. -/
theorem restoreChunks_good {ls : List (List Char)} (hls : ∀ l ∈ ls, GoodLine l)
    (acc : List Char) (hacc : endsStatement acc = false) (rest : List (List Char)) :
    ∃ acc', acc' = acc ++ (ls.filter fun l => l ≠ []).flatMap (· ++ ['\n']) ∧
      endsStatement acc' = false ∧
      restoreChunks acc (ls ++ rest) = restoreChunks acc' rest := by
  induction ls generalizing acc with
  | nil => exact ⟨acc, by simp, hacc, rfl⟩
  | cons l ls ih =>
    have hl := hls l (by simp)
    have hls' : ∀ l' ∈ ls, GoodLine l' := fun l' hl' => hls l' (by simp [hl'])
    rcases hl.begins with rfl | hbegins
    · obtain ⟨acc', hacc', hends, hrest⟩ := ih hls' acc hacc
      refine ⟨acc', by simpa using hacc', hends, ?_⟩
      rw [List.cons_append, restoreChunks, if_pos (Or.inl rfl), hrest]
    · have hends : endsStatement (acc ++ (l ++ ['\n'])) = false := by
        rw [← List.append_assoc, endsStatement_newline, endsStatement_append]
        split_ifs
        · exact hacc
        · exact hl.token.2
      have hne : l ≠ [] := fun h => not_skipped hbegins (Or.inl h)
      obtain ⟨acc', hacc', hends', hrest⟩ := ih hls' _ hends
      refine ⟨acc', ?_, hends', ?_⟩
      · rw [hacc']
        simp [hne]
      · rw [List.cons_append, restoreChunks, if_neg (not_skipped hbegins)]
        simp only [hends, Bool.false_eq_true, if_false]
        exact hrest

/-- A statement of the file is sent as one text. -/
theorem restoreChunks_statement {ps : List Piece} (hps : WellPrinted ps) (hbegins : BeginsPieces ps)
    (rest : List (List Char)) :
    restoreChunks [] (statementLines ps ++ rest) = chunkOf ps :: restoreChunks [] rest := by
  obtain ⟨init, last, hlines, hstatement⟩ := linesOf_concat [] ps
  have hgood := goodLine_linesOf hps ⟨by simp, by decide⟩ (Or.inr ⟨rfl, hbegins⟩)
  rw [hlines] at hgood
  have hsemi : BeginsLine (last ++ [';']) := by
    rcases (hgood last (by simp)).begins with rfl | h
    · exact ⟨';', [], rfl, by decide⟩
    · exact h.append _
  obtain ⟨acc, hacc, hends, hrest⟩ := restoreChunks_good
    (fun l (hl : l ∈ init) => hgood l (by simp [hl])) [] (by decide) ((last ++ [';']) :: rest)
  have hfinal : endsStatement (acc ++ (last ++ [';'] ++ ['\n'])) = true := by
    have := endsStatement_semicolon (acc ++ last)
    simpa using this
  have hne : last ++ [';'] ≠ [] := by simp
  rw [chunkOf, statementLines, hstatement, List.append_assoc, List.singleton_append, hrest,
    restoreChunks, if_neg (not_skipped hsemi)]
  simp only [hfinal, if_true]
  rw [hacc]
  simp [hne]

theorem newline_not_mem_statementLines {ps : List Piece} (hps : WellPrinted ps)
    (hbegins : BeginsPieces ps) : ∀ l ∈ statementLines ps, '\n' ∉ l := by
  obtain ⟨init, last, hlines, hstatement⟩ := linesOf_concat [] ps
  have hgood := goodLine_linesOf hps ⟨by simp, by decide⟩ (Or.inr ⟨rfl, hbegins⟩)
  rw [hlines] at hgood
  intro l hl
  rw [statementLines, hstatement] at hl
  rcases List.mem_append.1 hl with hl | hl
  · exact (hgood l (by simp [hl])).token.1
  · rw [List.mem_singleton.1 hl]
    have := (hgood last (by simp)).token.1
    simp [this]

theorem restoreChunks_lines {commands : List (List Piece)}
    (h : ∀ c ∈ commands, WellPrinted c ∧ BeginsPieces c) :
    restoreChunks [] (commands.flatMap statementLines) = commands.map chunkOf := by
  induction commands with
  | nil => rfl
  | cons c commands ih =>
    obtain ⟨hps, hbegins⟩ := h c (by simp)
    rw [List.flatMap_cons, restoreChunks_statement hps hbegins, List.map_cons,
      ih fun c' hc' => h c' (by simp [hc'])]

/-- The text of a statement with its semicolon. -/
def sentText (ps : List Piece) : List Char := outPieces ps ++ [';']

theorem sentText_lines (ps : List Piece) :
    (statementLines ps).flatMap (· ++ ['\n']) = sentText ps ++ ['\n'] := by
  rw [statementLines, flatMap_linesOf, List.nil_append]
  simp [sentText, outPieces, Piece.out]

/-- The statements of a file are sent one by one. -/
theorem restoreChunks_statements {commands : List (List Piece)}
    (h : ∀ c ∈ commands, WellPrinted c ∧ BeginsPieces c) :
    restoreChunks [] (Split.lines '\n' (commands.flatMap fun c => sentText c ++ ['\n'])) =
      commands.map chunkOf := by
  have htext : (commands.flatMap fun c => sentText c ++ ['\n']) =
      (commands.flatMap statementLines).flatMap (· ++ ['\n']) := by
    rw [List.flatMap_assoc]
    exact List.flatMap_congr fun c _ => (sentText_lines c).symm
  rw [htext, Split.lines_flatMap, restoreChunks_lines h]
  intro l hl
  obtain ⟨c, hc, hl⟩ := List.mem_flatMap.1 hl
  exact newline_not_mem_statementLines (h c hc).1 (h c hc).2 l hl

end DbFuzz
