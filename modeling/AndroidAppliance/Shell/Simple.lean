import AndroidAppliance.Shell.Script

/-!
# Simple commands, line by line

A script without control structures: each line is a command, with the assignments in front of its
name. `simples_lines`: what is written of `Piece`s, each a word that nothing expands, is read as
the commands of their values.
-/

namespace AndroidAppliance

namespace Shell

/-! ### The reader -/

/-- A command, and the assignments in front of it. -/
structure Simple where
  assigns : List (Str × Str)
  argv : List Str
  deriving DecidableEq, Repr

/-- The words of each line; an operator that is no newline is refused. -/
def wordLines : List Token → Option (List (List Word))
  | [] => some [[]]
  | .op c :: ts => if c = '\n' then (wordLines ts).map ([] :: ·) else none
  | .word w :: ts => (wordLines ts).map fun ls => (w :: ls.headD []) :: ls.tail

/-- The name of an assignment, and its value, which is one field whatever is in it. A tilde is not
read. -/
def assignment (w : Word) : Option (Str × Str) :=
  let cut := Str.partition '=' (textOf w)
  if w.all fun p => p.Literal ∧ p ≠ .char false '~' then some (cut.1, cut.2.2) else none

/-- A word that begins no simple command. -/
def isReserved (w : Word) : Bool :=
  (literal w).any fun s => isUnread s ||
    ["if".toList, "then".toList, "else".toList, "fi".toList].contains s

/-- The command of a line. -/
def simple (env : Env) (ws : List Word) : Option Simple := do
  let first := ws.takeWhile isAssignment
  let rest := ws.drop first.length
  if rest.head?.any isReserved then none
  else
    let assigns ← first.mapM assignment
    let argv ← arguments env rest
    return ⟨assigns, argv⟩

/-- The commands of the lines that have one. -/
def commands (env : Env) (ls : List (List Word)) : Option (List Simple) :=
  (ls.filter fun l => !l.isEmpty).mapM (simple env)

/-- The commands of a script, in order. -/
def simples (env : Env) (s : Str) : Option (List Simple) :=
  ((tokens s).bind wordLines).bind (commands env)

/-! ### Words as they are written -/

/-- In single quotes; a quote in the text stands outside of them, behind a backslash. -/
def singleQuoted (s : Str) : Str :=
  '\'' :: (s.flatMap (fun c => if c = '\'' then ['\'', '\\', '\'', '\''] else [c]) ++ ['\''])

/-- A word that is written: bare text, or bare text with quoted text behind it. -/
inductive Piece
  | bare (s : Str)
  | quoted (before s : Str)

/-- A piece as it is written. -/
def Piece.text : Piece → Str
  | .bare s => s
  | .quoted before s => before ++ singleQuoted s

/-- A piece as it is meant. -/
def Piece.value : Piece → Str
  | .bare s => s
  | .quoted before s => before ++ s

/-- A character that no expansion changes, in a bare word. -/
def isBare (c : Char) : Bool :=
  isOrdinary c && c != '*' && c != '?' && c != '[' && c != '~' && c != '#'

/-- A word that is read as its value. -/
def Piece.Ok : Piece → Prop
  | .bare s => s ≠ [] ∧ ∀ c ∈ s, isBare c = true
  | .quoted before _ => ∀ c ∈ before, isBare c = true

/-- The parts of a quoted text. -/
def quotedParts (s : Str) : Word :=
  .quotes :: s.flatMap fun c =>
    if c = '\'' then [.char true '\'', .quotes] else [.char true c]

/-- A piece as it is read. -/
def Piece.word : Piece → Word
  | .bare s => plainWord s
  | .quoted before s => plainWord before ++ quotedParts s

/-! ### Reading a piece -/

variable {s before : Str} {p : Piece} {w : Word} {c : Char}

/-- The quoted text goes on with the word that it follows. -/
theorem lexRun_singleQuoted (s : Str) (w : Word) :
    lexRun (.plain w) (singleQuoted s) = some (.plain (w ++ quotedParts s), []) := by
  have hinside : ∀ w : Word, lexRun (.single w)
      (s.flatMap (fun c => if c = '\'' then ['\'', '\\', '\'', '\''] else [c]) ++ ['\'']) =
        some (.plain (w ++ s.flatMap fun c =>
          if c = '\'' then [.char true '\'', .quotes] else [.char true c]), []) := by
    -- A quote in the text leaves the quotes, is escaped, and enters them again.
    induction s with
    | nil => intro w; simp [lexRun, lexStep]
    | cons c s ih =>
      intro w
      rw [List.flatMap_cons, List.flatMap_cons, List.append_assoc]
      by_cases hc : c = '\''
      · have hquote : lexRun (.single w) ['\'', '\\', '\'', '\''] =
            some (.single (w ++ [.char true '\'', .quotes]), []) := by
          simp [lexRun, lexStep, plainStep, isBlank, isOperator]
        rw [if_pos hc, if_pos hc, lexRun_append_quiet hquote, ih, List.append_assoc]
      · have hchar : lexRun (.single w) [c] = some (.single (w ++ [.char true c]), []) := by
          simp [lexRun, lexStep, hc]
        rw [if_neg hc, if_neg hc, lexRun_append_quiet hchar, ih, List.append_assoc]
  have hopen : lexRun (.plain w) ['\''] = some (.single (w ++ [.quotes]), []) := by
    simp [lexRun, lexStep, plainStep, isBlank, isOperator]
  rw [singleQuoted, ← List.singleton_append, lexRun_append_quiet hopen, hinside, quotedParts,
    List.append_assoc, List.singleton_append]

/-- A bare character ends no word and begins no comment. -/
theorem isOrdinary_of_isBare (h : isBare c = true) : isOrdinary c = true ∧ c ≠ '#' := by
  simp only [isBare, Bool.and_eq_true, bne_iff_ne] at h
  exact ⟨h.1.1.1.1.1, h.2⟩

/-- A piece behind a blank is one word. -/
theorem lexRun_piece (h : p.Ok) : lexRun .blank p.text = some (.plain p.word, []) := by
  have hplain : ∀ {s : Str}, s ≠ [] → (∀ c ∈ s, isBare c = true) →
      lexRun .blank s = some (.plain (plainWord s), []) := by
    intro s hne hs
    obtain ⟨c, s, rfl⟩ := List.exists_cons_of_ne_nil hne
    obtain ⟨hc, hhash⟩ := isOrdinary_of_isBare (hs c List.mem_cons_self)
    rw [lexRun_blank hc hhash, lexRun_ordinary fun d hd => (isOrdinary_of_isBare (hs d hd)).1]
    rfl
  cases p with
  | bare s => exact hplain h.1 h.2
  | quoted before s =>
    cases before with
    | nil =>
      -- Quotes that begin a word are read as they are inside of one.
      have hblank : lexRun .blank (singleQuoted s) = lexRun (.plain []) (singleQuoted s) := rfl
      rw [Piece.text, List.nil_append, hblank, lexRun_singleQuoted]
      rfl
    | cons c before =>
      rw [Piece.text, lexRun_append_quiet (hplain (List.cons_ne_nil _ _) h), lexRun_singleQuoted]
      rfl

/-- The text of two words. -/
theorem textOf_append (v w : Word) : textOf (v ++ w) = textOf v ++ textOf w :=
  List.filterMap_append

/-- The text of what is quoted. -/
theorem textOf_quotedParts (s : Str) : textOf (quotedParts s) = s := by
  have hparts : textOf (s.flatMap fun c =>
      if c = '\'' then [.char true '\'', .quotes] else [.char true c]) = s := by
    induction s with
    | nil => rfl
    | cons c s ih =>
      rw [List.flatMap_cons, textOf_append, ih]
      split
      · rename_i hc
        rw [hc]
        rfl
      · rfl
  exact hparts

/-- The text of a piece is its value. -/
theorem textOf_word (p : Piece) : textOf p.word = p.value := by
  cases p with
  | bare s => exact textOf_plainWord s
  | quoted before s =>
    rw [Piece.word, textOf_append, textOf_plainWord, textOf_quotedParts, Piece.value]

/-- Nothing expands a bare character. -/
theorem inert_of_isBare (h : isBare c = true) : (Part.char false c).Inert := by
  simp only [isBare, Bool.and_eq_true, bne_iff_ne] at h
  exact ⟨h.1.1.1.1.2, h.1.1.1.2, h.1.1.2, h.1.2⟩

/-- Nothing expands what is quoted. -/
theorem quotedParts_inert (s : Str) : ∀ part ∈ quotedParts s, part.Inert := by
  refine List.forall_mem_cons.mpr ⟨trivial, ?_⟩
  intro part hpart
  obtain ⟨c, -, hc⟩ := List.mem_flatMap.mp hpart
  split at hc
  · rcases List.mem_pair.mp hc with rfl | rfl <;> trivial
  · rw [List.mem_singleton] at hc
    rw [hc]
    trivial

/-- Nothing expands a part of a piece. -/
theorem parts_inert (h : p.Ok) : ∀ part ∈ p.word, part.Inert := by
  have hplain : ∀ {s : Str}, (∀ c ∈ s, isBare c = true) → ∀ part ∈ plainWord s, part.Inert := by
    intro s hs part hpart
    obtain ⟨c, hc, rfl⟩ := List.mem_map.mp hpart
    exact inert_of_isBare (hs c hc)
  cases p with
  | bare s => exact hplain h.2
  | quoted before s => exact List.forall_mem_append.mpr ⟨hplain h, quotedParts_inert s⟩

/-- A piece is not read as nothing. -/
theorem word_ne_nil (h : p.Ok) : p.word ≠ [] := by
  cases p with
  | bare s => simpa [Piece.word, plainWord] using h.1
  | quoted before s => simp [Piece.word, quotedParts]

/-- Nothing expands a piece. -/
theorem inert_word (h : p.Ok) : Inert p.word := inert_of_parts (parts_inert h) (word_ne_nil h)

/-! ### Reading pieces -/

variable {a b sep text rest : Str} {ps qs : List Piece} {ts : List Token} {env : Env}

/-- A text that ends a word, with the tokens behind it. -/
def Ends (sep : Str) (ts : List Token) : Prop :=
  ∀ w, lexRun (.plain w) sep = some (.blank, .word w :: ts)

/-- A text that is words, whatever ends it. -/
def Reads (text : Str) (ps : List Piece) : Prop := ∀ sep ts, Ends sep ts →
  lexRun .blank (text ++ sep) = some (.blank, ps.map (fun p => .word p.word) ++ ts)

/-- A blank ends a word. -/
theorem ends_blank : Ends [' '] [] := fun _ => rfl

/-- A newline ends a word and a command. -/
theorem ends_newline : Ends ['\n'] [.op '\n'] := fun _ => rfl

/-- A backslash in front of the newline, and white space. -/
theorem ends_continued : Ends " \\\n  ".toList [] := fun _ => rfl

/-- One piece. -/
theorem reads_piece (h : p.Ok) : Reads p.text [p] := by
  intro sep ts hends
  rw [lexRun_append_quiet (lexRun_piece h), hends]
  rfl

/-- Pieces with something between them that ends a word. -/
theorem Reads.append (ha : Reads a ps) (hsep : Ends sep []) (hb : Reads b qs) :
    Reads (a ++ sep ++ b) (ps ++ qs) := by
  intro last ts hends
  rw [List.append_assoc (a ++ sep), lexRun_append, ha sep [] hsep]
  simp [hb last ts hends]

/-- Texts with a separator between them. -/
theorem reads_intercalate {xs : List (Str × List Piece)} (hsep : Ends sep []) (hne : xs ≠ [])
    (h : ∀ x ∈ xs, Reads x.1 x.2) : Reads (sep.intercalate (xs.map (·.1))) (xs.flatMap (·.2)) := by
  induction xs with
  | nil => exact absurd rfl hne
  | cons x xs ih =>
    rw [List.forall_mem_cons] at h
    cases xs with
    | nil =>
      rw [List.map_singleton, List.intercalate_singleton, List.flatMap_singleton]
      exact h.1
    | cons y ys =>
      rw [List.map_cons, List.map_cons, List.intercalate_cons_cons, List.flatMap_cons]
      exact h.1.append hsep (ih (List.cons_ne_nil _ _) h.2)

/-- A line of words with blanks between them. -/
theorem reads_words (h : ∀ p ∈ ps, p.Ok) (hne : ps ≠ []) :
    Reads ([' '].intercalate (ps.map Piece.text)) ps := by
  have hall : ∀ x ∈ ps.map fun p => (p.text, [p]), Reads x.1 x.2 := by
    simpa using fun p hp => reads_piece (h p hp)
  have hread := reads_intercalate ends_blank (by simpa using hne) hall
  rwa [List.map_map, List.flatMap_map, List.flatMap_singleton'] at hread

/-! ### Reading lines -/

/-- The words of the first line. -/
theorem wordLines_line (ws : List Word) (ts : List Token) :
    wordLines (ws.map .word ++ .op '\n' :: ts) = (wordLines ts).map (ws :: ·) := by
  induction ws with
  | nil => rfl
  | cons w ws ih =>
    rw [List.map_cons, List.cons_append, wordLines, ih, Option.map_map]
    rfl

/-- The tokens of a line are read on their own. -/
theorem simples_of_lexRun {ws : List Word}
    (h : lexRun .blank text = some (.blank, ws.map .word ++ [.op '\n'])) (env : Env)
    (rest : Str) : simples env (text ++ rest) =
      ((tokens rest).bind wordLines).bind fun ls => commands env (ws :: ls) := by
  rw [simples, tokens, tokensFrom_append h, tokens]
  cases tokensFrom .blank rest with
  | none => rfl
  | some ts =>
    rw [Option.map_some, Option.bind_some, List.append_assoc, List.singleton_append,
      wordLines_line]
    cases hls : wordLines ts <;> simp [hls]

/-- A comment is read over. -/
theorem lexRun_comment (h : '\n' ∉ text) :
    lexRun .blank ('#' :: (text ++ ['\n'])) = some (.blank, [.op '\n']) := by
  have hinside : lexRun .comment (text ++ ['\n']) = some (.blank, [.op '\n']) := by
    induction text with
    | nil => rfl
    | cons c text ih =>
      rw [List.mem_cons, not_or] at h
      simp [lexRun, lexStep, Ne.symm h.1, ih h.2]
  have hhash : lexRun .blank ['#'] = some (.comment, []) := rfl
  rw [← List.singleton_append, lexRun_append_quiet hhash, hinside]

/-- The commands behind a comment. -/
theorem simples_comment (h : '\n' ∉ text) (env : Env) (rest : Str) :
    simples env ('#' :: (text ++ '\n' :: rest)) = simples env rest := by
  have hrun : lexRun .blank ('#' :: (text ++ ['\n'])) =
      some (.blank, ([] : List Word).map .word ++ [.op '\n']) := lexRun_comment h
  have hline := simples_of_lexRun hrun env rest
  rw [List.cons_append, List.append_assoc, List.singleton_append] at hline
  rw [hline, simples]
  rfl

/-- **A line of pieces is the command of their values.** -/
theorem simples_line (h : Reads text ps) (hne : ps ≠ []) (env : Env) (rest : Str) :
    simples env (text ++ '\n' :: rest) = (simple env (ps.map Piece.word)).bind fun first =>
      (simples env rest).map (first :: ·) := by
  have hrun : lexRun .blank (text ++ ['\n']) =
      some (.blank, (ps.map Piece.word).map .word ++ [.op '\n']) := by
    rw [h _ _ ends_newline, List.map_map]
    rfl
  have hfull : (ps.map Piece.word).isEmpty = false := by simpa using hne
  have hcommands : ∀ ls, commands env (ps.map Piece.word :: ls) =
      (simple env (ps.map Piece.word)).bind fun first =>
        (commands env ls).map (first :: ·) := by
    intro ls
    rw [commands, List.filter_cons_of_pos (by simp [hfull]), List.mapM_cons, commands]
    cases simple env (ps.map Piece.word) with
    | none => rfl
    | some first =>
      cases (ls.filter fun l => !l.isEmpty).mapM (simple env) <;> rfl
  rw [List.append_cons, simples_of_lexRun hrun, simples]
  cases (tokens rest).bind wordLines with
  | none => cases simple env (ps.map Piece.word) <;> rfl
  | some ls =>
    rw [Option.bind_some, Option.bind_some, hcommands]

/-! ### The command of a line -/

/-- The value that an assignment in front of a command gives. -/
theorem assignment_word (h : p.Ok) :
    assignment p.word = some ((Str.partition '=' p.value).1, (Str.partition '=' p.value).2.2) := by
  have hall : (p.word.all fun part => part.Literal ∧ part ≠ .char false '~') = true := by
    rw [List.all_eq_true]
    intro part hpart
    have hinert := parts_inert h part hpart
    cases part with
    | char quoted c =>
      cases quoted with
      | true => simp [Part.Literal]
      | false => simpa [Part.Literal] using hinert.2.2.2
    | param quoted q => exact hinert.elim
    | quotes => simp [Part.Literal]
  rw [assignment, if_pos hall, textOf_word]

/-- The assignments of pieces. -/
theorem mapM_assignment (h : ∀ q ∈ ps, q.Ok) : (ps.map Piece.word).mapM assignment = some
    (ps.map fun q => ((Str.partition '=' q.value).1, (Str.partition '=' q.value).2.2)) := by
  induction ps with
  | nil => rfl
  | cons q ps ih =>
    rw [List.forall_mem_cons] at h
    rw [List.map_cons, List.mapM_cons, assignment_word h.1, ih h.2]
    rfl

/-- A command of pieces, with assignments in front of its name. -/
theorem simple_pieces (hps : ∀ q ∈ ps, q.Ok) (hassign : ∀ q ∈ ps, isAssignment q.word = true)
    (hp : p.Ok) (hname : isAssignment p.word = false) (hreserved : isReserved p.word = false)
    (hqs : ∀ q ∈ qs, q.Ok) (env : Env) :
    simple env ((ps ++ p :: qs).map Piece.word) = some
      ⟨ps.map fun q => ((Str.partition '=' q.value).1, (Str.partition '=' q.value).2.2),
        (p :: qs).map Piece.value⟩ := by
  have hfirst : ((ps ++ p :: qs).map Piece.word).takeWhile isAssignment = ps.map Piece.word := by
    rw [List.map_append, List.map_cons, List.takeWhile_append_of_pos (by simpa using hassign),
      List.takeWhile_cons_of_neg (by simp [hname]), List.append_nil]
  have hrest : ((ps ++ p :: qs).map Piece.word).drop (ps.map Piece.word).length =
      (p :: qs).map Piece.word := by
    rw [List.map_append, List.drop_left]
  have hinert : ∀ w ∈ (p :: qs).map Piece.word, Inert w := by
    intro w hw
    obtain ⟨q, hq, rfl⟩ := List.mem_map.mp hw
    rcases List.mem_cons.mp hq with rfl | hq
    · exact inert_word hp
    · exact inert_word (hqs q hq)
  have hargv : arguments env ((p :: qs).map Piece.word) = some ((p :: qs).map Piece.value) := by
    rw [arguments_inert hinert, List.map_map]
    exact congrArg some (List.map_congr_left fun q _ => textOf_word q)
  have hhead : ¬((p :: qs).map Piece.word).head?.any isReserved = true := by simp [hreserved]
  rw [simple]
  simp only [hfirst, hrest]
  rw [if_neg hhead, mapM_assignment hps, hargv]
  rfl

end Shell

end AndroidAppliance
