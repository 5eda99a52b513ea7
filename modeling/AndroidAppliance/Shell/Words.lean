import AndroidAppliance.Text.Str

/-!
# Words of a POSIX shell

The token recognition of the shell: quotes, backslashes, parameters, comments and operators, one
character at a time. What a word is made of is kept, so that it can be expanded later. Command
substitution, arithmetic and `${` are not read: a text with one of them gives nothing.

The lexer is a machine over characters (`lexStep`), so a text is read piece by piece
(`lexRun_append`): a template around a value needs only what the value does in the mode that it
meets. `lexRun_single` and `lexRun_ordinary` are the two ways to insert a value without effect.
-/

namespace AndroidAppliance

namespace Shell

/-- A parameter that a `$` names. -/
inductive Param
  | variable (name : Str)
  | positional (digit : Char)
  | special (c : Char)
  deriving DecidableEq, Repr

/-- A part of a word. -/
inductive Part
  | char (quoted : Bool) (c : Char)
  | param (quoted : Bool) (p : Param)
  /-- Quotation marks: a word that has them is a field even when it is empty. -/
  | quotes
  deriving DecidableEq, Repr

/-- A word, in the parts it was written of. -/
abbrev Word := List Part

/-- A word, or an operator. -/
inductive Token
  | word (w : Word)
  | op (c : Char)
  deriving DecidableEq, Repr

/-- Where the lexer is, with the word so far. -/
inductive Mode
  /-- Between words. -/
  | blank
  | comment
  | plain (w : Word)
  /-- Behind a backslash, in double quotes or not. -/
  | escape (quoted : Bool) (w : Word)
  /-- Behind a `$`. -/
  | dollar (quoted : Bool) (w : Word)
  /-- In the name of a variable. -/
  | name (quoted : Bool) (w : Word) (n : Str)
  | single (w : Word)
  | double (w : Word)
  deriving DecidableEq, Repr

/-! ### Characters -/

/-- A character that ends a word and is an operator, or begins one. -/
def isOperator (c : Char) : Bool :=
  c = '\n' || c = ';' || c = '&' || c = '|' || c = '<' || c = '>' || c = '(' || c = ')'

/-- A blank between words. -/
def isBlank (c : Char) : Bool := c = ' ' || c = '\t'

/-- A character that a name can begin with. -/
def isNameStart (c : Char) : Bool := ('a' ≤ c && c ≤ 'z') || ('A' ≤ c && c ≤ 'Z') || c = '_'

/-- A character of a name. -/
def isNameChar (c : Char) : Bool := isNameStart c || c.isDigit

/-- The special parameters. -/
def isSpecial (c : Char) : Bool :=
  c = '@' || c = '*' || c = '#' || c = '?' || c = '-' || c = '$' || c = '!'

/-- A character that stands for itself inside a word. -/
def isOrdinary (c : Char) : Bool :=
  !isOperator c && !isBlank c && c != '\'' && c != '"' && c != '\\' && c != '$' &&
    c != Char.ofNat 96

/-! ### The lexer -/

/-- An unquoted character in a word. -/
def plainStep (w : Word) (c : Char) : Option (Mode × List Token) :=
  if isBlank c then some (.blank, [.word w])
  else if isOperator c then some (.blank, [.word w, .op c])
  else if c = '\'' then some (.single (w ++ [.quotes]), [])
  else if c = '"' then some (.double (w ++ [.quotes]), [])
  else if c = '\\' then some (.escape false w, [])
  else if c = '$' then some (.dollar false w, [])
  else if c = Char.ofNat 96 then none
  else some (.plain (w ++ [.char false c]), [])

/-- A character in double quotes. -/
def doubleStep (w : Word) (c : Char) : Option (Mode × List Token) :=
  if c = '"' then some (.plain w, [])
  else if c = '\\' then some (.escape true w, [])
  else if c = '$' then some (.dollar true w, [])
  else if c = Char.ofNat 96 then none
  else some (.double (w ++ [.char true c]), [])

/-- A character behind a part that is over, in double quotes or not. -/
def resume (quoted : Bool) (w : Word) (c : Char) : Option (Mode × List Token) :=
  if quoted then doubleStep w c else plainStep w c

/-- The mode behind a part that is over. -/
def resumed (quoted : Bool) (w : Word) : Mode := if quoted then .double w else .plain w

/-- One character: the new mode, and the tokens that are complete; `none` when the text is not
read. -/
def lexStep : Mode → Char → Option (Mode × List Token)
  | .blank, c =>
    if isBlank c then some (.blank, [])
    else if isOperator c then some (.blank, [.op c])
    else if c = '#' then some (.comment, [])
    else plainStep [] c
  | .comment, c => if c = '\n' then some (.blank, [.op c]) else some (.comment, [])
  | .plain w, c => plainStep w c
  | .escape false w, c =>
    if c = '\n' then some (if w.isEmpty then .blank else .plain w, [])
    else some (.plain (w ++ [.char true c]), [])
  | .escape true w, c =>
    if c = '\n' then some (.double w, [])
    else if c = '$' || c = Char.ofNat 96 || c = '"' || c = '\\' then
      some (.double (w ++ [.char true c]), [])
    else some (.double (w ++ [.char true '\\', .char true c]), [])
  | .dollar q w, c =>
    if isNameStart c then some (.name q w [c], [])
    else if c.isDigit then some (resumed q (w ++ [.param q (.positional c)]), [])
    else if isSpecial c then some (resumed q (w ++ [.param q (.special c)]), [])
    else if c = '(' || c = '{' || (!q && (c = '\'' || c = '"')) then none
    else resume q (w ++ [.char q '$']) c
  | .name q w n, c =>
    if isNameChar c then some (.name q w (n ++ [c]), [])
    else resume q (w ++ [.param q (.variable n)]) c
  | .single w, c =>
    if c = '\'' then some (.plain w, []) else some (.single (w ++ [.char true c]), [])
  | .double w, c => doubleStep w c

/-- The mode after a text, and the tokens that ended in it. -/
def lexRun : Mode → Str → Option (Mode × List Token)
  | m, [] => some (m, [])
  | m, c :: s => do
    let (m, ts) ← lexStep m c
    let (m, ts') ← lexRun m s
    return (m, ts ++ ts')

/-- What ends with the text; open quotes are refused. -/
def lexEnd : Mode → Option (List Token)
  | .blank => some []
  | .comment => some []
  | .plain w => some [.word w]
  | .dollar false w => some [.word (w ++ [.char false '$'])]
  | .name false w n => some [.word (w ++ [.param false (.variable n)])]
  | .dollar true _ | .name true _ _ | .escape _ _ | .single _ | .double _ => none

/-- The tokens from a mode on. -/
def tokensFrom (m : Mode) (s : Str) : Option (List Token) := do
  let (m, ts) ← lexRun m s
  let last ← lexEnd m
  return ts ++ last

/-- The tokens of a text. -/
def tokens (s : Str) : Option (List Token) := tokensFrom .blank s

/-- A word without quotes. -/
def plainWord (s : Str) : Word := s.map (.char false)

/-! ### Reading piece by piece -/

variable {m m' : Mode} {a b s : Str} {w : Word} {ts : List Token} {c : Char}

theorem lexRun_append (m : Mode) (a b : Str) : lexRun m (a ++ b) = do
    let (m, ts) ← lexRun m a
    let (m, ts') ← lexRun m b
    return (m, ts ++ ts') := by
  induction a generalizing m with
  | nil => cases h : lexRun m b <;> simp [lexRun, h]
  | cons c a ih =>
    simp only [List.cons_append, lexRun, ih]
    cases lexStep m c with
    | none => rfl
    | some r =>
      cases ha : lexRun r.1 a with
      | none => simp [ha]
      | some r' => cases hb : lexRun r'.1 b <;> simp [ha, hb]

/-- A piece in which no token ends. -/
theorem lexRun_append_quiet (h : lexRun m a = some (m', [])) (b : Str) :
    lexRun m (a ++ b) = lexRun m' b := by
  rw [lexRun_append, h]
  cases hb : lexRun m' b <;> simp [hb]

/-- A piece, and the tokens that ended in it. -/
theorem tokensFrom_append (h : lexRun m a = some (m', ts)) (b : Str) :
    tokensFrom m (a ++ b) = (tokensFrom m' b).map (ts ++ ·) := by
  rw [tokensFrom, lexRun_append, h, tokensFrom]
  cases hb : lexRun m' b with
  | none => simp [hb]
  | some r => cases hend : lexEnd r.1 <;> simp [hb, hend]

/-- A blank ends a word; what is behind it is read on its own. -/
theorem tokensFrom_word (w : Word) {text : Str} (htext : text = ' ' :: a)
    (h : lexRun .blank a = some (.blank, ts)) (b : Str) :
    tokensFrom (.plain w) (text ++ b) = (tokensFrom .blank b).map ([.word w] ++ ts ++ ·) := by
  have hrun : lexRun (.plain w) text = some (.blank, [.word w] ++ ts) := by
    have hstep : lexStep (.plain w) ' ' = some (.blank, [.word w]) := rfl
    rw [htext, lexRun, hstep]
    simp [h]
  exact tokensFrom_append hrun b

/-- A semicolon ends it too, and is a token. -/
theorem tokensFrom_semicolon (w : Word) {text : Str} (htext : text = ';' :: s) :
    tokensFrom (.plain w) text = (tokensFrom .blank s).map ([.word w, .op ';'] ++ ·) := by
  rw [htext]
  exact tokensFrom_append (a := [';']) rfl s

/-- In single quotes every character is one. -/
theorem lexRun_single (h : '\'' ∉ s) (w : Word) :
    lexRun (.single w) s = some (.single (w ++ s.map (.char true)), []) := by
  induction s generalizing w with
  | nil => simp [lexRun]
  | cons c s ih =>
    rw [List.mem_cons, not_or] at h
    simp [lexRun, lexStep, Ne.symm h.1, ih h.2]

theorem plainStep_ordinary (h : isOrdinary c = true) (w : Word) :
    plainStep w c = some (.plain (w ++ [.char false c]), []) := by
  simp only [isOrdinary, Bool.and_eq_true, Bool.not_eq_true', bne_iff_ne, ne_eq] at h
  obtain ⟨⟨⟨⟨⟨⟨hop, hblank⟩, hsingle⟩, hdouble⟩, hback⟩, hdollar⟩, htick⟩ := h
  simp [plainStep, hop, hblank, hsingle, hdouble, hback, hdollar, htick]

/-- Ordinary characters stay as they are. -/
theorem lexRun_ordinary (h : ∀ c ∈ s, isOrdinary c = true) (w : Word) :
    lexRun (.plain w) s = some (.plain (w ++ plainWord s), []) := by
  induction s generalizing w with
  | nil => simp [lexRun, plainWord]
  | cons c s ih =>
    rw [List.forall_mem_cons] at h
    simp [lexRun, lexStep, plainStep_ordinary h.1, ih h.2, plainWord]

/-- A word that begins with an ordinary character. -/
theorem lexRun_blank (h : isOrdinary c = true) (hc : c ≠ '#') (s : Str) :
    lexRun .blank (c :: s) = lexRun (.plain []) (c :: s) := by
  have hstep : lexStep .blank c = lexStep (.plain []) c := by
    have hord := h
    simp only [isOrdinary, Bool.and_eq_true, Bool.not_eq_true'] at hord
    simp only [lexStep, hord.1.1.1.1.1.1, hord.1.1.1.1.1.2, hc, Bool.false_eq_true, if_false]
  rw [lexRun, hstep, lexRun]

end Shell

end AndroidAppliance
