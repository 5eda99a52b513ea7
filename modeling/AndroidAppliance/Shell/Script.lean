import AndroidAppliance.Shell.Expansion

/-!
# Scripts

The part of the shell grammar with simple commands and `if`, and what a script comes to in an
environment: the argument list of each of its commands. The parser goes over the tokens with a
stack of open `if`s. Reserved words count where a command begins only. Other operators, other
reserved words, assignments and redirections are not read.
-/

namespace AndroidAppliance

namespace Shell

/-- A simple command, or an `if` with its lists. -/
inductive Cmd
  | simple (words : List Word)
  | cond (test yes no : List Cmd)

/-- A command with its arguments. -/
inductive Exec
  | simple (argv : List Str)
  | cond (test yes no : List Exec)

/-! ### The parser -/

/-- The part of an `if` that is read. -/
inductive Phase
  | test
  | yes (test : List Cmd)
  | no (test yes : List Cmd)

/-- An open `if`, with the commands before it. -/
structure Frame where
  outer : List Cmd
  phase : Phase

/-- The reader of a script. -/
structure Parser where
  /-- The words of the simple command. -/
  words : List Word
  /-- The commands before it in the same list. -/
  list : List Cmd
  stack : List Frame
  /-- A `fi` was read, and no separator since. -/
  closed : Bool

/-- The text of a word without quotes and parameters. -/
def literal (w : Word) : Option Str := w.mapM fun
  | .char false c => some c
  | .char true _ | .quotes | .param _ _ => none

/-- The reserved words that are not read. -/
def isUnread (s : Str) : Bool :=
  ["elif".toList, "do".toList, "done".toList, "case".toList, "esac".toList, "while".toList,
    "until".toList, "for".toList, "\x7b".toList, "\x7d".toList, "!".toList].contains s

/-- `name=`, in front of a command. -/
def isAssignment (w : Word) : Bool :=
  let isName : Part → Bool := fun
    | .char false c => isNameChar c
    | .char true _ | .quotes | .param _ _ => false
  let n := w.takeWhile isName
  !n.isEmpty && (w.drop n.length).head? = some (.char false '=')

/-- A word where a command begins. -/
def Parser.start (p : Parser) (w : Word) : Option Parser :=
  if literal w = some "if".toList then
    if p.closed then none else some ⟨[], [], ⟨p.list, .test⟩ :: p.stack, false⟩
  else if literal w = some "then".toList then
    match p.stack with
    | ⟨outer, .test⟩ :: stack =>
      if p.list.isEmpty then none else some ⟨[], [], ⟨outer, .yes p.list⟩ :: stack, false⟩
    | _ => none
  else if literal w = some "else".toList then
    match p.stack with
    | ⟨outer, .yes test⟩ :: stack =>
      if p.list.isEmpty then none else some ⟨[], [], ⟨outer, .no test p.list⟩ :: stack, false⟩
    | _ => none
  else if literal w = some "fi".toList then
    match p.stack with
    | ⟨outer, .yes test⟩ :: stack =>
      if p.list.isEmpty then none else some ⟨[], outer ++ [.cond test p.list []], stack, true⟩
    | ⟨outer, .no test yes⟩ :: stack =>
      if p.list.isEmpty then none else some ⟨[], outer ++ [.cond test yes p.list], stack, true⟩
    | _ => none
  else if p.closed || (literal w).any isUnread || isAssignment w then none
  else some { p with words := [w] }

/-- One token; `none` when the script is not read. -/
def Parser.step (p : Parser) : Token → Option Parser
  | .word w => if p.words.isEmpty then p.start w else some { p with words := p.words ++ [w] }
  | .op c =>
    if c = ';' || c = '\n' then
      if !p.words.isEmpty then some ⟨[], p.list ++ [.simple p.words], p.stack, false⟩
      else if p.closed then some { p with closed := false }
      else if c = '\n' then some p
      else none
    else none

/-- The end of the text. -/
def Parser.finish (p : Parser) : Option (List Cmd) :=
  if p.stack.isEmpty then
    some (if p.words.isEmpty then p.list else p.list ++ [.simple p.words])
  else none

/-- The commands of a script. -/
def parse (ts : List Token) : Option (List Cmd) :=
  (ts.foldlM Parser.step ⟨[], [], [], false⟩).bind Parser.finish

/-! ### What a script comes to -/

/-- The arguments of a simple command. -/
def arguments (env : Env) : List Word → Option (List Str)
  | [] => some []
  | w :: ws => do
    let first ← expand env w
    let rest ← arguments env ws
    return first ++ rest

mutual

/-- A command with the values of its words. -/
def Cmd.exec (env : Env) : Cmd → Option Exec
  | .simple words => (arguments env words).map .simple
  | .cond test yes no => do
    let test ← execAll env test
    let yes ← execAll env yes
    let no ← execAll env no
    return .cond test yes no

/-- The commands of a list. -/
def execAll (env : Env) : List Cmd → Option (List Exec)
  | [] => some []
  | c :: cs => do
    let first ← c.exec env
    let rest ← execAll env cs
    return first :: rest

end

/-- What the shell is told to do by a text. -/
def meaning (env : Env) (s : Str) : Option (List Exec) := do
  let ts ← tokens s
  let cmds ← parse ts
  execAll env cmds

/-! ### Inert arguments -/

variable {env : Env} {ws : List Word}

theorem arguments_append (env : Env) (ws ws' : List Word) : arguments env (ws ++ ws') = do
    let a ← arguments env ws
    let b ← arguments env ws'
    return a ++ b := by
  induction ws with
  | nil => cases h : arguments env ws' <;> simp [arguments, h]
  | cons w ws ih =>
    simp only [List.cons_append, arguments, ih]
    cases hw : expand env w with
    | none => rfl
    | some first =>
      cases ha : arguments env ws with
      | none => rfl
      | some a => cases arguments env ws' <;> simp

/-- Inert words are the arguments as they are. -/
theorem arguments_inert (h : ∀ w ∈ ws, Inert w) : arguments env ws = some (ws.map textOf) := by
  induction ws with
  | nil => rfl
  | cons w ws ih =>
    rw [List.forall_mem_cons] at h
    rw [arguments, expand_of_inert h.1, ih h.2]
    rfl

theorem exec_inert (h : ∀ w ∈ ws, Inert w) :
    (Cmd.simple ws).exec env = some (.simple (ws.map textOf)) := by
  rw [Cmd.exec, arguments_inert h]
  rfl

/-! ### One simple command -/

/-- A word that begins a command. -/
def Begins (w : Word) : Prop := Parser.start ⟨[], [], [], false⟩ w = some ⟨[w], [], [], false⟩

/-- Behind its first word, a command takes every word as it comes. -/
theorem foldlM_words (ws : List Word) {p : Parser} (h : p.words ≠ []) :
    (ws.map Token.word).foldlM Parser.step p = some { p with words := p.words ++ ws } := by
  induction ws generalizing p with
  | nil => simp
  | cons w ws ih =>
    have hstep : p.step (.word w) = some { p with words := p.words ++ [w] } := by
      rw [Parser.step, if_neg (by simpa using h)]
    rw [List.map_cons, List.foldlM_cons, hstep]
    simp [ih]

theorem parse_words {w : Word} (h : Begins w) (ws : List Word) :
    parse ((w :: ws).map .word) = some [.simple (w :: ws)] := by
  rw [parse, List.map_cons, List.foldlM_cons, Parser.step, if_pos (by rfl), h]
  simp [foldlM_words, Parser.finish]

theorem textOf_plainWord (s : Str) : textOf (plainWord s) = s := by
  rw [textOf, plainWord, List.filterMap_map]
  exact List.filterMap_some

/-- **A template for one command**: fixed words that nothing changes, and a last one. -/
theorem meaning_template (env : Env) (head tail : Str) {last : Word} (name : Str)
    (names : List Str)
    (hhead : lexRun .blank head = some (.blank, (name :: names).map fun s => .word (plainWord s)))
    (hname : Begins (plainWord name)) (hinert : ∀ s ∈ name :: names, Inert (plainWord s))
    (htail : tokensFrom .blank tail = some [.word last]) :
    meaning env (head ++ tail) =
      (expand env last).map fun fields => [.simple (name :: names ++ fields)] := by
  have htokens : tokens (head ++ tail) =
      some ((plainWord name :: (names.map plainWord ++ [last])).map .word) := by
    rw [tokens, tokensFrom_append hhead, htail]
    simp
  have harguments : arguments env ((name :: names).map plainWord) = some (name :: names) := by
    rw [arguments_inert (by simpa using hinert), List.map_map]
    exact congrArg some ((List.map_congr_left fun s _ => textOf_plainWord s).trans (List.map_id _))
  simp only [meaning, htokens, Option.bind_eq_bind, Option.bind_some, parse_words hname]
  rw [← List.cons_append, ← List.map_cons, execAll, Cmd.exec, arguments_append, harguments]
  cases hlast : expand env last <;> simp [arguments, hlast, execAll]

theorem tokensFrom_ordinary {s : Str} (h : ∀ c ∈ s, isOrdinary c = true) (hne : s ≠ [])
    (hcomment : s.head? ≠ some '#') : tokensFrom .blank s = some [.word (plainWord s)] := by
  obtain ⟨c, s, rfl⟩ := List.exists_cons_of_ne_nil hne
  have hc : c ≠ '#' := fun heq => hcomment (by rw [heq]; rfl)
  rw [tokensFrom, lexRun_blank (h c List.mem_cons_self) hc, lexRun_ordinary h]
  rfl

end Shell

end AndroidAppliance
