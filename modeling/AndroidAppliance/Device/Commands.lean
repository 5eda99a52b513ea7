import AndroidAppliance.Device.Listing
import AndroidAppliance.Shell.Simple

/-!
# The commands for the device

The command strings of `appliance/backend.py`, with the values that get into them: paths, which
`quote` puts in single quotes, and packages, components and key names, which go in as they are
because `PACKAGE`, `COMPONENT` and `resolve_key` let pass a few characters only.

`COMPONENT` lets `$` pass, and the shell expands it. `am_start_iff` says exactly when it does not.
-/

namespace AndroidAppliance

namespace Device

open Shell

/-! ### `appliance/backend.py` and `appliance/input.py` -/

/-- What `quote` writes for a character. -/
def escaped (c : Char) : Str := if c = '\'' then "'\\''".toList else [c]

/-- `quote`. -/
def quote (value : Str) : Str := '\'' :: value.flatMap escaped ++ ['\'']

/-- `PACKAGE.fullmatch`: letters, digits and `_`, in two parts or more between dots, the first of
which begins with a letter. -/
def isPackage (s : Str) : Bool :=
  match s.splitOn '.' with
  | (c :: first) :: second :: rest =>
    (isNameStart c && c != '_') && first.all isNameChar &&
      (second :: rest).all fun part => !part.isEmpty && part.all isNameChar
  | _ => false

/-- `[A-Za-z0-9_.$]`. -/
def isComponentChar (c : Char) : Bool := isNameChar c || c = '.' || c = '$'

/-- `COMPONENT.fullmatch`: two parts with a slash between them. -/
def isComponent (s : Str) : Bool :=
  let parts := Str.partition '/' s
  (!parts.1.isEmpty && parts.1.all isComponentChar) &&
    (!parts.2.2.isEmpty && parts.2.2.all isComponentChar)

/-- The names of `KEYS`. -/
def keyNames : List Str :=
  ["HOME".toList, "BACK".toList, "APP_SWITCH".toList, "RECENTS".toList, "POWER".toList,
    "VOLUME_UP".toList, "VOLUME_DOWN".toList, "MENU".toList, "ENTER".toList, "TAB".toList,
    "DEL".toList, "FORWARD_DEL".toList, "ESCAPE".toList, "DPAD_UP".toList, "DPAD_DOWN".toList,
    "DPAD_LEFT".toList, "DPAD_RIGHT".toList, "MOVE_HOME".toList, "MOVE_END".toList,
    "PASTE".toList, "SPACE".toList] ++
  "ABCDEFGHIJKLMNOPQRSTUVWXYZ0123456789".toList.map fun c => [c]

/-- What `resolve_key` returns: an event of the emulator, or an argument. -/
inductive Resolved
  | event (name : Str)
  | argument (text : Str)
  deriving DecidableEq, Repr

/-- `resolve_key`, with the text of its `ValueError`. -/
def resolveKey (name : Str) : Except Str Resolved :=
  if name.isEmpty || !name.all isNameChar then
    .error ("invalid key name '".toList ++ name ++ ['\''])
  else
    let upper := name.map Char.toUpper
    let prefixed := "KEYCODE_".toList.isPrefixOf upper
    let short := if prefixed then upper.drop "KEYCODE_".toList.length else upper
    if short = "CAPS_LOCK".toList then
      .error "CAPS_LOCK is not supported: it sticks in the guest".toList
    else if Str.isDigits short && !prefixed then .ok (.argument short)
    else if keyNames.contains short then .ok (.event short)
    else .ok (.argument ("KEYCODE_".toList ++ short))

/-- The command of `_file_type`. -/
def statCommand (path : Str) : Str := "stat -L -c %F ".toList ++ quote path

/-- The command of `list_files`. -/
def listCommand (path : Str) : Str :=
  "if [ -d ".toList ++ (quote path ++ (" ]; then find ".toList ++ (quote (findPath path) ++
    ((" -mindepth 1 -maxdepth 1 -exec stat -c '%F|%s|%Y|%n' {} +; else " ++
      "stat -c '%F|%s|%Y|%n' ").toList ++ (quote path ++ "; fi".toList)))))

/-- The command of `_require_package`. -/
def pathCommand (package : Str) : Str := "pm path ".toList ++ package

/-- The command of `uninstall`. -/
def uninstallCommand (keepData : Bool) (package : Str) : Str :=
  (if keepData then "pm uninstall -k ".toList else "pm uninstall ".toList) ++ package

/-- The first command of `launch`. -/
def resolveCommand (package : Str) : Str :=
  ("cmd package resolve-activity --brief -a android.intent.action.MAIN " ++
    "-c android.intent.category.LAUNCHER ").toList ++ package

/-- The second one. -/
def startCommand (component : Str) : Str := "am start -n ".toList ++ component

/-- The command of `force_stop`. -/
def stopCommand (package : Str) : Str := "am force-stop ".toList ++ package

/-- The command of `key`. -/
def keyCommand (key : Str) : Str := "input keyevent ".toList ++ key

/-! ### Quoted values -/

variable {env : Env} {s value : Str} {w : Word}

/-- `quote` writes a value in single quotes. -/
theorem quote_eq (value : Str) : quote value = singleQuoted value := rfl

/-- A quoted value begins a word. -/
theorem lexRun_blank_quote (value : Str) :
    lexRun .blank (quote value) = some (.plain (quotedParts value), []) := by
  rw [quote_eq]
  exact lexRun_singleQuoted value []

/-- Nothing expands a quoted value. -/
theorem inert_quotedParts (value : Str) : Inert (quotedParts value) :=
  inert_of_parts (quotedParts_inert value) (List.cons_ne_nil _ _)

/-- A quoted value and what is behind it. -/
theorem tokens_quote (value rest : Str) :
    tokensFrom .blank (quote value ++ rest) = tokensFrom (.plain (quotedParts value)) rest := by
  rw [tokensFrom_append (lexRun_blank_quote value)]
  simp

/-- **A quoted value is one word**, which every environment leaves as it is. -/
theorem arguments_quote (env : Env) (value : Str) :
    tokens (quote value) = some [.word (quotedParts value)] ∧
      arguments env [quotedParts value] = some [value] := by
  constructor
  · have h := tokens_quote value []
    rw [List.append_nil] at h
    exact h
  · rw [arguments_inert (by simpa using inert_quotedParts value)]
    simp [textOf_quotedParts]

/-- A quoted value is one argument. -/
theorem expand_quoted (env : Env) (value : Str) :
    expand env (quotedParts value) = some [value] := by
  rw [expand_of_inert (inert_quotedParts value), textOf_quotedParts]

/-! ### The commands with a path -/

/-- The `stat` of a path. -/
theorem meaning_stat (env : Env) (path : Str) : meaning env (statCommand path) =
    some [.simple ["stat".toList, "-L".toList, "-c".toList, "%F".toList, path]] := by
  have h := meaning_template env "stat -L -c %F ".toList (quote path) "stat".toList
    ["-L".toList, "-c".toList, "%F".toList] (by decide +kernel) (by rfl) (by decide +kernel)
    (arguments_quote env path).1
  rw [expand_quoted] at h
  exact h

/-- The words in front of the path in the `stat` of `list_files`. -/
def statWords : List Word :=
  [plainWord "stat".toList, plainWord "-c".toList, quotedParts "%F|%s|%Y|%n".toList]

/-- The words behind the path in its `find`. -/
def findWords : List Word :=
  ["-mindepth".toList, ['1'], "-maxdepth".toList, ['1'], "-exec".toList].map plainWord ++
    statWords ++ [plainWord "{}".toList, plainWord ['+']]

/-- The fixed pieces of `listCommand`, between the paths. -/
def ifTokens : List Token :=
  [.word (plainWord "if".toList), .word (plainWord ['[']), .word (plainWord "-d".toList)]

/-- Behind the condition. -/
def thenTokens : List Token :=
  [.word (plainWord [']']), .op ';', .word (plainWord "then".toList),
    .word (plainWord "find".toList)]

/-- Behind the first path of the branches. -/
def elseTokens : List Token :=
  findWords.map .word ++ [.op ';', .word (plainWord "else".toList)] ++ statWords.map .word

/-- The end. -/
def fiTokens : List Token := [.word (plainWord "fi".toList)]

/-- The tokens of the command of `list_files`. -/
theorem tokens_list (path : Str) : tokens (listCommand path) = some
    (ifTokens ++ ([Token.word (quotedParts path)] ++ thenTokens ++
      ([Token.word (quotedParts (findPath path))] ++ elseTokens ++
        ([Token.word (quotedParts path), Token.op ';'] ++ fiTokens)))) := by
  have hif : lexRun .blank "if [ -d ".toList = some (.blank, ifTokens) := by decide +kernel
  have hthen : lexRun .blank "]; then find ".toList = some (.blank, thenTokens) := by
    decide +kernel
  have helse : lexRun .blank ("-mindepth 1 -maxdepth 1 -exec stat -c '%F|%s|%Y|%n' {} +; else " ++
      "stat -c '%F|%s|%Y|%n' ").toList = some (.blank, elseTokens) := by decide +kernel
  have hfi : tokensFrom .blank " fi".toList = some fiTokens := by decide +kernel
  have h := tokensFrom_append hif (quote path ++ (" ]; then find ".toList ++
    (quote (findPath path) ++
      ((" -mindepth 1 -maxdepth 1 -exec stat -c '%F|%s|%Y|%n' {} +; else " ++
        "stat -c '%F|%s|%Y|%n' ").toList ++ (quote path ++ "; fi".toList)))))
  rw [tokens_quote, tokensFrom_word _ (by decide +kernel) hthen, tokens_quote,
    tokensFrom_word _ (by decide +kernel) helse, tokens_quote,
    tokensFrom_semicolon _ (s := " fi".toList) (by decide +kernel), hfi] at h
  exact h

/-- The command of `list_files` is an `if` with three lists. -/
theorem parse_list (path : Str) : (tokens (listCommand path)).bind parse = some [.cond
    [.simple [plainWord ['['], plainWord "-d".toList, quotedParts path, plainWord [']']]]
    [.simple (plainWord "find".toList :: quotedParts (findPath path) :: findWords)]
    [.simple (statWords ++ [quotedParts path])]] := by
  rw [tokens_list]
  rfl

/-- Each path in it is one argument, as it is. -/
theorem meaning_list (env : Env) (path : Str) : meaning env (listCommand path) = some [.cond
    [.simple [['['], "-d".toList, path, [']']]]
    [.simple ["find".toList, findPath path, "-mindepth".toList, ['1'], "-maxdepth".toList, ['1'],
      "-exec".toList, "stat".toList, "-c".toList, "%F|%s|%Y|%n".toList, "{}".toList, ['+']]]
    [.simple ["stat".toList, "-c".toList, "%F|%s|%Y|%n".toList, path]]] := by
  have hfixed : ∀ w ∈ [plainWord ['['], plainWord "-d".toList, plainWord [']'],
      plainWord "find".toList] ++ findWords ++ statWords, Inert w := by decide +kernel
  simp only [List.cons_append, List.nil_append, List.forall_mem_cons, List.forall_mem_append]
    at hfixed
  obtain ⟨hopen, hd, hclose, hfind, hfinds, hstats⟩ := hfixed
  have htest : ∀ w ∈ [plainWord ['['], plainWord "-d".toList, quotedParts path, plainWord [']']],
      Inert w := by
    simp only [List.forall_mem_cons]
    exact ⟨hopen, hd, inert_quotedParts path, hclose, fun _ h => by cases h⟩
  have hyes : ∀ w ∈ plainWord "find".toList :: quotedParts (findPath path) :: findWords,
      Inert w := by
    simp only [List.forall_mem_cons]
    exact ⟨hfind, inert_quotedParts _, hfinds⟩
  have hno : ∀ w ∈ statWords ++ [quotedParts path], Inert w := by
    rw [List.forall_mem_append]
    exact ⟨hstats, by simpa using inert_quotedParts path⟩
  have hmeaning : meaning env (listCommand path) =
      ((tokens (listCommand path)).bind parse).bind (execAll env) := by
    simp only [meaning, Option.bind_eq_bind, Option.bind_assoc]
  rw [hmeaning, parse_list]
  simp only [Option.bind_some, execAll, Cmd.exec.eq_2, exec_inert htest, exec_inert hyes,
    exec_inert hno, Option.bind_eq_bind, Option.pure_def]
  have hvalue : textOf (quotedParts "%F|%s|%Y|%n".toList) = "%F|%s|%Y|%n".toList :=
    textOf_quotedParts _
  simp only [List.map_cons, List.map_nil, findWords, statWords, textOf_plainWord,
    textOf_quotedParts, hvalue, List.cons_append, List.nil_append]

/-! ### The commands with a name -/

/-- The characters of packages, components and keys. -/
def isArgumentChar (c : Char) : Bool := isComponentChar c || c = '/'

/-- A `$` in front of a letter, a digit, `_` or another `$`: the beginning of a parameter. -/
def hasParam : Str → Bool
  | c :: d :: s => (c = '$' && (isNameChar d || d = '$')) || hasParam (d :: s)
  | [_] | [] => false

/-- Without a `$` nothing is expanded. -/
theorem hasParam_of_notMem (h : '$' ∉ s) : hasParam s = false := by
  induction s with
  | nil => rfl
  | cons c s ih =>
    rw [List.mem_cons, not_or] at h
    cases s with
    | nil => rfl
    | cons d s => simp [hasParam, Ne.symm h.1, ih h.2]

/-- A class has none of the characters that it refuses. -/
theorem ne_of_isArgumentChar {c d : Char} (h : isArgumentChar c = true)
    (hd : isArgumentChar d = false) : c ≠ d := by
  rintro rfl
  rw [h] at hd
  cases hd

/-- A `$` apart, the characters of an argument stand for themselves. -/
theorem inert_of_isArgumentChar {c : Char} (h : isArgumentChar c = true) :
    (Part.char false c).Inert :=
  ⟨ne_of_isArgumentChar h (by decide), ne_of_isArgumentChar h (by decide),
    ne_of_isArgumentChar h (by decide), ne_of_isArgumentChar h (by decide)⟩

/-- They end no word. -/
theorem not_separator_of_isArgumentChar {c : Char} (h : isArgumentChar c = true) :
    isBlank c = false ∧ isOperator c = false := by
  have hne : ∀ d, isArgumentChar d = false → c ≠ d := fun d => ne_of_isArgumentChar h
  constructor
  · simp [isBlank, hne ' ' (by decide), hne '\t' (by decide)]
  · simp [isOperator, hne '\n' (by decide), hne ';' (by decide), hne '&' (by decide),
      hne '|' (by decide), hne '<' (by decide), hne '>' (by decide), hne '(' (by decide),
      hne ')' (by decide)]

/-- Only a `$` is more than a character of the word. -/
theorem plainStep_isArgumentChar {c : Char} (h : isArgumentChar c = true) (w : Word) :
    plainStep w c =
      some (if c = '$' then .dollar false w else .plain (w ++ [.char false c]), []) := by
  obtain ⟨hblank, hop⟩ := not_separator_of_isArgumentChar h
  have hne : ∀ d, isArgumentChar d = false → c ≠ d := fun d => ne_of_isArgumentChar h
  simp only [plainStep, hblank, hop, Bool.false_eq_true, if_false, hne '\'' (by decide),
    hne '"' (by decide), hne '\\' (by decide), hne (Char.ofNat 96) (by decide)]
  split <;> rfl

/-- An argument begins a word. -/
theorem tokensFrom_blank {s : Str} (hne : s ≠ []) (hs : ∀ c ∈ s, isArgumentChar c = true) :
    tokensFrom .blank s = tokensFrom (.plain []) s := by
  obtain ⟨c, s, rfl⟩ := List.exists_cons_of_ne_nil hne
  have h : isArgumentChar c = true := hs c List.mem_cons_self
  obtain ⟨hblank, hop⟩ := not_separator_of_isArgumentChar h
  have hstep : lexStep .blank c = lexStep (.plain []) c := by
    simp only [lexStep, hblank, hop, Bool.false_eq_true, if_false,
      ne_of_isArgumentChar h (d := '#') (by decide)]
  rw [tokensFrom, lexRun, hstep, tokensFrom, lexRun]

/-- A step in which no token ends. -/
theorem tokensFrom_step {m m' : Mode} {c : Char} (h : lexStep m c = some (m', [])) (s : Str) :
    tokensFrom m (c :: s) = tokensFrom m' s := by
  have hrun : lexRun m [c] = some (m', []) := by simp [lexRun, h]
  have happend := tokensFrom_append hrun s
  simpa using happend

/-- In front of a dot or a slash a `$` is a character. -/
theorem lexStep_dollar_of_not_param {d : Char} (h : isArgumentChar d = true)
    (hname : isNameChar d = false) (hdollar : d ≠ '$') (w : Word) :
    lexStep (.dollar false w) d = lexStep (.plain (w ++ [.char false '$'])) d := by
  have hne : ∀ e, isArgumentChar e = false → d ≠ e := fun e => ne_of_isArgumentChar h
  have hspecial : isSpecial d = false := by
    simp [isSpecial, hdollar, hne '@' (by decide), hne '*' (by decide), hne '#' (by decide),
      hne '?' (by decide), hne '-' (by decide), hne '!' (by decide)]
  simp only [isNameChar, Bool.or_eq_false_iff] at hname
  simp [lexStep, resume, hname, hspecial, hne '(' (by decide), hne '{' (by decide),
    hne '\'' (by decide), hne '"' (by decide)]

/-- **Without a parameter** the argument is one word, as it is written. -/
theorem tokensFrom_of_hasParam (hs : ∀ c ∈ s, isArgumentChar c = true) (h : hasParam s = false)
    (w : Word) : tokensFrom (.plain w) s = some [.word (w ++ plainWord s)] := by
  induction s generalizing w with
  | nil => simp [tokensFrom, lexRun, lexEnd, plainWord]
  | cons c s ih =>
    rw [List.forall_mem_cons] at hs
    have hstep : lexStep (.plain w) c = _ := plainStep_isArgumentChar hs.1 w
    rw [tokensFrom_step hstep]
    cases s with
    | nil => split <;> simp_all [tokensFrom, lexRun, lexEnd, plainWord]
    | cons d s =>
      simp only [hasParam, Bool.or_eq_false_iff, Bool.and_eq_false_imp, decide_eq_true_eq,
        decide_eq_false_iff_not] at h
      have hrest := ih hs.2 h.2 (w ++ [.char false c])
      rw [List.append_assoc] at hrest
      split
      · -- a dot or a slash is next, and the dollar stays
        rename_i hc
        subst hc
        have hdollar := lexStep_dollar_of_not_param (List.forall_mem_cons.mp hs.2).1
          (h.1 rfl).1 (h.1 rfl).2 w
        rw [tokensFrom, lexRun, hdollar]
        exact hrest
      · exact hrest

/-- An argument without a parameter gets to the command as it is. -/
theorem meaning_argument (env : Env) (head : Str) (name : Str) (names : List Str)
    (hhead : lexRun .blank head = some (.blank, (name :: names).map fun s => .word (plainWord s)))
    (hname : Begins (plainWord name)) (hinert : ∀ s ∈ name :: names, Inert (plainWord s))
    (hs : ∀ c ∈ s, isArgumentChar c = true) (hne : s ≠ []) (h : hasParam s = false) :
    meaning env (head ++ s) = some [.simple (name :: names ++ [s])] := by
  have hlast : tokensFrom .blank s = some [.word (plainWord s)] := by
    rw [tokensFrom_blank hne hs, tokensFrom_of_hasParam hs h]
    rfl
  have hparts : ∀ p ∈ plainWord s, p.Inert := by
    intro p hp
    obtain ⟨c, hc, rfl⟩ := List.mem_map.mp hp
    exact inert_of_isArgumentChar (hs c hc)
  have hword : expand env (plainWord s) = some [s] := by
    rw [expand_of_inert (inert_of_parts hparts (by simpa [plainWord] using hne)),
      textOf_plainWord]
  rw [meaning_template env head s name names hhead hname hinert hlast, hword]
  rfl

/-! ### A parameter in a component -/

/-- No parameters, and no files. -/
def bareEnv : Env where
  param p := if p = .special '$' then some ['1'] else none
  files _ := []

/-- The dollars that a word has for `bareEnv`. -/
def dollarsOf (w : Word) : Nat := (w.map (Part.count bareEnv '$')).sum

/-- The same for an open word; one of its own for a `$` that nothing follows yet. -/
def openDollars : Mode → Nat
  | .plain w | .name _ w _ => dollarsOf w
  | .dollar _ w => dollarsOf w + 1
  | .blank | .comment | .escape _ _ | .single _ | .double _ => 0

/-- The modes that an unquoted argument goes through. -/
def Unquoted : Mode → Prop
  | .plain _ => True
  | .dollar q _ | .name q _ _ => q = false
  | .blank | .comment | .escape _ _ | .single _ | .double _ => False

variable {m : Mode} {c : Char}

/-- A parameter without a value has no `$`. -/
theorem count_param (q : Bool) (p : Param) : (Part.param q p).count bareEnv '$' = 0 := by
  by_cases hp : p = .special '$'
  · subst hp
    rfl
  · simp [Part.count, Env.value, bareEnv, hp]

/-- So it adds none to a word. -/
theorem dollarsOf_param (w : Word) (q : Bool) (p : Param) :
    dollarsOf (w ++ [.param q p]) = dollarsOf w := by
  simp [dollarsOf, count_param]

/-- A character adds one if it is one. -/
theorem dollarsOf_char (w : Word) (q : Bool) (c : Char) :
    dollarsOf (w ++ [.char q c]) = dollarsOf w + if c = '$' then 1 else 0 := by
  simp [dollarsOf, Part.count]

/-- A step within an argument. -/
theorem plainStep_unquoted (hc : isArgumentChar c = true) (w : Word) :
    ∃ m', plainStep w c = some (m', []) ∧ Unquoted m' ∧
      openDollars m' = dollarsOf w + if c = '$' then 1 else 0 := by
  refine ⟨_, plainStep_isArgumentChar hc w, ?_⟩
  split
  · exact ⟨rfl, rfl⟩
  · rename_i hdollar
    exact ⟨trivial, by rw [openDollars, dollarsOf_char, if_neg hdollar]⟩

/-- The `$` of a parameter is gone. -/
theorem lexStep_param (hc : isNameChar c = true ∨ c = '$') (w : Word) :
    ∃ m', lexStep (.dollar false w) c = some (m', []) ∧ Unquoted m' ∧
      openDollars m' = dollarsOf w := by
  by_cases hstart : isNameStart c = true
  · exact ⟨.name false w [c], by simp [lexStep, hstart], rfl, rfl⟩
  · by_cases hdigit : c.isDigit = true
    · refine ⟨.plain (w ++ [.param false (.positional c)]), ?_, trivial, ?_⟩
      · simp [lexStep, hstart, hdigit, resumed]
      · rw [openDollars, dollarsOf_param]
    · have hdollar : c = '$' := hc.resolve_left (by simp [isNameChar, hstart, hdigit])
      subst hdollar
      refine ⟨.plain (w ++ [.param false (.special '$')]), rfl, trivial, ?_⟩
      rw [openDollars, dollarsOf_param]

/-- One character brings no dollar but itself. -/
theorem lexStep_unquoted (hm : Unquoted m) (hc : isArgumentChar c = true) :
    ∃ m', lexStep m c = some (m', []) ∧ Unquoted m' ∧
      openDollars m' ≤ openDollars m + if c = '$' then 1 else 0 := by
  cases m with
  | plain w =>
    obtain ⟨m', hstep, hm', hle⟩ := plainStep_unquoted hc w
    exact ⟨m', hstep, hm', hle.le⟩
  | dollar q w =>
    cases hm
    by_cases hparam : isNameChar c = true ∨ c = '$'
    · obtain ⟨m', hstep, hm', heq⟩ := lexStep_param hparam w
      exact ⟨m', hstep, hm', by rw [heq, openDollars]; omega⟩
    · rw [not_or, Bool.not_eq_true] at hparam
      rw [lexStep_dollar_of_not_param hc hparam.1 hparam.2]
      obtain ⟨m', hstep, hm', heq⟩ := plainStep_unquoted hc (w ++ [.char false '$'])
      exact ⟨m', hstep, hm', by rw [heq, dollarsOf_char, openDollars, if_pos rfl]⟩
  | name q w n =>
    cases hm
    by_cases hname : isNameChar c = true
    · exact ⟨.name false w (n ++ [c]), by simp [lexStep, hname], rfl, Nat.le_add_right _ _⟩
    · obtain ⟨m', hstep, hm', heq⟩ :=
        plainStep_unquoted hc (w ++ [.param false (.variable n)])
      refine ⟨m', by simpa [lexStep, hname, resume] using hstep, hm', ?_⟩
      rw [heq, dollarsOf_param, openDollars]
  | blank | comment | escape | single | double => exact hm.elim

/-- An argument ends as a word. -/
theorem lexEnd_unquoted (hm : Unquoted m) :
    ∃ w, lexEnd m = some [.word w] ∧ dollarsOf w ≤ openDollars m := by
  cases m with
  | plain w => exact ⟨w, rfl, le_rfl⟩
  | dollar q w =>
    cases hm
    exact ⟨_, rfl, by rw [dollarsOf_char, if_pos rfl, openDollars]⟩
  | name q w n =>
    cases hm
    exact ⟨_, rfl, by rw [dollarsOf_param, openDollars]⟩
  | blank | comment | escape | single | double => exact hm.elim

/-- An argument is one word, with its own dollars at most. -/
theorem tokensFrom_unquoted (hm : Unquoted m) (hs : ∀ c ∈ s, isArgumentChar c = true) :
    ∃ w, tokensFrom m s = some [.word w] ∧ dollarsOf w ≤ openDollars m + s.count '$' := by
  induction s generalizing m with
  | nil =>
    obtain ⟨w, hend, hle⟩ := lexEnd_unquoted hm
    exact ⟨w, by simp [tokensFrom, lexRun, hend], hle⟩
  | cons c s ih =>
    rw [List.forall_mem_cons] at hs
    obtain ⟨m', hstep, hm', hle⟩ := lexStep_unquoted hm hs.1
    obtain ⟨w, htokens, hw⟩ := ih hm' hs.2
    refine ⟨w, by rw [tokensFrom_step hstep, htokens], ?_⟩
    rw [List.count_cons]
    simp only [beq_iff_eq]
    omega

/-- An argument in which a parameter is expanded loses a `$`. -/
theorem tokensFrom_param (hc : isNameChar c = true ∨ c = '$')
    (hs : ∀ c ∈ s, isArgumentChar c = true) (w : Word) :
    ∃ w', tokensFrom (.dollar false w) (c :: s) = some [.word w'] ∧
      dollarsOf w' ≤ dollarsOf w + s.count '$' := by
  obtain ⟨m', hstep, hm', heq⟩ := lexStep_param hc w
  obtain ⟨w', htokens, hle⟩ := tokensFrom_unquoted hm' hs
  exact ⟨w', by rw [tokensFrom_step hstep, htokens], by rwa [← heq]⟩

/-- **With a parameter** a dollar is missing. -/
theorem tokensFrom_hasParam (hm : Unquoted m) (hs : ∀ c ∈ s, isArgumentChar c = true)
    (h : hasParam s = true) :
    ∃ w, tokensFrom m s = some [.word w] ∧ dollarsOf w < openDollars m + s.count '$' := by
  induction s generalizing m with
  | nil => cases h
  | cons c s ih =>
    cases s with
    | nil => cases h
    | cons d s =>
      rw [List.forall_mem_cons] at hs
      by_cases hrest : hasParam (d :: s) = true
      · obtain ⟨m', hstep, hm', hle⟩ := lexStep_unquoted hm hs.1
        obtain ⟨w, htokens, hw⟩ := ih hm' hs.2 hrest
        refine ⟨w, by rw [tokensFrom_step hstep, htokens], ?_⟩
        rw [List.count_cons]
        simp only [beq_iff_eq]
        omega
      · simp only [hasParam, hrest, Bool.or_false, Bool.and_eq_true, Bool.or_eq_true,
          decide_eq_true_eq] at h
        obtain ⟨rfl, hd⟩ := h
        -- the parameter begins here, unless the dollar belongs to one before it
        have hopen : ∀ w, openDollars m = dollarsOf w → lexStep m '$' = some (.dollar false w, []) →
            ∃ w', tokensFrom m ('$' :: d :: s) = some [.word w'] ∧
              dollarsOf w' < openDollars m + ('$' :: d :: s).count '$' := by
          intro w hw hstep
          obtain ⟨w', htokens, hle⟩ := tokensFrom_param hd (List.forall_mem_cons.mp hs.2).2 w
          refine ⟨w', by rw [tokensFrom_step hstep, htokens], ?_⟩
          have hcount := List.count_le_count_cons (a := '$') (b := d) (l := s)
          rw [List.count_cons_self]
          omega
        cases m with
        | plain w => exact hopen w rfl rfl
        | name q w n =>
          cases hm
          exact hopen (w ++ [.param false (.variable n)]) (by rw [openDollars, dollarsOf_param]) rfl
        | dollar q w =>
          cases hm
          obtain ⟨w', htokens, hle⟩ := tokensFrom_param (.inr rfl) hs.2 w
          refine ⟨w', htokens, ?_⟩
          rw [List.count_cons_self, openDollars]
          omega
        | blank | comment | escape | single | double => exact hm.elim

/-- **A word of fewer dollars** is another one, when there is nothing to expand to. -/
theorem expand_bareEnv_ne {w : Word} (h : dollarsOf w < s.count '$') :
    expand bareEnv w ≠ some [s] := by
  intro hexpand
  rw [expand] at hexpand
  split at hexpand
  · cases hexpand
  · have hglob : glob bareEnv = fun f => [f.map (·.2)] := by
      funext f
      simp [glob, bareEnv]
    rw [hglob, ← List.map_eq_flatMap, Option.some.injEq] at hexpand
    have hcount : (((Shell.fields bareEnv w).flatten).map (·.2)).count '$' ≤ dollarsOf w :=
      count_fields_le '$' w
    rw [List.map_flatten, hexpand] at hcount
    simp only [List.flatten_singleton] at hcount
    exact absurd h (Nat.not_lt.mpr hcount)

/-! ### What the checks let pass -/

/-- A name may stand in an argument. -/
theorem isArgumentChar_of_nameChar (h : isNameChar c = true) : isArgumentChar c = true := by
  simp [isArgumentChar, isComponentChar, h]

/-- A package is of names and dots. -/
theorem isPackage_chars {package : Str} (h : isPackage package = true) :
    package ≠ [] ∧ ∀ c ∈ package, isNameChar c = true ∨ c = '.' := by
  have hjoin : ['.'].intercalate (package.splitOn '.') = package := List.intercalate_splitOn '.'
  unfold isPackage at h
  split at h
  · rename_i c first second rest heq
    simp only [Bool.and_eq_true] at h
    obtain ⟨⟨⟨hstart, -⟩, hfirst⟩, hrest⟩ := h
    rw [heq] at hjoin
    refine ⟨?_, fun d hd => ?_⟩
    · rw [← hjoin, List.intercalate_cons_cons]
      simp
    · rw [← hjoin] at hd
      obtain hd | ⟨part, hpart, hd⟩ := Str.mem_intercalate hd
      · exact .inr hd
      · rcases List.mem_cons.mp hpart with rfl | hpart
        · rcases List.mem_cons.mp hd with rfl | hd
          · exact .inl (by simp [isNameChar, hstart])
          · exact .inl (List.all_eq_true.mp hfirst d hd)
        · have hall := List.all_eq_true.mp hrest part hpart
          rw [Bool.and_eq_true] at hall
          exact .inl (List.all_eq_true.mp hall.2 d hd)
  · cases h

/-- Nothing in it is expanded. -/
theorem isPackage_argument {package : Str} (h : isPackage package = true) :
    (∀ c ∈ package, isArgumentChar c = true) ∧ hasParam package = false := by
  obtain ⟨-, hchars⟩ := isPackage_chars h
  constructor
  · intro c hc
    obtain h | rfl := hchars c hc
    · exact isArgumentChar_of_nameChar h
    · rfl
  · refine hasParam_of_notMem fun hmem => ?_
    obtain h | h := hchars _ hmem <;> exact absurd h (by decide)

/-- A component is an argument. -/
theorem isComponent_chars {component : Str} (h : isComponent component = true) :
    component ≠ [] ∧ ∀ c ∈ component, isArgumentChar c = true := by
  simp only [isComponent, Bool.and_eq_true, Bool.not_eq_true', List.isEmpty_eq_false_iff] at h
  obtain ⟨⟨-, hfirst⟩, hne, hsecond⟩ := h
  have hsplit := (Str.partition_spec '/' component).2.resolve_right fun hspec => hne hspec.2
  have hclass : ∀ {part : Str}, part.all isComponentChar = true →
      ∀ c ∈ part, isArgumentChar c = true := by
    intro part hall c hc
    simp [isArgumentChar, List.all_eq_true.mp hall c hc]
  rw [hsplit]
  refine ⟨by simp, fun c hc => ?_⟩
  rcases List.mem_append.mp hc with hc | hc
  · exact hclass hfirst c hc
  · rcases List.mem_cons.mp hc with rfl | hc
    · rfl
    · exact hclass hsecond c hc

/-- A capital letter is a character of names, too. -/
theorem isNameChar_toUpper (h : isNameChar c = true) : isNameChar c.toUpper = true := by
  have hascii : ∀ n < 128, isNameChar (Char.ofNat n) = true →
      isNameChar (Char.ofNat n).toUpper = true := by decide +kernel
  have hlt : c.toNat < 128 := by
    simp only [isNameChar, isNameStart, Char.isDigit, Bool.or_eq_true, Bool.and_eq_true,
      decide_eq_true_eq, Char.le_def, UInt32.le_iff_toNat_le] at h
    have hz : 'z'.val.toNat = 122 := rfl
    have hZ : 'Z'.val.toNat = 90 := rfl
    have h9 : '9'.val.toNat = 57 := rfl
    show c.val.toNat < 128
    rcases h with ((h | h) | rfl) | h
    · omega
    · omega
    · decide
    · have hdigit := h.2
      omega
  rw [← Char.ofNat_toNat c] at h ⊢
  exact hascii c.toNat hlt h

/-- The name of a key is a name to the shell. -/
theorem resolveKey_chars {name key : Str} (h : resolveKey name = .ok (.argument key)) :
    key ≠ [] ∧ ∀ c ∈ key, isNameChar c = true := by
  unfold resolveKey at h
  split at h
  · cases h
  · rename_i hname
    simp only [Bool.or_eq_true, Bool.not_eq_true', not_or, Bool.not_eq_false] at hname
    have hupper : ∀ c ∈ name.map Char.toUpper, isNameChar c = true := by
      intro c hc
      obtain ⟨d, hd, rfl⟩ := List.mem_map.mp hc
      exact isNameChar_toUpper (List.all_eq_true.mp hname.2 d hd)
    have hshort : ∀ c ∈ (if "KEYCODE_".toList.isPrefixOf (name.map Char.toUpper) then
        (name.map Char.toUpper).drop "KEYCODE_".toList.length else name.map Char.toUpper),
        isNameChar c = true := by
      split
      · exact fun c hc => hupper c (List.mem_of_mem_drop hc)
      · exact hupper
    dsimp only at h
    generalize (if "KEYCODE_".toList.isPrefixOf (name.map Char.toUpper) then
      (name.map Char.toUpper).drop "KEYCODE_".toList.length else name.map Char.toUpper) = short
      at h hshort
    split at h
    · cases h
    · split at h
      · rename_i hdigits
        cases h
        simp only [Str.isDigits, Bool.and_eq_true, Bool.not_eq_true',
          List.isEmpty_eq_false_iff] at hdigits
        exact ⟨hdigits.1.1, hshort⟩
      · split at h
        · cases h
        · cases h
          refine ⟨by simp, fun c hc => ?_⟩
          rcases List.mem_append.mp hc with hc | hc
          · have hprefix : ∀ c ∈ "KEYCODE_".toList, isNameChar c = true :=
              Str.forall_mem_of_all (by decide +kernel)
            exact hprefix c hc
          · exact hshort c hc

/-! ### The commands as meant -/

/-- What the commands of a path, a package, a component and a key come to, word by word. -/
structure AsMeant (env : Env) (path package component key : Str) : Prop where
  /-- `quote` is undone, whatever the value is. -/
  value : ∀ v, ∃ w, tokens (quote v) = some [.word w] ∧ expand env w = some [v]
  stat : meaning env (statCommand path) =
    some [.simple ["stat".toList, "-L".toList, "-c".toList, "%F".toList, path]]
  list : meaning env (listCommand path) = some [.cond
    [.simple [['['], "-d".toList, path, [']']]]
    [.simple ["find".toList, findPath path, "-mindepth".toList, ['1'], "-maxdepth".toList, ['1'],
      "-exec".toList, "stat".toList, "-c".toList, "%F|%s|%Y|%n".toList, "{}".toList, ['+']]]
    [.simple ["stat".toList, "-c".toList, "%F|%s|%Y|%n".toList, path]]]
  require : meaning env (pathCommand package) =
    some [.simple ["pm".toList, "path".toList, package]]
  uninstall : meaning env (uninstallCommand false package) =
    some [.simple ["pm".toList, "uninstall".toList, package]]
  uninstallKeep : meaning env (uninstallCommand true package) =
    some [.simple ["pm".toList, "uninstall".toList, "-k".toList, package]]
  resolve : meaning env (resolveCommand package) = some [.simple ["cmd".toList, "package".toList,
    "resolve-activity".toList, "--brief".toList, "-a".toList,
    "android.intent.action.MAIN".toList, "-c".toList,
    "android.intent.category.LAUNCHER".toList, package]]
  start : meaning env (startCommand component) =
    some [.simple ["am".toList, "start".toList, "-n".toList, component]]
  stop : meaning env (stopCommand package) =
    some [.simple ["am".toList, "force-stop".toList, package]]
  key : meaning env (keyCommand key) =
    some [.simple ["input".toList, "keyevent".toList, key]]

/-- A component without a parameter is started as it is. -/
theorem meaning_start (env : Env) {component : Str} (h : isComponent component = true)
    (hparam : hasParam component = false) : meaning env (startCommand component) =
      some [.simple ["am".toList, "start".toList, "-n".toList, component]] :=
  meaning_argument env "am start -n ".toList "am".toList ["start".toList, "-n".toList]
    (by decide +kernel) (by rfl) (by decide +kernel) (isComponent_chars h).2 (isComponent_chars h).1
    hparam

/-- One with a parameter is not. -/
theorem meaning_start_ne {component : Str} (h : isComponent component = true)
    (hparam : hasParam component = true) : meaning bareEnv (startCommand component) ≠
      some [.simple ["am".toList, "start".toList, "-n".toList, component]] := by
  obtain ⟨hne, hs⟩ := isComponent_chars h
  obtain ⟨w, hplain, hlt⟩ := tokensFrom_hasParam (m := .plain []) trivial hs hparam
  have htokens : tokensFrom .blank component = some [.word w] := by
    rw [tokensFrom_blank hne hs, hplain]
  have hmeaning := meaning_template bareEnv "am start -n ".toList component "am".toList
    ["start".toList, "-n".toList] (by decide +kernel) (by rfl) (by decide +kernel) htokens
  intro hmeant
  have heq := hmeaning.symm.trans hmeant
  obtain ⟨result, hexpand, hresult⟩ := Option.map_eq_some_iff.mp heq
  have hwords : ["am".toList, "start".toList, "-n".toList] ++ result =
      ["am".toList, "start".toList, "-n".toList] ++ [component] :=
    Exec.simple.inj (List.cons.inj hresult).1
  rw [List.append_cancel_left hwords] at hexpand
  exact expand_bareEnv_ne (by simpa [openDollars, dollarsOf] using hlt) hexpand

/-- **The commands for the device are parsed as meant**, in every environment, if and only if the
component has no `$` that the shell takes for the beginning of a parameter. -/
theorem commands_as_meant_iff {path package component name key : Str}
    (hpackage : isPackage package = true) (hcomponent : isComponent component = true)
    (hkey : resolveKey name = .ok (.argument key)) :
    (∀ env, AsMeant env path package component key) ↔ hasParam component = false := by
  constructor
  · intro h
    rw [← Bool.not_eq_true]
    exact fun hparam => meaning_start_ne hcomponent hparam (h bareEnv).start
  · intro hparam env
    obtain ⟨hpackageArgument, hpackageParam⟩ := isPackage_argument hpackage
    obtain ⟨hkeyNe, hkeyChars⟩ := resolveKey_chars hkey
    have hkeyParam : hasParam key = false :=
      hasParam_of_notMem fun hmem => absurd (hkeyChars _ hmem) (by decide)
    -- the commands with the package differ in the words in front of it
    have htemplate : ∀ head name names, lexRun .blank head = some (.blank,
        (name :: names).map fun s => .word (plainWord s)) → Begins (plainWord name) →
        (∀ s ∈ name :: names, Inert (plainWord s)) →
        meaning env (head ++ package) = some [.simple (name :: names ++ [package])] :=
      fun head name names hhead hname hinert => meaning_argument env head name names hhead hname
        hinert hpackageArgument (isPackage_chars hpackage).1 hpackageParam
    exact {
      value := fun v => ⟨quotedParts v, (arguments_quote env v).1, expand_quoted env v⟩
      stat := meaning_stat env path
      list := meaning_list env path
      require := htemplate "pm path ".toList "pm".toList ["path".toList] (by decide +kernel)
        (by rfl) (by decide +kernel)
      uninstall := htemplate "pm uninstall ".toList "pm".toList ["uninstall".toList]
        (by decide +kernel) (by rfl) (by decide +kernel)
      uninstallKeep := htemplate "pm uninstall -k ".toList "pm".toList
        ["uninstall".toList, "-k".toList] (by decide +kernel) (by rfl) (by decide +kernel)
      resolve := htemplate _ "cmd".toList ["package".toList, "resolve-activity".toList,
        "--brief".toList, "-a".toList, "android.intent.action.MAIN".toList, "-c".toList,
        "android.intent.category.LAUNCHER".toList] (by decide +kernel) (by rfl) (by decide +kernel)
      start := meaning_start env hcomponent hparam
      stop := htemplate "am force-stop ".toList "am".toList ["force-stop".toList]
        (by decide +kernel) (by rfl) (by decide +kernel)
      key := meaning_argument env "input keyevent ".toList "input".toList ["keyevent".toList]
        (by decide +kernel) (by rfl) (by decide +kernel)
        (fun c hc => isArgumentChar_of_nameChar (hkeyChars c hc)) hkeyNe hkeyParam }

/-- A path with a quotation mark, a package, an activity and a key. -/
theorem commands_as_meant_plain : hasParam "org.example.app/.Main".toList = false ∧
    ∀ env, AsMeant env "/sdcard/it's $HOME".toList "org.example.app".toList
      "org.example.app/.Main".toList "KEYCODE_SEARCH".toList := by
  have hplain : hasParam "org.example.app/.Main".toList = false := by decide +kernel
  exact ⟨hplain, (@commands_as_meant_iff "/sdcard/it's $HOME".toList "org.example.app".toList
    "org.example.app/.Main".toList "search".toList "KEYCODE_SEARCH".toList (by decide +kernel)
    (by decide +kernel) (by rfl)).mpr hplain⟩

/-- An activity that is a nested class: the shell starts another one. -/
theorem start_nested_class : isComponent "org.example.app/.Main$Inner".toList = true ∧
    meaning bareEnv (startCommand "org.example.app/.Main$Inner".toList) =
      some [.simple ["am".toList, "start".toList, "-n".toList,
        "org.example.app/.Main".toList]] := by
  refine ⟨by decide +kernel, ?_⟩
  have htokens : tokensFrom .blank "org.example.app/.Main$Inner".toList =
      some [.word (plainWord "org.example.app/.Main".toList ++
        [.param false (.variable "Inner".toList)])] := by decide +kernel
  have hexpand : expand bareEnv (plainWord "org.example.app/.Main".toList ++
      [.param false (.variable "Inner".toList)]) = some ["org.example.app/.Main".toList] := by
    decide +kernel
  have h := meaning_template bareEnv "am start -n ".toList "org.example.app/.Main$Inner".toList
    "am".toList ["start".toList, "-n".toList] (by decide +kernel) (by rfl) (by decide +kernel)
    htokens
  rw [hexpand] at h
  exact h

end Device

end AndroidAppliance
