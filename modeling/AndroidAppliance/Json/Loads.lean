import AndroidAppliance.Text.Str
import AndroidAppliance.Text.Utf16
import Mathlib.Data.Rat.Defs

/-!
# `json.loads`

Python's JSON reader as a machine over the text, one code point at a time: what is being read
(`Mode`) and the arrays and objects that are open (`Frame`). It takes what the standard does and
more: `NaN`, `Infinity` and halves of surrogate pairs. Integers with too many digits are refused,
and so is what is nested deeper than the interpreter allows, with an exception of its own.

Which exception it is depends on what comes first in the text; `loads_recursion_iff` puts it as a
bound on `nesting`, which knows no limit.
-/

namespace AndroidAppliance

namespace Json

open Text

/-- A `float`: its value as a fraction, unless it has none. -/
inductive PyFloat
  | nan
  | inf (negative : Bool)
  | finite (q : ℚ)
  deriving DecidableEq

/-- What `json.loads` returns; an object has its fields as the text has them. -/
inductive Value
  | null
  | bool (b : Bool)
  | int (n : Int)
  | float (x : PyFloat)
  | str (s : Codes)
  | arr (items : List Value)
  | obj (fields : List (Codes × Value))

/-- `data.get(key)` of a dictionary: of equal keys the last one counts. -/
def get (fields : List (Codes × Value)) (key : Codes) : Option Value :=
  (fields.reverse.find? (·.1 = key)).map (·.2)

/-! ### The machine -/

/-- An open array, with its items so far, or an open object, with its fields and its last key. -/
inductive Frame
  | arr (items : List Value)
  | obj (fields : List (Codes × Value)) (key : Codes)

/-- The part of a number that is read. -/
inductive NumState
  | minus | zero | int | dot | frac | exp | sign | expDigits
  deriving DecidableEq

/-- What the reader expects. -/
inductive Mode
  /-- In front of a value. -/
  | value
  /-- Behind the bracket of an array. -/
  | first
  /-- Behind the brace of an object. -/
  | firstKey
  /-- Behind a comma in an object. -/
  | key
  | colon
  /-- Behind a value in an array or an object. -/
  | behind
  /-- Behind the value of the text. -/
  | done (v : Value)
  /-- In a string; `high` is the escape in front, if it is the first half of a pair. -/
  | str (isKey : Bool) (s : Codes) (high : Option Nat)
  | escape (isKey : Bool) (s : Codes) (high : Option Nat)
  | hex (isKey : Bool) (s : Codes) (high : Option Nat) (digits : List Char)
  | num (state : NumState) (text : List Char)
  /-- In a literal, with what is left of it. -/
  | word (rest : List Char) (v : Value)

/-- Where the reader is, and what is open around it. -/
structure State where
  mode : Mode
  stack : List Frame

/-- The white space of JSON. -/
def isSpace (c : Char) : Bool := c = ' ' || c = '\t' || c = '\n' || c = '\r'

/-- A value is read. -/
def give (v : Value) : List Frame → State
  | [] => ⟨.done v, []⟩
  | .arr items :: stack => ⟨.behind, .arr (items ++ [v]) :: stack⟩
  | .obj fields key :: stack => ⟨.behind, .obj (fields ++ [(key, v)]) key :: stack⟩

/-- A string is read. -/
def giveString (isKey : Bool) (s : Codes) (stack : List Frame) : Option State :=
  if isKey then
    match stack with
    | .obj fields _ :: stack => some ⟨.colon, .obj fields s :: stack⟩
    | _ => none
  else some (give (.str s) stack)

/-- `sys.get_int_max_str_digits()`. -/
def maxStrDigits : Nat := 4300

/-- A character of a number. -/
def NumState.next : NumState → Char → Option NumState
  | .minus, c => if c = '0' then some .zero else if c.isDigit then some .int else none
  | .zero, c => if c = '.' then some .dot else if c = 'e' || c = 'E' then some .exp else none
  | .int, c =>
    if c.isDigit then some .int
    else if c = '.' then some .dot
    else if c = 'e' || c = 'E' then some .exp
    else none
  | .dot, c => if c.isDigit then some .frac else none
  | .frac, c =>
    if c.isDigit then some .frac else if c = 'e' || c = 'E' then some .exp else none
  | .exp, c =>
    if c = '+' || c = '-' then some .sign else if c.isDigit then some .expDigits else none
  | .sign, c => if c.isDigit then some .expDigits else none
  | .expDigits, c => if c.isDigit then some .expDigits else none

/-- `int(text)` of the text of an integer. -/
def intValue (text : List Char) : Option Value :=
  let digits := text.filter (· ≠ '-')
  if maxStrDigits < digits.length then none
  else some (.int (if text.head? = some '-' then -(Str.int digits : Int) else Str.int digits))

section Machine

-- `float(text)`
variable (float : List Char → PyFloat)

/-- The value of a number that has ended. -/
def numValue (state : NumState) (text : List Char) : Option Value :=
  match state with
  | .zero | .int => intValue text
  | .frac | .expDigits => some (.float (float text))
  | .minus | .dot | .exp | .sign => none

/-- A character behind a value. -/
def stepBehind (c : Char) (s : State) : Option State :=
  if isSpace c then some s
  else match s.stack with
  | [] => none
  | .arr items :: stack =>
    if c = ',' then some ⟨.value, s.stack⟩
    else if c = ']' then some (give (.arr items) stack)
    else none
  | .obj fields _ :: stack =>
    if c = ',' then some ⟨.key, s.stack⟩
    else if c = '}' then some (give (.obj fields) stack)
    else none

/-- A character that begins a value. -/
def stepValue (c : Char) (stack : List Frame) : Option State :=
  if c = '"' then some ⟨.str false [] none, stack⟩
  else if c = '{' then some ⟨.firstKey, .obj [] [] :: stack⟩
  else if c = '[' then some ⟨.first, .arr [] :: stack⟩
  else if c = 'n' then some ⟨.word "ull".toList .null, stack⟩
  else if c = 't' then some ⟨.word "rue".toList (.bool true), stack⟩
  else if c = 'f' then some ⟨.word "alse".toList (.bool false), stack⟩
  else if c = 'N' then some ⟨.word "aN".toList (.float .nan), stack⟩
  else if c = 'I' then some ⟨.word "nfinity".toList (.float (.inf false)), stack⟩
  else if c = '-' then some ⟨.num .minus [c], stack⟩
  else if c = '0' then some ⟨.num .zero [c], stack⟩
  else if c.isDigit then some ⟨.num .int [c], stack⟩
  else none

/-- What a backslash and a letter stand for. -/
def escaped (c : Char) : Option Char :=
  if c = '"' || c = '\\' || c = '/' then some c
  else if c = 'b' then some '\x08'
  else if c = 'f' then some '\x0c'
  else if c = 'n' then some '\n'
  else if c = 'r' then some '\r'
  else if c = 't' then some '\t'
  else none

/-- The value of a hexadecimal digit. -/
def hexDigit (c : Char) : Option Nat :=
  if c.isDigit then some (c.toNat - 48)
  else if 'a' ≤ c && c ≤ 'f' then some (c.toNat - 87)
  else if 'A' ≤ c && c ≤ 'F' then some (c.toNat - 55)
  else none

/-- An escape with four digits; a second half joins the first one in front of it. -/
def giveUnit (isKey : Bool) (s : Codes) (high : Option Nat) (u : Nat) : Mode :=
  match high with
  | some h =>
    if Utf16.isLow u then .str isKey (s.dropLast ++ [Utf16.pair h u]) none
    else .str isKey (s ++ [Utf16.single u]) (if Utf16.isHigh u then some u else none)
  | none => .str isKey (s ++ [Utf16.single u]) (if Utf16.isHigh u then some u else none)

/-- A character; `none` is a `ValueError`. -/
def stepChar (s : State) (c : Char) : Option State :=
  match s.mode with
  | .value => if isSpace c then some s else stepValue c s.stack
  | .first =>
    if isSpace c then some s
    else if c = ']' then stepBehind c s
    else stepValue c s.stack
  | .firstKey =>
    if isSpace c then some s
    else if c = '"' then some ⟨.str true [] none, s.stack⟩
    else if c = '}' then stepBehind c s
    else none
  | .key =>
    if isSpace c then some s else if c = '"' then some ⟨.str true [] none, s.stack⟩ else none
  | .colon => if isSpace c then some s else if c = ':' then some ⟨.value, s.stack⟩ else none
  | .behind | .done _ => stepBehind c s
  | .str isKey text high =>
    if c = '"' then giveString isKey text s.stack
    else if c = '\\' then some { s with mode := .escape isKey text high }
    else if c < ' ' then none
    else some { s with mode := .str isKey (text ++ [.char c]) none }
  | .escape isKey text high =>
    if c = 'u' then some { s with mode := .hex isKey text high [] }
    else (escaped c).map fun d => { s with mode := .str isKey (text ++ [.char d]) none }
  | .hex isKey text high digits => do
    let _ ← hexDigit c
    let digits := digits ++ [c]
    if digits.length < 4 then
      some { s with mode := .hex isKey text high digits }
    else
      let u := digits.foldl (fun n c => 16 * n + (hexDigit c).getD 0) 0
      some { s with mode := giveUnit isKey text high u }
  | .num state text =>
    if state = .minus && c = 'I' then
      some { s with mode := .word "nfinity".toList (.float (.inf true)) }
    else match state.next c with
      | some state => some { s with mode := .num state (text ++ [c]) }
      | none => (numValue float state text).bind fun v => stepBehind c (give v s.stack)
  | .word rest v =>
    match rest with
    | [] => none
    | d :: rest =>
      if c ≠ d then none
      else if rest.isEmpty then some (give v s.stack)
      else some { s with mode := .word rest v }

/-- A code point: half a pair stands in a string only. -/
def step (s : State) (code : Code) : Option State :=
  match code with
  | .char c => stepChar float s c
  | .lone _ =>
    match s.mode with
    | .str isKey text _ => some { s with mode := .str isKey (text ++ [code]) none }
    | _ => none

/-- The end of the text. -/
def finish (s : State) : Option Value :=
  match s.mode, s.stack with
  | .done v, _ => some v
  | .num state text, [] => numValue float state text
  | _, _ => none

end Machine

/-- The exceptions of `json.loads`. -/
inductive LoadError
  /-- A `ValueError`. -/
  | value
  /-- A `RecursionError`. -/
  | recursion
  deriving DecidableEq

/-- The machine with a limit on what is open at a time. -/
def run (float : List Char → PyFloat) (limit : Nat) : State → Codes → Except LoadError State
  | s, [] => .ok s
  | s, c :: text =>
    match step float s c with
    | none => .error .value
    | some s' => if limit < s'.stack.length then .error .recursion else run float limit s' text

/-- The beginning of a text. -/
def start : State := ⟨.value, []⟩

/-- `json.loads`. -/
def loads (float : List Char → PyFloat) (limit : Nat) (text : Codes) : Except LoadError Value :=
  match run float limit start text with
  | .error e => .error e
  | .ok s =>
    match finish float s with
    | some v => .ok v
    | none => .error .value

/-! ### Nesting -/

variable {float : List Char → PyFloat} {limit : Nat}

/-- How many arrays and objects are open at a time, until the text ends or is wrong. -/
def nestingFrom (float : List Char → PyFloat) : State → Codes → Nat
  | s, [] => s.stack.length
  | s, c :: text =>
    match step float s c with
    | none => s.stack.length
    | some s' => max s.stack.length (nestingFrom float s' text)

/-- How deep the values of a text are nested. -/
def nesting (float : List Char → PyFloat) (text : Codes) : Nat := nestingFrom float start text

theorem le_nestingFrom (s : State) (text : Codes) :
    s.stack.length ≤ nestingFrom float s text := by
  cases text with
  | nil => exact le_rfl
  | cons c text =>
    rw [nestingFrom]
    split
    · exact le_rfl
    · exact le_max_left _ _

theorem run_recursion_iff {s : State} (hs : s.stack.length ≤ limit) (text : Codes) :
    run float limit s text = .error .recursion ↔ limit < nestingFrom float s text := by
  induction text generalizing s with
  | nil =>
    refine ⟨fun h => (by cases h), fun h => ?_⟩
    rw [nestingFrom] at h
    omega
  | cons c text ih =>
    rw [run, nestingFrom]
    cases hstep : step float s c with
    | none =>
      refine ⟨fun h => (by cases h), fun h => ?_⟩
      dsimp only at h
      omega
    | some s' =>
      have hle : s'.stack.length ≤ nestingFrom float s' text := le_nestingFrom s' text
      dsimp only
      split
      · exact ⟨fun _ => by omega, fun _ => rfl⟩
      · rw [ih (by omega)]
        omega

/-- **The interpreter gives up** on a text if and only if it opens more at a time than it may. -/
theorem loads_recursion_iff (text : Codes) :
    loads float limit text = .error .recursion ↔ limit < nesting float text := by
  rw [nesting, ← run_recursion_iff (Nat.zero_le limit), loads]
  cases run float limit start text with
  | error e => simp
  | ok s => cases hfinish : finish float s <;> simp [hfinish]

end Json

end AndroidAppliance
