import AndroidAppliance.Json.Loads
import Mathlib.Data.Rat.Floor

/-!
# The validators of requests

The body and the fields of a JSON request, and the numbers of a query string, as `api.py` checks
them, with the exceptions that its own code does not catch: those of the JSON reader, of
`math.isfinite` and of `int`.

`Validated` is what the handlers rely on: every validator returns a value of its kind, or an
`ApiError` with the code `bad_request`. `validated_iff` says for which requests it holds.
-/

namespace AndroidAppliance

namespace Request

open Json Text

/-- What a validator can raise. -/
inductive Raise
  | api (code message : Str)
  | valueError
  | typeError
  | overflowError
  | recursionError
  deriving DecidableEq

/-- The parts of the interpreter: how it decodes a body (`none` is a `UnicodeDecodeError`), what
`float` makes of the text of a number, and how deep the JSON reader may nest. -/
structure Interpreter where
  decode : List UInt8 → Option Codes
  float : List Char → PyFloat
  limit : Nat

/-- The error of a bad request. -/
def badRequest (message : Str) : Raise := .api "bad_request".toList message

/-! ### Numbers -/

/-- `int | float`. -/
inductive Num
  | int (n : Int)
  | float (x : PyFloat)
  deriving DecidableEq

namespace Num

/-- The integers from here on are beyond the range of a `float`: what rounds to `2 ^ 1024`. -/
def floatRange : Nat := Nat.shiftLeft 1 1024 - Nat.shiftLeft 1 970

/-- `math.isfinite`. -/
def isfinite : Num → Except Raise Bool
  | int n => if n.natAbs < floatRange then .ok true else .error .overflowError
  | float (.finite _) => .ok true
  | float .nan | float (.inf _) => .ok false

/-- `k <= x`. -/
def atLeast (k : Int) : Num → Bool
  | int n => k ≤ n
  | float (.finite q) => (k : ℚ) ≤ q
  | float (.inf negative) => !negative
  | float .nan => false

/-- `k < x`. -/
def above (k : Int) : Num → Bool
  | int n => k < n
  | float (.finite q) => (k : ℚ) < q
  | float (.inf negative) => !negative
  | float .nan => false

/-- `x <= k`. -/
def atMost (k : Int) : Num → Bool
  | int n => n ≤ k
  | float (.finite q) => q ≤ k
  | float (.inf negative) => negative
  | float .nan => false

/-- `int(x)`. -/
def toInt : Num → Except Raise Int
  | int n => .ok n
  | float (.finite q) => .ok (q.num.tdiv q.den)
  | float .nan => .error .valueError
  | float (.inf _) => .error .overflowError

/-- A value that `isinstance(value, int | float)` takes and `isinstance(value, bool)` does not. -/
def of : Value → Option Num
  | .int n => some (.int n)
  | .float x => some (.float x)
  | .null | .bool _ | .str _ | .arr _ | .obj _ => none

end Num

/-! ### `appliance/api.py` -/

/-- The text of an `ApiError` about a field. -/
def about (key : Str) (text : Str) : Str := '\'' :: key ++ '\'' :: ' ' :: text

/-- The fields of a JSON object, in order. -/
abbrev Fields := List (Codes × Value)

/-- `JSON_LIMIT`. -/
def jsonLimit : Nat := 1048576

/-- `MAX_TIMEOUT`. -/
def maxTimeout : Nat := 86400

/-- `_read`, of the chunks of the body. -/
def read (limit : Nat) : List UInt8 → List (List UInt8) → Except Raise (List UInt8)
  | data, [] => .ok data
  | data, chunk :: chunks =>
    if limit < (data ++ chunk).length then
      .error (badRequest ("the request body exceeds ".toList ++ Str.ofNat limit ++
        " bytes".toList))
    else read limit (data ++ chunk) chunks

/-- A byte that `bytes.strip` takes off. -/
def isSpaceByte (b : UInt8) : Bool := b = 32 || (9 ≤ b && b ≤ 13)

/-- `_json`, behind `_read`. -/
def jsonBody (py : Interpreter) (body : List UInt8) : Except Raise Fields :=
  if body.all isSpaceByte then .ok []
  else match py.decode body with
  | none => .error (badRequest "the body is not valid JSON".toList)
  | some text =>
    match loads py.float py.limit text with
    | .error .value => .error (badRequest "the body is not valid JSON".toList)
    | .error .recursion => .error .recursionError
    | .ok (.obj fields) => .ok fields
    | .ok _ => .error (badRequest "the body must be a JSON object".toList)

/-- `_json`. -/
def json (py : Interpreter) (chunks : List (List UInt8)) : Except Raise Fields := do
  let body ← read jsonLimit [] chunks
  jsonBody py body

/-- `default` of `_number`: `_MISSING`, `None` or an integer. -/
inductive Default
  | missing
  | none
  | int (n : Int)

/-- The test of a number that `_number` and `number` share: `none` when it fails. -/
def finiteNumber (value : Value) : Except Raise (Option Num) :=
  match Num.of value with
  | none => .ok none
  | some x => do
    if ← x.isfinite then return some x
    else return none

/-- `_number`; `none` is `None`. -/
def number (data : Fields) (key : Str) (default : Default) : Except Raise (Option Num) :=
  match get data (Codes.ofText key), default with
  | none, .missing => .error (badRequest (about key "is required".toList))
  | none, .none => .ok none
  | none, .int n => .ok (some (.int n))
  -- `None` is the default itself
  | some .null, .none => .ok none
  | some value, _ =>
    match finiteNumber value with
    | .error e => .error e
    | .ok none => .error (badRequest (about key "must be a number".toList))
    | .ok (some x) => .ok (some x)

/-- `_duration`. -/
def duration (data : Fields) (key : Str) (default : Int) : Except Raise Int := do
  match ← number data key (.int default) with
  | none => throw .typeError
  | some value =>
    if value.atLeast 0 && value.atMost 60000 then value.toInt
    else throw (badRequest (about key "must be between 0 and 60000".toList))

/-- `_timeout`. -/
def timeout (value : Option Num) : Except Raise (Option Num) :=
  match value with
  | none => .ok none
  | some x =>
    if x.above 0 && x.atMost maxTimeout then .ok (some x)
    else .error (badRequest (about "timeout".toList ("must be more than 0 and at most ".toList ++
      Str.ofNat maxTimeout ++ " seconds".toList)))

/-- `_bool`. -/
def bool (data : Fields) (key : Str) (default : Bool) : Except Raise Bool :=
  match get data (Codes.ofText key) with
  | none => .ok default
  | some (.bool b) => .ok b
  | some _ => .error (badRequest (about key "must be true or false".toList))

/-- `_clean`; half a surrogate pair cannot be encoded. -/
def clean (key : Str) (value : Codes) : Except Raise Codes :=
  if value.contains (.char (Char.ofNat 0)) then
    .error (badRequest (about key "must not contain a NUL character".toList))
  else if (Codes.text? value).isNone then
    .error (badRequest (about key "is not valid Unicode text".toList))
  else .ok value

/-- `_string`; the default is `_MISSING` or a string. -/
def string (data : Fields) (key : Str) (default : Option Codes) : Except Raise Codes :=
  match get data (Codes.ofText key), default with
  | none, none => .error (badRequest (about key "is required".toList))
  | none, some value => clean key value
  | some (.str value), _ => clean key value
  | some _, _ => .error (badRequest (about key "must be a string".toList))

/-- `raw.isascii() and raw.isdigit()`. -/
def isAsciiDigits (raw : Codes) : Bool :=
  match raw.text? with
  | none => false
  | some text => Str.isDigits text

/-- `int(raw)` of ASCII digits. -/
def intOf (raw : Codes) : Except Raise Nat :=
  if maxStrDigits < raw.length then .error .valueError
  else .ok (Str.int ((raw.text?).getD []))

/-- `_query_int`, of the value in the query string. -/
def queryInt (raw : Option Codes) (key : Str) (default low high : Int) : Except Raise Int :=
  match raw with
  | none | some [] => .ok default
  | some raw => do
    let refuse := badRequest (about key ("must be an integer from ".toList ++ Str.ofInt low ++
      " to ".toList ++ Str.ofInt high))
    if !isAsciiDigits raw then throw refuse
    let n ← intOf raw
    if !(low ≤ (n : Int) && (n : Int) ≤ high) then throw refuse
    let n ← intOf raw
    return n

/-! ### `appliance/session.py` -/

/-- `number` of a session message, with the text of its error. -/
def sessionNumber (message : Fields) (key : Str) : Except Str Num :=
  match finiteNumber ((get message (Codes.ofText key)).getD .null) with
  | .ok none => .error (about key "must be a number".toList)
  | .ok (some x) => .ok x
  -- an integer beyond the range of a float
  | .error _ => .error (about key "must be a number".toList)

/-! ### What a validator promises -/

/-- A value of the kind, or an `ApiError` with the code `bad_request`. -/
def Fine {α : Type*} (r : Except Raise α) (kind : α → Prop) : Prop :=
  match r with
  | .ok a => kind a
  | .error (.api code _) => code = "bad_request".toList
  | .error .valueError | .error .typeError | .error .overflowError | .error .recursionError =>
    False

/-- What `_number` returns: the default, or a number that a `float` can hold. -/
def IsNumber (default : Default) : Option Num → Prop
  | none => default = .none
  | some x => (∃ n, default = .int n ∧ x = .int n) ∨ x.isfinite = .ok true

/-- The promises of the validators for a body and a value of the query string, and that the two
checks of a number accept the same values. -/
structure Validated (py : Interpreter) (chunks : List (List UInt8)) (raw : Option Codes) :
    Prop where
  json : Fine (json py chunks) fun _ => True
  number : ∀ data, Request.json py chunks = .ok data → ∀ key default,
    Fine (number data key default) (IsNumber default)
  duration : ∀ data, Request.json py chunks = .ok data → ∀ key default,
    Fine (duration data key default) fun n => 0 ≤ n ∧ n ≤ 60000
  timeout : ∀ value, Fine (timeout value) fun r =>
    ∀ x, r = some x → x.above 0 = true ∧ x.atMost maxTimeout = true
  bool : ∀ data, Request.json py chunks = .ok data → ∀ key default,
    Fine (bool data key default) fun _ => True
  string : ∀ data, Request.json py chunks = .ok data → ∀ key default,
    Fine (string data key default) fun s => ∃ text, s = Codes.ofText text ∧ Char.ofNat 0 ∉ text
  queryInt : ∀ key default low high,
    Fine (queryInt raw key default low high) fun n => n = default ∨ low ≤ n ∧ n ≤ high
  agree : ∀ data key,
    (Request.number data key .missing).isOk = (sessionNumber data key).isOk

/-- A request that takes nothing to its limits: the nesting of the body, the integers among its
fields and the digits of the value in the query string. -/
structure Harmless (py : Interpreter) (chunks : List (List UInt8)) (raw : Option Codes) :
    Prop where
  nesting : ∀ body text, read jsonLimit [] chunks = .ok body → body.all isSpaceByte = false →
    py.decode body = some text → nesting py.float text ≤ py.limit
  integers : ∀ body text fields, read jsonLimit [] chunks = .ok body →
    body.all isSpaceByte = false → py.decode body = some text →
    loads py.float py.limit text = .ok (.obj fields) →
    ∀ key n, get fields (Codes.ofText key) = some (.int n) → n.natAbs < Num.floatRange
  digits : ∀ s, raw = some s → isAsciiDigits s = true → s.length ≤ maxStrDigits

/-! ### One validator at a time -/

variable {py : Interpreter} {data : Fields} {key : Str}

@[simp]
theorem fine_ok {α : Type*} {a : α} {kind : α → Prop} : Fine (.ok a) kind ↔ kind a := Iff.rfl

@[simp]
theorem fine_badRequest {α : Type*} {kind : α → Prop} (message : Str) :
    Fine (.error (badRequest message) : Except Raise α) kind := rfl

/-- A body within the limit is read, however it is cut into chunks. -/
theorem read_of_length_le {limit : Nat} {chunks : List (List UInt8)} (data : List UInt8)
    (h : (data ++ chunks.flatten).length ≤ limit) :
    read limit data chunks = .ok (data ++ chunks.flatten) := by
  induction chunks generalizing data with
  | nil => simp [read]
  | cons chunk chunks ih =>
    rw [List.flatten_cons, ← List.append_assoc] at h ⊢
    rw [read, if_neg, ih _ h]
    rw [List.length_append] at h
    omega

/-- A longer one is refused at the chunk that passes the limit. -/
theorem read_of_length_gt {limit : Nat} {chunks : List (List UInt8)} {data : List UInt8}
    (hdata : data.length ≤ limit) (h : limit < (data ++ chunks.flatten).length) :
    read limit data chunks = .error (badRequest ("the request body exceeds ".toList ++
      Str.ofNat limit ++ " bytes".toList)) := by
  induction chunks generalizing data with
  | nil =>
    rw [List.flatten_nil, List.append_nil] at h
    omega
  | cons chunk chunks ih =>
    rw [List.flatten_cons, ← List.append_assoc] at h
    rw [read]
    split
    · rfl
    · rename_i hle
      exact ih (Nat.not_lt.mp hle) h

theorem read_fine (limit : Nat) (body : List UInt8) (chunks : List (List UInt8)) :
    Fine (read limit body chunks) fun _ => True := by
  induction chunks generalizing body with
  | nil => trivial
  | cons chunk chunks ih =>
    rw [read]
    split
    · exact fine_badRequest _
    · exact ih _

theorem jsonBody_fine_iff (body : List UInt8) : Fine (jsonBody py body) (fun _ => True) ↔
    (body.all isSpaceByte = false → ∀ text, py.decode body = some text →
      nesting py.float text ≤ py.limit) := by
  rw [jsonBody]
  split
  · rename_i hblank
    exact ⟨fun _ h => absurd hblank (by simp [h]), fun _ => trivial⟩
  rename_i hblank
  rw [Bool.not_eq_true] at hblank
  cases hdecode : py.decode body with
  | none => exact ⟨fun _ _ text htext => (by cases htext), fun _ => fine_badRequest _⟩
  | some text =>
    have hlimit : (body.all isSpaceByte = false → ∀ text', some text = some text' →
        nesting py.float text' ≤ py.limit) ↔ loads py.float py.limit text ≠ .error .recursion := by
      rw [Ne, loads_recursion_iff, Nat.not_lt]
      exact ⟨fun h => h hblank text rfl, fun h _ text' htext => Option.some.inj htext ▸ h⟩
    rw [hlimit]
    dsimp only
    cases hloads : loads py.float py.limit text with
    | error e =>
      cases e with
      | value => exact ⟨fun _ h => (by cases h), fun _ => fine_badRequest _⟩
      | recursion => exact ⟨fun h => h.elim, fun h => absurd rfl h⟩
    | ok value =>
      refine ⟨fun _ h => (by cases h), fun _ => ?_⟩
      cases value with
      | obj fields => trivial
      | null | bool | int | float | str | arr => exact fine_badRequest _

theorem isfinite_of_finiteNumber {value : Value} {x : Num}
    (h : finiteNumber value = .ok (some x)) : x.isfinite = .ok true := by
  unfold finiteNumber at h
  cases hof : Num.of value with
  | none =>
    rw [hof] at h
    cases h
  | some y =>
    rw [hof] at h
    cases hfinite : y.isfinite with
    | error e => simp [hfinite, bind, Except.bind] at h
    | ok b =>
      cases b with
      | false => simp [hfinite, bind, Except.bind, pure, Except.pure] at h
      | true =>
        simp only [hfinite, bind, Except.bind, pure, Except.pure, if_true, Except.ok.injEq,
          Option.some.injEq] at h
        rw [← h, hfinite]

/-- Where the test of a number raises: at integers beyond the range. -/
theorem finiteNumber_fine_iff (value : Value) : Fine (finiteNumber value) (fun _ => True) ↔
    ∀ n, value = .int n → n.natAbs < Num.floatRange := by
  cases value with
  | int n =>
    by_cases hn : n.natAbs < Num.floatRange
    · have hvalue : finiteNumber (.int n) = .ok (some (.int n)) := by
        simp only [finiteNumber, Num.of, Num.isfinite, if_pos hn]
        rfl
      rw [hvalue]
      exact ⟨fun _ m hm => Value.int.inj hm ▸ hn, fun _ => trivial⟩
    · have hvalue : finiteNumber (.int n) = .error .overflowError := by
        simp only [finiteNumber, Num.of, Num.isfinite, if_neg hn]
        rfl
      rw [hvalue]
      exact ⟨fun h => h.elim, fun h => absurd (h n rfl) hn⟩
  | float x =>
    refine ⟨fun _ n hn => (by cases hn), fun _ => ?_⟩
    cases x with
    | finite | nan | inf => trivial
  | null | bool | str | arr | obj => exact ⟨fun _ n hn => (by cases hn), fun _ => trivial⟩

/-- A value that is there and is not the default itself is tested. -/
theorem number_of_get {value : Value} {default : Default}
    (hget : get data (Codes.ofText key) = some value)
    (hnull : ¬(value = .null ∧ default = .none)) : number data key default =
      match finiteNumber value with
      | .error e => .error e
      | .ok none => .error (badRequest (about key "must be a number".toList))
      | .ok (some x) => .ok (some x) := by
  unfold number
  rw [hget]
  cases default with
  | none =>
    cases value with
    | null => exact absurd ⟨rfl, rfl⟩ hnull
    | bool | int | float | str | arr | obj => rfl
  | missing | int => cases value <;> rfl

theorem number_fine_iff (default : Default) :
    Fine (number data key default) (IsNumber default) ↔
      ∀ n, get data (Codes.ofText key) = some (.int n) → n.natAbs < Num.floatRange := by
  cases hget : get data (Codes.ofText key) with
  | none =>
    refine ⟨fun _ n hn => (by cases hn), fun _ => ?_⟩
    unfold number
    rw [hget]
    cases default with
    | missing => exact fine_badRequest _
    | none => rfl
    | int n => exact .inl ⟨n, rfl, rfl⟩
  | some value =>
    by_cases hnull : value = .null ∧ default = .none
    · obtain ⟨rfl, rfl⟩ := hnull
      refine ⟨fun _ n hn => (by cases hn), fun _ => ?_⟩
      unfold number
      rw [hget]
      rfl
    · simp only [Option.some.injEq]
      rw [← finiteNumber_fine_iff value, number_of_get hget hnull]
      cases hvalue : finiteNumber value with
      | error e => cases e <;> exact Iff.rfl
      | ok r =>
        cases r with
        | none => exact ⟨fun _ => trivial, fun _ => fine_badRequest _⟩
        | some x => exact ⟨fun _ => trivial, fun _ => .inr (isfinite_of_finiteNumber hvalue)⟩

/-- `int` cuts towards zero. -/
theorem toInt_fine {x : Num} (hge : x.atLeast 0 = true) (hle : x.atMost 60000 = true) :
    Fine x.toInt fun n => 0 ≤ n ∧ n ≤ 60000 := by
  cases x with
  | int n => exact ⟨by simpa [Num.atLeast] using hge, by simpa [Num.atMost] using hle⟩
  | float x =>
    cases x with
    | finite q =>
      simp only [Num.atLeast, Num.atMost, decide_eq_true_eq, Int.cast_zero] at hge hle
      have hfloor : q.num.tdiv q.den = ⌊q⌋ := by
        rw [Int.tdiv_eq_ediv_of_nonneg (Rat.num_nonneg.mpr hge), Rat.floor_def']
      have hcut : (⌊q⌋ : ℚ) ≤ (60000 : Int) := (Int.floor_le q).trans hle
      rw [Num.toInt, hfloor, fine_ok]
      exact ⟨Int.floor_nonneg.mpr hge, Int.cast_le.mp hcut⟩
    | nan => cases hge
    | inf negative => cases negative <;> [cases hle; cases hge]

theorem duration_fine (default : Int)
    (h : ∀ n, get data (Codes.ofText key) = some (.int n) → n.natAbs < Num.floatRange) :
    Fine (duration data key default) fun n => 0 ≤ n ∧ n ≤ 60000 := by
  have hnumber := (number_fine_iff (.int default)).mpr h
  unfold duration
  cases hvalue : number data key (.int default) with
  | error e =>
    rw [hvalue] at hnumber
    cases e <;> exact hnumber
  | ok r =>
    rw [hvalue] at hnumber
    cases r with
    | none => cases hnumber
    | some x =>
      simp only [bind, Except.bind]
      split
      · rename_i hrange
        rw [Bool.and_eq_true] at hrange
        exact toInt_fine hrange.1 hrange.2
      · exact fine_badRequest _

theorem timeout_fine (value : Option Num) : Fine (timeout value) fun r =>
    ∀ x, r = some x → x.above 0 = true ∧ x.atMost maxTimeout = true := by
  cases value with
  | none => exact fun x hx => by cases hx
  | some x =>
    rw [timeout]
    split
    · rename_i hrange
      rw [Bool.and_eq_true] at hrange
      exact fun y hy => Option.some.inj hy ▸ hrange
    · exact fine_badRequest _

theorem bool_fine (default : Bool) : Fine (bool data key default) fun _ => True := by
  unfold bool
  split
  · trivial
  · trivial
  · exact fine_badRequest _

theorem clean_fine (value : Codes) : Fine (clean key value) fun s =>
    ∃ text, s = Codes.ofText text ∧ Char.ofNat 0 ∉ text := by
  rw [clean]
  split
  · exact fine_badRequest _
  rename_i hnul
  split
  · exact fine_badRequest _
  · rename_i htext
    cases hvalue : Codes.text? value with
    | none =>
      rw [hvalue] at htext
      exact absurd rfl htext
    | some text =>
      have heq := Codes.eq_of_text? hvalue
      refine ⟨text, heq, fun hmem => hnul ?_⟩
      rw [heq, List.contains_iff_mem]
      exact List.mem_map_of_mem hmem

theorem string_fine (default : Option Codes) : Fine (string data key default) fun s =>
    ∃ text, s = Codes.ofText text ∧ Char.ofNat 0 ∉ text := by
  unfold string
  split
  · exact fine_badRequest _
  · exact clean_fine _
  · exact clean_fine _
  · exact fine_badRequest _

theorem queryInt_fine_iff (raw : Option Codes) (default low high : Int) :
    Fine (queryInt raw key default low high) (fun n => n = default ∨ low ≤ n ∧ n ≤ high) ↔
      ∀ s, raw = some s → isAsciiDigits s = true → s.length ≤ maxStrDigits := by
  unfold queryInt
  split
  · exact ⟨fun _ s hs => (by cases hs), fun _ => .inl rfl⟩
  · refine ⟨fun _ s hs hdigits => ?_, fun _ => .inl rfl⟩
    rw [← Option.some.inj hs]
    exact Nat.zero_le _
  · rename_i s _
    simp only [Option.some.injEq, forall_eq']
    cases hdigits : isAsciiDigits s with
    | false => exact ⟨fun _ h => (by cases h), fun _ => fine_badRequest _⟩
    | true =>
      by_cases hlong : maxStrDigits < s.length
      · have hint : intOf s = .error .valueError := if_pos hlong
        simp only [hint]
        exact ⟨fun h => h.elim, fun h => absurd (h trivial) (Nat.not_le.mpr hlong)⟩
      · have hint : intOf s = .ok _ := if_neg hlong
        refine ⟨fun _ _ => Nat.not_lt.mp hlong, fun _ => ?_⟩
        simp only [hint, Bool.not_true, Bool.false_eq_true, if_false, bind, Except.bind, pure,
          Except.pure]
        split
        · exact fine_badRequest _
        · rename_i hrange
          rw [Bool.not_eq_true', Bool.not_eq_false, Bool.and_eq_true, decide_eq_true_eq,
            decide_eq_true_eq] at hrange
          exact .inr hrange

theorem number_agrees (data : Fields) (key : Str) :
    (number data key .missing).isOk = (sessionNumber data key).isOk := by
  unfold sessionNumber
  cases hget : get data (Codes.ofText key) with
  | none =>
    unfold number
    rw [hget]
    rfl
  | some value =>
    rw [number_of_get hget (fun h => by cases h.2), Option.getD_some]
    cases finiteNumber value with
    | error e => rfl
    | ok r => cases r <;> rfl

/-! ### All of them -/

theorem json_fine_iff (chunks : List (List UInt8)) : Fine (json py chunks) (fun _ => True) ↔
    ∀ body text, read jsonLimit [] chunks = .ok body → body.all isSpaceByte = false →
      py.decode body = some text → nesting py.float text ≤ py.limit := by
  have hread := read_fine jsonLimit [] chunks
  unfold json
  cases hbody : read jsonLimit [] chunks with
  | error e =>
    rw [hbody] at hread
    refine ⟨fun _ body text h => (by cases h), fun _ => ?_⟩
    cases e <;> exact hread
  | ok body =>
    have hiff : Fine (jsonBody py body) (fun _ => True) ↔ _ := jsonBody_fine_iff body
    refine ⟨fun h body' text hok hblank hdecode => ?_, fun h => hiff.mpr fun hblank text hdecode =>
      h body text rfl hblank hdecode⟩
    cases hok
    exact hiff.mp h hblank text hdecode

/-- The object of a body that is not blank comes from the JSON reader. -/
theorem json_eq_ok {chunks : List (List UInt8)} (h : json py chunks = .ok data) : data = [] ∨
    ∃ body text, read jsonLimit [] chunks = .ok body ∧ body.all isSpaceByte = false ∧
      py.decode body = some text ∧ loads py.float py.limit text = .ok (.obj data) := by
  unfold json at h
  cases hbody : read jsonLimit [] chunks with
  | error e =>
    rw [hbody] at h
    cases h
  | ok body =>
    rw [hbody] at h
    have hjson : jsonBody py body = .ok data := h
    unfold jsonBody at hjson
    split at hjson
    · cases hjson
      exact .inl rfl
    rename_i hblank
    rw [Bool.not_eq_true] at hblank
    split at hjson
    · cases hjson
    rename_i text hdecode
    split at hjson
    · cases hjson
    · cases hjson
    · rename_i fields hloads
      cases hjson
      exact .inr ⟨body, text, rfl, hblank, hdecode, hloads⟩
    · cases hjson

theorem json_of_loads {chunks : List (List UInt8)} {body : List UInt8} {text : Codes}
    (hbody : read jsonLimit [] chunks = .ok body) (hblank : body.all isSpaceByte = false)
    (hdecode : py.decode body = some text)
    (hloads : loads py.float py.limit text = .ok (.obj data)) : json py chunks = .ok data := by
  have hjson : jsonBody py body = .ok data := by
    simp only [jsonBody, hblank, hdecode, hloads, Bool.false_eq_true, if_false]
  unfold json
  rw [hbody]
  exact hjson

/-- **The validators keep their promises** if and only if the request takes nothing to its
limits. -/
theorem validated_iff (py : Interpreter) (chunks : List (List UInt8)) (raw : Option Codes) :
    Validated py chunks raw ↔ Harmless py chunks raw := by
  constructor
  · intro h
    exact {
      nesting := (json_fine_iff chunks).mp h.json
      integers := fun body text fields hbody hblank hdecode hloads key n hget =>
        (number_fine_iff .missing).mp
          (h.number fields (json_of_loads hbody hblank hdecode hloads) key .missing) n hget
      digits := (queryInt_fine_iff raw 0 0 0).mp (h.queryInt [] 0 0 0) }
  · intro h
    have hintegers : ∀ data, json py chunks = .ok data → ∀ key n,
        get data (Codes.ofText key) = some (.int n) → n.natAbs < Num.floatRange := by
      intro data hdata key n hget
      obtain rfl | ⟨body, text, hbody, hblank, hdecode, hloads⟩ := json_eq_ok hdata
      · cases hget
      · exact h.integers body text data hbody hblank hdecode hloads key n hget
    exact {
      json := (json_fine_iff chunks).mpr h.nesting
      number := fun data hdata key default =>
        (number_fine_iff default).mpr (hintegers data hdata key)
      duration := fun data hdata key default => duration_fine default (hintegers data hdata key)
      timeout := timeout_fine
      bool := fun data _ key default => bool_fine default
      string := fun data _ key default => string_fine default
      queryInt := fun key default low high => (queryInt_fine_iff raw default low high).mpr h.digits
      agree := number_agrees }

/-- An interpreter for ASCII, with room for a thousand nested arrays and objects. -/
def asciiInterpreter : Interpreter where
  decode body := some (body.map fun b => .char (Char.ofNat b.toNat))
  float _ := .finite 0
  limit := 1000

/-- The bytes of an ASCII text. -/
def bytesOf (text : Str) : List UInt8 := text.map fun c => UInt8.ofNat c.toNat

/-- An integer of 310 digits, 1001 brackets and 4301 digits: what the validators do not catch. -/
theorem requests_that_raise :
    (json asciiInterpreter [bytesOf ("\x7b\"timeout\":1".toList ++ List.replicate 309 '0' ++ ['}'])]
      >>= fun data => number data "timeout".toList .none) = .error .overflowError ∧
    json asciiInterpreter [bytesOf (List.replicate 1001 '[')] = .error .recursionError ∧
    queryInt (some (Codes.ofText (List.replicate 4301 '1'))) "lines".toList 200 1 100000 =
      .error .valueError := by
  refine ⟨by decide +kernel, ?_, by decide +kernel⟩
  have hlength : (json asciiInterpreter [bytesOf (List.replicate 1001 '[')]).map List.length =
      .error .recursionError := by decide +kernel
  cases hjson : json asciiInterpreter [bytesOf (List.replicate 1001 '[')] with
  | error e =>
    rw [hjson] at hlength
    exact congrArg _ (Except.error.inj hlength)
  | ok data =>
    rw [hjson] at hlength
    cases hlength

end Request

end AndroidAppliance
