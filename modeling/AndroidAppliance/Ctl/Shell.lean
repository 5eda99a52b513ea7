import AndroidAppliance.Ctl.Meant
import AndroidAppliance.Text.Base64
import AndroidAppliance.Text.Lines

/-!
# A shell command, and its answer

`androidctl shell` and `androidctl text`, which send their arguments as a text body, and the
handlers `text` and `shell` of `api.py`. The answer to a shell command comes back in three
parts: the body is what it wrote to standard output, and two header fields hold the exit code and
the standard error, which `androidctl` reads with `sed`, `tail` and `base64`.

`shell_like_adb` is the comment above `cmd_shell`: the arguments form one command line, stdout and
stderr stay apart, and the exit status is that of the device command.
-/

namespace AndroidAppliance

namespace Ctl

open Request (Raise Interpreter badRequest)
open Text (Codes)
open Files (Bytes)
open Json (PyFloat)

/-! ### `androidctl` -/

/-- A request of `post_text`. -/
structure TextSent where
  target : Str
  contentType : Str
  body : Bytes
  deriving DecidableEq, Repr

/-- `post_text`. -/
def postText (target : Str) (body : Bytes) : TextSent :=
  ⟨target, "text/plain; charset=utf-8".toList, body⟩

/-- `$*`. -/
def joined (args : List Bytes) : Bytes := [0x20].intercalate args

/-- `text`, with arguments. -/
def cmdText (args : List Bytes) : TextSent := postText "/input/text".toList (joined args)

/-- The request of `cmd_shell`, with arguments and nothing on standard input. -/
def cmdShell (args : List Bytes) : TextSent := postText "/shell?format=raw".toList (joined args)

/-! ### `appliance/api.py` -/

/-- `STDERR_LIMIT`. -/
def stderrLimit : Nat := 16384

/-- `_is_text`. -/
def isText (contentType : Str) : Bool :=
  Str.strip (Str.partition ';' contentType).1 = "text/plain".toList

/-- `_text`. -/
def textBody (chunks : List Bytes) : Except Raise Codes := do
  let body ← Request.read Request.jsonLimit [] chunks
  match Utf8.text? body with
  | none => throw (badRequest "the body is not UTF-8 text".toList)
  | some text => Request.clean "body".toList (Codes.ofText text)

section Handlers

variable (py : Interpreter) (web : Framework)

/-- The handler `text`, up to the text and the method for the backend. -/
def apiText (contentType target : Str) (chunks : List Bytes) : Except Raise (Codes × Codes) := do
  if isText contentType then
    let text ← textBody chunks
    return (text, Codes.ofText ((web.queryParam target "method").getD "paste".toList))
  else
    let data ← Request.json py chunks
    return (← Request.string data "text".toList none,
      ← Request.string data "method".toList (some (Codes.ofText "paste".toList)))

/-- The handler `shell`, up to the command and the timeout for the backend. `float` is Python's, of
a text; `none` is a `ValueError`. -/
def apiShell (float : Str → Option PyFloat) (contentType target : Str) (chunks : List Bytes) :
    Except Raise (Codes × Option Request.Num) := do
  if isText contentType then
    let command ← textBody chunks
    let value ←
      match web.queryParam target "timeout" with
      | none | some [] => pure (.finite 300)
      | some raw =>
        match float raw with
        | none => throw (badRequest (Request.about "timeout".toList "must be a number".toList))
        | some x => pure x
    return (command, ← Request.timeout (some (.float value)))
  else
    let data ← Request.json py chunks
    let command ← Request.string data "command".toList none
    let value ← Request.number data "timeout".toList (.int 300)
    return (command, ← Request.timeout value)

end Handlers

/-- `ShellResult`. -/
structure ShellResult where
  exitCode : Int
  stdout : Bytes
  stderr : Bytes
  deriving DecidableEq, Repr

/-- The answer of the handler `shell`. -/
inductive ShellAnswer
  | raw (headers : List (Str × Str)) (body : Bytes)
  | json (value : Json.Value)

/-- The header fields of the raw answer. -/
def shellHeaders (r : ShellResult) : List (Str × Str) :=
  [("X-Exit-Code".toList, Str.ofInt r.exitCode),
    ("X-Stderr".toList, Base64.encode (r.stderr.take stderrLimit))] ++
  if stderrLimit < r.stderr.length then [("X-Stderr-Truncated".toList, "1".toList)] else []

/-- The handler `shell`, of the result. -/
def shellAnswer (web : Framework) (target : Str) (r : ShellResult) : ShellAnswer :=
  if web.queryParam target "format" = some "raw".toList then .raw (shellHeaders r) r.stdout
  else
    let text (bytes : Bytes) : Json.Value := .str (Codes.ofText (Utf8.decode bytes))
    .json (.obj [(Codes.ofText "exit_code".toList, .int r.exitCode),
      (Codes.ofText "stdout".toList, text r.stdout),
      (Codes.ofText "stderr".toList, text r.stderr)])

/-! ### The answer on the terminal -/

/-- A header field, as `curl` writes it to `headers`; its name comes in small letters. -/
def fieldLine (field : Str × Str) : Str := Str.lower field.1 ++ ": ".toList ++ field.2 ++ ['\r']

/-- The file `headers`, as `curl -D` writes it of an answer that `uvicorn` sends: a line with the
status, the fields in their order, and an empty line. -/
structure Curl where
  headerFile : List (Str × Str) → Str
  headerFile_eq : ∀ fields, headerFile fields =
    Str.unlines ("HTTP/1.1 200 OK\r".toList :: fields.map fieldLine ++ ["\r".toList])

/-- `[[:space:]]`, of ASCII. -/
def isBlank (c : Char) : Bool := c = ' ' || (9 ≤ c.toNat && c.toNat ≤ 13)

/-- `sed -n "s/^$1:[[:space:]]*//Ip"`, of one line. -/
def sedField (name line : Str) : Option Str :=
  if Str.lower (line.take (name.length + 1)) = Str.lower name ++ [':'] then
    some ((line.drop (name.length + 1)).dropWhile isBlank)
  else none

/-- `header`: the last such line, if there is one. -/
def header (name : Str) (headers : Str) : Option Str :=
  (((Str.lines Str.isNewline headers).filterMap (sedField name)).map
    fun line => line.filter (· ≠ '\r')).getLast?

/-- `print_text`: `$(tail -c 1)` is empty for a newline, and for a zero byte. -/
def printText (bytes : Bytes) : Bytes :=
  match bytes.getLast? with
  | none => bytes
  | some b => if b = 0x0A ∨ b = 0 then bytes else bytes ++ [0x0A]

/-- What a user sees. -/
structure Terminal where
  stdout : Bytes
  stderr : Bytes
  status : Nat
  deriving DecidableEq, Repr

/-- A message of the script on standard error. -/
def message (text : String) : Bytes := Utf8.encode ("androidctl: ".toList ++ text.toList ++ ['\n'])

/-- `cmd_shell`, with the answer. -/
def cmdShellOutput (headers : Str) (body : Bytes) : Terminal :=
  let status := (header "X-Exit-Code".toList headers).getD []
  let stderr := Base64.decodeLines
    (((header "X-Stderr".toList headers).map fun line => line ++ ['\n']).getD [])
  let shown :=
    if header "X-Stderr-Truncated".toList headers = some "1".toList then
      printText stderr ++ message "the appliance truncated stderr"
    else stderr
  if Str.isDigits status then ⟨body, shown, min 255 (Str.int status)⟩
  -- `die`
  else ⟨body, shown ++ message "the appliance did not report an exit status", 1⟩

/-! ### The header file is read back -/

section Header

variable {curl : Curl} {name line : Str} {field : Str × Str} {fields : List (Str × Str)}

/-- A separator has no case. -/
theorem lowerChar_spec (c : Char) : Str.lowerChar (Str.lowerChar c) = Str.lowerChar c ∧
    ∀ sep ∈ [':', '\n'], (Str.lowerChar c = sep ↔ c = sep) := by
  by_cases hcapital : ('A' ≤ c ∧ c ≤ 'Z') ∨ (0xC0 ≤ c.toNat ∧ c.toNat ≤ 0xDE ∧ c.toNat ≠ 0xD7)
  · have hrange : (65 ≤ c.toNat ∧ c.toNat ≤ 90) ∨ (0xC0 ≤ c.toNat ∧ c.toNat ≤ 0xDE) :=
      hcapital.imp id fun h => ⟨h.1, h.2.1⟩
    have hvalid : (c.toNat + 32).isValidChar := .inl (by omega)
    have hcode : (Str.lowerChar c).toNat = c.toNat + 32 := by
      rw [Str.lowerChar, if_pos hcapital, Char.ofNat, dif_pos hvalid]
      rfl
    have hsmall : Str.lowerChar (Str.lowerChar c) = Str.lowerChar c := by
      refine if_neg ?_
      rintro (⟨-, hle⟩ | hle)
      · have hle' : (Str.lowerChar c).toNat ≤ 90 := hle
        omega
      · omega
    refine ⟨hsmall, fun sep hsep => ?_⟩
    have hsep' : sep.toNat = 58 ∨ sep.toNat = 10 := by
      rcases List.mem_cons.mp hsep with rfl | hsep
      · exact .inl rfl
      · rw [List.mem_singleton.mp hsep]
        exact .inr rfl
    refine iff_of_false ?_ ?_
    · rintro rfl
      omega
    · rintro rfl
      omega
  · have hsame : Str.lowerChar c = c := if_neg hcapital
    rw [hsame, hsame]
    exact ⟨rfl, fun _ _ => Iff.rfl⟩

/-- Small letters stay small. -/
theorem lower_lower (s : Str) : Str.lower (Str.lower s) = Str.lower s := by
  rw [Str.lower, Str.lower, List.map_map]
  exact List.map_congr_left fun c _ => (lowerChar_spec c).1

/-- The separators stay. -/
theorem mem_lower {sep : Char} (hsep : sep ∈ [':', '\n']) {s : Str} :
    sep ∈ Str.lower s ↔ sep ∈ s := by
  rw [Str.lower, List.mem_map]
  constructor
  · rintro ⟨c, hc, heq⟩
    rwa [← ((lowerChar_spec c).2 sep hsep).mp heq]
  · exact fun h => ⟨sep, h, ((lowerChar_spec sep).2 sep hsep).mpr rfl⟩

/-- So does a colon. -/
theorem colon_mem_lower {s : Str} : ':' ∈ Str.lower s ↔ ':' ∈ s := mem_lower (by decide)

/-- A field without a line end, and with a name that ends at the colon. -/
structure IsField (field : Str × Str) : Prop where
  colon : ':' ∉ field.1
  name : '\n' ∉ field.1
  value : '\n' ∉ field.2

/-- A line without a colon is no field. -/
theorem sedField_of_not_mem (h : ':' ∉ line) : sedField name line = none := by
  refine if_neg fun heq => h ?_
  have hcolon : ':' ∈ Str.lower (line.take (name.length + 1)) := by
    rw [heq]
    exact List.mem_append_right _ (List.mem_singleton.mpr rfl)
  exact List.mem_of_mem_take (colon_mem_lower.mp hcolon)

/-- A field of the name that is looked for, or of another one. -/
theorem sedField_fieldLine (hname : ':' ∉ name) (hfield : ':' ∉ field.1) :
    sedField name (fieldLine field) =
      if Str.lower field.1 = Str.lower name then
        some ((field.2 ++ ['\r']).dropWhile isBlank)
      else none := by
  have hline : fieldLine field = Str.lower field.1 ++ ':' :: ' ' :: (field.2 ++ ['\r']) := by
    simp [fieldLine]
  have hname' : ':' ∉ Str.lower name := fun h => hname (colon_mem_lower.mp h)
  have hfield' : ':' ∉ Str.lower field.1 := fun h => hfield (colon_mem_lower.mp h)
  by_cases heq : Str.lower field.1 = Str.lower name
  · have hlength : (Str.lower field.1 ++ [':']).length = name.length + 1 := by
      rw [heq, List.length_append, Str.lower, List.length_map]
      rfl
    have hsplit : fieldLine field = (Str.lower field.1 ++ [':']) ++ ' ' :: (field.2 ++ ['\r']) := by
      rw [hline]
      simp
    rw [if_pos heq, sedField, hsplit, List.take_left' hlength, List.drop_left' hlength, if_pos]
    · rfl
    · rw [← heq]
      change (Str.lower field.1 ++ [':']).map _ = _
      rw [List.map_append]
      exact congrArg (· ++ [':']) (lower_lower field.1)
  · rw [if_neg heq]
    refine if_neg fun hstart => heq ?_
    -- the line is the name of the pattern and a colon, and the rest
    have hrest : Str.lower (fieldLine field) =
        Str.lower name ++ ':' :: Str.lower ((fieldLine field).drop (name.length + 1)) := by
      conv_lhs => rw [← List.take_append_drop (name.length + 1) (fieldLine field)]
      change List.map _ _ = _
      rw [List.map_append]
      change Str.lower _ ++ Str.lower _ = _
      rw [hstart, List.append_assoc]
      rfl
    have hboth : Str.lower field.1 ++ ':' :: Str.lower (' ' :: (field.2 ++ ['\r'])) =
        Str.lower name ++ ':' :: Str.lower ((fieldLine field).drop (name.length + 1)) := by
      rw [← hrest, hline]
      change _ = List.map _ _
      rw [List.map_append]
      exact congrArg (· ++ _) (lower_lower field.1).symm
    exact (Str.append_sep_inj hfield' hname' hboth).1

/-- What `header` makes of the value of a field. -/
def fieldValue (value : Str) : Str :=
  ((value ++ ['\r']).dropWhile isBlank).filter (· ≠ '\r')

/-- A field is one line. -/
theorem newline_fieldLine (h : IsField field) : '\n' ∉ fieldLine field := by
  simp only [fieldLine, List.mem_append, not_or]
  exact ⟨⟨⟨mt (mem_lower (by decide)).mp h.name, by decide⟩, h.value⟩, by decide⟩

/-- `header` finds the last field of the name. -/
theorem header_headerFile (hname : ':' ∉ name) (hfields : ∀ f ∈ fields, IsField f) :
    header name (curl.headerFile fields) =
      ((fields.filter fun f => Str.lower f.1 = Str.lower name).map
        fun f => fieldValue f.2).getLast? := by
  have hlines : Str.lines Str.isNewline (curl.headerFile fields) =
      "HTTP/1.1 200 OK\r".toList :: fields.map fieldLine ++ ["\r".toList] := by
    rw [curl.headerFile_eq]
    refine Str.lines_unlines rfl fun l hl c hc => ?_
    have hfree : '\n' ∉ l := by
      rcases List.mem_append.mp hl with hl | hl
      · rcases List.mem_cons.mp hl with rfl | hl
        · decide
        · obtain ⟨f, hf, rfl⟩ := List.mem_map.mp hl
          exact newline_fieldLine (hfields f hf)
      · rw [List.mem_singleton.mp hl]
        decide
    exact decide_eq_false fun heq => hfree (heq ▸ hc)
  have hfilter : (fields.map fieldLine).filterMap (sedField name) =
      (fields.filter fun f => Str.lower f.1 = Str.lower name).map
        fun f => (f.2 ++ ['\r']).dropWhile isBlank := by
    clear hlines
    induction fields with
    | nil => rfl
    | cons f fields ih =>
      rw [List.map_cons, List.filterMap_cons, sedField_fieldLine hname
        (hfields f List.mem_cons_self).colon, List.filter_cons,
        ih fun g hg => hfields g (List.mem_cons_of_mem _ hg)]
      by_cases heq : Str.lower f.1 = Str.lower name
      · rw [if_pos heq, if_pos (decide_eq_true heq)]
        rfl
      · rw [if_neg heq, if_neg (by simpa using heq)]
  rw [header, hlines, List.filterMap_append, List.filterMap_cons,
    sedField_of_not_mem (by decide), hfilter, List.filterMap_cons, sedField_of_not_mem (by decide)]
  simp only [List.filterMap_nil, List.append_nil, List.map_map]
  rfl

/-- A value that is visible comes as it is. -/
theorem fieldValue_visible {value : Str} (h : ∀ c ∈ value, 0x21 ≤ c.toNat ∧ c.toNat < 0x7F) :
    fieldValue value = value := by
  have hfree : ∀ c ∈ value, c ≠ '\r' := by
    rintro c hc rfl
    exact absurd (h _ hc).1 (by decide)
  have hdrop : (value ++ ['\r']).dropWhile isBlank = value ++ ['\r'] ∨ value = [] := by
    cases value with
    | nil => exact .inr rfl
    | cons c value =>
      have hc := (h c List.mem_cons_self).1
      have hblank : isBlank c = false := by
        have hspace : c ≠ ' ' := by
          rintro rfl
          exact absurd hc (by decide)
        simp only [isBlank, decide_eq_false hspace, Bool.false_or, Bool.and_eq_false_iff,
          decide_eq_false_iff_not]
        omega
      exact .inl (List.dropWhile_cons_of_neg (by simp [hblank]))
  rcases hdrop with hdrop | rfl
  · rw [fieldValue, hdrop, List.filter_append, List.filter_eq_self.mpr (by simpa using hfree)]
    exact List.append_nil _
  · rfl

end Header

section Answer

variable {curl : Curl} {r : ShellResult} {before after : List (Str × Str)} {name : Str}

/-- The names of the answer, in small letters. -/
def shellNames : List Str :=
  ["x-exit-code".toList, "x-stderr".toList, "x-stderr-truncated".toList]

/-- A field of the server. -/
structure IsOther (field : Str × Str) : Prop extends IsField field where
  other : Str.lower field.1 ∉ shellNames

/-- A number is of visible ASCII. -/
theorem visible_ofInt {n : Int} {c : Char} (h : c ∈ Str.ofInt n) :
    0x21 ≤ c.toNat ∧ c.toNat < 0x7F := by
  have hdigits : ∀ {k : Nat}, c ∈ Str.ofNat k → 0x21 ≤ c.toNat ∧ c.toNat < 0x7F := by
    intro k hk
    have hdigit := Str.digit_toNat (Str.ofNat_digit hk)
    omega
  cases n with
  | ofNat k => exact hdigits h
  | negSucc k =>
    rcases List.mem_cons.mp h with rfl | h
    · decide
    · exact hdigits h

/-- What is visible has no newline. -/
theorem newline_of_visible {s : Str} (h : ∀ c ∈ s, 0x21 ≤ c.toNat ∧ c.toNat < 0x7F) : '\n' ∉ s :=
  fun hmem => absurd (h _ hmem).1 (by decide)

/-- The values of the headers are visible. -/
theorem visible_shellHeaders {f : Str × Str} (hf : f ∈ shellHeaders r) :
    ∀ c ∈ f.2, 0x21 ≤ c.toNat ∧ c.toNat < 0x7F := by
  simp only [shellHeaders, List.cons_append, List.nil_append, List.mem_cons] at hf
  rcases hf with rfl | rfl | hf
  · exact fun c => visible_ofInt
  · exact fun c => Base64.visible_encode
  · split at hf
    · rw [List.mem_singleton.mp hf]
      intro c hc
      have hone : c = '1' := List.mem_singleton.mp hc
      rw [hone]
      decide
    · exact absurd hf List.not_mem_nil

/-- So they are fields. -/
theorem isField_shellHeaders {f : Str × Str} (hf : f ∈ shellHeaders r) : IsField f := by
  have hvalue := newline_of_visible (visible_shellHeaders hf)
  simp only [shellHeaders, List.cons_append, List.nil_append, List.mem_cons] at hf
  rcases hf with rfl | rfl | hf
  · exact ⟨show ':' ∉ "X-Exit-Code".toList by decide, show '\n' ∉ "X-Exit-Code".toList by decide,
      hvalue⟩
  · exact ⟨show ':' ∉ "X-Stderr".toList by decide, show '\n' ∉ "X-Stderr".toList by decide, hvalue⟩
  · split at hf
    · rw [List.mem_singleton.mp hf]
      exact ⟨by decide, by decide, by decide⟩
    · exact absurd hf List.not_mem_nil

/-- The fields of the server do not matter. -/
theorem header_shell (hname : ':' ∉ name) (hmem : Str.lower name ∈ shellNames)
    (hbefore : ∀ f ∈ before, IsOther f) (hafter : ∀ f ∈ after, IsOther f) :
    header name (curl.headerFile (before ++ shellHeaders r ++ after)) =
      (((shellHeaders r).filter fun f => Str.lower f.1 = Str.lower name).map
        fun f => f.2).getLast? := by
  have hfields : ∀ f ∈ before ++ shellHeaders r ++ after, IsField f := by
    intro f hf
    rcases List.mem_append.mp hf with hf | hf
    · rcases List.mem_append.mp hf with hf | hf
      · exact (hbefore f hf).toIsField
      · exact isField_shellHeaders hf
    · exact (hafter f hf).toIsField
  have hother : ∀ fields : List (Str × Str), (∀ f ∈ fields, IsOther f) →
      fields.filter (fun f => Str.lower f.1 = Str.lower name) = [] := by
    intro fields h
    refine List.filter_eq_nil_iff.mpr fun f hf heq => (h f hf).other ?_
    rwa [of_decide_eq_true heq]
  have hvalues : ∀ f ∈ (shellHeaders r).filter fun f => Str.lower f.1 = Str.lower name,
      fieldValue f.2 = f.2 :=
    fun f hf => fieldValue_visible (visible_shellHeaders (List.mem_of_mem_filter hf))
  rw [header_headerFile hname hfields, List.filter_append, List.filter_append, hother _ hbefore,
    hother _ hafter, List.nil_append, List.append_nil, List.map_congr_left hvalues]

/-- The exit code is read among other headers. -/
theorem header_exitCode (hbefore : ∀ f ∈ before, IsOther f) (hafter : ∀ f ∈ after, IsOther f) :
    header "X-Exit-Code".toList (curl.headerFile (before ++ shellHeaders r ++ after)) =
      some (Str.ofInt r.exitCode) := by
  rw [header_shell (by decide) (by decide) hbefore hafter, shellHeaders]
  split <;> rfl

/-- So is the standard error. -/
theorem header_stderr (hbefore : ∀ f ∈ before, IsOther f) (hafter : ∀ f ∈ after, IsOther f) :
    header "X-Stderr".toList (curl.headerFile (before ++ shellHeaders r ++ after)) =
      some (Base64.encode (r.stderr.take stderrLimit)) := by
  rw [header_shell (by decide) (by decide) hbefore hafter, shellHeaders]
  split <;> rfl

/-- So is the mark of a text that was cut. -/
theorem header_truncated (hbefore : ∀ f ∈ before, IsOther f) (hafter : ∀ f ∈ after, IsOther f) :
    header "X-Stderr-Truncated".toList (curl.headerFile (before ++ shellHeaders r ++ after)) =
      if stderrLimit < r.stderr.length then some "1".toList else none := by
  rw [header_shell (by decide) (by decide) hbefore hafter, shellHeaders]
  split <;> rfl

/-- The standard error that is shown: the start of it, with a message, when it is long. -/
def shownStderr (stderr : Bytes) : Bytes :=
  if stderrLimit < stderr.length then
    printText (stderr.take stderrLimit) ++ message "the appliance truncated stderr"
  else stderr

/-- The result of a command, as `adb shell` shows it. A negative exit code is a signal to `adb`. -/
def shown (r : ShellResult) : Terminal :=
  if 0 ≤ r.exitCode then ⟨r.stdout, shownStderr r.stderr, r.exitCode.toNat⟩
  else
    ⟨r.stdout, shownStderr r.stderr ++ message "the appliance did not report an exit status", 1⟩

/-- **The answer of a command on the terminal.** -/
theorem cmdShellOutput_eq (hcode : r.exitCode ≤ 255) (hbefore : ∀ f ∈ before, IsOther f)
    (hafter : ∀ f ∈ after, IsOther f) :
    cmdShellOutput (curl.headerFile (before ++ shellHeaders r ++ after)) r.stdout = shown r := by
  have hstderr : (if stderrLimit < r.stderr.length then
      printText (r.stderr.take stderrLimit) ++ message "the appliance truncated stderr"
      else r.stderr.take stderrLimit) = shownStderr r.stderr := by
    unfold shownStderr
    split
    · rfl
    · exact List.take_of_length_le (by omega)
  have htruncated : ((if stderrLimit < r.stderr.length then some "1".toList else none) =
      some "1".toList) ↔ stderrLimit < r.stderr.length := by
    split <;> simp_all
  unfold cmdShellOutput shown
  rw [header_exitCode hbefore hafter, header_stderr hbefore hafter,
    header_truncated hbefore hafter]
  simp only [Option.getD_some, Option.map_some, Base64.decodeLines_encode, htruncated, hstderr]
  cases hexit : r.exitCode with
  | ofNat n =>
    have hn : n ≤ 255 := by
      rw [hexit] at hcode
      exact Int.ofNat_le.mp hcode
    have hdigits : Str.isDigits (Str.ofInt (.ofNat n)) = true := Str.isDigits_ofNat n
    have hint : Str.int (Str.ofInt (.ofNat n)) = n := Str.int_ofNat n
    rw [if_pos hdigits, hint, Nat.min_eq_right hn]
    exact (if_pos (Int.natCast_nonneg n)).symm
  | negSucc n =>
    have hnot : ¬Str.isDigits (Str.ofInt (.negSucc n)) = true := by
      simp [Str.isDigits, Str.ofInt, Char.isDigit]
    rw [if_neg hnot, if_neg (by omega)]

end Answer

/-! ### The command line -/

section Command

variable {chunks : List Bytes} {command : Codes}

/-- A text without a NUL is clean. -/
theorem clean_eq_ok {key : Str} {text : Str} :
    Request.clean key (Codes.ofText text) = .ok command ↔
      command = Codes.ofText text ∧ Char.ofNat 0 ∉ text := by
  have hnul : (Codes.ofText text).contains (.char (Char.ofNat 0)) = true ↔ Char.ofNat 0 ∈ text := by
    rw [List.contains_iff_mem, Codes.ofText, List.mem_map]
    constructor
    · rintro ⟨c, hc, heq⟩
      rwa [← Text.Code.char.inj heq]
    · exact fun h => ⟨_, h, rfl⟩
  unfold Request.clean
  rw [Codes.text?_ofText]
  by_cases hmem : Char.ofNat 0 ∈ text
  · rw [if_pos (hnul.mpr hmem)]
    constructor
    · intro h
      cases h
    · exact fun h => absurd hmem h.2
  · rw [if_neg (mt hnul.mp hmem)]
    exact ⟨fun h => ⟨(Except.ok.inj h).symm, hmem⟩, fun h => congrArg Except.ok h.1.symm⟩

/-- The bodies that are text. -/
theorem textBody_eq_ok : textBody chunks = .ok command ↔ ∃ text : Str,
    command = Codes.ofText text ∧ Utf8.encode text = chunks.flatten ∧ Char.ofNat 0 ∉ text ∧
      chunks.flatten.length ≤ Request.jsonLimit := by
  unfold textBody
  by_cases hlimit : chunks.flatten.length ≤ Request.jsonLimit
  · rw [Request.read_of_length_le [] hlimit, List.nil_append]
    change (match Utf8.text? chunks.flatten with
      | none => throw (badRequest "the body is not UTF-8 text".toList)
      | some text => Request.clean "body".toList (Codes.ofText text)) = _ ↔ _
    cases htext : Utf8.text? chunks.flatten with
    | none =>
      refine ⟨nofun, ?_⟩
      rintro ⟨text, -, hencode, -⟩
      rw [Utf8.text?_eq_some.mpr hencode] at htext
      cases htext
    | some text =>
      have hencode := Utf8.text?_eq_some.mp htext
      refine clean_eq_ok.trans ⟨fun h => ⟨text, h.1, hencode, h.2, hlimit⟩, ?_⟩
      rintro ⟨text', rfl, hencode', hnul, -⟩
      rw [Utf8.text?_eq_some.mpr hencode'] at htext
      cases htext
      exact ⟨rfl, hnul⟩
  · rw [Request.read_of_length_gt (Nat.zero_le _) (Nat.not_le.mp hlimit)]
    refine ⟨nofun, ?_⟩
    rintro ⟨-, -, -, -, hle⟩
    exact absurd hle hlimit

/-- What stands between the words is one space each. -/
structure Says (args : List Bytes) (command : Codes) : Prop where
  exists_text : ∃ text : Str, command = Codes.ofText text ∧
    Utf8.encode text = [0x20].intercalate args ∧ Char.ofNat 0 ∉ text
  length : ([0x20].intercalate args).length ≤ Request.jsonLimit

/-- **What the comment above `cmd_shell` says**, however the body is cut into chunks. -/
structure LikeAdb (py : Interpreter) (web : Framework) (curl : Curl)
    (float : Str → Option PyFloat) (args : List Bytes) : Prop where
  /-- The arguments form one command line, which is a text without a zero byte. -/
  command : ∀ chunks : List Bytes, chunks.flatten = (cmdShell args).body → ∀ command timeout,
    apiShell py web float (cmdShell args).contentType (cmdShell args).target chunks =
      .ok (command, timeout) ↔ Says args command ∧ timeout = some (.float (.finite 300))
  /-- The same with the text of `text`. -/
  text : ∀ chunks : List Bytes, chunks.flatten = (cmdText args).body → ∀ text method,
    apiText py web (cmdText args).contentType (cmdText args).target chunks = .ok (text, method) ↔
      Says args text ∧ method = Codes.ofText "paste".toList
  /-- Its result is what the terminal shows, between whatever fields the server adds. -/
  answer : ∀ r : ShellResult, r.exitCode ≤ 255 → ∃ headers body,
    shellAnswer web (cmdShell args).target r = .raw headers body ∧
      ∀ before after : List (Str × Str), (∀ f ∈ before, IsOther f) → (∀ f ∈ after, IsOther f) →
        cmdShellOutput (curl.headerFile (before ++ headers ++ after)) body = shown r

/-- The command is what was typed. -/
theorem says_iff {args : List Bytes} (h : chunks.flatten = joined args) :
    textBody chunks = .ok command ↔ Says args command := by
  rw [textBody_eq_ok, h]
  constructor
  · rintro ⟨text, rfl, hencode, hnul, hlength⟩
    exact ⟨⟨text, rfl, hencode, hnul⟩, hlength⟩
  · rintro ⟨⟨text, rfl, hencode, hnul⟩, hlength⟩
    exact ⟨text, rfl, hencode, hnul, hlength⟩

/-- The default of the timeout is accepted. -/
theorem timeout_default : Request.timeout (some (.float (.finite 300))) =
    .ok (some (.float (.finite 300))) := by
  have habove : Request.Num.above 0 (.float (.finite 300)) = true := by
    simp [Request.Num.above]
  have hmost : Request.Num.atMost Request.maxTimeout (.float (.finite 300)) = true := by
    simp only [Request.Num.atMost, Request.maxTimeout]
    norm_num
  rw [Request.timeout, habove, hmost]
  rfl

/-- A result that goes on with what was read. -/
theorem map_eq_ok {α : Type} {x : Except Raise Codes} {a : α} (f : Codes → Codes × α)
    (hf : ∀ c, f c = (c, a)) {b : α} : x.map f = .ok (command, b) ↔ x = .ok command ∧ b = a := by
  cases x with
  | error e => exact ⟨nofun, nofun⟩
  | ok c =>
    rw [Except.map, hf]
    constructor
    · intro h
      cases h
      exact ⟨rfl, rfl⟩
    · rintro ⟨h, rfl⟩
      cases h
      rfl

/-- `shell`, of the request of `cmd_shell`. -/
theorem apiShell_eq (py : Interpreter) (web : Framework) (float : Str → Option PyFloat)
    (args : List Bytes) :
    apiShell py web float (cmdShell args).contentType (cmdShell args).target chunks =
      (textBody chunks).map fun command => (command, some (.float (.finite 300))) := by
  have htext : isText (cmdShell args).contentType = true :=
    show isText "text/plain; charset=utf-8".toList = true by decide
  have htimeout : web.queryParam (cmdShell args).target "timeout" = none := by
    rw [web.queryParam_eq, show (cmdShell args).target = "/shell?format=raw".toList from rfl]
    decide
  unfold apiShell
  rw [if_pos htext, htimeout]
  cases textBody chunks with
  | error e => rfl
  | ok command =>
    change (Request.timeout (some (.float (.finite 300)))).bind
      (fun timeout => Except.ok (command, timeout)) = _
    rw [timeout_default]
    rfl

/-- `text`, of the request of `cmd_text`. -/
theorem apiText_eq (py : Interpreter) (web : Framework) (args : List Bytes) :
    apiText py web (cmdText args).contentType (cmdText args).target chunks =
      (textBody chunks).map fun text => (text, Codes.ofText "paste".toList) := by
  have htext : isText (cmdText args).contentType = true :=
    show isText "text/plain; charset=utf-8".toList = true by decide
  have hmethod : web.queryParam (cmdText args).target "method" = none := by
    rw [web.queryParam_eq, show (cmdText args).target = "/input/text".toList from rfl]
    decide
  unfold apiText
  rw [if_pos htext, hmethod]
  cases textBody chunks <;> rfl

theorem shell_like_adb (py : Interpreter) (web : Framework) (curl : Curl)
    (float : Str → Option PyFloat) (args : List Bytes) : LikeAdb py web curl float args where
  command chunks hchunks command timeout := by
    rw [apiShell_eq, map_eq_ok _ fun _ => rfl, says_iff hchunks]
  text chunks hchunks text method := by
    rw [apiText_eq, map_eq_ok _ fun _ => rfl, says_iff hchunks]
  answer r hcode := by
    have hraw : web.queryParam (cmdShell args).target "format" = some "raw".toList := by
      rw [web.queryParam_eq, show (cmdShell args).target = "/shell?format=raw".toList from rfl]
      decide
    exact ⟨shellHeaders r, r.stdout, if_pos hraw, fun _ _ => cmdShellOutput_eq hcode⟩

end Command

end Ctl

end AndroidAppliance
