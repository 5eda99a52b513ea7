import AndroidAppliance.Device.Adb
import AndroidAppliance.Transition.Machine
import Mathlib.Data.List.Infix

/-!
# Transfers

The handlers `install`, `push` and `pull` of `appliance/api.py`, with `_save` and `_send_file`, and
their operations in `appliance/backend.py`. Each of them keeps what it carries in a temporary file
of the upload directory. The name of the file is random, so no other request has it: the machine
has one request and its file.

A label says what an awaited operation gave back. With `cut` the await raises: the task of the
request is cancelled, or its client is gone. Who removes the file: `file_gone`.
-/

namespace AndroidAppliance

namespace Files

/-- What a file holds. -/
abbrev Bytes := List UInt8

/-- `ApiError` and `OperationError`. -/
structure Failure where
  code : String
  message : Str
  deriving DecidableEq, Repr

/-- What a request raises. -/
inductive Error
  | failure (f : Failure)
  /-- An error of the lease, with its code. -/
  | lifecycle (code : String)
  /-- The request is cancelled, or its client is gone. -/
  | cut
  /-- Any other exception. -/
  | internal
  deriving DecidableEq, Repr

/-- What a request answers. -/
inductive Reply
  | output (text : Str)
  | bytes (size : Nat)
  /-- The body of a pull, to its end. -/
  | file
  deriving DecidableEq, Repr

/-- A failure that the request is to blame for. -/
def badRequest (message : Str) : Error := .failure { code := "bad_request", message }

/-! ### `adb` -/

/-- The end of an `adb` command, or of the wait for it. -/
inductive Adb
  | result (r : Device.Result)
  | timeout (text : Str)
  /-- `AdbError`, or an error of a connection. -/
  | error (detail : Str)
  /-- Any other exception. -/
  | internal
  deriving DecidableEq, Repr

/-- The body of `_use`, around one command. -/
def use : Adb → Except Error Device.Result
  | .result r => .ok r
  | .timeout text => .error (.failure { code := "timeout", message := text })
  | .error detail =>
    .error (.failure { code := "unavailable",
                       message := "the device did not answer: ".toList ++ detail })
  | .internal => .error .internal

/-- `_file_type`. -/
def fileType (r : Device.Result) : Option Str :=
  if r.exitCode = 0 then some (Str.strip r.text) else none

/-! ### Checks -/

/-- `_query_path`. -/
def queryPath : Option Str → Except Error Str
  | none | some [] => .error (badRequest "'path' is required".toList)
  | some path => .ok path

/-- A text in quotes. -/
def quoted (text : Str) : Str := '\'' :: text ++ ['\'']

/-- `_check_path`. -/
def checkPath (path : Str) : Except Error Unit :=
  if Device.checkPath path then .ok ()
  else .error (badRequest ("the device path must be absolute, not ".toList ++ quoted path))

/-- The checks of `Backend.push`. -/
def checkPush (path : Str) (name : Option Str) : Except Error Unit :=
  (checkPath path).bind fun _ =>
    match name with
    | some name =>
      if name = [] ∨ '/' ∈ name ∨ name = ['.'] ∨ name = ['.', '.'] ∨ Char.ofNat 0 ∈ name then
        .error (badRequest ("invalid file name ".toList ++ quoted name))
      else .ok ()
    | none =>
      if path.getLast? = some '/' then
        .error (badRequest "the device path must name a file, not a directory".toList)
      else .ok ()

/-- The path that `Backend.push` gives to `adb`, once it knows the type of the file there. -/
def pushPath (path : Str) (name kind : Option Str) : Except Error Str :=
  if kind = some "directory".toList then
    match name with
    | none =>
      .error (badRequest (path ++ " is a directory; give the path of the file".toList))
    | some name => .ok ((path.reverse.dropWhile (· = '/')).reverse ++ '/' :: name)
  else if path.getLast? = some '/' then .error (badRequest (path ++ " is not a directory".toList))
  else .ok path

/-- The check of `Backend.pull`, once it knows the type of the file. -/
def checkPull (path : Str) : Option Str → Except Error Unit
  | none =>
    .error (.failure { code := "not_found", message := path ++ " does not exist".toList })
  | some kind =>
    if kind = "directory".toList then
      .error (badRequest (path ++ " is a directory".toList))
    else .ok ()

/-- `_too_large`. -/
def tooLargeText (limit : Nat) : Str :=
  "the upload exceeds the limit of ".toList ++ Str.ofNat (limit / (1024 * 1024)) ++
    " MiB (APPLIANCE_MAX_UPLOAD_MIB, and the free space of the state disk)".toList

/-- `_too_large`, raised. -/
def tooLarge (limit : Nat) : Error :=
  .failure { code := "too_large", message := tooLargeText limit }

/-! ### Requests -/

/-- A request, with the query and the header `content-length` that it reads. -/
inductive Request
  | install (declared : Str)
  | push (path name : Option Str) (declared : Str)
  | pull (path : Option Str)
  deriving DecidableEq, Repr

/-- Where a request is. -/
inductive Pc
  | called
  /-- `_save` reads the body, of which it has `size` bytes. -/
  | saving (limit size : Nat)
  /-- `_use` waits for Android. -/
  | entering
  /-- `adb` tells the type of a file. -/
  | typing
  /-- `adb` installs, pushes or pulls. -/
  | transferring
  /-- The response of a pull has not asked for a chunk yet. -/
  | answering
  /-- `_send_file` has given a chunk. -/
  | streaming
  /-- The response is over, and `_send_file` is to be closed. -/
  | abandoned
  | ended (r : Except Error Reply)

/-- A request and its temporary file. -/
structure Transfer where
  request : Request
  pc : Pc
  file : Option Bytes
  /-- The file as `Backend.pull` left it; its length is the `Content-Length`. -/
  pulled : Bytes
  /-- What `_send_file` has read of the file. -/
  sent : Bytes

/-- The labels. -/
inductive Event
  /-- The handler is called, while `_upload_limit` is `limit`. -/
  | call (limit : Nat)
  /-- A chunk of the body. -/
  | chunk (data : Bytes)
  | bodyEnd
  /-- `_use` has its lease, or the lease raises. -/
  | entered (error : Option Error)
  | fileType (a : Adb)
  /-- `adb` writes to the file of a pull. -/
  | write (data : Bytes)
  | transferred (a : Adb)
  /-- The response asks for the next chunk. -/
  | next
  /-- The file cannot be written, opened or read. -/
  | diskFails
  | cut
  /-- The event loop closes a generator that nobody asks any more. -/
  | closed

namespace Transfer

/-- The end of a handler. `install` and `push` have a `finally` around all of it. -/
def finish (t : Transfer) (r : Except Error Reply) : Transfer :=
  match t.request with
  | .install _ | .push .. => { t with file := none, pc := .ended r }
  | .pull _ => { t with pc := .ended r }

/-- The first lines of `_save`. -/
def save (t : Transfer) (declared : Str) (limit : Nat) : Transfer :=
  if declared.isDigits ∧ limit < declared.int then t.finish (.error (tooLarge limit))
  else { t with file := some [], pc := .saving limit 0 }

/-- The handler up to its first await. -/
def call (t : Transfer) (limit : Nat) : Transfer :=
  match t.request with
  | .install declared => t.save declared limit
  | .push path _ declared =>
    match queryPath path with
    | .error e => t.finish (.error e)
    | .ok _ => t.save declared limit
  | .pull path =>
    match (queryPath path).bind checkPath with
    | .error e => t.finish (.error e)
    | .ok () => { t with pc := .entering }

/-- One round of the loop of `_save`. -/
def chunk (t : Transfer) (limit size : Nat) (data : Bytes) : Transfer :=
  if limit < size + data.length then t.finish (.error (tooLarge limit))
  else { t with file := t.file.map (· ++ data), pc := .saving limit (size + data.length) }

/-- The body is saved. -/
def saved (t : Transfer) (size : Nat) : Transfer :=
  match t.request with
  | .install _ =>
    if size = 0 then t.finish (.error (badRequest "the body must be the APK file".toList))
    else { t with pc := .entering }
  | .push path name _ =>
    match checkPush (path.getD []) name with
    | .error e => t.finish (.error e)
    | .ok () => { t with pc := .entering }
  | .pull _ => t

/-- `_use` has its lease. -/
def entered (t : Transfer) : Transfer :=
  match t.request with
  | .install _ => { t with pc := .transferring }
  | .push .. | .pull _ => { t with pc := .typing }

/-- The type of the file is known. -/
def typed (t : Transfer) (r : Device.Result) : Transfer :=
  let checked : Except Error Unit :=
    match t.request with
    | .install _ => .ok ()
    | .push path name _ => (pushPath (path.getD []) name (fileType r)).map fun _ => ()
    | .pull path => checkPull (path.getD []) (fileType r)
  match checked with
  | .error e => t.finish (.error e)
  | .ok () => { t with pc := .transferring }

/-- `adb` is done. -/
def transferred (t : Transfer) (r : Device.Result) : Transfer :=
  match t.request with
  | .install _ =>
    if r.exitCode ≠ 0 ∨ "Failure".toList <:+: r.output then
      t.finish (.error (badRequest
        (if r.output = [] then "the install failed".toList else r.output)))
    else t.finish (.ok (.output r.output))
  | .push .. =>
    if r.exitCode ≠ 0 then t.finish (.error (badRequest ("the push failed: ".toList ++ r.output)))
    else t.finish (.ok (.bytes (t.file.getD []).length))
  | .pull _ =>
    if r.exitCode ≠ 0 then
      { t with
        file := none
        pc := .ended (.error (.failure { code := "unavailable",
                                         message := "the pull failed: ".toList ++ r.output })) }
    else
      match t.file with
      | none => t.finish (.error .internal)
      | some data => { t with pc := .answering, pulled := data }

/-- `_send_file`, up to its next chunk or its end. -/
def next (t : Transfer) (data : Bytes) : Transfer :=
  let chunk := (data.drop t.sent.length).take 65536
  if chunk = [] then { t with file := none, pc := .ended (.ok .file) }
  else { t with sent := t.sent ++ chunk, pc := .streaming }

/-- One step of a request. -/
def step (t : Transfer) : Event → Option Transfer
  | .call limit =>
    match t.pc with
    | .called => some (t.call limit)
    | _ => none
  | .chunk data =>
    match t.pc with
    | .saving limit size => some (t.chunk limit size data)
    | _ => none
  | .bodyEnd =>
    match t.pc with
    | .saving _ size => some (t.saved size)
    | _ => none
  | .entered error =>
    match t.pc with
    | .entering =>
      match error with
      | some e => some (t.finish (.error e))
      | none => some t.entered
    | _ => none
  | .fileType a =>
    match t.pc with
    | .typing =>
      match use a with
      | .error e => some (t.finish (.error e))
      | .ok r => some (t.typed r)
    | _ => none
  | .write data =>
    match t.pc, t.request with
    | .transferring, .pull _ => some { t with file := some (t.file.getD [] ++ data) }
    | _, _ => none
  | .transferred a =>
    match t.pc with
    | .transferring =>
      match use a with
      | .error e => some (t.finish (.error e))
      | .ok r => some (t.transferred r)
    | _ => none
  | .next =>
    match t.pc, t.file with
    | .answering, some data | .streaming, some data => some (t.next data)
    | _, _ => none
  | .diskFails =>
    match t.pc with
    | .saving .. => some (t.finish (.error .internal))
    | .answering | .streaming => some { t with file := none, pc := .ended (.error .internal) }
    | _ => none
  | .cut =>
    match t.pc with
    | .called | .saving .. | .entering | .typing | .transferring => some (t.finish (.error .cut))
    -- a generator that was never asked has nothing to close
    | .answering => some { t with pc := .ended (.error .cut) }
    | .streaming => some { t with pc := .abandoned }
    | .abandoned | .ended _ => none
  | .closed =>
    match t.pc with
    | .abandoned => some { t with file := none, pc := .ended (.error .cut) }
    | _ => none

end Transfer

/-- The machine of a request. -/
def transferMachine : Machine Transfer Event where
  Init t := t.pc = .called ∧ t.file = none ∧ t.sent = []
  step := Transfer.step

/-! ### The file -/

namespace Transfer

/-- The request is over. -/
def Over (t : Transfer) : Prop := ∃ r, t.pc = .ended r

/-- `_send_file` may still read the file. -/
def Reading (t : Transfer) : Prop := t.pc = .answering ∨ t.pc = .streaming ∨ t.pc = .abandoned

/-- A pull is not left behind: what ends it while `adb` copies, other than the end of `adb`, finds
no file; and its response asks for a chunk. -/
def Kept (t : Transfer) (ev : Event) : Prop :=
  (∀ path, t.request = .pull path → t.pc = .transferring → t.file.isSome →
    ev ≠ .cut ∧ ∀ a, ev = .transferred a → ∃ r, use a = .ok r) ∧
  (t.pc = .answering → ev ≠ .cut)

/-- What streams is the whole file: it is there as long as it is read, and a pull that succeeds
has sent all of it. -/
structure Whole (t : Transfer) : Prop where
  file : t.Reading → t.file = some t.pulled ∧ t.sent <+: t.pulled
  sent : t.pc = .ended (.ok .file) → t.sent = t.pulled

end Transfer

end Files

end AndroidAppliance
