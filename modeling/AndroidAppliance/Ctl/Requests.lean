import AndroidAppliance.Ctl.Copies
import AndroidAppliance.Json.Write
import AndroidAppliance.Request.Validators

/-!
# The requests of `androidctl`

The commands of `androidctl` whose arguments become a query string or a JSON body, and the handlers
of `api.py` that read them. A command with wrong arguments is a usage error and sends nothing.

`Means` says what the arguments ask for. That the two ends together keep to it is `commands_meant`.
-/

namespace AndroidAppliance

namespace Ctl

open Request (Raise Interpreter badRequest about)
open Text (Codes)
open Files (Bytes)

/-! ### `androidctl` -/

/-- A request. The body is what `post_json` sends or the file of `-T`, and is empty for `call`
without them. -/
structure Sent where
  method : Str
  target : Str
  body : Bytes
  deriving DecidableEq, Repr

/-- `post_json`. -/
def postJson (target body : Str) : Sent := ⟨"POST".toList, target, Request.bytesOf body⟩

/-- `integers`, unless it is a usage error. -/
def integers (values : List Str) : Bool :=
  values.all fun value => Str.isDigits value && value.length ≤ 9

/-- `$((10#N))`. -/
def decimal (value : Str) : Str := Str.ofNat (Str.int value)

/-- An object of which the fields are given. -/
def braces (body : Str) : Str := '{' :: body ++ ['}']

/-- `cmd_tap`. -/
def cmdTap : List Str → Option Sent
  | [x, y] =>
    if integers [x, y] then
      some (postJson "/input/tap".toList
        (braces ("\"x\":".toList ++ decimal x ++ ",\"y\":".toList ++ decimal y)))
    else none
  | _ => none

/-- The body of a long press without its duration. -/
def pressBody (x y : Str) : Str := "\"x\":".toList ++ decimal x ++ ",\"y\":".toList ++ decimal y

/-- `cmd_long_press`. -/
def cmdLongPress : List Str → Option Sent
  | [x, y] =>
    if integers [x, y] then
      some (postJson "/input/long-press".toList (braces (pressBody x y)))
    else none
  | [x, y, ms] =>
    if integers [x, y, ms] then
      some (postJson "/input/long-press".toList
        (braces (pressBody x y ++ ",\"duration_ms\":".toList ++ decimal ms)))
    else none
  | _ => none

/-- The body of a swipe without its duration. -/
def swipeBody (x1 y1 x2 y2 : Str) : Str :=
  "\"x1\":".toList ++ decimal x1 ++ ",\"y1\":".toList ++ decimal y1 ++
    ",\"x2\":".toList ++ decimal x2 ++ ",\"y2\":".toList ++ decimal y2

/-- `cmd_swipe`. -/
def cmdSwipe : List Str → Option Sent
  | [x1, y1, x2, y2] =>
    if integers [x1, y1, x2, y2] then
      some (postJson "/input/swipe".toList (braces (swipeBody x1 y1 x2 y2)))
    else none
  | [x1, y1, x2, y2, ms] =>
    if integers [x1, y1, x2, y2, ms] then
      some (postJson "/input/swipe".toList
        (braces (swipeBody x1 y1 x2 y2 ++ ",\"duration_ms\":".toList ++ decimal ms)))
    else none
  | _ => none

/-- A character of a key name. -/
def isKeyChar (c : Char) : Bool := c.isAlphanum || c = '_'

/-- `cmd_key`. -/
def cmdKey : List Str → Option Sent
  | [key] =>
    if !key.isEmpty && key.all isKeyChar then
      some (postJson "/input/key".toList
        (braces ("\"key\":\"".toList ++ key ++ "\"".toList)))
    else none
  | _ => none

/-- The `case` over a flag of `install`. -/
def flagQuery (flag : Str) : Option Str :=
  if flag = "-r".toList then some "&replace=1".toList
  else if flag = "-g".toList then some "&grant=1".toList
  else if flag = "-d".toList then some "&downgrade=1".toList
  else if flag = "-t".toList then some "&test=1".toList
  else none

/-- The loop over the flags. -/
def installQuery : Str → List Str → Option Str
  | query, [] => some query
  | query, flag :: flags => (flagQuery flag).bind fun part => installQuery (query ++ part) flags

/-- `query=${query#&}` and `$path${query:+?$query}`. -/
def withQuery (path query : Str) : Str :=
  let query := if query.head? = some '&' then query.drop 1 else query
  if query = [] then path else path ++ '?' :: query

/-- `cmd_install`, of an APK that can be read, with what is in it. -/
def cmdInstall (apk : Bytes) (flags : List Str) : Option Sent :=
  (installQuery [] flags).map fun query =>
    ⟨"POST".toList, withQuery "/apps/install".toList query, apk⟩

/-- `cmd_apps`. -/
def cmdApps (args : List Str) : Option Sent :=
  let words := [' '].intercalate args
  if words = [] then some ⟨"GET".toList, "/apps?format=text".toList, []⟩
  else if words = "--all".toList then some ⟨"GET".toList, "/apps?format=text&all=1".toList, []⟩
  else none

/-- The loop of `cmd_logs`. -/
def logsQuery : Str → List Str → Option Str
  | query, [] => some query
  | query, arg :: args =>
    if arg = "emulator".toList ∨ arg = "daemon".toList then
      logsQuery (query ++ "&source=".toList ++ arg) args
    else if arg = "-n".toList then
      match args with
      | [] => none
      | n :: args =>
        if integers [n] then logsQuery (query ++ "&lines=".toList ++ decimal n) args else none
    else none

/-- `cmd_logs`. -/
def cmdLogs (args : List Str) : Option Sent :=
  (logsQuery [] args).map fun query => ⟨"GET".toList, withQuery "/logs".toList query, []⟩

/-- `lifecycle`, of `start` and `restart`. -/
def lifecycle (action : Str) (args : List Str) : Option Sent :=
  let body (wait : Str) := postJson ('/' :: action ++ "?format=text".toList)
    (braces ("\"wait\":".toList ++ wait))
  if 1 < args.length then none
  else if args.headD [] = [] then some (body "true".toList)
  else if args.headD [] = "--no-wait".toList then some (body "false".toList)
  else none

/-- `cmd_stop`, with a daemon that answers. -/
def cmdStop (args : List Str) : Option Sent :=
  if args = [] then some (postJson "/stop?format=text".toList (braces "\"wait\":true".toList))
  else none

/-- `cmd_wait`, with a daemon that answers. -/
def cmdWait (args : List Str) : Option Sent :=
  if args = [] then some (postJson "/wait?format=text".toList (braces [])) else none

/-- The commands that `main` dispatches on, with their arguments. -/
inductive Command
  | start (args : List Str)
  | restart (args : List Str)
  | stop (args : List Str)
  | wait (args : List Str)
  | tap (args : List Str)
  | longPress (args : List Str)
  | swipe (args : List Str)
  | key (args : List Str)
  | install (apk : Bytes) (flags : List Str)
  | apps (args : List Str)
  | logs (args : List Str)
  deriving DecidableEq, Repr

/-- The `case` over the command. -/
def Command.sent : Command → Option Sent
  | start args => lifecycle "start".toList args
  | restart args => lifecycle "restart".toList args
  | stop args => cmdStop args
  | wait args => cmdWait args
  | tap args => cmdTap args
  | longPress args => cmdLongPress args
  | swipe args => cmdSwipe args
  | key args => cmdKey args
  | install apk flags => cmdInstall apk flags
  | apps args => cmdApps args
  | logs args => cmdLogs args

/-! ### `appliance/api.py` -/

/-- What a handler asks of the backend. -/
inductive Call
  | start (wait : Bool) (timeout : Option Request.Num)
  | restart (wait : Bool) (timeout : Option Request.Num)
  | stop (wait : Bool)
  | wait (timeout : Option Request.Num)
  | tap (x y : Option Request.Num)
  | longPress (x y : Option Request.Num) (ms : Int)
  | swipe (points : List (Option Request.Num)) (ms : Int)
  | key (key : Codes)
  /-- The APK is what was saved. -/
  | install (apk : Bytes) (replace grant downgrade test : Bool)
  | apps (all : Bool)
  | logs (source : Str) (lines : Int)
  deriving DecidableEq

/-- `_too_large`, raised. -/
def tooLarge (limit : Nat) : Raise := .api "too_large".toList (Files.tooLargeText limit)

/-- The loop of `_save`, with what is in the file. -/
def saveChunks (limit : Nat) : Bytes → List Bytes → Except Raise Bytes
  | data, [] => .ok data
  | data, chunk :: chunks =>
    if limit < data.length + chunk.length then .error (tooLarge limit)
    else saveChunks limit (data ++ chunk) chunks

/-- `_save`, with what is in the file at its end; `declared` is the header `content-length`. -/
def save (limit : Nat) (declared : Str) (chunks : List Bytes) : Except Raise Bytes :=
  if declared.isDigits ∧ limit < declared.int then .error (tooLarge limit)
  else saveChunks limit [] chunks

section Handlers

/-- What a handler has besides the request: the interpreter, the web framework, the limit of
`_upload_limit` and the header `content-length`. -/
structure Setting where
  py : Interpreter
  web : Framework
  limit : Nat
  declared : Str

variable (env : Setting)

/-- `_flag`. -/
def flag (target : Str) (key : String) : Bool :=
  ["1".toList, "true".toList, "yes".toList].contains
    (Str.lower ((env.web.queryParam target key).getD []))

/-- The handler of a request: it gets the target and the chunks of the body. -/
abbrev Handler := Str → List Bytes → Except Raise Call

open Request

/-- `start`. -/
def apiStart : Handler := fun _ chunks => do
  let data ← json env.py chunks
  return .start (← bool data "wait".toList true)
    (← timeout (← number data "timeout".toList .none))

/-- `restart`. -/
def apiRestart : Handler := fun _ chunks => do
  let data ← json env.py chunks
  return .restart (← bool data "wait".toList true)
    (← timeout (← number data "timeout".toList .none))

/-- `stop`. -/
def apiStop : Handler := fun _ chunks => do
  return .stop (← bool (← json env.py chunks) "wait".toList true)

/-- `wait`. -/
def apiWait : Handler := fun _ chunks => do
  return .wait (← timeout (← number (← json env.py chunks) "timeout".toList .none))

/-- `tap`. -/
def apiTap : Handler := fun _ chunks => do
  let data ← json env.py chunks
  return .tap (← number data "x".toList .missing) (← number data "y".toList .missing)

/-- `long_press`. -/
def apiLongPress : Handler := fun _ chunks => do
  let data ← json env.py chunks
  return .longPress (← number data "x".toList .missing) (← number data "y".toList .missing)
    (← duration data "duration_ms".toList 800)

/-- `swipe`. -/
def apiSwipe : Handler := fun _ chunks => do
  let data ← json env.py chunks
  let points ← ["x1".toList, "y1".toList, "x2".toList, "y2".toList].mapM fun key =>
    number data key .missing
  return .swipe points (← duration data "duration_ms".toList 300)

/-- `key`. -/
def apiKey : Handler := fun _ chunks => do
  return .key (← string (← json env.py chunks) "key".toList none)

/-- `install`, of the APK in the body. -/
def apiInstall : Handler := fun target chunks => do
  let apk ← save env.limit env.declared chunks
  if apk.length = 0 then throw (badRequest "the body must be the APK file".toList)
  return .install apk (flag env target "replace") (flag env target "grant")
    (flag env target "downgrade") (flag env target "test")

/-- `apps`. -/
def apiApps : Handler := fun target _ => return .apps (flag env target "all")

/-- `logs`. -/
def apiLogs : Handler := fun target _ => do
  return .logs ((env.web.queryParam target "source").getD "emulator".toList)
    (← queryInt ((env.web.queryParam target "lines").map Codes.ofText) "lines".toList 200 1 100000)

/-- The entries of `routes` for these handlers. -/
def routes : List ((Str × Str) × Handler) :=
  [(("POST".toList, "/start".toList), apiStart env),
    (("POST".toList, "/stop".toList), apiStop env),
    (("POST".toList, "/restart".toList), apiRestart env),
    (("POST".toList, "/wait".toList), apiWait env),
    (("POST".toList, "/input/tap".toList), apiTap env),
    (("POST".toList, "/input/long-press".toList), apiLongPress env),
    (("POST".toList, "/input/swipe".toList), apiSwipe env),
    (("POST".toList, "/input/key".toList), apiKey env),
    (("GET".toList, "/apps".toList), apiApps env),
    (("POST".toList, "/apps/install".toList), apiInstall env),
    (("GET".toList, "/logs".toList), apiLogs env)]

/-- What becomes of a request; `none` is one for another handler. -/
def handle (method target : Str) (chunks : List Bytes) : Option (Except Raise Call) :=
  ((routes env).lookup (method, (Str.partition '?' target).1)).map fun handler =>
    handler target chunks

end Handlers

/-! ### What the arguments say -/

/-- A number of the command line. -/
def numberOf (value : Str) : Option Request.Num := some (.int (Str.int value))

/-- A duration that is at most a minute, or the answer of `_duration`. -/
def limited (ms : Str) (call : Int → Call) : Except Raise Call :=
  if Str.int ms ≤ 60000 then .ok (call (Str.int ms))
  else .error (badRequest (about "duration_ms".toList "must be between 0 and 60000".toList))

/-- The number of lines, or the answer of `_query_int`. -/
def linesOf : Option Str → Except Raise Int
  | none => .ok 200
  | some n =>
    if 1 ≤ Str.int n ∧ Str.int n ≤ 100000 then .ok (Str.int n)
    else .error (badRequest (about "lines".toList "must be an integer from 1 to 100000".toList))

/-- An argument that names a log. -/
def isSource (arg : Str) : Bool := arg = "emulator".toList || arg = "daemon".toList

/-- What a command means to the backend, which takes uploads up to `limit`. -/
inductive Means (limit : Nat) : Command → Except Raise Call → Prop
  | start (args : List Str) :
    Means limit (.start args) (.ok (.start (decide ("--no-wait".toList ∉ args)) none))
  | restart (args : List Str) :
    Means limit (.restart args) (.ok (.restart (decide ("--no-wait".toList ∉ args)) none))
  | stop : Means limit (.stop []) (.ok (.stop true))
  | wait : Means limit (.wait []) (.ok (.wait none))
  | tap (x y : Str) : Means limit (.tap [x, y]) (.ok (.tap (numberOf x) (numberOf y)))
  | longPress (x y : Str) :
    Means limit (.longPress [x, y]) (.ok (.longPress (numberOf x) (numberOf y) 800))
  | longPressFor (x y ms : Str) :
    Means limit (.longPress [x, y, ms]) (limited ms (.longPress (numberOf x) (numberOf y)))
  | swipe (x1 y1 x2 y2 : Str) :
    Means limit (.swipe [x1, y1, x2, y2]) (.ok (.swipe ([x1, y1, x2, y2].map numberOf) 300))
  | swipeFor (x1 y1 x2 y2 ms : Str) :
    Means limit (.swipe [x1, y1, x2, y2, ms]) (limited ms (.swipe ([x1, y1, x2, y2].map numberOf)))
  | key {key : Str} (h : key.length + 10 ≤ Request.jsonLimit) :
    Means limit (.key [key]) (.ok (.key (Codes.ofText key)))
  /-- A name that is as long as the largest body. -/
  | longKey {key : Str} (h : Request.jsonLimit < key.length + 10) :
    Means limit (.key [key]) (.error (badRequest ("the request body exceeds ".toList ++
      Str.ofNat Request.jsonLimit ++ " bytes".toList)))
  | install {apk : Bytes} (flags : List Str) (hempty : apk ≠ []) (hfits : apk.length ≤ limit) :
    Means limit (.install apk flags) (.ok (.install apk (decide ("-r".toList ∈ flags))
      (decide ("-g".toList ∈ flags)) (decide ("-d".toList ∈ flags))
      (decide ("-t".toList ∈ flags))))
  | installEmpty (flags : List Str) : Means limit (.install [] flags)
      (.error (badRequest "the body must be the APK file".toList))
  | installLarge {apk : Bytes} (flags : List Str) (hlarge : limit < apk.length) :
    Means limit (.install apk flags) (.error (tooLarge limit))
  | apps (args : List Str) : Means limit (.apps args) (.ok (.apps (decide ("--all".toList ∈ args))))
  /-- The last log and the last number count. -/
  | logs (args : List Str) :
    Means limit (.logs args) ((linesOf (args.filter fun arg => integers [arg]).getLast?).map
      (.logs ((args.filter isSource).getLast?.getD "emulator".toList)))

end Ctl

end AndroidAppliance
