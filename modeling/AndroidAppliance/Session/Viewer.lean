import AndroidAppliance.Turn.Basic
import AndroidAppliance.Webrtc.Limits

/-!
# The streams of a session

The control lane of a `Session` in `appliance/session.py`, its current stream and its outbox,
on top of the bridge. The streams of the other sessions are streams of the same bridge that
this session does not own. The reader puts jobs into the lane, which runs them one after
another; the status callback puts in `_android_stopped`; a pump of the bridge calls
`_on_message` and `_on_end` in its own stretch.

What is queued to the viewer is kept as one list (`Viewer.log`). An entry names the stream
that it is about and the start message that it was produced for, which the messages
themselves do not; in between stand the drops of a stream that are not reported.
-/

namespace AndroidAppliance

open Webrtc

namespace Session

/-! ### Messages -/

/-- A stream of the session, and the start message that it was made for. -/
structure Own where
  stream : Nat
  start : Nat
  deriving DecidableEq, Repr

/-- The answer or candidate of a viewer, as `jsep` rebuilds it. -/
inductive Signal
  | answer (sdp : String)
  | candidate (candidate : String) (sdpMid : Option String) (sdpMLineIndex : Option Int)
  deriving DecidableEq, Repr

/-- What is queued to the viewer. -/
inductive Entry
  | starting (k : Own)
  | configured (k : Own) (servers : List Turn.IceServer)
  /-- The end of a stream: the emulator's, its refusal, or the stop of Android. -/
  | ended (k : Own) (reason : String)
  /-- The answer to a stop request. -/
  | stopped
  | jsep (k : Own) (data : Jsep)
  /-- An error, with the start message that it answers if there is one. -/
  | error (start : Option Nat) (code message : String)
  /-- A message of another type. -/
  | other
  /-- No message: a stop request, a start or the close of the session drops the stream. -/
  | left (k : Own)
  deriving DecidableEq, Repr

/-- A message of the client, after the checks of its handler. -/
inductive ClientMessage
  | start
  | stop
  /-- An answer or candidate; `peer` is the start message of the stream that the peer
  connection was opened for. -/
  | jsep (data : Signal) (peer : Nat)
  /-- A message that is answered with an error. -/
  | refused (code message : String)
  /-- A message that is not about streams. -/
  | accepted
  deriving DecidableEq, Repr

/-! ### The control lane -/

/-- A job of the control lane. -/
inductive StreamJob
  | start (n : Nat)
  | stop
  | relay (data : Signal) (peer : Nat)
  | androidStopped
  deriving DecidableEq, Repr

/-- Where the control lane waits. -/
inductive StreamPc
  | idle
  /-- `stream.open()`. -/
  | opening (k : Own) (servers : List Turn.IceServer)
  /-- `send_jsep`. -/
  | relaying (k : Own) (sdp : Bool)
  /-- The lane is closed, or CancelledError came out of a job. -/
  | finished
  deriving DecidableEq, Repr

/-- How far `_close` is. -/
inductive Stage
  | running
  | closing
  | laneClosed
  | dropped
  deriving DecidableEq, Repr

/-- What the session finds in a stretch: whether the emulator runs, what `ice_servers` gives
or raises, whether turnserver runs, the details of a gRPC error, and whether an error may be
sent. -/
structure Env where
  running : Bool
  servers : Except String (List Turn.IceServer)
  turn : Bool
  details : String
  tell : Bool

/-- OUTBOX. -/
def outboxSize : Nat := 512

/-- LANE. -/
def streamLane : Nat := 256

end Session

open Session

/-- A session, as far as its streams go, and the bridge. -/
structure Viewer where
  bridge : Bridge
  /-- `_stream`. -/
  current : Option Own
  jobs : List StreamJob
  pc : StreamPc
  /-- The reader task runs. -/
  reading : Bool
  stage : Stage
  /-- The number of messages in the outbox. -/
  outbox : Nat
  /-- No message was refused by a full outbox. -/
  whole : Bool
  /-- The number of start messages so far. -/
  starts : Nat
  /-- The number of stop messages so far. -/
  stops : Nat
  /-- The streams that the session has made. -/
  owns : List Own
  log : List Entry
  /-- The peers whose signals were relayed, with the stream that got them. -/
  relayed : List (Nat × Own)
  deriving DecidableEq, Repr

namespace Viewer

variable (v : Viewer)

/-! ### The outbox -/

/-- `send`; a full outbox refuses the message and ends the session. -/
def send (x : Entry) : Viewer :=
  if v.outbox < outboxSize then { v with outbox := v.outbox + 1, log := v.log ++ [x] }
  else { v with reading := false, whole := false }

/-- `error`. -/
def error (tell : Bool) (start : Option Nat) (code message : String) : Viewer :=
  if tell then v.send (.error start code message) else v

/-! ### The stream -/

/-- `stream.close()`. -/
def closeStream (i : Nat) : Viewer :=
  { v with bridge := { streams := v.bridge.streams.modify i Stream.close } }

/-- `_drop_stream`. -/
def dropStream : Viewer :=
  match v.current with
  | some k => { v with current := none }.closeStream k.stream
  | none => v

/-- `_drop_stream` where nothing is reported. -/
def leaveStream : Viewer :=
  match v.current with
  | some k => { v.dropStream with log := v.log ++ [.left k] }
  | none => v

/-- `_stop_stream`. -/
def stopStream : Viewer := v.leaveStream.send .stopped

/-- `_android_stopped`. -/
def androidStopped : Viewer :=
  match v.current with
  | some k => v.dropStream.send (.ended k "android is not running")
  | none => v

/-- The text of a StreamLimit. -/
def limitText : Bridge.StreamLimit → String
  | .full => "4 streams are open; close one first"
  | .closing => "the emulator is still closing earlier streams; try again in a few seconds"

/-- The stream of `bridge.create`, up to the wait in its `open`. -/
def beginStream (b : Bridge) (servers : List Turn.IceServer) (n : Nat) : Viewer :=
  let k : Own := { stream := v.bridge.streams.length, start := n }
  let v := { v with bridge := b, current := some k, owns := v.owns ++ [k] }.send (.starting k)
  { v with
    bridge := { streams := v.bridge.streams.modify k.stream Stream.beginOpen }
    pc := .opening k servers }

/-- `_start_stream` up to its wait. -/
def startStream (env : Env) (n : Nat) : Viewer :=
  let v := v.leaveStream
  if !env.running then v.error env.tell (some n) "not_running" "android is not running"
  else match env.servers with
    | .error text => v.error env.tell (some n) "bad_request" text
    | .ok servers =>
      if !env.turn then
        v.error env.tell (some n) "unavailable" "the TURN server is not running"
      else match v.bridge.create with
        | .error limit => v.error env.tell (some n) "stream_limit" (limitText limit)
        | .ok b => v.beginStream b servers n

/-- `_start_stream` after its wait; `none` while the request is pending. -/
def opened (env : Env) (k : Own) (servers : List Turn.IceServer) : Option Viewer :=
  (v.bridge.streams[k.stream]?).bind fun s =>
    s.opened.map fun s' =>
      let v := { v with bridge := { streams := v.bridge.streams.set k.stream s' }, pc := .idle }
      match s.request with
      | .answered => v.send (.configured k servers)
      | .failed => v.dropStream.send (.ended k ("the emulator refused the stream: " ++ env.details))
      | .cancelled | .absent | .pending => { v with pc := .finished }

/-- `_relay` up to its wait. -/
def relay (data : Signal) (peer : Nat) : Viewer :=
  match v.current, data with
  | none, _ | _, .candidate "" _ _ => v
  | some k, data =>
    let sdp := match data with
      | .answer _ => true
      | .candidate _ _ _ => false
    let v := { v with relayed := v.relayed ++ [(peer, k)] }
    if (v.bridge.streams[k.stream]?).any (·.pump.unfinished) then { v with pc := .relaying k sdp }
    else v

/-- A job of the control lane up to its wait. -/
def runJob (env : Env) : StreamJob → Viewer
  | .start n => v.startStream env n
  | .stop => v.stopStream
  | .relay data peer => v.relay data peer
  | .androidStopped => v.androidStopped

/-- A stretch of the control lane; `sent` says whether a `send_jsep` succeeded. -/
def lane (env : Env) (sent : Bool) : Option Viewer :=
  match v.pc with
  | .idle =>
    match v.jobs with
    | [] => none
    | job :: jobs => some ({ v with jobs }.runJob env job)
  | .opening k servers => v.opened env k servers
  | .relaying k sdp =>
    some { v with
      bridge := { streams := v.bridge.streams.modify k.stream fun s =>
        if sent then { s with answered := s.answered || sdp } else s }
      pc := .idle }
  | .finished => none

/-! ### The reader and the callbacks -/

/-- `_lane` of the control lane; a full lane ends the session. -/
def put (tell : Bool) (start : Option Nat) (job : StreamJob) : Viewer :=
  if v.jobs.length < streamLane then { v with jobs := v.jobs ++ [job] }
  else { v.error tell start "bad_request" "too many pending messages" with reading := false }

/-- The reader handles a message. -/
def receive (tell : Bool) : ClientMessage → Viewer
  | .start => { v with starts := v.starts + 1 }.put tell (some v.starts) (.start v.starts)
  | .stop => { v with stops := v.stops + 1 }.put tell none .stop
  | .jsep data peer => v.put tell none (.relay data peer)
  | .refused code message => v.error tell none code message
  | .accepted => v

/-- `status_changed`. -/
def statusChanged (running : Bool) : Viewer :=
  let v := v.send .other
  if !running && v.current.isSome && decide (v.jobs.length < streamLane) then
    { v with jobs := v.jobs ++ [.androidStopped] }
  else v

/-- `_on_message` and `_on_end`, for what a stream tells its viewer. -/
def hear (k : Own) : Told → Viewer
  | .message data => v.send (.jsep k data)
  | .ended reason => { v with current := none }.send (.ended k reason)
  | .closed => v

/-- The steps of a stream that its session does not take itself. -/
def outside : Stream.Event → Bool
  | .request _ | .aclose | .aclosed _ | .pump _ | .release _ => true
  | .beginOpen | .opened | .cancelOpen | .close | .sent _ => false

/-- A step of the bridge that the session does not take itself. -/
def bridgeStep (e : Bridge.Event) : Option Viewer :=
  (v.bridge.step e).bind fun b =>
    match e with
    | .create => some { v with bridge := b }
    | .stream i e =>
      match v.owns.find? (·.stream = i) with
      | none => some { v with bridge := b }
      | some k =>
        if outside e then
          let old := ((v.bridge.streams[i]?).map (·.told.length)).getD 0
          let told := ((b.streams[i]?).map (·.told.drop old)).getD []
          some (told.foldl (fun v x => v.hear k x) { v with bridge := b })
        else none

/-! ### `_close` -/

/-- The control lane is cancelled. -/
def closeLane : Viewer :=
  let v' := { v with pc := .finished, jobs := [], stage := .laneClosed }
  match v.pc with
  | .opening k _ =>
    { v' with bridge := { streams := v.bridge.streams.modify k.stream fun s =>
        if s.opening = .waiting then s.leave else s } }
  | .idle | .relaying _ _ | .finished => v'

/-! ### The machine -/

/-- The labels. -/
inductive Event
  | receive (m : ClientMessage) (tell : Bool)
  /-- The messages come too fast. -/
  | flood (tell : Bool)
  | lane (env : Env) (sent : Bool)
  /-- An error of the input. -/
  | error (code message : String)
  /-- A message of another type. -/
  | other
  | statusChanged (running : Bool)
  /-- The writer takes a message. -/
  | write
  | bridge (e : Bridge.Event)
  /-- The reader or the writer is over, and `_close` cancels both. -/
  | close
  | closeLane
  | drop

/-- One step. -/
def step : Event → Option Viewer
  | .receive m tell => if v.reading then some (v.receive tell m) else none
  | .flood tell =>
    if v.reading then
      some { v.error tell none "bad_request" "too many messages" with reading := false }
    else none
  | .lane env sent => v.lane env sent
  | .error code message => some (v.send (.error none code message))
  | .other => some (v.send .other)
  | .statusChanged running => if v.stage = .running then some (v.statusChanged running) else none
  | .write =>
    if v.stage = .running ∧ 0 < v.outbox then some { v with outbox := v.outbox - 1 } else none
  | .bridge e => v.bridgeStep e
  | .close =>
    if v.stage = .running then some { v with reading := false, stage := .closing } else none
  | .closeLane => if v.stage = .closing then some v.closeLane else none
  | .drop =>
    if v.stage = .laneClosed then some { v.leaveStream with stage := .dropped } else none

/-- A session that was just registered: hello and a status are queued. -/
def Initial : Prop :=
  (bridgeMachine.Reachable v.bridge) ∧
    v = { bridge := v.bridge, current := none, jobs := [], pc := .idle, reading := true,
          stage := .running, outbox := 2, whole := true, starts := 0, stops := 0, owns := [],
          log := [.other, .other], relayed := [] }

end Viewer

/-- The machine of the streams of a session. -/
def viewerMachine : Machine Viewer Viewer.Event where
  Init := Viewer.Initial
  step := Viewer.step

end AndroidAppliance
