import AndroidAppliance.Session.Keys
import AndroidAppliance.Supervisor.Transitions

/-!
# One session beside the Supervisor

A dashboard session of `appliance/session.py` together with the Supervisor and all its other
callers. The reader handles messages; keys, buttons and texts become jobs of a lane, which
runs them one after another; the stream messages become jobs of another lane.

A paste is the one job that uses the device through a lease: the lease is a call of the
Supervisor, the number of which is kept where the lane waits. What the body of the lease
sends to the guest, and what touches, wheel and video send, does not come back to the
Supervisor and is left out. A step of the machine `desk` is one stretch of the session, or a
step of the Supervisor that is not about its lease.
-/

namespace AndroidAppliance

namespace Session

open Supervisor

/-! ### The session -/

/-- A job of the keys lane. -/
inductive Job
  | press (p : Pressed) (action : KeyAction)
  | paste (text : String)
  /-- `_send_key`. -/
  | send (e : KeyEvent)
  deriving DecidableEq, Repr

/-- Where the keys lane waits, and `_let_go` after it. -/
inductive LanePc
  | idle
  /-- `_send_key`, with nothing after it. -/
  | sending
  /-- `_send_key` of a modifier that lets go for a paste, with those that follow. -/
  | lifting (text : String) (ups rest : List KeyEvent)
  /-- `backend.text`: its lease is the call number `c`. -/
  | texting (c : Nat) (ups : List KeyEvent)
  /-- `_send_key` of a modifier that goes down again, with those that follow. -/
  | restoring (rest : List KeyEvent)
  /-- `send_key` of a key that `_let_go` releases, with those that follow. -/
  | releasing (rest : List KeyEvent)
  deriving DecidableEq, Repr

/-- Where `_scroll` waits. -/
inductive ScrollPc
  | idle
  /-- Before its first step. -/
  | created
  /-- `input.play`. -/
  | playing
  deriving DecidableEq, Repr

/-- A job of the control lane. -/
inductive ControlJob
  | start
  | stop
  | relay
  | androidStopped
  deriving DecidableEq, Repr

/-- A session and the Supervisor. -/
structure Desk where
  sup : Sup
  held : Held
  /-- The right mouse button is down. -/
  right : Bool
  jobs : List Job
  pc : LanePc
  control : List ControlJob
  /-- The control lane waits in `stream.open()`. -/
  opening : Bool
  streaming : Bool
  /-- There are notches that no drag has taken. -/
  notches : Bool
  scroll : ScrollPc
  /-- The reader task runs. -/
  reading : Bool
  /-- The reader waits in `_send_input`; a press of BACK follows when it is `some true`. -/
  input : Option Bool
  closed : Bool
  /-- The key events that were given to the emulator. -/
  sent : List KeyEvent
  deriving DecidableEq, Repr

/-- A message that the checks of its handler let through, and all others. -/
inductive Message
  | ping
  /-- `sends` says that there is an event to send. -/
  | touch (sends : Bool)
  | mouse (right sends : Bool)
  | wheel
  | key (key : String) (action : KeyAction)
  | button (b : Button) (action : KeyAction)
  | text (text : String)
  | stream (start : Bool)
  | jsep
  | refused
  deriving DecidableEq, Repr

/-- `LANE`. -/
def laneSize : Nat := 256

namespace Desk

/-- `hub.running_grpc()` gives a client. -/
def runningGrpc (d : Desk) : Bool :=
  d.sup.core.ctl.state = .running && d.sup.core.dev.grpc.isSome

/-- `sup.touch_activity()`. -/
def touch (d : Desk) : Desk := { d with sup := { d.sup with core := d.sup.core.touch } }

/-! ### The reader -/

/-- The reader task is cancelled. -/
def «end» (d : Desk) : Desk := { d with reading := false, input := none }

/-- `_lane` of the keys lane: a full lane ends the session. -/
def putJob (d : Desk) (j : Job) : Desk :=
  if d.jobs.length < laneSize then { d with jobs := d.jobs ++ [j] } else d.end

/-- `_lane` of the control lane. -/
def putControl (d : Desk) (j : ControlJob) : Desk :=
  if d.control.length < laneSize then { d with control := d.control ++ [j] } else d.end

/-- The end of `_mouse`. -/
def pressBack (d : Desk) (back : Bool) : Desk :=
  if back then d.putJob (.send { eventType := .press, code := Button.back.code }) else d

/-- `_send_input`, when there is an event to send, and the end of the handler. -/
def sendInput (d : Desk) (sends back : Bool) : Desk :=
  if sends then { d with input := some back } else d.pressBack back

/-- `_ready` and what a handler does after it: a message is rejected while Android does
not run. -/
def ready (d : Desk) (f : Desk → Desk) : Desk := if d.runningGrpc then f d.touch else d

/-- A notch of the wheel starts the task of `_scroll`, unless that runs. -/
def notch (d : Desk) : Desk :=
  { d with notches := true, scroll := if d.scroll = .idle then .created else d.scroll }

/-- The handlers of the messages. -/
def dispatch (d : Desk) : Message → Desk
  | .ping | .refused => d
  | .touch sends => d.ready (·.sendInput sends false)
  | .mouse right sends => d.ready fun d => { d with right }.sendInput sends (right && !d.right)
  | .wheel => d.ready notch
  | .key key action => d.ready (·.putJob (.press (.key key) action))
  | .button b action => d.ready (·.putJob (.press (.button b) action))
  | .text text => if text = "" then d else d.ready (·.putJob (.paste text))
  | .stream start => d.putControl (if start then .start else .stop)
  | .jsep => d.putControl .relay

/-- A turn of the loop in `_scroll`; `drag` says that the notches are enough for a drag. -/
def scrollOn (d : Desk) (drag : Bool) : Desk :=
  if d.notches then
    if d.runningGrpc then
      if drag then { d with notches := false, scroll := .playing } else { d with scroll := .idle }
    else { d with notches := false, scroll := .idle }
  else { d with scroll := .idle }

/-! ### The keys lane -/

/-- `_send_key` at the end of a job. -/
def send (d : Desk) (e : KeyEvent) : Desk :=
  if d.runningGrpc then { d with pc := .sending, sent := d.sent ++ [e] }
  else { d with pc := .idle }

/-- The `finally` block of `_paste`. -/
def restore (d : Desk) : List KeyEvent → Desk
  | [] => { d with pc := .idle }
  | up :: rest =>
    if d.runningGrpc then
      { d with pc := .restoring rest, sent := d.sent ++ [up.withType .down] }
    else d.restore rest

/-- What `_paste` does when its lease is over. -/
def afterCall (d : Desk) (c : Nat) (ups : List KeyEvent) : Desk :=
  match d.sup.calls[c]? with
  | some ⟨_, .ended _⟩ => d.restore ups
  | _ => d

/-- `backend.text` up to its first wait: a lease that wakes Android. -/
def text (d : Desk) (ups : List KeyEvent) : Desk :=
  let r := d.sup.enter (.lease true)
  let c := r.1.calls.length
  { d with sup := Sup.addCall (.lease true) r, pc := .texting c ups }.afterCall c ups

/-- The loop of `_paste` that lets the modifiers go. -/
def lift (d : Desk) (text : String) (ups : List KeyEvent) : List KeyEvent → Desk
  | [] => d.text ups
  | up :: rest =>
    if d.runningGrpc then { d with pc := .lifting text ups rest, sent := d.sent ++ [up] }
    else d.lift text ups rest

/-- `_paste`. -/
def paste (d : Desk) (text : String) : Desk :=
  if d.runningGrpc then d.lift text d.held.modifiers d.held.modifiers
  else { d with pc := .idle }

/-- `_press`. -/
def press (printable : Char → Bool) (d : Desk) (p : Pressed) (action : KeyAction) : Desk :=
  let plan := p.plan printable action (d.held.has p)
  let d := if action = .up then { d with held := d.held.pop p } else d
  match plan with
  | .text text => d.paste text
  | .drop => { d with pc := .idle }
  | .event e =>
    if e.eventType = .down then
      if maxHeld ≤ d.held.length ∧ d.held.has p = false then { d with pc := .idle }
      else { d with held := d.held.put p (e.withType .up) }.send e
    else d.send e

/-- The lane takes the next job. -/
def runJob (printable : Char → Bool) (d : Desk) : Job → Desk
  | .press p action => d.press printable p action
  | .paste text => d.paste text
  | .send e => d.send e

/-- The loop of `_let_go`. -/
def release (d : Desk) : List KeyEvent → Desk
  | [] => { d with pc := .idle }
  | e :: rest => { d with pc := .releasing rest, sent := d.sent ++ [e] }

/-- `_send_key` returned; `ok` is false when it raised something that it does not expect. -/
def sentKey (d : Desk) (ok : Bool) : Option Desk :=
  match d.pc with
  | .sending => some { d with pc := .idle }
  | .lifting text ups rest => some (if ok then d.lift text ups rest else d.restore ups)
  | .restoring rest => some (if ok then d.restore rest else { d with pc := .idle })
  | .releasing rest => some (if ok then d.release rest else { d with pc := .idle })
  | .idle | .texting _ _ => none

/-! ### The control lane -/

/-- `_drop_stream`. -/
def dropStream (d : Desk) : Desk := { d with streaming := false }

/-- A job of the control lane up to its wait; `created` says that the TURN server and the
limit of streams allow a stream. -/
def runControl (d : Desk) (created : Bool) : ControlJob → Desk
  | .start =>
    let d := d.dropStream
    if d.runningGrpc && created then { d.touch with streaming := true, opening := true } else d
  | .stop => d.dropStream
  | .relay => d
  | .androidStopped => d.dropStream

/-! ### Status and close -/

/-- `status_changed`. -/
def statusChanged (d : Desk) : Desk :=
  if d.sup.core.ctl.state = .running then d
  else
    let d := { d with held := [], right := false }
    if d.streaming then
      if d.control.length < laneSize then { d with control := d.control ++ [.androidStopped] }
      else d
    else d

/-- The lease of the session. -/
def own (d : Desk) : Option Nat :=
  match d.pc with
  | .texting c _ => some c
  | .idle | .sending | .lifting _ _ _ | .restoring _ | .releasing _ => none

/-- A step of the Supervisor for the lease of the keys lane. -/
def callStep (cfg : Supervisor.Config) (d : Desk) (f : Nat → SupEvent) : Option Desk :=
  match d.pc with
  | .texting c ups =>
    (d.sup.step cfg (f c)).map fun sup => { d with sup }.afterCall c ups
  | .idle | .sending | .lifting _ _ _ | .restoring _ | .releasing _ => none

/-- CancelledError where the keys lane waits. The body of a lease takes its time to unwind
and ends later. -/
def cancelLane (cfg : Supervisor.Config) (d : Desk) : Desk :=
  match d.pc with
  | .idle | .sending | .restoring _ => { d with pc := .idle }
  | .lifting _ ups _ => d.restore ups
  | .texting c _ =>
    match d.sup.calls[c]? with
    | some ⟨_, .leased⟩ => d
    | _ => (d.callStep cfg .cancel).getD d
  | .releasing _ => d

/-- What `_close` does to everything but the keys lane. -/
def shut (d : Desk) : Desk :=
  { d.end with closed := true, notches := false, scroll := .idle, jobs := [], control := [],
               opening := false, streaming := false }

/-- `_close` up to its wait for the keys lane. -/
def close (cfg : Supervisor.Config) (d : Desk) : Desk := d.shut.cancelLane cfg

/-- `_let_go` up to its first wait. -/
def letGo (d : Desk) : Desk :=
  let held := d.held.map (·.2)
  let d := { d with held := [] }
  if d.runningGrpc then d.release held else d

end Desk

/-! ### The machine -/

/-- The labels. -/
inductive Event
  /-- A step of the Supervisor or of another caller. -/
  | others (ev : SupEvent)
  | message (m : Message)
  /-- `_send_input` of the reader is over. -/
  | sentInput (ok : Bool)
  /-- The reader is cancelled. -/
  | «end»
  /-- `_scroll` runs on; `ok` is false when its drag failed. -/
  | scroll (ok drag : Bool)
  /-- The keys lane takes the next job. -/
  | job
  /-- The `_send_key` of the keys lane is over. -/
  | sentKey (ok : Bool)
  /-- The lease of the keys lane has waited. -/
  | leased
  /-- The body of the lease is over. -/
  | pasted (ok : Bool)
  | control (created : Bool)
  | opened (ok : Bool)
  | statusChanged
  | close
  | letGo
  deriving DecidableEq, Repr

/-- The call that a step of the Supervisor is about. -/
def caller : SupEvent → Option Nat
  | .resume c | .expire c | .leave c _ | .cancel c => some c
  | .call _ | .tick _ | .loop _ => none

namespace Desk

/-- One step. -/
def step (cfg : Supervisor.Config) (printable : Char → Bool) (d : Desk) : Event → Option Desk
  | .others ev =>
    if (caller ev).isSome ∧ caller ev = d.own then none
    else (d.sup.step cfg ev).map fun sup => { d with sup }
  | .message m => if d.reading ∧ d.input = none then some (d.dispatch m) else none
  | .sentInput ok =>
    d.input.map fun back => { d with input := none }.pressBack (ok && back)
  | .end => some d.end
  | .scroll ok drag =>
    match d.scroll with
    | .idle => none
    | .created => some (d.scrollOn drag)
    | .playing => some (if ok then d.scrollOn drag else { d with scroll := .idle })
  | .job =>
    match d.pc, d.jobs with
    | .idle, j :: jobs => some ({ d with jobs }.runJob printable j)
    | _, _ => none
  | .sentKey ok => d.sentKey ok
  | .leased => d.callStep cfg .resume
  | .pasted ok => if ok ∧ d.closed then none else d.callStep cfg fun c => .leave c ok
  | .control created =>
    match d.opening, d.control with
    | false, j :: control => some ({ d with control }.runControl created j)
    | _, _ => none
  | .opened ok =>
    if d.opening then
      some { d with opening := false, streaming := d.streaming && ok }
    else none
  | .statusChanged => if d.closed then none else some d.statusChanged
  | .close => if d.closed then none else some (d.close cfg)
  | .letGo => if d.closed ∧ d.pc = .idle then some d.letGo else none

/-- A new session beside a Supervisor that nobody has called. -/
def Initial (d : Desk) : Prop :=
  d.sup.Initial ∧
    d = { sup := d.sup, held := [], right := false, jobs := [], pc := .idle, control := [],
          opening := false, streaming := false, notches := false, scroll := .idle,
          reading := true, input := none, closed := false, sent := [] }

end Desk

/-- The machine of one session and the Supervisor. -/
def desk (cfg : Supervisor.Config) (printable : Char → Bool) : Machine Desk Event where
  Init := Desk.Initial
  step := Desk.step cfg printable

end Session

end AndroidAppliance
