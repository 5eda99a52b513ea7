import AndroidAppliance.Session.Desk
import AndroidAppliance.Transition.Strokes

/-!
# What a session holds down

The input of a `Session` of `appliance/session.py` while Android runs: `Pointers` of
`appliance/input.py`, the table of held keys, and the three tasks that send to the emulator.
The reader sends touches and the mouse, `_scroll` plays the drags of the wheel, and the keys
lane sends keys and lets the modifiers go for a paste. `_close` cancels them where they wait,
and `_let_go` lifts what the two tables still hold.

A send is two steps: the event is delivered, and the task goes on. A task that is cancelled
in between leaves an event that was delivered, one that is cancelled before does not. The
places of the touches and what a paste does to the clipboard are left out.
-/

namespace AndroidAppliance

namespace Input

open Session

/-! ### Strokes -/

/-- The id of a touch in a message; the mouse is the contact with the id `mouse`. -/
inductive TouchId
  | number (n : Int)
  | text (s : String)
  deriving DecidableEq, Repr

/-- `pb.Touch`; a pressure of 0 is a lift. -/
structure Touch where
  identifier : Nat
  pressed : Bool
  deriving DecidableEq, Repr

/-- What can be down in the guest. -/
inductive Thing
  | contact (identifier : Nat)
  | key (code : KeyCode)
  deriving DecidableEq, Repr

/-- What a touch does to its contact. -/
def Touch.stroke (t : Touch) : Stroke Thing := { thing := .contact t.identifier, down := t.pressed }

/-- A key press leaves nothing down. -/
def keyStrokes (e : KeyEvent) : List (Stroke Thing) :=
  match e.eventType with
  | .down => [{ thing := .key e.code, down := true }]
  | .up => [{ thing := .key e.code, down := false }]
  | .press => []

/-! ### `Pointers` -/

/-- `MAX_CONTACTS`. -/
def maxContacts : Nat := 10

/-- `Pointers`. -/
structure Pointers where
  contacts : List (TouchId × Nat)
  /-- The right mouse button is down. -/
  right : Bool
  deriving DecidableEq, Repr

namespace Pointers

/-- `_point`, with the number of the next identifier. -/
def point (p : Pointers) (next : Nat) (id : TouchId) (pressed : Bool) :
    Pointers × Nat × Option Touch :=
  match p.contacts.lookup id, pressed with
  | none, false => (p, next, none)
  | some i, false =>
    ({ p with contacts := p.contacts.filter (·.1 ≠ id) }, next,
      some { identifier := i, pressed := false })
  | none, true =>
    if maxContacts ≤ p.contacts.length then (p, next, none)
    else ({ p with contacts := p.contacts ++ [(id, next)] }, next + 1,
      some { identifier := next, pressed := true })
  | some i, true => (p, next, some { identifier := i, pressed := true })

/-- `touches`. -/
def touches (p : Pointers) (next : Nat) : List (TouchId × Bool) → Pointers × Nat × List Touch
  | [] => (p, next, [])
  | (id, pressed) :: points =>
    let r := p.point next id pressed
    let rest := r.1.touches r.2.1 points
    (rest.1, rest.2.1, r.2.2.toList ++ rest.2.2)

/-- `mouse`, and whether the right button was just pressed. -/
def mouse (p : Pointers) (next : Nat) (left right : Bool) :
    (Pointers × Nat × List Touch) × Bool :=
  let r := p.touches next [(.text "mouse", left)]
  (({ r.1 with right }, r.2), right && !r.1.right)

/-- The touches of `release`. -/
def lifts (p : Pointers) : List Touch :=
  p.contacts.map fun c => { identifier := c.2, pressed := false }

/-- `forget`. -/
def forget : Pointers := { contacts := [], right := false }

end Pointers

/-! ### Tasks -/

/-- Where the reader waits. -/
inductive ReaderPc
  | idle
  /-- `_send_input`; a press of BACK follows when `back` says so. -/
  | sending (touches : List Touch) (delivered back : Bool)
  | finished
  deriving DecidableEq, Repr

/-- Where `_scroll` waits. -/
inductive WheelPc
  | idle
  /-- Before its first step. -/
  | created
  /-- `input.play`, with the steps that are left before the lift. -/
  | playing (identifier left : Nat) (delivered : Bool)
  /-- The lift of a drag that was cut off. -/
  | lifting (identifier : Nat) (delivered : Bool)
  | finished
  deriving DecidableEq, Repr

/-- Where the keys lane waits. -/
inductive KeysPc
  | idle
  /-- `_send_key`, with nothing after it. -/
  | sending (e : KeyEvent) (delivered : Bool)
  /-- `_send_key` of a modifier that lets go for a paste, with those that follow. -/
  | lifting (e : KeyEvent) (delivered : Bool) (ups rest : List KeyEvent)
  /-- `backend.text`. -/
  | texting (ups : List KeyEvent)
  /-- `_send_key` of a modifier that goes down again, with those that follow. -/
  | restoring (e : KeyEvent) (delivered : Bool) (rest : List KeyEvent)
  | finished
  deriving DecidableEq, Repr

/-- How far `_close` is. -/
inductive Stage
  | running
  /-- The reader, the writer and the wheel are cancelled. -/
  | gathering
  /-- The keys lane is cancelled. -/
  | closingKeys
  /-- `_let_go`, with what it has to send. -/
  | lettingGo (rest : List (List (Stroke Thing)))
  | closed
  deriving DecidableEq, Repr

/-- The input of a session. -/
structure Hands where
  pointers : Pointers
  /-- The next identifier of a contact. -/
  next : Nat
  held : Held
  /-- There are notches that no drag has taken. -/
  notches : Bool
  jobs : List Job
  reader : ReaderPc
  wheel : WheelPc
  keys : KeysPc
  /-- The keys lane is cancelled. -/
  cancelled : Bool
  stage : Stage
  /-- What was delivered to the emulator. -/
  log : List (Stroke Thing)
  deriving DecidableEq, Repr

namespace Hands

variable (v : Hands)

/-! ### The reader -/

/-- `_lane` of the keys lane; a full lane ends the session. -/
def putJob (j : Job) : Hands :=
  if v.jobs.length < laneSize then { v with jobs := v.jobs ++ [j] }
  else { v with reader := .finished }

/-- The end of `_mouse`. -/
def pressBack (back : Bool) : Hands :=
  if back then v.putJob (.send { eventType := .press, code := Button.back.code }) else v

/-- `_send_input`, when there is an event to send, and the end of the handler. -/
def sendInput (touches : List Touch) (back : Bool) : Hands :=
  if touches = [] then v.pressBack back
  else { v with reader := .sending touches false back }

/-- `_touch`. -/
def touch (points : List (TouchId × Bool)) : Hands :=
  if maxContacts < points.length then v
  else
    let r := v.pointers.touches v.next points
    { v with pointers := r.1, next := r.2.1 }.sendInput r.2.2 false

/-- `_mouse`. -/
def mouse (left right : Bool) : Hands :=
  let r := v.pointers.mouse v.next left right
  { v with pointers := r.1.1, next := r.1.2.1 }.sendInput r.1.2.2 r.2

/-- `_wheel_message`. -/
def notch : Hands :=
  { v with notches := true, wheel := if v.wheel = .idle then .created else v.wheel }

/-! ### The wheel -/

/-- The steps of `wheel` before its lift: a press and seven moves. -/
def wheelMoves : Nat := 8

/-- A turn of the loop in `_scroll`; `drag` says that the notches are enough for a drag. -/
def scrollOn (drag : Bool) : Hands :=
  if v.notches then
    if drag then
      { v with notches := false, wheel := .playing v.next wheelMoves false, next := v.next + 1 }
    else { v with wheel := .idle, next := v.next + 1 }
  else { v with wheel := .idle }

/-! ### The keys lane -/

/-- The `finally` block of `_paste`. -/
def restore : List KeyEvent → Hands
  | [] => { v with keys := if v.cancelled then .finished else .idle }
  | up :: rest => { v with keys := .restoring (up.withType .down) false rest }

/-- The loop of `_paste` that lets the modifiers go. -/
def lift (ups : List KeyEvent) : List KeyEvent → Hands
  | [] => { v with keys := .texting ups }
  | up :: rest => { v with keys := .lifting up false ups rest }

/-- `_paste`. -/
def paste : Hands := v.lift v.held.modifiers v.held.modifiers

/-- `_press`. -/
def press (printable : Char → Bool) (p : Pressed) (action : KeyAction) : Hands :=
  let plan := p.plan printable action (v.held.has p)
  let v := if action = .up then { v with held := v.held.pop p } else v
  match plan with
  | .text _ => v.paste
  | .drop => v
  | .event e =>
    if e.eventType = .down then
      if maxHeld ≤ v.held.length ∧ v.held.has p = false then v
      else { v with held := v.held.put p (e.withType .up), keys := .sending e false }
    else { v with keys := .sending e false }

/-- The lane takes the next job. -/
def runJob (printable : Char → Bool) : Job → Hands
  | .press p action => v.press printable p action
  | .paste _ => v.paste
  | .send e => { v with keys := .sending e false }

/-! ### Sends -/

/-- The event that the reader sends is delivered. -/
def deliverInput : Option Hands :=
  match v.reader with
  | .sending touches false back =>
    some { v with reader := .sending touches true back, log := v.log ++ touches.map Touch.stroke }
  | .sending _ true _ | .idle | .finished => none

/-- `_send_input` returns. -/
def sentInput : Option Hands :=
  match v.reader with
  | .sending _ true back => some ({ v with reader := .idle }.pressBack back)
  | .sending _ false _ | .idle | .finished => none

/-- A step of a drag is delivered. -/
def deliverWheel : Option Hands :=
  match v.wheel with
  | .playing i left false =>
    some { v with wheel := .playing i left true
                  log := v.log ++ [{ thing := .contact i, down := 0 < left }] }
  | .lifting i false =>
    some { v with wheel := .lifting i true
                  log := v.log ++ [{ thing := .contact i, down := false }] }
  | .playing _ _ true | .lifting _ true | .idle | .created | .finished => none

/-- `_scroll` goes on. -/
def scroll (drag : Bool) : Option Hands :=
  match v.wheel with
  | .created => some (v.scrollOn drag)
  | .playing i (left + 1) true => some { v with wheel := .playing i left false }
  | .playing _ 0 true => some (v.scrollOn drag)
  | .lifting _ true => some { v with wheel := .finished }
  | .playing _ _ false | .lifting _ false | .idle | .finished => none

/-- The event that the keys lane sends is delivered. -/
def deliverKey : Option Hands :=
  match v.keys with
  | .sending e false =>
    some { v with keys := .sending e true, log := v.log ++ keyStrokes e }
  | .lifting e false ups rest =>
    some { v with keys := .lifting e true ups rest, log := v.log ++ keyStrokes e }
  | .restoring e false rest =>
    some { v with keys := .restoring e true rest, log := v.log ++ keyStrokes e }
  | .sending _ true | .lifting _ true _ _ | .restoring _ true _ | .texting _ | .idle | .finished =>
    none

/-- `_send_key` returns. -/
def sentKey : Option Hands :=
  match v.keys with
  | .sending _ true => some { v with keys := .idle }
  | .lifting _ true ups rest => some (v.lift ups rest)
  | .restoring _ true rest => some (v.restore rest)
  | .sending _ false | .lifting _ false _ _ | .restoring _ false _ | .texting _ | .idle
  | .finished =>
    none

/-! ### `_close` -/

/-- The wheel task is cancelled. -/
def cancelWheel : WheelPc → WheelPc
  | .idle | .created | .finished => .finished
  | .playing i _ _ => .lifting i false
  | .lifting i delivered => .lifting i delivered

/-- `_close` up to its first wait. -/
def close : Hands :=
  { v with reader := .finished, wheel := cancelWheel v.wheel, stage := .gathering }

/-- The keys lane is cancelled. -/
def closeKeys : Hands :=
  let v := { v with jobs := [], cancelled := true, stage := .closingKeys }
  match v.keys with
  | .idle | .sending _ _ | .restoring _ _ _ | .finished => { v with keys := .finished }
  | .lifting _ _ ups _ | .texting ups => v.restore ups

/-- `_let_go` up to its first wait. -/
def letGo : Hands :=
  let release := if v.pointers.lifts = [] then [] else [v.pointers.lifts.map Touch.stroke]
  { v with pointers := Pointers.forget, held := [],
           stage := .lettingGo (release ++ v.held.map fun q => keyStrokes q.2) }

/-- `_let_go` goes on; its sends are not cancelled. -/
def release : Option Hands :=
  match v.stage with
  | .lettingGo (strokes :: rest) =>
    some { v with log := v.log ++ strokes, stage := .lettingGo rest }
  | .lettingGo [] => some { v with stage := .closed }
  | .running | .gathering | .closingKeys | .closed => none

/-! ### The machine -/

/-- The labels. -/
inductive Event
  | touch (points : List (TouchId × Bool))
  | mouse (left right : Bool)
  | wheel
  | key (key : String) (action : KeyAction)
  | button (b : Button) (action : KeyAction)
  | text (text : String)
  /-- The reader is over, or it is cancelled where it waits. -/
  | «end»
  /-- A gesture of somebody else takes an identifier. -/
  | gesture
  | deliverInput
  | sentInput
  | deliverWheel
  | scroll (drag : Bool)
  | job
  | deliverKey
  | sentKey
  /-- `backend.text` returns or raises. -/
  | pasted
  | close
  | closeKeys
  | letGo
  | release
  deriving DecidableEq, Repr

/-- A message, when the reader waits for one. -/
def receive (v' : Hands) : Option Hands := if v.reader = .idle then some v' else none

/-- One step. -/
def step (printable : Char → Bool) : Event → Option Hands
  | .touch points => v.receive (v.touch points)
  | .mouse left right => v.receive (v.mouse left right)
  | .wheel => v.receive v.notch
  | .key key action => v.receive (v.putJob (.press (.key key) action))
  | .button b action => v.receive (v.putJob (.press (.button b) action))
  | .text text => v.receive (if text = "" then v else v.putJob (.paste text))
  | .end => some { v with reader := .finished }
  | .gesture => some { v with next := v.next + 1 }
  | .deliverInput => v.deliverInput
  | .sentInput => v.sentInput
  | .deliverWheel => v.deliverWheel
  | .scroll drag => v.scroll drag
  | .job =>
    match v.keys, v.jobs with
    | .idle, j :: jobs => some ({ v with jobs }.runJob printable j)
    | _, _ => none
  | .deliverKey => v.deliverKey
  | .sentKey => v.sentKey
  | .pasted =>
    match v.keys with
    | .texting ups => some (v.restore ups)
    | .idle | .sending _ _ | .lifting _ _ _ _ | .restoring _ _ _ | .finished => none
  | .close => if v.stage = .running then some v.close else none
  | .closeKeys =>
    if v.stage = .gathering ∧ v.wheel = .finished then some v.closeKeys else none
  | .letGo => if v.stage = .closingKeys ∧ v.keys = .finished then some v.letGo else none
  | .release => v.release

/-- A session that was just registered. -/
def Initial : Prop :=
  v = { pointers := Pointers.forget, next := v.next, held := [], notches := false, jobs := [],
        reader := .idle, wheel := .idle, keys := .idle, cancelled := false, stage := .running,
        log := [] }

end Hands

end Input

/-- The machine of the input of a session. -/
def inputMachine (printable : Char → Bool) : Machine Input.Hands Input.Hands.Event where
  Init := Input.Hands.Initial
  step v e := v.step printable e

end AndroidAppliance
