import AndroidAppliance.Transition.Machine
import Mathlib.Algebra.Order.Floor.Defs
import Mathlib.Data.Rat.Floor

/-!
# The link of the dashboard

`Link` of `web/js/protocol.js` with the delays of `backoff.js`. `Link.handle` takes an event
and leaves the effects that its caller runs in `Link.effects`. The ICE servers and the
signaling data pass through, so their types are parameters. Of a status only its `state` and
`version` are kept, and a delay is a number without rounding errors.

`linkMachine` runs a link through events in any order in which a browser can deliver them,
and replays the effects on the peer connection.
-/

namespace AndroidAppliance

namespace Dashboard

/-! ### `backoff.js` -/

/-- `MIN_DELAY`. -/
def minDelay : ℚ := 500

/-- `MAX_DELAY`. -/
def maxDelay : ℚ := 10000

/-- `JITTER`. -/
def jitter : ℚ := 1 / 4

/-- `backoffDelay`, with the number that `random` gives. -/
def backoffDelay (attempt : Nat) (random : ℚ) : ℤ :=
  let base := min maxDelay (minDelay * 2 ^ attempt)
  let spread := 1 + jitter * (2 * random - 1)
  ⌊min maxDelay (max minDelay (base * spread)) + 1 / 2⌋

/-! ### States, messages and effects -/

/-- `state.socket`. -/
inductive SocketState
  | idle
  | connecting
  | «open»
  /-- Waiting to retry. -/
  | closed
  deriving DecidableEq, Repr

/-- `state.stream`. -/
inductive StreamState
  | idle
  | requested
  | starting
  | negotiating
  | live
  | retrying
  deriving DecidableEq, Repr

/-- The names of the timers. -/
inductive Timer
  | ping
  | silence
  | socketStable
  | socketRetry
  | streamRetry
  | negotiate
  | iceDisconnected
  | stable
  | hidden
  deriving DecidableEq, Repr

/-- `iceConnectionState`. -/
inductive IceState
  | new
  | checking
  | connected
  | completed
  | disconnected
  | failed
  | closed
  deriving DecidableEq, Repr

/-- `connectionState`. -/
inductive ConnectionState
  | new
  | connecting
  | connected
  | disconnected
  | failed
  | closed
  deriving DecidableEq, Repr

/-- A status; a `state` that is no text is none. -/
structure Status where
  state : Option String
  version : Option String
  deriving DecidableEq, Repr

/-- The `state` of a stream message. -/
inductive StreamNews
  | starting
  | configured
  | ended
  | other
  deriving DecidableEq, Repr

/-- A message of the server; a field that is missing or null is none. -/
inductive Message (S J : Type)
  | status (status : Status)
  | hello (device : Option (ℚ × ℚ)) (version : Option String)
  | stream (news : StreamNews) (iceServers : Option S) (iceTransportPolicy reason : Option String)
  | jsep (data : J)
  | error (message : Option String)
  | other
  deriving DecidableEq, Repr

/-- The events. -/
inductive Event (S J : Type)
  | start
  | socketOpen
  | socketClose (opened : Bool)
  | message (m : Message S J)
  | timer (name : Timer)
  | peer (ice : IceState) (connection : ConnectionState)
  | froze
  | visibility (visible : Bool)
  | retry
  deriving DecidableEq, Repr

/-- A message to the server. -/
inductive Request
  | start
  | stop
  deriving DecidableEq, Repr

/-- The effects. -/
inductive Effect (S J : Type)
  | socketOpen
  | socketClose
  | send (m : Request)
  | ping
  | timer (name : Timer) (ms : ℤ)
  | cancel (name : Timer)
  | peerOpen (iceServers : Option S) (iceTransportPolicy : Option String)
  | peerSignal (data : J)
  | peerClose
  | checkAuth
  deriving DecidableEq, Repr

/-- `HIDDEN_AFTER_MS`. -/
def hiddenAfterMs : ℤ := 60000

/-- `PING_EVERY_MS`. -/
def pingEveryMs : ℤ := 10000

/-- `SILENCE_MS`. -/
def silenceMs : ℤ := 25000

/-- `NEGOTIATE_MS`. -/
def negotiateMs : ℤ := 15000

/-- `DISCONNECTED_MS`. -/
def disconnectedMs : ℤ := 4000

/-- `STABLE_MS`. -/
def stableMs : ℤ := 8000

/-- `NATURAL_FRAME`. -/
def naturalFrame : ℚ × ℚ := (1080, 1920)

/-- `ACTIVE`. -/
def StreamState.active : StreamState → Bool
  | .starting | .negotiating | .live => true
  | .idle | .requested | .retrying => false

/-- The states in which an error message is a failure of the stream. -/
def StreamState.beginning : StreamState → Bool
  | .requested | .starting | .negotiating => true
  | .idle | .live | .retrying => false

/-- The states with a peer connection. -/
def StreamState.peered : StreamState → Bool
  | .negotiating | .live => true
  | .idle | .requested | .starting | .retrying => false

end Dashboard

open Dashboard

/-- `Link`. -/
structure Link (S J : Type) where
  socket : SocketState
  socketAttempts : Nat
  status : Option Status
  device : ℚ × ℚ
  version : Option String
  visible : Bool
  paused : Bool
  stream : StreamState
  streamAttempts : Nat
  streamReason : String
  ice : IceState
  connection : ConnectionState
  armed : Timer → Bool
  /-- The effects of the event. -/
  effects : List (Effect S J)

namespace Link

variable {S J : Type}

/-- `new Link()`. -/
def new : Link S J :=
  { socket := .idle, socketAttempts := 0, status := none, device := naturalFrame,
    version := none, visible := true, paused := false, stream := .idle, streamAttempts := 0,
    streamReason := "", ice := .new, connection := .new, armed := fun _ => false,
    effects := [] }

variable (l : Link S J)

/-- The status says that Android runs. -/
def running : Bool := l.status.any (·.state = some "running")

/-- `wantsStream`. -/
def wantsStream : Bool := l.socket = .open && l.running && !l.paused

/-! ### Effects and timers -/

/-- One more effect. -/
def push (x : Effect S J) : Link S J := { l with effects := l.effects ++ [x] }

/-- `#timer`. -/
def timer (name : Timer) (ms : ℤ) : Link S J :=
  { l with armed := fun n => n = name || l.armed n }.push (.timer name ms)

/-- `#armed.delete`. -/
def disarm (name : Timer) : Link S J := { l with armed := fun n => n ≠ name && l.armed n }

/-- `#cancel` of one timer. -/
def cancelOne (name : Timer) : Link S J :=
  if l.armed name then (l.disarm name).push (.cancel name) else l

/-- `#cancel`. -/
def cancel (names : List Timer) : Link S J := names.foldl cancelOne l

/-! ### The helpers of the handlers -/

/-- `#endStream`. -/
def endStream : Link S J :=
  let l := if l.stream ≠ .idle then l.push .peerClose else l
  let l := l.cancel [.negotiate, .iceDisconnected, .stable, .streamRetry]
  { l with stream := .idle, streamAttempts := 0, ice := .new, connection := .new }

/-- `#fail`. -/
def fail (random : ℚ) (reason : String) : Link S J :=
  let l := (l.push .peerClose).cancel [.negotiate, .iceDisconnected, .stable]
  { l with streamReason := reason, stream := .retrying, ice := .new, connection := .new,
           streamAttempts := l.streamAttempts + 1 }.timer .streamRetry
    (backoffDelay l.streamAttempts random)

/-- `#socketLost`. -/
def socketLost (random : ℚ) (opened : Bool) : Link S J :=
  let l := { l with socket := .closed, status := none }.endStream
  let l := l.cancel [.ping, .silence, .socketStable]
  let l := { l with socketAttempts := l.socketAttempts + 1 }.timer .socketRetry
    (backoffDelay l.socketAttempts random)
  if opened then l else l.push .checkAuth

/-- `#retry`. -/
def retry : Link S J :=
  if l.socket = .closed then
    { l.cancel [.socketRetry] with socketAttempts := 0, socket := .connecting }.push .socketOpen
  else if l.socket = .open ∧ l.stream ≠ .idle then l.endStream
  else l

/-- `#reconcile`. -/
def reconcile : Link S J :=
  if !l.wantsStream then
    if l.stream = .idle then l
    else (if l.socket = .open && l.running then l.push (.send .stop) else l).endStream
  else if l.stream = .idle then
    ({ l with stream := .requested }.push (.send .start)).timer .negotiate negotiateMs
  else l

/-! ### The handlers -/

/-- The text, or the default when it is missing or empty. -/
def textOr (text : Option String) (default : String) : String :=
  match text with
  | none | some "" => default
  | some text => text

/-- `#streamMessage`. -/
def streamMessage (random : ℚ) (news : StreamNews) (iceServers : Option S)
    (iceTransportPolicy reason : Option String) : Link S J :=
  match news with
  | .starting => if l.stream = .requested then { l with stream := .starting } else l
  | .configured =>
    if l.stream = .requested ∨ l.stream = .starting then
      { l with stream := .negotiating }.push (.peerOpen iceServers iceTransportPolicy)
    else l
  | .ended =>
    if l.stream.active then
      l.fail random (match reason with
        | none | some "" => "The stream ended."
        | some reason => "The stream ended: " ++ reason)
    else l
  | .other => l

/-- `#message`. -/
def message (random : ℚ) : Message S J → Link S J
  | .status status =>
    { l with status := some status, version := status.version <|> l.version }
  | .hello device version =>
    let l := match device with
      | some (width, height) =>
        if 0 < width ∧ 0 < height then { l with device := (width, height) } else l
      | none => l
    { l with version := version <|> l.version }
  | .stream news iceServers policy reason => l.streamMessage random news iceServers policy reason
  | .jsep data => if l.stream.peered then l.push (.peerSignal data) else l
  | .error text =>
    if l.stream.beginning then l.fail random (textOr text "The server refused the stream.") else l
  | .other => l

/-- `#fired`. -/
def fired (random : ℚ) : Timer → Link S J
  | .ping => (l.push .ping).timer .ping pingEveryMs
  | .silence => (l.push .socketClose).socketLost random true
  | .socketStable => { l with socketAttempts := 0 }
  | .socketRetry =>
    if l.socket = .closed then { l with socket := .connecting }.push .socketOpen else l
  | .streamRetry => if l.stream = .retrying then { l with stream := .idle } else l
  | .negotiate => l.fail random "The video connection timed out."
  | .iceDisconnected => l.fail random "The video connection was lost."
  | .stable => { l with streamAttempts := 0 }
  | .hidden => { l with paused := true }

/-- `#peer`. -/
def peer (random : ℚ) (ice : IceState) (connection : ConnectionState) : Link S J :=
  let l := { l with ice, connection }
  if !l.stream.peered then l
  else match connection with
    | .connected =>
      ({ l with stream := .live, streamReason := "" }.cancel
        [.negotiate, .iceDisconnected]).timer .stable stableMs
    | .disconnected =>
      if l.armed .iceDisconnected then l else l.timer .iceDisconnected disconnectedMs
    | .failed => l.fail random "The video connection failed."
    | .new | .connecting | .closed => l

/-- `#on`. -/
def on (random : ℚ) : Event S J → Link S J
  | .start => { l with socket := .connecting }.push .socketOpen
  | .socketOpen =>
    (({ l with socket := .open }.timer .ping pingEveryMs).timer .silence silenceMs).timer
      .socketStable stableMs
  | .socketClose opened => l.socketLost random opened
  | .message m => (if l.socket = .open then l.timer .silence silenceMs else l).message random m
  | .timer name => (l.disarm name).fired random name
  | .peer ice connection => l.peer random ice connection
  | .froze => if l.stream.active then l.fail random "The video froze." else l
  | .visibility true =>
    { { l with visible := true }.cancel [.hidden] with paused := false }
  | .visibility false => { l with visible := false }.timer .hidden hiddenAfterMs
  | .retry => l.retry

/-- `handle`. -/
def handle (random : ℚ) (e : Event S J) : Link S J :=
  ({ l with effects := [] }.on random e).reconcile

/-- When a browser can deliver an event; the first one is `start`. -/
def Delivers : Event S J → Prop
  | .start => False
  | .socketOpen => l.socket = .connecting
  | .socketClose _ => l.socket = .connecting ∨ l.socket = .open
  | .timer name => l.armed name = true
  | .message _ | .peer _ _ | .froze | .visibility _ | .retry => True

instance : DecidablePred l.Delivers
  | .start => inferInstanceAs (Decidable False)
  | .socketOpen => inferInstanceAs (Decidable (_ = _))
  | .socketClose _ => inferInstanceAs (Decidable (_ ∨ _))
  | .timer _ => inferInstanceAs (Decidable (_ = true))
  | .message _ | .peer _ _ | .froze | .visibility _ | .retry => inferInstanceAs (Decidable True)

end Link

namespace Dashboard

variable {S J : Type}

/-- The peer connection, where the effects are run. -/
def replay (isOpen : Bool) : Effect S J → Bool
  | .peerOpen _ _ => true
  | .peerClose => false
  | .socketOpen | .socketClose | .send _ | .ping | .timer _ _ | .cancel _ | .peerSignal _
  | .checkAuth => isOpen

/-- A link, and whether there is a peer connection. -/
structure Page (S J : Type) where
  link : Link S J
  isOpen : Bool

/-- The link handles an event, and its effects are run. -/
def Page.handle (p : Page S J) (random : ℚ) (e : Event S J) : Page S J :=
  let link := p.link.handle random e
  { link, isOpen := link.effects.foldl replay p.isOpen }

end Dashboard

/-- The machine of a link that was started, with the events and the random numbers. -/
def linkMachine (S J : Type) : Machine (Page S J) (Dashboard.Event S J × ℚ) where
  Init p := ∃ random, p = Page.handle { link := .new, isOpen := false } random .start
  step p e := if p.link.Delivers e.1 then some (p.handle e.2 e.1) else none

end AndroidAppliance
