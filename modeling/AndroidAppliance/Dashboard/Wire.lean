import AndroidAppliance.Dashboard.Events
import AndroidAppliance.Session.Grammar

/-!
# A dashboard and its session

One WebSocket with the page at one end and a `Session` at the other: the link of the page and
its peer connection (`peer.js`), the messages that are under way in both directions, and the
session with its streams. The messages to the page are the ones of the session's log that
were not delivered yet.

The page lives longer than the socket, so a `Wire` begins with a link that is connecting and
goes on until the link gives the socket up. What the messages are about is kept beside them
(`Entry`); neither end looks at it. `Wire.turned` and `Wire.applied` record what the page did
with the messages of its streams.
-/

namespace AndroidAppliance

open Session

/-- What is delivered; `news` is the message that has another type. -/
def Session.Entry.message (news : Dashboard.Message (List Turn.IceServer) Webrtc.Jsep) :
    Entry → Option (Dashboard.Message (List Turn.IceServer) Webrtc.Jsep)
  | .starting _ => some (.stream .starting none none none)
  | .configured _ servers => some (.stream .configured (some servers) (some "relay") none)
  | .ended _ reason => some (.stream .ended none none (some reason))
  | .stopped => some (.stream .ended none none (some "stopped"))
  | .jsep _ data => some (.jsep data)
  | .error _ _ message => some (.error (some message))
  | .other => match news with
    | .status _ | .hello _ _ | .other => some news
    | .stream _ _ _ _ | .jsep _ | .error _ => none
  | .left _ => none

/-- The start message that the entry was produced for. -/
def Session.Entry.start : Entry → Option Nat
  | .starting k | .configured k _ | .ended k _ | .jsep k _ => some k.start
  | .error start _ _ => start
  | .stopped | .other | .left _ => none

/-- The start message that the entry answers. -/
def Session.Entry.answers : Entry → Option Nat
  | .starting k | .configured k _ => some k.start
  | .error start _ _ => start
  | .ended _ _ | .stopped | .jsep _ _ | .other | .left _ => none

/-- The entry is a message. -/
def Session.Entry.isMessage : Entry → Bool
  | .left _ => false
  | .starting _ | .configured _ _ | .ended _ _ | .stopped | .jsep _ _ | .error _ _ _ | .other =>
    true

/-- What the session gets for a request of the link. -/
def Session.ClientMessage.ofRequest : Dashboard.Request → ClientMessage
  | .start => .start
  | .stop => .stop

/-- The peer connection behind an effect; `k` is the stream that a configuration is for. -/
def Dashboard.aim {S J : Type} (k peer : Option Own) : Dashboard.Effect S J → Option Own
  | .peerOpen _ _ => k
  | .peerClose => none
  | .socketOpen | .socketClose | .send _ | .ping | .timer _ _ | .cancel _ | .peerSignal _
  | .checkAuth => peer

/-- A page, its session, and what is under way between them. -/
structure Wire where
  link : Link (List Turn.IceServer) Webrtc.Jsep
  /-- The stream with whose configuration the peer connection was opened. -/
  peer : Option Own
  /-- The messages to the session. -/
  up : List ClientMessage
  viewer : Viewer
  /-- The number of entries of the log that were delivered. -/
  seen : Nat
  /-- The number of starts that the link has sent. -/
  starts : Nat
  /-- The messages about streams, and errors, that changed the state of the stream, with the
  number of starts that had been sent. -/
  turned : List (Entry × Nat)
  /-- The streams whose signaling data was applied, with the one of the peer connection. -/
  applied : List (Own × Option Own)

namespace Wire

variable (w : Wire)

/-- What happens. -/
inductive Event
  /-- An event of the browser, a timer or the user. -/
  | browser (e : Dashboard.Event (List Turn.IceServer) Webrtc.Jsep)
  /-- The status of an HTTP reply. -/
  | reply (status : Dashboard.Status)
  /-- The next message reaches the page. -/
  | deliver (news : Dashboard.Message (List Turn.IceServer) Webrtc.Jsep)
  /-- The peer connection makes an answer or a candidate. -/
  | signal (data : Signal)
  /-- The page sends a message that is not about streams. -/
  | input (m : ClientMessage)
  /-- The session reads the next message. -/
  | receive (tell : Bool)
  /-- The next message comes too fast, and no more is read. -/
  | flood (tell : Bool)
  /-- Another step of the session or of the bridge. -/
  | server (e : Viewer.Event)

/-- The socket is not given up yet. -/
def linked : Bool := w.link.socket = .connecting || w.link.socket = .open

/-- The link handles an event, and its effects are run; `k` is the stream that a
configuration is for. -/
def react (random : ℚ) (e : Dashboard.Event (List Turn.IceServer) Webrtc.Jsep)
    (k : Option Own) : Wire :=
  let link := w.link.handle random e
  { w with
    link, peer := link.effects.foldl (Dashboard.aim k) w.peer
    up := w.up ++ link.sent.map .ofRequest
    starts := w.starts + link.sent.count .start }

/-- The message of an entry is handled. -/
def take (random : ℚ) (x : Entry) (m : Dashboard.Message (List Turn.IceServer) Webrtc.Jsep) :
    Wire :=
  let w' := w.react random (.message m) x.about
  { w' with
    turned :=
      if x ≠ .other ∧ w'.link.stream ≠ w.link.stream then w.turned ++ [(x, w.starts)] else w.turned
    applied := match x with
      | .jsep k data =>
        if .peerSignal data ∈ w'.link.effects then w.applied ++ [(k, w.peer)] else w.applied
      | .starting _ | .configured _ _ | .ended _ _ | .stopped | .error _ _ _ | .other | .left _ =>
        w.applied }

/-- The entries that the page has not got yet. -/
def down : List Entry := w.viewer.log.drop w.seen

/-- The next entry is delivered, if it has left the outbox. -/
def deliver (random : ℚ) (news : Dashboard.Message (List Turn.IceServer) Webrtc.Jsep) :
    Option Wire :=
  match w.down with
  | [] => none
  | .left _ :: _ => some { w with seen := w.seen + 1 }
  | x :: _ =>
    if w.link.socket = .open ∧ w.viewer.outbox < w.down.countP (·.isMessage) then
      (x.message news).map fun m => { w with seen := w.seen + 1 }.take random x m
    else none

/-- The session takes the next message. -/
def receive (tell : Bool) : Option Wire :=
  match w.up with
  | [] => none
  | m :: up => (w.viewer.step (.receive m tell)).map fun viewer => { w with up, viewer }

/-- One event. -/
def step (random : ℚ) : Event → Option Wire
  | .browser (.message _) => none
  | .browser e => if w.linked ∧ w.link.Delivers e then some (w.react random e none) else none
  | .reply status =>
    if w.linked then some (w.react random (.message (.status status)) none) else none
  | .deliver news => w.deliver random news
  | .signal data =>
    if w.link.socket = .open then
      w.peer.map fun k => { w with up := w.up ++ [.jsep data k.start] }
    else none
  | .input (.refused code message) =>
    if w.link.socket = .open then some { w with up := w.up ++ [.refused code message] } else none
  | .input .accepted =>
    if w.link.socket = .open then some { w with up := w.up ++ [.accepted] } else none
  | .input .start | .input .stop | .input (.jsep _ _) => none
  | .receive tell => w.receive tell
  | .flood tell =>
    if w.up = [] then none else (w.viewer.step (.flood tell)).map fun viewer => { w with viewer }
  | .server (.receive _ _) | .server (.flood _) => none
  | .server e => (w.viewer.step e).map fun viewer => { w with viewer }

/-- A socket was opened, and its session registered. -/
def Initial : Prop :=
  (∃ p : Dashboard.Page (List Turn.IceServer) Webrtc.Jsep,
      (linkMachine _ _).Reachable p ∧ p.link = w.link) ∧
    w.link.socket = .connecting ∧ w.viewer.Initial ∧
    w = { link := w.link, peer := none, up := [], viewer := w.viewer, seen := 0, starts := 0,
          turned := [], applied := [] }

/-- A start of the link was not answered to the end: it is under way, it waits or runs in the
control lane, or an answer is under way. -/
def unanswered : Bool :=
  w.up.any (· = .start) ||
    w.viewer.jobs.any (fun job => match job with
      | .start _ => true
      | .stop | .relay _ _ | .androidStopped => false) ||
    (match w.viewer.pc with
      | .opening _ _ => true
      | .idle | .relaying _ _ | .finished => false) ||
    w.down.any (·.answers.isSome)

/-- The link does not send a start in this event, or all its starts are answered. -/
def Waits (random : ℚ) (e : Dashboard.Event (List Turn.IceServer) Webrtc.Jsep) : Prop :=
  .start ∈ (w.link.handle random e).sent → w.unanswered = false

instance (random : ℚ) : DecidablePred (w.Waits random) := fun e =>
  inferInstanceAs (Decidable (.start ∈ (w.link.handle random e).sent → w.unanswered = false))

/-- An error that answers no start does not reach a stream that is being set up. -/
def Spares : Entry → Prop
  | .error none _ _ => w.link.stream.beginning = false
  | .error (some _) _ _ | .starting _ | .configured _ _ | .ended _ _ | .stopped | .jsep _ _ | .other
  | .left _ => True

instance : DecidablePred w.Spares
  | .error none _ _ => inferInstanceAs (Decidable (_ = _))
  | .error (some _) _ _ | .starting _ | .configured _ _ | .ended _ _ | .stopped | .jsep _ _ | .other
  | .left _ => inferInstanceAs (Decidable True)

/-- A start waits for the answers to the starts before it, and no error that answers no start
reaches a stream that is being set up. -/
def Clear (e : Event × ℚ) : Prop :=
  match e.1 with
  | .browser d => w.Waits e.2 d
  | .reply status => w.Waits e.2 (.message (.status status))
  | .deliver news => ∀ x ∈ w.down.head?,
    w.Spares x ∧ ∀ m ∈ x.message news, w.Waits e.2 (.message m)
  | .signal _ | .input _ | .receive _ | .flood _ | .server _ => True

instance : DecidablePred w.Clear
  | (.browser _, _) | (.reply _, _) => inferInstanceAs (Decidable (w.Waits _ _))
  | (.deliver news, random) => inferInstanceAs (Decidable (∀ x ∈ w.down.head?,
    w.Spares x ∧ ∀ m ∈ x.message news, w.Waits random (.message m)))
  | (.signal _, _) | (.input _, _) | (.receive _, _) | (.flood _, _) | (.server _, _) =>
    inferInstanceAs (Decidable True)

/-- Every message that changed the state of the stream was produced for the start that was sent
last, signaling data was applied to the peer connection of its stream, and what a peer
connection made was relayed to its stream. -/
structure Attributed (w : Wire) : Prop where
  turned : ∀ x starts, (x, starts) ∈ w.turned → ∃ n, x.start = some n ∧ n + 1 = starts
  applied : ∀ k peer, (k, peer) ∈ w.applied → peer = some k
  relayed : ∀ n k, (n, k) ∈ w.viewer.relayed → k.start = n ∧
    ∀ k' ∈ w.viewer.owns, k'.start = n → k' = k

end Wire

/-- The machine of a page and its session, with the random numbers. -/
def wireMachine : Machine Wire (Wire.Event × ℚ) where
  Init := Wire.Initial
  step w e := w.step e.2 e.1

end AndroidAppliance
