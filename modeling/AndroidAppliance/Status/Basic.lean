import AndroidAppliance.Access.Sockets
import AndroidAppliance.Session.Viewer
import AndroidAppliance.Supervisor.Basic
import AndroidAppliance.Transition.Machine

/-!
# Status updates

The watched fields of `appliance/supervisor.py` with `subscribe`, `_changed` and `_notify`, and what
the sessions of `appliance/session.py` queue of the status. A change schedules one `_notify`, which
the event loop runs in its next turn; it calls every subscriber, and the `Hub` is one of them.

A label is one piece of code that a task runs, one `_notify`, or the end of a turn of the loop.
Between a change and its `_notify` sessions may come and go: `status_current`.
-/

namespace AndroidAppliance

namespace Status

open Supervisor (State Phase)

/-- The watched fields. An error is a `dict`, of some type `ρ`. -/
structure Watched (ρ : Type) where
  state : State
  phase : Option Phase
  gpu : Option String
  apiLevel : Option Nat
  viewers : Nat
  lastError : Option ρ
  deriving DecidableEq, Repr

/-- An assignment to a watched field. -/
inductive Assign (ρ : Type)
  | state (value : State)
  | phase (value : Option Phase)
  | gpu (value : Option String)
  | apiLevel (value : Option Nat)
  | viewers (value : Nat)
  | lastError (value : Option ρ)
  deriving Repr

variable {ρ : Type}

/-- The fields after an assignment. -/
def Assign.apply (w : Watched ρ) : Assign ρ → Watched ρ
  | state value => { w with state := value }
  | phase value => { w with phase := value }
  | gpu value => { w with gpu := value }
  | apiLevel value => { w with apiLevel := value }
  | viewers value => { w with viewers := value }
  | lastError value => { w with lastError := value }

/-- A callback that was given to `subscribe`. -/
inductive Subscriber
  /-- `Hub._status_changed`. -/
  | hub
  | other
  deriving DecidableEq, Repr

/-- What another callback does: its assignments, and whether it raises after them. -/
structure Call (ρ : Type) where
  sets : List (Assign ρ)
  raises : Bool

/-! ### Sessions -/

/-- A message in an outbox. -/
inductive Message (ρ : Type)
  | status (fields : Watched ρ)
  | other

/-- The status in a message. -/
def Message.fields? : Message ρ → Option (Watched ρ)
  | status fields => some fields
  | other => none

/-- A `Session`, with all that was queued to it. -/
structure Session (ρ : Type) where
  /-- It is one of the sessions of the hub. -/
  isOpen : Bool
  streaming : Bool
  outbox : List (Message ρ)
  queued : List (Message ρ)
  /-- Its outbox refused a message. -/
  overflowed : Bool

namespace Session

/-- `send`. A full outbox ends the session. -/
def send (s : Session ρ) (m : Message ρ) : Session ρ :=
  if s.outbox.length < Session.outboxSize then
    { s with outbox := s.outbox ++ [m], queued := s.queued ++ [m] }
  else { s with overflowed := true }

/-- The last status that was queued. -/
def lastStatus (s : Session ρ) : Option (Watched ρ) := (s.queued.filterMap Message.fields?).getLast?

/-- `status_changed`, as far as it sends. -/
def statusChanged (s : Session ρ) (fields : Watched ρ) : Session ρ := s.send (.status fields)

/-- What `run` queues to a new session: `hello` and the status. -/
def new (fields : Watched ρ) : Session ρ :=
  ((Session.mk true false [] [] false).send .other).send (.status fields)

end Session

/-! ### The Supervisor and its sessions -/

/-- The fields of a Supervisor, its subscribers and the sessions of the hub. -/
structure World (ρ : Type) where
  fields : Watched ρ
  subscribers : List Subscriber
  /-- `_notify_pending`. -/
  pending : Bool
  /-- The calls of `_notify` that the loop runs in this turn. -/
  due : Nat
  /-- The calls of `_notify` that were scheduled in this turn: the next one runs them. -/
  soon : Nat
  sessions : List (Session ρ)

/-- The labels. -/
inductive Event (ρ : Type)
  | subscribe (callback : Subscriber)
  | assign (a : Assign ρ)
  /-- A WebSocket becomes a session. -/
  | join
  /-- The session `i` has a stream now, or has lost it. -/
  | stream (i : Nat) (on : Bool)
  /-- `Hub.count_viewers`. -/
  | count
  /-- The session `i` closes. -/
  | close (i : Nat)
  /-- Another message for the session `i`. -/
  | send (i : Nat)
  /-- The writer of the session `i` takes a message. -/
  | take (i : Nat)
  /-- The loop runs a `_notify`; `calls` says what the other callbacks do. -/
  | notify (calls : Nat → Call ρ)
  /-- A turn of the loop is over. -/
  | turn

namespace World

/-- `_changed`. -/
def changed (w : World ρ) : World ρ :=
  if w.subscribers = [] ∨ w.pending then w
  else { w with pending := true, soon := w.soon + 1 }

variable [DecidableEq ρ]

/-- `_Watched.__set__`. -/
def assign (w : World ρ) (a : Assign ρ) : World ρ :=
  if a.apply w.fields = w.fields then w else changed { w with fields := a.apply w.fields }

/-- `Hub.count_viewers`. -/
def countViewers (w : World ρ) : World ρ :=
  w.assign (.viewers (w.sessions.countP fun s => s.isOpen && s.streaming))

omit [DecidableEq ρ] in
/-- `Hub._status_changed`. -/
def statusChanged (w : World ρ) : World ρ :=
  { w with sessions := w.sessions.map fun s => if s.isOpen then s.statusChanged w.fields else s }

/-- One callback. `_notify` logs what it raises and goes on. -/
def callback (w : World ρ) (c : Call ρ) : Subscriber → World ρ × Bool
  | .hub => (w.statusChanged, false)
  | .other => (c.sets.foldl assign w, c.raises)

/-- The loop of `_notify`, from the subscriber `i` on. -/
def callAll (calls : Nat → Call ρ) (i : Nat) (w : World ρ) : List Subscriber → World ρ
  | [] => w
  | s :: rest => callAll calls (i + 1) (w.callback (calls i) s).1 rest

/-- `_notify`. -/
def notify (w : World ρ) (calls : Nat → Call ρ) : World ρ :=
  callAll calls 0 { w with pending := false, due := w.due - 1 } w.subscribers

/-- One step. -/
def step (w : World ρ) : Event ρ → Option (World ρ)
  | .subscribe callback => some { w with subscribers := w.subscribers ++ [callback] }
  | .assign a => some (w.assign a)
  | .join =>
    if Subscriber.hub ∈ w.subscribers ∧
        w.sessions.countP (fun s => s.isOpen) < Access.maxSessions then
      some { w with sessions := w.sessions ++ [Session.new w.fields] }
    else none
  | .stream i on =>
    some { w with sessions := w.sessions.modify i fun s => { s with streaming := on } }.countViewers
  | .count => some w.countViewers
  | .close i => some { w with sessions := w.sessions.modify i fun s => { s with isOpen := false } }
  | .send i => some { w with sessions := w.sessions.modify i fun s => s.send .other }
  | .take i =>
    some { w with sessions := w.sessions.modify i fun s => { s with outbox := s.outbox.tail } }
  | .notify calls => if w.due = 0 then none else some (w.notify calls)
  | .turn => if w.due = 0 then some { w with due := w.soon, soon := 0 } else none

end World

/-- The machine of a Supervisor that has just been built, and the sessions after it. -/
def statusMachine (ρ : Type) [DecidableEq ρ] : Machine (World ρ) (Event ρ) where
  Init w := w.subscribers = [] ∧ w.pending = false ∧ w.due = 0 ∧ w.soon = 0 ∧ w.sessions = []
  step := World.step

/-- What no update is lost means: a `_notify` is still to run, or the last status of each open
session, if its outbox did not overflow, is the current one. -/
def World.Current (w : World ρ) : Prop :=
  0 < w.due + w.soon ∨
    ∀ s ∈ w.sessions, s.isOpen = true → s.overflowed = false → s.lastStatus = some w.fields

end Status

end AndroidAppliance
