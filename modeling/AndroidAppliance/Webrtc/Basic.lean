import AndroidAppliance.Transition.Machine

/-!
# The signaling bridge

`Stream` and `Bridge` of `appliance/webrtc.py`. A stream has its request to the emulator and
up to four tasks: the `open` that waits for the request, the pump that receives the
emulator's messages, the release that makes the emulator let the stream go, and any number
of `aclose`. A task is modelled by where it waits, and `Stream.step` is one stretch of one of
them, the end of an awaited operation, or a call of `close`.

The streams share nothing but the two limits, so a step of the `Bridge` is the creation of a
stream or a step of one stream. What a stream tells its viewer is kept as a list
(`Stream.told`). The texts for the emulator (a throwaway answer, a dead candidate) are left
out; that they are sent, and that this may fail or take too long, is not.
-/

namespace AndroidAppliance

namespace Webrtc

/-! ### Messages -/

/-- What is relayed to the viewer. -/
inductive Jsep
  | offer (sdp : String)
  | candidate (candidate : String) (sdpMid : Option String) (sdpMLineIndex : Option Int)
  deriving DecidableEq, Repr

/-- A message of the emulator, as `_handle` sorts it. -/
inductive Message
  /-- No JSON object. -/
  | unreadable
  | bye (text : String)
  | offer (sdp : String)
  | candidate (candidate : String) (sdpMid : Option String) (sdpMLineIndex : Option Int)
  /-- An object with none of these fields, such as the echo of the ICE configuration. -/
  | other
  deriving DecidableEq, Repr

/-- What reaches the viewer of a stream, and its calls of `close` and `aclose`. -/
inductive Told
  /-- `on_message`. -/
  | message (data : Jsep)
  /-- `on_end`. -/
  | ended (reason : String)
  | closed
  deriving DecidableEq, Repr

/-! ### Tasks -/

/-- `_request`. -/
inductive Request
  | absent
  | pending
  | answered
  /-- It failed with a gRPC error. -/
  | failed
  | cancelled
  deriving DecidableEq, Repr

/-- Where `open` waits. -/
inductive OpenPc
  /-- It was not called yet. -/
  | fresh
  | waiting
  | ended
  deriving DecidableEq, Repr

/-- Where `_receive` waits. -/
inductive PumpPc
  | absent
  | created
  | receiving
  | ended
  deriving DecidableEq, Repr

/-- Where `_let_go` waits, or `_let_go_late` before it. -/
inductive ReleasePc
  | absent
  | created (late : Bool)
  /-- `_let_go_late`, for the request. -/
  | request
  /-- `_answer_nobody`: the offer, an address, and two messages. -/
  | offer
  | address
  | answer
  | candidate
  /-- The pump, for STUCK_AFTER. -/
  | pump
  /-- `_fail_ice`. -/
  | failIce
  /-- The pump, for RELEASE_TIMEOUT. -/
  | pumpAgain
  | ended
  deriving DecidableEq, Repr

/-- An `aclose` in its `gather`, with the tasks that it waits for. -/
structure Aclose where
  release : Bool
  pump : Bool
  request : Bool
  finished : Bool
  deriving DecidableEq, Repr

/-- The pump has not ended. -/
def PumpPc.unfinished : PumpPc → Bool
  | .created | .receiving => true
  | .absent | .ended => false

/-- The release has not ended. -/
def ReleasePc.unfinished : ReleasePc → Bool
  | .created _ | .request | .offer | .address | .answer | .candidate | .pump | .failIce
  | .pumpAgain => true
  | .absent | .ended => false

/-- The waits inside the `try` of `_let_go`. -/
def ReleasePc.lettingGo : ReleasePc → Bool
  | .offer | .address | .answer | .candidate | .pump | .failIce | .pumpAgain => true
  | .absent | .created _ | .request | .ended => false

end Webrtc

open Webrtc

/-- `Stream`. -/
structure Stream where
  live : Bool
  /-- It is one of the streams of its `Bridge`. -/
  counted : Bool
  request : Request
  /-- `cancel()` was called on the request. -/
  requestCancelled : Bool
  opening : OpenPc
  pump : PumpPc
  pumpCancelled : Bool
  release : ReleasePc
  releaseCancelled : Bool
  acloses : List Aclose
  answered : Bool
  /-- The offer has come. -/
  offered : Bool
  told : List Told
  deriving DecidableEq, Repr

namespace Stream

/-- `Stream.__init__`, and its entry in the `Bridge`. -/
def new : Stream :=
  { live := true, counted := true, request := .absent, requestCancelled := false,
    opening := .fresh, pump := .absent, pumpCancelled := false, release := .absent,
    releaseCancelled := false, acloses := [], answered := false, offered := false, told := [] }

variable (s : Stream)

/-- `Bridge.forget`. -/
def forget : Stream := { s with counted := false }

/-- `_on_message` or `_on_end`. -/
def tell (x : Told) : Stream := { s with told := s.told ++ [x] }

/-! ### `open` -/

/-- `open` up to its wait. -/
def beginOpen : Stream := { s with request := .pending, opening := .waiting }

/-- CancelledError in `open`. -/
def leave : Stream :=
  { s with live := false, opening := .ended, release := .created true, releaseCancelled := false }

/-- `open` after its wait; `none` while the request is pending. -/
def opened : Option Stream :=
  if s.opening ≠ .waiting then none
  else match s.request with
    | .answered =>
      let s := { s with opening := .ended, pump := .created, pumpCancelled := false }
      some (if s.live then s else { s with release := .created false, releaseCancelled := false })
    | .failed => some { s with opening := .ended }
    | .cancelled => some s.leave
    | .absent | .pending => none

/-! ### `close` and `aclose` -/

/-- `close` of a stream that is still live. -/
def shut : Stream :=
  let s := { s with live := false }
  if s.pump.unfinished then { s with release := .created false, releaseCancelled := false }
  else if s.request = .pending then s
  else s.forget

/-- `close`. -/
def close : Stream :=
  let s := s.tell .closed
  if s.live then s.shut else s

/-- `cancel()` of the three tasks. -/
def cancelTasks : Stream :=
  { s with
    releaseCancelled := s.releaseCancelled || s.release.unfinished
    pumpCancelled := s.pumpCancelled || s.pump.unfinished
    requestCancelled := s.requestCancelled || decide (s.request = .pending) }

/-- `aclose` up to its wait. -/
def aclose : Stream :=
  let s := s.close
  { s.cancelTasks with
    acloses := s.acloses ++
      [{ release := s.release ≠ .absent, pump := s.pump ≠ .absent, request := s.request ≠ .absent,
         finished := false }] }

/-- The tasks that an `aclose` waits for are over. -/
def gathered (a : Aclose) : Bool :=
  !(a.release && s.release.unfinished) && !(a.pump && s.pump.unfinished) &&
    !(a.request && decide (s.request = .pending))

/-- `aclose` after its wait. -/
def aclosed (j : Nat) : Option Stream :=
  (s.acloses[j]?).bind fun a =>
    if a.finished || !s.gathered a then none
    else some { s.forget with acloses := s.acloses.modify j ({ · with finished := true }) }

/-! ### `_receive` -/

/-- `_forward`. -/
def forward (data : Jsep) : Stream := if s.live then s.tell (.message data) else s

/-- `_receive` after its loop. -/
def endPump (reason : String) : Stream :=
  let s := { s with pump := .ended }
  (if s.live then { s with live := false }.tell (.ended reason) else s).forget

/-- `_handle`, and the end of the loop after a bye. -/
def handle : Message → Stream
  | .unreadable | .other => s
  | .bye text => s.endPump ("the emulator ended the stream: " ++ text)
  | .offer sdp => { s with offered := true }.forward (.offer sdp)
  | .candidate candidate mid index =>
    if candidate = "" then s else s.forward (.candidate candidate mid index)

/-- What the wait of the pump gives back. -/
inductive PumpWake
  /-- The first step. -/
  | start
  /-- `receive_jsep` raised. -/
  | raised
  | message (m : Message)
  /-- The call is over, with the reason of the error if there was one. -/
  | finished (reason : String)
  deriving DecidableEq, Repr

/-- A stretch of the pump. -/
def pumpStep (w : PumpWake) : Option Stream :=
  match s.pump with
  | .created =>
    if s.pumpCancelled then some { s with pump := .ended }
    else match w with
      | .start => some { s with pump := .receiving }
      | .raised => some { s with pump := .ended }
      | .message _ | .finished _ => none
  | .receiving =>
    if s.pumpCancelled then some { s.forget with pump := .ended }
    else match w with
      | .message m => some (s.handle m)
      | .finished reason => some (s.endPump reason)
      | .start | .raised => none
  | .absent | .ended => none

/-! ### `_let_go` -/

/-- `_let_go` up to its first wait. -/
def letGo : Stream := { s with release := if s.answered then .pump else .offer }

/-- The `finally` block of `_let_go`. -/
def letWent : Stream :=
  { s.forget with pumpCancelled := s.pumpCancelled || s.pump.unfinished, release := .ended }

/-- What the wait of the release gives back. -/
inductive ReleaseWake
  /-- It has what it waited for. -/
  | go
  | timeout
  /-- An exception of the sends. -/
  | raised
  deriving DecidableEq, Repr

/-- A stretch of the release. -/
def releaseStep (w : ReleaseWake) : Option Stream :=
  if s.releaseCancelled then
    if s.release.lettingGo then some s.letWent
    else if s.release.unfinished then some { s with release := .ended }
    else none
  else match s.release, w with
    | .created false, .go => some s.letGo
    | .created true, .go => some { s with release := .request }
    | .request, .go =>
      match s.request with
      | .answered => some { s with pump := .created, pumpCancelled := false }.letGo
      | .failed => some { s.forget with release := .ended }
      | .cancelled => some { s with release := .ended }
      | .absent | .pending => none
    | .offer, .go => if s.offered then some { s with release := .address } else none
    | .offer, .timeout => some { s with release := .pump }
    | .address, .go | .address, .timeout => some { s with release := .answer }
    | .address, .raised => some s.letWent
    | .answer, .go => some { s with release := .candidate }
    | .answer, .raised => some s.letWent
    | .candidate, .go => some { s with release := .pump }
    | .candidate, .raised => some s.letWent
    | .pump, .go => if s.pump.unfinished then none else some s.letWent
    | .pump, .timeout => some { s with release := .failIce }
    | .failIce, .go => some { s with release := .pumpAgain }
    | .failIce, .raised => some s.letWent
    | .pumpAgain, .go => if s.pump.unfinished then none else some s.letWent
    | .pumpAgain, .timeout => some s.letWent
    | _, _ => none

/-! ### Steps -/

/-- The labels of one stream. -/
inductive Event
  | beginOpen
  /-- The emulator answers the request, or it fails or is cancelled. -/
  | request (r : Request)
  /-- `open` goes on. -/
  | opened
  /-- The caller of `open` is cancelled. -/
  | cancelOpen
  | close
  | aclose
  | aclosed (j : Nat)
  | pump (w : PumpWake)
  | release (w : ReleaseWake)
  /-- A `send_jsep` for the viewer succeeded; `sdp` tells an answer from a candidate. -/
  | sent (sdp : Bool)
  deriving DecidableEq, Repr

/-- One step of a stream. -/
def step : Event → Option Stream
  | .beginOpen => if s.opening = .fresh then some s.beginOpen else none
  | .request r =>
    if s.request = .pending ∧ r ≠ .absent ∧ r ≠ .pending ∧
        (s.requestCancelled = true → r = .cancelled) then
      some { s with request := r }
    else none
  | .opened => s.opened
  | .cancelOpen => if s.opening = .waiting then some s.leave else none
  | .close => some s.close
  | .aclose => some s.aclose
  | .aclosed j => s.aclosed j
  | .pump w => s.pumpStep w
  | .release w => s.releaseStep w
  | .sent sdp => some { s with answered := s.answered || sdp }

end Stream

/-! ### The bridge -/

/-- MAX_STREAMS and MAX_RELEASING. -/
def Webrtc.maxStreams : Nat := 4

/-- `MAX_RELEASING`. -/
def Webrtc.maxReleasing : Nat := 8

/-- `Bridge`, with every stream that it ever made. -/
structure Bridge where
  streams : List Stream
  deriving DecidableEq, Repr

namespace Bridge

variable (b : Bridge)

/-- The number of the live streams, and of all, among the ones it counts. -/
def live : Nat := b.streams.countP fun s => s.counted && s.live

/-- How many streams count. -/
def total : Nat := b.streams.countP (·.counted)

/-- Why `create` refuses. -/
inductive StreamLimit
  | full
  | closing
  deriving DecidableEq, Repr

/-- `create`. -/
def create : Except StreamLimit Bridge :=
  if maxStreams ≤ b.live then .error .full
  else if maxReleasing ≤ b.total - b.live then .error .closing
  else .ok { streams := b.streams ++ [.new] }

/-- The labels of the bridge. -/
inductive Event
  | create
  | stream (i : Nat) (e : Stream.Event)
  deriving DecidableEq, Repr

/-- One step of the bridge. -/
def step : Event → Option Bridge
  | .create => b.create.toOption
  | .stream i e =>
    (b.streams[i]?).bind fun s => (s.step e).map fun s' => { streams := b.streams.set i s' }

end Bridge

/-- The machine of the signaling bridge. -/
def bridgeMachine : Machine Bridge Bridge.Event where
  Init b := b.streams = []
  step := Bridge.step

end AndroidAppliance
