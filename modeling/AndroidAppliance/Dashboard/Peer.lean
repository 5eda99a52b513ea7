import AndroidAppliance.Transition.Machine
import AndroidAppliance.Transition.Registers
import Mathlib.Algebra.Ring.Nat

/-!
# The peer connection of the dashboard

`Peer` of `web/js/peer.js`. The messages of the emulator come one after another, and each is
applied by asynchronous calls of the browser: `signal` chains them on the promise of `#queue`.
A message may come, a call may fail and the peer may be closed at any time in between. The
state keeps what was received, what was begun and what the browser was asked.

`peer_in_order` is the comment above `signal`: the messages are handled in order, whatever
fails. No candidate is added before there is a remote description, none is lost, repeated or
overtaken, and an answer is sent for an offer only.
-/

namespace AndroidAppliance

namespace Dashboard

/-! ### `web/js/peer.js` -/

/-- What a candidate is called with. -/
structure Candidate where
  candidate : String
  sdpMid : Option String
  sdpMLineIndex : Option Nat
  deriving DecidableEq, Repr

/-- The `data` of `signal`. -/
structure PeerSignal where
  type : Option String
  sdp : Option String
  candidate : Option String
  sdpMid : Option String
  sdpMLineIndex : Option Nat
  deriving DecidableEq, Repr

namespace PeerSignal

variable (m : PeerSignal)

/-- `data.type === 'offer'`. -/
def isOffer : Bool := m.type = some "offer"

/-- The candidate of a message that is no offer, when `data.candidate` is true of it. -/
def ice : Option Candidate :=
  if m.isOffer then none
  else (m.candidate.filter (· ≠ "")).map fun text => ⟨text, m.sdpMid, m.sdpMLineIndex⟩

end PeerSignal

/-- The calls of the browser. -/
inductive PeerCall
  | setRemoteDescription (sdp : Option String)
  | addIceCandidate (candidate : Candidate)
  | createAnswer
  | setLocalDescription
  deriving DecidableEq, Repr

/-- What the chain of a peer connection does, in order. -/
inductive PeerEntry
  | called (call : PeerCall)
  /-- The promise of the call before is fulfilled, or rejected. -/
  | settled (fulfilled : Bool)
  /-- `onSignal` with the answer. -/
  | answered
  deriving DecidableEq, Repr

/-- The `await` at which `#apply` stands. -/
inductive Await
  | remote
  /-- In the loop over the candidates that came before the offer. -/
  | buffered (rest : List Candidate)
  | answer
  | description
  | candidate
  deriving DecidableEq, Repr

/-- `Peer`, as far as its messages go. -/
structure Peer where
  /-- The messages whose turn in the chain of `#queue` has not come. -/
  queue : List PeerSignal
  apply : Option Await
  candidates : List Candidate
  closed : Bool
  /-- `pc.remoteDescription` is there. -/
  remoteDescription : Bool
  received : List PeerSignal
  /-- The messages that `#apply` has begun with. -/
  begun : List PeerSignal
  log : List PeerEntry
  deriving DecidableEq, Repr

/-- What happens to a peer. -/
inductive PeerEvent
  | signal (data : PeerSignal)
  /-- The turn of the next message. -/
  | turn
  /-- The promise that `#apply` awaits is settled. -/
  | settle (fulfilled : Bool)
  | close
  deriving DecidableEq, Repr

namespace Peer

/-- A peer that has heard nothing. -/
def new : Peer where
  queue := []
  apply := none
  candidates := []
  closed := false
  remoteDescription := false
  received := []
  begun := []
  log := []

/-- `#apply` calls the browser and awaits the promise. -/
def call (p : Peer) (c : PeerCall) (at_ : Await) : Peer :=
  { p with log := p.log ++ [.called c], apply := some at_ }

/-- The loop over the candidates, from the next one on, and the answer behind it. -/
def flush (p : Peer) : List Candidate → Peer
  | [] => p.call .createAnswer .answer
  | c :: rest => p.call (.addIceCandidate c) (.buffered rest)

/-- `#apply`, until its first `await`. -/
def start (p : Peer) (m : PeerSignal) : Peer :=
  if p.closed then p
  else
    let p := { p with begun := p.begun ++ [m] }
    if m.isOffer then p.call (.setRemoteDescription m.sdp) .remote
    else
      match m.ice with
      | none => p
      | some c =>
        if p.remoteDescription then p.call (.addIceCandidate c) .candidate
        else { p with candidates := p.candidates ++ [c] }

/-- `#apply`, from one `await` to the next. Behind a rejected promise comes the `catch` of
`signal`, but the candidates have a `catch` of their own. -/
def resume (p : Peer) : Await → Bool → Peer
  | .remote, true =>
    ({ p with remoteDescription := true, candidates := [] } : Peer).flush p.candidates
  | .buffered rest, _ => p.flush rest
  | .answer, true => p.call .setLocalDescription .description
  | .description, true => { p with log := p.log ++ [.answered], apply := none }
  | .candidate, _ | .remote, false | .answer, false | .description, false =>
    { p with apply := none }

/-- One event; `none` when it cannot happen. -/
def step (p : Peer) : PeerEvent → Option Peer
  | .signal data => some { p with queue := p.queue ++ [data], received := p.received ++ [data] }
  | .turn =>
    match p.apply, p.queue with
    | none, m :: queue => some ({ p with queue }.start m)
    | _, _ => none
  | .settle fulfilled =>
    p.apply.map fun a => ({ p with log := p.log ++ [.settled fulfilled] } : Peer).resume a fulfilled
  | .close => some { p with closed := true }

end Peer

/-- The peers and their events. -/
def peerMachine : Machine Peer PeerEvent where
  Init p := p = .new
  step := Peer.step

/-! ### What the browser was asked -/

namespace PeerEntry

/-- The candidate that is added. -/
def candidate? : PeerEntry → Option Candidate
  | .called (.addIceCandidate c) => some c
  | .called (.setRemoteDescription _) | .called .createAnswer | .called .setLocalDescription
  | .settled _ | .answered => none

/-- A call of the peer connection. -/
def isCall : PeerEntry → Bool
  | .called _ => true
  | .settled _ | .answered => false

/-- The promise of a call is settled. -/
def isSettled : PeerEntry → Bool
  | .settled _ => true
  | .called _ | .answered => false

/-- An answer was sent. -/
def isAnswer : PeerEntry → Bool
  | .answered => true
  | .called _ | .settled _ => false

/-- What comes between the offer and the answer. -/
def isAdding (x : PeerEntry) : Bool := x.candidate?.isSome || x.isSettled

end PeerEntry

/-- Behind a remote description that was set, with nothing but candidates since. -/
def Describing (log : List PeerEntry) (sdp : Option String) : Prop :=
  ∃ before adding, log = before ++
    [.called (.setRemoteDescription sdp), .settled true] ++ adding ∧
      ∀ x ∈ adding, PeerEntry.isAdding x = true

/-- Behind the answer to a remote description, as far as its calls. -/
def Answering (log : List PeerEntry) (sdp : Option String) (since : List PeerEntry) : Prop :=
  ∃ before, Describing before sdp ∧ log = before ++ since

/-- There is a remote description. -/
def Described (log : List PeerEntry) : Prop :=
  ∃ sdp, [.called (.setRemoteDescription sdp), .settled true] <:+: log

/-- What must have come before an entry of the log. -/
structure Follows (before : List PeerEntry) (x : PeerEntry) : Prop where
  /-- The calls before it are settled. -/
  alone : x.isCall = true → before.countP PeerEntry.isCall = before.countP PeerEntry.isSettled
  described : x.candidate?.isSome = true → Described before
  answer : x.isAnswer = true → ∃ sdp, Answering before sdp
    [.called .createAnswer, .settled true, .called .setLocalDescription, .settled true]

namespace Await

/-- The candidates that the loop has not come to. -/
def rest : Await → List Candidate
  | .buffered rest => rest
  | .remote | .answer | .description | .candidate => []

/-- An answer is still to come. -/
def owes : Await → Bool
  | .remote | .buffered _ | .answer | .description => true
  | .candidate => false

/-- The promises that are still to be settled, without those of the candidates that wait. -/
def work : Await → Nat
  | .remote => 3
  | .buffered rest => rest.length + 3
  | .answer => 2
  | .description | .candidate => 1

end Await

namespace Peer

/-- The candidates that are not added yet. -/
def waiting (p : Peer) : List Candidate := p.apply.elim [] Await.rest ++ p.candidates

/-- The answers that are still to come. -/
def answering (p : Peer) : Nat := p.apply.elim 0 fun a => a.owes.toNat

/-- The log at the `await` of `#apply`: the call is the last entry. -/
def Stage (log : List PeerEntry) : Await → Prop
  | .remote => ∃ before sdp, log = before ++ [.called (.setRemoteDescription sdp)]
  | .buffered _ =>
    ∃ before sdp c, Describing before sdp ∧ log = before ++ [.called (.addIceCandidate c)]
  | .answer => ∃ sdp, Answering log sdp [.called .createAnswer]
  | .description => ∃ sdp, Answering log sdp
      [.called .createAnswer, .settled true, .called .setLocalDescription]
  | .candidate => ∃ before c, log = before ++ [.called (.addIceCandidate c)]

/-- Between the awaits of `#apply`: the candidates `cs` are still to be added, and `owed` answers
to be sent. -/
structure Ready (p : Peer) (cs : List Candidate) (owed : Nat) : Prop where
  begun : p.begun <+: p.received
  queue : p.closed = false → p.received = p.begun ++ p.queue
  /-- The candidates that were added, and those that wait, are those of the messages. -/
  kept : p.log.filterMap PeerEntry.candidate? ++ (cs ++ p.candidates) =
    p.begun.filterMap PeerSignal.ice
  flushed : p.remoteDescription = true → p.candidates = []
  described : p.remoteDescription = true ↔ Described p.log
  calls : p.log.countP PeerEntry.isCall = p.log.countP PeerEntry.isSettled
  answers : p.log.countP PeerEntry.isAnswer + owed ≤ p.begun.countP PeerSignal.isOffer
  log : Log.Each Follows p.log

/-- At an `await` of `#apply`, or between two messages. -/
structure Ok (p : Peer) : Prop where
  begun : p.begun <+: p.received
  queue : p.closed = false → p.received = p.begun ++ p.queue
  kept : p.log.filterMap PeerEntry.candidate? ++ p.waiting = p.begun.filterMap PeerSignal.ice
  flushed : p.remoteDescription = true → p.candidates = []
  described : p.remoteDescription = true ↔ Described p.log
  calls : p.log.countP PeerEntry.isCall =
    p.log.countP PeerEntry.isSettled + p.apply.isSome.toNat
  answers : p.log.countP PeerEntry.isAnswer + p.answering ≤ p.begun.countP PeerSignal.isOffer
  log : Log.Each Follows p.log
  stage : ∀ a, p.apply = some a → Stage p.log a

end Peer

section Entries

variable {log : List PeerEntry} {x : PeerEntry} {sdp : Option String}

/-- A description is there from the entry that says so. -/
theorem described_concat : Described (log ++ [x]) ↔
    Described log ∨
      x = .settled true ∧ ∃ before sdp, log = before ++ [.called (.setRemoteDescription sdp)] := by
  constructor
  · rintro ⟨sdp, h⟩
    rcases List.infix_concat_iff.mp h with ⟨before, h⟩ | h
    · have hsplit : (before ++ [.called (.setRemoteDescription sdp)]) ++ [.settled true] =
          log ++ [x] := by rw [← h, List.append_assoc]; rfl
      obtain ⟨hlog, hx⟩ := List.append_inj' hsplit rfl
      exact .inr ⟨(List.singleton_inj.mp hx).symm, before, sdp, hlog.symm⟩
    · exact .inl ⟨sdp, h⟩
  · rintro (⟨sdp, h⟩ | ⟨rfl, before, sdp, rfl⟩)
    · exact ⟨sdp, h.trans (List.prefix_append _ _).isInfix⟩
    · exact ⟨sdp, before, [], by simp⟩

/-- Only a settled promise describes. -/
theorem described_concat_of_ne (hx : x ≠ .settled true) :
    Described (log ++ [x]) ↔ Described log :=
  described_concat.trans (or_iff_left fun h => hx h.1)

/-- Behind an offer that is applied a description is there. -/
theorem Describing.described (h : Describing log sdp) : Described log := by
  obtain ⟨before, adding, rfl, -⟩ := h
  exact ⟨sdp, List.infix_append ..⟩

/-- Candidates that are added change no description. -/
theorem Describing.concat (h : Describing log sdp) (hx : x.isAdding = true) :
    Describing (log ++ [x]) sdp := by
  obtain ⟨before, adding, rfl, hadding⟩ := h
  refine ⟨before, adding ++ [x], by simp only [List.append_assoc], fun y hy => ?_⟩
  rcases List.mem_append.mp hy with hy | hy
  · exact hadding y hy
  · rwa [List.mem_singleton.mp hy]

/-- The answer of an offer goes on. -/
theorem Answering.concat {since : List PeerEntry} (h : Answering log sdp since) :
    Answering (log ++ [x]) sdp (since ++ [x]) := by
  obtain ⟨before, hbefore, rfl⟩ := h
  exact ⟨before, hbefore, List.append_assoc ..⟩

end Entries

namespace Peer

variable {p p' : Peer} {e : PeerEvent} {cs : List Candidate} {owed : Nat} {a : Await}

/-! ### From one `await` to the next -/

/-- `#apply` is through with the message. -/
theorem Ready.rest (h : p.Ready [] owed) : ({ p with apply := none } : Peer).Ok where
  begun := h.begun
  queue := h.queue
  kept := h.kept
  flushed := h.flushed
  described := h.described
  calls := h.calls
  answers := Nat.le_trans (Nat.le_add_right _ _) h.answers
  log := h.log
  stage := nofun

/-- A peer that awaits nothing is ready for the next message. -/
theorem Ready.ok (h : p.Ready [] owed) (ha : p.apply = none) : p.Ok := by
  have hsame : ({ p with apply := none } : Peer) = p := by rw [← ha]
  exact hsame ▸ h.rest

/-- `#apply` makes a call. -/
theorem Ready.call {c : PeerCall} {at_ : Await} (h : p.Ready cs owed)
    (hkept : (PeerEntry.called c).candidate?.toList ++ (p.call c at_).waiting = cs ++ p.candidates)
    (hadd : (PeerEntry.called c).candidate?.isSome = true → p.remoteDescription = true)
    (howed : (p.call c at_).answering ≤ owed)
    (hstage : Stage (p.log ++ [.called c]) at_) : (p.call c at_).Ok where
  begun := h.begun
  queue := h.queue
  kept := by
    change List.filterMap _ (p.log ++ [.called c]) ++ _ = p.begun.filterMap PeerSignal.ice
    rw [← h.kept, ← hkept]
    rw [List.filterMap_append, List.append_assoc]
    cases hc : (PeerEntry.called c).candidate? <;> simp [List.filterMap, hc]
  flushed := h.flushed
  described := h.described.trans (described_concat_of_ne (x := .called c) nofun).symm
  calls := by
    change (p.log ++ [PeerEntry.called c]).countP _ = _ + 1
    rw [List.countP_append, h.calls]
    change _ = (p.log ++ [PeerEntry.called c]).countP _ + 1
    rw [List.countP_append]
    rfl
  answers := by
    have hsame : (p.log ++ [PeerEntry.called c]).countP PeerEntry.isAnswer =
        p.log.countP PeerEntry.isAnswer := by
      rw [List.countP_append]
      rfl
    exact Nat.le_trans (Nat.add_le_add (Nat.le_of_eq hsame) howed) h.answers
  log := h.log.concat ⟨fun _ => h.calls, fun hc => h.described.mp (hadd hc), nofun⟩
  stage := fun a ha => Option.some.inj ha ▸ hstage

/-- The loop over the candidates. -/
theorem Ready.flush {sdp : Option String} (h : p.Ready cs (owed + 1))
    (hdescribing : Describing p.log sdp) (hremote : p.remoteDescription = true) :
    (p.flush cs).Ok := by
  cases cs with
  | nil => exact h.call rfl nofun (Nat.le_add_left 1 owed) ⟨sdp, p.log, hdescribing, rfl⟩
  | cons c rest =>
    exact h.call rfl (fun _ => hremote) (Nat.le_add_left 1 owed)
      ⟨p.log, sdp, c, hdescribing, rfl⟩

/-- What is awaited is the call that was made last. -/
theorem Stage.last {log : List PeerEntry} (h : Stage log a) : ∃ before c,
    log = before ++ [.called c] ∧ ∀ sdp, c = .setRemoteDescription sdp → a = .remote := by
  cases a with
  | remote =>
    obtain ⟨before, sdp, rfl⟩ := h
    exact ⟨before, _, rfl, fun _ _ => rfl⟩
  | buffered rest =>
    obtain ⟨before, -, c, -, rfl⟩ := h
    exact ⟨before, _, rfl, nofun⟩
  | answer =>
    obtain ⟨-, before, -, rfl⟩ := h
    exact ⟨before, _, rfl, nofun⟩
  | description =>
    obtain ⟨-, before, -, rfl⟩ := h
    exact ⟨before ++ [.called .createAnswer, .settled true], .setLocalDescription, by simp, nofun⟩
  | candidate =>
    obtain ⟨before, c, rfl⟩ := h
    exact ⟨before, _, rfl, nofun⟩

/-- `#apply` sends the answer, and is through with the message. -/
theorem Ready.answered (h : p.Ready [] owed) (howed : owed = 1)
    (hanswer : ∃ sdp, Answering p.log sdp
      [.called .createAnswer, .settled true, .called .setLocalDescription, .settled true]) :
    ({ p with log := p.log ++ [.answered], apply := none } : Peer).Ok where
  begun := h.begun
  queue := h.queue
  kept := by
    rw [List.filterMap_append]
    exact (congrArg (· ++ p.candidates) (List.append_nil _)).trans h.kept
  flushed := h.flushed
  described := h.described.trans (described_concat_of_ne (x := .answered) nofun).symm
  calls := by
    rw [List.countP_append, List.countP_append, h.calls]
    rfl
  answers := by
    have hanswers := h.answers
    rw [howed] at hanswers
    rw [List.countP_append]
    exact hanswers
  log := h.log.concat ⟨nofun, nofun, fun _ => hanswer⟩
  stage := nofun

/-- The promise of a call is settled. -/
theorem Ok.settled (h : p.Ok) (ha : p.apply = some a) (fulfilled remoteDescription : Bool)
    {candidates : List Candidate} (hwaiting : p.waiting = cs ++ candidates)
    (hflushed : remoteDescription = true → candidates = [])
    (hdescribed : remoteDescription = true ↔ Described (p.log ++ [.settled fulfilled])) :
    Ready { p with log := p.log ++ [.settled fulfilled], remoteDescription, candidates } cs
      p.answering where
  begun := h.begun
  queue := h.queue
  kept := by
    rw [← h.kept, hwaiting, List.filterMap_append]
    simp [PeerEntry.candidate?]
  flushed := hflushed
  described := hdescribed
  calls := by
    rw [List.countP_append, List.countP_append, h.calls, ha]
    rfl
  answers := by
    rw [List.countP_append]
    exact h.answers
  log := h.log.concat ⟨nofun, nofun, nofun⟩

/-- The same, when there is no other remote description. -/
theorem Ok.settled_same (h : p.Ok) (ha : p.apply = some a) (fulfilled : Bool)
    (hremote : a = .remote → fulfilled = false) (hwaiting : p.waiting = cs ++ p.candidates) :
    ({ p with log := p.log ++ [.settled fulfilled] } : Peer).Ready cs p.answering := by
  refine h.settled ha fulfilled p.remoteDescription hwaiting h.flushed
    (h.described.trans (described_concat.trans (or_iff_left ?_)).symm)
  rintro ⟨htrue, before, sdp, hlast⟩
  obtain ⟨before', c, hlog, hremote'⟩ := (h.stage a ha).last
  have hc := (List.append_inj' (hlog.symm.trans hlast) rfl).2
  cases htrue
  exact Bool.noConfusion (hremote (hremote' sdp (by simpa using hc)))

/-- **One step of `#apply`.** -/
theorem Ok.resume (h : p.Ok) (ha : p.apply = some a) (fulfilled : Bool) :
    (({ p with log := p.log ++ [.settled fulfilled] } : Peer).resume a fulfilled).Ok := by
  have hstage := h.stage a ha
  have hwaiting : p.waiting = a.rest ++ p.candidates := by
    rw [waiting, ha]
    rfl
  have howed : p.answering = a.owes.toNat := by
    rw [answering, ha]
    rfl
  cases a with
  | remote =>
    obtain ⟨before, sdp, hlog⟩ := hstage
    cases fulfilled with
    | true =>
      have hdescribing : Describing (p.log ++ [.settled true]) sdp :=
        ⟨before, [], by rw [hlog]; simp, by simp⟩
      have hready := h.settled ha true true (hwaiting.trans (List.append_nil p.candidates).symm)
        (fun _ => rfl) (iff_of_true rfl hdescribing.described)
      exact Ready.flush (howed ▸ hready) hdescribing rfl
    | false => exact (h.settled_same ha false (fun _ => rfl) hwaiting).rest
  | buffered rest =>
    obtain ⟨before, sdp, c, hdescribing, hlog⟩ := hstage
    have hready := h.settled_same ha fulfilled nofun hwaiting
    have hdescribing' : Describing (p.log ++ [.settled fulfilled]) sdp := by
      rw [hlog]
      exact (hdescribing.concat rfl).concat rfl
    exact Ready.flush (howed ▸ hready) hdescribing' (hready.described.mpr hdescribing'.described)
  | answer =>
    obtain ⟨sdp, hanswering⟩ := hstage
    have hready := h.settled_same ha fulfilled nofun hwaiting
    cases fulfilled with
    | true =>
      exact hready.call rfl nofun (Nat.le_of_eq howed.symm) ⟨sdp, hanswering.concat.concat⟩
    | false => exact hready.rest
  | description =>
    obtain ⟨sdp, hanswering⟩ := hstage
    have hready := h.settled_same ha fulfilled nofun hwaiting
    cases fulfilled with
    | true => exact hready.answered howed ⟨sdp, hanswering.concat⟩
    | false => exact hready.rest
  | candidate => exact (h.settled_same ha fulfilled nofun hwaiting).rest

/-- The turn of a message has come. -/
theorem Ok.turn (h : p.Ok) (ha : p.apply = none) (hopen : p.closed = false) {m : PeerSignal}
    {queue : List PeerSignal} (hqueue : p.queue = m :: queue) (cs candidates : List Candidate)
    (hcandidates : cs ++ candidates = p.candidates ++ m.ice.toList)
    (hflushed : p.remoteDescription = true → candidates = []) :
    Ready { p with queue, begun := p.begun ++ [m], candidates } cs m.isOffer.toNat := by
  have hreceived : p.received = p.begun ++ [m] ++ queue := by
    rw [h.queue hopen, hqueue, List.append_assoc]
    rfl
  have hkept := h.kept
  have hcalls := h.calls
  have hanswers := h.answers
  simp only [waiting, answering, ha] at hkept hcalls hanswers
  refine ⟨⟨queue, hreceived.symm⟩, fun _ => hreceived, ?_, hflushed, h.described, hcalls, ?_,
    h.log⟩
  · change _ ++ (cs ++ candidates) = (p.begun ++ [m]).filterMap _
    rw [hcandidates, ← List.append_assoc, List.filterMap_append, ← hkept]
    cases hice : m.ice <;> simp [List.filterMap, hice]
  · change _ ≤ (p.begun ++ [m]).countP _
    rw [List.countP_append, List.countP_singleton]
    refine Nat.add_le_add hanswers ?_
    cases m.isOffer <;> exact Nat.le_refl _

section Start

variable {m : PeerSignal}

/-- A closed peer takes no message. -/
theorem start_closed (h : p.closed = true) : p.start m = p := if_pos h

/-- An offer is applied. -/
theorem start_offer (h : p.closed = false) (hoffer : m.isOffer = true) :
    p.start m = ({ p with begun := p.begun ++ [m] } : Peer).call (.setRemoteDescription m.sdp)
      .remote := by
  simp only [start, h, hoffer, Bool.false_eq_true, if_false, if_true]

/-- A message without a candidate is nothing. -/
theorem start_none (h : p.closed = false) (hoffer : m.isOffer = false) (hice : m.ice = none) :
    p.start m = { p with begun := p.begun ++ [m] } := by
  simp only [start, h, hoffer, hice, Bool.false_eq_true, if_false]

variable {c : Candidate}

/-- A candidate is added when there is a description. -/
theorem start_add (h : p.closed = false) (hoffer : m.isOffer = false) (hice : m.ice = some c)
    (hremote : p.remoteDescription = true) :
    p.start m = ({ p with begun := p.begun ++ [m] } : Peer).call (.addIceCandidate c)
      .candidate := by
  simp only [start, h, hoffer, hice, hremote, Bool.false_eq_true, if_false, if_true]

/-- Otherwise it waits. -/
theorem start_wait (h : p.closed = false) (hoffer : m.isOffer = false) (hice : m.ice = some c)
    (hremote : p.remoteDescription = false) :
    p.start m = { p with begun := p.begun ++ [m], candidates := p.candidates ++ [c] } := by
  simp only [start, h, hoffer, hice, hremote, Bool.false_eq_true, if_false]

end Start

/-- `#apply` begins with a message. -/
theorem Ok.start (h : p.Ok) (ha : p.apply = none) {m : PeerSignal} {queue : List PeerSignal}
    (hqueue : p.queue = m :: queue) : (({ p with queue } : Peer).start m).Ok := by
  rcases Bool.eq_false_or_eq_true p.closed with hclosed | hclosed
  · rw [start_closed (p := { p with queue }) hclosed]
    exact ⟨h.begun, fun hopen => absurd (hclosed.symm.trans hopen) nofun, h.kept, h.flushed,
      h.described, h.calls, h.answers, h.log, h.stage⟩
  · have hready := h.turn ha hclosed hqueue
    cases hoffer : m.isOffer with
    | true =>
      rw [start_offer (p := { p with queue }) hclosed hoffer]
      have hice : m.ice = none := if_pos hoffer
      rw [hice, hoffer] at hready
      exact (hready [] p.candidates (List.append_nil _).symm h.flushed).call rfl nofun
        (Nat.le_refl 1) ⟨p.log, m.sdp, rfl⟩
    | false =>
      cases hice : m.ice with
      | none =>
        rw [start_none (p := { p with queue }) hclosed hoffer hice]
        rw [hice] at hready
        exact (hready [] p.candidates (List.append_nil _).symm h.flushed).ok ha
      | some c =>
        rw [hice] at hready
        rcases Bool.eq_false_or_eq_true p.remoteDescription with hremote | hremote
        · rw [start_add (p := { p with queue }) hclosed hoffer hice hremote]
          have hempty : [c] ++ p.candidates = p.candidates ++ [c] := by
            rw [h.flushed hremote]
            rfl
          exact (hready [c] p.candidates hempty h.flushed).call rfl (fun _ => hremote)
            (Nat.zero_le _) ⟨p.log, c, rfl⟩
        · rw [start_wait (p := { p with queue }) hclosed hoffer hice hremote]
          exact (hready [] (p.candidates ++ [c]) rfl
            fun hset => absurd (hremote.symm.trans hset) nofun).ok ha

/-- **One step.** -/
theorem Ok.step (h : p.Ok) (hstep : p.step e = some p') : p'.Ok := by
  cases e with
  | signal data =>
    cases hstep
    refine ⟨h.begun.trans (List.prefix_append _ _), fun hopen => ?_, h.kept, h.flushed, h.described,
      h.calls, h.answers, h.log, h.stage⟩
    exact (congrArg (· ++ [data]) (h.queue hopen)).trans (List.append_assoc ..)
  | turn =>
    simp only [Peer.step] at hstep
    split at hstep
    · cases hstep
      exact h.start ‹_› ‹_›
    · cases hstep
  | settle fulfilled =>
    obtain ⟨a, ha, rfl⟩ := Option.map_eq_some_iff.mp hstep
    exact h.resume ha fulfilled
  | close =>
    cases hstep
    exact ⟨h.begun, nofun, h.kept, h.flushed, h.described, h.calls, h.answers, h.log, h.stage⟩

/-- At first nothing is owed. -/
theorem ok_new : new.Ok where
  begun := List.nil_prefix
  queue _ := rfl
  kept := rfl
  flushed _ := rfl
  described := by simp [Described, new]
  calls := rfl
  answers := Nat.le_refl _
  log := .nil
  stage := nofun

/-! ### The queue empties -/

/-- The turns and the promises that a message can take at most. -/
def cost (m : PeerSignal) : Nat := if m.isOffer then 4 else 2

/-- What is still to be done, if no other message comes. -/
def work (p : Peer) : Nat :=
  (p.queue.map cost).sum + p.apply.elim 0 Await.work + p.candidates.length

/-- The events that are not from outside. -/
def Inner : PeerEvent → Bool
  | .turn | .settle _ => true
  | .signal _ | .close => false

/-- The work behind a description. -/
theorem work_flush (p : Peer) (cs : List Candidate) :
    (p.flush cs).work = (p.queue.map cost).sum + (cs.length + 2) + p.candidates.length := by
  cases cs with
  | nil => rfl
  | cons c rest => exact congrArg (_ + · + _) (Nat.add_right_comm rest.length 1 2)

/-- A promise that is settled leaves less work. -/
theorem work_resume (ha : p.apply = some a) (log : List PeerEntry) (fulfilled : Bool) :
    (({ p with log } : Peer).resume a fulfilled).work < p.work := by
  have hwork : p.work = (p.queue.map cost).sum + a.work + p.candidates.length := by
    rw [work, ha]
    rfl
  have hthrough : ({ p with log, apply := none } : Peer).work =
    (p.queue.map cost).sum + 0 + p.candidates.length := rfl
  rw [hwork]
  cases a with
  | remote =>
    cases fulfilled with
    | true =>
      rw [resume, work_flush]
      change (p.queue.map cost).sum + (p.candidates.length + 2) + 0 <
        (p.queue.map cost).sum + 3 + p.candidates.length
      omega
    | false =>
      rw [resume, hthrough, Await.work]
      omega
  | buffered rest =>
    rw [resume, work_flush, Await.work]
    exact Nat.add_lt_add_right (Nat.lt_succ_self _) _
  | answer =>
    cases fulfilled with
    | true => exact Nat.add_lt_add_right (Nat.lt_succ_self _) _
    | false =>
      rw [resume, hthrough, Await.work]
      omega
  | description =>
    cases fulfilled with
    | true => exact Nat.add_lt_add_right (Nat.lt_succ_self _) _
    | false =>
      rw [resume, hthrough, Await.work]
      omega
  | candidate =>
    rw [resume, hthrough, Await.work]
    omega

/-- So does a message whose turn has come. -/
theorem work_start (ha : p.apply = none) {m : PeerSignal} {queue : List PeerSignal}
    (hqueue : p.queue = m :: queue) : (({ p with queue } : Peer).start m).work < p.work := by
  have hwork : p.work = (cost m + (queue.map cost).sum) + 0 + p.candidates.length := by
    rw [work, ha, hqueue]
    rfl
  have hcost : 2 ≤ cost m := by
    unfold cost
    split <;> decide
  -- When no call is made, the next message may begin.
  have hrest : ∀ begun, ({ p with queue, begun } : Peer).work =
      (queue.map cost).sum + 0 + p.candidates.length := by
    intro begun
    rw [work, ha]
    rfl
  rw [hwork]
  rcases Bool.eq_false_or_eq_true p.closed with hclosed | hclosed
  · rw [start_closed (p := { p with queue }) hclosed, hrest]
    omega
  · cases hoffer : m.isOffer with
    | true =>
      rw [start_offer (p := { p with queue }) hclosed hoffer, cost, if_pos hoffer]
      change (queue.map cost).sum + 3 + p.candidates.length < _
      omega
    | false =>
      cases hice : m.ice with
      | none =>
        rw [start_none (p := { p with queue }) hclosed hoffer hice, hrest]
        omega
      | some c =>
        rcases Bool.eq_false_or_eq_true p.remoteDescription with hremote | hremote
        · rw [start_add (p := { p with queue }) hclosed hoffer hice hremote]
          change (queue.map cost).sum + 1 + p.candidates.length < _
          omega
        · rw [start_wait (p := { p with queue }) hclosed hoffer hice hremote, work, ha]
          change (queue.map cost).sum + 0 + (p.candidates ++ [c]).length < _
          rw [List.length_append]
          change _ + (p.candidates.length + 1) < _
          omega

/-- Every turn and every settled promise leaves less to do. -/
theorem work_step (hinner : Inner e = true) (hstep : p.step e = some p') : p'.work < p.work := by
  cases e with
  | signal data => cases hinner
  | turn =>
    simp only [Peer.step] at hstep
    split at hstep
    · cases hstep
      exact work_start ‹_› ‹_›
    · cases hstep
  | settle fulfilled =>
    obtain ⟨a, ha, rfl⟩ := Option.map_eq_some_iff.mp hstep
    exact work_resume ha _ fulfilled
  | close => cases hinner

/-- A run without new messages is as long as its work at most. -/
theorem work_run {es : List PeerEvent} (hinner : ∀ e ∈ es, Inner e = true)
    (hrun : peerMachine.run p es = some p') : p'.work + es.length ≤ p.work := by
  induction es generalizing p with
  | nil =>
    cases hrun
    exact Nat.le_refl _
  | cons e es ih =>
    obtain ⟨q, hq, hrest⟩ := Option.bind_eq_some_iff.mp hrun
    have hstep : q.work < p.work := work_step (hinner e List.mem_cons_self) hq
    have hrest := ih (fun e he => hinner e (List.mem_cons_of_mem _ he)) hrest
    rw [List.length_cons]
    omega

/-- Where nothing is left to happen, every message had its turn. -/
theorem rests_of_stuck (h : ∀ e, Inner e = true → p.step e = none) :
    p.apply = none ∧ p.queue = [] := by
  have ha : p.apply = none := Option.map_eq_none_iff.mp (h (.settle true) rfl)
  refine ⟨ha, ?_⟩
  have hturn := h .turn rfl
  simp only [Peer.step, ha] at hturn
  cases hqueue : p.queue with
  | nil => rfl
  | cons m queue =>
    rw [hqueue] at hturn
    cases hturn

/-- Waiting candidates are no messages. -/
theorem begun_flush (p : Peer) (cs : List Candidate) :
    (p.flush cs).closed = p.closed ∧ (p.flush cs).begun = p.begun := by
  cases cs <;> exact ⟨rfl, rfl⟩

/-- A promise that is settled begins no message. -/
theorem begun_resume (p : Peer) (a : Await) (fulfilled : Bool) :
    (p.resume a fulfilled).closed = p.closed ∧ (p.resume a fulfilled).begun = p.begun := by
  cases a with
  | buffered rest => exact begun_flush _ _
  | remote =>
    cases fulfilled with
    | true => exact begun_flush _ _
    | false => exact ⟨rfl, rfl⟩
  | answer => cases fulfilled <;> exact ⟨rfl, rfl⟩
  | description => cases fulfilled <;> exact ⟨rfl, rfl⟩
  | candidate => exact ⟨rfl, rfl⟩

/-- A closed peer begins with nothing. -/
theorem closed_step (h : p.closed = true) (hstep : p.step e = some p') :
    p'.closed = true ∧ p'.begun = p.begun := by
  cases e with
  | signal data =>
    cases hstep
    exact ⟨h, rfl⟩
  | turn =>
    simp only [Peer.step] at hstep
    split at hstep
    · cases hstep
      rename_i m queue _ _
      rw [start_closed (p := { p with queue }) h]
      exact ⟨h, rfl⟩
    · cases hstep
  | settle fulfilled =>
    obtain ⟨a, ha, rfl⟩ := Option.map_eq_some_iff.mp hstep
    obtain ⟨hclosed, hbegun⟩ :=
      begun_resume { p with log := p.log ++ [.settled fulfilled] } a fulfilled
    exact ⟨hclosed.trans h, hbegun⟩
  | close =>
    cases hstep
    exact ⟨rfl, rfl⟩

/-- A closed peer begins no message. -/
theorem closed_run {es : List PeerEvent} (h : p.closed = true)
    (hrun : peerMachine.run p es = some p') : p'.begun = p.begun := by
  induction es generalizing p with
  | nil =>
    cases hrun
    rfl
  | cons e es ih =>
    obtain ⟨q, hq, hrest⟩ := Option.bind_eq_some_iff.mp hrun
    obtain ⟨hclosed, hbegun⟩ := closed_step h hq
    exact (ih hclosed hrest).trans hbegun

/-- **What the comment above `signal` says.** -/
structure InOrder (p : Peer) : Prop where
  /-- The messages have their turn in the order in which they came, until the peer is closed. -/
  begun : p.begun <+: p.received
  queue : p.closed = false → p.received = p.begun ++ p.queue
  /-- Each candidate is added once, in that order, or waits behind the others. -/
  kept : p.log.filterMap PeerEntry.candidate? ++ p.waiting = p.begun.filterMap PeerSignal.ice
  answers : p.log.countP PeerEntry.isAnswer ≤ p.begun.countP PeerSignal.isOffer
  /-- One call after another, a candidate behind a remote description, an answer behind all the
  calls for it. -/
  log : Log.Each Follows p.log
  /-- Without other messages it comes to rest. -/
  rests : ∀ es p', (∀ e ∈ es, Inner e = true) → peerMachine.run p es = some p' →
    es.length ≤ p.work
  /-- At rest every message had its turn, and no candidate waits unless for an offer. -/
  done : (∀ e, Inner e = true → p.step e = none) → p.closed = false →
    p.begun = p.received ∧ (Described p.log →
      p.log.filterMap PeerEntry.candidate? = p.received.filterMap PeerSignal.ice)
  closed : p.closed = true → ∀ es p', peerMachine.run p es = some p' → p'.begun = p.begun

/-- What is owed is what is left of the order. -/
theorem Ok.inOrder (h : p.Ok) : p.InOrder where
  begun := h.begun
  queue := h.queue
  kept := h.kept
  answers := Nat.le_trans (Nat.le_add_right _ _) h.answers
  log := h.log
  rests es p' hinner hrun := Nat.le_trans (Nat.le_add_left _ _) (work_run hinner hrun)
  done hstuck hopen := by
    obtain ⟨ha, hqueue⟩ := rests_of_stuck hstuck
    have hall : p.begun = p.received := by
      rw [h.queue hopen, hqueue, List.append_nil]
    refine ⟨hall, fun hdescribed => ?_⟩
    have hkept := h.kept
    rw [waiting, ha, h.flushed (h.described.mpr hdescribed), hall] at hkept
    exact (List.append_nil _).symm.trans hkept
  closed hclosed es p' := closed_run hclosed

end Peer

/-- **The messages of the emulator are applied in order**, in every run of messages, turns,
promises that are fulfilled or rejected, and a close. -/
theorem peer_in_order {p : Peer} (h : peerMachine.Reachable p) : p.InOrder := by
  have hok : p.Ok := by
    refine h.invariant (I := Peer.Ok) (fun p hp => ?_) fun p e p' hp _ hstep => hp.step hstep
    rw [hp]
    exact Peer.ok_new
  exact hok.inOrder

/-- Two candidates come before the offer and one behind it. -/
def earlyCandidates : List PeerEvent :=
  let candidate text : PeerSignal := ⟨none, none, some text, none, some 0⟩
  [.signal (candidate "1"), .turn, .signal (candidate "2"),
    .signal ⟨some "offer", some "v=0", none, none, none⟩, .turn, .turn, .signal (candidate "3"),
    .settle true, .settle false, .settle true, .settle true, .settle true, .turn, .settle true]

/-- Candidates in front of their offer. -/
theorem peer_in_order_early : ∃ p : Peer,
    (p.log.filterMap PeerEntry.candidate?).map Candidate.candidate = ["1", "2", "3"] ∧
      p.InOrder := by
  obtain ⟨p, hrun, hadded⟩ : ∃ p, peerMachine.run .new earlyCandidates = some p ∧
      (p.log.filterMap PeerEntry.candidate?).map Candidate.candidate = ["1", "2", "3"] :=
    ⟨_, rfl, by decide⟩
  exact ⟨p, hadded, peer_in_order (.of_run (.init rfl) hrun)⟩

end Dashboard

end AndroidAppliance
