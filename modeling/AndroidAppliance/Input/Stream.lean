import AndroidAppliance.Transition.Machine
import AndroidAppliance.Transition.Table

/-!
# The shared input stream

`InputStream` of `appliance/grpc_client.py`: every caller writes to one call, one caller after
another under a lock, and a call that broke is replaced. `close` does not take the lock. A run
is an interleaving of any number of sends, each a list of events, with `close`, cancellations and
calls that end by themselves; the labels say when an opening or a write raises.

What was written stands in the order of the lock.
-/

namespace AndroidAppliance

namespace Input

/-- A call of `streamInputEvent`. -/
structure StreamCall where
  /-- A write on it raised. -/
  broken : Bool
  /-- `done()`. -/
  done : Bool
  deriving DecidableEq, Repr

/-- Where a `send` is. -/
inductive SendState
  /-- Before the lock. -/
  | waiting
  /-- In the write of the next event; `left` attempts follow when it raises. -/
  | writing (left call : Nat)
  | returned
  /-- It raised `ConnectionError`. -/
  | refused
  /-- It raised `CancelledError`. -/
  | cancelled
  deriving DecidableEq, Repr

/-- A call of `send`. -/
structure Send (ε : Type) where
  events : List ε
  /-- How many of them are written. -/
  sent : Nat
  state : SendState
  deriving DecidableEq, Repr

/-- An event whose write has not begun. -/
def Send.HasMore {ε : Type} (x : Send ε) : Prop :=
  x.state = .waiting ∧ 0 < x.events.length ∨
    ∃ left c, x.state = .writing left c ∧ x.sent + 1 < x.events.length

/-- The call of `send` is over. -/
def Send.Over {ε : Type} (x : Send ε) : Prop :=
  match x.state with
  | .waiting => False
  | .writing _ _ => False
  | _ => True

/-- A send that waits or writes is not over. -/
theorem Send.not_over {ε : Type} {x : Send ε}
    (h : x.state = .waiting ∨ ∃ left c, x.state = .writing left c) : ¬ x.Over := by
  obtain ⟨events, sent, state⟩ := x
  rcases h with rfl | ⟨left, c, rfl⟩ <;> exact id

/-- Nor is one that has more to write. -/
theorem Send.HasMore.not_over {ε : Type} {x : Send ε} (h : x.HasMore) : ¬ x.Over := by
  obtain ⟨h, -⟩ | ⟨left, c, h, -⟩ := h
  · exact Send.not_over (.inl h)
  · exact Send.not_over (.inr ⟨left, c, h⟩)

/-- `InputStream`, with its calls and sends. -/
structure InputStream (ε : Type) where
  /-- `_call`, as an index of `calls`. -/
  call : Option Nat
  /-- `_closed`. -/
  closed : Bool
  /-- Which send has `_lock`. -/
  lock : Option Nat
  calls : List StreamCall
  sends : List (Send ε)
  /-- The sends in the order in which they took the lock. -/
  took : List Nat
  /-- The events whose write succeeded, with their sends. -/
  wire : List (Nat × ε)
  deriving DecidableEq, Repr

/-- Whether `streamInputEvent` raises: in the first attempt and in the second. -/
structure Openings where
  first : Bool
  second : Bool
  deriving DecidableEq, Repr

/-- Whether it raises when `left` attempts follow. -/
def Openings.raises (opens : Openings) (left : Nat) : Bool :=
  if left = 1 then opens.first else opens.second

namespace InputStream

/-- What happens to a stream and its sends. -/
inductive Label (ε : Type)
  | start (events : List ε)
  | take (send : Nat) (opens : Openings)
  /-- The write of a send returns. -/
  | wrote (send : Nat) (opens : Openings)
  /-- The write of a send raises one of the errors that `_write` lists. -/
  | broke (send : Nat) (opens : Openings)
  | cancel (send : Nat)
  /-- A call ends by itself. -/
  | ends (call : Nat)
  | close
  deriving DecidableEq, Repr

variable {ε : Type}

/-- A stream without a call. -/
def fresh : InputStream ε where
  call := none
  closed := false
  lock := none
  calls := []
  sends := []
  took := []
  wire := []

/-- A send moves on. -/
def setState (s : InputStream ε) (i : Nat) (state : SendState) : InputStream ε :=
  { s with sends := s.sends.modify i fun x => { x with state := state } }

/-- A send that has the lock is over. -/
def finish (s : InputStream ε) (i : Nat) (state : SendState) : InputStream ε :=
  { s.setState i state with lock := none }

/-- A send has got the lock. -/
def locked (s : InputStream ε) (i : Nat) : InputStream ε :=
  { s with lock := some i, took := s.took ++ [i] }

/-- A write returned. -/
def written (s : InputStream ε) (i : Nat) (e : ε) : InputStream ε :=
  { s with
    wire := s.wire ++ [(i, e)]
    sends := s.sends.modify i fun x => { x with sent := x.sent + 1 } }

/-- A write on a call raised. -/
def broken (s : InputStream ε) (c : Nat) : InputStream ε :=
  { s with
    calls := s.calls.modify c fun call => { call with broken := true }
    call := if s.call = some c then none else s.call }

/-- A new call. -/
def opened (s : InputStream ε) : InputStream ε :=
  { s with calls := s.calls ++ [⟨false, false⟩], call := some s.calls.length }

/-- `_call`, when it can be written to. -/
def usable (s : InputStream ε) : Option Nat :=
  s.call.filter fun c => (s.calls[c]?.map fun call => !call.done).getD false

/-- `_write` with that many attempts left, up to the `write` it awaits. -/
def attempt (s : InputStream ε) (i : Nat) (opens : Openings) : Nat → InputStream ε
  | 0 => s.finish i .refused
  | left + 1 =>
    if s.closed then s.finish i .refused
    else match s.usable with
      | some c => s.setState i (.writing left c)
      | none =>
        if opens.raises left then { s with call := none }.attempt i opens left
        else s.opened.setState i (.writing left s.calls.length)

/-- The loop of `send`: the next event, or the end. -/
def next (s : InputStream ε) (i : Nat) (opens : Openings) : InputStream ε :=
  match s.sends[i]? with
  | none => s
  | some x => if x.sent < x.events.length then s.attempt i opens 2 else s.finish i .returned

/-- One event; `none` when it cannot happen. -/
def step (s : InputStream ε) : Label ε → Option (InputStream ε)
  | .start events => some { s with sends := s.sends ++ [⟨events, 0, .waiting⟩] }
  | .take i opens =>
    match s.sends[i]? with
    | some ⟨_, _, .waiting⟩ => if s.lock = none then some ((s.locked i).next i opens) else none
    | _ => none
  | .wrote i opens =>
    match s.sends[i]? with
    | some ⟨events, sent, .writing _ _⟩ =>
      events[sent]?.map fun e => (s.written i e).next i opens
    | _ => none
  | .broke i opens =>
    match s.sends[i]? with
    | some ⟨_, _, .writing left c⟩ => some ((s.broken c).attempt i opens left)
    | _ => none
  | .cancel i =>
    match s.sends[i]? with
    | some ⟨_, _, .waiting⟩ => some (s.setState i .cancelled)
    | some ⟨_, _, .writing _ _⟩ => some (s.finish i .cancelled)
    | _ => none
  | .ends c => some { s with calls := s.calls.modify c fun call => { call with done := true } }
  | .close => some { s with closed := true, call := none }

/-- The stream and its callers, in any order. -/
def machine (ε : Type) : Machine (InputStream ε) (Label ε) where
  Init s := s = fresh
  step := step

variable {s t : InputStream ε} {i : Nat} {x : Send ε}

/-- What a step does, with what it needs. -/
inductive Stepped (s : InputStream ε) : Label ε → InputStream ε → Prop
  | start (events : List ε) :
    Stepped s (.start events) { s with sends := s.sends ++ [⟨events, 0, .waiting⟩] }
  | take {i : Nat} {x : Send ε} (opens : Openings) (hx : s.sends[i]? = some x)
    (hstate : x.state = .waiting) (hlock : s.lock = none) :
    Stepped s (.take i opens) ((s.locked i).next i opens)
  | wrote {i left c : Nat} {x : Send ε} {e : ε} (opens : Openings) (hx : s.sends[i]? = some x)
    (hstate : x.state = .writing left c) (he : x.events[x.sent]? = some e) :
    Stepped s (.wrote i opens) ((s.written i e).next i opens)
  | broke {i left c : Nat} {x : Send ε} (opens : Openings) (hx : s.sends[i]? = some x)
    (hstate : x.state = .writing left c) :
    Stepped s (.broke i opens) ((s.broken c).attempt i opens left)
  | cancelWaiting {i : Nat} {x : Send ε} (hx : s.sends[i]? = some x) (hstate : x.state = .waiting) :
    Stepped s (.cancel i) (s.setState i .cancelled)
  | cancelWriting {i left c : Nat} {x : Send ε} (hx : s.sends[i]? = some x)
    (hstate : x.state = .writing left c) :
    Stepped s (.cancel i) (s.finish i .cancelled)
  | ends (c : Nat) :
    Stepped s (.ends c) { s with calls := s.calls.modify c fun call => { call with done := true } }
  | close : Stepped s .close { s with closed := true, call := none }

/-- The steps of a stream, one by one. -/
theorem stepped {e : Label ε} (h : s.step e = some t) : Stepped s e t := by
  cases e with
  | start events => cases h; exact .start events
  | take i opens =>
    rw [step] at h
    split at h
    · rename_i hx
      obtain ⟨hlock, h⟩ := Option.ite_none_right_eq_some.mp h
      cases h
      exact .take opens hx rfl hlock
    · cases h
  | wrote i opens =>
    rw [step] at h
    split at h
    · rename_i hx
      obtain ⟨e, he, rfl⟩ := Option.map_eq_some_iff.mp h
      exact .wrote opens hx rfl he
    · cases h
  | broke i opens =>
    rw [step] at h
    split at h
    · rename_i hx
      cases h
      exact .broke opens hx rfl
    · cases h
  | cancel i =>
    rw [step] at h
    split at h
    · rename_i hx
      cases h
      exact .cancelWaiting hx rfl
    · rename_i hx
      cases h
      exact .cancelWriting hx rfl
    · cases h
  | ends c => cases h; exact .ends c
  | close => cases h; exact .close

/-! ### The order of the events -/

/-- The events that a send has written. -/
def part (s : InputStream ε) (i : Nat) : List (Nat × ε) :=
  (s.sends[i]?.elim [] fun x : Send ε => x.events.take x.sent).map fun e => (i, e)

/-- A send that is before or behind its turn. -/
structure Settled (took : List Nat) (i : Nat) (x : Send ε) : Prop where
  idle : ∀ left c, x.state ≠ .writing left c
  waiting : x.state = .waiting → x.sent = 0 ∧ i ∉ took
  returned : x.state = .returned → x.sent = x.events.length

/-- What holds also in the middle of a stretch of the send that has the lock. -/
structure Turn (s : InputStream ε) : Prop where
  settled : ∀ (i : Nat) (x : Send ε), s.sends[i]? = some x → s.lock ≠ some i → Settled s.took i x
  le : ∀ (i : Nat) (x : Send ε), s.sends[i]? = some x → x.sent ≤ x.events.length
  last : ∀ i, s.lock = some i → ∃ earlier, s.took = earlier ++ [i]
  nodup : s.took.Nodup
  started : ∀ i ∈ s.took, ∃ x, s.sends[i]? = some x
  wire : s.wire = s.took.flatMap s.part
  call : ∀ c, s.call = some c → ∃ call, s.calls[c]? = some call ∧ call.broken = false

/-- What holds between the steps: the send that has the lock is in a write. -/
structure Inv (s : InputStream ε) : Prop extends Turn s where
  holder : ∀ i, s.lock = some i →
    ∃ (x : Send ε) (left c : Nat), s.sends[i]? = some x ∧ x.state = .writing left c ∧
      x.sent < x.events.length

/-- What a send has written of its events. -/
theorem part_eq (h : s.sends[i]? = some x) :
    s.part i = (x.events.take x.sent).map fun e => (i, e) := by
  rw [part, h, Option.elim_some]

/-- Moving on writes nothing. -/
theorem part_setState (s : InputStream ε) (i j : Nat) (state : SendState) :
    (s.setState i state).part j = s.part j := by
  rw [part, setState, List.getElem?_modify, part]
  cases s.sends[j]? with
  | none => rfl
  | some x =>
    by_cases hij : i = j <;> simp [hij]

/-- The send that has the lock gets a state. -/
theorem Turn.setState (h : Turn s) (hlock : s.lock = some i) (state : SendState) :
    Turn (s.setState i state) := by
  have hback : ∀ j y, (s.setState i state).sends[j]? = some y →
      ∃ x, s.sends[j]? = some x ∧ (i = j ∧ y = { x with state := state } ∨ i ≠ j ∧ y = x) :=
    fun j y hy => Table.cases_modify hy
  exact {
    settled := by
      intro j y hy hne
      obtain ⟨x, hx, ⟨rfl, -⟩ | ⟨-, rfl⟩⟩ := hback j y hy
      · exact absurd hlock hne
      · exact h.settled j y hx hne
    le := by
      intro j y hy
      obtain ⟨x, hx, ⟨-, rfl⟩ | ⟨-, rfl⟩⟩ := hback j y hy
      · exact h.le j x hx
      · exact h.le j y hx
    last := h.last
    nodup := h.nodup
    started := by
      intro j hj
      obtain ⟨x, hx⟩ := h.started j hj
      exact Table.modify_exists hx
    wire := by
      change s.wire = s.took.flatMap (s.setState i state).part
      rw [h.wire]
      exact congrArg (s.took.flatMap ·) (funext fun j => (part_setState s i j state).symm)
    call := h.call }

/-- The send that has the lock is over. -/
theorem Turn.finish (h : Turn s) (hlock : s.lock = some i) (hx : s.sends[i]? = some x)
    {state : SendState} (hidle : ∀ left c, state ≠ .writing left c) (hwaiting : state ≠ .waiting)
    (hreturned : state = .returned → x.sent = x.events.length) :
    Inv (s.finish i state) := by
  have h' := h.setState hlock state
  refine ⟨⟨?_, h'.le, ?_, h'.nodup, h'.started, h'.wire, h'.call⟩, ?_⟩
  · intro j y hy _
    obtain ⟨z, hz, ⟨rfl, rfl⟩ | ⟨hij, rfl⟩⟩ := Table.cases_modify hy
    · obtain rfl : x = z := Option.some.inj (hx.symm.trans hz)
      exact ⟨hidle, fun hw => absurd hw hwaiting, hreturned⟩
    · refine h.settled j y hz fun hj => hij ?_
      exact Option.some.inj (hlock.symm.trans hj)
  · intro j hj
    cases hj
  · intro j hj
    cases hj

/-- A write begins. -/
theorem Turn.writing (h : Turn s) (hlock : s.lock = some i) (hx : s.sends[i]? = some x)
    (hlt : x.sent < x.events.length) (left c : Nat) : Inv (s.setState i (.writing left c)) := by
  refine ⟨h.setState hlock _, fun j hj => ?_⟩
  obtain rfl : i = j := Option.some.inj (hlock.symm.trans hj)
  exact ⟨_, left, c, Table.modify_self hx, rfl, hlt⟩

/-- The send in its turn tries to write. -/
theorem Turn.attempt (h : Turn s) (hlock : s.lock = some i) (hx : s.sends[i]? = some x)
    (hlt : x.sent < x.events.length) (opens : Openings) (left : Nat) :
    Inv (s.attempt i opens left) := by
  have hrefuse : ∀ {s : InputStream ε}, Turn s → s.lock = some i → s.sends[i]? = some x →
      Inv (s.finish i .refused) := fun h hlock hx =>
    h.finish hlock hx (by simp) (by simp) (by simp)
  induction left generalizing s with
  | zero => exact hrefuse h hlock hx
  | succ left ih =>
    rw [InputStream.attempt]
    split
    · exact hrefuse h hlock hx
    split
    · exact h.writing hlock hx hlt _ _
    split
    · exact ih ⟨h.settled, h.le, h.last, h.nodup, h.started, h.wire, by simp⟩ hlock hx
    · have hopened : Turn s.opened :=
        ⟨h.settled, h.le, h.last, h.nodup, h.started, h.wire, by
          rintro c ⟨⟩
          exact ⟨_, Table.append_new, rfl⟩⟩
      exact hopened.writing hlock hx hlt _ _

/-- It goes to its next event, or ends. -/
theorem Turn.next (h : Turn s) (hlock : s.lock = some i) (opens : Openings) :
    Inv (s.next i opens) := by
  obtain ⟨earlier, htook⟩ := h.last i hlock
  obtain ⟨x, hx⟩ := h.started i (by simp [htook])
  rw [InputStream.next, hx]
  dsimp only
  split
  · exact h.attempt hlock hx ‹_› opens 2
  · refine h.finish hlock hx (by simp) (by simp) fun _ => ?_
    have hle := h.le i x hx
    omega

/-- It has got the lock. -/
theorem Turn.locked (h : Turn s) (hlock : s.lock = none) (hx : s.sends[i]? = some x)
    (hwaiting : x.state = .waiting) : Turn (s.locked i) := by
  have hsettled := fun j y hy => h.settled j y hy (by simp [hlock])
  obtain ⟨hsent, hnew⟩ := (hsettled i x hx).waiting hwaiting
  exact {
    settled := by
      intro j y hy hne
      obtain ⟨hidle, hwait, hret⟩ := hsettled j y hy
      refine ⟨hidle, fun hw => ⟨(hwait hw).1, ?_⟩, hret⟩
      have hij : j ≠ i := fun hji => hne (congrArg some hji.symm)
      change j ∉ s.took ++ [i]
      simp [(hwait hw).2, hij]
    le := h.le
    last := by
      rintro j ⟨⟩
      exact ⟨s.took, rfl⟩
    nodup :=
      List.nodup_append.mpr ⟨h.nodup, by simp, by
        rintro j hj k hk rfl
        rw [List.mem_singleton.mp hk] at hj
        exact hnew hj⟩
    started := by
      intro j hj
      rcases List.mem_append.mp hj with hj | hj
      · exact h.started j hj
      · rw [List.mem_singleton.mp hj]
        exact ⟨x, hx⟩
    wire := by
      change s.wire = (s.took ++ [i]).flatMap s.part
      rw [h.wire, List.flatMap_append, List.flatMap_singleton, part_eq hx, hsent, List.take_zero,
        List.map_nil, List.append_nil]
    call := h.call }

/-- A write that returns adds the next event of the send whose turn it is. -/
theorem Turn.written (h : Turn s) (hlock : s.lock = some i) (hx : s.sends[i]? = some x)
    {e : ε} (he : x.events[x.sent]? = some e) : Turn (s.written i e) := by
  obtain ⟨earlier, htook⟩ := h.last i hlock
  have hlt := (List.getElem?_eq_some_iff.mp he).1
  have hpart : ∀ j, j ≠ i → (s.written i e).part j = s.part j := by
    intro j hji
    rw [part, part]
    simp [InputStream.written, Ne.symm hji]
  have hself : (s.written i e).part i = s.part i ++ [(i, e)] := by
    have hnext : (s.written i e).sends[i]? = some { x with sent := x.sent + 1 } :=
      Table.modify_self hx
    rw [part_eq hnext, part_eq hx, List.take_add_one, he]
    simp
  exact {
    settled := by
      intro j y hy hne
      obtain ⟨z, hz, ⟨rfl, -⟩ | ⟨-, rfl⟩⟩ := Table.cases_modify hy
      · exact absurd hlock hne
      · exact h.settled j y hz hne
    le := by
      intro j y hy
      obtain ⟨z, hz, ⟨rfl, rfl⟩ | ⟨-, rfl⟩⟩ := Table.cases_modify hy
      · obtain rfl : x = z := Option.some.inj (hx.symm.trans hz)
        exact hlt
      · exact h.le j y hz
    last := h.last
    nodup := h.nodup
    started := by
      intro j hj
      obtain ⟨z, hz⟩ := h.started j hj
      exact Table.modify_exists hz
    wire := by
      have hnodup := h.nodup
      change s.wire ++ [(i, e)] = s.took.flatMap (s.written i e).part
      rw [h.wire, htook]
      rw [htook] at hnodup
      have hearlier : earlier.flatMap (s.written i e).part = earlier.flatMap s.part := by
        refine List.flatMap_congr fun j hj => hpart j ?_
        rintro rfl
        exact (List.nodup_append.mp hnodup).2.2 j hj j (List.mem_singleton.mpr rfl) rfl
      rw [List.flatMap_append, List.flatMap_append, hearlier, List.flatMap_singleton,
        List.flatMap_singleton, hself, List.append_assoc]
    call := h.call }

/-- A call that broke is no longer `_call`. -/
theorem Turn.broken (h : Turn s) (c : Nat) : Turn (s.broken c) := by
  refine ⟨h.settled, h.le, h.last, h.nodup, h.started, h.wire, ?_⟩
  intro c' hc'
  change (if s.call = some c then none else s.call) = some c' at hc'
  split at hc'
  · cases hc'
  · rename_i hne
    obtain ⟨call, hcall, hok⟩ := h.call c' hc'
    have hcc : c ≠ c' := by
      rintro rfl
      exact hne hc'
    exact ⟨call, Table.modify_ne hcc hcall, hok⟩

/-- A send that is in a write has the lock. -/
theorem Turn.writes (h : Turn s) {left c : Nat} (hx : s.sends[i]? = some x)
    (hstate : x.state = .writing left c) : s.lock = some i := by
  by_contra hne
  exact (h.settled i x hx hne).idle left c hstate

/-- **The step lemma.** -/
theorem Inv.step (h : Inv s) {e : Label ε} (hstep : s.step e = some t) : Inv t := by
  cases stepped hstep with
  | start events =>
    have hnew : s.sends.length ∉ s.took := by
      intro hmem
      obtain ⟨x, hx⟩ := h.started _ hmem
      simp at hx
    refine ⟨⟨?_, ?_, h.last, h.nodup, ?_, ?_, h.call⟩, ?_⟩
    · intro i x hx hne
      rcases Table.cases_append hx with hx | ⟨rfl, rfl⟩
      · exact h.settled i x hx hne
      · exact ⟨by simp, fun _ => ⟨rfl, hnew⟩, by simp⟩
    · intro i x hx
      rcases Table.cases_append hx with hx | ⟨rfl, rfl⟩
      · exact h.le i x hx
      · exact Nat.zero_le _
    · intro i hi
      obtain ⟨x, hx⟩ := h.started i hi
      exact ⟨x, Table.append_old hx⟩
    · refine h.wire.trans (List.flatMap_congr fun i hi => ?_)
      obtain ⟨x, hx⟩ := h.started i hi
      rw [part_eq hx]
      exact (part_eq (Table.append_old hx)).symm
    · intro i hi
      obtain ⟨x, left, c, hx, hrest⟩ := h.holder i hi
      exact ⟨x, left, c, Table.append_old hx, hrest⟩
  | take opens hx hstate hlock => exact (h.toTurn.locked hlock hx hstate).next rfl opens
  | wrote opens hx hstate he =>
    have hlock := h.writes hx hstate
    exact (h.toTurn.written hlock hx he).next hlock opens
  | broke opens hx hstate =>
    have hlock := h.writes hx hstate
    obtain ⟨x, _, _, hx', _, hlt⟩ := h.holder _ hlock
    exact (h.toTurn.broken _).attempt hlock hx' hlt opens _
  | @cancelWaiting i x hx hstate =>
    -- a send that waits is not the one that has the lock, so no turn ends
    have hne : s.lock ≠ some i := by
      intro hlock
      obtain ⟨y, left, c, hy, hwriting, -⟩ := h.holder i hlock
      cases hx.symm.trans hy
      cases hstate.symm.trans hwriting
    refine ⟨⟨?_, ?_, h.last, h.nodup, ?_, ?_, h.call⟩, ?_⟩
    · intro j y hy hj
      obtain ⟨z, hz, ⟨rfl, rfl⟩ | ⟨-, rfl⟩⟩ := Table.cases_modify hy
      · exact ⟨by simp, by simp, by simp⟩
      · exact h.settled j y hz hj
    · intro j y hy
      obtain ⟨z, hz, ⟨rfl, rfl⟩ | ⟨-, rfl⟩⟩ := Table.cases_modify hy
      · exact h.le i z hz
      · exact h.le j y hz
    · intro j hj
      obtain ⟨z, hz⟩ := h.started j hj
      exact Table.modify_exists hz
    · exact h.wire.trans
        (congrArg (s.took.flatMap ·) (funext fun j => (part_setState s i j _).symm))
    · intro j hj
      obtain ⟨x, left, c, hx', hrest⟩ := h.holder j hj
      exact ⟨x, left, c, Table.modify_ne (fun hij => hne (hij ▸ hj)) hx', hrest⟩
  | cancelWriting hx hstate =>
    exact h.toTurn.finish (h.writes hx hstate) hx (by simp) (by simp) (by simp)
  | ends c =>
    refine ⟨⟨h.settled, h.le, h.last, h.nodup, h.started, h.wire, ?_⟩, h.holder⟩
    intro c' hc'
    obtain ⟨call, hcall, hok⟩ := h.call c' hc'
    by_cases hcc : c = c'
    · subst hcc
      exact ⟨_, Table.modify_self hcall, hok⟩
    · exact ⟨call, Table.modify_ne hcc hcall, hok⟩
  | close => exact ⟨⟨h.settled, h.le, h.last, h.nodup, h.started, h.wire, by simp⟩, h.holder⟩

/-- The invariant holds in every reachable state. -/
theorem inv_reachBy {ok : InputStream ε → Label ε → Prop} (h : (machine ε).ReachBy ok s) :
    Inv s := by
  refine h.invariant ?_ fun s e t hs _ hstep => hs.step hstep
  rintro s rfl
  exact ⟨⟨by simp [fresh], by simp [fresh], by simp [fresh], List.nodup_nil, by simp [fresh],
    rfl, by simp [fresh]⟩, by simp [fresh]⟩

end InputStream

end Input

end AndroidAppliance
