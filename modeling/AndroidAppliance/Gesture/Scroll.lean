import AndroidAppliance.Gesture.Wheel
import AndroidAppliance.Transition.Machine
import AndroidAppliance.Transition.Table
import Mathlib.Algebra.BigOperators.Group.List.Basic
import Mathlib.Algebra.Group.Prod

/-!
# The notches of the wheel

`_wheel_message` and `_scroll` of a session. A message adds its delta to `_wheel`, and makes a
task when the last one is done; the task takes the sum, plays a drag for it and looks again.
Between the look and the end of the task nothing is awaited, so a notch that comes as the task
ends finds either a task that will look or one that is done.

Coordinates are rational numbers. While Android runs and the sends succeed, no notch is lost and
none counts twice (`notches_kept`).
-/

namespace AndroidAppliance

namespace Gesture

/-- The call of `wheel` that a drag comes from. -/
structure Drag where
  identifier : Nat
  x : ℚ
  y : ℚ
  dx : ℚ
  dy : ℚ
  deriving DecidableEq, Repr

/-- The steps that `wheel` makes of it. -/
def Drag.steps (d : Drag) : List Step := wheel d.identifier d.x d.y d.dx d.dy

/-- The touches of a drag. -/
def Drag.events (d : Drag) : List Touch := d.steps.map Step.event

/-- How far a drag goes. -/
def Drag.delta (d : Drag) : ℚ × ℚ := (d.dx, d.dy)

/-- Where a task of `_scroll` waits; `steps` is its drag. -/
inductive Scrolling
  /-- It has not begun. -/
  | fresh
  /-- `play` sleeps before `step`. -/
  | sleeping (steps : List Step) (step : Step) (rest : List Step)
  /-- `play` sends the event of `step`. -/
  | sending (steps : List Step) (step : Step) (rest : List Step)
  /-- The drag was cut off, the `finally` sends its last event. -/
  | lifting (steps : List Step)
  | done
  deriving DecidableEq, Repr

namespace Scrolling

/-- `play` before the steps that are left. -/
def play (steps : List Step) : List Step → Scrolling
  | [] => done
  | step :: rest => if step.delay ≠ 0 then sleeping steps step rest else sending steps step rest

/-- The steps of its drag that are not sent yet. -/
def left : Scrolling → List Step
  | sleeping _ step rest => step :: rest
  | sending _ step rest => step :: rest
  | _ => []

/-- A drag is in progress. -/
def InDrag : Scrolling → Prop
  | sleeping .. => True
  | sending .. => True
  | lifting _ => True
  | _ => False

@[simp]
theorem left_play (steps rest : List Step) : (play steps rest).left = rest := by
  cases rest with
  | nil => rfl
  | cons step rest =>
    rw [play]
    split <;> rfl

theorem play_cons (steps : List Step) (step : Step) (rest : List Step) :
    play steps (step :: rest) ≠ done ∧ ∀ steps', play steps (step :: rest) ≠ lifting steps' := by
  rw [play]
  split <;> simp

end Scrolling

/-- A session, as far as the wheel goes. -/
structure Scroll where
  /-- `_wheel`: the place of the last notch, and the sum of those no drag was made for. -/
  wheel : Option (ℚ × ℚ × ℚ × ℚ)
  /-- Every task made for `_scroll`, in order. -/
  tasks : List Scrolling
  /-- `_wheel_task`. -/
  task : Option Nat
  /-- `_closed`. -/
  closed : Bool
  /-- The deltas of the messages that were accepted. -/
  accepted : List (ℚ × ℚ)
  /-- The drags that `play` was called for. -/
  drags : List Drag
  /-- The events that were sent. -/
  log : List Touch
  deriving DecidableEq, Repr

/-- What happens to the scrolls of a session. -/
inductive Scroll.Label
  /-- A wheel message; `running` is what `running_grpc` says. -/
  | message (running : Bool) (x y dx dy : ℚ)
  /-- A task begins, with what `running_grpc` and `new_identifier` give. -/
  | begin (task : Nat) (running : Bool) (identifier : Nat)
  /-- The sleep of a task is over. -/
  | slept (task : Nat)
  /-- The send of a task returns. After the last step the loop looks again, with what
  `running_grpc` and `new_identifier` give then. -/
  | sent (task : Nat) (running : Bool) (identifier : Nat)
  /-- The send of a task raises. -/
  | failed (task : Nat)
  /-- The send in the `finally` is over; an error of it is suppressed. -/
  | lifted (task : Nat) (sent : Bool)
  /-- `_close`. -/
  | close
  deriving DecidableEq, Repr

namespace Scroll

/-- Nothing was scrolled yet. -/
def start : Scroll where
  wheel := none
  tasks := []
  task := none
  closed := false
  accepted := []
  drags := []
  log := []

/-- What `_wheel_task` does; a task that is missing counts as done. -/
def current (s : Scroll) : Scrolling :=
  (s.task.bind fun i => s.tasks[i]?).getD .done

/-- The delta of `_wheel`. -/
def pending (s : Scroll) : ℚ × ℚ :=
  s.wheel.elim 0 fun w => w.2.2

/-- A task moves on. -/
def setTask (s : Scroll) (i : Nat) (t : Scrolling) : Scroll :=
  { s with tasks := s.tasks.set i t }

/-- `_wheel_message`. -/
def wheelMessage (s : Scroll) (running : Bool) (x y dx dy : ℚ) : Scroll :=
  if running then
    let w := s.wheel.getD (0, 0, 0, 0)
    let s := { s with
      wheel := some (x, y, w.2.2.1 + dx, w.2.2.2 + dy), accepted := s.accepted ++ [(dx, dy)] }
    if s.current = .done then
      { s with tasks := s.tasks ++ [.fresh], task := some s.tasks.length }
    else s
  else s

/-- `_scroll` from the head of its loop to the first wait. -/
def look (s : Scroll) (i : Nat) (running : Bool) (identifier : Nat) : Scroll :=
  match s.wheel with
  | none => s.setTask i .done
  | some (x, y, dx, dy) =>
    if running then
      let d : Drag := ⟨identifier, x, y, dx, dy⟩
      if d.steps = [] then s.setTask i .done
      else { s with wheel := none, drags := s.drags ++ [d] }.setTask i (.play d.steps d.steps)
    else { s with wheel := none }.setTask i .done

/-- A `CancelledError` where the task waits. -/
def cancelled : Scrolling → Scrolling
  | .sleeping steps _ _ => .lifting steps
  | .sending steps _ _ => .lifting steps
  | _ => .done

/-- One event; `none` when it cannot happen. -/
def step (s : Scroll) : Label → Option Scroll
  | .message running x y dx dy =>
    if s.closed then none else some (s.wheelMessage running x y dx dy)
  | .begin i running identifier =>
    match s.tasks[i]? with
    | some .fresh => some (s.look i running identifier)
    | _ => none
  | .slept i =>
    match s.tasks[i]? with
    | some (.sleeping steps step rest) => some (s.setTask i (.sending steps step rest))
    | _ => none
  | .sent i running identifier =>
    match s.tasks[i]? with
    | some (.sending steps step rest) =>
      let s := { s with log := s.log ++ [step.event] }
      if rest = [] then some (s.look i running identifier)
      else some (s.setTask i (.play steps rest))
    | _ => none
  | .failed i =>
    match s.tasks[i]? with
    | some (.sending steps _ _) => some (s.setTask i (.lifting steps))
    | _ => none
  | .lifted i sent =>
    match s.tasks[i]? with
    | some (.lifting steps) =>
      let events := if sent then (steps.getLast?.map Step.event).toList else []
      some ({ s with log := s.log ++ events }.setTask i .done)
    | _ => none
  | .close =>
    if s.closed then none
    else some (match s.task with
      | none => { s with closed := true }
      | some i => { s with closed := true }.setTask i (cancelled s.current))

/-- A session and its scroll tasks, in any order. -/
def machine : Machine Scroll Label where
  Init s := s = start
  step := step

/-- Android runs where `_scroll` looks, no send raises, and the session is not closed. -/
def Label.ok : Label → Bool
  | .begin _ running _ => running
  | .sent _ running _ => running
  | .failed _ => false
  | .close => false
  | _ => true

/-! ### What the steps keep -/

/-- What is pending gives no drag. -/
def Small (s : Scroll) : Prop :=
  ∀ x y dx dy, s.wheel = some (x, y, dx, dy) → Short (wanted dx) (wanted dy)

/-- The tasks before `_wheel_task` are done. -/
structure Tasks (s : Scroll) : Prop where
  others : ∀ i t, s.tasks[i]? = some t → t = .done ∨ s.task = some i
  here : ∀ i, s.task = some i → ∃ t, s.tasks[i]? = some t

/-- Nothing is lost on the way from the messages to the emulator. -/
structure Kept (s : Scroll) : Prop where
  delta : (s.drags.map Drag.delta).sum + s.pending = s.accepted.sum
  events : s.log ++ s.current.left.map Step.event = s.drags.flatMap Drag.events
  lifts : ∀ steps, s.current ≠ .lifting steps
  idle : s.current = .done → s.Small

variable {s t : Scroll} {i : Nat} {phase : Scrolling}

theorem steps_eq_nil {d : Drag} : d.steps = [] ↔ Short (wanted d.dx) (wanted d.dy) := by
  rw [Drag.steps, Gesture.wheel]
  split
  · exact iff_of_true rfl ‹_›
  · exact iff_of_false (by simp [drag]) ‹_›

theorem pending_none (h : s.wheel = none) : s.pending = 0 := by
  rw [pending, h, Option.elim_none]

theorem pending_some {w : ℚ × ℚ × ℚ × ℚ} (h : s.wheel = some w) : s.pending = w.2.2 := by
  rw [pending, h, Option.elim_some]

theorem current_of_task (h : s.task = some i) (hphase : s.tasks[i]? = some phase) :
    s.current = phase := by
  simp [current, h, hphase]

/-- A task that is not done is `_wheel_task`. -/
theorem Tasks.eq_current (h : Tasks s) (hphase : s.tasks[i]? = some phase)
    (hne : phase ≠ .done) : s.task = some i ∧ s.current = phase := by
  have htask := (h.others i phase hphase).resolve_left hne
  exact ⟨htask, current_of_task htask hphase⟩

theorem Tasks.setTask (h : Tasks s) (phase : Scrolling) (htask : s.task = some i) :
    Tasks (s.setTask i phase) := by
  constructor
  · intro j t hj
    rcases Table.cases_set hj with ⟨rfl, -⟩ | ⟨-, hj⟩
    · exact .inr htask
    · exact h.others j t hj
  · intro j hj
    obtain rfl : i = j := Option.some.inj (htask.symm.trans hj)
    obtain ⟨t, ht⟩ := h.here i htask
    exact ⟨phase, Table.set_self ht⟩

theorem current_setTask (h : Tasks s) (phase : Scrolling) (htask : s.task = some i) :
    (s.setTask i phase).current = phase := by
  obtain ⟨t, ht⟩ := h.here i htask
  exact current_of_task htask (Table.set_self ht)

/-- A task ends that has sent all of its drag. -/
theorem kept_done (h : Tasks s) (htask : s.task = some i)
    (hdelta : (s.drags.map Drag.delta).sum + s.pending = s.accepted.sum)
    (hevents : s.log = s.drags.flatMap Drag.events) (hsmall : s.Small) :
    Tasks (s.setTask i .done) ∧ Kept (s.setTask i .done) := by
  have hcurrent := current_setTask h .done htask
  refine ⟨h.setTask _ htask, hdelta, ?_, ?_, fun _ => hsmall⟩
  · rw [hcurrent]
    exact (List.append_nil _).trans hevents
  · rw [hcurrent]
    simp

/-- A task goes on with the rest of its drag. -/
theorem kept_play (h : Tasks s) (htask : s.task = some i) (steps : List Step) {rest : List Step}
    (hrest : rest ≠ []) (hdelta : (s.drags.map Drag.delta).sum + s.pending = s.accepted.sum)
    (hevents : s.log ++ rest.map Step.event = s.drags.flatMap Drag.events) :
    Tasks (s.setTask i (.play steps rest)) ∧ Kept (s.setTask i (.play steps rest)) := by
  have hcurrent := current_setTask h (.play steps rest) htask
  obtain ⟨next, later, rfl⟩ := List.exists_cons_of_ne_nil hrest
  have hplay := Scrolling.play_cons steps next later
  refine ⟨h.setTask _ htask, hdelta, ?_, ?_, ?_⟩
  · rw [hcurrent, Scrolling.left_play]
    exact hevents
  · rw [hcurrent]
    exact hplay.2
  · rw [hcurrent]
    exact fun hdone => absurd hdone hplay.1

/-- **The look of the loop.** The task has nothing left to send: either it takes the pending
delta for a drag, or it is done and the pending delta is small. -/
theorem kept_look (h : Tasks s) (htask : s.task = some i) (identifier : Nat)
    (hdelta : (s.drags.map Drag.delta).sum + s.pending = s.accepted.sum)
    (hevents : s.log = s.drags.flatMap Drag.events) :
    Tasks (s.look i true identifier) ∧ Kept (s.look i true identifier) := by
  rw [look]
  cases hwheel : s.wheel with
  | none =>
    refine kept_done h htask hdelta hevents fun x y dx dy hw => ?_
    cases hwheel.symm.trans hw
  | some w =>
    obtain ⟨x, y, dx, dy⟩ := w
    simp only [if_true]
    split
    · rename_i hsteps
      -- the delta stays pending: it is too small for a drag
      have hshort := steps_eq_nil.mp hsteps
      refine kept_done h htask hdelta hevents fun x' y' dx' dy' hw => ?_
      cases hwheel.symm.trans hw
      exact hshort
    · rename_i hsteps
      set d : Drag := ⟨identifier, x, y, dx, dy⟩
      set s' : Scroll := { s with wheel := none, drags := s.drags ++ [d] }
      have h' : Tasks s' := ⟨h.others, h.here⟩
      refine kept_play h' htask d.steps hsteps ?_ ?_
      · rw [pending_none (by rfl), add_zero]
        change ((s.drags ++ [d]).map Drag.delta).sum = s.accepted.sum
        rw [← hdelta, pending_some hwheel, List.map_append, List.sum_append, List.map_singleton,
          List.sum_singleton]
        rfl
      · change s.log ++ _ = (s.drags ++ [d]).flatMap Drag.events
        rw [hevents, List.flatMap_append]
        simp [Drag.events]

theorem kept_wheelMessage (h : Tasks s) (hk : Kept s) (running : Bool) (x y dx dy : ℚ) :
    Tasks (s.wheelMessage running x y dx dy) ∧ Kept (s.wheelMessage running x y dx dy) := by
  cases running with
  | false => exact ⟨h, hk⟩
  | true =>
    rw [wheelMessage, if_pos rfl]
    set w := s.wheel.getD (0, 0, 0, 0) with hw
    set s' : Scroll := { s with
      wheel := some (x, y, w.2.2.1 + dx, w.2.2.2 + dy), accepted := s.accepted ++ [(dx, dy)] }
    have hdelta : (s'.drags.map Drag.delta).sum + s'.pending = s'.accepted.sum := by
      have hpending : s'.pending = s.pending + (dx, dy) := by
        rw [pending_some (by rfl : s'.wheel = _)]
        cases hwheel : s.wheel with
        | none => simp [pending_none hwheel, w, hwheel]
        | some last => simp [pending_some hwheel, w, hwheel, Prod.add_def]
      rw [hpending, ← add_assoc]
      change (s.drags.map Drag.delta).sum + s.pending + (dx, dy) = (s.accepted ++ [(dx, dy)]).sum
      rw [hk.delta, List.sum_append, List.sum_singleton]
    change Tasks (if s.current = .done then _ else s') ∧ Kept (if s.current = .done then _ else s')
    split
    · rename_i hdone
      have hlast : (s.tasks ++ [Scrolling.fresh])[s.tasks.length]? = some .fresh :=
        Table.append_new
      have hcurrent : ({ s' with
          tasks := s'.tasks ++ [.fresh], task := some s'.tasks.length } : Scroll).current
          = .fresh := current_of_task rfl hlast
      constructor
      · constructor
        · intro j t hj
          rcases Table.cases_append hj with hj | ⟨rfl, -⟩
          · -- The task before is done, so all of the older ones are.
            refine .inl ((h.others j t hj).elim id fun htask => ?_)
            exact (current_of_task htask hj).symm.trans hdone
          · exact .inr rfl
        · rintro j ⟨⟩
          exact ⟨_, hlast⟩
      · refine ⟨hdelta, ?_, ?_, ?_⟩
        · rw [hcurrent]
          have hevents := hk.events
          rw [hdone] at hevents
          exact hevents
        · rw [hcurrent]
          simp
        · rw [hcurrent]
          simp
    · rename_i hne
      exact ⟨⟨h.others, h.here⟩, hdelta, hk.events, hk.lifts, fun hdone => absurd hdone hne⟩

/-- **The step lemma.** -/
theorem kept_step (h : Tasks s) (hk : Kept s) {e : Label} (hok : e.ok = true)
    (hstep : s.step e = some t) : Tasks t ∧ Kept t := by
  cases e with
  | message running x y dx dy =>
    rw [step] at hstep
    split at hstep
    · cases hstep
    · cases hstep
      exact kept_wheelMessage h hk running x y dx dy
  | begin i running identifier =>
    cases (show running = true from hok)
    rw [step] at hstep
    split at hstep
    · rename_i hphase
      cases hstep
      obtain ⟨htask, hcurrent⟩ := h.eq_current hphase (by simp)
      have hevents := hk.events
      rw [hcurrent] at hevents
      exact kept_look h htask identifier hk.delta ((List.append_nil _).symm.trans hevents)
    · cases hstep
  | slept i =>
    rw [step] at hstep
    split at hstep
    · rename_i steps step rest hphase
      cases hstep
      obtain ⟨htask, hcurrent⟩ := h.eq_current hphase (by simp)
      have hnext := current_setTask h (.sending steps step rest) htask
      refine ⟨h.setTask _ htask, hk.delta, ?_, ?_, ?_⟩
      · have hevents := hk.events
        rw [hcurrent] at hevents
        rw [hnext]
        exact hevents
      · rw [hnext]
        simp
      · rw [hnext]
        simp
    · cases hstep
  | sent i running identifier =>
    cases (show running = true from hok)
    rw [step] at hstep
    split at hstep
    · rename_i steps step rest hphase
      obtain ⟨htask, hcurrent⟩ := h.eq_current hphase (by simp)
      have hevents := hk.events
      rw [hcurrent] at hevents
      set s' : Scroll := { s with log := s.log ++ [step.event] }
      have h' : Tasks s' := ⟨h.others, h.here⟩
      have hevents' : s'.log ++ rest.map Step.event = s'.drags.flatMap Drag.events := by
        rw [← hevents]
        simp [s', Scrolling.left]
      dsimp only at hstep
      split at hstep
      · rename_i hrest
        cases hstep
        rw [hrest] at hevents'
        exact kept_look h' htask identifier hk.delta ((List.append_nil _).symm.trans hevents')
      · rename_i hrest
        cases hstep
        exact kept_play h' htask steps hrest hk.delta hevents'
    · cases hstep
  | failed i => cases hok
  | lifted i sent =>
    rw [step] at hstep
    split at hstep
    · rename_i steps hphase
      exact absurd (h.eq_current hphase (by simp)).2 (hk.lifts steps)
    · cases hstep
  | close => cases hok

theorem kept_reachBy (h : machine.ReachBy (fun _ e => e.ok = true) s) : Tasks s ∧ Kept s := by
  refine h.invariant (I := fun s => Tasks s ∧ Kept s) ?_ ?_
  · rintro s rfl
    refine ⟨⟨?_, ?_⟩, ?_, ?_, ?_, ?_⟩
    · intro i t hi
      cases hi
    · intro i hi
      cases hi
    · rw [pending_none rfl, add_zero]
      rfl
    · rfl
    · intro steps hlift
      cases hlift
    · intro _ x y dx dy hw
      cases hw
  · intro s e t hs hok hstep
    exact kept_step hs.1 hs.2 hok hstep

/-- **No notch is lost and none counts twice**: while Android runs and the sends succeed, the
deltas of the drags with what is pending are those of the messages, one drag at most is in
progress, and what is pending when no task runs is too little for a drag. What was sent is all
of the drags, less what the one in progress has left. -/
theorem notches_kept (h : machine.ReachBy (fun _ e => e.ok = true) s) :
    (s.drags.map Drag.delta).sum + s.pending = s.accepted.sum ∧
    (∀ (i j : Nat) (t u : Scrolling), s.tasks[i]? = some t → s.tasks[j]? = some u →
      t.InDrag → u.InDrag → i = j) ∧
    ((∀ t ∈ s.tasks, t = .done) → ∀ x y dx dy, s.wheel = some (x, y, dx, dy) →
      Short (wanted dx) (wanted dy)) ∧
    s.log ++ s.current.left.map Step.event = s.drags.flatMap Drag.events := by
  obtain ⟨htasks, hkept⟩ := kept_reachBy h
  refine ⟨hkept.delta, ?_, ?_, hkept.events⟩
  · intro i j t u hi hj ht hu
    have hne : ∀ {t : Scrolling}, t.InDrag → t ≠ .done := by
      rintro t ht rfl
      exact ht
    exact Option.some.inj
      ((htasks.eq_current hi (hne ht)).1.symm.trans (htasks.eq_current hj (hne hu)).1)
  · intro hdone
    refine hkept.idle ?_
    cases htask : s.task with
    | none => simp [current, htask]
    | some i =>
      obtain ⟨t, ht⟩ := htasks.here i htask
      rw [current_of_task htask ht]
      exact hdone t (List.mem_of_getElem? ht)

/-- Half a notch comes while the drag of the notch before it sleeps; it stays pending. -/
def halfNotch : List Label :=
  [.message true 500 900 0 100, .begin 0 true 1, .sent 0 true 2, .message true 500 900 0 10]
    ++ ((List.replicate 8 [Label.slept 0, .sent 0 true 2]).flatten)

theorem notches_kept_half : ∃ s, machine.run start halfNotch = some s ∧
    (s.drags.map Drag.delta).sum + s.pending = s.accepted.sum ∧
    (∀ (i j : Nat) (t u : Scrolling), s.tasks[i]? = some t → s.tasks[j]? = some u →
      t.InDrag → u.InDrag → i = j) ∧
    ((∀ t ∈ s.tasks, t = .done) → ∀ x y dx dy, s.wheel = some (x, y, dx, dy) →
      Short (wanted dx) (wanted dy)) ∧
    s.log ++ s.current.left.map Step.event = s.drags.flatMap Drag.events := by
  have hrun : (machine.run start halfNotch).isSome = true := by decide +kernel
  obtain ⟨s, hs⟩ := Option.isSome_iff_exists.mp hrun
  exact ⟨s, hs, notches_kept (.of_run (.init rfl) (by decide +kernel) hs)⟩

end Scroll

end Gesture

end AndroidAppliance
