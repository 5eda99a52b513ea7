import AndroidAppliance.Gesture.Told

/-!
# The frames of the display

What the daemon hears of the display over whole runs, however the animation frames fall. The
invariant is `DisplayInput.Told`. Two runs with the same events are compared through it: an event
does the same where something waits as where nothing does (`Told.does`), so leaving a frame out
of a run, or putting one in, changes no stroke.

The wheel has no strokes. What the messages say of it is what it was turned, up to the rounding
of each message.
-/

namespace AndroidAppliance

namespace Gesture

variable {π : Type} [DecidableEq π] {w w' t t' : Dashboard π} {e : Happens π}
  {es es' : List (Happens π)} {pageHeight : ℚ}

namespace Dashboard

/-- What the daemon heard. -/
def heard (w : Dashboard π) : Heard := Heard.nothing.hearAll w.sent

/-- Android takes input, a message goes out, and the event is one of a browser. -/
def Takes (w : Dashboard π) (e : Happens π) : Prop :=
  e.enabled = true ∧ e.open_ = true ∧ w.input.Proper e.event

instance (w : Dashboard π) (e : Happens π) : Decidable (w.Takes e) := by
  unfold Takes
  infer_instance

/-- **What a daemon knows of the display.** -/
structure Followed (w : Dashboard π) : Prop where
  /-- The same fingers are down, at all times. -/
  down : ∀ n, (w.heard.fingers n).isSome = (w.input.touches.view n).isSome
  /-- The same buttons are down, at all times. -/
  buttons : buttonsOf w.heard.mouse = w.input.buttons
  /-- A frame is due exactly when something waits for it. -/
  waits : w.input.frame = true ↔ w.input.Waits
  /-- When no frame is due, each finger is where it is. -/
  fingers : w.input.frame = false → w.heard.fingers = w.input.touches.view
  /-- When no frame is due, the mouse is where it is. -/
  mouse : w.input.frame = false → w.heard.mouse = w.input.mouse.map fun m => (m.x, m.y, m.buttons)
  /-- Whatever waits, `releaseAll` leaves nothing down and nothing that waits. -/
  released : ∀ (pageHeight : ℚ) (e : Happens π), e.event = .releaseAll → e.enabled = true →
    e.open_ = true →
    (w.step pageHeight e).heard.fingers = (fun _ => none) ∧
      (w.step pageHeight e).heard.mouse = none ∧ ¬(w.step pageHeight e).input.Waits

/-- Two displays on which the same was done. -/
structure SameHands (w w' : Dashboard π) : Prop where
  /-- The same went down and up, in one order and at the same places. -/
  strokes : w.heard.strokes = w'.heard.strokes
  touches : w.input.touches = w'.input.touches
  mouse : w.input.flushed.mouse = w'.input.flushed.mouse
  down : w.heard.SameDown w'.heard
  /-- When no frame is due, the daemons know the same. -/
  heard : w.input.frame = false → w'.input.frame = false → w.heard = w'.heard

/-- What the session hears in a step. -/
theorem heard_step (h : w.Takes e) : (w.step pageHeight e).heard =
    w.heard.hearAll (w.input.handle pageHeight true e.event).2 := by
  unfold heard Dashboard.step
  simp only [h.1, h.2.1, Bool.and_self, if_true, Heard.hearAll_append]

/-- What the step does to the gestures. -/
theorem input_step (h : e.enabled = true) : (w.step pageHeight e).input =
    (w.input.handle pageHeight true e.event).1 := by
  unfold Dashboard.step
  rw [h]

/-- **One step** keeps what was told. -/
theorem told_step (ht : w.input.Told w.heard) (htakes : w.Takes e) :
    (w.step pageHeight e).input.Told (w.step pageHeight e).heard := by
  rw [heard_step htakes, input_step htakes.1]
  by_cases hframe : e.event = .frame
  · rw [hframe]
    exact ht.flushed
  · exact (ht.does htakes.2.2 hframe).told

/-- At first nothing was told, and nothing is down. -/
theorem told_fresh : (⟨.fresh, []⟩ : Dashboard π).input.Told
    (⟨.fresh, []⟩ : Dashboard π).heard where
  table := .empty
  fingers _ := rfl
  places _ := rfl
  buttons := rfl
  pressed := nofun
  mouse := nofun
  lifted _ := rfl
  frame := by
    refine iff_of_false Bool.false_ne_true ?_
    rintro (hmoved | ⟨m, hm, -⟩ | hwheel)
    · cases hmoved
    · cases hm
    · exact hwheel rfl

/-- Between frames the session knows the mouse. -/
theorem mouse_of_told (ht : w.input.Told w.heard) (hframe : w.input.frame = false) :
    w.heard.mouse = w.input.mouse.map fun m => (m.x, m.y, m.buttons) := by
  cases hm : w.input.mouse with
  | none => exact ht.lifted hm
  | some m =>
    refine ht.mouse m hm ?_
    by_contra hdirty
    have hdue : w.input.frame = true :=
      ht.frame.mpr (.inr (.inl ⟨m, hm, Bool.not_eq_false _ ▸ hdirty⟩))
    rw [hframe] at hdue
    cases hdue

/-- Between frames it knows the fingers. -/
theorem fingers_of_told (ht : w.input.Told w.heard) (hframe : w.input.frame = false) :
    w.heard.fingers = w.input.touches.view := by
  refine ht.places ?_
  by_contra hmoved
  have hdue : w.input.frame = true := ht.frame.mpr (.inl (Bool.not_eq_false _ ▸ hmoved))
  rw [hframe] at hdue
  cases hdue

/-- What was told is what is down. -/
theorem followed_of_told (ht : w.input.Told w.heard) : w.Followed := by
  refine ⟨ht.fingers, ht.buttons, ht.frame, fingers_of_told ht, mouse_of_told ht,
    fun pageHeight e hrelease henabled hopen => ?_⟩
  have htakes : w.Takes e := ⟨henabled, hopen, by rw [hrelease]; exact trivial⟩
  have hafter : (w.step pageHeight e).input.Told (w.step pageHeight e).heard :=
    told_step ht htakes
  have hinput : (w.step pageHeight e).input = w.input.releaseAll.1 := by
    rw [input_step henabled, hrelease]
    rfl
  have hidle : (w.step pageHeight e).input.frame = false := by
    rw [hinput]
    rfl
  have hempty : (w.step pageHeight e).input.touches.view = fun _ => none := by
    rw [hinput]
    change w.input.touches.releaseAll.1.view = _
    exact DisplayInput.view_releaseAll w.input.touches
  refine ⟨(fingers_of_told hafter hidle).trans hempty, hafter.lifted ?_, fun hwaits => ?_⟩
  · rw [hinput]
    rfl
  · have hdue := hafter.frame.mpr hwaits
    rw [hidle] at hdue
    cases hdue

/-! ### Frames that fall elsewhere -/

/-- The same strokes, and the same held, whatever waits. -/
structure Alike (w w' : Dashboard π) : Prop where
  told : w.input.Told w.heard
  told' : w'.input.Told w'.heard
  held : w.input.flushed = w'.input.flushed
  strokes : w.heard.strokes = w'.heard.strokes

theorem Alike.symm (h : w.Alike w') : w'.Alike w := ⟨h.told', h.told, h.held.symm, h.strokes.symm⟩

/-- Alike pages have the same fingers. -/
theorem Alike.touches (h : w.Alike w') : w.input.touches = w'.input.touches :=
  congrArg (fun d => d.touches) h.held

/-- They were told of the same fingers and buttons. -/
theorem Alike.down (h : w.Alike w') : w.heard.SameDown w'.heard := by
  refine ⟨fun n => ?_, ?_⟩
  · rw [h.told.fingers, h.told'.fingers, h.touches]
  · rw [h.told.buttons, h.told'.buttons, ← DisplayInput.buttons_flushed, h.held,
      DisplayInput.buttons_flushed]

/-- A frame changes nothing but what waits. -/
theorem Alike.frame (h : w.Alike w') (htakes : w.Takes e) (hframe : e.event = .frame) :
    (w.step pageHeight e).Alike w' := by
  refine ⟨told_step h.told htakes, h.told', ?_, ?_⟩
  · rw [input_step htakes.1, hframe]
    exact (DisplayInput.flushed_flushed _).trans h.held
  · rw [heard_step htakes, hframe]
    exact h.told.toNear.unsent.1.strokes.trans h.strokes

/-- **The same event** on both. -/
theorem Alike.input {pageHeight : ℚ} (h : w.Alike w') (htakes : w.Takes e) (htakes' : w'.Takes e)
    (hinput : e.event ≠ .frame) : (w.step pageHeight e).Alike (w'.step pageHeight e) := by
  have hdoes : w.input.Does w.heard (w.input.handle pageHeight true e.event) _ _ :=
    h.told.does htakes.2.2 hinput
  have hdoes' : w'.input.Does w'.heard (w'.input.handle pageHeight true e.event) _ _ :=
    h.told'.does htakes'.2.2 hinput
  rw [← h.held] at hdoes'
  refine ⟨told_step h.told htakes, told_step h.told' htakes', ?_, ?_⟩
  · rw [input_step htakes.1, input_step htakes'.1]
    exact hdoes.after.trans hdoes'.after.symm
  · rw [heard_step htakes, heard_step htakes']
    obtain ⟨before, hbefore, hquiet⟩ := hdoes.messages
    obtain ⟨before', hbefore', hquiet'⟩ := hdoes'.messages
    rw [hbefore, hbefore', Heard.hearAll_append, Heard.hearAll_append]
    have hsame : (w.heard.hearAll before).SameDown (w'.heard.hearAll before') :=
      hquiet.same.trans (h.down.trans hquiet'.same.symm)
    have hstrokes : (w.heard.hearAll before).strokes = (w'.heard.hearAll before').strokes :=
      hquiet.strokes.trans (h.strokes.trans hquiet'.strokes.symm)
    exact (hsame.hearAll hstrokes _).2

/-- The session cannot tell their hands apart. -/
theorem Alike.sameHands (h : w.Alike w') : w.SameHands w' := by
  refine ⟨h.strokes, h.touches, congrArg DisplayInput.mouse h.held, h.down,
    fun hframe hframe' => ?_⟩
  have hfingers : w.heard.fingers = w'.heard.fingers := by
    rw [fingers_of_told h.told hframe, fingers_of_told h.told' hframe', h.touches]
  have hmouse : w.heard.mouse = w'.heard.mouse := by
    rw [mouse_of_told h.told hframe, mouse_of_told h.told' hframe']
    have hmouse := congrArg (fun d => d.mouse.map fun m => (m.x, m.y, m.buttons)) h.held
    simpa [DisplayInput.flushed, Function.comp_def] using hmouse
  have hstrokes := h.strokes
  generalize w.heard = heard at hfingers hmouse hstrokes ⊢
  generalize w'.heard = heard' at hfingers hmouse hstrokes ⊢
  cases heard
  cases heard'
  simp_all

/-- The step of the machine is the step of the page. -/
theorem step_eq (hstep : (displayMachine π pageHeight).step w e = some t) :
    w.step pageHeight e = t := by
  simp only [displayMachine] at hstep
  split at hstep
  · cases hstep
  · exact Option.some.inj hstep

omit [DecidableEq π] in
/-- What is no input is a frame. -/
theorem not_isInput : ¬e.isInput = true ↔ e.event = .frame := by
  unfold Happens.isInput
  cases e.event <;> simp

/-- Frames alone. -/
theorem Alike.run_frames (h : w.Alike w') (hok : (displayMachine π pageHeight).RunOk Takes w es)
    (hrun : (displayMachine π pageHeight).run w es = some t)
    (hframes : es.filter Happens.isInput = []) : t.Alike w' := by
  induction es generalizing w with
  | nil =>
    cases hrun
    exact h
  | cons e es ih =>
    obtain ⟨r, hr, hrest⟩ := Option.bind_eq_some_iff.mp hrun
    have hinput : ¬e.isInput = true := List.filter_eq_nil_iff.mp hframes e List.mem_cons_self
    have hstep : w.step pageHeight e = r := step_eq hr
    refine ih ?_ (hok.2 r hr) hrest ?_
    · rw [← hstep]
      exact h.frame hok.1 (not_isInput.mp hinput)
    · rwa [List.filter_cons_of_neg hinput] at hframes

/-- **Two runs with the same events**, with frames anywhere between them. -/
theorem Alike.run (h : w.Alike w') (hsame : es.filter Happens.isInput = es'.filter Happens.isInput)
    (hok : (displayMachine π pageHeight).RunOk Takes w es)
    (hok' : (displayMachine π pageHeight).RunOk Takes w' es')
    (hrun : (displayMachine π pageHeight).run w es = some t)
    (hrun' : (displayMachine π pageHeight).run w' es' = some t') : t.Alike t' := by
  induction es generalizing w w' es' with
  | nil =>
    cases hrun
    exact (h.symm.run_frames hok' hrun' hsame.symm).symm
  | cons e es ih =>
    obtain ⟨r, hr, hrest⟩ := Option.bind_eq_some_iff.mp hrun
    by_cases hinput : e.isInput = true
    · induction es' generalizing w' with
      | nil =>
        rw [List.filter_cons_of_pos hinput] at hsame
        cases hsame
      | cons e' es' ih' =>
        obtain ⟨r', hr', hrest'⟩ := Option.bind_eq_some_iff.mp hrun'
        by_cases hinput' : e'.isInput = true
        · rw [List.filter_cons_of_pos hinput, List.filter_cons_of_pos hinput',
            List.cons.injEq] at hsame
          obtain ⟨rfl, hsame⟩ := hsame
          have hboth : (w.step pageHeight e).Alike (w'.step pageHeight e) :=
            h.input hok.1 hok'.1 fun hframe => absurd hinput (not_isInput.mpr hframe)
          rw [step_eq hr, step_eq hr'] at hboth
          exact ih hboth hsame (hok.2 r hr) (hok'.2 r' hr') hrest hrest'
        · have hframe : (w'.step pageHeight e').Alike w :=
            h.symm.frame hok'.1 (not_isInput.mp hinput')
          rw [step_eq hr'] at hframe
          rw [List.filter_cons_of_neg hinput'] at hsame
          exact ih' hframe.symm hsame (hok'.2 r' hr') hrest'
    · have hframe : (w.step pageHeight e).Alike w' := h.frame hok.1 (not_isInput.mp hinput)
      rw [step_eq hr] at hframe
      rw [List.filter_cons_of_neg hinput] at hsame
      exact ih hframe hsame (hok.2 r hr) hok' hrest hrun'

end Dashboard

/-- **A daemon follows the display**, in every run of its events and frames. -/
theorem display_followed (h : (displayMachine π pageHeight).ReachBy Dashboard.Takes w) :
    w.Followed := by
  have ht : w.input.Told w.heard := by
    refine h.invariant (I := fun w => w.input.Told w.heard) (fun w hw => ?_)
      fun w e w' ht htakes hstep => ?_
    · rw [hw]
      exact Dashboard.told_fresh
    · rw [← Dashboard.step_eq hstep]
      exact Dashboard.told_step ht htakes
  exact Dashboard.followed_of_told ht

/-- **It does not matter when the animation frames are**: two runs with the same events have
the same strokes, and the daemons know the same when no frame is due. -/
theorem frames_do_not_matter (hsame : es.filter Happens.isInput = es'.filter Happens.isInput)
    (hok : (displayMachine π pageHeight).RunOk Dashboard.Takes ⟨.fresh, []⟩ es)
    (hok' : (displayMachine π pageHeight).RunOk Dashboard.Takes ⟨.fresh, []⟩ es')
    (hrun : (displayMachine π pageHeight).run ⟨.fresh, []⟩ es = some t)
    (hrun' : (displayMachine π pageHeight).run ⟨.fresh, []⟩ es' = some t') : t.SameHands t' := by
  have hfresh : (⟨.fresh, []⟩ : Dashboard π).Alike ⟨.fresh, []⟩ :=
    ⟨Dashboard.told_fresh, Dashboard.told_fresh, rfl, rfl⟩
  exact (hfresh.run hsame hok hok' hrun hrun').sameHands

/-! ### The wheel -/

/-- A direction of the wheel. -/
inductive Axis
  | x
  | y
  deriving DecidableEq, Repr

/-- The part of the wheel along an axis. -/
def Wheel.along (a : Axis) (w : Wheel) : ℚ :=
  match a with
  | .x => w.dx
  | .y => w.dy

/-- The part of an event along an axis. -/
def WheelEvent.along (a : Axis) (e : WheelEvent) : ℚ :=
  match a with
  | .x => e.deltaX
  | .y => e.deltaY

/-- What a message says of the wheel. -/
def Message.along (a : Axis) : Message → Option ℚ
  | .wheel _ _ dx dy =>
    match a with
    | .x => some dx
    | .y => some dy
  | .touch _ | .mouse _ _ _ => none

/-- What the messages say of the wheel. -/
def told (a : Axis) (log : List Message) : List ℚ := log.filterMap (Message.along a)

/-- How far an event turns the wheel. -/
def DisplayEvent.turn {π : Type} (a : Axis) (pageHeight : ℚ) : DisplayEvent π → ℚ
  | .wheel e => if e.ctrlKey then 0 else e.along a * wheelPixels e.deltaMode pageHeight
  | .down _ | .move _ | .up _ _ | .frame | .releaseAll => 0

/-- How far the wheel was turned and no message has said. -/
def DisplayInput.pending {π : Type} (a : Axis) (d : DisplayInput π) : ℚ :=
  d.wheel.elim 0 (Wheel.along a)

variable {a : Axis} {d : DisplayInput π} {m : Mouse π} {log log' : List Message}

@[simp]
theorem told_nil : told a [] = [] := rfl

@[simp]
theorem told_append : told a (log ++ log') = told a log ++ told a log' := List.filterMap_append

/-- A touch turns no wheel. -/
@[simp]
theorem told_touch (m : Option Touches) : told a (m.map Message.touch).toList = [] := by
  cases m <;> rfl

omit [DecidableEq π] in
/-- Nor does the mouse. -/
@[simp]
theorem told_mouse (m : Option (Mouse π)) : told a (m.map Mouse.message).toList = [] := by
  cases m <;> rfl

omit [DecidableEq π] in
/-- What is not sent yet turns it once. -/
theorem told_unsent (d : DisplayInput π) :
    told a d.unsent = (d.wheel.map fun w => round1 (w.along a)).toList := by
  unfold DisplayInput.unsent
  rw [told_append, told_append, told_mouse]
  have htouches : told a (if d.touchesMoved then (d.touches.snapshot.map Message.touch).toList
      else []) = [] := by
    split
    · exact told_touch _
    · rfl
  rw [htouches]
  cases d.wheel with
  | none => rfl
  | some w => cases a <;> rfl

/-- A message says how far the wheel was turned, to a tenth of a pixel. -/
theorem abs_round1_sub_le (q : ℚ) : |round1 q - q| ≤ 1 / 20 := by
  have hlow := Int.floor_le (q * 10 + 1 / 2)
  have hhigh := Int.lt_floor_add_one (q * 10 + 1 / 2)
  unfold round1 mathRound
  rw [abs_le]
  constructor
  · linarith
  · linarith

/-- What an event does about the wheel: nothing is said and the turn is added, or all that was
added is said. -/
inductive Turns (a : Axis) (pageHeight : ℚ) (d : DisplayInput π) (e : DisplayEvent π)
    (r : DisplayInput π × List Message) : Prop
  | kept (hsaid : told a r.2 = [])
      (hpending : r.1.pending a = d.pending a + e.turn a pageHeight)
  | said (hsaid : told a r.2 = (d.wheel.map fun w => round1 (w.along a)).toList)
      (hpending : r.1.pending a = 0) (hturn : e.turn a pageHeight = 0)

omit [DecidableEq π] in
/-- A wheel event is added to what is pending. -/
theorem turns_onWheel (e : WheelEvent) :
    (d.onWheel pageHeight true e).pending a =
      d.pending a + (DisplayEvent.wheel e : DisplayEvent π).turn a pageHeight := by
  unfold DisplayInput.onWheel DisplayEvent.turn
  obtain ⟨ctrlKey, x, y, deltaX, deltaY, deltaMode⟩ := e
  cases ctrlKey with
  | true => exact (add_zero _).symm
  | false =>
    unfold DisplayInput.pending DisplayInput.schedule
    cases a <;> cases d.wheel <;> simp [Wheel.along, WheelEvent.along]

/-- A move turns nothing. -/
theorem turns_move (e : PointerEvent π) :
    Turns a pageHeight d (.move e) (d.move e) := by
  unfold DisplayInput.move
  split
  · rename_i m hm
    unfold DisplayInput.moveMouse
    split
    · refine .said ?_ rfl rfl
      simp only [told_append, told_unsent]
      exact List.append_nil _
    · exact .kept rfl (add_zero _).symm
  · split
    · refine .kept rfl ?_
      unfold DisplayInput.moveTouch
      dsimp only
      split
      · exact (add_zero _).symm
      · exact (add_zero _).symm
    · exact .kept rfl (add_zero _).symm

/-- Nor does a lift. -/
theorem turns_up (e : PointerEvent π) (cancelled : Bool) :
    Turns a pageHeight d (.up e cancelled) (d.up e cancelled) := by
  unfold DisplayInput.up
  split
  · refine .said ?_ rfl rfl
    simp only [told_append, told_unsent]
    exact List.append_nil _
  · split
    · refine .said ?_ rfl rfl
      simp only [told_append, told_unsent, told_touch, List.append_nil]
    · exact .kept rfl (add_zero _).symm

/-- A press sends what is pending. -/
theorem turns_down (e : PointerEvent π) (enabled : Bool) :
    Turns a pageHeight d (.down e) (d.down enabled e) := by
  unfold DisplayInput.down
  split
  · exact .kept rfl (add_zero _).symm
  · split
    · split
      · exact .kept rfl (add_zero _).symm
      · exact .kept rfl (add_zero _).symm
    · refine .said ?_ rfl rfl
      simp only [told_append, told_unsent, told_touch, List.append_nil]

/-- Every event but the end of all gestures. -/
theorem turns_handle {e : DisplayEvent π} (hkeeps : e ≠ .releaseAll) :
    Turns a pageHeight d e (d.handle pageHeight true e) := by
  cases e with
  | down e => exact turns_down e true
  | move e => exact turns_move e
  | up e cancelled => exact turns_up e cancelled
  | wheel e => exact .kept rfl (turns_onWheel e)
  | frame => exact .said (told_unsent d) rfl rfl
  | releaseAll => exact absurd rfl hkeeps

omit [DecidableEq π] in
/-- An event is off by the rounding of what it says. -/
theorem Turns.abs_le {e : DisplayEvent π} {r : DisplayInput π × List Message}
    (h : Turns a pageHeight d e r) : |(told a r.2).sum + r.1.pending a -
      (d.pending a + e.turn a pageHeight)| ≤ (told a r.2).length / 20 := by
  cases h with
  | kept hsaid hpending =>
    rw [hsaid, hpending]
    simp
  | said hsaid hpending hturn =>
    rw [hsaid, hpending, hturn, DisplayInput.pending]
    cases d.wheel with
    | none => simp
    | some w => simpa using abs_round1_sub_le (w.along a)

/-- What is said of the wheel, or waits. -/
def Dashboard.saidOf (w : Dashboard π) (a : Axis) : ℚ := (told a w.sent).sum + w.input.pending a

/-- A step loses what `round1` rounds off, once for each message. -/
theorem wheel_step (htakes : w.Takes e) (hkeeps : e.event ≠ .releaseAll)
    (hstep : (displayMachine π pageHeight).step w e = some t) (a : Axis) :
    |t.saidOf a - (w.saidOf a + e.event.turn a pageHeight)| ≤
      (told a t.sent).length / 20 - (told a w.sent).length / 20 := by
  have hsent : t.sent = w.sent ++ (w.input.handle pageHeight true e.event).2 := by
    rw [← Dashboard.step_eq hstep]
    unfold Dashboard.step
    simp only [htakes.1, htakes.2.1, Bool.and_self, if_true]
  have hinput : t.input = (w.input.handle pageHeight true e.event).1 := by
    rw [← Dashboard.step_eq hstep]
    exact Dashboard.input_step htakes.1
  have hturns : Turns a pageHeight w.input e.event _ := turns_handle hkeeps
  have hle := hturns.abs_le
  unfold Dashboard.saidOf
  rw [hsent, hinput, told_append, List.sum_append, List.length_append]
  push_cast
  refine le_of_eq_of_le (congrArg abs ?_) (hle.trans_eq ?_)
  · ring
  · ring

/-- So does a run. -/
theorem wheel_run (hok : (displayMachine π pageHeight).RunOk
      (fun w e => w.Takes e ∧ e.event ≠ .releaseAll) w es)
    (hrun : (displayMachine π pageHeight).run w es = some t) (a : Axis) :
    |t.saidOf a - (w.saidOf a + (es.map fun e => e.event.turn a pageHeight).sum)| ≤
      (told a t.sent).length / 20 - (told a w.sent).length / 20 := by
  induction es generalizing w with
  | nil =>
    cases hrun
    simp
  | cons e es ih =>
    obtain ⟨r, hr, hrest⟩ := Option.bind_eq_some_iff.mp hrun
    have hstep := wheel_step hok.1.1 hok.1.2 hr a
    have hrun := ih (hok.2 r hr) hrest
    rw [List.map_cons, List.sum_cons]
    have htriangle := abs_add_le (r.saidOf a - (w.saidOf a + e.event.turn a pageHeight))
      (t.saidOf a - (r.saidOf a + (es.map fun e => e.event.turn a pageHeight).sum))
    refine le_of_eq_of_le (congrArg abs ?_) (htriangle.trans ?_)
    · ring
    · linarith

/-- **What the messages say of the wheel is what it was turned**, with what waits, up to a twentieth
of a pixel for each message. -/
theorem wheel_turned (hok : (displayMachine π pageHeight).RunOk
      (fun w e => w.Takes e ∧ e.event ≠ .releaseAll) ⟨.fresh, []⟩ es)
    (hrun : (displayMachine π pageHeight).run ⟨.fresh, []⟩ es = some t) (a : Axis) :
    |(told a t.sent).sum + t.input.pending a -
      (es.map fun e => e.event.turn a pageHeight).sum| ≤ (told a t.sent).length / 20 := by
  simpa [Dashboard.saidOf, DisplayInput.pending, DisplayInput.fresh] using wheel_run hok hrun a

/-! ### Two fingers and a wheel -/

/-- An event while Android takes input. -/
def live (event : DisplayEvent Nat) : Happens Nat := ⟨event, true, true⟩

/-- An event of a finger. -/
def finger (pointerId : Nat) (x y : ℚ) : PointerEvent Nat :=
  ⟨pointerId, false, x, y, true, 1 / 2, 1⟩

/-- Two fingers of which the first one moves, and the wheel. -/
def pinched : List (Happens Nat) :=
  [live (.down (finger 7 10 20)), live (.move (finger 7 11 22)), live (.move (finger 7 12 24)),
    live (.wheel ⟨false, 5, 5, 0, 3, 1⟩), live (.down (finger 8 90 80)),
    live (.up (finger 7 12 24) false)]

/-- The same with two frames. -/
def pinchedSlowly : List (Happens Nat) :=
  [live (.down (finger 7 10 20)), live (.move (finger 7 11 22)), live .frame,
    live (.move (finger 7 12 24)), live (.wheel ⟨false, 5, 5, 0, 3, 1⟩), live .frame,
    live (.down (finger 8 90 80)), live (.up (finger 7 12 24) false)]

theorem pinched_ok : (displayMachine Nat 600).RunOk
    (fun w e => w.Takes e ∧ e.event ≠ .releaseAll) ⟨.fresh, []⟩ pinched := by
  decide +kernel

theorem display_followed_pinched : ∃ w : Dashboard Nat,
    w.sent.length = 5 ∧ w.heard.fingers 2 = some (90, 80) ∧ w.Followed := by
  obtain ⟨w, hrun, hsent, hplace⟩ : ∃ w, (displayMachine Nat 600).run ⟨.fresh, []⟩ pinched =
      some w ∧ w.sent.length = 5 ∧ w.heard.fingers 2 = some (90, 80) :=
    ⟨_, rfl, by decide +kernel, by decide +kernel⟩
  have hok := (Machine.RunOk.and.mp pinched_ok).1
  exact ⟨w, hsent, hplace, display_followed (.of_run (.init rfl) hok hrun)⟩

theorem frames_do_not_matter_pinched : ∃ w w' : Dashboard Nat,
    w.sent.length = 5 ∧ w'.sent.length = 6 ∧ w.SameHands w' := by
  obtain ⟨w, hrun, hsent⟩ : ∃ w, (displayMachine Nat 600).run ⟨.fresh, []⟩ pinched = some w ∧
      w.sent.length = 5 := ⟨_, rfl, by decide +kernel⟩
  obtain ⟨w', hrun', hsent'⟩ : ∃ w, (displayMachine Nat 600).run ⟨.fresh, []⟩ pinchedSlowly =
      some w ∧ w.sent.length = 6 := ⟨_, rfl, by decide +kernel⟩
  have hok := (Machine.RunOk.and.mp pinched_ok).1
  exact ⟨w, w', hsent, hsent',
    frames_do_not_matter (by decide +kernel) hok (by decide +kernel) hrun hrun'⟩

theorem wheel_turned_pinched : ∃ w : Dashboard Nat, told .y w.sent = [120] ∧
    |(told .y w.sent).sum + w.input.pending .y -
      (pinched.map fun e => e.event.turn .y 600).sum| ≤ (told .y w.sent).length / 20 := by
  obtain ⟨w, hrun, htold⟩ : ∃ w, (displayMachine Nat 600).run ⟨.fresh, []⟩ pinched = some w ∧
      told .y w.sent = [120] := ⟨_, rfl, by decide +kernel⟩
  exact ⟨w, htold, wheel_turned pinched_ok hrun .y⟩

end Gesture

end AndroidAppliance
