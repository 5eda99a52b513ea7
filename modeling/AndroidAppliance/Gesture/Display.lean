import AndroidAppliance.Gesture.Table
import AndroidAppliance.Transition.Machine

/-!
# The display of the dashboard

The pointers and the wheel of `DisplayInput` in `web/js/input.js`. What goes down or up is told
at once; a move and a turn of the wheel wait for the next animation frame, which tells the last
of them. The browser chooses when its frames are.

`Heard` is what a daemon knows from the messages, and `SameDown` that two of them know the same
of what is down.
-/

namespace AndroidAppliance

namespace Gesture

/-! ### `web/js/input.js` -/

/-- `LINE_PX`. -/
def linePx : ℚ := 40

/-- `touchPressure` of `web/js/touches.js`. -/
def touchPressure (pressure : ℚ) : ℚ := if 0 < pressure then min 1 pressure else 1

/-- `Math.round`. -/
def mathRound (q : ℚ) : ℤ := ⌊q + 1 / 2⌋

/-- `round1`. -/
def round1 (value : ℚ) : ℚ := mathRound (value * 10) / 10

/-- `wheelPixels`. -/
def wheelPixels (deltaMode : Nat) (pageHeight : ℚ) : ℚ :=
  if deltaMode = 1 then linePx else if deltaMode = 2 then pageHeight else 1

/-- A message of the display; `touches`, `mouse` or `wheel`. -/
inductive Message
  | touch (touches : Touches)
  | mouse (x y : ℚ) (buttons : ℤ)
  | wheel (x y dx dy : ℚ)
  deriving DecidableEq, Repr

/-- `#mouse`: the mouse, while one of its buttons is down. -/
structure Mouse (π : Type) where
  pointerId : π
  x : ℚ
  y : ℚ
  buttons : ℤ
  dirty : Bool
  deriving DecidableEq, Repr

/-- `#wheel`: how far the wheel was turned since the last message about it. -/
structure Wheel where
  x : ℚ
  y : ℚ
  dx : ℚ
  dy : ℚ
  deriving DecidableEq, Repr

/-- `DisplayInput`, without its keyboard. -/
structure DisplayInput (π : Type) where
  touches : TouchTable π
  mouse : Option (Mouse π)
  wheel : Option Wheel
  touchesMoved : Bool
  /-- An animation frame is requested. -/
  frame : Bool
  deriving DecidableEq, Repr

/-- A `PointerEvent`, with the place that `#map` gives it. -/
structure PointerEvent (π : Type) where
  pointerId : π
  /-- `pointerType` is `mouse`. -/
  isMouse : Bool
  x : ℚ
  y : ℚ
  inside : Bool
  pressure : ℚ
  buttons : ℤ
  deriving DecidableEq, Repr

/-- A `WheelEvent`, with the place that `#map` gives it. -/
structure WheelEvent where
  ctrlKey : Bool
  x : ℚ
  y : ℚ
  deltaX : ℚ
  deltaY : ℚ
  deltaMode : Nat
  deriving DecidableEq, Repr

/-- The events of the display. -/
inductive DisplayEvent (π : Type)
  | down (e : PointerEvent π)
  | move (e : PointerEvent π)
  | up (e : PointerEvent π) (cancelled : Bool)
  | wheel (e : WheelEvent)
  /-- The animation frame that was requested. -/
  | frame
  | releaseAll
  deriving DecidableEq, Repr

/-- The message about the mouse. -/
def Mouse.message {π : Type} (m : Mouse π) : Message := .mouse m.x m.y m.buttons

/-- The message of a wheel. -/
def Wheel.message (w : Wheel) : Message := .wheel w.x w.y (round1 w.dx) (round1 w.dy)

namespace DisplayInput

variable {π : Type} [DecidableEq π]

/-- The constructor. -/
def fresh : DisplayInput π :=
  { touches := ⟨.empty⟩, mouse := none, wheel := none, touchesMoved := false, frame := false }

/-- `#schedule`. -/
def schedule (d : DisplayInput π) : DisplayInput π := { d with frame := true }

/-- The state after `#flush`. -/
def flushed (d : DisplayInput π) : DisplayInput π where
  touches := d.touches
  mouse := d.mouse.map fun m => { m with dirty := false }
  wheel := none
  touchesMoved := false
  frame := false

/-- The messages of `#flush`. -/
def unsent (d : DisplayInput π) : List Message :=
  (if d.touchesMoved then (d.touches.snapshot.map Message.touch).toList else []) ++
    ((d.mouse.filter Mouse.dirty).map Mouse.message).toList ++
      (d.wheel.map Wheel.message).toList

/-- `#down`. -/
def down (d : DisplayInput π) (enabled : Bool) (e : PointerEvent π) :
    DisplayInput π × List Message :=
  if !enabled || !e.inside then (d, [])
  else if e.isMouse then
    match d.mouse with
    | some _ => (d, [])
    | none =>
      let m : Mouse π := ⟨e.pointerId, e.x, e.y, e.buttons, false⟩
      ({ d with mouse := some m }, [m.message])
  else
    let r := d.touches.down e.pointerId e.x e.y (touchPressure e.pressure)
    ({ d.flushed with touches := r.1 }, d.unsent ++ (r.2.map Message.touch).toList)

/-- `#move` of the mouse. -/
def moveMouse (d : DisplayInput π) (m : Mouse π) (e : PointerEvent π) :
    DisplayInput π × List Message :=
  let moved : Mouse π := { m with x := e.x, y := e.y }
  if e.buttons ≠ m.buttons then
    -- another button went down or up during the drag
    let d' : DisplayInput π := { d with mouse := some moved }
    let pressed : Mouse π := { moved with buttons := e.buttons, dirty := false }
    ({ d'.flushed with mouse := if e.buttons = 0 then none else some pressed },
      d'.unsent ++ [pressed.message])
  else (schedule { d with mouse := some { moved with dirty := true } }, [])

/-- `#move` of a finger. -/
def moveTouch (d : DisplayInput π) (e : PointerEvent π) : DisplayInput π :=
  let r := d.touches.move e.pointerId e.x e.y (touchPressure e.pressure)
  if r.2 then schedule { d with touches := r.1, touchesMoved := true }
  else { d with touches := r.1 }

/-- `#move`. -/
def move (d : DisplayInput π) (e : PointerEvent π) : DisplayInput π × List Message :=
  match d.mouse.filter fun m => m.pointerId = e.pointerId with
  | some m => d.moveMouse m e
  | none => if d.touches.contacts.has e.pointerId then (d.moveTouch e, []) else (d, [])

/-- `#up`. -/
def up (d : DisplayInput π) (e : PointerEvent π) (cancelled : Bool) :
    DisplayInput π × List Message :=
  match d.mouse.filter fun m => m.pointerId = e.pointerId with
  | some m =>
    let at_ : ℚ × ℚ := if cancelled then (m.x, m.y) else (e.x, e.y)
    let buttons : ℤ := if cancelled then 0 else e.buttons
    let lifted : Mouse π := { m with x := at_.1, y := at_.2, buttons := buttons, dirty := false }
    ({ d.flushed with mouse := if buttons = 0 then none else some lifted },
      d.unsent ++ [lifted.message])
  | none =>
    if d.touches.contacts.has e.pointerId then
      let at_ : Option (ℚ × ℚ) := if cancelled then none else some (e.x, e.y)
      let r := d.touches.up e.pointerId (at_.map Prod.fst) (at_.map Prod.snd)
      ({ d.flushed with touches := r.1 }, d.unsent ++ (r.2.map Message.touch).toList)
    else (d, [])

/-- `#onWheel`. -/
def onWheel (d : DisplayInput π) (pageHeight : ℚ) (enabled : Bool) (e : WheelEvent) :
    DisplayInput π :=
  if e.ctrlKey || !enabled then d
  else
    let pixels := wheelPixels e.deltaMode pageHeight
    let w := d.wheel.getD ⟨e.x, e.y, 0, 0⟩
    schedule { d with
      wheel := some ⟨e.x, e.y, w.dx + e.deltaX * pixels, w.dy + e.deltaY * pixels⟩ }

/-- `releaseAll`. -/
def releaseAll (d : DisplayInput π) : DisplayInput π × List Message :=
  let r := d.touches.releaseAll
  ({ touches := r.1, mouse := none, wheel := none, touchesMoved := false, frame := false },
    (r.2.map Message.touch).toList ++
      (d.mouse.map fun m => Message.mouse m.x m.y 0).toList)

/-- The state after an event, and the messages for `#send`. -/
def handle (d : DisplayInput π) (pageHeight : ℚ) (enabled : Bool) :
    DisplayEvent π → DisplayInput π × List Message
  | .down e => d.down enabled e
  | .move e => d.move e
  | .up e cancelled => d.up e cancelled
  | .wheel e => (d.onWheel pageHeight enabled e, [])
  | .frame => (d.flushed, d.unsent)
  | .releaseAll => d.releaseAll

end DisplayInput

/-- The display, and the messages that went out. -/
structure Dashboard (π : Type) where
  input : DisplayInput π
  sent : List Message
  deriving DecidableEq, Repr

/-- An event, and whether Android can take input and a message can be sent at that time. -/
structure Happens (π : Type) where
  event : DisplayEvent π
  enabled : Bool
  open_ : Bool
  deriving DecidableEq, Repr

/-- The event is not a frame. -/
def Happens.isInput {π : Type} (e : Happens π) : Bool :=
  match e.event with
  | .frame => false
  | _ => true

section

variable {π : Type} [DecidableEq π]

/-- One event: what it sends goes out while the session is open. -/
def Dashboard.step (w : Dashboard π) (pageHeight : ℚ) (e : Happens π) : Dashboard π :=
  let r := w.input.handle pageHeight e.enabled e.event
  { input := r.1, sent := w.sent ++ if e.enabled && e.open_ then r.2 else [] }

/-- The display with an element of a height. -/
def displayMachine (π : Type) [DecidableEq π] (pageHeight : ℚ) :
    Machine (Dashboard π) (Happens π) where
  Init w := w = ⟨.fresh, []⟩
  step w e :=
    -- a frame comes only when one is requested
    if e.event = .frame ∧ w.input.frame = false then none else some (w.step pageHeight e)

end

/-! ### What the messages say -/

/-- What a daemon knows from the messages it got. -/
structure Heard where
  /-- Where the finger with the id is. -/
  fingers : Nat → Option (ℚ × ℚ)
  /-- The place of the mouse and its buttons, while one is down. -/
  mouse : Option (ℚ × ℚ × ℤ)
  /-- The messages that put a finger or a button down or lifted one. -/
  strokes : List Message

/-- A finger goes down or up. -/
def changesFingers (v : Nat → Option (ℚ × ℚ)) (m : Touches) : Bool :=
  m.any fun t => (v t.key).isSome != (TouchTable.delivered v m t.key).isSome

/-- The buttons that are down. -/
def buttonsOf (mouse : Option (ℚ × ℚ × ℤ)) : ℤ := mouse.elim 0 fun m => m.2.2

namespace Heard

/-- Nothing was heard. -/
def nothing : Heard := ⟨fun _ => none, none, []⟩

/-- One message. -/
def hear (h : Heard) : Message → Heard
  | .touch m =>
    { h with
      fingers := TouchTable.delivered h.fingers m
      strokes := h.strokes ++ if changesFingers h.fingers m then [.touch m] else [] }
  | .mouse x y buttons =>
    { h with
      mouse := if buttons = 0 then none else some (x, y, buttons)
      strokes := h.strokes ++ if buttonsOf h.mouse ≠ buttons then [.mouse x y buttons] else [] }
  | .wheel _ _ _ _ => h

/-- All messages, in order. -/
def hearAll (h : Heard) (log : List Message) : Heard := log.foldl hear h

variable {h h' : Heard} {m : Message} {log log' : List Message}

@[simp]
theorem hearAll_nil : h.hearAll [] = h := rfl

@[simp]
theorem hearAll_cons : h.hearAll (m :: log) = (h.hear m).hearAll log := rfl

@[simp]
theorem hearAll_append : h.hearAll (log ++ log') = (h.hearAll log).hearAll log' :=
  List.foldl_append

/-! #### What is down -/

/-- The same fingers and buttons are down, perhaps at other places. -/
structure SameDown (h h' : Heard) : Prop where
  fingers : ∀ n, (h.fingers n).isSome = (h'.fingers n).isSome
  buttons : buttonsOf h.mouse = buttonsOf h'.mouse

/-- What was heard agrees with itself. -/
theorem SameDown.refl (h : Heard) : h.SameDown h := ⟨fun _ => rfl, rfl⟩

/-- Both may change places. -/
theorem SameDown.symm (hsame : h.SameDown h') : h'.SameDown h :=
  ⟨fun n => (hsame.fingers n).symm, hsame.buttons.symm⟩

/-- Three that agree. -/
theorem SameDown.trans {h'' : Heard} (hsame : h.SameDown h') (hsame' : h'.SameDown h'') :
    h.SameDown h'' :=
  ⟨fun n => (hsame.fingers n).trans (hsame'.fingers n), hsame.buttons.trans hsame'.buttons⟩

/-- Which fingers are down behind a message. -/
theorem isSome_delivered {v v' : Nat → Option (ℚ × ℚ)}
    (hsame : ∀ n, (v n).isSome = (v' n).isSome) (m : Touches) (n : Nat) :
    (TouchTable.delivered v m n).isSome = (TouchTable.delivered v' m n).isSome := by
  induction m generalizing v v' with
  | nil => exact hsame n
  | cons t m ih =>
    have hone : ∀ i, (Function.update v t.key t.placed i).isSome =
        (Function.update v' t.key t.placed i).isSome := by
      intro i
      by_cases hi : i = t.key
      · subst hi
        rw [Function.update_self, Function.update_self]
      · rw [Function.update_of_ne hi, Function.update_of_ne hi]
        exact hsame i
    exact ih hone

/-- Whether a message changes a finger depends on those that are down. -/
theorem changesFingers_congr {v v' : Nat → Option (ℚ × ℚ)}
    (hsame : ∀ n, (v n).isSome = (v' n).isSome) (m : Touches) :
    changesFingers v m = changesFingers v' m := by
  unfold changesFingers
  refine congrArg m.any (funext fun t => ?_)
  rw [hsame t.key, isSome_delivered hsame m t.key]

/-- Both hear one message more. -/
theorem SameDown.hear (hsame : h.SameDown h') (m : Message) :
    (h.hear m).SameDown (h'.hear m) := by
  cases m with
  | touch m => exact ⟨isSome_delivered hsame.fingers m, hsame.buttons⟩
  | mouse x y buttons => exact ⟨hsame.fingers, rfl⟩
  | wheel x y dx dy => exact hsame

/-- **The strokes of a message** depend only on what is down before it. -/
theorem SameDown.strokes_hear (hsame : h.SameDown h') (hstrokes : h.strokes = h'.strokes)
    (m : Message) : (h.hear m).strokes = (h'.hear m).strokes := by
  cases m with
  | touch m => simp only [Heard.hear, changesFingers_congr hsame.fingers m, hstrokes]
  | mouse x y buttons => simp only [Heard.hear, hsame.buttons, hstrokes]
  | wheel x y dx dy => exact hstrokes

/-- Both hear the same messages. -/
theorem SameDown.hearAll (hsame : h.SameDown h') (hstrokes : h.strokes = h'.strokes)
    (log : List Message) : (h.hearAll log).SameDown (h'.hearAll log) ∧
      (h.hearAll log).strokes = (h'.hearAll log).strokes := by
  induction log generalizing h h' with
  | nil => exact ⟨hsame, hstrokes⟩
  | cons m log ih => exact ih (hsame.hear m) (hsame.strokes_hear hstrokes m)

/-- Messages that put nothing down and lift nothing. -/
structure Quiet (h : Heard) (log : List Message) : Prop where
  same : (h.hearAll log).SameDown h
  strokes : (h.hearAll log).strokes = h.strokes

/-- Nothing was said. -/
theorem Quiet.nil (h : Heard) : h.Quiet [] := ⟨.refl h, rfl⟩

/-- Nothing was said twice. -/
theorem Quiet.append (hlog : h.Quiet log) (hlog' : (h.hearAll log).Quiet log') :
    h.Quiet (log ++ log') := by
  refine ⟨?_, ?_⟩
  · rw [hearAll_append]
    exact hlog'.same.trans hlog.same
  · rw [hearAll_append]
    exact hlog'.strokes.trans hlog.strokes

/-- A message about the wheel is not about fingers or buttons. -/
theorem hearAll_wheel (h : Heard) (w : Option Wheel) :
    h.hearAll (w.map Wheel.message).toList = h := by
  cases w <;> rfl

/-- A wheel changes nothing that is down. -/
theorem quiet_wheel (h : Heard) (w : Option Wheel) : h.Quiet (w.map Wheel.message).toList := by
  refine ⟨?_, ?_⟩
  · rw [hearAll_wheel]
    exact .refl h
  · rw [hearAll_wheel]

end Heard

end Gesture

end AndroidAppliance
