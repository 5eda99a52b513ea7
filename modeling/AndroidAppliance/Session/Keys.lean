import Mathlib.Data.List.Basic

/-!
# Keys of a session

How a key or a button of the dashboard becomes a key event of the emulator, a text to paste
or nothing: `browser_key` and `button_key` of `appliance/input.py`, and the table of held
keys of a `Session`.
-/

namespace AndroidAppliance

namespace Session

/-! ### `appliance/input.py` -/

/-- `KEY_ACTIONS`. -/
inductive KeyAction
  | down
  | up
  | press
  deriving DecidableEq, Repr

/-- What a key event names: a W3C key, or an evdev code. -/
inductive KeyCode
  | key (name : String)
  | evdev (code : Nat)
  deriving DecidableEq, Repr

/-- `KeyboardEvent`. -/
structure KeyEvent where
  eventType : KeyAction
  code : KeyCode
  deriving DecidableEq, Repr

/-- `BUTTONS`. -/
inductive Button
  | home
  | back
  | appSwitch
  | power
  | volumeUp
  | volumeDown
  | menu
  deriving DecidableEq, Repr

/-- The entries of `KEYS` for the buttons. -/
def Button.code : Button → KeyCode
  | home => .key "GoHome"
  | back => .key "GoBack"
  | appSwitch => .key "AppSwitch"
  | power => .key "Power"
  | volumeUp => .key "AudioVolumeUp"
  | volumeDown => .key "AudioVolumeDown"
  | menu => .evdev 139

/-- The name of a button in a message. -/
def Button.name : Button → String
  | home => "HOME"
  | back => "BACK"
  | appSwitch => "APP_SWITCH"
  | power => "POWER"
  | volumeUp => "VOLUME_UP"
  | volumeDown => "VOLUME_DOWN"
  | menu => "MENU"

/-- What a key becomes. -/
inductive Plan
  | event (e : KeyEvent)
  /-- Text to paste. -/
  | text (text : String)
  /-- Nothing. -/
  | drop
  deriving DecidableEq, Repr

/-- `DROPPED_KEYS`. -/
def droppedKeys : List String := ["CapsLock", "Dead", "Process", "Unidentified"]

/-- `KEY_ALIASES`, with the fields of the key that they stand for. -/
def keyAlias (key : String) : Option KeyCode :=
  if key = "ContextMenu" ∨ key = "Menu" then some Button.menu.code
  else if key = "BrowserHome" then some Button.home.code
  else none

/-- `browser_key`; `printable` is `str.isprintable` of a character. -/
def browserKey (printable : Char → Bool) (key : String) (action : KeyAction) (held : Bool) :
    Plan :=
  if key ∈ droppedKeys then .drop
  else match key.toList with
    | [c] =>
      if action = .up then .drop
      else if ' ' ≤ c ∧ c ≤ '~' then .event { eventType := .press, code := .key key }
      else if printable c then .text key
      else .drop
    | _ =>
      if action = .down ∧ held then .drop
      else .event { eventType := action, code := (keyAlias key).getD (.key key) }

/-- `button_key`. -/
def buttonKey (b : Button) (action : KeyAction) (held : Bool) : Plan :=
  if action = .down ∧ held then .drop else .event { eventType := action, code := b.code }

/-! ### The keys that are down -/

/-- What a `_press` is about. -/
inductive Pressed
  | key (key : String)
  | button (b : Button)
  deriving DecidableEq, Repr

/-- The mapping that a `_press` applies. -/
def Pressed.plan (printable : Char → Bool) (action : KeyAction) (held : Bool) : Pressed → Plan
  | key k => browserKey printable k action held
  | button b => buttonKey b action held

/-- `MODIFIERS`. -/
def modifiers : List String := ["Control", "Shift", "Alt", "AltGraph", "Meta"]

/-- `up.key in MODIFIERS`; an evdev event has no key. -/
def KeyEvent.isModifier (e : KeyEvent) : Bool :=
  match e.code with
  | .key k => k ∈ modifiers
  | .evdev _ => false

/-- The event with another type. -/
def KeyEvent.withType (e : KeyEvent) (t : KeyAction) : KeyEvent := { e with eventType := t }

/-- `Session._held`: the keys that are down, with the event that lets each go, in the order
of a dict. -/
abbrev Held := List (Pressed × KeyEvent)

namespace Held

/-- `held in self._held`. -/
def has (h : Held) (p : Pressed) : Bool := h.any (·.1 = p)

/-- `self._held.pop(held, None)`. -/
def pop (h : Held) (p : Pressed) : Held := h.filter (·.1 ≠ p)

/-- `self._held[held] = up`: a key that is there keeps its place. -/
def put (h : Held) (p : Pressed) (up : KeyEvent) : Held :=
  if h.has p then h.map fun q => if q.1 = p then (p, up) else q else h ++ [(p, up)]

/-- The modifiers that are down. -/
def modifiers (h : Held) : List KeyEvent := (h.map (·.2)).filter KeyEvent.isModifier

end Held

/-- `MAX_HELD`. -/
def maxHeld : Nat := 32

end Session

end AndroidAppliance
