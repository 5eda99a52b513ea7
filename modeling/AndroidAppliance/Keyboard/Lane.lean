import AndroidAppliance.Keyboard.Keys
import AndroidAppliance.Session.Desk
import AndroidAppliance.Transition.Machine
import AndroidAppliance.Transition.Registers
import AndroidAppliance.Transition.Strokes

/-!
# The keys lane, one job after another

The key, button and text messages of a `Session` of `appliance/session.py`, from the checks of
their handlers to the key events that the guest gets. Android runs, every send succeeds, and a
job runs to its end before the next one; a paste may fail before or after its key.

A paste lets the modifiers go behind the back of the table of held keys. What is down in the
guest stays among what the table can let go (`Lane.Kept`), so the modifiers of the table are all
that are down: no paste key goes out under a modifier, and they are down again behind it
(`held_kept`).
-/

namespace AndroidAppliance

namespace Keyboard

open Session (KeyAction KeyCode KeyEvent Button Plan Pressed Held Job browserKey maxHeld)
open Strokes
open Text (Codes)

/-! ### The checks of the messages -/

/-- `MAX_TEXT` of `appliance/session.py`. -/
def maxText : Nat := 64 * 1024

/-- `string`, for the field `key`. -/
def string (key : String) (value : Codes) (limit : Nat) : Except String (List Char) :=
  if limit < value.length then
    .error s!"'{key}' must be text of at most {limit} characters"
  else match value.text? with
    | none => .error s!"'{key}' is not valid Unicode text"
    | some text =>
      if '\x00' ∈ text then .error s!"'{key}' must not contain a NUL character" else .ok text

/-- `choice`, for the field `key`. -/
def choice {α : Type} (key : String) (value : Codes) (options : List (String × α)) :
    Except String α :=
  match options.find? fun o => lit o.1 = value with
  | some o => .ok o.2
  | none =>
    let names := String.intercalate ", " (options.map (·.1))
    .error s!"'{key}' must be one of: {names}"

/-- `KEY_ACTIONS`. -/
def keyActions : List (String × KeyAction) := [("down", .down), ("up", .up), ("press", .press)]

/-- `BUTTONS`. -/
def buttons : List (String × Button) :=
  [Button.home, .back, .appSwitch, .power, .volumeUp, .volumeDown, .menu].map fun b => (b.name, b)

/-- `KEY_NAME`. -/
def keyName (key : List Char) : Bool :=
  1 ≤ key.length && key.length ≤ 32 && key.all fun c =>
    ('A' ≤ c && c ≤ 'Z') || ('a' ≤ c && c ≤ 'z') || ('0' ≤ c && c ≤ '9')

/-- `valid_key`. -/
def validKey (key : List Char) : Bool := key.length = 1 || keyName key

/-- A message for the keys lane. -/
inductive Request
  | key (key action : Codes)
  | button (name action : Codes)
  | text (text : Codes)
  deriving DecidableEq, Repr

/-- The job of a message: `_key`, `_button` and `_text`, while Android runs. -/
def Request.job : Request → Except String Job
  | .key k action => do
    let text ← string "key" k 32
    let action ← choice "action" action keyActions
    if validKey text then .ok (.press (.key (.ofList text)) action)
    else .error s!"invalid key '{String.ofList text}'"
  | .button name action => do
    let b ← choice "name" name buttons
    let action ← choice "action" action keyActions
    .ok (.press (.button b) action)
  | .text t => do
    let text ← string "text" t maxText
    if text = [] then .error "'text' is empty" else .ok (.paste (.ofList text))

/-! ### The jobs -/

/-- The paste key of `input.paste`, `KEY_PASTE`. -/
def pasteKey : KeyEvent := { eventType := .press, code := .evdev 135 }

/-- What a key event does in the guest. -/
def strokes (e : KeyEvent) : List (Stroke KeyCode) :=
  match e.eventType with
  | .down => [{ thing := e.code, down := true }]
  | .up => [{ thing := e.code, down := false }]
  | .press => [{ thing := e.code, down := true }, { thing := e.code, down := false }]

/-- Whether the key is down in the guest after the events. -/
def keyDown (log : List KeyEvent) (code : KeyCode) : Bool := isDown (log.flatMap strokes) code

/-- The keys lane of a session. -/
structure Lane where
  held : Held
  /-- The key events that the guest got. -/
  log : List KeyEvent
  deriving DecidableEq, Repr

namespace Lane

/-- The events reach the emulator. -/
def send (w : Lane) (events : List KeyEvent) : Lane := { w with log := w.log ++ events }

/-- `_paste`; `keyed` says that `backend.text` sent the paste key before it ended. -/
def paste (w : Lane) (keyed : Bool) : Lane :=
  let ups := w.held.modifiers
  ((w.send ups).send (if keyed then [pasteKey] else [])).send (ups.map (·.withType .down))

/-- `_press`. -/
def press (printable : Char → Bool) (w : Lane) (p : Pressed) (action : KeyAction) (keyed : Bool) :
    Lane :=
  let plan := p.plan printable action (w.held.has p)
  let w := if action = .up then { w with held := w.held.pop p } else w
  match plan with
  | .text _ => w.paste keyed
  | .drop => w
  | .event e =>
    if e.eventType = .down then
      if maxHeld ≤ w.held.length ∧ w.held.has p = false then w
      else { w with held := w.held.put p (e.withType .up) }.send [e]
    else w.send [e]

/-- One job of the lane. -/
def runJob (printable : Char → Bool) (w : Lane) (keyed : Bool) : Job → Lane
  | .press p action => w.press printable p action keyed
  | .paste _ => w.paste keyed
  | .send e => w.send [e]

/-- A message; one that is refused has no job. -/
def receive (printable : Char → Bool) (w : Lane) (keyed : Bool) (m : Request) : Lane :=
  match m.job with
  | .ok j => w.runJob printable keyed j
  | .error _ => w

/-- Whether the job is a paste. -/
def pastes (printable : Char → Bool) (w : Lane) : Job → Bool
  | .press p action =>
    match p.plan printable action (w.held.has p) with
    | .text _ => true
    | .event _ | .drop => false
  | .paste _ => true
  | .send _ => false

end Lane

/-- The messages of a session, each with whether its paste, if it is one, sends the key. -/
def laneMachine (printable : Char → Bool) : Machine Lane (Request × Bool) where
  Init w := w = { held := [], log := [] }
  step w e := some (w.receive printable e.2 e.1)

/-! ### What is down -/

variable {log : List KeyEvent} {code : KeyCode} {e : KeyEvent} {events : List KeyEvent}

theorem keyDown_append : keyDown (log ++ events) code =
    isDown (log.flatMap strokes ++ events.flatMap strokes) code := by
  rw [keyDown, List.flatMap_append]

theorem keyDown_concat : keyDown (log ++ [e]) code =
    if e.code = code then decide (e.eventType = .down) else keyDown log code := by
  rw [keyDown_append, List.flatMap_singleton, strokes]
  cases e.eventType with
  | down => exact isDown_concat _
  | up => exact isDown_concat _
  | press =>
    have htwo : ∀ l : List (Stroke KeyCode), l ++ [⟨e.code, true⟩, ⟨e.code, false⟩] =
        (l ++ [⟨e.code, true⟩]) ++ [⟨e.code, false⟩] := fun l => by simp
    rw [htwo, isDown_concat, isDown_concat, keyDown]
    split <;> rfl

/-- Behind events that let keys go, only what they do not name is down. -/
theorem keyDown_ups (h : ∀ e ∈ events, e.eventType = .up) : keyDown (log ++ events) code = true ↔
    keyDown log code = true ∧ ∀ e ∈ events, e.code ≠ code := by
  have hups : ∀ s ∈ events.flatMap strokes, s.down = false := by
    intro s hs
    obtain ⟨e, he, hse⟩ := List.mem_flatMap.mp hs
    rw [strokes, h e he] at hse
    rw [List.mem_singleton.mp hse]
  rw [keyDown_append]
  constructor
  · intro hdown
    obtain ⟨hlog, hne⟩ := isDown_append_ups hups hdown
    refine ⟨hlog, fun e he => ?_⟩
    refine hne ⟨e.code, false⟩ (List.mem_flatMap.mpr ⟨e, he, ?_⟩)
    rw [strokes, h e he]
    exact List.mem_singleton_self _
  · rintro ⟨hlog, hne⟩
    rw [isDown_append_other]
    · exact hlog
    · intro s hs
      obtain ⟨e, he, hse⟩ := List.mem_flatMap.mp hs
      rw [strokes, h e he] at hse
      rw [List.mem_singleton.mp hse]
      exact hne e he

/-- Behind events that press keys down, what they name is down too. -/
theorem keyDown_downs (h : ∀ e ∈ events, e.eventType = .down) :
    keyDown (log ++ events) code = true ↔
      keyDown log code = true ∨ ∃ e ∈ events, e.code = code := by
  have hdowns : ∀ s ∈ events.flatMap strokes, s.down = true := by
    intro s hs
    obtain ⟨e, he, hse⟩ := List.mem_flatMap.mp hs
    rw [strokes, h e he] at hse
    rw [List.mem_singleton.mp hse]
  rw [keyDown_append, isDown_append_downs hdowns, keyDown]
  refine or_congr_right ⟨?_, ?_⟩
  · rintro ⟨s, hs, rfl⟩
    obtain ⟨e, he, hse⟩ := List.mem_flatMap.mp hs
    rw [strokes, h e he] at hse
    exact ⟨e, he, by rw [List.mem_singleton.mp hse]⟩
  · rintro ⟨e, he, rfl⟩
    refine ⟨⟨e.code, true⟩, List.mem_flatMap.mpr ⟨e, he, ?_⟩, rfl⟩
    rw [strokes, h e he]
    exact List.mem_singleton_self _

/-! ### What a key becomes -/

variable {printable : Char → Bool} {p : Pressed} {action : KeyAction} {b : Bool}

/-- A key event is a press of a character, or does what the message says; then the message that
lets go has the event that lets go. It is never the paste key. -/
theorem plan_event (h : p.plan printable action b = .event e) : e.code ≠ pasteKey.code ∧
    (e.eventType = .press ∧ action ≠ .up ∨
      e.eventType = action ∧ ∀ b', p.plan printable .up b' = .event (e.withType .up)) := by
  cases p with
  | button name =>
    simp only [Pressed.plan, Session.buttonKey] at h ⊢
    split at h
    · cases h
    · cases h
      refine ⟨?_, .inr ⟨rfl, fun b' => ?_⟩⟩
      · cases name <;> simp [Button.code, pasteKey]
      · rw [if_neg (by simp)]
        rfl
  | key k =>
    simp only [Pressed.plan, browserKey] at h ⊢
    split at h
    · cases h
    · rename_i hdropped
      simp only [if_neg hdropped]
      split at h
      · -- a single character
        split at h
        · cases h
        · rename_i hup
          split at h
          · cases h
            exact ⟨by simp [pasteKey], .inl ⟨rfl, hup⟩⟩
          · split at h <;> cases h
      · -- a name
        rename_i hchar
        split at h
        · cases h
        · cases h
          refine ⟨?_, .inr ⟨rfl, fun b' => ?_⟩⟩
          · unfold Session.keyAlias
            split
            · simp [Button.code, pasteKey]
            · split <;> simp [Button.code, pasteKey]
          · simp [KeyEvent.withType]

/-- A key that lets go is not pasted. -/
theorem plan_text {text : String} (h : p.plan printable action b = .text text) : action ≠ .up := by
  cases p with
  | button name =>
    simp only [Pressed.plan, Session.buttonKey] at h
    split at h <;> cases h
  | key k =>
    simp only [Pressed.plan, browserKey] at h
    split at h
    · cases h
    · split at h
      · split at h
        · cases h
        · assumption
      · split at h <;> cases h

theorem plan_up_type {up : KeyEvent} (h : p.plan printable .up b = .event up) :
    up.eventType = .up := by
  obtain ⟨-, ⟨-, hup⟩ | ⟨htype, -⟩⟩ := plan_event h
  · exact absurd rfl hup
  · exact htype

namespace Lane

/-! ### A paste -/

variable {w : Lane} {keyed : Bool} {up : KeyEvent}

/-- What is down in the guest has an entry of the table that lets it go. -/
structure Kept (printable : Char → Bool) (w : Lane) : Prop where
  /-- The event of an entry is the one of the message that lets its key go. -/
  ups : ∀ p up, (p, up) ∈ w.held → ∀ b, p.plan printable .up b = .event up
  down : ∀ code, keyDown w.log code = true → ∃ p up, (p, up) ∈ w.held ∧ up.code = code
  bounded : w.held.length ≤ maxHeld
  /-- Where a paste key is sent, no modifier is down. -/
  pastes : Log.Each (fun before e => e = pasteKey →
    ∀ m ∈ Session.modifiers, keyDown before (.key m) = false) w.log

theorem mem_modifiers : up ∈ w.held.modifiers ↔ (∃ p, (p, up) ∈ w.held) ∧ up.isModifier = true := by
  unfold Held.modifiers
  rw [List.mem_filter, List.mem_map]
  refine and_congr_left' ⟨?_, ?_⟩
  · rintro ⟨q, hq, rfl⟩
    exact ⟨q.1, hq⟩
  · rintro ⟨p, hp⟩
    exact ⟨(p, up), hp, rfl⟩

theorem Kept.modifiers_up (h : w.Kept printable) : ∀ e ∈ w.held.modifiers, e.eventType = .up := by
  intro e he
  obtain ⟨⟨p, hp⟩, -⟩ := mem_modifiers.mp he
  exact plan_up_type (h.ups p e hp false)

theorem withType_down (ups : List KeyEvent) :
    ∀ e ∈ ups.map (·.withType .down), e.eventType = .down := by
  intro e he
  obtain ⟨up, -, rfl⟩ := List.mem_map.mp he
  rfl

/-- The paste key itself leaves everything as it is, and is up behind it. -/
theorem keyDown_paste : keyDown (log ++ if keyed then [pasteKey] else []) code =
    if keyed = true ∧ pasteKey.code = code then false else keyDown log code := by
  cases keyed with
  | true =>
    rw [if_pos rfl, keyDown_concat]
    simp [pasteKey]
  | false =>
    rw [if_neg Bool.false_ne_true, List.append_nil]
    simp

/-- What is down behind a paste: what was down, and the modifiers of the table. -/
theorem Kept.paste_down (h : w.Kept printable) (hcode : code ≠ pasteKey.code) :
    keyDown (w.paste keyed).log code = true ↔
      keyDown w.log code = true ∨ ∃ up ∈ w.held.modifiers, up.code = code := by
  unfold paste send
  rw [keyDown_downs (withType_down _), keyDown_paste, if_neg fun hpaste => hcode hpaste.2.symm,
    keyDown_ups h.modifiers_up]
  constructor
  · rintro (⟨hdown, -⟩ | ⟨e, he, hce⟩)
    · exact .inl hdown
    · obtain ⟨up, hup, rfl⟩ := List.mem_map.mp he
      exact .inr ⟨up, hup, hce⟩
  · intro hdown
    by_cases hmod : ∃ up ∈ w.held.modifiers, up.code = code
    · obtain ⟨up, hup, hce⟩ := hmod
      exact .inr ⟨_, List.mem_map_of_mem hup, hce⟩
    · rcases hdown with hdown | hdown
      · exact .inl ⟨hdown, fun up hup hce => hmod ⟨up, hup, hce⟩⟩
      · exact absurd hdown hmod

/-- A modifier that is down is one of those that a paste lets go. -/
theorem Kept.lifted (h : w.Kept printable) {m : String} (hm : m ∈ Session.modifiers) :
    keyDown (w.log ++ w.held.modifiers) (.key m) = false := by
  rw [← Bool.not_eq_true, keyDown_ups h.modifiers_up]
  rintro ⟨hdown, hne⟩
  obtain ⟨p, up, hp, hcode⟩ := h.down _ hdown
  have hmodifier : up.isModifier = true := by
    rw [KeyEvent.isModifier, hcode]
    exact decide_eq_true hm
  exact hne up (mem_modifiers.mpr ⟨⟨p, hp⟩, hmodifier⟩) hcode

/-- Events that are not the paste key do not matter to it. -/
theorem Kept.pastes_append (h : w.Kept printable) (hevents : ∀ e ∈ events, e ≠ pasteKey) :
    Log.Each (fun before e => e = pasteKey →
      ∀ m ∈ Session.modifiers, keyDown before (.key m) = false) (w.log ++ events) := by
  refine h.pastes.append fun before e after heq hpaste => absurd hpaste (hevents e ?_)
  rw [heq]
  simp

/-- **A paste** sends its key under no modifier, and has them down again behind it. -/
theorem Kept.paste (h : w.Kept printable) (keyed : Bool) : (w.paste keyed).Kept printable := by
  refine ⟨h.ups, fun code hdown => ?_, h.bounded, ?_⟩
  · unfold Lane.paste send at hdown
    rw [keyDown_downs (withType_down _), keyDown_paste] at hdown
    rcases hdown with hdown | ⟨e, he, hcode⟩
    · split at hdown
      · cases hdown
      · exact h.down code ((keyDown_ups h.modifiers_up).mp hdown).1
    · obtain ⟨up, hup, rfl⟩ := List.mem_map.mp he
      obtain ⟨⟨p, hp⟩, -⟩ := mem_modifiers.mp hup
      exact ⟨p, up, hp, hcode⟩
  · have hups : ∀ e ∈ w.held.modifiers, e ≠ pasteKey := by
      intro e he heq
      have htype := h.modifiers_up e he
      rw [heq] at htype
      cases htype
    have hlifted := h.pastes_append hups
    unfold Lane.paste send
    refine Log.Each.append ?_ fun before e after heq hpaste => ?_
    · -- the modifiers are up when the paste key comes
      cases keyed with
      | true =>
        refine hlifted.concat fun _ m hm => ?_
        exact h.lifted hm
      | false =>
        rw [if_neg Bool.false_ne_true, List.append_nil]
        exact hlifted
    · -- the modifiers go down again, by events that are not the paste key
      have hmem : e ∈ w.held.modifiers.map (·.withType .down) := by
        rw [heq]
        simp
      have htype := withType_down _ e hmem
      rw [hpaste] at htype
      cases htype

/-! ### The other jobs -/

/-- A key is let go. -/
theorem Kept.release (h : w.Kept printable) (hplan : ∀ b, p.plan printable .up b = .event up) :
    (({ w with held := w.held.pop p } : Lane).send [up]).Kept printable := by
  have htype := plan_up_type (hplan false)
  refine ⟨fun p' up' hup' => h.ups p' up' (List.mem_filter.mp hup').1, fun code hdown => ?_,
    (List.length_filter_le _ _).trans h.bounded, h.pastes_append fun e he => ?_⟩
  · change keyDown (w.log ++ [up]) code = true at hdown
    rw [keyDown_concat, htype] at hdown
    split at hdown
    · cases hdown
    · rename_i hne
      obtain ⟨p', up', hup', hcode⟩ := h.down code hdown
      refine ⟨p', up', List.mem_filter.mpr ⟨hup', ?_⟩, hcode⟩
      -- an entry of the same key would have the same event
      have hother : p' ≠ p := by
        rintro rfl
        have hsame := (h.ups p' up' hup' false).symm.trans (hplan false)
        cases hsame
        exact hne hcode
      simpa using hother
  · rw [List.mem_singleton.mp he]
    rintro rfl
    cases htype

/-- The entries once a key goes down. -/
theorem mem_put {held : Held} {p p' : Pressed} {up up' : KeyEvent} :
    (p', up') ∈ held.put p up ↔ p' = p ∧ up' = up ∨ p' ≠ p ∧ (p', up') ∈ held := by
  unfold Held.put
  split
  · rename_i hhas
    rw [List.mem_map]
    constructor
    · rintro ⟨q, hq, heq⟩
      split at heq
      · cases heq
        exact .inl ⟨rfl, rfl⟩
      · rename_i hne
        subst heq
        exact .inr ⟨hne, hq⟩
    · rintro (⟨rfl, rfl⟩ | ⟨hne, hq⟩)
      · obtain ⟨q, hq, hkey⟩ := List.any_eq_true.mp hhas
        exact ⟨q, hq, if_pos (by simpa using hkey)⟩
      · exact ⟨_, hq, if_neg hne⟩
  · rename_i hhas
    rw [List.mem_append, List.mem_singleton]
    constructor
    · rintro (hq | heq)
      · refine .inr ⟨?_, hq⟩
        rintro rfl
        exact hhas (List.any_eq_true.mpr ⟨_, hq, by simp⟩)
      · cases heq
        exact .inl ⟨rfl, rfl⟩
    · rintro (⟨rfl, rfl⟩ | ⟨-, hq⟩)
      · exact .inr rfl
      · exact .inl hq

/-- A key goes down. -/
theorem Kept.hold (h : w.Kept printable) (hdown : e.eventType = .down)
    (hplan : ∀ b, p.plan printable .up b = .event (e.withType .up))
    (hroom : ¬(maxHeld ≤ w.held.length ∧ w.held.has p = false)) :
    (({ w with held := w.held.put p (e.withType .up) } : Lane).send [e]).Kept printable := by
  refine ⟨fun p' up' hup' => ?_, fun code hcode => ?_, ?_, h.pastes_append fun e' he' => ?_⟩
  · rcases mem_put.mp hup' with ⟨rfl, rfl⟩ | ⟨-, hup'⟩
    · exact hplan
    · exact h.ups p' up' hup'
  · change keyDown (w.log ++ [e]) code = true at hcode
    rw [keyDown_concat] at hcode
    split at hcode
    · rename_i heq
      exact ⟨p, e.withType .up, mem_put.mpr (.inl ⟨rfl, rfl⟩), heq⟩
    · obtain ⟨p', up', hup', hcode⟩ := h.down code hcode
      -- the entry that is replaced had the same event
      by_cases hp : p' = p
      · subst hp
        have hsame := (h.ups p' up' hup' false).symm.trans (hplan false)
        cases hsame
        exact ⟨p', _, mem_put.mpr (.inl ⟨rfl, rfl⟩), hcode⟩
      · exact ⟨p', up', mem_put.mpr (.inr ⟨hp, hup'⟩), hcode⟩
  · change (w.held.put p (e.withType .up)).length ≤ maxHeld
    unfold Held.put
    split
    · rw [List.length_map]
      exact h.bounded
    · rename_i hhas
      rw [List.length_append, List.length_singleton]
      have hlt : w.held.length < maxHeld := by
        by_contra hfull
        exact hroom ⟨not_lt.mp hfull, by simpa using hhas⟩
      exact hlt
  · rw [List.mem_singleton.mp he']
    rintro rfl
    cases hdown

/-- A press of a character. -/
theorem Kept.tap (h : w.Kept printable) (htype : e.eventType = .press)
    (hcode : e.code ≠ pasteKey.code) : (w.send [e]).Kept printable := by
  refine ⟨h.ups, fun code hdown => ?_, h.bounded, h.pastes_append fun e' he' => ?_⟩
  · change keyDown (w.log ++ [e]) code = true at hdown
    rw [keyDown_concat, htype] at hdown
    split at hdown
    · cases hdown
    · exact h.down code hdown
  · rw [List.mem_singleton.mp he']
    rintro rfl
    exact hcode rfl

theorem Kept.press (h : w.Kept printable) (p : Pressed) (action : KeyAction) (keyed : Bool) :
    (w.press printable p action keyed).Kept printable := by
  unfold Lane.press
  by_cases hup : action = .up
  · subst hup
    rw [if_pos rfl]
    cases hplan : p.plan printable .up (w.held.has p) with
    | text text => exact absurd rfl (plan_text hplan)
    | drop =>
      -- a key without an event that lets go is not in the table
      have hnone : w.held.pop p = w.held := by
        refine List.filter_eq_self.mpr fun q hq => ?_
        have hne : q.1 ≠ p := by
          intro heq
          have hevent := h.ups q.1 q.2 hq (w.held.has p)
          rw [heq, hplan] at hevent
          cases hevent
        simpa using hne
      simp only [hnone]
      exact h
    | event up =>
      obtain ⟨-, ⟨-, hne⟩ | ⟨htype, hplans⟩⟩ := plan_event hplan
      · exact absurd rfl hne
      · have hself : up.withType .up = up := by
          rw [← htype]
          rfl
        rw [hself] at hplans
        simp only [htype]
        exact h.release hplans
  · rw [if_neg hup]
    cases hplan : p.plan printable action (w.held.has p) with
    | text text => exact h.paste keyed
    | drop => exact h
    | event e =>
      simp only
      obtain ⟨hcode, ⟨htype, -⟩ | ⟨htype, hplans⟩⟩ := plan_event hplan
      · rw [if_neg (by rw [htype]; exact nofun)]
        exact h.tap htype hcode
      · split
        · rename_i hdown
          split
          · exact h
          · exact h.hold hdown hplans ‹_›
        · rename_i hdown
          cases action with
          | down => exact absurd htype hdown
          | up => exact absurd rfl hup
          | press => exact h.tap htype hcode

/-- **One message** keeps what is down among what the table can let go. -/
theorem Kept.receive (h : w.Kept printable) (keyed : Bool) (m : Request) :
    (w.receive printable keyed m).Kept printable := by
  unfold Lane.receive
  cases hjob : m.job with
  | error message => exact h
  | ok j =>
    cases j with
    | press p action => exact h.press p action keyed
    | paste text => exact h.paste keyed
    | send e =>
      -- no message of the lane becomes a bare send
      exfalso
      cases m <;> simp only [Request.job, bind, Except.bind] at hjob
      all_goals repeat' first | cases hjob | split at hjob

theorem kept_of_reachable (h : (laneMachine printable).Reachable w) : w.Kept printable := by
  refine h.invariant (fun w hw => ?_) fun w e w' hw _ he => ?_
  · rw [hw]
    refine ⟨fun p up hup => ?_, fun code hdown => ?_, Nat.zero_le _, Log.Each.nil⟩
    · cases hup
    · cases hdown
  · cases he
    exact hw.receive e.2 e.1

/-- The modifiers of the table are down behind a job that pastes. -/
theorem Kept.runJob_modifiers (h : w.Kept printable) {j : Job} (hj : w.pastes printable j = true)
    (hp : (p, up) ∈ w.held) (hmod : up.isModifier = true) :
    keyDown (w.runJob printable keyed j).log up.code = true := by
  have hcode : up.code ≠ pasteKey.code := by
    intro heq
    rw [KeyEvent.isModifier, heq] at hmod
    cases hmod
  have hpaste : keyDown (w.paste keyed).log up.code = true :=
    (h.paste_down hcode).mpr (.inr ⟨up, mem_modifiers.mpr ⟨⟨p, hp⟩, hmod⟩, rfl⟩)
  cases j with
  | send e => cases hj
  | paste text => exact hpaste
  | press q action =>
    cases hplan : q.plan printable action (w.held.has q) with
    | event e => simp [Lane.pastes, hplan] at hj
    | drop => simp [Lane.pastes, hplan] at hj
    | text text =>
      have hup := plan_text hplan
      simp only [Lane.runJob, Lane.press, hplan, if_neg hup]
      exact hpaste

/-- **Between two jobs**, what is down in the guest has an entry whose event lets it go, and the
table is bounded; a paste key was sent under no modifier, and a job that pastes has the modifiers
of the table down again behind it. -/
theorem held_kept (h : (laneMachine printable).Reachable w) :
    (∀ code, keyDown w.log code = true →
      ∃ p up, (p, up) ∈ w.held ∧ up.eventType = .up ∧ up.code = code) ∧
    w.held.length ≤ maxHeld ∧
    (∀ before after, w.log = before ++ pasteKey :: after →
      ∀ m ∈ Session.modifiers, keyDown before (.key m) = false) ∧
    ∀ (j : Job) (keyed : Bool), w.pastes printable j = true → ∀ p up, (p, up) ∈ w.held →
      up.isModifier = true → keyDown (w.runJob printable keyed j).log up.code = true := by
  have hkept := kept_of_reachable h
  refine ⟨fun code hdown => ?_, hkept.bounded, fun before after heq => ?_, ?_⟩
  · obtain ⟨p, up, hp, hcode⟩ := hkept.down code hdown
    exact ⟨p, up, hp, plan_up_type (hkept.ups p up hp false), hcode⟩
  · exact hkept.pastes before pasteKey after heq rfl
  · exact fun j keyed hj p up hp hmod => hkept.runJob_modifiers hj hp hmod

/-- Control goes down, and a letter with an accent is pasted. -/
theorem held_kept_control : ∃ w : Lane,
    (laneMachine fun _ => true).run { held := [], log := [] }
      [(.key (lit "Control") (lit "down"), true), (.key (lit "é") (lit "press"), true)] = some w ∧
    w.log.length = 4 ∧ w.held.length ≤ maxHeld ∧ ∀ before after,
      w.log = before ++ pasteKey :: after →
      ∀ m ∈ Session.modifiers, keyDown before (.key m) = false := by
  obtain ⟨w, hrun⟩ : ∃ w, (laneMachine fun _ => true).run { held := [], log := [] }
      [(.key (lit "Control") (lit "down"), true), (.key (lit "é") (lit "press"), true)] = some w :=
    ⟨_, rfl⟩
  refine ⟨w, hrun, ?_, ?_⟩
  · cases hrun
    decide +kernel
  · have hreach : (laneMachine fun _ => true).Reachable { held := [], log := [] } := .init rfl
    obtain ⟨-, hbounded, hpastes, -⟩ := held_kept (hreach.of_run hrun)
    exact ⟨hbounded, hpastes⟩

end Lane

end Keyboard

end AndroidAppliance
