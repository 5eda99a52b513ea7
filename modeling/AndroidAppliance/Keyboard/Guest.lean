import AndroidAppliance.Keyboard.Lane

/-!
# From the keyboard to the guest

The messages of a `KeyTracker` reach the session in their order. The tracker knows a key by its
place on the keyboard, the session by its name, and the guest by what the name stands for: two
places can have one name, and two names one guest key. `Seat` is the tracker with the session
behind it, and `guest_follows` says exactly in which runs the guest keys that are down are those
that the held keys name.
-/

namespace AndroidAppliance

namespace Keyboard

open Session (KeyAction KeyCode KeyEvent Pressed Held maxHeld)
open Text (Code Codes)

/-! ### What a key of the browser is in the guest -/

/-- The `action` of a message. -/
def actionName : KeyAction → String
  | .down => "down"
  | .up => "up"
  | .press => "press"

/-- A message as the session reads it; the `code` of a key is not read. -/
def Message.request : Message → Request
  | .key k _ action => .key k (lit (actionName action))
  | .text t => .text t

/-- The key of a message, if `_key` takes it. -/
def name? (key : Codes) : Option String :=
  match string "key" key 32 with
  | .ok text => if validKey text then some (.ofList text) else none
  | .error _ => none

/-- What a named key is in the guest. -/
def guestCode (name : String) : KeyCode := (Session.keyAlias name).getD (.key name)

/-- The guest key that a named key of the browser stands for. -/
def guestKey (key : Codes) : Option KeyCode :=
  match name? key with
  | some name => if name ∈ Session.droppedKeys then none else some (guestCode name)
  | none => none

/-- A call of the tracker; `keyed` says whether a paste of the session sends its key. -/
inductive Call
  | keydown (e : KeyboardEvent) (keyed : Bool)
  | keyup (e : KeyboardEvent)
  | releaseAll
  deriving DecidableEq, Repr

/-- A tracker and the session that it writes to. -/
structure Seat where
  tracker : KeyTracker
  lane : Lane
  deriving DecidableEq, Repr

namespace Seat

/-- Nothing is held. -/
def fresh : Seat := { tracker := { held := .empty }, lane := { held := [], log := [] } }

/-- The messages of a call reach the session one after another. -/
def feed (printable : Char → Bool) (s : Seat) (keyed : Bool) (r : KeyTracker × List Message) :
    Seat where
  tracker := r.1
  lane := r.2.foldl (fun w m => w.receive printable keyed m.request) s.lane

/-- One call of the tracker; its messages go through the lane. -/
def step (printable : Char → Bool) (s : Seat) : Call → Seat
  | .keydown e keyed => s.feed printable keyed (s.tracker.keydown e)
  | .keyup e => s.feed printable false (s.tracker.keyup e)
  | .releaseAll => s.feed printable false s.tracker.releaseAll

/-- A key that is held names the guest key. -/
def Named (s : Seat) (g : KeyCode) : Prop :=
  ∃ c h, s.tracker.held.get c = some h ∧ guestKey h.1 = some g

/-- A key that is held at another place names the guest key. -/
def NamedElse (s : Seat) (place : Codes) (g : KeyCode) : Prop :=
  ∃ c h, c ≠ place ∧ s.tracker.held.get c = some h ∧ guestKey h.1 = some g

/-- The guest keys that are down are those that the held keys name. -/
def Agrees (s : Seat) : Prop := ∀ g, keyDown s.lane.log g = true ↔ s.Named g

/-- The calls behind which the guest follows. A key that goes down leaves no guest key behind
that its place held before, and its own guest key is held already or the session has room for its
name, which it does not hold yet. A key that goes up is the only one held for its guest key. -/
def Steady (s : Seat) : Call → Prop
  | .keydown e _ => ∀ k, classifyKey e = .named k → e.repeated = false →
      (∀ h g, s.tracker.held.get (KeyTracker.codeOf e) = some h → guestKey h.1 = some g →
        guestKey k = some g ∨ s.NamedElse (KeyTracker.codeOf e) g) ∧
      ∀ n g, name? k = some n → guestKey k = some g →
        s.Named g ∨ s.lane.held.has (.key n) = false ∧ s.lane.held.length < maxHeld
  | .keyup e => ∀ h g, s.tracker.held.get (KeyTracker.codeOf e) = some h →
      guestKey h.1 = some g → ¬s.NamedElse (KeyTracker.codeOf e) g
  | .releaseAll => True

end Seat

/-- Calls of the tracker, with the messages of each. -/
def seatMachine (printable : Char → Bool) : Machine Seat Call where
  Init s := s = .fresh
  step s c := some (s.step printable c)

/-! ### The names of keys -/

variable {printable : Char → Bool} {k : Codes} {n : String} {code : KeyCode} {c : Codes}
  {action : KeyAction}

/-- The action of a message is read. -/
theorem choice_action (action : KeyAction) :
    choice "action" (lit (actionName action)) keyActions = .ok action := by
  cases action <;> rfl

/-- A key that is taken is the text of its name. -/
theorem eq_of_name (h : name? k = some n) : k = lit n := by
  unfold name? string at h
  split at h
  · rename_i text htext
    split at h
    · cases h
      split at htext
      · cases htext
      · split at htext
        · cases htext
        · rename_i hk
          split at htext
          · cases htext
          · cases htext
            rw [lit, String.toList_ofList]
            exact Text.Codes.eq_of_text? hk
    · cases h
  · cases h

/-- A character that is typed is taken. -/
theorem name_char {a : Char} (ha : ' ' ≤ a ∧ a ≤ '~') :
    name? [.char a] = some (.ofList [a]) := by
  have hzero : a ≠ '\x00' := by
    rintro rfl
    exact absurd ha.1 (by decide)
  have hstring : string "key" [.char a] 32 = .ok [a] := by
    unfold string
    rw [if_neg (by simp)]
    change (if '\x00' ∈ [a] then _ else _) = _
    rw [if_neg (by simpa using hzero.symm)]
    rfl
  unfold name?
  rw [hstring]
  exact if_pos rfl

/-- A key that has a name is pressed by it. -/
theorem job_of_name (h : name? k = some n) :
    (Message.key k c action).request.job = .ok (.press (.key n) action) := by
  unfold name? at h
  split at h
  · rename_i text htext
    split at h
    · rename_i hvalid
      cases h
      simp only [Message.request, Request.job, htext, choice_action, bind, Except.bind]
      rw [if_pos hvalid]
    · cases h
  · cases h

/-- A key without one is refused. -/
theorem job_of_refused (h : name? k = none) :
    ∃ m, (Message.key k c action).request.job = .error m := by
  unfold name? at h
  split at h
  · rename_i text htext
    split at h
    · cases h
    · rename_i hvalid
      simp only [Message.request, Request.job, htext, choice_action, bind, Except.bind]
      rw [if_neg hvalid]
      exact ⟨_, rfl⟩
  · rename_i m hm
    simp only [Message.request, Request.job, hm, bind, Except.bind]
    exact ⟨m, rfl⟩

/-- A key that the tracker holds: a name, of a key that is not left alone. -/
def Tracked (k : Codes) : Prop := k.length ≠ 1 ∧ k ∉ ignored

/-- A name is no single character. -/
theorem Tracked.length_ne (h : Tracked k) (hname : name? k = some n) : n.toList.length ≠ 1 := by
  have hk := h.1
  rw [eq_of_name hname, lit, Text.Codes.ofText, List.length_map] at hk
  exact hk

/-- A tracked key is not dropped. -/
theorem Tracked.not_dropped (h : Tracked k) (hname : name? k = some n) :
    n ∉ Session.droppedKeys := by
  intro hdropped
  refine h.2 ?_
  rw [eq_of_name hname]
  exact List.mem_map_of_mem hdropped

/-- A tracked key has a code in the guest. -/
theorem Tracked.guestKey (h : Tracked k) (hname : name? k = some n) :
    guestKey k = some (guestCode n) := by
  unfold Keyboard.guestKey
  rw [hname]
  exact if_neg (h.not_dropped hname)

/-- A key that is refused has none. -/
theorem guestKey_refused (hname : name? k = none) : guestKey k = none := by
  unfold guestKey
  rw [hname]

/-- A name is in the guest what it stands for; a key that is down already stays so. -/
theorem plan_named (hlen : n.toList.length ≠ 1) (hdropped : n ∉ Session.droppedKeys) (b : Bool) :
    (Pressed.key n).plan printable action b =
      if action = .down ∧ b = true then .drop
      else .event { eventType := action, code := guestCode n } := by
  unfold Pressed.plan Session.browserKey
  simp only [if_neg hdropped]
  split
  · rename_i hchar
    rw [hchar] at hlen
    exact absurd rfl hlen
  · rfl

/-- No guest key of a name is a single character. -/
theorem guestCode_ne (hlen : n.toList.length ≠ 1) {m : String} (hm : m.toList.length = 1) :
    guestCode n ≠ .key m := by
  unfold guestCode Session.keyAlias
  split
  · simp [Session.Button.code]
  · split
    · rintro heq
      cases heq
      exact absurd hm (by decide)
    · rintro heq
      cases heq
      exact hlen hm

/-! ### What a message does in the guest -/

namespace Lane

variable {w : Lane} {keyed : Bool} {g : KeyCode}

/-- The modifiers of the table are down. -/
def Firm (w : Lane) : Prop :=
  ∀ p up, (p, up) ∈ w.held → up.isModifier = true → keyDown w.log up.code = true

/-- A modifier is one of the four. -/
theorem exists_of_isModifier {up : KeyEvent} (h : up.isModifier = true) :
    ∃ m ∈ Session.modifiers, up.code = .key m := by
  unfold KeyEvent.isModifier at h
  split at h
  · rename_i m hm
    exact ⟨m, of_decide_eq_true h, hm⟩
  · cases h

/-- No button is a modifier. -/
theorem button_ne_modifier (b : Session.Button) :
    ∀ m ∈ Session.modifiers, b.code ≠ .key m := by
  cases b <;> decide

/-- Only the key of its name lets a modifier go. -/
theorem key_of_modifier {p : Pressed} {up : KeyEvent} {b : Bool}
    (hplan : p.plan printable .up b = .event up) (hmod : up.isModifier = true) :
    ∃ m, p = .key m ∧ up.code = .key m := by
  obtain ⟨m, hm, hcode⟩ := exists_of_isModifier hmod
  cases p with
  | button name =>
    simp only [Pressed.plan, Session.buttonKey] at hplan
    rw [if_neg (by simp)] at hplan
    cases hplan
    exact absurd hcode (button_ne_modifier name m hm)
  | key n =>
    refine ⟨n, rfl, ?_⟩
    simp only [Pressed.plan, Session.browserKey] at hplan
    -- a key that is dropped or is a character lets nothing go; an alias is a button
    split at hplan
    · cases hplan
    · split at hplan
      · simp at hplan
      · rw [if_neg (by simp)] at hplan
        cases hplan
        revert hcode
        simp only [Session.keyAlias]
        split
        · exact fun hcode => absurd hcode (button_ne_modifier .menu m hm)
        · split
          · exact fun hcode => absurd hcode (button_ne_modifier .home m hm)
          · exact fun _ => rfl

/-- The paste key is not down between two jobs. -/
theorem Kept.paste_up (h : w.Kept printable) : keyDown w.log pasteKey.code = false := by
  rw [← Bool.not_eq_true]
  intro hdown
  obtain ⟨p, up, hp, hcode⟩ := h.down _ hdown
  exact (plan_event (h.ups p up hp false)).1 hcode

/-- A paste changes nothing if the modifiers of the table are down. -/
theorem Kept.paste_same (h : w.Kept printable) (hfirm : w.Firm) :
    keyDown (w.paste keyed).log g = keyDown w.log g := by
  by_cases hg : g = pasteKey.code
  · rw [hg, h.paste_up, (h.paste keyed).paste_up]
  · rw [Bool.eq_iff_iff, h.paste_down hg, or_iff_left_iff_imp]
    rintro ⟨up, hup, rfl⟩
    obtain ⟨⟨p, hp⟩, hmod⟩ := mem_modifiers.mp hup
    exact hfirm p up hp hmod

/-- A paste keeps what is down. -/
theorem Kept.paste_firm (h : w.Kept printable) (hfirm : w.Firm) : (w.paste keyed).Firm := by
  intro p up hp hmod
  rw [h.paste_same hfirm]
  exact hfirm p up hp hmod

/-- A refused message does nothing. -/
theorem receive_refused {m : Message} (h : ∃ e, m.request.job = .error e) :
    w.receive printable keyed m.request = w := by
  obtain ⟨e, he⟩ := h
  unfold receive
  rw [he]

/-- A message about a key is a press of the lane. -/
theorem receive_of_name (h : name? k = some n) :
    w.receive printable keyed (Message.key k c action).request =
      w.press printable (.key n) action keyed := by
  unfold receive
  rw [job_of_name h]
  rfl

/-! #### A key goes down -/

/-- Whether the session takes a key that goes down. -/
def Takes (w : Lane) (k : Codes) : Prop :=
  ∀ n, name? k = some n → w.held.has (.key n) = false ∧ w.held.length < maxHeld

/-- A key that is not taken leaves the session as it is. -/
theorem receive_down (hk : Tracked k) (hname : name? k = some n) :
    w.receive printable keyed (Message.key k c .down).request = w ∧ ¬w.Takes k ∨
    w.receive printable keyed (Message.key k c .down).request =
      ({ w with held := w.held.put (.key n) ⟨.up, guestCode n⟩ } : Lane).send
        [⟨.down, guestCode n⟩] ∧ w.Takes k := by
  rw [receive_of_name hname]
  unfold press
  simp only [plan_named (hk.length_ne hname) (hk.not_dropped hname), true_and]
  -- the session drops the key if it holds it already, or holds too many
  by_cases hhas : w.held.has (.key n) = true
  · refine .inl ⟨?_, fun htakes => ?_⟩
    · simp only [if_pos hhas]
      rfl
    · have hfree := (htakes n hname).1
      rw [hhas] at hfree
      cases hfree
  · have hfree : w.held.has (.key n) = false := by simpa using hhas
    simp only [if_neg hhas]
    by_cases hfull : maxHeld ≤ w.held.length
    · refine .inl ⟨?_, fun htakes => absurd (htakes n hname).2 (not_lt.mpr hfull)⟩
      simp [hfull, hfree]
    · refine .inr ⟨?_, fun n' hname' => ?_⟩
      · simp [hfull]
        rfl
      · cases hname.symm.trans hname'
        exact ⟨hfree, not_le.mp hfull⟩

/-- Behind a press its key is down, too. -/
theorem keyDown_down (hk : Tracked k) :
    keyDown (w.receive printable keyed (Message.key k c .down).request).log g = true ↔
      keyDown w.log g = true ∨ guestKey k = some g ∧ w.Takes k := by
  cases hname : name? k with
  | none =>
    rw [receive_refused (job_of_refused hname), guestKey_refused hname]
    simp
  | some n =>
    rw [hk.guestKey hname, Option.some_inj]
    rcases receive_down hk hname with ⟨heq, hnot⟩ | ⟨heq, htakes⟩
    · rw [heq]
      simp [hnot]
    · rw [heq]
      change keyDown (w.log ++ [⟨.down, guestCode n⟩]) g = true ↔ _
      rw [keyDown_concat]
      by_cases hg : guestCode n = g
      · simp [hg, htakes]
      · simp [hg]

/-- A press keeps the log firm. -/
theorem Firm.down (hfirm : w.Firm) (hk : Tracked k) :
    (w.receive printable keyed (Message.key k c .down).request).Firm := by
  cases hname : name? k with
  | none =>
    rw [receive_refused (job_of_refused hname)]
    exact hfirm
  | some n =>
    rcases receive_down hk hname with ⟨heq, -⟩ | ⟨heq, -⟩
    · rw [heq]
      exact hfirm
    · rw [heq]
      intro p up hp hmod
      change keyDown (w.log ++ [⟨.down, guestCode n⟩]) up.code = true
      rw [keyDown_concat]
      rcases mem_put.mp hp with ⟨-, rfl⟩ | ⟨-, hp⟩
      · simp
      · split
        · simp
        · exact hfirm p up hp hmod

/-! #### A key goes up -/

/-- A lift takes the key from the table, and is sent. -/
theorem receive_up (hk : Tracked k) (hname : name? k = some n) :
    w.receive printable keyed (Message.key k c .up).request =
      ({ w with held := w.held.pop (.key n) } : Lane).send [⟨.up, guestCode n⟩] := by
  rw [receive_of_name hname]
  unfold press
  simp only [plan_named (hk.length_ne hname) (hk.not_dropped hname)]
  simp

/-- Behind a lift its key is up. -/
theorem keyDown_up (hk : Tracked k) :
    keyDown (w.receive printable keyed (Message.key k c .up).request).log g = true ↔
      keyDown w.log g = true ∧ guestKey k ≠ some g := by
  cases hname : name? k with
  | none =>
    rw [receive_refused (job_of_refused hname), guestKey_refused hname]
    simp
  | some n =>
    rw [receive_up hk hname, hk.guestKey hname, Ne, Option.some_inj]
    change keyDown (w.log ++ [⟨.up, guestCode n⟩]) g = true ↔ _
    rw [keyDown_concat]
    by_cases hg : guestCode n = g
    · simp [hg]
    · simp [hg]

/-- A lift keeps the log firm. -/
theorem Kept.firm_up (h : w.Kept printable) (hfirm : w.Firm) (hk : Tracked k) :
    (w.receive printable keyed (Message.key k c .up).request).Firm := by
  cases hname : name? k with
  | none =>
    rw [receive_refused (job_of_refused hname)]
    exact hfirm
  | some n =>
    rw [receive_up hk hname]
    intro p up hp hmod
    obtain ⟨hold, hne⟩ := List.mem_filter.mp hp
    change keyDown (w.log ++ [⟨.up, guestCode n⟩]) up.code = true
    rw [keyDown_concat, if_neg]
    · exact hfirm p up hold hmod
    · -- the modifier that goes up has left the table
      intro hcode
      obtain ⟨m, rfl, hm⟩ := key_of_modifier (h.ups p up hold false) hmod
      have hup : ({ eventType := .up, code := guestCode n } : KeyEvent).isModifier = true := by
        rw [KeyEvent.isModifier] at hmod ⊢
        rw [hcode]
        exact hmod
      have hplan : (Pressed.key n).plan printable .up false = .event ⟨.up, guestCode n⟩ :=
        plan_named (hk.length_ne hname) (hk.not_dropped hname) false
      obtain ⟨m', hm', hcode'⟩ := key_of_modifier hplan hup
      cases hm'
      have hmm : m = n := by
        have heq := hm.symm.trans (hcode.symm.trans hcode')
        cases heq
        rfl
      simp [hmm] at hne

/-! #### Characters and texts -/

/-- A press of a character lets nothing go that a name stands for. -/
theorem receive_char {a : Char} (ha : ' ' ≤ a ∧ a ≤ '~') :
    w.receive printable keyed (Message.key [.char a] c .press).request =
      w.send [⟨.press, .key (.ofList [a])⟩] := by
  have hlist : (String.ofList [a]).toList = [a] := String.toList_ofList
  have hdropped : String.ofList [a] ∉ Session.droppedKeys := by
    intro hmem
    have hlen : ∀ d ∈ Session.droppedKeys, d.toList.length ≠ 1 := by decide
    exact hlen _ hmem (by rw [hlist]; rfl)
  have hplan : ∀ b, (Pressed.key (.ofList [a])).plan printable .press b =
      .event ⟨.press, .key (.ofList [a])⟩ := by
    intro b
    simp only [Pressed.plan, Session.browserKey, if_neg hdropped, hlist]
    rw [if_neg (by simp), if_pos ha]
  rw [receive_of_name (name_char ha)]
  unfold press
  simp only [hplan]
  simp

/-- A character is not down afterwards. -/
theorem keyDown_char {a : Char} :
    keyDown (w.send [⟨.press, .key (.ofList [a])⟩]).log g = true ↔
      keyDown w.log g = true ∧ g ≠ .key (.ofList [a]) := by
  change keyDown (w.log ++ [⟨.press, .key (.ofList [a])⟩]) g = true ↔ _
  rw [keyDown_concat]
  split
  · rename_i hg
    constructor
    · intro hdown
      cases hdown
    · rintro ⟨-, hne⟩
      exact absurd hg.symm hne
  · rename_i hg
    exact ⟨fun hdown => ⟨hdown, Ne.symm hg⟩, And.left⟩

/-- A character keeps the log firm. -/
theorem Firm.char {a : Char} (hfirm : w.Firm) :
    (w.send [⟨.press, .key (.ofList [a])⟩]).Firm := by
  intro p up hp hmod
  refine keyDown_char.mpr ⟨hfirm p up hp hmod, fun hcode => ?_⟩
  obtain ⟨m, hm, hm'⟩ := exists_of_isModifier hmod
  have hlen : ∀ m ∈ Session.modifiers, m.toList.length ≠ 1 := by decide
  rw [hcode] at hm'
  cases hm'
  exact hlen _ hm (by rw [String.toList_ofList]; rfl)

/-- A text is pasted, or refused. -/
theorem receive_text (t : Codes) : w.receive printable keyed (Message.text t).request = w ∨
    w.receive printable keyed (Message.text t).request = w.paste keyed := by
  unfold receive
  cases hjob : (Message.text t).request.job with
  | error e => exact .inl rfl
  | ok j =>
    simp only [Message.request, Request.job, bind, Except.bind] at hjob
    split at hjob
    · cases hjob
    · split at hjob
      · cases hjob
      · cases hjob
        exact .inr rfl

end Lane

/-! ### The calls -/

namespace Seat

variable {s : Seat} {e : KeyboardEvent} {g : KeyCode}

/-- What holds of every tracker and its session. -/
structure Ok (printable : Char → Bool) (s : Seat) : Prop where
  tracked : ∀ c h, s.tracker.held.get c = some h → Tracked h.1
  kept : s.lane.Kept printable
  firm : s.lane.Firm

/-- At first nothing is held. -/
theorem ok_fresh : fresh.Ok printable := by
  refine ⟨fun c h hc => ?_, Lane.kept_of_reachable (.init rfl), fun p up hp => ?_⟩
  · cases hc
  · cases hp

/-- At first nothing is down. -/
theorem agrees_fresh : fresh.Agrees := by
  intro g
  constructor
  · intro hdown
    cases hdown
  · rintro ⟨c, h, hc, -⟩
    cases hc

/-- What the keys name once a key goes down. -/
theorem named_put {t : KeyTracker} {lane : Lane} {place : Codes} {h : Codes × Codes} :
    ({ tracker := { held := t.held.put place h }, lane } : Seat).Named g ↔
      guestKey h.1 = some g ∨ ({ tracker := t, lane } : Seat).NamedElse place g := by
  constructor
  · rintro ⟨c, h', hc, hg⟩
    rw [Dict.get_put] at hc
    split at hc
    · cases hc
      exact .inl hg
    · exact .inr ⟨c, h', ‹_›, hc, hg⟩
  · rintro (hg | ⟨c, h', hne, hc, hg⟩)
    · exact ⟨place, h, Dict.get_put_self, hg⟩
    · exact ⟨c, h', (Dict.get_put_of_ne hne).trans hc, hg⟩

/-- The keys of the table without one place. -/
theorem named_pop {t : KeyTracker} {lane : Lane} {place : Codes} :
    ({ tracker := { held := t.held.pop place }, lane } : Seat).Named g ↔
      ({ tracker := t, lane } : Seat).NamedElse place g := by
  constructor
  · rintro ⟨c, h, hc, hg⟩
    rw [Dict.get_pop] at hc
    split at hc
    · cases hc
    · exact ⟨c, h, ‹_›, hc, hg⟩
  · rintro ⟨c, h, hne, hc, hg⟩
    exact ⟨c, h, by rw [Dict.get_pop, if_neg hne, hc], hg⟩

/-- The keys name what the one of a place names, and what the others do. -/
theorem named_iff (place : Codes) : s.Named g ↔
    (∃ h, s.tracker.held.get place = some h ∧ guestKey h.1 = some g) ∨ s.NamedElse place g := by
  constructor
  · rintro ⟨c, h, hc, hg⟩
    by_cases hplace : c = place
    · exact .inl ⟨h, hplace ▸ hc, hg⟩
    · exact .inr ⟨c, h, hplace, hc, hg⟩
  · rintro (⟨h, hc, hg⟩ | ⟨c, h, -, hc, hg⟩)
    · exact ⟨place, h, hc, hg⟩
    · exact ⟨c, h, hc, hg⟩

/-- A key that is held at a new place. -/
theorem Ok.put (h : s.Ok printable) {place : Codes} (hk : Tracked k) (keyed : Bool) :
    ({ tracker := { held := s.tracker.held.put place (k, c) }
       lane := s.lane.receive printable keyed (Message.key k c .down).request } : Seat).Ok
      printable := by
  refine ⟨fun place' h' hget => ?_, h.kept.receive keyed _, h.firm.down hk⟩
  rw [Dict.get_put] at hget
  split at hget
  · cases hget
    exact hk
  · exact h.tracked place' h' hget

/-- A key goes down: the guest follows exactly if the call is steady. -/
theorem Agrees.put (h : s.Agrees) (hk : Tracked k) {place : Codes} {keyed : Bool} :
    ({ tracker := { held := s.tracker.held.put place (k, c) }
       lane := s.lane.receive printable keyed (Message.key k c .down).request } : Seat).Agrees ↔
      (∀ h' g, s.tracker.held.get place = some h' → guestKey h'.1 = some g →
        guestKey k = some g ∨ s.NamedElse place g) ∧
      ∀ n g, name? k = some n → guestKey k = some g →
        s.Named g ∨ s.lane.held.has (.key n) = false ∧ s.lane.held.length < maxHeld := by
  -- the guest has what was down before, and the new key if the session takes it
  have hafter : ∀ g, (keyDown (s.lane.receive printable keyed
      (Message.key k c .down).request).log g = true ↔ s.Named g ∨ guestKey k = some g ∧
      s.lane.Takes k) := fun g => (Lane.keyDown_down hk).trans (or_congr_left (h g))
  unfold Agrees
  simp only [hafter, named_put]
  constructor
  · -- what the place held before is not held there any more
    refine fun hagrees => ⟨fun h' g hget hg => ?_, fun n g hname hg => ?_⟩
    · exact (hagrees g).mp (.inl ((named_iff place).mpr (.inl ⟨h', hget, hg⟩)))
    · exact ((hagrees g).mpr (.inl hg)).imp_right fun htakes => htakes.2 n hname
  · rintro ⟨hleaves, htakes⟩ g
    constructor
    · rintro (hnamed | ⟨hg, -⟩)
      · rcases (named_iff place).mp hnamed with ⟨h', hget, hg⟩ | helse
        · exact hleaves h' g hget hg
        · exact .inr helse
      · exact .inl hg
    · rintro (hg | helse)
      · cases hname : name? k with
        | none =>
          rw [guestKey_refused hname] at hg
          cases hg
        | some n =>
          refine (htakes n g hname hg).imp_right fun hroom => ⟨hg, fun n' hname' => ?_⟩
          cases hname.symm.trans hname'
          exact hroom
      · exact .inl ((named_iff place).mpr (.inr helse))

/-- A key that is let go. -/
theorem Ok.pop (h : s.Ok printable) {place : Codes} (hk : Tracked k) (keyed : Bool) :
    ({ tracker := { held := s.tracker.held.pop place }
       lane := s.lane.receive printable keyed (Message.key k c .up).request } : Seat).Ok
      printable := by
  refine ⟨fun place' h' hget => ?_, h.kept.receive keyed _, h.kept.firm_up h.firm hk⟩
  rw [Dict.get_pop] at hget
  split at hget
  · cases hget
  · exact h.tracked place' h' hget

/-- A key goes up: the guest follows exactly if no other is held for its guest key. -/
theorem Agrees.pop (h : s.Agrees) (hk : Tracked k) {place : Codes}
    (hget : s.tracker.held.get place = some (k, c)) {keyed : Bool} :
    ({ tracker := { held := s.tracker.held.pop place }
       lane := s.lane.receive printable keyed (Message.key k c .up).request } : Seat).Agrees ↔
      ∀ g, guestKey k = some g → ¬s.NamedElse place g := by
  -- the guest lets the key go even if another place stands for it too
  have hnamed : ∀ g, s.Named g ↔ guestKey k = some g ∨ s.NamedElse place g := by
    intro g
    rw [named_iff place, hget]
    simp
  have hafter : ∀ g, (keyDown (s.lane.receive printable keyed
      (Message.key k c .up).request).log g = true ↔
      (guestKey k = some g ∨ s.NamedElse place g) ∧ guestKey k ≠ some g) := fun g =>
    (Lane.keyDown_up hk).trans (and_congr_left' ((h g).trans (hnamed g)))
  unfold Agrees
  simp only [hafter, named_pop]
  constructor
  · intro hagrees g hg helse
    exact ((hagrees g).mpr helse).2 hg
  · intro hsole g
    constructor
    · rintro ⟨hg | helse, hne⟩
      · exact absurd hg hne
      · exact helse
    · exact fun helse => ⟨.inr helse, fun hg => hsole g hg helse⟩

/-- The keys of a list go up one after another. -/
theorem foldl_ups {hs : List (Codes × Codes)} (hhs : ∀ h ∈ hs, Tracked h.1) {w : Lane}
    (hkept : w.Kept printable) (hfirm : w.Firm) {keyed : Bool} :
    let w' := (hs.map fun h => Message.key h.1 h.2 .up).foldl
      (fun w m => w.receive printable keyed m.request) w
    w'.Kept printable ∧ w'.Firm ∧ ∀ g, keyDown w'.log g = true ↔
      keyDown w.log g = true ∧ ∀ h ∈ hs, guestKey h.1 ≠ some g := by
  induction hs generalizing w with
  | nil => exact ⟨hkept, hfirm, fun g => by simp⟩
  | cons h hs ih =>
    have hh := hhs h List.mem_cons_self
    obtain ⟨hkept', hfirm', hdown⟩ := ih (fun h' hmem => hhs h' (List.mem_cons_of_mem _ hmem))
      (hkept.receive keyed (Message.key h.1 h.2 .up).request) (hkept.firm_up hfirm hh)
    refine ⟨hkept', hfirm', fun g => ?_⟩
    refine (hdown g).trans ?_
    rw [Lane.keyDown_up hh, List.forall_mem_cons, and_assoc]

/-- All keys that are held are tracked. -/
theorem Ok.values (h : s.Ok printable) : ∀ h' ∈ s.tracker.held.values, Tracked h'.1 := by
  intro h' hmem
  obtain ⟨place, hget⟩ := Dict.mem_values.mp hmem
  exact h.tracked place h' hget

/-- All keys are let go. -/
theorem Ok.releaseAll (h : s.Ok printable) : (s.step printable .releaseAll).Ok printable := by
  obtain ⟨hkept, hfirm, -⟩ := foldl_ups h.values h.kept h.firm
  refine ⟨fun place h' hget => ?_, hkept, hfirm⟩
  cases hget

/-- Then none is down. -/
theorem Agrees.releaseAll (hagrees : s.Agrees) (h : s.Ok printable) :
    (s.step printable .releaseAll).Agrees := by
  obtain ⟨-, -, hdown⟩ := foldl_ups h.values h.kept h.firm
  intro g
  refine (hdown g).trans ?_
  constructor
  · -- a guest key that is down is named by a key that goes up
    rintro ⟨hg, hne⟩
    obtain ⟨place, h', hget, hg'⟩ := (hagrees g).mp hg
    exact absurd hg' (hne h' (Dict.mem_values.mpr ⟨place, hget⟩))
  · rintro ⟨place, h', hget, -⟩
    cases hget

/-- A message after which the session holds the keys that it held. -/
structure Quiet (printable : Char → Bool) (w w' : Lane) : Prop where
  kept : w'.Kept printable
  firm : w'.Firm
  down : ∀ g, keyDown w'.log g = true → keyDown w.log g = true
  named : ∀ n, n.toList.length ≠ 1 → keyDown w.log (guestCode n) = true →
    keyDown w'.log (guestCode n) = true

/-- What a key that goes down does: a name that is not a repetition is held, anything else leaves
what is held alone. -/
theorem step_keydown (h : s.Ok printable) (e : KeyboardEvent) (keyed : Bool) :
    ((∃ lane, s.step printable (.keydown e keyed) = { s with lane } ∧
        Quiet printable s.lane lane) ∧
      ∀ k, classifyKey e = .named k → e.repeated = true) ∨
    ∃ k, classifyKey e = .named k ∧ e.repeated = false ∧
      s.step printable (.keydown e keyed) =
        { tracker := { held := s.tracker.held.put (KeyTracker.codeOf e) (k, e.code) }
          lane := s.lane.receive printable keyed (Message.key k e.code .down).request } := by
  have hsame : Quiet printable s.lane s.lane := ⟨h.kept, h.firm, fun _ => id, fun _ _ => id⟩
  have hstep : s.step printable (.keydown e keyed) =
      s.feed printable keyed (s.tracker.keydown e) := rfl
  rw [hstep, KeyTracker.keydown]
  cases hkind : classifyKey e with
  | ignore => exact .inl ⟨⟨s.lane, rfl, hsame⟩, fun k hk => by cases hk⟩
  | paste => exact .inl ⟨⟨s.lane, rfl, hsame⟩, fun k hk => by cases hk⟩
  | press k =>
    obtain ⟨a, rfl, ha⟩ := classifyKey_press hkind
    have hpress : s.lane.receive printable keyed (Message.key [.char a] e.code .press).request =
        s.lane.send [⟨.press, .key (.ofList [a])⟩] := Lane.receive_char ha
    refine .inl ⟨⟨_, congrArg _ hpress, ?_⟩, fun k hk => by cases hk⟩
    refine ⟨hpress ▸ h.kept.receive keyed _, h.firm.char, fun g hdown => ?_, fun n hlen hdown => ?_⟩
    · exact (Lane.keyDown_char.mp hdown).1
    · refine Lane.keyDown_char.mpr ⟨hdown, guestCode_ne hlen ?_⟩
      rw [String.toList_ofList]
      rfl
  | text t =>
    -- a text that the session refuses does nothing
    have ht : s.lane.receive printable keyed (Message.text t).request = s.lane ∨
        s.lane.receive printable keyed (Message.text t).request = s.lane.paste keyed :=
      Lane.receive_text t
    rcases ht with ht | ht
    · exact .inl ⟨⟨_, congrArg _ ht, hsame⟩, fun k hk => by cases hk⟩
    · refine .inl ⟨⟨_, congrArg _ ht, ?_⟩, fun k hk => by cases hk⟩
      have hpaste : ∀ g, keyDown (s.lane.paste keyed).log g = keyDown s.lane.log g := fun g =>
        h.kept.paste_same h.firm
      refine ⟨h.kept.paste keyed, h.kept.paste_firm h.firm, fun g hdown => ?_, fun n _ hdown => ?_⟩
      · rwa [hpaste] at hdown
      · rwa [hpaste]
  | named k =>
    by_cases hrepeated : e.repeated = true
    · simp only [if_pos hrepeated]
      exact .inl ⟨⟨s.lane, rfl, hsame⟩, fun k _ => hrepeated⟩
    · simp only [if_neg hrepeated]
      exact .inr ⟨k, rfl, by simpa using hrepeated, rfl⟩

/-- A step of the lane that changes no key. -/
theorem Agrees.quiet (hagrees : s.Agrees) (h : s.Ok printable) {lane : Lane}
    (hquiet : Quiet printable s.lane lane) : ({ s with lane } : Seat).Agrees := by
  intro g
  constructor
  · exact fun hdown => (hagrees g).mp (hquiet.down g hdown)
  · rintro ⟨place, held, hget, hg⟩
    have htracked := h.tracked place held hget
    have hdown := (hagrees g).mpr ⟨place, held, hget, hg⟩
    -- a held key with no name of the session is no key of the guest
    cases hname : name? held.1 with
    | none =>
      rw [guestKey_refused hname] at hg
      cases hg
    | some n =>
      rw [htracked.guestKey hname, Option.some_inj] at hg
      subst hg
      exact hquiet.named n (htracked.length_ne hname) hdown

/-- What a key that goes up does. -/
theorem step_keyup (printable : Char → Bool) (s : Seat) (e : KeyboardEvent) :
    s.tracker.held.get (KeyTracker.codeOf e) = none ∧ s.step printable (.keyup e) = s ∨
    ∃ h, s.tracker.held.get (KeyTracker.codeOf e) = some h ∧ s.step printable (.keyup e) =
      { tracker := { held := s.tracker.held.pop (KeyTracker.codeOf e) }
        lane := s.lane.receive printable false (Message.key h.1 h.2 .up).request } := by
  have hstep : s.step printable (.keyup e) =
      s.feed printable false (s.tracker.keyup e) := rfl
  rw [hstep, KeyTracker.keyup]
  cases hget : s.tracker.held.get (KeyTracker.codeOf e) with
  | none => exact .inl ⟨rfl, rfl⟩
  | some held => exact .inr ⟨held, rfl, rfl⟩

/-- **One call** keeps what holds of the tracker and the session. -/
theorem Ok.step (h : s.Ok printable) (call : Call) : (s.step printable call).Ok printable := by
  cases call with
  | keydown e keyed =>
    rcases step_keydown h e keyed with ⟨⟨lane, heq, hquiet⟩, -⟩ | ⟨k, hk, -, heq⟩
    · rw [heq]
      exact ⟨h.tracked, hquiet.kept, hquiet.firm⟩
    · rw [heq]
      exact h.put (classifyKey_named hk) keyed
  | keyup e =>
    rcases step_keyup printable s e with ⟨-, heq⟩ | ⟨held, hget, heq⟩
    · rw [heq]
      exact h
    · rw [heq]
      exact h.pop (h.tracked _ held hget) false
  | releaseAll => exact h.releaseAll

/-- **One call** has the guest follow exactly if it is steady. -/
theorem Agrees.step (hagrees : s.Agrees) (h : s.Ok printable) (call : Call) :
    (s.step printable call).Agrees ↔ s.Steady call := by
  cases call with
  | keydown e keyed =>
    rcases step_keydown h e keyed with ⟨⟨lane, heq, hquiet⟩, hrepeated⟩ | ⟨k, hk, hnew, heq⟩
    · rw [heq]
      refine iff_of_true (hagrees.quiet h hquiet) fun k hk hnew => ?_
      rw [hrepeated k hk] at hnew
      cases hnew
    · rw [heq, hagrees.put (classifyKey_named hk)]
      constructor
      · intro hsteady k' hk' _
        cases hk.symm.trans hk'
        exact hsteady
      · exact fun hsteady => hsteady k hk hnew
  | keyup e =>
    rcases step_keyup printable s e with ⟨hget, heq⟩ | ⟨held, hget, heq⟩
    · rw [heq]
      refine iff_of_true hagrees fun held g hheld => ?_
      rw [hget] at hheld
      cases hheld
    · rw [heq, hagrees.pop (h.tracked _ held hget) hget]
      constructor
      · intro hsole held' g hheld
        cases hget.symm.trans hheld
        exact hsole g
      · exact fun hsole g => hsole held g hget
  | releaseAll => exact iff_of_true (hagrees.releaseAll h) trivial

end Seat

/-- Every sequence of calls has an end. -/
theorem run_total (printable : Char → Bool) (s : Seat) (calls : List Call) :
    ∃ t, (seatMachine printable).run s calls = some t := by
  induction calls generalizing s with
  | nil => exact ⟨s, rfl⟩
  | cons call calls ih => exact ih (s.step printable call)

/-- **The guest follows the keyboard** in a run, behind each of its calls, exactly if every call
is steady. -/
theorem guest_follows (printable : Char → Bool) (calls : List Call) :
    (seatMachine printable).RunOk (fun s call => (s.step printable call).Agrees) .fresh calls ↔
      (seatMachine printable).RunOk Seat.Steady .fresh calls := by
  obtain ⟨t, hrun⟩ := run_total printable .fresh calls
  refine Machine.RunOk.iff_of_invariant (I := fun s => s.Ok printable ∧ s.Agrees) ?_ ?_
    ⟨Seat.ok_fresh, Seat.agrees_fresh⟩ hrun
  · rintro s call s' ⟨hok, hagrees⟩ hsteady hstep
    cases hstep
    exact ⟨hok.step call, (hagrees.step hok call).mpr hsteady⟩
  · rintro s call s' ⟨hok, hagrees⟩ -
    exact hagrees.step hok call

/-- An event of a key at a place. -/
def keyAt (key place : String) : KeyboardEvent where
  key := lit key
  code := lit place
  keyCode := 0
  ctrlKey := false
  metaKey := false
  altKey := false
  isComposing := false
  repeated := false

/-- Of two shift keys that are held, the one that goes up takes the other with it. -/
theorem shift_lost : ∃ s, (seatMachine fun _ => true).run .fresh
      [.keydown (keyAt "Shift" "ShiftLeft") true, .keydown (keyAt "Shift" "ShiftRight") true,
        .keyup (keyAt "Shift" "ShiftLeft")] = some s ∧
    s.Named (.key "Shift") ∧ keyDown s.lane.log (.key "Shift") = false ∧ ¬s.Agrees := by
  obtain ⟨s, hrun⟩ := run_total (fun _ => true) .fresh
      [.keydown (keyAt "Shift" "ShiftLeft") true, .keydown (keyAt "Shift" "ShiftRight") true,
        .keyup (keyAt "Shift" "ShiftLeft")]
  have hnamed : s.Named (.key "Shift") := by
    cases hrun
    exact ⟨lit "ShiftRight", (lit "Shift", lit "ShiftRight"), by decide +kernel, by decide +kernel⟩
  have hup : keyDown s.lane.log (.key "Shift") = false := by
    cases hrun
    decide +kernel
  refine ⟨s, hrun, hnamed, hup, fun hagrees => ?_⟩
  have hdown := (hagrees _).mpr hnamed
  rw [hup] at hdown
  cases hdown

end Keyboard

end AndroidAppliance
