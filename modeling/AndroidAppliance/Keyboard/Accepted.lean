import AndroidAppliance.Keyboard.Chunks
import AndroidAppliance.Keyboard.Guest

/-!
# What the session takes

Each message of the keyboard against the limits of the session: a message of at most `maxMessage`
characters of JSON, whose fields pass the checks of its handler. A piece of a text is bounded by
its UTF-16 units, and JSON writes up to six characters for one of them, so a text passes exactly
if no stretch of it has too many characters that JSON escapes: `messages_accepted`.
-/

namespace AndroidAppliance

namespace Keyboard

open Session (KeyAction)
open Text (Code Codes)
open Text.Utf16

/-- `MAX_MESSAGE` of `appliance/session.py`. -/
def maxMessage : Nat := 256 * 1024

/-- The length of an object of strings in JSON: the names and the values, each with the colon or
the comma or brace behind it. -/
def objectLength (fields : List (String × Codes)) : Nat :=
  1 + (fields.map fun f => (lit f.1).jsonLength + 1 + f.2.jsonLength + 1).sum

/-- The length of the message that `JSON.stringify` writes. -/
def Message.jsonLength : Message → Nat
  | .key k code action => objectLength
      [("type", lit "key"), ("key", k), ("code", code), ("action", lit (actionName action))]
  | .text t => objectLength [("type", lit "text"), ("text", t)]

/-- The session reads the message, and its handler takes it. -/
def Message.Accepted (m : Message) : Prop :=
  m.jsonLength ≤ maxMessage ∧ ∃ j, m.request.job = .ok j

/-- What happens at the keyboard of the dashboard. -/
inductive Event
  /-- A text of the clipboard, or of a composition. -/
  | paste (text : List Char)
  | keydown (e : KeyboardEvent)
  | keyup (e : KeyboardEvent)
  | releaseAll
  /-- A `beforeinput` event. -/
  | input (type : InputType) (data : Option Codes) (isComposing : Bool)
  deriving DecidableEq, Repr

/-- The messages of a text. -/
def pasteMessages (text : List Char) : List Message :=
  (chunkText (encode text) maxPiece).map fun piece => .text (decode piece)

namespace KeyTracker

/-- An event, with its messages. -/
def on (t : KeyTracker) : Event → KeyTracker × List Message
  | .paste text => (t, pasteMessages text)
  | .keydown e => t.keydown e
  | .keyup e => t.keyup e
  | .releaseAll => t.releaseAll
  | .input type data isComposing => (t, (inputMessage type data isComposing).toList)

/-- All messages of a sequence of events. -/
def messages (t : KeyTracker) : List Event → List Message
  | [] => []
  | e :: es => (t.on e).2 ++ (t.on e).1.messages es

end KeyTracker

/-- How many characters JSON takes for a text, without its quotes. -/
def escaped (text : List Char) : Nat := (text.map fun c => (Code.char c).jsonLength).sum

/-- The characters of JSON that a message has for its text. -/
def textRoom : Nat := maxMessage - 25

/-- A key by a name that the session knows keys by. -/
def Nameable (k : Codes) : Prop := ∃ name, k = .ofText name ∧ keyName name = true

/-- The events whose messages the session takes. -/
def Event.Fits : Event → Prop
  | .paste text => '\x00' ∉ text ∧
      ∀ pieces, Cut maxPiece text pieces → ∀ piece ∈ pieces, escaped piece ≤ textRoom
  | .keydown e =>
    match classifyKey e with
    | .press k => k.jsonLength + e.code.jsonLength ≤ maxMessage - 46
    | .text t => ∃ c, t = [.char c] ∧ c ≠ '\x00'
    | .named k => e.repeated = false →
        Nameable k ∧ k.jsonLength + e.code.jsonLength ≤ maxMessage - 45
    | .ignore | .paste => True
  | .keyup _ | .releaseAll => True
  | .input type data isComposing => isComposing = false →
      type = .insertText ∨ type = .insertReplacementText → ∀ d, data = some d → d ≠ [] →
      ∃ text, d = .ofText text ∧ '\x00' ∉ text ∧ text.length ≤ maxText ∧ escaped text ≤ textRoom

/-! ### One message -/

variable {k code : Codes} {action : KeyAction} {text : List Char} {t : KeyTracker}

theorem jsonLength_key : (Message.key k code action).jsonLength =
    39 + k.jsonLength + code.jsonLength + (lit (actionName action)).jsonLength := by
  have htype : (lit "type").jsonLength = 6 := by decide
  have hvalue : (lit "key").jsonLength = 5 := by decide
  have hcode : (lit "code").jsonLength = 6 := by decide
  have haction : (lit "action").jsonLength = 8 := by decide
  simp only [Message.jsonLength, objectLength, List.map_cons, List.map_nil, List.sum_cons,
    List.sum_nil, htype, hvalue, hcode, haction]
  omega

theorem jsonLength_ofText : (Codes.ofText text).jsonLength = 2 + escaped text := by
  unfold Codes.ofText Codes.jsonLength escaped
  rw [List.map_map]
  rfl

theorem jsonLength_text : (Message.text (.ofText text)).jsonLength = 25 + escaped text := by
  have htype : (lit "type").jsonLength = 6 := by decide
  have hvalue : (lit "text").jsonLength = 6 := by decide
  simp only [Message.jsonLength, objectLength, List.map_cons, List.map_nil, List.sum_cons,
    List.sum_nil, htype, hvalue, jsonLength_ofText]
  omega

/-- A text message is taken if its text is one, and not too long. -/
theorem text_accepted {s : Codes} : (Message.text s).Accepted ↔ s ≠ [] ∧
    ∃ text, s = .ofText text ∧ '\x00' ∉ text ∧ text.length ≤ maxText ∧
      escaped text ≤ textRoom := by
  constructor
  · rintro ⟨hlen, j, hjob⟩
    simp only [Message.request, Request.job, bind, Except.bind] at hjob
    -- each check of `string` that the text passes is one of the conditions
    split at hjob
    · cases hjob
    · rename_i text hstring
      unfold string at hstring
      split at hstring
      · cases hstring
      · rename_i hshort
        split at hstring
        · cases hstring
        · rename_i text' htext
          split at hstring
          · cases hstring
          · rename_i hzero
            cases hstring
            split at hjob
            · cases hjob
            · rename_i hempty
              have hs := Codes.eq_of_text? htext
              subst hs
              rw [jsonLength_text] at hlen
              refine ⟨fun hnil => hempty (List.map_eq_nil_iff.mp hnil), text, rfl, hzero, ?_, ?_⟩
              · simpa [Codes.ofText] using hshort
              · unfold textRoom
                omega
  · rintro ⟨hne, text, rfl, hzero, hshort, hroom⟩
    refine ⟨?_, .paste (.ofList text), ?_⟩
    · rw [jsonLength_text]
      have hmax : textRoom + 25 = maxMessage := rfl
      omega
    · have hstring : string "text" (.ofText text) maxText = .ok text := by
        unfold string
        rw [if_neg (by simpa [Codes.ofText] using hshort), Codes.text?_ofText]
        exact if_neg hzero
      have htext : text ≠ [] := fun hnil => hne (congrArg Codes.ofText hnil)
      simp only [Message.request, Request.job, hstring, bind, Except.bind]
      rw [if_neg htext]

/-- A key message is taken if its key is one, and it is not too long. -/
theorem key_accepted : (Message.key k code action).Accepted ↔ (∃ n, name? k = some n) ∧
    39 + k.jsonLength + code.jsonLength + (lit (actionName action)).jsonLength ≤ maxMessage := by
  unfold Message.Accepted
  rw [jsonLength_key, and_comm]
  refine and_congr_left' ⟨?_, ?_⟩
  · rintro ⟨j, hjob⟩
    cases hname : name? k with
    | some n => exact ⟨n, rfl⟩
    | none =>
      obtain ⟨m, hm⟩ : ∃ m, (Message.key k code action).request.job = .error m :=
        job_of_refused hname
      rw [hm] at hjob
      cases hjob
  · rintro ⟨n, hname⟩
    exact ⟨_, job_of_name hname⟩

/-- A name of a key has no NUL, and is short. -/
theorem string_of_keyName (h : keyName text = true) :
    string "key" (.ofText text) 32 = .ok text := by
  simp only [keyName, Bool.and_eq_true, decide_eq_true_eq, List.all_eq_true] at h
  obtain ⟨⟨-, hlen⟩, hall⟩ := h
  have hzero : '\x00' ∉ text := by
    intro hmem
    exact absurd (hall _ hmem) (by decide)
  unfold string
  rw [if_neg (by simpa [Codes.ofText] using hlen), Codes.text?_ofText]
  exact if_neg hzero

theorem name_of_nameable (h : Nameable k) : ∃ n, name? k = some n := by
  obtain ⟨name, rfl, hname⟩ := h
  refine ⟨.ofList name, ?_⟩
  unfold name?
  rw [string_of_keyName hname]
  exact if_pos (by simp [validKey, hname])

/-- A key that is more than a character is taken by its name. -/
theorem nameable_iff (h : k.length ≠ 1) : (∃ n, name? k = some n) ↔ Nameable k := by
  refine ⟨?_, name_of_nameable⟩
  rintro ⟨n, hname⟩
  have hk := eq_of_name hname
  refine ⟨n.toList, hk, ?_⟩
  unfold name? at hname
  split at hname
  · rename_i text htext
    split at hname
    · rename_i hvalid
      cases hname
      have htext : lit (String.ofList text) = Codes.ofText text := by
        rw [lit, String.toList_ofList]
      rw [hk, htext, Codes.ofText, List.length_map] at h
      rw [String.toList_ofList]
      simpa [validKey, h] using hvalid
    · cases hname
  · cases hname

/-! ### One event -/

/-- The characters of the pieces. -/
theorem Cut.flatten {size : Nat} {pieces : List (List Char)} (h : Cut size text pieces) :
    pieces.flatten = text := by
  induction h with
  | nil => rfl
  | cons _ _ _ _ ih => rw [List.flatten_cons, ih]

theorem Cut.of_mem {size : Nat} {pieces : List (List Char)} (h : Cut size text pieces) :
    ∀ piece ∈ pieces, piece ≠ [] ∧ (encode piece).length ≤ size := by
  induction h with
  | nil =>
    intro piece hmem
    cases hmem
  | cons hpiece hfits _ _ ih =>
    intro piece hmem
    rcases List.mem_cons.mp hmem with rfl | hmem
    · exact ⟨hpiece, hfits⟩
    · exact ih piece hmem

theorem length_le_encode (text : List Char) : text.length ≤ (encode text).length := by
  induction text with
  | nil => exact le_rfl
  | cons c text ih =>
    have hc := length_encodeChar c
    rw [encode_cons, List.length_cons, List.length_append]
    omega

/-- A piece is short enough for the session, whatever it is. -/
theorem Cut.short {pieces : List (List Char)} (h : Cut maxPiece text pieces) :
    ∀ piece ∈ pieces, piece.length ≤ maxText := by
  intro piece hmem
  have hunits := (h.of_mem piece hmem).2
  have hle := length_le_encode piece
  have hmax : (maxPiece : Nat) ≤ maxText := by decide
  omega

theorem paste_accepted : (∀ m ∈ pasteMessages text, m.Accepted) ↔ (Event.paste text).Fits := by
  obtain ⟨pieces, hcut, hpieces⟩ := chunkText_encode maxPiece text
  have hmessages : pasteMessages text = pieces.map fun p => .text (.ofText p) := by
    rw [pasteMessages, hpieces, List.map_map]
    exact List.map_congr_left fun p _ => congrArg Message.text (decode_encode p)
  rw [hmessages, List.forall_mem_map]
  -- the pieces are one cut of the text, and any other cut is the same one
  constructor
  · intro hall
    refine ⟨fun hzero => ?_, fun pieces' hcut' p hp => ?_⟩
    · rw [← hcut.flatten, List.mem_flatten] at hzero
      obtain ⟨p, hp, hmem⟩ := hzero
      obtain ⟨-, p', heq, hnot, -⟩ := text_accepted.mp (hall p hp)
      have hpp : p = p' := List.map_injective_iff.mpr (fun a b hab => by cases hab; rfl) heq
      exact hnot (hpp ▸ hmem)
    · rw [hcut'.unique hcut] at hp
      obtain ⟨hlen, -⟩ := hall p hp
      rw [jsonLength_text] at hlen
      unfold textRoom
      omega
  · rintro ⟨hzero, hroom⟩ p hp
    refine text_accepted.mpr ⟨?_, p, rfl, ?_, hcut.short p hp, hroom pieces hcut p hp⟩
    · intro hnil
      exact (hcut.of_mem p hp).1 (List.map_eq_nil_iff.mp hnil)
    · intro hmem
      refine hzero ?_
      rw [← hcut.flatten]
      exact List.mem_flatten.mpr ⟨p, hp, hmem⟩

/-- What is known of the keys that the tracker holds. -/
def KeyTracker.HeldOk (t : KeyTracker) : Prop :=
  ∀ place h, t.held.get place = some h →
    Nameable h.1 ∧ h.1.jsonLength + h.2.jsonLength ≤ maxMessage - 45

theorem up_accepted (hk : Nameable k) (hlen : k.jsonLength + code.jsonLength ≤ maxMessage - 45) :
    (Message.key k code .up).Accepted := by
  refine key_accepted.mpr ⟨name_of_nameable hk, ?_⟩
  have hup : (lit (actionName .up)).jsonLength = 4 := by decide
  have hmax : maxMessage = 262144 := rfl
  omega

theorem keydown_accepted (t : KeyTracker) (e : KeyboardEvent) :
    (∀ m ∈ (t.keydown e).2, m.Accepted) ↔ (Event.keydown e).Fits := by
  have hmax : maxMessage = 262144 := rfl
  unfold KeyTracker.keydown Event.Fits
  cases hkind : classifyKey e with
  | ignore => simp only [hkind, List.not_mem_nil, false_imp_iff, implies_true]
  | paste => simp only [hkind, List.not_mem_nil, false_imp_iff, implies_true]
  | press k =>
    obtain ⟨a, rfl, ha⟩ := classifyKey_press hkind
    simp only [hkind]
    have hpress : (lit (actionName .press)).jsonLength = 7 := by decide
    rw [List.forall_mem_singleton, key_accepted, hpress]
    constructor
    · rintro ⟨-, hlen⟩
      omega
    · intro hlen
      exact ⟨⟨_, name_char ha⟩, by omega⟩
  | text s =>
    obtain ⟨c, rfl⟩ := classifyKey_text hkind
    simp only [hkind]
    rw [List.forall_mem_singleton, text_accepted]
    constructor
    · -- a text of one code unit is one character
      rintro ⟨-, text, heq, hzero, -⟩
      obtain ⟨d, text, rfl⟩ := List.exists_cons_of_ne_nil
        (show text ≠ [] by rintro rfl; cases heq)
      cases text with
      | cons d' text => cases heq
      | nil =>
        refine ⟨d, heq, ?_⟩
        rintro rfl
        exact hzero List.mem_cons_self
    · rintro ⟨d, heq, hd⟩
      refine ⟨by simp, [d], heq, by simpa using hd.symm, by simp [maxText], ?_⟩
      -- JSON writes no character longer than an escape
      have hle : escaped [d] ≤ 6 := by
        unfold escaped Code.jsonLength
        simp only [List.map_cons, List.map_nil, List.sum_cons, List.sum_nil]
        split
        · decide
        · split <;> decide
      exact hle.trans (by decide)
  | named k =>
    have hdown : (lit (actionName .down)).jsonLength = 6 := by decide
    have hlen := (classifyKey_named hkind).1
    simp only [hkind]
    by_cases hrepeated : e.repeated = true
    · simp [hrepeated]
    · have hnew : e.repeated = false := by simpa using hrepeated
      simp only [if_neg hrepeated]
      rw [List.forall_mem_singleton, key_accepted, nameable_iff hlen, hdown]
      constructor
      · rintro ⟨hname, hroom⟩ -
        exact ⟨hname, by omega⟩
      · intro hfits
        obtain ⟨hname, hroom⟩ := hfits hnew
        exact ⟨hname, by omega⟩

theorem keyup_accepted (h : t.HeldOk) (e : KeyboardEvent) :
    ∀ m ∈ (t.keyup e).2, m.Accepted := by
  unfold KeyTracker.keyup
  cases hget : t.held.get (KeyTracker.codeOf e) with
  | none => simp
  | some held =>
    obtain ⟨hname, hlen⟩ := h _ held hget
    rw [List.forall_mem_singleton]
    exact up_accepted hname hlen

theorem releaseAll_accepted (h : t.HeldOk) : ∀ m ∈ t.releaseAll.2, m.Accepted := by
  intro m hm
  obtain ⟨held, hheld, rfl⟩ := List.mem_map.mp hm
  obtain ⟨place, hget⟩ := Dict.mem_values.mp hheld
  obtain ⟨hname, hlen⟩ := h place held hget
  exact up_accepted hname hlen

/-- A key of a keyboard that sends no keys. -/
theorem press_accepted {name : String} (hname : keyName name.toList = true)
    (hlen : (lit name).jsonLength ≤ 100) :
    (Message.key (lit name) (lit name) .press).Accepted := by
  refine key_accepted.mpr ⟨name_of_nameable ⟨name.toList, rfl, hname⟩, ?_⟩
  have hpress : (lit (actionName .press)).jsonLength = 7 := by decide
  have hmax : maxMessage = 262144 := rfl
  omega

/-- What is typed becomes a text. -/
theorem mem_inputMessage {type : InputType} {data : Option Codes} {m : Message}
    (htype : type = .insertText ∨ type = .insertReplacementText) :
    m ∈ (inputMessage type data false).toList ↔ ∃ d, data = some d ∧ d ≠ [] ∧ m = .text d := by
  rcases htype with rfl | rfl
  all_goals
    cases data with
    | none => simp [inputMessage]
    | some d =>
      cases d with
      | nil => simp [inputMessage]
      | cons c d => simp [inputMessage]

theorem typed_accepted {type : InputType} {data : Option Codes}
    (htype : type = .insertText ∨ type = .insertReplacementText) :
    (∀ m ∈ (inputMessage type data false).toList, m.Accepted) ↔
      (Event.input type data false).Fits := by
  unfold Event.Fits
  constructor
  · intro hall _ _ d hd hne
    exact (text_accepted.mp (hall _ ((mem_inputMessage htype).mpr ⟨d, hd, hne, rfl⟩))).2
  · intro hfits m hm
    obtain ⟨d, hd, hne, rfl⟩ := (mem_inputMessage htype).mp hm
    exact text_accepted.mpr ⟨hne, hfits rfl htype d hd hne⟩

theorem input_accepted (type : InputType) (data : Option Codes) (isComposing : Bool) :
    (∀ m ∈ (inputMessage type data isComposing).toList, m.Accepted) ↔
      (Event.input type data isComposing).Fits := by
  have hkey : ∀ name : String, keyName name.toList = true → (lit name).jsonLength ≤ 100 →
      ∀ m ∈ (some (Message.key (lit name) (lit name) .press)).toList, m.Accepted := by
    intro name hname hlen
    rw [Option.toList_some, List.forall_mem_singleton]
    exact press_accepted hname hlen
  cases isComposing with
  | true => exact iff_of_true (by simp [inputMessage]) (by simp [Event.Fits])
  | false =>
    cases type with
    | insertText => exact typed_accepted (.inl rfl)
    | insertReplacementText => exact typed_accepted (.inr rfl)
    | insertLineBreak =>
      exact iff_of_true (hkey "Enter" (by decide) (by decide)) (by simp [Event.Fits])
    | insertParagraph =>
      exact iff_of_true (hkey "Enter" (by decide) (by decide)) (by simp [Event.Fits])
    | deleteContentBackward =>
      exact iff_of_true (hkey "Backspace" (by decide) (by decide)) (by simp [Event.Fits])
    | deleteContentForward =>
      exact iff_of_true (hkey "Delete" (by decide) (by decide)) (by simp [Event.Fits])
    | other => exact iff_of_true (by simp [inputMessage]) (by simp [Event.Fits])

/-- **One event**: the session takes its messages exactly if it fits. -/
theorem on_accepted (h : t.HeldOk) (e : Event) : (∀ m ∈ (t.on e).2, m.Accepted) ↔ e.Fits := by
  cases e with
  | paste text => exact paste_accepted
  | keydown e => exact keydown_accepted t e
  | keyup e => exact iff_of_true (keyup_accepted h e) trivial
  | releaseAll => exact iff_of_true (releaseAll_accepted h) trivial
  | input type data isComposing => exact input_accepted type data isComposing

/-- Behind an event that fits, the keys that are held have names that the session takes. -/
theorem KeyTracker.HeldOk.on (h : t.HeldOk) {e : Event} (hfits : e.Fits) : (t.on e).1.HeldOk := by
  cases e with
  | paste text => exact h
  | input type data isComposing => exact h
  | releaseAll =>
    intro place held hget
    cases hget
  | keyup e =>
    simp only [KeyTracker.on, KeyTracker.keyup]
    split
    · intro place held hget
      rw [Dict.get_pop] at hget
      split at hget
      · cases hget
      · exact h place held hget
    · exact h
  | keydown e =>
    unfold Event.Fits at hfits
    simp only [KeyTracker.on, KeyTracker.keydown]
    cases hkind : classifyKey e with
    | named k =>
      simp only [hkind] at hfits
      by_cases hrepeated : e.repeated = true
      · simp only [if_pos hrepeated]
        exact h
      · simp only [if_neg hrepeated]
        intro place held hget
        rw [Dict.get_put] at hget
        split at hget
        · cases hget
          exact hfits (by simpa using hrepeated)
        · exact h place held hget
    | press k => exact h
    | text s => exact h
    | ignore => exact h
    | paste => exact h

theorem accepted_from (h : t.HeldOk) (es : List Event) :
    (∀ m ∈ t.messages es, m.Accepted) ↔ ∀ e ∈ es, e.Fits := by
  induction es generalizing t with
  | nil => simp [KeyTracker.messages]
  | cons e es ih =>
    rw [KeyTracker.messages, List.forall_mem_append, on_accepted h, List.forall_mem_cons]
    exact and_congr_right fun hfits => ih (h.on hfits)

/-- **The session takes all messages** of a sequence of events exactly if every event fits. -/
theorem messages_accepted (es : List Event) :
    (∀ m ∈ ({ held := .empty } : KeyTracker).messages es, m.Accepted) ↔ ∀ e ∈ es, e.Fits := by
  refine accepted_from (fun place held hget => ?_) es
  cases hget

/-- A text of control characters that is one piece, and has more JSON than a message may. -/
theorem controls_refused : ∃ text : List Char, '\x00' ∉ text ∧ text.length = 60000 ∧
    ∃ m ∈ ({ held := .empty } : KeyTracker).messages [.paste text], maxMessage < m.jsonLength := by
  have hunits : ∀ n, (encode (List.replicate n '\x01')).length = n := by
    intro n
    induction n with
    | zero => rfl
    | succ n ih =>
      rw [List.replicate_succ, encode_cons, List.length_append, ih]
      exact Nat.add_comm 1 n
  have hescaped : ∀ n, escaped (List.replicate n '\x01') = 6 * n := by
    intro n
    induction n with
    | zero => rfl
    | succ n ih =>
      unfold escaped at ih ⊢
      rw [List.replicate_succ, List.map_cons, List.sum_cons, ih]
      exact Nat.add_comm 6 (6 * n)
  have hlong : ∀ text : List Char, text ≠ [] → (encode text).length ≤ maxPiece →
      .text (.ofText text) ∈ ({ held := .empty } : KeyTracker).messages [.paste text] := by
    intro text hne hfits
    obtain ⟨pieces, hcut, hpieces⟩ := chunkText_encode maxPiece text
    have hone : Cut maxPiece (text ++ []) [text] := .cons hne hfits (by simp) .nil
    rw [List.append_nil] at hone
    rw [hcut.unique hone] at hpieces
    simp [KeyTracker.messages, KeyTracker.on, pasteMessages, hpieces]
  refine ⟨.replicate 60000 '\x01', ?_, List.length_replicate, _, hlong _ ?_ ?_, ?_⟩
  · rw [List.mem_replicate]
    decide
  · rw [Ne, List.replicate_eq_nil_iff]
    decide
  · rw [hunits]
    decide
  · rw [jsonLength_text, hescaped]
    decide

end Keyboard

end AndroidAppliance
