import AndroidAppliance.Session.Keys
import AndroidAppliance.Text.Code
import AndroidAppliance.Transition.Dict

/-!
# Keys of the dashboard

`web/js/keys.js`: what a key event of the browser becomes (`classifyKey`), the keys that are
down (`KeyTracker`), and the events of a keyboard that sends no keys (`inputMessage`).
-/

namespace AndroidAppliance

namespace Keyboard

open Session (KeyAction)
open Text (Code Codes)

/-- A string of the source. -/
def lit (s : String) : Codes := Codes.ofText s.toList

/-- `KeyboardEvent`, as far as it is read. -/
structure KeyboardEvent where
  key : Codes
  code : Codes
  keyCode : Nat
  ctrlKey : Bool
  metaKey : Bool
  altKey : Bool
  isComposing : Bool
  /-- `repeat`. -/
  repeated : Bool
  deriving DecidableEq, Repr

/-- `IGNORED`. -/
def ignored : List Codes := Session.droppedKeys.map lit

/-- `isAscii` of a single character. -/
def isAscii : Code → Bool
  | .char c => ' ' ≤ c && c ≤ '~'
  | .lone _ => false

/-- The `kind` of a keydown, with what goes with it. -/
inductive Kind
  | ignore
  | paste
  | press (key : Codes)
  | text (text : Codes)
  | named (key : Codes)
  deriving DecidableEq, Repr

/-- `classifyKey`; only `v` and `V` are `v` in lower case. -/
def classifyKey (e : KeyboardEvent) : Kind :=
  if e.isComposing = true ∨ e.keyCode = 229 ∨ e.key ∈ ignored then .ignore
  else if (e.ctrlKey || e.metaKey) && !e.altKey && (e.key = lit "v" || e.key = lit "V") then .paste
  else match e.key with
    | [c] =>
      if isAscii c then .press e.key
      else if e.metaKey || (e.ctrlKey && !e.altKey) then .ignore
      else .text e.key
    | _ => .named e.key

/-- A message of the keyboard. -/
inductive Message
  | key (key code : Codes) (action : KeyAction)
  | text (text : Codes)
  deriving DecidableEq, Repr

/-- `KeyTracker`: the keys that are down, by their `code`. -/
structure KeyTracker where
  held : Dict Codes (Codes × Codes)
  deriving DecidableEq, Repr

namespace KeyTracker

/-- `event.code || event.key`. -/
def codeOf (e : KeyboardEvent) : Codes := if e.code = [] then e.key else e.code

/-- `keydown`, with its messages. -/
def keydown (t : KeyTracker) (e : KeyboardEvent) : KeyTracker × List Message :=
  match classifyKey e with
  | .press key => (t, [.key key e.code .press])
  | .text text => (t, [.text text])
  | .named key =>
    if e.repeated then (t, [])
    else ({ held := t.held.put (codeOf e) (key, e.code) }, [.key key e.code .down])
  | .ignore | .paste => (t, [])

/-- `keyup`, with its messages. -/
def keyup (t : KeyTracker) (e : KeyboardEvent) : KeyTracker × List Message :=
  match t.held.get (codeOf e) with
  | some (key, code) => ({ held := t.held.pop (codeOf e) }, [.key key code .up])
  | none => (t, [])

/-- `releaseAll`. -/
def releaseAll (t : KeyTracker) : KeyTracker × List Message :=
  ({ held := .empty }, t.held.values.map fun h => .key h.1 h.2 .up)

end KeyTracker

/-- The `inputType` of a `beforeinput` event. -/
inductive InputType
  | insertText
  | insertReplacementText
  | insertLineBreak
  | insertParagraph
  | deleteContentBackward
  | deleteContentForward
  | other
  deriving DecidableEq, Repr

/-- `inputMessage`; `data` is `null` or a string. -/
def inputMessage (type : InputType) (data : Option Codes) (isComposing : Bool) : Option Message :=
  if isComposing then none
  else match type with
    | .insertText | .insertReplacementText =>
      match data with
      | none | some [] => none
      | some data => some (.text data)
    | .insertLineBreak | .insertParagraph => some (.key (lit "Enter") (lit "Enter") .press)
    | .deleteContentBackward => some (.key (lit "Backspace") (lit "Backspace") .press)
    | .deleteContentForward => some (.key (lit "Delete") (lit "Delete") .press)
    | .other => none

/-! ### What is classified -/

variable {e : KeyboardEvent} {k : Codes}

/-- A key that is pressed is one character of printable ASCII. -/
theorem classifyKey_press (h : classifyKey e = .press k) :
    ∃ c : Char, k = [.char c] ∧ ' ' ≤ c ∧ c ≤ '~' := by
  unfold classifyKey at h
  split at h
  · cases h
  · split at h
    · cases h
    · split at h
      · rename_i c hkey
        split at h
        · rename_i hascii
          cases h
          cases c with
          | lone half => cases hascii
          | char c =>
            simp only [isAscii, Bool.and_eq_true, decide_eq_true_eq] at hascii
            exact ⟨c, hkey, hascii⟩
        · split at h <;> cases h
      · cases h

/-- A key that is tracked is no single character, and is not ignored. -/
theorem classifyKey_named (h : classifyKey e = .named k) : k.length ≠ 1 ∧ k ∉ ignored := by
  unfold classifyKey at h
  split at h
  · cases h
  · rename_i hignored
    split at h
    · cases h
    · split at h
      · split at h
        · cases h
        · split at h <;> cases h
      · rename_i hkey
        cases h
        refine ⟨fun hlen => ?_, fun hmem => hignored (.inr (.inr hmem))⟩
        obtain ⟨c, hc⟩ := List.length_eq_one_iff.mp hlen
        exact hkey c hc

/-- A text is one character that is not printable ASCII. -/
theorem classifyKey_text (h : classifyKey e = .text k) : ∃ c, k = [c] := by
  unfold classifyKey at h
  split at h
  · cases h
  · split at h
    · cases h
    · split at h
      · rename_i c hkey
        split at h
        · cases h
        · split at h
          · cases h
          · cases h
            exact ⟨c, hkey⟩
      · cases h

end Keyboard

end AndroidAppliance
