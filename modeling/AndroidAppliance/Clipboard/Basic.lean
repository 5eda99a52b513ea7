import AndroidAppliance.Transition.Machine

/-!
# Text entry

`Backend.text` of `appliance/backend.py` with `paste` and `type_keys` of `appliance/input.py`, and
`Session._paste` of `appliance/session.py`. The clipboard of the guest is global: one lock is
around each text entry, and nobody else uses the clipboard.

A label lets one operation go on, or cancels it where it waits. A call that is cancelled may have
taken effect before, take it later, or never. The calls for the clipboard succeed unless they are
cancelled; a key may fail, sent or not. What may not be cancelled: `clipboard_restored`.
-/

namespace AndroidAppliance

namespace Clipboard

/-! ### The keys method -/

/-- `ascii_keys`; the first character that has no key, if there is one. -/
def asciiKeys : List Char → Except Char (List String)
  | [] => .ok []
  | c :: text => do
    let key ←
      if c = '\n' then .ok "Enter"
      else if c = '\t' then .ok "Tab"
      else if ' ' ≤ c ∧ c ≤ '~' then .ok (String.singleton c)
      else .error c
    let keys ← asciiKeys text
    return key :: keys

/-- Why a text is refused. -/
inductive Refusal
  /-- "method must be paste or keys, not '{method}'" -/
  | method (method : String)
  /-- "the text is empty" -/
  | empty
  /-- "the keys method types only ASCII, not {c}; use the paste method" -/
  | ascii (c : Char)
  deriving DecidableEq, Repr

/-- The checks of `Backend.text`. -/
def check (text method : String) : Except Refusal Unit :=
  if method ≠ "paste" ∧ method ≠ "keys" then .error (.method method)
  else if text = "" then .error .empty
  else if method = "keys" then
    match asciiKeys text.toList with
    | .error c => .error (.ascii c)
    | .ok _ => .ok ()
  else .ok ()

/-! ### Operations -/

/-- How an operation ends. -/
inductive Outcome
  | done
  | refused (r : Refusal)
  /-- The lease is refused, with its code. -/
  | lifecycle (code : String)
  | keyFailed
  | cancelled
  deriving DecidableEq, Repr

/-- Where an operation waits. -/
inductive Pc
  /-- A session lets the modifiers of its client go: so many are left. -/
  | lettingGo (left : Nat)
  /-- `_use` waits for Android. -/
  | entering
  /-- `_text_lock`. -/
  | locking
  /-- `get_clipboard`. -/
  | saving
  /-- `set_clipboard` of the text. -/
  | setting (saved : String)
  /-- The sleep before the paste key. -/
  | settling (saved : String)
  /-- `send_key` of the paste key. -/
  | keying (saved : String)
  /-- The sleep after it. -/
  | resting (saved : String)
  /-- `set_clipboard` of what was saved, and how the rest ended. -/
  | restoring (saved : String) (r : Outcome)
  /-- `type_keys`, with the keys that are left. -/
  | typing (left : List String)
  /-- The session presses the modifiers again. -/
  | pressing (left : Nat) (r : Outcome)
  | ended (r : Outcome)
  deriving DecidableEq, Repr

/-- The operation has the lock. -/
def Pc.inLock : Pc → Bool
  | saving | setting _ | settling _ | keying _ | resting _ | restoring .. | typing _ => true
  | lettingGo _ | entering | locking | pressing .. | ended _ => false

/-- A text entry. -/
structure Op where
  text : String
  method : String
  /-- The modifiers that the client of the session holds; none for the API. -/
  modifiers : Nat
  pc : Pc
  deriving DecidableEq, Repr

namespace Op

/-- The end of `Backend.text`, or of what is before it: a session presses its modifiers. -/
def leave (op : Op) (r : Outcome) : Pc :=
  if op.modifiers = 0 then .ended r else .pressing op.modifiers r

/-- `Backend.text`, up to its first await. -/
def enter (op : Op) : Pc :=
  match check op.text op.method with
  | .error r => op.leave (.refused r)
  | .ok () => .entering

/-- Behind the lock. -/
def start (op : Op) : Pc :=
  if op.method = "paste" then .saving
  else .typing (match asciiKeys op.text.toList with
    | .ok keys => keys
    | .error _ => [])

end Op

/-! ### The guest and its operations -/

/-- A paste key that reached the guest, with the clipboard at that moment. -/
structure Pasted where
  text : String
  clipboard : String
  deriving DecidableEq, Repr

/-- What becomes of a call that is cancelled. -/
inductive Fate
  | never
  | done
  | late
  deriving DecidableEq, Repr

/-- The clipboard of the guest and the operations. -/
structure World where
  clipboard : String
  /-- The clipboard before the first operation. -/
  before : String
  /-- Who has `_text_lock`. -/
  holder : Option Nat
  ops : List Op
  /-- Calls of `set_clipboard` that were cancelled and will still take effect. -/
  late : List String
  pasted : List Pasted
  deriving DecidableEq, Repr

/-- The labels; `i` is an operation. -/
inductive Event
  | begin (text method : String) (modifiers : Nat)
  /-- A modifier is let go or pressed; `_send_key` of a session raises no error. -/
  | modifier (i : Nat)
  /-- `_use` has its lease, or the lease raises. -/
  | entered (i : Nat) (error : Option String)
  | acquire (i : Nat)
  /-- A call or a sleep ends. -/
  | next (i : Nat)
  /-- `send_key` raises, after it sent the key or before. -/
  | keyFails (i : Nat) (sent : Bool)
  /-- The operation is cancelled where it waits; `sent` says whether a key was sent. -/
  | cancel (i : Nat) (fate : Fate) (sent : Bool)
  /-- A call that was cancelled takes effect. -/
  | land (k : Nat)
  deriving DecidableEq, Repr

namespace World

/-- An operation goes on to another place. -/
def go (w : World) (i : Nat) (pc : Pc) : World :=
  { w with ops := w.ops.modify i fun op => { op with pc } }

/-- An operation leaves the lock. -/
def release (w : World) (i : Nat) (op : Op) (r : Outcome) : World :=
  { w with holder := none }.go i (op.leave r)

/-- The paste key reaches the guest, if it was sent. -/
def key (w : World) (op : Op) (sent : Bool) : World :=
  if sent then { w with pasted := w.pasted ++ [{ text := op.text, clipboard := w.clipboard }] }
  else w

/-- A call of `set_clipboard` is cancelled. -/
def cut (w : World) (text : String) : Fate → World
  | .never => w
  | .done => { w with clipboard := text }
  | .late => { w with late := w.late ++ [text] }

/-- What an operation waits for has come. -/
def next (w : World) (i : Nat) (op : Op) : Option World :=
  match op.pc with
  | .saving => some (w.go i (.setting w.clipboard))
  | .setting saved => some ({ w with clipboard := op.text }.go i (.settling saved))
  | .settling saved => some (w.go i (.keying saved))
  | .keying saved => some ((w.key op true).go i (.resting saved))
  | .resting saved => some (w.go i (.restoring saved .done))
  | .restoring saved r => some ({ w with clipboard := saved }.release i op r)
  | .typing [] => some (w.release i op .done)
  | .typing (_ :: left) => some (w.go i (.typing left))
  | .lettingGo _ | .entering | .locking | .pressing .. | .ended _ => none

/-- A key fails. -/
def keyFails (w : World) (i : Nat) (op : Op) (sent : Bool) : Option World :=
  match op.pc with
  | .keying saved => some ((w.key op sent).go i (.restoring saved .keyFailed))
  | .typing (_ :: _) => some (w.release i op .keyFailed)
  | _ => none

/-- An operation is cancelled. -/
def cancel (w : World) (i : Nat) (op : Op) (fate : Fate) (sent : Bool) : Option World :=
  match op.pc with
  | .lettingGo _ | .entering | .locking => some (w.go i (op.leave .cancelled))
  | .saving | .typing _ => some (w.release i op .cancelled)
  -- the call is before the `try`
  | .setting _ => some ((w.cut op.text fate).release i op .cancelled)
  | .settling saved | .resting saved => some (w.go i (.restoring saved .cancelled))
  | .keying saved => some ((w.key op sent).go i (.restoring saved .cancelled))
  | .restoring saved _ => some ((w.cut saved fate).release i op .cancelled)
  | .pressing .. => some (w.go i (.ended .cancelled))
  | .ended _ => none

/-- One step. -/
def step (w : World) : Event → Option World
  | .begin text method modifiers =>
    let op : Op := { text, method, modifiers, pc := .lettingGo modifiers }
    some { w with ops := w.ops ++ [if modifiers = 0 then { op with pc := op.enter } else op] }
  | .modifier i => do
    let op ← w.ops[i]?
    match op.pc with
    | .lettingGo left => some (w.go i (if left ≤ 1 then op.enter else .lettingGo (left - 1)))
    | .pressing left r => some (w.go i (if left ≤ 1 then .ended r else .pressing (left - 1) r))
    | _ => none
  | .entered i error => do
    let op ← w.ops[i]?
    if op.pc = .entering then
      match error with
      | some code => some (w.go i (op.leave (.lifecycle code)))
      | none => some (w.go i .locking)
    else none
  | .acquire i => do
    let op ← w.ops[i]?
    if op.pc = .locking ∧ w.holder = none then some ({ w with holder := some i }.go i op.start)
    else none
  | .next i => do
    let op ← w.ops[i]?
    w.next i op
  | .keyFails i sent => do
    let op ← w.ops[i]?
    w.keyFails i op sent
  | .cancel i fate sent => do
    let op ← w.ops[i]?
    w.cancel i op fate sent
  | .land k => do
    let text ← w.late[k]?
    some { w with clipboard := text, late := w.late.eraseIdx k }

end World

/-- The machine of the text entries. -/
def textMachine : Machine World Event where
  Init w := w.clipboard = w.before ∧ w.holder = none ∧ w.ops = [] ∧ w.late = [] ∧ w.pasted = []
  step := World.step

/-! ### What a text entry is to do -/

namespace World

/-- Each paste key found the text of its operation, one operation at a time uses the clipboard,
and behind all of them it is as before. -/
structure Tidy (w : World) : Prop where
  pasted : ∀ p ∈ w.pasted, p.clipboard = p.text
  exclusive : ∀ (i j : Nat) (op op' : Op), w.ops[i]? = some op → w.ops[j]? = some op' →
    op.pc.inLock = true → op'.pc.inLock = true → i = j
  restored : (∀ op ∈ w.ops, ∃ r, op.pc = .ended r) → w.clipboard = w.before

/-- No cancellation cuts off a call of `set_clipboard`: the one of the text, unless it never takes
effect, or the one that restores, unless it did. Where both texts are the same, it is only not
to take effect later. -/
def Safe (w : World) : Event → Prop
  | .cancel i fate _ => ∀ op, w.ops[i]? = some op →
      (∀ saved, op.pc = .setting saved → fate = .never ∨ fate = .done ∧ op.text = saved) ∧
      ∀ saved r, op.pc = .restoring saved r → fate = .done ∨ fate = .never ∧ op.text = saved
  | _ => True

end World

end Clipboard

end AndroidAppliance
