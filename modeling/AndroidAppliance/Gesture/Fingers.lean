import AndroidAppliance.Gesture.Screen
import AndroidAppliance.Gesture.Table
import AndroidAppliance.Input.Basic

/-!
# From a finger on the display to a contact in the emulator

The messages of a `TouchTable` in a `Session`: `_touch` of `appliance/session.py` gives them to
`Pointers`, and what that returns goes to the emulator. The machine `handMachine` runs the
calls of the table in any order, between gestures of others.

The two tables know a finger by different numbers. They stay in step because the ids of the
browser are 1 to 10: the contacts of the daemon are among ten keys at all times, so its own
limit never refuses one. With what `Screen` says about the emulator, each finger of the
table is one contact that is pressed there (`fingers_followed`).
-/

namespace AndroidAppliance

namespace Gesture

open Input (TouchId)

/-! ### `Pointers` by their keys -/

section

variable {κ : Type} [DecidableEq κ] {p : Pointers κ} {next : Nat}

/-- Where the contact with the key is. -/
def Pointers.view (p : Pointers κ) (k : κ) : Option (ℚ × ℚ) :=
  (p.contacts.get k).map fun c => (c.x, c.y)

theorem Pointers.view_of_put {c : Contact} {k : κ} :
    ({ p with contacts := p.contacts.put k c } : Pointers κ).view =
      Function.update p.view k (some (c.x, c.y)) := by
  funext k'
  by_cases hk : k' = k
  · subst hk
    rw [Function.update_self, view, Dict.get_put_self]
    rfl
  · rw [Function.update_of_ne hk, view, Dict.get_put_of_ne hk]
    rfl

/-- A point sets the place of its contact, where there is room for it. -/
theorem Pointers.point_view {t : Point κ}
    (hroom : p.contacts.get t.key = none → p.contacts.size < maxContacts) :
    (p.point next t).1.view = Function.update p.view t.key t.placed := by
  unfold point Point.placed
  split
  · rename_i hnone
    split
    · have hview : p.view t.key = none := by
        rw [view, hnone]
        rfl
      rw [← hview, Function.update_eq_self]
    · rw [if_neg (not_le.mpr (hroom hnone))]
      exact view_of_put
  · split
    · funext k
      by_cases hk : k = t.key
      · subst hk
        rw [Function.update_self, view, Dict.get_pop, if_pos rfl]
        rfl
      · rw [Function.update_of_ne hk, view, Dict.get_pop, if_neg hk]
        rfl
    · exact view_of_put

/-- Points with keys among `MAX_CONTACTS` keys, as those that are stored, find room. -/
theorem Pointers.touches_view {keys : List κ} (hkeys : keys.length ≤ maxContacts)
    {points : List (Point κ)} (hpoints : ∀ t ∈ points, t.key ∈ keys)
    (hstored : ∀ k, p.view k ≠ none → k ∈ keys) :
    (p.touches next points).1.view =
      points.foldl (fun v t => Function.update v t.key t.placed) p.view := by
  induction points generalizing p next with
  | nil => rfl
  | cons t points ih =>
    have hroom : p.contacts.get t.key = none → p.contacts.size < maxContacts := by
      intro hnone
      -- if there were no room, more keys were stored than there are
      have hnodup : (t.key :: p.contacts.entries.map Prod.fst).Nodup :=
        List.nodup_cons.mpr ⟨Dict.get_eq_none.mp hnone, p.contacts.nodup⟩
      have hsub : t.key :: p.contacts.entries.map Prod.fst ⊆ keys := by
        intro k hk
        rcases List.mem_cons.mp hk with rfl | hk
        · exact hpoints t List.mem_cons_self
        · obtain ⟨c, hc⟩ := Option.isSome_iff_exists.mp (Dict.has_iff.mpr hk)
          refine hstored k ?_
          rw [view, hc]
          exact nofun
      have hlen := (hnodup.subperm hsub).length_le
      rw [List.length_cons, List.length_map] at hlen
      have hsize : p.contacts.size = p.contacts.entries.length := rfl
      omega
    have hpoint : (p.point next t).1.view = Function.update p.view t.key t.placed :=
      point_view hroom
    rw [touches, List.foldl_cons, ← hpoint]
    refine ih (fun t' ht' => hpoints t' (List.mem_cons_of_mem _ ht')) fun k hk => ?_
    rw [hpoint] at hk
    by_cases hkey : k = t.key
    · rw [hkey]
      exact hpoints t List.mem_cons_self
    · rw [Function.update_of_ne hkey] at hk
      exact hstored k hk

end

/-! ### `appliance/session.py` -/

/-- `MAX_TOUCHES`. -/
def maxTouches : Nat := maxContacts

/-- A point of the browser: its id is a number. -/
def Point.numbered (t : Point Nat) : Point TouchId := ⟨.number t.key, t.x, t.y, t.pressure⟩

/-- The checks of `_touch`; a number of the browser is an id and coordinates that they let
through. -/
def touchPoints (raw : Touches) : Except String (List (Point TouchId)) :=
  if maxTouches < raw.length then
    .error s!"'touches' must be a list of up to {maxTouches} objects"
  else .ok (raw.map Point.numbered)

/-- The key of the mouse. -/
def mouseKey : TouchId := .text "mouse"

/-- `_touch`, while Android runs. -/
def Screen.touch (s : Screen TouchId) (raw : Touches) : Screen TouchId :=
  match touchPoints raw with
  | .ok points => s.call mouseKey (.touches points)
  | .error _ => s

/-! ### The fingers and the emulator -/

/-- The fingers of a browser, and a session with the emulator. -/
structure Hand (π : Type) where
  table : TouchTable π
  screen : Screen TouchId
  deriving DecidableEq, Repr

/-- What the fingers of a client do, and the other gestures. -/
inductive Move (π : Type)
  | down (q : π) (x y pressure : ℚ)
  /-- `move`, and `snapshot` after it. -/
  | move (q : π) (x y pressure : ℚ)
  | up (q : π) (x y : Option ℚ)
  | releaseAll
  /-- Another gesture takes an identifier. -/
  | gesture
  deriving DecidableEq, Repr

namespace Hand

variable {π : Type} [DecidableEq π]

/-- The session gets the message. -/
def deliver (w : Hand π) (r : TouchTable π × Option Touches) : Hand π where
  table := r.1
  screen := r.2.elim w.screen w.screen.touch

/-- One move. -/
def step (w : Hand π) : Move π → Hand π
  | .down q x y pressure => w.deliver (w.table.down q x y pressure)
  | .move q x y pressure =>
    let t := (w.table.move q x y pressure).1
    w.deliver (t, t.snapshot)
  | .up q x y => w.deliver (w.table.up q x y)
  | .releaseAll => w.deliver w.table.releaseAll
  | .gesture => { w with screen := w.screen.call mouseKey .gesture }

/-- What the events of a browser are: a pointer that goes down was up, and a pressure is what
`touchPressure` gives. -/
def Proper (w : Hand π) : Move π → Prop
  | .down q _ _ pressure => w.table.contacts.get q = none ∧ 0 < pressure ∧ pressure ≤ 1
  | .move _ _ _ pressure => 0 < pressure ∧ pressure ≤ 1
  | .up _ _ _ | .releaseAll | .gesture => True

instance (w : Hand π) (m : Move π) : Decidable (w.Proper m) := by
  unfold Proper
  cases m <;> infer_instance

/-- The identifier that a finger of the table has in the emulator. -/
def identifier (w : Hand π) (q : π) : Option Nat :=
  (w.table.contacts.get q).bind fun f =>
    (w.screen.pointers.contacts.get (.number f.id)).map Contact.identifier

end Hand

/-- The calls of a `TouchTable`, with a session that gets its messages. -/
def handMachine (π : Type) [DecidableEq π] : Machine (Hand π) (Move π) where
  Init w := w.table = ⟨.empty⟩ ∧ ∃ next, w.screen = .fresh next
  step w m := some (w.step m)

namespace Hand

variable {π : Type} [DecidableEq π] {w : Hand π} {m : Move π}

/-- The contacts of the session are those of the table, by their ids. -/
structure Ok (w : Hand π) : Prop where
  table : w.table.Ok
  screen : w.screen.Ok
  number : ∀ n : Nat, w.screen.pointers.view (.number n) = w.table.view n
  only : ∀ k, w.screen.pointers.view k ≠ none → ∃ n ∈ List.range' 1 maxContacts, k = .number n
  earlier : w.screen.earlier = []

/-- The keys that a contact can have. -/
def keys : List TouchId := (List.range' 1 maxContacts).map fun n : Nat => .number n

theorem foldl_number (raw : Touches) (v : TouchId → Option (ℚ × ℚ)) (n : Nat) :
    (raw.map Point.numbered).foldl
      (fun v t => Function.update v t.key t.placed) v (.number n) =
    TouchTable.delivered (fun n => v (.number n)) raw n := by
  induction raw generalizing v with
  | nil => rfl
  | cons t raw ih =>
    rw [List.map_cons, List.foldl_cons, ih]
    refine congrFun (congrArg (TouchTable.delivered · raw) (funext fun i => ?_)) n
    change Function.update v (.number t.key) t.placed (.number i) =
      Function.update (fun n : Nat => v (.number n)) t.key t.placed i
    by_cases hi : i = t.key
    · subst hi
      rw [Function.update_self, Function.update_self]
    · rw [Function.update_of_ne hi, Function.update_of_ne]
      intro heq
      injection heq with heq
      exact hi (Int.ofNat.inj heq)

theorem foldl_other {raw : Touches} {v : TouchId → Option (ℚ × ℚ)} {k : TouchId}
    (h : (raw.map Point.numbered).foldl
      (fun v t => Function.update v t.key t.placed) v k ≠ none) :
    v k ≠ none ∨ ∃ n ∈ raw.map Point.key, k = .number n := by
  induction raw generalizing v with
  | nil => exact .inl h
  | cons t raw ih =>
    rcases ih h with hv | ⟨n, hn, hk⟩
    · by_cases hk : k = .number t.key
      · exact .inr ⟨t.key, List.mem_cons_self, hk⟩
      · exact .inl fun hnone => hv ((Function.update_of_ne hk _ _).trans hnone)
    · exact .inr ⟨n, List.mem_cons_of_mem _ hn, hk⟩

/-- **A message** of the table brings the session to what the table says. -/
theorem Ok.touch (h : w.Ok) {t : TouchTable π} (ht : t.Ok) {raw : Touches}
    (hsaid : t.Says w.table.view raw) :
    ({ table := t, screen := w.screen.touch raw } : Hand π).Ok := by
  have hlen : ¬maxTouches < raw.length := Nat.not_lt.mpr hsaid.length_le
  have htouch : w.screen.touch raw = w.screen.call mouseKey
      (.touches (raw.map Point.numbered)) := by
    unfold Screen.touch touchPoints
    rw [if_neg hlen]
  have hview : (w.screen.touch raw).pointers.view =
      (raw.map Point.numbered).foldl
        (fun v t => Function.update v t.key t.placed) w.screen.pointers.view := by
    rw [htouch]
    -- the numbers of the table are as many as the contacts of the session
    have hkeys : keys.length ≤ maxContacts := by
      rw [keys, List.length_map, List.length_range']
    refine Pointers.touches_view hkeys (fun p hp => ?_) fun k hk => ?_
    · obtain ⟨t, ht, rfl⟩ := List.mem_map.mp hp
      exact List.mem_map.mpr ⟨t.key, hsaid.range _ (List.mem_map_of_mem ht), rfl⟩
    · obtain ⟨n, hn, rfl⟩ := h.only k hk
      exact List.mem_map.mpr ⟨n, hn, rfl⟩
  refine ⟨ht, ?_, fun n => ?_, fun k hk => ?_, ?_⟩
  · rw [htouch]
    exact h.screen.call _
  · rw [hview, foldl_number, ← hsaid.view]
    exact congrFun (congrArg (TouchTable.delivered · raw) (funext h.number)) n
  · rw [hview] at hk
    rcases foldl_other hk with hold | ⟨n, hn, rfl⟩
    · exact h.only k hold
    · exact ⟨n, hsaid.range n hn, rfl⟩
  · rw [htouch]
    exact h.earlier

theorem Ok.deliver (h : w.Ok) {r : TouchTable π × Option Touches} (ht : r.1.Ok)
    (htells : w.table.Tells r.1 r.2) : (w.deliver r).Ok := by
  obtain ⟨t, message⟩ := r
  cases message with
  | none => exact ⟨ht, h.screen, fun n => (h.number n).trans (congrFun htells n).symm, h.only,
      h.earlier⟩
  | some raw => exact h.touch ht htells

/-- **One call** of the table keeps the session in step. -/
theorem Ok.step (h : w.Ok) (hproper : w.Proper m) : (w.step m).Ok := by
  cases m with
  | down q x y pressure =>
    obtain ⟨hq, hpressure, -⟩ := hproper
    exact h.deliver (h.table.down hpressure q x y) (h.table.tells_down hpressure hq x y)
  | move q x y pressure =>
    exact h.deliver (h.table.move hproper.1 q x y) (h.table.tells_move hproper.1 q x y)
  | up q x y => exact h.deliver (h.table.up q x y) (h.table.tells_up q x y)
  | releaseAll => exact h.deliver h.table.releaseAll h.table.tells_releaseAll
  | gesture =>
    have hscreen : (w.screen.call mouseKey .gesture).Ok := h.screen.call _
    exact ⟨h.table, hscreen, h.number, h.only, h.earlier⟩

/-! ### The contacts that are pressed -/

/-- Each finger of the table is a contact of its own in the emulator, and no other is there. -/
structure Followed (w : Hand π) : Prop where
  /-- A finger is pressed where the table has it. -/
  pressed : ∀ q f, w.table.contacts.get q = some f →
    ∃ i, w.identifier q = some i ∧ pressedAt w.screen.log i = some (clamp f.x f.y)
  distinct : ∀ q q' i, w.identifier q = some i → w.identifier q' = some i → q = q'
  only : ∀ i, (pressedAt w.screen.log i).isSome = true → ∃ q, w.identifier q = some i
  /-- A contact that begins has an identifier that no touch point before it has. -/
  fresh : Log.Each (BeginsFresh []) w.screen.log
  bounded : ∀ ids : List Nat, ids.Nodup →
    (∀ i ∈ ids, (pressedAt w.screen.log i).isSome = true) → ids.length ≤ maxContacts

theorem identifier_eq_some {q : π} {i : Nat} : w.identifier q = some i ↔
    ∃ f c, w.table.contacts.get q = some f ∧
      w.screen.pointers.contacts.get (.number f.id) = some c ∧ c.identifier = i := by
  unfold identifier
  rw [Option.bind_eq_some_iff]
  constructor
  · rintro ⟨f, hf, hmap⟩
    obtain ⟨c, hc, rfl⟩ := Option.map_eq_some_iff.mp hmap
    exact ⟨f, c, hf, hc, rfl⟩
  · rintro ⟨f, c, hf, hc, rfl⟩
    exact ⟨f, hf, Option.map_eq_some_iff.mpr ⟨c, hc, rfl⟩⟩

theorem Ok.followed (h : w.Ok) : w.Followed := by
  refine ⟨fun q f hf => ?_, fun q q' i hi hi' => ?_, fun i hi => ?_, ?_,
    fun ids hnodup hids => Tracks.length_le h.screen hnodup hids⟩
  · have hview : w.screen.pointers.view (.number f.id) = some (f.x, f.y) := by
      rw [h.number]
      exact h.table.view_eq_some.mpr ⟨q, f, hf, rfl, rfl⟩
    obtain ⟨c, hc, hplace⟩ := Option.map_eq_some_iff.mp hview
    refine ⟨c.identifier, identifier_eq_some.mpr ⟨f, c, hf, hc, rfl⟩, ?_⟩
    have hx : c.x = f.x := congrArg Prod.fst hplace
    have hy : c.y = f.y := congrArg Prod.snd hplace
    rw [Tracks.isSome_of_get h.screen hc, Contact.place, hx, hy]
  · obtain ⟨f, c, hf, hc, rfl⟩ := identifier_eq_some.mp hi
    obtain ⟨f', c', hf', hc', hid⟩ := identifier_eq_some.mp hi'
    have hkey := Tracks.distinct h.screen _ _ _ _ hc' hc hid
    injection hkey with hkey
    exact h.table.distinct q q' f f' hf hf' (Int.ofNat.inj hkey).symm
  · -- a pressed contact is stored, under a number, and the table has a finger there
    obtain ⟨place, hplace⟩ := Option.isSome_iff_exists.mp hi
    obtain ⟨k, c, hc, rfl, -⟩ := (Tracks.pressed h.screen i place).mp hplace
    have hview : w.screen.pointers.view k = some (c.x, c.y) := by
      rw [Pointers.view, hc]
      rfl
    obtain ⟨n, -, rfl⟩ := h.only k (by rw [hview]; exact nofun)
    rw [h.number] at hview
    obtain ⟨q, f, hf, rfl, -⟩ := h.table.view_eq_some.mp hview
    exact ⟨q, identifier_eq_some.mpr ⟨f, c, hf, hc, rfl⟩⟩
  · rw [← h.earlier]
    exact Tracks.fresh h.screen

end Hand

/-- **Every finger of the browser is a contact of its own in the emulator**, after each message
of every run of the calls of its table. -/
theorem fingers_followed {π : Type} [DecidableEq π] {w : Hand π}
    (h : (handMachine π).ReachBy Hand.Proper w) : w.Followed := by
  have hok : w.Ok := by
    refine h.invariant (fun w hw => ?_) fun w m w' hw hproper hstep => ?_
    · obtain ⟨htable, next, hscreen⟩ := hw
      refine ⟨?_, ?_, fun n => ?_, fun k hk => ?_, ?_⟩
      · rw [htable]
        exact .empty
      · rw [hscreen]
        exact Screen.ok_fresh next
      · rw [htable, hscreen]
        rfl
      · rw [hscreen] at hk
        exact absurd rfl hk
      · rw [hscreen]
        rfl
    · cases hstep
      exact hw.step hproper
  exact hok.followed

/-- The third finger gets the number that the second one had in the browser. -/
def pinchRun : List (Move Nat) :=
  [.down 41 10 20 (1 / 2), .down 42 30 40 1, .move 41 15 5000 (1 / 2), .up 42 none none,
    .down 43 50 60 1]

theorem fingers_followed_pinch : ∃ w : Hand Nat, (w.identifier 41 = some 1 ∧
    w.identifier 43 = some 3 ∧ pressedAt w.screen.log 1 = some ⟨15, 1919⟩) ∧ w.Followed := by
  obtain ⟨w, hrun, hpinch⟩ : ∃ w : Hand Nat,
      (handMachine Nat).run ⟨⟨.empty⟩, .fresh 1⟩ pinchRun = some w ∧
      (w.identifier 41 = some 1 ∧ w.identifier 43 = some 3 ∧
        pressedAt w.screen.log 1 = some ⟨15, 1919⟩) := ⟨_, rfl, by decide +kernel⟩
  have hproper : (handMachine Nat).RunOk Hand.Proper ⟨⟨.empty⟩, .fresh 1⟩ pinchRun := by
    decide +kernel
  exact ⟨w, hpinch, fingers_followed (.of_run (.init ⟨rfl, 1, rfl⟩) hproper hrun)⟩

end Gesture

end AndroidAppliance
