import AndroidAppliance.Gesture.Pointers
import AndroidAppliance.Transition.Machine

/-!
# `Pointers` and the emulator

The machine `screenMachine` runs the calls of a `Pointers` in any order, and keeps what the
emulator got. What is pressed there is what is stored, and `release` lifts just that
(`pointers_simulated`).

`release` and `forget` also take the right button for up. So a button that stays down over
one of them is reported as Back a second time (`back_repeated`); a report for each change is
what there is when these two count as letting the button up.
-/

namespace AndroidAppliance

namespace Gesture

/-! ### The calls -/

/-- A `Pointers` beside the emulator that gets its events. -/
structure Screen (κ : Type) where
  pointers : Pointers κ
  /-- The next identifier of the input stream. -/
  next : Nat
  /-- What the emulator got before the contacts were last forgotten. -/
  earlier : List Touch
  /-- What it got since. -/
  log : List Touch
  /-- How often `mouse` reported Back. -/
  backs : Nat
  deriving DecidableEq, Repr

/-- What the session asks of the pointers. -/
inductive Call (κ : Type)
  | touches (points : List (Point κ))
  | mouse (x y : ℚ) (buttons : ℤ)
  | release
  /-- `forget`; `gone` says that another emulator, with another input stream, follows. -/
  | forget (gone : Bool)
  /-- Another gesture takes an identifier. -/
  | gesture
  deriving DecidableEq, Repr

variable {κ : Type} [DecidableEq κ]

namespace Screen

/-- No contact yet. -/
def fresh (next : Nat) : Screen κ :=
  { pointers := .forget, next, earlier := [], log := [], backs := 0 }

/-- The result of a call of `touches` is sent. -/
def send (s : Screen κ) (r : Pointers κ × Nat × List Touch) : Screen κ :=
  { s with pointers := r.1, next := r.2.1, log := s.log ++ r.2.2 }

/-- One call; what it sends goes to the emulator. -/
def call (mouse : κ) (s : Screen κ) : Call κ → Screen κ
  | .touches points => s.send (s.pointers.touches s.next points)
  | .mouse x y buttons =>
    let r := s.pointers.mouse mouse s.next x y buttons
    { s.send r.1 with backs := s.backs + r.2.toNat }
  | .release => { s with pointers := .forget, log := s.log ++ s.pointers.lifts }
  | .forget gone =>
    { s with pointers := .forget, log := [], next := if gone then 1 else s.next,
             earlier := if gone then [] else s.earlier ++ s.log }
  | .gesture => { s with next := s.next + 1 }

end Screen

/-- The calls of a `Pointers` in any order; `mouse` is the key of the mouse. -/
def screenMachine (mouse : κ) : Machine (Screen κ) (Call κ) where
  Init s := ∃ next, s = Screen.fresh next
  step s c := some (s.call mouse c)

/-! ### What is pressed -/

variable {p : Pointers κ} {next : Nat} {earlier log : List Touch} {mouse : κ} {s : Screen κ}

theorem Pointers.mem_lifts {t : Touch} : t ∈ p.lifts ↔
    ∃ k c, p.contacts.get k = some c ∧ t = contact c.identifier c.x c.y 0 := by
  unfold Pointers.lifts
  simp only [Dict.mem_map_values, eq_comm]

/-- No contact is lifted twice. -/
theorem Tracks.lifts_nodup (h : Tracks p next earlier log) :
    (p.lifts.map Touch.identifier).Nodup := by
  have hids : p.lifts.map Touch.identifier = p.contacts.values.map Contact.identifier := by
    rw [Pointers.lifts, List.map_map]
    rfl
  rw [hids]
  exact Dict.nodup_map_values h.distinct

/-- The contacts that are pressed are those that `release` lifts, where they are. -/
theorem Tracks.mem_lifts (h : Tracks p next earlier log) {t : Touch} : t ∈ p.lifts ↔
    ∃ i place, pressedAt log i = some place ∧
      t = { place := place, identifier := i, pressure := 0 } := by
  rw [Pointers.mem_lifts]
  constructor
  · rintro ⟨k, c, hc, rfl⟩
    exact ⟨c.identifier, c.place, h.isSome_of_get hc, rfl⟩
  · rintro ⟨i, place, hplace, rfl⟩
    obtain ⟨k, c, hc, rfl, rfl⟩ := (h.pressed i place).mp hplace
    exact ⟨k, c, hc, rfl⟩

theorem Tracks.pressed_lifts (h : Tracks p next earlier log) (i : Nat) :
    pressedAt (log ++ p.lifts) i = none := by
  unfold pressedAt
  rw [List.map_append, Registers.read_append_clears]
  · split
    · rfl
    · rename_i hnone
      cases hplace : pressedAt log i with
      | none => exact hplace
      | some place =>
        refine absurd ⟨_, List.mem_map_of_mem (h.mem_lifts.mpr ⟨i, place, hplace, rfl⟩), ?_⟩ hnone
        rfl
  · -- each of them has pressure zero
    intro w hw
    obtain ⟨t, ht, rfl⟩ := List.mem_map.mp hw
    obtain ⟨i, place, -, rfl⟩ := h.mem_lifts.mp ht
    rfl

theorem Tracks.release (h : Tracks p next earlier log) :
    Tracks (Pointers.forget : Pointers κ) next earlier (log ++ p.lifts) := by
  refine ⟨fun i place => ?_, nofun, Nat.zero_le _, fun t ht => ?_,
    h.lifts.append fun before t after heq _ => ?_, h.fresh.append fun before t after heq hne => ?_⟩
  · rw [h.pressed_lifts]
    refine ⟨nofun, ?_⟩
    rintro ⟨k, c, hc, -⟩
    cases hc
  · rw [← List.append_assoc] at ht
    rcases List.mem_append.mp ht with ht | ht
    · exact h.below t ht
    · obtain ⟨k, c, hc, rfl⟩ := Pointers.mem_lifts.mp ht
      exact h.get_below hc
  · -- the lifts before this one are of other contacts
    have hmem : t ∈ p.lifts := by
      rw [heq]
      simp
    obtain ⟨i, place, hplace, ht⟩ := h.mem_lifts.mp hmem
    have hnodup := h.lifts_nodup
    rw [heq, List.map_append, List.map_cons] at hnodup
    have hbefore : ∀ w ∈ before.map Touch.write, w.register ≠ t.identifier := by
      intro w hw hid
      obtain ⟨t', ht', rfl⟩ := List.mem_map.mp hw
      exact (List.nodup_append.mp hnodup).2.2 _ (List.mem_map_of_mem ht') _ List.mem_cons_self hid
    unfold pressedAt
    rw [List.map_append, Registers.read_append_of_ne hbefore]
    have hread : Registers.read (log.map Touch.write) t.identifier = some place := by
      rw [ht]
      exact hplace
    rw [hread]
    rfl
  · have hmem : t ∈ p.lifts := by
      rw [heq]
      simp
    obtain ⟨i, place, -, rfl⟩ := h.mem_lifts.mp hmem
    exact absurd rfl hne

namespace Screen

/-- The table is what the emulator was told. -/
def Ok (s : Screen κ) : Prop := Tracks s.pointers s.next s.earlier s.log

theorem ok_fresh (next : Nat) : (fresh next : Screen κ).Ok := Tracks.forget nofun

/-- **One call** keeps what is pressed and what is stored the same. -/
theorem Ok.call (h : s.Ok) (c : Call κ) : (s.call mouse c).Ok := by
  cases c with
  | touches points => exact Pointers.touches_tracks h points
  | mouse x y buttons =>
    exact (Pointers.touches_tracks h [Pointers.mousePoint mouse x y buttons]).of_contacts rfl
  | release => exact Tracks.release h
  | forget gone =>
    refine Tracks.forget fun t ht => ?_
    cases gone with
    | true => cases ht
    | false => exact Tracks.below h t ht
  | gesture => exact Tracks.mono h (Nat.le_succ _)

/-! ### Back -/

/-- How often a button goes down that is `down` at first. -/
def presses : Bool → List Bool → Nat
  | _, [] => 0
  | down, b :: bs => (b && !down).toNat + presses b bs

/-- The right button after a mouse message. -/
def rightButton : Call κ → Option Bool
  | .mouse _ _ buttons => some (Pointers.rightOf buttons)
  | .touches _ | .release | .forget _ | .gesture => none

/-- The same, where the calls that forget the contacts let the button up. -/
def button : Call κ → Option Bool
  | .mouse _ _ buttons => some (Pointers.rightOf buttons)
  | .release | .forget _ => some false
  | .touches _ | .gesture => none

theorem touches_right (p : Pointers κ) (next : Nat) (points : List (Point κ)) :
    (p.touches next points).1.right = p.right := by
  have hpoint : ∀ (p : Pointers κ) (next : Nat) (t : Point κ),
      (p.point next t).1.right = p.right := by
    intro p next t
    unfold Pointers.point
    split
    · split
      · rfl
      · split <;> rfl
    · split <;> rfl
  induction points generalizing p next with
  | nil => rfl
  | cons t points ih => exact (ih _ _).trans (hpoint p next t)

/-- One call reports Back when the button goes down. -/
theorem call_backs (s : Screen κ) (c : Call κ) (bs : List Bool) :
    (s.call mouse c).backs + presses (s.call mouse c).pointers.right bs =
      s.backs + presses s.pointers.right ((button c).toList ++ bs) := by
  cases c with
  | touches points =>
    have hright := touches_right s.pointers s.next points
    simp [Screen.call, button, send, hright]
  | mouse x y buttons =>
    have hright := touches_right s.pointers s.next [Pointers.mousePoint mouse x y buttons]
    simp [Screen.call, button, send, presses, Pointers.mouse, hright, Nat.add_assoc]
  | release | forget gone => simp [Screen.call, button, presses, Pointers.forget]
  | gesture => rfl

theorem run_backs {cs : List (Call κ)} {s' : Screen κ}
    (hrun : (screenMachine mouse).run s cs = some s') :
    s'.backs = s.backs + presses s.pointers.right (cs.filterMap button) := by
  induction cs generalizing s with
  | nil =>
    cases hrun
    rfl
  | cons c cs ih =>
    have hrest : (screenMachine mouse).run (s.call mouse c) cs = some s' := hrun
    rw [ih hrest, call_backs]
    cases hbutton : button c <;> simp [hbutton]

/-! ### The simulation -/

/-- The emulator has pressed what `Pointers` has stored. -/
structure Simulated (s : Screen κ) : Prop where
  /-- What is pressed is what is stored, each contact where it was last. -/
  pressed : ∀ i place, pressedAt s.log i = some place ↔
    ∃ k c, s.pointers.contacts.get k = some c ∧ c.identifier = i ∧ clamp c.x c.y = place
  /-- Only a contact that is pressed is lifted. -/
  lifts : Log.Each LiftsPressed s.log
  /-- No identifier is that of two contacts. -/
  distinct : ∀ k k' c c', s.pointers.contacts.get k = some c →
    s.pointers.contacts.get k' = some c' → c.identifier = c'.identifier → k = k'
  fresh : Log.Each (BeginsFresh s.earlier) s.log
  bounded : ∀ ids : List Nat, ids.Nodup →
    (∀ i ∈ ids, (pressedAt s.log i).isSome = true) → ids.length ≤ maxContacts

/-- `release` takes the screen to `s'`: each contact that is pressed is lifted once, where it
is, and nothing stays stored. -/
structure Releases (s s' : Screen κ) : Prop where
  lifts : ∃ l, s'.log = s.log ++ l ∧ (l.map Touch.identifier).Nodup ∧ ∀ t, t ∈ l ↔
    ∃ i place, pressedAt s.log i = some place ∧
      t = { place := place, identifier := i, pressure := 0 }
  pressed : ∀ i, pressedAt s'.log i = none
  stored : s'.pointers.contacts = .empty

theorem Ok.simulated (h : s.Ok) : s.Simulated :=
  ⟨h.pressed, h.lifts, h.distinct, h.fresh, fun _ hnodup hids => Tracks.length_le h hnodup hids⟩

theorem Ok.releases (h : s.Ok) : s.Releases (s.call mouse .release) :=
  ⟨⟨_, rfl, Tracks.lifts_nodup h, fun _ => Tracks.mem_lifts h⟩, Tracks.pressed_lifts h, rfl⟩

end Screen

open Screen

/-- **The emulator follows `Pointers`** in every run of its calls, `release` lifts all that is
pressed, and Back is reported once for each time that the right button goes down. -/
theorem pointers_simulated {next : Nat} {cs : List (Call κ)}
    (hrun : (screenMachine mouse).run (fresh next) cs = some s) :
    s.Simulated ∧ s.Releases (s.call mouse .release) ∧
      s.backs = presses false (cs.filterMap button) := by
  have hok : s.Ok := by
    have hreach : (screenMachine mouse).Reachable s := .of_run (.init ⟨next, rfl⟩) hrun
    refine hreach.invariant (fun s hs => ?_) fun s c t hs _ hstep => ?_
    · obtain ⟨next, rfl⟩ := hs
      exact ok_fresh next
    · cases hstep
      exact hs.call c
  have hbacks := run_backs hrun
  refine ⟨hok.simulated, hok.releases, ?_⟩
  rw [hbacks]
  exact Nat.zero_add _

/-- Two fingers, one of which moves below the frame, and a right click. -/
def fingersRun : List (Call String) :=
  [.touches [⟨"a", 10, 20, 1⟩, ⟨"b", 30, 40, 1 / 2⟩, ⟨"a", 15, 5000, 1⟩], .mouse 50 60 2,
    .touches [⟨"b", 30, 40, 0⟩]]

theorem pointers_simulated_fingers : ∃ s : Screen String,
    (screenMachine "mouse").run (fresh 1) fingersRun = some s ∧
    (s.log = [⟨⟨10, 20⟩, 1, 1024⟩, ⟨⟨30, 40⟩, 2, 512⟩, ⟨⟨15, 1919⟩, 1, 1024⟩, ⟨⟨30, 40⟩, 2, 0⟩] ∧
      s.backs = 1) ∧ s.Simulated ∧ s.Releases (s.call "mouse" .release) ∧
    s.backs = presses false (fingersRun.filterMap button) := by
  refine ⟨_, rfl, ?_, pointers_simulated rfl⟩
  decide +kernel

/-- The right button stays down while the emulator goes. -/
def heldRun : List (Call String) := [.mouse 0 0 2, .forget true, .mouse 0 0 2]

theorem back_repeated : ¬ ∀ (next : Nat) (cs : List (Call String)) (s : Screen String),
    (screenMachine "mouse").run (fresh next) cs = some s →
    s.backs = presses false (cs.filterMap rightButton) := by
  intro h
  have hbacks := h 1 heldRun _ rfl
  revert hbacks
  decide

end Gesture

end AndroidAppliance
