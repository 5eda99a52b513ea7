import AndroidAppliance.Transition.Dict
import AndroidAppliance.Transition.Registers
import Mathlib.Algebra.Order.Floor.Defs
import Mathlib.Data.Rat.Floor

/-!
# Contacts and where they are

`clamp`, `contact` and `Pointers` of `appliance/input.py`, with the places and the pressures
that they get and give. A coordinate is a rational number: a finite float or an integer.

The emulator keeps a contact where its last touch point was until one with the pressure 0
lifts it. `Tracks` says that this is what `Pointers` has stored; each of the four outcomes of
`_point` keeps it.
-/

namespace AndroidAppliance

namespace Gesture

/-! ### `appliance/input.py` -/

/-- `WIDTH`. -/
def width : ℤ := 1080

/-- `HEIGHT`. -/
def height : ℤ := 1920

/-- `PRESSURE`. -/
def fullPressure : ℤ := 1024

/-- `MAX_CONTACTS`. -/
def maxContacts : Nat := 10

/-- `round`: to the nearest integer, and to the even one of two. -/
def round (q : ℚ) : ℤ :=
  if q - ⌊q⌋ < 1 / 2 then ⌊q⌋
  else if 1 / 2 < q - ⌊q⌋ then ⌊q⌋ + 1
  else if ⌊q⌋ % 2 = 0 then ⌊q⌋ else ⌊q⌋ + 1

/-- A pixel of the frame. -/
structure Pixel where
  x : ℤ
  y : ℤ
  deriving DecidableEq, Repr

/-- `clamp`: the pixel at a place. -/
def clamp (x y : ℚ) : Pixel where
  x := max 0 (min (width - 1) (round x))
  y := max 0 (min (height - 1) (round y))

/-- `pb.Touch`. -/
structure Touch where
  place : Pixel
  identifier : Nat
  pressure : ℤ
  deriving DecidableEq, Repr

/-- A touch point; the pressure 0 lifts. -/
def contact (identifier : Nat) (x y pressure : ℚ) : Touch where
  place := clamp x y
  identifier := identifier
  pressure := if 0 < pressure then max 1 (round (min pressure 1 * fullPressure)) else 0

/-- What `Pointers` stores of a contact: its identifier, and where it was last. -/
structure Contact where
  identifier : Nat
  x : ℚ
  y : ℚ
  deriving DecidableEq, Repr

/-- The `(id, x, y, pressure)` of a message. -/
structure Point (κ : Type) where
  key : κ
  x : ℚ
  y : ℚ
  pressure : ℚ
  deriving DecidableEq, Repr

/-- Where the point leaves its contact, if it does not lift it. -/
def Point.placed {κ : Type} (t : Point κ) : Option (ℚ × ℚ) :=
  if t.pressure ≤ 0 then none else some (t.x, t.y)

/-- `Pointers`. -/
structure Pointers (κ : Type) where
  contacts : Dict κ Contact
  /-- The right mouse button is down. -/
  right : Bool
  deriving DecidableEq, Repr

namespace Pointers

variable {κ : Type} [DecidableEq κ]

/-- `forget`. -/
def forget : Pointers κ := { contacts := .empty, right := false }

/-- `_point`, where `next` is the identifier that `_new_identifier` gives. -/
def point (p : Pointers κ) (next : Nat) (t : Point κ) : Pointers κ × Nat × Option Touch :=
  match p.contacts.get t.key with
  | none =>
    if t.pressure ≤ 0 then (p, next, none)
    else if maxContacts ≤ p.contacts.size then (p, next, none)
    else ({ p with contacts := p.contacts.put t.key ⟨next, t.x, t.y⟩ }, next + 1,
      some (contact next t.x t.y t.pressure))
  | some c =>
    if t.pressure ≤ 0 then
      ({ p with contacts := p.contacts.pop t.key }, next, some (contact c.identifier t.x t.y 0))
    else ({ p with contacts := p.contacts.put t.key ⟨c.identifier, t.x, t.y⟩ }, next,
      some (contact c.identifier t.x t.y t.pressure))

/-- `touches`; an event without touches is not sent. -/
def touches (p : Pointers κ) (next : Nat) : List (Point κ) → Pointers κ × Nat × List Touch
  | [] => (p, next, [])
  | t :: points =>
    let r := p.point next t
    let rest := r.1.touches r.2.1 points
    (rest.1, rest.2.1, r.2.2.toList ++ rest.2.2)

/-- The point of the left button, which is a finger with the key `key`. -/
def mousePoint (key : κ) (x y : ℚ) (buttons : ℤ) : Point κ where
  key := key
  x := x
  y := y
  pressure := if buttons % 2 = 1 then 1 else 0

/-- `buttons & 2`. -/
def rightOf (buttons : ℤ) : Bool := buttons / 2 % 2 = 1

/-- `mouse`, and whether the right button was just pressed. -/
def mouse (key : κ) (p : Pointers κ) (next : Nat) (x y : ℚ) (buttons : ℤ) :
    (Pointers κ × Nat × List Touch) × Bool :=
  let r := p.touches next [mousePoint key x y buttons]
  (({ r.1 with right := rightOf buttons }, r.2), rightOf buttons && !r.1.right)

/-- The touches of `release`. -/
def lifts (p : Pointers κ) : List Touch :=
  p.contacts.values.map fun c => contact c.identifier c.x c.y 0

end Pointers

/-! ### The emulator -/

/-- What a touch point does in the emulator. -/
def Touch.write (t : Touch) : Write Nat Pixel where
  register := t.identifier
  value := if 0 < t.pressure then some t.place else none

/-- Where the emulator has a contact pressed after the touch points. -/
def pressedAt (log : List Touch) (i : Nat) : Option Pixel := Registers.read (log.map Touch.write) i

variable {log more : List Touch} {i : Nat} {x y pressure : ℚ}

@[simp]
theorem contact_identifier : (contact i x y pressure).identifier = i := rfl

theorem write_press (h : 0 < pressure) :
    (contact i x y pressure).write = ⟨i, some (clamp x y)⟩ := by
  have hpos : 0 < max 1 (round (min pressure 1 * fullPressure)) :=
    lt_of_lt_of_le Int.one_pos (le_max_left _ _)
  simp [Touch.write, contact, h, hpos]

@[simp]
theorem write_lift : (contact i x y 0).write = ⟨i, none⟩ := rfl

@[simp]
theorem pressedAt_nil : pressedAt [] i = none := rfl

theorem pressedAt_concat (t : Touch) : pressedAt (log ++ [t]) i =
    if t.identifier = i then t.write.value else pressedAt log i := by
  unfold pressedAt
  rw [List.map_append, List.map_singleton, Registers.read_concat]
  rfl

/-- A contact that is pressed has touch points. -/
theorem exists_of_pressedAt (h : (pressedAt log i).isSome = true) :
    ∃ t ∈ log, t.identifier = i := by
  obtain ⟨w, hw, hi⟩ := Registers.exists_of_read h
  obtain ⟨t, ht, rfl⟩ := List.mem_map.mp hw
  exact ⟨t, ht, hi⟩

/-- A touch point that lifts is for a contact that is pressed. -/
def LiftsPressed (before : List Touch) (t : Touch) : Prop :=
  t.pressure = 0 → (pressedAt before t.identifier).isSome = true

/-- A contact that begins has an identifier that nothing before it has. -/
def BeginsFresh (earlier before : List Touch) (t : Touch) : Prop :=
  t.pressure ≠ 0 → pressedAt before t.identifier = none →
    ∀ t' ∈ earlier ++ before, t'.identifier ≠ t.identifier

/-! ### What is pressed is stored -/

variable {κ : Type} [DecidableEq κ] {p : Pointers κ} {next : Nat} {earlier : List Touch} {k : κ}
  {c : Contact}

/-- Where a stored contact was last. -/
def Contact.place (c : Contact) : Pixel := clamp c.x c.y

/-- The emulator got `earlier` before the contacts were forgotten, and `log` since. -/
structure Tracks (p : Pointers κ) (next : Nat) (earlier log : List Touch) : Prop where
  pressed : ∀ i place, pressedAt log i = some place ↔
    ∃ k c, p.contacts.get k = some c ∧ c.identifier = i ∧ c.place = place
  distinct : ∀ k k' c c', p.contacts.get k = some c → p.contacts.get k' = some c' →
    c.identifier = c'.identifier → k = k'
  bounded : p.contacts.size ≤ maxContacts
  below : ∀ t ∈ earlier ++ log, t.identifier < next
  lifts : Log.Each LiftsPressed log
  fresh : Log.Each (BeginsFresh earlier) log

namespace Tracks

theorem forget (h : ∀ t ∈ earlier, t.identifier < next) :
    Tracks (Pointers.forget : Pointers κ) next earlier [] := by
  refine ⟨fun i place => ?_, nofun, Nat.zero_le _, ?_, .nil, .nil⟩
  · simp [Pointers.forget]
  · rwa [List.append_nil]

/-- Other gestures take identifiers. -/
theorem mono (h : Tracks p next earlier log) {next' : Nat} (hle : next ≤ next') :
    Tracks p next' earlier log :=
  ⟨h.pressed, h.distinct, h.bounded, fun t ht => lt_of_lt_of_le (h.below t ht) hle, h.lifts,
    h.fresh⟩

/-- The button does not matter. -/
theorem of_contacts (h : Tracks p next earlier log) {p' : Pointers κ}
    (hp : p'.contacts = p.contacts) : Tracks p' next earlier log := by
  refine ⟨?_, ?_, ?_, h.below, h.lifts, h.fresh⟩
  · rw [hp]
    exact h.pressed
  · rw [hp]
    exact h.distinct
  · rw [hp]
    exact h.bounded

theorem isSome_of_get (h : Tracks p next earlier log) (hc : p.contacts.get k = some c) :
    pressedAt log c.identifier = some c.place :=
  (h.pressed _ _).mpr ⟨k, c, hc, rfl, rfl⟩

/-- The identifier of a stored contact was sent. -/
theorem get_below (h : Tracks p next earlier log) (hc : p.contacts.get k = some c) :
    c.identifier < next := by
  have hsome : (pressedAt log c.identifier).isSome = true := by
    rw [h.isSome_of_get hc]
    rfl
  obtain ⟨t, ht, hi⟩ := exists_of_pressedAt hsome
  rw [← hi]
  exact h.below t (List.mem_append_right _ ht)

theorem below_concat (h : Tracks p next earlier log) {next' : Nat} (hle : next ≤ next') {t : Touch}
    (ht : t.identifier < next') : ∀ t' ∈ earlier ++ (log ++ [t]), t'.identifier < next' := by
  intro t' ht'
  rw [← List.append_assoc] at ht'
  rcases List.mem_append.mp ht' with hold | hnew
  · exact lt_of_lt_of_le (h.below t' hold) hle
  · rw [List.mem_singleton.mp hnew]
    exact ht

/-- A stored contact is lifted. -/
theorem lift (h : Tracks p next earlier log) (hc : p.contacts.get k = some c) (x y : ℚ) :
    Tracks { p with contacts := p.contacts.pop k } next earlier
      (log ++ [contact c.identifier x y 0]) := by
  refine ⟨fun i place => ?_, fun k₁ k₂ c₁ c₂ h₁ h₂ => ?_, ?_,
    h.below_concat le_rfl (h.get_below hc), h.lifts.concat fun _ => ?_,
    h.fresh.concat fun hne => absurd rfl hne⟩
  · rw [pressedAt_concat]
    simp only [Dict.get_pop]
    by_cases hi : c.identifier = i
    · -- the contact with this identifier is the one that goes
      rw [contact_identifier, if_pos hi, write_lift]
      constructor
      · intro hplace
        cases hplace
      rintro ⟨k', c', hk', hid, -⟩
      split at hk'
      · cases hk'
      · rename_i hne
        exact absurd (h.distinct k' k c' c hk' hc (hid.trans hi.symm)) hne
    · -- every other contact stays
      rw [contact_identifier, if_neg hi, h.pressed]
      constructor
      · rintro ⟨k', c', hk', hid, hplace⟩
        refine ⟨k', c', ?_, hid, hplace⟩
        rw [if_neg]
        · exact hk'
        · rintro rfl
          rw [hc] at hk'
          cases hk'
          exact hi hid
      · rintro ⟨k', c', hk', hid, hplace⟩
        split at hk'
        · cases hk'
        · exact ⟨k', c', hk', hid, hplace⟩
  · simp only [Dict.get_pop] at h₁ h₂
    split at h₁
    · cases h₁
    · split at h₂
      · cases h₂
      · exact h.distinct k₁ k₂ c₁ c₂ h₁ h₂
  · exact le_trans Dict.size_pop_le h.bounded
  · rw [contact_identifier, h.isSome_of_get hc]
    rfl

/-- A contact is pressed, or moves: one that is stored, or a new one. -/
theorem press (h : Tracks p next earlier log) {i next' : Nat} {x y pressure : ℚ}
    (hpressure : 0 < pressure) (hle : next ≤ next') (hi : i < next')
    (hsize : (p.contacts.put k ⟨i, x, y⟩).size ≤ maxContacts)
    (hkey : ∀ k' c, p.contacts.get k' = some c → (c.identifier = i ↔ k' = k))
    (hfresh : p.contacts.get k = none → ∀ t ∈ earlier ++ log, t.identifier ≠ i) :
    Tracks { p with contacts := p.contacts.put k ⟨i, x, y⟩ } next' earlier
      (log ++ [contact i x y pressure]) := by
  have hpos : (contact i x y pressure).pressure ≠ 0 := by
    intro hzero
    have hwrite := write_press (i := i) (x := x) (y := y) hpressure
    simp [Touch.write, hzero] at hwrite
  refine ⟨fun j place => ?_, fun k₁ k₂ c₁ c₂ h₁ h₂ hid => ?_, hsize, h.below_concat hle hi,
    h.lifts.concat fun hzero => absurd hzero hpos, h.fresh.concat fun _ hnone => ?_⟩
  · rw [pressedAt_concat, contact_identifier, write_press hpressure]
    simp only [Dict.get_put]
    -- what is read of the identifier is this point; the others are as before
    by_cases hj : i = j
    · rw [if_pos hj]
      constructor
      · intro hplace
        exact ⟨k, ⟨i, x, y⟩, if_pos rfl, hj, Option.some.inj hplace⟩
      · rintro ⟨k', c, hc, hid, rfl⟩
        split at hc
        · cases hc
          rfl
        · rename_i hne
          exact absurd ((hkey k' c hc).mp (hid.trans hj.symm)) hne
    · rw [if_neg hj, h.pressed]
      constructor
      · rintro ⟨k', c, hc, hid, hplace⟩
        refine ⟨k', c, ?_, hid, hplace⟩
        rw [if_neg]
        · exact hc
        · intro heq
          exact hj (((hkey k' c hc).mpr heq).symm.trans hid)
      · rintro ⟨k', c, hc, hid, hplace⟩
        split at hc
        · cases hc
          exact absurd hid hj
        · exact ⟨k', c, hc, hid, hplace⟩
  · simp only [Dict.get_put] at h₁ h₂
    split at h₁
    · rename_i heq₁
      cases h₁
      split at h₂
      · rename_i heq₂
        rw [heq₁, heq₂]
      · exact heq₁.trans ((hkey k₂ c₂ h₂).mp hid.symm).symm
    · split at h₂
      · rename_i heq₂
        cases h₂
        exact ((hkey k₁ c₁ h₁).mp hid).trans heq₂.symm
      · exact h.distinct k₁ k₂ c₁ c₂ h₁ h₂ hid
  · -- the identifier is not pressed, so the contact is a new one
    refine hfresh ?_
    cases hget : p.contacts.get k with
    | none => rfl
    | some c =>
      rw [contact_identifier, ← (hkey k c hget).mpr rfl, h.isSome_of_get hget] at hnone
      cases hnone

end Tracks

/-- **One point.** Whatever `_point` does, what is pressed stays what is stored. -/
theorem Pointers.point_tracks (h : Tracks p next earlier log) (t : Point κ) :
    Tracks (p.point next t).1 (p.point next t).2.1 earlier
      (log ++ (p.point next t).2.2.toList) := by
  unfold Pointers.point
  split
  · -- a key that is not stored: a lift is dropped, and so is a press without room
    rename_i hnone
    split
    · rw [Option.toList_none, List.append_nil]
      exact h
    · rename_i hpressure
      split
      · rw [Option.toList_none, List.append_nil]
        exact h
      · rename_i hroom
        have hhas : ¬p.contacts.has t.key = true := by
          rw [Dict.has, hnone]
          simp
        refine h.press (not_le.mp hpressure) (Nat.le_succ next) (Nat.lt_succ_self next) ?_
          (fun k' c hc => ?_) fun _ t' ht' => ne_of_lt (h.below t' ht')
        · rw [Dict.size_put_of_not_has hhas]
          omega
        · -- no stored contact has the new identifier, and none has the new key
          have hlt := h.get_below hc
          constructor
          · intro hid
            omega
          · rintro rfl
            rw [hnone] at hc
            cases hc
  · rename_i c hc
    split
    · exact h.lift hc t.x t.y
    · rename_i hpressure
      have hhas : p.contacts.has t.key = true := by
        rw [Dict.has, hc]
        rfl
      refine h.press (not_le.mp hpressure) le_rfl (h.get_below hc) ?_ (fun k' c' hc' => ?_) ?_
      · rw [Dict.size_put_of_has hhas]
        exact h.bounded
      · constructor
        · exact h.distinct k' t.key c' c hc' hc
        · rintro rfl
          cases hc.symm.trans hc'
          rfl
      · intro hnone
        rw [hc] at hnone
        cases hnone

/-- A message, with any points in any order. -/
theorem Pointers.touches_tracks (h : Tracks p next earlier log) (points : List (Point κ)) :
    Tracks (p.touches next points).1 (p.touches next points).2.1 earlier
      (log ++ (p.touches next points).2.2) := by
  induction points generalizing p next log with
  | nil =>
    rw [Pointers.touches, List.append_nil]
    exact h
  | cons t points ih =>
    rw [Pointers.touches, ← List.append_assoc]
    exact ih (Pointers.point_tracks h t)

/-- At most `MAX_CONTACTS` contacts are pressed. -/
theorem Tracks.length_le (h : Tracks p next earlier log) {ids : List Nat} (hnodup : ids.Nodup)
    (hpressed : ∀ i ∈ ids, (pressedAt log i).isSome = true) : ids.length ≤ maxContacts := by
  have hsub : ids ⊆ p.contacts.values.map Contact.identifier := by
    intro i hi
    obtain ⟨place, hplace⟩ := Option.isSome_iff_exists.mp (hpressed i hi)
    obtain ⟨k, c, hc, rfl, -⟩ := (h.pressed i place).mp hplace
    exact List.mem_map_of_mem (Dict.mem_values.mpr ⟨k, hc⟩)
  have hlen := (hnodup.subperm hsub).length_le
  rw [List.length_map, Dict.values, List.length_map] at hlen
  exact le_trans hlen h.bounded

end Gesture

end AndroidAppliance
