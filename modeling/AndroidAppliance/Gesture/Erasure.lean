import AndroidAppliance.Gesture.Pointers
import AndroidAppliance.Input.Touches

/-!
# Contacts without their places

`Input.Pointers` is `Pointers` without the places: what the session's tasks do to the table
and to the emulator does not depend on them. `erase` forgets the places, and each operation
commutes with it, so what the tasks rely on holds of the table with its places: a message and the
`release` behind it leave nothing down (`release_touches`).
-/

namespace AndroidAppliance

namespace Gesture

open Input (TouchId)

/-- A touch without its place. -/
def Touch.erase (t : Touch) : Input.Touch :=
  { identifier := t.identifier, pressed := 0 < t.pressure }

/-- A point without its place. -/
def Point.erase (t : Point TouchId) : TouchId × Bool := (t.key, 0 < t.pressure)

/-- The table without the places. -/
def Pointers.erase (p : Pointers TouchId) : Input.Pointers where
  contacts := p.contacts.entries.map fun e => (e.1, e.2.identifier)
  right := p.right

variable {p : Pointers TouchId} {next : Nat} {k : TouchId} {c : Contact} {i : Nat} {x y : ℚ}

theorem lookup_erase (p : Pointers TouchId) (k : TouchId) :
    p.erase.contacts.lookup k = (p.contacts.get k).map Contact.identifier := by
  unfold Pointers.erase Dict.get
  induction p.contacts.entries with
  | nil => rfl
  | cons e entries ih =>
    rw [List.map_cons, List.lookup_cons, List.lookup_cons]
    cases k == e.1 with
    | true => rfl
    | false => exact ih

theorem erase_put_known (hc : p.contacts.get k = some c) :
    ({ p with contacts := p.contacts.put k ⟨c.identifier, x, y⟩ } : Pointers TouchId).erase =
      p.erase := by
  have hhas : p.contacts.has k = true := by
    rw [Dict.has, hc]
    rfl
  unfold Pointers.erase Dict.put
  rw [dif_pos hhas, List.map_map]
  refine congrArg (Input.Pointers.mk · _) (List.map_congr_left fun e he => ?_)
  simp only [Function.comp_apply]
  split
  · rename_i hk
    -- the entry is the one of the key, and keeps its identifier
    have hget : p.contacts.get e.1 = some e.2 := Dict.get_eq_some.mpr he
    rw [hk, hc] at hget
    rw [← Option.some.inj hget, hk]
  · rfl

theorem erase_put_new (hnone : p.contacts.get k = none) :
    ({ p with contacts := p.contacts.put k c } : Pointers TouchId).erase =
      { p.erase with contacts := p.erase.contacts ++ [(k, c.identifier)] } := by
  have hhas : ¬p.contacts.has k = true := by
    rw [Dict.has, hnone]
    simp
  unfold Pointers.erase Dict.put
  rw [dif_neg hhas, List.map_append]
  rfl

theorem erase_pop : ({ p with contacts := p.contacts.pop k } : Pointers TouchId).erase =
    { p.erase with contacts := p.erase.contacts.filter (·.1 ≠ k) } := by
  unfold Pointers.erase Dict.pop
  simp only [List.filter_map]
  rfl

theorem erase_contact (pressure : ℚ) :
    (contact i x y pressure).erase = { identifier := i, pressed := 0 < pressure } := by
  by_cases hpressure : 0 < pressure
  · have hpos : 0 < max 1 (round (min pressure 1 * fullPressure)) :=
      lt_of_lt_of_le Int.one_pos (le_max_left _ _)
    simp [Touch.erase, contact, hpressure, hpos]
  · simp [Touch.erase, contact, hpressure]

/-- **One point**, with its place and without. -/
theorem erase_point (p : Pointers TouchId) (next : Nat) (t : Point TouchId) :
    p.erase.point next t.key (0 < t.pressure) =
      ((p.point next t).1.erase, (p.point next t).2.1, (p.point next t).2.2.map Touch.erase) := by
  have hlookup := lookup_erase p t.key
  unfold Pointers.point
  cases hget : p.contacts.get t.key with
  | none =>
    rw [hget] at hlookup
    simp only [Input.Pointers.point, hlookup, Option.map_none]
    -- a new contact needs room; a stored one does not
    by_cases hpressure : 0 < t.pressure
    · have hsize : p.erase.contacts.length = p.contacts.size := List.length_map _
      simp only [decide_eq_true hpressure, not_le.mpr hpressure, if_false, hsize]
      change (if maxContacts ≤ p.contacts.size then _ else _) = _
      split
      · rfl
      · rw [erase_put_new hget]
        simp [erase_contact, hpressure]
    · simp only [decide_eq_false hpressure, not_lt.mp hpressure, if_true]
      rfl
  | some c =>
    rw [hget] at hlookup
    simp only [Input.Pointers.point, hlookup, Option.map_some]
    by_cases hpressure : 0 < t.pressure
    · simp only [decide_eq_true hpressure, not_le.mpr hpressure, if_false]
      rw [erase_put_known hget]
      simp [erase_contact, hpressure]
    · simp only [decide_eq_false hpressure, not_lt.mp hpressure, if_true]
      rw [erase_pop]
      rfl

/-- **A message**, with its places and without. -/
theorem erase_touches (p : Pointers TouchId) (next : Nat) (points : List (Point TouchId)) :
    p.erase.touches next (points.map Point.erase) =
      ((p.touches next points).1.erase, (p.touches next points).2.1,
        (p.touches next points).2.2.map Touch.erase) := by
  induction points generalizing p next with
  | nil => rfl
  | cons t points ih =>
    have hpoint : p.erase.point next t.erase.1 t.erase.2 = _ := erase_point p next t
    simp only [List.map_cons, Input.Pointers.touches, Pointers.touches, hpoint, ih]
    cases (p.point next t).2.2 <;> rfl

/-- What `release` lifts. -/
theorem erase_lifts (p : Pointers TouchId) : p.erase.lifts = p.lifts.map Touch.erase := by
  unfold Input.Pointers.lifts Pointers.lifts Pointers.erase Dict.values
  rw [List.map_map, List.map_map, List.map_map]
  refine List.map_congr_left fun e _ => ?_
  simp [erase_contact]

/-! ### What is down behind a message -/

open Strokes

theorem distinct_erase (p : Pointers TouchId) : p.erase.Distinct := by
  unfold Input.Pointers.Distinct Pointers.erase
  rw [List.map_map]
  exact p.contacts.nodup

/-- The contacts that the session's tasks know are handled by a message with places. -/
theorem handles_touches (p : Pointers TouchId) (next : Nat) (points : List (Point TouchId)) :
    p.erase.Handles next (p.touches next points).1.erase (p.touches next points).2.1
      ((p.touches next points).2.2.map Touch.erase) := by
  have h := Input.Pointers.touches_handles (distinct_erase p) next (points.map Point.erase)
  rwa [erase_touches] at h

/-- The lifts of `release` are those of the contacts of the table. -/
theorem mem_ids_erase (p : Pointers TouchId) :
    i ∈ p.erase.ids ↔ { identifier := i, pressed := false } ∈ p.lifts.map Touch.erase := by
  rw [← erase_lifts, Input.Pointers.ids, Input.Pointers.lifts]
  simp

/-- **A message and `release`**: when what is down has its contact in the table, nothing is down
behind them, wherever the touches are. -/
theorem release_touches (p : Pointers TouchId) (next : Nat) (points : List (Point TouchId))
    {log : List (Stroke Input.Thing)}
    (hdown : ∀ i, isDown log (.contact i) = true → i ∈ p.erase.ids) (i : Nat) :
    isDown (log ++ ((p.touches next points).2.2 ++ (p.touches next points).1.lifts).map
      fun t => t.erase.stroke) (.contact i) = false := by
  have hkept : ∀ j, isDown (log ++ (p.touches next points).2.2.map fun t => t.erase.stroke)
      (.contact j) = true → j ∈ (p.touches next points).1.erase.ids := by
    intro j hj
    have h := (handles_touches p next points).down (fun _ => False) log
      (fun i hi => .inl (hdown i hi)) j
    rw [List.map_map] at h
    exact (h hj).resolve_right id
  have hups : ∀ s ∈ (p.touches next points).1.lifts.map fun t => t.erase.stroke,
      s.down = false := by
    intro s hs
    obtain ⟨t, ht, rfl⟩ := List.mem_map.mp hs
    have hmem := List.mem_map_of_mem (f := Touch.erase) ht
    rw [← erase_lifts] at hmem
    obtain ⟨c, -, hc⟩ := List.mem_map.mp hmem
    rw [Input.Touch.stroke, ← hc]
  rw [List.map_append, ← List.append_assoc]
  by_contra hi
  obtain ⟨hbefore, hnone⟩ := isDown_append_ups hups (Bool.eq_true_of_not_eq_false hi)
  obtain ⟨t, ht, herase⟩ := List.mem_map.mp ((mem_ids_erase _).mp (hkept i hbefore))
  exact hnone _ (List.mem_map_of_mem ht) (by rw [herase]; rfl)

end Gesture

end AndroidAppliance
