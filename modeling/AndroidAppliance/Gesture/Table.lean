import AndroidAppliance.Gesture.Pointers

/-!
# The fingers of the dashboard

`TouchTable` of `web/js/touches.js`. It numbers the fingers from 1 on, the lowest number that
is free first, and every message lists all contacts that are down. So a daemon that has the
contacts of the table before a message has those of the table after it.
-/

namespace AndroidAppliance

namespace Gesture

/-! ### `web/js/touches.js` -/

/-- A contact of the table. -/
structure Finger where
  id : Nat
  x : ℚ
  y : ℚ
  pressure : ℚ
  deriving DecidableEq, Repr

/-- `TouchTable`, by the `pointerId` of the browser. -/
structure TouchTable (π : Type) where
  contacts : Dict π Finger
  deriving DecidableEq, Repr

/-- A contact that is down, in a message. -/
def Finger.point (f : Finger) : Point Nat := ⟨f.id, f.x, f.y, f.pressure⟩

/-- A contact that is lifted. -/
def Finger.lift (f : Finger) : Point Nat := ⟨f.id, f.x, f.y, 0⟩

/-- The `touches` of a message. -/
abbrev Touches := List (Point Nat)

namespace TouchTable

variable {π : Type} [DecidableEq π]

/-- The lowest id that no contact uses. -/
def freeId (t : TouchTable π) : Option Nat :=
  (List.range' 1 maxContacts).find? fun id => id ∉ t.contacts.values.map Finger.id

/-- `message`. -/
def message (t : TouchTable π) (lifted : Option Finger) : Touches :=
  t.contacts.values.map Finger.point ++ (lifted.map Finger.lift).toList

/-- `down`, with the message, if there is one. -/
def down (t : TouchTable π) (q : π) (x y pressure : ℚ) : TouchTable π × Option Touches :=
  match t.freeId with
  | none => (t, none)
  | some id =>
    let t' : TouchTable π := { contacts := t.contacts.put q ⟨id, x, y, pressure⟩ }
    (t', some (t'.message none))

/-- `move`, and whether something changed. -/
def move (t : TouchTable π) (q : π) (x y pressure : ℚ) : TouchTable π × Bool :=
  match t.contacts.get q with
  | none => (t, false)
  | some f =>
    if f.x = x ∧ f.y = y ∧ f.pressure = pressure then (t, false)
    else ({ contacts := t.contacts.put q { f with x, y, pressure } }, true)

/-- `snapshot`. -/
def snapshot (t : TouchTable π) : Option Touches :=
  if t.contacts.size = 0 then none else some (t.message none)

/-- `up`; without a place the contact is lifted where it was. -/
def up (t : TouchTable π) (q : π) (x y : Option ℚ) : TouchTable π × Option Touches :=
  match t.contacts.get q with
  | none => (t, none)
  | some f =>
    let t' : TouchTable π := { contacts := t.contacts.pop q }
    (t', some (t'.message (some { f with x := x.getD f.x, y := y.getD f.y })))

/-- `releaseAll`. -/
def releaseAll (t : TouchTable π) : TouchTable π × Option Touches :=
  if t.contacts.size = 0 then (t, none)
  else ({ contacts := .empty }, some (t.contacts.values.map Finger.lift))

/-! ### The ids -/

variable {t : TouchTable π} {q q' : π} {f f' : Finger} {id : Nat} {x y pressure : ℚ}

/-- The ids are those of distinct contacts, and a pressure is above 0. -/
structure Ok (t : TouchTable π) : Prop where
  distinct : ∀ q q' f f', t.contacts.get q = some f → t.contacts.get q' = some f' →
    f.id = f'.id → q = q'
  range : ∀ q f, t.contacts.get q = some f → f.id ∈ List.range' 1 maxContacts
  pressure : ∀ q f, t.contacts.get q = some f → 0 < f.pressure

/-- No contact at all. -/
theorem Ok.empty : ({ contacts := .empty } : TouchTable π).Ok := ⟨nofun, nofun, nofun⟩

/-- A free identifier is one of ten, and of no contact. -/
theorem freeId_spec (h : t.freeId = some id) : id ∈ List.range' 1 maxContacts ∧
    ∀ q f, t.contacts.get q = some f → f.id ≠ id := by
  unfold freeId at h
  refine ⟨List.mem_of_find?_eq_some h, fun q f hf hid => ?_⟩
  have hfree := List.find?_some h
  simp only [decide_eq_true_eq] at hfree
  refine hfree (List.mem_map.mpr ⟨f, Dict.mem_values.mpr ⟨q, hf⟩, hid⟩)

/-- A contact with an id that no other has is put. -/
theorem Ok.put (h : t.Ok) (hid : ∀ q' f', t.contacts.get q' = some f' → f'.id = f.id → q' = q)
    (hrange : f.id ∈ List.range' 1 maxContacts) (hpressure : 0 < f.pressure) :
    ({ contacts := t.contacts.put q f } : TouchTable π).Ok := by
  refine ⟨fun q₁ q₂ f₁ f₂ h₁ h₂ heq => ?_, fun q' f' h' => ?_, fun q' f' h' => ?_⟩
  · simp only [Dict.get_put] at h₁ h₂
    split at h₁
    · rename_i hq₁
      cases h₁
      split at h₂
      · rename_i hq₂
        rw [hq₁, hq₂]
      · exact hq₁.trans (hid q₂ f₂ h₂ heq.symm).symm
    · -- only the new contact could have the same id
      split at h₂
      · rename_i hq₂
        cases h₂
        exact (hid q₁ f₁ h₁ heq).trans hq₂.symm
      · exact h.distinct q₁ q₂ f₁ f₂ h₁ h₂ heq
  · simp only [Dict.get_put] at h'
    split at h'
    · cases h'
      exact hrange
    · exact h.range q' f' h'
  · simp only [Dict.get_put] at h'
    split at h'
    · cases h'
      exact hpressure
    · exact h.pressure q' f' h'

/-- A contact goes. -/
theorem Ok.pop (h : t.Ok) (q : π) : ({ contacts := t.contacts.pop q } : TouchTable π).Ok := by
  have hold : ∀ q' f', (t.contacts.pop q).get q' = some f' → t.contacts.get q' = some f' := by
    intro q' f' hf'
    rw [Dict.get_pop] at hf'
    split at hf'
    · cases hf'
    · exact hf'
  exact ⟨fun q₁ q₂ f₁ f₂ h₁ h₂ => h.distinct q₁ q₂ f₁ f₂ (hold _ _ h₁) (hold _ _ h₂),
    fun q' f' h' => h.range q' f' (hold _ _ h'), fun q' f' h' => h.pressure q' f' (hold _ _ h')⟩

/-- A finger goes down. -/
theorem Ok.down (h : t.Ok) (hpressure : 0 < pressure) (q : π) (x y : ℚ) :
    (t.down q x y pressure).1.Ok := by
  unfold TouchTable.down
  split
  · exact h
  · rename_i id hid
    obtain ⟨hrange, hfree⟩ := freeId_spec hid
    exact h.put (fun q' f' hf' heq => absurd heq (hfree q' f' hf')) hrange hpressure

/-- A finger moves. -/
theorem Ok.move (h : t.Ok) (hpressure : 0 < pressure) (q : π) (x y : ℚ) :
    (t.move q x y pressure).1.Ok := by
  unfold TouchTable.move
  split
  · exact h
  · rename_i f hf
    split
    · exact h
    · exact h.put (fun q' f' hf' heq => h.distinct q' q f' f hf' hf heq) (h.range q f hf) hpressure

/-- A finger goes up. -/
theorem Ok.up (h : t.Ok) (q : π) (x y : Option ℚ) : (t.up q x y).1.Ok := by
  unfold TouchTable.up
  split
  · exact h
  · exact h.pop q

/-- All fingers go up. -/
theorem Ok.releaseAll (h : t.Ok) : t.releaseAll.1.Ok := by
  unfold TouchTable.releaseAll
  split
  · exact h
  · exact .empty

/-! ### What a table says -/

/-- Where the contact with the id is. -/
def view (t : TouchTable π) (n : Nat) : Option (ℚ × ℚ) :=
  (t.contacts.values.find? (·.id = n)).map fun f => (f.x, f.y)

/-- The finger with an identifier. -/
theorem Ok.view_eq_some (h : t.Ok) {n : Nat} {place : ℚ × ℚ} : t.view n = some place ↔
    ∃ q f, t.contacts.get q = some f ∧ f.id = n ∧ (f.x, f.y) = place := by
  unfold view
  rw [Option.map_eq_some_iff]
  constructor
  · rintro ⟨f, hf, rfl⟩
    obtain ⟨q, hq⟩ := Dict.mem_values.mp (List.mem_of_find?_eq_some hf)
    exact ⟨q, f, hq, by simpa using List.find?_some hf, rfl⟩
  · rintro ⟨q, f, hf, rfl, rfl⟩
    refine ⟨f, ?_, rfl⟩
    cases hfind : t.contacts.values.find? (·.id = f.id) with
    | none =>
      have hne := List.find?_eq_none.mp hfind f (Dict.mem_values.mpr ⟨q, hf⟩)
      simp at hne
    | some f' =>
      obtain ⟨q', hq'⟩ := Dict.mem_values.mp (List.mem_of_find?_eq_some hfind)
      have hid : f'.id = f.id := by simpa using List.find?_some hfind
      cases h.distinct q' q f' f hq' hf hid
      rw [← hq', hf]

/-- No finger has the identifier. -/
theorem Ok.view_eq_none (h : t.Ok) {n : Nat} : t.view n = none ↔
    ∀ q f, t.contacts.get q = some f → f.id ≠ n := by
  constructor
  · intro hnone q f hf hid
    rw [h.view_eq_some.mpr ⟨q, f, hf, hid, rfl⟩] at hnone
    cases hnone
  · intro hne
    cases hview : t.view n with
    | none => rfl
    | some place =>
      obtain ⟨q, f, hf, hid, -⟩ := h.view_eq_some.mp hview
      exact absurd hid (hne q f hf)

/-! ### What a message says -/

/-- The places after a message, where `v` has those before it. -/
def delivered (v : Nat → Option (ℚ × ℚ)) (m : Touches) : Nat → Option (ℚ × ℚ) :=
  m.foldl (fun v t => Function.update v t.key t.placed) v

variable {v : Nat → Option (ℚ × ℚ)} {m : Touches} {n : Nat}

/-- A message says nothing of other fingers. -/
theorem delivered_of_ne (h : ∀ t ∈ m, t.key ≠ n) : delivered v m n = v n := by
  induction m generalizing v with
  | nil => rfl
  | cons t m ih =>
    have hrest := ih (v := Function.update v t.key t.placed)
      fun t' ht' => h t' (List.mem_cons_of_mem _ ht')
    exact hrest.trans (Function.update_of_ne (h t List.mem_cons_self).symm _ _)

/-- A finger is where the message places it. -/
theorem delivered_of_mem (hnodup : (m.map Point.key).Nodup) {t : Point Nat} (ht : t ∈ m) :
    delivered v m t.key = t.placed := by
  induction m generalizing v with
  | nil => cases ht
  | cons t' m ih =>
    rw [List.map_cons, List.nodup_cons] at hnodup
    rcases List.mem_cons.mp ht with rfl | ht
    · have hrest : delivered (Function.update v t.key t.placed) m t.key =
          Function.update v t.key t.placed t.key :=
        delivered_of_ne fun t' ht' hkey => hnodup.1 (List.mem_map.mpr ⟨t', ht', hkey⟩)
      exact hrest.trans (Function.update_self _ _ _)
    · exact ih hnodup.2 ht

/-- A message of the table takes `v` to what the table says. -/
structure Says (t : TouchTable π) (v : Nat → Option (ℚ × ℚ)) (m : Touches) : Prop where
  keys : (m.map Point.key).Nodup
  range : ∀ n ∈ m.map Point.key, n ∈ List.range' 1 maxContacts
  view : delivered v m = t.view

omit [DecidableEq π] in
/-- A message is not too long. -/
theorem Says.length_le (h : t.Says v m) : m.length ≤ maxContacts := by
  have hlen := (h.keys.subperm h.range).length_le
  rwa [List.length_map, List.length_range'] at hlen

/-- No two contacts have one identifier. -/
theorem Ok.ids_nodup (h : t.Ok) : (t.contacts.values.map Finger.id).Nodup :=
  Dict.nodup_map_values h.distinct

/-- **The message of a table**, with a contact that was lifted or none. -/
theorem Ok.says (h : t.Ok) {lifted : Option Finger}
    (hrange : ∀ f ∈ lifted, f.id ∈ List.range' 1 maxContacts)
    (hlifted : ∀ f ∈ lifted, ∀ q f', t.contacts.get q = some f' → f'.id ≠ f.id)
    (hv : ∀ n, t.view n = none → (∀ f ∈ lifted, f.id ≠ n) → v n = none) :
    t.Says v (t.message lifted) := by
  have hmem : ∀ p, p ∈ t.message lifted ↔ (∃ q f, t.contacts.get q = some f ∧ f.point = p) ∨
      ∃ f ∈ lifted, f.lift = p := by
    intro p
    unfold message
    rw [List.mem_append]
    refine or_congr Dict.mem_map_values ?_
    simp
  have hkeys : ((t.message lifted).map Point.key).Nodup := by
    have hids : (t.contacts.values.map Finger.point).map Point.key =
        t.contacts.values.map Finger.id := by
      rw [List.map_map]
      rfl
    unfold message
    rw [List.map_append, hids]
    refine List.nodup_append.mpr ⟨h.ids_nodup, ?_, fun a ha b hb => ?_⟩
    · cases lifted with
      | none => exact List.nodup_nil
      | some f => exact List.nodup_singleton _
    · obtain ⟨q, f', hf', rfl⟩ := Dict.mem_map_values.mp ha
      cases lifted with
      | none => cases hb
      | some f =>
        rw [List.mem_singleton.mp hb]
        exact hlifted f rfl q f' hf'
  refine ⟨hkeys, fun n hn => ?_, funext fun n => ?_⟩
  · obtain ⟨p, hp, rfl⟩ := List.mem_map.mp hn
    rcases (hmem p).mp hp with ⟨q, f, hf, rfl⟩ | ⟨f, hf, rfl⟩
    · exact h.range q f hf
    · exact hrange f hf
  · cases hview : t.view n with
    | some place =>
      obtain ⟨q, f, hf, rfl, rfl⟩ := h.view_eq_some.mp hview
      have hpoint := delivered_of_mem (v := v) hkeys ((hmem f.point).mpr (.inl ⟨q, f, hf, rfl⟩))
      exact hpoint.trans (if_neg (not_le.mpr (h.pressure q f hf)))
    | none =>
      by_cases hlift : ∃ f ∈ lifted, f.id = n
      · obtain ⟨f, hf, rfl⟩ := hlift
        exact delivered_of_mem hkeys ((hmem f.lift).mpr (.inr ⟨f, hf, rfl⟩))
      · -- the message is not about this id
        have hne : ∀ p ∈ t.message lifted, p.key ≠ n := by
          intro p hp hkey
          rcases (hmem p).mp hp with ⟨q, f, hf, rfl⟩ | ⟨f, hf, rfl⟩
          · exact h.view_eq_none.mp hview q f hf hkey
          · exact hlift ⟨f, hf, hkey⟩
        rw [delivered_of_ne hne]
        exact hv n hview fun f hf hid => hlift ⟨f, hf, hid⟩

/-- A message that lifts nothing. -/
theorem Ok.says_none (h : t.Ok) (hv : ∀ n, t.view n = none → v n = none) :
    t.Says v (t.message none) := by
  refine h.says (fun f hf => ?_) (fun f hf => ?_) fun n hnone _ => hv n hnone
  · simp at hf
  · simp at hf

/-! ### The calls -/

/-- What a call tells a daemon that has the places of the table before it. -/
def Tells (t t' : TouchTable π) : Option Touches → Prop
  | none => t'.view = t.view
  | some m => t'.Says t.view m

/-- The message of a press. -/
theorem Ok.tells_down (h : t.Ok) (hpressure : 0 < pressure) (hq : t.contacts.get q = none)
    (x y : ℚ) : t.Tells (t.down q x y pressure).1 (t.down q x y pressure).2 := by
  have hok := h.down hpressure q x y
  revert hok
  unfold TouchTable.down
  split
  · exact fun _ => rfl
  · intro hok
    -- a new contact only adds to the places
    refine hok.says_none fun n hnone => h.view_eq_none.mpr fun q' f' hf' => ?_
    refine hok.view_eq_none.mp hnone q' f' ?_
    rw [Dict.get_put_of_ne]
    · exact hf'
    · rintro rfl
      rw [hq] at hf'
      cases hf'

/-- The message of a move. -/
theorem Ok.tells_move (h : t.Ok) (hpressure : 0 < pressure) (q : π) (x y : ℚ) :
    t.Tells (t.move q x y pressure).1 (t.move q x y pressure).1.snapshot := by
  have hok := h.move hpressure q x y
  -- a move takes nobody away
  have hids : ∀ n, (t.move q x y pressure).1.view n = none → t.view n = none := by
    intro n hnone
    refine h.view_eq_none.mpr fun q' f' hf' hid => ?_
    have hmoved : ∃ f, (t.move q x y pressure).1.contacts.get q' = some f ∧ f.id = n := by
      unfold TouchTable.move
      split
      · exact ⟨f', hf', hid⟩
      · rename_i f hf
        split
        · exact ⟨f', hf', hid⟩
        · by_cases hq : q' = q
          · subst hq
            cases hf.symm.trans hf'
            exact ⟨_, Dict.get_put_self, hid⟩
          · exact ⟨f', (Dict.get_put_of_ne hq).trans hf', hid⟩
    obtain ⟨f, hf, hfid⟩ := hmoved
    exact hok.view_eq_none.mp hnone q' f hf hfid
  unfold snapshot
  split
  · -- no contact is down
    rename_i hsize
    have hnone : (t.move q x y pressure).1.view = fun _ => none := by
      have hentries := List.eq_nil_of_length_eq_zero hsize
      funext n
      simp [view, Dict.values, hentries]
    have hbefore : t.view = fun _ => none := by
      funext n
      exact hids n (congrFun hnone n)
    exact hnone.trans hbefore.symm
  · exact hok.says_none hids

/-- The message of a lift. -/
theorem Ok.tells_up (h : t.Ok) (q : π) (x y : Option ℚ) :
    t.Tells (t.up q x y).1 (t.up q x y).2 := by
  have hok := h.up q x y
  revert hok
  unfold TouchTable.up
  split
  · exact fun _ => rfl
  · rename_i f hf
    intro hok
    refine hok.says (fun f' hf' => ?_) (fun f' hf' q' f'' hf'' hid => ?_) fun n hnone hne => ?_
    · cases hf'
      exact h.range q f hf
    · cases hf'
      simp only [Dict.get_pop] at hf''
      split at hf''
      · cases hf''
      · rename_i hq
        exact hq (h.distinct q' q f'' f hf'' hf hid)
    · refine h.view_eq_none.mpr fun q' f' hf' hid => ?_
      -- the contact that went up is in the message, and no other has its id
      by_cases hq : q' = q
      · subst hq
        cases hf.symm.trans hf'
        exact hne _ rfl hid
      · refine hok.view_eq_none.mp hnone q' f' ?_ hid
        rw [Dict.get_pop, if_neg hq]
        exact hf'

/-- The message that lifts all. -/
theorem Ok.tells_releaseAll (h : t.Ok) : t.Tells t.releaseAll.1 t.releaseAll.2 := by
  unfold TouchTable.releaseAll
  split
  · rfl
  · have hids : (t.contacts.values.map Finger.lift).map Point.key =
        t.contacts.values.map Finger.id := by
      rw [List.map_map]
      rfl
    refine ⟨?_, fun n hn => ?_, funext fun n => ?_⟩
    · rw [hids]
      exact h.ids_nodup
    · rw [hids] at hn
      obtain ⟨q, f, hf, rfl⟩ := Dict.mem_map_values.mp hn
      exact h.range q f hf
    · -- each contact is lifted by its own point
      by_cases hex : ∃ q f, t.contacts.get q = some f ∧ f.id = n
      · obtain ⟨q, f, hf, rfl⟩ := hex
        have hmem : f.lift ∈ t.contacts.values.map Finger.lift :=
          List.mem_map_of_mem (Dict.mem_values.mpr ⟨q, hf⟩)
        refine delivered_of_mem ?_ hmem
        rw [hids]
        exact h.ids_nodup
      · rw [delivered_of_ne]
        · exact h.view_eq_none.mpr fun q f hf hid => hex ⟨q, f, hf, hid⟩
        · intro p hp hkey
          obtain ⟨f, hf, rfl⟩ := List.mem_map.mp hp
          obtain ⟨q, hq⟩ := Dict.mem_values.mp hf
          exact hex ⟨q, f, hq, hkey⟩

end TouchTable

end Gesture

end AndroidAppliance
