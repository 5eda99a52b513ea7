import AndroidAppliance.Input.Basic
import Mathlib.Data.List.Nodup

/-!
# The contacts of a session

`Contacts` says where a contact that is down in the guest is known: in the table, in a lift
that the reader has not delivered yet, or in the drag of the wheel. Each operation of the
reader and of the wheel keeps it. A reader that is cancelled with such a lift loses it.
-/

namespace AndroidAppliance

namespace Input

open Strokes

/-! ### The table -/

namespace Pointers

/-- The identifiers in the table. -/
def ids (p : Pointers) : List Nat := p.contacts.map (·.2)

variable {p : Pointers} {next : Nat} {id : TouchId} {pressed : Bool}
  {points : List (TouchId × Bool)} {log : List (Stroke Thing)} {Q : Nat → Prop}

/-- Every id has one contact. -/
def Distinct (p : Pointers) : Prop := (p.contacts.map (·.1)).Nodup

/-- What handling a point or a list of points does to the table: `l` is sent for it. -/
structure Handles (p : Pointers) (next : Nat) (p' : Pointers) (next' : Nat) (l : List Touch) :
    Prop where
  distinct : p'.Distinct
  grows : next ≤ next'
  ids : ∀ i ∈ p'.ids, i ∈ p.ids ∨ next ≤ i ∧ i < next'
  sent : ∀ t ∈ l, t.identifier ∈ p.ids ∨ next ≤ t.identifier ∧ t.identifier < next'
  /-- A contact leaves the table with its lift. -/
  lifted : ∀ i ∈ p.ids, i ∈ p'.ids ∨ ∃ t ∈ l, t.identifier = i ∧ t.pressed = false
  /-- Behind what is sent, what is down is in the table, or it was no contact of it. -/
  down : ∀ (Q : Nat → Prop) (log : List (Stroke Thing)),
    (∀ i, isDown log (.contact i) = true → i ∈ p.ids ∨ Q i) →
      ∀ i, isDown (log ++ l.map Touch.stroke) (.contact i) = true → i ∈ p'.ids ∨ Q i

theorem Handles.refl (hp : p.Distinct) (next : Nat) : p.Handles next p next [] := by
  refine ⟨hp, Nat.le_refl _, fun i hi => .inl hi, nofun, fun i hi => .inl hi,
    fun Q log h i hi => ?_⟩
  rw [List.map_nil, List.append_nil] at hi
  exact h i hi

theorem Handles.trans {p' p'' : Pointers} {next' next'' : Nat} {l l' : List Touch}
    (h : p.Handles next p' next' l) (h' : p'.Handles next' p'' next'' l') :
    p.Handles next p'' next'' (l ++ l') := by
  have hgrows := h.grows
  have hgrows' := h'.grows
  refine ⟨h'.distinct, by omega, fun i hi => ?_, fun t ht => ?_, fun i hi => ?_,
    fun Q log hQ i hi => ?_⟩
  · rcases h'.ids i hi with hi | hi
    · rcases h.ids i hi with hi | hi
      · exact .inl hi
      · exact .inr ⟨hi.1, by omega⟩
    · exact .inr ⟨by omega, hi.2⟩
  · rcases List.mem_append.mp ht with ht | ht
    · rcases h.sent t ht with ht | ht
      · exact .inl ht
      · exact .inr ⟨ht.1, by omega⟩
    · rcases h'.sent t ht with hi | hi
      · rcases h.ids _ hi with hi | hi
        · exact .inl hi
        · exact .inr ⟨hi.1, by omega⟩
      · exact .inr ⟨by omega, hi.2⟩
  · rcases h.lifted i hi with hi | ⟨t, ht, heq⟩
    · rcases h'.lifted i hi with hi | ⟨t, ht, heq⟩
      · exact .inl hi
      · exact .inr ⟨t, List.mem_append_right _ ht, heq⟩
    · exact .inr ⟨t, List.mem_append_left _ ht, heq⟩
  · rw [List.map_append, ← List.append_assoc] at hi
    exact h'.down Q _ (h.down Q log hQ) i hi

theorem mem_of_lookup {i : Nat} (h : p.contacts.lookup id = some i) : (id, i) ∈ p.contacts := by
  obtain ⟨l₁, l₂, heq, -⟩ := List.lookup_eq_some_iff.mp h
  rw [heq]
  simp

theorem Distinct.eq (hp : p.Distinct) {i j : Nat} (hi : (id, i) ∈ p.contacts)
    (hj : (id, j) ∈ p.contacts) : i = j :=
  congrArg Prod.snd (List.inj_on_of_nodup_map hp hi hj rfl)

/-- A known contact that stays pressed. -/
theorem Handles.press (hp : p.Distinct) (next : Nat) {i : Nat} (hi : i ∈ p.ids) :
    p.Handles next p next [{ identifier := i, pressed := true }] := by
  refine ⟨hp, Nat.le_refl _, fun j hj => .inl hj, fun t ht => ?_, fun j hj => .inl hj,
    fun Q log hQ j hj => ?_⟩
  · rw [List.mem_singleton.mp ht]
    exact .inl hi
  · rw [List.map_singleton, isDown_concat] at hj
    split at hj
    · rename_i heq
      cases heq
      exact .inl hi
    · exact hQ j hj

/-- A new contact. -/
theorem Handles.new (hp : p.Distinct) (next : Nat) (hid : p.contacts.lookup id = none) :
    p.Handles next { p with contacts := p.contacts ++ [(id, next)] } (next + 1)
      [{ identifier := next, pressed := true }] := by
  have hmem : ∀ i, i ∈ ({ p with contacts := p.contacts ++ [(id, next)] } : Pointers).ids ↔
      i ∈ p.ids ∨ i = next := by
    intro i
    simp [Pointers.ids]
  refine ⟨?_, Nat.le_succ _, fun i hi => ?_, fun t ht => ?_,
    fun i hi => .inl ((hmem i).mpr (.inl hi)),
    fun Q log hQ i hi => ?_⟩
  · unfold Distinct
    rw [List.map_append, List.nodup_append]
    refine ⟨hp, List.nodup_singleton _, fun a ha b hb => ?_⟩
    obtain ⟨c, hc, rfl⟩ := List.mem_map.mp ha
    rw [List.map_singleton, List.mem_singleton] at hb
    rw [hb]
    rintro rfl
    have hne := List.lookup_eq_none_iff.mp hid c hc
    simp at hne
  · rcases (hmem i).mp hi with hi | rfl
    · exact .inl hi
    · exact .inr ⟨Nat.le_refl _, Nat.lt_succ_self _⟩
  · rw [List.mem_singleton.mp ht]
    exact .inr ⟨Nat.le_refl _, Nat.lt_succ_self _⟩
  · rw [List.map_singleton, isDown_concat] at hi
    split at hi
    · rename_i heq
      cases heq
      exact .inl ((hmem next).mpr (.inr rfl))
    · rcases hQ i hi with hi | hi
      · exact .inl ((hmem i).mpr (.inl hi))
      · exact .inr hi

/-- A lift takes the contact out of the table. -/
theorem Handles.lift (hp : p.Distinct) (next : Nat) {i : Nat}
    (hi : p.contacts.lookup id = some i) :
    p.Handles next { p with contacts := p.contacts.filter (·.1 ≠ id) } next
      [{ identifier := i, pressed := false }] := by
  have hstay : ∀ j ∈ p.ids, j = i ∨
      j ∈ ({ p with contacts := p.contacts.filter (·.1 ≠ id) } : Pointers).ids := by
    intro j hj
    obtain ⟨⟨id', j'⟩, hc, rfl⟩ := List.mem_map.mp hj
    by_cases hid : id' = id
    · subst hid
      exact .inl (hp.eq hc (mem_of_lookup hi))
    · exact .inr (List.mem_map.mpr ⟨(id', j'), List.mem_filter.mpr ⟨hc, by simpa using hid⟩, rfl⟩)
  refine ⟨?_, Nat.le_refl _, fun j hj => .inl ?_, fun t ht => .inl ?_, fun j hj => ?_,
    fun Q log hQ j hj => ?_⟩
  · exact List.Nodup.sublist (List.Sublist.map _ List.filter_sublist) hp
  · obtain ⟨c, hc, rfl⟩ := List.mem_map.mp hj
    exact List.mem_map.mpr ⟨c, (List.mem_filter.mp hc).1, rfl⟩
  · rw [List.mem_singleton.mp ht]
    exact List.mem_map.mpr ⟨(id, i), mem_of_lookup hi, rfl⟩
  · rcases hstay j hj with rfl | hj
    · exact .inr ⟨_, List.mem_singleton_self _, rfl, rfl⟩
    · exact .inl hj
  · rw [List.map_singleton, isDown_concat] at hj
    split at hj
    · cases hj
    · rename_i hne
      rcases hQ j hj with hj | hj
      · rcases hstay j hj with rfl | hj
        · exact absurd rfl hne
        · exact .inl hj
      · exact .inr hj

theorem point_handles (hp : p.Distinct) (next : Nat) (id : TouchId) (pressed : Bool) :
    p.Handles next (p.point next id pressed).1 (p.point next id pressed).2.1
      (p.point next id pressed).2.2.toList := by
  unfold point
  split
  · exact .refl hp next
  · exact .lift hp next ‹_›
  · split
    · exact .refl hp next
    · exact .new hp next ‹_›
  · rename_i i hi
    exact .press hp next (List.mem_map.mpr ⟨(id, i), mem_of_lookup hi, rfl⟩)

theorem touches_handles (hp : p.Distinct) (next : Nat) (points : List (TouchId × Bool)) :
    p.Handles next (p.touches next points).1 (p.touches next points).2.1
      (p.touches next points).2.2 := by
  induction points generalizing p next with
  | nil => exact .refl hp next
  | cons point points ih =>
    have hpoint := point_handles hp next point.1 point.2
    exact hpoint.trans (ih hpoint.distinct _)

theorem mouse_handles (hp : p.Distinct) (next : Nat) (left right : Bool) :
    p.Handles next (p.mouse next left right).1.1 (p.mouse next left right).1.2.1
      (p.mouse next left right).1.2.2 := by
  have h := touches_handles hp next [(.text "mouse", left)]
  exact ⟨h.distinct, h.grows, h.ids, h.sent, h.lifted, h.down⟩

end Pointers

/-! ### The tasks -/

/-- The reader has a lift of the contact to deliver. -/
def ReaderPc.lifts (i : Nat) : ReaderPc → Prop
  | .sending touches false _ => ∃ t ∈ touches, t.identifier = i ∧ t.pressed = false
  | .sending _ true _ | .idle | .finished => False

/-- The contact of the drag. -/
def WheelPc.names (i : Nat) : WheelPc → Prop
  | .playing j _ _ | .lifting j _ => j = i
  | .idle | .created | .finished => False

/-- The drag has a lift of its contact to deliver. -/
def WheelPc.drags (i : Nat) : WheelPc → Prop
  | .playing j left delivered => j = i ∧ ¬(left = 0 ∧ delivered = true)
  | .lifting j delivered => j = i ∧ delivered = false
  | .idle | .created | .finished => False

theorem WheelPc.names_of_drags {w : WheelPc} {i : Nat} (h : w.drags i) : w.names i := by
  cases w with
  | playing => exact h.1
  | lifting => exact h.1
  | idle | created | finished => exact h

/-- Where the contacts that are down are known. -/
structure Contacts (p : Pointers) (next : Nat) (reader : ReaderPc) (wheel : WheelPc)
    (log : List (Stroke Thing)) : Prop where
  distinct : p.Distinct
  down : ∀ i, isDown log (.contact i) = true → i ∈ p.ids ∨ reader.lifts i ∨ wheel.drags i
  /-- So it is when the event of the reader is delivered. -/
  sending : ∀ l back, reader = .sending l false back → ∀ i,
    isDown (log ++ l.map Touch.stroke) (.contact i) = true → i ∈ p.ids ∨ wheel.drags i
  fresh : ∀ i ∈ p.ids, i < next
  named : ∀ i, wheel.names i → i < next ∧ i ∉ p.ids
  touching : ∀ l delivered back, reader = .sending l delivered back → ∀ t ∈ l,
    t.identifier < next ∧ ¬wheel.names t.identifier

namespace Contacts

variable {p p' : Pointers} {next next' : Nat} {reader reader' : ReaderPc} {wheel wheel' : WheelPc}
  {log more : List (Stroke Thing)} {l : List Touch} {back : Bool}

/-- What the reader handled is in the table; it sends what `Handles` says. -/
theorem handled (h : Contacts p next .idle wheel log) (hp : p.Handles next p' next' l) :
    Contacts p' next' (.sending l false back) wheel log := by
  have hgrows := hp.grows
  have hdown : ∀ i, isDown log (.contact i) = true → i ∈ p.ids ∨ wheel.drags i := by
    intro i hi
    rcases h.down i hi with hi | hi | hi
    · exact .inl hi
    · exact hi.elim
    · exact .inr hi
  refine ⟨hp.distinct, fun i hi => ?_, fun l' back' heq => ?_, fun i hi => ?_, fun i hi => ?_,
    fun l' d back' heq t ht => ?_⟩
  · rcases hdown i hi with hi | hi
    · rcases hp.lifted i hi with hi | hi
      · exact .inl hi
      · exact .inr (.inl hi)
    · exact .inr (.inr hi)
  · cases heq
    exact hp.down wheel.drags log hdown
  · rcases hp.ids i hi with hi | hi
    · have hlt := h.fresh i hi
      omega
    · exact hi.2
  · obtain ⟨hlt, hnot⟩ := h.named i hi
    refine ⟨by omega, fun hmem => ?_⟩
    rcases hp.ids i hmem with hmem | hmem
    · exact hnot hmem
    · omega
  · cases heq
    rcases hp.sent t ht with hmem | hmem
    · have hlt := h.fresh _ hmem
      exact ⟨by omega, fun hname => (h.named _ hname).2 hmem⟩
    · refine ⟨hmem.2, fun hname => ?_⟩
      have hlt := (h.named _ hname).1
      omega

/-- The reader is done with its send, or cancelled in it: nothing that is down was in a lift
that it has not delivered. -/
theorem leave (h : Contacts p next reader wheel log)
    (hlost : ∀ i, reader.lifts i → isDown log (.contact i) = false)
    (hreader : ∀ l d back, reader' ≠ .sending l d back) :
    Contacts p next reader' wheel log := by
  refine ⟨h.distinct, fun i hi => ?_, fun l' back' heq => absurd heq (hreader _ _ _), h.fresh,
    h.named, fun l' d back' heq => absurd heq (hreader _ _ _)⟩
  rcases h.down i hi with hids | hlifts | hdrags
  · exact .inl hids
  · rw [hlost i hlifts] at hi
    cases hi
  · exact .inr (.inr hdrags)

theorem delivered (h : Contacts p next (.sending l false back) wheel log) :
    Contacts p next (.sending l true back) wheel (log ++ l.map Touch.stroke) := by
  exact {
    distinct := h.distinct
    down := fun i hi => by
      rcases h.sending l back rfl i hi with hi | hi
      · exact .inl hi
      · exact .inr (.inr hi)
    sending := nofun
    fresh := h.fresh
    named := h.named
    touching := fun l' d back' heq => by
      cases heq
      exact h.touching l false back rfl }

/-- The wheel goes on with the same contact, or with none. -/
theorem move (h : Contacts p next reader wheel log)
    (hnames : ∀ i, wheel'.names i → wheel.names i) (hdrags : ∀ i, wheel.drags i → wheel'.drags i) :
    Contacts p next reader wheel' log := by
  exact {
    distinct := h.distinct
    down := fun i hi => by
      rcases h.down i hi with hi | hi | hi
      · exact .inl hi
      · exact .inr (.inl hi)
      · exact .inr (.inr (hdrags i hi))
    sending := fun l back heq i hi => by
      rcases h.sending l back heq i hi with hi | hi
      · exact .inl hi
      · exact .inr (hdrags i hi)
    fresh := h.fresh
    named := fun i hi => h.named i (hnames i hi)
    touching := fun l d back heq t ht => by
      obtain ⟨hlt, hnot⟩ := h.touching l d back heq t ht
      exact ⟨hlt, fun hname => hnot (hnames _ hname)⟩ }

/-- Somebody takes an identifier. -/
theorem grow (h : Contacts p next reader wheel log) (hnext : next ≤ next') :
    Contacts p next' reader wheel log := by
  refine { h with fresh := fun i hi => ?_, named := fun i hi => ?_,
                  touching := fun l d back heq t ht => ?_ }
  · exact Nat.lt_of_lt_of_le (h.fresh i hi) hnext
  · exact ⟨Nat.lt_of_lt_of_le (h.named i hi).1 hnext, (h.named i hi).2⟩
  · obtain ⟨hlt, hnot⟩ := h.touching l d back heq t ht
    exact ⟨Nat.lt_of_lt_of_le hlt hnext, hnot⟩

/-- A drag begins. -/
theorem drag (h : Contacts p next reader wheel log) (hwheel : ∀ i, ¬wheel.drags i) (left : Nat) :
    Contacts p (next + 1) reader (.playing next left false) log := by
  have hgrown := h.grow (Nat.le_succ next)
  refine ⟨h.distinct, fun i hi => ?_, fun l back heq i hi => ?_, hgrown.fresh, fun i hi => ?_,
    fun l d back heq t ht => ⟨(hgrown.touching l d back heq t ht).1, fun hname => ?_⟩⟩
  · rcases h.down i hi with hi | hi | hi
    · exact .inl hi
    · exact .inr (.inl hi)
    · exact absurd hi (hwheel i)
  · rcases h.sending l back heq i hi with hi | hi
    · exact .inl hi
    · exact absurd hi (hwheel i)
  · cases hi
    exact ⟨Nat.lt_succ_self _, fun hmem => Nat.lt_irrefl _ (h.fresh _ hmem)⟩
  · have hlt := (h.touching l d back heq t ht).1
    cases hname
    omega

/-- A step of the drag is delivered. -/
theorem dragged (h : Contacts p next reader wheel log) {i : Nat} {down : Bool}
    (hname : wheel.names i) (hnames : ∀ j, wheel'.names j → wheel.names j)
    (hdrags : ∀ j, wheel.names j → j = i) (hdown : down = true → wheel'.drags i) :
    Contacts p next reader wheel' (log ++ [{ thing := .contact i, down }]) := by
  have hother : ∀ j, j ≠ i → ¬wheel.drags j := fun j hne hdrag =>
    hne (hdrags j (WheelPc.names_of_drags hdrag))
  exact {
    distinct := h.distinct
    down := fun j hj => by
      rw [isDown_concat] at hj
      split at hj
      · rename_i heq
        cases heq
        exact .inr (.inr (hdown hj))
      · rename_i hne
        rcases h.down j hj with hj | hj | hj
        · exact .inl hj
        · exact .inr (.inl hj)
        · exact absurd hj (hother j fun heq => hne (heq ▸ rfl))
    sending := fun l back heq j hj => by
      by_cases hij : j = i
      · -- the event of the reader is not about the contact of the drag
        subst hij
        rw [isDown_append_other, isDown_concat, if_pos rfl] at hj
        · exact .inr (hdown hj)
        · intro s hs hthing
          obtain ⟨t, ht, rfl⟩ := List.mem_map.mp hs
          refine (h.touching l _ back heq t ht).2 ?_
          cases hthing
          exact hname
      · have hcongr : isDown (log ++ [{ thing := .contact i, down }]) (.contact j) =
            isDown log (.contact j) := by
          rw [isDown_concat, if_neg]
          rintro ⟨⟩
          exact hij rfl
        rw [isDown_append_congr hcongr] at hj
        rcases h.sending l back heq j hj with hj | hj
        · exact .inl hj
        · exact absurd hj (hother j hij)
    fresh := h.fresh
    named := fun j hj => h.named j (hnames j hj)
    touching := fun l d back heq t ht => by
      obtain ⟨hlt, hnot⟩ := h.touching l d back heq t ht
      exact ⟨hlt, fun hname' => hnot (hnames _ hname')⟩ }

/-- Keys are delivered. -/
theorem keyed (h : Contacts p next reader wheel log)
    (hmore : ∀ s ∈ more, ∀ i, s.thing ≠ .contact i) :
    Contacts p next reader wheel (log ++ more) := by
  have hcongr : ∀ i, isDown (log ++ more) (.contact i) = isDown log (.contact i) := fun i =>
    isDown_append_other fun s hs => hmore s hs i
  refine { h with down := fun i hi => ?_, sending := fun l back heq i hi => ?_ }
  · rw [hcongr] at hi
    exact h.down i hi
  · rw [isDown_append_congr (hcongr i)] at hi
    exact h.sending l back heq i hi

end Contacts

end Input

end AndroidAppliance
