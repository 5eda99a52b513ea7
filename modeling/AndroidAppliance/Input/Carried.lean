import AndroidAppliance.Input.Touches

/-!
# The keys of a session

`Carried` does for the keys what `Contacts` does for the contacts: a key that is down is in
the table of held keys, or the keys lane has its key-up to deliver.
-/

namespace AndroidAppliance

namespace Input

open Session Strokes

/-! ### The keys -/

/-- The keys of the table. -/
def heldCodes (held : Held) : List KeyCode := held.map (·.2.code)

/-- The keys lane has the key-up of a key to deliver that the table does not hold any more. -/
def KeysPc.releases (c : KeyCode) : KeysPc → Prop
  | .sending e false => e.eventType = .up ∧ e.code = c
  | .sending _ true | .lifting _ _ _ _ | .texting _ | .restoring _ _ _ | .idle | .finished => False

/-- The events of a job that are about keys of the table. -/
def KeysPc.carried : KeysPc → List KeyEvent
  | .sending e _ => if e.eventType = .down then [e] else []
  | .lifting e _ ups rest => e :: (ups ++ rest)
  | .texting ups => ups
  | .restoring e _ rest => e :: rest
  | .idle | .finished => []

/-- Where the keys that are down are known. -/
structure Carried (printable : Char → Bool) (held : Held) (keys : KeysPc)
    (log : List (Stroke Thing)) : Prop where
  down : ∀ c, isDown log (.key c) = true → c ∈ heldCodes held ∨ keys.releases c
  carried : ∀ e ∈ keys.carried, e.code ∈ heldCodes held
  /-- The table has the key-up that the mapping gives. -/
  ups : ∀ q ∈ held, q.2.eventType = .up ∧
    ∀ b, q.1.plan printable .up b = .event q.2

namespace Carried

variable {printable : Char → Bool} {held : Held} {keys keys' : KeysPc}
  {log more : List (Stroke Thing)} {e : KeyEvent}

/-- A key that goes down was not in the table, and goes up by the same mapping. -/
theorem plan_up {p : Pressed} {b : Bool} (h : p.plan printable .down b = .event e)
    (he : e.eventType = .down) (b' : Bool) :
    b = false ∧ p.plan printable .up b' = .event (e.withType .up) := by
  cases p with
  | key k =>
    simp only [Pressed.plan, browserKey] at h ⊢
    split at h
    · cases h
    · rename_i hdropped
      rw [if_neg hdropped]
      split at h
      · -- a character is a press for each event
        split at h
        · cases h
        · split at h
          · cases h
            cases he
          · split at h <;> cases h
      · rename_i hlong
        split at h
        · cases h
        · rename_i hb
          cases h
          refine ⟨by simpa using hb, ?_⟩
          exact if_neg (by simp)
  | button n =>
    simp only [Pressed.plan, buttonKey] at h ⊢
    split at h
    · cases h
    · rename_i hb
      cases h
      exact ⟨by simpa using hb, rfl⟩

/-- The job goes on: it carries no other keys. -/
theorem go (h : Carried printable held keys log)
    (hreleases : ∀ c, keys.releases c → keys'.releases c)
    (hcarried : ∀ e ∈ keys'.carried, e ∈ keys.carried ∨ e.code ∈ heldCodes held) :
    Carried printable held keys' log := by
  refine ⟨fun c hc => ?_, fun e he => ?_, h.ups⟩
  · rcases h.down c hc with hc | hc
    · exact .inl hc
    · exact .inr (hreleases c hc)
  · rcases hcarried e he with he | he
    · exact h.carried e he
    · exact he

/-- The event of the keys lane is delivered. -/
theorem delivered (h : Carried printable held keys log)
    (hcarried : ∀ e' ∈ keys'.carried, e' ∈ keys.carried)
    (hreleases : ∀ c, keys.releases c → e.eventType = .up ∧ e.code = c)
    (hdown : e.eventType = .down → e.code ∈ heldCodes held) :
    Carried printable held keys' (log ++ keyStrokes e) := by
  refine ⟨fun c hc => .inl ?_, fun e' he' => h.carried e' (hcarried e' he'), h.ups⟩
  have hold : isDown log (.key c) = true → (e.eventType = .up → e.code ≠ c) →
      c ∈ heldCodes held := by
    intro hlog hne
    rcases h.down c hlog with hc | hc
    · exact hc
    · obtain ⟨hup, hcode⟩ := hreleases c hc
      exact absurd hcode (hne hup)
  unfold keyStrokes at hc
  split at hc
  · rename_i htype
    rw [isDown_concat] at hc
    split at hc
    · rename_i heq
      cases heq
      exact hdown htype
    · exact hold hc fun hup => by rw [htype] at hup; cases hup
  · rw [isDown_concat] at hc
    split at hc
    · cases hc
    · rename_i hne
      exact hold hc fun _ heq => hne (congrArg Thing.key heq)
  · rename_i htype
    rw [List.append_nil] at hc
    exact hold hc fun hup => by rw [htype] at hup; cases hup

/-- Touches are delivered. -/
theorem touched (h : Carried printable held keys log)
    (hmore : ∀ s ∈ more, ∀ c, s.thing ≠ .key c) : Carried printable held keys (log ++ more) := by
  refine { h with down := fun c hc => ?_ }
  rw [isDown_append_other fun s hs => hmore s hs c] at hc
  exact h.down c hc

/-- The type of an event is the action, or a press; an up is never a press. -/
theorem plan_type {p : Pressed} {action : KeyAction} {b : Bool}
    (h : p.plan printable action b = .event e) :
    e.eventType = action ∨ action ≠ .up ∧ e.eventType = .press := by
  cases p with
  | key k =>
    simp only [Pressed.plan, browserKey] at h
    split at h
    · cases h
    · split at h
      · split at h
        · cases h
        · rename_i hup
          split at h
          · cases h
            exact .inr ⟨hup, rfl⟩
          · split at h <;> cases h
      · split at h
        · cases h
        · cases h
          exact .inl rfl
  | button n =>
    simp only [Pressed.plan, buttonKey] at h
    split at h
    · cases h
    · cases h
      exact .inl rfl

/-- A lift of a key is planned as one. -/
theorem plan_up_type {p : Pressed} {b : Bool} (h : p.plan printable .up b = .event e) :
    e.eventType = .up := by
  rcases plan_type h with htype | ⟨hne, -⟩
  · exact htype
  · exact absurd rfl hne

/-- A press leaves no key down. -/
theorem plan_press {p : Pressed} {b : Bool} (h : p.plan printable .press b = .event e) :
    e.eventType ≠ .down := by
  rcases plan_type h with htype | ⟨-, htype⟩
  · rw [htype]
    nofun
  · rw [htype]
    nofun

/-- A key-up takes its key out of the table before it is sent. -/
theorem up (h : Carried printable held .idle log) {p : Pressed} {b : Bool}
    (hplan : p.plan printable .up b = .event e) :
    Carried printable (held.pop p) (.sending e false) log := by
  have htype := plan_up_type hplan
  refine ⟨fun c hc => ?_, fun e' he' => ?_, fun q hq => h.ups q (List.mem_filter.mp hq).1⟩
  · rcases h.down c hc with hmem | hmem
    · obtain ⟨q, hq, rfl⟩ := List.mem_map.mp hmem
      by_cases hp : q.1 = p
      · have hup := (h.ups q hq).2 b
        rw [hp, hplan] at hup
        cases hup
        exact .inr ⟨htype, rfl⟩
      · exact .inl (List.mem_map.mpr ⟨q, List.mem_filter.mpr ⟨hq, by simpa using hp⟩, rfl⟩)
    · exact hmem.elim
  · have hnone : (KeysPc.sending e false).carried = [] := if_neg (by rw [htype]; nofun)
    rw [hnone] at he'
    cases he'

/-- An up that is not sent is about a key that the table does not hold. -/
theorem upDropped (h : Carried printable held keys log) {p : Pressed} {b : Bool}
    (hplan : ∀ e, p.plan printable .up b ≠ .event e) : held.pop p = held := by
  refine List.filter_eq_self.mpr fun q hq => ?_
  have hne : q.1 ≠ p := by
    rintro rfl
    exact hplan _ ((h.ups q hq).2 b)
  simpa using hne

/-- A key that goes down is in the table before it is sent. -/
theorem press (h : Carried printable held .idle log) {p : Pressed}
    (hplan : p.plan printable .down (held.has p) = .event e) (he : e.eventType = .down) :
    Carried printable (held.put p (e.withType .up)) (.sending e false) log := by
  have hhas := (plan_up hplan he false).1
  have hput : held.put p (e.withType .up) = held ++ [(p, e.withType .up)] := by
    unfold Held.put
    rw [hhas]
    rfl
  have hmem : ∀ c, c ∈ heldCodes (held ++ [(p, e.withType .up)]) ↔
      c ∈ heldCodes held ∨ c = e.code := by
    intro c
    simp [heldCodes, KeyEvent.withType]
  rw [hput]
  refine ⟨fun c hc => ?_, fun e' he' => ?_, fun q hq => ?_⟩
  · rcases h.down c hc with hc | hc
    · exact .inl ((hmem c).mpr (.inl hc))
    · exact hc.elim
  · have hone : (KeysPc.sending e false).carried = [e] := if_pos he
    rw [hone] at he'
    rw [List.mem_singleton.mp he']
    exact (hmem _).mpr (.inr rfl)
  · rcases List.mem_append.mp hq with hq | hq
    · exact h.ups q hq
    · rw [List.mem_singleton.mp hq]
      exact ⟨rfl, fun b => (plan_up hplan he b).2⟩

/-- The lane is cancelled in a send that loses nothing. -/
theorem cancel (h : Carried printable held keys log)
    (hsafe : ∀ c, keys.releases c → isDown log (.key c) = true → c ∈ heldCodes held) :
    Carried printable held .finished log := by
  refine ⟨fun c hc => .inl ?_, nofun, h.ups⟩
  rcases h.down c hc with hmem | hmem
  · exact hmem
  · exact hsafe c hmem hc

end Carried

end Input

end AndroidAppliance
