import AndroidAppliance.Input.Stream

/-!
# What the shared input stream promises

A broken call is never written to again, and after `close` no call is opened and no send with an
event to write returns (`shared`). A send without events does return then, against the docstring
of the class (`shared_empty_send`).
-/

namespace AndroidAppliance

namespace Input

namespace InputStream

variable {ε : Type} {s t : InputStream ε} {i : Nat} {x : Send ε}

/-! ### After `close` -/

/-- What one step does to a send that is not over. -/
structure Moved (s t : InputStream ε) (i : Nat) (x : Send ε) : Prop where
  here : s.sends[i]? = some x
  live : ¬ x.Over
  final : ∃ y, t.sends[i]? = some y ∧
    (y.state = .refused ∨ y.state = .cancelled ∨ y.state = .returned ∧ ¬ x.HasMore)
  others : ∀ j, j ≠ i → t.sends[j]? = s.sends[j]?

/-- A send ends. -/
theorem finish_self (hx : s.sends[i]? = some x) (state : SendState) :
    (s.finish i state).sends[i]? = some { x with state := state } :=
  Table.modify_self hx

/-- The others go on. -/
theorem finish_other {j : Nat} (hji : j ≠ i) (state : SendState) :
    (s.finish i state).sends[j]? = s.sends[j]? := by
  simp [finish, setState, Ne.symm hji]

/-- A closed stream refuses the attempt. -/
theorem attempt_of_closed (h : s.closed = true) (opens : Openings) (left : Nat) :
    s.attempt i opens left = s.finish i .refused := by
  cases left with
  | zero => rfl
  | succ left => rw [attempt, if_pos h]

/-- A closed stream refuses what is left. -/
theorem next_of_closed (h : s.closed = true) (hx : s.sends[i]? = some x) (opens : Openings) :
    s.next i opens
      = s.finish i (if x.sent < x.events.length then .refused else .returned) := by
  rw [next, hx]
  dsimp only
  split
  · exact attempt_of_closed h opens 2
  · rfl

/-- The send whose step it is. -/
def Label.send : Label ε → Option Nat
  | .take i _ => some i
  | .wrote i _ => some i
  | .broke i _ => some i
  | .cancel i => some i
  | _ => none

/-- **After `close`** a step of a send is its last one, and opens no call. -/
theorem closed_step (h : Inv s) (hclosed : s.closed = true) {e : Label ε}
    (hstep : s.step e = some t) :
    t.closed = true ∧ t.calls.length = s.calls.length ∧
      ((∃ events, e = .start events ∧ t.sends = s.sends ++ [⟨events, 0, .waiting⟩]) ∨
        (e.send = none ∧ (∀ events, e ≠ .start events) ∧ t.sends = s.sends) ∨
        ∃ i x, e.send = some i ∧ Moved s t i x) := by
  cases stepped hstep with
  | start events => exact ⟨hclosed, rfl, .inl ⟨events, rfl, rfl⟩⟩
  | @take i x opens hx hstate hlock =>
    have hsent := ((h.settled i x hx (by simp [hlock])).waiting hstate).1
    rw [next_of_closed (s := s.locked i) hclosed hx]
    refine ⟨hclosed, rfl, .inr (.inr ⟨i, x, rfl, hx, Send.not_over (.inl hstate),
      ⟨_, finish_self (s := s.locked i) hx _, ?_⟩,
      fun j hji => finish_other (s := s.locked i) hji _⟩)⟩
    by_cases hmore : x.sent < x.events.length
    · exact .inl (if_pos hmore)
    · refine .inr (.inr ⟨if_neg hmore, ?_⟩)
      rw [hsent] at hmore
      simp [Send.HasMore, hstate, hmore]
  | @wrote i left c x e opens hx hstate he =>
    have hx' : (s.written i e).sends[i]? = some { x with sent := x.sent + 1 } :=
      Table.modify_self hx
    rw [next_of_closed (s := s.written i e) hclosed hx']
    refine ⟨hclosed, rfl, .inr (.inr ⟨i, x, rfl, hx, Send.not_over (.inr ⟨left, c, hstate⟩),
      ⟨_, finish_self hx' _, ?_⟩, fun j hji => ?_⟩)⟩
    · by_cases hmore : x.sent + 1 < x.events.length
      · exact .inl (if_pos hmore)
      · refine .inr (.inr ⟨if_neg hmore, ?_⟩)
        simp [Send.HasMore, hstate, hmore]
    · rw [finish_other hji]
      simp [written, Ne.symm hji]
  | @broke i left c x opens hx hstate =>
    rw [attempt_of_closed (s := s.broken c) hclosed]
    refine ⟨hclosed, List.length_modify .., .inr (.inr ⟨i, x, rfl, hx,
      Send.not_over (.inr ⟨left, c, hstate⟩), ⟨_, finish_self hx _, .inl rfl⟩, fun j hji => ?_⟩)⟩
    exact finish_other hji _
  | @cancelWaiting i x hx hstate =>
    exact ⟨hclosed, rfl, .inr (.inr ⟨i, x, rfl, hx, Send.not_over (.inl hstate),
      ⟨_, finish_self hx _, .inr (.inl rfl)⟩, fun j hji => finish_other (s := s) hji .cancelled⟩)⟩
  | @cancelWriting i left c x hx hstate =>
    exact ⟨hclosed, rfl, .inr (.inr ⟨i, x, rfl, hx, Send.not_over (.inr ⟨left, c, hstate⟩),
      ⟨_, finish_self hx _, .inr (.inl rfl)⟩, fun j hji => finish_other (s := s) hji .cancelled⟩)⟩
  | ends c => exact ⟨hclosed, List.length_modify .., .inr (.inl ⟨rfl, by simp, rfl⟩)⟩
  | close => exact ⟨rfl, rfl, .inr (.inl ⟨rfl, by simp, rfl⟩)⟩

/-- While a send is not over, some send can go on. -/
theorem goes_on (h : Inv s) (hx : s.sends[i]? = some x) (hlive : ¬ x.Over) :
    ∃ j opens t, s.step (.take j opens) = some t ∨ s.step (.wrote j opens) = some t := by
  cases hlock : s.lock with
  | none =>
    refine ⟨i, ⟨false, false⟩, (s.locked i).next i ⟨false, false⟩, .inl ?_⟩
    obtain ⟨events, sent, state⟩ := x
    have hidle := (h.settled i _ hx (by simp [hlock])).idle
    cases state with
    | waiting => simp only [step, hx, if_pos hlock]
    | writing left c => exact absurd rfl (hidle left c)
    | returned => exact absurd trivial hlive
    | refused => exact absurd trivial hlive
    | cancelled => exact absurd trivial hlive
  | some j =>
    obtain ⟨⟨events, sent, state⟩, left, c, hy, hstate, hlt⟩ := h.holder j hlock
    obtain rfl : state = .writing left c := hstate
    refine ⟨j, ⟨false, false⟩, (s.written j events[sent]).next j ⟨false, false⟩, .inr ?_⟩
    have hevent : events[sent]? = some events[sent] := List.getElem?_eq_getElem hlt
    rw [step, hy]
    simp only [hevent, Option.map_some]

/-! ### Calls that broke -/

/-- A call that broke, or that is done. -/
def Dead (s : InputStream ε) (c : Nat) : Prop :=
  ∃ call, s.calls[c]? = some call ∧ (call.broken = true ∨ call.done = true)

/-- A call that can be written to. -/
def Healthy (s : InputStream ε) (c : Nat) : Prop :=
  ∃ call, s.calls[c]? = some call ∧ call.broken = false ∧ call.done = false

/-- A call that works is not dead. -/
theorem Healthy.not_dead {c : Nat} (h : Healthy s c) : ¬ Dead s c := by
  rintro ⟨call, hcall, hdead⟩
  obtain ⟨call', hcall', hbroken, hdone⟩ := h
  cases hcall.symm.trans hcall'
  rcases hdead with hdead | hdead
  · cases hbroken.symm.trans hdead
  · cases hdone.symm.trans hdead

/-- A dead call stays so. -/
theorem Dead.modify {c c' : Nat} (h : Dead s c) {f : StreamCall → StreamCall}
    (hf : ∀ call, (call.broken = true ∨ call.done = true) →
      (f call).broken = true ∨ (f call).done = true) (ht : t.calls = s.calls.modify c' f) :
    Dead t c := by
  obtain ⟨call, hcall, hdead⟩ := h
  by_cases hcc : c' = c
  · subst hcc
    exact ⟨_, ht ▸ Table.modify_self hcall, hf call hdead⟩
  · exact ⟨call, ht ▸ Table.modify_ne hcc hcall, hdead⟩

/-- The stretch of a send keeps the calls, but for new ones. -/
theorem attempt_calls (s : InputStream ε) (i : Nat) (opens : Openings) (left : Nat) :
    ∃ new, (s.attempt i opens left).calls = s.calls ++ new := by
  induction left generalizing s with
  | zero => exact ⟨[], (List.append_nil _).symm⟩
  | succ left ih =>
    rw [attempt]
    split
    · exact ⟨[], (List.append_nil _).symm⟩
    split
    · exact ⟨[], (List.append_nil _).symm⟩
    split
    · exact ih { s with call := none }
    · exact ⟨_, rfl⟩

/-- A send opens calls, and takes none away. -/
theorem next_calls (s : InputStream ε) (i : Nat) (opens : Openings) :
    ∃ new, (s.next i opens).calls = s.calls ++ new := by
  rw [next]
  split
  · exact ⟨[], (List.append_nil _).symm⟩
  split
  · exact attempt_calls s i opens 2
  · exact ⟨[], (List.append_nil _).symm⟩

/-- More calls do not wake a dead one. -/
theorem Dead.append {c : Nat} (h : Dead s c) (ht : ∃ new, t.calls = s.calls ++ new) :
    Dead t c := by
  obtain ⟨call, hcall, hdead⟩ := h
  obtain ⟨new, hnew⟩ := ht
  refine ⟨call, ?_, hdead⟩
  rw [hnew, List.getElem?_append_left (List.getElem?_eq_some_iff.mp hcall).1, hcall]

/-- What broke stays broken. -/
theorem Dead.step {c : Nat} (h : Dead s c) {e : Label ε} (hstep : s.step e = some t) :
    Dead t c := by
  cases stepped hstep with
  | start => exact h
  | @take i x opens => exact h.append (next_calls (s.locked i) i opens)
  | @wrote i left c' x e opens => exact h.append (next_calls (s.written i e) i opens)
  | @broke i left c' x opens =>
    have hbroken : Dead (s.broken c') c := h.modify (fun _ _ => .inl rfl) rfl
    exact hbroken.append (attempt_calls (s.broken c') i opens left)
  | cancelWaiting => exact h
  | cancelWriting => exact h
  | ends c' => exact h.modify (fun _ _ => .inr rfl) rfl
  | close => exact h

/-- A write begins on a healthy call. -/
theorem Turn.attempt_healthy (h : Turn s) (opens : Openings) (left : Nat) {y : Send ε}
    {left' c : Nat} (hstate : y.state = .writing left' c) :
    (s.attempt i opens left).sends[i]? = some y → Healthy (s.attempt i opens left) c := by
  have hset : ∀ {s : InputStream ε} {state : SendState},
      (s.setState i state).sends[i]? = some y → state = .writing left' c := by
    intro s state hy
    obtain ⟨z, -, ⟨-, rfl⟩ | ⟨hne, -⟩⟩ := Table.cases_modify hy
    · exact hstate
    · exact absurd rfl hne
  induction left generalizing s with
  | zero =>
    intro hy
    cases hset (s := s) hy
  | succ left ih =>
    rw [InputStream.attempt]
    split
    · intro hy
      cases hset (s := s) hy
    split
    · rename_i c' husable
      intro hy
      obtain ⟨hcall, hdone⟩ := Option.filter_eq_some_iff.mp husable
      cases hset hy
      obtain ⟨call, hget, hbroken⟩ := h.call c hcall
      rw [hget] at hdone
      exact ⟨call, hget, hbroken, by simpa using hdone⟩
    split
    · exact ih ⟨h.settled, h.le, h.last, h.nodup, h.started, h.wire, by simp⟩
    · intro hy
      cases hset hy
      exact ⟨_, Table.append_new, rfl, rfl⟩

/-- A send writes to a call that works. -/
theorem Turn.next_healthy (h : Turn s) (hx : s.sends[i]? = some x) (opens : Openings)
    {y : Send ε} {left c : Nat} (hstate : y.state = .writing left c)
    (hy : (s.next i opens).sends[i]? = some y) : Healthy (s.next i opens) c := by
  rw [InputStream.next, hx] at hy ⊢
  dsimp only at hy ⊢
  by_cases hlt : x.sent < x.events.length
  · rw [if_pos hlt] at hy ⊢
    exact h.attempt_healthy opens 2 hstate hy
  · rw [if_neg hlt, finish_self hx] at hy
    cases hy
    cases hstate

/-- An attempt leaves the other sends. -/
theorem attempt_other {j : Nat} (hji : j ≠ i) (s : InputStream ε) (opens : Openings)
    (left : Nat) : (s.attempt i opens left).sends[j]? = s.sends[j]? := by
  induction left generalizing s with
  | zero => exact finish_other hji _
  | succ left ih =>
    rw [attempt]
    split
    · exact finish_other hji _
    split
    · exact finish_other (s := s) hji _
    split
    · exact ih { s with call := none }
    · exact finish_other (s := s.opened) hji _

/-- So does the next event. -/
theorem next_other {j : Nat} (hji : j ≠ i) (s : InputStream ε) (opens : Openings) :
    (s.next i opens).sends[j]? = s.sends[j]? := by
  rw [next]
  split
  · rfl
  split
  · exact attempt_other hji s opens 2
  · exact finish_other hji _

/-- **A write that begins in a step begins on a healthy call.** -/
theorem Inv.begun (h : Inv s) {e : Label ε} (hstep : s.step e = some t) {left c : Nat}
    (hx : t.sends[i]? = some x) (hstate : x.state = .writing left c)
    (hnew : s.sends[i]? ≠ some x) : Healthy t c := by
  have hcancel : ∀ j, (s.setState j .cancelled).sends[i]? ≠ some x := by
    intro j hx
    obtain ⟨z, hz, ⟨-, rfl⟩ | ⟨-, rfl⟩⟩ := Table.cases_modify hx
    · cases hstate
    · exact hnew hz
  cases stepped hstep with
  | start events =>
    rcases Table.cases_append hx with hx | ⟨-, rfl⟩
    · exact absurd hx hnew
    · cases hstate
  | @take j y opens hj hwaiting hlock =>
    by_cases hij : i = j
    · subst hij
      exact (h.toTurn.locked hlock hj hwaiting).next_healthy hj opens hstate hx
    · rw [next_other hij] at hx
      exact absurd hx hnew
  | @wrote j left' c' y e opens hj hwriting he =>
    by_cases hij : i = j
    · subst hij
      exact (h.toTurn.written (h.writes hj hwriting) hj he).next_healthy
        (Table.modify_self hj) opens hstate hx
    · rw [next_other hij] at hx
      refine absurd ?_ hnew
      rw [← hx]
      simp [InputStream.written, Ne.symm hij]
  | @broke j left' c' y opens hj hwriting =>
    by_cases hij : i = j
    · subst hij
      exact (h.toTurn.broken c').attempt_healthy opens left' hstate hx
    · rw [attempt_other hij] at hx
      exact absurd hx hnew
  | @cancelWaiting j => exact absurd hx (hcancel j)
  | @cancelWriting j => exact absurd hx (hcancel j)
  | ends c' => exact absurd hx hnew
  | close => exact absurd hx hnew

/-! ### What the stream promises -/

/-- What callers rely on, in a state `s` of runs whose steps satisfy `ok`. -/
structure Shared (ok : InputStream ε → Label ε → Prop) (s : InputStream ε) : Prop where
  /-- What was written is, for the sends in the order of the lock, what each has written of its
  events. -/
  order : s.wire = s.took.flatMap s.part ∧ s.took.Nodup
  returned : ∀ (i : Nat) (x : Send ε), s.sends[i]? = some x → x.state = .returned →
    x.sent = x.events.length
  /-- After `close` no call is opened. -/
  opens : s.closed = true → ∀ t, (machine ε).PathBy ok s t → t.calls.length = s.calls.length
  /-- A send that starts later, or that has an event whose write has not begun, ends with
  `ConnectionError` unless it is cancelled. -/
  refused : s.closed = true → ∀ t, (machine ε).PathBy ok s t →
    ∀ (i : Nat) (y : Send ε), t.sends[i]? = some y →
      (s.sends.length ≤ i ∨ ∃ x, s.sends[i]? = some x ∧ x.HasMore) →
      y.Over → y.state = .refused ∨ y.state = .cancelled
  /-- And it does end: each step of a send is its last, and there is one while it is not over. -/
  ends : s.closed = true →
    (∀ e t i, ok s e → s.step e = some t → e.send = some i →
      ∃ y, t.sends[i]? = some y ∧ y.Over) ∧
    ∀ (i : Nat) (x : Send ε), s.sends[i]? = some x → ¬ x.Over →
      ∃ j opens t, s.step (.take j opens) = some t ∨ s.step (.wrote j opens) = some t
  /-- On a call that broke or is done no write begins. -/
  broken : ∀ c, Dead s c → ∀ t u e, (machine ε).PathBy ok s t → t.step e = some u →
    ∀ (i : Nat) (x : Send ε) (left : Nat), u.sends[i]? = some x →
      x.state = .writing left c → t.sends[i]? = some x

/-- A send that starts after `close` has an event. -/
def EventAfterClose (s : InputStream ε) : Label ε → Prop
  | .start events => s.closed = true → 0 < events.length
  | _ => True

instance (s : InputStream ε) : ∀ e, Decidable (EventAfterClose s e)
  | .start events => inferInstanceAs (Decidable (s.closed = true → 0 < events.length))
  | .take _ _ => .isTrue trivial
  | .wrote _ _ => .isTrue trivial
  | .broke _ _ => .isTrue trivial
  | .cancel _ => .isTrue trivial
  | .ends _ => .isTrue trivial
  | .close => .isTrue trivial

/-- A closed stream stays closed, and opens no call. -/
theorem pathBy_closed {ok : InputStream ε → Label ε → Prop} (h : (machine ε).ReachBy ok s)
    (hclosed : s.closed = true) (ht : (machine ε).PathBy ok s t) :
    t.closed = true ∧ t.calls.length = s.calls.length := by
  refine ht.invariant (I := fun t => t.closed = true ∧ t.calls.length = s.calls.length)
    (fun t ht => inv_reachBy ht) ?_ h ⟨hclosed, rfl⟩
  intro t e u hinv ht _ hstep
  obtain ⟨hclosed, hlength, -⟩ := closed_step hinv ht.1 hstep
  exact ⟨hclosed, hlength.trans ht.2⟩

/-- A send of the one kind or the other after `close`, later on. -/
theorem pathBy_refused (h : (machine ε).ReachBy EventAfterClose s) (hclosed : s.closed = true)
    (ht : (machine ε).PathBy EventAfterClose s t) :
    ∀ (i : Nat) (y : Send ε), t.sends[i]? = some y →
      (s.sends.length ≤ i ∨ ∃ x, s.sends[i]? = some x ∧ x.HasMore) →
      y.HasMore ∨ y.state = .refused ∨ y.state = .cancelled := by
  have hpath := ht
  refine (ht.invariant (I := fun t => t.closed = true ∧ ∀ (i : Nat) (y : Send ε),
    t.sends[i]? = some y → (s.sends.length ≤ i ∨ ∃ x, s.sends[i]? = some x ∧ x.HasMore) →
      y.HasMore ∨ y.state = .refused ∨ y.state = .cancelled)
    (fun t ht => inv_reachBy ht) ?_ h ⟨hclosed, ?_⟩).2
  · rintro t e u hinv ⟨hclosed, ht⟩ hok hstep
    obtain ⟨hclosed', -, hcases⟩ := closed_step hinv hclosed hstep
    refine ⟨hclosed', fun i y hy hkind => ?_⟩
    rcases hcases with ⟨events, rfl, hsends⟩ | ⟨-, -, hsends⟩ | ⟨j, x, -, hmoved⟩
    · rw [hsends] at hy
      rcases Table.cases_append hy with hy | ⟨-, rfl⟩
      · exact ht i y hy hkind
      · exact .inl (.inl ⟨rfl, hok hclosed⟩)
    · rw [hsends] at hy
      exact ht i y hy hkind
    · by_cases hij : i = j
      · subst hij
        obtain ⟨z, hz, hover⟩ := hmoved.final
        obtain rfl : y = z := Option.some.inj (hy.symm.trans hz)
        rcases hover with hover | hover | ⟨-, hnone⟩
        · exact .inr (.inl hover)
        · exact .inr (.inr hover)
        · -- A send that returns had no event left, and it was not over before.
          obtain ⟨events, sent, state⟩ := x
          rcases ht i _ hmoved.here hkind with hmore | hstate | hstate
          · exact absurd hmore hnone
          · cases (show state = .refused from hstate)
            exact absurd trivial hmoved.live
          · cases (show state = .cancelled from hstate)
            exact absurd trivial hmoved.live
      · rw [hmoved.others i hij] at hy
        exact ht i y hy hkind
  · rintro i y hy (hle | ⟨x, hx, hmore⟩)
    · exact absurd (List.getElem?_eq_some_iff.mp hy).1 (by omega)
    · cases hx.symm.trans hy
      exact .inl hmore

/-- No run wakes a dead call. -/
theorem Dead.pathBy {ok : InputStream ε → Label ε → Prop} {c : Nat} (h : Dead s c)
    (ht : (machine ε).PathBy ok s t) : Dead t c := by
  induction ht with
  | refl => exact h
  | tail _ he ih =>
    obtain ⟨e, -, hstep⟩ := he
    exact ih.step hstep

/-- **The shared input stream**, in every run in which no send without events starts after
`close`. -/
theorem shared (h : (machine ε).ReachBy EventAfterClose s) : Shared EventAfterClose s := by
  have hinv := inv_reachBy h
  refine ⟨⟨hinv.wire, hinv.nodup⟩, ?_, ?_, ?_, ?_, ?_⟩
  · intro i x hx hreturned
    refine (hinv.settled i x hx fun hlock => ?_).returned hreturned
    obtain ⟨y, left, c, hy, hstate, -⟩ := hinv.holder i hlock
    cases hx.symm.trans hy
    cases hreturned.symm.trans hstate
  · exact fun hclosed t ht => (pathBy_closed h hclosed ht).2
  · intro hclosed t ht i y hy hkind hover
    exact (pathBy_refused h hclosed ht i y hy hkind).resolve_left fun hmore =>
      hmore.not_over hover
  · refine fun hclosed => ⟨fun e t i _ hstep hsend => ?_, fun i x hx hlive =>
      goes_on hinv hx hlive⟩
    obtain ⟨-, -, ⟨events, rfl, -⟩ | ⟨hnone, -⟩ | ⟨j, x, hj, hmoved⟩⟩ :=
      closed_step hinv hclosed hstep
    · cases hsend
    · cases hnone.symm.trans hsend
    · obtain rfl : i = j := Option.some.inj (hsend.symm.trans hj)
      obtain ⟨⟨events, sent, state⟩, hy, hover⟩ := hmoved.final
      refine ⟨_, hy, ?_⟩
      rcases hover with rfl | rfl | ⟨rfl, -⟩ <;> trivial
  · intro c hdead t u e ht hstep i x left hx hstate
    by_contra hnew
    have hbegun := (inv_reachBy (ht.reachBy h)).begun hstep hx hstate hnew
    exact hbegun.not_dead ((hdead.pathBy ht).step hstep)

/-- A call breaks, another takes its place, and `close` falls into the second write. -/
def replaced : List (Label Nat) :=
  [.start [1, 2], .start [3], .take 0 ⟨false, false⟩, .wrote 0 ⟨false, false⟩,
    .broke 0 ⟨false, false⟩, .close, .start [4], .wrote 0 ⟨false, false⟩,
    .take 2 ⟨false, false⟩, .take 1 ⟨false, false⟩]

/-- The call of the second send is replaced, and the stream is closed. -/
theorem shared_replaced : ∃ s, (machine Nat).run fresh replaced = some s ∧
    s.wire = [(0, 1), (0, 2)] ∧
    s.sends.map Send.state = [.returned, .refused, .refused] ∧ Shared EventAfterClose s := by
  have hrun : ((machine Nat).run fresh replaced).map
      (fun s => (s.wire, s.sends.map Send.state))
        = some ([(0, 1), (0, 2)], [.returned, .refused, .refused]) := by decide
  obtain ⟨s, hs, hend⟩ := Option.map_eq_some_iff.mp hrun
  obtain ⟨hwire, hsends⟩ := Prod.mk.inj hend
  exact ⟨s, hs, hwire, hsends, shared (.of_run (.init rfl) (by decide) hs)⟩

/-- A send without events returns after `close`. -/
theorem shared_empty_send : ∃ s t, (machine Nat).run fresh [.close] = some s ∧
    (machine Nat).run s [.start [], .take 0 ⟨false, false⟩] = some t ∧
    s.sends.length ≤ 0 ∧ t.sends[0]? = some ⟨[], 0, .returned⟩ ∧
    ¬ Shared (fun _ _ => True) s := by
  refine ⟨_, _, rfl, rfl, Nat.le_refl 0, rfl, fun h => ?_⟩
  have hstart : (machine Nat).PathBy (fun _ _ => True) _ _ :=
    .single (e := .start []) trivial (s := { fresh with closed := true }) rfl
  have hpath := hstart.tail (e := .take 0 ⟨false, false⟩) trivial rfl
  rcases h.refused rfl _ hpath 0 _ rfl (.inl (Nat.le_refl 0)) trivial with h | h <;> cases h

end InputStream

end Input

end AndroidAppliance
