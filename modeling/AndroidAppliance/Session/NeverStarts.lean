import AndroidAppliance.Session.Steps

/-!
# A session never starts Android

The check of `_paste` and its lease are apart while the modifiers are let go, and the lease
wakes Android. `TextOk` says that a paste which goes on from there finds Android up. In
every run whose steps keep to that, no step of the session begins a boot
(`session_never_starts`); the step that does not keep to it asks for one.
-/

namespace AndroidAppliance

namespace Session

open Supervisor

/-! ### Leases past their start -/

/-- A call that waits there has nothing left to begin. -/
def past : CallPc → Bool
  | .joining _ | .leased | .ended _ => true
  | .created | .stopping _ | .killServer => false

/-- Android is up, or the daemon shuts down: `_start` begins nothing. -/
def Settled (l : Lifecycle) : Prop := l.ctl.state.up = true ∨ l.ctl.closing = true

instance (l : Lifecycle) : Decidable (Settled l) := inferInstanceAs (Decidable (_ ∨ _))

section Leases

variable {s : Sup} {r : Sup × CallPc}

theorem lease_past (h : past r.2 = true) : past (Sup.lease r).2 = true := by
  unfold Sup.lease
  split
  · split <;> rfl
  · rfl
  · exact h

theorem start_settled (h : Settled s.core) :
    (s.start true).1 = s ∧ past (s.start true).2 = true := by
  unfold Sup.start
  by_cases hc : s.core.ctl.closing = true
  · rw [if_pos hc]
    exact ⟨rfl, rfl⟩
  have hup : s.core.ctl.state.up = true := h.resolve_right hc
  rw [if_neg hc]
  cases hs : s.core.ctl.state with
  | running => exact ⟨rfl, rfl⟩
  | starting =>
    refine ⟨rfl, ?_⟩
    simp only [if_true, Lifecycle.joinBoot]
    split <;> rfl
  | stopped | stopping => simp [hs, State.up] at hup

/-- A lease that meets Android up joins the boot or holds the client. -/
theorem enter_lease (h : Settled s.core) :
    (s.enter (.lease true)).1.core = s.core ∧ (s.enter (.lease true)).1.calls = s.calls ∧
      past (s.enter (.lease true)).2 = true := by
  have hset : Settled ({ s with leases := s.leases + 1 } : Sup).core := h
  obtain ⟨hs, hpast⟩ := start_settled hset
  simp only [Sup.enter, if_true, Sup.lease_core, Sup.lease_calls, hs]
  exact ⟨trivial, trivial, lease_past hpast⟩

/-- A lease while the daemon shuts down is over at once. -/
theorem enter_lease_closing (hc : s.core.ctl.closing = true) :
    (s.enter (.lease true)).2 = .ended (.raised .shuttingDown) := by
  simp [Sup.enter, Sup.start, Sup.lease, hc]

/-- What a lease does after its start does not reach the lifecycle. -/
theorem wake_past {t : Call} (hq : t.request = .lease true) (hpast : past t.pc = true)
    (h : s.wake t = some r) : r.1.core = s.core ∧ r.1.calls = s.calls ∧ past r.2 = true := by
  unfold Sup.wake at h
  split at h
  · rename_i hpc
    simp [hpc, past] at hpast
  · rename_i hpc
    simp [hpc, past] at hpast
  · rw [hq] at h
    split at h
    · cases h
      exact ⟨Sup.lease_core _, Sup.lease_calls _, lease_past rfl⟩
    · cases h
      exact ⟨Sup.lease_core _, Sup.lease_calls _, lease_past rfl⟩
    · cases h
  · rename_i hpc
    simp [hpc, past] at hpast
  · cases h
  · cases h

theorem leave_past {t : Call} {ok : Bool} (h : s.leave t ok = some r) : past r.2 = true := by
  unfold Sup.leave at h
  split at h
  · cases h
    rfl
  · cases h

theorem cancel_past {t : Call} (h : s.cancel t = some r) : past r.2 = true := by
  unfold Sup.cancel at h
  split at h <;> cases h <;> rfl

end Leases

namespace Desk

/-! ### What a step of the session may do -/

/-- The lease of the session has been past its start since it waits. -/
def Joined (d : Desk) : Prop :=
  ∀ c, d.own = some c → ∃ t, d.sup.calls[c]? = some t ∧ t.request = .lease true ∧
    past t.pc = true

/-- What a step of the session leaves as it is. -/
structure Spares (d d' : Desk) : Prop where
  /-- Nothing of the lifecycle changes but the time of the last use: no boot was begun. -/
  core : d'.sup.core = d.sup.core ∨ d'.sup.core = d.sup.core.touch
  /-- The calls of the others stay where they are, and none is left behind that could begin
  a boot later: a call of the session is the one that it waits for, or is over. -/
  calls : ∀ c t, d'.sup.calls[c]? = some t → d'.own = some c ∨ (∃ res, t.pc = .ended res) ∨
    d.own ≠ some c ∧ d.sup.calls[c]? = some t
  /-- While Android is down, a key event is dropped, unless it is one of those that a closed
  session lets go on the channel that it had, ... -/
  drops : d.sup.core.ctl.state.up = false → d'.sent = d.sent ∨ ∃ rest, d.pc = .releasing rest
  /-- ... and a paste fails. -/
  fails : d.sup.core.ctl.state.up = false → d'.own = none ∨ d'.own = d.own

/-- A paste that goes on after its modifiers finds Android up. -/
def TextOk (d : Desk) (ev : Event) : Prop :=
  d.lifts = true → ev = .sentKey true → Settled d.sup.core

instance (d : Desk) (ev : Event) : Decidable (TextOk d ev) :=
  inferInstanceAs (Decidable (_ → _))

variable {cfg : Supervisor.Config} {printable : Char → Bool} {d d' d₁ : Desk} {ev : Event}

theorem up_of_running (h : d.runningGrpc = true) : d.sup.core.ctl.state.up = true := by
  simp only [runningGrpc, Bool.and_eq_true, decide_eq_true_eq] at h
  rw [h.1]
  rfl

theorem not_running (h : d.sup.core.ctl.state.up = false) : d.runningGrpc = false := by
  by_contra hrun
  rw [Bool.not_eq_false] at hrun
  rw [up_of_running hrun] at h
  cases h

/-! ### Steps without a lease -/

theorem Keeps.core (h : d.Keeps d') :
    d'.sup.core = d.sup.core ∨ d'.sup.core = d.sup.core.touch := by
  rcases h.sup with hsup | hsup
  · exact .inl (by rw [hsup])
  · exact .inr (by rw [hsup]; rfl)

theorem Keeps.calls (h : d.Keeps d') : d'.sup.calls = d.sup.calls := by
  rcases h.sup with hsup | hsup <;> rw [hsup]
  rfl

theorem Keeps.joined (h : d.Keeps d') (hj : d.Joined) : d'.Joined := by
  intro c hc
  rw [h.own] at hc
  rw [h.calls]
  exact hj c hc

theorem Keeps.spares (h : d.Keeps d') : d.Spares d' := by
  refine ⟨h.core, fun c t ht => ?_, fun hup => ?_, fun _ => .inr h.own⟩
  · rw [h.calls] at ht
    by_cases hc : d.own = some c
    · exact .inl (h.own.trans hc)
    · exact .inr (.inr ⟨hc, ht⟩)
  · rcases h.sent with hsent | hrun | hrest
    · exact .inl hsent
    · rw [not_running hup] at hrun
      cases hrun
    · exact .inr hrest

/-! ### The lease of a paste -/

/-- A step of the lease: afterwards the session waits for it, past its start, or has put
the keys down again. -/
theorem lease_spares (sup : Sup) (c : Nat) (t : Call) (ups : List KeyEvent)
    (hcore : sup.core = d.sup.core ∨ sup.core = d.sup.core.touch)
    (hcalls : ∀ i t, sup.calls[i]? = some t → i = c ∨ d.own ≠ some i ∧ d.sup.calls[i]? = some t)
    (hsent : d₁.sent = d.sent) (hd : d₁.sup = sup) (hpc : d₁.pc = .texting c ups)
    (ht : sup.calls[c]? = some t) (hq : t.request = .lease true) (hpast : past t.pc = true)
    (hdown : d.sup.core.ctl.state.up = false → d.own = some c ∨ ∃ res, t.pc = .ended res) :
    (d₁.afterCall c ups).Joined ∧ d.Spares (d₁.afterCall c ups) := by
  subst hd
  have hrun : d₁.runningGrpc = d.runningGrpc := by
    unfold runningGrpc
    rcases hcore with h | h <;> rw [h]
    rfl
  have hown : d₁.own = some c := by unfold own; rw [hpc]
  have hother : ∀ {e : Desk} (i : Nat) (u : Call), d₁.sup.calls[i]? = some u → i ≠ c →
      e.own = some i ∨ (∃ res, u.pc = .ended res) ∨ d.own ≠ some i ∧ d.sup.calls[i]? = some u :=
    fun i u hu hne => .inr (.inr ((hcalls i u hu).resolve_left hne))
  by_cases hend : ∃ res, t.pc = .ended res
  · -- the lease is over: the keys go down again
    obtain ⟨res, hres⟩ := hend
    have hafter : d₁.afterCall c ups = d₁.restore ups := by
      obtain ⟨q, pc⟩ := t
      cases hres
      simp only [afterCall, ht]
    rw [hafter]
    obtain ⟨hsup, hnone, hkeys⟩ := restore_spec (d := d₁) ups
    refine ⟨fun i hi => ?_, hsup ▸ hcore, fun i u hu => ?_, fun hup => .inl ?_,
      fun _ => .inl hnone⟩
    · rw [hnone] at hi
      cases hi
    · rw [hsup] at hu
      by_cases hi : i = c
      · subst hi
        cases ht.symm.trans hu
        exact .inr (.inl ⟨res, hres⟩)
      · exact hother i u hu hi
    · rw [hrun, not_running hup] at hkeys
      exact (hkeys.resolve_right Bool.false_ne_true).trans hsent
  · have hafter : d₁.afterCall c ups = d₁ := by
      simp only [afterCall, ht]
      split
      · rename_i h
        cases h
        exact absurd ⟨_, rfl⟩ hend
      · rfl
    rw [hafter]
    refine ⟨fun i hi => ?_, hcore, fun i u hu => ?_, fun _ => .inl hsent, fun hup => .inr ?_⟩
    · cases hown.symm.trans hi
      exact ⟨t, ht, hq, hpast⟩
    · by_cases hi : i = c
      · exact .inl (hi ▸ hown)
      · exact hother i u hu hi
    · exact hown.trans ((hdown hup).resolve_right hend).symm

/-- `backend.text` when `_start` has nothing to begin. -/
theorem text_spares (hset : Settled d.sup.core) (hsup : d₁.sup = d.sup)
    (hsent : d₁.sent = d.sent) (hown : d.own = none) (ups : List KeyEvent) :
    (d₁.text ups).Joined ∧ d.Spares (d₁.text ups) := by
  obtain ⟨hcore, hcalls, hpast⟩ := enter_lease hset
  unfold text
  rw [hsup]
  refine lease_spares (Sup.addCall (.lease true) (d.sup.enter (.lease true))) _
    { request := .lease true, pc := (d.sup.enter (.lease true)).2 } ups (.inl hcore)
    (fun i t ht => ?_) hsent rfl rfl Table.append_new rfl hpast (fun hup => .inr ?_)
  · rcases Table.cases_append ht with ht | ⟨hi, -⟩
    · rw [hcalls] at ht
      exact .inr ⟨by rw [hown]; exact Option.some_ne_none i |>.symm, ht⟩
    · exact .inl hi
  · have hclosing := hset.resolve_left (by rw [hup]; exact Bool.false_ne_true)
    exact ⟨_, enter_lease_closing hclosing⟩

/-- Whichever step the lease takes, its call moves on and the lifecycle does not. -/
theorem lease_step {s s' : Sup} {c : Nat} {t : Call} {f : Nat → SupEvent}
    (hf : f = .resume ∨ (∃ ok, f = fun c => .leave c ok) ∨ f = .cancel)
    (ht : s.calls[c]? = some t) (hq : t.request = .lease true) (hpast : past t.pc = true)
    (h : s.step cfg (f c) = some s') : ∃ r : Sup × CallPc, s' = Sup.setCall c r ∧
      (r.1.core = s.core ∨ r.1.core = s.core.touch) ∧ r.1.calls = s.calls ∧ past r.2 = true := by
  rcases hf with rfl | ⟨ok, rfl⟩ | rfl
  · simp only [Sup.step, ht, Option.bind_some] at h
    obtain ⟨r, hr, rfl⟩ := Option.map_eq_some_iff.mp h
    obtain ⟨hcore, hcalls, hpast'⟩ := wake_past hq hpast hr
    exact ⟨r, rfl, .inl hcore, hcalls, hpast'⟩
  · simp only [Sup.step, ht, Option.bind_some] at h
    obtain ⟨r, hr, rfl⟩ := Option.map_eq_some_iff.mp h
    exact ⟨r, rfl, Sup.leave_core hr, Sup.leave_calls hr, leave_past hr⟩
  · simp only [Sup.step, ht, Option.bind_some] at h
    obtain ⟨r, hr, rfl⟩ := Option.map_eq_some_iff.mp h
    exact ⟨r, rfl, .inl (Sup.cancel_core hr), Sup.cancel_calls hr, cancel_past hr⟩

theorem call_spares {f : Nat → SupEvent}
    (hf : f = .resume ∨ (∃ ok, f = fun c => .leave c ok) ∨ f = .cancel) (hj : d.Joined)
    (hs : d.Sits d₁) (h : d₁.callStep cfg f = some d') : d'.Joined ∧ d.Spares d' := by
  obtain ⟨c, ups, sup, hpc, hstep, rfl⟩ := callStep_step h
  have hown : d.own = some c := by
    rw [← hs.own]
    unfold own
    rw [hpc]
  obtain ⟨t, ht, hq, hpast⟩ := hj c hown
  rw [hs.sup] at hstep
  obtain ⟨r, rfl, hcore, hcalls, hpast'⟩ := lease_step hf ht hq hpast hstep
  refine lease_spares (Sup.setCall c r) c { t with pc := r.2 } ups hcore (fun i u hu => ?_)
    hs.sent rfl hpc ?_ hq hpast' (fun _ => .inl hown)
  · simp only [Sup.setCall, hcalls] at hu
    obtain ⟨v, hv, ⟨rfl, -⟩ | ⟨hne, rfl⟩⟩ := Table.cases_modify hu
    · exact .inl rfl
    · refine .inr ⟨fun hi => hne ?_, hv⟩
      exact Option.some.inj (hown.symm.trans hi)
  · simp only [Sup.setCall, hcalls]
    exact Table.modify_self ht

/-! ### Every run -/

/-- A step of the session when its paste finds Android up. -/
theorem Act.spares (ha : d.Act cfg ev d') (hok : TextOk d ev) (hj : d.Joined) :
    d'.Joined ∧ d.Spares d' := by
  cases ha with
  | keeps hk => exact ⟨hk.joined hj, hk.spares⟩
  | text ups hsup hsent hown hgo =>
    refine text_spares ?_ hsup hsent hown ups
    rcases hgo with hrun | ⟨-, hlifts, hev⟩
    · exact .inl (up_of_running hrun)
    · exact hok hlifts hev
  | call hs hf hcall => exact call_spares hf hj hs hcall

/-- The others do not move the call of the session. -/
theorem Joined.others {ev : SupEvent} (hj : d.Joined)
    (h : (desk cfg printable).step d (.others ev) = some d') : d'.Joined := by
  replace h : d.step cfg printable (.others ev) = some d' := h
  simp only [step] at h
  split at h
  · cases h
  rename_i hfree
  obtain ⟨sup, hsup, rfl⟩ := Option.map_eq_some_iff.mp h
  intro c hc
  obtain ⟨t, ht, hq, hpast⟩ := hj c hc
  rcases Sup.step_calls hsup ht with hstay | ⟨r, -, -, hev⟩
  · exact ⟨t, hstay, hq, hpast⟩
  · have hcaller : caller ev = some c := by
      rcases hev with ⟨rfl, -⟩ | ⟨rfl, -⟩ | ⟨ok, rfl, -⟩ | ⟨rfl, -⟩ <;> rfl
    have hown : d.own = some c := hc
    exact absurd ⟨by rw [hcaller]; rfl, hcaller.trans hown.symm⟩ hfree

theorem joined (h : (desk cfg printable).ReachBy TextOk d) : d.Joined := by
  refine h.invariant (fun d hd c hc => ?_) (fun d ev d' hj hok hstep => ?_)
  · rw [hd.2] at hc
    cases hc
  · cases hses : ev.bySession with
    | true => exact ((Act.of_step hses hstep).spares hok hj).1
    | false =>
      cases ev with
      | others ev => exact hj.others hstep
      | message | sentInput | «end» | scroll | job | sentKey | leased | pasted | control
      | opened | statusChanged | close | letGo => cases hses

/-! ### A paste that finds Android down -/

/-- The rest of the modifiers is skipped, and the lease follows in the same stretch. -/
theorem lift_down (hrun : d.runningGrpc = false) (text : String) (ups rest : List KeyEvent) :
    d.lift text ups rest = d.text ups := by
  induction rest with
  | nil => rfl
  | cons up rest ih =>
    unfold lift
    rw [hrun]
    exact ih

/-- The lease begins a boot, or waits for the stop to begin one. -/
theorem text_asks (ht : TasksOk d.sup.core.ctl) (hset : ¬ Settled d.sup.core)
    (ups : List KeyEvent) : (d.text ups).sup.core = d.sup.core.beginBoot ∨
      ∃ c k, (d.text ups).own = some c ∧
        (d.text ups).sup.calls[c]? = some { request := .lease true, pc := .stopping k } := by
  obtain ⟨hup, hc⟩ := not_or.mp hset
  cases hs : d.sup.core.ctl.state with
  | running | starting => exact absurd (by rw [hs]; rfl) hup
  | stopped =>
    refine .inl ?_
    unfold text
    rw [afterCall_sup]
    simp [Sup.addCall, Sup.enter, Sup.start, hc, hs]
  | stopping =>
    obtain ⟨k, -, hk, -⟩ := ht.stopping hs
    have henter : d.sup.enter (.lease true) =
        ({ d.sup with leases := d.sup.leases + 1 }, .stopping k) := by
      simp [Sup.enter, Sup.start, Sup.awaitStop, Sup.lease, hc, hs, hk]
    have hcall : (Sup.addCall (.lease true) (d.sup.enter (.lease true))).calls[
        (d.sup.enter (.lease true)).1.calls.length]? =
          some { request := .lease true, pc := .stopping k } := by
      rw [henter]
      exact Table.append_new
    refine .inr ⟨(d.sup.enter (.lease true)).1.calls.length, k, ?_, ?_⟩
    · unfold text afterCall
      dsimp only
      rw [hcall]
      rfl
    · unfold text
      rw [afterCall_sup]
      exact hcall

/-- **A session never starts Android**, as far as its pastes find Android up after they let
the modifiers go. In every run in which they do, a step of the session leaves the lifecycle
alone exactly when it keeps to that itself; the paste that does not begins a boot, or waits
for the end of a stop in order to begin one. -/
theorem session_never_starts (h : (desk cfg printable).ReachBy TextOk d)
    (hses : ev.bySession = true) (hstep : d.step cfg printable ev = some d') :
    d'.Joined ∧ d.Spares d' ↔ TextOk d ev := by
  refine ⟨fun hspares => ?_, fun hok => (Act.of_step hses hstep).spares hok (joined h)⟩
  rintro hlifts rfl
  by_contra hset
  obtain ⟨text, ups, rest, hpc⟩ : ∃ text ups rest, d.pc = .lifting text ups rest := by
    cases hpc : d.pc with
    | lifting text ups rest => exact ⟨text, ups, rest, rfl⟩
    | idle | sending | texting | restoring | releasing => simp [lifts, hpc] at hlifts
  have hrun : d.runningGrpc = false := not_running (by simpa using (not_or.mp hset).1)
  simp only [step, sentKey, hpc, if_true, Option.some.injEq] at hstep
  rw [lift_down hrun] at hstep
  subst hstep
  have hsup : (supervisor cfg).Reachable d.sup :=
    (desk_simulation cfg printable).reachBy (h.mono fun _ _ _ => trivial)
  rcases text_asks (tasksOk (reachable_core hsup)) hset ups with hbegin | ⟨c, k, hown, hcall⟩
  · have hstate : (d.text ups).sup.core.ctl.state = d.sup.core.ctl.state := by
      rcases hspares.2.core with hcore | hcore <;> rw [hcore]
      rfl
    rw [hbegin] at hstate
    exact hset (.inl (by rw [← hstate]; rfl))
  · obtain ⟨t, ht, -, hpast⟩ := hspares.1 c hown
    cases ht.symm.trans hcall
    cases hpast

end Desk

/-! ### Runs -/

/-- A session that was just opened. -/
def Desk.fresh : Desk :=
  { sup := .fresh, held := [], right := false, jobs := [], pc := .idle, control := [],
    opening := false, streaming := false, notches := false, scroll := .idle, reading := true,
    input := none, closed := false, sent := [] }

/-- Android runs, Control is held, and a text waits while Control lets go for it. -/
def pasteRun : List Event :=
  bootRun.map .others ++ [.statusChanged, .message (.key "Control" .down), .job, .sentKey true,
    .message (.text "hi"), .job]

theorem session_never_starts_paste : ∃ d d' : Desk,
    (desk ⟨0, 180, 30⟩ fun _ => false).run .fresh pasteRun = some d ∧ d.lifts = true ∧
      d.step ⟨0, 180, 30⟩ (fun _ => false) (.sentKey true) = some d' ∧
      d'.own = some 1 ∧ d'.Joined ∧ d.Spares d' := by
  have hok : (desk ⟨0, 180, 30⟩ fun _ => false).RunOk Desk.TextOk .fresh pasteRun := by decide
  obtain ⟨d, d', hrun, hlifts, hstep, hown, htext⟩ : ∃ d d' : Desk,
      (desk ⟨0, 180, 30⟩ fun _ => false).run .fresh pasteRun = some d ∧ d.lifts = true ∧
        d.step ⟨0, 180, 30⟩ (fun _ => false) (.sentKey true) = some d' ∧ d'.own = some 1 ∧
        d.sup.core.ctl.state.up = true :=
    ⟨_, _, rfl, rfl, rfl, rfl, rfl⟩
  have hreach : (desk ⟨0, 180, 30⟩ fun _ => false).ReachBy Desk.TextOk d :=
    .of_run (.init ⟨Sup.fresh_initial, rfl⟩) hok hrun
  exact ⟨d, d', hrun, hlifts, hstep, hown,
    (Desk.session_never_starts hreach rfl hstep).mpr fun _ _ => .inl htext⟩

/-- Somebody stops Android while Control lets go. -/
def stoppedPasteRun : List Event :=
  pasteRun ++ [.others (.call (.stop true)), .statusChanged] ++
    [.go, .torn (.adb .timeout), .torn (.adb .timeout), .torn .waited].map
      (fun w => .others (.loop (.stop 0 w))) ++
    [.others (.loop (.exit 0 0)), .others (.loop (.stop 0 (.torn .waited))),
      .others (.loop (.stop 0 (.torn .closed))), .statusChanged]

/-- The text of the session starts Android again. -/
theorem session_starts : ¬ ∀ (cfg : Supervisor.Config) (printable : Char → Bool) (d d' : Desk)
    (ev : Event), (desk cfg printable).Reachable d → ev.bySession = true →
      d.step cfg printable ev = some d' → d.sup.core.ctl.state = .stopped →
      d'.sup.core.ctl.state = .stopped := by
  intro hall
  obtain ⟨d, d', hrun, hs, hstep, hs'⟩ : ∃ d d' : Desk,
      (desk ⟨0, 180, 30⟩ fun _ => false).run .fresh stoppedPasteRun = some d ∧
        d.sup.core.ctl.state = .stopped ∧
        d.step ⟨0, 180, 30⟩ (fun _ => false) (.sentKey true) = some d' ∧
        d'.sup.core.ctl.state = .starting :=
    ⟨_, _, rfl, rfl, rfl, rfl⟩
  have hreach : (desk ⟨0, 180, 30⟩ fun _ => false).Reachable d :=
    Machine.Reachable.of_run (.init ⟨Sup.fresh_initial, rfl⟩) hrun
  have hno := hall _ _ d d' _ hreach rfl hstep hs
  rw [hs'] at hno
  cases hno

end Session

end AndroidAppliance
