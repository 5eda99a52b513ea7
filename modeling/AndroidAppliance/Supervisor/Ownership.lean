import AndroidAppliance.Supervisor.History
import AndroidAppliance.Supervisor.Resources
import AndroidAppliance.Supervisor.Transitions
import AndroidAppliance.Supervisor.Watchers

/-!
# Who owns a boot future

A boot future that is not resolved yet has an owner that will resolve it or pass it on: the
boot task, the watcher of the current emulator, or the stop task that captured it. It fails
only at the end of a stop, when everything has been torn down, and so its waiters learn of
a failure no earlier.
-/

namespace AndroidAppliance

namespace Supervisor

/-! ### A boot that left the rest to the watcher -/

/-- The condition on a run: no read of a log fails and no step of a teardown raises. -/
def NoFailures (l : Lifecycle) (ev : Event) : Prop := ReadsOk l ev ∧ TeardownsOk l ev

instance (l : Lifecycle) (ev : Event) : Decidable (NoFailures l ev) :=
  inferInstanceAs (Decidable (_ ∧ _))

/-- The watcher of the current emulator will step: the process is gone, and nobody has
begun to stop it. -/
def Devices.Awaited (d : Devices) : Prop :=
  ∃ m, d.current = some m ∧ m.Watched ∧ m.returncode ≠ none

/-- In STARTING without a boot task the watcher is at work. -/
def OrphanOk (l : Lifecycle) : Prop :=
  l.info.crashes ≠ none → l.stage = .orphaned → l.dev.Awaited

theorem EmuStep.returncode {e : Nat} {m m' : Emu} {ev : Event} (hs : EmuStep e m ev m')
    (hm : m.returncode ≠ none) : m'.returncode ≠ none := by
  cases hs <;> first | exact hm | simp

/-- A boot that fails beside a dead emulator has launched that emulator itself. -/
theorem BootRaises.awaited {l : Lifecycle} {b : Nat} {dev : Devices} {t : Boot} {w : Wake}
    {x : BootError} (h : BootRaises l.ctl l.dev t w x dev) (hb : l.ctl.boots[b]? = some t)
    (hok : TeardownsOk l (.boot b w)) (hr : ResourcesOk l.dev (.booting t))
    (hw : WatchOk l.dev (.booting t)) (hk : dev.Known)
    (hdead : dev.emu.all dev.alive = false) : dev.Awaited := by
  obtain ⟨e, he, halive⟩ : ∃ e, dev.emu = some e ∧ dev.alive e = false := by
    cases hemu : dev.emu with
    | none => rw [hemu] at hdead; cases hdead
    | some e => exact ⟨e, rfl, by simpa [hemu] using hdead⟩
  have hclosed : ∀ {dev : Devices}, dev.Closing .done → dev.emu ≠ some e := by
    rintro dev hcl hcon
    rw [hcl.1] at hcon
    cases hcon
  cases h with
  | prepare hpc hprev _ =>
    have htidy := hr.tidy
    simp only [Tidy, hpc] at htidy
    exact absurd he (hclosed (htidy hprev))
  | torn ht _ =>
    have hcl := ht.closing hr.tidy
    exact absurd he (hclosed hcl)
  | teardown ht => exact absurd rfl (ht.not_raised hb hok)
  | launch hpc =>
    obtain ⟨m, hm⟩ : ∃ m, l.dev.emus[e]? = some m := ⟨_, List.getElem?_eq_getElem (hk e he)⟩
    have hcur : l.dev.current = some m := (Devices.current_eq he).trans hm
    have hcode : m.returncode ≠ none := by
      intro hnone
      have : l.dev.alive e = true := Devices.alive_eq_true.mpr ⟨m, hm, hnone⟩
      rw [halive] at this
      cases this
    have htidy := hr.tidy
    have hwatch := hw m hcur
    refine ⟨m, hcur, ?_, hcode⟩
    cases hp : t.pc <;> simp only [Tidy, WatchedIn, hp] at htidy hwatch <;>
      first
        | exact hwatch
        | exact absurd he (hclosed htidy)
        | exact absurd (htidy.1.symm.trans he) (by simp)
        | simp [hp, BootPc.launching] at hpc

theorem Act.orphanOk {cfg : Config} {l l' : Lifecycle} {ev : Event}
    (hr : ResourcesOk l.dev l.stage) (hw : WatchOk l.dev l.stage) (hk : l'.dev.Known)
    (hc : l'.info.crashes.isSome = l.info.crashes.isSome) (hok : NoFailures l ev)
    (h : OrphanOk l) (ha : Act cfg l ev l') : OrphanOk l' := by
  intro hjson hst'
  have hjson' : l.info.crashes ≠ none := by
    rw [← Option.isSome_iff_ne_none] at hjson ⊢
    rwa [← hc]
  cases ha with
  | quiet hst hdev =>
    rw [hdev]
    exact h hjson' (hst ▸ hst')
  | bootDrops hb hst hraise _ hx =>
    obtain ⟨hdead, -⟩ := hx.resolve_left hjson'
    exact hraise.awaited hb hok.2 (hst ▸ hr) (hst ▸ hw) hk hdead
  | emu hst hm hs hdev =>
    rw [hdev]
    obtain ⟨u, hu, hwatched, hcode⟩ := h hjson' (hst ▸ hst')
    obtain ⟨i, hi, hu'⟩ := Option.bind_eq_some_iff.mp hu
    rename_i e m m'
    by_cases hei : e = i
    · subst hei
      cases hm.symm.trans hu'
      have hup : l.ctl.state.up = true := by
        rw [← Control.up_stage, ← Lifecycle.stage, ← hst, hst']
        rfl
      have hwatched' := hs.watched (hok.1.logsOk l ev) hi hm hup hwatched
      exact ⟨m', Devices.current_of hi (Table.set_self hm), hwatched', hs.returncode hcode⟩
    · exact ⟨u, Devices.current_of hi (Table.set_ne hei hu'), hwatched, hcode⟩
  | watchFailed hst hm _ hl hdev =>
    rw [hdev]
    obtain ⟨u, hu, hwatched, hcode⟩ := h hjson' (hst ▸ hst')
    obtain ⟨i, hi, hu'⟩ := Option.bind_eq_some_iff.mp hu
    refine ⟨u, Devices.current_of hi (Table.modify_ne ?_ hu'), hwatched, hcode⟩
    rintro rfl
    cases hm.symm.trans hu'
    exact hwatched.log hl
  | watchDropped hst hm _ hdrop hdev =>
    rw [hdev]
    obtain ⟨u, hu, hwatched, hcode⟩ := h hjson' (hst ▸ hst')
    obtain ⟨i, hi, hu'⟩ := Option.bind_eq_some_iff.mp hu
    refine ⟨u, Devices.current_of hi (Table.modify_ne ?_ hu'), hwatched, hcode⟩
    rintro rfl
    rcases hdrop with hne | hdown
    · exact hne hi
    · rcases Control.stage_down hdown with hs | ⟨t, hs⟩
      · rw [hst, Lifecycle.stage, hs] at hst'; cases hst'
      · rw [hst, Lifecycle.stage, hs] at hst'; cases hst'
  | begin _ h' _ | halts _ h' _ _ | bootWaits _ _ _ h' | bootFails _ _ _ h' _
  | bootDone _ _ h' _ | stopAwaits _ _ h' _ | stopWaits _ _ _ h' | stopDone _ _ _ _ h'
  | retries _ _ _ _ h' _ _ =>
    rw [h'] at hst'
    cases hst'

theorem orphanOk {cfg : Config} {l : Lifecycle} (h : (lifecycle cfg).ReachBy NoFailures l) :
    OrphanOk l :=
  Machine.ReachBy.invariant_of (I := OrphanOk)
    (J := fun l => (lifecycle cfg).ReachBy NoFailures l) (fun _ hr => hr)
    (by rintro _ ⟨_, _, _, _, _, rfl⟩ - hst; cases hst)
    (fun _ _ _ hJ hI hok hstep =>
      have hact := step_act hJ.reachable hstep
      hact.orphanOk (resourcesOk (hJ.mono fun _ _ h => h.2))
        (watchOk (hJ.mono fun l ev h => h.1.logsOk l ev)) (known (hJ.reachable.step hstep))
        (Lifecycle.step_crashes hstep) hok hI) h

/-! ### Owners -/

/-- Who will resolve the boot future `f`, or pass it on. -/
inductive Lifecycle.Owner (l : Lifecycle) (f : Nat) : Prop
  /-- The boot task, neither done nor cancelled. -/
  | boot {b : Nat} {t : Boot} : l.ctl.bootDone = some f → l.ctl.bootTask = some b →
      l.ctl.boots[b]? = some t → t.cancelled = false → t.pc ≠ .ended → l.Owner f
  /-- The watcher of the current emulator, the process of which is gone. -/
  | watcher {e : Nat} {m : Emu} : l.ctl.bootDone = some f → l.ctl.state = .starting →
      l.dev.emu = some e → l.dev.emus[e]? = some m → m.watch = .pending → m.log ≠ .failed →
      m.returncode ≠ none → l.Owner f
  /-- The stop task that captured the future. -/
  | stop {k : Nat} {t : Stop} : l.ctl.stops[k]? = some t → t.pc ≠ .ended → t.done = some f →
      l.Owner f

/-- Every pending boot future has an owner. -/
theorem owner_of_pending {cfg : Config} {l : Lifecycle}
    (h : (lifecycle cfg).ReachBy NoFailures l) (hjson : l.info.crashes ≠ none) {f : Nat}
    {t : Future} (hf : l.ctl.futures[f]? = some t) (hn : t.result = none) : l.Owner f := by
  have ht := tasksOk h.reachable
  obtain ⟨hdone, hs | hs⟩ := ht.pending f t hf hn
  · rcases Control.stage_starting hs with ⟨u, hu⟩ | horphan
    · obtain ⟨-, b, hb, hu', hc, hpc⟩ := Control.of_stage_booting hu
      exact .boot hdone hb hu' hc hpc
    · obtain ⟨m, hm, hwatched, hcode⟩ := orphanOk h hjson horphan
      obtain ⟨e, he, hm⟩ := Option.bind_eq_some_iff.mp hm
      exact .watcher hdone hs he hm hwatched.watch hwatched.log hcode
  · obtain ⟨k, u, -, hk, hpc⟩ := ht.stopping hs
    obtain ⟨-, -, -, hcap⟩ := ht.stopLive k u hk hpc
    exact .stop hk hpc (hcap.trans hdone)

/-! ### The moment of a failure -/

/-- A boot future fails only at the end of a stop task. -/
theorem Move.fails {cfg : Config} {l l' : Lifecycle} {ev : Event} (h : TasksOk l.ctl)
    (hm : Move cfg l ev l') {f : Nat} {t t' : Future} {x : LifecycleError}
    (hf : l.ctl.futures[f]? = some t) (hn : t.result = none)
    (hf' : l'.ctl.futures[f]? = some t') (hx : t'.result = some (.error x)) :
    l'.ctl.state = .stopped := by
  have hsame : l.ctl.futures[f]? = some t' → l'.ctl.state = .stopped := by
    intro hf'
    cases hf.symm.trans hf'
    rw [hn] at hx
    cases hx
  cases hm with
  | stopDone => rfl
  | begin =>
    rcases Table.cases_append hf' with hf' | ⟨-, rfl⟩
    · exact hsame hf'
    · cases hx
  | bootDone hb hc hpc =>
    obtain ⟨g, u, hdone, hu, hun⟩ := h.starting (h.bootLive _ _ hb hc (by simp [hpc])).1
    rw [complete_ctl hdone] at hf'
    obtain ⟨v, hv, ⟨rfl, rfl⟩ | ⟨-, rfl⟩⟩ := Table.cases_modify hf'
    · cases hu.symm.trans hv
      simp [Future.set, hun] at hx
    · exact hsame hv
  | watchRetries =>
    rcases TasksOk.cases_renew
      (c := { l.ctl with retried := true, state := .starting }.cancelBoot none) hf' with hf' | rfl
    · exact hsame hf'
    · cases hx
  | halt | shutdownUp | shutdownDown | every | touch | clock | bootWaits | bootFails
  | bootDrops | unwound | stopAwaits | stopWaits | emu | watchFailed | watchDropped
  | watchStops => exact hsame hf'

/-- A call fails a boot future no earlier than its event does. -/
theorem CallStep.fails {cfg : Config} {l l' : Lifecycle} (h : TasksOk l.ctl)
    (hc : CallStep cfg l l') {f : Nat} {t t' : Future} {x : LifecycleError}
    (hf : l.ctl.futures[f]? = some t) (hn : t.result = none)
    (hf' : l'.ctl.futures[f]? = some t') (hx : t'.result = some (.error x)) :
    l'.ctl.state = .stopped := by
  have hsame : l.ctl.futures[f]? ≠ some t' := by
    rintro hf'
    cases hf.symm.trans hf'
    rw [hn] at hx
    cases hx
  cases hc with
  | idle => exact absurd hf' hsame
  | touch => exact absurd hf' hsame
  | event _ he => exact (step_move he).fails h hf hn hf' hx
  | touchEvent _ he => exact (step_move he).fails (l := l.touch) h hf hn hf' hx

/-- In STOPPED the emulator, the gRPC client and the X server are closed, and every emulator
has been torn down. -/
structure Lifecycle.Down (l : Lifecycle) : Prop where
  state : l.ctl.state = .stopped
  closed : l.dev.emu = none ∧ l.dev.grpc = none ∧ l.dev.xvnc = none
  torn : ∀ m ∈ l.dev.emus, m.torn = true

theorem Lifecycle.down {cfg : Config} {l : Lifecycle}
    (h : (lifecycle cfg).ReachBy TeardownsOk l) (hs : l.ctl.state = .stopped) : l.Down := by
  obtain ⟨htidy, hheld⟩ := resourcesOk h
  rw [Lifecycle.stage, Control.stage_stopped hs] at htidy
  refine ⟨hs, htidy, fun m hm => ?_⟩
  obtain ⟨e, he⟩ := List.mem_iff_getElem?.mp hm
  by_contra htorn
  have := hheld.emus e m he (by simpa using htorn)
  rw [htidy.1] at this
  cases this

/-! ### The waiters -/

/-- A call that waits for a boot and raises while the boot future is pending raises its own
timeout. -/
theorem Sup.joining_raises {cfg : Config} {s s' : Sup} {ev : SupEvent} {c f : Nat}
    {q : Request} {x : LifecycleError} (hstep : s.step cfg ev = some s')
    (hc : s.calls[c]? = some ⟨q, .joining f⟩) (hf : s.core.ctl.resolved f = false)
    (hc' : s'.calls[c]? = some ⟨q, .ended (.raised x)⟩) :
    ∃ timeout, q.timeout = some timeout ∧ ev = .expire c ∧ x = .notBooted timeout := by
  rcases Sup.step_calls hstep hc with hsame | ⟨r, hr, hcalls, hev⟩
  · rw [hsame] at hc'
    cases hc'
  rw [hcalls] at hc'
  have hpc : r.2 = .ended (.raised x) := congrArg Call.pc (Option.some.inj hc')
  have hpend : (s.core.ctl.futures[f]?).bind (·.result) = none := by
    simp only [Control.resolved] at hf
    cases hfut : s.core.ctl.futures[f]? with
    | none => rfl
    | some t => simpa [hfut] using hf
  rcases hev with ⟨rfl, hw⟩ | ⟨rfl, he⟩ | ⟨ok, rfl, hl⟩ | ⟨rfl, hcan⟩
  · simp [Sup.wake, hpend] at hw
  · simp only [Sup.expire] at he
    split at he
    · rename_i f' timeout hjoin htime
      cases hjoin
      rw [hf] at he
      cases he
      have hand : (Sup.andThen q (s, .ended (.raised (.notBooted timeout)))).2 =
          .ended (.raised (.notBooted timeout)) := by
        cases q <;> rfl
      rw [hand] at hpc
      cases hpc
      exact ⟨timeout, htime, rfl, rfl⟩
    · cases he
  · cases hl
  · simp only [Sup.cancel] at hcan
    split at hcan <;> cases hcan <;> cases hpc

/-! ### The result -/

theorem noFailures_callSafe : CallSafe NoFailures := by
  rintro l ev hev
  cases ev <;> first | exact ⟨rfl, rfl⟩ | simp [Event.byCall] at hev

/-- **No waiter is lost, and none learns of a failure before everything is closed.** In a
run in which no step of a teardown and no read of a log raises, and with a crash history
that is a list: every pending boot future has an owner; a boot future fails only in a step
that leaves STOPPED, with everything closed and every emulator torn down; and a call that
waits for a pending boot raises nothing but its own timeout. -/
theorem no_waiter_lost {cfg : Config} {s : Sup}
    (h : (supervisor cfg).ReachBy (Sup.Ok NoFailures) s) (hjson : s.core.info.crashes ≠ none) :
    (∀ (f : Nat) (t : Future), s.core.ctl.futures[f]? = some t → t.result = none →
      s.core.Owner f) ∧
    ∀ ev s', Sup.Ok NoFailures s ev → s.step cfg ev = some s' →
      (∀ (f : Nat) (t t' : Future) (x : LifecycleError), s.core.ctl.futures[f]? = some t →
        t.result = none → s'.core.ctl.futures[f]? = some t' → t'.result = some (.error x) →
        s'.core.Down) ∧
      ∀ (c f : Nat) (q : Request) (x : LifecycleError), s.calls[c]? = some ⟨q, .joining f⟩ →
        s.core.ctl.resolved f = false → s'.calls[c]? = some ⟨q, .ended (.raised x)⟩ →
        ∃ timeout, q.timeout = some timeout ∧ x = .notBooted timeout := by
  have hcore := reachBy_core noFailures_callSafe h
  have ht := tasksOk hcore.reachable
  refine ⟨fun f t hf hn => owner_of_pending hcore hjson hf hn, fun ev s' hok hstep => ⟨?_, ?_⟩⟩
  · intro f t t' x hf hn hf' hx
    have hcore' := reachBy_core noFailures_callSafe (h.step hok hstep)
    refine Lifecycle.down (hcore'.mono fun _ _ h => h.2) ?_
    rcases Sup.step_core hstep with ⟨e, -, -, he⟩ | ⟨-, hcall⟩
    · exact (step_move he).fails ht hf hn hf' hx
    · exact hcall.fails ht hf hn hf' hx
  · intro c f q x hc hf hc'
    obtain ⟨timeout, htime, -, hx⟩ := Sup.joining_raises hstep hc hf hc'
    exact ⟨timeout, htime, hx⟩

/-- A waiting start the boot of which fails: the stop has begun. -/
def failRun : List SupEvent :=
  [.call (.start true none), .loop (.boot 0 (.go { apiLevel := none, error := none })),
    .loop (.boot 0 (.raised (.failure (.ofKind "adb" "no adb server" none))))]

theorem no_waiter_lost_failing : ∃ s : Sup,
    (supervisor ⟨0, 180, 30⟩).run Sup.fresh failRun = some s ∧ s.core.ctl.state = .stopping ∧
      s.calls[0]? = some ⟨.start true none, .joining 0⟩ ∧ s.core.Owner 0 := by
  have hok : (supervisor ⟨0, 180, 30⟩).RunOk (Sup.Ok NoFailures) Sup.fresh failRun := by decide
  obtain ⟨s, hrun, hs, hcall, hjson, t, hf, hn⟩ : ∃ s : Sup,
      (supervisor ⟨0, 180, 30⟩).run Sup.fresh failRun = some s ∧ s.core.ctl.state = .stopping ∧
        s.calls[0]? = some ⟨.start true none, .joining 0⟩ ∧ s.core.info.crashes ≠ none ∧
        ∃ t, s.core.ctl.futures[0]? = some t ∧ t.result = none :=
    ⟨_, rfl, rfl, rfl, Option.some_ne_none _, _, rfl, rfl⟩
  have hreach : (supervisor ⟨0, 180, 30⟩).ReachBy (Sup.Ok NoFailures) s :=
    Machine.ReachBy.of_run (.init Sup.fresh_initial) hok hrun
  exact ⟨s, hrun, hs, hcall, (no_waiter_lost hreach hjson).1 0 t hf hn⟩

end Supervisor

end AndroidAppliance
