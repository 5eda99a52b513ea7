import AndroidAppliance.Supervisor.Running
import AndroidAppliance.Supervisor.Requests

/-!
# The lifecycle invariant

What every interleaving of calls, exits and failures keeps: which way the state moves, what
STARTING and RUNNING guarantee, that only the current boot task reaches RUNNING, that a boot
future is resolved once, and that the exit of a former emulator is not noticed by anything
but its own record.
-/

namespace AndroidAppliance

namespace Supervisor

/-! ### How the state moves -/

/-- The moves of the state; `retried` is the mark of the crash retry before and after. -/
inductive State.Next (retried retried' : Bool) : State → State → Prop
  | stay (s : State) : State.Next retried retried' s s
  | start : State.Next retried retried' .stopped .starting
  | run : State.Next retried retried' .starting .running
  | halt {s : State} : s.up = true → State.Next retried retried' s .stopping
  | done : State.Next retried retried' .stopping .stopped
  /-- The one crash retry. -/
  | retry : retried = false → retried' = true → State.Next retried retried' .running .starting

/-- How the tasks and futures follow each other in a step. -/
structure Control.Follows (c c' : Control) : Prop where
  moves : State.Next c.retried c'.retried c.state c'.state
  /-- A future that has a result stays as it is. -/
  keeps : ∀ (f : Nat) (t : Future), c.futures[f]? = some t → t.result ≠ none →
    c'.futures[f]? = some t

namespace Control.Follows

variable {c : Control}

theorem refl (c : Control) : c.Follows c := ⟨.stay _, fun _ _ hf _ => hf⟩

/-- The result of a pending future is set. -/
theorem keeps_resolve {g : Nat} {u : Future} {o : Outcome} (hg : c.futures[g]? = some u)
    (hn : u.result = none) (f : Nat) (t : Future) (hf : c.futures[f]? = some t)
    (ht : t.result ≠ none) : (c.resolve g o).futures[f]? = some t := by
  refine Table.modify_ne ?_ hf
  rintro rfl
  cases hg.symm.trans hf
  exact ht hn

theorem beginStop (hup : c.state.up = true) (retried closing : Bool) (current : Option Nat)
    (error : LifecycleError) :
    c.Follows ({ c with retried, closing }.beginStop current error) :=
  ⟨.halt hup, fun _ _ hf _ => hf⟩

theorem retry (hup : c.state.up = true) (hr : c.retried = false) (crash : CrashInfo) :
    c.Follows ({ c with retried := true }.retry crash) := by
  refine ⟨?_, fun f t hf _ => ?_⟩
  · cases hs : c.state with
    | starting => exact .stay _
    | running => exact .retry hr rfl
    | stopped => simp [hs, State.up] at hup
    | stopping => simp [hs, State.up] at hup
  · exact TasksOk.renew_keeps
      (c := { c with retried := true, state := .starting }.cancelBoot none) hf

end Control.Follows

/-- Every step moves the state as `State.Next` says, and resolves no future again. -/
theorem Move.follows {cfg : Config} {l l' : Lifecycle} {ev : Event} (h : TasksOk l.ctl)
    (hm : Move cfg l ev l') : l.ctl.Follows l'.ctl := by
  cases hm with
  | begin hs _ => exact ⟨hs ▸ .start, fun _ _ hf _ => Table.append_old hf⟩
  | halt hup => exact .beginStop hup l.ctl.retried l.ctl.closing _ _
  | shutdownUp hup => exact .beginStop hup l.ctl.retried true _ _
  | shutdownDown _ => exact ⟨.stay _, fun _ _ hf _ => hf⟩
  | every => exact .refl _
  | touch => exact .refl _
  | clock _ => exact .refl _
  | bootWaits => exact ⟨.stay _, fun _ _ hf _ => hf⟩
  | bootFails hb hc hr =>
    have hup : l.ctl.state.up = true := by
      rw [(h.bootLive _ _ hb hc hr.not_ended).1]; rfl
    exact ⟨.halt hup, fun _ _ hf _ => hf⟩
  | bootDrops => exact ⟨.stay _, fun _ _ hf _ => hf⟩
  | bootDone hb hc hpc =>
    have hs := (h.bootLive _ _ hb hc (by simp [hpc])).1
    obtain ⟨f, u, hdone, hu, hn⟩ := h.starting hs
    rw [complete_ctl hdone]
    exact ⟨hs ▸ .run, Control.Follows.keeps_resolve hu hn⟩
  | unwound => exact ⟨.stay _, fun _ _ hf _ => hf⟩
  | stopAwaits => exact ⟨.stay _, fun _ _ hf _ => hf⟩
  | stopWaits => exact ⟨.stay _, fun _ _ hf _ => hf⟩
  | @stopDone _ t _ _ _ _ hk hst _ =>
    obtain ⟨hs, -, -, hdone⟩ := h.stopLive _ _ hk hst.not_ended
    refine ⟨hs ▸ .done, fun f u hf hu => ?_⟩
    simp only [Control.finishStop]
    split
    · rename_i g hg
      split
      · exact hf
      · rename_i hres
        refine Table.modify_ne ?_ hf
        rintro rfl
        exact hres ((h.resolved_iff (hdone ▸ hg)).mpr ⟨u, hf, hu⟩)
    · exact hf
  | emu => exact .refl _
  | watchFailed => exact .refl _
  | watchDropped => exact .refl _
  | @watchStops _ _ _ retried _ _ _ _ _ hup _ => exact .beginStop hup retried l.ctl.closing _ _
  | watchRetries _ _ _ hup hr _ _ _ _ _ _ => exact .retry hup hr _

/-- Only the current boot task reaches RUNNING, and only while it is not cancelled. -/
theorem Move.enters_running {cfg : Config} {l l' : Lifecycle} {ev : Event} (h : TasksOk l.ctl)
    (hm : Move cfg l ev l') (hs : l.ctl.state ≠ .running) (hs' : l'.ctl.state = .running) :
    ∃ b t, ev = .boot b .command ∧ l.ctl.bootTask = some b ∧ l.ctl.boots[b]? = some t ∧
      t.cancelled = false ∧ t.pc = .settingUp 0 := by
  cases hm with
  | bootDone hb hc hpc =>
    exact ⟨_, _, rfl, (h.bootLive _ _ hb hc (by simp [hpc])).2.1, hb, hc, hpc⟩
  | begin | halt | shutdownUp | bootFails | stopDone | watchStops | watchRetries => cases hs'
  | shutdownDown | every | touch | clock | bootWaits | bootDrops | unwound | stopAwaits
  | stopWaits | emu | watchFailed | watchDropped => exact absurd hs' hs

/-- A boot future that is pending in STARTING stays so until RUNNING, where it has success. -/
theorem Move.pending_future {cfg : Config} {l l' : Lifecycle} {ev : Event} {f : Nat} {t : Future}
    (h : TasksOk l.ctl) (hm : Move cfg l ev l') (hs : l.ctl.state = .starting)
    (hf : l.ctl.futures[f]? = some t) (ht : t.result = none) :
    (l'.ctl.state = .starting → ∃ t', l'.ctl.futures[f]? = some t' ∧ t'.result = none) ∧
      (l'.ctl.state = .running →
        ∃ t', l'.ctl.futures[f]? = some t' ∧ t'.result = some .success) := by
  have hstay : ∀ c : Control, c.state = l.ctl.state → c.futures = l.ctl.futures →
      (c.state = .starting → ∃ t', c.futures[f]? = some t' ∧ t'.result = none) ∧
        (c.state = .running → ∃ t', c.futures[f]? = some t' ∧ t'.result = some .success) := by
    intro c hstate hfutures
    refine ⟨fun _ => ⟨t, hfutures ▸ hf, ht⟩, fun hrun => ?_⟩
    rw [hstate, hs] at hrun
    cases hrun
  cases hm with
  | begin hstop _ =>
    rw [hs] at hstop
    cases hstop
  | halt | shutdownUp | bootFails | stopDone | watchStops =>
    exact ⟨fun hstart => (by cases hstart), fun hrun => (by cases hrun)⟩
  | shutdownDown | every | touch | clock | bootWaits | bootDrops | unwound | stopAwaits
  | stopWaits | emu | watchFailed | watchDropped => exact hstay _ rfl rfl
  | bootDone hb hc hpc =>
    obtain ⟨hdone, -⟩ := h.pending f t hf ht
    rw [complete_ctl hdone]
    refine ⟨fun hstart => (by cases hstart), fun _ => ⟨_, Table.modify_self hf, ?_⟩⟩
    exact (TasksOk.set_once ht).1
  | watchRetries _ _ _ hup hr _ _ _ _ _ _ =>
    refine ⟨fun _ => ⟨t, ?_, ht⟩, fun hrun => (by cases hrun)⟩
    exact TasksOk.renew_keeps
      (c := { l.ctl with retried := true, state := .starting }.cancelBoot none) hf

/-- The same of a call. -/
theorem CallStep.pending_future {cfg : Config} {l l' : Lifecycle} {f : Nat} {t : Future}
    (h : TasksOk l.ctl) (hc : CallStep cfg l l') (hs : l.ctl.state = .starting)
    (hf : l.ctl.futures[f]? = some t) (ht : t.result = none) :
    (l'.ctl.state = .starting → ∃ t', l'.ctl.futures[f]? = some t' ∧ t'.result = none) ∧
      (l'.ctl.state = .running →
        ∃ t', l'.ctl.futures[f]? = some t' ∧ t'.result = some .success) := by
  have hidle : Move cfg l (.clock l.info.monotonic l.info.wall) l := .clock le_rfl
  have hsame := hidle.pending_future h hs hf ht
  cases hc with
  | idle => exact hsame
  | touch => exact hsame
  | event _ hstep => exact (step_move hstep).pending_future h hs hf ht
  | touchEvent _ hstep => exact (step_move hstep).pending_future (l := l.touch) h hs hf ht

/-! ### Emulators that are not the current one -/

/-- The emulator whose process or task takes the step. -/
def Event.emu : Event → Option Nat
  | .exit e _ | .exitSeen e | .readLog e _ | .watch e _ => some e
  | _ => none

/-- A step of an emulator that is not the current one changes its record and nothing else. -/
theorem Move.former {cfg : Config} {l l' : Lifecycle} {ev : Event} {e : Nat}
    (hm : Move cfg l ev l') (hev : ev.emu = some e) (hcur : l.dev.emu ≠ some e) :
    ∃ f, l' = { l with dev := l.dev.updateEmu e f } := by
  have hset : ∀ m : Emu, ∃ f, l.dev.emus.set e m = l.dev.emus.modify e f := fun m =>
    ⟨fun _ => m, List.set_eq_modify ..⟩
  cases hm with
  | @emu ev e' _ m' _ hs =>
    have heq : e' = e := by cases hs <;> exact Option.some.inj hev
    subst heq
    obtain ⟨f, hf⟩ := hset m'
    exact ⟨f, by rw [Devices.updateEmu, hf]⟩
  | watchFailed => cases hev; exact ⟨_, rfl⟩
  | watchDropped => cases hev; exact ⟨_, rfl⟩
  | watchStops _ _ h => cases hev; exact absurd h hcur
  | watchRetries _ _ h => cases hev; exact absurd h hcur
  | begin | halt | shutdownUp | shutdownDown | every | touch | clock | bootWaits | bootFails
  | bootDrops | bootDone | unwound | stopAwaits | stopWaits | stopDone => cases hev

/-! ### The invariant -/

/-- What holds of every reachable Supervisor. -/
structure Lifecycle.Consistent (l : Lifecycle) : Prop where
  /-- In STARTING the boot future is present and unresolved. -/
  starting : l.ctl.state = .starting →
    ∃ f t, l.ctl.bootDone = some f ∧ l.ctl.futures[f]? = some t ∧ t.result = none
  /-- In RUNNING the emulator and its gRPC client are set. -/
  devices : l.ctl.state = .running → l.dev.emu ≠ none ∧ l.dev.grpc ≠ none
  /-- In RUNNING the boot future is resolved with success. -/
  success : l.ctl.state = .running →
    ∃ f t, l.ctl.bootDone = some f ∧ l.ctl.futures[f]? = some t ∧ t.result = some .success
  /-- In RUNNING the repeating tasks that have not been cancelled are one for each
  registered job. -/
  jobs : l.ctl.state = .running → l.job.live = List.range l.job.jobs.length
  /-- In every other state all repeating tasks have been cancelled. -/
  noJobs : l.ctl.state ≠ .running → ∀ t ∈ l.job.repeats, t.cancelled = true
  /-- Every boot future was resolved at most once. -/
  once : ∀ t ∈ l.ctl.futures, t.sets ≤ 1

/-- What holds of every step of a reachable Supervisor. -/
structure Sup.Follows (s : Sup) (ev : SupEvent) (s' : Sup) : Prop where
  /-- The state moves as `State.Next` says. -/
  moves : State.Next s.core.ctl.retried s'.core.ctl.retried s.core.ctl.state s'.core.ctl.state
  /-- RUNNING is set by the current boot task and by no task that was cancelled. -/
  enters : s.core.ctl.state ≠ .running → s'.core.ctl.state = .running →
    ∃ b t, ev = .loop (.boot b .command) ∧ s.core.ctl.bootTask = some b ∧
      s.core.ctl.boots[b]? = some t ∧ t.cancelled = false
  /-- A boot future that has a result stays as it is. -/
  keeps : ∀ (f : Nat) (t : Future), s.core.ctl.futures[f]? = some t → t.result ≠ none →
    s'.core.ctl.futures[f]? = some t
  /-- The exit of an emulator that is no longer the current one changes its own record and
  nothing else. -/
  former : ∀ e' e, ev = .loop e' → e'.emu = some e → s.core.dev.emu ≠ some e →
    ∃ f, s' = { s with core := { s.core with dev := s.core.dev.updateEmu e f } }

theorem Lifecycle.consistent {cfg : Config} {l : Lifecycle}
    (h : (lifecycle cfg).Reachable l) : l.Consistent where
  starting hs := (tasksOk h).starting hs
  devices hs := by
    have hready := devicesReady h
    rwa [Lifecycle.stage, Control.stage_running hs] at hready
  success hs := (tasksOk h).running hs
  jobs hs := by
    have hlive := (jobsOk h).live_eq
    rwa [hs, if_pos (by rfl)] at hlive
  noJobs hs t ht := by
    have hlive := ((jobsOk h).idle hs).live_eq
    simp only [Jobs.live, Bool.false_eq_true, if_false, List.map_eq_nil_iff,
      List.filter_eq_nil_iff] at hlive
    simpa using hlive t ht
  once t ht := by
    obtain ⟨f, hf⟩ := List.mem_iff_getElem?.mp ht
    have hset := (tasksOk h).setOnce f t hf
    split at hset <;> omega

/-- The tasks follow each other through a call as through the event that it causes. -/
theorem CallStep.follows {cfg : Config} {l l' : Lifecycle} (h : TasksOk l.ctl)
    (hc : CallStep cfg l l') : l.ctl.Follows l'.ctl := by
  cases hc with
  | idle => exact .refl _
  | touch => exact .refl _
  | event _ hstep => exact (step_move hstep).follows h
  | touchEvent _ hstep => exact (step_move hstep).follows (l := l.touch) h

/-- A call never sets RUNNING. -/
theorem CallStep.not_enters {cfg : Config} {l l' : Lifecycle} (h : TasksOk l.ctl)
    (hc : CallStep cfg l l') (hs : l.ctl.state ≠ .running) : l'.ctl.state ≠ .running := by
  intro hs'
  cases hc with
  | idle => exact hs hs'
  | touch => exact hs hs'
  | event hev hstep =>
    obtain ⟨b, t, rfl, -⟩ := (step_move hstep).enters_running h hs hs'
    cases hev
  | touchEvent hev hstep =>
    obtain ⟨b, t, rfl, -⟩ := (step_move hstep).enters_running (l := l.touch) h hs hs'
    cases hev

theorem Sup.follows {cfg : Config} {s s' : Sup} {ev : SupEvent}
    (h : (supervisor cfg).Reachable s) (hstep : s.step cfg ev = some s') :
    s.Follows ev s' := by
  have ht := tasksOk (reachable_core h)
  have hloop : ∀ e', ev = .loop e' → s' = { s with core := s'.core } := by
    rintro e' rfl
    simp only [Sup.step] at hstep
    split at hstep
    · cases hstep
    · obtain ⟨core, -, rfl⟩ := Option.map_eq_some_iff.mp hstep
      rfl
  rcases Sup.step_core hstep with ⟨e, rfl, -, hcore⟩ | ⟨hne, hcall⟩
  · have hm := step_move hcore
    obtain ⟨hmoves, hkeeps⟩ := hm.follows ht
    refine ⟨hmoves, fun hs hs' => ?_, hkeeps, fun e' e he hemu hcur => ?_⟩
    · obtain ⟨b, t, rfl, htask, hb, hc, -⟩ := hm.enters_running ht hs hs'
      exact ⟨b, t, rfl, htask, hb, hc⟩
    · cases he
      obtain ⟨f, hf⟩ := hm.former hemu hcur
      exact ⟨f, by rw [hloop _ rfl, hf]⟩
  · obtain ⟨hmoves, hkeeps⟩ := hcall.follows ht
    exact ⟨hmoves, fun hs hs' => absurd hs' (hcall.not_enters ht hs), hkeeps,
      fun e' _ he => absurd he (hne e')⟩

/-- **The lifecycle invariant.** In every reachable state the state agrees with the boot
future, the devices and the repeating tasks, and every step from there moves the state,
the boot futures and the records of former emulators as it should. -/
theorem supervisor_consistent {cfg : Config} {s : Sup} (h : (supervisor cfg).Reachable s) :
    s.core.Consistent ∧ ∀ ev s', s.step cfg ev = some s' → s.Follows ev s' :=
  ⟨Lifecycle.consistent (reachable_core h), fun _ _ => Sup.follows h⟩

/-- A boot that runs through, called by a waiting start. -/
def bootRun : List SupEvent :=
  [.call (.start true none), .loop (.boot 0 (.go { apiLevel := some 36, error := none })),
    .loop (.boot 0 .served), .loop (.boot 0 (.gpu "lavapipe" false)),
    .loop (.boot 0 (.spawned true)), .loop (.boot 0 .answered), .loop (.boot 0 .device),
    .loop (.boot 0 .completed), .loop (.boot 0 .command), .loop (.boot 0 .command),
    .loop (.boot 0 .command)]

/-- A Supervisor at the start of the daemon, with an empty state.json. -/
def Sup.fresh : Sup := { core := Lifecycle.new (some []) none none 0 0, calls := [], leases := 0 }

theorem Sup.fresh_initial : Sup.fresh.Initial := ⟨⟨some [], none, none, 0, 0, rfl⟩, rfl, rfl⟩

theorem supervisor_consistent_running : ∃ s : Sup,
    (supervisor ⟨0, 180, 30⟩).run Sup.fresh bootRun = some s ∧ s.core.ctl.state = .running ∧
      s.core.Consistent ∧ ∀ ev s', s.step ⟨0, 180, 30⟩ ev = some s' → s.Follows ev s' := by
  have hstart : (supervisor ⟨0, 180, 30⟩).Reachable Sup.fresh := .init Sup.fresh_initial
  obtain ⟨s, hs, hrun⟩ : ∃ s : Sup,
      (supervisor ⟨0, 180, 30⟩).run Sup.fresh bootRun = some s ∧ s.core.ctl.state = .running :=
    ⟨_, rfl, rfl⟩
  exact ⟨s, hs, hrun, supervisor_consistent (hstart.of_run hs)⟩

end Supervisor

end AndroidAppliance
