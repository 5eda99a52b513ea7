import AndroidAppliance.Supervisor.Launches
import AndroidAppliance.Supervisor.Ownership
import AndroidAppliance.Transition.Fairness

/-!
# No exit is lost

The process of the current emulator exits while Android is up and nobody has begun to stop
it. In every run in which the tasks of that emulator get their turns, its watcher then
reaches `_exited`, unless a stop begins first: the watcher waits for the exit task and for
the task of the log, and each of these has one step left (`Emu.due`).

The condition is on the reads of the log. A read that raises ends the task of the log, the
exception reaches the watcher through `Emulator.wait`, and the exit is never handled.
-/

namespace AndroidAppliance

namespace Supervisor

/-! ### The steps of the watcher -/

/-- The steps of the exit task, of the task of the log and of the watcher of `e`. -/
def Event.ofWatcher (e : Nat) : Event → Prop
  | .exitSeen i | .readLog i _ | .watch i _ => i = e
  | _ => False

/-- The steps that are left before the watcher's own. -/
def Emu.due (m : Emu) : Nat :=
  (if m.exited then 0 else 1) + if m.log = .running then 1 else 0

/-- The current emulator `e` is gone, Android is up, and the watcher is on its way. -/
structure Lifecycle.Gone (l : Lifecycle) (e : Nat) (m : Emu) : Prop where
  emu : l.dev.emu = some e
  record : l.dev.emus[e]? = some m
  watched : m.Watched
  dead : m.returncode ≠ none
  up : l.ctl.state.up = true

/-- The watcher of `e` reaches `_exited`: the state leaves STARTING and RUNNING for
STOPPING, or for STARTING by the crash retry. -/
structure Lifecycle.Exits (l : Lifecycle) (e : Nat) (ev : Event) (l' : Lifecycle) : Prop where
  step : ∃ line, ev = .watch e line
  current : l.dev.emu = some e
  up : l.ctl.state.up = true
  handled : ∃ m, l'.dev.emus[e]? = some m ∧ m.watch = .handled
  state : l'.ctl.state = .stopping ∨
    l'.ctl.state = .starting ∧ l.ctl.retried = false ∧ l'.ctl.retried = true

/-- Another task begins a stop. -/
structure Lifecycle.Halts (l : Lifecycle) (ev : Event) (l' : Lifecycle) : Prop where
  step : ∀ e line, ev ≠ .watch e line
  up : l.ctl.state.up = true
  state : l'.ctl.state = .stopping

variable {cfg : Config} {l l' : Lifecycle} {e : Nat} {m : Emu} {ev : Event}

/-- A step that the record of an emulator allows. -/
theorem emuStep_eq {d : Devices} {f : Emu → Option Emu} {m' : Emu} (hm : d.emus[e]? = some m)
    (hf : f m = some m') : d.emuStep e f = some { d with emus := d.emus.set e m' } := by
  rw [Devices.emuStep, hm, Option.bind_some, hf, Option.map_some]

/-- A watcher on its way has a step: its own, or one of the tasks that it waits for. -/
theorem Lifecycle.Gone.enabled (h : l.Gone e m) (cfg : Config) :
    ∃ ev, Event.ofWatcher e ev ∧ ev.byCall = false ∧ (l.step cfg ev).isSome = true := by
  obtain ⟨code, hcode⟩ := Option.ne_none_iff_exists'.mp h.dead
  by_cases hexit : m.exited = true
  · cases hlog : m.log with
    | running =>
      have hread : m.readLog .missing = some { m with log := .ended } := by
        simp [Emu.readLog, hlog, hcode]
      refine ⟨.readLog e .missing, rfl, rfl, ?_⟩
      rw [Lifecycle.step, emuStep_eq h.record hread]
      rfl
    | ended =>
      refine ⟨.watch e none, rfl, rfl, ?_⟩
      simp only [Lifecycle.step, Lifecycle.watchStep, h.record, Option.bind_some,
        h.watched.watch, hexit, hlog, hcode, h.emu, h.up, and_self, if_true,
        Option.isSome_some]
    | failed => exact absurd hlog h.watched.log
  · have hsee : m.seeExit = some { m with exited := true } := by
      simp [Emu.seeExit, hcode, hexit]
    refine ⟨.exitSeen e, rfl, rfl, ?_⟩
    rw [Lifecycle.step, emuStep_eq h.record hsee]
    rfl

/-! ### Every other step keeps the watcher on its way -/

/-- What a step does to a watcher on its way. -/
inductive Lifecycle.Awaits (l : Lifecycle) (e : Nat) (m : Emu) (ev : Event) (l' : Lifecycle) :
    Prop
  | exits : l.Exits e ev l' → l.Awaits e m ev l'
  | halts : l.Halts ev l' → l.Awaits e m ev l'
  | waits {m' : Emu} : l'.Gone e m' → m'.due ≤ m.due → (Event.ofWatcher e ev → m'.due < m.due) →
      l.Awaits e m ev l'

/-- A step of other tasks, after which Android is still up. -/
theorem Lifecycle.Gone.keep (h : l.Gone e m) (hemu : l'.dev.emu = l.dev.emu)
    (hrecord : l'.dev.emus[e]? = some m) (hup : l'.ctl.state.up = true)
    (hev : ¬ ev.ofWatcher e) : l.Awaits e m ev l' :=
  .waits ⟨hemu.trans h.emu, hrecord, h.watched, h.dead, hup⟩ (le_refl _)
    fun hw => absurd hw hev

namespace EmuStep

variable {i : Nat} {m' : Emu}

theorem ofWatcher (hs : EmuStep i m ev m') (h : ev.ofWatcher e) : i = e := by
  cases hs with
  | exit => exact h.elim
  | seen | logEnded | logKept | logFailed | hang => exact h

/-- After the exit each task of the emulator has one step left. -/
theorem due (hs : EmuStep i m ev m') (hdead : m.returncode ≠ none) : m'.due < m.due := by
  cases hs with
  | exit hcode => exact absurd hcode hdead
  | seen _ hexit => simp [Emu.due, hexit]
  | logEnded hlog _ => simp [Emu.due, hlog]
  | logKept _ hcode => exact absurd hcode hdead
  | logFailed _ hcode => exact absurd hcode hdead
  | hang _ hcode _ => exact absurd hcode hdead

end EmuStep

/-- The boot that goes on beside such an emulator has launched it. -/
theorem WatchedIn.hasEmu {t : Boot} (h : WatchedIn m (.booting t)) (hm : m.Watched) :
    t.pc.hasEmu = true := by
  have hstop : m.stopping ≠ true := by simp [hm.stopping]
  have hwatch : m.watch ≠ .handled := by simp [hm.watch]
  cases hpc : t.pc <;> simp only [WatchedIn, hpc] at h <;>
    first
      | rfl
      | exact absurd h hstop
      | exact absurd (h.resolve_left hstop).2 hwatch

/-- In STARTING and RUNNING an emulator that nobody has begun to stop is watched over, or the
crash retry waits for the end of its boot. -/
theorem WatchedIn.cases_up {st : Stage} (h : WatchedIn m st) (hup : st.up = true)
    (hstop : m.stopping = false) :
    m.watch = .handled ∧ (∃ t, st = .booting t ∧ t.previous ≠ none) ∨ m.Watched := by
  have hno : m.stopping ≠ true := by simp [hstop]
  cases st with
  | stopped => cases hup
  | booting t =>
    cases hpc : t.pc <;> simp only [WatchedIn, hpc] at h <;>
      first
        | exact .inr h
        | exact absurd h hno
        | exact .inl ⟨(h.resolve_left hno).2, t, rfl, (h.resolve_left hno).1⟩
  | orphaned => exact .inr (h.resolve_left hno)
  | running => exact .inr h
  | stopping t => cases hup

theorem BootWaits.emus {c : Control} {d dev : Devices} {t : Boot} {w : Wake} {pc : BootPc}
    (h : BootWaits c d t w pc dev) (hpc : t.pc.hasEmu = true) :
    dev.emu = d.emu ∧ dev.emus = d.emus := by
  cases h with
  | tearing ht => rw [ht.hasEmu] at hpc; cases hpc
  | torn ht _ => rw [ht.hasEmu] at hpc; cases hpc
  | first hpc' | retry hpc' | served hpc' | gpu hpc' | spawned hpc' | spawnedFound hpc' =>
    simp [hpc', BootPc.hasEmu] at hpc
  | found | answered | device | completed | command => exact ⟨rfl, rfl⟩

theorem BootRaises.emus {c : Control} {d dev : Devices} {t : Boot} {w : Wake} {x : BootError}
    (h : BootRaises c d t w x dev) (hpc : t.pc.hasEmu = true) : dev = d := by
  cases h with
  | torn ht _ => rw [ht.hasEmu] at hpc; cases hpc
  | teardown ht => rw [ht.hasEmu] at hpc; cases hpc
  | prepare | launch => rfl

/-- **Every step keeps the watcher on its way**, or it is the watcher's own, or a stop
begins. -/
theorem Move.awaits (hm : Move cfg l ev l') (ht : TasksOk l.ctl) (hw : WatchOk l.dev l.stage)
    (hok : LogsOk l ev) (h : l.Gone e m) : l.Awaits e m ev l' := by
  have hup := h.up
  have hcur : l.dev.current = some m := Devices.current_of h.emu h.record
  have hlaunched : ∀ {b : Nat} {t : Boot}, l.ctl.boots[b]? = some t → t.cancelled = false →
      t.pc ≠ .ended → t.pc.hasEmu = true := by
    intro b t hb hc hpc
    have hst : l.stage = .booting t := ht.stage_boot hb hc hpc
    exact (hst ▸ hw m hcur).hasEmu h.watched
  have hstopping : ∀ {k : Nat} {t : Stop}, l.ctl.stops[k]? = some t → t.pc ≠ .ended →
      l.Awaits e m ev l' := by
    intro k t hk hpc
    have hs := (ht.stopLive k t hk hpc).1
    rw [hs] at hup
    cases hup
  cases hm with
  | begin hs _ => rw [hs] at hup; cases hup
  | halt => exact .halts ⟨by simp, hup, rfl⟩
  | shutdownUp => exact .halts ⟨by simp, hup, rfl⟩
  | shutdownDown hdown => rw [hdown] at hup; cases hup
  | every => exact h.keep rfl h.record hup id
  | touch => exact h.keep rfl h.record hup id
  | clock => exact h.keep rfl h.record hup id
  | bootWaits hb hc hbw =>
    obtain ⟨hemu, hemus⟩ := hbw.emus (hlaunched hb hc hbw.not_ended)
    exact h.keep hemu (hemus ▸ h.record) hup id
  | bootFails => exact .halts ⟨by simp, hup, rfl⟩
  | bootDrops hb hc hr _ =>
    obtain rfl := hr.emus (hlaunched hb hc hr.not_ended)
    exact h.keep rfl h.record hup id
  | @bootDone b t hb hc hpc =>
    have hs := (ht.bootLive b t hb hc (by simp [hpc])).1
    obtain ⟨f, -, hdone, -⟩ := ht.starting hs
    have hctl := complete_ctl (b := b) hdone
    have hdev : (l.complete b).dev = l.dev := by
      simp [Lifecycle.complete, Control.setBoot, hdone]
    exact h.keep (hdev ▸ rfl) (hdev ▸ h.record) (hctl ▸ rfl) id
  | unwound => exact h.keep rfl h.record hup id
  | stopAwaits hk hpc => exact hstopping hk (by simp [hpc])
  | stopWaits hk hst => exact hstopping hk hst.not_ended
  | stopDone hk hst _ => exact hstopping hk hst.not_ended
  | @emu _ i u u' hu hs =>
    by_cases hi : i = e
    · subst hi
      cases hu.symm.trans h.record
      have hwatched := hs.watched hok h.emu hu hup h.watched
      have hdue := hs.due h.dead
      exact .waits ⟨h.emu, Table.set_self hu, hwatched, hs.returncode h.dead, hup⟩
        hdue.le fun _ => hdue
    · exact h.keep rfl (Table.set_ne hi h.record) hup fun hev => hi (hs.ofWatcher hev)
  | @watchFailed i _ u hu _ hlog =>
    have hi : i ≠ e := by
      rintro rfl
      cases hu.symm.trans h.record
      exact h.watched.log hlog
    exact h.keep rfl (Table.modify_ne hi h.record) hup hi
  | @watchDropped i _ u hu _ hdrop =>
    have hi : i ≠ e := by
      rintro rfl
      exact hdrop.elim (absurd h.emu) fun hdown => by rw [hdown] at hup; cases hup
    exact h.keep rfl (Table.modify_ne hi h.record) hup hi
  | @watchStops i line u _ _ _ hu _ hemu =>
    cases hemu.symm.trans h.emu
    exact .exits ⟨⟨line, rfl⟩, h.emu, hup, ⟨_, Table.modify_self hu, rfl⟩, .inl rfl⟩
  | @watchRetries i line u _ _ _ hu _ hemu _ hret =>
    cases hemu.symm.trans h.emu
    exact .exits ⟨⟨line, rfl⟩, h.emu, hup, ⟨_, Table.modify_self hu, rfl⟩,
      .inr ⟨rfl, hret, rfl⟩⟩

/-! ### The Supervisor -/

theorem logsOk_callSafe : CallSafe LogsOk := by
  rintro l ev hev
  cases ev <;> first | rfl | simp [Event.byCall] at hev

/-- The steps of the tasks of the emulator `e`, as labels of the Supervisor. -/
def SupEvent.ofWatcher (e : Nat) : SupEvent → Prop
  | .loop ev => ev.ofWatcher e
  | _ => False

/-- The watcher of `e` reaches `_exited`, or another task begins a stop before that. -/
def Sup.Leaves (e : Nat) (s : Sup) (a : SupEvent) (s' : Sup) : Prop :=
  (∃ ev, a = .loop ev ∧ s.core.Exits e ev s'.core) ∨
    (∀ i line, a ≠ .loop (.watch i line)) ∧ s.core.ctl.state.up = true ∧
      s'.core.ctl.state = .stopping

/-- What a call does to a watcher on its way. -/
theorem CallStep.awaits (hc : CallStep cfg l l') (ht : TasksOk l.ctl)
    (hw : WatchOk l.dev l.stage) (h : l.Gone e m) :
    l'.ctl.state = .stopping ∨ ∃ m', l'.Gone e m' ∧ m'.due ≤ m.due := by
  have hevent : ∀ {l₀ : Lifecycle} {ev : Event}, TasksOk l₀.ctl → WatchOk l₀.dev l₀.stage →
      l₀.Gone e m → ev.byCall = true → l₀.step cfg ev = some l' →
      l'.ctl.state = .stopping ∨ ∃ m', l'.Gone e m' ∧ m'.due ≤ m.due := by
    intro l₀ ev ht hw h hev hstep
    have hok : LogsOk l₀ ev := logsOk_callSafe l₀ ev (.inl hev)
    cases (step_move hstep).awaits ht hw hok h with
    | exits hx =>
      obtain ⟨line, rfl⟩ := hx.step
      cases hev
    | halts hh => exact .inl hh.state
    | waits hg hdue _ => exact .inr ⟨_, hg, hdue⟩
  have htouch : l.touch.Gone e m := ⟨h.emu, h.record, h.watched, h.dead, h.up⟩
  cases hc with
  | idle => exact .inr ⟨m, h, le_refl _⟩
  | touch => exact .inr ⟨m, htouch, le_refl _⟩
  | event hev hstep => exact hevent ht hw h hev hstep
  | touchEvent hev hstep => exact @hevent l.touch _ ht hw htouch hev hstep

/-- What brings the watcher of `e` to its step. -/
theorem watcher_progress (cfg : Config) (e : Nat) :
    (supervisor cfg).Progress (Sup.Ok LogsOk) (SupEvent.ofWatcher e)
      (fun s => ∃ m, s.core.Gone e m) (Sup.Leaves e)
      (fun s => ((s.core.dev.emus[e]?).map Emu.due).getD 0) where
  enabled s _ hs := by
    obtain ⟨m, h⟩ := hs
    obtain ⟨ev, hev, hcall, hstep⟩ := h.enabled cfg
    obtain ⟨l', hl'⟩ := Option.isSome_iff_exists.mp hstep
    refine ⟨.loop ev, { s with core := l' }, hev, ?_⟩
    simp [supervisor, Sup.step, hcall, hl']
  step s a t hr hs hok hstep := by
    obtain ⟨m, h⟩ := hs
    have hcore := reachBy_core logsOk_callSafe hr
    have ht := tasksOk hcore.reachable
    have hw := watchOk hcore
    have hrank : ∀ {s : Sup} {m : Emu}, s.core.Gone e m →
        ((s.core.dev.emus[e]?).map Emu.due).getD 0 = m.due := by
      intro s m h
      rw [h.record, Option.map_some, Option.getD_some]
    rw [hrank h]
    rcases Sup.step_core hstep with ⟨ev, rfl, -, he⟩ | ⟨hne, hcall⟩
    · cases (step_move he).awaits ht hw hok h with
      | exits hx => exact .inl (.inl ⟨ev, rfl, hx⟩)
      | halts hh =>
        refine .inl (.inr ⟨fun i line hcon => hh.step i line ?_, hh.up, hh.state⟩)
        exact SupEvent.loop.inj hcon
      | waits hg hdue hlt =>
        rw [hrank hg]
        exact .inr ⟨⟨_, hg⟩, hdue, hlt⟩
    · rcases hcall.awaits ht hw h with hstop | ⟨m', hg, hdue⟩
      · exact .inl (.inr ⟨fun i line => hne _, h.up, hstop⟩)
      · rw [hrank hg]
        refine .inr ⟨⟨m', hg⟩, hdue, fun hev => ?_⟩
        cases a with
        | loop ev => exact absurd rfl (hne ev)
        | call | resume | expire | leave | cancel | tick => exact hev.elim

/-- When the tasks of an emulator are done, none of their steps is left. -/
theorem Sup.not_enabled {s : Sup} (h : ∀ m, s.core.dev.emus[e]? = some m →
    m.exited = true ∧ m.log ≠ .running ∧ m.watch ≠ .pending) :
    ¬ (supervisor cfg).Enabled (SupEvent.ofWatcher e) s := by
  rintro ⟨a, t, ha, hstep⟩
  rcases Sup.step_core hstep with ⟨ev, rfl, -, he⟩ | ⟨hne, -⟩
  · have hev : ev.ofWatcher e := ha
    have hmove := step_move he
    generalize t.core = l' at hmove
    cases hmove with
    | emu hm hs =>
      cases hs.ofWatcher hev
      obtain ⟨hexit, hlog, -⟩ := h _ hm
      cases hs with
      | exit => exact hev.elim
      | seen _ hno => rw [hexit] at hno; cases hno
      | logEnded hrun _ | logKept hrun _ | logFailed hrun _ | hang hrun _ _ => exact hlog hrun
    | watchFailed hm hw _ | watchDropped hm hw _ | watchStops hm hw _ _ _
    | watchRetries hm hw =>
      cases hev
      exact (h _ hm).2.2 hw
    | begin | halt | shutdownUp | shutdownDown | every | touch | clock | bootWaits | bootFails
    | bootDrops | bootDone | unwound | stopAwaits | stopWaits | stopDone => exact hev.elim
  · cases a with
    | loop ev => exact hne ev rfl
    | call | resume | expire | leave | cancel | tick => exact ha.elim

/-- **No exit is lost.** In a run in which no read fails that the watcher of a running
Android needs, and in which the tasks of every emulator get their turns: the watcher of a
RUNNING Android is pending; and when the process of the current emulator is gone while
Android is up and nobody has begun to stop that emulator, then either its watcher has
reached `_exited`, and the crash retry is on, or a step of it is due, and it will reach
`_exited` unless another task begins a stop before. -/
theorem exit_handled {cfg : Config} (r : (supervisor cfg).Trace) (hreads : r.Ok (Sup.Ok LogsOk))
    (hfair : ∀ e, r.Fair (SupEvent.ofWatcher e)) (n : ℕ) :
    ((r.state n).core.ctl.state = .running →
      ∃ e m, (r.state n).core.dev.emu = some e ∧ (r.state n).core.dev.emus[e]? = some m ∧
        m.Watched) ∧
    ∀ (e : Nat) (m : Emu), (r.state n).core.dev.emu = some e →
      (r.state n).core.dev.emus[e]? = some m → m.returncode ≠ none →
      (r.state n).core.ctl.state.up = true → m.stopping = false →
      m.watch = .handled ∧ (∃ t, (r.state n).core.stage = .booting t ∧ t.previous ≠ none) ∨
      (supervisor cfg).Enabled (SupEvent.ofWatcher e) (r.state n) ∧
        ∃ k, n ≤ k ∧ Sup.Leaves e (r.state k) (r.label k) (r.state (k + 1)) := by
  have hreach := r.reachBy hreads n
  have hcore := reachBy_core logsOk_callSafe hreach
  have hw := watchOk hcore
  refine ⟨fun hs => ?_, fun e m he hm hdead hup hstop => ?_⟩
  · have hst : (r.state n).core.stage = .running := Control.stage_running hs
    have hready := devicesReady hcore.reachable
    rw [hst] at hready hw
    obtain ⟨e, he⟩ := Option.ne_none_iff_exists'.mp hready.1
    have hlt := known hcore.reachable e he
    obtain ⟨m, hm⟩ : ∃ m, (r.state n).core.dev.emus[e]? = some m :=
      ⟨_, List.getElem?_eq_getElem hlt⟩
    exact ⟨e, m, he, hm, hw m (Devices.current_of he hm)⟩
  · have hin := hw m (Devices.current_of he hm)
    rcases hin.cases_up (Control.up_stage _ ▸ hup) hstop with ⟨hhandled, hret⟩ | hwatched
    · exact .inl ⟨hhandled, hret⟩
    · have hgone : ∃ m, (r.state n).core.Gone e m := ⟨m, he, hm, hwatched, hdead, hup⟩
      have hprog := watcher_progress cfg e
      exact .inr ⟨hprog.enabled _ hreach hgone, r.leads_to hreads hprog (hfair e) hgone⟩

/-- A crash just after the boot, and the crash retry. -/
def exitRun : List SupEvent :=
  bootRun ++ [.loop (.exit 0 1), .loop (.exitSeen 0), .loop (.readLog 0 .missing),
    .loop (.watch 0 none)]

theorem exit_handled_crash : ∃ (r : (supervisor ⟨0, 180, 30⟩).Trace) (n : ℕ),
    r.Ok (Sup.Ok LogsOk) ∧ (∀ e, r.Fair (SupEvent.ofWatcher e)) ∧
      (r.state n).core.ctl.state = .running ∧ (r.state n).core.dev.alive 0 = false ∧
      ∃ k, n ≤ k ∧ Sup.Leaves 0 (r.state k) (r.label k) (r.state (k + 1)) := by
  have hok : (supervisor ⟨0, 180, 30⟩).RunOk (Sup.Ok LogsOk) Sup.fresh exitRun := by decide
  have hend : ((supervisor ⟨0, 180, 30⟩).run Sup.fresh exitRun).any (fun t =>
      (supervisor ⟨0, 180, 30⟩).step t (.loop .touch) = some t ∧
        t.core.dev.emus.all (fun m => m.exited && m.log != .running && m.watch != .pending)) =
      true := by
    decide +kernel
  obtain ⟨t, hrun, hdone⟩ := Option.any_eq_true _ _ |>.mp hend
  obtain ⟨hstay, hemus⟩ := of_decide_eq_true hdone
  have hidle : ∀ e, ¬ (supervisor ⟨0, 180, 30⟩).Enabled (SupEvent.ofWatcher e) t := by
    intro e
    refine Sup.not_enabled fun m hm => ?_
    have hdone := List.all_eq_true.mp hemus m (List.mem_of_getElem? hm)
    simpa [and_assoc] using hdone
  let r := Machine.Trace.lasso Sup.fresh_initial hrun hstay
  have hreads : r.Ok (Sup.Ok LogsOk) := Machine.Trace.lasso_ok hok rfl
  have hfair : ∀ e, r.Fair (SupEvent.ofWatcher e) := fun e => Machine.Trace.lasso_fair (hidle e)
  obtain ⟨u, m, hu, hs, he, hm, hdead, hstop, hwatch⟩ : ∃ (u : Sup) (m : Emu),
      (supervisor ⟨0, 180, 30⟩).run Sup.fresh (exitRun.take 12) = some u ∧
        u.core.ctl.state = .running ∧ u.core.dev.emu = some 0 ∧ u.core.dev.emus[0]? = some m ∧
        m.returncode ≠ none ∧ m.stopping = false ∧ m.watch ≠ .handled :=
    ⟨_, _, rfl, rfl, rfl, rfl, by decide, rfl, by decide⟩
  have hstate : r.state 12 = u := Machine.Trace.lasso_state_take hu
  have hall := (exit_handled r hreads hfair 12).2 0 m
  rw [hstate] at hall
  refine ⟨r, 12, hreads, hfair, hstate ▸ hs, ?_, ?_⟩
  · rw [hstate, Devices.alive, hm]
    simpa [Emu.alive, Option.isSome_iff_ne_none] using hdead
  · have hup : u.core.ctl.state.up = true := by rw [hs]; rfl
    rcases hall he hm hdead hup hstop with ⟨hhandled, -⟩ | ⟨-, hleaves⟩
    · exact absurd hhandled hwatch
    · exact hleaves

/-- A read of the log fails while Android is running, and the process exits afterwards. -/
def lostRun : List SupEvent :=
  bootRun ++ [.loop (.readLog 0 .failed), .loop (.exit 0 1), .loop (.exitSeen 0),
    .loop (.watch 0 none)]

/-- RUNNING with a dead emulator, and no step of its watcher or of its tasks is left. -/
theorem exit_lost : ¬ ∀ (cfg : Config) (s : Sup) (e : Nat), (supervisor cfg).Reachable s →
    s.core.ctl.state = .running → s.core.dev.emu = some e → s.core.dev.alive e = false →
      (supervisor cfg).Enabled (SupEvent.ofWatcher e) s := by
  intro hall
  obtain ⟨s, hrun, hs, he, hdead, hemus⟩ : ∃ s : Sup,
      (supervisor ⟨0, 180, 30⟩).run Sup.fresh lostRun = some s ∧ s.core.ctl.state = .running ∧
        s.core.dev.emu = some 0 ∧ s.core.dev.alive 0 = false ∧
        s.core.dev.emus.all (fun m => m.exited && m.log != .running && m.watch != .pending) =
          true :=
    ⟨_, rfl, rfl, rfl, rfl, rfl⟩
  have hstart : (supervisor ⟨0, 180, 30⟩).Reachable Sup.fresh := .init Sup.fresh_initial
  refine Sup.not_enabled (fun m hm => ?_) (hall _ s 0 (hstart.of_run hrun) hs he hdead)
  have hdone := List.all_eq_true.mp hemus m (List.mem_of_getElem? hm)
  simpa [and_assoc] using hdone

end Supervisor

end AndroidAppliance
