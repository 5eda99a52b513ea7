import AndroidAppliance.Supervisor.Tasks

/-!
# Stages

At any moment at most one task works on the devices: the boot task while Android is
starting, unless that task was cancelled or is done, and the stop task while Android is
stopping. `Control.stage` names it, and `Act` retells the moves of the lifecycle by the
stages before and after, so that the invariants of the devices need no tables of tasks.
-/

namespace AndroidAppliance

namespace Supervisor

/-- What is going on. -/
inductive Stage
  | stopped
  /-- STARTING, and the boot task `t` is neither done nor cancelled. -/
  | booting (t : Boot)
  /-- STARTING without such a task. -/
  | orphaned
  | running
  /-- STOPPING, with the stop task `t`. -/
  | stopping (t : Stop)
  deriving DecidableEq, Repr

/-- The stages of STARTING and RUNNING. -/
def Stage.up : Stage → Bool
  | .booting _ | .orphaned | .running => true
  | .stopped | .stopping _ => false

/-- The waits of `_launch` after the spawn of the emulator. -/
def BootPc.hasEmu : BootPc → Bool
  | .discovering | .grpcStatus | .waitDevice | .booting | .settingUp _ => true
  | _ => false

/-- The waits of `_launch` after the discovery. -/
def BootPc.hasGrpc : BootPc → Bool
  | .grpcStatus | .waitDevice | .booting | .settingUp _ => true
  | _ => false

/-- A teardown is a stretch before the launch. -/
theorem BootTeardown.hasEmu {c : Control} {d : Devices} {t : Boot} {w : Wake} {p : Prepared}
    {r : Devices × TeardownNext} (h : BootTeardown c d t w p r) : t.pc.hasEmu = false := by
  cases h <;> simp [*, BootPc.hasEmu]

/-- The stage of the tasks. -/
def Control.stage (c : Control) : Stage :=
  match c.state with
  | .stopped => .stopped
  | .running => .running
  | .starting =>
    match c.bootTask.bind (c.boots[·]?) with
    | some t => if t.cancelled = false ∧ t.pc ≠ .ended then .booting t else .orphaned
    | none => .orphaned
  | .stopping =>
    match c.stopTask.bind (c.stops[·]?) with
    | some t => .stopping t
    | none => .stopped

/-- The stage of a lifecycle. -/
def Lifecycle.stage (l : Lifecycle) : Stage := l.ctl.stage

/-! ### The stage of the changed tasks -/

namespace Control

variable {c : Control} {b k : Nat}

theorem stage_stopped (h : c.state = .stopped) : c.stage = .stopped := by simp [stage, h]

theorem stage_running (h : c.state = .running) : c.stage = .running := by simp [stage, h]

theorem stage_booting {t : Boot} (hs : c.state = .starting) (hb : c.bootTask = some b)
    (ht : c.boots[b]? = some t) (hc : t.cancelled = false) (hpc : t.pc ≠ .ended) :
    c.stage = .booting t := by
  simp [stage, hs, hb, ht, hc, hpc]

theorem stage_orphaned {t : Boot} (hs : c.state = .starting) (hb : c.bootTask = some b)
    (ht : c.boots[b]? = some t) (hpc : t.pc = .ended) : c.stage = .orphaned := by
  simp [stage, hs, hb, ht, hpc]

theorem stage_stopping {t : Stop} (hs : c.state = .stopping) (hk : c.stopTask = some k)
    (ht : c.stops[k]? = some t) : c.stage = .stopping t := by
  simp [stage, hs, hk, ht]

/-- The boot task of the stage. -/
theorem of_stage_booting {t : Boot} (h : c.stage = .booting t) : c.state = .starting ∧
    ∃ b, c.bootTask = some b ∧ c.boots[b]? = some t ∧ t.cancelled = false ∧ t.pc ≠ .ended := by
  unfold stage at h
  split at h
  · cases h
  · cases h
  · rename_i hs
    split at h
    · rename_i u hu
      obtain ⟨b, hb, ht⟩ := Option.bind_eq_some_iff.mp hu
      split at h
      · rename_i hlive
        cases h
        exact ⟨hs, b, hb, ht, hlive⟩
      · cases h
    · cases h
  · split at h <;> cases h

/-- STARTING is a stage with or without a boot task. -/
theorem stage_starting (h : c.state = .starting) :
    (∃ t, c.stage = .booting t) ∨ c.stage = .orphaned := by
  simp only [stage, h]
  split
  · split
    · exact .inl ⟨_, rfl⟩
    · exact .inr rfl
  · exact .inr rfl

/-- The stages of STOPPED and STOPPING. -/
theorem stage_down (h : c.state.up = false) :
    c.stage = .stopped ∨ ∃ t, c.stage = .stopping t := by
  unfold stage
  cases hs : c.state with
  | stopped => exact .inl rfl
  | stopping =>
    simp only
    split
    · exact .inr ⟨_, rfl⟩
    · exact .inl rfl
  | starting => rw [hs] at h; cases h
  | running => rw [hs] at h; cases h

theorem up_stage (c : Control) : c.stage.up = c.state.up := by
  cases hs : c.state with
  | stopped => rw [stage_stopped hs]; rfl
  | running => rw [stage_running hs]; rfl
  | starting => obtain ⟨t, h⟩ | h := stage_starting hs <;> rw [h] <;> rfl
  | stopping =>
    have hdown : c.state.up = false := by rw [hs]; rfl
    obtain h | ⟨t, h⟩ := stage_down hdown <;> rw [h] <;> rfl

theorem stage_beginBoot : c.beginBoot.stage =
    .booting { gen := c.begun + 1, previous := none, crash := none, pc := .created,
               cancelled := false } :=
  stage_booting rfl rfl Table.append_new rfl (by simp)

theorem stage_beginStop (current : Option Nat) (error : LifecycleError) :
    (c.beginStop current error).stage =
      .stopping { boot := c.bootTask, done := c.bootDone, error, pc := .created } :=
  stage_stopping rfl rfl Table.append_new

theorem stage_retry (crash : CrashInfo) : (c.retry crash).stage =
    .booting { gen := c.begun, previous := c.bootTask, crash := some crash, pc := .created,
               cancelled := false } :=
  stage_booting rfl rfl Table.append_new rfl (by simp)

end Control

namespace TasksOk

variable {c : Control} {b : Nat} {t : Boot}

/-- A boot task that is neither done nor cancelled is the one of the stage. -/
theorem stage_boot (h : TasksOk c) (hb : c.boots[b]? = some t) (hc : t.cancelled = false)
    (hpc : t.pc ≠ .ended) : c.stage = .booting t := by
  obtain ⟨hs, htask, -⟩ := h.bootLive b t hb hc hpc
  exact Control.stage_booting hs htask hb hc hpc

/-- A stop task that is not done is the one of the stage. -/
theorem stage_stop (h : TasksOk c) {k : Nat} {t : Stop} (hk : c.stops[k]? = some t)
    (hpc : t.pc ≠ .ended) : c.stage = .stopping t := by
  obtain ⟨hs, htask, -⟩ := h.stopLive k t hk hpc
  exact Control.stage_stopping hs htask hk

/-- The boot task of the stage at its next wait. -/
theorem stage_setBoot (h : TasksOk c) (hb : c.boots[b]? = some t) (hc : t.cancelled = false)
    (hpc : t.pc ≠ .ended) {pc : BootPc} (hne : pc ≠ .ended) :
    (c.setBoot b pc).stage = .booting { t with pc } := by
  obtain ⟨hs, htask, -⟩ := h.bootLive b t hb hc hpc
  exact Control.stage_booting hs htask (Table.modify_self hb) hc hne

/-- The boot task of the stage at its end. -/
theorem stage_endBoot (h : TasksOk c) (hb : c.boots[b]? = some t) (hc : t.cancelled = false)
    (hpc : t.pc ≠ .ended) : (c.setBoot b .ended).stage = .orphaned := by
  obtain ⟨hs, htask, -⟩ := h.bootLive b t hb hc hpc
  exact Control.stage_orphaned hs htask (Table.modify_self hb) rfl

/-- The stop task of the stage at its next wait. -/
theorem stage_setStop (h : TasksOk c) {k : Nat} {t : Stop} (hk : c.stops[k]? = some t)
    (hpc : t.pc ≠ .ended) (pc : StopPc) : (c.setStop k pc).stage = .stopping { t with pc } := by
  obtain ⟨hs, htask, -⟩ := h.stopLive k t hk hpc
  exact Control.stage_stopping hs htask (Table.modify_self hk)

/-- The end of a cancelled boot task does not show in the stage. -/
theorem stage_unwound (hb : c.boots[b]? = some t) (hc : t.cancelled = true) :
    (c.setBoot b .ended).stage = c.stage := by
  unfold Control.stage
  cases hs : c.state with
  | starting =>
    cases htask : c.bootTask with
    | none => simp [Control.setBoot, hs, htask]
    | some b' =>
      by_cases hbb : b = b'
      · subst hbb
        simp [Control.setBoot, hs, htask, hb, hc]
      · simp [Control.setBoot, hs, htask, hbb]
  | stopped | running | stopping => simp [Control.setBoot, hs]

end TasksOk

/-! ### The moves by their stages -/

/-- The emulator crashed by itself, in a boot or soon after: a status other than zero, no
line at which the daemon killed it, no line that says that it would happen again. -/
structure CrashInfo.Own (cfg : Config) (crash : CrashInfo) : Prop where
  code : crash.code ≠ 0
  hangLine : crash.hangLine = none
  fatalLine : crash.fatalLine = none
  settling : crash.state = .starting ∨ ∃ t, crash.runningFor = some t ∧ t < cfg.settle

/-- What is known of a retry: it is the first one of its boot, and of such a crash. -/
structure Retried (cfg : Config) (l l' : Lifecycle) (m : Emu) (crash : CrashInfo) : Prop where
  before : l.ctl.retried = false
  after : l'.ctl.retried = true
  emu : l.dev.emu = some crash.emu
  returncode : m.returncode = some crash.code
  hangLine : m.hangLine = crash.hangLine
  own : crash.Own cfg

/-- What a step does, by the stages and the devices before and after it. -/
inductive Act (cfg : Config) (l : Lifecycle) : Event → Lifecycle → Prop
  | quiet {ev : Event} {l' : Lifecycle} : l'.stage = l.stage → l'.dev = l.dev → Act cfg l ev l'
  | begin {l' : Lifecycle} : l.stage = .stopped →
      l'.stage = .booting { gen := l.ctl.begun + 1, previous := none, crash := none,
                            pc := .created, cancelled := false } →
      l'.dev = l.dev → Act cfg l .begin l'
  /-- A stop begins. -/
  | halts {ev : Event} {l' : Lifecycle} {t : Stop} : l.ctl.state.up = true →
      l'.stage = .stopping t → t.pc = .created →
      l'.dev = l.dev ∨
        (∃ e, l.dev.emu = some e ∧
          l'.dev = l.dev.updateEmu e ({ · with watch := .handled })) →
      Act cfg l ev l'
  | bootWaits {b : Nat} {w : Wake} {t : Boot} {pc : BootPc} {l' : Lifecycle} :
      l.ctl.boots[b]? = some t → l.stage = .booting t → BootWaits l.ctl l.dev t w pc l'.dev →
      l'.stage = .booting { t with pc } → Act cfg l (.boot b w) l'
  /-- A boot fails and begins a stop. -/
  | bootFails {b : Nat} {w : Wake} {t : Boot} {x : BootError} {u : Stop} {l' : Lifecycle} :
      l.ctl.boots[b]? = some t → l.stage = .booting t → BootRaises l.ctl l.dev t w x l'.dev →
      l'.stage = .stopping u → u.pc = .created → Act cfg l (.boot b w) l'
  /-- A boot fails and leaves the rest to the watcher. -/
  | bootDrops {b : Nat} {w : Wake} {t : Boot} {x : BootError} {l' : Lifecycle} :
      l.ctl.boots[b]? = some t → l.stage = .booting t → BootRaises l.ctl l.dev t w x l'.dev →
      l'.stage = .orphaned →
      l.info.crashes = none ∨ l'.dev.emu.all l'.dev.alive = false ∧ (∃ f, x = .failure f) →
      Act cfg l (.boot b w) l'
  | bootDone {b : Nat} {t : Boot} {l' : Lifecycle} : l.stage = .booting t →
      t.pc = .settingUp 0 → l'.stage = .running → l'.dev = l.dev →
      Act cfg l (.boot b .command) l'
  | stopAwaits {k : Nat} {t : Stop} {l' : Lifecycle} : l.stage = .stopping t →
      t.pc = .created → l'.stage = .stopping { t with pc := .awaitBoot } → l'.dev = l.dev →
      Act cfg l (.stop k .go) l'
  | stopWaits {k : Nat} {w : StopWake} {t : Stop} {pc : TeardownPc} {l' : Lifecycle} :
      l.ctl.stops[k]? = some t → l.stage = .stopping t →
      StopTeardown l.ctl l.dev t w (l'.dev, .wait pc) →
      l'.stage = .stopping { t with pc := .teardown pc } → Act cfg l (.stop k w) l'
  | stopDone {k : Nat} {w : StopWake} {t : Stop} {next : TeardownNext} {l' : Lifecycle} :
      l.ctl.stops[k]? = some t → l.stage = .stopping t →
      StopTeardown l.ctl l.dev t w (l'.dev, next) →
      next = .done ∨ next = .raised → l'.stage = .stopped → Act cfg l (.stop k w) l'
  | emu {ev : Event} {e : Nat} {m m' : Emu} {l' : Lifecycle} : l'.stage = l.stage →
      l.dev.emus[e]? = some m → EmuStep e m ev m' →
      l'.dev = { l.dev with emus := l.dev.emus.set e m' } → Act cfg l ev l'
  | watchFailed {e : Nat} {line : Option String} {m : Emu} {l' : Lifecycle} :
      l'.stage = l.stage → l.dev.emus[e]? = some m → m.watch = .pending → m.log = .failed →
      l'.dev = l.dev.updateEmu e ({ · with watch := .failed }) → Act cfg l (.watch e line) l'
  | watchDropped {e : Nat} {line : Option String} {m : Emu} {l' : Lifecycle} :
      l'.stage = l.stage → l.dev.emus[e]? = some m → m.watch = .pending →
      l.dev.emu ≠ some e ∨ l.ctl.state.up = false →
      l'.dev = l.dev.updateEmu e ({ · with watch := .dropped }) → Act cfg l (.watch e line) l'
  | retries {e : Nat} {line : Option String} {m : Emu} {crash : CrashInfo} {l' : Lifecycle} :
      l.ctl.state.up = true → l.dev.emus[e]? = some m → m.watch = .pending →
      l.dev.emu = some e →
      l'.stage = .booting { gen := l.ctl.begun, previous := l.ctl.bootTask,
                            crash := some crash, pc := .created, cancelled := false } →
      l'.dev = l.dev.updateEmu e ({ · with watch := .handled }) →
      Retried cfg l l' m crash → Act cfg l (.watch e line) l'

/-- The first stretch of a teardown is not the end of a boot. -/
theorem BootWaits.pc_ne_ended {c : Control} {d dev : Devices} {t : Boot} {w : Wake}
    {pc : BootPc} (h : BootWaits c d t w pc dev) : pc ≠ .ended := by
  cases h <;> simp

/-- A crash counts as a failed boot in STARTING, and for the settle time in RUNNING. -/
theorem Lifecycle.settling_cases {cfg : Config} {l : Lifecycle} (h : l.settling cfg = true) :
    l.ctl.state = .starting ∨ ∃ t, l.runningFor = some t ∧ t < cfg.settle := by
  rcases Bool.or_eq_true_iff.mp h with hs | hs
  · exact .inl (by simpa using hs)
  · exact .inr (by simpa [Option.any_eq_true] using hs)

/-- Every move is an act. -/
theorem Move.act {cfg : Config} {l l' : Lifecycle} {ev : Event} (h : TasksOk l.ctl)
    (hm : Move cfg l ev l') : Act cfg l ev l' := by
  cases hm with
  | begin hs _ => exact .begin (Control.stage_stopped hs) Control.stage_beginBoot rfl
  | halt hup => exact .halts hup (Control.stage_beginStop ..) rfl (.inl rfl)
  | shutdownUp hup => exact .halts hup (Control.stage_beginStop ..) rfl (.inl rfl)
  | shutdownDown _ => exact .quiet rfl rfl
  | every => exact .quiet rfl rfl
  | touch => exact .quiet rfl rfl
  | clock _ => exact .quiet rfl rfl
  | bootWaits hb hc hw =>
    exact .bootWaits hb (h.stage_boot hb hc hw.not_ended) hw
      (h.stage_setBoot hb hc hw.not_ended hw.pc_ne_ended)
  | bootFails hb hc hr =>
    exact .bootFails hb (h.stage_boot hb hc hr.not_ended) hr (Control.stage_beginStop ..) rfl
  | bootDrops hb hc hr hx =>
    exact .bootDrops hb (h.stage_boot hb hc hr.not_ended) hr
      (h.stage_endBoot hb hc hr.not_ended) hx
  | bootDone hb hc hpc =>
    have hend : ∀ {t : Boot}, t.pc = .settingUp 0 → t.pc ≠ .ended := by rintro t ht; simp [ht]
    obtain ⟨hs, -⟩ := h.bootLive _ _ hb hc (hend hpc)
    obtain ⟨f, -, hdone, -⟩ := h.starting hs
    refine .bootDone (h.stage_boot hb hc (hend hpc)) hpc ?_ ?_
    · rw [Lifecycle.stage, complete_ctl hdone]
      exact Control.stage_running rfl
    · simp [Lifecycle.complete, Control.setBoot, hdone]
  | unwound hb hc _ => exact .quiet (TasksOk.stage_unwound hb hc) rfl
  | @stopAwaits _ t hk hpc =>
    have hne : t.pc ≠ .ended := by simp [hpc]
    exact .stopAwaits (h.stage_stop hk hne) hpc (h.stage_setStop hk hne _) rfl
  | stopWaits hk ht =>
    exact .stopWaits hk (h.stage_stop hk ht.not_ended) ht (h.stage_setStop hk ht.not_ended _)
  | stopDone hk ht hn =>
    exact .stopDone hk (h.stage_stop hk ht.not_ended) ht hn (Control.stage_stopped rfl)
  | emu hm hs => exact .emu rfl hm hs rfl
  | watchFailed hm hw hl => exact .watchFailed rfl hm hw hl rfl
  | watchDropped hm hw hd => exact .watchDropped rfl hm hw hd rfl
  | watchStops _ _ hcur hup _ =>
    exact .halts hup (Control.stage_beginStop ..) rfl (.inr ⟨_, hcur, rfl⟩)
  | watchRetries hm hw hcur hup hret hcode hset hne hline hhang hcrash =>
    refine .retries hup hm hw hcur (Control.stage_retry _) rfl ?_
    subst hcrash
    exact ⟨hret, rfl, hcur, hcode, hhang, hne, rfl, hline, Lifecycle.settling_cases hset⟩

/-- Every step of a reachable lifecycle is an act. -/
theorem step_act {cfg : Config} {l l' : Lifecycle} {ev : Event}
    (h : (lifecycle cfg).Reachable l) (hstep : l.step cfg ev = some l') : Act cfg l ev l' :=
  (step_move hstep).act (tasksOk h)

end Supervisor

end AndroidAppliance
