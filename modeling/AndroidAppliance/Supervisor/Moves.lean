import AndroidAppliance.Supervisor.Lifecycle

/-!
# What a step of the lifecycle can do

`Lifecycle.step` is taken apart once, into the constructors of `Move`. A move names the
new tasks, devices and jobs as functions of the old ones, with the guards under which the
step takes that branch; only the status is left open where nothing depends on it. Every
invariant is proved by cases on `Move`.
-/

namespace AndroidAppliance

namespace Supervisor

/-- The stretches of a boot task that lead it into a retry's teardown, through it or out
of it. -/
inductive BootTeardown (c : Control) (d : Devices) (t : Boot) :
    Wake → Prepared → Devices × TeardownNext → Prop
  | first {p : Prepared} : t.pc = .awaitPrevious → c.bootEnded t.previous = true →
      BootTeardown c d t (.go p) p d.teardown
  | resume {pc : TeardownPc} {o : TeardownOutcome} {p : Prepared}
      {r : Devices × TeardownNext} : t.pc = .teardown pc → d.teardownResume pc o = some r →
      BootTeardown c d t (.torn o p) p r

/-- The stretches of a boot task `t` that end in another wait `pc`. -/
inductive BootWaits (c : Control) (d : Devices) (t : Boot) : Wake → BootPc → Devices → Prop
  | first {p : Prepared} : t.pc = .created → t.previous = none → p.error = none →
      BootWaits c d t (.go p) .startServer d
  | retry {p : Prepared} {b : Nat} : t.pc = .created → t.previous = some b →
      BootWaits c d t (.go p) .awaitPrevious d
  | tearing {w : Wake} {p : Prepared} {pc : TeardownPc} {dev : Devices} :
      BootTeardown c d t w p (dev, .wait pc) → BootWaits c d t w (.teardown pc) dev
  | torn {w : Wake} {p : Prepared} {dev : Devices} :
      BootTeardown c d t w p (dev, .done) → p.error = none →
      BootWaits c d t w .startServer dev
  | served : t.pc = .startServer → BootWaits c d t .served .setupGpu d
  | gpu {mode : String} {xvnc : Bool} : t.pc = .setupGpu →
      BootWaits c d t (.gpu mode xvnc) .spawning (d.gpuReady xvnc)
  | spawned : t.pc = .spawning →
      BootWaits c d t (.spawned false) .discovering (d.launched t.gen)
  | spawnedFound : t.pc = .spawning →
      BootWaits c d t (.spawned true) .grpcStatus (d.launched t.gen).connected
  | found : t.pc = .discovering → BootWaits c d t .found .grpcStatus d.connected
  | answered : t.pc = .grpcStatus → BootWaits c d t .answered .waitDevice d
  | device : t.pc = .waitDevice → BootWaits c d t .device .booting d
  | completed : t.pc = .booting → BootWaits c d t .completed (.settingUp (postBoot - 1)) d
  | command {n : Nat} : t.pc = .settingUp (n + 1) →
      BootWaits c d t .command (.settingUp n) d

/-- The stretches of a boot task `t` that end in the exception `x`. -/
inductive BootRaises (c : Control) (d : Devices) (t : Boot) :
    Wake → BootError → Devices → Prop
  | prepare {p : Prepared} {x : BootError} : t.pc = .created → t.previous = none →
      p.error = some x → BootRaises c d t (.go p) x d
  | torn {w : Wake} {p : Prepared} {x : BootError} {dev : Devices} :
      BootTeardown c d t w p (dev, .done) → p.error = some x → BootRaises c d t w x dev
  | teardown {w : Wake} {p : Prepared} {message : String} {dev : Devices} :
      BootTeardown c d t w p (dev, .raised) → BootRaises c d t w (.unexpected message) dev
  | launch {x : BootError} : t.pc.launching = true → BootRaises c d t (.raised x) x d

/-- The stretches of a stop task `t` in its teardown. -/
inductive StopTeardown (c : Control) (d : Devices) (t : Stop) :
    StopWake → Devices × TeardownNext → Prop
  | first : t.pc = .created ∨ t.pc = .awaitBoot → c.bootEnded t.boot = true →
      StopTeardown c d t .go d.teardown
  | resume {pc : TeardownPc} {o : TeardownOutcome} {r : Devices × TeardownNext} :
      t.pc = .teardown pc → d.teardownResume pc o = some r → StopTeardown c d t (.torn o) r

/-- The steps of an emulator's process and of its own two tasks. -/
inductive EmuStep (e : Nat) (m : Emu) : Event → Emu → Prop
  | exit {code : Int} : m.returncode = none →
      EmuStep e m (.exit e code) { m with returncode := some code }
  | seen {code : Int} : m.returncode = some code → m.exited = false →
      EmuStep e m (.exitSeen e) { m with exited := true }
  | logEnded {code : Int} {r : LogRead} : m.log = .running → m.returncode = some code →
      EmuStep e m (.readLog e r) { m with log := .ended }
  | logKept {r : LogRead} : m.log = .running → m.returncode = none →
      EmuStep e m (.readLog e r) m
  | logFailed : m.log = .running → m.returncode = none →
      EmuStep e m (.readLog e .failed) { m with log := .failed }
  | hang {line : String} : m.log = .running → m.returncode = none → m.stopping = false →
      EmuStep e m (.readLog e (.lines (some line))) { m with
        hangLine := some line, signals := m.signals ++ [.sigkill], log := .ended }

/-- What a step of the lifecycle can do. -/
inductive Move (cfg : Config) (l : Lifecycle) : Event → Lifecycle → Prop
  | begin {info : Status} : l.ctl.state = .stopped → l.ctl.closing = false →
      Move cfg l .begin ⟨l.ctl.beginBoot, l.dev, l.job, info⟩
  | halt {info : Status} : l.ctl.state.up = true →
      Move cfg l .halt
        ⟨l.ctl.beginStop none .stoppedDuringStart, l.dev, l.job.cancelJobs, info⟩
  | shutdownUp {info : Status} : l.ctl.state.up = true →
      Move cfg l .shutdown
        ⟨{ l.ctl with closing := true }.beginStop none .stoppedDuringStart, l.dev,
          l.job.cancelJobs, info⟩
  | shutdownDown : l.ctl.state.up = false →
      Move cfg l .shutdown ⟨{ l.ctl with closing := true }, l.dev, l.job, l.info⟩
  | every {job : Job} :
      Move cfg l (.every job)
        ⟨l.ctl, l.dev, l.job.every (l.ctl.state == .running) job, l.info⟩
  | touch {info : Status} : Move cfg l .touch ⟨l.ctl, l.dev, l.job, info⟩
  | clock {monotonic wall : ℚ} : l.info.monotonic ≤ monotonic →
      Move cfg l (.clock monotonic wall)
        ⟨l.ctl, l.dev, l.job, { l.info with monotonic, wall }⟩
  | bootWaits {b : Nat} {t : Boot} {w : Wake} {pc : BootPc} {dev : Devices} {info : Status} :
      l.ctl.boots[b]? = some t → t.cancelled = false → BootWaits l.ctl l.dev t w pc dev →
      Move cfg l (.boot b w) ⟨l.ctl.setBoot b pc, dev, l.job, info⟩
  | bootFails {b : Nat} {t : Boot} {w : Wake} {x : BootError} {code message : String}
      {dev : Devices} {info : Status} : l.ctl.boots[b]? = some t → t.cancelled = false →
      BootRaises l.ctl l.dev t w x dev →
      Move cfg l (.boot b w)
        ⟨(l.ctl.beginStop (some b) (.failed code message)).setBoot b .ended, dev,
          l.job.cancelJobs, info⟩
  | bootDrops {b : Nat} {t : Boot} {w : Wake} {x : BootError} {dev : Devices}
      {info : Status} : l.ctl.boots[b]? = some t → t.cancelled = false →
      BootRaises l.ctl l.dev t w x dev →
      l.info.crashes = none ∨ dev.emu.all dev.alive = false ∧ (∃ f, x = .failure f) →
      Move cfg l (.boot b w) ⟨l.ctl.setBoot b .ended, dev, l.job, info⟩
  | bootDone {b : Nat} {t : Boot} : l.ctl.boots[b]? = some t → t.cancelled = false →
      t.pc = .settingUp 0 → Move cfg l (.boot b .command) (l.complete b)
  | unwound {b : Nat} {t : Boot} : l.ctl.boots[b]? = some t → t.cancelled = true →
      t.done = false → Move cfg l (.unwound b) ⟨l.ctl.setBoot b .ended, l.dev, l.job, l.info⟩
  | stopAwaits {k : Nat} {t : Stop} : l.ctl.stops[k]? = some t → t.pc = .created →
      Move cfg l (.stop k .go) ⟨l.ctl.setStop k .awaitBoot, l.dev, l.job, l.info⟩
  | stopWaits {k : Nat} {t : Stop} {w : StopWake} {pc : TeardownPc} {dev : Devices} :
      l.ctl.stops[k]? = some t → StopTeardown l.ctl l.dev t w (dev, .wait pc) →
      Move cfg l (.stop k w) ⟨l.ctl.setStop k (.teardown pc), dev, l.job, l.info⟩
  | stopDone {k : Nat} {t : Stop} {w : StopWake} {next : TeardownNext} {dev : Devices}
      {info : Status} : l.ctl.stops[k]? = some t → StopTeardown l.ctl l.dev t w (dev, next) →
      next = .done ∨ next = .raised →
      Move cfg l (.stop k w) ⟨l.ctl.finishStop k t, dev, l.job, info⟩
  | emu {ev : Event} {e : Nat} {m m' : Emu} : l.dev.emus[e]? = some m → EmuStep e m ev m' →
      Move cfg l ev ⟨l.ctl, { l.dev with emus := l.dev.emus.set e m' }, l.job, l.info⟩
  | watchFailed {e : Nat} {line : Option String} {m : Emu} : l.dev.emus[e]? = some m →
      m.watch = .pending → m.log = .failed →
      Move cfg l (.watch e line)
        ⟨l.ctl, l.dev.updateEmu e ({ · with watch := .failed }), l.job, l.info⟩
  | watchDropped {e : Nat} {line : Option String} {m : Emu} : l.dev.emus[e]? = some m →
      m.watch = .pending → l.dev.emu ≠ some e ∨ l.ctl.state.up = false →
      Move cfg l (.watch e line)
        ⟨l.ctl, l.dev.updateEmu e ({ · with watch := .dropped }), l.job, l.info⟩
  | watchStops {e : Nat} {line : Option String} {m : Emu} {retried : Bool}
      {error : LifecycleError} {info : Status} : l.dev.emus[e]? = some m →
      m.watch = .pending → l.dev.emu = some e → l.ctl.state.up = true →
      retried = l.ctl.retried ∨ retried = true →
      Move cfg l (.watch e line)
        ⟨{ l.ctl with retried }.beginStop none error,
          l.dev.updateEmu e ({ · with watch := .handled }), l.job.cancelJobs, info⟩
  | watchRetries {e : Nat} {line : Option String} {m : Emu} {code : Int} {crash : CrashInfo}
      {info : Status} : l.dev.emus[e]? = some m → m.watch = .pending → l.dev.emu = some e →
      l.ctl.state.up = true → l.ctl.retried = false → m.returncode = some code →
      l.settling cfg = true → code ≠ 0 → line = none → m.hangLine = none →
      crash = { emu := e, code, hangLine := none, fatalLine := line, state := l.ctl.state,
                runningFor := l.runningFor } →
      Move cfg l (.watch e line)
        ⟨{ l.ctl with retried := true }.retry crash,
          l.dev.updateEmu e ({ · with watch := .handled }), l.job.cancelJobs, info⟩

/-! ### The inversion lemma -/

theorem emuStep_cases {d d' : Devices} {e : Nat} {f : Emu → Option Emu}
    (h : d.emuStep e f = some d') :
    ∃ m m', d.emus[e]? = some m ∧ f m = some m' ∧ d' = { d with emus := d.emus.set e m' } := by
  obtain ⟨m', hm', rfl⟩ := Option.map_eq_some_iff.mp h
  obtain ⟨m, hm, hf⟩ := Option.bind_eq_some_iff.mp hm'
  exact ⟨m, m', hm, hf, rfl⟩

theorem EmuStep.of_exit {e : Nat} {m m' : Emu} {code : Int} (h : m.exit code = some m') :
    EmuStep e m (.exit e code) m' := by
  simp only [Emu.exit, Emu.alive, Option.isNone_iff_eq_none] at h
  split at h
  case isTrue hm => cases h; exact .exit hm
  case isFalse => cases h

theorem EmuStep.of_seeExit {e : Nat} {m m' : Emu} (h : m.seeExit = some m') :
    EmuStep e m (.exitSeen e) m' := by
  simp only [Emu.seeExit] at h
  split at h
  case isTrue hm =>
    obtain ⟨hcode, hexit⟩ := Bool.and_eq_true_iff.mp hm
    obtain ⟨code, hcode⟩ := Option.isSome_iff_exists.mp hcode
    cases h
    exact .seen hcode (by simpa using hexit)
  case isFalse => cases h

theorem EmuStep.of_readLog {e : Nat} {m m' : Emu} {r : LogRead} (h : m.readLog r = some m') :
    EmuStep e m (.readLog e r) m' := by
  simp only [Emu.readLog] at h
  split at h
  · cases h
  rename_i hlog
  rw [not_not] at hlog
  split at h
  · rename_i hcode
    obtain ⟨code, hcode⟩ := Option.isSome_iff_exists.mp hcode
    cases h
    exact .logEnded hlog hcode
  rename_i hcode
  rw [Option.not_isSome_iff_eq_none] at hcode
  cases r with
  | missing => cases h; exact .logKept hlog hcode
  | failed => cases h; exact .logFailed hlog hcode
  | lines hang =>
    cases hang with
    | none => cases h; exact .logKept hlog hcode
    | some line =>
      simp only at h
      split at h
      · cases h; exact .logKept hlog hcode
      · rename_i hstop
        cases h
        exact .hang hlog hcode (by simpa using hstop)

/-- The `except` clauses of `_boot` begin a stop, or end the task silently. -/
theorem bootRaised_cases (l : Lifecycle) (b : Nat) (x : BootError) :
    (∃ code message info, l.bootRaised b x =
      ⟨(l.ctl.beginStop (some b) (.failed code message)).setBoot b .ended, l.dev,
        l.job.cancelJobs, info⟩) ∨
    ((l.info.crashes = none ∨ l.dev.emu.all l.dev.alive = false ∧ ∃ f, x = .failure f) ∧
      l.bootRaised b x = ⟨l.ctl.setBoot b .ended, l.dev, l.job, l.info⟩) := by
  have hfail : ∀ f : Failure,
      (∃ code message info, ((l.fail (some b) f).getD l).setBoot b .ended =
        ⟨(l.ctl.beginStop (some b) (.failed code message)).setBoot b .ended, l.dev,
          l.job.cancelJobs, info⟩) ∨
      (l.info.crashes = none ∧
        ((l.fail (some b) f).getD l).setBoot b .ended =
          ⟨l.ctl.setBoot b .ended, l.dev, l.job, l.info⟩) := by
    intro f
    cases hc : l.info.crashes with
    | none => exact .inr ⟨rfl, by simp [Lifecycle.fail, Lifecycle.record, hc, Lifecycle.setBoot]⟩
    | some crashes =>
      simp only [Lifecycle.fail, Lifecycle.record, hc, Option.map_some, Option.getD_some]
      exact .inl ⟨f.code, f.message, _, rfl⟩
  cases x with
  | unexpected message =>
    rcases hfail (.ofKind "internal" s!"internal error while starting: {message}" none) with
      h | ⟨hc, h⟩
    · exact .inl h
    · exact .inr ⟨.inl hc, h⟩
  | failure f =>
    simp only [Lifecycle.bootRaised]
    split
    · rcases hfail f with h | ⟨hc, h⟩
      · exact .inl h
      · exact .inr ⟨.inl hc, h⟩
    · rename_i hdead
      exact .inr ⟨.inr ⟨by simpa using hdead, f, rfl⟩, rfl⟩

/-- A boot that raises makes one of the two moves of `bootRaised_cases`. -/
private theorem move_bootRaised {cfg : Config} {l : Lifecycle} {b : Nat} {t : Boot} {w : Wake}
    {x : BootError} {dev : Devices} {info : Status} (hb : l.ctl.boots[b]? = some t)
    (hc : t.cancelled = false) (hr : BootRaises l.ctl l.dev t w x dev)
    (hinfo : info.crashes = l.info.crashes) :
    Move cfg l (.boot b w) ((⟨l.ctl, dev, l.job, info⟩ : Lifecycle).bootRaised b x) := by
  rcases bootRaised_cases ⟨l.ctl, dev, l.job, info⟩ b x with ⟨code, message, info', h⟩ | ⟨hx, h⟩
  · rw [h]
    exact .bootFails hb hc hr
  · rw [h]
    refine .bootDrops hb hc hr ?_
    rwa [← hinfo]

/-- `_prepare` at the end of a stretch: the boot waits for the adb server, or raises. -/
private theorem move_launch {cfg : Config} {l : Lifecycle} {b : Nat} {t : Boot} {w : Wake}
    {p : Prepared} {dev : Devices} (hb : l.ctl.boots[b]? = some t) (hc : t.cancelled = false)
    (hok : p.error = none → BootWaits l.ctl l.dev t w .startServer dev)
    (herr : ∀ x, p.error = some x → BootRaises l.ctl l.dev t w x dev) :
    Move cfg l (.boot b w) ((⟨l.ctl, dev, l.job, l.info⟩ : Lifecycle).launch b p) := by
  simp only [Lifecycle.launch]
  cases hp : p.error with
  | none => exact .bootWaits hb hc (hok hp)
  | some x => exact move_bootRaised hb hc (herr x hp) rfl

/-- A stretch of a retry's teardown. -/
private theorem move_bootTeardown {cfg : Config} {l : Lifecycle} {b : Nat} {t : Boot}
    {w : Wake} {p : Prepared} {r : Devices × TeardownNext} (hb : l.ctl.boots[b]? = some t)
    (hc : t.cancelled = false) (h : BootTeardown l.ctl l.dev t w p r) :
    Move cfg l (.boot b w) (l.bootTeardown b p r) := by
  obtain ⟨dev, next⟩ := r
  cases next with
  | wait pc => exact .bootWaits hb hc (.tearing h)
  | done => exact move_launch hb hc (fun hp => .torn h hp) fun x hx => .torn h hx
  | raised => exact move_bootRaised hb hc (.teardown h) rfl

/-- The steps of a boot task. -/
private theorem move_bootStep {cfg : Config} {l l' : Lifecycle} {b : Nat} {t : Boot}
    {w : Wake} (hb : l.ctl.boots[b]? = some t) (hc : t.cancelled = false)
    (h : l.bootStep b t w = some l') : Move cfg l (.boot b w) l' := by
  cases w with
  | go p =>
    simp only [Lifecycle.bootStep] at h
    split at h
    · rename_i hpc hprev
      cases h
      exact move_launch hb hc (fun hp => .first hpc hprev hp)
        fun x hx => .prepare hpc hprev hx
    · rename_i hpc hprev
      cases h
      exact .bootWaits hb hc (.retry hpc hprev)
    · rename_i hpc
      split at h
      · rename_i hend
        cases h
        exact move_bootTeardown hb hc (.first hpc hend)
      · cases h
    · cases h
  | torn o p =>
    simp only [Lifecycle.bootStep] at h
    split at h
    · rename_i pc hpc
      obtain ⟨r, hr, rfl⟩ := Option.map_eq_some_iff.mp h
      exact move_bootTeardown hb hc (.resume hpc hr)
    · cases h
  | served =>
    simp only [Lifecycle.bootStep] at h
    split at h
    · cases h; exact .bootWaits hb hc (.served ‹_›)
    · cases h
  | gpu mode xvnc =>
    simp only [Lifecycle.bootStep] at h
    split at h
    · cases h; exact .bootWaits hb hc (.gpu ‹_›)
    · cases h
  | spawned found =>
    simp only [Lifecycle.bootStep] at h
    split at h
    · cases h
      cases found with
      | false => exact .bootWaits hb hc (.spawned ‹_›)
      | true => exact .bootWaits hb hc (.spawnedFound ‹_›)
    · cases h
  | found =>
    simp only [Lifecycle.bootStep] at h
    split at h
    · cases h; exact .bootWaits hb hc (.found ‹_›)
    · cases h
  | answered =>
    simp only [Lifecycle.bootStep] at h
    split at h
    · cases h; exact .bootWaits hb hc (.answered ‹_›)
    · cases h
  | device =>
    simp only [Lifecycle.bootStep] at h
    split at h
    · cases h; exact .bootWaits hb hc (.device ‹_›)
    · cases h
  | completed =>
    simp only [Lifecycle.bootStep] at h
    split at h
    · cases h; exact .bootWaits hb hc (.completed ‹_›)
    · cases h
  | command =>
    simp only [Lifecycle.bootStep] at h
    split at h
    · cases h; exact .bootWaits hb hc (.command ‹_›)
    · cases h; exact .bootDone hb hc ‹_›
    · cases h
  | raised x =>
    simp only [Lifecycle.bootStep] at h
    split at h
    · cases h; exact move_bootRaised hb hc (.launch ‹_›) rfl
    · cases h

/-- A stretch of the teardown of a stop task. -/
private theorem move_stopTeardown {cfg : Config} {l : Lifecycle} {k : Nat} {t : Stop}
    {w : StopWake} {r : Devices × TeardownNext} (hk : l.ctl.stops[k]? = some t)
    (h : StopTeardown l.ctl l.dev t w r) :
    Move cfg l (.stop k w) (l.stopTeardown k t r) := by
  obtain ⟨dev, next⟩ := r
  cases next with
  | wait pc => exact .stopWaits hk h
  | done => exact .stopDone hk h (.inl rfl)
  | raised => exact .stopDone hk h (.inr rfl)

/-- The steps of a stop task. -/
private theorem move_stopStep {cfg : Config} {l l' : Lifecycle} {k : Nat} {t : Stop}
    {w : StopWake} (hk : l.ctl.stops[k]? = some t) (h : l.stopStep k t w = some l') :
    Move cfg l (.stop k w) l' := by
  cases w with
  | go =>
    simp only [Lifecycle.stopStep] at h
    split at h
    · rename_i hpc
      split at h
      · cases h; exact move_stopTeardown hk (.first (.inl hpc) ‹_›)
      · cases h; exact .stopAwaits hk hpc
    · rename_i hpc
      split at h
      · cases h; exact move_stopTeardown hk (.first (.inr hpc) ‹_›)
      · cases h
    · cases h
  | torn o =>
    simp only [Lifecycle.stopStep] at h
    split at h
    · rename_i pc hpc
      obtain ⟨r, hr, rfl⟩ := Option.map_eq_some_iff.mp h
      exact move_stopTeardown hk (.resume hpc hr)
    · cases h

/-- `_exited` begins a stop, possibly with the mark of a retry that could not be recorded,
or retries. -/
private theorem move_handleExit {cfg : Config} {l : Lifecycle} {e : Nat} {m : Emu} {code : Int}
    {line : Option String} (hm : l.dev.emus[e]? = some m) (hw : m.watch = .pending)
    (hcur : l.dev.emu = some e) (hup : l.ctl.state.up = true) (hcode : m.returncode = some code) :
    Move cfg l (.watch e line)
      (({ l with dev := l.dev.updateEmu e ({ · with watch := .handled }) } : Lifecycle).handleExit
        cfg e m code line) := by
  set d := l.dev.updateEmu e ({ · with watch := .handled }) with hd
  have hstop : ∀ (r : Bool) (i : Status) (error : LifecycleError), r = l.ctl.retried ∨ r = true →
      Move cfg l (.watch e line)
        ((⟨{ l.ctl with retried := r }, d, l.job, i⟩ : Lifecycle).beginStop none error) :=
    fun r i error hr => .watchStops hm hw hcur hup hr
  have hfail : ∀ f : Failure, (⟨l.ctl, d, l.job, l.info⟩ : Lifecycle).fail none f = none ∨
      ∃ l', (⟨l.ctl, d, l.job, l.info⟩ : Lifecycle).fail none f = some l' ∧
        Move cfg l (.watch e line) l' := by
    intro f
    cases hc : l.info.crashes with
    | none =>
      left
      simp only [Lifecycle.fail, Lifecycle.record, hc, Option.map_none]
    | some crashes =>
      right
      simp only [Lifecycle.fail, Lifecycle.record, hc, Option.map_some]
      exact ⟨_, rfl, hstop l.ctl.retried _ _ (.inl rfl)⟩
  simp only [Lifecycle.handleExit, Lifecycle.exited]
  cases hhang : m.hangLine with
  | some hang =>
    rcases hfail
        (.ofKind "renderer" s!"the emulator failed and was killed: {hang}" (some code)) with
      hnone | ⟨l', hsome, hmove⟩
    · simp only [hnone, hup, if_true]
      exact hstop l.ctl.retried l.info _ (.inl rfl)
    · simp only [hsome]
      exact hmove
  | none =>
    by_cases hoff : code = 0 ∧ line = none
    · rw [if_pos hoff]
      exact hstop l.ctl.retried l.info _ (.inl rfl)
    rw [if_neg hoff]
    by_cases hretry : (line.isSome || l.ctl.retried || !l.settling cfg) = true
    · have hgo : (line.isSome || l.ctl.retried ||
          !(⟨l.ctl, d, l.job, l.info⟩ : Lifecycle).settling cfg) = true := hretry
      rw [if_pos hgo]
      rcases hfail _ with hnone | ⟨l', hsome, hmove⟩
      · rw [hnone]
        simp only [hup, if_true]
        exact hstop l.ctl.retried l.info _ (.inl rfl)
      · rw [hsome]
        exact hmove
    · have hgo : ¬ (line.isSome || l.ctl.retried ||
          !(⟨l.ctl, d, l.job, l.info⟩ : Lifecycle).settling cfg) = true := hretry
      rw [if_neg hgo]
      simp only [Bool.or_eq_true, not_or, Bool.not_eq_true, Option.isSome_eq_false_iff,
        Option.isNone_iff_eq_none] at hretry
      obtain ⟨⟨hline, hret⟩, hsettle⟩ := hretry
      rw [Bool.not_eq_false'] at hsettle
      cases hc : l.info.crashes with
      | none =>
        simp only [Lifecycle.retry, Lifecycle.record, hc, Option.map_none, hup, if_true]
        exact hstop true l.info _ (.inr rfl)
      | some crashes =>
        simp only [Lifecycle.retry, Lifecycle.record, hc, Option.map_some]
        exact .watchRetries hm hw hcur hup hret hcode hsettle
          (fun h0 => hoff ⟨h0, hline⟩) hline hhang rfl

/-- **The inversion lemma.** Every step of the lifecycle is a `Move`. -/
theorem step_move {cfg : Config} {l l' : Lifecycle} {ev : Event}
    (h : l.step cfg ev = some l') : Move cfg l ev l' := by
  cases ev with
  | begin =>
    simp only [Lifecycle.step] at h
    split at h
    · rename_i hg
      cases h
      exact .begin hg.1 hg.2
    · cases h
  | halt =>
    simp only [Lifecycle.step] at h
    split at h
    · cases h; exact .halt ‹_›
    · cases h
  | shutdown =>
    cases h
    simp only [Lifecycle.shutdown]
    split
    · exact .shutdownUp ‹_›
    · rename_i hdown
      exact .shutdownDown (by simpa using hdown)
  | every job => cases h; exact .every
  | touch => cases h; exact .touch
  | clock monotonic wall =>
    simp only [Lifecycle.step] at h
    split at h
    · cases h; exact .clock ‹_›
    · cases h
  | boot b w =>
    obtain ⟨t, hb, h⟩ := Option.bind_eq_some_iff.mp h
    split at h
    · cases h
    · rename_i hlive
      exact move_bootStep hb (by simpa using hlive) h
  | unwound b =>
    obtain ⟨t, hb, h⟩ := Option.bind_eq_some_iff.mp h
    split at h
    · rename_i hg
      simp only [Bool.and_eq_true, Bool.not_eq_eq_eq_not, Bool.not_true] at hg
      cases h
      exact .unwound hb hg.1 hg.2
    · cases h
  | stop k w =>
    obtain ⟨t, hk, h⟩ := Option.bind_eq_some_iff.mp h
    exact move_stopStep hk h
  | exit e code =>
    obtain ⟨d, hd, rfl⟩ := Option.map_eq_some_iff.mp h
    obtain ⟨m, m', hm, hf, rfl⟩ := emuStep_cases hd
    exact .emu hm (.of_exit hf)
  | exitSeen e =>
    obtain ⟨d, hd, rfl⟩ := Option.map_eq_some_iff.mp h
    obtain ⟨m, m', hm, hf, rfl⟩ := emuStep_cases hd
    exact .emu hm (.of_seeExit hf)
  | readLog e r =>
    obtain ⟨d, hd, rfl⟩ := Option.map_eq_some_iff.mp h
    obtain ⟨m, m', hm, hf, rfl⟩ := emuStep_cases hd
    exact .emu hm (.of_readLog hf)
  | watch e line =>
    obtain ⟨m, hm, h⟩ := Option.bind_eq_some_iff.mp h
    simp only at h
    split at h
    · rename_i hg
      split at h
      · cases h; exact .watchFailed hm hg.1 ‹_›
      · split at h
        · rename_i hcur
          cases h
          exact move_handleExit hm hg.1 hcur.1 hcur.2 ‹_›
        · rename_i hcur
          cases h
          refine .watchDropped hm hg.1 ?_
          by_cases he : l.dev.emu = some e
          · exact .inr (by simpa [he] using hcur)
          · exact .inl he
      · cases h
    · cases h

end Supervisor

end AndroidAppliance
