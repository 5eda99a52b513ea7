import AndroidAppliance.Supervisor.Teardown
import AndroidAppliance.Transition.Machine

/-!
# The state machine of the Supervisor

The functions of `supervisor.py` that change the state, under their names, and the
machine `lifecycle` of their interleavings. Its labels (`Event`) say which task takes
its next step and what its wait gave back. Requests from outside appear as the changes
they make (`begin`, `halt`, `shutdown`); `Requests.lean` puts the callers on top.

An awaited operation of a boot may fail with any `_Failure` or with any other exception,
at any time. A boot that was cancelled takes no other step than to end (`unwound`): the
time until then is its `finally` blocks.
-/

namespace AndroidAppliance

namespace Supervisor

/-! ### Outcomes of the awaited operations -/

/-- An exception in a boot: a `_Failure` (`LaunchError`, `AdbError` and the boot timeout
are turned into one), or anything else. -/
inductive BootError
  | failure (f : Failure)
  | unexpected (message : String)
  deriving DecidableEq, Repr

/-- What `_prepare` does: the API level it found, and what it raised. -/
structure Prepared where
  apiLevel : Option Nat
  error : Option BootError
  deriving DecidableEq, Repr

/-- What the wait of a boot gives back. A stretch that reaches `_prepare` carries what
that does. -/
inductive Wake
  /-- The first step, or the previous boot is done. -/
  | go (p : Prepared)
  /-- A step of the retry's teardown. -/
  | torn (o : TeardownOutcome) (p : Prepared)
  /-- `start_server` returned. -/
  | served
  /-- `setup_gpu` returned the mode, and whether there is an Xvnc. -/
  | gpu (mode : String) (xvnc : Bool)
  /-- The process was spawned; `found` says whether its discovery file is usable already. -/
  | spawned (found : Bool)
  /-- The discovery file is usable. -/
  | found
  /-- `grpc.status()` answered. -/
  | answered
  /-- adb says "device". -/
  | device
  /-- `sys.boot_completed` is 1. -/
  | completed
  /-- A command of `POST_BOOT` ended. -/
  | command
  | raised (x : BootError)
  deriving DecidableEq, Repr

/-- What the wait of a stop task gives back. -/
inductive StopWake
  /-- The first step, or the boot is done. -/
  | go
  /-- A step of the teardown. -/
  | torn (o : TeardownOutcome)
  deriving DecidableEq, Repr

/-- A read of the emulator's log. -/
inductive LogRead
  /-- `FileNotFoundError`. -/
  | missing
  /-- Any other `OSError`. -/
  | failed
  /-- New text, with the first of its complete lines that matches `HANG_LINE`. -/
  | lines (hang : Option String)
  deriving DecidableEq, Repr

/-- STARTING or RUNNING. -/
def State.up : State → Bool
  | .starting | .running => true
  | .stopped | .stopping => false

/-- The waits inside `_launch`. -/
def BootPc.launching : BootPc → Bool
  | .startServer | .setupGpu | .spawning | .discovering | .grpcStatus | .waitDevice
  | .booting | .settingUp _ => true
  | .created | .awaitPrevious | .teardown _ | .ended => false

/-- The number of commands in `POST_BOOT`. -/
def postBoot : Nat := 3

/-! ### Changes of the tasks and futures -/

namespace Control

/-- The future has a result. -/
def resolved (c : Control) (f : Nat) : Bool :=
  (c.futures[f]?).any (·.result.isSome)

/-- `boot.done()`, a missing boot counting as done. -/
def bootEnded (c : Control) (b : Option Nat) : Bool :=
  b.all fun b => (c.boots[b]?).all Boot.done

/-- `self._boot_done = self._new_boot_future()`. -/
def newBootFuture (c : Control) : Control :=
  { c with futures := c.futures ++ [.new], bootDone := some c.futures.length }

/-- `self._boot_task = asyncio.create_task(self._boot(previous))`. -/
def newBootTask (c : Control) (previous : Option Nat) (crash : Option CrashInfo) : Control :=
  { c with
    boots := c.boots ++
      [{ gen := c.begun, previous, crash, pc := .created, cancelled := false }]
    bootTask := some c.boots.length }

/-- Cancel the boot task, unless it is done or the current task. -/
def cancelBoot (c : Control) (current : Option Nat) : Control :=
  { c with
    boots := match c.bootTask with
      | some b => if current = some b then c.boots else c.boots.modify b Boot.cancel
      | none => c.boots }

/-- `_begin_boot`. -/
def beginBoot (c : Control) : Control :=
  ({ c with state := .starting, retried := false, begun := c.begun + 1 }.newBootFuture).newBootTask
    none none

/-- `_begin_stop`, called by the boot task `current` or by another task. -/
def beginStop (c : Control) (current : Option Nat) (error : LifecycleError) : Control :=
  let c := { c with state := .stopping }.cancelBoot current
  { c with
    stops := c.stops ++ [{ boot := c.bootTask, done := c.bootDone, error, pc := .created }]
    stopTask := some c.stops.length }

/-- A new boot future, when there is none or it has a result. -/
def renewBootFuture (c : Control) : Control :=
  { c with
    futures := if c.bootDone.all c.resolved then c.futures ++ [.new] else c.futures
    bootDone := if c.bootDone.all c.resolved then some c.futures.length else c.bootDone }

/-- `_retry` after `_record`: the new boot waits for the old one. -/
def retry (c : Control) (crash : CrashInfo) : Control :=
  (({ c with state := .starting }.cancelBoot none).renewBootFuture).newBootTask c.bootTask
    (some crash)

/-- A boot task moves on to another wait. -/
def setBoot (c : Control) (b : Nat) (pc : BootPc) : Control :=
  { c with boots := c.boots.modify b ({ · with pc }) }

/-- A stop task moves on to another wait. -/
def setStop (c : Control) (k : Nat) (pc : StopPc) : Control :=
  { c with stops := c.stops.modify k ({ · with pc }) }

/-- `set_result` or `set_exception`. -/
def resolve (c : Control) (f : Nat) (o : Outcome) : Control :=
  { c with futures := c.futures.modify f (Future.set o) }

/-- The `finally` block of `_stop`: STOPPED, then the waiters. -/
def finishStop (c : Control) (k : Nat) (t : Stop) : Control :=
  let c := { c with state := .stopped }.setStop k .ended
  { c with
    futures := match t.done with
      | some f => if c.resolved f then c.futures else (c.resolve f (.error t.error)).futures
      | none => c.futures }

end Control

/-! ### Changes of the repeating tasks -/

namespace Jobs

/-- `_cancel_jobs`. -/
def cancelJobs (j : Jobs) : Jobs :=
  { j with
    repeats := j.repeats.mapIdx fun r t =>
      if r ∈ j.jobTasks then { t with cancelled := true } else t
    jobTasks := [] }

/-- `asyncio.create_task(self._repeat(interval, job))` for the job number `job`. -/
def spawnRepeat (j : Jobs) (job : Nat) : Jobs :=
  { j with
    repeats := j.repeats ++ [{ job, cancelled := false }]
    jobTasks := j.jobTasks ++ [j.repeats.length] }

/-- One repeating task for each registered job. -/
def startJobs (j : Jobs) : Jobs :=
  (List.range j.jobs.length).foldl spawnRepeat j

/-- `every`. -/
def every (j : Jobs) (running : Bool) (job : Job) : Jobs :=
  let n := j.jobs.length
  let j := { j with jobs := j.jobs ++ [job] }
  if running then j.spawnRepeat n else j

end Jobs

/-! ### The emulator's tasks -/

/-- A step of `_watch_log`. -/
def Emu.readLog (m : Emu) (r : LogRead) : Option Emu :=
  if m.log ≠ .running then none
  else if m.returncode.isSome then some { m with log := .ended }
  else match r with
    | .missing => some m
    | .failed => some { m with log := .failed }
    | .lines none => some m
    | .lines (some line) =>
      if m.stopping then some m
      else some { m with hangLine := some line, signals := m.signals ++ [.sigkill], log := .ended }

/-- The process is gone. -/
def Emu.exit (m : Emu) (code : Int) : Option Emu :=
  if m.alive then some { m with returncode := some code } else none

/-- The `_exited` task is done. -/
def Emu.seeExit (m : Emu) : Option Emu :=
  if m.returncode.isSome && !m.exited then some { m with exited := true } else none

/-- Change the record of an emulator that exists, by a step it can take. -/
def Devices.emuStep (d : Devices) (e : Nat) (f : Emu → Option Emu) : Option Devices :=
  (d.emus[e]?).bind f |>.map fun m => { d with emus := d.emus.set e m }

/-- `emulator.launch` returned: the new emulator, its exit watcher, and the gRPC client
when the discovery file is usable already. -/
def Devices.launched (d : Devices) (gen : Nat) : Devices :=
  { d with
    emus := d.emus ++ [Emu.launched gen]
    emu := some d.emus.length
    watcher := some d.emus.length }

/-- `self.grpc = EmulatorGrpc(...)`. -/
def Devices.connected (d : Devices) : Devices :=
  { d with clients := d.clients ++ [true], grpc := some d.clients.length }

/-- `setup_gpu` returned: the X server, if there is one. -/
def Devices.gpuReady (d : Devices) (xvnc : Bool) : Devices :=
  if xvnc then { d with xservers := d.xservers ++ [true], xvnc := some d.xservers.length }
  else { d with xvnc := none }

namespace Lifecycle

/-! ### `_begin_boot`, `_begin_stop`, `_fail`, `_retry`, `_exited` -/

/-- `_begin_boot`. -/
def beginBoot (l : Lifecycle) : Lifecycle :=
  { l with
    ctl := l.ctl.beginBoot
    info := { l.info with phase := some .preparing, lastError := none } }

/-- `_begin_stop`. -/
def beginStop (l : Lifecycle) (current : Option Nat) (error : LifecycleError) : Lifecycle :=
  { l with
    ctl := l.ctl.beginStop current error
    job := l.job.cancelJobs
    info := { l.info with phase := none } }

/-- `CRASH_HISTORY`. -/
def crashHistory : Nat := 20

/-- `_record`: add a failure to the crash history, which keeps the last twenty. It raises
when state.json holds something that is not a list there. -/
def record (l : Lifecycle) (f : Failure) (retried : Bool) : Option Lifecycle :=
  l.info.crashes.map fun crashes =>
    let crashes := crashes ++
      [{ kind := f.kind, message := f.message, exitStatus := f.exitStatus, retried }]
    { l with
      info := { l.info with crashes := some (crashes.drop (crashes.length - crashHistory)) } }

/-- `_fail`; `none` when `_record` raises. -/
def fail (l : Lifecycle) (current : Option Nat) (f : Failure) : Option Lifecycle :=
  (l.record f false).map fun l =>
    { l with info := { l.info with lastError := some f } }.beginStop current
      (.failed f.code f.message)

/-- How long Android has been running, if it got there. -/
def runningFor (l : Lifecycle) : Option ℚ :=
  l.info.runningSince.map (l.info.monotonic - ·)

/-- `_settling`: whether a crash now still counts as a failed boot. -/
def settling (cfg : Config) (l : Lifecycle) : Bool :=
  l.ctl.state == .starting || l.runningFor.any (· < cfg.settle)

/-- `_retry`: boot once more after a crash. The mark stays when `_record` raises. -/
def retry (l : Lifecycle) (f : Failure) (crash : CrashInfo) : Except Lifecycle Lifecycle :=
  let l := { l with ctl := { l.ctl with retried := true } }
  match l.record f true with
  | none => .error l
  | some l =>
    .ok { l with
      ctl := l.ctl.retry crash
      job := l.job.cancelJobs
      info := { l.info with phase := some .restarting } }

/-- `_exit_text`. -/
def exitText (code : Int) : String :=
  if code < 0 then s!"was killed by signal {-code}" else s!"exited with status {code}"

/-- `_exited`: the current emulator `e` is gone. `.error` when it raises. -/
def exited (cfg : Config) (l : Lifecycle) (e : Nat) (m : Emu) (code : Int)
    (line : Option String) : Except Lifecycle Lifecycle :=
  let failOr (f : Failure) : Except Lifecycle Lifecycle :=
    match l.fail none f with
    | some l' => .ok l'
    | none => .error l
  match m.hangLine with
  | some hang =>
    failOr (.ofKind "renderer" s!"the emulator failed and was killed: {hang}" (some code))
  | none =>
    if code = 0 ∧ line = none then .ok (l.beginStop none .poweredOff)
    else
      let text := match line with
        | some line => s!": {line}"
        | none => ""
      let f := Failure.ofKind "crash" s!"the emulator {exitText code}{text}" (some code)
      if line.isSome || l.ctl.retried || !l.settling cfg then failOr f
      else l.retry f
        { emu := e, code, hangLine := m.hangLine, fatalLine := line, state := l.ctl.state,
          runningFor := l.runningFor }

/-- `_exited` inside `_watch`, which never leaves a dead qemu behind an exception. -/
def handleExit (cfg : Config) (l : Lifecycle) (e : Nat) (m : Emu) (code : Int)
    (line : Option String) : Lifecycle :=
  match l.exited cfg e m code line with
  | .ok l' => l'
  | .error l' => if l'.ctl.state.up then l'.beginStop none .exitUnhandled else l'

/-! ### `_boot` and `_launch` -/

/-- A boot task moves on to another wait. -/
def setBoot (l : Lifecycle) (b : Nat) (pc : BootPc) : Lifecycle :=
  { l with ctl := l.ctl.setBoot b pc }

/-- The same, with a new phase. -/
def setPhase (l : Lifecycle) (p : Phase) : Lifecycle :=
  { l with info := { l.info with phase := some p } }

/-- The `except` clauses of `_boot`. A `_Failure` beside a dead emulator is left to the
watcher of that emulator. -/
def bootRaised (l : Lifecycle) (b : Nat) : BootError → Lifecycle
  | .failure f =>
    (if l.dev.emu.all l.dev.alive then (l.fail (some b) f).getD l else l).setBoot b .ended
  | .unexpected message =>
    ((l.fail (some b) (.ofKind "internal" s!"internal error while starting: {message}" none)).getD
      l).setBoot b .ended

/-- `_launch` up to its first wait: `_prepare`, then `start_server`. -/
def launch (l : Lifecycle) (b : Nat) (p : Prepared) : Lifecycle :=
  let l := { l with info := { l.info with apiLevel := p.apiLevel.or l.info.apiLevel } }
  match p.error with
  | none => l.setBoot b .startServer
  | some x => l.bootRaised b x

/-- A stretch of the retry's teardown, and `_launch` when the teardown is done. -/
def bootTeardown (l : Lifecycle) (b : Nat) (p : Prepared) (r : Devices × TeardownNext) :
    Lifecycle :=
  let l := { l with dev := r.1 }
  match r.2 with
  | .wait pc => l.setBoot b (.teardown pc)
  | .done => l.launch b p
  | .raised => l.bootRaised b (.unexpected "the teardown raised")

/-- The end of `_boot`: RUNNING, the future, the repeating tasks. An exception of
`set_result` would end the task before the repeating tasks are there. -/
def complete (l : Lifecycle) (b : Nat) : Lifecycle :=
  let l := { l with
    ctl := { l.ctl.setBoot b .ended with state := .running }
    info := { l.info with
      activity := some l.info.wall, phase := none, runningSince := some l.info.monotonic } }
  match l.ctl.bootDone with
  | none => l
  | some f =>
    { l with
      ctl := l.ctl.resolve f .success
      job := if l.ctl.resolved f then l.job else l.job.startJobs }

/-- A step of the boot task `b`, the record of which is `t`. -/
def bootStep (l : Lifecycle) (b : Nat) (t : Boot) : Wake → Option Lifecycle
  | .go p =>
    match t.pc, t.previous with
    | .created, none => some (l.launch b p)
    | .created, some _ => some (l.setBoot b .awaitPrevious)
    | .awaitPrevious, previous =>
      if l.ctl.bootEnded previous then some (l.bootTeardown b p l.dev.teardown) else none
    | _, _ => none
  | .torn o p =>
    match t.pc with
    | .teardown pc => (l.dev.teardownResume pc o).map (l.bootTeardown b p)
    | _ => none
  | .served =>
    if t.pc = .startServer then some ((l.setBoot b .setupGpu).setPhase .gpu) else none
  | .gpu mode xvnc =>
    if t.pc = .setupGpu then
      some (({ l with
        dev := l.dev.gpuReady xvnc
        info := { l.info with gpu := some mode } }.setBoot b .spawning).setPhase .launching)
    else none
  | .spawned found =>
    if t.pc = .spawning then
      let l := { l with
        dev := l.dev.launched t.gen
        info := { l.info with launchedAt := some l.info.monotonic } }.setPhase .connecting
      some (if found then { l with dev := l.dev.connected }.setBoot b .grpcStatus
        else l.setBoot b .discovering)
    else none
  | .found =>
    if t.pc = .discovering then
      some ({ l with dev := l.dev.connected }.setBoot b .grpcStatus)
    else none
  | .answered =>
    if t.pc = .grpcStatus then some ((l.setBoot b .waitDevice).setPhase .waitingForAdb)
    else none
  | .device =>
    if t.pc = .waitDevice then some ((l.setBoot b .booting).setPhase .booting) else none
  | .completed =>
    if t.pc = .booting then
      some ((l.setBoot b (.settingUp (postBoot - 1))).setPhase .settingUp)
    else none
  | .command =>
    match t.pc with
    | .settingUp (n + 1) => some (l.setBoot b (.settingUp n))
    | .settingUp 0 => some (l.complete b)
    | _ => none
  | .raised x => if t.pc.launching then some (l.bootRaised b x) else none

/-! ### `_stop` -/

/-- The `finally` block of `_stop`. -/
def finishStop (l : Lifecycle) (k : Nat) (t : Stop) : Lifecycle :=
  { l with
    ctl := l.ctl.finishStop k t
    info := { l.info with phase := none, launchedAt := none, runningSince := none } }

/-- A stretch of the teardown of a stop task. An exception is logged, and the task ends
as if the teardown were done. -/
def stopTeardown (l : Lifecycle) (k : Nat) (t : Stop) (r : Devices × TeardownNext) :
    Lifecycle :=
  let l := { l with dev := r.1 }
  match r.2 with
  | .wait pc => { l with ctl := l.ctl.setStop k (.teardown pc) }
  | .done | .raised => l.finishStop k t

/-- A step of the stop task `k`, the record of which is `t`. -/
def stopStep (l : Lifecycle) (k : Nat) (t : Stop) : StopWake → Option Lifecycle
  | .go =>
    match t.pc with
    | .created =>
      if l.ctl.bootEnded t.boot then some (l.stopTeardown k t l.dev.teardown)
      else some { l with ctl := l.ctl.setStop k .awaitBoot }
    | .awaitBoot =>
      if l.ctl.bootEnded t.boot then some (l.stopTeardown k t l.dev.teardown) else none
    | _ => none
  | .torn o =>
    match t.pc with
    | .teardown pc => (l.dev.teardownResume pc o).map (l.stopTeardown k t)
    | _ => none

/-! ### `_watch` -/

/-- The step of `_watch` after `emu.wait()`; `none` while that waits. -/
def watchStep (cfg : Config) (l : Lifecycle) (e : Nat) (line : Option String) :
    Option Lifecycle :=
  (l.dev.emus[e]?).bind fun m =>
    let mark (w : Watch) : Lifecycle := { l with dev := l.dev.updateEmu e ({ · with watch := w }) }
    if m.watch = .pending ∧ m.exited then
      match m.log, m.returncode with
      | .failed, _ => some (mark .failed)
      | .ended, some code =>
        if l.dev.emu = some e ∧ l.ctl.state.up then
          some ((mark .handled).handleExit cfg e m code line)
        else some (mark .dropped)
      | _, _ => none
    else none

end Lifecycle

/-! ### The machine -/

/-- The labels of the lifecycle machine. -/
inductive Event
  /-- `_start` finds STOPPED. -/
  | begin
  /-- A stop, a restart or the idle check finds STARTING or RUNNING. -/
  | halt
  /-- `shutdown`: no more starts, and a stop when Android is up. -/
  | shutdown
  | every (job : Job)
  /-- `touch_activity`. -/
  | touch
  /-- Time passes. -/
  | clock (monotonic wall : ℚ)
  /-- A boot task takes a step. -/
  | boot (b : Nat) (w : Wake)
  /-- CancelledError leaves a boot task. -/
  | unwound (b : Nat)
  /-- A stop task takes a step. -/
  | stop (k : Nat) (w : StopWake)
  /-- A qemu process exits, on its own or by a signal. -/
  | exit (e : Nat) (code : Int)
  /-- An `_exited` task is done. -/
  | exitSeen (e : Nat)
  /-- A `_watch_log` task takes a step. -/
  | readLog (e : Nat) (r : LogRead)
  /-- A watcher takes its step; `line` is what `fatal_line` finds. -/
  | watch (e : Nat) (line : Option String)
  deriving DecidableEq, Repr

namespace Lifecycle

/-- `stop` and `restart` in STARTING and RUNNING. -/
def halt (l : Lifecycle) : Lifecycle := l.beginStop none .stoppedDuringStart

/-- `shutdown` up to its first wait. -/
def shutdown (l : Lifecycle) : Lifecycle :=
  let l := { l with ctl := { l.ctl with closing := true } }
  if l.ctl.state.up then l.halt else l

/-- `every`. -/
def every (l : Lifecycle) (job : Job) : Lifecycle :=
  { l with job := l.job.every (l.ctl.state == .running) job }

/-- `touch_activity`. -/
def touch (l : Lifecycle) : Lifecycle :=
  { l with info := { l.info with activity := some l.info.wall } }

/-- One step of the lifecycle. -/
def step (cfg : Config) (l : Lifecycle) : Event → Option Lifecycle
  | .begin => if l.ctl.state = .stopped ∧ l.ctl.closing = false then some l.beginBoot else none
  | .halt => if l.ctl.state.up then some l.halt else none
  | .shutdown => some l.shutdown
  | .every job => some (l.every job)
  | .touch => some l.touch
  | .clock monotonic wall =>
    if l.info.monotonic ≤ monotonic then some { l with info := { l.info with monotonic, wall } }
    else none
  | .boot b w =>
    (l.ctl.boots[b]?).bind fun t => if t.cancelled then none else l.bootStep b t w
  | .unwound b =>
    (l.ctl.boots[b]?).bind fun t =>
      if t.cancelled && !t.done then some (l.setBoot b .ended) else none
  | .stop k w => (l.ctl.stops[k]?).bind fun t => l.stopStep k t w
  | .exit e code => (l.dev.emuStep e (·.exit code)).map fun dev => { l with dev }
  | .exitSeen e => (l.dev.emuStep e Emu.seeExit).map fun dev => { l with dev }
  | .readLog e r => (l.dev.emuStep e (·.readLog r)).map fun dev => { l with dev }
  | .watch e line => l.watchStep cfg e line

/-- What `Supervisor.__init__` can leave. -/
def Initial (l : Lifecycle) : Prop :=
  ∃ crashes apiLevel activity monotonic wall,
    l = Lifecycle.new crashes apiLevel activity monotonic wall

end Lifecycle

/-- The lifecycle machine. -/
def lifecycle (cfg : Config) : Machine Lifecycle Event where
  Init := Lifecycle.Initial
  step := Lifecycle.step cfg

end Supervisor

end AndroidAppliance
