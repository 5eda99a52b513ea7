import Mathlib.Data.List.Basic
import Mathlib.Data.Rat.Defs
import Mathlib.Algebra.Order.Ring.Rat

/-!
# The data of the Supervisor

The fields of `Supervisor` in `appliance/supervisor.py`, and the asyncio objects they
refer to: futures, boot tasks, stop tasks, emulators with their watchers, repeating
tasks. An object is an entry of a table and a field that refers to it holds its index,
so that the entry survives when the field moves on: a superseded boot task, or the
future of an earlier boot, can still be spoken about.

The fields are grouped by what changes them:

* `Control`: the state, the boot and stop tasks and the boot futures;
* `Devices`: what a teardown closes (emulator, gRPC client, X server) and the processes
  behind it;
* `Jobs`: the registered jobs and their repeating tasks;
* `Status`: what the status reports, the crash history and the clocks.

A task is modelled by where it waits. Between two waits it runs without interruption, so
one step of the model is one stretch of code between two `await`s.
-/

namespace AndroidAppliance

namespace Supervisor

/-! ### Errors and results -/

/-- `State`. -/
inductive State
  | stopped
  | starting
  | running
  | stopping
  deriving DecidableEq, Repr

/-- `Supervisor.phase` while a boot is in progress. -/
inductive Phase
  | preparing
  | restarting
  | gpu
  | launching
  | connecting
  | waitingForAdb
  | booting
  | settingUp
  deriving DecidableEq, Repr

/-- `_Failure`: what ends a boot, for the crash history and for the waiters. -/
structure Failure where
  kind : String
  message : String
  exitStatus : Option Int
  /-- The API error code that the waiters get. -/
  code : String
  deriving DecidableEq, Repr

/-- A `_Failure` with the default code. -/
def Failure.ofKind (kind message : String) (exitStatus : Option Int) : Failure :=
  { kind, message, exitStatus, code := "boot_failed" }

/-- The `LifecycleError`s that the Supervisor raises or hands to the waiters. -/
inductive LifecycleError
  /-- `unavailable`: "the appliance daemon is shutting down". -/
  | shuttingDown
  /-- `conflict`: "android is {state}" (a wait or a passive lease). -/
  | conflict (state : State)
  /-- `unavailable`: "android is {state}" (a lease without a gRPC client). -/
  | noClient (state : State)
  /-- `timeout`: "android did not finish booting in {timeout}s; it is still starting". -/
  | notBooted (timeout : ℚ)
  /-- `conflict`: "android was stopped during the start". -/
  | stoppedDuringStart
  /-- `conflict`: "android powered off during the start". -/
  | poweredOff
  /-- `unavailable`: "the emulator exited and the daemon could not handle it". -/
  | exitUnhandled
  /-- A failed boot, with the code and the text of its `_Failure`. -/
  | failed (code message : String)
  deriving DecidableEq, Repr

/-- `LifecycleError.code`. -/
def LifecycleError.code : LifecycleError → String
  | shuttingDown => "unavailable"
  | conflict _ => "conflict"
  | noClient _ => "unavailable"
  | notBooted _ => "timeout"
  | stoppedDuringStart => "conflict"
  | poweredOff => "conflict"
  | exitUnhandled => "unavailable"
  | failed code _ => code

/-- What a boot future is resolved with. -/
inductive Outcome
  | success
  | error (e : LifecycleError)
  deriving DecidableEq, Repr

/-- A boot future: its result, and how often `set_result` or `set_exception` was called
on it (asyncio refuses a second call). -/
structure Future where
  result : Option Outcome
  sets : Nat
  deriving DecidableEq, Repr

/-- A future that nobody has resolved. -/
def Future.new : Future := { result := none, sets := 0 }

/-- `set_result` and `set_exception`: the first result stays. -/
def Future.set (o : Outcome) (f : Future) : Future :=
  { result := f.result.or (some o), sets := f.sets + 1 }

/-! ### Tasks -/

/-- Where a `_teardown` waits. The first five lie inside `Emulator.stop` of the emulator
`e` that the teardown was given. -/
inductive TeardownPc
  /-- `adb shell sync`. -/
  | sync (e : Nat)
  /-- `adb emu kill`. -/
  | emuKill (e : Nat)
  /-- `_exited_within(timing.emu_kill)`. -/
  | killWait (e : Nat)
  /-- `_exited_within(timing.sigterm)`. -/
  | termWait (e : Nat)
  /-- `_exited_within(timing.sigkill)`. -/
  | lastWait (e : Nat)
  /-- `self.grpc.close()`. -/
  | grpcClose
  /-- `self._xvnc.stop()`. -/
  | xvncStop
  deriving DecidableEq, Repr

/-- The emulator whose `Emulator.stop` is in progress. -/
def TeardownPc.stops : TeardownPc → Option Nat
  | sync e | emuKill e | killWait e | termWait e | lastWait e => some e
  | grpcClose | xvncStop => none

/-- Where a `_boot` task waits. -/
inductive BootPc
  /-- Created, before its first step. -/
  | created
  /-- `asyncio.wait({previous})` of a retry. -/
  | awaitPrevious
  /-- `_teardown` of a retry. -/
  | teardown (pc : TeardownPc)
  /-- `adb.start_server()`. -/
  | startServer
  /-- `emulator.setup_gpu(cfg)`. -/
  | setupGpu
  /-- `emulator.launch(cfg, gpu)`: the process spawn. -/
  | spawning
  /-- `_connect`: no usable discovery file yet. -/
  | discovering
  /-- `_connect`: `grpc.status()` does not answer yet. -/
  | grpcStatus
  /-- `_wait_device`. -/
  | waitDevice
  /-- `sys.boot_completed` is not 1 yet. -/
  | booting
  /-- `_setup`, with the number of `POST_BOOT` commands after the one in progress. -/
  | settingUp (left : Nat)
  /-- The task is done. -/
  | ended
  deriving DecidableEq, Repr

/-- What the Supervisor knew of a crash when it decided to boot once more. -/
structure CrashInfo where
  emu : Nat
  code : Int
  hangLine : Option String
  fatalLine : Option String
  /-- The state at the crash. -/
  state : State
  /-- The time since RUNNING at the crash, when RUNNING was reached. -/
  runningFor : Option ℚ
  deriving DecidableEq, Repr

/-- A `_boot` task. -/
structure Boot where
  /-- The number of the `_begin_boot` that it belongs to. -/
  gen : Nat
  /-- The `previous` argument: the crashed boot of a retry. -/
  previous : Option Nat
  /-- The crash that the task is the retry of. -/
  crash : Option CrashInfo
  pc : BootPc
  /-- `cancel()` was called on the task before it was done: its next step raises
  CancelledError, and until that has left the task only `finally` blocks run. -/
  cancelled : Bool
  deriving DecidableEq, Repr

/-- `Task.done()`. -/
def Boot.done (t : Boot) : Bool := t.pc == .ended

/-- `Task.cancel()`. -/
def Boot.cancel (t : Boot) : Boot :=
  if t.done then t else { t with cancelled := true }

/-- Where a `_stop` task waits. -/
inductive StopPc
  | created
  /-- `await boot`. -/
  | awaitBoot
  /-- `_teardown`. -/
  | teardown (pc : TeardownPc)
  | ended
  deriving DecidableEq, Repr

/-- A `_stop` task with its three arguments. -/
structure Stop where
  boot : Option Nat
  done : Option Nat
  error : LifecycleError
  pc : StopPc
  deriving DecidableEq, Repr

/-! ### Processes -/

/-- The `_watch_log` task of an emulator. -/
inductive LogTask
  | running
  /-- It returned. -/
  | ended
  /-- A read of the log raised, and the exception ended the task. -/
  | failed
  deriving DecidableEq, Repr

/-- The `_watch` task of an emulator. -/
inductive Watch
  /-- It waits in `emu.wait()`. -/
  | pending
  /-- It reached `_exited`. -/
  | handled
  /-- It returned at its guard: the emulator was not the current one, or a stop had
  begun. -/
  | dropped
  /-- `emu.wait()` raised. -/
  | failed
  | cancelled
  deriving DecidableEq, Repr

/-- What the daemon sends to end an emulator. -/
inductive Signal
  | emuKill
  | sigterm
  | sigkill
  deriving DecidableEq, Repr

/-- An `Emulator` with its process, its two tasks and its watcher. -/
structure Emu where
  /-- The boot that launched it, by the number of its `_begin_boot`. -/
  gen : Nat
  /-- `proc.returncode`: the exit status once the process is gone. -/
  returncode : Option Int
  /-- The `_exited` task is done. -/
  exited : Bool
  hangLine : Option String
  stopping : Bool
  log : LogTask
  watch : Watch
  /-- What the daemon sent to the process, in order. -/
  signals : List Signal
  /-- A `_teardown` that was given this emulator ran to its end. -/
  torn : Bool
  deriving DecidableEq, Repr

/-- The process runs. -/
def Emu.alive (m : Emu) : Bool := m.returncode.isNone

/-- A new `Emulator`. -/
def Emu.launched (gen : Nat) : Emu :=
  { gen, returncode := none, exited := false, hangLine := none, stopping := false,
    log := .running, watch := .pending, signals := [], torn := false }

/-- A repeating task of the registered job number `job`. -/
structure Repeat where
  job : Nat
  cancelled : Bool
  deriving DecidableEq, Repr

/-- The jobs that are registered with `every`. -/
inductive Job
  | idleCheck
  | other
  deriving DecidableEq, Repr

/-- An entry of the crash history. -/
structure Crash where
  kind : String
  message : String
  exitStatus : Option Int
  retried : Bool
  deriving DecidableEq, Repr

/-! ### The Supervisor -/

/-- The state, the boot and stop tasks and the boot futures. -/
structure Control where
  state : State
  bootTask : Option Nat
  bootDone : Option Nat
  stopTask : Option Nat
  retried : Bool
  closing : Bool
  /-- How many times `_begin_boot` ran. -/
  begun : Nat
  futures : List Future
  boots : List Boot
  stops : List Stop
  deriving DecidableEq, Repr

/-- What a teardown closes, and the processes and clients behind it. -/
structure Devices where
  emu : Option Nat
  watcher : Option Nat
  grpc : Option Nat
  xvnc : Option Nat
  emus : List Emu
  /-- Whether each gRPC client is open. -/
  clients : List Bool
  /-- Whether each X server runs. -/
  xservers : List Bool
  deriving DecidableEq, Repr

/-- The registered jobs and their repeating tasks. -/
structure Jobs where
  jobs : List Job
  jobTasks : List Nat
  repeats : List Repeat
  deriving DecidableEq, Repr

/-- What the status reports, the crash history and the clocks. -/
structure Status where
  phase : Option Phase
  gpu : Option String
  apiLevel : Option Nat
  lastError : Option Failure
  /-- `store.data["crashes"]`, absent counting as empty; `none` when state.json holds
  something that is not a list there. -/
  crashes : Option (List Crash)
  launchedAt : Option ℚ
  runningSince : Option ℚ
  activity : Option ℚ
  /-- `time.monotonic()`. -/
  monotonic : ℚ
  /-- `time.time()`. -/
  wall : ℚ
  deriving DecidableEq, Repr

/-- The part of the Supervisor that its own tasks share. -/
structure Lifecycle where
  ctl : Control
  dev : Devices
  job : Jobs
  info : Status
  deriving DecidableEq, Repr

/-- The configuration that the lifecycle reads. -/
structure Config where
  /-- `cfg.idle_stop_seconds`. -/
  idleStopSeconds : Nat
  /-- `cfg.boot_timeout`. -/
  bootTimeout : Nat
  /-- `timing.settle`. -/
  settle : ℚ
  deriving DecidableEq, Repr

/-- `Supervisor.__init__`: nothing runs, the idle check is registered, and the crash
history and the activity come from state.json. -/
def Lifecycle.new (crashes : Option (List Crash)) (apiLevel : Option Nat)
    (activity : Option ℚ) (monotonic wall : ℚ) : Lifecycle where
  ctl :=
    { state := .stopped, bootTask := none, bootDone := none, stopTask := none,
      retried := false, closing := false, begun := 0, futures := [], boots := [],
      stops := [] }
  dev :=
    { emu := none, watcher := none, grpc := none, xvnc := none, emus := [],
      clients := [], xservers := [] }
  job := { jobs := [.idleCheck], jobTasks := [], repeats := [] }
  info :=
    { phase := none, gpu := none, apiLevel, lastError := none, crashes,
      launchedAt := none, runningSince := none, activity, monotonic, wall }

end Supervisor

end AndroidAppliance
