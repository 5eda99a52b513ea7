import AndroidAppliance.Supervisor.Basic

/-!
# `Emulator.stop` and `Supervisor._teardown`

Both are sequences of stretches on the `Devices`. A stretch ends in a `TeardownNext`:
the next wait, the end of the teardown, or an exception that leaves it.

`Emulator.stop` asks with `emu kill`, then sends SIGTERM, then SIGKILL, each only while
the process runs. The two adb calls in it can end in four ways (`AdbOutcome`), and they
do not treat them alike: `sync` suppresses every `AdbError`, `emu kill` only the timeout,
and neither the `OSError` of a process that cannot be spawned.
-/

namespace AndroidAppliance

namespace Supervisor

/-- How `Adb.run` ends. -/
inductive AdbOutcome
  /-- adb ran and exited. -/
  | exit (code : Int)
  /-- `AdbTimeout`. -/
  | timeout
  /-- Another `AdbError` (too much output). -/
  | error
  /-- `OSError`: the process cannot be spawned. -/
  | spawnError
  deriving DecidableEq, Repr

/-- `Adb.emu_kill`: whether the emulator accepted; `none` when it raises. -/
def AdbOutcome.emuKill : AdbOutcome → Option Bool
  | exit code => some (code == 0)
  | timeout => some false
  | error | spawnError => none

/-- What the wait of a teardown gives back. -/
inductive TeardownOutcome
  /-- An adb call ended. -/
  | adb (o : AdbOutcome)
  /-- `_exited_within` returned: the process was seen to exit, or the time is over. -/
  | waited
  /-- `grpc.close()` or `Xvnc.stop()` returned. -/
  | closed
  /-- `grpc.close()` or `Xvnc.stop()` raised. -/
  | raised
  deriving DecidableEq, Repr

/-- How a stretch of a teardown ends. -/
inductive TeardownNext
  | wait (pc : TeardownPc)
  | done
  | raised
  deriving DecidableEq, Repr

namespace Devices

/-! ### Emulators -/

/-- `returncode is None` of an emulator. -/
def alive (d : Devices) (e : Nat) : Bool :=
  (d.emus[e]?).any Emu.alive

/-- `_exited.done()` of an emulator. -/
def exited (d : Devices) (e : Nat) : Bool :=
  (d.emus[e]?).any Emu.exited

/-- Change the record of one emulator. -/
def updateEmu (d : Devices) (e : Nat) (f : Emu → Emu) : Devices :=
  { d with emus := d.emus.modify e f }

/-- Ask or signal the process, if it runs. -/
def signal (d : Devices) (e : Nat) (s : Signal) : Devices :=
  d.updateEmu e fun m => if m.alive then { m with signals := m.signals ++ [s] } else m

/-- `watcher.cancel()`: without effect on a task that is done. -/
def cancelWatch (m : Emu) : Emu :=
  if m.watch = .pending then { m with watch := .cancelled } else m

/-! ### `_teardown` after the emulator -/

/-- The end of `_teardown`: `self._emu = None`. -/
def teardownLast (d : Devices) : Devices × TeardownNext :=
  match d.emu with
  | some e => ({ d.updateEmu e ({ · with torn := true }) with emu := none }, .done)
  | none => (d, .done)

/-- `_teardown` from the check of the X server on. -/
def teardownXvnc (d : Devices) : Devices × TeardownNext :=
  match d.xvnc with
  | some _ => (d, .wait .xvncStop)
  | none => d.teardownLast

/-- `_teardown` from the check of the watcher on. -/
def teardownGrpc (d : Devices) : Devices × TeardownNext :=
  let d := match d.watcher with
    | some w => { d.updateEmu w cancelWatch with watcher := none }
    | none => d
  match d.grpc with
  | some _ => (d, .wait .grpcClose)
  | none => d.teardownXvnc

/-! ### `Emulator.stop` -/

/-- `Emulator.stop` from the second check of the return code on: SIGTERM. -/
def stopTerm (d : Devices) (e : Nat) : Devices × TeardownNext :=
  if d.alive e then (d.signal e .sigterm, .wait (.termWait e)) else (d, .wait (.lastWait e))

/-- `Emulator.stop` from the check before `emu kill` on. -/
def stopKill (d : Devices) (e : Nat) : Devices × TeardownNext :=
  if d.alive e then (d.signal e .emuKill, .wait (.emuKill e)) else d.stopTerm e

/-- `Emulator.stop`: flush the guest first. -/
def stopEmulator (d : Devices) (e : Nat) : Devices × TeardownNext :=
  let d := d.updateEmu e ({ · with stopping := true })
  if d.alive e then (d, .wait (.sync e)) else d.stopKill e

/-! ### `_teardown` -/

/-- The first stretch of `_teardown`. -/
def teardown (d : Devices) : Devices × TeardownNext :=
  match d.emu with
  | some e => d.stopEmulator e
  | none => d.teardownGrpc

/-- The stretch of `_teardown` after a wait; `none` when the wait cannot give that. -/
def teardownResume (d : Devices) : TeardownPc → TeardownOutcome →
    Option (Devices × TeardownNext)
  | .sync e, .adb o => some (if o = .spawnError then (d, .raised) else d.stopKill e)
  | .emuKill e, .adb o =>
    match o.emuKill with
    | none => some (d, .raised)
    | some true => some (d, .wait (.killWait e))
    | some false => some (d.stopTerm e)
  | .killWait e, .waited => some (if d.exited e then d.teardownGrpc else d.stopTerm e)
  | .termWait e, .waited =>
    some (if d.exited e then d.teardownGrpc else (d.signal e .sigkill, .wait (.lastWait e)))
  | .lastWait _, .waited => some d.teardownGrpc
  | .grpcClose, .closed =>
    match d.grpc with
    | some g =>
      some { d with clients := d.clients.modify g fun _ => false, grpc := none }.teardownXvnc
    | none => some d.teardownXvnc
  | .xvncStop, .closed =>
    match d.xvnc with
    | some x =>
      some { d with xservers := d.xservers.modify x fun _ => false, xvnc := none }.teardownLast
    | none => some d.teardownLast
  | .grpcClose, .raised => some (d, .raised)
  | .xvncStop, .raised => some (d, .raised)
  | _, _ => none

end Devices

end Supervisor

end AndroidAppliance
