import AndroidAppliance.Text.Str
import AndroidAppliance.Transition.Machine

/-!
# turnserver

`Turn` of `appliance/turn.py`: the secret, the process that was started with it, the task
that supervises the process, and any number of calls of `start`, `stop` and `rotate`, which
run one stretch between two awaits at a time.

A process is in the table from its `exec` on, with the secret that its configuration held.
Its `returncode` is set some time after it died. Log lines and the delays between two starts
are left out.
-/

namespace AndroidAppliance

namespace Turn

/-! ### State -/

/-- A turnserver. -/
structure Proc where
  /-- `static-auth-secret` of its configuration. -/
  secret : Str
  alive : Bool
  /-- `returncode` is set. -/
  reaped : Bool
  deriving DecidableEq, Repr

/-- Where `_spawn` waits. -/
inductive SpawnPc
  /-- `container_addresses()`. -/
  | addresses
  /-- `create_subprocess_exec`; the process runs already. -/
  | executing (p : Nat)
  deriving DecidableEq, Repr

/-- Where `_supervise` waits. -/
inductive TaskPc
  /-- Before its first step. -/
  | created (proc : Option Nat)
  | waiting (p : Nat)
  /-- The reader of the output of a process. -/
  | draining (p : Nat)
  | sleeping
  | spawning (s : SpawnPc)
  /-- Cancelled in `create_subprocess_exec`, which kills the process and waits for it. -/
  | unwinding (p : Nat)
  | ended
  deriving DecidableEq, Repr

/-- A supervising task. -/
structure Task where
  pc : TaskPc
  /-- `cancel()` was called. -/
  cancelled : Bool
  deriving DecidableEq, Repr

/-- The methods of `Turn`. -/
inductive Request
  | start
  | stop
  | rotate
  deriving DecidableEq, Repr

/-- Where a call waits. -/
inductive CallPc
  /-- `stop`, for the task that it cancelled. -/
  | gathering (t : Nat)
  /-- `_terminate` after SIGTERM, and after SIGKILL. -/
  | terminating (p : Nat)
  | killing (p : Nat)
  | draining (p : Nat)
  | spawning (s : SpawnPc)
  | ended
  deriving DecidableEq, Repr

/-- A call of a method, and where it waits. -/
structure Call where
  request : Request
  pc : CallPc
  deriving DecidableEq, Repr

end Turn

/-- `Turn`, with its processes, tasks and calls. -/
structure Turn where
  secret : Str
  proc : Option Nat
  task : Option Nat
  /-- The process that the reader task reads. -/
  reader : Option Nat
  procs : List Turn.Proc
  tasks : List Turn.Task
  calls : List Turn.Call
  deriving DecidableEq, Repr

namespace Turn

/-! ### Credentials -/

/-- The fields of the configuration that are used here. -/
structure Config where
  turnHost : Str
  turnPort : Nat
  deriving DecidableEq, Repr

/-- An entry of the ICE servers. -/
structure IceServer where
  urls : List Str
  username : Str
  credential : Str
  deriving DecidableEq, Repr

/-- `urls`. -/
def urls (host : Str) (port : Nat) : List Str :=
  let host := if ':' ∈ host then '[' :: host ++ [']'] else host
  ["udp".toList, "tcp".toList].map fun transport =>
    "turn:".toList ++ host ++ ':' :: Str.ofNat port ++ "?transport=".toList ++ transport

/-- `credentials` of a user name; `hmac` is the base64 text of an HMAC-SHA1. -/
def credentials (hmac : Str → Str → Str) (key username : Str) : Str × Str :=
  (username, hmac key username)

/-- `ice_servers` for a user name; `none` when it raises. -/
def iceServers (hmac : Str → Str → Str) (cfg : Config) (d : Turn) (host username : Str) :
    Option (List IceServer) :=
  let name := if cfg.turnHost = [] then host else cfg.turnHost
  if name = [] then none
  else
    let c := credentials hmac d.secret username
    some [{ urls := urls name cfg.turnPort, username := c.1, credential := c.2 }]

/-- What a turnserver checks: the password is the HMAC of the user name under its secret. -/
def Proc.accepts (hmac : Str → Str → Str) (x : Proc) (s : IceServer) : Prop :=
  s.credential = hmac x.secret s.username

/-! ### Processes and tasks -/

variable (d : Turn)

/-- The process has no `returncode` yet. -/
def isOpen (p : Nat) : Bool := (d.procs[p]?).any (!·.reaped)

/-- The process is alive. -/
def isAlive (p : Nat) : Bool := (d.procs[p]?).any (·.alive)

/-- `running`. -/
def running : Bool := d.proc.any d.isOpen

/-- A task moves on. -/
def setTask (t : Nat) (pc : TaskPc) : Turn :=
  { d with tasks := d.tasks.modify t ({ · with pc }) }

/-- A call moves on. -/
def setCall (c : Nat) (pc : CallPc) : Turn :=
  { d with calls := d.calls.modify c ({ · with pc }) }

/-- `task.cancel()`, which does nothing to a task that is done. -/
def Task.cancel (u : Task) : Task := if u.pc = .ended then u else { u with cancelled := true }

/-- `cancel` of a task. -/
def cancel (t : Nat) : Turn := { d with tasks := d.tasks.modify t Task.cancel }

/-- `_spawn` after the addresses: it writes the configuration with the current secret and
executes turnserver. -/
def exec : Turn :=
  { d with procs := d.procs ++ [{ secret := d.secret, alive := true, reaped := false }] }

/-- The end of `_spawn`. -/
def spawned (p : Nat) : Turn := { d with proc := some p, reader := some p }

/-! ### Calls -/

/-- The end of `start`: a new supervising task. -/
def started (c : Nat) (proc : Option Nat) : Turn :=
  ({ d with tasks := d.tasks ++ [{ pc := .created proc, cancelled := false }],
            task := some d.tasks.length } : Turn).setCall c .ended

/-- What a call does after `stop`. -/
def stopped (c : Nat) : Request → Turn
  | .rotate => d.setCall c (.spawning .addresses)
  | .start | .stop => d.setCall c .ended

/-- `_terminate` after its process is reaped. -/
def drain (c : Nat) (r : Request) : Turn :=
  match d.reader with
  | some q => d.setCall c (.draining q)
  | none => d.stopped c r

/-- `_terminate`. -/
def terminate (c : Nat) (r : Request) : Turn :=
  let proc := d.proc
  let d := { d with proc := none }
  match proc with
  | none => d.stopped c r
  | some p => if d.isOpen p then d.setCall c (.terminating p) else d.stopped c r

/-- `stop` up to its wait. -/
def beginStop (c : Nat) (r : Request) : Turn :=
  let task := d.task
  let d := { d with task := none }
  match task with
  | some t => (d.cancel t).setCall c (.gathering t)
  | none => d.terminate c r

/-- A new call, before its first stretch. -/
def addCall (r : Request) : Turn :=
  { d with calls := d.calls ++ [{ request := r, pc := .ended }] }

/-- A stretch of a call after its wait; `ok` is false when the stop grace is over, or when
turnserver cannot be executed. -/
def callStep (c : Nat) (k : Call) (ok : Bool) : Option Turn :=
  match k.pc with
  | .gathering t =>
    if (d.tasks[t]?).any (·.pc = .ended) then some (d.terminate c k.request) else none
  | .terminating p =>
    if ok then if d.isOpen p then none else some (d.drain c k.request)
    else some (d.setCall c (.killing p))
  | .killing p => if d.isOpen p then none else some (d.drain c k.request)
  | .draining p => if d.isAlive p then none else some (d.stopped c k.request)
  | .spawning .addresses =>
    some (if ok then d.exec.setCall c (.spawning (.executing d.procs.length))
      else d.started c none)
  | .spawning (.executing p) => some ((d.spawned p).started c (some p))
  | .ended => none

/-! ### The supervising task -/

/-- A stretch of a task that was not cancelled. -/
def supervise (t : Nat) (ok : Bool) : TaskPc → Option Turn
  | .created (some p) => some (d.setTask t (.waiting p))
  | .created none => some (d.setTask t .sleeping)
  | .waiting p =>
    if d.isOpen p then none
    else match d.reader with
      | some q => some (d.setTask t (.draining q))
      | none => some (d.setTask t .sleeping)
  | .draining p => if d.isAlive p then none else some (d.setTask t .sleeping)
  | .sleeping => some (d.setTask t (.spawning .addresses))
  | .spawning .addresses =>
    some (if ok then d.exec.setTask t (.spawning (.executing d.procs.length))
      else d.setTask t .sleeping)
  | .spawning (.executing p) => some ((d.spawned p).setTask t (.waiting p))
  | .unwinding _ | .ended => none

/-- CancelledError in a task. -/
def unwind (t : Nat) : TaskPc → Option Turn
  | .spawning (.executing p) => some (d.setTask t (.unwinding p))
  | .unwinding p => if d.isOpen p then none else some (d.setTask t .ended)
  | .created _ | .waiting _ | .draining _ | .sleeping | .spawning .addresses =>
    some (d.setTask t .ended)
  | .ended => none

/-! ### The machine -/

/-- The labels. -/
inductive Event
  | start
  | stop
  /-- `rotate` with the secret that it draws; `written` is false when the write of its file
  fails. -/
  | rotate (secret : Str) (written : Bool)
  | resume (c : Nat) (ok : Bool)
  | task (t : Nat) (ok : Bool)
  /-- A turnserver dies. -/
  | dies (p : Nat)
  /-- The loop notices that it did. -/
  | reap (p : Nat)
  deriving DecidableEq, Repr

/-- `rotate` up to its wait. -/
def rotate (secret : Str) (written : Bool) : Turn :=
  let d := { d with secret }
  if written ∧ d.task ≠ none then (d.addCall .rotate).beginStop d.calls.length .rotate else d

/-- One step. -/
def step : Event → Option Turn
  | .start => some ((d.addCall .start).setCall d.calls.length (.spawning .addresses))
  | .stop => some ((d.addCall .stop).beginStop d.calls.length .stop)
  | .rotate secret written => some (d.rotate secret written)
  | .resume c ok => (d.calls[c]?).bind fun k => d.callStep c k ok
  | .task t ok =>
    (d.tasks[t]?).bind fun u => if u.cancelled then d.unwind t u.pc else d.supervise t ok u.pc
  | .dies p =>
    if d.isAlive p then some { d with procs := d.procs.modify p ({ · with alive := false }) }
    else none
  | .reap p =>
    if d.isOpen p ∧ d.isAlive p = false then
      some { d with procs := d.procs.modify p ({ · with reaped := true }) }
    else none

/-- A `Turn` that was just made. -/
def Initial : Prop :=
  d = { secret := d.secret, proc := none, task := none, reader := none, procs := [], tasks := [],
        calls := [] }

end Turn

/-- The machine of turnserver. -/
def turnMachine : Machine Turn Turn.Event where
  Init := Turn.Initial
  step := Turn.step

end AndroidAppliance
