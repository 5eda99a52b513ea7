import AndroidAppliance.Supervisor.Transitions

/-!
# The tools that wait for a boot

`android_start` and `android_restart` of `appliance/mcp_server.py`, beside the Supervisor that
answers their requests. A tool runs in another process: between two of its requests the
Supervisor takes any number of steps. One step of `waitBoot` is a step of the Supervisor, the
answer to one request, or a look of the tool at its clock.

A wait is refused while the restart is still stopping, and a second request asks why. What that
sees decides: `restart_survives`.
-/

namespace AndroidAppliance

namespace Mcp

open Supervisor

/-! ### The tools -/

/-- `android_start` and `android_restart`, with their `wait`. -/
inductive Tool
  | start (wait : Bool)
  | restart (wait : Bool)
  deriving DecidableEq, Repr

/-- The first request of a tool. -/
def Tool.request : Tool → Request
  | start _ => .start false none
  | restart _ => .restart false none

/-- Whether the tool returns the answer of its first request. -/
def Tool.content : Tool → State → Bool
  | start wait, state => !wait || state == .running
  | restart wait, _ => !wait

/-- `ToolError`. -/
inductive ToolError
  /-- "android is {state}: {last_error}" -/
  | failed (state : State) (error : Failure)
  /-- "{e} ({e.code})" -/
  | refused (e : LifecycleError)
  /-- The daemon answers with an internal error. -/
  | internal
  deriving DecidableEq, Repr

/-- `PROGRESS_INTERVAL`. -/
def progressInterval : ℚ := 2

/-- Where a tool is. -/
inductive Pc
  /-- Before its first request. -/
  | called
  /-- At the top of the loop of `_wait_boot`. -/
  | looping
  /-- It sends a `wait`. -/
  | sending (timeout : ℚ)
  /-- The daemon has the `wait` as its call `c`. -/
  | waiting (c : Nat)
  /-- The `wait` failed, and it asks for the status. -/
  | asking (e : LifecycleError)
  | sleeping
  /-- The timeout is over, and it asks for the status. -/
  | late
  /-- `note` says that the status carries the note about the timeout. -/
  | returned (state : State) (note : Bool)
  | raised (e : ToolError)
  deriving DecidableEq, Repr

/-- A tool and the Supervisor. -/
structure World where
  sup : Sup
  tool : Tool
  timeout : ℚ
  /-- `time.monotonic()` of the MCP server. -/
  clock : ℚ
  /-- The clock when `_wait_boot` began. -/
  started : ℚ
  pc : Pc
  deriving DecidableEq, Repr

/-- The labels of a tool and its Supervisor. -/
inductive Event
  | pass (clock : ℚ)
  /-- A step of the Supervisor. -/
  | daemon (ev : SupEvent)
  /-- The daemon answers the first request. -/
  | request
  /-- The tool looks at its clock, at the top of the loop. -/
  | poll
  /-- The daemon gets the `wait`. -/
  | send
  /-- The daemon answers a request for the status. -/
  | status
  /-- The sleep is over. -/
  | wakeUp
  deriving DecidableEq, Repr

namespace World

/-- `state` of the status. -/
def state (w : World) : State := w.sup.core.ctl.state

/-- The time since `_wait_boot` began. -/
def elapsed (w : World) : ℚ := w.clock - w.started

/-- The end of the `wait`, as the tool gets it. -/
def hear (w : World) : Result → Pc
  | .returned => .returned w.state false
  | .raised e =>
    if e.code = "conflict" ∨ e.code = "timeout" then .asking e else .raised (.refused e)
  | .cancelled | .bodyRaised | .asserted => .raised .internal

/-- The daemon answers the `wait` once its call has ended. -/
def attend (w : World) : World :=
  match w.pc with
  | .waiting c =>
    match (w.sup.calls[c]?).map Call.pc with
    | some (.ended r) => { w with pc := w.hear r }
    | _ => w
  | _ => w

/-- The first request. -/
def begin (w : World) : World :=
  let r := w.sup.enter w.tool.request
  let w := { w with sup := .addCall w.tool.request r }
  match r.2 with
  | .ended .returned =>
    if w.tool.content w.state then { w with pc := .returned w.state false }
    else { w with pc := .looping, started := w.clock }
  | .ended (.raised e) => { w with pc := .raised (.refused e) }
  | _ => { w with pc := .raised .internal }

/-- The status that a refused wait asked for, with the state as `_wait_boot` reads it. No status
has the state `restarting`. -/
def explain (w : World) (e : LifecycleError) : Pc :=
  if e.code = "conflict" then
    if w.state = .stopping then .sleeping
    else match w.sup.core.info.lastError with
      | some error => .raised (.failed w.state error)
      | none => .raised (.refused e)
  else .looping

/-- Whether the step cancels the `wait`. -/
def cancels (w : World) : SupEvent → Bool
  | .cancel c => w.pc = .waiting c
  | _ => false

/-- One step of a tool and its Supervisor. The request of the tool is not cancelled. -/
def step (cfg : Config) (w : World) : Event → Option World
  | .pass clock => if w.clock ≤ clock then some { w with clock } else none
  | .daemon ev =>
    if w.cancels ev then none else (w.sup.step cfg ev).map fun sup => attend { w with sup }
  | .request => if w.pc = .called then some w.begin else none
  | .poll =>
    if w.pc ≠ .looping then none
    else if w.timeout - w.elapsed ≤ 0 then some { w with pc := .late }
    else some { w with pc := .sending (min progressInterval (w.timeout - w.elapsed)) }
  | .send =>
    match w.pc with
    | .sending timeout =>
      let request : Request := .wait (some timeout)
      some (attend { w with
        sup := .addCall request (w.sup.enter request)
        pc := .waiting (w.sup.enter request).1.calls.length })
    | _ => none
  | .status =>
    match w.pc with
    | .asking e => some { w with pc := w.explain e }
    | .late => some { w with pc := .returned w.state true }
    | _ => none
  | .wakeUp => if w.pc = .sleeping then some { w with pc := .looping } else none

end World

/-- The machine of a tool and its Supervisor, from any state in which the daemon takes starts. -/
def waitBoot (cfg : Config) : Machine World Event where
  Init w := (supervisor cfg).Reachable w.sup ∧ w.sup.core.ctl.closing = false ∧ w.pc = .called
  step := World.step cfg

/-! ### What the steps are to do -/

/-- The states of a restart, one after the other. -/
def Onward (s s' : State) : Prop :=
  s = s' ∨ s = .stopping ∧ s' = .stopped ∨ s = .stopped ∧ s' = .starting ∨
    s = .starting ∧ s' = .running

instance (s s' : State) : Decidable (Onward s s') := inferInstanceAs (Decidable (_ ∨ _))

/-- The Supervisor goes on with a restart: nobody else stops Android, and nothing fails. -/
def Calm (cfg : Config) (w : World) : Event → Prop
  | .daemon ev =>
    match w.sup.step cfg ev with
    | some sup => Onward w.state sup.core.ctl.state ∧ sup.core.ctl.closing = false
    | none => True
  | _ => True

instance (cfg : Config) (w : World) : ∀ ev, Decidable (Calm cfg w ev)
  | .daemon ev =>
    match h : w.sup.step cfg ev with
    | some sup => decidable_of_iff
        (Onward w.state sup.core.ctl.state ∧ sup.core.ctl.closing = false) (by simp [Calm, h])
    | none => .isTrue (by simp [Calm, h])
  | .pass _ | .request | .poll | .send | .status | .wakeUp => .isTrue trivial

/-- No error is raised. What is returned is the current status: of a running Android, or behind
the timeout, or of a tool that does not wait. -/
structure World.Answer (w w' : World) : Prop where
  raised : ∀ e, w'.pc ≠ .raised e
  returned : ∀ state note, w'.pc = .returned state note → w.pc ≠ w'.pc → state = w'.state ∧
    (state = .running ∨ w'.timeout ≤ w'.elapsed ∨ w'.tool = .start false ∨ w'.tool = .restart false)

/-- What `_wait_boot` returns at this event is an answer. -/
def Answers (cfg : Config) (w : World) (ev : Event) : Prop :=
  ∀ w', w.step cfg ev = some w' → w.Answer w'

/-- A status that a refused wait asked for comes while Android is still stopping. -/
def InTime (w : World) (ev : Event) : Prop :=
  ev = .status → ∀ e, w.pc = .asking e → e.code = "conflict" → w.state = .stopping

end Mcp

end AndroidAppliance
