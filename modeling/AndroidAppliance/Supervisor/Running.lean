import AndroidAppliance.Supervisor.Stages

/-!
# What RUNNING guarantees

Two invariants. `DevicesReady`: a boot past the spawn has an emulator, past the discovery
also a gRPC client, and so has RUNNING. `Jobs.Ok`: in RUNNING each registered job has
exactly one repeating task that was not cancelled, and in every other state none has.
-/

namespace AndroidAppliance

namespace Supervisor

/-! ### Emulator and gRPC client -/

/-- The emulator and the gRPC client are there when the boot has got that far. -/
def DevicesReady (d : Devices) : Stage → Prop
  | .booting t => (t.pc.hasEmu = true → d.emu ≠ none) ∧ (t.pc.hasGrpc = true → d.grpc ≠ none)
  | .running => d.emu ≠ none ∧ d.grpc ≠ none
  | .stopped | .orphaned | .stopping _ => True

theorem DevicesReady.created {d : Devices} {t : Boot} (h : t.pc = .created) :
    DevicesReady d (.booting t) := by
  constructor <;> intro h' <;> simp [h, BootPc.hasEmu, BootPc.hasGrpc] at h'

/-- The next wait of a boot. -/
theorem DevicesReady.waits {c : Control} {d dev : Devices} {t : Boot} {w : Wake} {pc : BootPc}
    (h : DevicesReady d (.booting t)) (hw : BootWaits c d t w pc dev) :
    DevicesReady dev (.booting { t with pc }) := by
  obtain ⟨hemu, hgrpc⟩ := h
  cases hw
  case spawned =>
    exact ⟨fun _ => by simp [Devices.launched], fun h => by simp [BootPc.hasGrpc] at h⟩
  case spawnedFound =>
    exact ⟨fun _ => by simp [Devices.launched, Devices.connected],
      fun _ => by simp [Devices.connected]⟩
  case found hpc =>
    exact ⟨fun _ => hemu (by simp [hpc, BootPc.hasEmu]), fun _ => by simp [Devices.connected]⟩
  case answered hpc | device hpc | completed hpc | command hpc =>
    exact ⟨fun _ => hemu (by simp [hpc, BootPc.hasEmu]),
      fun _ => hgrpc (by simp [hpc, BootPc.hasGrpc])⟩
  all_goals exact ⟨fun h => by simp [BootPc.hasEmu] at h, fun h => by simp [BootPc.hasGrpc] at h⟩

/-- The invariant looks at the fields `emu` and `grpc` only. -/
theorem DevicesReady.congr {d d' : Devices} {st : Stage} (h : DevicesReady d st)
    (hemu : d'.emu = d.emu) (hgrpc : d'.grpc = d.grpc) : DevicesReady d' st := by
  cases st <;> simp_all [DevicesReady]

theorem Act.devicesReady {cfg : Config} {l l' : Lifecycle} {ev : Event}
    (h : DevicesReady l.dev l.stage) (ha : Act cfg l ev l') :
    DevicesReady l'.dev l'.stage := by
  cases ha with
  | quiet hst hdev => rw [hst, hdev]; exact h
  | begin _ hst' _ => rw [hst']; exact .created rfl
  | halts _ hst' _ _ => rw [hst']; trivial
  | bootWaits _ hst hw hst' => rw [hst'] ; rw [hst] at h; exact h.waits hw
  | bootFails _ _ _ hst' _ => rw [hst']; trivial
  | bootDrops _ _ _ hst' _ => rw [hst']; trivial
  | bootDone hst hpc hst' hdev =>
    rw [hst] at h
    rw [hst', hdev]
    exact ⟨h.1 (by simp [hpc, BootPc.hasEmu]), h.2 (by simp [hpc, BootPc.hasGrpc])⟩
  | stopAwaits _ _ hst' _ => rw [hst']; trivial
  | stopWaits _ _ _ hst' => rw [hst']; trivial
  | stopDone _ _ _ _ hst' => rw [hst']; trivial
  | emu hst _ _ hdev => rw [hst]; exact h.congr (by rw [hdev]) (by rw [hdev])
  | watchFailed hst _ _ _ hdev => rw [hst]; exact h.congr (by rw [hdev]; rfl) (by rw [hdev]; rfl)
  | watchDropped hst _ _ _ hdev =>
    rw [hst]; exact h.congr (by rw [hdev]; rfl) (by rw [hdev]; rfl)
  | retries _ _ _ _ hst' _ _ => rw [hst']; exact .created rfl

theorem devicesReady {cfg : Config} {l : Lifecycle} (h : (lifecycle cfg).Reachable l) :
    DevicesReady l.dev l.stage :=
  Machine.ReachBy.invariant_of (I := fun l => DevicesReady l.dev l.stage)
    (fun _ hr => tasksOk hr)
    (by rintro _ ⟨_, _, _, _, _, rfl⟩; trivial)
    (fun _ _ _ hJ hI _ hstep => ((step_move hstep).act hJ).devicesReady hI) h

/-! ### Repeating tasks -/

namespace Jobs

/-- The jobs of the repeating tasks that have not been cancelled, in the order of the
tasks. -/
def live (j : Jobs) : List Nat := (j.repeats.filter fun t => !t.cancelled).map (·.job)

/-- In RUNNING every job has exactly one repeating task, else none has. `_job_tasks` knows
every task that has not been cancelled. -/
structure Ok (j : Jobs) (running : Bool) : Prop where
  known : ∀ (r : Nat) (t : Repeat), j.repeats[r]? = some t → t.cancelled = false →
    r ∈ j.jobTasks
  live_eq : j.live = if running then List.range j.jobs.length else []

variable {j : Jobs}

theorem live_spawnRepeat (n : Nat) : (j.spawnRepeat n).live = j.live ++ [n] := by
  simp [live, spawnRepeat, List.filter_append]

theorem known_spawnRepeat (n : Nat)
    (h : ∀ (r : Nat) (t : Repeat), j.repeats[r]? = some t → t.cancelled = false →
      r ∈ j.jobTasks) (r : Nat) (t : Repeat) (hr : (j.spawnRepeat n).repeats[r]? = some t)
    (hc : t.cancelled = false) : r ∈ (j.spawnRepeat n).jobTasks := by
  rcases Table.cases_append hr with hr | ⟨rfl, -⟩
  · exact List.mem_append_left _ (h r t hr hc)
  · exact List.mem_append_right _ List.mem_cons_self

/-- Every repeating task is cancelled, as `_job_tasks` knows them all. -/
theorem Ok.cancelJobs {running : Bool} (h : j.Ok running) : j.cancelJobs.Ok false := by
  have hall : ∀ (r : Nat) (t : Repeat), j.cancelJobs.repeats[r]? = some t →
      t.cancelled = true := by
    intro r t hr
    simp only [Jobs.cancelJobs, List.getElem?_mapIdx, Option.map_eq_some_iff] at hr
    obtain ⟨u, hu, rfl⟩ := hr
    split
    · rfl
    · rename_i hmem
      by_contra hc
      exact hmem (h.known r u hu (by simpa using hc))
  refine ⟨fun r t hr hc => ?_, ?_⟩
  · rw [hall r t hr] at hc
    cases hc
  · simp only [live, Bool.false_eq_true, if_false, List.map_eq_nil_iff, List.filter_eq_nil_iff]
    intro t ht
    obtain ⟨r, hr⟩ := List.mem_iff_getElem?.mp ht
    simp [hall r t hr]

/-- A run of `spawnRepeat` adds its jobs. -/
theorem foldl_spawnRepeat (ns : List Nat) (j : Jobs)
    (h : ∀ (r : Nat) (t : Repeat), j.repeats[r]? = some t → t.cancelled = false →
      r ∈ j.jobTasks) :
    (ns.foldl Jobs.spawnRepeat j).live = j.live ++ ns ∧
    (ns.foldl Jobs.spawnRepeat j).jobs = j.jobs ∧
    ∀ (r : Nat) (t : Repeat), (ns.foldl Jobs.spawnRepeat j).repeats[r]? = some t →
      t.cancelled = false → r ∈ (ns.foldl Jobs.spawnRepeat j).jobTasks := by
  induction ns generalizing j with
  | nil => exact ⟨by simp, rfl, h⟩
  | cons n ns ih =>
    obtain ⟨hlive, hjobs, hknown⟩ := ih (j.spawnRepeat n) (known_spawnRepeat n h)
    exact ⟨by rw [List.foldl_cons, hlive, live_spawnRepeat, List.append_assoc]; rfl,
      hjobs, hknown⟩

theorem Ok.startJobs (h : j.Ok false) : j.startJobs.Ok true := by
  obtain ⟨hlive, hjobs, hknown⟩ := foldl_spawnRepeat (List.range j.jobs.length) j h.known
  refine ⟨hknown, ?_⟩
  rw [Jobs.startJobs, hlive, h.live_eq, hjobs]
  simp

theorem Ok.every {running : Bool} (h : j.Ok running) (job : Job) :
    (j.every running job).Ok running := by
  cases running with
  | false => exact ⟨h.known, h.live_eq⟩
  | true =>
    refine ⟨known_spawnRepeat _ h.known, ?_⟩
    have hlive : ({ j with jobs := j.jobs ++ [job] } : Jobs).live = List.range j.jobs.length :=
      h.live_eq
    rw [Jobs.every, if_pos rfl, live_spawnRepeat, hlive, if_pos rfl]
    simp [Jobs.spawnRepeat, List.range_succ]

end Jobs

/-- The repeating tasks fit the state. -/
def JobsOk (l : Lifecycle) : Prop := l.job.Ok (l.ctl.state == .running)

/-- No repeating task is left outside of RUNNING. -/
theorem JobsOk.idle {l : Lifecycle} (h : JobsOk l) (hs : l.ctl.state ≠ .running) :
    l.job.Ok false := by
  have hr : (l.ctl.state == .running) = false := by
    cases hst : l.ctl.state <;> first | rfl | exact absurd hst hs
  rwa [JobsOk, hr] at h

/-- The end of a boot starts the repeating tasks. -/
theorem complete_job {l : Lifecycle} {b f : Nat} (h : l.ctl.bootDone = some f)
    (hf : l.ctl.resolved f = false) : (l.complete b).job = l.job.startJobs := by
  have hres : ({ l.ctl.setBoot b .ended with state := .running } : Control).resolved f = false :=
    hf
  simp [Lifecycle.complete, Control.setBoot, h] at hres ⊢
  simp [hres]

theorem Move.jobsOk {cfg : Config} {l l' : Lifecycle} {ev : Event} (ht : TasksOk l.ctl)
    (h : JobsOk l) (hm : Move cfg l ev l') : JobsOk l' := by
  have hstart : ∀ {b : Nat} {t : Boot}, l.ctl.boots[b]? = some t → t.cancelled = false →
      t.pc ≠ .ended → l.ctl.state = .starting := fun hb hc hpc => (ht.bootLive _ _ hb hc hpc).1
  cases hm with
  | begin hs _ => exact h.idle (by simp [hs])
  | halt _ => exact h.cancelJobs
  | shutdownUp _ => exact h.cancelJobs
  | shutdownDown _ => exact h
  | every => exact h.every _
  | touch => exact h
  | clock _ => exact h
  | bootWaits => exact h
  | bootFails => exact h.cancelJobs
  | bootDrops => exact h
  | @bootDone b t hb hc hpc =>
    have hs := hstart hb hc (by simp [hpc])
    obtain ⟨f, u, hdone, hu, hn⟩ := ht.starting hs
    have hres : l.ctl.resolved f = false := by simp [Control.resolved, hu, hn]
    rw [JobsOk, complete_job hdone hres, complete_ctl hdone]
    exact (h.idle (by simp [hs])).startJobs
  | unwound => exact h
  | stopAwaits => exact h
  | stopWaits => exact h
  | stopDone hk hst _ =>
    have hs := (ht.stopLive _ _ hk hst.not_ended).1
    exact h.idle (by simp [hs])
  | emu => exact h
  | watchFailed => exact h
  | watchDropped => exact h
  | watchStops => exact h.cancelJobs
  | watchRetries => exact h.cancelJobs

theorem jobsOk {cfg : Config} {l : Lifecycle} (h : (lifecycle cfg).Reachable l) : JobsOk l :=
  Machine.ReachBy.invariant_of (I := JobsOk) (fun _ hr => tasksOk hr)
    (by
      rintro _ ⟨_, _, _, _, _, rfl⟩
      exact ⟨by simp [Lifecycle.new], rfl⟩)
    (fun _ _ _ hJ hI _ hstep => (step_move hstep).jobsOk hJ hI) h

end Supervisor

end AndroidAppliance
