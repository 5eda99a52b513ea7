import AndroidAppliance.Supervisor.Lifecycle

/-!
# The crash history of state.json

The daemon keeps the crash history as a list. A state.json in which something else stands
there makes `_record` raise; no step of the lifecycle brings that about or repairs it.
-/

namespace AndroidAppliance

namespace Supervisor

namespace Lifecycle

variable {cfg : Config} {l l' : Lifecycle}

/-- Recording a failure keeps the list. -/
theorem record_crashes {f : Failure} {retried : Bool} (h : l.record f retried = some l') :
    l'.info.crashes.isSome = l.info.crashes.isSome := by
  obtain ⟨crashes, hc, rfl⟩ := Option.map_eq_some_iff.mp h
  rw [hc]
  rfl

/-- So does a failure. -/
theorem fail_crashes {current : Option Nat} {f : Failure} (h : l.fail current f = some l') :
    l'.info.crashes.isSome = l.info.crashes.isSome := by
  obtain ⟨r, hr, rfl⟩ := Option.map_eq_some_iff.mp h
  have hrec := record_crashes hr
  exact hrec

/-- So does a boot that raises. -/
theorem bootRaised_crashes (l : Lifecycle) (b : Nat) (x : BootError) :
    (l.bootRaised b x).info.crashes.isSome = l.info.crashes.isSome := by
  have hfail : ∀ f : Failure, (((l.fail (some b) f).getD l).setBoot b .ended).info.crashes.isSome
      = l.info.crashes.isSome := by
    intro f
    cases hf : l.fail (some b) f with
    | none => rfl
    | some l' =>
      have h := fail_crashes hf
      exact h
  cases x with
  | unexpected message => exact hfail _
  | failure f =>
    simp only [bootRaised]
    split
    · exact hfail f
    · rfl

/-- So does a launch. -/
theorem launch_crashes (l : Lifecycle) (b : Nat) (p : Prepared) :
    (l.launch b p).info.crashes.isSome = l.info.crashes.isSome := by
  unfold launch
  cases p.error with
  | none => rfl
  | some x => exact bootRaised_crashes _ b x

/-- So does the teardown of a boot. -/
theorem bootTeardown_crashes (l : Lifecycle) (b : Nat) (p : Prepared)
    (r : Devices × TeardownNext) :
    (l.bootTeardown b p r).info.crashes.isSome = l.info.crashes.isSome := by
  obtain ⟨dev, next⟩ := r
  cases next with
  | wait pc => rfl
  | done => exact launch_crashes _ b p
  | raised => exact bootRaised_crashes _ b _

/-- A boot that is complete changes nothing in it. -/
theorem complete_crashes (l : Lifecycle) (b : Nat) :
    (l.complete b).info.crashes = l.info.crashes := by
  unfold complete
  simp only
  split <;> rfl

/-- A step of a boot. -/
theorem bootStep_crashes {b : Nat} {t : Boot} {w : Wake} (h : l.bootStep b t w = some l') :
    l'.info.crashes.isSome = l.info.crashes.isSome := by
  unfold bootStep at h
  split at h
  · split at h
    · cases h; exact launch_crashes l b _
    · cases h; rfl
    · split at h
      · cases h; exact bootTeardown_crashes l b _ _
      · cases h
    · cases h
  · split at h
    · obtain ⟨r, -, rfl⟩ := Option.map_eq_some_iff.mp h
      exact bootTeardown_crashes l b _ r
    · cases h
  · split at h <;> cases h; rfl
  · split at h <;> cases h; rfl
  · split at h
    · cases h
      split <;> rfl
    · cases h
  · split at h <;> cases h; rfl
  · split at h <;> cases h; rfl
  · split at h <;> cases h; rfl
  · split at h <;> cases h; rfl
  · split at h
    · cases h; rfl
    · cases h; rw [complete_crashes]
    · cases h
  · split at h
    · cases h; exact bootRaised_crashes l b _
    · cases h

/-- A step of a stop. -/
theorem stopStep_crashes {k : Nat} {t : Stop} {w : StopWake} (h : l.stopStep k t w = some l') :
    l'.info.crashes = l.info.crashes := by
  have htear : ∀ r, (l.stopTeardown k t r).info.crashes = l.info.crashes := by
    rintro ⟨dev, next⟩
    cases next <;> rfl
  unfold stopStep at h
  split at h
  · split at h
    · split at h
      · cases h; exact htear _
      · cases h; rfl
    · split at h
      · cases h; exact htear _
      · cases h
    · cases h
  · split at h
    · obtain ⟨r, -, rfl⟩ := Option.map_eq_some_iff.mp h
      exact htear r
    · cases h

/-- The lifecycle that `_exited` leaves, whether it raises or not. -/
def left : Except Lifecycle Lifecycle → Lifecycle
  | .ok l | .error l => l

/-- A new try. -/
theorem retry_crashes (l : Lifecycle) (f : Failure) (crash : CrashInfo) :
    (left (l.retry f crash)).info.crashes.isSome = l.info.crashes.isSome := by
  unfold retry
  simp only
  split
  · rfl
  · rename_i hrec
    have h := record_crashes hrec
    exact h

/-- An emulator that has exited. -/
theorem exited_crashes (cfg : Config) (l : Lifecycle) (e : Nat) (m : Emu) (code : Int)
    (line : Option String) :
    (left (l.exited cfg e m code line)).info.crashes.isSome = l.info.crashes.isSome := by
  unfold exited
  cases m.hangLine with
  | some hang =>
    simp only
    cases hf : l.fail none _ with
    | none => rfl
    | some l' => exact fail_crashes hf
  | none =>
    simp only
    split_ifs
    · rfl
    · cases hf : l.fail none _ with
      | none => rfl
      | some l' => exact fail_crashes hf
    · exact retry_crashes l _ _

/-- `_handle_exit`. -/
theorem handleExit_crashes (cfg : Config) (l : Lifecycle) (e : Nat) (m : Emu) (code : Int)
    (line : Option String) :
    (l.handleExit cfg e m code line).info.crashes.isSome = l.info.crashes.isSome := by
  have h := exited_crashes cfg l e m code line
  unfold handleExit
  split
  · rename_i heq
    rwa [heq] at h
  · rename_i heq
    rw [heq] at h
    split <;> exact h

/-- A step of a watcher. -/
theorem watchStep_crashes {e : Nat} {line : Option String}
    (h : l.watchStep cfg e line = some l') :
    l'.info.crashes.isSome = l.info.crashes.isSome := by
  obtain ⟨m, -, h⟩ := Option.bind_eq_some_iff.mp h
  simp only at h
  split at h
  · split at h
    · cases h; rfl
    · split at h
      · cases h; exact handleExit_crashes cfg _ e m _ line
      · cases h; rfl
    · cases h
  · cases h

/-- No step makes the crash history of state.json a list or takes that away. -/
theorem step_crashes {ev : Event} (h : l.step cfg ev = some l') :
    l'.info.crashes.isSome = l.info.crashes.isSome := by
  cases ev with
  | begin => simp only [step] at h; split at h <;> cases h; rfl
  | halt => simp only [step] at h; split at h <;> cases h; rfl
  | shutdown =>
    cases h
    unfold shutdown
    simp only
    split <;> rfl
  | every job => cases h; rfl
  | touch => cases h; rfl
  | clock monotonic wall => simp only [step] at h; split at h <;> cases h; rfl
  | boot b w =>
    obtain ⟨t, -, h⟩ := Option.bind_eq_some_iff.mp h
    split at h
    · cases h
    · exact bootStep_crashes h
  | unwound b =>
    obtain ⟨t, -, h⟩ := Option.bind_eq_some_iff.mp h
    split at h <;> cases h; rfl
  | stop k w =>
    obtain ⟨t, -, h⟩ := Option.bind_eq_some_iff.mp h
    rw [stopStep_crashes h]
  | exit e code | exitSeen e | readLog e r =>
    obtain ⟨dev, -, rfl⟩ := Option.map_eq_some_iff.mp h
    rfl
  | watch e line => exact watchStep_crashes h

end Lifecycle

end Supervisor

end AndroidAppliance
