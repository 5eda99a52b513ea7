import AndroidAppliance.Supervisor.Devices
import AndroidAppliance.Supervisor.Stages

/-!
# The invariant of the exit watchers

While no read of its log fails, the watcher of the current emulator waits for its exit as
long as nobody has begun to stop it: from the spawn on to RUNNING, and until the watcher
itself has handled the exit. An emulator that a failed teardown left behind is marked as
stopping and plays no part; nor does a failing read of any other log.
-/

namespace AndroidAppliance

namespace Supervisor

/-- A read of a log raises an `OSError` other than `FileNotFoundError`. -/
def Event.readFails : Event → Bool
  | .readLog _ .failed => true
  | _ => false

/-- The condition on a run: no read of a log fails. -/
def ReadsOk (_ : Lifecycle) (ev : Event) : Prop := ev.readFails = false

instance (l : Lifecycle) (ev : Event) : Decidable (ReadsOk l ev) :=
  inferInstanceAs (Decidable (_ = _))

/-- The step is a read that fails, of the log of the current emulator, while Android is up
and nobody has begun to stop that emulator. -/
def Lifecycle.losesLog (l : Lifecycle) : Event → Bool
  | .readLog e .failed =>
    l.ctl.state.up && l.dev.emu == some e &&
      (l.dev.emus[e]?).any fun m => m.alive && !m.stopping
  | _ => false

/-- The condition on a run: no read fails that the watcher of a running Android needs. -/
def LogsOk (l : Lifecycle) (ev : Event) : Prop := l.losesLog ev = false

instance (l : Lifecycle) (ev : Event) : Decidable (LogsOk l ev) :=
  inferInstanceAs (Decidable (_ = _))

theorem ReadsOk.logsOk (l : Lifecycle) (ev : Event) (h : ReadsOk l ev) : LogsOk l ev := by
  cases ev with
  | readLog e r =>
    cases r with
    | failed => cases h
    | missing | lines => rfl
  | _ => rfl

/-- The watcher will see the exit of the emulator, and nobody has begun to stop it. -/
structure Emu.Watched (m : Emu) : Prop where
  watch : m.watch = .pending
  log : m.log ≠ .failed
  stopping : m.stopping = false

/-- What is known of the record `m` of the current emulator in a stage. -/
def WatchedIn (m : Emu) : Stage → Prop
  | .stopped => m.stopping = true
  | .booting t =>
    match t.pc with
    | .created | .awaitPrevious => m.stopping = true ∨ t.previous ≠ none ∧ m.watch = .handled
    | .teardown _ | .startServer | .setupGpu | .spawning | .ended => m.stopping = true
    | .discovering | .grpcStatus | .waitDevice | .booting | .settingUp _ => m.Watched
  | .orphaned => m.stopping = true ∨ m.Watched
  | .running => m.Watched
  | .stopping t => ∀ pc, t.pc = .teardown pc → m.stopping = true

/-- What is known of the current emulator. -/
def WatchOk (d : Devices) (st : Stage) : Prop := ∀ m, d.current = some m → WatchedIn m st

/-! ### The steps of the emulators -/

namespace EmuStep

variable {e : Nat} {m m' : Emu} {ev : Event}

theorem stopping (hs : EmuStep e m ev m') : m'.stopping = m.stopping := by cases hs <;> rfl

theorem watch (hs : EmuStep e m ev m') : m'.watch = m.watch := by cases hs <;> rfl

/-- The task of the log of a running Android does not fail. -/
theorem log {l : Lifecycle} (hs : EmuStep e m ev m') (hev : LogsOk l ev)
    (hcur : l.dev.emu = some e) (hm : l.dev.emus[e]? = some m) (hup : l.ctl.state.up = true)
    (h : m.Watched) : m'.log ≠ .failed := by
  cases hs with
  | logFailed _ hcode =>
    -- the read that the condition excludes
    have hloses : l.losesLog (.readLog e .failed) = true := by
      simp [Lifecycle.losesLog, hup, hcur, hm, Emu.alive, hcode, h.stopping]
    rw [hev] at hloses
    cases hloses
  | logEnded => exact LogTask.noConfusion
  | hang => exact LogTask.noConfusion
  | exit => exact h.log
  | seen => exact h.log
  | logKept => exact h.log

theorem watched {l : Lifecycle} (hs : EmuStep e m ev m') (hev : LogsOk l ev)
    (hcur : l.dev.emu = some e) (hm : l.dev.emus[e]? = some m) (hup : l.ctl.state.up = true)
    (h : m.Watched) : m'.Watched :=
  ⟨hs.watch.trans h.watch, hs.log hev hcur hm hup h, hs.stopping.trans h.stopping⟩

/-- The facts of a stage survive a step of the emulator's own tasks. -/
theorem watchedIn {st : Stage} (hs : EmuStep e m ev m')
    (hwatched : st.up = true → m.Watched → m'.Watched) (h : WatchedIn m st) :
    WatchedIn m' st := by
  have hstop := hs.stopping
  cases st with
  | stopped => exact hstop.trans h
  | booting t =>
    simp only [WatchedIn] at h ⊢
    split at h
    · rw [hstop, hs.watch]; exact h
    · rw [hstop, hs.watch]; exact h
    all_goals first | exact hstop.trans h | exact hwatched rfl h
  | orphaned => exact h.imp hstop.trans (hwatched rfl)
  | running => exact hwatched rfl h
  | stopping t => exact fun pc hpc => hstop.trans (h pc hpc)

end EmuStep

/-! ### The steps of the tasks -/

/-- The current emulator is marked by the stretches of a retry's teardown. -/
theorem BootTeardown.stopping {c : Control} {d : Devices} {t : Boot} {w : Wake} {p : Prepared}
    {r : Devices × TeardownNext} (h : BootTeardown c d t w p r) (hd : WatchOk d (.booting t))
    {m : Emu} (hm : r.1.current = some m) : m.stopping = true := by
  cases h with
  | first => exact Devices.teardown_stopping hm
  | resume hpc hr =>
    obtain ⟨u, hu, hk⟩ := (Devices.teardownResume_kept hr).current hm
    have hu' := hd u hu
    simp only [WatchedIn, hpc] at hu'
    exact hk.stopping hu'

/-- The same of a stop task. -/
theorem StopTeardown.stopping {c : Control} {d : Devices} {t : Stop} {w : StopWake}
    {r : Devices × TeardownNext} (h : StopTeardown c d t w r) (hd : WatchOk d (.stopping t))
    {m : Emu} (hm : r.1.current = some m) : m.stopping = true := by
  cases h with
  | first => exact Devices.teardown_stopping hm
  | resume hpc hr =>
    obtain ⟨u, hu, hk⟩ := (Devices.teardownResume_kept hr).current hm
    exact hk.stopping (hd u hu _ hpc)

/-- The facts of a boot task at its next wait. -/
theorem BootWaits.watchOk {c : Control} {d dev : Devices} {t : Boot} {w : Wake} {pc : BootPc}
    (h : BootWaits c d t w pc dev) (hd : WatchOk d (.booting t)) :
    WatchOk dev (.booting { t with pc }) := by
  have hnew : ∀ m, (d.launched t.gen).current = some m → m.Watched := by
    intro m hm
    rw [Devices.current_launched] at hm
    cases hm
    exact ⟨rfl, LogTask.noConfusion, rfl⟩
  intro m hm
  cases h with
  | first hpc hprev _ =>
    have h' := hd m hm
    simp only [WatchedIn, hpc, hprev] at h'
    exact h'.resolve_right fun hcon => hcon.1 rfl
  | retry hpc _ =>
    have h' := hd m hm
    simp only [WatchedIn, hpc] at h'
    exact h'
  | tearing ht => exact ht.stopping hd hm
  | torn ht _ => exact ht.stopping hd hm
  | served hpc =>
    have h' := hd m hm
    simp only [WatchedIn, hpc] at h'
    exact h'
  | gpu hpc =>
    have hcur : d.current = some m := by
      rw [← hm]
      simp only [Devices.gpuReady]
      split <;> rfl
    have h' := hd m hcur
    simp only [WatchedIn, hpc] at h'
    exact h'
  | spawned => exact hnew m hm
  | spawnedFound => exact hnew m hm
  | found hpc | answered hpc | device hpc | completed hpc | command hpc =>
    have h' := hd m hm
    simp only [WatchedIn, hpc] at h'
    exact h'

/-- The current emulator of a boot that raises is marked, or its watcher is there. -/
theorem BootRaises.watchOk {c : Control} {d dev : Devices} {t : Boot} {w : Wake}
    {x : BootError} (h : BootRaises c d t w x dev) (hd : WatchOk d (.booting t)) :
    WatchOk dev .orphaned := by
  intro m hm
  cases h with
  | prepare hpc hprev _ =>
    have h' := hd m hm
    simp only [WatchedIn, hpc, hprev] at h'
    exact .inl (h'.resolve_right fun hcon => hcon.1 rfl)
  | torn ht _ => exact .inl (ht.stopping hd hm)
  | teardown ht => exact .inl (ht.stopping hd hm)
  | launch hpc =>
    have h' := hd m hm
    cases hp : t.pc <;> simp only [WatchedIn, hp] at h' <;>
      first | exact .inl h' | exact .inr h' | simp [hp, BootPc.launching] at hpc

/-- A step of a watcher at an emulator that is not the current one. -/
theorem WatchOk.other {d : Devices} {st : Stage} {e : Nat} {f : Emu → Emu}
    (h : WatchOk d st) (he : d.emu ≠ some e) : WatchOk (d.updateEmu e f) st := by
  intro m hm
  obtain ⟨u, hu, ⟨heq, -⟩ | ⟨-, rfl⟩⟩ := Devices.current_updateEmu hm
  · exact absurd heq he
  · exact h m hu

/-- STOPPED and STOPPING say nothing about the watcher. -/
theorem WatchedIn.idle {m : Emu} {st : Stage} (w : Watch)
    (hst : st = .stopped ∨ ∃ t, st = .stopping t) (h : WatchedIn m st) :
    WatchedIn { m with watch := w } st := by
  rcases hst with rfl | ⟨t, rfl⟩ <;> exact h

/-- A pending watcher that is not watched over any more belongs to a marked emulator. -/
theorem WatchedIn.lost {m : Emu} {st : Stage} (w : Watch) (h : WatchedIn m st)
    (hp : m.watch = .pending) (hl : m.log = .failed) : WatchedIn { m with watch := w } st := by
  have hnot : ¬ m.Watched := fun hw => hw.log hl
  cases st with
  | stopped => exact h
  | booting t =>
    simp only [WatchedIn] at h ⊢
    split at h
    · exact .inl (h.resolve_right fun hh => by rw [hp] at hh; cases hh.2)
    · exact .inl (h.resolve_right fun hh => by rw [hp] at hh; cases hh.2)
    all_goals first | exact h | exact absurd h hnot
  | orphaned => exact .inl (h.resolve_right hnot)
  | running => exact absurd h hnot
  | stopping t => exact h

/-! ### The invariant -/

theorem Act.watchOk {cfg : Config} {l l' : Lifecycle} {ev : Event} (ht : TasksOk l.ctl)
    (h : WatchOk l.dev l.stage) (hev : LogsOk l ev) (ha : Act cfg l ev l') :
    WatchOk l'.dev l'.stage := by
  cases ha with
  | quiet hst hdev => rw [hst, hdev]; exact h
  | begin hst hst' hdev =>
    rw [hst', hdev]
    rw [hst] at h
    exact fun m hm => .inl (h m hm)
  | halts _ hst' hpc _ =>
    rw [hst']
    exact fun m _ pc hpc' => by rw [hpc] at hpc'; cases hpc'
  | bootWaits _ hst hw hst' =>
    rw [hst']
    exact hw.watchOk (hst ▸ h)
  | bootFails _ _ _ hst' hpc =>
    rw [hst']
    exact fun m _ pc hpc' => by rw [hpc] at hpc'; cases hpc'
  | bootDrops _ hst hr hst' _ =>
    rw [hst']
    exact hr.watchOk (hst ▸ h)
  | bootDone hst hpc hst' hdev =>
    rw [hst', hdev]
    rw [hst] at h
    intro m hm
    have h' := h m hm
    simp only [WatchedIn, hpc] at h'
    exact h'
  | stopAwaits _ _ hst' _ =>
    rw [hst']
    exact fun m _ pc hpc' => by cases hpc'
  | stopWaits _ hst hs hst' =>
    rw [hst']
    exact fun m hm _ _ => hs.stopping (hst ▸ h) hm
  | stopDone _ hst hs _ hst' =>
    rw [hst']
    exact fun m hm => hs.stopping (hst ▸ h) hm
  | emu hst hm hs hdev =>
    rw [hst, hdev]
    intro u hu
    rcases Devices.current_set hu with ⟨hcur, rfl⟩ | ⟨-, hu⟩
    · refine hs.watchedIn (fun hup => ?_) (h _ ((Devices.current_eq hcur).trans hm))
      exact hs.watched hev hcur hm ((Control.up_stage l.ctl).symm.trans hup)
    · exact h u hu
  | watchFailed hst hm hp hl hdev =>
    rw [hst, hdev]
    intro u hu
    obtain ⟨v, hv, ⟨hcur, rfl⟩ | ⟨-, rfl⟩⟩ := Devices.current_updateEmu hu
    · cases ((Devices.current_eq hcur).symm.trans hv).symm.trans hm
      exact (h _ hv).lost .failed hp hl
    · exact h u hv
  | watchDropped hst hm hp hdrop hdev =>
    rw [hst, hdev]
    rcases hdrop with hne | hdown
    · exact h.other hne
    · intro u hu
      obtain ⟨v, hv, ⟨-, rfl⟩ | ⟨-, rfl⟩⟩ := Devices.current_updateEmu hu
      · exact (h v hv).idle .dropped (Control.stage_down hdown)
      · exact h u hv
  | retries hup _ _ hcur hst' hdev _ =>
    have htask : l.ctl.bootTask ≠ none := by
      obtain ⟨b, hb⟩ := ht.begun (by rintro hs; rw [hs] at hup; cases hup)
      simp [hb]
    rw [hst', hdev]
    intro u hu
    obtain ⟨v, -, ⟨-, rfl⟩ | ⟨hne, -⟩⟩ := Devices.current_updateEmu hu
    · exact .inr ⟨htask, rfl⟩
    · exact absurd hcur hne

/-- **The invariant of the watchers** in every state that is reached without such a failing
read. -/
theorem watchOk {cfg : Config} {l : Lifecycle} (h : (lifecycle cfg).ReachBy LogsOk l) :
    WatchOk l.dev l.stage :=
  Machine.ReachBy.invariant_of (I := fun l => WatchOk l.dev l.stage)
    (fun _ hr => tasksOk hr.reachable)
    (by rintro _ ⟨_, _, _, _, _, rfl⟩ m hm; cases hm)
    (fun _ _ _ hJ hI hev hstep => ((step_move hstep).act hJ).watchOk hJ hI hev) h

end Supervisor

end AndroidAppliance
