import AndroidAppliance.Supervisor.Lifecycle
import AndroidAppliance.Transition.Table

/-!
# What a teardown does to the devices

Three views of a stretch of `_teardown`, each with a lemma for its first stretch and one
for the stretches after a wait:

* `Devices.Kept`: which parts of the emulators' records it leaves alone;
* `Devices.Closing`: what is closed when the stretch ends there;
* `Devices.Inside`: that `Emulator.stop` works on the current emulator.
-/

namespace AndroidAppliance

namespace Supervisor

/-- A record after a part of a teardown: the process, its log and its origin are as they
were, a mark is only set, and the watcher may have been cancelled. -/
structure Emu.Kept (m m' : Emu) : Prop where
  gen : m'.gen = m.gen
  returncode : m'.returncode = m.returncode
  exited : m'.exited = m.exited
  hangLine : m'.hangLine = m.hangLine
  log : m'.log = m.log
  stopping : m.stopping = true → m'.stopping = true
  torn : m.torn = true → m'.torn = true
  watch : m'.watch = m.watch ∨ m.watch = .pending ∧ m'.watch = .cancelled

namespace Emu.Kept

variable {m m' m'' : Emu}

theorem refl (m : Emu) : m.Kept m := ⟨rfl, rfl, rfl, rfl, rfl, id, id, .inl rfl⟩

theorem trans (h : m.Kept m') (h' : m'.Kept m'') : m.Kept m'' where
  gen := h'.gen.trans h.gen
  returncode := h'.returncode.trans h.returncode
  exited := h'.exited.trans h.exited
  hangLine := h'.hangLine.trans h.hangLine
  log := h'.log.trans h.log
  stopping := h'.stopping ∘ h.stopping
  torn := h'.torn ∘ h.torn
  watch := by
    rcases h'.watch with hw' | ⟨hp', hc'⟩
    · rw [hw']; exact h.watch
    · rcases h.watch with hw | ⟨hp, hc⟩
      · exact .inr ⟨hw ▸ hp', hc'⟩
      · rw [hc] at hp'; cases hp'

/-- `stop` has begun. -/
theorem stop (m : Emu) : m.Kept { m with stopping := true } :=
  ⟨rfl, rfl, rfl, rfl, rfl, fun _ => rfl, id, .inl rfl⟩

/-- The teardown has begun. -/
theorem tear (m : Emu) : m.Kept { m with torn := true } :=
  ⟨rfl, rfl, rfl, rfl, rfl, id, fun _ => rfl, .inl rfl⟩

/-- A signal is counted, and takes nothing from the record. -/
theorem signal (m : Emu) (s : Signal) :
    m.Kept (if m.alive then { m with signals := m.signals ++ [s] } else m) := by
  split
  · exact ⟨rfl, rfl, rfl, rfl, rfl, id, id, .inl rfl⟩
  · exact .refl m

/-- The watcher is cancelled if it is pending. -/
theorem cancelWatch (m : Emu) : m.Kept (Devices.cancelWatch m) := by
  unfold Devices.cancelWatch
  split
  · rename_i hp
    exact ⟨rfl, rfl, rfl, rfl, rfl, id, id, .inr ⟨hp, rfl⟩⟩
  · exact .refl m

end Emu.Kept

/-- The outcomes of a wait that end the teardown with an exception. -/
def TeardownPc.raises : TeardownPc → TeardownOutcome → Bool
  | .sync _, .adb o => o = .spawnError
  | .emuKill _, .adb o => o.emuKill.isNone
  | .grpcClose, .raised | .xvncStop, .raised => true
  | _, _ => false

namespace Devices

/-- The record of the current emulator. -/
def current (d : Devices) : Option Emu := d.emu.bind (d.emus[·]?)

/-- The current emulator is one of the table. -/
def Known (d : Devices) : Prop := ∀ e : Nat, d.emu = some e → e < d.emus.length

/-- No process of an emulator runs. -/
def Dead (d : Devices) : Prop := ∀ e : Nat, d.alive e = false

variable {d d' : Devices} {e : Nat} {m m' : Emu}

/-- The current emulator is the one that `emu` names. -/
theorem current_eq (h : d.emu = some e) : d.current = d.emus[e]? := by
  simp [current, h]

theorem current_of (he : d.emu = some e) (hm : d.emus[e]? = some m) : d.current = some m :=
  (current_eq he).trans hm

theorem current_none (h : d.emu = none) : d.current = none := by
  simp [current, h]

/-- An emulator that is alive has no return code. -/
theorem alive_eq_true : d.alive e = true ↔ ∃ m, d.emus[e]? = some m ∧ m.returncode = none := by
  simp [alive, Emu.alive, Option.any_eq_true]

/-- An emulator that has exited is in the table. -/
theorem exited_eq_true : d.exited e = true ↔ ∃ m, d.emus[e]? = some m ∧ m.exited = true := by
  simp [exited, Option.any_eq_true]

/-! ### Updates of one record -/

/-- An update touches the record of one emulator. -/
theorem getElem?_updateEmu (d : Devices) (e i : Nat) (f : Emu → Emu) :
    (d.updateEmu e f).emus[i]? = if e = i then (d.emus[i]?).map f else d.emus[i]? := by
  simp only [updateEmu, List.getElem?_modify]
  split <;> simp

/-- An update that keeps the return codes keeps who is alive. -/
theorem alive_updateEmu {f : Emu → Emu} (hf : ∀ m, (f m).returncode = m.returncode) (i : Nat) :
    (d.updateEmu e f).alive i = d.alive i := by
  rw [alive, getElem?_updateEmu]
  split
  · cases hm : d.emus[i]? <;> simp [alive, Emu.alive, hm, hf]
  · rfl

@[simp] theorem signal_emu (d : Devices) (e : Nat) (s : Signal) :
    (d.signal e s).emu = d.emu := rfl

@[simp] theorem signal_grpc (d : Devices) (e : Nat) (s : Signal) :
    (d.signal e s).grpc = d.grpc := rfl

@[simp] theorem updateEmu_emu (d : Devices) (e : Nat) (f : Emu → Emu) :
    (d.updateEmu e f).emu = d.emu := rfl

@[simp] theorem updateEmu_grpc (d : Devices) (e : Nat) (f : Emu → Emu) :
    (d.updateEmu e f).grpc = d.grpc := rfl

/-- The current emulator after the update of a record. -/
theorem current_updateEmu {f : Emu → Emu} (h : (d.updateEmu e f).current = some m) :
    ∃ u, d.current = some u ∧ (d.emu = some e ∧ m = f u ∨ d.emu ≠ some e ∧ m = u) := by
  obtain ⟨i, hi, hm⟩ := Option.bind_eq_some_iff.mp h
  have hi' : d.emu = some i := hi
  obtain ⟨u, hu, ⟨rfl, rfl⟩ | ⟨hne, rfl⟩⟩ := Table.cases_modify hm
  · exact ⟨u, (current_eq hi').trans hu, .inl ⟨hi', rfl⟩⟩
  · refine ⟨m, (current_eq hi').trans hu, .inr ⟨?_, rfl⟩⟩
    rintro he
    exact hne (Option.some.inj (he.symm.trans hi'))

/-- The current emulator after a step of an emulator. -/
theorem current_set (h : ({ d with emus := d.emus.set e m' } : Devices).current = some m) :
    d.emu = some e ∧ m = m' ∨ d.emu ≠ some e ∧ d.current = some m := by
  obtain ⟨i, hi, hm⟩ := Option.bind_eq_some_iff.mp h
  have hi' : d.emu = some i := hi
  rcases Table.cases_set hm with ⟨rfl, rfl⟩ | ⟨hne, hm⟩
  · exact .inl ⟨hi', rfl⟩
  · refine .inr ⟨?_, (current_eq hi').trans hm⟩
    rintro he
    exact hne (Option.some.inj (he.symm.trans hi'))

/-- A new emulator is the current one. -/
theorem current_launched (d : Devices) (gen : Nat) :
    (d.launched gen).current = some (.launched gen) := by
  simp [current, launched]

/-! ### What a teardown leaves alone -/

/-- The devices after a part of a teardown. -/
structure Kept (d d' : Devices) : Prop where
  emu : d'.emu = d.emu ∨ d'.emu = none
  size : d'.emus.length = d.emus.length
  emus : ∀ (i : Nat) (m' : Emu), d'.emus[i]? = some m' → ∃ m, d.emus[i]? = some m ∧ m.Kept m'

namespace Kept

variable {d'' : Devices}

theorem refl (d : Devices) : d.Kept d := ⟨.inl rfl, rfl, fun _ m hm => ⟨m, hm, .refl m⟩⟩

theorem trans (h : d.Kept d') (h' : d'.Kept d'') : d.Kept d'' where
  emu := by
    rcases h'.emu with he | he
    · rw [he]; exact h.emu
    · exact .inr he
  size := h'.size.trans h.size
  emus i m' hm' := by
    obtain ⟨u, hu, hum⟩ := h'.emus i m' hm'
    obtain ⟨m, hm, hmu⟩ := h.emus i u hu
    exact ⟨m, hm, hmu.trans hum⟩

/-- The invariant parts look at the emulators only. -/
theorem of_eq (hemu : d'.emu = d.emu) (hemus : d'.emus = d.emus) : d.Kept d' :=
  ⟨.inl hemu, by rw [hemus], fun _ m hm => ⟨m, hemus ▸ hm, .refl m⟩⟩

/-- An update keeps the devices when it keeps the record. -/
theorem update {f : Emu → Emu} (hf : ∀ m : Emu, m.Kept (f m)) (d : Devices) (e : Nat) :
    d.Kept (d.updateEmu e f) where
  emu := .inl rfl
  size := List.length_modify ..
  emus i m' hm' := by
    obtain ⟨m, hm, ⟨-, rfl⟩ | ⟨-, rfl⟩⟩ := Table.cases_modify hm'
    · exact ⟨m, hm, hf m⟩
    · exact ⟨m', hm, .refl m'⟩

/-- The current emulator after a part of a teardown was the current one before. -/
theorem current (h : d.Kept d') (hm : d'.current = some m') :
    ∃ m, d.current = some m ∧ m.Kept m' := by
  obtain ⟨i, hi, hm⟩ := Option.bind_eq_some_iff.mp hm
  obtain ⟨m, hm', hk⟩ := h.emus i m' hm
  refine ⟨m, ?_, hk⟩
  rcases h.emu with he | he
  · exact (current_eq (he ▸ hi)).trans hm'
  · rw [he] at hi; cases hi

/-- The current emulator is one of the table. -/
theorem known (h : d.Kept d') (hd : d.Known) : d'.Known := by
  intro e he
  rw [h.size]
  rcases h.emu with he' | he'
  · exact hd e (he'.symm.trans he)
  · rw [he'] at he; cases he

/-- Who is alive stays as it is. -/
theorem alive (h : d.Kept d') (i : Nat) : d'.alive i = d.alive i := by
  cases hm' : d'.emus[i]? with
  | none =>
    have hlen : d.emus.length ≤ i := by
      rw [← h.size]
      exact List.getElem?_eq_none_iff.mp hm'
    simp [Devices.alive, hm', List.getElem?_eq_none_iff.mpr hlen]
  | some m' =>
    obtain ⟨m, hm, hk⟩ := h.emus i m' hm'
    simp [Devices.alive, Emu.alive, hm', hm, hk.returncode]

/-- What was dead stays dead. -/
theorem dead (h : d.Kept d') (hd : d.Dead) : d'.Dead := fun i => (h.alive i).trans (hd i)

end Kept

theorem signal_kept (d : Devices) (e : Nat) (s : Signal) : d.Kept (d.signal e s) :=
  .update (fun m => .signal m s) d e

/-- After the last part. -/
theorem teardownLast_kept (d : Devices) : d.Kept d.teardownLast.1 := by
  unfold teardownLast
  split
  · rename_i e _
    have h := Kept.update Emu.Kept.tear d e
    exact ⟨.inr rfl, h.size, h.emus⟩
  · exact .refl d

/-- After the part that begins at Xvnc. -/
theorem teardownXvnc_kept (d : Devices) : d.Kept d.teardownXvnc.1 := by
  unfold teardownXvnc
  split
  · exact .refl d
  · exact teardownLast_kept d

/-- The devices once `_teardown` has let go of the watcher. -/
inductive Unwatched (d : Devices) : Devices → Prop
  | refl : Unwatched d d
  | cancel (w : Nat) : Unwatched d { d.updateEmu w cancelWatch with watcher := none }

/-- `_teardown` lets go of the watcher; then it waits for the channel or goes on. -/
theorem teardownGrpc_cases (d : Devices) : ∃ d', d.Unwatched d' ∧
    (d.teardownGrpc = (d', .wait .grpcClose) ∨
      d'.grpc = none ∧ d.teardownGrpc = d'.teardownXvnc) := by
  have hgo : ∀ d' : Devices, (d'.grpc.elim d'.teardownXvnc fun _ => (d', .wait .grpcClose)) =
      (d', .wait .grpcClose) ∨ d'.grpc = none ∧
        (d'.grpc.elim d'.teardownXvnc fun _ => (d', .wait .grpcClose)) = d'.teardownXvnc := by
    intro d'
    cases hgrpc : d'.grpc with
    | none => exact .inr ⟨rfl, rfl⟩
    | some g => exact .inl rfl
  have heq : ∀ d' : Devices, d.teardownGrpc =
      d'.grpc.elim d'.teardownXvnc (fun _ => (d', .wait .grpcClose)) →
      (d.teardownGrpc = (d', .wait .grpcClose) ∨
        d'.grpc = none ∧ d.teardownGrpc = d'.teardownXvnc) := by
    intro d' hd
    rw [hd]
    exact hgo d'
  cases hwatcher : d.watcher with
  | none =>
    refine ⟨d, .refl, heq d ?_⟩
    unfold teardownGrpc
    rw [hwatcher]
    cases hgrpc : d.grpc <;> simp [hgrpc]
  | some w =>
    refine ⟨_, .cancel w, heq _ ?_⟩
    unfold teardownGrpc
    rw [hwatcher]
    cases hgrpc : d.grpc <;> simp [hgrpc]

/-- Cancelling the watchers takes nothing else. -/
theorem Unwatched.kept (h : d.Unwatched d') : d.Kept d' := by
  cases h with
  | refl => exact .refl d
  | cancel w =>
    have h := Kept.update Emu.Kept.cancelWatch d w
    exact ⟨h.emu, h.size, h.emus⟩

/-- The current emulator stays the current one. -/
theorem Unwatched.emu (h : d.Unwatched d') : d'.emu = d.emu := by
  cases h with
  | refl | cancel w => rfl

/-- After the part that begins at the gRPC channel. -/
theorem teardownGrpc_kept (d : Devices) : d.Kept d.teardownGrpc.1 := by
  obtain ⟨d', hd, heq | ⟨-, heq⟩⟩ := d.teardownGrpc_cases
  · rw [heq]
    exact hd.kept
  · rw [heq]
    exact hd.kept.trans (teardownXvnc_kept d')

/-- After the part of `stop` that begins at SIGTERM. -/
theorem stopTerm_kept (d : Devices) (e : Nat) : d.Kept (d.stopTerm e).1 := by
  unfold stopTerm
  split
  · exact signal_kept d e _
  · exact .refl d

/-- After the part of `stop` that begins at `emu_kill`. -/
theorem stopKill_kept (d : Devices) (e : Nat) : d.Kept (d.stopKill e).1 := by
  unfold stopKill
  split
  · exact signal_kept d e _
  · exact stopTerm_kept d e

/-- The first stretch of a teardown: `Emulator.stop` of the current emulator, or what is behind. -/
theorem teardown_cases (d : Devices) : d.emu = none ∧ d.teardown = d.teardownGrpc ∨
    ∃ e d', d.emu = some e ∧ d' = d.updateEmu e ({ · with stopping := true }) ∧
      (d.teardown = (d', .wait (.sync e)) ∨ d.teardown = d'.stopKill e) := by
  unfold teardown
  split
  · rename_i e he
    refine .inr ⟨e, _, he, rfl, ?_⟩
    unfold stopEmulator
    simp only
    split
    · exact .inl rfl
    · exact .inr rfl
  · exact .inl ⟨‹_›, rfl⟩

/-- What the stretch of a teardown behind a wait does. -/
inductive Resumes (d : Devices) : TeardownPc → TeardownOutcome → Devices × TeardownNext → Prop
  | raise {pc : TeardownPc} {o : TeardownOutcome} (h : pc.raises o = true) :
      Resumes d pc o (d, .raised)
  | synced {e : Nat} {o : AdbOutcome} (h : o ≠ .spawnError) :
      Resumes d (.sync e) (.adb o) (d.stopKill e)
  | accepted {e : Nat} {o : AdbOutcome} (h : o.emuKill = some true) :
      Resumes d (.emuKill e) (.adb o) (d, .wait (.killWait e))
  | refused {e : Nat} {o : AdbOutcome} (h : o.emuKill = some false) :
      Resumes d (.emuKill e) (.adb o) (d.stopTerm e)
  | term {e : Nat} (h : d.exited e ≠ true) : Resumes d (.killWait e) .waited (d.stopTerm e)
  | kill {e : Nat} (h : d.exited e ≠ true) :
      Resumes d (.termWait e) .waited (d.signal e .sigkill, .wait (.lastWait e))
  /-- The process was seen to exit. -/
  | gone {pc : TeardownPc} {e : Nat} (hstop : pc.stops = some e) (h : d.exited e = true) :
      Resumes d pc .waited d.teardownGrpc
  /-- Nothing more is done about the process. -/
  | outlived {e : Nat} : Resumes d (.lastWait e) .waited d.teardownGrpc
  | grpc {g : Nat} (h : d.grpc = some g) : Resumes d .grpcClose .closed
      { d with clients := d.clients.modify g fun _ => false, grpc := none }.teardownXvnc
  | noGrpc (h : d.grpc = none) : Resumes d .grpcClose .closed d.teardownXvnc
  | xvnc {x : Nat} (h : d.xvnc = some x) : Resumes d .xvncStop .closed
      { d with xservers := d.xservers.modify x fun _ => false, xvnc := none }.teardownLast
  | noXvnc (h : d.xvnc = none) : Resumes d .xvncStop .closed d.teardownLast

/-- Every outcome of a wait leads to one of the parts, or ends the teardown. -/
theorem resumes {pc : TeardownPc} {o : TeardownOutcome} {r : Devices × TeardownNext}
    (h : d.teardownResume pc o = some r) : d.Resumes pc o r := by
  unfold teardownResume at h
  split at h
  · cases h
    split
    · exact .raise (by simp [TeardownPc.raises, *])
    · exact .synced ‹_›
  · split at h
    · cases h; exact .raise (by simp [TeardownPc.raises, *])
    · cases h; exact .accepted ‹_›
    · cases h; exact .refused ‹_›
  · cases h
    split
    · exact .gone rfl ‹_›
    · exact .term ‹_›
  · cases h
    split
    · exact .gone rfl ‹_›
    · exact .kill ‹_›
  · cases h; exact .outlived
  · split at h
    · cases h; exact .grpc ‹_›
    · cases h; exact .noGrpc ‹_›
  · split at h
    · cases h; exact .xvnc ‹_›
    · cases h; exact .noXvnc ‹_›
  · cases h; exact .raise rfl
  · cases h; exact .raise rfl
  · cases h

/-- After the first stretch. -/
theorem teardown_kept (d : Devices) : d.Kept d.teardown.1 := by
  obtain ⟨-, heq⟩ | ⟨e, d', -, rfl, heq | heq⟩ := d.teardown_cases
  · rw [heq]
    exact teardownGrpc_kept d
  · rw [heq]
    exact .update Emu.Kept.stop d e
  · rw [heq]
    exact (Kept.update Emu.Kept.stop d e).trans (stopKill_kept _ e)

/-- After a stretch behind a wait. -/
theorem teardownResume_kept {pc : TeardownPc} {o : TeardownOutcome}
    {r : Devices × TeardownNext} (h : d.teardownResume pc o = some r) : d.Kept r.1 := by
  cases resumes h with
  | raise | accepted => exact .refl d
  | synced => exact stopKill_kept d _
  | refused | term => exact stopTerm_kept d _
  | kill => exact signal_kept d _ _
  | gone | outlived => exact teardownGrpc_kept d
  | grpc =>
    refine Kept.trans ?_ (teardownXvnc_kept _)
    exact .of_eq rfl rfl
  | noGrpc => exact teardownXvnc_kept d
  | xvnc =>
    refine Kept.trans ?_ (teardownLast_kept _)
    exact .of_eq rfl rfl
  | noXvnc => exact teardownLast_kept d

/-- The emulator that a teardown works on is marked as stopping. -/
theorem teardown_stopping (hm : d.teardown.1.current = some m) : m.stopping = true := by
  have hmark : ∀ e, d.emu = some e → ∀ d' : Devices,
      (d.updateEmu e ({ · with stopping := true })).Kept d' → d'.current = some m →
        m.stopping = true := by
    intro e he d' hk hm'
    obtain ⟨u, hu, hk⟩ := hk.current hm'
    obtain ⟨v, -, ⟨-, rfl⟩ | ⟨hne, -⟩⟩ := current_updateEmu hu
    · exact hk.stopping rfl
    · exact absurd he hne
  obtain ⟨hnone, heq⟩ | ⟨e, d', he, rfl, heq | heq⟩ := d.teardown_cases
  · rw [heq] at hm
    obtain ⟨u, hu, -⟩ := (teardownGrpc_kept d).current hm
    rw [current_none hnone] at hu
    cases hu
  · rw [heq] at hm
    exact hmark e he _ (.refl _) hm
  · rw [heq] at hm
    exact hmark e he _ (stopKill_kept _ e) hm

/-- A stretch of a teardown leaves the current emulator in its field, or is the last one and
has marked it as torn down. -/
def Torn (d : Devices) (r : Devices × TeardownNext) : Prop :=
  r.2 ≠ .done ∧ r.1.emu = d.emu ∨
    r.2 = .done ∧ ∀ e m', d.emu = some e → r.1.emus[e]? = some m' → m'.torn = true

/-- A stretch that ends in a wait or an exception. -/
theorem Torn.of_ne {r : Devices × TeardownNext} (hr : r.2 ≠ .done) (he : r.1.emu = d.emu) :
    d.Torn r := .inl ⟨hr, he⟩

/-- The same of a later part of it, that of the devices `d'`. -/
theorem Torn.of_emu {r : Devices × TeardownNext} (he : d'.emu = d.emu) (h : d'.Torn r) :
    d.Torn r := by
  unfold Torn at h ⊢
  rwa [he] at h

/-- The last part marks the emulator. -/
theorem teardownLast_torn (d : Devices) : d.Torn d.teardownLast := by
  unfold teardownLast
  split
  · rename_i e he
    refine .inr ⟨rfl, fun i m' hi hm' => ?_⟩
    cases he.symm.trans hi
    obtain ⟨m, -, ⟨-, rfl⟩ | ⟨hne, -⟩⟩ := Table.cases_modify hm'
    · rfl
    · exact absurd rfl hne
  · rename_i hnone
    exact .inr ⟨rfl, fun e _ he => by rw [hnone] at he; cases he⟩

/-- A wait for Xvnc leaves the emulator in its field. -/
theorem teardownXvnc_torn (d : Devices) : d.Torn d.teardownXvnc := by
  unfold teardownXvnc
  split
  · exact .of_ne (by simp) rfl
  · exact teardownLast_torn d

/-- So does a wait for the gRPC channel. -/
theorem teardownGrpc_torn (d : Devices) : d.Torn d.teardownGrpc := by
  obtain ⟨d', hd, heq | ⟨-, heq⟩⟩ := d.teardownGrpc_cases
  · rw [heq]
    exact .of_ne (by simp) hd.emu
  · rw [heq]
    exact (teardownXvnc_torn d').of_emu hd.emu

/-- So does the wait behind SIGTERM. -/
theorem stopTerm_torn (d : Devices) (e : Nat) : d.Torn (d.stopTerm e) := by
  unfold stopTerm
  split <;> exact .of_ne (by simp) rfl

/-- So do the waits of `emu_kill`. -/
theorem stopKill_torn (d : Devices) (e : Nat) : d.Torn (d.stopKill e) := by
  unfold stopKill
  split
  · exact .of_ne (by simp) rfl
  · exact stopTerm_torn d e

/-- The first stretch. -/
theorem teardown_torn (d : Devices) : d.Torn d.teardown := by
  obtain ⟨-, heq⟩ | ⟨e, d', -, rfl, heq | heq⟩ := d.teardown_cases
  · rw [heq]
    exact teardownGrpc_torn d
  · rw [heq]
    exact .of_ne (by simp) rfl
  · rw [heq]
    exact (stopKill_torn _ e).of_emu rfl

/-- A stretch behind a wait. -/
theorem teardownResume_torn {pc : TeardownPc} {o : TeardownOutcome}
    {r : Devices × TeardownNext} (h : d.teardownResume pc o = some r) : d.Torn r := by
  cases resumes h with
  | raise | accepted | kill => exact .of_ne (by simp) rfl
  | synced => exact stopKill_torn d _
  | refused | term => exact stopTerm_torn d _
  | gone | outlived => exact teardownGrpc_torn d
  | grpc => exact (teardownXvnc_torn _).of_emu rfl
  | noGrpc => exact teardownXvnc_torn d
  | xvnc => exact (teardownLast_torn _).of_emu rfl
  | noXvnc => exact teardownLast_torn d

/-! ### Exceptions -/

/-- The last part raises nothing. -/
private theorem teardownLast_raised (d : Devices) : d.teardownLast.2 ≠ .raised := by
  unfold teardownLast
  split <;> simp

/-- Nor does the part at Xvnc. -/
private theorem teardownXvnc_raised (d : Devices) : d.teardownXvnc.2 ≠ .raised := by
  unfold teardownXvnc
  split
  · simp
  · exact teardownLast_raised d

/-- Nor does the part at the gRPC channel. -/
private theorem teardownGrpc_raised (d : Devices) : d.teardownGrpc.2 ≠ .raised := by
  obtain ⟨d', -, heq | ⟨-, heq⟩⟩ := d.teardownGrpc_cases
  · simp [heq]
  · rw [heq]
    exact teardownXvnc_raised d'

/-- Nor does the part at SIGTERM. -/
private theorem stopTerm_raised (d : Devices) (e : Nat) : (d.stopTerm e).2 ≠ .raised := by
  unfold stopTerm
  split <;> simp

/-- Nor does the part at `emu_kill`. -/
private theorem stopKill_raised (d : Devices) (e : Nat) : (d.stopKill e).2 ≠ .raised := by
  unfold stopKill
  split
  · simp
  · exact stopTerm_raised d e

/-- The first stretch of a teardown does not raise. -/
theorem teardown_raised (d : Devices) : d.teardown.2 ≠ .raised := by
  obtain ⟨-, heq⟩ | ⟨e, d', -, rfl, heq | heq⟩ := d.teardown_cases
  · rw [heq]
    exact teardownGrpc_raised d
  · rw [heq]
    simp
  · rw [heq]
    exact stopKill_raised _ e

/-- A later stretch raises only at an outcome that is an exception. -/
theorem teardownResume_raised {pc : TeardownPc} {o : TeardownOutcome}
    {r : Devices × TeardownNext} (h : d.teardownResume pc o = some r)
    (hr : pc.raises o = false) : r.2 ≠ .raised := by
  cases resumes h with
  | raise hraise => cases hr.symm.trans hraise
  | accepted | kill => simp
  | synced => exact stopKill_raised d _
  | refused | term => exact stopTerm_raised d _
  | gone | outlived => exact teardownGrpc_raised d
  | grpc | noGrpc => exact teardownXvnc_raised _
  | xvnc | noXvnc => exact teardownLast_raised _

/-! ### What is closed at the end of a stretch -/

/-- What is closed when a stretch of a teardown ends in `next`. -/
def Closing (d : Devices) : TeardownNext → Prop
  | .wait .xvncStop => d.grpc = none
  | .wait _ => True
  | .done => d.emu = none ∧ d.grpc = none ∧ d.xvnc = none
  | .raised => True

/-- All is closed at the end of the last part. -/
theorem teardownLast_closing (hgrpc : d.grpc = none) (hxvnc : d.xvnc = none) :
    d.teardownLast.1.Closing d.teardownLast.2 := by
  unfold teardownLast
  split
  · exact ⟨rfl, hgrpc, hxvnc⟩
  · exact ⟨‹_›, hgrpc, hxvnc⟩

/-- The channel is closed in front of the part at Xvnc. -/
theorem teardownXvnc_closing (hgrpc : d.grpc = none) :
    d.teardownXvnc.1.Closing d.teardownXvnc.2 := by
  unfold teardownXvnc
  split
  · exact hgrpc
  · exact teardownLast_closing hgrpc ‹_›

/-- Nothing need be closed in front of the part at the gRPC channel. -/
theorem teardownGrpc_closing (d : Devices) : d.teardownGrpc.1.Closing d.teardownGrpc.2 := by
  obtain ⟨d', -, heq | ⟨hgrpc, heq⟩⟩ := d.teardownGrpc_cases
  · rw [heq]
    trivial
  · rw [heq]
    exact teardownXvnc_closing hgrpc

/-- Nor in front of the part at SIGTERM. -/
theorem stopTerm_closing (d : Devices) (e : Nat) :
    (d.stopTerm e).1.Closing (d.stopTerm e).2 := by
  unfold stopTerm
  split <;> trivial

/-- Nor in front of the part at `emu_kill`. -/
theorem stopKill_closing (d : Devices) (e : Nat) :
    (d.stopKill e).1.Closing (d.stopKill e).2 := by
  unfold stopKill
  split
  · trivial
  · exact stopTerm_closing d e

/-- What is closed when the first stretch ends. -/
theorem teardown_closing (d : Devices) : d.teardown.1.Closing d.teardown.2 := by
  obtain ⟨-, heq⟩ | ⟨e, d', -, rfl, heq | heq⟩ := d.teardown_cases
  · rw [heq]
    exact teardownGrpc_closing d
  · rw [heq]
    trivial
  · rw [heq]
    exact stopKill_closing _ e

/-- What is closed when a stretch behind a wait ends. -/
theorem teardownResume_closing {pc : TeardownPc} {o : TeardownOutcome}
    {r : Devices × TeardownNext} (h : d.teardownResume pc o = some r)
    (hd : d.Closing (.wait pc)) : r.1.Closing r.2 := by
  cases resumes h with
  | raise | accepted | kill => trivial
  | synced => exact stopKill_closing d _
  | refused | term => exact stopTerm_closing d _
  | gone | outlived => exact teardownGrpc_closing d
  | grpc => exact teardownXvnc_closing rfl
  | noGrpc hgrpc => exact teardownXvnc_closing hgrpc
  | xvnc => exact teardownLast_closing hd rfl
  | noXvnc hxvnc => exact teardownLast_closing hd hxvnc

/-! ### What is open is held -/

/-- What is not closed yet is held by a field. -/
structure Held (d : Devices) : Prop where
  /-- An emulator without a complete teardown is the current one. -/
  emus : ∀ (e : Nat) (m : Emu), d.emus[e]? = some m → m.torn = false → d.emu = some e
  clients : ∀ g : Nat, d.clients[g]? = some true → d.grpc = some g
  xservers : ∀ x : Nat, d.xservers[x]? = some true → d.xvnc = some x

namespace Held

/-- An update that leaves the marks alone. -/
theorem update {f : Emu → Emu} (hf : ∀ m : Emu, (f m).torn = m.torn) (h : d.Held) (e : Nat) :
    (d.updateEmu e f).Held where
  emus i m' hm' ht := by
    obtain ⟨m, hm, ⟨-, rfl⟩ | ⟨-, rfl⟩⟩ := Table.cases_modify hm'
    · exact h.emus i m hm (hf m ▸ ht)
    · exact h.emus i m' hm ht
  clients := h.clients
  xservers := h.xservers

/-- The mark of a watcher. -/
theorem mark (h : d.Held) (e : Nat) (w : Watch) :
    (d.updateEmu e ({ · with watch := w })).Held :=
  update (f := ({ · with watch := w })) (fun _ => rfl) h e

/-- A step of an emulator's own tasks. -/
theorem set (h : d.Held) (hm : d.emus[e]? = some m) (hm' : m'.torn = m.torn) :
    ({ d with emus := d.emus.set e m' } : Devices).Held where
  emus i u hu ht := by
    rcases Table.cases_set hu with ⟨rfl, rfl⟩ | ⟨-, hu⟩
    · exact h.emus e m hm (hm' ▸ ht)
    · exact h.emus i u hu ht
  clients := h.clients
  xservers := h.xservers

/-- The new emulator is the current one. -/
theorem launched (h : d.Held) (hnone : d.emu = none) (gen : Nat) : (d.launched gen).Held where
  emus i m hm ht := by
    rcases Table.cases_append hm with hm | ⟨rfl, -⟩
    · rw [h.emus i m hm ht] at hnone; cases hnone
    · rfl
  clients := h.clients
  xservers := h.xservers

/-- The new channel is the one in its field. -/
theorem connected (h : d.Held) (hnone : d.grpc = none) : d.connected.Held where
  emus := h.emus
  clients g hg := by
    rcases Table.cases_append hg with hg | ⟨rfl, -⟩
    · rw [h.clients g hg] at hnone; cases hnone
    · rfl
  xservers := h.xservers

/-- So is the new Xvnc. -/
theorem gpuReady (h : d.Held) (hnone : d.xvnc = none) (xvnc : Bool) : (d.gpuReady xvnc).Held := by
  cases xvnc with
  | false => exact ⟨h.emus, h.clients, fun x hx => (h.xservers x hx).symm ▸ hnone.symm ▸ rfl⟩
  | true =>
    refine ⟨h.emus, h.clients, fun x hx => ?_⟩
    rcases Table.cases_append hx with hx | ⟨rfl, -⟩
    · rw [h.xservers x hx] at hnone; cases hnone
    · rfl

/-- A cleared field holds nothing, and nothing that it held is open. -/
private theorem closed {xs : List Bool} {i : Nat}
    (h : ∀ j : Nat, xs[j]? = some true → some i = some j) (j : Nat) :
    (xs.modify i fun _ => false)[j]? ≠ some true := by
  intro hj
  obtain ⟨b, hb, ⟨-, hf⟩ | ⟨hne, rfl⟩⟩ := Table.cases_modify hj
  · cases hf
  · exact hne (Option.some.inj (h j hb))

/-- The last part forgets the emulator once it is marked. -/
theorem teardownLast (h : d.Held) : d.teardownLast.1.Held := by
  unfold Devices.teardownLast
  split
  · rename_i e he
    refine ⟨fun i m hm ht => ?_, h.clients, h.xservers⟩
    obtain ⟨u, hu, ⟨-, rfl⟩ | ⟨hne, rfl⟩⟩ := Table.cases_modify hm
    · cases ht
    · exact absurd (Option.some.inj (he.symm.trans (h.emus i m hu ht))) hne
  · exact h

/-- The part at Xvnc forgets Xvnc when it stops it. -/
theorem teardownXvnc (h : d.Held) : d.teardownXvnc.1.Held := by
  unfold Devices.teardownXvnc
  split
  · exact h
  · exact h.teardownLast

/-- Cancelling the watchers opens nothing. -/
theorem unwatched (h : d.Held) (hd : d.Unwatched d') : d'.Held := by
  cases hd with
  | refl => exact h
  | cancel w =>
    have hu : (d.updateEmu w cancelWatch).Held :=
      h.update (fun m => by unfold cancelWatch; split <;> rfl) w
    exact ⟨hu.emus, hu.clients, hu.xservers⟩

/-- The part at the gRPC channel forgets the channel when it closes it. -/
theorem teardownGrpc (h : d.Held) : d.teardownGrpc.1.Held := by
  obtain ⟨d', hd, heq | ⟨-, heq⟩⟩ := d.teardownGrpc_cases
  · rw [heq]
    exact h.unwatched hd
  · rw [heq]
    exact (h.unwatched hd).teardownXvnc

/-- A signal opens nothing. -/
theorem signal (h : d.Held) (e : Nat) (s : Signal) : (d.signal e s).Held :=
  h.update (fun m => by split <;> rfl) e

/-- The part at SIGTERM. -/
theorem stopTerm (h : d.Held) (e : Nat) : (d.stopTerm e).1.Held := by
  unfold Devices.stopTerm
  split
  · exact h.signal e _
  · exact h

/-- The part at `emu_kill`. -/
theorem stopKill (h : d.Held) (e : Nat) : (d.stopKill e).1.Held := by
  unfold Devices.stopKill
  split
  · exact h.signal e _
  · exact h.stopTerm e

/-- The first stretch. -/
theorem teardown (h : d.Held) : d.teardown.1.Held := by
  obtain ⟨-, heq⟩ | ⟨e, d', -, hd', heq⟩ := d.teardown_cases
  · rw [heq]
    exact h.teardownGrpc
  · have hu : d'.Held := hd' ▸ update (f := ({ · with stopping := true })) (fun _ => rfl) h e
    rcases heq with heq | heq
    · rw [heq]
      exact hu
    · rw [heq]
      exact hu.stopKill e

/-- A stretch behind a wait. -/
theorem teardownResume {pc : TeardownPc} {o : TeardownOutcome} {r : Devices × TeardownNext}
    (h : d.Held) (hr : d.teardownResume pc o = some r) : r.1.Held := by
  cases resumes hr with
  | raise | accepted => exact h
  | synced => exact h.stopKill _
  | refused | term => exact h.stopTerm _
  | kill => exact h.signal _ _
  | gone | outlived => exact h.teardownGrpc
  | grpc hg =>
    refine teardownXvnc ⟨h.emus, fun j hj => absurd hj ?_, h.xservers⟩
    exact closed (fun j hj => hg ▸ h.clients j hj) j
  | noGrpc => exact h.teardownXvnc
  | xvnc hx =>
    refine teardownLast ⟨h.emus, h.clients, fun j hj => absurd hj ?_⟩
    exact closed (fun j hj => hx ▸ h.xservers j hj) j
  | noXvnc => exact h.teardownLast

end Held

/-! ### The emulator that `Emulator.stop` works on -/

/-- A stretch that ends inside `Emulator.stop` works on the current emulator. -/
def Inside (d : Devices) : TeardownNext → Prop
  | .wait pc => ∀ e, pc.stops = some e → d.emu = some e
  | .done | .raised => True

/-- The last part is behind `stop`. -/
theorem teardownLast_inside (d : Devices) : d.teardownLast.1.Inside d.teardownLast.2 := by
  unfold teardownLast
  split <;> trivial

/-- So is the part at Xvnc. -/
theorem teardownXvnc_inside (d : Devices) : d.teardownXvnc.1.Inside d.teardownXvnc.2 := by
  unfold teardownXvnc
  split
  · rintro e ⟨⟩
  · exact teardownLast_inside d

/-- So is the part at the gRPC channel. -/
theorem teardownGrpc_inside (d : Devices) : d.teardownGrpc.1.Inside d.teardownGrpc.2 := by
  obtain ⟨d', -, heq | ⟨-, heq⟩⟩ := d.teardownGrpc_cases
  · rw [heq]
    rintro e ⟨⟩
  · rw [heq]
    exact teardownXvnc_inside d'

/-- `stop` goes on with the emulator that it began with. -/
theorem stopTerm_inside (h : d.emu = some e) : (d.stopTerm e).1.Inside (d.stopTerm e).2 := by
  unfold stopTerm
  split
  · rintro i ⟨⟩; exact h
  · rintro i ⟨⟩; exact h

/-- So it does behind `emu_kill`. -/
theorem stopKill_inside (h : d.emu = some e) : (d.stopKill e).1.Inside (d.stopKill e).2 := by
  unfold stopKill
  split
  · rintro i ⟨⟩; exact h
  · exact stopTerm_inside h

/-- `stop` begins with the current emulator. -/
theorem teardown_inside (d : Devices) : d.teardown.1.Inside d.teardown.2 := by
  obtain ⟨-, heq⟩ | ⟨e, d', he, rfl, heq | heq⟩ := d.teardown_cases
  · rw [heq]
    exact teardownGrpc_inside d
  · rw [heq]
    rintro i ⟨⟩
    exact he
  · rw [heq]
    exact stopKill_inside he

/-- A stretch behind a wait goes on with it. -/
theorem teardownResume_inside {pc : TeardownPc} {o : TeardownOutcome}
    {r : Devices × TeardownNext} (h : d.teardownResume pc o = some r)
    (hd : d.Inside (.wait pc)) : r.1.Inside r.2 := by
  cases resumes h with
  | raise => trivial
  | synced => exact stopKill_inside (hd _ rfl)
  | refused | term => exact stopTerm_inside (hd _ rfl)
  | accepted | kill =>
    rintro i ⟨⟩
    exact hd _ rfl
  | gone | outlived => exact teardownGrpc_inside d
  | grpc | noGrpc => exact teardownXvnc_inside _
  | xvnc | noXvnc => exact teardownLast_inside _

end Devices

end Supervisor

end AndroidAppliance
