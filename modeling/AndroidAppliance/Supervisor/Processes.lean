import AndroidAppliance.Supervisor.Resources

/-!
# The processes of the emulators

Which emulators run, in runs in which no teardown gives up on an emulator that is still
alive (`TeardownsEnd`): only the current one can, and none does before a launch and in
STOPPED (`AliveOk`). The table of the emulators only grows, and only by a launch
(`Act.later`).
-/

namespace AndroidAppliance

namespace Supervisor

/-! ### Teardowns that end their emulator -/

/-- The emulator whose `Emulator.stop` is in progress after the stretch. -/
def TeardownNext.stops : TeardownNext → Option Nat
  | .wait pc => pc.stops
  | .done | .raised => none

/-- Whether the event leaves `Emulator.stop` while the process runs. -/
def Lifecycle.abandons (l : Lifecycle) (ev : Event) : Bool :=
  match l.teardownPc ev, ev.teardownOutcome with
  | some pc, some o =>
    match pc.stops, l.dev.teardownResume pc o with
    | some e, some r => r.2.stops ≠ some e && r.1.alive e
    | _, _ => false
  | _, _ => false

/-- The condition on a run: a teardown that is not cancelled ends the emulator it is given. -/
def TeardownsEnd (l : Lifecycle) (ev : Event) : Prop := l.abandons ev = false

instance (l : Lifecycle) (ev : Event) : Decidable (TeardownsEnd l ev) :=
  inferInstanceAs (Decidable (_ = _))

/-- A teardown that ends well. -/
theorem TeardownsEnd.ends {l : Lifecycle} {ev : Event} {pc : TeardownPc} {o : TeardownOutcome}
    {r : Devices × TeardownNext} {e : Nat} (h : TeardownsEnd l ev)
    (hpc : l.teardownPc ev = some pc) (ho : ev.teardownOutcome = some o)
    (he : pc.stops = some e) (hr : l.dev.teardownResume pc o = some r)
    (hleft : r.2.stops = none) : r.1.alive e = false := by
  simpa [TeardownsEnd, Lifecycle.abandons, hpc, ho, he, hr, hleft] using h

/-! ### Who is alive -/

/-- Only the current emulator can be alive. -/
def Devices.Sole (d : Devices) : Prop := ∀ e : Nat, d.alive e = true → d.emu = some e

/-- Without a current emulator none is alive. -/
theorem Devices.Sole.dead {d : Devices} (h : d.Sole) (hnone : d.emu = none) : d.Dead := by
  intro e
  by_contra halive
  rw [h e (by simpa using halive)] at hnone
  cases hnone

/-- What is known of the processes in a stage. -/
def AliveIn (d : Devices) : Stage → Prop
  | .stopped => d.Dead
  | .booting t => t.pc.hasEmu = false → d.Dead
  | .stopping t => ∀ pc, t.pc = .teardown pc →
      d.Inside (.wait pc) ∧ (pc.stops = none → d.Dead)
  | .orphaned | .running => True

/-- The invariant of the processes. -/
structure AliveOk (d : Devices) (st : Stage) : Prop where
  sole : d.Sole
  stage : AliveIn d st

/-- A stretch of a teardown after which nothing is alive, or `Emulator.stop` goes on. -/
structure Devices.Ends (r : Devices × TeardownNext) : Prop where
  inside : r.1.Inside r.2
  dead : r.2.stops = none → r.1.Dead
  sole : r.1.Sole

/-- The parts of `Devices.Ends` that follow from the rest. -/
theorem Devices.Ends.of_dead {d : Devices} {r : Devices × TeardownNext} (hsole : d.Sole)
    (hkept : d.Kept r.1) (htorn : d.Torn r) (hinside : r.1.Inside r.2)
    (hdead : r.2.stops = none → r.1.Dead) : Devices.Ends r := by
  refine ⟨hinside, hdead, fun e he => ?_⟩
  rcases htorn with ⟨-, hemu⟩ | ⟨hdone, -⟩
  · rw [hemu]
    exact hsole e (hkept.alive e ▸ he)
  · have := hdead (by rw [hdone]; rfl) e
    rw [he] at this
    cases this

/-- The first stretch ends with a dead emulator, or waits for it. -/
theorem Devices.Sole.teardown {d : Devices} (h : d.Sole) : Devices.Ends d.teardown := by
  refine .of_dead h (Devices.teardown_kept d) (Devices.teardown_torn d)
    (Devices.teardown_inside d) fun hleft => ?_
  cases he : d.emu with
  | none => exact (Devices.teardown_kept d).dead (h.dead he)
  | some e =>
    have hstop : d.teardown.2.stops = some e := by
      simp only [Devices.teardown, he, Devices.stopEmulator, Devices.stopKill, Devices.stopTerm]
      split
      · rfl
      · rfl
    rw [hstop] at hleft
    cases hleft

/-- So does a stretch behind a wait. -/
theorem Devices.Sole.resume {d : Devices} {pc : TeardownPc} {o : TeardownOutcome}
    {r : Devices × TeardownNext} (h : d.Sole) (hin : d.Inside (.wait pc))
    (hdead : pc.stops = none → d.Dead) (hr : d.teardownResume pc o = some r)
    (hend : ∀ e, pc.stops = some e → r.2.stops = none → r.1.alive e = false) :
    Devices.Ends r := by
  have hkept := Devices.teardownResume_kept hr
  refine .of_dead h hkept (Devices.teardownResume_torn hr)
    (Devices.teardownResume_inside hr hin) fun hleft => ?_
  cases hstop : pc.stops with
  | none => exact hkept.dead (hdead hstop)
  | some e =>
    intro i
    by_contra halive
    have hi : d.emu = some i := h i (by rw [← hkept.alive]; simpa using halive)
    have he : d.emu = some e := hin e hstop
    cases he.symm.trans hi
    exact halive (hend e hstop hleft)

/-- So does the teardown of a stop. -/
theorem StopTeardown.ends {l : Lifecycle} {k : Nat} {t : Stop} {w : StopWake}
    {r : Devices × TeardownNext} (h : StopTeardown l.ctl l.dev t w r)
    (hk : l.ctl.stops[k]? = some t) (hok : TeardownsEnd l (.stop k w))
    (ha : AliveOk l.dev (.stopping t)) : Devices.Ends r := by
  cases h with
  | first => exact ha.sole.teardown
  | resume hpc hr =>
    obtain ⟨hin, hdead⟩ := ha.stage _ hpc
    exact ha.sole.resume hin hdead hr fun e he hleft =>
      hok.ends (by simp [Lifecycle.teardownPc, hk, hpc]) rfl he hr hleft

/-- Nothing is alive in a retry's teardown. -/
theorem BootTeardown.dead {c : Control} {d : Devices} {t : Boot} {w : Wake} {p : Prepared}
    {r : Devices × TeardownNext} (h : BootTeardown c d t w p r)
    (ha : AliveOk d (.booting t)) : r.1.Dead := by
  have hpc : t.pc.hasEmu = false := by cases h <;> simp [*, BootPc.hasEmu]
  exact h.kept.dead (ha.stage hpc)

/-- None is alive. -/
theorem Devices.Dead.sole {d : Devices} (h : d.Dead) : d.Sole := by
  intro e he
  rw [h e] at he
  cases he

/-- A new emulator is the only one. -/
theorem Devices.Dead.launched {d : Devices} (h : d.Dead) (gen : Nat) :
    (d.launched gen).Sole := by
  intro e he
  obtain ⟨m, hm, hcode⟩ := Devices.alive_eq_true.mp he
  rcases Table.cases_append hm with hm | ⟨rfl, -⟩
  · have := h e
    rw [Devices.alive_eq_true.mpr ⟨m, hm, hcode⟩] at this
    cases this
  · rfl

/-- A boot that goes on to its next wait. -/
theorem BootWaits.aliveOk {c : Control} {d dev : Devices} {t : Boot} {w : Wake} {pc : BootPc}
    (h : BootWaits c d t w pc dev) (ha : AliveOk d (.booting t)) :
    AliveOk dev (.booting { t with pc }) := by
  have hdead : ∀ pc', t.pc = pc' → pc'.hasEmu = false → d.Dead := by
    rintro pc' rfl hpc; exact ha.stage hpc
  have hold : ∀ {pc' : BootPc} {d' : Devices}, d.Dead → d'.emus = d.emus →
      AliveOk d' (.booting { t with pc := pc' }) := by
    intro pc' d' hd heq
    have hd' : d'.Dead := fun e => by
      have := hd e
      simpa only [Devices.alive, heq] using this
    exact ⟨hd'.sole, fun _ => hd'⟩
  cases h with
  | first hpc => exact hold (hdead _ hpc rfl) rfl
  | retry hpc => exact hold (hdead _ hpc rfl) rfl
  | tearing ht => exact ⟨(ht.dead ha).sole, fun _ => ht.dead ha⟩
  | torn ht _ => exact ⟨(ht.dead ha).sole, fun _ => ht.dead ha⟩
  | served hpc => exact hold (hdead .startServer hpc rfl) rfl
  | gpu hpc =>
    refine hold (hdead .setupGpu hpc rfl) ?_
    unfold Devices.gpuReady
    split <;> rfl
  | spawned hpc =>
    exact ⟨(hdead .spawning hpc rfl).launched _, fun hcon => by simp [BootPc.hasEmu] at hcon⟩
  | spawnedFound hpc =>
    exact ⟨(hdead .spawning hpc rfl).launched _, fun hcon => by simp [BootPc.hasEmu] at hcon⟩
  | found | answered | device | completed | command =>
    exact ⟨ha.sole, fun hcon => by simp [BootPc.hasEmu] at hcon⟩

/-- A boot that raises leaves only the current emulator alive. -/
theorem BootRaises.sole {c : Control} {d dev : Devices} {t : Boot} {w : Wake} {x : BootError}
    (h : BootRaises c d t w x dev) (ha : AliveOk d (.booting t)) : dev.Sole := by
  rcases h.teardown_or with ⟨p, next, ht⟩ | rfl
  · exact (ht.dead ha).sole
  · exact ha.sole

/-- A step of an emulator's own tasks brings nothing to life. -/
theorem EmuStep.alive {d : Devices} {e : Nat} {m m' : Emu} {ev : Event}
    (hs : EmuStep e m ev m') (hm : d.emus[e]? = some m) {i : Nat}
    (hi : ({ d with emus := d.emus.set e m' } : Devices).alive i = true) :
    d.alive i = true := by
  obtain ⟨u, hu, hcode⟩ := Devices.alive_eq_true.mp hi
  rcases Table.cases_set hu with ⟨rfl, rfl⟩ | ⟨-, hu⟩
  · refine Devices.alive_eq_true.mpr ⟨m, hm, ?_⟩
    by_contra hne
    cases hs <;> first | exact hne hcode | cases hcode
  · exact Devices.alive_eq_true.mpr ⟨u, hu, hcode⟩

/-- `AliveOk` survives what brings nothing to life and leaves the fields alone. -/
theorem AliveOk.mono {d d' : Devices} {st : Stage} (h : AliveOk d st) (hemu : d'.emu = d.emu)
    (halive : ∀ i, d'.alive i = true → d.alive i = true) : AliveOk d' st := by
  have hdead : d.Dead → d'.Dead := by
    intro hd i
    by_contra hi
    have := halive i (by simpa using hi)
    rw [hd i] at this
    cases this
  refine ⟨fun e he => hemu.trans (h.sole e (halive e he)), ?_⟩
  have hst := h.stage
  cases st with
  | stopped => exact hdead hst
  | booting t => exact fun hpc => hdead (hst hpc)
  | stopping t =>
    intro pc hpc
    obtain ⟨hin, hd⟩ := hst pc hpc
    exact ⟨fun e he => hemu.trans (hin e he), fun hs => hdead (hd hs)⟩
  | orphaned => trivial
  | running => trivial

/-- A watcher that moves on. -/
theorem AliveOk.mark {d : Devices} {st : Stage} (h : AliveOk d st) (e : Nat) (w : Watch) :
    AliveOk (d.updateEmu e ({ · with watch := w })) st := by
  refine h.mono rfl fun i hi => ?_
  rwa [Devices.alive_updateEmu (f := ({ · with watch := w })) (fun _ => rfl)] at hi

/-- Every act whose teardowns end well. -/
theorem Act.aliveOk {cfg : Config} {l l' : Lifecycle} {ev : Event}
    (h : AliveOk l.dev l.stage) (hok : TeardownsEnd l ev) (ha : Act cfg l ev l') :
    AliveOk l'.dev l'.stage := by
  have hcreated : ∀ {u : Stop}, u.pc = .created → AliveIn l'.dev (.stopping u) :=
    fun hpc pc hpc' => by rw [hpc] at hpc'; cases hpc'
  cases ha with
  | quiet hst hdev => rw [hst, hdev]; exact h
  | begin hst hst' hdev =>
    rw [hst', hdev]
    rw [hst] at h
    exact ⟨h.sole, fun _ => h.stage⟩
  | halts _ hst' hpc hdev =>
    rw [hst']
    refine ⟨?_, hcreated hpc⟩
    rcases hdev with hdev | ⟨e, _, hdev⟩
    · rw [hdev]; exact h.sole
    · rw [hdev]; exact (h.mark e _).sole
  | bootWaits _ hst hw hst' =>
    rw [hst']
    exact hw.aliveOk (hst ▸ h)
  | bootFails _ hst hr hst' hpc => rw [hst']; exact ⟨hr.sole (hst ▸ h), hcreated hpc⟩
  | bootDrops _ hst hr hst' _ => rw [hst']; exact ⟨hr.sole (hst ▸ h), trivial⟩
  | bootDone _ _ hst' hdev => rw [hst', hdev]; exact ⟨h.sole, trivial⟩
  | stopAwaits _ _ hst' hdev =>
    rw [hst', hdev]
    exact ⟨h.sole, fun pc hpc => (by cases hpc)⟩
  | stopWaits hk hst hs hst' =>
    obtain ⟨hin, hdead, hsole⟩ := hs.ends hk hok (hst ▸ h)
    rw [hst']
    refine ⟨hsole, ?_⟩
    rintro pc ⟨⟩
    exact ⟨hin, hdead⟩
  | stopDone hk hst hs hnext hst' =>
    obtain ⟨-, hdead, hsole⟩ := hs.ends hk hok (hst ▸ h)
    rw [hst']
    refine ⟨hsole, hdead ?_⟩
    rcases hnext with rfl | rfl <;> rfl
  | emu hst hm hs hdev =>
    rw [hst, hdev]
    exact h.mono rfl fun i hi => hs.alive hm hi
  | watchFailed hst _ _ _ hdev => rw [hst, hdev]; exact h.mark _ _
  | watchDropped hst _ _ _ hdev => rw [hst, hdev]; exact h.mark _ _
  | retries _ hm _ hcur hst' hdev hret =>
    rw [hst', hdev]
    have hd : l.dev.Dead := by
      intro i
      by_contra hi
      have hi' : l.dev.alive i = true := by simpa using hi
      obtain ⟨u, hu, hcode⟩ := Devices.alive_eq_true.mp hi'
      cases hcur.symm.trans (h.sole i hi')
      cases hm.symm.trans hu
      rw [hret.returncode] at hcode
      cases hcode
    have hstopped : AliveOk l.dev .stopped := ⟨h.sole, hd⟩
    exact ⟨(h.mark _ _).sole, fun _ => (hstopped.mark _ _).stage⟩

/-- **The invariant of the processes** in every state that is reached by teardowns that end
their emulator. -/
theorem aliveOk {cfg : Config} {l : Lifecycle}
    (h : (lifecycle cfg).ReachBy TeardownsEnd l) : AliveOk l.dev l.stage :=
  Machine.ReachBy.invariant_of (I := fun l => AliveOk l.dev l.stage)
    (fun _ hr => tasksOk hr.reachable)
    (by
      rintro _ ⟨_, _, _, _, _, rfl⟩
      have hd : (Lifecycle.new none none none 0 0).dev.Dead := fun _ => rfl
      exact ⟨hd.sole, hd⟩)
    (fun _ _ _ hJ hI hok hstep => ((step_move hstep).act hJ).aliveOk hI hok) h

/-! ### The table of the emulators -/

/-- The boots that launched the emulators, in the order of the launches. -/
def Devices.gens (d : Devices) : List Nat := d.emus.map (·.gen)

/-- A later record of an emulator. -/
structure Emu.Later (m m' : Emu) : Prop where
  gen : m'.gen = m.gen
  returncode : ∀ code, m.returncode = some code → m'.returncode = some code
  /-- The log of a process that is gone says nothing new. -/
  hangLine : m.returncode.isSome = true → m'.hangLine = m.hangLine
  torn : m.torn = true → m'.torn = true

/-- A record is one of the same moment. -/
theorem Emu.Later.refl (m : Emu) : m.Later m := ⟨rfl, fun _ => id, fun _ => rfl, id⟩

/-- The emulators of `d` at a later time. -/
def Devices.Later (d d' : Devices) : Prop :=
  ∀ (e : Nat) (m : Emu), d.emus[e]? = some m → ∃ m', d'.emus[e]? = some m' ∧ m.Later m'

namespace Devices

variable {d d' : Devices}

/-- The records are the same. -/
theorem Later.of_emus (h : d'.emus = d.emus) : d.Later d' :=
  fun _ m hm => ⟨m, h ▸ hm, .refl m⟩

/-- A teardown. -/
theorem Kept.later (h : d.Kept d') : d.Later d' := by
  intro e m hm
  have hlt : e < d'.emus.length := by
    rw [h.size]
    exact (List.getElem?_eq_some_iff.mp hm).1
  obtain ⟨u, hu, hk⟩ := h.emus e _ (List.getElem?_eq_getElem hlt)
  cases hm.symm.trans hu
  exact ⟨_, List.getElem?_eq_getElem hlt, hk.gen, fun code hc => hk.returncode.trans hc,
    fun _ => hk.hangLine, hk.torn⟩

/-- A watcher that moves on. -/
theorem Later.mark (d : Devices) (e : Nat) (w : Watch) :
    d.Later (d.updateEmu e ({ · with watch := w })) := by
  intro i m hm
  by_cases hei : e = i
  · subst hei
    exact ⟨_, Table.modify_self hm, rfl, fun _ => id, fun _ => rfl, id⟩
  · exact ⟨m, Table.modify_ne hei hm, .refl m⟩

/-- A new emulator. -/
theorem Later.launched (d : Devices) (gen : Nat) : d.Later (d.launched gen) :=
  fun _ m hm => ⟨m, Table.append_old hm, .refl m⟩

/-- The boots of the emulators, when none is new. -/
theorem Later.gens (h : d.Later d') (hsize : d'.emus.length = d.emus.length) :
    d'.gens = d.gens := by
  apply List.ext_getElem?
  intro e
  simp only [Devices.gens, List.getElem?_map]
  cases hm : d.emus[e]? with
  | none =>
    have hle : d'.emus.length ≤ e := hsize ▸ List.getElem?_eq_none_iff.mp hm
    rw [List.getElem?_eq_none_iff.mpr hle]
  | some m =>
    obtain ⟨m', hm', hl⟩ := h e m hm
    rw [hm']
    exact congrArg some hl.gen

/-- A teardown keeps where the emulators come from. -/
theorem Kept.gens (h : d.Kept d') : d'.gens = d.gens := h.later.gens h.size

/-- So does a watcher. -/
theorem gens_mark (d : Devices) (e : Nat) (w : Watch) :
    (d.updateEmu e ({ · with watch := w })).gens = d.gens :=
  (Later.mark d e w).gens (List.length_modify ..)

/-- The current emulator at a later time, when the field stays. -/
theorem Later.current {m : Emu} (h : d.Later d') (hemu : d'.emu = d.emu)
    (hm : d.current = some m) : ∃ m', d'.current = some m' ∧ m.Later m' := by
  obtain ⟨e, he, hm⟩ := Option.bind_eq_some_iff.mp hm
  obtain ⟨m', hm', hl⟩ := h e m hm
  exact ⟨m', current_of (hemu.trans he) hm', hl⟩

end Devices

/-- A step of an emulator. -/
theorem EmuStep.later {d : Devices} {e : Nat} {m m' : Emu} {ev : Event}
    (hs : EmuStep e m ev m') (hm : d.emus[e]? = some m) :
    d.Later { d with emus := d.emus.set e m' } := by
  intro i u hu
  by_cases hei : e = i
  · subst hei
    cases hm.symm.trans hu
    refine ⟨m', Table.set_self hm, ?_⟩
    cases hs with
    | exit hnone =>
      refine ⟨rfl, fun code hc => ?_, fun _ => rfl, id⟩
      rw [hnone] at hc
      cases hc
    | hang _ hnone =>
      refine ⟨rfl, fun _ => id, fun hc => ?_, id⟩
      rw [hnone] at hc
      cases hc
    | seen | logEnded | logKept | logFailed => exact ⟨rfl, fun _ => id, fun _ => rfl, id⟩
  · exact ⟨u, Table.set_ne hei hu, .refl u⟩

/-- The wait of a boot leaves the table alone, except for the spawn. -/
theorem BootWaits.later {c : Control} {d dev : Devices} {t : Boot} {w : Wake} {pc : BootPc}
    (h : BootWaits c d t w pc dev) : d.Later dev ∧
    ((t.pc = .spawning ∧ pc.hasEmu = true ∧ (∃ found, w = .spawned found) ∧
        dev.gens = d.gens ++ [t.gen] ∧ dev.current = some (.launched t.gen)) ∨
      t.pc ≠ .spawning ∧ dev.gens = d.gens) := by
  have hsame : ∀ {d' : Devices}, d'.emus = d.emus → t.pc ≠ .spawning →
      d.Later d' ∧ ((t.pc = .spawning ∧ pc.hasEmu = true ∧ (∃ found, w = .spawned found) ∧
        d'.gens = d.gens ++ [t.gen] ∧ d'.current = some (.launched t.gen)) ∨
      t.pc ≠ .spawning ∧ d'.gens = d.gens) := by
    intro d' he hne
    exact ⟨.of_emus he, .inr ⟨hne, by rw [Devices.gens, he, Devices.gens]⟩⟩
  have htear : ∀ {p : Prepared} {r : Devices × TeardownNext}, BootTeardown c d t w p r →
      t.pc ≠ .spawning := by
    intro p r ht
    cases ht <;> simp [*]
  have hnew : (d.launched t.gen).gens = d.gens ++ [t.gen] := by
    simp [Devices.gens, Devices.launched, Emu.launched]
  cases h with
  | tearing ht => exact ⟨ht.kept.later, .inr ⟨htear ht, ht.kept.gens⟩⟩
  | torn ht _ => exact ⟨ht.kept.later, .inr ⟨htear ht, ht.kept.gens⟩⟩
  | gpu hpc =>
    refine hsame ?_ (by simp [hpc])
    unfold Devices.gpuReady
    split <;> rfl
  | spawned hpc =>
    exact ⟨.launched d _, .inl ⟨hpc, rfl, ⟨_, rfl⟩, hnew, Devices.current_launched ..⟩⟩
  | spawnedFound hpc =>
    exact ⟨.launched d _, .inl ⟨hpc, rfl, ⟨_, rfl⟩, hnew, Devices.current_launched ..⟩⟩
  | first hpc | retry hpc | served hpc | found hpc | answered hpc | device hpc
  | completed hpc | command hpc => exact hsame rfl (by simp [hpc])

/-- A boot that raises keeps the devices. -/
theorem BootRaises.kept {c : Control} {d dev : Devices} {t : Boot} {w : Wake} {x : BootError}
    (h : BootRaises c d t w x dev) : d.Kept dev := by
  rcases h.teardown_or with ⟨p, next, ht⟩ | rfl
  · exact ht.kept
  · exact .refl _

/-- A step leaves the table alone, except for a launch. -/
theorem Act.later {cfg : Config} {l l' : Lifecycle} {ev : Event} (ha : Act cfg l ev l') :
    l.dev.Later l'.dev ∧
    ((∃ b t found, ev = .boot b (.spawned found) ∧ l.ctl.boots[b]? = some t ∧
        l.stage = .booting t ∧ t.pc = .spawning ∧ l'.dev.gens = l.dev.gens ++ [t.gen]) ∨
      l'.dev.gens = l.dev.gens) := by
  have hsame : l'.dev = l.dev → l.dev.Later l'.dev ∧ l'.dev.gens = l.dev.gens := by
    intro h
    rw [h]
    exact ⟨.of_emus rfl, rfl⟩
  have hkept : l.dev.Kept l'.dev → l.dev.Later l'.dev ∧ l'.dev.gens = l.dev.gens :=
    fun h => ⟨h.later, h.gens⟩
  have hmark : ∀ {e : Nat} {w : Watch}, l'.dev = l.dev.updateEmu e ({ · with watch := w }) →
      l.dev.Later l'.dev ∧ l'.dev.gens = l.dev.gens := by
    intro e w h
    rw [h]
    exact ⟨Devices.Later.mark l.dev e w, Devices.gens_mark ..⟩
  cases ha with
  | quiet _ hdev | begin _ _ hdev | bootDone _ _ _ hdev | stopAwaits _ _ _ hdev =>
    exact (hsame hdev).imp_right .inr
  | halts _ _ _ hdev =>
    rcases hdev with hdev | ⟨e, -, hdev⟩
    · exact (hsame hdev).imp_right .inr
    · exact (hmark hdev).imp_right .inr
  | bootWaits hb hst hw _ =>
    obtain ⟨hlater, ⟨hpc, -, ⟨found, rfl⟩, hgens, -⟩ | ⟨-, hgens⟩⟩ := hw.later
    · exact ⟨hlater, .inl ⟨_, _, found, rfl, hb, hst, hpc, hgens⟩⟩
    · exact ⟨hlater, .inr hgens⟩
  | bootFails _ _ hr _ _ => exact (hkept hr.kept).imp_right .inr
  | bootDrops _ _ hr _ _ => exact (hkept hr.kept).imp_right .inr
  | stopWaits _ _ hs _ => exact (hkept hs.kept).imp_right .inr
  | stopDone _ _ hs _ _ => exact (hkept hs.kept).imp_right .inr
  | emu _ hm hs hdev =>
    rw [hdev]
    exact ⟨hs.later hm, .inr ((hs.later hm).gens (List.length_set ..))⟩
  | watchFailed _ _ _ _ hdev => exact (hmark hdev).imp_right .inr
  | watchDropped _ _ _ _ hdev => exact (hmark hdev).imp_right .inr
  | retries _ _ _ _ _ hdev _ => exact (hmark hdev).imp_right .inr

/-! ### Facts about every record -/

/-- A fact about the record of an emulator that no step takes away: it survives a part of a
teardown, a step of the emulator's own tasks and a step of its watcher. -/
structure RecordFact (P : Emu → Prop) : Prop where
  new : ∀ gen, P (.launched gen)
  kept : ∀ m m', Emu.Kept m m' → P m → P m'
  step : ∀ e m ev m', EmuStep e m ev m' → P m → P m'
  mark : ∀ (m : Emu) (w : Watch), P m → P { m with watch := w }

namespace RecordFact

variable {P : Emu → Prop}

/-- A fact of the records is one behind a teardown. -/
theorem of_kept (hP : RecordFact P) {d d' : Devices} (h : d.Kept d') (hd : ∀ m ∈ d.emus, P m) :
    ∀ m ∈ d'.emus, P m := by
  intro m' hm'
  obtain ⟨e, he⟩ := List.mem_iff_getElem?.mp hm'
  obtain ⟨m, hm, hk⟩ := h.emus e m' he
  exact hP.kept m m' hk (hd m (List.mem_of_getElem? hm))

/-- It is one behind a watcher. -/
theorem of_mark (hP : RecordFact P) {d : Devices} (e : Nat) (w : Watch)
    (hd : ∀ m ∈ d.emus, P m) : ∀ m ∈ (d.updateEmu e ({ · with watch := w })).emus, P m := by
  intro m' hm'
  obtain ⟨i, hi⟩ := List.mem_iff_getElem?.mp hm'
  obtain ⟨m, hm, ⟨-, rfl⟩ | ⟨-, rfl⟩⟩ := Table.cases_modify hi
  · exact hP.mark m w (hd m (List.mem_of_getElem? hm))
  · exact hd m' (List.mem_of_getElem? hm)

/-- It is one with a new emulator. -/
theorem of_launched (hP : RecordFact P) {d : Devices} (gen : Nat) (hd : ∀ m ∈ d.emus, P m) :
    ∀ m ∈ (d.launched gen).emus, P m := by
  intro m hm
  rcases List.mem_append.mp hm with hm | hm
  · exact hd m hm
  · rw [List.mem_singleton.mp hm]
    exact hP.new gen

/-- It is one when a boot goes on. -/
theorem of_waits (hP : RecordFact P) {c : Control} {d dev : Devices} {t : Boot} {w : Wake}
    {pc : BootPc} (h : BootWaits c d t w pc dev) (hd : ∀ m ∈ d.emus, P m) :
    ∀ m ∈ dev.emus, P m := by
  cases h with
  | tearing ht => exact hP.of_kept ht.kept hd
  | torn ht _ => exact hP.of_kept ht.kept hd
  | gpu =>
    unfold Devices.gpuReady
    split <;> exact hd
  | spawned => exact hP.of_launched _ hd
  | spawnedFound => exact hP.of_launched _ hd
  | first | retry | served | found | answered | device | completed | command => exact hd

/-- It is one behind every act. -/
theorem of_act (hP : RecordFact P) {cfg : Config} {l l' : Lifecycle} {ev : Event}
    (ha : Act cfg l ev l') (hd : ∀ m ∈ l.dev.emus, P m) : ∀ m ∈ l'.dev.emus, P m := by
  cases ha with
  | quiet _ hdev | begin _ _ hdev | bootDone _ _ _ hdev | stopAwaits _ _ _ hdev =>
    rw [hdev]; exact hd
  | halts _ _ _ hdev =>
    rcases hdev with hdev | ⟨e, -, hdev⟩
    · rw [hdev]; exact hd
    · rw [hdev]; exact hP.of_mark e _ hd
  | bootWaits _ _ hw _ => exact hP.of_waits hw hd
  | bootFails _ _ hr _ _ => exact hP.of_kept hr.kept hd
  | bootDrops _ _ hr _ _ => exact hP.of_kept hr.kept hd
  | stopWaits _ _ hs _ => exact hP.of_kept hs.kept hd
  | stopDone _ _ hs _ _ => exact hP.of_kept hs.kept hd
  | emu _ hm hs hdev =>
    rw [hdev]
    intro m' hm'
    rcases List.mem_or_eq_of_mem_set hm' with hm' | rfl
    · exact hd m' hm'
    · exact hP.step _ _ _ _ hs (hd _ (List.mem_of_getElem? hm))
  | watchFailed _ _ _ _ hdev | watchDropped _ _ _ _ hdev | retries _ _ _ _ _ hdev _ =>
    rw [hdev]; exact hP.of_mark _ _ hd

/-- The fact holds of every emulator in every reachable state. -/
theorem reachable (hP : RecordFact P) {cfg : Config} {l : Lifecycle}
    (h : (lifecycle cfg).Reachable l) : ∀ m ∈ l.dev.emus, P m :=
  Machine.ReachBy.invariant_of (I := fun l => ∀ m ∈ l.dev.emus, P m)
    (fun _ hr => tasksOk hr) (by rintro _ ⟨_, _, _, _, _, rfl⟩ m hm; cases hm)
    (fun _ _ _ hJ hI _ hstep => hP.of_act ((step_move hstep).act hJ) hI) h

end RecordFact

/-- The `_exited` task is done only when the process is gone. -/
theorem exited_fact : RecordFact fun m => m.exited = true → m.returncode ≠ none where
  new _ h := by cases h
  kept m m' hk h he := by
    rw [hk.returncode]
    exact h (hk.exited ▸ he)
  step e m ev m' hs h he := by
    cases hs with
    | exit => exact Option.some_ne_none _
    | seen hcode => rw [hcode]; exact Option.some_ne_none _
    | logEnded | logKept | logFailed | hang => exact h he
  mark _ _ h := h

end Supervisor

end AndroidAppliance
