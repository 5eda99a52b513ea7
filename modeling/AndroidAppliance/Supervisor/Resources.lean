import AndroidAppliance.Supervisor.Devices
import AndroidAppliance.Supervisor.Stages

/-!
# The invariant of the resources

While no step of a teardown raises, what is open is held by a field (`Devices.Held`) and
the fields are `None` where they should be (`Tidy`): in STOPPED, and in a boot up to the
point at which that boot opens the resource itself.
-/

namespace AndroidAppliance

namespace Supervisor

/-! ### Teardowns that raise -/

/-- The wait of the teardown in which the event takes a step. -/
def Lifecycle.teardownPc (l : Lifecycle) : Event → Option TeardownPc
  | .boot b _ => (l.ctl.boots[b]?).bind fun t =>
    match t.pc with
    | .teardown pc => some pc
    | _ => none
  | .stop k _ => (l.ctl.stops[k]?).bind fun t =>
    match t.pc with
    | .teardown pc => some pc
    | _ => none
  | _ => none

/-- What the wait of a teardown gives back in the event. -/
def Event.teardownOutcome : Event → Option TeardownOutcome
  | .boot _ (.torn o _) => some o
  | .stop _ (.torn o) => some o
  | _ => none

/-- Whether the event is a step of a teardown that raises. -/
def Lifecycle.teardownRaises (l : Lifecycle) (ev : Event) : Bool :=
  match l.teardownPc ev, ev.teardownOutcome with
  | some pc, some o => pc.raises o
  | _, _ => false

/-- The condition on a run: no step of a teardown raises. -/
def TeardownsOk (l : Lifecycle) (ev : Event) : Prop := l.teardownRaises ev = false

instance (l : Lifecycle) (ev : Event) : Decidable (TeardownsOk l ev) :=
  inferInstanceAs (Decidable (_ = _))

/-- A wait of a teardown raises nothing. -/
theorem TeardownsOk.not_raises {l : Lifecycle} {ev : Event} {pc : TeardownPc}
    {o : TeardownOutcome} (h : TeardownsOk l ev) (hpc : l.teardownPc ev = some pc)
    (ho : ev.teardownOutcome = some o) : pc.raises o = false := by
  simpa only [TeardownsOk, Lifecycle.teardownRaises, hpc, ho] using h

/-- So the teardown of a boot ends. -/
theorem BootTeardown.not_raised {l : Lifecycle} {b : Nat} {t : Boot} {w : Wake} {p : Prepared}
    {r : Devices × TeardownNext} (h : BootTeardown l.ctl l.dev t w p r)
    (hb : l.ctl.boots[b]? = some t) (hok : TeardownsOk l (.boot b w)) : r.2 ≠ .raised := by
  cases h with
  | first => exact Devices.teardown_raised _
  | resume hpc hr =>
    exact Devices.teardownResume_raised hr
      (hok.not_raises (by simp [Lifecycle.teardownPc, hb, hpc]) rfl)

/-- So does the teardown of a stop. -/
theorem StopTeardown.not_raised {l : Lifecycle} {k : Nat} {t : Stop} {w : StopWake}
    {r : Devices × TeardownNext} (h : StopTeardown l.ctl l.dev t w r)
    (hk : l.ctl.stops[k]? = some t) (hok : TeardownsOk l (.stop k w)) : r.2 ≠ .raised := by
  cases h with
  | first => exact Devices.teardown_raised _
  | resume hpc hr =>
    exact Devices.teardownResume_raised hr
      (hok.not_raises (by simp [Lifecycle.teardownPc, hk, hpc]) rfl)

/-! ### Stretches of the tasks -/

/-- The teardown of a boot keeps the devices. -/
theorem BootTeardown.kept {c : Control} {d : Devices} {t : Boot} {w : Wake} {p : Prepared}
    {r : Devices × TeardownNext} (h : BootTeardown c d t w p r) : d.Kept r.1 := by
  cases h with
  | first => exact Devices.teardown_kept d
  | resume _ hr => exact Devices.teardownResume_kept hr

/-- So does that of a stop. -/
theorem StopTeardown.kept {c : Control} {d : Devices} {t : Stop} {w : StopWake}
    {r : Devices × TeardownNext} (h : StopTeardown c d t w r) : d.Kept r.1 := by
  cases h with
  | first => exact Devices.teardown_kept d
  | resume _ hr => exact Devices.teardownResume_kept hr

/-- The teardown of a boot leaves nothing open that is not held. -/
theorem BootTeardown.held {c : Control} {d : Devices} {t : Boot} {w : Wake} {p : Prepared}
    {r : Devices × TeardownNext} (h : BootTeardown c d t w p r) (hd : d.Held) : r.1.Held := by
  cases h with
  | first => exact hd.teardown
  | resume _ hr => exact hd.teardownResume hr

/-- Nor does that of a stop. -/
theorem StopTeardown.held {c : Control} {d : Devices} {t : Stop} {w : StopWake}
    {r : Devices × TeardownNext} (h : StopTeardown c d t w r) (hd : d.Held) : r.1.Held := by
  cases h with
  | first => exact hd.teardown
  | resume _ hr => exact hd.teardownResume hr

/-- A boot that raises does so in a teardown, or leaves the devices alone. -/
theorem BootRaises.teardown_or {c : Control} {d dev : Devices} {t : Boot} {w : Wake}
    {x : BootError} (h : BootRaises c d t w x dev) :
    (∃ p next, BootTeardown c d t w p (dev, next)) ∨ dev = d := by
  cases h with
  | prepare => exact .inr rfl
  | torn ht => exact .inl ⟨_, _, ht⟩
  | teardown ht => exact .inl ⟨_, _, ht⟩
  | launch => exact .inr rfl

/-! ### The current emulator exists -/

/-- A boot that goes on. -/
theorem BootWaits.known {c : Control} {d dev : Devices} {t : Boot} {w : Wake} {pc : BootPc}
    (h : BootWaits c d t w pc dev) (hd : d.Known) : dev.Known := by
  have hnew : (d.launched t.gen).Known := by
    intro e he
    have : d.emus.length = e := Option.some.inj he
    simp [Devices.launched, this]
  cases h with
  | tearing ht => exact ht.kept.known hd
  | torn ht _ => exact ht.kept.known hd
  | gpu =>
    unfold Devices.gpuReady
    split <;> exact hd
  | spawned => exact hnew
  | spawnedFound => exact hnew
  | first | retry | served | found | answered | device | completed | command => exact hd

/-- A boot that raises. -/
theorem BootRaises.known {c : Control} {d dev : Devices} {t : Boot} {w : Wake} {x : BootError}
    (h : BootRaises c d t w x dev) (hd : d.Known) : dev.Known := by
  rcases h.teardown_or with ⟨p, next, ht⟩ | rfl
  · exact ht.kept.known hd
  · exact hd

/-- A record is updated. -/
theorem Devices.Known.update {d : Devices} (h : d.Known) (e : Nat) (f : Emu → Emu) :
    (d.updateEmu e f).Known := by
  intro i hi
  have hlen : (d.updateEmu e f).emus.length = d.emus.length := List.length_modify ..
  rw [hlen]
  exact h i hi

/-- Every act. -/
theorem Act.known {cfg : Config} {l l' : Lifecycle} {ev : Event} (h : l.dev.Known)
    (ha : Act cfg l ev l') : l'.dev.Known := by
  cases ha with
  | quiet _ hdev | begin _ _ hdev | bootDone _ _ _ hdev | stopAwaits _ _ _ hdev =>
    rw [hdev]; exact h
  | halts _ _ _ hdev =>
    rcases hdev with hdev | ⟨e, _, hdev⟩
    · rw [hdev]; exact h
    · rw [hdev]; exact h.update e _
  | bootWaits _ _ hw _ => exact hw.known h
  | bootFails _ _ hr _ _ => exact hr.known h
  | bootDrops _ _ hr _ _ => exact hr.known h
  | stopWaits _ _ hs _ => exact hs.kept.known h
  | stopDone _ _ hs _ _ => exact hs.kept.known h
  | emu _ _ _ hdev =>
    rw [hdev]
    intro i hi
    rw [List.length_set]
    exact h i hi
  | watchFailed _ _ _ _ hdev | watchDropped _ _ _ _ hdev | retries _ _ _ _ _ hdev _ =>
    rw [hdev]; exact h.update _ _

/-- Every reachable state. -/
theorem known {cfg : Config} {l : Lifecycle} (h : (lifecycle cfg).Reachable l) : l.dev.Known :=
  Machine.ReachBy.invariant_of (I := fun l => l.dev.Known) (fun _ hr => tasksOk hr)
    (by rintro _ ⟨_, _, _, _, _, rfl⟩ e he; cases he)
    (fun _ _ _ hJ hI _ hstep => ((step_move hstep).act hJ).known hI) h

/-! ### Fields that are `None` -/

/-- The fields that are `None` in a stage. -/
def Tidy (d : Devices) : Stage → Prop
  | .stopped => d.Closing .done
  | .booting t =>
    match t.pc with
    | .created => t.previous = none → d.Closing .done
    | .teardown pc => d.Closing (.wait pc)
    | .startServer | .setupGpu => d.Closing .done
    | .spawning => d.emu = none ∧ d.grpc = none
    | .discovering => d.grpc = none
    | .awaitPrevious | .grpcStatus | .waitDevice | .booting | .settingUp _ | .ended => True
  | .stopping t => ∀ pc, t.pc = .teardown pc → d.Closing (.wait pc)
  | .orphaned | .running => True

/-- The fields, and what they hold. -/
structure ResourcesOk (d : Devices) (st : Stage) : Prop where
  tidy : Tidy d st
  held : d.Held

/-- `Tidy` looks at the fields only. -/
theorem Tidy.congr {d d' : Devices} {st : Stage} (h : Tidy d st) (hemu : d'.emu = d.emu)
    (hgrpc : d'.grpc = d.grpc) (hxvnc : d'.xvnc = d.xvnc) : Tidy d' st := by
  have hclose : ∀ next, d.Closing next → d'.Closing next := by
    intro next hn
    unfold Devices.Closing at hn ⊢
    split at hn
    · exact hgrpc.trans hn
    · trivial
    · rwa [hemu, hgrpc, hxvnc]
    · trivial
  cases st with
  | stopped => exact hclose .done h
  | booting t =>
    simp only [Tidy] at h ⊢
    split at h
    · exact fun hp => hclose .done (h hp)
    · exact hclose _ h
    · exact hclose .done h
    · exact hclose .done h
    · rwa [hemu, hgrpc]
    · rwa [hgrpc]
    all_goals trivial
  | stopping t => exact fun pc hpc => hclose _ (h pc hpc)
  | orphaned => trivial
  | running => trivial

/-- What is closed when the teardown of a boot stops. -/
theorem BootTeardown.closing {c : Control} {d : Devices} {t : Boot} {w : Wake} {p : Prepared}
    {r : Devices × TeardownNext} (h : BootTeardown c d t w p r) (hd : Tidy d (.booting t)) :
    r.1.Closing r.2 := by
  cases h with
  | first => exact Devices.teardown_closing d
  | resume hpc hr =>
    simp only [Tidy, hpc] at hd
    exact Devices.teardownResume_closing hr hd

/-- What is closed when that of a stop stops. -/
theorem StopTeardown.closing {c : Control} {d : Devices} {t : Stop} {w : StopWake}
    {r : Devices × TeardownNext} (h : StopTeardown c d t w r) (hd : Tidy d (.stopping t)) :
    r.1.Closing r.2 := by
  cases h with
  | first => exact Devices.teardown_closing d
  | resume hpc hr => exact Devices.teardownResume_closing hr (hd _ hpc)

/-- The fields at the next wait of a boot. -/
theorem BootWaits.resourcesOk {c : Control} {d dev : Devices} {t : Boot} {w : Wake}
    {pc : BootPc} (h : BootWaits c d t w pc dev) (hd : ResourcesOk d (.booting t)) :
    ResourcesOk dev (.booting { t with pc }) := by
  obtain ⟨htidy, hheld⟩ := hd
  have hpre : ∀ pc', t.pc = pc' → Tidy d (.booting { t with pc := pc' }) := by
    rintro pc' rfl; exact htidy
  cases h with
  | first hpc hprev _ => exact ⟨hpre _ hpc hprev, hheld⟩
  | retry => exact ⟨trivial, hheld⟩
  | tearing ht => exact ⟨ht.closing htidy, ht.held hheld⟩
  | torn ht _ => exact ⟨ht.closing htidy, ht.held hheld⟩
  | served hpc => exact ⟨hpre .startServer hpc, hheld⟩
  | @gpu _ xvnc hpc =>
    obtain ⟨hemu, hgrpc, hxvnc⟩ := hpre _ hpc
    refine ⟨?_, hheld.gpuReady hxvnc xvnc⟩
    cases xvnc <;> exact ⟨hemu, hgrpc⟩
  | spawned hpc =>
    obtain ⟨hemu, hgrpc⟩ := hpre _ hpc
    exact ⟨hgrpc, hheld.launched hemu _⟩
  | spawnedFound hpc =>
    obtain ⟨hemu, hgrpc⟩ := hpre _ hpc
    exact ⟨trivial, (hheld.launched hemu _).connected hgrpc⟩
  | found hpc => exact ⟨trivial, hheld.connected (hpre _ hpc)⟩
  | answered | device | completed | command => exact ⟨trivial, hheld⟩

/-- A boot that raises. -/
theorem BootRaises.held {c : Control} {d dev : Devices} {t : Boot} {w : Wake} {x : BootError}
    (h : BootRaises c d t w x dev) (hd : d.Held) : dev.Held := by
  rcases h.teardown_or with ⟨p, next, ht⟩ | rfl
  · exact ht.held hd
  · exact hd

/-- Every act. -/
theorem Act.resourcesOk {cfg : Config} {l l' : Lifecycle} {ev : Event} (ht : TasksOk l.ctl)
    (h : ResourcesOk l.dev l.stage) (hok : TeardownsOk l ev) (ha : Act cfg l ev l') :
    ResourcesOk l'.dev l'.stage := by
  have hcreated : ∀ {u : Stop}, u.pc = .created → Tidy l'.dev (.stopping u) :=
    fun hpc pc hpc' => by rw [hpc] at hpc'; cases hpc'
  have hmark : ∀ {e : Nat} {w : Watch} {st : Stage},
      l'.dev = l.dev.updateEmu e ({ · with watch := w }) → Tidy l.dev st →
      ResourcesOk l'.dev st := by
    intro e w st hdev htidy
    rw [hdev]
    exact ⟨htidy.congr rfl rfl rfl, h.held.mark e w⟩
  cases ha with
  | quiet hst hdev => rw [hst, hdev]; exact h
  | begin hst hst' hdev =>
    rw [hst', hdev]
    rw [hst] at h
    exact ⟨fun _ => h.tidy, h.held⟩
  | halts _ hst' hpc hdev =>
    rw [hst']
    refine ⟨hcreated hpc, ?_⟩
    rcases hdev with hdev | ⟨e, _, hdev⟩
    · rw [hdev]; exact h.held
    · rw [hdev]; exact h.held.mark e _
  | bootWaits _ hst hw hst' =>
    rw [hst']
    exact hw.resourcesOk (hst ▸ h)
  | bootFails _ _ hr hst' hpc => rw [hst']; exact ⟨hcreated hpc, hr.held h.held⟩
  | bootDrops _ _ hr hst' _ => rw [hst']; exact ⟨trivial, hr.held h.held⟩
  | bootDone _ _ hst' hdev => rw [hst', hdev]; exact ⟨trivial, h.held⟩
  | stopAwaits _ _ hst' hdev =>
    rw [hst', hdev]
    exact ⟨fun pc hpc => (by cases hpc), h.held⟩
  | stopWaits _ hst hs hst' =>
    rw [hst']
    refine ⟨?_, hs.held h.held⟩
    rintro pc ⟨⟩
    exact hs.closing (hst ▸ h.tidy)
  | stopDone hk hst hs hnext hst' =>
    rw [hst']
    have hclose := hs.closing (hst ▸ h.tidy)
    have hne := hs.not_raised hk hok
    rw [hnext.resolve_right hne] at hclose
    exact ⟨hclose, hs.held h.held⟩
  | emu hst hm hs hdev =>
    rw [hst, hdev]
    exact ⟨h.tidy.congr rfl rfl rfl, h.held.set hm (by cases hs <;> rfl)⟩
  | watchFailed hst _ _ _ hdev => rw [hst]; exact hmark hdev h.tidy
  | watchDropped hst _ _ _ hdev => rw [hst]; exact hmark hdev h.tidy
  | retries hup _ _ _ hst' hdev _ =>
    obtain ⟨b, hb⟩ := ht.begun (by rintro hs; rw [hs] at hup; cases hup)
    rw [hst', hdev]
    refine ⟨fun hnone => ?_, h.held.mark _ _⟩
    rw [hb] at hnone
    cases hnone

/-- **The invariant of the resources** in every state that is reached without a teardown
that raises. -/
theorem resourcesOk {cfg : Config} {l : Lifecycle}
    (h : (lifecycle cfg).ReachBy TeardownsOk l) : ResourcesOk l.dev l.stage :=
  Machine.ReachBy.invariant_of (I := fun l => ResourcesOk l.dev l.stage)
    (fun _ hr => tasksOk hr.reachable)
    (by
      rintro _ ⟨_, _, _, _, _, rfl⟩
      exact ⟨⟨rfl, rfl, rfl⟩, by constructor <;> simp [Lifecycle.new]⟩)
    (fun _ _ _ hJ hI hok hstep => ((step_move hstep).act hJ).resourcesOk hJ hI hok) h

end Supervisor

end AndroidAppliance
