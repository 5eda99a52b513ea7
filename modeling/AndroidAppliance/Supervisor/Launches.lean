import AndroidAppliance.Supervisor.Processes
import AndroidAppliance.Supervisor.Transitions

/-!
# Launches

How many emulators a boot launches, and when. `LaunchesOk` counts the launches of a boot
and remembers why there was a second one: the first emulator crashed by itself, its boot
task has unwound and its teardown is done. A launch happens in STARTING only, so that there
is none between the begin of a stop, or of the shutdown, and the next begin of a boot.
-/

namespace AndroidAppliance

namespace Supervisor

/-! ### The marks of a boot -/

/-- The marks `begun` and `retried` at a step. -/
theorem Move.marks {cfg : Config} {l l' : Lifecycle} {ev : Event} (hm : Move cfg l ev l') :
    (ev = .begin ∧ l'.ctl.begun = l.ctl.begun + 1 ∧ l'.ctl.retried = false) ∨
    (ev ≠ .begin ∧ l'.ctl.begun = l.ctl.begun ∧
      (l.ctl.retried = true → l'.ctl.retried = true)) := by
  cases hm with
  | begin => exact .inl ⟨rfl, rfl, rfl⟩
  | bootDone =>
    refine .inr ⟨by simp, ?_⟩
    simp only [Lifecycle.complete]
    split <;> exact ⟨rfl, id⟩
  | watchStops _ _ _ _ hr =>
    refine .inr ⟨by simp, rfl, fun h => ?_⟩
    rcases hr with rfl | rfl
    · exact h
    · rfl
  | watchRetries => exact .inr ⟨by simp, rfl, fun _ => rfl⟩
  | emu _ hs => exact .inr ⟨by cases hs <;> simp, rfl, id⟩
  | halt | shutdownUp | shutdownDown | every | touch | clock | bootWaits | bootFails
  | bootDrops | unwound | stopAwaits | stopWaits | stopDone | watchFailed | watchDropped =>
    exact .inr ⟨by simp, rfl, id⟩

/-- A boot task at a later time: it stays in the table, and done when it was done. -/
def Control.Unwinds (c c' : Control) : Prop :=
  ∀ (b : Nat) (t : Boot), c.boots[b]? = some t →
    ∃ t', c'.boots[b]? = some t' ∧ (t.pc = .ended → t'.pc = .ended)

namespace Control.Unwinds

variable {c : Control}

theorem refl (c : Control) : c.Unwinds c := fun _ t ht => ⟨t, ht, id⟩

theorem cancelBoot (c : Control) (current : Option Nat) : c.Unwinds (c.cancelBoot current) := by
  intro b t ht
  simp only [Control.cancelBoot]
  split
  · rename_i b' _
    split
    · exact ⟨t, ht, id⟩
    · by_cases hb : b' = b
      · subst hb
        exact ⟨_, Table.modify_self ht, fun h => by simpa using h⟩
      · exact ⟨t, Table.modify_ne hb ht, id⟩
  · exact ⟨t, ht, id⟩

theorem setBoot {b : Nat} {t : Boot} {pc : BootPc} (hb : c.boots[b]? = some t)
    (ht : t.pc = .ended → pc = .ended) : c.Unwinds (c.setBoot b pc) := by
  intro i u hu
  by_cases hbi : b = i
  · subst hbi
    cases hb.symm.trans hu
    exact ⟨_, Table.modify_self hb, ht⟩
  · exact ⟨u, Table.modify_ne hbi hu, id⟩

theorem trans {c' c'' : Control} (h : c.Unwinds c') (h' : c'.Unwinds c'') : c.Unwinds c'' := by
  intro b t ht
  obtain ⟨u, hu, himp⟩ := h b t ht
  obtain ⟨v, hv, himp'⟩ := h' b u hu
  exact ⟨v, hv, himp' ∘ himp⟩

end Control.Unwinds

/-- No step brings a boot task back. -/
theorem Move.unwinds {cfg : Config} {l l' : Lifecycle} {ev : Event} (hm : Move cfg l ev l') :
    l.ctl.Unwinds l'.ctl := by
  cases hm with
  | begin => exact fun _ t ht => ⟨t, Table.append_old ht, id⟩
  | halt | shutdownUp | watchStops =>
    have h := Control.Unwinds.cancelBoot { l.ctl with state := .stopping } none
    exact h
  | bootWaits hb _ hw => exact .setBoot hb fun h => absurd h hw.not_ended
  | @bootFails b _ _ _ code message _ _ hb _ _ =>
    have hstop : l.ctl.Unwinds (l.ctl.beginStop (some b) (.failed code message)) :=
      Control.Unwinds.cancelBoot { l.ctl with state := .stopping } (some b)
    obtain ⟨u, hu, -⟩ := hstop _ _ hb
    exact hstop.trans (.setBoot hu fun _ => rfl)
  | bootDrops hb => exact .setBoot hb fun _ => rfl
  | bootDone hb =>
    have h := Control.Unwinds.setBoot hb (fun _ => rfl : _ → BootPc.ended = .ended)
    simp only [Lifecycle.complete]
    split <;> exact h
  | unwound hb => exact .setBoot hb fun _ => rfl
  | watchRetries =>
    have h := Control.Unwinds.cancelBoot { l.ctl with retried := true, state := .starting } none
    refine h.trans fun _ t ht => ⟨t, Table.append_old ht, id⟩
  | shutdownDown | every | touch | clock | stopAwaits | stopWaits | stopDone | emu
  | watchFailed | watchDropped => exact .refl _

/-! ### The invariant -/

/-- The waits of a retry up to the end of its teardown. -/
def BootPc.unwinding : BootPc → Bool
  | .created | .awaitPrevious | .teardown _ => true
  | _ => false

/-- The stages in which the emulator of the boot has been launched, or will not be. -/
def Stage.launched : Stage → Bool
  | .booting t => t.pc.hasEmu
  | .orphaned | .running => true
  | .stopped | .stopping _ => false

/-- What is known of a retry, the boot task `t`, before its launch: it is due to the crash
of the emulator with the record `m`, and follows the boot task `p`. -/
structure Again (cfg : Config) (l : Lifecycle) (t : Boot) (p : Nat) (crash : CrashInfo)
    (m : Emu) : Prop where
  previous : t.previous = some p
  cause : t.crash = some crash
  own : crash.Own cfg
  emu : l.dev.emus[crash.emu]? = some m
  returncode : m.returncode = some crash.code
  hangLine : m.hangLine = crash.hangLine
  /-- An emulator that this boot has launched already is the one that crashed. -/
  gen : 1 ≤ l.dev.gens.count l.ctl.begun → m.gen = l.ctl.begun
  current : t.pc.unwinding = true → l.dev.emu = some crash.emu
  /-- Past the teardown, the emulator has been torn down. -/
  torn : t.pc.unwinding = false → m.torn = true
  /-- Past the wait for it, the earlier boot task has unwound. -/
  unwound : ∃ u, l.ctl.boots[p]? = some u ∧
    (t.pc ≠ .created → t.pc ≠ .awaitPrevious → u.pc = .ended)

/-- The launches of the boots. -/
structure LaunchesOk (cfg : Config) (l : Lifecycle) : Prop where
  gens : ∀ g ∈ l.dev.gens, g ≤ l.ctl.begun
  two : ∀ g : Nat, l.dev.gens.count g ≤ 2
  one : l.ctl.retried = false → l.dev.gens.count l.ctl.begun ≤ 1
  /-- Before a launch there was at most one, and none without a retry. -/
  before : ∀ t, l.stage = .booting t → t.pc.hasEmu = false →
    l.dev.gens.count l.ctl.begun ≤ 1 ∧
    (t.previous = none → l.dev.gens.count l.ctl.begun = 0)
  again : ∀ t, l.stage = .booting t → t.pc.hasEmu = false → t.previous ≠ none →
    l.ctl.retried = true ∧ ∃ p crash m, Again cfg l t p crash m
  /-- After a launch the current emulator is the one that the boot launched. -/
  last : l.stage.launched = true → l.ctl.retried = false →
    1 ≤ l.dev.gens.count l.ctl.begun → ∃ m, l.dev.current = some m ∧ m.gen = l.ctl.begun

/-- The facts about a retry survive a step in which its task does not move. -/
theorem Again.keep {cfg : Config} {l l' : Lifecycle} {t : Boot} {p : Nat} {crash : CrashInfo}
    {m : Emu} (h : Again cfg l t p crash m) (hlater : l.dev.Later l'.dev)
    (hgens : l'.dev.gens = l.dev.gens) (hbegun : l'.ctl.begun = l.ctl.begun)
    (hboots : l.ctl.Unwinds l'.ctl) (hemu : l'.dev.emu = l.dev.emu) :
    ∃ m', Again cfg l' t p crash m' := by
  obtain ⟨m', hm', hl⟩ := hlater crash.emu m h.emu
  obtain ⟨u, hu, hend⟩ := h.unwound
  obtain ⟨v, hv, himp⟩ := hboots p u hu
  exact ⟨m', h.previous, h.cause, h.own, hm', hl.returncode _ h.returncode,
    (hl.hangLine (by simp [h.returncode])).trans h.hangLine,
    fun h1 => by rw [hgens, hbegun] at h1; rw [hl.gen, hbegun]; exact h.gen h1,
    fun hpc => hemu.trans (h.current hpc), fun hpc => hl.torn (h.torn hpc),
    v, hv, fun h1 h2 => himp (hend h1 h2)⟩

/-- The facts about a retry at its next wait before the launch. -/
theorem BootWaits.again {cfg : Config} {l l' : Lifecycle} {dev : Devices} {t : Boot} {w : Wake}
    {pc : BootPc} {p : Nat} {crash : CrashInfo} {m : Emu}
    (hw : BootWaits l.ctl l.dev t w pc dev) (hdev : l'.dev = dev) (hpc : pc.hasEmu = false)
    (h : Again cfg l t p crash m) (hbegun : l'.ctl.begun = l.ctl.begun)
    (hboots : l.ctl.Unwinds l'.ctl) : ∃ m', Again cfg l' { t with pc } p crash m' := by
  obtain ⟨hlater, ⟨-, hcon, -⟩ | ⟨-, hgens⟩⟩ := hw.later
  · rw [hpc] at hcon; cases hcon
  obtain ⟨m', hm', hl⟩ := hlater crash.emu m h.emu
  obtain ⟨u, hu, hend⟩ := h.unwound
  obtain ⟨v, hv, himp⟩ := hboots p u hu
  have hgen : 1 ≤ l'.dev.gens.count l'.ctl.begun → m'.gen = l'.ctl.begun := by
    intro h1
    rw [hdev, hgens, hbegun] at h1
    rw [hl.gen, hbegun]
    exact h.gen h1
  have mk : (pc.unwinding = true → dev.emu = some crash.emu) →
      (pc.unwinding = false → m'.torn = true) →
      (pc ≠ .created → pc ≠ .awaitPrevious → v.pc = .ended) →
      ∃ m', Again cfg l' { t with pc } p crash m' := fun h1 h2 h3 =>
    ⟨m', h.previous, h.cause, h.own, hdev ▸ hm', hl.returncode _ h.returncode,
      (hl.hangLine (by simp [h.returncode])).trans h.hangLine, hgen, fun hun => hdev ▸ h1 hun, h2,
      v, hv, h3⟩
  have htorn : t.pc.unwinding = false → m'.torn = true := fun hpc => hl.torn (h.torn hpc)
  -- a stretch of the teardown: the earlier task is done, and so is the emulator at the end
  have htear : ∀ {q : Prepared} {r : Devices × TeardownNext},
      BootTeardown l.ctl l.dev t w q r → u.pc = .ended ∧ l.dev.Torn r ∧
        l.dev.emu = some crash.emu := by
    intro q r ht
    cases ht with
    | first hpc' hdone =>
      refine ⟨?_, Devices.teardown_torn _, h.current (by rw [hpc']; rfl)⟩
      rw [h.previous] at hdone
      simpa [Control.bootEnded, hu, Boot.done] using hdone
    | resume hpc' hr =>
      exact ⟨hend (by simp [hpc']) (by simp [hpc']), Devices.teardownResume_torn hr,
        h.current (by rw [hpc']; rfl)⟩
  cases hw with
  | first hpc' hprev _ =>
    rw [h.previous] at hprev
    cases hprev
  | retry hpc' _ =>
    exact mk (fun _ => h.current (by rw [hpc']; rfl)) (fun hcon => by cases hcon)
      fun _ hcon => absurd rfl hcon
  | tearing ht =>
    obtain ⟨hdone, ⟨-, hemu⟩ | ⟨hcon, -⟩, hcur⟩ := htear ht
    · exact mk (fun _ => hemu.trans hcur) (fun hcon => by cases hcon) fun _ _ => himp hdone
    · cases hcon
  | torn ht _ =>
    obtain ⟨hdone, htorn', hcur⟩ := htear ht
    refine mk (fun hcon => by cases hcon) (fun _ => ?_) fun _ _ => himp hdone
    rcases htorn' with ⟨hcon, -⟩ | ⟨-, hall⟩
    · exact absurd rfl hcon
    · exact hall _ _ hcur hm'
  | served hpc' =>
    exact mk (fun hcon => by cases hcon) (fun _ => htorn (by rw [hpc']; rfl))
      fun _ _ => himp (hend (by simp [hpc']) (by simp [hpc']))
  | gpu hpc' =>
    exact mk (fun hcon => by cases hcon) (fun _ => htorn (by rw [hpc']; rfl))
      fun _ _ => himp (hend (by simp [hpc']) (by simp [hpc']))
  | spawned | spawnedFound | found | answered | device | completed | command => cases hpc

/-- The wait before a launch is one before it. -/
theorem BootWaits.hasEmu_of {c : Control} {d dev : Devices} {t : Boot} {w : Wake} {pc : BootPc}
    (h : BootWaits c d t w pc dev) (hpc : pc.hasEmu = false) : t.pc.hasEmu = false := by
  cases h with
  | tearing ht => exact ht.hasEmu
  | torn ht _ => exact ht.hasEmu
  | first hpc' | retry hpc' | served hpc' | gpu hpc' => rw [hpc']; rfl
  | spawned | spawnedFound | found | answered | device | completed | command => cases hpc

/-- The wait of a boot after its launch leaves the current emulator in its field. -/
theorem BootWaits.current {c : Control} {d dev : Devices} {t : Boot} {w : Wake} {pc : BootPc}
    (h : BootWaits c d t w pc dev) (hpc : t.pc.hasEmu = true) : dev.emu = d.emu := by
  cases h with
  | tearing ht => rw [ht.hasEmu] at hpc; cases hpc
  | torn ht _ => rw [ht.hasEmu] at hpc; cases hpc
  | first hpc' | retry hpc' | served hpc' | gpu hpc' | spawned hpc' | spawnedFound hpc' =>
    simp [hpc', BootPc.hasEmu] at hpc
  | found | answered | device | completed | command => rfl

/-- The stage of a boot that goes on is one of STARTING and RUNNING. -/
theorem Control.stage_up {c : Control} (h : c.state.up = true) :
    (∃ t, c.stage = .booting t) ∨ c.stage.launched = true := by
  cases hs : c.state with
  | starting =>
    rcases Control.stage_starting hs with h' | h'
    · exact .inl h'
    · exact .inr (by rw [h']; rfl)
  | running => exact .inr (by rw [Control.stage_running hs]; rfl)
  | stopped => rw [hs] at h; cases h
  | stopping => rw [hs] at h; cases h

namespace LaunchesOk

variable {cfg : Config} {l l' : Lifecycle} {ev : Event}

/-- Without a retry the boot task of the stage has launched nothing yet. -/
theorem none_before (h : LaunchesOk cfg l) {t : Boot} (hst : l.stage = .booting t)
    (hpc : t.pc.hasEmu = false) (hret : l.ctl.retried = false) :
    l.dev.gens.count l.ctl.begun = 0 := by
  by_cases hprev : t.previous = none
  · exact (h.before t hst hpc).2 hprev
  · have := (h.again t hst hpc hprev).1
    rw [hret] at this
    cases this

/-- The current emulator is the one that the boot has launched. -/
theorem last_up (h : LaunchesOk cfg l) (hup : l.ctl.state.up = true)
    (hret : l.ctl.retried = false) (hone : 1 ≤ l.dev.gens.count l.ctl.begun) :
    ∃ m, l.dev.current = some m ∧ m.gen = l.ctl.begun := by
  rcases Control.stage_up hup with ⟨t, hst⟩ | hst
  · cases hpc : t.pc.hasEmu with
    | true =>
      have hl : l.stage.launched = true := by
        rw [Lifecycle.stage, hst]
        exact hpc
      exact h.last hl hret hone
    | false =>
      have := h.none_before hst hpc hret
      omega
  · exact h.last hst hret hone

/-- A step that launches nothing and ends in a stage without a boot task. -/
theorem idle (h : LaunchesOk cfg l) (hgens : l'.dev.gens = l.dev.gens)
    (hbegun : l'.ctl.begun = l.ctl.begun)
    (hret : l.ctl.retried = true → l'.ctl.retried = true)
    (hst : ∀ t, l'.stage ≠ .booting t)
    (hlast : l'.stage.launched = true → l'.ctl.retried = false →
      1 ≤ l'.dev.gens.count l'.ctl.begun → ∃ m, l'.dev.current = some m ∧
        m.gen = l'.ctl.begun) : LaunchesOk cfg l' where
  gens g hg := by rw [hbegun]; exact h.gens g (hgens ▸ hg)
  two g := by rw [hgens]; exact h.two g
  one hr := by
    rw [hgens, hbegun]
    refine h.one ?_
    cases hrl : l.ctl.retried with
    | false => rfl
    | true => rw [hret hrl] at hr; cases hr
  before t ht := absurd ht (hst t)
  again t ht := absurd ht (hst t)
  last := hlast

/-- A step in which neither the stage nor the fields move. -/
theorem keep (h : LaunchesOk cfg l) (hst : l'.stage = l.stage) (hemu : l'.dev.emu = l.dev.emu)
    (hlater : l.dev.Later l'.dev) (hgens : l'.dev.gens = l.dev.gens)
    (hbegun : l'.ctl.begun = l.ctl.begun)
    (hret : l.ctl.retried = true → l'.ctl.retried = true)
    (hboots : l.ctl.Unwinds l'.ctl) : LaunchesOk cfg l' where
  gens g hg := by rw [hbegun]; exact h.gens g (hgens ▸ hg)
  two g := by rw [hgens]; exact h.two g
  one hr := by
    rw [hgens, hbegun]
    refine h.one ?_
    cases hrl : l.ctl.retried with
    | false => rfl
    | true => rw [hret hrl] at hr; cases hr
  before t ht hpc := by rw [hgens, hbegun]; exact h.before t (hst ▸ ht) hpc
  again t ht hpc hprev := by
    obtain ⟨hr, p, crash, m, ha⟩ := h.again t (hst ▸ ht) hpc hprev
    obtain ⟨m', ha'⟩ := ha.keep hlater hgens hbegun hboots hemu
    exact ⟨hret hr, p, crash, m', ha'⟩
  last hl hr hone := by
    rw [hgens, hbegun] at hone
    have hrl : l.ctl.retried = false := by
      cases hrl : l.ctl.retried with
      | false => rfl
      | true => rw [hret hrl] at hr; cases hr
    obtain ⟨m, hm, hgen⟩ := h.last (hst ▸ hl) hrl hone
    obtain ⟨m', hm', hl⟩ := hlater.current hemu hm
    exact ⟨m', hm', by rw [hl.gen, hbegun]; exact hgen⟩

/-- The next wait of a boot task. -/
theorem waits (h : LaunchesOk cfg l) {t : Boot} {w : Wake} {pc : BootPc}
    (hst : l.stage = .booting t) (hw : BootWaits l.ctl l.dev t w pc l'.dev)
    (hst' : l'.stage = .booting { t with pc }) (hgen : t.gen = l.ctl.begun)
    (hbegun : l'.ctl.begun = l.ctl.begun)
    (hret : l.ctl.retried = true → l'.ctl.retried = true)
    (hboots : l.ctl.Unwinds l'.ctl) : LaunchesOk cfg l' := by
  have hrl : l'.ctl.retried = false → l.ctl.retried = false := by
    intro hr
    cases hrl : l.ctl.retried with
    | false => rfl
    | true => rw [hret hrl] at hr; cases hr
  obtain ⟨hlater, ⟨hspawn, hemu, -, hgens, hcur⟩ | ⟨-, hgens⟩⟩ := hw.later
  · -- the launch: at most one before it, and none without a retry
    have hpre : t.pc.hasEmu = false := by rw [hspawn]; rfl
    obtain ⟨hone, -⟩ := h.before t hst hpre
    rw [hgen] at hgens
    have hcount : l'.dev.gens.count l.ctl.begun = l.dev.gens.count l.ctl.begun + 1 := by
      rw [hgens, List.count_append]
      simp
    refine ⟨fun g hg => ?_, fun g => ?_, fun hr => ?_, fun u hu hpc => ?_, fun u hu hpc => ?_,
      fun _ _ _ => ?_⟩
    · rw [hgens, List.mem_append, List.mem_singleton] at hg
      rw [hbegun]
      rcases hg with hg | rfl
      · exact h.gens g hg
      · exact le_rfl
    · by_cases hg : g = l.ctl.begun
      · rw [hg, hcount]
        omega
      · rw [hgens, List.count_append, List.count_singleton]
        have hne : (l.ctl.begun == g) = false := by simpa using fun heq => hg heq.symm
        have htwo := h.two g
        simp only [hne, Bool.false_eq_true, if_false]
        omega
    · rw [hbegun, hcount]
      have hnone := h.none_before hst hpre (hrl hr)
      omega
    · rw [hst'] at hu
      cases hu
      rw [hemu] at hpc
      cases hpc
    · rw [hst'] at hu
      cases hu
      rw [hemu] at hpc
      cases hpc
    · exact ⟨_, hcur, by rw [hbegun]; exact hgen⟩
  · refine ⟨fun g hg => ?_, fun g => ?_, fun hr => ?_, fun u hu hpc => ?_,
      fun u hu hpc hprev => ?_, fun hl hr hone => ?_⟩
    · rw [hbegun]
      exact h.gens g (hgens ▸ hg)
    · rw [hgens]
      exact h.two g
    · rw [hgens, hbegun]
      exact h.one (hrl hr)
    · rw [hst'] at hu
      cases hu
      rw [hgens, hbegun]
      exact h.before t hst (hw.hasEmu_of hpc)
    · rw [hst'] at hu
      cases hu
      obtain ⟨hr, p, crash, m, ha⟩ := h.again t hst (hw.hasEmu_of hpc) hprev
      obtain ⟨m', ha'⟩ := hw.again rfl hpc ha hbegun hboots
      exact ⟨hret hr, p, crash, m', ha'⟩
    · rw [hst'] at hl
      rw [hgens, hbegun] at hone
      have hemu : t.pc.hasEmu = true := by
        by_contra hcon
        have := h.none_before hst (by simpa using hcon) (hrl hr)
        omega
      have hl' : l.stage.launched = true := by rw [hst]; exact hemu
      obtain ⟨m, hm, hmgen⟩ := h.last hl' (hrl hr) hone
      obtain ⟨m', hm', hlm⟩ := hlater.current (hw.current hemu) hm
      exact ⟨m', hm', by rw [hlm.gen, hbegun]; exact hmgen⟩

end LaunchesOk

/-- A boot begins: its number is new. -/
theorem LaunchesOk.begin {cfg : Config} {l : Lifecycle} (h : LaunchesOk cfg l)
    (info : Status) : LaunchesOk cfg ⟨l.ctl.beginBoot, l.dev, l.job, info⟩ := by
  have hnew : l.dev.gens.count (l.ctl.begun + 1) = 0 := by
    rw [List.count_eq_zero]
    intro hmem
    have := h.gens _ hmem
    omega
  have hst : (⟨l.ctl.beginBoot, l.dev, l.job, info⟩ : Lifecycle).stage = _ :=
    Control.stage_beginBoot
  refine ⟨fun g hg => (h.gens g hg).trans (Nat.le_succ _), h.two, fun _ => ?_, fun _ _ _ => ?_,
    fun t ht _ hprev => ?_, fun _ _ hone => ?_⟩
  · exact hnew.le.trans zero_le_one
  · exact ⟨hnew.le.trans zero_le_one, fun _ => hnew⟩
  · rw [hst] at ht
    cases ht
    exact absurd rfl hprev
  · have hone : 1 ≤ l.dev.gens.count (l.ctl.begun + 1) := hone
    omega

/-- A retry: the emulator that crashed is the one that the boot has launched. -/
theorem LaunchesOk.retries {cfg : Config} {l l' : Lifecycle} {m : Emu} {crash : CrashInfo}
    (h : LaunchesOk cfg l) (ht : TasksOk l.ctl) (hup : l.ctl.state.up = true)
    (hm : l.dev.emus[crash.emu]? = some m)
    (hst' : l'.stage = .booting ⟨l.ctl.begun, l.ctl.bootTask, some crash, .created, false⟩)
    (hdev : l'.dev = l.dev.updateEmu crash.emu ({ · with watch := .handled }))
    (hre : Retried cfg l l' m crash) (hbegun : l'.ctl.begun = l.ctl.begun)
    (hboots : l.ctl.Unwinds l'.ctl) : LaunchesOk cfg l' := by
  have hgens : l'.dev.gens = l.dev.gens := by
    rw [hdev]
    exact Devices.gens_mark ..
  have hone := h.one hre.before
  obtain ⟨p, hp⟩ := ht.begun (by rintro hs; rw [hs] at hup; cases hup)
  obtain ⟨u, hu⟩ := ht.bootTask p hp
  obtain ⟨v, hv, -⟩ := hboots p u hu
  have hcur : l.dev.current = some m := Devices.current_of hre.emu hm
  refine ⟨fun g hg => ?_, fun g => ?_, fun hr => ?_, fun t hst _ => ?_, fun t hst _ _ => ?_,
    fun hl _ _ => ?_⟩
  · rw [hbegun]
    exact h.gens g (hgens ▸ hg)
  · rw [hgens]
    exact h.two g
  · rw [hre.after] at hr
    cases hr
  · rw [hst'] at hst
    cases hst
    rw [hgens, hbegun]
    exact ⟨hone, fun hcon => by rw [hp] at hcon; cases hcon⟩
  · rw [hst'] at hst
    cases hst
    refine ⟨hre.after, p, crash, { m with watch := .handled }, hp, rfl, hre.own, ?_,
      hre.returncode, hre.hangLine, fun h1 => ?_, fun _ => ?_, fun hcon => (by cases hcon), v, hv,
      fun hcon => absurd rfl hcon⟩
    · rw [hdev]
      exact Table.modify_self hm
    · rw [hgens, hbegun] at h1
      obtain ⟨m', hm', hgen⟩ := h.last_up hup hre.before h1
      cases hcur.symm.trans hm'
      rw [hbegun]
      exact hgen
    · rw [hdev]
      exact hre.emu
  · rw [hst'] at hl
    cases hl

/-- A boot that fails beside a dead emulator. -/
theorem LaunchesOk.drops {cfg : Config} {l l' : Lifecycle} {t : Boot} {w : Wake}
    {x : BootError} (h : LaunchesOk cfg l) (hst : l.stage = .booting t)
    (hr : BootRaises l.ctl l.dev t w x l'.dev) (hst' : l'.stage = .orphaned)
    (hbegun : l'.ctl.begun = l.ctl.begun)
    (hret : l.ctl.retried = true → l'.ctl.retried = true) : LaunchesOk cfg l' := by
  refine h.idle hr.kept.gens hbegun hret (by simp [hst']) fun _ hr' hone => ?_
  have hrl : l.ctl.retried = false := by
    cases hrl : l.ctl.retried with
    | false => rfl
    | true => rw [hret hrl] at hr'; cases hr'
  rw [hr.kept.gens, hbegun] at hone
  cases hpc : t.pc.hasEmu with
  | false =>
    have := h.none_before hst hpc hrl
    omega
  | true =>
    have hl : l.stage.launched = true := by rw [hst]; exact hpc
    obtain ⟨m, hm, hgen⟩ := h.last hl hrl hone
    rcases hr.teardown_or with ⟨p, next, ht⟩ | hdev
    · rw [ht.hasEmu] at hpc
      cases hpc
    · rw [hdev, hbegun]
      exact ⟨m, hm, hgen⟩

theorem Act.launchesOk {cfg : Config} {l l' : Lifecycle} {ev : Event} (ht : TasksOk l.ctl)
    (h : LaunchesOk cfg l) (hm : Move cfg l ev l') (ha : Act cfg l ev l') :
    LaunchesOk cfg l' := by
  obtain ⟨hlater, hgens⟩ := ha.later
  have hboots := hm.unwinds
  rcases hm.marks with ⟨rfl, hbegun, hret⟩ | ⟨hev, hbegun, hret⟩
  · cases hm with
    | begin => exact h.begin _
    | emu _ hs => cases hs
  have hidle : (∀ t, l'.stage ≠ .booting t) → l'.stage.launched = false →
      l'.dev.gens = l.dev.gens → LaunchesOk cfg l' := fun hst hl hg =>
    h.idle hg hbegun hret hst fun hcon => by rw [hl] at hcon; cases hcon
  cases ha with
  | begin => exact absurd rfl hev
  | quiet hst hdev => exact h.keep hst (by rw [hdev]) hlater (by rw [hdev]) hbegun hret hboots
  | halts _ hst' _ hdev =>
    refine hidle (by simp [hst']) (by rw [hst']; rfl) ?_
    rcases hdev with hdev | ⟨e, -, hdev⟩
    · rw [hdev]
    · rw [hdev]; exact Devices.gens_mark ..
  | bootWaits _ hst hw hst' =>
    obtain ⟨-, b', -, hb', hc, hpc⟩ := Control.of_stage_booting hst
    have hgen := (ht.bootLive b' _ hb' hc hpc).2.2
    exact h.waits hst hw hst' hgen hbegun hret hboots
  | bootFails _ _ hr hst' _ =>
    exact hidle (by simp [hst']) (by rw [hst']; rfl) hr.kept.gens
  | bootDrops _ hst hr hst' _ => exact h.drops hst hr hst' hbegun hret
  | bootDone hst hpc hst' hdev =>
    refine h.idle (by rw [hdev]) hbegun hret (by simp [hst']) fun _ hr hone => ?_
    rw [hdev, hbegun] at hone ⊢
    refine h.last ?_ ?_ hone
    · rw [hst]
      simp [Stage.launched, hpc, BootPc.hasEmu]
    · cases hrl : l.ctl.retried with
      | false => rfl
      | true => rw [hret hrl] at hr; cases hr
  | stopAwaits _ _ hst' hdev =>
    exact hidle (by simp [hst']) (by rw [hst']; rfl) (by rw [hdev])
  | stopWaits _ _ hs hst' =>
    exact hidle (by simp [hst']) (by rw [hst']; rfl) hs.kept.gens
  | stopDone _ _ hs _ hst' =>
    exact hidle (by simp [hst']) (by rw [hst']; rfl) hs.kept.gens
  | emu hst hm hs hdev =>
    have hg : l'.dev.gens = l.dev.gens := by
      rw [hdev]
      exact (hs.later hm).gens (List.length_set ..)
    exact h.keep hst (by rw [hdev]) hlater hg hbegun hret hboots
  | watchFailed hst _ _ _ hdev | watchDropped hst _ _ _ hdev =>
    exact h.keep hst (by rw [hdev]; rfl) hlater (by rw [hdev]; exact Devices.gens_mark ..)
      hbegun hret hboots
  | retries hup hemu _ hcur hst' hdev hre =>
    cases hcur.symm.trans hre.emu
    exact h.retries ht hup hemu hst' hdev hre hbegun hboots

/-- **The launches of the boots** in every reachable state. -/
theorem launchesOk {cfg : Config} {l : Lifecycle} (h : (lifecycle cfg).Reachable l) :
    LaunchesOk cfg l :=
  Machine.ReachBy.invariant_of (I := LaunchesOk cfg) (fun _ hr => tasksOk hr)
    (by
      rintro _ ⟨_, _, _, _, _, rfl⟩
      exact ⟨fun g hg => (by cases hg), fun g => Nat.zero_le _, fun _ => Nat.zero_le _,
        fun t ht => (by cases ht), fun t ht => (by cases ht), fun hl => (by cases hl)⟩)
    (fun _ _ _ hJ hI _ hstep =>
      have hm := step_move hstep
      (hm.act hJ).launchesOk hJ hI hm) h

/-! ### No launch outside of STARTING -/

/-- The end of a boot is no begin of the shutdown. -/
theorem complete_closing (l : Lifecycle) (b : Nat) :
    (l.complete b).ctl.closing = l.ctl.closing := by
  unfold Lifecycle.complete
  simp only
  split <;> rfl

/-- The daemon stays on its way out. -/
theorem Move.closing {cfg : Config} {l l' : Lifecycle} {ev : Event} (hm : Move cfg l ev l')
    (h : l.ctl.closing = true) : l'.ctl.closing = true := by
  cases hm with
  | shutdownUp | shutdownDown => rfl
  | bootDone => exact (complete_closing ..).trans h
  | begin | halt | every | touch | clock | bootWaits | bootFails | bootDrops | unwound
  | stopAwaits | stopWaits | stopDone | emu | watchFailed | watchDropped | watchStops
  | watchRetries => exact h

/-- Only the begin of a boot leaves STOPPED and STOPPING for STARTING. -/
theorem Move.down {cfg : Config} {l l' : Lifecycle} {ev : Event} (ht : TasksOk l.ctl)
    (hm : Move cfg l ev l') (h : l.ctl.state.up = false) (hev : ev ≠ .begin) :
    l'.ctl.state.up = false := by
  have hup : ∀ {p : Prop}, l.ctl.state.up = true → p := fun hup => by rw [h] at hup; cases hup
  cases hm with
  | begin => exact absurd rfl hev
  | bootDone hb hc hpc =>
    have hs := (ht.bootLive _ _ hb hc (by simp [hpc])).1
    exact hup (by rw [hs]; rfl)
  | watchRetries _ _ _ hcon => exact hup hcon
  | halt | shutdownUp | bootFails | stopDone | watchStops => rfl
  | shutdownDown | every | touch | clock | bootWaits | bootDrops | unwound | stopAwaits
  | stopWaits | emu | watchFailed | watchDropped => exact h

/-- After the begin of the shutdown Android is not up. -/
theorem closing_down {cfg : Config} {l : Lifecycle} (h : (lifecycle cfg).Reachable l) :
    l.ctl.closing = true → l.ctl.state.up = false := by
  refine Machine.ReachBy.invariant_of (J := fun l => TasksOk l.ctl)
    (I := fun l => l.ctl.closing = true → l.ctl.state.up = false) (fun _ hr => tasksOk hr)
    (by rintro _ ⟨_, _, _, _, _, rfl⟩ hcon; cases hcon) (fun l ev l' ht hI _ hstep => ?_) h
  intro hclose
  have hm := step_move hstep
  cases hc : l.ctl.closing with
  | true =>
    refine hm.down ht (hI hc) ?_
    rintro rfl
    cases hm with
    | begin _ hopen => rw [hc] at hopen; cases hopen
    | emu _ hs => cases hs
  | false =>
    cases hm with
    | shutdownUp => rfl
    | shutdownDown hdown => exact hdown
    | bootDone =>
      rw [complete_closing, hc] at hclose
      cases hclose
    | begin | halt | every | touch | clock | bootWaits | bootFails | bootDrops | unwound
    | stopAwaits | stopWaits | stopDone | emu | watchFailed | watchDropped | watchStops
    | watchRetries => rw [show l.ctl.closing = true from hclose] at hc; cases hc

/-- A step from STOPPED or STOPPING launches nothing. -/
theorem gens_down {cfg : Config} {l l' : Lifecycle} {ev : Event}
    (h : (lifecycle cfg).Reachable l) (hdown : l.ctl.state.up = false)
    (hstep : l.step cfg ev = some l') : l'.dev.gens = l.dev.gens := by
  refine (step_act h hstep).later.2.resolve_left ?_
  rintro ⟨b, t, found, -, -, hst, -⟩
  have hs := (Control.of_stage_booting hst).1
  rw [hs] at hdown
  cases hdown

/-- **Stop wins.** From STOPPED or STOPPING on nothing is launched until a boot begins. -/
theorem path_down {cfg : Config} {l l' : Lifecycle} (h : (lifecycle cfg).Reachable l)
    (hdown : l.ctl.state.up = false)
    (hpath : (lifecycle cfg).PathBy (fun _ _ => True) l l') :
    l.ctl.begun ≤ l'.ctl.begun ∧
      (l'.ctl.begun = l.ctl.begun → l'.ctl.state.up = false ∧ l'.dev.gens = l.dev.gens) := by
  refine Machine.PathBy.invariant (J := fun r => (lifecycle cfg).Reachable r)
    (I := fun r => l.ctl.begun ≤ r.ctl.begun ∧
      (r.ctl.begun = l.ctl.begun → r.ctl.state.up = false ∧ r.dev.gens = l.dev.gens))
    (fun _ hr => hr) (fun r ev r' hr hI _ hstep => ?_) h ⟨le_rfl, fun _ => ⟨hdown, rfl⟩⟩ hpath
  obtain ⟨hle, himp⟩ := hI
  have hm := step_move hstep
  rcases hm.marks with ⟨-, hbegun, -⟩ | ⟨hev, hbegun, -⟩
  · exact ⟨by omega, fun heq => by omega⟩
  · refine ⟨by omega, fun heq => ?_⟩
    obtain ⟨hd, hg⟩ := himp (by omega)
    exact ⟨hm.down (tasksOk hr) hd hev, (gens_down hr hd hstep).trans hg⟩

/-- After the begin of the shutdown nothing is launched. -/
theorem path_closing {cfg : Config} {l l' : Lifecycle} (h : (lifecycle cfg).Reachable l)
    (hclose : l.ctl.closing = true)
    (hpath : (lifecycle cfg).PathBy (fun _ _ => True) l l') : l'.dev.gens = l.dev.gens := by
  refine (Machine.PathBy.invariant (J := fun r => (lifecycle cfg).Reachable r)
    (I := fun r => r.ctl.closing = true ∧ r.dev.gens = l.dev.gens)
    (fun _ hr => hr) (fun r ev r' hr hI _ hstep => ?_) h ⟨hclose, rfl⟩ hpath).2
  obtain ⟨hc, hg⟩ := hI
  exact ⟨(step_move hstep).closing hc, (gens_down hr (closing_down hr hc) hstep).trans hg⟩

/-! ### The accounting -/

/-- What holds at the launch that the boot task `b` makes. -/
structure Lifecycle.Launch (cfg : Config) (l : Lifecycle) (b : Nat) (t : Boot) : Prop where
  state : l.ctl.state = .starting
  bootTask : l.ctl.bootTask = some b
  boot : l.ctl.boots[b]? = some t
  cancelled : t.cancelled = false
  gen : t.gen = l.ctl.begun
  /-- The shutdown has not begun. -/
  closing : l.ctl.closing = false
  /-- No emulator is alive. -/
  dead : l.dev.Dead
  /-- A second launch follows a crash of the first emulator by itself, which the boot task has
  on record, the end of the earlier boot task and a complete teardown. -/
  again : 1 ≤ l.dev.gens.count t.gen → ∃ (p : Nat) (u : Boot) (crash : CrashInfo) (m : Emu),
    t.previous = some p ∧ l.ctl.boots[p]? = some u ∧ u.pc = .ended ∧
      t.crash = some crash ∧ crash.Own cfg ∧
      l.dev.emus[crash.emu]? = some m ∧ m.gen = t.gen ∧ m.returncode = some crash.code ∧
      m.hangLine = crash.hangLine ∧ m.hangLine = none ∧ m.torn = true

/-- What the state says of the crash that a record is about: the current emulator is gone with
the status of the record, and the rest of the record is read off the state, too. -/
structure Lifecycle.Crashed (l : Lifecycle) (crash : CrashInfo) : Prop where
  emu : l.dev.emu = some crash.emu
  record : ∃ m, l.dev.emus[crash.emu]? = some m ∧ m.returncode = some crash.code ∧
    m.hangLine = crash.hangLine
  state : l.ctl.state = crash.state
  runningFor : l.runningFor = crash.runningFor

theorem launch_of_spawning {cfg : Config} {l : Lifecycle} {b : Nat} {t : Boot}
    (h : (lifecycle cfg).ReachBy TeardownsEnd l) (hb : l.ctl.boots[b]? = some t)
    (hst : l.stage = .booting t) (hpc : t.pc = .spawning) : l.Launch cfg b t := by
  obtain ⟨hs, b', htask, hb', hc, hne⟩ := Control.of_stage_booting hst
  obtain ⟨-, htask', hgen⟩ := (tasksOk h.reachable).bootLive b t hb hc hne
  have hpre : t.pc.hasEmu = false := by rw [hpc]; rfl
  have halive := aliveOk h
  rw [hst] at halive
  refine ⟨hs, htask', hb, hc, hgen, ?_, halive.stage hpre, fun hone => ?_⟩
  · by_contra hclose
    have := closing_down h.reachable (by simpa using hclose)
    rw [hs] at this
    cases this
  · have hl := launchesOk h.reachable
    rw [hgen] at hone ⊢
    have hprev : t.previous ≠ none := by
      intro hnone
      have := (hl.before t hst hpre).2 hnone
      omega
    obtain ⟨-, p, crash, m, ha⟩ := hl.again t hst hpre hprev
    obtain ⟨u, hu, hend⟩ := ha.unwound
    exact ⟨p, u, crash, m, ha.previous, hu, hend (by simp [hpc]) (by simp [hpc]), ha.cause,
      ha.own, ha.emu, ha.gen hone, ha.returncode, ha.hangLine,
      ha.hangLine.trans ha.own.hangLine, ha.torn (by rw [hpc]; rfl)⟩

/-! ### The records of crashes -/

/-- Every record of a crash in `c'` was there in `c`. -/
def Control.Recorded (c c' : Control) : Prop :=
  ∀ (b : Nat) (t' : Boot) (crash : CrashInfo), c'.boots[b]? = some t' → t'.crash = some crash →
    ∃ t, c.boots[b]? = some t ∧ t.crash = some crash

namespace Control.Recorded

variable {c : Control}

theorem refl (c : Control) : c.Recorded c := fun _ t _ ht hc => ⟨t, ht, hc⟩

theorem trans {c' c'' : Control} (h : c.Recorded c') (h' : c'.Recorded c'') :
    c.Recorded c'' := by
  intro b t crash ht hc
  obtain ⟨u, hu, hcu⟩ := h' b t crash ht hc
  exact h b u crash hu hcu

/-- A boot task is changed and keeps its record. -/
theorem modify {b : Nat} {f : Boot → Boot} (hf : ∀ t, (f t).crash = t.crash) :
    c.Recorded { c with boots := c.boots.modify b f } := by
  intro i t crash ht hc
  obtain ⟨u, hu, ⟨-, rfl⟩ | ⟨-, rfl⟩⟩ := Table.cases_modify ht
  · exact ⟨u, hu, (hf u).symm.trans hc⟩
  · exact ⟨_, hu, hc⟩

theorem cancelBoot (c : Control) (current : Option Nat) : c.Recorded (c.cancelBoot current) := by
  simp only [Control.cancelBoot]
  split
  · split
    · exact .refl c
    · refine modify fun t => ?_
      unfold Boot.cancel
      split <;> rfl
  · exact .refl c

theorem setBoot (c : Control) (b : Nat) (pc : BootPc) : c.Recorded (c.setBoot b pc) :=
  modify fun _ => rfl

end Control.Recorded

/-- A record is made by the watcher, of the emulator and the state that it finds. -/
theorem Move.recorded {cfg : Config} {l l' : Lifecycle} {ev : Event} (hm : Move cfg l ev l')
    (hev : ∀ e line, ev ≠ .watch e line) : l.ctl.Recorded l'.ctl := by
  cases hm with
  | begin =>
    intro b t crash ht hc
    rcases Table.cases_append ht with ht | ⟨-, rfl⟩
    · exact ⟨t, ht, hc⟩
    · cases hc
  | halt | shutdownUp =>
    have h := Control.Recorded.cancelBoot { l.ctl with state := .stopping } none
    exact h
  | bootWaits | bootDrops | unwound => exact Control.Recorded.setBoot _ _ _
  | @bootFails b _ _ _ code message =>
    have h : l.ctl.Recorded (l.ctl.beginStop (some b) (.failed code message)) :=
      Control.Recorded.cancelBoot { l.ctl with state := .stopping } (some b)
    exact h.trans (Control.Recorded.setBoot _ _ _)
  | bootDone =>
    have h := Control.Recorded.setBoot l.ctl ‹_› .ended
    simp only [Lifecycle.complete]
    split <;> exact h
  | watchFailed | watchDropped | watchStops | watchRetries => exact absurd rfl (hev _ _)
  | shutdownDown | every | touch | clock | stopAwaits | stopWaits | stopDone | emu => exact .refl _

/-- The record that the watcher makes. -/
theorem Move.crashed {cfg : Config} {l l' : Lifecycle} {e : Nat} {line : Option String}
    (hm : Move cfg l (.watch e line) l') {b : Nat} {t' : Boot} {crash : CrashInfo}
    (ht : l'.ctl.boots[b]? = some t') (hc : t'.crash = some crash) :
    (∃ t, l.ctl.boots[b]? = some t ∧ t.crash = some crash) ∨
      e = crash.emu ∧ line = crash.fatalLine ∧ l.Crashed crash := by
  cases hm with
  | emu _ hs => cases hs
  | watchFailed | watchDropped => exact .inl ⟨t', ht, hc⟩
  | watchStops =>
    have h := Control.Recorded.cancelBoot { l.ctl with state := .stopping } none
    exact .inl (h b t' crash ht hc)
  | watchRetries hm _ hcur _ _ hcode _ _ _ hhang hcrash =>
    have h := Control.Recorded.cancelBoot { l.ctl with retried := true, state := .starting } none
    rcases Table.cases_append ht with ht | ⟨-, rfl⟩
    · exact .inl (h b t' crash ht hc)
    · cases hc
      rw [hcrash]
      exact .inr ⟨rfl, rfl, hcur, ⟨_, hm, hcode, hhang⟩, rfl, rfl⟩

/-- A call launches nothing. -/
theorem CallStep.gens {cfg : Config} {l l' : Lifecycle} (h : CallStep cfg l l') :
    l'.dev.gens = l.dev.gens := by
  have hstep : ∀ {l : Lifecycle} {e : Event}, e.byCall = true → l.step cfg e = some l' →
      l'.dev = l.dev := by
    intro l e he h
    cases step_move h with
    | begin | halt | shutdownUp | shutdownDown => rfl
    | emu _ hs => cases hs <;> cases he
    | every | touch | clock | bootWaits | bootFails | bootDrops | bootDone | unwound
    | stopAwaits | stopWaits | stopDone | watchFailed | watchDropped | watchStops
    | watchRetries => cases he
  cases h with
  | idle => rfl
  | touch => rfl
  | event he h => rw [hstep he h]
  | touchEvent he h => rw [hstep he h]; rfl

/-- A call records no crash. -/
theorem CallStep.recorded {cfg : Config} {l l' : Lifecycle} (h : CallStep cfg l l') :
    l.ctl.Recorded l'.ctl := by
  have hwatch : ∀ {e : Event}, e.byCall = true → ∀ i line, e ≠ .watch i line := by
    rintro e he i line rfl
    cases he
  cases h with
  | idle => exact .refl _
  | touch => exact .refl _
  | event he h => exact (step_move h).recorded (hwatch he)
  | touchEvent he h => exact (step_move h).recorded (hwatch he)

theorem teardownsEnd_callSafe : CallSafe TeardownsEnd := by
  rintro l ev hev
  cases ev <;> first | rfl | simp [Event.byCall] at hev

/-- **Launch accounting.** In a run in which every teardown that is not cancelled ends the
emulator it is given: a boot launches at most twice; every launch is one of the current boot
task in STARTING, beside no emulator that is alive, and a second one is due to a crash; the
crash is the one that the watcher of the first emulator found when it made the record; and
nothing is launched from STOPPING until the next boot begins, or after the shutdown has
begun. -/
theorem launch_accounting {cfg : Config} {s : Sup}
    (h : (supervisor cfg).ReachBy (Sup.Ok TeardownsEnd) s) :
    (∀ g : Nat, s.core.dev.gens.count g ≤ 2) ∧
    (∀ ev s', s.step cfg ev = some s' → s'.core.dev.gens = s.core.dev.gens ∨
      ∃ b t found, ev = .loop (.boot b (.spawned found)) ∧
        s'.core.dev.gens = s.core.dev.gens ++ [t.gen] ∧ s.core.Launch cfg b t) ∧
    (∀ ev s' (b : Nat) (t' : Boot) (crash : CrashInfo), s.step cfg ev = some s' →
      s'.core.ctl.boots[b]? = some t' → t'.crash = some crash →
      (∃ t : Boot, s.core.ctl.boots[b]? = some t ∧ t.crash = some crash) ∨
        ev = .loop (.watch crash.emu crash.fatalLine) ∧ s.core.Crashed crash) ∧
    ∀ s', (supervisor cfg).PathBy (fun _ _ => True) s s' →
      (s.core.ctl.state = .stopping → s'.core.ctl.begun = s.core.ctl.begun →
        s'.core.dev.gens = s.core.dev.gens) ∧
      (s.core.ctl.closing = true → s'.core.dev.gens = s.core.dev.gens) := by
  have hcore := reachBy_core teardownsEnd_callSafe h
  refine ⟨(launchesOk hcore.reachable).two, fun ev s' hstep => ?_,
    fun ev s' b t' crash hstep ht hc => ?_, fun s' hpath => ?_⟩
  · rcases Sup.step_core hstep with ⟨e, rfl, -, he⟩ | ⟨-, hcall⟩
    · rcases (step_act hcore.reachable he).later.2 with ⟨b, t, found, rfl, hb, hst, hpc, hg⟩ | hg
      · exact .inr ⟨b, t, found, rfl, hg, launch_of_spawning hcore hb hst hpc⟩
      · exact .inl hg
    · exact .inl hcall.gens
  · rcases Sup.step_core hstep with ⟨e, rfl, -, he⟩ | ⟨-, hcall⟩
    · by_cases hwatch : ∃ i line, e = .watch i line
      · obtain ⟨i, line, rfl⟩ := hwatch
        refine ((step_move he).crashed ht hc).imp_right ?_
        rintro ⟨rfl, rfl, hcrashed⟩
        exact ⟨rfl, hcrashed⟩
      · exact .inl ((step_move he).recorded (by simpa using hwatch) b t' crash ht hc)
    · exact .inl (hcall.recorded b t' crash ht hc)
  · have hsafe : CallSafe fun _ _ => True := fun _ _ _ => trivial
    have hsim := (supervisor_simulation cfg hsafe).pathBy
      (hpath.mono fun _ ev _ => by cases ev <;> trivial)
    exact ⟨fun hs hb => ((path_down hcore.reachable (by rw [hs]; rfl) hsim).2 hb).2,
      fun hc => path_closing hcore.reachable hc hsim⟩

/-- A boot the emulator of which crashes with status 1 before the guest answers, up to the
second launch. -/
def crashRun : List SupEvent :=
  bootRun.take 5 ++
    [.loop (.exit 0 1), .loop (.exitSeen 0), .loop (.readLog 0 (.lines none)),
      .loop (.watch 0 none), .loop (.unwound 0),
      .loop (.boot 1 (.go { apiLevel := none, error := none })),
      .loop (.boot 1 (.go { apiLevel := none, error := none })),
      .loop (.boot 1 (.torn .waited { apiLevel := none, error := none })),
      .loop (.boot 1 (.torn .closed { apiLevel := none, error := none })),
      .loop (.boot 1 .served), .loop (.boot 1 (.gpu "lavapipe" false))]

theorem launch_accounting_crash : ∃ s s' : Sup,
    (supervisor ⟨0, 180, 30⟩).run Sup.fresh crashRun = some s ∧
      s.step ⟨0, 180, 30⟩ (.loop (.boot 1 (.spawned true))) = some s' ∧
      s'.core.dev.gens = [1, 1] ∧ ∃ t, s.core.Launch ⟨0, 180, 30⟩ 1 t := by
  have hok : (supervisor ⟨0, 180, 30⟩).RunOk (Sup.Ok TeardownsEnd) Sup.fresh crashRun := by
    decide
  obtain ⟨s, s', hrun, hstep, hgens, hgens'⟩ : ∃ s s' : Sup,
      (supervisor ⟨0, 180, 30⟩).run Sup.fresh crashRun = some s ∧
        s.step ⟨0, 180, 30⟩ (.loop (.boot 1 (.spawned true))) = some s' ∧
        s.core.dev.gens = [1] ∧ s'.core.dev.gens = [1, 1] :=
    ⟨_, _, rfl, rfl, rfl, rfl⟩
  have hreach : (supervisor ⟨0, 180, 30⟩).ReachBy (Sup.Ok TeardownsEnd) s :=
    Machine.ReachBy.of_run (.init Sup.fresh_initial) hok hrun
  refine ⟨s, s', hrun, hstep, hgens', ?_⟩
  rcases (launch_accounting hreach).2.1 _ s' hstep with hsame | ⟨b, t, found, hev, -, hl⟩
  · rw [hgens, hgens'] at hsame
    cases hsame
  · cases hev
    exact ⟨t, hl⟩

end Supervisor

end AndroidAppliance
