import AndroidAppliance.Avd.Basic

/-!
# What a step of the AVD machine can do

`World.step` is taken apart once, into the constructors of `Move`, and every invariant is
proved by cases on these. `Follows` says how the daemon comes to the two operations that
are dangerous: a `create` that believes the directory to be new, and `shutil.rmtree`.
-/

namespace AndroidAppliance

namespace Avd

/-- The waits and operations that do nothing to a directory that others need. -/
def Pc.plain : Pc → Bool
  | .delete _ | .rmtree _ | .create _ _ => false
  | .idle | .save | .configure | .booting | .bootSave | .firstBootDone | .up => true

/-- Where the daemon awaits something no directory is half made. -/
theorem Pc.awaits.plain {pc : Pc} (h : pc.awaits = true) : pc.plain = true := by
  cases pc <;> first | rfl | cases h

namespace World

variable {w w' : World} {c : Daemon} {x y : String}

/-! ### Directories -/

@[simp] theorem setDir_self (d : Option Dir) : (w.setDir x d).avds x = d := by
  simp [setDir]

theorem setDir_ne (h : y ≠ x) (d : Option Dir) : (w.setDir x d).avds y = w.avds y := by
  simp [setDir, h]

/-- A directory after a change of one directory is that one or an old one. -/
theorem cases_setDir {d d' : Option Dir} (h : (w.setDir x d).avds y = d') :
    y = x ∧ d' = d ∨ y ≠ x ∧ w.avds y = d' := by
  by_cases hy : y = x
  · subst hy
    rw [setDir_self] at h
    exact .inl ⟨rfl, h.symm⟩
  · rw [setDir_ne hy] at h
    exact .inr ⟨hy, h⟩

/-- The same of a change of files. -/
theorem cases_mapDir {d' : Dir} {f : Dir → Dir} (h : (w.mapDir x f).avds y = some d') :
    (∃ d, w.avds x = some d ∧ y = x ∧ d' = f d) ∨ y ≠ x ∧ w.avds y = some d' := by
  rcases cases_setDir h with ⟨rfl, hd⟩ | hne
  · obtain ⟨d, hd', rfl⟩ := Option.map_eq_some_iff.mp hd.symm
    exact .inl ⟨d, hd', rfl, rfl⟩
  · exact .inr hne

/-- Saving the state leaves the daemon. -/
theorem saved_daemon (w : World) (c : Daemon) : (w.saved c).daemon = w.daemon := by
  unfold saved
  split
  · split <;> rfl
  · rfl

/-! ### The inversion lemma -/

/-- What a step can do. -/
inductive Move (w : World) : Event → World → Prop
  | launch {name : String} {readable : Bool} : w.daemon = none →
      Move w (.launch name readable) (w.launch name readable)
  | kill : Move w .kill w.kill
  | replace {name : String} {f : Option Foreign} : w.daemon = none →
      Move w (.replace name f) (w.setDir name (f.map Foreign.dir))
  /-- A save that fails, or a `_prepare` that finds no system image. -/
  | idle {ev : Event} {c : Daemon} : w.daemon = some c → c.pc.plain = true → Move w ev w
  | saved {c : Daemon} : w.daemon = some c → c.pc.plain = true → Move w (.save true) (w.saved c)
  | prepare {c : Daemon} : w.daemon = some c → c.pc.plain = true →
      Move w (.prepare true) (w.prepare c)
  | delete {c : Daemon} {m : Marker} : w.daemon = some c → c.pc = .delete m →
      firstBootMarker (w.avds c.name) = .whole m → Move w .next (w.goto c (.rmtree m))
  | removes {c : Daemon} {m : Marker} {e : Entry} : w.daemon = some c → c.pc = .rmtree m →
      Move w (.remove e) (w.mapDir c.name (·.remove e))
  | rmdir {c : Daemon} {m : Marker} : w.daemon = some c → c.pc = .rmtree m →
      Move w .next ((w.setDir c.name none).goto c (.create .mkdir true))
  | create {c : Daemon} {pc : CreatePc} {fresh : Bool} : w.daemon = some c →
      c.pc = .create pc fresh → Move w .next (w.create c fresh pc)
  | saves {c : Daemon} {pc : Pc} : w.daemon = some c → c.pc.plain = true → pc.plain = true →
      Move w .next ((w.saved c).goto c pc)
  | firstBootDone {c : Daemon} : w.daemon = some c → c.pc.plain = true →
      Move w .next ((w.mapDir c.name ({ · with marker := .absent, unmarked := true })).goto c .up)
  | writes {c : Daemon} {tmp data : Bool} : w.daemon = some c → c.pc.plain = true →
      Move w (.write tmp data) (w.mapDir c.name fun d => { d with tmp, data := d.data || data })
  | booted {c : Daemon} : w.daemon = some c → Move w .booted (w.booted c)
  /-- The daemon moves on without a change on disk, or gives up. -/
  | goes {ev : Event} {c : Daemon} {pc : Pc} : w.daemon = some c → pc.plain = true →
      Move w ev (w.goto c pc)

/-- The next file operation works. -/
private theorem move_next (hc : w.daemon = some c) (h : w.next c = some w') :
    Move w .next w' := by
  unfold World.next at h
  split at h
  · rename_i m hpc
    cases h
    split
    · exact .delete hc hpc ‹_›
    · exact .goes hc rfl
  · rename_i m hpc
    split at h
    · cases h
      exact .rmdir hc hpc
    · cases h
  · rename_i pc fresh hpc
    cases h
    exact .create hc hpc
  · rename_i hpc
    cases h
    exact .saves hc (by rw [hpc]; rfl) rfl
  · cases h
    exact .goes hc rfl
  · rename_i hpc
    cases h
    exact .saves hc (by rw [hpc]; rfl) rfl
  · rename_i hpc
    cases h
    exact .firstBootDone hc (by rw [hpc]; rfl)
  all_goals cases h

/-- **Every step is a move.** -/
theorem step_move {ev : Event} (hstep : w.step ev = some w') : Move w ev w' := by
  have hdaemon : ∀ {f : Daemon → Option World}, w.daemon.bind f = some w' →
      ∃ c, w.daemon = some c ∧ f c = some w' := fun hf => Option.bind_eq_some_iff.mp hf
  cases ev with
  | launch name readable =>
    simp only [World.step] at hstep
    split at hstep
    · rename_i hnone
      cases hstep
      exact .launch hnone
    · cases hstep
  | kill =>
    obtain ⟨c, -, rfl⟩ := Option.map_eq_some_iff.mp hstep
    exact .kill
  | replace name f =>
    simp only [World.step] at hstep
    split at hstep
    · rename_i hnone
      cases hstep
      exact .replace hnone
    · cases hstep
  | save ok =>
    obtain ⟨c, hc, hf⟩ := hdaemon hstep
    split at hf
    · rename_i hpc
      cases hf
      cases ok with
      | true => exact .saved hc (Pc.awaits.plain hpc)
      | false => exact .idle hc (Pc.awaits.plain hpc)
    · cases hf
  | prepare image =>
    obtain ⟨c, hc, hf⟩ := hdaemon hstep
    split at hf
    · rename_i hpc
      cases hf
      have hplain : c.pc.plain = true := by rw [hpc]; rfl
      cases image with
      | true => exact .prepare hc hplain
      | false => exact .idle hc hplain
    · cases hf
  | next =>
    obtain ⟨c, hc, hf⟩ := hdaemon hstep
    exact move_next hc hf
  | remove e =>
    obtain ⟨c, hc, hf⟩ := hdaemon hstep
    split at hf
    · rename_i hpc
      cases hf
      exact .removes hc hpc
    · cases hf
  | raised =>
    obtain ⟨c, hc, hf⟩ := hdaemon hstep
    unfold World.raised at hf
    split at hf <;> cases hf <;> exact .goes hc rfl
  | write tmp data =>
    obtain ⟨c, hc, hf⟩ := hdaemon hstep
    split at hf
    · rename_i hpc
      cases hf
      refine .writes hc ?_
      rcases hpc with hpc | hpc | hpc <;> rw [hpc] <;> rfl
    · cases hf
  | booted =>
    obtain ⟨c, hc, hf⟩ := hdaemon hstep
    split at hf
    · cases hf
      exact .booted hc
    · cases hf
  | finished =>
    obtain ⟨c, hc, hf⟩ := hdaemon hstep
    split at hf
    · cases hf
      exact .goes hc rfl
    · cases hf

/-! ### How the daemon comes to its dangerous operations -/

/-- Where `create` thinks that it makes a new directory, there is none, or an empty one; and
`avd.delete` goes on only with the marker of the record. -/
structure Follows (w w' : World) : Prop where
  fresh : ∀ c, w'.daemon = some c → c.pc = .create .mkdir true →
    fresh (w'.avds c.name) = true
  rmtree : ∀ c m, w'.daemon = some c → c.pc = .rmtree m → w.daemon = some c ∨
    w.daemon = some { c with pc := .delete m } ∧
      firstBootMarker (w.avds c.name) = .whole m

namespace Follows

/-- A step that neither makes a directory nor removes one. -/
theorem of_ne (h : ∀ c, w'.daemon = some c →
    c.pc ≠ .create .mkdir true ∧ ∀ m, c.pc ≠ .rmtree m) : w.Follows w' :=
  ⟨fun c hc hpc => absurd hpc (h c hc).1, fun c m hc hpc => absurd hpc ((h c hc).2 m)⟩

/-- The daemon goes on. -/
theorem goto {pc : Pc} (h : pc ≠ .create .mkdir true ∧ ∀ m, pc ≠ .rmtree m) (w w' : World)
    (c : Daemon) : w.Follows (w'.goto c pc) := by
  refine of_ne fun c' hc' => ?_
  cases hc'
  exact h

/-- It goes on with a new record. -/
theorem remember {pc : Pc} (h : pc ≠ .create .mkdir true ∧ ∀ m, pc ≠ .rmtree m) (w w' : World)
    (c : Daemon) (r : Record) : w.Follows (w'.remember c r pc) := by
  refine of_ne fun c' hc' => ?_
  cases hc'
  exact h

/-- The plain places are such steps. -/
theorem plain {pc : Pc} (h : pc.plain = true) :
    pc ≠ .create .mkdir true ∧ ∀ m, pc ≠ .rmtree m := by
  constructor
  · rintro rfl
    cases h
  · rintro m rfl
    cases h

/-- A step that leaves the daemon where it is. -/
theorem of_same (hc : w.daemon = some c) (hw' : w'.daemon = w.daemon)
    (hpc : c.pc ≠ .create .mkdir true) : w.Follows w' where
  fresh c' hc' hpc' := by
    cases hc.symm.trans (hw'.symm.trans hc')
    exact absurd hpc' hpc
  rmtree c' m hc' _ := .inl (hw'.symm.trans hc')

/-- Behind the deletion, or without one. -/
theorem proceed (w : World) (c : Daemon) (record : Option Record) :
    w.Follows (w.proceed c record) := by
  unfold World.proceed
  split
  · split
    · exact remember (plain rfl) ..
    · exact remember (plain rfl) ..
  · refine ⟨fun c' hc' hpc => ?_, fun c' m hc' hpc => ?_⟩
    · cases hc'
      exact (Pc.create.inj hpc).2
    · cases hc'
      cases hpc

/-- `_prepare`. -/
theorem prepare (w : World) (c : Daemon) : w.Follows (w.prepare c) := by
  have hdelete : ∀ m, Pc.delete m ≠ .create .mkdir true ∧ ∀ m', Pc.delete m ≠ .rmtree m' :=
    fun _ => ⟨Pc.noConfusion, fun _ => Pc.noConfusion⟩
  unfold World.prepare
  split
  · exact proceed w c none
  · split
    · split
      · split
        · exact goto (hdelete _) ..
        · exact proceed w c none
      · exact proceed w c none
    · exact proceed w c _

/-- The parts of `create`. -/
theorem create {fresh : Bool} (w : World) (c : Daemon) (pc : CreatePc) :
    w.Follows (w.create c fresh pc) := by
  have hnext : ∀ {pc : CreatePc}, pc ≠ .mkdir →
      Pc.create pc fresh ≠ .create .mkdir true ∧ ∀ m, Pc.create pc fresh ≠ .rmtree m :=
    fun hpc => ⟨fun hcon => hpc (Pc.create.inj hcon).1, fun _ => Pc.noConfusion⟩
  cases pc with
  | configReplace =>
    simp only [World.create]
    split
    · exact goto (hnext CreatePc.noConfusion) ..
    · exact remember (plain rfl) ..
  | markerWrite => exact remember (plain rfl) ..
  | mkdir => exact goto (hnext CreatePc.noConfusion) ..
  | registry => exact goto (hnext CreatePc.noConfusion) ..
  | config => exact goto (hnext CreatePc.noConfusion) ..
  | markerOpen => exact goto (hnext CreatePc.noConfusion) ..

/-- Android has booted. -/
theorem booted (w : World) (c : Daemon) : w.Follows (w.booted c) := by
  unfold World.booted
  split
  · split
    · exact goto (plain rfl) ..
    · exact remember (plain rfl) ..
  · exact goto (plain rfl) ..

end Follows

/-- Every move. -/
theorem Move.follows {ev : Event} (hm : Move w ev w') : w.Follows w' := by
  cases hm with
  | launch _ =>
    refine .of_ne fun c hc => ?_
    cases hc
    exact Follows.plain rfl
  | kill => exact .of_ne fun _ hc => by cases hc
  | replace hnone => exact .of_ne fun _ hc => absurd (hnone.symm.trans hc) (by simp)
  | idle hc hpc => exact .of_same hc rfl (Follows.plain hpc).1
  | saved hc hpc => exact .of_same hc (saved_daemon ..) (Follows.plain hpc).1
  | prepare => exact .prepare ..
  | @delete c m hc hpc hmark =>
    have hdelete : ({ c with pc := .delete m } : Daemon) = c := by rw [← hpc]
    refine ⟨fun c' hc' hpc' => ?_, fun c' m' hc' hpc' => ?_⟩
    · cases hc'
      cases hpc'
    · cases hc'
      cases hpc'
      exact .inr ⟨hc.trans (congrArg some hdelete.symm), hmark⟩
  | removes hc hpc => exact .of_same hc rfl (by simp [hpc])
  | rmdir =>
    refine ⟨fun c' hc' _ => ?_, fun c' m' hc' hpc' => ?_⟩
    · cases hc'
      simp [World.goto, Avd.fresh]
    · cases hc'
      cases hpc'
  | create => exact .create ..
  | saves _ _ hpc => exact .goto (Follows.plain hpc) ..
  | firstBootDone => exact .goto (Follows.plain rfl) ..
  | writes hc hpc => exact .of_same hc rfl (Follows.plain hpc).1
  | booted => exact .booted ..
  | goes _ hpc => exact .goto (Follows.plain hpc) ..

/-- Where `create` thinks that it makes a new directory, there is none, or an empty one. -/
theorem fresh_of_reachable (h : avdMachine.Reachable w) (hc : w.daemon = some c)
    (hpc : c.pc = .create .mkdir true) : Avd.fresh (w.avds c.name) = true := by
  cases h with
  | init h => rw [h.2.2.1] at hc; cases hc
  | step _ _ hstep => exact (step_move hstep).follows.fresh c hc hpc

end World

end Avd

end AndroidAppliance
