import AndroidAppliance.Avd.Records

/-!
# Which AVD is ever deleted

`avd.delete` is applied to an AVD that `create` made and that has not booted, as far as the
disk knows; and no other step of the daemon takes anything away from an AVD.
-/

namespace AndroidAppliance

namespace Avd

variable {w : World} {c : Daemon} {x : String}

/-- Config and data of the directory are still there. -/
def Dir.Grows (d d' : Dir) : Prop :=
  (d.config = true → d'.config = true) ∧ (d.data = true → d'.data = true)

namespace World

/-- The directory `x` loses neither its config nor its data. -/
def Keeps (x : String) (w w' : World) : Prop :=
  ∀ d, w.avds x = some d → ∃ d', w'.avds x = some d' ∧ d.Grows d'

namespace Keeps

variable {w' w'' : World} {y : String}

theorem of_eq (h : w'.avds = w.avds) : Keeps x w w' :=
  fun d hd => ⟨d, by rw [h, hd], id, id⟩

theorem mapDir {f : Dir → Dir} (hf : ∀ d : Dir, d.Grows (f d)) : Keeps x w (w.mapDir y f) := by
  intro d hd
  by_cases hy : x = y
  · subst hy
    exact ⟨f d, by simp [World.mapDir, hd], hf d⟩
  · exact ⟨d, by rw [World.mapDir, setDir_ne hy, hd], id, id⟩

theorem setDir {o : Option Dir} (hy : x ≠ y) : Keeps x w (w.setDir y o) :=
  fun d hd => ⟨d, by rw [setDir_ne hy, hd], id, id⟩

theorem saved (w : World) (c : Daemon) : Keeps x w (w.saved c) := by
  unfold World.saved
  split
  · split
    · exact mapDir (w := { w with stored := c.record }) fun _ => ⟨id, id⟩
    · exact of_eq rfl
  · exact of_eq rfl

theorem proceed (w : World) (c : Daemon) (record : Option Record) :
    Keeps x w (w.proceed c record) := by
  unfold World.proceed
  split
  · split
    · exact of_eq rfl
    · exact mapDir (f := ({ · with adopted := true })) fun _ => ⟨id, id⟩
  · exact of_eq rfl

theorem prepare (w : World) (c : Daemon) : Keeps x w (w.prepare c) := by
  unfold World.prepare
  split
  · exact proceed w c none
  · split
    · split
      · split
        · exact of_eq rfl
        · exact proceed w c none
      · exact proceed w c none
    · exact proceed w c _

/-- `create` makes a directory only where there is none, or an empty one. -/
theorem create {fresh : Bool} {pc : CreatePc} (w : World) (c : Daemon)
    (hfresh : pc = .mkdir → fresh = true → Avd.fresh (w.avds c.name) = true) :
    Keeps x w (w.create c fresh pc) := by
  cases pc with
  | mkdir =>
    simp only [World.create]
    split
    · rename_i hf
      intro d hd
      by_cases hx : x = c.name
      · subst hx
        have hempty : d.isEmpty = true := by simpa [Avd.fresh, hd] using hfresh rfl hf
        simp only [Dir.isEmpty, Bool.and_eq_true, Bool.not_eq_true'] at hempty
        obtain ⟨⟨⟨hconfig, -⟩, -⟩, hdata⟩ := hempty
        refine ⟨.empty, setDir_self _, fun h => ?_, fun h => ?_⟩
        · rw [hconfig] at h; cases h
        · rw [hdata] at h; cases h
      · exact setDir hx d hd
    · exact of_eq rfl
  | registry => exact of_eq rfl
  | config => exact mapDir (f := ({ · with tmp := true })) fun _ => ⟨id, id⟩
  | configReplace =>
    have hreplace : Keeps x w (w.mapDir c.name ({ · with tmp := false, config := true })) :=
      mapDir fun _ => ⟨fun _ => rfl, id⟩
    simp only [World.create]
    split
    · exact hreplace
    · exact hreplace
  | markerOpen => exact mapDir (f := ({ · with marker := .other })) fun _ => ⟨id, id⟩
  | markerWrite =>
    exact mapDir (f := ({ · with marker := .whole w.drawn, own := some w.drawn }))
      fun _ => ⟨id, id⟩

theorem booted (w : World) (c : Daemon) : Keeps x w (w.booted c) := by
  unfold World.booted
  split
  · split
    · exact of_eq rfl
    · exact of_eq rfl
  · exact of_eq rfl

end Keeps

/-- The daemon is in `avd.delete` of the AVD `x`, past the check of the marker. -/
def Deletes (w : World) (x : String) (m : Marker) : Prop :=
  ∃ c, w.daemon = some c ∧ c.name = x ∧ c.pc = .rmtree m

/-- **Nothing but `avd.delete` takes anything away** from an AVD, others than the daemon
aside. -/
theorem Move.keeps {w w' : World} {ev : Event} (hm : Move w ev w')
    (h : avdMachine.Reachable w) (hev : ∀ f, ev ≠ .replace x f)
    (hno : ∀ m, ¬ w.Deletes x m) : Keeps x w w' := by
  have hother : ∀ {c : Daemon} {m : Marker}, w.daemon = some c → c.pc = .rmtree m →
      x ≠ c.name := by
    rintro c m hc hpc rfl
    exact hno m ⟨c, hc, rfl, hpc⟩
  cases hm with
  | replace =>
    refine .setDir ?_
    rintro rfl
    exact hev _ rfl
  | saved => exact .saved _ _
  | prepare => exact .prepare _ _
  | removes hc hpc => exact .setDir (hother hc hpc)
  | rmdir hc hpc => exact .setDir (hother hc hpc)
  | @create c pc fresh hc hpc =>
    refine .create w c fun hmkdir hfresh => ?_
    subst hmkdir hfresh
    exact fresh_of_reachable h hc hpc
  | saves => exact .saved _ _
  | firstBootDone =>
    exact .mapDir (f := ({ · with marker := .absent, unmarked := true })) fun _ => ⟨id, id⟩
  | writes => exact .mapDir fun d => ⟨id, fun h => by simp [h]⟩
  | booted => exact .booted _ _
  | launch | kill | idle | delete | goes => exact .of_eq rfl

end World

/-! ### The result -/

/-- The record and the marker that `_prepare` goes by. -/
structure World.Unfinished (w : World) (x : String) (m : Marker) : Prop where
  record : ∃ c r, w.daemon = some c ∧ c.record = some r ∧ r.name = x ∧ r.created = true ∧
    r.booted = false ∧ r.marker = some m
  marker : ∃ d, w.avds x = some d ∧ d.marker = .whole m

/-- `avd.delete` begins with the check of the record and of the marker. -/
theorem World.unfinished {w w' : World} {ev : Event} {x : String} {m : Marker} (h : w.Ok false)
    (hstep : w.step ev = some w') (hno : ¬ w.Deletes x m) (hdel : w'.Deletes x m) :
    w.Unfinished x m := by
  obtain ⟨c, hc, rfl, hpc⟩ := hdel
  rcases (step_move hstep).follows.rmtree c m hc hpc with hold | ⟨hold, hmark⟩
  · exact absurd ⟨c, hold, rfl, hpc⟩ hno
  · obtain ⟨r, hr, hname, hcreated, hbooted, hm⟩ := h.pcOk_delete hold rfl
    refine ⟨⟨_, r, hold, hr, hname, hcreated, hbooted, hm⟩, ?_⟩
    cases hd : w.avds c.name with
    | none => simp [firstBootMarker, hd] at hmark
    | some d => exact ⟨d, rfl, by simpa [firstBootMarker, hd] using hmark⟩

/-- **Only an AVD that never booted is deleted.** In every run, over any number of daemon
lifetimes: `avd.delete` begins only with a record that says "created, not booted" and with
the marker of that record in the directory; the directory that it removes was made by
`create` with that marker, no record of its first boot has reached state.json, its marker
was not removed by `_booted`, and, when state.json could be read so far, it was not adopted;
and no other step of the daemon takes config or data away from any AVD. -/
theorem deletion_safe {w : World} (h : avdMachine.Reachable w) :
    (∀ ev w' x m, w.step ev = some w' → ¬ w.Deletes x m → w'.Deletes x m → w.Unfinished x m) ∧
    (∀ x m d, w.Deletes x m → w.avds x = some d →
      d.own = some m ∧ d.recorded = false ∧ d.unmarked = false ∧
        (avdMachine.ReachBy World.ReadsOk w → d.adopted = false)) ∧
    ∀ ev w' x, w.step ev = some w' → (∀ f, ev ≠ .replace x f) → (∀ m, ¬ w.Deletes x m) →
      World.Keeps x w w' := by
  have hok := ok_of_reachable h
  refine ⟨fun _ _ _ _ hstep => World.unfinished hok hstep, ?_,
    fun _ _ _ hstep => (World.step_move hstep).keeps h⟩
  rintro x m d ⟨c, hc, rfl, hpc⟩ hd
  obtain ⟨hown, hkept⟩ := hok.pcOk_rmtree hc hpc d hd
  simp only [Dir.Kept, Bool.false_eq_true, false_and, or_false, not_or, Bool.not_eq_true]
    at hkept
  refine ⟨hown, hkept.1, hkept.2, fun hreads => ?_⟩
  obtain ⟨-, hall⟩ := (ok_of_reads hreads).pcOk_rmtree hc hpc d hd
  simp only [Dir.Kept, true_and, not_or, Bool.not_eq_true] at hall
  exact hall.2.2

/-- A disk without AVDs. -/
def World.new : World := { avds := fun _ => none, stored := none, daemon := none, drawn := 0 }

/-- A first boot that is cut by a kill, and the next lifetime. -/
def cutRun : List Event :=
  [.launch "android" true, .prepare true, .next, .next, .next, .next, .next, .next, .next,
    .next, .write false true, .kill, .launch "android" true, .prepare true, .next,
    .remove .data]

theorem deletion_safe_cut : ∃ (w : World) (d : Dir), avdMachine.run .new cutRun = some w ∧
    w.Deletes "android" 0 ∧ w.avds "android" = some d ∧ d.own = some 0 ∧ d.recorded = false ∧
      d.unmarked = false ∧ d.adopted = false := by
  have hok : avdMachine.RunOk World.ReadsOk .new cutRun := by decide
  have hinit : World.new.Initial := ⟨fun _ _ hd => (nomatch hd), rfl, rfl, rfl⟩
  obtain ⟨w, c, d, hrun, hc, hname, hpc, hd⟩ : ∃ (w : World) (c : Daemon) (d : Dir),
      avdMachine.run .new cutRun = some w ∧ w.daemon = some c ∧ c.name = "android" ∧
        c.pc = .rmtree 0 ∧ w.avds "android" = some d :=
    ⟨_, _, _, rfl, rfl, rfl, rfl, rfl⟩
  have hreads : avdMachine.ReachBy World.ReadsOk w := .of_run (.init hinit) hok hrun
  have hdel : w.Deletes "android" 0 := ⟨c, hc, hname, hpc⟩
  obtain ⟨hown, hrec, hun, hadopted⟩ := (deletion_safe hreads.reachable).2.1 _ 0 d hdel hd
  exact ⟨w, d, hrun, hdel, hd, hown, hrec, hun, hadopted hreads⟩

end Avd

end AndroidAppliance
