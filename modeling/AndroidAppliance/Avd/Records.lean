import AndroidAppliance.Avd.Moves

/-!
# The records and the directories

The decision to delete an AVD rests on a record and a marker, which are written one after
the other, and is taken in a later lifetime. The invariant `World.Ok` compares every record
that is left somewhere, on disk or in the memory of the daemon, with the directories: none
of them asks for the deletion of a directory that must be kept.

What must be kept is a parameter: with `adopted` set, also the directories that were
adopted. Their protection needs that state.json can be read (`ReadsOk`); everything else
holds in every run.
-/

namespace AndroidAppliance

namespace Avd

/-! ### What must be kept -/

/-- The directory is not deleted any more. -/
def Dir.Kept (adopted : Bool) (d : Dir) : Prop :=
  d.recorded = true ∨ d.unmarked = true ∨ adopted = true ∧ d.adopted = true

/-- The record asks `_prepare` to delete the directory `d` of the AVD `x`. -/
def Record.Matches (r : Record) (x : String) (d : Dir) : Prop :=
  r.name = x ∧ r.created = true ∧ r.booted = false ∧
    ∃ m, r.marker = some m ∧ d.marker = .whole m

/-- A record in state.json or in the memory of the daemon. -/
def World.Records (w : World) (r : Record) : Prop :=
  w.stored = some r ∨ ∃ c, w.daemon = some c ∧ c.record = some r

/-- What is known of the directory at the next file operation. -/
def Daemon.PcOk (adopted : Bool) (w : World) (c : Daemon) : Prop :=
  match c.pc with
  | .delete m => ∃ r, c.record = some r ∧ r.name = c.name ∧ r.created = true ∧
      r.booted = false ∧ r.marker = some m
  | .rmtree m => ∀ d, w.avds c.name = some d → d.own = some m ∧ ¬ d.Kept adopted
  | .create pc fresh => fresh = true ∨ pc = .markerOpen ∨ pc = .markerWrite → pc ≠ .mkdir →
      ∀ d, w.avds c.name = some d → ¬ d.Kept adopted
  | .idle | .save | .configure | .booting | .bootSave | .firstBootDone | .up => True

/-- The invariant. -/
structure World.Ok (adopted : Bool) (w : World) : Prop where
  /-- Every marker in a record has been drawn. -/
  drawn : ∀ r m, w.Records r → r.marker = some m → m < w.drawn
  /-- A marker in a directory was written by the `create` that made it. -/
  own : ∀ x d m, w.avds x = some d → d.marker = .whole m → d.own = some m
  /-- No record asks for a directory that must be kept. -/
  spares : ∀ x d r, w.avds x = some d → d.Kept adopted → w.Records r → ¬ r.Matches x d
  /-- When state.json asks for the AVD of the daemon, the daemon knows that AVD. -/
  agrees : adopted = true → ∀ c d r, w.daemon = some c → w.avds c.name = some d →
    w.stored = some r → r.Matches c.name d →
      ∃ r', c.record = some r' ∧ r'.name = c.name ∧
        (r'.Matches c.name d ∨ r'.created = false ∨ r'.booted = true)
  pc : ∀ c, w.daemon = some c → c.PcOk adopted w

variable {a : Bool} {w : World} {c : Daemon} {x : String}

theorem Foreign.not_kept (f : Foreign) : ¬ f.dir.Kept a := by
  simp [Dir.Kept, Foreign.dir]

theorem Foreign.not_whole (f : Foreign) (m : Marker) : f.dir.marker ≠ .whole m := by
  simp only [Foreign.dir]
  split <;> exact MarkerFile.noConfusion

theorem Daemon.pcOk_plain (h : c.pc.plain = true) : c.PcOk a w := by
  unfold Daemon.PcOk
  cases hpc : c.pc <;> first | trivial | (rw [hpc] at h; cases h)

/-- The same of the daemon of a world, whatever happens to the directories. -/
theorem Daemon.pcsOk_plain {w' : World} (hc : w.daemon = some c) (h : c.pc.plain = true) :
    ∀ c', w.daemon = some c' → c'.PcOk a w' := by
  intro c' hc'
  cases hc.symm.trans hc'
  exact pcOk_plain h

theorem Dir.empty_not_kept : ¬ Dir.empty.Kept a := by simp [Dir.Kept, Dir.empty]

namespace World

/-! ### Changes of the directories -/

namespace Ok

/-- A change of the directory `x` that the records do not ask for. -/
theorem setDir {o : Option Dir} (h : w.Ok a)
    (hown : ∀ d m, o = some d → d.marker = .whole m → d.own = some m)
    (hspares : ∀ d r, o = some d → d.Kept a → w.Records r → ¬ r.Matches x d)
    (hagrees : ∀ d r, o = some d → w.stored = some r → r.Matches x d →
      ∃ d₀, w.avds x = some d₀ ∧ d₀.marker = d.marker)
    (hpc : ∀ c, w.daemon = some c → c.PcOk a (w.setDir x o)) : (w.setDir x o).Ok a where
  drawn := h.drawn
  own y d m hd hm := by
    rcases cases_setDir hd with ⟨rfl, ho⟩ | ⟨-, hold⟩
    · exact hown d m ho.symm hm
    · exact h.own y d m hold hm
  spares y d r hd hk hr := by
    rcases cases_setDir hd with ⟨rfl, ho⟩ | ⟨-, hold⟩
    · exact hspares d r ho.symm hk hr
    · exact h.spares y d r hold hk hr
  agrees ha c d r hc hd hr hm := by
    rcases cases_setDir hd with ⟨hname, ho⟩ | ⟨-, hold⟩
    · -- the records see the marker only, and that is the old one
      obtain ⟨d₀, hd₀, hmark⟩ := hagrees d r ho.symm hr (hname ▸ hm)
      have hsame : ∀ {r : Record}, r.Matches c.name d₀ ↔ r.Matches c.name d := by
        intro r
        simp only [Record.Matches, hmark]
      obtain ⟨r', hr', hn, hcase⟩ :=
        h.agrees ha c d₀ r hc (hname ▸ hd₀) hr (hsame.mpr hm)
      exact ⟨r', hr', hn, hcase.imp_left hsame.mp⟩
    · exact h.agrees ha c d r hc hold hr hm
  pc := hpc

/-- A change of files: the history stays, and the marker stays or is cut. -/
theorem files {f : Dir → Dir} (h : w.Ok a) (hown : ∀ d, (f d).own = d.own)
    (hkept : ∀ d, (f d).Kept a → d.Kept a)
    (hmark : ∀ d, (f d).marker = d.marker ∨ ∀ m, (f d).marker ≠ .whole m) :
    (w.mapDir x f).Ok a := by
  refine h.setDir (fun d m hd hm => ?_) (fun d r hd hk hr hm => ?_) (fun d r hd hr hm => ?_)
    fun c hc => ?_
  · obtain ⟨d₀, hd₀, rfl⟩ := Option.map_eq_some_iff.mp hd
    rw [hown]
    rcases hmark d₀ with hsame | hcut
    · exact h.own x d₀ m hd₀ (hsame ▸ hm)
    · exact absurd hm (hcut m)
  · obtain ⟨d₀, hd₀, rfl⟩ := Option.map_eq_some_iff.mp hd
    obtain ⟨hname, hcreated, hbooted, m, hrm, hdm⟩ := hm
    rcases hmark d₀ with hsame | hcut
    · exact h.spares x d₀ r hd₀ (hkept d₀ hk) hr
        ⟨hname, hcreated, hbooted, m, hrm, hsame ▸ hdm⟩
    · exact hcut m hdm
  · obtain ⟨d₀, hd₀, rfl⟩ := Option.map_eq_some_iff.mp hd
    obtain ⟨-, -, -, m, -, hdm⟩ := hm
    exact ⟨d₀, hd₀, ((hmark d₀).resolve_right fun hcut => hcut m hdm).symm⟩
  · have hpc := h.pc c hc
    unfold Daemon.PcOk at hpc ⊢
    have hdir : ∀ {P Q : Dir → Prop}, (∀ d, P d → Q (f d)) → (∀ d, P d → Q d) →
        (∀ d, w.avds c.name = some d → P d) →
        ∀ d, (w.mapDir x f).avds c.name = some d → Q d := by
      intro P Q hPf hP hall d hd
      rcases cases_mapDir hd with ⟨d₀, hd₀, hname, rfl⟩ | ⟨-, hold⟩
      · exact hPf d₀ (hall d₀ (hname ▸ hd₀))
      · exact hP d (hall d hold)
    split
    · rename_i hp
      rw [hp] at hpc
      exact hpc
    · rename_i m hp
      rw [hp] at hpc
      exact hdir (fun d hd => ⟨(hown d).trans hd.1, fun hk => hd.2 (hkept d hk)⟩)
        (fun _ hd => hd) hpc
    · rename_i hp
      rw [hp] at hpc
      exact fun hf hne => hdir (fun d hd hk => hd (hkept d hk)) (fun _ hd => hd) (hpc hf hne)
    all_goals trivial

/-! ### Changes of the daemon -/

/-- The daemon moves on. -/
theorem goto {pc : Pc} (h : w.Ok a) (hc : w.daemon = some c)
    (hpc : ({ c with pc } : Daemon).PcOk a w) : (w.goto c pc).Ok a := by
  have hrec : ∀ {r}, (w.goto c pc).Records r → w.Records r := by
    rintro r (hs | ⟨c', hc', hr⟩)
    · exact .inl hs
    · cases hc'
      exact .inr ⟨c, hc, hr⟩
  refine ⟨fun r m hr => h.drawn r m (hrec hr), h.own,
    fun y d r hd hk hr => h.spares y d r hd hk (hrec hr), ?_, ?_⟩
  · rintro ha c' d r hc' hd hr hm
    cases hc'
    exact h.agrees ha c d r hc hd hr hm
  · rintro c' hc'
    cases hc'
    exact hpc

/-- The daemon moves on to a wait about which nothing needs to be known. -/
theorem goto_plain {pc : Pc} (h : w.Ok a) (hc : w.daemon = some c) (hpc : pc.plain = true) :
    (w.goto c pc).Ok a :=
  h.goto hc (Daemon.pcOk_plain (c := { c with pc }) hpc)

/-- The daemon moves on with a new record. -/
theorem remember {r : Record} {pc : Pc} (h : w.Ok a)
    (hpc : pc.plain = true) (hdrawn : ∀ m, r.marker = some m → m < w.drawn)
    (hspares : ∀ y d, w.avds y = some d → d.Kept a → ¬ r.Matches y d)
    (hagrees : a = true → ∀ d s, w.avds c.name = some d → w.stored = some s →
      s.Matches c.name d → r.name = c.name ∧ (r.created = false ∨ r.booted = true)) :
    (w.remember c r pc).Ok a := by
  have hrec : ∀ {r'}, (w.remember c r pc).Records r' → w.Records r' ∨ r' = r := by
    rintro r' (hs | ⟨c', hc', hr⟩)
    · exact .inl (.inl hs)
    · cases hc'
      exact .inr (Option.some.inj hr).symm
  refine ⟨fun r' m hr hm => ?_, h.own, fun y d r' hd hk hr => ?_, ?_, ?_⟩
  · rcases hrec hr with hold | rfl
    · exact h.drawn r' m hold hm
    · exact hdrawn m hm
  · rcases hrec hr with hold | rfl
    · exact h.spares y d r' hd hk hold
    · exact hspares y d hd hk
  · rintro ha c' d s hc' hd hs hm
    cases hc'
    obtain ⟨hname, hcase⟩ := hagrees ha d s hd hs hm
    exact ⟨r, rfl, hname, .inr hcase⟩
  · rintro c' hc'
    cases hc'
    exact Daemon.pcOk_plain (c := { c with record := some r, pc }) hpc

/-- `store.save()` that works. -/
theorem saved (h : w.Ok a) (hc : w.daemon = some c) (hpc : c.pc.plain = true) :
    (w.saved c).Ok a := by
  have hrec : ∀ {r}, ({ w with stored := c.record } : World).Records r → c.record = some r := by
    rintro r (hs | ⟨c', hc', hr⟩)
    · exact hs
    · cases hc.symm.trans hc'
      exact hr
  have hold : ∀ {r}, c.record = some r → w.Records r := fun hr => .inr ⟨c, hc, hr⟩
  have hstored : ({ w with stored := c.record } : World).Ok a := by
    refine ⟨fun r m hr => h.drawn r m (hold (hrec hr)), h.own,
      fun y d r hd hk hr => h.spares y d r hd hk (hold (hrec hr)), ?_, Daemon.pcsOk_plain hc hpc⟩
    intro _ c' d r hc' _ hr hm
    cases hc.symm.trans hc'
    exact ⟨r, hr, hm.1, .inl hm⟩
  unfold World.saved
  cases hr : c.record with
  | none =>
    rw [hr] at hstored
    exact hstored
  | some r =>
    rw [hr] at hstored hrec
    simp only
    split
    · -- the record says "booted", and it is the only one
      rename_i hbooted
      refine hstored.setDir (fun d m hd hm => ?_) (fun d r' hd _ hr' hm => ?_)
        (fun d r' hd hr' hm => ?_) (Daemon.pcsOk_plain hc hpc)
      · obtain ⟨d₀, hd₀, rfl⟩ := Option.map_eq_some_iff.mp hd
        exact h.own _ d₀ m hd₀ hm
      · cases hrec hr'
        rw [hm.2.2.1] at hbooted
        cases hbooted
      · cases hr'
        rw [hm.2.2.1] at hbooted
        cases hbooted
    · exact hstored

/-- A marker is drawn. -/
theorem draw (h : w.Ok a) : ({ w with drawn := w.drawn + 1 } : World).Ok a where
  drawn r m hr hm := Nat.lt_succ_of_lt (h.drawn r m hr hm)
  own := h.own
  spares := h.spares
  agrees := h.agrees
  pc := h.pc

/-! ### The functions of the daemon -/

/-- `_prepare` with the record that it found. -/
theorem proceed_some {r : Record} (h : w.Ok a) (hc : w.daemon = some c)
    (hr : c.record = some r) : (w.proceed c (some r)).Ok a := by
  unfold World.proceed
  split
  · have hsame : w.remember c r .save = w.goto c .save := by
      simp only [World.remember, World.goto, ← hr]
    have hsave : (w.remember c r .save).Ok a := by
      rw [hsame]
      exact h.goto_plain hc rfl
    exact hsave
  · exact h.goto hc fun _ hne => absurd rfl hne

/-- `_prepare` without a record: nothing asks for the directory that it adopts. -/
theorem proceed_none (h : w.Ok a) (hc : w.daemon = some c) (hpc : c.pc.plain = true)
    (hmem : ∀ d r, w.avds c.name = some d → c.record = some r → ¬ r.Matches c.name d)
    (hstored : a = true → ∀ d r, w.avds c.name = some d → w.stored = some r →
      ¬ r.Matches c.name d) : (w.proceed c none).Ok a := by
  unfold World.proceed
  split
  · have hadopted : (w.mapDir c.name ({ · with adopted := true })).Ok a := by
      refine h.setDir (fun d m hd hm => ?_) (fun d r hd hk hr hm => ?_)
        (fun d r hd hr hm => ?_) (Daemon.pcsOk_plain hc hpc)
      · obtain ⟨d₀, hd₀, rfl⟩ := Option.map_eq_some_iff.mp hd
        exact h.own _ d₀ m hd₀ hm
      · obtain ⟨d₀, hd₀, rfl⟩ := Option.map_eq_some_iff.mp hd
        rcases hk with hrec | hun | ⟨ha, -⟩
        · exact h.spares _ d₀ r hd₀ (.inl hrec) hr hm
        · exact h.spares _ d₀ r hd₀ (.inr (.inl hun)) hr hm
        · rcases hr with hr | ⟨c', hc', hr⟩
          · exact hstored ha d₀ r hd₀ hr hm
          · cases hc.symm.trans hc'
            exact hmem d₀ r hd₀ hr hm
      · obtain ⟨d₀, hd₀, rfl⟩ := Option.map_eq_some_iff.mp hd
        exact ⟨d₀, hd₀, rfl⟩
    refine hadopted.remember rfl (fun _ hm => by cases hm) (fun _ _ _ _ hm => ?_)
      fun _ _ _ _ _ _ => ⟨rfl, .inr rfl⟩
    exact absurd hm.2.2.1 Bool.noConfusion
  · exact h.goto hc fun _ hne => absurd rfl hne

theorem prepare (h : w.Ok a) (hc : w.daemon = some c) (hplain : c.pc.plain = true) :
    (w.prepare c).Ok a := by
  unfold World.prepare
  cases hr : c.record.filter (·.name = c.name) with
  | none =>
    -- the daemon has no record of this AVD
    have hname : ∀ r, c.record = some r → r.name ≠ c.name := by
      intro r hr'
      simpa [hr'] using hr
    refine h.proceed_none hc hplain (fun d r _ hr' hm => hname r hr' hm.1) ?_
    intro ha d r hd hs hm
    obtain ⟨r', hr', hn, -⟩ := h.agrees ha c d r hc hd hs hm
    exact hname r' hr' hn
  | some r =>
    obtain ⟨hr', hname⟩ := Option.filter_eq_some_iff.mp hr
    have hname : r.name = c.name := by simpa using hname
    simp only
    split
    · rename_i hasks
      simp only [Bool.and_eq_true, Bool.not_eq_true'] at hasks
      obtain ⟨⟨-, hcreated⟩, hbooted⟩ := hasks
      -- without the marker of the record nothing matches
      have hnone : (∀ d m, w.avds c.name = some d → r.marker = some m → d.marker ≠ .whole m) →
          (w.proceed c none).Ok a := by
        intro hno
        have hmatch : ∀ d, w.avds c.name = some d → ¬ r.Matches c.name d := by
          rintro d hd ⟨-, -, -, m, hm, hdm⟩
          exact hno d m hd hm hdm
        refine h.proceed_none hc hplain (fun d r₀ hd hr₀ => ?_) fun ha d s hd hs hm => ?_
        · cases hr'.symm.trans hr₀
          exact hmatch d hd
        · obtain ⟨r₀, hr₀, -, hcase⟩ := h.agrees ha c d s hc hd hs hm
          cases hr'.symm.trans hr₀
          rcases hcase with hm' | hf | hb
          · exact hmatch d hd hm'
          · rw [hcreated] at hf; cases hf
          · rw [hbooted] at hb; cases hb
      cases hm : r.marker with
      | none => exact hnone fun _ _ _ hm' => by rw [hm] at hm'; cases hm'
      | some m =>
        simp only
        split
        · exact h.goto hc ⟨r, hr', hname, hcreated, hbooted, hm⟩
        · rename_i hdiff
          refine hnone fun d m' hd hm' hdm => hdiff ?_
          cases hm.symm.trans hm'
          simpa [firstBootMarker, hd] using hdm
    · exact h.proceed_some hc hr'

/-- The record that `avd.delete` goes by. -/
theorem pcOk_delete {m : Marker} (h : w.Ok a) (hc : w.daemon = some c)
    (hpc : c.pc = .delete m) : ∃ r, c.record = some r ∧ r.name = c.name ∧ r.created = true ∧
      r.booted = false ∧ r.marker = some m := by
  have hok := h.pc c hc
  rwa [Daemon.PcOk, hpc] at hok

/-- The directory that `shutil.rmtree` removes. -/
theorem pcOk_rmtree {m : Marker} (h : w.Ok a) (hc : w.daemon = some c)
    (hpc : c.pc = .rmtree m) : ∀ d, w.avds c.name = some d → d.own = some m ∧ ¬ d.Kept a := by
  have hok := h.pc c hc
  rwa [Daemon.PcOk, hpc] at hok

/-- A write to a file of a directory that is not kept does not make it one that is. -/
theorem not_kept_mapDir {f : Dir → Dir} (hf : ∀ d, (f d).Kept a → d.Kept a)
    (hall : ∀ d, w.avds c.name = some d → ¬ d.Kept a) :
    ∀ d, (w.mapDir c.name f).avds c.name = some d → ¬ d.Kept a := by
  intro d hd hk
  rcases World.cases_mapDir hd with ⟨d₀, hd₀, -, rfl⟩ | ⟨hne, -⟩
  · exact hall d₀ hd₀ (hf d₀ hk)
  · exact hne rfl

/-- The last operation: the marker is written, and the record knows it. -/
theorem marked {fresh : Bool} (h : w.Ok a) (hc : w.daemon = some c)
    (hpc : c.pc = .create .markerWrite fresh)
    (hclean : ∀ d, w.avds c.name = some d → ¬ d.Kept a) :
    (w.create c fresh .markerWrite).Ok a := by
  have hkept := not_kept_mapDir (f := ({ · with marker := .whole w.drawn, own := some w.drawn }))
    (fun _ hk => hk) hclean
  -- no record has the new marker yet
  have hnew : ∀ {d₀ : Dir} {s : Record}, w.stored = some s →
      ¬ s.Matches c.name { d₀ with marker := .whole w.drawn, own := some w.drawn } := by
    rintro d₀ s hs ⟨-, -, -, m, hm, hdm⟩
    cases hdm
    exact absurd (h.drawn s _ (.inl hs) hm) (Nat.lt_irrefl _)
  have hwritten : (w.mapDir c.name
      ({ · with marker := .whole w.drawn, own := some w.drawn })).Ok a := by
    refine h.setDir (fun d m hd hm => ?_) (fun d r hd hk => ?_) (fun d r hd hr hm => ?_)
      fun c' hc' => ?_
    · obtain ⟨d₀, -, rfl⟩ := Option.map_eq_some_iff.mp hd
      cases hm
      rfl
    · obtain ⟨d₀, hd₀, rfl⟩ := Option.map_eq_some_iff.mp hd
      exact absurd hk (hclean d₀ hd₀)
    · obtain ⟨d₀, -, rfl⟩ := Option.map_eq_some_iff.mp hd
      exact absurd hm (hnew hr)
    · cases hc.symm.trans hc'
      simp only [Daemon.PcOk, hpc]
      exact fun _ _ => hkept
  refine hwritten.draw.remember rfl (fun m hm => ?_) (fun y d hd hk hm => ?_)
    fun _ d s hd hs hm => ?_
  · cases hm
    exact Nat.lt_succ_self _
  · obtain ⟨rfl, -⟩ := hm
    exact hkept d hd hk
  · rcases World.cases_mapDir hd with ⟨d₀, -, -, rfl⟩ | ⟨hne, -⟩
    · exact absurd hm (hnew hs)
    · exact absurd rfl hne

/-- A file operation of `create`. -/
theorem create {fresh : Bool} {pc : CreatePc} (h : w.Ok a) (hc : w.daemon = some c)
    (hpc : c.pc = .create pc fresh) : (w.create c fresh pc).Ok a := by
  have hok := h.pc c hc
  simp only [Daemon.PcOk, hpc] at hok
  -- what was known before is known at the next operation
  have hnext : ∀ {w' : World} {pc' : CreatePc}, w'.Ok a → w'.daemon = some c →
      (fresh = true ∨ pc' = .markerOpen ∨ pc' = .markerWrite →
        ∀ d, w'.avds c.name = some d → ¬ d.Kept a) →
      (w'.goto c (.create pc' fresh)).Ok a := by
    intro w' pc' h' hc' hdir
    exact h'.goto hc' fun hf _ => hdir hf
  cases pc with
  | mkdir =>
    simp only [World.create]
    split
    · have hempty : (w.setDir c.name (some .empty)).Ok a := by
        refine h.setDir (fun d m hd hm => ?_) (fun d r hd hk => ?_) (fun d r hd _ hm => ?_)
          fun c' hc' => ?_
        · cases hd; cases hm
        · cases hd; exact absurd hk Dir.empty_not_kept
        · cases hd
          obtain ⟨-, -, -, m, -, hdm⟩ := hm
          cases hdm
        · cases hc.symm.trans hc'
          simp only [Daemon.PcOk, hpc]
          exact fun _ hne => absurd rfl hne
      refine hnext hempty hc fun _ d hd => ?_
      rw [World.setDir_self] at hd
      cases hd
      exact Dir.empty_not_kept
    · rename_i hfresh
      refine hnext h hc fun hf => ?_
      rcases hf with hf | hf | hf
      · exact absurd hf hfresh
      · cases hf
      · cases hf
  | registry =>
    refine hnext h hc fun hf => hok ?_ CreatePc.noConfusion
    exact hf.imp_right fun hf => by rcases hf with hf | hf <;> cases hf
  | config =>
    refine hnext (h.files (fun _ => rfl) (fun _ hk => hk) fun _ => .inl rfl) hc fun hf => ?_
    refine not_kept_mapDir (fun _ hk => hk) (hok ?_ CreatePc.noConfusion)
    exact hf.imp_right fun hf => by rcases hf with hf | hf <;> cases hf
  | configReplace =>
    have hreplaced : (w.mapDir c.name ({ · with tmp := false, config := true })).Ok a :=
      h.files (fun _ => rfl) (fun _ hk => hk) fun _ => .inl rfl
    simp only [World.create]
    split
    · rename_i hfresh
      refine hnext hreplaced hc fun _ => not_kept_mapDir (fun _ hk => hk) (hok (.inl hfresh) ?_)
      exact CreatePc.noConfusion
    · refine hreplaced.remember rfl (fun _ hm => by cases hm) (fun _ _ _ _ hm => ?_)
        fun _ _ _ _ _ _ => ⟨rfl, .inl rfl⟩
      exact absurd hm.2.1 Bool.noConfusion
  | markerOpen =>
    have hopened : (w.mapDir c.name ({ · with marker := .other })).Ok a :=
      h.files (fun _ => rfl) (fun _ hk => hk) fun _ => .inr fun _ => MarkerFile.noConfusion
    refine hnext hopened hc fun _ => not_kept_mapDir (fun _ hk => hk) ?_
    exact hok (.inr (.inl rfl)) CreatePc.noConfusion
  | markerWrite => exact h.marked hc hpc (hok (.inr (.inr rfl)) CreatePc.noConfusion)

theorem booted (h : w.Ok a) (hc : w.daemon = some c) : (w.booted c).Ok a := by
  unfold World.booted
  cases hr : c.record with
  | none => exact h.goto_plain hc rfl
  | some r =>
    simp only
    split
    · exact h.goto_plain hc rfl
    · refine h.remember rfl (fun _ hm => by cases hm) (fun _ _ _ _ hm => ?_)
        fun ha d s hd hs hm => ?_
      · exact absurd hm.2.2.1 Bool.noConfusion
      · obtain ⟨r', hr', hname, -⟩ := h.agrees ha c d s hc hd hs hm
        cases hr.symm.trans hr'
        exact ⟨hname, .inr rfl⟩

end Ok

/-! ### Every run -/

/-- The step does not begin a lifetime that cannot read state.json. -/
def ReadsOk (_ : World) : Event → Prop
  | .launch _ readable => readable = true
  | _ => True

instance (w : World) : ∀ ev, Decidable (ReadsOk w ev)
  | .launch _ readable => inferInstanceAs (Decidable (readable = true))
  | .kill | .replace _ _ | .save _ | .prepare _ | .next | .remove _ | .raised | .write _ _
  | .booted | .finished => .isTrue trivial

/-- **Every move keeps the invariant.** -/
theorem Move.ok {ev : Event} {w' : World} (hm : Move w ev w') (h : w.Ok a)
    (hread : a = true → ReadsOk w ev) : w'.Ok a := by
  cases hm with
  | @launch name readable hnone =>
    have hrec : ∀ {r}, (w.launch name readable).Records r → w.Records r := by
      rintro r (hs | ⟨c, hc, hr⟩)
      · exact .inl hs
      · cases hc
        simp only at hr
        split at hr
        · exact .inl hr
        · cases hr
    refine ⟨fun r m hr => h.drawn r m (hrec hr), h.own,
      fun y d r hd hk hr => h.spares y d r hd hk (hrec hr), ?_, ?_⟩
    · rintro ha c d r hc _ hr hm
      cases hc
      have hreadable : readable = true := hread ha
      subst hreadable
      exact ⟨r, hr, hm.1, .inl hm⟩
    · rintro c hc
      cases hc
      exact Daemon.pcOk_plain rfl
  | kill =>
    have hrec : ∀ {r}, w.kill.Records r → w.Records r := by
      rintro r (hs | ⟨c, hc, -⟩)
      · exact .inl hs
      · cases hc
    refine ⟨fun r m hr => h.drawn r m (hrec hr), h.own,
      fun y d r hd hk hr => h.spares y d r hd hk (hrec hr), fun _ _ _ _ hc => ?_,
      fun _ hc => ?_⟩
    · cases hc
    · cases hc
  | @replace name f hnone =>
    have hforeign : ∀ {d}, f.map Foreign.dir = some d → ∃ g : Foreign, d = g.dir := by
      intro d hd
      obtain ⟨g, -, rfl⟩ := Option.map_eq_some_iff.mp hd
      exact ⟨g, rfl⟩
    refine h.setDir (fun d m hd hm => ?_) (fun d r hd hk _ _ => ?_) (fun d r hd _ hm => ?_)
      fun c hc => absurd (hnone.symm.trans hc) (by simp)
    · obtain ⟨g, rfl⟩ := hforeign hd
      exact absurd hm (g.not_whole m)
    · obtain ⟨g, rfl⟩ := hforeign hd
      exact g.not_kept hk
    · obtain ⟨g, rfl⟩ := hforeign hd
      obtain ⟨-, -, -, m, -, hdm⟩ := hm
      exact absurd hdm (g.not_whole m)
  | idle => exact h
  | saved hc hpc => exact h.saved hc hpc
  | prepare hc hpc => exact h.prepare hc hpc
  | @delete c m hc hpc hmark =>
    obtain ⟨r, hr, hname, hcreated, hbooted, hm⟩ := h.pcOk_delete hc hpc
    refine h.goto hc fun d hd => ?_
    have hdm : d.marker = .whole m := by simpa [firstBootMarker, hd] using hmark
    refine ⟨h.own _ d m hd hdm, fun hk => ?_⟩
    exact h.spares _ d r hd hk (.inr ⟨c, hc, hr⟩) ⟨hname, hcreated, hbooted, m, hm, hdm⟩
  | @removes c m e hc hpc =>
    refine h.files (fun d => ?_) (fun d hk => ?_) fun d => ?_
    · cases e <;> rfl
    · cases e <;> exact hk
    · cases e with
      | marker => exact .inr fun _ => MarkerFile.noConfusion
      | config | tmp | data => exact .inl rfl
  | @rmdir c m hc hpc =>
    have hgone : (w.setDir c.name none).Ok a := by
      refine h.setDir (fun _ _ hd => by cases hd) (fun _ _ hd => by cases hd)
        (fun _ _ hd => by cases hd) fun c' hc' => ?_
      cases hc.symm.trans hc'
      simp only [Daemon.PcOk, hpc, World.setDir_self]
      exact fun _ hd => by cases hd
    exact hgone.goto hc fun _ hne => absurd rfl hne
  | create hc hpc => exact h.create hc hpc
  | saves hc hpc hpc' => exact (h.saved hc hpc).goto_plain ((saved_daemon ..).trans hc) hpc'
  | @firstBootDone c hc hpc =>
    have hno : ∀ {o : Option Dir} {d : Dir} {m : Marker},
        o.map ({ · with marker := .absent, unmarked := true }) = some d →
          d.marker ≠ .whole m := by
      intro o d m hd
      obtain ⟨d₀, -, rfl⟩ := Option.map_eq_some_iff.mp hd
      exact MarkerFile.noConfusion
    have hremoved : (w.mapDir c.name ({ · with marker := .absent, unmarked := true })).Ok a := by
      refine h.setDir (fun d m hd hm => ?_) (fun d r hd _ _ hm => ?_) (fun d r hd _ hm => ?_)
        (Daemon.pcsOk_plain hc hpc)
      · exact absurd hm (hno hd)
      · obtain ⟨-, -, -, m, -, hdm⟩ := hm
        exact hno hd hdm
      · obtain ⟨-, -, -, m, -, hdm⟩ := hm
        exact absurd hdm (hno hd)
    exact hremoved.goto_plain hc rfl
  | writes => exact h.files (fun _ => rfl) (fun _ hk => hk) fun _ => .inl rfl
  | booted hc => exact h.booted hc
  | goes hc hpc => exact h.goto_plain hc hpc

theorem Initial.ok (h : w.Initial) : w.Ok a := by
  obtain ⟨havds, hstored, hdaemon, hdrawn⟩ := h
  have hrec : ∀ {r}, ¬ w.Records r := by
    rintro r (hs | ⟨c, hc, -⟩)
    · rw [hstored] at hs; cases hs
    · rw [hdaemon] at hc; cases hc
  refine ⟨fun r m hr => absurd hr hrec, fun x d m hd hm => ?_,
    fun _ _ r _ _ hr => absurd hr hrec, fun _ c _ _ hc => ?_, fun c hc => ?_⟩
  · obtain ⟨f, rfl⟩ := havds x d hd
    exact absurd hm (f.not_whole m)
  · rw [hdaemon] at hc; cases hc
  · rw [hdaemon] at hc; cases hc

end World

/-- The invariant without the adopted directories, in every run. -/
theorem ok_of_reachable {w : World} (h : avdMachine.Reachable w) : w.Ok false :=
  h.invariant (fun _ => World.Initial.ok) fun _ _ _ hI _ hstep =>
    (World.step_move hstep).ok hI fun ha => by cases ha

/-- The whole invariant, in a run in which state.json can be read. -/
theorem ok_of_reads {w : World} (h : avdMachine.ReachBy World.ReadsOk w) : w.Ok true :=
  h.invariant (fun _ => World.Initial.ok) fun _ _ _ hI hok hstep =>
    (World.step_move hstep).ok hI fun _ => hok

end Avd

end AndroidAppliance
