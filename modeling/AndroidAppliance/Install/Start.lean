import AndroidAppliance.Install.Values

/-!
# What the unit starts

The values of a configuration stand in fields of Podman's options too, which `:` and `,`
separate. No setting that `load_settings` accepts has one of them where it matters, so programs
that keep to the manuals (`Systemd`, `Quadlet` and `Program`) read the unit as it is meant:
`unit_meant`. A name that ends like that of another unit of Quadlet is an exception.
-/

namespace AndroidAppliance

namespace Install

section Launch

open UnitFile (meant partAfter)
open Podman (containerPart valuesOf resolved Word Takes Known)

variable {s : Settings} {image : Image} {d : Devices} {account : Account}
variable {systemd : Podman.Systemd account.runtimeBase} {quadlet : Podman.Quadlet}
variable {podman : Podman.Program}

/-! #### The entries of the unit -/

/-- The sections of the unit, piece by piece, with the texts of the runtime directory. -/
def unitEntries (s : Settings) (image : Image) (d : Devices) (volume dir : Str) :
    List UnitFile.Entry :=
  meant [] (headLines s image) ++ meant containerPart (deviceLines d) ++ volumeEntries s volume ++
    meant containerPart (turnLines s) ++ tailEntries s dir

/-- The entries of the unit, part by part. -/
theorem meant_unitLines : meant [] (unitLines s image d) =
    unitEntries s image d s.runtimeVolume ('%' :: 't' :: '/' :: s.name.text) := by
  -- Only the first lines and the last ones begin a section.
  have hhead : partAfter [] (headLines s image) = containerPart := rfl
  have hdevice : partAfter containerPart (deviceLines d) = containerPart := by
    obtain ⟨render, groupAdd⟩ := d
    cases render <;> cases groupAdd <;> rfl
  have hvolume : partAfter containerPart (volumeLines s) = containerPart := rfl
  have hturn : partAfter containerPart (turnLines s) = containerPart :=
    (UnitFile.meant_assigns _ _ _).2
  simp only [unitLines, UnitFile.meant_append, UnitFile.partAfter_append, hhead, hdevice, hvolume,
    hturn, meant_volumeLines, meant_tailLines, unitEntries]

/-- Every value of the unit is taken as it is. -/
theorem taken_unit (h : NoUnit s image) : ∀ e ∈ meant [] (unitLines s image d), Taken e := by
  rw [meant_unitLines, unitEntries, ← meant_volumeLines, ← meant_tailLines]
  simp only [List.forall_mem_append]
  exact ⟨⟨⟨⟨taken_headLines h, taken_deviceLines⟩, taken_volumeLines h⟩, taken_turnLines⟩,
    taken_tailLines⟩

/-- Entries of a known key. -/
theorem known_keys {key : Str} (hkey : Podman.isKnown key = true) (vs : List Str) :
    Known (vs.map (⟨containerPart, key, ·⟩)) := by
  intro e he _
  obtain ⟨v, -, rfl⟩ := List.mem_map.mp he
  exact hkey

/-- Every key of the unit is known. -/
theorem known_unit (volume dir : Str) : Known (unitEntries s image d volume dir) := by
  have hhead : Known (meant [] (headLines s image)) := by
    simp only [headLines, meant, Known, List.forall_mem_cons]
    exact ⟨fun hpart => absurd hpart (by decide), fun _ => rfl, fun _ => rfl, fun _ => rfl,
      fun _ => rfl, fun _ => rfl, fun _ => rfl, fun _ => rfl, fun _ => rfl, fun _ => rfl,
      fun _ => rfl, fun _ => rfl, fun _ => rfl, List.forall_mem_nil _⟩
  have hdevice : Known (meant containerPart (deviceLines d)) := by
    rw [meant_deviceLines]
    exact (known_keys rfl _).append (known_keys rfl _)
  have hvolume : Known (volumeEntries s volume) :=
    ((known_keys rfl [s.stateVolume]).append (known_keys rfl [volume])).append
      (known_keys rfl [s.httpPort])
  have hturn : Known (meant containerPart (turnLines s)) := by
    rw [meant_turnLines]
    exact known_keys rfl _
  have htail : Known (tailEntries s dir) := by
    simp only [tailEntries, Known, List.forall_mem_append, List.forall_mem_cons]
    exact ⟨⟨⟨fun _ => rfl, fun _ => rfl, fun _ => rfl, fun _ => rfl,
      fun hpart => absurd hpart (by decide), List.forall_mem_nil _⟩,
      fun hpart => absurd hpart (by decide), List.forall_mem_nil _⟩,
      fun hpart => absurd hpart (by decide), fun hpart => absurd hpart (by decide),
      fun hpart => absurd hpart (by decide), fun hpart => absurd hpart (by decide),
      List.forall_mem_nil _⟩
  exact (((hhead.append hdevice).append hvolume).append hturn).append htail

/-! #### The specifiers of the unit -/

/-- No path has a specifier. -/
theorem percent_path (path : Path) : '%' ∉ path.text :=
  not_mem_of_chars (value_path path) (by decide)

/-- No name has one. -/
theorem percent_name (name : Name) : '%' ∉ name.text :=
  not_mem_of_chars (value_name name) (by decide)

/-- No published port has one. -/
theorem percent_published (a : Address) (port : Port) {t : Str} (ht : '%' ∉ t) :
    '%' ∉ a.publish ++ ':' :: port.text ++ t := by
  have hpublish : '%' ∉ a.publish := not_mem_of_chars (publish_chars a) (by decide)
  have hport : '%' ∉ port.text := not_mem_of_chars (value_port port) (by decide)
  simp only [List.mem_append, List.mem_cons, not_or]
  exact ⟨⟨hpublish, by decide, hport⟩, ht⟩

/-- The environment has none. -/
theorem percent_environment (s : Settings) : '%' ∉ [' '].intercalate s.environment := by
  intro hmem
  rcases Str.mem_intercalate hmem with hblank | ⟨w, hw, hc⟩
  · exact absurd hblank (by decide)
  · exact not_mem_of_chars (environment_chars s w hw).2 (by decide) hc

/-- The name of the override file is plain. -/
theorem value_overrideFile (s : Settings) : ∀ c ∈ s.overrideFile, isValueChar c = true :=
  fun c hc => isValueChar_of_isPathChar (overrideFile_chars s c hc)

/-- The variable of the override file has none. -/
theorem percent_override (s : Settings) :
    '%' ∉ "CONTAINERS_CONF_OVERRIDE=".toList ++ s.overrideFile := by
  rw [List.mem_append, not_or]
  exact ⟨by decide, not_mem_of_chars (value_overrideFile s) (by decide)⟩

/-- `%t` stands for the runtime directory. -/
theorem resolve_runtime (before : Str) (hbefore : '%' ∉ before) {t : Str} (ht : '%' ∉ t) :
    systemd.resolve (before ++ '%' :: 't' :: '/' :: t) =
      some (before ++ (account.runtimeBase ++ '/' :: t)) := by
  rw [systemd.resolve_runtime before ('/' :: t) hbefore (by simpa using ht), List.append_assoc]

/-- There is no specifier in front of the devices. -/
theorem resolved_head :
    resolved systemd.resolve (meant [] (headLines s image)) =
      some (meant [] (headLines s image)) := by
  have himage : '%' ∉ image.text := not_mem_of_chars (image_chars image) (by decide)
  have hdescription : '%' ∉ "Android appliance (".toList ++ s.name.text ++ [')'] := by
    simp only [List.mem_append, not_or]
    exact ⟨⟨by decide, percent_name s.name⟩, by decide⟩
  refine systemd.resolved_of_not_mem ?_
  simp only [headLines, meant, List.forall_mem_cons]
  exact ⟨hdescription, percent_name s.name, himage, by decide, by decide, by decide, by decide,
    by decide, by decide, by decide, by decide, by decide, by decide, List.forall_mem_nil _⟩

/-- Nor in the devices. -/
theorem resolved_device :
    resolved systemd.resolve (meant containerPart (deviceLines d)) =
      some (meant containerPart (deviceLines d)) := by
  refine systemd.resolved_of_not_mem ?_
  rw [meant_deviceLines]
  refine List.forall_mem_append.mpr ⟨?_, ?_⟩
  · intro e he
    obtain ⟨v, hv, rfl⟩ := List.mem_map.mp he
    obtain ⟨node, -, rfl⟩ := List.mem_map.mp hv
    exact not_mem_of_chars (value_node node) (by decide)
  · intro e he
    obtain ⟨v, hv, rfl⟩ := List.mem_map.mp he
    unfold Devices.groups at hv
    split at hv
    · rw [List.mem_singleton.mp hv]
      decide
    · cases hv

/-- Nor in the ports of turnserver. -/
theorem resolved_turn :
    resolved systemd.resolve (meant containerPart (turnLines s)) =
      some (meant containerPart (turnLines s)) := by
  refine systemd.resolved_of_not_mem ?_
  rw [meant_turnLines]
  intro e he
  obtain ⟨v, hv, rfl⟩ := List.mem_map.mp he
  obtain ⟨a, -, hv⟩ := List.mem_flatMap.mp hv
  rcases List.mem_pair.mp hv with rfl | rfl
  · exact percent_published a s.turnPort (by decide)
  · exact percent_published a s.turnPort (by decide)

/-- The one of the volumes is that of the runtime directory. -/
theorem resolved_volume : resolved systemd.resolve (volumeEntries s s.runtimeVolume) =
    some (volumeEntries s (s.runtimeDir account ++ ":/run/appliance:Z".toList)) := by
  have hstate : '%' ∉ s.stateVolume := by
    rw [Settings.stateVolume, List.mem_append, not_or]
    exact ⟨percent_path s.stateDir, by decide⟩
  have hport : '%' ∉ s.httpPort := percent_published s.listen s.port (by decide)
  have hrest : '%' ∉ s.name.text ++ ":/run/appliance:Z".toList := by
    rw [List.mem_append, not_or]
    exact ⟨percent_name s.name, by decide⟩
  have hrun : systemd.resolve s.runtimeVolume =
      some (s.runtimeDir account ++ ":/run/appliance:Z".toList) := by
    rw [Settings.runtimeDir, List.append_assoc, List.cons_append]
    exact resolve_runtime [] List.not_mem_nil hrest
  rw [volumeEntries, Podman.resolved_append, Podman.resolved_append,
    Podman.resolved_singleton (systemd.resolve_free _ hstate),
    Podman.resolved_singleton hrun,
    Podman.resolved_singleton (systemd.resolve_free _ hport)]
  rfl

/-- The last one is that of `ExecStartPre`. -/
theorem resolved_tail :
    resolved systemd.resolve (tailEntries s ('%' :: 't' :: '/' :: s.name.text)) =
      some (tailEntries s (s.runtimeDir account)) := by
  -- One value has a specifier; it is resolved apart from the others.
  have hprepare : systemd.resolve
      ("/usr/bin/install -d -m 0700 ".toList ++ '%' :: 't' :: '/' :: s.name.text) =
        some ("/usr/bin/install -d -m 0700 ".toList ++ s.runtimeDir account) :=
    resolve_runtime _ (by decide) (percent_name s.name)
  rw [tailEntries, Podman.resolved_append, Podman.resolved_append,
    Podman.resolved_singleton hprepare, systemd.resolved_of_not_mem ?_,
    systemd.resolved_of_not_mem ?_]
  · rfl
  · simp only [List.forall_mem_cons]
    exact ⟨by decide, by decide, by decide, by decide, List.forall_mem_nil _⟩
  · simp only [List.forall_mem_cons]
    exact ⟨percent_path s.configFile, percent_environment s, by decide, by decide,
      percent_override s, List.forall_mem_nil _⟩

/-- The entries of the unit without specifiers. -/
theorem resolved_unit : resolved systemd.resolve (meant [] (unitLines s image d)) =
    some (unitEntries s image d (s.runtimeDir account ++ ":/run/appliance:Z".toList)
      (s.runtimeDir account)) := by
  rw [meant_unitLines, unitEntries, Podman.resolved_append, Podman.resolved_append,
    Podman.resolved_append, Podman.resolved_append, resolved_head, resolved_device,
    resolved_volume, resolved_turn, resolved_tail]
  rfl

/-! #### The options of the unit -/

/-- The options of the entries in front of the devices. -/
theorem options_head : Podman.containerOptions (meant [] (headLines s image)) = s.headOptions := rfl

/-- Those of the devices. -/
theorem options_device : Podman.containerOptions (meant containerPart (deviceLines d)) =
    d.options := by
  have hdevice : Podman.containerOptions ((d.render.toList.map Node.text).map
      (⟨containerPart, "AddDevice".toList, ·⟩)) =
        (d.render.toList.map Node.text).map ("device".toList, ·) :=
    Podman.containerOptions_key (p := ("AddDevice".toList, "device".toList)) (by decide) _
  have hgroup : Podman.containerOptions (d.groups.map (⟨containerPart, "GroupAdd".toList, ·⟩)) =
      d.groups.map ("group-add".toList, ·) :=
    Podman.containerOptions_key (p := ("GroupAdd".toList, "group-add".toList)) (by decide) _
  rw [meant_deviceLines, Podman.containerOptions_append, hdevice, hgroup, List.map_map,
    Devices.options, Devices.groups]
  split <;> rfl

/-- Those of the volumes. -/
theorem options_volume : Podman.containerOptions
    (volumeEntries s (s.runtimeDir account ++ ":/run/appliance:Z".toList)) =
      s.volumeOptions account := rfl

/-- Those of the ports of turnserver. -/
theorem options_turn : Podman.containerOptions (meant containerPart (turnLines s)) =
    s.turnOptions := by
  rw [meant_turnLines, Settings.turnOptions]
  exact Podman.containerOptions_key (p := ("PublishPort".toList, "publish".toList)) (by decide) _

/-- Those of the last entries. -/
theorem options_tail (dir : Str) : Podman.containerOptions (tailEntries s dir) =
    s.tailOptions := by
  have hwords : ([' '].intercalate s.environment).splitOn ' ' = s.environment :=
    List.splitOn_intercalate ' '
      (fun w hw => not_mem_of_chars (environment_chars s w hw).2 (by decide))
      (environment_ne_nil s)
  have hoptions : Podman.containerOptions (tailEntries s dir) =
      ("env-file".toList, s.configFile.text) ::
        (([' '].intercalate s.environment).splitOn ' ').map ("env".toList, ·) ++
          [("stop-timeout".toList, "150".toList), ("health-cmd".toList, healthCmd)] := rfl
  rw [hoptions, hwords, Settings.tailOptions]

/-- **The keys of the unit stand for the options of the installation.** -/
theorem options_unit : Podman.containerOptions (unitEntries s image d
    (s.runtimeDir account ++ ":/run/appliance:Z".toList) (s.runtimeDir account)) =
      s.options account d := by
  simp only [unitEntries, Podman.containerOptions_append, options_head, options_device,
    options_volume, options_turn, options_tail, Settings.options]

/-- **An option of a key** has the values of the installation. -/
theorem values_unit (h : NoUnit s image) {p : Str × Str} (hp : p ∈ Podman.keys) :
    (quadlet.options (meant [] (unitLines s image d)) p.2).mapM systemd.resolve =
      some (Podman.values (s.options account d) p.2) := by
  have henvironment : p.1 ≠ "Environment".toList := (Podman.keys_rows p hp).2.2.2.2.1
  have htaken : ∀ v ∈ valuesOf (meant [] (unitLines s image d)) containerPart p.1,
      Takes p.1 v := fun v hv =>
    taken_unit h _ (Podman.mem_valuesOf hv) rfl henvironment
  have hknown : Known (meant [] (unitLines s image d)) := by
    rw [meant_unitLines]
    exact known_unit _ _
  rw [quadlet.options_key _ hknown p hp htaken, Podman.valuesOf_resolved resolved_unit,
    ← Podman.values_containerOptions (known_unit _ _) hp, options_unit]

/-- A key that stands in the first and in the last lines only. -/
theorem valuesOf_unit (volume dir part : Str) {key : Str}
    (hdevice : "AddDevice".toList ≠ key) (hgroup : "GroupAdd".toList ≠ key)
    (hport : "PublishPort".toList ≠ key) (hvolume : "Volume".toList ≠ key) :
    valuesOf (unitEntries s image d volume dir) part key =
      valuesOf (meant [] (headLines s image)) part key ++
        valuesOf (tailEntries s dir) part key := by
  have hvolumes : valuesOf (volumeEntries s volume) part key = [] := by
    have hmap : volumeEntries s volume =
        [s.stateVolume, volume].map (⟨containerPart, "Volume".toList, ·⟩) ++
          [s.httpPort].map (⟨containerPart, "PublishPort".toList, ·⟩) := rfl
    rw [hmap, Podman.valuesOf_append, Podman.valuesOf_other hvolume, Podman.valuesOf_other hport,
      List.append_nil]
  rw [unitEntries, meant_deviceLines, meant_turnLines]
  simp only [Podman.valuesOf_append, Podman.valuesOf_other hdevice, Podman.valuesOf_other hgroup,
    Podman.valuesOf_other hport, hvolumes, List.append_nil]

/-- The key of a row of the second table stands in the first lines, with the value of the row. -/
theorem switches_unit : ∀ p ∈ Podman.switches,
    quadlet.options (meant [] (unitLines s image d)) p.2.2.1 = [p.2.2.2] := by
  have hknown : Known (meant [] (unitLines s image d)) := by
    rw [meant_unitLines]
    exact known_unit _ _
  have hother : ∀ p ∈ Podman.switches, "AddDevice".toList ≠ p.1 ∧ "GroupAdd".toList ≠ p.1 ∧
      "PublishPort".toList ≠ p.1 ∧ "Volume".toList ≠ p.1 := by decide
  have hvalue : ∀ p ∈ Podman.switches,
      valuesOf (meant [] (headLines s image)) containerPart p.1 ++
        valuesOf (tailEntries s ('%' :: 't' :: '/' :: s.name.text)) containerPart p.1 =
          [p.2.1] := by
    simp only [Podman.switches, List.forall_mem_cons]
    exact ⟨rfl, rfl, rfl, rfl, List.forall_mem_nil _⟩
  intro p hp
  obtain ⟨hdevice, hgroup, hport, hvolume⟩ := hother p hp
  refine quadlet.options_switch _ hknown p hp ?_
  rw [meant_unitLines, valuesOf_unit _ _ _ hdevice hgroup hport hvolume, hvalue p hp]

/-- The variables of the container, in any order. -/
theorem env_unit : (quadlet.options (meant [] (unitLines s image d)) "env".toList).Perm
    s.environment := by
  have hknown : Known (meant [] (unitLines s image d)) := by
    rw [meant_unitLines]
    exact known_unit _ _
  have hvalues : valuesOf (meant [] (unitLines s image d)) containerPart "Environment".toList =
      [[' '].intercalate s.environment] := by
    rw [meant_unitLines, valuesOf_unit _ _ _ (by decide) (by decide) (by decide) (by decide)]
    rfl
  have hword : ∀ v ∈ s.environment, Word v ∧ '=' ∈ v := by
    intro v hv
    refine ⟨⟨(environment_chars s v hv).1, word_chars (environment_chars s v hv).2⟩, ?_⟩
    simp only [Settings.environment, List.mem_cons, List.not_mem_nil, or_false] at hv
    rcases hv with rfl | rfl | rfl | rfl <;> exact List.mem_append_left _ (by decide)
  have hnames : (s.environment.map fun v => (Podman.variableOf v).1).Nodup := by
    have hmap : s.environment.map (fun v => (Podman.variableOf v).1) =
        ["APPLIANCE_LISTEN_ADDRESS".toList, "APPLIANCE_PORT".toList,
          "APPLIANCE_TURN_PORT".toList, "APPLIANCE_GPU".toList] := rfl
    rw [hmap]
    decide
  exact quadlet.options_env _ hknown _ _
    (begins_append (by decide) (by decide)) hword hnames hvalues

/-! #### The start -/

/-- The start of the unit, with the options that Quadlet makes of it. -/
def unitStart (systemd : Podman.Systemd account.runtimeBase) (quadlet : Podman.Quadlet)
    (s : Settings) (image : Image) (d : Devices) : Podman.Launch where
  before := [["install".toList, "-d".toList, "-m".toList, "0700".toList, s.runtimeDir account]]
  environment := [("CONTAINERS_CONF_OVERRIDE".toList, s.overrideFile)]
  restart := ["on-failure".toList]
  image := image.text
  values name := (quadlet.options (meant [] (unitLines s image d)) name).mapM systemd.resolve

/-- The command of `ExecStartPre`. -/
theorem prepare_unit : (systemd.words
    ("/usr/bin/install -d -m 0700 ".toList ++ '%' :: 't' :: '/' :: s.name.text)).mapM
      systemd.resolve = some (prepareWords (s.runtimeDir account)) := by
  have hjoin : "/usr/bin/install -d -m 0700 ".toList ++ '%' :: 't' :: '/' :: s.name.text =
      [' '].intercalate (prepareWords ('%' :: 't' :: '/' :: s.name.text)) := by
    simp [prepareWords, List.intercalate_cons_cons, List.intercalate_singleton]
  have hlast : Word ('%' :: 't' :: '/' :: s.name.text) := by
    refine ⟨List.cons_ne_nil _ _, ?_⟩
    simp only [List.forall_mem_cons]
    exact ⟨by decide, by decide, by decide, word_chars (value_name s.name)⟩
  have hwords : ∀ w ∈ prepareWords ('%' :: 't' :: '/' :: s.name.text), Word w := by
    simp only [prepareWords, List.forall_mem_cons]
    exact ⟨by decide, by decide, by decide, by decide, hlast, List.forall_mem_nil _⟩
  have hsplit : prepareWords ('%' :: 't' :: '/' :: s.name.text) =
      ["/usr/bin/install".toList, "-d".toList, "-m".toList, "0700".toList] ++
        ['%' :: 't' :: '/' :: s.name.text] := rfl
  have hdir : systemd.resolve ('%' :: 't' :: '/' :: s.name.text) = some (s.runtimeDir account) :=
    resolve_runtime [] List.not_mem_nil (percent_name s.name)
  rw [hjoin, prepareWords, systemd.words_plain _ _ (by decide) hwords, ← prepareWords, hsplit,
    List.mapM_append, systemd.mapM_resolve (by decide), List.mapM_cons, hdir]
  rfl

/-- **The unit starts the container that the installation is for.** -/
theorem ofUnit_writeUnit (h : NoUnit s image) :
    Podman.ofUnit systemd quadlet (writeUnit s image d) =
      some (unitStart systemd quadlet s image d) := by
  have hvalues : ∀ part {key : Str}, "AddDevice".toList ≠ key → "GroupAdd".toList ≠ key →
      "PublishPort".toList ≠ key → "Volume".toList ≠ key →
      valuesOf (meant [] (unitLines s image d)) part key =
        valuesOf (meant [] (headLines s image)) part key ++
          valuesOf (tailEntries s ('%' :: 't' :: '/' :: s.name.text)) part key := by
    rw [meant_unitLines]
    exact valuesOf_unit _ _
  have hbefore : valuesOf (meant [] (unitLines s image d)) "Service".toList
      "ExecStartPre".toList =
        ["/usr/bin/install -d -m 0700 ".toList ++ '%' :: 't' :: '/' :: s.name.text] := by
    rw [hvalues _ (by decide) (by decide) (by decide) (by decide)]
    rfl
  have henvironment : valuesOf (meant [] (unitLines s image d)) "Service".toList
      "Environment".toList = ["CONTAINERS_CONF_OVERRIDE=".toList ++ s.overrideFile] := by
    rw [hvalues _ (by decide) (by decide) (by decide) (by decide)]
    rfl
  have hrestart : valuesOf (meant [] (unitLines s image d)) "Service".toList "Restart".toList =
      ["on-failure".toList] := by
    rw [hvalues _ (by decide) (by decide) (by decide) (by decide)]
    rfl
  have himage : (quadlet.image (meant [] (unitLines s image d))).bind systemd.resolve =
      some image.text := by
    have hvalue : valuesOf (meant [] (unitLines s image d)) containerPart "Image".toList =
        [image.text] := by
      rw [hvalues _ (by decide) (by decide) (by decide) (by decide)]
      rfl
    have hmem : image.text ∈ valuesOf (meant [] (unitLines s image d)) containerPart
        "Image".toList := by
      rw [hvalue]
      exact List.mem_cons_self
    have htakes : Takes "Image".toList image.text :=
      taken_unit h _ (Podman.mem_valuesOf hmem) rfl
        (show "Image".toList ≠ "Environment".toList by decide)
    have hknown : Known (meant [] (unitLines s image d)) := by
      rw [meant_unitLines]
      exact known_unit _ _
    have hfree : '%' ∉ image.text := not_mem_of_chars (image_chars image) (by decide)
    rw [quadlet.image_key _ hknown _ htakes hvalue, Option.bind_some, systemd.resolve_free _ hfree]
  have hoverride : systemd.words ("CONTAINERS_CONF_OVERRIDE=".toList ++ s.overrideFile) =
      ["CONTAINERS_CONF_OVERRIDE=".toList ++ s.overrideFile] := by
    have hword : Word ("CONTAINERS_CONF_OVERRIDE=".toList ++ s.overrideFile) :=
      ⟨by simp, List.forall_mem_append.mpr
        ⟨forall_of_all (by decide), word_chars (value_overrideFile s)⟩⟩
    have hwords := systemd.words_plain _ [] (begins_append (by decide) (by decide))
      (List.forall_mem_singleton.mpr hword)
    rwa [List.intercalate_singleton] at hwords
  have hfree : ["CONTAINERS_CONF_OVERRIDE=".toList ++ s.overrideFile].mapM systemd.resolve =
      some ["CONTAINERS_CONF_OVERRIDE=".toList ++ s.overrideFile] :=
    systemd.mapM_resolve (List.forall_mem_singleton.mpr (percent_override s))
  have hread : systemd.read (writeUnit s image d) = some (meant [] (unitLines s image d)) :=
    systemd.read_lines _ unitLines_plain
  rw [Podman.ofUnit, hread, Option.bind_eq_bind, Option.bind_some, hbefore, List.mapM_cons,
    prepare_unit, henvironment, List.flatMap_singleton, hoverride, hfree, himage, hrestart]
  rfl

/-! ### The fields of the options -/

/-- The values of an option, part by part. -/
theorem options_values (name : Str) : Podman.values (s.options account d) name =
    Podman.values s.headOptions name ++ Podman.values d.options name ++
      Podman.values (s.volumeOptions account) name ++ Podman.values s.turnOptions name ++
      Podman.values s.tailOptions name := by
  simp only [Settings.options, Podman.values_append]

/-- The devices have no other options. -/
theorem deviceOptions_ne {name : Str} (hdevice : "device".toList ≠ name)
    (hgroup : "group-add".toList ≠ name) : ∀ o ∈ d.options, o.1 ≠ name := by
  refine List.forall_mem_append.mpr ⟨?_, ?_⟩
  · intro o ho
    obtain ⟨node, -, rfl⟩ := List.mem_map.mp ho
    exact hdevice
  · split
    · exact List.forall_mem_singleton.mpr hgroup
    · exact List.forall_mem_nil _

/-- The devices have no other option. -/
theorem device_values {name : Str} (hdevice : "device".toList ≠ name)
    (hgroup : "group-add".toList ≠ name) : Podman.values d.options name = [] :=
  Podman.values_of_ne (deviceOptions_ne hdevice hgroup)

/-- The ports of turnserver have none either. -/
theorem turnOptions_ne {name : Str} (h : "publish".toList ≠ name) :
    ∀ o ∈ s.turnOptions, o.1 ≠ name := by
  intro o ho
  obtain ⟨port, -, rfl⟩ := List.mem_map.mp ho
  exact h

/-- So they have no values of another option. -/
theorem turn_values {name : Str} (h : "publish".toList ≠ name) :
    Podman.values s.turnOptions name = [] := Podman.values_of_ne (turnOptions_ne h)

/-- Options that neither devices nor addresses are written with. -/
theorem fixed_values {name : Str} (hdevice : "device".toList ≠ name)
    (hgroup : "group-add".toList ≠ name) (hport : "publish".toList ≠ name) :
    Podman.values (s.options account d) name = Podman.values s.headOptions name ++
      Podman.values (s.volumeOptions account) name ++ Podman.values s.tailOptions name := by
  rw [options_values, device_values hdevice hgroup, turn_values hport, List.append_nil,
    List.append_nil]

/-- The published ports: the one of the API first. -/
theorem publish_values : Podman.values (s.options account d) "publish".toList =
    s.httpPort :: s.turnPublish.flatMap s.turnPorts := by
  have hturn : Podman.values s.turnOptions "publish".toList = s.turnPublish.flatMap s.turnPorts :=
    Podman.values_key (by decide) (by decide) _
  have htail : Podman.values s.tailOptions "publish".toList = [] := rfl
  rw [options_values, device_values (by decide) (by decide), hturn, htail, List.append_nil]
  rfl

/-- An address is read back, with or without brackets. -/
theorem publish_address (a : Address) {host container protocol : Str} (hhost : ':' ∉ host)
    (hcontainer : ':' ∉ container) (hslash : '/' ∉ container) (hprotocol : ':' ∉ protocol) :
    podman.publish (a.publish ++ ':' :: host ++ ':' :: (container ++ '/' :: protocol)) =
      some ⟨a.text, host, container, protocol⟩ := by
  unfold Address.publish
  split
  · -- Digits and dots: the first colon is the one behind the address.
    rename_i hv4
    have hcolon : ':' ∉ a.text := fun hmem => by
      rcases ipv4_chars hv4 _ hmem with halnum | hdot
      · exact absurd halnum (by decide)
      · exact absurd hdot (by decide)
    have hbracket : '[' ∉ a.text := fun hmem => by
      rcases ipv4_chars hv4 _ hmem with halnum | hdot
      · exact absurd halnum (by decide)
      · exact absurd hdot (by decide)
    exact podman.publish_plain _ _ _ _ hcolon hbracket hhost hcontainer hslash hprotocol
  · -- In brackets, where the address can have colons and has no bracket.
    have hclosing : ']' ∉ a.text := fun hmem => by
      rcases address_chars a _ hmem with halnum | hdot | hcolon
      · exact absurd halnum (by decide)
      · exact absurd hdot (by decide)
      · exact absurd hcolon (by decide)
    have hpublish := podman.publish_brackets _ _ _ _ hclosing hhost hcontainer hslash hprotocol
    simpa using hpublish

/-- Podman reads a published port field by field. -/
theorem read_published (a : Address) (port : Port) {text container protocol : Str}
    (htext : text = ':' :: (container ++ '/' :: protocol)) (hcontainer : ':' ∉ container)
    (hslash : '/' ∉ container) (hprotocol : ':' ∉ protocol) :
    podman.publish (a.publish ++ ':' :: port.text ++ text) =
      some ⟨a.text, port.text, container, protocol⟩ := by
  have hport : ':' ∉ port.text := fun hmem => absurd (port_chars port _ hmem) (by decide)
  rw [htext]
  exact publish_address a hport hcontainer hslash hprotocol

/-- Podman reads both directories field by field. -/
theorem read_volumes (hruntime : ':' ∉ account.runtimeBase) :
    (Podman.values (s.options account d) "volume".toList).map podman.mount = [
      some ⟨s.stateDir.text, "/data".toList, ["Z".toList, "nosuid".toList, "nodev".toList]⟩,
      some ⟨s.runtimeDir account, "/run/appliance".toList, ["Z".toList]⟩] := by
  have hvolume : Podman.values (s.options account d) "volume".toList =
      [s.stateVolume, s.runtimeDir account ++ ":/run/appliance:Z".toList] := by
    rw [fixed_values (by decide) (by decide) (by decide)]
    rfl
  have hstate : podman.mount s.stateVolume = some ⟨s.stateDir.text, "/data".toList,
      ["Z".toList, "nosuid".toList, "nodev".toList]⟩ := by
    have hmount := podman.mount_fields s.stateDir.text "/data".toList
      ["Z".toList, "nosuid".toList, "nodev".toList] (begins_path s.stateDir).1 (by decide)
      (by decide) (colon_path s.stateDir) (by decide) (by decide)
    rw [List.append_assoc] at hmount
    exact hmount
  have hdir : ':' ∉ s.runtimeDir account := by
    simp only [Settings.runtimeDir, List.mem_append, List.mem_cons, not_or]
    exact ⟨hruntime, by decide, colon_name s.name⟩
  have hrun : podman.mount (s.runtimeDir account ++ ":/run/appliance:Z".toList) =
      some ⟨s.runtimeDir account, "/run/appliance".toList, ["Z".toList]⟩ := by
    have hmount := podman.mount_fields (s.runtimeDir account) "/run/appliance".toList
      ["Z".toList] (by simp [Settings.runtimeDir]) (by decide) (by decide) hdir (by decide)
      (by decide)
    rw [List.append_assoc] at hmount
    exact hmount
  rw [hvolume, List.map_cons, List.map_singleton, hstate, hrun]

/-- Podman reads all ports field by field. -/
theorem read_ports : (Podman.values (s.options account d) "publish".toList).map podman.publish =
    some ⟨s.listen.text, s.port.text, "8080".toList, "tcp".toList⟩ ::
      (s.turnPublish.map Address.text).flatMap fun address => [
        some ⟨address, s.turnPort.text, "3478".toList, "udp".toList⟩,
        some ⟨address, s.turnPort.text, "3478".toList, "tcp".toList⟩] := by
  have hhttp : podman.publish s.httpPort =
      some ⟨s.listen.text, s.port.text, "8080".toList, "tcp".toList⟩ :=
    read_published s.listen s.port rfl (by decide) (by decide) (by decide)
  have hturn : ∀ a, (s.turnPorts a).map podman.publish = [
      some ⟨a.text, s.turnPort.text, "3478".toList, "udp".toList⟩,
      some ⟨a.text, s.turnPort.text, "3478".toList, "tcp".toList⟩] := by
    intro a
    have hudp : podman.publish (a.publish ++ ':' :: s.turnPort.text ++ ":3478/udp".toList) =
        some ⟨a.text, s.turnPort.text, "3478".toList, "udp".toList⟩ :=
      read_published a s.turnPort rfl (by decide) (by decide) (by decide)
    have htcp : podman.publish (a.publish ++ ':' :: s.turnPort.text ++ ":3478/tcp".toList) =
        some ⟨a.text, s.turnPort.text, "3478".toList, "tcp".toList⟩ :=
      read_published a s.turnPort rfl (by decide) (by decide) (by decide)
    rw [Settings.turnPorts, List.map_cons, List.map_singleton, hudp, htcp]
  rw [publish_values, List.map_cons, hhttp, List.map_flatMap, List.flatMap_map,
    List.flatMap_congr fun a _ => hturn a]

/-- **A setting is read where it is meant.** Whatever configuration is accepted, the unit has the
directories, the addresses and the ports of the configuration in fields of their own, and no
setting adds a line, a word or a field: by the manuals of the programs that read it. The runtime
directory is not checked by the installer, and no name ends like that of another unit. -/
theorem unit_meant (account : Account) (vars : Readers.Vars) (config_file : Str) (s : Settings)
    (image : Image) (d : Devices) (systemd : Podman.Systemd account.runtimeBase)
    (quadlet : Podman.Quadlet) (podman : Podman.Program)
    (hload : loadSettings account vars config_file = .ok s) (hunit : NoUnit s image)
    (hruntime : ':' ∉ account.runtimeBase) :
    ∃ start, Podman.ofUnit systemd quadlet (writeUnit s image d) = some start ∧
      start.image = image.text ∧
      start.before = [["install".toList, "-d".toList, "-m".toList, "0700".toList,
        s.runtimeDir account]] ∧
      start.environment = [("CONTAINERS_CONF_OVERRIDE".toList, s.overrideFile)] ∧
      start.values "name".toList =
        some [setting vars "APPLIANCE_NAME".toList "android-appliance".toList] ∧
      start.values "env-file".toList = some [s.configFile.text] ∧
      start.values "cap-drop".toList = some ["all".toList] ∧
      (start.values "volume".toList).map (·.map podman.mount) = some [
        some ⟨s.stateDir.text, "/data".toList, ["Z".toList, "nosuid".toList, "nodev".toList]⟩,
        some ⟨s.runtimeDir account, "/run/appliance".toList, ["Z".toList]⟩] ∧
      (start.values "publish".toList).map (·.map podman.publish) = some (
        some ⟨configuredListen vars, setting vars "APPLIANCE_PORT".toList "6090".toList,
            "8080".toList, "tcp".toList⟩ ::
          (readFields (setting vars "APPLIANCE_TURN_LISTEN_ADDRESSES".toList
            (configuredListen vars))).flatMap (fun address => [
              some ⟨address, setting vars "APPLIANCE_TURN_PORT".toList "3478".toList,
                "3478".toList, "udp".toList⟩,
              some ⟨address, setting vars "APPLIANCE_TURN_PORT".toList "3478".toList,
                "3478".toList, "tcp".toList⟩])) ∧
      ∃ env, start.values "env".toList = some env ∧ (env.map Podman.variableOf).Perm [
        ("APPLIANCE_LISTEN_ADDRESS".toList, configuredListen vars),
        ("APPLIANCE_PORT".toList, setting vars "APPLIANCE_PORT".toList "6090".toList),
        ("APPLIANCE_TURN_PORT".toList, setting vars "APPLIANCE_TURN_PORT".toList "3478".toList),
        ("APPLIANCE_GPU".toList, setting vars "APPLIANCE_GPU".toList "auto".toList)] := by
  have hvalues : ∀ {key name : Str}, (key, name) ∈ Podman.keys →
      (unitStart systemd quadlet s image d).values name =
        some (Podman.values (s.options account d) name) := fun hp => values_unit hunit hp
  have hname : Podman.values (s.options account d) "name".toList = [s.name.text] := by
    rw [fixed_values (by decide) (by decide) (by decide)]
    rfl
  have hfile : Podman.values (s.options account d) "env-file".toList = [s.configFile.text] := by
    rw [fixed_values (by decide) (by decide) (by decide)]
    rfl
  have hdrop : (unitStart systemd quadlet s image d).values "cap-drop".toList =
      some ["all".toList] := by
    have hswitch : quadlet.options (meant [] (unitLines s image d)) "cap-drop".toList =
        ["all".toList] := switches_unit
      ("DropCapability".toList, "all".toList, "cap-drop".toList, "all".toList) (by decide)
    change (quadlet.options _ "cap-drop".toList).mapM systemd.resolve = _
    rw [hswitch]
    exact systemd.mapM_resolve (by decide)
  obtain ⟨env, henv, hperm⟩ : ∃ env, (unitStart systemd quadlet s image d).values "env".toList =
      some env ∧ env.Perm s.environment := by
    have hfree : ∀ w ∈ quadlet.options (meant [] (unitLines s image d)) "env".toList,
        '%' ∉ w := fun w hw =>
      not_mem_of_chars (environment_chars s w (env_unit.mem_iff.mp hw)).2 (by decide)
    exact ⟨_, systemd.mapM_resolve hfree, env_unit⟩
  -- From here on the values are those of the settings.
  have hconfigured := configured hload
  rw [← hconfigured.turnPublish, ← hconfigured.name, ← hconfigured.listen, ← hconfigured.port,
    ← hconfigured.turnPort, ← hconfigured.gpu]
  refine ⟨unitStart systemd quadlet s image d, ofUnit_writeUnit hunit, rfl, rfl, rfl, ?_, ?_,
    hdrop, ?_, ?_, env, henv, hperm.map Podman.variableOf⟩
  · rw [hvalues (show ("ContainerName".toList, "name".toList) ∈ Podman.keys by decide), hname]
  · rw [hvalues (show ("EnvironmentFile".toList, "env-file".toList) ∈ Podman.keys by decide), hfile]
  · rw [hvalues (show ("Volume".toList, "volume".toList) ∈ Podman.keys by decide),
      Option.map_some, read_volumes hruntime]
  · rw [hvalues (show ("PublishPort".toList, "publish".toList) ∈ Podman.keys by decide),
      Option.map_some, read_ports]

/-- The account of a user. -/
def hostAccount : Account :=
  ⟨"/home/user".toList, "/home/user/.config".toList, "/home/user/.local/share".toList,
    "/run/user/1000".toList, "/home/user/appliance".toList, some ['2']⟩

/-- A configuration of a host with an address of its own. -/
def hostVars : Readers.Vars := fun key =>
  if key = "APPLIANCE_LISTEN_ADDRESS".toList then some "::1".toList
  else if key = "APPLIANCE_TURN_LISTEN_ADDRESSES".toList then some "::1,192.168.1.5".toList
  else none

/-- Two addresses, one of them IPv6. -/
theorem unit_meant_host : ∃ s,
    loadSettings hostAccount hostVars "/home/user/phone.conf".toList = .ok s ∧
      NoUnit s s.image ∧ ':' ∉ hostAccount.runtimeBase ∧
      ∃ start, Podman.ofUnit (Podman.plainSystemd hostAccount.runtimeBase) Podman.plainQuadlet
          (writeUnit s s.image ⟨none, false⟩) = some start ∧
        (start.values "publish".toList).map (·.map Podman.plainProgram.publish) = some [
          some ⟨"::1".toList, "6090".toList, "8080".toList, "tcp".toList⟩,
          some ⟨"::1".toList, "3478".toList, "3478".toList, "udp".toList⟩,
          some ⟨"::1".toList, "3478".toList, "3478".toList, "tcp".toList⟩,
          some ⟨"192.168.1.5".toList, "3478".toList, "3478".toList, "udp".toList⟩,
          some ⟨"192.168.1.5".toList, "3478".toList, "3478".toList, "tcp".toList⟩] := by
  have hruntime : ':' ∉ hostAccount.runtimeBase := by decide
  obtain ⟨s, hload, hunit⟩ : ∃ s,
      loadSettings hostAccount hostVars "/home/user/phone.conf".toList = .ok s ∧
        NoUnit s s.image := ⟨_, rfl, by decide⟩
  obtain ⟨start, hread, -, -, -, -, -, -, -, hports, -⟩ :=
    unit_meant hostAccount hostVars "/home/user/phone.conf".toList s s.image ⟨none, false⟩
      (Podman.plainSystemd hostAccount.runtimeBase) Podman.plainQuadlet Podman.plainProgram
      hload hunit hruntime
  exact ⟨s, hload, hunit, hruntime, start, hread, hports⟩

end Launch

end Install

end AndroidAppliance
