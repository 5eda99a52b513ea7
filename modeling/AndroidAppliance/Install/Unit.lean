import AndroidAppliance.Install.Settings
import AndroidAppliance.Text.UnitFile

/-!
# The unit of an instance

`write_unit` of `install.sh`, and what the installer reads of a unit later: the mark of a unit
that it wrote, the configuration file that the unit belongs to and the image that it runs.

The values of a configuration stand in the text of the unit, where `systemd` gives newlines,
backslashes, blanks and `%` a meaning. No setting that `load_settings` accepts has one of them,
so the lines of a unit are plain.
-/

namespace AndroidAppliance

namespace Install

open UnitFile (Line)

/-! ### `write_unit` -/

/-- What `detect_devices` finds: a render node that the user can use, and whether the devices are
reached through the groups of the user. -/
structure Devices where
  render : Option Node
  groupAdd : Bool

/-- `health_cmd`. -/
def healthCmd : Str := "/opt/appliance/venv/bin/python -m appliance healthcheck".toList

/-- `override_file`. -/
def Settings.overrideFile (s : Settings) : Str :=
  s.configFile.dirname.text ++ '/' :: s.name.text ++ ".containers.conf".toList

/-- The lines up to the devices. -/
def headLines (s : Settings) (image : Image) : List Line := [
  .comment (" Managed by install.sh. Edit ".toList ++ s.configFile.text ++
    " and run install.sh again.".toList),
  .header "Unit".toList,
  .assign "Description".toList ("Android appliance (".toList ++ s.name.text ++ [')']),
  .blank,
  .header "Container".toList,
  .assign "ContainerName".toList s.name.text,
  .assign "Image".toList image.text,
  .assign "Pull".toList "never".toList,
  .assign "UserNS".toList "keep-id".toList,
  .assign "DropCapability".toList "all".toList,
  .assign "NoNewPrivileges".toList "true".toList,
  .assign "ReadOnly".toList "true".toList,
  .assign "Tmpfs".toList "/tmp:rw,size=512m".toList,
  .assign "Ulimit".toList "core=0".toList,
  .assign "RunInit".toList "true".toList,
  .assign "Timezone".toList "local".toList,
  .assign "AddDevice".toList "/dev/kvm".toList]

/-- The lines of the devices. -/
def deviceLines (d : Devices) : List Line :=
  (d.render.toList.map fun node => .assign "AddDevice".toList node.text) ++
    if d.groupAdd then [.assign "GroupAdd".toList "keep-groups".toList] else []

/-- `$state_dir:/data:Z,nosuid,nodev`. -/
def Settings.stateVolume (s : Settings) : Str := s.stateDir.text ++ ":/data:Z,nosuid,nodev".toList

/-- `$publish_address:$port:8080/tcp`. -/
def Settings.httpPort (s : Settings) : Str :=
  s.listen.publish ++ ':' :: s.port.text ++ ":8080/tcp".toList

/-- The two ports of an address of `turn_publish`. -/
def Settings.turnPorts (s : Settings) (a : Address) : List Str := [
  a.publish ++ ':' :: s.turnPort.text ++ ":3478/udp".toList,
  a.publish ++ ':' :: s.turnPort.text ++ ":3478/tcp".toList]

/-- The lines of the directories and of the port. -/
def volumeLines (s : Settings) : List Line := [
  .assign "Volume".toList s.stateVolume,
  .assign "Volume".toList ("%t/".toList ++ s.name.text ++ ":/run/appliance:Z".toList),
  .assign "PublishPort".toList s.httpPort]

/-- The lines of the ports of turnserver. -/
def turnLines (s : Settings) : List Line :=
  (s.turnPublish.flatMap s.turnPorts).map (.assign "PublishPort".toList)

/-- The variables that the unit sets beside the configuration file. -/
def Settings.environment (s : Settings) : List Str := [
  "APPLIANCE_LISTEN_ADDRESS=".toList ++ s.listen.text,
  "APPLIANCE_PORT=".toList ++ s.port.text,
  "APPLIANCE_TURN_PORT=".toList ++ s.turnPort.text,
  "APPLIANCE_GPU=".toList ++ s.gpu.text]

/-- The lines behind the ports. -/
def tailLines (s : Settings) : List Line := [
  .assign "EnvironmentFile".toList s.configFile.text,
  .assign "Environment".toList ([' '].intercalate s.environment),
  .assign "StopTimeout".toList "150".toList,
  .assign "HealthCmd".toList healthCmd,
  .blank,
  .header "Service".toList,
  .assign "Environment".toList ("CONTAINERS_CONF_OVERRIDE=".toList ++ s.overrideFile),
  .assign "ExecStartPre".toList ("/usr/bin/install -d -m 0700 %t/".toList ++ s.name.text),
  .assign "Restart".toList "on-failure".toList,
  .assign "TimeoutStartSec".toList "300".toList,
  .assign "TimeoutStopSec".toList "180".toList,
  .blank,
  .header "Install".toList,
  .assign "WantedBy".toList "default.target".toList]

/-- All lines. -/
def unitLines (s : Settings) (image : Image) (d : Devices) : List Line :=
  headLines s image ++ deviceLines d ++ volumeLines s ++ turnLines s ++ tailLines s

/-- `write_unit`. -/
def writeUnit (s : Settings) (image : Image) (d : Devices) : Str :=
  Str.unlines ((unitLines s image d).map Line.text)

/-! ### What is read of a unit -/

/-- `grep -q '^# Managed by install.sh'`. -/
def isManaged (unit : Str) : Bool :=
  (Str.lines Str.isNewline unit).any fun l => "# Managed by install.sh".toList.isPrefixOf l

/-- `sed -n 's/^EnvironmentFile=//p' | head -n 1`. -/
def environmentFile (unit : Str) : Str :=
  ((Str.lines Str.isNewline unit).findSome? (UnitFile.behind "EnvironmentFile=".toList)).getD []

/-- `grep -qxF "Image=$image"` of `remove_image`. -/
def runsImage (image : Image) (unit : Str) : Bool :=
  (Str.lines Str.isNewline unit).contains ("Image=".toList ++ image.text)

/-! ### The characters of the settings -/

/-- What the settings are written in: the characters of a path, colons and brackets. -/
def isValueChar (c : Char) : Bool := isPathChar c || c = ':' || c = '[' || c = ']'

section Characters

variable {s : Settings} {c d : Char} {p q : Char → Bool} {t : Str}

/-- A class that leaves a character out. -/
theorem ne_of_class (hd : p d = false) (h : p c = true) : c ≠ d := by
  rintro rfl
  rw [hd] at h
  cases h

/-- All characters are in a class when the first one and the others are. -/
theorem forall_of_fullmatch (h : fullmatch p q t = true) (hp : ∀ c, p c = true → q c = true) :
    ∀ c ∈ t, q c = true := by
  cases t with
  | nil => exact List.forall_mem_nil _
  | cons c t =>
    simp only [fullmatch, Bool.and_eq_true, List.all_eq_true] at h
    exact List.forall_mem_cons.mpr ⟨hp c h.1, h.2⟩

/-- A property of every character, from a computation on the text. -/
theorem forall_of_all (h : t.all p = true) : ∀ c ∈ t, p c = true := List.all_eq_true.mp h

/-- A list of characters within another. -/
theorem contains_of_subset {t' : Str} (hsub : t.all t'.contains = true)
    (h : t.contains c = true) : t'.contains c = true :=
  List.all_eq_true.mp hsub c (List.contains_iff_mem.mp h)

/-- Letters and digits may stand in a path. -/
theorem isPathChar_of_isAlnum (h : isAlnum c = true) : isPathChar c = true := by
  rw [isPathChar, h, Bool.true_or]

theorem isPathChar_slash : isPathChar '/' = true := by decide

/-- All characters of a path may. -/
theorem isPath_chars (h : isPath t = true) : ∀ c ∈ t, isPathChar c = true := by
  refine forall_of_fullmatch h fun c hc => ?_
  rw [of_decide_eq_true hc]
  exact isPathChar_slash

/-- Those of a path that was resolved may, too. -/
theorem path_chars (path : Path) : ∀ c ∈ path.text, isPathChar c = true := by
  unfold Path.text
  split
  · exact List.forall_mem_singleton.mpr isPathChar_slash
  · intro c hc
    obtain ⟨part, hpart, hc⟩ := List.mem_flatMap.mp hc
    rcases List.mem_cons.mp hc with rfl | hc
    · exact isPathChar_slash
    · have hvalid := path.valid part hpart
      simp only [isPart, Bool.and_eq_true, List.all_eq_true] at hvalid
      exact (hvalid.2 c hc).1

/-- So may those of a name. -/
theorem name_chars (name : Name) : ∀ c ∈ name.text, isPathChar c = true := by
  intro c hc
  have hclass := forall_of_fullmatch name.valid (fun d hd => by rw [hd, Bool.true_or]) c hc
  rw [Bool.or_eq_true] at hclass
  rcases hclass with halnum | hother
  · exact isPathChar_of_isAlnum halnum
  · rw [isPathChar, contains_of_subset (by decide) hother, Bool.or_true]

/-- What may stand in a path may stand in a value. -/
theorem isValueChar_of_isPathChar (h : isPathChar c = true) : isValueChar c = true := by
  rw [isValueChar, h, Bool.true_or, Bool.true_or, Bool.true_or]

/-- All characters of an image may. -/
theorem image_chars (image : Image) : ∀ c ∈ image.text, isValueChar c = true := by
  intro c hc
  have hclass := forall_of_fullmatch image.valid (fun d hd => by rw [hd, Bool.true_or]) c hc
  rw [Bool.or_eq_true] at hclass
  rcases hclass with halnum | hother
  · exact isValueChar_of_isPathChar (isPathChar_of_isAlnum halnum)
  · have hmem : c ∈ "._:/@-".toList := List.contains_iff_mem.mp hother
    exact forall_of_all (by decide) c hmem

/-- A digit is a letter or a digit. -/
theorem isAlnum_of_isDigit (h : c.isDigit = true) : isAlnum c = true := by
  simp only [Char.isDigit, Bool.and_eq_true, decide_eq_true_eq] at h
  simp only [isAlnum, Bool.or_eq_true, Bool.and_eq_true, decide_eq_true_eq]
  exact .inr h

/-- A number has digits only. -/
theorem digits_chars (h : Str.isDigits t = true) : ∀ c ∈ t, isAlnum c = true := by
  simp only [Str.isDigits, Bool.and_eq_true, List.all_eq_true] at h
  exact fun c hc => isAlnum_of_isDigit (h.2 c hc)

/-- So has a port. -/
theorem port_chars (port : Port) : ∀ c ∈ port.text, isAlnum c = true := by
  have hvalid := port.valid
  simp only [isPort, Bool.and_eq_true] at hvalid
  exact digits_chars hvalid.1.1.1

/-- An IPv4 address has letters, digits and dots. -/
theorem ipv4_chars (h : isIpv4 t = true) : ∀ c ∈ t, isAlnum c = true ∨ c = '.' := by
  intro c hc
  simp only [isIpv4, Bool.and_eq_true, List.all_eq_true, decide_eq_true_eq] at h
  have hjoin : ['.'].intercalate (t.splitOn '.') = t := List.intercalate_splitOn '.'
  rw [← hjoin] at hc
  rcases Str.mem_intercalate hc with rfl | ⟨part, hpart, hc⟩
  · exact .inr rfl
  · exact .inl (digits_chars (h.2 part hpart).1 c hc)

/-- The texts of addresses have digits, letters, dots and colons. -/
theorem address_chars (a : Address) :
    ∀ c ∈ a.text, isAlnum c = true ∨ c = '.' ∨ c = ':' := by
  intro c hc
  rcases Bool.or_eq_true _ _ ▸ a.valid with hv4 | hv6
  · rcases ipv4_chars hv4 c hc with halnum | rfl
    · exact .inl halnum
    · exact .inr (.inl rfl)
  · simp only [isIpv6, Bool.and_eq_true, List.all_eq_true] at hv6
    have hclass := hv6.1 c hc
    simp only [isIpv6Char, Bool.or_eq_true, Bool.and_eq_true, decide_eq_true_eq] at hclass
    rcases hclass with (((hdigit | hupper) | hlower) | rfl) | rfl
    · exact .inl (isAlnum_of_isDigit hdigit)
    · have hle : c ≤ 'Z' := Char.le_trans hupper.2 (by decide)
      exact .inl (by simp [isAlnum, hupper.1, hle])
    · have hle : c ≤ 'z' := Char.le_trans hlower.2 (by decide)
      exact .inl (by simp [isAlnum, hlower.1, hle])
    · exact .inr (.inr rfl)
    · exact .inr (.inl rfl)

/-- All characters of an address may stand in a value. -/
theorem address_value (a : Address) : ∀ c ∈ a.text, isValueChar c = true := by
  intro c hc
  rcases address_chars a c hc with halnum | rfl | rfl
  · exact isValueChar_of_isPathChar (isPathChar_of_isAlnum halnum)
  · decide
  · decide

/-- Two values, one behind the other. -/
theorem forall_value_append {a b : Str} (ha : ∀ c ∈ a, isValueChar c = true)
    (hb : ∀ c ∈ b, isValueChar c = true) : ∀ c ∈ a ++ b, isValueChar c = true :=
  List.forall_mem_append.mpr ⟨ha, hb⟩

/-- All characters of a published address may stand in a value. -/
theorem publish_chars (a : Address) : ∀ c ∈ a.publish, isValueChar c = true := by
  unfold Address.publish
  split
  · exact address_value a
  · refine List.forall_mem_cons.mpr ⟨by decide, forall_value_append (address_value a) ?_⟩
    exact List.forall_mem_singleton.mpr (by decide)

/-- A `Gpu` has letters only. -/
theorem gpu_chars (g : Gpu) : ∀ c ∈ g.text, isAlnum c = true := by
  cases g
  · exact forall_of_all (by decide)
  · exact forall_of_all (by decide)
  · exact forall_of_all (by decide)

/-- All characters of the override file may stand in a path. -/
theorem overrideFile_chars (s : Settings) : ∀ c ∈ s.overrideFile, isPathChar c = true := by
  refine List.forall_mem_append.mpr ⟨List.forall_mem_append.mpr ⟨path_chars _, ?_⟩, ?_⟩
  · exact List.forall_mem_cons.mpr ⟨isPathChar_slash, name_chars s.name⟩
  · exact forall_of_all (by decide)

/-- Such a value is plain. -/
theorem plain_of_chars (h : ∀ c ∈ t, isValueChar c = true) : UnitFile.Plain t := by
  refine UnitFile.Plain.of_forall fun c hc => ⟨?_, ne_of_class (by decide) (h c hc)⟩
  rw [Bool.eq_false_iff]
  intro hblank
  simp only [UnitFile.isBlank, Bool.or_eq_true, decide_eq_true_eq] at hblank
  rcases hblank with ((rfl | rfl) | rfl) | rfl
  · exact absurd (h _ hc) (by decide)
  · exact absurd (h _ hc) (by decide)
  · exact absurd (h _ hc) (by decide)
  · exact absurd (h _ hc) (by decide)

end Characters

/-! ### The lines are plain -/

section Lines

variable {s : Settings} {image : Image} {d : Devices}

/-- A path is plain. -/
theorem plain_path (path : Path) : UnitFile.Plain path.text :=
  plain_of_chars fun c hc => isValueChar_of_isPathChar (path_chars path c hc)

/-- A name is plain. -/
theorem plain_name (name : Name) : UnitFile.Plain name.text :=
  plain_of_chars fun c hc => isValueChar_of_isPathChar (name_chars name c hc)

/-- The lines in front of the devices. -/
theorem headLines_plain : ∀ l ∈ headLines s image, l.Plain := by
  have hcomment : Line.Plain (.comment (" Managed by install.sh. Edit ".toList ++
      s.configFile.text ++ " and run install.sh again.".toList)) := by
    have hconfig := (plain_path s.configFile).newline
    simp only [Line.Plain, List.mem_append, not_or]
    exact ⟨⟨by decide, hconfig⟩, by decide⟩
  have hdescription : UnitFile.Plain ("Android appliance (".toList ++ s.name.text ++ [')']) :=
    .append (.append (by decide) (plain_name s.name)) (by decide)
  simp only [headLines, List.forall_mem_cons]
  exact ⟨hcomment, by decide, ⟨by decide, hdescription⟩, trivial, by decide,
    ⟨by decide, plain_name s.name⟩, ⟨by decide, plain_of_chars (image_chars image)⟩, by decide,
    by decide, by decide, by decide, by decide, by decide, by decide, by decide, by decide,
    by decide, List.forall_mem_nil _⟩

/-- The lines of the devices. -/
theorem deviceLines_plain : ∀ l ∈ deviceLines d, l.Plain := by
  refine List.forall_mem_append.mpr ⟨?_, ?_⟩
  · intro l hl
    obtain ⟨node, -, rfl⟩ := List.mem_map.mp hl
    exact ⟨by decide, plain_of_chars fun c hc =>
      isValueChar_of_isPathChar (isPath_chars node.valid c hc)⟩
  · split
    · exact List.forall_mem_singleton.mpr (by decide)
    · exact List.forall_mem_nil _

/-- A port is plain. -/
theorem plain_port (port : Port) : UnitFile.Plain port.text :=
  plain_of_chars fun c hc =>
    isValueChar_of_isPathChar (isPathChar_of_isAlnum (port_chars port c hc))

/-- A published port is plain when the container's is. -/
theorem plain_published (a : Address) (port : Port) {t : Str} (ht : UnitFile.Plain t) :
    UnitFile.Plain (a.publish ++ ':' :: port.text ++ t) :=
  .append (.append (plain_of_chars (publish_chars a)) (.append (s := [':']) (by decide)
    (plain_port port))) ht

/-- The lines of the volumes. -/
theorem volumeLines_plain : ∀ l ∈ volumeLines s, l.Plain := by
  have hstate : UnitFile.Plain s.stateVolume := .append (plain_path s.stateDir) (by decide)
  have hrun : UnitFile.Plain ("%t/".toList ++ s.name.text ++ ":/run/appliance:Z".toList) :=
    .append (.append (by decide) (plain_name s.name)) (by decide)
  simp only [volumeLines, List.forall_mem_cons]
  exact ⟨⟨by decide, hstate⟩, ⟨by decide, hrun⟩,
    ⟨by decide, plain_published s.listen s.port (by decide)⟩, List.forall_mem_nil _⟩

/-- The lines of the ports of turnserver. -/
theorem turnLines_plain : ∀ l ∈ turnLines s, l.Plain := by
  intro l hl
  obtain ⟨value, hvalue, rfl⟩ := List.mem_map.mp hl
  obtain ⟨a, -, hvalue⟩ := List.mem_flatMap.mp hvalue
  rcases List.mem_pair.mp hvalue with rfl | rfl
  · exact ⟨by decide, plain_published a s.turnPort (by decide)⟩
  · exact ⟨by decide, plain_published a s.turnPort (by decide)⟩

/-- No variable is empty, and all characters may stand in a value. -/
theorem environment_chars (s : Settings) :
    ∀ w ∈ s.environment, w ≠ [] ∧ ∀ c ∈ w, isValueChar c = true := by
  have halnum : ∀ {value : Str}, (∀ c ∈ value, isAlnum c = true) →
      ∀ c ∈ value, isValueChar c = true := fun h c hc =>
    isValueChar_of_isPathChar (isPathChar_of_isAlnum (h c hc))
  have hassign : ∀ {key value : Str}, key ≠ [] → (∀ c ∈ key, isValueChar c = true) →
      (∀ c ∈ value, isValueChar c = true) →
      key ++ value ≠ [] ∧ ∀ c ∈ key ++ value, isValueChar c = true :=
    fun hne hkey hvalue => ⟨by simp [hne], forall_value_append hkey hvalue⟩
  simp only [Settings.environment, List.forall_mem_cons]
  exact ⟨hassign (by decide) (forall_of_all (by decide)) (address_value s.listen),
    hassign (by decide) (forall_of_all (by decide)) (halnum (port_chars s.port)),
    hassign (by decide) (forall_of_all (by decide)) (halnum (port_chars s.turnPort)),
    hassign (by decide) (forall_of_all (by decide)) (halnum (gpu_chars s.gpu)),
    List.forall_mem_nil _⟩

theorem environment_ne_nil (s : Settings) : s.environment ≠ [] := List.cons_ne_nil _ _

/-- The environment on one line is plain. -/
theorem plain_environment : UnitFile.Plain ([' '].intercalate s.environment) :=
  (UnitFile.Plain.intercalate (fun w hw => ⟨plain_of_chars (environment_chars s w hw).2,
    (environment_chars s w hw).1⟩) (environment_ne_nil s)).1

/-- The last lines. -/
theorem tailLines_plain : ∀ l ∈ tailLines s, l.Plain := by
  have hoverride : UnitFile.Plain ("CONTAINERS_CONF_OVERRIDE=".toList ++ s.overrideFile) :=
    .append (by decide) (plain_of_chars fun c hc =>
      isValueChar_of_isPathChar (overrideFile_chars s c hc))
  have hprepare : UnitFile.Plain ("/usr/bin/install -d -m 0700 %t/".toList ++ s.name.text) :=
    .append (by decide) (plain_name s.name)
  simp only [tailLines, List.forall_mem_cons]
  exact ⟨⟨by decide, plain_path s.configFile⟩, ⟨by decide, plain_environment⟩, by decide,
    ⟨by decide, by decide⟩, trivial, by decide, ⟨by decide, hoverride⟩, ⟨by decide, hprepare⟩,
    by decide, by decide, by decide, trivial, by decide, by decide, List.forall_mem_nil _⟩

/-- **Every line of a unit is plain.** -/
theorem unitLines_plain : ∀ l ∈ unitLines s image d, l.Plain := by
  simp only [unitLines, List.forall_mem_append]
  exact ⟨⟨⟨⟨headLines_plain, deviceLines_plain⟩, volumeLines_plain⟩, turnLines_plain⟩,
    tailLines_plain⟩

end Lines

/-! ### What is read of the unit later -/

section Later

variable {s : Settings} {image : Image} {d : Devices}

/-- The lines of the text are the lines of the unit. -/
theorem lines_writeUnit : Str.lines Str.isNewline (writeUnit s image d) =
    (unitLines s image d).map Line.text := UnitFile.lines_text unitLines_plain

/-- What the lines of the unit assign to a key that no device and no address is written with. -/
theorem value_unitLines {key : Str} (hdevice : "AddDevice".toList ≠ key)
    (hgroup : "GroupAdd".toList ≠ key) (hport : "PublishPort".toList ≠ key) :
    (unitLines s image d).filterMap (Line.value key) =
      (headLines s image).filterMap (Line.value key) ++
        (volumeLines s).filterMap (Line.value key) ++ (tailLines s).filterMap (Line.value key) := by
  have hdevices : (deviceLines d).filterMap (Line.value key) = [] := by
    rw [List.filterMap_eq_nil_iff]
    refine List.forall_mem_append.mpr ⟨?_, ?_⟩
    · intro l hl
      obtain ⟨node, -, rfl⟩ := List.mem_map.mp hl
      exact if_neg hdevice
    · split
      · exact List.forall_mem_singleton.mpr (if_neg hgroup)
      · exact List.forall_mem_nil _
  have hturn : (turnLines s).filterMap (Line.value key) = [] := by
    rw [List.filterMap_eq_nil_iff]
    intro l hl
    obtain ⟨value, -, rfl⟩ := List.mem_map.mp hl
    exact if_neg hport
  simp only [unitLines, List.filterMap_append, hdevices, hturn, List.append_nil]

/-- A line of the unit is found by its key. -/
theorem behind_unitLines {l : Line} (hl : l ∈ unitLines s image d) {key : Str} (hfree : '=' ∉ key)
    (hhead : ∃ c rest, key = c :: rest ∧ c ≠ '#' ∧ c ≠ '[') :
    UnitFile.behind (key ++ ['=']) l.text = l.value key :=
  UnitFile.behind_text (unitLines_plain l hl) hfree hhead

/-- The configuration file that the unit belongs to. -/
theorem environmentFile_writeUnit :
    environmentFile (writeUnit s image d) = s.configFile.text := by
  have hbehind : (unitLines s image d).filterMap
      (UnitFile.behind ("EnvironmentFile".toList ++ ['=']) ∘ Line.text) =
        (unitLines s image d).filterMap (Line.value "EnvironmentFile".toList) :=
    List.filterMap_congr fun l hl => behind_unitLines hl (by decide)
      ⟨'E', "nvironmentFile".toList, rfl, by decide, by decide⟩
  have hkey : "EnvironmentFile=".toList = "EnvironmentFile".toList ++ ['='] := by decide
  rw [environmentFile, lines_writeUnit, List.findSome?_map, ← List.head?_filterMap, hkey, hbehind,
    value_unitLines (by decide) (by decide) (by decide)]
  rfl

/-- The image that the unit runs. -/
theorem runsImage_writeUnit (other : Image) :
    runsImage other (writeUnit s image d) = true ↔ other.text = image.text := by
  have hkey : "Image=".toList = "Image".toList ++ ['='] := by decide
  have hvalues : (unitLines s image d).filterMap (Line.value "Image".toList) = [image.text] := by
    rw [value_unitLines (by decide) (by decide) (by decide)]
    rfl
  rw [runsImage, lines_writeUnit, List.contains_iff_mem, List.mem_map]
  constructor
  · rintro ⟨l, hl, htext⟩
    -- The line assigns to the key, and one line of the unit does.
    have hbehind : UnitFile.behind ("Image".toList ++ ['=']) l.text = l.value "Image".toList :=
      behind_unitLines hl (by decide) ⟨'I', "mage".toList, rfl, by decide, by decide⟩
    have hvalue : l.value "Image".toList = some other.text := by
      rw [← hbehind, htext, hkey, UnitFile.behind,
        if_pos (List.isPrefixOf_iff_prefix.mpr (List.prefix_append _ _)), List.drop_left]
    have hmem := List.mem_filterMap.mpr ⟨l, hl, hvalue⟩
    rw [hvalues] at hmem
    exact List.mem_singleton.mp hmem
  · intro heq
    refine ⟨.assign "Image".toList image.text, ?_, ?_⟩
    · simp [unitLines, headLines]
    · rw [Line.text, hkey, List.append_assoc, List.singleton_append, heq]

/-- **A unit that was written is recognised.** The installer sees its mark, the configuration that
it belongs to, so no other configuration takes the unit over, and the image that it runs, so that
image and no other is kept from being removed. -/
theorem unit_recognised (s : Settings) (image : Image) (d : Devices) :
    isManaged (writeUnit s image d) = true ∧
      environmentFile (writeUnit s image d) = s.configFile.text ∧
      ∀ other : Image, runsImage other (writeUnit s image d) = true ↔ other.text = image.text := by
  have hmark : isManaged (writeUnit s image d) = true := by
    rw [isManaged, lines_writeUnit, List.any_map]
    refine List.any_eq_true.mpr ⟨_, List.mem_append_left _ (List.mem_append_left _
      (List.mem_append_left _ (List.mem_append_left _ List.mem_cons_self))), ?_⟩
    rfl
  exact ⟨hmark, environmentFile_writeUnit, runsImage_writeUnit⟩

end Later

end Install

end AndroidAppliance
