import AndroidAppliance.Install.Unit
import AndroidAppliance.Podman.Plain

/-!
# The values of the unit

`Settings.options` are the options that an installation is for. Every value that `write_unit`
writes is taken as it is: it holds no character that has a meaning in a word, and begins with
no prefix that systemd or Quadlet looks for.
-/

namespace AndroidAppliance

namespace Install

/-! ### What the container is started with -/

/-- `runtime_dir`, which a unit writes with `%t`. -/
def Settings.runtimeDir (s : Settings) (account : Account) : Str :=
  account.runtimeBase ++ '/' :: s.name.text

/-- The options in front of the devices. -/
def Settings.headOptions (s : Settings) : Podman.Options := [
  ("name".toList, s.name.text), ("pull".toList, "never".toList),
  ("userns".toList, "keep-id".toList), ("cap-drop".toList, "all".toList),
  ("security-opt".toList, "no-new-privileges".toList), ("read-only".toList, []),
  ("tmpfs".toList, "/tmp:rw,size=512m".toList), ("ulimit".toList, "core=0".toList),
  ("init".toList, []), ("tz".toList, "local".toList), ("device".toList, "/dev/kvm".toList)]

/-- The options of the devices. -/
def Devices.options (d : Devices) : Podman.Options :=
  (d.render.toList.map fun node => ("device".toList, node.text)) ++
    if d.groupAdd then [("group-add".toList, "keep-groups".toList)] else []

/-- The directories, and the port. -/
def Settings.volumeOptions (s : Settings) (account : Account) : Podman.Options := [
  ("volume".toList, s.stateVolume),
  ("volume".toList, s.runtimeDir account ++ ":/run/appliance:Z".toList),
  ("publish".toList, s.httpPort)]

/-- The ports of turnserver. -/
def Settings.turnOptions (s : Settings) : Podman.Options :=
  (s.turnPublish.flatMap s.turnPorts).map ("publish".toList, ·)

/-- The environment, and what comes last. -/
def Settings.tailOptions (s : Settings) : Podman.Options :=
  ("env-file".toList, s.configFile.text) :: s.environment.map ("env".toList, ·) ++
    [("stop-timeout".toList, "150".toList), ("health-cmd".toList, healthCmd)]

/-- The options that an installation is for. -/
def Settings.options (s : Settings) (account : Account) (d : Devices) : Podman.Options :=
  s.headOptions ++ d.options ++ s.volumeOptions account ++ s.turnOptions ++ s.tailOptions

/-- No name of the configuration ends like that of a unit of Quadlet, which would be taken for
it. -/
structure NoUnit (s : Settings) (image : Image) : Prop where
  name : ¬".volume".toList <:+ s.name.text
  stateDir : ¬".volume".toList <:+ s.stateDir.text
  image : ¬".image".toList <:+ image.text ∧ ¬".build".toList <:+ image.text

instance (s : Settings) (image : Image) : Decidable (NoUnit s image) :=
  decidable_of_iff (¬".volume".toList <:+ s.name.text ∧ ¬".volume".toList <:+ s.stateDir.text ∧
      ¬".image".toList <:+ image.text ∧ ¬".build".toList <:+ image.text)
    ⟨fun h => ⟨h.1, h.2.1, h.2.2⟩, fun h => ⟨h.name, h.stateDir, h.image⟩⟩

section Launch

open UnitFile (meant)
open Podman (containerPart Word Begins Takes)

variable {s : Settings} {image : Image} {d : Devices} {c : Char} {t : Str}

/-! #### Plain words -/

/-- A character that no value may hold is not in one. -/
theorem not_mem_of_chars (h : ∀ c ∈ t, isValueChar c = true) (hc : isValueChar c = false) :
    c ∉ t := fun hmem => by
  rw [h c hmem] at hc
  cases hc

/-- A path is a value. -/
theorem value_path (path : Path) : ∀ c ∈ path.text, isValueChar c = true :=
  fun c hc => isValueChar_of_isPathChar (path_chars path c hc)

/-- A name is a value. -/
theorem value_name (name : Name) : ∀ c ∈ name.text, isValueChar c = true :=
  fun c hc => isValueChar_of_isPathChar (name_chars name c hc)

/-- A device is a value. -/
theorem value_node (node : Node) : ∀ c ∈ node.text, isValueChar c = true :=
  fun c hc => isValueChar_of_isPathChar (isPath_chars node.valid c hc)

/-- A port is a value. -/
theorem value_port (port : Port) : ∀ c ∈ port.text, isValueChar c = true := fun c hc =>
  isValueChar_of_isPathChar (isPathChar_of_isAlnum (port_chars port c hc))

/-- The characters of a setting have no meaning in a word. -/
theorem isWordChar_of_value (h : isValueChar c = true) : Podman.isWordChar c = true := by
  have hmeaning : " \t\n\r'\"\\$;".toList.all (fun d => !isValueChar d) = true := by decide
  have hc : ∀ d ∈ " \t\n\r'\"\\$;".toList, c ≠ d := fun d hd =>
    ne_of_class (by simpa using List.all_eq_true.mp hmeaning d hd) h
  rw [Podman.isWordChar, Bool.not_eq_true', Bool.or_eq_false_iff]
  constructor
  · simp only [UnitFile.isBlank, Bool.or_eq_false_iff, decide_eq_false_iff_not]
    exact ⟨⟨⟨hc _ (by decide), hc _ (by decide)⟩, hc _ (by decide)⟩, hc _ (by decide)⟩
  · rw [Bool.eq_false_iff]
    intro hmem
    rw [List.contains_iff_mem] at hmem
    exact hc c (List.mem_of_mem_drop (i := 4) hmem) rfl

/-- The characters of a value have no meaning in a word. -/
theorem word_chars (h : ∀ c ∈ t, isValueChar c = true) : ∀ c ∈ t, Podman.isWordChar c = true :=
  fun c hc => isWordChar_of_value (h c hc)

/-- The two classes of letters and digits agree. -/
theorem isAlphanum_of_isAlnum (h : isAlnum c = true) : c.isAlphanum = true := by
  simp only [isAlnum, Bool.or_eq_true, Bool.and_eq_true, decide_eq_true_eq] at h
  -- The ranges of `Char.isUpper`, `Char.isLower` and `Char.isDigit`, written out.
  change (decide (c.val ≥ 'A'.val ∧ c.val ≤ 'Z'.val) ||
    (decide (c.val ≥ 'a'.val) && decide (c.val ≤ 'z'.val)) ||
    (decide (c.val ≥ '0'.val) && decide (c.val ≤ '9'.val))) = true
  simp only [Bool.or_eq_true, Bool.and_eq_true, decide_eq_true_eq]
  exact h

/-- The first character decides. -/
theorem begins_cons (h : (c.isAlphanum || "/[%".toList.contains c) = true) : Begins (c :: t) := by
  intro d hd
  cases hd
  exact h

/-- What follows does not matter. -/
theorem begins_append {u : Str} (h : Begins t) (hne : t ≠ []) : Begins (t ++ u) := by
  obtain ⟨d, rest, rfl⟩ := List.exists_cons_of_ne_nil hne
  exact begins_cons (h d rfl)

/-- A text that begins with a letter or a digit. -/
theorem begins_of_fullmatch {q : Char → Bool} (h : fullmatch isAlnum q t = true) :
    t ≠ [] ∧ Begins t := by
  cases t with
  | nil => cases h
  | cons d rest =>
    rw [fullmatch, Bool.and_eq_true] at h
    refine ⟨List.cons_ne_nil _ _, begins_cons ?_⟩
    rw [isAlphanum_of_isAlnum h.1, Bool.true_or]

/-- A name begins so. -/
theorem begins_name (name : Name) : name.text ≠ [] ∧ Begins name.text :=
  begins_of_fullmatch name.valid

/-- A path begins with a slash. -/
theorem head_path (path : Path) : ∃ rest, path.text = '/' :: rest := by
  unfold Path.text partsText
  cases path.parts with
  | nil => exact ⟨[], rfl⟩
  | cons part parts => exact ⟨_, rfl⟩

/-- A slash is no prefix that is looked for. -/
theorem begins_path (path : Path) : path.text ≠ [] ∧ Begins path.text := by
  obtain ⟨rest, hrest⟩ := head_path path
  rw [hrest]
  exact ⟨List.cons_ne_nil _ _, begins_cons (by decide)⟩

/-- A published address begins with a digit or a bracket. -/
theorem begins_publish (a : Address) : a.publish ≠ [] ∧ Begins a.publish := by
  unfold Address.publish
  split
  · rename_i hv4
    cases htext : a.text with
    | nil =>
      rw [htext] at hv4
      exact absurd hv4 (by decide)
    | cons d rest =>
      -- the first part has a digit
      rw [htext] at hv4
      refine ⟨List.cons_ne_nil _ _, begins_cons ?_⟩
      rcases ipv4_chars hv4 d List.mem_cons_self with halnum | rfl
      · rw [isAlphanum_of_isAlnum halnum, Bool.true_or]
      · simp only [isIpv4, Bool.and_eq_true, List.all_eq_true, decide_eq_true_eq] at hv4
        have hempty : ([] : Str) ∈ ('.' :: rest).splitOn '.' := by
          rw [List.splitOn_cons_eq_if_modifyHead, if_pos (by decide)]
          exact List.mem_cons_self
        exact absurd (hv4.2 [] hempty).1 (by decide)
  · exact ⟨List.cons_ne_nil _ _, begins_cons (by decide)⟩

/-! #### The values of the unit are taken as they are -/

/-- An entry of the container whose value is taken as it is. -/
def Taken (e : UnitFile.Entry) : Prop :=
  e.part = containerPart → e.key ≠ "Environment".toList → Takes e.key e.value

/-- An entry of another section. -/
theorem taken_other {part key value : Str} (h : part ≠ containerPart) :
    Taken ⟨part, key, value⟩ := fun hpart => absurd hpart h

/-- An entry of a key that takes the value. -/
theorem taken_of {part key value : Str} (h : Takes key value) : Taken ⟨part, key, value⟩ :=
  fun _ _ => h

/-- A word of a key that has no rule of its own. -/
theorem taken_word {part key value : Str} (hbegins : Begins value) (hword : Word value)
    (hfile : key ≠ "EnvironmentFile".toList) (hvolume : key ≠ "Volume".toList)
    (himage : key ≠ "Image".toList) : Taken ⟨part, key, value⟩ :=
  taken_of (.of_word hbegins hword (fun h => absurd h hfile) (fun h => absurd h hvolume)
    fun h => absurd h himage)

/-- A constant. -/
theorem taken_constant {part key value : Str} (h : Begins value ∧ Word value ∧
    key ≠ "EnvironmentFile".toList ∧ key ≠ "Volume".toList ∧ key ≠ "Image".toList) :
    Taken ⟨part, key, value⟩ := taken_word h.1 h.2.1 h.2.2.1 h.2.2.2.1 h.2.2.2.2

/-- In front of the devices. -/
theorem taken_headLines (h : NoUnit s image) :
    ∀ e ∈ meant [] (headLines s image), Taken e := by
  have hname : Taken ⟨containerPart, "ContainerName".toList, s.name.text⟩ :=
    taken_word (begins_name s.name).2 ⟨(begins_name s.name).1, word_chars (value_name s.name)⟩
      (by decide) (by decide) (by decide)
  obtain ⟨hne, hbegins⟩ := begins_of_fullmatch image.valid
  have himage : Taken ⟨containerPart, "Image".toList, image.text⟩ :=
    taken_of (.of_word hbegins ⟨hne, word_chars (image_chars image)⟩
      (fun hkey => absurd hkey (by decide)) (fun hkey => absurd hkey (by decide))
      fun _ => h.image)
  simp only [headLines, meant, List.forall_mem_cons]
  exact ⟨taken_other (by decide), hname, himage, taken_constant (by decide),
    taken_constant (by decide), taken_constant (by decide), taken_constant (by decide),
    taken_constant (by decide), taken_constant (by decide), taken_constant (by decide),
    taken_constant (by decide), taken_constant (by decide), taken_constant (by decide),
    List.forall_mem_nil _⟩

/-- A suffix that has no slash is one of what stands behind the slash. -/
theorem suffix_of_slash {u v w : Str} (hslash : '/' ∉ u) (h : u <:+ v ++ '/' :: w) : u <:+ w := by
  rcases List.suffix_or_suffix_of_suffix h (List.suffix_append v ('/' :: w)) with hshort | hlong
  · rcases List.suffix_cons_iff.mp hshort with rfl | hsuffix
    · exact absurd List.mem_cons_self hslash
    · exact hsuffix
  · exact absurd (hlong.subset List.mem_cons_self) hslash

/-- A directory whose source is no volume unit. -/
theorem taken_volume {source t : Str} (hne : source ≠ []) (hbegins : Begins source)
    (hsource : ∀ c ∈ source, Podman.isWordChar c = true)
    (ht : ∀ c ∈ ':' :: t, Podman.isWordChar c = true) (hcolon : ':' ∉ source)
    (hvolume : ¬".volume".toList <:+ source) :
    Taken ⟨containerPart, "Volume".toList, source ++ ':' :: t⟩ :=
  taken_of (.of_word (begins_append hbegins hne)
    ⟨by simp, List.forall_mem_append.mpr ⟨hsource, ht⟩⟩
    (fun hkey => absurd hkey (by decide))
    (fun _ => by rwa [Str.partition_sep hcolon])
    fun hkey => absurd hkey (by decide))

/-- A published port. -/
theorem taken_published (a : Address) (port : Port) {t : Str}
    (ht : ∀ c ∈ t, Podman.isWordChar c = true) : Taken ⟨containerPart, "PublishPort".toList,
      a.publish ++ ':' :: port.text ++ t⟩ := by
  obtain ⟨hne, hbegins⟩ := begins_publish a
  have hchars : ∀ c ∈ a.publish ++ ':' :: port.text ++ t, Podman.isWordChar c = true := by
    simp only [List.forall_mem_append, List.forall_mem_cons]
    exact ⟨⟨word_chars (publish_chars a), by decide, word_chars (value_port port)⟩, ht⟩
  refine taken_word ?_ ⟨by simp [hne], hchars⟩ (by decide) (by decide) (by decide)
  rw [List.append_assoc]
  exact begins_append hbegins hne

/-- The groups that the container keeps. -/
def Devices.groups (d : Devices) : List Str := if d.groupAdd then ["keep-groups".toList] else []

/-- The entries of the devices. -/
theorem meant_deviceLines : meant containerPart (deviceLines d) =
    (d.render.toList.map Node.text).map (⟨containerPart, "AddDevice".toList, ·⟩) ++
      d.groups.map (⟨containerPart, "GroupAdd".toList, ·⟩) := by
  obtain ⟨render, groupAdd⟩ := d
  cases render <;> cases groupAdd <;> rfl

/-- The devices. -/
theorem taken_deviceLines : ∀ e ∈ meant containerPart (deviceLines d), Taken e := by
  rw [meant_deviceLines]
  refine List.forall_mem_append.mpr ⟨?_, ?_⟩
  · intro e he
    obtain ⟨v, hv, rfl⟩ := List.mem_map.mp he
    obtain ⟨node, -, rfl⟩ := List.mem_map.mp hv
    have hchars : ∀ c ∈ node.text, Podman.isWordChar c = true := word_chars (value_node node)
    have hvalid := node.valid
    cases htext : node.text with
    | nil =>
      rw [htext] at hvalid
      cases hvalid
    | cons c rest =>
      rw [htext] at hvalid hchars
      rw [isPath, fullmatch, Bool.and_eq_true, decide_eq_true_eq] at hvalid
      refine taken_word (begins_cons ?_) ⟨List.cons_ne_nil _ _, hchars⟩ (by decide) (by decide)
        (by decide)
      rw [hvalid.1]
      decide
  · intro e he
    obtain ⟨v, hv, rfl⟩ := List.mem_map.mp he
    unfold Devices.groups at hv
    split at hv
    · rw [List.mem_singleton.mp hv]
      exact taken_constant (by decide)
    · cases hv

/-- The entries of the volumes and the first port. -/
def volumeEntries (s : Settings) (runtime : Str) : List UnitFile.Entry :=
  [⟨containerPart, "Volume".toList, s.stateVolume⟩] ++
    [⟨containerPart, "Volume".toList, runtime⟩] ++
    [⟨containerPart, "PublishPort".toList, s.httpPort⟩]

/-- The runtime directory in the unit. -/
def Settings.runtimeVolume (s : Settings) : Str :=
  "%t".toList ++ '/' :: s.name.text ++ ":/run/appliance:Z".toList

/-- The entries of the volumes. -/
theorem meant_volumeLines :
    meant containerPart (volumeLines s) = volumeEntries s s.runtimeVolume := by
  simp [volumeLines, meant, volumeEntries, Settings.runtimeVolume]

/-- No path has a colon. -/
theorem colon_path (path : Path) : ':' ∉ path.text := fun hmem =>
  absurd (path_chars path _ hmem) (by decide)

/-- No name has one. -/
theorem colon_name (name : Name) : ':' ∉ name.text := fun hmem =>
  absurd (name_chars name _ hmem) (by decide)

/-- The volumes. -/
theorem taken_volumeLines (h : NoUnit s image) :
    ∀ e ∈ meant containerPart (volumeLines s), Taken e := by
  have hstate : Taken ⟨containerPart, "Volume".toList, s.stateVolume⟩ := by
    obtain ⟨hne, hbegins⟩ := begins_path s.stateDir
    exact taken_volume hne hbegins (word_chars (value_path s.stateDir))
      (forall_of_all (by decide)) (colon_path s.stateDir) h.stateDir
  have hsource : ∀ c ∈ "%t".toList ++ '/' :: s.name.text, Podman.isWordChar c = true := by
    simp only [List.forall_mem_append, List.forall_mem_cons]
    exact ⟨forall_of_all (by decide), by decide, word_chars (value_name s.name)⟩
  have hcolon : ':' ∉ "%t".toList ++ '/' :: s.name.text := by
    simp only [List.mem_append, List.mem_cons, not_or]
    exact ⟨by decide, by decide, colon_name s.name⟩
  have hrun : Taken ⟨containerPart, "Volume".toList, s.runtimeVolume⟩ :=
    taken_volume (by simp) (begins_cons (by decide)) hsource (forall_of_all (by decide)) hcolon
      fun hvolume => h.name (suffix_of_slash (by decide) hvolume)
  rw [meant_volumeLines]
  simp only [volumeEntries, List.forall_mem_append, List.forall_mem_singleton]
  exact ⟨⟨hstate, hrun⟩, taken_published s.listen s.port (forall_of_all (by decide))⟩

/-- The entries of the ports of turnserver. -/
theorem meant_turnLines : meant containerPart (turnLines s) =
    (s.turnPublish.flatMap s.turnPorts).map (⟨containerPart, "PublishPort".toList, ·⟩) :=
  (UnitFile.meant_assigns containerPart "PublishPort".toList
    (s.turnPublish.flatMap s.turnPorts)).1

/-- The ports of turnserver. -/
theorem taken_turnLines : ∀ e ∈ meant containerPart (turnLines s), Taken e := by
  rw [meant_turnLines]
  intro e he
  obtain ⟨v, hv, rfl⟩ := List.mem_map.mp he
  obtain ⟨a, -, hv⟩ := List.mem_flatMap.mp hv
  rcases List.mem_pair.mp hv with rfl | rfl
  · exact taken_published a s.turnPort (forall_of_all (by decide))
  · exact taken_published a s.turnPort (forall_of_all (by decide))

/-- The command of `ExecStartPre`. -/
def prepareWords (runtime : Str) : List Str :=
  ["/usr/bin/install".toList, "-d".toList, "-m".toList, "0700".toList, runtime]

/-- The entries behind the ports, with the directory that `ExecStartPre` makes. -/
def tailEntries (s : Settings) (runtime : Str) : List UnitFile.Entry := [
  ⟨containerPart, "EnvironmentFile".toList, s.configFile.text⟩,
  ⟨containerPart, "Environment".toList, [' '].intercalate s.environment⟩,
  ⟨containerPart, "StopTimeout".toList, "150".toList⟩,
  ⟨containerPart, "HealthCmd".toList, healthCmd⟩,
  ⟨"Service".toList, "Environment".toList,
    "CONTAINERS_CONF_OVERRIDE=".toList ++ s.overrideFile⟩] ++
  [⟨"Service".toList, "ExecStartPre".toList, "/usr/bin/install -d -m 0700 ".toList ++ runtime⟩] ++ [
  ⟨"Service".toList, "Restart".toList, "on-failure".toList⟩,
  ⟨"Service".toList, "TimeoutStartSec".toList, "300".toList⟩,
  ⟨"Service".toList, "TimeoutStopSec".toList, "180".toList⟩,
  ⟨"Install".toList, "WantedBy".toList, "default.target".toList⟩]

/-- The last entries. -/
theorem meant_tailLines : meant containerPart (tailLines s) =
    tailEntries s ('%' :: 't' :: '/' :: s.name.text) := by
  simp [tailLines, meant, tailEntries]

/-- The last entries, of which the container's are words or assignments. -/
theorem taken_tailLines : ∀ e ∈ meant containerPart (tailLines s), Taken e := by
  have hfile : Taken ⟨containerPart, "EnvironmentFile".toList, s.configFile.text⟩ := by
    obtain ⟨hne, hbegins⟩ := begins_path s.configFile
    obtain ⟨rest, hrest⟩ := head_path s.configFile
    exact taken_of (.of_word hbegins ⟨hne, word_chars (value_path s.configFile)⟩
      (fun _ => by rw [hrest]; rfl) (fun hkey => absurd hkey (by decide))
      fun hkey => absurd hkey (by decide))
  have hhealth : Taken ⟨containerPart, "HealthCmd".toList, healthCmd⟩ := taken_of {
    begins := by decide
    words := ⟨"/opt/appliance/venv/bin/python".toList,
      ["-m".toList, "appliance".toList, "healthcheck".toList], by decide, by decide, .inr rfl⟩
    file := fun hkey => absurd hkey (by decide)
    volume := fun hkey => absurd hkey (by decide)
    image := fun hkey => absurd hkey (by decide) }
  rw [meant_tailLines]
  simp only [tailEntries, List.forall_mem_append, List.forall_mem_cons]
  exact ⟨⟨⟨hfile, fun _ henvironment => absurd rfl henvironment, taken_constant (by decide),
    hhealth, taken_other (by decide), List.forall_mem_nil _⟩, taken_other (by decide),
    List.forall_mem_nil _⟩, taken_other (by decide), taken_other (by decide),
    taken_other (by decide), taken_other (by decide), List.forall_mem_nil _⟩

end Launch

end Install

end AndroidAppliance
