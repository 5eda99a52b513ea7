import AndroidAppliance.Install.Start

/-!
# The command of an instance

`quote` and `print_run` of `install.sh`: the installation for a host without systemd. A shell
that reads what is printed makes the runtime directory and runs Podman with the options that the
keys of the unit stand for: `command_agrees`.
-/

namespace AndroidAppliance

namespace Install

open Shell (Piece)

/-! ### `quote` and `print_run` -/

/-- `[A-Za-z0-9_./:=@%+,-]`. -/
def isSafe (c : Char) : Bool := isAlnum c || "_./:=@%+,-".toList.contains c

/-- The text is empty or has another character. -/
def needsQuotes (s : Str) : Bool := s.isEmpty || s.any fun c => !isSafe c

/-- `quote`. -/
def quote (s : Str) : Str := if needsQuotes s then Shell.singleQuoted s else s

/-- `BEFORE$(quote "$s")`. -/
def glued (before s : Str) : Piece :=
  if needsQuotes s then .quoted before s else .bare (before ++ s)

/-- `$(quote "$s")`. -/
def quoted (s : Str) : Piece := glued [] s

/-- `install -d -m 0700 $(quote "$runtime_dir")`. -/
def prepareLine (s : Settings) (account : Account) : List Piece := [
  .bare "install".toList, .bare "-d".toList, .bare "-m".toList, .bare "0700".toList,
  quoted (s.runtimeDir account)]

/-- `CONTAINERS_CONF_OVERRIDE=$(quote "$override_file") podman run -d`. -/
def startLine (s : Settings) : List Piece := [
  glued "CONTAINERS_CONF_OVERRIDE=".toList s.overrideFile, .bare "podman".toList,
  .bare "run".toList, .bare "-d".toList]

/-- The first lines of `options`. -/
def commonLines (s : Settings) : List (List Piece) := [
  [.bare "--name".toList, quoted s.name.text, .bare "--replace".toList,
    .bare "--pull=never".toList, .bare "--restart=on-failure".toList],
  [.bare "--userns=keep-id".toList, .bare "--cap-drop=ALL".toList,
    .bare "--security-opt".toList, .bare "no-new-privileges".toList],
  [.bare "--read-only".toList, .bare "--tmpfs".toList, .bare "/tmp:rw,size=512m".toList,
    .bare "--ulimit".toList, .bare "core=0".toList, .bare "--init".toList,
    .bare "--tz=local".toList],
  [.bare "--device".toList, .bare "/dev/kvm".toList]]

/-- The lines of the devices. -/
def Devices.lines (d : Devices) : List (List Piece) :=
  (d.render.toList.map fun node => [.bare "--device".toList, quoted node.text]) ++
    if d.groupAdd then [[.bare "--group-add".toList, .bare "keep-groups".toList]] else []

/-- The lines of `options` behind the devices. -/
def settingLines (s : Settings) (account : Account) : List (List Piece) := [
  [.bare "-v".toList, quoted s.stateVolume, .bare "-v".toList,
    quoted (s.runtimeDir account ++ ":/run/appliance:Z".toList)],
  [.bare "-p".toList, quoted s.httpPort],
  [.bare "--env-file".toList, quoted s.configFile.text],
  [.bare "--env".toList, glued "APPLIANCE_LISTEN_ADDRESS=".toList s.listen.text,
    .bare "--env".toList, .bare ("APPLIANCE_PORT=".toList ++ s.port.text)],
  [.bare "--env".toList, .bare ("APPLIANCE_TURN_PORT=".toList ++ s.turnPort.text),
    .bare "--env".toList, .bare ("APPLIANCE_GPU=".toList ++ s.gpu.text)],
  [.bare "--stop-timeout".toList, .bare "150".toList, .bare "--health-cmd".toList,
    quoted healthCmd]]

/-- The lines that the addresses of `turn_publish` add. -/
def Settings.addressLines (s : Settings) : List (List Piece) :=
  s.turnPublish.map fun a =>
    (s.turnPorts a).flatMap fun port => [.bare "-p".toList, quoted port]

/-- The lines of the options. -/
def optionLines (s : Settings) (account : Account) (d : Devices) : List (List Piece) :=
  commonLines s ++ d.lines ++ settingLines s account ++ s.addressLines

/-- The lines of the command. -/
def runLines (s : Settings) (account : Account) (image : Image) (d : Devices) :
    List (List Piece) :=
  startLine s :: optionLines s account d ++ [[quoted image.text]]

/-- The words of a line. -/
def lineText (ps : List Piece) : Str := [' '].intercalate (ps.map Piece.text)

/-- The lines of one command: each but the last ends in a backslash, each but the first is
indented. -/
def commandText (lines : List (List Piece)) : Str :=
  " \\\n  ".toList.intercalate (lines.map lineText)

/-- `print_run`. -/
def printRun (s : Settings) (account : Account) (image : Image) (d : Devices) : Str :=
  '#' :: (" Run ".toList ++ s.name.text ++
      " without systemd. Stop it with: podman stop -t 150 ".toList ++ s.name.text ++
    '\n' :: (lineText (prepareLine s account) ++
    '\n' :: (commandText (runLines s account image d) ++ ['\n'])))

/-! ### Words -/

section Words

variable {c : Char} {before s : Str}

/-- What `quote` leaves bare, no expansion changes. -/
theorem isBare_of_isSafe (h : isSafe c = true) : Shell.isBare c = true := by
  simp only [Shell.isBare, Shell.isOrdinary, Shell.isOperator, Shell.isBlank, Bool.and_eq_true,
    Bool.not_eq_true', Bool.or_eq_false_iff, decide_eq_false_iff_not, bne_iff_ne]
  and_intros <;> exact ne_of_class (by decide) h

/-- What needs no quotes is not empty. -/
theorem safe_of_not_needsQuotes (h : ¬needsQuotes s = true) :
    s ≠ [] ∧ ∀ c ∈ s, isSafe c = true := by
  simpa [needsQuotes] using h

/-- What is printed is what `quote` writes. -/
theorem glued_text (before s : Str) : (glued before s).text = before ++ quote s := by
  unfold glued quote
  split <;> rfl

/-- A piece with text in front of a quoted one. -/
theorem glued_value (before s : Str) : (glued before s).value = before ++ s := by
  unfold glued
  split <;> rfl

/-- A quoted piece stands for its text. -/
theorem quoted_value (s : Str) : (quoted s).value = s := glued_value [] s

/-- It is read as its value. -/
theorem glued_ok (h : ∀ c ∈ before, Shell.isBare c = true) (s : Str) : (glued before s).Ok := by
  unfold glued
  split
  · exact h
  · rename_i hsafe
    obtain ⟨hne, hs⟩ := safe_of_not_needsQuotes hsafe
    exact ⟨by simp [hne], List.forall_mem_append.mpr ⟨h, fun c hc => isBare_of_isSafe (hs c hc)⟩⟩

/-- So is a quoted piece. -/
theorem quoted_ok (s : Str) : (quoted s).Ok := glued_ok (List.forall_mem_nil _) s

theorem bare_value (s : Str) : (Piece.bare s).value = s := rfl

/-- So is a constant, by a test of its characters. -/
theorem bare_ok {s : Str} (h : (!s.isEmpty && s.all Shell.isBare) = true) :
    (Piece.bare s).Ok := by
  simpa [Piece.Ok] using h

/-- A literal in front of letters and digits. -/
theorem bare_append_ok {before s : Str} (h : (!before.isEmpty && before.all Shell.isBare) = true)
    (hs : ∀ c ∈ s, isAlnum c = true) : (Piece.bare (before ++ s)).Ok := by
  obtain ⟨hne, hbefore⟩ := bare_ok h
  refine ⟨by simp [hne], List.forall_mem_append.mpr ⟨hbefore, fun c hc => ?_⟩⟩
  exact isBare_of_isSafe (by rw [isSafe, hs c hc, Bool.true_or])

end Words

/-! ### The lines are words -/

section Lines

variable {s : Settings} {account : Account} {image : Image} {d : Devices} {ps : List Piece}

/-- A line with a word, whose words are read as their values. -/
def LineOk (ps : List Piece) : Prop := ps ≠ [] ∧ ∀ p ∈ ps, p.Ok

/-- The line of `install` is read as its words. -/
theorem prepareLine_ok : ∀ p ∈ prepareLine s account, p.Ok := by
  simp only [prepareLine, List.forall_mem_cons]
  exact ⟨bare_ok (by decide), bare_ok (by decide), bare_ok (by decide), bare_ok (by decide),
    quoted_ok _, List.forall_mem_nil _⟩

/-- The first line of the command. -/
theorem startLine_ok : LineOk (startLine s) := by
  refine ⟨List.cons_ne_nil _ _, ?_⟩
  simp only [startLine, List.forall_mem_cons]
  exact ⟨glued_ok (forall_of_all (by decide)) _, bare_ok (by decide), bare_ok (by decide),
    bare_ok (by decide), List.forall_mem_nil _⟩

/-- The lines that each instance has. -/
theorem commonLines_ok : ∀ ps ∈ commonLines s, LineOk ps := by
  simp only [commonLines, List.forall_mem_cons, LineOk]
  exact ⟨⟨List.cons_ne_nil _ _, bare_ok (by decide), quoted_ok _, bare_ok (by decide),
      bare_ok (by decide), bare_ok (by decide), List.forall_mem_nil _⟩,
    ⟨List.cons_ne_nil _ _, bare_ok (by decide), bare_ok (by decide), bare_ok (by decide),
      bare_ok (by decide), List.forall_mem_nil _⟩,
    ⟨List.cons_ne_nil _ _, bare_ok (by decide), bare_ok (by decide), bare_ok (by decide),
      bare_ok (by decide), bare_ok (by decide), bare_ok (by decide), bare_ok (by decide),
      List.forall_mem_nil _⟩,
    ⟨List.cons_ne_nil _ _, bare_ok (by decide), bare_ok (by decide), List.forall_mem_nil _⟩,
    List.forall_mem_nil _⟩

/-- The lines of the devices. -/
theorem deviceLines_ok : ∀ ps ∈ d.lines, LineOk ps := by
  refine List.forall_mem_append.mpr ⟨?_, ?_⟩
  · intro ps hps
    obtain ⟨node, -, rfl⟩ := List.mem_map.mp hps
    exact ⟨List.cons_ne_nil _ _, List.forall_mem_cons.mpr
      ⟨bare_ok (by decide), List.forall_mem_singleton.mpr (quoted_ok _)⟩⟩
  · split
    · refine List.forall_mem_singleton.mpr ⟨List.cons_ne_nil _ _, ?_⟩
      exact List.forall_mem_cons.mpr
        ⟨bare_ok (by decide), List.forall_mem_singleton.mpr (bare_ok (by decide))⟩
    · exact List.forall_mem_nil _

/-- The lines of the settings. -/
theorem settingLines_ok : ∀ ps ∈ settingLines s account, LineOk ps := by
  simp only [settingLines, List.forall_mem_cons, LineOk]
  exact ⟨⟨List.cons_ne_nil _ _, bare_ok (by decide), quoted_ok _, bare_ok (by decide),
      quoted_ok _, List.forall_mem_nil _⟩,
    ⟨List.cons_ne_nil _ _, bare_ok (by decide), quoted_ok _, List.forall_mem_nil _⟩,
    ⟨List.cons_ne_nil _ _, bare_ok (by decide), quoted_ok _, List.forall_mem_nil _⟩,
    ⟨List.cons_ne_nil _ _, bare_ok (by decide), glued_ok (forall_of_all (by decide)) _,
      bare_ok (by decide), bare_append_ok (by decide) (port_chars s.port),
      List.forall_mem_nil _⟩,
    ⟨List.cons_ne_nil _ _, bare_ok (by decide),
      bare_append_ok (by decide) (port_chars s.turnPort), bare_ok (by decide),
      bare_append_ok (by decide) (gpu_chars s.gpu), List.forall_mem_nil _⟩,
    ⟨List.cons_ne_nil _ _, bare_ok (by decide), bare_ok (by decide), bare_ok (by decide),
      quoted_ok _, List.forall_mem_nil _⟩, List.forall_mem_nil _⟩

/-- The lines of the addresses. -/
theorem addressLines_ok : ∀ ps ∈ s.addressLines, LineOk ps := by
  intro ps hps
  obtain ⟨a, -, rfl⟩ := List.mem_map.mp hps
  refine ⟨List.cons_ne_nil _ _, fun p hp => ?_⟩
  obtain ⟨port, -, hp⟩ := List.mem_flatMap.mp hp
  rcases List.mem_pair.mp hp with rfl | rfl
  · exact bare_ok (by decide)
  · exact quoted_ok port

/-- All lines of the command. -/
theorem runLines_ok : ∀ ps ∈ runLines s account image d, LineOk ps := by
  refine List.forall_mem_append.mpr ⟨List.forall_mem_cons.mpr ⟨startLine_ok, ?_⟩, ?_⟩
  · simp only [optionLines, List.forall_mem_append]
    exact ⟨⟨⟨commonLines_ok, deviceLines_ok⟩, settingLines_ok⟩, addressLines_ok⟩
  · refine List.forall_mem_singleton.mpr ⟨List.cons_ne_nil _ _, ?_⟩
    exact List.forall_mem_singleton.mpr (quoted_ok _)

/-- Lines that go on behind a backslash are read as one. -/
theorem reads_command {lines : List (List Piece)} (h : ∀ ps ∈ lines, LineOk ps)
    (hne : lines ≠ []) : Shell.Reads (commandText lines) lines.flatten := by
  have hall : ∀ x ∈ lines.map fun ps => (lineText ps, ps), Shell.Reads x.1 x.2 := by
    intro x hx
    obtain ⟨ps, hps, rfl⟩ := List.mem_map.mp hx
    exact Shell.reads_words (h ps hps).2 (h ps hps).1
  have hread := Shell.reads_intercalate Shell.ends_continued (by simpa using hne) hall
  rw [List.map_map, List.flatMap_map] at hread
  rwa [List.flatMap_id'] at hread

end Lines

/-! ### The arguments are options -/

section Options

open Podman (Parses)

variable {s : Settings} {account : Account} {image : Image} {d : Devices}
variable {podman : Podman.Program}

/-- The options of the first lines. -/
def Settings.commonOptions (s : Settings) : Podman.Options := [
  ("name".toList, s.name.text), ("replace".toList, []), ("pull".toList, "never".toList),
  ("restart".toList, "on-failure".toList), ("userns".toList, "keep-id".toList),
  ("cap-drop".toList, "ALL".toList), ("security-opt".toList, "no-new-privileges".toList),
  ("read-only".toList, []), ("tmpfs".toList, "/tmp:rw,size=512m".toList),
  ("ulimit".toList, "core=0".toList), ("init".toList, []), ("tz".toList, "local".toList),
  ("device".toList, "/dev/kvm".toList)]

/-- Podman takes the common lines as the options of every instance. -/
theorem parses_common :
    Parses podman ((commonLines s).flatten.map Piece.value) s.commonOptions := by
  have hargs : (commonLines s).flatten.map Piece.value = ["--name".toList, s.name.text,
      "--replace".toList, "--pull=never".toList, "--restart=on-failure".toList,
      "--userns=keep-id".toList, "--cap-drop=ALL".toList, "--security-opt".toList,
      "no-new-privileges".toList, "--read-only".toList, "--tmpfs".toList,
      "/tmp:rw,size=512m".toList, "--ulimit".toList, "core=0".toList, "--init".toList,
      "--tz=local".toList, "--device".toList, "/dev/kvm".toList] := by
    simp only [commonLines, List.flatten_cons, List.flatten_nil, List.cons_append,
      List.nil_append, List.append_nil, List.map_cons, List.map_nil, quoted_value, bare_value]
  rw [hargs]
  exact .apart (by decide) (.flag (by decide) (.joined rfl (by decide) (.joined rfl (by decide)
    (.joined rfl (by decide) (.joined rfl (by decide) (.apart (by decide) (.flag (by decide)
    (.apart (by decide) (.apart (by decide) (.flag (by decide) (.joined rfl (by decide)
    (.apart (by decide) Podman.parses_nil))))))))))))

/-- It takes those of the devices as theirs. -/
theorem parses_device : Parses podman (d.lines.flatten.map Piece.value) d.options := by
  have hargs : d.lines.flatten.map Piece.value =
      (d.render.toList.flatMap fun node => ["--device".toList, node.text]) ++
        if d.groupAdd then ["--group-add".toList, "keep-groups".toList] else [] := by
    obtain ⟨render, groupAdd⟩ := d
    cases render <;> cases groupAdd <;> simp [Devices.lines, quoted_value, bare_value]
  rw [hargs, Devices.options]
  refine .append ?_ ?_
  · cases d.render with
    | none => exact Podman.parses_nil
    | some node => exact .apart (by decide) Podman.parses_nil
  · split
    · exact .apart (by decide) Podman.parses_nil
    · exact Podman.parses_nil

/-- It takes those of the settings as theirs. -/
theorem parses_setting : Parses podman ((settingLines s account).flatten.map Piece.value)
    (s.volumeOptions account ++ s.tailOptions) := by
  have hargs : (settingLines s account).flatten.map Piece.value = ["-v".toList, s.stateVolume,
      "-v".toList, s.runtimeDir account ++ ":/run/appliance:Z".toList, "-p".toList, s.httpPort,
      "--env-file".toList, s.configFile.text,
      "--env".toList, "APPLIANCE_LISTEN_ADDRESS=".toList ++ s.listen.text,
      "--env".toList, "APPLIANCE_PORT=".toList ++ s.port.text,
      "--env".toList, "APPLIANCE_TURN_PORT=".toList ++ s.turnPort.text,
      "--env".toList, "APPLIANCE_GPU=".toList ++ s.gpu.text, "--stop-timeout".toList,
      "150".toList, "--health-cmd".toList, healthCmd] := by
    simp only [settingLines, List.flatten_cons, List.flatten_nil, List.cons_append,
      List.nil_append, List.append_nil, List.map_cons, List.map_nil, quoted_value, bare_value,
      glued_value]
  rw [hargs, Settings.volumeOptions, Settings.tailOptions, Settings.environment]
  exact .apart (by decide) (.apart (by decide) (.apart (by decide) (.apart (by decide)
    (.apart (by decide) (.apart (by decide) (.apart (by decide) (.apart (by decide)
    (.apart (by decide) (.apart (by decide) Podman.parses_nil)))))))))

/-- It takes those of the addresses as theirs. -/
theorem parses_address : Parses podman (s.addressLines.flatten.map Piece.value) s.turnOptions := by
  rw [Settings.addressLines, Settings.turnOptions]
  induction s.turnPublish with
  | nil => exact Podman.parses_nil
  | cons a rest ih =>
    have hfirst : ((s.turnPorts a).flatMap fun port => [.bare "-p".toList, quoted port]).map
        Piece.value = (s.turnPorts a).flatMap fun port => ["-p".toList, port] := by
      rw [List.map_flatMap]
      refine List.flatMap_congr fun port _ => ?_
      rw [List.map_cons, List.map_singleton, bare_value, quoted_value]
    rw [List.map_cons, List.flatten_cons, List.map_append, List.flatMap_cons, List.map_append,
      hfirst]
    exact .append (.apart (by decide) (.apart (by decide) Podman.parses_nil)) ih

/-- The arguments of `podman run`. -/
def runArgs (s : Settings) (account : Account) (image : Image) (d : Devices) : List Str :=
  "-d".toList :: (optionLines s account d).flatten.map Piece.value ++ [image.text]

/-- The arguments are the options of the command, and the image. -/
theorem parse_runArgs : podman.parse (runArgs s account image d) = some
    (("detach".toList, []) :: (s.commonOptions ++ d.options ++
      (s.volumeOptions account ++ s.tailOptions) ++ s.turnOptions), image.text) := by
  have hparses : Parses podman ("-d".toList :: (optionLines s account d).flatten.map Piece.value)
      (("detach".toList, []) :: (s.commonOptions ++ d.options ++
        (s.volumeOptions account ++ s.tailOptions) ++ s.turnOptions)) := by
    refine .flag (by decide) ?_
    simp only [optionLines, List.flatten_append, List.map_append]
    exact .append (.append (.append parses_common parses_device) parses_setting) parses_address
  have himage : podman.parse [image.text] = some ([], image.text) := by
    obtain ⟨hne, hbegins⟩ := begins_of_fullmatch image.valid
    exact podman.parse_image image.text hne fun hdash => absurd (hbegins _ hdash) (by decide)
  rw [runArgs, hparses _ (List.cons_ne_nil _ _), himage, Option.map_some, List.append_nil]

/-! ### The command is read as it is meant -/

/-- The first command. -/
theorem simple_prepareLine (env : Shell.Env) :
    Shell.simple env ((prepareLine s account).map Piece.word) = some
      ⟨[], ["install".toList, "-d".toList, "-m".toList, "0700".toList, s.runtimeDir account]⟩ := by
  have hall : ∀ p ∈ prepareLine s account, p.Ok := prepareLine_ok
  have hok := List.forall_mem_cons.mp hall
  have hnone : ∀ q ∈ ([] : List Piece), q.Ok := List.forall_mem_nil _
  have hline := Shell.simple_pieces hnone (List.forall_mem_nil _) hok.1 (by decide) (by decide)
    hok.2 env
  rw [List.nil_append] at hline
  rw [prepareLine, hline]
  simp only [List.map_cons, List.map_nil, bare_value, quoted_value]

/-- The assignment stays one in quotes. -/
theorem isAssignment_override (value : Str) :
    Shell.isAssignment (glued "CONTAINERS_CONF_OVERRIDE=".toList value).word = true := by
  unfold glued
  split
  · rfl
  · rw [Piece.word, Shell.plainWord, List.map_append]
    rfl

/-- The second command, with its assignment in front. -/
theorem simple_runLines (env : Shell.Env) :
    Shell.simple env ((runLines s account image d).flatten.map Piece.word) = some
      ⟨[("CONTAINERS_CONF_OVERRIDE".toList, s.overrideFile)],
        "podman".toList :: "run".toList :: runArgs s account image d⟩ := by
  have hok : ∀ p ∈ (runLines s account image d).flatten, p.Ok := by
    intro p hp
    obtain ⟨ps, hps, hp⟩ := List.mem_flatten.mp hp
    exact (runLines_ok ps hps).2 p hp
  have hsplit : (runLines s account image d).flatten =
      [glued "CONTAINERS_CONF_OVERRIDE=".toList s.overrideFile] ++ .bare "podman".toList ::
        (.bare "run".toList :: .bare "-d".toList ::
          ((optionLines s account d).flatten ++ [quoted image.text])) := by
    rw [runLines, List.flatten_append, List.flatten_cons, List.flatten_singleton, startLine]
    rfl
  have hvalue : Str.partition '=' (glued "CONTAINERS_CONF_OVERRIDE=".toList s.overrideFile).value =
      ("CONTAINERS_CONF_OVERRIDE".toList, ['='], s.overrideFile) := by
    have hkey : "CONTAINERS_CONF_OVERRIDE=".toList =
        "CONTAINERS_CONF_OVERRIDE".toList ++ ['='] := by decide
    have hequals : '=' ∉ "CONTAINERS_CONF_OVERRIDE".toList := by decide
    rw [glued_value, hkey, List.append_assoc, List.singleton_append, Str.partition_sep hequals]
  rw [hsplit, List.forall_mem_append] at hok
  -- The assignment, the name of the command, and the words behind it.
  obtain ⟨hassigns, hcommand⟩ := hok
  obtain ⟨hfirst, hrest⟩ := List.forall_mem_cons.mp hcommand
  have hassign : ∀ q ∈ [glued "CONTAINERS_CONF_OVERRIDE=".toList s.overrideFile],
      Shell.isAssignment q.word = true :=
    List.forall_mem_singleton.mpr (isAssignment_override s.overrideFile)
  have hname : Shell.isAssignment (Piece.bare "podman".toList).word = false := by decide
  have hreserved : Shell.isReserved (Piece.bare "podman".toList).word = false := by decide
  rw [hsplit, Shell.simple_pieces hassigns hassign hfirst hname hreserved hrest env,
    List.map_singleton, hvalue]
  simp only [List.map_cons, List.map_append, List.map_nil, bare_value, quoted_value, runArgs,
    List.cons_append]

/-- The commands that are printed. -/
theorem simples_printRun (env : Shell.Env) : Shell.simples env (printRun s account image d) = some [
    ⟨[], ["install".toList, "-d".toList, "-m".toList, "0700".toList, s.runtimeDir account]⟩,
    ⟨[("CONTAINERS_CONF_OVERRIDE".toList, s.overrideFile)],
      "podman".toList :: "run".toList :: runArgs s account image d⟩] := by
  have hcomment : '\n' ∉ " Run ".toList ++ s.name.text ++
      " without systemd. Stop it with: podman stop -t 150 ".toList ++ s.name.text := by
    have hname : '\n' ∉ s.name.text := (plain_name s.name).newline
    simp only [List.mem_append, not_or]
    exact ⟨⟨⟨by decide, hname⟩, by decide⟩, hname⟩
  have hprepare : Shell.Reads (lineText (prepareLine s account)) (prepareLine s account) :=
    Shell.reads_words prepareLine_ok (List.cons_ne_nil _ _)
  have hrun : Shell.Reads (commandText (runLines s account image d))
      (runLines s account image d).flatten := reads_command runLines_ok (List.cons_ne_nil _ _)
  have hne : (runLines s account image d).flatten ≠ [] := List.cons_ne_nil _ _
  rw [printRun, Shell.simples_comment hcomment,
    Shell.simples_line hprepare (List.cons_ne_nil _ _), simple_prepareLine,
    Shell.simples_line hrun hne, simple_runLines]
  rfl

/-- The ports of turnserver are published. -/
theorem turnOptions_publish : ∀ o ∈ s.turnOptions, o.1 = "publish".toList := by
  intro o ho
  obtain ⟨port, -, rfl⟩ := List.mem_map.mp ho
  rfl

/-- The options of the command are those of the unit, in another order. -/
theorem values_command : Podman.values (("detach".toList, []) :: (s.commonOptions ++ d.options ++
    (s.volumeOptions account ++ s.tailOptions) ++ s.turnOptions)) =
      Podman.values (s.options account d) := by
  have hcommon : ∀ rest : Podman.Options, Podman.values (s.commonOptions ++ rest) =
      Podman.values (s.headOptions ++ rest) := by
    intro rest
    have hdrop : Podman.values [("cap-drop".toList, "ALL".toList)] =
        Podman.values [("cap-drop".toList, "all".toList)] := Podman.values_singleton rfl rfl
    simp only [Settings.commonOptions, Settings.headOptions, List.cons_append, List.nil_append]
    -- Two options are of the command only; the capabilities differ in case.
    refine Podman.values_congr rfl ?_
    rw [Podman.values_ofRun (by decide)]
    refine Podman.values_congr rfl ?_
    rw [Podman.values_ofRun (by decide)]
    exact Podman.values_congr rfl (Podman.values_congr hdrop rfl)
  have htail : ∀ o ∈ s.tailOptions, o.1 ≠ "publish".toList := by
    simp only [Settings.tailOptions, Settings.environment, List.map_cons, List.map_nil,
      List.cons_append, List.nil_append, List.forall_mem_cons]
    exact ⟨by decide, by decide, by decide, by decide, by decide, by decide, by decide,
      List.forall_mem_nil _⟩
  rw [Podman.values_ofRun (by decide)]
  simp only [List.append_assoc]
  rw [hcommon]
  simp only [← List.append_assoc]
  -- The ports of the addresses come last here, and before the variables in the unit.
  exact (Podman.values_swap turnOptions_publish htail).symm

/-- The policy of the command, and of no other option. -/
theorem restart_command : ((("detach".toList, []) :: (s.commonOptions ++ d.options ++
    (s.volumeOptions account ++ s.tailOptions) ++ s.turnOptions)).filter fun o =>
      o.1 = "restart".toList).map (·.2) = ["on-failure".toList] := by
  have hfilter : ∀ {l : Podman.Options}, (∀ o ∈ l, o.1 ≠ "restart".toList) →
      (l.filter fun o => o.1 = "restart".toList) = [] := by
    intro l hl
    rw [List.filter_eq_nil_iff]
    intro o ho
    rw [decide_eq_true_eq]
    exact hl o ho
  have hdevice : ∀ o ∈ d.options, o.1 ≠ "restart".toList :=
    deviceOptions_ne (by decide) (by decide)
  have hsetting : ∀ o ∈ s.volumeOptions account ++ s.tailOptions, o.1 ≠ "restart".toList := by
    simp only [Settings.volumeOptions, Settings.tailOptions, Settings.environment, List.map_cons,
      List.map_nil, List.cons_append, List.nil_append, List.forall_mem_cons]
    exact ⟨by decide, by decide, by decide, by decide, by decide, by decide, by decide, by decide,
      by decide, by decide, List.forall_mem_nil _⟩
  have hturn : ∀ o ∈ s.turnOptions, o.1 ≠ "restart".toList := turnOptions_ne (by decide)
  rw [List.filter_cons_of_neg (by decide), List.filter_append, List.filter_append,
    List.filter_append, hfilter hdevice, hfilter hsetting, hfilter hturn]
  rfl

/-- The start of the command. -/
def runStart (s : Settings) (account : Account) (image : Image) (d : Devices) : Podman.Launch where
  before := [["install".toList, "-d".toList, "-m".toList, "0700".toList, s.runtimeDir account]]
  environment := [("CONTAINERS_CONF_OVERRIDE".toList, s.overrideFile)]
  restart := ["on-failure".toList]
  image := image.text
  values name := some (Podman.values (s.options account d) name)

/-- **The command starts the container that the installation is for.** -/
theorem ofCommand_printRun (env : Shell.Env) :
    Podman.ofCommand podman env (printRun s account image d) =
      some (runStart s account image d) := by
  have hvalues : Podman.values (("detach".toList, []) :: (s.commonOptions ++ d.options ++
      (s.volumeOptions account ++ s.tailOptions) ++ s.turnOptions)) =
        Podman.values (s.options account d) := values_command
  rw [Podman.ofCommand_eq (simples_printRun env) parse_runArgs, restart_command, hvalues]
  rfl

/-- The options are those that keys of a unit stand for. -/
theorem standing_options : ∀ o ∈ s.options account d, o.1 ∈ Podman.standing := by
  have hhead : ∀ o ∈ s.headOptions, o.1 ∈ Podman.standing := by
    simp only [Settings.headOptions, List.forall_mem_cons]
    exact ⟨by decide, by decide, by decide, by decide, by decide, by decide, by decide, by decide,
      by decide, by decide, by decide, List.forall_mem_nil _⟩
  have hdevice : ∀ o ∈ d.options, o.1 ∈ Podman.standing := by
    refine List.forall_mem_append.mpr ⟨?_, ?_⟩
    · intro o ho
      obtain ⟨node, -, rfl⟩ := List.mem_map.mp ho
      exact (by decide : "device".toList ∈ Podman.standing)
    · split
      · exact List.forall_mem_singleton.mpr (by decide)
      · exact List.forall_mem_nil _
  have hvolume : ∀ o ∈ s.volumeOptions account, o.1 ∈ Podman.standing := by
    simp only [Settings.volumeOptions, List.forall_mem_cons]
    exact ⟨by decide, by decide, by decide, List.forall_mem_nil _⟩
  have hturn : ∀ o ∈ s.turnOptions, o.1 ∈ Podman.standing := by
    intro o ho
    obtain ⟨port, -, rfl⟩ := List.mem_map.mp ho
    exact (by decide : "publish".toList ∈ Podman.standing)
  have htail : ∀ o ∈ s.tailOptions, o.1 ∈ Podman.standing := by
    simp only [Settings.tailOptions, Settings.environment, List.map_cons, List.map_nil,
      List.cons_append, List.nil_append, List.forall_mem_cons]
    exact ⟨by decide, by decide, by decide, by decide, by decide, by decide, by decide,
      List.forall_mem_nil _⟩
  simp only [Settings.options, List.forall_mem_append]
  exact ⟨⟨⟨⟨hhead, hdevice⟩, hvolume⟩, hturn⟩, htail⟩

/-- The option of a key that is on or off, or that is one of the values of a key. -/
theorem switches_options : ∀ p ∈ Podman.switches,
    Podman.values (s.options account d) p.2.2.1 = [p.2.2.2] := by
  simp only [Podman.switches, List.forall_mem_cons]
  refine ⟨?_, ?_, ?_, ?_, List.forall_mem_nil _⟩
  all_goals
    rw [fixed_values (by decide) (by decide) (by decide)]
    rfl

/-- The environment, among the options. -/
theorem env_options : Podman.values (s.options account d) "env".toList = s.environment := by
  rw [fixed_values (by decide) (by decide) (by decide)]
  rfl

/-- **The unit and the command start the same container.** Whatever configuration is accepted, a
shell that reads what `--print-run` writes runs Podman with the values that the unit has in its
keys, and with no other option of a container. -/
theorem command_agrees (s : Settings) (account : Account) (image : Image) (d : Devices)
    (env : Shell.Env) (systemd : Podman.Systemd account.runtimeBase) (quadlet : Podman.Quadlet)
    (podman : Podman.Program) (hunit : NoUnit s image) : ∃ unit command,
      Podman.ofUnit systemd quadlet (writeUnit s image d) = some unit ∧
      Podman.ofCommand podman env (printRun s account image d) = some command ∧
      unit.Same command ∧ ∀ name ∉ Podman.standing, command.values name = some [] := by
  refine ⟨unitStart systemd quadlet s image d, runStart s account image d, ofUnit_writeUnit hunit,
    ofCommand_printRun env, ⟨rfl, rfl, rfl, rfl, fun name hname henv => ?_, ?_⟩,
    fun name hname => ?_⟩
  · rw [Podman.standing, List.mem_append, List.mem_append, List.mem_singleton] at hname
    rcases hname with (hkey | hswitch) | rfl
    · obtain ⟨p, hp, rfl⟩ := List.mem_map.mp hkey
      exact values_unit hunit hp
    · obtain ⟨p, hp, rfl⟩ := List.mem_map.mp hswitch
      have hfree : ∀ q ∈ Podman.switches, ∀ v ∈ [q.2.2.2], '%' ∉ v := by decide
      change (quadlet.options _ p.2.2.1).mapM systemd.resolve =
        some (Podman.values (s.options account d) p.2.2.1)
      rw [switches_unit p hp, switches_options p hp, systemd.mapM_resolve (hfree p hp)]
    · exact absurd rfl henv
  · have hfree : ∀ w ∈ quadlet.options (UnitFile.meant [] (unitLines s image d)) "env".toList,
        '%' ∉ w := fun w hw =>
      not_mem_of_chars (environment_chars s w (env_unit.mem_iff.mp hw)).2 (by decide)
    exact ⟨_, s.environment, systemd.mapM_resolve hfree, congrArg some env_options, env_unit⟩
  · exact congrArg some (Podman.values_of_ne fun o ho heq => hname (heq ▸ standing_options o ho))

/-- The configuration of a host, whose unit and command are read by programs for plain texts. -/
theorem command_agrees_host : ∃ s,
    loadSettings hostAccount hostVars "/home/user/phone.conf".toList = .ok s ∧
      NoUnit s s.image ∧ ∃ unit command,
        Podman.ofUnit (Podman.plainSystemd hostAccount.runtimeBase) Podman.plainQuadlet
          (writeUnit s s.image ⟨none, true⟩) = some unit ∧
        Podman.ofCommand Podman.plainProgram ⟨fun _ => none, fun _ => []⟩
          (printRun s hostAccount s.image ⟨none, true⟩) = some command ∧ unit.Same command := by
  obtain ⟨s, hload, hunit⟩ : ∃ s,
      loadSettings hostAccount hostVars "/home/user/phone.conf".toList = .ok s ∧
        NoUnit s s.image := ⟨_, rfl, by decide⟩
  obtain ⟨unit, command, hread, hrun, hsame, -⟩ :=
    command_agrees s hostAccount s.image ⟨none, true⟩ ⟨fun _ => none, fun _ => []⟩
      (Podman.plainSystemd hostAccount.runtimeBase) Podman.plainQuadlet Podman.plainProgram hunit
  exact ⟨s, hload, hunit, unit, command, hread, hrun, hsame⟩

end Options

end Install

end AndroidAppliance
