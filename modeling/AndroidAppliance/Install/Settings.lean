import AndroidAppliance.Config.Readers
import AndroidAppliance.Install.Images
import AndroidAppliance.Text.Records

/-!
# The settings of an instance

`check_path`, `check_port` and `load_settings` of `install.sh`, with `realpath -m -s` and the
texts of `die`. What a check lets pass is a type of its own, so `Settings` is what an installation
works with: each text keeps to the characters of its check.
-/

namespace AndroidAppliance

namespace Install

/-! ### Paths -/

/-- `[A-Za-z0-9._/+@=~-]`. -/
def isPathChar (c : Char) : Bool := isAlnum c || "._/+@=~-".toList.contains c

/-- `^/[A-Za-z0-9._/+@=~-]*$`. -/
def isPath (s : Str) : Bool := fullmatch (· = '/') isPathChar s

/-- A name in a path that `realpath` leaves. -/
def isPart (s : Str) : Bool :=
  !s.isEmpty && s ≠ ['.'] && s ≠ ['.', '.'] && s.all fun c => isPathChar c && c ≠ '/'

/-- A normal absolute path of the characters that `check_path` lets pass. -/
structure Path where
  parts : List Str
  valid : ∀ part ∈ parts, isPart part = true

/-- The text of a path that is not `/`. -/
def partsText (parts : List Str) : Str := parts.flatMap ('/' :: ·)

/-- A path, as `realpath` prints it. -/
def Path.text (p : Path) : Str := if p.parts.isEmpty then ['/'] else partsText p.parts

/-- `$(dirname "$path")`. -/
def Path.dirname (p : Path) : Path :=
  ⟨p.parts.dropLast, fun part h => p.valid part (List.dropLast_subset _ h)⟩

/-- One part: `.` and `..` go away. -/
def realpathStep (parts : List Str) (part : Str) : List Str :=
  if part.isEmpty || part = ['.'] then parts
  else if part = ['.', '.'] then parts.dropLast
  else parts ++ [part]

/-- `realpath -m -s` of an absolute path. -/
def realpath (s : Str) : List Str := (s.splitOn '/').foldl realpathStep []

theorem isPart_of_mem_realpath {s : Str} (h : isPath s = true) :
    ∀ part ∈ realpath s, isPart part = true := by
  have hchars : ∀ c ∈ s, isPathChar c = true := by
    cases s with
    | nil => exact List.forall_mem_nil _
    | cons c s =>
      simp only [isPath, fullmatch, Bool.and_eq_true, decide_eq_true_eq, List.all_eq_true] at h
      rintro d (_ | ⟨_, hd⟩)
      · rw [h.1]
        decide
      · exact h.2 d hd
  have hparts : ∀ part ∈ s.splitOn '/', ∀ c ∈ part, isPathChar c = true ∧ c ≠ '/' := by
    intro part hpart c hc
    obtain ⟨hfree, hsub⟩ := Records.of_mem_splitOnP hpart
    exact ⟨hchars c (hsub hc), by simpa using hfree c hc⟩
  suffices hfold : ∀ parts : List Str, (∀ part ∈ parts, isPart part = true) →
      ∀ part ∈ (s.splitOn '/').foldl realpathStep parts, isPart part = true from
    hfold [] (List.forall_mem_nil _)
  generalize s.splitOn '/' = pieces at hparts
  induction pieces with
  | nil => exact fun parts hvalid => hvalid
  | cons piece pieces ih =>
    rw [List.forall_mem_cons] at hparts
    refine fun parts hvalid => ih hparts.2 _ ?_
    unfold realpathStep
    split
    · exact hvalid
    · split
      · exact fun part hpart => hvalid part (List.dropLast_subset _ hpart)
      · rename_i hdot hdots
        rw [Bool.or_eq_true, not_or] at hdot
        refine List.forall_mem_append.mpr ⟨hvalid, List.forall_mem_singleton.mpr ?_⟩
        simp only [isPart, Bool.and_eq_true, List.all_eq_true]
        exact ⟨⟨⟨by simpa using hdot.1, by simpa using hdot.2⟩, by simpa using hdots⟩,
          fun c hc => ⟨(hparts.1 c hc).1, by simpa using (hparts.1 c hc).2⟩⟩

/-- The message of `check_path`. -/
def pathError (key value : Str) : Str :=
  key ++ " '".toList ++ value ++ "' must be an absolute path of letters, digits and ._/+@=~-".toList

/-- `check_path KEY "$value"`, then `realpath -m -s`. -/
def checkPath (key value : Str) : Except Str Path :=
  if h : isPath value = true then .ok ⟨realpath value, isPart_of_mem_realpath h⟩
  else .error (pathError key value)

/-! ### Ports and addresses -/

/-- `^[0-9]{1,5}$`, from 1 to 65535. -/
def isPort (s : Str) : Bool :=
  Str.isDigits s && s.length ≤ 5 && 1 ≤ Str.int s && Str.int s ≤ 65535

/-- A value that `check_port` lets pass. -/
structure Port where
  text : Str
  valid : isPort text = true

/-- `check_port`. -/
def checkPort (key value : Str) : Except Str Port :=
  if h : isPort value = true then .ok ⟨value, h⟩
  else .error (key ++ " '".toList ++ value ++ "' is not a port number".toList)

/-- `^[0-9]{1,3}(\.[0-9]{1,3}){3}$`. -/
def isIpv4 (s : Str) : Bool :=
  let parts := s.splitOn '.'
  parts.length = 4 && parts.all fun part => Str.isDigits part && part.length ≤ 3

/-- `[0-9A-Fa-f:.]`. -/
def isIpv6Char (c : Char) : Bool :=
  c.isDigit || ('A' ≤ c && c ≤ 'F') || ('a' ≤ c && c ≤ 'f') || c = ':' || c = '.'

/-- `^[0-9A-Fa-f:.]+$` with a colon. -/
def isIpv6 (s : Str) : Bool := s.all isIpv6Char && s.contains ':'

/-- An address that `load_settings` lets pass. -/
structure Address where
  text : Str
  valid : isIpv4 text || isIpv6 text

/-- `publish_address`, and an entry of `turn_publish`. -/
def Address.publish (a : Address) : Str :=
  if isIpv4 a.text then a.text else '[' :: (a.text ++ [']'])

/-- A value that is an address, or the message about it. -/
def checkAddress (what value : Str) : Except Str Address :=
  if h : isIpv4 value || isIpv6 value then .ok ⟨value, h⟩
  else .error (what ++ " '".toList ++ value ++ "' is not an IPv4 or IPv6 address".toList)

/-- `IFS=, read -r -a`: the fields of the first line; an empty one at the end is no field. -/
def readFields (s : Str) : List Str :=
  let fields := (s.takeWhile (· ≠ '\n')).splitOn ','
  if fields.getLast? = some [] then fields.dropLast else fields

/-! ### The settings -/

/-- The values of `APPLIANCE_GPU`. -/
inductive Gpu
  | auto
  | host
  | lavapipe
  deriving DecidableEq, Repr

/-- The value of the key. -/
def Gpu.text : Gpu → Str
  | .auto => "auto".toList
  | .host => "host".toList
  | .lavapipe => "lavapipe".toList

/-- The `case` of `APPLIANCE_GPU`. -/
def checkGpu (value : Str) : Except Str Gpu :=
  if value = Gpu.auto.text then .ok .auto
  else if value = Gpu.host.text then .ok .host
  else if value = Gpu.lavapipe.text then .ok .lavapipe
  else .error ("APPLIANCE_GPU '".toList ++ value ++ "' must be auto, host or lavapipe".toList)

/-- A device node, under a path that `check_path` lets pass. -/
structure Node where
  text : Str
  valid : isPath text = true

/-- `APPLIANCE_GPU_DEVICE`; nothing is `auto`. -/
def checkDevice (value : Str) : Except Str (Option Node) :=
  if value = "auto".toList then .ok none
  else if h : isPath value = true then .ok (some ⟨value, h⟩)
  else .error (pathError "APPLIANCE_GPU_DEVICE".toList value)

/-- The directories of the user, and what the installer comes with. -/
structure Account where
  home : Str
  configHome : Str
  dataHome : Str
  runtimeBase : Str
  /-- The directory of the installer. -/
  here : Str
  /-- `$(<"$here/VERSION")`, of a file that is there. -/
  version : Option Str

/-- What `load_settings` sets. -/
structure Settings where
  name : Name
  configFile : Path
  stateDir : Path
  binDir : Path
  quadletDir : Path
  listen : Address
  turnPublish : List Address
  port : Port
  turnPort : Port
  api : Str
  gpu : Gpu
  gpuDevice : Option Node
  image : Image
  /-- `[ "$port" != "$turn_port" ]`. -/
  apart : port.text ≠ turnPort.text
  api_digits : Str.isDigits api = true
  turnPublish_ne_nil : turnPublish ≠ []

/-- `${KEY:-default}`. -/
def orDefault (value default : Str) : Str := if value.isEmpty then default else value

/-- The check of `APPLIANCE_NAME`. -/
def checkName (value : Str) : Except Str Name :=
  if h : isName value = true then .ok ⟨value, h⟩
  else .error ("APPLIANCE_NAME '".toList ++ value ++
    "' must be letters, digits and ._- (a container and unit name)".toList)

/-- The check of `APPLIANCE_IMAGE`. -/
def checkImage (value : Str) : Except Str Image :=
  if h : isImage value = true then .ok ⟨value, h⟩
  else .error ("APPLIANCE_IMAGE '".toList ++ value ++ "' is not an image name".toList)

/-- `load_settings`, for the configuration file `config_file`. -/
def loadSettings (account : Account) (vars : Readers.Vars) (config_file : Str) :
    Except Str Settings := do
  let value (key default : Str) : Str := orDefault (vars.text key) default
  let listen := value "APPLIANCE_LISTEN_ADDRESS".toList "127.0.0.1".toList
  let api := value "APPLIANCE_API_LEVEL".toList "36".toList
  let some version := account.version
    | .error (account.here ++ "/VERSION is missing".toList)
  let name ← checkName (value "APPLIANCE_NAME".toList "android-appliance".toList)
  let stateDir ← checkPath "APPLIANCE_STATE_DIR".toList
    (value "APPLIANCE_STATE_DIR".toList (account.dataHome ++ "/android-appliance".toList))
  let binDir ← checkPath "APPLIANCE_BIN_DIR".toList
    (value "APPLIANCE_BIN_DIR".toList (account.home ++ "/.local/bin".toList))
  let quadletDir ← checkPath "APPLIANCE_QUADLET_DIR".toList
    (value "APPLIANCE_QUADLET_DIR".toList (account.configHome ++ "/containers/systemd".toList))
  let configFile ← checkPath "the configuration file".toList config_file
  let port ← checkPort "APPLIANCE_PORT".toList (value "APPLIANCE_PORT".toList "6090".toList)
  let turnPort ← checkPort "APPLIANCE_TURN_PORT".toList
    (value "APPLIANCE_TURN_PORT".toList "3478".toList)
  if hports : port.text ≠ turnPort.text then
    let listen_ ← checkAddress "APPLIANCE_LISTEN_ADDRESS".toList listen
    let turn := readFields (value "APPLIANCE_TURN_LISTEN_ADDRESSES".toList listen)
    let turnPublish ← turn.mapM (checkAddress "APPLIANCE_TURN_LISTEN_ADDRESSES entry".toList)
    if hturn : turnPublish ≠ [] then
      if hapi : Str.isDigits api = true then
        let gpu ← checkGpu (value "APPLIANCE_GPU".toList "auto".toList)
        let gpuDevice ← checkDevice (value "APPLIANCE_GPU_DEVICE".toList "auto".toList)
        let image ← checkImage (value "APPLIANCE_IMAGE".toList
          ("localhost/android-appliance:".toList ++ version ++ "-api".toList ++ api))
        return ⟨name, configFile, stateDir, binDir, quadletDir, listen_, turnPublish, port,
          turnPort, api, gpu, gpuDevice, image, hports, hapi, hturn⟩
      else .error ("APPLIANCE_API_LEVEL '".toList ++ api ++ "' is not a number".toList)
    else .error "APPLIANCE_TURN_LISTEN_ADDRESSES is empty".toList
  else .error "APPLIANCE_PORT and APPLIANCE_TURN_PORT must differ".toList

/-! ### What is accepted -/

section Accepted

variable {account : Account} {vars : Readers.Vars} {config_file key value : Str} {s : Settings}

theorem bind_eq_ok {α β : Type} {x : Except Str α} {f : α → Except Str β} {b : β} :
    (x >>= f) = .ok b ↔ ∃ a, x = .ok a ∧ f a = .ok b := by
  cases x <;> simp [bind, Except.bind]

theorem checkName_text {name : Name} (h : checkName value = .ok name) : name.text = value := by
  unfold checkName at h
  split at h <;> cases h
  rfl

theorem checkPath_parts {path : Path} (h : checkPath key value = .ok path) :
    path.parts = realpath value := by
  unfold checkPath at h
  split at h <;> cases h
  rfl

theorem checkPort_text {port : Port} (h : checkPort key value = .ok port) : port.text = value := by
  unfold checkPort at h
  split at h <;> cases h
  rfl

theorem checkAddress_text {a : Address} (h : checkAddress key value = .ok a) :
    a.text = value := by
  unfold checkAddress at h
  split at h <;> cases h
  rfl

theorem checkGpu_text {gpu : Gpu} (h : checkGpu value = .ok gpu) : gpu.text = value := by
  unfold checkGpu at h
  split at h
  · rename_i hvalue
    cases h
    exact hvalue.symm
  · split at h
    · rename_i hvalue
      cases h
      exact hvalue.symm
    · split at h
      · rename_i hvalue
        cases h
        exact hvalue.symm
      · cases h

theorem checkAddresses_text {values : List Str} {as : List Address}
    (h : values.mapM (checkAddress key) = .ok as) : as.map Address.text = values := by
  induction values generalizing as with
  | nil =>
    cases h
    rfl
  | cons value values ih =>
    rw [List.mapM_cons] at h
    obtain ⟨a, ha, h⟩ := bind_eq_ok.mp h
    obtain ⟨rest, hrest, h⟩ := bind_eq_ok.mp h
    cases h
    rw [List.map_cons, checkAddress_text ha, ih hrest]

/-- A setting, or what it is when nothing is configured. -/
def setting (vars : Readers.Vars) (key default : Str) : Str := orDefault (vars.text key) default

/-- `APPLIANCE_LISTEN_ADDRESS`, or its default. -/
def configuredListen (vars : Readers.Vars) : Str :=
  setting vars "APPLIANCE_LISTEN_ADDRESS".toList "127.0.0.1".toList

/-- The settings that a unit is written with are the configured ones. -/
structure Configured (account : Account) (vars : Readers.Vars) (config_file : Str)
    (s : Settings) : Prop where
  name : s.name.text = setting vars "APPLIANCE_NAME".toList "android-appliance".toList
  configFile : s.configFile.parts = realpath config_file
  stateDir : s.stateDir.parts = realpath (setting vars "APPLIANCE_STATE_DIR".toList
    (account.dataHome ++ "/android-appliance".toList))
  listen : s.listen.text = configuredListen vars
  turnPublish : s.turnPublish.map Address.text =
    readFields (setting vars "APPLIANCE_TURN_LISTEN_ADDRESSES".toList (configuredListen vars))
  port : s.port.text = setting vars "APPLIANCE_PORT".toList "6090".toList
  turnPort : s.turnPort.text = setting vars "APPLIANCE_TURN_PORT".toList "3478".toList
  gpu : s.gpu.text = setting vars "APPLIANCE_GPU".toList "auto".toList

theorem configured (h : loadSettings account vars config_file = .ok s) :
    Configured account vars config_file s := by
  unfold loadSettings at h
  -- Each check that passes says what its setting is; the others are not needed.
  cases hversion : account.version with
  | none =>
    rw [hversion] at h
    cases h
  | some version =>
    simp only [hversion] at h
    obtain ⟨name, hname, h⟩ := bind_eq_ok.mp h
    obtain ⟨stateDir, hstateDir, h⟩ := bind_eq_ok.mp h
    obtain ⟨binDir, -, h⟩ := bind_eq_ok.mp h
    obtain ⟨quadletDir, -, h⟩ := bind_eq_ok.mp h
    obtain ⟨configFile, hconfigFile, h⟩ := bind_eq_ok.mp h
    obtain ⟨port, hport, h⟩ := bind_eq_ok.mp h
    obtain ⟨turnPort, hturnPort, h⟩ := bind_eq_ok.mp h
    split at h
    · obtain ⟨listen, hlisten, h⟩ := bind_eq_ok.mp h
      obtain ⟨turnPublish, hturnPublish, h⟩ := bind_eq_ok.mp h
      split at h
      · split at h
        · obtain ⟨gpu, hgpu, h⟩ := bind_eq_ok.mp h
          obtain ⟨gpuDevice, -, h⟩ := bind_eq_ok.mp h
          obtain ⟨image, -, h⟩ := bind_eq_ok.mp h
          cases h
          exact ⟨checkName_text hname, checkPath_parts hconfigFile, checkPath_parts hstateDir,
            checkAddress_text hlisten, checkAddresses_text hturnPublish, checkPort_text hport,
            checkPort_text hturnPort, checkGpu_text hgpu⟩
        · cases h
      · cases h
    · cases h

end Accepted

end Install

end AndroidAppliance
