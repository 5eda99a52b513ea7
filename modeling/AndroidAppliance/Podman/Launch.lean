import AndroidAppliance.Shell.Simple
import AndroidAppliance.Text.UnitFile

/-!
# What a container is started with

A container is described twice over: by a unit, or by a `podman run` command. The programs that
read the two descriptions are `Systemd`, `Quadlet`, which is the generator that makes a command of
a unit, and `Program`, which is Podman: structures of functions, with the laws that their manuals
give for plain texts. Nothing else of them is used.

`ofUnit` and `ofCommand` are the starts of the two descriptions: what runs before the container,
what the environment of Podman is, the image, and the values of every option.
-/

namespace AndroidAppliance

namespace Podman

open UnitFile (Entry Line)

/-- Options of `podman run`, with their values; the value of a flag is empty. -/
abbrev Options := List (Str × Str)

/-! ### Plain words -/

/-- A character without a meaning in a word: no blank, quote or backslash, and nothing that begins
a variable or ends a command. -/
def isWordChar (c : Char) : Bool := !(UnitFile.isBlank c || "'\"\\$;".toList.contains c)

/-- A word that stands for itself. -/
def Word (s : Str) : Prop := s ≠ [] ∧ ∀ c ∈ s, isWordChar c = true

/-- A text that begins with no prefix of a command, a path or a device. -/
def Begins (s : Str) : Prop :=
  ∀ c, s.head? = some c → (c.isAlphanum || "/[%".toList.contains c) = true

instance (s : Str) : Decidable (Word s) :=
  @instDecidableAnd _ _ inferInstance (List.decidableBAll _ _)

instance (s : Str) : Decidable (Begins s) :=
  decidable_of_iff (s.head?.all (fun c => c.isAlphanum || "/[%".toList.contains c) = true)
    (by simp [Begins, Option.all_eq_true])

/-! ### Units -/

/-- The manager of a user with the runtime directory `runtime`, by `systemd.syntax`,
`systemd.exec`, `systemd.service` and `systemd.unit`. -/
structure Systemd (runtime : Str) where
  /-- The assignments of a unit. -/
  read : Str → Option (List Entry)
  read_lines : ∀ ls : List Line, (∀ l ∈ ls, l.Plain) →
    read (Str.unlines (ls.map Line.text)) = some (UnitFile.meant [] ls)
  /-- The words of a command, or of a list of variables. -/
  words : Str → List Str
  words_plain : ∀ w ws, Begins w → (∀ v ∈ w :: ws, Word v) →
    words ([' '].intercalate (w :: ws)) = w :: ws
  /-- A text with its specifiers resolved. -/
  resolve : Str → Option Str
  resolve_free : ∀ s, '%' ∉ s → resolve s = some s
  resolve_runtime : ∀ s t, '%' ∉ s → '%' ∉ t →
    resolve (s ++ '%' :: 't' :: t) = some (s ++ runtime ++ t)

/-- The section of the container. -/
def containerPart : Str := "Container".toList

/-- The values of a key in the sections of a name. -/
def valuesOf (entries : List Entry) (part key : Str) : List Str :=
  (entries.filter fun e => e.part = part && e.key = key).map (·.value)

/-- The keys whose value is the option's. -/
def keys : List (Str × Str) := [
  ("ContainerName".toList, "name".toList), ("Pull".toList, "pull".toList),
  ("UserNS".toList, "userns".toList), ("Tmpfs".toList, "tmpfs".toList),
  ("Ulimit".toList, "ulimit".toList), ("Timezone".toList, "tz".toList),
  ("AddDevice".toList, "device".toList), ("GroupAdd".toList, "group-add".toList),
  ("Volume".toList, "volume".toList), ("PublishPort".toList, "publish".toList),
  ("EnvironmentFile".toList, "env-file".toList), ("StopTimeout".toList, "stop-timeout".toList),
  ("HealthCmd".toList, "health-cmd".toList)]

/-- The keys of which one value is an option: with that value, and the option. -/
def switches : List (Str × Str × Str × Str) := [
  ("DropCapability".toList, "all".toList, "cap-drop".toList, "all".toList),
  ("NoNewPrivileges".toList, "true".toList, "security-opt".toList, "no-new-privileges".toList),
  ("ReadOnly".toList, "true".toList, "read-only".toList, []),
  ("RunInit".toList, "true".toList, "init".toList, [])]

/-- A key that the unit of an instance uses. -/
def isKnown (key : Str) : Bool :=
  key = "Image".toList || key = "Environment".toList || (keys.lookup key).isSome ||
    (switches.lookup key).isSome

/-- The container has keys of the tables only. -/
def Known (es : List Entry) : Prop := ∀ e ∈ es, e.part = containerPart → isKnown e.key = true

/-- A value that is taken as it is: a plain word, or plain words of a command, with no relative
path, and no name of another unit of Quadlet. -/
structure Takes (key value : Str) : Prop where
  begins : Begins value
  words : ∃ w ws, value = [' '].intercalate (w :: ws) ∧ (∀ v ∈ w :: ws, Word v) ∧
    (ws = [] ∨ key = "HealthCmd".toList)
  file : key = "EnvironmentFile".toList → value.head? = some '/'
  volume : key = "Volume".toList → ¬".volume".toList <:+ (Str.partition ':' value).1
  image : key = "Image".toList → ¬".image".toList <:+ value ∧ ¬".build".toList <:+ value

/-- A word is taken where no rule of its key applies. -/
theorem Takes.of_word {key value : Str} (hbegins : Begins value) (hword : Word value)
    (hfile : key = "EnvironmentFile".toList → value.head? = some '/')
    (hvolume : key = "Volume".toList → ¬".volume".toList <:+ (Str.partition ':' value).1)
    (himage : key = "Image".toList → ¬".image".toList <:+ value ∧ ¬".build".toList <:+ value) :
    Takes key value where
  begins := hbegins
  words := ⟨value, [], by rw [List.intercalate_singleton],
    List.forall_mem_singleton.mpr hword, .inl rfl⟩
  file := hfile
  volume := hvolume
  image := himage

/-- `name=value`. -/
def variableOf (s : Str) : Str × Str :=
  ((Str.partition '=' s).1, (Str.partition '=' s).2.2)

/-- The generator of Podman, by `podman-systemd.unit`: the command of a container, as the unit that
it makes has it. It adds options of its own, of which nothing is said. -/
structure Quadlet where
  /-- The values of an option, in order. -/
  options : List Entry → Str → List Str
  options_key : ∀ es, Known es → ∀ p ∈ keys,
    (∀ v ∈ valuesOf es containerPart p.1, Takes p.1 v) →
      options es p.2 = valuesOf es containerPart p.1
  options_switch : ∀ es, Known es → ∀ p ∈ switches, valuesOf es containerPart p.1 = [p.2.1] →
    options es p.2.2.1 = [p.2.2.2]
  /-- Variables come in any order. -/
  options_env : ∀ es, Known es → ∀ w ws, Begins w → (∀ v ∈ w :: ws, Word v ∧ '=' ∈ v) →
    ((w :: ws).map fun v => (variableOf v).1).Nodup →
    valuesOf es containerPart "Environment".toList = [[' '].intercalate (w :: ws)] →
      (options es "env".toList).Perm (w :: ws)
  image : List Entry → Option Str
  image_key : ∀ es, Known es → ∀ v, Takes "Image".toList v →
    valuesOf es containerPart "Image".toList = [v] → image es = some v

/-! ### Commands -/

/-- The flags of `podman run`. -/
def flags : List (Str × Str) := [
  ("-d".toList, "detach".toList), ("--replace".toList, "replace".toList),
  ("--read-only".toList, "read-only".toList), ("--init".toList, "init".toList)]

/-- Options of `podman run` with a value. -/
def names : List Str := ["name".toList, "pull".toList, "restart".toList, "userns".toList,
  "cap-drop".toList, "security-opt".toList, "tmpfs".toList, "ulimit".toList, "tz".toList,
  "device".toList, "group-add".toList, "volume".toList, "publish".toList, "env-file".toList,
  "env".toList, "stop-timeout".toList, "health-cmd".toList]

/-- The arguments in front of a value, long and short. -/
def valued : List (Str × Str) :=
  [("-v".toList, "volume".toList), ("-p".toList, "publish".toList)] ++
    names.map fun name => ("--".toList ++ name, name)

/-- A directory of the host, or a volume, in the container. -/
structure Mount where
  source : Str
  target : Str
  options : List Str
  deriving DecidableEq, Repr

/-- A port of the container on an address of the host. -/
structure Publish where
  address : Str
  host : Str
  container : Str
  protocol : Str
  deriving DecidableEq, Repr

/-- Podman, by `podman-run`. -/
structure Program where
  /-- The options of a command, up to the image, which is the first argument that is none. -/
  parse : List Str → Option (Options × Str)
  parse_flag : ∀ p ∈ flags, ∀ args, args ≠ [] →
    parse (p.1 :: args) = (parse args).map fun r => ((p.2, []) :: r.1, r.2)
  parse_joined : ∀ name ∈ names, ∀ value args, args ≠ [] →
    parse (("--".toList ++ name ++ '=' :: value) :: args) =
      (parse args).map fun r => ((name, value) :: r.1, r.2)
  parse_apart : ∀ p ∈ valued, ∀ value args, args ≠ [] →
    parse (p.1 :: value :: args) = (parse args).map fun r => ((p.2, value) :: r.1, r.2)
  parse_image : ∀ image, image ≠ [] → image.head? ≠ some '-' → parse [image] = some ([], image)
  /-- The value of `-v`. -/
  mount : Str → Option Mount
  mount_fields : ∀ source target options, source ≠ [] → target ≠ [] → options ≠ [] →
    ':' ∉ source → ':' ∉ target → (∀ o ∈ options, ':' ∉ o ∧ ',' ∉ o) →
      mount (source ++ ':' :: target ++ ':' :: [','].intercalate options) =
        some ⟨source, target, options⟩
  /-- The value of `-p`, before its fields are checked. -/
  publish : Str → Option Publish
  publish_plain : ∀ address host container protocol, ':' ∉ address → '[' ∉ address →
    ':' ∉ host → ':' ∉ container → '/' ∉ container → ':' ∉ protocol →
      publish (address ++ ':' :: host ++ ':' :: (container ++ '/' :: protocol)) =
        some ⟨address, host, container, protocol⟩
  /-- An address with colons is in brackets. -/
  publish_brackets : ∀ address host container protocol, ']' ∉ address →
    ':' ∉ host → ':' ∉ container → '/' ∉ container → ':' ∉ protocol →
      publish ('[' :: address ++ ']' :: ':' :: host ++ ':' :: (container ++ '/' :: protocol)) =
        some ⟨address, host, container, protocol⟩

/-! ### Starts -/

/-- A start of a container. -/
structure Launch where
  /-- The commands that run first. -/
  before : List (List Str)
  environment : List (Str × Str)
  restart : List Str
  image : Str
  /-- The values of an option, in order; `none` when a specifier in them is not known. -/
  values : Str → Option (List Str)

/-- `--cap-drop` has names without case. -/
def normal (o : Str × Str) : Str × Str :=
  if o.1 = "cap-drop".toList then (o.1, Str.lower o.2) else o

/-- What belongs to the command `podman run` and not to the container. -/
def ofRun : List Str := ["detach".toList, "replace".toList, "restart".toList]

/-- The values of an option, as Podman takes them. -/
def values (options : Options) (name : Str) : List Str :=
  ((options.filter fun o => o.1 = name && !ofRun.contains o.1).map normal).map (·.2)

/-- The program of a command, without its directory. -/
def program : List Str → List Str
  | [] => []
  | name :: args => Str.splitLast '/' name :: args

/-- The options that the keys of a container stand for. -/
def standing : List Str :=
  keys.map (·.2) ++ switches.map (·.2.2.1) ++ ["env".toList]

/-- Two starts of one container: the options that keys stand for have the same values in the same
order, but for the variables, which come in any order. -/
structure Launch.Same (a b : Launch) : Prop where
  before : a.before = b.before
  environment : a.environment = b.environment
  restart : a.restart = b.restart
  image : a.image = b.image
  values : ∀ name ∈ standing, name ≠ "env".toList → a.values name = b.values name
  env : ∃ vs vs', a.values "env".toList = some vs ∧ b.values "env".toList = some vs' ∧ vs.Perm vs'

/-- The start that a unit describes. Words are cut before specifiers are resolved. -/
def ofUnit {runtime : Str} (systemd : Systemd runtime) (quadlet : Quadlet) (text : Str) :
    Option Launch := do
  let entries ← systemd.read text
  let before ← (valuesOf entries "Service".toList "ExecStartPre".toList).mapM fun command =>
    (systemd.words command).mapM systemd.resolve
  let environment ← ((valuesOf entries "Service".toList "Environment".toList).flatMap
    systemd.words).mapM systemd.resolve
  let image ← (quadlet.image entries).bind systemd.resolve
  return {
    before := before.map program
    environment := environment.map variableOf
    restart := valuesOf entries "Service".toList "Restart".toList
    image := image
    values := fun name => (quadlet.options entries name).mapM systemd.resolve }

/-- The start that a script describes, whose last command is `podman run`. -/
def ofCommand (podman : Program) (env : Shell.Env) (text : Str) : Option Launch := do
  let commands ← Shell.simples env text
  let last ← commands.getLast?
  if last.argv.take 2 = ["podman".toList, "run".toList] then
    let (options, image) ← podman.parse (last.argv.drop 2)
    return {
      before := commands.dropLast.map fun c => program c.argv
      environment := last.assigns
      restart := (options.filter fun o => o.1 = "restart".toList).map (·.2)
      image := image
      values := fun name => some (values options name) }
  else none

/-! ### The order of options -/

variable {a b c : Options} {name : Str} {o o' : Str × Str}

/-- The values of two lists of options. -/
theorem values_append (a b : Options) (name : Str) :
    values (a ++ b) name = values a name ++ values b name := by
  simp [values]

/-- Those of the first option, and of the others. -/
theorem values_cons (o : Str × Str) (a : Options) (name : Str) :
    values (o :: a) name = values [o] name ++ values a name := values_append [o] a name

/-- An option of the command only. -/
theorem values_ofRun (h : o.1 ∈ ofRun) (a : Options) : values (o :: a) = values a := by
  funext name
  have hnone : values [o] name = [] := by simp [values, h]
  rw [values_cons, hnone, List.nil_append]

/-- Two options that are one to Podman. -/
theorem values_singleton (hname : o.1 = o'.1) (h : normal o = normal o') :
    values [o] = values [o'] := by
  funext name
  simp only [values, List.filter_cons, List.filter_nil, hname]
  split
  · simp only [List.map_cons, List.map_nil, h]
  · rfl

/-- The values of two lists, option by option. -/
theorem values_congr (h : values [o] = values [o']) (ha : values a = values b) :
    values (o :: a) = values (o' :: b) := by
  funext name
  rw [values_cons, values_cons o', h, ha]

/-- Options of other names. -/
theorem values_of_ne (h : ∀ o ∈ a, o.1 ≠ name) : values a name = [] := by
  have hfilter : (a.filter fun o => o.1 = name && !ofRun.contains o.1) = [] := by
    rw [List.filter_eq_nil_iff]
    intro o ho
    simp [h o ho]
  rw [values, hfilter]
  rfl

/-- The values of an option that is no `--cap-drop`. -/
theorem values_key (hname : name ∉ ofRun) (hcase : name ≠ "cap-drop".toList) (vs : List Str) :
    values (vs.map (name, ·)) name = vs := by
  induction vs with
  | nil => rfl
  | cons v vs ih =>
    have hfirst : values [(name, v)] name = [v] := by
      rw [values, List.filter_cons_of_pos (by simpa using hname), List.filter_nil,
        List.map_singleton, normal, if_neg hcase, List.map_singleton]
    rw [List.map_cons, values_cons, hfirst, ih, List.singleton_append]

/-- Options of one name and options of other names can stand in either order. -/
theorem values_swap {k : Str} (hb : ∀ o ∈ b, o.1 = k) (hc : ∀ o ∈ c, o.1 ≠ k) :
    values (a ++ b ++ c) = values (a ++ c ++ b) := by
  funext name
  simp only [values_append, List.append_assoc]
  congr 1
  -- Of each name, one of the two has no value.
  by_cases hname : name = k
  · have hnone : values c name = [] := values_of_ne fun o ho heq => hc o ho (heq.trans hname)
    rw [hnone, List.nil_append, List.append_nil]
  · have hnone : values b name = [] :=
      values_of_ne fun o ho heq => hname (heq.symm.trans (hb o ho))
    rw [hnone, List.nil_append, List.append_nil]

/-! ### Arguments piece by piece -/

section Arguments

/-- Arguments that are options, whatever stands behind them. -/
def Parses (podman : Program) (args : List Str) (options : Options) : Prop := ∀ rest, rest ≠ [] →
  podman.parse (args ++ rest) = (podman.parse rest).map fun r => (options ++ r.1, r.2)

variable {podman : Program} {args args' : List Str} {arg value key : Str}

/-- No arguments. -/
theorem parses_nil : Parses podman [] [] := by
  intro rest _
  cases h : podman.parse rest <;> simp [h]

/-- Arguments one behind the other. -/
theorem Parses.append (ha : Parses podman args a) (hb : Parses podman args' b) :
    Parses podman (args ++ args') (a ++ b) := by
  intro rest hne
  rw [List.append_assoc, ha _ (by simp [hne]), hb rest hne, Option.map_map]
  simp [Function.comp_def]

/-- An option without a value. -/
theorem Parses.flag (h : (arg, key) ∈ flags) (ha : Parses podman args a) :
    Parses podman (arg :: args) ((key, []) :: a) := by
  intro rest hne
  have hparse := podman.parse_flag (arg, key) h (args ++ rest) (by simp [hne])
  rw [List.cons_append, hparse, ha rest hne, Option.map_map]
  rfl

/-- An option with its value behind `=`. -/
theorem Parses.joined (harg : arg = "--".toList ++ key ++ '=' :: value) (h : key ∈ names)
    (ha : Parses podman args a) : Parses podman (arg :: args) ((key, value) :: a) := by
  intro rest hne
  have hparse := podman.parse_joined key h value (args ++ rest) (by simp [hne])
  rw [List.cons_append, harg, hparse, ha rest hne, Option.map_map]
  rfl

/-- An option with its value as the next argument. -/
theorem Parses.apart (h : (arg, key) ∈ valued) (ha : Parses podman args a) :
    Parses podman (arg :: value :: args) ((key, value) :: a) := by
  intro rest hne
  have hparse := podman.parse_apart (arg, key) h value (args ++ rest) (by simp [hne])
  rw [List.cons_append, List.cons_append, hparse, ha rest hne, Option.map_map]
  rfl

/-- A script of one command and `podman run`. -/
theorem ofCommand_eq {env : Shell.Env} {text image : Str} {first : Shell.Simple}
    {assigns : List (Str × Str)} {options : Options}
    (h : Shell.simples env text = some [first, ⟨assigns, "podman".toList :: "run".toList :: args⟩])
    (hargs : podman.parse args = some (options, image)) : ofCommand podman env text = some {
      before := [program first.argv]
      environment := assigns
      restart := (options.filter fun o => o.1 = "restart".toList).map (·.2)
      image := image
      values := fun name => some (values options name) } := by
  have hcommand : ("podman".toList :: "run".toList :: args).take 2 =
      ["podman".toList, "run".toList] := rfl
  have hrest : ("podman".toList :: "run".toList :: args).drop 2 = args := rfl
  rw [ofCommand, h, Option.bind_eq_bind, Option.bind_some]
  simp only [List.getLast?_cons_cons, List.getLast?_singleton, Option.bind_eq_bind,
    Option.bind_some, hrest, hargs]
  rw [if_pos hcommand]
  rfl

end Arguments

/-! ### Units piece by piece -/

section Units

variable {es es' : List Entry} {part : Str} {resolve : Str → Option Str}

/-- The values of two lists of entries. -/
theorem valuesOf_append (es es' : List Entry) (part key : Str) :
    valuesOf (es ++ es') part key = valuesOf es part key ++ valuesOf es' part key := by
  simp [valuesOf]

/-- Those of the first entry, and of the others. -/
theorem valuesOf_cons (e : Entry) (es : List Entry) (part key : Str) :
    valuesOf (e :: es) part key =
      (if e.part = part ∧ e.key = key then [e.value] else []) ++ valuesOf es part key := by
  rw [valuesOf, List.filter_cons, valuesOf]
  by_cases h : e.part = part ∧ e.key = key
  · rw [if_pos (by simpa using h), if_pos h]
    rfl
  · rw [if_neg (by simpa using h), if_neg h]
    rfl

/-- A value is that of an entry. -/
theorem mem_valuesOf {key v : Str} (h : v ∈ valuesOf es part key) : ⟨part, key, v⟩ ∈ es := by
  obtain ⟨e, he, rfl⟩ := List.mem_map.mp h
  rw [List.mem_filter, Bool.and_eq_true, decide_eq_true_eq, decide_eq_true_eq] at he
  obtain ⟨hmem, rfl, rfl⟩ := he
  exact hmem

/-- Known entries one behind the other. -/
theorem Known.append (h : Known es) (h' : Known es') : Known (es ++ es') :=
  List.forall_mem_append.mpr ⟨h, h'⟩

/-- The entries, with their specifiers resolved. -/
def resolved (resolve : Str → Option Str) (es : List Entry) : Option (List Entry) :=
  es.mapM fun e => (resolve e.value).map ({ e with value := · })

/-- The specifiers of two lists of entries. -/
theorem resolved_append (resolve : Str → Option Str) (es es' : List Entry) :
    resolved resolve (es ++ es') = (resolved resolve es).bind fun r =>
      (resolved resolve es').map (r ++ ·) := by
  rw [resolved, List.mapM_append, resolved, resolved]
  cases es.mapM fun e => (resolve e.value).map ({ e with value := · }) with
  | none => rfl
  | some r =>
    cases es'.mapM fun e => (resolve e.value).map ({ e with value := · }) <;> rfl

/-- Those of one entry. -/
theorem resolved_singleton {value value' : Str} (h : resolve value = some value')
    (part key : Str) : resolved resolve [⟨part, key, value⟩] = some [⟨part, key, value'⟩] := by
  rw [resolved, List.mapM_cons, h]
  rfl

/-- Values without a specifier. -/
theorem Systemd.resolved_of_not_mem {runtime : Str} (systemd : Systemd runtime)
    (h : ∀ e ∈ es, '%' ∉ e.value) : resolved systemd.resolve es = some es := by
  induction es with
  | nil => rfl
  | cons e es ih =>
    rw [List.forall_mem_cons] at h
    rw [resolved] at ih ⊢
    rw [List.mapM_cons, systemd.resolve_free _ h.1, ih h.2]
    rfl

/-- Words without a specifier. -/
theorem Systemd.mapM_resolve {runtime : Str} (systemd : Systemd runtime) {ws : List Str}
    (h : ∀ w ∈ ws, '%' ∉ w) : ws.mapM systemd.resolve = some ws := by
  induction ws with
  | nil => rfl
  | cons w ws ih =>
    rw [List.forall_mem_cons] at h
    rw [List.mapM_cons, systemd.resolve_free _ h.1, ih h.2]
    rfl

/-- The values of a key can be resolved as well. -/
theorem valuesOf_resolved (h : resolved resolve es = some es') (part key : Str) :
    (valuesOf es part key).mapM resolve = some (valuesOf es' part key) := by
  induction es generalizing es' with
  | nil =>
    cases h
    rfl
  | cons e es ih =>
    rw [resolved, List.mapM_cons] at h
    obtain ⟨e', he, h⟩ := Option.bind_eq_some_iff.mp h
    obtain ⟨rest, hrest, h⟩ := Option.bind_eq_some_iff.mp h
    cases h
    obtain ⟨value, hvalue, rfl⟩ := Option.map_eq_some_iff.mp he
    rw [valuesOf_cons, valuesOf_cons, List.mapM_append, ih hrest]
    by_cases hkey : e.part = part ∧ e.key = key
    · rw [if_pos hkey, if_pos hkey, List.mapM_cons, hvalue]
      rfl
    · rw [if_neg hkey, if_neg hkey]
      rfl

/-! #### Options of entries -/

/-- The options that an entry of the container stands for. -/
def optionsOf (e : Entry) : Options :=
  if e.key = "Image".toList then []
  else if e.key = "Environment".toList then (e.value.splitOn ' ').map ("env".toList, ·)
  else match switches.lookup e.key with
    | some o => if e.value = o.1 then [(o.2.1, o.2.2)] else []
    | none => [((keys.lookup e.key).getD e.key, e.value)]

/-- The options that the entries of the container stand for. -/
def containerOptions (es : List Entry) : Options :=
  (es.filter fun e => e.part = containerPart).flatMap optionsOf

/-- The options of two lists of entries. -/
theorem containerOptions_append (es es' : List Entry) :
    containerOptions (es ++ es') = containerOptions es ++ containerOptions es' := by
  simp [containerOptions]

/-- Those of the first entry, and of the others. -/
theorem containerOptions_cons (e : Entry) (es : List Entry) : containerOptions (e :: es) =
    (if e.part = containerPart then optionsOf e else []) ++ containerOptions es := by
  rw [containerOptions, List.filter_cons, containerOptions]
  by_cases h : e.part = containerPart
  · rw [if_pos (decide_eq_true h), if_pos h, List.flatMap_cons]
  · rw [if_neg (by simpa using h), if_neg h]
    rfl

/-- The rows of the tables of keys. -/
theorem keys_rows : ∀ p ∈ keys, p.2 ∉ ofRun ∧ p.2 ≠ "cap-drop".toList ∧ p.2 ≠ "env".toList ∧
    p.1 ≠ "Image".toList ∧ p.1 ≠ "Environment".toList ∧ switches.lookup p.1 = none ∧
    keys.lookup p.1 = some p.2 ∧ (∀ q ∈ switches, q.2.2.1 ≠ p.2) ∧
    ∀ q ∈ keys, q.2 = p.2 → q.1 = p.1 := by decide

/-- What is found is in the list. -/
theorem mem_of_lookup {α : Type} {l : List (Str × α)} {key : Str} {b : α}
    (h : l.lookup key = some b) : (key, b) ∈ l := by
  obtain ⟨l₁, l₂, rfl, -⟩ := List.lookup_eq_some_iff.mp h
  exact List.mem_append_right _ List.mem_cons_self

/-- A key of the table stands for one option. -/
theorem optionsOf_key {e : Entry} {p : Str × Str} (hp : p ∈ keys) (hkey : e.key = p.1) :
    optionsOf e = [(p.2, e.value)] := by
  obtain ⟨-, -, -, himage, henvironment, hswitch, hlookup, -⟩ := keys_rows p hp
  rw [optionsOf, hkey, if_neg himage, if_neg henvironment, hswitch, hlookup]
  rfl

/-- Another key has no option of the name. -/
theorem optionsOf_ne {e : Entry} {p : Str × Str} (hp : p ∈ keys) (hkey : e.key ≠ p.1)
    (hknown : isKnown e.key = true) : ∀ o ∈ optionsOf e, o.1 ≠ p.2 := by
  obtain ⟨-, -, henv, -, -, -, -, hswitches, hunique⟩ := keys_rows p hp
  unfold optionsOf
  by_cases himage : e.key = "Image".toList
  · rw [if_pos himage]
    exact List.forall_mem_nil _
  by_cases henvironment : e.key = "Environment".toList
  · rw [if_neg himage, if_pos henvironment]
    intro o ho
    obtain ⟨w, -, rfl⟩ := List.mem_map.mp ho
    exact henv.symm
  rw [if_neg himage, if_neg henvironment]
  cases hswitch : switches.lookup e.key with
  | some q =>
    dsimp only
    split
    · exact List.forall_mem_singleton.mpr (hswitches _ (mem_of_lookup hswitch))
    · exact List.forall_mem_nil _
  | none =>
    refine List.forall_mem_singleton.mpr ?_
    cases hlookup : keys.lookup e.key with
    | none =>
      rw [isKnown, decide_eq_false himage, decide_eq_false henvironment, hlookup, hswitch] at hknown
      cases hknown
    | some name => exact fun heq => hkey (hunique _ (mem_of_lookup hlookup) heq)

/-- The option of a key has the values of the key. -/
theorem values_containerOptions (h : Known es) {p : Str × Str} (hp : p ∈ keys) :
    values (containerOptions es) p.2 = valuesOf es containerPart p.1 := by
  obtain ⟨hrun, hcase, -⟩ := keys_rows p hp
  induction es with
  | nil => rfl
  | cons e es ih =>
    obtain ⟨hknown, hrest⟩ := List.forall_mem_cons.mp h
    rw [containerOptions_cons, valuesOf_cons, values_append, ih hrest]
    congr 1
    by_cases hpart : e.part = containerPart
    · rw [if_pos hpart]
      by_cases hkey : e.key = p.1
      · rw [if_pos ⟨hpart, hkey⟩, optionsOf_key hp hkey]
        exact values_key hrun hcase [e.value]
      · rw [if_neg fun hboth => hkey hboth.2, values_of_ne (optionsOf_ne hp hkey (hknown hpart))]
    · rw [if_neg hpart, if_neg fun hboth => hpart hboth.1]
      rfl

/-- The entries of a key whose value is the option's. -/
theorem containerOptions_key {p : Str × Str} (hp : p ∈ keys) (vs : List Str) :
    containerOptions (vs.map (⟨containerPart, p.1, ·⟩)) = vs.map (p.2, ·) := by
  induction vs with
  | nil => rfl
  | cons v vs ih =>
    rw [List.map_cons, containerOptions_cons, if_pos rfl, ih, optionsOf_key hp rfl]
    rfl

/-- The values of another key. -/
theorem valuesOf_other {key key' : Str} (h : key' ≠ key) (part part' : Str) (vs : List Str) :
    valuesOf (vs.map (⟨part', key', ·⟩)) part key = [] := by
  rw [valuesOf, List.map_eq_nil_iff, List.filter_eq_nil_iff]
  intro e he
  obtain ⟨v, -, rfl⟩ := List.mem_map.mp he
  simp [h]

end Units

end Podman

end AndroidAppliance
