import AndroidAppliance.Podman.Launch

/-!
# Programs for plain texts

Programs with the laws of `Systemd`, `Quadlet` and `Program`. They read plain texts only: what the
manuals say of other texts is left out.
-/

namespace AndroidAppliance

namespace Podman

open UnitFile (Entry Line meant)

/-! ### Units -/

/-- The entries of plain lines, from a section on. -/
def plainEntries : Str → List Str → List Entry
  | _, [] => []
  | part, [] :: ls => plainEntries part ls
  | part, ('#' :: _) :: ls => plainEntries part ls
  | _, ('[' :: s) :: ls => plainEntries s.dropLast ls
  | part, (c :: s) :: ls =>
    ⟨part, (Str.partition '=' (c :: s)).1, (Str.partition '=' (c :: s)).2.2⟩ ::
      plainEntries part ls

/-- Plain lines are read as they are meant. -/
theorem plainEntries_text {ls : List Line} (h : ∀ l ∈ ls, l.Plain) (part : Str) :
    plainEntries part (ls.map Line.text) = meant part ls := by
  induction ls generalizing part with
  | nil => rfl
  | cons l ls ih =>
    obtain ⟨hplain, hrest⟩ := List.forall_mem_cons.mp h
    cases l with
    | comment text => exact ih hrest part
    | blank => exact ih hrest part
    | header name =>
      have hname : (name ++ [']']).dropLast = name := List.dropLast_concat
      change plainEntries (name ++ [']']).dropLast (ls.map Line.text) = meant name ls
      rw [hname, ih hrest]
    | assign key value =>
      obtain ⟨hkey, -⟩ := hplain
      have hcut : Str.partition '=' (key ++ '=' :: value) = (key, ['='], value) :=
        Str.partition_sep hkey.equals
      obtain ⟨c, s, rfl⟩ := List.exists_cons_of_ne_nil hkey.ne_nil
      have hhash : c ≠ '#' := fun heq => hkey.hash (by rw [heq]; rfl)
      have hbracket : c ≠ '[' := fun heq => hkey.bracket (by rw [heq]; rfl)
      rw [List.map_cons, Line.text, List.cons_append, plainEntries]
      · rw [← List.cons_append, hcut, ih hrest part]
        rfl
      · exact hhash
      · exact hbracket

/-- The words between blanks. -/
def plainWords (s : Str) : List Str := (s.splitOn ' ').filter fun w => !w.isEmpty

/-- A word has no blank. -/
theorem blank_notMem_word {s : Str} (h : Word s) : ' ' ∉ s := fun hmem =>
  absurd (h.2 _ hmem) (by decide)

/-- Words with blanks between them. -/
theorem plainWords_intercalate {ws : List Str} (h : ∀ w ∈ ws, Word w) (hne : ws ≠ []) :
    plainWords ([' '].intercalate ws) = ws := by
  rw [plainWords, List.splitOn_intercalate ' ' (fun w hw => blank_notMem_word (h w hw)) hne,
    List.filter_eq_self]
  intro w hw
  simpa using (h w hw).1

/-- The specifier `%t`, and no other one. -/
def plainResolve (runtime : Str) : Str → Option Str
  | [] => some []
  | '%' :: 't' :: s => (plainResolve runtime s).map (runtime ++ ·)
  | '%' :: _ => none
  | c :: s => (plainResolve runtime s).map (c :: ·)

/-- A text without specifiers in front. -/
theorem plainResolve_append {runtime s : Str} (h : '%' ∉ s) (t : Str) :
    plainResolve runtime (s ++ t) = (plainResolve runtime t).map (s ++ ·) := by
  induction s with
  | nil => simp
  | cons c s ih =>
    rw [List.mem_cons, not_or] at h
    have hstep : plainResolve runtime (c :: (s ++ t)) =
        (plainResolve runtime (s ++ t)).map (c :: ·) := by
      rw [plainResolve]
      all_goals simp [Ne.symm h.1]
    rw [List.cons_append, hstep, ih h.2, Option.map_map]
    rfl

/-- A text without specifiers. -/
theorem plainResolve_free {runtime s : Str} (h : '%' ∉ s) : plainResolve runtime s = some s := by
  have happend : plainResolve runtime (s ++ []) = (plainResolve runtime []).map (s ++ ·) :=
    plainResolve_append h []
  rw [List.append_nil] at happend
  rw [happend, plainResolve, Option.map_some, List.append_nil]

/-- A manager that knows plain lines and `%t` only. -/
def plainSystemd (runtime : Str) : Systemd runtime where
  read s := some (plainEntries [] (Str.lines Str.isNewline s))
  read_lines ls h := by rw [UnitFile.lines_text h, plainEntries_text h]
  words := plainWords
  words_plain w ws _ h := plainWords_intercalate h (List.cons_ne_nil _ _)
  resolve := plainResolve runtime
  resolve_free _ h := plainResolve_free h
  resolve_runtime s t hs ht := by
    rw [plainResolve_append hs, plainResolve, plainResolve_free ht]
    simp

/-- No two keys stand for one option. -/
theorem find_keys : ∀ p ∈ keys, keys.find? (fun q => q.2 = p.2) = some p := by decide

/-- Nor do two switches, or a key and a switch. -/
theorem find_switches : ∀ p ∈ switches, keys.find? (fun q => q.2 = p.2.2.1) = none ∧
    switches.find? (fun q => q.2.2.1 = p.2.2.1) = some p := by decide

/-- A generator that passes the values of each key on. -/
def plainQuadlet : Quadlet where
  options es name :=
    match keys.find? fun p => p.2 = name with
    | some p => valuesOf es containerPart p.1
    | none =>
      match switches.find? fun p => p.2.2.1 = name with
      | some p => if valuesOf es containerPart p.1 = [p.2.1] then [p.2.2.2] else []
      | none => (valuesOf es containerPart "Environment".toList).flatMap plainWords
  options_key es _ p hp _ := by rw [find_keys p hp]
  options_switch es _ p hp h := by
    obtain ⟨hkeys, hswitch⟩ := find_switches p hp
    rw [hkeys]
    dsimp only
    rw [hswitch]
    exact if_pos h
  options_env es _ w ws _ hwords _ h := by
    have hkeys : keys.find? (fun p => p.2 = "env".toList) = none := by decide
    have hswitches : switches.find? (fun p => p.2.2.1 = "env".toList) = none := by decide
    rw [hkeys]
    dsimp only
    rw [hswitches, h]
    dsimp only
    rw [List.flatMap_singleton,
      plainWords_intercalate (fun v hv => (hwords v hv).1) (List.cons_ne_nil _ _)]
  image es := (valuesOf es containerPart "Image".toList).head?
  image_key es _ v _ h := by rw [h, List.head?_cons]

/-! ### Commands -/

/-- The short names of options with a value. -/
def shorts : List (Str × Str) := [("-v".toList, "volume".toList), ("-p".toList, "publish".toList)]

/-- The options of `podman run`, up to the image, which is last. -/
def plainArgs : List Str → Option (Options × Str)
  | [] => none
  | [image] => if image.head? = some '-' then none else some ([], image)
  | arg :: value :: rest =>
    match flags.lookup arg with
    | some name => (plainArgs (value :: rest)).map fun r => ((name, []) :: r.1, r.2)
    | none =>
      if arg.contains '=' then
        (plainArgs (value :: rest)).map fun r =>
          (((Str.partition '=' arg).1.drop 2, (Str.partition '=' arg).2.2) :: r.1, r.2)
      else
        (plainArgs rest).map fun r => (((shorts.lookup arg).getD (arg.drop 2), value) :: r.1, r.2)

/-- A flag is found, and has no `=`. -/
theorem lookup_flags : ∀ p ∈ flags, '=' ∉ p.1 ∧ flags.lookup p.1 = some p.2 := by decide

/-- An option that has a value is no flag. -/
theorem lookup_valued : ∀ p ∈ valued, flags.lookup p.1 = none ∧ p.1.contains '=' = false ∧
    (shorts.lookup p.1).getD (p.1.drop 2) = p.2 := by decide

/-- No name of an option has a `=`. -/
theorem equals_notMem_names : ∀ name ∈ names, '=' ∉ "--".toList ++ name := by decide

/-- The address in front of a colon; one in brackets can have colons. -/
def addressOf : Str → Str × Str
  | '[' :: s => ((Str.partition ']' s).1, (Str.partition ']' s).2.2.drop 1)
  | s => ((Str.partition ':' s).1, (Str.partition ':' s).2.2)

/-- `IP:HOST-PORT:CONTAINER-PORT/PROTOCOL`. -/
def plainPublish (s : Str) : Option Publish :=
  match (addressOf s).2.splitOn ':' with
  | [host, container] => some ⟨(addressOf s).1, host, (Str.partition '/' container).1,
      (Str.partition '/' container).2.2⟩
  | _ => none

/-- Ports behind what is read as the address. -/
theorem plainPublish_ports {s address host container protocol : Str}
    (haddress : addressOf s = (address, host ++ ':' :: (container ++ '/' :: protocol)))
    (hhost : ':' ∉ host) (hcontainer : ':' ∉ container) (hslash : '/' ∉ container)
    (hprotocol : ':' ∉ protocol) :
    plainPublish s = some ⟨address, host, container, protocol⟩ := by
  have hlast : ':' ∉ container ++ '/' :: protocol := by
    simp only [List.mem_append, List.mem_cons, not_or]
    exact ⟨hcontainer, by decide, hprotocol⟩
  have hports : (host ++ ':' :: (container ++ '/' :: protocol)).splitOn ':' =
      [host, container ++ '/' :: protocol] := by
    have hfields : ∀ f ∈ [host, container ++ '/' :: protocol], ':' ∉ f :=
      List.forall_mem_cons.mpr ⟨hhost, List.forall_mem_singleton.mpr hlast⟩
    have hsplit := List.splitOn_intercalate ':' hfields (List.cons_ne_nil _ _)
    rwa [List.intercalate_cons_cons, List.intercalate_singleton, List.append_assoc,
      List.singleton_append] at hsplit
  rw [plainPublish, haddress]
  simp only [hports, Str.partition_sep hslash]

/-- An address without colon and bracket ends at the colon. -/
theorem addressOf_plain {address : Str} (hcolon : ':' ∉ address) (hbracket : '[' ∉ address)
    (ports : Str) : addressOf (address ++ ':' :: ports) = (address, ports) := by
  cases address with
  | nil => rfl
  | cons c s =>
    have hc : c ≠ '[' := fun heq => hbracket (heq ▸ List.mem_cons_self)
    rw [List.cons_append, addressOf, ← List.cons_append, Str.partition_sep hcolon]
    exact fun _ heq => hc (List.cons.inj heq).1

/-- `HOST-DIR:CONTAINER-DIR:OPTIONS`. -/
def plainMount (s : Str) : Option Mount :=
  match s.splitOn ':' with
  | [source, target, options] => some ⟨source, target, options.splitOn ','⟩
  | _ => none

/-- An option parser that knows the forms of the documents. -/
def plainProgram : Program where
  parse := plainArgs
  parse_flag p hp args hne := by
    obtain ⟨arg, rest, rfl⟩ := List.exists_cons_of_ne_nil hne
    rw [plainArgs, (lookup_flags p hp).2]
  parse_joined name hname value args hne := by
    obtain ⟨arg, rest, rfl⟩ := List.exists_cons_of_ne_nil hne
    have hequals := equals_notMem_names name hname
    have hmem : ("--".toList ++ name ++ '=' :: value).contains '=' = true := by
      simp
    have hlookup : flags.lookup ("--".toList ++ name ++ '=' :: value) = none := by
      cases hflag : flags.lookup ("--".toList ++ name ++ '=' :: value) with
      | none => rfl
      | some key =>
        exact absurd (List.contains_iff_mem.mp hmem) (lookup_flags _ (mem_of_lookup hflag)).1
    rw [plainArgs, hlookup]
    dsimp only
    rw [if_pos hmem, Str.partition_sep hequals]
    rfl
  parse_apart p hp value args hne := by
    obtain ⟨hlookup, hequals, hname⟩ := lookup_valued p hp
    rw [plainArgs, hlookup]
    dsimp only
    rw [if_neg (by rw [hequals]; exact Bool.false_ne_true), hname]
  parse_image image hne hdash := by rw [plainArgs, if_neg hdash]
  mount := plainMount
  mount_fields source target options _ _ hne hsource htarget hoptions := by
    have hlast : ':' ∉ [','].intercalate options := by
      intro hmem
      rcases Str.mem_intercalate hmem with hcomma | ⟨o, ho, hc⟩
      · exact absurd hcomma (by decide)
      · exact (hoptions o ho).1 hc
    have hfields : ∀ f ∈ [source, target, [','].intercalate options], ':' ∉ f :=
      List.forall_mem_cons.mpr ⟨hsource, List.forall_mem_cons.mpr
        ⟨htarget, List.forall_mem_singleton.mpr hlast⟩⟩
    have hsplit := List.splitOn_intercalate ':' hfields (List.cons_ne_nil _ _)
    have htext : [':'].intercalate [source, target, [','].intercalate options] =
        source ++ ':' :: target ++ ':' :: [','].intercalate options := by
      simp [List.intercalate_cons_cons, List.intercalate_singleton]
    rw [htext] at hsplit
    rw [plainMount, hsplit]
    simp only [List.splitOn_intercalate ',' (fun o ho => (hoptions o ho).2) hne]
  publish := plainPublish
  publish_plain address host container protocol hcolon hbracket hhost hcontainer hslash
      hprotocol := by
    refine plainPublish_ports ?_ hhost hcontainer hslash hprotocol
    rw [List.append_assoc]
    exact addressOf_plain hcolon hbracket _
  publish_brackets address host container protocol hclosing hhost hcontainer hslash
      hprotocol := by
    refine plainPublish_ports ?_ hhost hcontainer hslash hprotocol
    rw [List.append_assoc, List.cons_append, List.cons_append, addressOf,
      Str.partition_sep hclosing]
    rfl

end Podman

end AndroidAppliance
