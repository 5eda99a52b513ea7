import AndroidAppliance.Text.Lines
import Mathlib.Data.List.DropRight

/-!
# The managed keys of config.ini

`_read_key`, `_set_key` and `configure` of `appliance/avd.py`. Seven keys of config.ini have
managed values; a line for a key is `KEY = VALUE` with any number of spaces.

What matters of the lines for a key are their values in order (`values`). Setting a key does to
its own values what `settle` says, and nothing to those of another key (`values_setKey`,
`values_setKey_other`), so the keys can be set one after another.
-/

namespace AndroidAppliance

namespace Avd

open Str

/-! ### `appliance/avd.py` -/

/-- What stands behind `^KEY *=`. -/
def assigned (key line : Str) : Option Str :=
  if key.isPrefixOf line then
    match (line.drop key.length).dropWhile (· = ' ') with
    | '=' :: value => some value
    | _ => none
  else none

/-- The group of `^KEY *= *(.*)$`. -/
def valueOf (key line : Str) : Option Str := (assigned key line).map (·.dropWhile (· = ' '))

/-- `_read_key`. -/
def readKey (lines : List Str) (key : Str) : Option Str := lines.findSome? (valueOf key)

/-- `re.sub(r"^([0-9]+)[MG]$", r"\1", s)`. -/
def dropUnit (s : Str) : Str :=
  if (s.getLast? = some 'M' ∨ s.getLast? = some 'G') ∧ isDigits s.dropLast then s.dropLast else s

/-- `{key}={value}`. -/
def assignment (key value : Str) : Str := key ++ '=' :: value

/-- `_set_key`, with what it returns. -/
def setKey (lines : List Str) (key value : Str) : List Str × Bool :=
  match readKey lines key with
  | some current =>
    if dropUnit current = value then (lines, false)
    else (lines.map fun line =>
      if (assigned key line).isSome then assignment key value else line, true)
  | none => (lines ++ [assignment key value], true)

/-- What `configure` reads of the configuration. -/
structure Config where
  avdName : Str
  /-- `avd_dir`. -/
  avdDir : Str
  memoryMib : Nat
  cores : Nat
  deriving DecidableEq, Repr

/-- The managed keys and their values. -/
def managed (cfg : Config) : List (Str × Str) :=
  [("hw.ramSize".toList, ofNat cfg.memoryMib),
    ("hw.cpu.ncore".toList, ofNat cfg.cores),
    ("hw.lcd.width".toList, ofNat 1080),
    ("hw.lcd.height".toList, ofNat 1920),
    ("hw.lcd.density".toList, ofNat 420),
    ("fastboot.forceColdBoot".toList, "yes".toList),
    ("fastboot.forceFastBoot".toList, "no".toList)]

/-- The loop of `configure`, with `changed`. -/
def setKeys : List (Str × Str) → List Str → List Str × Bool
  | [], lines => (lines, false)
  | (key, value) :: rest, lines =>
    let set := setKey lines key value
    let others := setKeys rest set.1
    (others.1, set.2 || others.2)

/-- `sysdir`. -/
def sysdir (api : Nat) : Str :=
  "system-images/android-".toList ++ ofNat api ++ "/google_apis_playstore/x86_64".toList

/-- `(_read_key(lines, "image.sysdir.1") or "").rstrip("/")`. -/
def imageOf (lines : List Str) : Str :=
  ((readKey lines "image.sysdir.1".toList).getD []).rdropWhile (· = '/')

/-- `"\n".join(lines) + "\n"`. -/
def joined (lines : List Str) : Str := ['\n'].intercalate lines ++ ['\n']

/-- `_registry`, without `path.rel`. -/
def registry (cfg : Config) (api : Nat) : Str :=
  joined ["avd.ini.encoding=UTF-8".toList, "path=".toList ++ cfg.avdDir,
    "target=android-".toList ++ ofNat api]

/-- The files: the three that `configure` writes, the temporary ones of `_write`, and others. -/
inductive File
  | config
  | quickboot
  | registry
  | tmp (of : File)
  | other (path : Str)
  deriving DecidableEq, Repr

/-- The texts of the files. -/
def Texts := File → Option Str

/-- `_write`: the temporary file becomes the file. -/
def Texts.write (d : Texts) (f : File) (text : Str) : Texts := fun g =>
  if g = f then some text else if g = .tmp f then none else d g

/-- What `configure` raises. -/
inductive ConfigureError
  /-- There is no config.ini. -/
  | notFound
  | avdError (message : Str)
  deriving DecidableEq, Repr

/-- What a call of `configure` leaves and raises, and the files it wrote. -/
structure Configured where
  texts : Texts
  writes : List File
  raised : Option ConfigureError

/-- The text of the `AvdError`. -/
def mismatch (cfg : Config) (image : Str) (api : Nat) : Str :=
  "the existing AVD '".toList ++ cfg.avdName ++ "' uses '".toList ++ image ++
    "', but the image provides API level ".toList ++ ofNat api ++ " (".toList ++ sysdir api ++
    "/). The API level does not upgrade existing AVDs; ".toList ++
    "use an image of the matching level or recreate the AVD.".toList

/-- The text of quickbootChoice.ini. -/
def noSnapshot : Str := "saveOnExit=false\n".toList

/-- `config.read_text().splitlines()`. -/
def linesOf (text : Str) : List Str := splitlines (universal text)

/-- `configure`, with the texts of the files that the directory has. -/
def configure (cfg : Config) (api : Nat) (d : Texts) : Configured :=
  match d .config with
  | none => ⟨d, [], some .notFound⟩
  | some text =>
    let image := imageOf (linesOf text)
    if image ≠ sysdir api then ⟨d, [], some (.avdError (mismatch cfg image api))⟩
    else
      let set := setKeys (managed cfg) (linesOf text)
      let config := if set.2 then [(File.config, joined set.1)] else []
      let quickboot :=
        if (d .quickboot).map universal = some noSnapshot then [] else [(.quickboot, noSnapshot)]
      let writes := config ++ quickboot ++ [(.registry, registry cfg api)]
      ⟨writes.foldl (fun d w => d.write w.1 w.2) d, writes.map (·.1), none⟩

/-! ### The lines for one key -/

/-- A key that can be told from what follows it. -/
def PlainKey (key : Str) : Prop := ∀ c ∈ key, c ≠ ' ' ∧ c ≠ '='

instance (key : Str) : Decidable (PlainKey key) := List.decidableBAll _ _

variable {key key' value line text : Str} {ls : List Str}

theorem assigned_assignment (key value : Str) :
    assigned key (assignment key value) = some value := by
  have hprefix : key.isPrefixOf (assignment key value) = true :=
    List.isPrefixOf_iff_prefix.mpr (List.prefix_append _ _)
  rw [assigned, if_pos hprefix, assignment, List.drop_left]
  rfl

theorem isSome_assignment (key value : Str) :
    (assigned key (assignment key value)).isSome = true := by
  rw [assigned_assignment]
  rfl

/-- The key of a line is what stands before its first space or `=`. -/
theorem takeWhile_of_assigned (hkey : PlainKey key) (h : (assigned key line).isSome = true) :
    line.takeWhile (fun c => c ≠ ' ' && c ≠ '=') = key := by
  unfold assigned at h
  split_ifs at h with hprefix
  · obtain ⟨rest, rfl⟩ := List.isPrefixOf_iff_prefix.mp hprefix
    rw [List.drop_left] at h
    have hrest : rest.takeWhile (fun c => c ≠ ' ' && c ≠ '=') = [] := by
      cases rest with
      | nil => rfl
      | cons c rest =>
        by_cases hspace : c = ' '
        · simp [hspace]
        · have hequals : c = '=' := by
            by_contra hne
            simp [hspace, hne] at h
          simp [hequals]
    rw [List.takeWhile_append_of_pos, hrest, List.append_nil]
    intro c hc
    simpa using hkey c hc
  · cases h

/-- A line is for one key. -/
theorem assigned_other (hkey : PlainKey key) (hkey' : PlainKey key') (hne : key' ≠ key)
    (h : (assigned key line).isSome = true) : assigned key' line = none := by
  by_contra hsome
  have hother := takeWhile_of_assigned hkey' (Option.ne_none_iff_isSome.mp hsome)
  exact hne (hother.symm.trans (takeWhile_of_assigned hkey h))

theorem valueOf_eq_none : valueOf key line = none ↔ assigned key line = none := by
  rw [valueOf, Option.map_eq_none_iff]

/-- The values of a key, in order. -/
def values (ls : List Str) (key : Str) : List Str := ls.filterMap (valueOf key)

theorem readKey_eq (ls : List Str) (key : Str) : readKey ls key = (values ls key).head? :=
  (List.head?_filterMap ..).symm

/-- What setting a key does to its values. -/
def settle (value : Str) (vs : List Str) : List Str :=
  match vs.head? with
  | some current => if dropUnit current = value then vs else vs.map fun _ => value
  | none => [value]

/-- A value that is written as it is read. -/
structure PlainValue (value : Str) : Prop where
  space : value.head? ≠ some ' '
  unit : value.getLast? ≠ some 'M' ∧ value.getLast? ≠ some 'G'
  line : ∀ c ∈ value, isLineBreak c = false

theorem PlainValue.dropUnit (h : PlainValue value) : Avd.dropUnit value = value := by
  rw [Avd.dropUnit, if_neg]
  rintro ⟨hM | hG, -⟩
  · exact h.unit.1 hM
  · exact h.unit.2 hG

theorem valueOf_assignment (h : PlainValue value) :
    valueOf key (assignment key value) = some value := by
  rw [valueOf, assigned_assignment, Option.map_some]
  congr 1
  cases value with
  | nil => rfl
  | cons c value =>
    have hc : c ≠ ' ' := fun heq => h.space (congrArg some heq)
    rw [List.dropWhile_cons_of_neg (by simpa using hc)]

/-! ### Setting one key -/

/-- The three outcomes of `_set_key`: the first value is right, it is not, or there is none. -/
theorem setKey_cases (ls : List Str) (key value : Str) :
    (∃ current, readKey ls key = some current ∧ dropUnit current = value ∧
      setKey ls key value = (ls, false)) ∨
    (∃ current, readKey ls key = some current ∧ dropUnit current ≠ value ∧
      setKey ls key value = (ls.map fun line =>
        if (assigned key line).isSome then assignment key value else line, true)) ∨
    (readKey ls key = none ∧ setKey ls key value = (ls ++ [assignment key value], true)) := by
  unfold setKey
  cases hread : readKey ls key with
  | none => exact .inr (.inr ⟨rfl, rfl⟩)
  | some current =>
    by_cases heq : dropUnit current = value
    · exact .inl ⟨current, rfl, heq, if_pos heq⟩
    · exact .inr (.inl ⟨current, rfl, heq, if_neg heq⟩)

theorem values_setKey (hvalue : PlainValue value) :
    values (setKey ls key value).1 key = settle value (values ls key) := by
  unfold settle
  rw [← readKey_eq]
  rcases setKey_cases ls key value with ⟨current, hread, heq, hset⟩ | ⟨current, hread, hne, hset⟩ |
    ⟨hread, hset⟩
  · simp only [hset, hread, if_pos heq]
  · simp only [hset, hread, if_neg hne]
    clear hread hset
    -- every line of the key is replaced, so the number of its values stays
    induction ls with
    | nil => rfl
    | cons line ls ih =>
      simp only [values, List.map_cons] at ih ⊢
      cases hline : assigned key line with
      | none =>
        have hnone := valueOf_eq_none.mpr hline
        rw [Option.isSome_none, if_neg (by decide), List.filterMap_cons_none hnone,
          List.filterMap_cons_none hnone, ih]
      | some v =>
        have hsome : valueOf key line = some (v.dropWhile (· = ' ')) := by rw [valueOf, hline]; rfl
        rw [Option.isSome_some, if_pos rfl, List.filterMap_cons_some (valueOf_assignment hvalue),
          List.filterMap_cons_some hsome, List.map_cons, ih]
  · have hnil : values ls key = [] := by
      rw [readKey_eq] at hread
      exact List.head?_eq_none_iff.mp hread
    rw [hset, hread, values, List.filterMap_append]
    change values ls key ++ _ = _
    rw [hnil, List.nil_append, List.filterMap_cons_some (valueOf_assignment hvalue)]
    rfl

/-- A line of the key, and what replaces it, are for no other key. -/
theorem valueOf_replaced (hkey : PlainKey key) (hkey' : PlainKey key') (hne : key' ≠ key)
    (line : Str) :
    valueOf key' (if (assigned key line).isSome then assignment key value else line) =
      valueOf key' line := by
  split
  · rename_i hsome
    rw [valueOf_eq_none.mpr (assigned_other hkey hkey' hne (isSome_assignment key value)),
      valueOf_eq_none.mpr (assigned_other hkey hkey' hne hsome)]
  · rfl

theorem values_setKey_other (hkey : PlainKey key) (hkey' : PlainKey key') (hne : key' ≠ key) :
    values (setKey ls key value).1 key' = values ls key' := by
  rcases setKey_cases ls key value with ⟨_, -, -, hset⟩ | ⟨_, -, -, hset⟩ | ⟨-, hset⟩
  · rw [hset]
  · rw [hset, values, values, List.filterMap_map]
    refine List.filterMap_congr fun line _ => valueOf_replaced hkey hkey' hne line
  · have hnone : valueOf key' (assignment key value) = none :=
      valueOf_eq_none.mpr (assigned_other hkey hkey' hne (isSome_assignment key value))
    rw [hset, values, List.filterMap_append, List.filterMap_cons_none hnone, List.filterMap_nil,
      List.append_nil]
    rfl

/-- The lines for none of the keys stay. -/
theorem filter_setKey {p : Str → Bool} (hp : ∀ line, p line = true → assigned key line = none) :
    (setKey ls key value).1.filter p = ls.filter p := by
  have hout : ∀ line, (assigned key line).isSome = true → p line = false := by
    intro line hsome
    by_contra hline
    rw [hp line (by simpa using hline)] at hsome
    cases hsome
  have hwritten : p (assignment key value) = false := hout _ (isSome_assignment key value)
  rcases setKey_cases ls key value with ⟨_, -, -, hset⟩ | ⟨_, -, -, hset⟩ | ⟨-, hset⟩
  · rw [hset]
  · have hsame : ∀ line ∈ ls,
        p (if (assigned key line).isSome then assignment key value else line) =
        p line := by
      intro line _
      split
      · rename_i hsome
        rw [hwritten, hout line hsome]
      · rfl
    rw [hset, List.filter_map, Function.comp_def, List.filter_congr hsame]
    refine (List.map_congr_left fun line hline => if_neg ?_).trans (List.map_id _)
    simp [hp line (List.mem_filter.mp hline).2]
  · rw [hset, List.filter_append, List.filter_cons_of_neg (by simp [hwritten]), List.filter_nil,
      List.append_nil]

/-- A line that ends nowhere inside. -/
def OneLine (line : Str) : Prop := ∀ c ∈ line, isLineBreak c = false

instance (line : Str) : Decidable (OneLine line) := List.decidableBAll _ _

theorem oneLine_assignment (hkey : OneLine key) (hvalue : OneLine value) :
    OneLine (assignment key value) := by
  intro c hc
  rcases List.mem_append.mp hc with hc | hc
  · exact hkey c hc
  · rcases List.mem_cons.mp hc with rfl | hc
    · decide
    · exact hvalue c hc

theorem oneLine_setKey (hkey : OneLine key) (hvalue : OneLine value) (h : ∀ l ∈ ls, OneLine l) :
    ∀ l ∈ (setKey ls key value).1, OneLine l := by
  intro l hl
  rcases setKey_cases ls key value with ⟨_, -, -, hset⟩ | ⟨_, -, -, hset⟩ | ⟨-, hset⟩ <;>
    rw [hset] at hl
  · exact h l hl
  · obtain ⟨line, hline, rfl⟩ := List.mem_map.mp hl
    split
    · exact oneLine_assignment hkey hvalue
    · exact h line hline
  · rcases List.mem_append.mp hl with hl | hl
    · exact h l hl
    · rw [List.mem_singleton.mp hl]
      exact oneLine_assignment hkey hvalue

/-- The first value of a key after it was set is the right one. -/
theorem head_settle (hvalue : PlainValue value) (vs : List Str) :
    ∃ current, (settle value vs).head? = some current ∧ dropUnit current = value := by
  unfold settle
  cases vs with
  | nil => exact ⟨value, rfl, hvalue.dropUnit⟩
  | cons v vs =>
    rw [List.head?_cons]
    by_cases heq : dropUnit v = value
    · exact ⟨v, by simp [heq], heq⟩
    · exact ⟨value, by simp [heq], hvalue.dropUnit⟩

/-! ### Setting all keys -/

section Keys

variable {kvs : List (Str × Str)}

/-- Keys that can be told apart, with plain values. -/
structure Settable (kvs : List (Str × Str)) : Prop where
  nodup : (kvs.map Prod.fst).Nodup
  keys : ∀ kv ∈ kvs, PlainKey kv.1 ∧ OneLine kv.1
  values : ∀ kv ∈ kvs, PlainValue kv.2

theorem Settable.tail {kv : Str × Str} (h : Settable (kv :: kvs)) : Settable kvs :=
  ⟨(List.nodup_cons.mp h.nodup).2, fun kv' hkv => h.keys kv' (List.mem_cons_of_mem _ hkv),
    fun kv' hkv => h.values kv' (List.mem_cons_of_mem _ hkv)⟩

variable (ls) in
theorem values_setKeys_other (h : Settable kvs) (hkey : PlainKey key)
    (hnot : key ∉ kvs.map Prod.fst) : values (setKeys kvs ls).1 key = values ls key := by
  induction kvs generalizing ls with
  | nil => rfl
  | cons kv kvs ih =>
    rw [List.map_cons, List.mem_cons, not_or] at hnot
    rw [setKeys, ih _ h.tail hnot.2,
      values_setKey_other (h.keys kv List.mem_cons_self).1 hkey hnot.1]

/-- Each key is settled by its own turn, whatever the others do. -/
theorem values_setKeys (h : Settable kvs) {kv : Str × Str} (hkv : kv ∈ kvs) :
    values (setKeys kvs ls).1 kv.1 = settle kv.2 (values ls kv.1) := by
  induction kvs generalizing ls with
  | nil => cases hkv
  | cons first kvs ih =>
    have hplain := (h.keys kv hkv).1
    have hnot : first.1 ∉ kvs.map Prod.fst := by
      have hnodup := h.nodup
      rw [List.map_cons, List.nodup_cons] at hnodup
      exact hnodup.1
    rw [setKeys]
    rcases List.mem_cons.mp hkv with rfl | hrest
    · rw [values_setKeys_other _ h.tail hplain hnot, values_setKey (h.values kv hkv)]
    · have hne : kv.1 ≠ first.1 := fun heq => hnot (heq ▸ List.mem_map_of_mem hrest)
      rw [ih h.tail hrest,
        values_setKey_other (h.keys first List.mem_cons_self).1 hplain hne]

theorem filter_setKeys {p : Str → Bool}
    (hp : ∀ kv ∈ kvs, ∀ line, p line = true → assigned kv.1 line = none) :
    (setKeys kvs ls).1.filter p = ls.filter p := by
  induction kvs generalizing ls with
  | nil => rfl
  | cons kv kvs ih =>
    rw [setKeys, ih fun kv' hkv => hp kv' (List.mem_cons_of_mem _ hkv),
      filter_setKey (hp kv List.mem_cons_self)]

theorem oneLine_setKeys (h : Settable kvs) (hls : ∀ l ∈ ls, OneLine l) :
    ∀ l ∈ (setKeys kvs ls).1, OneLine l := by
  induction kvs generalizing ls with
  | nil => exact hls
  | cons kv kvs ih =>
    refine ih h.tail (oneLine_setKey ?_ ?_ hls)
    · exact (h.keys kv List.mem_cons_self).2
    · exact (h.values kv List.mem_cons_self).line

/-- Lines whose first values are right are left alone. -/
theorem setKeys_of_right (h : ∀ kv ∈ kvs, ∃ current, (values ls kv.1).head? = some current ∧
    dropUnit current = kv.2) : setKeys kvs ls = (ls, false) := by
  induction kvs with
  | nil => rfl
  | cons kv kvs ih =>
    obtain ⟨current, hread, heq⟩ := h kv List.mem_cons_self
    have hset : setKey ls kv.1 kv.2 = (ls, false) := by
      rw [setKey, readKey_eq, hread]
      exact if_pos heq
    rw [setKeys, hset, ih fun kv' hkv => h kv' (List.mem_cons_of_mem _ hkv)]
    rfl

/-- Lines that are not changed stay. -/
theorem setKeys_unchanged (h : (setKeys kvs ls).2 = false) : (setKeys kvs ls).1 = ls := by
  induction kvs generalizing ls with
  | nil => rfl
  | cons kv kvs ih =>
    simp only [setKeys, Bool.or_eq_false_iff] at h ⊢
    have hset : (setKey ls kv.1 kv.2).1 = ls := by
      rcases setKey_cases ls kv.1 kv.2 with ⟨_, -, -, hset⟩ | ⟨_, -, -, hset⟩ | ⟨-, hset⟩
      · rw [hset]
      · rw [hset] at h
        cases h.1
      · rw [hset] at h
        cases h.1
    rw [ih h.2, hset]

theorem setKeys_ne_nil (hls : ls ≠ []) : (setKeys kvs ls).1 ≠ [] := by
  induction kvs generalizing ls with
  | nil => exact hls
  | cons kv kvs ih =>
    refine ih ?_
    rcases setKey_cases ls kv.1 kv.2 with
      ⟨_, -, -, hset⟩ | ⟨_, -, -, hset⟩ | ⟨-, hset⟩ <;> rw [hset]
    · exact hls
    · simpa using hls
    · simp

end Keys

/-! ### `configure` -/

variable {cfg : Config} {api : Nat} {d : Texts}

theorem plainValue_ofNat (n : Nat) : PlainValue (ofNat n) := by
  have hdigit : ∀ {c : Char}, c ∈ ofNat n → c.isDigit = true := ofNat_digit
  refine ⟨fun hspace => ?_, ⟨fun hM => ?_, fun hG => ?_⟩, fun c hc => ?_⟩
  · exact absurd (hdigit (List.mem_of_head? hspace)) (by decide)
  · exact absurd (hdigit (List.mem_of_getLast? hM)) (by decide)
  · exact absurd (hdigit (List.mem_of_getLast? hG)) (by decide)
  · obtain ⟨hlow, hhigh⟩ := Str.digit_toNat (hdigit hc)
    simp [isLineBreak]
    omega

/-- The managed keys can be told apart, from the image's key too. -/
theorem managed_keys (cfg : Config) :
    ("image.sysdir.1".toList :: (managed cfg).map Prod.fst).Nodup ∧
      ∀ key ∈ "image.sysdir.1".toList :: (managed cfg).map Prod.fst,
        PlainKey key ∧ OneLine key := by
  have hkeys : (managed cfg).map Prod.fst = (managed ⟨[], [], 0, 0⟩).map Prod.fst := rfl
  rw [hkeys]
  constructor
  · decide +kernel
  · decide +kernel

theorem settable_managed (cfg : Config) : Settable (managed cfg) := by
  obtain ⟨hnodup, hkeys⟩ := managed_keys cfg
  refine ⟨(List.nodup_cons.mp hnodup).2, fun kv hkv => ?_, ?_⟩
  · exact hkeys _ (List.mem_cons_of_mem _ (List.mem_map_of_mem hkv))
  · have hyes : PlainValue "yes".toList := ⟨by decide, by decide, Str.forall_mem_of_all (by decide)⟩
    have hno : PlainValue "no".toList := ⟨by decide, by decide, Str.forall_mem_of_all (by decide)⟩
    simp only [managed, List.forall_mem_cons]
    exact ⟨plainValue_ofNat _, plainValue_ofNat _, plainValue_ofNat _, plainValue_ofNat _,
      plainValue_ofNat _, hyes, hno, fun _ h => by cases h⟩

theorem joined_eq_unlines (h : ls ≠ []) : joined ls = unlines ls := by
  induction ls with
  | nil => exact absurd rfl h
  | cons l ls ih =>
    cases ls with
    | nil => simp [joined, unlines]
    | cons l' ls =>
      rw [unlines_cons, ← ih (by simp)]
      simp [joined]

/-- The lines of the written config.ini are the lines that were written. -/
theorem linesOf_joined (hls : ls ≠ []) (h : ∀ l ∈ ls, OneLine l) : linesOf (joined ls) = ls := by
  rw [joined_eq_unlines hls]
  exact splitlines_unlines h

theorem oneLine_linesOf (text : Str) : ∀ l ∈ linesOf text, OneLine l :=
  fun _ hl => lines_free hl

/-- The text of config.ini after a call that is not refused. -/
def configured (cfg : Config) (text : Str) : Str :=
  let set := setKeys (managed cfg) (linesOf text)
  if set.2 then joined set.1 else text

theorem linesOf_configured (cfg : Config) (hne : linesOf text ≠ []) :
    linesOf (configured cfg text) = (setKeys (managed cfg) (linesOf text)).1 := by
  simp only [configured]
  split_ifs with hset
  · exact linesOf_joined (setKeys_ne_nil hne)
      (oneLine_setKeys (settable_managed cfg) (oneLine_linesOf text))
  · exact (setKeys_unchanged (by simpa using hset)).symm

/-- A line for no managed key. -/
def unmanaged (cfg : Config) (line : Str) : Bool :=
  (managed cfg).all fun kv => (assigned kv.1 line).isNone

variable (cfg api) in
/-- What a call leaves when the image matches. -/
theorem configure_matched (hconfig : d .config = some text)
    (himage : imageOf (linesOf text) = sysdir api) :
    (configure cfg api d).raised = none ∧
      (configure cfg api d).texts .config = some (configured cfg text) ∧
      ((configure cfg api d).texts .quickboot).map universal = some noSnapshot ∧
      (configure cfg api d).texts .registry = some (registry cfg api) ∧
      (configure cfg api d).texts (.tmp .registry) = none ∧
      ∀ path, (configure cfg api d).texts (.other path) = d (.other path) := by
  have hsnapshot : universal noSnapshot = noSnapshot := universal_of_not_mem (by decide)
  unfold configure configured
  simp only [hconfig, himage, ne_eq, not_true_eq_false, if_false]
  split_ifs with hset hquick hquick <;>
    simp [Texts.write, hconfig, hsnapshot, hquick]

theorem image_line (himage : imageOf (linesOf text) = sysdir api) : linesOf text ≠ [] := by
  intro hnil
  have hempty : imageOf [] = [] := rfl
  have hhead : (sysdir api).head? = some 's' := rfl
  rw [← himage, hnil, hempty] at hhead
  cases hhead

variable (cfg) in
/-- A call that is not refused keeps the image. -/
theorem imageOf_configured (himage : imageOf (linesOf text) = sysdir api) :
    imageOf (linesOf (configured cfg text)) = sysdir api := by
  obtain ⟨hnodup, hkeys⟩ := managed_keys cfg
  have hvalues := values_setKeys_other (linesOf text) (settable_managed cfg)
    (hkeys _ List.mem_cons_self).1 (List.nodup_cons.mp hnodup).1
  unfold imageOf at himage ⊢
  rw [linesOf_configured cfg (image_line himage), readKey_eq, hvalues, ← readKey_eq, himage]

/-- The managed keys are right after a call that is not refused. -/
theorem right_configured (himage : imageOf (linesOf text) = sysdir api) {kv : Str × Str}
    (hkv : kv ∈ managed cfg) :
    ∃ current, (values (linesOf (configured cfg text)) kv.1).head? = some current ∧
      dropUnit current = kv.2 := by
  have hset := settable_managed cfg
  rw [linesOf_configured cfg (image_line himage), values_setKeys hset hkv]
  exact head_settle (hset.values kv hkv) _

end Avd

end AndroidAppliance
