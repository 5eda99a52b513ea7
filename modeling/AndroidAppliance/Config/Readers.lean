import AndroidAppliance.Text.Lines
import AndroidAppliance.Shell.Words

/-!
# The readers of `appliance.conf`

Three parsers of one file: `read_config` of `install.sh`, the reader of `androidctl` and
`read_file` with `load` of `appliance/config.py`. The shells end a line at a newline, drop NULs and
keep the first value that is not empty; Python ends a line at more characters and keeps the first
value.

The two shells always agree on what the installer accepts (`readConfig_eq`). When Python agrees
with them on a key is a condition on the lines, `ReadAlike`, and `readers_agree_iff` says that it
is the exact one.
-/

namespace AndroidAppliance

namespace Readers

open Shell (isNameStart isNameChar)

/-- Variables of a process, or its environment. -/
abbrev Vars := Str → Option Str

namespace Vars

/-- The effective value: `${key:-}`, and `get` of `load`. -/
def text (vars : Vars) (key : Str) : Str := (vars key).getD []

/-- `export`, or an assignment: the value of a key is replaced. -/
def set (vars : Vars) (key value : Str) : Vars := fun k => if k = key then some value else vars k

/-- `if [ -z "${!key:-}" ]; then printf -v "$key" '%s' "$value"; fi`. -/
def fill (vars : Vars) (key value : Str) : Vars :=
  if (vars.text key).isEmpty then vars.set key value else vars

/-- `env.setdefault(key, value)`. -/
def setdefault (vars : Vars) (key value : Str) : Vars :=
  if (vars key).isSome then vars else vars.set key value

end Vars

/-! ### The shells -/

/-- What begins the keys. -/
def appliance : Str := "APPLIANCE_".toList

/-- The pattern `APPLIANCE_*=*`. -/
def isAssignment (line : Str) : Bool :=
  appliance.isPrefixOf line && (line.drop appliance.length).contains '='

/-- `${line%%=*}`. -/
def keyOf (line : Str) : Str := (Str.partition '=' line).1

/-- `${line#*=}` of a line with an equals sign. -/
def valueOf (line : Str) : Str := (Str.partition '=' line).2.2

/-- The lines of `while IFS= read -r line || [ -n "$line" ]`; `read` drops NULs. -/
def shellLines (file : Str) : List Str :=
  Str.lines Str.isNewline (file.filter (· ≠ Char.ofNat 0))

/-- `[A-Z0-9_]`. -/
def isUpperKeyChar (c : Char) : Bool := ('A' ≤ c && c ≤ 'Z') || c.isDigit || c = '_'

/-- `read_config` of `install.sh` from line `n` on, with the texts of `die`. -/
def readConfigFrom (configFile : Str) (n : Nat) (vars : Vars) : List Str → Except Str Vars
  | [] => .ok vars
  | line :: lines =>
    let place := configFile ++ ':' :: Str.ofNat n ++ ": '".toList
    if line.isEmpty || line.head? = some '#' then readConfigFrom configFile (n + 1) vars lines
    else if !isAssignment line then
      .error (place ++ line ++ "' is not an APPLIANCE_*=value line".toList)
    else if !(keyOf line).all isUpperKeyChar then
      .error (place ++ keyOf line ++ "' is not a valid key".toList)
    else readConfigFrom configFile (n + 1) (vars.fill (keyOf line) (valueOf line)) lines

/-- `read_config` of `install.sh`. -/
def readConfig (configFile : Str) (vars : Vars) (file : Str) : Except Str Vars :=
  readConfigFrom configFile 1 vars (shellLines file)

/-- A line for `androidctl`. -/
def ctlLine (vars : Vars) (line : Str) : Vars :=
  if isAssignment line && (keyOf line).all isNameChar then
    vars.fill (keyOf line) (valueOf line)
  else vars

/-- The reader of `androidctl`. -/
def readCtl (vars : Vars) (file : Str) : Vars := (shellLines file).foldl ctlLine vars

/-! ### `appliance/config.py` -/

/-- `values.setdefault(key, value)` of a dictionary. -/
def setdefault (values : List (Str × Str)) (key value : Str) : List (Str × Str) :=
  if values.any (·.1 = key) then values else values ++ [(key, value)]

/-- `re.fullmatch(r"[A-Za-z_][A-Za-z0-9_]*", key)`. -/
def isIdentifier : Str → Bool
  | [] => false
  | c :: key => isNameStart c && key.all isNameChar

/-- The body of the loop of `read_file`. -/
def fileLine (values : List (Str × Str)) (line : Str) : List (Str × Str) :=
  if line.isEmpty || line.head? = some '#' || !line.contains '=' then values
  else if isIdentifier (keyOf line) then setdefault values (keyOf line) (valueOf line)
  else values

/-- `read_file`, of the content of the file. -/
def readFile (file : Str) : List (Str × Str) :=
  (Str.splitlines (Str.universal file)).foldl fileLine []

/-- `APPLIANCE_CONFIG`. -/
def configKey : Str := "APPLIANCE_CONFIG".toList

/-- The environment of `load`; `content` has the texts of the files. -/
def load (content : Str → Str) (environ : Vars) : Vars :=
  match environ configKey with
  | none => environ
  | some file =>
    if file.isEmpty then environ
    else (readFile (content file)).foldl (fun env kv => env.setdefault kv.1 kv.2) environ

/-! ### What a line says about a key -/

variable {vars vars' : Vars} {key line value : Str} {lines : List Str} {c : Char}

/-- The name of a variable of the appliance. -/
def isKey (key : Str) : Bool := appliance.isPrefixOf key && key.all isNameChar

/-- The value that a line has for a key, as one reads it that ends where the line does. -/
def lineValue (key line : Str) : Option Str :=
  if (key ++ ['=']).isPrefixOf line then some (line.drop (key ++ ['=']).length) else none

/-- The value behind the key and the equals sign. -/
theorem lineValue_iff : lineValue key line = some value ↔ line = key ++ '=' :: value := by
  rw [lineValue]
  constructor
  · intro h
    split at h
    · rename_i hprefix
      obtain ⟨rest, rfl⟩ := List.isPrefixOf_iff_prefix.mp hprefix
      rw [List.drop_left, Option.some.injEq] at h
      rw [h, List.append_assoc]
      rfl
    · cases h
  · rintro rfl
    have hline : key ++ '=' :: value = key ++ ['='] ++ value := by simp
    rw [hline, if_pos (List.isPrefixOf_iff_prefix.mpr ⟨value, rfl⟩), List.drop_left]

/-- A key begins with the prefix, and is a name. -/
theorem isKey_chars (h : isKey key = true) :
    (∃ name, key = appliance ++ name) ∧ ∀ c ∈ key, isNameChar c = true := by
  rw [isKey, Bool.and_eq_true, List.isPrefixOf_iff_prefix, List.all_eq_true] at h
  obtain ⟨⟨name, hname⟩, hchars⟩ := h
  exact ⟨⟨name, hname.symm⟩, hchars⟩

/-- A key has no equals sign. -/
theorem equals_notMem (h : isKey key = true) : '=' ∉ key :=
  fun hmem => absurd ((isKey_chars h).2 _ hmem) (by decide)

/-- A line is cut at the first equals sign. -/
theorem keyOf_line (h : isKey key = true) (value : Str) :
    keyOf (key ++ '=' :: value) = key ∧ valueOf (key ++ '=' :: value) = value := by
  have hsplit := Str.partition_sep (b := value) (equals_notMem h)
  exact ⟨congrArg (·.1) hsplit, congrArg (·.2.2) hsplit⟩

/-- A line with an equals sign is its key, the sign and its value. -/
theorem line_eq (h : '=' ∈ line) : line = keyOf line ++ '=' :: valueOf line := by
  obtain ⟨hfree, hline | ⟨hline, -⟩⟩ := Str.partition_spec '=' line
  · exact hline
  · rw [hline] at h
    exact absurd h hfree

/-! ### The first values -/

/-- The value that the shells take from a line: one that is not empty. -/
def filled (key line : Str) : Option Str := (lineValue key line).filter (!·.isEmpty)

/-- A key that has a value keeps it. -/
theorem text_fill_self (vars : Vars) (key value : Str) : (vars.fill key value).text key =
    if (vars.text key).isEmpty then value else vars.text key := by
  rw [Vars.fill]
  split
  · simp [Vars.text, Vars.set]
  · rfl

/-- Other keys keep theirs. -/
theorem text_fill_other (vars : Vars) {key k : Str} (h : k ≠ key) (value : Str) :
    (vars.fill k value).text key = vars.text key := by
  rw [Vars.fill]
  split
  · simp [Vars.text, Vars.set, Ne.symm h]
  · rfl

/-- The line of a key is an assignment. -/
theorem isAssignment_line (h : isKey key = true) (value : Str) :
    isAssignment (key ++ '=' :: value) = true := by
  obtain ⟨⟨name, rfl⟩, -⟩ := isKey_chars h
  rw [isAssignment, List.append_assoc, List.drop_left, Bool.and_eq_true,
    List.isPrefixOf_iff_prefix]
  exact ⟨⟨_, rfl⟩, by simp⟩

/-- An assignment has an equals sign. -/
theorem equals_mem_of_isAssignment (h : isAssignment line = true) : '=' ∈ line := by
  rw [isAssignment, Bool.and_eq_true, List.contains_iff_mem] at h
  exact List.mem_of_mem_drop h.2

/-- Only a line that begins with the key has it for a key. -/
theorem keyOf_ne (h : lineValue key line = none) (hmem : '=' ∈ line) : keyOf line ≠ key := by
  rintro rfl
  rw [lineValue_iff.mpr (line_eq hmem)] at h
  cases h

theorem ite_isEmpty_self (s : Str) : (if s.isEmpty then [] else s) = s := by
  cases s <;> rfl

/-- What a line makes of the value of a key. -/
theorem text_ctlLine (hkey : isKey key = true) (vars : Vars) (line : Str) :
    (ctlLine vars line).text key =
      if (vars.text key).isEmpty then (filled key line).getD [] else vars.text key := by
  cases hline : lineValue key line with
  | some value =>
    have hfilled : (filled key line).getD [] = value := by
      rw [filled, hline]
      cases value <;> rfl
    obtain rfl := lineValue_iff.mp hline
    obtain ⟨hkeyOf, hvalueOf⟩ := keyOf_line hkey value
    have hchars : key.all isNameChar = true := List.all_eq_true.mpr (isKey_chars hkey).2
    rw [ctlLine, isAssignment_line hkey, hkeyOf, hchars, Bool.and_self, if_pos rfl, hvalueOf,
      text_fill_self, hfilled]
  | none =>
    have hfilled : filled key line = none := by rw [filled, hline]; rfl
    rw [hfilled, Option.getD_none, ite_isEmpty_self, ctlLine]
    split
    · rename_i hassign
      rw [Bool.and_eq_true] at hassign
      exact text_fill_other vars (keyOf_ne hline (equals_mem_of_isAssignment hassign.1)) _
    · rfl

/-- The shells keep the first value that is not empty. -/
theorem text_foldl_ctlLine (hkey : isKey key = true) (vars : Vars) (lines : List Str) :
    (lines.foldl ctlLine vars).text key =
      if (vars.text key).isEmpty then (lines.findSome? (filled key)).getD []
      else vars.text key := by
  induction lines generalizing vars with
  | nil => exact (ite_isEmpty_self _).symm
  | cons line lines ih =>
    rw [List.foldl_cons, ih, text_ctlLine hkey, List.findSome?_cons]
    split
    · rename_i hempty
      cases hfilled : filled key line with
      | none => rfl
      | some value =>
        have hvalue : value.isEmpty = false := by
          rw [filled, Option.filter_eq_some_iff] at hfilled
          simpa using hfilled.2
        simp [hvalue]
    · rfl

/-- Capital letters and digits are characters of names. -/
theorem isNameChar_of_isUpperKeyChar (h : isUpperKeyChar c = true) : isNameChar c = true := by
  simp only [isUpperKeyChar, Bool.or_eq_true] at h
  simp only [isNameChar, isNameStart, Bool.or_eq_true]
  tauto

/-- What the installer accepts, `androidctl` reads the same way. -/
theorem readConfigFrom_eq {configFile : Str} {n : Nat}
    (h : readConfigFrom configFile n vars lines = .ok vars') :
    vars' = lines.foldl ctlLine vars := by
  induction lines generalizing n vars with
  | nil =>
    cases h
    rfl
  | cons line lines ih =>
    rw [readConfigFrom] at h
    rw [List.foldl_cons]
    split at h
    · rename_i hskip
      -- an empty line or a comment is no assignment
      have hnot : isAssignment line = false := by
        cases line with
        | nil => rfl
        | cons c line =>
          have hc : c = '#' := by simpa using hskip
          rw [hc]
          rfl
      rw [ih h, ctlLine, hnot, Bool.false_and, if_neg (by decide)]
    split at h
    · cases h
    split at h
    · cases h
    · rename_i hassign hupper
      simp only [Bool.not_eq_true, Bool.not_eq_false'] at hassign hupper
      have hchars : (keyOf line).all isNameChar = true :=
        List.all_eq_true.mpr fun c hc => isNameChar_of_isUpperKeyChar
          (List.all_eq_true.mp hupper c hc)
      rw [ih h, ctlLine, hassign, hchars, Bool.and_self, if_pos rfl]

/-- Where both read the file they read the same. -/
theorem readConfig_eq {configFile file : Str} (h : readConfig configFile vars file = .ok vars') :
    vars' = readCtl vars file :=
  readConfigFrom_eq h

/-! ### The dictionary -/

/-- What a dictionary has for a key. -/
def find (values : List (Str × Str)) (key : Str) : Option Str :=
  (values.find? (·.1 = key)).map (·.2)

/-- The first value of a key stays. -/
theorem find_setdefault (values : List (Str × Str)) (k value key : Str) :
    find (setdefault values k value) key =
      (find values key).or (if k = key then some value else none) := by
  rw [setdefault]
  split
  · rename_i hany
    split
    · rename_i heq
      subst heq
      have hsome : (find values k).isSome = true := by simpa [find] using hany
      obtain ⟨v, hv⟩ := Option.isSome_iff_exists.mp hsome
      rw [hv, Option.some_or]
    · rw [Option.or_none]
  · rw [find, List.find?_append, find, Option.map_or, List.find?_singleton]
    by_cases heq : k = key <;> simp [heq]

/-- A key is an identifier. -/
theorem isIdentifier_of_isKey (h : isKey key = true) : isIdentifier key = true := by
  obtain ⟨⟨name, rfl⟩, hchars⟩ := isKey_chars h
  have hname : appliance ++ name = 'A' :: ("PPLIANCE_".toList ++ name) := rfl
  rw [hname] at hchars ⊢
  rw [isIdentifier, Bool.and_eq_true, List.all_eq_true]
  exact ⟨by decide, fun c hc => hchars c (List.mem_cons_of_mem _ hc)⟩

/-- What a line makes of the values that were found. -/
theorem find_fileLine (hkey : isKey key = true) (values : List (Str × Str)) (line : Str) :
    find (fileLine values line) key = (find values key).or (lineValue key line) := by
  cases hline : lineValue key line with
  | some value =>
    obtain rfl := lineValue_iff.mp hline
    obtain ⟨hkeyOf, hvalueOf⟩ := keyOf_line hkey value
    have hread : ((key ++ '=' :: value).isEmpty || (key ++ '=' :: value).head? = some '#' ||
        !(key ++ '=' :: value).contains '=') = false := by
      obtain ⟨⟨name, rfl⟩, -⟩ := isKey_chars hkey
      have hname : appliance ++ name = 'A' :: ("PPLIANCE_".toList ++ name) := rfl
      simp [hname]
    rw [fileLine, hread, hkeyOf, hvalueOf, isIdentifier_of_isKey hkey, if_neg (by decide),
      if_pos rfl, find_setdefault, if_pos rfl]
  | none =>
    rw [Option.or_none, fileLine]
    split
    · rfl
    rename_i hread
    have hmem : '=' ∈ line := by
      simp only [Bool.or_eq_true, not_or, Bool.not_eq_true', Bool.not_eq_false,
        List.contains_iff_mem] at hread
      exact hread.2
    split
    · rw [find_setdefault, if_neg (keyOf_ne hline hmem), Option.or_none]
    · rfl

/-- Python keeps the first value. -/
theorem find_foldl_fileLine (hkey : isKey key = true) (values : List (Str × Str))
    (lines : List Str) : find (lines.foldl fileLine values) key =
      (find values key).or (lines.findSome? (lineValue key)) := by
  induction lines generalizing values with
  | nil => exact (Option.or_none).symm
  | cons line lines ih =>
    rw [List.foldl_cons, ih, find_fileLine hkey, Option.or_assoc, List.findSome?_cons]
    cases lineValue key line <;> rfl

/-- The environment goes before the file. -/
theorem foldl_setdefault (kvs : List (Str × Str)) (vars : Vars) (key : Str) :
    kvs.foldl (fun env kv => env.setdefault kv.1 kv.2) vars key = (vars key).or (find kvs key) := by
  induction kvs generalizing vars with
  | nil => exact (Option.or_none).symm
  | cons kv kvs ih =>
    have hstep : vars.setdefault kv.1 kv.2 key =
        (vars key).or (if kv.1 = key then some kv.2 else none) := by
      rw [Vars.setdefault]
      by_cases heq : kv.1 = key
      · subst heq
        cases hvar : vars kv.1 <;> simp [hvar, Vars.set]
      · rw [if_neg heq, Option.or_none]
        split
        · rfl
        · exact if_neg (Ne.symm heq)
    rw [List.foldl_cons, ih, hstep, Option.or_assoc]
    by_cases heq : kv.1 = key <;> simp [find, heq]

/-- The environment of `load`: the first value of the file where there was none. -/
theorem load_apply {content : Str → Str} {environ : Vars} {path : Str}
    (hpath : environ configKey = some path) (hne : path ≠ []) (hkey : isKey key = true) :
    load content environ key = (environ key).or
      ((Str.splitlines (Str.universal (content path))).findSome? (lineValue key)) := by
  have hload : load content environ =
      (readFile (content path)).foldl (fun env kv => env.setdefault kv.1 kv.2) environ := by
    rw [load, hpath]
    exact if_neg (by simpa using hne)
  rw [hload, foldl_setdefault, readFile, find_foldl_fileLine hkey]
  rfl

/-! ### The lines of the file -/

/-- What the shells take from a line of the file. -/
def shellValue (key line : Str) : Option Str := filled key (line.filter (· ≠ Char.ofNat 0))

/-- What Python takes from it: the first value in the pieces that it sees. -/
def pythonValue (key line : Str) : Option Str :=
  (Str.splitlines (Str.universal line)).findSome? (lineValue key)

/-- An empty line has no value. -/
theorem lineValue_nil (key : Str) : lineValue key [] = none := by
  rw [lineValue, if_neg]
  cases key <;> simp

/-- The first value in the lines of the shell. -/
theorem findSome_shellLines (key file : Str) : (shellLines file).findSome? (filled key) =
    (Str.lines Str.isNewline file).findSome? (shellValue key) := by
  have hfilled : filled key [] = none := by rw [filled, lineValue_nil]; rfl
  have hfree : ∀ l : Str, (∀ c ∈ l, Str.isNewline c = false) →
      ∀ c ∈ l.filter (· ≠ Char.ofNat 0), Str.isNewline c = false :=
    fun l h c hc => h c (List.mem_of_mem_filter hc)
  unfold shellLines
  induction file using Str.lines_induction Str.isNewline with
  | nil => rfl
  | open_line l h hne =>
    rw [Str.lines_of_free h hne, List.findSome?_singleton, shellValue]
    by_cases hl : l.filter (· ≠ Char.ofNat 0) = []
    · rw [hl, Str.lines_nil, hfilled]
      rfl
    · rw [Str.lines_of_free (hfree l h) hl, List.findSome?_singleton]
  | line l c s h hc ih =>
    have hn : c = '\n' := by simpa [Str.isNewline] using hc
    have hfilter : (l ++ c :: s).filter (· ≠ Char.ofNat 0) =
        l.filter (· ≠ Char.ofNat 0) ++ c :: s.filter (· ≠ Char.ofNat 0) := by
      rw [List.filter_append, List.filter_cons_of_pos (by rw [hn]; decide)]
    rw [hfilter, Str.lines_append (hfree l h) hc, Str.lines_append h hc, List.findSome?_cons,
      List.findSome?_cons, ih]
    rfl

/-- The first value in the lines of Python. -/
theorem findSome_pythonLines (key file : Str) :
    (Str.splitlines (Str.universal file)).findSome? (lineValue key) =
      (Str.lines Str.isNewline file).findSome? (pythonValue key) :=
  Str.findSome_splitlines (lineValue_nil key) file

/-- A text that neither reader cuts. -/
def Clean (value : Str) : Prop := ∀ c ∈ value, c ≠ Char.ofNat 0 ∧ Str.isLineBreak c = false

/-- Lines that give a key the same effective value for the shells and for Python. -/
inductive ReadAlike (key : Str) : List Str → Prop
  | nil : ReadAlike key []
  /-- Neither finds a value, and the rest is read alike. -/
  | skip (line : Str) (lines : List Str) : pythonValue key line = none →
      shellValue key line = none → ReadAlike key lines → ReadAlike key (line :: lines)
  /-- The key with a value that is not empty and that neither reader cuts. -/
  | value (value : Str) (lines : List Str) : value ≠ [] → Clean value →
      ReadAlike key ((key ++ '=' :: value) :: lines)
  /-- The key is empty for Python, which is done with it, and the shells find no value at all. -/
  | empty (line : Str) (lines : List Str) : pythonValue key line = some [] →
      (∀ l ∈ line :: lines, shellValue key l = none) → ReadAlike key (line :: lines)
  /-- Only the shells find a value, because a NUL stands in the key; Python finds the same one
  next. -/
  | shells (line : Str) (lines : List Str) (value : Str) : shellValue key line = some value →
      pythonValue key line = none → lines.findSome? (pythonValue key) = some value →
      ReadAlike key (line :: lines)
  /-- Only Python finds a value, behind a line break of its own; the shells find the same one
  next. -/
  | python (line : Str) (lines : List Str) (value : Str) : pythonValue key line = some value →
      value ≠ [] → shellValue key line = none → lines.findSome? (shellValue key) = some value →
      ReadAlike key (line :: lines)

/-- An empty value is none to the shell. -/
theorem shellValue_ne_nil (h : shellValue key line = some value) : value ≠ [] := by
  rw [shellValue, filled, Option.filter_eq_some_iff] at h
  simpa using h.2

/-- A key is clean. -/
theorem key_clean (hkey : isKey key = true) : Clean key := by
  intro c hc
  have hname := (isKey_chars hkey).2 c hc
  refine ⟨fun heq => absurd (heq ▸ hname) (by decide), ?_⟩
  by_contra hbreak
  have hcodes : ∀ n ∈ [10, 11, 12, 13, 0x1C, 0x1D, 0x1E, 0x85, 0x2028, 0x2029],
      isNameChar (Char.ofNat n) = false := by decide +kernel
  have hmem : c.toNat ∈ [10, 11, 12, 13, 0x1C, 0x1D, 0x1E, 0x85, 0x2028, 0x2029] := by
    simp only [Bool.not_eq_false, Str.isLineBreak, Bool.or_eq_true, Bool.and_eq_true,
      decide_eq_true_eq] at hbreak
    simp only [List.mem_cons, List.not_mem_nil, or_false]
    omega
  have hfalse := hcodes _ hmem
  rw [Char.ofNat_toNat, hname] at hfalse
  cases hfalse

/-- So is the line of a clean value. -/
theorem assigned_clean (hkey : isKey key = true) (hvalue : Clean value) :
    Clean (key ++ '=' :: value) := by
  intro c hc
  rcases List.mem_append.mp hc with hc | hc
  · exact key_clean hkey c hc
  · rcases List.mem_cons.mp hc with rfl | hc
    · decide
    · exact hvalue c hc

/-- A text without a line break is one line for Python. -/
theorem pythonValue_of_free (hline : ∀ c ∈ line, Str.isLineBreak c = false) (hne : line ≠ []) :
    pythonValue key line = lineValue key line := by
  have hcr : '\r' ∉ line := fun hmem => absurd (hline _ hmem) (by decide)
  rw [pythonValue, Str.universal_of_not_mem hcr, Str.splitlines, Str.crlf_of_not_mem hcr,
    Str.lines_of_free hline hne, List.findSome?_singleton]

/-- A clean line has no NUL. -/
theorem filter_nul_of_clean (h : Clean line) : line.filter (· ≠ Char.ofNat 0) = line :=
  List.filter_eq_self.mpr fun c hc => by simpa using (h c hc).1

/-- Where the line that the shells have is clean, Python does not cut the line: what they drop is
no line break either. -/
theorem free_of_clean_filter (h : Clean (line.filter (· ≠ Char.ofNat 0))) :
    ∀ c ∈ line, Str.isLineBreak c = false := by
  intro c hc
  by_cases hzero : c = Char.ofNat 0
  · rw [hzero]
    decide
  · exact (h c (List.mem_filter.mpr ⟨hc, by simpa using hzero⟩)).2

/-- Both find the same value in a line if and only if it is the key and a clean value. -/
theorem same_value_iff (hkey : isKey key = true) (hne : value ≠ []) :
    (pythonValue key line = some value ∧ shellValue key line = some value) ↔
      line = key ++ '=' :: value ∧ Clean value := by
  constructor
  · rintro ⟨hpython, hshell⟩
    rw [shellValue, filled, Option.filter_eq_some_iff] at hshell
    have hread := lineValue_iff.mp hshell.1
    have hnul : ∀ c ∈ value, c ≠ Char.ofNat 0 := by
      intro c hc
      have hmem : c ∈ line.filter (· ≠ Char.ofNat 0) := by
        rw [hread]
        exact List.mem_append_right _ (List.mem_cons_of_mem _ hc)
      simpa using (List.mem_filter.mp hmem).2
    have hfree : ∀ c ∈ value, Str.isLineBreak c = false := by
      obtain ⟨piece, hpiece, hvalue⟩ := List.exists_of_findSome?_eq_some hpython
      obtain rfl := lineValue_iff.mp hvalue
      exact fun c hc => Str.lines_free hpiece c
        (List.mem_append_right _ (List.mem_cons_of_mem _ hc))
    have hvalue : Clean value := fun c hc => ⟨hnul c hc, hfree c hc⟩
    have hline : ∀ c ∈ line, Str.isLineBreak c = false := by
      refine free_of_clean_filter ?_
      rw [hread]
      exact assigned_clean hkey hvalue
    have hlineNe : line ≠ [] := by
      rintro rfl
      cases hpython
    rw [pythonValue_of_free hline hlineNe] at hpython
    exact ⟨lineValue_iff.mp hpython, hvalue⟩
  · rintro ⟨rfl, hvalue⟩
    have hclean := assigned_clean hkey hvalue
    have hline : lineValue key (key ++ '=' :: value) = some value := lineValue_iff.mpr rfl
    constructor
    · rw [pythonValue_of_free (fun c hc => (hclean c hc).2) (by simp), hline]
    · rw [shellValue, filter_nul_of_clean hclean, filled, hline, Option.filter_eq_some_iff]
      exact ⟨rfl, by simpa using hne⟩

/-- A default that is not the value was not taken. -/
theorem eq_some_of_getD {o : Option Str} (h : o.getD [] = value) (hne : value ≠ []) :
    o = some value := by
  cases o with
  | none => exact absurd h.symm hne
  | some v => rw [← h, Option.getD_some]

/-- Lines that are read alike have one effective value. -/
theorem ReadAlike.agree (hkey : isKey key = true) {lines : List Str} (h : ReadAlike key lines) :
    (lines.findSome? (shellValue key)).getD [] = (lines.findSome? (pythonValue key)).getD [] := by
  induction h with
  | nil => rfl
  | skip _ _ hpython hshell _ ih =>
    rw [List.findSome?_cons, List.findSome?_cons, hpython, hshell]
    exact ih
  | value value _ hne hclean =>
    obtain ⟨hpython, hshell⟩ := (same_value_iff hkey hne).mpr ⟨rfl, hclean⟩
    rw [List.findSome?_cons, List.findSome?_cons, hpython, hshell]
  | empty _ _ hpython hall =>
    rw [List.findSome?_eq_none_iff.mpr hall, List.findSome?_cons, hpython]
    rfl
  | shells _ _ value hshell hpython hnext =>
    rw [List.findSome?_cons, List.findSome?_cons, hpython, hshell]
    exact (congrArg (Option.getD · []) hnext).symm
  | python _ _ value hpython _ hshell hnext =>
    rw [List.findSome?_cons, List.findSome?_cons, hpython, hshell]
    exact congrArg (Option.getD · []) hnext

/-- Where the shell finds nothing no line has a value. -/
theorem findSome_shellValue_eq_none {lines : List Str}
    (h : (lines.findSome? (shellValue key)).getD [] = []) :
    ∀ l ∈ lines, shellValue key l = none := by
  rw [← List.findSome?_eq_none_iff]
  cases hnext : lines.findSome? (shellValue key) with
  | none => rfl
  | some v =>
    rw [hnext] at h
    obtain ⟨l, -, hl⟩ := List.exists_of_findSome?_eq_some hnext
    exact absurd h (shellValue_ne_nil hl)

/-- The readers agree when the first values do. -/
theorem readAlike_iff (hkey : isKey key = true) (lines : List Str) : ReadAlike key lines ↔
    (lines.findSome? (shellValue key)).getD [] = (lines.findSome? (pythonValue key)).getD [] := by
  refine ⟨fun h => h.agree hkey, fun h => ?_⟩
  induction lines with
  | nil => exact .nil
  | cons line lines ih =>
    rw [List.findSome?_cons, List.findSome?_cons] at h
    -- the first of the two that finds a value here decides
    cases hpython : pythonValue key line with
    | none =>
      rw [hpython] at h
      cases hshell : shellValue key line with
      | none =>
        rw [hshell] at h
        exact .skip line lines hpython hshell (ih h)
      | some value =>
        rw [hshell] at h
        exact .shells line lines value hshell hpython
          (eq_some_of_getD h.symm (shellValue_ne_nil hshell))
    | some value =>
      rw [hpython] at h
      cases hshell : shellValue key line with
      | none =>
        rw [hshell] at h
        by_cases hne : value = []
        · subst hne
          exact .empty line lines hpython
            (List.forall_mem_cons.mpr ⟨hshell, findSome_shellValue_eq_none h⟩)
        · exact .python line lines value hpython hne hshell (eq_some_of_getD h hne)
      | some value' =>
        rw [hshell] at h
        obtain rfl : value' = value := h
        have hne := shellValue_ne_nil hshell
        obtain ⟨rfl, hclean⟩ := (same_value_iff hkey hne).mp ⟨hpython, hshell⟩
        exact .value value' lines hne hclean

/-! ### The three readers -/

/-- The condition for a key. `APPLIANCE_CONFIG` is what names the file for Python. -/
def Alike (path key file : Str) : Prop :=
  if key = configKey then
    (Str.lines Str.isNewline file).findSome? (shellValue key) = some path
  else ReadAlike key (Str.lines Str.isNewline file)

/-- **The readers agree on a key** of a file that the installer accepts if and only if its lines
are read alike. -/
theorem readers_agree_iff (content : Str → Str) {configFile path file key : Str} {env vars : Vars}
    (henv : ∀ key, appliance <+: key → env key = none) (hpath : path ≠ [])
    (hfile : content path = file) (haccepted : readConfig configFile env file = .ok vars)
    (hkey : isKey key = true) :
    (vars.text key = (readCtl env file).text key ∧
      vars.text key = (load content (env.set configKey path)).text key) ↔ Alike path key file := by
  have hempty : (env.text key).isEmpty = true := by
    obtain ⟨⟨name, rfl⟩, -⟩ := isKey_chars hkey
    rw [Vars.text, henv _ ⟨name, rfl⟩]
    rfl
  have hshells : vars.text key =
      ((Str.lines Str.isNewline file).findSome? (shellValue key)).getD [] := by
    rw [readConfig_eq haccepted, readCtl, text_foldl_ctlLine hkey, if_pos hempty,
      findSome_shellLines]
  have hpython : (load content (env.set configKey path)).text key =
      if key = configKey then path
      else ((Str.lines Str.isNewline file).findSome? (pythonValue key)).getD [] := by
    have hconfig : (env.set configKey path) configKey = some path := if_pos rfl
    rw [Vars.text, load_apply hconfig hpath hkey, hfile, findSome_pythonLines, Vars.set]
    split
    · rfl
    · obtain ⟨⟨name, rfl⟩, -⟩ := isKey_chars hkey
      rw [henv _ ⟨name, rfl⟩, Option.none_or]
  rw [hpython, ← readConfig_eq haccepted, hshells, Alike]
  split
  · exact ⟨fun h => eq_some_of_getD h.2 hpath, fun h => ⟨rfl, by rw [h]; rfl⟩⟩
  · rw [readAlike_iff hkey]
    exact ⟨fun h => h.2, fun h => ⟨rfl, h⟩⟩

/-- An empty environment. -/
def noVars : Vars := fun _ => none

/-- What is read when nothing is refused. -/
theorem exists_vars {configFile file : Str} (h : (readConfig configFile vars file).isOk = true) :
    ∃ vars', readConfig configFile vars file = .ok vars' := by
  cases hread : readConfig configFile vars file with
  | ok vars' => exact ⟨vars', rfl⟩
  | error e =>
    rw [hread] at h
    cases h

/-- A comment and a repeated key. -/
theorem readers_agree_tidy : ∃ vars, readConfig "conf".toList noVars
      "# main\nAPPLIANCE_PORT=6090\nAPPLIANCE_PORT=1\n".toList = .ok vars ∧
    vars.text "APPLIANCE_PORT".toList = (readCtl noVars
      "# main\nAPPLIANCE_PORT=6090\nAPPLIANCE_PORT=1\n".toList).text "APPLIANCE_PORT".toList ∧
    vars.text "APPLIANCE_PORT".toList = (load
      (fun _ => "# main\nAPPLIANCE_PORT=6090\nAPPLIANCE_PORT=1\n".toList)
      (noVars.set configKey "conf".toList)).text "APPLIANCE_PORT".toList := by
  have hkey : isKey "APPLIANCE_PORT".toList = true := by decide
  have hpath : "conf".toList ≠ [] := by decide
  have hlines : Str.lines Str.isNewline "# main\nAPPLIANCE_PORT=6090\nAPPLIANCE_PORT=1\n".toList =
      ["# main".toList, "APPLIANCE_PORT".toList ++ '=' :: "6090".toList,
        "APPLIANCE_PORT=1".toList] := by decide +kernel
  have hclean : Clean "6090".toList := Str.forall_mem_of_all (by decide)
  have hok : (readConfig "conf".toList noVars
    "# main\nAPPLIANCE_PORT=6090\nAPPLIANCE_PORT=1\n".toList).isOk = true := by decide +kernel
  have halike : Alike "conf".toList "APPLIANCE_PORT".toList
      "# main\nAPPLIANCE_PORT=6090\nAPPLIANCE_PORT=1\n".toList := by
    rw [Alike, if_neg (by decide), hlines]
    exact .skip _ _ (by decide +kernel) (by decide +kernel) (.value _ _ (by decide) hclean)
  obtain ⟨vars, haccepted⟩ := exists_vars hok
  have hnone : ∀ key, appliance <+: key → noVars key = none := fun _ _ => rfl
  exact ⟨vars, haccepted, (readers_agree_iff (fun _ =>
    "# main\nAPPLIANCE_PORT=6090\nAPPLIANCE_PORT=1\n".toList) hnone hpath rfl haccepted hkey).mpr
      halike⟩

/-- A key that is empty first: the daemon keeps its default, the installer takes the next value. -/
theorem readers_empty_first : ∃ vars, readConfig "conf".toList noVars
      "APPLIANCE_PORT=\nAPPLIANCE_PORT=7000\n".toList = .ok vars ∧
    vars.text "APPLIANCE_PORT".toList = "7000".toList ∧
    (load (fun _ => "APPLIANCE_PORT=\nAPPLIANCE_PORT=7000\n".toList)
      (noVars.set configKey "conf".toList)).text "APPLIANCE_PORT".toList = [] := by
  have hok : (readConfig "conf".toList noVars
    "APPLIANCE_PORT=\nAPPLIANCE_PORT=7000\n".toList).isOk = true := by decide +kernel
  obtain ⟨vars, haccepted⟩ := exists_vars hok
  refine ⟨vars, haccepted, ?_, by decide +kernel⟩
  rw [readConfig_eq haccepted]
  decide +kernel

end Readers

end AndroidAppliance
