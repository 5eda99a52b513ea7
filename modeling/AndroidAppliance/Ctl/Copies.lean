import AndroidAppliance.Files.Transfer
import AndroidAppliance.Text.Query

/-!
# Files by name

`push`, `pull` and `ls` of `androidctl`, up to the path that the daemon takes. A name on the host
is a list of bytes; it goes through `urlencode` into the query string, and comes out of
`query_params` as the text of these bytes.

`files_meant` says which paths the daemon reads, and that a push lands where a copy would: at the
destination, or in it under the name of the source. The script calls `basename "$src"`, which takes
a source that begins with a dash for options. When it fails over them, nothing is pushed.
-/

namespace AndroidAppliance

namespace Ctl

open Files (Bytes)

/-! ### `androidctl` -/

/-- The pattern in `urlencode`, with `LC_ALL=C`. -/
def isUrlSafe (c : Char) : Bool := c.isAlphanum || "-._~/".toList.contains c

/-- The bytes that `urlencode` leaves as they are. -/
def urlSafe : Query.Safe where
  byte b := isUrlSafe (Char.ofNat b.toNat)
  ascii b h := by
    have hall : ∀ n < 256, isUrlSafe (Char.ofNat n) = true → n < 0x80 := by
      decide +kernel
    exact hall b.toNat b.toNat_lt h
  plain b h := by
    have hall : ∀ n < 256, isUrlSafe (Char.ofNat n) = true →
        Char.ofNat n ∉ ['%', '+', '&', '='] := by decide +kernel
    exact hall b.toNat b.toNat_lt h

/-- `urlencode`. -/
def urlencode (s : Bytes) : Str := Query.quote urlSafe s

/-- What `basename` prints of a path whose directories end with `slash`. -/
def basenameOf {α : Type} [DecidableEq α] (slash : α) (path : List α) : List α :=
  let name := path.rdropWhile (· = slash)
  if name = [] then path.take 1 else name.rtakeWhile (· ≠ slash)

/-- `$(basename "$path")`: the newlines at the end are lost. -/
def basename {α : Type} [DecidableEq α] (slash newline : α) (path : List α) : List α :=
  (basenameOf slash path).rdropWhile (· = newline)

/-- `case $dest in */) dest+=$(basename "$src") ;; esac`. -/
def pushDest {α : Type} [DecidableEq α] (slash newline : α) (src dest : List α) : List α :=
  if dest.getLast? = some slash then dest ++ basename slash newline src else dest

/-- `basename` takes the path for options: it begins with a dash and is more than that. -/
def isOption (path : Bytes) : Bool := path.head? = some 0x2D && path ≠ [0x2D]

/-- `$(basename "$src")` in the script. What the program prints of options is `options`; `none` is
a failure. -/
def nameOf (options : Bytes → Option Bytes) (src : Bytes) : Option Bytes :=
  if isOption src then (options src).map (·.rdropWhile (· = 0x0A))
  else some (basename 0x2F 0x0A src)

/-- The target of the request of `cmd_push`. -/
def pushTarget (dest name : Bytes) : Str :=
  "/files?path=".toList ++ urlencode dest ++ "&name=".toList ++ urlencode name

/-- The request of `cmd_push`; `none` when the script ends before it. The assignment to `dest`
fails with its `basename`; in an argument of `call` a failure leaves the empty text. -/
def cmdPush (options : Bytes → Option Bytes) (src dest : Bytes) : Option Str :=
  let name := nameOf options src
  if dest.getLast? = some 0x2F then
    name.map fun base => pushTarget (dest ++ base) base
  else some (pushTarget dest (name.getD []))

/-- The request of `cmd_pull`. -/
def cmdPull (src : Bytes) : Str := "/files?path=".toList ++ urlencode src

/-- The request of `cmd_ls`. -/
def cmdLs (path : Bytes) : Str :=
  "/files/list?path=".toList ++ urlencode path ++ "&format=text".toList

/-! ### `appliance/api.py` -/

/-- The parameters of a request, as the web framework reads them: the fields of `parse_qsl` with
their blank values, and of equal keys the last one. -/
structure Framework where
  /-- `request.query_params.get(key)` of the target of a request. -/
  queryParam : Str → String → Option Str
  queryParam_eq : ∀ target key, queryParam target key =
    Query.get (Query.parseQsl (Str.partition '?' target).2.2) key.toList

variable (web : Framework)

/-- `_as_text`. -/
def asText (target : Str) : Bool := web.queryParam target "format" = some "text".toList

/-- The handler `push`, up to the path for `adb push`: `fileType` is what `_file_type` says. -/
def apiPush (fileType : Str → Option Str) (target : Str) : Except Files.Error Str := do
  let path ← Files.queryPath (web.queryParam target "path")
  let name := web.queryParam target "name"
  Files.checkPush path name
  Files.pushPath path name (fileType path)

/-- The handlers `pull` and `list_files`, up to the path in their commands. -/
def apiPath (target : Str) : Except Files.Error Str := do
  let path ← Files.queryPath (web.queryParam target "path")
  Files.checkPath path
  return path

/-! ### What a copy does -/

/-- Where a copy of the file `src` to `dest` is. -/
def copied (fileType : Str → Option Str) (src dest : Str) : Str :=
  let dest := pushDest '/' '\n' src dest
  if fileType dest = some "directory".toList then
    dest.rdropWhile (· = '/') ++ '/' :: basename '/' '\n' src
  else dest

/-- What the daemon asks of a push. -/
structure Pushable (src dest : Str) : Prop where
  absolute : (pushDest '/' '\n' src dest).head? = some '/'
  line : '\n' ∉ pushDest '/' '\n' src dest
  noNul : Char.ofNat 0 ∉ pushDest '/' '\n' src dest
  named : basename '/' '\n' src ∉ [[], ['.'], ['.', '.']]
  component : '/' ∉ basename '/' '\n' src
  noNulName : Char.ofNat 0 ∉ basename '/' '\n' src

/-! ### The names of a text -/

/-- Only the empty text has no bytes. -/
theorem encode_eq_nil {s : Str} : Utf8.encode s = [] ↔ s = [] := by
  refine ⟨fun h => ?_, fun h => h ▸ rfl⟩
  rw [← Utf8.decode_encode s, h]
  rfl

/-- The last byte is ASCII when the last character is. -/
theorem encode_getLast? {a : Char} (ha : a.toNat < 0x80) (s : Str) :
    (Utf8.encode s).getLast? = some (UInt8.ofNat a.toNat) ↔ s.getLast? = some a := by
  induction s using List.reverseRecOn with
  | nil => exact iff_of_false nofun nofun
  | append_singleton s c _ =>
    have hbytes : String.utf8EncodeChar c ≠ [] := String.utf8EncodeChar_ne_nil
    rw [Utf8.encode_concat, List.getLast?_append_of_ne_nil _ hbytes, List.getLast?_concat,
      List.getLast?_eq_some_getLast hbytes, Option.some_inj, Option.some_inj]
    by_cases hc : c = a
    · simp [hc, Utf8.encodeChar_ascii ha]
    · exact iff_of_false (Utf8.ne_of_mem_encodeChar ha hc (List.getLast_mem hbytes)) hc

/-- The last component, in bytes and in characters. -/
theorem encode_basenameOf (path : Str) :
    basenameOf 0x2F (Utf8.encode path) = Utf8.encode (basenameOf '/' path) := by
  have hdrop : (Utf8.encode path).rdropWhile (· = 0x2F) = Utf8.encode (path.rdropWhile (· = '/')) :=
    Utf8.encode_rdropWhile (a := '/') (by decide) path
  have htake := Utf8.encode_rtakeWhile (a := '/') (by decide) (path.rdropWhile (· = '/'))
  unfold basenameOf
  simp only [hdrop, encode_eq_nil]
  split
  · rename_i hall
    cases path with
    | nil => rfl
    | cons c path =>
      have hc : c = '/' := by simpa using List.rdropWhile_eq_nil_iff.mp hall c List.mem_cons_self
      rw [hc]
      rfl
  · exact htake

/-- The name of a file is cut from the bytes as from the text. -/
theorem encode_basename (path : Str) :
    basename 0x2F 0x0A (Utf8.encode path) = Utf8.encode (basename '/' '\n' path) := by
  rw [basename, encode_basenameOf]
  exact Utf8.encode_rdropWhile (a := '\n') (by decide) _

/-- The target of a copy, in bytes and in characters. -/
theorem encode_pushDest (src dest : Str) :
    pushDest 0x2F 0x0A (Utf8.encode src) (Utf8.encode dest) =
      Utf8.encode (pushDest '/' '\n' src dest) := by
  have hlast : (Utf8.encode dest).getLast? = some 0x2F ↔ dest.getLast? = some '/' :=
    encode_getLast? (a := '/') (by decide) dest
  unfold pushDest
  simp only [hlast]
  split
  · rw [encode_basename, Utf8.encode, Utf8.encode, Utf8.encode, List.flatMap_append]
  · rfl

/-! ### The queries -/

variable {web} {path : Str} {fields : List (Str × Bytes)}

/-- A parameter of a query that was written for it. -/
theorem queryParam_write (hpath : '?' ∉ path)
    (hkeys : fields.all (fun f => Query.isKey f.1) = true) (key : String) :
    web.queryParam (path ++ '?' :: Query.write urlSafe fields) key =
      Query.get (fields.map fun f => (f.1, Utf8.decode f.2)) key.toList := by
  rw [web.queryParam_eq, Str.partition_sep hpath, Query.parseQsl_write hkeys]

/-- The fields of the query of `cmd_pull`. -/
def pullFields (src : Bytes) : List (Str × Bytes) := [("path".toList, src)]

/-- The fields of the query of `cmd_ls`. -/
def lsFields (path : Bytes) : List (Str × Bytes) :=
  [("path".toList, path), ("format".toList, Utf8.encode "text".toList)]

section Target

variable {a b base key key' : Str}

/-- A target with one field. -/
theorem target_one (ha : a = base ++ '?' :: (key ++ ['='])) (v : Bytes) :
    a ++ urlencode v = base ++ '?' :: Query.write urlSafe [(key, v)] := by
  rw [ha]
  simp only [Query.write, urlencode, List.map_cons, List.map_nil, List.intercalate_singleton,
    List.append_assoc, List.cons_append, List.nil_append]

/-- A target with two fields. -/
theorem target_two (ha : a = base ++ '?' :: (key ++ ['='])) (hb : b = '&' :: (key' ++ ['=']))
    (v w : Bytes) : a ++ urlencode v ++ b ++ urlencode w =
      base ++ '?' :: Query.write urlSafe [(key, v), (key', w)] := by
  rw [ha, hb]
  simp only [Query.write, urlencode, List.map_cons, List.map_nil, List.intercalate_cons_cons,
    List.intercalate_singleton, List.append_assoc, List.cons_append, List.nil_append]

end Target

/-- The target of `cmd_push`. -/
theorem pushTarget_eq (dest name : Bytes) : pushTarget dest name = "/files".toList ++
    '?' :: Query.write urlSafe [("path".toList, dest), ("name".toList, name)] :=
  target_two (by decide) (by decide) _ _

/-- The target of `cmd_pull`. -/
theorem cmdPull_eq (src : Bytes) :
    cmdPull src = "/files".toList ++ '?' :: Query.write urlSafe (pullFields src) :=
  target_one (by decide) _

/-- The target of `cmd_ls`. -/
theorem cmdLs_eq (path : Bytes) :
    cmdLs path = "/files/list".toList ++ '?' :: Query.write urlSafe (lsFields path) := by
  have hformat : "&format=text".toList =
      "&format=".toList ++ urlencode (Utf8.encode "text".toList) := by decide
  exact (congrArg (_ ++ ·) hformat).trans ((List.append_assoc _ _ _).symm.trans
    (target_two (by decide) (by decide) _ _))

/-- The daemon reads what stands in the request of a push. -/
theorem push_params (dest name : Bytes) :
    web.queryParam (pushTarget dest name) "path" = some (Utf8.decode dest) ∧
    web.queryParam (pushTarget dest name) "name" = some (Utf8.decode name) := by
  rw [pushTarget_eq, queryParam_write (by decide) rfl, queryParam_write (by decide) rfl]
  exact ⟨rfl, rfl⟩

/-- The request of a push whose source is no option. -/
theorem cmdPush_eq {options : Bytes → Option Bytes} {src : Bytes} (h : isOption src = false)
    (dest : Bytes) : cmdPush options src dest =
      some (pushTarget (pushDest 0x2F 0x0A src dest) (basename 0x2F 0x0A src)) := by
  have hname : nameOf options src = some (basename 0x2F 0x0A src) :=
    if_neg (by rw [h]; exact Bool.false_ne_true)
  unfold cmdPush pushDest
  rw [hname]
  split <;> rfl

/-- The server reads the path of a pull. -/
theorem pull_param (src : Bytes) :
    web.queryParam (cmdPull src) "path" = some (Utf8.decode src) := by
  rw [cmdPull_eq, queryParam_write (by decide) rfl]
  rfl

/-- The server reads the path of a listing, and answers in text. -/
theorem ls_params (path : Bytes) :
    web.queryParam (cmdLs path) "path" = some (Utf8.decode path) ∧
      asText web (cmdLs path) = true := by
  unfold asText
  rw [cmdLs_eq, queryParam_write (by decide) rfl, queryParam_write (by decide) rfl]
  exact ⟨rfl, decide_eq_true rfl⟩

/-! ### Where a push lands -/

variable {fileType : Str → Option Str} {src dest p : Str}

/-- The paths that are accepted. -/
theorem checkPath_eq_ok : Files.checkPath p = .ok () ↔
    p.head? = some '/' ∧ '\n' ∉ p ∧ Char.ofNat 0 ∉ p := by
  have hcheck : Device.checkPath p = true ↔
      p.head? = some '/' ∧ '\n' ∉ p ∧ Char.ofNat 0 ∉ p := by
    simp [Device.checkPath, and_assoc]
  rw [← hcheck, Files.checkPath]
  split
  · exact iff_of_true rfl ‹_›
  · exact iff_of_false nofun ‹_›

/-- The targets and names that are accepted. -/
theorem checkPush_eq_ok {name : Str} : Files.checkPush p (some name) = .ok () ↔
    Files.checkPath p = .ok () ∧ name ∉ [[], ['.'], ['.', '.']] ∧ '/' ∉ name ∧
      Char.ofNat 0 ∉ name := by
  unfold Files.checkPush
  cases hpath : Files.checkPath p with
  | error e => exact iff_of_false nofun fun h => nomatch h.1
  | ok u =>
    dsimp only [Except.bind]
    split
    · rename_i hbad
      refine iff_of_false nofun fun ⟨_, hnamed, hslash, hnul⟩ => ?_
      simp only [List.mem_cons, List.not_mem_nil, or_false, not_or] at hnamed
      obtain h | h | h | h | h := hbad
      · exact hnamed.1 h
      · exact hslash h
      · exact hnamed.2.1 h
      · exact hnamed.2.2 h
      · exact hnul h
    · rename_i hgood
      refine iff_of_true rfl ⟨rfl, ?_, ?_, ?_⟩ <;> simp_all

/-- What the source and the destination make up does not end with a slash. -/
theorem pushDest_getLast? (hname : basename '/' '\n' src ≠ [])
    (hslash : '/' ∉ basename '/' '\n' src) :
    (pushDest '/' '\n' src dest).getLast? ≠ some '/' := by
  unfold pushDest
  split
  · rw [List.getLast?_append_of_ne_nil _ hname]
    exact fun h => hslash (List.mem_of_getLast? h)
  · assumption

/-- Where a file lands that is copied to a path that is no directory's. -/
theorem pushPath_eq (hlast : (pushDest '/' '\n' src dest).getLast? ≠ some '/') :
    Files.pushPath (pushDest '/' '\n' src dest) (some (basename '/' '\n' src))
      (fileType (pushDest '/' '\n' src dest)) = .ok (copied fileType src dest) := by
  unfold Files.pushPath copied
  dsimp only
  by_cases hdir : fileType (pushDest '/' '\n' src dest) = some "directory".toList
  · rw [if_pos hdir, if_pos hdir]
    rfl
  · rw [if_neg hdir, if_neg hdir, if_neg hlast]

/-- **A push is a copy**: the daemon takes it if and only if it is pushable, and puts the file
where the copy is. -/
theorem apiPush_eq_ok : apiPush web fileType (pushTarget
      (pushDest 0x2F 0x0A (Utf8.encode src) (Utf8.encode dest))
      (basename 0x2F 0x0A (Utf8.encode src))) = .ok p ↔
    Pushable src dest ∧ p = copied fileType src dest := by
  rw [encode_pushDest, encode_basename]
  obtain ⟨hpath, hname⟩ := push_params (Utf8.encode (pushDest '/' '\n' src dest))
    (Utf8.encode (basename '/' '\n' src))
  rw [Utf8.decode_encode] at hpath hname
  have hpushable : Files.checkPush (pushDest '/' '\n' src dest)
      (some (basename '/' '\n' src)) = .ok () ↔ Pushable src dest := by
    rw [checkPush_eq_ok, checkPath_eq_ok]
    exact ⟨fun ⟨⟨ha, hl, hn⟩, hnamed, hc, hnn⟩ => ⟨ha, hl, hn, hnamed, hc, hnn⟩,
      fun h => ⟨⟨h.absolute, h.line, h.noNul⟩, h.named, h.component, h.noNulName⟩⟩
  unfold apiPush
  rw [hpath, hname]
  cases hd : pushDest '/' '\n' src dest with
  | nil =>
    -- the daemon asks for a path
    exact iff_of_false nofun fun h => by
      have habs := h.1.absolute
      rw [hd] at habs
      cases habs
  | cons c rest =>
    rw [← hd]
    have hquery : Files.queryPath (some (pushDest '/' '\n' src dest)) =
        .ok (pushDest '/' '\n' src dest) := by
      rw [hd]
      rfl
    rw [hquery]
    change ((Files.checkPush (pushDest '/' '\n' src dest) (some (basename '/' '\n' src))).bind
      fun _ => Files.pushPath _ _ _) = _ ↔ _
    cases hcheck : Files.checkPush (pushDest '/' '\n' src dest)
        (some (basename '/' '\n' src)) with
    | error e =>
      rw [hcheck] at hpushable
      exact iff_of_false nofun fun h => nomatch hpushable.mpr h.1
    | ok u =>
      rw [hcheck] at hpushable
      have hok : Pushable src dest := hpushable.mp rfl
      have hlast : (pushDest '/' '\n' src dest).getLast? ≠ some '/' :=
        pushDest_getLast? (fun h => hok.named (h ▸ List.mem_cons_self)) hok.component
      dsimp only [Except.bind]
      rw [pushPath_eq hlast]
      exact ⟨fun h => ⟨hok, (Except.ok.inj h).symm⟩, fun h => congrArg _ h.2.symm⟩

/-- A push without a name is refused. -/
theorem apiPush_nameless (dest : Bytes) :
    ∃ e, apiPush web fileType (pushTarget dest []) = .error e := by
  obtain ⟨hpath, hname⟩ := push_params dest []
  unfold apiPush
  rw [hpath, hname]
  cases hquery : Files.queryPath (some (Utf8.decode dest)) with
  | error e => exact ⟨e, rfl⟩
  | ok path =>
    have hrefused : ∃ e, Files.checkPush path (some (Utf8.decode [])) = .error e := by
      unfold Files.checkPush
      cases hcheck : Files.checkPath path with
      | error e => exact ⟨e, rfl⟩
      | ok u => exact ⟨_, rfl⟩
    obtain ⟨e, he⟩ := hrefused
    refine ⟨e, ?_⟩
    change ((Files.checkPush path (some (Utf8.decode []))).bind _) = _
    rw [he]
    rfl

/-- What is on the host and what the daemon reads, of a source that is no option. -/
structure FilesMeant (web : Framework) (options : Bytes → Option Bytes) (src dest : Bytes) :
    Prop where
  /-- The text of the destination, which is the directory `dest` with the name of the source, and
  of that name. -/
  push : isOption src = false → ∃ target, cmdPush options src dest = some target ∧
    web.queryParam target "path" = some (Utf8.decode (pushDest 0x2F 0x0A src dest)) ∧
    web.queryParam target "name" = some (Utf8.decode (basename 0x2F 0x0A src))
  pull : web.queryParam (cmdPull src) "path" = some (Utf8.decode src)
  ls : web.queryParam (cmdLs src) "path" = some (Utf8.decode src)
  lines : asText web (cmdLs src) = true

end Ctl

end AndroidAppliance
