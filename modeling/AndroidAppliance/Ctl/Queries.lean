import AndroidAppliance.Ctl.Bodies

/-!
# Commands with a query

`install`, `apps` and `logs`, whose arguments become a query string of `Text.Query`, and the upload
of the APK.
-/

namespace AndroidAppliance

namespace Ctl

open Request (Raise Interpreter badRequest about)
open Text (Codes)
open Files (Bytes)

variable {env : Setting} {chunks : List Bytes}

/-! ### Commands with a query -/

/-- What a loop over the arguments has put together. -/
def ampersands (fields : List (Str × Bytes)) : Str :=
  fields.flatMap fun f => '&' :: (f.1 ++ '=' :: Query.quote urlSafe f.2)

/-- The fields of a query, behind an ampersand. -/
theorem ampersands_cons (f : Str × Bytes) (fields : List (Str × Bytes)) :
    ampersands (f :: fields) = '&' :: Query.write urlSafe (f :: fields) := by
  unfold ampersands Query.write
  induction fields generalizing f with
  | nil => simp [List.intercalate_singleton]
  | cons g fields ih =>
    rw [List.flatMap_cons, ih g]
    simp only [List.map_cons, List.intercalate_cons_cons, List.append_assoc, List.cons_append,
      List.nil_append]

section WithQuery

variable {path : Str} {fields : List (Str × Bytes)}

/-- The first ampersand becomes a question mark. -/
theorem withQuery_eq {f : Str × Bytes} : withQuery path (ampersands (f :: fields)) =
    path ++ '?' :: Query.write urlSafe (f :: fields) := by
  have hne : Query.write urlSafe (f :: fields) ≠ [] := by
    unfold Query.write
    cases fields <;> simp [List.intercalate_cons_cons]
  rw [ampersands_cons]
  exact if_neg hne

variable (hpath : '?' ∉ path)

include hpath

/-- The path in front of the query. -/
theorem withQuery_path (fields : List (Str × Bytes)) :
    (Str.partition '?' (withQuery path (ampersands fields))).1 = path := by
  cases fields with
  | nil =>
    change (Str.partition '?' path).1 = path
    rw [Str.partition_free hpath]
  | cons f fields => rw [withQuery_eq, Str.partition_sep hpath]

/-- The server reads the fields of the query. -/
theorem queryParam_withQuery (hkeys : fields.all (fun f => Query.isKey f.1) = true)
    (key : String) : env.web.queryParam (withQuery path (ampersands fields)) key =
      Query.get (fields.map fun f => (f.1, Utf8.decode f.2)) key.toList := by
  cases fields with
  | nil =>
    change env.web.queryParam path key = _
    rw [env.web.queryParam_eq, Str.partition_free hpath]
    rfl
  | cons f fields => rw [withQuery_eq, queryParam_write hpath hkeys]

end WithQuery

/-! #### `install` and `apps` -/

/-- The flags of `install`, and the keys of their parameters. -/
def flagKeys : List (Str × Str) :=
  [("-r".toList, "replace".toList), ("-g".toList, "grant".toList),
    ("-d".toList, "downgrade".toList), ("-t".toList, "test".toList)]

/-- The fields of keys that are set. -/
def setFields (keys : List Str) : List (Str × Bytes) := keys.map fun key => (key, [0x31])

/-- What a flag adds to the query. -/
theorem flagQuery_eq {flag part : Str} (h : flagQuery flag = some part) :
    ∃ key, (flag, key) ∈ flagKeys ∧ part = ampersands (setFields [key]) := by
  unfold flagQuery at h
  split at h
  · cases h
    exact ⟨"replace".toList, by simp_all [flagKeys], by decide⟩
  split at h
  · cases h
    exact ⟨"grant".toList, by simp_all [flagKeys], by decide⟩
  split at h
  · cases h
    exact ⟨"downgrade".toList, by simp_all [flagKeys], by decide⟩
  split at h
  · cases h
    exact ⟨"test".toList, by simp_all [flagKeys], by decide⟩
  · cases h

/-- What all flags add to it. -/
theorem installQuery_eq {flags : List Str} {acc query : Str}
    (h : installQuery acc flags = some query) : ∃ keys,
      List.Forall₂ (fun flag key => (flag, key) ∈ flagKeys) flags keys ∧
      query = acc ++ ampersands (setFields keys) := by
  induction flags generalizing acc with
  | nil =>
    cases h
    exact ⟨[], .nil, (List.append_nil _).symm⟩
  | cons flag flags ih =>
    obtain ⟨part, hpart, hrest⟩ := Option.bind_eq_some_iff.mp h
    obtain ⟨key, hkey, rfl⟩ := flagQuery_eq hpart
    obtain ⟨keys, hkeys, hquery⟩ := ih hrest
    refine ⟨key :: keys, .cons hkey hkeys, ?_⟩
    rw [hquery, List.append_assoc]
    simp [ampersands, setFields]

/-- A flag has one key, and a key one flag. -/
theorem flagKeys_biUnique : Relator.BiUnique fun flag key => (flag, key) ∈ flagKeys := by
  have hleft : ∀ p ∈ flagKeys, ∀ q ∈ flagKeys, p.2 = q.2 → p.1 = q.1 := by decide
  have hright : ∀ p ∈ flagKeys, ∀ q ∈ flagKeys, p.1 = q.1 → p.2 = q.2 := by decide
  exact ⟨fun _ _ _ ha hb => hleft _ ha _ hb rfl, fun _ _ _ hb hc => hright _ hb _ hc rfl⟩

/-- The keys of flags are plain. -/
theorem isKey_of_flags {flags keys : List Str}
    (h : List.Forall₂ (fun flag key => (flag, key) ∈ flagKeys) flags keys) :
    keys.all Query.isKey = true := by
  have hall : ∀ p ∈ flagKeys, Query.isKey p.2 = true := by decide
  induction h with
  | nil => rfl
  | cons hfk _ ih => rw [List.all_cons, ih, hall _ hfk, Bool.and_self]

/-- A key of the query is set, or is not there. -/
theorem get_setFields (keys : List Str) (key : Str) :
    Query.get ((setFields keys).map fun f => (f.1, Utf8.decode f.2)) key =
      if key ∈ keys then some ['1'] else none := by
  have hmap : ∀ keys : List Str, (setFields keys).map (fun f => (f.1, Utf8.decode f.2)) =
      keys.map fun key => (key, ['1']) := by
    intro keys
    have hone : Utf8.decode [0x31] = ['1'] := by decide
    rw [setFields, List.map_map]
    exact List.map_congr_left fun k _ => congrArg (Prod.mk k) hone
  rw [hmap]
  induction keys using List.reverseRecOn with
  | nil => rfl
  | append_singleton keys k ih =>
    rw [List.map_append, List.map_singleton, Query.get_concat, ih]
    by_cases hk : k = key
    · rw [if_pos hk, if_pos (by simp [hk])]
    · rw [if_neg hk]
      exact if_congr (by simp [Ne.symm hk]) rfl rfl

/-- The server reads a flag that was given. -/
theorem flag_withQuery {path : Str} (hpath : '?' ∉ path) {keys : List Str}
    (hkeys : keys.all Query.isKey = true) (key : String) :
    flag env (withQuery path (ampersands (setFields keys))) key = decide (key.toList ∈ keys) := by
  have hall : (setFields keys).all (fun f => Query.isKey f.1) = true := by
    rw [setFields, List.all_map]
    exact hkeys
  rw [flag, queryParam_withQuery hpath hall, get_setFields]
  split
  · rename_i hmem
    rw [decide_eq_true hmem]
    decide
  · rename_i hmem
    rw [decide_eq_false hmem]
    decide

/-- The header `content-length` is missing or right. -/
def Declared (declared : Str) (body : Bytes) : Prop :=
  declared = [] ∨ declared = Str.ofNat body.length

/-- The body is saved whole, or refused when it is too large. -/
theorem saveChunks_eq {limit : Nat} (data : Bytes) (hdata : data.length ≤ limit) :
    saveChunks limit data chunks =
      if limit < (data ++ chunks.flatten).length then .error (tooLarge limit)
      else .ok (data ++ chunks.flatten) := by
  induction chunks generalizing data with
  | nil =>
    rw [List.flatten_nil, List.append_nil, if_neg (Nat.not_lt.mpr hdata)]
    rfl
  | cons chunk chunks ih =>
    rw [List.flatten_cons, ← List.append_assoc, saveChunks]
    by_cases hlong : limit < data.length + chunk.length
    · rw [if_pos hlong, if_pos]
      simp only [List.length_append]
      omega
    · rw [if_neg hlong]
      exact ih _ (by rw [List.length_append]; omega)

/-- **An upload** is saved as it is, or refused for its length, however it is cut into chunks. -/
theorem save_eq {limit : Nat} {declared : Str} (h : Declared declared chunks.flatten) :
    save limit declared chunks =
      if limit < chunks.flatten.length then .error (tooLarge limit) else .ok chunks.flatten := by
  have hread : saveChunks limit [] chunks = if limit < ([] ++ chunks.flatten).length then
      .error (tooLarge limit) else .ok ([] ++ chunks.flatten) := saveChunks_eq [] (Nat.zero_le _)
  rw [List.nil_append] at hread
  unfold save
  rw [hread]
  split
  · rename_i hdeclared
    -- the header alone refuses it
    rcases h with rfl | rfl
    · cases hdeclared.1
    · rw [Str.int_ofNat] at hdeclared
      rw [if_pos hdeclared.2]
  · rfl

/-- The upload of an APK, before its handler is called. -/
def upload (declared : Str) : Files.Transfer where
  request := .install declared
  pc := .called
  file := none
  pulled := []
  sent := []

/-- What `_save` leaves of an upload: its file with the body, or no file. -/
def uploaded (t : Files.Transfer) (limit : Nat) : Except Raise Bytes → Files.Transfer
  | .ok data => { t with file := some data, pc := .saving limit data.length }
  | .error _ => t.finish (.error (Files.tooLarge limit))

/-- The rounds of the loop, on the way of the request. -/
theorem rounds_saveChunks {limit : Nat} {t : Files.Transfer} {declared : Str}
    (chunks : List Bytes) (data : Bytes) (hrequest : t.request = .install declared)
    (hfile : t.file = some data) (hpc : t.pc = .saving limit data.length) :
    ∃ before, before <+: chunks ∧
      (∀ body, saveChunks limit data chunks = .ok body → before = chunks) ∧
        Files.transferMachine.run t (before.map .chunk) =
          some (uploaded t limit (saveChunks limit data chunks)) := by
  induction chunks generalizing t data with
  | nil =>
    refine ⟨[], List.nil_prefix, fun _ _ => rfl, ?_⟩
    obtain ⟨request, pc, file, pulled, sent⟩ := t
    cases hfile
    cases hpc
    rfl
  | cons chunk chunks ih =>
    have hstep : Files.transferMachine.step t (.chunk chunk) =
        some (t.chunk limit data.length chunk) := by
      change t.step (.chunk chunk) = _
      rw [Files.Transfer.step, hpc]
    by_cases hlong : limit < data.length + chunk.length
    · refine ⟨[chunk], List.cons_prefix_cons.mpr ⟨rfl, List.nil_prefix⟩, fun body h => ?_, ?_⟩
      · rw [saveChunks, if_pos hlong] at h
        cases h
      · rw [List.map_singleton, Machine.run, hstep, Option.bind_some, Files.Transfer.chunk,
          saveChunks, if_pos hlong, if_pos hlong]
        rfl
    · have hchunk : t.chunk limit data.length chunk =
          { t with
            file := some (data ++ chunk)
            pc := .saving limit (data ++ chunk).length } := by
        rw [Files.Transfer.chunk, if_neg hlong, hfile, List.length_append]
        rfl
      obtain ⟨before, hbefore, hall, hrun⟩ :=
        ih (t := t.chunk limit data.length chunk) (data ++ chunk) (by rw [hchunk]; exact hrequest)
          (by rw [hchunk]) (by rw [hchunk])
      refine ⟨chunk :: before, List.cons_prefix_cons.mpr ⟨rfl, hbefore⟩, fun body h => ?_, ?_⟩
      · rw [saveChunks, if_neg hlong] at h
        rw [hall body h]
      · rw [List.map_cons, Machine.run, hstep, Option.bind_some, hrun, saveChunks,
          if_neg hlong, hchunk]
        -- Both leave the same: the file of the rounds before is replaced, or removed.
        cases saveChunks limit (data ++ chunk) chunks with
        | ok body => rfl
        | error e => simp only [uploaded, Files.Transfer.finish, hrequest]

/-- **`_save`, round by round**, is what the request of an upload goes through: it ends with the
whole body in the file, or with the first chunk that is too much and no file. -/
theorem rounds_save (limit : Nat) (declared : Str) (chunks : List Bytes) :
    ∃ before, before <+: chunks ∧
      (∀ body, save limit declared chunks = .ok body → before = chunks) ∧
        Files.transferMachine.run (upload declared) (.call limit :: before.map .chunk) =
          some (uploaded (upload declared) limit (save limit declared chunks)) := by
  have hcall : Files.transferMachine.step (upload declared) (.call limit) =
      some ((upload declared).save declared limit) := rfl
  unfold save
  split
  · rename_i hdeclared
    refine ⟨[], List.nil_prefix, nofun, ?_⟩
    rw [List.map_nil, Machine.run, hcall, Option.bind_some, Files.Transfer.save,
      if_pos hdeclared]
    rfl
  · rename_i hdeclared
    have hsave : (upload declared).save declared limit =
        { upload declared with file := some [], pc := .saving limit 0 } := if_neg hdeclared
    obtain ⟨before, hbefore, hall, hrun⟩ := rounds_saveChunks
      (t := { upload declared with file := some [], pc := .saving limit 0 }) chunks [] rfl rfl rfl
    refine ⟨before, hbefore, hall, ?_⟩
    rw [Machine.run, hcall, Option.bind_some, hsave, hrun]
    cases saveChunks limit [] chunks <;> rfl

/-- `cmd_install`. -/
theorem install_done {apk : Bytes} {flags : List Str} {sent : Sent}
    (hdeclared : Declared env.declared sent.body) (hsent : cmdInstall apk flags = some sent) :
    Done env chunks (.install apk flags) sent := by
  obtain ⟨query, hquery, rfl⟩ := Option.map_eq_some_iff.mp hsent
  obtain ⟨keys, hkeys, rfl⟩ := installQuery_eq hquery
  rw [List.nil_append]
  intro hchunks
  have hbody : chunks.flatten = apk := hchunks
  have hplain : keys.all Query.isKey = true := isKey_of_flags hkeys
  have hpath := withQuery_path (by decide : '?' ∉ "/apps/install".toList) (setFields keys)
  have hflag : ∀ flagText key, (flagText, String.toList key) ∈ flagKeys →
      flag env (withQuery "/apps/install".toList (ampersands (setFields keys))) key =
        decide (flagText ∈ flags) := by
    intro flagText key hmem
    rw [flag_withQuery (by decide) hplain]
    exact decide_eq_decide.mpr (List.rel_mem flagKeys_biUnique hmem hkeys).symm
  generalize withQuery "/apps/install".toList (ampersands (setFields keys)) = target at hpath hflag
  have hroute : handle env "POST".toList target chunks = some (apiInstall env target chunks) := by
    rw [handle, hpath]
    rfl
  have hsaved : save env.limit env.declared chunks =
      if env.limit < apk.length then .error (tooLarge env.limit) else .ok apk := by
    rw [save_eq (hbody ▸ hdeclared), hbody]
  by_cases hlarge : env.limit < apk.length
  · have hresult : apiInstall env target chunks = .error (tooLarge env.limit) := by
      unfold apiInstall
      rw [hsaved, if_pos hlarge]
      rfl
    exact ⟨_, hroute.trans (congrArg some hresult), .installLarge flags hlarge⟩
  rw [if_neg hlarge] at hsaved
  by_cases hempty : apk = []
  · subst hempty
    have hresult : apiInstall env target chunks =
        .error (badRequest "the body must be the APK file".toList) := by
      unfold apiInstall
      rw [hsaved]
      rfl
    exact ⟨_, hroute.trans (congrArg some hresult), .installEmpty flags⟩
  · have hresult : apiInstall env target chunks =
        .ok (.install apk (decide ("-r".toList ∈ flags)) (decide ("-g".toList ∈ flags))
          (decide ("-d".toList ∈ flags)) (decide ("-t".toList ∈ flags))) := by
      unfold apiInstall
      rw [hsaved, hflag "-r".toList "replace" (by decide), hflag "-g".toList "grant" (by decide),
        hflag "-d".toList "downgrade" (by decide), hflag "-t".toList "test" (by decide)]
      change (if apk.length = 0 then _ else _) = _
      rw [if_neg (fun hlen => hempty (List.eq_nil_of_length_eq_zero hlen))]
      rfl
    exact ⟨_, hroute.trans (congrArg some hresult),
      .install flags hempty (Nat.not_lt.mp hlarge)⟩

/-- `cmd_apps`. -/
theorem apps_done {args : List Str} {sent : Sent} (hsent : cmdApps args = some sent) :
    Done env chunks (.apps args) sent := by
  have hlong : ∀ a b : Str, ∀ rest, ' ' ∈ [' '].intercalate (a :: b :: rest) := by
    intro a b rest
    rw [List.intercalate_cons_cons]
    simp
  unfold cmdApps at hsent
  dsimp only at hsent
  split at hsent
  case isTrue hnone =>
    cases hsent
    intro _
    have hmem : "--all".toList ∉ args := by
      intro hmem
      match args, hmem with
      | [arg], hmem =>
        rw [List.intercalate_singleton] at hnone
        rw [hnone] at hmem
        exact absurd hmem (by decide)
      | a :: b :: rest, _ =>
        have hspace := hlong a b rest
        rw [hnone] at hspace
        cases hspace
    have hflag : flag env "/apps?format=text".toList "all" = false := by
      rw [flag, env.web.queryParam_eq]
      decide
    have hresult : apiApps env "/apps?format=text".toList chunks = .ok (.apps false) :=
      congrArg (fun all => Except.ok (Call.apps all)) hflag
    refine ⟨_, congrArg some hresult, ?_⟩
    have hmeans := @Means.apps env.limit args
    rwa [decide_eq_false hmem] at hmeans
  case isFalse =>
    split at hsent
    case isFalse => cases hsent
    case isTrue hall =>
      cases hsent
      intro _
      have hmem : "--all".toList ∈ args := by
        match args, hall with
        | [], hall => exact absurd hall (by decide)
        | [arg], hall =>
          rw [List.intercalate_singleton] at hall
          exact hall ▸ List.mem_cons_self
        | a :: b :: rest, hall =>
          have hspace := hlong a b rest
          rw [hall] at hspace
          exact absurd hspace (by decide)
      have hflag : flag env "/apps?format=text&all=1".toList "all" = true := by
        rw [flag, env.web.queryParam_eq]
        decide
      have hresult : apiApps env "/apps?format=text&all=1".toList chunks = .ok (.apps true) :=
        congrArg (fun all => Except.ok (Call.apps all)) hflag
      refine ⟨_, congrArg some hresult, ?_⟩
      have hmeans := @Means.apps env.limit args
      rwa [decide_eq_true hmem] at hmeans

/-! #### `logs` -/

/-- Digits are written as they are. -/
theorem quote_digits {s : Str} (h : ∀ c ∈ s, c.isDigit = true) :
    Query.quote urlSafe (Utf8.encode s) = s := by
  induction s with
  | nil => rfl
  | cons c s ih =>
    have hc : c.isDigit = true := h c List.mem_cons_self
    obtain ⟨-, hhigh⟩ := Str.digit_toNat hc
    have hbyte : Query.quoteByte urlSafe (UInt8.ofNat c.toNat) = [c] := by
      have hchar : Char.ofNat (UInt8.ofNat c.toNat).toNat = c := by
        rw [Utf8.toNat_ofNat (by omega), Char.ofNat_toNat]
      have hsafe : urlSafe.byte (UInt8.ofNat c.toNat) = true := by
        change isUrlSafe (Char.ofNat (UInt8.ofNat c.toNat).toNat) = true
        rw [hchar, isUrlSafe, Char.isAlphanum, hc, Bool.or_true, Bool.true_or]
      rw [Query.quoteByte, if_pos hsafe, hchar]
    have hrest := ih fun d hd => h d (List.mem_cons_of_mem _ hd)
    rw [Query.quote, Utf8.encode] at hrest ⊢
    rw [List.flatMap_cons, Utf8.encodeChar_ascii (by omega), List.flatMap_append, hrest,
      List.flatMap_singleton, hbyte]
    rfl

/-- The fields that the loop of `cmd_logs` has put together: those of the logs, and those of the
numbers. -/
structure LogFields (args : List Str) (fields : List (Str × Bytes)) : Prop where
  keys : fields.all (fun f => Query.isKey f.1) = true
  source : (fields.filter fun f => f.1 = "source".toList).map (fun f => Utf8.decode f.2) =
    args.filter isSource
  lines : (fields.filter fun f => f.1 = "lines".toList).map (fun f => Utf8.decode f.2) =
    (args.filter fun arg => integers [arg]).map decimal

/-- Fields of other keys are passed over. -/
theorem filter_key {key key' : Str} (h : key ≠ key') (value : Bytes)
    (fields : List (Str × Bytes)) : (((key, value) :: fields).filter fun f => f.1 = key') =
      fields.filter fun f => f.1 = key' :=
  List.filter_cons_of_neg (by simpa using h)

/-- A field of the key is kept. -/
theorem filter_key_self (key : Str) (value : Bytes) (fields : List (Str × Bytes)) :
    (((key, value) :: fields).filter fun f => f.1 = key) =
      (key, value) :: fields.filter fun f => f.1 = key :=
  List.filter_cons_of_pos (by simp)

/-- The source of the log in front of other arguments. -/
theorem LogFields.consSource {arg : Str} {args : List Str} {fields : List (Str × Bytes)}
    (hsource : isSource arg = true) (hints : integers [arg] = false) (h : LogFields args fields) :
    LogFields (arg :: args) (("source".toList, Utf8.encode arg) :: fields) where
  keys := by
    rw [List.all_cons, h.keys]
    rfl
  source := by
    rw [filter_key_self, List.map_cons, h.source, List.filter_cons_of_pos hsource,
      Utf8.decode_encode]
  lines := by
    rw [filter_key (by decide), h.lines, List.filter_cons_of_neg (by simp [hints])]

/-- The number of lines in front of other arguments. -/
theorem LogFields.consLines {n : Str} {args : List Str} {fields : List (Str × Bytes)}
    (hints : integers [n] = true) (h : LogFields args fields) :
    LogFields ("-n".toList :: n :: args) (("lines".toList, Utf8.encode (decimal n)) :: fields) where
  keys := by
    rw [List.all_cons, h.keys]
    rfl
  source := by
    have hsource : isSource n = false := by
      rw [Bool.eq_false_iff]
      intro hsource
      rw [isSource, Bool.or_eq_true, decide_eq_true_eq, decide_eq_true_eq] at hsource
      obtain rfl | rfl := hsource <;> exact absurd hints (by decide)
    rw [filter_key (by decide), h.source, List.filter_cons_of_neg (by decide),
      List.filter_cons_of_neg (by simp [hsource])]
  lines := by
    have hdash : ¬integers ["-n".toList] = true := by decide
    have hfilter : (("-n".toList :: n :: args).filter fun arg => integers [arg]) =
        n :: args.filter fun arg => integers [arg] := by
      rw [List.filter_cons_of_neg (p := fun arg => integers [arg]) hdash,
        List.filter_cons_of_pos (p := fun arg => integers [arg]) hints]
    rw [filter_key_self, List.map_cons, h.lines, hfilter, List.map_cons, Utf8.decode_encode]

/-- The loop appends a parameter. -/
theorem append_field {acc name value key : Str} {bytes : Bytes} {fields : List (Str × Bytes)}
    (h : name ++ value = '&' :: (key ++ '=' :: Query.quote urlSafe bytes)) :
    acc ++ name ++ value ++ ampersands fields = acc ++ ampersands ((key, bytes) :: fields) := by
  rw [List.append_assoc acc, h, List.append_assoc]
  rfl

/-- What the arguments of `cmd_logs` add to the query. -/
theorem logsQuery_eq {args : List Str} {acc query : Str} (h : logsQuery acc args = some query) :
    ∃ fields, LogFields args fields ∧ query = acc ++ ampersands fields := by
  induction acc, args using logsQuery.induct with
  | case1 acc =>
    cases h
    exact ⟨[], ⟨rfl, rfl, rfl⟩, (List.append_nil _).symm⟩
  | case2 acc arg args hsource ih =>
    unfold logsQuery at h
    rw [if_pos hsource] at h
    obtain ⟨fields, hfields, hquery⟩ := ih h
    have hints : integers [arg] = false := by
      obtain rfl | rfl := hsource <;> decide
    have hpart : "&source=".toList ++ arg =
        '&' :: ("source".toList ++ '=' :: Query.quote urlSafe (Utf8.encode arg)) := by
      obtain rfl | rfl := hsource <;> decide
    have hname : isSource arg = true := by
      obtain rfl | rfl := hsource <;> decide
    exact ⟨_, hfields.consSource hname hints, hquery.trans (append_field hpart)⟩
  | case3 acc hsource =>
    unfold logsQuery at h
    rw [if_neg hsource, if_pos rfl] at h
    cases h
  | case4 acc n args hints hsource ih =>
    unfold logsQuery at h
    rw [if_neg hsource, if_pos rfl] at h
    dsimp only at h
    rw [if_pos hints] at h
    obtain ⟨fields, hfields, hquery⟩ := ih h
    have hpart : "&lines=".toList ++ decimal n =
        '&' :: ("lines".toList ++ '=' :: Query.quote urlSafe (Utf8.encode (decimal n))) := by
      have hdigits : Query.quote urlSafe (Utf8.encode (decimal n)) = decimal n :=
        quote_digits fun c hc => Str.ofNat_digit hc
      rw [hdigits]
      rfl
    exact ⟨_, hfields.consLines hints, hquery.trans (append_field hpart)⟩
  | case5 acc n args hints hsource =>
    unfold logsQuery at h
    rw [if_neg hsource, if_pos rfl] at h
    dsimp only at h
    rw [if_neg hints] at h
    cases h
  | case6 acc arg args hsource hn =>
    unfold logsQuery at h
    rw [if_neg hsource, if_neg hn] at h
    cases h

/-- The value of a key is that of its last field. -/
theorem get_eq_getLast? (params : List (Str × Str)) (key : Str) :
    Query.get params key = ((params.filter fun p => p.1 = key).map (·.2)).getLast? := by
  rw [Query.get, List.getLast?_map, List.getLast?_filter]

/-- A parameter of digits, within the limits or not. -/
theorem queryInt_digits {raw : Codes} {field : Str} {n : Nat} {default low high : Int}
    (hne : raw ≠ []) (hdigits : Request.isAsciiDigits raw = true)
    (hint : Request.intOf raw = .ok n) : Request.queryInt (some raw) field default low high =
      if low ≤ n ∧ n ≤ high then .ok (n : Int)
      else .error (badRequest (about field ("must be an integer from ".toList ++ Str.ofInt low ++
        " to ".toList ++ Str.ofInt high))) := by
  cases raw with
  | nil => exact absurd rfl hne
  | cons c cs =>
    unfold Request.queryInt
    simp only [hdigits, hint]
    by_cases hrange : low ≤ (n : Int) ∧ (n : Int) ≤ high
    · have hbool : (decide (low ≤ (n : Int)) && decide ((n : Int) ≤ high)) = true := by
        simpa using hrange
      rw [if_pos hrange]
      simp only [bind, Except.bind, pure, Except.pure, hbool]
      rfl
    · have hbool : (decide (low ≤ (n : Int)) && decide ((n : Int) ≤ high)) = false := by
        simpa [Bool.and_eq_false_iff, not_and_or] using hrange
      rw [if_neg hrange]
      simp only [bind, Except.bind, pure, Except.pure, hbool]
      rfl

/-- The number of lines is read as it was written. -/
theorem queryInt_decimal {n : Str} (hn : Str.int n < 10 ^ 9) :
    Request.queryInt (some (Codes.ofText (decimal n))) "lines".toList 200 1 100000 =
      linesOf (some n) := by
  have hne : Codes.ofText (decimal n) ≠ [] := fun h => Str.ofNat_ne_nil _ (List.map_eq_nil_iff.mp h)
  have hdigits : Request.isAsciiDigits (Codes.ofText (decimal n)) = true := by
    rw [Request.isAsciiDigits, Codes.text?_ofText]
    exact Str.isDigits_ofNat _
  have hint : Request.intOf (Codes.ofText (decimal n)) = .ok (Str.int n) := by
    have hlength : ¬Json.maxStrDigits < (Codes.ofText (decimal n)).length := by
      rw [Codes.ofText, List.length_map]
      exact Nat.not_lt.mpr (writable_nat hn)
    rw [Request.intOf, if_neg hlength, Codes.text?_ofText]
    exact congrArg _ (Str.int_ofNat _)
  rw [queryInt_digits hne hdigits hint]
  exact if_congr (by omega) rfl (by decide)

/-- `cmd_logs`. -/
theorem logs_done {args : List Str} {sent : Sent} (hsent : cmdLogs args = some sent) :
    Done env chunks (.logs args) sent := by
  obtain ⟨query, hquery, rfl⟩ := Option.map_eq_some_iff.mp hsent
  obtain ⟨fields, hfields, rfl⟩ := logsQuery_eq hquery
  rw [List.nil_append]
  intro _
  have hparam : ∀ key : String,
      env.web.queryParam (withQuery "/logs".toList (ampersands fields)) key =
        ((fields.filter fun f => f.1 = key.toList).map fun f => Utf8.decode f.2).getLast? := by
    intro key
    rw [queryParam_withQuery (by decide) hfields.keys, get_eq_getLast?, List.filter_map,
      List.map_map]
    rfl
  have hsource := hparam "source"
  rw [hfields.source] at hsource
  have hlines := hparam "lines"
  rw [hfields.lines, List.getLast?_map] at hlines
  have hint : Request.queryInt ((env.web.queryParam (withQuery "/logs".toList (ampersands fields))
      "lines").map Codes.ofText) "lines".toList 200 1 100000 =
        linesOf (args.filter fun arg => integers [arg]).getLast? := by
    rw [hlines]
    cases hlast : (args.filter fun arg => integers [arg]).getLast? with
    | none => rfl
    | some n =>
      have hn := List.mem_of_getLast? hlast
      rw [List.mem_filter] at hn
      exact queryInt_decimal (int_lt hn.2 n List.mem_cons_self)
  have hroute : handle env "GET".toList (withQuery "/logs".toList (ampersands fields)) chunks =
      some (apiLogs env (withQuery "/logs".toList (ampersands fields)) chunks) := by
    rw [handle, withQuery_path (by decide)]
    rfl
  have hresult : apiLogs env (withQuery "/logs".toList (ampersands fields)) chunks =
      (linesOf (args.filter fun arg => integers [arg]).getLast?).map
        (.logs ((args.filter isSource).getLast?.getD "emulator".toList)) := by
    unfold apiLogs
    rw [hint, hsource]
    cases linesOf (args.filter fun arg => integers [arg]).getLast? <;> rfl
  exact ⟨_, hroute.trans (congrArg some hresult), .logs args⟩

end Ctl

end AndroidAppliance
