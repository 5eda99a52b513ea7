import AndroidAppliance.Text.Str
import AndroidAppliance.Transition.Machine
import Mathlib.Data.Char
import Mathlib.Data.List.Lex
import Mathlib.Data.List.Sort
import Mathlib.Data.Prod.Lex
import Mathlib.Data.List.DropRight

/-!
# The logs of the emulator

`new_log` and `latest_log` of `appliance/emulator.py`. Every boot has a log of its own, and the
last `KEEP_LOGS` are kept. The names that are there are all that is remembered: the next number
is read off them, and old logs are removed before the new one is created, with a daemon that may
be killed between two of these steps.

`logs_rotated` compares the directory with the list of all logs that there ever were, those at
the beginning and one for each boot. What is there is its end.
-/

namespace AndroidAppliance

namespace Emulator

/-! ### `appliance/emulator.py` -/

/-- `KEEP_LOGS`. -/
def keepLogs : Nat := 5

/-- The name of the log with the number. -/
def logName (n : Nat) : Str := "emulator-".toList ++ Str.ofNat n ++ ".log".toList

/-- The number in a name that `emulator-([0-9]+).log` matches. -/
def logNumber (name : Str) : Option Nat :=
  let digits := (name.drop 9).take (name.length - 13)
  if name = "emulator-".toList ++ digits ++ ".log".toList ∧ Str.isDigits digits = true then
    some (Str.int digits)
  else none

/-- A log by its number and its name, in the order of these tuples. -/
abbrev LogEntry := Nat ×ₗ Str

/-- The number of a log, and its name behind it for the order. -/
def logEntry (name : Str) : Option LogEntry := (logNumber name).map fun n => toLex (n, name)

/-- `numbered`. -/
def numbered (dir : List Str) : List LogEntry := (dir.filterMap logEntry).insertionSort (· ≤ ·)

/-- The number of the next log. -/
def nextNumber (dir : List Str) : Nat := (numbered dir).getLast?.elim 1 fun e => (ofLex e).1 + 1

/-- The logs that `new_log` removes, one after the other. -/
def outdated (dir : List Str) : List Str :=
  ((numbered dir).take ((numbered dir).length + 1 - keepLogs)).map fun e => (ofLex e).2

/-- `path.touch()`. -/
def touch (dir : List Str) (path : Str) : List Str :=
  if dir.contains path then dir else dir ++ [path]

/-- `new_log`, and the path that it returns. -/
def newLog (dir : List Str) : List Str × Str :=
  let path := logName (nextNumber dir)
  (touch (dir.diff (outdated dir)) path, path)

/-- `latest_log`. -/
def latestLog (dir : List Str) : Option Str := (numbered dir).getLast?.map fun e => (ofLex e).2

/-! ### The directory over the boots -/

/-- The directory of the logs, and the numbers of the logs that were created. -/
structure LogDir where
  names : List Str
  nodup : names.Nodup
  made : List Nat

/-- What happens to the directory of the logs. -/
inductive LogEvent
  /-- `new_log`. -/
  | boot
  /-- The daemon is killed in `new_log`, after so many logs were removed. -/
  | killed (unlinked : Nat)
  deriving DecidableEq, Repr

theorem nodup_touch {dir : List Str} (h : dir.Nodup) (path : Str) : (touch dir path).Nodup := by
  unfold touch
  split
  · exact h
  · rename_i hnew
    exact List.nodup_append.mpr ⟨h, List.nodup_singleton _, fun a ha b hb => by
      rintro rfl
      exact hnew (List.contains_iff_mem.mpr (List.mem_singleton.mp hb ▸ ha))⟩

/-- One event. -/
def LogDir.step (d : LogDir) : LogEvent → LogDir
  | .boot =>
    { names := (newLog d.names).1
      nodup := nodup_touch (d.nodup.diff) _
      made := d.made ++ [nextNumber d.names] }
  | .killed unlinked =>
    { d with
      names := d.names.diff ((outdated d.names).take unlinked)
      nodup := d.nodup.diff }

/-- The boots from a directory. -/
def logMachine (names : List Str) : Machine LogDir LogEvent where
  Init d := d.names = names ∧ d.made = []
  step d e := some (d.step e)

variable {dir : List Str} {name : Str} {e : LogEntry} {n : Nat}

/-! ### The names -/

theorem logNumber_logName (n : Nat) : logNumber (logName n) = some n := by
  have hdrop : (logName n).drop 9 = Str.ofNat n ++ ".log".toList := by
    unfold logName
    rw [List.append_assoc]
    exact List.drop_left' (by decide)
  have hlen : (logName n).length - 13 = (Str.ofNat n).length := by
    have hfirst : "emulator-".toList.length = 9 := by decide
    have hlast : ".log".toList.length = 4 := by decide
    unfold logName
    rw [List.length_append, List.length_append, hfirst, hlast]
    omega
  unfold logNumber
  simp only [hdrop, hlen, List.take_left]
  rw [if_pos ⟨rfl, Str.isDigits_ofNat n⟩, Str.int_ofNat]

theorem logEntry_logName (n : Nat) : logEntry (logName n) = some (toLex (n, logName n)) := by
  rw [logEntry, logNumber_logName]
  rfl

theorem logEntry_eq_some : logEntry name = some e ↔
    (ofLex e).2 = name ∧ logNumber name = some (ofLex e).1 := by
  unfold logEntry
  rw [Option.map_eq_some_iff]
  constructor
  · rintro ⟨n, hn, rfl⟩
    exact ⟨rfl, hn⟩
  · rintro ⟨rfl, hn⟩
    exact ⟨_, hn, rfl⟩

theorem logEntry_inj {name' : Str} (h : logEntry name = some e) (h' : logEntry name' = some e) :
    name = name' :=
  (logEntry_eq_some.mp h).1.symm.trans (logEntry_eq_some.mp h').1

/-! ### The logs in order -/

theorem mem_numbered : e ∈ numbered dir ↔ (ofLex e).2 ∈ dir ∧ logEntry (ofLex e).2 = some e := by
  unfold numbered
  rw [List.mem_insertionSort, List.mem_filterMap]
  constructor
  · rintro ⟨name, hname, he⟩
    obtain rfl := (logEntry_eq_some.mp he).1
    exact ⟨hname, he⟩
  · rintro ⟨hname, he⟩
    exact ⟨_, hname, he⟩

theorem sorted_numbered (dir : List Str) : (numbered dir).Pairwise (· ≤ ·) :=
  List.pairwise_insertionSort _ _

theorem perm_numbered (dir : List Str) : (numbered dir).Perm (dir.filterMap logEntry) :=
  List.perm_insertionSort _ _

/-- The order decides what the sorted list is. -/
theorem numbered_eq {l : List LogEntry} (hsorted : l.Pairwise (· ≤ ·))
    (hperm : l.Perm (dir.filterMap logEntry)) : numbered dir = l :=
  ((perm_numbered dir).trans hperm.symm).eq_of_pairwise' (sorted_numbered dir) hsorted

theorem nodup_numbered (h : dir.Nodup) : (numbered dir).Nodup := by
  refine (perm_numbered dir).nodup_iff.mpr (h.filterMap fun a a' e ha ha' => ?_)
  exact logEntry_inj ha ha'

/-- **Removing** the first logs. -/
theorem numbered_diff (h : dir.Nodup) (k : Nat) :
    numbered (dir.diff (((numbered dir).take k).map fun e => (ofLex e).2)) =
      (numbered dir).drop k := by
  refine numbered_eq ((sorted_numbered dir).sublist (List.drop_sublist k _)) ?_
  rw [h.sdiff_eq_filter]
  have hnodup := nodup_numbered h
  have hnodup' : ((numbered dir).drop k).Nodup := hnodup.sublist (List.drop_sublist k _)
  have hrest : ((dir.filter fun name =>
      name ∉ ((numbered dir).take k).map fun e => (ofLex e).2).filterMap logEntry).Nodup :=
    (h.filter _).filterMap fun a a' e ha ha' => logEntry_inj ha ha'
  refine (List.perm_ext_iff_of_nodup hnodup' hrest).mpr fun e => ?_
  rw [List.mem_filterMap]
  -- an entry is either among the first ones or among the others
  have hsplit : e ∈ (numbered dir).drop k ↔
      e ∈ numbered dir ∧ e ∉ (numbered dir).take k := by
    constructor
    · intro he
      refine ⟨List.mem_of_mem_drop he, fun he' => ?_⟩
      exact List.disjoint_take_drop hnodup (le_refl k) he' he
    · rintro ⟨he, he'⟩
      rw [← List.take_append_drop k (numbered dir), List.mem_append] at he
      exact he.resolve_left he'
  rw [hsplit]
  constructor
  · rintro ⟨he, hnot⟩
    obtain ⟨hname, hentry⟩ := mem_numbered.mp he
    refine ⟨_, List.mem_filter.mpr ⟨hname, ?_⟩, hentry⟩
    simp only [decide_eq_true_eq, List.mem_map, not_exists, not_and]
    intro e' he' heq
    have hentry' := (mem_numbered.mp (List.mem_of_mem_take he')).2
    rw [heq, hentry] at hentry'
    cases hentry'
    exact hnot he'
  · rintro ⟨name, hname, hentry⟩
    obtain rfl := (logEntry_eq_some.mp hentry).1
    obtain ⟨hname, hnot⟩ := List.mem_filter.mp hname
    refine ⟨mem_numbered.mpr ⟨hname, hentry⟩, fun he => ?_⟩
    simp only [decide_eq_true_eq, List.mem_map, not_exists, not_and] at hnot
    exact hnot e he rfl

/-- **Creating** a log with a number above all others. -/
theorem numbered_concat (habove : ∀ e ∈ numbered dir, (ofLex e).1 < n) :
    numbered (dir ++ [logName n]) = numbered dir ++ [toLex (n, logName n)] := by
  refine numbered_eq ?_ ?_
  · refine List.pairwise_append.mpr ⟨sorted_numbered dir, List.pairwise_singleton _ _,
      fun e he e' he' => ?_⟩
    rw [List.mem_singleton.mp he']
    exact le_of_lt (Prod.Lex.lt_iff.mpr (.inl (habove e he)))
  · have hlast : [logName n].filterMap logEntry = [toLex (n, logName n)] :=
      List.filterMap_cons_some (logEntry_logName n)
    rw [List.filterMap_append, hlast]
    exact (perm_numbered dir).append_right _

/-- The next number is above all that are there. -/
theorem lt_nextNumber (he : e ∈ numbered dir) : (ofLex e).1 < nextNumber dir := by
  unfold nextNumber
  rcases List.eq_nil_or_concat (numbered dir) with hnil | ⟨init, last, hlast⟩
  · rw [hnil] at he
    cases he
  · rw [List.concat_eq_append] at hlast
    have hsorted := sorted_numbered dir
    rw [hlast] at he hsorted ⊢
    rw [List.getLast?_concat, Option.elim_some]
    rcases List.mem_append.mp he with hinit | hin
    · have hle := (List.pairwise_append.mp hsorted).2.2 e hinit last (List.mem_singleton_self _)
      refine Nat.lt_succ_of_le ?_
      rcases Prod.Lex.le_iff.mp hle with hlt | ⟨heq, -⟩
      · exact le_of_lt hlt
      · exact le_of_eq heq
    · rw [List.mem_singleton.mp hin]
      exact Nat.lt_succ_self _

theorem touch_new {path : Str} (h : path ∉ dir) : touch dir path = dir ++ [path] :=
  if_neg fun hmem => h (List.contains_iff_mem.mp hmem)

/-- **A boot** removes all but the last four logs, and creates one with the next number. -/
theorem numbered_newLog (h : dir.Nodup) : numbered (newLog dir).1 =
    (numbered dir).drop ((numbered dir).length + 1 - keepLogs) ++
      [toLex (nextNumber dir, logName (nextNumber dir))] := by
  have hkept := numbered_diff h ((numbered dir).length + 1 - keepLogs)
  have habove : ∀ e ∈ numbered (dir.diff (outdated dir)), (ofLex e).1 < nextNumber dir := by
    intro e he
    unfold outdated at he
    rw [hkept] at he
    exact lt_nextNumber (List.mem_of_mem_drop he)
  have hnew : logName (nextNumber dir) ∉ dir.diff (outdated dir) := by
    intro hold
    have hmem : toLex (nextNumber dir, logName (nextNumber dir)) ∈
        numbered (dir.diff (outdated dir)) :=
      mem_numbered.mpr ⟨hold, logEntry_logName (nextNumber dir)⟩
    exact lt_irrefl _ (habove _ hmem)
  change numbered (touch (dir.diff (outdated dir)) (logName (nextNumber dir))) = _
  rw [touch_new hnew, numbered_concat habove]
  exact congrArg (· ++ _) hkept

/-! ### All logs that there ever were -/

/-- The logs at the beginning, and one for each boot. -/
def allLogs (names : List Str) (d : LogDir) : List LogEntry :=
  numbered names ++ d.made.map fun n => toLex (n, logName n)

/-- The files that are no logs. -/
def others (dir : List Str) : List Str := dir.filter fun name => (logEntry name).isNone

/-- What is there, of a directory that held `names` at the beginning. -/
structure Rotated (names : List Str) (d : LogDir) : Prop where
  /-- No boot gets the number of another log. -/
  rising : (d.made).Pairwise (· < ·)
  above : ∀ e ∈ numbered names, ∀ n ∈ d.made, (ofLex e).1 < n
  /-- Nothing but old logs is removed. -/
  suffix : numbered d.names <:+ allLogs names d
  /-- The last ones are kept, also when the daemon is killed. -/
  kept : min (keepLogs - 1) (allLogs names d).length ≤ (numbered d.names).length
  others : others d.names = others names

/-- What a boot leaves. -/
structure Booted (names : List Str) (d d' : LogDir) : Prop where
  /-- The log of the boot is a new file. -/
  fresh : (newLog d.names).2 ∉ d.names
  last : (allLogs names d').getLast? =
    some (toLex (nextNumber d.names, (newLog d.names).2))
  /-- Exactly the last `KEEP_LOGS` are there. -/
  numbered : numbered d'.names = (allLogs names d').rtake keepLogs
  latest : latestLog d'.names = some (newLog d.names).2

variable {names : List Str} {d d' : LogDir} {ev : LogEvent}

theorem others_diff (h : dir.Nodup) {old : List LogEntry} (hold : ∀ e ∈ old, e ∈ numbered dir) :
    others (dir.diff (old.map fun e => (ofLex e).2)) = others dir := by
  unfold others
  rw [h.sdiff_eq_filter, List.filter_filter]
  refine List.filter_congr fun name _ => ?_
  rw [Bool.and_eq_left_iff_imp]
  intro hnone
  simp only [decide_eq_true_eq, List.mem_map, not_exists, not_and]
  rintro e he rfl
  rw [(mem_numbered.mp (hold e he)).2] at hnone
  cases hnone

theorem others_touch (dir : List Str) (n : Nat) : others (touch dir (logName n)) = others dir := by
  unfold touch others
  split
  · rfl
  · rw [List.filter_append, List.filter_cons_of_neg, List.filter_nil, List.append_nil]
    rw [logEntry_logName]
    exact Bool.false_ne_true

theorem logName_not_mem (dir : List Str) : logName (nextNumber dir) ∉ dir := by
  intro hmem
  have hnumbered : toLex (nextNumber dir, logName (nextNumber dir)) ∈ numbered dir :=
    mem_numbered.mpr ⟨hmem, logEntry_logName _⟩
  exact lt_irrefl _ (lt_nextNumber hnumbered)

/-- The next number is above all that there ever were: the last one is still there. -/
theorem Rotated.above_all (h : Rotated names d) :
    ∀ e ∈ allLogs names d, (ofLex e).1 < nextNumber d.names := by
  intro e he
  obtain ⟨gone, hgone⟩ := h.suffix
  have hsorted : (allLogs names d).Pairwise fun e e' => (ofLex e).1 ≤ (ofLex e').1 := by
    refine List.pairwise_append.mpr ⟨?_, ?_, fun e he e' he' => ?_⟩
    · refine (sorted_numbered names).imp fun hle => ?_
      rcases Prod.Lex.le_iff.mp hle with hlt | ⟨heq, -⟩
      · exact le_of_lt hlt
      · exact le_of_eq heq
    · exact List.pairwise_map.mpr (h.rising.imp le_of_lt)
    · obtain ⟨n, hn, rfl⟩ := List.mem_map.mp he'
      exact le_of_lt (h.above e he n hn)
  rw [← hgone] at he hsorted
  rcases List.mem_append.mp he with hin | hin
  · -- some log is still there, and it is above those that are gone
    have hpos : numbered d.names ≠ [] := by
      intro hnil
      have hkept := h.kept
      rw [hnil, List.length_nil, Nat.le_zero, ← hgone, List.length_append] at hkept
      have hlen : 0 < gone.length := List.length_pos_of_mem hin
      have hfour : keepLogs - 1 = 4 := rfl
      omega
    obtain ⟨e', he'⟩ := List.exists_mem_of_ne_nil _ hpos
    exact lt_of_le_of_lt ((List.pairwise_append.mp hsorted).2.2 e hin e' he') (lt_nextNumber he')
  · exact lt_nextNumber hin

theorem allLogs_boot (names : List Str) (d : LogDir) : allLogs names (d.step .boot) =
    allLogs names d ++ [toLex (nextNumber d.names, logName (nextNumber d.names))] := by
  unfold allLogs LogDir.step
  rw [List.map_append, List.append_assoc]
  rfl

/-- A part at the end is given by its length. -/
theorem eq_rtake {l l' : List LogEntry} (h : l <:+ l') : l = l'.rtake l.length := by
  rw [List.rtake, ← List.suffix_iff_eq_drop]
  exact h

/-- After a boot exactly the last `KEEP_LOGS` are there. -/
theorem Rotated.numbered_boot (h : Rotated names d) : numbered (d.step .boot).names =
    (allLogs names (d.step .boot)).rtake keepLogs := by
  have hnew : numbered (d.step .boot).names = _ := numbered_newLog d.nodup
  have hsuffix : numbered (d.step .boot).names <:+ allLogs names (d.step .boot) := by
    rw [hnew, allLogs_boot]
    obtain ⟨gone, hgone⟩ := (List.drop_suffix _ _).trans h.suffix
    exact ⟨gone, by rw [← List.append_assoc, hgone]⟩
  rw [eq_rtake hsuffix]
  -- it is as long as it can be
  have hlen := congrArg List.length hnew
  rw [List.length_append, List.length_drop, List.length_singleton] at hlen
  have hall := congrArg List.length (allLogs_boot names d)
  rw [List.length_append, List.length_singleton] at hall
  have hkept := h.kept
  have hle := h.suffix.length_le
  have hkeep : keepLogs = 5 := rfl
  rw [List.rtake, List.rtake]
  congr 1
  omega

theorem Rotated.boot (h : Rotated names d) : Rotated names (d.step .boot) := by
  refine ⟨?_, fun e he n hn => ?_, ?_, ?_, ?_⟩
  · refine List.pairwise_append.mpr ⟨h.rising, List.pairwise_singleton _ _, fun n hn n' hn' => ?_⟩
    rw [List.mem_singleton.mp hn']
    exact h.above_all (toLex (n, logName n))
      (List.mem_append_right _ (List.mem_map.mpr ⟨n, hn, rfl⟩))
  · rcases List.mem_append.mp hn with hold | hnew
    · exact h.above e he n hold
    · rw [List.mem_singleton.mp hnew]
      exact h.above_all e (List.mem_append_left _ he)
  · rw [h.numbered_boot]
    exact List.drop_suffix _ _
  · rw [h.numbered_boot, List.rtake, List.length_drop]
    have hkeep : keepLogs = 5 := rfl
    omega
  · have hdiff : Emulator.others (d.names.diff (outdated d.names)) = Emulator.others d.names :=
      others_diff d.nodup fun e he => List.mem_of_mem_take he
    exact ((others_touch _ _).trans hdiff).trans h.others

theorem Rotated.killed (h : Rotated names d) (unlinked : Nat) :
    Rotated names (d.step (.killed unlinked)) := by
  have hnames : (d.step (.killed unlinked)).names = d.names.diff (((numbered d.names).take
      (min unlinked ((numbered d.names).length + 1 - keepLogs))).map fun e => (ofLex e).2) := by
    rw [← List.take_take, List.map_take]
    rfl
  have hnumbered : numbered (d.step (.killed unlinked)).names = (numbered d.names).drop
      (min unlinked ((numbered d.names).length + 1 - keepLogs)) := by
    rw [hnames, numbered_diff d.nodup]
  refine ⟨h.rising, h.above, ?_, ?_, ?_⟩
  · rw [hnumbered]
    exact (List.drop_suffix _ _).trans h.suffix
  · rw [hnumbered, List.length_drop]
    have hkept : min (keepLogs - 1) (allLogs names d).length ≤ (numbered d.names).length := h.kept
    change min (keepLogs - 1) (allLogs names d).length ≤ _
    have hkeep : keepLogs = 5 := rfl
    omega
  · rw [hnames]
    exact (others_diff d.nodup fun e he => List.mem_of_mem_take he).trans h.others

/-- **The logs are rotated**: over any boots, of which any may be cut short, from a directory
with any names, and after a boot exactly the last five of all logs are there. -/
theorem logs_rotated {names : List Str} {d : LogDir} (h : (logMachine names).Reachable d) :
    Rotated names d ∧ Booted names d (d.step .boot) := by
  have hrotated : Rotated names d := by
    refine h.invariant (I := Rotated names) (fun d hd => ?_) fun d ev d' hd _ hstep => ?_
    · obtain ⟨hnames, hmade⟩ := hd
      have hall : allLogs names d = numbered d.names := by
        rw [allLogs, hmade, hnames]
        exact List.append_nil _
      refine ⟨?_, ?_, ?_, ?_, ?_⟩
      · rw [hmade]
        exact List.Pairwise.nil
      · rw [hmade]
        exact fun e _ n hn => absurd hn List.not_mem_nil
      · exact hall.symm ▸ List.suffix_rfl
      · rw [hall]
        exact min_le_right _ _
      · rw [hnames]
    · cases hstep
      cases ev with
      | boot => exact hd.boot
      | killed unlinked => exact hd.killed unlinked
  refine ⟨hrotated, logName_not_mem d.names, ?_, hrotated.numbered_boot, ?_⟩
  · rw [allLogs_boot, List.getLast?_concat]
    rfl
  · have hnew : numbered (d.step .boot).names = _ := numbered_newLog d.nodup
    unfold latestLog
    rw [hnew, List.getLast?_concat]
    rfl

/-- A log with a zero in front, a file that is no log, and a boot that is cut short. -/
def rotatedNames : List Str :=
  ["emulator-12.log".toList, "emulator-9.log".toList, "notes.log".toList,
    "emulator-011.log".toList, "emulator-10.log".toList, "emulator-8.log".toList]

/-- The directory with these files, before any boot. -/
def rotatedStart : LogDir := ⟨rotatedNames, by decide, []⟩

theorem logs_rotated_killed : ∃ d : LogDir, d.names.length = 5 ∧
    Rotated rotatedNames d ∧ Booted rotatedNames d (d.step .boot) := by
  obtain ⟨d, hrun, hlen⟩ : ∃ d, (logMachine rotatedNames).run rotatedStart [.killed 1] = some d ∧
      d.names.length = 5 := ⟨_, rfl, by decide +kernel⟩
  exact ⟨d, hlen, logs_rotated (.of_run (.init ⟨rfl, rfl⟩) hrun)⟩

end Emulator

end AndroidAppliance
