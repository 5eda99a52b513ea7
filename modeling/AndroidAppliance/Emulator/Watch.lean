import AndroidAppliance.Emulator.Log
import AndroidAppliance.Transition.Machine

/-!
# The lines that the log watcher tests

`_watch_log` of `appliance/emulator.py` with the file that it reads. The log grows between two
rounds, by any bytes; there may be no file at the path for a while; and at any time `stop` begins,
the process exits, or the log becomes unreadable. A run is any order of these with the rounds of
the watcher, so the log is cut into reads anywhere.

What a round leaves to the next one is the offset and the unfinished line. They stay consistent
(`Inv.step`), so the lines that are tested are those of what has been read, until the watcher kills
the process (`tested_once`). The lines behind the one that it kills the process for are not tested,
although they have been read (`untested_behind`).

Every division of a log is a run (`reachable_watch`); the line that `watch` finds is therefore the
first one that matches (`watch_firstLine`).
-/

namespace AndroidAppliance

namespace Log

open Supervisor

/-- The lines that a newline ends. -/
def lines (text : Bytes) : List Str := (Records.complete isNewline text).map Utf8.decode

/-- `_watch_log` and what it sees. -/
structure WatchLog where
  /-- The bytes that the emulator wrote. -/
  log : Bytes
  /-- `log_path` is the file with them; otherwise there is none. -/
  linked : Bool
  offset : Nat
  pending : Bytes
  emu : Emu
  /-- The lines for which `HANG_LINE.search` was called, in order. -/
  tested : List Str
  /-- The offset at which `stop` began. -/
  stoppedAt : Option Nat
  deriving DecidableEq, Repr

namespace WatchLog

/-- What happens to the emulator and to its log. -/
inductive Label
  | write (data : Bytes)
  | link (linked : Bool)
  /-- One round of the loop, or its end. -/
  | round
  /-- A round in which the file cannot be read. -/
  | unreadable
  | stop
  | exit (code : Int)
  deriving DecidableEq, Repr

/-- The watcher of a new emulator. -/
def new (gen : Nat) (log : Bytes) (linked : Bool) : WatchLog where
  log := log
  linked := linked
  offset := 0
  pending := []
  emu := .launched gen
  tested := []
  stoppedAt := none

/-- The lines of a round, and those of them that it tests. -/
def testLines (word : Char → Bool) (m : Emu) : List Bytes → Emu × List Str
  | [] => (m, [])
  | raw :: raws =>
    let line := Utf8.decode raw
    if search word line && !m.stopping then (killed m (Str.strip line), [line])
    else
      let rest := testLines word m raws
      (rest.1, line :: rest.2)

variable (s : WatchLog)

/-- The emulator writes. -/
def grow (data : Bytes) : WatchLog := { s with log := s.log ++ data }

/-- What the file has behind the offset. -/
def chunk : Bytes := if s.linked then s.log.drop s.offset else []

/-- What is left of a round: the new offset, the unfinished line, and what became of the others. -/
def advance (result : Emu × List Str) : WatchLog :=
  { s with
    offset := s.offset + s.chunk.length
    pending := Records.pending isNewline (s.pending ++ s.chunk)
    emu := result.1
    tested := s.tested ++ result.2 }

/-- One round of `_watch_log`. -/
def round (word : Char → Bool) : Option WatchLog :=
  if s.emu.log ≠ .running then none
  else if s.emu.returncode.isSome then some { s with emu := { s.emu with log := .ended } }
  else some (s.advance
    (testLines word s.emu (Records.complete isNewline (s.pending ++ s.chunk))))

/-- One event; `none` when it cannot happen. -/
def step (word : Char → Bool) : Label → Option WatchLog
  | .write data => some (s.grow data)
  | .link linked => some { s with linked }
  | .round => s.round word
  | .unreadable => (s.emu.readLog .failed).map fun emu => { s with emu }
  | .stop => some { s with
      emu := { s.emu with stopping := true }
      stoppedAt := s.stoppedAt.or (some s.offset) }
  | .exit code => (s.emu.exit code).map fun emu => { s with emu }

/-- The same watcher without its file. -/
def watcher : Watcher := { emu := s.emu, pending := s.pending }

/-- What has been read so far. -/
def read : Bytes := s.log.take s.offset

/-- What was read before `stop` began. -/
def awake : Bytes := s.log.take (s.stoppedAt.getD s.offset)

end WatchLog

open WatchLog

/-- The watcher of one emulator, with the class `\w` of the pattern. -/
def watching (word : Char → Bool) : Machine WatchLog Label where
  Init s := ∃ gen log linked, s = .new gen log linked
  step s := s.step word

variable {word : Char → Bool} {m : Emu} {raws chunks : List Bytes} {line : Str} {s t : WatchLog}

theorem lines_append (a b : Bytes) :
    lines (a ++ b) = lines a ++ lines (Records.pending isNewline a ++ b) := by
  rw [lines, Records.complete_append, List.map_append]
  rfl

@[simp]
theorem lines_nil : lines [] = [] := rfl

/-! ### The lines of one round -/

/-- When the emulator is stopping, or no line matches, all lines are tested. -/
theorem testLines_all
    (h : m.stopping = true ∨ ∀ line ∈ raws.map Utf8.decode, search word line = false) :
    testLines word m raws = (m, raws.map Utf8.decode) := by
  induction raws with
  | nil => rfl
  | cons raw raws ih =>
    have hraw : ¬(search word (Utf8.decode raw) && !m.stopping) = true := by
      obtain h | h := h
      · simp [h]
      · simp [h (Utf8.decode raw) List.mem_cons_self]
    have hraws := ih (h.imp_right fun h line hline => h line (List.mem_cons_of_mem _ hline))
    rw [testLines, if_neg hraw, hraws]
    rfl

/-- Otherwise the first one that matches is the last that is tested. -/
theorem testLines_hang (hm : m.stopping = false)
    (h : (raws.map Utf8.decode).find? (search word) = some line) : testLines word m raws =
      (killed m (Str.strip line), Records.through (search word) (raws.map Utf8.decode)) := by
  induction raws with
  | nil => cases h
  | cons raw raws ih =>
    rw [List.map_cons] at h ⊢
    cases hraw : search word (Utf8.decode raw) with
    | true =>
      rw [List.find?_cons_of_pos hraw] at h
      cases h
      rw [testLines, if_pos (by rw [hraw, hm]; rfl), Records.through_cons_of_pos hraw]
    | false =>
      rw [List.find?_cons_of_neg (Bool.eq_false_iff.mp hraw)] at h
      have hneg : ¬(search word (Utf8.decode raw) && !m.stopping) = true := by simp [hraw]
      rw [testLines, if_neg hneg, ih h, Records.through_cons_of_neg hraw]

/-! ### The invariant -/

theorem awake_eq_read (h : s.stoppedAt = none) : s.awake = s.read := by
  rw [WatchLog.awake, h]
  rfl

/-- What has been read stays the same when the log grows. -/
theorem read_grow (h : s.offset ≤ s.log.length) (data : Bytes) : (s.grow data).read = s.read :=
  List.take_append_of_le_length h

theorem find?_lines_eq_none {text : Bytes} : (lines text).find? (search word) = none ↔
    ∀ line ∈ lines text, search word line = false := by
  simp only [List.find?_eq_none, Bool.not_eq_true]

/-- What holds between two steps: the offset and `pending` fit to what has been read, and the
lines tested and `hang_line` to its lines. -/
structure Inv (word : Char → Bool) (s : WatchLog) : Prop where
  offset_le : s.offset ≤ s.log.length
  stoppedAt_le : s.stoppedAt.getD s.offset ≤ s.offset
  stopping : s.emu.stopping = s.stoppedAt.isSome
  pending : s.pending = Records.pending isNewline s.read
  running : s.emu.log = .running → s.emu.hangLine = none
  hang : s.emu.hangLine =
    ((lines s.awake).find? (search word)).map fun line => String.ofList (Str.strip line)
  quiet : (lines s.awake).find? (search word) = none → s.tested = lines s.read
  loud : ∀ line, (lines s.awake).find? (search word) = some line →
    s.tested = Records.through (search word) (lines s.awake)

namespace Inv

theorem new (gen : Nat) (log : Bytes) (linked : Bool) : Inv word (.new gen log linked) where
  offset_le := Nat.zero_le _
  stoppedAt_le := Nat.le_refl _
  stopping := rfl
  pending := Records.pending_nil.symm
  running _ := rfl
  hang := rfl
  quiet _ := rfl
  loud _ hline := by cases hline

/-- While the watcher runs, it has tested every line that it read. -/
theorem tested_of_running (h : Inv word s) (hrun : s.emu.log = .running) :
    (lines s.awake).find? (search word) = none ∧ s.tested = lines s.read := by
  have hnone : (lines s.awake).find? (search word) = none :=
    Option.map_eq_none_iff.mp (h.hang.symm.trans (h.running hrun))
  exact ⟨hnone, h.quiet hnone⟩

/-- A step that reads nothing. -/
theorem frame (h : Inv word s) (hread : t.read = s.read) (hawake : t.awake = s.awake)
    (hpending : t.pending = s.pending) (htested : t.tested = s.tested)
    (hhang : t.emu.hangLine = s.emu.hangLine)
    (hrunning : t.emu.log = .running → s.emu.log = .running) (hoffset : t.offset ≤ t.log.length)
    (hstoppedAt : t.stoppedAt.getD t.offset ≤ t.offset)
    (hstopping : t.emu.stopping = t.stoppedAt.isSome) : Inv word t where
  offset_le := hoffset
  stoppedAt_le := hstoppedAt
  stopping := hstopping
  pending := by rw [hpending, hread, h.pending]
  running hrun := hhang.trans (h.running (hrunning hrun))
  hang := by rw [hhang, hawake, h.hang]
  quiet := by
    rw [hawake, htested, hread]
    exact h.quiet
  loud := by
    rw [hawake, htested]
    exact h.loud

/-- A step of the emulator that leaves the watcher as it is, or ends it. -/
theorem emu (h : Inv word s) (hstopping : m.stopping = s.emu.stopping)
    (hhang : m.hangLine = s.emu.hangLine) (hlog : m.log = .running → s.emu.log = .running) :
    Inv word { s with emu := m } :=
  h.frame rfl rfl rfl rfl hhang hlog h.offset_le h.stoppedAt_le (hstopping.trans h.stopping)

theorem grow (h : Inv word s) (data : Bytes) : Inv word (s.grow data) := by
  have hawake : (s.grow data).awake = s.awake :=
    List.take_append_of_le_length (h.stoppedAt_le.trans h.offset_le)
  have hoffset : (s.grow data).offset ≤ (s.grow data).log.length := by
    rw [WatchLog.grow, List.length_append]
    exact Nat.le_add_right_of_le h.offset_le
  exact h.frame (read_grow h.offset_le data) hawake rfl rfl rfl id hoffset h.stoppedAt_le h.stopping

/-- From the beginning of `stop` on, what was read before it stays the same. -/
theorem stop (h : Inv word s) : Inv word { s with
    emu := { s.emu with stopping := true }
    stoppedAt := s.stoppedAt.or (some s.offset) } := by
  have hgetD : (s.stoppedAt.or (some s.offset)).getD s.offset = s.stoppedAt.getD s.offset := by
    cases s.stoppedAt with
    | none => rfl
    | some k => rfl
  have hisSome : (s.stoppedAt.or (some s.offset)).isSome = true := by
    rw [Option.isSome_or, Option.isSome_some, Bool.or_true]
  exact h.frame rfl (congrArg s.log.take hgetD) rfl rfl rfl id h.offset_le
    (hgetD.trans_le h.stoppedAt_le) hisSome.symm

end Inv

/-! ### A round -/

theorem read_advance (s : WatchLog) (result : Emu × List Str) :
    (s.advance result).read = s.read ++ s.chunk := by
  change s.log.take (s.offset + s.chunk.length) = s.log.take s.offset ++ s.chunk
  rw [List.take_add, WatchLog.chunk]
  split
  · rw [List.take_length]
  · rw [List.length_nil, List.take_zero]

theorem offset_add_chunk_le (h : s.offset ≤ s.log.length) :
    s.offset + s.chunk.length ≤ s.log.length := by
  rw [WatchLog.chunk]
  split
  · rw [List.length_drop]
    omega
  · exact h

theorem round_cases (h : s.round word = some t) : s.emu.log = .running ∧
    (s.emu.returncode ≠ none ∧ t = { s with emu := { s.emu with log := .ended } } ∨
      s.emu.returncode = none ∧ t = s.advance
        (testLines word s.emu (Records.complete isNewline (s.pending ++ s.chunk)))) := by
  rw [WatchLog.round] at h
  split at h
  · cases h
  · rename_i hrun
    refine ⟨not_not.mp hrun, ?_⟩
    split at h
    · rename_i hcode
      exact .inl ⟨Option.isSome_iff_ne_none.mp hcode, (Option.some_inj.mp h).symm⟩
    · rename_i hcode
      exact .inr ⟨Option.not_isSome_iff_eq_none.mp hcode, (Option.some_inj.mp h).symm⟩

/-- An unreadable log ends the watcher, and nothing else. -/
theorem readLog_failed {m' : Emu} (h : m.readLog .failed = some m') :
    ∃ log, m' = { m with log } ∧ log ≠ .running := by
  rw [Emu.readLog] at h
  split at h
  · cases h
  · split at h
    · exact ⟨.ended, (Option.some_inj.mp h).symm, LogTask.noConfusion⟩
    · exact ⟨.failed, (Option.some_inj.mp h).symm, LogTask.noConfusion⟩

namespace Inv

variable {result : Emu × List Str}

/-- The lines that a round completes come behind those before it. -/
theorem lines_advance (h : Inv word s) :
    lines (s.advance result).read = lines s.read ++ lines (s.pending ++ s.chunk) := by
  rw [read_advance, h.pending, lines_append]

theorem pending_advance (h : Inv word s) :
    (s.advance result).pending = Records.pending isNewline (s.advance result).read := by
  rw [read_advance, Records.pending_append, ← h.pending]
  rfl

theorem stoppedAt_advance_le (h : Inv word s) :
    (s.advance result).stoppedAt.getD (s.advance result).offset ≤ (s.advance result).offset := by
  have hle := h.stoppedAt_le
  change s.stoppedAt.getD (s.offset + s.chunk.length) ≤ s.offset + s.chunk.length
  cases hk : s.stoppedAt with
  | none => exact Nat.le_refl _
  | some k =>
    rw [hk] at hle
    exact Nat.le_add_right_of_le hle

theorem stoppedAt_eq_none (h : Inv word s) (hstop : s.emu.stopping = false) :
    s.stoppedAt = none := by
  rw [← Option.not_isSome_iff_eq_none, ← h.stopping, hstop]
  exact Bool.false_ne_true

/-- Before `stop`, all that is read is read awake. -/
theorem awake_advance (h : Inv word s) (hstop : s.emu.stopping = false) :
    lines (s.advance result).awake = lines s.awake ++ lines (s.pending ++ s.chunk) := by
  have hnone := h.stoppedAt_eq_none hstop
  have hafter : (s.advance result).awake = (s.advance result).read := awake_eq_read hnone
  rw [hafter, awake_eq_read hnone, h.lines_advance]

/-- From then on, nothing is. -/
theorem awake_advance_stopping (h : Inv word s) (hstop : s.emu.stopping = true) :
    (s.advance result).awake = s.awake := by
  obtain ⟨k, hk⟩ := Option.isSome_iff_exists.mp (h.stopping.symm.trans hstop)
  rw [WatchLog.awake, WatchLog.awake, WatchLog.advance, hk]
  rfl

/-- The first line that matches, of a running watcher: it can only be in this round. -/
theorem find?_advance (h : Inv word s) (hrun : s.emu.log = .running) :
    (lines (s.advance result).awake).find? (search word) =
      if s.emu.stopping then none else (lines (s.pending ++ s.chunk)).find? (search word) := by
  have hnone := (h.tested_of_running hrun).1
  cases hstop : s.emu.stopping with
  | true => rw [h.awake_advance_stopping hstop, hnone, if_pos rfl]
  | false =>
    rw [h.awake_advance hstop, List.find?_append, hnone, Option.none_or]
    rfl

/-- A round that tests all of its lines. -/
theorem advance_all (h : Inv word s) (hrun : s.emu.log = .running)
    (hall : s.emu.stopping = true ∨
      ∀ line ∈ lines (s.pending ++ s.chunk), search word line = false) :
    Inv word (s.advance (s.emu, lines (s.pending ++ s.chunk))) := by
  have hnone : (lines (s.advance (s.emu, lines (s.pending ++ s.chunk))).awake).find?
      (search word) = none := by
    rw [h.find?_advance hrun]
    obtain hstop | hquiet := hall
    · rw [hstop, if_pos rfl]
    · rw [find?_lines_eq_none.mpr hquiet, ite_self]
  have htested := (h.tested_of_running hrun).2
  exact {
    offset_le := offset_add_chunk_le h.offset_le
    stoppedAt_le := h.stoppedAt_advance_le
    stopping := h.stopping
    pending := h.pending_advance
    running := h.running
    hang := by
      rw [hnone]
      exact h.running hrun
    quiet := fun _ => by
      rw [h.lines_advance, ← htested]
      rfl
    loud := fun line hline => by
      rw [hnone] at hline
      cases hline }

/-- A round with a line that matches, which is the last one tested. -/
theorem advance_hang (h : Inv word s) (hrun : s.emu.log = .running)
    (hstop : s.emu.stopping = false)
    (hfind : (lines (s.pending ++ s.chunk)).find? (search word) = some line) :
    Inv word (s.advance (killed s.emu (Str.strip line),
      Records.through (search word) (lines (s.pending ++ s.chunk)))) := by
  obtain ⟨hnone, htested⟩ := h.tested_of_running hrun
  have hsome {result : Emu × List Str} :
      (lines (s.advance result).awake).find? (search word) = some line := by
    rw [h.find?_advance hrun, hstop, hfind]
    rfl
  exact {
    offset_le := offset_add_chunk_le h.offset_le
    stoppedAt_le := h.stoppedAt_advance_le
    stopping := h.stopping
    pending := h.pending_advance
    running := fun hended => by cases hended
    hang := by
      rw [hsome]
      rfl
    quiet := fun hquiet => by
      rw [hsome] at hquiet
      cases hquiet
    loud := fun _ _ => by
      -- nothing before this round matched, so all of it was tested
      rw [h.awake_advance hstop, Records.through_append (find?_lines_eq_none.mp hnone)]
      rw [awake_eq_read (h.stoppedAt_eq_none hstop), ← htested]
      rfl }

/-- The two cases of a round are those of its first line that matches. -/
theorem advance (h : Inv word s) (hrun : s.emu.log = .running) : Inv word (s.advance
    (testLines word s.emu (Records.complete isNewline (s.pending ++ s.chunk)))) := by
  cases hstop : s.emu.stopping with
  | true =>
    rw [testLines_all (.inl hstop)]
    exact h.advance_all hrun (.inl hstop)
  | false =>
    cases hfind : (lines (s.pending ++ s.chunk)).find? (search word) with
    | none =>
      have hquiet := find?_lines_eq_none.mp hfind
      rw [testLines_all (.inr hquiet)]
      exact h.advance_all hrun (.inr hquiet)
    | some line =>
      rw [testLines_hang hstop hfind]
      exact h.advance_hang hrun hstop hfind

/-- **Every step keeps the offset, the unfinished line and the lines tested consistent.** -/
theorem step (h : Inv word s) {e : Label} (hs : s.step word e = some t) : Inv word t := by
  cases e with
  | write data =>
    obtain rfl := Option.some_inj.mp hs
    exact h.grow data
  | link linked =>
    obtain rfl := Option.some_inj.mp hs
    exact h.frame rfl rfl rfl rfl rfl id h.offset_le h.stoppedAt_le h.stopping
  | round =>
    obtain ⟨hrun, ⟨-, rfl⟩ | ⟨-, rfl⟩⟩ := round_cases hs
    · exact h.emu rfl rfl fun hended => by cases hended
    · exact h.advance hrun
  | unreadable =>
    obtain ⟨m, hm, rfl⟩ := Option.map_eq_some_iff.mp hs
    obtain ⟨log, rfl, hlog⟩ := readLog_failed hm
    exact h.emu rfl rfl fun hrun => absurd hrun hlog
  | stop =>
    obtain rfl := Option.some_inj.mp hs
    exact h.stop
  | exit code =>
    obtain ⟨m, hm, rfl⟩ := Option.map_eq_some_iff.mp hs
    rw [Emu.exit, Option.ite_none_right_eq_some] at hm
    obtain ⟨-, hm⟩ := hm
    obtain rfl := Option.some_inj.mp hm
    exact h.emu rfl rfl id

theorem of_reachable (h : (watching word).Reachable s) : Inv word s := by
  refine h.invariant ?_ fun _ _ _ hi _ hstep => hi.step hstep
  rintro _ ⟨gen, log, linked, rfl⟩
  exact .new gen log linked

end Inv

/-! ### Every line once -/

/-- What the watcher does with the lines of what it has read. -/
structure TestedOnce (word : Char → Bool) (s : WatchLog) : Prop where
  /-- No line that was read before `stop` matches: all lines are tested, each once and in order. -/
  all : (∀ line ∈ lines s.awake, search word line = false) → s.tested = lines s.read
  /-- The first line of them that matches is the last one that is tested. -/
  upTo : ∀ before line after, lines s.awake = before ++ line :: after →
    (∀ l ∈ before, search word l = false) → search word line = true →
    s.tested = before ++ [line]
  hangLine : s.emu.hangLine =
    ((lines s.awake).find? (search word)).map fun line => String.ofList (Str.strip line)

theorem Inv.testedOnce (h : Inv word s) : TestedOnce word s where
  all hall := h.quiet (find?_lines_eq_none.mpr hall)
  upTo before line after hlines hbefore hline := by
    have hfind : (lines s.awake).find? (search word) = some line := by
      rw [hlines, List.find?_append, List.find?_cons_of_pos hline]
      rw [List.find?_eq_none.mpr fun l hl => Bool.eq_false_iff.mp (hbefore l hl), Option.none_or]
    rw [h.loud line hfind, hlines, Records.through_cut hbefore hline]
  hangLine := h.hang

/-- Two watchers that have read the same have done the same. -/
theorem Inv.unique (h : Inv word s) (h' : Inv word t) (hread : t.read = s.read)
    (hawake : t.awake = s.awake) : t.tested = s.tested ∧ t.emu.hangLine = s.emu.hangLine := by
  refine ⟨?_, by rw [h'.hang, h.hang, hawake]⟩
  cases hfind : (lines s.awake).find? (search word) with
  | none => rw [h.quiet hfind, h'.quiet (hawake ▸ hfind), hread]
  | some line => rw [h.loud line hfind, h'.loud line (hawake ▸ hfind), hawake]

/-- **The watcher tests every line once, however the log grows**, up to the one that it kills the
process for. What it has tested and found is a function of what it has read. -/
theorem tested_once (h : (watching word).Reachable s) : TestedOnce word s ∧
    ∀ t, (watching word).Reachable t → t.read = s.read → t.awake = s.awake →
      t.tested = s.tested ∧ t.emu.hangLine = s.emu.hangLine :=
  ⟨(Inv.of_reachable h).testedOnce,
    fun _ ht => (Inv.of_reachable h).unique (Inv.of_reachable ht)⟩

/-- A log that is read in parts, cut inside a character and inside the word of the refusal, with
reads that find nothing or no file. -/
def parts : List Label :=
  [.round, .write [0x78, 0xC3], .round, .link false, .round, .write [0xA9, 0x0A], .link true,
    .round, .write (refusal.take 3), .round, .round, .write (refusal.drop 3), .round]

/-- The same log, read at once. -/
def whole : List Label := [.write ([0x78, 0xC3, 0xA9, 0x0A] ++ refusal), .round]

theorem tested_once_parts : ∃ s t, (watching asciiWord).run (.new 0 [] true) parts = some s ∧
    (watching asciiWord).run (.new 0 [] true) whole = some t ∧ TestedOnce asciiWord s ∧
    s.tested = ["xé".toList, "FATAL | no GPU".toList] ∧
    s.emu.hangLine = some "FATAL | no GPU" ∧
    t.tested = s.tested ∧ t.emu.hangLine = s.emu.hangLine := by
  have hinit : (watching asciiWord).Reachable (.new 0 [] true) := .init ⟨0, [], true, rfl⟩
  obtain ⟨s, hs⟩ : ∃ s, (watching asciiWord).run (.new 0 [] true) parts = some s := ⟨_, rfl⟩
  obtain ⟨t, ht⟩ : ∃ t, (watching asciiWord).run (.new 0 [] true) whole = some t := ⟨_, rfl⟩
  obtain ⟨honce, hunique⟩ := tested_once (hinit.of_run hs)
  have hsame := hunique t (hinit.of_run ht)
  cases hs
  cases ht
  exact ⟨_, _, rfl, rfl, honce, by decide, by decide, hsame (by decide) (by decide)⟩

/-- The line behind the refusal is read in the same round, but not tested: the watcher has killed
the process and returned. -/
theorem untested_behind : ∃ s, (watching asciiWord).run (.new 0 [] true)
    [.write (refusal ++ bytes "x\n".toList), .round] = some s ∧
    lines s.read = ["FATAL | no GPU".toList, "x".toList] ∧ s.tested ≠ lines s.read := by
  refine ⟨_, rfl, ?_, ?_⟩
  · decide
  · decide

/-! ### The watcher of `Watcher.read` -/

/-- The loop over the lines of a round does to the emulator what its first line that matches
does. -/
theorem readLog_lines (hrun : m.log = .running) (hcode : m.returncode = none) :
    m.readLog (.lines ((((raws.map Utf8.decode).find? (search word)).map Str.strip).map
      String.ofList)) = some (testLines word m raws).1 := by
  have halive : m.returncode.isSome = false := by rw [hcode]; rfl
  cases hfind : (raws.map Utf8.decode).find? (search word) with
  | none =>
    have hquiet : ∀ line ∈ raws.map Utf8.decode, search word line = false := fun line hline =>
      Bool.eq_false_iff.mpr (List.find?_eq_none.mp hfind line hline)
    rw [testLines_all (.inr hquiet)]
    simp [Emu.readLog, hrun, halive]
  | some line =>
    cases hstop : m.stopping with
    | true =>
      rw [testLines_all (.inl hstop)]
      simp [Emu.readLog, hrun, halive, hstop]
    | false =>
      rw [testLines_hang hstop hfind]
      simp [Emu.readLog, hrun, halive, hstop, killed]

/-- A round is a read of the watcher that is given the chunk. -/
theorem round_read (hcode : s.emu.returncode = none) :
    (s.round word).map WatchLog.watcher = s.watcher.read word s.chunk := by
  by_cases hrun : s.emu.log = .running
  · have hround : s.round word = some (s.advance
        (testLines word s.emu (Records.complete isNewline (s.pending ++ s.chunk)))) := by
      simp [WatchLog.round, hrun, hcode]
    rw [hround, Option.map_some, Watcher.read]
    simp only [hangIn, WatchLog.watcher, readLog_lines hrun hcode, Option.map_some]
    rfl
  · have hround : s.round word = none := if_pos hrun
    simp [hround, Watcher.read, WatchLog.watcher, Emu.readLog, hrun]

theorem returncode_testLines : (testLines word m raws).1.returncode = m.returncode := by
  induction raws with
  | nil => rfl
  | cons raw raws ih =>
    rw [testLines]
    split
    · rfl
    · exact ih

/-- The process runs, nobody stops it, and all that it wrote has been read. -/
structure UpToDate (s : WatchLog) : Prop where
  linked : s.linked = true
  offset : s.offset = s.log.length
  returncode : s.emu.returncode = none
  stoppedAt : s.stoppedAt = none

theorem UpToDate.chunk_grow (h : UpToDate s) (data : Bytes) : (s.grow data).chunk = data := by
  have hlinked : (s.grow data).linked = true := h.linked
  rw [WatchLog.chunk, if_pos hlinked]
  change (s.log ++ data).drop s.offset = data
  rw [h.offset, List.drop_left]

/-- Any next chunk can be written and read. -/
theorem UpToDate.next (h : UpToDate s) {chunk : Bytes} {w : Watcher}
    (hread : s.watcher.read word chunk = some w) :
    ∃ t, (watching word).run s [.write chunk, .round] = some t ∧ UpToDate t ∧ t.watcher = w ∧
      t.read = s.read ++ chunk := by
  have hchunk := h.chunk_grow chunk
  have hround : ((s.grow chunk).round word).map WatchLog.watcher =
      (s.grow chunk).watcher.read word (s.grow chunk).chunk := round_read h.returncode
  rw [hchunk] at hround
  obtain ⟨t, ht, hw⟩ := Option.map_eq_some_iff.mp (hround.trans hread)
  have hrun : (watching word).run s [.write chunk, .round] = some t := by
    change ((s.grow chunk).round word).bind some = some t
    rw [ht, Option.bind_some]
  obtain ⟨-, ⟨hgone, -⟩ | ⟨-, rfl⟩⟩ := round_cases ht
  · exact absurd h.returncode hgone
  · refine ⟨_, hrun, ⟨h.linked, ?_, ?_, h.stoppedAt⟩, hw, ?_⟩
    · change s.offset + (s.grow chunk).chunk.length = (s.log ++ chunk).length
      rw [hchunk, h.offset, List.length_append]
    · exact returncode_testLines.trans h.returncode
    · rw [read_advance, read_grow (Nat.le_of_eq h.offset), hchunk]

theorem UpToDate.reads {w : Watcher} (h : UpToDate s) (hs : (watching word).Reachable s)
    (hread : chunks.foldlM (Watcher.read word) s.watcher = some w) :
    ∃ t, (watching word).Reachable t ∧ UpToDate t ∧ t.watcher = w ∧
      t.read = s.read ++ chunks.flatten := by
  induction chunks generalizing s with
  | nil =>
    obtain rfl := Option.some_inj.mp hread
    exact ⟨s, hs, h, rfl, (List.append_nil _).symm⟩
  | cons chunk chunks ih =>
    rw [List.foldlM_cons] at hread
    obtain ⟨w', hw', hrest⟩ := Option.bind_eq_some_iff.mp hread
    obtain ⟨t, ht, hup, rfl, hnext⟩ := h.next hw'
    obtain ⟨u, hu, hup', hw, hread'⟩ := ih hup (hs.of_run ht) hrest
    refine ⟨u, hu, hup', hw, ?_⟩
    rw [hread', hnext, List.append_assoc, List.flatten_cons]

/-- **Every division of a log is a run**: the rounds of `watch` with any chunks are those of a
watcher whose log grows by one chunk before each round. -/
theorem reachable_watch {gen : Nat} {w : Watcher} (h : watch word gen chunks = some w) :
    ∃ s, (watching word).Reachable s ∧ UpToDate s ∧ s.watcher = w ∧ s.read = chunks.flatten :=
  UpToDate.reads (s := .new gen [] true) ⟨rfl, rfl, rfl, rfl⟩ (.init ⟨gen, [], true, rfl⟩) h

/-- The line for which `watch` kills the process, wherever the chunks are cut. -/
theorem watch_firstLine {gen : Nat} {w : Watcher} (h : watch word gen chunks = some w) :
    w.emu.hangLine = ((lines chunks.flatten).find? (search word)).map fun line =>
      String.ofList (Str.strip line) := by
  obtain ⟨s, hs, hup, rfl, hread⟩ := reachable_watch h
  have hhang := (Inv.of_reachable hs).hang
  rwa [awake_eq_read hup.stoppedAt, hread] at hhang

end Log

end AndroidAppliance
