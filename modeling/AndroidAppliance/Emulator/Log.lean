import AndroidAppliance.Supervisor.Lifecycle
import AndroidAppliance.Text.Lines
import AndroidAppliance.Text.Records
import AndroidAppliance.Text.Utf8
import Mathlib.Data.List.DropRight

/-!
# The log of the emulator

`tail`, `fatal_line` and `_watch_log` of `appliance/emulator.py`, and what `_exited` of
`appliance/supervisor.py` makes of a crash. The watcher reads the log in chunks until the process
is gone, and kills the process at the first line that is a refusal; after an exit, the end of the
log is searched for one.

Neither sees a line that is written after the last read and before the last 200 lines: the crash
is retried (`retried_unseen`). Every other crash with such a line is reported (`reported_iff`).
-/

namespace AndroidAppliance

namespace Log

open Supervisor

/-- What a log holds. -/
abbrev Bytes := List UInt8

/-! ### `appliance/emulator.py` -/

/-- The first alternative of `HANG_LINE`. -/
def renderer : Str := "Could not start renderer".toList

/-- The second one. -/
def framebuffer : Str := "Could not initialize emulated framebuffer".toList

/-- The word of the third one. -/
def fatal : Str := "FATAL".toList

section Search

-- the class `\w` is a table of Unicode
variable (word : Char → Bool)

/-- `\b` between two characters, or at an end of the line. -/
def boundary (before after : Option Char) : Bool := before.any word != after.any word

/-- `HANG_LINE` at a place in a line, behind the character `before`. -/
def hangAt (before : Option Char) (s : Str) : Bool :=
  renderer.isPrefixOf s || framebuffer.isPrefixOf s ||
    (boundary word before s.head? && fatal.isPrefixOf s &&
      boundary word fatal.getLast? (s.drop fatal.length).head?)

/-- `HANG_LINE` at this place or behind it. -/
def searchFrom (before : Option Char) : Str → Bool
  | [] => hangAt word before []
  | c :: s => hangAt word before (c :: s) || searchFrom (some c) s

/-- `HANG_LINE.search(line)`. -/
def search (line : Str) : Bool := searchFrom word none line

/-- `tail` of the log; there may be none. -/
def tail (log : Option Bytes) (lines : Nat) : Str :=
  match log with
  | none => []
  | some data =>
    if lines = 0 then []
    else ['\n'].intercalate ((Str.splitlines (Utf8.decode (data.rtake (256 * lines)))).rtake lines)

/-- `fatal_line`. -/
def fatalLine (log : Option Bytes) : Option Str :=
  ((Str.splitlines (tail log 200)).reverse.find? (search word)).map Str.strip

/-- The byte at which a line of a log ends. -/
def isNewline (b : UInt8) : Bool := b = 0x0A

/-- The first line of the new text that matches, of the complete ones. -/
def hangIn (data : Bytes) : Option Str :=
  (((Records.complete isNewline data).map Utf8.decode).find? (search word)).map Str.strip

/-- `_watch_log` between two reads: its emulator and `pending`. -/
structure Watcher where
  emu : Emu
  pending : Bytes

/-- A round of `_watch_log` with the next chunk of the file, an empty one when there is no file. -/
def Watcher.read (w : Watcher) (chunk : Bytes) : Option Watcher :=
  let data := w.pending ++ chunk
  (w.emu.readLog (.lines ((hangIn word data).map String.ofList))).map fun emu =>
    { emu, pending := Records.pending isNewline data }

/-- The rounds of `_watch_log` of a new emulator. -/
def watch (gen : Nat) (chunks : List Bytes) : Option Watcher :=
  chunks.foldlM (Watcher.read word) { emu := .launched gen, pending := [] }

end Search

/-- The emulator once its process has exited and the wait for both tasks is over. -/
def Watcher.gone (w : Watcher) (code : Int) : Emu :=
  { w.emu with returncode := some code, exited := true, log := .ended }

/-! ### What the two see -/

variable {word : Char → Bool} {gen : Nat} {chunks : List Bytes} {w : Watcher} {log data : Bytes}

/-- A line of the end of the log matches: one of the last 200 lines of the last 51200 bytes. -/
def AtEnd (word : Char → Bool) (log : Bytes) : Prop :=
  ∃ before line after, Str.splitlines (Utf8.decode (log.rtake 51200)) = before ++ line :: after ∧
    after.length < 200 ∧ search word line = true

/-- A complete line of a text matches. -/
def HasHang (word : Char → Bool) (text : Bytes) : Prop :=
  ∃ raw ∈ Records.complete isNewline text, search word (Utf8.decode raw) = true

@[simp]
theorem search_nil : search word [] = false := rfl

theorem hangIn_isSome : (hangIn word data).isSome = true ↔ HasHang word data := by
  rw [hangIn, Option.isSome_map, List.find?_isSome, HasHang]
  constructor
  · rintro ⟨line, hmem, hline⟩
    obtain ⟨raw, hraw, rfl⟩ := List.mem_map.mp hmem
    exact ⟨raw, hraw, hline⟩
  · rintro ⟨raw, hraw, hline⟩
    exact ⟨_, List.mem_map_of_mem hraw, hline⟩

theorem intercalate_cons_cons (l l' : Str) (ls : List Str) :
    ['\n'].intercalate (l :: l' :: ls) = l ++ '\n' :: ['\n'].intercalate (l' :: ls) := by
  rw [List.intercalate_cons_cons, List.append_assoc, List.singleton_append]

/-- Lines that are joined and split again are the same, but for an empty last one. -/
theorem mem_splitlines_join {ls : List Str} {l : Str}
    (h : ∀ l ∈ ls, ∀ c ∈ l, Str.isLineBreak c = false) (hne : l ≠ []) :
    l ∈ Str.splitlines (['\n'].intercalate ls) ↔ l ∈ ls := by
  have hcr : '\r' ∉ ['\n'].intercalate ls := by
    intro hmem
    obtain heq | ⟨l', hl', hc⟩ := Str.mem_intercalate hmem
    · exact absurd heq (by decide)
    · exact absurd (h l' hl' _ hc) (by decide)
  rw [Str.splitlines, Str.crlf_of_not_mem hcr]
  clear hcr
  induction ls with
  | nil => rfl
  | cons l' ls ih =>
    cases ls with
    | nil =>
      rw [List.intercalate_singleton, List.mem_singleton]
      by_cases hl' : l' = []
      · subst hl'
        exact iff_of_false List.not_mem_nil hne
      · rw [Str.lines_of_free (h l' List.mem_cons_self) hl', List.mem_singleton]
    | cons l'' ls =>
      have hrest : ∀ l ∈ l'' :: ls, ∀ c ∈ l, Str.isLineBreak c = false :=
        fun l hl => h l (List.mem_cons_of_mem _ hl)
      rw [intercalate_cons_cons, Str.lines_append (h l' List.mem_cons_self) (by decide),
        List.mem_cons, List.mem_cons (a := l)]
      exact or_congr_right (ih hrest)

/-- The last lines of a text, as the lines behind which there are less. -/
theorem mem_rtake {α : Type*} {ls : List α} {a : α} {n : Nat} :
    a ∈ ls.rtake n ↔ ∃ before after, ls = before ++ a :: after ∧ after.length < n := by
  constructor
  · intro h
    obtain ⟨mid, after, heq⟩ := List.append_of_mem h
    refine ⟨ls.take (ls.length - n) ++ mid, after, ?_, ?_⟩
    · rw [List.append_assoc, ← heq, List.rtake, List.take_append_drop]
    · have hlen := congrArg List.length heq
      rw [List.rtake, List.length_drop, List.length_append, List.length_cons] at hlen
      omega
  · rintro ⟨before, after, rfl, hlen⟩
    rw [List.rtake, List.length_append, List.length_cons]
    rw [List.drop_append_of_le_length (by omega)]
    exact List.mem_append_right _ List.mem_cons_self

theorem tail_eq (log : Bytes) : tail (some log) 200 =
    ['\n'].intercalate ((Str.splitlines (Utf8.decode (log.rtake 51200))).rtake 200) := by
  simp [tail]

theorem fatalLine_isSome : (fatalLine word (some log)).isSome = true ↔ AtEnd word log := by
  have hfree : ∀ l ∈ (Str.splitlines (Utf8.decode (log.rtake 51200))).rtake 200,
      ∀ c ∈ l, Str.isLineBreak c = false := by
    intro l hl
    exact Str.lines_free (List.mem_of_mem_drop hl)
  -- `tail` joins the lines, to be split again: an empty last one gets lost, but does not match
  rw [fatalLine, Option.isSome_map, List.find?_isSome, tail_eq]
  constructor
  · rintro ⟨line, hmem, hline⟩
    have hne : line ≠ [] := by
      rintro rfl
      simp at hline
    have hlast := (mem_splitlines_join hfree hne).mp (List.mem_reverse.mp hmem)
    obtain ⟨before, after, heq, hlen⟩ := mem_rtake.mp hlast
    exact ⟨before, line, after, heq, hlen, hline⟩
  · rintro ⟨before, line, after, heq, hlen, hline⟩
    have hne : line ≠ [] := by
      rintro rfl
      simp at hline
    refine ⟨line, List.mem_reverse.mpr ?_, hline⟩
    exact (mem_splitlines_join hfree hne).mpr (mem_rtake.mpr ⟨before, after, heq, hlen⟩)

/-! ### The watcher -/

/-- The watcher goes on: the process runs, nobody stops it, and no line matched. -/
structure Watching (m : Emu) : Prop where
  running : m.log = .running
  alive : m.returncode = none
  stopping : m.stopping = false
  quiet : m.hangLine = none

theorem watching_launched (gen : Nat) : Watching (.launched gen) := ⟨rfl, rfl, rfl, rfl⟩

theorem hasHang_append (a b : Bytes) : HasHang word (a ++ b) ↔
    HasHang word a ∨ HasHang word (Records.pending isNewline a ++ b) := by
  rw [HasHang, Records.complete_append]
  simp only [List.mem_append, or_and_right, exists_or, HasHang]

theorem not_hasHang_of_free (h : ∀ b ∈ data, isNewline b = false) : ¬HasHang word data := by
  rintro ⟨raw, hmem, -⟩
  rw [Records.complete_of_free h] at hmem
  exact List.not_mem_nil hmem

/-- A round without a line that matches keeps what is behind the last newline. -/
theorem read_quiet (hw : Watching w.emu) {chunk : Bytes}
    (h : hangIn word (w.pending ++ chunk) = none) : w.read word chunk =
      some { w with pending := Records.pending isNewline (w.pending ++ chunk) } := by
  have hlog : w.emu.readLog (.lines none) = some w.emu := by
    simp [Emu.readLog, hw.running, hw.alive]
  simp only [Watcher.read, h, Option.map_none, hlog, Option.map_some]

/-- The emulator after a round with a line that matches: it is killed, and the watcher ends. -/
def killed (m : Emu) (line : Str) : Emu :=
  { m with
    hangLine := some (String.ofList line), signals := m.signals ++ [.sigkill], log := .ended }

theorem read_hang (hw : Watching w.emu) {chunk : Bytes} {line : Str}
    (h : hangIn word (w.pending ++ chunk) = some line) : w.read word chunk =
      some { emu := killed w.emu line,
             pending := Records.pending isNewline (w.pending ++ chunk) } := by
  have hlog : w.emu.readLog (.lines (some (String.ofList line))) = some (killed w.emu line) := by
    simp [Emu.readLog, hw.running, hw.alive, hw.stopping, killed]
  simp only [Watcher.read, h, Option.map_some, hlog]

/-- There is no round after the last one. -/
theorem read_killed {m : Emu} {line : Str} {pending chunk : Bytes} :
    ({ emu := killed m line, pending } : Watcher).read word chunk = none := by
  simp [Watcher.read, Emu.readLog, killed]

/-- **The watcher kills the process exactly when a complete line of what it read matches**,
wherever the chunks are cut. -/
theorem foldlM_read {w' : Watcher} (hw : Watching w.emu)
    (hfree : ∀ b ∈ w.pending, isNewline b = false)
    (h : chunks.foldlM (Watcher.read word) w = some w') :
    w'.emu.hangLine.isSome = true ↔ HasHang word (w.pending ++ chunks.flatten) := by
  induction chunks generalizing w with
  | nil =>
    obtain rfl := Option.some_inj.mp h
    rw [List.flatten_nil, List.append_nil, hw.quiet]
    exact iff_of_false (by simp) (not_hasHang_of_free hfree)
  | cons chunk chunks ih =>
    rw [List.foldlM_cons] at h
    rw [List.flatten_cons, ← List.append_assoc, hasHang_append]
    cases hhang : hangIn word (w.pending ++ chunk) with
    | none =>
      -- what is behind the last newline goes into the next round, so no line is lost
      rw [read_quiet hw hhang, Option.bind_eq_bind, Option.bind_some] at h
      have hquiet : ¬HasHang word (w.pending ++ chunk) := by
        rw [← hangIn_isSome, hhang]
        exact Bool.false_ne_true
      rw [or_iff_right hquiet]
      exact ih (w := { w with pending := Records.pending isNewline (w.pending ++ chunk) }) hw
        (Records.pending_free _) h
    | some line =>
      have hfound : HasHang word (w.pending ++ chunk) := by
        rw [← hangIn_isSome, hhang]
        rfl
      rw [read_hang hw hhang] at h
      refine iff_of_true ?_ (.inl hfound)
      -- the watcher has ended: a further chunk cannot have been read
      cases chunks with
      | nil =>
        obtain rfl := Option.some_inj.mp h
        rfl
      | cons chunk' chunks =>
        rw [Option.bind_eq_bind, Option.bind_some, List.foldlM_cons, read_killed] at h
        cases h

theorem watch_hangLine (h : watch word gen chunks = some w) :
    w.emu.hangLine.isSome = true ↔ HasHang word chunks.flatten :=
  foldlM_read (w := { emu := .launched gen, pending := [] }) (watching_launched gen)
    (List.forall_mem_nil _) h

/-! ### The exit -/

variable {cfg : Config} {l l' : Lifecycle} {e : Nat} {m : Emu} {code : Int} {f : Failure}

/-- The exit is reported as a failure: Android stops, no boot follows, and the waiters get the
failure, or an error when it cannot be recorded. -/
structure Reported (l l' : Lifecycle) : Prop where
  stopping : l'.ctl.state = .stopping
  boots : l'.ctl.boots.length = l.ctl.boots.length
  error : ∃ t, l'.ctl.stops = l.ctl.stops ++ [t] ∧ (t.error = .exitUnhandled ∨
    ∃ f, l'.info.lastError = some f ∧ t.error = .failed f.code f.message)

theorem length_cancelBoot (c : Control) (current : Option Nat) :
    (c.cancelBoot current).boots.length = c.boots.length := by
  simp only [Control.cancelBoot]
  split
  · split
    · rfl
    · exact List.length_modify _ _ _
  · rfl

/-- A stop that begins with an error for the waiters. -/
theorem reported_beginStop {error : LifecycleError} (hboots : l'.ctl.boots = l.ctl.boots)
    (hstops : l'.ctl.stops = l.ctl.stops) (herror : error = .exitUnhandled ∨
      ∃ f, l'.info.lastError = some f ∧ error = .failed f.code f.message) :
    Reported l (l'.beginStop none error) where
  stopping := rfl
  boots := (length_cancelBoot _ none).trans (congrArg List.length hboots)
  error := ⟨_, congrArg (· ++ [_]) hstops, herror⟩

theorem handleExit_ok {line : Option String} (h : l.exited cfg e m code line = .ok l') :
    l.handleExit cfg e m code line = l' := by
  rw [Lifecycle.handleExit, h]

theorem handleExit_error {line : Option String} (h : l.exited cfg e m code line = .error l')
    (hup : l'.ctl.state.up = true) :
    l.handleExit cfg e m code line = l'.beginStop none .exitUnhandled := by
  rw [Lifecycle.handleExit, h]
  exact if_pos hup

/-- The crashes that `_exited` does not boot again for. -/
def Final (cfg : Config) (l : Lifecycle) (m : Emu) (line : Option String) : Prop :=
  m.hangLine.isSome = true ∨ line.isSome = true ∨ l.ctl.retried = true ∨ l.settling cfg = false

/-- `_fail` as a call that can raise. -/
def failed (l : Lifecycle) (f : Failure) : Except Lifecycle Lifecycle :=
  match l.fail none f with
  | some l' => .ok l'
  | none => .error l

theorem exited_final {line : Option String} (hcode : code ≠ 0) (h : Final cfg l m line) :
    ∃ f, l.exited cfg e m code line = failed l f := by
  rw [Lifecycle.exited.eq_def]
  cases hhang : m.hangLine with
  | some hang => exact ⟨_, rfl⟩
  | none =>
    have hcond : (line.isSome || l.ctl.retried || !l.settling cfg) = true := by
      obtain h | h | h | h := h
      · simp [hhang] at h
      · simp [h]
      · simp [h]
      · simp [h]
    have hzero : ¬(code = 0 ∧ line = none) := fun hz => hcode hz.1
    simp only [if_neg hzero, if_pos hcond]
    exact ⟨_, rfl⟩

theorem exited_retry {line : Option String} (hcode : code ≠ 0) (h : ¬Final cfg l m line) :
    ∃ f crash, l.exited cfg e m code line = l.retry f crash := by
  simp only [Final, not_or, Bool.not_eq_true, Bool.not_eq_false] at h
  obtain ⟨hhang, hline, hretried, hsettling⟩ := h
  have hcond : ¬(line.isSome || l.ctl.retried || !l.settling cfg) = true := by
    simp [hline, hretried, hsettling]
  have hzero : ¬(code = 0 ∧ line = none) := fun hz => hcode hz.1
  have hquiet : m.hangLine = none := Option.not_isSome_iff_eq_none.mp (by simp [hhang])
  rw [Lifecycle.exited.eq_def, hquiet]
  simp only [if_neg hzero, if_neg hcond]
  exact ⟨_, _, rfl⟩

theorem reported_fail (h : l.fail none f = some l') : Reported l l' := by
  obtain ⟨l₁, hrecord, rfl⟩ := Option.map_eq_some_iff.mp h
  obtain ⟨crashes, -, rfl⟩ := Option.map_eq_some_iff.mp hrecord
  exact reported_beginStop rfl rfl (.inr ⟨f, rfl, rfl⟩)

/-- A retry is a boot, unless the crash cannot be recorded. -/
theorem retry_eq_ok (f : Failure) (crash : CrashInfo) (h : l.info.crashes ≠ none) :
    ∃ l', l.retry f crash = .ok l' ∧ l'.ctl.state = .starting := by
  obtain ⟨crashes, hcrashes⟩ := Option.ne_none_iff_exists'.mp h
  rw [Lifecycle.retry]
  simp only [Lifecycle.record, hcrashes, Option.map_some]
  exact ⟨_, rfl, rfl⟩

theorem retry_eq_error {crash : CrashInfo} (h : l.info.crashes = none) :
    l.retry f crash = .error { l with ctl := { l.ctl with retried := true } } := by
  rw [Lifecycle.retry]
  simp only [Lifecycle.record, h, Option.map_none]

/-- **What a crash leads to.** The exit is reported, unless the daemon boots again. -/
theorem handleExit_reported {line : Option String} (hup : l.ctl.state.up = true)
    (hcode : code ≠ 0) :
    Reported l (l.handleExit cfg e m code line) ↔
      Final cfg l m line ∨ l.info.crashes = none := by
  by_cases hfinal : Final cfg l m line
  · refine iff_of_true ?_ (.inl hfinal)
    obtain ⟨f, hexit⟩ := exited_final (e := e) hcode hfinal
    cases hfail : l.fail none f with
    | some l' =>
      rw [failed, hfail] at hexit
      rw [handleExit_ok hexit]
      exact reported_fail hfail
    | none =>
      -- the crash history is no list: `_fail` raises, and `_watch` stops Android
      rw [failed, hfail] at hexit
      rw [handleExit_error hexit hup]
      exact reported_beginStop rfl rfl (.inl rfl)
  · rw [or_iff_right hfinal]
    obtain ⟨f, crash, hexit⟩ := exited_retry (e := e) hcode hfinal
    by_cases hcrashes : l.info.crashes = none
    · -- `_retry` raises as well, before it makes the boot task
      refine iff_of_true ?_ hcrashes
      rw [retry_eq_error hcrashes] at hexit
      rw [handleExit_error hexit hup]
      exact reported_beginStop rfl rfl (.inl rfl)
    · refine iff_of_false (fun hreported => ?_) hcrashes
      obtain ⟨l', hretry, hstate⟩ := retry_eq_ok f crash hcrashes
      rw [hretry] at hexit
      have hstopping := hreported.stopping
      rw [handleExit_ok hexit, hstate] at hstopping
      cases hstopping

/-- What one of the two looks at the log is told: what the watcher read has such a line, or the
end of the log has one. -/
def Seen (word : Char → Bool) (read log : Bytes) : Prop := HasHang word read ∨ AtEnd word log

/-- **A crash is reported as a failure, and not retried, exactly when a complete line of what the
watcher has read matches, or one of the last 200 lines in the last 51200 bytes of the log**, but
for a crash that is not retried whatever the log says. -/
theorem reported_iff {unread : Bytes} (hup : l.ctl.state.up = true) (hcode : code ≠ 0)
    (hwatch : watch word gen chunks = some w) :
    Reported l (l.handleExit cfg e (w.gone code) code
      ((fatalLine word (some (chunks.flatten ++ unread))).map String.ofList)) ↔
    Seen word chunks.flatten (chunks.flatten ++ unread) ∨ l.ctl.retried = true ∨
      l.settling cfg = false ∨ l.info.crashes = none := by
  have hread : (w.gone code).hangLine.isSome = true ↔ HasHang word chunks.flatten :=
    watch_hangLine hwatch
  rw [handleExit_reported hup hcode, Final, hread, Option.isSome_map, fatalLine_isSome, Seen]
  simp only [or_assoc]

/-- The class `\w` of ASCII. -/
def asciiWord (c : Char) : Bool := c.isAlphanum || c = '_'

/-- A text of ASCII as bytes. -/
def bytes (s : Str) : Bytes := s.map fun c => UInt8.ofNat c.toNat

/-- A line that refuses to boot. -/
def refusal : Bytes := bytes "FATAL | no GPU\n".toList

/-- The output behind the refusal. -/
def dump : Bytes := (List.replicate 200 (bytes "x\n".toList)).flatten

/-- A boot, with nothing in the crash history. -/
def boot : Lifecycle := (Lifecycle.new (some []) none none 0 0).beginBoot

/-- A configuration without the idle stop. -/
def config : Config := { idleStopSeconds := 0, bootTimeout := 300, settle := 30 }

/-- The refusal is read in two chunks, cut inside the word. -/
theorem reported_iff_read : ∃ w, watch asciiWord 0 [refusal.take 3, refusal.drop 3] = some w ∧
    Reported boot (boot.handleExit config 0 (w.gone 1) 1
      ((fatalLine asciiWord (some ([refusal.take 3, refusal.drop 3].flatten ++ dump))).map
        String.ofList)) := by
  have hread : HasHang asciiWord [refusal.take 3, refusal.drop 3].flatten :=
    ⟨bytes "FATAL | no GPU".toList, by decide, by decide⟩
  obtain ⟨w, hw⟩ : ∃ w, watch asciiWord 0 [refusal.take 3, refusal.drop 3] = some w :=
    Option.isSome_iff_exists.mp (by decide)
  exact ⟨w, hw, (reported_iff rfl (by decide) hw).mpr (.inl (.inl hread))⟩

/-- The refusal is written after the last read, and 200 lines after it: the daemon boots again. -/
theorem retried_unseen : ∃ w, watch asciiWord 0 [] = some w ∧ HasHang asciiWord (refusal ++ dump) ∧
    ¬Reported boot (boot.handleExit config 0 (w.gone 1) 1
      ((fatalLine asciiWord (some (refusal ++ dump))).map String.ofList)) ∧
    (boot.handleExit config 0 (w.gone 1) 1
      ((fatalLine asciiWord (some (refusal ++ dump))).map String.ofList)).info.phase =
        some .restarting := by
  have hline : fatalLine asciiWord (some (refusal ++ dump)) = none := by decide +kernel
  have hhang : HasHang asciiWord (refusal ++ dump) := by
    rw [hasHang_append]
    exact .inl ⟨bytes "FATAL | no GPU".toList, by decide, by decide⟩
  refine ⟨_, rfl, hhang, ?_, ?_⟩
  · rw [hline]
    intro h
    have hstopping := h.stopping
    exact absurd hstopping (by decide)
  · rw [hline]
    decide

end Log

end AndroidAppliance
