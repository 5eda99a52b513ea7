import AndroidAppliance.Text.Str
import AndroidAppliance.Transition.Registers
import Mathlib.Algebra.Order.Floor.Defs
import Mathlib.Data.Finset.Card
import Mathlib.Data.Finset.Dedup
import Mathlib.Data.Rat.Floor
import Mathlib.Tactic.Linarith

/-!
# What turnserver may take

Two limits of `appliance/turn.py`. The TURN port can be exposed to a network, so what turnserver
prints must not flood the log of the daemon: `_log_line` lets `LOG_LINES` pass in any window of
`LOG_WINDOW` seconds and counts the others. And a session keeps one user name, so that the quota
of a user is one of a session: `renew_user` replaces it only when it expires soon.

Both are about the times of a clock. The one of the log never goes back; a user name is as good
as the wall clock.
-/

namespace AndroidAppliance

namespace Turn

/-! ### `_log_line` -/

/-- `LOG_LINES`. -/
def logLines : Nat := 100

/-- `LOG_WINDOW`. -/
def logWindow : ℚ := 60

/-- What `_log_line` gives to the log of the daemon. -/
inductive Logged
  | line (time : ℚ) (text : Str)
  /-- So many "more lines suppressed". -/
  | suppressed (time : ℚ) (lines : Nat)
  deriving DecidableEq, Repr

/-- `_lines` and `_suppressed`, and the log. -/
structure Limiter where
  lines : List ℚ
  suppressed : Nat
  log : List Logged
  deriving DecidableEq, Repr

namespace Limiter

/-- Nothing was logged yet. -/
def fresh : Limiter := ⟨[], 0, []⟩

/-- The times that are not over. -/
def recent (now : ℚ) (times : List ℚ) : List ℚ := times.filter fun t => now - t < logWindow

/-- The report of the lines that were suppressed. -/
def report (now : ℚ) (suppressed : Nat) : List Logged :=
  if suppressed = 0 then [] else [.suppressed now suppressed]

/-- `_log_line`. -/
def logLine (l : Limiter) (line : ℚ × Str) : Limiter :=
  let lines := recent line.1 l.lines
  if lines.length < logLines then
    { lines := lines ++ [line.1]
      suppressed := 0
      log := l.log ++ report line.1 l.suppressed ++ [.line line.1 line.2] }
  else { l with lines := lines, suppressed := l.suppressed + 1 }

/-- The lines that turnserver prints, one after the other. -/
def run (received : List (ℚ × Str)) : Limiter := received.foldl logLine fresh

end Limiter

namespace Logged

/-- The time of an entry. -/
def time : Logged → ℚ
  | .line time _ | .suppressed time _ => time

/-- The entry is a line of turnserver. -/
def isLine : Logged → Bool
  | .line _ _ => true
  | .suppressed _ _ => false

@[simp]
theorem isLine_line (time : ℚ) (text : Str) : (line time text).isLine = true := rfl

@[simp]
theorem isLine_suppressed (time : ℚ) (lines : Nat) : (suppressed time lines).isLine = false := rfl

/-- How many lines of turnserver the entry is about. -/
def about : Logged → Nat
  | .line _ _ => 1
  | .suppressed _ lines => lines

/-- The entry is from a window that begins at a time. -/
def Within (t : ℚ) (x : Logged) : Prop := t ≤ x.time ∧ x.time < t + logWindow

instance (t : ℚ) (x : Logged) : Decidable (x.Within t) := by
  unfold Within
  infer_instance

end Logged

/-- The lines of turnserver that a log is about. -/
def covered (log : List Logged) : Nat := (log.map Logged.about).sum

/-- **What the log tells** of the lines that turnserver printed. -/
structure Tells (received : List (ℚ × Str)) (l : Limiter) : Prop where
  /-- Every line is in the log, or counted there, or counted for the next entry. -/
  all : covered l.log + l.suppressed = received.length
  /-- A line of the log is the one that follows those before it. -/
  order : ∀ before time text after, l.log = before ++ .line time text :: after →
    received[covered before]? = some (time, text)
  /-- In any window there are at most 100 lines, -/
  lines : ∀ t, l.log.countP (fun x => x.isLine && decide (x.Within t)) ≤ logLines
  /-- and no more entries about those that are not there. -/
  entries : ∀ t, l.log.countP (fun x => decide (x.Within t)) ≤ 2 * logLines
  /-- No more times are remembered. -/
  remembered : l.lines.length ≤ logLines

/-- The times of the lines in a log. -/
def lineTimes (log : List Logged) : List ℚ :=
  log.filterMap fun
    | .line time _ => some time
    | .suppressed _ _ => none

namespace Limiter

variable {received : List (ℚ × Str)} {l : Limiter} {line : ℚ × Str} {now now' t : ℚ}
  {log log' : List Logged}

theorem covered_append : covered (log ++ log') = covered log + covered log' := by
  simp [covered]

theorem lineTimes_append : lineTimes (log ++ log') = lineTimes log ++ lineTimes log' :=
  List.filterMap_append

theorem countP_lines (log : List Logged) (t : ℚ) :
    log.countP (fun x => x.isLine && decide (x.Within t)) =
      (lineTimes log).countP fun time => decide (t ≤ time ∧ time < t + logWindow) := by
  induction log with
  | nil => rfl
  | cons x log ih =>
    cases x with
    | line time text =>
      have htimes : lineTimes (.line time text :: log) = time :: lineTimes log := rfl
      rw [htimes, List.countP_cons, List.countP_cons, ih]
      rfl
    | suppressed time lines =>
      have htimes : lineTimes (.suppressed time lines :: log) = lineTimes log := rfl
      rw [htimes, List.countP_cons, ih]
      rfl

/-- Later, fewer times are not over. -/
theorem recent_recent (h : now ≤ now') (times : List ℚ) :
    recent now' (recent now times) = recent now' times := by
  unfold recent
  rw [List.filter_filter]
  refine List.filter_congr fun t _ => ?_
  rw [Bool.and_eq_left_iff_imp]
  intro ht
  rw [decide_eq_true_eq] at ht ⊢
  linarith

/-- What the limiter has kept of the lines so far. -/
structure Inv (received : List (ℚ × Str)) (l : Limiter) : Prop where
  all : covered l.log + l.suppressed = received.length
  order : Log.Each (fun before x => ∀ time text, x = .line time text →
    received[covered before]? = some (time, text)) l.log
  times : ∀ x ∈ l.log, ∃ r ∈ received, x.time = r.1
  kept : ∀ now, (∀ r ∈ received, r.1 ≤ now) →
    recent now l.lines = recent now (lineTimes l.log)
  lines : ∀ t, l.log.countP (fun x => x.isLine && decide (x.Within t)) ≤ logLines
  pairs : ∀ t, l.log.countP (fun x => decide (x.Within t)) ≤
    2 * l.log.countP (fun x => x.isLine && decide (x.Within t))
  remembered : l.lines.length ≤ logLines

theorem Inv.fresh : Inv [] fresh where
  all := rfl
  order := .nil
  times := nofun
  kept _ _ := rfl
  lines _ := Nat.zero_le _
  pairs _ := Nat.zero_le _
  remembered := Nat.zero_le _

/-- A place in a list stays where it is. -/
theorem getElem?_concat {α : Type} {xs : List α} {i : Nat} {a b : α} (h : xs[i]? = some a) :
    (xs ++ [b])[i]? = some a := by
  rw [List.getElem?_append_left (List.getElem?_eq_some_iff.mp h).1, h]

/-- Fewer than 100 lines of a window come before a line that passes. -/
theorem Inv.countP_lt (h : Inv received l) (hpast : ∀ r ∈ received, r.1 ≤ now)
    (hfew : (recent now l.lines).length < logLines) (ht : now < t + logWindow) :
    l.log.countP (fun x => x.isLine && decide (x.Within t)) < logLines := by
  refine lt_of_le_of_lt ?_ hfew
  rw [h.kept now hpast, countP_lines, recent, ← List.countP_eq_length_filter]
  refine List.countP_mono_left fun time _ htime => ?_
  rw [decide_eq_true_eq] at htime ⊢
  linarith [htime.1]

theorem covered_report (now : ℚ) (n : Nat) : covered (report now n) = n := by
  unfold report
  split
  · exact (‹n = 0›).symm
  · rfl

theorem mem_report {x : Logged} {n : Nat} (hx : x ∈ report now n) : x = .suppressed now n := by
  unfold report at hx
  split at hx
  · cases hx
  · exact List.mem_singleton.mp hx

theorem lineTimes_report (now : ℚ) (n : Nat) : lineTimes (report now n) = [] := by
  unfold report
  split <;> rfl

/-- The count of a log with a report, if there is one, and a line. -/
theorem countP_passed {p : Logged → Bool} {n : Nat} {text : Str} :
    (log ++ report now n ++ [Logged.line now text]).countP p = log.countP p +
      (if n ≠ 0 ∧ p (Logged.suppressed now n) = true then 1 else 0) +
        if p (Logged.line now text) = true then 1 else 0 := by
  rw [List.countP_append, List.countP_append, List.countP_singleton]
  by_cases hn : n = 0
  · simp [report, hn]
  · simp [report, hn]

/-- A line that passes. -/
theorem Inv.passed (h : Inv received l) (hpast : ∀ r ∈ received, r.1 ≤ line.1)
    (hfew : (recent line.1 l.lines).length < logLines) :
    Inv (received ++ [line]) (l.logLine line) := by
  have hstep : l.logLine line = ⟨recent line.1 l.lines ++ [line.1], 0,
      l.log ++ report line.1 l.suppressed ++ [.line line.1 line.2]⟩ := by
    unfold logLine
    exact if_pos hfew
  have hlength : covered (l.log ++ report line.1 l.suppressed) = received.length := by
    rw [covered_append, covered_report, h.all]
  rw [hstep]
  refine ⟨?_, ?_, fun x hx => ?_, fun now hnow => ?_, fun t => ?_, fun t => ?_, ?_⟩
  · rw [covered_append, hlength, List.length_append]
    rfl
  · refine Log.Each.concat (Log.Each.append (fun before x after heq time text hx => ?_)
      fun before x after heq time text hx => ?_) fun time text hx => ?_
    · exact getElem?_concat (h.order before x after heq time text hx)
    · -- the report is no line
      have hmem : x ∈ report line.1 l.suppressed := by
        rw [heq]
        exact List.mem_append_right _ List.mem_cons_self
      rw [mem_report hmem] at hx
      cases hx
    · cases hx
      rw [hlength]
      exact List.getElem?_concat_length
  · rcases List.mem_append.mp hx with hx | hx
    · rcases List.mem_append.mp hx with hx | hx
      · obtain ⟨r, hr, heq⟩ := h.times x hx
        exact ⟨r, List.mem_append_left _ hr, heq⟩
      · refine ⟨line, List.mem_append_right _ (List.mem_singleton_self line), ?_⟩
        rw [mem_report hx]
        rfl
    · refine ⟨line, List.mem_append_right _ (List.mem_singleton_self line), ?_⟩
      rw [List.mem_singleton.mp hx]
      rfl
  · have hline : line.1 ≤ now := hnow line (List.mem_append_right _ (List.mem_singleton_self line))
    have hold := h.kept now fun r hr => hnow r (List.mem_append_left _ hr)
    rw [lineTimes_append, lineTimes_append, lineTimes_report, List.append_nil]
    unfold recent at hold ⊢
    rw [List.filter_append, List.filter_append]
    refine congrArg₂ (· ++ ·) ?_ rfl
    exact (recent_recent hline l.lines).trans hold
  · rw [countP_passed]
    have hle := h.lines t
    by_cases hin : t ≤ line.1 ∧ line.1 < t + logWindow
    · have hlt := h.countP_lt hpast hfew hin.2
      simp only [Logged.isLine_suppressed, Bool.false_and, Bool.false_eq_true, and_false, if_false]
      split <;> omega
    · have hout : ¬(Logged.line line.1 line.2).Within t := hin
      simpa [hout] using hle
  · rw [countP_passed, countP_passed]
    have hle := h.pairs t
    by_cases hin : t ≤ line.1 ∧ line.1 < t + logWindow
    · have hwithin : (Logged.line line.1 line.2).Within t := hin
      simp only [Logged.isLine_line, Logged.isLine_suppressed, hwithin, decide_true, Bool.and_self,
        Bool.false_and, Bool.false_eq_true, and_false, if_false, if_true]
      split <;> omega
    · have hout : ¬(Logged.line line.1 line.2).Within t := hin
      have hout' : ¬(Logged.suppressed line.1 l.suppressed).Within t := hin
      simpa [hout, hout'] using hle
  · rw [List.length_append, List.length_singleton]
    exact hfew

/-- A line that is only counted. -/
theorem Inv.counted (h : Inv received l) (hmany : ¬(recent line.1 l.lines).length < logLines) :
    Inv (received ++ [line]) (l.logLine line) := by
  have hstep : l.logLine line = { l with
      lines := recent line.1 l.lines, suppressed := l.suppressed + 1 } := by
    unfold logLine
    exact if_neg hmany
  rw [hstep]
  refine ⟨?_, ?_, fun x hx => ?_, fun now hnow => ?_, h.lines, h.pairs, ?_⟩
  · rw [List.length_append, ← h.all]
    rfl
  · exact fun before x after heq time text hx =>
      getElem?_concat (h.order before x after heq time text hx)
  · obtain ⟨r, hr, heq⟩ := h.times x hx
    exact ⟨r, List.mem_append_left _ hr, heq⟩
  · have hline : line.1 ≤ now := hnow line (List.mem_append_right _ (List.mem_singleton_self line))
    exact (recent_recent hline l.lines).trans
      (h.kept now fun r hr => hnow r (List.mem_append_left _ hr))
  · exact (List.length_filter_le _ _).trans h.remembered

theorem inv_run (hsorted : received.Pairwise (·.1 ≤ ·.1)) : Inv received (run received) := by
  induction received using List.reverseRecOn with
  | nil => exact .fresh
  | append_singleton received line ih =>
    obtain ⟨hbefore, -, hlast⟩ := List.pairwise_append.mp hsorted
    have hpast : ∀ r ∈ received, r.1 ≤ line.1 :=
      fun r hr => hlast r hr line (List.mem_singleton_self line)
    have hrun : run (received ++ [line]) = (run received).logLine line := by
      rw [run, List.foldl_append]
      rfl
    rw [hrun]
    by_cases hfew : (recent line.1 (run received).lines).length < logLines
    · exact (ih hbefore).passed hpast hfew
    · exact (ih hbefore).counted hfew

end Limiter

/-- **The log of turnserver is limited and complete**, whatever turnserver prints. -/
theorem log_limited {received : List (ℚ × Str)} (hsorted : received.Pairwise (·.1 ≤ ·.1)) :
    Tells received (Limiter.run received) := by
  have h := Limiter.inv_run hsorted
  refine ⟨h.all, fun before time text after heq => ?_, h.lines, fun t => ?_, h.remembered⟩
  · exact h.order before _ after heq time text rfl
  · have hpairs := h.pairs t
    have hlines := h.lines t
    omega

/-- A hundred lines at once, three more, and one in the next window. -/
def flood : List (ℚ × Str) :=
  List.replicate 103 (0, "x".toList) ++ [(61, "y".toList)]

theorem log_limited_flood : (Limiter.run flood).log.length = 102 ∧
    Tells flood (Limiter.run flood) :=
  ⟨by decide +kernel, log_limited (by decide +kernel)⟩

/-! ### `renew_user` -/

/-- `CREDENTIAL_TTL`. -/
def credentialTtl : ℤ := 24 * 3600

/-- `RENEW_BEFORE`. -/
def renewBefore : ℤ := 3600

/-- `int` of a `float`. -/
def truncate (q : ℚ) : ℤ := if 0 ≤ q then ⌊q⌋ else ⌈q⌉

/-- `new_user`; `token` is what `secrets.token_hex` gives. -/
def newUser (now : ℚ) (token : Str) : Str :=
  Str.ofInt (truncate (now + credentialTtl)) ++ ':' :: token

/-- `renew_user`. -/
def renewUser (user : Option Str) (now : ℚ) (token : Str) : Str :=
  match user with
  | none | some [] => newUser now token
  | some user =>
    let expiry := (Str.partition ':' user).1
    if Str.isDigits expiry = true ∧ (renewBefore : ℚ) < (Str.int expiry : ℚ) - now then user
    else newUser now token

/-- The stream starts of a session, with their times and tokens: `_turn_user`, and the user name
of each start. -/
def useNames (starts : List (ℚ × Str)) : Option Str × List (ℚ × Str) :=
  starts.foldl (fun s start =>
    let name := renewUser s.1 start.1 start.2
    (some name, s.2 ++ [(start.1, name)])) (none, [])

/-- When the credential of a user name expires. -/
def expires (name : Str) : Nat := Str.int (Str.partition ':' name).1

/-- The names that are used in a window. -/
def namesWithin (t width : ℚ) (used : List (ℚ × Str)) : Finset Str :=
  ((used.filter fun u => t ≤ u.1 ∧ u.1 ≤ t + width).map Prod.snd).toFinset

/-- **The user names of a session.** -/
structure NamesKept (used : List (ℚ × Str)) : Prop where
  /-- Each credential is good for more than an hour when it is given, and for no more than a day. -/
  good : ∀ u ∈ used, u.1 + renewBefore < expires u.2 ∧ (expires u.2 : ℚ) ≤ u.1 + credentialTtl
  /-- In any 22 hours 59 minutes and 59 seconds there are at most two. -/
  few : ∀ t, (namesWithin t (credentialTtl - renewBefore - 1) used).card ≤ 2

variable {now t width : ℚ} {token : Str} {used : List (ℚ × Str)} {starts : List (ℚ × Str)}
  {user : Str}

theorem partition_newUser (h : 0 ≤ now) (token : Str) :
    (Str.partition ':' (newUser now token)).1 = Str.ofNat (⌊now + credentialTtl⌋).toNat := by
  have hpos : (0 : ℚ) ≤ now + credentialTtl := add_nonneg h (by norm_num [credentialTtl])
  have hfloor : 0 ≤ ⌊now + credentialTtl⌋ := Int.floor_nonneg.mpr hpos
  have htext : Str.ofInt (truncate (now + credentialTtl)) =
      Str.ofNat (⌊now + credentialTtl⌋).toNat := by
    rw [truncate, if_pos hpos]
    obtain ⟨n, hn⟩ := Int.eq_ofNat_of_zero_le hfloor
    rw [hn]
    rfl
  have hfree : ':' ∉ Str.ofNat (⌊now + credentialTtl⌋).toNat := fun hc => by
    have hdigit := Str.ofNat_digit hc
    exact absurd hdigit (by decide)
  rw [newUser, htext, Str.partition_sep hfree]

theorem isDigits_newUser (h : 0 ≤ now) (token : Str) :
    Str.isDigits (Str.partition ':' (newUser now token)).1 = true := by
  rw [partition_newUser h]
  exact Str.isDigits_ofNat _

/-- A new credential is good for a day, up to a second. -/
theorem expires_newUser (h : 0 ≤ now) (token : Str) :
    now + credentialTtl - 1 < expires (newUser now token) ∧
      (expires (newUser now token) : ℚ) ≤ now + credentialTtl := by
  have hpos : (0 : ℚ) ≤ now + credentialTtl := add_nonneg h (by norm_num [credentialTtl])
  have hfloor : 0 ≤ ⌊now + credentialTtl⌋ := Int.floor_nonneg.mpr hpos
  have hcast : (expires (newUser now token) : ℚ) = (⌊now + credentialTtl⌋ : ℤ) := by
    rw [expires, partition_newUser h, Str.int_ofNat]
    exact_mod_cast congrArg (Int.cast : ℤ → ℚ) (Int.toNat_of_nonneg hfloor)
  rw [hcast]
  constructor
  · linarith [Int.lt_floor_add_one (now + (credentialTtl : ℚ))]
  · exact Int.floor_le _

theorem newUser_ne_nil (now : ℚ) (token : Str) : newUser now token ≠ [] := by
  simp [newUser]

/-- `renew_user` with a name that was made by `new_user`. -/
theorem renewUser_some (hne : user ≠ [])
    (hdigits : Str.isDigits (Str.partition ':' user).1 = true) :
    renewUser (some user) now token =
      if (renewBefore : ℚ) < expires user - now then user else newUser now token := by
  unfold renewUser
  cases user with
  | nil => exact absurd rfl hne
  | cons c rest =>
    refine if_congr ?_ rfl rfl
    exact and_iff_right hdigits

/-- The name that a session has, and since when. -/
structure Holds (used : List (ℚ × Str)) (user : Str) (since : ℚ) : Prop where
  ne_nil : user ≠ []
  digits : Str.isDigits (Str.partition ':' user).1 = true
  born : (since, user) ∈ used
  good : since + credentialTtl - 1 < expires user
  bound : (expires user : ℚ) ≤ since + credentialTtl
  /-- The other names were used before. -/
  before : ∀ u ∈ used, u.2 ≠ user → u.1 ≤ since

theorem namesWithin_concat {u : ℚ × Str} : namesWithin t width (used ++ [u]) =
    namesWithin t width used ∪ if t ≤ u.1 ∧ u.1 ≤ t + width then {u.2} else ∅ := by
  unfold namesWithin
  rw [List.filter_append, List.map_append, List.toFinset_append]
  refine congrArg _ ?_
  by_cases hin : t ≤ u.1 ∧ u.1 ≤ t + width
  · simp [hin]
  · simp [hin]

theorem mem_namesWithin {name : Str} : name ∈ namesWithin t width used ↔
    ∃ u ∈ used, (t ≤ u.1 ∧ u.1 ≤ t + width) ∧ u.2 = name := by
  unfold namesWithin
  rw [List.mem_toFinset, List.mem_map]
  constructor
  · rintro ⟨u, hu, rfl⟩
    obtain ⟨hmem, hin⟩ := List.mem_filter.mp hu
    exact ⟨u, hmem, of_decide_eq_true hin, rfl⟩
  · rintro ⟨u, hmem, hin, rfl⟩
    exact ⟨u, List.mem_filter.mpr ⟨hmem, decide_eq_true hin⟩, rfl⟩

/-- **The same name** again adds no name to a window. -/
theorem NamesKept.again (h : NamesKept used) {since : ℚ} (hholds : Holds used user since)
    (hpast : ∀ u ∈ used, u.1 ≤ now) (hlong : (renewBefore : ℚ) < expires user - now) :
    NamesKept (used ++ [(now, user)]) ∧ Holds (used ++ [(now, user)]) user since := by
  have hsince : since ≤ now := hpast _ hholds.born
  refine ⟨⟨fun u hu => ?_, fun t => ?_⟩, hholds.ne_nil, hholds.digits,
    List.mem_append_left _ hholds.born, hholds.good, hholds.bound, fun u hu hne => ?_⟩
  · rcases List.mem_append.mp hu with hold | hnew
    · exact h.good u hold
    · rw [List.mem_singleton.mp hnew]
      exact ⟨by linarith, by linarith [hholds.bound]⟩
  · rw [namesWithin_concat]
    split
    · rename_i hin
      by_cases hmem : user ∈ namesWithin t (credentialTtl - renewBefore - 1) used
      · rw [Finset.union_eq_left.mpr (Finset.singleton_subset_iff.mpr hmem)]
        exact h.few t
      · -- then the window begins after the name did, and no other name is in it
        have hempty : namesWithin t (credentialTtl - renewBefore - 1) used = ∅ := by
          refine Finset.eq_empty_of_forall_notMem fun name hname => ?_
          obtain ⟨u, hu, hwithin, rfl⟩ := mem_namesWithin.mp hname
          by_cases hsame : u.2 = user
          · exact hmem (mem_namesWithin.mpr ⟨u, hu, hwithin, hsame⟩)
          · have hbefore := hholds.before u hu hsame
            exact hmem (mem_namesWithin.mpr ⟨_, hholds.born,
              ⟨hwithin.1.trans hbefore, hsince.trans hin.2⟩, rfl⟩)
        rw [hempty, Finset.empty_union, Finset.card_singleton]
        decide
    · rw [Finset.union_empty]
      exact h.few t
  · rcases List.mem_append.mp hu with hold | hnew
    · exact hholds.before u hold hne
    · rw [List.mem_singleton.mp hnew] at hne
      exact absurd rfl hne

/-- **A new name**, when the one before it is used up. -/
theorem NamesKept.renewed (h : NamesKept used) {since : ℚ} (hholds : Holds used user since)
    (hpast : ∀ u ∈ used, u.1 ≤ now) (hnow : 0 ≤ now)
    (hshort : ¬(renewBefore : ℚ) < expires user - now) (token : Str) :
    NamesKept (used ++ [(now, newUser now token)]) ∧
      Holds (used ++ [(now, newUser now token)]) (newUser now token) now := by
  obtain ⟨hgood, hbound⟩ := expires_newUser hnow token
  have hlong : (renewBefore : ℚ) < credentialTtl - 1 := by norm_num [renewBefore, credentialTtl]
  refine ⟨⟨fun u hu => ?_, fun t => ?_⟩, newUser_ne_nil _ _, isDigits_newUser hnow _,
    List.mem_append_right _ (List.mem_singleton_self _), hgood, hbound, fun u hu hne => ?_⟩
  · rcases List.mem_append.mp hu with hold | hnew
    · exact h.good u hold
    · rw [List.mem_singleton.mp hnew]
      exact ⟨by linarith, hbound⟩
  · rw [namesWithin_concat]
    split
    · rename_i hin
      -- only the last name is used so long after it began
      have hone : namesWithin t (credentialTtl - renewBefore - 1) used ⊆ {user} := by
        intro name hname
        obtain ⟨u, hu, hwithin, rfl⟩ := mem_namesWithin.mp hname
        rw [Finset.mem_singleton]
        by_contra hne
        have hbefore := hholds.before u hu hne
        have hgood' := hholds.good
        linarith [hin.2, hwithin.1]
      refine (Finset.card_union_le _ _).trans ?_
      have hle := Finset.card_le_card hone
      rw [Finset.card_singleton] at hle ⊢
      omega
    · rw [Finset.union_empty]
      exact h.few t
  · rcases List.mem_append.mp hu with hold | hnew
    · exact hpast u hold
    · rw [List.mem_singleton.mp hnew] at hne
      exact absurd rfl hne

/-- The first name. -/
theorem NamesKept.first (hnow : 0 ≤ now) (token : Str) : NamesKept [(now, newUser now token)] ∧
    Holds [(now, newUser now token)] (newUser now token) now := by
  obtain ⟨hgood, hbound⟩ := expires_newUser hnow token
  have hlong : (renewBefore : ℚ) < credentialTtl - 1 := by norm_num [renewBefore, credentialTtl]
  refine ⟨⟨fun u hu => ?_, fun t => ?_⟩, newUser_ne_nil _ _, isDigits_newUser hnow _,
    List.mem_singleton_self _, hgood, hbound, fun u hu hne => ?_⟩
  · rw [List.mem_singleton.mp hu]
    exact ⟨by linarith, hbound⟩
  · have hone : namesWithin t (credentialTtl - renewBefore - 1) [(now, newUser now token)] ⊆
        {newUser now token} := by
      intro name hname
      obtain ⟨u, hu, -, rfl⟩ := mem_namesWithin.mp hname
      rw [List.mem_singleton.mp hu]
      exact Finset.mem_singleton_self _
    exact (Finset.card_le_card hone).trans
      (le_of_eq_of_le (Finset.card_singleton _) one_le_two)
  · rw [List.mem_singleton.mp hu] at hne
    exact absurd rfl hne

/-- The names after some starts, with the name that the session has. -/
structure Session (starts : List (ℚ × Str)) (s : Option Str × List (ℚ × Str)) : Prop where
  kept : NamesKept s.2
  times : ∀ u ∈ s.2, ∃ start ∈ starts, u.1 = start.1
  name : s = (none, []) ∨ ∃ user since, s.1 = some user ∧ Holds s.2 user since

theorem useNames_concat (starts : List (ℚ × Str)) (start : ℚ × Str) :
    useNames (starts ++ [start]) =
      (some (renewUser (useNames starts).1 start.1 start.2), (useNames starts).2 ++
        [(start.1, renewUser (useNames starts).1 start.1 start.2)]) := by
  rw [useNames, List.foldl_append]
  rfl

/-- **One start.** -/
theorem Session.start {s : Option Str × List (ℚ × Str)} (h : Session starts s)
    (hpast : ∀ start ∈ starts, start.1 ≤ now) (hnow : 0 ≤ now) (token : Str) :
    Session (starts ++ [(now, token)]) (some (renewUser s.1 now token),
      s.2 ++ [(now, renewUser s.1 now token)]) := by
  have hused : ∀ u ∈ s.2, u.1 ≤ now := by
    intro u hu
    obtain ⟨start, hstart, heq⟩ := h.times u hu
    rw [heq]
    exact hpast start hstart
  have htimes : ∀ u ∈ s.2 ++ [(now, renewUser s.1 now token)],
      ∃ start ∈ starts ++ [(now, token)], u.1 = start.1 := by
    intro u hu
    rcases List.mem_append.mp hu with hold | hnew
    · obtain ⟨start, hstart, heq⟩ := h.times u hold
      exact ⟨start, List.mem_append_left _ hstart, heq⟩
    · rw [List.mem_singleton.mp hnew]
      exact ⟨_, List.mem_append_right _ (List.mem_singleton_self _), rfl⟩
  rcases h.name with rfl | ⟨user, since, hsome, hholds⟩
  · obtain ⟨hkept, hholds⟩ := NamesKept.first hnow token
    exact ⟨hkept, htimes, .inr ⟨_, _, rfl, hholds⟩⟩
  · have hrenew : renewUser s.1 now token =
        if (renewBefore : ℚ) < expires user - now then user else newUser now token := by
      rw [hsome]
      exact renewUser_some hholds.ne_nil hholds.digits
    by_cases hlong : (renewBefore : ℚ) < expires user - now
    · rw [if_pos hlong] at hrenew
      rw [hrenew] at htimes ⊢
      obtain ⟨hkept, hholds⟩ := h.kept.again hholds hused hlong
      exact ⟨hkept, htimes, .inr ⟨_, _, rfl, hholds⟩⟩
    · rw [if_neg hlong] at hrenew
      rw [hrenew] at htimes ⊢
      obtain ⟨hkept, hholds⟩ := h.kept.renewed hholds hused hnow hlong token
      exact ⟨hkept, htimes, .inr ⟨_, _, rfl, hholds⟩⟩

/-- **A session keeps its user name**, whatever tokens are drawn. -/
theorem names_kept (hsorted : starts.Pairwise (·.1 ≤ ·.1)) (hclock : ∀ s ∈ starts, 0 ≤ s.1) :
    NamesKept (useNames starts).2 := by
  have hsession : Session starts (useNames starts) := by
    induction starts using List.reverseRecOn with
    | nil => exact ⟨⟨nofun, fun t => Nat.zero_le _⟩, nofun, .inl rfl⟩
    | append_singleton starts start ih =>
      obtain ⟨hbefore, -, hlast⟩ := List.pairwise_append.mp hsorted
      rw [useNames_concat]
      refine (ih hbefore fun s hs => hclock s (List.mem_append_left _ hs)).start
        (fun s hs => hlast s hs start (List.mem_singleton_self start)) ?_ start.2
      exact hclock start (List.mem_append_right _ (List.mem_singleton_self start))
  exact hsession.kept

/-- Three starts, of which the last one is a day after the first. -/
def threeStarts : List (ℚ × Str) :=
  [(1000, "a1".toList), (1000 + 1 / 2, "b2".toList), (87000, "c3".toList)]

theorem names_kept_three : (useNames threeStarts).2.map Prod.snd =
      ["87400:a1".toList, "87400:a1".toList, "173400:c3".toList] ∧
    NamesKept (useNames threeStarts).2 :=
  ⟨by decide +kernel, names_kept (by decide +kernel) (by decide +kernel)⟩

end Turn

end AndroidAppliance
