import AndroidAppliance.Access.Attempts
import AndroidAppliance.Transition.Dict
import Mathlib.Data.List.Dedup
import Mathlib.Data.List.TakeWhile

/-!
# The table of failures

The table of failures against the log of the attempts (`Tracks`): what the table holds of a
client are its failures since the last time all were forgotten, without some that are older than
the window. So `blocked` counts the failures of the window.
-/

namespace AndroidAppliance

namespace Access

/-! ### Times in order -/

/-- In a list in order the early times come first. -/
theorem dropWhile_eq_filter {times : List ℚ} (h : times.Pairwise (· ≤ ·)) (lo : ℚ) :
    times.dropWhile (· < lo) = times.filter (lo ≤ ·) := by
  induction times with
  | nil => rfl
  | cons t times ih =>
    obtain ⟨hle, htimes⟩ := List.pairwise_cons.mp h
    by_cases ht : t < lo
    · rw [List.dropWhile_cons_of_pos (by simpa using ht),
        List.filter_cons_of_neg (by simpa using ht)]
      exact ih htimes
    · -- the first one that stays; all behind it stay too
      rw [List.dropWhile_cons_of_neg (by simpa using ht)]
      have hall : ∀ t' ∈ t :: times, lo ≤ t' := by
        intro t' ht'
        rcases List.mem_cons.mp ht' with rfl | ht'
        · exact not_lt.mp ht
        · exact (not_lt.mp ht).trans (hle t' ht')
      exact (List.filter_eq_self.mpr fun t' ht' => decide_eq_true (hall t' ht')).symm

namespace Auth

variable {a : Auth} {mono : ℚ} {client client' : Str} {times : List ℚ}

/-! ### The table -/

/-- What the table holds of a client. -/
def timesOf (a : Auth) (client : Str) : List ℚ := (a.failuresOf client).getD []

/-- The clients of the table. -/
def clients (a : Auth) : List Str := a.failures.map Prod.fst

/-- The table as a dict. -/
def table (a : Auth) (h : a.clients.Nodup) : Dict Str (List ℚ) where
  entries := a.failures
  nodup := h

/-- The table of the failures says what `_failures` holds. -/
theorem get_table (h : a.clients.Nodup) : (a.table h).get client = a.failuresOf client := by
  unfold Dict.get failuresOf
  congr
  exact lawful_beq_subsingleton _ _

/-- A client is in the table when it has an entry. -/
theorem mem_clients : client ∈ a.clients ↔ a.failures.any (·.1 = client) = true := by
  rw [clients, List.any_eq_true, List.mem_map]
  simp

/-- An entry is put into the table. -/
theorem setFailures_failures (client : Str) (times : List ℚ) (h : a.clients.Nodup) :
    (a.setFailures client times).failures = ((a.table h).put client times).entries := by
  have hhas : (a.table h).has client = true ↔ a.failures.any (·.1 = client) = true :=
    Iff.trans (Dict.has_iff (κ := Str) (d := a.table h)) mem_clients
  by_cases hmem : a.failures.any (·.1 = client) = true
  · rw [setFailures, if_pos hmem, Dict.put, dif_pos (hhas.mpr hmem)]
    rfl
  · rw [setFailures, if_neg hmem, Dict.put, dif_neg fun hin => hmem (hhas.mp hin)]
    rfl

/-- Every client keeps one entry. -/
theorem nodup_setFailures (h : a.clients.Nodup) : (a.setFailures client times).clients.Nodup := by
  rw [clients, setFailures_failures client times h]
  exact ((a.table h).put client times).nodup

/-- The times of a client are those that were put last. -/
theorem timesOf_setFailures (h : a.clients.Nodup) : (a.setFailures client times).timesOf client' =
    if client' = client then times else a.timesOf client' := by
  have hput : (a.setFailures client times).table (nodup_setFailures h) =
      (a.table h).put client times := by
    have hentries := setFailures_failures client times h
    rw [table]
    congr
  rw [timesOf, ← get_table (nodup_setFailures h), hput, Dict.get_put]
  split
  · rfl
  · rw [get_table h, timesOf]

/-- A client of the table keeps its place. -/
theorem clients_setFailures_of_mem (times : List ℚ) (h : client ∈ a.clients) :
    (a.setFailures client times).clients = a.clients := by
  rw [setFailures, if_pos (mem_clients.mp h), clients, List.map_map]
  have hfst : (Prod.fst ∘ fun f : Str × List ℚ => if f.1 = client then (client, times) else f) =
      Prod.fst := by
    funext f
    simp only [Function.comp]
    split
    · exact Eq.symm ‹_›
    · rfl
  rw [hfst]
  rfl

/-- A new client comes last. -/
theorem clients_setFailures_of_not_mem (h : client ∉ a.clients) :
    (a.setFailures client times).clients = a.clients ++ [client] := by
  rw [setFailures, if_neg fun hany => h (mem_clients.mpr hany)]
  simp [clients]

/-- The client is in the table then. -/
theorem mem_clients_setFailures :
    client' ∈ (a.setFailures client times).clients ↔ client' = client ∨ client' ∈ a.clients := by
  by_cases hmem : client ∈ a.clients
  · rw [clients_setFailures_of_mem times hmem]
    refine ⟨.inr, fun hin => hin.elim (fun heq => ?_) id⟩
    rwa [heq]
  · rw [clients_setFailures_of_not_mem hmem, List.mem_append, List.mem_singleton, or_comm]

/-! ### One attempt -/

/-- A look whether a client is blocked, and the failure if not. -/
def refuse (a : Auth) (mono : ℚ) (client : Str) : Auth × Answer :=
  let b := a.blocked mono client
  if b.2 then (b.1, .blocked) else (b.1.failed mono client, .failed)

/-- `blocked` forgets the early times of its client. -/
theorem timesOf_blocked (h : a.clients.Nodup) : (a.blocked mono client).1.timesOf client' =
    if client' = client then (a.timesOf client).dropWhile (· < mono - failureWindow)
    else a.timesOf client' := by
  have hnil : a.timesOf client = [] → a.timesOf client' =
      if client' = client then (a.timesOf client).dropWhile (· < mono - failureWindow)
      else a.timesOf client' := by
    intro hempty
    split
    · rename_i heq
      rw [heq, hempty]
      rfl
    · rfl
  unfold blocked
  split
  · rename_i hnone
    exact hnil (by rw [timesOf, hnone]; rfl)
  · rename_i hempty
    exact hnil (by rw [timesOf, hempty]; rfl)
  · rename_i times _ htimes
    have hget : a.timesOf client = times := by rw [timesOf, htimes]; rfl
    rw [timesOf_setFailures h, hget]

/-- A client is blocked by its late times. -/
theorem blocked_iff : (a.blocked mono client).2 = true ↔
    maxFailures ≤ ((a.timesOf client).dropWhile (· < mono - failureWindow)).length := by
  have hnil : a.timesOf client = [] → (false = true ↔
      maxFailures ≤ ((a.timesOf client).dropWhile (· < mono - failureWindow)).length) := by
    intro hempty
    rw [hempty]
    simp [maxFailures]
  unfold blocked
  split
  · rename_i hnone
    exact hnil (by rw [timesOf, hnone]; rfl)
  · rename_i hempty
    exact hnil (by rw [timesOf, hempty]; rfl)
  · rename_i times _ htimes
    have hget : a.timesOf client = times := by rw [timesOf, htimes]; rfl
    rw [hget, decide_eq_true_iff]

/-- `blocked` takes no client out. -/
theorem blocked_table : (a.blocked mono client).1.clients = a.clients ∧
    (a.blocked mono client).1.full = a.full := by
  unfold blocked
  split
  · exact ⟨rfl, rfl⟩
  · exact ⟨rfl, rfl⟩
  · rename_i times _ htimes
    have hmem : client ∈ a.clients := by
      obtain ⟨before, after, heq, -⟩ := List.lookup_eq_some_iff.mp htimes
      rw [clients, heq]
      simp
    have hclients := clients_setFailures_of_mem (times.dropWhile (· < mono - failureWindow)) hmem
    refine ⟨hclients, ?_⟩
    have hlen := congrArg List.length hclients
    rw [clients, clients, List.length_map, List.length_map] at hlen
    rw [full, full, hlen]

/-- A full table is emptied for the next failure. -/
theorem timesOf_failed_full (hfull : a.full = true) : (a.failed mono client).timesOf client' =
    if client' = client then [mono] else [] := by
  have hfull' : 10000 < a.failures.length := of_decide_eq_true hfull
  have hnodup : ({ a with failures := [] } : Auth).clients.Nodup := List.nodup_nil
  rw [failed, if_pos hfull', timesOf_setFailures hnodup]
  rfl

/-- One client is in it then. -/
theorem mem_clients_failed_full (hfull : a.full = true) :
    client' ∈ (a.failed mono client).clients ↔ client' = client := by
  have hfull' : 10000 < a.failures.length := of_decide_eq_true hfull
  rw [failed, if_pos hfull', mem_clients_setFailures]
  simp [clients]

/-- A failure is noted behind the others. -/
theorem timesOf_failed (h : a.clients.Nodup) (hfull : a.full = false)
    (hshort : (a.timesOf client).length < maxFailures) :
    (a.failed mono client).timesOf client' =
      if client' = client then a.timesOf client ++ [mono] else a.timesOf client' := by
  have hfull' : ¬10000 < a.failures.length := of_decide_eq_false hfull
  have hdrop : ((a.failuresOf client).getD [] ++ [mono]).length - maxFailures = 0 := by
    rw [List.length_append, List.length_singleton]
    change (a.timesOf client).length + 1 - maxFailures = 0
    omega
  rw [failed, if_neg hfull', timesOf_setFailures h, hdrop]
  rfl

/-- Its client is in the table then. -/
theorem mem_clients_failed (hfull : a.full = false) :
    client' ∈ (a.failed mono client).clients ↔ client' = client ∨ client' ∈ a.clients := by
  have hfull' : ¬10000 < a.failures.length := of_decide_eq_false hfull
  rw [failed, if_neg hfull', mem_clients_setFailures]

/-- Every client has one entry still. -/
theorem nodup_failed (h : a.clients.Nodup) : (a.failed mono client).clients.Nodup := by
  rw [failed]
  refine nodup_setFailures ?_
  split
  · exact List.nodup_nil
  · exact h

end Auth

/-! ### The table and the log -/

open Attempt (isFailureOf)

/-- The times of the failures of a client. -/
def failureTimes (client : Str) (log : List Attempt) : List ℚ :=
  (log.filter (isFailureOf client)).map Attempt.time

/-- The failures of one more attempt. -/
theorem failureTimes_concat {client : Str} {log : List Attempt} {x : Attempt} :
    failureTimes client (log ++ [x]) =
      failureTimes client log ++ if isFailureOf client x = true then [x.time] else [] := by
  rw [failureTimes, failureTimes, List.filter_append, List.map_append, List.filter_singleton]
  cases isFailureOf client x
  · rfl
  · rfl

/-- The attempts of the log come one after the other, and before `mono`. -/
structure InOrder (mono : ℚ) (log : List Attempt) : Prop where
  sorted : log.Pairwise (·.time ≤ ·.time)
  le : ∀ e ∈ log, e.time ≤ mono

/-- The table holds the failures since the last time all were forgotten, without some that
are too old. -/
structure Tracks (a : Auth) (mono : ℚ) (log : List Attempt) : Prop where
  nodup : a.clients.Nodup
  clients : ∀ c ∈ a.clients, ∃ e ∈ Log.since Attempt.forgets log, isFailureOf c e = true
  times : ∀ c, ∃ old, failureTimes c (Log.since Attempt.forgets log) = old ++ a.timesOf c ∧
    ∀ t ∈ old, t < mono - failureWindow

section Table

variable {a : Auth} {mono mono' : ℚ} {client : Str} {log : List Attempt} {x : Attempt}

/-- Only the failures matter. -/
theorem Tracks.congr {a' : Auth} (h : Tracks a mono log) (heq : a'.failures = a.failures) :
    Tracks a' mono log := by
  have htimes : ∀ c, a'.timesOf c = a.timesOf c := fun c => by
    rw [Auth.timesOf, Auth.failuresOf, heq]
    rfl
  have hclients : a'.clients = a.clients := congrArg (List.map Prod.fst) heq
  exact ⟨hclients ▸ h.nodup, hclients ▸ h.clients, fun c => htimes c ▸ h.times c⟩

/-- Time passes. -/
theorem InOrder.wait (h : InOrder mono log) (hle : mono ≤ mono') : InOrder mono' log :=
  ⟨h.sorted, fun e he => (h.le e he).trans hle⟩

/-- One more attempt, now. -/
theorem InOrder.concat (h : InOrder mono log) (hx : x.time = mono) : InOrder mono (log ++ [x]) := by
  constructor
  · refine List.pairwise_append.mpr ⟨h.sorted, List.pairwise_singleton _ _, fun e he y hy => ?_⟩
    rw [List.mem_singleton.mp hy, hx]
    exact h.le e he
  · intro e he
    rcases List.mem_append.mp he with he | he
    · exact h.le e he
    · rw [List.mem_singleton.mp he, hx]

/-- Time passes, and nothing is forgotten. -/
theorem Tracks.wait (h : Tracks a mono log) (hle : mono ≤ mono') : Tracks a mono' log := by
  refine ⟨h.nodup, h.clients, fun c => ?_⟩
  obtain ⟨old, heq, hold⟩ := h.times c
  exact ⟨old, heq, fun t ht => (hold t ht).trans_le (sub_le_sub_right hle _)⟩

/-- A look at a client drops what is too old. -/
theorem Tracks.blocked (h : Tracks a mono log) (client : Str) :
    Tracks (a.blocked mono client).1 mono log := by
  have hclients : (a.blocked mono client).1.clients = a.clients := Auth.blocked_table.1
  refine ⟨by rw [hclients]; exact h.nodup, fun c hc => h.clients c (hclients ▸ hc), fun c => ?_⟩
  obtain ⟨old, heq, hold⟩ := h.times c
  rw [Auth.timesOf_blocked h.nodup]
  split
  · rename_i hc
    subst hc
    refine ⟨old ++ (a.timesOf c).takeWhile (· < mono - failureWindow), ?_, fun t ht => ?_⟩
    · rw [heq, List.append_assoc, List.takeWhile_append_dropWhile]
    · rcases List.mem_append.mp ht with ht | ht
      · exact hold t ht
      · have hlt := List.mem_takeWhile_imp ht
        exact of_decide_eq_true hlt
  · exact ⟨old, heq, hold⟩

/-- What `blocked` counts are the failures of the window. -/
theorem Tracks.length_window (h : Tracks a mono log) (horder : InOrder mono log) (c : Str) :
    ((a.timesOf c).dropWhile (· < mono - failureWindow)).length =
      Log.between Attempt.time (isFailureOf c) (mono - failureWindow) mono
        (Log.since Attempt.forgets log) := by
  obtain ⟨old, heq, hold⟩ := h.times c
  -- the times are in order, so those that are dropped are the ones before the window
  have hsorted : (failureTimes c (Log.since Attempt.forgets log)).Pairwise (· ≤ ·) := by
    refine List.pairwise_map.mpr (List.Pairwise.filter _ ?_)
    exact horder.sorted.sublist Log.since_sublist
  have htimes : (a.timesOf c).Pairwise (· ≤ ·) := by
    rw [heq] at hsorted
    exact (List.pairwise_append.mp hsorted).2.1
  have hfilter : (failureTimes c (Log.since Attempt.forgets log)).filter
      (mono - failureWindow ≤ ·) = (a.timesOf c).filter (mono - failureWindow ≤ ·) := by
    have hnil : old.filter (mono - failureWindow ≤ ·) = [] := by
      refine List.filter_eq_nil_iff.mpr fun t ht hle => ?_
      exact (hold t ht).not_ge (of_decide_eq_true hle)
    rw [heq, List.filter_append, hnil, List.nil_append]
  rw [dropWhile_eq_filter htimes, ← hfilter, failureTimes, List.filter_map, List.length_map,
    List.filter_filter, ← List.countP_eq_length_filter]
  refine List.countP_congr fun e he => ?_
  have hle : e.time ≤ mono := horder.le e (Log.mem_of_mem_since he)
  simp [hle, and_comm]

/-- An attempt that is no failure leaves the table. -/
theorem Tracks.other (h : Tracks a mono log) (hx : x.isFailure = false)
    (hforgets : x.forgets = false) : Tracks a mono (log ++ [x]) := by
  have hsince : Log.since Attempt.forgets (log ++ [x]) = Log.since Attempt.forgets log ++ [x] := by
    rw [Log.since_concat, hforgets]
    rfl
  refine ⟨h.nodup, fun c hc => ?_, fun c => ?_⟩
  · obtain ⟨e, he, hfailure⟩ := h.clients c hc
    exact ⟨e, by rw [hsince]; exact List.mem_append_left _ he, hfailure⟩
  · obtain ⟨old, heq, hold⟩ := h.times c
    refine ⟨old, ?_, hold⟩
    have hno : ¬isFailureOf c x = true := by simp [isFailureOf, hx]
    rw [hsince, failureTimes_concat, if_neg hno, List.append_nil]
    exact heq

/-- A failure is recorded. -/
theorem Tracks.failed (h : Tracks a mono log) (hshort : (a.timesOf client).length < maxFailures)
    (hx : x.isFailure = true) (hclient : x.client = client) (htime : x.time = mono)
    (hforgets : x.forgets = a.full) : Tracks (a.failed mono client) mono (log ++ [x]) := by
  have hof : ∀ c, isFailureOf c x = true ↔ c = client := by
    intro c
    simp [isFailureOf, hx, hclient, eq_comm]
  have hlast : x ∈ Log.since Attempt.forgets (log ++ [x]) := by
    rw [Log.since_concat]
    split
    · exact List.mem_singleton_self x
    · exact List.mem_append_right _ (List.mem_singleton_self x)
  refine ⟨Auth.nodup_failed h.nodup, fun c hc => ?_, fun c => ?_⟩
  · by_cases hc' : c = client
    · exact ⟨x, hlast, (hof c).mpr hc'⟩
    · cases hfull : a.full with
      | true => exact absurd ((Auth.mem_clients_failed_full hfull).mp hc) hc'
      | false =>
        have hold := ((Auth.mem_clients_failed hfull).mp hc).resolve_left hc'
        obtain ⟨e, he, hfailure⟩ := h.clients c hold
        refine ⟨e, ?_, hfailure⟩
        rw [Log.since_concat, hforgets, hfull]
        exact List.mem_append_left _ he
  · cases hfull : a.full with
    | true =>
      -- only the new failure is left
      refine ⟨[], ?_, fun t ht => absurd ht List.not_mem_nil⟩
      rw [Log.since_concat, hforgets, hfull, if_pos rfl, Auth.timesOf_failed_full hfull,
        ← List.nil_append [x], failureTimes_concat, htime]
      by_cases hc : c = client
      · rw [if_pos ((hof c).mpr hc), if_pos hc]
        rfl
      · rw [if_neg fun hin => hc ((hof c).mp hin), if_neg hc]
        rfl
    | false =>
      obtain ⟨old, heq, hold⟩ := h.times c
      refine ⟨old, ?_, hold⟩
      rw [Log.since_concat, hforgets, hfull, if_neg Bool.false_ne_true, failureTimes_concat, heq,
        Auth.timesOf_failed h.nodup hfull hshort, htime]
      by_cases hc : c = client
      · rw [if_pos ((hof c).mpr hc), if_pos hc, hc, List.append_assoc]
      · rw [if_neg fun hin => hc ((hof c).mp hin), if_neg hc, List.append_nil]

/-- A table with many clients comes from the failures of as many. -/
theorem Tracks.length_clients (h : Tracks a mono log) : a.failures.length ≤
    (((Log.since Attempt.forgets log).filter Attempt.isFailure).map
      Attempt.client).dedup.length := by
  have hsub : a.clients ⊆
      (((Log.since Attempt.forgets log).filter Attempt.isFailure).map Attempt.client).dedup := by
    intro c hc
    obtain ⟨e, he, hfailure⟩ := h.clients c hc
    obtain ⟨hfail, hclient⟩ := of_decide_eq_true hfailure
    exact List.mem_dedup.mpr (List.mem_map.mpr ⟨e, List.mem_filter.mpr ⟨he, hfail⟩, hclient⟩)
  have hlen := (h.nodup.subperm hsub).length_le
  rwa [Auth.clients, List.length_map] at hlen

end Table

end Access

end AndroidAppliance
