import AndroidAppliance.Session.Viewer

/-!
# The messages of a stream

Messages carry no stream number, so a viewer goes by their order. `Ordered` says which order
that is: a `configured` directly follows the `starting` of its stream, and a `jsep` follows
the `configured` of its stream with nothing in between but others of it. `Reported` says how
often an end is reported, and that nothing about a stream comes after its end.
-/

namespace AndroidAppliance

namespace Session

/-- No message about streams. -/
def Entry.aside : Entry → Bool
  | .error _ _ _ | .other => true
  | .starting _ | .configured _ _ | .ended _ _ | .stopped | .jsep _ _ | .left _ => false

/-- The stream that an entry is about. -/
def Entry.about : Entry → Option Own
  | .starting k | .configured k _ | .ended k _ | .jsep k _ | .left k => some k
  | .stopped | .error _ _ _ | .other => none

/-- A report of the end of `k`. -/
def Entry.ends (k : Own) : Entry → Bool
  | .ended k' _ => k' = k
  | .starting _ | .configured _ _ | .stopped | .jsep _ _ | .error _ _ _ | .other | .left _ =>
    false

/-- After this entry `k` is not the current stream any more. -/
def Entry.finished (k : Own) : Entry → Bool
  | .ended k' _ | .left k' => k' = k
  | .starting _ | .configured _ _ | .stopped | .jsep _ _ | .error _ _ _ | .other => false

/-- The last message about streams is the `starting` of `k`. -/
def Announced (log : List Entry) (k : Own) : Prop :=
  ∃ before after, log = before ++ .starting k :: after ∧ ∀ x ∈ after, x.aside = true

/-- The last message about streams, but for the `jsep` messages of `k`, is the `configured`
of `k`. -/
def Streams (log : List Entry) (k : Own) : Prop :=
  ∃ before servers after, log = before ++ .configured k servers :: after ∧
    ∀ x ∈ after, x.aside = true ∨ ∃ data, x = .jsep k data

/-- Every `configured` and every `jsep` stands where it belongs. -/
structure Ordered (log : List Entry) : Prop where
  configured : ∀ before k servers after, log = before ++ .configured k servers :: after →
    Announced before k
  jsep : ∀ before k data after, log = before ++ .jsep k data :: after → Streams before k

/-- The end of a stream is reported at most once, and nothing about the stream comes after its
end, or after a stop or a start has dropped it. -/
structure Reported (log : List Entry) : Prop where
  once : ∀ k, log.countP (·.ends k) ≤ 1
  finished : ∀ before x after k, log = before ++ x :: after → x.finished k = true →
    ∀ y ∈ after, y.about ≠ some k

variable {log : List Entry} {k : Own} {x : Entry}

/-- A place in an extended log is its end or a place before. -/
theorem append_split {before after : List Entry} {y : Entry}
    (h : log ++ [x] = before ++ y :: after) :
    after = [] ∧ y = x ∧ before = log ∨
      ∃ rest, after = rest ++ [x] ∧ log = before ++ y :: rest := by
  rcases List.eq_nil_or_concat' after with rfl | ⟨rest, z, rfl⟩
  · obtain ⟨hlog, hx⟩ := List.append_inj' h rfl
    cases hx
    exact .inl ⟨rfl, rfl, hlog.symm⟩
  · have h' : log ++ [x] = (before ++ y :: rest) ++ [z] := by simpa using h
    obtain ⟨hlog, hx⟩ := List.append_inj' h' rfl
    cases hx
    exact .inr ⟨rest, rfl, hlog⟩

theorem Announced.append (h : Announced log k) (hx : x.aside = true) :
    Announced (log ++ [x]) k := by
  obtain ⟨before, after, rfl, hafter⟩ := h
  refine ⟨before, after ++ [x], by simp, fun y hy => ?_⟩
  rcases List.mem_append.mp hy with hy | hy
  · exact hafter y hy
  · rw [List.mem_singleton.mp hy]
    exact hx

theorem Streams.append (h : Streams log k) (hx : x.aside = true ∨ ∃ data, x = .jsep k data) :
    Streams (log ++ [x]) k := by
  obtain ⟨before, servers, after, rfl, hafter⟩ := h
  refine ⟨before, servers, after ++ [x], by simp, fun y hy => ?_⟩
  rcases List.mem_append.mp hy with hy | hy
  · exact hafter y hy
  · rw [List.mem_singleton.mp hy]
    exact hx

/-- A log without messages about streams. -/
theorem Ordered.of_asides (h : ∀ x ∈ log, x.aside = true) : Ordered log := by
  constructor
  · intro before k servers after heq
    have hx := h (.configured k servers) (by rw [heq]; simp)
    cases hx
  · intro before k data after heq
    have hx := h (.jsep k data) (by rw [heq]; simp)
    cases hx

theorem about_of_finished (h : x.finished k = true) : x.about = some k := by
  cases x with
  | ended k' reason => exact congrArg some (of_decide_eq_true h)
  | left k' => exact congrArg some (of_decide_eq_true h)
  | starting | configured | stopped | jsep | error | other => cases h

theorem finished_of_ends (h : x.ends k = true) : x.finished k = true := by
  cases x with
  | ended k' reason => exact h
  | starting | configured | stopped | jsep | error | other | left => cases h

theorem about_of_aside (h : x.aside = true) : x.about = none := by
  cases x with
  | error | other => rfl
  | starting | configured | ended | stopped | jsep | left => cases h

/-- No message is about a stream. -/
theorem Reported.of_abouts (h : ∀ x ∈ log, x.about = none) : Reported log := by
  have hover : ∀ x ∈ log, ∀ k, x.finished k = false := by
    intro x hx k
    by_contra hne
    have habout := about_of_finished (Bool.not_eq_false _ |>.mp hne)
    rw [h x hx] at habout
    cases habout
  constructor
  · intro k
    have hzero : log.countP (·.ends k) = 0 := by
      rw [List.countP_eq_zero]
      intro x hx hk
      have hk' := finished_of_ends hk
      rw [hover x hx k] at hk'
      cases hk'
    rw [hzero]
    exact Nat.zero_le 1
  · intro before x after k heq hk
    rw [hover x (by rw [heq]; simp) k] at hk
    cases hk

/-- The log goes on with a message that is in its place. -/
theorem Ordered.append (h : Ordered log)
    (hconfigured : ∀ k servers, x = .configured k servers → Announced log k)
    (hjsep : ∀ k data, x = .jsep k data → Streams log k) : Ordered (log ++ [x]) := by
  constructor
  · intro before k servers after heq
    rcases append_split heq with ⟨-, hy, rfl⟩ | ⟨rest, -, hlog⟩
    · exact hconfigured k servers hy.symm
    · exact h.configured before k servers rest hlog
  · intro before k data after heq
    rcases append_split heq with ⟨-, hy, rfl⟩ | ⟨rest, -, hlog⟩
    · exact hjsep k data hy.symm
    · exact h.jsep before k data rest hlog

/-- The log goes on with a message about a stream that is not over yet, or about none. -/
theorem Reported.append (h : Reported log) (hx : ∀ k ∈ x.about, ∀ y ∈ log, y.finished k = false) :
    Reported (log ++ [x]) := by
  constructor
  · intro k
    rw [List.countP_append]
    cases hends : x.ends k with
    | false =>
      have hnone : [x].countP (·.ends k) = 0 := by simp [hends]
      rw [hnone]
      exact h.once k
    | true =>
      have habout := about_of_finished (finished_of_ends hends)
      have hzero : log.countP (·.ends k) = 0 := by
        rw [List.countP_eq_zero]
        intro y hy hk
        have hover := finished_of_ends hk
        rw [hx k habout y hy] at hover
        cases hover
      rw [hzero, Nat.zero_add]
      exact List.countP_le_length
  · intro before y after k heq hy z hz
    rcases append_split heq with ⟨rfl, -, -⟩ | ⟨rest, rfl, hlog⟩
    · cases hz
    · rcases List.mem_append.mp hz with hz | hz
      · exact h.finished before y rest k hlog hy z hz
      · rw [List.mem_singleton.mp hz]
        intro hk
        have hmem : y ∈ log := by rw [hlog]; simp
        rw [hx k hk y hmem] at hy
        cases hy

end Session

end AndroidAppliance
