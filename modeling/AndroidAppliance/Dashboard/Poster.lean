import AndroidAppliance.Transition.Machine
import AndroidAppliance.Transition.Table
import Mathlib.Algebra.Order.Group.Nat

/-!
# The poster of the dashboard

`Poster` of `web/js/poster.js`, with the `update` and `display` of `web/js/main.js` that drive it.
A screenshot takes a while, and its answer may come when nobody wants it any more: the state
keeps every fetch that was started and every object URL that was created, so that none of them
is forgotten.

`poster_polite` is what the header of the file asks for: no fetch begins unless Android runs
without a frame, and while nothing else happens there are at most eight more. The answers of old
fetches change nothing, and one object URL at most is not revoked, that of the picture.
-/

namespace AndroidAppliance

namespace Dashboard

/-! ### `web/js/poster.js` -/

/-- `REFRESHES`. -/
def refreshes : Int := 8

/-- A `screenshot`, and its `AbortController`. -/
structure Fetch where
  aborted : Bool
  settled : Bool
  deriving DecidableEq, Repr

/-- The fields of `Poster`, and all fetches and object URLs. -/
structure Poster where
  wanted : Bool
  /-- The interval of `#timer` runs. -/
  ticking : Bool
  /-- `#abort`: the fetch that was started last. -/
  abort : Option Nat
  left : Int
  hash : Option String
  loaded : Bool
  /-- `#img.src`: the object URL of the picture. -/
  src : Option Nat
  fetches : List Fetch
  /-- The object URLs, and whether they are revoked. -/
  urls : List Bool
  deriving DecidableEq, Repr

namespace Poster

/-- The constructor. -/
def new : Poster where
  wanted := false
  ticking := false
  abort := none
  left := 0
  hash := none
  loaded := false
  src := none
  fetches := []
  urls := []

/-- `this.#abort?.abort()`. -/
def aborted (p : Poster) : List Fetch :=
  p.abort.elim p.fetches fun i => p.fetches.modify i fun f => { f with aborted := true }

/-- `refresh`, until the answer. -/
def refresh (p : Poster) : Poster :=
  { p with fetches := p.aborted ++ [⟨false, false⟩], abort := some p.fetches.length }

/-- `want`. -/
def want (p : Poster) (wanted : Bool) : Poster :=
  if wanted = p.wanted then p
  else if wanted then
    { refresh { p with wanted := true, left := refreshes, hash := none } with ticking := true }
  else { p with wanted := false, ticking := false, fetches := p.aborted }

/-- `rearm`. -/
def rearm (p : Poster) : Poster := { p with left := refreshes }

/-- The interval. -/
def tick (p : Poster) : Poster :=
  let next := { p with left := p.left - 1 }
  if 0 < p.left then next.refresh else next

/-- `display`. -/
def display (p : Poster) (hash : String) : Poster :=
  let next := if p.wanted = true ∧ p.hash ≠ none ∧ p.hash ≠ some hash then p.refresh else p
  { next with hash := some hash }

/-- The object URLs without the one of the picture. -/
def revoked (p : Poster) : List Bool := p.src.elim p.urls fun url => p.urls.set url true

/-- `clear`. -/
def clear (p : Poster) : Poster :=
  if p.loaded then { p with loaded := false, urls := p.revoked, src := none } else p

/-- `refresh`, with the answer of a fetch that is aborted or is not. -/
def answer (p : Poster) (aborted : Bool) : Poster :=
  if aborted then { p with urls := p.urls ++ [true] }
  else { p with urls := p.revoked ++ [false], src := some p.urls.length, loaded := true }

end Poster

/-! ### `web/js/main.js` -/

/-- What the poster is told of. -/
structure PosterPage where
  running : Bool
  frameSeen : Bool
  poster : Poster
  deriving DecidableEq, Repr

/-- What happens to the poster of a page. -/
inductive PosterEvent
  /-- Whether Android runs and whether there is a frame, and `update`. -/
  | page (running frameSeen : Bool)
  /-- Somebody is looking again. -/
  | rearm
  /-- A message about the display. -/
  | display (hash : String)
  | tick
  /-- A fetch has its screenshot. -/
  | got (i : Nat)
  | failed (i : Nat)
  deriving DecidableEq, Repr

namespace PosterPage

/-- `update`. -/
def update (s : PosterPage) : PosterPage :=
  let p := if s.running then s.poster else s.poster.clear
  { s with poster := p.want (s.running && !s.frameSeen) }

/-- The fetch is settled. -/
def ended (s : PosterPage) (i : Nat) : Poster :=
  { s.poster with fetches := s.poster.fetches.modify i fun f => { f with settled := true } }

/-- One event; `none` when it cannot happen. -/
def step (s : PosterPage) : PosterEvent → Option PosterPage
  | .page running frameSeen => some (update { s with running, frameSeen })
  | .rearm => some { s with poster := s.poster.rearm }
  | .display hash =>
    some (if s.frameSeen then s else { s with poster := s.poster.display hash })
  | .tick => if s.poster.ticking then some { s with poster := s.poster.tick } else none
  | .got i =>
    match s.poster.fetches[i]? with
    | none | some ⟨_, true⟩ => none
    | some ⟨true, false⟩ => some { s with poster := (s.ended i).answer true }
    -- a new picture is a change of the page
    | some ⟨false, false⟩ => some (update { s with poster := (s.ended i).answer false })
  | .failed i =>
    match s.poster.fetches[i]? with
    | none | some ⟨_, true⟩ => none
    | some ⟨_, false⟩ => some { s with poster := s.ended i }

end PosterPage

/-- The posters and their events. -/
def posterMachine : Machine PosterPage PosterEvent where
  Init s := s = ⟨false, false, .new⟩
  step := PosterPage.step

/-! ### What is always so -/

namespace Poster

variable {p : Poster} {i : Nat} {f : Fetch}

/-- Only the fetch of `#abort` is not aborted, and it is wanted. -/
def Live (p : Poster) : Prop :=
  ∀ (i : Nat) (f : Fetch), p.fetches[i]? = some f → f.aborted = false →
    p.abort = some i ∧ p.wanted = true

/-- The object URL that is not revoked is that of the picture. -/
def Kept (p : Poster) : Prop := ∀ i : Nat, p.urls[i]? = some false ↔ p.src = some i

/-- What the fields of a poster agree on. -/
structure Ok (p : Poster) : Prop where
  ticking : p.ticking = p.wanted
  live : p.Live
  kept : p.Kept
  loaded : p.loaded = p.src.isSome
  left : p.left ≤ refreshes

/-- An aborted fetch stays in the list. -/
theorem length_aborted (p : Poster) : p.aborted.length = p.fetches.length := by
  unfold aborted
  cases p.abort with
  | none => rfl
  | some i => exact List.length_modify ..

/-- So does a revoked URL. -/
theorem length_revoked (p : Poster) : p.revoked.length = p.urls.length := by
  unfold revoked
  cases p.src with
  | none => rfl
  | some i => exact List.length_set ..

/-- `abort` leaves nothing that is not aborted. -/
theorem Live.aborted (h : p.Live) (hf : p.aborted[i]? = some f) : f.aborted = true := by
  by_contra hlive
  rw [Bool.not_eq_true] at hlive
  unfold Poster.aborted at hf
  cases habort : p.abort with
  | none =>
    rw [habort] at hf
    have hsome := (h i f hf hlive).1
    rw [habort] at hsome
    cases hsome
  | some j =>
    rw [habort] at hf
    obtain ⟨g, hg, hcase⟩ := Table.cases_modify hf
    rcases hcase with ⟨-, rfl⟩ | ⟨hne, rfl⟩
    · cases hlive
    · have hsome := (h i f hg hlive).1
      rw [habort] at hsome
      exact hne (Option.some.inj hsome)

/-- `revokeObjectURL` leaves no object URL. -/
theorem Kept.revoked (h : p.Kept) : p.revoked[i]? ≠ some false := by
  intro hi
  unfold Poster.revoked at hi
  cases hsrc : p.src with
  | none =>
    rw [hsrc] at hi
    have hsome := (h i).mp hi
    rw [hsrc] at hsome
    cases hsome
  | some j =>
    rw [hsrc] at hi
    rcases Table.cases_set hi with ⟨-, hfalse⟩ | ⟨hne, hold⟩
    · cases hfalse
    · have hsome := (h i).mp hold
      rw [hsrc] at hsome
      exact hne (Option.some.inj hsome)

/-- A new fetch aborts the one before. -/
theorem Live.refresh (h : p.Live) (hwanted : p.wanted = true) : p.refresh.Live := by
  intro i f hf hlive
  rcases Table.cases_append hf with hold | ⟨rfl, -⟩
  · rw [h.aborted hold] at hlive
    cases hlive
  · refine ⟨?_, hwanted⟩
    rw [length_aborted]
    rfl

/-- A refresh of a poster that is wanted. -/
theorem Ok.refresh (h : p.Ok) (hwanted : p.wanted = true) : p.refresh.Ok :=
  ⟨h.ticking, h.live.refresh hwanted, h.kept, h.loaded, h.left⟩

/-- The poster is wanted, or is not any more. -/
theorem Ok.want (h : p.Ok) (wanted : Bool) : (p.want wanted).Ok := by
  unfold Poster.want
  by_cases hsame : wanted = p.wanted
  · rwa [if_pos hsame]
  · rw [if_neg hsame]
    cases wanted with
    | true =>
      have hlive : ({ p with wanted := true, left := refreshes, hash := none } : Poster).Live :=
        fun i f hf hf' => ⟨(h.live i f hf hf').1, rfl⟩
      exact ⟨rfl, hlive.refresh rfl, h.kept, h.loaded, Int.le_refl _⟩
    | false =>
      refine ⟨rfl, fun i f hf hlive => ?_, h.kept, h.loaded, h.left⟩
      rw [h.live.aborted hf] at hlive
      cases hlive

/-- It is wanted then. -/
theorem wanted_want (p : Poster) (wanted : Bool) : (p.want wanted).wanted = wanted := by
  unfold Poster.want
  by_cases hsame : wanted = p.wanted
  · rw [if_pos hsame, hsame]
  · rw [if_neg hsame]
    cases wanted <;> rfl

/-- Somebody looks again. -/
theorem Ok.rearm (h : p.Ok) : p.rearm.Ok := ⟨h.ticking, h.live, h.kept, h.loaded, Int.le_refl _⟩

/-- The interval ticks. -/
theorem Ok.tick (h : p.Ok) (hticking : p.ticking = true) : p.tick.Ok := by
  have hnext : ({ p with left := p.left - 1 } : Poster).Ok :=
    ⟨h.ticking, h.live, h.kept, h.loaded, Int.le_trans (Int.sub_le_self _ Int.one_nonneg) h.left⟩
  unfold Poster.tick
  split
  · exact hnext.refresh (h.ticking ▸ hticking)
  · exact hnext

/-- A message about the display. -/
theorem Ok.display (h : p.Ok) (hash : String) : (p.display hash).Ok := by
  unfold Poster.display
  by_cases hchanged : p.wanted = true ∧ p.hash ≠ none ∧ p.hash ≠ some hash
  · have hrefresh := h.refresh hchanged.1
    simp only [if_pos hchanged]
    exact ⟨hrefresh.ticking, hrefresh.live, hrefresh.kept, hrefresh.loaded, hrefresh.left⟩
  · simp only [if_neg hchanged]
    exact ⟨h.ticking, h.live, h.kept, h.loaded, h.left⟩

/-- The picture goes. -/
theorem Ok.clear (h : p.Ok) : p.clear.Ok := by
  unfold Poster.clear
  split
  · exact ⟨h.ticking, h.live, fun i => iff_of_false h.kept.revoked nofun, rfl, h.left⟩
  · exact h

/-- A screenshot arrives. -/
theorem Ok.answer (h : p.Ok) (aborted : Bool) : (p.answer aborted).Ok := by
  unfold Poster.answer
  cases aborted with
  | true =>
    refine ⟨h.ticking, h.live, fun i => ?_, h.loaded, h.left⟩
    refine Iff.trans ⟨fun hi => ?_, Table.append_old⟩ (h.kept i)
    rcases Table.cases_append hi with hold | ⟨-, hfalse⟩
    · exact hold
    · cases hfalse
  | false =>
    refine ⟨h.ticking, h.live, fun i => ⟨fun hi => ?_, fun hi => ?_⟩, rfl, h.left⟩
    · rcases Table.cases_append hi with hold | ⟨rfl, -⟩
      · exact absurd hold h.kept.revoked
      · exact congrArg some (length_revoked p).symm
    · cases hi
      rw [← length_revoked]
      exact Table.append_new

end Poster

namespace PosterPage

variable {s s' : PosterPage} {e : PosterEvent} {i : Nat}

/-- A fetch that is over keeps the poster. -/
theorem ok_ended (h : s.poster.Ok) (i : Nat) : (s.ended i).Ok := by
  refine ⟨h.ticking, fun j f hf hlive => ?_, h.kept, h.loaded, h.left⟩
  obtain ⟨g, hg, hcase⟩ := Table.cases_modify hf
  rcases hcase with ⟨-, rfl⟩ | ⟨-, rfl⟩
  · exact h.live j g hg hlive
  · exact h.live j f hg hlive

/-- An answer that was waited for. -/
theorem step_got {i : Nat} (hstep : s.step (.got i) = some s') :
    s' = { s with poster := (s.ended i).answer true } ∨
      s' = update { s with poster := (s.ended i).answer false } := by
  simp only [step] at hstep
  split at hstep
  · cases hstep
  · cases hstep
  · cases hstep
    exact .inl rfl
  · cases hstep
    exact .inr rfl

/-- An error in its place. -/
theorem step_failed {i : Nat} (hstep : s.step (.failed i) = some s') :
    s' = { s with poster := s.ended i } := by
  simp only [step] at hstep
  split at hstep
  · cases hstep
  · cases hstep
  · cases hstep
    rfl

/-- The poster is wanted as `update` says, and a stopped Android has none. -/
structure Ok (s : PosterPage) : Prop where
  poster : s.poster.Ok
  wanted : s.poster.wanted = (s.running && !s.frameSeen)
  stopped : s.running = false → s.poster.loaded = false

/-- No picture is shown then. -/
theorem loaded_clear (p : Poster) : p.clear.loaded = false := by
  unfold Poster.clear
  split
  · rfl
  · rename_i hloaded
    exact Bool.not_eq_true _ ▸ hloaded

/-- The picture stays. -/
theorem loaded_want (p : Poster) (wanted : Bool) : (p.want wanted).loaded = p.loaded := by
  unfold Poster.want
  split
  · rfl
  · split
    · rfl
    · rfl

/-- The page is updated. -/
theorem ok_update (h : s.poster.Ok) : s.update.Ok := by
  unfold update
  refine ⟨?_, Poster.wanted_want _ _, fun hstopped => ?_⟩
  · split
    · exact h.want _
    · exact h.clear.want _
  · rw [show s.running = false from hstopped, loaded_want]
    exact loaded_clear _

/-- **One step.** -/
theorem Ok.step (h : s.Ok) (hstep : s.step e = some s') : s'.Ok := by
  cases e with
  | page running frameSeen =>
    cases hstep
    exact ok_update h.poster
  | rearm =>
    cases hstep
    exact ⟨h.poster.rearm, h.wanted, h.stopped⟩
  | display hash =>
    simp only [PosterPage.step] at hstep
    split at hstep
    · cases hstep
      exact h
    · cases hstep
      refine ⟨h.poster.display hash, ?_, ?_⟩
      · rw [← h.wanted]
        unfold Poster.display
        split <;> rfl
      · intro hstopped
        rw [← h.stopped hstopped]
        unfold Poster.display
        split <;> rfl
  | tick =>
    simp only [PosterPage.step] at hstep
    split at hstep
    · cases hstep
      refine ⟨h.poster.tick ‹_›, ?_, ?_⟩
      · rw [← h.wanted]
        unfold Poster.tick
        split <;> rfl
      · intro hstopped
        rw [← h.stopped hstopped]
        unfold Poster.tick
        split <;> rfl
    · cases hstep
  | got i =>
    rcases step_got hstep with rfl | rfl
    · exact ⟨(ok_ended h.poster i).answer true, h.wanted, h.stopped⟩
    · exact ok_update ((ok_ended h.poster i).answer false)
  | failed i =>
    obtain rfl := step_failed hstep
    exact ⟨ok_ended h.poster i, h.wanted, h.stopped⟩

/-! ### The fetches -/

/-- How many screenshots were asked for. -/
def asked (s : PosterPage) : Nat := s.poster.fetches.length

/-- Nobody looks again, and the page stays as it is. -/
def Rests : PosterEvent → Bool
  | .page _ _ | .rearm => false
  | .display _ | .tick | .got _ | .failed _ => true

/-- A message about the display. -/
def isDisplay : PosterEvent → Bool
  | .display _ => true
  | .page _ _ | .rearm | .tick | .got _ | .failed _ => false

/-- A refresh is one fetch more. -/
theorem length_refresh (p : Poster) : p.refresh.fetches.length = p.fetches.length + 1 := by
  unfold Poster.refresh
  rw [List.length_append, Poster.length_aborted]
  rfl

/-- A poster that is not wanted fetches nothing. -/
theorem length_want_false (p : Poster) : (p.want false).fetches.length = p.fetches.length := by
  unfold Poster.want
  by_cases hsame : false = p.wanted
  · rw [if_pos hsame]
  · rw [if_neg hsame]
    exact Poster.length_aborted p

/-- Nor does one whose picture goes. -/
theorem length_clear (p : Poster) : p.clear.fetches.length = p.fetches.length := by
  unfold Poster.clear
  split <;> rfl

/-- A tick fetches from the refreshes that are left. -/
theorem length_tick (p : Poster) :
    p.tick.fetches.length + p.tick.left.toNat ≤ p.fetches.length + p.left.toNat := by
  unfold Poster.tick
  by_cases hleft : 0 < p.left
  · simp only [if_pos hleft, length_refresh]
    change p.fetches.length + 1 + (p.left - 1).toNat ≤ _
    omega
  · simp only [if_neg hleft]
    omega

/-- A fetch that is over is no new one. -/
theorem length_ended (s : PosterPage) (i : Nat) :
    (s.ended i).fetches.length = s.poster.fetches.length := List.length_modify ..

/-- `update` asks for nothing when the poster is wanted as it says. -/
theorem update_of_wanted (h : s.poster.wanted = (s.running && !s.frameSeen)) :
    s.update.poster.fetches.length = s.poster.fetches.length ∧
      s.update.poster.left = s.poster.left := by
  unfold update Poster.want
  have hsame : (s.running && !s.frameSeen) =
      (if s.running then s.poster else s.poster.clear).wanted := by
    rw [← h]
    split
    · rfl
    · unfold Poster.clear
      split <;> rfl
  simp only [if_pos hsame]
  split
  · exact ⟨rfl, rfl⟩
  · refine ⟨length_clear _, ?_⟩
    unfold Poster.clear
    split <;> rfl

/-- What an event costs when the page stays as it is. -/
theorem Ok.asked_step (h : s.Ok) (hrests : Rests e = true) (hstep : s.step e = some s') :
    s'.asked + s'.poster.left.toNat ≤
      s.asked + s.poster.left.toNat + (isDisplay e).toNat := by
  unfold asked
  cases e with
  | page running frameSeen => cases hrests
  | rearm => cases hrests
  | display hash =>
    simp only [PosterPage.step] at hstep
    split at hstep
    · cases hstep
      exact Nat.le_add_right _ _
    · cases hstep
      unfold Poster.display
      by_cases hchanged : s.poster.wanted = true ∧ s.poster.hash ≠ none ∧
          s.poster.hash ≠ some hash
      · simp only [if_pos hchanged, length_refresh]
        change _ + 1 + s.poster.left.toNat ≤ _ + _ + 1
        omega
      · simp only [if_neg hchanged]
        exact Nat.le_add_right _ _
  | tick =>
    simp only [PosterPage.step] at hstep
    split at hstep
    · cases hstep
      exact length_tick _
    · cases hstep
  | got i =>
    rcases step_got hstep with rfl | rfl
    · exact le_of_eq (congrArg (· + s.poster.left.toNat) (length_ended s i))
    · obtain ⟨hfetches, hleft⟩ := update_of_wanted
        (s := { s with poster := (s.ended i).answer false }) h.wanted
      rw [hfetches, hleft]
      exact le_of_eq (congrArg (· + s.poster.left.toNat) (length_ended s i))
  | failed i =>
    obtain rfl := step_failed hstep
    exact le_of_eq (congrArg (· + s.poster.left.toNat) (length_ended s i))

/-- While the page stays as it is, only the refreshes that are left follow, and one for each
change of the display. -/
theorem Ok.asked_run (h : s.Ok) {es : List PosterEvent} (hrests : ∀ e ∈ es, Rests e = true)
    (hrun : posterMachine.run s es = some s') :
    s'.asked + s'.poster.left.toNat ≤
      s.asked + s.poster.left.toNat + es.countP isDisplay := by
  induction es generalizing s with
  | nil =>
    cases hrun
    exact le_refl _
  | cons e es ih =>
    obtain ⟨r, hr, hrest⟩ := Option.bind_eq_some_iff.mp hrun
    have hone := h.asked_step (hrests e List.mem_cons_self) hr
    have hmore := ih (h.step hr) (fun e' he' => hrests e' (List.mem_cons_of_mem _ he')) hrest
    rw [List.countP_cons]
    have hcount : (isDisplay e).toNat = if isDisplay e = true then 1 else 0 := by
      cases isDisplay e <;> rfl
    omega

/-- A screenshot is asked for only while Android runs without a frame. -/
theorem Ok.asked_wanted (h : s.Ok) (hstep : s.step e = some s') (hasked : s.asked < s'.asked) :
    s'.running = true ∧ s'.frameSeen = false := by
  have hok := h.step hstep
  rw [← Bool.not_eq_true', ← Bool.and_eq_true, ← hok.wanted]
  unfold asked at hasked
  cases e with
  | page running frameSeen =>
    cases hstep
    cases hwanted : running && !frameSeen with
    | true => exact hok.wanted.trans hwanted
    | false =>
      refine absurd hasked (not_lt.mpr (le_of_eq ?_))
      unfold update
      simp only [hwanted, length_want_false]
      split
      · rfl
      · exact length_clear _
  | rearm =>
    cases hstep
    exact absurd hasked (lt_irrefl _)
  | display hash =>
    simp only [PosterPage.step] at hstep
    split at hstep
    · cases hstep
      exact absurd hasked (lt_irrefl _)
    · cases hstep
      unfold Poster.display at hasked ⊢
      by_cases hchanged : s.poster.wanted = true ∧ s.poster.hash ≠ none ∧
          s.poster.hash ≠ some hash
      · simp only [if_pos hchanged]
        exact hchanged.1
      · simp only [if_neg hchanged] at hasked
        exact absurd hasked (lt_irrefl _)
  | tick =>
    rw [hok.poster.ticking.symm]
    simp only [PosterPage.step] at hstep
    split at hstep
    · cases hstep
      unfold Poster.tick
      split
      · assumption
      · assumption
    · cases hstep
  | got i =>
    have hcost := h.asked_step (e := .got i) rfl hstep
    have hleft : s'.poster.left = s.poster.left := by
      rcases step_got hstep with rfl | rfl
      · rfl
      · exact (update_of_wanted (s := { s with poster := (s.ended i).answer false }) h.wanted).2
    unfold asked isDisplay at hcost
    rw [hleft, Bool.toNat_false] at hcost
    omega
  | failed i =>
    obtain rfl := step_failed hstep
    exact absurd hasked (not_lt.mpr (le_of_eq (length_ended s i)))

/-- **What the poster promises.** -/
structure Polite (s : PosterPage) : Prop where
  /-- A screenshot is asked for only while Android runs without a frame. -/
  asks : ∀ e s', s.step e = some s' → s.asked < s'.asked →
    s'.running = true ∧ s'.frameSeen = false
  /-- It rests: after at most eight more, and one for each message about the display, until the
  page changes or somebody looks again. -/
  rests : ∀ es s', (∀ e ∈ es, Rests e = true) → posterMachine.run s es = some s' →
    s'.asked ≤ s.asked + 8 + es.countP isDisplay
  /-- One answer at most is waited for, and only while it is wanted. -/
  live : ∀ (i : Nat) (f : Fetch), s.poster.fetches[i]? = some f → f.aborted = false →
    s.running = true ∧ s.frameSeen = false ∧
      ∀ (j : Nat) (g : Fetch), s.poster.fetches[j]? = some g → g.aborted = false → j = i
  /-- The object URL of the picture is the only one that is not revoked. -/
  urls : ∀ i : Nat, s.poster.urls[i]? = some false ↔ s.poster.src = some i
  loaded : s.poster.loaded = s.poster.src.isSome
  /-- A stopped Android shows nothing of the last picture. -/
  stopped : s.running = false → s.poster.loaded = false

/-- The invariant says what the poster promises. -/
theorem Ok.polite (h : s.Ok) : s.Polite where
  asks e s' := h.asked_wanted
  rests es s' hrests hrun := by
    have hrun := h.asked_run hrests hrun
    have hleft : s.poster.left ≤ 8 := h.poster.left
    omega
  live i f hf hlive := by
    obtain ⟨habort, hwanted⟩ := h.poster.live i f hf hlive
    rw [h.wanted, Bool.and_eq_true, Bool.not_eq_true'] at hwanted
    refine ⟨hwanted.1, hwanted.2, fun j g hg hlive' => ?_⟩
    have habort' := (h.poster.live j g hg hlive').1
    rw [habort] at habort'
    exact (Option.some.inj habort').symm
  urls := h.poster.kept
  loaded := h.poster.loaded
  stopped := h.stopped

end PosterPage

/-- **The poster is polite** after every run of the page, of the interval, of messages about the
display and of answers in any order. -/
theorem poster_polite {s : PosterPage} (h : posterMachine.Reachable s) : s.Polite := by
  have hok : s.Ok := by
    refine h.invariant (I := PosterPage.Ok) (fun s hs => ?_) fun s e s' hs _ hstep => hs.step hstep
    rw [hs]
    exact ⟨⟨rfl, nofun, fun i => iff_of_false nofun nofun, rfl, by decide⟩, rfl, fun _ => rfl⟩
  exact hok.polite

/-- The answer of the first fetch comes when Android has stopped. -/
def stoppedWhileAsking : List PosterEvent :=
  [.page true false, .tick, .got 1, .tick, .page false false, .got 2]

/-- Android stops behind three requests. -/
theorem poster_polite_stopped : ∃ s : PosterPage, s.asked = 3 ∧ s.poster.urls = [true, true] ∧
    s.Polite := by
  obtain ⟨s, hrun, hasked, hurls⟩ : ∃ s,
      posterMachine.run ⟨false, false, .new⟩ stoppedWhileAsking = some s ∧ s.asked = 3 ∧
      s.poster.urls = [true, true] := ⟨_, rfl, by decide, by decide⟩
  exact ⟨s, hasked, hurls, poster_polite (.of_run (.init rfl) hrun)⟩

end Dashboard

end AndroidAppliance
