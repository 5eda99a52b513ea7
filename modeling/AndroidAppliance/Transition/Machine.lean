import Mathlib.Data.List.Basic
import Mathlib.Logic.Relation
import Mathlib.Tactic.Common

/-!
# Labelled machines, their runs and their invariants

A `Machine` is a set of initial states with a partial step function. A label carries
every choice that the environment makes in the step (which task moves, what an awaited
operation gives back), so a step is a function and a run is a list of labels
(`Machine.run`).

Three views of runs are kept together here:

* `Machine.ReachBy ok`: the states of runs all of whose steps satisfy `ok`, a condition
  on the state before the step and the label. `Machine.Reachable` is the case without a
  condition.
* `Machine.PathBy ok`: the same from any state, for laws of the form "after this, never
  that".
* `Machine.Simulation`: a map to another machine under which every step becomes a path.

The rules used everywhere else are `ReachBy.invariant`, `ReachBy.invariant_of`,
`PathBy.invariant` and `Simulation.reachBy`.
-/

namespace AndroidAppliance

universe u v u' v'

/-- A machine: its initial states, and what one label does to a state (`none` when the
label is not enabled there). -/
structure Machine (σ : Type u) (ε : Type v) where
  /-- The states in which a run may begin. -/
  Init : σ → Prop
  /-- The state after one label. -/
  step : σ → ε → Option σ

namespace Machine

variable {σ : Type u} {ε : Type v} {τ : Type u'} {δ : Type v'}

/-! ### Runs -/

/-- The state after a list of labels, or `none` when one of them is not enabled. -/
def run (M : Machine σ ε) : σ → List ε → Option σ
  | s, [] => some s
  | s, e :: es => (M.step s e).bind fun t => M.run t es

/-- The states reached by runs all of whose steps satisfy `ok`. -/
inductive ReachBy (M : Machine σ ε) (ok : σ → ε → Prop) : σ → Prop
  | init {s : σ} : M.Init s → ReachBy M ok s
  | step {s t : σ} {e : ε} : ReachBy M ok s → ok s e → M.step s e = some t → ReachBy M ok t

/-- The states reached by any run. -/
def Reachable (M : Machine σ ε) : σ → Prop :=
  M.ReachBy fun _ _ => True

/-- One step that satisfies `ok`, with its label forgotten. -/
def StepBy (M : Machine σ ε) (ok : σ → ε → Prop) (s t : σ) : Prop :=
  ∃ e, ok s e ∧ M.step s e = some t

/-- A finite sequence of steps that satisfy `ok`, from any state. -/
def PathBy (M : Machine σ ε) (ok : σ → ε → Prop) : σ → σ → Prop :=
  Relation.ReflTransGen (M.StepBy ok)

variable {M : Machine σ ε} {ok ok' : σ → ε → Prop} {s t : σ}

theorem Reachable.init (h : M.Init s) : M.Reachable s :=
  ReachBy.init h

theorem Reachable.step {e : ε} (h : M.Reachable s) (he : M.step s e = some t) :
    M.Reachable t :=
  ReachBy.step h trivial he

/-- A weaker condition on the steps reaches more. -/
theorem ReachBy.mono (himp : ∀ s e, ok s e → ok' s e) (h : M.ReachBy ok s) :
    M.ReachBy ok' s := by
  induction h with
  | init h => exact .init h
  | step _ hok he ih => exact .step ih (himp _ _ hok) he

/-- The same, when the other condition follows in the states that are reached. -/
theorem ReachBy.mono_of (himp : ∀ s e, M.ReachBy ok s → ok s e → ok' s e)
    (h : M.ReachBy ok s) : M.ReachBy ok' s := by
  induction h with
  | init h => exact .init h
  | step hs hok he ih => exact .step ih (himp _ _ hs hok) he

theorem ReachBy.reachable (h : M.ReachBy ok s) : M.Reachable s :=
  h.mono fun _ _ _ => trivial

/-- **The invariant rule.** What holds initially and is kept by every step that
satisfies `ok` holds in every state reached. -/
theorem ReachBy.invariant {I : σ → Prop} (h0 : ∀ s, M.Init s → I s)
    (hstep : ∀ s e t, I s → ok s e → M.step s e = some t → I t) (h : M.ReachBy ok s) :
    I s := by
  induction h with
  | init h => exact h0 _ h
  | step _ hok he ih => exact hstep _ _ _ ih hok he

/-- The invariant rule relative to facts `J` that are already known of every state
reached, so that invariants can be proved one after another. -/
theorem ReachBy.invariant_of {I J : σ → Prop} (hJ : ∀ s, M.ReachBy ok s → J s)
    (h0 : ∀ s, M.Init s → I s)
    (hstep : ∀ s e t, J s → I s → ok s e → M.step s e = some t → I t)
    (h : M.ReachBy ok s) : I s := by
  induction h with
  | init h => exact h0 _ h
  | step hs hok he ih => exact hstep _ _ _ (hJ _ hs) ih hok he

/-- A run from an initial state whose steps are all unconditional reaches its end. -/
theorem Reachable.of_run {es : List ε} (h : M.Reachable s) (hrun : M.run s es = some t) :
    M.Reachable t := by
  induction es generalizing s with
  | nil => cases hrun; exact h
  | cons e es ih =>
    obtain ⟨r, hr, hrest⟩ := Option.bind_eq_some_iff.mp hrun
    exact ih (h.step hr) hrest

/-- Whether every step of the run of `es` from `s` satisfies `ok`. -/
def RunOk (M : Machine σ ε) (ok : σ → ε → Prop) : σ → List ε → Prop
  | _, [] => True
  | s, e :: es => ok s e ∧ ∀ t, M.step s e = some t → M.RunOk ok t es

instance RunOk.decidable (M : Machine σ ε) (ok : σ → ε → Prop) [∀ s e, Decidable (ok s e)] :
    ∀ s es, Decidable (M.RunOk ok s es)
  | _, [] => .isTrue trivial
  | s, e :: es =>
    match h : M.step s e with
    | none => decidable_of_iff (ok s e) (by simp [RunOk, h])
    | some t =>
      haveI := RunOk.decidable M ok t es
      decidable_of_iff (ok s e ∧ M.RunOk ok t es) (by simp [RunOk, h])

/-- Two conditions at once. -/
theorem RunOk.and {es : List ε} : M.RunOk (fun s e => ok s e ∧ ok' s e) s es ↔
    M.RunOk ok s es ∧ M.RunOk ok' s es := by
  induction es generalizing s with
  | nil => exact (and_self_iff).symm
  | cons e es ih =>
    constructor
    · rintro ⟨⟨h, h'⟩, hrest⟩
      exact ⟨⟨h, fun t ht => (ih.mp (hrest t ht)).1⟩, h', fun t ht => (ih.mp (hrest t ht)).2⟩
    · rintro ⟨⟨h, hrest⟩, h', hrest'⟩
      exact ⟨⟨h, h'⟩, fun t ht => ih.mpr ⟨hrest t ht, hrest' t ht⟩⟩

/-- The last step of a run whose steps satisfy `ok`. -/
theorem RunOk.last {es : List ε} {e : ε} (h : M.RunOk ok s (es ++ [e]))
    (hrun : M.run s es = some t) : ok t e := by
  induction es generalizing s with
  | nil =>
    cases hrun
    exact h.1
  | cons d es ih =>
    obtain ⟨r, hr, hrest⟩ := Option.bind_eq_some_iff.mp hrun
    exact ih (h.2 r hr) hrest

/-- Two conditions that agree wherever the invariant holds agree on whole runs, if the
invariant is kept by the steps that satisfy the second one. -/
theorem RunOk.iff_of_invariant {I : σ → Prop}
    (hstep : ∀ s e t, I s → ok' s e → M.step s e = some t → I t)
    (hiff : ∀ s e t, I s → M.step s e = some t → (ok s e ↔ ok' s e)) {es : List ε} (hs : I s)
    (hrun : M.run s es = some t) : M.RunOk ok s es ↔ M.RunOk ok' s es := by
  induction es generalizing s with
  | nil => exact Iff.rfl
  | cons e es ih =>
    obtain ⟨r, hr, hrest⟩ := Option.bind_eq_some_iff.mp hrun
    refine (and_congr_left' (hiff s e r hs hr)).trans (and_congr_right fun hok => ?_)
    refine forall_congr' fun r' => imp_congr_right fun hr' => ih (hstep s e r' hs hok hr') ?_
    cases hr.symm.trans hr'
    exact hrest

/-- A run whose steps satisfy `ok` reaches its end by `ok`. -/
theorem ReachBy.of_run {es : List ε} (h : M.ReachBy ok s) (hok : M.RunOk ok s es)
    (hrun : M.run s es = some t) : M.ReachBy ok t := by
  induction es generalizing s with
  | nil => cases hrun; exact h
  | cons e es ih =>
    obtain ⟨r, hr, hrest⟩ := Option.bind_eq_some_iff.mp hrun
    exact ih (h.step hok.1 hr) (hok.2 r hr) hrest

/-! ### Paths -/

theorem PathBy.refl (M : Machine σ ε) (ok : σ → ε → Prop) (s : σ) : M.PathBy ok s s :=
  Relation.ReflTransGen.refl

theorem PathBy.tail {r : σ} {e : ε} (h : M.PathBy ok s r) (hok : ok r e)
    (he : M.step r e = some t) : M.PathBy ok s t :=
  Relation.ReflTransGen.tail h ⟨e, hok, he⟩

theorem PathBy.single {e : ε} (hok : ok s e) (he : M.step s e = some t) : M.PathBy ok s t :=
  (PathBy.refl M ok s).tail hok he

/-- A weaker condition on the steps allows more paths. -/
theorem PathBy.mono (himp : ∀ s e, ok s e → ok' s e) (h : M.PathBy ok s t) :
    M.PathBy ok' s t := by
  induction h with
  | refl => exact .refl ..
  | tail _ he ih =>
    obtain ⟨e, hok, he⟩ := he
    exact ih.tail (himp _ _ hok) he

/-- A path that starts in a reachable state ends in one. -/
theorem PathBy.reachBy (h : M.PathBy ok s t) (hs : M.ReachBy ok s) : M.ReachBy ok t := by
  induction h with
  | refl => exact hs
  | tail _ he ih =>
    obtain ⟨e, hok, he⟩ := he
    exact ih.step hok he

/-- The invariant rule for paths, relative to known facts `J` about reachable states. -/
theorem PathBy.invariant {I J : σ → Prop} (hJ : ∀ s, M.ReachBy ok s → J s)
    (hstep : ∀ s e t, J s → I s → ok s e → M.step s e = some t → I t)
    (hs : M.ReachBy ok s) (hI : I s) (h : M.PathBy ok s t) : I t := by
  induction h with
  | refl => exact hI
  | tail hpath he ih =>
    obtain ⟨e, hok, he⟩ := he
    exact hstep _ e _ (hJ _ (PathBy.reachBy hpath hs)) ih hok he

/-! ### Simulation -/

/-- A simulation of `M` by `N` along `abs`: initial states go to initial states, and a
step of `M` that satisfies `okM` becomes a path of `N` whose steps satisfy `okN`. -/
structure Simulation (M : Machine σ ε) (N : Machine τ δ) (okM : σ → ε → Prop)
    (okN : τ → δ → Prop) (abs : σ → τ) : Prop where
  /-- Initial states are initial in the abstract machine. -/
  init : ∀ s, M.Init s → N.Init (abs s)
  /-- Every step is a path of the abstract machine. -/
  step : ∀ s e t, okM s e → M.step s e = some t → N.PathBy okN (abs s) (abs t)

/-- A simulation carries reachable states to reachable states. -/
theorem Simulation.reachBy {N : Machine τ δ} {okN : τ → δ → Prop} {abs : σ → τ}
    (h : Simulation M N ok okN abs) (hs : M.ReachBy ok s) : N.ReachBy okN (abs s) := by
  induction hs with
  | init hs => exact .init (h.init _ hs)
  | step _ hok he ih => exact (h.step _ _ _ hok he).reachBy ih

/-- A simulation carries paths to paths. -/
theorem Simulation.pathBy {N : Machine τ δ} {okN : τ → δ → Prop} {abs : σ → τ}
    (h : Simulation M N ok okN abs) (hp : M.PathBy ok s t) :
    N.PathBy okN (abs s) (abs t) := by
  induction hp with
  | refl => exact .refl ..
  | tail _ he ih =>
    obtain ⟨e, hok, he⟩ := he
    exact Relation.ReflTransGen.trans ih (h.step _ _ _ hok he)

end Machine

end AndroidAppliance
