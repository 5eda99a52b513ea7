import AndroidAppliance.Clipboard.Basic
import AndroidAppliance.Transition.Table

/-!
# The clipboard is restored

While no call of `set_clipboard` is cut off, the clipboard holds the text of the operation in the
lock from its first `set_clipboard` to its last, and what it held before all of them otherwise.
-/

namespace AndroidAppliance

namespace Clipboard

/-- What was saved, from `get_clipboard` on. -/
def Pc.saved? : Pc → Option String
  | .setting saved | .settling saved | .keying saved | .resting saved | .restoring saved _ =>
    some saved
  | .lettingGo _ | .entering | .locking | .saving | .typing _ | .pressing .. | .ended _ => none

/-- What the clipboard holds while an operation is there. -/
def Op.holds (op : Op) (before : String) : String :=
  match op.pc with
  | .settling _ | .keying _ | .resting _ | .restoring .. => op.text
  | .setting _ | .saving | .typing _ | .lettingGo _ | .entering | .locking | .pressing ..
  | .ended _ => before

namespace World

variable {w w' : World} {i : Nat} {op : Op} {ev : Event}

/-- The invariant: who is in the lock holds it, and says what the clipboard holds. -/
structure Ok (w : World) : Prop where
  late : w.late = []
  pasted : ∀ p ∈ w.pasted, p.clipboard = p.text
  holder : ∀ (i : Nat) (op : Op), w.ops[i]? = some op → (op.pc.inLock = true ↔ w.holder = some i)
  bound : ∀ i, w.holder = some i → ∃ op, w.ops[i]? = some op
  saved : ∀ (i : Nat) (op : Op), w.ops[i]? = some op → ∀ saved, op.pc.saved? = some saved →
    saved = w.before
  holds : ∀ (i : Nat) (op : Op), w.ops[i]? = some op → w.holder = some i →
    w.clipboard = op.holds w.before
  free : w.holder = none → w.clipboard = w.before

/-! ### One operation goes on -/

/-- The new holder of the lock, when the operation `i` goes from one place to another. -/
def holderAfter (w : World) (i : Nat) (op : Op) (pc : Pc) : Option Nat :=
  if pc.inLock then some i else if op.pc.inLock then none else w.holder

/-- **One operation goes on**, if it has the lock, the lock is free, or it stays outside. -/
theorem Ok.move (h : w.Ok) (hop : w.ops[i]? = some op) (pc : Pc) (clipboard : String)
    (pasted : List Pasted)
    (hlock : op.pc.inLock = true ∨ w.holder = none ∨ pc.inLock = false)
    (hsaved : ∀ saved, pc.saved? = some saved → saved = w.before)
    (hclipboard : clipboard = if pc.inLock then Op.holds { op with pc } w.before
      else if op.pc.inLock then w.before else w.clipboard)
    (hpasted : ∀ p ∈ pasted, p.clipboard = p.text) :
    ({ w with clipboard, pasted, holder := w.holderAfter i op pc }.go i pc).Ok := by
  have hholder := h.holder i op hop
  exact {
    late := h.late
    pasted := hpasted
    holder := fun j op' hop' => by
      obtain ⟨old, hold, ⟨rfl, rfl⟩ | ⟨hne, rfl⟩⟩ := Table.cases_modify hop'
      · -- the operation itself
        cases hop.symm.trans hold
        change pc.inLock = true ↔ w.holderAfter i op pc = some i
        unfold holderAfter
        split
        · simp [*]
        · split
          · simp [*]
          · rw [← hholder]
            simp [*]
      · -- another one: the lock was not taken from it
        change op'.pc.inLock = true ↔ w.holderAfter i op pc = some j
        rw [h.holder j op' hold]
        unfold holderAfter
        split
        · rename_i hto
          have hother : w.holder ≠ some j := by
            intro hj
            rcases hlock with hin | hfree | hout
            · exact hne (Option.some_inj.mp ((hholder.mp hin).symm.trans hj))
            · cases hfree.symm.trans hj
            · cases hto.symm.trans hout
          exact iff_of_false hother fun heq => hne (Option.some_inj.mp heq)
        · split
          · rename_i hin
            rw [hholder.mp hin]
            exact iff_of_false (fun heq => hne (Option.some_inj.mp heq)) (by simp)
          · exact Iff.rfl
    bound := fun j hj => by
      change w.holderAfter i op pc = some j at hj
      have hentry : ∃ op', w.ops[j]? = some op' := by
        unfold holderAfter at hj
        split at hj
        · cases hj
          exact ⟨op, hop⟩
        · split at hj
          · cases hj
          · exact h.bound j hj
      obtain ⟨op', hop'⟩ := hentry
      exact Table.modify_exists hop'
    saved := fun j op' hop' saved hs => by
      obtain ⟨old, hold, ⟨rfl, rfl⟩ | ⟨-, rfl⟩⟩ := Table.cases_modify hop'
      · exact hsaved saved hs
      · exact h.saved j op' hold saved hs
    holds := fun j op' hop' hj => by
      change w.holderAfter i op pc = some j at hj
      change clipboard = op'.holds w.before
      unfold holderAfter at hj
      obtain ⟨old, hold, ⟨rfl, rfl⟩ | ⟨hne, rfl⟩⟩ := Table.cases_modify hop'
      · cases hop.symm.trans hold
        split at hj
        · rename_i hto
          rw [hclipboard, if_pos hto]
        · rename_i hto
          split at hj
          · cases hj
          · exact absurd (hholder.mpr hj) ‹_›
      · split at hj
        · cases hj
          exact absurd rfl hne
        · rename_i hto
          split at hj
          · cases hj
          · rename_i hin
            rw [hclipboard, if_neg hto, if_neg hin]
            exact h.holds j op' hold hj
    free := fun hnone => by
      change w.holderAfter i op pc = none at hnone
      change clipboard = w.before
      unfold holderAfter at hnone
      split at hnone
      · cases hnone
      · rename_i hto
        rw [hclipboard, if_neg hto]
        split at hnone
        · rename_i hin
          rw [if_pos hin]
        · rename_i hin
          rw [if_neg hin]
          exact h.free hnone }

theorem Ok.outside (h : w.Ok) (hop : w.ops[i]? = some op) (hfrom : op.pc.inLock = false) {pc : Pc}
    (hto : pc.inLock = false) (hsaved : pc.saved? = none) : (w.go i pc).Ok := by
  have hmove := h.move hop pc w.clipboard w.pasted (.inr (.inr hto))
    (fun saved hs => by cases hsaved.symm.trans hs) (by simp [hto, hfrom]) h.pasted
  rw [holderAfter, hto, hfrom] at hmove
  exact hmove

theorem Ok.acquire (h : w.Ok) (hop : w.ops[i]? = some op) (hfree : w.holder = none) :
    ({ w with holder := some i }.go i op.start).Ok := by
  have hto : op.start.inLock = true := by
    unfold Op.start
    split
    · rfl
    · rfl
  have hsaved : op.start.saved? = none := by
    unfold Op.start
    split
    · rfl
    · rfl
  have hholds : Op.holds { op with pc := op.start } w.before = w.before := by
    unfold Op.start
    split
    · rfl
    · rfl
  have hmove := h.move hop op.start w.clipboard w.pasted (.inr (.inl hfree))
    (fun saved hs => by cases hsaved.symm.trans hs)
    (by rw [if_pos hto, hholds, h.free hfree]) h.pasted
  rw [holderAfter, if_pos hto] at hmove
  exact hmove

/-- From one place in the lock to another. -/
theorem Ok.inside (h : w.Ok) (hop : w.ops[i]? = some op) (hfrom : op.pc.inLock = true) {pc : Pc}
    (hto : pc.inLock = true) {clipboard : String} {pasted : List Pasted}
    (hsaved : ∀ saved, pc.saved? = some saved → saved = w.before)
    (hclipboard : clipboard = Op.holds { op with pc } w.before)
    (hpasted : ∀ p ∈ pasted, p.clipboard = p.text) :
    ({ w with clipboard, pasted }.go i pc).Ok := by
  have hmove := h.move hop pc clipboard pasted (.inl hfrom) hsaved
    (by rw [if_pos hto, hclipboard]) hpasted
  rw [holderAfter, if_pos hto, ← (h.holder i op hop).mp hfrom] at hmove
  exact hmove

/-- The clipboard holds the same at the next place, and so does what was saved. -/
theorem Ok.carry (h : w.Ok) (hop : w.ops[i]? = some op) (hfrom : op.pc.inLock = true) {pc : Pc}
    (hto : pc.inLock = true)
    (hsaved : ∀ saved, pc.saved? = some saved → op.pc.saved? = some saved)
    (hholds : op.holds w.before = Op.holds { op with pc } w.before) : (w.go i pc).Ok := by
  have hclipboard := h.holds i op hop ((h.holder i op hop).mp hfrom)
  exact h.inside hop hfrom hto (fun saved hs => h.saved i op hop saved (hsaved saved hs))
    (hclipboard.trans hholds) h.pasted

theorem leave_spec (op : Op) (r : Outcome) :
    (op.leave r).inLock = false ∧ (op.leave r).saved? = none := by
  unfold Op.leave
  split
  · exact ⟨rfl, rfl⟩
  · exact ⟨rfl, rfl⟩

theorem enter_spec (op : Op) : op.enter.inLock = false ∧ op.enter.saved? = none := by
  unfold Op.enter
  split
  · exact leave_spec op _
  · exact ⟨rfl, rfl⟩

/-- Out of the lock, with the clipboard as before. -/
theorem Ok.release (h : w.Ok) (hop : w.ops[i]? = some op) (hfrom : op.pc.inLock = true)
    (r : Outcome) {clipboard : String} (hclipboard : clipboard = w.before) :
    ({ w with clipboard }.release i op r).Ok := by
  obtain ⟨hto, hsaved⟩ := leave_spec op r
  have hmove := h.move hop (op.leave r) clipboard w.pasted (.inl hfrom)
    (fun saved hs => by cases hsaved.symm.trans hs) (by simp [hto, hfrom, hclipboard]) h.pasted
  rw [holderAfter, hto, hfrom] at hmove
  exact hmove

/-- The same, where it is as before already. -/
theorem Ok.release_clean (h : w.Ok) (hop : w.ops[i]? = some op) (hfrom : op.pc.inLock = true)
    (hclean : op.holds w.before = w.before) (r : Outcome) : (w.release i op r).Ok := by
  have hclipboard : w.clipboard = w.before :=
    (h.holds i op hop ((h.holder i op hop).mp hfrom)).trans hclean
  exact h.release hop hfrom r hclipboard

/-! ### Steps -/

/-- The paste key is sent while the clipboard holds the text. -/
theorem Ok.key (h : w.Ok) (hop : w.ops[i]? = some op) {saved : String} (hpc : op.pc = .keying saved)
    (sent : Bool) {pc : Pc} (hto : pc = .resting saved ∨ ∃ r, pc = .restoring saved r) :
    ((w.key op sent).go i pc).Ok := by
  have hin : op.pc.inLock = true := by rw [hpc]; rfl
  have hclipboard : w.clipboard = op.text := by
    rw [h.holds i op hop ((h.holder i op hop).mp hin), Op.holds, hpc]
  have hsaved : saved = w.before := h.saved i op hop saved (by rw [hpc]; rfl)
  have hpc' : pc.inLock = true ∧ pc.saved? = some saved ∧
      Op.holds { op with pc } w.before = op.text := by
    rcases hto with rfl | ⟨r, rfl⟩
    · exact ⟨rfl, rfl, rfl⟩
    · exact ⟨rfl, rfl, rfl⟩
  have hinside : ∀ pasted : List Pasted, (∀ p ∈ pasted, p.clipboard = p.text) →
      ({ w with clipboard := w.clipboard, pasted }.go i pc).Ok := fun pasted hpasted =>
    h.inside hop hin hpc'.1 (fun saved' hs => by
      cases hpc'.2.1.symm.trans hs
      exact hsaved) (hclipboard.trans hpc'.2.2.symm) hpasted
  cases sent with
  | false => exact hinside w.pasted h.pasted
  | true =>
    refine hinside (w.pasted ++ [{ text := op.text, clipboard := w.clipboard }]) fun p hp => ?_
    rcases List.mem_append.mp hp with hp | hp
    · exact h.pasted p hp
    · rw [List.mem_singleton.mp hp]
      exact hclipboard

/-- What an operation waits for comes. -/
theorem Ok.next (h : w.Ok) (hop : w.ops[i]? = some op) (hnext : w.next i op = some w') : w'.Ok := by
  have hholds := h.holds i op hop
  have hholder := h.holder i op hop
  have hsaved := h.saved i op hop
  rw [Op.holds] at hholds
  unfold World.next at hnext
  split at hnext
  · rename_i hpc
    cases hnext
    rw [hpc] at hholds hholder
    -- what is saved is what was there before all operations
    have hclipboard := hholds (hholder.mp rfl)
    exact h.inside hop (by rw [hpc]; rfl) rfl (fun saved hs => by cases hs; exact hclipboard)
      hclipboard h.pasted
  · rename_i saved hpc
    cases hnext
    rw [hpc] at hsaved
    exact h.inside hop (by rw [hpc]; rfl) rfl (fun saved' hs => by cases hs; exact hsaved _ rfl)
      rfl h.pasted
  · rename_i saved hpc
    cases hnext
    exact h.carry hop (by rw [hpc]; rfl) rfl (fun saved' hs => by rw [hpc]; exact hs)
      (by simp only [Op.holds, hpc])
  · rename_i saved hpc
    cases hnext
    exact h.key hop hpc true (.inl rfl)
  · rename_i saved hpc
    cases hnext
    exact h.carry hop (by rw [hpc]; rfl) rfl (fun saved' hs => by rw [hpc]; exact hs)
      (by simp only [Op.holds, hpc])
  · rename_i saved r hpc
    cases hnext
    rw [hpc] at hsaved
    exact h.release hop (by rw [hpc]; rfl) r (hsaved saved rfl)
  · rename_i hpc
    cases hnext
    exact h.release_clean hop (by rw [hpc]; rfl) (by rw [Op.holds, hpc]) _
  · rename_i left hpc
    cases hnext
    exact h.carry hop (by rw [hpc]; rfl) rfl (fun saved hs => by cases hs)
      (by simp only [Op.holds, hpc])
  all_goals cases hnext

theorem Ok.keyFails (h : w.Ok) (hop : w.ops[i]? = some op) {sent : Bool}
    (hfails : w.keyFails i op sent = some w') : w'.Ok := by
  unfold World.keyFails at hfails
  split at hfails
  · rename_i saved hpc
    cases hfails
    exact h.key hop hpc sent (.inr ⟨_, rfl⟩)
  · rename_i hpc
    cases hfails
    exact h.release_clean hop (by rw [hpc]; rfl) (by rw [Op.holds, hpc]) _
  · cases hfails

/-- A cancellation that cuts off no call of `set_clipboard`. -/
theorem Ok.cancel (h : w.Ok) (hop : w.ops[i]? = some op) {fate : Fate} {sent : Bool}
    (hsafe : w.Safe (.cancel i fate sent)) (hcancel : w.cancel i op fate sent = some w') :
    w'.Ok := by
  obtain ⟨hsetting, hrestoring⟩ := hsafe op hop
  have hsaved := h.saved i op hop
  obtain ⟨hleave, hleaves⟩ := leave_spec op .cancelled
  unfold World.cancel at hcancel
  split at hcancel
  · rename_i hpc
    cases hcancel
    exact h.outside hop (by rw [hpc]; rfl) hleave hleaves
  · rename_i hpc
    cases hcancel
    exact h.outside hop (by rw [hpc]; rfl) hleave hleaves
  · rename_i hpc
    cases hcancel
    exact h.outside hop (by rw [hpc]; rfl) hleave hleaves
  · rename_i hpc
    cases hcancel
    exact h.release_clean hop (by rw [hpc]; rfl) (by rw [Op.holds, hpc]) _
  · rename_i hpc
    cases hcancel
    exact h.release_clean hop (by rw [hpc]; rfl) (by rw [Op.holds, hpc]) _
  · -- the text is not set, or is the one that was there
    rename_i saved hpc
    cases hcancel
    have hin : op.pc.inLock = true := by rw [hpc]; rfl
    rcases hsetting saved hpc with rfl | ⟨rfl, htext⟩
    · exact h.release_clean hop hin (by rw [Op.holds, hpc]) _
    · exact h.release hop hin _ (htext.trans (hsaved saved (by rw [hpc]; rfl)))
  · rename_i saved hpc
    cases hcancel
    exact h.carry hop (by rw [hpc]; rfl) rfl (fun saved' hs => by rw [hpc]; exact hs)
      (by simp only [Op.holds, hpc])
  · rename_i saved hpc
    cases hcancel
    exact h.carry hop (by rw [hpc]; rfl) rfl (fun saved' hs => by rw [hpc]; exact hs)
      (by simp only [Op.holds, hpc])
  · rename_i saved hpc
    cases hcancel
    exact h.key hop hpc sent (.inr ⟨_, rfl⟩)
  · -- what was saved is set, or is the text that is there
    rename_i saved r hpc
    cases hcancel
    have hin : op.pc.inLock = true := by rw [hpc]; rfl
    have hbefore : saved = w.before := hsaved saved (by rw [hpc]; rfl)
    rcases hrestoring saved r hpc with rfl | ⟨rfl, htext⟩
    · exact h.release hop hin _ hbefore
    · have hclean : op.holds w.before = w.before := by
        rw [Op.holds, hpc]
        exact htext.trans hbefore
      exact h.release_clean hop hin hclean _
  · rename_i hpc
    cases hcancel
    exact h.outside hop (by rw [hpc]; rfl) rfl rfl
  · cases hcancel

/-- A new operation waits outside of the lock. -/
theorem Ok.begin (h : w.Ok) (hpc : op.pc.inLock = false ∧ op.pc.saved? = none) :
    Ok { w with ops := w.ops ++ [op] } := by
  have hnew : w.holder ≠ some w.ops.length := by
    intro hholder
    obtain ⟨op', hop'⟩ := h.bound _ hholder
    simp at hop'
  exact {
    late := h.late
    pasted := h.pasted
    holder := fun j op' hop' => by
      rcases Table.cases_append hop' with hold | ⟨rfl, rfl⟩
      · exact h.holder j op' hold
      · exact iff_of_false (by simp [hpc.1]) hnew
    bound := fun j hj => by
      obtain ⟨op', hop'⟩ := h.bound j hj
      exact ⟨op', Table.append_old hop'⟩
    saved := fun j op' hop' saved hs => by
      rcases Table.cases_append hop' with hold | ⟨rfl, rfl⟩
      · exact h.saved j op' hold saved hs
      · cases hpc.2.symm.trans hs
    holds := fun j op' hop' hj => by
      rcases Table.cases_append hop' with hold | ⟨rfl, rfl⟩
      · exact h.holds j op' hold hj
      · exact absurd hj hnew
    free := h.free }

/-- **One step** keeps the invariant. -/
theorem Ok.step (h : w.Ok) (hsafe : w.Safe ev) (hstep : w.step ev = some w') : w'.Ok := by
  cases ev with
  | «begin» text method modifiers =>
    cases hstep
    split
    · exact h.begin (enter_spec _)
    · exact h.begin ⟨rfl, rfl⟩
  | modifier i =>
    obtain ⟨op, hop, hmove⟩ := Option.bind_eq_some_iff.mp hstep
    split at hmove
    · rename_i hpc
      cases hmove
      split
      · obtain ⟨hto, hsaved⟩ := enter_spec op
        exact h.outside hop (by rw [hpc]; rfl) hto hsaved
      · exact h.outside hop (by rw [hpc]; rfl) rfl rfl
    · rename_i hpc
      cases hmove
      split
      · exact h.outside hop (by rw [hpc]; rfl) rfl rfl
      · exact h.outside hop (by rw [hpc]; rfl) rfl rfl
    · cases hmove
  | entered i error =>
    obtain ⟨op, hop, hmove⟩ := Option.bind_eq_some_iff.mp hstep
    split at hmove
    · rename_i hpc
      split at hmove
      · cases hmove
        obtain ⟨hto, hsaved⟩ := leave_spec op (.lifecycle _)
        exact h.outside hop (by rw [hpc]; rfl) hto hsaved
      · cases hmove
        exact h.outside hop (by rw [hpc]; rfl) rfl rfl
    · cases hmove
  | acquire i =>
    obtain ⟨op, hop, hmove⟩ := Option.bind_eq_some_iff.mp hstep
    split at hmove
    · rename_i hfree
      cases hmove
      exact h.acquire hop hfree.2
    · cases hmove
  | next i =>
    obtain ⟨op, hop, hnext⟩ := Option.bind_eq_some_iff.mp hstep
    exact h.next hop hnext
  | keyFails i sent =>
    obtain ⟨op, hop, hfails⟩ := Option.bind_eq_some_iff.mp hstep
    exact h.keyFails hop hfails
  | cancel i fate sent =>
    obtain ⟨op, hop, hcancel⟩ := Option.bind_eq_some_iff.mp hstep
    exact h.cancel hop hsafe hcancel
  | land k =>
    obtain ⟨text, htext, -⟩ := Option.bind_eq_some_iff.mp hstep
    rw [h.late] at htext
    cases htext

theorem Ok.tidy (h : w.Ok) : w.Tidy := by
  refine ⟨h.pasted, fun i j op op' hop hop' hin hin' => ?_, fun hended => h.free ?_⟩
  · have hi := (h.holder i op hop).mp hin
    have hj := (h.holder j op' hop').mp hin'
    exact Option.some_inj.mp (hi.symm.trans hj)
  · -- who has the lock has not ended
    by_contra hheld
    obtain ⟨i, hi⟩ := Option.ne_none_iff_exists'.mp hheld
    obtain ⟨op, hop⟩ := h.bound i hi
    obtain ⟨r, hr⟩ := hended op (List.mem_of_getElem? hop)
    have hin := (h.holder i op hop).mpr hi
    rw [hr] at hin
    cases hin

end World

/-- **The clipboard is restored** in every run in which no call of `set_clipboard` is cut off. -/
theorem clipboard_restored {w : World} (hreach : textMachine.ReachBy World.Safe w) : w.Tidy := by
  have hok : w.Ok := by
    refine hreach.invariant (fun w hinit => ?_) fun _ _ _ h hsafe hstep => h.step hsafe hstep
    obtain ⟨hclipboard, hholder, hops, hlate, hpasted⟩ := hinit
    exact {
      late := hlate
      pasted := fun p hp => by
        rw [hpasted] at hp
        exact absurd hp List.not_mem_nil
      holder := fun i op hop => by
        rw [hops] at hop
        cases hop
      bound := fun i hi => by
        cases hholder.symm.trans hi
      saved := fun i op hop => by
        rw [hops] at hop
        cases hop
      holds := fun i op hop => by
        rw [hops] at hop
        cases hop
      free := fun _ => hclipboard }
  exact hok.tidy

instance (w : World) : ∀ ev, Decidable (w.Safe ev)
  | .cancel i fate _ =>
    match hop : w.ops[i]? with
    | none => .isTrue (by simp [World.Safe, hop])
    | some op =>
      match hpc : op.pc with
      | .setting saved => decidable_of_iff (fate = .never ∨ fate = .done ∧ op.text = saved)
          (by simp [World.Safe, hop, hpc])
      | .restoring saved _ => decidable_of_iff (fate = .done ∨ fate = .never ∧ op.text = saved)
          (by simp [World.Safe, hop, hpc])
      | .lettingGo _ | .entering | .locking | .saving | .settling _ | .keying _ | .resting _
      | .typing _ | .pressing .. | .ended _ => .isTrue (by simp [World.Safe, hop, hpc])
  | .begin .. | .modifier _ | .entered .. | .acquire _ | .next _ | .keyFails .. | .land _ =>
    .isTrue trivial

/-- A clipboard that nobody has used. -/
def guest : World where
  clipboard := "mine"
  before := "mine"
  holder := none
  ops := []
  late := []
  pasted := []

/-- Two pastes: the one that waits for the lock, and then saves, is cancelled before its key. -/
def cancelledRun : List Event :=
  [.begin "one" "paste" 0, .begin "two" "paste" 1, .entered 0 none, .modifier 1, .acquire 0,
    .entered 1 none, .next 0, .next 0, .next 0, .next 0, .next 0, .next 0, .acquire 1, .next 1,
    .next 1, .cancel 1 .never false, .next 1, .modifier 1]

theorem clipboard_restored_cancelled : ∃ w, textMachine.run guest cancelledRun = some w ∧ w.Tidy ∧
    w.ops.map Op.pc = [.ended .done, .ended .cancelled] ∧
    w.pasted = [{ text := "one", clipboard := "one" }] ∧ w.clipboard = "mine" := by
  have hrun : (textMachine.run guest cancelledRun).map
      (fun w => (w.ops.map Op.pc, w.pasted, w.clipboard)) =
      some ([.ended .done, .ended .cancelled], [{ text := "one", clipboard := "one" }],
        "mine") := by decide +kernel
  obtain ⟨w, hw, hend⟩ := Option.map_eq_some_iff.mp hrun
  simp only [Prod.mk.injEq] at hend
  have hinit : textMachine.Init guest := ⟨rfl, rfl, rfl, rfl, rfl⟩
  have hsafe : textMachine.RunOk World.Safe guest cancelledRun := by decide +kernel
  exact ⟨w, hw, clipboard_restored (.of_run (.init hinit) hsafe hw), hend⟩

/-- A paste that is cancelled when its text has just been set. -/
def leftRun : List Event :=
  [.begin "secret" "paste" 0, .entered 0 none, .acquire 0, .next 0, .cancel 0 .done false]

/-- The text stays. -/
theorem clipboard_left : ¬∀ w, textMachine.Reachable w → w.Tidy := by
  intro hall
  have hrun : (textMachine.run guest leftRun).map
      (fun w => (w.ops.map Op.pc, w.clipboard, w.before)) =
      some ([.ended .cancelled], "secret", "mine") := by decide +kernel
  obtain ⟨w, hw, hend⟩ := Option.map_eq_some_iff.mp hrun
  simp only [Prod.mk.injEq] at hend
  obtain ⟨hops, hclipboard, hbefore⟩ := hend
  have htidy := hall w (.of_run (.init ⟨rfl, rfl, rfl, rfl, rfl⟩) hw)
  have hrestored := htidy.restored fun op hop => by
    have hpc := List.mem_map_of_mem (f := Op.pc) hop
    rw [hops] at hpc
    exact ⟨_, List.mem_singleton.mp hpc⟩
  rw [hclipboard, hbefore] at hrestored
  exact absurd hrestored (by decide)

end Clipboard

end AndroidAppliance
