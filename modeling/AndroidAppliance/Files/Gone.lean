import AndroidAppliance.Files.Transfer

/-!
# The end of a temporary file

Each request has removed its file when it is over, unless a pull is left behind: what ends it
finds a file that neither the handler nor the response removes. `file_gone` says so for every run.
-/

namespace AndroidAppliance

namespace Files

namespace Transfer

variable {t t' : Transfer} {ev : Event}

/-- The request is for a file of the device. -/
def IsPull (t : Transfer) : Prop := ∃ path, t.request = .pull path

/-- The invariant: the file is there as long as it is read, and gone when the request is over. -/
def Ok (t : Transfer) : Prop :=
  match t.pc with
  | .called => t.file = none ∧ t.sent = []
  | .saving .. => ¬t.IsPull ∧ t.sent = []
  | .entering | .typing => (t.IsPull → t.file = none) ∧ t.sent = []
  | .transferring => t.sent = []
  | .answering => t.file = some t.pulled ∧ t.sent = []
  | .streaming | .abandoned => t.file = some t.pulled ∧ t.sent <+: t.pulled
  | .ended r => t.file = none ∧ (r = .ok .file → t.sent = t.pulled)

/-- A pull that was left behind. -/
def Lost (t : Transfer) : Prop := (∃ e, t.pc = .ended (.error e)) ∧ t.file ≠ none

/-! ### The handlers -/

@[simp]
theorem finish_pc (r : Except Error Reply) : (t.finish r).pc = .ended r := by
  unfold finish
  split
  · rfl
  · rfl
  · rfl

/-- A handler ends without a file if it is no pull, or has none. -/
theorem finish_file (r : Except Error Reply) (h : t.IsPull → t.file = none) :
    (t.finish r).file = none := by
  unfold finish
  split
  · rfl
  · rfl
  · exact h ⟨_, ‹_›⟩

theorem Ok.finish {r : Except Error Reply} (h : t.IsPull → t.file = none) (hr : r ≠ .ok .file) :
    (t.finish r).Ok := by
  rw [Ok, finish_pc]
  exact ⟨finish_file r h, fun heq => absurd heq hr⟩

theorem Ok.fail {e : Error} (h : t.IsPull → t.file = none) : (t.finish (.error e)).Ok :=
  .finish h fun heq => by cases heq

theorem Ok.save {declared : Str} {limit : Nat} (hpull : ¬t.IsPull) (hsent : t.sent = []) :
    (t.save declared limit).Ok := by
  unfold Transfer.save
  split
  · exact .fail (fun h => absurd h hpull)
  · exact ⟨hpull, hsent⟩

theorem Ok.call {limit : Nat} (hfile : t.file = none) (hsent : t.sent = []) :
    (t.call limit).Ok := by
  unfold Transfer.call
  split
  · rename_i hrequest
    exact .save (fun ⟨_, h⟩ => by cases hrequest.symm.trans h) hsent
  · rename_i hrequest
    split
    · exact .fail (fun _ => hfile)
    · exact .save (fun ⟨_, h⟩ => by cases hrequest.symm.trans h) hsent
  · split
    · exact .fail (fun _ => hfile)
    · exact ⟨fun _ => hfile, hsent⟩

theorem Ok.saved {size : Nat} (hpull : ¬t.IsPull) (hsent : t.sent = []) : (t.saved size).Ok := by
  unfold Transfer.saved
  split
  · split
    · exact .fail (fun h => absurd h hpull)
    · exact ⟨fun h => absurd h hpull, hsent⟩
  · split
    · exact .fail (fun h => absurd h hpull)
    · exact ⟨fun h => absurd h hpull, hsent⟩
  · exact absurd ⟨_, ‹_›⟩ hpull

theorem Ok.entered (hfile : t.IsPull → t.file = none) (hsent : t.sent = []) : t.entered.Ok := by
  unfold Transfer.entered
  split
  · exact hsent
  · exact ⟨hfile, hsent⟩
  · exact ⟨hfile, hsent⟩

theorem Ok.typed {r : Device.Result} (hfile : t.IsPull → t.file = none) (hsent : t.sent = []) :
    (t.typed r).Ok := by
  unfold Transfer.typed
  dsimp only
  split
  · exact .fail hfile
  · exact hsent

/-- `adb` has come to its end: the handler of a pull removes the file, or hands it on. -/
theorem Ok.transferred {r : Device.Result} (hsent : t.sent = []) : (t.transferred r).Ok := by
  have hother : (∀ path, t.request ≠ .pull path) → t.IsPull → t.file = none := fun h hpull => by
    obtain ⟨path, hpath⟩ := hpull
    exact absurd hpath (h path)
  unfold Transfer.transferred
  split
  · rename_i hrequest
    have hno := hother fun path h => by cases hrequest.symm.trans h
    split
    · exact .fail hno
    · exact .finish hno (by simp)
  · rename_i hrequest
    have hno := hother fun path h => by cases hrequest.symm.trans h
    split
    · exact .fail hno
    · exact .finish hno (by simp)
  · split
    · exact ⟨rfl, fun heq => by cases heq⟩
    · split
      · rename_i hfile
        exact .fail (fun _ => hfile)
      · rename_i hfile
        exact ⟨hfile, hsent⟩

/-- The next chunk of a file; after the last one the file is removed. -/
theorem Ok.next (hfile : t.file = some t.pulled) (hsent : t.sent <+: t.pulled) :
    (t.next t.pulled).Ok := by
  obtain ⟨rest, hrest⟩ := hsent
  have hdrop : t.pulled.drop t.sent.length = rest := by rw [← hrest, List.drop_left]
  unfold Transfer.next
  dsimp only
  rw [hdrop]
  split
  · rename_i hempty
    refine ⟨rfl, fun _ => ?_⟩
    cases rest with
    | nil => rw [← hrest, List.append_nil]
    | cons b rest => cases hempty
  · refine ⟨hfile, rest.drop 65536, ?_⟩
    change t.sent ++ rest.take 65536 ++ rest.drop 65536 = t.pulled
    rw [List.append_assoc, List.take_append_drop, hrest]

/-! ### Steps -/

theorem Ok.not_over (h : t.Ok) (hfile : t.file ≠ none) : ¬t.Over := by
  rintro ⟨r, hpc⟩
  rw [Ok, hpc] at h
  exact hfile h.1

/-- A request that is over takes no step. -/
theorem step_over (h : t.Over) : t.step ev = none := by
  obtain ⟨r, hpc⟩ := h
  cases ev with
  | call | chunk | bodyEnd | entered | fileType | write | transferred | next | diskFails | cut
  | closed => simp [step, hpc]

/-- Only `cut` and the end of `adb` can leave a pull behind, and only where it may have a file. -/
theorem kept_of_event (hcut : ev ≠ .cut) (htransferred : ∀ a, ev ≠ .transferred a) : t.Kept ev :=
  ⟨fun _ _ _ _ => ⟨hcut, fun a ha => absurd ha (htransferred a)⟩, fun _ => hcut⟩

theorem kept_of_pc (hcopying : t.pc ≠ .transferring) (hanswering : t.pc ≠ .answering) : t.Kept ev :=
  ⟨fun _ _ h => absurd h hcopying, fun h => absurd h hanswering⟩

/-- An error while `adb` copies. -/
theorem fail_copying {e : Error} (hkept : t.Kept ev ↔ (t.IsPull → t.file = none)) :
    (t.Kept ev → (t.finish (.error e)).Ok) ∧ (¬t.Kept ev → (t.finish (.error e)).Lost) := by
  refine ⟨fun h => .fail (hkept.mp h), fun h => ⟨⟨e, finish_pc _⟩, fun hfile => h ?_⟩⟩
  rw [hkept]
  rintro ⟨path, hpath⟩
  rw [Transfer.finish, hpath] at hfile
  exact hfile

/-- What leaves a pull behind while `adb` copies. -/
theorem kept_copying (hpc : t.pc = .transferring)
    (hraises : ev = .cut ∨ ∃ a e, ev = .transferred a ∧ use a = .error e) :
    t.Kept ev ↔ (t.IsPull → t.file = none) := by
  constructor
  · rintro ⟨hcopying, -⟩ ⟨path, hpath⟩
    by_contra hfile
    obtain ⟨hcut, hok⟩ := hcopying path hpath hpc (Option.isSome_iff_ne_none.mpr hfile)
    rcases hraises with hev | ⟨a, e, hev, herror⟩
    · exact hcut hev
    · obtain ⟨r, hr⟩ := hok a hev
      cases herror.symm.trans hr
  · intro hfile
    refine ⟨fun path hpath _ hsome => ?_, fun hanswering => ?_⟩
    · rw [hfile ⟨path, hpath⟩] at hsome
      cases hsome
    · cases hpc.symm.trans hanswering

/-- A step that is not the end of `adb`, and cuts nothing off. -/
theorem Ok.plain (h : t.Ok) (hcut : ev ≠ .cut) (htransferred : ∀ a, ev ≠ .transferred a)
    (hstep : t.step ev = some t') : t'.Ok := by
  cases ev with
  | transferred a => exact absurd rfl (htransferred a)
  | cut => exact absurd rfl hcut
  | call limit =>
    rw [Transfer.step] at hstep
    split at hstep
    · rename_i hpc
      cases hstep
      rw [Ok, hpc] at h
      exact .call h.1 h.2
    · cases hstep
  | chunk data =>
    rw [Transfer.step] at hstep
    split at hstep
    · rename_i hpc
      cases hstep
      rw [Ok, hpc] at h
      unfold Transfer.chunk
      split
      · exact .fail fun hpull => absurd hpull h.1
      · exact h
    · cases hstep
  | bodyEnd =>
    rw [Transfer.step] at hstep
    split at hstep
    · rename_i hpc
      cases hstep
      rw [Ok, hpc] at h
      exact .saved h.1 h.2
    · cases hstep
  | entered error =>
    dsimp only [Transfer.step] at hstep
    split at hstep
    · rename_i hpc
      rw [Ok, hpc] at h
      split at hstep
      · cases hstep
        exact .fail h.1
      · cases hstep
        exact .entered h.1 h.2
    · cases hstep
  | fileType a =>
    rw [Transfer.step] at hstep
    split at hstep
    · rename_i hpc
      rw [Ok, hpc] at h
      split at hstep
      · cases hstep
        exact .fail h.1
      · cases hstep
        exact .typed h.1 h.2
    · cases hstep
  | write data =>
    dsimp only [Transfer.step] at hstep
    split at hstep
    · rename_i hpc _
      cases hstep
      unfold Ok at h ⊢
      simp only [hpc] at h ⊢
      exact h
    · cases hstep
  | next =>
    rw [Transfer.step] at hstep
    split at hstep
    · rename_i hpc hfile
      cases hstep
      rw [Ok, hpc] at h
      cases hfile.symm.trans h.1
      exact .next h.1 (by rw [h.2]; exact List.nil_prefix)
    · rename_i hpc hfile
      cases hstep
      rw [Ok, hpc] at h
      cases hfile.symm.trans h.1
      exact .next h.1 h.2
    · cases hstep
  | diskFails =>
    rw [Transfer.step] at hstep
    split at hstep
    · rename_i hpc
      cases hstep
      rw [Ok, hpc] at h
      exact .fail fun hpull => absurd hpull h.1
    · cases hstep
      exact ⟨rfl, fun heq => by cases heq⟩
    · cases hstep
      exact ⟨rfl, fun heq => by cases heq⟩
    · cases hstep
  | closed =>
    rw [Transfer.step] at hstep
    split at hstep
    · cases hstep
      exact ⟨rfl, fun heq => by cases heq⟩
    · cases hstep

/-- **One step** keeps the invariant, or leaves a pull behind. -/
theorem Ok.step (h : t.Ok) (hstep : t.step ev = some t') :
    (t.Kept ev → t'.Ok) ∧ (¬t.Kept ev → t'.Lost) := by
  have hkeep : t.Kept ev → t'.Ok → (t.Kept ev → t'.Ok) ∧ (¬t.Kept ev → t'.Lost) :=
    fun hkept hok => ⟨fun _ => hok, fun hnot => absurd hkept hnot⟩
  cases ev with
  | transferred a =>
    rw [Transfer.step] at hstep
    split at hstep
    · rename_i hpc
      split at hstep
      · rename_i herror
        cases hstep
        exact fail_copying (kept_copying hpc (.inr ⟨a, _, rfl, herror⟩))
      · rename_i r hr
        cases hstep
        rw [Ok, hpc] at h
        refine hkeep ⟨fun _ _ _ _ => ⟨by simp, fun b hb => ?_⟩, fun _ => by simp⟩ (.transferred h)
        cases hb
        exact ⟨r, hr⟩
    · cases hstep
  | cut =>
    rw [Transfer.step] at hstep
    split at hstep
    · rename_i hpc
      cases hstep
      rw [Ok, hpc] at h
      exact hkeep (kept_of_pc (by simp [hpc]) (by simp [hpc])) (.fail fun _ => h.1)
    · rename_i hpc
      cases hstep
      rw [Ok, hpc] at h
      exact hkeep (kept_of_pc (by simp [hpc]) (by simp [hpc]))
        (.fail fun hpull => absurd hpull h.1)
    · rename_i hpc
      cases hstep
      rw [Ok, hpc] at h
      exact hkeep (kept_of_pc (by simp [hpc]) (by simp [hpc])) (.fail h.1)
    · rename_i hpc
      cases hstep
      rw [Ok, hpc] at h
      exact hkeep (kept_of_pc (by simp [hpc]) (by simp [hpc])) (.fail h.1)
    · rename_i hpc
      cases hstep
      exact fail_copying (kept_copying hpc (.inl rfl))
    · -- the response never asks for a chunk
      rename_i hpc
      cases hstep
      rw [Ok, hpc] at h
      refine ⟨fun hkept => absurd rfl (hkept.2 hpc), fun _ => ⟨⟨_, rfl⟩, ?_⟩⟩
      rw [h.1]
      simp
    · rename_i hpc
      cases hstep
      rw [Ok, hpc] at h
      exact hkeep (kept_of_pc (by simp [hpc]) (by simp [hpc])) h
    · cases hstep
    · cases hstep
  | call | chunk | bodyEnd | entered | fileType | write | next | diskFails | closed =>
    exact hkeep (kept_of_event (by simp) (by simp)) (h.plain (by simp) (by simp) hstep)

theorem Lost.over (h : t.Lost) : t.Over := by
  obtain ⟨⟨e, hpc⟩, -⟩ := h
  exact ⟨_, hpc⟩

/-- **A whole run** keeps the invariant, or its last step leaves a pull behind. -/
theorem Ok.run {es : List Event} (h : t.Ok) (hrun : transferMachine.run t es = some t') :
    (transferMachine.RunOk Kept t es → t'.Ok) ∧ (¬transferMachine.RunOk Kept t es → t'.Lost) := by
  induction es generalizing t with
  | nil =>
    cases hrun
    exact ⟨fun _ => h, fun hnot => absurd trivial hnot⟩
  | cons ev es ih =>
    obtain ⟨t₁, hstep, hrest⟩ := Option.bind_eq_some_iff.mp hrun
    obtain ⟨hkept, hlost⟩ := h.step hstep
    by_cases hev : t.Kept ev
    · have hrunok : transferMachine.RunOk Kept t (ev :: es) ↔ transferMachine.RunOk Kept t₁ es := by
        refine ⟨fun hok => hok.2 t₁ hstep, fun hok => ⟨hev, fun t₂ ht₂ => ?_⟩⟩
        cases hstep.symm.trans ht₂
        exact hok
      rw [hrunok]
      exact ih (hkept hev) hrest
    · refine ⟨fun hok => absurd hok.1 hev, fun _ => ?_⟩
      -- the request is over, so this was the last step
      cases es with
      | nil =>
        cases hrest
        exact hlost hev
      | cons ev' es =>
        obtain ⟨t₂, hstep', -⟩ := Option.bind_eq_some_iff.mp hrest
        cases (step_over (hlost hev).over).symm.trans hstep'

theorem Ok.whole (h : t.Ok) : t.Whole := by
  constructor
  · rintro (hpc | hpc | hpc)
    · rw [Ok, hpc] at h
      exact ⟨h.1, h.2 ▸ List.nil_prefix⟩
    · rw [Ok, hpc] at h
      exact h
    · rw [Ok, hpc] at h
      exact h
  · intro hpc
    rw [Ok, hpc] at h
    exact h.2 rfl

theorem Lost.whole (h : t.Lost) : t.Whole := by
  obtain ⟨⟨e, hpc⟩, -⟩ := h
  constructor
  · rintro (hreading | hreading | hreading)
    · cases hpc.symm.trans hreading
    · cases hpc.symm.trans hreading
    · cases hpc.symm.trans hreading
  · intro hended
    cases hpc.symm.trans hended

end Transfer

/-- **The temporary file of a request** is gone when the request is over exactly if no step has
left a pull behind; and in every run, what a pull streams is the whole file. -/
theorem file_gone {t t' : Transfer} {es : List Event} (hinit : transferMachine.Init t)
    (hrun : transferMachine.run t es = some t') :
    (t'.Over → (t'.file = none ↔ transferMachine.RunOk Transfer.Kept t es)) ∧ t'.Whole := by
  obtain ⟨hpc, hfile, hsent⟩ := hinit
  have hok : t.Ok := by
    rw [Transfer.Ok, hpc]
    exact ⟨hfile, hsent⟩
  obtain ⟨hkept, hlost⟩ := hok.run hrun
  by_cases hrunok : transferMachine.RunOk Transfer.Kept t es
  · refine ⟨fun hover => iff_of_true ?_ hrunok, (hkept hrunok).whole⟩
    by_contra hsome
    exact (hkept hrunok).not_over hsome hover
  · exact ⟨fun _ => iff_of_false (hlost hrunok).2 hrunok, (hlost hrunok).whole⟩

/-- A pull of one file. -/
def pullOf (path : Str) : Transfer where
  request := .pull (some path)
  pc := .called
  file := none
  pulled := []
  sent := []

/-- A pull whose client reads it to its end. -/
def pulledRun : List Event :=
  [.call 0, .entered none, .fileType (.result ⟨0, "regular file".toList, []⟩), .write [1, 2],
    .transferred (.result ⟨0, [], []⟩), .next, .next]

theorem file_gone_pulled : ∃ t, transferMachine.run (pullOf "/sdcard/a".toList) pulledRun = some t ∧
    t.sent = [1, 2] ∧ t.file = none ∧
    transferMachine.RunOk Transfer.Kept (pullOf "/sdcard/a".toList) pulledRun := by
  obtain ⟨t, hrun, hover, hsent, hfile⟩ : ∃ t,
      transferMachine.run (pullOf "/sdcard/a".toList) pulledRun = some t ∧ t.Over ∧
      t.sent = [1, 2] ∧ t.file = none := ⟨_, rfl, ⟨_, rfl⟩, rfl, rfl⟩
  obtain ⟨hgone, -⟩ := file_gone ⟨rfl, rfl, rfl⟩ hrun
  exact ⟨t, hrun, hsent, hfile, (hgone hover).mp hfile⟩

/-- A pull whose client is gone before the response asks for a chunk. -/
def leftRun : List Event :=
  [.call 0, .entered none, .fileType (.result ⟨0, "regular file".toList, []⟩), .write [1, 2],
    .transferred (.result ⟨0, [], []⟩), .cut]

/-- The file stays. -/
theorem file_left : ¬∀ (t t' : Transfer) (es : List Event), transferMachine.Init t →
    transferMachine.run t es = some t' → t'.Over → t'.file = none := by
  intro hall
  obtain ⟨t, hrun, hover, hfile⟩ : ∃ t,
      transferMachine.run (pullOf "/sdcard/a".toList) leftRun = some t ∧ t.Over ∧
      t.file = some [1, 2] := ⟨_, rfl, ⟨_, rfl⟩, rfl⟩
  have hgone := hall _ t leftRun ⟨rfl, rfl, rfl⟩ hrun hover
  cases hfile.symm.trans hgone

end Files

end AndroidAppliance
