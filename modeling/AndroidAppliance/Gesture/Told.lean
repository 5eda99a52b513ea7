import AndroidAppliance.Gesture.Display

/-!
# What the display has told

`Told` relates the display to the daemon that heard its messages: they agree up to what waits for
the next frame. Every event keeps it, and tells the same presses and lifts whether or not the
frame came first.
-/

namespace AndroidAppliance

namespace Gesture

/-! ### What was told and what waits -/

section

variable {π : Type} [DecidableEq π] {d d' : DisplayInput π} {h h' : Heard}

namespace DisplayInput

/-- Something waits for the next frame. -/
def Waits (d : DisplayInput π) : Prop :=
  d.touchesMoved = true ∨ (∃ m, d.mouse = some m ∧ m.dirty = true) ∨ d.wheel ≠ none

/-- The buttons that are down. -/
def buttons (d : DisplayInput π) : ℤ := d.mouse.elim 0 Mouse.buttons

omit [DecidableEq π] in
/-- What is sent already is not sent again. -/
@[simp]
theorem flushed_flushed (d : DisplayInput π) : d.flushed.flushed = d.flushed := by
  simp [flushed, Function.comp_def]

omit [DecidableEq π] in
/-- Sending moves no finger. -/
@[simp]
theorem flushed_touches (d : DisplayInput π) : d.flushed.touches = d.touches := rfl

omit [DecidableEq π] in
/-- Nor does it change a button. -/
@[simp]
theorem buttons_flushed (d : DisplayInput π) : d.flushed.buttons = d.buttons := by
  unfold buttons flushed
  cases d.mouse <;> rfl

omit [DecidableEq π] in
/-- Nothing waits then. -/
theorem not_waits_flushed (d : DisplayInput π) : ¬d.flushed.Waits := by
  rintro (hmoved | ⟨m, hm, hdirty⟩ | hwheel)
  · cases hmoved
  · obtain ⟨m', -, rfl⟩ := Option.map_eq_some_iff.mp hm
    cases hdirty
  · exact hwheel rfl

/-- The daemon has the same fingers and buttons down as the display. -/
structure Near (d : DisplayInput π) (h : Heard) : Prop where
  table : d.touches.Ok
  fingers : ∀ n, (h.fingers n).isSome = (d.touches.view n).isSome
  /-- Only a move that waits can put a finger elsewhere. -/
  places : d.touchesMoved = false → h.fingers = d.touches.view
  buttons : buttonsOf h.mouse = d.buttons
  pressed : ∀ m, d.mouse = some m → m.buttons ≠ 0

/-- A message with the fingers as they are. -/
theorem Near.snapshot (hnear : d.Near h) {m : Touches} (hm : d.touches.snapshot = some m) :
    h.Quiet [.touch m] ∧ (h.hear (.touch m)).fingers = d.touches.view := by
  have hsays : d.touches.Says h.fingers m := by
    unfold TouchTable.snapshot at hm
    split at hm
    · cases hm
    · cases hm
      refine hnear.table.says_none fun n hnone => ?_
      have hsame := hnear.fingers n
      rw [hnone] at hsame
      exact Option.not_isSome_iff_eq_none.mp (by simp [hsame])
  have hview : TouchTable.delivered h.fingers m = d.touches.view := hsays.view
  have hnone : changesFingers h.fingers m = false := by
    unfold changesFingers
    rw [List.any_eq_false]
    intro t _
    rw [hview, hnear.fingers t.key]
    simp
  refine ⟨⟨⟨fun n => ?_, rfl⟩, ?_⟩, hview⟩
  · change (TouchTable.delivered h.fingers m n).isSome = (h.fingers n).isSome
    rw [hview]
    exact (hnear.fingers n).symm
  · change h.strokes ++ (if changesFingers h.fingers m then [Message.touch m] else []) = h.strokes
    rw [hnone]
    exact List.append_nil _

omit [DecidableEq π] in
/-- No contact, no finger. -/
theorem view_of_size {t : TouchTable π} (hsize : t.contacts.size = 0) :
    t.view = fun _ => none := by
  have hentries := List.eq_nil_of_length_eq_zero hsize
  funext n
  simp [TouchTable.view, Dict.values, hentries]

omit [DecidableEq π] in
/-- A table without a snapshot has no finger. -/
theorem view_of_snapshot {t : TouchTable π} (hsnap : t.snapshot = none) :
    t.view = fun _ => none := by
  unfold TouchTable.snapshot at hsnap
  split at hsnap
  · exact view_of_size ‹_›
  · cases hsnap

omit [DecidableEq π] in
/-- All fingers are lifted. -/
theorem view_releaseAll (t : TouchTable π) : t.releaseAll.1.view = fun _ => none := by
  unfold TouchTable.releaseAll
  split
  · exact view_of_size ‹_›
  · rfl

/-- The moves of the fingers that wait. -/
theorem Near.unsent_touches (hnear : d.Near h) {log : List Message}
    (hlog : log = if d.touchesMoved then (d.touches.snapshot.map Message.touch).toList else []) :
    h.Quiet log ∧ (h.hearAll log).fingers = d.touches.view ∧ (h.hearAll log).mouse = h.mouse := by
  cases hmoved : d.touchesMoved with
  | false =>
    rw [hlog, if_neg (by simp [hmoved])]
    exact ⟨.nil h, hnear.places hmoved, rfl⟩
  | true =>
    rw [hlog, if_pos hmoved]
    cases hsnap : d.touches.snapshot with
    | none =>
      refine ⟨.nil h, funext fun n => ?_, rfl⟩
      have hsame := hnear.fingers n
      rw [view_of_snapshot hsnap] at hsame ⊢
      exact Option.not_isSome_iff_eq_none.mp (by simp [hsame])
    | some m => exact ⟨(hnear.snapshot hsnap).1, (hnear.snapshot hsnap).2, rfl⟩

omit [DecidableEq π] in
/-- The message with the place of the mouse, where its buttons are the same. -/
theorem quiet_mouse {m : Mouse π} (hbuttons : buttonsOf h.mouse = m.buttons)
    (hpressed : m.buttons ≠ 0) :
    h.Quiet [m.message] ∧ (h.hear m.message).mouse = some (m.x, m.y, m.buttons) := by
  have hmouse : (h.hear m.message).mouse = some (m.x, m.y, m.buttons) := if_neg hpressed
  refine ⟨⟨⟨fun _ => rfl, ?_⟩, ?_⟩, hmouse⟩
  · change buttonsOf (h.hear m.message).mouse = buttonsOf h.mouse
    rw [hmouse, hbuttons]
    rfl
  · change h.strokes ++ (if buttonsOf h.mouse ≠ m.buttons then [m.message] else []) = h.strokes
    rw [if_neg (not_not_intro hbuttons)]
    exact List.append_nil _

/-- **What waits** puts nothing down and lifts nothing; then all fingers are where they are. -/
theorem Near.unsent (hnear : d.Near h) : h.Quiet d.unsent ∧
    (h.hearAll d.unsent).fingers = d.touches.view ∧
    (h.hearAll d.unsent).mouse = ((d.mouse.filter Mouse.dirty).map
      fun m => (m.x, m.y, m.buttons)).orElse fun _ => h.mouse := by
  obtain ⟨hquiet, hfingers, hmouse⟩ := hnear.unsent_touches rfl
  unfold DisplayInput.unsent
  rw [Heard.hearAll_append, Heard.hearAll_append, Heard.hearAll_wheel]
  generalize (if d.touchesMoved then (d.touches.snapshot.map Message.touch).toList
    else []) = log at hquiet hfingers hmouse ⊢
  refine ⟨?_, ?_⟩
  · refine Heard.Quiet.append ?_ (Heard.quiet_wheel _ _)
    cases hm : d.mouse.filter Mouse.dirty with
    | none => exact hquiet.append (.nil _)
    | some m =>
      have hsome : d.mouse = some m := (Option.filter_eq_some_iff.mp hm).1
      refine hquiet.append (quiet_mouse ?_ (hnear.pressed m hsome)).1
      rw [hmouse, hnear.buttons, DisplayInput.buttons, hsome]
      rfl
  · cases hm : d.mouse.filter Mouse.dirty with
    | none => exact ⟨hfingers, hmouse⟩
    | some m =>
      have hsome : d.mouse = some m := (Option.filter_eq_some_iff.mp hm).1
      exact ⟨hfingers, if_neg (hnear.pressed m hsome)⟩

/-- The daemon knows all that the display does not wait to tell. -/
structure Told (d : DisplayInput π) (h : Heard) : Prop extends Near d h where
  mouse : ∀ m, d.mouse = some m → m.dirty = false → h.mouse = some (m.x, m.y, m.buttons)
  lifted : d.mouse = none → h.mouse = none
  frame : d.frame = true ↔ d.Waits

omit [DecidableEq π] in
/-- All was sent. -/
@[simp]
theorem unsent_flushed (d : DisplayInput π) : d.flushed.unsent = [] := by
  unfold unsent flushed
  cases d.mouse <;> rfl

/-- Who hears what was not sent yet knows all. -/
theorem Near.flushed (hnear : d.Near h) : d.flushed.Near (h.hearAll d.unsent) := by
  obtain ⟨hquiet, hfingers, -⟩ := hnear.unsent
  refine ⟨hnear.table, fun n => ?_, fun _ => hfingers, ?_, fun m hm => ?_⟩
  · rw [hfingers]
    rfl
  · rw [hquiet.same.buttons, hnear.buttons, buttons_flushed]
  · obtain ⟨m', hm', rfl⟩ := Option.map_eq_some_iff.mp hm
    exact hnear.pressed m' hm'

/-- **A frame** tells what waits. -/
theorem Told.flushed (t : d.Told h) : d.flushed.Told (h.hearAll d.unsent) := by
  obtain ⟨-, -, hmouse⟩ := t.toNear.unsent
  refine ⟨t.toNear.flushed, fun m hm _ => ?_, fun hm => ?_, ?_⟩
  · obtain ⟨m', hm', rfl⟩ := Option.map_eq_some_iff.mp hm
    rw [hmouse, hm']
    cases hdirty : m'.dirty with
    | true => simp [Option.filter, hdirty]
    | false => simpa [Option.filter, hdirty] using t.mouse m' hm' hdirty
  · have hnone : d.mouse = none := Option.map_eq_none_iff.mp hm
    rw [hmouse, hnone]
    exact t.lifted hnone
  · exact iff_of_false (by simp [DisplayInput.flushed]) (not_waits_flushed d)

/-- What an event does where nothing waits: `own` are its messages and `after` is what is held
then. Where something waits it may go out before. -/
structure Does (d : DisplayInput π) (h : Heard) (r : DisplayInput π × List Message)
    (own : List Message) (after : DisplayInput π) : Prop where
  messages : ∃ before, r.2 = before ++ own ∧ h.Quiet before
  after : r.1.flushed = after.flushed
  told : r.1.Told (h.hearAll r.2)

/-- A message about the fingers, when all are known to be where they are. -/
theorem Told.stroke (t : d.flushed.Told h) {table : TouchTable π} {m : Option Touches}
    (htable : table.Ok) (htells : d.touches.Tells table m) :
    ({ d.flushed with touches := table } : DisplayInput π).Told
      (h.hearAll (m.map Message.touch).toList) := by
  have hplaces : h.fingers = d.touches.view := t.places rfl
  have hfingers : (h.hearAll (m.map Message.touch).toList).fingers = table.view := by
    cases m with
    | none => exact hplaces.trans htells.symm
    | some m =>
      change TouchTable.delivered h.fingers m = table.view
      rw [hplaces]
      exact htells.view
  have hmouse : (h.hearAll (m.map Message.touch).toList).mouse = h.mouse := by
    cases m <;> rfl
  refine ⟨⟨htable, fun n => congrArg Option.isSome (congrFun hfingers n), fun _ => hfingers, ?_,
    t.pressed⟩, ?_, ?_, t.frame⟩
  · rw [hmouse]
    exact t.buttons
  · rw [hmouse]
    exact t.mouse
  · rw [hmouse]
    exact t.lifted

/-- A finger that goes down or up, after what waits. -/
theorem Told.does_stroke (t : d.Told h) {table : TouchTable π} {m : Option Touches}
    (htable : table.Ok) (htells : d.touches.Tells table m) :
    d.Does h ({ d.flushed with touches := table }, d.unsent ++ (m.map Message.touch).toList)
      (m.map Message.touch).toList { d.flushed with touches := table } := by
  refine ⟨⟨d.unsent, rfl, t.toNear.unsent.1⟩, rfl, ?_⟩
  rw [Heard.hearAll_append]
  exact t.flushed.stroke htable htells

/-- A message with the place and the buttons of the mouse, after what waits. -/
theorem Near.does_mouse (hnear : d.Near h) (m : Mouse π) (hclean : m.dirty = false) :
    d.Does h ({ d.flushed with mouse := if m.buttons = 0 then none else some m },
      d.unsent ++ [m.message]) [m.message]
      { d.flushed with mouse := if m.buttons = 0 then none else some m } := by
  refine ⟨⟨d.unsent, rfl, hnear.unsent.1⟩, rfl, ?_⟩
  rw [Heard.hearAll_append]
  have hflushed := hnear.flushed
  have hwaits : ¬({ d.flushed with mouse := if m.buttons = 0 then none else some m } :
      DisplayInput π).Waits := by
    rintro (hmoved | ⟨m', hm', hdirty⟩ | hwheel)
    · cases hmoved
    · by_cases hbuttons : m.buttons = 0
      · simp [hbuttons] at hm'
      · simp only [if_neg hbuttons, Option.some.injEq] at hm'
        rw [← hm', hclean] at hdirty
        cases hdirty
    · exact hwheel rfl
  have hmouse : ((h.hearAll d.unsent).hearAll [m.message]).mouse =
      if m.buttons = 0 then none else some (m.x, m.y, m.buttons) := rfl
  refine ⟨⟨hflushed.table, hflushed.fingers, hflushed.places, ?_, fun m' hm' => ?_⟩,
    fun m' hm' _ => ?_, fun hm' => ?_, iff_of_false (by simp [DisplayInput.flushed]) hwaits⟩
  · rw [hmouse, DisplayInput.buttons]
    split
    · rfl
    · rfl
  · by_cases hbuttons : m.buttons = 0
    · simp [hbuttons] at hm'
    · simp only [if_neg hbuttons, Option.some.injEq] at hm'
      rwa [← hm']
  · rw [hmouse]
    by_cases hbuttons : m.buttons = 0
    · simp [hbuttons] at hm'
    · simp only [if_neg hbuttons, Option.some.injEq] at hm'
      rw [if_neg hbuttons, hm']
  · rw [hmouse]
    by_cases hbuttons : m.buttons = 0
    · exact if_pos hbuttons
    · simp [hbuttons] at hm'

/-- Nothing goes out, and what is held stays. -/
theorem Does.silent {after : DisplayInput π} (ht : d'.Told h)
    (hafter : d'.flushed = after.flushed) :
    d.Does h (d', []) [] after :=
  ⟨⟨[], rfl, .nil h⟩, hafter, ht⟩

/-- A finger that is down presses. -/
theorem touchPressure_pos (pressure : ℚ) : 0 < touchPressure pressure := by
  unfold touchPressure
  split
  · exact lt_min one_pos ‹_›
  · exact one_pos

variable {e : PointerEvent π} {pageHeight : ℚ}

/-! #### The events -/

/-- A finger or a button goes down. -/
theorem Told.does_down (t : d.Told h) (hbuttons : e.isMouse = true → e.buttons ≠ 0)
    (hnew : e.isMouse = false → d.touches.contacts.get e.pointerId = none) :
    d.Does h (d.down true e) (d.flushed.down true e).2 (d.flushed.down true e).1 := by
  unfold DisplayInput.down
  cases hinside : e.inside with
  | false => exact .silent t (flushed_flushed d).symm
  | true =>
    cases hkind : e.isMouse with
    | false =>
      simp only [Bool.not_true, Bool.or_self, Bool.false_eq_true, if_false, flushed_flushed,
        unsent_flushed, List.nil_append]
      exact t.does_stroke (t.table.down (touchPressure_pos _) _ _ _)
        (t.table.tells_down (touchPressure_pos _) (hnew hkind) _ _)
    | true =>
      cases hmouse : d.mouse with
      | some m =>
        simp only [DisplayInput.flushed, hmouse, Option.map_some]
        exact .silent t (by simp [DisplayInput.flushed, hmouse])
      | none =>
        simp only [DisplayInput.flushed, hmouse, Option.map_none, Bool.not_true, Bool.or_self,
          Bool.false_eq_true, if_false, if_true]
        have hpressed := hbuttons hkind
        have hheard : (h.hearAll [(⟨e.pointerId, e.x, e.y, e.buttons, false⟩ : Mouse π).message]
            ).mouse = some (e.x, e.y, e.buttons) := if_neg hpressed
        refine ⟨⟨[], rfl, .nil h⟩, rfl, ⟨t.table, t.fingers, t.places, ?_, ?_⟩, ?_, nofun, ?_⟩
        · rw [hheard]
          rfl
        · rintro m ⟨⟩
          exact hpressed
        · rintro m ⟨⟩ -
          exact hheard
        · -- the mouse did not wait, and does not
          refine t.frame.trans (or_congr_right (or_congr_left (iff_of_false ?_ ?_)))
          · rintro ⟨m, hm, -⟩
            rw [hmouse] at hm
            cases hm
          · rintro ⟨m, ⟨⟩, hdirty⟩
            cases hdirty

omit [DecidableEq π] in
/-- The mouse without what waits. -/
theorem flushed_mouse {m : Mouse π} (hm : d.mouse = some m) :
    d.flushed.mouse = some { m with dirty := false } := by
  simp [DisplayInput.flushed, hm]

/-- The mouse moves. -/
theorem Told.does_moveMouse (t : d.Told h) {m : Mouse π} (hm : d.mouse = some m) :
    d.Does h (d.moveMouse m e) (d.flushed.moveMouse { m with dirty := false } e).2
      (d.flushed.moveMouse { m with dirty := false } e).1 := by
  unfold DisplayInput.moveMouse
  by_cases hbuttons : e.buttons = m.buttons
  · simp only [hbuttons, ne_eq, not_true_eq_false, if_false]
    refine .silent ⟨⟨t.table, t.fingers, t.places, ?_, ?_⟩, ?_, nofun, ?_⟩ rfl
    · rw [t.buttons, DisplayInput.buttons, hm]
      rfl
    · rintro m' ⟨⟩
      exact t.pressed m hm
    · rintro m' ⟨⟩ hdirty
      cases hdirty
    · exact iff_of_true rfl (.inr (.inl ⟨_, rfl, rfl⟩))
  · simp only [hbuttons, ne_eq, not_false_eq_true, if_true]
    -- the new place may go out with the buttons that were down
    have hnear : ({ d with mouse := some { m with x := e.x, y := e.y } } : DisplayInput π).Near
        h := by
      refine ⟨t.table, t.fingers, t.places, ?_, ?_⟩
      · rw [t.buttons, DisplayInput.buttons, hm]
        rfl
      · rintro m' ⟨⟩
        exact t.pressed m hm
    have hdoes := hnear.does_mouse
      { m with x := e.x, y := e.y, buttons := e.buttons, dirty := false } rfl
    exact ⟨hdoes.messages, hdoes.after, hdoes.told⟩

/-- A finger that moves stays down. -/
theorem isSome_view_move {table : TouchTable π} (ht : table.Ok) (q : π) (x y : ℚ) {pressure : ℚ}
    (hpressure : 0 < pressure) (n : Nat) :
    ((table.move q x y pressure).1.view n).isSome = (table.view n).isSome := by
  have hok := ht.move hpressure q x y
  -- a move changes no id
  have hids : (∃ q' f, (table.move q x y pressure).1.contacts.get q' = some f ∧ f.id = n) ↔
      ∃ q' f, table.contacts.get q' = some f ∧ f.id = n := by
    unfold TouchTable.move
    split
    · exact Iff.rfl
    · rename_i f hf
      split
      · exact Iff.rfl
      · constructor
        · rintro ⟨q', f', hf', rfl⟩
          rw [Dict.get_put] at hf'
          split at hf'
          · cases hf'
            exact ⟨q, f, hf, rfl⟩
          · exact ⟨q', f', hf', rfl⟩
        · rintro ⟨q', f', hf', rfl⟩
          by_cases hq : q' = q
          · subst hq
            cases hf.symm.trans hf'
            exact ⟨_, _, Dict.get_put_self, rfl⟩
          · exact ⟨q', f', (Dict.get_put_of_ne hq).trans hf', rfl⟩
  rw [Bool.eq_iff_iff, Option.isSome_iff_exists, Option.isSome_iff_exists]
  constructor
  · rintro ⟨place, hplace⟩
    obtain ⟨q', f, hf, hid, -⟩ := hok.view_eq_some.mp hplace
    obtain ⟨q'', f', hf', hid'⟩ := hids.mp ⟨q', f, hf, hid⟩
    exact ⟨_, ht.view_eq_some.mpr ⟨q'', f', hf', hid', rfl⟩⟩
  · rintro ⟨place, hplace⟩
    obtain ⟨q', f, hf, hid, -⟩ := ht.view_eq_some.mp hplace
    obtain ⟨q'', f', hf', hid'⟩ := hids.mpr ⟨q', f, hf, hid⟩
    exact ⟨_, hok.view_eq_some.mpr ⟨q'', f', hf', hid', rfl⟩⟩

/-- A finger that is not in the table does not move. -/
theorem move_of_not_moved {table : TouchTable π} {q : π} {x y pressure : ℚ}
    (hmoved : (table.move q x y pressure).2 = false) :
    (table.move q x y pressure).1 = table := by
  unfold TouchTable.move at hmoved ⊢
  split
  · rfl
  · rename_i f hf
    simp only [hf] at hmoved
    split
    · rfl
    · rename_i hne
      rw [if_neg hne] at hmoved
      cases hmoved

/-- A finger moves. -/
theorem Told.does_moveTouch (t : d.Told h) :
    d.Does h (d.moveTouch e, []) [] (d.flushed.moveTouch e) := by
  unfold DisplayInput.moveTouch
  simp only [flushed_touches]
  by_cases hmoved : (d.touches.move e.pointerId e.x e.y (touchPressure e.pressure)).2 = true
  · simp only [if_pos hmoved]
    refine .silent ⟨⟨?_, fun n => ?_, nofun, t.buttons, t.pressed⟩, t.mouse, t.lifted, ?_⟩ ?_
    · exact t.table.move (touchPressure_pos _) _ _ _
    · exact (t.fingers n).trans
        (isSome_view_move t.table _ _ _ (touchPressure_pos _) n).symm
    · exact iff_of_true rfl (.inl rfl)
    · simp [schedule, DisplayInput.flushed, hmoved, Function.comp_def]
  · simp only [if_neg hmoved, move_of_not_moved (Bool.not_eq_true _ ▸ hmoved)]
    exact .silent t (flushed_flushed d).symm

/-- A finger or the mouse moves. -/
theorem Told.does_move (t : d.Told h) :
    d.Does h (d.move e) (d.flushed.move e).2 (d.flushed.move e).1 := by
  unfold DisplayInput.move
  cases hm : d.mouse.filter fun m => m.pointerId = e.pointerId with
  | some m =>
    obtain ⟨hsome, hid⟩ := Option.filter_eq_some_iff.mp hm
    have hflushed : d.flushed.mouse.filter (fun m => m.pointerId = e.pointerId) =
        some { m with dirty := false } := by
      rw [flushed_mouse hsome]
      exact Option.filter_eq_some_iff.mpr ⟨rfl, hid⟩
    rw [hflushed]
    exact t.does_moveMouse hsome
  | none =>
    have hflushed : d.flushed.mouse.filter (fun m => m.pointerId = e.pointerId) = none := by
      rw [Option.filter_eq_none_iff] at hm ⊢
      intro m hsome
      obtain ⟨m', hm', rfl⟩ := Option.map_eq_some_iff.mp hsome
      exact hm m' hm'
    rw [hflushed]
    by_cases hhas : d.touches.contacts.has e.pointerId = true
    · have hhas' : d.flushed.touches.contacts.has e.pointerId = true := hhas
      simp only [if_pos hhas, if_pos hhas']
      exact t.does_moveTouch
    · have hhas' : ¬d.flushed.touches.contacts.has e.pointerId = true := hhas
      simp only [if_neg hhas, if_neg hhas']
      exact .silent t (flushed_flushed d).symm

/-- A finger or a button goes up. -/
theorem Told.does_up (t : d.Told h) (cancelled : Bool) :
    d.Does h (d.up e cancelled) (d.flushed.up e cancelled).2 (d.flushed.up e cancelled).1 := by
  unfold DisplayInput.up
  cases hm : d.mouse.filter fun m => m.pointerId = e.pointerId with
  | some m =>
    obtain ⟨hsome, hid⟩ := Option.filter_eq_some_iff.mp hm
    have hflushed : d.flushed.mouse.filter (fun m => m.pointerId = e.pointerId) =
        some { m with dirty := false } := by
      rw [flushed_mouse hsome]
      exact Option.filter_eq_some_iff.mpr ⟨rfl, hid⟩
    simp only [hflushed, flushed_flushed, unsent_flushed, List.nil_append]
    exact t.toNear.does_mouse
      { m with
        x := (if cancelled then (m.x, m.y) else (e.x, e.y)).1
        y := (if cancelled then (m.x, m.y) else (e.x, e.y)).2
        buttons := if cancelled then 0 else e.buttons
        dirty := false } rfl
  | none =>
    have hflushed : d.flushed.mouse.filter (fun m => m.pointerId = e.pointerId) = none := by
      rw [Option.filter_eq_none_iff] at hm ⊢
      intro m hsome
      obtain ⟨m', hm', rfl⟩ := Option.map_eq_some_iff.mp hsome
      exact hm m' hm'
    rw [hflushed]
    by_cases hhas : d.touches.contacts.has e.pointerId = true
    · have hhas' : d.flushed.touches.contacts.has e.pointerId = true := hhas
      simp only [if_pos hhas, if_pos hhas', flushed_flushed, unsent_flushed, List.nil_append]
      exact t.does_stroke (t.table.up _ _ _) (t.table.tells_up _ _ _)
    · have hhas' : ¬d.flushed.touches.contacts.has e.pointerId = true := hhas
      simp only [if_neg hhas, if_neg hhas']
      exact .silent t (flushed_flushed d).symm

/-- The wheel turns. -/
theorem Told.does_onWheel (t : d.Told h) (e : WheelEvent) :
    d.Does h (d.onWheel pageHeight true e, []) [] (d.flushed.onWheel pageHeight true e) := by
  unfold DisplayInput.onWheel
  cases e.ctrlKey with
  | true => exact .silent t (flushed_flushed d).symm
  | false =>
    simp only [Bool.not_true, Bool.or_self, Bool.false_eq_true, if_false]
    refine .silent ⟨⟨t.table, t.fingers, t.places, t.buttons, t.pressed⟩, t.mouse, t.lifted, ?_⟩ ?_
    · exact iff_of_true rfl (.inr (.inr nofun))
    · simp [schedule, DisplayInput.flushed, Function.comp_def]

/-- All gestures end. -/
theorem Told.does_releaseAll (t : d.Told h) :
    d.Does h d.releaseAll d.flushed.releaseAll.2 d.flushed.releaseAll.1 := by
  have hmessages : d.flushed.releaseAll.2 = d.releaseAll.2 := by
    unfold DisplayInput.releaseAll DisplayInput.flushed
    cases d.mouse <;> rfl
  refine ⟨⟨[], hmessages.symm, .nil h⟩, rfl, ?_⟩
  have hempty := view_releaseAll d.touches
  -- every finger that is down is lifted, also one whose last move was not told
  have hfingers : ∀ n, ((h.hearAll (d.touches.releaseAll.2.map Message.touch).toList).fingers
      n).isSome = (d.touches.releaseAll.1.view n).isSome := by
    intro n
    have htells := t.table.tells_releaseAll
    cases hm : d.touches.releaseAll.2 with
    | none =>
      rw [hm] at htells
      exact (t.fingers n).trans (congrArg Option.isSome (congrFun htells n).symm)
    | some m =>
      rw [hm] at htells
      have hsame : (TouchTable.delivered h.fingers m n).isSome =
          (TouchTable.delivered d.touches.view m n).isSome := Heard.isSome_delivered t.fingers m n
      rw [htells.view] at hsame
      exact hsame
  have hmouse : (h.hearAll d.releaseAll.2).mouse = none := by
    unfold DisplayInput.releaseAll
    rw [Heard.hearAll_append]
    cases hm : d.mouse with
    | some m => rfl
    | none =>
      have hsame : (h.hearAll (d.touches.releaseAll.2.map Message.touch).toList).mouse =
          h.mouse := by
        cases d.touches.releaseAll.2 <;> rfl
      exact hsame.trans (t.lifted hm)
  have hlifted : (h.hearAll d.releaseAll.2).fingers = fun _ => none := by
    have hsame : (h.hearAll d.releaseAll.2).fingers =
        (h.hearAll (d.touches.releaseAll.2.map Message.touch).toList).fingers := by
      unfold DisplayInput.releaseAll
      rw [Heard.hearAll_append]
      cases d.mouse <;> rfl
    rw [hsame]
    funext n
    have hnone := hfingers n
    rw [hempty] at hnone
    exact Option.not_isSome_iff_eq_none.mp (by simp [hnone])
  refine ⟨⟨t.table.releaseAll, fun n => ?_, fun _ => ?_, ?_, nofun⟩, nofun, fun _ => hmouse, ?_⟩
  · rw [hlifted]
    exact congrArg Option.isSome (congrFun hempty n).symm
  · rw [hlifted]
    exact hempty.symm
  · rw [hmouse]
    rfl
  · refine iff_of_false (Bool.false_ne_true) ?_
    rintro (hmoved | ⟨m, hm, -⟩ | hwheel)
    · cases hmoved
    · cases hm
    · exact hwheel rfl

/-- What the events of a browser are: a finger that goes down was up, and a mouse goes down with
a button. -/
def Proper (d : DisplayInput π) : DisplayEvent π → Prop
  | .down e =>
    if e.isMouse then e.buttons ≠ 0 else d.touches.contacts.get e.pointerId = none
  | .move _ | .up _ _ | .wheel _ | .frame | .releaseAll => True

instance (d : DisplayInput π) (e : DisplayEvent π) : Decidable (d.Proper e) := by
  unfold Proper
  cases e <;> infer_instance

/-- **An event** does the same where something waits, after what waits or without it. -/
theorem Told.does (t : d.Told h) {e : DisplayEvent π} (hproper : d.Proper e)
    (hinput : e ≠ .frame) : d.Does h (d.handle pageHeight true e)
      (d.flushed.handle pageHeight true e).2 (d.flushed.handle pageHeight true e).1 := by
  cases e with
  | down e =>
    refine t.does_down (fun hkind => ?_) fun hkind => ?_
    · simpa [Proper, hkind] using hproper
    · simpa [Proper, hkind] using hproper
  | move e => exact t.does_move
  | up e cancelled => exact t.does_up cancelled
  | wheel e => exact t.does_onWheel e
  | frame => exact absurd rfl hinput
  | releaseAll => exact t.does_releaseAll

end DisplayInput

end

end Gesture

end AndroidAppliance
