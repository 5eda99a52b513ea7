import AndroidAppliance.Dashboard.Lane

/-!
# The order of the messages of a page

The reader of the session takes a message off the way up, and the page puts one on it or takes
an answer off the way down: `Lined` holds on.
-/

namespace AndroidAppliance

open Webrtc

open Session Dashboard

variable {n seen : Nat} {s : StreamState} {peer : Option Own} {up : List ClientMessage}
  {m : ClientMessage} {v : Viewer} {x : Entry}

/-! ### The reader -/

/-- The next message is taken. -/
theorem Lined.read (h : Lined n s peer (m :: up) seen v) {starts : Nat}
    (hstarts : v.starts ≤ starts) (hcounted : starts + up.count .start = n) :
    Lined n s peer up seen { v with starts } := by
  refine h.fewer hstarts hcounted h.jobs ?_
  exact (List.Sublist.refl _).append ((List.sublist_cons_self m up).filterMap _)

/-- The session puts the job of a message into its lane, or the lane is full. -/
theorem Lined.put (h : Lined n s peer (m :: up) seen v) (hfits : v.Fits) {starts : Nat}
    {job : StreamJob} (hwish : job.wish = m.wish) (hstarts : v.starts ≤ starts)
    (hcounted : starts + up.count .start = n) (hjob : ∀ i, job = .start i → i + 1 = n)
    (tell : Bool) {start : Option Nat} (hstart : ∀ i, start = some i → i + 1 = n) :
    Lined n s peer up seen (({ v with starts } : Viewer).put tell start job) := by
  have hread : Lined n s peer up seen { v with starts } := h.read hstarts hcounted
  unfold Viewer.put
  split
  · refine h.fewer hstarts hcounted (fun i hi => ?_) ?_
    · rcases List.mem_append.mp hi with hi | hi
      · exact h.jobs i hi
      · exact hjob i (List.mem_singleton.mp hi).symm
    · have hsame : (v.jobs ++ [job]).filterMap StreamJob.wish ++
          up.filterMap ClientMessage.wish = wishes (m :: up) v := by
        unfold wishes
        rw [List.filterMap_append, List.append_assoc]
        refine congrArg _ ?_
        rw [List.filterMap_cons, List.filterMap_cons, hwish]
        cases m.wish <;> rfl
      exact hsame ▸ List.Sublist.refl _
  · have herror : Allowed n s { v with starts }
        (.error start "bad_request" "too many pending messages") := .of_aside rfl hstart
    exact hread.speaks hfits.named ((Viewer.error_speaks herror).trans
      (.quiet rfl rfl rfl rfl rfl (.inl rfl) fun _ _ hpc => hpc))

theorem Lined.receive (h : Lined n s peer (m :: up) seen v) (hfits : v.Fits) (tell : Bool) :
    Lined n s peer up seen (v.receive tell m) := by
  have hcounted := h.counted
  have hsame : m ≠ .start → v.starts + up.count .start = n := by
    intro hm
    rw [List.count_cons, if_neg (by simpa using hm)] at hcounted
    exact hcounted
  cases m with
  | start =>
    -- there is no other start under way
    have hnone : up.count .start = 0 := by
      rw [List.count_eq_zero]
      intro hmem
      refine h.single (List.Sublist.trans ?_ (List.sublist_append_right _ _))
      have hmem' : .start ∈ up.filterMap ClientMessage.wish :=
        List.mem_filterMap.mpr ⟨_, hmem, rfl⟩
      exact List.Sublist.cons_cons _ (List.singleton_sublist.mpr hmem')
    have hlast : v.starts + 1 = n := by
      rw [List.count_cons_self, hnone] at hcounted
      exact hcounted
    refine h.put hfits rfl (Nat.le_succ _) (by omega) (fun i hi => ?_) tell fun i hi => ?_
    · cases hi
      exact hlast
    · cases hi
      exact hlast
  | stop =>
    have hstops : Lined n s peer (.stop :: up) seen { v with stops := v.stops + 1 } :=
      h.speaks hfits.named (.quiet rfl rfl rfl rfl rfl (.inl rfl) fun _ _ hpc => hpc)
    have hfits' : ({ v with stops := v.stops + 1 } : Viewer).Fits :=
      hfits.congr rfl rfl rfl id rfl rfl id
    refine hstops.put hfits' rfl (Nat.le_refl _) (hsame nofun) (fun i hi => ?_) tell nofun
    cases hi
  | jsep data peer =>
    refine h.put hfits rfl (Nat.le_refl _) (hsame nofun) (fun i hi => ?_) tell nofun
    cases hi
  | refused code message =>
    exact (h.read (Nat.le_refl _) (hsame nofun)).error hfits tell code message
  | accepted => exact h.read (Nat.le_refl _) (hsame nofun)

/-! ### Steps of the page -/

/-- An entry is delivered. -/
theorem Lined.deliver (h : Lined n s peer up seen v) {rest : List Entry}
    (hdown : v.log.drop seen = x :: rest) : Lined n s peer up (seen + 1) v := by
  have hrest : v.log.drop (seen + 1) = rest := by
    rw [← List.drop_drop, hdown]
    rfl
  have hshort : seen < v.log.length := by
    by_contra hle
    rw [List.drop_eq_nil_of_le (Nat.le_of_not_lt hle)] at hdown
    cases hdown
  refine { h with short := hshort, answers := ?_, follows := ?_, active := ?_ }
  · rw [hrest]
    intro y hy
    exact h.answers y (by rw [hdown]; exact List.mem_cons_of_mem _ hy)
  · rw [hrest]
    intro he
    have hpair := h.follows he
    rw [hdown] at hpair
    exact (List.pairwise_cons.mp hpair).2
  · rw [hrest]
    intro ha
    obtain ⟨hm, hfine⟩ := h.active ha
    exact ⟨hm, fun y hy => hfine y (by rw [hdown]; exact List.mem_cons_of_mem _ hy)⟩

/-- The stream changes, but not to a new one. -/
theorem Lined.turn (h : Lined n s peer up seen v) {s' : StreamState} {peer' : Option Own}
    (hengaged : s'.engaged = true → s.engaged = true)
    (hactive : s'.active = true → s.active = true)
    (hpeer : ∀ k, peer' = some k → peer = some k) : Lined n s' peer' up seen v := by
  refine { h with stops := ?_, made := ?_, follows := ?_, active := ?_, peered := ?_ }
  · exact fun he => h.stops (hengaged he)
  · intro hm
    obtain ⟨hstart, hc, hstop⟩ := h.made hm
    exact ⟨hstart, hc, fun he => hstop (hengaged he)⟩
  · exact fun he => h.follows (hengaged he)
  · exact fun ha => h.active (hactive ha)
  · exact fun k hk => h.peered k (hpeer k hk)

/-- An answer begins the stream of the last start, and everything behind it is about it. -/
theorem Lined.activate (h : Lined n s peer up seen v) (hfits : v.Fits) {rest : List Entry}
    (hdown : v.log.drop seen = x :: rest) (hbegins : x.begins = true)
    (hengaged : s.engaged = true) {s' : StreamState} {peer' : Option Own}
    (hpeer : ∀ k, peer' = some k → peer = some k ∨ x.about = some k) :
    Lined n s' peer' up (seen + 1) v := by
  have hx : x ∈ v.log.drop seen := by
    rw [hdown]
    exact List.mem_cons_self
  have hrest : v.log.drop (seen + 1) = rest := by
    rw [← List.drop_drop, hdown]
    rfl
  have hpair := h.follows hengaged
  rw [hdown] at hpair
  have hdelivered := h.deliver hdown
  refine { hdelivered with stops := ?_, made := ?_, follows := ?_, active := ?_, peered := ?_ }
  · exact fun _ => h.stops hengaged
  · intro hm
    obtain ⟨hstart, hc, hstop⟩ := h.made hm
    exact ⟨hstart, hc, fun _ => hstop hengaged⟩
  · exact fun _ => hdelivered.follows hengaged
  · rw [hrest]
    exact fun _ => ⟨h.begun hfits.named hx hbegins,
      fun y hy => (List.pairwise_cons.mp hpair).1 y hy hbegins⟩
  · intro k hk
    rcases hpeer k hk with hk | hk
    · exact h.peered k hk
    · refine ⟨hfits.named x (List.mem_of_mem_drop hx) k hk, h.answers x hx _ ?_⟩
      cases x with
      | starting k' | configured k' =>
        cases hk
        rfl
      | ended | stopped | jsep | error | other | left => cases hbegins

theorem wishes_append (up : List ClientMessage) (v : Viewer) (m : ClientMessage) :
    wishes (up ++ [m]) v = wishes up v ++ m.wish.toList := by
  unfold wishes
  rw [List.filterMap_append, List.append_assoc]
  refine congrArg _ (congrArg _ ?_)
  cases hm : m.wish <;> simp [hm]

/-- Two elements stand in an extended list as before, or the second one is new. -/
theorem pair_sublist_append {α : Type} {a b c : α} {l : List α}
    (h : [a, b].Sublist (l ++ [c])) : [a, b].Sublist l ∨ a ∈ l ∧ b = c := by
  obtain ⟨l₁, l₂, heq, h₁, h₂⟩ := List.sublist_append_iff.mp h
  rcases List.sublist_singleton.mp h₂ with rfl | rfl
  · rw [List.append_nil] at heq
    rw [heq]
    exact .inl h₁
  · have hsplit : [a] ++ [b] = l₁ ++ [c] := heq
    obtain ⟨rfl, hb⟩ := List.append_inj' hsplit rfl
    cases hb
    exact .inr ⟨List.singleton_sublist.mp h₁, rfl⟩

/-- The page sends something that is no start. -/
theorem Lined.send (h : Lined n s peer up seen v) (hm : m ≠ .start)
    (hstops : m.wish = some .stop → s.engaged = false)
    (hsignals : ∀ p, m.wish = some (.signal p) → .start ∉ wishes up v ∧
      ∀ k, v.current = some k → k.start = p) : Lined n s peer (up ++ [m]) seen v := by
  have hcount : (up ++ [m]).count .start = up.count .start := by
    rw [List.count_append, List.count_singleton, if_neg (by simpa using hm), Nat.add_zero]
  have hwishes := wishes_append up v m
  have hnotStart : m.wish ≠ some .start := by
    cases m with
    | start => exact absurd rfl hm
    | stop | jsep | refused | accepted => nofun
  cases hwish : m.wish with
  | none =>
    have hsame : wishes (up ++ [m]) v = wishes up v := by
      rw [hwishes, hwish]
      exact List.append_nil _
    refine { h with counted := ?_, single := ?_, stops := ?_, signals := ?_, made := ?_,
                    heeded := ?_ }
    · rw [hcount]
      exact h.counted
    all_goals rw [hsame]
    · exact h.single
    · exact h.stops
    · exact h.signals
    · exact h.made
    · exact h.heeded
  | some x =>
    have hx : x ≠ .start := fun heq => hnotStart (heq ▸ hwish)
    have hnew : wishes (up ++ [m]) v = wishes up v ++ [x] := by
      rw [hwishes, hwish]
      rfl
    refine { h with counted := ?_, single := ?_, stops := ?_, signals := ?_, made := ?_,
                    heeded := ?_ }
    · rw [hcount]
      exact h.counted
    all_goals rw [hnew]
    · intro hpair
      rcases pair_sublist_append hpair with hpair | ⟨-, heq⟩
      · exact h.single hpair
      · exact hx heq.symm
    · intro he hpair
      rcases pair_sublist_append hpair with hpair | ⟨-, heq⟩
      · exact h.stops he hpair
      · rw [hstops (by rw [hwish, heq])] at he
        cases he
    · intro p hpair
      rcases pair_sublist_append hpair with hpair | ⟨hmem, heq⟩
      · exact h.signals p hpair
      · exact (hsignals p (by rw [hwish, heq])).1 hmem
    · intro hmade
      obtain ⟨hstart, hc, hstop⟩ := h.made hmade
      refine ⟨fun hmem => ?_, hc, fun he hmem => ?_⟩
      · rcases List.mem_append.mp hmem with hmem | hmem
        · exact hstart hmem
        · exact hx (List.mem_singleton.mp hmem).symm
      · rcases List.mem_append.mp hmem with hmem | hmem
        · exact hstop he hmem
        · rw [hstops (by rw [hwish, List.mem_singleton.mp hmem])] at he
          cases he
    · intro p hmem k hk
      rcases List.mem_append.mp hmem with hmem | hmem
      · exact h.heeded p hmem k hk
      · exact (hsignals p (by rw [hwish, List.mem_singleton.mp hmem])).2 k hk

/-- The page sends a start when all starts before are answered. -/
theorem Lined.sendStart (h : Lined n s peer up seen v) (hstart : .start ∉ wishes up v)
    (hopening : ∀ k servers, v.pc ≠ .opening k servers)
    (hanswers : ∀ x ∈ v.log.drop seen, x.answers = none) :
    Lined (n + 1) .requested none (up ++ [.start]) seen v := by
  have hnew : wishes (up ++ [.start]) v = wishes up v ++ [.start] := wishes_append up v .start
  have hfresh : ¬ Made (n + 1) v := by
    rintro ⟨k, hk, hkn⟩
    have hlt := h.owns k hk
    have hcounted := h.counted
    omega
  have hbegins : ∀ x ∈ v.log.drop seen, x.begins = false := by
    intro x hx
    have hnone := hanswers x hx
    cases x with
    | starting | configured => cases hnone
    | ended | stopped | jsep | error | other | left => rfl
  constructor
  · rw [List.count_append, List.count_singleton_self, ← Nat.add_assoc, h.counted]
  · intro i hi
    refine absurd ?_ hstart
    exact List.mem_append_left _ (List.mem_filterMap.mpr ⟨_, hi, rfl⟩)
  · exact fun k servers hpc => absurd hpc (hopening k servers)
  · exact h.owns
  · exact h.distinct
  · rw [hnew]
    intro hpair
    rcases pair_sublist_append hpair with hpair | ⟨hmem, -⟩
    · exact h.single hpair
    · exact hstart hmem
  · rw [hnew]
    intro _ hpair
    rcases pair_sublist_append hpair with hpair | ⟨-, heq⟩
    · exact hstart (hpair.subset List.mem_cons_self)
    · cases heq
  · rw [hnew]
    intro p hpair
    rcases pair_sublist_append hpair with hpair | ⟨-, heq⟩
    · exact hstart (hpair.subset List.mem_cons_self)
    · cases heq
  · exact fun hm => absurd hm hfresh
  · rw [hnew]
    intro p hmem
    rcases List.mem_append.mp hmem with hmem | hmem
    · exact h.heeded p hmem
    · cases List.mem_singleton.mp hmem
  · exact h.short
  · intro x hx i hi
    rw [hanswers x hx] at hi
    cases hi
  · refine fun _ => List.pairwise_of_forall_mem_list fun x hx y _ hb => ?_
    rw [hbegins x hx] at hb
    cases hb
  · nofun
  · exact h.relayed
  · nofun

end AndroidAppliance
