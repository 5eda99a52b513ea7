import AndroidAppliance.Dashboard.Wire

/-!
# What is under way between a page and its session

`Lined` says what the messages under way, the control lane and the streams of the session
have in common: there is at most one start under way and it is the last one, what comes
behind it is neither a stop nor made by a peer connection, and all answers are to the last
start. From the first answer on, everything under way is about the stream of that start. The
steps of the session keep it.

The stages of the way up (channel, then lane) are taken together as one list of wishes.
-/

namespace AndroidAppliance

open Webrtc

namespace Session

/-- What a message to the session is about. -/
inductive Wish
  | start
  | stop
  | signal (peer : Nat)
  deriving DecidableEq, Repr

/-- What a message of the client asks of its stream. -/
def ClientMessage.wish : ClientMessage → Option Wish
  | .start => some .start
  | .stop => some .stop
  | .jsep _ peer => some (.signal peer)
  | .refused _ _ | .accepted => none

/-- What a job of the control lane was asked for by. -/
def StreamJob.wish : StreamJob → Option Wish
  | .start _ => some .start
  | .stop => some .stop
  | .relay _ peer => some (.signal peer)
  | .androidStopped => none

/-- The session told the page to begin with a stream. -/
def Entry.begins : Entry → Bool
  | .starting _ | .configured _ _ => true
  | .ended _ _ | .stopped | .jsep _ _ | .error _ _ _ | .other | .left _ => false

/-- The entry is no answer to a stop, and about no stream but the one of the start before
`n`. -/
def Entry.Fine (n : Nat) (x : Entry) : Prop := x ≠ .stopped ∧ ∀ k ∈ x.about, k.start + 1 = n

/-- Behind an answer that begins a stream everything is about it. -/
def Entry.Follows (n : Nat) (x y : Entry) : Prop := x.begins = true → y.Fine n

end Session

open Session Dashboard

/-- A stream was started and is neither over nor waiting for a new try. -/
def Dashboard.StreamState.engaged : StreamState → Bool
  | .requested | .starting | .negotiating | .live => true
  | .idle | .retrying => false

theorem Dashboard.StreamState.engaged_of_active {s : StreamState} (h : s.active = true) :
    s.engaged = true := by
  cases s <;> first | rfl | cases h

/-- The wishes in the lane and under way. -/
def wishes (up : List ClientMessage) (v : Viewer) : List Wish :=
  v.jobs.filterMap StreamJob.wish ++ up.filterMap ClientMessage.wish

/-- The last of `n` starts has made a stream. -/
def Made (n : Nat) (v : Viewer) : Prop := ∃ k ∈ v.owns, k.start + 1 = n

/-- The messages under way agree with the session, with the state `s` of the stream, and with
the stream `peer` of the peer connection, after `n` starts. -/
structure Lined (n : Nat) (s : StreamState) (peer : Option Own) (up : List ClientMessage)
    (seen : Nat) (v : Viewer) : Prop where
  counted : v.starts + up.count .start = n
  jobs : ∀ i, .start i ∈ v.jobs → i + 1 = n
  opening : ∀ k servers, v.pc = .opening k servers → k.start + 1 = n
  owns : ∀ k ∈ v.owns, k.start < v.starts
  distinct : ∀ k ∈ v.owns, ∀ k' ∈ v.owns, k.start = k'.start → k = k'
  single : ¬ [.start, .start].Sublist (wishes up v)
  stops : s.engaged = true → ¬ [.start, .stop].Sublist (wishes up v)
  signals : ∀ p, ¬ [.start, .signal p].Sublist (wishes up v)
  made : Made n v → .start ∉ wishes up v ∧ (∀ k, v.current = some k → k.start + 1 = n) ∧
    (s.engaged = true → .stop ∉ wishes up v)
  /-- A signal finds its stream, or none. -/
  heeded : ∀ p, .signal p ∈ wishes up v → ∀ k, v.current = some k → k.start = p
  short : seen ≤ v.log.length
  answers : ∀ x ∈ v.log.drop seen, ∀ i, x.answers = some i → i + 1 = n
  follows : s.engaged = true → (v.log.drop seen).Pairwise (Entry.Follows n)
  active : s.active = true → Made n v ∧ ∀ x ∈ v.log.drop seen, x.Fine n
  relayed : ∀ p k, (p, k) ∈ v.relayed → k.start = p ∧ k ∈ v.owns
  peered : ∀ k, peer = some k → k ∈ v.owns ∧ k.start + 1 = n

namespace Viewer

variable {v v' v'' : Viewer} {P : Entry → Prop} {x : Entry} {k : Own}

/-! ### What a stretch says -/

/-- The session only queues entries with `P`, and may drop its stream. -/
structure Speaks (P : Entry → Prop) (v v' : Viewer) : Prop where
  log : ∃ ys, v'.log = v.log ++ ys ∧ ∀ y ∈ ys, P y
  jobs : v'.jobs = v.jobs
  owns : v'.owns = v.owns
  starts : v'.starts = v.starts
  relayed : v'.relayed = v.relayed
  current : v'.current = v.current ∨ v'.current = none
  opening : ∀ k servers, v'.pc = .opening k servers → v.pc = .opening k servers

theorem Speaks.trans (h : Speaks P v v') (h' : Speaks P v' v'') : Speaks P v v'' := by
  obtain ⟨xs, hxs, hP⟩ := h.log
  obtain ⟨ys, hys, hP'⟩ := h'.log
  refine ⟨⟨xs ++ ys, by rw [hys, hxs, List.append_assoc], fun y hy => ?_⟩, h'.jobs.trans h.jobs,
    h'.owns.trans h.owns, h'.starts.trans h.starts, h'.relayed.trans h.relayed, ?_,
    fun k servers hk => h.opening k servers (h'.opening k servers hk)⟩
  · rcases List.mem_append.mp hy with hy | hy
    · exact hP y hy
    · exact hP' y hy
  · rcases h'.current with hc | hc
    · rw [hc]
      exact h.current
    · exact .inr hc

/-- Nothing is said. -/
theorem Speaks.quiet (hlog : v'.log = v.log) (hjobs : v'.jobs = v.jobs) (howns : v'.owns = v.owns)
    (hstarts : v'.starts = v.starts) (hrelayed : v'.relayed = v.relayed)
    (hcurrent : v'.current = v.current ∨ v'.current = none)
    (hpc : ∀ k servers, v'.pc = .opening k servers → v.pc = .opening k servers) :
    Speaks P v v' :=
  ⟨⟨[], hlog.trans (List.append_nil _).symm, nofun⟩, hjobs, howns, hstarts, hrelayed, hcurrent,
    hpc⟩

theorem send_speaks (hx : P x) : Speaks P v (v.send x) := by
  unfold send
  split
  · refine ⟨⟨[x], rfl, fun y hy => ?_⟩, rfl, rfl, rfl, rfl, .inl rfl, fun _ _ h => h⟩
    rw [List.mem_singleton.mp hy]
    exact hx
  · exact .quiet rfl rfl rfl rfl rfl (.inl rfl) fun _ _ h => h

theorem error_speaks {tell : Bool} {start : Option Nat} {code message : String}
    (hx : P (.error start code message)) : Speaks P v (v.error tell start code message) := by
  unfold error
  split
  · exact send_speaks hx
  · exact .quiet rfl rfl rfl rfl rfl (.inl rfl) fun _ _ h => h

theorem dropStream_speaks : Speaks P v v.dropStream := by
  unfold dropStream
  split
  · exact .quiet rfl rfl rfl rfl rfl (.inr rfl) fun _ _ h => h
  · exact .quiet rfl rfl rfl rfl rfl (.inl rfl) fun _ _ h => h

theorem leaveStream_speaks (hleft : ∀ k, v.current = some k → P (.left k)) :
    Speaks P v v.leaveStream := by
  unfold leaveStream
  split
  · rename_i k hc
    have hdrop : Speaks P v v.dropStream := dropStream_speaks
    obtain ⟨ys, hys, hP⟩ := hdrop.log
    have hlog : v.dropStream.log = v.log := by
      unfold dropStream
      split <;> rfl
    refine ⟨⟨[.left k], rfl, fun y hy => ?_⟩, hdrop.jobs, hdrop.owns, hdrop.starts,
      hdrop.relayed, hdrop.current, hdrop.opening⟩
    rw [List.mem_singleton.mp hy]
    exact hleft k hc
  · exact .quiet rfl rfl rfl rfl rfl (.inl rfl) fun _ _ h => h

theorem androidStopped_speaks (hended : ∀ k, v.current = some k → ∀ reason, P (.ended k reason)) :
    Speaks P v v.androidStopped := by
  unfold androidStopped
  split
  · rename_i k hc
    exact dropStream_speaks.trans (send_speaks (hended k hc _))
  · exact .quiet rfl rfl rfl rfl rfl (.inl rfl) fun _ _ h => h

theorem stopStream_speaks (hleft : ∀ k, v.current = some k → P (.left k)) (hstopped : P .stopped) :
    Speaks P v v.stopStream :=
  (leaveStream_speaks hleft).trans (send_speaks hstopped)

theorem opened_speaks {env : Env} {servers : List Turn.IceServer}
    (hconfigured : P (.configured k servers)) (hended : ∀ reason, P (.ended k reason))
    (hv : v.opened env k servers = some v') : Speaks P v v' := by
  obtain ⟨s, hs, hv⟩ := Option.bind_eq_some_iff.mp hv
  obtain ⟨s', hs', rfl⟩ := Option.map_eq_some_iff.mp hv
  have hset : Speaks P v { v with
      bridge := { streams := v.bridge.streams.set k.stream s' }, pc := .idle } :=
    .quiet rfl rfl rfl rfl rfl (.inl rfl) nofun
  dsimp only
  split
  · exact hset.trans (send_speaks hconfigured)
  · exact hset.trans (dropStream_speaks.trans (send_speaks (hended _)))
  all_goals exact .quiet rfl rfl rfl rfl rfl (.inl rfl) nofun

theorem hear_speaks {told : List Told} (hjsep : ∀ data, P (.jsep k data))
    (hended : ∀ reason, P (.ended k reason)) :
    Speaks P v (told.foldl (fun v x => v.hear k x) v) := by
  induction told generalizing v with
  | nil => exact .quiet rfl rfl rfl rfl rfl (.inl rfl) fun _ _ h => h
  | cons x told ih =>
    have hone : Speaks P v (v.hear k x) := by
      cases x with
      | message data => exact send_speaks (hjsep data)
      | ended reason =>
        have hnone : Speaks P v { v with current := none } :=
          .quiet rfl rfl rfl rfl rfl (.inr rfl) fun _ _ h => h
        exact hnone.trans (send_speaks (hended reason))
      | closed => exact .quiet rfl rfl rfl rfl rfl (.inl rfl) fun _ _ h => h
    exact hone.trans ih

end Viewer

/-! ### Steps of the session -/

variable {n seen : Nat} {s : StreamState} {peer : Option Own} {up : List ClientMessage}
  {m : ClientMessage} {v v' : Viewer} {k : Own} {x : Entry}

/-- The entry may be queued. -/
structure Allowed (n : Nat) (s : StreamState) (v : Viewer) (x : Entry) : Prop where
  answers : ∀ i, x.answers = some i → i + 1 = n
  fine : s.engaged = true → Made n v → x.Fine n
  begins : x.begins = true → Made n v

/-- Everything that begins a stream under way is about the stream of the last start. -/
theorem Lined.begun (h : Lined n s peer up seen v)
    (hnamed : ∀ x ∈ v.log, ∀ k ∈ x.about, k ∈ v.owns) (hx : x ∈ v.log.drop seen)
    (hbegins : x.begins = true) : Made n v := by
  have hlog := List.mem_of_mem_drop hx
  cases x with
  | starting k => exact ⟨k, hnamed _ hlog k rfl, h.answers _ hx _ rfl⟩
  | configured k servers => exact ⟨k, hnamed _ hlog k rfl, h.answers _ hx _ rfl⟩
  | ended | stopped | jsep | error | other | left => cases hbegins

theorem Lined.speaks (h : Lined n s peer up seen v)
    (hnamed : ∀ x ∈ v.log, ∀ k ∈ x.about, k ∈ v.owns)
    (hv : v.Speaks (Allowed n s v) v') : Lined n s peer up seen v' := by
  obtain ⟨ys, hlog, hys⟩ := hv.log
  have hwishes : wishes up v' = wishes up v := by
    unfold wishes
    rw [hv.jobs]
  have hmade : Made n v' ↔ Made n v := by
    unfold Made
    rw [hv.owns]
  have hdrop : v'.log.drop seen = v.log.drop seen ++ ys := by
    rw [hlog, List.drop_append_of_le_length h.short]
  have hcurrent : ∀ k, v'.current = some k → v.current = some k := by
    intro k hk
    rcases hv.current with hc | hc
    · exact hc.symm.trans hk
    · rw [hc] at hk
      cases hk
  constructor
  · rw [hv.starts]
    exact h.counted
  · rw [hv.jobs]
    exact h.jobs
  · exact fun k servers hk => h.opening k servers (hv.opening k servers hk)
  · rw [hv.owns, hv.starts]
    exact h.owns
  · rw [hv.owns]
    exact h.distinct
  · rw [hwishes]
    exact h.single
  · rw [hwishes]
    exact h.stops
  · rw [hwishes]
    exact h.signals
  · rw [hwishes, hmade]
    intro hm
    obtain ⟨hstart, hc, hstop⟩ := h.made hm
    exact ⟨hstart, fun k hk => hc k (hcurrent k hk), hstop⟩
  · rw [hwishes]
    exact fun p hp k hk => h.heeded p hp k (hcurrent k hk)
  · rw [hlog, List.length_append]
    exact Nat.le_trans h.short (Nat.le_add_right _ _)
  · rw [hdrop]
    intro x hx
    rcases List.mem_append.mp hx with hx | hx
    · exact h.answers x hx
    · exact (hys x hx).answers
  · rw [hdrop]
    intro he
    refine List.pairwise_append.mpr ⟨h.follows he, ?_, fun x hx y hy hb => ?_⟩
    · refine List.pairwise_of_forall_mem_list fun x hx y hy hb => ?_
      exact (hys y hy).fine he ((hys x hx).begins hb)
    · exact (hys y hy).fine he (h.begun hnamed hx hb)
  · rw [hdrop, hmade]
    intro ha
    obtain ⟨hm, hfine⟩ := h.active ha
    refine ⟨hm, fun x hx => ?_⟩
    rcases List.mem_append.mp hx with hx | hx
    · exact hfine x hx
    · exact (hys x hx).fine (StreamState.engaged_of_active ha) hm
  · rw [hv.relayed, hv.owns]
    exact h.relayed
  · rw [hv.owns]
    exact h.peered

/-- What is about the current stream, and does not begin it, may be queued. -/
theorem Lined.allows (h : Lined n s peer up seen v) (hc : v.current = some k)
    (hx : x.about = some k)
    (hanswers : x.answers = none) (hbegins : x.begins = false) : Allowed n s v x := by
  refine ⟨fun i hi => ?_, fun _ hm => ⟨fun heq => ?_, fun k' hk' => ?_⟩, fun hb => ?_⟩
  · rw [hanswers] at hi
    cases hi
  · rw [heq] at hx
    cases hx
  · cases hx.symm.trans hk'
    exact (h.made hm).2.1 k hc
  · rw [hbegins] at hb
    cases hb

/-- What is about no stream, and no answer to a stop, may be queued. -/
theorem Allowed.of_aside (hx : x.aside = true) (hanswers : ∀ i, x.answers = some i → i + 1 = n) :
    Allowed n s v x := by
  refine ⟨hanswers, fun _ _ => ⟨fun heq => ?_, fun k hk => ?_⟩, fun hb => ?_⟩
  · rw [heq] at hx
    cases hx
  · rw [about_of_aside hx] at hk
    cases hk
  · cases x with
    | error | other => cases hb
    | starting | configured | ended | stopped | jsep | left => cases hx

theorem Lined.error (h : Lined n s peer up seen v) (hfits : v.Fits) (tell : Bool)
    (code message : String) : Lined n s peer up seen (v.error tell none code message) :=
  h.speaks hfits.named (Viewer.error_speaks (.of_aside rfl nofun))

/-- Fewer wishes are in the lane and under way. -/
theorem Lined.fewer (h : Lined n s peer up seen v) {up' : List ClientMessage}
    {jobs : List StreamJob}
    {starts : Nat} (hstarts : v.starts ≤ starts) (hcounted : starts + up'.count .start = n)
    (hjobs : ∀ i, .start i ∈ jobs → i + 1 = n)
    (hsub : (jobs.filterMap StreamJob.wish ++ up'.filterMap ClientMessage.wish).Sublist
      (wishes up v)) : Lined n s peer up' seen { v with jobs, starts } := by
  constructor
  · exact hcounted
  · exact hjobs
  · exact h.opening
  · exact fun k hk => Nat.lt_of_lt_of_le (h.owns k hk) hstarts
  · exact h.distinct
  · exact fun hs => h.single (hs.trans hsub)
  · exact fun he hs => h.stops he (hs.trans hsub)
  · exact fun p hs => h.signals p (hs.trans hsub)
  · intro hm
    obtain ⟨hstart, hc, hstop⟩ := h.made hm
    exact ⟨fun hmem => hstart (hsub.subset hmem), hc,
      fun he hmem => hstop he (hsub.subset hmem)⟩
  · exact fun p hp => h.heeded p (hsub.subset hp)
  · exact h.short
  · exact h.answers
  · exact h.follows
  · exact h.active
  · exact h.relayed
  · exact h.peered

/-! ### The control lane -/

/-- The session has made a stream for the last start, and the lane waits for it. -/
theorem Lined.create (h : Lined n s peer up seen v)
    (hfresh : ¬ Made n v) (hstart : .start ∉ wishes up v) (hsignal : ∀ p, .signal p ∉ wishes up v)
    (hstop : s.engaged = true → .stop ∉ wishes up v) (b : Bridge)
    (servers : List Turn.IceServer) (hk : k.start + 1 = n) :
    Lined n s peer up seen { v with
      bridge := b, current := some k, owns := v.owns ++ [k], pc := .opening k servers } := by
  have hcount : up.count .start = 0 := by
    rw [List.count_eq_zero]
    intro hmem
    exact hstart (List.mem_append_right _ (List.mem_filterMap.mpr ⟨_, hmem, rfl⟩))
  have hlt : k.start < v.starts := by
    have hc := h.counted
    omega
  constructor
  · exact h.counted
  · exact h.jobs
  · intro k' servers' hpc
    cases hpc
    exact hk
  · intro k' hk'
    rcases List.mem_append.mp hk' with hk' | hk'
    · exact h.owns k' hk'
    · rw [List.mem_singleton.mp hk']
      exact hlt
  · -- no other stream was made for this start
    have hother : ∀ k' ∈ v.owns, k'.start ≠ k.start := fun k' hk' heq =>
      hfresh ⟨k', hk', heq ▸ hk⟩
    intro a ha a' ha' heq
    rcases List.mem_append.mp ha with ha | ha
    · rcases List.mem_append.mp ha' with ha' | ha'
      · exact h.distinct a ha a' ha' heq
      · rw [List.mem_singleton.mp ha'] at heq
        exact absurd heq (hother a ha)
    · rcases List.mem_append.mp ha' with ha' | ha'
      · rw [List.mem_singleton.mp ha] at heq
        exact absurd heq.symm (hother a' ha')
      · rw [List.mem_singleton.mp ha, List.mem_singleton.mp ha']
  · exact h.single
  · exact h.stops
  · exact h.signals
  · intro _
    refine ⟨hstart, fun k' hk' => ?_, hstop⟩
    cases hk'
    exact hk
  · exact fun p hp => absurd hp (hsignal p)
  · exact h.short
  · exact h.answers
  · exact h.follows
  · exact fun ha => absurd (h.active ha).1 hfresh
  · intro p k' hp
    obtain ⟨hstarts, hmem⟩ := h.relayed p k' hp
    exact ⟨hstarts, List.mem_append_left _ hmem⟩
  · intro k' hk'
    obtain ⟨hmem, hlast⟩ := h.peered k' hk'
    exact ⟨List.mem_append_left _ hmem, hlast⟩

theorem Lined.begin (h : Lined n s peer up seen v)
    (hnamed : ∀ x ∈ v.log, ∀ k ∈ x.about, k ∈ v.owns)
    (hfresh : ¬ Made n v) (hstart : .start ∉ wishes up v) (hsignal : ∀ p, .signal p ∉ wishes up v)
    (hstop : s.engaged = true → .stop ∉ wishes up v) (b : Bridge)
    (servers : List Turn.IceServer) {i : Nat} (hi : i + 1 = n) :
    Lined n s peer up seen (v.beginStream b servers i) := by
  obtain ⟨k, hk⟩ : ∃ k : Own, k = { stream := v.bridge.streams.length, start := i } := ⟨_, rfl⟩
  have hki : k.start + 1 = n := by
    rw [hk]
    exact hi
  obtain ⟨v₁, hv₁⟩ : ∃ v₁, v₁ = ({ v with
      bridge := b, current := some k, owns := v.owns ++ [k],
      pc := .opening k servers } : Viewer) := ⟨_, rfl⟩
  have hlined : Lined n s peer up seen v₁ := by
    rw [hv₁]
    exact h.create hfresh hstart hsignal hstop b servers hki
  have hmem : k ∈ v₁.owns := by
    rw [hv₁]
    exact List.mem_append_right _ (List.mem_singleton_self _)
  have hnamed₁ : ∀ x ∈ v₁.log, ∀ k ∈ x.about, k ∈ v₁.owns := by
    rw [hv₁]
    exact fun x hx k hk => List.mem_append_left _ (hnamed x hx k hk)
  have hallowed : Allowed n s v₁ (.starting k) := by
    refine ⟨fun i hi => ?_, fun _ _ => ⟨nofun, fun k' hk' => ?_⟩, fun _ => ⟨k, hmem, hki⟩⟩
    · cases hi
      exact hki
    · cases hk'
      exact hki
  have hbegin : v.beginStream b servers i = { v₁.send (.starting k) with
      bridge := { streams := b.streams.modify k.stream Stream.beginOpen } } := by
    rw [hv₁, hk]
    unfold Viewer.beginStream Viewer.send
    dsimp only
    split <;> rfl
  rw [hbegin]
  refine hlined.speaks hnamed₁ ((Viewer.send_speaks hallowed).trans ?_)
  exact .quiet rfl rfl rfl rfl rfl (.inl rfl) fun _ _ hpc => hpc

/-- The lane takes the last start. -/
theorem Lined.start (h : Lined n s peer up seen v) (hfits : v.Fits)
    (hpc : ∀ k servers, v.pc ≠ .opening k servers) {i : Nat} {jobs : List StreamJob}
    (hjobs : v.jobs = .start i :: jobs) (env : Env) :
    Lined n s peer up seen (({ v with jobs } : Viewer).startStream env i) := by
  have hi : i + 1 = n := h.jobs i (by rw [hjobs]; exact List.mem_cons_self)
  have hwishes : wishes up v = .start :: wishes up { v with jobs } := by
    unfold wishes
    rw [hjobs]
    rfl
  have hahead : ∀ x, ¬ [.start, x].Sublist (wishes up v) → x ∉ wishes up { v with jobs } := by
    intro x hx hmem
    rw [hwishes] at hx
    exact hx (List.Sublist.cons_cons _ (List.singleton_sublist.mpr hmem))
  have hstart := hahead .start h.single
  have hsignal : ∀ p, .signal p ∉ wishes up { v with jobs } := fun p => hahead _ (h.signals p)
  have hstop : s.engaged = true → .stop ∉ wishes up { v with jobs } := fun he =>
    hahead _ (h.stops he)
  have hfresh : ¬ Made n v := fun hm =>
    (h.made hm).1 (by rw [hwishes]; exact List.mem_cons_self)
  obtain ⟨v₁, hv₁⟩ : ∃ v₁, v₁ = ({ v with jobs } : Viewer) := ⟨_, rfl⟩
  have hlined : Lined n s peer up seen v₁ := by
    rw [hv₁]
    refine h.fewer (Nat.le_refl _) h.counted (fun j hj => ?_) ?_
    · exact h.jobs j (by rw [hjobs]; exact List.mem_cons_of_mem _ hj)
    · rw [hwishes]
      exact List.sublist_cons_self _ _
  have hfits₁ : v₁.Fits := by
    rw [hv₁]
    exact hfits.congr rfl rfl rfl id rfl rfl id
  have hnamed := hfits₁.named
  have hleftFits : v₁.leaveStream.Fits := hfits₁.leaveStream (by rw [hv₁]; exact hpc)
  rw [← hv₁] at hstart hsignal hstop ⊢
  have hfresh₁ : ¬ Made n v₁ := by
    rw [hv₁]
    exact hfresh
  -- the stream before is left first
  have hleave : v₁.Speaks (Allowed n s v₁) v₁.leaveStream :=
    Viewer.leaveStream_speaks fun k hk => hlined.allows hk rfl rfl rfl
  have hleft := hlined.speaks hnamed hleave
  have herror : ∀ code message, Lined n s peer up seen
      (v₁.leaveStream.error env.tell (some i) code message) := by
    intro code message
    refine hlined.speaks hnamed (hleave.trans (Viewer.error_speaks (.of_aside rfl ?_)))
    intro j hj
    cases hj
    exact hi
  unfold Viewer.startStream
  dsimp only
  split
  · exact herror _ _
  · split
    · exact herror _ _
    · split
      · exact herror _ _
      · split
        · exact herror _ _
        · rename_i b hb
          have hsame : wishes up v₁.leaveStream = wishes up v₁ := by
            unfold wishes
            rw [hleave.jobs]
          refine hleft.begin hleftFits.named ?_ ?_ ?_ ?_ b _ hi
          · unfold Made
            rw [hleave.owns]
            exact hfresh₁
          · rw [hsame]
            exact hstart
          · rw [hsame]
            exact hsignal
          · rw [hsame]
            exact hstop

/-- The lane takes another job: one wish less waits, or none. -/
theorem Lined.taken (h : Lined n s peer up seen v) {job : StreamJob} {jobs : List StreamJob}
    (hjobs : v.jobs = job :: jobs) : Lined n s peer up seen { v with jobs } := by
  refine h.fewer (Nat.le_refl _) h.counted (fun i hi => ?_) ?_
  · exact h.jobs i (by rw [hjobs]; exact List.mem_cons_of_mem _ hi)
  · unfold wishes
    rw [hjobs]
    exact ((List.sublist_cons_self job jobs).filterMap _).append (.refl _)

/-- A stop finds a page that has given its stream up. -/
theorem Lined.stop (h : Lined n s peer up seen v) (hfits : v.Fits) {jobs : List StreamJob}
    (hjobs : v.jobs = .stop :: jobs) :
    Lined n s peer up seen (({ v with jobs } : Viewer).stopStream) := by
  have hstop : .stop ∈ wishes up v := by
    unfold wishes
    rw [hjobs]
    exact List.mem_append_left _ (List.mem_filterMap.mpr ⟨.stop, List.mem_cons_self, rfl⟩)
  have htaken := h.taken hjobs
  have hstopped : Allowed n s { v with jobs } .stopped := by
    refine ⟨nofun, fun he hm => ?_, nofun⟩
    exact absurd hstop ((h.made hm).2.2 he)
  exact htaken.speaks hfits.named
    (Viewer.stopStream_speaks (fun k hk => htaken.allows hk rfl rfl rfl) hstopped)

/-- A signal is relayed to the stream that it was made for. -/
theorem Lined.relay (h : Lined n s peer up seen v) (hfits : v.Fits) {jobs : List StreamJob}
    {data : Signal} {made : Nat} (hjobs : v.jobs = .relay data made :: jobs) :
    Lined n s peer up seen (({ v with jobs } : Viewer).relay data made) := by
  have hsignal : .signal made ∈ wishes up v := by
    unfold wishes
    rw [hjobs]
    exact List.mem_append_left _
      (List.mem_filterMap.mpr ⟨.relay data made, List.mem_cons_self, rfl⟩)
  have htaken := h.taken hjobs
  have hrelay : ∀ k, v.current = some k → ∀ pc : StreamPc,
      (∀ k' servers, pc = .opening k' servers → v.pc = .opening k' servers) →
      Lined n s peer up seen { v with jobs, relayed := v.relayed ++ [(made, k)], pc } := by
    intro k hk pc hpc
    refine { htaken with opening := fun k' servers hk' => ?_, relayed := fun p k' hp => ?_ }
    · exact h.opening k' servers (hpc k' servers hk')
    · rcases List.mem_append.mp hp with hp | hp
      · exact h.relayed p k' hp
      · cases List.mem_singleton.mp hp
        exact ⟨h.heeded made hsignal k hk, hfits.current k hk⟩
  unfold Viewer.relay
  split
  · exact htaken
  · exact htaken
  · rename_i k hk hdata
    dsimp only
    split
    · exact hrelay k hk _ nofun
    · exact hrelay k hk v.pc fun _ _ hpc => hpc

theorem Lined.lane (h : Lined n s peer up seen v) (hfits : v.Fits) {env : Env} {sent : Bool}
    (hv : v.lane env sent = some v') : Lined n s peer up seen v' := by
  unfold Viewer.lane at hv
  split at hv
  · rename_i hpc
    have hidle : ∀ k servers, v.pc ≠ .opening k servers := fun k servers hk => by
      rw [hpc] at hk
      cases hk
    split at hv
    · cases hv
    · rename_i job jobs hjobs
      cases hv
      cases job with
      | start i => exact h.start hfits hidle hjobs env
      | stop => exact h.stop hfits hjobs
      | relay data peer => exact h.relay hfits hjobs
      | androidStopped =>
        have htaken := h.taken hjobs
        exact htaken.speaks hfits.named
          (Viewer.androidStopped_speaks fun k hk _ => htaken.allows hk rfl rfl rfl)
  · rename_i k servers hpc
    have hc := (hfits.opening k servers hpc).1
    have hk := h.opening k servers hpc
    refine h.speaks hfits.named (Viewer.opened_speaks ⟨fun i hi => ?_, fun _ _ => ⟨nofun, ?_⟩,
      fun _ => ⟨k, hfits.current k hc, hk⟩⟩ (fun _ => h.allows hc rfl rfl rfl) hv)
    · cases hi
      exact hk
    · intro k' hk'
      cases hk'
      exact hk
  · cases hv
    exact h.speaks hfits.named (.quiet rfl rfl rfl rfl rfl (.inl rfl) nofun)
  · cases hv

/-! ### The other steps -/

theorem Lined.bridgeStep (h : Lined n s peer up seen v) (hfits : v.Fits) {e : Bridge.Event}
    (hv : v.bridgeStep e = some v') : Lined n s peer up seen v' := by
  unfold Viewer.bridgeStep at hv
  obtain ⟨b, hb, hv⟩ := Option.bind_eq_some_iff.mp hv
  have hset : Lined n s peer up seen { v with bridge := b } :=
    h.speaks hfits.named (.quiet rfl rfl rfl rfl rfl (.inl rfl) fun _ _ hpc => hpc)
  cases e with
  | create =>
    cases hv
    exact hset
  | stream i e =>
    obtain ⟨u, hi, hb⟩ := Option.bind_eq_some_iff.mp hb
    obtain ⟨u', hu, rfl⟩ := Option.map_eq_some_iff.mp hb
    dsimp only at hv
    split at hv
    · cases hv
      exact hset
    · rename_i k hk
      have hmem := List.mem_of_find?_eq_some hk
      have heq : k.stream = i := by simpa using List.find?_some hk
      subst heq
      split at hv
      · cases hv
        rw [hi, Table.set_self hi]
        dsimp only [Option.map_some, Option.getD_some]
        -- a stream that tells its session something is live, so it is the current one
        have hfollows := Stream.step_follows hu
        cases hfollows.told with
        | nothing htold =>
          rw [htold, List.drop_length]
          exact hset
        | closed hdead htold =>
          rw [htold, List.drop_left]
          exact hset
        | message data hl htold =>
          have hc := hfits.live k hmem u hi hl
          exact hset.speaks hfits.named (Viewer.hear_speaks (fun _ => hset.allows hc rfl rfl rfl)
            fun _ => hset.allows hc rfl rfl rfl)
        | ended reason hl hdead htold =>
          have hc := hfits.live k hmem u hi hl
          exact hset.speaks hfits.named (Viewer.hear_speaks (fun _ => hset.allows hc rfl rfl rfl)
            fun _ => hset.allows hc rfl rfl rfl)
      · cases hv

theorem Lined.statusChanged (h : Lined n s peer up seen v) (hfits : v.Fits) (running : Bool) :
    Lined n s peer up seen (v.statusChanged running) := by
  have hsent : Lined n s peer up seen (v.send .other) :=
    h.speaks hfits.named (Viewer.send_speaks (.of_aside rfl nofun))
  unfold Viewer.statusChanged
  dsimp only
  split
  · refine hsent.fewer (Nat.le_refl _) hsent.counted (fun i hi => ?_) ?_
    · rcases List.mem_append.mp hi with hi | hi
      · exact hsent.jobs i hi
      · cases List.mem_singleton.mp hi
    · unfold wishes
      rw [List.filterMap_append]
      simp [StreamJob.wish]
  · exact hsent

theorem Lined.closeLane (h : Lined n s peer up seen v) (hfits : v.Fits) :
    Lined n s peer up seen v.closeLane := by
  have hempty : Lined n s peer up seen { v with jobs := [] } := by
    refine h.fewer (Nat.le_refl _) h.counted nofun ?_
    exact List.sublist_append_right _ _
  have hclosed : ∀ b, Lined n s peer up seen
      { v with jobs := [], bridge := b, pc := .finished, stage := .laneClosed } := fun b =>
    hempty.speaks hfits.named (.quiet rfl rfl rfl rfl rfl (.inl rfl) nofun)
  unfold Viewer.closeLane
  dsimp only
  split
  · exact hclosed _
  · exact hclosed _
  · exact hclosed _
  · exact hclosed _

/-- A step in which the session reads nothing. -/
theorem Lined.step (h : Lined n s peer up seen v) (hfits : v.Fits) {e : Viewer.Event}
    (hreceive : ∀ m tell, e ≠ .receive m tell) (hv : v.step e = some v') :
    Lined n s peer up seen v' := by
  cases Viewer.step_moves hv with
  | receive => exact absurd rfl (hreceive _ _)
  | flood =>
    exact (h.error hfits _ _ _).speaks (hfits.error _ none _ _).named
      (.quiet rfl rfl rfl rfl rfl (.inl rfl) fun _ _ hpc => hpc)
  | lane hlane => exact h.lane hfits hlane
  | error | other =>
    exact h.speaks hfits.named (Viewer.send_speaks (.of_aside rfl (by simp [Entry.answers])))
  | statusChanged => exact h.statusChanged hfits _
  | write | close =>
    exact h.speaks hfits.named (.quiet rfl rfl rfl rfl rfl (.inl rfl) fun _ _ hpc => hpc)
  | bridge hbridge => exact h.bridgeStep hfits hbridge
  | closeLane => exact h.closeLane hfits
  | drop =>
    have hleave := Viewer.leaveStream_speaks (P := Allowed n s v) fun k hk =>
      h.allows hk rfl rfl rfl
    exact h.speaks hfits.named
      (hleave.trans (.quiet rfl rfl rfl rfl rfl (.inl rfl) fun _ _ hpc => hpc))

end AndroidAppliance
