import AndroidAppliance.Session.Messages

/-!
# The log and the streams of a session

`Viewer.Fits` relates the log to the current stream, to the place where the control lane
waits, and to the streams of the bridge. Starting a stream and leaving one keep it, and so does
`open` when it returns.
-/

namespace AndroidAppliance

open Webrtc

open Session

/-! ### The invariant -/

/-- The request of the stream is in flight, and `open` waits for it. -/
structure Stream.Asking (s : Stream) : Prop where
  opening : s.opening = .waiting
  pump : s.pump = .absent
  release : s.release = .absent

namespace Viewer

/-- The log, the current stream and the streams of the bridge agree. -/
structure Fits (v : Viewer) : Prop where
  bound : ∀ k ∈ v.owns, k.stream < v.bridge.streams.length
  distinct : v.owns.Pairwise fun a b => a.stream ≠ b.stream
  current : ∀ k, v.current = some k → k ∈ v.owns
  /-- The one live stream is the current one. -/
  live : ∀ k ∈ v.owns, ∀ s, v.bridge.streams[k.stream]? = some s → s.live = true →
    v.current = some k
  opening : ∀ k servers, v.pc = .opening k servers → v.current = some k ∧
    ∀ s, v.bridge.streams[k.stream]? = some s → s.Asking
  closed : v.stage = .laneClosed → v.pc = .finished
  named : ∀ x ∈ v.log, ∀ k ∈ x.about, k ∈ v.owns
  gone : ∀ x ∈ v.log, ∀ k, x.finished k = true → v.current ≠ some k
  /-- What was relayed came from the pump of its stream. -/
  source : ∀ k data, Entry.jsep k data ∈ v.log → ∃ s,
    v.bridge.streams[k.stream]? = some s ∧ .message data ∈ s.told
  announced : v.whole = true → ∀ k servers, v.pc = .opening k servers → Announced v.log k
  streams : v.whole = true → ∀ k, v.current = some k →
    (∀ servers, v.pc ≠ .opening k servers) → ∀ s, v.bridge.streams[k.stream]? = some s →
      s.live = true → Streams v.log k
  ordered : v.whole = true → Ordered v.log
  reported : Reported v.log

variable {v v' : Viewer} {k : Own} {s s' : Stream}

/-- A session without streams. -/
theorem Fits.initial (h : v.Initial) : v.Fits := by
  have hasides : ∀ x ∈ [Entry.other, Entry.other], x.aside = true := by simp [Entry.aside]
  have hv := h.2
  rw [hv]
  constructor
  case ordered => exact fun _ => .of_asides hasides
  case reported => exact .of_abouts fun x hx => about_of_aside (hasides x hx)
  all_goals simp [Entry.about, Entry.finished]

/-- Other fields have changed. -/
theorem Fits.congr (h : v.Fits) (hbridge : v'.bridge = v.bridge) (hcurrent : v'.current = v.current)
    (hpc : v'.pc = v.pc) (hstage : v'.stage = .laneClosed → v.stage = .laneClosed)
    (howns : v'.owns = v.owns) (hlog : v'.log = v.log)
    (hwhole : v'.whole = true → v.whole = true) : v'.Fits := by
  constructor
  · rw [howns, hbridge]
    exact h.bound
  · rw [howns]
    exact h.distinct
  · rw [howns, hcurrent]
    exact h.current
  · rw [howns, hcurrent, hbridge]
    exact h.live
  · rw [hpc, hcurrent, hbridge]
    exact h.opening
  · intro hs
    rw [hpc]
    exact h.closed (hstage hs)
  · rw [howns, hlog]
    exact h.named
  · rw [hlog, hcurrent]
    exact h.gone
  · rw [hlog, hbridge]
    exact h.source
  · intro hw
    rw [hpc, hlog]
    exact h.announced (hwhole hw)
  · intro hw
    rw [hcurrent, hpc, hbridge, hlog]
    exact h.streams (hwhole hw)
  · intro hw
    rw [hlog]
    exact h.ordered (hwhole hw)
  · rw [hlog]
    exact h.reported

/-- A message is queued, or refused. -/
theorem Fits.queue (h : v.Fits) {x : Entry} (hnamed : ∀ k ∈ x.about, k ∈ v.owns)
    (hover : ∀ k, x.finished k = true → v.current ≠ some k)
    (hsource : ∀ k data, x = .jsep k data → ∃ s, v.bridge.streams[k.stream]? = some s ∧
      .message data ∈ s.told)
    (hannounced : v.whole = true → ∀ k servers, v.pc = .opening k servers →
      Announced (v.log ++ [x]) k)
    (hstreams : v.whole = true → ∀ k, v.current = some k →
      (∀ servers, v.pc ≠ .opening k servers) → ∀ s, v.bridge.streams[k.stream]? = some s →
        s.live = true → Streams (v.log ++ [x]) k)
    (hordered : v.whole = true → Ordered (v.log ++ [x])) (hreported : Reported (v.log ++ [x])) :
    (v.send x).Fits := by
  unfold send
  split
  · refine { h with
      named := fun y hy k hk => ?_, gone := fun y hy k hk => ?_, source := fun k data hy => ?_,
      announced := hannounced, streams := hstreams, ordered := hordered,
      reported := hreported }
    · rcases List.mem_append.mp hy with hy | hy
      · exact h.named y hy k hk
      · rw [List.mem_singleton.mp hy] at hk
        exact hnamed k hk
    · rcases List.mem_append.mp hy with hy | hy
      · exact h.gone y hy k hk
      · rw [List.mem_singleton.mp hy] at hk
        exact hover k hk
    · rcases List.mem_append.mp hy with hy | hy
      · exact h.source k data hy
      · exact hsource k data (List.mem_singleton.mp hy).symm
  · exact h.congr rfl rfl rfl id rfl rfl nofun

/-- A message that is not about streams is queued, or refused. -/
theorem Fits.aside (h : v.Fits) {x : Entry} (hx : x.aside = true) : (v.send x).Fits := by
  have habout := about_of_aside hx
  refine h.queue (fun k hk => ?_) (fun k hk => ?_) (fun k data heq => ?_)
    (fun hw k servers hpc => (h.announced hw k servers hpc).append hx)
    (fun hw k hc hpc s hs hl => (h.streams hw k hc hpc s hs hl).append (.inl hx))
    (fun hw => (h.ordered hw).append (fun k servers heq => ?_) (fun k data heq => ?_))
    (h.reported.append fun k hk => ?_)
  · rw [habout] at hk
    cases hk
  · rw [about_of_finished hk] at habout
    cases habout
  · rw [heq] at hx
    cases hx
  · rw [heq] at hx
    cases hx
  · rw [heq] at hx
    cases hx
  · rw [habout] at hk
    cases hk

/-- A message is queued while there is no current stream. -/
theorem Fits.unstreamed (h : v.Fits) {x : Entry} (hc : v.current = none)
    (hpc : ∀ k servers, v.pc ≠ .opening k servers) (hnamed : ∀ k ∈ x.about, k ∈ v.owns)
    (hconfigured : ∀ k servers, x ≠ .configured k servers) (hjsep : ∀ k data, x ≠ .jsep k data)
    (hreported : Reported (v.log ++ [x])) : (v.send x).Fits := by
  refine h.queue hnamed (fun _ _ => ?_) (fun k data heq => absurd heq (hjsep k data))
    (fun _ k servers hk => absurd hk (hpc k servers)) (fun _ k hk => ?_)
    (fun hw => (h.ordered hw).append (fun k servers heq => absurd heq (hconfigured k servers))
      (fun k data heq => absurd heq (hjsep k data))) hreported
  · rw [hc]
    exact nofun
  · rw [hc] at hk
    cases hk

/-- The log goes on with a message about the current stream. -/
theorem Fits.reports (h : v.Fits) {x : Entry} (hc : v.current = some k) (hx : x.about = some k) :
    Reported (v.log ++ [x]) := by
  refine h.reported.append fun k' hk' y hy => ?_
  cases hx.symm.trans hk'
  by_contra hover
  exact h.gone y hy k (Bool.not_eq_false _ |>.mp hover) hc

/-- An error is said. -/
theorem Fits.error (h : v.Fits) (tell : Bool) (start : Option Nat) (code message : String) :
    (v.error tell start code message).Fits := by
  unfold Viewer.error
  split
  · exact h.aside rfl
  · exact h

/-! ### The streams of the bridge -/

/-- A step of a stream says more, never less. -/
theorem told_subset (h : s.Follows s') {x : Told} (hx : x ∈ s.told) : x ∈ s'.told := by
  cases h.told with
  | nothing ht => rw [ht]; exact hx
  | message data hl ht => rw [ht]; exact List.mem_append_left _ hx
  | ended reason hl hd ht => rw [ht]; exact List.mem_append_left _ hx
  | closed hd ht => rw [ht]; exact List.mem_append_left _ hx

/-- A stream of the bridge takes a step. -/
theorem Fits.update (h : v.Fits) {i : Nat} (hi : v.bridge.streams[i]? = some s)
    (hs : s.Follows s')
    (hasking : ∀ k servers, v.pc = .opening k servers → k.stream = i → s.Asking → s'.Asking) :
    ({ v with bridge := { streams := v.bridge.streams.set i s' } } : Viewer).Fits := by
  have hcase : ∀ {j : Nat} {u : Stream}, (v.bridge.streams.set i s')[j]? = some u →
      i = j ∧ u = s' ∨ v.bridge.streams[j]? = some u := by
    intro j u hj
    rcases Table.cases_set hj with hself | ⟨-, hold⟩
    · exact .inl hself
    · exact .inr hold
  refine { h with
    bound := fun k hk => ?_, live := fun k hk u hu hl => ?_,
    opening := fun k servers hpc => ?_, source := fun k data hmem => ?_,
    streams := fun hw k hc hpc u hu hl => ?_ }
  · have hlen : (v.bridge.streams.set i s').length = v.bridge.streams.length :=
      List.length_set
    exact hlen ▸ h.bound k hk
  · rcases hcase hu with ⟨rfl, rfl⟩ | hold
    · exact h.live k hk s hi (hs.live hl)
    · exact h.live k hk u hold hl
  · obtain ⟨hc, hask⟩ := h.opening k servers hpc
    refine ⟨hc, fun u hu => ?_⟩
    rcases hcase hu with ⟨heq, rfl⟩ | hold
    · exact hasking k servers hpc heq.symm (hask s (heq ▸ hi))
    · exact hask u hold
  · obtain ⟨u, hu, htold⟩ := h.source k data hmem
    by_cases heq : i = k.stream
    · subst heq
      cases hi.symm.trans hu
      exact ⟨s', Table.set_self hi, told_subset hs htold⟩
    · exact ⟨u, Table.set_ne heq hu, htold⟩
  · rcases hcase hu with ⟨rfl, rfl⟩ | hold
    · exact h.streams hw k hc hpc s hi (hs.live hl)
    · exact h.streams hw k hc hpc u hold hl

/-- A new stream, of another session. -/
theorem Fits.created (h : v.Fits) :
    ({ v with bridge := { streams := v.bridge.streams ++ [.new] } } : Viewer).Fits := by
  have hold : ∀ k ∈ v.owns, ∀ {u : Stream},
      (v.bridge.streams ++ [.new])[k.stream]? = some u → v.bridge.streams[k.stream]? = some u := by
    intro k hk u hu
    rcases Table.cases_append hu with hu | ⟨hlen, -⟩
    · exact hu
    · have hbound := h.bound k hk
      omega
  refine { h with
    bound := fun k hk => ?_, live := fun k hk u hu hl => h.live k hk u (hold k hk hu) hl,
    opening := fun k servers hpc => ?_, source := fun k data hmem => ?_,
    streams := fun hw k hc hpc u hu hl =>
      h.streams hw k hc hpc u (hold k (h.current k hc) hu) hl }
  · have hbound := h.bound k hk
    rw [List.length_append]
    omega
  · obtain ⟨hc, hask⟩ := h.opening k servers hpc
    exact ⟨hc, fun u hu => hask u (hold k (h.current k hc) hu)⟩
  · obtain ⟨u, hu, htold⟩ := h.source k data hmem
    exact ⟨u, Table.append_old hu, htold⟩

/-! ### The current stream -/

/-- There is no current stream any more, and the last one is not live. -/
theorem Fits.uncurrent (h : v.Fits) (hc : v.current = some k)
    (hpc : ∀ k servers, v.pc ≠ .opening k servers)
    (hdead : ∀ s, v.bridge.streams[k.stream]? = some s → s.live = false) :
    ({ v with current := none } : Viewer).Fits := by
  refine { h with
    current := nofun, live := fun k' hk' s hs hl => ?_,
    opening := fun k' servers hk' => absurd hk' (hpc k' servers), gone := fun _ _ _ _ => nofun,
    streams := fun _ k' hk' => (nomatch hk') }
  obtain rfl : k' = k := by
    have hcur := h.live k' hk' s hs hl
    rw [hc] at hcur
    cases hcur
    rfl
  rw [hdead s hs] at hl
  cases hl

/-- A list in which one member is changed. -/
theorem modify_eq_set {α : Type} {l : List α} {i : Nat} {f : α → α} {x : α}
    (h : l[i]? = some x) : l.modify i f = l.set i (f x) := by
  rw [List.modify_eq_set_getElem?, h]
  rfl

/-- The stream is dropped. -/
theorem Fits.dropStream (h : v.Fits) (hpc : ∀ k servers, v.pc ≠ .opening k servers) :
    v.dropStream.Fits := by
  unfold Viewer.dropStream
  split
  · rename_i k hc
    have hlt := h.bound k (h.current k hc)
    obtain ⟨s, hs⟩ : ∃ s, v.bridge.streams[k.stream]? = some s :=
      ⟨_, List.getElem?_eq_getElem hlt⟩
    have hclosed := h.update hs s.close_follows
      fun k' servers hk' => absurd hk' (hpc k' servers)
    have hdone := hclosed.uncurrent hc hpc fun u hu => by
      have hself := Table.set_self (a := s.close) hs
      cases hself.symm.trans hu
      exact s.close_live
    have heq : ({ v with current := none } : Viewer).closeStream k.stream =
        { v with bridge := { streams := v.bridge.streams.set k.stream s.close },
                 current := none } := by
      unfold closeStream
      rw [modify_eq_set hs]
    rw [heq]
    exact hdone
  · exact h

/-- What it leaves. -/
theorem dropStream_fields (v : Viewer) : v.dropStream.current = none ∧
    v.dropStream.pc = v.pc ∧ v.dropStream.log = v.log ∧ v.dropStream.owns = v.owns ∧
      v.dropStream.whole = v.whole ∧ v.dropStream.stage = v.stage ∧
        v.dropStream.outbox = v.outbox := by
  unfold Viewer.dropStream
  split
  · exact ⟨rfl, rfl, rfl, rfl, rfl, rfl, rfl⟩
  · rename_i hc
    exact ⟨hc, rfl, rfl, rfl, rfl, rfl, rfl⟩

/-- Android stops. -/
theorem Fits.androidStopped (h : v.Fits) (hpc : ∀ k servers, v.pc ≠ .opening k servers) :
    v.androidStopped.Fits := by
  unfold Viewer.androidStopped
  split
  · rename_i k hc
    obtain ⟨hnone, hpc', hlog, howns, -⟩ := v.dropStream_fields
    refine (h.dropStream hpc).unstreamed hnone (hpc'.symm ▸ hpc) (fun k' hk' => ?_)
      (fun _ _ => Entry.noConfusion) (fun _ _ => Entry.noConfusion) ?_
    · cases hk'
      exact howns.symm ▸ h.current k hc
    · rw [hlog]
      exact h.reports hc rfl
  · exact h

/-- The stream is left. -/
theorem Fits.leaveStream (h : v.Fits) (hpc : ∀ k servers, v.pc ≠ .opening k servers) :
    v.leaveStream.Fits := by
  unfold Viewer.leaveStream
  split
  · rename_i k hc
    obtain ⟨hnone, hpc', hlog, howns, -⟩ := v.dropStream_fields
    have hd := h.dropStream hpc
    refine { hd with
      named := fun y hy k' hk' => ?_, gone := fun _ _ _ _ => ?_,
      source := fun k' data hy => ?_,
      announced := fun _ k' servers hk' => absurd (hpc' ▸ hk') (hpc k' servers),
      streams := fun _ k' hk' => ?_,
      ordered := fun hw => ?_, reported := ?_ }
    · rw [howns]
      rcases List.mem_append.mp hy with hy | hy
      · exact h.named y hy k' hk'
      · rw [List.mem_singleton.mp hy] at hk'
        cases hk'
        exact h.current k hc
    · simp only [hnone]
      exact nofun
    · rcases List.mem_append.mp hy with hy | hy
      · exact hd.source k' data (hlog.symm ▸ hy)
      · cases List.mem_singleton.mp hy
    · simp only [hnone] at hk'
      cases hk'
    · have hord := hd.ordered hw
      rw [hlog] at hord
      exact hord.append (fun _ _ heq => (nomatch heq)) (fun _ _ heq => (nomatch heq))
    · exact h.reports hc rfl
  · exact h

/-- What it leaves. -/
theorem leaveStream_fields (v : Viewer) : v.leaveStream.current = none ∧
    v.leaveStream.pc = v.pc ∧ v.leaveStream.stage = v.stage := by
  obtain ⟨hnone, hpc, -, -, -, hstage, -⟩ := v.dropStream_fields
  unfold Viewer.leaveStream
  split
  · exact ⟨hnone, hpc, hstage⟩
  · rename_i hc
    exact ⟨hc, rfl, rfl⟩

/-- A stop. -/
theorem Fits.stopStream (h : v.Fits) (hpc : ∀ k servers, v.pc ≠ .opening k servers) :
    v.stopStream.Fits := by
  obtain ⟨hnone, hpc', -⟩ := v.leaveStream_fields
  exact (h.leaveStream hpc).unstreamed hnone (hpc'.symm ▸ hpc) nofun
    (fun _ _ => Entry.noConfusion) (fun _ _ => Entry.noConfusion)
    ((h.leaveStream hpc).reported.append nofun)

/-! ### A new stream -/

/-- Nothing was sent about a stream that is only now made. -/
theorem Fits.not_about_new (h : v.Fits) {k : Own} (hstream : k.stream = v.bridge.streams.length) :
    ∀ x ∈ v.log, x.about ≠ some k := by
  intro x hx habout
  have hbound := h.bound k (h.named x hx k habout)
  omega

/-- The state in which a new stream opens, whatever became of the message. -/
theorem Fits.opens (h : v.Fits) (hc : v.current = none) (hstage : v.stage ≠ .laneClosed)
    (servers : List Turn.IceServer) {k : Own} (hstream : k.stream = v.bridge.streams.length)
    (outbox : Nat) (reading whole : Bool) (log : List Entry)
    (hwhole : whole = true → v.whole = true ∧ log = v.log ++ [.starting k])
    (hlog : ∀ x ∈ log, x ∈ v.log ∨ x = .starting k) (hreported : Reported log) :
    ({ v with bridge := { streams := v.bridge.streams ++ [Stream.new.beginOpen] },
              current := some k, owns := v.owns ++ [k], pc := .opening k servers,
              outbox, reading, whole, log } : Viewer).Fits := by
  have hask : Stream.new.beginOpen.Asking := ⟨rfl, rfl, rfl⟩
  have hold : ∀ {k u}, k ∈ v.owns →
      (v.bridge.streams ++ [Stream.new.beginOpen])[k.stream]? = some u →
        v.bridge.streams[k.stream]? = some u := by
    intro k u hk hu
    rcases Table.cases_append hu with hu | ⟨hlen, -⟩
    · exact hu
    · have hbound := h.bound k hk
      omega
  constructor
  case bound =>
    intro k' hk'
    have hlen : (v.bridge.streams ++ [Stream.new.beginOpen]).length =
        v.bridge.streams.length + 1 := by simp
    rw [hlen]
    rcases List.mem_append.mp hk' with hk' | hk'
    · have hbound := h.bound k' hk'
      omega
    · rw [List.mem_singleton.mp hk']
      omega
  case distinct =>
    rw [List.pairwise_append]
    refine ⟨h.distinct, List.pairwise_singleton _ _, fun a ha b hb => ?_⟩
    rw [List.mem_singleton.mp hb, hstream]
    exact Nat.ne_of_lt (h.bound a ha)
  case current =>
    intro k' hk'
    cases hk'
    simp
  case live =>
    intro k' hk' u hu hl
    rcases List.mem_append.mp hk' with hk' | hk'
    · have hcur := h.live k' hk' u (hold hk' hu) hl
      rw [hc] at hcur
      cases hcur
    · rw [List.mem_singleton.mp hk']
  case opening =>
    intro k' servers' hk'
    cases hk'
    refine ⟨rfl, fun u hu => ?_⟩
    have hnew : (v.bridge.streams ++ [Stream.new.beginOpen])[k.stream]? =
        some Stream.new.beginOpen := by
      rw [hstream]
      exact Table.append_new
    cases hnew.symm.trans hu
    exact hask
  case closed => exact fun hs => absurd hs hstage
  case named =>
    intro x hx k' hk'
    rcases hlog x hx with hx | rfl
    · exact List.mem_append_left _ (h.named x hx k' hk')
    · cases hk'
      simp
  case gone =>
    intro x hx k' hover heq
    cases heq
    rcases hlog x hx with hx | rfl
    · exact h.not_about_new hstream x hx (about_of_finished hover)
    · cases hover
  case source =>
    intro k' data hmem
    rcases hlog _ hmem with hmem | heq
    · obtain ⟨u, hu, htold⟩ := h.source k' data hmem
      exact ⟨u, Table.append_old hu, htold⟩
    · cases heq
  case announced =>
    intro hw k' servers' hk'
    cases hk'
    exact ⟨v.log, [], (hwhole hw).2, nofun⟩
  case streams =>
    intro _ k' hk' hne
    cases hk'
    exact absurd rfl (hne servers)
  case ordered =>
    intro hw
    show Ordered log
    rw [(hwhole hw).2]
    exact (h.ordered (hwhole hw).1).append (fun _ _ heq => (nomatch heq))
      (fun _ _ heq => (nomatch heq))
  case reported => exact hreported

/-- The new stream is the current one, and `open` waits for its request. -/
theorem Fits.beginStream (h : v.Fits) (hc : v.current = none) (hstage : v.stage ≠ .laneClosed)
    (servers : List Turn.IceServer) (n : Nat) :
    (v.beginStream { streams := v.bridge.streams ++ [.new] } servers n).Fits := by
  have hmod : (v.bridge.streams ++ [Stream.new]).modify v.bridge.streams.length
      Stream.beginOpen = v.bridge.streams ++ [Stream.new.beginOpen] := by
    rw [modify_eq_set Table.append_new]
    simp
  obtain ⟨k, hk⟩ : ∃ k : Own, k = { stream := v.bridge.streams.length, start := n } := ⟨_, rfl⟩
  have hstream : k.stream = v.bridge.streams.length := by rw [hk]
  have hreported : Reported (v.log ++ [.starting k]) := by
    refine h.reported.append fun k' hk' y hy => ?_
    cases hk'
    by_contra hover
    exact h.not_about_new hstream y hy (about_of_finished (Bool.not_eq_false _ |>.mp hover))
  unfold Viewer.beginStream
  dsimp only
  rw [← hk]
  unfold Viewer.send
  -- the message is sent, or the outbox is full and the reader stops
  split
  · have hfit := h.opens hc hstage servers hstream (v.outbox + 1) v.reading v.whole
      (v.log ++ [.starting k]) (fun hw => ⟨hw, rfl⟩) (fun x hx => by simpa using hx) hreported
    simpa only [hstream, hmod] using hfit
  · have hfit := h.opens hc hstage servers hstream v.outbox false false v.log
      (fun hw => absurd hw Bool.false_ne_true) (fun x hx => .inl hx) h.reported
    simpa only [hstream, hmod] using hfit

/-- A stream is created at the end of the list. -/
theorem create_eq {b b' : Bridge} (h : b.create = .ok b') :
    b' = { streams := b.streams ++ [.new] } := by
  unfold Bridge.create at h
  split at h
  · cases h
  · split at h
    · cases h
    · cases h
      rfl

/-- A start. -/
theorem Fits.startStream (h : v.Fits) (hpc : ∀ k servers, v.pc ≠ .opening k servers)
    (hstage : v.stage ≠ .laneClosed) (env : Env) (n : Nat) : (v.startStream env n).Fits := by
  obtain ⟨hnone, -, hstage'⟩ := v.leaveStream_fields
  have hl := h.leaveStream hpc
  unfold Viewer.startStream
  dsimp only
  split
  · exact hl.error _ _ _ _
  · split
    · exact hl.error _ _ _ _
    · split
      · exact hl.error _ _ _ _
      · split
        · exact hl.error _ _ _ _
        · rename_i b hb
          rw [create_eq hb]
          exact hl.beginStream hnone (hstage'.symm ▸ hstage) _ _

/-! ### The end of `open` -/

/-- The lane no longer waits for the request, and the stream was configured or is not live. -/
theorem Fits.leaveOpening (h : v.Fits) {servers : List Turn.IceServer}
    (hpc : v.pc = .opening k servers) (hs : v.bridge.streams[k.stream]? = some s)
    (hfollows : s.Follows s')
    (hbridge : v'.bridge = { streams := v.bridge.streams.set k.stream s' })
    (hcurrent : v'.current = v.current) (howns : v'.owns = v.owns)
    (hpc' : ∀ k servers, v'.pc ≠ .opening k servers)
    (hclosed : v'.stage = .laneClosed → v'.pc = .finished)
    (hlog : ∀ x ∈ v'.log, x ∈ v.log ∨ ∃ servers, x = .configured k servers)
    (hwhole : v'.whole = true → Ordered v'.log ∧ (s'.live = true → Streams v'.log k))
    (hreported : Reported v'.log) : v'.Fits := by
  obtain ⟨hc, hask⟩ := h.opening k servers hpc
  have hself : (v.bridge.streams.set k.stream s')[k.stream]? = some s' := Table.set_self hs
  have hcase : ∀ {j : Nat} {u : Stream}, v'.bridge.streams[j]? = some u →
      k.stream = j ∧ u = s' ∨ v.bridge.streams[j]? = some u := by
    intro j u hj
    rw [hbridge] at hj
    rcases Table.cases_set hj with heq | ⟨-, hold⟩
    · exact .inl heq
    · exact .inr hold
  constructor
  case bound =>
    intro k' hk'
    rw [hbridge]
    have hlen : (v.bridge.streams.set k.stream s').length = v.bridge.streams.length :=
      List.length_set
    exact hlen ▸ h.bound k' (howns ▸ hk')
  case distinct => exact howns.symm ▸ h.distinct
  case current => exact fun k' hk' => howns.symm ▸ h.current k' (hcurrent ▸ hk')
  case live =>
    intro k' hk' u hu hl
    rw [hcurrent]
    rcases hcase hu with ⟨heq, rfl⟩ | hold
    · exact h.live k' (howns ▸ hk') s (heq ▸ hs) (hfollows.live hl)
    · exact h.live k' (howns ▸ hk') u hold hl
  case opening => exact fun k' servers' hk' => absurd hk' (hpc' k' servers')
  case closed => exact hclosed
  case named =>
    intro x hx k' hk'
    rw [howns]
    rcases hlog x hx with hx | ⟨servers', rfl⟩
    · exact h.named x hx k' hk'
    · cases hk'
      exact h.current k hc
  case gone =>
    intro x hx k' hover
    rw [hcurrent]
    rcases hlog x hx with hx | ⟨servers', rfl⟩
    · exact h.gone x hx k' hover
    · cases hover
  case source =>
    intro k' data hmem
    rcases hlog _ hmem with hmem | ⟨servers', heq⟩
    · obtain ⟨u, hu, htold⟩ := h.source k' data hmem
      rw [hbridge]
      by_cases heq : k.stream = k'.stream
      · rw [heq] at hs hself ⊢
        cases hs.symm.trans hu
        exact ⟨s', hself, told_subset hfollows htold⟩
      · exact ⟨u, Table.set_ne heq hu, htold⟩
    · cases heq
  case announced => exact fun _ k' servers' hk' => absurd hk' (hpc' k' servers')
  case streams =>
    intro hw k' hk' _ u hu hl
    rw [hcurrent, hc] at hk'
    cases hk'
    rw [hbridge] at hu
    cases hself.symm.trans hu
    exact (hwhole hw).2 hl
  case ordered => exact fun hw => (hwhole hw).1
  case reported => exact hreported

/-- The lane waits elsewhere, and not for a request. -/
theorem Fits.move (h : v.Fits) (hpc : ∀ k servers, v.pc ≠ .opening k servers)
    (hbridge : v'.bridge = v.bridge) (hcurrent : v'.current = v.current)
    (howns : v'.owns = v.owns) (hlog : v'.log = v.log) (hwhole : v'.whole = v.whole)
    (hpc' : ∀ k servers, v'.pc ≠ .opening k servers)
    (hclosed : v'.stage = .laneClosed → v'.pc = .finished) : v'.Fits := by
  constructor
  case opening => exact fun k' servers' hk' => absurd hk' (hpc' k' servers')
  case closed => exact hclosed
  case announced => exact fun _ k' servers' hk' => absurd hk' (hpc' k' servers')
  case streams =>
    intro hw k' hk' _
    rw [hbridge, hlog]
    exact h.streams (hwhole ▸ hw) k' (hcurrent ▸ hk') fun servers => hpc k' servers
  case ordered => exact fun hw => hlog.symm ▸ h.ordered (hwhole ▸ hw)
  case bound => rw [howns, hbridge]; exact h.bound
  case distinct => rw [howns]; exact h.distinct
  case current => rw [howns, hcurrent]; exact h.current
  case live => rw [howns, hcurrent, hbridge]; exact h.live
  case named => rw [howns, hlog]; exact h.named
  case gone => rw [hlog, hcurrent]; exact h.gone
  case source => rw [hlog, hbridge]; exact h.source
  case reported => rw [hlog]; exact h.reported

/-- `_start_stream` after `open`. -/
theorem Fits.opened (h : v.Fits) {servers : List Turn.IceServer} {env : Env}
    (hpc : v.pc = .opening k servers) (hv : v.opened env k servers = some v') : v'.Fits := by
  obtain ⟨hc, hask⟩ := h.opening k servers hpc
  have hstage : v.stage ≠ .laneClosed := by
    intro hs
    have hover := h.closed hs
    rw [hpc] at hover
    cases hover
  unfold Viewer.opened at hv
  obtain ⟨s, hs, hv⟩ := Option.bind_eq_some_iff.mp hv
  obtain ⟨s', hopened, rfl⟩ := Option.map_eq_some_iff.mp hv
  have hfollows := Stream.opened_follows hopened
  dsimp only
  split
  · -- the request was answered: the configuration follows the announcement
    unfold Viewer.send
    split
    · refine h.leaveOpening hpc hs hfollows rfl rfl rfl (fun _ _ => StreamPc.noConfusion)
        (fun hcl => absurd hcl hstage) (fun x hx => ?_) (fun hw => ?_)
        (h.reports hc rfl)
      · rcases List.mem_append.mp hx with hx | hx
        · exact .inl hx
        · exact .inr ⟨servers, List.mem_singleton.mp hx⟩
      · have hann := h.announced hw k servers hpc
        refine ⟨(h.ordered hw).append (fun k' servers' heq => ?_) (fun _ _ heq => (nomatch heq)),
          fun _ => ⟨v.log, servers, [], rfl, nofun⟩⟩
        cases heq
        exact hann
    · exact h.leaveOpening hpc hs hfollows rfl rfl rfl (fun _ _ => StreamPc.noConfusion)
        (fun hcl => absurd hcl hstage) (fun x hx => .inl hx) nofun h.reported
  · -- it failed: the stream is dropped and its end is reported
    have hdead : s'.close.live = false := s'.close_live
    have htold : s'.told = s.told := by
      unfold Stream.opened at hopened
      rename_i hfailed
      rw [hfailed] at hopened
      split at hopened
      · cases hopened
      · cases hopened
        rfl
    have hclose : s.Follows s'.close := by
      refine ⟨fun hcount => hfollows.counted (s'.close_counted hcount), fun hl => ?_,
        .closed hdead (htold ▸ s'.close_told)⟩
      rw [hdead] at hl
      cases hl
    have hbase : ({ v with bridge := { streams := v.bridge.streams.set k.stream s'.close },
                           pc := .idle } : Viewer).Fits :=
      h.leaveOpening hpc hs hclose rfl rfl rfl (fun _ _ => StreamPc.noConfusion)
        (fun hcl => absurd hcl hstage) (fun x hx => .inl hx)
        (fun hw => ⟨h.ordered hw, fun hl => absurd (hdead.symm.trans hl) Bool.false_ne_true⟩)
        h.reported
    have hdone := hbase.uncurrent hc (fun _ _ => StreamPc.noConfusion) fun u hu => by
      have hself := Table.set_self (a := s'.close) hs
      cases hself.symm.trans hu
      exact hdead
    have hdrop : ({ v with bridge := { streams := v.bridge.streams.set k.stream s' },
                           pc := .idle } : Viewer).dropStream =
          ({ v with bridge := { streams := v.bridge.streams.set k.stream s'.close },
                    pc := .idle, current := none } : Viewer) := by
      unfold Viewer.dropStream closeStream
      simp only [hc]
      rw [modify_eq_set (Table.set_self hs), List.set_set]
    rw [hdrop]
    refine hdone.unstreamed rfl (fun _ _ => StreamPc.noConfusion) (fun k' hk' => ?_)
      (fun _ _ => Entry.noConfusion) (fun _ _ => Entry.noConfusion)
      (h.reports hc rfl)
    cases hk'
    exact h.current k hc
  all_goals
    -- CancelledError ends the lane, and the stream is not live
    rename_i hrequest
    have hdead : s'.live = false := by
      unfold Stream.opened at hopened
      rw [hrequest] at hopened
      split at hopened
      · cases hopened
      · cases hopened
        try rfl
    exact h.leaveOpening hpc hs hfollows rfl rfl rfl (fun _ _ => StreamPc.noConfusion)
      (fun _ => rfl) (fun x hx => .inl hx)
      (fun hw => ⟨h.ordered hw, fun hl => absurd (hdead.symm.trans hl) Bool.false_ne_true⟩)
      h.reported

end Viewer

end AndroidAppliance
