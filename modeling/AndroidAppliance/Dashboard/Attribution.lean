import AndroidAppliance.Dashboard.NoDeadEnd
import AndroidAppliance.Dashboard.Order

/-!
# Messages find their stream

Messages carry no stream number, and the link accepts by the state that it is in. While a
start waits for the answers to the starts before it, and errors of input keep away from a
stream that is being set up, this is enough (`attributed`).
-/

namespace AndroidAppliance

open Session Dashboard

/-! ### The peer connection -/

namespace Dashboard

variable {S J : Type} {k peer : Option Own} {xs : List (Effect S J)}

/-- Without a new one, the peer connection is the old one or none. -/
theorem aim_plain (hxs : ∀ x ∈ xs, x.plain = true ∨ ∃ m, x = .send m) {k' : Own}
    (h : xs.foldl (aim k) peer = some k') : peer = some k' := by
  induction xs generalizing peer with
  | nil => exact h
  | cons x xs ih =>
    have hrest := ih (fun y hy => hxs y (List.mem_cons_of_mem _ hy)) h
    cases x with
    | peerOpen servers policy =>
      rcases hxs _ List.mem_cons_self with hplain | ⟨m, hsend⟩
      · cases hplain
      · cases hsend
    | peerClose => cases hrest
    | socketOpen | socketClose | send | ping | timer | cancel | peerSignal | checkAuth =>
      exact hrest

theorem aim_isSome (hxs : ∀ servers policy, .peerOpen servers policy ∈ xs → k.isSome = true) :
    (xs.foldl (aim k) peer).isSome = xs.foldl replay peer.isSome := by
  induction xs generalizing peer with
  | nil => rfl
  | cons x xs ih =>
    have hrest : ∀ peer : Option Own,
        (xs.foldl (aim k) peer).isSome = xs.foldl replay peer.isSome := fun peer =>
      ih fun servers policy hmem => hxs servers policy (List.mem_cons_of_mem _ hmem)
    rw [List.foldl_cons, List.foldl_cons, hrest]
    refine congrArg (xs.foldl replay) ?_
    cases x with
    | peerOpen servers policy => exact hxs servers policy List.mem_cons_self
    | peerClose | socketOpen | socketClose | send | ping | timer | cancel | peerSignal
    | checkAuth => rfl

theorem aim_effects (l : Link S J) (k peer : Option Own) :
    l.effects.foldl (aim k) peer = l.acts.foldl (aim k) peer := by
  refine l.foldl_acts (fun b x hx => ?_) peer
  cases x with
  | timer | cancel => rfl
  | socketOpen | socketClose | send | ping | peerOpen | peerSignal | peerClose | checkAuth =>
    cases hx

end Dashboard

namespace Wire

variable {w w' : Wire} {random : ℚ}
  {e : Dashboard.Event (List Turn.IceServer) Webrtc.Jsep} {k : Option Own}

/-- The two ends and what is under way between them agree, and so far every message has found
its stream. -/
structure Ok (w : Wire) : Prop where
  page : (⟨w.link, w.peer.isSome⟩ : Page (List Turn.IceServer) Webrtc.Jsep).Ok
  fits : w.viewer.Fits
  lined : Lined w.starts w.link.stream w.peer w.up w.seen w.viewer
  turned : ∀ x starts, (x, starts) ∈ w.turned → ∃ n, x.start = some n ∧ n + 1 = starts
  applied : ∀ k peer, (k, peer) ∈ w.applied → peer = some k

theorem Ok.finds (h : w.Ok) : w.Attributed := by
  refine ⟨h.turned, h.applied, fun n k hk => ?_⟩
  obtain ⟨hstart, hmem⟩ := h.lined.relayed n k hk
  exact ⟨hstart, fun k' hk' heq => h.lined.distinct k' hk' k hmem (heq.trans hstart.symm)⟩

/-- All starts are answered. -/
theorem answered_of (h : w.unanswered = false) : .start ∉ wishes w.up w.viewer ∧
    (∀ k servers, w.viewer.pc ≠ .opening k servers) ∧
    ∀ x ∈ w.viewer.log.drop w.seen, x.answers = none := by
  simp only [unanswered, down, Bool.or_eq_false_iff, List.any_eq_false, decide_eq_true_eq] at h
  obtain ⟨⟨⟨hup, hjobs⟩, hpc⟩, hdown⟩ := h
  refine ⟨fun hmem => ?_, fun k servers hk => ?_, fun x hx => ?_⟩
  · rcases List.mem_append.mp hmem with hmem | hmem
    · obtain ⟨job, hjob, hwish⟩ := List.mem_filterMap.mp hmem
      have hnot := hjobs job hjob
      cases job with
      | start i => exact hnot rfl
      | stop | relay | androidStopped => cases hwish
    · obtain ⟨m, hm, hwish⟩ := List.mem_filterMap.mp hmem
      cases m with
      | start => exact hup _ hm rfl
      | stop | jsep | refused | accepted => cases hwish
  · rw [hk] at hpc
    cases hpc
  · simpa using hdown x hx

theorem react_page (h : (⟨w.link, w.peer.isSome⟩ : Page (List Turn.IceServer) Webrtc.Jsep).Ok)
    (he : w.link.Delivers e)
    (hk : ∀ servers policy, .peerOpen servers policy ∈ (w.link.handle random e).effects →
      k.isSome = true) :
    (⟨(w.react random e k).link, (w.react random e k).peer.isSome⟩ :
      Page (List Turn.IceServer) Webrtc.Jsep).Ok := by
  have hisSome : (w.react random e k).peer.isSome =
      (w.link.handle random e).effects.foldl replay w.peer.isSome := aim_isSome hk
  rw [hisSome]
  exact Page.Ok.handle h he

/-- Without a peer connection there is none in the page. -/
theorem Ok.unpeered (hpage : (⟨w.link, w.peer.isSome⟩ :
    Page (List Turn.IceServer) Webrtc.Jsep).Ok) (hs : w.link.stream.peered = false) :
    w.peer = none := by
  have hisSome : w.peer.isSome = w.link.stream.peered := hpage.streamed.peer
  rw [hs] at hisSome
  exact Option.isNone_iff_eq_none.mp (by simpa using hisSome)

/-- An event that is no message about the stream. -/
theorem Ok.pass (h : w.Ok) (he : w.link.Delivers e)
    (hturns : Link.Turns w.link (({ w.link with effects := [] } : Link _ _).on random e))
    (hplain : Link.Plainly { w.link with effects := [] }
      (({ w.link with effects := [] } : Link _ _).on random e))
    (hwaits : w.Waits random e) (k : Option Own) : (w.react random e k).Ok := by
  have hopens : ∀ servers policy,
      .peerOpen servers policy ∈ (w.link.handle random e).effects → k.isSome = true := by
    intro servers policy hmem
    rcases Link.handle_plain hplain hmem with hx | ⟨m, hx⟩ <;> cases hx
  have hpage := react_page h.page he hopens
  have hpeer : ∀ k', (w.react random e k).peer = some k' → w.peer = some k' := fun k' hk' =>
    aim_plain (fun x hx => Link.handle_plain hplain hx) hk'
  have hlined : Lined (w.react random e k).starts (w.react random e k).link.stream
      (w.react random e k).peer (w.react random e k).up w.seen w.viewer := by
    have hup : (w.react random e k).up =
        w.up ++ (w.link.handle random e).sent.map .ofRequest := rfl
    have hstarts : (w.react random e k).starts =
        w.starts + (w.link.handle random e).sent.count .start := rfl
    cases Link.handle_passes hturns with
    | starts hsent hstream =>
      have hnone : (w.react random e k).peer = none := Ok.unpeered hpage (by
        have hs : (w.react random e k).link.stream = .requested := hstream
        rw [hs]
        rfl)
      obtain ⟨hstart, hopening, hanswers⟩ := answered_of (hwaits (by rw [hsent]; exact .head _))
      rw [hup, hstarts, hnone, hsent]
      have hs : (w.react random e k).link.stream = .requested := hstream
      rw [hs]
      exact h.lined.sendStart hstart hopening hanswers
    | stops hsent hstream =>
      have hs : (w.react random e k).link.stream = .idle := hstream
      rw [hup, hstarts, hsent, hs]
      have hidle : Lined w.starts .idle (w.react random e k).peer w.up w.seen w.viewer :=
        h.lined.turn nofun nofun hpeer
      exact hidle.send nofun (fun _ => rfl) nofun
    | turns hsent hstream =>
      rw [hup, hstarts, hsent, List.map_nil, List.append_nil]
      have hs : (w.react random e k).link.stream = (w.link.handle random e).stream := rfl
      rw [hs]
      rcases hstream with hstream | hstream | hstream | ⟨hpeered, hstream⟩
      · rw [hstream]
        exact h.lined.turn id id hpeer
      · rw [hstream]
        exact h.lined.turn nofun nofun hpeer
      · rw [hstream]
        exact h.lined.turn nofun nofun hpeer
      · rw [hstream]
        have hactive : w.link.stream.active = true := by
          revert hpeered
          cases w.link.stream <;> simp [StreamState.peered, StreamState.active]
        exact h.lined.turn (fun _ => StreamState.engaged_of_active hactive) (fun _ => hactive)
          hpeer
  exact ⟨hpage, h.fits, hlined, h.turned, h.applied⟩

theorem Ok.browser (h : w.Ok) (he : w.link.Delivers e) (hm : ∀ m, e ≠ .message m)
    (hwaits : w.Waits random e) : (w.react random e none).Ok :=
  h.pass he (Link.on_turns (l := { w.link with effects := [] }) hm) (Link.on_plainly hm) hwaits none

/-- A message that is not about the stream. -/
theorem Ok.aside (h : w.Ok) {m : Dashboard.Message (List Turn.IceServer) Webrtc.Jsep}
    (hm : (∃ status, m = .status status) ∨ (∃ device version, m = .hello device version) ∨
      m = .other) (hwaits : w.Waits random (.message m)) (k : Option Own) :
    (w.react random (.message m) k).Ok := by
  have hignored : (({ w.link with effects := [] } : Link _ _).on random (.message m)).stream =
      w.link.stream ∧ (({ w.link with effects := [] } : Link _ _).on random (.message m)).acts =
        ({ w.link with effects := [] } : Link _ _).acts := by
    cases Link.on_answers { w.link with effects := [] } random m with
    | ignored hs ha => exact ⟨hs, ha⟩
    | starting _ _ _ heq | configured _ _ _ heq | ended _ _ _ heq | signal _ heq
    | refused _ heq =>
      rcases hm with ⟨status, rfl⟩ | ⟨device, version, rfl⟩ | rfl <;> cases heq
  exact h.pass (e := .message m) trivial (.inl hignored.1) (.of_eq hignored.2) hwaits k

/-! ### Messages about a stream -/

/-- What is left to show when a message is handled that is no status. -/
theorem Ok.take (h : w.Ok) {x : Entry} {rest : List Entry}
    {m : Dashboard.Message (List Turn.IceServer) Webrtc.Jsep} (hdown : w.down = x :: rest)
    (hm : ∀ status, m ≠ .status status)
    (hopens : ∀ servers policy,
      .peerOpen servers policy ∈ (w.link.handle random (.message m)).acts → x.about.isSome = true)
    (hlined : Lined w.starts (w.link.handle random (.message m)).stream
      ((w.link.handle random (.message m)).acts.foldl (aim x.about) w.peer) w.up (w.seen + 1)
      w.viewer)
    (hturned : (w.link.handle random (.message m)).stream ≠ w.link.stream →
      ∃ n, x.start = some n ∧ n + 1 = w.starts)
    (happlied : ∀ k data, x = .jsep k data →
      .peerSignal data ∈ (w.link.handle random (.message m)).acts → w.peer = some k) :
    (({ w with seen := w.seen + 1 } : Wire).take random x m).Ok := by
  have hsent := (Link.handle_answers random hm h.page.wanted).2
  have hacts : ∀ y : Effect (List Turn.IceServer) Webrtc.Jsep, y.isTimer = false →
      y ∈ (w.link.handle random (.message m)).effects →
      y ∈ (w.link.handle random (.message m)).acts := fun y hy hmem =>
    List.mem_filter.mpr ⟨hmem, by simp [hy]⟩
  constructor
  · exact react_page (e := .message m) h.page trivial fun servers policy hmem =>
      hopens servers policy (hacts _ rfl hmem)
  · exact h.fits
  · change Lined (w.starts + (w.link.handle random (.message m)).sent.count .start)
      (w.link.handle random (.message m)).stream
      ((w.link.handle random (.message m)).effects.foldl (aim x.about) w.peer)
      (w.up ++ (w.link.handle random (.message m)).sent.map .ofRequest) (w.seen + 1) w.viewer
    rw [hsent, aim_effects, List.map_nil, List.append_nil]
    exact hlined
  · intro y starts hy
    have hmem : (y, starts) ∈ if x ≠ .other ∧
        (w.link.handle random (.message m)).stream ≠ w.link.stream then
        w.turned ++ [(x, w.starts)] else w.turned := hy
    split at hmem
    · rename_i hchange
      rcases List.mem_append.mp hmem with hmem | hmem
      · exact h.turned y starts hmem
      · cases List.mem_singleton.mp hmem
        exact hturned hchange.2
    · exact h.turned y starts hmem
  · intro k peer hk
    cases x with
    | jsep k' data =>
      have hmem : (k, peer) ∈ if .peerSignal data ∈
          (w.link.handle random (.message m)).effects then
          w.applied ++ [(k', w.peer)] else w.applied := hk
      split at hmem
      · rename_i hsignal
        rcases List.mem_append.mp hmem with hmem | hmem
        · exact h.applied k peer hmem
        · cases List.mem_singleton.mp hmem
          exact happlied k data rfl (hacts _ rfl hsignal)
      · exact h.applied k peer hmem
    | starting | configured | ended | stopped | error | other | left => exact h.applied k peer hk

/-- The message is of no interest to the stream. -/
theorem Ok.ignored (h : w.Ok) {x : Entry} {rest : List Entry}
    {m : Dashboard.Message (List Turn.IceServer) Webrtc.Jsep} (hdown : w.down = x :: rest)
    (hm : ∀ status, m ≠ .status status)
    (hs : (w.link.handle random (.message m)).stream = w.link.stream)
    (ha : (w.link.handle random (.message m)).acts = []) :
    (({ w with seen := w.seen + 1 } : Wire).take random x m).Ok := by
  refine h.take hdown hm (fun servers policy hmem => ?_) ?_ (fun hne => absurd hs hne)
    fun k data _ hmem => ?_
  · rw [ha] at hmem
    cases hmem
  · rw [hs, ha]
    exact h.lined.deliver hdown
  · rw [ha] at hmem
    cases hmem

/-- The stream fails by the message. -/
theorem Ok.fails (h : w.Ok) {x : Entry} {rest : List Entry}
    {m : Dashboard.Message (List Turn.IceServer) Webrtc.Jsep} (hdown : w.down = x :: rest)
    (hm : ∀ status, m ≠ .status status)
    (hs : (w.link.handle random (.message m)).stream = .retrying)
    (ha : (w.link.handle random (.message m)).acts = [.peerClose])
    (hstart : ∃ n, x.start = some n ∧ n + 1 = w.starts) :
    (({ w with seen := w.seen + 1 } : Wire).take random x m).Ok := by
  refine h.take hdown hm (fun servers policy hmem => ?_) ?_ (fun _ => hstart)
    fun k data _ hmem => ?_
  · rw [ha] at hmem
    cases List.mem_singleton.mp hmem
  · rw [hs, ha]
    exact (h.lined.deliver hdown).turn nofun nofun nofun
  · rw [ha] at hmem
    cases List.mem_singleton.mp hmem

/-- An answer begins the stream. -/
theorem Ok.begins (h : w.Ok) {x : Entry} {rest : List Entry}
    {m : Dashboard.Message (List Turn.IceServer) Webrtc.Jsep} {k : Own}
    (hdown : w.down = x :: rest) (hm : ∀ status, m ≠ .status status) (hx : x.begins = true)
    (habout : x.about = some k) (hanswers : x.answers = some k.start)
    (hstart : x.start = some k.start) (hengaged : w.link.stream.engaged = true)
    (ha : (w.link.handle random (.message m)).acts = [] ∨ ∃ servers policy,
      (w.link.handle random (.message m)).acts = [.peerOpen servers policy]) :
    (({ w with seen := w.seen + 1 } : Wire).take random x m).Ok := by
  have hmem : x ∈ w.down := by
    rw [hdown]
    exact List.mem_cons_self
  refine h.take hdown hm (fun _ _ _ => by rw [habout]; rfl) ?_
    (fun _ => ⟨k.start, hstart, h.lined.answers x hmem _ hanswers⟩) fun k' data hx' _ => ?_
  · refine h.lined.activate h.fits hdown hx hengaged fun k' hk' => ?_
    rcases ha with ha | ⟨servers, policy, ha⟩
    · rw [ha] at hk'
      exact .inl hk'
    · rw [ha] at hk'
      exact .inr hk'
  · rw [hx'] at hx
    cases hx

/-- Signaling data is of the stream of the peer connection. -/
theorem Ok.signal (h : w.Ok) {rest : List Entry} {k : Own} {data : Webrtc.Jsep}
    (hdown : w.down = .jsep k data :: rest) (hpeered : w.link.stream.peered = true)
    (hs : (w.link.handle random (.message (.jsep data))).stream = w.link.stream)
    (ha : (w.link.handle random (.message (.jsep data))).acts = [.peerSignal data]) :
    (({ w with seen := w.seen + 1 } : Wire).take random (.jsep k data) (.jsep data)).Ok := by
  have hmem : .jsep k data ∈ w.down := by
    rw [hdown]
    exact List.mem_cons_self
  have hactive : w.link.stream.active = true := by
    revert hpeered
    cases w.link.stream <;> simp [StreamState.peered, StreamState.active]
  have hlast : k.start + 1 = w.starts := ((h.lined.active hactive).2 _ hmem).2 k rfl
  have howned : k ∈ w.viewer.owns := h.fits.named _ (List.mem_of_mem_drop hmem) k rfl
  have hpeer : w.peer = some k := by
    have hisSome : w.peer.isSome = true := h.page.streamed.peer.trans hpeered
    obtain ⟨k', hk'⟩ := Option.isSome_iff_exists.mp hisSome
    obtain ⟨howned', hlast'⟩ := h.lined.peered k' hk'
    rw [hk', h.lined.distinct k' howned' k howned (by omega)]
  refine h.take hdown (by simp) (fun servers policy hmem => ?_) ?_ (fun hne => absurd hs hne)
    fun k' data' hx' _ => ?_
  · rw [ha] at hmem
    cases List.mem_singleton.mp hmem
  · rw [hs, ha]
    exact h.lined.deliver hdown
  · cases hx'
    exact hpeer

/-- A message about the stream, or an error. -/
theorem Ok.news (h : w.Ok) {x : Entry} {rest : List Entry}
    {news m : Dashboard.Message (List Turn.IceServer) Webrtc.Jsep} (hdown : w.down = x :: rest)
    (hx : x ≠ .other) (hm : x.message news = some m)
    (hspares : w.Spares x) :
    (({ w with seen := w.seen + 1 } : Wire).take random x m).Ok := by
  have hmem : x ∈ w.down := by
    rw [hdown]
    exact List.mem_cons_self
  have hengaged : w.link.stream = .requested ∨ w.link.stream = .starting →
      w.link.stream.engaged = true := by
    rintro (hs | hs) <;> rw [hs] <;> rfl
  have hstatus : ∀ status, m ≠ .status status := by
    intro status heq
    cases x with
    | other => exact hx rfl
    | starting | configured | ended | stopped | jsep | error | left =>
      rw [heq] at hm
      cases hm
  have hanswers := (Link.handle_answers random hstatus h.page.wanted).1
  cases x with
  | other => exact absurd rfl hx
  | left k => cases hm
  | starting k =>
    cases hm
    cases hanswers with
    | ignored hs ha => exact h.ignored hdown hstatus hs ha
    | starting _ _ _ heq hreq hs ha =>
      exact h.begins hdown hstatus rfl rfl rfl rfl (hengaged (.inl hreq)) (.inl ha)
    | configured _ _ _ heq | ended _ _ _ heq | signal _ heq | refused _ heq => cases heq
  | configured k servers =>
    cases hm
    cases hanswers with
    | ignored hs ha => exact h.ignored hdown hstatus hs ha
    | configured _ _ _ heq hreq hs ha =>
      exact h.begins hdown hstatus rfl rfl rfl rfl (hengaged hreq) (.inr ⟨_, _, ha⟩)
    | starting _ _ _ heq | ended _ _ _ heq | signal _ heq | refused _ heq => cases heq
  | ended k reason =>
    cases hm
    cases hanswers with
    | ignored hs ha => exact h.ignored hdown hstatus hs ha
    | ended _ _ _ heq hactive hs ha =>
      have hlast := ((h.lined.active hactive).2 _ hmem).2 k rfl
      exact h.fails hdown hstatus hs ha ⟨k.start, rfl, hlast⟩
    | starting _ _ _ heq | configured _ _ _ heq | signal _ heq | refused _ heq => cases heq
  | stopped =>
    cases hm
    cases hanswers with
    | ignored hs ha => exact h.ignored hdown hstatus hs ha
    | ended _ _ _ heq hactive hs ha =>
      -- the answer to a stop is never under way to a stream that is active
      exact absurd rfl ((h.lined.active hactive).2 _ hmem).1
    | starting _ _ _ heq | configured _ _ _ heq | signal _ heq | refused _ heq => cases heq
  | jsep k data =>
    cases hm
    cases hanswers with
    | ignored hs ha => exact h.ignored hdown hstatus hs ha
    | signal _ heq hpeered hs ha =>
      cases heq
      exact h.signal hdown hpeered hs ha
    | starting _ _ _ heq | configured _ _ _ heq | ended _ _ _ heq | refused _ heq => cases heq
  | error start code text =>
    cases hm
    cases hanswers with
    | ignored hs ha => exact h.ignored hdown hstatus hs ha
    | refused _ heq hbegin hs ha =>
      cases start with
      | none =>
        have hnot : w.link.stream.beginning = false := hspares
        rw [hbegin] at hnot
        cases hnot
      | some i =>
        exact h.fails hdown hstatus hs ha ⟨i, rfl, h.lined.answers _ hmem i rfl⟩
    | starting _ _ _ heq | configured _ _ _ heq | ended _ _ _ heq | signal _ heq => cases heq

theorem Ok.deliver (h : w.Ok) {news : Dashboard.Message (List Turn.IceServer) Webrtc.Jsep}
    (hclear : w.Clear (.deliver news, random)) (hw : w.deliver random news = some w') : w'.Ok := by
  unfold Wire.deliver at hw
  split at hw
  · cases hw
  · rename_i k rest hdown
    cases hw
    exact ⟨h.page, h.fits, h.lined.deliver hdown, h.turned, h.applied⟩
  · rename_i x rest hleft hdown
    have hhead : x ∈ w.down.head? := by rw [hdown]; rfl
    obtain ⟨hspares, hwaits⟩ := hclear x hhead
    split at hw
    · obtain ⟨m, hm, rfl⟩ := Option.map_eq_some_iff.mp hw
      by_cases hx : x = .other
      · subst hx
        have haside : (∃ status, m = .status status) ∨
            (∃ device version, m = .hello device version) ∨ m = .other := by
          cases news with
          | status status => exact .inl ⟨status, (Option.some.inj hm).symm⟩
          | hello device version => exact .inr (.inl ⟨device, version, (Option.some.inj hm).symm⟩)
          | other => exact .inr (.inr (Option.some.inj hm).symm)
          | stream | jsep | error => cases hm
        have hreact := h.aside haside (hwaits m hm) none
        have hseen := hreact.lined.deliver hdown
        exact ⟨hreact.page, hreact.fits, hseen, hreact.turned, hreact.applied⟩
      · exact h.news hdown hx hm hspares
    · cases hw

/-! ### Steps -/

theorem Ok.initial (h : w.Initial) : w.Ok := by
  obtain ⟨⟨p, hp, hlink⟩, hsocket, hviewer, hw⟩ := h
  have hpage := p.ok hp
  have hidle : w.link.stream = .idle := by
    by_contra hne
    have hwants := hpage.wanted.mp (by rw [hlink]; exact hne)
    rw [hlink, Link.wantsStream, hsocket] at hwants
    cases hwants
  have hclosed : p.isOpen = false := by
    rw [hpage.streamed.peer, hlink, hidle]
    rfl
  have hpage' : (⟨w.link, false⟩ : Page (List Turn.IceServer) Webrtc.Jsep).Ok := by
    rw [← hlink, ← hclosed]
    exact hpage
  have hlined : Lined 0 w.link.stream none [] 0 w.viewer := by
    rw [hidle, hviewer.2]
    constructor
    case answers =>
      intro x hx i hi
      have hother : x = .other := by simpa using hx
      rw [hother] at hi
      cases hi
    case made =>
      rintro ⟨k, hk, -⟩
      cases hk
    all_goals simp [wishes, StreamState.engaged, StreamState.active]
  rw [hw]
  exact ⟨hpage', .initial hviewer, hlined, nofun, nofun⟩

/-- The session, or what is under way to it, has changed. -/
theorem Ok.move (h : w.Ok) {up : List ClientMessage} {v : Viewer} (hfits : v.Fits)
    (hlined : Lined w.starts w.link.stream w.peer up w.seen v) : ({ w with up, viewer := v }).Ok :=
  ⟨h.page, hfits, hlined, h.turned, h.applied⟩

theorem Ok.step (h : w.Ok) {e : Event × ℚ} (hclear : w.Clear e)
    (hw : w.step e.2 e.1 = some w') : w'.Ok := by
  obtain ⟨e, random⟩ := e
  cases e with
  | browser d =>
    have hbrowser : (∀ m, d ≠ .message m) →
        (if w.linked ∧ w.link.Delivers d then some (w.react random d none) else none) = some w' →
        w'.Ok := by
      intro hm hd
      split at hd
      · rename_i hdelivers
        cases hd
        exact h.browser hdelivers.2 hm hclear
      · cases hd
    cases d with
    | message m => cases hw
    | start | socketOpen | socketClose | timer | peer | froze | visibility | retry =>
      exact hbrowser nofun hw
  | reply status =>
    have hreply : (if w.linked then some (w.react random (.message (.status status)) none)
        else none) = some w' := hw
    split at hreply
    · cases hreply
      exact h.aside (.inl ⟨status, rfl⟩) hclear none
    · cases hreply
  | deliver news => exact h.deliver hclear hw
  | signal data =>
    have hsignal : (if w.link.socket = .open then
        w.peer.map fun k => { w with up := w.up ++ [.jsep data k.start] } else none) =
          some w' := hw
    split at hsignal
    · obtain ⟨k, hk, rfl⟩ := Option.map_eq_some_iff.mp hsignal
      obtain ⟨howned, hlast⟩ := h.lined.peered k hk
      obtain ⟨hstart, hcurrent, -⟩ := h.lined.made ⟨k, howned, hlast⟩
      refine h.move h.fits (h.lined.send nofun nofun fun p hp => ?_)
      cases hp
      refine ⟨hstart, fun k' hk' => ?_⟩
      have hlast' := hcurrent k' hk'
      omega
    · cases hsignal
  | input m =>
    have hinput : ∀ m, m.wish = none → m ≠ .start →
        (if w.link.socket = .open then some { w with up := w.up ++ [m] } else none) = some w' →
        w'.Ok := by
      intro m hwish hm hd
      split at hd
      · cases hd
        refine h.move h.fits (h.lined.send hm (fun hstop => ?_) fun p hp => ?_)
        · rw [hwish] at hstop
          cases hstop
        · rw [hwish] at hp
          cases hp
      · cases hd
    cases m with
    | refused code message => exact hinput (.refused code message) rfl nofun hw
    | accepted => exact hinput .accepted rfl nofun hw
    | start | stop | jsep => cases hw
  | receive tell =>
    have hreceive : w.receive tell = some w' := hw
    unfold Wire.receive at hreceive
    split at hreceive
    · cases hreceive
    · rename_i m up hup
      obtain ⟨v, hv, rfl⟩ := Option.map_eq_some_iff.mp hreceive
      have hlined := h.lined
      rw [hup] at hlined
      have hread : (if w.viewer.reading then some (w.viewer.receive tell m) else none) =
          some v := hv
      split at hread
      · cases hread
        exact h.move (h.fits.receive tell m) (hlined.receive h.fits tell)
      · cases hread
  | flood tell =>
    have hflood : (if w.up = [] then none else
        (w.viewer.step (.flood tell)).map fun viewer => { w with viewer }) = some w' := hw
    split at hflood
    · cases hflood
    · obtain ⟨v, hv, rfl⟩ := Option.map_eq_some_iff.mp hflood
      exact h.move (h.fits.step hv) (h.lined.step (e := .flood tell) h.fits nofun hv)
  | server e =>
    have hserver : (∀ m tell, e ≠ .receive m tell) →
        ((w.viewer.step e).map fun viewer => { w with viewer }) = some w' → w'.Ok := by
      intro he hd
      obtain ⟨v, hv, rfl⟩ := Option.map_eq_some_iff.mp hd
      exact h.move (h.fits.step hv) (h.lined.step h.fits he hv)
    cases e with
    | receive m tell => cases hw
    | flood tell => cases hw
    | lane | error | other | statusChanged | write | bridge | close | closeLane | drop =>
      exact hserver nofun hw

end Wire

namespace Dashboard

/-- **Stream attribution**: while starts wait for their answers, and errors of input keep away
from a stream that is being set up, every message finds its stream. -/
theorem attributed {w : Wire} (h : wireMachine.ReachBy Wire.Clear w) : w.Attributed := by
  have hok : w.Ok :=
    h.invariant (fun _ hw => .initial hw) fun _ _ _ hw hclear hstep => hw.step hclear hstep
  exact hok.finds

/-- A socket that was just opened. -/
def fresh : Wire :=
  { link := Link.new.handle 0 .start, peer := none, up := [], viewer := Session.fresh, seen := 0,
    starts := 0, turned := [], applied := [] }

theorem fresh_initial : fresh.Initial :=
  ⟨⟨Page.handle { link := .new, isOpen := false } 0 .start, .init ⟨0, rfl⟩, rfl⟩, rfl,
    Session.fresh_initial, rfl⟩

/-- A stream that is set up, with an offer and its answer. -/
def setUpRun : List Wire.Event :=
  [.browser .socketOpen, .server .write, .server .write, .deliver .other,
    .deliver (.status ⟨some "running", none⟩), .receive true, .server (.lane Session.up false),
    .server (.bridge (.stream 0 (.request .answered))), .server (.lane Session.up false),
    .server (.bridge (.stream 0 (.pump .start))),
    .server (.bridge (.stream 0 (.pump (.message (.offer "o"))))), .server .write, .server .write,
    .server .write, .deliver .other, .deliver .other, .deliver .other, .signal (.answer "a"),
    .receive true, .server (.lane Session.up false)]

theorem attributed_offer : ∃ w, wireMachine.run fresh (setUpRun.map (·, 0)) = some w ∧
    w.turned = [(.starting ⟨0, 0⟩, 1), (.configured ⟨0, 0⟩ [], 1)] ∧
    w.applied = [(⟨0, 0⟩, some ⟨0, 0⟩)] ∧ w.viewer.relayed = [(0, ⟨0, 0⟩)] ∧ w.Attributed := by
  obtain ⟨w, hrun, hturned, happlied, hrelayed⟩ :
      ∃ w, wireMachine.run fresh (setUpRun.map (·, 0)) = some w ∧
        w.turned = [(.starting ⟨0, 0⟩, 1), (.configured ⟨0, 0⟩ [], 1)] ∧
        w.applied = [(⟨0, 0⟩, some ⟨0, 0⟩)] ∧ w.viewer.relayed = [(0, ⟨0, 0⟩)] :=
    ⟨_, rfl, rfl, rfl, rfl⟩
  have hclear : wireMachine.RunOk Wire.Clear fresh (setUpRun.map (·, 0)) := by decide
  exact ⟨w, hrun, hturned, happlied, hrelayed,
    attributed (.of_run (.init fresh_initial) hclear hrun)⟩

/-- The page asks for a stream and sends a key that the session does not know. -/
def mistypedRun : List Wire.Event :=
  [.browser .socketOpen, .server .write, .server .write, .deliver .other,
    .deliver (.status ⟨some "running", none⟩), .input (.refused "bad_request" "invalid key"),
    .receive true, .receive true, .server .write, .deliver .other]

theorem mistyped_fails : ¬ ∀ w, wireMachine.Reachable w → w.Attributed := by
  intro h
  obtain ⟨w, hrun, hturned⟩ : ∃ w, wireMachine.run fresh (mistypedRun.map (·, 0)) = some w ∧
      w.turned = [(.error none "bad_request" "invalid key", 1)] := ⟨_, rfl, rfl⟩
  have hattributed := h w (.of_run (.init fresh_initial) hrun)
  obtain ⟨n, hn, -⟩ := hattributed.turned _ 1 (by rw [hturned]; exact .head _)
  cases hn

end Dashboard

end AndroidAppliance
