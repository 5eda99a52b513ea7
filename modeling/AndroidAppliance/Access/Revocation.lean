import AndroidAppliance.Access.Middleware
import Mathlib.Data.List.Nodup

/-!
# Revocation

What a request must carry to reach an endpoint, how often a login code works, and that
nothing from before a rotation works after it. The random values of a run are distinct and
no mac is forged (`World.Honest`), so a credential that is accepted is one of the history,
and the history before a rotation shares no value with the secrets after it.
-/

namespace AndroidAppliance

namespace Access

variable {env : Env} {cfg : Config}

namespace World

/-! ### Statements -/

/-- What a request carries that reaches an endpoint which is not public. -/
inductive Entitled (env : Env) (cfg : Config) (w : World) (r : Request) :
    Option Principal → Prop
  | viaUnix : r.viaUnix = true → Entitled env cfg w r (some .viaUnix)
  /-- The current token. -/
  | token : Str.lower ((r.headerText "authorization").take 7) = "bearer ".toList →
      Str.strip ((r.headerText "authorization").drop 7) = w.auth.token →
      Entitled env cfg w r (some .token)
  /-- A cookie that was made under the current key and has not expired, never at `/mcp`, and
  from the own origin when the request may change state. -/
  | session (g : Signed) : g ∈ w.hist.signed → g.key = w.auth.sessionKey →
      env.cookies r.headers sessionCookie = some (Auth.cookie env g.key g.payload) →
      w.wall ≤ g.expiry → r.path ≠ mcp →
      (r.isUnsafe = true →
        r.ownOrigin cfg.trustProxy = some (Str.lower (r.headerText "origin"))) →
      Entitled env cfg w r (some .session)

/-- The code of a link that was made after the last rotation and in the last `LINK_TTL`
seconds, and that has not been accepted. -/
def Pending (w : World) (code : Str) : Prop :=
  code ∉ w.hist.accepted ∧ ∃ l ∈ w.hist.links, l.code = code ∧ l.epoch = w.hist.epoch ∧
    w.mono < l.time + linkTtl

/-- Nothing that was issued up to `old` is accepted. -/
structure Revoked (env : Env) (cfg : Config) (old w : World) : Prop where
  tokens : ∀ t ∈ old.hist.tokens, w.auth.checkToken t = false
  cookies : ∀ g ∈ old.hist.signed, ∀ r, w.Honest env (.request r) →
    env.cookies r.headers sessionCookie = some (Auth.cookie env g.key g.payload) →
      (w.auth.principal env cfg w.mono w.wall r).2 ≠ some .session
  codes : ∀ l ∈ old.hist.links, (w.auth.useLoginCode w.mono l.code).2 = false

/-! ### The invariant -/

/-- The credentials and the history agree. -/
structure Ok (w : World) : Prop where
  tokens : ∀ t ∈ w.hist.tokens, t ∈ w.hist.drawn
  token : w.auth.token ∈ w.hist.tokens
  /-- The key of a cookie was drawn, and every cookie has a value of its own. -/
  keys : ∀ g ∈ w.hist.signed, g.key ∈ w.hist.drawn
  key : w.auth.sessionKey ∈ w.hist.drawn
  nonces : ∀ g ∈ w.hist.signed, g.nonce ∈ w.hist.drawn
  distinct : (w.hist.signed.map Signed.nonce).Nodup
  codes : ∀ l ∈ w.hist.links, l.code ∈ w.hist.drawn
  /-- A login code that works is pending. -/
  pending : ∀ code t, w.auth.links code = some t → code ∉ w.hist.accepted ∧
    ∃ l ∈ w.hist.links, l.code = code ∧ l.epoch = w.hist.epoch ∧ t = l.time + linkTtl
  accepted : ∀ code ∈ w.hist.accepted, code ∈ w.hist.drawn
  once : w.hist.accepted.Nodup

/-- The secrets and the login codes are newer than `old`. -/
structure Since (old : World) (w : World) : Prop where
  drawn : ∀ v ∈ old.hist.drawn, v ∈ w.hist.drawn
  signed : ∀ g ∈ old.hist.signed, g ∈ w.hist.signed
  token : w.auth.token ∉ old.hist.drawn
  key : w.auth.sessionKey ∉ old.hist.drawn
  codes : ∀ code t, w.auth.links code = some t → code ∉ old.hist.drawn

variable {old w w' : World} {e : Event}

theorem Ok.initial (h : w.Initial) : w.Ok := by
  obtain ⟨-, hlinks, -, -, -, hhist⟩ := h
  refine ⟨?_, ?_, ?_, ?_, ?_, ?_, ?_, ?_, ?_, ?_⟩ <;> simp [hhist, hlinks]

/-- The three outcomes of a rotation. -/
theorem rotate_cases (a : Auth) (d : Disk) (fails : SecretFile → Bool) (token key : Str) :
    (a.rotate fails token key d).2.2 = false ∧
        (a.rotate fails token key d).1 = { a with token } ∨
      (a.rotate fails token key d).2.2 = true ∧
        (a.rotate fails token key d).1 =
          { a with token, sessionKey := key, links := fun _ => none } := by
  unfold Auth.rotate
  dsimp only
  split
  · exact .inl ⟨rfl, rfl⟩
  · split
    · exact .inl ⟨rfl, rfl⟩
    · exact .inr ⟨rfl, rfl⟩

theorem Ok.loginLink (h : w.Ok) {code : Str} (hfresh : code ∉ w.hist.drawn)
    (hstep : w.step env cfg (.loginLink code) = some w') : w'.Ok := by
  simp only [step, Option.some.injEq] at hstep
  subst hstep
  exact {
    tokens := fun t ht => List.mem_append_left _ (h.tokens t ht)
    token := h.token
    keys := fun g hg => List.mem_append_left _ (h.keys g hg)
    key := List.mem_append_left _ h.key
    nonces := fun g hg => List.mem_append_left _ (h.nonces g hg)
    distinct := h.distinct
    codes := fun l hl => by
      rcases List.mem_append.mp hl with hl | hl
      · exact List.mem_append_left _ (h.codes l hl)
      · rw [List.mem_singleton.mp hl]
        exact List.mem_append_right _ (List.mem_singleton_self code)
    pending := fun c t hc => by
      simp only [Auth.loginLink] at hc
      by_cases hcode : c = code
      · subst hcode
        rw [Function.update_self] at hc
        cases hc
        exact ⟨fun hacc => hfresh (h.accepted c hacc), _, List.mem_append_right _
          (List.mem_singleton_self _), rfl, rfl, rfl⟩
      · rw [Function.update_of_ne hcode] at hc
        obtain ⟨hold, -⟩ := Option.filter_eq_some_iff.mp hc
        obtain ⟨hacc, l, hl, hlink⟩ := h.pending c t hold
        exact ⟨hacc, l, List.mem_append_left _ hl, hlink⟩
    accepted := fun c hc => List.mem_append_left _ (h.accepted c hc)
    once := h.once }

theorem Ok.useLoginCode (h : w.Ok) {code : Str}
    (hstep : w.step env cfg (.useLoginCode code) = some w') : w'.Ok := by
  simp only [step, Option.some.injEq] at hstep
  subst hstep
  have hused : (w.auth.useLoginCode w.mono code).2 = true →
      code ∉ w.hist.accepted ∧ code ∈ w.hist.drawn := by
    intro hok
    obtain ⟨t, ht, -⟩ := Option.any_eq_true _ _ |>.mp hok
    obtain ⟨hacc, l, hl, rfl, -⟩ := h.pending code t ht
    exact ⟨hacc, h.codes l hl⟩
  exact { h with
    pending := fun c t hc => by
      simp only [Auth.useLoginCode] at hc
      by_cases hcode : c = code
      · subst hcode
        rw [Function.update_self] at hc
        cases hc
      · rw [Function.update_of_ne hcode] at hc
        obtain ⟨hacc, hlink⟩ := h.pending c t hc
        refine ⟨fun hmem => ?_, hlink⟩
        dsimp only at hmem
        split at hmem
        · rcases List.mem_append.mp hmem with hmem | hmem
          · exact hacc hmem
          · exact hcode (List.mem_singleton.mp hmem)
        · exact hacc hmem
    accepted := fun c hc => by
      dsimp only at hc
      split at hc
      · rename_i hok
        rcases List.mem_append.mp hc with hc | hc
        · exact h.accepted c hc
        · rw [List.mem_singleton.mp hc]
          exact (hused hok).2
      · exact h.accepted c hc
    once := by
      dsimp only
      split
      · rename_i hok
        rw [List.nodup_append]
        refine ⟨h.once, List.pairwise_singleton _ _, fun c hc c' hc' => ?_⟩
        rw [List.mem_singleton.mp hc']
        rintro rfl
        exact (hused hok).1 hc
      · exact h.once }

theorem Ok.newSession (h : w.Ok) {nonce : Str} (hfresh : nonce ∉ w.hist.drawn)
    (hstep : w.step env cfg (.newSession nonce) = some w') : w'.Ok := by
  simp only [step, Option.some.injEq] at hstep
  subst hstep
  exact {
    tokens := fun t ht => List.mem_append_left _ (h.tokens t ht)
    token := h.token
    keys := fun g hg => by
      rcases List.mem_append.mp hg with hg | hg
      · exact List.mem_append_left _ (h.keys g hg)
      · rw [List.mem_singleton.mp hg]
        exact List.mem_append_left _ h.key
    key := List.mem_append_left _ h.key
    nonces := fun g hg => by
      rcases List.mem_append.mp hg with hg | hg
      · exact List.mem_append_left _ (h.nonces g hg)
      · rw [List.mem_singleton.mp hg]
        exact List.mem_append_right _ (List.mem_singleton_self nonce)
    distinct := by
      dsimp only
      rw [List.map_append, List.nodup_append]
      refine ⟨h.distinct, List.pairwise_singleton _ _, fun n hn n' hn' => ?_⟩
      obtain ⟨g, hg, rfl⟩ := List.mem_map.mp hn
      rw [List.mem_singleton.mp hn']
      rintro rfl
      exact hfresh (h.nonces g hg)
    codes := fun l hl => List.mem_append_left _ (h.codes l hl)
    pending := h.pending
    accepted := fun c hc => List.mem_append_left _ (h.accepted c hc)
    once := h.once }

theorem Ok.rotate (h : w.Ok) (fails : SecretFile → Bool) (token key : Str) :
    (w.rotate fails token key).1.Ok := by
  have htoken : token ∈ w.hist.drawn ++ [token, key] := by simp
  have hkey : key ∈ w.hist.drawn ++ [token, key] := by simp
  have htokens : ∀ t ∈ w.hist.tokens ++ [token], t ∈ w.hist.drawn ++ [token, key] := by
    intro t ht
    rcases List.mem_append.mp ht with ht | ht
    · exact List.mem_append_left _ (h.tokens t ht)
    · rw [List.mem_singleton.mp ht]
      exact htoken
  have hlast : token ∈ w.hist.tokens ++ [token] :=
    List.mem_append_right _ (List.mem_singleton_self token)
  have hsigned : ∀ g ∈ w.hist.signed, g.key ∈ w.hist.drawn ++ [token, key] := fun g hg =>
    List.mem_append_left _ (h.keys g hg)
  have hnonces : ∀ g ∈ w.hist.signed, g.nonce ∈ w.hist.drawn ++ [token, key] := fun g hg =>
    List.mem_append_left _ (h.nonces g hg)
  have hcodes : ∀ l ∈ w.hist.links, l.code ∈ w.hist.drawn ++ [token, key] := fun l hl =>
    List.mem_append_left _ (h.codes l hl)
  have haccepted : ∀ c ∈ w.hist.accepted, c ∈ w.hist.drawn ++ [token, key] := fun c hc =>
    List.mem_append_left _ (h.accepted c hc)
  rcases rotate_cases w.auth w.disk fails token key with ⟨hno, hauth⟩ | ⟨hyes, hauth⟩
  · exact {
      tokens := htokens
      token := by
        simp only [World.rotate, hauth]
        exact hlast
      keys := hsigned
      key := by
        simp only [World.rotate, hauth]
        exact List.mem_append_left _ h.key
      nonces := hnonces
      distinct := h.distinct
      codes := hcodes
      pending := fun c t hc => by
        simp only [World.rotate, hauth, hno, Bool.false_eq_true, if_false] at hc ⊢
        exact h.pending c t hc
      accepted := haccepted
      once := h.once }
  · exact {
      tokens := htokens
      token := by
        simp only [World.rotate, hauth]
        exact hlast
      keys := hsigned
      key := by
        simp only [World.rotate, hauth]
        exact hkey
      nonces := hnonces
      distinct := h.distinct
      codes := hcodes
      pending := fun c t hc => by
        simp only [World.rotate, hauth] at hc
        cases hc
      accepted := haccepted
      once := h.once }

theorem Ok.request (h : w.Ok) {r : Request} (hstep : w.step env cfg (.request r) = some w') :
    w'.Ok := by
  simp only [step, Option.some.injEq] at hstep
  subst hstep
  obtain ⟨htoken, hkey, hlinks⟩ :=
    Auth.call_fields env w.auth cfg w.mono w.wall r
  exact { h with
    token := by
      simp only [call, htoken]
      exact h.token
    key := by
      simp only [call, hkey]
      exact h.key
    pending := fun c t hc => by
      simp only [call, hlinks] at hc
      exact h.pending c t hc }

/-- Every step with new random values keeps the history in order. -/
theorem Ok.step (h : w.Ok) (hok : w.Honest env e) (hstep : w.step env cfg e = some w') :
    w'.Ok := by
  cases e with
  | loginLink code => exact h.loginLink (hok.1 code (List.mem_singleton_self code)) hstep
  | useLoginCode code => exact h.useLoginCode hstep
  | newSession nonce => exact h.newSession (hok.1 nonce (List.mem_singleton_self nonce)) hstep
  | rotate fails token key =>
    simp only [World.step, Option.some.injEq] at hstep
    exact hstep ▸ h.rotate fails token key
  | request r => exact h.request hstep
  | clock mono wall =>
    simp only [World.step] at hstep
    split at hstep
    · cases hstep
      exact ⟨h.tokens, h.token, h.keys, h.key, h.nonces, h.distinct, h.codes, h.pending,
        h.accepted, h.once⟩
    · cases hstep

theorem ok_of_reach (h : (authMachine env cfg).ReachBy (World.Honest env) w) : w.Ok :=
  h.invariant (fun _ => Ok.initial) fun _ _ _ hw hok hstep => hw.step hok hstep

/-! ### After a rotation -/

/-- A rotation that returned leaves no value of the time before it in use. -/
theorem Since.rotate {fails : SecretFile → Bool} {token key : Str}
    (hok : w.Honest env (.rotate fails token key))
    (hret : (w.rotate fails token key).2 = true) : Since w (w.rotate fails token key).1 := by
  have htoken : token ∉ w.hist.drawn := hok.1 token (by simp [Event.draws])
  have hkey : key ∉ w.hist.drawn := hok.1 key (by simp [Event.draws])
  rcases rotate_cases w.auth w.disk fails token key with ⟨hno, -⟩ | ⟨-, hauth⟩
  · have hno' : (w.rotate fails token key).2 = false := hno
    rw [hret] at hno'
    cases hno'
  · refine ⟨fun v hv => List.mem_append_left _ hv, fun g hg => hg, ?_, ?_, fun c t hc => ?_⟩
    · simp only [World.rotate, hauth]
      exact htoken
    · simp only [World.rotate, hauth]
      exact hkey
    · simp only [World.rotate, hauth] at hc
      cases hc

/-- No step brings an older value back. -/
theorem Since.step (h : Since old w) (hok : w.Honest env e)
    (hstep : w.step env cfg e = some w') : Since old w' := by
  have hnew : ∀ v ∈ e.draws, v ∉ old.hist.drawn := fun v hv hold => hok.1 v hv (h.drawn v hold)
  cases e with
  | loginLink code =>
    simp only [World.step, Option.some.injEq] at hstep
    subst hstep
    refine ⟨fun v hv => List.mem_append_left _ (h.drawn v hv), h.signed, h.token, h.key,
      fun c t hc => ?_⟩
    simp only [Auth.loginLink] at hc
    by_cases hcode : c = code
    · exact hnew c (by simp [Event.draws, hcode])
    · rw [Function.update_of_ne hcode] at hc
      exact h.codes c t (Option.filter_eq_some_iff.mp hc).1
  | useLoginCode code =>
    simp only [World.step, Option.some.injEq] at hstep
    subst hstep
    refine ⟨h.drawn, h.signed, h.token, h.key, fun c t hc => ?_⟩
    simp only [Auth.useLoginCode] at hc
    by_cases hcode : c = code
    · rw [hcode, Function.update_self] at hc
      cases hc
    · rw [Function.update_of_ne hcode] at hc
      exact h.codes c t hc
  | newSession nonce =>
    simp only [World.step, Option.some.injEq] at hstep
    subst hstep
    exact ⟨fun v hv => List.mem_append_left _ (h.drawn v hv),
      fun g hg => List.mem_append_left _ (h.signed g hg), h.token, h.key, h.codes⟩
  | rotate fails token key =>
    have htoken : token ∉ old.hist.drawn := hnew token (by simp [Event.draws])
    have hkey : key ∉ old.hist.drawn := hnew key (by simp [Event.draws])
    simp only [World.step, Option.some.injEq] at hstep
    subst hstep
    rcases rotate_cases w.auth w.disk fails token key with ⟨-, hauth⟩ | ⟨-, hauth⟩
    · refine ⟨fun v hv => List.mem_append_left _ (h.drawn v hv), h.signed, ?_, ?_,
        fun c t hc => ?_⟩
      · simp only [World.rotate, hauth]
        exact htoken
      · simp only [World.rotate, hauth]
        exact h.key
      · simp only [World.rotate, hauth] at hc
        exact h.codes c t hc
    · refine ⟨fun v hv => List.mem_append_left _ (h.drawn v hv), h.signed, ?_, ?_,
        fun c t hc => ?_⟩
      · simp only [World.rotate, hauth]
        exact htoken
      · simp only [World.rotate, hauth]
        exact hkey
      · simp only [World.rotate, hauth] at hc
        cases hc
  | request r =>
    simp only [World.step, Option.some.injEq] at hstep
    subst hstep
    obtain ⟨htoken, hkey, hlinks⟩ :=
      Auth.call_fields env w.auth cfg w.mono w.wall r
    refine ⟨h.drawn, h.signed, ?_, ?_, fun c t hc => ?_⟩
    · simp only [call, htoken]
      exact h.token
    · simp only [call, hkey]
      exact h.key
    · simp only [call, hlinks] at hc
      exact h.codes c t hc
  | clock mono wall =>
    simp only [World.step] at hstep
    split at hstep
    · cases hstep
      exact ⟨h.drawn, h.signed, h.token, h.key, h.codes⟩
    · cases hstep

theorem Since.path (h : Since old w) (hp : (authMachine env cfg).PathBy (World.Honest env) w w') :
    Since old w' := by
  induction hp with
  | refl => exact h
  | tail _ he ih =>
    obtain ⟨e, hok, hstep⟩ := he
    exact ih.step hok hstep

/-! ### Cookies of the history -/

/-- A cookie that is accepted was made under the current key, and has not expired. -/
theorem Honest.accepted {r : Request} {v : Str} (hok : w.Honest env (.request r))
    (hv : env.cookies r.headers sessionCookie = some v)
    (h : w.auth.checkSession env w.wall v = true) :
    ∃ g ∈ w.hist.signed, g.key = w.auth.sessionKey ∧ v = Auth.cookie env g.key g.payload ∧
      w.wall ≤ g.expiry := by
  obtain ⟨expiry, nonce, rfl, hdot, hdigits, hwall⟩ := Auth.checkSession_spec h
  obtain ⟨g, hg, hkey, hpayload⟩ := hok.2.2 r rfl _ hv _ rfl
  have hexpiry : Str.ofInt g.expiry = expiry :=
    (Str.append_sep_inj (Str.not_mem_ofInt rfl (by decide)) hdot hpayload).1
  refine ⟨g, hg, hkey, by rw [hkey, hpayload], ?_⟩
  rw [← hexpiry] at hdigits hwall
  have hint : ((Str.int (Str.ofInt g.expiry) : ℤ) : ℚ) = g.expiry :=
    congrArg Int.cast (Str.int_of_isDigits hdigits)
  rw [← hint]
  exact_mod_cast hwall

/-- A cookie names the one that was made with its value. -/
theorem Ok.signed_inj (h : w.Ok) {g g' : Signed} (hg : g ∈ w.hist.signed)
    (hg' : g' ∈ w.hist.signed)
    (heq : Auth.cookie env g.key g.payload = Auth.cookie env g'.key g'.payload) : g = g' := by
  have hpayload : g.payload = g'.payload := Auth.cookie_payload heq
  have hnonce : g.nonce = g'.nonce :=
    (Str.append_sep_inj (Str.not_mem_ofInt rfl (by decide))
      (Str.not_mem_ofInt rfl (by decide)) hpayload).2
  exact List.inj_on_of_nodup_map h.distinct hg hg' hnonce

theorem Since.revoked (hold : old.Ok) (h : w.Ok) (hs : Since old w) :
    Revoked env cfg old w := by
  refine ⟨fun t ht => ?_, fun g hg r hok hcookie hsession => ?_, fun l hl => ?_⟩
  · refine decide_eq_false fun heq => hs.token ?_
    exact heq ▸ hold.tokens t ht
  · obtain ⟨v, hv, hcheck⟩ := Auth.principal_session hsession
    obtain ⟨g', hg', hkey, rfl, -⟩ := hok.accepted hv hcheck
    have heq : g = g' := h.signed_inj (hs.signed g hg) hg' (Option.some.inj (hcookie.symm.trans hv))
    exact hs.key (hkey ▸ heq ▸ hold.keys g hg)
  · unfold Auth.useLoginCode
    dsimp only
    cases hcode : w.auth.links l.code with
    | none => rfl
    | some t => exact absurd (hold.codes l hl) (hs.codes _ t hcode)

/-! ### Every run -/

/-- **Credential revocation.** In every run with distinct random values and no forged mac, a
request reaches an endpoint that is not public only with what `Entitled` says, a login code
is accepted at most once and only while it is pending, and from the return of a rotation on
nothing that was issued before it is ever accepted again. -/
theorem credentials_revoked (h : (authMachine env cfg).ReachBy (World.Honest env) w) :
    (∀ r p, w.Honest env (.request r) → r.path ∉ publicPaths →
      (w.call env cfg r).2 = .app p → Entitled env cfg w r p) ∧
    (w.hist.accepted.Nodup ∧ ∀ code, (w.auth.useLoginCode w.mono code).2 = true →
      w.Pending code) ∧
    ∀ fails token key, w.Honest env (.rotate fails token key) →
      (w.rotate fails token key).2 = true →
      ∀ w', (authMachine env cfg).PathBy (World.Honest env) (w.rotate fails token key).1 w' →
        Revoked env cfg w w' := by
  have hw := ok_of_reach h
  refine ⟨fun r p hok hpath hcall => ?_, ⟨hw.once, fun code hcode => ?_⟩,
    fun fails token key hok hret w' hp => ?_⟩
  · obtain ⟨q, rfl, hblocked, hprincipal, hsession⟩ := Auth.call_app hcall hpath
    cases q with
    | viaUnix => exact .viaUnix (Auth.principal_unix hprincipal)
    | token =>
      obtain ⟨hbearer, htoken⟩ := Auth.principal_token hprincipal
      exact .token hbearer htoken
    | session =>
      obtain ⟨v, hv, hcheck⟩ := Auth.principal_session hprincipal
      obtain ⟨g, hg, hkey, rfl, hexpiry⟩ := hok.accepted hv hcheck
      obtain ⟨hmcp, horigin⟩ := hsession rfl
      exact .session g hg hkey hv hexpiry hmcp horigin
    | blocked => exact absurd rfl hblocked
  · obtain ⟨t, ht, hmono⟩ := Option.any_eq_true _ _ |>.mp hcode
    obtain ⟨hacc, l, hl, rfl, hepoch, rfl⟩ := hw.pending code t ht
    exact ⟨hacc, l, hl, rfl, hepoch, of_decide_eq_true hmono⟩
  · have hrot : (authMachine env cfg).step w (.rotate fails token key) =
        some (w.rotate fails token key).1 := rfl
    have hw' := ok_of_reach (hp.reachBy (h.step hok hrot))
    exact ((Since.rotate hok hret).path hp).revoked hw hw'

/-- The mac of the first cookie below. -/
def sampleMac : Str :=
  "d3d943799cb037e6765b1140b5b2bce75b6ab2ce038014a9c76742dbeb0881ac".toList

/-- HMAC-SHA256 on that cookie, and a cookie header with one cookie. -/
def sampleEnv : Env where
  mac key payload :=
    if key = "key0".toList ∧ payload = "604800.n".toList then sampleMac
    else List.replicate 64 '0'
  mac_length key payload := by split <;> rfl
  cookies headers name :=
    (headers.lookup "cookie".toList).bind fun text =>
      if (name ++ ['=']).isPrefixOf text then some (text.drop (name.length + 1)) else none

/-- Behind no proxy, at the port of the default configuration. -/
def sampleConfig : Config := { trustProxy := false, listenAddress := [], port := 6090 }

/-- A daemon that has just made its secrets, at the epoch of the clocks. -/
def new : World :=
  { auth := { token := "tok0".toList, sessionKey := "key0".toList, links := fun _ => none,
              failures := [] }
    disk := { apiToken := "tok0".toList, sessionKey := "key0".toList, turnSecret := [] }
    mono := 0
    wall := 0
    hist := { drawn := ["tok0".toList, "key0".toList], tokens := ["tok0".toList], links := [],
              accepted := [], signed := [], epoch := 0 } }

/-- A look at the status with the first cookie. -/
def sampleRequest : Request :=
  { kind := .http "GET".toList
    viaUnix := false
    path := "/api/v1/status".toList
    headers := [("cookie".toList, "appliance_session=604800.n.".toList ++ sampleMac)]
    scheme := some "http".toList
    client := none }

/-- A daemon with one cookie and one login link. -/
def sampleRun : List Event := [.newSession "n".toList, .loginLink "code".toList]

theorem credentials_revoked_rotation : ∃ w : World,
    (authMachine sampleEnv sampleConfig).run new sampleRun = some w ∧
    (w.call sampleEnv sampleConfig sampleRequest).2 = .app (some .session) ∧
    Entitled sampleEnv sampleConfig w sampleRequest (some .session) ∧
    (w.auth.useLoginCode w.mono "code".toList).2 = true ∧ w.Pending "code".toList ∧
    Revoked sampleEnv sampleConfig w
      (w.rotate (fun _ => false) "tok1".toList "key1".toList).1 := by
  let w₁ := (new.step sampleEnv sampleConfig (.newSession "n".toList)).getD new
  let w₂ := (w₁.step sampleEnv sampleConfig (.loginLink "code".toList)).getD new
  have hinit : new.Initial := ⟨by decide, rfl, rfl, rfl, rfl, rfl⟩
  have h₁ : new.Honest sampleEnv (.newSession "n".toList) :=
    ⟨by decide, by decide, fun r hr => (nomatch hr)⟩
  have h₂ : w₁.Honest sampleEnv (.loginLink "code".toList) :=
    ⟨by decide, by decide, fun r hr => (nomatch hr)⟩
  have hrot : w₂.Honest sampleEnv (.rotate (fun _ => false) "tok1".toList "key1".toList) :=
    ⟨by decide, by decide, fun r hr => (nomatch hr)⟩
  have hreach : (authMachine sampleEnv sampleConfig).ReachBy (World.Honest sampleEnv) w₂ :=
    .step (.step (.init hinit) h₁ rfl) h₂ rfl
  -- the one cookie that is presented was made for its payload
  have hreq : w₂.Honest sampleEnv (.request sampleRequest) := by
    refine ⟨by decide, by decide, fun r hr v hv p hp => ?_⟩
    cases hr
    refine ⟨{ key := "key0".toList, expiry := 604800, nonce := "n".toList }, by decide, by decide,
      ?_⟩
    have hcookie : sampleEnv.cookies sampleRequest.headers sessionCookie =
        some (Auth.cookie sampleEnv "key0".toList "604800.n".toList) := by decide
    rw [hcookie] at hv
    cases hv
    exact Auth.cookie_payload hp
  obtain ⟨hcall, hlink, hrevoked⟩ := credentials_revoked hreach
  have happ : (w₂.call sampleEnv sampleConfig sampleRequest).2 = .app (some .session) := by
    decide
  have hcode : (w₂.auth.useLoginCode w₂.mono "code".toList).2 = true := by
    decide +kernel
  exact ⟨w₂, rfl, happ, hcall _ _ hreq (by decide) happ, hcode, hlink.2 _ hcode,
    hrevoked _ _ _ hrot rfl _ (.refl ..)⟩

end World

end Access

end AndroidAppliance
