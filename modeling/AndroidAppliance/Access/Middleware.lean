import AndroidAppliance.Access.Basic

/-!
# What the middleware checks

The cookie that `check_session` accepts, the credentials behind each principal, and what a
request must carry to reach an endpoint that is not public.
-/

namespace AndroidAppliance

namespace Access

/-! ### Cookies -/

namespace Auth

variable {env : Env} {a : Auth} {mono wall : ℚ}

/-- A payload and its key are read back from the cookie. -/
theorem cookie_payload {key key' p p' : Str} (h : cookie env key p = cookie env key' p') :
    p = p' := by
  have hlen : ('.' :: env.mac key p).length = ('.' :: env.mac key' p').length := by
    rw [List.length_cons, List.length_cons, env.mac_length, env.mac_length]
  exact (List.append_inj' h hlen).1

/-- A cookie that is accepted carries the mac of its payload, and a time limit that is not
over. -/
theorem checkSession_spec {v : Str} (h : a.checkSession env wall v = true) :
    ∃ e n, v = cookie env a.sessionKey (e ++ '.' :: n) ∧ '.' ∉ e ∧ e.isDigits = true ∧
      wall ≤ e.int := by
  unfold checkSession at h
  dsimp only at h
  split at h
  · cases h
  rename_i hno
  simp only [Bool.or_eq_true, Bool.not_eq_true', decide_eq_true_eq, not_or, not_lt,
    Bool.not_eq_false, Bool.and_eq_true] at hno
  obtain ⟨⟨⟨hdigits, -⟩, hnonce⟩, hwall⟩ := hno
  obtain ⟨hdot, hv⟩ := Str.partition_spec '.' v
  obtain ⟨-, hrest⟩ := Str.partition_spec '.' (v.partition '.').2.2
  have hmac := of_decide_eq_true h
  refine ⟨(v.partition '.').1, (Str.partition '.' (v.partition '.').2.2).1, ?_, hdot, hdigits,
    hwall⟩
  -- both separators are there: the nonce is not empty, and a mac is not either
  rcases hv with hv | ⟨-, hnil⟩
  · rcases hrest with hrest | ⟨-, hnil⟩
    · unfold cookie
      rw [← hmac]
      conv_lhs => rw [hv, hrest]
      simp
    · rw [hnil] at hmac
      have hlen := env.mac_length a.sessionKey
        ((v.partition '.').1 ++ '.' :: (Str.partition '.' (v.partition '.').2.2).1)
      rw [← hmac] at hlen
      cases hlen
  · rw [hnil] at hnonce
    exact absurd rfl hnonce

/-- The principal of a session comes from a cookie that was accepted. -/
theorem principal_session {cfg : Config} {r : Request}
    (h : (a.principal env cfg mono wall r).2 = some .session) :
    ∃ v, env.cookies r.headers sessionCookie = some v ∧ a.checkSession env wall v = true := by
  unfold principal at h
  split at h
  · cases h
  · dsimp only at h
    split at h
    · split at h
      · cases h
      · split at h <;> cases h
    · split at h
      · cases h
      · cases h
      · rename_i v _ hv
        split at h
        · exact ⟨v, hv, ‹_›⟩
        · cases h

/-- The principal of a token comes from the current one. -/
theorem principal_token {cfg : Config} {r : Request}
    (h : (a.principal env cfg mono wall r).2 = some .token) :
    Str.lower ((r.headerText "authorization").take 7) = "bearer ".toList ∧
      Str.strip ((r.headerText "authorization").drop 7) = a.token := by
  unfold principal at h
  split at h
  · cases h
  · dsimp only at h
    split at h
    · rename_i hbearer
      split at h
      · rename_i htoken
        exact ⟨hbearer, of_decide_eq_true htoken⟩
      · split at h <;> cases h
    · split at h
      · cases h
      · cases h
      · split at h <;> cases h

/-- The principal of the socket comes from the listener. -/
theorem principal_unix {cfg : Config} {r : Request}
    (h : (a.principal env cfg mono wall r).2 = some .viaUnix) : r.viaUnix = true := by
  unfold principal at h
  split at h
  · assumption
  · dsimp only at h
    split at h
    · split at h
      · cases h
      · split at h <;> cases h
    · split at h
      · cases h
      · cases h
      · split at h <;> cases h

/-- What the middleware lets through to an endpoint that is not public. -/
theorem call_app {cfg : Config} {r : Request} {p : Option Principal}
    (h : (a.call env cfg mono wall r).2 = .app p) (hpath : r.path ∉ publicPaths) :
    ∃ q, p = some q ∧ q ≠ .blocked ∧ (a.principal env cfg mono wall r).2 = some q ∧
      (q = .session → r.path ≠ mcp ∧ (r.isUnsafe = true →
        r.ownOrigin cfg.trustProxy = some (Str.lower (r.headerText "origin")))) := by
  unfold call at h
  dsimp only at h
  have hpublic : (!decide (r.path ∈ publicPaths)) = true := by simpa using hpath
  simp only [hpublic, and_true] at h
  by_cases hmcp : r.path = mcp ∧ (a.principal env cfg mono wall r).2 = some .session
  · simp [hmcp] at h
  rw [if_neg hmcp] at h
  cases hprincipal : (a.principal env cfg mono wall r).2 with
  | none =>
    rw [hprincipal] at h
    simp only [reduceCtorEq, if_false, if_true] at h
    split at h <;> cases h
  | some q =>
    rw [hprincipal] at h
    simp only [reduceCtorEq, if_false, Option.some.injEq] at h
    by_cases hblocked : q = .blocked
    · simp [hblocked] at h
    rw [if_neg hblocked] at h
    have hnotMcp : q = .session → r.path ≠ mcp := by
      rintro rfl hm
      exact hmcp ⟨hm, hprincipal⟩
    split at h
    · rename_i hunsafe
      split at h
      · cases h
      · rename_i origin horigin
        split at h
        · cases h
        · rename_i heq
          cases h
          rw [not_not] at heq
          exact ⟨q, rfl, hblocked, rfl, fun hq => ⟨hnotMcp hq, fun _ => heq ▸ horigin⟩⟩
    · rename_i hsafe
      cases h
      exact ⟨q, rfl, hblocked, rfl, fun hq => ⟨hnotMcp hq, fun hu => absurd ⟨hq, hu⟩ hsafe⟩⟩

/-- A request does not change the credentials. -/
theorem principal_fields {cfg : Config} {r : Request} :
    (a.principal env cfg mono wall r).1.token = a.token ∧
      (a.principal env cfg mono wall r).1.sessionKey = a.sessionKey ∧
      (a.principal env cfg mono wall r).1.links = a.links := by
  have hset : ∀ (b : Auth) (client : Str) (times : List ℚ),
      (b.setFailures client times).token = b.token ∧
        (b.setFailures client times).sessionKey = b.sessionKey ∧
        (b.setFailures client times).links = b.links := by
    intro b client times
    unfold setFailures
    split <;> exact ⟨rfl, rfl, rfl⟩
  have hblocked : ∀ client : Str, (a.blocked mono client).1.token = a.token ∧
      (a.blocked mono client).1.sessionKey = a.sessionKey ∧
      (a.blocked mono client).1.links = a.links := by
    intro client
    unfold blocked
    split
    · exact ⟨rfl, rfl, rfl⟩
    · exact ⟨rfl, rfl, rfl⟩
    · exact hset ..
  unfold principal
  split
  · exact ⟨rfl, rfl, rfl⟩
  · dsimp only
    split
    · split
      · exact ⟨rfl, rfl, rfl⟩
      · split
        · exact hblocked _
        · obtain ⟨htoken, hkey, hlinks⟩ := hblocked (r.clientKey cfg.trustProxy)
          rw [← htoken, ← hkey, ← hlinks]
          unfold failed
          dsimp only
          split <;> exact hset ..
    · split <;> exact ⟨rfl, rfl, rfl⟩

theorem call_fields (env : Env) (a : Auth) (cfg : Config) (mono wall : ℚ) (r : Request) :
    (a.call env cfg mono wall r).1.token = a.token ∧
      (a.call env cfg mono wall r).1.sessionKey = a.sessionKey ∧
      (a.call env cfg mono wall r).1.links = a.links := by
  have hfst : (a.call env cfg mono wall r).1 = (a.principal env cfg mono wall r).1 := by
    unfold call
    dsimp only
    split_ifs
    all_goals first
      | rfl
      | (split
         · rfl
         · split_ifs <;> rfl)
  rw [hfst]
  exact principal_fields

end Auth

end Access

end AndroidAppliance
