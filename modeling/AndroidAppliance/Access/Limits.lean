import AndroidAppliance.Access.Failures
import AndroidAppliance.Access.Revocation

/-!
# The limit of wrong tokens

The middleware and the login form keep the table of failures in step with the log, so `blocked`
counts the failures of the window, and the limit is the one of `Log.between_le`.
-/

namespace AndroidAppliance

namespace Access

open Attempt (isFailureOf)

/-! ### The two places -/

namespace Auth

variable {env : Env} {cfg : Config} {a : Auth} {mono wall : ℚ} {r : Request}

/-- What a request does to the failures. -/
theorem call_fst : (a.call env cfg mono wall r).1 = (a.principal env cfg mono wall r).1 := by
  unfold call
  dsimp only
  repeat' split
  all_goals rfl

/-- The token of the header `Authorization`. -/
theorem bearer_eq : r.bearer =
    if r.viaUnix = false ∧ Str.lower ((r.headerText "authorization").take 7) = "bearer ".toList then
      some (Str.strip ((r.headerText "authorization").drop 7))
    else none := by
  simp only [Request.bearer, Bool.not_eq_true']

/-- A token in the header decides alone. -/
theorem principal_of_bearer (env : Env) (cfg : Config) (a : Auth) (mono wall : ℚ) {token : Str}
    (hbearer : r.bearer = some token) :
    a.checkToken token = true ∧ a.principal env cfg mono wall r = (a, some .token) ∨
    a.checkToken token = false ∧
      a.refuse mono (r.clientKey cfg.trustProxy) = ((a.principal env cfg mono wall r).1,
        Gate.answerOf (a.principal env cfg mono wall r).2) := by
  rw [bearer_eq] at hbearer
  split at hbearer
  · rename_i hin
    cases hbearer
    have hunix : ¬r.viaUnix = true := Bool.not_eq_true _ ▸ hin.1
    unfold principal
    rw [if_neg hunix, if_pos hin.2]
    cases htoken : a.checkToken (Str.strip ((r.headerText "authorization").drop 7)) with
    | true => exact .inl ⟨rfl, rfl⟩
    | false =>
      -- a wrong token: `principal` refuses as a login does
      refine .inr ⟨rfl, ?_⟩
      rw [if_neg Bool.false_ne_true]
      unfold refuse
      dsimp only
      cases (a.blocked mono (r.clientKey cfg.trustProxy)).2
      · rfl
      · rfl
  · cases hbearer

/-- Without one the failures stay. -/
theorem principal_of_not_bearer (hbearer : r.bearer = none) :
    (a.principal env cfg mono wall r).1 = a := by
  rw [bearer_eq] at hbearer
  unfold principal
  split
  · rfl
  · rename_i hunix
    have hheader : ¬Str.lower ((r.headerText "authorization").take 7) = "bearer ".toList := by
      intro hin
      rw [if_pos ⟨Bool.eq_false_iff.mpr hunix, hin⟩] at hbearer
      cases hbearer
    rw [if_neg hheader]
    split
    · rfl
    · rfl
    · rfl

/-- What a login does: it is accepted, refused before its token counts, or refused for it. -/
theorem login_cases (cfg : Config) (a : Auth) (mono : ℚ) (r : Request) (body : Body) :
    (a.login cfg mono r body).1 = a ∧ (a.checkToken (formToken body.flatten) = true ∧
        (a.login cfg mono r body).2 = .accepted ∨
      ((a.login cfg mono r body).2 = .crossOrigin ∨ (a.login cfg mono r body).2 = .raised) ∧
        (r.crossOrigin cfg.trustProxy ≠ some false ∨ r.ownOrigin cfg.trustProxy = none) ∨
      (a.login cfg mono r body).2 = .tooLong ∧ loginLimit < body.flatten.length) ∨
    a.checkToken (formToken body.flatten) = false ∧
      a.refuse mono (r.clientKey cfg.trustProxy) = a.login cfg mono r body := by
  unfold login
  split
  · rename_i horigin
    exact .inl ⟨rfl, .inr (.inl ⟨.inr rfl, .inl (by simp [horigin])⟩)⟩
  · rename_i horigin
    exact .inl ⟨rfl, .inr (.inl ⟨.inl rfl, .inl (by simp [horigin])⟩)⟩
  · by_cases hlong : loginLimit < body.flatten.length
    · rw [AndroidAppliance.Request.read_of_length_gt (Nat.zero_le _) hlong]
      exact .inl ⟨rfl, .inr (.inr ⟨rfl, hlong⟩)⟩
    · rw [AndroidAppliance.Request.read_of_length_le [] (Nat.not_lt.mp hlong), List.nil_append]
      dsimp only
      cases htoken : a.checkToken (formToken body.flatten) with
      | true =>
        rw [if_pos rfl]
        cases hown : r.ownOrigin cfg.trustProxy with
        | none => exact .inl ⟨rfl, .inr (.inl ⟨.inr rfl, .inr rfl⟩)⟩
        | some own => exact .inl ⟨rfl, .inl ⟨rfl, rfl⟩⟩
      | false =>
        refine .inr ⟨rfl, ?_⟩
        rw [if_neg Bool.false_ne_true]
        rfl

end Auth

/-! ### The machine -/

variable {env : Env} {cfg : Config}

/-- The invariant of the gate. -/
structure Gate.Ok (cfg : Config) (g : Gate) : Prop where
  order : InOrder g.world.mono g.log
  tracks : Tracks g.world.auth g.world.mono g.log
  fair : Log.Each (Attempt.Fair cfg) g.log
  limited : ∀ c, Log.Each
    (Log.Limited Attempt.time (isFailureOf c) Attempt.forgets failureWindow maxFailures) g.log

namespace Gate

variable {g g' : Gate} {x : Attempt}

/-- An attempt with the right token, or a login that is refused before its token counts. -/
theorem Ok.pass (h : g.Ok cfg) (htime : x.time = g.world.mono)
    (hanswer : x.answer ≠ .failed ∧ x.answer ≠ .blocked) (hforgets : x.forgets = false)
    (hright : x.answer = .accepted ∧ x.right = true ∨
      x.answer ≠ .accepted ∧ (x.Misplaced cfg.trustProxy ∨ x.TooLong)) :
    Ok cfg { g with log := g.log ++ [x] } := by
  have hfailure : x.isFailure = false := decide_eq_false hanswer.1
  refine ⟨h.order.concat htime, h.tracks.other hfailure hforgets, h.fair.concat ?_,
    fun c => (h.limited c).concat fun hcount => ?_⟩
  · refine ⟨fun hblocked => absurd hblocked hanswer.2, fun _ => hright.imp And.left And.right,
      fun hwrong => ?_, fun hforgets' => absurd (hforgets.symm.trans hforgets') Bool.false_ne_true⟩
    rcases hright with ⟨-, htrue⟩ | ⟨hne, -⟩
    · cases htrue.symm.trans hwrong
    · exact hne
  · rw [isFailureOf, hfailure] at hcount
    simp at hcount

/-- An attempt with a wrong token. -/
theorem Ok.refuse {auth : Auth} (h : g.Ok cfg) (htime : x.time = g.world.mono)
    (hrefuse : g.world.auth.refuse g.world.mono x.client = (auth, x.answer))
    (hforgets : x.forgets = (decide (x.answer = .failed) && g.world.auth.full))
    (hwrong : x.right = false) :
    Ok cfg { world := { g.world with auth }, log := g.log ++ [x] } := by
  have hwindow := h.tracks.length_window h.order x.client
  have hnone : x.right = true → x.answer = .accepted ∨ x.Misplaced cfg.trustProxy ∨ x.TooLong :=
    fun hright => absurd (hwrong.symm.trans hright) Bool.false_ne_true
  unfold Auth.refuse at hrefuse
  dsimp only at hrefuse
  split at hrefuse
  · -- blocked: the table is only looked at
    rename_i hblocked
    obtain ⟨rfl, hanswer⟩ := Prod.mk.inj hrefuse
    have hfailure : x.isFailure = false := decide_eq_false (by rw [← hanswer]; decide)
    have hforgets' : x.forgets = false := by
      rw [hforgets, ← hanswer]
      rfl
    have hmany := Auth.blocked_iff.mp hblocked
    rw [hwindow] at hmany
    have htracks := (h.tracks.blocked x.client).other hfailure hforgets'
    refine ⟨h.order.concat htime, htracks, h.fair.concat ?_,
      fun c => (h.limited c).concat fun hcount => ?_⟩
    · refine ⟨fun _ => ?_, hnone, fun _ => by rw [← hanswer]; decide, fun hin =>
        absurd (hforgets'.symm.trans hin) Bool.false_ne_true⟩
      rw [htime]
      exact hmany.trans (Log.since_sublist.countP_le)
    · rw [isFailureOf, hfailure] at hcount
      simp at hcount
  · -- a failure: fewer than the limit are in the window
    rename_i hblocked
    obtain ⟨rfl, hanswer⟩ := Prod.mk.inj hrefuse
    have hfailure : x.isFailure = true := decide_eq_true hanswer.symm
    have hfull : x.forgets = g.world.auth.full := by
      rw [hforgets, ← hanswer]
      rfl
    have hfew : ¬maxFailures ≤ _ := fun hmany => hblocked (Auth.blocked_iff.mpr hmany)
    have hshort : ((g.world.auth.blocked g.world.mono x.client).1.timesOf x.client).length <
        maxFailures := by
      rw [Auth.timesOf_blocked h.tracks.nodup, if_pos rfl]
      exact not_le.mp hfew
    have htracks := (h.tracks.blocked x.client).failed hshort hfailure rfl htime
      (by rw [hfull, Auth.blocked_table.2])
    refine ⟨h.order.concat htime, htracks, h.fair.concat ?_, fun c =>
      (h.limited c).concat fun hcount _ => ?_⟩
    · refine ⟨fun hin => ?_, hnone, fun _ => by rw [← hanswer]; decide, fun hin => ?_⟩
      · cases hanswer.trans hin
      · rw [hfull] at hin
        exact (of_decide_eq_true hin).trans_le h.tracks.length_clients
    · obtain ⟨-, hclient⟩ := of_decide_eq_true hcount
      rw [htime, ← hclient, ← hwindow]
      exact not_le.mp hfew

/-- A use of the credentials that is no attempt. -/
theorem Ok.wait {world : World} (h : g.Ok cfg) (hmono : g.world.mono ≤ world.mono)
    (hfailures : world.auth.failures = g.world.auth.failures) : Ok cfg { g with world } :=
  ⟨h.order.wait hmono, (h.tracks.wait hmono).congr hfailures, h.fair, h.limited⟩

/-- `rotate_token` keeps the failures. -/
theorem rotate_failures (a : Auth) (d : Disk) (fails : SecretFile → Bool) (token key : Str) :
    (a.rotate fails token key d).1.failures = a.failures := by
  unfold Auth.rotate
  dsimp only
  split
  · rfl
  · split
    · rfl
    · rfl

/-- A request, with a bearer header or without. -/
theorem Ok.request (h : g.Ok cfg) (r : Request) :
    Ok cfg { world := { g.world with auth := (g.world.call env cfg r).1 },
             log := g.log ++ (g.bearerAttempt env cfg r).toList } := by
  rw [World.call, Auth.call_fst]
  cases hbearer : r.bearer with
  | none =>
    rw [Auth.principal_of_not_bearer hbearer, bearerAttempt, hbearer]
    simpa using h
  | some token =>
    rw [bearerAttempt, hbearer]
    rcases Auth.principal_of_bearer env cfg g.world.auth g.world.mono g.world.wall hbearer with
      ⟨hright, hprincipal⟩ | ⟨hwrong, hrefuse⟩
    · rw [hprincipal]
      exact h.pass rfl ⟨fun h => (by cases h), fun h => (by cases h)⟩ rfl (.inl ⟨rfl, hright⟩)
    · exact h.refuse rfl hrefuse rfl hwrong

/-- A login. -/
theorem Ok.login (h : g.Ok cfg) (r : Request) (body : Body) :
    Ok cfg { world := { g.world with auth := (g.world.auth.login cfg g.world.mono r body).1 },
             log := g.log ++ [g.attempt cfg r (some body) (formToken body.flatten)
               (g.world.auth.login cfg g.world.mono r body).2] } := by
  rcases Auth.login_cases cfg g.world.auth g.world.mono r body with
    ⟨hauth, hcase⟩ | ⟨hwrong, hrefuse⟩
  · rw [hauth]
    rcases hcase with ⟨hright, hanswer⟩ | ⟨hanswer | hanswer, horigin⟩ | ⟨hanswer, hlong⟩
    · rw [hanswer]
      exact h.pass rfl ⟨fun h => (by cases h), fun h => (by cases h)⟩ rfl (.inl ⟨rfl, hright⟩)
    · rw [hanswer]
      exact h.pass rfl ⟨fun h => (by cases h), fun h => (by cases h)⟩ rfl
        (.inr ⟨fun h => (by cases h), .inl ⟨rfl, horigin⟩⟩)
    · rw [hanswer]
      exact h.pass rfl ⟨fun h => (by cases h), fun h => (by cases h)⟩ rfl
        (.inr ⟨fun h => (by cases h), .inl ⟨rfl, horigin⟩⟩)
    · rw [hanswer]
      exact h.pass rfl ⟨fun h => (by cases h), fun h => (by cases h)⟩ rfl
        (.inr ⟨fun h => (by cases h), .inr ⟨body, rfl, hlong⟩⟩)
  · exact h.refuse rfl hrefuse rfl hwrong

/-- **One step** keeps the invariant. -/
theorem Ok.step (h : g.Ok cfg) {e : Event} (hstep : g.step env cfg e = some g') : g'.Ok cfg := by
  cases e with
  | login r body =>
    cases hstep
    exact h.login r body
  | use e =>
    obtain ⟨world, hworld, rfl⟩ := Option.map_eq_some_iff.mp hstep
    cases e with
    | request r =>
      cases hworld
      exact h.request r
    | loginLink code =>
      cases hworld
      exact h.wait le_rfl rfl
    | useLoginCode code =>
      cases hworld
      exact h.wait le_rfl rfl
    | newSession nonce =>
      cases hworld
      exact h.wait le_rfl rfl
    | rotate fails token key =>
      cases hworld
      exact h.wait le_rfl (rotate_failures ..)
    | clock mono wall =>
      rw [World.step] at hworld
      split at hworld
      · cases hworld
        exact h.wait ‹_› rfl
      · cases hworld

/-- The invariant holds in every reachable state. -/
theorem Ok.reachable (h : (gateMachine env cfg).Reachable g) : g.Ok cfg := by
  refine Machine.ReachBy.invariant ?_ (fun g e g' hok _ hstep => hok.step hstep) h
  rintro g ⟨hworld, hlog⟩
  obtain ⟨-, -, hfailures, -⟩ := hworld
  have hclients : g.world.auth.clients = [] := by rw [Auth.clients, hfailures]; rfl
  refine ⟨⟨hlog ▸ List.Pairwise.nil, fun e he => ?_⟩, ⟨hclients ▸ List.nodup_nil, fun c hc => ?_,
    fun c => ⟨[], ?_, fun t ht => absurd ht List.not_mem_nil⟩⟩, hlog ▸ Log.Each.nil,
    fun c => hlog ▸ Log.Each.nil⟩
  · rw [hlog] at he
    exact absurd he List.not_mem_nil
  · rw [hclients] at hc
    exact absurd hc List.not_mem_nil
  · rw [hlog, Auth.timesOf, Auth.failuresOf, hfailures]
    rfl

end Gate

namespace Gate

/-- A request with a wrong token. -/
def guess (client : Str) : Request where
  kind := .http "GET".toList
  viaUnix := false
  path := "/api/v1/status".toList
  headers := [("authorization".toList, "Bearer wrong".toList)]
  scheme := some "http".toList
  client := some client

/-- A new daemon, and nothing was asked for yet. -/
def fresh : Gate := { world := World.new, log := [] }

theorem fresh_initial : (gateMachine World.sampleEnv World.sampleConfig).Init fresh :=
  ⟨⟨by decide, rfl, rfl, rfl, rfl, rfl⟩, rfl⟩

end Gate

/-- **The limit of wrong tokens.** In every run, each attempt is answered fairly, and a client
fails at most `maxFailures` times in any window of `failureWindow` seconds, and as often again
for each time that all failures were forgotten in it. -/
theorem wrong_tokens_limited {g : Gate} (hreach : (gateMachine env cfg).Reachable g) :
    (∀ client t, Log.between Attempt.time (isFailureOf client) t (t + failureWindow) g.log ≤
      maxFailures * (1 + Log.between Attempt.time Attempt.forgets t (t + failureWindow) g.log)) ∧
    Log.Each (Attempt.Fair cfg) g.log := by
  have hok := Gate.Ok.reachable hreach
  refine ⟨fun client t => ?_, hok.fair⟩
  exact Log.between_le (by decide) hok.order.sorted (hok.limited client) t

/-- A client that guesses six times. -/
theorem wrong_tokens_limited_guesses : ∃ g,
    (gateMachine World.sampleEnv World.sampleConfig).run Gate.fresh
      (List.replicate 6 (.use (.request (Gate.guess "10.0.0.9".toList)))) = some g ∧
    g.log.map Attempt.answer = [.failed, .failed, .failed, .failed, .failed, .blocked] ∧
    Log.Each (Attempt.Fair World.sampleConfig) g.log := by
  have hrun : ((gateMachine World.sampleEnv World.sampleConfig).run Gate.fresh
      (List.replicate 6 (.use (.request (Gate.guess "10.0.0.9".toList))))).map
        (fun g => g.log.map Attempt.answer) =
      some [.failed, .failed, .failed, .failed, .failed, .blocked] := by decide +kernel
  obtain ⟨g, hg, hanswers⟩ := Option.map_eq_some_iff.mp hrun
  have hreach := Machine.Reachable.of_run (.init Gate.fresh_initial) hg
  exact ⟨g, hg, hanswers, (wrong_tokens_limited hreach).2⟩

/-! ### Failures that are forgotten -/

namespace Gate

/-- The addresses of many clients. -/
def address (i : Nat) : Str := "10.0.".toList ++ (Str.ofNat (i / 250) ++ '.' :: Str.ofNat (i % 250))

/-- Each number has an address of its own. -/
theorem address_injective : Function.Injective address := by
  intro i j h
  have hsep : ∀ n, '.' ∉ Str.ofNat n := fun n hmem => by
    have hdigit := Str.ofNat_digit hmem
    cases hdigit
  obtain ⟨hdiv, hmod⟩ := Str.append_sep_inj (hsep _) (hsep _) (List.append_cancel_left h)
  have hdiv' := congrArg Str.int hdiv
  have hmod' := congrArg Str.int hmod
  rw [Str.int_ofNat, Str.int_ofNat] at hdiv' hmod'
  rw [← Nat.div_add_mod i 250, ← Nat.div_add_mod j 250, hdiv', hmod']

/-- The client at `address 0` has failed as often as it may, and then `n` others once each. -/
structure Crowd (n : Nat) (g : Gate) : Prop where
  reachable : (gateMachine World.sampleEnv World.sampleConfig).Reachable g
  token : g.world.auth.token = "tok0".toList
  mono : g.world.mono = 0
  clients : g.world.auth.clients = (List.range (n + 1)).map address
  failures : maxFailures ≤
    Log.between Attempt.time (isFailureOf (address 0)) 0 (0 + failureWindow) g.log

/-- A client that is not in the table has no entry. -/
theorem failuresOf_of_not_mem {a : Auth} {client : Str} (h : client ∉ a.clients) :
    a.failuresOf client = none := by
  rw [Auth.failuresOf, List.lookup_eq_none_iff]
  intro f hf
  have hne : client ≠ f.1 := fun heq => h (heq ▸ List.mem_map_of_mem hf)
  simpa using hne

/-- A client that is not in the table fails. -/
theorem step_guess {g : Gate} {client : Str} (htoken : g.world.auth.token = "tok0".toList)
    (hnew : client ∉ g.world.auth.clients) : ∃ g' x,
      (gateMachine World.sampleEnv World.sampleConfig).step g (.use (.request (guess client))) =
        some g' ∧
      g'.world = { g.world with auth := g.world.auth.failed g.world.mono client } ∧
      g'.log = g.log ++ [x] ∧ isFailureOf client x = true ∧ x.time = g.world.mono := by
  have hbearer : (guess client).bearer = some "wrong".toList := rfl
  have hwrong : g.world.auth.checkToken "wrong".toList = false := by
    rw [Auth.checkToken, htoken]
    decide
  have hrefuse : g.world.auth.refuse g.world.mono client =
      (g.world.auth.failed g.world.mono client, .failed) := by
    rw [Auth.refuse, Auth.blocked, failuresOf_of_not_mem hnew]
    rfl
  -- nothing is known of the client, so it is not blocked
  rcases Auth.principal_of_bearer World.sampleEnv World.sampleConfig g.world.auth g.world.mono
    g.world.wall hbearer with ⟨hright, -⟩ | ⟨-, hprincipal⟩
  · cases hwrong.symm.trans hright
  · have hkey : (guess client).clientKey World.sampleConfig.trustProxy = client := rfl
    rw [hkey, hrefuse] at hprincipal
    obtain ⟨hfst, hsnd⟩ := Prod.mk.inj hprincipal
    refine ⟨_, g.attempt World.sampleConfig (guess client) none "wrong".toList .failed, rfl, ?_, ?_,
      ?_, rfl⟩
    · rw [World.call, Auth.call_fst, ← hfst]
    · change g.log ++ (g.bearerAttempt World.sampleEnv World.sampleConfig (guess client)).toList = _
      rw [Gate.bearerAttempt, hbearer, Option.map_some, ← hsnd]
      rfl
    · simp [isFailureOf, Attempt.isFailure, attempt, hkey]

/-- The first client. -/
theorem crowd_zero : ∃ g, Crowd 0 g := by
  have hrun : ((gateMachine World.sampleEnv World.sampleConfig).run fresh
      (List.replicate 5 (.use (.request (guess (address 0)))))).map (fun g =>
        (g.world.auth.token, g.world.mono, g.world.auth.clients,
          Log.between Attempt.time (isFailureOf (address 0)) 0 (0 + failureWindow) g.log)) =
      some ("tok0".toList, 0, [address 0], 5) := by decide +kernel
  obtain ⟨g, hg, hend⟩ := Option.map_eq_some_iff.mp hrun
  simp only [Prod.mk.injEq] at hend
  obtain ⟨htoken, hmono, hclients, hfailures⟩ := hend
  exact ⟨g, .of_run (.init fresh_initial) hg, htoken, hmono, hclients, hfailures.ge⟩

/-- The next client is not in the table. -/
theorem Crowd.address_notMem {n : Nat} {g : Gate} (h : Crowd n g) :
    address (n + 1) ∉ g.world.auth.clients := by
  rw [h.clients]
  intro hmem
  obtain ⟨i, hi, heq⟩ := List.mem_map.mp hmem
  have hlt := List.mem_range.mp hi
  have hinj := address_injective heq
  omega

/-- One more client fails, and is counted. -/
theorem Crowd.next {n : Nat} {g : Gate} (h : Crowd n g) (hn : n < 10000) :
    ∃ g', Crowd (n + 1) g' := by
  obtain ⟨g', x, hstep, hworld, hlog, -, -⟩ := step_guess h.token h.address_notMem
  have hlen := congrArg List.length h.clients
  rw [Auth.clients, List.length_map, List.length_map, List.length_range] at hlen
  -- there is still room in the table
  have hfull : ¬10000 < g.world.auth.failures.length := by omega
  refine ⟨g', h.reachable.step hstep, ?_, ?_, ?_, ?_⟩
  · rw [hworld, ← h.token, Auth.failed, if_neg hfull, Auth.setFailures]
    split
    · rfl
    · rfl
  · rw [hworld]
    exact h.mono
  · rw [hworld]
    change (g.world.auth.failed g.world.mono (address (n + 1))).clients = _
    have hrange : List.range (n + 1 + 1) = List.range (n + 1) ++ [n + 1] := List.range_succ
    rw [Auth.failed, if_neg hfull, Auth.clients_setFailures_of_not_mem h.address_notMem, h.clients,
      hrange, List.map_append, List.map_singleton]
  · rw [hlog, Log.between_concat]
    exact h.failures.trans (Nat.le_add_right _ _)

/-- As many clients as the table holds can fail. -/
theorem crowd (n : Nat) (hn : n ≤ 10000) : ∃ g, Crowd n g := by
  induction n with
  | zero => exact crowd_zero
  | succ n ih =>
    obtain ⟨g, hg⟩ := ih (Nat.le_of_succ_le hn)
    exact hg.next hn

/-- A login with the right token, from a page of another site. -/
def crossLogin : Request where
  kind := .http "POST".toList
  viaUnix := false
  path := "/login".toList
  headers := [("host".toList, "phone.lan:6090".toList),
    ("origin".toList, "http://other.lan".toList)]
  scheme := some "http".toList
  client := some "10.0.0.9".toList

/-- The form of a login with the right token. -/
def rightForm : List UInt8 := Utf8.encode "token=tok0".toList

/-- The same from the page of the daemon, with a long field behind it. -/
def longBody : Body := [rightForm, Utf8.encode "&pad=".toList, List.replicate 4096 0x61]

/-- A login from the page of the daemon. -/
def ownLogin : Request :=
  { crossLogin with headers := [("host".toList, "phone.lan:6090".toList)] }

end Gate

/-- A client fails once more than it may within the window, because a crowd of others makes
the daemon forget; and a login with the right token is refused for its origin, and for the
length of its body. -/
theorem failures_forgotten :
    (∃ g client, (gateMachine World.sampleEnv World.sampleConfig).Reachable g ∧ maxFailures <
      Log.between Attempt.time (isFailureOf client) 0 (0 + failureWindow) g.log) ∧
    ∃ g, (gateMachine World.sampleEnv World.sampleConfig).Reachable g ∧
      g.log.map (fun e => (e.right, e.answer)) = [(true, .crossOrigin), (true, .tooLong)] := by
  constructor
  · obtain ⟨g, hg⟩ := Gate.crowd 10000 le_rfl
    obtain ⟨g₁, x, hstep, hworld, hlog, -, -⟩ := Gate.step_guess hg.token hg.address_notMem
    have hlen := congrArg List.length hg.clients
    rw [Auth.clients, List.length_map, List.length_map, List.length_range] at hlen
    -- one more client than the table may have, so the next failure empties it
    have hfull : 10000 < g.world.auth.failures.length := by omega
    have htoken : g₁.world.auth.token = "tok0".toList := by
      rw [hworld, ← hg.token, Auth.failed, if_pos hfull]
      rfl
    have hnew : Gate.address 0 ∉ g₁.world.auth.clients := by
      rw [hworld]
      change Gate.address 0 ∉ (g.world.auth.failed g.world.mono (Gate.address (10000 + 1))).clients
      rw [Auth.mem_clients_failed_full (decide_eq_true hfull)]
      intro heq
      have hinj := Gate.address_injective heq
      omega
    obtain ⟨g₂, y, hstep', -, hlog', hfailure, htime⟩ := Gate.step_guess htoken hnew
    refine ⟨g₂, Gate.address 0, (hg.reachable.step hstep).step hstep', ?_⟩
    have hmono : g₁.world.mono = 0 := by
      rw [hworld]
      exact hg.mono
    have hin : isFailureOf (Gate.address 0) y = true ∧ 0 ≤ y.time ∧ y.time ≤ 0 + failureWindow := by
      rw [htime, hmono]
      exact ⟨hfailure, le_rfl, by decide +kernel⟩
    have hfive := hg.failures
    rw [hlog', hlog, Log.between_concat, Log.between_concat, if_pos hin]
    omega
  · have hrun : ((gateMachine World.sampleEnv World.sampleConfig).run Gate.fresh
        [.login Gate.crossLogin [Gate.rightForm], .login Gate.ownLogin Gate.longBody]).map
          (fun g => g.log.map fun e => (e.right, e.answer)) =
        some [(true, .crossOrigin), (true, .tooLong)] := by decide +kernel
    obtain ⟨g, hg, hend⟩ := Option.map_eq_some_iff.mp hrun
    exact ⟨g, .of_run (.init Gate.fresh_initial) hg, hend⟩

end Access

end AndroidAppliance
