import AndroidAppliance.Access.Middleware

/-!
# The codec of a session cookie

`new_session` and `check_session` of `appliance/auth.py` once more, now with every call that can
raise: `int`, which refuses digits such as `²` that `isdigit` accepts and texts that are too
long. The order of the tests keeps these from it.

The mac is any function whose values are hexadecimal. So a cookie is a payload and its mac, and
there is no second text for the same payload.
-/

namespace AndroidAppliance

namespace Access

namespace Cookie

/-! ### `appliance/auth.py` -/

/-- What a method of `str` can raise. -/
inductive Raised
  | valueError
  deriving DecidableEq, Repr

/-- `s.isascii()`. -/
def isascii (s : Str) : Bool := s.all fun c => c.toNat < 128

/-- `s.isdigit()`, of Latin-1. -/
def isdigit (s : Str) : Bool :=
  !s.isEmpty && s.all fun c => c.isDigit || c = '²' || c = '³' || c = '¹'

/-- `int(s)` of a text that `isdigit` accepts: other digits and more than 4300 of them are
refused. -/
def int (s : Str) : Except Raised Nat :=
  if s.isDigits ∧ s.length ≤ 4300 then .ok s.int else .error .valueError

section

variable (mac : Str → Str)

/-- `new_session`, at a reading of the clock and with what `token_urlsafe` gives. -/
def newSession (wall : ℚ) (nonce : Str) : Str :=
  Auth.payload wall nonce ++ '.' :: mac (Auth.payload wall nonce)

/-- `check_session`. -/
def checkSession (wall : ℚ) (value : Str) : Except Raised Bool :=
  let expiry := (value.partition '.').1
  let rest := (value.partition '.').2.2
  let nonce := (Str.partition '.' rest).1
  let sent := (Str.partition '.' rest).2.2
  if !(isascii expiry && isdigit expiry && expiry.length ≤ 12) || nonce.isEmpty then .ok false
  else do
    let limit ← int expiry
    if limit < wall then .ok false else .ok (sent = mac (expiry ++ '.' :: nonce))

/-- A payload with its mac, as `new_session` writes it, whose time is not over. -/
def Valid (wall : ℚ) (value : Str) : Prop :=
  ∃ e n : Str, value = (e ++ '.' :: n) ++ '.' :: mac (e ++ '.' :: n) ∧
    (e.isDigits = true ∧ e.length ≤ 12) ∧ wall ≤ e.int ∧ n ≠ [] ∧ '.' ∉ n

end

/-- The first two fields of a cookie. -/
def payloadOf (value : Str) : Str :=
  (value.partition '.').1 ++ '.' :: (Str.partition '.' (value.partition '.').2.2).1

/-- `[0-9a-f]+`. -/
def IsHex (s : Str) : Prop := s ≠ [] ∧ ∀ c ∈ s, c.isDigit = true ∨ ('a' ≤ c ∧ c ≤ 'f')

/-! ### The fields -/

variable {mac : Str → Str} {wall : ℚ} {value e n : Str}

theorem isDigits_of_isdigit (hascii : isascii e = true) (hdigit : isdigit e = true) :
    e.isDigits = true := by
  simp only [isascii, isdigit, Str.isDigits, Bool.and_eq_true, List.all_eq_true,
    decide_eq_true_eq, Bool.or_eq_true] at *
  refine ⟨hdigit.1, fun c hc => ?_⟩
  -- the superscript digits are not ASCII
  rcases hdigit.2 c hc with ((h | rfl) | rfl) | rfl
  · exact h
  · exact absurd (hascii _ hc) (by decide)
  · exact absurd (hascii _ hc) (by decide)
  · exact absurd (hascii _ hc) (by decide)

theorem isdigit_of_isDigits (h : e.isDigits = true) : isascii e = true ∧ isdigit e = true := by
  simp only [isascii, isdigit, Str.isDigits, Bool.and_eq_true, List.all_eq_true,
    decide_eq_true_eq, Bool.or_eq_true] at *
  refine ⟨fun c hc => ?_, h.1, fun c hc => .inl (.inl (.inl (h.2 c hc)))⟩
  have hle := (Str.digit_toNat (h.2 c hc)).2
  omega

theorem dot_not_mem (h : e.isDigits = true) : '.' ∉ e := by
  intro hmem
  simp only [Str.isDigits, Bool.and_eq_true, List.all_eq_true] at h
  exact absurd (h.2 _ hmem) (by decide)

theorem IsHex.dot_not_mem (h : IsHex e) : '.' ∉ e := by
  intro hmem
  rcases h.2 _ hmem with hdigit | ⟨hlow, -⟩
  · exact absurd hdigit (by decide)
  · exact absurd hlow (by decide)

/-- The fields of a text with two dots. -/
theorem fields (he : '.' ∉ e) (hn : '.' ∉ n) (m : Str) :
    Str.partition '.' ((e ++ '.' :: n) ++ '.' :: m) = (e, ['.'], n ++ '.' :: m) ∧
      Str.partition '.' (n ++ '.' :: m) = (n, ['.'], m) := by
  rw [List.append_assoc, List.cons_append]
  exact ⟨Str.partition_sep he, Str.partition_sep hn⟩

/-! ### `check_session` -/

/-- What is tested of the fields. -/
def Passes (mac : Str → Str) (wall : ℚ) (expiry nonce sent : Str) : Prop :=
  (expiry.isDigits = true ∧ expiry.length ≤ 12) ∧ nonce ≠ [] ∧ wall ≤ expiry.int ∧
    sent = mac (expiry ++ '.' :: nonce)

instance (mac : Str → Str) (wall : ℚ) (expiry nonce sent : Str) :
    Decidable (Passes mac wall expiry nonce sent) :=
  inferInstanceAs (Decidable (_ ∧ _ ∧ _ ∧ _))

/-- It raises nothing, and tests the fields. -/
theorem checkSession_eq (mac : Str → Str) (wall : ℚ) (value : Str) :
    checkSession mac wall value = .ok (decide (Passes mac wall (value.partition '.').1
      (Str.partition '.' (value.partition '.').2.2).1
      (Str.partition '.' (value.partition '.').2.2).2.2)) := by
  have hdigits : ∀ e : Str, (isascii e && isdigit e) = e.isDigits := by
    intro e
    rw [Bool.eq_iff_iff, Bool.and_eq_true]
    exact ⟨fun h => isDigits_of_isdigit h.1 h.2, isdigit_of_isDigits⟩
  simp only [checkSession, hdigits]
  split_ifs with hno
  · -- refused before `int` is reached
    congr 1
    symm
    rw [decide_eq_false_iff_not]
    rintro ⟨⟨hdig, hlen⟩, hnonce, -, -⟩
    simp [hdig, hlen, hnonce] at hno
  · simp only [Bool.or_eq_true, Bool.not_eq_true', Bool.and_eq_false_iff, decide_eq_false_iff_not,
      not_or, Bool.not_eq_false, not_not, List.isEmpty_iff] at hno
    obtain ⟨⟨hdig, hlen⟩, hnonce⟩ := hno
    have hint : int (value.partition '.').1 = .ok (value.partition '.').1.int :=
      if_pos ⟨hdig, by omega⟩
    rw [hint]
    simp only [Bind.bind, Except.bind, Passes, hdig, hlen, hnonce, ne_eq, not_false_eq_true,
      true_and]
    split_ifs with hwall
    · simp [not_le.mpr hwall]
    · simp [not_lt.mp hwall]

/-- The fields of a text that passes. -/
theorem passes_iff (hmac : ∀ p, IsHex (mac p)) : Passes mac wall (value.partition '.').1
      (Str.partition '.' (value.partition '.').2.2).1
      (Str.partition '.' (value.partition '.').2.2).2.2 ↔ Valid mac wall value := by
  constructor
  · rintro ⟨hdig, hnonce, hwall, hsent⟩
    obtain ⟨-, hv⟩ := Str.partition_spec '.' value
    obtain ⟨hdot, hrest⟩ := Str.partition_spec '.' (value.partition '.').2.2
    refine ⟨_, _, ?_, hdig, hwall, hnonce, hdot⟩
    -- both separators are there: neither the nonce nor a mac is empty
    rcases hv with hv | ⟨-, hnil⟩
    · rcases hrest with hrest | ⟨-, hnil⟩
      · rw [← hsent]
        conv_lhs => rw [hv, hrest]
        simp
      · rw [hnil] at hsent
        exact absurd hsent.symm (hmac _).1
    · rw [hnil] at hnonce
      exact absurd rfl hnonce
  · rintro ⟨e, n, rfl, hdig, hwall, hnonce, hdot⟩
    obtain ⟨hv, hrest⟩ := fields (dot_not_mem hdig.1) hdot (mac (e ++ '.' :: n))
    simp only [hv, hrest]
    exact ⟨hdig, hnonce, hwall, rfl⟩

theorem payloadOf_valid (h : Valid mac wall value) :
    value = payloadOf value ++ '.' :: mac (payloadOf value) := by
  obtain ⟨e, n, rfl, hdig, -, -, hdot⟩ := h
  obtain ⟨hv, hrest⟩ := fields (dot_not_mem hdig.1) hdot (mac (e ++ '.' :: n))
  simp only [payloadOf, hv, hrest]

/-- The `Auth` of the other modules says the same. -/
theorem checkSession_auth (env : Env) (a : Auth) (wall : ℚ) (value : Str) :
    checkSession (env.mac a.sessionKey) wall value = .ok (a.checkSession env wall value) := by
  rw [checkSession_eq]
  congr 1
  rw [Bool.eq_iff_iff, decide_eq_true_eq]
  unfold Passes Auth.checkSession
  dsimp only
  split_ifs with hno
  · simp only [Bool.or_eq_true, Bool.not_eq_true', Bool.and_eq_false_iff, decide_eq_true_eq,
      decide_eq_false_iff_not, List.isEmpty_iff] at hno
    refine iff_of_false (fun ⟨⟨hdig, hlen⟩, hnonce, hwall, _⟩ => ?_) (by decide)
    rcases hno with ((hdig' | hlen') | hnonce') | hwall'
    · rw [hdig] at hdig'
      cases hdig'
    · exact hlen' hlen
    · exact hnonce hnonce'
    · exact absurd hwall (not_le.mpr hwall')
  · simp only [Bool.or_eq_true, Bool.not_eq_true', Bool.and_eq_false_iff, decide_eq_true_eq,
      decide_eq_false_iff_not, List.isEmpty_iff, not_or, Bool.not_eq_false, not_not, not_lt] at hno
    simp [hno]

/-! ### `new_session` -/

/-- The time that `new_session` writes. -/
def expiry (made : ℚ) : ℤ := Access.int made + sessionTtl

/-- A number of at most twelve digits. -/
theorem ofInt_fits {m : ℤ} : ((Str.ofInt m).isDigits = true ∧ (Str.ofInt m).length ≤ 12) ↔
    0 ≤ m ∧ m < 1000000000000 := by
  cases m with
  | ofNat m =>
    have hdig := Str.isDigits_ofNat m
    have hlen : (Str.ofNat m).length ≤ 12 ↔ m < 10 ^ 12 :=
      Nat.length_toDigits_le_iff (by decide) (by decide)
    have hpow : (10 : Nat) ^ 12 = 1000000000000 := by norm_num
    rw [hpow] at hlen
    simp only [Str.ofInt, hdig, true_and, hlen, Int.ofNat_eq_natCast, Int.natCast_nonneg]
    omega
  | negSucc m =>
    refine iff_of_false (fun h => ?_) (fun h => absurd h.1 (by omega))
    have hdig := h.1
    simp only [Str.isDigits, Str.ofInt, List.all_cons, Bool.and_eq_true] at hdig
    exact absurd hdig.2.1 (by decide)

/-- A new cookie is accepted until its time, if that has at most twelve digits. -/
theorem checkSession_newSession {made : ℚ} {nonce : Str} (hne : nonce ≠ []) (hdot : '.' ∉ nonce) :
    checkSession mac wall (newSession mac made nonce) =
      .ok (decide ((0 ≤ expiry made ∧ expiry made < 1000000000000) ∧ wall ≤ expiry made)) := by
  have hdot' : '.' ∉ Str.ofInt (expiry made) := Str.not_mem_ofInt (by decide) (by decide)
  obtain ⟨hv, hrest⟩ := fields hdot' hdot (mac (Auth.payload made nonce))
  rw [checkSession_eq]
  congr 1
  have hcookie : newSession mac made nonce = (Str.ofInt (expiry made) ++ '.' :: nonce) ++
      '.' :: mac (Auth.payload made nonce) := rfl
  rw [hcookie, decide_eq_decide]
  simp only [hv, hrest, Passes, ofInt_fits, ne_eq, hne, not_false_eq_true, true_and]
  refine and_congr_right fun hfits => ?_
  have hint : ((Str.ofInt (expiry made)).int : ℤ) = expiry made :=
    Str.int_of_isDigits (ofInt_fits.mpr hfits).1
  have hcast : ((Str.ofInt (expiry made)).int : ℚ) = expiry made := by exact_mod_cast hint
  rw [hcast]
  exact and_iff_left rfl

/-- **The codec.** The check raises nothing and accepts exactly the payloads with their mac whose
time is not over. So a new cookie is accepted until its time if that has at most twelve digits,
and no other text with its payload is. -/
theorem session_codec (hmac : ∀ p, IsHex (mac p)) :
    (∀ wall value, ∃ accepted, checkSession mac wall value = .ok accepted ∧
      (accepted = true ↔ Valid mac wall value)) ∧
    (∀ made wall nonce, nonce ≠ [] → '.' ∉ nonce → 0 ≤ expiry made →
      expiry made < 1000000000000 →
        checkSession mac wall (newSession mac made nonce) = .ok (decide (wall ≤ expiry made))) ∧
    ∀ wall wall' v v', checkSession mac wall v = .ok true → checkSession mac wall' v' = .ok true →
      payloadOf v = payloadOf v' → v = v' := by
  have haccept : ∀ {wall v}, checkSession mac wall v = .ok true → Valid mac wall v := by
    intro wall v h
    rw [checkSession_eq] at h
    exact (passes_iff hmac).mp (of_decide_eq_true (Except.ok.inj h))
  refine ⟨fun wall value => ⟨_, checkSession_eq mac wall value, ?_⟩, ?_, ?_⟩
  · rw [decide_eq_true_eq]
    exact passes_iff hmac
  · intro made wall nonce hne hdot hlow hhigh
    rw [checkSession_newSession hne hdot]
    simp [hlow, hhigh]
  · intro wall wall' v v' h h' hpayload
    rw [payloadOf_valid (haccept h), payloadOf_valid (haccept h'), hpayload]

theorem isHex_zeros : ∀ p : Str, IsHex ((fun _ => List.replicate 64 '0' : Str → Str) p) := by
  have h : IsHex (List.replicate 64 '0') := ⟨by decide, Str.forall_mem_of_all (by decide)⟩
  exact fun _ => h

/-- A cookie, with a mac that is all zeros. -/
theorem session_codec_zeros :
    checkSession (fun _ => List.replicate 64 '0') 0
      (newSession (fun _ => List.replicate 64 '0') 0 ['n']) = .ok true := by
  have h := (session_codec isHex_zeros).2.1 0 0 ['n'] (by decide) (by decide)
    (by decide +kernel) (by decide +kernel)
  rw [h]
  decide +kernel

/-- A cookie that is made late enough has a time of thirteen digits, and is never accepted. -/
theorem session_too_late :
    ¬ ∀ (mac : Str → Str), (∀ p, IsHex (mac p)) → ∀ (made wall : ℚ) (nonce : Str), nonce ≠ [] →
      '.' ∉ nonce → wall ≤ expiry made →
        checkSession mac wall (newSession mac made nonce) = .ok true := by
  intro h
  have hlate := h _ isHex_zeros 1000000000000 1000000000000 ['n'] (by decide) (by decide)
    (by decide +kernel)
  rw [checkSession_newSession (by decide) (by decide)] at hlate
  exact absurd hlate (by decide +kernel)

end Cookie

end Access

end AndroidAppliance
