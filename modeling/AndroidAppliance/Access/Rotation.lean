import AndroidAppliance.Access.Basic

/-!
# The rotation endpoint

`rotate_token` of `appliance/api.py`: the token, the session key and the login links of
`Auth`, then the secret of `Turn`, with the files of all three. The token and the TURN secret
are replaced in memory before their files are, so a write that fails leaves a rotation that
is neither done nor undone (`rotation_whole`).
-/

namespace AndroidAppliance

namespace Access

/-- The secrets of the daemon in memory and on disk. -/
structure Secrets where
  auth : Auth
  /-- `Turn._secret`. -/
  turnSecret : Str
  disk : Disk

/-- The answer of the endpoint. -/
inductive Reply
  | token (token : Str)
  | forbidden
  /-- The endpoint raised. -/
  | error
  deriving DecidableEq, Repr

namespace Secrets

/-- `Turn.rotate` up to its restart of turnserver; false when it raises. -/
def rotateTurn (fails : SecretFile → Bool) (secret : Str) (s : Secrets) : Secrets × Bool :=
  let s := { s with turnSecret := secret }
  match s.disk.writeSecret fails .turnSecret secret with
  | none => (s, false)
  | some disk => ({ s with disk }, true)

/-- `rotate_token`, with the values that it draws. -/
def rotateToken (fails : SecretFile → Bool) (p : Option Principal) (token key secret : Str)
    (s : Secrets) : Secrets × Reply :=
  if p ≠ some .viaUnix then (s, .forbidden)
  else
    let r := s.auth.rotate fails token key s.disk
    let s := { s with auth := r.1, disk := r.2.1 }
    if r.2.2 then
      let r := s.rotateTurn fails secret
      (r.1, if r.2 then .token token else .error)
    else (s, .error)

/-- Everything is replaced, in memory and on disk. -/
structure Replaced (token key secret : Str) (s s' : Secrets) : Prop where
  auth : s'.auth = { s.auth with token, sessionKey := key, links := fun _ => none }
  turnSecret : s'.turnSecret = secret
  disk : s'.disk = { apiToken := token, sessionKey := key, turnSecret := secret }

/-- All or nothing: a request that is answered with the token has replaced everything, and
one that is not has left everything as it was. -/
def Whole (token key secret : Str) (s : Secrets) (r : Secrets × Reply) : Prop :=
  match r.2 with
  | .token t => t = token ∧ s.Replaced token key secret r.1
  | .forbidden | .error => r.1 = s

/-- The values that are drawn are new. -/
def Fresh (token key secret : Str) (s : Secrets) : Prop :=
  token ≠ s.auth.token ∧ key ≠ s.auth.sessionKey ∧ secret ≠ s.turnSecret

variable {s : Secrets} {fails : SecretFile → Bool} {p : Option Principal}
  {token key secret : Str}

/-- A rotation without a failing write. -/
theorem rotateToken_ok (s : Secrets) (token key secret : Str)
    (hp : p = some .viaUnix) (h : ∀ f, fails f = false) :
    (s.rotateToken fails p token key secret).2 = .token token ∧
      s.Replaced token key secret (s.rotateToken fails p token key secret).1 := by
  obtain rfl : fails = fun _ => false := funext h
  subst hp
  exact ⟨rfl, rfl, rfl, rfl⟩

/-- Wherever the first failing write is, the rotation raises, and the new token is in
memory. -/
theorem rotateToken_fails (s : Secrets) (token key secret : Str)
    (hp : p = some .viaUnix) {f : SecretFile} (h : fails f = true) :
    (s.rotateToken fails p token key secret).2 = .error ∧
      (s.rotateToken fails p token key secret).1.auth.token = token := by
  subst hp
  simp only [rotateToken, ne_eq, not_true_eq_false, if_false]
  cases htoken : fails .apiToken with
  | true => simp [Auth.rotate, Disk.writeSecret, htoken]
  | false =>
    cases hkey : fails .sessionKey with
    | true => simp [Auth.rotate, Disk.writeSecret, htoken, hkey]
    | false =>
      have hturn : fails .turnSecret = true := by
        cases f with
        | apiToken => rw [h] at htoken; cases htoken
        | sessionKey => rw [h] at hkey; cases hkey
        | turnSecret => exact h
      simp [Auth.rotate, rotateTurn, Disk.writeSecret, htoken, hkey, hturn]

/-- **A rotation is all or nothing when no secret write fails**, or when it is refused; and,
as far as the values that it draws are new, in no other case. -/
theorem rotation_whole (s : Secrets) (fails : SecretFile → Bool) (p : Option Principal)
    (token key secret : Str) :
    ((p = some .viaUnix → ∀ f, fails f = false) →
      s.Whole token key secret (s.rotateToken fails p token key secret)) ∧
    (s.Fresh token key secret →
      s.Whole token key secret (s.rotateToken fails p token key secret) →
        p = some .viaUnix → ∀ f, fails f = false) := by
  refine ⟨fun h => ?_, fun hfresh hwhole hp f => ?_⟩
  · by_cases hp : p = some .viaUnix
    · obtain ⟨hreply, hreplaced⟩ := rotateToken_ok s token key secret hp (h hp)
      unfold Whole
      rw [hreply]
      exact ⟨rfl, hreplaced⟩
    · simp [Whole, rotateToken, hp]
  · by_contra hf
    rw [Bool.not_eq_false] at hf
    obtain ⟨hreply, htoken⟩ := rotateToken_fails s token key secret hp hf
    unfold Whole at hwhole
    rw [hreply] at hwhole
    rw [hwhole] at htoken
    exact hfresh.1 htoken.symm

/-- The secrets of a daemon that has just made them. -/
def sample : Secrets :=
  { auth := { token := "tok0".toList, sessionKey := "key0".toList, links := fun _ => none,
              failures := [] }
    turnSecret := "turn0".toList
    disk := { apiToken := "tok0".toList, sessionKey := "key0".toList,
              turnSecret := "turn0".toList } }

theorem rotation_whole_sample : sample.Whole "tok1".toList "key1".toList "turn1".toList
    (sample.rotateToken (fun _ => false) (some .viaUnix) "tok1".toList "key1".toList
      "turn1".toList) :=
  (rotation_whole sample (fun _ => false) (some .viaUnix) "tok1".toList "key1".toList
    "turn1".toList).1 fun _ _ => rfl

/-- The file of the token cannot be written: the endpoint raises, and the old token does not
work any more, while the disk has no other. -/
theorem rotation_half : ¬ ∀ (s : Secrets) (fails : SecretFile → Bool) (token key secret : Str),
    s.Whole token key secret (s.rotateToken fails (some .viaUnix) token key secret) := by
  intro hall
  have hwhole := hall sample (· = .apiToken) "tok1".toList "key1".toList "turn1".toList
  have hkeeps : ((sample.rotateToken (· = .apiToken) (some .viaUnix) "tok1".toList
      "key1".toList "turn1".toList).1.auth.checkToken "tok0".toList) = true := by
    have heq : (sample.rotateToken (· = .apiToken) (some .viaUnix) "tok1".toList
        "key1".toList "turn1".toList).1 = sample := hwhole
    rw [heq]
    rfl
  have hrefused : ((sample.rotateToken (· = .apiToken) (some .viaUnix) "tok1".toList
      "key1".toList "turn1".toList).1.auth.checkToken "tok0".toList) = false := by decide
  rw [hrefused] at hkeeps
  cases hkeeps

end Secrets

end Access

end AndroidAppliance
