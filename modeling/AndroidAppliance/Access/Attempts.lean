import AndroidAppliance.Access.Basic
import AndroidAppliance.Request.Validators
import AndroidAppliance.Text.Query
import AndroidAppliance.Transition.Window

/-!
# Attempts at the token

The two places where a client can try the API token: the middleware, from the header of any
request, and `Api.login` of `appliance/api.py`, from the login form. A machine runs them between
all other uses of the credentials, and keeps a log of the attempts.

`Auth.failed` forgets all failures of all clients when it counts more than 10000 clients. The log
says which attempt did so: `wrong_tokens_limited` and `failures_forgotten`.
-/

namespace AndroidAppliance

namespace Access

/-! ### The login form -/

/-- What becomes of an attempt. -/
inductive Answer
  | accepted
  | failed
  | blocked
  /-- "Cross-origin login refused." -/
  | crossOrigin
  /-- "the request body exceeds 4096 bytes" -/
  | tooLong
  /-- The origin of the daemon cannot be read. -/
  | raised
  deriving DecidableEq, Repr

/-- The body of a request, in chunks. -/
abbrev Body := List (List UInt8)

/-- The pairs of `urllib.parse.parse_qs`, which leaves out the blank values. -/
def parseQs (query : Str) : List (Str × Str) :=
  ((query.splitOn '&').filter fun field => !(Str.partition '=' field).2.2.isEmpty).map fun field =>
    (Query.unquote (Query.spaces (Str.partition '=' field).1),
      Query.unquote (Query.spaces (Str.partition '=' field).2.2))

/-- `form.get("token", [""])[0].strip()` of the form in the bytes. -/
def formToken (data : List UInt8) : Str :=
  Str.strip ((List.lookup "token".toList (parseQs (Utf8.decode data))).getD [])

/-- The limit that `login` gives to `_read`. -/
def loginLimit : Nat := 4096

/-- Whether a login is refused for its origin; `none` when the check raises. -/
def Request.crossOrigin (r : Request) (trust : Bool) : Option Bool :=
  match r.header "origin" with
  | none => some false
  | some origin => (r.ownOrigin trust).map fun own => decide (origin.lower ≠ own)

/-- The token of an `Authorization` header, if that is a bearer header. -/
def Request.bearer (r : Request) : Option Str :=
  let authorization := r.headerText "authorization"
  if !r.viaUnix ∧ Str.lower (authorization.take 7) = "bearer ".toList then
    some (Str.strip (authorization.drop 7))
  else none

namespace Auth

/-- Whether `failed` forgets all failures first. -/
def full (a : Auth) : Bool := 10000 < a.failures.length

/-- `login`. The cookie of an accepted login is a `newSession` of its own; with it the response
reads the origin of the daemon. -/
def login (cfg : Config) (a : Auth) (mono : ℚ) (r : Request) (body : Body) : Auth × Answer :=
  match r.crossOrigin cfg.trustProxy with
  | none => (a, .raised)
  | some true => (a, .crossOrigin)
  | some false =>
    match AndroidAppliance.Request.read loginLimit [] body with
    | .error _ => (a, .tooLong)
    | .ok data =>
      if a.checkToken (formToken data) then
        if (r.ownOrigin cfg.trustProxy).isSome then (a, .accepted) else (a, .raised)
      else
        let client := r.clientKey cfg.trustProxy
        let b := a.blocked mono client
        if b.2 then (b.1, .blocked) else (b.1.failed mono client, .failed)

end Auth

/-! ### The log -/

/-- An attempt, with what became of it. -/
structure Attempt where
  request : Request
  /-- The body of a login. -/
  body : Option Body
  client : Str
  time : ℚ
  /-- The token is the right one. -/
  right : Bool
  answer : Answer
  /-- All failures were forgotten before this one was recorded. -/
  forgets : Bool
  deriving DecidableEq, Repr

namespace Attempt

/-- A failure. -/
def isFailure (e : Attempt) : Bool := e.answer = .failed

/-- A failure of one client. -/
def isFailureOf (client : Str) (e : Attempt) : Bool := e.isFailure ∧ e.client = client

/-- A login that names another origin, or to which the daemon cannot name its own. -/
def Misplaced (trust : Bool) (e : Attempt) : Prop :=
  e.body.isSome ∧ (e.request.crossOrigin trust ≠ some false ∨ e.request.ownOrigin trust = none)

/-- A login with a body over the limit. -/
def TooLong (e : Attempt) : Prop := ∃ body, e.body = some body ∧ loginLimit < body.flatten.length

end Attempt

/-- The credentials, and the attempts so far. -/
structure Gate where
  world : World
  log : List Attempt

namespace Gate

/-- The labels: a use of the credentials, or a login. -/
inductive Event
  | use (e : Access.Event)
  | login (r : Request) (body : Body)

variable (env : Env) (cfg : Config) (g : Gate)

/-- What the middleware makes of a bearer header. -/
def answerOf : Option Principal → Answer
  | some .blocked => .blocked
  | none => .failed
  | some .viaUnix | some .token | some .session => .accepted

/-- An attempt that is made now. -/
def attempt (r : Request) (body : Option Body) (token : Str) (answer : Answer) : Attempt where
  request := r
  body := body
  client := r.clientKey cfg.trustProxy
  time := g.world.mono
  right := g.world.auth.checkToken token
  answer := answer
  forgets := answer = .failed && g.world.auth.full

/-- The attempt of a request. -/
def bearerAttempt (r : Request) : Option Attempt :=
  r.bearer.map fun token =>
    attempt cfg g r none token
      (answerOf (g.world.auth.principal env cfg g.world.mono g.world.wall r).2)

/-- One step. -/
def step : Event → Option Gate
  | .use e => (g.world.step env cfg e).map fun world =>
      match e with
      | .request r => { world, log := g.log ++ (bearerAttempt env cfg g r).toList }
      | _ => { world, log := g.log }
  | .login r body =>
    let l := g.world.auth.login cfg g.world.mono r body
    some { world := { g.world with auth := l.1 },
           log := g.log ++ [attempt cfg g r (some body) (formToken body.flatten) l.2] }

end Gate

/-- The machine of the attempts. -/
def gateMachine (env : Env) (cfg : Config) : Machine Gate Gate.Event where
  Init g := g.world.Initial ∧ g.log = []
  step := Gate.step env cfg

/-! ### What a limit is to do -/

/-- What holds of an attempt after those before it: it is blocked only for failures of its own
client; the right token, and no other, is accepted, but for a misplaced login and one that is too
long; and failures are forgotten only after those of more than 10000 clients. -/
structure Attempt.Fair (cfg : Config) (before : List Attempt) (e : Attempt) : Prop where
  blocked : e.answer = .blocked → maxFailures ≤
    Log.between Attempt.time (isFailureOf e.client) (e.time - failureWindow) e.time before
  right : e.right = true → e.answer = .accepted ∨ e.Misplaced cfg.trustProxy ∨ e.TooLong
  wrong : e.right = false → e.answer ≠ .accepted
  forgets : e.forgets = true → 10000 <
    (((Log.since Attempt.forgets before).filter isFailure).map Attempt.client).dedup.length

end Access

end AndroidAppliance
