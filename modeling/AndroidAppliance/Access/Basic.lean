import AndroidAppliance.Text.Str
import AndroidAppliance.Transition.Machine
import Mathlib.Algebra.Order.Floor.Defs
import Mathlib.Data.Rat.Floor

/-!
# Credentials

`Auth` of `appliance/auth.py` and the middleware of `appliance/api.py`: the API token, the
session cookies and the login links, with the files of the secrets. A machine runs the
operations in any order, between requests with any headers, with any subset of the secret
writes failing.

A label carries the random values that the operation draws. The history of a run is kept
beside it, for statements about what was issued before.
-/

namespace AndroidAppliance

namespace Access

/-! ### Secrets -/

/-- The secret files. -/
inductive SecretFile
  | apiToken
  | sessionKey
  | turnSecret
  deriving DecidableEq, Repr

/-- What the files of the secrets hold. -/
structure Disk where
  apiToken : Str
  sessionKey : Str
  turnSecret : Str
  deriving DecidableEq, Repr

/-- `_write_secret`; `none` when it raises. The file is replaced in one step, so a write
that fails leaves it as it is. -/
def Disk.writeSecret (fails : SecretFile → Bool) (d : Disk) (f : SecretFile) (value : Str) :
    Option Disk :=
  if fails f then none
  else match f with
    | .apiToken => some { d with apiToken := value }
    | .sessionKey => some { d with sessionKey := value }
    | .turnSecret => some { d with turnSecret := value }

/-- Code outside the repository. -/
structure Env where
  /-- `hmac.new(key, payload, hashlib.sha256).hexdigest()`. -/
  mac : Str → Str → Str
  mac_length : ∀ key payload, (mac key payload).length = 64
  /-- The cookie parser of Starlette. -/
  cookies : List (Str × Str) → Str → Option Str

/-- The fields of the configuration that are used here. -/
structure Config where
  trustProxy : Bool
  listenAddress : Str
  port : Nat
  deriving DecidableEq, Repr

/-- `Auth`. The time of the end of a login link is on the monotonic clock. -/
structure Auth where
  token : Str
  sessionKey : Str
  links : Str → Option ℚ
  failures : List (Str × List ℚ)

/-- `SESSION_COOKIE`. -/
def sessionCookie : Str := "appliance_session".toList

/-- `SESSION_TTL`. -/
def sessionTtl : Nat := 7 * 24 * 3600

/-- `LINK_TTL`. -/
def linkTtl : ℚ := 120

/-- `MAX_FAILURES`. -/
def maxFailures : Nat := 5

/-- `FAILURE_WINDOW`. -/
def failureWindow : ℚ := 60

/-- `int(x)`. -/
def int (x : ℚ) : ℤ := if 0 ≤ x then ⌊x⌋ else ⌈x⌉

namespace Auth

variable (env : Env)

/-- `check_token`. -/
def checkToken (a : Auth) (value : Str) : Bool := value = a.token

/-- `rotate`, with the token and the key that it draws; false when it raises. -/
def rotate (fails : SecretFile → Bool) (token key : Str) (a : Auth) (d : Disk) :
    Auth × Disk × Bool :=
  let a := { a with token }
  match d.writeSecret fails .apiToken token with
  | none => (a, d, false)
  | some d =>
    match d.writeSecret fails .sessionKey key with
    | none => (a, d, false)
    | some d => ({ a with sessionKey := key, links := fun _ => none }, d, true)

/-- The payload of a cookie. -/
def payload (wall : ℚ) (nonce : Str) : Str :=
  Str.ofInt (int wall + sessionTtl) ++ '.' :: nonce

/-- A payload with its mac. -/
def cookie (key payload : Str) : Str := payload ++ '.' :: env.mac key payload

/-- `new_session`. -/
def newSession (a : Auth) (wall : ℚ) (nonce : Str) : Str :=
  cookie env a.sessionKey (payload wall nonce)

/-- `check_session`. -/
def checkSession (a : Auth) (wall : ℚ) (value : Str) : Bool :=
  let expiry := (value.partition '.').1
  let rest := (value.partition '.').2.2
  let nonce := (rest.partition '.').1
  let mac := (rest.partition '.').2.2
  if !(expiry.isDigits && expiry.length ≤ 12) || nonce.isEmpty || expiry.int < wall then false
  else mac = env.mac a.sessionKey (expiry ++ '.' :: nonce)

/-- The host of a login link. -/
def linkHost (cfg : Config) : Str :=
  if cfg.listenAddress ∈ ["0.0.0.0".toList, "::".toList, []] then "127.0.0.1".toList
  else if ':' ∈ cfg.listenAddress then '[' :: cfg.listenAddress ++ [']']
  else cfg.listenAddress

/-- `login_link`, with the code that it draws. -/
def loginLink (cfg : Config) (a : Auth) (mono : ℚ) (code : Str) : Auth × Str :=
  let links := fun c => (a.links c).filter (mono < ·)
  ({ a with links := Function.update links code (some (mono + linkTtl)) },
    "http://".toList ++ linkHost cfg ++ ':' :: Str.ofNat cfg.port ++ "/login?code=".toList ++ code)

/-- `use_login_code`. -/
def useLoginCode (a : Auth) (mono : ℚ) (code : Str) : Auth × Bool :=
  ({ a with links := Function.update a.links code none }, (a.links code).any (mono < ·))

/-- `self._failures[client]`. -/
def failuresOf (a : Auth) (client : Str) : Option (List ℚ) := a.failures.lookup client

/-- `self._failures[client] = times`. -/
def setFailures (a : Auth) (client : Str) (times : List ℚ) : Auth :=
  if a.failures.any (·.1 = client) then
    { a with failures := a.failures.map fun f => if f.1 = client then (client, times) else f }
  else { a with failures := a.failures ++ [(client, times)] }

/-- `blocked`. -/
def blocked (a : Auth) (mono : ℚ) (client : Str) : Auth × Bool :=
  match a.failuresOf client with
  | none | some [] => (a, false)
  | some times =>
    let times := times.dropWhile (· < mono - failureWindow)
    (a.setFailures client times, maxFailures ≤ times.length)

/-- `failed`. -/
def failed (a : Auth) (mono : ℚ) (client : Str) : Auth :=
  let a := if 10000 < a.failures.length then { a with failures := [] } else a
  let times := (a.failuresOf client).getD [] ++ [mono]
  a.setFailures client (times.drop (times.length - maxFailures))

end Auth

/-! ### The middleware -/

/-- `scope["type"]`, with the method of an HTTP request. -/
inductive Kind
  | http (method : Str)
  | websocket
  deriving DecidableEq, Repr

/-- A request as the middleware reads it. -/
structure Request where
  kind : Kind
  /-- The request came in on the unix socket. -/
  viaUnix : Bool
  path : Str
  /-- The names are in small letters. -/
  headers : List (Str × Str)
  /-- `conn.url.scheme`; `none` when reading it raises. -/
  scheme : Option Str
  /-- `conn.client.host`. -/
  client : Option Str
  deriving DecidableEq, Repr

/-- What the middleware says of the sender. -/
inductive Principal
  | viaUnix
  | token
  | session
  | blocked
  deriving DecidableEq, Repr

/-- What becomes of a request. -/
inductive Outcome
  /-- The application handles it. -/
  | app (p : Option Principal)
  | rateLimited
  | unauthorized
  /-- A redirect to the login page. -/
  | toLogin
  | forbidden
  /-- The middleware raised. -/
  | raised
  deriving DecidableEq, Repr

/-- `MCP`. -/
def mcp : Str := "/mcp".toList

/-- `PUBLIC_PATHS`. -/
def publicPaths : List Str := ["/api/v1/health".toList, "/login".toList, "/app.css".toList]

/-- `SAFE_METHODS`. -/
def safeMethods : List Str := ["GET".toList, "HEAD".toList, "OPTIONS".toList]

namespace Request

/-- `conn.headers.get(name)`. -/
def header (r : Request) (name : String) : Option Str := r.headers.lookup name.toList

/-- `conn.headers.get(name, "")`. -/
def headerText (r : Request) (name : String) : Str := (r.header name).getD []

/-- `_forwarded`. -/
def forwarded (r : Request) (name : String) (trust : Bool) : Option Str :=
  match if trust then r.header name else none with
  | none | some [] => none
  | some value => some (Str.splitLast ',' value).strip

/-- `x or y` of an optional text. -/
def orElse (x : Option Str) (y : Option Str) : Option Str :=
  match x with
  | none | some [] => y
  | some x => some x

/-- `client_key`. -/
def clientKey (r : Request) (trust : Bool) : Str :=
  (orElse (r.forwarded "x-forwarded-for" trust) r.client).getD "unknown".toList

/-- `_host`. -/
def host (r : Request) (trust : Bool) : Str :=
  (orElse (r.forwarded "x-forwarded-host" trust) (r.header "host")).getD []

/-- The scheme of the page for that of a WebSocket. -/
def pageScheme (scheme : Str) : Str :=
  if scheme = "ws".toList then "http".toList
  else if scheme = "wss".toList then "https".toList
  else scheme

/-- `own_origin`; `none` when it raises. -/
def ownOrigin (r : Request) (trust : Bool) : Option Str :=
  (orElse (r.forwarded "x-forwarded-proto" trust) r.scheme).map fun scheme =>
    (pageScheme scheme ++ "://".toList ++ r.host trust).lower

/-- A request that may change state. -/
def isUnsafe (r : Request) : Bool :=
  match r.kind with
  | .websocket => true
  | .http method => method ∉ safeMethods

end Request

namespace Auth

/-- `_principal`. -/
def principal (env : Env) (cfg : Config) (a : Auth) (mono wall : ℚ) (r : Request) :
    Auth × Option Principal :=
  if r.viaUnix then (a, some .viaUnix)
  else
    let authorization := r.headerText "authorization"
    if Str.lower (authorization.take 7) = "bearer ".toList then
      if a.checkToken (Str.strip (authorization.drop 7)) then (a, some .token)
      else
        let client := r.clientKey cfg.trustProxy
        let b := a.blocked mono client
        if b.2 then (b.1, some .blocked) else (b.1.failed mono client, none)
    else match env.cookies r.headers sessionCookie with
      | none | some [] => (a, none)
      | some cookie => (a, if a.checkSession env wall cookie then some .session else none)

/-- `__call__`. -/
def call (env : Env) (cfg : Config) (a : Auth) (mono wall : ℚ) (r : Request) : Auth × Outcome :=
  let p := a.principal env cfg mono wall r
  let principal := if r.path = mcp ∧ p.2 = some .session then none else p.2
  let isPublic : Bool := r.path ∈ publicPaths
  if principal = some .blocked ∧ !isPublic then (p.1, .rateLimited)
  else if principal = none ∧ !isPublic then
    if "/api/".toList.isPrefixOf r.path ∨ r.path = mcp then (p.1, .unauthorized)
    else (p.1, .toLogin)
  else if principal = some .session ∧ r.isUnsafe then
    match r.ownOrigin cfg.trustProxy with
    | none => (p.1, .raised)
    | some origin =>
      if (r.headerText "origin").lower ≠ origin then (p.1, .forbidden)
      else (p.1, .app principal)
  else (p.1, .app principal)

end Auth

/-! ### The machine -/

/-- A login link that was made. -/
structure Link where
  code : Str
  time : ℚ
  /-- The number of rotations before it. -/
  epoch : Nat
  deriving DecidableEq, Repr

/-- A cookie that was made. -/
structure Signed where
  key : Str
  /-- Its time limit on the wall clock. -/
  expiry : ℤ
  nonce : Str
  deriving DecidableEq, Repr

/-- The payload that was signed. -/
def Signed.payload (g : Signed) : Str := Str.ofInt g.expiry ++ '.' :: g.nonce

/-- What happened in a run. -/
structure History where
  /-- The random values, the first token and key included. -/
  drawn : List Str
  /-- The tokens that the daemon has had. -/
  tokens : List Str
  links : List Link
  /-- The login codes that were accepted. -/
  accepted : List Str
  signed : List Signed
  /-- The rotations that returned. -/
  epoch : Nat
  deriving DecidableEq, Repr

/-- The credentials of the daemon, its secret files and the clocks. -/
structure World where
  auth : Auth
  disk : Disk
  mono : ℚ
  wall : ℚ
  hist : History

/-- The labels. -/
inductive Event
  | loginLink (code : Str)
  | useLoginCode (code : Str)
  | newSession (nonce : Str)
  | rotate (fails : SecretFile → Bool) (token key : Str)
  | request (r : Request)
  /-- Time passes; the wall clock can be set. -/
  | clock (mono wall : ℚ)

/-- The random values that a step draws. -/
def Event.draws : Event → List Str
  | .loginLink code => [code]
  | .newSession nonce => [nonce]
  | .rotate _ token key => [token, key]
  | .useLoginCode _ | .request _ | .clock _ _ => []

namespace World

variable (env : Env) (cfg : Config)

/-- A rotation, and whether it returned. The key counts as drawn also where the write of the
token fails before it is. -/
def rotate (w : World) (fails : SecretFile → Bool) (token key : Str) : World × Bool :=
  let r := w.auth.rotate fails token key w.disk
  ({ w with
      auth := r.1
      disk := r.2.1
      hist := { w.hist with
        drawn := w.hist.drawn ++ [token, key]
        tokens := w.hist.tokens ++ [token]
        epoch := if r.2.2 then w.hist.epoch + 1 else w.hist.epoch } }, r.2.2)

/-- The middleware on a request. -/
def call (w : World) (r : Request) : Auth × Outcome := w.auth.call env cfg w.mono w.wall r

/-- One step. -/
def step (w : World) : Event → Option World
  | .loginLink code =>
    some { w with
      auth := (w.auth.loginLink cfg w.mono code).1
      hist := { w.hist with
        drawn := w.hist.drawn ++ [code]
        links := w.hist.links ++ [{ code, time := w.mono, epoch := w.hist.epoch }] } }
  | .useLoginCode code =>
    let r := w.auth.useLoginCode w.mono code
    some { w with
      auth := r.1
      hist := { w.hist with
        accepted := if r.2 then w.hist.accepted ++ [code] else w.hist.accepted } }
  | .newSession nonce =>
    some { w with
      hist := { w.hist with
        drawn := w.hist.drawn ++ [nonce]
        signed := w.hist.signed ++
          [{ key := w.auth.sessionKey, expiry := int w.wall + sessionTtl, nonce }] } }
  | .rotate fails token key => some (w.rotate fails token key).1
  | .request r => some { w with auth := (w.call env cfg r).1 }
  | .clock mono wall => if w.mono ≤ mono then some { w with mono, wall } else none

/-- The daemon has just read or made its secrets. -/
def Initial (w : World) : Prop :=
  w.auth.token ≠ w.auth.sessionKey ∧ w.auth.links = (fun _ => none) ∧ w.auth.failures = [] ∧
    w.disk.apiToken = w.auth.token ∧ w.disk.sessionKey = w.auth.sessionKey ∧
    w.hist = { drawn := [w.auth.token, w.auth.sessionKey], tokens := [w.auth.token], links := [],
               accepted := [], signed := [], epoch := 0 }

/-- The random values are new and distinct, and a request with the mac of a payload under
the session key has it from a cookie. -/
def Honest (w : World) (e : Event) : Prop :=
  (∀ v ∈ e.draws, v ∉ w.hist.drawn) ∧ e.draws.Nodup ∧
    ∀ r, e = .request r → ∀ v, env.cookies r.headers sessionCookie = some v → ∀ p,
      v = Auth.cookie env w.auth.sessionKey p →
        ∃ g ∈ w.hist.signed, g.key = w.auth.sessionKey ∧ g.payload = p

end World

/-- The machine of the credentials. -/
def authMachine (env : Env) (cfg : Config) : Machine World Event where
  Init := World.Initial
  step := World.step env cfg

end Access

end AndroidAppliance
