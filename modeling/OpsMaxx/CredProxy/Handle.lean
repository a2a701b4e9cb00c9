import OpsMaxx.CredProxy.Rules
import OpsMaxx.Sidecar.Encoding

/-! # One request through the credential proxy

Authentication, the target, the rule, the credential, and the request that goes out.
-/

set_option autoImplicit false

namespace OpsMaxx.CredProxy

open OpsMaxx.Strings OpsMaxx.Sidecar

/-! ## Tokens -/

structure CredProxyToken where
  id : Text
  expiresAt : Option Text
  revokedAt : Option Text
  deriving DecidableEq

inductive TokenState where
  | active
  | expired
  | revoked
  deriving DecidableEq, Repr

/-- `parse` is `Date.parse`, without a value for a date it cannot read. -/
def credProxyTokenState (parse : Text → Option Int) (t : CredProxyToken) (now : Int) :
    TokenState :=
  if t.revokedAt ≠ none then .revoked
  else
    match t.expiresAt with
    | none => .active
    | some date =>
      match parse date with
      | none => .expired
      | some expiry => if expiry ≤ now then .expired else .active

def credProxyTokenUsable (parse : Text → Option Int) (t : CredProxyToken) (now : Int) : Bool :=
  credProxyTokenState parse t now = .active

inductive CredProxyOutcome where
  | forwarded
  | notATarget
  | unsupportedScheme
  | noRule
  | ruleDisabled
  | unauthenticated
  | tokenExpired
  | tokenRevoked
  | notLoopback
  | vaultLocked
  | credentialMissing
  | upstreamFailed
  deriving DecidableEq, Repr

/-- The token matched so far, and one more token of the list. -/
def matchHolder (presented : Text) (secretOf : Text → Option Text)
    (matched : Option CredProxyToken) (t : CredProxyToken) : Option CredProxyToken :=
  match secretOf t.id with
  | none => matched
  | some secret => if secret ≠ [] ∧ presented = secret then some t else matched

/-- The last token whose secret is the presented value. -/
def holderOf (presented : Text) (tokens : List CredProxyToken) (secretOf : Text → Option Text) :
    Option CredProxyToken :=
  tokens.foldl (matchHolder presented secretOf) none

def matchToken (parse : Text → Option Int) (presented : Text) (tokens : List CredProxyToken)
    (secretOf : Text → Option Text) (now : Int) : Except CredProxyOutcome CredProxyToken :=
  if presented = [] then .error .unauthenticated
  else
    match holderOf presented tokens secretOf with
    | none => .error .unauthenticated
    | some t =>
      if credProxyTokenUsable parse t now then .ok t
      else if credProxyTokenState parse t now = .revoked then .error .tokenRevoked
      else .error .tokenExpired

/-! ## Requests -/

inductive HeaderValue where
  | one (v : Text)
  | many (vs : List Text)
  deriving DecidableEq

/-- A request as the listener hands it on: header names are in lower case and not repeated; the
body is what is read of it, unless it is larger than the proxy buffers. -/
structure Request where
  remoteAddress : Option Text
  method : Text
  url : Text
  headers : List (Text × HeaderValue)
  body : Option Bytes
  deriving DecidableEq

def isAddressByte (t : Text) : Bool := t.all Char.isDigit && 1 ≤ t.length && t.length ≤ 3

def isLoopbackAddress (addr : Option Text) : Bool :=
  match addr with
  | none => false
  | some addr =>
    let a := if "::ffff:".toList <+: addr then addr.drop 7 else addr
    if a = "::1".toList then true
    else
      match a.splitOn '.' with
      | [first, b, c, d] =>
        first = "127".toList && isAddressByte b && isAddressByte c && isAddressByte d
      | _ => false

def headerOf (headers : List (Text × HeaderValue)) (name : Text) : Option HeaderValue :=
  (headers.find? fun h => h.1 = name).map Prod.snd

def presentedToken (req : Request) : Text :=
  match headerOf req.headers CRED_PROXY_TOKEN_HEADER with
  | some (.one v) => v
  | some (.many vs) => vs.headD []
  | none => []

/-! ## Outbound headers -/

abbrev Headers : Type := List (Text × Text)

def isHttpSpace (c : Char) : Bool := c.toNat ∈ [9, 10, 13, 32]

/-- A value without the white space around it. -/
def normaliseValue (v : Text) : Text := (v.dropWhile isHttpSpace).rdropWhile isHttpSpace

def isFieldValue (v : Text) : Bool := v.all fun c => c.toNat ≤ 255 && c.toNat ∉ [0, 10, 13]

/-- A header set: in the place of the one of its name, or behind the others. -/
def putHeader (hs : Headers) (name value : Text) : Headers :=
  if hs.any fun h => h.1 = name then hs.map fun h => if h.1 = name then (name, value) else h
  else hs ++ [(name, value)]

/-- `headers.set`, which throws on what is no header. -/
def setHeader (hs : Headers) (name value : Text) : Option Headers :=
  let value := normaliseValue value
  if isHeaderName name && isFieldValue value then some (putHeader hs (lower name) value) else none

def HeaderValue.joined : HeaderValue → Text
  | .one v => v
  | .many vs => List.intercalate ", ".toList vs

/-- The headers copied so far, and one more of the caller's: not one that ends at this hop. -/
def copyHeader (hs : Headers) (h : Text × HeaderValue) : Option Headers :=
  if lower h.1 ∈ HOP_BY_HOP_HEADERS then some hs else setHeader hs h.1 h.2.joined

def copyHeaders (headers : List (Text × HeaderValue)) : Option Headers :=
  headers.foldlM copyHeader []

structure Outbound where
  url : Url
  method : Text
  headers : Headers
  body : Option Bytes
  deriving DecidableEq

def utf8 (t : Text) : Bytes := (String.ofList t).toByteArray.data.toList

def AUTHORIZATION : Text := "authorization".toList

/-- The credential put where the rule has it. -/
def inject (inj : CredProxyInjection) (secret : Text) (o : Outbound) : Option Outbound :=
  match inj.kind with
  | .bearer =>
    (setHeader o.headers AUTHORIZATION ("Bearer ".toList ++ secret)).map fun hs =>
      { o with headers := hs }
  | .basic =>
    (setHeader o.headers AUTHORIZATION
      ("Basic ".toList ++ base64Encode (utf8 (inj.name ++ ':' :: secret)))).map fun hs =>
      { o with headers := hs }
  | .header => (setHeader o.headers inj.name secret).map fun hs => { o with headers := hs }
  | .query => some { o with url := o.url.setParam inj.name secret }

/-! ## The handler -/

inductive CredentialResolution where
  | ok (value : Text)
  | vaultLocked
  | credentialMissing
  deriving DecidableEq

structure Response where
  status : Nat
  headers : Headers
  cookies : List Text
  location : Option Text
  /-- What `arrayBuffer` gives, unless it fails. -/
  payload : Option Bytes
  deriving DecidableEq

structure Deps where
  now : Int
  dateParse : Text → Option Int
  tokens : List CredProxyToken
  tokenSecret : Text → Option Text
  resolveCredential : CredProxyCredentialRef → CredentialResolution
  /-- The upstream's answer, unless the call fails. -/
  fetch : Outbound → Option Response

structure Proxy where
  rules : List CredProxyRule
  parked : Option (CredProxyOutcome × Nat)
  deriving DecidableEq

/-- The audit's row of a call. -/
structure CredProxyCall where
  method : Text
  origin : Text
  path : Text
  rule : Option (Text × Text)
  outcome : CredProxyOutcome
  status : Option Nat
  deriving DecidableEq

inductive Answer where
  | refused (reason : CredProxyOutcome) (status : Nat)
  | forwarded (status : Nat) (headers : Headers) (cookies : List Text) (payload : Bytes)
  | threw
  deriving DecidableEq

structure Handled where
  proxy : Proxy
  used : Option Text
  fetched : List Outbound
  answer : Answer
  call : Option CredProxyCall
  deriving DecidableEq

def REFUSAL_STATUS : CredProxyOutcome → Nat
  | .notATarget | .unsupportedScheme => 400
  | .noRule | .ruleDisabled | .notLoopback => 403
  | .unauthenticated | .tokenExpired | .tokenRevoked => 401
  | .vaultLocked | .credentialMissing => 409
  | .upstreamFailed => 502
  | .forwarded => 200

def refusal (reason : CredProxyOutcome) : Answer := .refused reason (REFUSAL_STATUS reason)

def upper (name : Text) : Text := name.map Char.toUpper

/-- What the proxy's own header says of a forwarded answer. -/
def proxyHeader (api : UrlApi) (origin : Text) (r : Response) : Text :=
  let elsewhere :=
    if 300 ≤ r.status ∧ r.status < 400 then
      match r.location.bind fun l => api.resolve l origin with
      | some named => named ≠ origin
      | none => false
    else false
  if elsewhere then "redirect-not-followed".toList else "forwarded".toList

def answerHeaders (api : UrlApi) (origin : Text) (r : Response) : Headers :=
  putHeader ((r.headers.filter fun h =>
    lower h.1 ∉ HOP_BY_HOP_HEADERS && lower h.1 ≠ "set-cookie".toList))
    "x-opsmaxx-proxy".toList (proxyHeader api origin r)

/-- A call that was parked for a reason, one more than before if the reason is the same. -/
def park (parked : Option (CredProxyOutcome × Nat)) (reason : CredProxyOutcome) :
    Option (CredProxyOutcome × Nat) :=
  match parked with
  | some (r, n) => if r = reason then some (reason, n + 1) else some (reason, 1)
  | none => some (reason, 1)

section Handler

variable (api : UrlApi) (d : Deps)

def bodyless (method : Text) : Bool := method = "GET".toList || method = "HEAD".toList

/-- The body that is read: none of a request that has none. -/
def bodyOf (req : Request) : Option Bytes :=
  if bodyless (upper req.method) then none else req.body

def callOf (req : Request) (target : ProxyTarget) (rule : CredProxyRule)
    (outcome : CredProxyOutcome) (status : Option Nat) : Option CredProxyCall :=
  some ⟨upper req.method, target.origin, target.url.pathname, some (rule.id, rule.name), outcome,
    status⟩

/-- The request is sent, and the upstream's answer handed back. -/
def send (p : Proxy) (req : Request) (target : ProxyTarget) (rule : CredProxyRule) (used : Text)
    (o : Outbound) : Handled :=
  match d.fetch o with
  | none =>
    ⟨p, some used, [o], refusal .upstreamFailed, callOf req target rule .upstreamFailed none⟩
  | some r =>
    match r.payload with
    | none => ⟨p, some used, [o], .threw, none⟩
    | some payload =>
      ⟨p, some used, [o],
        .forwarded r.status (answerHeaders api target.origin r) r.cookies payload,
        callOf req target rule .forwarded (some r.status)⟩

/-- From the rule's credential on: the body is read, the request is made and sent. -/
def forward (p : Proxy) (req : Request) (target : ProxyTarget) (rule : CredProxyRule)
    (secret : Text) (used : Text) : Handled :=
  if !bodyless (upper req.method) && req.body.isNone then
    ⟨p, some used, [], refusal .upstreamFailed, callOf req target rule .upstreamFailed none⟩
  else
    match api.parse (api.href target.url), copyHeaders req.headers with
    | some url, some headers =>
      match inject rule.injection secret ⟨url, upper req.method, headers, bodyOf req⟩ with
      | none => ⟨p, some used, [], .threw, none⟩
      | some o => send api d p req target rule used o
    | _, _ => ⟨p, some used, [], .threw, none⟩

/-- From an authenticated caller on. -/
def route (p : Proxy) (req : Request) (used : Text) : Handled :=
  let method := upper req.method
  match parseProxyTarget api req.url with
  | .error e =>
    let reason := match e with
      | .notATarget => CredProxyOutcome.notATarget
      | .unsupportedScheme => .unsupportedScheme
    ⟨p, some used, [], refusal reason, some ⟨method, [], [], none, reason, none⟩⟩
  | .ok target =>
    let refused := fun p rule reason =>
      (⟨p, some used, [], refusal reason,
        some ⟨method, target.origin, target.url.pathname, rule, reason, none⟩⟩ : Handled)
    match matchRule api p.rules target.origin with
    | none => refused p none .noRule
    | some rule =>
      if rule.enabled = false then refused p (some (rule.id, rule.name)) .ruleDisabled
      else
        match d.resolveCredential rule.credential with
        | .ok secret => forward api d { p with parked := none } req target rule secret used
        | .vaultLocked =>
          refused { p with parked := park p.parked .vaultLocked } (some (rule.id, rule.name))
            .vaultLocked
        | .credentialMissing =>
          refused { p with parked := park p.parked .credentialMissing }
            (some (rule.id, rule.name)) .credentialMissing

def handle (p : Proxy) (req : Request) : Handled :=
  let method := upper req.method
  let refused := fun reason =>
    (⟨p, none, [], refusal reason, some ⟨method, [], [], none, reason, none⟩⟩ : Handled)
  if isLoopbackAddress req.remoteAddress = false then refused .notLoopback
  else
    match matchToken d.dateParse (presentedToken req) d.tokens d.tokenSecret d.now with
    | .error reason => refused reason
    | .ok token => route api d p req token.id

end Handler

/-- A proxy opened on what was in its file. -/
def openProxy (api : UrlApi) (file : Json) : Proxy := ⟨sanitiseRules api (file.get? "rules"), none⟩

end OpsMaxx.CredProxy
