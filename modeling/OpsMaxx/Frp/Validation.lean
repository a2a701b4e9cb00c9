import OpsMaxx.Frp.Config

/-!
# What a frpc profile may say

`validateFrpSpec` collects what is wrong with a spec, each with the path of the field it is about. A
spec without an error may be started.
-/

set_option autoImplicit false

namespace OpsMaxx.Frp

open OpsMaxx.Strings (Text trim isSpace)

/-! ## Shapes -/

def isNameChar (c : Char) : Bool := c.isAlphanum || c = '.' || c = '_' || c = '-'

def PROXY_NAME (name : Text) : Bool :=
  match name with
  | [] => false
  | c :: cs => c.isAlphanum && cs.all isNameChar && cs.length ≤ 63

def HOSTISH (host : Text) : Bool :=
  host ≠ [] && host.all fun c => c.isAlphanum || "._:[]-".toList.contains c

def DOMAIN (domain : Text) : Bool :=
  domain ≠ [] && domain.all fun c => c.isAlphanum || "*._-".toList.contains c

def PROXY_URL (url : Text) : Bool :=
  ["http://", "https://", "socks5://", "ntlm://"].any fun scheme =>
    scheme.toList.isPrefixOf url && url.drop scheme.toList.length ≠ [] &&
      (url.drop scheme.toList.length).all fun c => !isSpace c

def TRANSPORT_PROTOCOLS : List String := ["tcp", "kcp", "quic", "websocket", "wss"]

def PROXY_TYPES : List String := ["tcp", "udp", "http", "https", "stcp", "sudp", "xtcp", "tcpmux"]

def VISITOR_TYPES : List String := ["stcp", "sudp", "xtcp"]

def ALLOWED_PLUGINS : List String := ["socks5", "http_proxy"]

def REQUIRES_REMOTE_PORT : List String := ["tcp", "udp"]

def REQUIRES_DOMAIN : List String := ["http", "https"]

/-- A number without a fraction, between two bounds. -/
def isInteger (lo hi : Int) : Json → Bool
  | .num n => n.places = 0 && lo ≤ n.mantissa && n.mantissa ≤ hi
  | _ => false

def isPort (v : Json) : Bool := isInteger 1 65535 v

/-! ## Issues -/

inductive Severity
  | error
  | warning
  deriving DecidableEq

structure VpnValidationIssue where
  path : String
  severity : Severity
  code : String
  message : String

abbrev Issues : Type := List VpnValidationIssue

def issue (path code message : String) : Issues := [⟨path, .error, code, message⟩]

def warn (path code message : String) : Issues := [⟨path, .warning, code, message⟩]

/-- An issue that is there on a condition. -/
def issueIf (wrong : Bool) (path code message : String) : Issues :=
  if wrong then issue path code message else []

/-- A text that cannot be written is only that; any other is looked at further. -/
def textThen (path : String) (value : Text) (further : Issues) : Issues :=
  if isSafeTomlString value then further
  else issue path "toml-unsafe-string"
    ("This contains a quote, a backslash, a line break or a template marker, which cannot " ++
      "appear in a config file.")

/-! ## One proxy, one visitor -/

def indexed (list : String) (i : Nat) : String := list ++ "[" ++ toString i ++ "]"

def endpoint (p : FrpProxy) : String :=
  String.ofList p.localIp ++ ":" ++ String.ofList (jsString p.localPort)

def validateName (path code message : String) (name : Text) : Issues :=
  textThen path name (issueIf (!PROXY_NAME name) path code message)

/-- An address that is not loopback has to be confirmed. -/
def validateAddress (path invalid notLoopback message : String) (address : Text)
    (confirmed : Bool) : Issues :=
  textThen path address
    (if !HOSTISH address then issue path invalid "This is not an address."
    else issueIf (address ≠ "127.0.0.1".toList && !confirmed) path notLoopback message)

def portMessage : String := "Enter a port between 1 and 65535."

def validateRemotePort (path : String) (p : FrpProxy) : Issues :=
  match p.remotePort with
  | some port =>
    issueIf (!isPort port) (path ++ ".remotePort") "remote-port-invalid" portMessage
  | none =>
    issueIf (typeIn REQUIRES_REMOTE_PORT p.type) (path ++ ".remotePort") "remote-port-missing"
      ("A " ++ String.ofList p.type ++ " proxy needs the port to open on the frp server.")

def validatePlugin (path : String) (plugin : FrpPlugin) (confirm : FrpConfirmations) : Issues :=
  (if !typeIn ALLOWED_PLUGINS plugin.name then
      issue (path ++ ".plugin.name") "plugin-not-offered"
        ("The \"" ++ String.ofList plugin.name ++ "\" plugin is not offered. unix_domain_socket " ++
          "can expose a socket such as the Docker daemon, and static_file exposes a directory; " ++
          "neither can be made safe with a checkbox.")
    else
      issueIf (!confirm.allowProxyPlugins) (path ++ ".plugin.name") "plugin-unconfirmed"
        ("The \"" ++ String.ofList plugin.name ++ "\" plugin turns this proxy into a " ++
          "general-purpose route out of this machine, not a single port. Confirm that this is " ++
          "what you want.")) ++
    if plugin.username ≠ [] then textThen (path ++ ".plugin.username") plugin.username [] else []

def validateProxy (confirm : FrpConfirmations) (i : Nat) (p : FrpProxy) : Issues :=
  let path := indexed "proxies" i
  validateName (path ++ ".name") "proxy-name-invalid"
      ("A proxy name may use letters, digits, dot, dash and underscore, and must start with a " ++
        "letter or digit.") p.name ++
    issueIf (!typeIn PROXY_TYPES p.type) (path ++ ".type") "proxy-type-invalid"
      ("\"" ++ String.ofList p.type ++ "\" is not an frp proxy type.") ++
    validateAddress (path ++ ".localIp") "local-ip-invalid" "local-ip-not-loopback"
      ("This proxy forwards to " ++ String.ofList p.localIp ++ ", which is not this machine's " ++
        "loopback. Confirm that you want " ++ endpoint p ++ " reachable from the frp server.")
      p.localIp confirm.allowNonLoopbackLocalIp ++
    issueIf (!isPort p.localPort) (path ++ ".localPort") "local-port-invalid" portMessage ++
    validateRemotePort path p ++
    (p.customDomains.mapIdx fun j d =>
      textThen (indexed (path ++ ".customDomains") j) d
        (issueIf (!DOMAIN d) (indexed (path ++ ".customDomains") j) "domain-invalid"
          "This is not a domain name.")).flatten ++
    (if p.subdomain ≠ [] then
      textThen (path ++ ".subdomain") p.subdomain
        (issueIf (!DOMAIN p.subdomain) (path ++ ".subdomain") "domain-invalid"
          "This is not a subdomain.")
    else []) ++
    issueIf (typeIn REQUIRES_DOMAIN p.type && p.customDomains = [] && p.subdomain = [])
      (path ++ ".customDomains") "domain-missing"
      ("A " ++ String.ofList p.type ++ " proxy needs a custom domain or a subdomain for the " ++
        "server to route by.") ++
    issueIf (typeIn PROXY_TYPES_WITH_SECRET p.type && !p.secretKeyRef) (path ++ ".secretKeyRef")
      "secret-key-missing"
      ("A " ++ String.ofList p.type ++ " proxy is reached with a shared secret, so one is " ++
        "required.") ++
    (match p.plugin with
      | some plugin => validatePlugin path plugin confirm
      | none => []) ++
    issueIf (match p.acknowledgedExposure with | .bool true => false | _ => true)
      (path ++ ".acknowledgedExposure") "exposure-unacknowledged"
      ("Confirm that this makes " ++ endpoint p ++ " reachable from the frp server.")

def validateVisitor (confirm : FrpConfirmations) (i : Nat) (v : FrpVisitor) : Issues :=
  let path := indexed "visitors" i
  validateName (path ++ ".name") "visitor-name-invalid"
      ("A visitor name may use letters, digits, dot, dash and underscore, and must start with " ++
        "a letter or digit.") v.name ++
    issueIf (!typeIn VISITOR_TYPES v.type) (path ++ ".type") "visitor-type-invalid"
      ("\"" ++ String.ofList v.type ++ "\" is not a visitor type.") ++
    validateName (path ++ ".serverName") "visitor-server-name-invalid"
      "This must be the name of the proxy on the other side." v.serverName ++
    issueIf (!v.secretKeyRef) (path ++ ".secretKeyRef") "secret-key-missing"
      "A visitor is authorised by a shared secret, so one is required." ++
    validateAddress (path ++ ".bindAddr") "bind-addr-invalid" "bind-addr-not-loopback"
      ("Listening on " ++ String.ofList v.bindAddr ++ " makes this reachable from the local " ++
        "network. Confirm that this is what you want.") v.bindAddr
      confirm.allowNonLoopbackBindAddr ++
    issueIf (!isPort v.bindPort) (path ++ ".bindPort") "bind-port-invalid" portMessage

/-! ## The whole -/

def validateOidc (o : FrpOidc) : Issues :=
  (if trim o.clientId = [] then
      issue "auth.oidc.clientId" "oidc-incomplete" "Enter the OIDC client ID."
    else textThen "auth.oidc.clientId" o.clientId []) ++
    (if trim o.tokenEndpointUrl = [] then
      issue "auth.oidc.tokenEndpointUrl" "oidc-incomplete" "Enter the OIDC token endpoint."
    else textThen "auth.oidc.tokenEndpointUrl" o.tokenEndpointUrl []) ++
    (if o.audience ≠ [] then textThen "auth.oidc.audience" o.audience [] else []) ++
    if o.scope ≠ [] then textThen "auth.oidc.scope" o.scope [] else []

def validateAuth (auth : FrpAuth) : Issues :=
  if auth.method = "token".toList then
    if auth.tokenRef then []
    else warn "auth.tokenRef" "auth-token-missing"
      "No token is set. This only works if the frp server was configured without one."
  else if auth.method = "oidc".toList then
    match auth.oidc with
    | none => issue "auth.oidc" "oidc-incomplete" "OIDC is selected but not configured."
    | some o => validateOidc o
  else issue "auth.method" "auth-method-invalid" "Choose token or OIDC."

def validateTransport (t : FrpTransport) (confirmed : FrpConfirmations) : Issues :=
  issueIf (!typeIn TRANSPORT_PROTOCOLS t.protocol) "transport.protocol"
      "transport-protocol-invalid" ("\"" ++ String.ofList t.protocol ++ "\" is not an frp transport.") ++
    issueIf (!truthy t.tlsEnable && !confirmed.allowPlaintextTransport) "transport.tlsEnable"
      "tls-disabled"
      ("Without TLS the control connection to the frp server is readable by anything on the " ++
        "path. Confirm that you want it off.") ++
    (match t.proxyUrl with
      | some url =>
        textThen "transport.proxyUrl" url
          (issueIf (!PROXY_URL url) "transport.proxyUrl" "proxy-url-invalid"
            "Use http://, https://, socks5:// or ntlm:// followed by host:port.")
      | none => []) ++
    (match t.poolCount with
      | some pool =>
        issueIf (!isInteger 0 100 pool) "transport.poolCount" "pool-count-invalid"
          "Enter a number between 0 and 100."
      | none => []) ++
    match t.heartbeatIntervalSec with
    | some beat =>
      issueIf (!isInteger 1 3600 beat) "transport.heartbeatIntervalSec" "heartbeat-invalid"
        "Enter a number of seconds between 1 and 3600."
    | none => []

/-- Whether a `Map` takes two values for one key. Two objects are never one. -/
def sameKey : Json → Json → Bool
  | .null, .null => true
  | .bool a, .bool b => a = b
  | .num a, .num b => a = b
  | .str a, .str b => a = b
  | _, _ => false

/-- The name of the first entry before that has the same port. -/
def firstWith (before : List (Text × Json)) (port : Json) : Option Text :=
  (before.find? fun e => sameKey e.2 port).map Prod.fst

/-- The entries in order, each looked at with those before it. -/
def withBefore {α : Type} (check : List α → Nat → α → Issues) : List α → Nat → List α → Issues
  | _, _, [] => []
  | before, i, x :: xs => check before i x ++ withBefore check (before ++ [x]) (i + 1) xs

def checkProxy (confirm : FrpConfirmations) (before : List FrpProxy) (i : Nat) (p : FrpProxy) :
    Issues :=
  validateProxy confirm i p ++
    issueIf (before.any fun q => q.name = p.name) (indexed "proxies" i ++ ".name")
      "proxy-name-duplicate" ("Another proxy is already called \"" ++ String.ofList p.name ++ "\".") ++
    match p.remotePort with
    | none => []
    | some port =>
      match firstWith (before.filterMap fun q => q.remotePort.map fun r => (q.name, r)) port with
      | none => []
      | some first =>
        issue (indexed "proxies" i ++ ".remotePort") "remote-port-duplicate"
          ("Port " ++ String.ofList (jsString port) ++ " on the frp server is already used by \"" ++
            String.ofList first ++ "\".")

def checkVisitor (confirm : FrpConfirmations) (proxies : List FrpProxy)
    (before : List FrpVisitor) (i : Nat) (v : FrpVisitor) : Issues :=
  validateVisitor confirm i v ++
    (if before.any fun w => w.name = v.name then
      issue (indexed "visitors" i ++ ".name") "visitor-name-duplicate"
        ("Another visitor is already called \"" ++ String.ofList v.name ++ "\".")
    else
      issueIf (proxies.any fun p => p.name = v.name) (indexed "visitors" i ++ ".name")
        "visitor-name-collides-with-proxy"
        ("A proxy is already called \"" ++ String.ofList v.name ++
          "\". Give the visitor a different name.")) ++
    if isPort v.bindPort then
      match firstWith ((before.filter fun w => isPort w.bindPort).map fun w =>
          (w.name, w.bindPort)) v.bindPort with
      | none => []
      | some first =>
        issue (indexed "visitors" i ++ ".bindPort") "bind-port-duplicate"
          ("Port " ++ String.ofList (jsString v.bindPort) ++ " is already used by \"" ++
            String.ofList first ++ "\".")
    else []

def specIssues (spec : FrpSpec) (confirmed : FrpConfirmations) : Issues :=
  (if trim spec.serverAddr = [] then
      issue "serverAddr" "server-addr-missing" "Enter the frp server address."
    else
      textThen "serverAddr" spec.serverAddr
        (issueIf (!HOSTISH spec.serverAddr) "serverAddr" "server-addr-invalid"
          "This is not a server name or address.")) ++
    issueIf (!isPort spec.serverPort) "serverPort" "server-port-invalid" portMessage ++
    validateAuth spec.auth ++
    validateTransport spec.transport confirmed ++
    (if spec.proxies.isEmpty && spec.visitors.isEmpty then
      warn "proxies" "no-proxies" "This profile does not forward anything yet."
    else []) ++
    withBefore (checkProxy confirmed) [] 0 spec.proxies ++
    withBefore (checkVisitor confirmed spec.proxies) [] 0 spec.visitors

structure VpnValidation where
  ok : Bool
  issues : Issues

/-- Without confirmations of its own, the check goes by those of the spec. -/
def validateFrpSpec (spec : FrpSpec) (confirm : Option FrpConfirmations) : VpnValidation :=
  let issues := specIssues spec ((confirm.or spec.confirmations).getD {})
  { ok := !issues.any fun x => x.severity = .error
    issues := issues }

/-!
## What a valid profile is

A spec that the check finds no error in holds strings that can be written, ports that are ports, and
types from the lists.
-/

open OpsMaxx.Strings (Text)

/-! ## Issues -/

def NoError (found : Issues) : Prop := ∀ x ∈ found, x.severity ≠ .error

theorem noError_nil : NoError [] ↔ True := by simp [NoError]

theorem noError_append {a b : Issues} : NoError (a ++ b) ↔ NoError a ∧ NoError b := by
  simp only [NoError, List.forall_mem_append]

theorem noError_issue {path code message : String} : NoError (issue path code message) ↔ False := by
  simp [NoError, issue]

theorem noError_issueIf {wrong : Bool} {path code message : String} :
    NoError (issueIf wrong path code message) ↔ wrong = false := by
  cases wrong with
  | true => simp [issueIf, noError_issue]
  | false => simp [issueIf, noError_nil]

theorem noError_textThen {path : String} {value : Text} {further : Issues} :
    NoError (textThen path value further) ↔ isSafeTomlString value = true ∧ NoError further := by
  unfold textThen
  split_ifs with h
  · simp [h]
  · simp [h, noError_issue]

theorem noError_flatten {founds : List Issues} :
    NoError founds.flatten ↔ ∀ found ∈ founds, NoError found := by
  simp only [NoError, List.mem_flatten]
  constructor
  · exact fun h found hf x hx => h x ⟨found, hf, hx⟩
  · rintro h x ⟨found, hf, hx⟩
    exact h found hf x hx

theorem noError_withBefore {α : Type} {check : List α → Nat → α → Issues} {before : List α}
    {i : Nat} {xs : List α} (h : NoError (withBefore check before i xs)) :
    ∀ x ∈ xs, ∃ before i, NoError (check before i x) := by
  induction xs generalizing before i with
  | nil => simp
  | cons x xs ih =>
    obtain ⟨hx, hxs⟩ := noError_append.mp h
    intro y hy
    rw [List.mem_cons] at hy
    obtain rfl | hy := hy
    · exact ⟨before, i, hx⟩
    · exact ih hxs y hy

theorem noError_of_ok {spec : FrpSpec} {confirm : Option FrpConfirmations}
    (h : (validateFrpSpec spec confirm).ok = true) :
    NoError (specIssues spec ((confirm.or spec.confirmations).getD {})) := by
  intro x hx herror
  have hnone : (!(specIssues spec ((confirm.or spec.confirmations).getD {})).any
      fun x => x.severity = .error) = true := h
  rw [Bool.not_eq_true', List.any_eq_false] at hnone
  exact hnone x hx (decide_eq_true herror)

/-! ## The parts of a spec -/

/-- What the check of a proxy comes to, as far as the file goes. -/
structure FrpProxy.Checked (p : FrpProxy) : Prop where
  name : isSafeTomlString p.name = true
  type : typeIn PROXY_TYPES p.type = true
  localIp : isSafeTomlString p.localIp = true
  localPort : isPort p.localPort = true
  remotePort : ∀ port ∈ p.remotePort, isPort port = true
  customDomains : ∀ d ∈ p.customDomains, isSafeTomlString d = true
  subdomain : p.subdomain ≠ [] → isSafeTomlString p.subdomain = true
  plugin : ∀ plugin ∈ p.plugin, typeIn ALLOWED_PLUGINS plugin.name = true ∧
    (plugin.username ≠ [] → isSafeTomlString plugin.username = true)

theorem FrpProxy.checked {p : FrpProxy} {confirm : FrpConfirmations} {i : Nat}
    (h : NoError (validateProxy confirm i p)) : p.Checked := by
  simp only [validateProxy, validateName, validateAddress, noError_append, noError_textThen,
    noError_issueIf, noError_flatten, Bool.not_eq_false'] at h
  obtain ⟨⟨⟨⟨⟨⟨⟨⟨⟨⟨hname, htype⟩, hlocal⟩, hport⟩, hremote⟩, hdomains⟩, hsub⟩, -⟩, -⟩, hplugin⟩, -⟩ := h
  refine ⟨hname.1, htype, hlocal.1, hport, ?_, ?_, ?_, ?_⟩
  · intro port hp
    rw [Option.mem_def] at hp
    simpa [validateRemotePort, hp, noError_issueIf] using hremote
  · intro d hd
    obtain ⟨j, hj, rfl⟩ := List.mem_iff_getElem.mp hd
    have hmem := hdomains _ (List.mem_mapIdx.mpr ⟨j, hj, rfl⟩)
    exact (noError_textThen.mp hmem).1
  · intro hne
    rw [if_pos hne] at hsub
    exact (noError_textThen.mp hsub).1
  · intro plugin hp
    rw [Option.mem_def] at hp
    rw [hp] at hplugin
    obtain ⟨hname, huser⟩ := noError_append.mp hplugin
    constructor
    · by_contra hno
      have hno' : (!typeIn ALLOWED_PLUGINS plugin.name) = true := by simpa using hno
      rw [if_pos hno'] at hname
      exact noError_issue.mp hname
    · intro hne
      rw [if_pos hne] at huser
      exact (noError_textThen.mp huser).1

structure FrpVisitor.Checked (v : FrpVisitor) : Prop where
  name : isSafeTomlString v.name = true
  type : typeIn VISITOR_TYPES v.type = true
  serverName : isSafeTomlString v.serverName = true
  bindAddr : isSafeTomlString v.bindAddr = true
  bindPort : isPort v.bindPort = true

theorem FrpVisitor.checked {v : FrpVisitor} {confirm : FrpConfirmations} {i : Nat}
    (h : NoError (validateVisitor confirm i v)) : v.Checked := by
  simp only [validateVisitor, validateName, validateAddress, noError_append, noError_textThen,
    noError_issueIf, Bool.not_eq_false'] at h
  obtain ⟨⟨⟨⟨⟨hname, htype⟩, hserver⟩, -⟩, haddr⟩, hport⟩ := h
  exact ⟨hname.1, htype, hserver.1, haddr.1, hport⟩

structure FrpTransport.Checked (t : FrpTransport) : Prop where
  protocol : typeIn TRANSPORT_PROTOCOLS t.protocol = true
  proxyUrl : ∀ url ∈ t.proxyUrl, isSafeTomlString url = true
  poolCount : ∀ pool ∈ t.poolCount, isInteger 0 100 pool = true
  heartbeat : ∀ beat ∈ t.heartbeatIntervalSec, isInteger 1 3600 beat = true

theorem FrpTransport.checked {t : FrpTransport} {confirm : FrpConfirmations}
    (h : NoError (validateTransport t confirm)) : t.Checked := by
  simp only [validateTransport, noError_append, noError_issueIf, Bool.not_eq_false'] at h
  obtain ⟨⟨⟨⟨hprotocol, -⟩, hurl⟩, hpool⟩, hbeat⟩ := h
  refine ⟨hprotocol, ?_, ?_, ?_⟩
  · intro url hu
    rw [Option.mem_def.mp hu] at hurl
    exact (noError_textThen.mp hurl).1
  · intro pool hp
    rw [Option.mem_def.mp hp] at hpool
    simpa [noError_issueIf] using hpool
  · intro beat hb
    rw [Option.mem_def.mp hb] at hbeat
    simpa [noError_issueIf] using hbeat

structure FrpAuth.Checked (a : FrpAuth) : Prop where
  method : a.method = "token".toList ∨ a.method = "oidc".toList
  oidc : a.method = "oidc".toList → ∀ o ∈ a.oidc, isSafeTomlString o.clientId = true ∧
    isSafeTomlString o.tokenEndpointUrl = true ∧
    (o.audience ≠ [] → isSafeTomlString o.audience = true) ∧
    (o.scope ≠ [] → isSafeTomlString o.scope = true)

theorem FrpAuth.checked {a : FrpAuth} (h : NoError (validateAuth a)) : a.Checked := by
  unfold validateAuth at h
  split_ifs at h with htoken href hoidc
  · exact ⟨Or.inl htoken, fun hm => absurd (htoken.symm.trans hm) (by decide)⟩
  · exact ⟨Or.inl htoken, fun hm => absurd (htoken.symm.trans hm) (by decide)⟩
  · refine ⟨Or.inr hoidc, fun _ o ho => ?_⟩
    rw [Option.mem_def.mp ho] at h
    simp only [validateOidc, noError_append] at h
    obtain ⟨⟨⟨hid, hurl⟩, haudience⟩, hscope⟩ := h
    refine ⟨?_, ?_, ?_, ?_⟩
    · split_ifs at hid with hempty
      · exact absurd hid noError_issue.mp
      · exact (noError_textThen.mp hid).1
    · split_ifs at hurl with hempty
      · exact absurd hurl noError_issue.mp
      · exact (noError_textThen.mp hurl).1
    · intro hne
      rw [if_pos hne] at haudience
      exact (noError_textThen.mp haudience).1
    · intro hne
      rw [if_pos hne] at hscope
      exact (noError_textThen.mp hscope).1
  · exact absurd h noError_issue.mp

structure FrpSpec.Checked (spec : FrpSpec) : Prop where
  serverAddr : isSafeTomlString spec.serverAddr = true
  serverPort : isPort spec.serverPort = true
  auth : spec.auth.Checked
  transport : spec.transport.Checked
  proxies : ∀ p ∈ spec.proxies, p.Checked
  visitors : ∀ v ∈ spec.visitors, v.Checked

theorem FrpSpec.checked {spec : FrpSpec} {confirm : Option FrpConfirmations}
    (h : (validateFrpSpec spec confirm).ok = true) : spec.Checked := by
  have hno := noError_of_ok h
  simp only [specIssues, noError_append, noError_issueIf, Bool.not_eq_false'] at hno
  obtain ⟨⟨⟨⟨⟨⟨haddr, hport⟩, hauth⟩, htransport⟩, -⟩, hproxies⟩, hvisitors⟩ := hno
  refine ⟨?_, hport, FrpAuth.checked hauth, FrpTransport.checked htransport, ?_, ?_⟩
  · split_ifs at haddr with hempty
    · exact absurd haddr noError_issue.mp
    · exact (noError_textThen.mp haddr).1
  · intro p hp
    obtain ⟨before, i, hcheck⟩ := noError_withBefore hproxies p hp
    unfold checkProxy at hcheck
    exact FrpProxy.checked (noError_append.mp (noError_append.mp hcheck).1).1
  · intro v hv
    obtain ⟨before, i, hcheck⟩ := noError_withBefore hvisitors v hv
    unfold checkVisitor at hcheck
    exact FrpVisitor.checked (noError_append.mp (noError_append.mp hcheck).1).1

end OpsMaxx.Frp
