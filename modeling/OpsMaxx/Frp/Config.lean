import OpsMaxx.Json.Text
import OpsMaxx.Store.JsMap
import OpsMaxx.Strings.Words

/-!
# The configuration of frpc

`generateFrpToml` writes the file from the typed model. A string is written between quotes or not
at all, and a secret is written as a template that frpc resolves against the environment `frpEnv`
builds. A stored profile may hold any value where its type says a number or a flag.
-/

set_option autoImplicit false

namespace OpsMaxx.Frp

open OpsMaxx.Strings (Text)
open OpsMaxx.Store (JsMap)

/-! ## The model -/

structure FrpPlugin where
  name : Text
  username : Text
  passwordRef : Bool

/-- A text that is empty is none, and of a reference into the vault it matters whether there is
one. -/
structure FrpProxy where
  name : Text
  type : Text
  localIp : Text
  localPort : Json
  remotePort : Option Json
  customDomains : List Text
  subdomain : Text
  secretKeyRef : Bool
  plugin : Option FrpPlugin
  acknowledgedExposure : Json

structure FrpVisitor where
  name : Text
  type : Text
  serverName : Text
  secretKeyRef : Bool
  bindAddr : Text
  bindPort : Json

structure FrpOidc where
  clientId : Text
  clientSecretRef : Bool
  audience : Text
  scope : Text
  tokenEndpointUrl : Text

structure FrpAuth where
  method : Text
  tokenRef : Bool
  oidc : Option FrpOidc

structure FrpTransport where
  protocol : Text
  tlsEnable : Json
  proxyUrl : Option Text
  poolCount : Option Json
  heartbeatIntervalSec : Option Json

structure FrpConfirmations where
  allowNonLoopbackLocalIp : Bool := false
  allowPlaintextTransport : Bool := false
  allowProxyPlugins : Bool := false
  allowNonLoopbackBindAddr : Bool := false

structure FrpSpec where
  serverAddr : Text
  serverPort : Json
  auth : FrpAuth
  transport : FrpTransport
  proxies : List FrpProxy
  visitors : List FrpVisitor
  confirmations : Option FrpConfirmations

structure FrpRun where
  adminPort : Json
  adminUser : Text

structure FrpRunSecrets extends FrpRun where
  adminPassword : Text

/-- The records are keyed by the names of proxies and visitors. -/
structure FrpResolvedSecrets where
  token : Option Text
  oidcClientSecret : Option Text
  proxySecretKeys : JsMap Text Text
  pluginPasswords : JsMap Text Text

/-! ## Values as text -/

def isNull : Json → Bool
  | .null => true
  | _ => false

mutual
/-- `String(value)`. -/
def jsString : Json → Text
  | .null => "null".toList
  | .bool true => "true".toList
  | .bool false => "false".toList
  | .num n => n.print
  | .str s => s.toList
  | .arr items => joinItems items
  | .obj _ => "[object Object]".toList

/-- An array is its items with commas between them, and `null` is none of them. -/
def joinItems : List Json → Text
  | [] => []
  | [v] => if isNull v then [] else jsString v
  | v :: w :: vs => (if isNull v then [] else jsString v) ++ ',' :: joinItems (w :: vs)
end

def truthy : Json → Bool
  | .null => false
  | .bool b => b
  | .num n => n.mantissa ≠ 0
  | .str s => s ≠ ""
  | .arr _ => true
  | .obj _ => true

/-! ## Names in the environment -/

def FRP_ENV_TOKEN : Text := "SP_FRP_TOKEN".toList

def FRP_ENV_ADMIN : Text := "SP_FRP_ADMIN".toList

def FRP_ENV_OIDC_SECRET : Text := "SP_FRP_OIDC_SECRET".toList

def frpProxySecretEnv (index : Nat) : Text := "SP_FRP_SECRET_".toList ++ Nat.toDigits 10 index

def frpVisitorSecretEnv (index : Nat) : Text :=
  "SP_FRP_VISITOR_SECRET_".toList ++ Nat.toDigits 10 index

def frpPluginPasswordEnv (index : Nat) : Text :=
  "SP_FRP_PLUGIN_PW_".toList ++ Nat.toDigits 10 index

def envTemplate (name : Text) : Text := "\"\x7b\x7b .Envs.".toList ++ name ++ " \x7d\x7d\"".toList

/-! ## Strings -/

def hasTemplateOpen : Text → Bool
  | '\x7b' :: '\x7b' :: _ => true
  | _ :: cs => hasTemplateOpen cs
  | [] => false

def isSafeTomlString (value : Text) : Bool :=
  !value.contains '"' && !value.contains '\\' && !hasTemplateOpen value &&
    value.all fun c => !(c.toNat < 0x20 || c.toNat = 0x7f)

structure VpnError where
  code : String
  message : Text

def unsafeValue (value : Text) : VpnError where
  code := "config-invalid"
  message := "The value ".toList ++ printString (String.ofList value) ++
    " cannot be written to a config file.".toList

def quote (value : Text) : Except VpnError Text :=
  if !isSafeTomlString value then .error (unsafeValue value) else .ok ('"' :: (value ++ ['"']))

def quoteList (values : List Text) : Except VpnError Text := do
  let quoted ← values.mapM quote
  return '[' :: (", ".toList.intercalate quoted ++ [']'])

/-! ## Rows and blocks -/

/-- What a row sets its key to. -/
inductive Value
  | quoted (value : Text)
  | list (values : List Text)
  | number (value : Json)
  | flag (value : Bool)
  | env (name : Text)

def Value.write : Value → Except VpnError Text
  | .quoted value => quote value
  | .list values => quoteList values
  | .number value => .ok (jsString value)
  | .flag value => .ok (if value then "true".toList else "false".toList)
  | .env name => .ok (envTemplate name)

abbrev Row : Type := String × Value

def Row.width (rows : List Row) : Nat := rows.foldl (fun w r => max w r.1.toList.length) 0

def padEnd (width : Nat) (key : Text) : Text := key ++ List.replicate (width - key.length) ' '

def Row.write (width : Nat) (r : Row) : Except VpnError Text := do
  let value ← r.2.write
  return padEnd width r.1.toList ++ " = ".toList ++ value

/-- The `=` signs of a block are aligned. -/
def block (rows : List Row) : Except VpnError Text := do
  let lines ← rows.mapM (Row.write (Row.width rows))
  return ['\n'].intercalate lines

/-- A row that is there on a condition. -/
def rowIf (there : Bool) (key : String) (value : Value) : List Row :=
  if there then [(key, value)] else []

def PROXY_TYPES_WITH_SECRET : List String := ["stcp", "sudp", "xtcp"]

def typeIn (types : List String) (type : Text) : Bool := types.any fun t => t.toList = type

def proxyRows (proxy : FrpProxy) (index : Nat) : List Row :=
  [("name", .quoted proxy.name), ("type", .quoted proxy.type), ("localIP", .quoted proxy.localIp),
      ("localPort", .number proxy.localPort)] ++
    (match proxy.remotePort with
      | some port => [("remotePort", .number port)]
      | none => []) ++
    rowIf (proxy.customDomains ≠ []) "customDomains" (.list proxy.customDomains) ++
    rowIf (proxy.subdomain ≠ []) "subdomain" (.quoted proxy.subdomain) ++
    rowIf (typeIn PROXY_TYPES_WITH_SECRET proxy.type && proxy.secretKeyRef) "secretKey"
      (.env (frpProxySecretEnv index))

def pluginRows (plugin : FrpPlugin) (index : Nat) : List Row :=
  ("type", .quoted plugin.name) ::
    (rowIf (plugin.username ≠ []) "username" (.quoted plugin.username) ++
      rowIf plugin.passwordRef "password" (.env (frpPluginPasswordEnv index)))

/-- The parts of a proxy's block that are about its plugin. -/
def pluginParts (index : Nat) : Option FrpPlugin → Except VpnError (List Text)
  | none => .ok []
  | some plugin => do
    let rows ← block (pluginRows plugin index)
    return ["".toList, "[proxies.plugin]".toList, rows]

def proxyBlock (proxy : FrpProxy) (index : Nat) : Except VpnError Text := do
  let rows ← block (proxyRows proxy index)
  let plugin ← pluginParts index proxy.plugin
  return ['\n'].intercalate (["[[proxies]]".toList, rows] ++ plugin)

def visitorRows (visitor : FrpVisitor) (index : Nat) : List Row :=
  [("name", .quoted visitor.name), ("type", .quoted visitor.type),
      ("serverName", .quoted visitor.serverName)] ++
    rowIf visitor.secretKeyRef "secretKey" (.env (frpVisitorSecretEnv index)) ++
    [("bindAddr", .quoted visitor.bindAddr), ("bindPort", .number visitor.bindPort)]

def visitorBlock (visitor : FrpVisitor) (index : Nat) : Except VpnError Text := do
  let rows ← block (visitorRows visitor index)
  return ['\n'].intercalate ["[[visitors]]".toList, rows]

def authRows (auth : FrpAuth) : List Row :=
  ("auth.method", .quoted auth.method) ::
    if auth.method = "token".toList then rowIf auth.tokenRef "auth.token" (.env FRP_ENV_TOKEN)
    else
      match auth.oidc with
      | none => []
      | some o =>
        ("auth.oidc.clientID", .quoted o.clientId) ::
          (rowIf o.clientSecretRef "auth.oidc.clientSecret" (.env FRP_ENV_OIDC_SECRET) ++
            rowIf (o.audience ≠ []) "auth.oidc.audience" (.quoted o.audience) ++
            rowIf (o.scope ≠ []) "auth.oidc.scope" (.quoted o.scope) ++
            [("auth.oidc.tokenEndpointURL", .quoted o.tokenEndpointUrl)])

/-- `value ?? fallback`. -/
def orElse (value : Option Json) (fallback : Int) : Json :=
  match value with
  | none | some .null => .num (.ofInt fallback)
  | some v => v

def transportRows (t : FrpTransport) : List Row :=
  [("transport.tls.enable", .flag (truthy t.tlsEnable)),
      ("transport.protocol", .quoted t.protocol),
      ("transport.poolCount", .number (orElse t.poolCount 1)),
      ("transport.heartbeatInterval", .number (orElse t.heartbeatIntervalSec 30))] ++
    (match t.proxyUrl with
      | some url => rowIf (url ≠ []) "transport.proxyURL" (.quoted url)
      | none => [])

def serverRows (spec : FrpSpec) : List Row :=
  [("serverAddr", .quoted spec.serverAddr), ("serverPort", .number spec.serverPort)]

def adminRows (run : FrpRun) : List Row :=
  [("webServer.addr", .quoted "127.0.0.1".toList), ("webServer.port", .number run.adminPort),
    ("webServer.user", .quoted run.adminUser), ("webServer.password", .env FRP_ENV_ADMIN)]

def logRows : List Row :=
  [("log.to", .quoted "console".toList), ("log.level", .quoted "info".toList)]

/-- The blocks of a list, each with its index. -/
def blocksFrom {α : Type} (write : α → Nat → Except VpnError Text) :
    Nat → List α → Except VpnError (List Text)
  | _, [] => .ok []
  | i, x :: xs => do
    let written ← write x i
    let rest ← blocksFrom write (i + 1) xs
    return written :: rest

def generateFrpToml (spec : FrpSpec) (run : FrpRun) : Except VpnError Text := do
  let head ← [serverRows spec, authRows spec.auth, transportRows spec.transport, adminRows run,
    logRows].mapM block
  let proxies ← blocksFrom proxyBlock 0 spec.proxies
  let visitors ← blocksFrom visitorBlock 0 spec.visitors
  return "\n\n".toList.intercalate (head ++ proxies ++ visitors) ++ ['\n']

/-! ## The environment -/

/-- What is set, where there is something to set it to. -/
def setTo (name : Text) : Option Text → List (Text × Text)
  | none => []
  | some value => [(name, value)]

def authEnv (auth : FrpAuth) (secrets : FrpResolvedSecrets) : List (Text × Text) :=
  (if auth.method = "token".toList ∧ auth.tokenRef then setTo FRP_ENV_TOKEN secrets.token else []) ++
    (if auth.method = "oidc".toList ∧ (auth.oidc.any FrpOidc.clientSecretRef) then
      setTo FRP_ENV_OIDC_SECRET secrets.oidcClientSecret
    else [])

def proxyEnv (secrets : FrpResolvedSecrets) (i : Nat) (proxy : FrpProxy) : List (Text × Text) :=
  (if typeIn PROXY_TYPES_WITH_SECRET proxy.type && proxy.secretKeyRef then
      setTo (frpProxySecretEnv i) (secrets.proxySecretKeys.get proxy.name)
    else []) ++
    if proxy.plugin.any FrpPlugin.passwordRef then
      setTo (frpPluginPasswordEnv i) (secrets.pluginPasswords.get proxy.name)
    else []

def visitorEnv (secrets : FrpResolvedSecrets) (i : Nat) (visitor : FrpVisitor) :
    List (Text × Text) :=
  if visitor.secretKeyRef then
    setTo (frpVisitorSecretEnv i) (secrets.proxySecretKeys.get visitor.name)
  else []

/-- What is set of the environment, in the order it is set in. -/
def envRows (spec : FrpSpec) (secrets : FrpResolvedSecrets) (run : FrpRunSecrets) :
    List (Text × Text) :=
  (FRP_ENV_ADMIN, run.adminPassword) :: authEnv spec.auth secrets ++
    (spec.proxies.mapIdx (proxyEnv secrets)).flatten ++
    (spec.visitors.mapIdx (visitorEnv secrets)).flatten

def frpEnv (spec : FrpSpec) (secrets : FrpResolvedSecrets) (run : FrpRunSecrets) :
    JsMap Text Text :=
  (envRows spec secrets run).foldl (fun env row => env.set row.1 row.2) .empty

end OpsMaxx.Frp
