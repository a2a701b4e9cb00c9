import OpsMaxx.ApiUrl.Query
import OpsMaxx.Curl.Request
import OpsMaxx.Json.Text
import Mathlib.Logic.Relation
import OpsMaxx.Json.Alike
import OpsMaxx.Strings.Utf8Stream

/-! # The command a request is copied as, with its secrets masked

`outgoing` and `toCurl` of `shared/curl.ts` with secrets masked, for HTTP and GraphQL requests.
-/

set_option autoImplicit false

namespace OpsMaxx.Curl

open Strings

/-! ## Names that carry a credential -/

def SENSITIVE_EXACT : List String :=
  ["authorization", "proxy-authorization", "cookie", "set-cookie", "ocp-apim-subscription-key",
    "x-functions-key"]

/-- `/(password|passwd|secret|token|api[_-]?key|private[_-]?key)/`. -/
def SENSITIVE_INSIDE : List String :=
  ["password", "passwd", "secret", "token", "apikey", "api_key", "api-key", "privatekey",
    "private_key", "private-key"]

/-- `/(^|[-_])(key|sig|signature|session|sid|jwt|auth|code|credential|client[-_]?secret)$/`. -/
def SENSITIVE_LAST : List String :=
  ["key", "sig", "signature", "session", "sid", "jwt", "auth", "code", "credential", "clientsecret",
    "client-secret", "client_secret"]

/-- `/^x-amz-(signature|credential|security-token)$/`. -/
def SENSITIVE_AMZ : List String :=
  ["x-amz-signature", "x-amz-credential", "x-amz-security-token"]

def contains (s : Text) (word : String) : Bool := s.tails.any word.toList.isPrefixOf

/-- A word at the end of a name, and no letter or digit of another word before it. -/
def endsIn (s : Text) (word : String) : Bool :=
  s = word.toList || ('-' :: word.toList).isSuffixOf s || ('_' :: word.toList).isSuffixOf s

def isSensitiveName (name : Text) : Bool :=
  let lower := toLowerCase name
  SENSITIVE_EXACT.any (fun w => lower = w.toList) || SENSITIVE_INSIDE.any (contains lower) ||
    SENSITIVE_LAST.any (endsIn lower) || SENSITIVE_AMZ.any (fun w => lower = w.toList)

/-! ## References -/

/-- A text without the references one after another, each the first that starts where it does. -/
def removeFrom (ref : Text → Option (Text × Text)) : Nat → Text → Text
  | 0, _ => []
  | n + 1, t =>
    match ref t with
    | some (_, rest) => removeFrom ref n rest
    | none =>
      match t with
      | [] => []
      | c :: t => c :: removeFrom ref n t

def remove (ref : Text → Option (Text × Text)) (t : Text) : Text := removeFrom ref t.length t

def isWordChar (c : Char) : Bool := isAlphanumeric c || c = '_'

/-- Without what `/^\s*(?:bearer|basic|token)\b/i` matches. -/
def removeScheme (t : Text) : Text :=
  let behind := trimStart t
  match ["bearer", "basic", "token"].find? fun w =>
      w.toList.isPrefixOf (behind.map Char.toLower) &&
        !((behind.drop w.length).head?.map isWordChar).getD false with
  | some w => behind.drop w.length
  | none => t

def referenceOnly (v : Text) : Bool :=
  trim (removeScheme (remove ApiUrl.vaultRef (remove ApiUrl.braceRef v))) = []

def SECRET : Text := "<secret>".toList

/-- The template, when it is a reference. -/
def maskedFrom (template : Option Text) : Text :=
  match template with
  | some t => if t ≠ [] ∧ referenceOnly t then t else SECRET
  | none => SECRET

/-! ## The URL -/

/-- The authority, and what follows it. -/
def authorityFrom (seen : Text) : Text → Text × Text
  | [] => (seen, [])
  | c :: t =>
    if c = '/' ∨ c = '?' ∨ (c = '#' ∧ ApiUrl.guarded seen = false) then (seen, c :: t)
    else authorityFrom (seen ++ [c]) t

/-- Before the user information, the information, and from the last `@` of the authority on. -/
def userinfoSpan (url : Text) : Option (Text × Text × Text) :=
  let lead := leading url
  let rest := trimStart url
  if !hasScheme rest then none
  else
    let (authority, behind) := authorityFrom [] ((rest.dropWhile isSchemeChar).drop 3)
    if '@' ∈ authority then
      some (lead ++ rest.takeWhile isSchemeChar ++ [':', '/', '/'],
        (authority.rdropWhile (· ≠ '@')).dropLast, '@' :: authority.rtakeWhile (· ≠ '@') ++ behind)
    else none

def userinfoIsReference (info : Text) : Bool :=
  match splitFirst ':' info with
  | none => referenceOnly info
  | some (user, password) => referenceOnly user && referenceOnly password

def maskUserinfo (url : Text) : Text :=
  match userinfoSpan url with
  | some (before, info, behind) =>
    if userinfoIsReference info then url else before ++ SECRET ++ behind
  | none => url

def queryName (name : Text) : Text := (decodeURIComponent name).getD name

def maskQueryPair (params : List Row) (pair : Text) : Text :=
  match splitFirst '=' pair with
  | none => pair
  | some (name, _) =>
    if isSensitiveName (queryName name) then
      name ++ '=' :: maskedFrom ((params.find? fun p => p.key = queryName name).map Row.value)
    else pair

def maskPairs (mask : Text → Text) (s : Text) : Text := ['&'].intercalate ((s.splitOn '&').map mask)

def maskUrlForCurl (params : List Row) (url : Text) : Text :=
  let out := maskUserinfo url
  match splitFirst '?' out with
  | none => out
  | some (head, rest) =>
    head ++ '?' :: maskPairs (maskQueryPair params) (rest.takeWhile (· ≠ '#')) ++
      rest.dropWhile (· ≠ '#')

/-! ## Bodies -/

def isMasked (key : String) : Json → Bool
  | .null => false
  | .str s => isSensitiveName key.toList && s ≠ "" && !referenceOnly s.toList
  | _ => isSensitiveName key.toList

/-- A field an object cannot be given this way. -/
def PROTO : String := "__proto__"

mutual
/-- What `walk` makes of a value. -/
def walk (depth : Nat) : Json → Json
  | .arr items => if 64 < depth then .arr items else .arr (walkItems depth items)
  | .obj fields => if 64 < depth then .obj fields else .obj (walkFields depth fields)
  | v => v

def walkItems (depth : Nat) : List Json → List Json
  | [] => []
  | v :: vs => walk (depth + 1) v :: walkItems depth vs

def walkFields (depth : Nat) : List (String × Json) → List (String × Json)
  | [] => []
  | (k, v) :: rest =>
    if k = PROTO then walkFields depth rest
    else
      (k, if isMasked k v then .str (String.ofList SECRET) else walk (depth + 1) v) ::
        walkFields depth rest
end

mutual
/-- Whether `walk` sets `changed`. -/
def changes (depth : Nat) : Json → Bool
  | .arr items => decide (depth ≤ 64) && changesItems depth items
  | .obj fields => decide (depth ≤ 64) && changesFields depth fields
  | _ => false

def changesItems (depth : Nat) : List Json → Bool
  | [] => false
  | v :: vs => changes (depth + 1) v || changesItems depth vs

def changesFields (depth : Nat) : List (String × Json) → Bool
  | [] => false
  | (k, v) :: rest => isMasked k v || changes (depth + 1) v || changesFields depth rest
end

def maskJsonBody (text : Text) : Text :=
  match Json.parse (String.ofList text) with
  | none => text
  | some v => if changes 0 v then (walk 0 v).stringify.toList else text

def formName (name : Text) : Text := (decodeURIComponent (plusToSpace name)).getD name

def maskFormPair (pair : Text) : Text :=
  match splitFirst '=' pair with
  | none => pair
  | some (name, _) =>
    if isSensitiveName (formName name) then name ++ '=' :: encodeURIComponent SECRET else pair

def maskFormBody (text : Text) : Text := maskPairs maskFormPair text

/-! ## Requests -/

structure GraphQlRequest where
  headers : List Row
  auth : Auth
  query : Text
  variablesText : Text
  operationName : Option Text

inductive ApiRequest
  | http (req : HttpRequest)
  | graphql (req : GraphQlRequest)

namespace ApiRequest

def headers : ApiRequest → List Row
  | http req => req.headers
  | graphql req => req.headers

def auth : ApiRequest → Auth
  | http req => req.auth
  | graphql req => req.auth

def params : ApiRequest → List Row
  | http req => req.params
  | graphql _ => []

def isUrlencoded : ApiRequest → Bool
  | http req => match req.body with
    | .urlencoded _ => true
    | _ => false
  | graphql _ => false

end ApiRequest

/-- The variables, when they are given and can be read. -/
def variablesOf (req : GraphQlRequest) : Option Json :=
  if trim req.variablesText = [] then none else Json.parse (String.ofList req.variablesText)

def graphQlBody (req : GraphQlRequest) : Json :=
  .obj (("query", .str (String.ofList req.query)) ::
    ((variablesOf req).toList.map (fun v => ("variables", v)) ++
      ((req.operationName.toList.filter (· ≠ [])).map fun n =>
        ("operationName", .str (String.ofList n)))))

/-- `bodyFromTemplate`. -/
def templateOf : ApiRequest → TemplateBody
  | .http req => bodyFromTemplate req
  | .graphql req => .text (graphQlBody req).stringify.toList

/-! ## What goes out -/

def authTemplate : Auth → Option Text
  | .bearer token => if referenceOnly token then some ("Bearer ".toList ++ trim token) else none
  | .apikey _ value _ => some value
  | _ => none

def isApiKey : Auth → Bool
  | .apikey _ _ _ => true
  | _ => false

def headerTemplate (req : ApiRequest) (name : Text) : Option Text :=
  ((req.headers.find? fun h => h.enabled && toLowerCase h.key = toLowerCase name).map
    Row.value).or
    (if toLowerCase name = "authorization".toList ∨ isApiKey req.auth then authTemplate req.auth
      else none)

def maskHeader (req : ApiRequest) (h : Text × Text) : Text × Text :=
  if isSensitiveName h.1 then (h.1, maskedFrom (headerTemplate req h.1)) else h

def maskRow (r : MultipartRow) : MultipartRow :=
  if r.kind = .text ∧ isSensitiveName r.key then { r with value := maskedFrom (some r.value) } else r

/-- `/x-www-form-urlencoded/i`. -/
def isFormType (contentType : Text) : Bool :=
  contains (contentType.map Char.toLower) "x-www-form-urlencoded"

def maskText (form : Bool) (text : Text) : Text :=
  if form then maskFormBody text else maskJsonBody text

def maskedTextBody (form : Bool) (contentType : Text) : Option Text → OutBody
  | some (c :: cs) => .text (maskText form (c :: cs)) contentType
  | _ => .none

def maskedBody (req : ApiRequest) (spec : HttpRequestSpec) : OutBody :=
  let contentType := contentTypeOut (keptHeaders spec.headers)
  let form := isFormType contentType || req.isUrlencoded
  match templateOf req with
  | .form rows => .form (rows.map maskRow)
  | .file name => .file name
  | .text t => maskedTextBody form contentType (outText (some t) spec.body).1
  | .none => maskedTextBody form contentType (outText none spec.body).1

section
variable [UpperCase]

/-- `outgoing` with secrets masked, the notes apart. -/
def maskedOutgoing (req : ApiRequest) (spec : HttpRequestSpec) : Outgoing :=
  { method := toUpperCase (if spec.method = [] then GET else spec.method)
    url := maskUrlForCurl req.params spec.url
    headers := (keptHeaders spec.headers).map (maskHeader req)
    body := maskedBody req spec
    insecure := spec.insecureTls
    notes := [] }

/-- The text of `toCurl` with secrets masked. -/
def maskedCurl (req : ApiRequest) (spec : HttpRequestSpec) : Text :=
  joinParts (parts (maskedOutgoing req spec) spec)

end

end OpsMaxx.Curl

/-!
## Requests that differ in their secrets

Two requests and what is sent for them are alike when they are the same but for values that are not
made of references only: of headers, parameters and fields whose name carries a credential, of the
password of the URL, and of strings in JSON. `Limits` says which of these may differ.
-/

namespace OpsMaxx.Curl

open Strings

/-- Neither value is made of references only. -/
def Swapped (v v' : Text) : Prop := referenceOnly v = false ∧ referenceOnly v' = false

structure Limits where
  /-- How many containers a JSON string may be in. -/
  depth : Nat → Prop
  /-- Whether JSON may go out as a form. -/
  json : Bool → Prop
  /-- What the JSON is read as. -/
  shown : Json → Prop
  queryName : Text → Prop
  formName : Text → Prop
  /-- The values of a header. -/
  header : Text → Text → Prop
  /-- The host of a URL, and what follows it. -/
  authority : Text → Text → Prop

def noLimits : Limits where
  depth _ := True
  json _ := True
  shown _ := True
  queryName _ := True
  formName _ := True
  header _ _ := True
  authority _ _ := True

variable (L : Limits) (form : Bool)

/-! ## Names and values in a query or a form -/

/-- Percent signs that begin no escape stand for themselves. -/
def lossyBytes : Text → List UInt8
  | '%' :: h :: l :: rest =>
    match hexValue h, hexValue l with
    | some a, some b => UInt8.ofNat (16 * a + b) :: lossyBytes rest
    | _, _ => 0x25 :: lossyBytes (h :: l :: rest)
  | c :: rest => String.utf8EncodeChar c ++ lossyBytes rest
  | [] => []

/-- The name a server reads. -/
def trueName (name : Text) : Text := Utf8.decode (lossyBytes (plusToSpace name))

def PairAlike (name value : Text → Prop) (p p' : Text) : Prop :=
  p = p' ∨ ∃ n v v', '=' ∉ n ∧ isSensitiveName (trueName n) = true ∧ name n ∧ value v ∧ value v' ∧
    p = n ++ '=' :: v ∧ p' = n ++ '=' :: v'

def PairsAlike (name value : Text → Prop) (s s' : Text) : Prop :=
  List.Forall₂ (PairAlike name value) (s.splitOn '&') (s'.splitOn '&')

/-! ## URLs -/

/-- What an authority is made of. -/
def isAuthorityChar (c : Char) : Bool := c ≠ '/' && c ≠ '?' && c ≠ '#'

inductive UrlStep : Text → Text → Prop
  | password {lead scheme user pw pw' host rest : Text} (hlead : ∀ c ∈ lead, isSpace c = true)
      (hletter : scheme.head?.map isLetter = some true) (hscheme : ∀ c ∈ scheme, isSchemeChar c = true)
      (huser : ∀ c ∈ user, isAuthorityChar c = true ∧ c ≠ ':')
      (hpw : ∀ c ∈ pw, isAuthorityChar c = true) (hpw' : ∀ c ∈ pw', isAuthorityChar c = true)
      (hhost : ∀ c ∈ host, isAuthorityChar c = true ∧ c ≠ '@')
      (hrest : ∀ c ∈ rest.head?, isAuthorityChar c = false) (hswap : Swapped pw pw')
      (hlimit : L.authority host rest) :
      UrlStep (lead ++ (scheme ++ ':' :: '/' :: '/' :: (user ++ ':' :: (pw ++ '@' :: (host ++ rest)))))
        (lead ++ (scheme ++ ':' :: '/' :: '/' :: (user ++ ':' :: (pw' ++ '@' :: (host ++ rest)))))
  | query {head q q' tail : Text} (hhead : '?' ∉ head) (hq : '#' ∉ q) (hq' : '#' ∉ q')
      (htail : ∀ c ∈ tail.head?, c = '#') (h : PairsAlike L.queryName (fun _ => True) q q') :
      UrlStep (head ++ '?' :: (q ++ tail)) (head ++ '?' :: (q' ++ tail))

abbrev UrlAlike : Text → Text → Prop := Relation.ReflTransGen (UrlStep L)

/-! ## Bodies -/

def mayDiffer (d : Nat) (k x x' : String) : Prop :=
  L.depth d ∧ isSensitiveName k.toList = true ∧ Swapped x.toList x'.toList

/-- Two texts inside `d` containers, and what they are read as. -/
def JsonAlike (d : Nat) (t t' : Text) (v v' : Json) : Prop :=
  ∃ s s' after, t = s ++ after ∧ t' = s' ++ after ∧ Blank after ∧
    Alike (mayDiffer L) d s s' (.value v) (.value v')

inductive TextAlike : Text → Text → Prop
  | same (t : Text) : TextAlike t t
  | form {t t' : Text} (hform : form = true)
      (h : PairsAlike L.formName (fun v => '\x00' ∉ v) t t') : TextAlike t t'
  | json {t t' : Text} {v v' : Json} (h : JsonAlike L 0 t t' v v') (hjson : L.json form)
      (hshown : L.shown v) : TextAlike t t'

/-! ## Requests -/

def RowAlike (r r' : Row) : Prop :=
  r.enabled = r'.enabled ∧ r.key = r'.key ∧
    (r.value = r'.value ∨ isSensitiveName r.key = true ∧ Swapped r.value r'.value)

def PartAlike (r r' : MultipartRow) : Prop :=
  r.enabled = r'.enabled ∧ r.key = r'.key ∧ r.kind = r'.kind ∧ r.fileName = r'.fileName ∧
    (r.value = r'.value ∨
      r.kind = .text ∧ isSensitiveName r.key = true ∧ Swapped r.value r'.value)

inductive AuthAlike : Auth → Auth → Prop
  | same (a : Auth) : AuthAlike a a
  | bearer {token token' : Text} (h : Swapped token token') :
      AuthAlike (.bearer token) (.bearer token')
  | basic {username password password' : Text} (h : Swapped password password') :
      AuthAlike (.basic username password) (.basic username password')
  | apikey {name value value' : Text} {inHeader : Bool} (hname : isSensitiveName name = true)
      (h : Swapped value value') :
      AuthAlike (.apikey name value inHeader) (.apikey name value' inHeader)

inductive BodyAlike : Body → Body → Prop
  | same (b : Body) : BodyAlike b b
  | text {mode : TextMode} {t t' : Text} (h : TextAlike L form t t') :
      BodyAlike (.text mode t) (.text mode t')
  | urlencoded {rows rows' : List Row} (h : List.Forall₂ RowAlike rows rows') :
      BodyAlike (.urlencoded rows) (.urlencoded rows')
  | multipart {rows rows' : List MultipartRow} (h : List.Forall₂ PartAlike rows rows') :
      BodyAlike (.multipart rows) (.multipart rows')

inductive VariablesAlike : Text → Text → Prop
  | same (t : Text) : VariablesAlike t t
  | json {t t' : Text} {v v' : Json} (h : JsonAlike L 1 t t' v v') (hjson : L.json form) :
      VariablesAlike t t'

inductive RequestAlike : ApiRequest → ApiRequest → Prop
  | http {req req' : HttpRequest} (params : List.Forall₂ RowAlike req.params req'.params)
      (headers : List.Forall₂ RowAlike req.headers req'.headers) (auth : AuthAlike req.auth req'.auth)
      (body : BodyAlike L form req.body req'.body) : RequestAlike (.http req) (.http req')
  | graphql {req req' : GraphQlRequest} (headers : List.Forall₂ RowAlike req.headers req'.headers)
      (auth : AuthAlike req.auth req'.auth) (query : req.query = req'.query)
      (variablesText : VariablesAlike L form req.variablesText req'.variablesText)
      (operationName : req.operationName = req'.operationName) :
      RequestAlike (.graphql req) (.graphql req')

/-! ## What is sent -/

def HeaderAlike (h h' : Text × Text) : Prop :=
  h.1 = h'.1 ∧ (h.2 = h'.2 ∨ isSensitiveName h.1 = true ∧ Swapped h.2 h'.2 ∧ L.header h.2 h'.2)

/-- What a form with parts is sent as does not show. -/
inductive BytesAlike (req : ApiRequest) : Option Text → Option Text → Prop
  | none : BytesAlike req none none
  | encoded {rows : List MultipartRow} (h : templateOf req = .form rows) (b b' : Option Text) :
      BytesAlike req b b'
  | text {b b' : Text} (h : TextAlike L form (decodeText b) (decodeText b')) :
      BytesAlike req (some b) (some b')

/-- Whether the body goes out as a form. -/
def formOf (req : ApiRequest) (spec : HttpRequestSpec) : Bool :=
  isFormType (contentTypeOut (keptHeaders spec.headers)) || req.isUrlencoded

structure SpecAlike (req : ApiRequest) (spec spec' : HttpRequestSpec) : Prop where
  method : spec.method = spec'.method
  url : UrlAlike L spec.url spec'.url
  headers : List.Forall₂ (HeaderAlike L) spec.headers spec'.headers
  body : BytesAlike L (formOf req spec) req spec.body spec'.body
  insecureTls : spec.insecureTls = spec'.insecureTls
  maxRedirects : spec.maxRedirects = spec'.maxRedirects
  timeoutMs : spec.timeoutMs = spec'.timeoutMs

/-! ## What the masking covers -/

/-- A masked field, with no more than 64 containers around its object. -/
inductive HasSecret : Nat → Json → Prop
  | item {d : Nat} {items : List Json} {v : Json} (hd : d ≤ 64) (hv : v ∈ items)
      (h : HasSecret (d + 1) v) : HasSecret d (.arr items)
  | field {d : Nat} {fields : List (String × Json)} {kv : String × Json} (hd : d ≤ 64)
      (hv : kv ∈ fields) (h : HasSecret (d + 1) kv.2) : HasSecret d (.obj fields)
  | here {d : Nat} {fields : List (String × Json)} {kv : String × Json} (hd : d ≤ 64)
      (hv : kv ∈ fields) (h : isMasked kv.1 kv.2 = true) : HasSecret d (.obj fields)

def covered : Limits where
  depth d := d ≤ 65
  json form := form = false
  shown v := HasSecret 0 v
  queryName n := isSensitiveName (queryName n) = true
  formName n := isSensitiveName (formName n) = true
  header v v' := hasControl v = hasControl v'
  authority host rest := rest.head? = some '#' → ApiUrl.guarded host = false

end OpsMaxx.Curl
