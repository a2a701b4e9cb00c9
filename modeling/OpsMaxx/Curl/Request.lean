import OpsMaxx.Curl.Shell

/-! # A request, what is sent for it, and the command it is copied as

The request of `shared/apiModel.ts`, the spec `shared/apiRequestBuild.ts` sends for it, and
`outgoing` and `toCurl` of `shared/curl.ts` with secrets included.
-/

set_option autoImplicit false

namespace OpsMaxx.Curl
open Strings

/-- What `toUpperCase` does to a character. -/
class UpperCase where
  upper : Char → Text
  upper_upper : ∀ c, (upper c).flatMap upper = upper c
  upper_ascii : ∀ c : Char, c.toNat < 128 → upper c = [c.toUpper]
  upper_cr : ∀ c, '\r' ∈ upper c → c = '\r'

def toUpperCase [UpperCase] (s : Text) : Text := s.flatMap UpperCase.upper

/-! ## Requests -/

structure Row where
  enabled : Bool
  key : Text
  value : Text
deriving DecidableEq, Repr

inductive PartKind
  | text | file
deriving DecidableEq, Repr

structure MultipartRow extends Row where
  kind : PartKind
  fileName : Option Text
deriving DecidableEq, Repr

inductive TextMode
  | json | text | xml
deriving DecidableEq, Repr

inductive Body
  | none
  | text (mode : TextMode) (text : Text)
  | urlencoded (rows : List Row)
  | multipart (rows : List MultipartRow)
  | binary (fileName : Option Text)
deriving DecidableEq, Repr

inductive Auth
  | inherit
  | none
  | bearer (token : Text)
  | basic (username password : Text)
  | apikey (name value : Text) (inHeader : Bool)
deriving DecidableEq, Repr

/-- The number behind a flag is kept as it is written. -/
structure Settings where
  followRedirects : Bool
  maxRedirects : Option Text
  timeout : List Text
deriving DecidableEq, Repr

structure HttpRequest where
  method : Text
  url : Text
  params : List Row
  headers : List Row
  auth : Auth
  body : Body
  settings : Settings
deriving DecidableEq, Repr

/-- `body` is the text whose UTF-8 bytes are sent, absent for GET and HEAD. -/
structure HttpRequestSpec where
  url : Text
  method : Text
  headers : List (Text × Text)
  body : Option Text
  viaDirect : Bool
  insecureTls : Bool
  caPem : Option Text
  maxRedirects : Option Nat
  timeoutMs : Option Nat
deriving DecidableEq, Repr

/-! ## What is sent -/

/-- What a build works with: the variables, the vault, the hosts that get `http`, and the bytes of
the bodies that are not text. -/
structure BuildCtx where
  tpl : Text → Text
  vaultResolve : Text → Text
  isPrivateHost : Text → Bool
  formBytes : List MultipartRow → Text
  fileBytes : Text

def isPresent (r : Row) : Bool := r.enabled && trim r.key ≠ []

/-- `bodyEncoder`. -/
def encodeBody (ctx : BuildCtx) : Body → Option Text
  | .none => none
  | .text _ text => some (ctx.tpl text)
  | .urlencoded rows =>
    some (formText ((rows.filter isPresent).map fun r =>
      (ctx.tpl r.key, ctx.vaultResolve (ctx.tpl r.value))))
  | .multipart rows => some (ctx.formBytes (rows.filter fun r => isPresent r.toRow))
  | .binary _ => some ctx.fileBytes

def GET : Text := "GET".toList
def HEAD : Text := "HEAD".toList

section Build
variable [UpperCase]

def methodAllowsBody (method : Text) : Bool :=
  toUpperCase method ≠ GET && toUpperCase method ≠ HEAD

def isSchemeChar (c : Char) : Bool := isAlphanumeric c || "+.-".toList.contains c

def isLetter (c : Char) : Bool :=
  (65 ≤ c.toNat && c.toNat ≤ 90) || (97 ≤ c.toNat && c.toNat ≤ 122)

/-- `/^([A-Za-z][A-Za-z0-9+.-]*):\/\//`. -/
def hasScheme (url : Text) : Bool :=
  (url.head?.map isLetter).getD false
    && (url.dropWhile isSchemeChar).take 3 = [':', '/', '/']

def ensureScheme (ctx : BuildCtx) (url : Text) : Text :=
  let trimmed := trim url
  if hasScheme trimmed then trimmed
  else if trimmed = [] ∨ trimmed.take 2 = ['{', '{'] then trimmed
  else (if ctx.isPrivateHost trimmed then "http".toList else "https".toList)
    ++ "://".toList ++ trimmed

def methodOf (req : HttpRequest) : Text :=
  if toUpperCase (trim req.method) = [] then GET else toUpperCase (trim req.method)

/-- A spec `buildHttpSpec` gives for a request: whatever its headers and its URL resolved to. -/
structure Sent (ctx : BuildCtx) (req : HttpRequest) (spec : HttpRequestSpec) : Prop where
  method : spec.method = methodOf req
  url : ∃ resolved, spec.url = ensureScheme ctx resolved
  body : spec.body = if methodAllowsBody spec.method then encodeBody ctx req.body else none

end Build

/-! ## What goes out -/

/-- What the import and the export have to say about a command. -/
inductive Note
  | fileNotRead (arg : Text)
  | noExpansion
  | formNotPair (arg : Text)
  | locationTrusted
  | cookieFile (arg : Text)
  | configFile (arg : Text)
  | insecure
  | certNotImported (arg : Text)
  | routeFlag (arg : Text)
  | proxy
  | unsupported (arg : Text)
  | firstUrlOnly
  | headerControlChars (name : Text)
  | formFiles
  | bodyFile
  | bodyBinary
  | customCa
  | routed
deriving DecidableEq, Repr

inductive TemplateBody
  | none
  | text (text : Text)
  | form (rows : List MultipartRow)
  | file (name : Text)
deriving DecidableEq, Repr

/-- `bodyFromTemplate` for an HTTP request. -/
def bodyFromTemplate (req : HttpRequest) : TemplateBody :=
  match req.body with
  | .none => .none
  | .text _ text => .text text
  | .urlencoded rows =>
    .text (['&'].intercalate ((rows.filter Row.enabled).map fun r =>
      encodeURIComponent r.key ++ '=' :: encodeURIComponent r.value))
  | .multipart rows => .form (rows.filter fun r => r.enabled)
  | .binary fileName => .file (fileName.getD "file".toList)

inductive OutBody
  | none
  | text (text contentType : Text)
  | form (rows : List MultipartRow)
  | file (name : Text)
deriving DecidableEq, Repr

structure Outgoing where
  method : Text
  url : Text
  headers : List (Text × Text)
  body : OutBody
  insecure : Bool
  notes : List Note
deriving DecidableEq, Repr

def hasControl (s : Text) : Bool := s.any fun c => c = '\r' || c = '\n' || c = '\x00'

def contentTypeName : Text := "content-type".toList

/-- The last header of that name, as the loop over the headers leaves it. -/
def contentTypeOut (headers : List (Text × Text)) : Text :=
  headers.foldl (fun ct h => if toLowerCase h.1 = contentTypeName then h.2 else ct) []

def keptHeaders (headers : List (Text × Text)) : List (Text × Text) :=
  headers.filter fun h => !(hasControl h.2 || hasControl h.1)

/-- `new TextDecoder().decode` of the UTF-8 bytes of a text: a leading byte order mark is left
out. -/
def decodeText (s : Text) : Text := if s.head? = some '\ufeff' then s.tail else s

/-- The text of the body, and the note when it was left out. -/
def outText (template : Option Text) (bytes : Option Text) : Option Text × List Note :=
  match bytes with
  | some b => if '\x00' ∈ decodeText b then (none, [.bodyBinary]) else (some (decodeText b), [])
  | none => (template, [])

def textBody (contentType : Text) : Option Text → OutBody
  | some (c :: cs) => .text (c :: cs) contentType
  | _ => .none

def outBody (req : HttpRequest) (spec : HttpRequestSpec) : OutBody × List Note :=
  let contentType := contentTypeOut (keptHeaders spec.headers)
  match bodyFromTemplate req with
  | .form rows =>
    (.form rows, if rows.any (fun r => r.kind = .file) then [.formFiles] else [])
  | .file name => (.file name, [.bodyFile])
  | .text text =>
    (textBody contentType (outText (some text) spec.body).1, (outText (some text) spec.body).2)
  | .none =>
    (textBody contentType (outText none spec.body).1, (outText none spec.body).2)

section Out
variable [UpperCase]

/-- `outgoing` with secrets included. -/
def outgoing (req : HttpRequest) (spec : HttpRequestSpec) : Outgoing :=
  { method := toUpperCase (if spec.method = [] then GET else spec.method)
    url := spec.url
    headers := keptHeaders spec.headers
    body := (outBody req spec).1
    insecure := spec.insecureTls
    notes := (spec.headers.filter fun h => hasControl h.2 || hasControl h.1).map
        (fun h => Note.headerControlChars h.1)
      ++ (outBody req spec).2
      ++ (if (spec.caPem.getD []) ≠ [] then [.customCa] else [])
      ++ (if spec.viaDirect then [] else [.routed]) }

def headerArg (h : Text × Text) : Text := h.1 ++ ':' :: ' ' :: h.2

def formArg (r : MultipartRow) : Text :=
  match r.kind with
  | .file => r.key ++ '=' :: '@' :: r.fileName.getD "file".toList
  | .text => r.key ++ '=' :: r.value

/-- A part of the command: a flag, and the argument quoted after it. -/
def flagged (flag : String) (arg : Text) : Text := flag.toList ++ ' ' :: shellQuote arg

def bodyParts : OutBody → List Text
  | .none => []
  | .text text _ => [flagged "--data-raw" text]
  | .form rows => rows.map fun r => flagged "-F" (formArg r)
  | .file name => [flagged "--data-binary" ('@' :: name)]

def digits (n : Nat) : Text := (Nat.toDigits 10 n)

def insecureParts (insecure : Bool) : List Text := if insecure then ["-k".toList] else []

def redirectParts (redirects : Nat) : List Text :=
  if 0 < redirects then
    ["-L".toList ++ ' ' :: ("--max-redirs".toList ++ ' ' :: digits redirects)]
  else []

def timeoutParts (timeout : Nat) : List Text :=
  if timeout ≠ 0 ∧ timeout ≠ 30000 then
    ["--max-time".toList ++ ' ' :: digits ((timeout + 999) / 1000)]
  else []

def parts (out : Outgoing) (spec : HttpRequestSpec) : List Text :=
  ["curl".toList]
    ++ (if out.method ≠ GET then [flagged "-X" out.method] else [])
    ++ [shellQuote out.url]
    ++ out.headers.map (fun h => flagged "-H" (headerArg h))
    ++ bodyParts out.body
    ++ insecureParts out.insecure
    ++ redirectParts (spec.maxRedirects.getD 0)
    ++ timeoutParts (spec.timeoutMs.getD 0)

def toCurl (req : HttpRequest) (spec : HttpRequestSpec) : Text × List Note :=
  (joinParts (parts (outgoing req spec) spec), (outgoing req spec).notes)

end Out

end OpsMaxx.Curl
