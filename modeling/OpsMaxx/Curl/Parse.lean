import OpsMaxx.Curl.Request

/-! # A command line read as a request

`parseCurl` of `shared/curl.ts`. The ids and the name of the imported request are left out, and
the number behind `--max-redirs` or `--max-time` is kept as it is written.
-/

set_option autoImplicit false

namespace OpsMaxx.Curl

open Strings

/-! ## Flags -/

inductive Flag
  | request | url | header | data | dataBinary | dataRaw | dataUrlencode | json | form | formString
  | user | get | head | location | locationTrusted | maxRedirs | maxTime | userAgent | referer
  | cookie | uploadFile | config | insecure | cert | route | silent | proxy | other
deriving DecidableEq, Repr

def FLAGS : List (String × Flag) :=
  [("request", .request), ("url", .url), ("header", .header), ("data", .data),
    ("data-ascii", .data), ("data-binary", .dataBinary), ("data-raw", .dataRaw),
    ("data-urlencode", .dataUrlencode), ("json", .json), ("form", .form),
    ("form-string", .formString), ("user", .user), ("get", .get), ("head", .head),
    ("location", .location), ("location-trusted", .locationTrusted), ("max-redirs", .maxRedirs),
    ("max-time", .maxTime), ("user-agent", .userAgent), ("referer", .referer),
    ("cookie", .cookie), ("upload-file", .uploadFile), ("config", .config),
    ("insecure", .insecure), ("cacert", .cert), ("capath", .cert), ("cert", .cert),
    ("key", .cert), ("cert-type", .cert), ("key-type", .cert), ("resolve", .route),
    ("connect-to", .route), ("unix-socket", .route), ("abstract-unix-socket", .route),
    ("interface", .route), ("compressed", .silent), ("silent", .silent), ("show-error", .silent),
    ("verbose", .silent), ("include", .silent), ("no-progress-meter", .silent),
    ("progress-bar", .silent)]

def flagOf (name : Text) : Flag :=
  match FLAGS.find? fun f => f.1.toList = name with
  | some f => f.2
  | none =>
    if ["proxy", "socks", "preproxy"].any fun p => p.toList.isPrefixOf name then .proxy else .other

def SHORT_WITH_ARG : Text := "XHdubAmxTKEFeocDwrzQtYyU".toList

def LONG_WITH_ARG : List String :=
  ["request", "header", "data", "data-ascii", "data-raw", "data-binary", "data-urlencode", "json",
    "form", "form-string", "user", "url", "cookie", "max-redirs", "max-time", "user-agent",
    "referer", "proxy", "socks4", "socks4a", "socks5", "socks5-hostname", "preproxy", "proxy-user",
    "proxy-header", "proxy-cacert", "proxy-cert", "proxy-key", "cacert", "capath", "cert", "key",
    "cert-type", "key-type", "resolve", "connect-to", "unix-socket", "abstract-unix-socket",
    "interface", "upload-file", "config", "output", "cookie-jar", "dump-header", "write-out",
    "range", "connect-timeout", "retry", "limit-rate", "oauth2-bearer", "aws-sigv4", "pass",
    "ciphers", "dns-servers", "local-port", "noproxy", "trace", "trace-ascii", "stderr",
    "variable", "expand-data", "expand-url", "expand-header"]

def SHORT_LONG : List (Char × String) :=
  [('X', "request"), ('H', "header"), ('d', "data"), ('u', "user"), ('b', "cookie"),
    ('A', "user-agent"), ('m', "max-time"), ('x', "proxy"), ('T', "upload-file"), ('K', "config"),
    ('E', "cert"), ('F', "form"), ('e', "referer"), ('o', "output"), ('c', "cookie-jar"),
    ('D', "dump-header"), ('w', "write-out"), ('r', "range"), ('L', "location"), ('G', "get"),
    ('I', "head"), ('k', "insecure"), ('s', "silent"), ('S', "show-error"), ('v', "verbose"),
    ('i', "include"), ('Q', "quote"), ('t', "telnet-option"), ('Y', "speed-limit"),
    ('y', "speed-time"), ('U', "proxy-user"), ('z', "time-cond")]

def longName (c : Char) : Text :=
  match SHORT_LONG.find? fun f => f.1 = c with
  | some f => f.2.toList
  | none => ['-', c]

/-! ## The draft -/

structure FormField where
  key : Text
  value : Text
  file : Option Text
deriving DecidableEq, Repr

structure Draft where
  method : Option Text := none
  url : Option Text := none
  headers : List (Text × Text) := []
  data : List Text := []
  urlencoded : List (Text × Text) := []
  form : List FormField := []
  json : Option Text := none
  binaryFile : Option Text := none
  user : Option Text := none
  get : Bool := false
  head : Bool := false
  location : Bool := false
  maxRedirs : Option Text := none
  maxTime : List Text := []
  positional : List Text := []
  notes : List Note := []
deriving DecidableEq, Repr

def Draft.note (d : Draft) (n : Note) : Draft :=
  if n ∈ d.notes then d else { d with notes := d.notes ++ [n] }

def isSlash (c : Char) : Bool := c = '/' || c = '\\'

/-- `p.split(/[\\/]/).pop() || p`. -/
def baseName (p : Text) : Text :=
  if p.rtakeWhile (fun c => !isSlash c) = [] then p else p.rtakeWhile fun c => !isSlash c

def fileNote (flag : String) (path : Text) : Note :=
  .fileNotRead (flag.toList ++ " @".toList ++ baseName path)

def dropLineEnds (s : Text) : Text := s.filter fun c => !(c = '\r' || c = '\n')

/-- The header a `-H` argument gives, when it gives one. -/
def readHeader (v : Text) : Option (Text × Text) :=
  match splitFirst ':' v with
  | some (name, value) => some (trim name, trim value)
  | none => if v.getLast? = some ';' then some (trim v.dropLast, []) else none

/-- The field a `-F` argument gives; `readFiles` is off for `--form-string`. -/
def readField (readFiles : Bool) (key rest : Text) : FormField :=
  if readFiles = true ∧ (rest.head? = some '@' ∨ rest.head? = some '<') then
    ⟨key, [], some (baseName (rest.tail.takeWhile (· ≠ ';')))⟩
  else ⟨key, rest, none⟩

section Parse
variable [UpperCase]

def Draft.addData (d : Draft) (binary : Bool) (v : Text) : Draft :=
  if v.head? = some '@' then
    { d with binaryFile := some (baseName v.tail) }.note
      (fileNote (if binary then "--data-binary" else "-d") v.tail)
  else { d with data := d.data ++ [if binary then v else dropLineEnds v] }

def Draft.addUrlencoded (d : Draft) (v : Text) : Draft :=
  match splitFirst '=' v, splitFirst '@' v with
  | none, none => { d with urlencoded := d.urlencoded ++ [(v, [])] }
  | some (k, x), none => { d with urlencoded := d.urlencoded ++ [(k, x)] }
  | none, some (k, path) =>
    { d with urlencoded := d.urlencoded ++ [(k, [])] }.note (fileNote "--data-urlencode" path)
  | some (k, x), some (k', path) =>
    if k'.length < k.length then
      { d with urlencoded := d.urlencoded ++ [(k', [])] }.note (fileNote "--data-urlencode" path)
    else { d with urlencoded := d.urlencoded ++ [(k, x)] }

def Draft.addForm (d : Draft) (readFiles : Bool) (v : Text) : Draft :=
  match splitFirst '=' v with
  | none => d.note (.formNotPair ("-F ".toList ++ v))
  | some (key, rest) =>
    let field := readField readFiles key rest
    let d' := { d with form := d.form ++ [field] }
    match field.file with
    | some file =>
      d'.note (.fileNotRead ("-F ".toList ++ key ++ '=' :: rest.take 1 ++ file))
    | none => d'

/-- One flag, under its long name. -/
def Draft.apply (d : Draft) (name : Text) (value : Option Text) : Draft :=
  let v := value.getD []
  match flagOf name with
  | .request => { d with method := some (toUpperCase v) }
  | .url => { d with url := some v }
  | .header =>
    if v.head? = some '@' then d.note (fileNote "-H" v.tail)
    else { d with headers := d.headers ++ (readHeader v).toList }
  | .data => d.addData false v
  | .dataBinary => d.addData true v
  | .dataRaw => { d with data := d.data ++ [v] }
  | .dataUrlencode => d.addUrlencoded v
  | .json =>
    if v.head? = some '@' then d.note (fileNote "--json" v.tail)
    else { d with json := some (d.json.getD [] ++ v) }
  | .form => d.addForm true v
  | .formString => d.addForm false v
  | .user => { d with user := some v }
  | .get => { d with get := true }
  | .head => { d with head := true }
  | .location => { d with location := true }
  | .locationTrusted => { d with location := true }.note .locationTrusted
  | .maxRedirs => { d with maxRedirs := some v }
  | .maxTime => { d with maxTime := d.maxTime ++ [v] }
  | .userAgent => { d with headers := d.headers ++ [("User-Agent".toList, v)] }
  | .referer => { d with headers := d.headers ++ [("Referer".toList, v)] }
  | .cookie =>
    if '=' ∈ v then { d with headers := d.headers ++ [("Cookie".toList, v)] }
    else d.note (.cookieFile ("-b ".toList ++ baseName v))
  | .uploadFile =>
    { d with binaryFile := some (baseName v), method := some (d.method.getD "PUT".toList) }.note
      (fileNote "-T" v)
  | .config => d.note (.configFile ("-K ".toList ++ baseName v))
  | .insecure => d.note .insecure
  | .cert => d.note (.certNotImported ("--".toList ++ name))
  | .route => d.note (.routeFlag ("--".toList ++ name))
  | .silent => d
  | .proxy => d.note .proxy
  | .other => d.note (.unsupported (if name.head? = some '-' then name else "--".toList ++ name))

/-! ## The arguments -/

/-- Where the value of the last flag of a cluster comes from. -/
inductive ValueFrom
  | given (v : Text) | next | nowhere
deriving DecidableEq, Repr

/-- `-sSL` is three flags, `-XPOST` is `-X` with `POST`, `-sXPOST` is both: all but the last flag
are applied, and the last one is given back. -/
def shortFlags : Text → Draft → Draft × Text × ValueFrom
  | [], d => (d, [], .nowhere)
  | c :: cs, d =>
    if c ∈ SHORT_WITH_ARG then (d, longName c, if cs = [] then .next else .given cs)
    else if cs = [] then (d, longName c, .nowhere)
    else shortFlags cs (d.apply (longName c) none)

def readArgs : List Text → Draft → Draft
  | [], d => d
  | a :: rest, d =>
    if a = "--".toList then { d with positional := d.positional ++ rest }
    else if a.take 2 = "--".toList then
      match splitFirst '=' (a.drop 2) with
      | some (name, v) => readArgs rest (d.apply name (some v))
      | none =>
        if (a.drop 2) ∈ LONG_WITH_ARG.map String.toList then
          match rest with
          | v :: rest' => readArgs rest' (d.apply (a.drop 2) (some v))
          | [] => d.apply (a.drop 2) none
        else readArgs rest (d.apply (a.drop 2) none)
    else if a.head? = some '-' ∧ 1 < a.length then
      let (d', name, from') := shortFlags a.tail d
      match from' with
      | .given v => readArgs rest (d'.apply name (some v))
      | .nowhere => readArgs rest (d'.apply name none)
      | .next =>
        match rest with
        | v :: rest' => readArgs rest' (d'.apply name (some v))
        | [] => d'.apply name none
    else readArgs rest { d with positional := d.positional ++ [a] }

end Parse

/-! ## The request -/

def readPart (x : Text) : Text := (decodeURIComponent (plusToSpace x)).getD x

def readPair (pair : Text) : Text × Text :=
  match splitFirst '=' pair with
  | none => (readPart pair, [])
  | some (k, v) => (readPart k, readPart v)

def parseQuery (url : Text) : List (Text × Text) :=
  match splitFirst '?' url with
  | none => []
  | some (_, query) =>
    (((query.takeWhile (· ≠ '#')).splitOn '&').filter (· ≠ [])).map readPair

def rowsOf (pairs : List (Text × Text)) : List Row := pairs.map fun p => ⟨true, p.1, p.2⟩

def containsText (word : String) (s : Text) : Bool :=
  (s.map Char.toLower).tails.any fun t => word.toList.isPrefixOf t

def contentTypeOf (headers : List (Text × Text)) : Text :=
  match headers.find? fun h => toLowerCase h.1 = contentTypeName with
  | some h => h.2
  | none => []

/-- `/^\s*[[{]/`. -/
def looksJson (s : Text) : Bool :=
  match trimStart s with
  | c :: _ => c = '[' || c = '{'
  | [] => false

def isFormPair (pair : Text) : Bool :=
  match splitFirst '=' pair with
  | some (name, _) => name ≠ [] && name.all fun c => !isSpace c
  | none => false

/-- `/^[^=&\s]+=[^&]*(&[^=&\s]+=[^&]*)*$/`. -/
def isFormText (s : Text) : Bool := (s.splitOn '&').all isFormPair

/-- The body of a text that `-d` flags gave. -/
def bodyOfText (contentType : Text) (urlencoded : Bool) (s : Text) : Body :=
  if containsText "json" contentType || looksJson s then .text .json s
  else if containsText "xml" contentType then .text .xml s
  else if urlencoded || isFormText s then .urlencoded (rowsOf (parseQuery ('?' :: s)))
  else .text .text s

def joinedData (d : Draft) : Text :=
  ['&'].intercalate (d.data ++ d.urlencoded.map fun p =>
    if p.1 = [] then encodeURIComponent p.2 else p.1 ++ '=' :: encodeURIComponent p.2)

def partOf (f : FormField) : MultipartRow :=
  match f.file with
  | some (c :: cs) => { enabled := true, key := f.key, value := f.value, kind := .file,
                        fileName := some (c :: cs) }
  | _ => { enabled := true, key := f.key, value := f.value, kind := .text, fileName := none }

def draftBody (d : Draft) : Body :=
  match d.json with
  | some text => .text .json text
  | none =>
    if d.form ≠ [] then .multipart (d.form.map partOf)
    else if joinedData d = [] then
      match d.binaryFile with
      | some f => .binary (some f)
      | none => .none
    else if d.get then .none
    else bodyOfText (contentTypeOf d.headers) (d.urlencoded ≠ []) (joinedData d)

/-- The URL, with the data behind it when `-G` moved it there. -/
def draftUrl (d : Draft) (url : Text) : Text :=
  if d.json = none ∧ d.form = [] ∧ joinedData d ≠ [] ∧ d.get then
    url ++ (if '?' ∈ url then '&' else '?') :: joinedData d
  else url

def draftHeaders (d : Draft) : List (Text × Text) :=
  let has := fun name : String => d.headers.any fun h => toLowerCase h.1 = name.toList
  d.headers
    ++ (if d.json ≠ none ∧ contentTypeOf d.headers = [] then
        [("Content-Type".toList, "application/json".toList)] else [])
    ++ (if d.json ≠ none ∧ has "accept" = false then
        [("Accept".toList, "application/json".toList)] else [])

def draftAuth (d : Draft) : Auth :=
  match d.user with
  | none => .none
  | some user =>
    match splitFirst ':' user with
    | none => .basic user []
    | some (name, password) => .basic name password

def draftMethod (d : Draft) : Text :=
  if d.head then HEAD
  else if d.get then GET
  else d.method.getD (if draftBody d = .none then GET else "POST".toList)

inductive ParseError
  | token (e : TokenError)
  | notCurl
  | noUrl
deriving DecidableEq, Repr

/-- `/(^|[\\/])curl(\.exe)?$/i`. -/
def isCurl (arg : Text) : Bool :=
  let base := (arg.rtakeWhile fun c => !isSlash c).map Char.toLower
  base = "curl".toList || base = "curl.exe".toList

def draftRequest (d : Draft) (url : Text) : HttpRequest :=
  { method := draftMethod d
    url := draftUrl d url
    params := rowsOf (parseQuery (draftUrl d url))
    headers := rowsOf (draftHeaders d)
    auth := draftAuth d
    body := draftBody d
    settings :=
      { followRedirects := d.location
        maxRedirects := if d.location then d.maxRedirs else none
        timeout := d.maxTime } }

def parseDraft (d : Draft) : Except ParseError (HttpRequest × List Note) :=
  match d.url, d.positional with
  | some (c :: cs), ps =>
    .ok (draftRequest d (c :: cs), if ps ≠ [] then (d.note .firstUrlOnly).notes else d.notes)
  | none, (c :: cs) :: ps =>
    .ok (draftRequest d (c :: cs), if ps ≠ [] then (d.note .firstUrlOnly).notes else d.notes)
  | _, _ => .error .noUrl

def parseCurl [UpperCase] (text : Text) : Except ParseError (HttpRequest × List Note) :=
  match tokenize (trim text) with
  | .error e => .error (.token e)
  | .ok tokens =>
    match tokens.args with
    | [] => .error .notCurl
    | a :: args =>
      if isCurl a then
        parseDraft (readArgs args { notes := if tokens.expansion then [.noExpansion] else [] })
      else .error .notCurl

end OpsMaxx.Curl

/-! ## What the import reads in a copied command

The command `toCurl` writes is split into the arguments it was made of, line ends apart, and those
arguments give one draft.
-/

namespace OpsMaxx.Curl

open Strings

/-! ## Its words -/

/-- A flag with its argument, as written once line ends are rewritten, and as read. -/
def flagRead (flag : String) (arg : Text) : Text × List Text :=
  (flagged flag (unixLines arg), [flag.toList, unixLines arg])

def bodyRead : OutBody → List (Text × List Text)
  | .none => []
  | .text text _ => [flagRead "--data-raw" text]
  | .form rows => rows.map fun r => flagRead "-F" (formArg r)
  | .file name => [flagRead "--data-binary" ('@' :: name)]

def insecureRead (insecure : Bool) : List (Text × List Text) :=
  if insecure then [("-k".toList, ["-k".toList])] else []

def redirectRead (redirects : Nat) : List (Text × List Text) :=
  if 0 < redirects then
    [("-L".toList ++ ' ' :: ("--max-redirs".toList ++ ' ' :: digits redirects),
      ["-L".toList, "--max-redirs".toList, digits redirects])]
  else []

def timeoutRead (timeout : Nat) : List (Text × List Text) :=
  if timeout ≠ 0 ∧ timeout ≠ 30000 then
    [("--max-time".toList ++ ' ' :: digits ((timeout + 999) / 1000),
      ["--max-time".toList, digits ((timeout + 999) / 1000)])]
  else []

def readParts (out : Outgoing) (spec : HttpRequestSpec) : List (Text × List Text) :=
  [("curl".toList, ["curl".toList])]
    ++ (if out.method ≠ GET then [flagRead "-X" out.method] else [])
    ++ [(shellQuote (unixLines out.url), [unixLines out.url])]
    ++ out.headers.map (fun h => flagRead "-H" (headerArg h))
    ++ bodyRead out.body
    ++ insecureRead out.insecure
    ++ redirectRead (spec.maxRedirects.getD 0)
    ++ timeoutRead (spec.timeoutMs.getD 0)

theorem digits_bare (n : Nat) : digits n ≠ [] ∧ ∀ c ∈ digits n, isBare c = true := by
  constructor
  · exact Nat.toDigits_ne_nil
  · intro c hc
    have hdigit : c.isDigit = true := Nat.isDigit_of_mem_toDigits (by decide) (by decide) hc
    have hbounds := Strings.isDigit_iff.mp hdigit
    simp [isBare, isAlphanumeric, hbounds]

theorem no_cr_of_bare {s : Text} (h : ∀ c ∈ s, isBare c = true) : unixLines s = s := by
  rw [unixLines_eq_self]
  intro hm
  exact absurd (h _ hm) (by decide)

theorem unixLines_words {s : Text} (h : ∀ c ∈ s, isBare c = true) (rest : Text) :
    unixLines (s ++ ' ' :: rest) = s ++ ' ' :: unixLines rest := by
  show unixLinesFrom false _ = _
  rw [unixLinesFrom_append false s (by decide) (by decide)]
  show unixLines s ++ _ = _
  rw [no_cr_of_bare h]

theorem unixLines_flagged {flag : String} (h : ∀ c ∈ flag.toList, isBare c = true) (arg : Text) :
    unixLines (flagged flag arg) = (flagRead flag arg).1 := by
  unfold flagged
  rw [unixLines_words h, unixLines_shellQuote]
  rfl

theorem flagRead_reads {flag : String} (hne : flag.toList ≠ [])
    (h : ∀ c ∈ flag.toList, isBare c = true) (arg : Text) :
    Reads (flagRead flag arg).1 (flagRead flag arg).2 :=
  (bare_spells hne h).reads.words (shellQuote_spells _).reads

theorem bare_reads {w : Text} (hne : w ≠ []) (h : ∀ c ∈ w, isBare c = true) : Reads w [w] :=
  (bare_spells hne h).reads

theorem bodyRead_fst (b : OutBody) : (bodyRead b).map Prod.fst = (bodyParts b).map unixLines := by
  cases b with
  | none => rfl
  | text t ct =>
    show [_] = [_]
    rw [unixLines_flagged (by decide)]
  | form rows =>
    show (rows.map _).map _ = (rows.map _).map _
    rw [List.map_map, List.map_map]
    apply List.map_congr_left
    intro r _
    exact (unixLines_flagged (by decide) _).symm
  | file name =>
    show [_] = [_]
    rw [unixLines_flagged (by decide)]

theorem insecureRead_fst (insecure : Bool) :
    (insecureRead insecure).map Prod.fst = (insecureParts insecure).map unixLines := by
  unfold insecureRead insecureParts
  split_ifs
  · show [_] = [_]
    rw [no_cr_of_bare (by decide)]
  · rfl

theorem redirectRead_fst (redirects : Nat) :
    (redirectRead redirects).map Prod.fst = (redirectParts redirects).map unixLines := by
  unfold redirectRead redirectParts
  split_ifs
  · show [_] = [_]
    rw [unixLines_words (by decide), unixLines_words (by decide),
      no_cr_of_bare (digits_bare redirects).2]
  · rfl

theorem timeoutRead_fst (timeout : Nat) :
    (timeoutRead timeout).map Prod.fst = (timeoutParts timeout).map unixLines := by
  unfold timeoutRead timeoutParts
  split_ifs
  · show [_] = [_]
    rw [unixLines_words (by decide), no_cr_of_bare (digits_bare _).2]
  · rfl

theorem readParts_fst (out : Outgoing) (spec : HttpRequestSpec) :
    (readParts out spec).map Prod.fst = (parts out spec).map unixLines := by
  have hcurl : unixLines "curl".toList = "curl".toList := no_cr_of_bare (by decide)
  unfold readParts parts
  simp only [List.map_append, List.map_map, bodyRead_fst, insecureRead_fst,
    redirectRead_fst, timeoutRead_fst, List.map_cons, List.map_nil, hcurl, unixLines_shellQuote]
  congr 5
  · split_ifs
    · rw [List.map_cons, List.map_cons, unixLines_flagged (by decide)]
      rfl
    · rfl
  · apply List.map_congr_left
    intro h _
    exact (unixLines_flagged (by decide) _).symm

theorem bodyRead_reads (b : OutBody) : ∀ p ∈ bodyRead b, Reads p.1 p.2 := by
  intro p hp
  cases b with
  | none => exact absurd hp List.not_mem_nil
  | text t ct =>
    rw [List.mem_singleton.mp hp]
    exact flagRead_reads (by decide) (by decide) _
  | form rows =>
    obtain ⟨r, -, rfl⟩ := List.mem_map.mp hp
    exact flagRead_reads (by decide) (by decide) _
  | file name =>
    rw [List.mem_singleton.mp hp]
    exact flagRead_reads (by decide) (by decide) _

theorem digits_reads (n : Nat) : Reads (digits n) [digits n] :=
  bare_reads (digits_bare n).1 (digits_bare n).2

theorem insecureRead_reads (insecure : Bool) : ∀ p ∈ insecureRead insecure, Reads p.1 p.2 := by
  intro p hp
  unfold insecureRead at hp
  split_ifs at hp
  · rw [List.mem_singleton.mp hp]
    exact bare_reads (by decide) (by decide)
  · exact absurd hp List.not_mem_nil

theorem redirectRead_reads (redirects : Nat) : ∀ p ∈ redirectRead redirects, Reads p.1 p.2 := by
  intro p hp
  unfold redirectRead at hp
  split_ifs at hp
  · rw [List.mem_singleton.mp hp]
    apply Reads.words (bare_reads (by decide) (by decide))
    exact Reads.words (bare_reads (by decide) (by decide)) (digits_reads _)
  · exact absurd hp List.not_mem_nil

theorem timeoutRead_reads (timeout : Nat) : ∀ p ∈ timeoutRead timeout, Reads p.1 p.2 := by
  intro p hp
  unfold timeoutRead at hp
  split_ifs at hp
  · rw [List.mem_singleton.mp hp]
    exact Reads.words (bare_reads (by decide) (by decide)) (digits_reads _)
  · exact absurd hp List.not_mem_nil

theorem readParts_reads (out : Outgoing) (spec : HttpRequestSpec) :
    ∀ p ∈ readParts out spec, Reads p.1 p.2 := by
  intro p hp
  unfold readParts at hp
  simp only [List.mem_append, List.mem_singleton, List.mem_map] at hp
  rcases hp with ((((((hp | hp) | hp) | hp) | hp) | hp) | hp) | hp
  · rw [hp]
    exact bare_reads (by decide) (by decide)
  · split_ifs at hp
    · rw [List.mem_singleton.mp hp]
      exact flagRead_reads (by decide) (by decide) _
    · exact absurd hp List.not_mem_nil
  · rw [hp]
    exact (shellQuote_spells _).reads
  · obtain ⟨h, -, rfl⟩ := hp
    exact flagRead_reads (by decide) (by decide) _
  · exact bodyRead_reads _ p hp
  · exact insecureRead_reads _ p hp
  · exact redirectRead_reads _ p hp
  · exact timeoutRead_reads _ p hp

end OpsMaxx.Curl
