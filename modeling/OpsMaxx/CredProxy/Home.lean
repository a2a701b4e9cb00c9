import OpsMaxx.CredProxy.Confined

/-! # A credential goes to its own origin

Over every run of saves, removals, restarts and requests: the stored rules stay apart, and what a
request sends goes to the origin of the one rule it matched.
-/

set_option autoImplicit false

namespace OpsMaxx.CredProxy

open OpsMaxx.Strings OpsMaxx.Sidecar

variable {api : UrlApi}

/-! ## Runs -/

/-- The proxies of a run: opened on a file, whatever is in it, and then changed by saves, removals
and requests. A restart opens it again. -/
inductive Reachable (api : UrlApi) : Proxy → Prop where
  | opened (file : Json) : Reachable api (openProxy api file)
  | saved {p : Proxy} (h : Reachable api p) (draft : Json) (newId now : String) :
    Reachable api { p with rules := (saveRule api p.rules draft newId now).2 }
  | removed {p : Proxy} (h : Reachable api p) (id : Text) :
    Reachable api { p with rules := removeRule p.rules id }
  | handled {p : Proxy} (h : Reachable api p) (d : Deps) (req : Request) :
    Reachable api (handle api d p req).proxy

theorem sanitiseInjection_valid {v : Option Json} {inj : CredProxyInjection}
    (h : sanitiseInjection v = some inj) : validateInjection inj.kind.word inj.name = none := by
  unfold sanitiseInjection at h
  split at h
  · cases h
  · simp only at h
    split_ifs at h with hkind hvalid hvalid
    · obtain rfl := Option.some.inj h
      exact hvalid
    · obtain rfl := Option.some.inj h
      exact hvalid

theorem sanitiseRule_valid {raw : Json} {rule : CredProxyRule}
    (h : sanitiseRule api raw = some rule) : Valid rule := by
  unfold sanitiseRule at h
  simp only at h
  by_cases hid : trim (str (raw.get? "id")) = []
  · rw [if_pos hid] at h
    cases h
  · rw [if_neg hid] at h
    split at h
    · rename_i horigin hcredential hinjection
      obtain rfl := Option.some.inj h
      exact sanitiseInjection_valid hinjection
    · cases h

theorem sanitiseRules_valid (raw : Option Json) : ∀ r ∈ sanitiseRules api raw, Valid r := by
  unfold sanitiseRules
  split
  · rename_i items
    have hall : ∀ out : List CredProxyRule, (∀ r ∈ out, Valid r) →
        ∀ r ∈ items.foldl (keepRule api) out, Valid r := by
      induction items with
      | nil => exact fun _ h => h
      | cons item items ih =>
        intro out hout
        apply ih
        unfold keepRule
        cases hrule : sanitiseRule api item with
        | none => exact hout
        | some rule =>
          simp only
          split_ifs
          · exact hout
          · intro r hr
            obtain hr | hr := List.mem_append.mp hr
            · exact hout r hr
            · rw [List.mem_singleton.mp hr]
              exact sanitiseRule_valid hrule
    exact hall [] (by simp)
  · simp

theorem mem_putRule {rules : List CredProxyRule} {rule r : CredProxyRule}
    (h : r ∈ putRule rules rule) : r = rule ∨ r ∈ rules := by
  unfold putRule at h
  split at h
  · obtain hr | hr := List.mem_or_eq_of_mem_set h
    · exact Or.inr hr
    · exact Or.inl hr
  · obtain hr | hr := List.mem_append.mp h
    · exact Or.inr hr
    · exact Or.inl (List.mem_singleton.mp hr)

theorem saveRule_valid {rules : List CredProxyRule} (hrules : ∀ r ∈ rules, Valid r) (draft : Json)
    (newId now : String) : ∀ r ∈ (saveRule api rules draft newId now).2, Valid r := by
  unfold saveRule
  split
  · exact hrules
  · split
    · exact hrules
    · rename_i rule hrule
      split
      · exact hrules
      · intro r hr
        obtain rfl | hr := mem_putRule hr
        · exact sanitiseRule_valid hrule
        · exact hrules r hr

/-- A request leaves the rules alone. -/
theorem handle_rules (d : Deps) (p : Proxy) (req : Request) :
    (handle api d p req).proxy.rules = p.rules := by
  have hforward : ∀ (p : Proxy) target rule secret used,
      (forward api d p req target rule secret used).proxy = p := by
    intro p target rule secret used
    unfold forward send
    split_ifs
    · rfl
    · split
      · split
        · rfl
        · split
          · rfl
          · split
            · rfl
            · rfl
      · rfl
  unfold handle
  simp only
  split_ifs
  · rfl
  · split
    · rfl
    · unfold route
      simp only
      split
      · rfl
      · split
        · rfl
        · split_ifs
          · rfl
          · split
            · rw [hforward]
            · rfl
            · rfl

/-- What holds of the stored rules in every run. -/
structure Kept (rules : List CredProxyRule) : Prop where
  apart : Apart rules
  valid : ∀ r ∈ rules, Valid r

theorem kept_of_reachable {p : Proxy} (h : Reachable api p) : Kept p.rules := by
  induction h with
  | opened file => exact ⟨sanitiseRules_apart api _, sanitiseRules_valid _⟩
  | saved _ draft newId now ih =>
    exact ⟨saveRule_apart api ih.apart draft newId now, saveRule_valid ih.valid draft newId now⟩
  | removed _ id ih =>
    exact ⟨removeRule_apart ih.apart id, fun r hr => ih.valid r (List.mem_of_mem_filter hr)⟩
  | handled _ d req ih =>
    rw [handle_rules]
    exact ih

/-! ## One request -/

/-- A request that was sent as it should be: the caller presented the secret of a usable token; it
goes to the origin of the only rule of that origin, with the credential the rule refers to in the
place the rule names; and the rest of it is the caller's, without the client token. -/
structure SentHome (api : UrlApi) (d : Deps) (p : Proxy) (req : Request) (o : Outbound) :
    Prop where
  authenticated : presentedToken req ≠ [] ∧ ∃ t ∈ d.tokens,
    d.tokenSecret t.id = some (presentedToken req) ∧ credProxyTokenUsable d.dateParse t d.now = true
  home : ∃ rule ∈ p.rules, rule.enabled = true ∧
    (∀ r ∈ p.rules, r.origin = rule.origin → r = rule) ∧
    rule.origin = (o.url.withHostname (undot o.url.hostname)).origin ∧
    ∃ secret target base, d.resolveCredential rule.credential = .ok secret ∧
      parseProxyTarget api req.url = .ok target ∧
      passedOn (dropToken req) target.url = some base ∧
      Carries rule.injection secret o ∧
      blank rule.injection o = blank rule.injection base
  tokenless : ∀ h ∈ o.headers, h.1 ≠ CRED_PROXY_TOKEN_HEADER

theorem unique_origin {rules : List CredProxyRule} (h : Apart rules) {rule r : CredProxyRule}
    (hrule : rule ∈ rules) (hr : r ∈ rules) (horigin : r.origin = rule.origin) : r = rule :=
  List.inj_on_of_nodup_map h.2 hr hrule horigin

/-- Where a credential stands, the scheme, the host and the port do not. -/
theorem inject_origin {inj : CredProxyInjection} {secret : Text} {base o : Outbound}
    (h : inject inj secret base = some o) :
    o.url.protocol = base.url.protocol ∧ o.url.hostname = base.url.hostname ∧
      o.url.port = base.url.port := by
  have hblank := inject_blank h
  unfold blank at hblank
  simp only [Outbound.mk.injEq, Url.mk.injEq] at hblank
  exact ⟨hblank.1.1, hblank.1.2.2.1, hblank.1.2.2.2.1⟩

variable {d : Deps} {p : Proxy} {req : Request} {o : Outbound}

theorem sent_home (hk : Kept p.rules)
    (hdots : ∀ target, parseProxyTarget api req.url = .ok target →
      ¬['.', '.'] <:+ target.url.hostname)
    (h : o ∈ (handle api d p req).fetched) : SentHome api d p req o := by
  obtain ⟨-, token, htoken, target, rule, secret, url, base, hs⟩ := handle_sent h
  obtain ⟨hpresented, hmem, hsecret, husable⟩ := matchToken_ok htoken
  obtain ⟨text, hparse, hweb, hhost, horigin⟩ := target_origin hs.target_parsed
  have hurl : url = target.url := by
    have hagain := hs.reparsed
    rw [api.parse_href text target.url hparse hweb, Option.some.injEq] at hagain
    exact hagain.symm
  have hpassed := hs.passed
  have hbaseUrl : base.url = url ∧ ∀ x ∈ base.headers, x.1 ≠ CRED_PROXY_TOKEN_HEADER := by
    unfold passedOn at hpassed
    obtain ⟨headers, hheaders, rfl⟩ := Option.map_eq_some_iff.mp hpassed
    exact ⟨rfl, copyHeaders_token hheaders⟩
  have hfound : rule ∈ p.rules ∧
      rule.origin = (target.url.withHostname (undot target.url.hostname)).origin := by
    have hmatched := hs.matched
    unfold matchRule at hmatched
    split at hmatched
    · cases hmatched
    · rename_i want hwant
      rw [horigin] at hwant
      have hsame := normaliseOrigin_again hparse hweb hhost (hdots target hs.target_parsed) hwant
      have heq := List.find?_some hmatched
      refine ⟨List.mem_of_find?_eq_some hmatched, ?_⟩
      rw [← hsame]
      exact of_decide_eq_true heq
  obtain ⟨hp, hh, hport⟩ := inject_origin hs.injected
  rw [hbaseUrl.1, hurl] at hp hh hport
  refine ⟨⟨hpresented, token, hmem, hsecret, husable⟩, ⟨rule, hfound.1, hs.enabled, ?_, ?_,
    secret, target, base, hs.resolved, hs.target_parsed, ?_, inject_carries hs.injected,
    inject_blank hs.injected⟩, inject_token (hk.valid rule hfound.1) hs.injected hbaseUrl.2⟩
  · intro r hr hsame
    exact unique_origin hk.apart hfound.1 hr hsame
  · rw [hfound.2]
    apply origin_congr
    · exact hp.symm
    · show undot target.url.hostname = undot o.url.hostname
      rw [hh]
    · exact hport.symm
  · rw [passedOn_dropToken, ← hurl]
    exact hpassed

/-- In every run the stored rules share no id and no origin, a request is sent at most once, and it
is sent home, when its target's host does not end in two dots. -/
theorem credential_stays_home (hp : Reachable api p) :
    Apart p.rules ∧ ∀ d req, (handle api d p req).fetched.length ≤ 1 ∧
      ((∀ target, parseProxyTarget api req.url = .ok target →
        ¬['.', '.'] <:+ target.url.hostname) →
      ∀ o ∈ (handle api d p req).fetched, SentHome api d p req o) := by
  have hk := kept_of_reachable hp
  refine ⟨hk.apart, ?_⟩
  intro d req
  constructor
  · cases hfetched : (handle api d p req).fetched with
    | nil => simp
    | cons o os =>
      have hmem : o ∈ (handle api d p req).fetched := by
        rw [hfetched]
        exact List.mem_cons_self
      rw [(handle_sent hmem).1] at hfetched
      obtain ⟨-, rfl⟩ := List.cons.inj hfetched
      simp
  · intro hdots o ho
    exact sent_home hk hdots ho

/-! ## Plain URLs

A parser of web URLs with a host of lower case letters, dots and dashes and a plain path.
-/

def isHostChar (c : Char) : Bool := ('a' ≤ c && c ≤ 'z') || c = '.' || c = '-'

def isPathChar (c : Char) : Bool := isHostChar c || c = '/'

/-- What is behind the scheme: a host, and nothing or a path. -/
def plainBehind (protocol : Text) (rest : Text) : Option Url :=
  let host := rest.takeWhile isHostChar
  let path := rest.dropWhile isHostChar
  if host = [] ∨ path.all isPathChar = false then none
  else some ⟨protocol, [], host, [], if path = [] then ['/'] else path, [], []⟩

def plainParse : Text → Option Url
  | 'h' :: 't' :: 't' :: 'p' :: 's' :: ':' :: '/' :: '/' :: rest =>
    plainBehind "https:".toList rest
  | 'h' :: 't' :: 't' :: 'p' :: ':' :: '/' :: '/' :: rest => plainBehind "http:".toList rest
  | _ => none

def plainHref (u : Url) : Text := u.protocol ++ "//".toList ++ u.hostname ++ u.pathname

/-- A URL the plain parser makes. -/
structure PlainUrl (u : Url) : Prop where
  web : u.web = true
  host_chars : ∀ c ∈ u.hostname, isHostChar c = true
  host_ne : u.hostname ≠ []
  path_chars : ∀ c ∈ u.pathname, isPathChar c = true
  path_head : ∃ rest, u.pathname = '/' :: rest
  bare : u.userinfo = [] ∧ u.port = [] ∧ u.query = [] ∧ u.hash = []

theorem plainBehind_some {protocol rest : Text} {u : Url}
    (hp : protocol = "https:".toList ∨ protocol = "http:".toList)
    (h : plainBehind protocol rest = some u) : PlainUrl u := by
  unfold plainBehind at h
  simp only at h
  by_cases hbad : rest.takeWhile isHostChar = [] ∨ (rest.dropWhile isHostChar).all isPathChar = false
  · rw [if_pos hbad] at h
    cases h
  · rw [if_neg hbad] at h
    rw [not_or, Bool.not_eq_false, List.all_eq_true] at hbad
    obtain rfl := Option.some.inj h
    refine ⟨?_, fun c hc => List.mem_takeWhile_imp hc, hbad.1, ?_, ?_, rfl, rfl, rfl, rfl⟩
    · obtain rfl | rfl := hp
      · rfl
      · rfl
    · intro c hc
      simp only at hc
      split_ifs at hc with hpath
      · rw [List.mem_singleton.mp hc]
        decide
      · exact hbad.2 c hc
    · cases hpath : rest.dropWhile isHostChar with
      | nil => exact ⟨[], rfl⟩
      | cons c cs =>
        have hc := hbad.2 c (by rw [hpath]; exact List.mem_cons_self)
        have hstop : isHostChar c = false := by
          have hhead := List.head?_dropWhile_not isHostChar rest
          rw [hpath] at hhead
          exact hhead
        have hslash : c = '/' := by simpa [isPathChar, hstop] using hc
        refine ⟨cs, ?_⟩
        show (if c :: cs = [] then ['/'] else c :: cs) = _
        rw [if_neg (by simp), hslash]

theorem plainParse_some {t : Text} {u : Url} (h : plainParse t = some u) : PlainUrl u := by
  unfold plainParse at h
  split at h
  · exact plainBehind_some (Or.inl rfl) h
  · exact plainBehind_some (Or.inr rfl) h
  · cases h

theorem plainParse_eq {u : Url} (hu : PlainUrl u) {path : Text}
    (hpath : path = [] ∧ u.pathname = ['/'] ∨ path = u.pathname) :
    plainParse (u.protocol ++ "//".toList ++ u.hostname ++ path) = some u := by
  have hbehind : ∀ protocol, u.protocol = protocol →
      plainBehind protocol (u.hostname ++ path) = some u := by
    intro protocol hprotocol
    have hstop : ∀ c, path.head? = some c → isHostChar c = false := by
      intro c hc
      obtain ⟨hnil, -⟩ | hsame := hpath
      · rw [hnil] at hc
        cases hc
      · obtain ⟨rest, hrest⟩ := hu.path_head
        rw [hsame, hrest] at hc
        cases hc
        decide
    have htake : (u.hostname ++ path).takeWhile isHostChar = u.hostname := by
      rw [List.takeWhile_append_of_pos hu.host_chars]
      cases path with
      | nil => simp
      | cons c cs => simp [hstop c rfl]
    have hdrop : (u.hostname ++ path).dropWhile isHostChar = path := by
      rw [List.dropWhile_append_of_pos hu.host_chars]
      cases path with
      | nil => rfl
      | cons c cs => simp [hstop c rfl]
    have hchars : path.all isPathChar = true := by
      rw [List.all_eq_true]
      obtain ⟨hnil, -⟩ | hsame := hpath
      · simp [hnil]
      · rw [hsame]
        exact hu.path_chars
    have hpathname : (if path = [] then ['/'] else path) = u.pathname := by
      obtain ⟨hnil, hroot⟩ | hsame := hpath
      · rw [if_pos hnil, hroot]
      · obtain ⟨rest, hrest⟩ := hu.path_head
        rw [if_neg (by simp [hsame, hrest]), hsame]
    unfold plainBehind
    simp only [htake, hdrop, hchars, hpathname]
    rw [if_neg (by simp [hu.host_ne]), ← hprotocol]
    obtain ⟨huser, hport, hquery, hhash⟩ := hu.bare
    rw [← huser]
    conv_rhs => rw [show u = ⟨u.protocol, u.userinfo, u.hostname, u.port, u.pathname, u.query,
      u.hash⟩ from rfl, hport, hquery, hhash]
    rw [huser]
  have hweb := hu.web
  unfold Url.web at hweb
  simp only [Bool.or_eq_true, decide_eq_true_eq] at hweb
  rw [List.append_assoc]
  obtain hp | hp := hweb
  · rw [hp]
    exact hbehind _ hp
  · rw [hp]
    exact hbehind _ hp

/-- The root page of a host. -/
theorem plainParse_origin {u : Url} (hu : PlainUrl u) {host : Text}
    (hchars : ∀ c ∈ host, isHostChar c = true) (hne : host ≠ []) :
    ∃ v, plainParse (u.withHostname host).origin = some v ∧ v.protocol = u.protocol ∧
      v.hostname = host ∧ v.port = u.port := by
  have hroot : PlainUrl { u with hostname := host, pathname := ['/'] } :=
    ⟨hu.web, hchars, hne, show ∀ c ∈ ['/'], isPathChar c = true by decide, ⟨[], rfl⟩, hu.bare⟩
  refine ⟨{ u with hostname := host, pathname := ['/'] }, ?_, rfl, rfl, rfl⟩
  have hparse := plainParse_eq hroot (Or.inl ⟨rfl, rfl⟩)
  unfold Url.origin Url.withHostname
  rw [← hparse, if_pos hu.bare.2.1]

theorem isHostChar_ink {c : Char} (h : isHostChar c = true) : isInk c = true := by
  simp only [isHostChar, Bool.or_eq_true, Bool.and_eq_true, decide_eq_true_eq] at h
  obtain (hletter | rfl) | rfl := h
  · have hrange : 97 ≤ c.toNat ∧ c.toNat ≤ 122 := hletter
    simp only [isInk, isSpace, List.mem_cons, List.not_mem_nil, or_false, Bool.not_eq_true',
      Bool.or_eq_false_iff, decide_eq_false_iff_not, Bool.and_eq_false_iff]
    omega
  · decide
  · decide

theorem plainUrl_ink {u : Url} (hu : PlainUrl u) : ∀ c ∈ u.origin, isInk c = true := by
  have hweb := hu.web
  unfold Url.web at hweb
  simp only [Bool.or_eq_true, decide_eq_true_eq] at hweb
  intro c hc
  unfold Url.origin at hc
  rw [if_pos hu.bare.2.1, List.append_nil] at hc
  obtain hc | hc := List.mem_append.mp hc
  · have hscheme : ∀ c ∈ "https:".toList ++ "//".toList, isInk c = true := by decide
    have hscheme' : ∀ c ∈ "http:".toList ++ "//".toList, isInk c = true := by decide
    obtain hp | hp := hweb
    · rw [hp] at hc
      exact hscheme c hc
    · rw [hp] at hc
      exact hscheme' c hc
  · exact isHostChar_ink (hu.host_chars c hc)

def plainApi : UrlApi where
  parse := plainParse
  href := plainHref
  resolve := fun _ _ => none
  parse_href := by
    intro t u h _
    exact plainParse_eq (plainParse_some h) (Or.inr rfl)
  origin_ink := by
    intro t u h _
    exact plainUrl_ink (plainParse_some h)
  parse_origin := by
    intro t u h _
    have hu := plainParse_some h
    exact plainParse_origin hu hu.host_chars hu.host_ne
  parse_undotted := by
    intro t u host h _ hdotted hne _
    have hu := plainParse_some h
    apply plainParse_origin hu _ hne
    intro c hc
    apply hu.host_chars
    rw [hdotted]
    exact List.mem_append_left _ hc

/-! ## A rule for one API -/

def exampleFile : Json :=
  .obj [("rules", .arr [.obj [("id", .str "r1"), ("origin", .str "https://api.example.com"),
    ("credential", .obj [("vaultEntryId", .str "v1")]),
    ("injection", .obj [("kind", .str "bearer")])]])]

def exampleDeps : Deps where
  now := 1000
  dateParse := fun _ => none
  tokens := [⟨"t1".toList, none, none⟩]
  tokenSecret := fun _ => some "swordfish".toList
  resolveCredential := fun _ => .ok "key".toList
  fetch := fun _ => some ⟨200, [], [], none, some []⟩

def getRequest (url : String) : Request where
  remoteAddress := some "127.0.0.1".toList
  method := "GET".toList
  url := url.toList
  headers := [(CRED_PROXY_TOKEN_HEADER, .one "swordfish".toList)]
  body := none

/-- What goes out for a target. -/
def exampleSent (host : String) : Outbound :=
  ⟨⟨"https:".toList, [], host.toList, [], "/".toList, [], []⟩, "GET".toList,
    [(AUTHORIZATION, "Bearer key".toList)], none⟩

theorem credential_stays_home_example :
    exampleSent "api.example.com." ∈ (handle plainApi exampleDeps (openProxy plainApi exampleFile)
      (getRequest "/https:/api.example.com./")).fetched ∧
    SentHome plainApi exampleDeps (openProxy plainApi exampleFile)
      (getRequest "/https:/api.example.com./") (exampleSent "api.example.com.") := by
  have hsent : exampleSent "api.example.com." ∈ (handle plainApi exampleDeps
      (openProxy plainApi exampleFile) (getRequest "/https:/api.example.com./")).fetched := by
    decide +kernel
  refine ⟨hsent, ?_⟩
  apply ((credential_stays_home (Reachable.opened exampleFile)).2 exampleDeps
    (getRequest "/https:/api.example.com./")).2 _ _ hsent
  have htarget : parseProxyTarget plainApi (getRequest "/https:/api.example.com./").url =
      .ok ⟨(exampleSent "api.example.com.").url, "https://api.example.com".toList⟩ := by
    decide +kernel
  intro target htarget'
  rw [htarget] at htarget'
  cases htarget'
  decide

/-- A target of which the host ends in two dots is sent the credential of the host without them. -/
theorem credential_sent_elsewhere :
    ¬∀ p, Reachable plainApi p → ∀ d req, ∀ o ∈ (handle plainApi d p req).fetched,
      SentHome plainApi d p req o := by
  intro hall
  have hsent : exampleSent "api.example.com.." ∈ (handle plainApi exampleDeps
      (openProxy plainApi exampleFile) (getRequest "/https://api.example.com../")).fetched := by
    decide +kernel
  obtain ⟨rule, hrule, -, -, horigin, -⟩ :=
    (hall _ (Reachable.opened exampleFile) _ _ _ hsent).home
  have hrules : ∀ r ∈ (openProxy plainApi exampleFile).rules,
      r.origin ≠ ((exampleSent "api.example.com..").url.withHostname
        (undot (exampleSent "api.example.com..").url.hostname)).origin := by
    decide +kernel
  exact hrules rule hrule horigin

end OpsMaxx.CredProxy
