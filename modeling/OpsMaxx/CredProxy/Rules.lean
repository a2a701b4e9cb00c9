import OpsMaxx.Strings.Words
import OpsMaxx.Json.Text

/-! # URLs and origins

What `new URL` makes of a text is the platform's. What a rule is matched on is the origin, written
in one way for every text that names it.
-/

set_option autoImplicit false

namespace OpsMaxx.CredProxy

open OpsMaxx.Strings

/-- A parsed URL. The query is the list of its parameters. -/
structure Url where
  protocol : Text
  userinfo : Text
  hostname : Text
  port : Text
  pathname : Text
  query : List (Text × Text)
  hash : Text
  deriving DecidableEq, Repr

namespace Url

/-- `https:` or `http:`. -/
def web (u : Url) : Bool := u.protocol = "https:".toList || u.protocol = "http:".toList

/-- `url.origin` of a web URL. -/
def origin (u : Url) : Text :=
  u.protocol ++ "//".toList ++ u.hostname ++ (if u.port = [] then [] else ':' :: u.port)

def withHostname (u : Url) (h : Text) : Url := { u with hostname := h }

/-- `searchParams.set` on the parameters. -/
def setFirst (name value : Text) : List (Text × Text) → List (Text × Text)
  | [] => [(name, value)]
  | (k, v) :: rest =>
    if k = name then (name, value) :: rest.filter fun p => p.1 ≠ name
    else (k, v) :: setFirst name value rest

def setParam (u : Url) (name value : Text) : Url :=
  { u with query := setFirst name value u.query }

end Url

/-- `name` and what it is set to, and every other parameter as it was. -/
theorem setFirst_find (name value : Text) (ps : List (Text × Text)) :
    (Url.setFirst name value ps).filter (fun p => p.1 = name) = [(name, value)] := by
  induction ps with
  | nil => simp [Url.setFirst]
  | cons p ps ih =>
    obtain ⟨k, v⟩ := p
    unfold Url.setFirst
    split_ifs with hk
    · simp
    · simpa [hk] using ih

theorem setFirst_others (name value : Text) (ps : List (Text × Text)) :
    (Url.setFirst name value ps).filter (fun p => p.1 ≠ name) =
      ps.filter fun p => p.1 ≠ name := by
  induction ps with
  | nil => simp [Url.setFirst]
  | cons p ps ih =>
    obtain ⟨k, v⟩ := p
    unfold Url.setFirst
    split_ifs with hk
    · simp [hk]
    · simpa [hk] using ih

/-- The platform's `URL`: parsing, and what parsing does to what was parsed before. -/
structure UrlApi where
  parse : Text → Option Url
  href : Url → Text
  /-- The origin a text names when it is resolved against a base. -/
  resolve : Text → Text → Option Text
  parse_href : ∀ t u, parse t = some u → u.web = true → parse (href u) = some u
  origin_ink : ∀ t u, parse t = some u → u.web = true → ∀ c ∈ u.origin, isInk c = true
  parse_origin : ∀ t u, parse t = some u → u.web = true → ∃ v, parse u.origin = some v ∧
    v.protocol = u.protocol ∧ v.hostname = u.hostname ∧ v.port = u.port
  /-- A host name with one dot behind it is a host name without it. -/
  parse_undotted : ∀ t u h, parse t = some u → u.web = true → u.hostname = h ++ ['.'] → h ≠ [] →
    h.getLast? ≠ some '.' → ∃ v, parse (u.withHostname h).origin = some v ∧
      v.protocol = u.protocol ∧ v.hostname = h ∧ v.port = u.port

variable (api : UrlApi)

/-- `hostname.replace(/\.$/, '')`. -/
def undot (h : Text) : Text := if h.getLast? = some '.' then h.dropLast else h

def normaliseOrigin (raw : Text) : Option Text :=
  let text := trim raw
  if text = [] then none
  else
    match api.parse text with
    | none => none
    | some u =>
      if u.web = false then none
      else
        let host := undot u.hostname
        if host = [] then none else some (u.withHostname host).origin

structure ProxyTarget where
  url : Url
  origin : Text
  deriving DecidableEq

inductive TargetFailure where
  | notATarget
  | unsupportedScheme
  deriving DecidableEq, Repr

/-- A scheme at the beginning of a text, and what is behind its `:/`. -/
def schemePrefix (rest : Text) : Option (Text × Text) :=
  [4, 5].findSome? fun n =>
    let scheme := (rest.take n).map Char.toLower
    if (scheme = "http".toList ∨ scheme = "https".toList) ∧
        (rest.drop n).take 2 = [':', '/'] then
      some (rest.take n, rest.drop (n + 2))
    else none

/-- `rest.replace(/^(https?):\/(?!\/)/i, '$1://')`. -/
def restoreSlashes (rest : Text) : Text :=
  match schemePrefix rest with
  | none => rest
  | some (scheme, behind) =>
    if behind.head? = some '/' then rest else scheme ++ "://".toList ++ behind

def parseProxyTarget (requestTarget : Text) : Except TargetFailure ProxyTarget :=
  match requestTarget with
  | '/' :: rest =>
    match api.parse (restoreSlashes rest) with
    | none => .error .notATarget
    | some url =>
      if url.web = false then .error .unsupportedScheme
      else
        match normaliseOrigin api url.origin with
        | none => .error .notATarget
        | some origin => .ok ⟨url, origin⟩
  | _ => .error .notATarget

end OpsMaxx.CredProxy

/-! ## Rules of the credential proxy

A rule says which credential goes to which origin, and where in the request it stands. Rules are
rebuilt field by field from a file or a draft, one origin and one id a rule.
-/

namespace OpsMaxx.CredProxy

open OpsMaxx.Strings

def CRED_PROXY_TOKEN_HEADER : Text := "x-opsmaxx-proxy-token".toList

inductive InjectionKind where
  | header
  | bearer
  | query
  | basic
  deriving DecidableEq, Repr

def InjectionKind.word : InjectionKind → Text
  | .header => "header".toList
  | .bearer => "bearer".toList
  | .query => "query".toList
  | .basic => "basic".toList

def INJECTION_KINDS : List InjectionKind := [.header, .bearer, .query, .basic]

structure CredProxyInjection where
  kind : InjectionKind
  name : Text
  deriving DecidableEq

inductive CredProxySlot where
  | password
  | privateKey
  | username
  | field
  deriving DecidableEq, Repr

def CredProxySlot.word : CredProxySlot → Text
  | .password => "password".toList
  | .privateKey => "privateKey".toList
  | .username => "username".toList
  | .field => "field".toList

def SLOTS : List CredProxySlot := [.password, .privateKey, .username, .field]

structure CredProxyCredentialRef where
  vaultEntryId : Text
  slot : CredProxySlot
  fieldKey : Option Text
  deriving DecidableEq

structure CredProxyRule where
  id : Text
  name : Text
  origin : Text
  credential : CredProxyCredentialRef
  injection : CredProxyInjection
  enabled : Bool
  createdAt : Text
  deriving DecidableEq

variable (api : UrlApi)

def matchRule (rules : List CredProxyRule) (origin : Text) : Option CredProxyRule :=
  match normaliseOrigin api origin with
  | none => none
  | some want => rules.find? fun r => r.origin = want

/-! ## Injections -/

/-- `/^[A-Za-z0-9!#$%&'*+.^_|~-]+$/`, with the back quote. -/
def isHeaderName (name : Text) : Bool :=
  name ≠ [] && name.all fun c => c.isAlphanum || c ∈ "!#$%&'*+.^_|~-".toList || c.toNat = 0x60

def UNINJECTABLE_HEADERS : List Text :=
  ["host".toList, "content-length".toList, "connection".toList, "keep-alive".toList,
    "transfer-encoding".toList, "te".toList, "trailer".toList, "upgrade".toList,
    "proxy-authorization".toList, "proxy-connection".toList, CRED_PROXY_TOKEN_HEADER]

def HOP_BY_HOP_HEADERS : List Text :=
  ["connection".toList, "keep-alive".toList, "proxy-authenticate".toList,
    "proxy-authorization".toList, "proxy-connection".toList, "te".toList, "trailer".toList,
    "transfer-encoding".toList, "upgrade".toList, "host".toList, "content-length".toList,
    CRED_PROXY_TOKEN_HEADER]

def lower (name : Text) : Text := name.map Char.toLower

inductive InjectionError where
  | needsHeaderName
  | needsParameterName
  | needsUsername
  | invalidHeader (name : Text)
  | uninjectableHeader (name : Text)
  | basicUsername
  deriving DecidableEq

/-- What is wrong with an injection, if something is. A draft's kind may be any word. -/
def validateInjection (kind name : Text) : Option InjectionError :=
  if kind = InjectionKind.bearer.word then none
  else
    let name := trim name
    if name = [] then
      if kind = InjectionKind.header.word then some .needsHeaderName
      else if kind = InjectionKind.query.word then some .needsParameterName
      else some .needsUsername
    else if kind = InjectionKind.header.word ∧ isHeaderName name = false then
      some (.invalidHeader name)
    else if kind = InjectionKind.header.word ∧ lower name ∈ UNINJECTABLE_HEADERS then
      some (.uninjectableHeader name)
    else if kind = InjectionKind.basic.word ∧ name.any (fun c => c = ':' || isSpace c) then
      some .basicUsername
    else none

/-! ## Rebuilding a rule -/

/-- `str(v)`. -/
def str : Option Json → Text
  | some (.str s) => s.toList
  | _ => []

/-- An object's field; anything else has none. -/
def fieldOf (v : Option Json) (key : String) : Option Json := v.bind fun o => o.get? key

def wordOf : Option Json → Option Text
  | some (.str s) => some s.toList
  | _ => none

def sanitiseCredential (cred : Option Json) : Option CredProxyCredentialRef :=
  let vaultEntryId := trim (str (fieldOf cred "vaultEntryId"))
  let slot :=
    (SLOTS.find? fun s => wordOf (fieldOf cred "slot") = some s.word).getD .password
  let fieldKey := trim (str (fieldOf cred "fieldKey"))
  if vaultEntryId = [] then none
  else if slot = .field ∧ fieldKey = [] then none
  else some ⟨vaultEntryId, slot, if slot = .field then some fieldKey else none⟩

def sanitiseInjection (inj : Option Json) : Option CredProxyInjection :=
  match INJECTION_KINDS.find? fun k => wordOf (fieldOf inj "kind") = some k.word with
  | none => none
  | some kind =>
    let name := if kind = .bearer then [] else (trim (str (fieldOf inj "name"))).take 128
    if validateInjection kind.word name = none then some ⟨kind, name⟩ else none

def sanitiseRule (raw : Json) : Option CredProxyRule :=
  let id := trim (str (raw.get? "id"))
  if id = [] then none
  else
    match normaliseOrigin api (str (raw.get? "origin")),
      sanitiseCredential (raw.get? "credential"), sanitiseInjection (raw.get? "injection") with
    | some origin, some credential, some injection =>
      let name := trim (str (raw.get? "name"))
      let createdAt := str (raw.get? "createdAt")
      some {
        id := id.take 64
        name := (if name = [] then origin else name).take 80
        origin := origin
        credential := credential
        injection := injection
        enabled := match raw.get? "enabled" with
          | some (.bool false) => false
          | _ => true
        createdAt := if createdAt = [] then "1970-01-01T00:00:00.000Z".toList else createdAt }
    | _, _, _ => none

/-- The rules kept so far, and one more item of the file. -/
def keepRule (out : List CredProxyRule) (item : Json) : List CredProxyRule :=
  match sanitiseRule api item with
  | none => out
  | some rule =>
    if rule.id ∈ out.map CredProxyRule.id ∨ rule.origin ∈ out.map CredProxyRule.origin then out
    else out ++ [rule]

def sanitiseRules (raw : Option Json) : List CredProxyRule :=
  match raw with
  | some (.arr items) => items.foldl (keepRule api) []
  | _ => []

/-! ## The stored rules -/

inductive SaveError where
  | injection (e : InjectionError)
  | notARule
  | clash (name origin : Text)
  deriving DecidableEq

/-- The draft with an id and a date of its own, where it has none. -/
def withId (draft : Json) (newId now : String) : Json :=
  let d := match draft with
    | .obj fields => fields
    | _ => []
  let id := match draft.get? "id" with
    | some (.str s) => if s = "" then newId else s
    | _ => newId
  let createdAt := match draft.get? "createdAt" with
    | some (.str s) => if s = "" then now else s
    | _ => now
  .obj (setField (setField d "id" (.str id)) "createdAt" (.str createdAt))

/-- What the draft's injection is refused for before anything else is looked at. -/
def draftInjection (draft : Json) : Option InjectionError :=
  let inj := draft.get? "injection"
  match wordOf (fieldOf inj "kind") with
  | none => none
  | some kind => validateInjection kind (str (fieldOf inj "name"))

/-- `cache[at] = rule` at the rule's own id, or a push. -/
def putRule (rules : List CredProxyRule) (rule : CredProxyRule) : List CredProxyRule :=
  match rules.findIdx? fun r => r.id = rule.id with
  | some i => rules.set i rule
  | none => rules ++ [rule]

def saveRule (rules : List CredProxyRule) (draft : Json) (newId now : String) :
    Except SaveError CredProxyRule × List CredProxyRule :=
  match draftInjection draft with
  | some e => (.error (.injection e), rules)
  | none =>
    match sanitiseRule api (withId draft newId now) with
    | none => (.error .notARule, rules)
    | some rule =>
      match rules.find? fun r => r.origin = rule.origin ∧ r.id ≠ rule.id with
      | some clash => (.error (.clash clash.name rule.origin), rules)
      | none => (.ok rule, putRule rules rule)

def removeRule (rules : List CredProxyRule) (id : Text) : List CredProxyRule :=
  rules.filter fun r => r.id ≠ id

/-! ## One rule an origin, one rule an id -/

/-- No two rules share an id or an origin. -/
def Apart (rules : List CredProxyRule) : Prop :=
  (rules.map CredProxyRule.id).Nodup ∧ (rules.map CredProxyRule.origin).Nodup

theorem keepRule_apart {out : List CredProxyRule} (h : Apart out) (item : Json) :
    Apart (keepRule api out item) := by
  unfold keepRule
  cases sanitiseRule api item with
  | none => exact h
  | some rule =>
    simp only
    split_ifs with hseen
    · exact h
    · rw [not_or] at hseen
      constructor
      · rw [List.map_append]
        exact h.1.append (List.nodup_singleton _) (by simpa using hseen.1)
      · rw [List.map_append]
        exact h.2.append (List.nodup_singleton _) (by simpa using hseen.2)

theorem sanitiseRules_apart (raw : Option Json) : Apart (sanitiseRules api raw) := by
  unfold sanitiseRules
  split
  · rename_i items
    have hall : ∀ out, Apart out → Apart (items.foldl (keepRule api) out) := by
      induction items with
      | nil => exact fun _ h => h
      | cons item items ih => exact fun out h => ih _ (keepRule_apart api h item)
    exact hall [] ⟨List.nodup_nil, List.nodup_nil⟩
  · exact ⟨List.nodup_nil, List.nodup_nil⟩

theorem removeRule_apart {rules : List CredProxyRule} (h : Apart rules) (id : Text) :
    Apart (removeRule rules id) :=
  ⟨h.1.sublist (List.filter_sublist.map _), h.2.sublist (List.filter_sublist.map _)⟩

/-- A rule of which id and origin are new among the others. -/
theorem apart_insert {before behind : List CredProxyRule} {rule : CredProxyRule}
    (h : Apart (before ++ behind))
    (hid : ∀ r ∈ before ++ behind, r.id ≠ rule.id)
    (horigin : ∀ r ∈ before ++ behind, r.origin ≠ rule.origin) :
    Apart (before ++ rule :: behind) := by
  unfold Apart at h ⊢
  simp only [List.map_append, List.map_cons, List.nodup_middle, List.nodup_cons] at h ⊢
  refine ⟨⟨?_, h.1⟩, ?_, h.2⟩
  · rw [← List.map_append]
    intro hmem
    obtain ⟨r, hr, heq⟩ := List.mem_map.mp hmem
    exact hid r hr heq
  · rw [← List.map_append]
    intro hmem
    obtain ⟨r, hr, heq⟩ := List.mem_map.mp hmem
    exact horigin r hr heq

theorem apart_remove {before behind : List CredProxyRule} {r : CredProxyRule}
    (h : Apart (before ++ r :: behind)) :
    Apart (before ++ behind) ∧ ∀ x ∈ before ++ behind, x.id ≠ r.id := by
  unfold Apart at h ⊢
  simp only [List.map_append, List.map_cons, List.nodup_middle, List.nodup_cons] at h ⊢
  refine ⟨⟨h.1.2, h.2.2⟩, ?_⟩
  intro x hx heq
  apply h.1.1
  rw [← List.map_append]
  exact List.mem_map.mpr ⟨x, hx, heq⟩

/-- Replacing the rule of an id, when no other rule has the origin. -/
theorem putRule_apart {rules : List CredProxyRule} {rule : CredProxyRule} (h : Apart rules)
    (hclash : ∀ r ∈ rules, r.origin = rule.origin → r.id = rule.id) :
    Apart (putRule rules rule) := by
  unfold putRule
  cases hfind : rules.findIdx? fun r => r.id = rule.id with
  | none =>
    have hnone := List.findIdx?_eq_none_iff.mp hfind
    have hid : ∀ r ∈ rules, r.id ≠ rule.id := by
      intro r hr
      simpa using hnone r hr
    apply apart_insert
    · rwa [List.append_nil]
    · rwa [List.append_nil]
    · rw [List.append_nil]
      exact fun r hr horigin => hid r hr (hclash r hr horigin)
  | some i =>
    obtain ⟨hi, hat, -⟩ := List.findIdx?_eq_some_iff_getElem.mp hfind
    have hsame : rules[i].id = rule.id := by simpa using hat
    have hsplit : rules = rules.take i ++ rules[i] :: rules.drop (i + 1) := by
      rw [List.getElem_cons_drop, List.take_append_drop]
    have hrest := h
    rw [hsplit] at hrest
    obtain ⟨hapart, hother⟩ := apart_remove hrest
    have hsub : ∀ r ∈ rules.take i ++ rules.drop (i + 1), r ∈ rules := by
      intro r hr
      obtain hr | hr := List.mem_append.mp hr
      · exact List.mem_of_mem_take hr
      · exact List.mem_of_mem_drop hr
    show Apart (rules.set i rule)
    rw [List.set_eq_take_append_cons_drop, if_pos hi]
    apply apart_insert hapart
    · intro r hr
      rw [← hsame]
      exact hother r hr
    · intro r hr horigin
      apply hother r hr
      rw [hsame]
      exact hclash r (hsub r hr) horigin

theorem saveRule_apart {rules : List CredProxyRule} (h : Apart rules) (draft : Json)
    (newId now : String) : Apart (saveRule api rules draft newId now).2 := by
  unfold saveRule
  split
  · exact h
  · split
    · exact h
    · rename_i rule _
      split
      · exact h
      · rename_i hnone
        apply putRule_apart h
        intro r hr horigin
        have hno := List.find?_eq_none.mp hnone r hr
        by_contra hid
        exact hno (decide_eq_true ⟨horigin, hid⟩)

end OpsMaxx.CredProxy
