import OpsMaxx.CredProxy.Handle

/-! # Where a credential goes

A request that is sent carries the credential of the one rule of its origin, in the place the rule
names; the rest of it is what the caller sent, without the caller's token.
-/

set_option autoImplicit false

namespace OpsMaxx.CredProxy

open OpsMaxx.Strings OpsMaxx.Sidecar

variable {api : UrlApi}

/-! ## Origins -/

theorem normaliseOrigin_inv {raw o : Text} (h : normaliseOrigin api raw = some o) :
    ∃ u, api.parse (trim raw) = some u ∧ u.web = true ∧ undot u.hostname ≠ [] ∧
      o = (u.withHostname (undot u.hostname)).origin := by
  unfold normaliseOrigin at h
  simp only at h
  split_ifs at h with hnil
  split at h
  · cases h
  · rename_i u hparse
    split_ifs at h with hweb hhost
    exact ⟨u, hparse, by simpa using hweb, hhost, (Option.some.inj h).symm⟩

/-- Two URLs of one scheme, host and port have one origin. -/
theorem origin_congr {u v : Url} (hp : v.protocol = u.protocol) (hh : v.hostname = u.hostname)
    (ht : v.port = u.port) : v.origin = u.origin := by
  unfold Url.origin
  rw [hp, hh, ht]

theorem undot_of_getLast {h : Text} (hlast : h.getLast? ≠ some '.') : undot h = h := if_neg hlast

theorem undot_append (h : Text) : undot (h ++ ['.']) = h := by
  unfold undot
  rw [if_pos (by simp), List.dropLast_concat]

theorem undot_subset (h : Text) : undot h ⊆ h := by
  unfold undot
  split_ifs
  · exact List.dropLast_subset h
  · exact List.Subset.refl h

theorem origin_undot_ink {t : Text} {u : Url} (hparse : api.parse t = some u)
    (hweb : u.web = true) :
    ∀ c ∈ (u.withHostname (undot u.hostname)).origin, isInk c = true := by
  intro c hc
  apply api.origin_ink t u hparse hweb c
  unfold Url.origin Url.withHostname at *
  simp only [List.mem_append] at hc ⊢
  obtain ((hc | hc) | hc) | hc := hc
  · exact Or.inl (Or.inl (Or.inl hc))
  · exact Or.inl (Or.inl (Or.inr hc))
  · exact Or.inl (Or.inr (undot_subset u.hostname hc))
  · exact Or.inr hc

/-- The origin of a target is the target's own, up to one dot. -/
theorem target_origin {raw : Text} {target : ProxyTarget}
    (h : parseProxyTarget api raw = .ok target) :
    ∃ text, api.parse text = some target.url ∧ target.url.web = true ∧
      undot target.url.hostname ≠ [] ∧
      target.origin = (target.url.withHostname (undot target.url.hostname)).origin := by
  unfold parseProxyTarget at h
  split at h
  · split at h
    · cases h
    · rename_i url hparse
      split_ifs at h with hweb
      split at h
      · cases h
      · rename_i origin horigin
        cases h
        rw [Bool.not_eq_false] at hweb
        obtain ⟨v, hv, -, hhost, rfl⟩ := normaliseOrigin_inv horigin
        rw [trim_of_ink (api.origin_ink _ _ hparse hweb)] at hv
        obtain ⟨v', hv', hp, hh, ht⟩ := api.parse_origin _ _ hparse hweb
        rw [hv', Option.some.injEq] at hv
        subst hv
        rw [hh] at hhost
        refine ⟨_, hparse, hweb, hhost, ?_⟩
        apply origin_congr
        · exact hp
        · show undot v'.hostname = undot url.hostname
          rw [hh]
        · exact ht
  · cases h

/-- The second time an origin is normalised it stays, unless the host ended in two dots. -/
theorem normaliseOrigin_again {text want : Text} {u : Url} (hparse : api.parse text = some u)
    (hweb : u.web = true) (hhost : undot u.hostname ≠ []) (hdots : ¬['.', '.'] <:+ u.hostname)
    (h : normaliseOrigin api (u.withHostname (undot u.hostname)).origin = some want) :
    want = (u.withHostname (undot u.hostname)).origin := by
  obtain ⟨v, hv, -, -, rfl⟩ := normaliseOrigin_inv h
  rw [trim_of_ink (origin_undot_ink hparse hweb)] at hv
  have hsame : v.protocol = u.protocol ∧ v.hostname = undot u.hostname ∧ v.port = u.port ∧
      (undot u.hostname).getLast? ≠ some '.' := by
    by_cases hlast : u.hostname.getLast? = some '.'
    · obtain ⟨host, hdotted⟩ := List.getLast?_eq_some_iff.mp hlast
      have hundot : undot u.hostname = host := by rw [hdotted, undot_append]
      have hsingle : host.getLast? ≠ some '.' := by
        intro hdot
        obtain ⟨front, hfront⟩ := List.getLast?_eq_some_iff.mp hdot
        apply hdots
        rw [hdotted, hfront, List.append_assoc]
        exact List.suffix_append front ['.', '.']
      rw [hundot] at hv hhost ⊢
      obtain ⟨v', hv', hp, hh, ht⟩ :=
        api.parse_undotted _ _ host hparse hweb hdotted hhost hsingle
      rw [hv', Option.some.injEq] at hv
      subst hv
      exact ⟨hp, hh, ht, hsingle⟩
    · rw [undot_of_getLast hlast] at hv ⊢
      obtain ⟨v', hv', hp, hh, ht⟩ := api.parse_origin _ _ hparse hweb
      have hself : u.withHostname u.hostname = u := rfl
      rw [hself, hv', Option.some.injEq] at hv
      subst hv
      exact ⟨hp, hh, ht, hlast⟩
  obtain ⟨hp, hh, ht, hlast⟩ := hsame
  apply origin_congr
  · exact hp
  · show undot v.hostname = undot u.hostname
    rw [hh, undot_of_getLast hlast]
  · exact ht

/-! ## Tokens -/

theorem matchHolder_some {presented : Text} {secretOf : Text → Option Text}
    {matched : Option CredProxyToken} {x t : CredProxyToken}
    (h : matchHolder presented secretOf matched x = some t) :
    matched = some t ∨ t = x ∧ secretOf x.id = some presented := by
  unfold matchHolder at h
  split at h
  · exact Or.inl h
  · rename_i secret hsecret
    split_ifs at h with hequal
    · cases h
      rw [hequal.2]
      exact Or.inr ⟨rfl, hsecret⟩
    · exact Or.inl h

theorem holderOf_mem {presented : Text} {tokens : List CredProxyToken}
    {secretOf : Text → Option Text} {t : CredProxyToken}
    (h : holderOf presented tokens secretOf = some t) :
    t ∈ tokens ∧ secretOf t.id = some presented := by
  have hall : ∀ matched, tokens.foldl (matchHolder presented secretOf) matched = some t →
      matched = some t ∨ t ∈ tokens ∧ secretOf t.id = some presented := by
    clear h
    induction tokens with
    | nil => exact fun _ h => Or.inl h
    | cons x xs ih =>
      intro matched h
      obtain hnext | ⟨hmem, hsecret⟩ := ih _ h
      · obtain hbefore | ⟨rfl, hsecret⟩ := matchHolder_some hnext
        · exact Or.inl hbefore
        · exact Or.inr ⟨List.mem_cons_self, hsecret⟩
      · exact Or.inr ⟨List.mem_cons_of_mem _ hmem, hsecret⟩
  obtain hnone | hmem := hall none h
  · cases hnone
  · exact hmem

theorem matchToken_ok {parse : Text → Option Int} {presented : Text}
    {tokens : List CredProxyToken} {secretOf : Text → Option Text} {now : Int}
    {t : CredProxyToken} (h : matchToken parse presented tokens secretOf now = .ok t) :
    presented ≠ [] ∧ t ∈ tokens ∧ secretOf t.id = some presented ∧
      credProxyTokenUsable parse t now = true := by
  unfold matchToken at h
  split_ifs at h with hnil
  split at h
  · cases h
  · rename_i holder hholder
    split_ifs at h with husable
    · cases h
      obtain ⟨hmem, hsecret⟩ := holderOf_mem hholder
      exact ⟨hnil, hmem, hsecret, husable⟩

/-! ## What was sent -/

/-- The request as it stands before the credential is put in. -/
def passedOn (req : Request) (url : Url) : Option Outbound :=
  (copyHeaders req.headers).map fun headers =>
    ⟨url, upper req.method, headers, bodyOf req⟩

variable {d : Deps} {p : Proxy} {req : Request} {o : Outbound}

theorem send_fetched (target : ProxyTarget) (rule : CredProxyRule) (used : Text) (o : Outbound) :
    (send api d p req target rule used o).fetched = [o] := by
  unfold send
  split
  · rfl
  · split
    · rfl
    · rfl

/-- A request that `forward` sends. -/
theorem forward_sent {target : ProxyTarget} {rule : CredProxyRule} {secret used : Text}
    (h : o ∈ (forward api d p req target rule secret used).fetched) :
    (forward api d p req target rule secret used).fetched = [o] ∧
      ∃ url base, api.parse (api.href target.url) = some url ∧ passedOn req url = some base ∧
        inject rule.injection secret base = some o := by
  unfold forward at h ⊢
  split_ifs at h ⊢ with hbody
  · cases h
  · split at h
    · rename_i url headers hurl hheaders
      split at h
      · cases h
      · rename_i sent hinject
        rw [send_fetched] at h ⊢
        have hsent := List.mem_singleton.mp h
        subst hsent
        refine ⟨rfl, url, _, hurl, ?_, hinject⟩
        unfold passedOn
        rw [hheaders]
        rfl
    · cases h

/-- What is known of a request that is sent: one enabled rule matched, and the request was made of
its credential. -/
structure Sent (api : UrlApi) (d : Deps) (p : Proxy) (req : Request) (o : Outbound)
    (target : ProxyTarget) (rule : CredProxyRule) (secret : Text) (url : Url)
    (base : Outbound) : Prop where
  target_parsed : parseProxyTarget api req.url = .ok target
  matched : matchRule api p.rules target.origin = some rule
  enabled : rule.enabled = true
  resolved : d.resolveCredential rule.credential = .ok secret
  reparsed : api.parse (api.href target.url) = some url
  passed : passedOn req url = some base
  injected : inject rule.injection secret base = some o

theorem route_sent {used : Text} (h : o ∈ (route api d p req used).fetched) :
    (route api d p req used).fetched = [o] ∧ ∃ target rule secret url base,
      Sent api d p req o target rule secret url base := by
  unfold route at h ⊢
  simp only at h ⊢
  cases htarget : parseProxyTarget api req.url with
  | error e =>
    rw [htarget] at h
    cases h
  | ok target =>
    simp only [htarget] at h ⊢
    cases hrule : matchRule api p.rules target.origin with
    | none =>
      rw [hrule] at h
      cases h
    | some rule =>
      simp only [hrule] at h ⊢
      split_ifs at h ⊢ with henabled
      · cases h
      · cases hsecret : d.resolveCredential rule.credential with
        | ok secret =>
          simp only [hsecret] at h ⊢
          obtain ⟨hone, url, base, hurl, hbase, hinject⟩ := forward_sent h
          exact ⟨hone, target, rule, secret, url, base, htarget, hrule, by simpa using henabled,
            hsecret, hurl, hbase, hinject⟩
        | vaultLocked =>
          rw [hsecret] at h
          cases h
        | credentialMissing =>
          rw [hsecret] at h
          cases h

theorem handle_sent (h : o ∈ (handle api d p req).fetched) :
    (handle api d p req).fetched = [o] ∧ ∃ token,
      matchToken d.dateParse (presentedToken req) d.tokens d.tokenSecret d.now = .ok token ∧
      ∃ target rule secret url base, Sent api d p req o target rule secret url base := by
  unfold handle at h ⊢
  simp only at h ⊢
  split_ifs at h ⊢ with hloop
  · cases h
  · cases htoken : matchToken d.dateParse (presentedToken req) d.tokens d.tokenSecret d.now with
    | error reason =>
      rw [htoken] at h
      cases h
    | ok token =>
      simp only [htoken] at h ⊢
      obtain ⟨hone, hsent⟩ := route_sent h
      exact ⟨hone, token, rfl, hsent⟩

/-! ## The place of the credential -/

/-- The header a credential is put in, if it is put in one. -/
def slotHeader (inj : CredProxyInjection) : Option Text :=
  match inj.kind with
  | .bearer | .basic => some AUTHORIZATION
  | .header => some (lower inj.name)
  | .query => none

/-- The parameter a credential is put in, if it is put in one. -/
def slotParam (inj : CredProxyInjection) : Option Text :=
  match inj.kind with
  | .query => some inj.name
  | _ => none

/-- A request without what stands in the place of the credential. -/
def blank (inj : CredProxyInjection) (o : Outbound) : Outbound :=
  { o with
    headers := o.headers.filter fun h => some h.1 ≠ slotHeader inj
    url := { o.url with query := o.url.query.filter fun q => some q.1 ≠ slotParam inj } }

/-- What a credential looks like in its place. -/
def slotValue (inj : CredProxyInjection) (secret : Text) : Text :=
  match inj.kind with
  | .bearer => normaliseValue ("Bearer ".toList ++ secret)
  | .basic =>
    normaliseValue ("Basic ".toList ++ base64Encode (utf8 (inj.name ++ ':' :: secret)))
  | .header => normaliseValue secret
  | .query => secret

/-- The place of the credential holds it and nothing else. -/
def Carries (inj : CredProxyInjection) (secret : Text) (o : Outbound) : Prop :=
  (∀ name, slotHeader inj = some name →
    (name, slotValue inj secret) ∈ o.headers ∧
      ∀ h ∈ o.headers, h.1 = name → h.2 = slotValue inj secret) ∧
  ∀ name, slotParam inj = some name →
    o.url.query.filter (fun q => q.1 = name) = [(name, slotValue inj secret)]

theorem putHeader_others (hs : Headers) (name value : Text) :
    (putHeader hs name value).filter (fun h => some h.1 ≠ some name) =
      hs.filter fun h => some h.1 ≠ some name := by
  unfold putHeader
  split_ifs with hany
  · clear hany
    induction hs with
    | nil => rfl
    | cons h hs ih =>
      by_cases hname : h.1 = name
      · simpa [hname] using ih
      · simpa [hname] using ih
  · simp

theorem putHeader_slot (hs : Headers) (name value : Text) :
    (name, value) ∈ putHeader hs name value ∧
      ∀ h ∈ putHeader hs name value, h.1 = name → h.2 = value := by
  unfold putHeader
  split_ifs with hany
  · constructor
    · obtain ⟨h, hmem, hname⟩ := List.any_eq_true.mp hany
      exact List.mem_map.mpr ⟨h, hmem, if_pos (of_decide_eq_true hname)⟩
    · intro h hmem hname
      obtain ⟨h', -, rfl⟩ := List.mem_map.mp hmem
      split_ifs at hname ⊢ with hsame
      · rfl
      · exact absurd hname hsame
  · constructor
    · exact List.mem_append_right _ (List.mem_singleton.mpr rfl)
    · intro h hmem hname
      obtain hmem | hmem := List.mem_append.mp hmem
      · exact absurd (List.any_eq_true.mpr ⟨h, hmem, decide_eq_true hname⟩) hany
      · rw [List.mem_singleton.mp hmem]

theorem setHeader_inv {hs hs' : Headers} {name value : Text}
    (h : setHeader hs name value = some hs') :
    isHeaderName name = true ∧ hs' = putHeader hs (lower name) (normaliseValue value) := by
  unfold setHeader at h
  simp only at h
  split_ifs at h with hvalid
  exact ⟨(Bool.and_eq_true_iff.mp hvalid).1, (Option.some.inj h).symm⟩

/-- Putting a credential in changes its place only. -/
theorem inject_blank {inj : CredProxyInjection} {secret : Text} {base : Outbound}
    (h : inject inj secret base = some o) : blank inj o = blank inj base := by
  unfold inject at h
  unfold blank slotHeader slotParam
  cases hkind : inj.kind with
  | bearer =>
    rw [hkind] at h
    obtain ⟨hs, hset, rfl⟩ := Option.map_eq_some_iff.mp h
    obtain ⟨-, rfl⟩ := setHeader_inv hset
    simp only
    rw [show lower AUTHORIZATION = AUTHORIZATION by decide, putHeader_others]
  | basic =>
    rw [hkind] at h
    obtain ⟨hs, hset, rfl⟩ := Option.map_eq_some_iff.mp h
    obtain ⟨-, rfl⟩ := setHeader_inv hset
    simp only
    rw [show lower AUTHORIZATION = AUTHORIZATION by decide, putHeader_others]
  | header =>
    rw [hkind] at h
    obtain ⟨hs, hset, rfl⟩ := Option.map_eq_some_iff.mp h
    obtain ⟨-, rfl⟩ := setHeader_inv hset
    simp only
    rw [putHeader_others]
  | query =>
    rw [hkind] at h
    obtain rfl := Option.some.inj h
    have hothers := setFirst_others inj.name secret base.url.query
    simp only [Url.setParam, ne_eq, Option.some.injEq] at hothers ⊢
    rw [hothers]

theorem inject_carries {inj : CredProxyInjection} {secret : Text} {base : Outbound}
    (h : inject inj secret base = some o) : Carries inj secret o := by
  unfold inject at h
  unfold Carries slotHeader slotParam slotValue
  have hauth : lower AUTHORIZATION = AUTHORIZATION := by decide
  cases hkind : inj.kind with
  | bearer =>
    rw [hkind] at h
    obtain ⟨hs, hset, rfl⟩ := Option.map_eq_some_iff.mp h
    obtain ⟨-, rfl⟩ := setHeader_inv hset
    refine ⟨?_, by simp⟩
    rintro name ⟨⟩
    rw [hauth]
    exact putHeader_slot _ _ _
  | basic =>
    rw [hkind] at h
    obtain ⟨hs, hset, rfl⟩ := Option.map_eq_some_iff.mp h
    obtain ⟨-, rfl⟩ := setHeader_inv hset
    refine ⟨?_, by simp⟩
    rintro name ⟨⟩
    rw [hauth]
    exact putHeader_slot _ _ _
  | header =>
    rw [hkind] at h
    obtain ⟨hs, hset, rfl⟩ := Option.map_eq_some_iff.mp h
    obtain ⟨-, rfl⟩ := setHeader_inv hset
    refine ⟨?_, by simp⟩
    rintro name ⟨⟩
    exact putHeader_slot _ _ _
  | query =>
    rw [hkind] at h
    obtain rfl := Option.some.inj h
    refine ⟨by simp, ?_⟩
    rintro name ⟨⟩
    exact setFirst_find _ _ _

/-! ## The client token -/

/-- The request without the header the token was presented in. -/
def dropToken (req : Request) : Request :=
  { req with headers := req.headers.filter fun h => lower h.1 ≠ CRED_PROXY_TOKEN_HEADER }

theorem copyHeader_token (hs : Headers) {h : Text × HeaderValue}
    (ht : lower h.1 = CRED_PROXY_TOKEN_HEADER) : copyHeader hs h = some hs := by
  unfold copyHeader
  rw [if_pos]
  rw [ht]
  decide

theorem copyHeaders_dropToken (req : Request) :
    copyHeaders (dropToken req).headers = copyHeaders req.headers := by
  unfold copyHeaders dropToken
  simp only
  have hall : ∀ (headers : List (Text × HeaderValue)) (hs : Headers),
      (headers.filter fun h => lower h.1 ≠ CRED_PROXY_TOKEN_HEADER).foldlM copyHeader hs =
        headers.foldlM copyHeader hs := by
    intro headers
    induction headers with
    | nil => exact fun _ => rfl
    | cons h headers ih =>
      intro hs
      by_cases ht : lower h.1 = CRED_PROXY_TOKEN_HEADER
      · rw [List.filter_cons_of_neg (by simp [ht]), ih, List.foldlM_cons, copyHeader_token hs ht]
        rfl
      · rw [List.filter_cons_of_pos (by simp [ht]), List.foldlM_cons, List.foldlM_cons]
        cases copyHeader hs h with
        | none => rfl
        | some next => exact ih next
  exact hall req.headers []

theorem passedOn_dropToken (req : Request) (url : Url) :
    passedOn (dropToken req) url = passedOn req url := by
  unfold passedOn
  rw [copyHeaders_dropToken]
  rfl

theorem mem_putHeader {hs : Headers} {name value : Text} {h : Text × Text}
    (hmem : h ∈ putHeader hs name value) : h.1 = name ∨ h ∈ hs := by
  unfold putHeader at hmem
  split_ifs at hmem
  · obtain ⟨h', hh', rfl⟩ := List.mem_map.mp hmem
    split_ifs with hsame
    · exact Or.inl rfl
    · exact Or.inr hh'
  · obtain hmem | hmem := List.mem_append.mp hmem
    · exact Or.inr hmem
    · rw [List.mem_singleton.mp hmem]
      exact Or.inl rfl

theorem copyHeaders_token {headers : List (Text × HeaderValue)} {hs : Headers}
    (h : copyHeaders headers = some hs) : ∀ x ∈ hs, x.1 ≠ CRED_PROXY_TOKEN_HEADER := by
  have hall : ∀ (headers : List (Text × HeaderValue)) (before : Headers),
      (∀ x ∈ before, x.1 ≠ CRED_PROXY_TOKEN_HEADER) →
      headers.foldlM copyHeader before = some hs →
        ∀ x ∈ hs, x.1 ≠ CRED_PROXY_TOKEN_HEADER := by
    intro headers
    induction headers with
    | nil =>
      intro before hbefore h
      obtain rfl := Option.some.inj h
      exact hbefore
    | cons x xs ih =>
      intro before hbefore h
      rw [List.foldlM_cons] at h
      obtain ⟨next, hnext, h⟩ := Option.bind_eq_some_iff.mp h
      apply ih next _ h
      unfold copyHeader at hnext
      split_ifs at hnext with hhop
      · obtain rfl := Option.some.inj hnext
        exact hbefore
      · obtain ⟨-, rfl⟩ := setHeader_inv hnext
        intro y hy
        obtain hname | hy := mem_putHeader hy
        · rw [hname]
          intro htoken
          apply hhop
          rw [htoken]
          decide
        · exact hbefore y hy
  exact hall headers [] (by simp) h

/-- A rule's injection is one the checks let through. -/
def Valid (rule : CredProxyRule) : Prop :=
  validateInjection rule.injection.kind.word rule.injection.name = none

theorem headerName_ink {name : Text} (h : isHeaderName name = true) :
    ∀ c ∈ name, isInk c = true := by
  intro c hc
  have hchar := List.all_eq_true.mp (Bool.and_eq_true_iff.mp h).2 c hc
  simp only [Bool.or_eq_true, decide_eq_true_eq] at hchar
  obtain (halnum | hsymbol) | hquote := hchar
  · have hrange : (65 ≤ c.toNat ∧ c.toNat ≤ 90 ∨ 97 ≤ c.toNat ∧ c.toNat ≤ 122) ∨
        48 ≤ c.toNat ∧ c.toNat ≤ 57 := isAlphanum_iff.mp halnum
    simp only [isInk, isSpace, List.mem_cons, List.not_mem_nil, or_false, Bool.not_eq_true',
      Bool.or_eq_false_iff, decide_eq_false_iff_not, Bool.and_eq_false_iff]
    omega
  · have hall : ∀ c ∈ "!#$%&'*+.^_|~-".toList, isInk c = true := by decide
    exact hall c hsymbol
  · simp [isInk, isSpace, hquote]

/-- No rule names the token's header. -/
theorem valid_header {rule : CredProxyRule} (hv : Valid rule)
    (hkind : rule.injection.kind = .header) (hname : isHeaderName rule.injection.name = true) :
    lower rule.injection.name ≠ CRED_PROXY_TOKEN_HEADER := by
  intro htoken
  have hne : rule.injection.name ≠ [] := of_decide_eq_true (Bool.and_eq_true_iff.mp hname).1
  have hmem : lower rule.injection.name ∈ UNINJECTABLE_HEADERS := by
    rw [htoken]
    decide
  unfold Valid validateInjection at hv
  rw [hkind, trim_of_ink (headerName_ink hname)] at hv
  rw [if_neg (by decide)] at hv
  simp [hne, hname, hmem] at hv

theorem inject_token {rule : CredProxyRule} (hv : Valid rule) {secret : Text} {base : Outbound}
    (h : inject rule.injection secret base = some o)
    (hbase : ∀ x ∈ base.headers, x.1 ≠ CRED_PROXY_TOKEN_HEADER) :
    ∀ x ∈ o.headers, x.1 ≠ CRED_PROXY_TOKEN_HEADER := by
  have hput : ∀ {name value : Text}, name ≠ CRED_PROXY_TOKEN_HEADER →
      ∀ x ∈ putHeader base.headers name value, x.1 ≠ CRED_PROXY_TOKEN_HEADER := by
    intro name value hname x hx
    obtain hsame | hx := mem_putHeader hx
    · rw [hsame]
      exact hname
    · exact hbase x hx
  unfold inject at h
  cases hkind : rule.injection.kind with
  | bearer =>
    rw [hkind] at h
    obtain ⟨hs, hset, rfl⟩ := Option.map_eq_some_iff.mp h
    obtain ⟨-, rfl⟩ := setHeader_inv hset
    exact hput (by decide)
  | basic =>
    rw [hkind] at h
    obtain ⟨hs, hset, rfl⟩ := Option.map_eq_some_iff.mp h
    obtain ⟨-, rfl⟩ := setHeader_inv hset
    exact hput (by decide)
  | header =>
    rw [hkind] at h
    obtain ⟨hs, hset, rfl⟩ := Option.map_eq_some_iff.mp h
    obtain ⟨hname, rfl⟩ := setHeader_inv hset
    exact hput (valid_header hv hkind hname)
  | query =>
    rw [hkind] at h
    obtain rfl := Option.some.inj h
    exact hbase

end OpsMaxx.CredProxy
