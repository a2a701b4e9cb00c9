import OpsMaxx.CredProxy.Confined

/-! # Rules written to the file and read back

The file holds the rules as the proxy had them, and the next launch rebuilds each from it. A rule
comes back as it was unless one of its texts was cut right behind a blank or its host name kept a
dot.
-/

set_option autoImplicit false

namespace OpsMaxx.CredProxy

open OpsMaxx.Strings

variable (api : UrlApi)

/-! ## What `JSON.stringify` writes -/

def jsonText (t : Text) : Json := .str (String.ofList t)

def CredProxyCredentialRef.toJson (c : CredProxyCredentialRef) : Json :=
  .obj (("vaultEntryId", jsonText c.vaultEntryId) :: ("slot", jsonText c.slot.word) ::
    match c.fieldKey with
    | none => []
    | some key => [("fieldKey", jsonText key)])

def CredProxyInjection.toJson (i : CredProxyInjection) : Json :=
  .obj (("kind", jsonText i.kind.word) ::
    if i.kind = .bearer then [] else [("name", jsonText i.name)])

def CredProxyRule.toJson (r : CredProxyRule) : Json :=
  .obj [("id", jsonText r.id), ("name", jsonText r.name), ("origin", jsonText r.origin),
    ("credential", r.credential.toJson), ("injection", r.injection.toJson),
    ("enabled", .bool r.enabled), ("createdAt", jsonText r.createdAt)]

@[simp] theorem str_jsonText (t : Text) : str (some (jsonText t)) = t := by
  simp [str, jsonText]

@[simp] theorem wordOf_jsonText (t : Text) : wordOf (some (jsonText t)) = some t := by
  simp [wordOf, jsonText]

/-! ## Texts that stay as they are -/

theorem trim_trim (t : Text) : trim (trim t) = trim t := by
  have hstart : trimStart (trim t) = trim t := by
    unfold trimStart
    apply List.dropWhile_eq_self_iff.mpr
    intro hpos
    obtain ⟨behind, hbehind⟩ : trim t <+: trimStart t := List.rdropWhile_prefix isSpace _
    have hlong : 0 < (trimStart t).length := by
      rw [← hbehind, List.length_append]
      omega
    have hhead := List.dropWhile_get_zero_not isSpace t hlong
    have hsame : (trim t)[0] = (trimStart t)[0] := by
      simp only [← hbehind]
      rw [List.getElem_append_left hpos]
    rw [hsame]
    exact hhead
  show trimEnd (trimStart (trim t)) = trim t
  rw [hstart]
  exact List.rdropWhile_idempotent isSpace _

/-- Cutting the trimmed text does not lay a blank bare at its end. -/
def CleanCut (n : Nat) (t : Text) : Prop := trim ((trim t).take n) = (trim t).take n

/-- A rule of which every text is as reading it leaves it. -/
structure Settled (r : CredProxyRule) : Prop where
  id : trim r.id = r.id ∧ r.id.length ≤ 64 ∧ r.id ≠ []
  name : trim r.name = r.name ∧ r.name.length ≤ 80 ∧ r.name ≠ []
  origin : normaliseOrigin api r.origin = some r.origin
  credential : sanitiseCredential (some r.credential.toJson) = some r.credential
  injection : sanitiseInjection (some r.injection.toJson) = some r.injection
  createdAt : r.createdAt ≠ []

/-! ## One rule -/

theorem sanitiseRule_toJson {r : CredProxyRule} (h : Settled api r) :
    sanitiseRule api r.toJson = some r := by
  have hid : r.toJson.get? "id" = some (jsonText r.id) := rfl
  have hname : r.toJson.get? "name" = some (jsonText r.name) := rfl
  have horigin : r.toJson.get? "origin" = some (jsonText r.origin) := rfl
  have hcredential : r.toJson.get? "credential" = some r.credential.toJson := rfl
  have hinjection : r.toJson.get? "injection" = some r.injection.toJson := rfl
  have henabled : r.toJson.get? "enabled" = some (.bool r.enabled) := rfl
  have hcreated : r.toJson.get? "createdAt" = some (jsonText r.createdAt) := rfl
  unfold sanitiseRule
  simp only [hid, hname, horigin, hcredential, hinjection, henabled, hcreated, str_jsonText,
    h.id.1, h.name.1, h.origin, h.credential, h.injection]
  rw [if_neg h.id.2.2, if_neg h.name.2.2, if_neg h.createdAt, List.take_of_length_le h.id.2.1,
    List.take_of_length_le h.name.2.1]
  cases henabledIs : r.enabled <;> simp [← henabledIs]

/-! ## What a draft becomes -/

theorem find_slot (slot : CredProxySlot) :
    SLOTS.find? (fun s => some slot.word = some s.word) = some slot := by
  cases slot <;> decide

theorem find_kind (kind : InjectionKind) :
    INJECTION_KINDS.find? (fun k => some kind.word = some k.word) = some kind := by
  cases kind <;> decide

theorem sanitiseCredential_toJson {entry key : Text} {slot : CredProxySlot} (hentry : trim entry ≠ [])
    (hkey : slot = .field → trim key ≠ []) :
    let c : CredProxyCredentialRef :=
      ⟨trim entry, slot, if slot = .field then some (trim key) else none⟩
    sanitiseCredential (some c.toJson) = some c := by
  intro c
  have hentryIs : fieldOf (some c.toJson) "vaultEntryId" = some (jsonText (trim entry)) := rfl
  have hslotIs : fieldOf (some c.toJson) "slot" = some (jsonText slot.word) := rfl
  unfold sanitiseCredential
  simp only [hentryIs, hslotIs, str_jsonText, wordOf_jsonText, trim_trim, find_slot,
    Option.getD_some]
  rw [if_neg hentry]
  by_cases hfield : slot = .field
  · have hkeyIs : fieldOf (some c.toJson) "fieldKey" = some (jsonText (trim key)) := by
      simp only [c, CredProxyCredentialRef.toJson, if_pos hfield]
      rfl
    simp only [hkeyIs, str_jsonText, trim_trim]
    rw [if_neg (fun h => hkey hfield h.2)]
  · rw [if_neg (fun h => hfield h.1)]
    simp only [c, if_neg hfield]

theorem sanitiseCredential_again {cred : Option Json} {c : CredProxyCredentialRef}
    (h : sanitiseCredential cred = some c) : sanitiseCredential (some c.toJson) = some c := by
  unfold sanitiseCredential at h
  simp only at h
  by_cases hentry : trim (str (fieldOf cred "vaultEntryId")) = []
  · rw [if_pos hentry] at h
    cases h
  · rw [if_neg hentry] at h
    split at h
    · cases h
    · rename_i hkey
      cases h
      exact sanitiseCredential_toJson hentry (fun hslot he => hkey ⟨hslot, he⟩)

theorem sanitiseInjection_again {inj : Option Json} {i : CredProxyInjection}
    (h : sanitiseInjection inj = some i) (hcut : CleanCut 128 (str (fieldOf inj "name"))) :
    sanitiseInjection (some i.toJson) = some i := by
  unfold sanitiseInjection at h
  cases hkind : INJECTION_KINDS.find? fun k => wordOf (fieldOf inj "kind") = some k.word with
  | none =>
    rw [hkind] at h
    cases h
  | some kind =>
    rw [hkind] at h
    by_cases hbearer : kind = .bearer
    · subst hbearer
      simp only [if_true] at h
      split at h
      · cases h
        decide
      · cases h
    · simp only [if_neg hbearer] at h
      split at h
      · rename_i hvalid
        cases h
        have hkindIs : ∀ name, fieldOf (some (CredProxyInjection.toJson ⟨kind, name⟩)) "kind" =
            some (jsonText kind.word) := fun _ => rfl
        have hnameIs : ∀ name, fieldOf (some (CredProxyInjection.toJson ⟨kind, name⟩)) "name" =
            some (jsonText name) := by
          intro name
          simp only [CredProxyInjection.toJson, if_neg hbearer]
          rfl
        unfold sanitiseInjection
        simp only [hkindIs, hnameIs, wordOf_jsonText, str_jsonText, find_kind, if_neg hbearer]
        rw [hcut, List.take_take, Nat.min_self, if_pos hvalid]
      · cases h

/-- The host of the text does not end in two dots. -/
def OneDot (raw : Text) : Prop := ∀ u, api.parse (trim raw) = some u → ¬['.', '.'] <:+ u.hostname

theorem undot_getLast {h : Text} (hdots : ¬['.', '.'] <:+ h) : (undot h).getLast? ≠ some '.' := by
  by_cases hlast : h.getLast? = some '.'
  · obtain ⟨host, rfl⟩ := List.getLast?_eq_some_iff.mp hlast
    rw [undot_append]
    intro hdot
    obtain ⟨front, rfl⟩ := List.getLast?_eq_some_iff.mp hdot
    apply hdots
    rw [List.append_assoc]
    exact List.suffix_append front ['.', '.']
  · rwa [undot_of_getLast hlast]

/-- A text without blanks that parses to its own origin is normal. -/
theorem normaliseOrigin_of_parsed {o : Text} {v : Url} (hink : ∀ c ∈ o, isInk c = true)
    (hparse : api.parse o = some v) (hweb : v.web = true) (hsame : v.origin = o)
    (hhost : v.hostname ≠ []) (hdot : v.hostname.getLast? ≠ some '.') :
    normaliseOrigin api o = some o := by
  have hne : o ≠ [] := by
    intro he
    rw [he] at hsame
    simp [Url.origin] at hsame
  unfold normaliseOrigin
  simp only [trim_of_ink hink]
  rw [if_neg hne, hparse]
  simp only [hweb, Bool.true_eq_false, if_false, undot_of_getLast hdot, if_neg hhost]
  exact congrArg some hsame

theorem normaliseOrigin_ink {raw o : Text} (h : normaliseOrigin api raw = some o) :
    o ≠ [] ∧ ∀ c ∈ o, isInk c = true := by
  obtain ⟨u, hparse, hweb, -, rfl⟩ := normaliseOrigin_inv h
  constructor
  · simp [Url.origin]
  · exact origin_undot_ink hparse hweb

theorem normaliseOrigin_settles {raw o : Text} (h : normaliseOrigin api raw = some o)
    (hdot : OneDot api raw) : normaliseOrigin api o = some o := by
  have hink := (normaliseOrigin_ink api h).2
  obtain ⟨u, hparse, hweb, hhost, rfl⟩ := normaliseOrigin_inv h
  have hlast := undot_getLast (hdot u hparse)
  have hv : ∃ v, api.parse (u.withHostname (undot u.hostname)).origin = some v ∧
      v.protocol = u.protocol ∧ v.hostname = undot u.hostname ∧ v.port = u.port := by
    by_cases hdotted : u.hostname.getLast? = some '.'
    · have hsplit : u.hostname = undot u.hostname ++ ['.'] := by
        unfold undot
        rw [if_pos hdotted]
        exact (List.dropLast_append_getLast? '.' hdotted).symm
      exact api.parse_undotted _ u _ hparse hweb hsplit hhost hlast
    · rw [undot_of_getLast hdotted]
      exact api.parse_origin _ u hparse hweb
  obtain ⟨v, hparsed, hprotocol, hname, hport⟩ := hv
  apply normaliseOrigin_of_parsed api hink hparsed
  · unfold Url.web at hweb ⊢
    rwa [hprotocol]
  · apply origin_congr
    · exact hprotocol
    · exact hname
    · exact hport
  · rwa [hname]
  · rwa [hname]

/-- A draft that leaves nothing for the next reading to take off. -/
structure ReadsBack (draft : Json) : Prop where
  id : CleanCut 64 (str (draft.get? "id"))
  name : CleanCut 80 (str (draft.get? "name"))
  origin : OneDot api (str (draft.get? "origin"))
  injection : CleanCut 128 (str (fieldOf (draft.get? "injection") "name"))

theorem take_ne_nil {n : Nat} {t : Text} (hn : 0 < n) (ht : t ≠ []) : t.take n ≠ [] := by
  intro he
  rcases List.take_eq_nil_iff.mp he with h0 | h0
  · omega
  · exact ht h0

theorem sanitiseRule_settled {draft : Json} {r : CredProxyRule}
    (h : sanitiseRule api draft = some r) (hback : ReadsBack api draft) : Settled api r := by
  unfold sanitiseRule at h
  simp only at h
  by_cases hid : trim (str (draft.get? "id")) = []
  · rw [if_pos hid] at h
    cases h
  · rw [if_neg hid] at h
    split at h
    · rename_i origin credential injection horigin hcredential hinjection
      obtain ⟨hne, hink⟩ := normaliseOrigin_ink api horigin
      obtain rfl := Option.some.inj h
      constructor
      · exact ⟨hback.id, List.length_take_le _ _, take_ne_nil (by decide) hid⟩
      · by_cases hname : trim (str (draft.get? "name")) = []
        · simp only [if_pos hname]
          refine ⟨trim_of_ink ?_, List.length_take_le _ _, take_ne_nil (by decide) hne⟩
          exact fun c hc => hink c (List.mem_of_mem_take hc)
        · simp only [if_neg hname]
          exact ⟨hback.name, List.length_take_le _ _, take_ne_nil (by decide) hname⟩
      · exact normaliseOrigin_settles api horigin hback.origin
      · exact sanitiseCredential_again hcredential
      · exact sanitiseInjection_again hinjection hback.injection
      · by_cases hcreated : str (draft.get? "createdAt") = []
        · simp only [if_pos hcreated]
          decide
        · simp only [if_neg hcreated]
          exact hcreated
    · cases h

/-! ## All of them -/

theorem foldl_keepRule (out : List CredProxyRule) {rules : List CredProxyRule}
    (hapart : Apart (out ++ rules))
    (h : ∀ r ∈ rules, Settled api r) :
    (rules.map CredProxyRule.toJson).foldl (keepRule api) out = out ++ rules := by
  induction rules generalizing out with
  | nil => simp
  | cons r rules ih =>
    have hr := sanitiseRule_toJson api (h r List.mem_cons_self)
    have hnew : keepRule api out r.toJson = out ++ [r] := by
      unfold keepRule
      rw [hr]
      simp only
      rw [if_neg]
      rintro (hid | horigin)
      · have hnodup := hapart.1
        rw [List.map_append, List.map_cons] at hnodup
        exact (List.nodup_append.mp hnodup).2.2 _ hid _ List.mem_cons_self rfl
      · have hnodup := hapart.2
        rw [List.map_append, List.map_cons] at hnodup
        exact (List.nodup_append.mp hnodup).2.2 _ horigin _ List.mem_cons_self rfl
    rw [List.map_cons, List.foldl_cons, hnew, ih]
    · rw [List.append_assoc, List.singleton_append]
    · rwa [List.append_assoc, List.singleton_append]
    · exact fun x hx => h x (List.mem_cons_of_mem _ hx)

theorem sanitiseRules_stored {rules : List CredProxyRule} (hapart : Apart rules)
    (h : ∀ r ∈ rules, Settled api r) :
    sanitiseRules api (some (.arr (rules.map CredProxyRule.toJson))) = rules :=
  foldl_keepRule api [] hapart h

end OpsMaxx.CredProxy

/-! ## The rules file and its two writers

The proxy writes back the copy of the file it took when it was constructed; the token functions
read the file, change its token records and write it. Token values are in the keychain.
-/

namespace OpsMaxx.CredProxy

open OpsMaxx.Strings

/-! ## The file -/

/-- A token's record as the file holds it. -/
structure TokenRecord extends CredProxyToken where
  name : Text
  createdAt : Text
  lastUsedAt : Option Text
  deriving DecidableEq

/-- `rules` is whatever the file lists; `tokens` is absent from older files. -/
structure CredProxyFile where
  enabled : Bool
  port : Nat
  rules : List Json
  tokens : Option (List TokenRecord)

def emptyFile : CredProxyFile := ⟨false, 0, [], none⟩

def LEGACY_TOKEN_ID : Text := "legacy".toList
def LEGACY_TOKEN_SECRET_ID : Text := "credproxy.client.token".toList
def DEFAULT_CRED_PROXY_PORT : Nat := 5178

def credProxyTokenSecretId (tokenId : Text) : Text :=
  if tokenId = LEGACY_TOKEN_ID then LEGACY_TOKEN_SECRET_ID
  else "credproxy.token.".toList ++ tokenId

def legacyToken (now : Text) : TokenRecord where
  id := LEGACY_TOKEN_ID
  name := "Original token (before per-agent tokens)".toList
  createdAt := now
  expiresAt := none
  revokedAt := none
  lastUsedAt := none

def migrateLegacyToken (file : CredProxyFile) (legacyExists : Bool) (now : Text) : CredProxyFile :=
  let tokens := file.tokens.getD []
  if legacyExists = false then { file with tokens := some tokens }
  else if tokens.any (fun t => t.id = LEGACY_TOKEN_ID) then { file with tokens := some tokens }
  else { file with tokens := some (legacyToken now :: tokens) }

def addCredProxyToken (file : CredProxyFile) (token : TokenRecord) : CredProxyFile :=
  { file with tokens := some (token :: file.tokens.getD []) }

def stampUsed (id at' : Text) (t : TokenRecord) : TokenRecord :=
  if t.id = id then { t with lastUsedAt := some at' } else t

def stampRevoked (id at' : Text) (t : TokenRecord) : TokenRecord :=
  if t.id = id ∧ t.revokedAt = none then
    { t with toCredProxyToken := { t.toCredProxyToken with revokedAt := some at' } }
  else t

def revokeCredProxyToken (file : CredProxyFile) (id at' : Text) : CredProxyFile :=
  { file with tokens := some ((file.tokens.getD []).map (stampRevoked id at')) }

/-! ## The proxy's copy -/

structure CredProxyState where
  file : CredProxyFile
  ruleCache : List CredProxyRule
  listening : Bool

variable (api : UrlApi)

def construct (raw : CredProxyFile) : CredProxyState where
  file := {
    enabled := raw.enabled
    port := if 0 < raw.port ∧ raw.port < 65536 then raw.port else DEFAULT_CRED_PROXY_PORT
    rules := raw.rules
    tokens := none }
  ruleCache := sanitiseRules api (some (.arr raw.rules))
  listening := false

/-! ## The app -/

/-- What was done, for whoever asks afterwards: a record added together with the token's value, a
token revoked, a rule saved or removed. -/
inductive Did where
  | added (t : TokenRecord) (value : Text)
  | revoked (id at' : Text)
  | saved (rule : CredProxyRule)
  | removed (id : Text)

structure App where
  disk : Option CredProxyFile
  secrets : Text → Option Text
  proxy : CredProxyState
  log : List Did

/-- Whether the rules file can be read and written just now. -/
structure Io where
  readable : Bool
  writable : Bool

def App.note (s : App) (d : Did) : App := { s with log := s.log ++ [d] }

def readCredProxyFile (io : Io) (s : App) : CredProxyFile :=
  if io.readable then s.disk.getD emptyFile else emptyFile

def writeCredProxyFile (io : Io) (file : CredProxyFile) (s : App) : App :=
  if io.writable then { s with disk := some file } else s

def getSecret (s : App) (id : Text) : Option Text := s.secrets (credProxyTokenSecretId id)

def App.setSecret (s : App) (id : Text) (value : Option Text) : App :=
  { s with secrets := Function.update s.secrets (credProxyTokenSecretId id) value }

def persist (io : Io) (s : App) : App :=
  let file := { s.proxy.file with rules := s.proxy.ruleCache.map CredProxyRule.toJson }
  writeCredProxyFile io file { s with proxy := { s.proxy with file := file } }

/-! ## The token functions -/

/-- The file with the single token of old promoted to a record. -/
def promoted (io : Io) (now : Text) (s : App) : CredProxyFile :=
  migrateLegacyToken (readCredProxyFile io s) (getSecret s LEGACY_TOKEN_ID).isSome now

def credProxyTokenList (io : Io) (now : Text) (s : App) : App × List TokenRecord :=
  let before := readCredProxyFile io s
  let after := promoted io now s
  let tokens := after.tokens.getD []
  if (before.tokens.getD []).length ≠ tokens.length then
    (writeCredProxyFile io after
      (s.note (.added (legacyToken now) ((getSecret s LEGACY_TOKEN_ID).getD []))), tokens)
  else (s, tokens)

def markCredProxyTokenUsed (io : Io) (id at' : Text) (s : App) : App :=
  let f := readCredProxyFile io s
  writeCredProxyFile io { f with tokens := some ((f.tokens.getD []).map (stampUsed id at')) } s

def tokenRecord (name : Text) (expiresAt : Option Text) (id now : Text) : TokenRecord where
  id := id
  name := (trim name).take 80
  createdAt := now
  expiresAt := expiresAt
  revokedAt := none
  lastUsedAt := none

/-- The date can be read, or there is none. -/
def dateReads (dateParse : Text → Option Int) (expiresAt : Option Text) : Bool :=
  match expiresAt with
  | none => true
  | some iso => (dateParse iso).isSome

/-- `stored` is whether the keychain took the value; the handler does not look. -/
def createToken (dateParse : Text → Option Int) (io : Io) (name : Text) (expiresAt : Option Text)
    (id value now : Text) (stored : Bool) (s : App) : App :=
  if trim name = [] then s
  else if dateReads dateParse expiresAt = false then s
  else
    let token := tokenRecord name expiresAt id now
    let s := if stored then s.setSecret id (some value) else s
    writeCredProxyFile io (addCredProxyToken (readCredProxyFile io s) token)
      (s.note (.added token value))

def revokeToken (io : Io) (id now : Text) (s : App) : App :=
  (writeCredProxyFile io (revokeCredProxyToken (readCredProxyFile io s) id now)
    (s.note (.revoked id now))).setSecret id none

/-! ## The proxy's own writes -/

def App.setRules (s : App) (rules : List CredProxyRule) : App :=
  { s with proxy := { s.proxy with ruleCache := rules } }

def saveRuleIn (io : Io) (draft : Json) (newId now : String) (s : App) : App :=
  match saveRule api s.proxy.ruleCache draft newId now with
  | (.ok rule, rules) => persist io ((s.setRules rules).note (.saved rule))
  | (.error _, _) => s

def removeRuleIn (io : Io) (id : Text) (s : App) : App :=
  let rules := removeRule s.proxy.ruleCache id
  if rules.length ≠ s.proxy.ruleCache.length then
    persist io ((s.setRules rules).note (.removed id))
  else s.note (.removed id)

/-- What the listener is bound with: `bound` is the port it got, if it got one. -/
def listen (io : Io) (bound : Option Nat) (s : App) : App :=
  match bound with
  | none => { s with proxy := { s.proxy with listening := false } }
  | some port =>
    let file := { s.proxy.file with enabled := true, port := port }
    persist io { s with proxy := { s.proxy with file := file, listening := true } }

def start (io : Io) (port : Option Int) (bound : Option Nat) (s : App) : App :=
  match port with
  | none => listen io bound s
  | some p =>
    if p < 0 ∨ 65535 < p then s
    else
      let file := { s.proxy.file with port := p.toNat }
      listen io bound { s with proxy := { s.proxy with file := file } }

def disable (io : Io) (s : App) : App :=
  let file := { s.proxy.file with enabled := false }
  persist io { s with proxy := { s.proxy with file := file, listening := false } }

/-- A launch: the proxy is constructed from the file, its status asks for the tokens, and a
listener that was on is resumed. -/
def launch (io : Io) (now : Text) (bound : Option Nat) (s : App) : App :=
  let s := { s with proxy := construct api (readCredProxyFile io s) }
  let s := (credProxyTokenList io now s).1
  if s.proxy.file.enabled then start io none bound s else s

/-! ## Runs -/

inductive Op where
  | tokens (now : Text)
  | createToken (name : Text) (expiresAt : Option Text) (id value now : Text) (stored : Bool)
  | revokeToken (id now : Text)
  | markTokenUsed (id at' : Text)
  | saveRule (draft : Json) (newId now : String)
  | removeRule (id : Text)
  | start (port : Option Int) (bound : Option Nat)
  | disable
  | restart (now : Text) (bound : Option Nat)

variable (dateParse : Text → Option Int)

def perform (io : Io) (s : App) : Op → App
  | .tokens now => (credProxyTokenList io now s).1
  | .createToken name expiresAt id value now stored =>
    createToken dateParse io name expiresAt id value now stored s
  | .revokeToken id now => revokeToken io id now s
  | .markTokenUsed id at' => markCredProxyTokenUsed io id at' s
  | .saveRule draft newId now => saveRuleIn api io draft newId now s
  | .removeRule id => removeRuleIn io id s
  | .start port bound => start io port bound s
  | .disable => disable io s
  | .restart now bound => launch api io now bound s

/-- `randomUUID` and `randomBytes` give what no token had before. -/
def Fresh (s : App) : Op → Prop
  | .createToken _ _ id value _ _ =>
    id ≠ LEGACY_TOKEN_ID ∧ (∀ t v, Did.added t v ∈ s.log → t.id ≠ id) ∧ value ≠ [] ∧
      ∀ key, s.secrets key ≠ some value
  | _ => True

/-- A first launch, without a rules file, over whatever the keychain holds. -/
def installed (secrets : Text → Option Text) : App where
  disk := none
  secrets := secrets
  proxy := construct api emptyFile
  log := []

/-- The runs from a first launch whose steps all meet `allowed`. -/
inductive Run (allowed : Io → App → Op → Prop) (secrets : Text → Option Text) : App → Prop where
  | launched : Run allowed secrets (installed api secrets)
  | step {s : App} (io : Io) (op : Op) (h : Run allowed secrets s) (hfresh : Fresh s op)
    (hallowed : allowed io s op) : Run allowed secrets (perform api dateParse io s op)

end OpsMaxx.CredProxy
