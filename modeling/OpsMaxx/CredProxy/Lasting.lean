import OpsMaxx.CredProxy.Home
import OpsMaxx.CredProxy.Ledger

/-! # Runs over the rules file

Every careful step keeps what the file says of the tokens and of the rules; one step that is not
careful loses every token.
-/

set_option autoImplicit false

namespace OpsMaxx.CredProxy
open OpsMaxx.Strings

variable {api : UrlApi} {dateParse : Text → Option Int}

/-! ## Steps that leave the rules alone -/

structure SameRules (s s' : App) : Prop where
  proxy : s'.proxy = s.proxy
  rules : rulesOf s'.disk = rulesOf s.disk
  last : ∀ id, lastSaved id s'.log = lastSaved id s.log

theorem SameRules.inv {s s' : App} (h : SameRules s s') (hs : RulesInv api s) : RulesInv api s' := by
  constructor
  · constructor
    · rw [h.proxy]
      exact hs.apart
    · rw [h.proxy]
      exact hs.settled
    · intro id rule hlast
      rw [h.last] at hlast
      rw [h.proxy]
      exact hs.last id rule hlast
    · rw [h.proxy]
      exact hs.copy
  · rw [h.rules, h.proxy]
    exact hs.written

theorem markCredProxyTokenUsed_rules {s : App} {io : Io} (hio : io.readable = true)
    (hout : io.writable = true) (id at' : Text) :
    SameRules s (markCredProxyTokenUsed io id at' s) := by
  unfold markCredProxyTokenUsed
  rw [write_of_writable hout]
  exact ⟨rfl, read_rules hio, fun _ => rfl⟩

theorem revokeToken_rules {s : App} {io : Io} (hio : io.readable = true)
    (hout : io.writable = true) (id now : Text) : SameRules s (revokeToken io id now s) := by
  unfold revokeToken
  rw [write_of_writable hout]
  exact ⟨rfl, read_rules hio, fun i => lastSaved_append i s.log _⟩

theorem createToken_rules {s : App} {io : Io} (hio : io.readable = true)
    (hout : io.writable = true) (name : Text) (expiresAt : Option Text) (id value now : Text) :
    SameRules s (createToken dateParse io name expiresAt id value now true s) := by
  unfold createToken
  by_cases hname : trim name = []
  · rw [if_pos hname]
    exact ⟨rfl, rfl, fun _ => rfl⟩
  by_cases hdate : dateReads dateParse expiresAt = false
  · rw [if_neg hname, if_pos hdate]
    exact ⟨rfl, rfl, fun _ => rfl⟩
  · rw [if_neg hname, if_neg hdate]
    simp only [if_true]
    rw [write_of_writable hout]
    refine ⟨rfl, ?_, fun i => lastSaved_append i s.log _⟩
    exact read_rules (s := s.setSecret id (some value)) hio

theorem promoted_rules {s : App} {io : Io} (hio : io.readable = true) (now : Text) :
    (promoted io now s).rules = rulesOf s.disk := by
  unfold promoted migrateLegacyToken
  simp only
  split_ifs <;> exact read_rules hio

theorem credProxyTokenList_rules {s : App} {io : Io} (hio : io.readable = true)
    (hout : io.writable = true) (now : Text) : SameRules s (credProxyTokenList io now s).1 := by
  unfold credProxyTokenList
  simp only
  split_ifs
  · rw [write_of_writable hout]
    exact ⟨rfl, promoted_rules hio now, fun i => lastSaved_append i s.log _⟩
  · exact ⟨rfl, rfl, fun _ => rfl⟩

/-! ## The proxy writes its copy -/

theorem persist_rules {s : App} {io : Io} (hout : io.writable = true) (h : CacheInv api s) :
    RulesInv api (persist io s) := by
  rw [persist_of_writable hout]
  exact ⟨⟨h.apart, h.settled, h.last, h.copy⟩, rfl⟩

/-- The copy holds no token record, so writing it is careful only where the file holds none. -/
theorem persist_tokens {s s' : App} {io : Io} (hout : io.writable = true) (h : TokensInv s)
    (hempty : tokensOf s.disk = []) (hcopy : s'.proxy.file.tokens = none)
    (hlog : ∀ t v, Did.added t v ∈ s'.log → Did.added t v ∈ s.log) :
    TokensInv (persist io s') := by
  rw [persist_of_writable hout]
  apply tokensInv_of_none
  · intro t v hmem
    exact none_added h.kept hempty t v (hlog t v hmem)
  · show Option.getD s'.proxy.file.tokens [] = []
    rw [hcopy]
    rfl

structure Inv (api : UrlApi) (s : App) : Prop where
  tokens : TokensInv s
  rules : RulesInv api s

theorem putRule_mem (rules : List CredProxyRule) (rule : CredProxyRule) :
    rule ∈ putRule rules rule ∧ ∀ r ∈ rules, r.id ≠ rule.id → r ∈ putRule rules rule := by
  unfold putRule
  cases hfind : rules.findIdx? fun r => r.id = rule.id with
  | none =>
    constructor
    · exact List.mem_append_right _ (List.mem_singleton.mpr rfl)
    · exact fun r hr _ => List.mem_append_left _ hr
  | some i =>
    obtain ⟨hi, hat, -⟩ := List.findIdx?_eq_some_iff_getElem.mp hfind
    have hsame : rules[i].id = rule.id := by simpa using hat
    constructor
    · exact List.mem_set hi rule
    · intro r hr hne
      obtain ⟨j, hj, rfl⟩ := List.mem_iff_getElem.mp hr
      apply List.mem_iff_getElem.mpr
      have hij : i ≠ j := by
        rintro rfl
        exact hne hsame
      exact ⟨j, by rwa [List.length_set], List.getElem_set_ne hij _⟩

theorem saveRule_ok {rules rules' : List CredProxyRule} {draft : Json} {newId now : String}
    {rule : CredProxyRule} (h : saveRule api rules draft newId now = (.ok rule, rules')) :
    sanitiseRule api (withId draft newId now) = some rule ∧ rules' = putRule rules rule := by
  unfold saveRule at h
  split at h
  · cases h
  · split at h
    · cases h
    · rename_i hrule
      split at h
      · cases h
      · cases h
        exact ⟨hrule, rfl⟩

theorem saveRuleIn_inv {s : App} {io : Io} (h : Inv api s) {draft : Json} {newId now : String}
    (hcareful : Careful api io s (.saveRule draft newId now)) :
    Inv api (saveRuleIn api io draft newId now s) := by
  obtain ⟨-, hout, hback⟩ := hcareful
  unfold saveRuleIn
  cases hsave : saveRule api s.proxy.ruleCache draft newId now with
  | mk result rules =>
    cases result with
    | error e => exact h
    | ok rule =>
      simp only [hsave] at hback
      obtain ⟨hempty, hreads⟩ := hback ⟨rule, rfl⟩
      obtain ⟨hrule, hrules⟩ := saveRule_ok hsave
      have hapart := saveRule_apart api h.rules.apart draft newId now
      rw [hsave] at hapart
      constructor
      · apply persist_tokens hout h.tokens hempty
        · exact h.rules.copy
        · intro t v hmem
          simpa [App.note, App.setRules] using hmem
      · apply persist_rules hout
        constructor
        · exact hapart
        · intro r hr
          obtain rfl | hr := mem_putRule (hrules ▸ hr)
          · exact sanitiseRule_settled api hrule hreads
          · exact h.rules.settled r hr
        · intro id r hlast
          obtain ⟨hmem, hothers⟩ := putRule_mem s.proxy.ruleCache rule
          have hlast' : keepSaved id (lastSaved id s.log) (.saved rule) = some r :=
            (lastSaved_append id s.log _).symm.trans hlast
          show r ∈ rules ∧ r.id = id
          rw [hrules]
          by_cases hid : rule.id = id
          · rw [keepSaved, if_pos hid] at hlast'
            cases hlast'
            exact ⟨hmem, hid⟩
          · rw [keepSaved, if_neg hid] at hlast'
            obtain ⟨hr, hrid⟩ := h.rules.last id r hlast'
            refine ⟨hothers r hr ?_, hrid⟩
            rw [hrid]
            exact Ne.symm hid
        · exact h.rules.copy

theorem saveRuleIn_secrets (io : Io) (draft : Json) (newId now : String) (s : App) :
    (saveRuleIn api io draft newId now s).secrets = s.secrets := by
  unfold saveRuleIn
  split
  · unfold persist writeCredProxyFile
    split_ifs <;> rfl
  · rfl

theorem removeRule_last {s : App} (h : CacheInv api s) (id : Text) :
    ∀ i rule, lastSaved i (s.log ++ [.removed id]) = some rule →
      rule ∈ removeRule s.proxy.ruleCache id ∧ rule.id = i := by
  intro i rule hlast
  rw [lastSaved_append, keepSaved] at hlast
  by_cases hid : id = i
  · rw [if_pos hid] at hlast
    cases hlast
  · rw [if_neg hid] at hlast
    obtain ⟨hr, hrid⟩ := h.last i rule hlast
    refine ⟨List.mem_filter.mpr ⟨hr, ?_⟩, hrid⟩
    rw [hrid]
    exact decide_eq_true (Ne.symm hid)

theorem removeRuleIn_inv {s : App} {io : Io} (h : Inv api s) {id : Text}
    (hcareful : Careful api io s (.removeRule id)) : Inv api (removeRuleIn io id s) := by
  obtain ⟨-, hout, hempty⟩ := hcareful
  have hlast := removeRule_last h.rules.toCacheInv id
  unfold removeRuleIn
  simp only
  split_ifs with hlen
  · have hsome : ∃ r ∈ s.proxy.ruleCache, r.id = id := by
      by_contra hnone
      push Not at hnone
      apply hlen
      unfold removeRule
      rw [List.filter_eq_self.mpr]
      exact fun r hr => decide_eq_true (hnone r hr)
    constructor
    · apply persist_tokens hout h.tokens (hempty hsome)
      · exact h.rules.copy
      · intro t v hmem
        simpa [App.note, App.setRules] using hmem
    · apply persist_rules hout
      exact ⟨removeRule_apart h.rules.apart id,
        fun r hr => h.rules.settled r (List.mem_of_mem_filter hr), hlast, h.rules.copy⟩
  · have hsame : removeRule s.proxy.ruleCache id = s.proxy.ruleCache := by
      apply List.filter_sublist.eq_of_length
      simpa [removeRule] using hlen
    rw [hsame] at hlast
    constructor
    · apply h.tokens.stamp [.removed id] (f := fun u => u)
      · exact (List.map_id' _).symm
      · rfl
      · simp
      · exact fun _ => rfl
      · intro u t after hstill
        refine ⟨hstill.id, hstill.name, hstill.createdAt, hstill.expiresAt, ?_⟩
        rw [firstRevoked_append, ← hstill.revokedAt]
        exact (Option.or_none).symm
      · exact fun _ _ => rfl
      · exact fun _ _ hiv => hiv
    · exact ⟨⟨h.rules.apart, h.rules.settled, hlast, h.rules.copy⟩, h.rules.written⟩

/-! ## The listener -/

theorem listen_inv {s : App} {io : Io} (h : Inv api s) (hout : io.writable = true)
    {bound : Option Nat} (hempty : bound.isSome → tokensOf s.disk = []) :
    Inv api (listen io bound s) := by
  cases bound with
  | none =>
    exact ⟨h.tokens.congr rfl rfl rfl,
      ⟨⟨h.rules.apart, h.rules.settled, h.rules.last, h.rules.copy⟩, h.rules.written⟩⟩
  | some port =>
    constructor
    · exact persist_tokens hout h.tokens (hempty rfl) h.rules.copy (fun _ _ hmem => hmem)
    · apply persist_rules hout
      exact ⟨h.rules.apart, h.rules.settled, h.rules.last, h.rules.copy⟩

theorem start_inv {s : App} {io : Io} (h : Inv api s) (hout : io.writable = true)
    {port : Option Int} {bound : Option Nat}
    (hempty : (∀ p, port = some p → 0 ≤ p ∧ p ≤ 65535) → bound.isSome → tokensOf s.disk = []) :
    Inv api (start io port bound s) := by
  cases port with
  | none =>
    apply listen_inv h hout
    apply hempty
    intro p hp
    cases hp
  | some p =>
    unfold start
    simp only
    split_ifs with hport
    · exact h
    · apply listen_inv _ hout
      · apply hempty
        intro q hq
        cases hq
        omega
      · exact ⟨h.tokens.congr rfl rfl rfl,
          ⟨⟨h.rules.apart, h.rules.settled, h.rules.last, h.rules.copy⟩, h.rules.written⟩⟩

theorem disable_inv {s : App} {io : Io} (h : Inv api s) (hout : io.writable = true)
    (hempty : tokensOf s.disk = []) : Inv api (disable io s) := by
  constructor
  · exact persist_tokens hout h.tokens hempty h.rules.copy (fun _ _ hmem => hmem)
  · apply persist_rules hout
    exact ⟨h.rules.apart, h.rules.settled, h.rules.last, h.rules.copy⟩

/-- Constructing the proxy anew reads the same rules back. -/
theorem construct_inv {s : App} {io : Io} (h : Inv api s) (hio : io.readable = true) :
    Inv api { s with proxy := construct api (readCredProxyFile io s) } := by
  have hcache : (construct api (readCredProxyFile io s)).ruleCache = s.proxy.ruleCache := by
    show sanitiseRules api (some (.arr (readCredProxyFile io s).rules)) = _
    rw [read_rules hio, h.rules.written]
    exact sanitiseRules_stored api h.rules.apart h.rules.settled
  constructor
  · exact h.tokens.congr rfl rfl rfl
  · constructor
    · constructor
      · show Apart (construct api (readCredProxyFile io s)).ruleCache
        rw [hcache]
        exact h.rules.apart
      · show ∀ r ∈ (construct api (readCredProxyFile io s)).ruleCache, _
        rw [hcache]
        exact h.rules.settled
      · intro id rule hlast
        show rule ∈ (construct api (readCredProxyFile io s)).ruleCache ∧ _
        rw [hcache]
        exact h.rules.last id rule hlast
      · rfl
    · show rulesOf s.disk = (construct api (readCredProxyFile io s)).ruleCache.map _
      rw [hcache]
      exact h.rules.written

/-- Without the token of old, asking for the tokens changes no record. -/
theorem credProxyTokenList_none {s : App} {io : Io} (hio : io.readable = true) (now : Text)
    (hnone : getSecret s LEGACY_TOKEN_ID = none) : (credProxyTokenList io now s).1 = s := by
  unfold credProxyTokenList
  simp only
  rw [if_neg]
  intro hlen
  obtain hsame | ⟨-, hsome, -⟩ := promoted_tokens (s := s) hio now
  · rw [hsame, read_tokens hio] at hlen
    exact hlen rfl
  · rw [hnone] at hsome
    cases hsome

theorem launch_inv {s : App} {io : Io} (h : Inv api s) {now : Text} {bound : Option Nat}
    (hcareful : Careful api io s (.restart now bound)) : Inv api (launch api io now bound s) := by
  obtain ⟨hio, hout, hempty⟩ := hcareful
  have henabled : (construct api (readCredProxyFile io s)).file.enabled =
      (s.disk.getD emptyFile).enabled := by
    show (readCredProxyFile io s).enabled = _
    unfold readCredProxyFile
    rw [if_pos hio]
  have hfresh := construct_inv h hio
  unfold launch
  simp only
  generalize hs : ({ s with proxy := construct api (readCredProxyFile io s) } : App) = s₁ at hfresh
  have hrules := credProxyTokenList_rules (s := s₁) hio hout now
  have hlisted : Inv api (credProxyTokenList io now s₁).1 :=
    ⟨credProxyTokenList_inv hfresh.tokens hio hout now, hrules.inv hfresh.rules⟩
  split_ifs with hon
  · apply start_inv hlisted hout
    intro _ hbound
    have hnotokens : tokensOf (credProxyTokenList io now s₁).1.disk = [] := by
      rw [hrules.proxy, ← hs] at hon
      obtain ⟨hnotoken, hnone⟩ := hempty (henabled ▸ hon) hbound
      have hkeep : (credProxyTokenList io now s₁).1 = s₁ := by
        apply credProxyTokenList_none hio
        rw [← hs]
        exact hnone
      rw [hkeep, ← hs]
      exact hnotoken
    exact hnotokens
  · exact hlisted

/-! ## Every run -/

theorem perform_inv {s : App} {io : Io} {op : Op} (h : Inv api s) (hfresh : Fresh s op)
    (hcareful : Careful api io s op) : Inv api (perform api dateParse io s op) := by
  have hio := hcareful.1
  have hout := hcareful.2.1
  cases op with
  | tokens now =>
    exact ⟨credProxyTokenList_inv h.tokens hio hout now,
      (credProxyTokenList_rules hio hout now).inv h.rules⟩
  | createToken name expiresAt id value now stored =>
    obtain rfl : stored = true := hcareful.2.2
    exact ⟨createToken_inv h.tokens hio hout hfresh,
      (createToken_rules hio hout name expiresAt id value now).inv h.rules⟩
  | revokeToken id now =>
    exact ⟨revokeToken_inv h.tokens hio hout id now,
      (revokeToken_rules hio hout id now).inv h.rules⟩
  | markTokenUsed id at' =>
    exact ⟨markCredProxyTokenUsed_inv h.tokens hio hout id at',
      (markCredProxyTokenUsed_rules hio hout id at').inv h.rules⟩
  | saveRule draft newId now => exact saveRuleIn_inv h hcareful
  | removeRule id => exact removeRuleIn_inv h hcareful
  | start port bound => exact start_inv h hout hcareful.2.2
  | disable => exact disable_inv h hout hcareful.2.2
  | restart now bound => exact launch_inv h hcareful

theorem installed_inv (secrets : Text → Option Text) : Inv api (installed api secrets) := by
  constructor
  · apply tokensInv_of_none
    · simp [installed]
    · rfl
  · constructor
    · constructor
      · exact sanitiseRules_apart api (some (.arr []))
      · exact fun r hr => absurd hr List.not_mem_nil
      · intro id rule hlast
        cases hlast
      · rfl
    · rfl

theorem run_inv {secrets : Text → Option Text} {s : App}
    (h : Run api dateParse (Careful api) secrets s) : Inv api s := by
  induction h with
  | launched => exact installed_inv secrets
  | step _ _ _ hfresh hcareful ih => exact perform_inv ih hfresh hcareful

/-! ## What the invariant says -/

/-- The tokens a request is checked against: those of the file, and at most the one of old. -/
theorem listed_tokens {s : App} {io : Io} (hio : io.readable = true)
    (date : Text) :
    (∀ u ∈ tokensOf s.disk, u ∈ (credProxyTokenList io date s).2) ∧
      ∀ u ∈ (credProxyTokenList io date s).2, u ∈ tokensOf s.disk ∨
        u.id = LEGACY_TOKEN_ID ∧ ∀ x ∈ tokensOf s.disk, x.id ≠ LEGACY_TOKEN_ID := by
  have hlist : (credProxyTokenList io date s).2 = (promoted io date s).tokens.getD [] := by
    unfold credProxyTokenList
    simp only
    split_ifs <;> rfl
  rw [hlist]
  obtain hsame | ⟨hcons, -, hnew⟩ := promoted_tokens (s := s) hio date
  · rw [hsame]
    exact ⟨fun _ hu => hu, fun _ hu => Or.inl hu⟩
  · rw [hcons]
    constructor
    · exact fun u hu => List.mem_cons_of_mem _ hu
    · intro u hu
      obtain rfl | hu := List.mem_cons.mp hu
      · exact Or.inr ⟨rfl, hnew⟩
      · exact Or.inl hu

theorem matchHolder_holds {presented : Text} {secretOf : Text → Option Text}
    {matched : Option CredProxyToken} {x : CredProxyToken} (hne : presented ≠ [])
    (h : matched ≠ none ∨ secretOf x.id = some presented) :
    matchHolder presented secretOf matched x ≠ none := by
  unfold matchHolder
  split
  · rename_i hnone
    rw [hnone] at h
    simpa using h
  · rename_i secret hsecret
    split_ifs with hequal
    · simp
    · rw [hsecret] at h
      obtain h | h := h
      · exact h
      · cases h
        exact absurd ⟨hne, rfl⟩ hequal

theorem holderOf_ne_none {presented : Text} {tokens : List CredProxyToken}
    {secretOf : Text → Option Text} (hne : presented ≠ []) {t : CredProxyToken} (ht : t ∈ tokens)
    (hsecret : secretOf t.id = some presented) : holderOf presented tokens secretOf ≠ none := by
  have hall : ∀ matched, matched ≠ none ∨ t ∈ tokens →
      tokens.foldl (matchHolder presented secretOf) matched ≠ none := by
    clear ht
    induction tokens with
    | nil =>
      intro matched h
      simpa using h
    | cons x xs ih =>
      intro matched h
      rw [List.foldl_cons]
      apply ih
      obtain h | h := h
      · exact Or.inl (matchHolder_holds hne (Or.inl h))
      · obtain rfl | h := List.mem_cons.mp h
        · exact Or.inl (matchHolder_holds hne (Or.inr hsecret))
        · exact Or.inr h
  exact hall none (Or.inr ht)

theorem accepted_of_inv {s : App} (h : TokensInv s) : Accepted dateParse s := by
  intro before t value after hlog hvalue hopen io hio date now hdate
  obtain ⟨u, hu, hstill⟩ := h.kept _ _ _ _ hlog
  have hsecret := h.secret _ _ _ _ hlog hopen
  rw [← hstill.id] at hsecret
  obtain ⟨hall, honly⟩ := listed_tokens (s := s) hio date
  set tokens := (credProxyTokenList io date s).2.map TokenRecord.toCredProxyToken with htokens
  have hmem : u.toCredProxyToken ∈ tokens := List.mem_map_of_mem (hall u hu)
  obtain ⟨x, hx⟩ := Option.ne_none_iff_exists'.mp (holderOf_ne_none hvalue hmem hsecret)
  obtain ⟨hxmem, hxsecret⟩ := holderOf_mem hx
  obtain ⟨y, hy, rfl⟩ := List.mem_map.mp hxmem
  have hlisted : ∀ z ∈ (credProxyTokenList io date s).2,
      z.id ∈ LEGACY_TOKEN_ID :: (tokensOf s.disk).map (·.id) := by
    intro z hz
    obtain hz | ⟨hz, -⟩ := honly z hz
    · exact List.mem_cons_of_mem _ (List.mem_map_of_mem (f := (·.id)) hz)
    · rw [hz]
      exact List.mem_cons_self
  have hsame : y.id = u.id :=
    h.distinct _ (hlisted y hy) _ (hlisted u (hall u hu)) value hxsecret hsecret
  have hyu : y = u := by
    obtain hyfile | ⟨hlegacy, hnot⟩ := honly y hy
    · exact List.inj_on_of_nodup_map h.nodup hyfile hu hsame
    · exact absurd (hsame.symm.trans hlegacy) (hnot u hu)
  subst hyu
  refine ⟨y.toCredProxyToken, ?_, hstill.id⟩
  have husable : credProxyTokenUsable dateParse y.toCredProxyToken now = true := by
    have hrevoked := hstill.revokedAt
    rw [hopen] at hrevoked
    unfold credProxyTokenUsable credProxyTokenState
    rw [hrevoked, hstill.expiresAt]
    cases hexpires : t.expiresAt with
    | none => simp
    | some iso =>
      obtain ⟨expiry, hparse, hlt⟩ := hdate iso hexpires
      simp [hparse, hlt]
  unfold matchToken
  rw [if_neg hvalue, hx]
  simp only
  rw [if_pos husable]

theorem rulesKept_of_inv {s : App} (h : RulesInv api s) : RulesKept api s := by
  intro id rule hlast
  have hmem := (h.last id rule hlast).1
  rw [h.written]
  refine ⟨List.mem_map_of_mem hmem, ?_, hmem⟩
  rw [sanitiseRules_stored api h.apart h.settled]
  exact hmem

/-- In every run of careful steps no token is lost or brought back and no rule is lost. -/
theorem nothing_lost {secrets : Text → Option Text} {s : App}
    (h : Run api dateParse (Careful api) secrets s) : NothingLost api dateParse s := by
  have hinv := run_inv h
  exact ⟨hinv.tokens.kept, rulesKept_of_inv hinv.rules, accepted_of_inv hinv.tokens⟩

def reads : Io := ⟨true, true⟩

def vaultedDraft : Json :=
  .obj [("name", .str "API"), ("origin", .str "https://api.example.com"),
    ("credential", .obj [("vaultEntryId", .str "entry"), ("slot", .str "password")]),
    ("injection", .obj [("kind", .str "bearer")])]

/-- A rule is saved, a token made and used, and the app launched again. -/
def ordinaryOps : List Op :=
  [.saveRule vaultedDraft "rule" "2026-01-01T00:00:00.000Z",
    .createToken "nightly".toList none "t1".toList "value".toList "2026-01-02".toList true,
    .markTokenUsed "t1".toList "2026-01-03".toList,
    .restart "2026-01-04".toList none]

theorem nothing_lost_example :
    NothingLost plainApi (fun _ => none)
      (ordinaryOps.foldl (perform plainApi (fun _ => none) reads)
        (installed plainApi fun _ => none)) := by
  have hback : ReadsBack plainApi (withId vaultedDraft "rule" "2026-01-01T00:00:00.000Z") := by
    constructor
    · unfold CleanCut
      decide +kernel
    · unfold CleanCut
      decide +kernel
    · intro u hu
      have hparse : plainApi.parse "https://api.example.com".toList =
          some ⟨"https:".toList, [], "api.example.com".toList, [], ['/'], [], []⟩ := by
        decide +kernel
      have hsame := hu.symm.trans hparse
      cases hsame
      decide +kernel
    · unfold CleanCut
      decide +kernel
  have hsaved : Run plainApi (fun _ => none) (Careful plainApi) (fun _ => none)
      (perform plainApi (fun _ => none) reads (installed plainApi fun _ => none)
        (.saveRule vaultedDraft "rule" "2026-01-01T00:00:00.000Z")) :=
    Run.step reads _ Run.launched trivial ⟨rfl, rfl, fun _ => ⟨rfl, hback⟩⟩
  apply nothing_lost
  simp only [ordinaryOps, List.foldl_cons, List.foldl_nil]
  apply Run.step reads (.restart _ none)
  · apply Run.step reads (.markTokenUsed _ _)
    · apply Run.step reads (.createToken _ _ _ _ _ true) hsaved
      · refine ⟨by decide, ?_, by decide, ?_⟩
        · intro t v hmem
          exact absurd hmem (none_added (run_inv hsaved).tokens.kept (by decide +kernel) t v)
        · intro key hkey
          rw [perform, saveRuleIn_secrets] at hkey
          cases hkey
      · exact ⟨rfl, rfl, rfl⟩
    · trivial
    · exact ⟨rfl, rfl, trivial⟩
  · trivial
  · exact ⟨rfl, rfl, fun _ h => absurd h (by decide)⟩

/-- Switching the proxy off writes its copy over the file, and the token is gone. -/
theorem tokens_lost_on_disable :
    ¬∀ (api : UrlApi) (dateParse : Text → Option Int) (secrets : Text → Option Text) (s : App),
      Run api dateParse (fun io _ _ => io.readable = true ∧ io.writable = true) secrets s →
        NothingLost api dateParse s := by
  intro hall
  have hrun : Run plainApi (fun _ => none) (fun io _ _ => io.readable = true ∧ io.writable = true)
      (fun _ => none) (perform plainApi (fun _ => none) reads
        (perform plainApi (fun _ => none) reads (installed plainApi fun _ => none)
          (.createToken "nightly".toList none "t1".toList "value".toList "2026-01-02".toList true))
        .disable) := by
    apply Run.step reads .disable
    · apply Run.step reads (.createToken _ _ _ _ _ true)
      · exact Run.launched
      · exact ⟨by decide, by simp [installed], by decide, by simp [installed]⟩
      · exact ⟨rfl, rfl⟩
    · trivial
    · exact ⟨rfl, rfl⟩
  obtain ⟨u, hu, -⟩ := (hall _ _ _ _ hrun).tokens [] _ _ [] rfl
  exact List.not_mem_nil hu

end OpsMaxx.CredProxy
