import OpsMaxx.CredProxy.Stored

/-! # No token is lost or brought back

What the rules file must still say of every token that was added and every rule that was saved,
and the runs in which it does: those in which the proxy never writes its copy over a file that
holds token records.
-/

set_option autoImplicit false

namespace OpsMaxx.CredProxy
open OpsMaxx.Strings

/-! ## What was done to one id -/

def firstRevoked (id : Text) : List Did → Option Text
  | [] => none
  | .revoked i at' :: rest => if i = id then some at' else firstRevoked id rest
  | .added _ _ :: rest => firstRevoked id rest
  | .saved _ :: rest => firstRevoked id rest
  | .removed _ :: rest => firstRevoked id rest

def keepSaved (id : Text) (last : Option CredProxyRule) : Did → Option CredProxyRule
  | .saved rule => if rule.id = id then some rule else last
  | .removed i => if i = id then none else last
  | .added _ _ => last
  | .revoked _ _ => last

/-- The rule of an id as it was saved last, if it was not removed since. -/
def lastSaved (id : Text) (log : List Did) : Option CredProxyRule :=
  log.foldl (keepSaved id) none

theorem firstRevoked_append (id : Text) (xs ys : List Did) :
    firstRevoked id (xs ++ ys) = (firstRevoked id xs).or (firstRevoked id ys) := by
  induction xs with
  | nil => rfl
  | cons d xs ih =>
    cases d with
    | revoked i at' =>
      by_cases hi : i = id
      · simp [firstRevoked, hi]
      · simpa [firstRevoked, hi] using ih
    | added _ _ => exact ih
    | saved _ => exact ih
    | removed _ => exact ih

theorem lastSaved_append (id : Text) (log : List Did) (d : Did) :
    lastSaved id (log ++ [d]) = keepSaved id (lastSaved id log) d := by
  simp [lastSaved]

/-- An entry of a log that has one more at its end is that one, or was there before. -/
theorem split_snoc {log before after : List Did} {d e : Did} (h : log ++ [d] = before ++ e :: after) :
    (after = [] ∧ e = d ∧ log = before) ∨
      ∃ rest, after = rest ++ [d] ∧ log = before ++ e :: rest := by
  obtain rfl | ⟨rest, last, rfl⟩ := after.eq_nil_or_concat'
  · have h' := List.append_inj' h rfl
    exact Or.inl ⟨rfl, (List.singleton_inj.mp h'.2).symm, h'.1⟩
  · rw [← List.cons_append, ← List.append_assoc] at h
    have h' := List.append_inj' h rfl
    refine Or.inr ⟨rest, ?_, h'.1⟩
    rw [List.singleton_inj.mp h'.2]

theorem split_append {log ds before after : List Did} {e : Did}
    (h : log ++ ds = before ++ e :: after) (he : e ∉ ds) :
    ∃ rest, after = rest ++ ds ∧ log = before ++ e :: rest := by
  obtain ⟨front, -, hds⟩ | ⟨front, hlog, hafter⟩ := List.append_eq_append_iff.mp h
  · exact absurd (hds ▸ List.mem_append_right _ List.mem_cons_self) he
  · cases front with
    | nil =>
      rw [List.nil_append] at hafter
      exact absurd (hafter ▸ List.mem_cons_self) he
    | cons d front =>
      obtain ⟨rfl, rfl⟩ := List.cons.inj hafter
      exact ⟨front, rfl, hlog⟩

/-! ## What is claimed -/

def tokensOf (disk : Option CredProxyFile) : List TokenRecord := (disk.bind (·.tokens)).getD []

def rulesOf (disk : Option CredProxyFile) : List Json := (disk.map (·.rules)).getD []

/-- The record of a token says what it said when it was added, and whether it was revoked since. -/
structure StillSays (u t : TokenRecord) (after : List Did) : Prop where
  id : u.id = t.id
  name : u.name = t.name
  createdAt : u.createdAt = t.createdAt
  expiresAt : u.expiresAt = t.expiresAt
  revokedAt : u.revokedAt = firstRevoked t.id after

def TokensKept (s : App) : Prop :=
  ∀ before t value after, s.log = before ++ .added t value :: after →
    ∃ u ∈ tokensOf s.disk, StillSays u t after

variable (api : UrlApi)

/-- The rule is on the file, is read back from it as it is, and is in force. -/
def RulesKept (s : App) : Prop :=
  ∀ id rule, lastSaved id s.log = some rule → rule.toJson ∈ rulesOf s.disk ∧
    rule ∈ sanitiseRules api (some (.arr (rulesOf s.disk))) ∧ rule ∈ s.proxy.ruleCache

variable (dateParse : Text → Option Int)

/-- A request that presents a token's value finds the token, unless it was revoked or is past its
end date. -/
def Accepted (s : App) : Prop :=
  ∀ before t value after, s.log = before ++ .added t value :: after → value ≠ [] →
    firstRevoked t.id after = none → ∀ io : Io, io.readable = true → ∀ date now,
      (∀ iso, t.expiresAt = some iso → ∃ expiry, dateParse iso = some expiry ∧ now < expiry) →
        ∃ u, matchToken dateParse value
            ((credProxyTokenList io date s).2.map TokenRecord.toCredProxyToken) (getSecret s) now =
          .ok u ∧ u.id = t.id

structure NothingLost (s : App) : Prop where
  tokens : TokensKept s
  rules : RulesKept api s
  accepted : Accepted dateParse s

/-! ## Careful steps -/

/-- The rules file can be read and written, the keychain takes a new token's value, a rule that is
saved reads back, and where the proxy writes its copy the file holds no token record. -/
def Careful (io : Io) (s : App) (op : Op) : Prop :=
  io.readable = true ∧ io.writable = true ∧
    match op with
    | .createToken _ _ _ _ _ stored => stored = true
    | .saveRule draft newId now =>
      (∃ rule, (saveRule api s.proxy.ruleCache draft newId now).1 = .ok rule) →
        tokensOf s.disk = [] ∧ ReadsBack api (withId draft newId now)
    | .removeRule id => (∃ r ∈ s.proxy.ruleCache, r.id = id) → tokensOf s.disk = []
    | .start port bound =>
      (∀ p, port = some p → 0 ≤ p ∧ p ≤ 65535) → bound.isSome → tokensOf s.disk = []
    | .disable => tokensOf s.disk = []
    | .restart _ bound =>
      (s.disk.getD emptyFile).enabled = true → bound.isSome →
        tokensOf s.disk = [] ∧ getSecret s LEGACY_TOKEN_ID = none
    | .tokens _ | .revokeToken _ _ | .markTokenUsed _ _ => True

/-! ## The invariant -/

/-- Two of the ids that have a value have different values. -/
def Distinct (s : App) : Prop :=
  ∀ i ∈ LEGACY_TOKEN_ID :: (tokensOf s.disk).map (·.id),
    ∀ j ∈ LEGACY_TOKEN_ID :: (tokensOf s.disk).map (·.id),
      ∀ v, getSecret s i = some v → getSecret s j = some v → i = j

structure TokensInv (s : App) : Prop where
  kept : TokensKept s
  nodup : ((tokensOf s.disk).map (·.id)).Nodup
  known : ∀ u ∈ tokensOf s.disk, ∃ t v, Did.added t v ∈ s.log ∧ t.id = u.id
  secret : ∀ before t value after, s.log = before ++ .added t value :: after →
    firstRevoked t.id after = none → getSecret s t.id = some value
  distinct : Distinct s

/-- The rules in force read back, and are those that were saved. -/
structure CacheInv (s : App) : Prop where
  apart : Apart s.proxy.ruleCache
  settled : ∀ r ∈ s.proxy.ruleCache, Settled api r
  last : ∀ id rule, lastSaved id s.log = some rule → rule ∈ s.proxy.ruleCache ∧ rule.id = id
  copy : s.proxy.file.tokens = none

structure RulesInv (s : App) : Prop extends CacheInv api s where
  written : rulesOf s.disk = s.proxy.ruleCache.map CredProxyRule.toJson

variable {api dateParse}

/-! ## Reading and writing -/

theorem read_tokens {io : Io} {s : App} (h : io.readable = true) :
    (readCredProxyFile io s).tokens.getD [] = tokensOf s.disk := by
  unfold readCredProxyFile tokensOf
  rw [if_pos h]
  cases s.disk <;> rfl

theorem read_rules {io : Io} {s : App} (h : io.readable = true) :
    (readCredProxyFile io s).rules = rulesOf s.disk := by
  unfold readCredProxyFile rulesOf
  rw [if_pos h]
  cases s.disk <;> rfl

theorem write_of_writable {io : Io} (h : io.writable = true) (file : CredProxyFile) (s : App) :
    writeCredProxyFile io file s = { s with disk := some file } := if_pos h

theorem persist_of_writable {io : Io} (h : io.writable = true) (s : App) :
    persist io s =
      { s with
        disk := some { s.proxy.file with rules := s.proxy.ruleCache.map CredProxyRule.toJson }
        proxy := { s.proxy with
          file := { s.proxy.file with rules := s.proxy.ruleCache.map CredProxyRule.toJson } } } :=
  if_pos h

theorem credProxyTokenSecretId_inj {i j : Text}
    (h : credProxyTokenSecretId i = credProxyTokenSecretId j) : i = j := by
  have hapart : ∀ id : Text, "credproxy.token.".toList ++ id ≠ LEGACY_TOKEN_SECRET_ID := by
    intro id heq
    have htake := congrArg (List.take 11) heq
    revert htake
    rw [List.take_append_of_le_length (by decide)]
    decide
  unfold credProxyTokenSecretId at h
  split_ifs at h with hi hj hj
  · rw [hi, hj]
  · exact absurd h.symm (hapart j)
  · exact absurd h (hapart i)
  · exact List.append_cancel_left h

@[simp] theorem getSecret_setSecret (s : App) (id : Text) (value : Option Text) :
    getSecret (s.setSecret id value) id = value := by
  simp [getSecret, App.setSecret]

theorem getSecret_setSecret_ne {i id : Text} (h : i ≠ id) (s : App) (value : Option Text) :
    getSecret (s.setSecret id value) i = getSecret s i := by
  unfold getSecret App.setSecret
  exact Function.update_of_ne (fun he => h (credProxyTokenSecretId_inj he)) _ _

/-! ## Token records -/

theorem none_added {s : App} (h : TokensKept s) (hempty : tokensOf s.disk = []) (t : TokenRecord)
    (v : Text) : Did.added t v ∉ s.log := by
  intro hmem
  obtain ⟨before, after, hlog⟩ := List.append_of_mem hmem
  obtain ⟨u, hu, -⟩ := h before t v after hlog
  rw [hempty] at hu
  exact List.not_mem_nil hu

theorem tokensInv_of_none {s : App} (hnone : ∀ t v, Did.added t v ∉ s.log)
    (hempty : tokensOf s.disk = []) : TokensInv s := by
  have hsplit : ∀ {before t value after}, s.log = before ++ .added t value :: after → False := by
    intro before t value after hlog
    apply hnone t value
    rw [hlog]
    exact List.mem_append_right _ List.mem_cons_self
  constructor
  · exact fun before t value after hlog => (hsplit hlog).elim
  · rw [hempty]
    exact List.nodup_nil
  · rw [hempty]
    simp
  · exact fun before t value after hlog => (hsplit hlog).elim
  · unfold Distinct
    rw [hempty]
    intro i hi j hj v _ _
    rw [List.mem_singleton.mp hi, List.mem_singleton.mp hj]

/-- A new record, of an id no record had, is put in front. -/
theorem TokensInv.add {s s' : App} (h : TokensInv s) (value : Text) {t : TokenRecord}
    (htokens : tokensOf s'.disk = t :: tokensOf s.disk) (hlog : s'.log = s.log ++ [.added t value])
    (hnew : ∀ u ∈ tokensOf s.disk, u.id ≠ t.id) (hrevoked : t.revokedAt = none)
    (hsecret : getSecret s' t.id = some value)
    (hothers : ∀ i, i ≠ t.id → getSecret s' i = getSecret s i)
    (hvalue : ∀ i ∈ LEGACY_TOKEN_ID :: (tokensOf s.disk).map (·.id), i ≠ t.id →
      getSecret s i ≠ some value) : TokensInv s' := by
  have holder : ∀ {before x v after}, s.log = before ++ .added x v :: after → x.id ≠ t.id := by
    intro before x v after hx
    obtain ⟨u, hu, hstill⟩ := h.kept _ _ _ _ hx
    rw [← hstill.id]
    exact hnew u hu
  constructor
  · intro before x v after hx
    rw [hlog] at hx
    rw [htokens]
    obtain ⟨rfl, he, -⟩ | ⟨rest, rfl, hbefore⟩ := split_snoc hx
    · cases he
      exact ⟨t, List.mem_cons_self, rfl, rfl, rfl, rfl, hrevoked⟩
    · obtain ⟨u, hu, hstill⟩ := h.kept _ _ _ _ hbefore
      refine ⟨u, List.mem_cons_of_mem _ hu, hstill.id, hstill.name, hstill.createdAt,
        hstill.expiresAt, ?_⟩
      rw [firstRevoked_append, hstill.revokedAt]
      simp [firstRevoked]
  · rw [htokens, List.map_cons, List.nodup_cons]
    refine ⟨?_, h.nodup⟩
    intro hmem
    obtain ⟨u, hu, hid⟩ := List.mem_map.mp hmem
    exact hnew u hu hid
  · intro u hu
    rw [htokens] at hu
    rw [hlog]
    obtain rfl | hu := List.mem_cons.mp hu
    · exact ⟨u, value, List.mem_append_right _ (List.mem_singleton.mpr rfl), rfl⟩
    · obtain ⟨x, v, hx, hid⟩ := h.known u hu
      exact ⟨x, v, List.mem_append_left _ hx, hid⟩
  · intro before x v after hx hopen
    rw [hlog] at hx
    obtain ⟨rfl, he, -⟩ | ⟨rest, rfl, hbefore⟩ := split_snoc hx
    · cases he
      exact hsecret
    · rw [hothers _ (holder hbefore)]
      apply h.secret _ _ _ _ hbefore
      rw [firstRevoked_append, Option.or_eq_none_iff] at hopen
      exact hopen.1
  · intro i hi j hj v hiv hjv
    rw [htokens, List.map_cons] at hi hj
    have hold : ∀ k ∈ LEGACY_TOKEN_ID :: t.id :: (tokensOf s.disk).map (·.id), k ≠ t.id →
        k ∈ LEGACY_TOKEN_ID :: (tokensOf s.disk).map (·.id) := by
      intro k hk hne
      simp only [List.mem_cons] at hk ⊢
      tauto
    by_cases hit : i = t.id
    · by_cases hjt : j = t.id
      · rw [hit, hjt]
      · rw [hit, hsecret] at hiv
        rw [hothers j hjt, ← hiv] at hjv
        exact absurd hjv (hvalue j (hold j hj hjt) hjt)
    · by_cases hjt : j = t.id
      · rw [hjt, hsecret] at hjv
        rw [hothers i hit, ← hjv] at hiv
        exact absurd hiv (hvalue i (hold i hi hit) hit)
      · rw [hothers i hit] at hiv
        rw [hothers j hjt] at hjv
        exact h.distinct i (hold i hi hit) j (hold j hj hjt) v hiv hjv

/-- The records are stamped where they stand. -/
theorem TokensInv.stamp {s s' : App} (h : TokensInv s) (ds : List Did)
    {f : TokenRecord → TokenRecord} (htokens : tokensOf s'.disk = (tokensOf s.disk).map f)
    (hlog : s'.log = s.log ++ ds) (hnone : ∀ t v, Did.added t v ∉ ds)
    (hid : ∀ u, (f u).id = u.id)
    (hf : ∀ u t after, StillSays u t after → StillSays (f u) t (after ++ ds))
    (hsecret : ∀ i, firstRevoked i ds = none → getSecret s' i = getSecret s i)
    (hgone : ∀ i v, getSecret s' i = some v → getSecret s i = some v) : TokensInv s' := by
  have hids : (tokensOf s'.disk).map (·.id) = (tokensOf s.disk).map (·.id) := by
    rw [htokens, List.map_map]
    exact List.map_congr_left fun u _ => hid u
  constructor
  · intro before t v after hx
    rw [hlog] at hx
    obtain ⟨rest, rfl, hbefore⟩ := split_append hx (hnone t v)
    obtain ⟨u, hu, hstill⟩ := h.kept _ _ _ _ hbefore
    rw [htokens]
    exact ⟨f u, List.mem_map_of_mem hu, hf u t rest hstill⟩
  · rw [hids]
    exact h.nodup
  · intro u hu
    rw [htokens] at hu
    obtain ⟨x, hx, rfl⟩ := List.mem_map.mp hu
    obtain ⟨t, v, hadded, heq⟩ := h.known x hx
    refine ⟨t, v, ?_, heq.trans (hid x).symm⟩
    rw [hlog]
    exact List.mem_append_left _ hadded
  · intro before t v after hx hopen
    rw [hlog] at hx
    obtain ⟨rest, rfl, hbefore⟩ := split_append hx (hnone t v)
    rw [firstRevoked_append, Option.or_eq_none_iff] at hopen
    rw [hsecret _ hopen.2]
    exact h.secret _ _ _ _ hbefore hopen.1
  · intro i hi j hj v hiv hjv
    rw [hids] at hi hj
    exact h.distinct i hi j hj v (hgone i v hiv) (hgone j v hjv)

/-- Entries that add no token leave what is said of the tokens as it was. -/
theorem TokensInv.congr {s s' : App} (h : TokensInv s) (hdisk : tokensOf s'.disk = tokensOf s.disk)
    (hlog : s'.log = s.log) (hsecrets : s'.secrets = s.secrets) : TokensInv s' := by
  have hsame : ∀ i, getSecret s' i = getSecret s i := by
    intro i
    unfold getSecret
    rw [hsecrets]
  apply h.stamp [] (f := id)
  · rw [hdisk, List.map_id]
  · rw [hlog, List.append_nil]
  · simp
  · simp
  · intro u t after hstill
    rw [List.append_nil]
    exact hstill
  · exact fun i _ => hsame i
  · intro i v hiv
    rwa [hsame] at hiv

/-! ## The token functions -/

theorem stampUsed_still {u t : TokenRecord} {after : List Did} (id at' : Text)
    (h : StillSays u t after) : StillSays (stampUsed id at' u) t after := by
  unfold stampUsed
  split_ifs
  · exact ⟨h.id, h.name, h.createdAt, h.expiresAt, h.revokedAt⟩
  · exact h

theorem stampRevoked_still {u t : TokenRecord} {after : List Did} (id at' : Text)
    (h : StillSays u t after) :
    StillSays (stampRevoked id at' u) t (after ++ [.revoked id at']) := by
  unfold stampRevoked
  by_cases hstamp : u.id = id ∧ u.revokedAt = none
  · rw [if_pos hstamp]
    refine ⟨h.id, h.name, h.createdAt, h.expiresAt, ?_⟩
    have hrevoked := h.revokedAt
    rw [hstamp.2] at hrevoked
    rw [firstRevoked_append, ← hrevoked, Option.none_or]
    simp [firstRevoked, ← h.id, hstamp.1]
  · rw [if_neg hstamp]
    refine ⟨h.id, h.name, h.createdAt, h.expiresAt, ?_⟩
    rw [firstRevoked_append, ← h.revokedAt]
    by_cases hid : u.id = id
    · have hsome : u.revokedAt ≠ none := fun hnone => hstamp ⟨hid, hnone⟩
      obtain ⟨date, hdate⟩ := Option.ne_none_iff_exists'.mp hsome
      rw [hdate, Option.some_or]
    · have hother : firstRevoked t.id [.revoked id at'] = none := by
        simp [firstRevoked, ← h.id, Ne.symm hid]
      rw [hother, Option.or_none]

theorem markCredProxyTokenUsed_inv {s : App} {io : Io} (h : TokensInv s) (hio : io.readable = true)
    (hout : io.writable = true) (id at' : Text) :
    TokensInv (markCredProxyTokenUsed io id at' s) := by
  unfold markCredProxyTokenUsed
  rw [write_of_writable hout, read_tokens hio]
  apply h.stamp [] (f := stampUsed id at')
  · rfl
  · rw [List.append_nil]
  · simp
  · intro u
    unfold stampUsed
    split_ifs <;> rfl
  · intro u t after hstill
    rw [List.append_nil]
    exact stampUsed_still id at' hstill
  · exact fun _ _ => rfl
  · exact fun _ _ hiv => hiv

theorem revokeToken_inv {s : App} {io : Io} (h : TokensInv s) (hio : io.readable = true)
    (hout : io.writable = true) (id now : Text) : TokensInv (revokeToken io id now s) := by
  unfold revokeToken revokeCredProxyToken
  rw [write_of_writable hout, read_tokens hio]
  apply h.stamp [.revoked id now] (f := stampRevoked id now)
  · rfl
  · rfl
  · simp
  · intro u
    unfold stampRevoked
    split_ifs <;> rfl
  · exact fun u t after hstill => stampRevoked_still id now hstill
  · intro i hi
    have hne : i ≠ id := by
      rintro rfl
      simp [firstRevoked] at hi
    exact getSecret_setSecret_ne hne _ _
  · intro i v hiv
    by_cases hne : i = id
    · rw [hne, getSecret_setSecret] at hiv
      cases hiv
    · rwa [getSecret_setSecret_ne hne] at hiv

theorem createToken_inv {s : App} {io : Io} (h : TokensInv s) (hio : io.readable = true)
    (hout : io.writable = true) {name : Text} {expiresAt : Option Text} {id value now : Text}
    (hfresh : Fresh s (.createToken name expiresAt id value now true)) :
    TokensInv (createToken dateParse io name expiresAt id value now true s) := by
  obtain ⟨hlegacy, hid, -, hvalue⟩ := hfresh
  unfold createToken
  by_cases hname : trim name = []
  · rwa [if_pos hname]
  by_cases hdate : dateReads dateParse expiresAt = false
  · rwa [if_neg hname, if_pos hdate]
  · rw [if_neg hname, if_neg hdate]
    simp only [if_true]
    rw [write_of_writable hout]
    apply h.add value (t := tokenRecord name expiresAt id now)
    · show _ :: (readCredProxyFile io (s.setSecret id (some value))).tokens.getD [] = _
      rw [read_tokens hio]
      rfl
    · rfl
    · intro u hu heq
      obtain ⟨t, v, hadded, ht⟩ := h.known u hu
      exact hid t v hadded (ht.trans heq)
    · rfl
    · exact getSecret_setSecret s id (some value)
    · exact fun i hi => getSecret_setSecret_ne hi s (some value)
    · exact fun i _ _ => hvalue _

theorem promoted_tokens {s : App} {io : Io} (hio : io.readable = true) (now : Text) :
    (promoted io now s).tokens.getD [] = tokensOf s.disk ∨
      (promoted io now s).tokens.getD [] = legacyToken now :: tokensOf s.disk ∧
        (getSecret s LEGACY_TOKEN_ID).isSome ∧ ∀ u ∈ tokensOf s.disk, u.id ≠ LEGACY_TOKEN_ID := by
  unfold promoted migrateLegacyToken
  simp only [read_tokens hio]
  by_cases hexists : (getSecret s LEGACY_TOKEN_ID).isSome = false
  · rw [if_pos hexists]
    exact Or.inl rfl
  · rw [if_neg hexists]
    split_ifs with hany
    · exact Or.inl rfl
    · refine Or.inr ⟨rfl, Bool.eq_true_of_not_eq_false hexists, ?_⟩
      intro u hu hid
      apply hany
      exact List.any_eq_true.mpr ⟨u, hu, decide_eq_true hid⟩

theorem credProxyTokenList_inv {s : App} {io : Io} (h : TokensInv s) (hio : io.readable = true)
    (hout : io.writable = true) (now : Text) : TokensInv (credProxyTokenList io now s).1 := by
  unfold credProxyTokenList
  simp only
  split_ifs with hlen
  · rw [write_of_writable hout]
    obtain hsame | ⟨hcons, hsome, hnew⟩ := promoted_tokens (s := s) hio now
    · rw [hsame, read_tokens hio] at hlen
      exact absurd rfl hlen
    · obtain ⟨value, hvalue⟩ := Option.isSome_iff_exists.mp hsome
      apply h.add value (t := legacyToken now)
      · exact hcons
      · rw [hvalue]
        rfl
      · exact hnew
      · rfl
      · exact hvalue
      · exact fun _ _ => rfl
      · intro i hi hne hiv
        exact hne (h.distinct i hi _ List.mem_cons_self value hiv hvalue)
  · exact h

end OpsMaxx.CredProxy
