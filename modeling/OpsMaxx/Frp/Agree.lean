import OpsMaxx.Frp.Env

/-!
# The variables of a profile

What the file of a checked profile names, block by block, against what the environment sets.
-/

set_option autoImplicit false

namespace OpsMaxx.Frp

open OpsMaxx.Strings (Text)
open OpsMaxx.Store (JsMap)

/-! ## The names in the file -/

def proxyNames (p : FrpProxy) (i : Nat) : List Text :=
  rowNames (proxyRows p i) ++ p.plugin.elim [] fun plugin => rowNames (pluginRows plugin i)

def visitorNames (v : FrpVisitor) (i : Nat) : List Text := rowNames (visitorRows v i)

theorem reads_proxyBlock {p : FrpProxy} (h : p.Checked) {i : Nat} {t : Text}
    (ht : proxyBlock p i = .ok t) : Reads t ((proxyNames p i).map some) := by
  obtain ⟨rows, hrows, ht⟩ := bind_ok.mp ht
  obtain ⟨plugin, hplugin, ht⟩ := bind_ok.mp ht
  cases ht
  have hfirst : Reads rows ((rowNames (proxyRows p i)).map some) :=
    reads_block (proxyRows_fit h i) hrows
  have hhead : Reads "[[proxies]]".toList [] := .plain (by decide)
  rw [proxyNames, List.map_append]
  cases hp : p.plugin with
  | none =>
    rw [hp] at hplugin
    cases hplugin
    have hall := Reads.intercalate (s := ['\n']) (by decide) (.cons hhead (.cons hfirst .nil))
    simpa using hall
  | some plugin =>
    rw [hp] at hplugin
    obtain ⟨written, hwritten, hplugin⟩ := bind_ok.mp hplugin
    cases hplugin
    have hsecond := reads_block (pluginRows_fit h hp i) hwritten
    have hempty : Reads "".toList [] := .nil
    have hsub : Reads "[proxies.plugin]".toList [] := .plain (by decide)
    have hall := Reads.intercalate (s := ['\n']) (by decide)
      (.cons hhead (.cons hfirst (.cons hempty (.cons hsub (.cons hsecond .nil)))))
    simpa using hall

theorem reads_visitorBlock {v : FrpVisitor} (h : v.Checked) {i : Nat} {t : Text}
    (ht : visitorBlock v i = .ok t) : Reads t ((visitorNames v i).map some) := by
  obtain ⟨rows, hrows, ht⟩ := bind_ok.mp ht
  cases ht
  have hhead : Reads "[[visitors]]".toList [] := .plain (by decide)
  have hall := Reads.intercalate (s := ['\n']) (by decide)
    (.cons hhead (.cons (reads_block (visitorRows_fit h i) hrows) .nil))
  simpa [visitorNames] using hall

theorem proxyBlock_succeeds {p : FrpProxy} (h : p.Checked) (i : Nat) :
    ∃ t, proxyBlock p i = .ok t := by
  obtain ⟨rows, hrows⟩ := block_succeeds (proxyRows_fit h i)
  cases hp : p.plugin with
  | none =>
    refine ⟨_, bind_ok.mpr ⟨rows, hrows, bind_ok.mpr ⟨[], ?_, rfl⟩⟩⟩
    rw [hp]
    rfl
  | some plugin =>
    obtain ⟨written, hwritten⟩ := block_succeeds (pluginRows_fit h hp i)
    refine ⟨_, bind_ok.mpr ⟨rows, hrows, bind_ok.mpr
      ⟨["".toList, "[proxies.plugin]".toList, written], ?_, rfl⟩⟩⟩
    rw [hp]
    exact bind_ok.mpr ⟨written, hwritten, rfl⟩

theorem visitorBlock_succeeds {v : FrpVisitor} (h : v.Checked) (i : Nat) :
    ∃ t, visitorBlock v i = .ok t := by
  obtain ⟨rows, hrows⟩ := block_succeeds (visitorRows_fit h i)
  exact ⟨_, bind_ok.mpr ⟨rows, hrows, rfl⟩⟩

theorem reads_blocksFrom {α : Type} {write : α → Nat → Except VpnError Text}
    {names : α → Nat → List Text} {xs : List α} {k : Nat} {ts : List Text}
    (hreads : ∀ x ∈ xs, ∀ i t, write x i = .ok t → Reads t ((names x i).map some))
    (h : blocksFrom write k xs = .ok ts) :
    List.Forall₂ Reads ts (xs.mapIdx fun i x => (names x (k + i)).map some) := by
  induction xs generalizing k ts with
  | nil =>
    cases h
    exact .nil
  | cons x xs ih =>
    obtain ⟨t, ht, h⟩ := bind_ok.mp h
    obtain ⟨rest, hrest, h⟩ := bind_ok.mp h
    cases h
    rw [List.mapIdx_cons]
    refine .cons (hreads x List.mem_cons_self k t ht) ?_
    have hmore := ih (fun y hy => hreads y (List.mem_cons_of_mem x hy)) hrest
    simpa only [Nat.add_assoc, Nat.add_comm 1] using hmore

theorem blocksFrom_succeeds {α : Type} {write : α → Nat → Except VpnError Text} {xs : List α}
    (h : ∀ x ∈ xs, ∀ i, ∃ t, write x i = .ok t) (k : Nat) :
    ∃ ts, blocksFrom write k xs = .ok ts := by
  induction xs generalizing k with
  | nil => exact ⟨[], rfl⟩
  | cons x xs ih =>
    obtain ⟨t, ht⟩ := h x List.mem_cons_self k
    obtain ⟨ts, hts⟩ := ih (fun y hy => h y (List.mem_cons_of_mem x hy)) (k + 1)
    exact ⟨_, bind_ok.mpr ⟨t, ht, bind_ok.mpr ⟨ts, hts, rfl⟩⟩⟩

theorem map_mapIdx {α β γ : Type} (f : Nat → α → β) (g : β → γ) (xs : List α) :
    (xs.mapIdx f).map g = xs.mapIdx fun i x => g (f i x) := by
  induction xs generalizing f with
  | nil => rfl
  | cons x xs ih => rw [List.mapIdx_cons, List.mapIdx_cons, List.map_cons, ih]

/-- The rows before the proxies. -/
def headRows (spec : FrpSpec) (run : FrpRun) : List (List Row) :=
  [serverRows spec, authRows spec.auth, transportRows spec.transport, adminRows run, logRows]

def specNames (spec : FrpSpec) (run : FrpRun) : List Text :=
  (headRows spec run).flatMap rowNames ++
    (spec.proxies.mapIdx fun i p => proxyNames p i).flatten ++
    (spec.visitors.mapIdx fun i v => visitorNames v i).flatten

theorem headRows_fit {spec : FrpSpec} {run : FrpRun} (h : spec.Checked)
    (hport : '\x7b' ∉ jsString run.adminPort) (huser : isSafeTomlString run.adminUser = true) :
    ∀ rows ∈ headRows spec run, ∀ r ∈ rows, r.Fits := by
  simp only [headRows, List.forall_mem_cons, List.not_mem_nil, false_imp_iff, implies_true,
    and_true]
  exact ⟨serverRows_fit h, authRows_fit h.auth, transportRows_fit h.transport,
    adminRows_fit hport huser, logRows_fit⟩

/-- What opens in the file is the templates of these names, in this order. -/
theorem reads_toml {spec : FrpSpec} {run : FrpRun} {toml : Text} (h : spec.Checked)
    (hport : '\x7b' ∉ jsString run.adminPort) (huser : isSafeTomlString run.adminUser = true)
    (htoml : generateFrpToml spec run = .ok toml) :
    actions toml = (specNames spec run).map some := by
  obtain ⟨head, hhead, htoml⟩ := bind_ok.mp htoml
  obtain ⟨proxies, hproxies, htoml⟩ := bind_ok.mp htoml
  obtain ⟨visitors, hvisitors, htoml⟩ := bind_ok.mp htoml
  cases htoml
  have h₁ := reads_mapM hhead fun rows hrows t ht =>
    reads_block (headRows_fit h hport huser rows hrows) ht
  have h₂ := reads_blocksFrom (fun p hp i t ht => reads_proxyBlock (h.proxies p hp) ht) hproxies
  have h₃ := reads_blocksFrom (fun v hv i t ht => reads_visitorBlock (h.visitors v hv) ht)
    hvisitors
  have hall := (Reads.intercalate (s := "\n\n".toList) (by decide)
    (List.rel_append (List.rel_append h₁ h₂) h₃)).append (.plain (t := ['\n']) (by decide))
  rw [hall.whole, List.append_nil, specNames]
  simp only [List.flatten_append, List.map_append, List.map_flatten, List.flatMap_def, Nat.zero_add, map_mapIdx, List.map_map]
  rfl

theorem generate_succeeds {spec : FrpSpec} {run : FrpRun} (h : spec.Checked)
    (hport : '\x7b' ∉ jsString run.adminPort) (huser : isSafeTomlString run.adminUser = true) :
    ∃ toml, generateFrpToml spec run = .ok toml := by
  obtain ⟨head, hhead⟩ := mapM_succeeds (f := block) fun rows (hrows : rows ∈ headRows spec run) =>
    block_succeeds (headRows_fit h hport huser rows hrows)
  obtain ⟨proxies, hproxies⟩ :=
    blocksFrom_succeeds (fun p hp i => proxyBlock_succeeds (h.proxies p hp) i) 0
  obtain ⟨visitors, hvisitors⟩ :=
    blocksFrom_succeeds (fun v hv i => visitorBlock_succeeds (h.visitors v hv) i) 0
  exact ⟨_, bind_ok.mpr ⟨head, hhead, bind_ok.mpr ⟨proxies, hproxies, bind_ok.mpr
    ⟨visitors, hvisitors, rfl⟩⟩⟩⟩

/-- Only the name for the admin API can keep the file of a checked spec from being written. -/
theorem generate_fails {spec : FrpSpec} {run : FrpRun}
    (huser : isSafeTomlString run.adminUser = false) (toml : Text) :
    generateFrpToml spec run ≠ .ok toml := by
  intro htoml
  obtain ⟨head, hhead, -⟩ := bind_ok.mp htoml
  obtain ⟨ts, -, hblock⟩ : ∃ t, t ∈ head ∧ block (adminRows run) = .ok t := by
    have hall := mapM_ok.mp hhead
    simp only [List.forall₂_cons_left_iff] at hall
    obtain ⟨-, -, -, ⟨-, -, -, ⟨-, -, -, ⟨t, rest, ht, -, rfl⟩, rfl⟩, rfl⟩, rfl⟩ := hall
    exact ⟨t, by simp, ht⟩
  obtain ⟨lines, hlines, -⟩ := bind_ok.mp hblock
  have hrows := mapM_ok.mp hlines
  unfold adminRows at hrows
  simp only [List.forall₂_cons_left_iff] at hrows
  obtain ⟨-, -, -, ⟨-, -, -, ⟨t, rest, ht, -⟩, -⟩, -⟩ := hrows
  obtain ⟨value, hvalue, -⟩ := bind_ok.mp ht
  rw [(quote_ok hvalue).1] at huser
  cases huser

/-! ## What is named -/

theorem rowNames_append (a b : List Row) : rowNames (a ++ b) = rowNames a ++ rowNames b := by
  simp [rowNames]

theorem rowNames_rowIf (there : Bool) (key : String) (value : Value) :
    rowNames (rowIf there key value) = if there then value.names else [] := by
  cases there with
  | true => simp [rowNames, rowIf]
  | false => rfl

theorem mem_proxyNames {p : FrpProxy} {i : Nat} {n : Text} :
    n ∈ proxyNames p i ↔
      ((typeIn PROXY_TYPES_WITH_SECRET p.type && p.secretKeyRef) = true ∧
        n = frpProxySecretEnv i) ∨
      (p.plugin.any FrpPlugin.passwordRef = true ∧ n = frpPluginPasswordEnv i) := by
  have hrows : rowNames (proxyRows p i) =
      if typeIn PROXY_TYPES_WITH_SECRET p.type && p.secretKeyRef then [frpProxySecretEnv i]
      else [] := by
    have hcons : ∀ r rows, rowNames (r :: rows) = r.2.names ++ rowNames rows := fun _ _ => rfl
    unfold proxyRows
    simp only [rowNames_append, rowNames_rowIf, hcons, Value.names]
    cases p.remotePort with
    | none => simp [rowNames]
    | some port => simp [rowNames, Value.names]
  have hplugin : (p.plugin.elim [] fun plugin => rowNames (pluginRows plugin i)) =
      if p.plugin.any FrpPlugin.passwordRef then [frpPluginPasswordEnv i] else [] := by
    cases p.plugin with
    | none => rfl
    | some plugin =>
      have hcons : ∀ r rows, rowNames (r :: rows) = r.2.names ++ rowNames rows := fun _ _ => rfl
      simp only [Option.elim_some, pluginRows, hcons, rowNames_append, rowNames_rowIf, Value.names]
      simp
  rw [proxyNames, hrows, hplugin, List.mem_append]
  split_ifs <;> simp_all

theorem mem_visitorNames {v : FrpVisitor} {i : Nat} {n : Text} :
    n ∈ visitorNames v i ↔ v.secretKeyRef = true ∧ n = frpVisitorSecretEnv i := by
  have hrows : visitorNames v i =
      if v.secretKeyRef then [frpVisitorSecretEnv i] else [] := by
    simp only [visitorNames, visitorRows, rowNames_append, rowNames_rowIf, Value.names]
    simp [rowNames, Value.names]
  rw [hrows]
  split_ifs <;> simp_all

theorem mem_headNames {spec : FrpSpec} {run : FrpRun} (h : spec.Checked) {n : Text} :
    n ∈ (headRows spec run).flatMap rowNames ↔ n = FRP_ENV_ADMIN ∨
      (spec.auth.method = "token".toList ∧ spec.auth.tokenRef = true ∧ n = FRP_ENV_TOKEN) ∨
      (spec.auth.method = "oidc".toList ∧
        spec.auth.oidc.any FrpOidc.clientSecretRef = true ∧ n = FRP_ENV_OIDC_SECRET) := by
  have hserver : rowNames (serverRows spec) = [] := rfl
  have hadmin : rowNames (adminRows run) = [FRP_ENV_ADMIN] := rfl
  have hlog : rowNames logRows = [] := rfl
  have htransport : rowNames (transportRows spec.transport) = [] := by
    unfold transportRows
    rw [rowNames_append]
    cases spec.transport.proxyUrl with
    | none => rfl
    | some url =>
      dsimp only
      rw [rowNames_rowIf]
      simp [rowNames, Value.names]
  have hcons : ∀ r rows, rowNames (r :: rows) = r.2.names ++ rowNames rows := fun _ _ => rfl
  have hauth : rowNames (authRows spec.auth) =
      if spec.auth.method = "token".toList then
        if spec.auth.tokenRef then [FRP_ENV_TOKEN] else []
      else if spec.auth.oidc.any FrpOidc.clientSecretRef then [FRP_ENV_OIDC_SECRET] else [] := by
    unfold authRows
    rw [hcons]
    split_ifs with htoken href hoidc
    · simp [rowNames_rowIf, href, Value.names]
    · simp [rowNames_rowIf, href, Value.names]
    · cases ho : spec.auth.oidc with
      | none => simp [ho] at hoidc
      | some o =>
        have href : o.clientSecretRef = true := by simpa [ho] using hoidc
        simp only [hcons, rowNames_append, rowNames_rowIf, Value.names, href]
        simp [rowNames, Value.names]
    · cases ho : spec.auth.oidc with
      | none => rfl
      | some o =>
        have href : o.clientSecretRef = false := by simpa [ho] using hoidc
        simp only [hcons, rowNames_append, rowNames_rowIf, Value.names, href]
        simp [rowNames, Value.names]
  simp only [headRows, List.flatMap_cons, List.flatMap_nil, hserver, htransport, hadmin, hlog, hauth,
    List.nil_append, List.append_nil, List.mem_append, List.mem_singleton]
  have hne : "token".toList ≠ "oidc".toList := by decide
  obtain hmethod | hmethod := h.auth.method
  · rw [if_pos hmethod, hmethod]
    split_ifs with href
    · simp [href, or_comm]
    · simp [href]
  · have hno : spec.auth.method ≠ "token".toList := by
      rw [hmethod]
      exact hne.symm
    rw [if_neg hno]
    split_ifs with href
    · simp [hmethod, href, or_comm]
    · simp [hmethod, href]

/-! ## What is set -/

/-- The secrets of the entries themselves, by their places in the spec. -/
structure Own where
  adminPassword : Text
  token : Text
  oidcClientSecret : Text
  proxySecret : Nat → Text
  pluginPassword : Nat → Text
  visitorSecret : Nat → Text

/-- The bundle holds every secret that is referred to, under the name of its entry. -/
structure Holds (spec : FrpSpec) (own : Own) (secrets : FrpResolvedSecrets) (run : FrpRunSecrets) :
    Prop where
  admin : run.adminPassword = own.adminPassword
  token : spec.auth.tokenRef = true → secrets.token = some own.token
  oidc : spec.auth.oidc.any FrpOidc.clientSecretRef = true →
    secrets.oidcClientSecret = some own.oidcClientSecret
  proxySecret : ∀ i p, spec.proxies[i]? = some p → p.secretKeyRef = true →
    secrets.proxySecretKeys.get p.name = some (own.proxySecret i)
  pluginPassword : ∀ i p, spec.proxies[i]? = some p →
    p.plugin.any FrpPlugin.passwordRef = true →
    secrets.pluginPasswords.get p.name = some (own.pluginPassword i)
  visitorSecret : ∀ i v, spec.visitors[i]? = some v → v.secretKeyRef = true →
    secrets.proxySecretKeys.get v.name = some (own.visitorSecret i)

/-- The variables frpc is given. -/
inductive EnvName
  | admin
  | token
  | oidcSecret
  | proxySecret (i : Nat)
  | pluginPassword (i : Nat)
  | visitorSecret (i : Nat)

def EnvName.text : EnvName → Text
  | .admin => FRP_ENV_ADMIN
  | .token => FRP_ENV_TOKEN
  | .oidcSecret => FRP_ENV_OIDC_SECRET
  | .proxySecret i => frpProxySecretEnv i
  | .pluginPassword i => frpPluginPasswordEnv i
  | .visitorSecret i => frpVisitorSecretEnv i

def EnvName.value (own : Own) : EnvName → Text
  | .admin => own.adminPassword
  | .token => own.token
  | .oidcSecret => own.oidcClientSecret
  | .proxySecret i => own.proxySecret i
  | .pluginPassword i => own.pluginPassword i
  | .visitorSecret i => own.visitorSecret i

/-- The name without its index. -/
def EnvName.stem : EnvName → Text
  | .admin => FRP_ENV_ADMIN
  | .token => FRP_ENV_TOKEN
  | .oidcSecret => FRP_ENV_OIDC_SECRET
  | .proxySecret _ => "SP_FRP_SECRET_".toList
  | .pluginPassword _ => "SP_FRP_PLUGIN_PW_".toList
  | .visitorSecret _ => "SP_FRP_VISITOR_SECRET_".toList

def EnvName.index : EnvName → Option Nat
  | .proxySecret i | .pluginPassword i | .visitorSecret i => some i
  | _ => none

theorem EnvName.text_eq (e : EnvName) :
    e.text = e.stem ++ e.index.elim [] (Nat.toDigits 10) := by
  cases e with
  | admin => exact (List.append_nil _).symm
  | token => exact (List.append_nil _).symm
  | oidcSecret => exact (List.append_nil _).symm
  | proxySecret i => rfl
  | pluginPassword i => rfl
  | visitorSecret i => rfl

theorem EnvName.stem_plain (e : EnvName) : ∀ c ∈ e.stem, (!c.isDigit) = true := by
  cases e with
  | admin => decide
  | token => decide
  | oidcSecret => decide
  | proxySecret i => show ∀ c ∈ "SP_FRP_SECRET_".toList, (!c.isDigit) = true; decide
  | pluginPassword i => show ∀ c ∈ "SP_FRP_PLUGIN_PW_".toList, (!c.isDigit) = true; decide
  | visitorSecret i => show ∀ c ∈ "SP_FRP_VISITOR_SECRET_".toList, (!c.isDigit) = true; decide

theorem EnvName.takeWhile_text (e : EnvName) : e.text.takeWhile (fun c => !c.isDigit) = e.stem := by
  rw [e.text_eq, List.takeWhile_append_of_pos e.stem_plain]
  cases e.index with
  | none => exact List.append_nil _
  | some i =>
    have hnone : (Nat.toDigits 10 i).takeWhile (fun c => !c.isDigit) = [] := by
      cases hd : Nat.toDigits 10 i with
      | nil => rfl
      | cons c cs =>
        have hdigit : c.isDigit = true := Nat.isDigit_of_mem_toDigits (b := 10) (n := i)
          (by decide) (by decide) (hd ▸ List.mem_cons_self)
        rw [List.takeWhile_cons_of_neg (by simp [hdigit])]
    rw [Option.elim_some, hnone, List.append_nil]

theorem EnvName.index_eq {m n : Option Nat}
    (h : m.elim [] (Nat.toDigits 10) = n.elim [] (Nat.toDigits 10)) : m = n := by
  cases m with
  | none =>
    cases n with
    | none => rfl
    | some j => exact absurd h.symm Nat.toDigits_ne_nil
  | some i =>
    cases n with
    | none => exact absurd h Nat.toDigits_ne_nil
    | some j =>
      have hij : Nat.toDigits 10 i = Nat.toDigits 10 j := h
      rw [← Nat.ofDigitChars_ten_toDigits (n := i), hij, Nat.ofDigitChars_ten_toDigits]

def EnvName.kind : EnvName → Nat
  | .admin => 0
  | .token => 1
  | .oidcSecret => 2
  | .proxySecret _ => 3
  | .pluginPassword _ => 4
  | .visitorSecret _ => 5

def EnvName.ofKind : Nat → Option Nat → EnvName
  | 0, _ => .admin
  | 1, _ => .token
  | 2, _ => .oidcSecret
  | 3, i => .proxySecret (i.getD 0)
  | 4, i => .pluginPassword (i.getD 0)
  | _, i => .visitorSecret (i.getD 0)

theorem EnvName.ofKind_kind (e : EnvName) : EnvName.ofKind e.kind e.index = e := by
  cases e with
  | admin => rfl
  | token => rfl
  | oidcSecret => rfl
  | proxySecret i => rfl
  | pluginPassword i => rfl
  | visitorSecret i => rfl

/-- Which of the kinds a stem is of. -/
def stemKind (stem : Text) : Nat :=
  [FRP_ENV_ADMIN, FRP_ENV_TOKEN, FRP_ENV_OIDC_SECRET, "SP_FRP_SECRET_".toList,
    "SP_FRP_PLUGIN_PW_".toList, "SP_FRP_VISITOR_SECRET_".toList].idxOf stem

theorem EnvName.stemKind_stem (e : EnvName) : stemKind e.stem = e.kind := by
  cases e with
  | admin => exact (by decide : stemKind FRP_ENV_ADMIN = 0)
  | token => exact (by decide : stemKind FRP_ENV_TOKEN = 1)
  | oidcSecret => exact (by decide : stemKind FRP_ENV_OIDC_SECRET = 2)
  | proxySecret i => exact (by decide : stemKind "SP_FRP_SECRET_".toList = 3)
  | pluginPassword i => exact (by decide : stemKind "SP_FRP_PLUGIN_PW_".toList = 4)
  | visitorSecret i => exact (by decide : stemKind "SP_FRP_VISITOR_SECRET_".toList = 5)

theorem EnvName.text_injective : Function.Injective EnvName.text := by
  intro a b h
  have hstem : a.stem = b.stem := by rw [← a.takeWhile_text, ← b.takeWhile_text, h]
  have hindex : a.index = b.index := by
    apply EnvName.index_eq
    rw [a.text_eq, b.text_eq, hstem] at h
    exact List.append_cancel_left h
  have hkind : a.kind = b.kind := by rw [← a.stemKind_stem, ← b.stemKind_stem, hstem]
  rw [← a.ofKind_kind, ← b.ofKind_kind, hkind, hindex]

/-! ### The rows of the environment -/

theorem mem_setTo {name k v : Text} {value : Option Text} (h : (k, v) ∈ setTo name value) :
    k = name ∧ value = some v := by
  cases value with
  | none => cases h
  | some w =>
    cases List.mem_singleton.mp h
    exact ⟨rfl, rfl⟩

theorem setTo_names {on : Prop} [Decidable on] {name n v : Text} {value : Option Text}
    (h : on → value = some v) :
    n ∈ (if on then setTo name value else []).map Prod.fst ↔ on ∧ n = name := by
  split_ifs with hon
  · rw [h hon]
    simp [setTo, hon]
  · simp [hon]

theorem mem_flatten_mapIdx {α β : Type} {f g : Nat → α → List β} {xs : List α} {b : β}
    (h : ∀ i x, xs[i]? = some x → (b ∈ f i x ↔ b ∈ g i x)) :
    b ∈ (xs.mapIdx f).flatten ↔ b ∈ (xs.mapIdx g).flatten := by
  simp only [List.mem_flatten, List.mem_mapIdx]
  constructor
  · rintro ⟨l, ⟨i, hi, rfl⟩, hb⟩
    exact ⟨_, ⟨i, hi, rfl⟩, (h i _ (List.getElem?_eq_getElem hi)).mp hb⟩
  · rintro ⟨l, ⟨i, hi, rfl⟩, hb⟩
    exact ⟨_, ⟨i, hi, rfl⟩, (h i _ (List.getElem?_eq_getElem hi)).mpr hb⟩

section
variable {spec : FrpSpec} {own : Own} {secrets : FrpResolvedSecrets} {run : FrpRunSecrets}

/-- Every variable that is set is set to the secret of its own entry. -/
theorem envRows_own (hheld : Holds spec own secrets run) {k v : Text}
    (h : (k, v) ∈ envRows spec secrets run) :
    ∃ e : EnvName, k = e.text ∧ v = e.value own := by
  unfold envRows at h
  rw [List.mem_append, List.mem_append, List.mem_cons] at h
  obtain ((h | h) | h) | h := h
  · cases h
    exact ⟨.admin, rfl, hheld.admin⟩
  · unfold authEnv at h
    rw [List.mem_append] at h
    obtain h | h := h
    · split_ifs at h with hon
      · obtain ⟨rfl, hv⟩ := mem_setTo h
        rw [hheld.token hon.2] at hv
        cases hv
        exact ⟨.token, rfl, rfl⟩
      · cases h
    · split_ifs at h with hon
      · obtain ⟨rfl, hv⟩ := mem_setTo h
        rw [hheld.oidc hon.2] at hv
        cases hv
        exact ⟨.oidcSecret, rfl, rfl⟩
      · cases h
  · obtain ⟨rows, hrows, h⟩ := List.mem_flatten.mp h
    obtain ⟨i, hi, rfl⟩ := List.mem_mapIdx.mp hrows
    have hp : spec.proxies[i]? = some spec.proxies[i] := List.getElem?_eq_getElem hi
    unfold proxyEnv at h
    rw [List.mem_append] at h
    obtain h | h := h
    · split_ifs at h with hon
      · obtain ⟨rfl, hv⟩ := mem_setTo h
        rw [hheld.proxySecret i _ hp (Bool.and_eq_true_iff.mp hon).2] at hv
        cases hv
        exact ⟨.proxySecret i, rfl, rfl⟩
      · cases h
    · split_ifs at h with hon
      · obtain ⟨rfl, hv⟩ := mem_setTo h
        rw [hheld.pluginPassword i _ hp hon] at hv
        cases hv
        exact ⟨.pluginPassword i, rfl, rfl⟩
      · cases h
  · obtain ⟨rows, hrows, h⟩ := List.mem_flatten.mp h
    obtain ⟨i, hi, rfl⟩ := List.mem_mapIdx.mp hrows
    have hp : spec.visitors[i]? = some spec.visitors[i] := List.getElem?_eq_getElem hi
    unfold visitorEnv at h
    split_ifs at h with hon
    · obtain ⟨rfl, hv⟩ := mem_setTo h
      rw [hheld.visitorSecret i _ hp hon] at hv
      cases hv
      exact ⟨.visitorSecret i, rfl, rfl⟩
    · cases h

/-- The names that are set are the names in the file. -/
theorem mem_envRows_names (h : spec.Checked) (hheld : Holds spec own secrets run) {n : Text} :
    n ∈ (envRows spec secrets run).map Prod.fst ↔ n ∈ specNames spec run.toFrpRun := by
  unfold envRows specNames
  simp only [List.map_append, List.map_cons, List.mem_append, List.mem_cons, mem_headNames h,
    or_assoc]
  have hauth : n ∈ (authEnv spec.auth secrets).map Prod.fst ↔
      (spec.auth.method = "token".toList ∧ spec.auth.tokenRef = true ∧ n = FRP_ENV_TOKEN) ∨
      (spec.auth.method = "oidc".toList ∧
        spec.auth.oidc.any FrpOidc.clientSecretRef = true ∧ n = FRP_ENV_OIDC_SECRET) := by
    unfold authEnv
    rw [List.map_append, List.mem_append]
    apply or_congr
    · exact (setTo_names fun hon => hheld.token hon.2).trans and_assoc
    · exact (setTo_names fun hon => hheld.oidc hon.2).trans and_assoc
  have hproxies : n ∈ ((spec.proxies.mapIdx (proxyEnv secrets)).flatten).map Prod.fst ↔
      n ∈ (spec.proxies.mapIdx fun i p => proxyNames p i).flatten := by
    rw [List.map_flatten, map_mapIdx]
    apply mem_flatten_mapIdx
    intro i p hp
    rw [mem_proxyNames, proxyEnv, List.map_append, List.mem_append]
    apply or_congr
    · exact setTo_names fun hon => hheld.proxySecret i p hp (Bool.and_eq_true_iff.mp hon).2
    · exact setTo_names fun hon => hheld.pluginPassword i p hp hon
  have hvisitors : n ∈ ((spec.visitors.mapIdx (visitorEnv secrets)).flatten).map Prod.fst ↔
      n ∈ (spec.visitors.mapIdx fun i v => visitorNames v i).flatten := by
    rw [List.map_flatten, map_mapIdx]
    apply mem_flatten_mapIdx
    intro i v hv
    rw [mem_visitorNames, visitorEnv]
    exact setTo_names fun hon => hheld.visitorSecret i v hv hon
  rw [hauth, hproxies, hvisitors]
  simp only [or_assoc]

/-! ### The environment -/

theorem get_foldl_set {rows : List (Text × Text)} {m : JsMap Text Text} {k v : Text}
    (hall : ∀ w, (k, w) ∈ rows → w = v)
    (h : m.get k = some v ∨ k ∈ rows.map Prod.fst) :
    (rows.foldl (fun env row => env.set row.1 row.2) m).get k = some v := by
  induction rows generalizing m with
  | nil => exact h.resolve_right (by simp)
  | cons row rows ih =>
    refine ih (fun w hw => hall w (List.mem_cons_of_mem _ hw)) ?_
    rw [JsMap.get_set]
    by_cases hk : k = row.1
    · left
      rw [if_pos hk, hall row.2 (by rw [hk]; exact List.mem_cons_self)]
    · rw [if_neg hk]
      rw [List.map_cons, List.mem_cons] at h
      exact h.imp id fun h => h.resolve_left hk

theorem get_foldl_none {rows : List (Text × Text)} {m : JsMap Text Text} {k : Text}
    (hm : m.get k = none) (h : k ∉ rows.map Prod.fst) :
    (rows.foldl (fun env row => env.set row.1 row.2) m).get k = none := by
  induction rows generalizing m with
  | nil => exact hm
  | cons row rows ih =>
    rw [List.map_cons, List.mem_cons, not_or] at h
    refine ih ?_ h.2
    rw [JsMap.get_set, if_neg h.1]
    exact hm

/-- A variable of the file is set to the secret of its own entry. -/
theorem frpEnv_own (h : spec.Checked) (hheld : Holds spec own secrets run) {e : EnvName}
    (he : e.text ∈ specNames spec run.toFrpRun) :
    (frpEnv spec secrets run).get e.text = some (e.value own) := by
  apply get_foldl_set
  · intro w hw
    obtain ⟨e', htext, hvalue⟩ := envRows_own hheld hw
    rw [hvalue, EnvName.text_injective htext]
  · exact Or.inr ((mem_envRows_names h hheld).mpr he)

theorem frpEnv_names (h : spec.Checked) (hheld : Holds spec own secrets run) (n : Text) :
    ((frpEnv spec secrets run).get n).isSome = true ↔ n ∈ specNames spec run.toFrpRun := by
  constructor
  · intro hsome
    by_contra hno
    rw [← mem_envRows_names h hheld] at hno
    unfold frpEnv at hsome
    rw [get_foldl_none rfl hno] at hsome
    cases hsome
  · intro hn
    have hrow := (mem_envRows_names h hheld).mpr hn
    obtain ⟨⟨k, v⟩, hmem, rfl⟩ := List.mem_map.mp hrow
    obtain ⟨e, htext, -⟩ := envRows_own hheld hmem
    have htext' : k = e.text := htext
    dsimp only at hn ⊢
    rw [htext'] at hn ⊢
    rw [frpEnv_own h hheld hn]
    rfl

theorem proxyNames_sub {r : FrpRun} {i : Nat} {p : FrpProxy} (hp : spec.proxies[i]? = some p) :
    ∀ n ∈ proxyNames p i, n ∈ specNames spec r := by
  obtain ⟨hi, rfl⟩ := List.getElem?_eq_some_iff.mp hp
  intro n hn
  unfold specNames
  rw [List.mem_append, List.mem_append]
  exact Or.inl (Or.inr (List.mem_flatten.mpr ⟨_, List.mem_mapIdx.mpr ⟨i, hi, rfl⟩, hn⟩))

theorem visitorNames_sub {r : FrpRun} {i : Nat} {v : FrpVisitor}
    (hv : spec.visitors[i]? = some v) : ∀ n ∈ visitorNames v i, n ∈ specNames spec r := by
  obtain ⟨hi, rfl⟩ := List.getElem?_eq_some_iff.mp hv
  intro n hn
  unfold specNames
  rw [List.mem_append]
  exact Or.inr (List.mem_flatten.mpr ⟨_, List.mem_mapIdx.mpr ⟨i, hi, rfl⟩, hn⟩)

/-- What opens in the block of a proxy is set to secrets of that proxy. -/
def ProxyOwns (spec : FrpSpec) (own : Own) (env : JsMap Text Text) : Prop :=
  ∀ i p t, spec.proxies[i]? = some p → proxyBlock p i = .ok t → ∀ found ∈ actions t,
    (found = some (frpProxySecretEnv i) ∧
      env.get (frpProxySecretEnv i) = some (own.proxySecret i)) ∨
    (found = some (frpPluginPasswordEnv i) ∧
      env.get (frpPluginPasswordEnv i) = some (own.pluginPassword i))

def VisitorOwns (spec : FrpSpec) (own : Own) (env : JsMap Text Text) : Prop :=
  ∀ i v t, spec.visitors[i]? = some v → visitorBlock v i = .ok t → ∀ found ∈ actions t,
    found = some (frpVisitorSecretEnv i) ∧
      env.get (frpVisitorSecretEnv i) = some (own.visitorSecret i)

/-- The variables the file names are those that are set, nothing else opens in it, and what a block
names is set to the secret of its own entry. Only the name for the admin API can keep the file of a
valid profile from being written. -/
theorem toml_env_agree {confirm : Option FrpConfirmations}
    (hvalid : (validateFrpSpec spec confirm).ok = true) (hheld : Holds spec own secrets run)
    {port : Decimal} (hport : run.adminPort = .num port) :
    match generateFrpToml spec run.toFrpRun with
    | .error _ => isSafeTomlString run.adminUser = false
    | .ok toml =>
      (∀ n, some n ∈ actions toml ↔ ((frpEnv spec secrets run).get n).isSome = true) ∧
      none ∉ actions toml ∧
      ProxyOwns spec own (frpEnv spec secrets run) ∧
      VisitorOwns spec own (frpEnv spec secrets run) := by
  have h := FrpSpec.checked hvalid
  have hplain : '\x7b' ∉ jsString run.adminPort := by
    rw [hport]
    exact number_plain port
  cases huser : isSafeTomlString run.adminUser with
  | false =>
    cases hgenerate : generateFrpToml spec run.toFrpRun with
    | error e => rfl
    | ok toml => exact absurd hgenerate (generate_fails huser toml)
  | true =>
    obtain ⟨toml, htoml⟩ := generate_succeeds h hplain huser
    rw [htoml]
    have hreads := reads_toml h hplain huser htoml
    refine ⟨?_, ?_, ?_, ?_⟩
    · intro n
      rw [hreads, frpEnv_names h hheld, List.mem_map]
      constructor
      · rintro ⟨m, hm, hmn⟩
        rw [← Option.some.inj hmn]
        exact hm
      · exact fun hn => ⟨n, hn, rfl⟩
    · rw [hreads, List.mem_map]
      rintro ⟨m, -, hm⟩
      cases hm
    · intro i p t hp ht found hfound
      have hchecked := h.proxies p (List.mem_of_getElem? hp)
      rw [(reads_proxyBlock hchecked ht).whole, List.mem_map] at hfound
      obtain ⟨n, hn, rfl⟩ := hfound
      have hset := proxyNames_sub (r := run.toFrpRun) hp n hn
      obtain ⟨-, rfl⟩ | ⟨-, rfl⟩ := mem_proxyNames.mp hn
      · exact Or.inl ⟨rfl, frpEnv_own (e := .proxySecret i) h hheld hset⟩
      · exact Or.inr ⟨rfl, frpEnv_own (e := .pluginPassword i) h hheld hset⟩
    · intro i v t hv ht found hfound
      have hchecked := h.visitors v (List.mem_of_getElem? hv)
      rw [(reads_visitorBlock hchecked ht).whole, List.mem_map] at hfound
      obtain ⟨n, hn, rfl⟩ := hfound
      have hset := visitorNames_sub (r := run.toFrpRun) hv n hn
      obtain ⟨-, rfl⟩ := mem_visitorNames.mp hn
      exact ⟨rfl, frpEnv_own (e := .visitorSecret i) h hheld hset⟩

end

/-! ## A bundle for every valid profile -/

theorem distinct_of_withBefore {α : Type} {check : List α → Nat → α → Issues} {g : α → Text}
    (hcheck : ∀ before i x, NoError (check before i x) → ∀ y ∈ before, g y ≠ g x)
    {before : List α} {i : Nat} {xs : List α} (h : NoError (withBefore check before i xs)) :
    (xs.map g).Nodup ∧ ∀ y ∈ before, ∀ x ∈ xs, g y ≠ g x := by
  induction xs generalizing before i with
  | nil => simp
  | cons x xs ih =>
    obtain ⟨hx, hxs⟩ := noError_append.mp h
    obtain ⟨hnodup, hapart⟩ := ih hxs
    constructor
    · rw [List.map_cons, List.nodup_cons]
      refine ⟨?_, hnodup⟩
      intro hmem
      obtain ⟨y, hy, heq⟩ := List.mem_map.mp hmem
      exact hapart x (by simp) y hy heq.symm
    · intro y hy z hz
      rw [List.mem_cons] at hz
      obtain rfl | hz := hz
      · exact hcheck before i z hx y hy
      · exact hapart y (List.mem_append_left _ hy) z hz

/-- The entries of a valid profile have names of their own. -/
theorem names_distinct {spec : FrpSpec} {confirm : Option FrpConfirmations}
    (h : (validateFrpSpec spec confirm).ok = true) :
    (spec.proxies.map FrpProxy.name ++ spec.visitors.map FrpVisitor.name).Nodup := by
  have hno := noError_of_ok h
  simp only [specIssues, noError_append] at hno
  obtain ⟨⟨-, hproxies⟩, hvisitors⟩ := hno
  have hvisitor : ∀ confirm before i v,
      NoError (checkVisitor confirm spec.proxies before i v) →
        (∀ w ∈ before, w.name ≠ v.name) ∧ ∀ p ∈ spec.proxies, p.name ≠ v.name := by
    intro confirm before i v hv
    unfold checkVisitor at hv
    have hnames := (noError_append.mp (noError_append.mp hv).1).2
    split_ifs at hnames with hdup
    · exact absurd hnames noError_issue.mp
    · rw [noError_issueIf, List.any_eq_false] at hnames
      constructor
      · intro w hw heq
        exact hdup (List.any_eq_true.mpr ⟨w, hw, decide_eq_true heq⟩)
      · intro p hp heq
        exact hnames p hp (decide_eq_true heq)
  have hproxy := distinct_of_withBefore (g := FrpProxy.name) (fun before i p hp q hq heq => by
    unfold checkProxy at hp
    have hdup := (noError_append.mp (noError_append.mp hp).1).2
    rw [noError_issueIf, List.any_eq_false] at hdup
    exact hdup q hq (decide_eq_true heq)) hproxies
  have hvisit := distinct_of_withBefore (g := FrpVisitor.name)
    (fun before i v hv => (hvisitor _ before i v hv).1) hvisitors
  refine List.nodup_append.mpr ⟨hproxy.1, hvisit.1, ?_⟩
  intro a ha b hb
  obtain ⟨p, hp, rfl⟩ := List.mem_map.mp ha
  obtain ⟨v, hv, rfl⟩ := List.mem_map.mp hb
  obtain ⟨before, i, hcheck⟩ := noError_withBefore hvisitors v hv
  exact (hvisitor _ before i v hcheck).2 p hp

theorem nodup_keyed {α : Type} {xs : List α} {name : α → Text} (value : Nat → Text)
    (h : (xs.map name).Nodup) : ((xs.mapIdx fun i x => (name x, value i)).map Prod.fst).Nodup := by
  rw [map_mapIdx]
  have hmap : (xs.mapIdx fun _ x => name x) = xs.map name := by
    induction xs with
    | nil => rfl
    | cons x xs ih => rw [List.mapIdx_cons, List.map_cons, ih (List.nodup_cons.mp h).2]
  rw [hmap]
  exact h

/-- Whatever the secrets of the entries are, a bundle can hold them all. -/
theorem holds_bundle {spec : FrpSpec} {confirm : Option FrpConfirmations}
    (h : (validateFrpSpec spec confirm).ok = true) (own : Own) (port : Json) (user : Text) :
    ∃ secrets, Holds spec own secrets ⟨⟨port, user⟩, own.adminPassword⟩ := by
  have hnames := names_distinct h
  obtain ⟨hproxies, hvisitors, hapart⟩ := List.nodup_append.mp hnames
  let keyed := (spec.proxies.mapIdx fun i p => (p.name, own.proxySecret i)) ++
    spec.visitors.mapIdx fun i v => (v.name, own.visitorSecret i)
  have hkeyed : (keyed.map Prod.fst).Nodup := by
    rw [List.map_append]
    refine List.nodup_append.mpr
      ⟨nodup_keyed _ hproxies, nodup_keyed _ hvisitors, ?_⟩
    intro a ha b hb
    rw [map_mapIdx] at ha hb
    obtain ⟨i, hi, rfl⟩ := List.mem_mapIdx.mp ha
    obtain ⟨j, hj, rfl⟩ := List.mem_mapIdx.mp hb
    exact hapart _ (List.mem_map_of_mem (List.getElem_mem hi)) _
      (List.mem_map_of_mem (List.getElem_mem hj))
  refine ⟨⟨some own.token, some own.oidcClientSecret, ⟨keyed, hkeyed⟩,
    ⟨spec.proxies.mapIdx fun i p => (p.name, own.pluginPassword i), nodup_keyed _ hproxies⟩⟩, ?_⟩
  refine ⟨rfl, fun _ => rfl, fun _ => rfl, ?_, ?_, ?_⟩
  · intro i p hp _
    obtain ⟨hi, rfl⟩ := List.getElem?_eq_some_iff.mp hp
    exact (JsMap.mem_entries_iff _).mp
      (List.mem_append_left _ (List.mem_mapIdx.mpr ⟨i, hi, rfl⟩))
  · intro i p hp _
    obtain ⟨hi, rfl⟩ := List.getElem?_eq_some_iff.mp hp
    exact (JsMap.mem_entries_iff _).mp (List.mem_mapIdx.mpr ⟨i, hi, rfl⟩)
  · intro i v hv _
    obtain ⟨hi, rfl⟩ := List.getElem?_eq_some_iff.mp hv
    exact (JsMap.mem_entries_iff _).mp
      (List.mem_append_right _ (List.mem_mapIdx.mpr ⟨i, hi, rfl⟩))

def aProxy : FrpProxy where
  name := "db".toList
  type := "stcp".toList
  localIp := "127.0.0.1".toList
  localPort := .num (.ofInt 5432)
  remotePort := none
  customDomains := []
  subdomain := []
  secretKeyRef := true
  plugin := none
  acknowledgedExposure := .bool true

def aVisitor : FrpVisitor where
  name := "web".toList
  type := "stcp".toList
  serverName := "site".toList
  secretKeyRef := true
  bindAddr := "127.0.0.1".toList
  bindPort := .num (.ofInt 8080)

def aSpec : FrpSpec where
  serverAddr := "frp.example.com".toList
  serverPort := .num (.ofInt 7000)
  auth := ⟨"token".toList, true, none⟩
  transport := ⟨"tcp".toList, .bool true, none, none, none⟩
  proxies := [aProxy]
  visitors := [aVisitor]
  confirmations := none

def someOwn : Own where
  adminPassword := "a".toList
  token := "t".toList
  oidcClientSecret := "o".toList
  proxySecret := fun i => 'p' :: Nat.toDigits 10 i
  pluginPassword := fun i => 'w' :: Nat.toDigits 10 i
  visitorSecret := fun i => 'v' :: Nat.toDigits 10 i

theorem toml_env_agree_profile :
    ∃ secrets, match generateFrpToml aSpec ⟨.num (.ofInt 7400), "admin".toList⟩ with
    | .error _ => isSafeTomlString "admin".toList = false
    | .ok toml =>
      (∀ n, some n ∈ actions toml ↔ ((frpEnv aSpec secrets
        ⟨⟨.num (.ofInt 7400), "admin".toList⟩, someOwn.adminPassword⟩).get n).isSome = true) ∧
      none ∉ actions toml ∧
      ProxyOwns aSpec someOwn (frpEnv aSpec secrets
        ⟨⟨.num (.ofInt 7400), "admin".toList⟩, someOwn.adminPassword⟩) ∧
      VisitorOwns aSpec someOwn (frpEnv aSpec secrets
        ⟨⟨.num (.ofInt 7400), "admin".toList⟩, someOwn.adminPassword⟩) := by
  have hvalid : (validateFrpSpec aSpec none).ok = true := by decide +kernel
  obtain ⟨secrets, hheld⟩ := holds_bundle hvalid someOwn (.num (.ofInt 7400)) "admin".toList
  exact ⟨secrets, toml_env_agree hvalid hheld rfl⟩

end OpsMaxx.Frp
