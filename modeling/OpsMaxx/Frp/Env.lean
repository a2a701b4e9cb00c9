import OpsMaxx.Frp.Validation
import OpsMaxx.Frp.Templates

/-!
# The file and its environment

The variables that the file of a valid profile names are those the environment sets, and what a
block names is set to the secret of its own proxy or visitor.
-/

set_option autoImplicit false

namespace OpsMaxx.Frp

open OpsMaxx.Strings (Text)
open OpsMaxx.Store (JsMap)

/-! ## Writers that can fail -/

theorem bind_ok {ε α β : Type} {x : Except ε α} {f : α → Except ε β} {b : β} :
    (x >>= f) = .ok b ↔ ∃ a, x = .ok a ∧ f a = .ok b := by
  cases x with
  | error e =>
    constructor
    · intro h
      cases h
    · rintro ⟨a, h, -⟩
      cases h
  | ok a =>
    constructor
    · intro h
      exact ⟨a, rfl, h⟩
    · rintro ⟨a', h, hf⟩
      cases h
      exact hf

theorem mapM_ok {ε α β : Type} {f : α → Except ε β} {xs : List α} {ys : List β} :
    xs.mapM f = .ok ys ↔ List.Forall₂ (fun x y => f x = .ok y) xs ys := by
  induction xs generalizing ys with
  | nil =>
    rw [List.mapM_nil, List.forall₂_nil_left_iff]
    exact ⟨fun h => by cases h; rfl, fun h => by rw [h]; rfl⟩
  | cons x xs ih =>
    rw [List.mapM_cons, List.forall₂_cons_left_iff]
    simp only [bind_ok, ih]
    constructor
    · rintro ⟨y, hy, ys', hys, h⟩
      cases h
      exact ⟨y, ys', hy, hys, rfl⟩
    · rintro ⟨y, ys', hy, hys, rfl⟩
      exact ⟨y, hy, ys', hys, rfl⟩

/-- What opens in each of several texts that were written. -/
theorem reads_mapM {α : Type} {f : α → Except VpnError Text} {g : α → List (Option Text)}
    {xs : List α} {ts : List Text} (h : xs.mapM f = .ok ts)
    (hf : ∀ x ∈ xs, ∀ t, f x = .ok t → Reads t (g x)) :
    List.Forall₂ Reads ts (xs.map g) := by
  have hall := mapM_ok.mp h
  clear h
  induction hall with
  | nil => exact .nil
  | cons hhead htail ih =>
    refine .cons (hf _ List.mem_cons_self _ hhead) (ih ?_)
    intro x hx
    exact hf x (List.mem_cons_of_mem _ hx)

/-! ## What the rows name -/

def Value.names : Value → List Text
  | .env name => [name]
  | _ => []

def rowNames (rows : List Row) : List Text := rows.flatMap fun r => r.2.names

/-- The value can be written, and only a template opens in it. -/
def Value.Fits : Value → Prop
  | .quoted value => isSafeTomlString value = true
  | .list values => ∀ v ∈ values, isSafeTomlString v = true
  | .number value => '\x7b' ∉ jsString value
  | .flag _ => True
  | .env name => ∀ c ∈ name, isEnvChar c = true

instance : DecidablePred Value.Fits
  | .quoted value => inferInstanceAs (Decidable (isSafeTomlString value = true))
  | .list values => inferInstanceAs (Decidable (∀ v ∈ values, isSafeTomlString v = true))
  | .number value => inferInstanceAs (Decidable ('\x7b' ∉ jsString value))
  | .flag _ => inferInstanceAs (Decidable True)
  | .env name => inferInstanceAs (Decidable (∀ c ∈ name, isEnvChar c = true))

def Row.Fits (r : Row) : Prop := '\x7b' ∉ r.1.toList ∧ r.2.Fits

theorem reads_write {v : Value} {t : Text} (hv : v.Fits) (h : v.write = .ok t) :
    Reads t (v.names.map some) := by
  cases v with
  | quoted value => exact reads_quote h
  | list values =>
    obtain ⟨quoted, hquoted, hret⟩ := bind_ok.mp h
    cases hret
    have hall := reads_mapM (g := fun _ => []) hquoted fun x _ t ht => reads_quote ht
    have hinner := Reads.intercalate (s := ", ".toList) (by decide) hall
    have hflat : (values.map fun _ => ([] : List (Option Text))).flatten = [] := by simp
    rw [hflat] at hinner
    exact (Reads.plain (t := ['[']) (by decide)).append (hinner.append (.plain (by decide)))
  | number value =>
    cases h
    exact .plain hv
  | flag value =>
    cases h
    cases value with
    | true => exact .plain (by decide)
    | false => exact .plain (by decide)
  | env name =>
    cases h
    exact reads_envTemplate hv

theorem reads_row {width : Nat} {r : Row} {t : Text} (hr : r.Fits)
    (h : r.write width = .ok t) : Reads t (r.2.names.map some) := by
  obtain ⟨value, hvalue, hret⟩ := bind_ok.mp h
  cases hret
  have hkey : Reads (padEnd width r.1.toList) [] := by
    apply Reads.plain
    intro hmem
    rw [padEnd, List.mem_append] at hmem
    obtain hmem | hmem := hmem
    · exact hr.1 hmem
    · exact absurd (List.eq_of_mem_replicate hmem) (by decide)
  exact (hkey.append (.plain (by decide))).append (reads_write hr.2 hvalue)

theorem reads_block {rows : List Row} {t : Text} (hrows : ∀ r ∈ rows, r.Fits)
    (h : block rows = .ok t) : Reads t ((rowNames rows).map some) := by
  obtain ⟨lines, hlines, hret⟩ := bind_ok.mp h
  cases hret
  have hall := reads_mapM (g := fun r => r.2.names.map some) hlines
    fun r hr t ht => reads_row (hrows r hr) ht
  have hflat : (rows.map fun r => r.2.names.map some).flatten = (rowNames rows).map some := by
    rw [rowNames, List.map_flatMap, List.flatMap_def]
  rw [← hflat]
  exact Reads.intercalate (by decide) hall

theorem mapM_succeeds {ε α β : Type} {f : α → Except ε β} {xs : List α}
    (h : ∀ x ∈ xs, ∃ y, f x = .ok y) : ∃ ys, xs.mapM f = .ok ys := by
  induction xs with
  | nil => exact ⟨[], rfl⟩
  | cons x xs ih =>
    obtain ⟨y, hy⟩ := h x List.mem_cons_self
    obtain ⟨ys, hys⟩ := ih fun z hz => h z (List.mem_cons_of_mem x hz)
    exact ⟨y :: ys, mapM_ok.mpr (.cons hy (mapM_ok.mp hys))⟩

theorem write_succeeds {v : Value} (hv : v.Fits) : ∃ t, v.write = .ok t := by
  cases v with
  | quoted value => exact ⟨_, quote_safe hv⟩
  | list values =>
    obtain ⟨quoted, hquoted⟩ := mapM_succeeds fun x hx => ⟨_, quote_safe (hv x hx)⟩
    exact ⟨_, bind_ok.mpr ⟨quoted, hquoted, rfl⟩⟩
  | number value => exact ⟨_, rfl⟩
  | flag value => exact ⟨_, rfl⟩
  | env name => exact ⟨_, rfl⟩

theorem block_succeeds {rows : List Row} (hrows : ∀ r ∈ rows, r.Fits) :
    ∃ t, block rows = .ok t := by
  obtain ⟨lines, hlines⟩ := mapM_succeeds (f := Row.write (Row.width rows)) fun r hr => by
    obtain ⟨t, ht⟩ := write_succeeds (hrows r hr).2
    exact ⟨_, bind_ok.mpr ⟨t, ht, rfl⟩⟩
  exact ⟨_, bind_ok.mpr ⟨lines, hlines, rfl⟩⟩

/-! ## The rows of a checked spec -/

theorem fits_row {key : String} {value : Value} (hkey : '\x7b' ∉ key.toList)
    (hvalue : value.Fits) : Row.Fits (key, value) := ⟨hkey, hvalue⟩

theorem fits_rowIf {there : Bool} {key : String} {value : Value}
    (h : there = true → Row.Fits (key, value)) : ∀ r ∈ rowIf there key value, r.Fits := by
  intro r hr
  cases there with
  | false => cases hr
  | true =>
    rw [List.mem_singleton.mp hr]
    exact h rfl

theorem digits_env (n : Nat) : ∀ c ∈ Nat.toDigits 10 n, isEnvChar c = true := by
  intro c hc
  have hdigit : c.isDigit = true := Nat.isDigit_of_mem_toDigits (by decide) (by decide) hc
  simp [isEnvChar, Char.isAlphanum, hdigit]

theorem indexed_env {stem : Text} (h : ∀ c ∈ stem, isEnvChar c = true) (n : Nat) :
    ∀ c ∈ stem ++ Nat.toDigits 10 n, isEnvChar c = true := by
  intro c hc
  exact (List.mem_append.mp hc).elim (h c) (digits_env n c)

theorem number_plain (n : Decimal) : '\x7b' ∉ n.print := by
  have hdigits : ∀ m, '\x7b' ∉ Nat.toDigits 10 m := fun m hm =>
    absurd (digits_env m _ hm) (by decide)
  have hpad : ∀ w m, '\x7b' ∉ padDigits w m := by
    intro w m hm
    rw [padDigits, List.mem_append] at hm
    obtain hm | hm := hm
    · exact absurd (List.eq_of_mem_replicate hm) (by decide)
    · exact hdigits m hm
  have habs : '\x7b' ∉ n.printAbs := by
    intro hm
    unfold Decimal.printAbs at hm
    dsimp only at hm
    split_ifs at hm with hplaces
    · exact hdigits _ hm
    · rw [List.mem_append, List.mem_cons] at hm
      obtain hm | hm | hm := hm
      · exact hdigits _ hm
      · cases hm
      · exact hpad _ _ hm
  intro hm
  unfold Decimal.print at hm
  split_ifs at hm with hneg
  · rw [List.mem_cons] at hm
    obtain hm | hm := hm
    · cases hm
    · exact habs hm
  · exact habs hm

theorem integer_plain {lo hi : Int} {v : Json} (h : isInteger lo hi v = true) :
    '\x7b' ∉ jsString v := by
  cases v with
  | num n => exact number_plain n
  | null => cases h
  | bool b => cases h
  | str s => cases h
  | arr items => cases h
  | obj fields => cases h

theorem orElse_plain {lo hi fallback : Int} {value : Option Json}
    (h : ∀ v ∈ value, isInteger lo hi v = true) : '\x7b' ∉ jsString (orElse value fallback) := by
  cases value with
  | none => exact number_plain _
  | some v =>
    cases v with
    | null => exact number_plain _
    | num n => exact number_plain n
    | bool b => exact integer_plain (h _ rfl)
    | str s => exact integer_plain (h _ rfl)
    | arr items => exact integer_plain (h _ rfl)
    | obj fields => exact integer_plain (h _ rfl)

theorem typeIn_safe {types : List String} {type : Text}
    (hall : ∀ t ∈ types, isSafeTomlString t.toList = true) (h : typeIn types type = true) :
    isSafeTomlString type = true := by
  obtain ⟨t, ht, heq⟩ := List.any_eq_true.mp h
  rw [← of_decide_eq_true heq]
  exact hall t ht

theorem serverRows_fit {spec : FrpSpec} (h : spec.Checked) : ∀ r ∈ serverRows spec, r.Fits := by
  simp only [serverRows, List.forall_mem_cons, List.not_mem_nil, false_imp_iff, implies_true,
    and_true]
  exact ⟨fits_row (by decide) h.serverAddr, fits_row (by decide) (integer_plain h.serverPort)⟩

theorem authRows_fit {auth : FrpAuth} (h : auth.Checked) : ∀ r ∈ authRows auth, r.Fits := by
  unfold authRows
  rw [List.forall_mem_cons]
  constructor
  · refine fits_row (by decide) ?_
    obtain hmethod | hmethod := h.method
    · exact show isSafeTomlString auth.method = true by rw [hmethod]; decide
    · exact show isSafeTomlString auth.method = true by rw [hmethod]; decide
  · split_ifs with htoken
    · exact fits_rowIf fun _ => fits_row (by decide) (by decide)
    · cases hoidc : auth.oidc with
      | none => simp
      | some o =>
        obtain ⟨hid, hurl, haudience, hscope⟩ :=
          h.oidc (h.method.resolve_left htoken) o (by rw [hoidc]; rfl)
        simp only [List.forall_mem_cons, List.forall_mem_append, List.not_mem_nil, false_imp_iff,
          implies_true, and_true]
        refine ⟨fits_row (by decide) hid,
          ⟨⟨fits_rowIf fun _ => fits_row (by decide) (by decide), ?_⟩, ?_⟩,
          fits_row (by decide) hurl⟩
        · exact fits_rowIf fun hne => fits_row (by decide) (haudience (of_decide_eq_true hne))
        · exact fits_rowIf fun hne => fits_row (by decide) (hscope (of_decide_eq_true hne))

theorem transportRows_fit {t : FrpTransport} (h : t.Checked) :
    ∀ r ∈ transportRows t, r.Fits := by
  unfold transportRows
  rw [List.forall_mem_append]
  constructor
  · simp only [List.forall_mem_cons, List.not_mem_nil, false_imp_iff, implies_true, and_true]
    exact ⟨fits_row (by decide) trivial, fits_row (by decide) (typeIn_safe (by decide) h.protocol),
      fits_row (by decide) (orElse_plain h.poolCount),
      fits_row (by decide) (orElse_plain h.heartbeat)⟩
  · cases hurl : t.proxyUrl with
    | none => simp
    | some url => exact fits_rowIf fun _ => fits_row (by decide) (h.proxyUrl url (by rw [hurl]; rfl))

theorem adminRows_fit {run : FrpRun} (hport : '\x7b' ∉ jsString run.adminPort)
    (huser : isSafeTomlString run.adminUser = true) : ∀ r ∈ adminRows run, r.Fits := by
  simp only [adminRows, List.forall_mem_cons, List.not_mem_nil, false_imp_iff, implies_true,
    and_true]
  exact ⟨fits_row (by decide) (by decide), fits_row (by decide) hport,
    fits_row (by decide) huser, fits_row (by decide) (by decide)⟩

theorem logRows_fit : ∀ r ∈ logRows, r.Fits := by
  simp only [logRows, List.forall_mem_cons, List.not_mem_nil, false_imp_iff, implies_true, and_true]
  exact ⟨fits_row (by decide) (by decide), fits_row (by decide) (by decide)⟩

theorem proxyRows_fit {p : FrpProxy} (h : p.Checked) (i : Nat) :
    ∀ r ∈ proxyRows p i, r.Fits := by
  unfold proxyRows
  simp only [List.forall_mem_append, List.forall_mem_cons, List.not_mem_nil, false_imp_iff,
    implies_true, and_true]
  refine ⟨⟨⟨⟨⟨fits_row (by decide) h.name,
    fits_row (by decide) (typeIn_safe (by decide) h.type), fits_row (by decide) h.localIp,
    fits_row (by decide) (integer_plain h.localPort)⟩, ?_⟩, ?_⟩, ?_⟩, ?_⟩
  · cases hport : p.remotePort with
    | none => simp
    | some port =>
      intro r hr
      rw [List.mem_singleton.mp hr]
      exact fits_row (by decide) (integer_plain (h.remotePort port (by rw [hport]; rfl)))
  · exact fits_rowIf fun _ => fits_row (by decide) h.customDomains
  · exact fits_rowIf fun hne => fits_row (by decide) (h.subdomain (of_decide_eq_true hne))
  · exact fits_rowIf fun _ => fits_row (by decide) (indexed_env (by decide) i)

theorem pluginRows_fit {p : FrpProxy} (h : p.Checked) {plugin : FrpPlugin}
    (hplugin : p.plugin = some plugin) (i : Nat) : ∀ r ∈ pluginRows plugin i, r.Fits := by
  obtain ⟨hname, huser⟩ := h.plugin plugin (by rw [hplugin]; rfl)
  unfold pluginRows
  simp only [List.forall_mem_append, List.forall_mem_cons]
  refine ⟨fits_row (by decide) (typeIn_safe (by decide) hname), ?_, ?_⟩
  · exact fits_rowIf fun hne => fits_row (by decide) (huser (of_decide_eq_true hne))
  · exact fits_rowIf fun _ => fits_row (by decide) (indexed_env (by decide) i)

theorem visitorRows_fit {v : FrpVisitor} (h : v.Checked) (i : Nat) :
    ∀ r ∈ visitorRows v i, r.Fits := by
  unfold visitorRows
  simp only [List.forall_mem_append, List.forall_mem_cons, List.not_mem_nil, false_imp_iff,
    implies_true, and_true]
  refine ⟨⟨⟨fits_row (by decide) h.name, fits_row (by decide) (typeIn_safe (by decide) h.type),
    fits_row (by decide) h.serverName⟩, ?_⟩, fits_row (by decide) h.bindAddr,
    fits_row (by decide) (integer_plain h.bindPort)⟩
  exact fits_rowIf fun _ => fits_row (by decide) (indexed_env (by decide) i)

end OpsMaxx.Frp
