import OpsMaxx.Wg.Config

/-!
# What is built of the sections

Each value of the model is that of a key of its section, and each key without a place in the model
is reported. The pre-shared keys lie in one record under the public keys of their peers.
-/

set_option autoImplicit false

namespace OpsMaxx.Wg

open Machine.Reporting
open Store (JsMap)
open Strings

variable {other : Text → Text} {s t : Ctx}

/-! ## Values -/

theorem gives_demand {p : Prop} [Decidable p] {e : VpnError} {u : PUnit} :
    Gives (demand p e) s u t ↔ p ∧ s = t :=
  gives_unless

theorem gives_carryKey {why : Text} {entry : Entry} {key : Text} :
    Gives (carryKey why entry) s key t ↔
      isWireGuardKey entry.value = true ∧ trim entry.value = key ∧ s = t := by
  unfold carryKey
  split_ifs with h
  · simp [h]
  · simp [h]

theorem gives_given {α : Type} {entry : Option Entry} {absent : Build α} {carry : Entry → Build α}
    {a : α} :
    Gives (given entry absent carry) s a t ↔
      entry = none ∧ Gives absent s a t ∨ ∃ e, entry = some e ∧ Gives (carry e) s a t := by
  cases entry with
  | none => simp [given]
  | some e => simp [given]

/-- What a setting that is required is carried across to. -/
theorem gives_required {α : Type} {entry : Option Entry} {e : VpnError} {carry : Entry → Build α}
    {a : α} :
    Gives (given entry (throw e) carry) s a t ↔
      ∃ found, entry = some found ∧ Gives (carry found) s a t := by
  simp [gives_given]

/-- Nothing is reported while a list is carried across. -/
theorem carried_of_gives {shape : Text → Option Text} {why : Text → Text} {entry : Entry}
    {f : Text → Text} (hf : ∀ a x, shape a = some x → x = f a) {items xs : List Text}
    (h : Gives (carryEach shape why entry items) s xs t) : xs = items.map f ∧ s = t := by
  induction items generalizing xs t with
  | nil =>
    obtain ⟨rfl, hst⟩ := gives_pure.mp h
    exact ⟨rfl, hst⟩
  | cons a rest ih =>
    unfold carryEach at h
    cases ha : shape a with
    | none =>
      rw [ha] at h
      exact absurd h not_gives_throw
    | some x =>
      rw [ha] at h
      obtain ⟨ys, u, hrest, hpure⟩ := gives_bind.mp h
      obtain ⟨hys, rfl⟩ := ih hrest
      obtain ⟨rfl, hst⟩ := gives_pure.mp hpure
      rw [hys, hf a x ha]
      exact ⟨rfl, hst⟩

theorem cidrShape_eq {a x : Text} (h : cidrShape a = some x) : x = normaliseCidr a := by
  unfold cidrShape at h
  split_ifs at h
  exact (Option.some.inj h).symm

theorem dnsShape_eq {d x : Text} (h : dnsShape d = some x) : x = d := by
  unfold dnsShape at h
  split_ifs at h
  exact (Option.some.inj h).symm

theorem gives_drop {directive : Text} {reason : Reason} {u : PUnit} :
    Gives (drop directive reason) s u t ↔
      { s with stripped := s.stripped ++ [removed directive reason] } = t :=
  gives_modify

/-- The keys that the model has no place for are reported, and nothing reported is lost. -/
theorem entries_of_gives {modelled : List Text} {reason : Text → Entry → Reason}
    {entries : List (Text × Entry)} {u : PUnit}
    (h : Gives (dropEach modelled reason entries) s u t) :
    (∀ e ∈ entries, e.1 ∉ modelled → removed e.1 (reason e.1 e.2) ∈ t.stripped) ∧
      s.stripped ⊆ t.stripped ∧ t.warnings = s.warnings := by
  induction entries generalizing s with
  | nil =>
    obtain ⟨-, rfl⟩ := gives_pure.mp h
    simp
  | cons e rest ih =>
    obtain ⟨key, entry⟩ := e
    unfold dropEach at h
    rw [List.forall_mem_cons]
    split_ifs at h with hkey
    · obtain ⟨hrest, hkept, hwarn⟩ := ih h
      exact ⟨⟨fun hnot => absurd hkey hnot, hrest⟩, hkept, hwarn⟩
    · obtain ⟨_, v, hdrop, hgives⟩ := gives_bind.mp h
      obtain rfl := gives_drop.mp hdrop
      obtain ⟨hrest, hkept, hwarn⟩ := ih hgives
      refine ⟨⟨fun _ => hkept (by simp), hrest⟩, fun d hd => hkept ?_, hwarn⟩
      exact List.mem_append_left _ hd

theorem dropped_of_gives {modelled : List Text} {reason : Text → Entry → Reason}
    {values : JsMap Text Entry} {u : PUnit}
    (h : Gives (dropEach modelled reason values.entries) s u t) :
    (∀ key e, values.get key = some e → key ∉ modelled →
      removed key (reason key e) ∈ t.stripped) ∧
      s.stripped ⊆ t.stripped ∧ t.warnings = s.warnings := by
  obtain ⟨hall, hrest⟩ := entries_of_gives h
  refine ⟨fun key e hget hnot => ?_, hrest⟩
  exact hall (key, e) (values.mem_entries_iff.mpr hget) hnot

/-! ## The interface -/

/-- The values of an interface whose keys are set as they are. -/
structure InterfaceCarried (get : Text → Option Entry) (stripped : List StrippedDirective)
    (i : Interface) : Prop where
  privateKey : ∃ e, get "privatekey".toList = some e ∧ i.privateKey = trim e.value
  addresses : ∃ e, get "address".toList = some e ∧
    i.addresses = (splitList e.value).map normaliseCidr
  dns : i.dns = ((get "dns".toList).map fun e => splitList e.value).getD []
  mtu : (get "mtu".toList).map (fun e => intIn e.value 576 9000) = i.mtu.map some
  dropped : ∀ key e, get key = some e → key ∉ IFACE_MODELLED →
    removed key (interfaceReason key e) ∈ stripped

theorem dns_of_gives {entry : Option Entry} {dns : List Text}
    (h : Gives (given entry (pure []) fun e => carryEach dnsShape notADnsServer e (splitList e.value))
      s dns t) :
    dns = (entry.map fun e => splitList e.value).getD [] ∧ s = t := by
  obtain ⟨rfl, h⟩ | ⟨e, rfl, h⟩ := gives_given.mp h
  · obtain ⟨rfl, hst⟩ := gives_pure.mp h
    exact ⟨rfl, hst⟩
  · obtain ⟨rfl, hst⟩ := carried_of_gives (f := id) (fun a x hx => dnsShape_eq hx) h
    exact ⟨by simp, hst⟩

theorem mtu_of_gives {entry : Option Entry} {mtu : Option Nat}
    (h : Gives (given entry (pure none) carryMtu) s mtu t) :
    entry.map (fun e => intIn e.value 576 9000) = mtu.map some ∧ s = t := by
  obtain ⟨rfl, hnone⟩ | ⟨e, rfl, hsome⟩ := gives_given.mp h
  · obtain ⟨rfl, hst⟩ := gives_pure.mp hnone
    exact ⟨rfl, hst⟩
  · unfold carryMtu at hsome
    cases hin : intIn e.value 576 9000 with
    | none =>
      rw [hin] at hsome
      exact absurd hsome not_gives_throw
    | some n =>
      rw [hin] at hsome
      obtain ⟨rfl, hst⟩ := gives_pure.mp hsome
      exact ⟨by simp [hin], hst⟩

theorem interface_of_gives {iface : Section} {i : Interface}
    (h : Gives (buildInterface iface) s i t) :
    InterfaceCarried iface.values.get t.stripped i ∧ s.stripped ⊆ t.stripped ∧
      t.warnings = s.warnings := by
  unfold buildInterface at h
  obtain ⟨privateKey, s₁, hkey, h⟩ := gives_bind.mp h
  obtain ⟨addresses, s₂, haddr, h⟩ := gives_bind.mp h
  obtain ⟨_, s₃, hsome, h⟩ := gives_bind.mp h
  obtain ⟨dns, s₄, hdns, h⟩ := gives_bind.mp h
  obtain ⟨mtu, s₅, hmtu, h⟩ := gives_bind.mp h
  obtain ⟨_, s₆, hdrop, h⟩ := gives_bind.mp h
  obtain ⟨rfl, rfl⟩ := gives_pure.mp h
  obtain ⟨k, hk, hkey⟩ := gives_required.mp hkey
  obtain ⟨-, rfl, rfl⟩ := gives_carryKey.mp hkey
  obtain ⟨hne, rfl⟩ := gives_demand.mp hsome
  obtain ⟨hdnsEq, rfl⟩ := dns_of_gives hdns
  obtain ⟨hmtuEq, rfl⟩ := mtu_of_gives hmtu
  obtain ⟨hdropped, hkept, hwarn⟩ := dropped_of_gives hdrop
  obtain ⟨-, hnone⟩ | ⟨a, ha, haddrs⟩ := gives_given.mp haddr
  · exact absurd (gives_pure.mp hnone).1.symm hne
  · obtain ⟨haddrEq, rfl⟩ := carried_of_gives (fun a x hx => cidrShape_eq hx) haddrs
    exact ⟨⟨⟨k, hk, rfl⟩, ⟨a, ha, haddrEq⟩, hdnsEq, hmtuEq, hdropped⟩, hkept, hwarn⟩

/-! ## The peers -/

variable (other) in
/-- A peer whose keys are set as they are. -/
structure PeerCarried (get : Text → Option Entry) (stripped : List StrippedDirective)
    (p : WireGuardPeer) : Prop where
  publicKey : ∃ e, get "publickey".toList = some e ∧ p.publicKey = trim e.value
  endpoint : ∃ e, get "endpoint".toList = some e ∧ p.endpoint = trim e.value
  allowedIps : ∃ e, get "allowedips".toList = some e ∧
    p.allowedIps = (splitList e.value).map normaliseCidr
  keepalive : ∀ e, get "persistentkeepalive".toList = some e →
    ∃ n, Wg.keepalive other e.value = some n ∧
      p.persistentKeepalive = if 0 < n then some n else none
  silent : get "persistentkeepalive".toList = none → p.persistentKeepalive = none
  preshared : p.presharedKeyRef =
    (get "presharedkey".toList).map fun _ => presharedRef p.publicKey
  dropped : ∀ key e, get key = some e → key ∉ PEER_MODELLED →
    removed key (peerReason key e) ∈ stripped

theorem PeerCarried.mono {get : Text → Option Entry} {d d' : List StrippedDirective}
    {p : WireGuardPeer} (h : PeerCarried other get d p) (hd : d ⊆ d') : PeerCarried other get d' p :=
  { h with dropped := fun key e hget hnot => hd (h.dropped key e hget hnot) }

theorem InterfaceCarried.mono {get : Text → Option Entry} {d d' : List StrippedDirective}
    {i : Interface} (h : InterfaceCarried get d i) (hd : d ⊆ d') : InterfaceCarried get d' i :=
  { h with dropped := fun key e hget hnot => hd (h.dropped key e hget hnot) }

def publicKeyOf (get : Text → Option Entry) : Option Text :=
  (get "publickey".toList).map fun e => trim e.value

def presharedKeyOf (get : Text → Option Entry) : Option Text :=
  (get "presharedkey".toList).map fun e => trim e.value

def hasEndpoint (get : Text → Option Entry) : Bool := (get "endpoint".toList).isSome

theorem endpoint_of_gives {entry : Entry} {endpoint : Text}
    (h : Gives (carryEndpoint entry) s endpoint t) : endpoint = trim entry.value ∧ s = t := by
  unfold carryEndpoint at h
  split at h
  · exact absurd h not_gives_throw
  · obtain ⟨rfl, hst⟩ := gives_pure.mp h
    exact ⟨rfl, hst⟩

theorem allowedIps_of_gives {entry : Entry} {allowedIps : List Text}
    (h : Gives (carryAllowedIps entry) s allowedIps t) :
    allowedIps = (splitList entry.value).map normaliseCidr ∧ s = t := by
  obtain ⟨xs, u, heach, hrest⟩ := gives_bind.mp h
  obtain ⟨_, v, hdemand, hpure⟩ := gives_bind.mp hrest
  obtain ⟨hxs, rfl⟩ := carried_of_gives (fun a x hx => cidrShape_eq hx) heach
  obtain ⟨-, rfl⟩ := gives_demand.mp hdemand
  obtain ⟨rfl, hst⟩ := gives_pure.mp hpure
  exact ⟨hxs, hst⟩

/-- The record once a pre-shared key is in it. -/
def withKey (keys : JsMap Text Text) (key : Text) (psk : Option Text) : JsMap Text Text :=
  (psk.map fun v => keys.set key v).getD keys

theorem preshared_of_gives {get : Text → Option Entry} {key : Text} {keys : JsMap Text Text}
    {out : Option VpnSecretRef × JsMap Text Text}
    (h : Gives (given (get "presharedkey".toList) (pure (none, keys)) (carryPresharedKey key keys))
      s out t) :
    out = ((get "presharedkey".toList).map fun _ => presharedRef key,
      withKey keys key (presharedKeyOf get)) ∧ s = t := by
  unfold presharedKeyOf
  obtain ⟨hget, hnone⟩ | ⟨e, hget, hsome⟩ := gives_given.mp h
  · obtain ⟨rfl, hst⟩ := gives_pure.mp hnone
    rw [hget]
    exact ⟨rfl, hst⟩
  · obtain ⟨psk, u, hkey, hpure⟩ := gives_bind.mp hsome
    obtain ⟨-, rfl, rfl⟩ := gives_carryKey.mp hkey
    obtain ⟨rfl, hst⟩ := gives_pure.mp hpure
    rw [hget]
    exact ⟨rfl, hst⟩

theorem keepalive_of_gives {entry : Entry} {seconds : Option Nat}
    (h : Gives (carryKeepalive other entry) s seconds t) :
    (∃ n, keepalive other entry.value = some n ∧ seconds = if 0 < n then some n else none) ∧
      s = t := by
  unfold carryKeepalive at h
  split at h
  · exact absurd h not_gives_throw
  · rename_i n hn
    obtain ⟨rfl, hst⟩ := gives_pure.mp h
    exact ⟨⟨n, hn, rfl⟩, hst⟩

theorem seconds_of_gives {entry : Option Entry} {seconds : Option Nat}
    (h : Gives (given entry (pure none) (carryKeepalive other)) s seconds t) :
    (∀ e, entry = some e →
      ∃ n, keepalive other e.value = some n ∧ seconds = if 0 < n then some n else none) ∧
      (entry = none → seconds = none) ∧ s = t := by
  obtain ⟨rfl, hpure⟩ | ⟨e, rfl, hcarry⟩ := gives_given.mp h
  · obtain ⟨rfl, hst⟩ := gives_pure.mp hpure
    exact ⟨fun e he => (nomatch he), fun _ => rfl, hst⟩
  · obtain ⟨hn, hst⟩ := keepalive_of_gives hcarry
    refine ⟨fun e' he => ?_, fun hnone => (nomatch hnone), hst⟩
    rw [← Option.some.inj he]
    exact hn

theorem peer_of_gives {sec : Section} {pub endpoint : Entry} {keys : JsMap Text Text}
    {out : WireGuardPeer × JsMap Text Text}
    (hpub : sec.values.get "publickey".toList = some pub)
    (hend : sec.values.get "endpoint".toList = some endpoint)
    (h : Gives (buildPeer other sec (trim pub.value) endpoint keys) s out t) :
    PeerCarried other sec.values.get t.stripped out.1 ∧
      out.2 = withKey keys (trim pub.value) (presharedKeyOf sec.values.get) ∧
      s.stripped ⊆ t.stripped ∧ t.warnings = s.warnings := by
  unfold buildPeer at h
  obtain ⟨ep, s₁, hep, h⟩ := gives_bind.mp h
  obtain ⟨allowed, s₂, hallowed, h⟩ := gives_bind.mp h
  obtain ⟨preshared, s₃, hpsk, h⟩ := gives_bind.mp h
  obtain ⟨ka, s₄, hka, h⟩ := gives_bind.mp h
  obtain ⟨_, s₅, hdrop, h⟩ := gives_bind.mp h
  obtain ⟨rfl, rfl⟩ := gives_pure.mp h
  obtain ⟨rfl, rfl⟩ := endpoint_of_gives hep
  obtain ⟨a, ha, hips⟩ := gives_required.mp hallowed
  obtain ⟨rfl, rfl⟩ := allowedIps_of_gives hips
  obtain ⟨rfl, rfl⟩ := preshared_of_gives hpsk
  obtain ⟨hseconds, hsilent, rfl⟩ := seconds_of_gives hka
  obtain ⟨hdropped, hkept, hwarn⟩ := dropped_of_gives hdrop
  refine ⟨⟨⟨pub, hpub, rfl⟩, ⟨endpoint, hend, rfl⟩, ⟨a, ha, rfl⟩, hseconds, hsilent, rfl, hdropped⟩,
    rfl, hkept, hwarn⟩

/-! ## Warnings -/

theorem warnIf_kept {p : Bool} {warning : Text} {u : PUnit} (h : Gives (warnIf p warning) s u t) :
    t.stripped = s.stripped ∧ s.warnings ⊆ t.warnings := by
  unfold warnIf at h
  split_ifs at h
  · obtain rfl := gives_modify.mp h
    exact ⟨rfl, List.subset_append_left _ _⟩
  · obtain ⟨-, rfl⟩ := gives_pure.mp h
    exact ⟨rfl, fun _ hw => hw⟩

theorem endWarnings_kept {peers : List WireGuardPeer} {addresses : List Text} {hostHasIpv6 : Bool}
    {u : PUnit} (h : Gives (endWarnings peers addresses hostHasIpv6) s u t) :
    t.stripped = s.stripped ∧ s.warnings ⊆ t.warnings := by
  obtain ⟨_, v, hfirst, hsecond⟩ := gives_bind.mp h
  obtain ⟨hstripped, hwarnings⟩ := warnIf_kept hfirst
  obtain ⟨hstripped', hwarnings'⟩ := warnIf_kept hsecond
  exact ⟨hstripped'.trans hstripped, fun w hw => hwarnings' (hwarnings hw)⟩

end OpsMaxx.Wg
