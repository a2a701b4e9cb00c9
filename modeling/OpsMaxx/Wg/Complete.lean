import OpsMaxx.Strings.Split
import OpsMaxx.Wg.Built
import OpsMaxx.Wg.Written

/-!
# An import is complete

Every setting of an accepted file is in the model, is reported, or belongs to a peer that cannot be
dialled and is reported whole. A peer's reference leads to the pre-shared key of its own section.
-/

set_option autoImplicit false

namespace OpsMaxx.Wg

open Machine.Reporting
open Store (JsMap)
open Strings

variable {other : Text → Text} {s t : Ctx}

/-! ## All the peers -/

/-- A section is left out for want of an endpoint, or its peer comes first. -/
theorem peers_cons {sec : Section} {rest : List Section} {keys : JsMap Text Text}
    {out : List WireGuardPeer × JsMap Text Text}
    (h : Gives (buildPeers other (sec :: rest) keys) s out t) :
    ∃ pub, sec.values.get "publickey".toList = some pub ∧
      (hasEndpoint sec.values.get = false ∧
          Gives (buildPeers other rest keys)
            { s with stripped :=
                s.stripped ++ [removed "Peer".toList (undialable (trim pub.value))] } out t ∨
        hasEndpoint sec.values.get = true ∧ ∃ p others u,
          PeerCarried other sec.values.get u.stripped p ∧ s.stripped ⊆ u.stripped ∧
          u.warnings = s.warnings ∧
          Gives (buildPeers other rest
            (withKey keys (trim pub.value) (presharedKeyOf sec.values.get))) u others t ∧
          out = (p :: others.1, others.2)) := by
  unfold buildPeers at h
  obtain ⟨publicKey, u, hkey, h⟩ := gives_bind.mp h
  obtain ⟨pub, hpub, hcarry⟩ := gives_required.mp hkey
  obtain ⟨-, rfl, rfl⟩ := gives_carryKey.mp hcarry
  refine ⟨pub, hpub, ?_⟩
  obtain ⟨hnone, hleft⟩ | ⟨endpoint, hend, hbuild⟩ := gives_given.mp h
  · left
    obtain ⟨_, v, hdrop, hrest⟩ := gives_bind.mp hleft
    obtain rfl := gives_drop.mp hdrop
    exact ⟨by rw [hasEndpoint, hnone]; rfl, hrest⟩
  · right
    obtain ⟨built, v, hpeer, hothers⟩ := gives_bind.mp hbuild
    obtain ⟨others, w, hrest, hpure⟩ := gives_bind.mp hothers
    obtain ⟨rfl, rfl⟩ := gives_pure.mp hpure
    obtain ⟨hcarried, hkeys, hkept, hwarn⟩ := peer_of_gives hpub hend hpeer
    rw [hkeys] at hrest
    exact ⟨by rw [hasEndpoint, hend]; rfl, built.1, others, v, hcarried, hkept, hwarn, hrest, rfl⟩

theorem peers_kept {secs : List Section} {keys : JsMap Text Text}
    {out : List WireGuardPeer × JsMap Text Text}
    (h : Gives (buildPeers other secs keys) s out t) :
    s.stripped ⊆ t.stripped ∧ t.warnings = s.warnings := by
  induction secs generalizing s keys out with
  | nil =>
    obtain ⟨-, rfl⟩ := gives_pure.mp h
    exact ⟨fun _ hd => hd, rfl⟩
  | cons sec rest ih =>
    obtain ⟨pub, hpub, ⟨-, hrest⟩ | ⟨-, p, others, u, -, hkept, hwarn, hrest, -⟩⟩ := peers_cons h
    · obtain ⟨hkept, hwarn⟩ := ih hrest
      exact ⟨fun d hd => hkept (List.mem_append_left _ hd), hwarn⟩
    · obtain ⟨hkept', hwarn'⟩ := ih hrest
      exact ⟨fun d hd => hkept' (hkept hd), hwarn'.trans hwarn⟩

/-- The peers are those of the sections with an endpoint, in their order. -/
theorem peers_carried {secs : List Section} {keys : JsMap Text Text}
    {out : List WireGuardPeer × JsMap Text Text}
    (h : Gives (buildPeers other secs keys) s out t) :
    List.Forall₂ (fun sec p => PeerCarried other sec.values.get t.stripped p)
      (secs.filter fun sec => hasEndpoint sec.values.get) out.1 := by
  induction secs generalizing s keys out with
  | nil =>
    obtain ⟨rfl, -⟩ := gives_pure.mp h
    exact .nil
  | cons sec rest ih =>
    obtain ⟨pub, hpub, ⟨hnone, hrest⟩ | ⟨hend, p, others, u, hcarried, -, -, hrest, rfl⟩⟩ :=
      peers_cons h
    · rw [List.filter_cons_of_neg (by simp [hnone])]
      exact ih hrest
    · rw [List.filter_cons, if_pos hend]
      exact .cons (hcarried.mono (peers_kept hrest).1) (ih hrest)

theorem undialable_reported {secs : List Section} {keys : JsMap Text Text}
    {out : List WireGuardPeer × JsMap Text Text}
    (h : Gives (buildPeers other secs keys) s out t) :
    ∀ sec ∈ secs, hasEndpoint sec.values.get = false →
      ∃ key, publicKeyOf sec.values.get = some key ∧
        removed "Peer".toList (undialable key) ∈ t.stripped := by
  induction secs generalizing s keys out with
  | nil => simp
  | cons sec rest ih =>
    rw [List.forall_mem_cons]
    obtain ⟨pub, hpub, ⟨hnone, hrest⟩ | ⟨hend, p, others, u, -, -, -, hrest, rfl⟩⟩ := peers_cons h
    · refine ⟨fun _ => ⟨trim pub.value, by rw [publicKeyOf, hpub]; rfl, ?_⟩, ih hrest⟩
      exact (peers_kept hrest).1 (by simp)
    · refine ⟨fun hnone => ?_, ih hrest⟩
      rw [hend] at hnone
      cases hnone

/-! ## Pre-shared keys -/

/-- The sections of a public key that have a pre-shared key all have this one. -/
def Agrees (gets : List (Text → Option Entry)) (key psk : Text) : Prop :=
  ∀ get ∈ gets, publicKeyOf get = some key → ∀ v, presharedKeyOf get = some v → v = psk

theorem get_withKey {keys : JsMap Text Text} {key k : Text} {psk : Option Text} :
    (withKey keys key psk).get k = if k = key ∧ psk.isSome then psk else keys.get k := by
  unfold withKey
  cases psk with
  | none => simp
  | some v => simp [JsMap.get_set]

def getsOf (secs : List Section) : List (Text → Option Entry) :=
  (secs.filter fun sec => hasEndpoint sec.values.get).map fun sec => sec.values.get

theorem getsOf_cons {sec : Section} {rest : List Section} (h : hasEndpoint sec.values.get = true) :
    getsOf (sec :: rest) = sec.values.get :: getsOf rest := by
  unfold getsOf
  rw [List.filter_cons, if_pos h, List.map_cons]

theorem getsOf_skip {sec : Section} {rest : List Section} (h : hasEndpoint sec.values.get = false) :
    getsOf (sec :: rest) = getsOf rest := by
  unfold getsOf
  rw [List.filter_cons_of_neg (by simp [h])]

/-- A key that is in the record stays while no section has another one. -/
theorem key_stays {secs : List Section} {keys : JsMap Text Text}
    {out : List WireGuardPeer × JsMap Text Text} {key psk : Text}
    (h : Gives (buildPeers other secs keys) s out t) (hget : keys.get key = some psk)
    (hagree : Agrees (getsOf secs) key psk) : out.2.get key = some psk := by
  induction secs generalizing s keys out with
  | nil =>
    obtain ⟨rfl, -⟩ := gives_pure.mp h
    exact hget
  | cons sec rest ih =>
    obtain ⟨pub, hpub, ⟨hnone, hrest⟩ | ⟨hend, p, others, u, -, -, -, hrest, rfl⟩⟩ := peers_cons h
    · rw [getsOf_skip hnone] at hagree
      exact ih hrest hget hagree
    · rw [getsOf_cons hend] at hagree
      show others.2.get key = some psk
      refine ih hrest ?_ fun get hmem => hagree get (List.mem_cons_of_mem _ hmem)
      rw [get_withKey]
      split_ifs with hset
      · obtain ⟨hkey, hsome⟩ := hset
        obtain ⟨v, hv⟩ := Option.isSome_iff_exists.mp hsome
        have hown : publicKeyOf sec.values.get = some key := by
          rw [publicKeyOf, hpub, hkey]
          rfl
        rw [hv, hagree _ List.mem_cons_self hown v hv]
      · exact hget

/-- The key of a section is in the record while no section has another one. -/
theorem key_found {secs : List Section} {keys : JsMap Text Text}
    {out : List WireGuardPeer × JsMap Text Text} {key psk : Text}
    (h : Gives (buildPeers other secs keys) s out t) {get : Text → Option Entry}
    (hmem : get ∈ getsOf secs) (hkey : publicKeyOf get = some key)
    (hpsk : presharedKeyOf get = some psk) (hagree : Agrees (getsOf secs) key psk) :
    out.2.get key = some psk := by
  induction secs generalizing s keys out with
  | nil => cases hmem
  | cons sec rest ih =>
    obtain ⟨pub, hpub, ⟨hnone, hrest⟩ | ⟨hend, p, others, u, -, -, -, hrest, rfl⟩⟩ := peers_cons h
    · rw [getsOf_skip hnone] at hmem hagree
      exact ih hrest hmem hagree
    · rw [getsOf_cons hend] at hmem hagree
      have hrestAgree : Agrees (getsOf rest) key psk :=
        fun g hg => hagree g (List.mem_cons_of_mem _ hg)
      show others.2.get key = some psk
      obtain rfl | hlater := List.mem_cons.mp hmem
      · refine key_stays hrest ?_ hrestAgree
        have hpubkey : key = trim pub.value := by
          rw [publicKeyOf, hpub] at hkey
          exact (Option.some.inj hkey).symm
        rw [get_withKey, hpsk, if_pos ⟨hpubkey, rfl⟩]
      · exact ih hrest hlater hrestAgree

/-! ## The file and its import -/

def Block.value (b : Block) (key : Text) : Option Entry := (b.last key).map Setting.entry

variable (other) in
/-- The peers that can be dialled. -/
def dialable (text : Text) : List Block :=
  (blocks other text).filter fun b => b.name = .peer && hasEndpoint b.value

def Imported.interface (r : Imported) : Interface :=
  ⟨r.secrets.privateKey, r.spec.addresses, r.spec.dns, r.spec.mtu⟩

/-- The secret that the reference of a peer leads to. -/
def resolve (r : Imported) (p : WireGuardPeer) : Option Text := do
  let ref ← p.presharedKeyRef
  let fieldKey ← ref.fieldKey
  let presharedKeys ← r.secrets.presharedKeys
  presharedKeys.get fieldKey

variable (other) in
structure Complete (text : Text) (r : Imported) : Prop where
  /-- Every setting stands in a section. -/
  lines : settings other text = (blocks other text).flatMap Block.settings
  hooks : ∀ s ∈ settings other text, isHook s.key = false
  /-- Of a key that is set more than once, the values that lost are named. -/
  named : ∀ b ∈ blocks other text, ∀ s ∈ b.settings,
    b.last s.key = some s ∨ Replaced r.warnings b s
  interface : ∃ b, (blocks other text).filter (fun b => b.name = .interface) = [b] ∧
    InterfaceCarried b.value r.stripped r.interface
  peers : List.Forall₂ (fun b p => PeerCarried other b.value r.stripped p)
    (dialable other text) r.spec.peers
  undialable : ∀ b ∈ blocks other text, b.name = .peer → hasEndpoint b.value = false →
    ∃ key, publicKeyOf b.value = some key ∧
      removed "Peer".toList (Wg.undialable key) ∈ r.stripped
  /-- A reference leads to the key of its section, if all the peers with this public key have the
  same one. -/
  preshared : List.Forall₂ (fun b p => ∀ psk, presharedKeyOf b.value = some psk →
      Agrees ((dialable other text).map Block.value) p.publicKey psk → resolve r p = some psk)
    (dialable other text) r.spec.peers

theorem ReadAs.get_eq {w : List Text} {n : Nat} {b : Block} {sec : Section}
    (h : ReadAs w n b sec) : sec.values.get = b.value := by
  funext key
  exact h.values key

theorem filter_readAs {w : List Text} {n : Nat} {bs : List Block} {secs : List Section}
    (h : List.Forall₂ (ReadAs w n) bs secs) {p : Block → Bool} {q : Section → Bool}
    (hpq : ∀ b sec, ReadAs w n b sec → p b = q sec) :
    List.Forall₂ (ReadAs w n) (bs.filter p) (secs.filter q) := by
  induction h with
  | nil => exact .nil
  | @cons b sec bs secs hb hrest ih =>
    rw [List.filter_cons, List.filter_cons, hpq b sec hb]
    split_ifs
    · exact .cons hb ih
    · exact ih

theorem map_value {w : List Text} {n : Nat} {bs : List Block} {secs : List Section}
    (h : List.Forall₂ (ReadAs w n) bs secs) :
    bs.map Block.value = secs.map fun sec => sec.values.get := by
  induction h with
  | nil => rfl
  | cons hb _ ih => rw [List.map_cons, List.map_cons, ih, hb.get_eq]

theorem forall₂_through {α β γ : Type} {R : α → β → Prop} {S : β → γ → Prop} {T : α → γ → Prop}
    (hRS : ∀ a b c, R a b → S b c → T a c) {as : List α} {bs : List β} {cs : List γ}
    (h : List.Forall₂ R as bs) (h' : List.Forall₂ S bs cs) : List.Forall₂ T as cs := by
  induction h generalizing cs with
  | nil =>
    cases h'
    exact .nil
  | cons hab _ ih =>
    cases h' with
    | cons hbc hrest => exact .cons (hRS _ _ _ hab hbc) (ih hrest)

theorem forall₂_mem {α β : Type} {R : α → β → Prop} {as : List α} {bs : List β}
    (h : List.Forall₂ R as bs) : List.Forall₂ (fun a b => a ∈ as ∧ R a b) as bs := by
  induction h with
  | nil => exact .nil
  | cons hab _ ih =>
    exact .cons ⟨List.mem_cons_self, hab⟩ (ih.imp fun _ _ h => ⟨List.mem_cons_of_mem _ h.1, h.2⟩)

theorem forall₂_left {α β : Type} {R : α → β → Prop} {as : List α} {bs : List β}
    (h : List.Forall₂ R as bs) {a : α} (ha : a ∈ as) : ∃ b ∈ bs, R a b := by
  induction h with
  | nil => cases ha
  | cons hab _ ih =>
    obtain rfl | ha := List.mem_cons.mp ha
    · exact ⟨_, List.mem_cons_self, hab⟩
    · obtain ⟨b, hb, hr⟩ := ih ha
      exact ⟨b, List.mem_cons_of_mem _ hb, hr⟩

theorem filter_interface {sections : List Section} {iface : Section}
    (hfind : sections.find? (fun s => s.name = .interface) = some iface)
    (hsingle : sections.countP (fun s => s.name = .interface) ≤ 1) :
    sections.filter (fun s => s.name = .interface) = [iface] := by
  rw [List.countP_eq_length_filter] at hsingle
  rw [← List.head?_filter] at hfind
  cases hf : sections.filter (fun s => s.name = .interface) with
  | nil =>
    rw [hf] at hfind
    cases hfind
  | cons s rest =>
    rw [hf] at hfind hsingle
    rw [List.length_cons] at hsingle
    have hrest : rest = [] := List.length_eq_zero_iff.mp (by omega)
    rw [hrest, Option.some.inj hfind]

/-- The reference of a peer that is carried across leads to what the record has. -/
theorem resolve_of_get {i : Interface} {peers : List WireGuardPeer} {keys : JsMap Text Text}
    {ctx : Ctx} {get : Text → Option Entry} {d : List StrippedDirective} {p : WireGuardPeer}
    {psk : Text} (hp : PeerCarried other get d p) (hpsk : presharedKeyOf get = some psk)
    (hget : keys.get p.publicKey = some psk) :
    resolve (imported i peers keys ctx) p = some psk := by
  obtain ⟨e, he, -⟩ := Option.map_eq_some_iff.mp hpsk
  have hne : keys.entries ≠ [] := by
    intro hnil
    rw [JsMap.get, hnil] at hget
    cases hget
  rw [resolve, hp.preshared, he]
  simp [presharedRef, imported, hne, hget]

theorem complete_of_gives {hostHasIpv6 : Bool} {text : Text} {r : Imported}
    (h : Gives (build other hostHasIpv6 text) ⟨[], []⟩ r t) : Complete other text r := by
  obtain ⟨sections, s₁, hread, hbuild⟩ := gives_bind.mp h
  obtain ⟨habove, -, hsections⟩ := sections_of_gives hread
  have hsingle := single_of_gives hread (Nat.zero_le 1)
  cases hiface : sections.find? fun s => s.name = .interface with
  | none =>
    rw [hiface] at hbuild
    exact absurd hbuild not_gives_throw
  | some iface =>
    rw [hiface] at hbuild
    obtain ⟨_, s₂, hpeers, hbuild⟩ := gives_bind.mp hbuild
    obtain ⟨i, s₃, hinterface, hbuild⟩ := gives_bind.mp hbuild
    obtain ⟨built, s₄, hbuilt, hbuild⟩ := gives_bind.mp hbuild
    obtain ⟨_, s₅, hsome, hbuild⟩ := gives_bind.mp hbuild
    obtain ⟨_, s₆, hwarn, hbuild⟩ := gives_bind.mp hbuild
    obtain ⟨ctx, s₇, hget, hpure⟩ := gives_bind.mp hbuild
    obtain ⟨rfl, rfl⟩ := gives_get.mp hget
    obtain ⟨rfl, rfl⟩ := gives_pure.mp hpure
    obtain ⟨-, rfl⟩ := gives_demand.mp hpeers
    obtain ⟨-, rfl⟩ := gives_demand.mp hsome
    obtain ⟨hcarried, -, hwarnings⟩ := interface_of_gives hinterface
    obtain ⟨hkept, hwarnings'⟩ := peers_kept hbuilt
    obtain ⟨hstripped, hwarned⟩ := endWarnings_kept hwarn
    have hdialable : List.Forall₂ (ReadAs s₁.warnings (1 + (linesOf text).length))
        (dialable other text)
        ((sections.filter fun s => s.name = .peer).filter fun s => hasEndpoint s.values.get) := by
      rw [List.filter_filter]
      refine filter_readAs hsections fun b sec hb => ?_
      rw [hb.get_eq, hb.name, Bool.and_comm]
    have hgets : (dialable other text).map Block.value =
        getsOf (sections.filter fun s => s.name = .peer) := map_value hdialable
    have hpeerSections : List.Forall₂ (ReadAs s₁.warnings (1 + (linesOf text).length))
        ((blocks other text).filter fun b => b.name = .peer)
        (sections.filter fun s => s.name = .peer) :=
      filter_readAs hsections fun b sec hb => by rw [hb.name]
    have hmem : ∀ b ∈ blocks other text, ∃ sec ∈ sections,
        ReadAs s₁.warnings (1 + (linesOf text).length) b sec := fun b hb =>
      forall₂_left hsections hb
    have hlines : settings other text = (blocks other text).flatMap Block.settings := by
      rw [settings, settingsFrom_blocks, habove]
      rfl
    refine ⟨hlines, ?_, ?_, ?_, ?_, ?_, ?_⟩
    · intro s hs
      rw [hlines] at hs
      obtain ⟨b, hb, hsb⟩ := List.mem_flatMap.mp hs
      obtain ⟨sec, -, hreadAs⟩ := hmem b hb
      exact hreadAs.hooks s hsb
    · intro b hb s hs
      obtain ⟨sec, -, hreadAs⟩ := hmem b hb
      have hall : s₁.warnings ⊆ s₆.warnings := by
        intro w hw
        apply hwarned
        rw [hwarnings', hwarnings]
        exact hw
      exact (hreadAs.mono hall le_rfl).named s hs
    · have hinterfaces := filter_readAs hsections
        (p := fun b => b.name = .interface) (q := fun s => s.name = .interface)
        fun b sec hb => by rw [hb.name]
      rw [filter_interface hiface hsingle] at hinterfaces
      obtain ⟨b, bs, hb, hnil, hfilter⟩ := List.forall₂_cons_right_iff.mp hinterfaces
      rw [List.forall₂_nil_right_iff.mp hnil] at hfilter
      refine ⟨b, hfilter, ?_⟩
      rw [← hb.get_eq]
      apply hcarried.mono
      intro d hd
      show d ∈ s₆.stripped
      rw [hstripped]
      exact hkept hd
    · refine forall₂_through (fun b sec p hb hp => ?_) hdialable (peers_carried hbuilt)
      rw [← hb.get_eq]
      apply hp.mono
      intro d hd
      show d ∈ s₆.stripped
      rw [hstripped]
      exact hd
    · intro b hb hname hend
      have hb' : b ∈ (blocks other text).filter fun b => b.name = .peer :=
        List.mem_filter.mpr ⟨hb, by simpa using hname⟩
      obtain ⟨sec, hsec, hreadAs⟩ := forall₂_left hpeerSections hb'
      rw [← hreadAs.get_eq] at hend ⊢
      obtain ⟨key, hkey, hreported⟩ := undialable_reported hbuilt sec hsec hend
      refine ⟨key, hkey, ?_⟩
      show _ ∈ s₆.stripped
      rw [hstripped]
      exact hreported
    · refine forall₂_through (fun b sec p hb hp psk hpsk hagree => ?_) hdialable
        (forall₂_mem (peers_carried hbuilt))
      rw [← hb.get_eq] at hpsk
      rw [hgets] at hagree
      obtain ⟨hsec, hp⟩ := hp
      obtain ⟨e, he, hkey⟩ := hp.publicKey
      apply resolve_of_get hp hpsk
      refine key_found hbuilt (List.mem_map.mpr ⟨sec, hsec, rfl⟩) ?_ hpsk hagree
      rw [publicKeyOf, he, hkey]
      rfl

variable (other) in
theorem parseWgConf_complete {hostHasIpv6 : Bool} {text : Text} {r : Imported}
    (h : parseWgConf other hostHasIpv6 text = .ok r) : Complete other text r := by
  unfold parseWgConf at h
  split at h
  · rename_i r' ctx hbuild
    cases h
    exact complete_of_gives hbuild
  · cases h


def keyOf (c : Char) : Text := c :: (List.replicate 42 'A' ++ ['='])

/-- A file with one peer, and what follows it. -/
def pasted (more : List Text) : Text :=
  unlines (["[Interface]".toList, "PrivateKey = ".toList ++ keyOf 'A', "Address = 10.0.0.2".toList,
    "[Peer]".toList, "PublicKey = ".toList ++ keyOf 'B', "Endpoint = a:1".toList,
    "AllowedIPs = 10.0.0.0/8".toList, "PresharedKey = ".toList ++ keyOf 'C'] ++ more)

def accepts (text : Text) (p : Imported → Bool) : Bool :=
  match parseWgConf Strings.toLowerCase false text with
  | .ok r => p r
  | .failed _ _ _ => false

theorem of_accepts {text : Text} {p : Imported → Bool} (h : accepts text p = true) :
    ∃ r, parseWgConf Strings.toLowerCase false text = .ok r ∧ p r = true := by
  unfold accepts at h
  split at h
  · rename_i r hr
    exact ⟨r, hr, h⟩
  · cases h

theorem parseWgConf_complete_pasted :
    ∃ r, parseWgConf Strings.toLowerCase false (pasted []) = .ok r ∧
      Complete Strings.toLowerCase (pasted []) r := by
  have haccepts : accepts (pasted []) (fun _ => true) = true := by decide +kernel
  obtain ⟨r, hr, -⟩ := of_accepts haccepts
  exact ⟨r, hr, parseWgConf_complete Strings.toLowerCase hr⟩

/-- A peer without an endpoint. -/
def undialled : Text :=
  pasted ["[Peer]".toList, "PublicKey = ".toList ++ keyOf 'D', "AllowedIPs = 10.9.0.0/16".toList]

/-- A peer with the public key of the first one. -/
def repeated : Text :=
  pasted ["[Peer]".toList, "PublicKey = ".toList ++ keyOf 'B', "Endpoint = b:1".toList,
    "AllowedIPs = 10.9.0.0/16".toList, "PresharedKey = ".toList ++ keyOf 'E']

/-- The networks of a peer that cannot be dialled are nowhere. Of two peers with one public key, the
reference of the first leads to the pre-shared key of the second. -/
theorem parseWgConf_loses :
    (∃ r, parseWgConf Strings.toLowerCase false undialled = .ok r ∧
      (∃ s ∈ settings Strings.toLowerCase undialled,
        s.key = "allowedips".toList ∧ s.value = "10.9.0.0/16".toList) ∧
      r.warnings = [] ∧
      r.stripped = [removed "Peer".toList (undialable (keyOf 'D'))] ∧
      r.spec.peers.map WireGuardPeer.allowedIps = [["10.0.0.0/8".toList]] ∧
      r.spec.addresses = ["10.0.0.2/32".toList] ∧ r.spec.dns = []) ∧
    ∃ r, parseWgConf Strings.toLowerCase false repeated = .ok r ∧
      (blocks Strings.toLowerCase repeated).map (fun b => presharedKeyOf b.value) =
        [none, some (keyOf 'C'), some (keyOf 'E')] ∧
      r.spec.peers.head?.bind (resolve r) = some (keyOf 'E') := by
  constructor
  · have hlost : accepts undialled (fun r => r.warnings = [] ∧
        r.stripped = [removed "Peer".toList (undialable (keyOf 'D'))] ∧
        r.spec.peers.map WireGuardPeer.allowedIps = [["10.0.0.0/8".toList]] ∧
        r.spec.addresses = ["10.0.0.2/32".toList] ∧ r.spec.dns = []) = true := by decide +kernel
    obtain ⟨r, hr, hp⟩ := of_accepts hlost
    exact ⟨r, hr, by decide +kernel, of_decide_eq_true hp⟩
  · have hmixed : accepts repeated (fun r => r.spec.peers.head?.bind (resolve r) =
        some (keyOf 'E')) = true := by decide +kernel
    obtain ⟨r, hr, hp⟩ := of_accepts hmixed
    have hsecret := of_decide_eq_true hp
    refine ⟨r, hr, ?_, hsecret⟩
    decide +kernel

end OpsMaxx.Wg
