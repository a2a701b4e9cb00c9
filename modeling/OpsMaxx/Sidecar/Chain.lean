import OpsMaxx.Sidecar.Roster

/-! # What a verified chain says about its epochs

In a chain that verifies, the epoch goes up by one at each transition and stays put everywhere
else. So an epoch after the first is announced by exactly one entry, and the signing key the
verification ends with is the one that entry names.
-/

set_option autoImplicit false

namespace OpsMaxx.Sidecar

/-! ## Checks that passed -/

theorem except_bind_ok {ε α β : Type} {x : Except ε α} {f : α → Except ε β} {b : β}
    (h : (x >>= f) = .ok b) : ∃ a, x = .ok a ∧ f a = .ok b := by
  cases x with
  | error e => cases h
  | ok a => exact ⟨a, rfl, h⟩

theorem refuseUnless_ok {p : Bool} {e : WireErr} {u : Unit} (h : refuseUnless p e = .ok u) :
    p = true := by
  unfold refuseUnless at h
  split_ifs at h with hp
  exact hp

/-- What the entry at place `i` of a chain passed, and where it left the scan. -/
structure Accepted (C : Crypto) (acct : Bytes) (rootSignPub : Option Bytes) (i : Nat) (e : Entry)
    (s s' : Scan) : Prop where
  account : e.accountID = acct
  seq : e.seq = UInt64.ofNat i
  linked : i = 0 ∨ e.prevHash = s.prev
  epoch : checkEpoch i e s.currentEpoch = .ok ()
  flags : checkFlags e = .ok ()
  signed : ∃ pub body, signerKey rootSignPub s e = .ok pub ∧ e.encode = .ok body
    ∧ C.verify pub body e.sig = true
  current : s'.currentEpoch = e.epoch
  epochSign : s'.epochSign =
    if e.op = .epoch then Function.update s.epochSign e.epoch (some e.pubSign) else s.epochSign

theorem applyOp_epochSign {e : Entry} {s s' : Scan} (h : applyOp e s = .ok s') :
    s'.epochSign =
      if e.op = .epoch then Function.update s.epochSign e.epoch (some e.pubSign)
      else s.epochSign := by
  unfold applyOp at h
  cases hop : e.op with
  | add =>
    simp only [hop, applyAdd] at h
    split_ifs at h
    cases h
    simp
  | revoke =>
    simp only [hop, applyRevoke] at h
    split_ifs at h
    split at h
    · cases h
    · split_ifs at h
      cases h
      simp
  | epoch =>
    simp only [hop, applyEpoch] at h
    split_ifs at h
    cases h
    simp

theorem scanEntry_ok {C : Crypto} {acct : Bytes} {root : Option Bytes} {i : Nat} {e : Entry}
    {s s' : Scan} (h : scanEntry C acct root i e s = .ok s') :
    Accepted C acct root i e s s' := by
  obtain ⟨_, hacct, h⟩ := except_bind_ok h
  obtain ⟨_, hseq, h⟩ := except_bind_ok h
  obtain ⟨_, hlink, h⟩ := except_bind_ok h
  obtain ⟨_, hepoch, h⟩ := except_bind_ok h
  obtain ⟨_, hflags, h⟩ := except_bind_ok h
  obtain ⟨pub, hpub, h⟩ := except_bind_ok h
  obtain ⟨_, _, h⟩ := except_bind_ok h
  obtain ⟨_, _, h⟩ := except_bind_ok h
  obtain ⟨body, hbody, h⟩ := except_bind_ok h
  obtain ⟨_, hverify, h⟩ := except_bind_ok h
  obtain ⟨applied, happlied, h⟩ := except_bind_ok h
  obtain ⟨prev, _, h⟩ := except_bind_ok h
  have hsign := applyOp_epochSign happlied
  cases h
  exact {
    account := by simpa using refuseUnless_ok hacct
    seq := by simpa using refuseUnless_ok hseq
    linked := by simpa using refuseUnless_ok hlink
    epoch := hepoch
    flags := hflags
    signed := ⟨pub, body, hpub, hbody, refuseUnless_ok hverify⟩
    current := rfl
    epochSign := hsign }

/-- After the genesis the epoch stays, or moves by one at a transition. -/
theorem checkEpoch_ok {i : Nat} {e : Entry} {current : UInt64} (hi : i ≠ 0)
    (h : checkEpoch i e current = .ok ()) :
    (e.epoch = current ∧ e.op ≠ .epoch) ∨ (e.epoch = current + 1 ∧ e.op = .epoch) := by
  unfold checkEpoch at h
  rw [if_neg hi] at h
  split_ifs at h with hsame hop hmove
  · exact .inl ⟨hsame, hop⟩
  · exact .inr hmove

/-! ## The scan over a chain -/

/-- What holds of the entries a scan has been through. -/
structure Through (epoch1Sign : Option Bytes) (es : List Entry) (s : Scan) : Prop where
  some : 0 < es.length
  bounded : s.currentEpoch.toNat ≤ es.length
  upTo : ∀ e ∈ es, e.epoch ≤ s.currentEpoch
  rising : es.Pairwise fun a b => b.op = .epoch → a.epoch < b.epoch
  announced : ∀ e ∈ es, e.op = .epoch → s.epochSign e.epoch = .some e.pubSign
  first : s.epochSign 1 = epoch1Sign
  reached : s.currentEpoch = 1 ∨ ∃ e ∈ es, e.op = .epoch ∧ e.epoch = s.currentEpoch
  positive : 1 ≤ s.currentEpoch

theorem through_genesis {C : Crypto} {acct : Bytes} {root epoch1Sign : Option Bytes} {g : Entry}
    {s : Scan} (hop : g.op = .add) (hone : g.epoch = 1)
    (h : Accepted C acct root 0 g (.start epoch1Sign) s) : Through epoch1Sign [g] s := by
  have hcur : s.currentEpoch = 1 := h.current.trans hone
  have hsign : s.epochSign = (Scan.start epoch1Sign).epochSign := by
    rw [h.epochSign, if_neg (by simp [hop])]
  exact {
    some := by simp
    bounded := by simp [hcur]
    upTo := by simp [hcur, hone]
    rising := List.pairwise_singleton _ _
    announced := by simp [hop]
    first := by simp [hsign, Scan.start]
    reached := .inl hcur
    positive := by simp [hcur] }

theorem Through.stay {epoch1Sign : Option Bytes} {es : List Entry} {s s' : Scan} {e : Entry}
    (h : Through epoch1Sign es s) (hepoch : e.epoch = s.currentEpoch) (hop : e.op ≠ .epoch)
    (hcur : s'.currentEpoch = e.epoch) (hsign : s'.epochSign = s.epochSign) :
    Through epoch1Sign (es ++ [e]) s' := by
  have hc : s'.currentEpoch = s.currentEpoch := hcur.trans hepoch
  exact {
    some := by simp
    bounded := by
      have := h.bounded
      simp only [hc, List.length_append, List.length_singleton]
      omega
    upTo := by
      intro a ha
      rw [hc]
      rcases List.mem_append.mp ha with ha | ha
      · exact h.upTo a ha
      · rw [List.mem_singleton.mp ha, hepoch]
        exact UInt64.le_refl _
    rising := by
      apply List.pairwise_append.mpr
      refine ⟨h.rising, List.pairwise_singleton _ _, ?_⟩
      intro a _ b hb hbop
      rw [List.mem_singleton.mp hb] at hbop
      exact absurd hbop hop
    announced := by
      intro a ha haop
      rw [hsign]
      rcases List.mem_append.mp ha with ha | ha
      · exact h.announced a ha haop
      · rw [List.mem_singleton.mp ha] at haop
        exact absurd haop hop
    first := by rw [hsign, h.first]
    reached := by
      rw [hc]
      rcases h.reached with hone | ⟨a, ha, haop, hae⟩
      · exact .inl hone
      · exact .inr ⟨a, List.mem_append_left _ ha, haop, hae⟩
    positive := by
      rw [hc]
      exact h.positive }

theorem Through.move {epoch1Sign : Option Bytes} {es : List Entry} {s s' : Scan} {e : Entry}
    (h : Through epoch1Sign es s) (hfits : es.length + 1 < 2 ^ 64)
    (hepoch : e.epoch = s.currentEpoch + 1) (hop : e.op = .epoch)
    (hcur : s'.currentEpoch = e.epoch)
    (hsign : s'.epochSign = Function.update s.epochSign e.epoch (.some e.pubSign)) :
    Through epoch1Sign (es ++ [e]) s' := by
  have hb := h.bounded
  have hnat : e.epoch.toNat = s.currentEpoch.toNat + 1 := by
    rw [hepoch, UInt64.toNat_add]
    simp only [UInt64.toNat_one]
    omega
  have hlt : s.currentEpoch < e.epoch := by
    rw [UInt64.lt_iff_toNat_lt]
    omega
  have hbelow : ∀ a ∈ es, a.epoch < e.epoch := fun a ha => UInt64.lt_of_le_of_lt (h.upTo a ha) hlt
  exact {
    some := by simp
    bounded := by
      simp only [hcur, List.length_append, List.length_singleton]
      omega
    upTo := by
      intro a ha
      rw [hcur]
      rcases List.mem_append.mp ha with ha | ha
      · exact UInt64.le_of_lt (hbelow a ha)
      · rw [List.mem_singleton.mp ha]
        exact UInt64.le_refl _
    rising := by
      apply List.pairwise_append.mpr
      refine ⟨h.rising, List.pairwise_singleton _ _, ?_⟩
      intro a ha b hb _
      rw [List.mem_singleton.mp hb]
      exact hbelow a ha
    announced := by
      intro a ha haop
      rw [hsign]
      rcases List.mem_append.mp ha with ha | ha
      · rw [Function.update_of_ne (UInt64.ne_of_lt (hbelow a ha))]
        exact h.announced a ha haop
      · rw [List.mem_singleton.mp ha, Function.update_self]
    first := by
      rw [hsign, Function.update_of_ne, h.first]
      exact UInt64.ne_of_lt (UInt64.lt_of_le_of_lt h.positive hlt)
    reached := .inr ⟨e, by simp, hop, hcur.symm⟩
    positive := by
      rw [hcur]
      exact UInt64.le_of_lt (UInt64.lt_of_le_of_lt h.positive hlt) }

theorem Through.step {C : Crypto} {acct : Bytes} {root epoch1Sign : Option Bytes}
    {es : List Entry} {s s' : Scan} {e : Entry} (h : Through epoch1Sign es s)
    (hfits : es.length + 1 < 2 ^ 64) (ha : Accepted C acct root es.length e s s') :
    Through epoch1Sign (es ++ [e]) s' := by
  have hi : es.length ≠ 0 := by
    have := h.some
    omega
  have hsign := ha.epochSign
  rcases checkEpoch_ok hi ha.epoch with ⟨hepoch, hop⟩ | ⟨hepoch, hop⟩
  · rw [if_neg hop] at hsign
    exact h.stay hepoch hop ha.current hsign
  · rw [if_pos hop] at hsign
    exact h.move hfits hepoch hop ha.current hsign

theorem Through.run {C : Crypto} {acct : Bytes} {root epoch1Sign : Option Bytes}
    {es more : List Entry} {s s' : Scan} (h : Through epoch1Sign es s)
    (hfits : es.length + more.length < 2 ^ 64)
    (hscan : scanFrom C acct root es.length more s = .ok s') :
    Through epoch1Sign (es ++ more) s' := by
  induction more generalizing es s with
  | nil =>
    cases hscan
    simpa using h
  | cons e more ih =>
    obtain ⟨mid, hmid, hrest⟩ := except_bind_ok hscan
    simp only [List.length_cons] at hfits
    have hstep := h.step (by omega) (scanEntry_ok hmid)
    have := ih hstep (by simp only [List.length_append, List.length_singleton]; omega)
      (by simpa using hrest)
    simpa using this

/-! ## The verification as a whole -/

/-- What a verified chain's entries say, next to what the verification returned. -/
structure Attested (epoch1Sign : Option Bytes) (es : List Entry) (v : Verified) : Prop where
  /-- An epoch is announced at most once. -/
  once : ∀ a ∈ es, ∀ b ∈ es, a.op = .epoch → b.op = .epoch → a.epoch = b.epoch → a = b
  /-- The key of the last epoch is the one its entry names, or the first epoch's. -/
  named : (v.epoch = 1 ∧ v.epochSign = epoch1Sign) ∨
    ∃ e ∈ es, e.op = .epoch ∧ e.epoch = v.epoch ∧ v.epochSign = some e.pubSign

theorem once_of_rising {es : List Entry}
    (h : es.Pairwise fun a b => b.op = .epoch → a.epoch < b.epoch) :
    ∀ a ∈ es, ∀ b ∈ es, a.op = .epoch → b.op = .epoch → a.epoch = b.epoch → a = b := by
  induction es with
  | nil => simp
  | cons e es ih =>
    obtain ⟨hhead, htail⟩ := List.pairwise_cons.mp h
    intro a ha b hb haop hbop heq
    rcases List.mem_cons.mp ha with hae | ha' <;> rcases List.mem_cons.mp hb with hbe | hb'
    · rw [hae, hbe]
    · rw [hae] at heq
      exact absurd heq (UInt64.ne_of_lt (hhead b hb' hbop))
    · rw [hbe] at heq
      exact absurd heq.symm (UInt64.ne_of_lt (hhead a ha' haop))
    · exact ih htail a ha' b hb' haop hbop heq

theorem verifyEntries_attested {C : Crypto} {es : List Entry} {acct : Bytes}
    {root epoch1Sign : Option Bytes} {pin : Option Pin} {v : Verified}
    (hfits : es.length < 2 ^ 64) (h : verifyEntries C es acct root epoch1Sign pin = .ok v) :
    Attested epoch1Sign es v := by
  cases es with
  | nil => cases h
  | cons g rest =>
    obtain ⟨_, hgenesis, h⟩ := except_bind_ok h
    obtain ⟨_, _, h⟩ := except_bind_ok h
    obtain ⟨_, _, h⟩ := except_bind_ok h
    obtain ⟨_, _, h⟩ := except_bind_ok h
    obtain ⟨s, hscan, h⟩ := except_bind_ok h
    obtain ⟨_, _, h⟩ := except_bind_ok h
    cases h
    have hg := refuseUnless_ok hgenesis
    simp only [Bool.decide_and, Bool.and_eq_true, decide_eq_true_eq] at hg
    obtain ⟨_, hop, hone, _⟩ := hg
    obtain ⟨s₁, hs₁, hrest⟩ := except_bind_ok hscan
    have hfirst := through_genesis hop hone (scanEntry_ok hs₁)
    have hall : Through epoch1Sign (g :: rest) s := by
      refine hfirst.run ?_ hrest
      simp only [List.length_cons, List.length_nil] at hfits ⊢
      omega
    exact {
      once := once_of_rising hall.rising
      named := by
        rcases hall.reached with hcur | ⟨e, he, heop, heepoch⟩
        · exact .inl ⟨hcur, by simp only [hcur, hall.first]⟩
        · refine .inr ⟨e, he, heop, heepoch, ?_⟩
          simp only [← heepoch]
          exact hall.announced e he heop }

theorem verifyChain_attested {C : Crypto} {raw acct : Bytes} {root epoch1Sign : Option Bytes}
    {pin : Option Pin} {v : Verified} (hfits : raw.length < 2 ^ 64)
    (h : verifyChain C raw acct root epoch1Sign pin = .ok v) :
    ∃ es, entriesOf raw = .ok es ∧ Attested epoch1Sign es v := by
  obtain ⟨es, hes, hv⟩ := except_bind_ok h
  have hlen := entriesFrom_length hes
  exact ⟨es, hes, verifyEntries_attested (by omega) hv⟩

end OpsMaxx.Sidecar
