import OpsMaxx.Sidecar.Mail

/-! # A mail is delivered at most once

The memory of an opened mail lasts as long as the window of the request that opened it. A later
request may name a longer window, and then a mail that was forgotten is still young enough.
-/

set_option autoImplicit false

namespace OpsMaxx.Sidecar
open OpsMaxx.Machine

/-! ## What is promised -/

/-- The signer is one of the devices the request lists. -/
def Offer.Lists (o : Offer) (m : Mail) : Prop :=
  ∃ p, o.params = some p ∧ hexEncode m.sender ∈ p.senders

/-- The signed time is at most the asked age behind the clock and at most five minutes ahead. -/
def Offer.InTime (o : Offer) (m : Mail) : Prop :=
  ∃ p, o.params = some p ∧ o.now ≤ (m.ts.toNat + p.maxAgeMs.toNat) * 1000000 ∧
    m.ts.toNat * 1000000 ≤ o.now + 5 * 60 * 1000000000

def DeliveredAtMostOnce (C : Crypto) (offers : List Offer) : Prop :=
  ((deliveries C (fun _ => none) offers).map fun d => (d.2.sender, d.2.nonce)).Nodup ∧
    ∀ d ∈ deliveries C (fun _ => none) offers, d.1.Lists d.2 ∧ d.1.InTime d.2

/-- What a request has to be for its mail to be opened, were nothing opened before. -/
structure Acceptable (C : Crypto) (o : Offer) (m : Mail) : Prop where
  opens : mailOf C o = some m
  loaded : o.vault.loaded = true
  listed : o.Lists m
  window : ∃ p, o.params = some p ∧ 0 < durationOfMs p.maxAgeMs ∧
    durationOfMs p.maxAgeMs ≤ mailMaxAge ∧ sub o.now (unixMilli m.ts) ≤ durationOfMs p.maxAgeMs
  notAhead : unixMilli m.ts ≤ o.now + mailFutureSkew

def SameMail (m m' : Mail) : Prop := m.sender = m'.sender ∧ m.nonce = m'.nonce

/-- No request before this one was acceptable and for the same mail. -/
def FirstOffer (C : Crypto) (before : List Offer) (m : Mail) : Prop :=
  ∀ b ∈ before, ∀ m', Acceptable C b m' → ¬ SameMail m' m

/-- For the first acceptable request of each mail: no other one comes after the memory of it has run
out, and the time it was signed at is one a signed clock can show. -/
def MemoryOutlasts (C : Crypto) (offers : List Offer) : Prop :=
  ∀ before o behind m, offers = before ++ o :: behind → Acceptable C o m →
    FirstOffer C before m → m.ts.toNat < 2 ^ 63 ∧
      ∀ o' ∈ behind, ∀ m', Acceptable C o' m' → SameMail m' m → o'.now ≤ rememberedUntil o m

/-! ## Names of mails -/

theorem hexChar_inj : ∀ n < 16, ∀ k < 16, hexChar n = hexChar k → n = k := by
  decide

theorem hexEncode_cons (x : UInt8) (b : Bytes) :
    hexEncode (x :: b) = hexChar (x.toNat / 16) :: hexChar (x.toNat % 16) :: hexEncode b :=
  rfl

theorem hexEncode_length (b : Bytes) : (hexEncode b).length = 2 * b.length := by
  induction b with
  | nil => rfl
  | cons x b ih =>
    rw [hexEncode_cons, List.length_cons, List.length_cons, ih, List.length_cons]
    omega

theorem hexEncode_inj {a b : Bytes} (h : hexEncode a = hexEncode b) : a = b := by
  induction a generalizing b with
  | nil =>
    have hlen := congrArg List.length h
    rw [hexEncode_length, hexEncode_length] at hlen
    rw [List.length_nil] at hlen
    exact (List.eq_nil_of_length_eq_zero (by omega)).symm
  | cons x a ih =>
    cases b with
    | nil =>
      have hlen := congrArg List.length h
      rw [hexEncode_length, hexEncode_length] at hlen
      simp at hlen
    | cons y b =>
      rw [hexEncode_cons, hexEncode_cons] at h
      injection h with hhigh h
      injection h with hlow h
      have hx := x.toNat_lt
      have hy := y.toNat_lt
      have h₁ := hexChar_inj _ (by omega) _ (by omega) hhigh
      have h₂ := hexChar_inj _ (by omega) _ (by omega) hlow
      have hxy : x.toNat = y.toNat := by omega
      rw [UInt8.toNat_inj.mp hxy, ih h]

theorem decode_fixed_length {n : Nat} {b p rest : Bytes} (h : Decoder.fixed n b = .ok (p, rest)) :
    p.length = n := by
  unfold Decoder.fixed Decoder.take at h
  split_ifs at h with hlen
  cases h
  rw [List.length_take]
  omega

theorem decodeMailPlaintext_sender {b rest : Bytes} {f : Bytes × Bytes × UInt64 × Bytes × Bytes}
    (h : decodeMailPlaintext b = .ok (f, rest)) : f.1.length = publicKeySize := by
  obtain ⟨_, _, -, h⟩ := Decoder.bind_ok h
  obtain ⟨sender, _, hsender, h⟩ := Decoder.bind_ok h
  obtain ⟨_, _, -, h⟩ := Decoder.bind_ok h
  obtain ⟨_, _, -, h⟩ := Decoder.bind_ok h
  obtain ⟨_, _, -, h⟩ := Decoder.bind_ok h
  obtain ⟨_, _, -, h⟩ := Decoder.bind_ok h
  obtain ⟨_, _, -, h⟩ := Decoder.bind_ok h
  cases h
  exact decode_fixed_length hsender

theorem openMail_sender {C : Crypto} {object acct kind self recipient payload : Bytes} {m : Mail}
    (h : openMail C object acct kind self recipient = .ok (m, payload)) :
    m.sender.length = publicKeySize := by
  unfold openMail at h
  split at h
  · cases h
  · split_ifs at h
    split at h
    · cases h
    · unfold readPlaintext at h
      split at h
      · cases h
      · rename_i hplain
        simp only at h
        split_ifs at h
        cases h
        exact decodeMailPlaintext_sender hplain

theorem mailOf_sender {C : Crypto} {o : Offer} {m : Mail} (h : mailOf C o = some m) :
    m.sender.length = publicKeySize := by
  unfold mailOf at h
  split at h
  · split at h
    · split at h
      · rename_i hopen
        cases h
        exact openMail_sender hopen
      · cases h
    · cases h
  · cases h

/-- A mail is known by its sender and its nonce. -/
theorem key_inj {C : Crypto} {o o' : Offer} {m m' : Mail} (h : mailOf C o = some m)
    (h' : mailOf C o' = some m') : m.key = m'.key ↔ SameMail m m' := by
  constructor
  · intro hkey
    have hlen : (hexEncode m.sender).length = (hexEncode m'.sender).length := by
      rw [hexEncode_length, hexEncode_length, mailOf_sender h, mailOf_sender h']
    obtain ⟨hsender, hnonce⟩ := List.append_inj hkey hlen
    exact ⟨hexEncode_inj hsender, hexEncode_inj hnonce⟩
  · rintro ⟨hsender, hnonce⟩
    unfold Mail.key
    rw [hsender, hnonce]

/-! ## What the handler asks -/

theorem admits_ok {now : Nat} {senders : List (List Char)} {maxAge : Int} {m : Mail} :
    admits now senders maxAge m = .ok () ↔ hexEncode m.sender ∈ senders ∧
      unixMilli m.ts ≤ now + mailFutureSkew ∧ sub now (unixMilli m.ts) ≤ maxAge := by
  unfold admits
  constructor
  · intro h
    by_cases hlisted : hexEncode m.sender ∈ senders
    · rw [if_neg (not_not.mpr hlisted)] at h
      by_cases hfuture : now + mailFutureSkew < unixMilli m.ts
      · rw [if_pos hfuture] at h
        cases h
      · rw [if_neg hfuture] at h
        by_cases hold : maxAge < sub now (unixMilli m.ts)
        · rw [if_pos hold] at h
          cases h
        · exact ⟨hlisted, not_lt.mp hfuture, not_lt.mp hold⟩
    · rw [if_pos hlisted] at h
      cases h
  · rintro ⟨hlisted, hfuture, hold⟩
    rw [if_neg (not_not.mpr hlisted), if_neg (not_lt.mpr hfuture), if_neg (not_lt.mpr hold)]

theorem acceptable_of_read {C : Crypto} {o : Offer} {m : Mail} {payload : Bytes}
    (h : readMail C o = .ok (m, payload)) : Acceptable C o m := by
  unfold readMail at h
  cases hparams : o.params with
  | none =>
    rw [hparams] at h
    cases h
  | some p =>
    rw [hparams] at h
    change (if _ then _ else _) = _ at h
    split_ifs at h with hwindow
    · cases h
    · obtain ⟨hpos, hcap⟩ := not_or.mp hwindow
      split at h
      · cases h
      · rename_i object hobject
        split at h
        · rename_i device hloaded hdevice
          split at h
          · cases h
          · cases h
          · cases h
          · rename_i hopen
            split at h
            · cases h
            · rename_i hadmits
              cases h
              obtain ⟨hlisted, hfuture, hold⟩ := admits_ok.mp hadmits
              refine ⟨?_, hloaded, ⟨p, hparams, hlisted⟩,
                ⟨p, hparams, not_le.mp hpos, not_lt.mp hcap, hold⟩, hfuture⟩
              unfold mailOf
              simp only [hparams, hdevice, hobject, hopen]
        · cases h

theorem read_of_acceptable {C : Crypto} {o : Offer} {m : Mail} (h : Acceptable C o m) :
    ∃ payload, readMail C o = .ok (m, payload) := by
  obtain ⟨p, hparams, hpos, hcap, hold⟩ := h.window
  obtain ⟨p', hparams', hlisted⟩ := h.listed
  rw [hparams] at hparams'
  cases hparams'
  have hopens := h.opens
  unfold mailOf at hopens
  rw [hparams] at hopens
  cases hdevice : o.vault.device with
  | none =>
    rw [hdevice] at hopens
    cases hopens
  | some device =>
    rw [hdevice] at hopens
    simp only at hopens
    split at hopens
    · rename_i object hobject
      split at hopens
      · rename_i m' payload hopen
        cases hopens
        refine ⟨payload, ?_⟩
        unfold readMail
        rw [hparams]
        change (if _ then _ else _) = _
        rw [if_neg (not_or.mpr ⟨not_le.mpr hpos, not_lt.mpr hcap⟩)]
        simp only [hobject, h.loaded, hdevice, hopen, admits_ok.mpr ⟨hlisted, h.notAhead, hold⟩]
      · cases hopens
    · cases hopens

/-- The mail the handler admits, before it looks at its memory. -/
def admitted (C : Crypto) (o : Offer) : Option Mail := (readMail C o).toOption.map Prod.fst

theorem admitted_iff {C : Crypto} {o : Offer} {m : Mail} :
    admitted C o = some m ↔ Acceptable C o m := by
  unfold admitted
  constructor
  · intro h
    cases hread : readMail C o with
    | error e =>
      rw [hread] at h
      cases h
    | ok x =>
      rw [hread] at h
      cases h
      exact acceptable_of_read hread
  · intro h
    obtain ⟨payload, hread⟩ := read_of_acceptable h
    rw [hread]
    rfl

/-! ## The clock -/

/-- A mail that is let in was signed within the window, in plain milliseconds, if its time is one a
signed clock can show. -/
theorem Acceptable.inTime {C : Crypto} {o : Offer} {m : Mail} (h : Acceptable C o m) :
    o.InTime m ↔ m.ts.toNat < 2 ^ 63 := by
  obtain ⟨p, hparams, hpos, hcap, hold⟩ := h.window
  have hahead := h.notAhead
  unfold durationOfMs millisecond at hpos hcap hold
  unfold mailMaxAge second at hcap
  unfold sub at hold
  unfold unixMilli millisecond at hold hahead
  unfold mailFutureSkew second at hahead
  unfold Offer.InTime
  rw [hparams]
  simp only [Option.some.injEq, exists_eq_left']
  have hts := m.ts.toNat_lt
  have hms := p.maxAgeMs.toNat_lt
  generalize m.ts.toNat = ts at *
  generalize p.maxAgeMs.toNat = ms at *
  generalize o.now = now at *
  have hwrap : Int.bmod (ms * 1000000) (2 ^ 64) ≤ ms * 1000000 := by
    rw [Int.bmod_def]
    split_ifs <;> omega
  have hsigned : (ts < 2 ^ 63 ∧ Int.bmod ts (2 ^ 64) = ts) ∨
      (2 ^ 63 ≤ ts ∧ Int.bmod ts (2 ^ 64) = ts - 2 ^ 64) := by
    rw [Int.bmod_def]
    split_ifs <;> omega
  rcases hsigned with ⟨hsmall, hsame⟩ | ⟨hlarge, hwrapped⟩
  · rw [hsame] at hold hahead
    constructor
    · intro _
      exact hsmall
    · intro _
      constructor <;> omega
  · -- read as a moment before 1970, which is not far behind a clock that starts there
    rw [hwrapped] at hold
    constructor
    · intro hin
      exfalso
      omega
    · intro hsmall
      omega

/-! ## The memory -/

/-- A delivery is known by its mail's name and remembered from its request. -/
def byKey : Clocked (Offer × Mail) (List Char) Int where
  key d := d.2.key
  now d := d.1.now
  lapse d := rememberedUntil d.1 d.2

def offered (C : Crypto) (o : Offer) : Option (Offer × Mail) := (admitted C o).map fun m => (o, m)

variable {C : Crypto} {o : Offer} {m : Mail} {offers : List Offer}

theorem offered_iff {d : Offer × Mail} :
    offered C o = some d ↔ d.1 = o ∧ Acceptable C o d.2 := by
  unfold offered
  rw [Option.map_eq_some_iff]
  constructor
  · rintro ⟨m, hm, rfl⟩
    exact ⟨rfl, admitted_iff.mp hm⟩
  · rintro ⟨rfl, hm⟩
    exact ⟨d.2, admitted_iff.mpr hm, rfl⟩

/-- The mails delivered are the ones new to a memory that forgets. -/
theorem deliveries_taken (seen : MailSeen) (offers : List Offer) :
    deliveries C seen offers = seen.taken byKey (offers.filterMap (offered C)) := by
  induction offers generalizing seen with
  | nil => rfl
  | cons o os ih =>
    unfold deliveries
    cases hread : readMail C o with
    | error e =>
      have hoffered : offered C o = none := by
        unfold offered admitted
        rw [hread]
        rfl
      rw [List.filterMap_cons_none hoffered]
      unfold handleOpenMail
      rw [hread]
      exact ih seen
    | ok x =>
      obtain ⟨m, payload⟩ := x
      have hacceptable := acceptable_of_read hread
      have hoffered : offered C o = some (o, m) := offered_iff.mpr ⟨rfl, hacceptable⟩
      rw [List.filterMap_cons_some hoffered, Memory.taken_cons]
      unfold handleOpenMail
      rw [hread]
      simp only
      change _ = if seen.prune (o.now : Int) m.key = none then _ else _
      cases hknown : seen.prune (o.now : Int) m.key with
      | some u =>
        have hnext : seen.next byKey (o, m) = seen.prune (o.now : Int) :=
          Memory.next_of_known hknown
        rw [if_neg (Option.some_ne_none u), hnext]
        exact ih _
      | none =>
        have hnext : seen.next byKey (o, m) =
            Function.update (seen.prune (o.now : Int)) m.key (some (rememberedUntil o m)) :=
          Memory.next_of_new hknown
        rw [if_pos rfl, hnext, hacceptable.opens, ih]

theorem mem_deliveries {d : Offer × Mail} (h : d ∈ deliveries C (fun _ => none) offers) :
    d.1 ∈ offers ∧ Acceptable C d.1 d.2 := by
  rw [deliveries_taken] at h
  obtain ⟨o, ho, hd⟩ := List.mem_filterMap.mp ((Memory.taken_sublist _ _).subset h)
  obtain ⟨rfl, hacceptable⟩ := offered_iff.mp hd
  exact ⟨ho, hacceptable⟩

/-! ## First offers -/

theorem firstOffer_iff {before : List Offer} (hm : Acceptable C o m) :
    FirstOffer C before m ↔
      ∀ b ∈ before.filterMap (offered C), byKey.key b ≠ byKey.key (o, m) := by
  constructor
  · intro hfirst d hd hkey
    obtain ⟨b, hb, hbd⟩ := List.mem_filterMap.mp hd
    obtain ⟨rfl, hacceptable⟩ := offered_iff.mp hbd
    exact hfirst d.1 hb d.2 hacceptable ((key_inj hacceptable.opens hm.opens).mp hkey)
  · intro hfirst b hb m' hm' hsame
    have hbm : offered C b = some (b, m') := offered_iff.mpr ⟨rfl, hm'⟩
    exact hfirst (b, m') (List.mem_filterMap.mpr ⟨b, hb, hbm⟩)
      ((key_inj hm'.opens hm.opens).mpr hsame)

/-- A place among the acceptable requests is a place in the run. -/
theorem split_offered {before behind : List (Offer × Mail)} {d : Offer × Mail}
    (hsplit : offers.filterMap (offered C) = before ++ d :: behind) :
    ∃ l r, offers = l ++ d.1 :: r ∧ Acceptable C d.1 d.2 ∧ l.filterMap (offered C) = before ∧
      r.filterMap (offered C) = behind := by
  obtain ⟨l, l', rfl, hl, hrest⟩ := List.filterMap_eq_append_iff.mp hsplit
  obtain ⟨skipped, o, r, rfl, hskipped, ho, hr⟩ := List.filterMap_eq_cons_iff.mp hrest
  obtain ⟨rfl, hacceptable⟩ := offered_iff.mp ho
  refine ⟨l ++ skipped, r, (List.append_assoc _ _ _).symm, hacceptable, ?_, hr⟩
  rw [List.filterMap_append, hl, List.filterMap_eq_nil_iff.mpr hskipped, List.append_nil]

theorem sorted_offered (hclock : offers.Pairwise fun o o' => o.now ≤ o'.now) :
    (offers.filterMap (offered C)).Pairwise fun d d' => byKey.now d ≤ byKey.now d' := by
  rw [List.pairwise_filterMap]
  apply hclock.imp
  intro o o' hle d hd d' hd'
  obtain ⟨rfl, -⟩ := offered_iff.mp hd
  obtain ⟨rfl, -⟩ := offered_iff.mp hd'
  exact Int.ofNat_le.mpr hle

/-- The first acceptable request of a mail delivers it. -/
theorem first_delivered {before behind : List Offer} (hsplit : offers = before ++ o :: behind)
    (hm : Acceptable C o m) (hfirst : FirstOffer C before m) :
    (o, m) ∈ deliveries C (fun _ => none) offers := by
  have hom : offered C o = some (o, m) := offered_iff.mpr ⟨rfl, hm⟩
  rw [deliveries_taken, hsplit, List.filterMap_append, List.filterMap_cons_some hom]
  exact Memory.first_taken ((firstOffer_iff hm).mp hfirst)

theorem names_nodup : ((deliveries C (fun _ => none) offers).map fun d =>
    (d.2.sender, d.2.nonce)).Nodup ↔
      ((deliveries C (fun _ => none) offers).map byKey.key).Nodup := by
  rw [List.Nodup, List.Nodup, List.pairwise_map, List.pairwise_map]
  apply List.Pairwise.iff_of_mem
  intro d d' hd hd'
  apply not_congr
  have hkey := key_inj (mem_deliveries hd).2.opens (mem_deliveries hd').2.opens
  rw [Prod.mk.injEq]
  exact hkey.symm

/-- Mails are delivered at most once, from the listed devices and within their window, exactly when
no acceptable request for a mail comes after the memory of the first one has run out, and none was
signed at a time that a signed clock cannot show. -/
theorem delivered_at_most_once_iff (hclock : offers.Pairwise fun o o' => o.now ≤ o'.now) :
    DeliveredAtMostOnce C offers ↔ MemoryOutlasts C offers := by
  have honce := Memory.taken_once_iff (sorted_offered (C := C) hclock)
  rw [← deliveries_taken] at honce
  constructor
  · rintro ⟨hnodup, hall⟩ before o behind m hsplit hm hfirst
    refine ⟨hm.inTime.mp (hall (o, m) (first_delivered hsplit hm hfirst)).2, ?_⟩
    intro o' ho' m' hm' hsame
    have hnever := honce.mp (names_nodup.mp hnodup)
    have hom : offered C o = some (o, m) := offered_iff.mpr ⟨rfl, hm⟩
    refine hnever (before.filterMap (offered C)) (o, m) (behind.filterMap (offered C)) ?_
      ((firstOffer_iff hm).mp hfirst) (o', m')
      (List.mem_filterMap.mpr ⟨o', ho', offered_iff.mpr ⟨rfl, hm'⟩⟩)
      ((key_inj hm'.opens hm.opens).mpr hsame)
    rw [hsplit, List.filterMap_append, List.filterMap_cons_some hom]
  · intro houtlasts
    have hnever : Memory.NeverLapses byKey (offers.filterMap (offered C)) := by
      intro before d behind hsplit hfirst d' hd' hkey
      obtain ⟨l, r, hl, hacceptable, rfl, rfl⟩ := split_offered hsplit
      obtain ⟨o', ho', hd'⟩ := List.mem_filterMap.mp hd'
      obtain ⟨rfl, hacceptable'⟩ := offered_iff.mp hd'
      exact (houtlasts l d.1 r d.2 hl hacceptable ((firstOffer_iff hacceptable).mpr hfirst)).2
        d'.1 ho' d'.2 hacceptable' ((key_inj hacceptable'.opens hacceptable.opens).mp hkey)
    have hnodup := honce.mpr hnever
    refine ⟨names_nodup.mpr hnodup, ?_⟩
    intro d hd
    obtain ⟨hmem, hacceptable⟩ := mem_deliveries hd
    refine ⟨hacceptable.listed, hacceptable.inTime.mpr ?_⟩
    -- the delivery is that of the first acceptable request for the mail
    have hoffered : d ∈ offers.filterMap (offered C) :=
      List.mem_filterMap.mpr ⟨d.1, hmem, offered_iff.mpr ⟨rfl, hacceptable⟩⟩
    obtain ⟨before, d₁, behind, hsplit, hkey, hfirst⟩ :=
      Memory.exists_first (c := byKey) (k := byKey.key d) ⟨d, hoffered, rfl⟩
    rw [← hkey] at hfirst
    obtain ⟨l, r, hl, hacceptable₁, rfl, rfl⟩ := split_offered hsplit
    have hfirst₁ : FirstOffer C l d₁.2 := (firstOffer_iff hacceptable₁).mpr hfirst
    have hd₁ := first_delivered hl hacceptable₁ hfirst₁
    have hsame : d₁ = d := List.inj_on_of_nodup_map hnodup hd₁ hd hkey
    rw [← hsame]
    exact (houtlasts l d₁.1 r d₁.2 hl hacceptable₁ hfirst₁).1

/-! ## A mail offered again under a longer window -/

/-- Sealing and signing that change nothing. -/
def plainCrypto : Crypto where
  sha256 := fun _ => List.replicate 32 0
  hkdf := fun _ _ _ => none
  publicOf := fun seed => seed
  verify := fun _ _ _ => true
  checkSigningKey := fun _ => true
  checkAgreementKey := fun _ => true
  x25519 := some
  hpkeRecipient := fun enc _ _ => some enc
  hpkeExport := fun _ _ => none
  hpkeOpen := fun _ _ sealedBytes => some sealedBytes

def clipboardMail : Bytes :=
  Encoder.new domainMailPlaintext ++ List.replicate 32 7 ++ List.replicate 32 9 ++
    Encoder.u64 1700000000000 ++ List.replicate 64 0 ++ Encoder.bytes (ascii "ls")

/-- The clipboard mail, asked for so many nanoseconds after it was signed. -/
def clipboardOffer (after : Nat) (maxAgeMs : UInt64) : Offer where
  vault := { Vault.empty with
    loaded := true, device := some ⟨List.replicate 32 1, List.replicate 32 2⟩ }
  now := 1700000000000000000 + after
  params := some
    { kind := ascii "clipboard"
      sealedObject := base64Encode (Encoder.new domainMailObject ++ Encoder.u8 suitePinned ++
        Encoder.bytes [] ++ Encoder.bytes clipboardMail)
      senders := [hexEncode (List.replicate 32 7)]
      maxAgeMs }

/-- Over a direct connection with a window of ten minutes, and sixteen minutes later out of the
mailbox with one of forty-nine hours. -/
def clipboardTwice : List Offer :=
  [clipboardOffer 0 600000, clipboardOffer (16 * 60 * 1000000000) 176400000]

theorem delivered_at_most_once_clipboard :
    DeliveredAtMostOnce plainCrypto clipboardTwice ↔ MemoryOutlasts plainCrypto clipboardTwice :=
  delivered_at_most_once_iff (by decide +kernel)

theorem mail_delivered_under_a_longer_window :
    (clipboardTwice.Pairwise fun o o' => o.now ≤ o'.now) ∧
      (deliveries plainCrypto (fun _ => none) clipboardTwice).map (fun d => d.1.now) =
        clipboardTwice.map Offer.now ∧
      ¬ DeliveredAtMostOnce plainCrypto clipboardTwice := by
  have hnames : (deliveries plainCrypto (fun _ => none) clipboardTwice).map
      (fun d => (d.2.sender, d.2.nonce)) =
        [(List.replicate 32 7, List.replicate 32 9), (List.replicate 32 7, List.replicate 32 9)] := by
    decide +kernel
  refine ⟨by decide +kernel, by decide +kernel, ?_⟩
  rintro ⟨hnodup, -⟩
  rw [hnames] at hnodup
  simp at hnodup

end OpsMaxx.Sidecar
