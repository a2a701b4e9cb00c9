import OpsMaxx.Sidecar.Adopt
import OpsMaxx.Sidecar.Pairing

/-! # No account key without a confirmed pairing

A run is what was asked and answered so far, the newest first. The handlers look up a session by its
id, and what a session has proved decides which of them should act on it.
-/

set_option autoImplicit false

namespace OpsMaxx.Sidecar
open OpsMaxx.Store

/-! ## What happened -/

structure PairEvent where
  before : PairState
  request : PairRequest
  after : PairState
  answer : PairAnswer

def PairRequest.id : PairRequest → Option PairText
  | .pairBegin draw => draw.id.map fun id => hexEncode id.bytes
  | .pairReply p => p.map ReplyParams.pairingId
  | .pairJoin p _ _ => p.map JoinParams.pairingId
  | .pairConfirm p => p.map ConfirmParams.pairingId
  | .pairHandoff p _ => p.map HandoffParams.pairingId
  | .pairAccept p => p.map AcceptParams.pairingId
  | .pairForget id => id

namespace PairEvent

def Succeeds (e : PairEvent) : Prop := ∃ r, e.answer = .ok r

def Begins (id : PairText) (e : PairEvent) : Prop :=
  (∃ draw, e.request = .pairBegin draw) ∧ e.request.id = some id ∧ e.Succeeds

def Joins (id : PairText) (e : PairEvent) : Prop :=
  (∃ p fresh rnd, e.request = .pairJoin p fresh rnd) ∧ e.request.id = some id ∧ e.Succeeds

/-- A reply under an id was accepted, and it named this key to seal to. -/
def Replied (id : PairText) (key : Bytes) (e : PairEvent) : Prop :=
  (∃ p, e.request = .pairReply (some p) ∧ hexDecode p.pubEnc = some key) ∧
    e.request.id = some id ∧ e.Succeeds

def Confirmed (id : PairText) (e : PairEvent) : Prop :=
  (∃ p, e.request = .pairConfirm p) ∧ e.request.id = some id ∧ e.Succeeds

def Forgets (id : PairText) (e : PairEvent) : Prop :=
  e.request = .pairForget (some id) ∧ e.Succeeds

/-- A reply under an id was tested against its session and failed. -/
def FailedReply (id : PairText) (e : PairEvent) : Prop :=
  (∃ p, e.request = .pairReply p) ∧ e.request.id = some id ∧
    ∃ message, e.answer = pairError .sasMismatch message

end PairEvent

/-- Some event was a `P`, and none after it a `Q`. -/
def Since (P Q : PairEvent → Prop) (es : List PairEvent) : Prop :=
  ∃ newer e older, es = newer ++ e :: older ∧ P e ∧ ∀ x ∈ newer, ¬ Q x

open Classical in
/-- How many replies failed under an id since its code was minted. -/
noncomputable def failedReplies (id : PairText) : List PairEvent → Nat
  | [] => 0
  | e :: older =>
    if e.Begins id then 0
    else if e.FailedReply id then failedReplies id older + 1 else failedReplies id older

/-- The id was forgotten or has reached the limit of failed attempts. -/
def Dead (id : PairText) (es : List PairEvent) : Prop :=
  ∃ e ∈ es, e.Forgets id ∨ maxAttempts ≤ e.after.attempts id

/-- Every epoch key of the vault was derived for the vault's account. -/
def OwnEpochs (C : PairCrypto) (v : Vault) : Prop :=
  ∀ n k, v.epochs.get n = some k → ∃ ak, deriveEpoch C.toCrypto ak v.account n = .ok k

/-! ## What is promised -/

structure EventSafe (C : PairCrypto) (e : PairEvent) (older : List PairEvent) : Prop where
  handoff : ∀ p rnd, e.request = .pairHandoff (some p) rnd → e.Succeeds →
    ∃ key, hexDecode p.peerPubEnc = some key ∧
      Since (PairEvent.Replied p.pairingId key) (PairEvent.Begins p.pairingId) older
  accept : ∀ p, e.request = .pairAccept (some p) → e.after.vault ≠ e.before.vault →
    Since (PairEvent.Confirmed p.pairingId) (PairEvent.Joins p.pairingId) older
  guesses : ∀ id, failedReplies id (e :: older) ≤ maxAttempts
  dead : ∀ id, Dead id older → e.request.id = some id → ¬ e.Forgets id → ¬ e.Succeeds
  unchanged : ¬ e.Succeeds → e.after.vault = e.before.vault
  epochs : (∃ p, e.request = .pairAccept p) → OwnEpochs C e.after.vault

def KeysSafe (C : PairCrypto) (es : List PairEvent) : Prop :=
  ∀ newer e older, es = newer ++ e :: older → EventSafe C e older

/-! ## Runs -/

/-- The sidecar serves requests, each of which met a condition on what happened before it. -/
inductive PairRun (C : PairCrypto) (ok : List PairEvent → PairState → PairRequest → Prop)
    (v : Vault) : List PairEvent → PairState → Prop
  | start : PairRun C ok v [] (.start v)
  | next {es : List PairEvent} {s : PairState} {r : PairRequest} (hrun : PairRun C ok v es s)
      (hok : ok es s r) : PairRun C ok v (⟨s, r, (s.step C r).1, (s.step C r).2⟩ :: es) (s.step C r).1

/-- The joining device, with this key, accepts the start frame. -/
def JoinAccepted (C : PairCrypto) (device : DeviceKeys) (p : JoinParams) (rnd : Bytes) (j : Joiner)
    (f : ReplyFrame) : Prop :=
  ∃ pairingID msgA peerSign, hexDecode p.pairingId = some pairingID ∧
    base64Decode p.msgA = some msgA ∧ hexDecode p.pubSign = some peerSign ∧
      joinSession C p.code pairingID msgA peerSign (C.publicOf device.signSeed)
        (C.agreementPub device.enc) rnd = some (j, f)

/-- What the handlers leave to whoever asks. -/
def Careful (C : PairCrypto) (es : List PairEvent) (s : PairState) : PairRequest → Prop
  | .pairBegin draw => ∀ id, draw.id.map (fun id => hexEncode id.bytes) = some id →
    ¬ Dead id es ∧ s.joiner id = none
  | .pairReply (some p) => ∀ f, p.frame = some f → f.pubSign ≠ []
  | .pairJoin (some p) fresh rnd => ¬ Dead p.pairingId es ∧ s.initiator p.pairingId = none ∧
    ∀ device, s.vault.device = none → fresh = some device → ∃ j f, JoinAccepted C device p rnd j f
  | .pairHandoff (some p) _ => ∀ key key', hexDecode p.peerPubEnc = some key →
    Since (PairEvent.Replied p.pairingId key') (PairEvent.Begins p.pairingId) es → key = key'
  | .pairAccept (some p) => (∀ j, s.joiner p.pairingId = some j → j.done = true) ∧
    ∀ acct, hexDecode p.accountId = some acct → s.vault.account = acct ∨ s.vault.epochs = .empty
  | _ => True

/-! ## What one request does -/

/-- Every way a request can end, and what was found on the way. -/
inductive PairStep (C : PairCrypto) (s : PairState) : PairRequest → PairState → PairAnswer → Prop
  | refused {r : PairRequest} {code : PairErrCode} {message : String} (hcode : code ≠ .sasMismatch) :
      PairStep C s r s (pairError code message)
  | begun {draw : BeginDraw} {id : PairingID} {i : Initiator} {reply : PairReply}
      (hdraw : draw.id = some id) (hsecret : i.secret = none) (hid : i.pairingID = id.bytes)
      (hsign : i.pubSign.length = publicKeySize) :
      PairStep C s (.pairBegin draw) (s.putInitiator (hexEncode id.bytes) (some i)) (.ok reply)
  | replyFailed {p : ReplyParams} {i : Initiator} {f : ReplyFrame} {message : String}
      (hi : s.initiator p.pairingId = some i) (hattempts : s.attempts p.pairingId < maxAttempts)
      (hframe : p.frame = some f) (hreply : (i.reply C f).1 = none) :
      PairStep C s (.pairReply (some p)) (s.replyFailed p.pairingId (i.reply C f).2)
        (pairError .sasMismatch message)
  | replied {p : ReplyParams} {i : Initiator} {f : ReplyFrame} {confirmA : Bytes} {reply : PairReply}
      (hi : s.initiator p.pairingId = some i) (hattempts : s.attempts p.pairingId < maxAttempts)
      (hframe : p.frame = some f) (hreply : (i.reply C f).1 = some confirmA) :
      PairStep C s (.pairReply (some p)) (s.putInitiator p.pairingId (some (i.reply C f).2))
        (.ok reply)
  | minted {p : JoinParams} {device : DeviceKeys} {rnd : Bytes} {code : PairErrCode}
      {message : String} (hdevice : s.vault.device = none) (hcode : code ≠ .sasMismatch)
      (hnot : ∀ j f, ¬ JoinAccepted C device p rnd j f) :
      PairStep C s (.pairJoin (some p) (some device) rnd)
        { s with vault := { s.vault with device := some device } } (pairError code message)
  | joined {p : JoinParams} {fresh : Option DeviceKeys} {device : DeviceKeys} {rnd : Bytes}
      {j : Joiner} {f : ReplyFrame} {reply : PairReply} (hdevice : s.vault.device.or fresh = some device)
      (hjoin : JoinAccepted C device p rnd j f) :
      PairStep C s (.pairJoin (some p) fresh rnd)
        ({ s with vault := { s.vault with device := some device } }.putJoiner p.pairingId (some j))
        (.ok reply)
  | confirmFailed {p : ConfirmParams} {j : Joiner} {confirmA : Bytes} {message : String}
      (hj : s.joiner p.pairingId = some j) (hconfirm : (j.confirm C confirmA).1 = false) :
      PairStep C s (.pairConfirm (some p)) (s.confirmFailed p.pairingId (j.confirm C confirmA).2)
        (pairError .sasMismatch message)
  | panicked {p : ConfirmParams} {j j' : Joiner} {message : String}
      (hj : s.joiner p.pairingId = some j) (hdevice : s.vault.device = none) :
      PairStep C s (.pairConfirm (some p)) (s.putJoiner p.pairingId (some j'))
        (pairError (.vault .internal) message)
  | confirmed {p : ConfirmParams} {j : Joiner} {confirmA : Bytes} {reply : PairReply}
      (hj : s.joiner p.pairingId = some j) :
      PairStep C s (.pairConfirm (some p))
        (s.putJoiner p.pairingId (some (j.confirm C confirmA).2)) (.ok reply)
  | handedOff {p : HandoffParams} {rnd key : Bytes} {i : Initiator} {reply : PairReply}
      (hi : s.initiator p.pairingId = some i) (hsecret : i.secret.getD [] ≠ [])
      (hkey : hexDecode p.peerPubEnc = some key) :
      PairStep C s (.pairHandoff (some p) rnd) s (.ok reply)
  | accepted {p : AcceptParams} {j : Joiner} {acct : Bytes} {h : Handoff} {k : EpochKeys}
      {reply : PairReply} (hj : s.joiner p.pairingId = some j)
      (hacct : hexDecode p.accountId = some acct) (hsame : h.accountID = acct)
      (hderive : deriveEpoch C.toCrypto h.akSeed h.accountID h.epoch = .ok k) :
      PairStep C s (.pairAccept (some p)) { s with vault := s.vault.join h k } (.ok reply)
  | forgot {id : PairText} {reply : PairReply} :
      PairStep C s (.pairForget (some id))
        { (s.putInitiator id none).putJoiner id none with
          attempts := Function.update s.attempts id 0 } (.ok reply)

variable {C : PairCrypto} {s : PairState}

theorem begin_step (draw : BeginDraw) : PairStep C s (.pairBegin draw)
    (handlePairBegin C s draw).1 (handlePairBegin C s draw).2 := by
  unfold handlePairBegin
  split
  · split
    · exact .refused (by decide)
    · split
      · exact .refused (by decide)
      · rename_i hbegin
        unfold beginSession at hbegin
        obtain ⟨normalised, -, hbegin⟩ := Option.bind_eq_some_iff.mp hbegin
        obtain ⟨id, hid, hbegin⟩ := Option.bind_eq_some_iff.mp hbegin
        obtain ⟨⟨msg, st⟩, -, hbegin⟩ := Option.bind_eq_some_iff.mp hbegin
        cases hbegin
        exact .begun hid rfl rfl (C.publicOf_length _)
  · exact .refused (by decide)

theorem reply_step (params : Option ReplyParams) : PairStep C s (.pairReply params)
    (handlePairReply C s params).1 (handlePairReply C s params).2 := by
  unfold handlePairReply
  cases params with
  | none => exact .refused (by decide)
  | some p =>
    simp only
    cases hi : s.initiator p.pairingId with
    | none => exact .refused (by decide)
    | some i =>
      simp only
      by_cases hattempts : maxAttempts ≤ s.attempts p.pairingId
      · rw [if_pos hattempts]
        exact .refused (by decide)
      · rw [if_neg hattempts]
        cases hframe : p.frame with
        | none => exact .refused (by decide)
        | some f =>
          simp only
          cases hreply : (i.reply C f).1 with
          | none =>
            have hpair : i.reply C f = (none, (i.reply C f).2) := by rw [← hreply]
            rw [hpair]
            exact .replyFailed hi (Nat.lt_of_not_le hattempts) hframe hreply
          | some confirmA =>
            have hpair : i.reply C f = (some confirmA, (i.reply C f).2) := by rw [← hreply]
            rw [hpair]
            exact .replied hi (Nat.lt_of_not_le hattempts) hframe hreply

theorem join_step (params : Option JoinParams) (fresh : Option DeviceKeys) (rnd : Bytes) :
    PairStep C s (.pairJoin params fresh rnd) (handlePairJoin C s params fresh rnd).1
      (handlePairJoin C s params fresh rnd).2 := by
  unfold handlePairJoin
  cases params with
  | none => exact .refused (by decide)
  | some p =>
    simp only
    cases hdevice : s.vault.device.or fresh with
    | none => exact .refused (by decide)
    | some device =>
      simp only
      have hkept : ∀ code message, code ≠ .sasMismatch → (∀ j f, ¬ JoinAccepted C device p rnd j f) →
          PairStep C s (.pairJoin (some p) fresh rnd)
            { s with vault := { s.vault with device := some device } } (pairError code message) := by
        intro code message hcode hnot
        cases hold : s.vault.device with
        | none =>
          rw [hold, Option.none_or] at hdevice
          rw [hdevice]
          exact .minted hold hcode hnot
        | some old =>
          rw [hold, Option.some_or] at hdevice
          have hsame : { s with vault := { s.vault with device := some device } } = s := by
            rw [← hdevice, ← hold]
          rw [hsame]
          exact .refused hcode
      split
      · rename_i pairingID msgA peerSign hid hmsg hsign
        split
        · rename_i hjoin
          apply hkept
          · decide
          · rintro j f ⟨pairingID', msgA', peerSign', hid', hmsg', hsign', hjoin'⟩
            rw [hid] at hid'
            rw [hmsg] at hmsg'
            rw [hsign] at hsign'
            cases hid'
            cases hmsg'
            cases hsign'
            rw [hjoin] at hjoin'
            cases hjoin'
        · rename_i hjoin
          exact .joined hdevice ⟨pairingID, msgA, peerSign, hid, hmsg, hsign, hjoin⟩
      · rename_i hnot
        apply hkept
        · decide
        · rintro j f ⟨pairingID, msgA, peerSign, hid, hmsg, hsign, -⟩
          exact hnot _ _ _ hid hmsg hsign

theorem confirm_step (params : Option ConfirmParams) : PairStep C s (.pairConfirm params)
    (handlePairConfirm C s params).1 (handlePairConfirm C s params).2 := by
  unfold handlePairConfirm
  cases params with
  | none => exact .refused (by decide)
  | some p =>
    simp only
    cases hj : s.joiner p.pairingId with
    | none => exact .refused (by decide)
    | some j =>
      simp only
      cases base64Decode p.confirmA with
      | none => exact .refused (by decide)
      | some confirmA =>
        simp only
        cases hconfirm : (j.confirm C confirmA).1 with
        | false =>
          have hpair : j.confirm C confirmA = (false, (j.confirm C confirmA).2) := by rw [← hconfirm]
          rw [hpair]
          exact .confirmFailed hj hconfirm
        | true =>
          have hpair : j.confirm C confirmA = (true, (j.confirm C confirmA).2) := by rw [← hconfirm]
          rw [hpair]
          simp only
          cases hdevice : (s.putJoiner p.pairingId (some (j.confirm C confirmA).2)).vault.device with
          | none => exact .panicked hj hdevice
          | some device => exact .confirmed hj

theorem handoff_step (params : Option HandoffParams) (rnd : Bytes) :
    PairStep C s (.pairHandoff params rnd) (handlePairHandoff C s params rnd).1
      (handlePairHandoff C s params rnd).2 := by
  unfold handlePairHandoff
  cases params with
  | none => exact .refused (by decide)
  | some p =>
    simp only
    cases hi : s.initiator p.pairingId with
    | none => exact .refused (by decide)
    | some i =>
      simp only
      split
      · exact .refused (by decide)
      · exact .refused (by decide)
      · exact .refused (by decide)
      · rename_i hkey
        split_ifs
        · exact .refused (by decide)
        · split
          · exact .refused (by decide)
          · rename_i hseal
            refine .handedOff hi ?_ (Option.filter_eq_some_iff.mp hkey).1
            intro hempty
            unfold sealHandoff at hseal
            rw [if_pos hempty] at hseal
            cases hseal

theorem openHandoff_account {C : Crypto} {object acct recipient binding : Bytes}
    {epoch counter : UInt64} {h : Handoff}
    (hopen : openHandoff C object acct epoch counter recipient binding = .ok h) :
    h.accountID = acct := by
  unfold openHandoff at hopen
  obtain ⟨_, -, hopen⟩ := except_bind_ok hopen
  obtain ⟨_, -, hopen⟩ := except_bind_ok hopen
  obtain ⟨⟨⟨gotSuite, enc, commit, ct⟩, _⟩, -, hopen⟩ := except_bind_ok hopen
  obtain ⟨_, -, hopen⟩ := except_bind_ok hopen
  obtain ⟨_, -, hopen⟩ := except_bind_ok hopen
  obtain ⟨_, -, hopen⟩ := except_bind_ok hopen
  obtain ⟨_, -, hopen⟩ := except_bind_ok hopen
  obtain ⟨_, -, hopen⟩ := except_bind_ok hopen
  obtain ⟨⟨out, _⟩, -, hopen⟩ := except_bind_ok hopen
  obtain ⟨_, hmatch, hopen⟩ := except_bind_ok hopen
  obtain ⟨_, -, hopen⟩ := except_bind_ok hopen
  cases hopen
  exact (of_decide_eq_true (refuseUnless_ok hmatch)).1

theorem openAccepted_ok {p : AcceptParams} {sealedBytes : Bytes} {device : DeviceKeys}
    {secret : Bytes} {h : Handoff} {k : EpochKeys}
    (hopen : openAccepted C p sealedBytes device secret = .ok (h, k)) :
    hexDecode p.accountId = some h.accountID ∧
      deriveEpoch C.toCrypto h.akSeed h.accountID h.epoch = .ok k := by
  unfold openAccepted at hopen
  split at hopen
  · cases hopen
  · rename_i hacct
    split at hopen
    · cases hopen
    · rename_i hhandoff
      split at hopen
      · cases hopen
      · rename_i hderive
        cases hopen
        rw [openHandoff_account hhandoff]
        exact ⟨(Option.filter_eq_some_iff.mp hacct).1, by rw [← openHandoff_account hhandoff, hderive]⟩

theorem openAccepted_error {p : AcceptParams} {sealedBytes : Bytes} {device : DeviceKeys}
    {secret : Bytes} {e : PairError} (hopen : openAccepted C p sealedBytes device secret = .error e) :
    e.code ≠ .sasMismatch := by
  unfold openAccepted at hopen
  split at hopen
  · cases hopen
    decide
  · split at hopen
    · cases hopen
      decide
    · split at hopen
      · cases hopen
        decide
      · cases hopen

theorem accept_step (params : Option AcceptParams) : PairStep C s (.pairAccept params)
    (handlePairAccept C s params).1 (handlePairAccept C s params).2 := by
  unfold handlePairAccept
  cases params with
  | none => exact .refused (by decide)
  | some p =>
    simp only
    cases hj : s.joiner p.pairingId with
    | none => exact .refused (by decide)
    | some j =>
      simp only
      split
      · exact .refused (by decide)
      · exact .refused (by decide)
      · split
        · rename_i hopen
          exact .refused (openAccepted_error hopen)
        · rename_i hopen
          obtain ⟨hacct, hderive⟩ := openAccepted_ok hopen
          exact .accepted hj hacct rfl hderive

theorem pair_step (r : PairRequest) : PairStep C s r (s.step C r).1 (s.step C r).2 := by
  cases r with
  | pairBegin draw => exact begin_step draw
  | pairReply params => exact reply_step params
  | pairJoin params fresh rnd => exact join_step params fresh rnd
  | pairConfirm params => exact confirm_step params
  | pairHandoff params rnd => exact handoff_step params rnd
  | pairAccept params => exact accept_step params
  | pairForget pairingId =>
    cases pairingId with
    | none => exact .refused (by decide)
    | some id => exact .forgot

/-! ## Sessions -/

theorem reply_fields (i : Initiator) (f : ReplyFrame) :
    (i.reply C f).2.pairingID = i.pairingID ∧ (i.reply C f).2.pubSign = i.pubSign := by
  unfold Initiator.reply
  split_ifs
  · exact ⟨rfl, rfl⟩
  · simp only
    split
    · exact ⟨rfl, rfl⟩
    · split_ifs
      · exact ⟨rfl, rfl⟩
      · split <;> exact ⟨rfl, rfl⟩

/-- A reply that is refused leaves no secret behind. -/
theorem reply_failed_secret {i : Initiator} {f : ReplyFrame} (hid : i.pairingID ≠ [])
    (hsign : i.pubSign ≠ []) (hpeer : f.pubSign ≠ []) (hreply : (i.reply C f).1 = none) :
    (i.reply C f).2.secret = i.secret := by
  unfold Initiator.reply at hreply ⊢
  split_ifs at hreply ⊢
  · rfl
  · simp only at hreply ⊢
    cases hfinish : C.spakeFinish i.spake f.msgB with
    | none => rfl
    | some secret =>
      rw [hfinish] at hreply
      simp only at hreply ⊢
      split_ifs at hreply ⊢
      · rfl
      · have hsas : deriveSAS C secret i.pairingID i.pubSign f.pubSign ≠ none := by
          unfold deriveSAS
          rw [if_neg (by simp [C.spakeFinish_ne _ _ _ hfinish, hid, hsign, hpeer])]
          exact Option.some_ne_none _
        split at hreply
        · rename_i hnone
          exact absurd hnone hsas
        · cases hreply

def Joiner.Sized (j : Joiner) : Prop :=
  j.secret ≠ [] ∧ j.pairingID ≠ [] ∧ j.initPub ≠ [] ∧ j.pubSign ≠ []

theorem confirm_fields (j : Joiner) (confirmA : Bytes) (hsized : j.Sized) :
    (j.confirm C confirmA).2.Sized ∧
      ((j.confirm C confirmA).1 = false → (j.confirm C confirmA).2.done = j.done) := by
  unfold Joiner.confirm
  obtain ⟨hsecret, hid, hinit, hsign⟩ := hsized
  split_ifs
  · exact ⟨⟨hsecret, hid, hinit, hsign⟩, fun _ => rfl⟩
  · exact ⟨⟨hsecret, hid, hinit, hsign⟩, fun _ => rfl⟩
  · have hsas : deriveSAS C j.secret j.pairingID j.initPub j.pubSign =
        some (C.hkdfKey j.secret (lengthPrefixed sasInfo [j.pairingID, j.initPub, j.pubSign]) 6) := by
      unfold deriveSAS
      rw [if_neg (by simp [hsecret, hid, hinit, hsign])]
    simp only [hsas]
    refine ⟨⟨hsecret, hid, hinit, hsign⟩, ?_⟩
    intro h
    cases h

theorem join_fields {device : DeviceKeys} {p : JoinParams} {rnd : Bytes} {j : Joiner} {f : ReplyFrame}
    (h : JoinAccepted C device p rnd j f) : j.Sized ∧ j.done = false := by
  obtain ⟨pairingID, msgA, peerSign, -, -, -, hjoin⟩ := h
  unfold joinSession at hjoin
  obtain ⟨normalised, -, hjoin⟩ := Option.bind_eq_some_iff.mp hjoin
  by_cases hlen : pairingID.length ≠ pairingIDLen
  · rw [if_pos hlen] at hjoin
    cases hjoin
  · rw [if_neg hlen] at hjoin
    obtain ⟨⟨msgB, st⟩, -, hjoin⟩ := Option.bind_eq_some_iff.mp hjoin
    obtain ⟨secret, hsecret, hjoin⟩ := Option.bind_eq_some_iff.mp hjoin
    by_cases hinit : peerSign = []
    · rw [if_pos hinit] at hjoin
      cases hjoin
    · rw [if_neg hinit] at hjoin
      cases hjoin
      have hid : pairingID ≠ [] := by
        intro hnil
        rw [hnil] at hlen
        exact hlen (by decide)
      have hsign : C.publicOf device.signSeed ≠ [] := by
        intro hnil
        have hsize := C.publicOf_length device.signSeed
        rw [hnil] at hsize
        cases hsize
      exact ⟨⟨C.spakeFinish_ne _ _ _ hsecret, hid, hinit, hsign⟩, rfl⟩

/-! ## What holds of one id -/

/-- An event that begins, joins, forgets or fails nothing under an id. -/
def Quiet (id : PairText) (e : PairEvent) : Prop :=
  ¬ e.Begins id ∧ ¬ e.Joins id ∧ ¬ e.FailedReply id ∧ ¬ e.Forgets id

theorem Quiet.of_id {id : PairText} {e : PairEvent} (h : e.request.id ≠ some id) : Quiet id e := by
  refine ⟨fun hb => h hb.2.1, fun hj => h hj.2.1, fun hf => h hf.2.1, ?_⟩
  intro hforget
  apply h
  rw [hforget.1]
  rfl

theorem Quiet.of_refused {id : PairText} {r : PairRequest} {s' : PairState} {code : PairErrCode}
    {message : String} (hcode : code ≠ .sasMismatch) :
    Quiet id ⟨s, r, s', pairError code message⟩ := by
  have hnot : ¬ PairEvent.Succeeds ⟨s, r, s', pairError code message⟩ := by
    rintro ⟨reply, h⟩
    cases h
  refine ⟨fun hb => hnot hb.2.2, fun hj => hnot hj.2.2, ?_, fun hf => hnot hf.2⟩
  rintro ⟨-, -, message', h⟩
  cases h
  exact hcode rfl

theorem Since.newest {P Q : PairEvent → Prop} {e : PairEvent} {es : List PairEvent} (h : P e) :
    Since P Q (e :: es) :=
  ⟨[], e, es, rfl, h, by simp⟩

theorem Since.older {P Q : PairEvent → Prop} {e : PairEvent} {es : List PairEvent}
    (h : Since P Q es) (hnot : ¬ Q e) : Since P Q (e :: es) := by
  obtain ⟨newer, x, older, rfl, hx, hnewer⟩ := h
  refine ⟨e :: newer, x, older, rfl, hx, ?_⟩
  intro y hy
  rcases List.mem_cons.mp hy with rfl | hy
  · exact hnot
  · exact hnewer y hy

theorem Dead.older {id : PairText} {e : PairEvent} {es : List PairEvent} (h : Dead id es) :
    Dead id (e :: es) := by
  obtain ⟨x, hx, h⟩ := h
  exact ⟨x, List.mem_cons_of_mem _ hx, h⟩

theorem dead_cons {id : PairText} {e : PairEvent} {es : List PairEvent} (h : Dead id (e :: es)) :
    e.Forgets id ∨ maxAttempts ≤ e.after.attempts id ∨ Dead id es := by
  obtain ⟨x, hx, h⟩ := h
  rcases List.mem_cons.mp hx with rfl | hx
  · exact h.imp_right .inl
  · exact .inr (.inr ⟨x, hx, h⟩)

structure InvAt (es : List PairEvent) (s : PairState) (id : PairText) : Prop where
  initiatorSized : ∀ i, s.initiator id = some i → i.pairingID ≠ [] ∧ i.pubSign ≠ []
  joinerSized : ∀ j, s.joiner id = some j → j.Sized
  replied : ∀ i, s.initiator id = some i → i.secret.getD [] ≠ [] →
    ∃ key, Since (PairEvent.Replied id key) (PairEvent.Begins id) es
  confirmed : ∀ j, s.joiner id = some j → j.done = true →
    Since (PairEvent.Confirmed id) (PairEvent.Joins id) es
  apart : s.initiator id = none ∨ s.joiner id = none
  dead : Dead id es → s.initiator id = none ∧ s.joiner id = none
  limit : maxAttempts ≤ s.attempts id → Dead id es
  guesses : failedReplies id es ≤ maxAttempts
  counted : s.initiator id ≠ none → failedReplies id es ≤ s.attempts id
  device : s.joiner id ≠ none → s.vault.device ≠ none

theorem failedReplies_begins {id : PairText} {e : PairEvent} {es : List PairEvent}
    (h : e.Begins id) : failedReplies id (e :: es) = 0 := by
  unfold failedReplies
  rw [if_pos h]

theorem failedReplies_failed {id : PairText} {e : PairEvent} {es : List PairEvent}
    (hnot : ¬ e.Begins id) (h : e.FailedReply id) :
    failedReplies id (e :: es) = failedReplies id es + 1 := by
  rw [failedReplies, if_neg hnot, if_pos h]

theorem failedReplies_other {id : PairText} {e : PairEvent} {es : List PairEvent}
    (hbegin : ¬ e.Begins id) (hfail : ¬ e.FailedReply id) :
    failedReplies id (e :: es) = failedReplies id es := by
  rw [failedReplies, if_neg hbegin, if_neg hfail]

/-- What leaves the sessions of an id alone keeps what holds of it. -/
theorem InvAt.kept {es : List PairEvent} {s : PairState} {id : PairText} {e : PairEvent}
    (h : InvAt es s id) (hquiet : Quiet id e) (hinitiator : e.after.initiator id = s.initiator id)
    (hjoiner : e.after.joiner id = s.joiner id) (hattempts : e.after.attempts id = s.attempts id)
    (hdevice : s.vault.device ≠ none → e.after.vault.device ≠ none) :
    InvAt (e :: es) e.after id where
  initiatorSized := by
    rw [hinitiator]
    exact h.initiatorSized
  joinerSized := by
    rw [hjoiner]
    exact h.joinerSized
  replied := by
    rw [hinitiator]
    intro i hi hsecret
    obtain ⟨key, hkey⟩ := h.replied i hi hsecret
    exact ⟨key, hkey.older hquiet.1⟩
  confirmed := by
    rw [hjoiner]
    intro j hj hdone
    exact (h.confirmed j hj hdone).older hquiet.2.1
  apart := by
    rw [hinitiator, hjoiner]
    exact h.apart
  dead := by
    rw [hinitiator, hjoiner]
    intro hdead
    rcases dead_cons hdead with hforget | hlimit | hdead
    · exact absurd hforget hquiet.2.2.2
    · rw [hattempts] at hlimit
      exact h.dead (h.limit hlimit)
    · exact h.dead hdead
  limit := by
    rw [hattempts]
    intro hlimit
    exact (h.limit hlimit).older
  guesses := by
    rw [failedReplies_other hquiet.1 hquiet.2.2.1]
    exact h.guesses
  counted := by
    rw [failedReplies_other hquiet.1 hquiet.2.2.1, hinitiator, hattempts]
    exact h.counted
  device := by
    rw [hjoiner]
    intro hj
    exact hdevice (h.device hj)

theorem InvAt.not_dead {es : List PairEvent} {id : PairText} (h : InvAt es s id)
    (hlive : s.initiator id ≠ none ∨ s.joiner id ≠ none) : ¬ Dead id es := by
  intro hdead
  obtain ⟨hi, hj⟩ := h.dead hdead
  rcases hlive with hlive | hlive
  · exact hlive hi
  · exact hlive hj

/-! ## One request keeps it -/

/-- What a request does not name, it leaves alone. -/
theorem PairStep.frame {r : PairRequest} {s' : PairState} {ans : PairAnswer} {id : PairText}
    (hstep : PairStep C s r s' ans) (hne : r.id ≠ some id) :
    s'.initiator id = s.initiator id ∧ s'.joiner id = s.joiner id ∧
      s'.attempts id = s.attempts id := by
  cases hstep with
  | refused hcode => exact ⟨rfl, rfl, rfl⟩
  | @begun draw id' i reply hdraw =>
    have h : id ≠ hexEncode id'.bytes := by
      intro h
      apply hne
      show draw.id.map _ = _
      rw [hdraw, h, Option.map_some]
    exact ⟨Function.update_of_ne h _ _, rfl, rfl⟩
  | @replyFailed p =>
    have h : id ≠ p.pairingId := fun h => hne (congrArg some h.symm)
    exact ⟨Function.update_of_ne h _ _, rfl, Function.update_of_ne h _ _⟩
  | @replied p =>
    have h : id ≠ p.pairingId := fun h => hne (congrArg some h.symm)
    exact ⟨Function.update_of_ne h _ _, rfl, rfl⟩
  | minted => exact ⟨rfl, rfl, rfl⟩
  | @joined p =>
    have h : id ≠ p.pairingId := fun h => hne (congrArg some h.symm)
    exact ⟨rfl, Function.update_of_ne h _ _, rfl⟩
  | @confirmFailed p =>
    have h : id ≠ p.pairingId := fun h => hne (congrArg some h.symm)
    exact ⟨rfl, Function.update_of_ne h _ _, Function.update_of_ne h _ _⟩
  | @panicked p =>
    have h : id ≠ p.pairingId := fun h => hne (congrArg some h.symm)
    exact ⟨rfl, Function.update_of_ne h _ _, rfl⟩
  | @confirmed p =>
    have h : id ≠ p.pairingId := fun h => hne (congrArg some h.symm)
    exact ⟨rfl, Function.update_of_ne h _ _, rfl⟩
  | handedOff => exact ⟨rfl, rfl, rfl⟩
  | accepted => exact ⟨rfl, rfl, rfl⟩
  | @forgot id' =>
    have h : id ≠ id' := fun h => hne (congrArg some h.symm)
    exact ⟨Function.update_of_ne h _ _, Function.update_of_ne h _ _, Function.update_of_ne h _ _⟩

/-- A device key, once there, stays. -/
theorem PairStep.device {r : PairRequest} {s' : PairState} {ans : PairAnswer}
    (hstep : PairStep C s r s' ans) (hdevice : s.vault.device ≠ none) : s'.vault.device ≠ none := by
  cases hstep with
  | minted => exact Option.some_ne_none _
  | joined => exact Option.some_ne_none _
  | refused | begun | replyFailed | replied | confirmFailed | panicked | confirmed | handedOff |
    accepted | forgot => exact hdevice

section Named
variable {es : List PairEvent}

theorem InvAt.begun {draw : BeginDraw} {pid : PairingID} {i : Initiator} {reply : PairReply}
    (h : InvAt es s (hexEncode pid.bytes)) (hdraw : draw.id = some pid) (hsecret : i.secret = none)
    (hid : i.pairingID = pid.bytes) (hsign : i.pubSign.length = publicKeySize)
    (hcare : ¬ Dead (hexEncode pid.bytes) es ∧ s.joiner (hexEncode pid.bytes) = none) :
    InvAt (⟨s, .pairBegin draw, s.putInitiator (hexEncode pid.bytes) (some i), .ok reply⟩ :: es)
      (s.putInitiator (hexEncode pid.bytes) (some i)) (hexEncode pid.bytes) := by
  obtain ⟨hlive, hjoiner⟩ := hcare
  have hnow : (s.putInitiator (hexEncode pid.bytes) (some i)).initiator (hexEncode pid.bytes) =
      some i := Function.update_self _ _ _
  have hbegins : PairEvent.Begins (hexEncode pid.bytes) ⟨s, .pairBegin draw,
      s.putInitiator (hexEncode pid.bytes) (some i), .ok reply⟩ := by
    refine ⟨⟨draw, rfl⟩, ?_, reply, rfl⟩
    show draw.id.map _ = _
    rw [hdraw, Option.map_some]
  constructor
  · intro i' hi'
    rw [hnow] at hi'
    cases hi'
    constructor
    · intro hnil
      have hsize := pid.length_eq
      rw [← hid, hnil] at hsize
      cases hsize
    · intro hnil
      rw [hnil] at hsign
      cases hsign
  · exact h.joinerSized
  · intro i' hi' hne
    rw [hnow] at hi'
    cases hi'
    rw [hsecret] at hne
    exact absurd rfl hne
  · intro j hj
    exact absurd (hj.symm.trans hjoiner) (Option.some_ne_none _)
  · exact .inr hjoiner
  · intro hdead
    rcases dead_cons hdead with hforget | hlimit | hdead
    · cases hforget.1
    · exact absurd (h.limit hlimit) hlive
    · exact absurd hdead hlive
  · intro hlimit
    exact absurd (h.limit hlimit) hlive
  · rw [failedReplies_begins hbegins]
    exact Nat.zero_le _
  · intro _
    rw [failedReplies_begins hbegins]
    exact Nat.zero_le _
  · exact h.device

theorem PairState.spent_iff (s : PairState) (id : PairText) :
    s.spent id = true ↔ maxAttempts ≤ s.attempts id + 1 := by
  simp [PairState.spent]

theorem InvAt.replyFailed {p : ReplyParams} {i : Initiator} {f : ReplyFrame} {message : String}
    (h : InvAt es s p.pairingId) (hi : s.initiator p.pairingId = some i)
    (hattempts : s.attempts p.pairingId < maxAttempts) (hreply : (i.reply C f).1 = none)
    (hpeer : f.pubSign ≠ []) :
    InvAt (⟨s, .pairReply (some p), s.replyFailed p.pairingId (i.reply C f).2,
        pairError .sasMismatch message⟩ :: es)
      (s.replyFailed p.pairingId (i.reply C f).2) p.pairingId := by
  have hsome : s.initiator p.pairingId ≠ none := by
    rw [hi]
    exact Option.some_ne_none _
  have hjoiner : s.joiner p.pairingId = none := h.apart.resolve_left hsome
  have hnow : (s.replyFailed p.pairingId (i.reply C f).2).initiator p.pairingId =
      if s.spent p.pairingId then none else some (i.reply C f).2 := Function.update_self _ _ _
  have hcount : (s.replyFailed p.pairingId (i.reply C f).2).attempts p.pairingId =
      s.attempts p.pairingId + 1 := Function.update_self _ _ _
  have hfailed : failedReplies p.pairingId (⟨s, .pairReply (some p),
      s.replyFailed p.pairingId (i.reply C f).2, pairError .sasMismatch message⟩ :: es) =
      failedReplies p.pairingId es + 1 := by
    apply failedReplies_failed
    · rintro ⟨⟨_, hkind⟩, -⟩
      cases hkind
    · exact ⟨⟨_, rfl⟩, rfl, message, rfl⟩
  have hkept : ∀ i', (s.replyFailed p.pairingId (i.reply C f).2).initiator p.pairingId = some i' →
      i' = (i.reply C f).2 := by
    intro i' hi'
    rw [hnow] at hi'
    split_ifs at hi'
    cases hi'
    rfl
  constructor
  · intro i' hi'
    rw [hkept i' hi', (reply_fields i f).1, (reply_fields i f).2]
    exact h.initiatorSized i hi
  · exact h.joinerSized
  · intro i' hi' hne
    obtain ⟨hid, hsign⟩ := h.initiatorSized i hi
    rw [hkept i' hi', reply_failed_secret hid hsign hpeer hreply] at hne
    obtain ⟨key, hkey⟩ := h.replied i hi hne
    refine ⟨key, hkey.older ?_⟩
    rintro ⟨⟨_, hkind⟩, -⟩
    cases hkind
  · intro j hj
    exact absurd (hj.symm.trans hjoiner) (Option.some_ne_none _)
  · exact .inr hjoiner
  · intro hdead
    rcases dead_cons hdead with hforget | hlimit | hdead
    · cases hforget.1
    · rw [show maxAttempts ≤ _ ↔ _ from Iff.of_eq (congrArg _ hcount)] at hlimit
      refine ⟨?_, hjoiner⟩
      rw [hnow, if_pos ((s.spent_iff _).mpr hlimit)]
    · exact absurd hdead (h.not_dead (.inl hsome))
  · intro hlimit
    exact ⟨_, List.mem_cons_self, .inr hlimit⟩
  · rw [hfailed]
    have := h.counted hsome
    omega
  · intro _
    rw [hfailed, hcount]
    exact Nat.add_le_add_right (h.counted hsome) 1
  · exact h.device

theorem InvAt.replied_next {p : ReplyParams} {i : Initiator} {f : ReplyFrame} {reply : PairReply}
    (h : InvAt es s p.pairingId) (hi : s.initiator p.pairingId = some i)
    (hframe : p.frame = some f) :
    InvAt (⟨s, .pairReply (some p), s.putInitiator p.pairingId (some (i.reply C f).2),
        .ok reply⟩ :: es)
      (s.putInitiator p.pairingId (some (i.reply C f).2)) p.pairingId := by
  have hsome : s.initiator p.pairingId ≠ none := by
    rw [hi]
    exact Option.some_ne_none _
  have hjoiner : s.joiner p.pairingId = none := h.apart.resolve_left hsome
  have hlive := h.not_dead (.inl hsome)
  have hnow : (s.putInitiator p.pairingId (some (i.reply C f).2)).initiator p.pairingId =
      some (i.reply C f).2 := Function.update_self _ _ _
  have hfailed : failedReplies p.pairingId (⟨s, .pairReply (some p),
      s.putInitiator p.pairingId (some (i.reply C f).2), .ok reply⟩ :: es) =
      failedReplies p.pairingId es := by
    apply failedReplies_other
    · rintro ⟨⟨_, hkind⟩, -⟩
      cases hkind
    · rintro ⟨-, -, message, hans⟩
      cases hans
  constructor
  · intro i' hi'
    rw [hnow] at hi'
    cases hi'
    rw [(reply_fields i f).1, (reply_fields i f).2]
    exact h.initiatorSized i hi
  · exact h.joinerSized
  · intro _ _ _
    have hkey : hexDecode p.pubEnc = some f.pubEnc := by
      unfold ReplyParams.frame at hframe
      obtain ⟨_, -, hframe⟩ := Option.bind_eq_some_iff.mp hframe
      obtain ⟨_, -, hframe⟩ := Option.bind_eq_some_iff.mp hframe
      obtain ⟨_, -, hframe⟩ := Option.bind_eq_some_iff.mp hframe
      obtain ⟨_, hkey, hframe⟩ := Option.bind_eq_some_iff.mp hframe
      cases hframe
      exact hkey
    exact ⟨f.pubEnc, .newest ⟨⟨p, rfl, hkey⟩, rfl, reply, rfl⟩⟩
  · intro j hj
    exact absurd (hj.symm.trans hjoiner) (Option.some_ne_none _)
  · exact .inr hjoiner
  · intro hdead
    rcases dead_cons hdead with hforget | hlimit | hdead
    · cases hforget.1
    · exact absurd (h.limit hlimit) hlive
    · exact absurd hdead hlive
  · intro hlimit
    exact absurd (h.limit hlimit) hlive
  · rw [hfailed]
    exact h.guesses
  · intro _
    rw [hfailed]
    exact h.counted hsome
  · exact h.device

theorem InvAt.joined {p : JoinParams} {fresh : Option DeviceKeys} {device : DeviceKeys}
    {rnd : Bytes} {j : Joiner} {f : ReplyFrame} {reply : PairReply} {s' : PairState}
    (hs' : s' = { s with vault := { s.vault with device := some device } }.putJoiner p.pairingId
      (some j)) (h : InvAt es s p.pairingId) (hjoin : JoinAccepted C device p rnd j f)
    (hlive : ¬ Dead p.pairingId es) (hinitiator : s.initiator p.pairingId = none) :
    InvAt (⟨s, .pairJoin (some p) fresh rnd, s', .ok reply⟩ :: es) s' p.pairingId := by
  obtain ⟨hsized, hdone⟩ := join_fields hjoin
  have hnow : s'.joiner p.pairingId = some j := by
    rw [hs']
    exact Function.update_self _ _ _
  have hinitiator' : s'.initiator p.pairingId = none := by
    rw [hs']
    exact hinitiator
  have hattempts : s'.attempts p.pairingId = s.attempts p.pairingId := by
    rw [hs']
    rfl
  have hfailed : failedReplies p.pairingId (⟨s, .pairJoin (some p) fresh rnd, s', .ok reply⟩ :: es) =
      failedReplies p.pairingId es := by
    apply failedReplies_other
    · rintro ⟨⟨_, hkind⟩, -⟩
      cases hkind
    · rintro ⟨⟨_, hkind⟩, -⟩
      cases hkind
  constructor
  · intro i hi
    exact absurd (hi.symm.trans hinitiator') (Option.some_ne_none _)
  · intro j' hj'
    rw [hnow] at hj'
    cases hj'
    exact hsized
  · intro i hi
    exact absurd (hi.symm.trans hinitiator') (Option.some_ne_none _)
  · intro j' hj' hdone'
    rw [hnow] at hj'
    cases hj'
    rw [hdone] at hdone'
    cases hdone'
  · exact .inl hinitiator'
  · intro hdead
    rcases dead_cons hdead with hforget | hlimit | hdead
    · cases hforget.1
    · rw [show maxAttempts ≤ _ ↔ _ from Iff.of_eq (congrArg _ hattempts)] at hlimit
      exact absurd (h.limit hlimit) hlive
    · exact absurd hdead hlive
  · rw [hattempts]
    intro hlimit
    exact absurd (h.limit hlimit) hlive
  · rw [hfailed]
    exact h.guesses
  · intro hi
    exact absurd hinitiator' hi
  · intro _
    rw [hs']
    exact Option.some_ne_none _

theorem InvAt.confirmFailed {p : ConfirmParams} {j : Joiner} {confirmA : Bytes} {message : String}
    (h : InvAt es s p.pairingId) (hj : s.joiner p.pairingId = some j)
    (hconfirm : (j.confirm C confirmA).1 = false) :
    InvAt (⟨s, .pairConfirm (some p), s.confirmFailed p.pairingId (j.confirm C confirmA).2,
        pairError .sasMismatch message⟩ :: es)
      (s.confirmFailed p.pairingId (j.confirm C confirmA).2) p.pairingId := by
  have hsome : s.joiner p.pairingId ≠ none := by
    rw [hj]
    exact Option.some_ne_none _
  have hinitiator : s.initiator p.pairingId = none := h.apart.resolve_right hsome
  have hnow : (s.confirmFailed p.pairingId (j.confirm C confirmA).2).joiner p.pairingId =
      if s.spent p.pairingId then none else some (j.confirm C confirmA).2 :=
    Function.update_self _ _ _
  have hcount : (s.confirmFailed p.pairingId (j.confirm C confirmA).2).attempts p.pairingId =
      s.attempts p.pairingId + 1 := Function.update_self _ _ _
  have hfailed : failedReplies p.pairingId (⟨s, .pairConfirm (some p),
      s.confirmFailed p.pairingId (j.confirm C confirmA).2, pairError .sasMismatch message⟩ :: es) =
      failedReplies p.pairingId es := by
    apply failedReplies_other
    · rintro ⟨⟨_, hkind⟩, -⟩
      cases hkind
    · rintro ⟨⟨_, hkind⟩, -⟩
      cases hkind
  have hkept : ∀ j', (s.confirmFailed p.pairingId (j.confirm C confirmA).2).joiner p.pairingId =
      some j' → j' = (j.confirm C confirmA).2 := by
    intro j' hj'
    rw [hnow] at hj'
    split_ifs at hj'
    cases hj'
    rfl
  obtain ⟨hsized, hdone⟩ := confirm_fields (C := C) j confirmA (h.joinerSized j hj)
  constructor
  · intro i hi
    exact absurd (hi.symm.trans hinitiator) (Option.some_ne_none _)
  · intro j' hj'
    rw [hkept j' hj']
    exact hsized
  · intro i hi
    exact absurd (hi.symm.trans hinitiator) (Option.some_ne_none _)
  · intro j' hj' hdone'
    rw [hkept j' hj', hdone hconfirm] at hdone'
    refine (h.confirmed j hj hdone').older ?_
    rintro ⟨⟨_, _, _, hkind⟩, -⟩
    cases hkind
  · exact .inl hinitiator
  · intro hdead
    rcases dead_cons hdead with hforget | hlimit | hdead
    · cases hforget.1
    · rw [show maxAttempts ≤ _ ↔ _ from Iff.of_eq (congrArg _ hcount)] at hlimit
      refine ⟨hinitiator, ?_⟩
      rw [hnow, if_pos ((s.spent_iff _).mpr hlimit)]
    · exact absurd hdead (h.not_dead (.inr hsome))
  · intro hlimit
    exact ⟨_, List.mem_cons_self, .inr hlimit⟩
  · rw [hfailed]
    exact h.guesses
  · intro hi
    exact absurd hinitiator hi
  · intro _
    exact h.device hsome

theorem InvAt.confirmed_next {p : ConfirmParams} {j : Joiner} {confirmA : Bytes} {reply : PairReply}
    (h : InvAt es s p.pairingId) (hj : s.joiner p.pairingId = some j) :
    InvAt (⟨s, .pairConfirm (some p), s.putJoiner p.pairingId (some (j.confirm C confirmA).2),
        .ok reply⟩ :: es)
      (s.putJoiner p.pairingId (some (j.confirm C confirmA).2)) p.pairingId := by
  have hsome : s.joiner p.pairingId ≠ none := by
    rw [hj]
    exact Option.some_ne_none _
  have hinitiator : s.initiator p.pairingId = none := h.apart.resolve_right hsome
  have hlive := h.not_dead (.inr hsome)
  have hnow : (s.putJoiner p.pairingId (some (j.confirm C confirmA).2)).joiner p.pairingId =
      some (j.confirm C confirmA).2 := Function.update_self _ _ _
  have hfailed : failedReplies p.pairingId (⟨s, .pairConfirm (some p),
      s.putJoiner p.pairingId (some (j.confirm C confirmA).2), .ok reply⟩ :: es) =
      failedReplies p.pairingId es := by
    apply failedReplies_other
    · rintro ⟨⟨_, hkind⟩, -⟩
      cases hkind
    · rintro ⟨⟨_, hkind⟩, -⟩
      cases hkind
  constructor
  · intro i hi
    exact absurd (hi.symm.trans hinitiator) (Option.some_ne_none _)
  · intro j' hj'
    rw [hnow] at hj'
    cases hj'
    exact (confirm_fields j confirmA (h.joinerSized j hj)).1
  · intro i hi
    exact absurd (hi.symm.trans hinitiator) (Option.some_ne_none _)
  · intro _ _ _
    exact .newest ⟨⟨p, rfl⟩, rfl, reply, rfl⟩
  · exact .inl hinitiator
  · intro hdead
    rcases dead_cons hdead with hforget | hlimit | hdead
    · cases hforget.1
    · exact absurd (h.limit hlimit) hlive
    · exact absurd hdead hlive
  · intro hlimit
    exact absurd (h.limit hlimit) hlive
  · rw [hfailed]
    exact h.guesses
  · intro hi
    exact absurd hinitiator hi
  · intro _
    exact h.device hsome

theorem InvAt.forgot {id : PairText} {reply : PairReply} {s' : PairState}
    (hs' : s' = { (s.putInitiator id none).putJoiner id none with
      attempts := Function.update s.attempts id 0 }) (h : InvAt es s id) :
    InvAt (⟨s, .pairForget (some id), s', .ok reply⟩ :: es) s' id := by
  have hinitiator : s'.initiator id = none := by
    rw [hs']
    exact Function.update_self _ _ _
  have hjoiner : s'.joiner id = none := by
    rw [hs']
    exact Function.update_self _ _ _
  have hattempts : s'.attempts id = 0 := by
    rw [hs']
    exact Function.update_self _ _ _
  constructor
  · intro i hi
    exact absurd (hi.symm.trans hinitiator) (Option.some_ne_none _)
  · intro j hj
    exact absurd (hj.symm.trans hjoiner) (Option.some_ne_none _)
  · intro i hi
    exact absurd (hi.symm.trans hinitiator) (Option.some_ne_none _)
  · intro j hj
    exact absurd (hj.symm.trans hjoiner) (Option.some_ne_none _)
  · exact .inl hinitiator
  · intro _
    exact ⟨hinitiator, hjoiner⟩
  · rw [hattempts]
    intro hlimit
    exact absurd hlimit (by decide)
  · rw [failedReplies_other]
    · exact h.guesses
    · rintro ⟨⟨_, hkind⟩, -⟩
      cases hkind
    · rintro ⟨⟨_, hkind⟩, -⟩
      cases hkind
  · intro hi
    exact absurd hinitiator hi
  · intro hj
    exact absurd hjoiner hj

end Named

theorem inv_next {es : List PairEvent} {r : PairRequest} {s' : PairState} {ans : PairAnswer}
    (hstep : PairStep C s r s' ans) (hcare : Careful C es s r) (hinv : ∀ id, InvAt es s id)
    (id : PairText) : InvAt (⟨s, r, s', ans⟩ :: es) s' id := by
  by_cases hid : r.id = some id
  · cases hstep with
    | refused hcode =>
      exact (hinv id).kept (e := ⟨s, r, s, _⟩) (.of_refused hcode) rfl rfl rfl fun h => h
    | @begun draw pid i reply hdraw hsecret hpid hsign =>
      have hname : hexEncode pid.bytes = id := by
        rw [PairRequest.id, hdraw, Option.map_some] at hid
        exact Option.some.inj hid
      have hcare := hcare id hid
      subst hname
      exact (hinv _).begun hdraw hsecret hpid hsign hcare
    | replyFailed hi hattempts hframe hreply =>
      cases hid
      exact (hinv _).replyFailed hi hattempts hreply (hcare _ hframe)
    | replied hi hattempts hframe hreply =>
      cases hid
      exact (hinv _).replied_next hi hframe
    | @minted p device rnd code message hdevice hcode hnot =>
      obtain ⟨-, -, hmint⟩ := hcare
      obtain ⟨j, f, hjoin⟩ := hmint device hdevice rfl
      exact absurd hjoin (hnot j f)
    | joined hdevice hjoin =>
      cases hid
      exact InvAt.joined rfl (hinv _) hjoin hcare.1 hcare.2.1
    | confirmFailed hj hconfirm =>
      cases hid
      exact (hinv _).confirmFailed hj hconfirm
    | @panicked p j j' message hj hdevice =>
      cases hid
      refine absurd hdevice ((hinv p.pairingId).device ?_)
      rw [hj]
      exact Option.some_ne_none _
    | confirmed hj =>
      cases hid
      exact (hinv _).confirmed_next hj
    | @handedOff p rnd key i reply =>
      have hquiet : Quiet id ⟨s, .pairHandoff (some p) rnd, s, .ok reply⟩ := by
        refine ⟨?_, ?_, ?_, ?_⟩
        · rintro ⟨⟨_, hkind⟩, -⟩
          cases hkind
        · rintro ⟨⟨_, _, _, hkind⟩, -⟩
          cases hkind
        · rintro ⟨⟨_, hkind⟩, -⟩
          cases hkind
        · rintro ⟨hkind, -⟩
          cases hkind
      exact (hinv id).kept (e := ⟨s, _, s, _⟩) hquiet rfl rfl rfl fun h => h
    | @accepted p j acct h k reply =>
      have hquiet : Quiet id ⟨s, .pairAccept (some p), { s with vault := s.vault.join h k },
          .ok reply⟩ := by
        refine ⟨?_, ?_, ?_, ?_⟩
        · rintro ⟨⟨_, hkind⟩, -⟩
          cases hkind
        · rintro ⟨⟨_, _, _, hkind⟩, -⟩
          cases hkind
        · rintro ⟨⟨_, hkind⟩, -⟩
          cases hkind
        · rintro ⟨hkind, -⟩
          cases hkind
      exact (hinv id).kept (e := ⟨s, _, { s with vault := s.vault.join h k }, _⟩) hquiet rfl rfl rfl
        fun h => h
    | forgot =>
      cases hid
      exact InvAt.forgot rfl (hinv _)
  · obtain ⟨hinitiator, hjoiner, hattempts⟩ := hstep.frame hid
    exact (hinv id).kept (e := ⟨s, r, s', ans⟩) (.of_id hid) hinitiator hjoiner hattempts
      hstep.device

/-! ## The epoch keys are the account's -/

theorem OwnEpochs.empty : OwnEpochs C .empty := by
  intro n k h
  cases h

theorem OwnEpochs.withDevice {v : Vault} (h : OwnEpochs C v) (device : Option DeviceKeys) :
    OwnEpochs C { v with device } := h

theorem OwnEpochs.join {v : Vault} {h : Handoff} {k : EpochKeys} (hv : OwnEpochs C v)
    (hown : v.account = h.accountID ∨ v.epochs = .empty)
    (hderive : deriveEpoch C.toCrypto h.akSeed h.accountID h.epoch = .ok k) :
    OwnEpochs C (v.join h k) := by
  intro n k' hk'
  have hget : (v.epochs.set h.epoch k).get n = some k' := hk'
  rw [JsMap.get_set] at hget
  split_ifs at hget with hn
  · cases hget
    rw [hn]
    exact ⟨h.akSeed, hderive⟩
  · rcases hown with hown | hown
    · have hold := hv n k' hget
      rw [hown] at hold
      exact hold
    · rw [hown] at hget
      cases hget

theorem own_next {es : List PairEvent} {r : PairRequest} {s' : PairState} {ans : PairAnswer}
    (hstep : PairStep C s r s' ans) (hcare : Careful C es s r) (hown : OwnEpochs C s.vault) :
    OwnEpochs C s'.vault := by
  cases hstep with
  | minted => exact hown.withDevice _
  | joined => exact hown.withDevice _
  | accepted hj hacct hsame hderive =>
    apply hown.join _ hderive
    rw [hsame]
    exact hcare.2 _ hacct
  | refused | begun | replyFailed | replied | confirmFailed | panicked | confirmed | handedOff |
    forgot => exact hown

/-! ## Every event of a careful run is safe -/

section Safe
variable {es : List PairEvent} {r : PairRequest} {s' : PairState} {ans : PairAnswer}

theorem handoff_safe (hstep : PairStep C s r s' ans) (hcare : Careful C es s r)
    (hinv : ∀ id, InvAt es s id) (p : HandoffParams) (rnd : Bytes)
    (hr : r = .pairHandoff (some p) rnd) (hok : PairEvent.Succeeds ⟨s, r, s', ans⟩) :
    ∃ key, hexDecode p.peerPubEnc = some key ∧
      Since (PairEvent.Replied p.pairingId key) (PairEvent.Begins p.pairingId) es := by
  subst hr
  cases hstep with
  | refused hcode =>
    obtain ⟨reply, hreply⟩ := hok
    cases hreply
  | handedOff hi hsecret hkey =>
    obtain ⟨key', hsince⟩ := (hinv p.pairingId).replied _ hi hsecret
    refine ⟨_, hkey, ?_⟩
    rw [hcare _ key' hkey hsince]
    exact hsince

theorem accept_safe (hstep : PairStep C s r s' ans) (hcare : Careful C es s r)
    (hinv : ∀ id, InvAt es s id) (p : AcceptParams) (hr : r = .pairAccept (some p))
    (hvault : s'.vault ≠ s.vault) :
    Since (PairEvent.Confirmed p.pairingId) (PairEvent.Joins p.pairingId) es := by
  subst hr
  cases hstep with
  | refused hcode => exact absurd rfl hvault
  | accepted hj => exact (hinv p.pairingId).confirmed _ hj (hcare.1 _ hj)

/-- A success that is not a forget names an id that is still alive. -/
theorem dead_safe (hstep : PairStep C s r s' ans) (hcare : Careful C es s r)
    (hinv : ∀ id, InvAt es s id) (id : PairText) (hdead : Dead id es) (hid : r.id = some id)
    (hforget : ¬ PairEvent.Forgets id ⟨s, r, s', ans⟩) :
    ¬ PairEvent.Succeeds ⟨s, r, s', ans⟩ := by
  intro hok
  obtain ⟨hnoInitiator, hnoJoiner⟩ := (hinv id).dead hdead
  have hinitiator : ∀ i, s.initiator id ≠ some i := fun i hi => by
    rw [hnoInitiator] at hi
    cases hi
  have hjoiner : ∀ j, s.joiner id ≠ some j := fun j hj => by
    rw [hnoJoiner] at hj
    cases hj
  obtain ⟨reply, hreply⟩ := hok
  cases hstep with
  | refused | replyFailed | minted | confirmFailed | panicked => cases hreply
  | begun => exact (hcare id hid).1 hdead
  | joined =>
    cases hid
    exact hcare.1 hdead
  | replied hi =>
    cases hid
    exact hinitiator _ hi
  | handedOff hi =>
    cases hid
    exact hinitiator _ hi
  | confirmed hj =>
    cases hid
    exact hjoiner _ hj
  | accepted hj =>
    cases hid
    exact hjoiner _ hj
  | forgot =>
    cases hid
    exact hforget ⟨rfl, _, rfl⟩

theorem error_safe (hstep : PairStep C s r s' ans) (hcare : Careful C es s r)
    (herror : ¬ PairEvent.Succeeds ⟨s, r, s', ans⟩) : s'.vault = s.vault := by
  cases hstep with
  | refused | replyFailed | confirmFailed | panicked => rfl
  | @minted p device rnd code message hdevice hcode hnot =>
    obtain ⟨-, -, hmint⟩ := hcare
    obtain ⟨j, f, hjoin⟩ := hmint device hdevice rfl
    exact absurd hjoin (hnot j f)
  | begun | replied | joined | confirmed | handedOff | accepted | forgot =>
    exact absurd ⟨_, rfl⟩ herror

theorem event_safe (hstep : PairStep C s r s' ans) (hcare : Careful C es s r)
    (hinv : ∀ id, InvAt es s id) (hown : OwnEpochs C s.vault) :
    EventSafe C ⟨s, r, s', ans⟩ es where
  handoff := handoff_safe hstep hcare hinv
  accept := accept_safe hstep hcare hinv
  guesses id := (inv_next hstep hcare hinv id).guesses
  dead := dead_safe hstep hcare hinv
  unchanged := error_safe hstep hcare
  epochs _ := own_next hstep hcare hown

end Safe

theorem InvAt.start (v : Vault) (id : PairText) : InvAt [] (.start v) id where
  initiatorSized i hi := by cases hi
  joinerSized j hj := by cases hj
  replied i hi := by cases hi
  confirmed j hj := by cases hj
  apart := .inl rfl
  dead _ := ⟨rfl, rfl⟩
  limit h := absurd h (Nat.not_succ_le_zero 2)
  guesses := Nat.zero_le _
  counted _ := Nat.zero_le _
  device h := absurd rfl h

theorem run_inv {v : Vault} {es : List PairEvent} {s : PairState} (hv : OwnEpochs C v)
    (hrun : PairRun C (Careful C) v es s) :
    (∀ id, InvAt es s id) ∧ OwnEpochs C s.vault ∧ KeysSafe C es := by
  induction hrun with
  | start =>
    refine ⟨InvAt.start v, hv, ?_⟩
    intro newer e older h
    cases newer <;> cases h
  | @next es s r hrun hcare ih =>
    obtain ⟨hinv, hown, hsafe⟩ := ih
    have hstep := pair_step (C := C) (s := s) r
    refine ⟨inv_next hstep hcare hinv, own_next hstep hcare hown, ?_⟩
    intro newer e older h
    cases newer with
    | nil =>
      cases h
      exact event_safe hstep hcare hinv hown
    | cons x newer =>
      cases h
      exact hsafe newer e older rfl

theorem keys_move_only_when_confirmed {v : Vault} {es : List PairEvent} {s : PairState}
    (hv : OwnEpochs C v) (hrun : PairRun C (Careful C) v es s) : KeysSafe C es :=
  (run_inv hv hrun).2.2

/-! ## A device that joins -/

/-- An exchange small enough to compute with, over the checksum. -/
def toyPair : PairCrypto where
  toCrypto := { toyCrypto with publicOf seed := (seed ++ List.replicate 32 0).take publicKeySize }
  normaliseCode code := some code
  spakeStart _ password rnd := some (rnd, password)
  spakeFinish state _ := some (checksum state)
  hkdfKey secret label len :=
    (List.range len).map fun k => (checksum (secret ++ label)).headD 0 + k.toUInt8
  agreementPub scalar := scalar
  hpkeSender recipient info rnd := some (rnd, rnd ++ checksum (recipient ++ info))
  hpkeSeal _ _ plaintext := some plaintext
  publicOf_length seed := by simp [publicKeySize]
  spakeFinish_ne state peer secret h := by
    cases h
    exact List.cons_ne_nil _ _

def toyDevice : DeviceKeys := ⟨List.replicate 32 6, List.replicate 32 7⟩
def toyPairingID : PairText := List.replicate 32 'a'
def toyInitPub : Bytes := List.replicate 32 8

def toyJoin : JoinParams where
  code := ['c']
  pairingId := toyPairingID
  msgA := base64Encode [1]
  pubSign := hexEncode toyInitPub

def toySecret : Bytes :=
  checksum (password toyPair ['c'] ((hexDecode toyPairingID).getD []))

def toyConfirm : ConfirmParams where
  pairingId := toyPairingID
  confirmA := base64Encode (confirmations toyPair toySecret ((hexDecode toyPairingID).getD [])
    toyInitPub (toyPair.publicOf toyDevice.signSeed)).1

def toyAccept : AcceptParams where
  pairingId := toyPairingID
  handoff := base64Encode ((sealHandoff toyPair
    { accountID := toyAccount, epoch := 2, counter := 1, akSeed := List.replicate 32 2
      rootSignPub := toyRoot, headEntry := [1] } toyDevice.enc toySecret [4]).getD [])
  epoch := 2
  counter := 1
  accountId := hexEncode toyAccount

def toyJoined : PairState :=
  ((PairState.start .empty).step toyPair (.pairJoin (some toyJoin) (some toyDevice) [2])).1

def toyConfirmed : PairState := (toyJoined.step toyPair (.pairConfirm (some toyConfirm))).1

def toyAccepted : PairState := (toyConfirmed.step toyPair (.pairAccept (some toyAccept))).1

theorem toyJoin_accepted :
    ∃ j f, JoinAccepted toyPair toyDevice toyJoin [2] j f := by
  obtain ⟨⟨j, f⟩, hjoin⟩ : ∃ out, joinSession toyPair ['c'] (List.replicate 16 0xaa) [1] toyInitPub
      (toyPair.publicOf toyDevice.signSeed) (toyPair.agreementPub toyDevice.enc) [2] = some out :=
    Option.isSome_iff_exists.mp (by decide)
  exact ⟨j, f, List.replicate 16 0xaa, [1], toyInitPub, by decide, by decide,
    by decide, hjoin⟩

theorem toyConfirmed_done :
    (toyConfirmed.joiner toyAccept.pairingId).all Joiner.done = true ∧
      toyConfirmed.vault.epochs.entries.isEmpty = true := by
  decide +kernel

theorem PairRun.reaches {ok : List PairEvent → PairState → PairRequest → Prop} {v : Vault}
    {es : List PairEvent} {s s' : PairState} {r : PairRequest} (hrun : PairRun C ok v es s)
    (hs' : s' = (s.step C r).1) (hok : ok es s r) :
    ∃ e : PairEvent, (e.before = s ∧ e.request = r ∧ e.after = s') ∧ PairRun C ok v (e :: es) s' := by
  subst hs'
  exact ⟨_, ⟨rfl, rfl, rfl⟩, hrun.next hok⟩

theorem keys_move_only_when_confirmed_joining :
    (∃ es, PairRun toyPair (Careful toyPair) .empty es toyAccepted ∧ KeysSafe toyPair es) ∧
      toyAccepted.vault.epochs.keys = [2] := by
  refine ⟨?_, by decide +kernel⟩
  have hjoin : Careful toyPair [] (.start .empty)
      (.pairJoin (some toyJoin) (some toyDevice) [2]) := by
    refine ⟨?_, rfl, ?_⟩
    · rintro ⟨e, he, -⟩
      cases he
    · intro device _ hdevice
      cases hdevice
      exact toyJoin_accepted
  obtain ⟨e₁, -, hrun₁⟩ := PairRun.start.reaches toyJoined.eq_1 hjoin
  obtain ⟨e₂, -, hrun₂⟩ := hrun₁.reaches toyConfirmed.eq_1 trivial
  have haccept : Careful toyPair [e₂, e₁] toyConfirmed (.pairAccept (some toyAccept)) := by
    obtain ⟨hdone, hepochs⟩ := toyConfirmed_done
    constructor
    · intro j hj
      rw [hj] at hdone
      exact hdone
    · intro _ _
      exact .inr (JsMap.ext_entries (List.isEmpty_iff.mp hepochs))
  obtain ⟨e₃, -, hrun₃⟩ := hrun₂.reaches toyAccepted.eq_1 haccept
  exact ⟨_, hrun₃, keys_move_only_when_confirmed OwnEpochs.empty hrun₃⟩

/-- Accepting the handoff without ever confirming the pairing. -/
theorem keys_move_unconfirmed :
    ∃ es s, PairRun toyPair (fun _ _ _ => True) .empty es s ∧ ¬ KeysSafe toyPair es := by
  have hstart : PairRun toyPair (fun _ _ _ => True) .empty [] (.start .empty) := .start
  obtain ⟨e₁, ⟨-, hjoin, -⟩, hrun₁⟩ := hstart.reaches toyJoined.eq_1 trivial
  obtain ⟨e₂, ⟨hbefore, haccept, hafter⟩, hrun₂⟩ := hrun₁.reaches
    (r := .pairAccept (some toyAccept)) rfl trivial
  refine ⟨_, _, hrun₂, ?_⟩
  intro hsafe
  have hmoved : e₂.after.vault ≠ e₂.before.vault := by
    rw [hbefore, hafter]
    intro hsame
    have hloaded := congrArg Vault.loaded hsame
    revert hloaded
    decide +kernel
  obtain ⟨newer, e, older, hes, ⟨⟨_, hconfirm⟩, -⟩, -⟩ :=
    (hsafe [] e₂ [e₁] rfl).accept toyAccept haccept hmoved
  have he : e ∈ newer ++ e :: older := List.mem_append_right _ List.mem_cons_self
  rw [← hes] at he
  rw [List.mem_singleton.mp he, hjoin] at hconfirm
  cases hconfirm

end OpsMaxx.Sidecar
