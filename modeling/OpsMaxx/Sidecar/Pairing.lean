import Mathlib.Logic.Function.Basic
import OpsMaxx.Sidecar.Vault

/-! # Pairing two devices

The device that shows a code and the device it is typed into agree on a secret by a password
exchange, confirm it to each other, and then the account's key is handed over, sealed to the joining
device and bound to the secret. The sidecar serves one request at a time. What it draws at random
comes with the request.
-/

set_option autoImplicit false

namespace OpsMaxx.Sidecar
open OpsMaxx.Store

abbrev PairText : Type := List Char

/-- The password exchange and the sealing beside the vault's primitives. A key derivation is never
asked for more bytes than it can give. -/
structure PairCrypto extends Crypto where
  normaliseCode : PairText → Option PairText
  spakeStart : (initiator : Bool) → (password rnd : Bytes) → Option (Bytes × Bytes)
  spakeFinish : (state peer : Bytes) → Option Bytes
  hkdfKey : (secret label : Bytes) → (len : Nat) → Bytes
  agreementPub : (scalar : Bytes) → Bytes
  hpkeSender : (recipient info rnd : Bytes) → Option (Bytes × Bytes)
  hpkeSeal : (ctx aad plaintext : Bytes) → Option Bytes
  publicOf_length : ∀ seed, (publicOf seed).length = publicKeySize
  spakeFinish_ne : ∀ state peer secret, spakeFinish state peer = some secret → secret ≠ []

/-! ## A session on either side -/

def pairingIDLen : Nat := 16
def confirmLen : Nat := 32
def pwLabel : Bytes := ascii "addy-pake-pw-v1"
def confirmLabel : Bytes := ascii "addy-pair-confirm-v1"
def sasInfo : Bytes := ascii "addy-sas-v1"

def charBytes (s : PairText) : Bytes := s.map fun c => c.toNat.toUInt8

def password (C : PairCrypto) (code : PairText) (pairingID : Bytes) : Bytes :=
  C.sha256 (pwLabel ++ [0] ++ Encoder.bytes (charBytes code) ++ pairingID)

/-- A tag, a NUL, then each part behind its own length. -/
def lengthPrefixed (tag : Bytes) (parts : List Bytes) : Bytes :=
  tag ++ [0] ++ parts.flatMap Encoder.bytes

def confirmations (C : PairCrypto) (secret pairingID initPubSign joinPubSign : Bytes) :
    Bytes × Bytes :=
  let okm := C.hkdfKey secret (lengthPrefixed confirmLabel [pairingID, initPubSign, joinPubSign])
    (confirmLen * 2)
  (okm.take confirmLen, okm.drop confirmLen)

/-- The six bytes the comparison emoji are read off; none without a secret and both keys. -/
def deriveSAS (C : PairCrypto) (secret pairingID initPubSign joinPubSign : Bytes) : Option Bytes :=
  if secret = [] ∨ pairingID = [] ∨ initPubSign = [] ∨ joinPubSign = [] then none
  else some (C.hkdfKey secret (lengthPrefixed sasInfo [pairingID, initPubSign, joinPubSign]) 6)

structure Initiator where
  pairingID : Bytes
  pubSign : Bytes
  spake : Bytes
  finished : Bool
  secret : Option Bytes
  peer : Bytes
  sas : Bytes

structure Joiner where
  pairingID : Bytes
  pubSign : Bytes
  secret : Bytes
  initPub : Bytes
  done : Bool
  sas : Bytes

structure ReplyFrame where
  msgB : Bytes
  confirmB : Bytes
  pubSign : Bytes
  pubEnc : Bytes

/-- Consume the reply frame; the exchange can be finished only once. -/
def Initiator.reply (C : PairCrypto) (i : Initiator) (f : ReplyFrame) : Option Bytes × Initiator :=
  if i.secret.isSome ∨ i.finished then (none, i)
  else
    let i := { i with finished := true }
    match C.spakeFinish i.spake f.msgB with
    | none => (none, i)
    | some secret =>
      let (confA, confB) := confirmations C secret i.pairingID i.pubSign f.pubSign
      if confB ≠ f.confirmB then (none, i)
      else
        let i := { i with secret := some secret, peer := f.pubSign }
        match deriveSAS C secret i.pairingID i.pubSign f.pubSign with
        | none => (none, i)
        | some sas => (some confA, { i with sas := sas })

/-- Answer the start frame; the joiner has the secret at once. -/
def joinSession (C : PairCrypto) (code : PairText) (pairingID msgA initPub pubSign pubEnc : Bytes)
    (rnd : Bytes) : Option (Joiner × ReplyFrame) := do
  let normalised ← C.normaliseCode code
  if pairingID.length ≠ pairingIDLen then none
  else
  let (msgB, st) ← C.spakeStart false (password C normalised pairingID) rnd
  let secret ← C.spakeFinish st msgA
  if initPub = [] then none
  else
  some ({ pairingID, pubSign, secret, initPub, done := false, sas := [] },
    { msgB, confirmB := (confirmations C secret pairingID initPub pubSign).2, pubSign, pubEnc })

def Joiner.confirm (C : PairCrypto) (j : Joiner) (confirmA : Bytes) : Bool × Joiner :=
  if j.done then (false, j)
  else if (confirmations C j.secret j.pairingID j.initPub j.pubSign).1 ≠ confirmA then (false, j)
  else
    let j := { j with done := true }
    match deriveSAS C j.secret j.pairingID j.initPub j.pubSign with
    | none => (false, j)
    | some sas => (true, { j with sas := sas })

/-! ## Sealing the handoff -/

def Handoff.encodePlaintext (h : Handoff) : Option Bytes :=
  if h.akSeed.length ≠ 32 ∨ h.rootSignPub.length ≠ publicKeySize ∨ h.headEntry = [] ∨
      h.counter = 0 then none
  else some (Encoder.new domainHandoffPlaintext ++ Encoder.fixed h.accountID ++
    Encoder.u64 h.epoch ++ Encoder.u64 h.counter ++ Encoder.fixed h.akSeed ++
    Encoder.fixed h.rootSignPub ++ Encoder.bytes h.headEntry)

/-- Seal to the joining device's key, bound to the secret of the exchange. -/
def sealHandoff (C : PairCrypto) (h : Handoff) (recipient binding rnd : Bytes) : Option Bytes :=
  if binding = [] then none
  else do
    let plaintext ← h.encodePlaintext
    let (enc, ctx) ← C.hpkeSender recipient (handoffInfo h.accountID h.epoch binding) rnd
    let ct ← C.hpkeSeal ctx (handoffAad h.accountID h.epoch h.counter) plaintext
    let commit ← C.hpkeExport ctx (handoffCommitContext h.accountID h.epoch h.counter)
    some (Encoder.new domainHandoffObject ++ Encoder.u8 suitePinned ++ Encoder.bytes enc ++
      Encoder.fixed commit ++ Encoder.bytes ct)

/-! ## Requests and answers -/

inductive PairErrCode where
  | vault (code : ErrCode)
  | pairingExpired | sasMismatch
  deriving DecidableEq, Repr

structure PairError where
  code : PairErrCode
  message : String
  deriving DecidableEq, Repr

/-- The name of a session: random bytes, in the clear. -/
structure PairingID where
  bytes : Bytes
  length_eq : bytes.length = pairingIDLen

structure BeginDraw where
  code : Option PairText
  id : Option PairingID
  rnd : Bytes

structure ReplyParams where
  pairingId : PairText
  msgB : PairText
  confirmB : PairText
  pubSign : PairText
  pubEnc : PairText

structure JoinParams where
  code : PairText
  pairingId : PairText
  msgA : PairText
  pubSign : PairText

structure ConfirmParams where
  pairingId : PairText
  confirmA : PairText

structure HandoffParams where
  pairingId : PairText
  epoch : UInt64
  akSeed : PairText
  headEntry : PairText
  peerPubEnc : PairText
  counter : UInt64

structure AcceptParams where
  pairingId : PairText
  handoff : PairText
  epoch : UInt64
  counter : UInt64
  accountId : PairText

/-- A request, with the randomness it is served with. -/
inductive PairRequest where
  | pairBegin (draw : BeginDraw)
  | pairReply (params : Option ReplyParams)
  | pairJoin (params : Option JoinParams) (fresh : Option DeviceKeys) (rnd : Bytes)
  | pairConfirm (params : Option ConfirmParams)
  | pairHandoff (params : Option HandoffParams) (rnd : Bytes)
  | pairAccept (params : Option AcceptParams)
  | pairForget (pairingId : Option PairText)

inductive PairReply where
  | begun (code pairingId msgA pubSign accountId : PairText)
  | replied (confirmA sas peerPubSign peerPubEnc : PairText)
  | joined (msgB confirmB pubSign pubEnc : PairText)
  | confirmed (sas peerPubSign selfPubSign selfPubEnc : PairText)
  | handedOff (handoff : PairText)
  | accepted (accountId : PairText) (epoch : UInt64) (rootSignPub epochSignPub headEntry
      devicePubSign devicePubEnc deviceSignSeed deviceEncKey akSeed : PairText)
  | forgotten
  deriving DecidableEq, Repr

abbrev PairAnswer : Type := Except PairError PairReply

def pairError (code : PairErrCode) (message : String) : PairAnswer := .error ⟨code, message⟩

def invalid (message : String) : PairAnswer := pairError (.vault .configInvalid) message

/-! ## The sidecar's state -/

structure PairState where
  vault : Vault
  initiator : PairText → Option Initiator
  joiner : PairText → Option Joiner
  attempts : PairText → Nat

def maxAttempts : Nat := 3

def PairState.start (v : Vault) : PairState := ⟨v, fun _ => none, fun _ => none, fun _ => 0⟩

def PairState.putInitiator (s : PairState) (id : PairText) (i : Option Initiator) : PairState :=
  { s with initiator := Function.update s.initiator id i }

def PairState.putJoiner (s : PairState) (id : PairText) (j : Option Joiner) : PairState :=
  { s with joiner := Function.update s.joiner id j }

def PairState.countFailure (s : PairState) (id : PairText) : PairState :=
  { s with attempts := Function.update s.attempts id (s.attempts id + 1) }

/-- Whether one more failure reaches the limit. -/
def PairState.spent (s : PairState) (id : PairText) : Bool := maxAttempts ≤ s.attempts id + 1

/-! ## The device showing the code -/

def beginSession (C : PairCrypto) (code : PairText) (draw : BeginDraw) (pubSign : Bytes) :
    Option (Initiator × Bytes × Bytes) := do
  let normalised ← C.normaliseCode code
  let id ← draw.id
  let (msgA, st) ← C.spakeStart true (password C normalised id.bytes) draw.rnd
  some ({ pairingID := id.bytes, pubSign, spake := st, finished := false, secret := none
          peer := [], sas := [] }, id.bytes, msgA)

def handlePairBegin (C : PairCrypto) (s : PairState) (draw : BeginDraw) : PairState × PairAnswer :=
  match s.vault.loaded, s.vault.device with
  | true, some device =>
    match draw.code with
    | none => (s, pairError (.vault .internal) "minting a pairing code")
    | some code =>
      match beginSession C code draw (C.publicOf device.signSeed) with
      | none => (s, pairError (.vault .internal) "starting a pairing")
      | some (i, id, msgA) =>
        (s.putInitiator (hexEncode id) (some i),
          .ok (.begun code (hexEncode id) (base64Encode msgA) (hexEncode i.pubSign)
            (hexEncode s.vault.account)))
  | _, _ => (s, pairError (.vault .notPaired) "no account is loaded")

def ReplyParams.frame (p : ReplyParams) : Option ReplyFrame := do
  let msgB ← base64Decode p.msgB
  let confirmB ← base64Decode p.confirmB
  let pubSign ← hexDecode p.pubSign
  let pubEnc ← hexDecode p.pubEnc
  some { msgB, confirmB, pubSign, pubEnc }

/-- The state after a reply that the session under an id did not accept. -/
def PairState.replyFailed (s : PairState) (id : PairText) (i : Initiator) : PairState :=
  (s.putInitiator id (if s.spent id then none else some i)).countFailure id

def handlePairReply (C : PairCrypto) (s : PairState) (params : Option ReplyParams) :
    PairState × PairAnswer :=
  match params with
  | none => (s, invalid "reading pairReply parameters")
  | some p =>
    match s.initiator p.pairingId with
    | none => (s, pairError .pairingExpired "no pairing is in progress with that id")
    | some i =>
      if maxAttempts ≤ s.attempts p.pairingId then
        (s, pairError (.vault .pairingRefused)
          "too many failed attempts on this pairing; start a new one")
      else
        match p.frame with
        | none => (s, invalid "the reply frame is malformed")
        | some f =>
          match i.reply C f with
          | (none, i') =>
            (s.replyFailed p.pairingId i', pairError .sasMismatch "the other device did not confirm")
          | (some confirmA, i') =>
            (s.putInitiator p.pairingId (some i'),
              .ok (.replied (base64Encode confirmA) (hexEncode i'.sas) (hexEncode i'.peer)
                (hexEncode f.pubEnc)))

/-! ## The device typing the code -/

/-- A joining device has its own key before it has an account; it is minted here if need be. -/
def handlePairJoin (C : PairCrypto) (s : PairState) (params : Option JoinParams)
    (fresh : Option DeviceKeys) (rnd : Bytes) : PairState × PairAnswer :=
  match params with
  | none => (s, invalid "reading pairJoin parameters")
  | some p =>
    match s.vault.device.or fresh with
    | none => (s, pairError (.vault .internal) "minting a device key")
    | some device =>
      let s := { s with vault := { s.vault with device := some device } }
      match hexDecode p.pairingId, base64Decode p.msgA, hexDecode p.pubSign with
      | some pairingID, some msgA, some peerSign =>
        match joinSession C p.code pairingID msgA peerSign (C.publicOf device.signSeed)
          (C.agreementPub device.enc) rnd with
        | none => (s, pairError (.vault .pairingRefused) "joining the pairing")
        | some (j, f) =>
          (s.putJoiner p.pairingId (some j),
            .ok (.joined (base64Encode f.msgB) (base64Encode f.confirmB) (hexEncode f.pubSign)
              (hexEncode f.pubEnc)))
      | _, _, _ => (s, invalid "the start frame is malformed")

/-- The state after a confirmation that the session under an id did not accept. -/
def PairState.confirmFailed (s : PairState) (id : PairText) (j : Joiner) : PairState :=
  (s.putJoiner id (if s.spent id then none else some j)).countFailure id

def handlePairConfirm (C : PairCrypto) (s : PairState) (params : Option ConfirmParams) :
    PairState × PairAnswer :=
  match params with
  | none => (s, invalid "reading pairConfirm parameters")
  | some p =>
    match s.joiner p.pairingId with
    | none => (s, pairError .pairingExpired "no pairing is in progress with that id")
    | some j =>
      match base64Decode p.confirmA with
      | none => (s, invalid "the confirm frame is malformed")
      | some confirmA =>
        match j.confirm C confirmA with
        | (false, j') =>
          (s.confirmFailed p.pairingId j', pairError .sasMismatch "the other device did not confirm")
        | (true, j') =>
          let s := s.putJoiner p.pairingId (some j')
          match s.vault.device with
          | none => (s, pairError (.vault .internal) "handler panicked")
          | some device =>
            (s, .ok (.confirmed (hexEncode j'.sas) (hexEncode j'.initPub)
              (hexEncode (C.publicOf device.signSeed)) (hexEncode (C.agreementPub device.enc))))

def handlePairForget (s : PairState) (pairingId : Option PairText) : PairState × PairAnswer :=
  match pairingId with
  | none => (s, invalid "reading pairForget parameters")
  | some id =>
    ({ (s.putInitiator id none).putJoiner id none with
        attempts := Function.update s.attempts id 0 }, .ok .forgotten)

/-! ## The handoff -/

def ofLength (b : Option Bytes) (len : Nat) : Option Bytes := b.filter fun b => b.length = len

def handlePairHandoff (C : PairCrypto) (s : PairState) (params : Option HandoffParams)
    (rnd : Bytes) : PairState × PairAnswer :=
  match params with
  | none => (s, invalid "reading pairHandoff parameters")
  | some p =>
    match s.initiator p.pairingId with
    | none => (s, pairError .pairingExpired "no confirmed pairing with that id")
    | some i =>
      match ofLength (base64Decode p.akSeed) 32, base64Decode p.headEntry,
        ofLength (hexDecode p.peerPubEnc) 32 with
      | none, _, _ => (s, invalid "akSeed is 32 bytes, base64")
      | some _, none, _ => (s, invalid "headEntry is not base64")
      | some _, some _, none => (s, invalid "peerPubEnc is 32 bytes of hex")
      | some akSeed, some head, some peerEnc =>
        if s.vault.loaded = false then (s, pairError (.vault .notPaired) "no account is loaded")
        else
          match sealHandoff C
            { accountID := s.vault.account, epoch := p.epoch, counter := p.counter, akSeed
              rootSignPub := s.vault.device.elim [] fun _ => s.vault.rootSignPub
              headEntry := head } peerEnc (i.secret.getD []) rnd with
          | none => (s, pairError (.vault .internal) "sealing the handoff")
          | some sealedBytes => (s, .ok (.handedOff (base64Encode sealedBytes)))

/-- The handoff opened, with the epoch keys it brings. -/
def openAccepted (C : PairCrypto) (p : AcceptParams) (sealedBytes : Bytes) (device : DeviceKeys)
    (secret : Bytes) : Except PairError (Handoff × EpochKeys) :=
  match ofLength (hexDecode p.accountId) accountIDLen with
  | none => .error ⟨.vault .configInvalid, "accountId is 16 bytes of hex"⟩
  | some acct =>
    match openHandoff C.toCrypto sealedBytes acct p.epoch p.counter device.enc secret with
    | .error _ => .error ⟨.vault .pairingRefused, "opening the handoff"⟩
    | .ok h =>
      match deriveEpoch C.toCrypto h.akSeed h.accountID h.epoch with
      | .error _ => .error ⟨.vault .internal, "deriving the epoch key"⟩
      | .ok k => .ok (h, k)

def Vault.join (v : Vault) (h : Handoff) (k : EpochKeys) : Vault :=
  { v with
    account := h.accountID, rootSignPub := h.rootSignPub, epochs := v.epochs.set h.epoch k
    loaded := true }

def handlePairAccept (C : PairCrypto) (s : PairState) (params : Option AcceptParams) :
    PairState × PairAnswer :=
  match params with
  | none => (s, invalid "reading pairAccept parameters")
  | some p =>
    match s.joiner p.pairingId with
    | none => (s, pairError .pairingExpired "no confirmed pairing with that id")
    | some j =>
      match base64Decode p.handoff, s.vault.device with
      | none, _ => (s, invalid "handoff is not base64")
      | some _, none =>
        (s, pairError (.vault .notPaired) "this device has no key; join a pairing first")
      | some sealedBytes, some device =>
        match openAccepted C p sealedBytes device j.secret with
        | .error e => (s, .error e)
        | .ok (h, k) =>
          ({ s with vault := s.vault.join h k },
            .ok (.accepted (hexEncode h.accountID) h.epoch (hexEncode h.rootSignPub)
              (hexEncode (k.signPub C.toCrypto)) (base64Encode h.headEntry)
              (hexEncode (C.publicOf device.signSeed)) (hexEncode (C.agreementPub device.enc))
              (base64Encode device.signSeed) (base64Encode device.enc) (base64Encode h.akSeed)))

def PairState.step (C : PairCrypto) (s : PairState) : PairRequest → PairState × PairAnswer
  | .pairBegin draw => handlePairBegin C s draw
  | .pairReply params => handlePairReply C s params
  | .pairJoin params fresh rnd => handlePairJoin C s params fresh rnd
  | .pairConfirm params => handlePairConfirm C s params
  | .pairHandoff params rnd => handlePairHandoff C s params rnd
  | .pairAccept params => handlePairAccept C s params
  | .pairForget pairingId => handlePairForget s pairingId

end OpsMaxx.Sidecar
