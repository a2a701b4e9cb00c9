import OpsMaxx.Machine.Replay
import OpsMaxx.Sidecar.Vault

/-! # Mail between devices

A mail is sealed to one device and signed by one device. Opening it proves both, asks that the
signer is one of the devices the parent's roster lists and that the signed time lies in the window
the parent names, and remembers the signer's nonce so that the relay cannot hand the mail over
again. Times are nanoseconds since 1970.
-/

set_option autoImplicit false

namespace OpsMaxx.Sidecar
open OpsMaxx.Machine

/-! ## The sealed object -/

structure Mail where
  accountID : Bytes
  kind : Bytes
  sender : Bytes
  recipient : Bytes
  nonce : Bytes
  ts : UInt64
  payloadHash : Bytes
  deriving DecidableEq, Repr

inductive MailErr where
  | wire (e : WireErr) | suite | hpke | forged
  deriving DecidableEq, Repr

def domainMail : String := "addy-mail-v1"
def domainMailObject : String := "addy-mail-obj-v1"
def domainMailPlaintext : String := "addy-mail-pt-v1"
def infoMailHPKE : String := "addy-mail-hpke-v1"
def nonceLen : Nat := 32

def mailInfo (acct self kind : Bytes) : Bytes :=
  Encoder.new infoMailHPKE ++ Encoder.fixed acct ++ Encoder.fixed self ++ Encoder.bytes kind

/-- The bytes that are signed; none when a field has the wrong width or the kind is empty. -/
def Mail.encode (m : Mail) : Option Bytes :=
  if m.sender.length = 32 ∧ m.recipient.length = 32 ∧ m.nonce.length = 32 ∧
      m.payloadHash.length = 32 ∧ m.kind ≠ [] then
    some (Encoder.new domainMail ++ Encoder.fixed m.accountID ++ Encoder.bytes m.kind ++
      Encoder.fixed m.sender ++ Encoder.fixed m.recipient ++ Encoder.fixed m.nonce ++
      Encoder.u64 m.ts ++ Encoder.fixed m.payloadHash)
  else none

def Mail.verifies (C : Crypto) (m : Mail) (sig : Bytes) : Bool :=
  m.encode.elim false fun msg => C.verify m.sender msg sig

def decodeMailObject : Decoder (UInt8 × Bytes × Bytes) := do
  Decoder.new domainMailObject
  let gotSuite ← Decoder.u8
  let enc ← Decoder.bytes
  let ct ← Decoder.bytes
  Decoder.atEnd
  pure (gotSuite, enc, ct)

/-- The fields of a plaintext: sender, nonce, time, signature, payload. -/
def decodeMailPlaintext : Decoder (Bytes × Bytes × UInt64 × Bytes × Bytes) := do
  Decoder.new domainMailPlaintext
  let sender ← Decoder.fixed publicKeySize
  let nonce ← Decoder.fixed nonceLen
  let ts ← Decoder.u64
  let sig ← Decoder.fixed signatureSize
  let payload ← Decoder.bytes
  Decoder.atEnd
  pure (sender, nonce, ts, sig, payload)

/-- The mail a plaintext holds, if it is signed by the sender it names. -/
def readPlaintext (C : Crypto) (acct kind self plaintext : Bytes) :
    Except MailErr (Mail × Bytes) :=
  match decodeMailPlaintext plaintext with
  | .error e => .error (.wire e)
  | .ok ((sender, nonce, ts, sig, payload), _) =>
    let m : Mail :=
      { accountID := acct, kind, sender, recipient := self, nonce, ts
        payloadHash := C.sha256 payload }
    if m.verifies C sig then .ok (m, payload) else .error .forged

/-- Open a mail addressed to `self` and check it against the sender it names. Whether that sender
may write here is for the caller to decide. -/
def openMail (C : Crypto) (object acct kind self recipient : Bytes) :
    Except MailErr (Mail × Bytes) :=
  match decodeMailObject object with
  | .error e => .error (.wire e)
  | .ok ((gotSuite, enc, ct), _) =>
    if gotSuite ≠ suitePinned then .error .suite
    else
      match (C.hpkeRecipient enc recipient (mailInfo acct self kind)).bind
        fun ctx => C.hpkeOpen ctx [] ct with
      | none => .error .hpke
      | some plaintext => readPlaintext C acct kind self plaintext

/-! ## Time -/

def second : Int := 1000000000
def millisecond : Int := 1000000
def mailFutureSkew : Int := 5 * 60 * second
def mailMaxAge : Int := 7 * 24 * 60 * 60 * second

/-- A number of milliseconds as a duration: a 64-bit number of nanoseconds that may wrap. -/
def durationOfMs (ms : UInt64) : Int := Int.bmod (ms.toNat * millisecond) (2 ^ 64)

/-- The moment an unsigned number of milliseconds names, read as a signed one. -/
def unixMilli (ms : UInt64) : Int := Int.bmod ms.toNat (2 ^ 64) * millisecond

/-- The time from `b` to `a`, as far as a duration reaches. -/
def sub (a b : Int) : Int := max (min (a - b) (2 ^ 63 - 1)) (-2 ^ 63)

def later (a b : Int) : Int := if b < a then a else b

/-! ## The request -/

structure OpenMailRequest where
  kind : Bytes
  sealedObject : List Char
  senders : List (List Char)
  maxAgeMs : UInt64
  deriving DecidableEq, Repr

structure Opened where
  sender : List Char
  sentAt : UInt64
  payload : List Char
  deriving DecidableEq, Repr

/-- One request, with the vault and the clock as the handler finds them. -/
structure Offer where
  vault : Vault
  now : Nat
  params : Option OpenMailRequest

abbrev MailSeen : Type := Memory (List Char) Int

def refused {α : Type} (message : String) : Except CodedError α := codedf .configInvalid message

def Mail.key (m : Mail) : List Char := hexEncode m.sender ++ hexEncode m.nonce

/-- Whether the signer is listed and the signed time lies in the window. -/
def admits (now : Nat) (senders : List (List Char)) (maxAge : Int) (m : Mail) :
    Except CodedError Unit :=
  if hexEncode m.sender ∉ senders then
    refused "this mail was signed by a device that is not on this account"
  else if now + mailFutureSkew < unixMilli m.ts then
    refused "this mail is dated in the future"
  else if maxAge < sub now (unixMilli m.ts) then refused "this mail is too old to act on"
  else .ok ()

/-- Everything the handler asks before it looks at what it opened before. -/
def readMail (C : Crypto) (o : Offer) : Except CodedError (Mail × Bytes) :=
  match decodeParams "openMail" o.params with
  | .error e => .error e
  | .ok p =>
    if durationOfMs p.maxAgeMs ≤ 0 ∨ mailMaxAge < durationOfMs p.maxAgeMs then
      refused s!"maxAgeMs must be between 1 and {mailMaxAge / millisecond}"
    else
      match base64Decode p.sealedObject with
      | none => refused "sealed is not base64"
      | some object =>
        match o.vault.loaded, o.vault.device with
        | true, some device =>
          match openMail C object o.vault.account p.kind (C.publicOf device.signSeed)
            device.enc with
          | .error .forged => refused "this mail was not signed by the device it names"
          | .error (.wire e) => .error (wrapCoded .configInvalid e "opening mail")
          | .error _ => refused "opening mail"
          | .ok (m, payload) =>
            match admits o.now p.senders (durationOfMs p.maxAgeMs) m with
            | .error e => .error e
            | .ok () => .ok (m, payload)
        | _, _ => codedf .notPaired "no account is loaded"

/-- How long an opened mail is remembered: until its window closes, from the later clock. -/
def rememberedUntil (o : Offer) (m : Mail) : Int :=
  later (unixMilli m.ts) o.now +
    ((o.params.elim 0 fun p => durationOfMs p.maxAgeMs) + mailFutureSkew)

def handleOpenMail (C : Crypto) (seen : MailSeen) (o : Offer) :
    Except CodedError Opened × MailSeen :=
  match readMail C o with
  | .error e => (.error e, seen)
  | .ok (m, payload) =>
    let seen := seen.prune o.now
    match seen m.key with
    | some _ => (refused "this mail was already delivered once", seen)
    | none =>
      (.ok { sender := hexEncode m.sender, sentAt := m.ts, payload := base64Encode payload },
        Function.update seen m.key (some (rememberedUntil o m)))

/-! ## What a run delivers -/

/-- The mail a request offers this device, whoever signed it and whenever. -/
def mailOf (C : Crypto) (o : Offer) : Option Mail :=
  match o.params, o.vault.device with
  | some p, some device =>
    match base64Decode p.sealedObject with
    | some object =>
      match openMail C object o.vault.account p.kind (C.publicOf device.signSeed) device.enc with
      | .ok (m, _) => some m
      | .error _ => none
    | none => none
  | _, _ => none

/-- The requests of a run that were answered with a mail, and the mail. -/
def deliveries (C : Crypto) (seen : MailSeen) : List Offer → List (Offer × Mail)
  | [] => []
  | o :: os =>
    match (handleOpenMail C seen o).1, mailOf C o with
    | .ok _, some m => (o, m) :: deliveries C (handleOpenMail C seen o).2 os
    | _, _ => deliveries C (handleOpenMail C seen o).2 os

end OpsMaxx.Sidecar
