import OpsMaxx.Sidecar.Roster
import OpsMaxx.Interact.Prog
import OpsMaxx.Store.JsMap
import OpsMaxx.Sidecar.Encoding

/-! # Epoch keys and the objects that hand them over

Deriving an epoch's keys from the seed the account drew for it, and opening the sealed object in
which one device passes that seed to another.
-/

set_option autoImplicit false

namespace OpsMaxx.Sidecar

/-! ## Epoch keys -/

structure EpochKeys where
  epoch : UInt64
  ak : Bytes
  signSeed : Bytes
  enc : Bytes
  profile : Bytes
  deriving DecidableEq, Repr

structure DeviceKeys where
  signSeed : Bytes
  enc : Bytes
  deriving DecidableEq, Repr

def EpochKeys.signPub (C : Crypto) (k : EpochKeys) : Bytes := C.publicOf k.signSeed

def saltGenesis : Bytes := ascii "addy-genesis-v1"
def labelEpochSign : String := "addy-epoch-sign-v1"
def labelEpochEnc : String := "addy-epoch-enc-v1"
def labelProfile : String := "addy-profile-v1"

/-- The derivation label below the root: the account and the epoch are part of it. -/
def info (label : String) (acct : Bytes) (epoch : UInt64) : Bytes :=
  ascii label ++ [0] ++ acct ++ Encoder.u64 epoch

def orFail {α : Type} (x : Option α) (e : WireErr) : Except WireErr α := x.elim (.error e) .ok

def derive32 (C : Crypto) (ikm info : Bytes) : Except WireErr Bytes :=
  orFail (C.hkdf ikm saltGenesis info) .deriving

def deriveEpoch (C : Crypto) (ak acct : Bytes) (epoch : UInt64) : Except WireErr EpochKeys := do
  refuseUnless (epoch ≠ 0) .zeroEpoch
  refuseUnless (ak.length = 32) .keyLength
  let signSeed ← derive32 C ak (info labelEpochSign acct epoch)
  let encScalar ← derive32 C ak (info labelEpochEnc acct epoch)
  let profile ← derive32 C ak (info labelProfile acct epoch)
  let enc ← orFail (C.x25519 encScalar) .deriving
  pure { epoch, ak, signSeed, enc, profile }

/-! ## Handoffs -/

structure Handoff where
  accountID : Bytes
  epoch : UInt64
  counter : UInt64
  akSeed : Bytes
  rootSignPub : Bytes
  headEntry : Bytes
  deriving DecidableEq, Repr

def domainHandoffPlaintext : String := "addy-handoff-v1"
def domainHandoffAAD : String := "addy-handoff-aad-v1"
def domainHandoffObject : String := "addy-handoff-obj-v1"
def infoHandoffHPKE : String := "addy-handoff-hpke-v1"
def infoHandoffCommit : String := "addy-handoff-commit-v1"
def suitePinned : UInt8 := 1
def commitLen : Nat := 32

def handoffInfo (acct : Bytes) (epoch : UInt64) (binding : Bytes) : Bytes :=
  Encoder.new infoHandoffHPKE ++ Encoder.fixed acct ++ Encoder.u64 epoch ++ Encoder.bytes binding

def handoffCommitContext (acct : Bytes) (epoch counter : UInt64) : Bytes :=
  Encoder.new infoHandoffCommit ++ Encoder.fixed acct ++ Encoder.u64 epoch ++ Encoder.u64 counter

def handoffAad (acct : Bytes) (epoch counter : UInt64) : Bytes :=
  Encoder.new domainHandoffAAD ++ Encoder.fixed acct ++ Encoder.u64 epoch ++ Encoder.u64 counter

def decodeObject : Decoder (UInt8 × Bytes × Bytes × Bytes) := do
  Decoder.new domainHandoffObject
  let gotSuite ← Decoder.u8
  let enc ← Decoder.bytes
  let commit ← Decoder.fixed commitLen
  let ct ← Decoder.bytes
  Decoder.atEnd
  pure (gotSuite, enc, commit, ct)

def decodePlaintext : Decoder Handoff := do
  Decoder.new domainHandoffPlaintext
  let accountID ← Decoder.fixed accountIDLen
  let epoch ← Decoder.u64
  let counter ← Decoder.u64
  let akSeed ← Decoder.fixed 32
  let rootSignPub ← Decoder.fixed publicKeySize
  let headEntry ← Decoder.bytes
  Decoder.atEnd
  pure { accountID, epoch, counter, akSeed, rootSignPub, headEntry }

/-- Open what a trusted device sealed. The commitment is compared before the sealed bytes are
touched, and the fields inside have to be the ones asked for. -/
def openHandoff (C : Crypto) (object acct : Bytes) (epoch counter : UInt64)
    (recipient binding : Bytes) : Except WireErr Handoff := do
  refuseUnless (counter ≠ 0) .zeroCounter
  refuseUnless (!binding.isEmpty) .noBinding
  let ((gotSuite, enc, commit, ct), _) ← decodeObject object
  refuseUnless (gotSuite = suitePinned) .escrowSuite
  let ctx ← orFail (C.hpkeRecipient enc recipient (handoffInfo acct epoch binding)) .hpke
  let want ← orFail (C.hpkeExport ctx (handoffCommitContext acct epoch counter)) .hpke
  refuseUnless (want = commit) .escrowCommit
  let plaintext ← orFail (C.hpkeOpen ctx (handoffAad acct epoch counter) ct) .hpke
  let (out, _) ← decodePlaintext plaintext
  refuseUnless (out.accountID = acct ∧ out.epoch = epoch ∧ out.counter = counter) .escrowMismatch
  refuseUnless (deriveAccountID C out.rootSignPub = out.accountID) .wrongAccount
  pure out

/-- Open a handoff sealed under the previous epoch's own key, refusing one whose transition
answers a compromise. -/
def readChainedHandoff (C : Crypto) (object : Bytes) (transition : Entry) (acct : Bytes)
    (counter : UInt64) (previous : EpochKeys) : Except WireErr Handoff := do
  refuseUnless (transition.op = .epoch) .notTransition
  refuseUnless (!transition.isRevocation) .revocationRotation
  openHandoff C object acct transition.epoch counter previous.enc previous.ak

theorem readChainedHandoff_ok {C : Crypto} {object acct : Bytes} {transition : Entry}
    {counter : UInt64} {previous : EpochKeys} {h : Handoff}
    (hread : readChainedHandoff C object transition acct counter previous = .ok h) :
    transition.op = .epoch ∧ transition.isRevocation = false ∧
      openHandoff C object acct transition.epoch counter previous.enc previous.ak = .ok h := by
  unfold readChainedHandoff refuseUnless at hread
  by_cases hop : transition.op = .epoch
  · cases hrev : transition.isRevocation with
    | true =>
      rw [hrev] at hread
      simp [hop] at hread
      cases hread
    | false =>
      rw [hrev] at hread
      simp only [hop, decide_true] at hread
      exact ⟨hop, rfl, hread⟩
  · simp only [hop, decide_false] at hread
    cases hread

/-! ## The sidecar that holds the keys

The vault, the requests that reach it, and the loop that serves them. A handler is a program whose
requests are its critical sections: each takes the vault's lock, sees the vault as it is then and
leaves it changed. The parent writes requests to the pipe whenever it likes; the loop reads the
next one when the handler before it has answered.
-/

open OpsMaxx.Interact OpsMaxx.Store

/-! ## The vault -/

structure Vault where
  loaded : Bool
  account : Bytes
  device : Option DeviceKeys
  epochs : JsMap UInt64 EpochKeys
  rootSignPub : Bytes

def Vault.empty : Vault where
  loaded := false
  account := List.replicate accountIDLen 0
  device := none
  epochs := .empty
  rootSignPub := []

inductive ErrCode where
  | configInvalid | notPaired | pairingRefused | rosterInvalid | rosterForked | rosterRewound
  | internal
  deriving DecidableEq, Repr

structure CodedError where
  code : ErrCode
  message : String
  cause : Option WireErr
  deriving DecidableEq, Repr

def codedf {α : Type} (code : ErrCode) (message : String) : Except CodedError α :=
  .error ⟨code, message, none⟩

def wrapCoded (code : ErrCode) (e : WireErr) (doing : String) : CodedError := ⟨code, doing, some e⟩

/-- A step that may fail, with the code its failure is reported under. -/
def coded {α : Type} (code : ErrCode) (doing : String) (x : Except WireErr α) :
    Except CodedError α :=
  x.mapError fun e => wrapCoded code e doing

inductive Reply where
  | adopted (epoch : UInt64) (epochSignPub akSeed : List Char)
  | loaded (accountId devicePub : List Char) (epochs : List UInt64)
  | ok
  | other
  deriving DecidableEq, Repr

abbrev Answer : Type := Except CodedError Reply

/-- A handler: each request is one critical section, answered with the vault it found. -/
abbrev Handler : Type := Prog (Vault → Vault) (fun _ => Vault) Answer

/-! ## Loading and forgetting -/

def Vault.reset (_ : Vault) : Vault := .empty

def handleReset : Handler := .ask Vault.reset fun _ => .done (.ok .ok)

structure LoadRequest where
  accountId : List Char
  deviceSignSeed : List Char
  deviceEncKey : List Char
  epochKeys : JsMap UInt64 (List Char)
  rootSignPub : List Char

def decodedTo (x : Option Bytes) (len : Nat) (message : String) : Except CodedError Bytes :=
  match x with
  | some b => if b.length = len then .ok b else codedf .configInvalid message
  | none => codedf .configInvalid message

/-- The epoch keys a load brings, each derived for the account it names. -/
def loadEpochs (C : Crypto) (acct : Bytes) :
    List (UInt64 × List Char) → Except CodedError (List (UInt64 × EpochKeys))
  | [] => .ok []
  | (n, encoded) :: rest =>
    match base64Decode encoded with
    | none => codedf .configInvalid s!"the key for epoch {n} is not base64"
    | some ak =>
      match coded .configInvalid s!"deriving epoch {n}" (deriveEpoch C ak acct n) with
      | .error e => .error e
      | .ok k => (loadEpochs C acct rest).map fun tail => (n, k) :: tail

def loadVault (C : Crypto) (params : LoadRequest) : Except CodedError Vault := do
  let raw ← decodedTo (hexDecode params.accountId) accountIDLen "accountId is 16 bytes of hex"
  let seed ← decodedTo (base64Decode params.deviceSignSeed) 32 "deviceSignSeed is 32 bytes, base64"
  let encRaw ← decodedTo (base64Decode params.deviceEncKey) 32 "deviceEncKey is 32 bytes, base64"
  if params.epochKeys.entries.isEmpty then
    codedf .notPaired "no epoch key was supplied; this device cannot read anything"
  else do
    let enc ← coded .configInvalid "loading the device encryption key"
      (orFail (C.x25519 encRaw) .deriving)
    let rootPub ← decodedTo (hexDecode params.rootSignPub) publicKeySize
      "rootSignPub is 32 bytes of hex"
    let epochs ← loadEpochs C raw params.epochKeys.entries
    pure {
      loaded := true
      account := raw
      device := some { signSeed := seed, enc := enc }
      epochs := .ofList epochs
      rootSignPub := rootPub }

def loadReply (C : Crypto) (v : Vault) : Reply :=
  .loaded (hexEncode v.account)
    (hexEncode (v.device.elim [] fun d => C.publicOf d.signSeed)) v.epochs.keys

def decodeParams {α : Type} (method : String) (params : Option α) : Except CodedError α :=
  match params with
  | some p => .ok p
  | none => codedf .configInvalid ("reading " ++ method ++ " parameters")

def handleLoad (C : Crypto) (params : Option LoadRequest) : Handler :=
  match decodeParams "load" params >>= loadVault C with
  | .error e => .done (.error e)
  | .ok v => .ask (fun _ => v) fun _ => .done (.ok (loadReply C v))

end OpsMaxx.Sidecar
