import OpsMaxx.Sidecar.Encoding

/-! # The roster

The append-only hash-chained log of an account's devices, and the verification every client runs
over the whole chain before it believes any of it. The primitives the chain rests on are
parameters; every check made with them is the code's.
-/

set_option autoImplicit false

namespace OpsMaxx.Sidecar

/-- The cryptographic primitives. A signing key is held as its seed and an agreement key as its
scalar; `hpkeRecipient` is the context an encapsulated key sets up for a recipient. -/
structure Crypto where
  sha256 : Bytes → Bytes
  hkdf : (ikm salt info : Bytes) → Option Bytes
  publicOf : (seed : Bytes) → Bytes
  verify : (pub body sig : Bytes) → Bool
  checkSigningKey : (pub : Bytes) → Bool
  checkAgreementKey : (pub : Bytes) → Bool
  x25519 : (raw : Bytes) → Option Bytes
  hpkeRecipient : (enc scalar info : Bytes) → Option Bytes
  hpkeExport : (ctx label : Bytes) → Option Bytes
  hpkeOpen : (ctx aad sealed : Bytes) → Option Bytes

/-! ## Entries -/

inductive Op where
  | add | revoke | epoch
  deriving DecidableEq, Repr

def Op.code : Op → UInt8
  | .add => 1
  | .revoke => 2
  | .epoch => 3

def opMax : UInt8 := 3

def Op.ofCode (v : UInt8) : Option Op :=
  if v = 1 then some .add else if v = 2 then some .revoke else if v = 3 then some .epoch else none

inductive Signer where
  | ak | rk
  deriving DecidableEq, Repr

def Signer.code : Signer → UInt8
  | .ak => 1
  | .rk => 2

def signerMax : UInt8 := 2

def Signer.ofCode (v : UInt8) : Option Signer :=
  if v = 1 then some .ak else if v = 2 then some .rk else none

def flagMnemonicAuthored : UInt8 := 1
def flagRevocationRotation : UInt8 := 2
def knownFlags : UInt8 := flagMnemonicAuthored ||| flagRevocationRotation

structure Entry where
  accountID : Bytes
  epoch : UInt64
  seq : UInt64
  prevHash : Bytes
  op : Op
  signer : Signer
  flags : UInt8
  nonce : Bytes
  pubSign : Bytes
  pubEnc : Bytes
  labelCT : Bytes
  ts : UInt64
  sig : Bytes
  deriving DecidableEq, Repr

/-- The account signed this entry as an answer to a compromise. -/
def Entry.isRevocation (e : Entry) : Bool := e.flags &&& flagRevocationRotation != 0

def accountIDLen : Nat := 16
def publicKeySize : Nat := 32
def signatureSize : Nat := 64
def domainRoster : String := "addy-roster-v1"
def linkDomain : String := "addy-roster-link-v1"

def Entry.encode (e : Entry) : Except WireErr Bytes := do
  fixed e.prevHash 32
  fixed e.nonce 32
  fixed e.pubSign 32
  fixed e.pubEnc 32
  pure (Encoder.new domainRoster ++ Encoder.fixed e.accountID ++ Encoder.u64 e.epoch
    ++ Encoder.u64 e.seq ++ Encoder.fixed e.prevHash ++ Encoder.u8 e.op.code
    ++ Encoder.u8 e.signer.code ++ Encoder.u8 e.flags ++ Encoder.fixed e.nonce
    ++ Encoder.fixed e.pubSign ++ Encoder.fixed e.pubEnc ++ Encoder.bytes e.labelCT
    ++ Encoder.u64 e.ts)

def Entry.wire (e : Entry) : Except WireErr Bytes := do
  let body ← e.encode
  fixed e.sig signatureSize
  pure (body ++ e.sig)

def Entry.hash (C : Crypto) (e : Entry) : Except WireErr Bytes := do
  let wire ← e.wire
  pure (C.sha256 (ascii linkDomain ++ [0] ++ wire))

/-- The signed body, with the operation and the signer as they stand on the wire. -/
def decodeBody : Decoder (UInt8 × UInt8 × (Op → Signer → Bytes → Entry)) := do
  Decoder.new domainRoster
  let accountID ← Decoder.fixed accountIDLen
  let epoch ← Decoder.u64
  let seq ← Decoder.u64
  let prevHash ← Decoder.fixed 32
  let op ← Decoder.enum opMax
  let signer ← Decoder.enum signerMax
  let flags ← Decoder.u8
  let nonce ← Decoder.fixed 32
  let pubSign ← Decoder.fixed 32
  let pubEnc ← Decoder.fixed 32
  let labelCT ← Decoder.bytes
  let ts ← Decoder.u64
  pure (op, signer, fun o s sig =>
    { accountID, epoch, seq, prevHash, op := o, signer := s, flags, nonce, pubSign, pubEnc,
      labelCT, ts, sig })

/-- One entry from the front, and the rest. -/
def decodeEntry (b : Bytes) : Except WireErr (Entry × Bytes) :=
  match decodeBody b with
  | .error e => .error e
  | .ok ((op, signer, build), rest) =>
    match Op.ofCode op, Signer.ofCode signer with
    | some o, some s =>
      if rest.length < signatureSize then .error .truncated
      else .ok (build o s (rest.take signatureSize), rest.drop signatureSize)
    | _, _ => .error .badEnum

theorem decodeBody_shrinks {b rest : Bytes} {x : UInt8 × UInt8 × (Op → Signer → Bytes → Entry)}
    (h : decodeBody b = .ok (x, rest)) : rest.length < b.length := by
  obtain ⟨u, mid, hnew, hrest⟩ := Decoder.bind_ok h
  have h₁ := Decoder.new_shrinks hnew
  have h₂ := Decoder.Shrinks.bind (.take accountIDLen) (fun _ => .bind .u64 fun _ => .bind .u64
    fun _ => .bind (.take 32) fun _ => .bind (.enum opMax) fun _ => .bind (.enum signerMax)
    fun _ => .bind .u8 fun _ => .bind (.take 32) fun _ => .bind (.take 32) fun _ =>
    .bind (.take 32) fun _ => .bind .bytes fun _ => .bind .u64 fun _ => .pure _) mid x rest hrest
  omega

theorem decodeEntry_shrinks {b rest : Bytes} {e : Entry} (h : decodeEntry b = .ok (e, rest)) :
    rest.length < b.length := by
  unfold decodeEntry at h
  cases hb : decodeBody b with
  | error x => simp [hb] at h
  | ok v =>
    obtain ⟨⟨op, signer, build⟩, left⟩ := v
    have hlt := decodeBody_shrinks hb
    simp only [hb] at h
    split at h
    · split_ifs at h
      cases h
      simp only [List.length_drop]
      omega
    · cases h

/-! ## Reading a chain -/

/-- The entries of a chain, one after another until no byte is left. -/
def entriesFrom : Nat → Bytes → Except WireErr (List Entry)
  | 0, _ => .ok []
  | n + 1, b =>
    if b.isEmpty then .ok []
    else
      match decodeEntry b with
      | .error e => .error e
      | .ok (e, rest) =>
        match entriesFrom n rest with
        | .error x => .error x
        | .ok es => .ok (e :: es)

def entriesOf (raw : Bytes) : Except WireErr (List Entry) := entriesFrom raw.length raw

/-- An entry takes at least a byte, so a chain's length bounds how many it has. -/
theorem entriesFrom_length {n : Nat} {b : Bytes} {es : List Entry}
    (h : entriesFrom n b = .ok es) : es.length ≤ b.length := by
  induction n generalizing b es with
  | zero =>
    cases h
    exact Nat.zero_le _
  | succ n ih =>
    unfold entriesFrom at h
    split_ifs at h with hb
    · cases h
      exact Nat.zero_le _
    · split at h
      · cases h
      · rename_i e rest hd
        split at h
        · cases h
        · rename_i es' hes
          cases h
          have h₁ := ih hes
          have h₂ := decodeEntry_shrinks hd
          simp only [List.length_cons]
          omega

/-! ## Verification -/

structure Device where
  pubSign : Bytes
  pubEnc : Bytes
  labelCT : Bytes
  epoch : UInt64
  addedBy : Signer
  flags : UInt8
  deriving DecidableEq, Repr

structure Verified where
  devices : List Device
  head : Bytes
  headSeq : UInt64
  epoch : UInt64
  epochSign : Option Bytes
  epochEnc : Option Bytes
  entries : Nat
  deriving DecidableEq, Repr

/-- The furthest point in the roster a client has seen. -/
structure Pin where
  seq : UInt64
  hash : Bytes
  deriving DecidableEq, Repr

/-- What verification knows after the entries it has been through. -/
structure Scan where
  epochSign : UInt64 → Option Bytes
  epochEnc : UInt64 → Option Bytes
  devices : List Device
  prev : Bytes
  currentEpoch : UInt64

def Scan.start (epoch1Sign : Option Bytes) : Scan where
  epochSign n := if n = 1 then epoch1Sign else none
  epochEnc _ := none
  devices := []
  prev := []
  currentEpoch := 1

/-- The epoch may only move by one, and only at a transition. The first entry is the genesis, which
was checked on its own. -/
def checkEpoch (i : Nat) (e : Entry) (current : UInt64) : Except WireErr Unit :=
  if i = 0 then .ok ()
  else if e.epoch = current then
    if e.op = .epoch then .error .badEpoch else .ok ()
  else if e.epoch = current + 1 ∧ e.op = .epoch then .ok ()
  else .error .badEpoch

def checkFlags (e : Entry) : Except WireErr Unit :=
  if e.flags &&& ~~~knownFlags ≠ 0 then .error .badFlags
  else if e.isRevocation then
    if e.op ≠ .epoch then .error .badFlags
    else if e.signer ≠ .rk then .error .badSigner
    else .ok ()
  else .ok ()

/-- The key an entry has to be signed with. A transition is checked under the key of the epoch
before the one it names. -/
def signerKey (rootSignPub : Option Bytes) (s : Scan) (e : Entry) : Except WireErr Bytes :=
  match e.signer with
  | .rk => rootSignPub.elim (.error .badSigner) .ok
  | .ak =>
    (s.epochSign (if e.op = .epoch then e.epoch - 1 else e.epoch)).elim (.error .badSigner) .ok

def indexOfDevice (devices : List Device) (pubSign : Bytes) : Option Nat :=
  devices.findIdx? fun d => d.pubSign = pubSign

def applyAdd (e : Entry) (s : Scan) : Except WireErr Scan :=
  if e.labelCT.isEmpty then .error .badOp
  else if (indexOfDevice s.devices e.pubSign).isSome then .error .badOp
  else .ok { s with devices := s.devices ++ [
    { pubSign := e.pubSign, pubEnc := e.pubEnc, labelCT := e.labelCT, epoch := e.epoch,
      addedBy := e.signer, flags := e.flags }] }

def applyRevoke (e : Entry) (s : Scan) : Except WireErr Scan :=
  if !e.labelCT.isEmpty then .error .badOp
  else
    match indexOfDevice s.devices e.pubSign with
    | none => .error .badOp
    | some i =>
      if (s.devices[i]?.map Device.pubEnc) ≠ some e.pubEnc then .error .badOp
      else .ok { s with devices := s.devices.eraseIdx i }

def applyEpoch (e : Entry) (s : Scan) : Except WireErr Scan :=
  if !e.labelCT.isEmpty then .error .badOp
  else .ok { s with
    epochSign := Function.update s.epochSign e.epoch (some e.pubSign)
    epochEnc := Function.update s.epochEnc e.epoch (some e.pubEnc) }

def applyOp (e : Entry) (s : Scan) : Except WireErr Scan :=
  match e.op with
  | .add => applyAdd e s
  | .revoke => applyRevoke e s
  | .epoch => applyEpoch e s

def refuseUnless (ok : Bool) (e : WireErr) : Except WireErr Unit := if ok then .ok () else .error e

/-- One entry of the chain, at its place in it. -/
def scanEntry (C : Crypto) (acct : Bytes) (rootSignPub : Option Bytes) (i : Nat) (e : Entry)
    (s : Scan) : Except WireErr Scan := do
  refuseUnless (e.accountID = acct) .wrongAccount
  refuseUnless (e.seq = UInt64.ofNat i) .badSequence
  refuseUnless (i = 0 ∨ e.prevHash = s.prev) .brokenLink
  checkEpoch i e s.currentEpoch
  checkFlags e
  let pub ← signerKey rootSignPub s e
  refuseUnless (C.checkSigningKey e.pubSign) .degenerateKey
  refuseUnless (C.checkAgreementKey e.pubEnc) .degenerateKey
  let body ← e.encode
  refuseUnless (C.verify pub body e.sig) .badSignature
  let applied ← applyOp e s
  let prev ← e.hash C
  pure { applied with currentEpoch := e.epoch, prev := prev }

def scanFrom (C : Crypto) (acct : Bytes) (rootSignPub : Option Bytes) :
    Nat → List Entry → Scan → Except WireErr Scan
  | _, [], s => .ok s
  | i, e :: es, s => do
    let s' ← scanEntry C acct rootSignPub i e s
    scanFrom C acct rootSignPub (i + 1) es s'

/-- Rollback: the chain has to reach the pin and go through it. -/
def checkPin (C : Crypto) (entries : List Entry) (lastSeq : UInt64) :
    Option Pin → Except WireErr Unit
  | none => .ok ()
  | some pin => do
    refuseUnless (pin.seq ≤ lastSeq) .rewound
    match entries[pin.seq.toNat]? with
    | none => .error .forked
    | some e =>
      let at' ← e.hash C
      refuseUnless (at' = pin.hash) .forked

def labelAccountID : String := "addy-account-id-v1"

def deriveAccountID (C : Crypto) (rootSignPub : Bytes) : Bytes :=
  (C.sha256 (ascii labelAccountID ++ [0] ++ rootSignPub)).take accountIDLen

def checkGenesis (g : Entry) : Except WireErr Unit :=
  refuseUnless (g.seq = 0 ∧ g.op = .add ∧ g.epoch = 1 ∧ g.prevHash = List.replicate 32 0)
    .badGenesis

def verifyEntries (C : Crypto) (entries : List Entry) (acct : Bytes)
    (rootSignPub epoch1Sign : Option Bytes) (pin : Option Pin) : Except WireErr Verified := do
  match entries with
  | [] => .error .emptyChain
  | g :: rest =>
    checkGenesis g
    refuseUnless (rootSignPub.all C.checkSigningKey) .degenerateKey
    refuseUnless (epoch1Sign.all C.checkSigningKey) .degenerateKey
    refuseUnless (rootSignPub.all fun r => deriveAccountID C r = acct) .wrongAccount
    let s ← scanFrom C acct rootSignPub 0 (g :: rest) (.start epoch1Sign)
    let last := (g :: rest).getLast (List.cons_ne_nil g rest)
    checkPin C (g :: rest) last.seq pin
    pure {
      devices := s.devices
      head := s.prev
      headSeq := last.seq
      epoch := s.currentEpoch
      epochSign := s.epochSign s.currentEpoch
      epochEnc := s.epochEnc s.currentEpoch
      entries := (g :: rest).length }

/-- Every step of the verification in order, stopping at the first that fails. -/
def verifyChain (C : Crypto) (raw acct : Bytes) (rootSignPub epoch1Sign : Option Bytes)
    (pin : Option Pin) : Except WireErr Verified := do
  let entries ← entriesOf raw
  verifyEntries C entries acct rootSignPub epoch1Sign pin

end OpsMaxx.Sidecar
