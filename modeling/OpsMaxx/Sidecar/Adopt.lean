import OpsMaxx.Sidecar.Chain
import OpsMaxx.Sidecar.Vault

/-! # Adopting an epoch key

What a device does when another one rotated the account: verify the roster, open the handoff, and
take the key in it only when it is the one the roster names. The request is untrusted in every
field; what the handler trusts is the account, the root key and the previous epoch key of the vault.
-/

set_option autoImplicit false

namespace OpsMaxx.Sidecar
open OpsMaxx.Interact OpsMaxx.Store

def maxRequestBytes : Nat := 32 * 2 ^ 20

/-- The parameters as they come off the pipe, in a line of at most `maxRequestBytes`. -/
structure AdoptEpochRequest where
  epoch : UInt64
  counter : UInt64
  handoff : List Char
  chain : List Char
  epoch1Sign : List Char
  chained : Bool
  pinnedSeq : UInt64
  pinnedHead : List Char
  havePin : Bool
  framed : chain.length ≤ maxRequestBytes
  deriving DecidableEq

/-! ## The handler -/

/-- The first transition to an epoch that the chain carries. -/
def transitionFrom : Nat → Bytes → UInt64 → Except WireErr Entry
  | 0, _, epoch => .error (.noTransition epoch)
  | n + 1, b, epoch =>
    if b.isEmpty then .error (.noTransition epoch)
    else
      match decodeEntry b with
      | .error e => .error e
      | .ok (e, rest) =>
        if e.op = .epoch ∧ e.epoch = epoch then .ok e else transitionFrom n rest epoch

def transitionIn (chain : Bytes) (epoch : UInt64) : Except WireErr Entry :=
  transitionFrom chain.length chain epoch

def pinFrom (have' : Bool) (seq : UInt64) (head : List Char) : Except CodedError (Option Pin) :=
  if have' then
    match hexDecode head with
    | some h => .ok (some { seq := seq, hash := h })
    | none => codedf .configInvalid "pinnedHead is hex"
  else .ok none

def rosterErr (e : WireErr) (doing : String) : CodedError :=
  match e with
  | .forked => wrapCoded .rosterForked e doing
  | .rewound => wrapCoded .rosterRewound e doing
  | _ => wrapCoded .rosterInvalid e doing

/-- What the request's own fields decode to. -/
structure AdoptInputs where
  obj : Bytes
  chain : Bytes
  epoch1 : Bytes

def nonEmpty (x : Option Bytes) (message : String) : Except CodedError Bytes :=
  match x with
  | some [] => codedf .configInvalid message
  | some b => .ok b
  | none => codedf .configInvalid message

def require (ok : Bool) (code : ErrCode) (message : String) : Except CodedError Unit :=
  if ok then .ok () else codedf code message

def adoptInputs (p : AdoptEpochRequest) : Except CodedError AdoptInputs := do
  require (p.epoch ≠ 0) .configInvalid "an epoch is required"
  let obj ← nonEmpty (base64Decode p.handoff) "the handoff is base64 of the sealed object"
  let chain ← nonEmpty (base64Decode p.chain) "the chain is base64 of the roster"
  let epoch1 ← decodedTo (hexDecode p.epoch1Sign) publicKeySize "epoch1Sign is 32 bytes of hex"
  pure { obj, chain, epoch1 }

def requireSome {α : Type} (x : Option α) (code : ErrCode) (message : String) :
    Except CodedError α :=
  x.elim (codedf code message) .ok

/-- The device of a vault that is loaded. -/
def pairedDevice (v : Vault) : Option DeviceKeys := if v.loaded then v.device else none

/-- The handoff, opened with the key it has to be sealed to. -/
def openFor (C : Crypto) (p : AdoptEpochRequest) (inputs : AdoptInputs) (acct : Bytes)
    (device : DeviceKeys) (previous : EpochKeys) : Except CodedError Handoff :=
  if p.chained then do
    let transition ← coded .rosterInvalid "finding the transition in the verified chain"
      (transitionIn inputs.chain p.epoch)
    coded .pairingRefused "opening the chained epoch handoff"
      (readChainedHandoff C inputs.obj transition acct p.counter previous)
  else
    coded .pairingRefused "opening the epoch handoff"
      (openHandoff C inputs.obj acct p.epoch p.counter device.enc previous.ak)

def verifyForAdoption (C : Crypto) (inputs : AdoptInputs) (v : Vault) (pin : Option Pin) :
    Except WireErr Verified :=
  verifyChain C inputs.chain v.account (some v.rootSignPub) (some inputs.epoch1) pin

/-- The checks against the handoff's own head, and the key it carries. -/
def bindHandoff (C : Crypto) (p : AdoptEpochRequest) (inputs : AdoptInputs) (v : Vault)
    (h : Handoff) : Except CodedError EpochKeys := do
  let (head, _) ← coded .rosterInvalid "reading the handoff's head entry" (decodeEntry h.headEntry)
  let headHash ← coded .internal "hashing the handoff's head entry" (head.hash C)
  let pinned ← coded .rosterInvalid "the chain does not match the head this handoff carries"
    (verifyForAdoption C inputs v (some { seq := head.seq, hash := headHash }))
  let epochKeys ← coded .internal "deriving the epoch key" (deriveEpoch C h.akSeed v.account p.epoch)
  let named ← requireSome pinned.epochSign .rosterInvalid
    s!"the chain names no signing key for epoch {p.epoch}"
  require (named = epochKeys.signPub C) .pairingRefused
    ("this handoff carries an epoch key the chain does not name; " ++
      "it was not written by a device on this account")
  pure epochKeys

/-- Everything between the handler's read of the vault and its write. -/
def adoptable (C : Crypto) (p : AdoptEpochRequest) (inputs : AdoptInputs) (v : Vault) :
    Except CodedError (Handoff × EpochKeys) := do
  let device ← requireSome (pairedDevice v) .notPaired "no account is loaded"
  require (v.rootSignPub.length = publicKeySize) .notPaired
    "this device has no pinned root key to verify a rotation with"
  let previous ← requireSome (v.epochs.get (p.epoch - 1)) .notPaired
    s!"this device does not hold epoch {p.epoch - 1}, so it cannot follow the change to {p.epoch}"
  let pin ← pinFrom p.havePin p.pinnedSeq p.pinnedHead
  let verified ← (verifyForAdoption C inputs v pin).mapError fun e =>
    rosterErr e "verifying the roster before adopting an epoch"
  require (verified.epoch = p.epoch) .rosterInvalid
    s!"the chain ends in epoch {verified.epoch}, not the {p.epoch} this handoff claims"
  let h ← openFor C p inputs v.account device previous
  let epochKeys ← bindHandoff C p inputs v h
  pure (h, epochKeys)

def Vault.adopt (v : Vault) (epoch : UInt64) (k : EpochKeys) : Vault :=
  { v with epochs := v.epochs.set epoch k }

/-- The handler once it has seen the vault: it answers with an error, or takes the lock again for
the one write it makes. -/
def adoptFrom (C : Crypto) (p : AdoptEpochRequest) (inputs : AdoptInputs) (v : Vault) : Handler :=
  match adoptable C p inputs v with
  | .error e => .done (.error e)
  | .ok (h, k) =>
    .ask (fun w => w.adopt p.epoch k) fun _ =>
      .done (.ok (.adopted p.epoch (hexEncode (k.signPub C)) (base64Encode h.akSeed)))

def handleAdoptEpoch (C : Crypto) (params : Option AdoptEpochRequest) : Handler :=
  match decodeParams "adoptEpoch" params with
  | .error e => .done (.error e)
  | .ok p =>
    match adoptInputs p with
    | .error e => .done (.error e)
    | .ok inputs => .ask id fun v => adoptFrom C p inputs v

/-! ## The loop -/

/-- The requests of the key-holding role. `other` stands for every method not written out here,
with whatever it does to the vault. -/
inductive Request where
  | adoptEpoch (params : Option AdoptEpochRequest)
  | load (params : Option LoadRequest)
  | reset
  | other (handler : Handler)

def dispatch (C : Crypto) : Request → Handler
  | .adoptEpoch params => handleAdoptEpoch C params
  | .load params => handleLoad C params
  | .reset => handleReset
  | .other handler => handler

/-- The request being served: what is left of its handler, and the vault it was taken up with. -/
structure Serving where
  request : Request
  entered : Vault
  handler : Handler

structure Process where
  stdin : List Request
  vault : Vault
  serving : Option Serving
  answers : List Answer

def Process.start : Process := ⟨[], .empty, none, []⟩

inductive Event where
  | arrive (r : Request)
  | turn

/-- The parent writes a request to the pipe, or the process gets on: with the handler it is in, one
critical section at a time, and only when that has answered with the next request. -/
def Process.step (C : Crypto) (s : Process) : Event → Process
  | .arrive r => { s with stdin := s.stdin ++ [r] }
  | .turn =>
    match s.serving with
    | some ⟨_, _, .done a⟩ => { s with serving := none, answers := s.answers ++ [a] }
    | some ⟨r, entered, .ask f k⟩ =>
      { s with vault := f s.vault, serving := some ⟨r, entered, k s.vault⟩ }
    | none =>
      match s.stdin with
      | [] => s
      | r :: rest => { s with stdin := rest, serving := some ⟨r, s.vault, dispatch C r⟩ }

def Process.run (C : Crypto) (s : Process) (events : List Event) : Process :=
  events.foldl (Process.step C) s

/-! ## What the account has said -/

/-- The account's word that `k` is its key for the epoch a request asks for: a chain that verifies
against this vault's account and root key, through the request's pin and through the handoff's own
head, that ends in the epoch, and names the public half of the key the handoff's seed gives. -/
structure AccountsWord (C : Crypto) (v : Vault) (p : AdoptEpochRequest) (k : EpochKeys) where
  loaded : v.loaded = true
  chain : Bytes
  chain_sent : base64Decode p.chain = some chain
  epoch1 : Bytes
  epoch1_sent : hexDecode p.epoch1Sign = some epoch1
  handoff : Handoff
  derived : deriveEpoch C handoff.akSeed v.account p.epoch = .ok k
  pin : Option Pin
  pin_sent : pinFrom p.havePin p.pinnedSeq p.pinnedHead = .ok pin
  verified : Verified
  verifies : verifyChain C chain v.account (some v.rootSignPub) (some epoch1) pin = .ok verified
  ends : verified.epoch = p.epoch
  head : Entry
  headRest : Bytes
  head_carried : decodeEntry handoff.headEntry = .ok (head, headRest)
  headHash : Bytes
  head_hashed : head.hash C = .ok headHash
  throughHead : verifyChain C chain v.account (some v.rootSignPub) (some epoch1)
    (some { seq := head.seq, hash := headHash }) = .ok verified
  named : verified.epochSign = some (k.signPub C)
  entries : List Entry
  entries_read : entriesOf chain = .ok entries
  announced : (p.epoch = 1 ∧ epoch1 = k.signPub C) ∨
    ∃ e ∈ entries, e.op = .epoch ∧ e.epoch = p.epoch ∧ e.pubSign = k.signPub C
  chainable : p.chained = true → ∃ e ∈ entries, e.op = .epoch ∧ e.epoch = p.epoch ∧
    e.isRevocation = false ∧ ∀ e' ∈ entries, e'.op = .epoch → e'.epoch = p.epoch → e' = e

theorem transitionFrom_ok {n m : Nat} {b : Bytes} {epoch : UInt64} {e : Entry} {es : List Entry}
    (h : transitionFrom n b epoch = .ok e) (hes : entriesFrom m b = .ok es) (hm : b.length ≤ m) :
    e ∈ es ∧ e.op = .epoch ∧ e.epoch = epoch := by
  induction n generalizing m b es with
  | zero => cases h
  | succ n ih =>
    unfold transitionFrom at h
    split_ifs at h with hb
    split at h
    · cases h
    · rename_i e₀ rest hd
      have hlt := decodeEntry_shrinks hd
      obtain ⟨m, rfl⟩ : ∃ k, m = k + 1 := ⟨m - 1, by omega⟩
      unfold entriesFrom at hes
      rw [if_neg hb] at hes
      simp only [hd] at hes
      split at hes
      · cases hes
      · rename_i es' hes'
        cases hes
        split_ifs at h with hfound
        · cases h
          exact ⟨List.mem_cons_self, hfound⟩
        · obtain ⟨hmem, hop⟩ := ih h hes' (by omega)
          exact ⟨List.mem_cons_of_mem _ hmem, hop⟩

/-- A pin decides whether a chain is accepted, not what it says. -/
theorem verifyEntries_pin {C : Crypto} {es : List Entry} {acct : Bytes}
    {root epoch1Sign : Option Bytes} {pin pin' : Option Pin} {v v' : Verified}
    (h : verifyEntries C es acct root epoch1Sign pin = .ok v)
    (h' : verifyEntries C es acct root epoch1Sign pin' = .ok v') : v = v' := by
  cases es with
  | nil => cases h
  | cons g rest =>
    obtain ⟨_, _, h⟩ := except_bind_ok h
    obtain ⟨_, _, h⟩ := except_bind_ok h
    obtain ⟨_, _, h⟩ := except_bind_ok h
    obtain ⟨_, _, h⟩ := except_bind_ok h
    obtain ⟨s, hscan, h⟩ := except_bind_ok h
    obtain ⟨_, _, h⟩ := except_bind_ok h
    obtain ⟨_, _, h'⟩ := except_bind_ok h'
    obtain ⟨_, _, h'⟩ := except_bind_ok h'
    obtain ⟨_, _, h'⟩ := except_bind_ok h'
    obtain ⟨_, _, h'⟩ := except_bind_ok h'
    obtain ⟨s', hscan', h'⟩ := except_bind_ok h'
    obtain ⟨_, _, h'⟩ := except_bind_ok h'
    rw [hscan] at hscan'
    cases hscan'
    cases h
    cases h'
    rfl

theorem verifyChain_pin {C : Crypto} {raw acct : Bytes} {root epoch1Sign : Option Bytes}
    {pin pin' : Option Pin} {v v' : Verified}
    (h : verifyChain C raw acct root epoch1Sign pin = .ok v)
    (h' : verifyChain C raw acct root epoch1Sign pin' = .ok v') : v = v' := by
  obtain ⟨es, hes, hv⟩ := except_bind_ok h
  obtain ⟨es', hes', hv'⟩ := except_bind_ok h'
  rw [hes] at hes'
  cases hes'
  exact verifyEntries_pin hv hv'

theorem coded_ok {α : Type} {code : ErrCode} {doing : String} {x : Except WireErr α} {a : α}
    (h : coded code doing x = .ok a) : x = .ok a := by
  cases x with
  | error e => cases h
  | ok b =>
    cases h
    rfl

theorem require_ok {p : Bool} {code : ErrCode} {message : String} {u : Unit}
    (h : require p code message = .ok u) : p = true := by
  unfold require codedf at h
  split_ifs at h with hp
  exact hp

theorem requireSome_ok {α : Type} {x : Option α} {code : ErrCode} {message : String} {a : α}
    (h : requireSome x code message = .ok a) : x = some a := by
  cases x with
  | none => cases h
  | some b =>
    cases h
    rfl

theorem mapError_ok {ε ε' α : Type} {f : ε → ε'} {x : Except ε α} {a : α}
    (h : x.mapError f = .ok a) : x = .ok a := by
  cases x with
  | error e => cases h
  | ok b =>
    cases h
    rfl

theorem decodedTo_ok {x : Option Bytes} {len : Nat} {message : String} {b : Bytes}
    (h : decodedTo x len message = .ok b) : x = some b ∧ b.length = len := by
  unfold decodedTo codedf at h
  split at h
  · split_ifs at h with hlen
    cases h
    exact ⟨rfl, hlen⟩
  · cases h

theorem nonEmpty_ok {x : Option Bytes} {message : String} {b : Bytes}
    (h : nonEmpty x message = .ok b) : x = some b := by
  unfold nonEmpty codedf at h
  split at h
  · cases h
  · cases h
    rfl
  · cases h

theorem openFor_ok {C : Crypto} {p : AdoptEpochRequest} {inputs : AdoptInputs} {acct : Bytes}
    {device : DeviceKeys} {previous : EpochKeys} {h : Handoff}
    (hopen : openFor C p inputs acct device previous = .ok h) (hchained : p.chained = true) :
    ∃ e, transitionIn inputs.chain p.epoch = .ok e ∧ e.isRevocation = false := by
  unfold openFor at hopen
  rw [if_pos hchained] at hopen
  obtain ⟨e, he, hopen⟩ := except_bind_ok hopen
  exact ⟨e, coded_ok he, (readChainedHandoff_ok (coded_ok hopen)).2.1⟩

theorem pairedDevice_some {v : Vault} {d : DeviceKeys} (h : pairedDevice v = some d) :
    v.loaded = true := by
  unfold pairedDevice at h
  split_ifs at h with hl
  exact hl

/-- A chain fits its request line, so it has far fewer than `2 ^ 64` bytes. -/
theorem chain_fits {p : AdoptEpochRequest} {chain : Bytes}
    (h : base64Decode p.chain = some chain) : chain.length < 2 ^ 64 := by
  have h₁ := base64Decode_length h
  have h₂ := p.framed
  unfold maxRequestBytes at h₂
  omega

/-- Whatever passes the checks between the read and the write has the account's word. -/
theorem adoptable_word {C : Crypto} {p : AdoptEpochRequest} {inputs : AdoptInputs} {v : Vault}
    {h : Handoff} {k : EpochKeys} (hinputs : adoptInputs p = .ok inputs)
    (hadopt : adoptable C p inputs v = .ok (h, k)) : Nonempty (AccountsWord C v p k) := by
  obtain ⟨_, _, hinputs⟩ := except_bind_ok hinputs
  obtain ⟨obj, _, hinputs⟩ := except_bind_ok hinputs
  obtain ⟨chain, hchain, hinputs⟩ := except_bind_ok hinputs
  obtain ⟨epoch1, hepoch1, hinputs⟩ := except_bind_ok hinputs
  cases hinputs
  have hchain := nonEmpty_ok hchain
  have hepoch1 := (decodedTo_ok hepoch1).1
  obtain ⟨device, hdevice, hadopt⟩ := except_bind_ok hadopt
  obtain ⟨_, _, hadopt⟩ := except_bind_ok hadopt
  obtain ⟨previous, _, hadopt⟩ := except_bind_ok hadopt
  obtain ⟨pin, hpin, hadopt⟩ := except_bind_ok hadopt
  obtain ⟨verified, hverified, hadopt⟩ := except_bind_ok hadopt
  obtain ⟨_, hends, hadopt⟩ := except_bind_ok hadopt
  obtain ⟨h', hopen, hadopt⟩ := except_bind_ok hadopt
  obtain ⟨k', hbind, hadopt⟩ := except_bind_ok hadopt
  cases hadopt
  obtain ⟨⟨head, headRest⟩, hhead, hbind⟩ := except_bind_ok hbind
  obtain ⟨headHash, hhash, hbind⟩ := except_bind_ok hbind
  obtain ⟨pinned, hpinned, hbind⟩ := except_bind_ok hbind
  obtain ⟨keys, hkeys, hbind⟩ := except_bind_ok hbind
  obtain ⟨named, hnamed, hbind⟩ := except_bind_ok hbind
  obtain ⟨_, hsame, hbind⟩ := except_bind_ok hbind
  cases hbind
  have hverified := mapError_ok hverified
  have hpinned := coded_ok hpinned
  have hends : verified.epoch = p.epoch := by simpa using require_ok hends
  have hsamev := verifyChain_pin hverified hpinned
  have hsign : verified.epochSign = some (k.signPub C) := by
    rw [hsamev, requireSome_ok hnamed]
    simpa using require_ok hsame
  obtain ⟨es, hes, hatt⟩ := verifyChain_attested (chain_fits hchain) hverified
  refine ⟨{
    loaded := pairedDevice_some (requireSome_ok hdevice)
    chain := chain
    chain_sent := hchain
    epoch1 := epoch1
    epoch1_sent := hepoch1
    handoff := h
    derived := coded_ok hkeys
    pin := pin
    pin_sent := hpin
    verified := verified
    verifies := hverified
    ends := hends
    head := head
    headRest := headRest
    head_carried := coded_ok hhead
    headHash := headHash
    head_hashed := coded_ok hhash
    throughHead := hsamev ▸ hpinned
    named := hsign
    entries := es
    entries_read := hes
    announced := ?_
    chainable := ?_ }⟩
  · rcases hatt.named with ⟨hone, hfirst⟩ | ⟨e, he, hop, hepoch, hpub⟩
    · refine .inl ⟨hends.symm.trans hone, ?_⟩
      exact Option.some.inj (hfirst.symm.trans hsign)
    · refine .inr ⟨e, he, hop, hepoch.trans hends, ?_⟩
      exact Option.some.inj (hpub.symm.trans hsign)
  · intro hchained
    obtain ⟨e, hfound, hrev⟩ := openFor_ok hopen hchained
    obtain ⟨hmem, hop, hepoch⟩ := transitionFrom_ok hfound hes (Nat.le_refl _)
    refine ⟨e, hmem, hop, hepoch, hrev, ?_⟩
    intro e' he' hop' hepoch'
    exact hatt.once e' he' e hmem hop' hop (hepoch'.trans hepoch.symm)

/-! ## Every run -/

/-- How far the handler of an adoption has come, and what that says of the vault. -/
inductive Progress (C : Crypto) (params : Option AdoptEpochRequest) (entered v : Vault) :
    Handler → Prop
  | asked (same : v = entered) : Progress C params entered v (handleAdoptEpoch C params)
  | refused (e : CodedError) (same : v = entered) : Progress C params entered v (.done (.error e))
  | ready (p : AdoptEpochRequest) (k : EpochKeys) (reply : Reply) (sent : params = some p)
      (same : v = entered) (word : Nonempty (AccountsWord C v p k)) :
      Progress C params entered v
        (.ask (fun w => w.adopt p.epoch k) fun _ => .done (.ok reply))
  | adopted (reply : Reply) : Progress C params entered v (.done (.ok reply))

/-- Between the read and the write nothing but this handler touches the vault, so what the checks
found is still true of it. -/
theorem adoptFrom_progress {C : Crypto} {p : AdoptEpochRequest} {inputs : AdoptInputs} {v : Vault}
    (hinputs : adoptInputs p = .ok inputs) :
    Progress C (some p) v v (adoptFrom C p inputs v) := by
  unfold adoptFrom
  cases hadopt : adoptable C p inputs v with
  | error e => exact .refused e rfl
  | ok found =>
    obtain ⟨h, k⟩ := found
    exact .ready p k _ rfl rfl (adoptable_word hinputs hadopt)

/-- One critical section of an adoption: it leaves the vault alone, or writes the key. -/
theorem Progress.section {C : Crypto} {params : Option AdoptEpochRequest} {entered v : Vault}
    {f : Vault → Vault} {k : Vault → Handler} (h : Progress C params entered v (.ask f k)) :
    Progress C params entered (f v) (k v) ∧
      (f v = v ∨ ∃ p key, params = some p ∧ f v = v.adopt p.epoch key ∧
        Nonempty (AccountsWord C v p key)) := by
  generalize hh : (Prog.ask f k : Handler) = handler at h
  cases h with
  | refused e same => cases hh
  | adopted reply => cases hh
  | ready p key reply sent same word =>
    cases hh
    exact ⟨.adopted reply, .inr ⟨p, key, sent, rfl, word⟩⟩
  | asked same =>
    subst same
    unfold handleAdoptEpoch decodeParams at hh
    cases params with
    | none => cases hh
    | some p =>
      simp only at hh
      cases hinputs : adoptInputs p with
      | error e =>
        rw [hinputs] at hh
        cases hh
      | ok inputs =>
        rw [hinputs] at hh
        cases hh
        exact ⟨adoptFrom_progress hinputs, .inl rfl⟩

/-- Whenever an adoption is being served, it has come as far as `Progress` allows. -/
def Process.Tracks (C : Crypto) (s : Process) : Prop :=
  ∀ sv params, s.serving = some sv → sv.request = .adoptEpoch params →
    Progress C params sv.entered s.vault sv.handler

theorem tracks_step {C : Crypto} {s : Process} (h : s.Tracks C) (e : Event) :
    (s.step C e).Tracks C := by
  cases e with
  | arrive r => exact h
  | turn =>
    obtain ⟨stdin, vault, serving, answers⟩ := s
    intro sv params hsv hreq
    cases serving with
    | none =>
      cases stdin with
      | nil => cases hsv
      | cons r rest =>
        cases hsv
        have hr : r = .adoptEpoch params := hreq
        subst hr
        exact .asked rfl
    | some now =>
      obtain ⟨r, entered, handler⟩ := now
      cases handler with
      | done a => cases hsv
      | ask f k =>
        cases hsv
        exact (h _ params rfl hreq).section.1

theorem tracks_run (C : Crypto) (events : List Event) : (Process.start.run C events).Tracks C := by
  induction events using List.reverseRecOn with
  | nil =>
    intro sv params hsv
    cases hsv
  | append_singleton events e ih =>
    unfold Process.run at ih ⊢
    rw [List.foldl_concat]
    exact tracks_step ih e

def checksum (b : Bytes) : Bytes := b.foldl (fun n x => n * 31 + x) 7 :: List.replicate 31 0

/-- Primitives small enough to compute with: a checksum for the hash, a signature that anyone can
write but only for its own key and body. -/
def toyCrypto : Crypto where
  sha256 := checksum
  hkdf ikm _ info := some ((ikm.headD 0 + (checksum info).headD 0) :: List.replicate 31 1)
  publicOf seed := seed
  verify pub body sig := sig = pub ++ checksum body
  checkSigningKey pub := pub.length = publicKeySize
  checkAgreementKey pub := pub.length = publicKeySize
  x25519 raw := some raw
  hpkeRecipient enc scalar info := some (enc ++ checksum (scalar ++ info))
  hpkeExport ctx label := some (checksum (ctx ++ label))
  hpkeOpen _ _ sealed := some sealed

def toyRoot : Bytes := List.replicate 32 9
def toyAccount : Bytes := deriveAccountID toyCrypto toyRoot

def toySigned (seed : Bytes) (e : Entry) : Entry :=
  { e with sig := seed ++ checksum (e.encode.toOption.getD []) }

def toyKey (seed : UInt8) (epoch : UInt64) : EpochKeys :=
  (deriveEpoch toyCrypto (List.replicate 32 seed) toyAccount epoch).toOption.getD
    ⟨epoch, [], [], [], []⟩

def toyGenesis : Entry := toySigned (toyKey 1 1).signSeed {
  accountID := toyAccount, epoch := 1, seq := 0, prevHash := List.replicate 32 0, op := .add,
  signer := .ak, flags := 0, nonce := List.replicate 32 5, pubSign := List.replicate 32 6,
  pubEnc := List.replicate 32 7, labelCT := [1], ts := 0, sig := [] }

def toyTransition : Entry := toySigned (toyKey 1 1).signSeed {
  toyGenesis with
  epoch := 2, seq := 1, prevHash := (toyGenesis.hash toyCrypto).toOption.getD [], op := .epoch,
  pubSign := (toyKey 2 2).signSeed, pubEnc := (toyKey 2 2).enc, labelCT := [] }

def toyChain : Bytes :=
  toyGenesis.wire.toOption.getD [] ++ toyTransition.wire.toOption.getD []

def toyHandoff : Bytes :=
  let plaintext := Encoder.new domainHandoffPlaintext ++ toyAccount ++ Encoder.u64 2
    ++ Encoder.u64 1 ++ List.replicate 32 2 ++ toyRoot
    ++ Encoder.bytes (toyTransition.wire.toOption.getD [])
  let ctx := [4] ++ checksum ((toyKey 1 1).enc ++ handoffInfo toyAccount 2 (toyKey 1 1).ak)
  Encoder.new domainHandoffObject ++ [suitePinned] ++ Encoder.bytes [4]
    ++ checksum (ctx ++ handoffCommitContext toyAccount 2 1) ++ Encoder.bytes plaintext

def toyLoad : LoadRequest where
  accountId := hexEncode toyAccount
  deviceSignSeed := base64Encode (List.replicate 32 6)
  deviceEncKey := base64Encode (List.replicate 32 7)
  epochKeys := JsMap.empty.set 1 (base64Encode (List.replicate 32 1))
  rootSignPub := hexEncode toyRoot

def toyAdopt : AdoptEpochRequest where
  epoch := 2
  counter := 1
  handoff := base64Encode toyHandoff
  chain := base64Encode toyChain
  epoch1Sign := hexEncode (toyKey 1 1).signSeed
  chained := true
  pinnedSeq := 0
  pinnedHead := hexEncode ((toyGenesis.hash toyCrypto).toOption.getD [])
  havePin := true
  framed := by decide +kernel

/-- A load, then an adoption with a reset already waiting behind it. -/
def toyEvents : List Event := [.arrive (.load (some toyLoad)), .turn, .turn, .turn,
    .arrive (.adoptEpoch (some toyAdopt)), .turn, .arrive .reset, .turn]

def Request.adopting : Request → Option (Option AdoptEpochRequest)
  | .adoptEpoch params => some params
  | _ => none

theorem Request.adopting_some {r : Request} {params : Option AdoptEpochRequest}
    (h : r.adopting = some params) : r = .adoptEpoch params := by
  cases r with
  | adoptEpoch params' =>
    cases h
    rfl
  | load params' => cases h
  | reset => cases h
  | other handler => cases h

theorem toyEvents_serving : (Process.start.run toyCrypto toyEvents).serving.isSome = true := by
  decide +kernel

end OpsMaxx.Sidecar
