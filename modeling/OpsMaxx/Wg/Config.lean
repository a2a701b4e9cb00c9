import OpsMaxx.Machine.Run
import OpsMaxx.Net.Address
import OpsMaxx.Store.JsMap
import OpsMaxx.Strings.Numeric

/-!
# The import of a WireGuard file

`parseWgConf` reads the sections of a `wg-quick` file and builds the typed model from them. What the
model has no place for is reported, and a file with a hook in it is refused.
-/

set_option autoImplicit false

namespace OpsMaxx.Wg

open Machine (Reporting)
open Net (ofDecimal)
open Store (JsMap)
open Strings

/-! ## The model -/

inductive Severity
  | removed
  | rejected
  deriving DecidableEq

/-- A reason is a text, but for a key that the table of reasons finds among what every object
inherits. -/
inductive Reason
  | text (t : Text)
  | inherited (property : Text)
  deriving DecidableEq

structure StrippedDirective where
  directive : Text
  reason : Reason
  severity : Severity
  deriving DecidableEq

inductive VpnErrorCode
  | configInvalid
  | configRejected
  deriving DecidableEq

structure VpnError where
  code : VpnErrorCode
  detail : Text
  deriving DecidableEq

inductive VpnSecretField
  | privateKey
  | presharedKey
  deriving DecidableEq

structure VpnSecretRef where
  vaultEntryId : Text
  field : VpnSecretField
  fieldKey : Option Text
  deriving DecidableEq

/-- Absent means that no keepalive is sent. -/
structure WireGuardPeer where
  publicKey : Text
  endpoint : Text
  allowedIps : List Text
  presharedKeyRef : Option VpnSecretRef
  persistentKeepalive : Option Nat
  deriving DecidableEq

structure WireGuardSpec where
  privateKeyRef : VpnSecretRef
  addresses : List Text
  dns : List Text
  mtu : Option Nat
  peers : List WireGuardPeer
  strippedDirectives : List StrippedDirective
  deriving DecidableEq

structure ImportedSecrets where
  privateKey : Text
  presharedKeys : Option (JsMap Text Text)
  deriving DecidableEq

structure Imported where
  spec : WireGuardSpec
  name : Option Text
  stripped : List StrippedDirective
  warnings : List Text
  secrets : ImportedSecrets
  deriving DecidableEq

inductive VpnImportResult
  | ok (imported : Imported)
  | failed (error : VpnError) (stripped : List StrippedDirective) (warnings : List Text)
  deriving DecidableEq

/-! ## What values are -/

/-- What becomes of the characters beyond ASCII is up to the table of the platform. -/
def toLowerCase (other : Text → Text) (t : Text) : Text :=
  if t.all fun c => c.toNat < 128 then t.map Char.toLower else other t

def isKeyChar (c : Char) : Bool := c.isAlphanum || c = '+' || c = '/'

/-- The last digit of 32 bytes in base64 carries four bits. -/
def isWireGuardKey (s : Text) : Bool :=
  let t := trim s
  t.length = 44 && (t.take 42).all isKeyChar &&
    (t.drop 42).dropLast.all (fun c => c ∈ "AEIMQUYcgkosw048".toList) && t.getLast? = some '='

/-- What stands before the last of a character, and what stands behind it. -/
def cutLast (c : Char) (t : Text) : Option (Text × Text) :=
  match t.reverse.span (· ≠ c) with
  | (_, []) => none
  | (behind, _ :: before) => some (before.reverse, behind.reverse)

def digitsUpTo (n : Nat) (t : Text) : Bool := t ≠ [] && t.length ≤ n && t.all Char.isDigit

/-- The octets and the bits of `a.b.c.d/n`. -/
def cidr4 (t : Text) : Option (List Nat × Nat) :=
  match t.splitOn '/' with
  | [addr, bits] =>
    let octets := addr.splitOn '.'
    if octets.length = 4 && octets.all (digitsUpTo 3) && digitsUpTo 2 bits then
      some (octets.map ofDecimal, ofDecimal bits)
    else none
  | _ => none

def isAddressChar (c : Char) : Bool := Net.isHex c || c = ':' || c = '.'

def isCidr (s : Text) : Bool :=
  let t := trim s
  match cidr4 t with
  | some (octets, bits) => octets.all (· ≤ 255) && bits ≤ 32
  | none =>
    match cutLast '/' t with
    | none => false
    | some (addr, bits) =>
      ':' ∈ addr && addr.all isAddressChar && (upTo 128 (number bits)).isSome

structure VpnEndpoint where
  host : Text
  port : Nat

/-- `[host]:port`, the brackets being the first character and the last of their kind. -/
def bracketed : Text → Option VpnEndpoint
  | '[' :: t =>
    match cutLast ']' t with
    | some (host, ':' :: port) =>
      if host ≠ [] && host.all (fun c => !isLineTerminator c) && port ≠ [] && port.all Char.isDigit
      then some ⟨host, ofDecimal port⟩
      else none
    | _ => none
  | _ => none

def isPort (n : Nat) : Bool := 0 < n && n < 65536

def parseVpnEndpoint (s : Text) : Option VpnEndpoint :=
  let t := trim s
  match bracketed t with
  | some e => if isPort e.port then some e else none
  | none =>
    match cutLast ':' t with
    | none => none
    | some (host, port) =>
      if host = [] || ':' ∈ host then none
      else
        match upTo 65535 (number port) with
        | some n => if isPort n then some ⟨host, n⟩ else none
        | none => none

/-- Everything after the first `#` or `;` is a comment. -/
def stripComment (line : Text) : Text := line.takeWhile fun c => c ≠ '#' && c ≠ ';'

def splitList (v : Text) : List Text := ((v.splitOn ',').map trim).filter (· ≠ [])

def normaliseCidr (v : Text) : Text :=
  if '/' ∈ v then v else v ++ if ':' ∈ v then "/128".toList else "/32".toList

def intIn (v : Text) (lo hi : Nat) : Option Nat :=
  if v ≠ [] && v.all Char.isDigit && lo ≤ ofDecimal v && ofDecimal v ≤ hi then some (ofDecimal v)
  else none

def isDnsChar (c : Char) : Bool := c.isAlphanum || c ∈ "._:%-".toList

/-! ## The tables of keys -/

def WG_REJECT_RULES : List (Text × Text) :=
  [("preup".toList, "PreUp runs a shell command as root before the interface comes up.".toList),
    ("postup".toList, "PostUp runs a shell command as root once the interface is up.".toList),
    ("predown".toList, "PreDown runs a shell command as root before the interface goes down.".toList),
    ("postdown".toList,
      "PostDown runs a shell command as root after the interface goes down.".toList)]

def IFACE_MODELLED : List Text :=
  ["privatekey".toList, "address".toList, "dns".toList, "mtu".toList]

def PEER_MODELLED : List Text :=
  ["publickey".toList, "presharedkey".toList, "endpoint".toList, "allowedips".toList,
    "persistentkeepalive".toList]

def IFACE_UNMODELLED (key : Text) : Option Reason :=
  if key = "listenport".toList then
    some (.text
      "The userspace stack binds its own source port, so a fixed ListenPort has no effect.".toList)
  else if key = "table".toList then
    some (.text ("Table only means something to wg-quick, which manages system routes. " ++
      "OpsMaxx does not.").toList)
  else if key = "constructor".toList || key = "__proto__".toList then some (.inherited key)
  else none

/-! ## Reports -/

structure Ctx where
  stripped : List StrippedDirective
  warnings : List Text
  deriving DecidableEq

abbrev Build (α : Type) : Type := Reporting VpnError Ctx α

def quoted (t : Text) : Text := '"' :: (t ++ ['"'])

def removed (directive : Text) (reason : Reason) : StrippedDirective := ⟨directive, reason, .removed⟩

def drop (directive : Text) (reason : Reason) : Build PUnit :=
  modify fun ctx => { ctx with stripped := ctx.stripped ++ [removed directive reason] }

def warn (warning : Text) : Build PUnit :=
  modify fun ctx => { ctx with warnings := ctx.warnings ++ [warning] }

def lineError (code : VpnErrorCode) (lineNo : Nat) (raw why : Text) : VpnError :=
  ⟨code, "Line ".toList ++ Nat.toDigits 10 lineNo ++ ": ".toList ++ trim raw ++ " — ".toList ++ why⟩

def reject {α : Type} (directive reason : Text) (lineNo : Nat) (raw : Text) : Build α := do
  modify fun ctx => { ctx with stripped := ctx.stripped ++ [⟨directive, .text reason, .rejected⟩] }
  throw (lineError .configRejected lineNo raw reason)

def invalid (lineNo : Nat) (raw why : Text) : VpnError := lineError .configInvalid lineNo raw why

def unusable (detail : Text) : VpnError := ⟨.configInvalid, detail⟩

def demand (p : Prop) [Decidable p] (e : VpnError) : Build PUnit := if p then pure () else throw e

def warnIf (p : Bool) (warning : Text) : Build PUnit := if p then warn warning else pure ()

/-! ## Sections -/

inductive SectionName
  | interface
  | peer
  deriving DecidableEq

def SectionName.title : SectionName → Text
  | .interface => "Interface".toList
  | .peer => "Peer".toList

structure Entry where
  value : Text
  line : Nat
  raw : Text
  deriving DecidableEq

structure Section where
  name : SectionName
  values : JsMap Text Entry
  deriving DecidableEq

/-- The name between the brackets of a header. -/
def headerName : Text → Option Text
  | '[' :: t =>
    let name := trim t.dropLast
    if t.getLast? = some ']' && name ≠ [] && name.all Char.isAlpha then some name else none
  | _ => none

def sectionName (name : Text) : Option SectionName :=
  if name = "interface".toList then some .interface
  else if name = "peer".toList then some .peer
  else none

def duplicateWarning (lineNo : Nat) (key : Text) (name : SectionName) (value old : Text) : Text :=
  "Line ".toList ++ Nat.toDigits 10 lineNo ++ ": ".toList ++ key ++
    " is set more than once in [".toList ++ name.title ++ "]; the last value wins (".toList ++
    quoted value ++ " replaces ".toList ++ quoted old ++ ").".toList

/-- The last section with a key set in it. -/
def setLast (sections : List Section) (last : Section) (key : Text) (entry : Entry) :
    List Section :=
  sections.dropLast ++ [{ last with values := last.values.set key entry }]

variable (other : Text → Text)

def readHeader (sections : List Section) (lineNo : Nat) (raw written : Text) :
    Build (List Section) :=
  match sectionName (toLowerCase other written) with
  | none => throw (invalid lineNo raw ("unknown section [".toList ++ written ++ "].".toList))
  | some name =>
    if name = .interface ∧ sections.any (fun s => s.name = .interface) then
      throw (invalid lineNo raw "a second [Interface] section.".toList)
    else pure (sections ++ [⟨name, .empty⟩])

def warnDuplicate (last : Section) (lineNo : Nat) (key value : Text) : Build PUnit :=
  match last.values.get key with
  | some prev => warn (duplicateWarning lineNo key last.name value prev.value)
  | none => pure ()

def readSetting (sections : List Section) (lineNo : Nat) (raw key value : Text) :
    Build (List Section) :=
  if key = [] then throw (invalid lineNo raw "missing key.".toList)
  else
    match WG_REJECT_RULES.lookup key with
    | some reason => reject key reason lineNo raw
    | none =>
      match sections.getLast? with
      | none => throw (invalid lineNo raw "a setting before any [Interface] section.".toList)
      | some last => do
        warnDuplicate last lineNo key value
        pure (setLast sections last key ⟨value, lineNo, raw⟩)

def readLine (sections : List Section) (lineNo : Nat) (raw : Text) : Build (List Section) :=
  let line := trim (stripComment raw)
  if line = [] then pure sections
  else
    match headerName line with
    | some written => readHeader other sections lineNo raw written
    | none =>
      match cutAt ['='] line with
      | none => throw (invalid lineNo raw "expected \x60Key = value\x60.".toList)
      | some (before, behind) =>
        readSetting sections lineNo raw (toLowerCase other (trim before)) (trim behind)

/-- The lines from a number on. -/
def readLines : List Section → Nat → List Text → Build (List Section)
  | sections, _, [] => pure sections
  | sections, lineNo, raw :: rest => do
    let sections ← readLine other sections lineNo raw
    readLines sections (lineNo + 1) rest

/-- `split(/\r?\n/)`. -/
def splitLines (text : Text) : List Text :=
  let lines := text.splitOn '\n'
  lines.dropLast.map (fun l => if l.getLast? = some '\r' then l.dropLast else l) ++
    lines.getLast?.toList

def withoutMark : Text → Text
  | c :: t => if c.toNat = 0xfeff then t else c :: t
  | [] => []

def linesOf (text : Text) : List Text := splitLines (withoutMark text)

/-! ## Values -/

def given {α : Type} (entry : Option Entry) (absent : Build α) (carry : Entry → Build α) : Build α :=
  match entry with
  | none => absent
  | some e => carry e

def carryKey (why : Text) (entry : Entry) : Build Text :=
  if isWireGuardKey entry.value then pure (trim entry.value)
  else throw (invalid entry.line entry.raw why)

/-- Every item of a list in the form it is carried across in. -/
def carryEach (shape : Text → Option Text) (why : Text → Text) (entry : Entry) :
    List Text → Build (List Text)
  | [] => pure []
  | a :: rest =>
    match shape a with
    | none => throw (invalid entry.line entry.raw (why a))
    | some x => do
      let xs ← carryEach shape why entry rest
      pure (x :: xs)

def cidrShape (a : Text) : Option Text :=
  if isCidr (normaliseCidr a) then some (normaliseCidr a) else none

def dnsShape (d : Text) : Option Text := if d ≠ [] ∧ d.all isDnsChar then some d else none

/-- The keys that the model has no place for. -/
def dropEach (modelled : List Text) (reason : Text → Entry → Reason) :
    List (Text × Entry) → Build PUnit
  | [] => pure ()
  | (key, entry) :: rest =>
    if key ∈ modelled then dropEach modelled reason rest
    else do
      drop key (reason key entry)
      dropEach modelled reason rest

/-! ## The interface -/

structure Interface where
  privateKey : Text
  addresses : List Text
  dns : List Text
  mtu : Option Nat

def interfaceReason (key : Text) (entry : Entry) : Reason :=
  match IFACE_UNMODELLED key with
  | some known => known
  | none =>
    .text ("Not a setting OpsMaxx understands (value ".toList ++ quoted entry.value ++ ").".toList)

def carryMtu (entry : Entry) : Build (Option Nat) :=
  match intIn entry.value 576 9000 with
  | none => throw (invalid entry.line entry.raw "MTU must be between 576 and 9000.".toList)
  | some n => pure (some n)

def notAnAddress (a : Text) : Text := quoted a ++ " is not an address with a prefix length.".toList

def notADnsServer (d : Text) : Text :=
  quoted d ++ " is not a valid DNS server or search domain.".toList

def buildInterface (iface : Section) : Build Interface := do
  let privateKey ← given (iface.values.get "privatekey".toList)
    (throw (unusable "[Interface] has no PrivateKey.".toList))
    (carryKey "PrivateKey is not a 44-character base64 WireGuard key.".toList)
  let addresses ← given (iface.values.get "address".toList) (pure []) fun entry =>
    carryEach cidrShape notAnAddress entry (splitList entry.value)
  demand (addresses ≠ []) (unusable "[Interface] has no Address.".toList)
  let dns ← given (iface.values.get "dns".toList) (pure []) fun entry =>
    carryEach dnsShape notADnsServer entry (splitList entry.value)
  let mtu ← given (iface.values.get "mtu".toList) (pure none) carryMtu
  dropEach IFACE_MODELLED interfaceReason iface.values.entries
  pure ⟨privateKey, addresses, dns, mtu⟩

/-! ## The peers -/

def PENDING_VAULT_ENTRY : Text := []

def presharedRef (publicKey : Text) : VpnSecretRef :=
  ⟨PENDING_VAULT_ENTRY, .presharedKey, some publicKey⟩

def undialable (publicKey : Text) : Reason :=
  .text ("The peer with public key ".toList ++ publicKey ++
    (" has no Endpoint, so OpsMaxx cannot dial it. " ++
      "The rest of the profile was imported without it.").toList)

def peerReason (_key : Text) (entry : Entry) : Reason :=
  .text ("Not a [Peer] setting OpsMaxx understands (value ".toList ++ quoted entry.value ++
    ").".toList)

def carryEndpoint (entry : Entry) : Build Text :=
  match parseVpnEndpoint entry.value with
  | none => throw (invalid entry.line entry.raw "Endpoint must be host:port or [v6]:port.".toList)
  | some _ => pure (trim entry.value)

def notACidr (a : Text) : Text := quoted a ++ " is not a CIDR range.".toList

def carryAllowedIps (entry : Entry) : Build (List Text) := do
  let allowedIps ← carryEach cidrShape notACidr entry (splitList entry.value)
  demand (allowedIps ≠ []) (invalid entry.line entry.raw "AllowedIPs is empty.".toList)
  pure allowedIps

def carryPresharedKey (publicKey : Text) (presharedKeys : JsMap Text Text) (entry : Entry) :
    Build (Option VpnSecretRef × JsMap Text Text) := do
  let key ← carryKey "PresharedKey is not a 44-character base64 WireGuard key.".toList entry
  pure (some (presharedRef publicKey), presharedKeys.set publicKey key)

/-- The seconds between two keepalives, and zero for none. -/
def keepalive (value : Text) : Option Nat :=
  let v := toLowerCase other (trim value)
  if v = "off".toList then some 0 else intIn v 0 65535

def carryKeepalive (entry : Entry) : Build (Option Nat) :=
  match keepalive other entry.value with
  | none =>
    throw (invalid entry.line entry.raw
      "PersistentKeepalive must be a number of seconds, or \"off\".".toList)
  | some n => pure (if 0 < n then some n else none)

/-- A peer with an endpoint, and the pre-shared keys with its own among them. -/
def buildPeer (peerSection : Section) (publicKey : Text) (endpointEntry : Entry)
    (presharedKeys : JsMap Text Text) : Build (WireGuardPeer × JsMap Text Text) := do
  let endpoint ← carryEndpoint endpointEntry
  let allowedIps ← given (peerSection.values.get "allowedips".toList)
    (throw (unusable ("The [Peer] with public key ".toList ++ publicKey ++
      " has no AllowedIPs, so no traffic would be routed to it.".toList)))
    carryAllowedIps
  let preshared ← given (peerSection.values.get "presharedkey".toList) (pure (none, presharedKeys))
    (carryPresharedKey publicKey presharedKeys)
  let persistentKeepalive ← given (peerSection.values.get "persistentkeepalive".toList) (pure none)
    (carryKeepalive other)
  dropEach PEER_MODELLED peerReason peerSection.values.entries
  pure (⟨publicKey, endpoint, allowedIps, preshared.1, persistentKeepalive⟩, preshared.2)

def buildPeers : List Section → JsMap Text Text → Build (List WireGuardPeer × JsMap Text Text)
  | [], presharedKeys => pure ([], presharedKeys)
  | peerSection :: rest, presharedKeys => do
    let publicKey ← given (peerSection.values.get "publickey".toList)
      (throw (unusable "A [Peer] section has no PublicKey.".toList))
      (carryKey "PublicKey is not a 44-character base64 WireGuard key.".toList)
    given (peerSection.values.get "endpoint".toList)
      (do
        drop "Peer".toList (undialable publicKey)
        buildPeers rest presharedKeys)
      fun entry => do
        let built ← buildPeer other peerSection publicKey entry presharedKeys
        let others ← buildPeers rest built.2
        pure (built.1 :: others.1, others.2)

/-! ## The whole file -/

def noIpv6 : Text :=
  "This profile does not carry IPv6. IPv6 traffic will bypass it.".toList

def noSystemRoutes : Text :=
  ("AllowedIPs includes 0.0.0.0/0. In userspace mode OpsMaxx changes no system routes, so only the " ++
    "connections you send through this tunnel’s local listeners use it.").toList

def carriesIpv6 (peers : List WireGuardPeer) (addresses : List Text) : Bool :=
  peers.any (fun p => p.allowedIps.any fun a => ':' ∈ a) || addresses.any fun a => ':' ∈ a

def endWarnings (peers : List WireGuardPeer) (addresses : List Text) (hostHasIpv6 : Bool) :
    Build PUnit := do
  warnIf (!carriesIpv6 peers addresses && hostHasIpv6) noIpv6
  warnIf (peers.any fun p => "0.0.0.0/0".toList ∈ p.allowedIps) noSystemRoutes

def imported (iface : Interface) (peers : List WireGuardPeer) (presharedKeys : JsMap Text Text)
    (ctx : Ctx) : Imported where
  spec :=
    { privateKeyRef := ⟨PENDING_VAULT_ENTRY, .privateKey, none⟩
      addresses := iface.addresses
      dns := iface.dns
      mtu := iface.mtu
      peers := peers
      strippedDirectives := ctx.stripped }
  name := peers.head?.bind fun p => (parseVpnEndpoint p.endpoint).map VpnEndpoint.host
  stripped := ctx.stripped
  warnings := ctx.warnings
  secrets := ⟨iface.privateKey, if presharedKeys.entries = [] then none else some presharedKeys⟩

def buildSections (hostHasIpv6 : Bool) (iface : Section) (peerSections : List Section) :
    Build Imported := do
  demand (peerSections ≠ [])
    (unusable "This file has no [Peer] section, so there is nothing to connect to.".toList)
  let interface ← buildInterface iface
  let built ← buildPeers other peerSections .empty
  demand (built.1 ≠ [])
    (unusable "No [Peer] in this file has an Endpoint, so there is no address to dial.".toList)
  endWarnings built.1 interface.addresses hostHasIpv6
  let ctx ← get
  pure (imported interface built.1 built.2 ctx)

def build (hostHasIpv6 : Bool) (text : Text) : Build Imported := do
  let sections ← readLines other [] 1 (linesOf text)
  match sections.find? fun s => s.name = .interface with
  | none => throw (unusable "This file has no [Interface] section.".toList)
  | some iface =>
    buildSections other hostHasIpv6 iface (sections.filter fun s => s.name = .peer)

/-- `hostHasIpv6` is what the option says, or else what the interfaces of this machine say. -/
def parseWgConf (hostHasIpv6 : Bool) (text : Text) : VpnImportResult :=
  match (build other hostHasIpv6 text).outcome ⟨[], []⟩ with
  | (.ok imported, _) => .ok imported
  | (.error e, ctx) => .failed e ctx.stripped ctx.warnings

end OpsMaxx.Wg
