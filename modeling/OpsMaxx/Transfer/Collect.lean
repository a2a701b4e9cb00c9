import Mathlib.Logic.Function.Basic
import OpsMaxx.Json.Text

/-! # Files sent to this device

A notice in the mailbox says where the bytes of a file are. A pass over the mailbox opens the
notices, fetches what they point at, writes it into quarantine, and acknowledges. Opening is
one-shot: the sidecar refuses the same mail twice, so a notice that has to wait is held here.
Paths are relative to the quarantine directory.
-/

set_option autoImplicit false

namespace OpsMaxx.Transfer

abbrev Bytes : Type := List UInt8

/-! ## What a notice says -/

structure MailRow where
  id : Nat
  fromDevice : String
  kind : String
  sealed : String
  deriving DecidableEq, Repr

structure OpenedMail where
  signer : String
  sentAt : Int
  payload : String

structure TransferNotice where
  id : String
  key : String
  name : Option Json
  sha256 : Option Json

def transferKind : String := "transfer"
def clipboardKind : String := "clipboard"

/-- `/^[0-9a-f]{8,64}$/` -/
def transferID (id : String) : Bool :=
  let cs := id.toList
  8 ≤ cs.length && cs.length ≤ 64 && cs.all fun c => c.isDigit || ('a' ≤ c && c ≤ 'f')

def objectName (id : String) : String := "transfer:" ++ id

/-- What the payload of a notice is good for. `nothing` is the value on which the checks throw. -/
inductive Reading where
  | unreadable | nothing | malformed
  | notice (n : TransferNotice)

def readNotice (payload : String) : Reading :=
  match Json.parse payload with
  | none => .unreadable
  | some .null => .nothing
  | some v =>
    match v.get? "id", v.get? "key" with
    | some (.str id), some (.str key) =>
      if transferID id then .notice ⟨id, key, v.get? "name", v.get? "sha256"⟩ else .malformed
    | _, _ => .malformed

/-- The base64 of the first twelve bytes an old sender's mail starts with. -/
def legacyPrefix : String := "YWRkeS1vYmotdjEA"

def isLegacyMail (sealed : String) : Bool := sealed.toList.take 16 == legacyPrefix.toList

/-! ## Names and paths -/

/-- The last part of a path, as `path.posix.basename` has it. -/
def basename (path : List Char) : List Char :=
  ((path.reverse.dropWhile (· == '/')).takeWhile (· != '/')).reverse

def safeName (name : String) : String :=
  let safe := (basename name.toList).map fun c => if c == '/' || c == '\\' then '_' else c
  if safe.isEmpty then "file" else String.ofList safe

/-- `join` of a folder with a name that has no separator in it. -/
def joinName (folder : List String) (name : String) : List String :=
  if name = "." then folder else if name = ".." then folder.dropLast else folder ++ [name]

/-! ## The world a pass runs in -/

/-- How a request to another process went; a lost one was carried out, but its answer never came. -/
inductive Reach where
  | answered | down | lost
  deriving DecidableEq, Repr

inductive AckAnswer where
  | ok | refused | threw (carriedOut : Bool)
  deriving DecidableEq, Repr

/-- How a write of a whole file went; a failed one may leave other contents behind. -/
inductive WriteAnswer where
  | ok
  | failed (left : Option Bytes)

/-- What does not change while the app runs: what each mail holds for this device, and what a sealed
object opens to under a key. Sealing is authenticated: one key opens one text. -/
structure World where
  mail : String → Option OpenedMail
  openBlob : (key : String) → Bytes → Option Bytes
  sha256 : Bytes → String
  authenticated : ∀ {key : String} {b b' p p' : Bytes}, openBlob key b = some p →
    openBlob key b' = some p' → p = p'

/-- What one pass meets. The relay may change any object between two passes. -/
structure Pass where
  listing : Option (List MailRow)
  peers : List String
  change : String → Option (Option Bytes)
  sidecar : (sealed : String) → Reach
  fetch : (object : String) → Bool
  blob : (object : String) → Bool
  quarantine : Bool
  folder : (id : String) → Bool
  write : (path : List String) → WriteAnswer
  ack : AckAnswer
  delete : (object : String) → Bool

structure ArrivedFile where
  id : String
  name : String
  size : Nat
  path : List String
  sender : String
  sentAt : Int
  deriving DecidableEq, Repr

inductive DeskEvent where
  | wrote (mail : String) (path : List String)
  | stored (mail : String) (path : List String) (bytes : Bytes)
  | acked (row : MailRow) (peers : List String)
  | deleted (object : String)
  | reported (mail : String) (file : ArrivedFile)
  deriving DecidableEq, Repr

/-- What is held here, what the sidecar has opened, the quarantine, the relay's objects, and what
was done so far. -/
structure Desk where
  held : String → Option OpenedMail
  spent : String → Bool
  files : List String → Option Bytes
  objects : String → Option Bytes
  log : List DeskEvent

def Desk.note (s : Desk) (es : List DeskEvent) : Desk := { s with log := s.log ++ es }

def Desk.hold (s : Desk) (sealed : String) (o : Option OpenedMail) : Desk :=
  { s with held := Function.update s.held sealed o }

def Desk.spend (s : Desk) (sealed : String) : Desk :=
  { s with spent := Function.update s.spent sealed true }

/-! ## Opening -/

/-- The sidecar opens a mail once, and only for a signer on the roster. -/
def openMail (W : World) (p : Pass) (s : Desk) (sealed : String) : Desk × Option OpenedMail :=
  if isLegacyMail sealed || s.spent sealed then (s, none)
  else
    match W.mail sealed with
    | none => (s, none)
    | some o =>
      if o.signer ∈ p.peers then
        match p.sidecar sealed with
        | .answered => (s.spend sealed, some o)
        | .down => (s, none)
        | .lost => (s.spend sealed, none)
      else (s, none)

def takeNotice (W : World) (p : Pass) (s : Desk) (sealed : String) : Desk × Option OpenedMail :=
  match s.held sealed with
  | some o => (s.hold sealed none, some o)
  | none => openMail W p s sealed

/-! ## One notice -/

/-- What the pass keeps of one notice when it goes on to the next. -/
inductive Fate where
  | unopened
  | unusable (finished : Option String)
  | retried
  | arrived (file : ArrivedFile) (finished : String)
  | threw
  deriving DecidableEq, Repr

/-- `writeFileSync`: a path that is the quarantine or one of its folders is not a file. -/
def writeFile (p : Pass) (s : Desk) (mail : String) (path : List String) (bytes : Bytes) :
    Desk × Bool :=
  if path.length ≤ 1 ∨ path.any fun part => part.toList.contains '\x00' then (s, false)
  else
    match p.write path with
    | .ok =>
      ({ s with files := Function.update s.files path (some bytes) }.note
        [.wrote mail path, .stored mail path bytes], true)
    | .failed none => (s.note [.wrote mail path], false)
    | .failed (some left) =>
      ({ s with files := Function.update s.files path (some left) }.note [.wrote mail path], false)

def fetchObject (p : Pass) (s : Desk) (object : String) : Option Bytes :=
  if p.fetch object then s.objects object else none

def openBytes (W : World) (p : Pass) (key object : String) (body : Bytes) : Option Bytes :=
  if p.blob object then W.openBlob key body else none

def TransferNotice.hasDigest (n : TransferNotice) (digest : String) : Bool :=
  match n.sha256 with
  | some (.str d) => d == digest
  | _ => false

/-- Put the bytes into the folder named by the transfer; a name that is no string throws. -/
def store (p : Pass) (s : Desk) (mail : String) (n : TransferNotice) (bytes : Bytes) :
    Desk × Option (String × List String) :=
  if p.folder n.id then
    match n.name with
    | some (.str name) =>
      let safe := safeName name
      let full := joinName [n.id] safe
      match writeFile p s mail full bytes with
      | (s, true) => (s, some (safe, full))
      | (s, false) => (s, none)
    | _ => (s, none)
  else (s, none)

/-- Fetch, open, check and write what a notice points at. Whatever fails on the way is held. -/
def receive (W : World) (p : Pass) (s : Desk) (m : MailRow) (o : OpenedMail) (n : TransferNotice) :
    Desk × Fate :=
  let object := objectName n.id
  match (fetchObject p s object).bind (openBytes W p n.key object) with
  | none => (s.hold m.sealed (some o), .retried)
  | some bytes =>
    if n.hasDigest (W.sha256 bytes) then
      match store p s m.sealed n bytes with
      | (s, some (name, path)) =>
        (s, .arrived ⟨n.id, name, bytes.length, path, o.signer, o.sentAt⟩ object)
      | (s, none) => (s.hold m.sealed (some o), .retried)
    else (s, .unusable (some object))

def handleNotice (W : World) (p : Pass) (s : Desk) (m : MailRow) : Desk × Fate :=
  match takeNotice W p s m.sealed with
  | (s, none) => (s, .unopened)
  | (s, some o) =>
    match readNotice o.payload with
    | .unreadable => (s, .unusable none)
    | .nothing => (s, .threw)
    | .malformed => (s, .unusable none)
    | .notice n => receive W p s m o n

/-- The notices in their order; one that throws ends the pass. -/
def handleAll (W : World) (p : Pass) (s : Desk) :
    List MailRow → Desk × List (MailRow × Fate) × Bool
  | [] => (s, [], false)
  | m :: rest =>
    match handleNotice W p s m with
    | (s, .threw) => (s, [], true)
    | (s, fate) =>
      let (s, fates, threw) := handleAll W p s rest
      (s, (m, fate) :: fates, threw)

/-! ## A pass -/

def Fate.isDone : Fate → Bool
  | .arrived _ _ => true
  | _ => false

def Fate.isUnusable : Fate → Bool
  | .unopened => true
  | .unusable _ => true
  | _ => false

def Fate.file : Fate → Option ArrivedFile
  | .arrived file _ => some file
  | _ => none

def Fate.finished : Fate → Option String
  | .arrived _ object => some object
  | .unusable object => object
  | _ => none

def arrivals (fates : List (MailRow × Fate)) : List (String × ArrivedFile) :=
  fates.filterMap fun x => x.2.file.map fun file => (x.1.sealed, file)

def finishedObjects (fates : List (MailRow × Fate)) : List String :=
  fates.filterMap fun x => x.2.finished

def legacyCount (fates : List (MailRow × Fate)) : Nat :=
  (fates.filter fun x => x.2 = .unopened ∧ isLegacyMail x.1.sealed).length

def Pass.isNotice (p : Pass) (m : MailRow) : Bool :=
  m.kind == transferKind && p.peers.contains m.fromDevice

def Pass.isForeign (p : Pass) (m : MailRow) : Bool :=
  !p.peers.contains m.fromDevice || (m.kind != transferKind && m.kind != clipboardKind)

inductive CollectError where
  | collectingMail | quarantine | typeError | acknowledging
  | legacyRefused (count : Nat)
  deriving DecidableEq, Repr

def sendAck (p : Pass) (s : Desk) (rows : List MailRow) : Desk :=
  match p.ack with
  | .ok | .threw true => s.note (rows.map fun m => .acked m p.peers)
  | .refused | .threw false => s

def deleteObject (p : Pass) (s : Desk) (object : String) : Desk :=
  if p.delete object then
    { s with objects := Function.update s.objects object none }.note [.deleted object]
  else s

def AckAnswer.isThrow : AckAnswer → Bool
  | .threw _ => true
  | _ => false

/-- What comes after the loop: the acknowledgement first, the deletions after it. -/
def settle (p : Pass) (s : Desk) (rows : List MailRow) (fates : List (MailRow × Fate)) :
    Desk × Except CollectError (List (String × ArrivedFile)) :=
  let rows := (fates.filter fun x => x.2.isDone).map Prod.fst ++
    (rows ++ (fates.filter fun x => x.2.isUnusable).map Prod.fst)
  let (s, threw) :=
    if rows.isEmpty then (s, false)
    else
      let s := sendAck p s rows
      (if p.ack = .ok then (finishedObjects fates).foldl (deleteObject p) s else s, p.ack.isThrow)
  if threw then (s, .error .acknowledging)
  else if 0 < legacyCount fates ∧ (arrivals fates).isEmpty then
    (s, .error (.legacyRefused (legacyCount fates)))
  else (s, .ok (arrivals fates))

def collectFiles (W : World) (p : Pass) (s : Desk) :
    Desk × Except CollectError (List (String × ArrivedFile)) :=
  match p.listing with
  | none => (s, .error .collectingMail)
  | some messages =>
    let notices := messages.filter p.isNotice
    let foreign := messages.filter p.isForeign
    if notices.isEmpty then settle p s foreign []
    else if !p.quarantine then (s, .error .quarantine)
    else
      match handleAll W p s notices with
      | (s, _, true) => (s, .error .typeError)
      | (s, fates, false) => settle p s foreign fates

/-! ## A run -/

/-- The desk with the relay's objects as the pass finds them. -/
def Desk.incoming (s : Desk) (p : Pass) : Desk :=
  { s with objects := fun name => (p.change name).getD (s.objects name) }

/-- One pass; its answer is what the caller is told. -/
def Desk.pass (W : World) (s : Desk) (p : Pass) : Desk :=
  match collectFiles W p (s.incoming p) with
  | (s, .ok files) => s.note (files.map fun f => .reported f.1 f.2)
  | (s, .error _) => s

def Desk.run (W : World) (s : Desk) (passes : List Pass) : Desk := passes.foldl (Desk.pass W) s

/-- The app as it starts: nothing held, nothing opened, nothing done. -/
def Desk.start (files : List String → Option Bytes) (objects : String → Option Bytes) : Desk :=
  ⟨fun _ => none, fun _ => false, files, objects, []⟩

end OpsMaxx.Transfer
