import OpsMaxx.Addy.Merge
import Mathlib.Data.List.Infix
import OpsMaxx.Interact.Prog

/-! # One pass of the sync engine

`syncOnce` goes over the collections; for each, `syncCollection` reads the local copy and the sealed
one on the relay and decides between them. The pass is a program of requests: to the disk (`read`,
`write`, the state file), to the renderer (`applied`), to the sidecar (`seal`, `open`, `whoami`) and
to the relay (`getObject`, `putObject`, `keepConflict`). The state of the agreements is the private
state of the program.

A sealed object is what was sealed: nothing else opens it, and it opens as nothing else.
-/

set_option autoImplicit false

namespace OpsMaxx.Addy

open OpsMaxx.Interact

/-! ## Collections, failures, sealed objects -/

/-- `SYNCED_COLLECTIONS`. -/
inductive SyncedCollection where
  | apiCollections | apiWorkspace | cicdConnections | databases | deviceNames | env | folders
  | httpChecks | knownHosts | manifest | monitorGroups | servers | tunnels | vault | vpns
  | workspaces
  deriving DecidableEq

namespace SyncedCollection

def all : List SyncedCollection :=
  [apiCollections, apiWorkspace, cicdConnections, databases, deviceNames, env, folders, httpChecks,
    knownHosts, manifest, monitorGroups, servers, tunnels, vault, vpns, workspaces]

def name : SyncedCollection → String
  | apiCollections => "apiCollections"
  | apiWorkspace => "apiWorkspace"
  | cicdConnections => "cicdConnections"
  | databases => "databases"
  | deviceNames => "deviceNames"
  | env => "env"
  | folders => "folders"
  | httpChecks => "httpChecks"
  | knownHosts => "knownHosts"
  | manifest => "manifest"
  | monitorGroups => "monitorGroups"
  | servers => "servers"
  | tunnels => "tunnels"
  | vault => "vault"
  | vpns => "vpns"
  | workspaces => "workspaces"

/-- Whether the collection has an entry in `SOURCES`; the other two are `PENDING`. -/
def hasSource : SyncedCollection → Bool
  | manifest | deviceNames => false
  | _ => true

theorem all_nodup : all.Nodup := by decide

end SyncedCollection

inductive AddyErrorCode where
  | configInvalid | notPaired | pairingRefused | pairingExpired | sasMismatch | rosterInvalid
  | rosterForked | rosterRewound | rolledBack | schemaTooNew | quotaExceeded | relayUnreachable
  | peerUnreachable | internal | conflict | versionMismatch | tooLarge
  deriving DecidableEq

/-- A thrown error; it is an `AddyError` if it has a code. -/
structure Failure where
  code : Option AddyErrorCode
  message : String
  deriving DecidableEq

inductive ConflictReason where
  | bulkRemoval
  deriving DecidableEq

/-- What is sealed: a collection's bytes, or a conflict copy's envelope around them. -/
inductive Plaintext where
  | payload (body : Buffer)
  | envelope (device : String) (reason : Option ConflictReason) (body : Buffer)
  deriving DecidableEq

/-- The bytes inside a sealed payload or envelope. -/
def Plaintext.body : Plaintext → Buffer
  | .payload body => body
  | .envelope _ _ body => body

/-- A sealed object, by what it was sealed from. -/
structure Sealed where
  collection : String
  epoch : Nat
  schema : Nat
  counter : Nat
  plaintext : Plaintext
  deriving DecidableEq

/-- The label a conflict copy is sealed under. -/
def conflictLabel (name : String) : String := "conflict:" ++ name

structure RemoteObject where
  body : Sealed
  etag : String
  deriving DecidableEq

structure Opened where
  payload : Buffer
  counter : Nat
  deriving DecidableEq

/-! ## What a device remembers -/

/-- What this device remembers about one collection between passes. -/
structure CollectionState where
  etag : String
  counter : Nat
  localHash : String
  base : Option Base
  conflictedEtag : Option String
  deriving DecidableEq

/-- The agreements of this device, and the highest counters it has ever seen. -/
structure SyncState where
  accountId : Option String
  collections : SyncedCollection → Option CollectionState
  floors : SyncedCollection → Nat

namespace SyncState

def fresh (forAccount : Option String) : SyncState := ⟨forAccount, fun _ => none, fun _ => 0⟩

/-- `state.collections[name] = entry`. -/
def record (s : SyncState) (name : SyncedCollection) (entry : CollectionState) : SyncState :=
  { s with collections := Function.update s.collections name (some entry) }

@[simp] theorem record_collections_self (s : SyncState) (name : SyncedCollection)
    (entry : CollectionState) : (s.record name entry).collections name = some entry := by
  simp [record]

@[simp] theorem record_collections_ne (s : SyncState) {name other : SyncedCollection}
    (entry : CollectionState) (h : other ≠ name) :
    (s.record name entry).collections other = s.collections other := by simp [record, h]

@[simp] theorem record_floors (s : SyncState) (name : SyncedCollection)
    (entry : CollectionState) : (s.record name entry).floors = s.floors := rfl

@[simp] theorem record_accountId (s : SyncState) (name : SyncedCollection)
    (entry : CollectionState) : (s.record name entry).accountId = s.accountId := rfl

end SyncState

def counterOf (entry : Option CollectionState) : Nat := (entry.map CollectionState.counter).getD 0

/-- Never below what this device has already seen, whatever was forgotten. -/
def floorOf (s : SyncState) (name : SyncedCollection) : Nat :=
  max (counterOf (s.collections name)) (s.floors name)

/-- What `loadState` makes of the state file: `none` is a file that is absent or damaged. -/
def loadState (file : Option SyncState) (forAccount : Option String) : SyncState :=
  match file with
  | none => .fresh forAccount
  | some parsed =>
    if forAccount ≠ none ∧ parsed.accountId ≠ forAccount then .fresh forAccount else parsed

/-- What `saveState` writes: every entry's counter is carried into the floors. -/
def savedState (s : SyncState) : SyncState :=
  { s with floors := fun name => max (s.floors name) (counterOf (s.collections name)) }

/-- `counterFloor`, of what the state file holds. -/
def counterFloor (file : Option SyncState) (name : SyncedCollection) : Nat :=
  floorOf (loadState file none) name

/-! ## Requests -/

inductive Op where
  | epoch
  | accountId
  | forgetCount
  | loadStateFile
  | saveStateFile (s : SyncState)
  | read (name : SyncedCollection)
  | write (name : SyncedCollection) (body : Buffer)
  | applied (name : SyncedCollection)
  | whoami
  | seal (collection : String) (epoch schema counter : Nat) (plaintext : Plaintext)
  | open (collection : String) (epoch : Nat) (sealed : Sealed) (knownSchema seenCounter : Nat)
  | getObject (name : SyncedCollection) (epoch : Nat)
  | putObject (name : SyncedCollection) (epoch counter : Nat) (sealed : Sealed)
      (ifMatch : Option String)
  | keepConflict (name : SyncedCollection) (epoch counter : Nat) (sealed : Sealed)

abbrev Op.Reply : Op → Type
  | .epoch => Except Failure Nat
  | .accountId => String
  | .forgetCount => Nat
  | .loadStateFile => Option SyncState
  | .saveStateFile _ => Except Failure Unit
  | .read _ => Except Failure (Option Buffer)
  | .write _ _ => Except Failure Unit
  | .applied _ => Except Failure Unit
  | .whoami => Except Failure String
  | .seal .. => Except Failure Sealed
  | .open .. => Except Failure Opened
  | .getObject _ _ => Except Failure (Option RemoteObject)
  | .putObject .. => Except Failure String
  | .keepConflict .. => Except Failure Unit

/-- The requests whose reply the program awaits; the others are served at once. -/
def Op.awaited : Op → Bool
  | .whoami | .seal .. | .open .. | .getObject .. | .putObject .. | .keepConflict .. => true
  | _ => false

/-- A part of a pass. -/
abbrev Sync (α : Type) : Type := Proc Op Op.Reply Failure SyncState α

/-! ## Steps of their own -/

/-- `state.collections[name] = entry`. -/
def setEntry (name : SyncedCollection) (entry : CollectionState) : Sync Unit :=
  Proc.modify fun s => s.record name entry

@[simp] theorem wp_setEntry {W : Type} {S : Surroundings W Op Op.Reply} {name : SyncedCollection}
    {entry : CollectionState} {Q : Except Failure Unit → SyncState → W → Prop} {s : SyncState}
    {w : W} : Proc.wp S (setEntry name entry) Q s w ↔ Q (.ok ()) (s.record name entry) w :=
  Proc.wp_modify _

/-- A lost conditional write goes on with `remedy`; any other error is thrown again. -/
def orConflict {α : Type} (attempt : Sync α) (remedy : Sync α) : Sync α :=
  tryCatch attempt fun err => if err.code ≠ some .conflict then throw err else remedy

theorem wp_orConflict {W α : Type} {S : Surroundings W Op Op.Reply} {attempt remedy : Sync α}
    {Q : Except Failure α → SyncState → W → Prop} {s : SyncState} {w : W}
    (h : Proc.wp S attempt (fun x s' w' =>
      match x with
      | .ok a => Q (.ok a) s' w'
      | .error e => if e.code = some .conflict then Proc.wp S remedy Q s' w'
        else Q (.error e) s' w') s w) : Proc.wp S (orConflict attempt remedy) Q s w := by
  simp only [orConflict, Proc.wp_tryCatch]
  refine Proc.wp_imp h fun x s' w' hx => ?_
  cases x with
  | ok a => exact hx
  | error e =>
    by_cases hcode : e.code = some .conflict
    · simpa [hcode] using hx
    · simpa [hcode] using hx

/-! ## Talking to the sidecar and the relay -/

/-- The schema every object declares. -/
def SCHEMA : Nat := 1

section Pass
variable [Digest]

def hash (b : Buffer) : String := Digest.sha256 b

def putSealed (name : SyncedCollection) (epoch counter : Nat) (payload : Buffer)
    (ifMatch : Option String) : Sync String := do
  let object ← Proc.request (.seal name.name epoch SCHEMA counter (.payload payload)) id
  Proc.request (.putObject name epoch counter object ifMatch) id

/-- Whether an error is the sidecar refusing an object as older than one already seen. -/
def isRollback (e : Failure) : Bool :=
  e.code = some .rosterRewound ||
    ["counter is behind", "went backwards"].any fun words =>
      decide (words.toList <:+: e.message.toList)

def rolledBack (name : SyncedCollection) : Failure :=
  { code := some .rolledBack
    message := "the relay served an older copy of " ++ name.name ++ " than this device has " ++
      "already seen, so it was not used. If the relay was restored from a backup, leave the " ++
      "account on this device and pair it again; otherwise the relay is serving stale data." }

def openObject (name : SyncedCollection) (epoch : Nat) (object : Sealed) (seenCounter : Nat) :
    Sync Opened :=
  Proc.request (.open name.name epoch object SCHEMA seenCounter) fun opened =>
    match opened with
    | .ok opened => .ok opened
    | .error e => .error (if isRollback e then rolledBack name else e)

def sealConflict (name : SyncedCollection) (epoch counter : Nat) (payload : Buffer)
    (reason : Option ConflictReason) : Sync Sealed := do
  let devicePub ← Proc.request .whoami id
  let envelope := Plaintext.envelope devicePub reason payload
  Proc.request (.seal (conflictLabel name.name) epoch 1 counter envelope) id

/-- Hands the losing copy to the relay, still sealed. -/
def keepAsConflict (name : SyncedCollection) (epoch counter : Nat) (payload : Buffer)
    (reason : Option ConflictReason) : Sync Unit := do
  let object ← sealConflict name epoch counter payload reason
  Proc.request (.keepConflict name epoch counter object) id

/-- Apply an inbound payload and report what landed on disk. -/
def writeBack (name : SyncedCollection) (payload : Buffer) : Sync Buffer := do
  Proc.request (.write name payload) id
  Proc.request (.applied name) id
  let back ← Proc.request (.read name) id
  return back.getD payload

/-! ## One collection -/

inductive CollectionOutcome where
  | unchanged | pushed | pulled | adopted | merged | conflicted | skipped | failed
  deriving DecidableEq

/-- The entry that agrees with the relay about the bytes `b`. -/
def agreed (etag : String) (counter : Nat) (b : Buffer) : CollectionState :=
  ⟨etag, counter, hash b, baseOf b, none⟩

/-- The remote copy wins and the local one is kept. -/
def conflictWithRemote (name : SyncedCollection) (epoch : Nat) (here : Buffer) :
    Sync CollectionOutcome := do
  let fresh ← Proc.request (.getObject name epoch) id
  match fresh with
  | none =>
    let counter := floorOf (← Proc.get) name + 1
    let etag ← putSealed name epoch counter here none
    setEntry name (agreed etag counter here)
    return .pushed
  | some fresh =>
    let opened ← openObject name epoch fresh.body (floorOf (← Proc.get) name)
    if opened.payload = here then
      setEntry name (agreed fresh.etag (max opened.counter (floorOf (← Proc.get) name)) here)
      return .unchanged
    else
      -- Not again for the same remote copy.
      if ((← Proc.get).collections name).bind CollectionState.conflictedEtag ≠ some fresh.etag then
        keepAsConflict name epoch (opened.counter + 1) here none
        let entry := ((← Proc.get).collections name).getD ⟨"", 0, "", none, none⟩
        setEntry name { entry with conflictedEtag := some fresh.etag }
      let landed ← writeBack name opened.payload
      setEntry name (agreed fresh.etag (max opened.counter (floorOf (← Proc.get) name)) landed)
      return .conflicted

/-- Both sides changed: merge if the changes do not overlap, ask a person if they do. -/
def mergeOrConflict (name : SyncedCollection) (epoch : Nat) (body : Buffer)
    (known : CollectionState) : Sync CollectionOutcome := do
  let fresh ← Proc.request (.getObject name epoch) id
  match fresh with
  | none => conflictWithRemote name epoch body
  | some fresh =>
    match ← Proc.attempt (openObject name epoch fresh.body (floorOf (← Proc.get) name)) with
    | .error _ => conflictWithRemote name epoch body
    | .ok opened =>
      if opened.payload = body then
        setEntry name (agreed fresh.etag opened.counter body)
        return .unchanged
      else if hash opened.payload = known.localHash then
        let counter := max opened.counter (floorOf (← Proc.get) name) + 1
        let etag ← putSealed name epoch counter body (some fresh.etag)
        setEntry name (agreed etag counter body)
        return .pushed
      else
        match mergeCollections known.base body opened.payload with
        | none => conflictWithRemote name epoch body
        | some merge =>
          let counter := max opened.counter (floorOf (← Proc.get) name) + 1
          let etag ← putSealed name epoch counter merge.merged (some fresh.etag)
          let landed ← writeBack name merge.merged
          setEntry name (agreed etag counter landed)
          return .merged

/-- This machine has nothing: take what the account has. -/
def adopt (name : SyncedCollection) (epoch : Nat) (remote : RemoteObject) :
    Sync CollectionOutcome := do
  let opened ← openObject name epoch remote.body (floorOf (← Proc.get) name)
  let landed ← writeBack name opened.payload
  setEntry name (agreed remote.etag opened.counter landed)
  return .adopted

/-- The account has nothing: send what this machine has. -/
def offer (name : SyncedCollection) (epoch : Nat) (known : Option CollectionState) (here : Buffer) :
    Sync CollectionOutcome := do
  if known = none ∧ isEmptyish here then
    return .unchanged
  else
    let counter := floorOf (← Proc.get) name + 1
    orConflict (do
        let etag ← putSealed name epoch counter here none
        setEntry name (agreed etag counter here)
        return .pushed)
      (conflictWithRemote name epoch here)

/-- A device that has not agreed about this collection, with data on both sides. -/
def firstContact (name : SyncedCollection) (epoch : Nat) (body : Buffer) (there : RemoteObject) :
    Sync CollectionOutcome := do
  let opened ← openObject name epoch there.body (floorOf (← Proc.get) name)
  if isEmptyish body ∧ opened.payload ≠ body then
    let landed ← writeBack name opened.payload
    setEntry name (agreed there.etag opened.counter landed)
    return .adopted
  else if opened.payload ≠ body then
    let union := if (← Proc.get).floors name > 0 then none
      else mergeCollections (some []) body opened.payload
    match union with
    | some union =>
      let counter := opened.counter + 1
      orConflict (do
          let etag ← putSealed name epoch counter union.merged (some there.etag)
          let landed ← writeBack name union.merged
          setEntry name (agreed etag counter landed)
          return .merged)
        (conflictWithRemote name epoch body)
    | none =>
      keepAsConflict name epoch (opened.counter + 1) body none
      let landed ← writeBack name opened.payload
      setEntry name (agreed there.etag opened.counter landed)
      return .conflicted
  else
    setEntry name (agreed there.etag opened.counter body)
    return .unchanged

/-- Only this machine changed: send its copy over the one it knows. -/
def push (name : SyncedCollection) (epoch : Nat) (known : CollectionState) (body : Buffer) :
    Sync CollectionOutcome := do
  let counter := floorOf (← Proc.get) name + 1
  orConflict (do
      let etag ← putSealed name epoch counter body (some known.etag)
      setEntry name (agreed etag counter body)
      return .pushed)
    (mergeOrConflict name epoch body known)

/-- Only the account changed: take its copy, keeping this one if it empties most of a list. -/
def pull (name : SyncedCollection) (epoch : Nat) (known : CollectionState) (body : Buffer)
    (there : RemoteObject) : Sync CollectionOutcome := do
  let opened ← openObject name epoch there.body (floorOf (← Proc.get) name)
  let keep := removesMost body opened.payload && known.conflictedEtag ≠ some there.etag
  if keep then
    keepAsConflict name epoch (opened.counter + 1) body (some .bulkRemoval)
    setEntry name { known with conflictedEtag := some there.etag }
  let landed ← writeBack name opened.payload
  setEntry name { agreed there.etag opened.counter landed with
    conflictedEtag := if keep then some there.etag else none }
  return .pulled

def syncCollection (name : SyncedCollection) : Sync CollectionOutcome := do
  let epoch ← Proc.request .epoch id
  let known := (← Proc.get).collections name
  let here ← Proc.request (.read name) id
  let remote ← Proc.request (.getObject name epoch) id
  match here, remote with
  | none, none => return .unchanged
  | none, some remote => adopt name epoch remote
  | some here, none => offer name epoch known here
  | some body, some there =>
    match known with
    | none => firstContact name epoch body there
    | some known =>
      match decide (hash body ≠ known.localHash), decide (there.etag ≠ known.etag) with
      | false, false => return .unchanged
      | true, false => push name epoch known body
      | false, true => pull name epoch known body there
      | true, true => mergeOrConflict name epoch body known

/-! ## The whole pass -/

structure SyncError where
  collection : String
  message : String
  code : Option AddyErrorCode

structure SyncResult where
  outcomes : List (SyncedCollection × CollectionOutcome)
  carried : Nat
  conflicts : List SyncedCollection
  error : Option SyncError

/-- Whether an outcome moved an object. -/
def CollectionOutcome.carries (o : CollectionOutcome) : Bool :=
  o = .pushed || o = .pulled || o = .adopted || o = .merged

/-- The result after one more collection. -/
def SyncResult.add (result : SyncResult) (name : SyncedCollection) :
    Except Failure CollectionOutcome → SyncResult
  | .ok outcome =>
    { result with
      outcomes := result.outcomes ++ [(name, outcome)]
      carried := result.carried + if outcome.carries then 1 else 0
      conflicts := result.conflicts ++ if outcome = .conflicted then [name] else [] }
  | .error err =>
    { result with
      outcomes := result.outcomes ++ [(name, .failed)]
      error := result.error <|> some ⟨name.name, err.message, err.code⟩ }

/-- The loop over the collections; one that fails does not stop the others. -/
def syncEach : List SyncedCollection → SyncResult → Sync SyncResult
  | [], result => return result
  | name :: names, result => do
    let outcome ←
      if name.hasSource then Proc.attempt (syncCollection name) else pure (.ok .skipped)
    syncEach names (result.add name outcome)

def stateReset : Failure :=
  ⟨some .configInvalid, "the sync state was reset while this pass was running"⟩

/-- The end of a pass: the state is saved unless it was forgotten meanwhile. -/
def saveUnlessForgotten (forgetsAtStart : Nat) : Sync Unit := do
  let forgets ← Proc.request .forgetCount .ok
  if forgets ≠ forgetsAtStart then
    throw stateReset
  else
    Proc.request (.saveStateFile (savedState (← Proc.get))) id

def syncOnce : Sync SyncResult := do
  let forgetsAtStart ← Proc.request .forgetCount .ok
  let accountId ← Proc.request .accountId .ok
  let file ← Proc.request .loadStateFile .ok
  Proc.modify fun _ => loadState file (some accountId)
  let result ← syncEach SyncedCollection.all ⟨[], 0, [], none⟩
  match ← Proc.attempt (saveUnlessForgotten forgetsAtStart) with
  | .ok () => return result
  | .error err =>
    return { result with error := result.error <|> some ⟨"sync state", err.message, none⟩ }

end Pass

/-! ## Forgetting -/

/-- What `forgetSyncState` saves over a state file; `only` names the collections it forgets. -/
def forgetSyncState (file : Option SyncState) (only : Option (List SyncedCollection))
    (clear : Bool) : SyncState :=
  let state := loadState file none
  if clear then savedState (.fresh none)
  else
    let floors := floorOf state
    match only with
    | some only =>
      savedState { state with
        floors := floors
        collections := fun name => if name ∈ only then none else state.collections name }
    | none => savedState ⟨state.accountId, fun _ => none, floors⟩

/-- An entry after a re-key: the sealed object is another, the local bytes are the same. -/
def forgetEpochEntry (entry : CollectionState) : CollectionState :=
  { entry with etag := "", counter := 0, conflictedEtag := none }

/-- What `forgetEpochState` saves over a state file. -/
def forgetEpochState (file : Option SyncState) : SyncState :=
  let state := loadState file none
  savedState { state with
    floors := floorOf state
    collections := fun name => (state.collections name).map forgetEpochEntry }

end OpsMaxx.Addy

/-! ## A device with a relay that answers as it likes

`Shore` is what a pass touches on its own machine: the bytes of each collection, the state file, and
how often the state was forgotten. The relay is not part of it: whatever it answers is possible, and
every request may fail. The sidecar is trusted: it seals what it is given, and it opens an object
only under the label, epoch, schema and counter it was asked for.

A pass runs beside the rest of the app, which gets its turn only while the pass awaits a reply.
-/

namespace OpsMaxx.Addy

open OpsMaxx.Interact

structure Shore where
  disk : SyncedCollection → Option Buffer
  file : Option SyncState
  forgets : Nat
  account : String

namespace Shore

/-- The bytes of one collection replaced. -/
def put (w : Shore) (name : SyncedCollection) (b : Option Buffer) : Shore :=
  { w with disk := Function.update w.disk name b }

@[simp] theorem put_disk_self (w : Shore) (name : SyncedCollection) (b : Option Buffer) :
    (w.put name b).disk name = b := by simp [put]

@[simp] theorem put_disk_ne (w : Shore) {name other : SyncedCollection} (b : Option Buffer)
    (h : other ≠ name) : (w.put name b).disk other = w.disk other := by simp [put, h]

@[simp] theorem put_file (w : Shore) (name : SyncedCollection) (b : Option Buffer) :
    (w.put name b).file = w.file := rfl

@[simp] theorem put_forgets (w : Shore) (name : SyncedCollection) (b : Option Buffer) :
    (w.put name b).forgets = w.forgets := rfl

@[simp] theorem put_account (w : Shore) (name : SyncedCollection) (b : Option Buffer) :
    (w.put name b).account = w.account := rfl

end Shore

/-! ## What the rest of the app does -/

/-- Somebody saves a collection on this machine. -/
def Edits (w w' : Shore) : Prop := ∃ name b, w' = w.put name b

/-- The state is forgotten: all of it, some collections, with or without the floors, or what a
re-key invalidates. -/
inductive Forgets (w : Shore) : Shore → Prop
  | state (only : Option (List SyncedCollection)) (clear : Bool) : Forgets w
      { w with file := some (forgetSyncState w.file only clear), forgets := w.forgets + 1 }
  | epoch : Forgets w { w with file := some (forgetEpochState w.file), forgets := w.forgets + 1 }

theorem Forgets.disk_eq {w w' : Shore} (h : Forgets w w') : w'.disk = w.disk := by
  cases h <;> rfl

theorem Forgets.account_eq {w w' : Shore} (h : Forgets w w') : w'.account = w.account := by
  cases h <;> rfl

/-- What may happen while a request is pending: `may`, any number of times, if it is awaited. -/
def Meanwhile {W : Type} (may : W → W → Prop) (o : Op) (w w' : W) : Prop :=
  if o.awaited then Relation.ReflTransGen may w w' else w' = w

section Meanwhile
variable {W : Type} {may : W → W → Prop} {o : Op}

theorem Meanwhile.refl (may : W → W → Prop) (o : Op) (w : W) : Meanwhile may o w w := by
  unfold Meanwhile
  split_ifs
  · exact .refl
  · rfl

theorem Meanwhile.trans {w₁ w₂ w₃ : W} (h : Meanwhile may o w₁ w₂) (h' : Meanwhile may o w₂ w₃) :
    Meanwhile may o w₁ w₃ := by
  unfold Meanwhile at *
  split_ifs at *
  · exact h.trans h'
  · rw [h', h]

/-- What every such happening keeps is kept. -/
theorem Meanwhile.keeps {I : W → Prop} (hI : ∀ w w', may w w' → I w → I w') {w w' : W}
    (h : Meanwhile may o w w') (hw : I w) : I w' := by
  unfold Meanwhile at h
  split_ifs at h
  · induction h with
    | refl => exact hw
    | tail _ hs ih => exact hI _ _ hs ih
  · rw [h]; exact hw

end Meanwhile

/-! ## How requests are served -/

/-- When the sidecar opens an object, and what it gives. -/
structure Opens (collection : String) (epoch : Nat) (object : Sealed)
    (knownSchema seenCounter : Nat) (opened : Opened) : Prop where
  collection : object.collection = collection
  epoch : object.epoch = epoch
  schema : object.schema ≤ knownSchema
  counter : seenCounter ≤ object.counter
  opened_counter : opened.counter = object.counter
  payload : object.plaintext = .payload opened.payload

/-- The error, if it is one, is not the relay's `conflict`. -/
def NoConflict {α : Type} (r : Except Failure α) : Prop :=
  ∀ e, r = .error e → e.code ≠ some .conflict

theorem NoConflict.error_cast {α β : Type} {e : Failure} (h : NoConflict (.error e : Except _ α)) :
    NoConflict (.error e : Except _ β) := by
  rintro e' ⟨⟩
  exact h e rfl

/-- How a request may be served. Only the relay answers `conflict`. A failed write may leave anything on disk; a failed save of the
state file leaves it as it was. -/
def Serves (w : Shore) : (o : Op) → o.Reply → Shore → Prop
  | .epoch, _, w' => w' = w
  | .accountId, r, w' => r = w.account ∧ w' = w
  | .forgetCount, r, w' => r = w.forgets ∧ w' = w
  | .loadStateFile, r, w' => r = w.file ∧ w' = w
  | .saveStateFile s, .ok _, w' => w' = { w with file := some s }
  | .saveStateFile _, .error _, w' => w' = w
  | .read name, r, w' => ((∀ b, r = .ok b → b = w.disk name) ∧ NoConflict r) ∧ w' = w
  | .write name _, r, w' => NoConflict r ∧ ∃ b, w' = w.put name b
  | .applied _, r, w' => NoConflict r ∧ w' = w
  | .whoami, _, w' => w' = w
  | .seal c e s n p, r, w' => (∀ object, r = .ok object → object = ⟨c, e, s, n, p⟩) ∧ w' = w
  | .open c e object k n, r, w' => (∀ opened, r = .ok opened → Opens c e object k n opened) ∧ w' = w
  | .getObject _ _, _, w' => w' = w
  | .putObject .., _, w' => w' = w
  | .keepConflict .., _, w' => w' = w

/-! ## A relay that answers -/

/-- A relay that holds one object and keeps every conflict copy, beside a disk that takes writes or
refuses them. -/
def oneObject (name : SyncedCollection) (object : RemoteObject) (writes : Bool) (w : Shore) :
    (o : Op) → o.Reply × Shore
  | .epoch => (.ok 1, w)
  | .accountId => (w.account, w)
  | .forgetCount => (w.forgets, w)
  | .loadStateFile => (w.file, w)
  | .saveStateFile s => (.ok (), { w with file := some s })
  | .read n => (.ok (w.disk n), w)
  | .write n body =>
    if writes then (.ok (), w.put n (some body))
    else (.error ⟨some .internal, ""⟩, w.put n (w.disk n))
  | .applied _ => (.ok (), w)
  | .whoami => (.ok "", w)
  | .seal c e s n p => (.ok ⟨c, e, s, n, p⟩, w)
  | .open c e object k n =>
    match object.plaintext with
    | .payload b =>
      if object.collection = c ∧ object.epoch = e ∧ object.schema ≤ k ∧ n ≤ object.counter then
        (.ok ⟨b, object.counter⟩, w)
      else (.error ⟨some .rosterInvalid, ""⟩, w)
    | .envelope _ _ _ => (.error ⟨some .rosterInvalid, ""⟩, w)
  | .getObject n _ => (.ok (if n = name then some object else none), w)
  | .putObject .. => (.error ⟨some .quotaExceeded, ""⟩, w)
  | .keepConflict .. => (.ok (), w)

theorem serves_oneObject (name : SyncedCollection) (object : RemoteObject) (writes : Bool)
    (w : Shore) (o : Op) :
    Serves w o (oneObject name object writes w o).1 (oneObject name object writes w o).2 := by
  cases o with
  | write n body => cases writes <;> simp [oneObject, Serves, NoConflict]
  | «open» c e obj k n =>
    simp only [oneObject]
    split
    · next b hb =>
      split_ifs with h
      · obtain ⟨hc, he, hk, hn⟩ := h
        refine ⟨?_, rfl⟩
        rintro _ ⟨⟩
        exact ⟨hc, he, hk, hn, rfl, hb⟩
      · simp [Serves]
    · simp [Serves]
  | _ => simp [oneObject, Serves, NoConflict]

end OpsMaxx.Addy
