import Mathlib.Logic.Basic
import Mathlib.Algebra.GroupWithZero.Nat
import OpsMaxx.Machine.Run

/-!
# Keys from passwords

The work factors the vault and the workspace locks share, and how long a password is.
-/

set_option autoImplicit false

namespace OpsMaxx.Passwords

structure KdfParams where
  N : Nat
  r : Nat
  p : Nat
  deriving DecidableEq, Repr

def KDF : KdfParams := ⟨32768, 8, 3⟩

def LEGACY_KDF : KdfParams := ⟨32768, 8, 1⟩

def isCurrentKdf (k : KdfParams) : Bool := k.N = KDF.N && k.r = KDF.r && k.p = KDF.p

theorem isCurrentKdf_iff (k : KdfParams) : isCurrentKdf k = true ↔ k = KDF := by
  cases k
  unfold isCurrentKdf
  rw [Bool.and_eq_true, Bool.and_eq_true, decide_eq_true_iff, decide_eq_true_iff, decide_eq_true_iff,
    and_assoc]
  simp only [KDF, KdfParams.mk.injEq]

@[simp] theorem isCurrentKdf_KDF : isCurrentKdf KDF = true := by decide

/-- The length of a string in UTF-16 units. -/
def jsLength (s : String) : Nat := (s.toList.map fun c => if c.toNat < 0x10000 then 1 else 2).sum

end OpsMaxx.Passwords

/-!
## The vault

The vault's file, what the process holds of it, and the operations on both. scrypt takes no two
inputs to one key; a sealed text opens under its own key only, and what opens was sealed. A text may be JSON's null, which
is what sealing a dropped cache writes. Each operation is cut at its awaits.
-/

namespace OpsMaxx.Passwords.Vaults

open OpsMaxx.Machine

structure VaultEntry where
  id : String
  name : String
  /-- the other fields, as JSON writes them -/
  rest : String
  deriving DecidableEq, Repr

abbrev Entries : Type := List VaultEntry

/-- scrypt, and AES-256-GCM over the entries as JSON. -/
class Sealing where
  Key : Type
  Box : Type
  scrypt : String → String → KdfParams → Key
  encrypt : Key → String → Option Entries → Box
  decrypt : Key → Box → Option (Option Entries)
  scrypt_inj : ∀ {p s k p' s' k'}, scrypt p s k = scrypt p' s' k' → p = p' ∧ s = s' ∧ k = k'
  decrypt_encrypt : ∀ k iv e, decrypt k (encrypt k iv e) = some e
  decrypt_other : ∀ {k k' iv e}, k' ≠ k → decrypt k' (encrypt k iv e) = none
  decrypt_authentic : ∀ {k b e}, decrypt k b = some e → ∃ iv, b = encrypt k iv e

export Sealing (Key Box encrypt decrypt)

inductive VaultStage where
  | «open» | secured | locked
  deriving DecidableEq, Repr

def VAULT_MIN_PASSWORD : Nat := 12

section Model
variable [Sealing]

structure VaultFile where
  salt : String
  kdf : Option KdfParams
  box : Box

inductive Disk where
  | absent
  | damaged
  | present (file : VaultFile)

/-- The file on disk, and `key`, `salt`, `cache` and `stage` of the process. -/
structure Vault where
  disk : Disk
  key : Option Key
  salt : Option String
  cache : Option Entries
  stage : VaultStage

/-- One key opens a box, to one text. -/
theorem decrypt_unique {k k' : Key} {b : Box} {e e' : Option Entries} (h : decrypt k b = some e)
    (h' : decrypt k' b = some e') : k = k' ∧ e = e' := by
  obtain ⟨iv, rfl⟩ := Sealing.decrypt_authentic h
  by_cases hk : k' = k
  · subst hk
    rw [Sealing.decrypt_encrypt] at h'
    exact ⟨rfl, Option.some.inj h'⟩
  · rw [Sealing.decrypt_other hk] at h'
    cases h'

def derive (password salt : String) (params : KdfParams) : Key := Sealing.scrypt password salt params

def kdfOf (file : VaultFile) : KdfParams := file.kdf.getD LEGACY_KDF

def kdfAllowed (params : KdfParams) : Bool :=
  isCurrentKdf params ||
    (params.N = LEGACY_KDF.N && params.r = LEGACY_KDF.r && params.p = LEGACY_KDF.p)

def existsSync : Disk → Bool
  | .absent => false
  | _ => true

def readFile : Disk → Option VaultFile
  | .present file => some file
  | _ => none

theorem readFile_eq_some {disk : Disk} {file : VaultFile} :
    readFile disk = some file ↔ disk = .present file := by
  cases disk <;> simp [readFile]

/-- How what an operation awaits and asks for turns out: its derivation, its write, the random
bytes it draws, and the ids it gives to entries that were renamed. -/
structure Outcome where
  derived : Bool
  written : Bool
  salt : String
  iv : String
  uuid : Nat → String

/-- The file `writeEncrypted` puts on disk. Its work factor is the current one. -/
def sealedFile (entries : Option Entries) (k : Key) (s : String) (o : Outcome) : VaultFile :=
  ⟨s, some KDF, encrypt k o.iv entries⟩

/-- The vault shut. -/
def shut (v : Vault) : Vault := { v with key := none, salt := none, cache := none, stage := .locked }

def vaultLock (v : Vault) : Vault := shut v

def vaultSecure (v : Vault) : Vault := if v.key.isSome then { v with stage := .secured } else v

/-- The vault open under a key. -/
def opened (v : Vault) (k : Key) (s : String) : Vault :=
  { v with key := some k, salt := some s, stage := .open }

/-! ## What an operation holds while it waits -/

inductive Frame where
  | creating (password salt : String)
  | unlocking (password : String) (file : VaultFile) (wasOpen : Bool)
  | upgrading (password : String) (file : VaultFile) (k : Key)
  | merging (password : String) (file : VaultFile)
  | checking (current next : String) (file : VaultFile)
  | changing (current next : String) (file : VaultFile) (entries : Option Entries) (salt : String)

inductive Call where
  | create (password : String)
  | unlock (password : String)
  | unlockWithKey (k : Key) (s : String)
  | exportKey
  | save (entries : Entries)
  | mergeFrom (text : Option VaultFile) (password : String)
  | changePassword (current next : String)
  | lock
  | secure
  | externalChange
  | land (file : VaultFile)

/-- Why the file was written: what a save or a merge held, and what a merge brought. -/
inductive Why where
  | create
  | upgrade
  | change
  | save (held : Option Entries)
  | merge (held theirs : Entries) (uuid : Nat → String)

/-- A write: what it was for, the disk as it was, and the entries that were sealed. -/
structure Write where
  why : Why
  disk : Disk
  entries : Option Entries

/-- What a turn of an operation leaves: the vault, whether the call ended and how, the frame it waits
in, and what it wrote. -/
structure Turn where
  vault : Vault
  ended : Option Bool
  frame : Option Frame
  write : Option Write

def ends (v : Vault) (ok : Bool) : Turn := ⟨v, some ok, none, none⟩

def waits (v : Vault) (f : Frame) : Turn := ⟨v, none, some f, none⟩

/-! ## The operations -/

def vaultCreate (v : Vault) (password : String) (o : Outcome) : Turn :=
  if existsSync v.disk then ends v false
  else if jsLength password < VAULT_MIN_PASSWORD then ends v false
  else waits v (.creating password o.salt)

def vaultUnlock (v : Vault) (password : String) : Turn :=
  match readFile v.disk with
  | none => ends v false
  | some file =>
    if kdfAllowed (kdfOf file) then waits v (.unlocking password file v.key.isSome)
    else ends v false

def vaultUnlockWithKey (v : Vault) (k : Key) (s : String) : Turn :=
  match readFile v.disk with
  | none => ends v false
  | some file =>
    match decrypt k file.box with
    | some entries => ends (opened { v with cache := entries } k s) true
    | none => ends v false

def vaultExternalChange (v : Vault) : Vault :=
  match v.key with
  | none => v
  | some k =>
    match (readFile v.disk).bind fun file => decrypt k file.box with
    | some entries => { v with cache := entries }
    | none => vaultLock v

/-- `vaultSave`, with the reason its write is recorded under. -/
def vaultSave (v : Vault) (entries : Entries) (o : Outcome) (why : Why) : Turn :=
  match v.stage, v.key, v.salt with
  | .open, some k, some s =>
    if o.written then
      ⟨{ v with disk := .present (sealedFile (some entries) k s o), cache := some entries },
        some true, none, some ⟨why, v.disk, some entries⟩⟩
    else ends v false
  | _, _, _ => ends v false

def vaultMergeFrom (v : Vault) (text : Option VaultFile) (password : String) : Turn :=
  if v.stage = .open ∧ v.key.isSome = true ∧ v.salt.isSome = true ∧ v.cache.isSome = true then
    match text with
    | none => ends v false
    | some file =>
      if kdfAllowed (kdfOf file) then waits v (.merging password file) else ends v false
  else ends v false

def vaultChangePassword (v : Vault) (current next : String) : Turn :=
  if jsLength next < VAULT_MIN_PASSWORD then ends v false
  else match readFile v.disk with
    | none => ends v false
    | some file => waits v (.checking current next file)

def call (v : Vault) (c : Call) (o : Outcome) : Turn :=
  match c with
  | .create password => vaultCreate v password o
  | .unlock password => vaultUnlock v password
  | .unlockWithKey k s => vaultUnlockWithKey v k s
  | .exportKey => ends v (v.key.isSome && v.salt.isSome)
  | .save entries => vaultSave v entries o (.save v.cache)
  | .mergeFrom text password => vaultMergeFrom v text password
  | .changePassword current next => vaultChangePassword v current next
  | .lock => ends (vaultLock v) true
  | .secure => ends (vaultSecure v) true
  | .externalChange => ends (vaultExternalChange v) true
  | .land file => ends (vaultExternalChange { v with disk := .present file }) true

/-! ## Resuming -/

/-- The entries of the other copy, folded in one by one. -/
def mergeEntries (mine : Entries) (uuid : Nat → String) : Nat → Entries → Entries
  | _, [] => []
  | n, e :: theirs =>
    match mine.reverse.find? (·.id = e.id) with
    | none => e :: mergeEntries mine uuid (n + 1) theirs
    | some here =>
      if here = e then mergeEntries mine uuid n theirs
      else { e with id := uuid n, name := e.name ++ " (other copy)" } ::
        mergeEntries mine uuid (n + 1) theirs

/-- The attempt failed: a vault that was open stays as it is. -/
def unlockFails (v : Vault) (wasOpen : Bool) : Turn := ends (if wasOpen then v else shut v) false

/-- The entries of a file under a key, where its derivation did not fail. -/
def decrypted (o : Outcome) (k : Key) (file : VaultFile) : Option (Option Entries) :=
  if o.derived then decrypt k file.box else none

theorem decrypted_eq_some {o : Outcome} {k : Key} {file : VaultFile} {e : Option Entries} :
    decrypted o k file = some e ↔ o.derived = true ∧ decrypt k file.box = some e := by
  unfold decrypted
  split <;> simp_all

/-- `vaultCreate`, its key derived. -/
def vaultCreate.derived (v : Vault) (o : Outcome) (password s : String) : Turn :=
  if o.derived = true ∧ o.written = true then
    let k := derive password s KDF
    ⟨opened { v with disk := .present (sealedFile (some []) k s o), cache := some [] } k s,
      some true, none, some ⟨.create, v.disk, some []⟩⟩
  else ends v false

/-- `vaultUnlock`, the file's key derived. -/
def vaultUnlock.derived (v : Vault) (o : Outcome) (password : String) (file : VaultFile)
    (wasOpen : Bool) : Turn :=
  let k := derive password file.salt (kdfOf file)
  match decrypted o k file with
  | none => unlockFails v wasOpen
  | some entries =>
    let v := { v with cache := entries }
    if isCurrentKdf (kdfOf file) then ends (opened v k file.salt) true
    else waits v (.upgrading password file k)

/-- `vaultUnlock`, the key of the current work factor derived. A failure keeps the key it had. -/
def vaultUnlock.upgraded (v : Vault) (o : Outcome) (password : String) (file : VaultFile) (k : Key) :
    Turn :=
  if o.derived = true ∧ o.written = true then
    let upgraded := derive password file.salt KDF
    ⟨opened { v with disk := .present (sealedFile v.cache upgraded file.salt o) } upgraded file.salt,
      some true, none, some ⟨.upgrade, v.disk, v.cache⟩⟩
  else ends (opened v k file.salt) true

/-- `vaultMergeFrom`, the other copy's key derived. -/
def vaultMergeFrom.derived (v : Vault) (o : Outcome) (password : String) (file : VaultFile) : Turn :=
  match decrypted o (derive password file.salt (kdfOf file)) file, v.cache with
  | some (some theirs), some mine =>
    match mergeEntries mine o.uuid 0 theirs with
    | [] => ends v true
    | added => vaultSave v (mine ++ added) o (.merge mine theirs o.uuid)
  | _, _ => ends v false

/-- `vaultChangePassword`, the current key derived, at the current work factor. -/
def vaultChangePassword.checked (v : Vault) (o : Outcome) (current next : String)
    (file : VaultFile) : Turn :=
  match decrypted o (derive current file.salt KDF) file with
  | some entries => waits v (.changing current next file entries o.salt)
  | none => ends v false

/-- `vaultChangePassword`, the next key derived. -/
def vaultChangePassword.derived (v : Vault) (o : Outcome) (next : String)
    (entries : Option Entries) (s : String) : Turn :=
  if o.derived = true ∧ o.written = true then
    let k := derive next s KDF
    ⟨opened { v with disk := .present (sealedFile entries k s o), cache := entries } k s,
      some true, none, some ⟨.change, v.disk, entries⟩⟩
  else ends v false

def resume (v : Vault) (o : Outcome) : Frame → Turn
  | .creating password s => vaultCreate.derived v o password s
  | .unlocking password file wasOpen => vaultUnlock.derived v o password file wasOpen
  | .upgrading password file k => vaultUnlock.upgraded v o password file k
  | .merging password file => vaultMergeFrom.derived v o password file
  | .checking current next file => vaultChangePassword.checked v o current next file
  | .changing _ next _ entries s => vaultChangePassword.derived v o next entries s

/-! ## The process -/

/-- An operation that waits: its call, the number of locks there had been when it was made, and what
it holds. -/
structure Pending where
  call : Call
  locks : Nat
  frame : Frame

/-- A call that ended, with the number of locks there had been when it was made. -/
structure Ended where
  call : Call
  locks : Nat
  ok : Bool

/-- The vault, the operations that wait, the calls that ended, every write of the file, how often the
vault was locked, and the keys that were exported. -/
structure State where
  vault : Vault
  waiting : List Pending
  ended : List Ended
  writes : List Write
  locks : Nat
  exported : List (Key × String)

def State.start (disk : Disk) : State := ⟨⟨disk, none, none, none, .locked⟩, [], [], [], 0, []⟩

inductive Move where
  | call (c : Call) (o : Outcome)
  | resume (i : Nat) (o : Outcome)

def Call.isLock : Call → Bool
  | .lock => true
  | _ => false

def Vault.exports (v : Vault) : Call → List (Key × String)
  | .exportKey => (v.key.bind fun k => v.salt.map fun s => (k, s)).toList
  | _ => []

/-- The process after a turn of a call. -/
def State.after (s : State) (c : Call) (locks : Nat) (waiting : List Pending) (t : Turn) : State where
  vault := t.vault
  waiting := waiting ++ (t.frame.map fun f => ⟨c, locks, f⟩).toList
  ended := s.ended ++ (t.ended.map fun ok => ⟨c, locks, ok⟩).toList
  writes := s.writes ++ t.write.toList
  locks := s.locks + if c.isLock then 1 else 0
  exported := s.exported ++ s.vault.exports c

def step (s : State) : Move → Option State
  | .call c o => some (s.after c s.locks s.waiting (call s.vault c o))
  | .resume i o =>
    (s.waiting[i]?).map fun p => s.after p.call p.locks (s.waiting.eraseIdx i) (resume s.vault o p.frame)

end Model

end OpsMaxx.Passwords.Vaults
