import Mathlib.Logic.Function.Basic
import OpsMaxx.Machine.Run
import OpsMaxx.Passwords.Vault

/-!
# Workspace locks

A lock is a salt and what scrypt made of the password and that salt, both as their base64 text. Each
operation is cut at its awaits: a frame is what an operation holds while it waits, and resuming it
runs it to its next await or to its end.
-/

set_option autoImplicit false

namespace OpsMaxx.Passwords.Wslock
open OpsMaxx.Machine

/-- scrypt from a password and a salt at a work factor. -/
class Scrypt where
  scrypt : String → String → KdfParams → String

def WS_MIN_PASSWORD : Nat := 6

structure Lock where
  salt : String
  hash : String
  kdf : Option KdfParams
  deriving DecidableEq, Repr

def kdfOf (lock : Lock) : KdfParams := lock.kdf.getD LEGACY_KDF

/-- The locks by workspace, as `read` gives them: none where the file is missing or damaged. -/
abbrev LockMap : Type := String → Option Lock

def LockMap.empty : LockMap := fun _ => none

section Model
variable [Scrypt]

/-- The verifier of a password at a work factor. -/
def derive (password salt : String) (params : KdfParams) : String :=
  Scrypt.scrypt password salt params

def passes (password : String) (lock : Lock) : Bool :=
  derive password lock.salt (kdfOf lock) = lock.hash

/-- A lock at the current work factor. -/
def newLock (password salt : String) : Lock := ⟨salt, derive password salt KDF, some KDF⟩

/-! ## Calls -/

/-- The salt of a `set` is what `randomBytes` gave it. -/
inductive Call where
  | verify (id password : String)
  | set (id password : String) (current : Option String) (salt : String)
  | remove (id current : String)
  | delete (id : String)
  deriving DecidableEq, Repr

/-- Who awaits a verification: the renderer, or a set or a remove with the map it has read. -/
inductive Waiter where
  | caller
  | set (password : String) (current : Option String) (salt : String) (map : LockMap)
  | remove (map : LockMap)

/-- What an operation holds while it waits: for the derivation that verifies, for the one that
upgrades, for the verification it asked for, and for the derivation of the new verifier. -/
inductive Frame where
  | verifying (id password : String) (lock : Lock) (waiter : Waiter)
  | upgrading (id password : String) (lock : Lock) (waiter : Waiter)
  | verified (id password : String) (ok : Bool) (waiter : Waiter)
  | setting (id password : String) (current : Option String) (salt : String) (map : LockMap)

/-- How the derivation that was awaited ended, and how the write behind it would. -/
structure Outcome where
  derived : Bool
  written : Bool
  deriving DecidableEq, Repr

/-- What a turn of an operation leaves: the file, the calls that ended in it, and the frame it now
waits in. -/
structure Turn where
  file : LockMap
  ended : List (Call × Bool)
  frame : Option Frame

/-- A verification ends, and whoever asked for it goes on later. -/
def verifyEnds (file : LockMap) (id password : String) (ok : Bool) (waiter : Waiter) : Turn where
  file := file
  ended := [(.verify id password, ok)]
  frame := match waiter with
    | .caller => none
    | w => some (.verified id password ok w)

def wsLockVerify (file : LockMap) (id password : String) (waiter : Waiter) : Turn :=
  match file id with
  | none => verifyEnds file id password true waiter
  | some lock => ⟨file, [], some (.verifying id password lock waiter)⟩

def wsLockSet (file : LockMap) (id password : String) (current : Option String) (salt : String) :
    Turn :=
  if jsLength password < WS_MIN_PASSWORD then ⟨file, [(.set id password current salt, false)], none⟩
  else match file id with
    | some _ => wsLockVerify file id (current.getD "") (.set password current salt file)
    | none => ⟨file, [], some (.setting id password current salt file)⟩

def wsLockRemove (file : LockMap) (id current : String) : Turn :=
  match file id with
  | none => ⟨file, [(.remove id current, true)], none⟩
  | some _ => wsLockVerify file id current (.remove file)

/-- The write of `wsLockDelete` may throw as any other. -/
def wsLockDelete (file : LockMap) (id : String) (written : Bool) : Turn :=
  match file id with
  | none => ⟨file, [(.delete id, true)], none⟩
  | some _ =>
    if written then ⟨Function.update file id none, [(.delete id, true)], none⟩
    else ⟨file, [(.delete id, false)], none⟩

def call (file : LockMap) (c : Call) (o : Outcome) : Turn :=
  match c with
  | .verify id password => wsLockVerify file id password .caller
  | .set id password current salt => wsLockSet file id password current salt
  | .remove id current => wsLockRemove file id current
  | .delete id => wsLockDelete file id o.written

/-! ## Resuming -/

/-- The upgrade of a lock whose password was right: the file is read again, and only the verifier
that was checked is replaced. -/
def upgrade (file : LockMap) (id password : String) (lock : Lock) (o : Outcome) : LockMap :=
  if o.derived then
    match file id with
    | some still =>
      if still.hash = lock.hash ∧ still.salt = lock.salt ∧ o.written = true then
        Function.update file id (some (newLock password lock.salt))
      else file
    | none => file
  else file

def resume (file : LockMap) (o : Outcome) : Frame → Turn
  | .verifying id password lock waiter =>
    if o.derived = true ∧ passes password lock = true then
      if isCurrentKdf (kdfOf lock) then verifyEnds file id password true waiter
      else ⟨file, [], some (.upgrading id password lock waiter)⟩
    else verifyEnds file id password false waiter
  | .upgrading id password lock waiter =>
    verifyEnds (upgrade file id password lock o) id password true waiter
  | .verified id _ ok (.set password current salt map) =>
    if ok then ⟨file, [], some (.setting id password current salt map)⟩
    else ⟨file, [(.set id password current salt, false)], none⟩
  | .verified id current ok (.remove map) =>
    if ok = true ∧ o.written = true then
      ⟨Function.update map id none, [(.remove id current, true)], none⟩
    else ⟨file, [(.remove id current, false)], none⟩
  | .verified _ _ _ .caller => ⟨file, [], none⟩
  | .setting id password current salt map =>
    if o.derived = true ∧ o.written = true then
      ⟨Function.update map id (some (newLock password salt)),
        [(.set id password current salt, true)], none⟩
    else ⟨file, [(.set id password current salt, false)], none⟩

/-! ## The process -/

/-- A call that ended, with the moves at which it was made and at which it ended. -/
structure Ended where
  call : Call
  ok : Bool
  start : Nat
  stop : Nat
  deriving DecidableEq, Repr

/-- The file, the operations that wait with the moves at which they were called, and the calls that
ended. -/
structure State where
  file : LockMap
  waiting : List (Nat × Frame)
  ended : List Ended
  clock : Nat

def State.start (file : LockMap) : State := ⟨file, [], [], 0⟩

inductive Move where
  | call (c : Call) (o : Outcome)
  | resume (i : Nat) (o : Outcome)
  deriving DecidableEq, Repr

/-- What becomes of the process when an operation called at `start` took a turn. -/
def State.after (s : State) (start : Nat) (waiting : List (Nat × Frame)) (t : Turn) : State where
  file := t.file
  waiting := waiting ++ (t.frame.map fun f => (start, f)).toList
  ended := s.ended ++ t.ended.map fun e => ⟨e.1, e.2, start, s.clock⟩
  clock := s.clock + 1

def step (s : State) : Move → Option State
  | .call c o => some (s.after s.clock s.waiting (call s.file c o))
  | .resume i o =>
    match s.waiting[i]? with
    | some (start, f) => some (s.after start (s.waiting.eraseIdx i) (resume s.file o f))
    | none => none

/-- The calls that did what they were asked to. -/
def State.successful (s : State) : List Ended := s.ended.filter (·.ok)

/-! ## An operation alone -/

/-- The rest of an operation that nothing comes between. -/
@[grind =] def settle : Turn → List Outcome → Turn
  | t, [] => t
  | t, o :: os =>
    match t.frame with
    | none => t
    | some f =>
      let t' := resume t.file o f
      settle { t' with ended := t.ended ++ t'.ended } os

/-- A call alone on a file succeeds and leaves `file'`. -/
def Alone (c : Call) (file file' : LockMap) : Prop :=
  ∃ o os, let t := settle (call file c o) os
    t.frame = none ∧ t.file = file' ∧ (c, true) ∈ t.ended

/-- The file is what the successful calls made of it in some order, each alone; and a call that ended
before another was made comes before it. -/
def InSomeOrder (file : LockMap) (s : State) : Prop :=
  ∃ order : List (Ended × LockMap), (order.map Prod.fst).Perm s.successful ∧
    Series (fun e => Alone e.call) file order s.file ∧
    (order.map Prod.fst).Pairwise fun e e' => e.start ≤ e'.stop

end Model

end OpsMaxx.Passwords.Wslock
