import OpsMaxx.Backup.Plan
import OpsMaxx.Machine.Run
import OpsMaxx.Store.JsMap

/-!
# Backup runs

A run builds a bundle, writes it under a name with the time, reads it back, tries it, and only then lets
retention delete. Each of the four operations of a destination may fail, and what throws may have taken
effect.
-/

set_option autoImplicit false

namespace OpsMaxx.Backup
open OpsMaxx.Store OpsMaxx.Strings

abbrev Bytes : Type := List UInt8

structure Stored where
  bytes : Bytes
  /-- By the destination's own clock. -/
  modified : ℤ
  deriving DecidableEq

abbrev Content : Type := JsMap Text Stored

/-! ## What may fail -/

inductive Put where
  | done (modified : ℤ)
  | threw (took : Option ℤ)

inductive Get where
  | done
  | garbled (bytes : Bytes)
  | threw

inductive Removal where
  | done
  | threw (took : Bool)

structure Weather where
  opens : Bool
  put : Put
  get : Get
  lists : Bool
  /-- The first, second, … removal of the run. -/
  removals : ℕ → Removal

/-! ## A run -/

structure BackupDestination where
  keep : Option ℚ
  restoreTest : Bool

/-- What a machine brings to a run. -/
structure RunOptions where
  dest : BackupDestination
  password : Text
  /-- The clock as the name is made. -/
  now : Date
  /-- None where it cannot be built. -/
  bundle : Option Bytes
  restoreTest : Option Bool
  sha256 : Bytes → Text
  /-- `verifyBundle`: whether the bytes decrypt and have the shape of a backup. -/
  verifyBundle : Bytes → Text → Bool
  weather : Weather

inductive BackupStage where
  | bundle
  | write
  | verify
  | restoreTest
  | retention
  deriving DecidableEq

structure BackupRunReport where
  ok : Bool
  failedStage : Option BackupStage
  name : Option Text
  bytes : Option ℕ
  digest : Option Text
  readBackDigest : Option Text
  verified : Bool
  restoreTested : Bool
  removed : List Text
  retentionRefused : Option Refusal
  deriving DecidableEq

def MIN_PASSPHRASE : ℕ := 12

/-- The `length` of a string, in units of UTF-16. -/
def units (s : Text) : ℕ := (s.map fun c => if c.toNat < 0x10000 then 1 else 2).sum

def base : BackupRunReport := ⟨false, none, none, none, none, none, false, false, [], none⟩

def fail (report : BackupRunReport) (stage : BackupStage) : BackupRunReport :=
  { report with ok := false, failedStage := some stage }

def put (c : Content) (name : Text) (bytes : Bytes) : Put → Content
  | .done modified => c.set name ⟨bytes, modified⟩
  | .threw none => c
  | .threw (some modified) => c.set name ⟨bytes, modified⟩

def get (c : Content) (name : Text) : Get → Option Bytes
  | .done => (c.get name).map Stored.bytes
  | .garbled bytes => some bytes
  | .threw => none

def remove (c : Content) (name : Text) : Removal → Content
  | .done => c.delete name
  | .threw true => c.delete name
  | .threw false => c

def discard (c : Content) (name : Text) (w : Weather) : Content := remove c name (w.removals 0)

def list (c : Content) : List BackupGeneration :=
  c.entries.map fun e => ⟨e.1, e.2.bytes.length, e.2.modified⟩

/-- Removes one after another until one throws: what is left, the names reported, and whether it went
through. -/
def removeAll (removals : ℕ → Removal) : Content → List Text → Content × List Text × Bool
  | c, [] => (c, [], true)
  | c, name :: rest =>
    match removals 0 with
    | .done =>
      let (c', removed, through) := removeAll (fun i => removals (i + 1)) (c.delete name) rest
      (c', name :: removed, through)
    | .threw took => (remove c name (.threw took), [], false)

/-- What a run did: what it left, what it reported and the plan retention acted on, if it came to that. -/
structure Outcome where
  before : Content
  after : Content
  report : BackupRunReport
  plan : Option RetentionPlan

def carryOut (o : RunOptions) (before c : Content) (report : BackupRunReport) (plan : RetentionPlan) :
    Outcome :=
  match removeAll o.weather.removals c (plan.remove.map BackupGeneration.name) with
  | (after, removed, true) =>
    ⟨before, after, { report with ok := true, removed, retentionRefused := plan.refused }, some plan⟩
  | (after, removed, false) => ⟨before, after, fail { report with removed } .retention, some plan⟩

def retention (o : RunOptions) (before c : Content) (report : BackupRunReport) : Outcome :=
  if o.weather.lists then
    carryOut o before c report (planRetention (withNameTimes (list c)) o.dest.keep)
  else ⟨before, c, fail report .retention, none⟩

/-- From the read back on. -/
def checkWritten (o : RunOptions) (before c : Content) (name digest : Text) (report : BackupRunReport) :
    Outcome :=
  match get c name o.weather.get with
  | none => ⟨before, discard c name o.weather, fail report .verify, none⟩
  | some readBack =>
    let report := { report with readBackDigest := some (o.sha256 readBack) }
    if o.sha256 readBack ≠ digest then
      ⟨before, discard c name o.weather, fail report .verify, none⟩
    else
      let report := { report with verified := true }
      if o.restoreTest.getD o.dest.restoreTest then
        if o.verifyBundle readBack o.password then
          retention o before c { report with restoreTested := true }
        else ⟨before, discard c name o.weather, fail report .restoreTest, none⟩
      else retention o before c report

def runBackupToDestination (o : RunOptions) (c : Content) : Outcome :=
  if units o.password < MIN_PASSPHRASE then ⟨c, c, fail base .bundle, none⟩
  else
    match o.bundle with
    | none => ⟨c, c, fail base .bundle, none⟩
    | some bytes =>
      let name := backupObjectName o.now
      let report := { base with
        name := some name, bytes := some bytes.length, digest := some (o.sha256 bytes) }
      if o.weather.opens then
        match o.weather.put with
        | .threw took =>
          ⟨c, discard (put c name bytes (.threw took)) name o.weather, fail report .write, none⟩
        | .done modified =>
          checkWritten o c (put c name bytes (.done modified)) name (o.sha256 bytes) report
      else ⟨c, c, fail report .write, none⟩

end OpsMaxx.Backup
