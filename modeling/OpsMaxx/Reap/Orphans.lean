import OpsMaxx.Strings.Numeric

/-!
# Cleaning up after a previous run

`reapOrphans` with everything around it that goes on meanwhile: who holds a pid, which runs are live
and what the probes and the run directory have, at every time. What the sweep does is a list of
events, each with the time at which it takes place.
-/

set_option autoImplicit false

namespace OpsMaxx.Reap

open Strings

/-! ## Records and processes -/

/-- A pid record whose fields are texts. A number that is no integer is a pid that nobody holds. -/
structure SupervisorPidRecord where
  pid : Int
  startedAtIso : Text
  exePath : Text
  runId : Text

structure ProcessIdentity where
  exePath : Text
  startedAtMs : ℚ
  deriving DecidableEq

inductive Platform
  | linux
  | darwin
  | win32
  | other
  deriving DecidableEq

inductive Tool
  | readlink
  | stat
  | ps
  | powershell
  deriving DecidableEq

structure Entry where
  name : Text
  isDirectory : Bool

/-- What the sweep finds. -/
structure World where
  /-- The process a signal to the pid reaches. -/
  holder : Nat → Int → Option ProcessIdentity
  /-- Whether a signal to a pid that is no process's, a group or all, is taken. -/
  group : Nat → Int → Bool
  runs : Nat → List Text
  listing : Nat → Option (List Entry)
  record : Nat → Text → Option SupervisorPidRecord
  output : Nat → Tool → Int → Option Text
  /-- How long each wait takes. -/
  wait : Nat → Nat
  dateParse : Text → Option ℚ
  toLower : Text → Text
  platform : Platform
  reapTermGraceMs : Nat

inductive Signal
  | term
  | kill
  /-- `taskkill /T /F`. -/
  | taskkill
  deriving DecidableEq

inductive Event
  | signal (pid : Int) (s : Signal)
  | unlink (name : Text)
  | remove (dir : Text)
  deriving DecidableEq

structure Sweep where
  time : Nat
  waits : Nat
  events : List (Nat × Event)
  keep : List Text

namespace Sweep

def emit (s : Sweep) (e : Event) : Sweep := { s with events := s.events ++ [(s.time, e)] }

def keeps (s : Sweep) (runId : Text) : Sweep := { s with keep := s.keep ++ [runId] }

end Sweep

variable (w : World)

/-- What is awaited takes some time. -/
def pause (atLeast : Nat) (s : Sweep) : Sweep :=
  { s with time := s.time + atLeast + w.wait s.waits, waits := s.waits + 1 }

def deletes (e : Event) (s : Sweep) : Sweep := pause w 0 (s.emit e)

/-! ## Run directories -/

def isSegmentChar (c : Char) : Bool := c.isAlphanum || c = '.' || c = '_' || c = '-'

/-- None is thrown. -/
def runIdSegment (runId : Text) : Option Text :=
  let s := runId.map fun c => if isSegmentChar c then c else '_'
  if s = [] ∨ s = ['.'] ∨ s = ['.', '.'] then none else some s

def pidSuffix : Text := ['.', 'p', 'i', 'd']

/-- The outcome of what may throw: where it stands, and whether it goes on. -/
structure Outcome where
  sweep : Sweep
  thrown : Bool

def disposeRunDir (runId : Text) (s : Sweep) : Outcome :=
  match runIdSegment runId with
  | none => ⟨s, true⟩
  | some dir => ⟨deletes w (.remove dir) s, false⟩

def removeAll (dirs : List Text) (s : Sweep) : Sweep := dirs.foldl (fun s d => deletes w (.remove d) s) s

def sweepRunDirs (liveIds : List Text) (s : Sweep) : Outcome :=
  match liveIds.mapM runIdSegment with
  | none => ⟨s, true⟩
  | some keep =>
    let s := pause w 0 s
    match w.listing s.time with
    | none => ⟨pause w 0 s, false⟩
    | some entries =>
      ⟨removeAll w ((entries.filter fun e => e.isDirectory && e.name ∉ keep).map Entry.name)
        (pause w 0 s), false⟩

/-! ## Who a pid is -/

def isAlive (time : Nat) (pid : Int) : Bool :=
  if 0 < pid then (w.holder time pid).isSome else w.group time pid

/-- What a tool prints, and the time it looked. -/
def runProbe (tool : Tool) (pid : Int) (s : Sweep) : Option Text × Sweep :=
  let s := pause w 0 s
  (if 0 < pid then w.output s.time tool pid else none, pause w 0 s)

def nonEmptyLines (out : Text) : List Text := ((out.splitOn '\n').map trim).filter (· ≠ [])

def parseDarwinPs (out : Text) : Option ProcessIdentity :=
  match nonEmptyLines out with
  | [] => none
  | line :: _ =>
    let parts := words line
    if parts.length < 6 then none
    else
      (w.dateParse (unwords (parts.drop (parts.length - 5)))).map fun startedAtMs =>
        ⟨unwords (parts.take (parts.length - 5)), startedAtMs⟩

def parseWindowsProcess (out : Text) : Option ProcessIdentity :=
  match nonEmptyLines out with
  | path :: date :: _ => (w.dateParse date).map fun startedAtMs => ⟨path, startedAtMs⟩
  | _ => none

def linuxIdentity (exe seconds : Text) : Option ProcessIdentity :=
  match number (trim seconds) with
  | none => none
  | some n => if trim exe = [] then none else some ⟨trim exe, n * 1000⟩

def probeIdentity (pid : Int) (s : Sweep) : Option ProcessIdentity × Sweep :=
  match w.platform with
  | .linux =>
    match runProbe w .readlink pid s with
    | (none, s) => (none, s)
    | (some exe, s) =>
      match runProbe w .stat pid s with
      | (none, s) => (none, s)
      | (some seconds, s) => (linuxIdentity exe seconds, s)
  | .darwin =>
    let (out, s) := runProbe w .ps pid s
    (out.bind (parseDarwinPs w), s)
  | .win32 =>
    let (out, s) := runProbe w .powershell pid s
    (out.bind (parseWindowsProcess w), s)
  | .other => (none, s)

def START_TIME_TOLERANCE_MS : ℚ := 2000

def norm (p : Text) : Text :=
  if w.platform = .win32 then w.toLower (p.map fun c => if c = '/' then '\\' else c) else p

def identityMatches (record : SupervisorPidRecord) (identity : ProcessIdentity) : Bool :=
  if norm w record.exePath ≠ norm w identity.exePath then false
  else
    match w.dateParse record.startedAtIso with
    | none => false
    | some recorded => recorded - START_TIME_TOLERANCE_MS ≤ identity.startedAtMs

/-! ## The sweep -/

/-- Looks again and again until the deadline. -/
def poll (pid : Int) (deadline : Nat) : Nat → Sweep → Sweep
  | 0, s => s
  | fuel + 1, s =>
    if deadline ≤ s.time then if isAlive w s.time pid then s.emit (.signal pid .kill) else s
    else if !isAlive w s.time pid then s
    else poll pid deadline fuel (pause w 100 s)

/-- A signal to a pid that nobody holds throws, and there is nothing to wait for. What taskkill does
it does when it has been started, and nobody waits for it. -/
def killOrphan (pid : Int) (s : Sweep) : Sweep :=
  if w.platform = .win32 then
    { s with events := s.events ++ [((pause w 0 s).time, .signal pid .taskkill)] }
  else if !isAlive w s.time pid then s
  else
    poll w pid (s.time + w.reapTermGraceMs) (w.reapTermGraceMs + 1) (s.emit (.signal pid .term))

def discard (name : Text) (record : SupervisorPidRecord) (s : Sweep) : Outcome :=
  disposeRunDir w record.runId (deletes w (.unlink name) s)

def reapRecord (live : List Text) (name : Text) (record : SupervisorPidRecord) (s : Sweep) :
    Outcome :=
  if record.runId ∈ live then ⟨s.keeps record.runId, false⟩
  else if !isAlive w s.time record.pid then discard w name record s
  else
    match probeIdentity w record.pid s with
    | (none, s) => ⟨s.keeps record.runId, false⟩
    | (some identity, s) =>
      if !identityMatches w record identity then discard w name record s
      else discard w name record (killOrphan w record.pid s)

def reapFile (live : List Text) (name : Text) (s : Sweep) : Outcome :=
  let s := pause w 0 s
  match w.record s.time name with
  | none => ⟨deletes w (.unlink name) (pause w 0 s), false⟩
  | some record => reapRecord w live name record (pause w 0 s)

def reapFiles (live : List Text) : List Text → Sweep → Outcome
  | [], s => ⟨s, false⟩
  | name :: names, s =>
    let outcome := reapFile w live name s
    if outcome.thrown then outcome else reapFiles live names outcome.sweep

def reapOrphans : Outcome :=
  let s := pause w 0 ⟨0, 0, [], []⟩
  match w.listing s.time with
  | none => ⟨s, false⟩
  | some entries =>
    let s := pause w 0 s
    let live := w.runs s.time
    let names := (entries.map Entry.name).filter fun name => pidSuffix.isSuffixOf name
    let outcome := reapFiles w live names { s with keep := live }
    if outcome.thrown then outcome else sweepRunDirs w outcome.sweep.keep outcome.sweep

end OpsMaxx.Reap
