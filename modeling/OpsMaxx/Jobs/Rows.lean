import Mathlib.Data.List.Perm.Basic
import Mathlib.Tactic.SplitIfs
import Mathlib.Data.List.Infix
import Mathlib.Algebra.GroupWithZero.Nat

/-!
# The rows of a job

One row for the job and one for each server it is aimed at, with the patches the runner writes to
them.
-/

set_option autoImplicit false

namespace OpsMaxx.Jobs

/-! ## What a row can say -/

inductive JobHostState
  | pending
  | waiting
  | running
  | ok
  | failed
  | skipped
  | detached
  | orphaned
  | rebooting
  | foreign
  deriving DecidableEq, Repr

def JOB_HOST_LIVE_STATES : List JobHostState :=
  [.pending, .waiting, .running, .detached, .rebooting, .foreign]

def isJobHostLive (s : JobHostState) : Bool := s ∈ JOB_HOST_LIVE_STATES

inductive JobHostOutcome
  | ok
  | nonzero
  | missingCommand
  | permissionDenied
  | timeout
  | unreachable
  | cancelled
  | abandoned
  | orphaned
  | unhealthy
  deriving DecidableEq, Repr

inductive JobState
  | queued
  | running
  | done
  | cancelled
  | abandoned
  | halted
  deriving DecidableEq, Repr

/-- What `unfinishedJobs` selects on. -/
def JobState.unfinished (s : JobState) : Bool := s = .queued ∨ s = .running

inductive JobLauncher
  | setsid
  | nohup
  deriving DecidableEq, Repr

/-- The marker directory of a detached step, and how far its output has been read. -/
structure JobDetachedHandle where
  dir : String
  step : Nat
  instanceId : String
  launcher : JobLauncher
  base64 : Bool
  launchedAt : Nat
  readOffset : Nat
  command : String
  bootIdBefore : Option String
  deriving DecidableEq, Repr

structure JobHostRow where
  serverId : String
  serverName : String
  ord : Nat
  state : JobHostState
  outcome : Option JobHostOutcome
  exitCode : Option Int
  error : Option String
  startedAt : Option Nat
  endedAt : Option Nat
  outOffset : Nat
  outElided : Nat
  detached : Option JobDetachedHandle
  deriving DecidableEq, Repr

/-- A marker nobody can follow any more, or no marker at all, is not picked up. -/
def reclaimable (t : JobHostRow) : Bool := t.detached.isSome && isJobHostLive t.state

/-! ## Patches -/

/-- A field left out stays as it is. `some none` clears a column. -/
structure JobTargetPatch where
  state : Option JobHostState := none
  outcome : Option (Option JobHostOutcome) := none
  exitCode : Option (Option Int) := none
  error : Option (Option String) := none
  startedAt : Option (Option Nat) := none
  endedAt : Option (Option Nat) := none
  outOffset : Option Nat := none
  outElided : Option Nat := none
  detached : Option (Option JobDetachedHandle) := none

def JobHostRow.patch (row : JobHostRow) (p : JobTargetPatch) : JobHostRow :=
  { row with
    state := p.state.getD row.state
    outcome := p.outcome.getD row.outcome
    exitCode := p.exitCode.getD row.exitCode
    error := p.error.getD row.error
    startedAt := p.startedAt.getD row.startedAt
    endedAt := p.endedAt.getD row.endedAt
    outOffset := p.outOffset.getD row.outOffset
    outElided := p.outElided.getD row.outElided
    detached := p.detached.getD row.detached }

@[simp] theorem patch_serverId (row : JobHostRow) (p : JobTargetPatch) :
    (row.patch p).serverId = row.serverId := rfl
@[simp] theorem patch_state (row : JobHostRow) (p : JobTargetPatch) :
    (row.patch p).state = p.state.getD row.state := rfl
@[simp] theorem patch_outcome (row : JobHostRow) (p : JobTargetPatch) :
    (row.patch p).outcome = p.outcome.getD row.outcome := rfl
@[simp] theorem patch_detached (row : JobHostRow) (p : JobTargetPatch) :
    (row.patch p).detached = p.detached.getD row.detached := rfl

structure JobRow where
  confirmedAt : Option Nat
  state : JobState
  startedAt : Option Nat
  endedAt : Option Nat
  cancelledAt : Option Nat
  targets : List JobHostRow
  deriving DecidableEq, Repr

def updateTarget (rows : List JobHostRow) (serverId : String) (p : JobTargetPatch) :
    List JobHostRow :=
  rows.map fun r => if r.serverId = serverId then r.patch p else r

def JobRow.updateJobTarget (job : JobRow) (serverId : String) (p : JobTargetPatch) : JobRow :=
  { job with targets := updateTarget job.targets serverId p }

theorem mem_updateTarget {rows : List JobHostRow} {serverId : String} {p : JobTargetPatch}
    {r : JobHostRow} :
    r ∈ updateTarget rows serverId p ↔
      ∃ r₀ ∈ rows, r = if r₀.serverId = serverId then r₀.patch p else r₀ := by
  simp only [updateTarget, List.mem_map, eq_comm]

/-! ## The targets of a run -/

structure JobTarget where
  serverId : String
  serverName : String
  cohort : Option String
  deriving DecidableEq, Repr

def JobTarget.row (t : JobTarget) (ord : Nat) : JobHostRow where
  serverId := t.serverId
  serverName := t.serverName
  ord := ord
  state := .pending
  outcome := none
  exitCode := none
  error := none
  startedAt := none
  endedAt := none
  outOffset := 0
  outElided := 0
  detached := none

/-- One row for a server: a later target of the same server takes the row over. Rows are read back
in their order. -/
def createTargets (targets : List JobTarget) : List JobHostRow :=
  targets.zipIdx.foldl
    (fun rows t => (rows.filter fun r => r.serverId ≠ t.1.serverId) ++ [t.1.row t.2]) []

def JobTarget.wave (t : JobTarget) : String := t.cohort.getD ""

def joinWave : List (String × List JobTarget) → JobTarget → List (String × List JobTarget)
  | [], t => [(t.wave, [t])]
  | (name, ts) :: waves, t =>
    if name = t.wave then (name, ts ++ [t]) :: waves else (name, ts) :: joinWave waves t

/-- The waves, in the order their names first appear. -/
def jobCohorts (targets : List JobTarget) : List (String × List JobTarget) :=
  targets.foldl joinWave []

/-- The targets of some waves, wave by wave. -/
def waveTargets (waves : List (String × List JobTarget)) : List JobTarget := waves.flatMap Prod.snd

@[simp] theorem waveTargets_nil : waveTargets [] = [] := rfl

@[simp] theorem waveTargets_cons (wave : String × List JobTarget)
    (waves : List (String × List JobTarget)) :
    waveTargets (wave :: waves) = wave.2 ++ waveTargets waves := rfl

theorem joinWave_targets (waves : List (String × List JobTarget)) (t : JobTarget) :
    (waveTargets (joinWave waves t)).Perm (waveTargets waves ++ [t]) := by
  induction waves with
  | nil => exact .refl _
  | cons wave waves ih =>
    obtain ⟨name, ts⟩ := wave
    unfold joinWave
    split_ifs
    · simp only [waveTargets_cons, List.append_assoc]
      exact (List.perm_append_comm).append_left ts
    · simp only [waveTargets_cons, List.append_assoc]
      exact ih.append_left ts

/-- Every target is in one wave, and nothing else is. -/
theorem jobCohorts_perm (targets : List JobTarget) :
    (waveTargets (jobCohorts targets)).Perm targets := by
  have hfold : ∀ waves, (waveTargets (targets.foldl joinWave waves)).Perm
      (waveTargets waves ++ targets) := by
    induction targets with
    | nil => intro waves; simp
    | cons t targets ih =>
      intro waves
      have hjoin := (joinWave_targets waves t).append_right targets
      rw [List.append_assoc, List.singleton_append] at hjoin
      exact (ih _).trans hjoin
  exact hfold []

theorem mem_createTargets {targets : List JobTarget} {r : JobHostRow}
    (h : r ∈ createTargets targets) :
    ∃ t ∈ targets, ∃ ord, r = t.row ord := by
  have hfold : ∀ (l : List (JobTarget × Nat)) (rows : List JobHostRow),
      r ∈ l.foldl (fun rows t =>
        (rows.filter fun r => r.serverId ≠ t.1.serverId) ++ [t.1.row t.2]) rows →
      r ∈ rows ∨ ∃ t ∈ l, r = t.1.row t.2 := by
    intro l
    induction l with
    | nil => intro rows hmem; exact Or.inl hmem
    | cons t l ih =>
      intro rows hmem
      rcases ih _ hmem with hrows | ⟨t', ht', heq⟩
      · rcases List.mem_append.mp hrows with hold | hnew
        · exact Or.inl (List.mem_filter.mp hold).1
        · exact Or.inr ⟨t, List.mem_cons_self, List.mem_singleton.mp hnew⟩
      · exact Or.inr ⟨t', List.mem_cons_of_mem _ ht', heq⟩
  rcases hfold _ _ h with hnil | ⟨t, ht, heq⟩
  · exact absurd hnil List.not_mem_nil
  · exact ⟨t.1, (List.mem_zipIdx' ht).2 ▸ List.getElem_mem _, t.2, heq⟩

/-!
## What a host's run comes to

The category of a finished host, read off its state, its exit code and the words of its output, and
the patches `runOne` writes when a host is over or is taken from it.
-/

/-! ## Words in the output -/

/-- ASCII letters in either case are the same letter. -/
def mentions (words text : String) : Bool :=
  (text.toList.map Char.toLower).tails.any fun s => (words.toList.map Char.toLower).isPrefixOf s

def isSpace (c : Char) : Bool :=
  c.toNat ∈ [9, 10, 11, 12, 13, 32, 0xa0, 0x1680, 0x2028, 0x2029, 0x202f, 0x205f, 0x3000,
    0xfeff] || (0x2000 ≤ c.toNat && c.toNat ≤ 0x200a)

def colonNotFound (text : String) : Bool :=
  text.toList.tails.any fun s =>
    match s with
    | ':' :: rest => "not found".toList.isPrefixOf (rest.dropWhile isSpace)
    | _ => false

def MISSING_COMMAND (text : String) : Bool :=
  mentions "command not found" text || colonNotFound text ||
    mentions "is not recognized as an internal or external command" text ||
    mentions "unknown command" text

def PERMISSION (text : String) : Bool :=
  mentions "permission denied" text || mentions "operation not permitted" text ||
    (mentions "must be run as root" text || mentions "must be root" text) ||
    mentions "is not in the sudoers file" text ||
    (mentions "sudo: a password is required" text ||
      mentions "sudo: a terminal is required" text) ||
    mentions "sudo: no tty present" text

def TIMED_OUT (text : String) : Bool := mentions "timed out" text || mentions "never answered" text

def ABANDONED (text : String) : Bool := mentions "OpsMaxx stopped while" text

/-! ## Classification -/

structure JobHostResult where
  state : JobHostState
  exitCode : Option Int
  error : Option String
  stdout : String
  stderr : String

def classifyBroadcastResult (r : JobHostResult) : Option JobHostOutcome :=
  if r.state = .pending ∨ r.state = .running then none
  else if r.state = .skipped then some .cancelled
  else if r.state = .failed then
    if TIMED_OUT (r.error.getD "") then some .timeout else some .unreachable
  else if MISSING_COMMAND r.stderr then some .missingCommand
  else if r.exitCode = some 126 then some .permissionDenied
  else if r.stdout.toList.all isSpace ∧ PERMISSION r.stderr then some .permissionDenied
  else if r.exitCode = some 127 then some .missingCommand
  else if r.exitCode.getD 0 = 0 then some .ok
  else some .nonzero

def classifyJobResult (r : JobHostResult) : Option JobHostOutcome :=
  if r.state = .waiting ∨ r.state = .detached ∨ r.state = .rebooting then none
  else if r.state = .foreign then none
  else if r.state = .orphaned then some .orphaned
  else if r.state = .failed ∧ ABANDONED (r.error.getD "") then some .abandoned
  else classifyBroadcastResult r

/-! ## Texts -/

def JOB_ABANDONED_ERROR : String :=
  "OpsMaxx stopped while this server was running — the SSH channel closed and the remote " ++
  "command was sent SIGHUP. If it was a package operation, the server may need " ++
  "`dpkg --configure -a`."

def stepFailureNote (index total : Nat) (command : String) (exitCode : Option Int) : String :=
  let what :=
    match exitCode with
    | none => "did not complete"
    | some code => "exited " ++ toString code
  let rest :=
    if index ≥ total then ""
    else if index + 1 = total then " Step " ++ toString total ++ " did not run."
    else " Steps " ++ toString (index + 1) ++ "–" ++ toString total ++ " did not run."
  "step " ++ toString index ++ " of " ++ toString total ++ " (`" ++ command ++ "`) " ++ what ++
    "." ++ rest

/-! ## The end of a host's run -/

/-- What an executor gives back for a step. -/
structure JobExecResult where
  ok : Bool
  code : Option Int := none
  stdout : String := ""
  stderr : String := ""
  error : Option String := none
  elided : Nat := 0
  finalState : Option JobHostState := none
  finalOutcome : Option JobHostOutcome := none
  detachedHandle : Option (Option JobDetachedHandle) := none
  mergedOutput : Bool := false
  deriving DecidableEq

/-- The step goes on to the next one only after a zero exit. -/
def JobExecResult.stops (r : JobExecResult) : Bool := !r.ok || r.code.getD 0 ≠ 0

/-- What the output of a host's run came to when it was flushed. -/
structure OutputTotals where
  bytes : Nat
  elided : Nat
  clsOut : String
  clsErr : String
  deriving DecidableEq

/-- How the loop over the steps was left: at a step, with a failure or with its last result. -/
structure StepsEnd where
  failure : Option String
  result : Option JobExecResult
  stepIndex : Nat
  totalSteps : Nat
  stepCommand : String

namespace StepsEnd
variable (scrub : String → String)

def stepNote (e : StepsEnd) : Option String :=
  match e.failure, e.result with
  | none, some r =>
    if e.totalSteps > 1 ∧ r.stops then
      some (stepFailureNote e.stepIndex e.totalSteps e.stepCommand r.code)
    else none
  | _, _ => none

def state (e : StepsEnd) : JobHostState :=
  match e.failure, e.result with
  | some _, _ => .failed
  | none, none => .failed
  | none, some r => r.finalState.getD (if r.ok then .ok else .failed)

def exitCode (e : StepsEnd) : Option Int :=
  match e.failure with
  | some _ => none
  | none => e.result.bind JobExecResult.code

/-- Blanked out like the output; an empty text is no text. -/
def scrubbed (text : String) : Option String := if text = "" then none else some (scrub text)

def error (e : StepsEnd) : Option String :=
  match e.failure with
  | some text => scrubbed scrub text
  | none =>
    let parts := [e.result.bind JobExecResult.error, e.stepNote].filterMap id
    scrubbed scrub (String.intercalate " " (parts.filter (· ≠ "")))

def outcome (e : StepsEnd) (out : OutputTotals) : Option JobHostOutcome :=
  let stdout := (e.result.map JobExecResult.stdout).getD ""
  let stderr := (e.result.map JobExecResult.stderr).getD ""
  let merged := (e.result.map JobExecResult.mergedOutput).getD false
  match e.result.bind JobExecResult.finalOutcome with
  | some o => some o
  | none =>
    classifyJobResult
      { state := e.state
        exitCode := e.exitCode
        error := e.error scrub
        stdout := if stdout = "" then out.clsOut else stdout
        stderr := if stderr ≠ "" then stderr else if merged then out.clsOut else out.clsErr }

/-- The marker left on the row: the executor's word on it, or the one the host carried. -/
def handle (e : StepsEnd) (carried : Option JobDetachedHandle) : Option JobDetachedHandle :=
  (e.result.bind JobExecResult.detachedHandle).getD carried

def terminalPatch (e : StepsEnd) (carried : Option JobDetachedHandle) (out : OutputTotals)
    (endedAt : Nat) : JobTargetPatch where
  state := some e.state
  outcome := some (e.outcome scrub out)
  exitCode := some e.exitCode
  error := some (e.error scrub)
  endedAt := some (some endedAt)
  outOffset := some out.bytes
  outElided := some out.elided
  detached := some (e.handle carried)

end StepsEnd

/-- What a disposed run leaves of the host it had in hand. -/
def disposedPatch (carried : Option JobDetachedHandle) (out : OutputTotals) (now : Nat) :
    JobTargetPatch :=
  match carried with
  | some h =>
    { state := some .detached, detached := some (some h), outOffset := some out.bytes,
      outElided := some out.elided }
  | none =>
    { state := some .failed, outcome := some (some .abandoned),
      error := some (some JOB_ABANDONED_ERROR), endedAt := some (some now),
      outOffset := some out.bytes, outElided := some out.elided }

end OpsMaxx.Jobs
