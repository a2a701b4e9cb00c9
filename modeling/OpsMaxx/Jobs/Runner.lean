import OpsMaxx.Jobs.Rows
import OpsMaxx.Machine.Run

/-!
# The job runner

One job: its rows, and the calls of `run` and `reclaim` this process is in. A call takes its hosts
off a queue with a few workers, wave by wave, and waits for the executor at each step of each host
and for the gate between two waves. Between any two of these waits the job can be cancelled, the
runner disposed, the process restarted, and the rows adopted or reclaimed.
-/

set_option autoImplicit false

namespace OpsMaxx.Jobs

/-! ## What a run is given -/

structure JobStep where
  command : String
  timeoutMs : Option Nat := none
  reboot : Bool := false
  deriving DecidableEq

/-- `gate` says that the spec asks for the health gate. -/
structure JobRunRequest where
  targets : List JobTarget
  steps : List JobStep
  concurrency : Option Int
  gate : Bool
  confirmedAt : Option Nat

/-- Which observations are wired to the runner, and the texts it takes from elsewhere. -/
structure JobRunnerDeps where
  health : Bool
  nodes : Bool
  scrub : String → String
  isoDate : Nat → String
  samplerNote : String

def JOB_CONCURRENCY : Int := 3

def GATE_WAIT_MS : Nat := 5 * 60 * 1000

/-! ## A call of `run` or of `reclaim` -/

/-- What a reclaimed host's row says. -/
structure Resume where
  handle : JobDetachedHandle
  startedAt : Option Nat
  outOffset : Nat
  outElided : Nat

/-- A host waiting for a worker. `gone` says that its server is no longer in the workspace. -/
structure Queued where
  target : JobTarget
  resume : Option Resume
  gone : Bool

def JobTarget.queued (t : JobTarget) : Queued := ⟨t, none, false⟩

/-- `runOne`, waiting for the executor at one of the steps. -/
structure HostRun where
  target : JobTarget
  handle : Option JobDetachedHandle
  stepIndex : Nat
  result : Option JobExecResult

inductive Worker
  | ready
  | busy (h : HostRun)
  | over

inductive Phase
  | wave (queue : List Queued) (workers : List Worker)
  | gate (since : Nat)
  | nodes (since : Nat)
  | over

/-- A call, the waves still to come, and the hosts it has called the executor for. -/
structure Call where
  reclaims : Bool
  cancelled : Bool
  disposed : Bool
  phase : Phase
  wave : String
  rest : List (String × List JobTarget)
  called : List String

/-- At least one worker where there is nobody to run, and at most as many as there are hosts. -/
def workerCount (concurrency : Option Int) (hosts : Nat) : Nat :=
  (min (concurrency.getD JOB_CONCURRENCY) (max hosts 1 : Nat)).toNat

def startWave (concurrency : Option Int) (queue : List Queued) : Phase :=
  .wave queue (List.replicate (workerCount concurrency queue.length) .ready)

/-- The next wave, if there is one. -/
def Call.nextWave (c : Call) (concurrency : Option Int) : Call :=
  match c.rest with
  | [] => c
  | (name, targets) :: rest =>
    { c with wave := name, rest := rest
             phase := startWave concurrency (targets.map JobTarget.queued) }

/-! ## The state -/

/-- `launched` remembers the hosts the executor has been called for. -/
structure World where
  clock : Nat
  job : JobRow
  calls : List Call
  active : Option Nat
  launched : List String

namespace World

def owns (w : World) (i : Nat) : Bool := w.active = some i

def setCall (w : World) (i : Nat) (c : Call) : World := { w with calls := w.calls.set i c }

def write (w : World) (serverId : String) (p : JobTargetPatch) : World :=
  { w with job := w.job.updateJobTarget serverId p }

def markSkipped (w : World) (serverId : String) (error : Option String) : World :=
  w.write serverId
    { state := some .skipped, outcome := some (some .cancelled), error := some error,
      endedAt := some (some w.clock) }

def markAllSkipped (w : World) (targets : List JobTarget) (error : String) : World :=
  targets.foldl (fun w t => w.markSkipped t.serverId (some error)) w

/-- The end of a call: a call that does not own the job any more writes nothing. -/
def finish (w : World) (i : Nat) (c : Call) (halted : Bool) : World :=
  let w := w.setCall i { c with phase := .over }
  if w.owns i then
    { w with
      active := none
      job := { w.job with
        state := if c.cancelled then .cancelled else if halted then .halted else .done
        endedAt := some w.clock } }
  else w

/-! ## One host -/

def stallMessage (serverName : String) : String :=
  serverName ++ " never answered — giving up so the rest of the job can finish"

/-- The end of `runOne`. -/
def tail (deps : JobRunnerDeps) (w : World) (i : Nat) (c : Call) (h : HostRun) (e : StepsEnd)
    (out : OutputTotals) : World :=
  if w.owns i then
    w.write h.target.serverId (e.terminalPatch deps.scrub h.handle out w.clock)
  else if c.disposed then w.write h.target.serverId (disposedPatch h.handle out w.clock)
  else w

def setWorker (w : World) (i : Nat) (c : Call) (queue : List Queued) (workers : List Worker)
    (k : Nat) (worker : Worker) : World :=
  w.setCall i { c with phase := .wave queue (workers.set k worker) }

/-- The executor is called for a host. -/
def callExec (w : World) (i : Nat) (c : Call) (queue : List Queued) (workers : List Worker)
    (k : Nat) (h : HostRun) : World :=
  { w.setCall i
      { c with phase := .wave queue (workers.set k (.busy h))
               called := h.target.serverId :: c.called } with
    launched := h.target.serverId :: w.launched }

def commandAt (req : JobRunRequest) (stepIndex : Nat) : String :=
  ((req.steps[stepIndex - 1]?).map JobStep.command).getD ""

/-- `runOne` from its entry to its first wait, for a host taken off the queue. -/
def runOne (req : JobRunRequest) (deps : JobRunnerDeps) (w : World) (i : Nat) (c : Call)
    (queue : List Queued) (workers : List Worker) (k : Nat) (q : Queued) : World :=
  if c.cancelled then
    (w.setWorker i c queue workers k .ready).markSkipped q.target.serverId none
  else
    let w :=
      match q.resume with
      | none =>
        w.write q.target.serverId { state := some .running, startedAt := some (some w.clock) }
      | some _ => w
    let first := max 1 ((q.resume.map fun r => r.handle.step).getD 1)
    let h : HostRun :=
      { target := q.target, handle := q.resume.map Resume.handle, stepIndex := first
        result := none }
    if first ≤ req.steps.length then w.callExec i c queue workers k h
    else
      let out : OutputTotals :=
        { bytes := (q.resume.map Resume.outOffset).getD 0
          elided := (q.resume.map Resume.outElided).getD 0, clsOut := "", clsErr := "" }
      (w.setWorker i c queue workers k .ready).tail deps i c h
        { failure := none, result := none, stepIndex := req.steps.length
          totalSteps := req.steps.length, stepCommand := "" } out

def goneError (dir : String) : String :=
  "This server is no longer in the workspace, so its job cannot be followed. Its " ++
  "marker directory is still on the machine at " ++ dir ++ " and holds the " ++
  "output and exit status."

/-- A worker at the head of its loop, with the next host in hand. -/
def take (req : JobRunRequest) (deps : JobRunnerDeps) (w : World) (i : Nat) (c : Call)
    (queue : List Queued) (workers : List Worker) (k : Nat) (q : Queued) : World :=
  if c.reclaims then
    if q.gone then
      (w.setWorker i c queue workers k .ready).write q.target.serverId
        { state := some .orphaned, outcome := some (some .orphaned)
          error := some (some (goneError ((q.resume.map fun r => r.handle.dir).getD "")))
          endedAt := some (some w.clock) }
    else w.runOne req deps i c queue workers k q
  else if c.cancelled then
    (w.setWorker i c queue workers k .ready).markSkipped q.target.serverId none
  else w.runOne req deps i c queue workers k q

def work (req : JobRunRequest) (deps : JobRunnerDeps) (w : World) (i k : Nat) : Option World :=
  match w.calls[i]? with
  | none => none
  | some c =>
    match c.phase with
    | .wave queue workers =>
      match workers[k]? with
      | some .ready =>
        if w.owns i then
          match queue with
          | [] => some (w.setWorker i c [] workers k .over)
          | q :: queue => some (w.take req deps i c queue workers k q)
        else some (w.setWorker i c queue workers k .over)
      | _ => none
    | _ => none

/-! ## The executor -/

/-- What an executor says while it works. A field left out leaves the row's own alone. -/
structure JobExecUpdate where
  state : Option JobHostState := none
  detached : Option (Option JobDetachedHandle) := none
  error : Option String := none

def JobExecUpdate.patch (u : JobExecUpdate) : JobTargetPatch :=
  { state := u.state, detached := u.detached, error := u.error.map some }

def applyUpdate (w : World) (i : Nat) (serverId : String) (u : JobExecUpdate) : World :=
  if w.owns i then w.write serverId u.patch else w

/-- How the wait for an executor ends: with its result, with its exception, or by the guard. -/
inductive Settled
  | fulfilled (r : JobExecResult)
  | rejected (message : String)
  | stalled

def update (w : World) (i k : Nat) (u : JobExecUpdate) : Option World :=
  match w.calls[i]? with
  | none => none
  | some c =>
    match c.phase with
    | .wave queue workers =>
      match workers[k]? with
      | some (.busy h) =>
        some ((w.setWorker i c queue workers k (.busy { h with handle := u.detached.getD h.handle })
          ).applyUpdate i h.target.serverId u)
      | _ => none
    | _ => none

/-- An update of a call of the executor that `runOne` is not waiting for any more. -/
def late (w : World) (i : Nat) (serverId : String) (u : JobExecUpdate) : Option World :=
  match w.calls[i]? with
  | none => none
  | some c => if serverId ∈ c.called then some (w.applyUpdate i serverId u) else none

/-- How the loop over the steps goes on from a wait for the executor: at the next step, or not. -/
def settled (req : JobRunRequest) (owned : Bool) (h : HostRun) : Settled → HostRun ⊕ StepsEnd
  | .fulfilled r =>
    if !r.stops && (owned && h.stepIndex < req.steps.length) then
      .inl { h with stepIndex := h.stepIndex + 1, result := some r }
    else
      .inr { failure := none, result := some r, stepIndex := h.stepIndex
             totalSteps := req.steps.length, stepCommand := commandAt req h.stepIndex }
  | .rejected message =>
    .inr { failure := some message, result := h.result, stepIndex := h.stepIndex
           totalSteps := req.steps.length, stepCommand := commandAt req h.stepIndex }
  | .stalled =>
    .inr { failure := some (stallMessage h.target.serverName), result := h.result
           stepIndex := h.stepIndex, totalSteps := req.steps.length
           stepCommand := commandAt req h.stepIndex }

def settle (req : JobRunRequest) (deps : JobRunnerDeps) (w : World) (i k : Nat) (s : Settled)
    (out : OutputTotals) : Option World :=
  match w.calls[i]? with
  | none => none
  | some c =>
    match c.phase with
    | .wave queue workers =>
      match workers[k]? with
      | some (.busy h) =>
        match settled req (w.owns i) h s with
        | .inl h' => some (w.callExec i c queue workers k h')
        | .inr e => some ((w.setWorker i c queue workers k .ready).tail deps i c h e out)
      | _ => none
    | _ => none

/-! ## Between waves -/

inductive GateVerdict
  | ok
  | unhealthy (reason : String)
  | stale (reason : String)

def waveLabel (name : String) : String := if name = "" then "the only wave" else name

def noHealthReason : String :=
  "this build has no health source wired to the job runner, so the check between waves " ++
  "cannot be performed. A run that was confirmed with a gate does not continue without " ++
  "one."

def gateTimeoutReason (samplerNote wave detail : String) : String :=
  wave ++ " finished, and 5 minutes later there was still no " ++
  "health check newer than it. " ++ detail ++ " Rather than roll on against data from before " ++
  "the wave, the run stopped here. " ++ samplerNote

def JOB_GATE_SKIPPED_ERROR (wave reason : String) : String :=
  "Nothing was installed on this server. The run stopped after " ++ waveLabel wave ++
  " because the health check between waves would not pass: " ++ reason

/-- The run stops here: the hosts of the waves to come are closed, whoever owns the job. -/
def halt (w : World) (i : Nat) (c : Call) (reason : String) : World :=
  (w.markAllSkipped (waveTargets c.rest)
    (JOB_GATE_SKIPPED_ERROR (waveLabel c.wave) reason)).finish i c true

def goOn (req : JobRunRequest) (w : World) (i : Nat) (c : Call) : World :=
  w.setCall i (c.nextWave req.concurrency)

def judge (req : JobRunRequest) (deps : JobRunnerDeps) (w : World) (i : Nat) (c : Call)
    (since : Nat) : GateVerdict → World
  | .ok => w.goOn req i c
  | .unhealthy reason => w.halt i c reason
  | .stale reason =>
    if w.clock ≥ since + GATE_WAIT_MS then
      w.halt i c (gateTimeoutReason deps.samplerNote (waveLabel c.wave) reason)
    else w.setCall i { c with phase := .gate since }

/-- All workers of a wave have returned. -/
def waveOver (req : JobRunRequest) (deps : JobRunnerDeps) (w : World) (i : Nat) : Option World :=
  match w.calls[i]? with
  | none => none
  | some c =>
    match c.phase with
    | .wave _ workers =>
      if workers.all fun k => k matches .over then
        if c.reclaims || !w.owns i || c.cancelled || c.rest.isEmpty then some (w.finish i c false)
        else if !req.gate then some (w.goOn req i c)
        else if !deps.health then some (w.halt i c noHealthReason)
        else some (w.setCall i { c with phase := .gate w.clock })
      else none
    | _ => none

/-- The gate reads the machines; the control plane is asked only about machines that are well. -/
def gate (req : JobRunRequest) (deps : JobRunnerDeps) (w : World) (i : Nat)
    (machines : GateVerdict) : Option World :=
  match w.calls[i]? with
  | none => none
  | some c =>
    match c.phase with
    | .gate since =>
      if !w.owns i || c.cancelled then some (w.goOn req i c)
      else if machines matches .ok ∧ deps.nodes then
        some (w.setCall i { c with phase := .nodes since })
      else some (w.judge req deps i c since machines)
    | _ => none

def nodes (req : JobRunRequest) (deps : JobRunnerDeps) (w : World) (i : Nat)
    (verdict : GateVerdict) : Option World :=
  match w.calls[i]? with
  | none => none
  | some c =>
    match c.phase with
    | .nodes since => some (w.judge req deps i c since verdict)
    | _ => none

/-! ## The calls from outside -/

/-- What `run` leaves when it has taken the job: its rows, and its first wave. -/
def launch (req : JobRunRequest) (clock : Nat) : World :=
  let c : Call :=
    { reclaims := false, cancelled := false, disposed := false, phase := .over, wave := ""
      rest := jobCohorts req.targets, called := [] }
  let w : World :=
    { clock := clock, calls := [c.nextWave req.concurrency], active := some 0, launched := []
      job := { confirmedAt := req.confirmedAt, state := .running, startedAt := some clock
               endedAt := none, cancelledAt := none, targets := createTargets req.targets } }
  if c.rest.isEmpty then w.finish 0 c false else w

def cancel (w : World) : World :=
  match w.active with
  | none => w
  | some i =>
    match w.calls[i]? with
    | none => w
    | some c =>
      if c.cancelled then w
      else
        { w.setCall i { c with cancelled := true } with
          job := { w.job with cancelledAt := some w.clock } }

def disposeAll (w : World) : World :=
  match w.active with
  | none => w
  | some i =>
    match w.calls[i]? with
    | none => w
    | some c =>
      { w.setCall i { c with cancelled := true, disposed := true } with active := none }

/-- What the process held is gone with it. -/
def restart (w : World) : World := { w with calls := [], active := none }

def notReached : String := "OpsMaxx stopped before this server was reached."

/-- How a host that nobody can follow is closed. -/
def closed (now : Nat) (notRun : String) (t : JobHostRow) : JobHostRow :=
  if t.state = .running then
    t.patch { state := some .failed, outcome := some (some .abandoned),
              error := some (some JOB_ABANDONED_ERROR), endedAt := some (some now) }
  else if t.state = .pending ∨ t.state = .waiting then
    t.patch { state := some .skipped, outcome := some (some .cancelled),
              error := some (some notRun), endedAt := some (some now) }
  else t

/-- A job this process is not running is taken from its rows. -/
def idle (w : World) : Bool := w.job.state.unfinished && w.active.isNone

def adopt (w : World) : World :=
  if w.idle && !w.job.targets.any reclaimable then
    { w with job := { w.job with
        targets := w.job.targets.map (closed w.clock notReached)
        state := .abandoned
        endedAt := some w.clock } }
  else w

def JOB_RESUME_NOT_REAUTHORISED (deps : JobRunnerDeps) (confirmedAt : Option Nat) : String :=
  "OpsMaxx stopped before this server was reached, and it was not started at the next launch. " ++
  match confirmedAt with
  | none => "The job carries no confirmation this process could check."
  | some at' =>
    "The confirmation it was authorised with was given at " ++ deps.isoDate at' ++ ", " ++
    "by a window that is gone — a server that never started needs a fresh one."

def requeued (gone : List String) (t : JobHostRow) : Option Queued :=
  if reclaimable t then
    t.detached.map fun handle =>
      { target := ⟨t.serverId, t.serverName, none⟩
        resume := some ⟨handle, t.startedAt, t.outOffset, t.outElided⟩
        gone := t.serverId ∈ gone }
  else none

/-- The hosts with a marker are followed again; every other host is closed. -/
def reclaim (req : JobRunRequest) (deps : JobRunnerDeps) (w : World) (gone : List String) : World :=
  if w.idle && w.job.targets.any reclaimable then
    let notRun := JOB_RESUME_NOT_REAUTHORISED deps w.job.confirmedAt
    { w with
      job := { w.job with
        targets := w.job.targets.map fun t => if reclaimable t then t else closed w.clock notRun t }
      calls := w.calls ++
        [{ reclaims := true, cancelled := false, disposed := false, wave := "", rest := []
           phase := startWave req.concurrency (w.job.targets.filterMap (requeued gone))
           called := [] }]
      active := some w.calls.length }
  else w

end World

/-! ## The machine -/

inductive Move
  | tick (ms : Nat)
  | cancel
  | disposeAll
  | restart
  | adopt
  | reclaim (gone : List String)
  | work (i k : Nat)
  | update (i k : Nat) (u : World.JobExecUpdate)
  | late (i : Nat) (serverId : String) (u : World.JobExecUpdate)
  | settle (i k : Nat) (s : World.Settled) (out : OutputTotals)
  | waveOver (i : Nat)
  | gate (i : Nat) (machines : World.GateVerdict)
  | nodes (i : Nat) (verdict : World.GateVerdict)

def step (req : JobRunRequest) (deps : JobRunnerDeps) (w : World) : Move → Option World
  | .tick ms => some { w with clock := w.clock + ms }
  | .cancel => some w.cancel
  | .disposeAll => some w.disposeAll
  | .restart => some w.restart
  | .adopt => some w.adopt
  | .reclaim gone => some (w.reclaim req deps gone)
  | .work i k => w.work req deps i k
  | .update i k u => w.update i k u
  | .late i serverId u => w.late i serverId u
  | .settle i k s out => w.settle req deps i k s out
  | .waveOver i => w.waveOver req deps i
  | .gate i machines => w.gate req deps i machines
  | .nodes i verdict => w.nodes req deps i verdict

end OpsMaxx.Jobs
