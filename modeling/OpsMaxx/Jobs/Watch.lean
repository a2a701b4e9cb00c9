import OpsMaxx.Jobs.Runner
import OpsMaxx.Json.Text

/-!
# The detached executor

A step is launched on the host in a session of its own, in a marker directory, and followed by
polls. A call of the executor is at one of the waits of `Await` at any time, and goes on from there
with a reply. What the commands print is taken as read: a reply is what its parser makes of it.
-/

set_option autoImplicit false

namespace OpsMaxx.Jobs

/-! ## Marker directories -/

def safeIdChar (c : Char) : Bool := c.isAlphanum || c = '.' || c = '_' || c = '-'

def SAFE_ID (id : List Char) : Bool :=
  match id with
  | [] => false
  | c :: cs => c.isAlphanum && cs.all safeIdChar && cs.length ≤ 127

def hasDotDot : List Char → Bool
  | '.' :: '.' :: _ => true
  | _ :: cs => hasDotDot cs
  | [] => false

def isSafeJobId (id : String) : Bool := SAFE_ID id.toList && !hasDotDot id.toList

def quoted (text : String) : String := String.ofList (printString text)

def unsafeIdError (what id : String) : String :=
  what ++ " must be a plain identifier, got " ++ quoted id

def trimSlashes (root : String) : List Char := (root.toList.reverse.dropWhile (· = '/')).reverse

/-- One directory for each step of a job. -/
def jobMarkerDir (root jobId : String) (step : Nat) : Except String String :=
  if !isSafeJobId jobId then .error (unsafeIdError "a job id" jobId)
  else if step < 1 ∨ 999 < step then
    .error ("a step index must be 1-999, got " ++ toString step)
  else .ok (String.ofList (trimSlashes root) ++ "/" ++ jobId ++ "." ++ toString step)

/-- The last part of a marker directory: a safe id, a dot and one to three digits. -/
def isMarkerName (name : List Char) : Bool :=
  let digits := name.reverse.takeWhile Char.isDigit
  (1 ≤ digits.length && digits.length ≤ 3) &&
  match name.reverse.dropWhile Char.isDigit with
  | '.' :: id => SAFE_ID id.reverse
  | _ => false

def isJobMarkerDir (dir : String) : Bool :=
  !hasDotDot dir.toList &&
  match dir.toList.splitOn '/' with
  | [] :: rest =>
    2 ≤ rest.length && rest.dropLast.all (· ≠ []) && isMarkerName (rest.getLastD [])
  | _ => false

/-! ## What the commands of the executor report -/

/-- Without a launcher no command can be detached. -/
structure JobHostCapability where
  root : Option String
  launcher : Option JobLauncher
  base64 : Bool
  ok : Bool
  reason : Option String
  deriving DecidableEq

/-- `boot` is the boot id in the text, if there is one. -/
structure JobPollResult where
  present : Bool
  inst : Option String
  pid : Option Nat
  rc : Option Nat
  alive : Bool
  size : Nat
  sent : Nat
  text : String
  boot : Option String
  deriving DecidableEq

structure RebootVerdict where
  ok : Bool
  reason : String

/-! ## What a poll means -/

def JOB_LAUNCH_GRACE_MS : Nat := 30000

inductive JobPollPhase
  | starting
  | running
  | finished
  | orphaned
  | missing
  | failedLaunch
  | rebooted
  deriving DecidableEq

structure JobPollVerdict where
  phase : JobPollPhase
  isForeign : Bool
  deriving DecidableEq

def classifyJobPoll (poll : JobPollResult) (instanceId : String) (launchedAt now : Nat)
    (expectsReboot : Bool) : JobPollVerdict :=
  let isForeign := poll.inst.any (· ≠ instanceId)
  if !poll.present then { phase := .missing, isForeign := false }
  else if poll.rc.isSome then
    { phase := if expectsReboot then .rebooted else .finished, isForeign }
  else if poll.pid.isNone then
    { phase := if now - launchedAt ≤ JOB_LAUNCH_GRACE_MS then .starting else .failedLaunch
      isForeign }
  else if poll.alive then { phase := .running, isForeign }
  else { phase := if expectsReboot then .rebooted else .orphaned, isForeign }

/-! ## Texts -/

def VAULT_LOCKED : String := "OPSMAXX_VAULT_LOCKED"

def lockedNote : String :=
  VAULT_LOCKED ++ ": Paused — this server's credential is in the vault, and the vault " ++
  "is locked, so it cannot be polled. The job is still running on it and polling " ++
  "resumes when the vault is unlocked."

def notOursError (dir : String) : String :=
  "This job’s recorded marker directory (" ++ quoted dir ++ ") is not one " ++
  "OpsMaxx creates, so nothing was read from the server and nothing was removed from it."

def JOB_INSTANCE_NOTE : String :=
  "This job was launched by a different OpsMaxx instance. Its output and exit status are " ++
  "readable here and it can still be cancelled; its marker directory is left in place for the " ++
  "instance that started it."

def JOB_REBOOTING_NOTE : String :=
  "The reboot has been issued and the server has stopped answering, which is what was expected. " ++
  "OpsMaxx is polling until it comes back and will then check that it really restarted and " ++
  "that nothing failed on the way up. This is not \"unreachable\": nothing is wrong yet."

def JOB_REBOOT_ACCEPTED_NOTE : String :=
  "The reboot has been accepted by the server and it is still answering, which is normal: the " ++
  "exit status of a reboot command is the status of asking. OpsMaxx is waiting for it to go " ++
  "down, and will then check that it really restarted and that nothing failed on the way up."

def JOB_REBOOT_TIMEOUT_ERROR (ms : Nat) : String :=
  "The reboot was issued and the server has not answered in " ++ toString ((ms + 500) / 1000) ++
  "s. It is NOT recorded as unreachable in the ordinary sense — the disconnect was expected and " ++
  "asked for — but it has now been gone long enough that somebody should look at it."

def JOB_REBOOT_UNHEALTHY_ERROR (detail : String) : String :=
  "The reboot was issued and the server came back, but not cleanly: " ++ detail ++
  " The wave gate will not pass on this server, so nothing after it was started."

def JOB_ORPHANED_ERROR : String :=
  "The command was launched and its marker directory is still here, but the process is gone and " ++
  "no exit status was ever written — the OOM killer, a kill -9, or the server going down under " ++
  "it. Whether the work completed is not knowable from here; check the output above."

def JOB_LAUNCH_FAILED_ERROR : String :=
  "The detached launch left a marker directory but no process ever recorded a pid, so the command " ++
  "never began."

def missingError : String :=
  "The marker directory for this job is no longer on the server, so its exit status " ++
  "cannot be read. Another OpsMaxx may have reaped it, or the state directory was " ++
  "cleared underneath it."

def JOB_SIGNAL_UNVERIFIED_ERROR (ms : Nat) (dir : String) : String :=
  "Command timed out after " ++ toString ms ++ "ms. NOTHING WAS SIGNALLED: this server has no " ++
  "usable `ps`, so OpsMaxx could not confirm that the recorded pid is still this job rather " ++
  "than a process that has since been given the same number — and sending SIGTERM on that " ++
  "basis could stop something unrelated. The command may still be running; its marker " ++
  "directory is left at " ++ dir ++ " so it can be read, and stopped by hand."

def goneAfterSignalError (ms : Nat) : String :=
  "Command timed out after " ++ toString ms ++ "ms. SIGTERM was sent to the remote " ++
  "process and it has gone, without recording an exit status."

def leftAfterSignalError (ms : Nat) (dir : String) : String :=
  "Command timed out after " ++ toString ms ++ "ms. SIGTERM was sent to the remote " ++
  "process; its marker directory is left in place so the exit status can still be " ++
  "read from " ++ dir ++ "."

def foreignTimeoutError (ms : Nat) (dir : String) : String :=
  "Command timed out after " ++ toString ms ++ "ms. Nothing was signalled: this job " ++
  "was launched by a different OpsMaxx instance, and an automatic timeout is " ++
  "not a reason to stop somebody else’s run. It may still be going; its marker " ++
  "directory is at " ++ dir ++ "."

/-! ## A call of the executor -/

/-- `resume` is the marker of a step that runs already. -/
structure JobExecRequest where
  command : String
  timeoutMs : Nat
  jobId : String
  step : Nat
  reboot : Bool
  resume : Option JobDetachedHandle

structure DetachedDeps where
  instanceId : String
  restartsTheMachine : String → Bool

/-- What the executor reads of its surroundings when it goes on. -/
structure ExecEnv where
  now : Nat
  alive : Bool
  credentialReady : Bool
  isEnabled : Bool

/-- The variables of `watch`. -/
structure Watching where
  handle : JobDetachedHandle
  attempts : Nat
  reported : Option (JobHostState × String)
  signalled : Bool
  immediate : Bool
  sawSilence : Bool
  deadline : Nat

/-- What follows when the marker directory was reaped. -/
inductive AfterReap
  | returns (r : JobExecResult)
  | verify (rc : Option Nat)
  | attached

inductive Await
  | probe
  | launch (handle : JobDetachedHandle)
  | park (w : Watching)
  | sleep (w : Watching)
  | poll (w : Watching)
  | reap (w : Watching) (after : AfterReap)
  | verify (w : Watching) (rc : Option Nat) (isForeign : Bool)
  | signal (w : Watching)
  | attached

/-- How a wait ends. A command that did not complete is `failed`, and one whose promise is rejected
`threw`. -/
inductive Reply
  | probed (cap : JobHostCapability)
  | launched (error : Option String)
  | polled (p : JobPollResult)
  | reaped
  | verified (v : RebootVerdict)
  | signalled (isUnverified : Bool)
  | exited (code : Option Int)
  | woke
  | failed (error : Option String)
  | threw (message : String)

/-- What the executor says to `onState` and to `onOutput`. -/
inductive Saying
  | state (u : World.JobExecUpdate)
  | output (text : String)

inductive Went
  | waits (a : Await)
  | returns (r : JobExecResult)
  | throws (message : String)

/-- What the executor did before its next wait. `cap` is what it knows of the host. -/
structure Turned where
  said : List Saying
  cap : Option JobHostCapability
  went : Went

def Turned.after (said : List Saying) (t : Turned) : Turned := { t with said := said ++ t.said }

section Watch
variable (deps : DetachedDeps) (req : JobExecRequest) (env : ExecEnv)
  (cap : Option JobHostCapability)

/-- The same words are not said twice in a row. -/
def Watching.say (w : Watching) (state : JobHostState) (error : Option String) :
    List Saying × Watching :=
  if w.reported = some (state, error.getD "") then ([], w)
  else
    ([.state { state := some state, error := error }],
      { w with reported := some (state, error.getD "") })

/-- The head of the loop, up to the next poll. -/
def Watching.next (w : Watching) : Turned :=
  if !env.alive then
    ⟨[], cap, .returns
      { ok := false, detachedHandle := some (some w.handle), finalState := some .detached }⟩
  else if !env.credentialReady then
    ⟨(w.say .detached (some lockedNote)).1, cap, .waits (.park (w.say .detached lockedNote).2)⟩
  else if w.immediate then ⟨[], cap, .waits (.poll { w with immediate := false })⟩
  else ⟨[], cap, .waits (.sleep w)⟩

def watch (handle : JobDetachedHandle) : Turned :=
  if !isJobMarkerDir handle.dir then
    ⟨[], cap, .returns
      { ok := false, error := some (notOursError handle.dir), finalState := some .orphaned
        finalOutcome := some .orphaned, detachedHandle := some none }⟩
  else
    Watching.next env cap
      { handle := handle
        attempts := 0
        reported := if req.resume.isSome then none else some (.detached, "")
        signalled := false
        immediate := false
        sawSilence := req.resume.isSome
        deadline := (if req.resume.isSome then env.now else handle.launchedAt) + req.timeoutMs }

/-- The link is down, and the job is not. -/
def Watching.pollFailed (w : Watching) (error : Option String) : Turned :=
  let w := { w with attempts := w.attempts + 1 }
  let said :=
    if req.reboot || deps.restartsTheMachine w.handle.command then
      w.say .rebooting (some (JOB_REBOOTING_NOTE ++
        if error.getD "" = "" then "" else " (" ++ error.getD "" ++ ")"))
    else w.say .detached error
  let w := { said.2 with sawSilence := true }
  if req.reboot ∧ w.deadline < env.now then
    ⟨said.1, cap, .returns
      { ok := false, error := some (JOB_REBOOT_TIMEOUT_ERROR req.timeoutMs)
        finalOutcome := some .timeout, mergedOutput := true
        detachedHandle := some (some w.handle) }⟩
  else (w.next env cap).after said.1

/-- The host is recorded as unable to detach, and the step runs on the attached path. -/
def fallBack : Turned :=
  ⟨[.state { state := some .running, detached := some none }],
    some
      { root := cap.bind JobHostCapability.root
        launcher := cap.bind JobHostCapability.launcher
        base64 := (cap.map JobHostCapability.base64).getD false
        ok := false
        reason := some JOB_LAUNCH_FAILED_ERROR },
    .waits .attached⟩

/-- There is more to read, which is read at once. -/
def Watching.drain (w : Watching) : Turned := { w with immediate := true }.next env cap

/-- The marker directory of another instance is left in place. -/
def Watching.reapUnless (w : Watching) (isForeign : Bool) (r : JobExecResult) : Turned :=
  ⟨[], cap, if isForeign then .returns r else .waits (.reap w (.returns r))⟩

def Watching.left (w : Watching) (isForeign : Bool) : Option JobDetachedHandle :=
  if isForeign then some w.handle else none

/-- The command has ended, or a reboot that was declared has ended it. -/
def Watching.over (w : Watching) (p : JobPollResult) (isForeign : Bool) : Turned :=
  if w.handle.readOffset < p.size then w.drain env cap
  else if !req.reboot then
    w.reapUnless cap isForeign
      { ok := true, code := p.rc.map Int.ofNat, mergedOutput := true
        detachedHandle := some (w.left isForeign) }
  else if !w.sawSilence ∧ p.rc = some 0 ∧ env.now ≤ w.deadline then
    ((w.say .rebooting (some JOB_REBOOT_ACCEPTED_NOTE)).2.next env cap).after
      (w.say .rebooting (some JOB_REBOOT_ACCEPTED_NOTE)).1
  else if isForeign then ⟨[], cap, .waits (.verify w p.rc true)⟩
  else ⟨[], cap, .waits (.reap w (.verify p.rc))⟩

/-- The process is gone without an exit status. -/
def Watching.lost (w : Watching) (p : JobPollResult) (isForeign : Bool) : Turned :=
  if w.handle.readOffset < p.size then w.drain env cap
  else if w.signalled then
    w.reapUnless cap isForeign
      { ok := false, error := some (goneAfterSignalError req.timeoutMs)
        finalOutcome := some .timeout, mergedOutput := true, detachedHandle := some none }
  else
    w.reapUnless cap isForeign
      { ok := false, error := some JOB_ORPHANED_ERROR, finalState := some .orphaned
        finalOutcome := some .orphaned, mergedOutput := true, detachedHandle := some none }

/-- The command starts, or runs. -/
def Watching.runs (w : Watching) (p : JobPollResult) (isForeign : Bool) : Turned :=
  let said := (w.say .running none).1
  let w := (w.say .running none).2
  if w.handle.readOffset < p.size then (w.drain env cap).after said
  else if w.deadline < env.now then
    if isForeign then
      ⟨said, cap, .returns
        { ok := false, error := some (foreignTimeoutError req.timeoutMs w.handle.dir)
          finalOutcome := some .timeout, mergedOutput := true
          detachedHandle := some (some w.handle) }⟩
    else if !w.signalled then ⟨said, cap, .waits (.signal w)⟩
    else
      ⟨said, cap, .returns
        { ok := false, error := some (leftAfterSignalError req.timeoutMs w.handle.dir)
          mergedOutput := true, detachedHandle := some (some w.handle) }⟩
  else (w.next env cap).after said

/-- The output of a poll is given on, and the cursor goes past it. -/
def Watching.read (w : Watching) (p : JobPollResult) : List Saying × Watching :=
  let spoke := 0 < p.sent ∧ p.text ≠ ""
  let handle :=
    { w.handle with
      bootIdBefore :=
        if spoke ∧ req.reboot then p.boot.or w.handle.bootIdBefore else w.handle.bootIdBefore
      readOffset := w.handle.readOffset + p.sent }
  ((if spoke then [.output p.text] else []) ++
      if 0 < p.sent then [.state { detached := some (some handle) }] else [],
    { w with attempts := 0, handle := handle })

def Watching.polled (w : Watching) (p : JobPollResult) : Turned :=
  let read := w.read req p
  let w := read.2
  let verdict :=
    classifyJobPoll p deps.instanceId w.handle.launchedAt env.now req.reboot
  let said := if verdict.isForeign then w.say .foreign (some JOB_INSTANCE_NOTE) else ([], w)
  let w := said.2
  Turned.after (read.1 ++ said.1) <|
    match verdict.phase with
    | .finished => w.over req env cap p verdict.isForeign
    | .rebooted => w.over req env cap p verdict.isForeign
    | .orphaned => w.lost req env cap p verdict.isForeign
    | .failedLaunch =>
      if verdict.isForeign then fallBack cap else ⟨[], cap, .waits (.reap w .attached)⟩
    | .missing =>
      ⟨[], cap, .returns
        { ok := false, error := some missingError, finalState := some .orphaned
          finalOutcome := some .orphaned, detachedHandle := some none }⟩
    | .starting => w.runs req env cap p verdict.isForeign
    | .running => w.runs req env cap p verdict.isForeign

def Watching.verified (w : Watching) (rc : Option Nat) (isForeign : Bool) (v : RebootVerdict) :
    Turned :=
  ⟨[.output ("\n… " ++ v.reason ++ "\n")], cap, .returns <|
    if v.ok then
      { ok := true, code := some (Int.ofNat (rc.getD 0)), mergedOutput := true
        detachedHandle := some (w.left isForeign) }
    else
      { ok := false, code := rc.map Int.ofNat
        error := some (JOB_REBOOT_UNHEALTHY_ERROR v.reason), finalOutcome := some .unhealthy
        mergedOutput := true, detachedHandle := some (w.left isForeign) }⟩

def Watching.answered (w : Watching) (isUnverified : Bool) : Turned :=
  if isUnverified then
    ⟨[], cap, .returns
      { ok := false, error := some (JOB_SIGNAL_UNVERIFIED_ERROR req.timeoutMs w.handle.dir)
        finalOutcome := some .timeout, mergedOutput := true
        detachedHandle := some (some w.handle) }⟩
  else { w with signalled := true, immediate := true }.next env cap

def Watching.reaped (w : Watching) : AfterReap → Turned
  | .returns r => ⟨[], cap, .returns r⟩
  | .verify rc => ⟨[], cap, .waits (.verify w rc false)⟩
  | .attached => fallBack cap

end Watch

/-! ## `exec` -/

def heredocEnd (jobId : String) : List Char :=
  "SPJOB_".toList ++ jobId.toList.map (fun c => if c.isAlphanum then c else '_') ++ "_EOF".toList

def trimmed (line : List Char) : List Char :=
  ((line.dropWhile isSpace).reverse.dropWhile isSpace).reverse

/-- `buildJobLaunch` refuses ids that are no plain ids, and a command with the line that ends it. -/
def launchRefusal (deps : DetachedDeps) (req : JobExecRequest) : Option String :=
  if !isSafeJobId req.jobId then some (unsafeIdError "a job id" req.jobId)
  else if !isSafeJobId deps.instanceId then some (unsafeIdError "an instance id" deps.instanceId)
  else if (req.command.toList.splitOn '\n').any fun l => trimmed l = heredocEnd req.jobId then
    some "the command contains this job’s heredoc delimiter and cannot be launched"
  else none

section Exec
variable (deps : DetachedDeps) (req : JobExecRequest) (env : ExecEnv)

/-- The host is known: the step is launched on it, or runs attached. -/
def detach (cap : JobHostCapability) : Turned :=
  match cap.ok, cap.root, cap.launcher with
  | true, some root, some launcher =>
    match jobMarkerDir root req.jobId req.step, launchRefusal deps req with
    | .error e, _ => ⟨[], some cap, .throws e⟩
    | .ok _, some e => ⟨[], some cap, .throws e⟩
    | .ok dir, none =>
      ⟨[], some cap, .waits (.launch
        { dir := dir
          step := req.step
          instanceId := deps.instanceId
          launcher := launcher
          base64 := cap.base64
          launchedAt := env.now
          readOffset := 0
          command := req.command
          bootIdBefore := none })⟩
  | _, _, _ => ⟨[], some cap, .waits .attached⟩

def exec (cap : Option JobHostCapability) : Turned :=
  match req.resume with
  | some handle => watch req env cap handle
  | none =>
    if !env.isEnabled then ⟨[], cap, .waits .attached⟩
    else
      match cap with
      | some cap => detach deps req env cap
      | none => ⟨[], none, .waits .probe⟩

/-- A probe that did not run says that the host cannot detach. -/
def unprobed (error : Option String) : JobHostCapability where
  root := none
  launcher := none
  base64 := false
  ok := false
  reason := some (error.getD "the server did not answer the capability probe")

/-- How the executor goes on from a wait. -/
def Await.goOn (cap : Option JobHostCapability) : Await → Reply → Option Turned
  | .probe, .probed cap => some (detach deps req env cap)
  | .probe, .failed error => some (detach deps req env (unprobed error))
  | .launch handle, .launched none =>
    some ((watch req env cap handle).after
      [.state { state := some .detached, detached := some (some handle) }])
  | .launch _, .launched (some error) =>
    some ⟨[], cap, .returns { ok := false, error := some error }⟩
  | .launch _, .failed error =>
    some ⟨[], cap, .returns
      { ok := false, error := some (error.getD "the launch command did not complete") }⟩
  | .park w, .woke => some (w.next env cap)
  | .sleep w, .woke => some ⟨[], cap, .waits (.poll w)⟩
  | .poll w, .polled p => some (w.polled deps req env cap p)
  | .poll w, .failed error => some (w.pollFailed deps req env cap error)
  | .poll w, .threw message => some (w.pollFailed deps req env cap (some message))
  | .reap w after, .reaped => some (w.reaped cap after)
  | .reap w after, .failed _ => some (w.reaped cap after)
  | .reap w after, .threw _ => some (w.reaped cap after)
  | .verify w rc isForeign, .verified v => some (w.verified cap rc isForeign v)
  | .verify w rc isForeign, .failed _ =>
    some (w.verified cap rc isForeign
      { ok := false
        reason := "The server answered again but the post-reboot check produced nothing this " ++
          "build understands." })
  | .signal w, .signalled isUnverified => some (w.answered req env cap isUnverified)
  | .signal w, .failed _ => some (w.answered req env cap false)
  | .attached, .exited code => some ⟨[], cap, .returns { ok := true, code := code }⟩
  | .attached, .failed error => some ⟨[], cap, .returns { ok := false, error := error }⟩
  | .probe, .threw message => some ⟨[], cap, .throws message⟩
  | .launch _, .threw message => some ⟨[], cap, .throws message⟩
  | .verify _ _ _, .threw message => some ⟨[], cap, .throws message⟩
  | .signal _, .threw message => some ⟨[], cap, .throws message⟩
  | _, _ => none

end Exec

end OpsMaxx.Jobs
