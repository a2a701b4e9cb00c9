import OpsMaxx.Jobs.Output
import OpsMaxx.Jobs.Runner

/-!
# Following the output of a detached step

One host of a job: its row, what is stored of its output, the `out` files of its marker directories,
and the call of `runOne` this process is in, with the executor that polls an `out` file. A poll
takes the bytes past the cursor, and the cursor is written to the row. Between any two waits the
runner can be disposed and the process restarted, and the row be adopted or reclaimed.
-/

set_option autoImplicit false

namespace OpsMaxx.Jobs

/-! ## One poll -/

/-- How many bytes the character that begins with `b` has. -/
def utf8Need (b : UInt8) : Nat :=
  if b ≥ 0xf0 then 4 else if b ≥ 0xe0 then 3 else if b ≥ 0xc0 then 2 else 1

/-- Walks back over the bytes of a buffer, the last one first. -/
def incompleteBack : List UInt8 → Nat → Nat
  | [], _ => 0
  | b :: before, back =>
    if 3 < back then 0
    else if b &&& 0xc0 = 0x80 then incompleteBack before (back + 1)
    else if utf8Need b > back then back
    else 0

/-- How many bytes at the end begin a character and do not end it. -/
def incompleteUtf8Tail (buf : List UInt8) : Nat := incompleteBack buf.reverse 1

/-- What a poll brought: how far the cursor may move, the text, the bytes it was decoded from, and
the bytes that wait for the next poll. -/
structure JobPollBody where
  sent : Nat
  text : Text
  decoded : List UInt8
  carry : List UInt8

/-- `body` is what arrived of the `announced` bytes. Without base64 the transport has decoded it. -/
def parseJobPoll (decode : List UInt8 → Text) (base64 : Bool) (carry : List UInt8)
    (announced : Nat) (body : List UInt8) : JobPollBody :=
  if base64 then
    let joined := carry ++ body
    let whole := joined.length - incompleteUtf8Tail joined
    { sent := min announced body.length
      text := decode (joined.take whole)
      decoded := joined.take whole
      carry := joined.drop whole }
  else
    { sent := min announced (byteLength (decode body))
      text := decode body
      decoded := body
      carry := [] }

/-! ## The state -/

structure FollowDeps extends JobRunnerDeps where
  decode : List UInt8 → Text
  redact : Text → Text

/-- The executor, polling one marker directory. -/
structure Watch where
  handle : JobDetachedHandle
  carry : List UInt8

/-- `runOne` for the host. A call that was disposed owns the job no more. -/
structure HostCall where
  host : HostRun
  out : HostOutput
  watch : Option Watch
  owned : Bool

/-- What the executor gave to `onOutput`: what it decoded of an `out` file, or a text. -/
inductive Heard
  | polled (bytes : List UInt8)
  | told (stream : Stream) (text : Text)

def Heard.bytes : Heard → List UInt8
  | .polled bytes => bytes
  | .told _ _ => []

def Heard.text (decode : List UInt8 → Text) (stream : Stream) : Heard → Text
  | .polled bytes => if stream = .out then decode bytes else []
  | .told s text => if stream = s then text else []

/-- `files` are the `out` files by marker directory. `moved` remembers the bytes that the cursor on
the row moved past, with `marks` how far it got in each directory, `heard` what was given to
`pushOutput` while the call owned the job, `notices` the bytes of the notices about elided output,
and `capped` what executors cut from their own output. -/
structure Host where
  clock : Nat
  row : JobHostRow
  output : List JobOutputLine
  files : String → List UInt8
  run : Option HostCall
  marks : String → Nat
  moved : List UInt8
  heard : List Heard
  notices : Nat
  capped : Nat

def stepNotice (index total : Nat) (command : String) : Text :=
  ("\n… step " ++ toString index ++ " of " ++ toString total ++ ": " ++ command ++ " …\n").toList

def HostOutput.totals (out : HostOutput) : OutputTotals where
  bytes := out.bytes
  elided := out.elided
  clsOut := String.ofList out.clsOut
  clsErr := String.ofList out.clsErr

/-- The output of a host that starts, or that goes on from what its row and the store hold. -/
def HostOutput.fresh (seq bytes elided : Nat) : HostOutput where
  seq := seq
  bytes := bytes
  elided := elided
  headBytes := min bytes JOB_OUTPUT_HEAD
  tail := []
  tailBytes := 0
  carry := fun _ => []
  clsOut := []
  clsErr := []

namespace Host
variable (req : JobRunRequest) (deps : FollowDeps)

/-- The cursor on the row is at `handle` now. -/
def mark (h : Host) : Option JobDetachedHandle → Host
  | none => h
  | some handle =>
    { h with
      moved := h.moved ++ ((h.files handle.dir).drop (h.marks handle.dir)).take
        (handle.readOffset - h.marks handle.dir)
      marks := fun dir =>
        if dir = handle.dir then max (h.marks dir) handle.readOffset else h.marks dir }

def writeRow (h : Host) (p : JobTargetPatch) : Host :=
  { h with row := h.row.patch p }.mark (h.row.patch p).detached

/-- A chunk of output, for the call that owns the job. -/
def tell (stream : Stream) (text : Text) (final : Bool) (h : Host) : Host :=
  match h.run with
  | none => h
  | some c =>
    if c.owned then
      let pushed := c.out.pushOutput deps.redact stream text final h.clock
      { h with
        run := some { c with out := pushed.1 }
        output := appendJobOutput h.output pushed.2
        heard := h.heard ++ [.told stream text] }
    else h

def flushTail (h : Host) : Host :=
  match h.run with
  | none => h
  | some c =>
    if c.owned then
      { h with
        run := some { c with out := (c.out.flushTail h.clock).1 }
        output := appendJobOutput h.output (c.out.flushTail h.clock).2
        notices := h.notices + c.out.noticeBytes }
    else { h with run := some { c with out := { c.out with tail := [], tailBytes := 0 } } }

/-- The end of `runOne`: what is held back is written, and then the row. -/
def endRun (h : Host) (e : StepsEnd) : Host :=
  let h := (h.tell deps .out [] true |>.tell deps .err [] true).flushTail
  match h.run with
  | none => h
  | some c =>
    let p :=
      if c.owned then e.terminalPatch deps.scrub c.host.handle c.out.totals h.clock
      else disposedPatch c.host.handle c.out.totals h.clock
    { h.writeRow p with run := none }

/-- The head of the loop over the steps, for the step of `c`. -/
def enter (h : Host) (c : HostCall) : Host :=
  let h := { h with run := some c }
  if 1 < req.steps.length then
    h.tell deps .err
      (stepNotice c.host.stepIndex req.steps.length (World.commandAt req c.host.stepIndex)) false
  else h

/-- `runOne` from its entry, for a host that starts or is reclaimed. -/
def runOne (h : Host) (c : HostCall) : Host :=
  if c.host.stepIndex ≤ req.steps.length then h.enter req deps c
  else
    { h with run := some c }.endRun deps
      { failure := none, result := none, stepIndex := req.steps.length
        totalSteps := req.steps.length, stepCommand := "" }

def target (h : Host) : JobTarget := ⟨h.row.serverId, h.row.serverName, none⟩

def start (h : Host) : Option Host :=
  if h.run.isNone ∧ h.row.state = .pending then
    some <| (h.writeRow { state := some .running, startedAt := some (some h.clock) }).runOne req deps
      { host := { target := h.target, handle := none, stepIndex := 1, result := none }
        out := .fresh 0 0 0
        watch := none
        owned := true }
  else none

def reclaim (h : Host) : Option Host :=
  match h.row.detached with
  | none => none
  | some handle =>
    if h.run.isNone ∧ isJobHostLive h.row.state then
      some <| h.runOne req deps
        { host :=
            { target := h.target, handle := some handle, stepIndex := max 1 handle.step
              result := none }
          out := .fresh h.output.length h.row.outOffset h.row.outElided
          watch := some ⟨handle, []⟩
          owned := true }
    else none

def adopt (h : Host) : Option Host :=
  if h.run.isNone ∧ reclaimable h.row = false then
    some { h with row := World.closed h.clock World.notReached h.row }
  else none

/-! ### The executor -/

/-- The launch took, in a directory nothing was read of: the handle is written before the first
poll. -/
def launched (h : Host) (handle : JobDetachedHandle) : Option Host :=
  match h.run with
  | none => none
  | some c =>
    if c.watch.isNone ∧ handle.readOffset = 0 ∧ h.marks handle.dir = 0 then
      let c :=
        { c with host := { c.host with handle := some handle }, watch := some ⟨handle, []⟩ }
      let h := { h with run := some c }
      some <|
        if c.owned then h.writeRow { state := some .detached, detached := some (some handle) }
        else h
    else none

/-- The executor's handle after a poll, with the boot id it may have read in the output. -/
def polledHandle (x : Watch) (body : JobPollBody) (boot : Option String) : JobDetachedHandle :=
  { x.handle with
    readOffset := x.handle.readOffset + body.sent
    bootIdBefore := if body.text = [] then x.handle.bootIdBefore else boot.or x.handle.bootIdBefore }

/-- A poll is answered with `arrived` of the `announced` bytes past the cursor. -/
def poll (h : Host) (announced arrived : Nat) (boot : Option String) : Option Host :=
  match h.run with
  | none => none
  | some c =>
    match c.watch with
    | none => none
    | some x =>
      let unread := (h.files x.handle.dir).drop x.handle.readOffset
      if arrived ≤ announced ∧ announced ≤ unread.length then
        let body :=
          parseJobPoll deps.decode x.handle.base64 x.carry announced (unread.take arrived)
        if body.sent = 0 then
          some { h with run := some { c with watch := some ⟨x.handle, body.carry⟩ } }
        else
          let handle := polledHandle x body boot
          let pushed :=
            if c.owned ∧ body.text ≠ [] then
              c.out.pushOutput deps.redact .out body.text false h.clock
            else (c.out, [])
          let h :=
            { h with
              run := some
                { c with
                  host := { c.host with handle := some handle }
                  out := pushed.1
                  watch := some ⟨handle, body.carry⟩ }
              output := appendJobOutput h.output pushed.2
              heard := if c.owned then h.heard ++ [.polled body.decoded] else h.heard }
          some (if c.owned then h.writeRow { detached := some (some handle) } else h)
      else none

/-- Any other word of the executor on the row: a state of a host that runs, or that the launch
never took. -/
def update (h : Host) (u : World.JobExecUpdate) : Option Host :=
  match h.run with
  | none => none
  | some c =>
    if u.state.all (· ∈ [.running, .detached, .rebooting, .foreign]) ∧
        (u.detached = none ∨ u.detached = some none) then
      let c :=
        { c with
          host := { c.host with handle := u.detached.getD c.host.handle }
          watch := if u.detached = none then c.watch else none }
      let h := { h with run := some c }
      some (if c.owned then h.writeRow u.patch else h)
    else none

def tellText (stream : Stream) (text : String) (h : Host) : Host :=
  if text = "" then h else h.tell deps stream text.toList false

/-- What an executor returns is the output too, and how much of it was cut. -/
def deliver (r : JobExecResult) (h : Host) : Host :=
  let h := (h.tellText deps .out r.stdout).tellText deps .err r.stderr
  match h.run with
  | none => h
  | some c =>
    { h with
      run := some { c with out := { c.out with elided := c.out.elided + r.elided } }
      capped := h.capped + r.elided }

/-- The executor hands back its own handle, or none, or leaves that open. A host is orphaned, or its
command handed back to a call that does not own the job any more, or its state is left open. -/
def returnable (c : HostCall) (r : JobExecResult) : Bool :=
  (match r.detachedHandle with
    | some (some handle) => c.watch.map Watch.handle = some handle
    | _ => true) &&
  match r.finalState with
  | none => true
  | some state => state = .orphaned || (state = .detached && !c.owned)

def goOn (h : Host) (next : HostRun ⊕ StepsEnd) : Host :=
  match h.run with
  | none => h
  | some c =>
    match next with
    | .inl host => h.enter req deps { c with host := host, watch := none }
    | .inr e => h.endRun deps e

def settle (h : Host) (s : World.Settled) : Option Host :=
  match h.run with
  | none => none
  | some c =>
    let next := World.settled req c.owned c.host s
    match s with
    | .fulfilled r => if returnable c r then some ((h.deliver deps r).goOn req deps next) else none
    | _ => some (h.goOn req deps next)

/-! ### From outside -/

def disposeAll (h : Host) : Host :=
  match h.run with
  | none => h
  | some c => { h with run := some { c with owned := false } }

/-- What the process held is gone with it. -/
def restart (h : Host) : Host := { h with run := none }

def grow (h : Host) (dir : String) (bytes : List UInt8) : Host :=
  { h with files := fun d => if d = dir then h.files d ++ bytes else h.files d }

end Host

/-! ## The machine -/

inductive HostMove
  | tick (ms : Nat)
  | grow (dir : String) (bytes : List UInt8)
  | start
  | launched (handle : JobDetachedHandle)
  | poll (announced arrived : Nat) (boot : Option String)
  | update (u : World.JobExecUpdate)
  | tell (stream : Stream) (text : Text)
  | settle (s : World.Settled)
  | disposeAll
  | restart
  | adopt
  | reclaim

def Host.step (req : JobRunRequest) (deps : FollowDeps) (h : Host) : HostMove → Option Host
  | .tick ms => some { h with clock := h.clock + ms }
  | .grow dir bytes => some (h.grow dir bytes)
  | .start => h.start req deps
  | .launched handle => h.launched handle
  | .poll announced arrived boot => h.poll deps announced arrived boot
  | .update u => h.update u
  | .tell stream text => some (h.tell deps stream text false)
  | .settle s => h.settle req deps s
  | .disposeAll => some h.disposeAll
  | .restart => some h.restart
  | .adopt => h.adopt
  | .reclaim => h.reclaim req deps

/-- The host's row as it was created, with nothing stored yet. -/
def Host.created (target : JobTarget) (files : String → List UInt8) (clock : Nat) : Host where
  clock := clock
  row := target.row 0
  output := []
  files := files
  run := none
  marks := fun _ => 0
  moved := []
  heard := []
  notices := 0
  capped := 0

end OpsMaxx.Jobs
