import OpsMaxx.Json.Text
import OpsMaxx.Store.JsMap
import Mathlib.Data.Rat.Floor

/-!
# The approval queue

What an agent asks and an operator has not answered yet. An entry is in `pending` exactly as long as
the request can be answered. Instants are milliseconds, in place of the dates the code prints.
-/

set_option autoImplicit false

namespace OpsMaxx.Approvals

open OpsMaxx OpsMaxx.Store

/-! ## Requests -/

inductive ApprovalScope
  | once | session
  deriving DecidableEq

/-- How a request ends. -/
inductive Outcome
  | approved | denied | timeout | disconnected
  deriving DecidableEq

/-- Why a request is not asked. -/
inductive Refusal
  | refused | «refused-withdrawn»
  deriving DecidableEq

inductive ApprovalDecision
  | ended (o : Outcome)
  | «approved-for-session»
  | notAsked (r : Refusal)
  deriving DecidableEq

structure ContentPreview where
  text : String
  omittedChars : Nat
  omittedLines : Nat
  deriving DecidableEq

/-- What makes the texts an operator reads out of the ones an agent sends. -/
class Wording where
  sanitizeAgentIntent : Option String → Option String
  remoteText : String → Nat → String
  redactOutput : String → List String → String
  contentPreview : String → ContentPreview

structure WriteContent where
  content : String
  knownSecrets : List String

structure CreateApprovalInput where
  sessionId : String
  capability : String
  workspaceId : String
  serverId : Option String
  serverName : Option String
  action : String
  riskReason : String
  intent : Option String
  containment : Option Bool
  sessionGrant : Option String
  writeContent : Option WriteContent

structure ApprovalRequest where
  id : String
  createdAt : Nat
  /-- `none` while it is pending. -/
  status : Option Outcome
  sessionId : String
  capability : String
  workspaceId : String
  serverId : Option String
  serverName : Option String
  action : String
  riskReason : String
  intent : Option String
  sessionGrant : Option String
  contentPreview : Option ContentPreview
  deadlineAt : Option Nat
  resolvedAt : Option Nat
  grantedScope : Option ApprovalScope
  deriving DecidableEq

structure Entry where
  request : ApprovalRequest
  timer : Option Nat
  unseen : Option Nat
  extendedSeconds : Int
  subject : String
  containment : Bool
  deriving DecidableEq

/-- A timeout that has neither fired nor been cleared, and the request it ends. -/
structure Timer where
  handle : Nat
  owner : String
  due : Nat
  deriving DecidableEq

/-- A call of `resolve`: when, the entry it was kept in, and what with. -/
structure Resolution where
  id : String
  time : Nat
  entry : Entry
  decision : ApprovalDecision
  deriving DecidableEq

structure Queue where
  pending : JsMap String Entry
  /-- subject -> when the cooldown expires. -/
  recentDenials : JsMap String Nat
  /-- session -> when each of its requests was withdrawn. -/
  withdrawals : JsMap String (List Nat)
  recent : List ApprovalRequest
  timers : List Timer
  nextTimer : Nat
  /-- What has been resolved, oldest first. -/
  resolved : List Resolution
  /-- The seconds `extendApproval` granted, oldest first. -/
  granted : List (String × Int)

def Queue.start : Queue := ⟨.empty, .empty, .empty, [], [], 0, [], []⟩

def MAX_PENDING_PER_SESSION : Nat := 3
def DENY_COOLDOWN_MS : Nat := 30000
def WITHDRAWAL_WINDOW_MS : Nat := 60000
def MAX_WITHDRAWALS_PER_WINDOW : Nat := 3
def UNSEEN_MAX_MS : Nat := 30 * 60000
def RECENT_MAX : Nat := 20
def ACTION_MAX_CHARS : Nat := 4000
def NAME_MAX_CHARS : Nat := 200
def EXTENSION_CEILING_SECONDS : Int := 15 * 60
def EXTENSION_MAX_PER_CALL_SECONDS : Int := 10 * 60

def subjectKey (i : CreateApprovalInput) : String :=
  i.sessionId ++ "\u0000" ++ i.capability ++ "\u0000" ++
    (match i.serverId with
      | none => "workspace\u0000" ++ i.workspaceId
      | some server => "server\u0000" ++ server) ++
    "\u0000" ++ (if i.containment = some true then "stop" else "start")

/-! ## Timers -/

def Queue.setTimeout (s : Queue) (owner : String) (due : Nat) : Nat × Queue :=
  (s.nextTimer, { s with timers := s.timers ++ [⟨s.nextTimer, owner, due⟩],
                         nextTimer := s.nextTimer + 1 })

def Queue.clearTimeout (s : Queue) (handle : Option Nat) : Queue :=
  { s with timers := s.timers.filter fun t => some t.handle ≠ handle }

/-! ## What is not asked -/

/-- How many requests of a session and class are waiting. -/
def Queue.live (s : Queue) (sessionId : String) (containment : Bool) : Nat :=
  s.pending.values.countP fun e =>
    e.request.sessionId = sessionId ∧ e.containment = containment

/-- When the cooldown of a subject ends. -/
def Queue.deniedUntil (s : Queue) (subject : String) : Nat := (s.recentDenials.get subject).getD 0

/-- The withdrawals of a session inside the window that ends at `now`. -/
def Queue.withdrawnSince (s : Queue) (now : Nat) (sessionId : String) : List Nat :=
  ((s.withdrawals.get sessionId).getD []).filter fun t => now < t + WITHDRAWAL_WINDOW_MS

def Queue.pruneDenials (s : Queue) (now : Nat) : Queue :=
  { s with recentDenials := s.recentDenials.filter fun _ expires => now < expires }

def Queue.keepWithdrawals (s : Queue) (sessionId : String) (withdrawn : List Nat) : Queue :=
  { s with withdrawals :=
    if withdrawn.length > 0 then s.withdrawals.set sessionId withdrawn
    else s.withdrawals.delete sessionId }

def refusal (now : Nat) (input : CreateApprovalInput) (s : Queue) : Option Refusal × Queue :=
  let s := s.pruneDenials now
  if now < s.deniedUntil (subjectKey input) then (some .refused, s)
  else
    let withdrawn := s.withdrawnSince now input.sessionId
    let s := s.keepWithdrawals input.sessionId withdrawn
    if withdrawn.length ≥ MAX_WITHDRAWALS_PER_WINDOW ∧ input.containment ≠ some true then
      (some .«refused-withdrawn», s)
    else if s.live input.sessionId (input.containment = some true) ≥ MAX_PENDING_PER_SESSION then
      (some .refused, s)
    else (none, s)

def wouldRefuse (now : Nat) (input : CreateApprovalInput) (s : Queue) : Bool × Queue :=
  ((refusal now input s).1.isSome, (refusal now input s).2)

/-! ## Asking -/

section Asking
variable [Wording]

def newRequest (now : Nat) (id : String) (input : CreateApprovalInput) : ApprovalRequest where
  id := id
  createdAt := now
  status := none
  sessionId := input.sessionId
  capability := input.capability
  workspaceId := input.workspaceId
  serverId := input.serverId
  serverName := input.serverName.map fun name =>
    let shown := Wording.remoteText name NAME_MAX_CHARS
    if shown = "" then "(unnamed)" else shown
  action := Wording.remoteText input.action ACTION_MAX_CHARS
  riskReason := Wording.remoteText input.riskReason ACTION_MAX_CHARS
  intent := Wording.sanitizeAgentIntent input.intent
  sessionGrant := input.sessionGrant
  contentPreview := input.writeContent.map fun w =>
    Wording.contentPreview (Wording.redactOutput w.content w.knownSecrets)
  deadlineAt := none
  resolvedAt := none
  grantedScope := none

/-- As far as the event that says it was created. `id` is what `randomBytes` gave. -/
def requestApproval (now : Nat) (id : String) (input : CreateApprovalInput) (s : Queue) :
    Option Refusal × Queue :=
  match refusal now input s with
  | (some why, s) => (some why, s)
  | (none, s) =>
    let (unseen, s) := s.setTimeout id (now + UNSEEN_MAX_MS)
    let entry : Entry := ⟨newRequest now id input, none, some unseen, 0, subjectKey input,
      input.containment = some true⟩
    (none, { s with pending := s.pending.set id entry })

end Asking

/-! ## Ending -/

/-- Whether an answer covers the session: an approval with that scope, of a request that offered
it. -/
def forSession (e : Entry) (decision : Outcome) (scope : ApprovalScope) : Bool :=
  decision = .approved ∧ scope = .session ∧ e.request.sessionGrant.isSome

def endedRequest (now : Nat) (e : Entry) (decision : Outcome) (scope : ApprovalScope) :
    ApprovalRequest :=
  { e.request with
    status := some decision
    resolvedAt := some now
    grantedScope :=
      if decision = .approved then some (if forSession e decision scope then .session else .once)
      else e.request.grantedScope
    contentPreview := none }

def finish (now : Nat) (id : String) (decision : Outcome) (scope : ApprovalScope) (s : Queue) :
    Queue :=
  match s.pending.get id with
  | none => s
  | some entry =>
    let s := (s.clearTimeout entry.timer).clearTimeout entry.unseen
    { s with
      pending := s.pending.delete id
      recent := (endedRequest now entry decision scope :: s.recent).take RECENT_MAX
      recentDenials :=
        if decision = .denied then s.recentDenials.set entry.subject (now + DENY_COOLDOWN_MS)
        else s.recentDenials
      withdrawals :=
        if decision = .disconnected then
          s.withdrawals.set entry.request.sessionId
            ((s.withdrawals.get entry.request.sessionId).getD [] ++ [now])
        else s.withdrawals
      resolved := s.resolved ++ [⟨id, now, entry,
        if forSession entry decision scope then .«approved-for-session» else .ended decision⟩] }

/-- The rest of `requestApproval`: a signal that is aborted already ends the request. -/
def heedSignal (now : Nat) (id : String) (aborted : Bool) (s : Queue) : Queue :=
  if aborted then finish now id .disconnected .once s else s

/-- Whatever the renderer sent, read as `session` only if it is that string. -/
def readScope : Option Json → ApprovalScope
  | some (.str scope) => if scope = "session" then .session else .once
  | _ => .once

def respondToApproval (now : Nat) (id decision : String) (scope : Option Json) (s : Queue) :
    Bool × Queue :=
  if s.pending.has id = false then (false, s)
  else (true,
    finish now id (if decision = "approved" then .approved else .denied) (readScope scope) s)

/-! ## The fuse -/

def armApproval (now : Nat) (timeoutSeconds : Nat) (id : String) (s : Queue) : Bool × Queue :=
  match s.pending.get id with
  | none => (false, s)
  | some entry =>
    if entry.timer.isSome then (false, s)
    else
      let timeoutMs := timeoutSeconds * 1000
      let (timer, s) := (s.clearTimeout entry.unseen).setTimeout id (now + timeoutMs)
      let entry := { entry with
        unseen := none
        timer := some timer
        request := { entry.request with deadlineAt := some (now + timeoutMs) } }
      (true, { s with pending := s.pending.set id entry })

/-- `seconds` is `none` where it is not a finite number. -/
def extendApproval (now : Nat) (id : String) (seconds : Option ℚ) (s : Queue) : Bool × Queue :=
  match s.pending.get id with
  | none => (false, s)
  | some entry =>
    match entry.timer, seconds with
    | none, _ => (false, s)
    | some _, none => (false, s)
    | some timer, some seconds =>
      if seconds ≤ 0 then (false, s)
      else
        let grant := min ⌊seconds⌋ (min EXTENSION_MAX_PER_CALL_SECONDS
          (EXTENSION_CEILING_SECONDS - entry.extendedSeconds))
        if grant ≤ 0 then (false, s)
        else
          let standing := match entry.request.deadlineAt with
            | none => now
            | some standing => max standing now
          let deadline := standing + grant.toNat * 1000
          let (timer, s) := (s.clearTimeout timer).setTimeout id deadline
          let entry := { entry with
            extendedSeconds := entry.extendedSeconds + grant
            timer := some timer
            request := { entry.request with deadlineAt := some deadline } }
          (true, { s with
            pending := s.pending.set id entry
            granted := s.granted ++ [(id, grant)] })

/-! ## Denying what is pending -/

/-- The ids `denyPendingForSession` goes on to finish. -/
def pendingOf (sessionId : String) (s : Queue) : List String :=
  (s.pending.entries.filter fun e => e.2.request.sessionId = sessionId).map Prod.fst

end OpsMaxx.Approvals

/-!
## Histories of the approval queue

Every function of the queue calls its listeners before it returns, and a listener may call any of
them again. A frame is what is left of a call whose event is being listened to: the check of the
signal, or the ids of a loop not reached yet.
-/

namespace OpsMaxx.Approvals

open OpsMaxx OpsMaxx.Store

/-! ## One change -/

/-- What runs between two events: a call, or a turn of one that loops. -/
inductive Op
  | request (id : String) (input : CreateApprovalInput)
  | wouldRefuse (input : CreateApprovalInput)
  | signal (id : String) (aborted : Bool)
  | arm (id : String) (timeoutSeconds : Nat)
  | extend (id : String) (seconds : Option ℚ)
  | respond (id decision : String) (scope : Option Json)
  | fire (t : Timer)
  | abort (id : String)
  | deny (id : String)

/-- The request an operation names. -/
def Op.names : Op → Option String
  | .request _ _ | .wouldRefuse _ | .fire _ => none
  | .signal id _ | .arm id _ | .extend id _ | .respond id _ _ | .abort id | .deny id => some id

section Histories
variable [Wording]

/-- What an operation returns, `false` where it returns nothing, and what it leaves. -/
def Op.run (now : Nat) : Op → Queue → Bool × Queue
  | .request id input, q => (false, (requestApproval now id input q).2)
  | .wouldRefuse input, q => Approvals.wouldRefuse now input q
  | .signal id aborted, q => (false, heedSignal now id aborted q)
  | .arm id timeoutSeconds, q => armApproval now timeoutSeconds id q
  | .extend id seconds, q => extendApproval now id seconds q
  | .respond id decision scope, q => respondToApproval now id decision scope q
  | .fire t, q => (false, finish now t.owner .timeout .once (q.clearTimeout (some t.handle)))
  | .abort id, q => (false, finish now id .disconnected .once q)
  | .deny id, q => (false, finish now id .denied .once q)

/-- An id no request has had. -/
def Fresh (id : String) (q : Queue) : Prop :=
  q.pending.get id = none ∧ id ∉ q.resolved.map Resolution.id

/-! ## Calls within calls -/

inductive Frame
  | signal (id : String) (aborted : Bool)
  | denying (ids : List String)
  | arming (seen : List String)

structure Main where
  queue : Queue
  stack : List Frame

def Main.start : Main := ⟨.start, []⟩

/-- What is called from outside, and does all it does before its event. -/
def Op.IsCall (q : Queue) : Op → Prop
  | .wouldRefuse _ | .arm _ _ | .extend _ _ | .respond _ _ _ | .abort _ => True
  | .fire t => t ∈ q.timers
  | _ => False

/-- The next id of a loop over the map: the first it has not been at. -/
def nextUnseen (seen : List String) (q : Queue) : Option String :=
  q.pending.keys.find? fun id => id ∉ seen

inductive Turn (now : Nat) : Main → Option Op → Main → Prop
  | request {q : Queue} {stack : List Frame} (id : String) (input : CreateApprovalInput)
      (aborted : Bool) (hfresh : Fresh id q) :
      Turn now ⟨q, stack⟩ (some (.request id input))
        ⟨(requestApproval now id input q).2,
          if (requestApproval now id input q).1.isSome then stack else .signal id aborted :: stack⟩
  | signal {q : Queue} {stack : List Frame} (id : String) (aborted : Bool) :
      Turn now ⟨q, .signal id aborted :: stack⟩ (some (.signal id aborted))
        ⟨heedSignal now id aborted q, stack⟩
  | call {q : Queue} {stack : List Frame} (op : Op) (hop : op.IsCall q) :
      Turn now ⟨q, stack⟩ (some op) ⟨(op.run now q).2, stack⟩
  | denyPendingForSession {q : Queue} {stack : List Frame} (sessionId : String) :
      Turn now ⟨q, stack⟩ none ⟨q, .denying (pendingOf sessionId q) :: stack⟩
  | denyAllPending {q : Queue} {stack : List Frame} :
      Turn now ⟨q, stack⟩ none ⟨q, .denying q.pending.keys :: stack⟩
  | deny {q : Queue} {stack : List Frame} (id : String) (ids : List String) :
      Turn now ⟨q, .denying (id :: ids) :: stack⟩ (some (.deny id))
        ⟨finish now id .denied .once q, .denying ids :: stack⟩
  | denied {q : Queue} {stack : List Frame} : Turn now ⟨q, .denying [] :: stack⟩ none ⟨q, stack⟩
  | armAllPendingApprovals {q : Queue} {stack : List Frame} :
      Turn now ⟨q, stack⟩ none ⟨q, .arming [] :: stack⟩
  | armNext {q : Queue} {stack : List Frame} {seen : List String} {id : String}
      (timeoutSeconds : Nat) (hnext : nextUnseen seen q = some id) :
      Turn now ⟨q, .arming seen :: stack⟩ (some (.arm id timeoutSeconds))
        ⟨(armApproval now timeoutSeconds id q).2, .arming (id :: seen) :: stack⟩
  | armed {q : Queue} {stack : List Frame} {seen : List String} (hnext : nextUnseen seen q = none) :
      Turn now ⟨q, .arming seen :: stack⟩ none ⟨q, stack⟩

/-- What has run, oldest first, each with the clock at the time. -/
abbrev History := List (Nat × Op)

inductive Run : Main → History → Main → Prop
  | refl (m : Main) : Run m [] m
  | op {m m' m'' : Main} {h : History} {now : Nat} {op : Op} (hrun : Run m h m')
      (hturn : Turn now m' (some op) m'') : Run m (h ++ [(now, op)]) m''
  | silent {m m' m'' : Main} {h : History} {now : Nat} (hrun : Run m h m')
      (hturn : Turn now m' none m'') : Run m h m''

/-! ## What a run does to the queue -/

/-- What an operation needs of the queue it runs on. -/
def Op.Allowed (q : Queue) : Op → Prop
  | .request id _ => Fresh id q
  | .fire t => t ∈ q.timers
  | _ => True

theorem Turn.queue {now : Nat} {m m' : Main} {op : Op} (h : Turn now m (some op) m') :
    op.Allowed m.queue ∧ m'.queue = (op.run now m.queue).2 := by
  cases h with
  | request id input aborted hfresh => exact ⟨hfresh, rfl⟩
  | call op hop => exact ⟨by cases op <;> simp_all [Op.IsCall, Op.Allowed], rfl⟩
  | _ => exact ⟨trivial, rfl⟩

theorem Turn.queue_silent {now : Nat} {m m' : Main} (h : Turn now m none m') :
    m'.queue = m.queue := by
  cases h <;> rfl

/-- An invariant of the queue, with what has happened so far. -/
theorem Run.invariant {I : History → Queue → Prop} {m m' : Main} {h : History} (hrun : Run m h m')
    (hstart : I [] m.queue)
    (hstep : ∀ h q now op, I h q → op.Allowed q → I (h ++ [(now, op)]) (op.run now q).2) :
    I h m'.queue := by
  induction hrun with
  | refl => exact hstart
  | op _ hturn ih =>
    obtain ⟨hallowed, hq⟩ := hturn.queue
    rw [hq]
    exact hstep _ _ _ _ ih hallowed
  | silent _ hturn ih =>
    rw [hturn.queue_silent]
    exact ih

theorem Run.trans {m m' m'' : Main} {h h' : History} (hrun : Run m h m') (hrun' : Run m' h' m'') :
    Run m (h ++ h') m'' := by
  induction hrun' with
  | refl => rwa [List.append_nil]
  | op _ hturn ih =>
    rw [← List.append_assoc]
    exact .op ih hturn
  | silent _ hturn ih => exact .silent ih hturn

end Histories

end OpsMaxx.Approvals
