import OpsMaxx.Rules.Log
import OpsMaxx.Store.JsMap

/-!
# The rule engine

A file, a watermark into the alert log and a ledger for each rule. A sweep reads what is new and
walks the rules over it, row by row; it waits wherever a rule runs its job, and a call may come in
at any of its awaits.
-/

set_option autoImplicit false

namespace OpsMaxx.Rules

open OpsMaxx OpsMaxx.Store

/-! ## The state -/

structure RulesFile where
  watermark : Option EventCursor
  rules : List Rule
  status : List (String × RuleStatus)

/-- The rules are held by their ids, so that an array a sweep walks shares them with `this.rules`.
-/
structure RuleEngine where
  rules : List String
  objects : String → Option Rule
  status : JsMap String RuleStatus
  watermark : Option EventCursor

def sanitiseStatus (s : RuleStatus) : RuleStatus :=
  if s.refusal = some "" then { s with refusal := none } else s

namespace RuleEngine

def keepStatus (kept : List String) (m : JsMap String RuleStatus) (s : String × RuleStatus) :
    JsMap String RuleStatus :=
  if s.1 ∈ kept then m.set s.1 (sanitiseStatus s.2) else m

def ensureStatus (m : JsMap String RuleStatus) (id : String) : JsMap String RuleStatus :=
  if m.has id then m else m.set id emptyStatus

def load (file : RulesFile) : RuleEngine :=
  let rules := sanitiseRules file.rules
  let kept := rules.map Rule.id
  { rules := kept
    objects := fun id => rules.find? fun r => r.id = id
    status := kept.foldl ensureStatus (file.status.foldl (keepStatus kept) .empty)
    watermark := file.watermark }

def persist (e : RuleEngine) : RulesFile where
  watermark := e.watermark
  rules := e.rules.filterMap e.objects
  status := e.status.entries

def statusFor (e : RuleEngine) (id : String) : RuleStatus := (e.status.get id).getD emptyStatus

def setStatus (e : RuleEngine) (id : String) (s : RuleStatus) : RuleEngine :=
  { e with status := e.status.set id s }

def setObject (e : RuleEngine) (id : String) (rule : Rule) : RuleEngine :=
  { e with objects := fun i => if i = id then some rule else e.objects i }

/-! ## The calls -/

structure RuleView where
  rule : Rule
  status : RuleStatus
  verdict : Option String

def list [Approval] (e : RuleEngine) : List RuleView × RuleEngine :=
  let e := { e with status := e.rules.foldl ensureStatus e.status }
  ((e.rules.filterMap e.objects).map fun rule => ⟨rule, e.statusFor rule.id, verifyRuleAction rule⟩,
    e)

structure RuleDraft where
  name : String
  kind : StoreAlertKind
  event : RuleTriggerEvent
  filter : Option RuleFilter
  limit : Option ℚ × Option ℚ
  action : RuleAction
  unattended : Bool

def isJob : RuleAction → Bool
  | .job _ _ _ => true
  | .notify => false

def draftedRule (now : Int) (newId : String) (draft : RuleDraft) : Rule where
  id := newId
  name := slice draft.name 120
  enabled := true
  kind := draft.kind
  event := draft.event
  filter := draft.filter.getD ⟨none, none⟩
  action := draft.action
  limit := clampRuleLimit draft.limit.1 draft.limit.2
  armedAt := now
  unattendedAt := if isJob draft.action then now else 0

/-- The rule a draft becomes, if it would survive a restart. -/
def checkedRule (now : Int) (newId : String) (draft : RuleDraft) : Option Rule :=
  if isJob draft.action ∧ draft.unattended = false then none
  else (sanitiseRules [draftedRule now newId draft]).head?

def create (now : Int) (checked : Rule) (e : RuleEngine) : RuleEngine :=
  let e := if e.watermark = none then { e with watermark := some ⟨now, 0⟩ } else e
  { e.setObject checked.id checked with
    rules := e.rules ++ [checked.id]
    status := e.status.set checked.id emptyStatus }

/-- The rule after it is turned on or off, where there is one. -/
def setEnabled (now : Int) (id : String) (enabled : Bool) (e : RuleEngine) : Option RuleEngine :=
  if id ∈ e.rules then
    (e.objects id).map fun rule =>
      e.setObject id
        { rule with enabled := enabled, armedAt := if enabled then now else rule.armedAt }
  else none

def remove (id : String) (e : RuleEngine) : Option RuleEngine :=
  if id ∈ e.rules then
    some { e with rules := e.rules.filter (· ≠ id), status := e.status.delete id }
  else none

end RuleEngine

/-! ## What the world sees -/

structure RuleSweepResult where
  read : Nat
  fired : Nat
  suppressed : Nat
  refused : Nat
  skipped : Nat
  deriving DecidableEq

structure RuleJobLaunch where
  spec : JobSpec
  approval : Json
  targets : List JobTargetRef

inductive RulePayload
  | skipped (since oldestRead : Int) (read cap : Nat)
  | suppressed (ruleId name : String) (count : Nat)
  | refused (ruleId name reason : String)
  | notified (ruleId name : String) (kind : StoreAlertKind) (event : StoredAlertEvent)
  | started (ruleId name title : String) (hosts : Nat) (kind : StoreAlertKind)
      (event : StoredAlertEvent)
  deriving DecidableEq

def RULE_EVENT_FIRED : String := "rule-fired"
def RULE_EVENT_SUPPRESSED : String := "rule-suppressed"
def RULE_EVENT_REFUSED : String := "rule-refused"
def RULE_EVENT_SKIPPED : String := "rule-events-skipped"

/-- `fire` is a rule handed a row, `act` the limit letting it pass; the rest is what leaves the
engine, the calls that returned true, and the two ends of a sweep. -/
inductive Entry
  | fire (ruleId : String) (cursor : EventCursor)
  | act (ruleId : String) (cursor : EventCursor)
  | runJob (ruleId : String) (cursor : EventCursor) (launch : RuleJobLaunch)
  | notify (ruleId : String) (cursor : EventCursor) (notice : RuleNotice)
  | recordEvent (kind : String) (hostId : Option String) (payload : RulePayload) (stamp : Int)
  | created (ruleId : String)
  | enabled (ruleId : String)
  | disabled (ruleId : String)
  | removed (ruleId : String)
  | began
  | swept (result : RuleSweepResult)

/-! ## A firing -/

inductive FireOutcome
  | fired | refused | suppressed
  deriving DecidableEq

def refuse (rule : Rule) (r : FreshRow) (now : Int) (reason : String) (status : RuleStatus) :
    RuleStatus × List Entry :=
  ({ status with refusal := some reason, refusedAt := some now },
    [.recordEvent RULE_EVENT_REFUSED none (.refused rule.id rule.name reason) now,
      .notify rule.id r.cursor (ruleNotice rule r.row .«job-refused»)])

def RuleStatus.accepted (status : RuleStatus) : RuleStatus :=
  { status with refusal := none, refusedAt := none }

/-- The pinned servers that are gone, by the names they had. -/
def missingTargets (servers : List String) (targets : List JobTargetRef) : List String :=
  (targets.filter fun t => t.serverId ∉ servers).map fun t =>
    if t.serverName = "" then t.serverId else t.serverName

def missingReason (missing : List String) : String :=
  ", ".intercalate missing ++ " " ++ (if missing.length = 1 then "is" else "are") ++
    " no longer in this workspace. A rule runs on the server list it was confirmed against or it " ++
    "does not run."

/-- What a rule that passed its limit does: the outcome, or `none` once it waits for its job. -/
def proceed [Approval] (servers : List String) (rule : Rule) (r : FreshRow) (now : Int)
    (status : RuleStatus) : RuleStatus × List Entry × Option FireOutcome :=
  match verifyRuleAction rule with
  | some reason =>
    let (status, entries) := refuse rule r now reason status
    (status, entries, some .refused)
  | none =>
    match rule.action with
    | .notify =>
      (status.accepted,
        [.recordEvent RULE_EVENT_FIRED (some r.row.serverId)
            (.notified rule.id rule.name r.row.kind r.row.event) now,
          .notify rule.id r.cursor (ruleNotice rule r.row .notified)], some .fired)
    | .job spec targets approval =>
      let missing := missingTargets servers targets
      if missing ≠ [] then
        let (status, entries) := refuse rule r now (missingReason missing) status
        (status, entries, some .refused)
      else (status, [.runJob rule.id r.cursor ⟨spec, approval, targets⟩], none)

/-- `fire`, up to its end or to the job it waits for. -/
def fire [Approval] (servers : List String) (rule : Rule) (r : FreshRow) (now : Int)
    (status : RuleStatus) : RuleStatus × List Entry × Option FireOutcome :=
  let verdict := checkRuleLimit status.fired now rule.limit
  if verdict.allowed = false then
    ({ status with suppressed := status.suppressed + 1, fired := verdict.fired },
      [.fire rule.id r.cursor], some .suppressed)
  else
    let (status, entries, outcome) :=
      proceed servers rule r now { status with fired := verdict.fired, lastFiredAt := some now }
    (status, .fire rule.id r.cursor :: .act rule.id r.cursor :: entries, outcome)

def firedJob (rule : Rule) (r : FreshRow) : RulePayload :=
  match rule.action with
  | .job spec targets _ =>
    .started rule.id rule.name spec.title targets.length r.row.kind r.row.event
  | .notify => .notified rule.id rule.name r.row.kind r.row.event

/-- The rest of `fire`, when the job has settled. -/
def settle (rule : Rule) (r : FreshRow) (now : Int) (error : Option String) (status : RuleStatus) :
    RuleStatus × List Entry × FireOutcome :=
  match error with
  | some reason =>
    let (status, entries) := refuse rule r now reason status
    (status, entries, .refused)
  | none =>
    (status.accepted,
      [.recordEvent RULE_EVENT_FIRED (some r.row.serverId) (firedJob rule r) now,
        .notify rule.id r.cursor (ruleNotice rule r.row .«job-started»)], .fired)

/-! ## A sweep -/

/-- The row in hand and those after it, what is left of the array walked for it, and whether that
array still is `this.rules`. -/
structure Sweep where
  now : Int
  row : FreshRow
  later : List FreshRow
  todo : List String
  live : Bool
  acted : Bool
  suppressed : JsMap String Nat
  result : RuleSweepResult

def Sweep.opened (now : Int) (row : FreshRow) (later : List FreshRow) (todo : List String)
    (result : RuleSweepResult) : Sweep where
  now := now
  row := row
  later := later
  todo := todo
  live := true
  acted := false
  suppressed := .empty
  result := result

def Sweep.next (s : Sweep) (row : FreshRow) (later : List FreshRow) (todo : List String) : Sweep :=
  { s with row := row, later := later, todo := todo, live := true, acted := false }

def Sweep.count (s : Sweep) (id : String) : FireOutcome → Sweep
  | .fired => { s with
      acted := true, result := { s.result with fired := s.result.fired + 1 } }
  | .refused => { s with
      acted := true, result := { s.result with refused := s.result.refused + 1 } }
  | .suppressed => { s with
      suppressed := s.suppressed.set id ((s.suppressed.get id).getD 0 + 1)
      result := { s.result with suppressed := s.result.suppressed + 1 } }

inductive Phase
  | idle
  | walking (s : Sweep)
  | awaiting (s : Sweep) (ruleId : String)

def Phase.map (f : Sweep → Sweep) : Phase → Phase
  | .idle => .idle
  | .walking s => .walking (f s)
  | .awaiting s ruleId => .awaiting (f s) ruleId

/-- `storeOpen` is whether the history store has opened. -/
structure World where
  engine : RuleEngine
  phase : Phase
  file : RulesFile
  log : AlertLog
  storeOpen : Bool
  clock : Int
  trace : List (Int × Entry)

namespace World

def start (file : RulesFile) (log : AlertLog) (clock : Int) : World where
  engine := .load file
  phase := .idle
  file := file
  log := log
  storeOpen := false
  clock := clock
  trace := []

def say (w : World) (entries : List Entry) : World :=
  { w with trace := w.trace ++ entries.map fun e => (w.clock, e) }

/-- What every change of the engine ends with. -/
def save (w : World) (e : RuleEngine) : World := { w with engine := e, file := e.persist }

def mark (w : World) (cursor : EventCursor) : World :=
  w.save { w.engine with watermark := some cursor }

def beginRows (w : World) (now since : Int) (read : List FreshRow × Bool) : World :=
  match oldestFirst read.1 with
  | [] => w
  | row :: later =>
    let w := w.say (if read.2 then [.began] else
      [.began, .recordEvent RULE_EVENT_SKIPPED none
        (.skipped since row.cursor.ts read.1.length RULE_SWEEP_MAX_EVENTS) now])
    let result := ⟨read.1.length, 0, 0, 0, if read.2 then 0 else 1⟩
    { w with phase := .walking (.opened now row later w.engine.rules result) }

def noRows : RuleSweepResult := ⟨0, 0, 0, 0, 0⟩

def beginSweep (w : World) : World :=
  if w.storeOpen = false then w.say [.began, .swept noRows]
  else
    match w.engine.watermark with
    | none => (w.mark ⟨w.clock, 0⟩).say [.began, .swept noRows]
    | some watermark =>
      let since := max watermark.ts (w.clock - RULE_STALE_EVENT_MS)
      let read := readNew w.log watermark since
      if read.1 = [] then
        if read.2 then (w.mark ⟨max watermark.ts since, watermark.id⟩).say [.began, .swept noRows]
        else w.say [.began, .swept noRows]
      else w.beginRows w.clock since read

def suppressedRecord (w : World) (now : Int) (s : String × Nat) : Entry :=
  let name := match w.engine.objects s.1 with
    | some rule => if s.1 ∈ w.engine.rules then rule.name else ""
    | none => ""
  .recordEvent RULE_EVENT_SUPPRESSED none (.suppressed s.1 name s.2) now

/-- The row in hand is the newest of the sweep by then. -/
def finish (w : World) (s : Sweep) : World :=
  let w := (w.say (s.suppressed.entries.map (w.suppressedRecord s.now))).mark s.row.cursor
  { w with phase := .idle }.say [.swept s.result]

def endRow (w : World) (s : Sweep) : World :=
  let w := if s.acted then w.mark s.row.cursor else w
  match s.later with
  | [] => w.finish s
  | row :: later => { w with phase := .walking (s.next row later w.engine.rules) }

section Sweeping
variable [Approval]

def fireRule (w : World) (servers : List String) (s : Sweep) (id : String) (rule : Rule) : World :=
  let fired := fire servers rule s.row s.now (w.engine.statusFor id)
  { w.say fired.2.1 with
    engine := w.engine.setStatus id fired.1
    phase := match fired.2.2 with
      | some outcome => .walking (s.count id outcome)
      | none => .awaiting s id }

/-- One turn of the loop over the rules, or the end of the row. -/
def turn (w : World) (servers : List String) (s : Sweep) : World :=
  match s.todo with
  | [] => w.endRow s
  | id :: todo =>
    match w.engine.objects id with
    | some rule =>
      if ruleMatches rule s.row.row then w.fireRule servers { s with todo := todo } id rule
      else { w with phase := .walking { s with todo := todo } }
    | none => { w with phase := .walking { s with todo := todo } }

end Sweeping

/-- A status the map has lost is changed where nothing reads it. -/
def jobDone (w : World) (s : Sweep) (id : String) (rule : Rule) (error : Option String) : World :=
  let settled := settle rule s.row s.now error (w.engine.statusFor id)
  { w.say settled.2.1 with
    engine := if w.engine.status.has id then w.engine.setStatus id settled.1 else w.engine
    phase := .walking (s.count id settled.2.2) }

end World

/-! ## Runs -/

/-- `turn` is given the servers of the workspace, and `jobDone` how the job settled. -/
inductive Move
  | tick (clock : Int)
  | openStore
  | append (e : LogEvent)
  | sweep
  | turn (servers : List String)
  | jobDone (error : Option String)
  | create (draft : RuleEngine.RuleDraft) (newId : String)
  | setEnabled (id : String) (enabled : Bool)
  | remove (id : String)
  | list
  | crash

def Sweep.pushed (id : String) (s : Sweep) : Sweep :=
  if s.live then { s with todo := s.todo ++ [id] } else s

def Sweep.detached (s : Sweep) : Sweep := { s with live := false }

section Steps
variable [Approval]

/-- A new rule has an id no rule had. -/
def step (w : World) : Move → Option World
  | .tick clock => some { w with clock := clock }
  | .openStore => some { w with storeOpen := true }
  | .append e => (w.log.append e).map fun log => { w with log := log }
  | .sweep =>
    match w.phase with
    | .idle => some w.beginSweep
    | _ => some w
  | .turn servers =>
    match w.phase with
    | .walking s => some (w.turn servers s)
    | _ => none
  | .jobDone error =>
    match w.phase with
    | .awaiting s id => (w.engine.objects id).map fun rule => w.jobDone s id rule error
    | _ => none
  | .create draft newId =>
    match RuleEngine.checkedRule w.clock newId draft with
    | none => some w
    | some checked =>
      if w.engine.objects checked.id = none then
        some ({ w.save (w.engine.create w.clock checked) with
          phase := w.phase.map (Sweep.pushed checked.id) }.say [.created checked.id])
      else none
  | .setEnabled id enabled =>
    match w.engine.setEnabled w.clock id enabled with
    | none => some w
    | some e => some ((w.save e).say [if enabled then .enabled id else .disabled id])
  | .remove id =>
    match w.engine.remove id with
    | none => some w
    | some e =>
      some ({ w.save e with phase := w.phase.map Sweep.detached }.say [.removed id])
  | .list => some { w with engine := w.engine.list.2 }
  | .crash => some { w with engine := .load w.file, phase := .idle, storeOpen := false }

/-- Runs whose moves all meet a condition on the state they come in. -/
inductive Run (ok : World → Move → Prop) : World → List Move → World → Prop
  | refl (w : World) : Run ok w [] w
  | next {w w' w'' : World} {ms : List Move} {m : Move} (hrun : Run ok w ms w') (hok : ok w' m)
      (hstep : step w' m = some w'') : Run ok w (ms ++ [m]) w''

theorem Run.invariant {I : World → Prop} {ok : World → Move → Prop} {w w' : World} {ms : List Move}
    (hrun : Run ok w ms w') (hstart : I w)
    (hkeeps : ∀ v m v', I v → ok v m → step v m = some v' → I v') : I w' := by
  induction hrun with
  | refl => exact hstart
  | next _ hok hstep ih => exact hkeeps _ _ _ ih hok hstep

theorem Run.trans {ok : World → Move → Prop} {w w' w'' : World} {ms ns : List Move}
    (hrun : Run ok w ms w') (hrun' : Run ok w' ns w'') : Run ok w (ms ++ ns) w'' := by
  induction hrun' with
  | refl => rwa [List.append_nil]
  | next _ hok hstep ih =>
    rw [← List.append_assoc]
    exact .next ih hok hstep

theorem Run.mono {ok ok' : World → Move → Prop} {w w' : World} {ms : List Move}
    (hrun : Run ok w ms w') (himp : ∀ v m, ok v m → ok' v m) : Run ok' w ms w' := by
  induction hrun with
  | refl => exact .refl _
  | next _ hok hstep ih => exact .next ih (himp _ _ hok) hstep

/-- The end of a run, and whether its moves could be made and met the condition. -/
def play (ok : World → Move → Bool) : World → List Move → World × Bool
  | w, [] => (w, true)
  | w, m :: ms =>
    match step w m with
    | some w' => if ok w m then play ok w' ms else (w, false)
    | none => (w, false)

theorem Run.of_play (ok : World → Move → Bool) (w : World) (ms : List Move)
    (h : (play ok w ms).2 = true) : Run (fun v m => ok v m = true) w ms (play ok w ms).1 := by
  induction ms generalizing w with
  | nil => exact .refl w
  | cons m ms ih =>
    unfold play at h ⊢
    cases hstep : step w m with
    | none => simp [hstep] at h
    | some w' =>
      rw [hstep] at h
      by_cases hok : ok w m = true
      · simp only [hok, if_true] at h ⊢
        exact (Run.next (.refl w) hok hstep).trans (ih w' h)
      · simp [hok] at h

theorem step_of_play (ok : World → Move → Bool) (w : World) (m : Move)
    (h : (play ok w [m]).2 = true) : ok w m = true ∧ step w m = some (play ok w [m]).1 := by
  unfold play at h ⊢
  cases hstep : step w m with
  | none => simp [hstep] at h
  | some w' =>
    rw [hstep] at h
    by_cases hok : ok w m = true
    · simp [hok, play]
    · simp [hok] at h

end Steps

end OpsMaxx.Rules
