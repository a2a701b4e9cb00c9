import OpsMaxx.Alerts.Memory
import OpsMaxx.Machine.Run
import OpsMaxx.Strings.Words

/-!
# When an alert is said

A reading, a state signal, an event, and what a person does about an alert: what each changes in
the memory of its key, and what it says on the desktop, to the endpoint and in the log.
-/

set_option autoImplicit false

namespace OpsMaxx.Alerts

/-! ## What is said -/

inductive AlertEvent
  | raised
  | resolved
  deriving DecidableEq

structure Notification where
  key : AlertKey
  name : String
  value : Option ℚ
  threshold : Option ℚ
  detail : String
  mins : Int
  tripped : Bool
  deriving DecidableEq

/-- `crossing` and `worsened` are not sent: they are why it was said. -/
structure AlertPayload where
  event : AlertEvent
  key : AlertKey
  server : String
  detail : String
  sentAt : Int
  value : Option ℚ
  threshold : Option ℚ
  minutes : Option Int
  damped : Bool
  crossing : Bool
  worsened : Bool
  deriving DecidableEq

inductive StoredAlertEventName
  | raised
  | resolved
  | «stood-down»
  | snoozed
  | acknowledged
  deriving DecidableEq

structure StoredAlertRow where
  event : StoredAlertEventName
  kind : AlertKind
  serverId : String
  serverName : String
  value : Option ℚ
  threshold : Option ℚ
  detail : Option String
  ends : Option Int
  storedAt : Int
  deriving DecidableEq

/-- `off` is where alerts were switched off. -/
inductive Said
  | desktop (n : Notification)
  | posted (p : AlertPayload)
  | recorded (row : StoredAlertRow)
  | off
  deriving DecidableEq

/-- An empty detail is left out of the row. -/
def detailOf (detail : String) : Option String := if detail = "" then none else some detail

namespace Memory

/-! ## A reading -/

/-- The all-clear, where the endpoint holds an alarm of ours. -/
def allClear (serverId serverName : String) (kind : NumericAlertKind) (value threshold : ℚ)
    (now : Int) (m : Memory) : Memory × List Said :=
  if m.announced.isSome then
    ({ m with announced := none },
      [.recorded ⟨.resolved, .numeric kind, serverId, serverName, some (fmt value), some threshold,
          none, none, now⟩,
        .posted ⟨.resolved, .key serverId (.numeric kind), serverName, "", now, some (fmt value),
          some threshold, none, false, false, false⟩])
  else (m, [])

/-- The condition is over, and with it an acknowledgement of it. -/
def noteClear (m : Memory) : Memory :=
  { m with active := none, conditionHeld := false, conditionSeen := none, acknowledged := false }

def noteClearReading (now : Int) (m : Memory) : Memory :=
  { m.noteClear with breach := none, recovered := noteRun m.recovered now }

/-- `evaluate` for a reading that is not over the line. -/
def clearReading (serverId serverName : String) (kind : NumericAlertKind) (value threshold : ℚ)
    (now : Int) (m : Memory) : Memory × List Said :=
  let (quiet, m) := (m.noteClearReading now).isQuiet now
  if quiet then (m, [])
  else if dwellMet m.recovered kind now = false then (m, [])
  else
    let (m, said) := m.allClear serverId serverName kind value threshold now
    if isRecovered kind value (clearLine kind threshold) then
      ({ m with lastNotifiedValue := none }, said)
    else (m, said)

/-- The whole minutes a chip has been up, from half a minute on. -/
def minutesUp (existing : Option ActiveAlert) (now : Int) : Int :=
  match existing with
  | some chip => (now - chip.since + 30000) / 60000
  | none => 0

/-- An acknowledged alert keeps no chip. -/
def showChip (name : String) (detail : Option String) (now : Int) (m : Memory) : Memory :=
  if m.acknowledged then m
  else
    { m with active := some ⟨name, (m.active.map ActiveAlert.since).getD now, detail⟩ }

def noteBadReading (name : String) (now : Int) (m : Memory) : Memory :=
  { m.showChip name none now with recovered := none, breach := noteRun m.breach now }

/-- The condition is seen to hold. A crossing while damped keeps the damp alive. -/
def noteHeld (crossing : Bool) (now : Int) (m : Memory) : Memory :=
  { if crossing then ({ m with conditionHeld := true }).refreshDamp now else m with
    conditionSeen := some now }

/-- What a raise changes and says, once it has been decided. -/
def raiseReading (serverId serverName : String) (kind : NumericAlertKind) (value threshold : ℚ)
    (now mins : Int) (crossing worsened : Bool) (m : Memory) : Memory × List Said :=
  let (tripped, m) := if crossing then m.noteCrossing now else (false, m)
  ({ m with
      lastNotified := some now
      lastNotifiedValue := some value
      announced := some serverName },
    [.recorded ⟨.raised, .numeric kind, serverId, serverName, some (fmt value), some threshold, none,
        none, now⟩,
      .desktop ⟨.key serverId (.numeric kind), serverName, some value, some threshold, "", mins,
        tripped⟩,
      .posted ⟨.raised, .key serverId (.numeric kind), serverName, "", now, some (fmt value),
        some threshold, if mins ≥ 1 then some mins else none, tripped, crossing, worsened⟩])

/-- `evaluate` for a reading over the line. -/
def badReading (serverId serverName : String) (kind : NumericAlertKind) (value threshold : ℚ)
    (now : Int) (m : Memory) : Memory × List Said :=
  let mins := minutesUp m.active now
  let m := m.noteBadReading serverName now
  if dwellMet m.breach kind now = false then (m, [])
  else
    let crossing := !m.conditionHeld
    let m := m.noteHeld crossing now
    let last := m.lastNotified.getD 0
    let reRaised := m.lastNotifiedValue.isNone
    let worsened := m.lastNotifiedValue.any fun said => escalated kind value said
    let due := decide (now - last ≥ REPEAT kind)
    if !reRaised && !worsened && !due then (m, [])
    else if now - last < MIN_GAP kind then (m, [])
    else
      let (quiet, m) := if worsened then (false, m) else m.isQuiet now
      if quiet then (m, [])
      else m.raiseReading serverId serverName kind value threshold now mins crossing worsened

def evaluate (serverId serverName : String) (kind : NumericAlertKind) (value threshold : ℚ)
    (now : Int) (isOver : Bool) (m : Memory) : Memory × List Said :=
  if isOver then m.badReading serverId serverName kind value threshold now
  else m.clearReading serverId serverName kind value threshold now

/-! ## A state signal -/

def goodSignal (id who : String) (kind : StateAlertKind) (now : Int) (m : Memory) :
    Memory × List Said :=
  let (quiet, m) := m.noteClear.isQuiet now
  if quiet then (m, [])
  else if m.announced.isSome then
    ({ m with announced := none, lastNotified := some now },
      [.posted ⟨.resolved, .key id (.state kind), who, "", now, none, none, none, false, false,
          false⟩,
        .recorded ⟨.resolved, .state kind, id, who, none, none, none, none, now⟩])
  else (m, [])

def badSignal (id who : String) (kind : StateAlertKind) (what : String) (now : Int) (m : Memory) :
    Memory × List Said :=
  let m := m.showChip who (some what) now
  let crossing := !m.conditionHeld || m.holdIsStale now
  let m := m.noteHeld crossing now
  if crossing = false then (m, [])
  else
    let (quiet, m) := m.isQuiet now
    if quiet then (m, [])
    else
      let (tripped, m) := m.noteCrossing now
      ({ m with lastNotified := some now, announced := some who },
        [.desktop ⟨.key id (.state kind), who, none, none, what, 0, tripped⟩,
          .posted ⟨.raised, .key id (.state kind), who, what, now, none, none, none, tripped, true,
            false⟩,
          .recorded ⟨.raised, .state kind, id, who, none, none, detailOf what, none, now⟩])

/-- `checkStateAlert`, while alerts are on. `none` is what was not asked. -/
def checkStateAlert (id name : String) (kind : StateAlertKind) (bad : Option Bool) (detail : String)
    (now : Int) (m : Memory) : Memory × List Said :=
  match bad with
  | none => (m, [])
  | some false => m.goodSignal id (nameOr name "A server") kind now
  | some true => m.badSignal id (nameOr name "A server") kind (cleanName detail) now

/-! ## Something happened -/

/-- `noteAlertEvent`, for an occurrence that was not seen before. -/
def noteAlertEvent (id who : String) (kind : EventAlertKind) (what : String) (occurred : Int)
    (m : Memory) : Memory × List Said :=
  let (damped, m) := m.isDamped occurred
  if damped then ({ m with dampedUntil := some (occurred + FLAP_DAMP_MS) }, [])
  else
    let (tripped, m) := m.noteCrossing occurred
    (m,
      [.desktop ⟨.eventKey id kind what, who, none, none, what, 0, tripped⟩,
        .posted ⟨.raised, .eventKey id kind what, who, what, occurred, none, none, none, tripped,
          true, false⟩,
        .recorded ⟨.raised, .event kind, id, who, none, none, detailOf what, none, occurred⟩])

/-! ## What a person does -/

def chipName (m : Memory) : String := (m.active.map ActiveAlert.serverName).getD ""

def chipDetail (m : Memory) : Option String :=
  (m.active.bind ActiveAlert.detail).bind detailOf

def snoozeAlert (serverId : String) (kind : AlertKind) (ms now : Int) (m : Memory) :
    Memory × List Said :=
  ({ m with snoozedUntil := some (now + max 0 ms), acknowledged := false },
    [.recorded ⟨.snoozed, kind, serverId, m.chipName, none, none, m.chipDetail,
      some (now + max 0 ms), now⟩])

def unsnoozeAlert (serverId : String) (kind : AlertKind) (now : Int) (m : Memory) :
    Memory × List Said :=
  ({ m with snoozedUntil := none },
    [.recorded ⟨.snoozed, kind, serverId, m.chipName, none, none, m.chipDetail, some now, now⟩])

def acknowledgeAlert (serverId : String) (kind : AlertKind) (now : Int) (m : Memory) :
    Memory × List Said :=
  ({ m with acknowledged := true, snoozedUntil := none, active := none },
    [.recorded ⟨.acknowledged, kind, serverId, m.chipName, none, none, m.chipDetail, none, now⟩])

end Memory

/-!
## The alerts of an estate

All the keys together, the switch that turns alerts on and off, and the calls of the rest of the
app, each a list of smaller ones made at one time.
-/

open OpsMaxx.Machine

/-- `announcedKeys` is the order the map of announced alerts is walked in. -/
structure State where
  memory : AlertKey → Memory
  announcedKeys : List AlertKey
  seenEvents : List (String × EventAlertKind × String × Int)
  enabled : Bool
  clock : Int
  said : List Said

inductive Act
  | evaluate (serverId serverName : String) (kind : NumericAlertKind) (value threshold : ℚ)
      (isOver : Bool)
  | checkStateAlert (id name : String) (kind : StateAlertKind) (bad : Option Bool) (detail : String)
  | noteAlertEvent (id name : String) (kind : EventAlertKind) (detail : String) (occurred : Int)
  | snoozeAlert (serverId : String) (kind : AlertKind) (ms : Int)
  | unsnoozeAlert (serverId : String) (kind : AlertKind)
  | acknowledgeAlert (serverId : String) (kind : AlertKind)
  | setEnabled (enabled : Bool)

structure Move where
  now : Int
  act : Act

namespace State

def start (enabled : Bool) (clock : Int) : State where
  memory := fun _ => .fresh
  announcedKeys := []
  seenEvents := []
  enabled := enabled
  clock := clock
  said := []

/-- A key that is announced anew goes to the end. -/
def reorder (keys : List AlertKey) (k : AlertKey) (announced : Bool) : List AlertKey :=
  if announced then if k ∈ keys then keys else keys ++ [k] else keys.filter (· ≠ k)

/-- What is done under one key. -/
def under (s : State) (k : AlertKey) (f : Memory → Memory × List Said) : State :=
  { s with
    memory := Function.update s.memory k (f (s.memory k)).1
    announcedKeys := reorder s.announcedKeys k (f (s.memory k)).1.announced.isSome
    said := s.said ++ (f (s.memory k)).2 }

def standDown (s : State) (now : Int) (k : AlertKey) : List Said :=
  match k with
  | .key serverId kind =>
    [.recorded ⟨.«stood-down», kind, serverId, (s.memory k).announced.getD "", none, none, none, none,
      now⟩]
  | .eventKey _ _ _ => []

/-- Switching alerts off ends every conversation. -/
def switchOff (s : State) (now : Int) : State :=
  { s with
    memory := fun _ => .fresh
    announcedKeys := []
    enabled := false
    said := s.said ++ s.announcedKeys.flatMap (s.standDown now) ++ [.off] }

def act (s : State) (now : Int) : Act → State
  | .evaluate serverId serverName kind value threshold isOver =>
    if s.enabled then
      s.under (.key serverId (.numeric kind))
        (Memory.evaluate serverId serverName kind value threshold now isOver)
    else s
  | .checkStateAlert id name kind bad detail =>
    if s.enabled then
      s.under (.key id (.state kind)) (Memory.checkStateAlert id name kind bad detail now)
    else s
  | .noteAlertEvent id name kind detail occurred =>
    let what := cleanName detail
    if s.enabled = false then s
    else if (id, kind, what, occurred) ∈ s.seenEvents then s
    else
      { s.under (.eventKey id kind what)
          (Memory.noteAlertEvent id (nameOr name "A database") kind what occurred) with
        seenEvents := (id, kind, what, occurred) :: s.seenEvents }
  | .snoozeAlert serverId kind ms =>
    s.under (.key serverId kind) (Memory.snoozeAlert serverId kind ms now)
  | .unsnoozeAlert serverId kind =>
    s.under (.key serverId kind) (Memory.unsnoozeAlert serverId kind now)
  | .acknowledgeAlert serverId kind =>
    s.under (.key serverId kind) (Memory.acknowledgeAlert serverId kind now)
  | .setEnabled enabled =>
    if enabled then { s with enabled := true }
    else if s.enabled then s.switchOff now else s

end State

def step (s : State) (move : Move) : Option State :=
  some { s.act move.now move.act with clock := move.now }

/-- Times do not run backwards. -/
def InOrder (s : State) (move : Move) : Prop := s.clock ≤ move.now

end OpsMaxx.Alerts
