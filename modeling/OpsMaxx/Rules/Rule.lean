import OpsMaxx.Json.Text
import Mathlib.Data.Rat.Floor

/-!
# Rules

On event, matching filter, run action, with a rate limit. What the clauses are, when a stored alert
matches them, and what a rule has to look like to be kept in the file.
-/

set_option autoImplicit false

namespace OpsMaxx.Rules

open OpsMaxx

/-! ## Alerts -/

inductive StoreAlertKind
  | cpu | ram | disk | inode | load | «cert-expiry» | «vpn-cert-expiry» | «error-rate»
  | «host-unreachable» | «job-failed» | «tunnel-down» | «oom-kill» | «backup-failed» | «vpn-down»
  | «vpn-degraded» | «pod-crashloop» | «service-down» | «db-alarm» | «db-watch»
  deriving DecidableEq

inductive StoredAlertEvent
  | raised | resolved | snoozed | acknowledged | «stood-down»
  deriving DecidableEq

/-- A row of the alert log, with the time the store keeps it under. -/
structure StoredAlertRow where
  event : StoredAlertEvent
  kind : StoreAlertKind
  serverId : String
  serverName : String
  value : Option ℚ
  threshold : Option ℚ
  time : Int
  deriving DecidableEq

/-- Whether the wire knows a kind under the same name: all of them but `ram`. -/
def isRuleAlertKind (k : StoreAlertKind) : Bool := k ≠ .ram

def StoreAlertKind.text : StoreAlertKind → String
  | .cpu => "cpu" | .ram => "ram" | .disk => "disk" | .inode => "inode" | .load => "load"
  | .«cert-expiry» => "cert-expiry" | .«vpn-cert-expiry» => "vpn-cert-expiry"
  | .«error-rate» => "error-rate" | .«host-unreachable» => "host-unreachable"
  | .«job-failed» => "job-failed" | .«tunnel-down» => "tunnel-down" | .«oom-kill» => "oom-kill"
  | .«backup-failed» => "backup-failed" | .«vpn-down» => "vpn-down"
  | .«vpn-degraded» => "vpn-degraded" | .«pod-crashloop» => "pod-crashloop"
  | .«service-down» => "service-down" | .«db-alarm» => "db-alarm" | .«db-watch» => "db-watch"

inductive RuleTriggerEvent
  | raised | resolved
  deriving DecidableEq

def RuleTriggerEvent.stored : RuleTriggerEvent → StoredAlertEvent
  | .raised => .raised
  | .resolved => .resolved

def RuleTriggerEvent.text : RuleTriggerEvent → String
  | .raised => "raised"
  | .resolved => "resolved"

/-! ## The rate limit -/

structure RuleLimit where
  maxFirings : Nat
  windowMs : Nat
  deriving DecidableEq

def RULE_LIMIT_DEFAULT : RuleLimit := ⟨1, 3600000⟩
def RULE_LIMIT_MIN_WINDOW_MS : Nat := 60000
def RULE_LIMIT_MAX_WINDOW_MS : Nat := 7 * 86400000
def RULE_LIMIT_MAX_FIRINGS : Nat := 60

/-- `none` is what is not a finite number. -/
def clampRuleLimit (maxFirings windowMs : Option ℚ) : RuleLimit where
  maxFirings := match maxFirings with
    | some n => max 1 (min RULE_LIMIT_MAX_FIRINGS ⌊n⌋.toNat)
    | none => RULE_LIMIT_DEFAULT.maxFirings
  windowMs := match windowMs with
    | some n => max RULE_LIMIT_MIN_WINDOW_MS (min RULE_LIMIT_MAX_WINDOW_MS ⌊n⌋.toNat)
    | none => RULE_LIMIT_DEFAULT.windowMs

structure RuleLimitVerdict where
  allowed : Bool
  fired : List Int
  nextAllowedAt : Option Int
  deriving DecidableEq

def checkRuleLimit (fired : List Int) (now : Int) (limit : RuleLimit) : RuleLimitVerdict :=
  let recent := (fired.filter fun t => now - t < limit.windowMs).mergeSort
  if recent.length ≥ limit.maxFirings then
    ⟨false, recent, recent.head?.map (· + limit.windowMs)⟩
  else ⟨true, recent ++ [now], none⟩

/-! ## A rule -/

structure RuleFilter where
  serverId : Option String
  minValue : Option ℚ
  deriving DecidableEq

structure JobSpec where
  title : String
  steps : List String
  deriving DecidableEq

structure JobTargetRef where
  serverId : String
  serverName : String
  cohort : Option String
  deriving DecidableEq

inductive RuleAction
  | job (spec : JobSpec) (targets : List JobTargetRef) (approval : Json)
  | notify

structure Rule where
  id : String
  name : String
  enabled : Bool
  kind : StoreAlertKind
  event : RuleTriggerEvent
  filter : RuleFilter
  action : RuleAction
  limit : RuleLimit
  armedAt : Int
  unattendedAt : Int

structure RuleStatus where
  fired : List Int
  lastFiredAt : Option Int
  suppressed : Nat
  refusal : Option String
  refusedAt : Option Int
  deriving DecidableEq

def emptyStatus : RuleStatus := ⟨[], none, 0, none, none⟩

def ruleMatches (rule : Rule) (row : StoredAlertRow) : Bool :=
  if rule.enabled = false then false
  else if ¬ row.time > rule.armedAt then false
  else if row.kind ≠ rule.kind then false
  else if row.event ≠ rule.event.stored then false
  else if rule.filter.serverId ≠ none ∧ rule.filter.serverId ≠ some row.serverId then false
  else
    match rule.filter.minValue, row.value with
    | none, _ => true
    | some _, none => false
    | some minValue, some value => ¬ value < minValue

/-! ## The authorisation -/

/-- Whether a record still covers a job: `none`, or the reason it does not. -/
class Approval where
  verifyJobApproval : Json → JobSpec → List JobTargetRef → Option String

def RULE_UNATTENDED_PHRASE : String := "UNATTENDED"

def isText (v : Option Json) (text : String) : Bool :=
  match v with
  | some (.str s) => s = text
  | _ => false

def isLegacyRulePhrase (approval : Json) : Bool :=
  isText (approval.get? "phrase") RULE_UNATTENDED_PHRASE &&
  match approval.get? "confirmation" with
  | some confirmation =>
    isText (confirmation.get? "kind") "type-to-confirm" &&
      !isText (confirmation.get? "phrase") RULE_UNATTENDED_PHRASE
  | none => false

def LEGACY_REASON : String :=
  "this rule was created before a fix to how rule approvals were recorded, so its " ++
  "approval can no longer be checked. Nothing has run on it. Delete it and create it " ++
  "again to arm it."

/-- `none` where the rule may act. -/
def verifyRuleAction [Approval] (rule : Rule) : Option String :=
  match rule.action with
  | .notify => none
  | .job spec targets approval =>
    match Approval.verifyJobApproval approval spec targets with
    | none => none
    | some reason => if isLegacyRulePhrase approval then some LEGACY_REASON else some reason

/-! ## What the endpoint is told -/

inductive RuleOutcome
  | notified | «job-started» | «job-refused»
  deriving DecidableEq

def OUTCOME_WORDS : RuleOutcome → String
  | .notified => "matched"
  | .«job-started» => "started"
  | .«job-refused» => "refused to start"

structure RuleNotice where
  kind : StoreAlertKind
  server : String
  summary : String
  value : Option ℚ
  threshold : Option ℚ
  deriving DecidableEq

def ruleNotice (rule : Rule) (row : StoredAlertRow) (outcome : RuleOutcome) : RuleNotice :=
  let what := match rule.action with
    | .job spec targets _ => OUTCOME_WORDS outcome ++ " the job \"" ++ spec.title ++ "\" on " ++
        toString targets.length ++ " server(s)"
    | .notify => OUTCOME_WORDS outcome
  { kind := rule.kind
    server := row.serverName
    summary := "OpsMaxx rule \"" ++ rule.name ++ "\" " ++ what ++ " after a " ++ rule.kind.text ++
      " alert " ++ rule.event.text ++ "."
    value := row.value
    threshold := row.threshold }

/-! ## The file -/

def MAX_NAME : Nat := 120
def MAX_RULES : Nat := 200

def sliceChars : Nat → List Char → List Char
  | _, [] => []
  | n, c :: cs =>
    let units := if c.toNat < 0x10000 then 1 else 2
    if units ≤ n then c :: sliceChars (n - units) cs else []

/-- The first `n` code units. A character the cut goes through is left out. -/
def slice (s : String) (n : Nat) : String := String.ofList (sliceChars n s.toList)

def sanitiseAction : RuleAction → Option RuleAction
  | .notify => some .notify
  | .job spec targets approval =>
    if targets = [] ∨ spec.steps = [] ∨ "" ∈ spec.steps ∨ "" ∈ targets.map JobTargetRef.serverId
    then none
    else some (.job spec
      (targets.map fun t => { t with serverName := slice t.serverName MAX_NAME }) approval)

def sanitiseFilter (filter : RuleFilter) : RuleFilter where
  serverId := match filter.serverId with
    | some serverId => if serverId = "" then none else some (slice serverId MAX_NAME)
    | none => none
  minValue := filter.minValue

def sanitiseRule (r : Rule) : Option Rule :=
  if r.id = "" ∨ isRuleAlertKind r.kind = false then none
  else
    (sanitiseAction r.action).map fun action =>
      { r with
        id := slice r.id MAX_NAME
        name := slice r.name MAX_NAME
        filter := sanitiseFilter r.filter
        action := action
        limit := clampRuleLimit (some r.limit.maxFirings) (some r.limit.windowMs) }

/-- Adds what survives, unless its id was seen. -/
def addSanitised (out : List Rule) (r : Rule) : List Rule :=
  match sanitiseRule r with
  | none => out
  | some rule => if rule.id ∈ out.map Rule.id then out else out ++ [rule]

def sanitiseRules (rules : List Rule) : List Rule := (rules.take MAX_RULES).foldl addSanitised []

end OpsMaxx.Rules
