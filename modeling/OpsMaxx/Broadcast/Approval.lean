import Mathlib.Data.Rat.Lemmas
import OpsMaxx.Jobs.Rows
import OpsMaxx.Store.JsMap

/-!
# The approval record

What a human was asked before a run and what they answered, kept with the run, and the check that
what is about to run is still what was approved.
-/

set_option autoImplicit false

namespace OpsMaxx.Broadcast

open OpsMaxx.Jobs (isSpace)
open OpsMaxx.Store (JsMap)

/-! ## Risk and confirmation -/

inductive BroadcastRisk
  | ordinary
  | elevated
  | destructive
  deriving DecidableEq

def BroadcastRisk.text : BroadcastRisk → String
  | .ordinary => "ordinary"
  | .elevated => "elevated"
  | .destructive => "destructive"

inductive BroadcastConfirmation
  | none
  | confirm
  | typeToConfirm (phrase : String)
  deriving DecidableEq

def BroadcastConfirmation.kind : BroadcastConfirmation → String
  | .none => "none"
  | .confirm => "confirm"
  | .typeToConfirm _ => "type-to-confirm"

structure RiskAssessment where
  risk : BroadcastRisk
  reasons : List String

def CONFIRM_ABOVE_HOSTS : Nat := 1

def TYPE_ABOVE_HOSTS : Nat := 5

def confirmationFor (risk : BroadcastRisk) (hostCount : Nat) : BroadcastConfirmation :=
  if hostCount = 0 then .confirm
  else if risk = .destructive then .typeToConfirm "RUN"
  else if risk = .elevated ∧ TYPE_ABOVE_HOSTS < hostCount then .typeToConfirm "RUN"
  else if TYPE_ABOVE_HOSTS < hostCount then .typeToConfirm "RUN"
  else if risk = .elevated ∨ CONFIRM_ABOVE_HOSTS < hostCount then .confirm
  else .none

/-! ## The record -/

structure ApprovalTargetRef where
  serverId : String
  serverName : String
  cohort : Option String := none
  deriving DecidableEq

/-- The wave a server runs in. -/
def ApprovalTargetRef.wave (t : ApprovalTargetRef) : String := t.cohort.getD ""

inductive ApprovalSurface
  | broadcast
  | job
  | k8sExec
  | access
  | k8s
  | dbStatement
  deriving DecidableEq

/-- `confirmedAt` is `none` where the number is not finite. -/
structure CommandApproval where
  v : Nat
  surface : ApprovalSurface
  commands : List String
  targets : List ApprovalTargetRef
  risk : BroadcastRisk
  confirmation : BroadcastConfirmation
  phrase : Option String
  confirmedAt : Option ℚ
  gate : Option String
  deriving DecidableEq

inductive ApprovalVerdict
  | ok
  | refused (reason : String)
  deriving DecidableEq

/-- What the types of the record leave open. -/
def isCommandApproval (a : CommandApproval) : Bool := a.v = 1 ∧ a.confirmedAt.any (0 < ·)

def approvalFor (surface : ApprovalSurface) (commands : List String)
    (targets : List ApprovalTargetRef) (risk : BroadcastRisk) (confirmation : BroadcastConfirmation)
    (phrase : Option String) (confirmedAt : Option ℚ) (gate : Option String) : CommandApproval where
  v := 1
  surface := surface
  commands := commands
  targets := targets
  risk := risk
  confirmation := confirmation
  phrase := phrase
  confirmedAt := confirmedAt
  gate := gate

/-! ## Texts -/

/-- `s.replace(/\s+/g, ' ')`. -/
def collapse : List Char → List Char
  | [] => []
  | c :: cs =>
    if isSpace c then
      match collapse cs with
      | ' ' :: rest => ' ' :: rest
      | rest => ' ' :: rest
    else c :: collapse cs

def units (c : Char) : Nat := if c.toNat < 0x10000 then 1 else 2

/-- The first `n` UTF-16 units. A pair cut in half shows as the replacement character. -/
def sliceUnits : Nat → List Char → List Char
  | 0, _ => []
  | _, [] => []
  | 1, c :: _ => if units c = 1 then [c] else ['\uFFFD']
  | n + 2, c :: cs => c :: sliceUnits (n + 2 - units c) cs
  termination_by _ cs => cs.length

def snippet (s : String) : String :=
  let one := ((collapse s.toList).dropWhile isSpace).reverse.dropWhile isSpace |>.reverse
  if (one.map units).sum ≤ 60 then String.ofList one
  else String.ofList (sliceUnits 57 one) ++ "…"

def NO_USABLE_APPROVAL : String :=
  "no usable approval record came with this run. Nothing runs on a confirmation that was " ++
    "never written down — re-open the panel and confirm it again."

/-! ## The check -/

def sameConfirmation (a b : BroadcastConfirmation) : Bool :=
  if a.kind ≠ b.kind then false
  else match a, b with
    | .typeToConfirm p, .typeToConfirm q => p = q
    | _, _ => true

/-- The first step whose text is no longer the one approved. -/
def editedStep (i : Nat) : List String → List String → Option String
  | approved :: as, actual :: bs =>
    if approved ≠ actual then
      some ("step " ++ toString (i + 1) ++ " was approved as `" ++ snippet approved ++
        "` and is now `" ++ snippet actual ++ "`. An edited command needs a fresh confirmation.")
    else editedStep (i + 1) as bs
  | _, _ => none

/-- The servers approved, each with the wave of its last entry. -/
def approvedWaves (targets : List ApprovalTargetRef) : JsMap String String :=
  JsMap.ofList (targets.map fun t => (t.serverId, t.wave))

def addedTargets (approved : JsMap String String) (targets : List ApprovalTargetRef) :
    List ApprovalTargetRef :=
  targets.filter fun t => !approved.has t.serverId

/-- The first server that is in another wave now. -/
def movedTarget (approved : JsMap String String) (targets : List ApprovalTargetRef) :
    Option String :=
  targets.findSome? fun t =>
    match approved.get t.serverId with
    | some cohort =>
      if cohort ≠ t.wave then
        some (t.serverName ++ " was confirmed in wave \"" ++
          (if cohort = "" then "all at once" else cohort) ++ "\" and is now in \"" ++
          t.cohort.getD "all at once" ++
          "\". Moving a server between waves changes how many run at " ++
          "once, which is what the confirmation was sized against.")
      else none
    | none => none

/-- `none` is a value that does not have the fields of a record. -/
def verifyApproval (approval : Option CommandApproval) (commands : List String)
    (targets : List ApprovalTargetRef) (risk : BroadcastRisk)
    (confirmation : BroadcastConfirmation) : ApprovalVerdict :=
  match approval with
  | none => .refused NO_USABLE_APPROVAL
  | some approval =>
    if !isCommandApproval approval then .refused NO_USABLE_APPROVAL
    else if approval.commands.length ≠ commands.length then
      .refused ("the approval covers " ++ toString approval.commands.length ++
        " step(s) and this run has " ++ toString commands.length ++ ". Confirm it again.")
    else match editedStep 0 approval.commands commands with
    | some reason => .refused reason
    | none =>
      let approved := approvedWaves approval.targets
      let added := addedTargets approved targets
      if added ≠ [] then
        .refused (", ".intercalate (added.map (·.serverName)) ++
          (if added.length = 1 then " was" else " were") ++
          " not in the target list that was confirmed. A server added after the fact runs on " ++
          "nobody’s approval.")
      else match movedTarget approved targets with
      | some reason => .refused reason
      | none =>
        if approval.risk ≠ risk then
          .refused ("this was approved as `" ++ approval.risk.text ++ "` and now classifies as `" ++
            risk.text ++ "`. The record is held to the stricter reading, so it needs " ++
            "confirming again.")
        else if !sameConfirmation approval.confirmation confirmation then
          .refused ("this was approved with a `" ++ approval.confirmation.kind ++
            "` step and now requires `" ++ confirmation.kind ++ "`. Confirm it again.")
        else match approval.confirmation with
        | .typeToConfirm phrase =>
          if approval.phrase ≠ some phrase then
            .refused ("this needed the word " ++ phrase ++ " typed, and the record " ++
              (if approval.phrase = none then "has no typed phrase at all"
                else "has a different one") ++ ".")
          else .ok
        | _ => .ok

/-! ## What an accepted run is -/

theorem sameConfirmation_iff (a b : BroadcastConfirmation) :
    sameConfirmation a b = true ↔ a = b := by
  unfold sameConfirmation
  cases a <;> cases b <;> simp [BroadcastConfirmation.kind]

theorem editedStep_none {as bs : List String} {i : Nat} (hlength : as.length = bs.length)
    (h : editedStep i as bs = none) : as = bs := by
  induction as generalizing bs i with
  | nil => exact (List.eq_nil_of_length_eq_zero hlength.symm).symm
  | cons a as ih =>
    cases bs with
    | nil => cases hlength
    | cons b bs =>
      unfold editedStep at h
      split_ifs at h with hab
      rw [not_not.mp hab, ih (Nat.succ.inj hlength) h]

theorem addedTargets_nil {approved : JsMap String String} {targets : List ApprovalTargetRef}
    (h : addedTargets approved targets = []) {t : ApprovalTargetRef} (ht : t ∈ targets) :
    approved.has t.serverId = true := by
  have hnot := List.filter_eq_nil_iff.mp h t ht
  rwa [Bool.not_eq_true', Bool.not_eq_false] at hnot

theorem movedTarget_none {approved : JsMap String String} {targets : List ApprovalTargetRef}
    (h : movedTarget approved targets = none) {t : ApprovalTargetRef} (ht : t ∈ targets)
    {cohort : String} (hcohort : approved.get t.serverId = some cohort) : cohort = t.wave := by
  have hnone := List.findSome?_eq_none_iff.mp h t ht
  rw [hcohort] at hnone
  dsimp only at hnone
  split_ifs at hnone with hmoved
  exact not_not.mp hmoved

theorem ite_refused {p : Prop} [Decidable p] {reason : String} {verdict : ApprovalVerdict} :
    (if p then .refused reason else verdict) = ApprovalVerdict.ok ↔ ¬p ∧ verdict = .ok := by
  by_cases hp : p
  · simp [hp]
  · simp [hp]

/-- What an accepted run and its record have in common. -/
structure Accepted (approval : CommandApproval) (commands : List String)
    (targets : List ApprovalTargetRef) (risk : BroadcastRisk)
    (confirmation : BroadcastConfirmation) : Prop where
  steps : approval.commands = commands
  waves : ∀ t ∈ targets, (approvedWaves approval.targets).get t.serverId = some t.wave
  rated : approval.risk = risk
  asked : approval.confirmation = confirmation
  typed : ∀ phrase : String, confirmation = .typeToConfirm phrase → approval.phrase = some phrase

theorem verifyApproval_ok {approval : CommandApproval} {commands : List String}
    {targets : List ApprovalTargetRef} {risk : BroadcastRisk} {confirmation : BroadcastConfirmation}
    (h : verifyApproval (some approval) commands targets risk confirmation = .ok) :
    Accepted approval commands targets risk confirmation := by
  unfold verifyApproval at h
  dsimp only at h
  obtain ⟨-, h⟩ := ite_refused.mp h
  obtain ⟨hlength, h⟩ := ite_refused.mp h
  cases hedited : editedStep 0 approval.commands commands with
  | some reason =>
    rw [hedited] at h
    cases h
  | none =>
    rw [hedited] at h
    obtain ⟨hadded, h⟩ := ite_refused.mp h
    cases hmoved : movedTarget (approvedWaves approval.targets) targets with
    | some reason =>
      rw [hmoved] at h
      cases h
    | none =>
      rw [hmoved] at h
      obtain ⟨hrisk, h⟩ := ite_refused.mp h
      obtain ⟨hsame, h⟩ := ite_refused.mp h
      rw [Bool.not_eq_true', Bool.not_eq_false, sameConfirmation_iff] at hsame
      refine ⟨editedStep_none (not_not.mp hlength) hedited, fun t ht => ?_, not_not.mp hrisk, hsame,
        fun phrase hphrase => ?_⟩
      · obtain ⟨cohort, hcohort⟩ :=
          Option.isSome_iff_exists.mp (addedTargets_nil (not_not.mp hadded) ht)
        rw [hcohort, movedTarget_none hmoved ht hcohort]
      · rw [hsame, hphrase] at h
        obtain ⟨htyped, -⟩ := ite_refused.mp h
        exact not_not.mp htyped

end OpsMaxx.Broadcast
