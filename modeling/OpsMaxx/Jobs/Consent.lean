import OpsMaxx.Broadcast.Approval
import OpsMaxx.Jobs.Runner

/-!
# What an approved job may run

The plan a job is confirmed by, the record that keeps it, and the check of a job against its record.
How dangerous a command reads is a parameter.
-/

set_option autoImplicit false

namespace OpsMaxx.Jobs

open OpsMaxx.Broadcast
open OpsMaxx.Store (JsMap)

/-! ## A job and its plan -/

inductive JobGate
  | none
  | health
  deriving DecidableEq

def JobGate.text : JobGate → String
  | .none => "none"
  | .health => "health"

structure JobSpec where
  steps : List JobStep
  gate : Option JobGate := none
  rollback : Option (List JobStep) := none
  deriving DecidableEq

abbrev JobTargetRef := ApprovalTargetRef

structure JobPlan where
  risk : BroadcastRisk
  confirmation : BroadcastConfirmation
  reasons : List String
  blastRadius : Nat
  totalHosts : Nat

def riskOrder : BroadcastRisk → Nat
  | .ordinary => 0
  | .elevated => 1
  | .destructive => 2

def RESTARTS_MACHINE : String := "a step in this job restarts the machine"

def addReason (reasons : List String) (why : String) : List String :=
  if why ∈ reasons then reasons else reasons ++ [why]

section Plan
variable (assessCommand : String → RiskAssessment)

/-- One step of a job: its text is graded, and a declared reboot is destructive. -/
def planStep (found : BroadcastRisk × List String) (step : JobStep) : BroadcastRisk × List String :=
  let a := assessCommand step.command
  let risk := if riskOrder found.1 < riskOrder a.risk then a.risk else found.1
  let reasons := a.reasons.foldl addReason found.2
  if step.reboot ∧ risk ≠ .destructive then (.destructive, addReason reasons RESTARTS_MACHINE)
  else (risk, reasons)

/-- The size of each wave. -/
def perCohort (targets : List JobTargetRef) : JsMap String Nat :=
  targets.foldl (fun m t => m.set t.wave ((m.get t.wave).getD 0 + 1)) JsMap.empty

def planJob (spec : JobSpec) (targets : List JobTargetRef) : JobPlan :=
  let found := spec.steps.foldl (planStep assessCommand) (.ordinary, [])
  let blastRadius := (perCohort targets).values.foldl max 0
  { risk := found.1, confirmation := confirmationFor found.1 blastRadius, reasons := found.2
    blastRadius := blastRadius, totalHosts := targets.length }

/-! ## The record of a job -/

def approvalCommands (spec : JobSpec) : List String :=
  spec.steps.map (·.command) ++ (spec.rollback.getD []).map fun st => "rollback: " ++ st.command

def jobApprovalFor (spec : JobSpec) (targets : List JobTargetRef) (phrase : Option String)
    (confirmedAt : Option ℚ) : CommandApproval :=
  let plan := planJob assessCommand spec targets
  approvalFor .job (approvalCommands spec) targets plan.risk plan.confirmation phrase confirmedAt
    (spec.gate.map JobGate.text)

def gateChanged (approved now : String) : String :=
  "this run was confirmed with the stage gate set to `" ++ approved ++ "` and it is now `" ++ now ++
    "`. The gate decides whether each wave is checked before the next one starts, " ++
    "so the two are different blast radii. Confirm it again."

/-- A record without a gate is one from before gates were recorded. -/
def verifyJobApproval (approval : Option CommandApproval) (spec : JobSpec)
    (targets : List JobTargetRef) : ApprovalVerdict :=
  let plan := planJob assessCommand spec targets
  match verifyApproval approval (approvalCommands spec) targets plan.risk plan.confirmation with
  | .refused reason => .refused reason
  | .ok =>
    let now := (spec.gate.getD .none).text
    match approval.bind (·.gate) with
    | some approved => if approved ≠ now then .refused (gateChanged approved now) else .ok
    | none => .ok

end Plan

/-! ## What the record pins down -/

/-- How often a list has a server, in a wave. -/
def listed (targets : List JobTargetRef) (serverId wave : String) : Nat :=
  targets.countP fun t => t.serverId = serverId ∧ t.wave = wave

/-- The run is one that the approval of `spec` and `targets` was given for. -/
structure Authorised (assessCommand : String → RiskAssessment) (spec : JobSpec)
    (targets : List JobTargetRef) (phrase : Option String) (spec' : JobSpec)
    (targets' : List JobTargetRef) : Prop where
  sameSteps : spec'.steps.map (·.command) = spec.steps.map (·.command)
  sameRollback : (spec'.rollback.getD []).map (·.command) =
    (spec.rollback.getD []).map (·.command)
  sameGate : ∀ gate, spec.gate = some gate → spec'.gate.getD .none = gate
  noMore : ∀ serverId wave, listed targets' serverId wave ≤ listed targets serverId wave
  asked : (planJob assessCommand spec' targets').confirmation =
    (planJob assessCommand spec targets).confirmation
  answered : ∀ word, (planJob assessCommand spec' targets').confirmation = .typeToConfirm word →
    phrase = some word

/-- How often a list has a server, in any wave. -/
def occurrences (targets : List JobTargetRef) (serverId : String) : Nat :=
  targets.countP fun t => t.serverId = serverId

/-- How often an approved list has a server in the wave that its last entry names. -/
def approvedOccurrences (targets : List JobTargetRef) (serverId : String) : Nat :=
  targets.countP fun t =>
    t.serverId = serverId ∧ (approvedWaves targets).get serverId = some t.wave

theorem JobGate.text_injective {a b : JobGate} (h : a.text = b.text) : a = b := by
  cases a <;> cases b <;> first | rfl | exact absurd h (by decide)

/-- What an accepted job has in common with the job that its record was minted from. -/
theorem verifyJobApproval_ok {assessCommand : String → RiskAssessment} {spec spec' : JobSpec}
    {targets targets' : List JobTargetRef} {phrase : Option String} {confirmedAt : Option ℚ}
    (h : verifyJobApproval assessCommand
      (some (jobApprovalFor assessCommand spec targets phrase confirmedAt)) spec' targets' = .ok) :
    Accepted (jobApprovalFor assessCommand spec targets phrase confirmedAt)
        (approvalCommands spec') targets' (planJob assessCommand spec' targets').risk
        (planJob assessCommand spec' targets').confirmation ∧
      ∀ gate, spec.gate = some gate → spec'.gate.getD .none = gate := by
  unfold verifyJobApproval at h
  dsimp only at h
  cases hverdict : verifyApproval
      (some (jobApprovalFor assessCommand spec targets phrase confirmedAt))
      (approvalCommands spec') targets' (planJob assessCommand spec' targets').risk
      (planJob assessCommand spec' targets').confirmation with
  | refused reason =>
    rw [hverdict] at h
    cases h
  | ok =>
    refine ⟨verifyApproval_ok hverdict, fun gate hgate => ?_⟩
    have hrecorded : (some (jobApprovalFor assessCommand spec targets phrase confirmedAt)).bind
        (·.gate) = some gate.text := by
      show spec.gate.map JobGate.text = _
      rw [hgate]
      rfl
    rw [hverdict, hrecorded] at h
    obtain ⟨hsame, -⟩ := ite_refused.mp h
    exact (JobGate.text_injective (not_not.mp hsame)).symm

/-- The list splits back where the steps end. -/
theorem approvalCommands_split {spec spec' : JobSpec}
    (h : approvalCommands spec = approvalCommands spec')
    (hlength : spec.steps.length = spec'.steps.length) :
    spec.steps.map (·.command) = spec'.steps.map (·.command) ∧
      (spec.rollback.getD []).map (·.command) = (spec'.rollback.getD []).map (·.command) := by
  have hmap : (spec.steps.map (·.command)).length = (spec'.steps.map (·.command)).length := by
    rw [List.length_map, List.length_map, hlength]
  obtain ⟨hsteps, hrollback⟩ := List.append_inj h hmap
  refine ⟨hsteps, ?_⟩
  have hprefixed : ∀ l : List JobStep, (l.map fun st => "rollback: " ++ st.command) =
      (l.map (·.command)).map ("rollback: " ++ ·) := fun l => by
    rw [List.map_map]
    rfl
  rw [hprefixed, hprefixed] at hrollback
  exact List.map_injective_iff.mpr (fun a b hab => String.append_right_inj _ |>.mp hab) hrollback

/-- In an accepted list a server is in its approved wave only. -/
theorem listed_of_waves {targets targets' : List JobTargetRef}
    (hwaves : ∀ t ∈ targets', (approvedWaves targets).get t.serverId = some t.wave)
    (serverId wave : String) :
    listed targets' serverId wave =
      if (approvedWaves targets).get serverId = some wave then occurrences targets' serverId
      else 0 := by
  unfold listed occurrences
  split_ifs with hwave
  · apply List.countP_congr
    intro t ht
    rw [decide_eq_true_iff, decide_eq_true_iff]
    refine ⟨fun h => h.1, fun hid => ⟨hid, ?_⟩⟩
    have hget := hwaves t ht
    rw [hid, hwave] at hget
    exact (Option.some.inj hget).symm
  · rw [List.countP_eq_zero]
    intro t ht hboth
    obtain ⟨hid, hw⟩ := of_decide_eq_true hboth
    have hget := hwaves t ht
    rw [hid, hw] at hget
    exact hwave hget

theorem approvedOccurrences_eq {targets : List JobTargetRef} {serverId wave : String}
    (h : (approvedWaves targets).get serverId = some wave) :
    approvedOccurrences targets serverId = listed targets serverId wave := by
  unfold approvedOccurrences listed
  apply List.countP_congr
  intro t _
  rw [decide_eq_true_iff, decide_eq_true_iff, h, Option.some.injEq, eq_comm (a := wave)]

/-- In an accepted list each server is listed no more often than it was approved, where and only
where it is so in each wave. -/
theorem listed_le_iff {targets targets' : List JobTargetRef}
    (hwaves : ∀ t ∈ targets', (approvedWaves targets).get t.serverId = some t.wave) :
    (∀ serverId wave, listed targets' serverId wave ≤ listed targets serverId wave) ↔
      ∀ t ∈ targets', occurrences targets' t.serverId ≤ approvedOccurrences targets t.serverId := by
  refine ⟨fun h t ht => ?_, fun h serverId wave => ?_⟩
  · have hle := h t.serverId t.wave
    rwa [listed_of_waves hwaves, if_pos (hwaves t ht), ← approvedOccurrences_eq (hwaves t ht)] at hle
  · rw [listed_of_waves hwaves]
    split_ifs with hwave
    · by_cases hin : ∃ t ∈ targets', t.serverId = serverId
      · obtain ⟨t, ht, rfl⟩ := hin
        rw [← approvedOccurrences_eq hwave]
        exact h t ht
      · have hnone : occurrences targets' serverId = 0 := by
          apply List.countP_eq_zero.mpr
          intro t ht hid
          exact hin ⟨t, ht, of_decide_eq_true hid⟩
        rw [hnone]
        exact Nat.zero_le _
    · exact Nat.zero_le _

/-! ## When an accepted job is the approved one -/

/-- An accepted job is one that was approved if and only if it has as many steps as that one, and
lists no server more often than the approved list has it in the wave of its last entry. -/
theorem accepted_job_is_the_approved_one {assessCommand : String → RiskAssessment}
    {spec spec' : JobSpec} {targets targets' : List JobTargetRef} {phrase : Option String}
    {confirmedAt : Option ℚ}
    (h : verifyJobApproval assessCommand
      (some (jobApprovalFor assessCommand spec targets phrase confirmedAt)) spec' targets' = .ok) :
    Authorised assessCommand spec targets phrase spec' targets' ↔
      spec'.steps.length = spec.steps.length ∧
        ∀ t ∈ targets', occurrences targets' t.serverId ≤ approvedOccurrences targets t.serverId := by
  obtain ⟨haccepted, hgate⟩ := verifyJobApproval_ok h
  have hlisted := listed_le_iff haccepted.waves
  refine ⟨fun ha => ⟨?_, hlisted.mp ha.noMore⟩, fun ⟨hlength, hoften⟩ => ?_⟩
  · have hsteps := congrArg List.length ha.sameSteps
    rwa [List.length_map, List.length_map] at hsteps
  · obtain ⟨hsteps, hrollback⟩ := approvalCommands_split haccepted.steps hlength.symm
    exact ⟨hsteps.symm, hrollback.symm, hgate, hlisted.mpr hoften, haccepted.asked.symm,
      haccepted.typed⟩

/-- A restart of two servers in two waves, and the run on the server of the second. -/
def restartNginx : JobSpec where
  steps := [⟨"sudo systemctl restart nginx", none, false⟩]
  gate := some .health
  rollback := some [⟨"sudo systemctl stop nginx", none, false⟩]

theorem accepted_job_is_the_approved_one_restart :
    Authorised (fun _ => ⟨.elevated, ["runs as root", "restarts a service"]⟩) restartNginx
      [⟨"a", "web 1", some "one"⟩, ⟨"b", "web 2", some "two"⟩] none restartNginx
      [⟨"b", "web two", some "two"⟩] := by
  have hok : verifyJobApproval (fun _ => ⟨.elevated, ["runs as root", "restarts a service"]⟩)
      (some (jobApprovalFor (fun _ => ⟨.elevated, ["runs as root", "restarts a service"]⟩)
        restartNginx [⟨"a", "web 1", some "one"⟩, ⟨"b", "web 2", some "two"⟩] none (some 1)))
      restartNginx [⟨"b", "web two", some "two"⟩] = .ok := by
    decide +kernel
  exact (accepted_job_is_the_approved_one hok).mpr ⟨rfl, by decide +kernel⟩

/-- A job of two steps, the second of which starts like the record of a rollback. -/
def twoSteps : JobSpec where
  steps := [⟨"rollback: df -h", none, false⟩, ⟨"rollback: df -h", none, false⟩]

/-- The same record of a job of one step, with a rollback. -/
def oneStep : JobSpec where
  steps := [⟨"rollback: df -h", none, false⟩]
  rollback := some [⟨"df -h", none, false⟩]

theorem planStep_risk (assessCommand : String → RiskAssessment)
    (found : BroadcastRisk × List String) (step : JobStep) :
    (planStep assessCommand found step).1 =
      if step.reboot then .destructive
      else if riskOrder found.1 < riskOrder (assessCommand step.command).risk
        then (assessCommand step.command).risk
      else found.1 := by
  unfold planStep
  dsimp only
  generalize (if riskOrder found.1 < riskOrder (assessCommand step.command).risk
    then (assessCommand step.command).risk else found.1) = risk
  by_cases hreboot : step.reboot = true
  · by_cases hrisk : risk = .destructive
    · simp [hrisk]
    · simp [hreboot, hrisk]
  · simp [hreboot]

theorem planStep_again (assessCommand : String → RiskAssessment)
    (found : BroadcastRisk × List String) (step : JobStep) :
    (planStep assessCommand (planStep assessCommand found step) step).1 =
      (planStep assessCommand found step).1 := by
  rw [planStep_risk, planStep_risk]
  generalize (assessCommand step.command).risk = risk
  generalize found.1 = first
  cases step.reboot <;> cases risk <;> cases first <;> rfl

/-- Whatever the grade of the command, a step is accepted as a rollback. -/
theorem step_accepted_as_rollback :
    ∃ targets : List JobTargetRef, ∀ assessCommand : String → RiskAssessment,
      verifyJobApproval assessCommand
          (some (jobApprovalFor assessCommand twoSteps targets (some "RUN") (some 1)))
          oneStep targets = .ok ∧
        ¬ Authorised assessCommand twoSteps targets (some "RUN") oneStep targets := by
  refine ⟨[⟨"a", "web 1", none⟩], fun assessCommand => ⟨?_, fun ha => ?_⟩⟩
  · have hrisk : (planJob assessCommand twoSteps [⟨"a", "web 1", none⟩]).risk =
        (planJob assessCommand oneStep [⟨"a", "web 1", none⟩]).risk :=
      planStep_again assessCommand (.ordinary, []) ⟨"rollback: df -h", none, false⟩
    have hasked : (planJob assessCommand twoSteps [⟨"a", "web 1", none⟩]).confirmation =
        (planJob assessCommand oneStep [⟨"a", "web 1", none⟩]).confirmation :=
      congrArg (confirmationFor · 1) hrisk
    have hplan : (planJob assessCommand oneStep [⟨"a", "web 1", none⟩]).confirmation =
        confirmationFor (planJob assessCommand oneStep [⟨"a", "web 1", none⟩]).risk 1 := rfl
    unfold verifyJobApproval jobApprovalFor
    dsimp only
    rw [hasked, hrisk, hplan]
    cases (planJob assessCommand oneStep [⟨"a", "web 1", none⟩]).risk <;> decide +kernel
  · exact absurd (congrArg List.length ha.sameSteps) (by decide)

end OpsMaxx.Jobs
