import Mathlib.Algebra.Order.Floor.Semiring
import Mathlib.Data.Rat.Floor
import OpsMaxx.Jobs.Consent
import OpsMaxx.Store.JsMap
import OpsMaxx.Strings.Words

/-!
# Planning a patch run

The selected hosts are cut into waves, each gets its upgrade command or the reason it has none, and
those that run the same steps are put into one job. What the topology refuses is a parameter.
-/

set_option autoImplicit false

namespace OpsMaxx.Patch

open Jobs (JobGate JobStep JobTargetRef)
open Store (JsMap)
open Strings (Text)

/-! ## Commands -/

inductive PackageManager
  | apt | dnf | yum | zypper | pacman | apk
  deriving DecidableEq

def PackageManager.text : PackageManager → String
  | .apt => "apt"
  | .dnf => "dnf"
  | .yum => "yum"
  | .zypper => "zypper"
  | .pacman => "pacman"
  | .apk => "apk"

inductive PatchScope
  | all | security
  deriving DecidableEq

/-- A message by its key, with the program it names. -/
structure Message where
  key : String
  bin : Option String := none
  deriving DecidableEq

structure PatchCommand where
  command : String
  detail : Message
  deriving DecidableEq

def sudoText (withSudo : Option Bool) : String := if withSudo = some false then "" else "sudo -n "

def patchCommandFor (manager : PackageManager) (scope : PatchScope) (o : Option Bool) :
    Except Message PatchCommand :=
  let prefixed := sudoText o
  match manager, scope with
  | .apt, .security => .error ⟨"shared.patch.command.aptSecurityRefused", none⟩
  | .apt, .all =>
    .ok
      { command := prefixed ++ "env DEBIAN_FRONTEND=noninteractive apt-get update && " ++ prefixed ++
          "env DEBIAN_FRONTEND=noninteractive apt-get -y " ++
          "-o Dpkg::Options::=--force-confdef -o Dpkg::Options::=--force-confold upgrade"
        detail := ⟨"shared.patch.command.aptDetail", none⟩ }
  | .dnf, .security | .yum, .security =>
    .ok
      { command := prefixed ++ manager.text ++ " -y --security upgrade"
        detail := ⟨"shared.patch.command.dnfSecurityDetail", some manager.text⟩ }
  | .dnf, .all | .yum, .all =>
    .ok
      { command := prefixed ++ manager.text ++ " -y upgrade"
        detail := ⟨"shared.patch.command.dnfDetail", some manager.text⟩ }
  | .zypper, .security =>
    .ok
      { command := prefixed ++ "zypper --non-interactive patch --category security"
        detail := ⟨"shared.patch.command.zypperSecurityDetail", none⟩ }
  | .zypper, .all =>
    .ok
      { command := prefixed ++ "zypper --non-interactive update"
        detail := ⟨"shared.patch.command.zypperDetail", none⟩ }
  | .pacman, .security => .error ⟨"shared.patch.command.pacmanSecurityRefused", none⟩
  | .pacman, .all =>
    .ok
      { command := prefixed ++ "pacman -Syu --noconfirm"
        detail := ⟨"shared.patch.command.pacmanDetail", none⟩ }
  | .apk, .security => .error ⟨"shared.patch.command.apkSecurityRefused", none⟩
  | .apk, .all =>
    .ok { command := prefixed ++ "apk upgrade", detail := ⟨"shared.patch.command.apkDetail", none⟩ }

def REBOOT_BOOT_ID_MARK : String := "opsmaxx-boot-id="

def buildRebootStep (o : Option Bool) : String :=
  let prefixed := sudoText o
  " ".intercalate
    ["printf '%s%s\\n' '" ++ REBOOT_BOOT_ID_MARK ++
        "' \"$(cat /proc/sys/kernel/random/boot_id 2>/dev/null || echo unknown)\";",
      "sync;", "sleep 2;",
      "if command -v systemctl >/dev/null 2>&1; then " ++ prefixed ++ "systemctl reboot; else " ++ prefixed ++
        "shutdown -r now; fi"]

/-! ## Waves -/

/-- A number as the plan is given it. -/
inductive Number
  | nan
  | infinite (negative : Bool)
  | finite (q : ℚ)
  deriving DecidableEq

structure WaveHost where
  serverId : String
  serverName : String
  deriving DecidableEq

structure PatchWave where
  name : String
  hosts : List WaveHost
  deriving DecidableEq

def waveName (index : Nat) : String := "wave-" ++ toString (index + 1)

/-- How far one wave is from the next, if it is not without end. -/
def stride (count : Nat) : Number → Option Nat
  | .nan => some count
  | .infinite negative => if negative then some count else none
  | .finite q => some (if 0 < q then ⌊q⌋₊ else count)

/-- The loop from host `i` on, with the waves so far, in as many rounds as there is fuel for. -/
def wavesLoop (hosts : List WaveHost) (n : Option Nat) : Nat → Nat → List PatchWave →
    Option (List PatchWave)
  | 0, i, waves => if i < hosts.length then none else some waves
  | fuel + 1, i, waves =>
    if i < hosts.length then
      match n with
      | none => some (waves ++ [⟨waveName waves.length, hosts.drop i⟩])
      | some step =>
        wavesLoop hosts n fuel (i + step)
          (waves ++ [⟨waveName waves.length, (hosts.drop i).take step⟩])
    else some waves

def planWaves (fuel : Nat) (hosts : List WaveHost) (size : Number) : Option (List PatchWave) :=
  if hosts = [] then some [] else wavesLoop hosts (stride hosts.length size) fuel 0 []

def targetRef (h : WaveHost) (wave : String) : JobTargetRef := ⟨h.serverId, h.serverName, some wave⟩

def wavesToTargets (waves : List PatchWave) : List JobTargetRef :=
  waves.flatMap fun w => w.hosts.map fun h => targetRef h w.name

/-! ## The plan -/

structure PatchHost where
  serverId : String
  serverName : String
  packageManager : Option PackageManager

def PatchHost.waveHost (h : PatchHost) : WaveHost := ⟨h.serverId, h.serverName⟩

structure RebootBlock where
  kind : String
  serverId : String
  serverName : String
  reason : String

/-- What the topology of the saved servers and databases refuses. -/
structure Topology where
  sameWaveDatabaseBlocks : List String → List RebootBlock
  rebootBlockFor : String → Option RebootBlock
  unmatchedHopNote : Option String

structure PatchPlanRequest where
  scope : PatchScope
  hosts : List PatchHost
  waveSize : Number
  reboot : Bool
  healthGate : Bool
  rebootWanted : Option (String → Bool)
  withSudo : Option Bool

structure PatchPlanHost where
  serverId : String
  serverName : String
  wave : String
  packageManager : Option PackageManager
  command : Option String
  reboot : Bool
  excluded : Option Message

structure JobSpec where
  kind : String
  title : String
  steps : List JobStep
  gate : JobGate

structure PatchJobPlan where
  packageManager : PackageManager
  spec : JobSpec
  targets : List JobTargetRef
  detail : Message

structure Excluded where
  serverId : String
  serverName : String
  reason : Message

structure PatchPlan where
  jobs : List PatchJobPlan
  hosts : List PatchPlanHost
  blocks : List RebootBlock
  unmatchedNote : Option String
  excluded : List Excluded

section Plan
variable (topology : Topology) (req : PatchPlanRequest)

def wants (serverId : String) : Bool := (req.rebootWanted.getD fun _ => true) serverId

def waveOf (waves : List PatchWave) : JsMap String String :=
  JsMap.ofList (waves.flatMap fun w => w.hosts.map fun h => (h.serverId, w.name))

/-- One host with its wave and its command, or why it is left out. -/
def planHost (waves : JsMap String String) (h : PatchHost) : PatchPlanHost :=
  let wave := (waves.get h.serverId).getD (waveName 0)
  let out (reason : Message) : PatchPlanHost :=
    ⟨h.serverId, h.serverName, wave, h.packageManager, none, false, some reason⟩
  match h.packageManager with
  | none => out ⟨"shared.patch.plan.noPackageManager", none⟩
  | some manager =>
    match patchCommandFor manager req.scope req.withSudo with
    | .error reason => out reason
    | .ok cmd =>
      ⟨h.serverId, h.serverName, wave, some manager, some cmd.command,
        req.reboot && wants req h.serverId, none⟩

def PatchPlanHost.out (row : PatchPlanHost) : Option Excluded :=
  row.excluded.map fun reason => ⟨row.serverId, row.serverName, reason⟩

def jobKey (manager : PackageManager) (reboot : Bool) : Text :=
  manager.text.toList ++ '|' :: (if reboot then "reboot".toList else "no-reboot".toList)

/-- The key of a host's job. -/
def PatchPlanHost.key (row : PatchPlanHost) : Text :=
  match row.packageManager with
  | none => []
  | some manager => jobKey manager row.reboot

def PatchPlanHost.isKept (row : PatchPlanHost) : Bool :=
  row.excluded.isNone && row.packageManager.isSome

def PatchPlanHost.target (row : PatchPlanHost) : JobTargetRef :=
  targetRef ⟨row.serverId, row.serverName⟩ row.wave

def byKey (rows : List PatchPlanHost) : JsMap Text (List PatchPlanHost) :=
  JsMap.groupBy PatchPlanHost.key (rows.filter PatchPlanHost.isKept)

/-- The job of the hosts of one key. -/
def planJob (key : Text) (rows : List PatchPlanHost) : Option PatchJobPlan :=
  match rows.head?.bind PatchPlanHost.packageManager with
  | none => none
  | some manager =>
    match patchCommandFor manager req.scope req.withSudo with
    | .error _ => none
    | .ok cmd =>
      let doesReboot := "|reboot".toList.isSuffixOf key
      some
        { packageManager := manager
          detail := cmd.detail
          spec :=
            { kind := "patch"
              title := (if req.scope = .security then "Security updates" else "Updates") ++ " · " ++
                manager.text ++ (if doesReboot then " · with reboot" else "")
              steps := { command := cmd.command } ::
                (if doesReboot then [{ command := buildRebootStep req.withSudo, reboot := true }] else [])
              gate := if req.healthGate then .health else .none }
          targets := rows.map PatchPlanHost.target }

/-- What the topology refuses about the hosts of a wave together, and about each. -/
def blocks (waves : List PatchWave) : List RebootBlock :=
  if req.reboot then
    (waves.flatMap fun w =>
      topology.sameWaveDatabaseBlocks ((w.hosts.map WaveHost.serverId).filter (wants req))) ++
    req.hosts.filterMap fun h =>
      if wants req h.serverId then topology.rebootBlockFor h.serverId else none
  else []

/-- The first refusal of a kind for a server. -/
def uniqueBlocks : List String → List RebootBlock → List RebootBlock
  | _, [] => []
  | seen, b :: bs =>
    let k := b.kind ++ ":" ++ b.serverId
    if k ∈ seen then uniqueBlocks seen bs else b :: uniqueBlocks (k :: seen) bs

def planPatch (fuel : Nat) : Option PatchPlan :=
  (planWaves fuel (req.hosts.map PatchHost.waveHost) req.waveSize).map fun waves =>
    let rows := req.hosts.map (planHost req (waveOf waves))
    { jobs := (byKey rows).entries.filterMap fun e => planJob req e.1 e.2
      hosts := rows
      blocks := uniqueBlocks [] (blocks topology req waves)
      unmatchedNote := topology.unmatchedHopNote
      excluded := rows.filterMap PatchPlanHost.out }

end Plan

end OpsMaxx.Patch
