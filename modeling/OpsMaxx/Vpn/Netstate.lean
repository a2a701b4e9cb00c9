import OpsMaxx.Broadcast.Approval
import OpsMaxx.Interact.Prog

/-!
# The record of what a tunnel changed

Routes and resolver settings outlive the process that made them. A snapshot of what is about to
change is written first; the changes follow, and a pass at the next start undoes what a snapshot
describes. The privileged commands, the route table, the resolver, the clock and the run directory
are requests.
-/

set_option autoImplicit false

namespace OpsMaxx.Vpn

open OpsMaxx.Interact
open OpsMaxx.Jobs (mentions isSpace)

/-! ## Routes and resolvers -/

inductive Platform
  | darwin
  | win32
  | linux
  | other (name : String)
  deriving DecidableEq

def Platform.text : Platform → String
  | .darwin => "darwin"
  | .win32 => "win32"
  | .linux => "linux"
  | .other name => name

structure RouteSpec where
  destination : String
  gateway : Option String := none
  interfaceName : String
  metric : Option Int := none
  deriving DecidableEq

structure RouteEntry where
  destination : String
  gateway : Option String
  interfaceName : Option String
  metric : Option Int
  inet6 : Bool
  deriving DecidableEq

structure RouteSnapshot where
  defaults : List RouteEntry
  planned : List RouteSpec
  interfaceIndex : List (String × Nat)
  deriving DecidableEq

structure DnsSpec where
  servers : List String
  searchDomains : List String
  interfaceName : String
  splitDomains : Option (List String)
  deriving DecidableEq

/-- What holds the resolver's configuration on Linux. -/
inductive DnsBackend
  | resolvectl
  | resolvConf
  deriving DecidableEq

structure ResolvConf where
  content : String
  symlinkTarget : Option String
  deriving DecidableEq

structure DnsSnapshot where
  runId : String
  interfaceName : String
  tag : Option String
  resolvConf : Option ResolvConf
  backend : Option DnsBackend
  planned : Option DnsSpec
  deriving DecidableEq

inductive DnsVerification
  | ok
  | failed (reason : String)
  | skipped (reason : String)

/-- A prefix as the route tables print it, and what is wrong with a resolver setting. -/
structure NetDeps where
  normalizeCidr : String → String
  assertDnsSpec : DnsSpec → Option String

def RouteSpec.at (r : RouteSpec) (destination : String) : RouteSpec :=
  { r with destination := destination }

/-- A default route is laid as its two halves. -/
def expandDefaultRoutes (deps : NetDeps) (routes : List RouteSpec) : List RouteSpec :=
  routes.flatMap fun r =>
    let n := deps.normalizeCidr r.destination
    if n = "0.0.0.0/0" then [r.at "0.0.0.0/1", r.at "128.0.0.0/1"]
    else if n = "::/0" then [r.at "::/1", r.at "8000::/1"]
    else [r.at n]

/-! ## The snapshot -/

structure NetPlan where
  interfaceName : String
  routes : Option (List RouteSpec)
  dns : Option DnsSpec

structure NetStateFile where
  runId : String
  platform : Platform
  interfaceName : String
  appliedAt : Int
  bootAt : Int
  routes : Option RouteSnapshot
  dns : Option DnsSnapshot
  deriving DecidableEq

def BOOT_TOLERANCE_MS : Nat := 30000

/-- `uptime` is the reading of the system's uptime, in milliseconds. -/
def bootTime (now : Int) (uptime : Nat) : Int := now - uptime

def isFromCurrentBoot (state : NetStateFile) (now : Int) (uptime : Nat) : Bool :=
  (state.bootAt - bootTime now uptime).natAbs ≤ BOOT_TOLERANCE_MS

def isSegmentChar (c : Char) : Bool := c.isAlphanum || c = '.' || c = '_' || c = '-'

/-- A run id as one path segment. `none` is the error. -/
def runIdSegment (runId : String) : Option String :=
  let s := String.ofList (runId.toList.flatMap fun c =>
    if isSegmentChar c then [c] else List.replicate (OpsMaxx.Broadcast.units c) '_')
  if s = "" ∨ s = "." ∨ s = ".." then none else some s

/-- The name a run's resolver settings carry. -/
def runTag (runId : String) : String :=
  "OpsMaxx-" ++ String.ofList (runId.toList.flatMap fun c =>
    if isSegmentChar c then [c] else List.replicate (OpsMaxx.Broadcast.units c) '_')

/-! ## Requests -/

/-- A command run with administrator rights. `index` is the interface on Windows. -/
inductive NetCommand
  | addRoute (r : RouteSpec) (index : Option Nat)
  | deleteRoute (r : RouteSpec) (index : Option Nat)
  | restoreDefault (d : RouteEntry)
  | setLinkDns (interfaceName : String) (servers : List String)
  | setLinkDomains (interfaceName : String) (domains : List String)
  | installResolvConf (spec : DnsSpec)
  | publishDns (spec : DnsSpec) (tag : String)
  | addDnsRules (spec : DnsSpec) (tag : String)
  | revertLink (interfaceName : String)
  | relinkResolvConf (target : String)
  | reinstallResolvConf (content : String)
  | removeDns (tag : String)
  | removeDnsRules (tag : String)
  deriving DecidableEq

structure PrivilegedResult where
  code : Int
  stderr : Option String

/-- The channel a pass is given. -/
structure NetChannel where
  supportsStdin : Bool
  deriving DecidableEq

inductive NetOp
  | now
  /-- The uptime, for a boot check of the run `segment` against the clock reading `now`. -/
  | uptime (segment : String) (now : Int)
  | snapshotRoutes
  | readResolvConf
  | writeState (segment : String) (state : NetStateFile)
  | privileged (segment : String) (command : NetCommand)
  | routeThere (r : RouteSpec)
  | interfaceIndexes (segment : String)
  | hasDefault (inet6 : Bool)
  | detectBackend
  | stage (segment : String)
  | verifyDns (spec : DnsSpec)
  | readdir
  | readState (name : String)
  | interfaceExists (name : String)
  | createContext (segment : String)
  | clearState (segment : String)

/-- The replies. A privileged command may end with a status or not be run at all; `stage` and
`writeState` tell whether the file was written. -/
@[reducible] def NetOp.Reply : NetOp → Type
  | .now => Int
  | .uptime .. => Nat
  | .snapshotRoutes => RouteSnapshot
  | .readResolvConf => ResolvConf
  | .writeState .. => Bool
  | .privileged .. => Except String PrivilegedResult
  | .routeThere _ => Bool
  | .interfaceIndexes _ => List (String × Nat)
  | .hasDefault _ => Bool
  | .detectBackend => DnsBackend
  | .stage _ => Bool
  | .verifyDns _ => DnsVerification
  | .readdir => Option (List String)
  | .readState _ => Option NetStateFile
  | .interfaceExists _ => Bool
  | .createContext _ => Option NetChannel
  | .clearState _ => Unit

inductive RestorePartOutcome
  | reverted
  | none
  | skippedMissingInterface
  | skippedStaleBoot
  | failed
  deriving DecidableEq

inductive RestoreOutcome
  | restored
  | skipped
  | failed
  deriving DecidableEq

structure RestoreReport where
  runId : String
  outcome : RestoreOutcome
  routes : RestorePartOutcome
  dns : RestorePartOutcome
  reason : Option String
  deriving DecidableEq

/-- A program here keeps the reports it has made, and may throw a message. -/
abbrev NetProc (α : Type) := Proc NetOp NetOp.Reply String (List RestoreReport) α

def ask (o : NetOp) : NetProc o.Reply := Proc.request o Except.ok

/-- A privileged command whose own error is passed on. -/
def runPrivileged (segment : String) (c : NetCommand) : NetProc PrivilegedResult :=
  Proc.request (.privileged segment c) id

/-- A privileged command that is tried. -/
def tryPrivileged (segment : String) (c : NetCommand) : NetProc Unit :=
  Proc.request (.privileged segment c) fun _ => .ok ()

/-! ## The managers -/

section Managers
variable (deps : NetDeps)

def firstOutputLine (res : PrivilegedResult) (fallback : String) : String :=
  let text := ((res.stderr.getD "").toList ++ ['\n']).dropWhile isSpace
  let line := ((text.takeWhile (· ≠ '\n')).reverse.dropWhile isSpace).reverse
  if line = [] then fallback else String.ofList line

def routeError (r : RouteSpec) (tool : String) (res : PrivilegedResult) : String :=
  "Could not add route " ++ r.destination ++ " on " ++ r.interfaceName ++ ": " ++
    firstOutputLine res (tool ++ " exited " ++ toString res.code)

def addRoutesLinux (segment : String) : List RouteSpec → NetProc Unit
  | [] => pure ()
  | r :: rs => do
    let res ← runPrivileged segment (.addRoute r none)
    if res.code = 0 then addRoutesLinux segment rs
    else throw (routeError r "ip" res)

/-- An add that failed counts where the route is found to be there. -/
def addRoutesDarwin (segment : String) : List RouteSpec → NetProc Unit
  | [] => pure ()
  | r :: rs => do
    let res ← runPrivileged segment (.addRoute r none)
    if res.code = 0 ∨ mentions "file exists" (res.stderr.getD "") then addRoutesDarwin segment rs
    else do
      let there : Bool ← ask (.routeThere r)
      if there = true then addRoutesDarwin segment rs
      else throw (routeError r "route" res)

def addRoutesWin32 (segment : String) (indexes : List (String × Nat)) :
    List RouteSpec → NetProc Unit
  | [] => pure ()
  | r :: rs =>
    match indexes.lookup r.interfaceName with
    | none => throw ("No network interface named " ++ r.interfaceName ++ " was found, so " ++
        r.destination ++ " could not be routed.")
    | some index => do
      let res ← runPrivileged segment (.addRoute r (some index))
      if res.code = 0 ∨ mentions "already exists" (res.stderr.getD "") then
        addRoutesWin32 segment indexes rs
      else do
        let there : Bool ← ask (.routeThere r)
        if there = true then addRoutesWin32 segment indexes rs
        else throw (routeError r "netsh" res)

def applyRoutes (platform : Platform) (segment : String) (routes : List RouteSpec) :
    NetProc Unit :=
  match platform with
  | .linux => addRoutesLinux segment (expandDefaultRoutes deps routes)
  | .darwin => addRoutesDarwin segment (expandDefaultRoutes deps routes)
  | .win32 => do
    let indexes ← ask (.interfaceIndexes segment)
    addRoutesWin32 segment indexes (expandDefaultRoutes deps routes)
  | .other name => throw ("System-mode routing is not implemented for " ++ name ++ ".")

def deleteRoutes (segment : String) : List RouteSpec → NetProc Unit
  | [] => pure ()
  | r :: rs => do
    tryPrivileged segment (.deleteRoute r none)
    deleteRoutes segment rs

/-- The index of the snapshot is preferred to a fresh one. Without one nothing is deleted. -/
def deleteRouteWin32 (segment : String) (known : List (String × Nat)) (r : RouteSpec) :
    NetProc Unit :=
  match known.lookup r.interfaceName with
  | some index => tryPrivileged segment (.deleteRoute r (some index))
  | none => do
    let fresh ← ask (.interfaceIndexes segment)
    match fresh.lookup r.interfaceName with
    | some index => tryPrivileged segment (.deleteRoute r (some index))
    | none => pure ()

def deleteRoutesWin32 (segment : String) (known : List (String × Nat)) :
    List RouteSpec → NetProc Unit
  | [] => pure ()
  | r :: rs => do
    deleteRouteWin32 segment known r
    deleteRoutesWin32 segment known rs

def isDefaultOf (d : RouteEntry) : Bool :=
  deps.normalizeCidr d.destination = if d.inet6 then "::/0" else "0.0.0.0/0"

/-- A default route that went missing is put back. -/
def restoreDefault (platform : Platform) (segment : String) (d : RouteEntry) : NetProc Unit :=
  if d.gateway.any (· ≠ "") ∧ (platform = .darwin ∨ d.interfaceName.any (· ≠ "")) ∧
      isDefaultOf deps d then do
    let there : Bool ← ask (.hasDefault d.inet6)
    if there = true then pure () else tryPrivileged segment (.restoreDefault d)
  else pure ()

def restoreDefaults (platform : Platform) (segment : String) : List RouteEntry → NetProc Unit
  | [] => pure ()
  | d :: ds => do
    restoreDefault deps platform segment d
    restoreDefaults platform segment ds

def revertRoutes (platform : Platform) (segment : String) (snapshot : RouteSnapshot) :
    NetProc Unit :=
  match platform with
  | .linux | .darwin => do
    deleteRoutes segment (expandDefaultRoutes deps snapshot.planned).reverse
    restoreDefaults deps platform segment snapshot.defaults
  | .win32 =>
    deleteRoutesWin32 segment snapshot.interfaceIndex
      (expandDefaultRoutes deps snapshot.planned).reverse
  | .other name => throw ("System-mode routing is not implemented for " ++ name ++ ".")

def dnsError (spec : DnsSpec) (tool : String) (res : PrivilegedResult) : String :=
  "Could not set DNS for " ++ spec.interfaceName ++ ": " ++
    firstOutputLine res (tool ++ " exited " ++ toString res.code)

def isSplitDns (spec : DnsSpec) : Bool := spec.splitDomains.any (· ≠ [])

def withoutDot (d : String) : String :=
  match d.toList with
  | '.' :: rest => String.ofList rest
  | _ => d

def domainArgs (spec : DnsSpec) : List String :=
  spec.searchDomains ++
    if isSplitDns spec then (spec.splitDomains.getD []).map fun d => "~" ++ withoutDot d
    else ["~."]

/-- A command of the resolver, whose status is the answer. -/
def setDns (segment : String) (spec : DnsSpec) (tool : String) (c : NetCommand) : NetProc Unit := do
  let res ← runPrivileged segment c
  if res.code = 0 then pure () else throw (dnsError spec tool res)

def applyDns (platform : Platform) (runId segment : String) (channel : NetChannel)
    (spec : DnsSpec) : NetProc Unit :=
  match platform with
  | .other name => throw ("System-mode DNS is not implemented for " ++ name ++ ".")
  | platform =>
    match deps.assertDnsSpec spec with
    | some message => throw message
    | none =>
      match platform with
      | .darwin =>
        if channel.supportsStdin then
          setDns segment spec "scutil" (.publishDns spec (runTag runId))
        else throw ("Changing DNS on macOS needs a privileged channel that accepts standard " ++
          "input, because scutil takes its commands there and has no equivalent arguments.")
      | .win32 => do
        let res ← runPrivileged segment (.addDnsRules spec (runTag runId))
        if res.code = 0 then pure ()
        else throw ("Could not add the DNS rule for " ++ spec.interfaceName ++ ": " ++
          firstOutputLine res ("powershell exited " ++ toString res.code))
      | _ => do
        let backend ← ask .detectBackend
        match backend with
        | .resolvectl => do
          setDns segment spec "resolvectl" (.setLinkDns spec.interfaceName spec.servers)
          setDns segment spec "resolvectl" (.setLinkDomains spec.interfaceName (domainArgs spec))
        | .resolvConf => do
          let staged : Bool ← ask (.stage segment)
          if staged = true then setDns segment spec "install" (.installResolvConf spec)
          else throw "resolv.conf could not be staged"

/-- The result of no command is looked at. -/
def revertDns (platform : Platform) (runId segment : String) (channel : NetChannel)
    (snapshot : DnsSnapshot) : NetProc Unit :=
  let tag := snapshot.tag.getD (runTag (if snapshot.runId = "" then runId else snapshot.runId))
  match platform with
  | .other name => throw ("System-mode DNS is not implemented for " ++ name ++ ".")
  | .darwin =>
    if channel.supportsStdin then tryPrivileged segment (.removeDns tag) else pure ()
  | .win32 => tryPrivileged segment (.removeDnsRules tag)
  | .linux =>
    if snapshot.backend = some .resolvectl then
      tryPrivileged segment (.revertLink snapshot.interfaceName)
    else
      match snapshot.resolvConf with
      | none => pure ()
      | some original =>
        match original.symlinkTarget.filter (· ≠ "") with
        | some target => tryPrivileged segment (.relinkResolvConf target)
        | none => do
          let staged : Bool ← ask (.stage segment)
          if staged = true then tryPrivileged segment (.reinstallResolvConf original.content)
          else pure ()

/-! ## Apply, revert, restore -/

def dnsHalf (platform : Platform) (segment : String) (channel : NetChannel)
    (state : NetStateFile) : NetProc Unit :=
  match state.dns with
  | some snapshot => revertDns platform state.runId segment channel snapshot
  | none => pure ()

def routesHalf (platform : Platform) (segment : String) (state : NetStateFile) : NetProc Unit :=
  match state.routes with
  | some snapshot => revertRoutes deps platform segment snapshot
  | none => pure ()

/-- DNS first, then the routes. -/
def revertNetState (platform : Platform) (segment : String) (channel : NetChannel)
    (state : NetStateFile) : NetProc Unit := do
  dnsHalf platform segment channel state
  routesHalf deps platform segment state

def applyRoutesHalf (platform : Platform) (segment : String) (plan : NetPlan)
    (state : NetStateFile) : NetProc Unit :=
  match state.routes, plan.routes with
  | some _, some routes => applyRoutes deps platform segment routes
  | _, _ => pure ()

/-- A resolver that was read and still uses other servers is an error. -/
def applyDnsHalf (platform : Platform) (segment : String) (channel : NetChannel) (plan : NetPlan)
    (state : NetStateFile) : NetProc Unit :=
  match state.dns, plan.dns with
  | some _, some spec => do
    applyDns deps platform state.runId segment channel spec
    let check : DnsVerification ← ask (.verifyDns spec)
    match check with
    | .failed reason => throw reason
    | _ => pure ()
  | _, _ => pure ()

def applyChanges (platform : Platform) (segment : String) (channel : NetChannel) (plan : NetPlan)
    (state : NetStateFile) : NetProc Unit := do
  applyRoutesHalf deps platform segment plan state
  applyDnsHalf deps platform segment channel plan state

def snapshotRoutes (platform : Platform) : NetProc RouteSnapshot :=
  match platform with
  | .other name => throw ("System-mode routing is not implemented for " ++ name ++ ".")
  | _ => ask .snapshotRoutes

def snapshotDns (platform : Platform) : NetProc DnsSnapshot :=
  match platform with
  | .other name => throw ("System-mode DNS is not implemented for " ++ name ++ ".")
  | .linux => do
    let backend ← ask .detectBackend
    let file ← ask .readResolvConf
    pure ⟨"", "", none, some file, some backend, none⟩
  | _ => pure ⟨"", "", none, none, none, none⟩

/-- The snapshot of the routes of a plan, if it has any. -/
def planRoutes (platform : Platform) (plan : NetPlan) : NetProc (Option RouteSnapshot) :=
  match plan.routes with
  | some (r :: rs) => do
    let snap ← snapshotRoutes platform
    pure (some { snap with planned := r :: rs })
  | _ => pure none

def planDns (platform : Platform) (runId : String) (plan : NetPlan) :
    NetProc (Option DnsSnapshot) :=
  match plan.dns with
  | some spec => do
    let snap ← snapshotDns platform
    pure (some { snap with
      runId := runId, interfaceName := spec.interfaceName, planned := some spec })
  | none => pure none

/-- The changes of a plan whose snapshot is written. A failure is rolled back, and the snapshot is
left. -/
def changeOrRollBack (platform : Platform) (segment : String) (channel : NetChannel)
    (plan : NetPlan) (state : NetStateFile) : NetProc NetStateFile := do
  let outcome ← Proc.attempt (applyChanges deps platform segment channel plan state)
  match outcome with
  | .ok _ => pure state
  | .error e => do
    let _ ← Proc.attempt (revertNetState deps platform segment channel state)
    throw e

/-- Snapshot, write it down, then change. `segment` is the directory of the run. -/
def applyNetState (platform : Platform) (runId segment : String) (channel : NetChannel)
    (plan : NetPlan) : NetProc NetStateFile := do
  let now : Int ← ask .now
  let uptime : Nat ← ask (.uptime segment now)
  let routes ← planRoutes platform plan
  let dns ← planDns platform runId plan
  let state : NetStateFile :=
    { runId := runId, platform := platform, interfaceName := plan.interfaceName
      appliedAt := now, bootAt := bootTime now uptime, routes := routes, dns := dns }
  let written : Bool ← ask (.writeState segment state)
  if written = true then changeOrRollBack deps platform segment channel plan state
  else throw "netstate.json could not be written"

def report (r : RestoreReport) : NetProc Unit := Proc.modify (· ++ [r])

def goneReason (state : NetStateFile) (routes : RestorePartOutcome) : Option String :=
  if routes = .skippedMissingInterface then
    some ("interface " ++ state.interfaceName ++ " is gone")
  else none

/-- What is to be done about the routes of a snapshot. -/
def routesOutcome (state : NetStateFile) (sameBoot ifaceUp : Bool) : RestorePartOutcome :=
  if state.routes.isSome then
    if !sameBoot then .skippedStaleBoot
    else if !ifaceUp then .skippedMissingInterface
    else .reverted
  else .none

/-- The snapshot is undone as far as it is wanted, and forgotten unless that threw. -/
def restoreWith (platform : Platform) (segment : String) (channel : NetChannel)
    (state : NetStateFile) (routes : RestorePartOutcome) : NetProc Unit := do
  let wantsRoutes := routes = .reverted
  let wantsDns := state.dns.isSome
  let wanted := { state with routes := if wantsRoutes then state.routes else none }
  let outcome ← Proc.attempt (revertNetState deps platform segment channel wanted)
  match outcome with
  | .ok _ => do
    report ⟨state.runId, .restored, routes, if wantsDns then .reverted else .none,
      goneReason state routes⟩
    ask (.clearState segment)
  | .error e =>
    report ⟨state.runId, .failed, if wantsRoutes then .failed else routes,
      if wantsDns then .failed else .none, some e⟩

def interfaceUp (state : NetStateFile) : NetProc Bool :=
  if state.interfaceName = "" then pure true else ask (.interfaceExists state.interfaceName)

/-- A snapshot that no live run claims. -/
def restoreOrphan (platform : Platform) (now : Int) (segment : String) (state : NetStateFile) :
    NetProc Unit := do
  let uptime : Nat ← ask (.uptime segment now)
  let ifaceUp ← interfaceUp state
  let routes := routesOutcome state (isFromCurrentBoot state now uptime) ifaceUp
  if routes ≠ .reverted ∧ state.dns = none then do
    report ⟨state.runId, .skipped, routes, .none, goneReason state routes⟩
    ask (.clearState segment)
  else do
    let channel : Option NetChannel ← ask (.createContext segment)
    match channel with
    | none => report ⟨state.runId, .skipped, .none, .none,
        some "no privileged channel was available"⟩
    | some channel => restoreWith deps platform segment channel state routes

def restoreEntry (platform : Platform) (live : List String) (now : Int) (name : String) :
    NetProc Unit := do
  let read : Option NetStateFile ← ask (.readState name)
  match read with
  | none => pure ()
  | some state =>
    match runIdSegment state.runId with
    | none => throw ("Invalid VPN run id " ++ state.runId ++ ".")
    | some segment =>
      if name ∈ live ∨ segment ∈ live then
        report ⟨state.runId, .skipped, .none, .none, some "run is still live"⟩
      else if state.platform ≠ platform then
        report ⟨state.runId, .skipped, .none, .none,
          some ("snapshot was taken on " ++ state.platform.text)⟩
      else restoreOrphan deps platform now segment state

def restoreEntries (platform : Platform) (live : List String) (now : Int) :
    List String → NetProc Unit
  | [] => pure ()
  | name :: names => do
    restoreEntry deps platform live now name
    restoreEntries platform live now names

/-- `live` are the segments of the runs that are still real. -/
def restoreOrphanedNetstate (platform : Platform) (live : List String) : NetProc Unit := do
  let now : Int ← ask .now
  let entries : Option (List String) ← ask .readdir
  match entries with
  | none => pure ()
  | some names => restoreEntries deps platform live now names

end Managers

end OpsMaxx.Vpn
