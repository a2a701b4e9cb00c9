import Mathlib.Data.List.Basic
import OpsMaxx.Store.JsMap
import OpsMaxx.Strings.Words

/-! # The wave gate's question to the control plane

Every host of a finished wave says what it is called, and those with a kubeconfig say what the
cluster's nodes are. One of these tables stands in for the whole wave, and each host is joined to a
node of it by name. Lowering the case of a text is a parameter.
-/

set_option autoImplicit false

namespace OpsMaxx.Gate
open OpsMaxx.Store OpsMaxx.Strings

/-! ## Nodes -/

inductive ConditionValue where
  | True | False | Unknown
  deriving DecidableEq, Repr

structure K8sNodeHealth where
  name : Text
  memoryPressure : ConditionValue
  diskPressure : ConditionValue
  pidPressure : ConditionValue
  ready : ConditionValue
  taints : List Text
  deriving DecidableEq, Repr

def COND (v : Text) : ConditionValue :=
  if v = "True".toList then .True else if v = "False".toList then .False else .Unknown

/-- The taint keys of a column: `<none>` is how an empty list is printed. -/
def NONE (v : Text) : List Text :=
  if v = "<none>".toList ∨ v = [] then []
  else ((v.splitOn ',').map trim).filter fun t => !t.isEmpty

def parseNode (f : List Text) : Option K8sNodeHealth :=
  match f with
  | name :: mem :: disk :: pid :: ready :: _ :: _ :: _ :: taints :: _ =>
    some { name, memoryPressure := COND mem, diskPressure := COND disk, pidPressure := COND pid
           ready := COND ready, taints := NONE taints }
  | _ => none

def parseNodeHealth (text : Text) : List K8sNodeHealth :=
  (text.splitOn '\n').filterMap fun line => parseNode (words line)

inductive NodeVerdict where
  | ok | pressure | notReady | unreported | unschedulable
  deriving DecidableEq, Repr

inductive Pressure where
  | memory | disk | pid
  deriving DecidableEq, Repr

/-- Which sentence a finding is reported in, and what is filled into it. -/
inductive Because where
  | unreported | notReady | cordoned
  | pressure (pressures : List (Pressure × ConditionValue))
  deriving DecidableEq, Repr

structure NodeFinding where
  node : Text
  verdict : NodeVerdict
  because : Because
  deriving DecidableEq, Repr

def CORDON_TAINT : Text := "node.kubernetes.io/unschedulable".toList

def pressuresOf (n : K8sNodeHealth) : List (Pressure × ConditionValue) :=
  [(.memory, n.memoryPressure), (.disk, n.diskPressure), (.pid, n.pidPressure)].filter
    fun p => p.2 ≠ .False

/-- What a node's conditions mean, in the order they matter; nothing for a node that is fine. -/
def judgeNode (n : K8sNodeHealth) : Option NodeFinding :=
  match n.ready with
  | .Unknown => some ⟨n.name, .unreported, .unreported⟩
  | .False => some ⟨n.name, .notReady, .notReady⟩
  | .True =>
    if pressuresOf n ≠ [] then some ⟨n.name, .pressure, .pressure (pressuresOf n)⟩
    else if CORDON_TAINT ∈ n.taints then some ⟨n.name, .unschedulable, .cordoned⟩
    else none

def judgeNodes (nodes : List K8sNodeHealth) : List NodeFinding := nodes.filterMap judgeNode

/-! ## Joining hosts to nodes -/

inductive GateNode where
  | notANode
  | node (nodeName : Text) (finding : Option NodeFinding)
  | nodeUnread (nodeName why : Text)
  | unknown
  deriving DecidableEq, Repr

section
variable (lowerCase : Text → Text)

def dropDot (v : Text) : Text := if v.getLast? = some '.' then v.dropLast else v

def norm (v : Text) : Text := dropDot (lowerCase (trim v))

/-- The first label of a name. -/
def head (v : Text) : Text := v.takeWhile (· ≠ '.')

def sameHost (a b : Text) : Bool :=
  let x := norm lowerCase a
  let y := norm lowerCase b
  if x = [] ∨ y = [] then false else x = y || head x = head y

structure NodeMatchInput where
  serverId : Text
  hostname : Option Text

def readFailed : Text := "the cluster could not be read on this attempt".toList

/-- What is known of a host when the cluster was not read. -/
def matchUnread (readFailure : Option Text) (knownNodes : List Text) (s : NodeMatchInput) :
    GateNode :=
  match knownNodes.find? fun k => s.hostname.elim false fun h => sameHost lowerCase k h with
  | none => .unknown
  | some hit => .nodeUnread hit (readFailure.getD readFailed)

def matchNode (nodes : List K8sNodeHealth) (findings : JsMap Text NodeFinding)
    (s : NodeMatchInput) : GateNode :=
  match s.hostname with
  | none => .notANode
  | some hostname =>
    if trim hostname = [] then .notANode
    else
      match nodes.find? fun n => sameHost lowerCase n.name hostname with
      | none => .notANode
      | some hit => .node hit.name (findings.get hit.name)

def matchNodes (servers : List NodeMatchInput) (nodes : Option (List K8sNodeHealth))
    (readFailure : Option Text) (knownNodes : List Text) : JsMap Text GateNode :=
  match nodes with
  | none =>
    .ofList (servers.map fun s => (s.serverId, matchUnread lowerCase readFailure knownNodes s))
  | some nodes =>
    let findings := JsMap.ofList ((judgeNodes nodes).map fun f => (f.node, f))
    .ofList (servers.map fun s => (s.serverId, matchNode lowerCase nodes findings s))

end

/-! ## The summary -/

def NodeVerdict.blockReason : NodeVerdict → Option Text
  | .notReady => some
      "is reporting NotReady to the control plane, so it is running nothing".toList
  | .unreported => some ("has stopped reporting to the control plane altogether, so nothing here " ++
      "knows what state it is in").toList
  | .unschedulable => some ("is still cordoned after its wave finished, so this run has taken it " ++
      "out of service and not put it back").toList
  | .pressure | .ok => none

structure Line where
  serverName : Text
  nodeName : Text
  why : Text
  deriving DecidableEq, Repr

structure NodeGateSummary where
  blocking : List Line
  unread : List Line
  pressure : List (Text × NodeFinding)
  unasked : List Text
  notNodes : List Text
  deriving DecidableEq, Repr

structure GateHost where
  serverName : Text
  node : Option GateNode

def summariseHost (s : NodeGateSummary) (h : GateHost) : NodeGateSummary :=
  match h.node with
  | none | some .unknown => { s with unasked := s.unasked ++ [h.serverName] }
  | some .notANode => { s with notNodes := s.notNodes ++ [h.serverName] }
  | some (.nodeUnread nodeName why) => { s with unread := s.unread ++ [⟨h.serverName, nodeName, why⟩] }
  | some (.node _ none) => s
  | some (.node _ (some f)) =>
    if f.verdict = .pressure then { s with pressure := s.pressure ++ [(h.serverName, f)] }
    else
      match f.verdict.blockReason with
      | some reason =>
        { s with blocking := s.blocking ++ [⟨h.serverName, f.node, h.serverName ++ ' ' :: reason⟩] }
      | none => s

def summariseNodeGate (hosts : List GateHost) : NodeGateSummary :=
  hosts.foldl summariseHost ⟨[], [], [], [], []⟩

/-! ## What a host answers -/

inductive Kubectl where
  | present | absent | unknown
  deriving DecidableEq, Repr

structure GateNodeRead where
  hostname : Option Text
  nodes : Option (List K8sNodeHealth)
  kubectl : Kubectl
  deriving DecidableEq, Repr

def markerStart : Text := "===SP-GATE-".toList
def hostMarker : Text := "===SP-GATE-HOST===".toList
def kubectlMarker : Text := "===SP-GATE-KUBECTL===".toList
def nodesMarker : Text := "===SP-GATE-NODES===".toList

/-- The text behind the first place a marker stands at. -/
def behind (marker : Text) : Text → Option Text
  | [] => if marker = [] then some [] else none
  | c :: cs =>
    if marker.isPrefixOf (c :: cs) then some ((c :: cs).drop marker.length) else behind marker cs

/-- The text before the first marker that starts a line. -/
def beforeMarker : Bool → Text → Text
  | _, [] => []
  | lineStart, c :: cs =>
    if lineStart ∧ markerStart.isPrefixOf (c :: cs) then []
    else c :: beforeMarker (isLineTerminator c) cs

def sectionOf (output marker : Text) : Text :=
  match behind marker output with
  | none => []
  | some rest => trim (beforeMarker true rest)

def firstLine (s : Text) : Text := trim (s.takeWhile (· ≠ '\n'))

def parseGateNodeRead (output : Text) : GateNodeRead :=
  let hostname := firstLine (sectionOf output hostMarker)
  let k := firstLine (sectionOf output kubectlMarker)
  let table := sectionOf output nodesMarker
  let nodes := parseNodeHealth table
  { hostname := if hostname = [] then none else some hostname
    nodes := if table = [] ∨ nodes = [] then none else some nodes
    kubectl :=
      if k = "present".toList then .present else if k = "absent".toList then .absent else .unknown }

/-! ## A wave -/

structure Answer where
  serverId : Text
  serverName : Text
  read : Option GateNodeRead

/-- The hosts of a wave, one answer each. -/
structure Wave where
  answers : List Answer
  distinct : (answers.map Answer.serverId).Nodup

def Answer.hostname (a : Answer) : Option Text := a.read.bind GateNodeRead.hostname

def Answer.table (a : Answer) : Option (List K8sNodeHealth) := a.read.bind GateNodeRead.nodes

/-- The table that stands in for the wave. -/
def cluster (answers : List Answer) : Option (List K8sNodeHealth) := answers.findSome? Answer.table

def gateNodesFromWave (lowerCase : Text → Text) (answers : List Answer) : JsMap Text GateNode :=
  matchNodes lowerCase (answers.map fun a => ⟨a.serverId, a.hostname⟩) (cluster answers) none []

/-- The hosts as the gate sees them, each with what the wave's answers say of it. -/
def gateHosts (lowerCase : Text → Text) (answers : List Answer) : List GateHost :=
  answers.map fun a => ⟨a.serverName, (gateNodesFromWave lowerCase answers).get a.serverId⟩

end OpsMaxx.Gate
