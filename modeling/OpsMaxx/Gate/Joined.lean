import OpsMaxx.Gate.Nodes

/-! # A wave gate and another machine's health

A host is joined to the first node of one table whose first label is its own. The gate holds for the
right machine exactly when that node is the host's own wherever a table read in the wave has it, and
has in that table the problem the wave's tables show.
-/

set_option autoImplicit false

namespace OpsMaxx.Gate
open OpsMaxx.Store OpsMaxx.Strings

/-! ## What is promised -/

section
variable (lowerCase : Text → Text)

/-- Equal but for case and a trailing dot. -/
def SameName (a b : Text) : Prop := norm lowerCase a = norm lowerCase b

def Qualified (v : Text) : Prop := '.' ∈ norm lowerCase v

/-- A row of a table that some host of the wave answered with. -/
def ReadIn (w : Wave) (n : K8sNodeHealth) : Prop :=
  ∃ a ∈ w.answers, ∃ t, a.table = some t ∧ n ∈ t

def stopping (v : NodeVerdict) : Prop := v = .notReady ∨ v = .unreported ∨ v = .unschedulable

def Stopping (n : K8sNodeHealth) : Prop := ∃ f, judgeNode n = some f ∧ stopping f.verdict

def summaryOf (w : Wave) : NodeGateSummary := summariseNodeGate (gateHosts lowerCase w.answers)

structure NeverAnothersHealth (w : Wave) : Prop where
  named : ∀ a ∈ w.answers, ∀ h, a.hostname = some h → ∀ n, ReadIn w n →
    SameName lowerCase h n.name → Stopping n →
      ∃ l ∈ (summaryOf lowerCase w).blocking ++ (summaryOf lowerCase w).unread,
        l.serverName = a.serverName
  exact : ∀ a ∈ w.answers, ∀ h, a.hostname = some h → ∀ name finding,
    (gateNodesFromWave lowerCase w.answers).get a.serverId = some (.node name finding) →
      (∃ n, ReadIn w n ∧ SameName lowerCase h n.name) →
        ∃ n, ReadIn w n ∧ SameName lowerCase h n.name ∧ n.name = name ∧ judgeNode n = finding
  neverOther : ∀ a ∈ w.answers, ∀ h, a.hostname = some h → ∀ name finding,
    (gateNodesFromWave lowerCase w.answers).get a.serverId = some (.node name finding) →
      Qualified lowerCase h → Qualified lowerCase name → SameName lowerCase h name

/-! ## When it is kept -/

/-- The first row of a table that the name relation joins to a host. -/
def joined (t : List K8sNodeHealth) (h : Text) : Option K8sNodeHealth :=
  if trim h = [] then none else t.find? fun n => sameHost lowerCase n.name h

/-- The last problem among the rows of a table that carry a name. -/
def problemOf (t : List K8sNodeHealth) (name : Text) : Option NodeFinding :=
  t.reverse.findSome? fun n => if n.name = name then judgeNode n else none

structure JoinsItsOwn (w : Wave) : Prop where
  /-- A row with a host's name and a problem that stops the run in any table has such a problem
  behind it in the first table, in the row joined to a host shown by the same name. -/
  problem : ∀ a ∈ w.answers, ∀ h, a.hostname = some h → ∀ n, ReadIn w n →
    SameName lowerCase h n.name → Stopping n →
      ∃ a' ∈ w.answers, a'.serverName = a.serverName ∧ ∃ t h' m f, cluster w.answers = some t ∧
        a'.hostname = some h' ∧ joined lowerCase t h' = some m ∧ problemOf t m.name = some f ∧
          stopping f.verdict
  /-- The row joined to a host has its name, or no table has its name and one of the two names is
  short. -/
  own : ∀ a ∈ w.answers, ∀ h, a.hostname = some h → ∀ t m, cluster w.answers = some t →
    joined lowerCase t h = some m → SameName lowerCase h m.name ∨
      ((¬ Qualified lowerCase h ∨ ¬ Qualified lowerCase m.name) ∧
        ∀ n, ReadIn w n → ¬ SameName lowerCase h n.name)

end

/-! ## Findings -/

theorem judgeNode_node {n : K8sNodeHealth} {f : NodeFinding} (h : judgeNode n = some f) :
    f.node = n.name := by
  unfold judgeNode at h
  split at h
  · cases h
    rfl
  · cases h
    rfl
  · split_ifs at h
    · cases h
      rfl
    · cases h
      rfl

theorem lookup_keyed {α κ ν : Type} [DecidableEq κ] (f : α → Option ν) (key : ν → κ) (r : List α)
    (k : κ) : ((r.filterMap f).map fun v => (key v, v)).lookup k =
      r.findSome? fun a => (f a).filter fun v => key v = k := by
  induction r with
  | nil => rfl
  | cons a r ih =>
    rw [List.findSome?_cons]
    cases hf : f a with
    | none => rw [List.filterMap_cons_none hf, ih, Option.filter_none]
    | some v =>
      rw [List.filterMap_cons_some hf, List.map_cons, JsMap.lookup_cons_if, Option.filter_some]
      by_cases hkey : key v = k
      · rw [if_pos hkey.symm, if_pos (decide_eq_true hkey)]
      · rw [if_neg (Ne.symm hkey), if_neg (by simpa using hkey), ih]

theorem findings_get (t : List K8sNodeHealth) (name : Text) :
    (JsMap.ofList ((judgeNodes t).map fun f => (f.node, f))).get name = problemOf t name := by
  rw [JsMap.get_ofList, ← List.map_reverse]
  unfold judgeNodes problemOf
  rw [← List.filterMap_reverse, lookup_keyed]
  congr 1
  funext n
  cases hjudge : judgeNode n with
  | none => rw [Option.filter_none, ite_self]
  | some f =>
    rw [Option.filter_some, judgeNode_node hjudge]
    by_cases hname : n.name = name
    · rw [if_pos hname, if_pos (decide_eq_true hname)]
    · rw [if_neg hname, if_neg (by simpa using hname)]

/-- The problem shown for a row is that of a row with its name; none is shown only if the row itself
has none. -/
theorem problemOf_row {t : List K8sNodeHealth} {m : K8sNodeHealth} (hm : m ∈ t) :
    ∃ n ∈ t, n.name = m.name ∧ judgeNode n = problemOf t m.name := by
  cases hproblem : problemOf t m.name with
  | none =>
    have hnone := List.findSome?_eq_none_iff.mp hproblem m (List.mem_reverse.mpr hm)
    rw [if_pos rfl] at hnone
    exact ⟨m, hm, rfl, hnone⟩
  | some f =>
    obtain ⟨n, hn, hjudge⟩ := List.exists_of_findSome?_eq_some hproblem
    split_ifs at hjudge with hname
    exact ⟨n, List.mem_reverse.mp hn, hname, hjudge⟩

/-! ## What a host is given -/

variable {lowerCase : Text → Text} {w : Wave} {a : Answer}

theorem cluster_read {t : List K8sNodeHealth} (h : cluster w.answers = some t)
    {n : K8sNodeHealth} (hn : n ∈ t) : ReadIn w n := by
  obtain ⟨a, ha, htable⟩ := List.exists_of_findSome?_eq_some h
  exact ⟨a, ha, t, htable, hn⟩

theorem get_of_distinct {κ ν : Type} [DecidableEq κ] {l : List (κ × ν)} {k : κ} {v : ν}
    (hnodup : (l.map Prod.fst).Nodup) (h : (k, v) ∈ l) : (JsMap.ofList l).get k = some v := by
  rw [JsMap.get_ofList]
  have hrev : (l.reverse.map Prod.fst).Nodup := by
    rw [List.map_reverse, List.nodup_reverse]
    exact hnodup
  exact (JsMap.mem_entries_iff ⟨l.reverse, hrev⟩).mp (List.mem_reverse.mpr h)

/-- What a wave without a table, or with this one, gives a host. -/
def given (lowerCase : Text → Text) (table : Option (List K8sNodeHealth)) (hostname : Option Text) :
    GateNode :=
  match table with
  | none => .unknown
  | some t =>
    match hostname.bind (joined lowerCase t) with
    | none => .notANode
    | some m => .node m.name (problemOf t m.name)

theorem matchNode_given (t : List K8sNodeHealth) (s : NodeMatchInput) :
    matchNode lowerCase t (.ofList ((judgeNodes t).map fun f => (f.node, f))) s =
      given lowerCase (some t) s.hostname := by
  unfold matchNode given
  cases s.hostname with
  | none => rfl
  | some h =>
    simp only [Option.bind_some]
    unfold joined
    by_cases hblank : trim h = []
    · rw [if_pos hblank, if_pos hblank]
    · rw [if_neg hblank, if_neg hblank]
      cases hfind : t.find? fun n => sameHost lowerCase n.name h with
      | none => rfl
      | some m =>
        simp only
        rw [findings_get]

theorem get_given (ha : a ∈ w.answers) : (gateNodesFromWave lowerCase w.answers).get a.serverId =
    some (given lowerCase (cluster w.answers) a.hostname) := by
  unfold gateNodesFromWave matchNodes
  cases hcluster : cluster w.answers with
  | none =>
    apply get_of_distinct
    · simpa [List.map_map, Function.comp_def] using w.distinct
    · rw [List.map_map]
      exact List.mem_map.mpr ⟨a, ha, rfl⟩
  | some t =>
    apply get_of_distinct
    · simpa [List.map_map, Function.comp_def] using w.distinct
    · rw [List.map_map]
      exact List.mem_map.mpr ⟨a, ha, by simp only [Function.comp_apply, matchNode_given]⟩

theorem given_node {table : Option (List K8sNodeHealth)} {hostname : Option Text} {name : Text}
    {finding : Option NodeFinding} : given lowerCase table hostname = .node name finding ↔
      ∃ t h m, table = some t ∧ hostname = some h ∧ joined lowerCase t h = some m ∧
        name = m.name ∧ finding = problemOf t m.name := by
  unfold given
  cases table with
  | none => simp
  | some t =>
    cases hostname with
    | none => simp
    | some h =>
      simp only [Option.bind_some]
      cases hjoined : joined lowerCase t h with
      | none =>
        constructor
        · intro hgiven
          cases hgiven
        · rintro ⟨t', h', m, ht, hh, hm, -⟩
          cases ht
          cases hh
          rw [hjoined] at hm
          cases hm
      | some m =>
        constructor
        · intro hgiven
          cases hgiven
          exact ⟨t, h, m, rfl, rfl, hjoined, rfl, rfl⟩
        · rintro ⟨t', h', m', ht, hh, hm, rfl, rfl⟩
          cases ht
          cases hh
          rw [hjoined] at hm
          cases hm
          rfl

theorem joined_mem {t : List K8sNodeHealth} {h : Text} {m : K8sNodeHealth}
    (hjoined : joined lowerCase t h = some m) : m ∈ t := by
  unfold joined at hjoined
  split_ifs at hjoined
  exact List.mem_of_find?_eq_some hjoined

/-! ## Who is named -/

theorem blockReason_stopping {v : NodeVerdict} :
    (∃ reason, v.blockReason = some reason) ↔ stopping v := by
  constructor
  · rintro ⟨reason, hreason⟩
    cases v with
    | ok => cases hreason
    | pressure => cases hreason
    | notReady => exact .inl rfl
    | unreported => exact .inr (.inl rfl)
    | unschedulable => exact .inr (.inr rfl)
  · rintro (rfl | rfl | rfl)
    · exact ⟨_, rfl⟩
    · exact ⟨_, rfl⟩
    · exact ⟨_, rfl⟩

/-- The lines a summary has for a host, were it the only one. -/
def blockingLine (h : GateHost) : List Line :=
  match h.node with
  | some (.node _ (some f)) =>
    match f.verdict.blockReason with
    | some reason => [⟨h.serverName, f.node, h.serverName ++ ' ' :: reason⟩]
    | none => []
  | _ => []

def unreadLine (h : GateHost) : List Line :=
  match h.node with
  | some (.nodeUnread nodeName why) => [⟨h.serverName, nodeName, why⟩]
  | _ => []

theorem summariseHost_lines (s : NodeGateSummary) (h : GateHost) :
    (summariseHost s h).blocking = s.blocking ++ blockingLine h ∧
      (summariseHost s h).unread = s.unread ++ unreadLine h := by
  unfold summariseHost blockingLine unreadLine
  cases h.node with
  | none => simp
  | some n =>
    cases n with
    | notANode => simp
    | nodeUnread nodeName why => simp
    | unknown => simp
    | node name finding =>
      cases finding with
      | none => simp
      | some f =>
        by_cases hpressure : f.verdict = .pressure
        · have hnone : f.verdict.blockReason = none := by
            rw [hpressure]
            rfl
          simp only [if_pos hpressure, hnone]
          simp
        · simp only [if_neg hpressure]
          cases f.verdict.blockReason <;> simp

theorem summary_lines (s : NodeGateSummary) (hosts : List GateHost) :
    (hosts.foldl summariseHost s).blocking = s.blocking ++ hosts.flatMap blockingLine ∧
      (hosts.foldl summariseHost s).unread = s.unread ++ hosts.flatMap unreadLine := by
  induction hosts generalizing s with
  | nil => simp
  | cons h hosts ih =>
    obtain ⟨hblocking, hunread⟩ := ih (summariseHost s h)
    obtain ⟨hb, hu⟩ := summariseHost_lines s h
    rw [List.foldl_cons, hblocking, hunread, hb, hu, List.append_assoc, List.append_assoc]
    exact ⟨rfl, rfl⟩

theorem blockingLine_names {h : GateHost} {l : Line} (hl : l ∈ blockingLine h) :
    l.serverName = h.serverName ∧ ∃ name f, h.node = some (.node name (some f)) ∧
      stopping f.verdict := by
  unfold blockingLine at hl
  split at hl
  · rename_i name f hnode
    split at hl
    · rename_i reason hreason
      rw [List.mem_singleton.mp hl]
      exact ⟨rfl, name, f, hnode, blockReason_stopping.mp ⟨reason, hreason⟩⟩
    · cases hl
  · cases hl

theorem blockingLine_of {h : GateHost} {name : Text} {f : NodeFinding}
    (hnode : h.node = some (.node name (some f))) (hstop : stopping f.verdict) :
    ∃ l ∈ blockingLine h, l.serverName = h.serverName := by
  obtain ⟨reason, hreason⟩ := blockReason_stopping.mpr hstop
  unfold blockingLine
  rw [hnode]
  simp only [hreason]
  exact ⟨_, List.mem_singleton_self _, rfl⟩

theorem given_never_unread (table : Option (List K8sNodeHealth)) (hostname : Option Text)
    (name why : Text) : given lowerCase table hostname ≠ .nodeUnread name why := by
  unfold given
  split
  · simp
  · split <;> simp

/-- A name is on the summary exactly when some host shown by it is joined to a row whose name has a
problem that stops the run. -/
theorem named_iff (s : Text) :
    (∃ l ∈ (summaryOf lowerCase w).blocking ++ (summaryOf lowerCase w).unread, l.serverName = s) ↔
      ∃ a ∈ w.answers, a.serverName = s ∧ ∃ t h m f, cluster w.answers = some t ∧
        a.hostname = some h ∧ joined lowerCase t h = some m ∧ problemOf t m.name = some f ∧
          stopping f.verdict := by
  unfold summaryOf summariseNodeGate
  obtain ⟨hblocking, hunread⟩ := summary_lines ⟨[], [], [], [], []⟩ (gateHosts lowerCase w.answers)
  rw [hblocking, hunread, List.nil_append, List.nil_append]
  unfold gateHosts
  constructor
  · rintro ⟨l, hl, rfl⟩
    rcases List.mem_append.mp hl with hl | hl
    · obtain ⟨x, hx, hl⟩ := List.mem_flatMap.mp hl
      obtain ⟨a, ha, rfl⟩ := List.mem_map.mp hx
      obtain ⟨hname, name, f, hnode, hstop⟩ := blockingLine_names hl
      refine ⟨a, ha, hname.symm, ?_⟩
      simp only [get_given ha, Option.some.injEq] at hnode
      obtain ⟨t, h, m, ht, hh, hm, -, hf⟩ := given_node.mp hnode
      exact ⟨t, h, m, f, ht, hh, hm, hf.symm, hstop⟩
    · obtain ⟨x, hx, hl⟩ := List.mem_flatMap.mp hl
      obtain ⟨a, ha, rfl⟩ := List.mem_map.mp hx
      unfold unreadLine at hl
      split at hl
      · rename_i name why hnode
        simp only [get_given ha, Option.some.injEq] at hnode
        exact absurd hnode (given_never_unread _ _ _ _)
      · cases hl
  · rintro ⟨a, ha, rfl, t, h, m, f, ht, hh, hm, hf, hstop⟩
    have hnode : given lowerCase (cluster w.answers) a.hostname = .node m.name (some f) :=
      given_node.mpr ⟨t, h, m, ht, hh, hm, rfl, hf.symm⟩
    obtain ⟨l, hl, hname⟩ := blockingLine_of
      (h := ⟨a.serverName, (gateNodesFromWave lowerCase w.answers).get a.serverId⟩)
      (by rw [get_given ha, hnode]) hstop
    refine ⟨l, List.mem_append_left _ (List.mem_flatMap.mpr ⟨_, List.mem_map_of_mem ha, hl⟩), hname⟩

/-- The gate never passes on another machine's health exactly when the join gives every host its own
row wherever a table has it. -/
theorem never_anothers_health_iff (lowerCase : Text → Text) (w : Wave) :
    NeverAnothersHealth lowerCase w ↔ JoinsItsOwn lowerCase w := by
  constructor
  · rintro ⟨hnamed, hexact, hother⟩
    refine ⟨?_, ?_⟩
    · intro a ha h hh n hn hsame hstop
      exact (named_iff _).mp (hnamed a ha h hh n hn hsame hstop)
    · intro a ha h hh t m ht hm
      have hget : (gateNodesFromWave lowerCase w.answers).get a.serverId =
          some (.node m.name (problemOf t m.name)) := by
        rw [get_given ha]
        exact congrArg some (given_node.mpr ⟨t, h, m, ht, hh, hm, rfl, rfl⟩)
      by_cases hrow : ∃ n, ReadIn w n ∧ SameName lowerCase h n.name
      · obtain ⟨n, -, hsame, hname, -⟩ := hexact a ha h hh _ _ hget hrow
        rw [hname] at hsame
        exact .inl hsame
      · by_cases hqualified : Qualified lowerCase h ∧ Qualified lowerCase m.name
        · exact .inl (hother a ha h hh _ _ hget hqualified.1 hqualified.2)
        · refine .inr ⟨not_and_or.mp hqualified, ?_⟩
          intro n hn hsame
          exact hrow ⟨n, hn, hsame⟩
  · rintro ⟨hproblem, hown⟩
    have hgiven : ∀ a ∈ w.answers, ∀ h, a.hostname = some h → ∀ name finding,
        (gateNodesFromWave lowerCase w.answers).get a.serverId = some (.node name finding) →
          ∃ t m, cluster w.answers = some t ∧ joined lowerCase t h = some m ∧ name = m.name ∧
            finding = problemOf t m.name := by
      intro a ha h hh name finding hget
      rw [get_given ha] at hget
      obtain ⟨t, h', m, ht, hh', hm, hname, hfinding⟩ := given_node.mp (Option.some.inj hget)
      rw [hh] at hh'
      cases hh'
      exact ⟨t, m, ht, hm, hname, hfinding⟩
    refine ⟨?_, ?_, ?_⟩
    · intro a ha h hh n hn hsame hstop
      exact (named_iff _).mpr (hproblem a ha h hh n hn hsame hstop)
    · rintro a ha h hh name finding hget ⟨x, hx, hxname⟩
      obtain ⟨t, m, ht, hm, rfl, rfl⟩ := hgiven a ha h hh name finding hget
      rcases hown a ha h hh t m ht hm with hsame | ⟨-, hnone⟩
      · obtain ⟨n, hn, hname, hjudge⟩ := problemOf_row (joined_mem hm)
        exact ⟨n, cluster_read ht hn, by rw [hname]; exact hsame, hname, hjudge⟩
      · exact absurd hxname (hnone x hx)
    · intro a ha h hh name finding hget hq hq'
      obtain ⟨t, m, ht, hm, rfl, rfl⟩ := hgiven a ha h hh name finding hget
      rcases hown a ha h hh t m ht hm with hsame | ⟨hshort | hshort, -⟩
      · exact hsame
      · exact absurd hq hshort
      · exact absurd hq' hshort

/-! ## Two hosts of two domains -/

def controlOutput : Text :=
  "===SP-GATE-HOST===\nweb-1.a.example\n===SP-GATE-KUBECTL===\npresent\n".toList ++
    "===SP-GATE-NODES===\n".toList ++
    "web-1.a.example False False False True 4 8Gi 110 <none>\n".toList ++
    "web-1.b.example False False False False 4 8Gi 110 <none>\n".toList

def workerOutput : Text :=
  "===SP-GATE-HOST===\nweb-1.b.example\n===SP-GATE-KUBECTL===\nabsent\n".toList

def readyNode : K8sNodeHealth :=
  ⟨"web-1.a.example".toList, .False, .False, .False, .True, []⟩

def downNode : K8sNodeHealth :=
  ⟨"web-1.b.example".toList, .False, .False, .False, .False, []⟩

def controlRead : GateNodeRead :=
  ⟨some "web-1.a.example".toList, some [readyNode, downNode], .present⟩

def workerRead : GateNodeRead := ⟨some "web-1.b.example".toList, none, .absent⟩

/-- The second host's node is not ready, and the first host's table says so. -/
def twoDomains : Wave where
  answers := [⟨['1'], "one".toList, some controlRead⟩, ⟨['2'], "two".toList, some workerRead⟩]
  distinct := by decide

/-- The wave passes: the second host is judged by the node of the first one. -/
theorem wave_passes_on_another_domain :
    parseGateNodeRead controlOutput = controlRead ∧ parseGateNodeRead workerOutput = workerRead ∧
      (gateNodesFromWave toLowerCase twoDomains.answers).get ['2'] =
        some (.node "web-1.a.example".toList none) ∧
      summaryOf toLowerCase twoDomains = ⟨[], [], [], [], []⟩ ∧
      ¬ NeverAnothersHealth toLowerCase twoDomains := by
  have hsummary : summaryOf toLowerCase twoDomains = ⟨[], [], [], [], []⟩ := by decide +kernel
  refine ⟨by decide +kernel, by decide +kernel, by decide +kernel, hsummary, ?_⟩
  intro h
  have hread : ReadIn twoDomains downNode :=
    ⟨_, List.mem_cons_self, [readyNode, downNode], rfl, by simp⟩
  obtain ⟨l, hl, -⟩ := h.named ⟨['2'], "two".toList, some workerRead⟩
    (List.mem_cons_of_mem _ List.mem_cons_self) "web-1.b.example".toList rfl downNode hread rfl
    ⟨_, rfl, .inl rfl⟩
  rw [hsummary] at hl
  cases hl

end OpsMaxx.Gate
