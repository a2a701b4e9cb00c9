import Mathlib.Logic.Function.Basic
import Mathlib.Logic.Relation
import OpsMaxx.Interact.Prog
import OpsMaxx.Vpn.Netstate

/-!
# What is in force is on record

The machine a run changes, the deaths of the process in between, and the passes of later starts.
While a change is in force its snapshot is on disk, where every step of a pass that is to undo a
change does undo it and the clock still gives the boot the snapshot was taken in.
-/

set_option autoImplicit false

namespace OpsMaxx.Vpn

open OpsMaxx.Interact

/-! ## The machine -/

/-- What is left of a run's changes: its routes, and whether its resolver settings are. -/
structure Changes where
  routes : List RouteSpec := []
  dns : Bool := false

def Changes.InForce (ch : Changes) : Prop := ch.routes ≠ [] ∨ ch.dns = true

instance (ch : Changes) : Decidable ch.InForce :=
  inferInstanceAs (Decidable (ch.routes ≠ [] ∨ ch.dns = true))

def Changes.effect (ch : Changes) : NetCommand → Changes
  | .addRoute r _ => { ch with routes := r :: ch.routes }
  | .deleteRoute r _ => { ch with routes := ch.routes.filter (· ≠ r) }
  | .restoreDefault _ => ch
  | .setLinkDns .. | .setLinkDomains .. | .installResolvConf _ | .publishDns .. | .addDnsRules .. =>
    { ch with dns := true }
  | .revertLink _ | .relinkResolvConf _ | .reinstallResolvConf _ | .removeDns _
  | .removeDnsRules _ => { ch with dns := false }

/-- A snapshot file. A write that did not end leaves it torn. -/
inductive DiskFile
  | absent
  | torn
  | whole (state : NetStateFile)

/-- Times are in milliseconds. Files and changes belong to the directory of a run. -/
structure Net where
  wall : Int
  uptime : Nat
  files : String → DiskFile
  changes : String → Changes
  asked : List (String × NetCommand)

def Net.booted (wall : Int) (uptime : Nat) : Net where
  wall := wall
  uptime := uptime
  files := fun _ => .absent
  changes := fun _ => {}
  asked := []

/-- Nothing but the time is another. -/
def Net.Same (w w' : Net) : Prop :=
  w'.files = w.files ∧ w'.changes = w.changes ∧ w'.asked = w.asked

/-- How a request is served. A command may take effect or not, whatever it answers. An interface
that a run's routes are on is there. -/
def Served (w : Net) : (o : NetOp) → o.Reply → Net → Prop
  | .now, r, w' => r = w'.wall ∧ w.Same w'
  | .uptime .., (r : Nat), w' => (r ≤ w'.uptime ∧ w'.uptime < r + 1000) ∧ w.Same w'
  | .writeState seg state, r, w' =>
    (w'.files = Function.update w.files seg (.whole state) ∨
      r = false ∧ (w'.files = w.files ∨ w'.files = Function.update w.files seg .torn)) ∧
    w'.changes = w.changes ∧ w'.asked = w.asked
  | .privileged seg c, _, w' =>
    (w'.changes = w.changes ∨
      w'.changes = Function.update w.changes seg ((w.changes seg).effect c)) ∧
    w'.files = w.files ∧ w'.asked = (seg, c) :: w.asked
  | .readState name, r, w' => (∀ state, r = some state → w.files name = .whole state) ∧ w.Same w'
  | .interfaceExists name, r, w' =>
    (r = false → ∀ seg state, w.files seg = .whole state → state.interfaceName = name →
      (w.changes seg).routes = []) ∧ w.Same w'
  | .clearState seg, _, w' =>
    (w'.files = w.files ∨ w'.files = Function.update w.files seg .absent) ∧
    w'.changes = w.changes ∧ w'.asked = w.asked
  | _, _, w' => w.Same w'

/-- Requests that only look. -/
def NetOp.reads : NetOp → Bool
  | .writeState .. | .privileged .. | .clearState _ => false
  | _ => true

theorem Served.same {w w' : Net} {o : NetOp} {r : o.Reply} (h : Served w o r w')
    (hreads : o.reads = true) : w.Same w' := by
  cases o with
  | writeState | privileged | clearState => cases hreads
  | now | uptime | readState | interfaceExists => exact h.2
  | _ => exact h

/-- The machine as surroundings. `ok` is a condition on the replies. -/
def machine (ok : Net → (o : NetOp) → o.Reply → Net → Prop) (demand : Net → Prop) :
    Surroundings Net NetOp NetOp.Reply where
  drift _ w w' := w = w'
  demand _ w := demand w
  reply w o r w' := w.uptime ≤ w'.uptime ∧ Served w o r w' ∧ ok w o r w'
  drift_refl _ _ := rfl
  drift_trans _ _ _ _ h h' := h.trans h'

/-! ## Starts, deaths and passes -/

/-- What the process is in the middle of. -/
inductive Running
  | applying (p : Prog NetOp NetOp.Reply (Except String NetStateFile × List RestoreReport))
  | restoring (p : Prog NetOp NetOp.Reply (Except String Unit × List RestoreReport))

/-- One step of the machine and of the processes on it in turn. `ok` is what holds of the replies
to a pass. A run's id is a fresh one, and a process may die at any point. -/
inductive NetStep (deps : NetDeps) (platform : Platform)
    (ok : Net → (o : NetOp) → o.Reply → Net → Prop) : Option Running × Net → Option Running × Net → Prop
  | clock {w : Net} (wall : Int) {uptime : Nat} (h : w.uptime ≤ uptime) :
      NetStep deps platform ok (none, w) (none, { w with wall := wall, uptime := uptime })
  | interfaceGone {w : Net} (seg : String) :
      NetStep deps platform ok (none, w) (none, { w with
        changes := Function.update w.changes seg { (w.changes seg) with routes := [] } })
  | apply {w : Net} {runId seg : String} (channel : NetChannel) (plan : NetPlan)
      (hseg : runIdSegment runId = some seg) (hfresh : ¬(w.changes seg).InForce) :
      NetStep deps platform ok (none, w)
        (some (.applying (applyNetState deps platform runId seg channel plan [])), w)
  | restore {w : Net} (live : List String) :
      NetStep deps platform ok (none, w)
        (some (.restoring (restoreOrphanedNetstate deps platform live [])), w)
  | applyTurn {p p' : Prog NetOp NetOp.Reply (Except String NetStateFile × List RestoreReport)}
      {w w' : Net} (h : Turn (machine (fun _ _ _ _ => True) fun _ => True) (p, w) (p', w')) :
      NetStep deps platform ok (some (.applying p), w) (some (.applying p'), w')
  | restoreTurn {p p' : Prog NetOp NetOp.Reply (Except String Unit × List RestoreReport)}
      {w w' : Net} (h : Turn (machine ok fun _ => True) (p, w) (p', w')) :
      NetStep deps platform ok (some (.restoring p), w) (some (.restoring p'), w')
  | ends {w : Net} (r : Running) : NetStep deps platform ok (some r, w) (none, w)

/-- A run of the machine. -/
abbrev NetRun (deps : NetDeps) (platform : Platform)
    (ok : Net → (o : NetOp) → o.Reply → Net → Prop) :
    Option Running × Net → Option Running × Net → Prop :=
  Relation.ReflTransGen (NetStep deps platform ok)

def NetCommand.revertsDns : NetCommand → Bool
  | .revertLink _ | .relinkResolvConf _ | .reinstallResolvConf _ | .removeDns _
  | .removeDnsRules _ => true
  | _ => false

/-- A step of a pass that is to undo a change in force does undo it: the clock gives the boot the
snapshot was taken in, what a command deletes is gone after it, and what a command needs is there. -/
def Undoes (platform : Platform) (w : Net) : (o : NetOp) → o.Reply → Net → Prop
  | .uptime seg now, r, _ =>
    (w.changes seg).routes ≠ [] → ∀ state, w.files seg = .whole state →
      isFromCurrentBoot state now r = true
  | .privileged seg (.deleteRoute r _), _, w' => r ∉ (w'.changes seg).routes
  | .privileged seg c, _, w' => c.revertsDns = true → (w'.changes seg).dns = false
  | .interfaceIndexes seg, r, _ => ∀ route ∈ (w.changes seg).routes,
      (r.lookup route.interfaceName).isSome
  | .stage seg, r, _ => (w.changes seg).dns = true → r = true
  | .createContext seg, r, _ => (w.changes seg).dns = true → platform = .darwin →
      ∀ channel, r = some channel → channel.supportsStdin = true
  | _, _, _ => True

/-- A snapshot has what is in force. -/
structure Covers (deps : NetDeps) (state : NetStateFile) (ch : Changes) : Prop where
  routes : ∀ r ∈ ch.routes, ∃ snap, state.routes = some snap ∧
    r ∈ expandDefaultRoutes deps snap.planned
  dns : ch.dns = true → ∃ snap, state.dns = some snap ∧
    (state.platform = .linux → snap.resolvConf.isSome)

/-- What is in force is on record. -/
def OnRecord (deps : NetDeps) (w : Net) : Prop :=
  ∀ seg, (w.changes seg).InForce →
    ∃ state, w.files seg = .whole state ∧ Covers deps state (w.changes seg)

/-! ## What every step keeps -/

/-- What is in force is on record, and a record is in the directory of its own run. -/
def Kept (deps : NetDeps) (w : Net) : Prop :=
  OnRecord deps w ∧
    ∀ seg state, w.files seg = .whole state → runIdSegment state.runId = some seg

/-- The snapshot of a run is on disk. -/
def Held (deps : NetDeps) (seg : String) (state : NetStateFile) (w : Net) : Prop :=
  Kept deps w ∧ w.files seg = .whole state

section Kept
variable {deps : NetDeps} {seg : String} {state : NetStateFile} {w w' : Net} {ch : Changes}

theorem Covers.nil (deps : NetDeps) (state : NetStateFile) {ch : Changes} (h : ¬ch.InForce) :
    Covers deps state ch := by
  unfold Changes.InForce at h
  rw [not_or, not_not] at h
  refine ⟨fun r hr => ?_, fun hdns => absurd hdns h.2⟩
  rw [h.1] at hr
  cases hr

theorem Held.covers (h : Held deps seg state w) : Covers deps state (w.changes seg) := by
  by_cases hforce : (w.changes seg).InForce
  · obtain ⟨state', hfile, hcovers⟩ := h.1.1 seg hforce
    rw [h.2] at hfile
    cases hfile
    exact hcovers
  · exact .nil deps state hforce

theorem Kept.same (h : Kept deps w) (hsame : w.Same w') : Kept deps w' := by
  obtain ⟨hfiles, hchanges, -⟩ := hsame
  unfold Kept OnRecord
  rw [hfiles, hchanges]
  exact h

theorem Held.same (h : Held deps seg state w) (hsame : w.Same w') : Held deps seg state w' := by
  refine ⟨h.1.same hsame, ?_⟩
  rw [hsame.1]
  exact h.2

/-- Another directory's snapshot and changes stay; the run's own changes are covered. -/
theorem Held.change (h : Held deps seg state w) (hfiles : w'.files = w.files)
    (hchanges : w'.changes = Function.update w.changes seg ch) (hcovers : Covers deps state ch) :
    Held deps seg state w' := by
  refine ⟨⟨fun seg' hforce => ?_, ?_⟩, by rw [hfiles]; exact h.2⟩
  · rw [hfiles]
    rw [hchanges] at hforce ⊢
    by_cases hseg : seg' = seg
    · subst hseg
      rw [Function.update_self]
      exact ⟨state, h.2, hcovers⟩
    · rw [Function.update_of_ne hseg] at hforce ⊢
      exact h.1.1 seg' hforce
  · rw [hfiles]
    exact h.1.2

/-- A snapshot is written, or not, in the directory of a run with nothing in force. -/
theorem Kept.write (h : Kept deps w) (hfresh : ¬(w.changes seg).InForce) {file : DiskFile}
    (hfile : ∀ state, file = .whole state → runIdSegment state.runId = some seg)
    (hfiles : w'.files = Function.update w.files seg file) (hchanges : w'.changes = w.changes) :
    Kept deps w' := by
  refine ⟨fun seg' hforce => ?_, fun seg' state' hwhole => ?_⟩
  · rw [hchanges] at hforce ⊢
    rw [hfiles]
    have hseg : seg' ≠ seg := fun hseg => hfresh (hseg ▸ hforce)
    rw [Function.update_of_ne hseg]
    exact h.1 seg' hforce
  · rw [hfiles] at hwhole
    by_cases hseg : seg' = seg
    · subst hseg
      rw [Function.update_self] at hwhole
      exact hfile state' hwhole
    · rw [Function.update_of_ne hseg] at hwhole
      exact h.2 seg' state' hwhole

end Kept

/-! ## A run that changes what it recorded -/

/-- The snapshot has what the command would put in force. -/
def Safe (deps : NetDeps) (state : NetStateFile) : NetCommand → Prop
  | .addRoute r _ => ∃ snap, state.routes = some snap ∧ r ∈ expandDefaultRoutes deps snap.planned
  | .setLinkDns .. | .setLinkDomains .. | .installResolvConf _ | .publishDns .. | .addDnsRules .. =>
    ∃ snap, state.dns = some snap ∧ (state.platform = .linux → snap.resolvConf.isSome)
  | _ => True

section Applying
variable {deps : NetDeps} {seg : String} {state : NetStateFile} {w w' : Net} {ch : Changes}
  {ok : Net → (o : NetOp) → o.Reply → Net → Prop}

theorem Covers.effect (h : Covers deps state ch) {c : NetCommand} (hsafe : Safe deps state c) :
    Covers deps state (ch.effect c) := by
  cases c with
  | addRoute r index =>
    refine ⟨fun r' hr' => ?_, h.dns⟩
    rcases List.mem_cons.mp hr' with rfl | hr'
    · exact hsafe
    · exact h.routes r' hr'
  | deleteRoute r index => exact ⟨fun r' hr' => h.routes r' (List.mem_of_mem_filter hr'), h.dns⟩
  | restoreDefault d => exact h
  | setLinkDns | setLinkDomains | installResolvConf | publishDns | addDnsRules =>
    exact ⟨h.routes, fun _ => hsafe⟩
  | revertLink | relinkResolvConf | reinstallResolvConf | removeDns | removeDnsRules =>
    exact ⟨h.routes, fun hdns => Bool.noConfusion hdns⟩

theorem Held.privileged (h : Held deps seg state w) {c : NetCommand}
    {r : (NetOp.privileged seg c).Reply} (hsafe : Safe deps state c)
    (hserved : Served w (.privileged seg c) r w') : Held deps seg state w' := by
  obtain ⟨hchanges, hfiles, -⟩ := hserved
  rcases hchanges with hchanges | hchanges
  · refine h.change hfiles ?_ h.covers
    rw [hchanges, Function.update_eq_self]
  · exact h.change hfiles hchanges (h.covers.effect hsafe)

theorem keeps_read {α : Type} {o : NetOp} {f : o.Reply → Except String α}
    (hreads : o.reads = true) :
    Proc.Keeps (machine ok (Kept deps)) (Held deps seg state)
      (Proc.request o f : NetProc α) := by
  apply Proc.keeps_request
  rintro w w₁ hw rfl
  exact ⟨hw.1, fun r w₂ hreply => hw.same (hreply.2.1.same hreads)⟩

theorem keeps_runPrivileged {c : NetCommand} (hsafe : Safe deps state c) :
    Proc.Keeps (machine ok (Kept deps)) (Held deps seg state) (runPrivileged seg c) := by
  apply Proc.keeps_request
  rintro w w₁ hw rfl
  exact ⟨hw.1, fun r w₂ hreply => hw.privileged hsafe hreply.2.1⟩

theorem keeps_tryPrivileged {c : NetCommand} (hsafe : Safe deps state c) :
    Proc.Keeps (machine ok (Kept deps)) (Held deps seg state) (tryPrivileged seg c) := by
  apply Proc.keeps_request
  rintro w w₁ hw rfl
  exact ⟨hw.1, fun r w₂ hreply => hw.privileged hsafe hreply.2.1⟩

theorem keeps_addRoutesLinux {rs : List RouteSpec}
    (hrs : ∀ r ∈ rs, ∀ index, Safe deps state (.addRoute r index)) :
    Proc.Keeps (machine ok (Kept deps)) (Held deps seg state) (addRoutesLinux seg rs) := by
  induction rs with
  | nil => exact Proc.keeps_pure ()
  | cons r rs ih =>
    unfold addRoutesLinux
    refine Proc.Keeps.bind (keeps_runPrivileged (hrs r List.mem_cons_self none)) fun res => ?_
    split_ifs
    · exact ih fun r' hr' => hrs r' (List.mem_cons_of_mem r hr')
    · exact Proc.keeps_throw _

theorem keeps_addRoutesDarwin {rs : List RouteSpec}
    (hrs : ∀ r ∈ rs, ∀ index, Safe deps state (.addRoute r index)) :
    Proc.Keeps (machine ok (Kept deps)) (Held deps seg state) (addRoutesDarwin seg rs) := by
  induction rs with
  | nil => exact Proc.keeps_pure ()
  | cons r rs ih =>
    have hrest := ih fun r' hr' => hrs r' (List.mem_cons_of_mem r hr')
    unfold addRoutesDarwin
    refine Proc.Keeps.bind (keeps_runPrivileged (hrs r List.mem_cons_self none)) fun res => ?_
    split_ifs
    · exact hrest
    · refine Proc.Keeps.bind (keeps_read rfl) fun there => ?_
      split_ifs
      · exact hrest
      · exact Proc.keeps_throw _

theorem keeps_addRoutesWin32 {rs : List RouteSpec} (indexes : List (String × Nat))
    (hrs : ∀ r ∈ rs, ∀ index, Safe deps state (.addRoute r index)) :
    Proc.Keeps (machine ok (Kept deps)) (Held deps seg state)
      (addRoutesWin32 seg indexes rs) := by
  induction rs with
  | nil => exact Proc.keeps_pure ()
  | cons r rs ih =>
    have hrest := ih fun r' hr' => hrs r' (List.mem_cons_of_mem r hr')
    unfold addRoutesWin32
    cases indexes.lookup r.interfaceName with
    | none => exact Proc.keeps_throw _
    | some index =>
      refine Proc.Keeps.bind (keeps_runPrivileged (hrs r List.mem_cons_self (some index))) fun res => ?_
      split_ifs
      · exact hrest
      · refine Proc.Keeps.bind (keeps_read rfl) fun there => ?_
        split_ifs
        · exact hrest
        · exact Proc.keeps_throw _

theorem keeps_applyRoutes (platform : Platform) {routes : List RouteSpec}
    (hrs : ∀ r ∈ expandDefaultRoutes deps routes, ∀ index, Safe deps state (.addRoute r index)) :
    Proc.Keeps (machine ok (Kept deps)) (Held deps seg state)
      (applyRoutes deps platform seg routes) := by
  cases platform with
  | linux => exact keeps_addRoutesLinux hrs
  | darwin => exact keeps_addRoutesDarwin hrs
  | win32 =>
    refine Proc.Keeps.bind (keeps_read rfl) fun indexes => ?_
    exact keeps_addRoutesWin32 indexes hrs
  | other name => exact Proc.keeps_throw _

theorem keeps_deleteRoutes (rs : List RouteSpec) :
    Proc.Keeps (machine ok (Kept deps)) (Held deps seg state) (deleteRoutes seg rs) := by
  induction rs with
  | nil => exact Proc.keeps_pure ()
  | cons r rs ih => exact Proc.Keeps.bind (keeps_tryPrivileged trivial) fun _ => ih

theorem keeps_deleteRoutesWin32 (known : List (String × Nat)) (rs : List RouteSpec) :
    Proc.Keeps (machine ok (Kept deps)) (Held deps seg state)
      (deleteRoutesWin32 seg known rs) := by
  induction rs with
  | nil => exact Proc.keeps_pure ()
  | cons r rs ih =>
    refine Proc.Keeps.bind ?_ fun _ => ih
    unfold deleteRouteWin32
    cases known.lookup r.interfaceName with
    | some index => exact keeps_tryPrivileged trivial
    | none =>
      refine Proc.Keeps.bind (keeps_read rfl) fun fresh => ?_
      cases List.lookup r.interfaceName fresh with
      | some index => exact keeps_tryPrivileged trivial
      | none => exact Proc.keeps_pure ()

theorem keeps_restoreDefaults (platform : Platform) (ds : List RouteEntry) :
    Proc.Keeps (machine ok (Kept deps)) (Held deps seg state)
      (restoreDefaults deps platform seg ds) := by
  induction ds with
  | nil => exact Proc.keeps_pure ()
  | cons d ds ih =>
    refine Proc.Keeps.bind ?_ fun _ => ih
    unfold restoreDefault
    split_ifs
    · refine Proc.Keeps.bind (keeps_read rfl) fun there => ?_
      split_ifs
      · exact Proc.keeps_pure ()
      · exact keeps_tryPrivileged trivial
    · exact Proc.keeps_pure ()

theorem keeps_revertRoutes (platform : Platform) (snapshot : RouteSnapshot) :
    Proc.Keeps (machine ok (Kept deps)) (Held deps seg state)
      (revertRoutes deps platform seg snapshot) := by
  cases platform with
  | linux | darwin => exact (keeps_deleteRoutes _).bind fun _ => keeps_restoreDefaults _ _
  | win32 => exact keeps_deleteRoutesWin32 _ _
  | other name => exact Proc.keeps_throw _

theorem keeps_setDns (spec : DnsSpec) (tool : String) {c : NetCommand}
    (hsafe : Safe deps state c) :
    Proc.Keeps (machine ok (Kept deps)) (Held deps seg state) (setDns seg spec tool c) := by
  refine Proc.Keeps.bind (keeps_runPrivileged hsafe) fun res => ?_
  split_ifs
  · exact Proc.keeps_pure ()
  · exact Proc.keeps_throw _

theorem keeps_applyDns (platform : Platform) (runId : String) (channel : NetChannel)
    (spec : DnsSpec) (hdns : ∃ snap, state.dns = some snap ∧
      (state.platform = .linux → snap.resolvConf.isSome)) :
    Proc.Keeps (machine ok (Kept deps)) (Held deps seg state)
      (applyDns deps platform runId seg channel spec) := by
  unfold applyDns
  cases platform with
  | other name => exact Proc.keeps_throw _
  | darwin =>
    cases deps.assertDnsSpec spec with
    | some message => exact Proc.keeps_throw _
    | none =>
      dsimp only
      split_ifs
      · exact keeps_setDns _ _ hdns
      · exact Proc.keeps_throw _
  | win32 =>
    cases deps.assertDnsSpec spec with
    | some message => exact Proc.keeps_throw _
    | none =>
      refine Proc.Keeps.bind (keeps_runPrivileged hdns) fun res => ?_
      split_ifs
      · exact Proc.keeps_pure ()
      · exact Proc.keeps_throw _
  | linux =>
    cases deps.assertDnsSpec spec with
    | some message => exact Proc.keeps_throw _
    | none =>
      refine Proc.Keeps.bind (keeps_read rfl) fun backend => ?_
      cases backend with
      | resolvectl => exact Proc.Keeps.bind (keeps_setDns _ _ hdns) fun _ => keeps_setDns _ _ hdns
      | resolvConf =>
        refine Proc.Keeps.bind (keeps_read rfl) fun staged => ?_
        split_ifs
        · exact keeps_setDns _ _ hdns
        · exact Proc.keeps_throw _

theorem keeps_revertDns (platform : Platform) (runId : String) (channel : NetChannel)
    (snapshot : DnsSnapshot) :
    Proc.Keeps (machine ok (Kept deps)) (Held deps seg state)
      (revertDns platform runId seg channel snapshot) := by
  unfold revertDns
  cases platform with
  | other name => exact Proc.keeps_throw _
  | win32 => exact keeps_tryPrivileged trivial
  | darwin =>
    dsimp only
    by_cases hstdin : channel.supportsStdin = true
    · rw [if_pos hstdin]
      exact keeps_tryPrivileged trivial
    · rw [if_neg hstdin]
      exact Proc.keeps_pure ()
  | linux =>
    dsimp only
    split_ifs
    · exact keeps_tryPrivileged trivial
    · cases snapshot.resolvConf with
      | none => exact Proc.keeps_pure ()
      | some original =>
        dsimp only
        cases original.symlinkTarget.filter (· ≠ "") with
        | some target => exact keeps_tryPrivileged trivial
        | none =>
          refine Proc.Keeps.bind (keeps_read rfl) fun staged => ?_
          split_ifs
          · exact keeps_tryPrivileged trivial
          · exact Proc.keeps_pure ()

theorem keeps_revertNetState (platform : Platform) (channel : NetChannel)
    (state' : NetStateFile) :
    Proc.Keeps (machine ok (Kept deps)) (Held deps seg state)
      (revertNetState deps platform seg channel state') := by
  refine Proc.Keeps.bind ?_ fun _ => ?_
  · unfold dnsHalf
    cases state'.dns with
    | some snapshot => exact keeps_revertDns _ _ _ _
    | none => exact Proc.keeps_pure ()
  · unfold routesHalf
    cases state'.routes with
    | some snapshot => exact keeps_revertRoutes _ _
    | none => exact Proc.keeps_pure ()

theorem keeps_applyRoutesHalf (platform : Platform) {plan : NetPlan}
    (hplanned : ∀ snap, state.routes = some snap → plan.routes = some snap.planned) :
    Proc.Keeps (machine ok (Kept deps)) (Held deps seg state)
      (applyRoutesHalf deps platform seg plan state) := by
  unfold applyRoutesHalf
  cases hroutes : state.routes with
  | none => exact Proc.keeps_pure ()
  | some snap =>
    rw [hplanned snap hroutes]
    exact keeps_applyRoutes platform fun r hr index => ⟨snap, hroutes, hr⟩

theorem keeps_applyDnsHalf (platform : Platform) (channel : NetChannel) (plan : NetPlan)
    (hconf : ∀ snap, state.dns = some snap → state.platform = .linux → snap.resolvConf.isSome) :
    Proc.Keeps (machine ok (Kept deps)) (Held deps seg state)
      (applyDnsHalf deps platform seg channel plan state) := by
  unfold applyDnsHalf
  cases hdns : state.dns with
  | none => exact Proc.keeps_pure ()
  | some snap =>
    cases plan.dns with
    | none => exact Proc.keeps_pure ()
    | some spec =>
      refine Proc.Keeps.bind
        (keeps_applyDns platform state.runId channel spec ⟨snap, hdns, hconf snap hdns⟩) fun _ => ?_
      refine Proc.Keeps.bind (keeps_read rfl) fun check => ?_
      cases check with
      | failed reason => exact Proc.keeps_throw _
      | ok | skipped reason => exact Proc.keeps_pure ()

theorem keeps_changeOrRollBack (platform : Platform) (channel : NetChannel) {plan : NetPlan}
    (hplanned : ∀ snap, state.routes = some snap → plan.routes = some snap.planned)
    (hconf : ∀ snap, state.dns = some snap → state.platform = .linux → snap.resolvConf.isSome) :
    Proc.Keeps (machine ok (Kept deps)) (Held deps seg state)
      (changeOrRollBack deps platform seg channel plan state) := by
  have hchanges : Proc.Keeps (machine ok (Kept deps)) (Held deps seg state)
      (applyChanges deps platform seg channel plan state) :=
    (keeps_applyRoutesHalf platform hplanned).bind fun _ => keeps_applyDnsHalf _ _ _ hconf
  refine Proc.Keeps.bind hchanges.attempt fun outcome => ?_
  cases outcome with
  | ok _ => exact Proc.keeps_pure state
  | error e =>
    exact (keeps_revertNetState platform channel state).attempt.bind fun _ => Proc.keeps_throw e

/-- Until the snapshot is written nothing of the run is in force. -/
def Unchanged (deps : NetDeps) (seg : String) (w : Net) : Prop :=
  Kept deps w ∧ ¬(w.changes seg).InForce

theorem Unchanged.same (h : Unchanged deps seg w) (hsame : w.Same w') : Unchanged deps seg w' := by
  refine ⟨h.1.same hsame, ?_⟩
  rw [hsame.2.1]
  exact h.2

/-- A request that reads, before the snapshot is written. -/
theorem wp_read {α : Type} {o : NetOp} {f : o.Reply → Except String α}
    (hreads : o.reads = true)
    {Q : Except String α → List RestoreReport → Net → Prop} {s : List RestoreReport}
    (h : Unchanged deps seg w) (hQ : ∀ r w', Unchanged deps seg w' → Q (f r) s w') :
    Proc.wp (machine ok (Kept deps)) (Proc.request o f : NetProc α) Q s w := by
  rw [Proc.wp_request]
  rintro w₁ rfl
  exact ⟨h.1, fun r w' hreply => hQ r w' (h.same (hreply.2.1.same hreads))⟩

theorem planRoutes_spec (platform : Platform) (plan : NetPlan) (s : List RestoreReport)
    (h : Unchanged deps seg w) :
    Proc.wp (machine ok (Kept deps)) (planRoutes platform plan) (fun x _ w' =>
      Unchanged deps seg w' ∧ ∀ routes, x = .ok routes →
        ∀ snap, routes = some snap → plan.routes = some snap.planned) s w := by
  have hnone : ∀ w', Unchanged deps seg w' → (Unchanged deps seg w' ∧
      ∀ routes, (.ok none : Except String (Option RouteSnapshot)) = .ok routes →
        ∀ snap, routes = some snap → plan.routes = some snap.planned) := by
    intro w' hw'
    refine ⟨hw', fun routes hroutes snap hsnap => ?_⟩
    cases hroutes
    cases hsnap
  unfold planRoutes
  cases hplan : plan.routes with
  | none =>
    rw [hplan] at hnone
    exact hnone w h
  | some routes =>
    cases routes with
    | nil =>
      rw [hplan] at hnone
      exact hnone w h
    | cons r rs =>
      dsimp only
      rw [Proc.wp_bind]
      cases platform with
      | other name =>
        refine ⟨h, fun routes hroutes => ?_⟩
        cases hroutes
      | darwin | win32 | linux =>
        refine wp_read rfl h fun snap w' hw' => ?_
        refine ⟨hw', fun routes hroutes snap' hsnap => ?_⟩
        cases hroutes
        cases hsnap
        rfl

theorem planDns_spec (platform : Platform) (runId : String) (plan : NetPlan)
    (s : List RestoreReport) (h : Unchanged deps seg w) :
    Proc.wp (machine ok (Kept deps)) (planDns platform runId plan) (fun x _ w' =>
      Unchanged deps seg w' ∧ ∀ dns, x = .ok dns →
        ∀ snap, dns = some snap → platform = .linux → snap.resolvConf.isSome) s w := by
  unfold planDns
  cases plan.dns with
  | none =>
    refine ⟨h, fun dns hdns snap hsnap => ?_⟩
    cases hdns
    cases hsnap
  | some spec =>
    dsimp only
    rw [Proc.wp_bind]
    cases platform with
    | other name =>
      refine ⟨h, fun dns hdns => ?_⟩
      cases hdns
    | darwin | win32 =>
      refine ⟨h, fun dns hdns snap hsnap hlinux => ?_⟩
      cases hlinux
    | linux =>
      show Proc.wp _ (ask .detectBackend >>= fun backend => ask .readResolvConf >>= fun file =>
        pure _) _ s w
      rw [Proc.wp_bind]
      refine wp_read rfl h fun backend w₁ h₁ => ?_
      dsimp only
      rw [Proc.wp_bind]
      refine wp_read rfl h₁ fun file w₂ h₂ => ?_
      refine ⟨h₂, fun dns hdns snap hsnap _ => ?_⟩
      cases hdns
      cases hsnap
      rfl

/-- A run keeps what is in force on record at every point. -/
theorem applyNetState_spec (platform : Platform) {runId : String} (channel : NetChannel)
    (plan : NetPlan) (s : List RestoreReport) (hseg : runIdSegment runId = some seg)
    (h : Unchanged deps seg w) :
    Proc.wp (machine ok (Kept deps)) (applyNetState deps platform runId seg channel plan)
      (fun _ _ w' => Kept deps w') s w := by
  unfold applyNetState
  rw [Proc.wp_bind]
  refine wp_read rfl h fun now w₁ h₁ => ?_
  dsimp only
  rw [Proc.wp_bind]
  refine wp_read rfl h₁ fun uptime w₂ h₂ => ?_
  dsimp only
  rw [Proc.wp_bind]
  apply (planRoutes_spec platform plan s h₂).imp
  rintro (e | routes) s₃ w₃ ⟨h₃, hroutes⟩
  · exact h₃.1
  dsimp only
  rw [Proc.wp_bind]
  apply (planDns_spec platform runId plan s₃ h₃).imp
  rintro (e | dns) s₄ w₄ ⟨h₄, hdns⟩
  · exact h₄.1
  dsimp only
  rw [Proc.wp_bind, ask, Proc.wp_request]
  rintro w₅ rfl
  refine ⟨h₄.1, fun written w₆ hreply => ?_⟩
  obtain ⟨hfiles, hchanges, -⟩ := hreply.2.1
  dsimp only
  generalize hstate : (NetStateFile.mk runId platform plan.interfaceName now (bootTime now uptime)
    routes dns) = state at hfiles ⊢
  have hwhole : w₆.files = Function.update w₄.files seg (.whole state) →
      Held deps seg state w₆ := by
    intro hupdate
    refine ⟨h₄.1.write h₄.2 (fun state' hstate' => ?_) hupdate hchanges, ?_⟩
    · cases hstate'
      rw [← hstate]
      exact hseg
    · rw [hupdate, Function.update_self]
  have hkept : Kept deps w₆ := by
    rcases hfiles with hupdate | ⟨-, hnone | htorn⟩
    · exact (hwhole hupdate).1
    · obtain ⟨hrecord, hfiled⟩ := h₄.1
      unfold Kept OnRecord
      rw [hnone, hchanges]
      exact ⟨hrecord, hfiled⟩
    · exact h₄.1.write h₄.2 (fun state' hstate' => by cases hstate') htorn hchanges
  by_cases hwritten : written = true
  · rw [if_pos hwritten]
    have hupdate := hfiles.resolve_right fun hnot => by
      rw [hnot.1] at hwritten
      cases hwritten
    have hkeeps : Proc.Keeps (machine ok (Kept deps)) (Held deps seg state)
        (changeOrRollBack deps platform seg channel plan state) := by
      subst hstate
      exact keeps_changeOrRollBack platform channel (hroutes routes rfl) (hdns dns rfl)
    exact (hkeeps s₄ w₆ (hwhole hupdate)).imp fun _ _ _ hheld => hheld.1
  · rw [if_neg hwritten]
    exact hkept

end Applying

/-! ## A pass that undoes what it finds -/

/-- The snapshot is on disk, and this is what is left of its changes. -/
def Standing (deps : NetDeps) (seg : String) (state : NetStateFile) (ch : Changes) (w : Net) :
    Prop :=
  Held deps seg state w ∧ w.changes seg = ch

section Restoring
variable {deps : NetDeps} {seg : String} {state : NetStateFile} {w w' : Net} {ch : Changes}
  {platform : Platform} {s : List RestoreReport}

theorem Standing.covers (h : Standing deps seg state ch w) : Covers deps state ch := by
  rw [← h.2]
  exact h.1.covers

theorem wp_look {α : Type} {o : NetOp} {f : o.Reply → Except String α} (hreads : o.reads = true)
    {Q : Except String α → List RestoreReport → Net → Prop} (h : Standing deps seg state ch w)
    (hQ : ∀ r w', Standing deps seg state ch w' → Served w o r w' → Undoes platform w o r w' →
      Q (f r) s w') :
    Proc.wp (machine (Undoes platform) (Kept deps)) (Proc.request o f : NetProc α) Q s w := by
  rw [Proc.wp_request]
  rintro w₁ rfl
  refine ⟨h.1.1, fun r w' hreply => ?_⟩
  have hsame := hreply.2.1.same hreads
  refine hQ r w' ⟨h.1.same hsame, ?_⟩ hreply.2.1 hreply.2.2
  rw [hsame.2.1]
  exact h.2

/-- A command of the run is tried. -/
theorem wp_tried {c : NetCommand} (hsafe : Safe deps state c)
    {Q : Except String Unit → List RestoreReport → Net → Prop} (h : Standing deps seg state ch w)
    (hQ : ∀ ch' w', (ch' = ch ∨ ch' = ch.effect c) → Standing deps seg state ch' w' →
      (∀ r, Undoes platform w (.privileged seg c) r w' → Q (.ok ()) s w')) :
    Proc.wp (machine (Undoes platform) (Kept deps)) (tryPrivileged seg c) Q s w := by
  unfold tryPrivileged
  rw [Proc.wp_request]
  rintro w₁ rfl
  refine ⟨h.1.1, fun r w' hreply => ?_⟩
  have hheld := h.1.privileged hsafe hreply.2.1
  rcases hreply.2.1.1 with hchanges | hchanges
  · refine hQ ch w' (Or.inl rfl) ⟨hheld, ?_⟩ r hreply.2.2
    rw [hchanges]
    exact h.2
  · refine hQ (ch.effect c) w' (Or.inr rfl) ⟨hheld, ?_⟩ r hreply.2.2
    rw [hchanges, Function.update_self, h.2]

/-- One route is gone, and nothing new is in force. -/
def Deleted (deps : NetDeps) (seg : String) (state : NetStateFile) (ch : Changes) (r : RouteSpec)
    (w' : Net) : Prop :=
  ∃ ch', Standing deps seg state ch' w' ∧ (∀ r' ∈ ch'.routes, r' ∈ ch.routes ∧ r' ≠ r) ∧
    ch'.dns = ch.dns

theorem tryDelete_spec (r : RouteSpec) (index : Option Nat) (h : Standing deps seg state ch w) :
    Proc.wp (machine (Undoes platform) (Kept deps)) (tryPrivileged seg (.deleteRoute r index))
      (fun x _ w' => x = .ok () ∧ Deleted deps seg state ch r w') s w := by
  refine wp_tried (by trivial) h fun ch' w' hch hstanding _ hgone => ?_
  have hnot : r ∉ ch'.routes := by
    rw [← hstanding.2]
    exact hgone
  have hless : (∀ r' ∈ ch'.routes, r' ∈ ch.routes) ∧ ch'.dns = ch.dns := by
    rcases hch with rfl | rfl
    · exact ⟨fun _ hr' => hr', rfl⟩
    · exact ⟨fun _ hr' => List.mem_of_mem_filter hr', rfl⟩
  refine ⟨rfl, ch', hstanding, fun r' hr' => ⟨hless.1 r' hr', fun heq => ?_⟩, hless.2⟩
  rw [heq] at hr'
  exact hnot hr'

theorem deleteRouteWin32_spec (known : List (String × Nat)) (r : RouteSpec)
    (h : Standing deps seg state ch w) :
    Proc.wp (machine (Undoes platform) (Kept deps)) (deleteRouteWin32 seg known r)
      (fun x _ w' => x = .ok () ∧ Deleted deps seg state ch r w') s w := by
  unfold deleteRouteWin32
  cases known.lookup r.interfaceName with
  | some index => exact tryDelete_spec r (some index) h
  | none =>
    dsimp only
    rw [Proc.wp_bind]
    refine wp_look rfl h fun fresh w' h' _ hindex => ?_
    dsimp only
    cases hfresh : List.lookup r.interfaceName fresh with
    | some index => exact tryDelete_spec r (some index) h'
    | none =>
      refine ⟨rfl, ch, h', fun r' hr' => ⟨hr', fun heq => ?_⟩, rfl⟩
      have hsome := hindex r' (by rw [h.2]; exact hr')
      rw [heq, hfresh] at hsome
      cases hsome

/-- The routes are gone. -/
def Bare (deps : NetDeps) (seg : String) (state : NetStateFile) (dns : Bool) (w' : Net) : Prop :=
  ∃ ch', Standing deps seg state ch' w' ∧ ch'.routes = [] ∧ ch'.dns = dns

theorem bare_of_nil (h : Standing deps seg state ch w) (hnone : ∀ r ∈ ch.routes, r ∈ ([] : List RouteSpec)) :
    Bare deps seg state ch.dns w :=
  ⟨ch, h, List.eq_nil_iff_forall_not_mem.mpr fun r hr => List.not_mem_nil (hnone r hr), rfl⟩

theorem Deleted.rest {r : RouteSpec} {rs : List RouteSpec} (hrs : ∀ r' ∈ ch.routes, r' ∈ r :: rs)
    (h : Deleted deps seg state ch r w) :
    ∃ ch', Standing deps seg state ch' w ∧ (∀ r' ∈ ch'.routes, r' ∈ rs) ∧ ch'.dns = ch.dns := by
  obtain ⟨ch', hstanding, hless, hdns⟩ := h
  refine ⟨ch', hstanding, fun r' hr' => ?_, hdns⟩
  exact (List.mem_cons.mp (hrs r' (hless r' hr').1)).resolve_left (hless r' hr').2

theorem deleteRoutes_spec {rs : List RouteSpec} (hrs : ∀ r ∈ ch.routes, r ∈ rs)
    (h : Standing deps seg state ch w) :
    Proc.wp (machine (Undoes platform) (Kept deps)) (deleteRoutes seg rs)
      (fun x _ w' => x = .ok () ∧ Bare deps seg state ch.dns w') s w := by
  induction rs generalizing ch w s with
  | nil => exact ⟨rfl, bare_of_nil h hrs⟩
  | cons r rs ih =>
    unfold deleteRoutes
    rw [Proc.wp_bind]
    apply (tryDelete_spec r none h).imp
    rintro _ s' w' ⟨rfl, hdeleted⟩
    obtain ⟨ch', hstanding, hrest, hdns⟩ := hdeleted.rest hrs
    rw [← hdns]
    exact ih hrest hstanding

theorem deleteRoutesWin32_spec (known : List (String × Nat)) {rs : List RouteSpec}
    (hrs : ∀ r ∈ ch.routes, r ∈ rs) (h : Standing deps seg state ch w) :
    Proc.wp (machine (Undoes platform) (Kept deps)) (deleteRoutesWin32 seg known rs)
      (fun x _ w' => x = .ok () ∧ Bare deps seg state ch.dns w') s w := by
  induction rs generalizing ch w s with
  | nil => exact ⟨rfl, bare_of_nil h hrs⟩
  | cons r rs ih =>
    unfold deleteRoutesWin32
    rw [Proc.wp_bind]
    apply (deleteRouteWin32_spec known r h).imp
    rintro _ s' w' ⟨rfl, hdeleted⟩
    obtain ⟨ch', hstanding, hrest, hdns⟩ := hdeleted.rest hrs
    rw [← hdns]
    exact ih hrest hstanding

theorem restoreDefaults_spec (ds : List RouteEntry) (h : Standing deps seg state ch w) :
    Proc.wp (machine (Undoes platform) (Kept deps)) (restoreDefaults deps platform seg ds)
      (fun _ _ w' => Standing deps seg state ch w') s w := by
  induction ds generalizing w s with
  | nil => exact h
  | cons d ds ih =>
    have hone : Proc.wp (machine (Undoes platform) (Kept deps)) (restoreDefault deps platform seg d)
        (fun x _ w' => x = .ok () ∧ Standing deps seg state ch w') s w := by
      unfold restoreDefault
      by_cases hdefault : d.gateway.any (· ≠ "") ∧
          (platform = .darwin ∨ d.interfaceName.any (· ≠ "")) ∧ isDefaultOf deps d
      · rw [if_pos hdefault, Proc.wp_bind]
        refine wp_look rfl h fun there w' h' _ _ => ?_
        dsimp only
        split_ifs
        · exact ⟨rfl, h'⟩
        · refine wp_tried (by trivial) h' fun ch' w'' hch hstanding _ _ => ?_
          obtain rfl : ch' = ch := hch.elim id id
          exact ⟨rfl, hstanding⟩
      · rw [if_neg hdefault]
        exact ⟨rfl, h⟩
    unfold restoreDefaults
    rw [Proc.wp_bind]
    apply hone.imp
    rintro _ s' w' ⟨rfl, h'⟩
    exact ih h'

/-- The routes half undoes the routes in force. -/
theorem revertRoutes_spec {snapshot : RouteSnapshot} (hsnap : state.routes = some snapshot)
    (h : Standing deps seg state ch w) :
    Proc.wp (machine (Undoes platform) (Kept deps)) (revertRoutes deps platform seg snapshot)
      (fun x _ w' => x = .ok () ∧ Bare deps seg state ch.dns w' ∨
        (∃ e, x = .error e) ∧ Held deps seg state w') s w := by
  have hplanned : ∀ r ∈ ch.routes, r ∈ (expandDefaultRoutes deps snapshot.planned).reverse := by
    intro r hr
    obtain ⟨snap, hsome, hmem⟩ := h.covers.routes r hr
    rw [hsnap] at hsome
    cases hsome
    exact List.mem_reverse.mpr hmem
  unfold revertRoutes
  cases platform with
  | other name => exact Or.inr ⟨⟨_, rfl⟩, h.1⟩
  | win32 =>
    apply (deleteRoutesWin32_spec _ hplanned h).imp
    intro x s' w' hx
    exact Or.inl hx
  | linux | darwin =>
    dsimp only
    rw [Proc.wp_bind]
    apply (deleteRoutes_spec hplanned h).imp
    rintro _ s' w' ⟨rfl, ch', hstanding, hroutes, hdns⟩
    dsimp only
    apply (restoreDefaults_spec snapshot.defaults hstanding).imp
    intro x s'' w'' hstanding'
    cases x with
    | ok _ => exact Or.inl ⟨rfl, ch', hstanding', hroutes, hdns⟩
    | error e => exact Or.inr ⟨⟨e, rfl⟩, hstanding'.1⟩

/-- The resolver settings are gone, and no route is new, unless this platform has no resolver. -/
def Quieted (deps : NetDeps) (seg : String) (state : NetStateFile) (ch : Changes)
    (x : Except String Unit) (w' : Net) : Prop :=
  ∃ ch', Standing deps seg state ch' w' ∧ ch'.routes = ch.routes ∧
    (x = .ok () → ch'.dns = false)

theorem tryRevert_spec {c : NetCommand} (hdns : (ch.effect c) = { ch with dns := false })
    (hsafe : Safe deps state c)
    (hclean : ∀ w w' r, Undoes platform w (.privileged seg c) r w' → (w'.changes seg).dns = false)
    (h : Standing deps seg state ch w) :
    Proc.wp (machine (Undoes platform) (Kept deps)) (tryPrivileged seg c)
      (fun x _ w' => Quieted deps seg state ch x w') s w := by
  apply wp_tried hsafe h
  intro ch' w' hch hstanding r hundoes
  have hquiet := hclean w w' r hundoes
  rw [hstanding.2] at hquiet
  refine ⟨ch', hstanding, ?_, fun _ => hquiet⟩
  rcases hch with rfl | rfl
  · rfl
  · rw [hdns]

theorem revertDns_spec {snapshot : DnsSnapshot} {channel : NetChannel} (runId : String)
    (hsnap : state.dns = some snapshot) (hplatform : state.platform = platform)
    (hstdin : ch.dns = true → platform = .darwin → channel.supportsStdin = true)
    (h : Standing deps seg state ch w) :
    Proc.wp (machine (Undoes platform) (Kept deps))
      (revertDns platform runId seg channel snapshot)
      (fun x _ w' => Quieted deps seg state ch x w') s w := by
  have hnothing : ∀ w' (x : Except String Unit), Standing deps seg state ch w' →
      (ch.dns = true → False) → Quieted deps seg state ch x w' :=
    fun w' x h' hquiet => ⟨ch, h', rfl, fun _ => Bool.not_eq_true _ ▸ hquiet⟩
  unfold revertDns
  cases platform with
  | other name => exact ⟨ch, h, rfl, fun hok => by cases hok⟩
  | win32 => exact tryRevert_spec rfl trivial (fun _ _ _ hclean => hclean rfl) h
  | darwin =>
    dsimp only
    by_cases hchannel : channel.supportsStdin = true
    · rw [if_pos hchannel]
      exact tryRevert_spec rfl trivial (fun _ _ _ hclean => hclean rfl) h
    · rw [if_neg hchannel]
      exact hnothing w _ h fun hdns => hchannel (hstdin hdns rfl)
  | linux =>
    dsimp only
    split_ifs
    · exact tryRevert_spec rfl trivial (fun _ _ _ hclean => hclean rfl) h
    · cases hconf : snapshot.resolvConf with
      | none =>
        refine hnothing w _ h fun hdns => ?_
        obtain ⟨snap, hsome, hlinux⟩ := h.covers.dns hdns
        rw [hsnap] at hsome
        cases hsome
        have hthere := hlinux hplatform
        rw [hconf] at hthere
        cases hthere
      | some original =>
        dsimp only
        cases original.symlinkTarget.filter (· ≠ "") with
        | some target => exact tryRevert_spec rfl trivial (fun _ _ _ hclean => hclean rfl) h
        | none =>
          dsimp only
          rw [Proc.wp_bind]
          refine wp_look rfl h fun staged w' h' _ hstaged => ?_
          dsimp only
          split_ifs with hwritten
          · exact tryRevert_spec rfl trivial (fun _ _ _ hclean => hclean rfl) h'
          · refine hnothing w' _ h' fun hdns => hwritten (hstaged ?_)
            rw [h.2]
            exact hdns

/-- Reverting what is wanted leaves nothing in force, or throws and leaves the snapshot. -/
theorem revertNetState_spec {channel : NetChannel} (h : Standing deps seg state ch w)
    (wanted : NetStateFile) (hdnsWanted : wanted.dns = state.dns) (hplatform : state.platform = platform)
    (hroutesWanted : wanted.routes = state.routes ∨ wanted.routes = none ∧ ch.routes = [])
    (hstdin : ch.dns = true → platform = .darwin → channel.supportsStdin = true) :
    Proc.wp (machine (Undoes platform) (Kept deps))
      (revertNetState deps platform seg channel wanted)
      (fun x _ w' => Held deps seg state w' ∧ (x = .ok () → ¬(w'.changes seg).InForce)) s w := by
  have hdnsHalf : Proc.wp (machine (Undoes platform) (Kept deps))
      (dnsHalf platform seg channel wanted) (fun x _ w' => Quieted deps seg state ch x w') s w := by
    unfold dnsHalf
    rw [hdnsWanted]
    cases hdns : state.dns with
    | some snapshot => exact revertDns_spec _ hdns hplatform hstdin h
    | none =>
      refine ⟨ch, h, rfl, fun _ => ?_⟩
      by_contra hon
      obtain ⟨snap, hsome, -⟩ := h.covers.dns (Bool.not_eq_false _ ▸ hon)
      rw [hdns] at hsome
      cases hsome
  unfold revertNetState
  rw [Proc.wp_bind]
  apply hdnsHalf.imp
  rintro (e | ⟨⟩) s' w' ⟨ch', hstanding, hroutes, hquiet⟩
  · exact ⟨hstanding.1, fun hok => by cases hok⟩
  dsimp only
  have hdns := hquiet rfl
  have hnone : ch'.routes = [] → Held deps seg state w' ∧
      ((.ok () : Except String Unit) = .ok () → ¬(w'.changes seg).InForce) := by
    intro hempty
    refine ⟨hstanding.1, fun _ hforce => ?_⟩
    rw [hstanding.2] at hforce
    rcases hforce with hforce | hforce
    · exact hforce hempty
    · rw [hdns] at hforce
      cases hforce
  unfold routesHalf
  rcases hroutesWanted with hwanted | ⟨hwanted, hempty⟩
  · rw [hwanted]
    cases hsnap : state.routes with
    | none =>
      apply hnone
      rw [List.eq_nil_iff_forall_not_mem]
      intro r hr
      obtain ⟨snap, hsome, -⟩ := hstanding.covers.routes r hr
      rw [hsnap] at hsome
      cases hsome
    | some snapshot =>
      apply (revertRoutes_spec hsnap hstanding).imp
      rintro x s'' w'' (⟨-, ch'', hstanding', hbare, hdns'⟩ | ⟨⟨e, rfl⟩, hheld⟩)
      · refine ⟨hstanding'.1, fun _ hforce => ?_⟩
        rw [hstanding'.2] at hforce
        rcases hforce with hforce | hforce
        · exact hforce hbare
        · rw [hdns', hdns] at hforce
          cases hforce
      · exact ⟨hheld, fun hok => by cases hok⟩
  · rw [hwanted]
    exact hnone (hroutes.trans hempty)

/-- A snapshot is forgotten when nothing of it is in force. -/
theorem clearState_spec (h : Held deps seg state w) (hnone : ¬(w.changes seg).InForce) :
    Proc.wp (machine (Undoes platform) (Kept deps)) (ask (.clearState seg))
      (fun _ _ w' => Kept deps w') s w := by
  rw [ask, Proc.wp_request]
  rintro w₁ rfl
  refine ⟨h.1, fun r w' hreply => ?_⟩
  obtain ⟨hfiles, hchanges, hasked⟩ := hreply.2.1
  rcases hfiles with hfiles | hfiles
  · obtain ⟨hrecord, hfiled⟩ := h.1
    unfold Kept OnRecord
    rw [hfiles, hchanges]
    exact ⟨hrecord, hfiled⟩
  · exact h.1.write hnone (fun state' hstate' => by cases hstate') hfiles hchanges

theorem restoreWith_spec {channel : NetChannel} {routes : RestorePartOutcome}
    (hplatform : state.platform = platform) (hroutes : routes ≠ .reverted → ch.routes = [])
    (hstdin : ch.dns = true → platform = .darwin → channel.supportsStdin = true)
    (h : Standing deps seg state ch w) :
    Proc.wp (machine (Undoes platform) (Kept deps))
      (restoreWith deps platform seg channel state routes) (fun _ _ w' => Kept deps w') s w := by
  unfold restoreWith
  dsimp only
  rw [Proc.wp_bind, Proc.wp_attempt]
  refine (revertNetState_spec h
    { state with routes := if routes = .reverted then state.routes else none } rfl hplatform ?_
    hstdin).imp ?_
  · by_cases hwants : routes = .reverted
    · exact Or.inl (if_pos hwants)
    · exact Or.inr ⟨if_neg hwants, hroutes hwants⟩
  · rintro (e | ⟨⟩) s' w' ⟨hheld, hnone⟩
    · exact hheld.1
    · dsimp only
      rw [Proc.wp_bind]
      exact clearState_spec hheld (hnone rfl)

theorem restoreOrphan_spec (now : Int) (hplatform : state.platform = platform)
    (h : Held deps seg state w) :
    Proc.wp (machine (Undoes platform) (Kept deps)) (restoreOrphan deps platform now seg state)
      (fun _ _ w' => Kept deps w') s w := by
  obtain ⟨ch, hch⟩ : ∃ ch, w.changes seg = ch := ⟨_, rfl⟩
  have hstanding : Standing deps seg state ch w := ⟨h, hch⟩
  unfold restoreOrphan
  rw [Proc.wp_bind]
  refine wp_look rfl hstanding fun uptime w₁ h₁ _ hboot => ?_
  have hsame : ch.routes ≠ [] → isFromCurrentBoot state now uptime = true := by
    intro hroutes
    exact hboot (by rw [hch]; exact hroutes) state h.2
  dsimp only
  rw [Proc.wp_bind]
  have hlook : Proc.wp (machine (Undoes platform) (Kept deps)) (interfaceUp state)
      (fun x _ w' => Standing deps seg state ch w' ∧
        ∃ ifaceUp, x = .ok ifaceUp ∧ (ifaceUp = false → ch.routes = [])) s w₁ := by
    unfold interfaceUp
    by_cases hnamed : state.interfaceName = ""
    · rw [if_pos hnamed]
      exact ⟨h₁, true, rfl, fun hdown => by cases hdown⟩
    · rw [if_neg hnamed]
      refine wp_look rfl h₁ fun ifaceUp w₂ h₂ hserved _ => ⟨h₂, ifaceUp, rfl, fun hdown => ?_⟩
      have hgone := hserved.1 hdown seg state h₁.1.2 rfl
      rw [h₁.2] at hgone
      exact hgone
  refine hlook.imp fun x s₂ w₂ hx => ?_
  obtain ⟨h₂, ifaceUp, rfl, hup⟩ := hx
  have hroutes : routesOutcome state (isFromCurrentBoot state now uptime) ifaceUp ≠ .reverted →
      ch.routes = [] := by
    intro hnot
    by_contra hthere
    obtain ⟨r, hr⟩ := List.exists_mem_of_ne_nil _ hthere
    obtain ⟨snap, hsome, -⟩ := h₂.covers.routes r hr
    have hiface : ifaceUp = true := by
      by_contra hdown
      exact hthere (hup (Bool.not_eq_true _ ▸ hdown))
    apply hnot
    unfold routesOutcome
    rw [hsome, hsame hthere, hiface]
    rfl
  dsimp only
  split_ifs with hskip
  · rw [Proc.wp_bind]
    apply clearState_spec h₂.1
    rw [h₂.2]
    rintro (hforce | hforce)
    · exact hforce (hroutes hskip.1)
    · obtain ⟨snap, hsome, -⟩ := h₂.covers.dns hforce
      rw [hskip.2] at hsome
      cases hsome
  · rw [Proc.wp_bind]
    refine wp_look rfl h₂ fun channel w₃ h₃ _ hstdin => ?_
    dsimp only
    cases channel with
    | none => exact h₃.1.1
    | some channel =>
      refine restoreWith_spec hplatform hroutes (fun hdns hdarwin => ?_) h₃
      exact hstdin (by rw [h₂.2]; exact hdns) hdarwin channel rfl

theorem restoreEntry_spec (live : List String) (now : Int) (name : String) (h : Kept deps w) :
    Proc.wp (machine (Undoes platform) (Kept deps)) (restoreEntry deps platform live now name)
      (fun _ _ w' => Kept deps w') s w := by
  unfold restoreEntry
  rw [Proc.wp_bind, ask, Proc.wp_request]
  rintro w₁ rfl
  refine ⟨h, fun read w' hreply => ?_⟩
  obtain ⟨hread, hsame⟩ := hreply.2.1
  have h' := h.same hsame
  cases read with
  | none => exact h'
  | some state =>
    have hwhole := hread state rfl
    have hseg := h.2 name state hwhole
    dsimp only
    rw [hseg]
    dsimp only
    split_ifs with hlive hplatform
    · exact h'
    · exact h'
    · apply restoreOrphan_spec now (not_not.mp hplatform)
      refine ⟨h', ?_⟩
      rw [hsame.1]
      exact hwhole

theorem restoreEntries_spec (live : List String) (now : Int) (names : List String)
    (h : Kept deps w) :
    Proc.wp (machine (Undoes platform) (Kept deps)) (restoreEntries deps platform live now names)
      (fun _ _ w' => Kept deps w') s w := by
  induction names generalizing w s with
  | nil => exact h
  | cons name names ih =>
    unfold restoreEntries
    rw [Proc.wp_bind]
    apply (restoreEntry_spec live now name h).imp
    intro x s' w' h'
    cases x with
    | ok _ => exact ih h'
    | error e => exact h'

/-- A pass keeps what is in force on record at every point. -/
theorem restoreOrphanedNetstate_spec (live : List String) (h : Kept deps w) :
    Proc.wp (machine (Undoes platform) (Kept deps)) (restoreOrphanedNetstate deps platform live)
      (fun _ _ w' => Kept deps w') s w := by
  unfold restoreOrphanedNetstate
  rw [Proc.wp_bind, ask, Proc.wp_request]
  rintro w₁ rfl
  refine ⟨h, fun now w₁ hreply => ?_⟩
  have h₁ := h.same (hreply.2.1.same rfl)
  dsimp only
  rw [Proc.wp_bind, ask, Proc.wp_request]
  rintro w₂ rfl
  refine ⟨h₁, fun entries w₂ hreply₂ => ?_⟩
  have h₂ := h₁.same (hreply₂.2.1.same rfl)
  cases entries with
  | none => exact h₂
  | some names => exact restoreEntries_spec live now names h₂

end Restoring

/-! ## Runs -/

/-- What holds of a run: what is in force is on record now, and all through what is under way. -/
def Holding (deps : NetDeps) (platform : Platform) : Option Running × Net → Prop
  | (none, w) => Kept deps w
  | (some (.applying p), w) =>
    p.wp (machine (fun _ _ _ _ => True) (Kept deps)) (fun _ => Kept deps) w
  | (some (.restoring p), w) =>
    p.wp (machine (Undoes platform) (Kept deps)) (fun _ => Kept deps) w

theorem turn_machine {α : Type} {ok : Net → (o : NetOp) → o.Reply → Net → Prop}
    {demand demand' : Net → Prop} {c c' : Prog NetOp NetOp.Reply α × Net}
    (h : Turn (machine ok demand) c c') : Turn (machine ok demand') c c' :=
  h.redemand (show (machine ok demand').drift = (machine ok demand).drift from rfl) rfl

theorem kept_of_wp {α : Type} {ok : Net → (o : NetOp) → o.Reply → Net → Prop} {deps : NetDeps}
    {p : Prog NetOp NetOp.Reply α} {w : Net}
    (h : p.wp (machine ok (Kept deps)) (fun _ => Kept deps) w) : Kept deps w := by
  cases p with
  | done a => exact h
  | ask o k => exact (h w rfl).1

theorem Holding.kept {deps : NetDeps} {platform : Platform} {c : Option Running × Net}
    (h : Holding deps platform c) : Kept deps c.2 := by
  obtain ⟨r, w⟩ := c
  cases r with
  | none => exact h
  | some r =>
    cases r with
    | applying p => exact kept_of_wp h
    | restoring p => exact kept_of_wp h

theorem Holding.step {deps : NetDeps} {platform : Platform} {c c' : Option Running × Net}
    (h : Holding deps platform c) (hstep : NetStep deps platform (Undoes platform) c c') :
    Holding deps platform c' := by
  cases hstep with
  | clock wall huptime => exact h
  | @interfaceGone w seg =>
    refine ⟨fun seg' hforce => ?_, h.2⟩
    by_cases hseg : seg' = seg
    · subst hseg
      dsimp only at hforce ⊢
      rw [Function.update_self] at hforce ⊢
      have hdns := hforce.resolve_left fun hroutes => hroutes rfl
      obtain ⟨state, hwhole, hcovers⟩ := h.1 seg' (Or.inr hdns)
      exact ⟨state, hwhole, fun r hr => absurd hr List.not_mem_nil, hcovers.dns⟩
    · dsimp only at hforce ⊢
      rw [Function.update_of_ne hseg] at hforce ⊢
      exact h.1 seg' hforce
  | apply channel plan hseg hfresh =>
    exact applyNetState_spec platform channel plan [] hseg ⟨h, hfresh⟩
  | restore live => exact restoreOrphanedNetstate_spec live h
  | applyTurn hturn => exact wp_turn (turn_machine hturn) h
  | restoreTurn hturn => exact wp_turn (turn_machine hturn) h
  | ends r => exact h.kept

/-! ## Both halves are tried -/

/-- The machine with any replies at all. -/
abbrev free : Surroundings Net NetOp NetOp.Reply := machine (fun _ _ _ _ => True) fun _ => True

/-- The route's delete was asked for. On Windows a route whose interface has no index is left. -/
def Attempted (platform : Platform) (seg : String) (snapshot : RouteSnapshot) (w : Net)
    (r : RouteSpec) : Prop :=
  (∃ index, (seg, NetCommand.deleteRoute r index) ∈ w.asked) ∨
    platform = .win32 ∧ snapshot.interfaceIndex.lookup r.interfaceName = none

section Attempts
variable {deps : NetDeps} {platform : Platform} {seg : String} {w w' : Net}
  {s : List RestoreReport}

theorem wp_free {α : Type} {o : NetOp} {f : o.Reply → Except String α}
    {Q : Except String α → List RestoreReport → Net → Prop}
    (hQ : ∀ r w', Served w o r w' → Q (f r) s w') :
    Proc.wp free (Proc.request o f : NetProc α) Q s w := by
  rw [Proc.wp_request]
  rintro w₁ rfl
  exact ⟨trivial, fun r w' hreply => hQ r w' hreply.2.1⟩

/-- Nothing that was asked for is forgotten. -/
theorem Served.asked {o : NetOp} {r : o.Reply} (h : Served w o r w')
    {e : String × NetCommand} (he : e ∈ w.asked) : e ∈ w'.asked := by
  by_cases hreads : o.reads = true
  · rw [(h.same hreads).2.2]
    exact he
  · cases o with
    | privileged seg c =>
      rw [h.2.2]
      exact List.mem_cons_of_mem _ he
    | writeState | clearState =>
      rw [h.2.2]
      exact he
    | _ => exact absurd rfl hreads

theorem tryPrivileged_asks (c : NetCommand) :
    Proc.wp free (tryPrivileged seg c) (fun x _ w' =>
      x = .ok () ∧ (∀ e ∈ w.asked, e ∈ w'.asked) ∧ (seg, c) ∈ w'.asked) s w := by
  refine wp_free fun r w' h => ⟨rfl, fun e he => h.asked he, ?_⟩
  rw [h.2.2]
  exact List.mem_cons_self

theorem deleteRoutes_asks (rs : List RouteSpec) :
    Proc.wp free (deleteRoutes seg rs) (fun x _ w' => x = .ok () ∧
      (∀ e ∈ w.asked, e ∈ w'.asked) ∧
      ∀ r ∈ rs, (seg, NetCommand.deleteRoute r none) ∈ w'.asked) s w := by
  induction rs generalizing w s with
  | nil => exact ⟨rfl, fun e he => he, fun r hr => absurd hr List.not_mem_nil⟩
  | cons r rs ih =>
    unfold deleteRoutes
    rw [Proc.wp_bind]
    apply (tryPrivileged_asks (w := w) (.deleteRoute r none)).imp
    rintro _ s' w' ⟨rfl, hasked, hfirst⟩
    apply (ih (w := w')).imp
    rintro x s'' w'' ⟨hx, hasked', hrest⟩
    refine ⟨hx, fun e he => hasked' e (hasked e he), fun r' hr' => ?_⟩
    rcases List.mem_cons.mp hr' with rfl | hr'
    · exact hasked' _ hfirst
    · exact hrest r' hr'

theorem deleteRouteWin32_asks (known : List (String × Nat)) (r : RouteSpec) :
    Proc.wp free (deleteRouteWin32 seg known r) (fun x _ w' => x = .ok () ∧
      (∀ e ∈ w.asked, e ∈ w'.asked) ∧ ((∃ index, (seg, NetCommand.deleteRoute r index) ∈ w'.asked) ∨
        known.lookup r.interfaceName = none)) s w := by
  unfold deleteRouteWin32
  cases hknown : known.lookup r.interfaceName with
  | some index =>
    apply (tryPrivileged_asks (w := w) (.deleteRoute r (some index))).imp
    rintro x s' w' ⟨hx, hasked, hthis⟩
    exact ⟨hx, hasked, Or.inl ⟨_, hthis⟩⟩
  | none =>
    dsimp only
    rw [Proc.wp_bind]
    refine wp_free fun fresh w₁ h₁ => ?_
    dsimp only
    cases List.lookup r.interfaceName fresh with
    | some index =>
      apply (tryPrivileged_asks (w := w₁) (.deleteRoute r (some index))).imp
      rintro x s' w' ⟨hx, hasked, -⟩
      exact ⟨hx, fun e he => hasked e (h₁.asked he), Or.inr rfl⟩
    | none => exact ⟨rfl, fun e he => h₁.asked he, Or.inr rfl⟩

theorem deleteRoutesWin32_asks (known : List (String × Nat)) (rs : List RouteSpec) :
    Proc.wp free (deleteRoutesWin32 seg known rs) (fun x _ w' => x = .ok () ∧
      (∀ e ∈ w.asked, e ∈ w'.asked) ∧ ∀ r ∈ rs,
        (∃ index, (seg, NetCommand.deleteRoute r index) ∈ w'.asked) ∨
          known.lookup r.interfaceName = none) s w := by
  induction rs generalizing w s with
  | nil => exact ⟨rfl, fun e he => he, fun r hr => absurd hr List.not_mem_nil⟩
  | cons r rs ih =>
    unfold deleteRoutesWin32
    rw [Proc.wp_bind]
    apply (deleteRouteWin32_asks (w := w) known r).imp
    rintro _ s' w' ⟨rfl, hasked, hfirst⟩
    apply (ih (w := w')).imp
    rintro x s'' w'' ⟨hx, hasked', hrest⟩
    refine ⟨hx, fun e he => hasked' e (hasked e he), fun r' hr' => ?_⟩
    rcases List.mem_cons.mp hr' with rfl | hr'
    · exact hfirst.imp_left fun ⟨index, hindex⟩ => ⟨index, hasked' _ hindex⟩
    · exact hrest r' hr'

theorem restoreDefaults_asks (ds : List RouteEntry) {P : String × NetCommand → Prop}
    (hP : ∀ e, P e → e ∈ w.asked) :
    Proc.wp free (restoreDefaults deps platform seg ds) (fun _ _ w' => ∀ e, P e → e ∈ w'.asked)
      s w := by
  have hrequest : ∀ (o : NetOp) (α : Type) (f : o.Reply → Except String α),
      Proc.Keeps free (fun w => ∀ e, P e → e ∈ w.asked) (Proc.request o f : NetProc α) := by
    intro o α f
    apply Proc.keeps_request
    rintro w w₁ hw rfl
    exact ⟨trivial, fun r w₂ hreply e he => hreply.2.1.asked (hw e he)⟩
  have hall : Proc.Keeps free (fun w => ∀ e, P e → e ∈ w.asked)
      (restoreDefaults deps platform seg ds) := by
    induction ds with
    | nil => exact Proc.keeps_pure ()
    | cons d ds ih =>
      refine Proc.Keeps.bind ?_ fun _ => ih
      unfold restoreDefault
      split_ifs
      · refine Proc.Keeps.bind (hrequest _ _ _) fun there => ?_
        split_ifs
        · exact Proc.keeps_pure ()
        · exact hrequest _ _ _
      · exact Proc.keeps_pure ()
  exact hall s w hP

/-- The DNS half does not throw where there is a resolver to put back. -/
theorem revertDns_returns (hsupported : ∀ name, platform ≠ .other name) (runId : String)
    (channel : NetChannel) (snapshot : DnsSnapshot) :
    Proc.wp free (revertDns platform runId seg channel snapshot) (fun x _ _ => x = .ok ()) s w := by
  have htried : ∀ (c : NetCommand) (s : List RestoreReport) (w : Net),
      Proc.wp free (tryPrivileged seg c) (fun x _ _ => x = .ok ()) s w :=
    fun c s w => (tryPrivileged_asks (w := w) c).imp fun _ _ _ h => h.1
  unfold revertDns
  cases platform with
  | other name => exact absurd rfl (hsupported name)
  | win32 => exact htried _ s w
  | darwin =>
    dsimp only
    by_cases hstdin : channel.supportsStdin = true
    · rw [if_pos hstdin]
      exact htried _ s w
    · rw [if_neg hstdin]
      rfl
  | linux =>
    dsimp only
    split_ifs
    · exact htried _ s w
    · cases snapshot.resolvConf with
      | none => rfl
      | some original =>
        dsimp only
        cases original.symlinkTarget.filter (· ≠ "") with
        | some target => exact htried _ s w
        | none =>
          dsimp only
          rw [Proc.wp_bind]
          refine wp_free fun staged w' _ => ?_
          dsimp only
          split_ifs
          · exact htried _ s w'
          · rfl

theorem revertRoutes_attempts (hsupported : ∀ name, platform ≠ .other name)
    (snapshot : RouteSnapshot) :
    Proc.wp free (revertRoutes deps platform seg snapshot) (fun _ _ w' =>
      ∀ r ∈ expandDefaultRoutes deps snapshot.planned, Attempted platform seg snapshot w' r)
      s w := by
  unfold revertRoutes
  cases platform with
  | other name => exact absurd rfl (hsupported name)
  | win32 =>
    apply (deleteRoutesWin32_asks (w := w) _ _).imp
    rintro x s' w' ⟨-, -, hall⟩ r hr
    exact (hall r (List.mem_reverse.mpr hr)).imp_right fun hnone => ⟨rfl, hnone⟩
  | linux | darwin =>
    dsimp only
    rw [Proc.wp_bind]
    apply (deleteRoutes_asks (w := w) _).imp
    rintro _ s' w' ⟨rfl, -, hall⟩
    apply (restoreDefaults_asks (w := w') (P := fun e => ∃ r ∈ (expandDefaultRoutes deps
      snapshot.planned).reverse, e = (seg, .deleteRoute r none)) snapshot.defaults ?_).imp
    · intro x s'' w'' hasked r hr
      exact Or.inl ⟨none, hasked _ ⟨r, List.mem_reverse.mpr hr, rfl⟩⟩
    · rintro e ⟨r, hr, rfl⟩
      exact hall r hr

/-- Whatever became of the DNS half, the routes half is tried. -/
theorem revertNetState_attempts (hsupported : ∀ name, platform ≠ .other name)
    (channel : NetChannel) {state : NetStateFile} {snapshot : RouteSnapshot}
    (hsnap : state.routes = some snapshot) :
    Proc.wp free (revertNetState deps platform seg channel state) (fun _ _ w' =>
      ∀ r ∈ expandDefaultRoutes deps snapshot.planned, Attempted platform seg snapshot w' r)
      s w := by
  have hdns : Proc.wp free (dnsHalf platform seg channel state) (fun x _ _ => x = .ok ()) s w := by
    unfold dnsHalf
    cases state.dns with
    | some snap => exact revertDns_returns hsupported _ _ _
    | none => rfl
  unfold revertNetState
  rw [Proc.wp_bind]
  apply hdns.imp
  rintro _ s' w' rfl
  dsimp only
  unfold routesHalf
  rw [hsnap]
  exact revertRoutes_attempts hsupported snapshot

end Attempts

/-! ## Nothing in force is forgotten -/

/-- In every run whose passes undo what they are to undo, what is in force is on record in every
state; and whatever the replies, no failure of the DNS half keeps the routes half from being
tried. -/
theorem in_force_is_on_record (deps : NetDeps) (platform : Platform) :
    (∀ (wall : Int) (uptime : Nat) (c : Option Running × Net),
      NetRun deps platform (Undoes platform) (none, Net.booted wall uptime) c →
        OnRecord deps c.2) ∧
    ∀ (seg : String) (channel : NetChannel) (state : NetStateFile) (snapshot : RouteSnapshot)
      (s : List RestoreReport) (w w' : Net) (x : Except String Unit × List RestoreReport),
      (∀ name, platform ≠ .other name) → state.routes = some snapshot →
      Run free (revertNetState deps platform seg channel state s, w) (.done x, w') →
      ∀ r ∈ expandDefaultRoutes deps snapshot.planned, Attempted platform seg snapshot w' r := by
  refine ⟨fun wall uptime c hrun => ?_, fun seg channel state snapshot s w w' x hsupported hsnap
    hrun => ?_⟩
  · have hholding : Holding deps platform c := by
      induction hrun with
      | refl =>
        refine ⟨fun seg hforce => ?_, fun seg state hwhole => ?_⟩
        · rcases hforce with hforce | hforce
          · exact absurd rfl hforce
          · cases hforce
        · cases hwhole
      | tail _ hstep ih => exact ih.step hstep
    exact hholding.kept.1
  · exact result_of_run (revertNetState_attempts hsupported channel hsnap) hrun

/-! ## A machine that answers -/

/-- A machine with one run, whose commands end with `code` and take effect if that is zero. -/
def host (code : Int) (w : Net) : (o : NetOp) → o.Reply × Net
  | .now => (w.wall, w)
  | .uptime .. => (w.uptime, w)
  | .snapshotRoutes => (⟨[], [], []⟩, w)
  | .readResolvConf => (⟨"", none⟩, w)
  | .writeState seg state => (true, { w with files := Function.update w.files seg (.whole state) })
  | .privileged seg c => (.ok ⟨code, none⟩, { w with
      changes := if code = 0 then Function.update w.changes seg ((w.changes seg).effect c)
        else w.changes
      asked := (seg, c) :: w.asked })
  | .routeThere _ => (false, w)
  | .interfaceIndexes _ => ([], w)
  | .hasDefault _ => (true, w)
  | .detectBackend => (.resolvectl, w)
  | .stage _ => (true, w)
  | .verifyDns _ => (.ok, w)
  | .readdir => (some ["run-1"], w)
  | .readState name =>
    (match w.files name with
      | .whole state => some state
      | _ => none, w)
  | .interfaceExists _ => (true, w)
  | .createContext _ => (some ⟨true⟩, w)
  | .clearState seg => ((), { w with files := Function.update w.files seg .absent })

theorem host_served (code : Int) (w : Net) (o : NetOp) :
    w.uptime ≤ (host code w o).2.uptime ∧ Served w o (host code w o).1 (host code w o).2 := by
  cases o with
  | uptime seg now => exact ⟨le_rfl, ⟨le_rfl, Nat.lt_add_of_pos_right (by decide)⟩, rfl, rfl, rfl⟩
  | now => exact ⟨le_rfl, rfl, rfl, rfl, rfl⟩
  | writeState seg state => exact ⟨le_rfl, Or.inl rfl, rfl, rfl⟩
  | privileged seg c =>
    refine ⟨le_rfl, ?_, rfl, rfl⟩
    by_cases hcode : code = 0
    · exact Or.inr (if_pos hcode)
    · exact Or.inl (if_neg hcode)
  | readState name =>
    refine ⟨le_rfl, fun state hstate => ?_, rfl, rfl, rfl⟩
    cases hfile : w.files name with
    | whole state' =>
      simp only [host, hfile] at hstate
      cases hstate
      rfl
    | absent | torn =>
      simp only [host, hfile] at hstate
      cases hstate
  | interfaceExists name =>
    refine ⟨le_rfl, fun hdown => ?_, rfl, rfl, rfl⟩
    cases hdown
  | clearState seg => exact ⟨le_rfl, Or.inr rfl, rfl, rfl⟩
  | _ => exact ⟨le_rfl, rfl, rfl, rfl⟩

/-- Whether a reply of the machine does what a pass is there for. -/
def undoing (w : Net) : NetOp → Bool
  | .uptime seg now =>
    match w.files seg with
    | .whole state => isFromCurrentBoot state now w.uptime
    | _ => true
  | .interfaceIndexes _ => false
  | _ => true

theorem host_undoes (platform : Platform) (w : Net) (o : NetOp) (h : undoing w o = true) :
    (machine (Undoes platform) fun _ => True).reply w o (host 0 w o).1 (host 0 w o).2 := by
  obtain ⟨hle, hserved⟩ := host_served 0 w o
  refine ⟨hle, hserved, ?_⟩
  cases o with
  | uptime seg now =>
    intro _ state hwhole
    simp only [undoing, hwhole] at h
    exact h
  | interfaceIndexes seg => cases h
  | stage seg => exact fun _ => rfl
  | createContext seg =>
    intro _ _ channel hchannel
    cases hchannel
    rfl
  | privileged seg c =>
    have hafter : ((host 0 w (.privileged seg c)).2.changes seg) = (w.changes seg).effect c :=
      Function.update_self ..
    cases c with
    | deleteRoute r index =>
      show r ∉ ((host 0 w (.privileged seg (.deleteRoute r index))).2.changes seg).routes
      rw [hafter]
      intro hr
      have hne := List.of_mem_filter hr
      exact of_decide_eq_true hne rfl
    | revertLink | relinkResolvConf | reinstallResolvConf | removeDns | removeDnsRules =>
      intro _
      rw [hafter]
      rfl
    | _ => exact fun hreverts => by cases hreverts
  | _ => trivial

theorem host_free {α : Type} (code : Int) (p : Prog NetOp NetOp.Reply α) (w : Net) :
    Run free (p, w) (.done (p.exec (host code) w).1, (p.exec (host code) w).2) := by
  apply run_exec
  intro w o
  exact ⟨(host_served code w o).1, (host_served code w o).2, trivial⟩

section Runs
variable {deps : NetDeps} {platform : Platform} {ok : Net → (o : NetOp) → o.Reply → Net → Prop}
  {w : Net}

/-- An apply that runs to its end on the machine, after which the process is gone. -/
theorem netRun_apply {runId seg : String} (channel : NetChannel) (plan : NetPlan)
    (hseg : runIdSegment runId = some seg) (hfresh : ¬(w.changes seg).InForce) :
    NetRun deps platform ok (none, w)
      (none, (Prog.exec (host 0) (applyNetState deps platform runId seg channel plan []) w).2) := by
  have hrun := host_free 0 (applyNetState deps platform runId seg channel plan []) w
  have hlift : NetRun deps platform ok _ _ :=
    hrun.lift (fun c => (some (Running.applying c.1), c.2)) fun _ _ hturn => .applyTurn hturn
  exact .head (.apply channel plan hseg hfresh) (hlift.tail (.ends _))

/-- A pass that runs to its end on the machine. -/
theorem netRun_restore (live : List String) {code : Int}
    (hrun : Run (machine ok fun _ => True) (restoreOrphanedNetstate deps platform live [], w)
      (.done (Prog.exec (host code) (restoreOrphanedNetstate deps platform live []) w).1,
        (Prog.exec (host code) (restoreOrphanedNetstate deps platform live []) w).2)) :
    NetRun deps platform ok (none, w)
      (none, (Prog.exec (host code) (restoreOrphanedNetstate deps platform live []) w).2) := by
  have hlift : NetRun deps platform ok _ _ :=
    hrun.lift (fun c => (some (Running.restoring c.1), c.2)) fun _ _ hturn => .restoreTurn hturn
  exact .head (.restore live) (hlift.tail (.ends _))

end Runs

/-- Prefixes as they are written, and no fault in a resolver setting. -/
def plainDeps : NetDeps where
  normalizeCidr := id
  assertDnsSpec := fun _ => none

def officePlan : NetPlan where
  interfaceName := "wg0"
  routes := some [⟨"10.8.0.0/24", none, "wg0", none⟩]
  dns := some ⟨["10.8.0.1"], [], "wg0", none⟩

/-- The machine after a run was applied and its process killed. -/
def laid : Net :=
  (Prog.exec (host 0) (applyNetState plainDeps .linux "run-1" "run-1" ⟨true⟩ officePlan [])
    (Net.booted 1700000000000 600000)).2

def Net.later (w : Net) (wall : Int) (uptime : Nat) : Net :=
  { w with wall := w.wall + wall, uptime := w.uptime + uptime }

/-- What a pass leaves whose commands end with `code`. -/
def passed (code : Int) (w : Net) : Net :=
  (Prog.exec (host code) (restoreOrphanedNetstate plainDeps .linux [] []) w).2

theorem netRun_laid {ok : Net → (o : NetOp) → o.Reply → Net → Prop} (wall : Int) (uptime : Nat) :
    NetRun plainDeps .linux ok (none, Net.booted 1700000000000 600000)
      (none, laid.later wall uptime) :=
  .tail (netRun_apply _ _ (by decide +kernel) (by decide +kernel))
    (.clock _ (Nat.le_add_right _ _))

theorem in_force_is_on_record_killed :
    ((laid.later 60000 60000).changes "run-1").InForce ∧
      OnRecord plainDeps (laid.later 60000 60000) ∧
      OnRecord plainDeps (passed 0 (laid.later 60000 60000)) := by
  have hpass : NetRun plainDeps .linux (Undoes .linux) (none, laid.later 60000 60000)
      (none, passed 0 (laid.later 60000 60000)) :=
    netRun_restore [] (run_exec_checked (host_undoes .linux) (by decide +kernel))
  refine ⟨Or.inr (by decide +kernel), ?_, ?_⟩
  · exact (in_force_is_on_record plainDeps .linux).1 1700000000000 600000
      (none, laid.later 60000 60000) (netRun_laid 60000 60000)
  · exact (in_force_is_on_record plainDeps .linux).1 1700000000000 600000
      (none, passed 0 (laid.later 60000 60000)) ((netRun_laid 60000 60000).trans hpass)

theorem not_on_record {deps : NetDeps} {w : Net} (seg : String)
    (hforce : (w.changes seg).routes ≠ []) (habsent : w.files seg = .absent) : ¬OnRecord deps w := by
  intro h
  obtain ⟨state, hwhole, -⟩ := h seg (Or.inl hforce)
  rw [habsent] at hwhole
  cases hwhole

/-- A pass whose commands fail forgets the snapshot with the route still there; so does a pass all of
whose commands succeed, after the wall clock was put forward by a minute. -/
theorem pass_forgets_what_is_in_force :
    (∃ c, NetRun plainDeps .linux (fun _ _ _ _ => True)
      (none, Net.booted 1700000000000 600000) c ∧ c = (none, passed 2 (laid.later 5000 5000)) ∧
        ¬OnRecord plainDeps c.2) ∧
    ∃ c, NetRun plainDeps .linux (fun _ _ _ _ => True)
      (none, Net.booted 1700000000000 600000) c ∧ c = (none, passed 0 (laid.later 65000 5000)) ∧
        ¬OnRecord plainDeps c.2 := by
  have hpass : ∀ (code : Int) (w : Net), NetRun plainDeps .linux (fun _ _ _ _ => True) (none, w)
      (none, passed code w) := fun code w =>
    netRun_restore [] (host_free code _ w)
  refine ⟨⟨_, (netRun_laid 5000 5000).trans (hpass 2 _), rfl, ?_⟩,
    _, (netRun_laid 65000 5000).trans (hpass 0 _), rfl, ?_⟩
  · exact not_on_record "run-1" (by decide +kernel) (by rfl)
  · exact not_on_record "run-1" (by decide +kernel) (by rfl)

end OpsMaxx.Vpn
