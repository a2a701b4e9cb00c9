import OpsMaxx.Jobs.Runner

/-!
# What a step of the runner can do

What each move leaves of the state, said once. `Sound` holds after every history: a host the
executor was never called for has a row that says so. `Tracked` follows the call that owns the job:
a host whose row is still live is waiting for a worker or in the hands of one.
-/

set_option autoImplicit false

namespace OpsMaxx.Jobs

/-! ## Reading the state -/

def Phase.queue : Phase → List Queued
  | .wave queue _ => queue
  | _ => []

def Phase.queued (p : Phase) : List String := p.queue.map fun q => q.target.serverId

def Worker.host? : Worker → Option String
  | .busy h => some h.target.serverId
  | _ => none

def Phase.busy : Phase → List String
  | .wave _ workers => workers.filterMap Worker.host?
  | _ => []

/-- The hosts a call has still to take off a queue. -/
def Call.toCome (c : Call) : List String :=
  c.phase.queued ++ (waveTargets c.rest).map JobTarget.serverId

/-- Nobody works for the call: it is between two waves. -/
def Call.between (c : Call) : Prop :=
  match c.phase with
  | .wave _ workers => ∀ k ∈ workers, k = .over
  | .gate _ => True
  | .nodes _ => True
  | .over => False

/-- The executor was never called for this host, and the row says so. -/
def JobHostRow.Untouched (r : JobHostRow) : Prop :=
  r.detached = none ∧ (r.state = .pending ∨ r.state = .skipped ∧ r.outcome = some .cancelled)

/-! ## Fields -/

namespace World
variable (w : World) (i k : Nat) (c : Call) (queue : List Queued) (workers : List Worker)
  (serverId : String) (p : JobTargetPatch)

@[simp] theorem setCall_job : (w.setCall i c).job = w.job := rfl
@[simp] theorem setCall_calls : (w.setCall i c).calls = w.calls.set i c := rfl
@[simp] theorem setCall_active : (w.setCall i c).active = w.active := rfl
@[simp] theorem setCall_launched : (w.setCall i c).launched = w.launched := rfl
@[simp] theorem setCall_clock : (w.setCall i c).clock = w.clock := rfl

@[simp] theorem write_calls : (w.write serverId p).calls = w.calls := rfl
@[simp] theorem write_active : (w.write serverId p).active = w.active := rfl
@[simp] theorem write_launched : (w.write serverId p).launched = w.launched := rfl
@[simp] theorem write_clock : (w.write serverId p).clock = w.clock := rfl
@[simp] theorem write_state : (w.write serverId p).job.state = w.job.state := rfl
@[simp] theorem write_targets :
    (w.write serverId p).job.targets = updateTarget w.job.targets serverId p := rfl

theorem owns_iff : w.owns i = true ↔ w.active = some i := by simp [owns]

@[simp] theorem tail_calls (deps : JobRunnerDeps) (h : HostRun) (e : StepsEnd)
    (out : OutputTotals) : (w.tail deps i c h e out).calls = w.calls := by
  unfold tail
  split_ifs <;> rfl

@[simp] theorem tail_launched (deps : JobRunnerDeps) (h : HostRun) (e : StepsEnd)
    (out : OutputTotals) : (w.tail deps i c h e out).launched = w.launched := by
  unfold tail
  split_ifs <;> rfl

@[simp] theorem tail_state (deps : JobRunnerDeps) (h : HostRun) (e : StepsEnd)
    (out : OutputTotals) : (w.tail deps i c h e out).job.state = w.job.state := by
  unfold tail
  split_ifs <;> rfl

@[simp] theorem applyUpdate_calls (u : JobExecUpdate) :
    (w.applyUpdate i serverId u).calls = w.calls := by
  unfold applyUpdate
  split_ifs <;> rfl

@[simp] theorem applyUpdate_launched (u : JobExecUpdate) :
    (w.applyUpdate i serverId u).launched = w.launched := by
  unfold applyUpdate
  split_ifs <;> rfl

@[simp] theorem applyUpdate_state (u : JobExecUpdate) :
    (w.applyUpdate i serverId u).job.state = w.job.state := by
  unfold applyUpdate
  split_ifs <;> rfl

theorem applyUpdate_lost (u : JobExecUpdate) (h : w.active ≠ some i) :
    w.applyUpdate i serverId u = w :=
  if_neg fun howns => h ((owns_iff _ i).mp howns)

theorem finish_owned (halted : Bool) (h : w.active = some i) :
    w.finish i c halted =
      { w.setCall i { c with phase := .over } with
        active := none
        job := { w.job with
          state := if c.cancelled then .cancelled else if halted then .halted else .done
          endedAt := some w.clock } } :=
  if_pos ((owns_iff _ i).mpr h)

theorem finish_lost (halted : Bool) (h : w.active ≠ some i) :
    w.finish i c halted = w.setCall i { c with phase := .over } :=
  if_neg fun howns => h ((owns_iff _ i).mp howns)

@[simp] theorem finish_targets (halted : Bool) :
    (w.finish i c halted).job.targets = w.job.targets := by
  by_cases h : w.active = some i
  · rw [finish_owned w i c halted h]
  · rw [finish_lost w i c halted h, setCall_job]

@[simp] theorem finish_launched (halted : Bool) :
    (w.finish i c halted).launched = w.launched := by
  by_cases h : w.active = some i
  · rw [finish_owned w i c halted h, setCall_launched]
  · rw [finish_lost w i c halted h, setCall_launched]

@[simp] theorem finish_calls (halted : Bool) :
    (w.finish i c halted).calls = w.calls.set i { c with phase := .over } := by
  by_cases h : w.active = some i
  · rw [finish_owned w i c halted h, setCall_calls]
  · rw [finish_lost w i c halted h, setCall_calls]

/-- The rows after some hosts were closed as not run. -/
def skipRows (now : Nat) (error : String) (serverIds : List String) (rows : List JobHostRow) :
    List JobHostRow :=
  rows.map fun r =>
    if r.serverId ∈ serverIds then
      r.patch { state := some .skipped, outcome := some (some .cancelled),
                error := some (some error), endedAt := some (some now) }
    else r

theorem markAllSkipped_eq (targets : List JobTarget) (error : String) :
    w.markAllSkipped targets error =
      { w with job := { w.job with
          targets := skipRows w.clock error (targets.map JobTarget.serverId) w.job.targets } } := by
  induction targets generalizing w with
  | nil => simp [markAllSkipped, skipRows]
  | cons t targets ih =>
    have hfold : w.markAllSkipped (t :: targets) error =
        (w.markSkipped t.serverId (some error)).markAllSkipped targets error := rfl
    rw [hfold, ih]
    simp only [markSkipped, write, JobRow.updateJobTarget, skipRows, updateTarget, List.map_map]
    congr 2
    apply List.map_congr_left
    intro r _
    by_cases ht : r.serverId = t.serverId
    · by_cases hrest : t.serverId ∈ targets.map JobTarget.serverId
      · simp [ht, hrest, JobHostRow.patch]
      · simp [ht, hrest, JobHostRow.patch]
    · simp [ht]

@[simp] theorem halt_targets (reason : String) :
    (w.halt i c reason).job.targets =
      skipRows w.clock (JOB_GATE_SKIPPED_ERROR (waveLabel c.wave) reason)
        ((waveTargets c.rest).map JobTarget.serverId) w.job.targets := by
  rw [halt, markAllSkipped_eq, finish_targets]

@[simp] theorem halt_launched (reason : String) : (w.halt i c reason).launched = w.launched := by
  rw [halt, markAllSkipped_eq, finish_launched]

@[simp] theorem halt_calls (reason : String) :
    (w.halt i c reason).calls = w.calls.set i { c with phase := .over } := by
  rw [halt, markAllSkipped_eq, finish_calls]

/-- A call that does not own the job leaves its state. -/
theorem halt_state_lost (reason : String) (h : w.active ≠ some i) :
    (w.halt i c reason).job.state = w.job.state := by
  rw [halt, markAllSkipped_eq, finish_lost _ i c true (by exact h), setCall_job]

end World

/-! ## What a move does -/

/-- `w` after a move, by the kinds of moves that differ. -/
inductive Does (req : JobRunRequest) (deps : JobRunnerDeps) (w : World) : Move → World → Prop
  | same {m : Move} : Does req deps w m w
  | tick (ms : Nat) : Does req deps w (.tick ms) { w with clock := w.clock + ms }
  | cancel (i : Nat) (c : Call) (hactive : w.active = some i) (hcall : w.calls[i]? = some c)
      (at' : Option Nat) :
      Does req deps w .cancel
        { w.setCall i { c with cancelled := true } with job := { w.job with cancelledAt := at' } }
  | disposeAll (i : Nat) (c : Call) (hactive : w.active = some i) (hcall : w.calls[i]? = some c) :
      Does req deps w .disposeAll
        { w.setCall i { c with cancelled := true, disposed := true } with active := none }
  | restart : Does req deps w .restart { w with calls := [], active := none }
  | adopt (hidle : w.idle = true) (hnone : ∀ r ∈ w.job.targets, reclaimable r = false) :
      Does req deps w .adopt
        { w with job := { w.job with
            targets := w.job.targets.map (World.closed w.clock World.notReached)
            state := .abandoned
            endedAt := some w.clock } }
  | reclaim (gone : List String) (notRun : String) (hidle : w.idle = true) :
      Does req deps w (.reclaim gone)
        { w with
          job := { w.job with
            targets := w.job.targets.map fun t =>
              if reclaimable t then t else World.closed w.clock notRun t }
          calls := w.calls ++
            [{ reclaims := true, cancelled := false, disposed := false, wave := "", rest := []
               phase := startWave req.concurrency (w.job.targets.filterMap (World.requeued gone))
               called := [] }]
          active := some w.calls.length }
  | workerOver (i k : Nat) (c : Call) (queue : List Queued) (workers : List Worker)
      (hcall : w.calls[i]? = some c) (hphase : c.phase = .wave queue workers)
      (hready : workers[k]? = some .ready) (hempty : w.active = some i → queue = []) :
      Does req deps w (.work i k) (w.setWorker i c queue workers k .over)
  | skip (i k : Nat) (c : Call) (q : Queued) (queue : List Queued) (workers : List Worker)
      (hactive : w.active = some i) (hcall : w.calls[i]? = some c)
      (hphase : c.phase = .wave (q :: queue) workers) (hready : workers[k]? = some .ready)
      (hcancelled : c.cancelled = true) (hgone : c.reclaims = true → q.gone = false) :
      Does req deps w (.work i k)
        ((w.setWorker i c queue workers k .ready).markSkipped q.target.serverId none)
  | gone (i k : Nat) (c : Call) (q : Queued) (queue : List Queued) (workers : List Worker)
      (hactive : w.active = some i) (hcall : w.calls[i]? = some c)
      (hphase : c.phase = .wave (q :: queue) workers) (hready : workers[k]? = some .ready)
      (hreclaims : c.reclaims = true) (hgone : q.gone = true) (error : String) :
      Does req deps w (.work i k)
        ((w.setWorker i c queue workers k .ready).write q.target.serverId
          { state := some .orphaned, outcome := some (some .orphaned), error := some (some error)
            endedAt := some (some w.clock) })
  | start (i k : Nat) (c : Call) (q : Queued) (queue : List Queued) (workers : List Worker)
      (h : HostRun) (hactive : w.active = some i) (hcall : w.calls[i]? = some c)
      (hphase : c.phase = .wave (q :: queue) workers) (hready : workers[k]? = some .ready)
      (hcancelled : c.cancelled = false) (htarget : h.target = q.target)
      (hhandle : h.handle = q.resume.map Resume.handle) (hfresh : q.resume = none) :
      Does req deps w (.work i k)
        ((w.write q.target.serverId
          { state := some .running, startedAt := some (some w.clock) }).callExec i c queue workers k
            h)
  | resume (i k : Nat) (c : Call) (q : Queued) (queue : List Queued) (workers : List Worker)
      (h : HostRun) (r : Resume) (hactive : w.active = some i) (hcall : w.calls[i]? = some c)
      (hphase : c.phase = .wave (q :: queue) workers) (hready : workers[k]? = some .ready)
      (hcancelled : c.cancelled = false) (htarget : h.target = q.target)
      (hhandle : h.handle = some r.handle) (hresume : q.resume = some r) :
      Does req deps w (.work i k) (w.callExec i c queue workers k h)
  | beyond (i k : Nat) (c : Call) (q : Queued) (queue : List Queued) (workers : List Worker)
      (h : HostRun) (r : Resume) (e : StepsEnd) (out : OutputTotals) (hactive : w.active = some i)
      (hcall : w.calls[i]? = some c) (hphase : c.phase = .wave (q :: queue) workers)
      (hready : workers[k]? = some .ready) (hcancelled : c.cancelled = false)
      (hresume : q.resume = some r) (hbeyond : req.steps.length < r.handle.step)
      (htarget : h.target = q.target) (hnone : e.failure = none ∧ e.result = none) :
      Does req deps w (.work i k)
        ((w.setWorker i c queue workers k .ready).tail deps i c h e out)
  | update (i k : Nat) (u : World.JobExecUpdate) (c : Call) (queue : List Queued)
      (workers : List Worker) (h : HostRun) (hcall : w.calls[i]? = some c)
      (hphase : c.phase = .wave queue workers) (hbusy : workers[k]? = some (.busy h)) :
      Does req deps w (.update i k u)
        ((w.setWorker i c queue workers k (.busy { h with handle := u.detached.getD h.handle })
          ).applyUpdate i h.target.serverId u)
  | late (i : Nat) (serverId : String) (u : World.JobExecUpdate) (c : Call)
      (hcall : w.calls[i]? = some c) (hcalled : serverId ∈ c.called) :
      Does req deps w (.late i serverId u) (w.applyUpdate i serverId u)
  | nextStep (i k : Nat) (r : JobExecResult) (out : OutputTotals) (c : Call) (queue : List Queued)
      (workers : List Worker) (h : HostRun) (hactive : w.active = some i)
      (hcall : w.calls[i]? = some c) (hphase : c.phase = .wave queue workers)
      (hbusy : workers[k]? = some (.busy h)) :
      Does req deps w (.settle i k (.fulfilled r) out)
        (w.callExec i c queue workers k { h with stepIndex := h.stepIndex + 1, result := some r })
  | hostOver (i k : Nat) (s : World.Settled) (out : OutputTotals) (c : Call) (queue : List Queued)
      (workers : List Worker) (h : HostRun) (e : StepsEnd) (hcall : w.calls[i]? = some c)
      (hphase : c.phase = .wave queue workers) (hbusy : workers[k]? = some (.busy h))
      (hend : World.settled req (w.owns i) h s = .inr e) :
      Does req deps w (.settle i k s out)
        ((w.setWorker i c queue workers k .ready).tail deps i c h e out)
  | finish (i : Nat) (c : Call) (hcall : w.calls[i]? = some c) (hbetween : c.between)
      (hlast : c.reclaims = true ∨ w.active ≠ some i ∨ c.cancelled = true ∨ c.rest = []) :
      Does req deps w (.waveOver i) (w.finish i c false)
  | goOn {m : Move} (i : Nat) (c : Call) (hcall : w.calls[i]? = some c) (hbetween : c.between)
      (hmove : m = .waveOver i ∨ (∃ v, m = .gate i v) ∨ ∃ v, m = .nodes i v) :
      Does req deps w m (w.goOn req i c)
  | wait {m : Move} (i : Nat) (c : Call) (phase : Phase) (hcall : w.calls[i]? = some c)
      (hbetween : c.between) (hphase : (∃ t, phase = .gate t) ∨ ∃ t, phase = .nodes t)
      (hmove : m = .waveOver i ∨ (∃ v, m = .gate i v) ∨ ∃ v, m = .nodes i v) :
      Does req deps w m (w.setCall i { c with phase := phase })
  | halt {m : Move} (i : Nat) (c : Call) (reason : String) (hcall : w.calls[i]? = some c)
      (hbetween : c.between)
      (hmove : m = .waveOver i ∨ (∃ v, m = .gate i v) ∨ ∃ v, m = .nodes i v) :
      Does req deps w m (w.halt i c reason)

section Inversion
variable {req : JobRunRequest} {deps : JobRunnerDeps} {w w' : World}

theorem cancel_does : Does req deps w .cancel w.cancel := by
  unfold World.cancel
  cases hactive : w.active with
  | none => exact .same
  | some i =>
    dsimp only
    cases hcall : w.calls[i]? with
    | none => exact .same
    | some c =>
      dsimp only
      split_ifs
      · exact .same
      · exact .cancel i c hactive hcall _

theorem disposeAll_does : Does req deps w .disposeAll w.disposeAll := by
  unfold World.disposeAll
  cases hactive : w.active with
  | none => exact .same
  | some i =>
    dsimp only
    cases hcall : w.calls[i]? with
    | none => exact .same
    | some c => exact .disposeAll i c hactive hcall

theorem adopt_does : Does req deps w .adopt w.adopt := by
  unfold World.adopt
  split_ifs with h
  · have hboth := Bool.and_eq_true_iff.mp h
    refine .adopt hboth.1 fun r hr => ?_
    have hnone := hboth.2
    rw [Bool.not_eq_true', List.any_eq_false] at hnone
    exact Bool.eq_false_iff.mpr (hnone r hr)
  · exact .same

theorem reclaim_does (gone : List String) :
    Does req deps w (.reclaim gone) (w.reclaim req deps gone) := by
  unfold World.reclaim
  split_ifs with h
  · exact .reclaim gone _ (Bool.and_eq_true_iff.mp h).1
  · exact .same

theorem runOne_does {i k : Nat} {c : Call} {q : Queued} {queue : List Queued}
    {workers : List Worker} (hsteps : req.steps ≠ []) (hactive : w.active = some i)
    (hcall : w.calls[i]? = some c) (hphase : c.phase = .wave (q :: queue) workers)
    (hready : workers[k]? = some .ready) (hgone : c.reclaims = true → q.gone = false) :
    Does req deps w (.work i k) (w.runOne req deps i c queue workers k q) := by
  unfold World.runOne
  have hlength := List.length_pos_iff.mpr hsteps
  by_cases hcancelled : c.cancelled = true
  · rw [if_pos hcancelled]
    exact .skip i k c q queue workers hactive hcall hphase hready hcancelled hgone
  · rw [if_neg hcancelled]
    have hcancelled := Bool.eq_false_iff.mpr hcancelled
    cases hresume : q.resume with
    | none =>
      dsimp only [Option.map_none, Option.getD_none, Nat.max_self]
      rw [if_pos (by omega)]
      exact .start i k c q queue workers _ hactive hcall hphase hready hcancelled rfl
        (by rw [hresume]; rfl) hresume
    | some r =>
      dsimp only [Option.map_some, Option.getD_some]
      split_ifs with hfirst
      · exact .resume i k c q queue workers _ r hactive hcall hphase hready hcancelled rfl rfl
          hresume
      · exact .beyond i k c q queue workers _ r _ _ hactive hcall hphase hready hcancelled hresume
          (by omega) rfl ⟨rfl, rfl⟩

theorem work_does {i k : Nat} (hsteps : req.steps ≠ []) (h : w.work req deps i k = some w') :
    Does req deps w (.work i k) w' := by
  unfold World.work at h
  cases hcall : w.calls[i]? with
  | none => simp [hcall] at h
  | some c =>
    simp only [hcall] at h
    cases hphase : c.phase with
    | wave queue workers =>
      simp only [hphase] at h
      cases hready : workers[k]? with
      | none => simp [hready] at h
      | some worker =>
        cases worker with
        | ready =>
          simp only [hready] at h
          by_cases howns : w.owns i = true
          · rw [if_pos howns] at h
            have hactive := (w.owns_iff i).mp howns
            cases queue with
            | nil =>
              cases h
              exact .workerOver i k c [] workers hcall hphase hready fun _ => rfl
            | cons q queue =>
              cases h
              unfold World.take
              split_ifs with hreclaims hgone hcancelled
              · exact .gone i k c q queue workers hactive hcall hphase hready hreclaims hgone _
              · exact runOne_does hsteps hactive hcall hphase hready fun _ =>
                  Bool.eq_false_iff.mpr hgone
              · exact .skip i k c q queue workers hactive hcall hphase hready hcancelled
                  fun h => absurd h hreclaims
              · exact runOne_does hsteps hactive hcall hphase hready fun h => absurd h hreclaims
          · rw [if_neg howns] at h
            cases h
            exact .workerOver i k c queue workers hcall hphase hready fun hactive =>
              absurd ((w.owns_iff i).mpr hactive) howns
        | busy h' => simp [hready] at h
        | «over» => simp [hready] at h
    | gate since => simp [hphase] at h
    | nodes since => simp [hphase] at h
    | «over» => simp [hphase] at h

theorem update_does {i k : Nat} {u : World.JobExecUpdate} (h : w.update i k u = some w') :
    Does req deps w (.update i k u) w' := by
  unfold World.update at h
  cases hcall : w.calls[i]? with
  | none => simp [hcall] at h
  | some c =>
    simp only [hcall] at h
    cases hphase : c.phase with
    | wave queue workers =>
      simp only [hphase] at h
      cases hbusy : workers[k]? with
      | none => simp [hbusy] at h
      | some worker =>
        cases worker with
        | busy host =>
          simp only [hbusy] at h
          cases h
          exact .update i k u c queue workers host hcall hphase hbusy
        | ready => simp [hbusy] at h
        | «over» => simp [hbusy] at h
    | gate since => simp [hphase] at h
    | nodes since => simp [hphase] at h
    | «over» => simp [hphase] at h

theorem late_does {i : Nat} {serverId : String} {u : World.JobExecUpdate}
    (h : w.late i serverId u = some w') : Does req deps w (.late i serverId u) w' := by
  unfold World.late at h
  cases hcall : w.calls[i]? with
  | none => simp [hcall] at h
  | some c =>
    simp only [hcall] at h
    split_ifs at h with hcalled
    cases h
    exact .late i serverId u c hcall hcalled

/-- Only a result that lets the loop go on, in a call that owns the job, leads to the next step. -/
theorem settled_inl {owned : Bool} {h h' : HostRun} {s : World.Settled}
    (hs : World.settled req owned h s = .inl h') :
    owned = true ∧
      ∃ r, s = .fulfilled r ∧
        h' = { h with stepIndex := h.stepIndex + 1, result := some r } := by
  cases s with
  | fulfilled r =>
    unfold World.settled at hs
    dsimp only at hs
    split_ifs at hs with hgoes
    cases hs
    simp only [Bool.and_eq_true] at hgoes
    exact ⟨hgoes.2.1, r, rfl, rfl⟩
  | rejected message => cases hs
  | stalled => cases hs

/-- A host that is over is ok, failed or orphaned. -/
theorem settled_ends {owned : Bool} {h : HostRun} {s : World.Settled} {e : StepsEnd}
    (hend : World.settled req owned h s = .inr e)
    (hfinal : ∀ r, s = .fulfilled r → ∀ t ∈ r.finalState, t = .ok ∨ t = .failed ∨ t = .orphaned) :
    e.state = .ok ∨ e.state = .failed ∨ e.state = .orphaned := by
  cases s with
  | fulfilled r =>
    unfold World.settled at hend
    dsimp only at hend
    split_ifs at hend
    cases hend
    unfold StepsEnd.state
    dsimp only
    cases hstate : r.finalState with
    | some t => exact hfinal r rfl t hstate
    | none =>
      rw [Option.getD_none]
      split_ifs
      · exact Or.inl rfl
      · exact Or.inr (Or.inl rfl)
  | rejected message =>
    cases hend
    exact Or.inr (Or.inl rfl)
  | stalled =>
    cases hend
    exact Or.inr (Or.inl rfl)

theorem settle_does {i k : Nat} {s : World.Settled} {out : OutputTotals}
    (h : w.settle req deps i k s out = some w') : Does req deps w (.settle i k s out) w' := by
  unfold World.settle at h
  cases hcall : w.calls[i]? with
  | none => simp [hcall] at h
  | some c =>
    simp only [hcall] at h
    cases hphase : c.phase with
    | wave queue workers =>
      simp only [hphase] at h
      cases hbusy : workers[k]? with
      | none => simp [hbusy] at h
      | some worker =>
        cases worker with
        | busy host =>
          simp only [hbusy] at h
          cases hend : World.settled req (w.owns i) host s with
          | inl h' =>
            obtain ⟨howns, r, rfl, rfl⟩ := settled_inl hend
            simp only [hend, Option.some.injEq] at h
            subst h
            exact .nextStep i k r out c queue workers host ((w.owns_iff i).mp howns) hcall hphase
              hbusy
          | inr e =>
            simp only [hend, Option.some.injEq] at h
            subst h
            exact .hostOver i k s out c queue workers host e hcall hphase hbusy hend
        | ready => simp [hbusy] at h
        | «over» => simp [hbusy] at h
    | gate since => simp [hphase] at h
    | nodes since => simp [hphase] at h
    | «over» => simp [hphase] at h

theorem judge_does {m : Move} {i since : Nat} {c : Call} (v : World.GateVerdict)
    (hcall : w.calls[i]? = some c) (hbetween : c.between)
    (hmove : m = .waveOver i ∨ (∃ v, m = .gate i v) ∨ ∃ v, m = .nodes i v) :
    Does req deps w m (w.judge req deps i c since v) := by
  cases v with
  | ok => exact .goOn i c hcall hbetween hmove
  | unhealthy reason => exact .halt i c reason hcall hbetween hmove
  | stale reason =>
    unfold World.judge
    dsimp only
    split_ifs
    · exact .halt i c _ hcall hbetween hmove
    · exact .wait i c _ hcall hbetween (Or.inl ⟨_, rfl⟩) hmove

theorem waveOver_does {i : Nat} (h : w.waveOver req deps i = some w') :
    Does req deps w (.waveOver i) w' := by
  unfold World.waveOver at h
  cases hcall : w.calls[i]? with
  | none => simp [hcall] at h
  | some c =>
    simp only [hcall] at h
    cases hphase : c.phase with
    | wave queue workers =>
      simp only [hphase] at h
      split_ifs at h with hall hlast hgate hhealth <;> cases h
      all_goals
        have hbetween : c.between := by
          unfold Call.between
          rw [hphase]
          intro k hk
          have hover := List.all_eq_true.mp hall k hk
          cases k <;> first | rfl | cases hover
      · refine .finish i c hcall hbetween ?_
        simp only [Bool.or_eq_true, Bool.not_eq_true', List.isEmpty_iff] at hlast
        rcases hlast with ((hreclaims | howns) | hcancelled) | hrest
        · exact Or.inl hreclaims
        · refine Or.inr (Or.inl fun hactive => ?_)
          rw [(w.owns_iff i).mpr hactive] at howns
          cases howns
        · exact Or.inr (Or.inr (Or.inl hcancelled))
        · exact Or.inr (Or.inr (Or.inr hrest))
      · exact .goOn i c hcall hbetween (Or.inl rfl)
      · exact .halt i c _ hcall hbetween (Or.inl rfl)
      · exact .wait i c _ hcall hbetween (Or.inl ⟨_, rfl⟩) (Or.inl rfl)
    | gate since => simp [hphase] at h
    | nodes since => simp [hphase] at h
    | «over» => simp [hphase] at h

theorem gate_does {i : Nat} {v : World.GateVerdict} (h : w.gate req deps i v = some w') :
    Does req deps w (.gate i v) w' := by
  unfold World.gate at h
  cases hcall : w.calls[i]? with
  | none => simp [hcall] at h
  | some c =>
    simp only [hcall] at h
    cases hphase : c.phase with
    | gate since =>
      have hbetween : c.between := by
        unfold Call.between
        rw [hphase]
        trivial
      have hmove : (Move.gate i v) = .waveOver i ∨ (∃ v', Move.gate i v = .gate i v') ∨
          ∃ v', Move.gate i v = .nodes i v' := Or.inr (Or.inl ⟨v, rfl⟩)
      simp only [hphase] at h
      split_ifs at h <;> cases h
      · exact .goOn i c hcall hbetween hmove
      · exact .wait i c _ hcall hbetween (Or.inr ⟨_, rfl⟩) hmove
      · exact judge_does v hcall hbetween hmove
    | wave queue workers => simp [hphase] at h
    | nodes since => simp [hphase] at h
    | «over» => simp [hphase] at h

theorem nodes_does {i : Nat} {v : World.GateVerdict} (h : w.nodes req deps i v = some w') :
    Does req deps w (.nodes i v) w' := by
  unfold World.nodes at h
  cases hcall : w.calls[i]? with
  | none => simp [hcall] at h
  | some c =>
    simp only [hcall] at h
    cases hphase : c.phase with
    | nodes since =>
      have hbetween : c.between := by
        unfold Call.between
        rw [hphase]
        trivial
      simp only [hphase] at h
      cases h
      exact judge_does v hcall hbetween (Or.inr (Or.inr ⟨v, rfl⟩))
    | wave queue workers => simp [hphase] at h
    | gate since => simp [hphase] at h
    | «over» => simp [hphase] at h

theorem step_does {m : Move} (hsteps : req.steps ≠ []) (h : step req deps w m = some w') :
    Does req deps w m w' := by
  cases m with
  | tick ms =>
    cases h
    exact .tick ms
  | cancel =>
    cases h
    exact cancel_does
  | disposeAll =>
    cases h
    exact disposeAll_does
  | restart =>
    cases h
    exact .restart
  | adopt =>
    cases h
    exact adopt_does
  | reclaim gone =>
    cases h
    exact reclaim_does gone
  | work i k => exact work_does hsteps h
  | update i k u => exact update_does h
  | late i serverId u => exact late_does h
  | settle i k s out => exact settle_does h
  | waveOver i => exact waveOver_does h
  | gate i v => exact gate_does h
  | nodes i v => exact nodes_does h

end Inversion

end OpsMaxx.Jobs
