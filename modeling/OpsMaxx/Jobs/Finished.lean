import OpsMaxx.Jobs.Tracked

/-!
# A finished job has no unfinished host

When `run` writes its job's row as done, cancelled or halted, every host has a row that is an end,
and a host the executor was never called for is recorded as not run. It is so unless the run is
cancelled in a wave that has waves behind it: the loop over the waves is left there, and the hosts
of the waves to come stay `pending`.
-/

set_option autoImplicit false

namespace OpsMaxx.Jobs

open OpsMaxx.Machine

/-- The states `run` writes at its end. -/
def JobState.ended (s : JobState) : Bool := s = .done ∨ s = .cancelled ∨ s = .halted

def AllFinished (w : World) : Prop :=
  (∀ r ∈ w.job.targets, isJobHostLive r.state = false) ∧
    ∀ r ∈ w.job.targets, r.serverId ∉ w.launched →
      r.state = .skipped ∧ r.outcome = some .cancelled

/-- The moves of one call of `run`, with anything the executor may do. The run is not cancelled at
the end of a wave that has waves behind it, no update opens the row of a host that is over, and no
executor ends a host in a state that is not an end. -/
def Orderly (w : World) : Move → Prop
  | .reclaim _ => False
  | .waveOver i =>
    ∀ c, w.active = some i → w.calls[i]? = some c → c.cancelled = true → c.rest = []
  | m => Tidy w m

theorem Orderly.tidy {w : World} {m : Move} (h : Orderly w m) : Tidy w m := by
  cases m <;> first | exact h | trivial

/-- What holds in every state of one call of `run`. -/
structure Running (w : World) : Prop where
  sound : Sound w
  tracked : Tracked w
  single : ∀ i c, w.calls[i]? = some c → i = 0 ∧ c.reclaims = false
  ended : w.job.state.ended = true →
    (∀ c ∈ w.calls, c.phase = .over) ∧ ∀ r ∈ w.job.targets, isJobHostLive r.state = false

theorem AllFinished.of_running {w : World} (h : Running w) (hended : w.job.state.ended = true) :
    AllFinished w := by
  have hdead := (h.ended hended).2
  refine ⟨hdead, fun r hr hnot => ?_⟩
  rcases (h.sound.rows r hr hnot).2 with hpending | hskipped
  · have hlive := hdead r hr
    rw [hpending] at hlive
    cases hlive
  · exact hskipped

namespace Running
variable {w : World} {req : JobRunRequest} {deps : JobRunnerDeps}

theorem not_ended (h : Running w) {i : Nat} (hactive : w.active = some i) :
    w.job.state.ended = false := by
  have hstate := (h.sound.unfinished i hactive).1
  cases hjob : w.job.state <;> rw [hjob] at hstate <;> first | rfl | cases hstate

theorem not_ended_of_phase (h : Running w) {i : Nat} {c : Call} (hcall : w.calls[i]? = some c)
    (hphase : c.phase ≠ .over) : w.job.state.ended = false := by
  refine Bool.eq_false_iff.mpr fun hended => ?_
  exact hphase ((h.ended hended).1 c (List.mem_of_getElem? hcall))

theorem single_setCall (h : Running w) {i : Nat} {c : Call} (c' : Call)
    (hcall : w.calls[i]? = some c) (hsame : c'.reclaims = c.reclaims) :
    ∀ j d, (w.calls.set i c')[j]? = some d → j = 0 ∧ d.reclaims = false := by
  intro j d hd
  rw [List.getElem?_set] at hd
  split_ifs at hd with hij
  · cases hd
    rw [← hij, hsame]
    exact h.single i c hcall
  · exact h.single j d hd

/-- With nothing queued and no wave to come, no row is live. -/
theorem all_dead (h : Running w) {i : Nat} {c : Call} (hactive : w.active = some i)
    (hcall : w.calls[i]? = some c) (hbetween : c.between) {r : JobHostRow}
    (hr : r ∈ w.job.targets) (hout : r.serverId ∉ (waveTargets c.rest).map JobTarget.serverId) :
    isJobHostLive r.state = false := by
  refine Bool.eq_false_iff.mpr fun hlive => ?_
  have hnil := drained_between (h.tracked.drained i c hactive hcall) hbetween
  rcases h.tracked.covered i c hactive hcall r hr hlive with hcome | hbusy | ⟨hreclaims, _⟩
  · rw [Call.toCome, Phase.queued, hnil] at hcome
    exact hout hcome
  · rw [between_busy hbetween] at hbusy
    exact List.not_mem_nil hbusy
  · rw [(h.single i c hcall).2] at hreclaims
    cases hreclaims

/-- The only call there is has ended. -/
theorem all_over (h : Running w) {i : Nat} {c : Call} (hcall : w.calls[i]? = some c) :
    ∀ d ∈ w.calls.set i { c with phase := .over }, d.phase = .over := by
  intro d hd
  obtain ⟨j, hj, rfl⟩ := List.mem_iff_getElem.mp hd
  have hj0 := (h.single_setCall { c with phase := .over } hcall rfl j _
    (List.getElem?_eq_getElem hj)).1
  have hi0 := (h.single i c hcall).1
  have hij : i = j := by omega
  subst hij
  rw [List.getElem_set_self]

theorem finish (h : Running w) {i : Nat} {c : Call} (halted : Bool)
    (hcall : w.calls[i]? = some c) (hbetween : c.between)
    (hdead : w.active = some i → ∀ r ∈ w.job.targets, isJobHostLive r.state = false) :
    Running (w.finish i c halted) := by
  refine ⟨h.sound.finish hcall halted, h.tracked.finish hcall halted, ?_, ?_⟩
  · by_cases hactive : w.active = some i
    · rw [w.finish_owned i c halted hactive]
      exact h.single_setCall _ hcall rfl
    · rw [w.finish_lost i c halted hactive]
      exact h.single_setCall _ hcall rfl
  · by_cases hactive : w.active = some i
    · rw [w.finish_owned i c halted hactive]
      exact fun _ => ⟨h.all_over hcall, hdead hactive⟩
    · rw [w.finish_lost i c halted hactive]
      intro hended
      rw [World.setCall_job, h.not_ended_of_phase hcall (between_not_over hbetween)] at hended
      cases hended

theorem markSkipped (h : Running w) (serverId : String) (error : Option String)
    (hnot : w.job.state.ended = false) : Running (w.markSkipped serverId error) :=
  ⟨h.sound.write _ _ (Or.inr ⟨rfl, rfl, rfl⟩), h.tracked.write _ _ (Or.inl ⟨_, rfl, rfl⟩),
    h.single, fun hended => absurd (hended.symm.trans hnot) (by simp)⟩

theorem markAllSkipped (h : Running w) (targets : List JobTarget) (error : String)
    (hnot : w.job.state.ended = false) : Running (w.markAllSkipped targets error) := by
  induction targets generalizing w with
  | nil => exact h
  | cons t targets ih => exact ih (h.markSkipped _ _ hnot) hnot

/-- The hosts of the waves to come are closed, and there are no others with a live row. -/
theorem halt (h : Running w) {i : Nat} {c : Call} (reason : String) (hcall : w.calls[i]? = some c)
    (hbetween : c.between) : Running (w.halt i c reason) := by
  have hnot := h.not_ended_of_phase hcall (between_not_over hbetween)
  have hskipped := h.markAllSkipped (waveTargets c.rest)
    (World.JOB_GATE_SKIPPED_ERROR (World.waveLabel c.wave) reason) hnot
  unfold World.halt
  rw [World.markAllSkipped_eq] at hskipped ⊢
  refine hskipped.finish true hcall hbetween fun hactive r hr => ?_
  obtain ⟨r₀, hr₀, rfl⟩ := List.mem_map.mp hr
  split_ifs with hin
  · rfl
  · exact h.all_dead hactive hcall hbetween hr₀ hin

theorem step {m : Move} {w' : World} (h : Running w)
    (hconc : 1 ≤ req.concurrency.getD JOB_CONCURRENCY) (hok : Orderly w m)
    (hdoes : Does req deps w m w') : Running w' := by
  have hsound := h.sound.step hdoes
  have htracked : Tracked w' := by
    refine h.tracked.step hconc hok.tidy (fun i k s out c _ hcall => ?_) hdoes
    cases hactive : w.active with
    | none => exact Or.inr rfl
    | some j =>
      obtain ⟨d, hd⟩ := (h.sound.unfinished j hactive).2
      rw [(h.single j d hd).1, (h.single i c hcall).1]
      exact Or.inl rfl
  have hkeep : w.job.state.ended = false → w'.job.state = w.job.state →
      (w'.job.state.ended = true →
        (∀ c ∈ w'.calls, c.phase = .over) ∧
          ∀ r ∈ w'.job.targets, isJobHostLive r.state = false) := by
    intro hnot hstate hended
    rw [hstate, hnot] at hended
    cases hended
  cases hdoes with
  | same => exact h
  | tick ms => exact ⟨hsound, htracked, h.single, h.ended⟩
  | cancel i c hactive hcall at' =>
    exact ⟨hsound, htracked, h.single_setCall _ hcall rfl, hkeep (h.not_ended hactive) rfl⟩
  | disposeAll i c hactive hcall =>
    exact ⟨hsound, htracked, h.single_setCall _ hcall rfl, hkeep (h.not_ended hactive) rfl⟩
  | restart =>
    refine ⟨hsound, htracked, fun i c hc => (by cases hc), fun hended => ⟨?_, (h.ended hended).2⟩⟩
    exact fun c hc => absurd hc List.not_mem_nil
  | adopt hidle hnone => exact ⟨hsound, htracked, h.single, fun hended => (by cases hended)⟩
  | reclaim gone notRun hidle => exact absurd hok id
  | workerOver i k c queue workers hcall hphase hready hempty =>
    refine ⟨hsound, htracked, h.single_setCall _ hcall rfl, hkeep ?_ rfl⟩
    exact h.not_ended_of_phase hcall (by rw [hphase]; simp)
  | skip i k c q queue workers hactive hcall hphase hready hcancelled hgone =>
    exact ⟨hsound, htracked, h.single_setCall _ hcall rfl, hkeep (h.not_ended hactive) rfl⟩
  | gone i k c q queue workers hactive hcall hphase hready hreclaims hgone error =>
    exact ⟨hsound, htracked, h.single_setCall _ hcall rfl, hkeep (h.not_ended hactive) rfl⟩
  | start i k c q queue workers host hactive hcall hphase hready hcancelled htarget hhandle
      hfresh =>
    exact ⟨hsound, htracked, h.single_setCall _ hcall rfl, hkeep (h.not_ended hactive) rfl⟩
  | resume i k c q queue workers host r hactive hcall hphase hready hcancelled htarget hhandle
      hresume =>
    exact ⟨hsound, htracked, h.single_setCall _ hcall rfl, hkeep (h.not_ended hactive) rfl⟩
  | beyond i k c q queue workers host r e out hactive hcall hphase hready hcancelled hresume
      hbeyond htarget hnone =>
    refine ⟨hsound, htracked, ?_, hkeep (h.not_ended hactive) (World.tail_state ..)⟩
    rw [World.tail_calls]
    exact h.single_setCall _ hcall rfl
  | update i k u c queue workers host hcall hphase hbusy =>
    refine ⟨hsound, htracked, ?_, hkeep ?_ (World.applyUpdate_state ..)⟩
    · rw [World.applyUpdate_calls]
      exact h.single_setCall _ hcall rfl
    · exact h.not_ended_of_phase hcall (by rw [hphase]; simp)
  | late i serverId u c hcall hcalled =>
    by_cases hactive : w.active = some i
    · refine ⟨hsound, htracked, ?_, hkeep (h.not_ended hactive) (World.applyUpdate_state ..)⟩
      rw [World.applyUpdate_calls]
      exact h.single
    · rw [w.applyUpdate_lost i serverId u hactive]
      exact h
  | nextStep i k r out c queue workers host hactive hcall hphase hbusy =>
    exact ⟨hsound, htracked, h.single_setCall _ hcall rfl, hkeep (h.not_ended hactive) rfl⟩
  | hostOver i k s out c queue workers host e hcall hphase hbusy hend =>
    refine ⟨hsound, htracked, ?_, hkeep ?_ (World.tail_state ..)⟩
    · rw [World.tail_calls]
      exact h.single_setCall _ hcall rfl
    · exact h.not_ended_of_phase hcall (by rw [hphase]; simp)
  | finish i c hcall hbetween hlast =>
    refine h.finish false hcall hbetween fun hactive r hr => ?_
    refine h.all_dead hactive hcall hbetween hr ?_
    have hrest : c.rest = [] := by
      rcases hlast with hreclaims | hlost | hcancelled | hrest
      · rw [(h.single i c hcall).2] at hreclaims
        cases hreclaims
      · exact absurd hactive hlost
      · exact hok c hactive hcall hcancelled
      · exact hrest
    rw [hrest]
    exact List.not_mem_nil
  | goOn i c hcall hbetween hmove =>
    refine ⟨hsound, htracked, h.single_setCall _ hcall (nextWave_reclaims _ _), hkeep ?_ rfl⟩
    exact h.not_ended_of_phase hcall (between_not_over hbetween)
  | wait i c phase hcall hbetween hphase hmove =>
    refine ⟨hsound, htracked, h.single_setCall _ hcall rfl, hkeep ?_ rfl⟩
    exact h.not_ended_of_phase hcall (between_not_over hbetween)
  | halt i c reason hcall hbetween hmove => exact h.halt reason hcall hbetween

end Running

/-- A run of no hosts is over at once. -/
theorem launch_ended (req : JobRunRequest) (clock : Nat)
    (h : (World.launch req clock).job.state.ended = true) :
    (∀ c ∈ (World.launch req clock).calls, c.phase = .over) ∧
      ∀ r ∈ (World.launch req clock).job.targets, isJobHostLive r.state = false := by
  unfold World.launch at h ⊢
  dsimp only at h ⊢
  split_ifs at h ⊢ with hempty
  · rw [World.finish_owned _ 0 _ false rfl]
    refine ⟨fun d hd => ?_, fun r hr => ?_⟩
    · have hset : d ∈ [_] := hd
      rw [List.mem_singleton.mp hset]
    · have hwave := (createTargets_cohorts hr).2
      rw [List.isEmpty_iff.mp hempty] at hwave
      exact absurd hwave List.not_mem_nil
  · cases h

theorem launch_running {req : JobRunRequest} (clock : Nat)
    (hconc : 1 ≤ req.concurrency.getD JOB_CONCURRENCY) : Running (World.launch req clock) :=
  ⟨launch_sound req clock, launch_tracked clock hconc,
    fun i c hc => ⟨(launch_calls req clock i c hc).1, (launch_calls req clock i c hc).2.1⟩,
    launch_ended req clock⟩

/-- In every state of every run whose moves are orderly: when `run` has written its job's row, no
host is unfinished, and the hosts the executor was never called for are recorded as not run. -/
theorem finished_job_has_no_unfinished_host {req : JobRunRequest} {deps : JobRunnerDeps}
    {clock : Nat} {ms : List Move} {w : World} (hsteps : req.steps ≠ [])
    (hconc : 1 ≤ req.concurrency.getD JOB_CONCURRENCY)
    (hrun : Run (step req deps) Orderly (World.launch req clock) ms w)
    (hended : w.job.state.ended = true) : AllFinished w := by
  have hrunning : Running w := by
    refine hrun.invariant (launch_running clock hconc) fun v m v' hv hok hstep => ?_
    exact hv.step hconc hok (step_does hsteps hstep)
  exact .of_running hrunning hended

/-! ## Two jobs, cancelled while a host runs -/

/-- `Orderly`, as far as it can be read off a state and a move. -/
def orderlyCheck (w : World) : Move → Bool
  | .reclaim _ => false
  | .waveOver i => (w.calls[i]?).all fun c => !c.cancelled || c.rest.isEmpty
  | .late _ _ u => u.state.all fun s => !isJobHostLive s
  | .settle _ _ (.fulfilled r) _ => r.finalState.all fun s => !isJobHostLive s
  | _ => true

theorem orderly_of_check {w : World} {m : Move} (h : orderlyCheck w m = true) : Orderly w m := by
  cases m with
  | reclaim gone => cases h
  | waveOver i =>
    intro c _ hcall hcancelled
    have hcheck : (w.calls[i]?).all (fun c => !c.cancelled || c.rest.isEmpty) = true := h
    rw [hcall, Option.all_some, hcancelled] at hcheck
    exact List.isEmpty_iff.mp hcheck
  | late i serverId u =>
    intro s hs
    have hstate : u.state.all (fun s => !isJobHostLive s) = true := h
    rw [Option.mem_def.mp hs, Option.all_some, Bool.not_eq_true'] at hstate
    exact hstate
  | settle i k settled out =>
    cases settled with
    | fulfilled r =>
      intro _ s hs
      have hstate : r.finalState.all (fun s => !isJobHostLive s) = true := h
      rw [Option.mem_def.mp hs, Option.all_some, Bool.not_eq_true'] at hstate
      exact hstate
    | rejected message => trivial
    | stalled => trivial
  | tick ms => trivial
  | cancel => trivial
  | disposeAll => trivial
  | restart => trivial
  | adopt => trivial
  | work i k => trivial
  | update i k u => trivial
  | gate i v => trivial
  | nodes i v => trivial

def zeroExit : Move := .settle 0 0 (.fulfilled { ok := true, code := some 0 }) ⟨0, 0, "", ""⟩

/-- The first host runs when the cancel comes. -/
def cancelledOneWave : List Move :=
  [.work 0 0, .cancel, zeroExit, .work 0 0, .work 0 0, .waveOver 0]

def cancelledFirstWave : List Move := [.work 0 0, .cancel, zeroExit, .work 0 0, .waveOver 0]

theorem finished_job_has_no_unfinished_host_cancelled :
    ∃ w, Run (step (upgrade [none, none]) plainDeps) Orderly
        (World.launch (upgrade [none, none]) 0) cancelledOneWave w ∧
      w.job.state = .cancelled ∧ AllFinished w := by
  have hplay : (play (step (upgrade [none, none]) plainDeps) orderlyCheck
      (World.launch (upgrade [none, none]) 0) cancelledOneWave).map (fun w => w.job.state) =
        some .cancelled := by decide +kernel
  obtain ⟨w, hw, hstate⟩ := Option.map_eq_some_iff.mp hplay
  have hrun := (Run.of_play hw).mono fun v m h => orderly_of_check h
  exact ⟨w, hrun, hstate, finished_job_has_no_unfinished_host (by decide) (by decide) hrun
    (by rw [hstate]; rfl)⟩

/-- The loop over the waves is left with a wave to come, and its host is never closed. -/
theorem cancelled_job_leaves_a_host_pending :
    ∃ w, Run (step (upgrade [some "wave-1", some "wave-2"]) plainDeps) (fun _ _ => True)
        (World.launch (upgrade [some "wave-1", some "wave-2"]) 0) cancelledFirstWave w ∧
      w.job.state = .cancelled ∧ (w.job.targets.map fun r => r.state) = [.ok, .pending] ∧
      ¬ AllFinished w := by
  have hplay : (play (step (upgrade [some "wave-1", some "wave-2"]) plainDeps) (fun _ _ => true)
      (World.launch (upgrade [some "wave-1", some "wave-2"]) 0) cancelledFirstWave).map
        (fun w => (w.job.state, w.job.targets.map fun r => r.state)) =
          some (.cancelled, [.ok, .pending]) := by decide +kernel
  obtain ⟨w, hw, heq⟩ := Option.map_eq_some_iff.mp hplay
  obtain ⟨hstate, hrows⟩ := Prod.mk.injEq .. ▸ heq
  refine ⟨w, (Run.of_play hw).mono fun v m h => trivial, hstate, hrows, fun hall => ?_⟩
  have hpending : JobHostState.pending ∈ w.job.targets.map fun r => r.state := by
    rw [hrows]
    decide
  obtain ⟨r, hr, hrstate⟩ := List.mem_map.mp hpending
  have hdead := hall.1 r hr
  rw [hrstate] at hdead
  cases hdead

end OpsMaxx.Jobs
