import OpsMaxx.Jobs.Tracked

/-!
# A launched command is never filed as not run

Once the executor was called for a host, the host's row is never written as skipped, and a row with
a marker stays one that `reclaim` takes up until an executor has reported the end of its command or
the server is gone. It is so unless a reclaimed job is cancelled with hosts still queued: `runOne`
closes such a host at its entry, where it takes a queued host for one that was never started. The
guard over the executor breaks it too, which ends a host whose link has been down for long, and so
does an executor that goes on writing to the row after the guard.
-/

set_option autoImplicit false

namespace OpsMaxx.Jobs

open OpsMaxx.Machine

/-- The executor hands a command back that still runs. -/
def JobExecResult.handsBack (r : JobExecResult) : Bool := r.finalState.any isJobHostLive

/-- What goes right in every step. A reclaimed host is not taken off the queue of a cancelled job,
and its marker names a step of the job. The executor says of a host only that it is running,
detached, rebooting or foreign, and nothing about its state once it is not waited for any more; it
ends a host with an end, and not as cancelled; its call neither throws nor outlives the guard while
the row can be reclaimed; and a call that lost its job leaves a host only while nobody else has the
job. -/
def Kept (req : JobRunRequest) (w : World) : Move → Prop
  | .work i k =>
    ∀ c q queue workers, w.active = some i → w.calls[i]? = some c →
      c.phase = .wave (q :: queue) workers → workers[k]? = some .ready →
        (c.reclaims = true → q.gone = true ∨ c.cancelled = false) ∧
          ∀ r, q.resume = some r → r.handle.step ≤ req.steps.length
  | .update _ _ u =>
    ∀ s ∈ u.state, s = .running ∨ s = .detached ∨ s = .rebooting ∨ s = .foreign
  | .late _ _ u => u.state = none
  | .settle i k s _ =>
    (w.active = some i →
      ∀ r, s = .fulfilled r → ∀ t ∈ r.finalState, t = .ok ∨ t = .failed ∨ t = .orphaned) ∧
    (w.active = some i ∨ w.active = none ∧ w.job.state.unfinished = true) ∧
    ∀ c queue workers h, w.calls[i]? = some c → c.phase = .wave queue workers →
      workers[k]? = some (.busy h) →
        (∀ r, s = .fulfilled r ∨ h.result = some r → r.finalOutcome ≠ some .cancelled) ∧
          ((∃ r, s = .fulfilled r ∧ r.handsBack = false) ∨
            (w.active ≠ some i ∧ (c.disposed = true → h.handle ≠ none)) ∨
            ∀ r ∈ w.job.targets, r.serverId = h.target.serverId → reclaimable r = false)
  | _ => True

/-- Somebody can still pick the host's command up. -/
def Followed (w : World) (serverId : String) : Prop :=
  w.job.state.unfinished = true ∧ ∃ r ∈ w.job.targets, r.serverId = serverId ∧ reclaimable r = true

/-- The moves that say the end of a host's command: its result, the word that it never began, and a
server that is gone. -/
inductive Reported (w : World) : Move → String → Prop
  | result (i k : Nat) (r : JobExecResult) (out : OutputTotals) (c : Call) (queue : List Queued)
      (workers : List Worker) (h : HostRun) (hcall : w.calls[i]? = some c)
      (hphase : c.phase = .wave queue workers) (hbusy : workers[k]? = some (.busy h))
      (hend : r.handsBack = false) : Reported w (.settle i k (.fulfilled r) out) h.target.serverId
  | neverBegan (i k : Nat) (u : World.JobExecUpdate) (c : Call) (queue : List Queued)
      (workers : List Worker) (h : HostRun) (hcall : w.calls[i]? = some c)
      (hphase : c.phase = .wave queue workers) (hbusy : workers[k]? = some (.busy h))
      (hnone : u.detached = some none) : Reported w (.update i k u) h.target.serverId
  | late (i : Nat) (serverId : String) (u : World.JobExecUpdate) (hnone : u.detached = some none) :
      Reported w (.late i serverId u) serverId
  | gone (i k : Nat) (c : Call) (q : Queued) (queue : List Queued) (workers : List Worker)
      (hactive : w.active = some i) (hcall : w.calls[i]? = some c)
      (hphase : c.phase = .wave (q :: queue) workers) (hreclaims : c.reclaims = true)
      (hgone : q.gone = true) : Reported w (.work i k) q.target.serverId

def JobHostRow.NotFiled (r : JobHostRow) : Prop :=
  r.state ≠ .pending ∧ r.state ≠ .waiting ∧ r.state ≠ .skipped ∧ r.outcome ≠ some .cancelled

/-- While `run` has the job, the hosts it still has to come to have no outcome. -/
def Fresh (w : World) : Prop :=
  ∀ i c, w.active = some i → w.calls[i]? = some c → c.reclaims = false →
    ∀ r ∈ w.job.targets, r.serverId ∈ c.toCome → r.outcome = none

/-- What holds in every state of a job whose steps all go right. -/
structure Filed (w : World) : Prop where
  sound : Sound w
  tracked : Tracked w
  launched : ∀ r ∈ w.job.targets, r.serverId ∈ w.launched → r.NotFiled
  toCome : ∀ i c, w.calls[i]? = some c → c.reclaims = false →
    i = 0 ∧ c.toCome.Nodup ∧ ∀ s ∈ c.toCome, s ∉ w.launched
  fresh : Fresh w
  closed : w.job.state.unfinished = false → ∀ r ∈ w.job.targets, reclaimable r = false

namespace Filed
variable {w : World} {req : JobRunRequest} {deps : JobRunnerDeps}

/-- Between two waves no row has a marker that is followed. -/
theorem none_reclaimable (h : Filed w) {i : Nat} {c : Call} (hactive : w.active = some i)
    (hcall : w.calls[i]? = some c) (hbetween : c.between) {r : JobHostRow}
    (hr : r ∈ w.job.targets) : reclaimable r = false := by
  refine Bool.eq_false_iff.mpr fun hrec => ?_
  have hlive := (Bool.and_eq_true_iff.mp hrec).2
  have hmem := List.mem_of_getElem? hcall
  have hnil := drained_between (h.tracked.drained i c hactive hcall) hbetween
  rcases h.tracked.covered i c hactive hcall r hr hlive with hcome | hbusy | ⟨_, _, hnone⟩
  · cases hreclaims : c.reclaims with
    | true =>
      rw [Call.toCome, Phase.queued, hnil, h.sound.reclaims c hmem hreclaims] at hcome
      exact List.not_mem_nil hcome
    | false =>
      exact (h.toCome i c hcall hreclaims).2.2 _ hcome (h.sound.launched_of_reclaimable hr hrec)
  · rw [between_busy hbetween] at hbusy
    exact List.not_mem_nil hbusy
  · rw [reclaimable, hnone] at hrec
    cases hrec

/-! ### Rows of launched hosts -/

theorem launched_write (h : ∀ r ∈ w.job.targets, r.serverId ∈ w.launched → r.NotFiled)
    (serverId : String) (p : JobTargetPatch)
    (hp : serverId ∉ w.launched ∨
      (∀ s, p.state = some s → s ≠ .pending ∧ s ≠ .waiting ∧ s ≠ .skipped) ∧
        p.outcome ≠ some (some .cancelled)) :
    ∀ r ∈ (w.write serverId p).job.targets, r.serverId ∈ w.launched → r.NotFiled := by
  intro r hr hin
  obtain ⟨r₀, hr₀, rfl⟩ := mem_updateTarget.mp hr
  split_ifs at hin ⊢ with hid
  · have hr₀in : r₀.serverId ∈ w.launched := hin
    obtain ⟨hpstate, hpoutcome⟩ := hp.resolve_left fun hnot => hnot (hid ▸ hr₀in)
    obtain ⟨hpending, hwaiting, hskipped, hcancelled⟩ := h r₀ hr₀ hr₀in
    have houtcome : (r₀.patch p).outcome ≠ some .cancelled := by
      rw [patch_outcome]
      cases houtcome : p.outcome with
      | none => exact hcancelled
      | some o => exact fun heq => hpoutcome (houtcome.trans (congrArg some heq))
    cases hstate : p.state with
    | none =>
      have hsame : (r₀.patch p).state = r₀.state := by rw [patch_state, hstate, Option.getD_none]
      unfold JobHostRow.NotFiled
      rw [hsame]
      exact ⟨hpending, hwaiting, hskipped, houtcome⟩
    | some s =>
      have hnew : (r₀.patch p).state = s := by rw [patch_state, hstate, Option.getD_some]
      unfold JobHostRow.NotFiled
      rw [hnew]
      obtain ⟨h₁, h₂, h₃⟩ := hpstate s hstate
      exact ⟨h₁, h₂, h₃, houtcome⟩
  · exact h r₀ hr₀ hin

theorem closed_notFiled {now : Nat} {notRun : String} {r : JobHostRow} (h : r.NotFiled) :
    (World.closed now notRun r).NotFiled := by
  obtain ⟨hpending, hwaiting, hskipped, hcancelled⟩ := h
  unfold World.closed
  split_ifs with hrunning hnot
  · exact ⟨JobHostState.noConfusion, JobHostState.noConfusion, JobHostState.noConfusion,
      by simp [JobHostRow.patch]⟩
  · exact absurd hnot (not_or.mpr ⟨hpending, hwaiting⟩)
  · exact ⟨hpending, hwaiting, hskipped, hcancelled⟩

theorem broadcast_skipped {r : JobHostResult} (h : classifyBroadcastResult r = some .cancelled) :
    r.state = .skipped := by
  by_contra hnot
  unfold classifyBroadcastResult at h
  rw [if_neg hnot] at h
  repeat' split at h
  all_goals cases h

/-- The classifier finds only a skipped host cancelled. -/
theorem skipped_of_cancelled {r : JobHostResult} (h : classifyJobResult r = some .cancelled) :
    r.state = .skipped := by
  unfold classifyJobResult at h
  repeat' split at h
  all_goals first | cases h | exact broadcast_skipped h

/-- A host that is over was not cancelled, unless its executor ends it so. -/
theorem settled_outcome {owned : Bool} {h : HostRun} {s : World.Settled} {e : StepsEnd}
    {out : OutputTotals} (scrub : String → String)
    (hend : World.settled req owned h s = .inr e)
    (hstate : e.state = .ok ∨ e.state = .failed ∨ e.state = .orphaned)
    (hfinal : ∀ r, s = .fulfilled r ∨ h.result = some r → r.finalOutcome ≠ some .cancelled) :
    e.outcome scrub out ≠ some .cancelled := by
  have hresult : ∀ r, e.result = some r → r.finalOutcome ≠ some .cancelled := by
    intro r hr
    cases s with
    | fulfilled r' =>
      unfold World.settled at hend
      dsimp only at hend
      split_ifs at hend
      cases hend
      exact hfinal r (Or.inl (congrArg _ (Option.some.inj hr)))
    | rejected message =>
      cases hend
      exact hfinal r (Or.inr hr)
    | stalled =>
      cases hend
      exact hfinal r (Or.inr hr)
  unfold StepsEnd.outcome
  dsimp only
  cases hbind : e.result.bind JobExecResult.finalOutcome with
  | some o =>
    obtain ⟨r, hr, ho⟩ := Option.bind_eq_some_iff.mp hbind
    exact fun heq => hresult r hr (ho.trans heq)
  | none =>
    intro heq
    have hskipped : e.state = .skipped := skipped_of_cancelled heq
    rw [hskipped] at hstate
    rcases hstate with h | h | h <;> cases h

theorem busy_launched (h : Filed w) {i k : Nat} {c : Call} {queue : List Queued}
    {workers : List Worker} {host : HostRun} (hcall : w.calls[i]? = some c)
    (hphase : c.phase = .wave queue workers) (hbusy : workers[k]? = some (.busy host)) :
    host.target.serverId ∈ w.launched := by
  refine h.sound.called c (List.mem_of_getElem? hcall) _ (Or.inl ?_)
  rw [hphase]
  exact List.mem_filterMap.mpr ⟨_, List.mem_of_getElem? hbusy, rfl⟩

theorem head_toCome {c : Call} {q : Queued} {queue : List Queued} {workers : List Worker}
    (hphase : c.phase = .wave (q :: queue) workers) : q.target.serverId ∈ c.toCome := by
  rw [Call.toCome, hphase]
  exact List.mem_append_left _ List.mem_cons_self

theorem rest_toCome {c : Call} {s : String}
    (h : s ∈ (waveTargets c.rest).map JobTarget.serverId) : s ∈ c.toCome :=
  List.mem_append_right _ h

/-- A host of a wave to come was never launched. -/
theorem rest_not_launched (h : Filed w) {i : Nat} {c : Call} (hcall : w.calls[i]? = some c)
    {s : String} (hs : s ∈ (waveTargets c.rest).map JobTarget.serverId) : s ∉ w.launched := by
  cases hreclaims : c.reclaims with
  | true =>
    rw [h.sound.reclaims c (List.mem_of_getElem? hcall) hreclaims] at hs
    exact absurd hs List.not_mem_nil
  | false => exact (h.toCome i c hcall hreclaims).2.2 s (rest_toCome hs)

theorem launched_tail {i : Nat} {c : Call} {host : HostRun} {e : StepsEnd} {out : OutputTotals}
    (h : ∀ r ∈ w.job.targets, r.serverId ∈ w.launched → r.NotFiled)
    (hends : w.active = some i → e.state = .ok ∨ e.state = .failed ∨ e.state = .orphaned)
    (houtcome : w.active = some i → e.outcome deps.scrub out ≠ some .cancelled) :
    ∀ r ∈ (w.tail deps i c host e out).job.targets, r.serverId ∈ w.launched → r.NotFiled := by
  unfold World.tail
  split_ifs with howns hdisposed
  · have hactive := (w.owns_iff i).mp howns
    refine launched_write h _ _ (Or.inr ⟨fun s hs => ?_, fun heq => ?_⟩)
    · cases hs
      rcases hends hactive with hstate | hstate | hstate <;> rw [hstate] <;> simp
    · exact houtcome hactive (Option.some.inj heq)
  · refine launched_write h _ _ (Or.inr ?_)
    cases host.handle with
    | none => exact ⟨fun s hs => (by cases hs; simp), by simp [disposedPatch]⟩
    | some handle => exact ⟨fun s hs => (by cases hs; simp), by simp [disposedPatch]⟩
  · exact h

theorem launched_step {m : Move} {w' : World} (h : Filed w) (hok : Kept req w m)
    (hdoes : Does req deps w m w') :
    ∀ r ∈ w'.job.targets, r.serverId ∈ w'.launched → r.NotFiled := by
  cases hdoes with
  | same => exact h.launched
  | tick ms => exact h.launched
  | cancel i c hactive hcall at' => exact h.launched
  | disposeAll i c hactive hcall => exact h.launched
  | restart => exact h.launched
  | adopt hidle hnone =>
    intro r hr hin
    obtain ⟨r₀, hr₀, rfl⟩ := List.mem_map.mp hr
    rw [Sound.closed_serverId] at hin
    exact closed_notFiled (h.launched r₀ hr₀ hin)
  | reclaim gone notRun hidle =>
    intro r hr hin
    obtain ⟨r₀, hr₀, rfl⟩ := List.mem_map.mp hr
    split_ifs at hin ⊢
    · exact h.launched r₀ hr₀ hin
    · rw [Sound.closed_serverId] at hin
      exact closed_notFiled (h.launched r₀ hr₀ hin)
  | workerOver i k c queue workers hcall hphase hready hempty => exact h.launched
  | skip i k c q queue workers hactive hcall hphase hready hcancelled hgone =>
    refine launched_write (w := w.setWorker i c queue workers k .ready) h.launched _ _ (Or.inl ?_)
    cases hreclaims : c.reclaims with
    | true =>
      rcases (hok c q queue workers hactive hcall hphase hready).1 hreclaims with hg | hc
      · rw [hgone hreclaims] at hg
        cases hg
      · rw [hcancelled] at hc
        cases hc
    | false => exact (h.toCome i c hcall hreclaims).2.2 _ (head_toCome hphase)
  | gone i k c q queue workers hactive hcall hphase hready hreclaims hgone error =>
    refine launched_write (w := w.setWorker i c queue workers k .ready) h.launched _ _ (Or.inr ?_)
    exact ⟨fun s hs => (by cases hs; simp), by simp⟩
  | start i k c q queue workers host hactive hcall hphase hready hcancelled htarget hhandle
      hfresh =>
    intro r hr hin
    obtain ⟨r₀, hr₀, rfl⟩ := mem_updateTarget.mp hr
    split_ifs at hin ⊢ with hid
    · refine ⟨JobHostState.noConfusion, JobHostState.noConfusion, JobHostState.noConfusion, ?_⟩
      cases hreclaims : c.reclaims with
      | true =>
        refine (h.launched r₀ hr₀ ?_).2.2.2
        rw [hid]
        refine h.sound.resumed c (List.mem_of_getElem? hcall) q ?_ (Or.inl hreclaims)
        rw [hphase]
        exact List.mem_cons_self
      | false =>
        have hnone := h.fresh i c hactive hcall hreclaims r₀ hr₀ (hid ▸ head_toCome hphase)
        exact fun heq => (by cases hnone.symm.trans heq)
    · refine h.launched r₀ hr₀ ((List.mem_cons.mp hin).resolve_left fun heq => hid ?_)
      rw [heq, htarget]
  | resume i k c q queue workers host r hactive hcall hphase hready hcancelled htarget hhandle
      hresume =>
    intro r₀ hr₀ hin
    refine h.launched r₀ hr₀ ?_
    rcases List.mem_cons.mp hin with heq | hold
    · rw [heq, htarget]
      refine h.sound.resumed c (List.mem_of_getElem? hcall) q ?_ (Or.inr (by simp [hresume]))
      rw [hphase]
      exact List.mem_cons_self
    · exact hold
  | beyond i k c q queue workers host r e out hactive hcall hphase hready hcancelled hresume
      hbeyond htarget hnone =>
    have hstep := (hok c q queue workers hactive hcall hphase hready).2 r hresume
    omega
  | update i k u c queue workers host hcall hphase hbusy =>
    rw [World.applyUpdate_launched]
    unfold World.applyUpdate
    split_ifs
    · refine launched_write (w := w.setWorker i c queue workers k _) h.launched _ _ (Or.inr ?_)
      refine ⟨fun s hs => ?_, by simp [World.JobExecUpdate.patch]⟩
      rcases hok s hs with rfl | rfl | rfl | rfl <;> simp
    · exact h.launched
  | late i serverId u c hcall hcalled =>
    rw [World.applyUpdate_launched]
    unfold World.applyUpdate
    split_ifs
    · have hnone : u.state = none := hok
      refine launched_write h.launched _ _ (Or.inr ⟨fun s hs => ?_, ?_⟩)
      · rw [World.JobExecUpdate.patch, hnone] at hs
        cases hs
      · simp [World.JobExecUpdate.patch]
    · exact h.launched
  | nextStep i k r out c queue workers host hactive hcall hphase hbusy =>
    intro r₀ hr₀ hin
    refine h.launched r₀ hr₀ ?_
    rcases List.mem_cons.mp hin with heq | hold
    · have hlaunched := h.busy_launched hcall hphase hbusy
      exact heq ▸ hlaunched
    · exact hold
  | hostOver i k s out c queue workers host e hcall hphase hbusy hend =>
    rw [World.tail_launched]
    have hends : w.active = some i → e.state = .ok ∨ e.state = .failed ∨ e.state = .orphaned :=
      fun hactive => settled_ends hend (hok.1 hactive)
    refine launched_tail (w := w.setWorker i c queue workers k .ready) h.launched hends
      fun hactive => ?_
    exact settled_outcome deps.scrub hend (hends hactive)
      (hok.2.2 c queue workers host hcall hphase hbusy).1
  | finish i c hcall hbetween hlast =>
    rw [World.finish_targets, World.finish_launched]
    exact h.launched
  | goOn i c hcall hbetween hmove => exact h.launched
  | wait i c phase hcall hbetween hphase hmove => exact h.launched
  | halt i c reason hcall hbetween hmove =>
    rw [World.halt_targets, World.halt_launched]
    intro r hr hin
    obtain ⟨r₀, hr₀, rfl⟩ := List.mem_map.mp hr
    split_ifs at hin ⊢ with hrest
    · exact absurd hin (h.rest_not_launched hcall hrest)
    · exact h.launched r₀ hr₀ hin

/-! ### The hosts still to come -/

theorem toCome_setCall (h : Filed w) {i : Nat} {c c' : Call} {launched : List String}
    (hcall : w.calls[i]? = some c) (hreclaims : c'.reclaims = c.reclaims)
    (hsub : c'.toCome.Sublist c.toCome)
    (hlaunched : ∀ s ∈ launched, s ∈ w.launched ∨ c.reclaims = false ∧ s ∉ c'.toCome) :
    ∀ j d, (w.calls.set i c')[j]? = some d → d.reclaims = false →
      j = 0 ∧ d.toCome.Nodup ∧ ∀ s ∈ d.toCome, s ∉ launched := by
  intro j d hd hruns
  rw [List.getElem?_set] at hd
  split_ifs at hd with hij
  · cases hd
    rw [hreclaims] at hruns
    obtain ⟨hi, hnodup, hnot⟩ := h.toCome i c hcall hruns
    refine ⟨hij ▸ hi, hnodup.sublist hsub, fun s hs hin => ?_⟩
    rcases hlaunched s hin with hold | ⟨_, hout⟩
    · exact hnot s (hsub.subset hs) hold
    · exact hout hs
  · obtain ⟨hj, hnodup, hnot⟩ := h.toCome j d hd hruns
    refine ⟨hj, hnodup, fun s hs hin => ?_⟩
    rcases hlaunched s hin with hold | ⟨hmine, _⟩
    · exact hnot s hs hold
    · exact hij ((h.toCome i c hcall hmine).1.trans hj.symm)

theorem toCome_tail {c : Call} {q : Queued} {queue : List Queued} {workers : List Worker}
    (hphase : c.phase = .wave (q :: queue) workers) (workers' : List Worker)
    (called : List String) :
    (Call.toCome { c with phase := .wave queue workers', called := called }).Sublist c.toCome := by
  rw [Call.toCome, Call.toCome, hphase]
  exact (List.sublist_cons_self _ _).append_right _

theorem toCome_same {c : Call} {queue : List Queued} {workers : List Worker}
    (hphase : c.phase = .wave queue workers) (workers' : List Worker) (called : List String) :
    (Call.toCome { c with phase := .wave queue workers', called := called }).Sublist c.toCome := by
  rw [Call.toCome, Call.toCome, hphase]
  exact List.Sublist.refl _

/-- The host that leaves the queue is not among those still to come. -/
theorem head_not_toCome (h : Filed w) {i : Nat} {c : Call} {q : Queued} {queue : List Queued}
    {workers : List Worker} (hcall : w.calls[i]? = some c) (hreclaims : c.reclaims = false)
    (hphase : c.phase = .wave (q :: queue) workers) (workers' : List Worker)
    (called : List String) :
    q.target.serverId ∉
      Call.toCome { c with phase := .wave queue workers', called := called } := by
  have hnodup := (h.toCome i c hcall hreclaims).2.1
  rw [Call.toCome, hphase] at hnodup
  exact (List.nodup_cons.mp hnodup).1

theorem toCome_step {m : Move} {w' : World} (h : Filed w) (hok : Kept req w m)
    (hdoes : Does req deps w m w') :
    ∀ i c, w'.calls[i]? = some c → c.reclaims = false →
      i = 0 ∧ c.toCome.Nodup ∧ ∀ s ∈ c.toCome, s ∉ w'.launched := by
  cases hdoes with
  | same => exact h.toCome
  | tick ms => exact h.toCome
  | cancel i c hactive hcall at' =>
    exact h.toCome_setCall hcall rfl (List.Sublist.refl _) fun s hs => Or.inl hs
  | disposeAll i c hactive hcall =>
    exact h.toCome_setCall hcall rfl (List.Sublist.refl _) fun s hs => Or.inl hs
  | restart => exact fun i c hc => (by cases hc)
  | adopt hidle hnone => exact h.toCome
  | reclaim gone notRun hidle =>
    intro i c hc hreclaims
    rw [List.getElem?_append] at hc
    split_ifs at hc
    · exact h.toCome i c hc hreclaims
    · rw [List.mem_singleton.mp (List.mem_of_getElem? hc)] at hreclaims
      cases hreclaims
  | workerOver i k c queue workers hcall hphase hready hempty =>
    exact h.toCome_setCall hcall rfl (toCome_same hphase _ _) fun s hs => Or.inl hs
  | skip i k c q queue workers hactive hcall hphase hready hcancelled hgone =>
    exact h.toCome_setCall hcall rfl (toCome_tail hphase _ _) fun s hs => Or.inl hs
  | gone i k c q queue workers hactive hcall hphase hready hreclaims hgone error =>
    exact h.toCome_setCall hcall rfl (toCome_tail hphase _ _) fun s hs => Or.inl hs
  | start i k c q queue workers host hactive hcall hphase hready hcancelled htarget hhandle
      hfresh =>
    refine h.toCome_setCall hcall rfl (toCome_tail hphase _ _) fun s hs => ?_
    rcases List.mem_cons.mp hs with heq | hin
    · rw [heq, htarget]
      cases hreclaims : c.reclaims with
      | true =>
        left
        refine h.sound.resumed c (List.mem_of_getElem? hcall) q ?_ (Or.inl hreclaims)
        rw [hphase]
        exact List.mem_cons_self
      | false =>
        exact Or.inr ⟨rfl, h.head_not_toCome hcall hreclaims hphase (workers.set k (.busy host))
          (host.target.serverId :: c.called)⟩
    · exact Or.inl hin
  | resume i k c q queue workers host r hactive hcall hphase hready hcancelled htarget hhandle
      hresume =>
    refine h.toCome_setCall hcall rfl (toCome_tail hphase _ _) fun s hs => Or.inl ?_
    rcases List.mem_cons.mp hs with heq | hin
    · rw [heq, htarget]
      refine h.sound.resumed c (List.mem_of_getElem? hcall) q ?_ (Or.inr (by simp [hresume]))
      rw [hphase]
      exact List.mem_cons_self
    · exact hin
  | beyond i k c q queue workers host r e out hactive hcall hphase hready hcancelled hresume
      hbeyond htarget hnone =>
    rw [World.tail_calls, World.tail_launched]
    exact h.toCome_setCall hcall rfl (toCome_tail hphase _ _) fun s hs => Or.inl hs
  | update i k u c queue workers host hcall hphase hbusy =>
    rw [World.applyUpdate_calls, World.applyUpdate_launched]
    exact h.toCome_setCall hcall rfl (toCome_same hphase _ _) fun s hs => Or.inl hs
  | late i serverId u c hcall hcalled =>
    rw [World.applyUpdate_calls, World.applyUpdate_launched]
    exact h.toCome
  | nextStep i k r out c queue workers host hactive hcall hphase hbusy =>
    refine h.toCome_setCall hcall rfl (toCome_same hphase _ _) fun s hs => Or.inl ?_
    rcases List.mem_cons.mp hs with heq | hin
    · have hlaunched := h.busy_launched hcall hphase hbusy
      exact heq ▸ hlaunched
    · exact hin
  | hostOver i k s out c queue workers host e hcall hphase hbusy hend =>
    rw [World.tail_calls, World.tail_launched]
    exact h.toCome_setCall hcall rfl (toCome_same hphase _ _) fun s hs => Or.inl hs
  | finish i c hcall hbetween hlast =>
    rw [World.finish_calls, World.finish_launched]
    exact h.toCome_setCall hcall rfl (List.sublist_append_right _ _) fun s hs => Or.inl hs
  | goOn i c hcall hbetween hmove =>
    exact h.toCome_setCall hcall (nextWave_reclaims _ _) (nextWave_sublist _ _) fun s hs =>
      Or.inl hs
  | wait i c phase hcall hbetween hphase hmove =>
    refine h.toCome_setCall hcall rfl ?_ fun s hs => Or.inl hs
    rw [Call.toCome, Phase.queued, (waiting_empty hphase).1]
    exact List.sublist_append_right _ _
  | halt i c reason hcall hbetween hmove =>
    rw [World.halt_calls, World.halt_launched]
    exact h.toCome_setCall hcall rfl (List.sublist_append_right _ _) fun s hs => Or.inl hs

/-! ### The rows of the hosts still to come -/

end Filed

namespace Fresh
variable {w : World}

theorem setCall (h : Fresh w) {i : Nat} {c : Call} (c' : Call) (hcall : w.calls[i]? = some c)
    (hreclaims : c'.reclaims = c.reclaims) (hsub : c'.toCome.Sublist c.toCome) :
    Fresh (w.setCall i c') := by
  intro j d hactive hd hruns r hr hin
  rw [World.setCall_calls, List.getElem?_set] at hd
  split_ifs at hd with hij
  · cases hd
    subst hij
    exact h i c hactive hcall (hreclaims ▸ hruns) r hr (hsub.subset hin)
  · exact h j d hactive hd hruns r hr hin

theorem setWorker (h : Fresh w) {i : Nat} {c : Call} {queue : List Queued}
    (workers : List Worker) (k : Nat) (worker : Worker) (hcall : w.calls[i]? = some c)
    (hsub : (Call.toCome { c with phase := .wave queue (workers.set k worker) }).Sublist c.toCome) :
    Fresh (w.setWorker i c queue workers k worker) :=
  h.setCall _ hcall rfl hsub

theorem callExec (h : Fresh w) {i k : Nat} {c : Call} {queue : List Queued}
    {workers : List Worker} (host : HostRun) (hcall : w.calls[i]? = some c)
    (hsub : ∀ workers' called,
      (Call.toCome { c with phase := .wave queue workers', called := called }).Sublist c.toCome) :
    Fresh (w.callExec i c queue workers k host) :=
  h.setCall _ hcall rfl (hsub _ _)

theorem write (h : Fresh w) (serverId : String) (p : JobTargetPatch)
    (hp : p.outcome = none ∨ ∀ i c, w.active = some i → w.calls[i]? = some c →
      c.reclaims = false → serverId ∉ c.toCome) : Fresh (w.write serverId p) := by
  intro i c hactive hcall hruns r hr hin
  obtain ⟨r₀, hr₀, rfl⟩ := mem_updateTarget.mp hr
  split_ifs at hin ⊢ with hid
  · rcases hp with hnone | hout
    · rw [patch_outcome, hnone]
      exact h i c hactive hcall hruns r₀ hr₀ hin
    · exact absurd (hid ▸ hin) (hout i c hactive hcall hruns)
  · exact h i c hactive hcall hruns r₀ hr₀ hin

theorem lost {w' : World} (h : w'.active = none) : Fresh w' := by
  intro i c hactive
  rw [h] at hactive
  cases hactive

end Fresh

namespace Filed
variable {w : World} {req : JobRunRequest} {deps : JobRunnerDeps}

/-- The host that leaves the queue of the job's call is no host still to come. -/
theorem head_not_fresh (h : Filed w) {i k : Nat} {c : Call} {q : Queued} {queue : List Queued}
    {workers : List Worker} (hactive : w.active = some i) (hcall : w.calls[i]? = some c)
    (hphase : c.phase = .wave (q :: queue) workers) (worker : Worker) :
    ∀ j d, (w.setWorker i c queue workers k worker).active = some j →
      (w.setWorker i c queue workers k worker).calls[j]? = some d → d.reclaims = false →
        q.target.serverId ∉ d.toCome := by
  intro j d hj hd hruns
  have hij : i = j := Option.some.inj (hactive.symm.trans hj)
  subst hij
  rw [World.setWorker, World.setCall_calls,
    List.getElem?_set_self (lt_of_getElem? hcall)] at hd
  cases hd
  exact h.head_not_toCome hcall hruns hphase _ _

/-- The rows of the waves to come are closed only by the call that has the job. -/
theorem halt_fresh (h : Filed w) {i : Nat} {c : Call} (reason : String)
    (hcall : w.calls[i]? = some c) : Fresh (w.halt i c reason) := by
  by_cases hactive : w.active = some i
  · unfold World.halt
    rw [World.markAllSkipped_eq, World.finish_owned _ _ _ _ (by exact hactive)]
    exact .lost rfl
  · unfold World.halt
    rw [World.markAllSkipped_eq, World.finish_lost _ _ _ _ (by exact hactive)]
    intro j d hj hd hruns r hr hin
    have hd' := hd
    have hij : i ≠ j := by
      rintro rfl
      exact hactive hj
    rw [World.setCall_calls, List.getElem?_set_ne hij] at hd'
    have hj0 := (h.toCome j d hd' hruns).1
    have hrest : c.rest = [] := by
      cases hreclaims : c.reclaims with
      | true => exact h.sound.reclaims c (List.mem_of_getElem? hcall) hreclaims
      | false =>
        exact absurd ((h.toCome i c hcall hreclaims).1.trans hj0.symm) hij
    obtain ⟨r₀, hr₀, rfl⟩ := List.mem_map.mp hr
    rw [hrest] at hin ⊢
    exact h.fresh j d hj hd' hruns r₀ hr₀ hin

theorem fresh_step {m : Move} {w' : World} (h : Filed w) (hdoes : Does req deps w m w')
    (hok : Kept req w m) : Fresh w' := by
  cases hdoes with
  | same => exact h.fresh
  | tick ms => exact h.fresh
  | cancel i c hactive hcall at' => exact h.fresh.setCall _ hcall rfl (List.Sublist.refl _)
  | disposeAll i c hactive hcall => exact .lost rfl
  | restart => exact .lost rfl
  | adopt hidle hnone =>
    exact .lost (Option.isNone_iff_eq_none.mp (Bool.and_eq_true_iff.mp hidle).2)
  | reclaim gone notRun hidle =>
    intro i c hactive hcall hruns
    cases hactive
    rw [List.getElem?_concat_length] at hcall
    cases hcall
    cases hruns
  | workerOver i k c queue workers hcall hphase hready hempty =>
    exact h.fresh.setWorker _ _ _ hcall (toCome_same hphase _ _)
  | skip i k c q queue workers hactive hcall hphase hready hcancelled hgone =>
    refine (h.fresh.setWorker workers k .ready hcall (toCome_tail hphase _ _)).write _ _ (Or.inr ?_)
    exact h.head_not_fresh hactive hcall hphase .ready
  | gone i k c q queue workers hactive hcall hphase hready hreclaims hgone error =>
    refine (h.fresh.setWorker workers k .ready hcall (toCome_tail hphase _ _)).write _ _ (Or.inr ?_)
    exact h.head_not_fresh hactive hcall hphase .ready
  | start i k c q queue workers host hactive hcall hphase hready hcancelled htarget hhandle
      hfresh =>
    exact (h.fresh.write _ _ (Or.inl rfl)).callExec _ hcall (toCome_tail hphase)
  | resume i k c q queue workers host r hactive hcall hphase hready hcancelled htarget hhandle
      hresume =>
    exact h.fresh.callExec _ hcall (toCome_tail hphase)
  | beyond i k c q queue workers host r e out hactive hcall hphase hready hcancelled hresume
      hbeyond htarget hnone =>
    have hstep := (hok c q queue workers hactive hcall hphase hready).2 r hresume
    omega
  | update i k u c queue workers host hcall hphase hbusy =>
    have hset := h.fresh.setWorker workers k
      (.busy { host with handle := u.detached.getD host.handle }) hcall (toCome_same hphase _ _)
    unfold World.applyUpdate
    split_ifs
    · exact hset.write _ _ (Or.inl rfl)
    · exact hset
  | late i serverId u c hcall hcalled =>
    unfold World.applyUpdate
    split_ifs
    · exact h.fresh.write _ _ (Or.inl rfl)
    · exact h.fresh
  | nextStep i k r out c queue workers host hactive hcall hphase hbusy =>
    exact h.fresh.callExec _ hcall (toCome_same hphase)
  | hostOver i k s out c queue workers host e hcall hphase hbusy hend =>
    have hset := h.fresh.setWorker workers k .ready hcall (toCome_same hphase _ _)
    have hcome : ∀ j d, (w.setWorker i c queue workers k .ready).calls[j]? = some d →
        d.reclaims = false → j = 0 ∧ d.toCome.Nodup ∧ ∀ s ∈ d.toCome, s ∉ w.launched :=
      h.toCome_setCall hcall rfl (toCome_same hphase (workers.set k .ready) c.called) fun s hs =>
        Or.inl hs
    have hout : ∀ j d, w.active = some j →
        (w.setWorker i c queue workers k .ready).calls[j]? = some d → d.reclaims = false →
          host.target.serverId ∉ d.toCome := fun j d _ hd hruns hin =>
      (hcome j d hd hruns).2.2 _ hin (h.busy_launched hcall hphase hbusy)
    unfold World.tail
    split_ifs
    · exact hset.write _ _ (Or.inr hout)
    · exact hset.write _ _ (Or.inr hout)
    · exact hset
  | finish i c hcall hbetween hlast =>
    by_cases hactive : w.active = some i
    · rw [w.finish_owned i c false hactive]
      exact .lost rfl
    · rw [w.finish_lost i c false hactive]
      exact h.fresh.setCall _ hcall rfl (List.sublist_append_right _ _)
  | goOn i c hcall hbetween hmove =>
    exact h.fresh.setCall _ hcall (nextWave_reclaims _ _) (nextWave_sublist _ _)
  | wait i c phase hcall hbetween hphase hmove =>
    refine h.fresh.setCall _ hcall rfl ?_
    rw [Call.toCome, Phase.queued, (waiting_empty hphase).1]
    exact List.sublist_append_right _ _
  | halt i c reason hcall hbetween hmove => exact h.halt_fresh reason hcall

/-! ### The rows of a job that is over -/

theorem reclaimable_closed {now : Nat} {notRun : String} {r : JobHostRow}
    (h : reclaimable r = false) : reclaimable (World.closed now notRun r) = false := by
  unfold World.closed
  split_ifs
  · exact Bool.and_false _
  · exact Bool.and_false _
  · exact h

theorem reclaimable_skipRows {now : Nat} {error : String} {serverIds : List String}
    {rows : List JobHostRow} (h : ∀ r ∈ rows, reclaimable r = false) :
    ∀ r ∈ World.skipRows now error serverIds rows, reclaimable r = false := by
  intro r hr
  obtain ⟨r₀, hr₀, rfl⟩ := List.mem_map.mp hr
  split_ifs
  · exact Bool.and_false _
  · exact h r₀ hr₀

theorem closed_step {m : Move} {w' : World} (h : Filed w) (hok : Kept req w m)
    (hdoes : Does req deps w m w') (hover : w'.job.state.unfinished = false) :
    ∀ r ∈ w'.job.targets, reclaimable r = false := by
  have howner : ∀ i, w.active = some i → w'.job.state = w.job.state → False := by
    intro i hactive hstate
    rw [hstate, (h.sound.unfinished i hactive).1] at hover
    cases hover
  cases hdoes with
  | same => exact h.closed hover
  | tick ms => exact h.closed hover
  | cancel i c hactive hcall at' => exact (howner i hactive rfl).elim
  | disposeAll i c hactive hcall => exact (howner i hactive rfl).elim
  | restart => exact h.closed hover
  | adopt hidle hnone =>
    intro r hr
    obtain ⟨r₀, hr₀, rfl⟩ := List.mem_map.mp hr
    exact reclaimable_closed (hnone r₀ hr₀)
  | reclaim gone notRun hidle =>
    have hidle := (Bool.and_eq_true_iff.mp hidle).1
    rw [hidle] at hover
    cases hover
  | workerOver i k c queue workers hcall hphase hready hempty => exact h.closed hover
  | skip i k c q queue workers hactive hcall hphase hready hcancelled hgone =>
    exact (howner i hactive rfl).elim
  | gone i k c q queue workers hactive hcall hphase hready hreclaims hgone error =>
    exact (howner i hactive rfl).elim
  | start i k c q queue workers host hactive hcall hphase hready hcancelled htarget hhandle
      hfresh =>
    exact (howner i hactive rfl).elim
  | resume i k c q queue workers host r hactive hcall hphase hready hcancelled htarget hhandle
      hresume =>
    exact (howner i hactive rfl).elim
  | beyond i k c q queue workers host r e out hactive hcall hphase hready hcancelled hresume
      hbeyond htarget hnone =>
    exact (howner i hactive (World.tail_state ..)).elim
  | update i k u c queue workers host hcall hphase hbusy =>
    by_cases hactive : w.active = some i
    · exact (howner i hactive (World.applyUpdate_state ..)).elim
    · rw [World.applyUpdate_lost _ _ _ _ (by exact hactive)] at hover ⊢
      exact h.closed hover
  | late i serverId u c hcall hcalled =>
    by_cases hactive : w.active = some i
    · exact (howner i hactive (World.applyUpdate_state ..)).elim
    · rw [w.applyUpdate_lost i serverId u hactive] at hover ⊢
      exact h.closed hover
  | nextStep i k r out c queue workers host hactive hcall hphase hbusy =>
    exact (howner i hactive rfl).elim
  | hostOver i k s out c queue workers host e hcall hphase hbusy hend =>
    rw [World.tail_state] at hover
    rcases hok.2.1 with hactive | ⟨_, hunfinished⟩
    · exact (howner i hactive (World.tail_state ..)).elim
    · rw [World.setWorker, World.setCall_job, hunfinished] at hover
      cases hover
  | finish i c hcall hbetween hlast =>
    rw [World.finish_targets]
    by_cases hactive : w.active = some i
    · exact fun r hr => h.none_reclaimable hactive hcall hbetween hr
    · rw [w.finish_lost i c false hactive] at hover
      exact h.closed hover
  | goOn i c hcall hbetween hmove => exact h.closed hover
  | wait i c phase hcall hbetween hphase hmove => exact h.closed hover
  | halt i c reason hcall hbetween hmove =>
    rw [World.halt_targets]
    refine reclaimable_skipRows ?_
    by_cases hactive : w.active = some i
    · exact fun r hr => h.none_reclaimable hactive hcall hbetween hr
    · rw [w.halt_state_lost i c reason hactive] at hover
      exact h.closed hover

theorem tidy_of_kept {m : Move} (hok : Kept req w m) : Tidy w m := by
  cases m with
  | late i serverId u =>
    intro s hs
    have hnone : u.state = none := hok
    rw [hnone] at hs
    cases hs
  | settle i k s out =>
    cases s with
    | fulfilled r =>
      intro hactive t ht
      rcases hok.1 hactive r rfl t ht with rfl | rfl | rfl <;> rfl
    | rejected message => trivial
    | stalled => trivial
  | tick ms => trivial
  | cancel => trivial
  | disposeAll => trivial
  | restart => trivial
  | adopt => trivial
  | reclaim gone => trivial
  | work i k => trivial
  | update i k u => trivial
  | waveOver i => trivial
  | gate i v => trivial
  | nodes i v => trivial

theorem step {m : Move} {w' : World} (h : Filed w)
    (hconc : 1 ≤ req.concurrency.getD JOB_CONCURRENCY) (hok : Kept req w m)
    (hdoes : Does req deps w m w') : Filed w' where
  sound := h.sound.step hdoes
  tracked := by
    refine h.tracked.step hconc (tidy_of_kept hok) (fun i k s out c hm _ => ?_) hdoes
    subst hm
    exact hok.2.1.imp id And.left
  launched := h.launched_step hok hdoes
  toCome := h.toCome_step hok hdoes
  fresh := h.fresh_step hdoes hok
  closed := h.closed_step hok hdoes

/-! ### The start of a run -/

end Filed

theorem launch_filed {req : JobRunRequest} (clock : Nat)
    (hconc : 1 ≤ req.concurrency.getD JOB_CONCURRENCY)
    (hnodup : (req.targets.map JobTarget.serverId).Nodup) : Filed (World.launch req clock) := by
  have hwaves : ((waveTargets (jobCohorts req.targets)).map JobTarget.serverId).Nodup :=
    ((jobCohorts_perm req.targets).map JobTarget.serverId).nodup_iff.mpr hnodup
  have hsound := launch_sound req clock
  have huntouched : ∀ r ∈ (World.launch req clock).job.targets, r.Untouched := by
    refine fun r hr => hsound.rows r hr ?_
    rw [launch_launched]
    exact List.not_mem_nil
  refine ⟨hsound, launch_tracked clock hconc, fun r hr hin => ?_, fun i c hcall _ => ?_,
    fun i c hactive hcall _ r hr _ => ?_, fun _ r hr => ?_⟩
  · rw [launch_launched] at hin
    exact absurd hin List.not_mem_nil
  · obtain ⟨hi, _, hsub⟩ := launch_calls req clock i c hcall
    refine ⟨hi, hwaves.sublist hsub, fun s _ => ?_⟩
    rw [launch_launched]
    exact List.not_mem_nil
  · exact launch_outcome hr
  · rw [reclaimable, (huntouched r hr).1]
    rfl

/-! ### Followed hosts -/

namespace Filed
variable {w : World} {req : JobRunRequest} {deps : JobRunnerDeps}

theorem followed_write {s : String} (hf : Followed w s) (serverId : String) (p : JobTargetPatch)
    (hp : serverId = s → ∀ r, reclaimable r = true → reclaimable (r.patch p) = true) :
    Followed (w.write serverId p) s := by
  obtain ⟨hjob, r, hr, hid, hrec⟩ := hf
  by_cases hserver : serverId = s
  · refine ⟨hjob, r.patch p, mem_updateTarget.mpr ⟨r, hr, ?_⟩, hid, hp hserver r hrec⟩
    rw [if_pos (hid.trans hserver.symm)]
  · refine ⟨hjob, r, mem_updateTarget.mpr ⟨r, hr, ?_⟩, hid, hrec⟩
    rw [if_neg fun h => hserver (h.symm.trans hid)]

theorem followed_launched (h : Filed w) {s : String} (hf : Followed w s) : s ∈ w.launched := by
  obtain ⟨_, r, hr, hid, hrec⟩ := hf
  exact hid ▸ h.sound.launched_of_reclaimable hr hrec

/-- A patch that says nothing of the marker, or names one, and says nothing of the state, or names
a live one, leaves the row to be reclaimed. -/
theorem reclaimable_patch {r : JobHostRow} {p : JobTargetPatch} (h : reclaimable r = true)
    (hmarker : p.detached ≠ some none) (hlive : ∀ s ∈ p.state, isJobHostLive s = true) :
    reclaimable (r.patch p) = true := by
  obtain ⟨hsome, hstate⟩ := Bool.and_eq_true_iff.mp h
  refine Bool.and_eq_true_iff.mpr ⟨?_, ?_⟩
  · rw [patch_detached]
    cases hdetached : p.detached with
    | none => exact hsome
    | some handle =>
      cases handle with
      | none => exact absurd hdetached hmarker
      | some handle => rfl
  · rw [patch_state]
    cases hnew : p.state with
    | none => exact hstate
    | some s => exact hlive s hnew

theorem between_followed (h : Filed w) {i : Nat} {c : Call} {s : String} (hf : Followed w s)
    (hcall : w.calls[i]? = some c) (hbetween : c.between) : w.active ≠ some i := by
  intro hactive
  obtain ⟨_, r, hr, _, hrec⟩ := hf
  have hnone := h.none_reclaimable hactive hcall hbetween hr
  rw [hnone] at hrec
  cases hrec

theorem followed_hostOver {i k : Nat} {s : World.Settled} {out : OutputTotals}
    {c : Call} {queue : List Queued} {workers : List Worker} {host : HostRun} {e : StepsEnd}
    {serverId : String} (hf : Followed w serverId) (hok : Kept req w (.settle i k s out))
    (hcall : w.calls[i]? = some c) (hphase : c.phase = .wave queue workers)
    (hbusy : workers[k]? = some (.busy host)) :
    Followed ((w.setWorker i c queue workers k .ready).tail deps i c host e out) serverId ∨
      Reported w (.settle i k s out) serverId := by
  by_cases hid : host.target.serverId = serverId
  · subst hid
    rcases (hok.2.2 c queue workers host hcall hphase hbusy).2 with
      ⟨r, rfl, hend⟩ | ⟨hlost, hcarried⟩ | hclosed
    · exact Or.inr (.result i k r out c queue workers host hcall hphase hbusy hend)
    · left
      unfold World.tail
      rw [if_neg fun howns => hlost (((w.setWorker ..).owns_iff i).mp howns)]
      split_ifs with hdisposed
      · refine followed_write (w := w.setWorker i c queue workers k .ready) hf _ _ fun _ r hr => ?_
        have hsome := hcarried hdisposed
        cases hhandle : host.handle with
        | none => exact absurd hhandle hsome
        | some handle =>
          exact reclaimable_patch hr (by simp [disposedPatch]) (by simp [disposedPatch]; rfl)
      · exact hf
    · obtain ⟨_, r, hr, hrid, hrec⟩ := hf
      rw [hclosed r hr hrid] at hrec
      cases hrec
  · left
    unfold World.tail
    split_ifs
    · exact followed_write (w := w.setWorker i c queue workers k .ready) hf _ _ fun heq =>
        absurd heq hid
    · exact followed_write (w := w.setWorker i c queue workers k .ready) hf _ _ fun heq =>
        absurd heq hid
    · exact hf

theorem followed_step {m : Move} {w' : World} (h : Filed w) (hok : Kept req w m)
    (hdoes : Does req deps w m w') {s : String} (hf : Followed w s) :
    Followed w' s ∨ Reported w m s := by
  cases hdoes with
  | same => exact Or.inl hf
  | tick ms => exact Or.inl hf
  | cancel i c hactive hcall at' => exact Or.inl hf
  | disposeAll i c hactive hcall => exact Or.inl hf
  | restart => exact Or.inl hf
  | adopt hidle hnone =>
    obtain ⟨_, r, hr, _, hrec⟩ := hf
    rw [hnone r hr] at hrec
    cases hrec
  | reclaim gone notRun hidle =>
    obtain ⟨hjob, r, hr, hid, hrec⟩ := hf
    exact Or.inl ⟨hjob, r, List.mem_map.mpr ⟨r, hr, if_pos hrec⟩, hid, hrec⟩
  | workerOver i k c queue workers hcall hphase hready hempty => exact Or.inl hf
  | skip i k c q queue workers hactive hcall hphase hready hcancelled hgone =>
    left
    refine followed_write (w := w.setWorker i c queue workers k .ready) hf _ _ fun hid => ?_
    cases hreclaims : c.reclaims with
    | true =>
      rcases (hok c q queue workers hactive hcall hphase hready).1 hreclaims with hg | hc
      · rw [hgone hreclaims] at hg
        cases hg
      · rw [hcancelled] at hc
        cases hc
    | false =>
      have hnot := (h.toCome i c hcall hreclaims).2.2 _ (head_toCome hphase)
      exact absurd (hid ▸ h.followed_launched hf) hnot
  | gone i k c q queue workers hactive hcall hphase hready hreclaims hgone error =>
    by_cases hid : q.target.serverId = s
    · subst hid
      exact Or.inr (.gone i k c q queue workers hactive hcall hphase hreclaims hgone)
    · exact Or.inl (followed_write (w := w.setWorker i c queue workers k .ready) hf _ _ fun heq =>
        absurd heq hid)
  | start i k c q queue workers host hactive hcall hphase hready hcancelled htarget hhandle
      hfresh =>
    refine Or.inl (followed_write hf _ _ fun _ r hr => reclaimable_patch hr (by simp) ?_)
    intro t ht
    cases ht
    rfl
  | resume i k c q queue workers host r hactive hcall hphase hready hcancelled htarget hhandle
      hresume =>
    exact Or.inl hf
  | beyond i k c q queue workers host r e out hactive hcall hphase hready hcancelled hresume
      hbeyond htarget hnone =>
    have hstep := (hok c q queue workers hactive hcall hphase hready).2 r hresume
    omega
  | update i k u c queue workers host hcall hphase hbusy =>
    by_cases hnever : host.target.serverId = s ∧ u.detached = some none
    · obtain ⟨rfl, hnone⟩ := hnever
      exact Or.inr (.neverBegan i k u c queue workers host hcall hphase hbusy hnone)
    · left
      unfold World.applyUpdate
      split_ifs
      · refine followed_write (w := w.setWorker i c queue workers k _) hf _ _ fun hid r hr => ?_
        refine reclaimable_patch hr (fun hnone => hnever ⟨hid, hnone⟩) fun t ht => ?_
        rcases hok t ht with rfl | rfl | rfl | rfl <;> rfl
      · exact hf
  | late i serverId u c hcall hcalled =>
    by_cases hnever : serverId = s ∧ u.detached = some none
    · obtain ⟨rfl, hnone⟩ := hnever
      exact Or.inr (.late i serverId u hnone)
    · left
      unfold World.applyUpdate
      split_ifs
      · refine followed_write hf _ _ fun hid r hr => ?_
        refine reclaimable_patch hr (fun hnone => hnever ⟨hid, hnone⟩) fun t ht => ?_
        have hnone : u.state = none := hok
        rw [World.JobExecUpdate.patch, hnone] at ht
        cases ht
      · exact hf
  | nextStep i k r out c queue workers host hactive hcall hphase hbusy => exact Or.inl hf
  | hostOver i k settled out c queue workers host e hcall hphase hbusy hend =>
    exact followed_hostOver hf hok hcall hphase hbusy
  | finish i c hcall hbetween hlast =>
    rw [w.finish_lost i c false (h.between_followed hf hcall hbetween)]
    exact Or.inl hf
  | goOn i c hcall hbetween hmove => exact Or.inl hf
  | wait i c phase hcall hbetween hphase hmove => exact Or.inl hf
  | halt i c reason hcall hbetween hmove =>
    left
    have hlaunched := h.followed_launched hf
    obtain ⟨hjob, r, hr, hid, hrec⟩ := hf
    refine ⟨?_, r, ?_, hid, hrec⟩
    · rw [w.halt_state_lost i c reason
        (h.between_followed ⟨hjob, r, hr, hid, hrec⟩ hcall hbetween)]
      exact hjob
    · rw [World.halt_targets]
      refine List.mem_map.mpr ⟨r, hr, if_neg fun hrest => ?_⟩
      exact h.rest_not_launched hcall hrest (hid ▸ hlaunched)

end Filed

/-- In every state of every run whose steps all go right, a host whose command was launched, or
that has a marker, is not filed as not run; and a row that can be reclaimed stays one `reclaim`
takes up, until a move of the run says the end of its command. -/
theorem launched_command_is_never_filed_as_not_run {req : JobRunRequest} {deps : JobRunnerDeps}
    {clock : Nat} {ms ns : List Move} {v w : World} (hsteps : req.steps ≠ [])
    (hconc : 1 ≤ req.concurrency.getD JOB_CONCURRENCY)
    (hnodup : (req.targets.map JobTarget.serverId).Nodup)
    (hrun : Run (step req deps) (Kept req) (World.launch req clock) ms v)
    (hrun' : Run (step req deps) (Kept req) v ns w) :
    (∀ r ∈ w.job.targets, r.serverId ∈ w.launched ∨ r.detached ≠ none → r.NotFiled) ∧
      ∀ r ∈ v.job.targets, reclaimable r = true →
        Followed w r.serverId ∨
          ∃ ns₁ m ns₂ u, ns = ns₁ ++ m :: ns₂ ∧ Run (step req deps) (Kept req) v ns₁ u ∧
            Reported u m r.serverId := by
  have hkeeps : ∀ u m u', Filed u → Kept req u m → step req deps u m = some u' → Filed u' :=
    fun u m u' hu hok hstep => hu.step hconc hok (step_does hsteps hstep)
  have hv : Filed v := hrun.invariant (launch_filed clock hconc hnodup) hkeeps
  refine ⟨fun r hr hor => ?_, fun r hr hrec => ?_⟩
  · have hw : Filed w := hrun'.invariant hv hkeeps
    refine hw.launched r hr (hor.elim id fun hmarker => ?_)
    by_contra hnot
    exact hmarker (hw.sound.rows r hr hnot).1
  · induction hrun' with
    | refl =>
      refine Or.inl ⟨?_, r, hr, rfl, hrec⟩
      by_contra hover
      rw [hv.closed (Bool.eq_false_iff.mpr hover) r hr] at hrec
      cases hrec
    | @next t u ns m hrun₁ hok hstep ih =>
      have ht : Filed t := hrun₁.invariant hv hkeeps
      rcases ih with hf | ⟨ns₁, m', ns₂, u', rfl, hu', hreported⟩
      · rcases ht.followed_step hok (step_does hsteps hstep) hf with hf' | hreported
        · exact Or.inl hf'
        · exact Or.inr ⟨ns, m, [], t, rfl, hrun₁, hreported⟩
      · exact Or.inr ⟨ns₁, m', ns₂ ++ [m], u', by simp, hu', hreported⟩

/-! ## Two jobs, reclaimed -/

/-- `Kept`, as far as it can be read off a state and a move. -/
def keptCheck (req : JobRunRequest) (w : World) : Move → Bool
  | .work i _ =>
    (w.calls[i]?).all fun c => c.phase.queue.all fun q =>
      (!c.reclaims || !c.cancelled) && q.resume.all fun r => r.handle.step ≤ req.steps.length
  | .update _ _ u => u.state.all (· ∈ [.running, .detached, .rebooting, .foreign])
  | .late _ _ u => u.state.isNone
  | .settle i k (.fulfilled r) _ =>
    r.finalOutcome ≠ some .cancelled &&
      (if w.owns i then r.finalState.all (· ∈ [.ok, .failed, .orphaned])
        else w.active.isNone && w.job.state.unfinished) &&
      (w.calls[i]?).all fun c =>
        match c.phase with
        | .wave _ workers =>
          match workers[k]? with
          | some (.busy h) =>
            h.result.isNone && (!r.handsBack || (!w.owns i && h.handle.isSome))
          | _ => true
        | _ => true
  | .settle .. => false
  | _ => true

theorem kept_of_check {req : JobRunRequest} {w : World} {m : Move}
    (h : keptCheck req w m = true) : Kept req w m := by
  cases m with
  | work i k =>
    intro c q queue workers _ hcall hphase _
    have hcheck : (w.calls[i]?).all (fun c => c.phase.queue.all fun q =>
      (!c.reclaims || !c.cancelled) &&
        q.resume.all fun r => r.handle.step ≤ req.steps.length) = true := h
    rw [hcall, Option.all_some, hphase] at hcheck
    have hq := List.all_eq_true.mp hcheck q List.mem_cons_self
    obtain ⟨hnot, hresume⟩ := Bool.and_eq_true_iff.mp hq
    refine ⟨fun hreclaims => Or.inr ?_, fun r hr => ?_⟩
    · rw [hreclaims] at hnot
      simpa using hnot
    · rw [hr, Option.all_some] at hresume
      exact of_decide_eq_true hresume
  | update i k u =>
    intro s hs
    have hstate : u.state.all (· ∈ [.running, .detached, .rebooting, .foreign]) = true := h
    rw [Option.mem_def.mp hs, Option.all_some] at hstate
    simpa using hstate
  | late i serverId u => exact Option.isNone_iff_eq_none.mp h
  | settle i k settled out =>
    cases settled with
    | fulfilled r =>
      obtain ⟨hboth, hhost⟩ := Bool.and_eq_true_iff.mp h
      obtain ⟨houtcome, howns⟩ := Bool.and_eq_true_iff.mp hboth
      refine ⟨fun hactive r' hr' t ht => ?_, ?_, fun c queue workers host hcall hphase hbusy => ?_⟩
      · cases hr'
        rw [if_pos ((w.owns_iff i).mpr hactive), Option.mem_def.mp ht, Option.all_some] at howns
        simpa using howns
      · by_cases hactive : w.active = some i
        · exact Or.inl hactive
        · rw [if_neg fun hown => hactive ((w.owns_iff i).mp hown), Bool.and_eq_true,
            Option.isNone_iff_eq_none] at howns
          exact Or.inr howns
      · simp only [hcall, Option.all_some, hphase, hbusy, Bool.and_eq_true] at hhost
        obtain ⟨hresult, hback⟩ := hhost
        have hresult := Option.isNone_iff_eq_none.mp hresult
        refine ⟨fun r' hr' => ?_, ?_⟩
        · rcases hr' with hr' | hr'
          · cases hr'
            exact of_decide_eq_true houtcome
          · rw [hresult] at hr'
            cases hr'
        · cases hends : r.handsBack with
          | false => exact Or.inl ⟨r, rfl, hends⟩
          | true =>
            simp only [hends, Bool.not_true, Bool.false_or, Bool.and_eq_true,
              Bool.not_eq_true'] at hback
            refine Or.inr (Or.inl ⟨fun hactive => ?_, fun _ hnone => ?_⟩)
            · rw [(w.owns_iff i).mpr hactive] at hback
              cases hback.1
            · rw [hnone] at hback
              cases hback.2
    | rejected message => cases h
    | stalled => cases h
  | tick ms => trivial
  | cancel => trivial
  | disposeAll => trivial
  | restart => trivial
  | adopt => trivial
  | reclaim gone => trivial
  | waveOver i => trivial
  | gate i v => trivial
  | nodes i v => trivial

def marker (dir : String) : JobDetachedHandle where
  dir := dir
  step := 1
  instanceId := "desk"
  launcher := .setsid
  base64 := false
  launchedAt := 0
  readOffset := 0
  command := "apt full-upgrade -y"
  bootIdBefore := none

def detaches (dir : String) : Move :=
  .update 0 0 { state := some .detached, detached := some (some (marker dir)) }

def reaped : Move :=
  .settle 0 0 (.fulfilled { ok := true, code := some 0, detachedHandle := some none })
    ⟨0, 0, "", ""⟩

/-- The window is closed while the host's command runs, and the app started again. -/
def leftAndReclaimed : List Move :=
  [.work 0 0, detaches "a", .disposeAll,
    .settle 0 0 (.fulfilled
      { ok := false, finalState := some .detached, detachedHandle := some (some (marker "a")) })
      ⟨0, 0, "", ""⟩,
    .restart, .reclaim []]

/-- The first server's link is down for longer than the guard waits, and comes back. -/
def cancelledAfterReclaim : List Move :=
  [.work 0 0, detaches "a", .settle 0 0 .stalled ⟨0, 0, "", ""⟩, .work 0 0, detaches "b",
    .late 0 "s0" { state := some .running }, .disposeAll, .restart, .reclaim [], .work 0 0,
    .cancel, reaped, .work 0 0]

theorem launched_command_is_never_filed_as_not_run_reclaimed :
    ∃ v w, Run (step (upgrade [none]) plainDeps) (Kept (upgrade [none]))
        (World.launch (upgrade [none]) 0) leftAndReclaimed v ∧
      Run (step (upgrade [none]) plainDeps) (Kept (upgrade [none])) v [.work 0 0, reaped] w ∧
      (∃ r ∈ v.job.targets, reclaimable r = true) ∧
      (∀ r ∈ w.job.targets, r.serverId ∈ w.launched ∨ r.detached ≠ none → r.NotFiled) ∧
        ∀ r ∈ v.job.targets, reclaimable r = true →
          Followed w r.serverId ∨
            ∃ ns₁ m ns₂ u, [.work 0 0, reaped] = ns₁ ++ m :: ns₂ ∧
              Run (step (upgrade [none]) plainDeps) (Kept (upgrade [none])) v ns₁ u ∧
                Reported u m r.serverId := by
  have hplay : ((play (step (upgrade [none]) plainDeps) (keptCheck (upgrade [none]))
      (World.launch (upgrade [none]) 0) leftAndReclaimed).bind fun v =>
        (play (step (upgrade [none]) plainDeps) (keptCheck (upgrade [none])) v
          [.work 0 0, reaped]).map fun _ => v.job.targets.any reclaimable) = some true := by
    decide
  obtain ⟨v, hv, hrest⟩ := Option.bind_eq_some_iff.mp hplay
  obtain ⟨w, hw, hany⟩ := Option.map_eq_some_iff.mp hrest
  have hrun := (Run.of_play hv).mono fun u m h => kept_of_check h
  have hrun' := (Run.of_play hw).mono fun u m h => kept_of_check h
  exact ⟨v, w, hrun, hrun', List.any_eq_true.mp hany,
    launched_command_is_never_filed_as_not_run (by decide) (by decide) (by decide) hrun hrun'⟩

/-- The second server's command runs on it, and `runOne` files the server as not run. -/
theorem reclaimed_host_is_skipped_by_a_cancel :
    ∃ w, Run (step (upgrade [none, none]) plainDeps) (fun _ _ => True)
        (World.launch (upgrade [none, none]) 0) cancelledAfterReclaim w ∧
      ∃ r ∈ w.job.targets, r.serverId ∈ w.launched ∧ r.detached = some (marker "b") ∧
        r.state = .skipped ∧ r.outcome = some .cancelled := by
  have hplay : ((play (step (upgrade [none, none]) plainDeps) (fun _ _ => true)
      (World.launch (upgrade [none, none]) 0) cancelledAfterReclaim).map fun w =>
        w.job.targets.any fun r => r.serverId ∈ w.launched && r.detached = some (marker "b") &&
          r.state = .skipped && r.outcome = some .cancelled) = some true := by decide
  obtain ⟨w, hw, hany⟩ := Option.map_eq_some_iff.mp hplay
  obtain ⟨r, hr, hrow⟩ := List.any_eq_true.mp hany
  simp only [Bool.and_eq_true, decide_eq_true_eq, and_assoc] at hrow
  exact ⟨w, (Run.of_play hw).mono fun u m h => trivial, r, hr, hrow⟩

end OpsMaxx.Jobs
