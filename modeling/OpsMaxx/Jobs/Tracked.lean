import OpsMaxx.Jobs.Steps

/-!
# Where each host is

`Sound` holds after every history: a host the executor was never called for has a row that says so.
`Tracked` follows the call that owns the job: a host whose row is still live is waiting for a worker
or in the hands of one.
-/

set_option autoImplicit false

namespace OpsMaxx.Jobs

/-! ## The workers of a wave -/

section Workers
variable {workers : List Worker} {k : Nat} {worker : Worker} {s : String}

theorem host_of_mem_set (h : s ∈ (workers.set k worker).filterMap Worker.host?) :
    worker.host? = some s ∨ s ∈ workers.filterMap Worker.host? := by
  obtain ⟨v, hv, hhost⟩ := List.mem_filterMap.mp h
  rcases List.mem_or_eq_of_mem_set hv with hold | rfl
  · exact Or.inr (List.mem_filterMap.mpr ⟨v, hold, hhost⟩)
  · exact Or.inl hhost

theorem host_mem_set_self (hk : k < workers.length) (h : worker.host? = some s) :
    s ∈ (workers.set k worker).filterMap Worker.host? :=
  List.mem_filterMap.mpr ⟨worker, List.mem_set hk worker, h⟩

/-- A host stays in hand when another worker moves. -/
theorem host_mem_set_other {old : Worker} (hold : workers[k]? = some old)
    (h : s ∈ workers.filterMap Worker.host?) (hne : old.host? ≠ some s) :
    s ∈ (workers.set k worker).filterMap Worker.host? := by
  obtain ⟨v, hv, hhost⟩ := List.mem_filterMap.mp h
  obtain ⟨j, hj, rfl⟩ := List.mem_iff_getElem.mp hv
  have hjk : j ≠ k := by
    intro heq
    subst heq
    rw [List.getElem?_eq_getElem hj, Option.some.injEq] at hold
    exact hne (hold ▸ hhost)
  refine List.mem_filterMap.mpr ⟨workers[j], ?_, hhost⟩
  rw [List.mem_iff_getElem]
  refine ⟨j, by rwa [List.length_set], ?_⟩
  rw [List.getElem_set_ne (Ne.symm hjk)]

theorem lt_of_getElem? {α : Type} {l : List α} {j : Nat} {a : α} (h : l[j]? = some a) :
    j < l.length :=
  (List.getElem?_eq_some_iff.mp h).1

theorem between_not_over {c : Call} (h : c.between) : c.phase ≠ .over := by
  intro hphase
  rw [Call.between, hphase] at h
  exact h

theorem between_busy {c : Call} (h : c.between) : c.phase.busy = [] := by
  unfold Call.between at h
  cases hphase : c.phase with
  | wave queue workers =>
    rw [hphase] at h
    refine List.filterMap_eq_nil_iff.mpr fun v hv => ?_
    rw [h v hv]
    rfl
  | gate since => rfl
  | nodes since => rfl
  | «over» => rfl

end Workers

/-! ## Waves -/

/-- A worker returns only when nothing is queued. -/
def Phase.Drained : Phase → Prop
  | .wave queue workers => workers ≠ [] ∧ (Worker.over ∈ workers → queue = [])
  | _ => True

theorem waiting_empty {phase : Phase} (h : (∃ t, phase = .gate t) ∨ ∃ t, phase = .nodes t) :
    phase.queue = [] ∧ phase.busy = [] ∧ phase.Drained := by
  rcases h with ⟨t, rfl⟩ | ⟨t, rfl⟩ <;> exact ⟨rfl, rfl, trivial⟩

@[simp] theorem startWave_queued (concurrency : Option Int) (queue : List Queued) :
    (startWave concurrency queue).queued = queue.map fun q => q.target.serverId := rfl

@[simp] theorem startWave_busy (concurrency : Option Int) (queue : List Queued) :
    (startWave concurrency queue).busy = [] := by
  refine List.filterMap_eq_nil_iff.mpr fun v hv => ?_
  rw [List.eq_of_mem_replicate hv]
  rfl

theorem nextWave_reclaims (c : Call) (concurrency : Option Int) :
    (c.nextWave concurrency).reclaims = c.reclaims := by
  unfold Call.nextWave
  split <;> rfl

theorem nextWave_called (c : Call) (concurrency : Option Int) :
    (c.nextWave concurrency).called = c.called := by
  unfold Call.nextWave
  split <;> rfl

theorem nextWave_busy {c : Call} (concurrency : Option Int) (h : c.phase.busy = []) :
    (c.nextWave concurrency).phase.busy = [] := by
  unfold Call.nextWave
  split
  · exact h
  · exact startWave_busy _ _

theorem queued_map (targets : List JobTarget) :
    ((targets.map JobTarget.queued).map fun q => q.target.serverId) =
      targets.map JobTarget.serverId := by
  rw [List.map_map]
  rfl

/-- The hosts of the next wave come from the waves that were to come. -/
theorem nextWave_toCome (c : Call) (concurrency : Option Int) :
    (c.nextWave concurrency).toCome = (waveTargets c.rest).map JobTarget.serverId ∨
      c.rest = [] ∧ (c.nextWave concurrency).toCome = c.toCome := by
  unfold Call.nextWave
  split
  next h => exact Or.inr ⟨h, rfl⟩
  next name targets rest h =>
    left
    rw [h, waveTargets_cons, List.map_append, Call.toCome, startWave_queued, queued_map]

theorem nextWave_sublist (c : Call) (concurrency : Option Int) :
    (c.nextWave concurrency).toCome.Sublist c.toCome := by
  rcases nextWave_toCome c concurrency with heq | ⟨_, heq⟩
  · rw [heq]
    exact List.sublist_append_right _ _
  · rw [heq]

/-! ## Soundness -/

/-- What holds after every history of the job. -/
structure Sound (w : World) : Prop where
  unfinished : ∀ i, w.active = some i →
    w.job.state.unfinished = true ∧ ∃ c, w.calls[i]? = some c
  rows : ∀ r ∈ w.job.targets, r.serverId ∉ w.launched → r.Untouched
  called : ∀ c ∈ w.calls, ∀ s, s ∈ c.phase.busy ∨ s ∈ c.called → s ∈ w.launched
  reclaims : ∀ c ∈ w.calls, c.reclaims = true → c.rest = []
  resumed : ∀ c ∈ w.calls, ∀ q ∈ c.phase.queue, c.reclaims = true ∨ q.resume ≠ none →
    q.target.serverId ∈ w.launched

namespace Sound
variable {w : World}

theorem setCall (hs : Sound w) (i : Nat) (c : Call)
    (hcalled : ∀ s, s ∈ c.phase.busy ∨ s ∈ c.called → s ∈ w.launched)
    (hreclaims : c.reclaims = true → c.rest = [])
    (hresumed : ∀ q ∈ c.phase.queue, c.reclaims = true ∨ q.resume ≠ none →
      q.target.serverId ∈ w.launched) : Sound (w.setCall i c) where
  unfinished j hj := by
    obtain ⟨hstate, d, hd⟩ := hs.unfinished j hj
    refine ⟨hstate, ?_⟩
    rw [World.setCall_calls, List.getElem?_set]
    split_ifs with heq hlt
    · exact ⟨c, rfl⟩
    · rw [← heq, List.getElem?_eq_none (by omega)] at hd
      cases hd
    · exact ⟨d, hd⟩
  rows := hs.rows
  called d hd := by
    rcases List.mem_or_eq_of_mem_set hd with hold | rfl
    · exact hs.called d hold
    · exact hcalled
  reclaims d hd := by
    rcases List.mem_or_eq_of_mem_set hd with hold | rfl
    · exact hs.reclaims d hold
    · exact hreclaims
  resumed d hd := by
    rcases List.mem_or_eq_of_mem_set hd with hold | rfl
    · exact hs.resumed d hold
    · exact hresumed

/-- A patch goes to a host that was launched, or closes a host as not run. -/
theorem write (hs : Sound w) (serverId : String) (p : JobTargetPatch)
    (h : serverId ∈ w.launched ∨
      p.detached = none ∧ p.state = some .skipped ∧ p.outcome = some (some .cancelled)) :
    Sound (w.write serverId p) where
  unfinished := hs.unfinished
  rows r hr hnot := by
    obtain ⟨r₀, hr₀, rfl⟩ := mem_updateTarget.mp hr
    split_ifs at hnot ⊢ with hid
    · rw [patch_serverId, hid] at hnot
      rcases h with hin | ⟨hdetached, hstate, houtcome⟩
      · exact absurd hin hnot
      · have hold := hs.rows r₀ hr₀ (by rwa [hid])
        unfold JobHostRow.Untouched
        rw [patch_detached, patch_state, patch_outcome, hdetached, hstate, houtcome]
        exact ⟨hold.1, Or.inr ⟨rfl, rfl⟩⟩
    · exact hs.rows r₀ hr₀ hnot
  called := hs.called
  reclaims := hs.reclaims
  resumed := hs.resumed

theorem launch (hs : Sound w) (serverId : String) :
    Sound { w with launched := serverId :: w.launched } where
  unfinished := hs.unfinished
  rows r hr hnot := hs.rows r hr fun hin => hnot (List.mem_cons_of_mem _ hin)
  called c hc s h := List.mem_cons_of_mem _ (hs.called c hc s h)
  reclaims := hs.reclaims
  resumed c hc q hq h := List.mem_cons_of_mem _ (hs.resumed c hc q hq h)

theorem job (hs : Sound w) (job : JobRow) (hstate : job.state = w.job.state)
    (htargets : job.targets = w.job.targets) : Sound { w with job := job } where
  unfinished i hi := ⟨hstate ▸ (hs.unfinished i hi).1, (hs.unfinished i hi).2⟩
  rows r hr := hs.rows r (htargets ▸ hr)
  called := hs.called
  reclaims := hs.reclaims
  resumed := hs.resumed

/-- Without an owner nothing is asked of the job's own state. -/
theorem free (hs : Sound w) (job : JobRow)
    (hrows : ∀ r ∈ job.targets, r.serverId ∉ w.launched → r.Untouched) :
    Sound { w with job := job, active := none } where
  unfinished i hi := by cases hi
  rows := hrows
  called := hs.called
  reclaims := hs.reclaims
  resumed := hs.resumed

section Parts
variable {req : JobRunRequest} {deps : JobRunnerDeps} {i : Nat} {c : Call}
  {queue₀ queue : List Queued} {workers : List Worker}

theorem setWorker (hs : Sound w) (hcall : w.calls[i]? = some c)
    (hphase : c.phase = .wave queue₀ workers) (hqueue : ∀ q ∈ queue, q ∈ queue₀) (k : Nat)
    (worker : Worker) (hworker : ∀ s, worker.host? = some s → s ∈ w.launched) :
    Sound (w.setWorker i c queue workers k worker) := by
  have hmem := List.mem_of_getElem? hcall
  refine hs.setCall i _ ?_ (hs.reclaims c hmem) ?_
  · intro s h
    rcases h with hbusy | hcalled
    · rcases host_of_mem_set hbusy with hnew | hold
      · exact hworker s hnew
      · refine hs.called c hmem s (Or.inl ?_)
        rw [hphase]
        exact hold
    · exact hs.called c hmem s (Or.inr hcalled)
  · intro q hq
    refine hs.resumed c hmem q ?_
    rw [hphase]
    exact hqueue q hq

theorem setBusy (hs : Sound w) (hcall : w.calls[i]? = some c)
    (hphase : c.phase = .wave queue₀ workers) (hqueue : ∀ q ∈ queue, q ∈ queue₀) (k : Nat)
    (h : HostRun) (hin : h.target.serverId ∈ w.launched) :
    Sound (w.setCall i
      { c with phase := .wave queue (workers.set k (.busy h))
               called := h.target.serverId :: c.called }) := by
  have hmem := List.mem_of_getElem? hcall
  refine hs.setCall i _ ?_ (hs.reclaims c hmem) ?_
  · intro s hs'
    rcases hs' with hbusy | hcalled
    · rcases host_of_mem_set hbusy with hnew | hold
      · cases hnew
        exact hin
      · refine hs.called c hmem s (Or.inl ?_)
        rw [hphase]
        exact hold
    · rcases List.mem_cons.mp hcalled with rfl | hold
      · exact hin
      · exact hs.called c hmem s (Or.inr hold)
  · intro q hq
    refine hs.resumed c hmem q ?_
    rw [hphase]
    exact hqueue q hq

theorem callExec (hs : Sound w) (hcall : w.calls[i]? = some c)
    (hphase : c.phase = .wave queue₀ workers) (hqueue : ∀ q ∈ queue, q ∈ queue₀) (k : Nat)
    (h : HostRun) : Sound (w.callExec i c queue workers k h) :=
  (hs.launch h.target.serverId).setBusy hcall hphase hqueue k h List.mem_cons_self

theorem tail (hs : Sound w) (h : HostRun) (e : StepsEnd) (out : OutputTotals)
    (hin : h.target.serverId ∈ w.launched) : Sound (w.tail deps i c h e out) := by
  unfold World.tail
  split_ifs
  · exact hs.write _ _ (Or.inl hin)
  · exact hs.write _ _ (Or.inl hin)
  · exact hs

theorem applyUpdate (hs : Sound w) (i : Nat) {serverId : String} (u : World.JobExecUpdate)
    (hin : serverId ∈ w.launched) : Sound (w.applyUpdate i serverId u) := by
  unfold World.applyUpdate
  split_ifs
  · exact hs.write _ _ (Or.inl hin)
  · exact hs

theorem markAllSkipped (hs : Sound w) (targets : List JobTarget) (error : String) :
    Sound (w.markAllSkipped targets error) := by
  induction targets generalizing w with
  | nil => exact hs
  | cons t targets ih => exact ih (hs.write _ _ (Or.inr ⟨rfl, rfl, rfl⟩))

theorem finish (hs : Sound w) (hcall : w.calls[i]? = some c) (halted : Bool) :
    Sound (w.finish i c halted) := by
  have hmem := List.mem_of_getElem? hcall
  have hover := hs.setCall i { c with phase := .over }
    (fun s hin => hs.called c hmem s (hin.imp (fun hbusy => absurd hbusy List.not_mem_nil) id))
    (hs.reclaims c hmem) fun q hq => absurd hq List.not_mem_nil
  by_cases hactive : w.active = some i
  · rw [w.finish_owned i c halted hactive]
    exact hover.free _ hover.rows
  · rw [w.finish_lost i c halted hactive]
    exact hover

theorem halt (hs : Sound w) (hcall : w.calls[i]? = some c) (reason : String) :
    Sound (w.halt i c reason) := by
  refine (hs.markAllSkipped _ _).finish ?_ true
  rw [World.markAllSkipped_eq]
  exact hcall

theorem goOn (hs : Sound w) (hcall : w.calls[i]? = some c) (hbetween : c.between) :
    Sound (w.goOn req i c) := by
  have hmem := List.mem_of_getElem? hcall
  refine hs.setCall i _ ?_ ?_ ?_
  · intro s hin
    rw [nextWave_busy _ (between_busy hbetween), nextWave_called] at hin
    exact hs.called c hmem s (hin.imp (fun hbusy => absurd hbusy List.not_mem_nil) id)
  · rw [nextWave_reclaims]
    intro hreclaims
    have hrest := hs.reclaims c hmem hreclaims
    unfold Call.nextWave
    rw [hrest]
    exact hrest
  · rw [nextWave_reclaims]
    unfold Call.nextWave
    split
    next => exact hs.resumed c hmem
    next name targets rest hrest =>
      intro q hq hor
      obtain ⟨t, _, rfl⟩ := List.mem_map.mp hq
      rcases hor with hreclaims | hresume
      · rw [hs.reclaims c hmem hreclaims] at hrest
        cases hrest
      · exact absurd rfl hresume

end Parts

theorem closed_untouched {now : Nat} {notRun : String} {r : JobHostRow} (h : r.Untouched) :
    (World.closed now notRun r).Untouched := by
  obtain ⟨hdetached, hstate⟩ := h
  unfold World.closed
  split_ifs with hrunning hpending
  · rcases hstate with hstate | ⟨hstate, _⟩ <;> rw [hstate] at hrunning <;> cases hrunning
  · exact ⟨hdetached, Or.inr ⟨rfl, rfl⟩⟩
  · exact ⟨hdetached, hstate⟩

theorem closed_serverId (now : Nat) (notRun : String) (r : JobHostRow) :
    (World.closed now notRun r).serverId = r.serverId := by
  unfold World.closed
  split_ifs <;> rfl

/-- A host that is queued again has a row with a marker. -/
theorem requeued_row {gone : List String} {rows : List JobHostRow} {q : Queued}
    (h : q ∈ rows.filterMap (World.requeued gone)) :
    ∃ r ∈ rows, r.serverId = q.target.serverId ∧ reclaimable r = true := by
  obtain ⟨r, hr, hq⟩ := List.mem_filterMap.mp h
  unfold World.requeued at hq
  split_ifs at hq with hreclaimable
  obtain ⟨handle, _, rfl⟩ := Option.map_eq_some_iff.mp hq
  exact ⟨r, hr, rfl, hreclaimable⟩

theorem launched_of_reclaimable (hs : Sound w) {r : JobHostRow} (hr : r ∈ w.job.targets)
    (h : reclaimable r = true) : r.serverId ∈ w.launched := by
  by_contra hnot
  have hnone := (hs.rows r hr hnot).1
  rw [reclaimable, hnone] at h
  cases h

theorem step {req : JobRunRequest} {deps : JobRunnerDeps} {m : Move} {w' : World} (hs : Sound w)
    (hdoes : Does req deps w m w') : Sound w' := by
  cases hdoes with
  | same => exact hs
  | tick ms => exact ⟨hs.unfinished, hs.rows, hs.called, hs.reclaims, hs.resumed⟩
  | cancel i c hactive hcall at' =>
    have hmem := List.mem_of_getElem? hcall
    exact (hs.setCall i { c with cancelled := true } (hs.called c hmem) (hs.reclaims c hmem)
      (hs.resumed c hmem)).job _ rfl rfl
  | disposeAll i c hactive hcall =>
    have hmem := List.mem_of_getElem? hcall
    exact (hs.setCall i { c with cancelled := true, disposed := true } (hs.called c hmem)
      (hs.reclaims c hmem) (hs.resumed c hmem)).free _ hs.rows
  | restart =>
    exact ⟨fun i hi => (by cases hi), hs.rows, fun c hc => absurd hc List.not_mem_nil,
      fun c hc => absurd hc List.not_mem_nil, fun c hc => absurd hc List.not_mem_nil⟩
  | adopt hidle hnone =>
    have hactive := Option.isNone_iff_eq_none.mp (Bool.and_eq_true_iff.mp hidle).2
    refine ⟨fun i hi => ?_, ?_, hs.called, hs.reclaims, hs.resumed⟩
    · rw [hactive] at hi
      cases hi
    · intro r hr hnot
      obtain ⟨r₀, hr₀, rfl⟩ := List.mem_map.mp hr
      rw [closed_serverId] at hnot
      exact closed_untouched (hs.rows r₀ hr₀ hnot)
  | reclaim gone notRun hidle =>
    refine ⟨fun i hi => ?_, ?_, ?_, ?_, ?_⟩
    · cases hi
      exact ⟨(Bool.and_eq_true_iff.mp hidle).1, _, List.getElem?_concat_length⟩
    · intro r hr hnot
      obtain ⟨r₀, hr₀, rfl⟩ := List.mem_map.mp hr
      split_ifs at hnot ⊢
      · exact hs.rows r₀ hr₀ hnot
      · rw [closed_serverId] at hnot
        exact closed_untouched (hs.rows r₀ hr₀ hnot)
    · intro c hc s hin
      rcases List.mem_append.mp hc with hold | hnew
      · exact hs.called c hold s hin
      · rw [List.mem_singleton.mp hnew, startWave_busy] at hin
        exact absurd (hin.resolve_left List.not_mem_nil) List.not_mem_nil
    · intro c hc hreclaims
      rcases List.mem_append.mp hc with hold | hnew
      · exact hs.reclaims c hold hreclaims
      · rw [List.mem_singleton.mp hnew]
    · intro c hc q hq hor
      rcases List.mem_append.mp hc with hold | hnew
      · exact hs.resumed c hold q hq hor
      · rw [List.mem_singleton.mp hnew] at hq
        obtain ⟨r, hr, hid, hreclaimable⟩ := requeued_row hq
        exact hid ▸ hs.launched_of_reclaimable hr hreclaimable
  | workerOver i k c queue workers hcall hphase hready hempty =>
    exact hs.setWorker hcall hphase (fun _ hq => hq) k .over fun s hhost => (by cases hhost)
  | skip i k c q queue workers hactive hcall hphase hready hcancelled hgone =>
    refine Sound.write ?_ _ _ (Or.inr ⟨rfl, rfl, rfl⟩)
    exact hs.setWorker hcall hphase (fun _ hq => List.mem_cons_of_mem _ hq) k .ready fun s hhost =>
      (by cases hhost)
  | gone i k c q queue workers hactive hcall hphase hready hreclaims hgone error =>
    refine Sound.write ?_ _ _ (Or.inl ?_)
    · exact hs.setWorker hcall hphase (fun _ hq => List.mem_cons_of_mem _ hq) k .ready
        fun s hhost => (by cases hhost)
    · refine hs.resumed c (List.mem_of_getElem? hcall) q ?_ (Or.inl hreclaims)
      rw [hphase]
      exact List.mem_cons_self
  | start i k c q queue workers h hactive hcall hphase hready hcancelled htarget hhandle hfresh =>
    have hl := ((hs.launch q.target.serverId).write q.target.serverId
      { state := some .running, startedAt := some (some w.clock) } (Or.inl List.mem_cons_self))
    rw [← htarget] at hl ⊢
    exact hl.setBusy hcall hphase (fun _ hq => List.mem_cons_of_mem q hq) k h List.mem_cons_self
  | resume i k c q queue workers h r hactive hcall hphase hready hcancelled htarget hhandle
      hresume =>
    exact hs.callExec hcall hphase (fun _ hq => List.mem_cons_of_mem _ hq) k h
  | beyond i k c q queue workers h r e out hactive hcall hphase hready hcancelled hresume hbeyond
      htarget hnone =>
    refine Sound.tail ?_ h e out ?_
    · exact hs.setWorker hcall hphase (fun _ hq => List.mem_cons_of_mem _ hq) k .ready
        fun s hhost => (by cases hhost)
    · rw [htarget]
      refine hs.resumed c (List.mem_of_getElem? hcall) q ?_ (Or.inr (by rw [hresume]; simp))
      rw [hphase]
      exact List.mem_cons_self
  | update i k u c queue workers h hcall hphase hbusy =>
    have hin : h.target.serverId ∈ w.launched := by
      refine hs.called c (List.mem_of_getElem? hcall) _ (Or.inl ?_)
      rw [hphase]
      exact List.mem_filterMap.mpr ⟨_, List.mem_of_getElem? hbusy, rfl⟩
    refine Sound.applyUpdate ?_ i u hin
    refine hs.setWorker hcall hphase (fun _ hq => hq) k _ fun s hhost => ?_
    cases hhost
    exact hin
  | late i serverId u c hcall hcalled =>
    exact hs.applyUpdate i u (hs.called c (List.mem_of_getElem? hcall) _ (Or.inr hcalled))
  | nextStep i k r out c queue workers h hactive hcall hphase hbusy =>
    exact hs.callExec hcall hphase (fun _ hq => hq) k _
  | hostOver i k s out c queue workers h e hcall hphase hbusy hend =>
    refine Sound.tail ?_ h e out ?_
    · exact hs.setWorker hcall hphase (fun _ hq => hq) k .ready fun s hhost => (by cases hhost)
    · refine hs.called c (List.mem_of_getElem? hcall) _ (Or.inl ?_)
      rw [hphase]
      exact List.mem_filterMap.mpr ⟨_, List.mem_of_getElem? hbusy, rfl⟩
  | finish i c hcall hbetween hlast => exact hs.finish hcall false
  | goOn i c hcall hbetween hmove => exact hs.goOn hcall hbetween
  | wait i c phase hcall hbetween hphase hmove =>
    have hmem := List.mem_of_getElem? hcall
    obtain ⟨hqueue, hbusy, _⟩ := waiting_empty hphase
    refine hs.setCall i _ ?_ (hs.reclaims c hmem) ?_
    · intro s hin
      rw [hbusy] at hin
      exact hs.called c hmem s (hin.imp (fun hin => absurd hin List.not_mem_nil) id)
    · intro q hq
      rw [hqueue] at hq
      exact absurd hq List.not_mem_nil
  | halt i c reason hcall hbetween hmove => exact hs.halt hcall reason

end Sound

/-! ## Following the owner -/

/-- Where a live row of the job can be while the call owns it. A row with no marker that `reclaim`
left as it was is followed by nobody. -/
def Call.Covers (c : Call) (r : JobHostRow) : Prop :=
  r.serverId ∈ c.toCome ∨ r.serverId ∈ c.phase.busy ∨
    (c.reclaims = true ∧ r.serverId ∉ c.called ∧ r.detached = none)

structure Tracked (w : World) : Prop where
  covered : ∀ i c, w.active = some i → w.calls[i]? = some c →
    ∀ r ∈ w.job.targets, isJobHostLive r.state = true → c.Covers r
  drained : ∀ i c, w.active = some i → w.calls[i]? = some c → c.phase.Drained

/-- An executor that is not waited for any more does not open a row again, and the state it ends a
host with is an end. -/
def Tidy (w : World) : Move → Prop
  | .late _ _ u => ∀ s ∈ u.state, isJobHostLive s = false
  | .settle i _ (.fulfilled r) _ =>
    w.active = some i → ∀ s ∈ r.finalState, isJobHostLive s = false
  | _ => True

theorem drained_set {queue₀ queue : List Queued} {workers : List Worker} {k : Nat}
    {worker : Worker} (h : (Phase.wave queue₀ workers).Drained)
    (hqueue : queue₀ = [] → queue = []) (hworker : worker = .over → queue = []) :
    (Phase.wave queue (workers.set k worker)).Drained := by
  obtain ⟨hne, hover⟩ := h
  refine ⟨?_, fun hin => ?_⟩
  · intro hnil
    apply hne
    rw [← List.length_eq_zero_iff] at hnil ⊢
    rwa [List.length_set] at hnil
  · rcases List.mem_or_eq_of_mem_set hin with hold | heq
    · exact hqueue (hover hold)
    · exact hworker heq.symm

theorem drained_between {c : Call} (hdrained : c.phase.Drained) (hbetween : c.between) :
    c.phase.queue = [] := by
  unfold Call.between at hbetween
  cases hphase : c.phase with
  | wave queue workers =>
    rw [hphase] at hdrained hbetween
    obtain ⟨hne, hover⟩ := hdrained
    obtain ⟨v, hv⟩ := List.exists_mem_of_ne_nil _ hne
    exact hover (hbetween v hv ▸ hv)
  | gate since => rfl
  | nodes since => rfl
  | «over» => rfl

theorem startWave_drained {concurrency : Option Int} (queue : List Queued)
    (hconc : 1 ≤ concurrency.getD JOB_CONCURRENCY) : (startWave concurrency queue).Drained := by
  have hcount : workerCount concurrency queue.length ≠ 0 := by
    unfold workerCount
    omega
  refine ⟨?_, fun hin => ?_⟩
  · intro hnil
    exact hcount (List.replicate_eq_nil_iff _ |>.mp hnil)
  · cases List.eq_of_mem_replicate hin

/-- A live row is not the one that was just closed. -/
theorem ne_of_closed {rows : List JobHostRow} {serverId : String} {p : JobTargetPatch}
    {s : JobHostState} (hstate : p.state = some s) (hdead : isJobHostLive s = false)
    {r : JobHostRow} (hr : r ∈ updateTarget rows serverId p)
    (hlive : isJobHostLive r.state = true) :
    r.serverId ≠ serverId := by
  intro hid
  obtain ⟨r₀, _, rfl⟩ := mem_updateTarget.mp hr
  split_ifs at hid hlive with hold
  · rw [patch_state, hstate, Option.getD_some, hdead] at hlive
    cases hlive
  · exact hold hid

/-- A host stays covered when it does not leave the queue, or leaves it for the worker that moves.
-/
theorem covers_setWorker {c : Call} {queue₀ queue : List Queued} {workers : List Worker} {k : Nat}
    {old worker : Worker} {called : List String} {r : JobHostRow}
    (hphase : c.phase = .wave queue₀ workers) (hold : workers[k]? = some old)
    (hqueue : ∀ q ∈ queue₀, q.target.serverId = r.serverId →
      q ∈ queue ∨ worker.host? = some r.serverId)
    (hhost : old.host? = some r.serverId → worker.host? = some r.serverId)
    (hcalled : r.serverId ∈ called → r.serverId ∈ c.called ∨ worker.host? = some r.serverId)
    (h : c.Covers r) :
    Call.Covers { c with phase := .wave queue (workers.set k worker), called := called } r := by
  by_cases hself : worker.host? = some r.serverId
  · exact Or.inr (Or.inl (host_mem_set_self (lt_of_getElem? hold) hself))
  · rcases h with hcome | hbusy | ⟨hreclaims, hnot, hnone⟩
    · rcases List.mem_append.mp hcome with hqueued | hrest
      · rw [hphase] at hqueued
        obtain ⟨q, hq, hid⟩ := List.mem_map.mp hqueued
        have hstays := (hqueue q hq hid).resolve_right hself
        exact Or.inl (List.mem_append_left _ (List.mem_map.mpr ⟨q, hstays, hid⟩))
      · exact Or.inl (List.mem_append_right _ hrest)
    · rw [hphase] at hbusy
      exact Or.inr (Or.inl (host_mem_set_other hold hbusy fun heq => hself (hhost heq)))
    · have hnot' := fun hin => hnot ((hcalled hin).resolve_right hself)
      exact Or.inr (Or.inr ⟨hreclaims, hnot', hnone⟩)

theorem taken {q : Queued} {queue : List Queued} :
    ∀ q' ∈ q :: queue, q' ∈ queue ∨ q'.target.serverId = q.target.serverId := by
  intro q' hq'
  rcases List.mem_cons.mp hq' with rfl | hin
  · exact Or.inr rfl
  · exact Or.inl hin

theorem settled_dead {req : JobRunRequest} {owned : Bool} {h : HostRun} {s : World.Settled}
    {e : StepsEnd} (hend : World.settled req owned h s = .inr e)
    (hfinal : ∀ r, s = .fulfilled r → ∀ t ∈ r.finalState, isJobHostLive t = false) :
    isJobHostLive e.state = false := by
  cases s with
  | fulfilled r =>
    unfold World.settled at hend
    dsimp only at hend
    split_ifs at hend
    cases hend
    unfold StepsEnd.state
    dsimp only
    cases hstate : r.finalState with
    | some t => exact hfinal r rfl t hstate
    | none =>
      rw [Option.getD_none]
      split_ifs <;> rfl
  | rejected message =>
    cases hend
    rfl
  | stalled =>
    cases hend
    rfl

namespace Tracked
variable {w : World}

theorem setCall (ht : Tracked w) {i : Nat} {c : Call} (c' : Call) (hcall : w.calls[i]? = some c)
    (hcovers : w.active = some i → ∀ r ∈ w.job.targets, isJobHostLive r.state = true →
      c.Covers r → c'.Covers r)
    (hdrained : w.active = some i → c.phase.Drained → c'.phase.Drained) :
    Tracked (w.setCall i c') := by
  have hlt := lt_of_getElem? hcall
  refine ⟨fun j d hactive hd => ?_, fun j d hactive hd => ?_⟩
  all_goals
    rw [World.setCall_active] at hactive
    rw [World.setCall_calls, List.getElem?_set] at hd
    split_ifs at hd with hij
  · cases hd
    subst hij
    intro r hr hlive
    exact hcovers hactive r hr hlive (ht.covered i c hactive hcall r hr hlive)
  · exact ht.covered j d hactive hd
  · cases hd
    subst hij
    exact hdrained hactive (ht.drained i c hactive hcall)
  · exact ht.drained j d hactive hd

/-- A patch closes a row, or goes to a host the owner still has. -/
theorem write (ht : Tracked w) (serverId : String) (p : JobTargetPatch)
    (h : (∃ s, p.state = some s ∧ isJobHostLive s = false) ∨
      ∀ i c, w.active = some i → w.calls[i]? = some c →
        serverId ∈ c.toCome ∨ serverId ∈ c.phase.busy) : Tracked (w.write serverId p) := by
  refine ⟨fun i c hactive hcall r hr hlive => ?_, ht.drained⟩
  obtain ⟨r₀, hr₀, hpatched⟩ := mem_updateTarget.mp hr
  by_cases hid : r₀.serverId = serverId
  · rw [if_pos hid] at hpatched
    have hrid : r.serverId = serverId := by rw [hpatched, patch_serverId, hid]
    rcases h with ⟨s, hstate, hdead⟩ | hhas
    · exact absurd hrid (ne_of_closed hstate hdead hr hlive)
    · rcases hhas i c hactive hcall with hcome | hbusy
      · exact Or.inl (hrid ▸ hcome)
      · exact Or.inr (Or.inl (hrid ▸ hbusy))
  · rw [if_neg hid] at hpatched
    subst hpatched
    exact ht.covered i c hactive hcall r hr₀ hlive

theorem free (job : JobRow) : Tracked { w with job := job, active := none } :=
  ⟨fun i c hactive => (by cases hactive), fun i c hactive => (by cases hactive)⟩

theorem finish (ht : Tracked w) {i : Nat} {c : Call} (hcall : w.calls[i]? = some c)
    (halted : Bool) : Tracked (w.finish i c halted) := by
  by_cases hactive : w.active = some i
  · rw [w.finish_owned i c halted hactive]
    exact free (w := w.setCall i _) _
  · rw [w.finish_lost i c halted hactive]
    exact ht.setCall _ hcall (fun hi => absurd hi hactive) fun _ _ => trivial

theorem markAllSkipped (ht : Tracked w) (targets : List JobTarget) (error : String) :
    Tracked (w.markAllSkipped targets error) := by
  induction targets generalizing w with
  | nil => exact ht
  | cons t targets ih => exact ih (ht.write _ _ (Or.inl ⟨_, rfl, rfl⟩))

theorem goOn (ht : Tracked w) {concurrency : Option Int}
    (hconc : 1 ≤ concurrency.getD JOB_CONCURRENCY) {i : Nat} {c : Call}
    (hcall : w.calls[i]? = some c) (hbetween : c.between) :
    Tracked (w.setCall i (c.nextWave concurrency)) := by
  refine ht.setCall _ hcall ?_ ?_
  · intro hactive r hr hlive hcovers
    have hnil := drained_between (ht.drained i c hactive hcall) hbetween
    have hcome : c.toCome = (waveTargets c.rest).map JobTarget.serverId := by
      rw [Call.toCome, Phase.queued, hnil, List.map_nil, List.nil_append]
    rcases hcovers with hin | hbusy | hleft
    · refine Or.inl ?_
      rcases nextWave_toCome c concurrency with heq | ⟨_, heq⟩
      · rwa [heq, ← hcome]
      · rwa [heq]
    · rw [between_busy hbetween] at hbusy
      exact absurd hbusy List.not_mem_nil
    · refine Or.inr (Or.inr ?_)
      rwa [nextWave_reclaims, nextWave_called]
  · intro _ hdrained
    unfold Call.nextWave
    split
    · exact hdrained
    · exact startWave_drained _ hconc

section Moves
variable {deps : JobRunnerDeps} {i k : Nat} {c : Call} {queue₀ queue : List Queued}
  {workers : List Worker} {old : Worker}

/-- A host leaves the hands of its call with a closed row. -/
theorem leave (ht : Tracked w) {serverId : String} {p : JobTargetPatch} {s : JobHostState}
    (hcall : w.calls[i]? = some c) (hphase : c.phase = .wave queue₀ workers)
    (hold : workers[k]? = some old)
    (hqueue : ∀ q ∈ queue₀, q ∈ queue ∨ q.target.serverId = serverId)
    (hempty : queue₀ = [] → queue = []) (hhost : ∀ t, old.host? = some t → t = serverId)
    (hstate : p.state = some s) (hdead : isJobHostLive s = false) :
    Tracked ((w.setWorker i c queue workers k .ready).write serverId p) := by
  have hwrite := ht.write serverId p (Or.inl ⟨s, hstate, hdead⟩)
  refine hwrite.setCall { c with phase := .wave queue (workers.set k .ready) } hcall ?_ ?_
  · intro _ r hr hlive hcovers
    have hne := ne_of_closed hstate hdead hr hlive
    refine covers_setWorker hphase hold (fun q hq hid => Or.inl ?_) (fun heq => ?_)
      (fun hin => Or.inl hin) hcovers
    · exact (hqueue q hq).resolve_right fun heq => hne (hid.symm.trans heq)
    · exact absurd (hhost _ heq) hne
  · intro _ hdrained
    rw [hphase] at hdrained
    exact drained_set hdrained hempty fun heq => (by cases heq)

theorem hostOver (ht : Tracked w) {h : HostRun} {e : StepsEnd} {out : OutputTotals}
    (hcall : w.calls[i]? = some c) (hphase : c.phase = .wave queue₀ workers)
    (hold : workers[k]? = some old)
    (hqueue : ∀ q ∈ queue₀, q ∈ queue ∨ q.target.serverId = h.target.serverId)
    (hempty : queue₀ = [] → queue = [])
    (hhost : ∀ s, old.host? = some s → s = h.target.serverId)
    (hdead : w.active = some i → isJobHostLive e.state = false)
    (hghost : w.active = some i ∨ w.active = none) :
    Tracked ((w.setWorker i c queue workers k .ready).tail deps i c h e out) := by
  unfold World.tail
  rcases hghost with hactive | hnone
  · rw [if_pos (by rw [World.owns_iff]; exact hactive)]
    exact ht.leave hcall hphase hold hqueue hempty hhost rfl (hdead hactive)
  · have hfree : ∀ v : World, v.active = none → Tracked v := fun v hv =>
      ⟨fun j d hj => (by rw [hv] at hj; cases hj), fun j d hj => (by rw [hv] at hj; cases hj)⟩
    refine hfree _ ?_
    split_ifs <;> exact hnone

theorem callExec (ht : Tracked w) {h : HostRun} (hcall : w.calls[i]? = some c)
    (hphase : c.phase = .wave queue₀ workers) (hold : workers[k]? = some old)
    (hqueue : ∀ q ∈ queue₀, q ∈ queue ∨ q.target.serverId = h.target.serverId)
    (hempty : queue₀ = [] → queue = [])
    (hhost : ∀ s, old.host? = some s → s = h.target.serverId) :
    Tracked (w.callExec i c queue workers k h) := by
  have hset := ht.setCall
    { c with phase := .wave queue (workers.set k (.busy h))
             called := h.target.serverId :: c.called }
    hcall ?_ ?_
  · exact ⟨hset.covered, hset.drained⟩
  · intro _ r _ _ hcovers
    have hself : ∀ s, s = h.target.serverId → (Worker.busy h).host? = some s :=
      fun s hs => hs ▸ rfl
    refine covers_setWorker hphase hold (fun q hq hid => ?_) (fun heq => hself _ (hhost _ heq))
      (fun hin => ?_) hcovers
    · exact (hqueue q hq).imp id fun heq => hself _ (hid.symm.trans heq)
    · exact (List.mem_cons.mp hin).symm.imp id (hself _)
  · intro _ hdrained
    rw [hphase] at hdrained
    exact drained_set hdrained hempty fun heq => (by cases heq)

theorem update (ht : Tracked w) {h : HostRun} (u : World.JobExecUpdate)
    (hcall : w.calls[i]? = some c) (hphase : c.phase = .wave queue workers)
    (hbusy : workers[k]? = some (.busy h)) (handle : Option JobDetachedHandle) :
    Tracked ((w.setWorker i c queue workers k (.busy { h with handle := handle })).applyUpdate i
      h.target.serverId u) := by
  have hset : ∀ v : World, v.calls = w.calls → Tracked v →
      Tracked (v.setWorker i c queue workers k (.busy { h with handle := handle })) := by
    intro v hcalls hv
    refine hv.setCall _ (hcalls ▸ hcall) ?_ ?_
    · intro _ r _ _ hcovers
      exact covers_setWorker hphase hbusy (fun q hq _ => Or.inl hq) (fun heq => heq)
        (fun hin => Or.inl hin) hcovers
    · intro _ hdrained
      rw [hphase] at hdrained
      exact drained_set hdrained id fun heq => (by cases heq)
  unfold World.applyUpdate
  split_ifs with howns
  · refine hset (w.write h.target.serverId u.patch) rfl (ht.write _ _ (Or.inr ?_))
    intro j d hj hd
    have hactive : w.active = some i := (w.owns_iff i).mp howns
    have hji : j = i := Option.some.inj (hj.symm.trans hactive)
    subst hji
    have hdc : d = c := Option.some.inj (hd.symm.trans hcall)
    subst hdc
    right
    rw [hphase]
    exact List.mem_filterMap.mpr ⟨_, List.mem_of_getElem? hbusy, rfl⟩
  · exact hset w rfl ht

/-- A late update that opens no row leaves the live rows where they were. -/
theorem late (ht : Tracked w) {serverId : String} {u : World.JobExecUpdate}
    (hcall : w.calls[i]? = some c) (hcalled : serverId ∈ c.called)
    (hdead : ∀ s ∈ u.state, isJobHostLive s = false) :
    Tracked (w.applyUpdate i serverId u) := by
  unfold World.applyUpdate
  split_ifs with howns
  · cases hstate : u.state with
    | some s => exact ht.write _ _ (Or.inl ⟨s, hstate, hdead s hstate⟩)
    | none =>
      refine ⟨fun j d hj hd r hr hlive => ?_, ht.drained⟩
      obtain ⟨r₀, hr₀, rfl⟩ := mem_updateTarget.mp hr
      split_ifs at hlive ⊢ with hid
      · rw [World.owns_iff] at howns
        have hji : j = i := Option.some.inj (hj.symm.trans howns)
        subst hji
        have hdc : d = c := Option.some.inj (hd.symm.trans hcall)
        subst hdc
        have hstate' : (r₀.patch u.patch).state = r₀.state := by
          rw [patch_state, World.JobExecUpdate.patch, hstate]
          rfl
        rw [hstate'] at hlive
        rcases ht.covered j d hj hd r₀ hr₀ hlive with hcome | hbusy | ⟨_, hnot, _⟩
        · exact Or.inl hcome
        · exact Or.inr (Or.inl hbusy)
        · exact absurd (hid ▸ hcalled) hnot
      · exact ht.covered j d hj hd r₀ hr₀ hlive
  · exact ht

end Moves

/-- Every live row is queued again, or nobody follows it. -/
theorem reclaimed_covers {gone : List String} {rows : List JobHostRow} {now : Nat}
    {notRun : String} {c : Call}
    (hqueue : c.phase.queue = rows.filterMap (World.requeued gone)) (hreclaims : c.reclaims = true)
    (hcalled : c.called = []) {r₀ : JobHostRow} (hr₀ : r₀ ∈ rows)
    (hlive : isJobHostLive
      (if reclaimable r₀ then r₀ else World.closed now notRun r₀).state = true) :
    c.Covers (if reclaimable r₀ then r₀ else World.closed now notRun r₀) := by
  split_ifs at hlive ⊢ with hrec
  · obtain ⟨handle, hhandle⟩ := Option.isSome_iff_exists.mp (Bool.and_eq_true_iff.mp hrec).1
    refine Or.inl (List.mem_append_left _ ?_)
    rw [Phase.queued, hqueue]
    let q : Queued :=
      { target := ⟨r₀.serverId, r₀.serverName, none⟩
        resume := some ⟨handle, r₀.startedAt, r₀.outOffset, r₀.outElided⟩
        gone := r₀.serverId ∈ gone }
    refine List.mem_map.mpr ⟨q, List.mem_filterMap.mpr ⟨r₀, hr₀, ?_⟩, rfl⟩
    rw [World.requeued, if_pos hrec, hhandle]
    rfl
  · right
    right
    rw [hcalled]
    refine ⟨hreclaims, List.not_mem_nil, ?_⟩
    unfold World.closed at hlive ⊢
    split_ifs at hlive ⊢
    · cases hlive
    · cases hlive
    · cases hdetached : r₀.detached with
      | none => rfl
      | some handle =>
        rw [reclaimable, hdetached, hlive] at hrec
        exact absurd rfl hrec

theorem step (ht : Tracked w) {req : JobRunRequest} {deps : JobRunnerDeps} {m : Move} {w' : World}
    (hconc : 1 ≤ req.concurrency.getD JOB_CONCURRENCY) (htidy : Tidy w m)
    (hghost : ∀ i k s out c, m = .settle i k s out → w.calls[i]? = some c →
      w.active = some i ∨ w.active = none)
    (hdoes : Does req deps w m w') : Tracked w' := by
  cases hdoes with
  | same => exact ht
  | tick ms => exact ⟨ht.covered, ht.drained⟩
  | cancel i c hactive hcall at' =>
    have hset := ht.setCall { c with cancelled := true } hcall (fun _ _ _ _ h => h) fun _ h => h
    exact ⟨hset.covered, hset.drained⟩
  | disposeAll i c hactive hcall => exact free (w := w.setCall i _) _
  | restart => exact free (w := { w with calls := [] }) _
  | adopt hidle hnone =>
    have hactive := Option.isNone_iff_eq_none.mp (Bool.and_eq_true_iff.mp hidle).2
    refine ⟨fun i c hi => ?_, fun i c hi => ?_⟩ <;> rw [hactive] at hi <;> cases hi
  | reclaim gone notRun hidle =>
    refine ⟨fun i c hi hcall => ?_, fun i c hi hcall => ?_⟩
    all_goals
      cases hi
      rw [List.getElem?_concat_length, Option.some.injEq] at hcall
      subst hcall
    · intro r hr hlive
      obtain ⟨r₀, hr₀, rfl⟩ := List.mem_map.mp hr
      exact reclaimed_covers rfl rfl rfl hr₀ hlive
    · exact startWave_drained _ hconc
  | workerOver i k c queue workers hcall hphase hready hempty =>
    refine ht.setCall _ hcall ?_ ?_
    · intro _ r _ _ hcovers
      exact covers_setWorker hphase hready (fun q hq _ => Or.inl hq) (fun h => (by cases h))
        (fun hin => Or.inl hin) hcovers
    · intro hactive hdrained
      rw [hphase] at hdrained
      exact drained_set hdrained id fun _ => hempty hactive
  | skip i k c q queue workers hactive hcall hphase hready hcancelled hgone =>
    exact ht.leave hcall hphase hready taken (fun h => (by cases h)) (fun t h => (by cases h)) rfl
      rfl
  | gone i k c q queue workers hactive hcall hphase hready hreclaims hgone error =>
    exact ht.leave hcall hphase hready taken (fun h => (by cases h)) (fun t h => (by cases h)) rfl
      rfl
  | start i k c q queue workers h hactive hcall hphase hready hcancelled htarget hhandle hfresh =>
    have hwrite := ht.write q.target.serverId
      { state := some .running, startedAt := some (some w.clock) } (Or.inr fun j d hj hd => by
        have hji : j = i := Option.some.inj (hj.symm.trans hactive)
        subst hji
        have hdc : d = c := Option.some.inj (hd.symm.trans hcall)
        subst hdc
        left
        rw [Call.toCome, hphase]
        exact List.mem_append_left _ List.mem_cons_self)
    exact hwrite.callExec hcall hphase hready (htarget ▸ taken) (fun h => (by cases h))
      fun t h => (by cases h)
  | resume i k c q queue workers h r hactive hcall hphase hready hcancelled htarget hhandle
      hresume =>
    exact ht.callExec hcall hphase hready (htarget ▸ taken) (fun h => (by cases h))
      fun t h => (by cases h)
  | beyond i k c q queue workers h r e out hactive hcall hphase hready hcancelled hresume hbeyond
      htarget hnone =>
    refine ht.hostOver hcall hphase hready (htarget ▸ taken) (fun h => (by cases h))
      (fun t h => (by cases h)) (fun _ => ?_) (Or.inl hactive)
    unfold StepsEnd.state
    rw [hnone.1, hnone.2]
    rfl
  | update i k u c queue workers h hcall hphase hbusy => exact ht.update u hcall hphase hbusy _
  | late i serverId u c hcall hcalled => exact ht.late hcall hcalled htidy
  | nextStep i k r out c queue workers h hactive hcall hphase hbusy =>
    refine ht.callExec hcall hphase hbusy (fun q hq => Or.inl hq) id fun t hhost => ?_
    cases hhost
    rfl
  | hostOver i k s out c queue workers h e hcall hphase hbusy hend =>
    refine ht.hostOver hcall hphase hbusy (fun q hq => Or.inl hq) id (fun s hs => ?_) ?_
      (hghost i k s out c rfl hcall)
    · cases hs
      rfl
    · intro hactive
      refine settled_dead hend fun r hr => ?_
      subst hr
      exact htidy hactive
  | finish i c hcall hbetween hlast => exact ht.finish hcall false
  | goOn i c hcall hbetween hmove => exact ht.goOn hconc hcall hbetween
  | wait i c phase hcall hbetween hphase hmove =>
    obtain ⟨hqueue, hbusy, hdrained⟩ := waiting_empty hphase
    refine ht.setCall _ hcall ?_ fun _ _ => hdrained
    intro hactive r _ _ hcovers
    have hnil := drained_between (ht.drained i c hactive hcall) hbetween
    rcases hcovers with hcome | hin | hleft
    · rw [Call.toCome, Phase.queued, hnil] at hcome
      refine Or.inl ?_
      rw [Call.toCome, Phase.queued, hqueue]
      exact hcome
    · rw [between_busy hbetween] at hin
      exact absurd hin List.not_mem_nil
    · exact Or.inr (Or.inr hleft)
  | halt i c reason hcall hbetween hmove =>
    refine (ht.markAllSkipped _ _).finish ?_ true
    rw [World.markAllSkipped_eq]
    exact hcall

end Tracked

/-! ## The start of a run -/

theorem createTargets_cohorts {targets : List JobTarget} {r : JobHostRow}
    (h : r ∈ createTargets targets) :
    r.Untouched ∧ r.serverId ∈ (waveTargets (jobCohorts targets)).map JobTarget.serverId := by
  obtain ⟨t, ht, ord, rfl⟩ := mem_createTargets h
  refine ⟨⟨rfl, Or.inl rfl⟩, List.mem_map.mpr ⟨t, ?_, rfl⟩⟩
  exact (jobCohorts_perm targets).mem_iff.mpr ht

/-- The one call there is after the start. -/
theorem launch_calls (req : JobRunRequest) (clock : Nat) :
    ∀ i c, (World.launch req clock).calls[i]? = some c →
      i = 0 ∧ c.reclaims = false ∧
        c.toCome.Sublist ((waveTargets (jobCohorts req.targets)).map JobTarget.serverId) := by
  have hone : ∀ (d : Call) (i : Nat) (c : Call), [d][i]? = some c → i = 0 ∧ c = d := by
    intro d i c hc
    cases i with
    | zero => exact ⟨rfl, (Option.some.inj hc).symm⟩
    | succ i => cases hc
  unfold World.launch
  extract_lets c w
  intro i d hd
  split_ifs at hd with hempty
  · rw [w.finish_owned 0 c false rfl] at hd
    obtain ⟨hi, rfl⟩ := hone _ i d hd
    exact ⟨hi, rfl, List.Sublist.refl _⟩
  · obtain ⟨hi, rfl⟩ := hone _ i d hd
    exact ⟨hi, nextWave_reclaims _ _, nextWave_sublist c req.concurrency⟩

theorem launch_outcome {req : JobRunRequest} {clock : Nat} {r : JobHostRow}
    (h : r ∈ (World.launch req clock).job.targets) : r.outcome = none := by
  have hrow : r ∈ createTargets req.targets := by
    unfold World.launch at h
    dsimp only at h
    split_ifs at h
    · rwa [World.finish_targets] at h
    · exact h
  obtain ⟨t, _, ord, rfl⟩ := mem_createTargets hrow
  rfl

theorem launch_launched (req : JobRunRequest) (clock : Nat) :
    (World.launch req clock).launched = [] := by
  unfold World.launch
  dsimp only
  split_ifs
  · rw [World.finish_launched]
  · rfl

theorem launch_sound (req : JobRunRequest) (clock : Nat) : Sound (World.launch req clock) := by
  unfold World.launch
  extract_lets c w
  have hcalls : ∀ d ∈ w.calls, d = c.nextWave req.concurrency :=
    fun d hd => List.mem_singleton.mp hd
  have hsound : Sound w := by
    refine ⟨fun i hi => ?_, fun r hr _ => (createTargets_cohorts hr).1, fun d hd s hs => ?_,
      fun d hd hreclaims => ?_, fun d hd q hq hor => ?_⟩
    · cases hi
      exact ⟨rfl, _, rfl⟩
    · rw [hcalls d hd, nextWave_busy _ rfl, nextWave_called] at hs
      exact absurd (hs.resolve_left List.not_mem_nil) List.not_mem_nil
    · rw [hcalls d hd, nextWave_reclaims] at hreclaims
      cases hreclaims
    · rw [hcalls d hd] at hq hor
      rw [nextWave_reclaims] at hor
      unfold Call.nextWave at hq
      split at hq
      · exact absurd hq List.not_mem_nil
      · obtain ⟨t, _, rfl⟩ := List.mem_map.mp hq
        exact absurd rfl (hor.resolve_left Bool.false_ne_true)
  split_ifs with hempty
  · refine hsound.finish (i := 0) ?_ false
    have hsame : c.nextWave req.concurrency = c := by
      unfold Call.nextWave
      rw [List.isEmpty_iff.mp hempty]
    rw [← hsame]
    rfl
  · exact hsound

theorem launch_tracked {req : JobRunRequest} (clock : Nat)
    (hconc : 1 ≤ req.concurrency.getD JOB_CONCURRENCY) : Tracked (World.launch req clock) := by
  unfold World.launch
  extract_lets c w
  split_ifs with hempty
  · exact Tracked.free (w := w.setCall 0 _) _
  · refine ⟨fun i d hi hd r hr hlive => ?_, fun i d hi hd => ?_⟩
    all_goals
      cases hi
      cases hd
    · rcases nextWave_toCome c req.concurrency with heq | ⟨hrest, _⟩
      · exact Or.inl (heq ▸ (createTargets_cohorts hr).2)
      · rw [hrest] at hempty
        exact absurd rfl hempty
    · unfold Call.nextWave
      split
      · trivial
      · exact startWave_drained _ hconc

/-! ## A small job -/

def plainDeps : JobRunnerDeps where
  health := true
  nodes := false
  scrub := id
  isoDate := toString
  samplerNote := ""

def upgrade (waves : List (Option String)) : JobRunRequest where
  targets := waves.zipIdx.map fun w => ⟨"s" ++ toString w.2, "web-" ++ toString w.2, w.1⟩
  steps := [{ command := "apt full-upgrade -y" }]
  concurrency := some 1
  gate := false
  confirmedAt := some 0

end OpsMaxx.Jobs
