import OpsMaxx.Patch.Plan

/-!
# Every host is planned once

With a stride of at least one host the waves are the hosts in order, and every host is left out or in
the targets of one job, whose steps are those its own row shows. Without one the loop goes on.
-/

set_option autoImplicit false

namespace OpsMaxx.Patch

open Jobs (JobStep JobTargetRef)
open Store (JsMap)
open Strings (Text)

/-! ## Waves -/

/-- Waves that are the hosts from one on, none of them empty or longer than the bound. -/
structure Split (hosts : List WaveHost) (bound : Option Nat) (waves : List PatchWave) : Prop where
  concat : waves.flatMap PatchWave.hosts = hosts
  nonempty : ∀ w ∈ waves, w.hosts ≠ []
  small : ∀ n ∈ bound, ∀ w ∈ waves, w.hosts.length ≤ n

theorem Split.cons {hosts rest : List WaveHost} {bound : Option Nat} {w : PatchWave}
    {waves : List PatchWave} (h : Split rest bound waves) (hconcat : w.hosts ++ rest = hosts)
    (hne : w.hosts ≠ []) (hsmall : ∀ n ∈ bound, w.hosts.length ≤ n) : Split hosts bound (w :: waves) where
  concat := by rw [List.flatMap_cons, h.concat, hconcat]
  nonempty := List.forall_mem_cons.mpr ⟨hne, h.nonempty⟩
  small := fun n hn => List.forall_mem_cons.mpr ⟨hsmall n hn, h.small n hn⟩

theorem Split.nil (bound : Option Nat) : Split [] bound [] :=
  ⟨rfl, (fun _ hw => nomatch hw), fun _ _ _ hw => nomatch hw⟩

section Loop
variable {hosts : List WaveHost}

theorem wavesLoop_end {n : Option Nat} {fuel i : Nat} (h : hosts.length ≤ i) (waves : List PatchWave) :
    wavesLoop hosts n fuel i waves = some waves := by
  cases fuel with
  | zero => rw [wavesLoop, if_neg (by omega)]
  | succ fuel => cases n <;> rw [wavesLoop, if_neg (by omega)]

/-- The loop ends after as many rounds as there are hosts at most, each of which takes some. -/
theorem wavesLoop_split {n : Option Nat} (hn : n ≠ some 0) (fuel i : Nat)
    (hfuel : hosts.length - i ≤ fuel) (waves : List PatchWave) :
    ∃ out, wavesLoop hosts n fuel i waves = some (waves ++ out) ∧ Split (hosts.drop i) n out := by
  induction fuel generalizing i waves with
  | zero =>
    refine ⟨[], ?_, ?_⟩
    · rw [wavesLoop_end (by omega), List.append_nil]
    · rw [List.drop_eq_nil_of_le (by omega)]
      exact Split.nil n
  | succ fuel ih =>
    by_cases hi : i < hosts.length
    · have hdrop : hosts.drop i ≠ [] := by
        intro h
        have hlen := List.drop_eq_nil_iff.mp h
        omega
      cases n with
      | none =>
        rw [wavesLoop, if_pos hi]
        refine ⟨[⟨waveName waves.length, hosts.drop i⟩], rfl, ?_⟩
        exact (Split.nil none).cons (List.append_nil _) hdrop fun n hn => nomatch hn
      | some n =>
        have hpos : 0 < n := by
          cases n with
          | zero => exact absurd rfl hn
          | succ n => exact Nat.succ_pos n
        obtain ⟨out, hout, hsplit⟩ := ih (i + n) (by omega)
          (waves ++ [⟨waveName waves.length, (hosts.drop i).take n⟩])
        rw [wavesLoop, if_pos hi]
        refine ⟨⟨waveName waves.length, (hosts.drop i).take n⟩ :: out, ?_, ?_⟩
        · simp only [hout, List.append_assoc, List.singleton_append]
        · refine hsplit.cons ?_ ?_ fun m hm => ?_
          · rw [← List.drop_drop, List.take_append_drop]
          · simp only [ne_eq, List.take_eq_nil_iff, hdrop, or_false]
            omega
          · obtain rfl := Option.some.inj hm
            exact List.length_take_le _ _
    · refine ⟨[], ?_, ?_⟩
      · rw [wavesLoop_end (by omega), List.append_nil]
      · rw [List.drop_eq_nil_of_le (by omega)]
        exact Split.nil n

/-- With a stride of nothing the loop stays where it is. -/
theorem wavesLoop_stuck (fuel : Nat) {i : Nat} (hi : i < hosts.length) (waves : List PatchWave) :
    wavesLoop hosts (some 0) fuel i waves = none := by
  induction fuel generalizing waves with
  | zero => rw [wavesLoop, if_pos hi]
  | succ fuel ih =>
    rw [wavesLoop, if_pos hi]
    exact ih _

end Loop

/-- A size that is rounded down to nothing. -/
def isFraction (size : Number) : Prop := ∃ q, size = .finite q ∧ 0 < q ∧ q < 1

theorem stride_eq_zero {count : Nat} (hcount : 0 < count) {size : Number} :
    stride count size = some 0 ↔ isFraction size := by
  unfold isFraction
  cases size with
  | nan =>
    simp only [stride, reduceCtorEq, false_and, exists_false, iff_false, Option.some.injEq]
    omega
  | infinite negative =>
    cases negative with
    | true =>
      simp only [stride, reduceCtorEq, false_and, exists_false, iff_false, if_true, Option.some.injEq]
      omega
    | false => simp [stride]
  | finite q =>
    simp only [stride, Option.some.injEq, Number.finite.injEq, exists_eq_left']
    split_ifs with hq
    · rw [Nat.floor_eq_zero]
      exact ⟨fun h => ⟨hq, h⟩, And.right⟩
    · constructor
      · omega
      · exact fun h => absurd h.1 hq

theorem planWaves_split {hosts : List WaveHost} {size : Number} (h : hosts = [] ∨ ¬ isFraction size)
    {fuel : Nat} (hfuel : hosts.length ≤ fuel) :
    ∃ waves, planWaves fuel hosts size = some waves ∧ Split hosts (stride hosts.length size) waves := by
  unfold planWaves
  by_cases hnil : hosts = []
  · rw [if_pos hnil, hnil]
    exact ⟨[], rfl, Split.nil _⟩
  · rw [if_neg hnil]
    have hpos := List.length_pos_of_ne_nil hnil
    have hstride : stride hosts.length size ≠ some 0 := fun hz =>
      h.resolve_left hnil ((stride_eq_zero hpos).mp hz)
    obtain ⟨out, hout, hsplit⟩ := wavesLoop_split hstride fuel 0 (by omega) []
    exact ⟨out, hout, hsplit⟩

theorem planWaves_stuck {hosts : List WaveHost} {size : Number} (hne : hosts ≠ [])
    (h : isFraction size) (fuel : Nat) : planWaves fuel hosts size = none := by
  have hpos := List.length_pos_of_ne_nil hne
  rw [planWaves, if_neg hne, (stride_eq_zero hpos).mpr h]
  exact wavesLoop_stuck fuel hpos []

/-! ## Rows -/

section Rows
variable (req : PatchPlanRequest) (waves : JsMap String String) (h : PatchHost)

/-- A row is left out or has a manager with a command. -/
theorem planHost_cases :
    (∃ reason, (planHost req waves h).excluded = some reason) ∨
      ∃ manager cmd, patchCommandFor manager req.scope req.withSudo = .ok cmd ∧
        (planHost req waves h).excluded = none ∧
        (planHost req waves h).packageManager = some manager ∧
        (planHost req waves h).command = some cmd.command := by
  unfold planHost
  cases h.packageManager with
  | none => exact Or.inl ⟨_, rfl⟩
  | some manager =>
    cases hcmd : patchCommandFor manager req.scope req.withSudo with
    | error reason => exact Or.inl ⟨reason, by simp [hcmd]⟩
    | ok cmd => exact Or.inr ⟨manager, cmd, hcmd, by simp [hcmd], by simp [hcmd], by simp [hcmd]⟩

theorem planHost_named :
    (planHost req waves h).serverId = h.serverId ∧ (planHost req waves h).serverName = h.serverName ∧
      (planHost req waves h).packageManager = h.packageManager ∧
      (planHost req waves h).wave = (waves.get h.serverId).getD (waveName 0) := by
  unfold planHost
  cases h.packageManager with
  | none => exact ⟨rfl, rfl, rfl, rfl⟩
  | some manager =>
    cases hcmd : patchCommandFor manager req.scope req.withSudo with
    | error reason => simp [hcmd]
    | ok cmd => simp [hcmd]

theorem isKept_planHost :
    (planHost req waves h).isKept = !(planHost req waves h).excluded.isSome := by
  unfold PatchPlanHost.isKept
  obtain ⟨reason, hout⟩ | ⟨manager, cmd, -, hkept, hmanager, -⟩ :=
    planHost_cases req waves h
  · rw [hout]
    rfl
  · rw [hkept, hmanager]
    rfl

end Rows

/-! ## Keys -/

theorem text_injective {m m' : PackageManager} (h : m.text = m'.text) : m = m' := by
  cases m <;> cases m' <;> first | rfl | exact absurd h (by decide)

theorem takeWhile_jobKey (m : PackageManager) (r : Bool) :
    (jobKey m r).takeWhile (· ≠ '|') = m.text.toList := by
  cases m <;> cases r <;> decide

/-- Hosts of one key have one manager and restart or not alike. -/
theorem jobKey_injective {m m' : PackageManager} {r r' : Bool} (h : jobKey m r = jobKey m' r') :
    m = m' ∧ r = r' := by
  have hm : m = m' := by
    have htext := congrArg (List.takeWhile (· ≠ '|')) h
    rw [takeWhile_jobKey, takeWhile_jobKey] at htext
    exact text_injective (String.toList_injective htext)
  subst hm
  refine ⟨rfl, ?_⟩
  have hrest := List.append_cancel_left h
  cases r <;> cases r' <;> first | rfl | exact absurd hrest (by decide)

theorem isSuffixOf_jobKey (m : PackageManager) (r : Bool) :
    "|reboot".toList.isSuffixOf (jobKey m r) = r := by
  cases m <;> cases r <;> decide

/-! ## Jobs -/

/-- The steps of a host that gets this command. -/
def stepsOf (req : PatchPlanRequest) (command : String) (reboot : Bool) : List JobStep :=
  { command := command } ::
    (if reboot then [{ command := buildRebootStep req.withSudo, reboot := true }] else [])

section Jobs
variable {req : PatchPlanRequest} {waves : JsMap String String}

/-- The rows of the plan. -/
def rowsOf (req : PatchPlanRequest) (waves : JsMap String String) : List PatchPlanHost :=
  req.hosts.map (planHost req waves)

/-- The hosts of one key run the same command and restart or not alike. -/
theorem mem_byKey {k : Text} {rows : List PatchPlanHost}
    (h : (k, rows) ∈ (byKey (rowsOf req waves)).entries) :
    ∃ manager cmd reboot, patchCommandFor manager req.scope req.withSudo = .ok cmd ∧
      k = jobKey manager reboot ∧ rows ≠ [] ∧ rows.Sublist (rowsOf req waves) ∧
      ∀ row ∈ rows, row.excluded = none ∧ row.packageManager = some manager ∧
        row.command = some cmd.command ∧ row.reboot = reboot := by
  obtain ⟨hrows, hne⟩ := JsMap.mem_groupBy h
  have hsub : rows.Sublist (rowsOf req waves) := by
    rw [hrows]
    exact List.filter_sublist.trans List.filter_sublist
  have hspec : ∀ row ∈ rows, ∃ manager cmd, patchCommandFor manager req.scope req.withSudo = .ok cmd ∧
      row.excluded = none ∧ row.packageManager = some manager ∧ row.command = some cmd.command ∧
      k = jobKey manager row.reboot := by
    intro row hrow
    rw [hrows, List.mem_filter, List.mem_filter, decide_eq_true_eq] at hrow
    obtain ⟨⟨hmem, hkept⟩, hkey⟩ := hrow
    obtain ⟨host, -, rfl⟩ := List.mem_map.mp hmem
    rw [isKept_planHost] at hkept
    obtain ⟨reason, hout⟩ | ⟨manager, cmd, hcmd, hin, hmanager, hcommand⟩ :=
      planHost_cases req waves host
    · rw [hout] at hkept
      cases hkept
    · refine ⟨manager, cmd, hcmd, hin, hmanager, hcommand, ?_⟩
      rw [← hkey, PatchPlanHost.key, hmanager]
  obtain ⟨first, rest, rfl⟩ := List.exists_cons_of_ne_nil hne
  obtain ⟨manager, cmd, hcmd, -, -, -, hk⟩ := hspec first List.mem_cons_self
  refine ⟨manager, cmd, first.reboot, hcmd, hk, hne, hsub, fun row hrow => ?_⟩
  obtain ⟨manager', cmd', hcmd', hin, hmanager, hcommand, hk'⟩ := hspec row hrow
  obtain ⟨rfl, hreboot⟩ := jobKey_injective (hk'.symm.trans hk)
  obtain rfl := Except.ok.inj (hcmd'.symm.trans hcmd)
  exact ⟨hin, hmanager, hcommand, hreboot⟩

theorem planJob_of_mem {k : Text} {rows : List PatchPlanHost}
    (h : (k, rows) ∈ (byKey (rowsOf req waves)).entries) :
    ∃ job, planJob req k rows = some job ∧ job.targets = rows.map PatchPlanHost.target ∧
      ∀ row ∈ rows, row.excluded = none ∧ ∃ command, row.command = some command ∧
        job.spec.steps = stepsOf req command row.reboot := by
  obtain ⟨manager, cmd, reboot, hcmd, rfl, hne, -, hrows⟩ := mem_byKey h
  obtain ⟨first, rest, rfl⟩ := List.exists_cons_of_ne_nil hne
  have hmanager := (hrows first List.mem_cons_self).2.1
  unfold planJob
  simp only [List.head?_cons, Option.bind_some, hmanager, hcmd, isSuffixOf_jobKey]
  refine ⟨_, rfl, rfl, fun row hrow => ?_⟩
  obtain ⟨hin, -, hcommand, hreboot⟩ := hrows row hrow
  refine ⟨hin, cmd.command, hcommand, ?_⟩
  rw [hreboot]
  rfl

theorem mem_jobs {job : PatchJobPlan}
    (h : job ∈ (byKey (rowsOf req waves)).entries.filterMap fun e => planJob req e.1 e.2) :
    ∃ rows : List PatchPlanHost, rows.Sublist (rowsOf req waves) ∧
      job.targets = rows.map PatchPlanHost.target ∧ ∀ row ∈ rows, row.excluded = none ∧
        ∃ command, row.command = some command ∧ job.spec.steps = stepsOf req command row.reboot := by
  obtain ⟨⟨k, rows⟩, hmem, hplan⟩ := List.mem_filterMap.mp h
  obtain ⟨job', hjob', htargets, hsteps⟩ := planJob_of_mem hmem
  obtain rfl := Option.some.inj (hjob'.symm.trans hplan)
  obtain ⟨-, -, -, -, -, -, hsub, -⟩ := mem_byKey hmem
  exact ⟨rows, hsub, htargets, hsteps⟩

/-- The targets of all jobs are those of the rows that are not left out. -/
theorem flatMap_targets (req : PatchPlanRequest) (waves : JsMap String String) :
    (((byKey (rowsOf req waves)).entries.filterMap fun e => planJob req e.1 e.2).flatMap
        PatchJobPlan.targets).Perm
      (((rowsOf req waves).filter PatchPlanHost.isKept).map PatchPlanHost.target) := by
  have htargets : ∀ entries ⊆ (byKey (rowsOf req waves)).entries,
      (entries.filterMap fun e => planJob req e.1 e.2).flatMap PatchJobPlan.targets =
        (entries.flatMap Prod.snd).map PatchPlanHost.target := by
    intro entries hsub
    induction entries with
    | nil => rfl
    | cons e entries ih =>
      obtain ⟨job, hjob, htargets, -⟩ := planJob_of_mem (hsub List.mem_cons_self)
      have hcons : ((e :: entries).filterMap fun e => planJob req e.1 e.2) =
          job :: entries.filterMap fun e => planJob req e.1 e.2 := List.filterMap_cons_some hjob
      rw [hcons, List.flatMap_cons, htargets, List.flatMap_cons, List.map_append,
        ih fun e he => hsub (List.mem_cons_of_mem _ he)]
  rw [htargets _ (List.Subset.refl _)]
  exact (JsMap.groupBy_perm _ _).map _

end Jobs

/-! ## The plan -/

/-- What a plan is to be for the waves it was made with. -/
structure Planned (req : PatchPlanRequest) (waves : List PatchWave) (plan : PatchPlan) : Prop where
  concat : waves.flatMap PatchWave.hosts = req.hosts.map PatchHost.waveHost
  nonempty : ∀ w ∈ waves, w.hosts ≠ []
  small : ∀ q, req.waveSize = .finite q → 0 < q → ∀ w ∈ waves, (w.hosts.length : ℚ) ≤ max 1 q
  rows : plan.hosts.map PatchPlanHost.serverId = req.hosts.map PatchHost.serverId
  once : (plan.excluded.map Excluded.serverId ++
    plan.jobs.flatMap fun job => job.targets.map (·.serverId)).Perm
      (req.hosts.map PatchHost.serverId)
  leftOut : (plan.excluded.map Excluded.serverId).Sublist (req.hosts.map PatchHost.serverId)
  targets : ∀ job ∈ plan.jobs, job.targets.Sublist (wavesToTargets waves)
  steps : ∀ job ∈ plan.jobs, ∀ t ∈ job.targets, ∃ row ∈ plan.hosts, row.serverId = t.serverId ∧
    row.excluded = none ∧ ∃ command, row.command = some command ∧
      job.spec.steps = stepsOf req command row.reboot

section Targets
variable {req : PatchPlanRequest} {waves : List PatchWave}

/-- Every row is in the wave its host is in. -/
theorem rows_target (hids : (req.hosts.map PatchHost.serverId).Nodup)
    (hconcat : waves.flatMap PatchWave.hosts = req.hosts.map PatchHost.waveHost) :
    (rowsOf req (waveOf waves)).map PatchPlanHost.target = wavesToTargets waves := by
  let placed := waves.flatMap fun w => w.hosts.map fun h => (h, w.name)
  have hfst : placed.map Prod.fst = req.hosts.map PatchHost.waveHost := by
    rw [← hconcat]
    simp only [placed, List.map_flatMap, List.map_map]
    congr 1
    funext w
    exact List.map_id _
  have hwaves : waveOf waves = JsMap.ofList (placed.map fun p => (p.1.serverId, p.2)) := by
    simp only [waveOf, placed, List.map_flatMap, List.map_map]
    rfl
  have hnodup : ((placed.map fun p => (p.1.serverId, p.2)).map Prod.fst).Nodup := by
    have hkeys : (placed.map fun p => (p.1.serverId, p.2)).map Prod.fst =
        req.hosts.map PatchHost.serverId := by
      rw [List.map_map, show (Prod.fst ∘ fun p : WaveHost × String => (p.1.serverId, p.2)) =
        WaveHost.serverId ∘ Prod.fst from rfl, ← List.map_map, hfst, List.map_map]
      rfl
    rwa [hkeys]
  have htarget : (rowsOf req (waveOf waves)).map PatchPlanHost.target =
      (placed.map Prod.fst).map fun h =>
        targetRef h (((waveOf waves).get h.serverId).getD (waveName 0)) := by
    rw [hfst, rowsOf, List.map_map, List.map_map]
    refine List.map_congr_left fun h _ => ?_
    obtain ⟨hid, hname, -, hwave⟩ := planHost_named req (waveOf waves) h
    simp only [Function.comp_apply, PatchPlanHost.target, hid, hname, hwave, PatchHost.waveHost]
  have hplaced : wavesToTargets waves = placed.map fun p => targetRef p.1 p.2 := by
    simp only [wavesToTargets, placed, List.map_flatMap, List.map_map]
    rfl
  rw [htarget, hplaced, List.map_map]
  refine List.map_congr_left fun p hp => ?_
  have hget := JsMap.get_ofList_of_mem hnodup (List.mem_map_of_mem (f := fun p : WaveHost × String =>
    (p.1.serverId, p.2)) hp)
  simp only [Function.comp_apply, hwaves, hget, Option.getD_some]

theorem rows_serverId (req : PatchPlanRequest) (m : JsMap String String) :
    (rowsOf req m).map PatchPlanHost.serverId = req.hosts.map PatchHost.serverId := by
  rw [rowsOf, List.map_map]
  exact List.map_congr_left fun h _ => (planHost_named req m h).1

theorem out_serverId (rows : List PatchPlanHost) :
    (rows.filterMap PatchPlanHost.out).map Excluded.serverId =
      (rows.filter fun row => row.excluded.isSome).map PatchPlanHost.serverId := by
  induction rows with
  | nil => rfl
  | cons row rows ih =>
    cases hout : row.excluded with
    | none =>
      rw [List.filterMap_cons_none (by rw [PatchPlanHost.out, hout]; rfl),
        List.filter_cons_of_neg (by simp [hout]), ih]
    | some reason =>
      rw [List.filterMap_cons_some (b := ⟨row.serverId, row.serverName, reason⟩)
        (by rw [PatchPlanHost.out, hout]; rfl), List.filter_cons_of_pos (by simp [hout]),
        List.map_cons, List.map_cons, ih]

theorem filter_isKept (req : PatchPlanRequest) (m : JsMap String String) :
    (rowsOf req m).filter PatchPlanHost.isKept =
      (rowsOf req m).filter fun row => !row.excluded.isSome := by
  refine List.filter_congr fun row hrow => ?_
  obtain ⟨h, -, rfl⟩ := List.mem_map.mp hrow
  exact isKept_planHost req m h

end Targets

theorem stride_small (count : Nat) {q : ℚ} (hq : 0 < q) :
    ∃ n, stride count (.finite q) = some n ∧ (n : ℚ) ≤ q :=
  ⟨⌊q⌋₊, by rw [stride, if_pos hq], Nat.floor_le hq.le⟩

theorem planned (topology : Topology) {req : PatchPlanRequest}
    (hids : (req.hosts.map PatchHost.serverId).Nodup) {fuel : Nat} {waves : List PatchWave}
    (hwaves : planWaves fuel (req.hosts.map PatchHost.waveHost) req.waveSize = some waves)
    (hsplit : Split (req.hosts.map PatchHost.waveHost)
      (stride (req.hosts.map PatchHost.waveHost).length req.waveSize) waves) :
    ∃ plan, planPatch topology req fuel = some plan ∧ Planned req waves plan := by
  unfold planPatch
  rw [hwaves, Option.map_some]
  refine ⟨_, rfl, ?_⟩
  constructor
  case concat => exact hsplit.concat
  case nonempty => exact hsplit.nonempty
  case small =>
    intro q hsize hq w hw
    rw [hsize] at hsplit
    obtain ⟨n, hn, hle⟩ := stride_small (req.hosts.map PatchHost.waveHost).length hq
    have hlen : (w.hosts.length : ℚ) ≤ n := by exact_mod_cast hsplit.small n hn w hw
    exact (hlen.trans hle).trans (le_max_right _ _)
  case rows => exact rows_serverId req (waveOf waves)
  case once =>
    have htargets : ((byKey (rowsOf req (waveOf waves))).entries.filterMap fun e =>
        planJob req e.1 e.2).flatMap (fun job => job.targets.map (·.serverId)) =
        (((byKey (rowsOf req (waveOf waves))).entries.filterMap fun e =>
          planJob req e.1 e.2).flatMap PatchJobPlan.targets).map (·.serverId) :=
      (List.map_flatMap ..).symm
    have hkept := (flatMap_targets req (waveOf waves)).map (·.serverId)
    rw [List.map_map, filter_isKept] at hkept
    have hperm := (List.filter_append_perm (fun row => row.excluded.isSome)
      (rowsOf req (waveOf waves))).map PatchPlanHost.serverId
    rw [List.map_append, rows_serverId] at hperm
    have hout := out_serverId (rowsOf req (waveOf waves))
    rw [← hout] at hperm
    refine List.Perm.trans ?_ hperm
    exact htargets ▸ hkept.append_left _
  case leftOut =>
    have hout := out_serverId (rowsOf req (waveOf waves))
    refine hout ▸ ?_
    rw [← rows_serverId req (waveOf waves)]
    exact List.filter_sublist.map _
  case targets =>
    intro job hjob
    obtain ⟨rows, hsub, htargets, -⟩ := mem_jobs hjob
    rw [htargets, ← rows_target hids hsplit.concat]
    exact hsub.map _
  case steps =>
    intro job hjob t ht
    obtain ⟨rows, hsub, htargets, hsteps⟩ := mem_jobs hjob
    rw [htargets] at ht
    obtain ⟨row, hrow, rfl⟩ := List.mem_map.mp ht
    obtain ⟨hin, command, hcommand, heq⟩ := hsteps row hrow
    exact ⟨row, hsub.subset hrow, rfl, hin, command, hcommand, heq⟩

/-- With distinct ids a plan is made, and every host is planned once, exactly if the size of a wave is
not rounded down to nothing. -/
theorem planPatch_iff (topology : Topology) (req : PatchPlanRequest)
    (hids : (req.hosts.map PatchHost.serverId).Nodup) :
    (∃ bound, ∀ fuel ≥ bound, ∃ waves plan,
        planWaves fuel (req.hosts.map PatchHost.waveHost) req.waveSize = some waves ∧
          planPatch topology req fuel = some plan ∧ Planned req waves plan) ↔
      (req.hosts = [] ∨ ¬ ∃ q, req.waveSize = .finite q ∧ 0 < q ∧ q < 1) := by
  constructor
  · rintro ⟨bound, hplan⟩
    obtain ⟨waves, plan, hwaves, -⟩ := hplan bound (Nat.le_refl bound)
    by_contra hcond
    rw [not_or, not_not] at hcond
    have hne : req.hosts.map PatchHost.waveHost ≠ [] := by simpa using hcond.1
    rw [planWaves_stuck hne hcond.2] at hwaves
    cases hwaves
  · intro hcond
    refine ⟨req.hosts.length, fun fuel hfuel => ?_⟩
    have hsize : req.hosts.map PatchHost.waveHost = [] ∨ ¬ isFraction req.waveSize :=
      hcond.imp_left fun h => by rw [h]; rfl
    obtain ⟨waves, hwaves, hsplit⟩ := planWaves_split hsize
      (show (req.hosts.map PatchHost.waveHost).length ≤ fuel by simpa using hfuel)
    obtain ⟨plan, hplan, hplanned⟩ := planned topology hids hwaves hsplit
    exact ⟨waves, plan, hwaves, hplan, hplanned⟩

/-- Three hosts, one with no package manager, two at a time. -/
def threeHosts (waveSize : Number) : PatchPlanRequest where
  scope := .all
  hosts := [⟨"a", "web", some .apt⟩, ⟨"b", "box", none⟩, ⟨"c", "db", some .apt⟩]
  waveSize := waveSize
  reboot := true
  healthGate := false
  rebootWanted := some (· = "c")
  withSudo := none

def noTopology : Topology := ⟨fun _ => [], fun _ => none, none⟩

theorem planPatch_iff_threeHosts :
    (∃ bound, ∀ fuel ≥ bound, ∃ waves plan,
        planWaves fuel ((threeHosts (.finite 2)).hosts.map PatchHost.waveHost) (.finite 2) =
            some waves ∧
          planPatch noTopology (threeHosts (.finite 2)) fuel = some plan ∧
          Planned (threeHosts (.finite 2)) waves plan) ↔
      ((threeHosts (.finite 2)).hosts = [] ∨ ¬ ∃ q, Number.finite 2 = .finite q ∧ 0 < q ∧ q < 1) :=
  planPatch_iff noTopology (threeHosts (.finite 2)) (by decide)

/-- Half a host at a time: the loop never ends. -/
theorem planPatch_endless :
    ¬ ∀ topology req, (req.hosts.map PatchHost.serverId).Nodup →
      ∃ bound, ∀ fuel ≥ bound, ∃ waves plan,
        planWaves fuel (req.hosts.map PatchHost.waveHost) req.waveSize = some waves ∧
          planPatch topology req fuel = some plan ∧ Planned req waves plan := by
  intro hall
  obtain ⟨bound, hplan⟩ := hall noTopology (threeHosts (.finite (1 / 2))) (by decide)
  obtain ⟨waves, plan, hwaves, -⟩ := hplan bound (Nat.le_refl bound)
  have hstuck := planWaves_stuck
    (show (threeHosts (.finite (1 / 2))).hosts.map PatchHost.waveHost ≠ [] by decide)
    ⟨1 / 2, rfl, by norm_num, by norm_num⟩ bound
  cases hstuck.symm.trans hwaves

end OpsMaxx.Patch
