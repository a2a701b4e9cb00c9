import OpsMaxx.Backup.Plan
import OpsMaxx.Backup.Runs

/-!
# A run never eats a good backup

As long as the name of a run is free at the destination and few enough generations there have a later
time, whatever fails.
-/

set_option autoImplicit false

namespace OpsMaxx.Backup
open OpsMaxx.Store OpsMaxx.Strings OpsMaxx.Machine

/-! ## The destination -/

theorem get_remove_ne {c : Content} {name n : Text} (h : n ≠ name) (r : Removal) :
    (remove c name r).get n = c.get n := by
  cases r with
  | done => exact JsMap.get_delete_ne c h
  | threw took =>
    cases took with
    | true => exact JsMap.get_delete_ne c h
    | false => rfl

theorem get_put_ne {c : Content} {name n : Text} (h : n ≠ name) (bytes : Bytes) (p : Put) :
    (put c name bytes p).get n = c.get n := by
  cases p with
  | done modified => exact JsMap.get_set_ne c _ h
  | threw took =>
    cases took with
    | some modified => exact JsMap.get_set_ne c _ h
    | none => rfl

theorem removeAll_get {n : Text} (removals : ℕ → Removal) (c : Content) {names : List Text}
    (h : n ∉ names) : (removeAll removals c names).1.get n = c.get n := by
  induction names generalizing removals c with
  | nil => rfl
  | cons name rest ih =>
    rw [List.mem_cons, not_or] at h
    unfold removeAll
    cases removals 0 with
    | done => exact (ih _ _ h.2).trans (JsMap.get_delete_ne c h.1)
    | threw took => exact get_remove_ne h.1 _

theorem list_names (c : Content) : (withNameTimes (list c)).map BackupGeneration.name = c.keys := by
  unfold withNameTimes list JsMap.keys
  rw [List.map_map, List.map_map]
  apply List.map_congr_left
  intro e _
  simp only [Function.comp_apply]
  cases backupObjectTime e.1 <;> rfl

/-! ## What a run is to do -/

/-- What the claims of a backup rest on: a run that says it went well leaves what it wrote and read back; one
that fails before retention leaves every generation as it was; retention takes only names of ours, and never
all; and nothing that was there goes or changes except by its plan. -/
structure Safe (o : RunOptions) (out : Outcome) : Prop where
  kept : out.report.ok = true → out.report.verified = true ∧ ∃ bytes stored, o.bundle = some bytes ∧
    out.after.get (backupObjectName o.now) = some stored ∧ stored.bytes = bytes
  early : ∀ stage, out.report.failedStage = some stage → stage ≠ .retention → ∀ name stored,
    isBackupObjectName name = true → out.before.get name = some stored → out.after.get name = some stored
  ours : ∀ plan, out.plan = some plan → (∀ g ∈ plan.remove, isBackupObjectName g.name = true) ∧
    (plan.remove ≠ [] → ∃ g ∈ plan.keep, isBackupObjectName g.name = true ∧ out.after.has g.name = true)
  planned : ∀ name stored, out.before.get name = some stored → out.after.get name ≠ some stored →
    ∃ plan, out.plan = some plan ∧ name ∈ plan.remove.map BackupGeneration.name

/-- The generation a run writes, as retention will see it. -/
def written (o : RunOptions) : BackupGeneration := ⟨backupObjectName o.now, 0, secondOf o.now⟩

/-- The name is free, and fewer generations than the limit come before it. -/
def Room (o : RunOptions) (c : Content) : Prop :=
  c.get (backupObjectName o.now) = none ∧
    (isBackupObjectName (backupObjectName o.now) = true →
      ∀ k, o.dest.keep.filter (fun k => !decide (k ≤ 0)) = some k →
        (oursOf (withNameTimes (list c))).countP (fun g => decide (NewerFirst g (written o)) &&
          decide (g.name ≠ backupObjectName o.now)) < ⌊max 1 k⌋.toNat)

/-- If the run comes to write. -/
def Clear (o : RunOptions) (c : Content) : Prop :=
  MIN_PASSPHRASE ≤ units o.password → o.bundle.isSome → o.weather.opens = true → Room o c

/-! ## One run -/

section Run
variable {o : RunOptions} {c : Content}

theorem safe_of_failed {out : Outcome} (hok : out.report.ok = false) (hplan : out.plan = none)
    (hkeep : ∀ name stored, out.before.get name = some stored → out.after.get name = some stored) :
    Safe o out where
  kept h := by
    rw [hok] at h
    cases h
  early _ _ _ name stored _ h := hkeep name stored h
  ours plan h := by
    rw [hplan] at h
    cases h
  planned name stored h hne := absurd (hkeep name stored h) hne

theorem kept_beside {name n : Text} {stored : Stored} (hfree : c.get name = none)
    (h : c.get n = some stored) : n ≠ name := by
  intro heq
  rw [heq, hfree] at h
  cases h

theorem safe_discarded (hfree : c.get (backupObjectName o.now) = none) (bytes : Bytes) (p : Put)
    (report : BackupRunReport) (stage : BackupStage) :
    Safe o ⟨c, discard (put c (backupObjectName o.now) bytes p) (backupObjectName o.now) o.weather,
      fail report stage, none⟩ := by
  apply safe_of_failed rfl rfl
  intro n stored h
  have hne := kept_beside hfree h
  exact (get_remove_ne hne _).trans ((get_put_ne hne _ _).trans h)

theorem withNameTimes_append (l l' : List BackupGeneration) :
    withNameTimes (l ++ l') = withNameTimes l ++ withNameTimes l' := List.map_append

theorem list_set_new {name : Text} {stored : Stored} (hfree : c.get name = none) :
    list (c.set name stored) = list c ++ [⟨name, stored.bytes.length, stored.modified⟩] := by
  unfold list
  rw [c.entries_set_new stored hfree, List.map_append]
  rfl

/-- The plan leaves the name of the run, if there is room for it. -/
theorem room_for_written (hroom : Room o c) (stored : Stored) :
    backupObjectName o.now ∉ (planRetention (withNameTimes
      (list (c.set (backupObjectName o.now) stored))) o.dest.keep).remove.map BackupGeneration.name := by
  by_cases hours : isBackupObjectName (backupObjectName o.now) = true
  · have hyear : 0 ≤ o.now.year ∧ o.now.year ≤ 9999 := by
      by_contra hyear
      rw [not_ours_of_year hyear] at hours
      cases hours
    have hlist : withNameTimes (list (c.set (backupObjectName o.now) stored)) =
        withNameTimes (list c) ++ [⟨backupObjectName o.now, stored.bytes.length, secondOf o.now⟩] := by
      rw [list_set_new hroom.1, withNameTimes_append]
      unfold withNameTimes
      rw [List.map_singleton]
      simp only [backupObjectTime_name hyear]
    have hnodup : ((withNameTimes (list (c.set (backupObjectName o.now) stored))).map
        BackupGeneration.name).Nodup := by
      rw [list_names]
      exact (c.set _ stored).nodup
    have hmem : ⟨backupObjectName o.now, stored.bytes.length, secondOf o.now⟩ ∈
        withNameTimes (list (c.set (backupObjectName o.now) stored)) := by
      rw [hlist]
      exact List.mem_append_right _ (List.mem_singleton_self _)
    apply not_removed_of_countP hnodup hmem
    intro k hk
    have hself : (oursOf [⟨backupObjectName o.now, stored.bytes.length, secondOf o.now⟩]).countP
        (fun g => decide (NewerFirst g ⟨backupObjectName o.now, stored.bytes.length, secondOf o.now⟩) &&
          decide (g.name ≠ backupObjectName o.now)) = 0 := by
      rw [List.countP_eq_zero]
      intro g hg
      obtain rfl := List.mem_singleton.mp (List.mem_of_mem_filter hg)
      simp
    have hsplit : oursOf (withNameTimes (list (c.set (backupObjectName o.now) stored))) =
        oursOf (withNameTimes (list c)) ++
          oursOf [⟨backupObjectName o.now, stored.bytes.length, secondOf o.now⟩] := by
      rw [hlist]
      exact List.filter_append _ _
    rw [hsplit, List.countP_append, hself]
    exact hroom.2 hours k hk
  · intro hmem
    obtain ⟨g, hg, hname⟩ := List.mem_map.mp hmem
    have hperm := (plan_parts (withNameTimes (list (c.set (backupObjectName o.now) stored)))
      o.dest.keep).1
    have hin := hperm.subset (List.mem_append_right _ hg)
    have hg' := (List.mem_filter.mp hin).2
    rw [hname] at hg'
    exact hours hg'

theorem safe_retention (hroom : Room o c) {bytes : Bytes} (hbundle : o.bundle = some bytes)
    (modified : ℤ) {report : BackupRunReport} (hverified : report.verified = true)
    (hstage : report.failedStage = none) :
    Safe o (retention o c (c.set (backupObjectName o.now) ⟨bytes, modified⟩) report) := by
  have hbeside : ∀ n stored, c.get n = some stored →
      (c.set (backupObjectName o.now) ⟨bytes, modified⟩).get n = some stored := fun n stored h =>
    (JsMap.get_set_ne c _ (kept_beside hroom.1 h)).trans h
  unfold retention
  cases o.weather.lists with
  | false => exact safe_of_failed rfl rfl hbeside
  | true =>
    rw [if_pos rfl]
    unfold carryOut
    generalize hplan : planRetention (withNameTimes (list (c.set (backupObjectName o.now)
      ⟨bytes, modified⟩))) o.dest.keep = plan
    have hown : backupObjectName o.now ∉ plan.remove.map BackupGeneration.name :=
      hplan ▸ room_for_written hroom ⟨bytes, modified⟩
    obtain ⟨hperm, hsome⟩ := hplan ▸ plan_parts (withNameTimes (list (c.set (backupObjectName o.now)
      ⟨bytes, modified⟩))) o.dest.keep
    have hleft : ∀ n, n ∉ plan.remove.map BackupGeneration.name →
        (removeAll o.weather.removals (c.set (backupObjectName o.now) ⟨bytes, modified⟩)
          (plan.remove.map BackupGeneration.name)).1.get n =
        (c.set (backupObjectName o.now) ⟨bytes, modified⟩).get n := fun n hn =>
      removeAll_get _ _ hn
    have hours : ∀ g ∈ plan.remove, isBackupObjectName g.name = true := fun g hg =>
      (List.mem_filter.mp (hperm.subset (List.mem_append_right _ hg))).2
    have hkept : plan.remove ≠ [] → ∃ g ∈ plan.keep, isBackupObjectName g.name = true ∧
        (removeAll o.weather.removals (c.set (backupObjectName o.now) ⟨bytes, modified⟩)
          (plan.remove.map BackupGeneration.name)).1.has g.name = true := by
      intro hne
      obtain ⟨g, hg⟩ := List.exists_mem_of_ne_nil _ (hsome hne)
      have hin := List.mem_filter.mp (hperm.subset (List.mem_append_left _ hg))
      refine ⟨g, hg, hin.2, ?_⟩
      have hnodup : ((plan.keep ++ plan.remove).map BackupGeneration.name).Nodup := by
        rw [(hperm.map _).nodup_iff]
        refine List.Nodup.sublist (List.filter_sublist.map _) ?_
        rw [list_names]
        exact (c.set _ _).nodup
      rw [List.map_append] at hnodup
      have hnot : g.name ∉ plan.remove.map BackupGeneration.name := fun hmem =>
        (List.nodup_append.mp hnodup).2.2 _ (List.mem_map_of_mem hg) _ hmem rfl
      unfold JsMap.has
      rw [hleft _ hnot, ← JsMap.mem_keys_iff, ← list_names]
      exact List.mem_map_of_mem hin.1
    have hplanned : ∀ n stored, c.get n = some stored →
        (removeAll o.weather.removals (c.set (backupObjectName o.now) ⟨bytes, modified⟩)
          (plan.remove.map BackupGeneration.name)).1.get n ≠ some stored →
        ∃ plan', some plan = some plan' ∧ n ∈ plan'.remove.map BackupGeneration.name := by
      intro n stored h hne
      refine ⟨plan, rfl, ?_⟩
      by_contra hnot
      exact hne ((hleft n hnot).trans (hbeside n stored h))
    have hafter := hleft _ hown
    generalize removeAll o.weather.removals (c.set (backupObjectName o.now) ⟨bytes, modified⟩)
      (plan.remove.map BackupGeneration.name) = swept at hkept hplanned hafter ⊢
    obtain ⟨after, removed, through⟩ := swept
    cases through with
    | true =>
      refine ⟨fun _ => ⟨hverified, bytes, ⟨bytes, modified⟩, hbundle, ?_, rfl⟩, fun stage h => ?_, ?_, hplanned⟩
      · rw [hafter]
        exact JsMap.get_set_self c _ _
      · rw [hstage] at h
        cases h
      · intro plan' h
        obtain rfl := Option.some.inj h
        exact ⟨hours, hkept⟩
    | false =>
      refine ⟨fun h => absurd h Bool.false_ne_true, fun stage h hne => ?_, ?_, hplanned⟩
      · exact absurd (Option.some.inj h).symm hne
      · intro plan' h
        obtain rfl := Option.some.inj h
        exact ⟨hours, hkept⟩

theorem safe_run (h : Clear o c) : Safe o (runBackupToDestination o c) := by
  unfold runBackupToDestination
  by_cases hpass : units o.password < MIN_PASSPHRASE
  · rw [if_pos hpass]
    exact safe_of_failed rfl rfl fun _ _ h => h
  · rw [if_neg hpass]
    cases hbundle : o.bundle with
    | none => exact safe_of_failed rfl rfl fun _ _ h => h
    | some bytes =>
      simp only
      cases hopens : o.weather.opens with
      | false => exact safe_of_failed rfl rfl fun _ _ h => h
      | true =>
        have hroom := h (not_lt.mp hpass) (by rw [hbundle]; rfl) hopens
        rw [if_pos rfl]
        cases o.weather.put with
        | threw took => exact safe_discarded hroom.1 bytes (.threw took) _ _
        | done modified =>
          simp only
          unfold checkWritten
          cases get (put c (backupObjectName o.now) bytes (.done modified)) (backupObjectName o.now)
              o.weather.get with
          | none => exact safe_discarded hroom.1 bytes (.done modified) _ _
          | some readBack =>
            simp only
            split_ifs
            · exact safe_discarded hroom.1 bytes (.done modified) _ _
            · exact safe_retention hroom hbundle modified rfl rfl
            · exact safe_discarded hroom.1 bytes (.done modified) _ _
            · exact safe_retention hroom hbundle modified rfl rfl

end Run

/-! ## Runs of any number of machines -/

structure World where
  content : Content
  log : List (RunOptions × Outcome)

def World.step (w : World) (o : RunOptions) : Option World :=
  let out := runBackupToDestination o w.content
  some ⟨out.after, w.log ++ [(o, out)]⟩

/-- Whatever was at the destination, if every run finds its name free and room for it, every run is
safe. -/
theorem clear_runs_are_safe {c : Content} {os : List RunOptions} {w : World}
    (hrun : Run World.step (fun v o => Clear o v.content) ⟨c, []⟩ os w) :
    ∀ entry ∈ w.log, Safe entry.1 entry.2 := by
  refine hrun.invariant (I := fun v => ∀ entry ∈ v.log, Safe entry.1 entry.2) ?_ ?_
  · intro entry h
    cases h
  · intro v o v' hsafe hclear hstep entry hentry
    obtain rfl := Option.some.inj hstep
    rcases List.mem_append.mp hentry with hentry | hentry
    · exact hsafe entry hentry
    · obtain rfl := List.mem_singleton.mp hentry
      exact safe_run hclear

def newYear (year : ℤ) : Date where
  year := year
  month := 1
  day := 1
  hour := 0
  minute := 0
  second := 0
  millis := 0
  month_valid := by decide
  day_valid := by decide
  time_valid := by decide

/-- A machine that keeps one generation, on a day when nothing fails. -/
def machineAt (now : Date) : RunOptions where
  dest := ⟨some 1, false⟩
  password := "correct horse battery".toList
  now := now
  bundle := some [97]
  restoreTest := none
  sha256 _ := "ca978112ca1bbdcafac231b39a23dc4da786eff8147c4e72b9807785afee48bb".toList
  verifyBundle _ _ := false
  weather := ⟨true, .done 0, .done, true, fun _ => .done⟩

theorem limit_machineAt {now : Date} {k : ℚ}
    (h : (machineAt now).dest.keep.filter (fun k => !decide (k ≤ 0)) = some k) : k = 1 :=
  (Option.some.inj (Option.filter_eq_some_iff.mp h).1).symm

/-- Two machines whose clocks agree. -/
theorem clear_runs_are_safe_in_turn : ∃ w,
    Run World.step (fun v o => Clear o v.content) ⟨.empty, []⟩
      [machineAt (newYear 2026), machineAt (newYear 2027)] w ∧
    ∀ entry ∈ w.log, Safe entry.1 entry.2 := by
  have h₀ : Run World.step (fun v o => Clear o v.content) ⟨.empty, []⟩ [] ⟨.empty, []⟩ := .refl _
  have h₁ := h₀.next (m := machineAt (newYear 2026)) (fun _ _ _ => ⟨by decide +kernel, fun _ k hk => by
    rw [limit_machineAt hk]
    decide +kernel⟩) rfl
  have h₂ := h₁.next (m := machineAt (newYear 2027)) (fun _ _ _ => ⟨by decide +kernel, fun _ k hk => by
    rw [limit_machineAt hk]
    decide +kernel⟩) rfl
  exact ⟨_, h₂, clear_runs_are_safe h₂⟩

/-- After a machine whose clock is ahead, a run reports what it has just deleted. -/
theorem reported_backup_is_gone : ∃ w,
    Run World.step (fun _ _ => True) ⟨.empty, []⟩
      [machineAt (newYear 2027), machineAt (newYear 2026)] w ∧
    ∃ entry ∈ w.log, ¬Safe entry.1 entry.2 := by
  refine ⟨_, ((Run.refl _).next trivial rfl).next trivial rfl, _, List.mem_append_right _
    (List.mem_singleton_self _), fun hs => ?_⟩
  obtain ⟨_, bytes, stored, _, hget, _⟩ := hs.kept (by decide +kernel)
  have hgone : (runBackupToDestination (machineAt (newYear 2026))
      (runBackupToDestination (machineAt (newYear 2027)) .empty).after).after.get
        (backupObjectName (newYear 2026)) = none := by decide +kernel
  exact absurd (hgone.symm.trans hget) (by simp)

end OpsMaxx.Backup
