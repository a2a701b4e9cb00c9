import OpsMaxx.Rules.Steps

/-!
# A job for an alert, once

A rule's job is on disk, as a watermark past its row, when the row ends. A process that dies before
that reads the row again and runs the job again; where no process does, no job runs twice.
-/

set_option autoImplicit false

namespace OpsMaxx.Rules

open OpsMaxx OpsMaxx.Store

/-! ## The condition -/

/-- Whether a job has been started on the row in hand, which the file does not have yet. -/
def World.jobInHand (w : World) : Bool :=
  match w.phase.sweep? with
  | none => false
  | some s => w.jobs.any fun j => j.2 = s.row.cursor

/-- The process does not die with a job in hand. -/
def diesBetweenRows (w : World) : Move → Bool
  | .crash => !w.jobInHand
  | _ => true

/-! ## Where the jobs that ran are -/

/-- A job that ran: its row is behind the watermark, or it is the row in hand, the rule is not
visited again on it, and the end of the row will mark it. -/
def World.Past (w : World) (j : String × EventCursor) : Prop :=
  (∃ m, w.engine.watermark = some m ∧ j.2 ≤ m) ∨
  ∃ s, w.phase.sweep? = some s ∧ j.2 = s.row.cursor ∧ j.1 ∉ s.todo ∧
    (w.engine.objects j.1).isSome ∧ (s.acted = true ∨ ∃ id, w.phase = .awaiting s id)

structure World.Once (w : World) : Prop where
  nodup : w.jobs.Nodup
  past : ∀ j ∈ w.jobs, w.Past j

/-- A step that calls no job, where what ran stays in the past. -/
theorem World.Once.of_past {w w' : World} (h : w.Once) (hjobs : w'.jobs = w.jobs)
    (hpast : ∀ j ∈ w.jobs, w.Past j → w'.Past j) : w'.Once := by
  refine ⟨hjobs ▸ h.nodup, fun j hj => ?_⟩
  rw [hjobs] at hj
  exact hpast j hj (h.past j hj)

/-- Ahead of the watermark a rule still to visit the row in hand has run no job on it. -/
theorem World.Once.fresh {w : World} (h : w.Once) (hw : w.Sound) {s : Sweep} {id : String}
    (hs : w.phase.sweep? = some s) (hid : id ∈ s.todo) : (id, s.row.cursor) ∉ w.jobs := by
  intro hin
  obtain ⟨m, hm, hsound⟩ := hw.sweep s hs
  rcases h.past _ hin with ⟨m', hm', hle⟩ | ⟨s', hs', -, hnot, -⟩
  · rw [hm] at hm'
    obtain rfl := Option.some.inj hm'
    exact absurd hsound.ahead (not_lt.mpr hle)
  · rw [hs] at hs'
    obtain rfl := Option.some.inj hs'
    exact hnot hid

theorem World.Past.begins {w w' : World} {j : String × EventCursor} (h : w.Past j)
    (hidle : w.phase = .idle) (hb : w.Begins w') : w'.Past j := by
  rcases h with ⟨m, hm, hle⟩ | ⟨s, hs, -⟩
  · left
    cases hb with
    | closed => exact ⟨m, hm, hle⟩
    | first hnone => rw [hm] at hnone; cases hnone
    | quiet m' hm' =>
      rw [hm] at hm'
      obtain rfl := Option.some.inj hm'
      refine ⟨_, rfl, hle.trans ?_⟩
      have hsince : m.ts ≤ w.since m := le_max_left _ _
      rcases hsince.lt_or_eq with hlt | heq
      · exact (EventCursor.lt_iff.mpr (.inl hlt)).le
      · rw [← heq]
    | rows => exact ⟨m, hm, hle⟩
  · rw [hidle] at hs
    cases hs

theorem World.Past.endRow {w : World} {s : Sweep} {j : String × EventCursor} (h : w.Past j)
    (hw : w.Sound) (hs : w.phase = .walking s) :
    ∃ m, (w.marked s).engine.watermark = some m ∧ j.2 ≤ m ∧ m ≤ s.row.cursor := by
  obtain ⟨m, hm, hsound⟩ := hw.sweep s (by rw [hs]; rfl)
  simp only [w.marked_engine]
  rcases h with ⟨m', hm', hle⟩ | ⟨s', hs', hrow, -, -, hacted⟩
  · rw [hm] at hm'
    obtain rfl := Option.some.inj hm'
    cases s.acted with
    | true => exact ⟨_, rfl, hle.trans hsound.ahead.le, le_rfl⟩
    | false => exact ⟨m, hm, hle, hsound.ahead.le⟩
  · rw [hs] at hs'
    obtain rfl : s = s' := Option.some.inj hs'
    have hacted' : s.acted = true := by
      rcases hacted with hacted | ⟨id, hid⟩
      · exact hacted
      · rw [hs] at hid
        cases hid
    rw [hacted']
    exact ⟨_, rfl, hrow.le, le_rfl⟩

theorem count_acted {s : Sweep} (id : String) (outcome : FireOutcome) (h : s.acted = true) :
    (s.count id outcome).acted = true := by
  cases outcome <;> first | rfl | exact h

theorem settle_acted (s : Sweep) (id : String) (rule : Rule) (error : Option String)
    (status : RuleStatus) :
    (s.count id (settle rule s.row s.now error status).2.2).acted = true := by
  cases error <;> rfl

theorem count_row (s : Sweep) (id : String) (outcome : FireOutcome) :
    (s.count id outcome).row = s.row ∧ (s.count id outcome).todo = s.todo := by
  cases outcome <;> exact ⟨rfl, rfl⟩

section Jobs
variable [Approval]

/-- The rule in hand is off the list it is visited from. -/
theorem World.Once.fireRule {w : World} (h : w.Once) (hw : w.Sound) (servers : List String)
    {s : Sweep} {id : String} {todo : List String} {rule : Rule} (hs : w.phase = .walking s)
    (htodo : s.todo = id :: todo) (hrule : w.engine.objects id = some rule) :
    (w.fireRule servers { s with todo := todo } id rule).Once := by
  have hname : rule.id = id := hw.engine.named id rule hrule
  obtain ⟨m, hm, hsound⟩ := hw.sweep s (by rw [hs]; rfl)
  have hnot : id ∉ todo := (List.nodup_cons.mp (htodo ▸ hsound.nodup)).1
  have hfresh : (id, s.row.cursor) ∉ w.jobs :=
    h.fresh hw (by rw [hs]; rfl) (by rw [htodo]; simp)
  rcases w.fireRule_jobs servers { s with todo := todo } id rule with
    ⟨hphase, hjobs⟩ | ⟨outcome, hphase, hjobs⟩
  · have hold : ∀ j ∈ w.jobs, (w.fireRule servers { s with todo := todo } id rule).Past j := by
      intro j hj
      rcases h.past j hj with hle | ⟨s', hs', hrow, hin, hsome, -⟩
      · exact .inl hle
      · rw [hs] at hs'
        obtain rfl : s = s' := Option.some.inj hs'
        refine .inr ⟨{ s with todo := todo }, by rw [hphase]; rfl, hrow, fun ht => hin ?_, hsome,
          .inr ⟨id, hphase⟩⟩
        rw [htodo]
        exact List.mem_cons_of_mem _ ht
    refine ⟨?_, fun j hj => ?_⟩
    · rw [hjobs, List.nodup_append]
      refine ⟨h.nodup, by simp, ?_⟩
      intro a ha b hb hab
      rw [List.mem_singleton, hname] at hb
      exact hfresh (hb ▸ hab ▸ ha)
    · rw [hjobs, List.mem_append, List.mem_singleton] at hj
      rcases hj with hj | rfl
      · exact hold j hj
      · refine .inr ⟨{ s with todo := todo }, by rw [hphase]; rfl, rfl, ?_, ?_, .inr ⟨id, hphase⟩⟩
        · rw [hname]
          exact hnot
        · change (w.engine.objects rule.id).isSome
          rw [hname, hrule]
          rfl
  · refine h.of_past hjobs fun j hj hpast => ?_
    rcases hpast with hle | ⟨s', hs', hrow, hin, hsome, hacted⟩
    · exact .inl hle
    · rw [hs] at hs'
      obtain rfl : s = s' := Option.some.inj hs'
      obtain ⟨hrow', htodo'⟩ := count_row { s with todo := todo } id outcome
      refine .inr ⟨_, by rw [hphase]; rfl, hrow.trans (congrArg _ hrow'.symm), ?_, hsome, .inl ?_⟩
      · rw [htodo']
        intro ht
        rw [htodo] at hin
        exact hin (List.mem_cons_of_mem _ ht)
      · rcases hacted with hacted | ⟨i, hi⟩
        · exact count_acted id outcome hacted
        · rw [hs] at hi
          cases hi

/-! ## Every step -/

theorem World.Once.does {w w' : World} {m : Move} (h : w.Once) (hw : w.Sound)
    (hok : diesBetweenRows w m = true) (hd : Does w m w') : w'.Once := by
  rcases hd.calls with ⟨-, hjobs, -⟩ | ⟨servers, s, id, todo, rule, -, hs, htodo, hrule, -, rfl⟩
  swap
  · exact h.fireRule hw servers hs htodo hrule
  refine h.of_past hjobs fun j hj hpast => ?_
  cases hd with
  | tick clock => exact hpast
  | openStore => exact hpast
  | append e log hlog => exact hpast
  | sweep hidle hb => exact hpast.begins hidle hb
  | pass servers s id todo hs htodo hno =>
    rcases hpast with hle | ⟨s', hs', hrow, hin, hsome, hacted⟩
    · exact .inl hle
    · rw [hs] at hs'
      obtain rfl : s = s' := Option.some.inj hs'
      refine .inr ⟨{ s with todo := todo }, rfl, hrow, fun ht => hin ?_, hsome, ?_⟩
      · rw [htodo]
        exact List.mem_cons_of_mem _ ht
      · rcases hacted with hacted | ⟨i, hi⟩
        · exact .inl hacted
        · rw [hs] at hi
          cases hi
  | fire servers s id todo rule hs htodo hrule hmatch =>
    rcases hpast with hle | hrow
    · exact .inl hle
    · exact ((h.fireRule hw servers hs htodo hrule).past j (hjobs ▸ hj))
  | nextRow servers s row later hs htodo hlater =>
    obtain ⟨m, hm, hle, -⟩ := hpast.endRow hw hs
    exact .inl ⟨m, hm, hle⟩
  | finish servers s hs htodo hlater =>
    obtain ⟨m, -, hle, hrow⟩ := hpast.endRow hw hs
    exact .inl ⟨s.row.cursor, rfl, hle.trans hrow⟩
  | jobDone error s id rule hs hrule =>
    have hwm := jobDone_engine w s id rule error
    rcases hpast with hle | ⟨s', hs', hrow, hin, hsome, -⟩
    · left
      rw [hwm.1]
      exact hle
    · rw [hs] at hs'
      obtain rfl : s = s' := Option.some.inj hs'
      obtain ⟨hrow', htodo'⟩ := count_row s id
        (settle rule s.row s.now error (w.engine.statusFor id)).2.2
      refine .inr ⟨_, rfl, hrow.trans (congrArg _ hrow'.symm), ?_, ?_, .inl (settle_acted ..)⟩
      · rw [htodo']
        exact hin
      · rw [hwm.2.1]
        exact hsome
  | create draft newId checked hchecked hnew =>
    rcases hpast with ⟨m, hm, hle⟩ | ⟨s, hs, hrow, hin, hsome, hacted⟩
    · exact .inl ⟨m, by simp [RuleEngine.create_watermark, hm], hle⟩
    · refine .inr ⟨s.pushed checked.id, by rw [World.say_phase, sweep?_map, hs]; rfl, ?_, ?_, ?_, ?_⟩
      · rw [hrow]
        unfold Sweep.pushed
        split_ifs <;> rfl
      · unfold Sweep.pushed
        split_ifs
        · intro ht
          rcases List.mem_append.mp ht with ht | ht
          · exact hin ht
          · rw [List.mem_singleton.mp ht, hnew] at hsome
            cases hsome
        · exact hin
      · simp only [World.say_engine, World.save_engine, RuleEngine.create_objects]
        exact RuleEngine.setObject_isSome _ _ _ hsome
      · rcases hacted with hacted | ⟨i, hi⟩
        · left
          unfold Sweep.pushed
          split_ifs <;> exact hacted
        · exact .inr ⟨i, by rw [World.say_phase]; rw [hi] at hs ⊢; cases hs; rfl⟩
  | setEnabled id enabled rule hin hrule =>
    rcases hpast with hle | ⟨s, hs, hrow, hnot, hsome, hacted⟩
    · exact .inl hle
    · exact .inr ⟨s, hs, hrow, hnot, RuleEngine.setObject_isSome _ _ _ hsome, hacted⟩
  | remove id hin =>
    rcases hpast with hle | ⟨s, hs, hrow, hnot, hsome, hacted⟩
    · exact .inl hle
    · refine .inr ⟨s.detached, by rw [World.say_phase, sweep?_map, hs]; rfl, hrow, hnot, hsome, ?_⟩
      rcases hacted with hacted | ⟨i, hi⟩
      · exact .inl hacted
      · exact .inr ⟨i, by rw [World.say_phase]; rw [hi] at hs ⊢; cases hs; rfl⟩
  | list => exact hpast
  | nothing => exact hpast
  | crash =>
    rcases hpast with ⟨m, hm, hle⟩ | ⟨s, hs, hrow, -⟩
    · exact .inl ⟨m, hw.file.trans hm, hle⟩
    · have hin : w.jobInHand = true := by
        unfold World.jobInHand
        rw [hs]
        exact List.any_eq_true.mpr ⟨j, hj, by simpa using hrow⟩
      simp [diesBetweenRows, hin] at hok

/-- Where no process dies with a job in hand, no rule runs its job twice for one alert. -/
theorem runs_its_job_once (file : RulesFile) (log : AlertLog) (clock : Int) (ms : List Move)
    (w : World) (hrun : Run (fun v m => diesBetweenRows v m = true) (.start file log clock) ms w)
    (ruleId : String) (cursor : EventCursor) : w.jobs.count (ruleId, cursor) ≤ 1 := by
  have honce : w.Sound ∧ w.Once := by
    refine hrun.invariant (I := fun v => v.Sound ∧ v.Once) ?_ ?_
    · exact ⟨World.sound_start file log clock, ⟨List.nodup_nil, fun j hj => by cases hj⟩⟩
    · intro v m v' hv hok hstep
      exact ⟨hv.1.step hstep, hv.2.does hv.1 hok (step_does hstep)⟩
  exact List.nodup_iff_count_le_one.mp honce.2.nodup _

end Jobs

/-! ## One rule, one alert -/

/-- Every record covers every job. -/
@[reducible] def coversAll : Approval := ⟨fun _ _ _ => none⟩

def restartRule : Rule where
  id := "r1"
  name := "restart nginx"
  enabled := true
  kind := .«service-down»
  event := .raised
  filter := ⟨none, none⟩
  action := .job ⟨"Restart nginx", ["systemctl restart nginx"]⟩ [⟨"s1", "web", none⟩] .null
  limit := RULE_LIMIT_DEFAULT
  armedAt := 0
  unattendedAt := 0

def downRow : StoredAlertRow := ⟨.raised, .«service-down», "s1", "web", none, none, 0⟩

def armedFile : RulesFile := ⟨some ⟨0, 0⟩, [restartRule], []⟩

/-- An alert, and the sweep that takes it as far as the rule's job. -/
def toJob : List Move :=
  [.openStore, .tick 10, .append ⟨⟨10, 1⟩, some downRow⟩, .sweep, .turn ["s1"]]

/-- The process dies, and is started again and sweeps. -/
def again : List Move := [.crash, .openStore, .sweep, .turn ["s1"]]

/-- The row ends before the process dies. -/
def toRowEnd : List Move := toJob ++ [.jobDone none, .turn []] ++ again.take 3

theorem runs_its_job_once_restart :
    letI := coversAll
    (play diesBetweenRows (.start armedFile .empty 0) toRowEnd).1.jobs.count ("r1", ⟨10, 1⟩) ≤ 1 :=
  letI := coversAll
  runs_its_job_once armedFile .empty 0 toRowEnd _
    (.of_play diesBetweenRows _ _ (by decide +kernel)) _ _

/-- Dying while the job is waited for runs it twice. -/
theorem runs_its_job_twice :
    ¬ ∀ [Approval] (file : RulesFile) (log : AlertLog) (clock : Int) (ms : List Move) (w : World),
      Run (fun _ _ => True) (.start file log clock) ms w →
        ∀ (ruleId : String) (cursor : EventCursor), w.jobs.count (ruleId, cursor) ≤ 1 := by
  intro h
  let _ := coversAll
  have hrun := Run.of_play (fun _ _ => true) (.start armedFile .empty 0) (toJob ++ again)
    (by decide +kernel)
  have hle := h armedFile .empty 0 _ _ (hrun.mono fun _ _ _ => trivial) "r1" ⟨10, 1⟩
  revert hle
  decide +kernel

end OpsMaxx.Rules
