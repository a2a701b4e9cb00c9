import OpsMaxx.Jobs.Endless

/-!
# When a watch ends or waits

A run that never returns goes on for one of three reasons, and each is that more output is announced
than arrives: `ends_or_waits`.
-/

set_option autoImplicit false

open Filter

namespace OpsMaxx.Jobs

/-! ## What stays the same -/

section Moves
variable {deps : DetachedDeps} {req : JobExecRequest} {env : ExecEnv} {w w' : Watching}
  {a a' : Await} {r : Reply}

theorem Resumes.live (h : Resumes w a) : ∃ w', Looping a w' := by
  cases h with
  | park h => exact ⟨_, .park _⟩
  | poll h => exact ⟨_, .poll _⟩
  | sleep h => exact ⟨_, .sleep _⟩

theorem Resumes.same (h : Resumes w a) (hlive : Looping a w') :
    w'.deadline = w.deadline ∧ w'.signalled = w.signalled ∧ w'.handle = w.handle := by
  cases h with
  | park h =>
    obtain ⟨reported, rfl⟩ := h
    cases hlive
    exact ⟨rfl, rfl, rfl⟩
  | poll h =>
    cases hlive
    exact ⟨rfl, rfl, rfl⟩
  | sleep h =>
    cases hlive
    exact ⟨rfl, rfl, rfl⟩

theorem Resumes.not_signal (h : Resumes w a) : a ≠ .signal w' := by
  cases h <;> exact fun h => nomatch h

theorem Resumes.rests (h : Resumes w a) (himm : w.immediate = false) : a.rests = true := by
  cases h with
  | park h => rfl
  | poll h =>
    rw [himm] at h
    cases h
  | sleep h => rfl

/-- Before a poll or a sleep the flag is down. -/
def Calm (a : Await) : Prop := ∀ w, a = .poll w ∨ a = .sleep w → w.immediate = false

theorem Resumes.calm (h : Resumes w a) : Calm a := by
  intro w' hw
  cases h with
  | park h => obtain h | h := hw <;> cases h
  | poll h =>
    obtain h | h := hw <;> cases h
    rfl
  | sleep h =>
    obtain h | h := hw <;> cases h
    assumption

theorem Moves.live_or_leaving (h : Moves deps req env a r a') :
    (∃ w, Looping a' w) ∨ Leaving a' := by
  cases h with
  | unparks h => exact Or.inl h.live
  | wakes w => exact Or.inl ⟨w, .poll w⟩
  | silent hr hkin himm h => exact Or.inl h.live
  | drains hshort hkin himm h => exact Or.inl h.live
  | goesOn hwhole hkin himm hnow h => exact Or.inl h.live
  | overdue => exact Or.inl ⟨_, .signal _⟩
  | leaves hruns h => exact Or.inr h
  | signals hkin h => exact Or.inl h.live

theorem Moves.calm (h : Moves deps req env a r a') (hcalm : Calm a) : Calm a' := by
  cases h with
  | unparks h => exact h.calm
  | wakes w =>
    intro w' hw
    obtain h | h := hw <;> cases h
    exact hcalm _ (Or.inr rfl)
  | silent hr hkin himm h => exact h.calm
  | drains hshort hkin himm h => exact h.calm
  | goesOn hwhole hkin himm hnow h => exact h.calm
  | overdue =>
    intro w' hw
    obtain h | h := hw <;> cases h
  | leaves hruns h =>
    intro w' hw
    cases h <;> obtain h | h := hw <;> cases h
  | signals hkin h => exact h.calm

theorem Resumes.kept {w₁ : Watching} {read : Nat} (h : Resumes w₁ a) (hkin : Kin w w₁ read)
    (hlive : Looping a w') :
    w'.deadline = w.deadline ∧ (w.signalled = true → w'.signalled = true) := by
  obtain ⟨hdeadline, hsignalled, -⟩ := h.same hlive
  refine ⟨hdeadline.trans hkin.deadline, fun hs => ?_⟩
  rw [hsignalled, hkin.signalled, hs]

/-- The deadline stays, and a signal is not taken back. -/
theorem Moves.kept (h : Moves deps req env a r a') (hlive : Looping a w) (hlive' : Looping a' w') :
    w'.deadline = w.deadline ∧ (w.signalled = true → w'.signalled = true) := by
  cases h with
  | unparks h =>
    cases hlive
    obtain ⟨hdeadline, hsignalled, -⟩ := h.same hlive'
    exact ⟨hdeadline, fun hs => hsignalled.trans hs⟩
  | wakes w =>
    cases hlive
    cases hlive'
    exact ⟨rfl, id⟩
  | silent hr hkin himm h =>
    cases hlive
    exact h.kept hkin hlive'
  | drains hshort hkin himm h =>
    cases hlive
    exact h.kept hkin hlive'
  | goesOn hwhole hkin himm hnow h =>
    cases hlive
    exact h.kept hkin hlive'
  | overdue hwhole hkin hruns hours hfresh hnow =>
    cases hlive
    cases hlive'
    exact ⟨hkin.deadline, fun hs => hkin.signalled.trans hs⟩
  | leaves hruns h => cases h <;> cases hlive'
  | signals hkin h =>
    cases hlive
    obtain ⟨hdeadline, hsignalled⟩ := h.kept hkin hlive'
    exact ⟨hdeadline, fun _ => hsignalled rfl⟩

theorem Moves.after_signal (h : Moves deps req env (.signal w) r a') (hlive' : Looping a' w') :
    w'.signalled = true := by
  cases h with
  | signals hkin h => exact (h.kept hkin hlive').2 rfl

/-- A signal is sent after a poll that found the step past its deadline and nothing left to read. -/
theorem Moves.signal (h : Moves deps req env a r (.signal w')) :
    ∃ w p, a = .poll w ∧ r = .polled p ∧ ¬ Short w p ∧ StillRuns deps req env w p ∧
      ¬ Foreign deps req env w p ∧ w.signalled = false ∧ w.deadline < env.now := by
  cases h with
  | unparks h => exact absurd rfl h.not_signal
  | silent hr hkin himm h => exact absurd rfl h.not_signal
  | drains hshort hkin himm h => exact absurd rfl h.not_signal
  | goesOn hwhole hkin himm hnow h => exact absurd rfl h.not_signal
  | overdue hwhole hkin hruns hours hfresh hnow =>
    exact ⟨_, _, rfl, rfl, hwhole, hruns, hours, hfresh, hnow⟩
  | leaves hruns h => cases h
  | signals hkin h => exact absurd rfl h.not_signal

end Moves

/-! ## Along a run -/

namespace Endless
variable {deps : DetachedDeps} {req : JobExecRequest} (run : Endless deps req)

theorem starts : ∃ w, Resumes w (run.wait 0) := by
  have h := run.begins
  unfold watch at h
  split_ifs at h
  all_goals exact ⟨_, next_resumes h⟩

/-- The run never takes the way out, which ends. -/
theorem not_leaving (n : ℕ) : ¬ Leaving (run.wait n) := by
  intro hout
  obtain ⟨said, hgo⟩ := run.goes n
  obtain ⟨-, hout', hnot⟩ := goOn_leaving hout hgo rfl
  obtain ⟨said', hgo'⟩ := run.goes (n + 1)
  obtain ⟨⟨w, after, hreap⟩, -⟩ := goOn_leaving hout' hgo' rfl
  exact hnot w after hreap

theorem live (n : ℕ) : ∃ w, Looping (run.wait n) w := by
  induction n with
  | zero =>
    obtain ⟨w, h⟩ := run.starts
    exact h.live
  | succ n ih =>
    obtain ⟨w, hlive⟩ := ih
    obtain ⟨said, hgo⟩ := run.goes n
    exact (goOn_moves hlive hgo rfl).live_or_leaving.resolve_right (run.not_leaving (n + 1))

theorem moves (n : ℕ) :
    Moves deps req (run.env n) (run.wait n) (run.reply n) (run.wait (n + 1)) := by
  obtain ⟨w, hlive⟩ := run.live n
  obtain ⟨said, hgo⟩ := run.goes n
  exact goOn_moves hlive hgo rfl

theorem calm (n : ℕ) : Calm (run.wait n) := by
  induction n with
  | zero =>
    obtain ⟨w, h⟩ := run.starts
    exact h.calm
  | succ n ih => exact (run.moves n).calm ih

theorem deadline_const : ∃ D, ∀ n w, Looping (run.wait n) w → w.deadline = D := by
  obtain ⟨w₀, h₀⟩ := run.starts
  refine ⟨w₀.deadline, fun n => ?_⟩
  induction n with
  | zero => exact fun w hlive => (h₀.same hlive).1
  | succ n ih =>
    intro w hlive
    obtain ⟨v, hv⟩ := run.live n
    rw [((run.moves n).kept hv hlive).1, ih v hv]

/-- From a signal on the watch knows that it has signalled. -/
theorem signalled_after {m n : ℕ} (hm : run.Signals m) (hlt : m < n) :
    ∀ w, Looping (run.wait n) w → w.signalled = true := by
  induction n, hlt using Nat.le_induction with
  | base =>
    intro w hlive
    obtain ⟨v, hv⟩ := hm
    have hmoves := run.moves m
    rw [hv] at hmoves
    exact hmoves.after_signal hlive
  | succ n hle ih =>
    intro w hlive
    obtain ⟨v, hv⟩ := run.live n
    exact ((run.moves n).kept hv hlive).2 (ih v hv)

/-- A signal is sent right after a poll that is not short. -/
theorem signals_overdue {n : ℕ} (h : run.Signals n) : ∃ m, n = m + 1 ∧ run.Overdue m ∧
    run.Answered m fun w p => ¬ Short w p ∧ w.signalled = false := by
  obtain ⟨w, hw⟩ := h
  cases n with
  | zero =>
    obtain ⟨v, h₀⟩ := run.starts
    exact absurd hw h₀.not_signal
  | succ n =>
    have hmoves := run.moves n
    rw [hw] at hmoves
    obtain ⟨v, p, ha, hr, hwhole, hruns, hours, hfresh, hnow⟩ := hmoves.signal
    exact ⟨n, rfl, ⟨v, p, ha, hr, hruns, hours, hnow⟩, ⟨v, p, ha, hr, hwhole, hfresh⟩⟩

/-- There is at most one signal. -/
theorem eventually_no_signal : ∀ᶠ n in atTop, ¬ run.Signals n := by
  by_cases hnever : ∀ n, ¬ run.Signals n
  · exact .of_forall hnever
  · obtain ⟨m, hm⟩ := not_forall.mp hnever
    rw [not_not] at hm
    rw [eventually_atTop]
    refine ⟨m + 1, fun n hn hsignals => ?_⟩
    obtain ⟨k, rfl, -, w, p, hw, -, -, hfresh⟩ := run.signals_overdue hsignals
    by_cases hk : k = m
    · subst hk
      obtain ⟨v, hv⟩ := hm
      rw [hw] at hv
      cases hv
    · have hsignalled := run.signalled_after hm (show m < k by omega) w (hw ▸ .poll w)
      rw [hfresh] at hsignalled
      cases hsignalled

/-! ## Time -/

theorem clock_le {m n : ℕ} (h : m ≤ n) : (run.env m).now ≤ (run.env n).now :=
  monotone_nat_of_le_succ run.clock h

/-- A watch that rests over and over outlasts every moment. -/
theorem outlasts (h : ∃ᶠ n in atTop, run.Rests (n + 1)) (D : ℕ) : ∃ n, D ≤ (run.env n).now := by
  induction D with
  | zero => exact ⟨0, Nat.zero_le _⟩
  | succ D ih =>
    obtain ⟨n, hn⟩ := ih
    obtain ⟨m, hm, hrests⟩ := frequently_atTop.mp h n
    have hle := run.clock_le hm
    have hlt := run.slept m hrests
    exact ⟨m + 1, by omega⟩

/-! ## The three ways to go on -/

theorem answered_mono {n : ℕ} {A B : Watching → JobPollResult → Prop} (h : run.Answered n A)
    (hAB : ∀ w p, A w p → B w p) : run.Answered n B := by
  obtain ⟨w, p, hw, hp, ha⟩ := h
  exact ⟨w, p, hw, hp, hAB w p ha⟩

theorem answered_polls {n : ℕ} {A : Watching → JobPollResult → Prop} (h : run.Answered n A) :
    run.Polls n := by
  obtain ⟨w, p, hw, -⟩ := h
  exact ⟨w, hw⟩

/-- After a short answer only the flag makes a difference, and the cursor has gone up by what came. -/
theorem drained {n : ℕ} {w : Watching} {p : JobPollResult} (hw : run.wait n = .poll w)
    (hp : run.reply n = .polled p) (hshort : Short w p) :
    ∃ w₁, Kin w w₁ p.sent ∧ Resumes w₁ (run.wait (n + 1)) := by
  have hmoves := run.moves n
  have hnot := run.not_leaving (n + 1)
  rw [hw, hp] at hmoves
  generalize run.wait (n + 1) = a at hmoves hnot ⊢
  cases hmoves with
  | silent hr hkin himm h => exact absurd rfl (hr p)
  | drains hshort' hkin himm h => exact ⟨_, hkin, h⟩
  | goesOn hwhole hkin himm hnow h => exact absurd hshort hwhole
  | overdue hwhole hkin hruns hours hfresh hnow => exact absurd hshort hwhole
  | leaves hruns h => exact absurd h hnot

/-- Two polls without a rest in between: the first one is short. -/
theorem short_of_polls {n : ℕ} (h : run.Polls n) (h' : run.Polls (n + 1)) :
    run.Answered n Short := by
  obtain ⟨w, hw⟩ := h
  obtain ⟨w', hw'⟩ := h'
  have himm := run.calm n w (Or.inl hw)
  have hmoves := run.moves n
  rw [hw, hw'] at hmoves
  generalize hr : run.reply n = r at hmoves
  cases hmoves with
  | silent hr' hkin himm' h =>
    have hrests := h.rests (himm'.trans himm)
    cases hrests
  | @drains _ _ _ p hshort hkin himm' h => exact ⟨w, p, hw, hr, hshort⟩
  | goesOn hwhole hkin himm' hnow h =>
    have hrests := h.rests (himm'.trans himm)
    cases hrests
  | leaves hruns h => cases h

theorem cursor_poll {n : ℕ} {w : Watching} (hw : run.wait n = .poll w) :
    run.cursor n = some w.handle.readOffset := by
  rw [cursor, hw]

theorem cursor_drained {n : ℕ} {w w₁ w' : Watching} {read : Nat} (hkin : Kin w w₁ read)
    (h : Resumes w₁ (run.wait (n + 1))) (hw' : run.wait (n + 1) = .poll w') :
    run.cursor (n + 1) = some (w.handle.readOffset + read) := by
  rw [hw'] at h
  rw [run.cursor_poll hw', (h.same (.poll w')).2.2, hkin.cursor]

theorem polls_or_signals {n : ℕ} (h : ¬ run.Rests n) : run.Polls n ∨ run.Signals n := by
  obtain ⟨w, hlive⟩ := run.live n
  unfold Rests at h
  unfold Polls Signals
  generalize run.wait n = a at h hlive ⊢
  cases hlive with
  | park => exact absurd rfl h
  | sleep => exact absurd rfl h
  | poll => exact Or.inl ⟨w, rfl⟩
  | signal => exact Or.inr ⟨w, rfl⟩

/-- A watch that neither rests nor gets on is one whose host delivers nothing of what it announces. -/
theorem stuck_iff : ((∀ᶠ n in atTop, ¬ run.Rests n ∧ ¬ run.Advances n) ∧
    ∃ᶠ n in atTop, run.Polls n) ↔
      ∀ᶠ n in atTop, run.Answered n fun w p => Short w p ∧ p.sent = 0 := by
  constructor
  · rintro ⟨hstuck, -⟩
    obtain ⟨N, hN⟩ := eventually_atTop.mp (hstuck.and run.eventually_no_signal)
    rw [eventually_atTop]
    refine ⟨N, fun n hn => ?_⟩
    have hpolls : ∀ m ≥ N, run.Polls m := fun m hm =>
      (run.polls_or_signals (hN m hm).1.1).resolve_right (hN m hm).2
    obtain ⟨w, p, hw, hp, hshort⟩ := run.short_of_polls (hpolls n hn) (hpolls (n + 1) (by omega))
    refine ⟨w, p, hw, hp, hshort, ?_⟩
    obtain ⟨w₁, hkin, hresumes⟩ := run.drained hw hp hshort
    obtain ⟨w', hw'⟩ := hpolls (n + 1) (by omega)
    by_contra hsent
    exact (hN n hn).1.2 ⟨_, _, run.cursor_poll hw, run.cursor_drained hkin hresumes hw', by omega⟩
  · intro hstarved
    refine ⟨?_, (hstarved.mono fun n h => run.answered_polls h).frequently⟩
    obtain ⟨N, hN⟩ := eventually_atTop.mp hstarved
    rw [eventually_atTop]
    refine ⟨N, fun n hn => ?_⟩
    obtain ⟨w, p, hw, hp, hshort, hsent⟩ := hN n hn
    obtain ⟨w', hw'⟩ := run.answered_polls (hN (n + 1) (by omega))
    constructor
    · intro hrests
      unfold Rests at hrests
      rw [hw] at hrests
      cases hrests
    · rintro ⟨a, b, ha, hb, hlt⟩
      obtain ⟨w₁, hkin, hresumes⟩ := run.drained hw hp hshort
      rw [run.cursor_poll hw] at ha
      rw [run.cursor_drained hkin hresumes hw'] at hb
      cases ha
      cases hb
      omega

/-- A poll with an exit status that does not end the watch is short, or the watch rests after it
and its deadline is not over. -/
theorem recorded_next {n : ℕ} (h : run.Recorded n) :
    run.Answered n (fun w p => p.rc.isSome = true ∧ Short w p) ∨
      (run.Rests (n + 1) ∧ ∃ w, run.wait n = .poll w ∧ (run.env n).now ≤ w.deadline) := by
  obtain ⟨w, p, hw, hp, hrc⟩ := h
  have himm := run.calm n w (Or.inl hw)
  have hmoves := run.moves n
  have hnot := run.not_leaving (n + 1)
  rw [hw, hp] at hmoves
  unfold Rests
  generalize run.wait (n + 1) = a at hmoves hnot ⊢
  cases hmoves with
  | silent hr hkin himm' h => exact absurd rfl (hr p)
  | drains hshort hkin himm' h => exact Or.inl ⟨w, p, hw, hp, hrc, hshort⟩
  | goesOn hwhole hkin himm' hnow h => exact Or.inr ⟨h.rests (himm'.trans himm), w, hw, hnow⟩
  | overdue hwhole hkin hruns hours hfresh hnow =>
    exfalso
    unfold StillRuns Watching.verdict classifyJobPoll at hruns
    simp only [hrc, if_true] at hruns
    split_ifs at hruns <;> simp at hruns
  | leaves hruns h => exact absurd h hnot

/-- A watch that polls over and over though every poll records an exit status is one whose host
announces more than arrives. -/
theorem unanswered_iff : ((∀ᶠ n in atTop, run.Polls n → run.Recorded n) ∧
    ∃ᶠ n in atTop, run.Polls n) ↔
      ((∃ᶠ n in atTop, run.Polls n) ∧
        ∀ᶠ n in atTop, run.Polls n → run.Answered n fun w p => p.rc.isSome = true ∧ Short w p) := by
  constructor
  · rintro ⟨hrecorded, hpolls⟩
    refine ⟨hpolls, ?_⟩
    by_contra hnot
    obtain ⟨D, hD⟩ := run.deadline_const
    have hoften : ∃ᶠ n in atTop, run.Rests (n + 1) ∧ (run.env n).now ≤ D := by
      refine ((not_eventually.mp hnot).and_eventually hrecorded).mono ?_
      rintro n ⟨hn, hrec⟩
      obtain ⟨hpoll, hwhole⟩ := Classical.not_imp.mp hn
      obtain ⟨hrests, w, hw, hnow⟩ := (run.recorded_next (hrec hpoll)).resolve_left hwhole
      refine ⟨hrests, ?_⟩
      rw [← hD n w (hw ▸ .poll w)]
      exact hnow
    obtain ⟨m, hm⟩ := run.outlasts (hoften.mono fun _ h => h.1) (D + 1)
    obtain ⟨n, hn, -, hnow⟩ := frequently_atTop.mp hoften m
    have hle := run.clock_le hn
    omega
  · rintro ⟨hpolls, hshort⟩
    refine ⟨hshort.mono fun n h hn => ?_, hpolls⟩
    exact run.answered_mono (h hn) fun w p hwp => hwp.1

/-- A step past its deadline that is never signalled is one whose host always announces more than
arrives. -/
theorem unsignalled_iff : ((∃ᶠ n in atTop, run.Overdue n) ∧ ∀ n, ¬ run.Signals n) ↔
    ((∃ᶠ n in atTop, run.Overdue n) ∧ ∀ n, run.Overdue n → run.Answered n Short) := by
  refine and_congr_right fun _ => ⟨?_, ?_⟩
  · rintro hnever n ⟨w, p, hw, hp, hruns, hours, hlate⟩
    have hmoves := run.moves n
    have hnot := run.not_leaving (n + 1)
    have hsignal := hnever (n + 1)
    unfold Signals at hsignal
    rw [hw, hp] at hmoves
    generalize run.wait (n + 1) = a at hmoves hnot hsignal
    cases hmoves with
    | silent hr hkin himm h => exact absurd rfl (hr p)
    | drains hshort hkin himm h => exact ⟨w, p, hw, hp, hshort⟩
    | goesOn hwhole hkin himm hnow h => omega
    | overdue => exact absurd ⟨_, rfl⟩ hsignal
    | leaves hruns' h => exact absurd hruns hruns'
  · intro hshort n hsignals
    obtain ⟨m, -, hoverdue, w, p, hw, hp, hwhole, -⟩ := run.signals_overdue hsignals
    obtain ⟨w', p', hw', hp', hs⟩ := hshort m hoverdue
    rw [hw] at hw'
    rw [hp] at hp'
    cases hw'
    cases hp'
    exact hwhole hs

/-- A watch ends or waits, and signals in time, on just the runs on which it does not starve. -/
theorem ends_or_waits : run.EndsOrWaits ↔ ¬ run.Starves := by
  unfold Starves
  rw [← run.stuck_iff, ← run.unanswered_iff, ← run.unsignalled_iff]
  constructor
  · rintro ⟨hwaits, hreturns, hsignals⟩ (h | h | h)
    · exact hwaits h
    · exact hreturns h
    · exact hsignals h
  · intro h
    exact ⟨fun h' => h (Or.inl h'), fun h' => h (Or.inr (Or.inl h')),
      fun h' => h (Or.inr (Or.inr h'))⟩

/-! ## A host that announces what it does not deliver -/

def stalledDeps : DetachedDeps where
  instanceId := "desk"
  restartsTheMachine _ := false

def stalledRequest : JobExecRequest where
  command := "apt-get upgrade"
  timeoutMs := 1000
  jobId := "j"
  step := 1
  reboot := false
  resume := none

def stalledHandle : JobDetachedHandle where
  dir := "/var/tmp/j.1"
  step := 1
  instanceId := "desk"
  launcher := .setsid
  base64 := true
  launchedAt := 0
  readOffset := 0
  command := "apt-get upgrade"
  bootIdBefore := none

/-- The command runs, and one byte is announced that does not come. -/
def stalledPoll : JobPollResult where
  present := true
  inst := some "desk"
  pid := some 7
  rc := none
  alive := true
  size := 1
  sent := 0
  text := ""
  boot := none

def stalledWatching (said : JobHostState) : Watching where
  handle := stalledHandle
  attempts := 0
  reported := some (said, "")
  signalled := false
  immediate := false
  sawSilence := false
  deadline := 1000

def stalledEnv : ExecEnv := ⟨2000, true, true, true⟩

/-- The first poll says that the command runs, and every one after it says nothing new. -/
def stalledRun : Endless stalledDeps stalledRequest where
  handle := stalledHandle
  opened := stalledEnv
  wait
    | 0 => .sleep (stalledWatching .detached)
    | 1 => .poll (stalledWatching .detached)
    | _ + 2 => .poll (stalledWatching .running)
  reply
    | 0 => .woke
    | _ + 1 => .polled stalledPoll
  env _ := stalledEnv
  known _ := none
  begins := by
    have hdir : isJobMarkerDir stalledHandle.dir = true := by decide +kernel
    rw [watch, hdir]
    rfl
  goes
    | 0 => ⟨_, rfl⟩
    | 1 => ⟨_, rfl⟩
    | _ + 2 => ⟨_, rfl⟩
  clock _ := le_refl _
  slept
    | 0, h => nomatch h
    | _ + 1, h => nomatch h

/-- Its watch polls on and on, without a wait. -/
theorem stalled_polls_on : ∃ run : Endless stalledDeps stalledRequest, ¬ run.EndsOrWaits := by
  have hpolls : ∀ n ≥ 2, stalledRun.wait n = .poll (stalledWatching .running) := by
    intro n hn
    obtain ⟨n, rfl⟩ := Nat.exists_eq_add_of_le' hn
    rfl
  refine ⟨stalledRun, fun h => h.waits ⟨eventually_atTop.mpr ⟨2, fun n hn => ⟨?_, ?_⟩⟩, ?_⟩⟩
  · unfold Rests
    rw [hpolls n hn]
    exact Bool.false_ne_true
  · rintro ⟨a, b, ha, hb, hlt⟩
    rw [stalledRun.cursor_poll (hpolls n hn)] at ha
    rw [stalledRun.cursor_poll (hpolls (n + 1) (by omega))] at hb
    cases ha
    cases hb
    omega
  · exact Eventually.frequently (eventually_atTop.mpr ⟨2, fun n hn => ⟨_, hpolls n hn⟩⟩)

end Endless

end OpsMaxx.Jobs
