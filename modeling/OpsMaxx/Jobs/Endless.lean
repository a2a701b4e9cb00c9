import OpsMaxx.Jobs.Watch
import Mathlib.Order.Filter.AtTopBot.Basic

/-!
# Watches that never end

A run of the watch that never returns is a sequence of waits. What it does over and over is said
with `∃ᶠ` and `∀ᶠ`: that something happens only finitely often on such a run is what "after finitely
many polls" comes to.
-/

set_option autoImplicit false

open Filter

namespace OpsMaxx.Jobs

/-! ## What one step can do -/

/-- The waits of the loop itself. Every other wait is on the way out. -/
inductive Looping : Await → Watching → Prop
  | park (w : Watching) : Looping (.park w) w
  | sleep (w : Watching) : Looping (.sleep w) w
  | poll (w : Watching) : Looping (.poll w) w
  | signal (w : Watching) : Looping (.signal w) w

inductive Leaving : Await → Prop
  | reap (w : Watching) (after : AfterReap) : Leaving (.reap w after)
  | verify (w : Watching) (rc : Option Nat) (isForeign : Bool) : Leaving (.verify w rc isForeign)
  | attached : Leaving .attached

/-- How the head of the loop goes on. -/
inductive Resumes (w : Watching) : Await → Prop
  | park {w₁ : Watching} (h : ∃ reported, w₁ = { w with reported := reported }) :
    Resumes w (.park w₁)
  | poll (h : w.immediate = true) : Resumes w (.poll { w with immediate := false })
  | sleep (h : w.immediate = false) : Resumes w (.sleep w)

/-- What a reply can change of the watch before the loop begins again. -/
structure Kin (w w₁ : Watching) (read : Nat) : Prop where
  deadline : w₁.deadline = w.deadline
  signalled : w₁.signalled = w.signalled
  cursor : w₁.handle.readOffset = w.handle.readOffset + read

/-- What a reply says of the command. -/
def Watching.verdict (w : Watching) (deps : DetachedDeps) (req : JobExecRequest) (env : ExecEnv)
    (p : JobPollResult) : JobPollVerdict :=
  classifyJobPoll p deps.instanceId w.handle.launchedAt env.now req.reboot

/-- The command starts or runs, as a reply has it. -/
def StillRuns (deps : DetachedDeps) (req : JobExecRequest) (env : ExecEnv) (w : Watching)
    (p : JobPollResult) : Prop :=
  (w.verdict deps req env p).phase = .starting ∨
    (w.verdict deps req env p).phase = .running

def Foreign (deps : DetachedDeps) (req : JobExecRequest) (env : ExecEnv) (w : Watching)
    (p : JobPollResult) : Prop :=
  (w.verdict deps req env p).isForeign = true

/-- More is announced than has arrived. -/
def Short (w : Watching) (p : JobPollResult) : Prop := w.handle.readOffset + p.sent < p.size

/-- The steps from a wait of the loop that do not end it. -/
inductive Moves (deps : DetachedDeps) (req : JobExecRequest) (env : ExecEnv) :
    Await → Reply → Await → Prop
  | unparks {w : Watching} {a : Await} (h : Resumes w a) : Moves deps req env (.park w) .woke a
  | wakes (w : Watching) : Moves deps req env (.sleep w) .woke (.poll w)
  | silent {w w₁ : Watching} {a : Await} {r : Reply} (hr : ∀ p, r ≠ .polled p) (hkin : Kin w w₁ 0)
    (himm : w₁.immediate = w.immediate) (h : Resumes w₁ a) : Moves deps req env (.poll w) r a
  | drains {w w₁ : Watching} {a : Await} {p : JobPollResult} (hshort : Short w p)
    (hkin : Kin w w₁ p.sent) (himm : w₁.immediate = true) (h : Resumes w₁ a) :
    Moves deps req env (.poll w) (.polled p) a
  | goesOn {w w₁ : Watching} {a : Await} {p : JobPollResult} (hwhole : ¬ Short w p)
    (hkin : Kin w w₁ p.sent) (himm : w₁.immediate = w.immediate) (hnow : env.now ≤ w.deadline)
    (h : Resumes w₁ a) : Moves deps req env (.poll w) (.polled p) a
  | overdue {w w₁ : Watching} {p : JobPollResult} (hwhole : ¬ Short w p) (hkin : Kin w w₁ p.sent)
    (hruns : StillRuns deps req env w p) (hours : ¬ Foreign deps req env w p)
    (hfresh : w.signalled = false) (hnow : w.deadline < env.now) : Moves deps req env (.poll w) (.polled p) (.signal w₁)
  | leaves {w : Watching} {a : Await} {p : JobPollResult} (hruns : ¬ StillRuns deps req env w p)
    (h : Leaving a) : Moves deps req env (.poll w) (.polled p) a
  | signals {w w₁ : Watching} {a : Await} {r : Reply} (hkin : Kin { w with signalled := true } w₁ 0)
    (h : Resumes w₁ a) : Moves deps req env (.signal w) r a

section Steps
variable {deps : DetachedDeps} {req : JobExecRequest} {env : ExecEnv}
  {cap : Option JobHostCapability} {w : Watching} {p : JobPollResult} {a : Await}

theorem say_eq (w : Watching) (state : JobHostState) (error : Option String) :
    ∃ reported, (w.say state error).2 = { w with reported := reported } := by
  unfold Watching.say
  split_ifs
  · exact ⟨w.reported, rfl⟩
  · exact ⟨_, rfl⟩

@[simp] theorem say_handle (w : Watching) (state : JobHostState) (error : Option String) :
    (w.say state error).2.handle = w.handle := by
  obtain ⟨reported, h⟩ := say_eq w state error
  rw [h]

@[simp] theorem say_deadline (w : Watching) (state : JobHostState) (error : Option String) :
    (w.say state error).2.deadline = w.deadline := by
  obtain ⟨reported, h⟩ := say_eq w state error
  rw [h]

@[simp] theorem say_signalled (w : Watching) (state : JobHostState) (error : Option String) :
    (w.say state error).2.signalled = w.signalled := by
  obtain ⟨reported, h⟩ := say_eq w state error
  rw [h]

@[simp] theorem say_immediate (w : Watching) (state : JobHostState) (error : Option String) :
    (w.say state error).2.immediate = w.immediate := by
  obtain ⟨reported, h⟩ := say_eq w state error
  rw [h]

theorem Kin.say {w w₁ : Watching} {read : Nat} (h : Kin w w₁ read) (state : JobHostState)
    (error : Option String) : Kin w (w₁.say state error).2 read where
  deadline := (say_deadline w₁ state error).trans h.deadline
  signalled := (say_signalled w₁ state error).trans h.signalled
  cursor := by rw [say_handle, h.cursor]

theorem next_resumes (h : (w.next env cap).went = .waits a) : Resumes w a := by
  unfold Watching.next at h
  split_ifs at h with halive hready himm
  · cases h
    exact .park (say_eq w _ _)
  · cases h
    exact .poll himm
  · cases h
    exact .sleep (Bool.eq_false_of_not_eq_true himm)

theorem after_went (said : List Saying) (t : Turned) : (t.after said).went = t.went := rfl

/-- The watch once a poll has been read. -/
def Watching.heard (w : Watching) (deps : DetachedDeps) (req : JobExecRequest) (env : ExecEnv)
    (p : JobPollResult) : Watching :=
  if (w.verdict deps req env p).isForeign then
    ((w.read req p).2.say .foreign (some JOB_INSTANCE_NOTE)).2
  else (w.read req p).2

theorem heard_spec (w : Watching) (deps : DetachedDeps) (req : JobExecRequest) (env : ExecEnv)
    (p : JobPollResult) :
    Kin w (w.heard deps req env p) p.sent ∧ (w.heard deps req env p).immediate = w.immediate := by
  have hread : Kin w (w.read req p).2 p.sent := ⟨rfl, rfl, rfl⟩
  unfold Watching.heard
  split_ifs
  · exact ⟨hread.say _ _, say_immediate _ _ _⟩
  · exact ⟨hread, rfl⟩

theorem short_heard : Short w p ↔ (w.heard deps req env p).handle.readOffset < p.size := by
  rw [(heard_spec w deps req env p).1.cursor]
  rfl

/-- The branch a verdict leads to. -/
def Watching.follow (w : Watching) (req : JobExecRequest) (env : ExecEnv)
    (cap : Option JobHostCapability) (p : JobPollResult) (verdict : JobPollVerdict) : Turned :=
  match verdict.phase with
  | .finished => w.over req env cap p verdict.isForeign
  | .rebooted => w.over req env cap p verdict.isForeign
  | .orphaned => w.lost req env cap p verdict.isForeign
  | .failedLaunch =>
    if verdict.isForeign then fallBack cap else ⟨[], cap, .waits (.reap w .attached)⟩
  | .missing =>
    ⟨[], cap, .returns
      { ok := false, error := some missingError, finalState := some .orphaned
        finalOutcome := some .orphaned, detachedHandle := some none }⟩
  | .starting => w.runs req env cap p verdict.isForeign
  | .running => w.runs req env cap p verdict.isForeign

theorem polled_went (w : Watching) (p : JobPollResult) :
    (w.polled deps req env cap p).went =
      ((w.heard deps req env p).follow req env cap p (w.verdict deps req env p)).went := by
  have hverdict : classifyJobPoll p deps.instanceId (w.read req p).2.handle.launchedAt env.now
      req.reboot = w.verdict deps req env p := rfl
  unfold Watching.polled Watching.heard Watching.follow
  simp only [after_went, hverdict]
  by_cases hforeign : (w.verdict deps req env p).isForeign = true
  · cases (w.verdict deps req env p).phase <;> simp only [hforeign, if_true]
  · cases (w.verdict deps req env p).phase <;> simp only [if_neg hforeign]

/-- What is left to read is read at once. -/
theorem drain_moves {w₁ : Watching} (hshort : Short w p) (hkin : Kin w w₁ p.sent)
    (h : (w₁.drain env cap).went = .waits a) : Moves deps req env (.poll w) (.polled p) a :=
  have hkin' : Kin w { w₁ with immediate := true } p.sent := ⟨hkin.deadline, hkin.signalled, hkin.cursor⟩
  .drains hshort hkin' rfl (next_resumes h)

theorem over_moves {isForeign : Bool} (hruns : ¬ StillRuns deps req env w p)
    (h : ((w.heard deps req env p).over req env cap p isForeign).went = .waits a) :
    Moves deps req env (.poll w) (.polled p) a := by
  obtain ⟨hkin, himm⟩ := heard_spec w deps req env p
  unfold Watching.over at h
  split_ifs at h with hshort hreboot haccepted hforeign
  · exact drain_moves (short_heard.mpr hshort) hkin h
  · unfold Watching.reapUnless at h
    split_ifs at h
    cases h
    exact .leaves hruns (.reap _ _)
  · rw [after_went] at h
    refine .goesOn (fun hs => hshort (short_heard.mp hs)) (hkin.say _ _)
      ((say_immediate _ _ _).trans himm) ?_ (next_resumes h)
    rw [← hkin.deadline]
    exact haccepted.2.2
  · cases h
    exact .leaves hruns (.verify _ _ _)
  · cases h
    exact .leaves hruns (.reap _ _)

theorem lost_moves {isForeign : Bool} (hruns : ¬ StillRuns deps req env w p)
    (h : ((w.heard deps req env p).lost req env cap p isForeign).went = .waits a) :
    Moves deps req env (.poll w) (.polled p) a := by
  obtain ⟨hkin, himm⟩ := heard_spec w deps req env p
  unfold Watching.lost Watching.reapUnless at h
  split_ifs at h with hshort
  · exact drain_moves (short_heard.mpr hshort) hkin h
  · cases h
    exact .leaves hruns (.reap _ _)
  · cases h
    exact .leaves hruns (.reap _ _)

theorem runs_moves (hruns : StillRuns deps req env w p)
    (h : ((w.heard deps req env p).runs req env cap p
      (w.verdict deps req env p).isForeign).went =
        .waits a) : Moves deps req env (.poll w) (.polled p) a := by
  obtain ⟨hkin, himm⟩ := heard_spec w deps req env p
  unfold Watching.runs at h
  simp only [say_handle, say_deadline, say_signalled] at h
  split_ifs at h with hshort hlate hforeign hsignalled
  · exact drain_moves (short_heard.mpr hshort) (hkin.say _ _) h
  · cases h
    refine .overdue (fun hs => hshort (short_heard.mp hs)) (hkin.say _ _) hruns hforeign ?_ ?_
    · rw [← hkin.signalled]
      simpa using hsignalled
    · rw [← hkin.deadline]
      exact hlate
  · rw [after_went] at h
    refine .goesOn (fun hs => hshort (short_heard.mp hs)) (hkin.say _ _)
      ((say_immediate _ _ _).trans himm) ?_ (next_resumes h)
    rw [← hkin.deadline]
    exact Nat.le_of_not_lt hlate

theorem polled_moves (h : (w.polled deps req env cap p).went = .waits a) :
    Moves deps req env (.poll w) (.polled p) a := by
  have hrunning : ∀ phase, phase = (w.verdict deps req env p).phase → phase ≠ .starting → phase ≠ .running → ¬ StillRuns deps req env w p := by
    rintro phase rfl hstarting hrunning (hruns | hruns)
    · exact hstarting hruns
    · exact hrunning hruns
  rw [polled_went, Watching.follow] at h
  split at h
  · next heq => exact over_moves (hrunning _ heq.symm (by decide) (by decide)) h
  · next heq => exact over_moves (hrunning _ heq.symm (by decide) (by decide)) h
  · next heq => exact lost_moves (hrunning _ heq.symm (by decide) (by decide)) h
  · next heq =>
    have hnot := hrunning _ heq.symm (by decide) (by decide)
    split_ifs at h
    · cases h
      exact .leaves hnot .attached
    · cases h
      exact .leaves hnot (.reap _ _)
  · cases h
  · next heq => exact runs_moves (Or.inl heq) h
  · next heq => exact runs_moves (Or.inr heq) h

theorem pollFailed_resumes {error : Option String}
    (h : (w.pollFailed deps req env cap error).went = .waits a) :
    ∃ w₁, Kin w w₁ 0 ∧ w₁.immediate = w.immediate ∧ Resumes w₁ a := by
  have hstart : Kin w { w with attempts := w.attempts + 1 } 0 := ⟨rfl, rfl, rfl⟩
  unfold Watching.pollFailed at h
  simp only at h
  split_ifs at h
  all_goals
    rw [after_went] at h
    refine ⟨_, ?_, ?_, next_resumes h⟩
    · exact ⟨(hstart.say _ _).deadline, (hstart.say _ _).signalled, (hstart.say _ _).cursor⟩
    · exact say_immediate _ _ _

theorem answered_moves {isUnverified : Bool} {r : Reply}
    (h : (w.answered req env cap isUnverified).went = .waits a) :
    Moves deps req env (.signal w) r a := by
  have hkin : Kin { w with signalled := true } { w with signalled := true, immediate := true } 0 :=
    ⟨rfl, rfl, rfl⟩
  unfold Watching.answered at h
  split_ifs at h
  exact .signals hkin (next_resumes h)

/-- A step from a wait of the loop, unless the watch ends with it. -/
theorem goOn_moves {a₁ : Await} {r : Reply} {t : Turned} (hlive : Looping a w)
    (hgo : a.goOn deps req env cap r = some t) (hwent : t.went = .waits a₁) :
    Moves deps req env a r a₁ := by
  cases hlive with
  | park =>
    cases r <;> cases hgo
    exact .unparks (next_resumes hwent)
  | sleep =>
    cases r <;> cases hgo
    cases hwent
    exact .wakes w
  | poll =>
    cases r <;> cases hgo
    · exact polled_moves hwent
    all_goals
      obtain ⟨w₁, hkin, himm, h⟩ := pollFailed_resumes hwent
      exact .silent (fun p hp => nomatch hp) hkin himm h
  | signal =>
    cases r <;> cases hgo
    · exact answered_moves hwent
    · exact answered_moves hwent
    · cases hwent

/-- On the way out only the removal of the marker directory leads to another wait. -/
theorem goOn_leaving {a₁ : Await} {r : Reply} {t : Turned} (hout : Leaving a)
    (hgo : a.goOn deps req env cap r = some t) (hwent : t.went = .waits a₁) :
    (∃ w after, a = .reap w after) ∧ Leaving a₁ ∧ ∀ w after, a₁ ≠ .reap w after := by
  cases hout with
  | reap w after =>
    have hreaped : (w.reaped cap after).went = .waits a₁ := by
      cases r <;> cases hgo <;> exact hwent
    refine ⟨⟨w, after, rfl⟩, ?_⟩
    cases after with
    | returns r => cases hreaped
    | verify rc =>
      cases hreaped
      exact ⟨.verify _ _ _, fun _ _ h => nomatch h⟩
    | attached =>
      cases hreaped
      exact ⟨.attached, fun _ _ h => nomatch h⟩
  | verify w rc isForeign => cases r <;> cases hgo <;> cases hwent
  | attached => cases r <;> cases hgo <;> cases hwent

end Steps

/-! ## Runs that never return -/

/-- The watch sleeps or is parked. -/
def Await.rests : Await → Bool
  | .sleep _ => true
  | .park _ => true
  | _ => false

/-- A run of the watch that never returns. Time does not go back, and a sleep takes time. -/
structure Endless (deps : DetachedDeps) (req : JobExecRequest) where
  handle : JobDetachedHandle
  opened : ExecEnv
  wait : ℕ → Await
  reply : ℕ → Reply
  env : ℕ → ExecEnv
  known : ℕ → Option JobHostCapability
  begins : (watch req opened (known 0) handle).went = .waits (wait 0)
  goes : ∀ n, ∃ said, (wait n).goOn deps req (env n) (known n) (reply n) =
    some ⟨said, known (n + 1), .waits (wait (n + 1))⟩
  clock : ∀ n, (env n).now ≤ (env (n + 1)).now
  slept : ∀ n, (wait (n + 1)).rests = true → (env n).now < (env (n + 1)).now

namespace Endless
variable {deps : DetachedDeps} {req : JobExecRequest} (run : Endless deps req)

def Polls (n : ℕ) : Prop := ∃ w, run.wait n = .poll w

def Rests (n : ℕ) : Prop := (run.wait n).rests = true

def Signals (n : ℕ) : Prop := ∃ w, run.wait n = .signal w

/-- A poll is answered so. -/
def Answered (n : ℕ) (answer : Watching → JobPollResult → Prop) : Prop :=
  ∃ w p, run.wait n = .poll w ∧ run.reply n = .polled p ∧ answer w p

def cursor (n : ℕ) : Option Nat :=
  match run.wait n with
  | .park w => some w.handle.readOffset
  | .sleep w => some w.handle.readOffset
  | .poll w => some w.handle.readOffset
  | .signal w => some w.handle.readOffset
  | _ => none

/-- `readOffset` goes up. -/
def Advances (n : ℕ) : Prop := ∃ a b, run.cursor n = some a ∧ run.cursor (n + 1) = some b ∧ a < b

/-- A poll records an exit status. -/
def Recorded (n : ℕ) : Prop := run.Answered n fun _ p => p.rc.isSome = true

/-- A poll says of this instance's step that it goes on past its deadline. -/
def Overdue (n : ℕ) : Prop :=
  run.Answered n fun w p => StillRuns deps req (run.env n) w p ∧ ¬ Foreign deps req (run.env n) w p ∧
    w.deadline < (run.env n).now

/-- What is asked of a watch that does not return: it does not go on polling without a wait or
progress, polls no longer once every poll records an exit status, and signals a step that is past
its deadline. -/
structure EndsOrWaits : Prop where
  waits : ¬ ((∀ᶠ n in atTop, ¬ run.Rests n ∧ ¬ run.Advances n) ∧ ∃ᶠ n in atTop, run.Polls n)
  returns : ¬ ((∀ᶠ n in atTop, run.Polls n → run.Recorded n) ∧ ∃ᶠ n in atTop, run.Polls n)
  signals : ¬ ((∃ᶠ n in atTop, run.Overdue n) ∧ ∀ n, ¬ run.Signals n)

/-- From some point on the host announces output and delivers none of it, and the watch never
rests; or every poll records an exit status, and more output than has arrived; or every poll that
finds the step past its deadline announces more than has arrived. -/
def Starves : Prop :=
  (∀ᶠ n in atTop, run.Answered n fun w p => Short w p ∧ p.sent = 0) ∨
    ((∃ᶠ n in atTop, run.Polls n) ∧
      ∀ᶠ n in atTop, run.Polls n → run.Answered n fun w p => p.rc.isSome = true ∧ Short w p) ∨
    ((∃ᶠ n in atTop, run.Overdue n) ∧ ∀ n, run.Overdue n → run.Answered n Short)

end Endless

end OpsMaxx.Jobs
