import OpsMaxx.Rules.Once
import Mathlib.Data.List.Perm.Subperm

/-!
# The rate limit, in wall clock

A ledger holds the times a sweep began, the estate sees the times the rule acted. They are the same
while the clock still reads what it read when the sweep began.
-/

set_option autoImplicit false

namespace OpsMaxx.Rules

open OpsMaxx OpsMaxx.Store

/-! ## Acts and a ledger of them -/

/-- A ledger that has every act the window still holds, and acts no window holds too many of. -/
structure Covers (limit : RuleLimit) (clock : Int) (acts fired : List Int) : Prop where
  ledger : ∀ t, clock - t < limit.windowMs → acts.count t ≤ fired.count t
  bound : ∀ a b : Int, b - a < limit.windowMs →
    (acts.filter fun t => a ≤ t ∧ t ≤ b).length ≤ limit.maxFirings

theorem Covers.nil (limit : RuleLimit) (clock : Int) (fired : List Int) :
    Covers limit clock [] fired :=
  ⟨fun t _ => by simp, fun a b _ => by simp⟩

theorem Covers.tick {limit : RuleLimit} {clock clock' : Int} {acts fired : List Int}
    (h : Covers limit clock acts fired) (hle : clock ≤ clock') : Covers limit clock' acts fired :=
  ⟨fun t ht => h.ledger t (by omega), h.bound⟩

def recent (fired : List Int) (now : Int) (limit : RuleLimit) : List Int :=
  (fired.filter fun t => now - t < limit.windowMs).mergeSort

/-- What a check at some time drops from the ledger has left the window by then. -/
theorem count_recent (fired : List Int) (now : Int) (limit : RuleLimit) {t : Int}
    (ht : now - t < limit.windowMs) : (recent fired now limit).count t = fired.count t := by
  rw [recent, (List.mergeSort_perm _ _).count_eq]
  exact List.count_filter (by simpa using ht)

theorem checkRuleLimit_refused {fired : List Int} {now : Int} {limit : RuleLimit}
    (hno : (checkRuleLimit fired now limit).allowed = false) :
    (checkRuleLimit fired now limit).fired = recent fired now limit := by
  unfold checkRuleLimit at hno ⊢
  dsimp only at hno ⊢
  split_ifs at hno ⊢
  rfl

theorem checkRuleLimit_allowed {fired : List Int} {now : Int} {limit : RuleLimit}
    (hyes : (checkRuleLimit fired now limit).allowed = true) :
    (recent fired now limit).length < limit.maxFirings ∧
      (checkRuleLimit fired now limit).fired = recent fired now limit ++ [now] := by
  unfold checkRuleLimit at hyes ⊢
  dsimp only at hyes ⊢
  split_ifs at hyes ⊢ with hfull
  exact ⟨not_le.mp hfull, rfl⟩

theorem Covers.suppressed {limit : RuleLimit} {clock now : Int} {acts fired : List Int}
    (h : Covers limit clock acts fired) (hle : now ≤ clock)
    (hno : (checkRuleLimit fired now limit).allowed = false) :
    Covers limit clock acts (checkRuleLimit fired now limit).fired := by
  refine ⟨fun t ht => ?_, h.bound⟩
  rw [checkRuleLimit_refused hno, count_recent fired now limit (by omega)]
  exact h.ledger t ht

/-- The acts still in the window are in the ledger, so there is room for one more. -/
theorem Covers.room {limit : RuleLimit} {clock : Int} {acts fired : List Int}
    (h : Covers limit clock acts fired)
    (hyes : (checkRuleLimit fired clock limit).allowed = true) :
    (acts.filter fun t => clock - t < limit.windowMs).length < limit.maxFirings := by
  have hsub : (acts.filter fun t => clock - t < limit.windowMs).Subperm
      (recent fired clock limit) := by
    refine List.subperm_ext_iff.mpr fun t ht => ?_
    have hin : clock - t < limit.windowMs := by simpa using (List.mem_filter.mp ht).2
    rw [count_recent fired clock limit hin, List.count_filter (by simpa using hin)]
    exact h.ledger t hin
  exact hsub.length_le.trans_lt (checkRuleLimit_allowed hyes).1

theorem Covers.act {limit : RuleLimit} {clock : Int} {acts fired : List Int}
    (h : Covers limit clock acts fired)
    (hyes : (checkRuleLimit fired clock limit).allowed = true) :
    Covers limit clock (acts ++ [clock]) (checkRuleLimit fired clock limit).fired := by
  have hroom := h.room hyes
  refine ⟨fun t ht => ?_, fun a b hab => ?_⟩
  · rw [(checkRuleLimit_allowed hyes).2, List.count_append, List.count_append,
      count_recent fired clock limit ht]
    exact Nat.add_le_add_right (h.ledger t ht) _
  · rw [List.filter_append, List.length_append]
    by_cases hin : a ≤ clock ∧ clock ≤ b
    · have hlast : ([clock].filter fun t => a ≤ t ∧ t ≤ b) = [clock] := by simp [hin]
      have hsub : (acts.filter fun t => a ≤ t ∧ t ≤ b).length ≤
          (acts.filter fun t => clock - t < limit.windowMs).length := by
        refine (List.monotone_filter_right acts fun t ht => ?_).length_le
        simp only [decide_eq_true_eq] at ht ⊢
        omega
      rw [hlast, List.length_singleton]
      omega
    · have hlast : ([clock].filter fun t => a ≤ t ∧ t ≤ b) = [] := by simpa using hin
      rw [hlast, List.length_nil, Nat.add_zero]
      exact h.bound a b hab

/-! ## The runs the limit is about -/

/-- Sweeps, `setEnabled`, `list` and `create`, under a clock that does not go back. -/
def ordinary (w : World) : Move → Bool
  | .tick clock => w.clock ≤ clock
  | .remove _ => false
  | .crash => false
  | _ => true

/-! ## Who changes a ledger -/

def World.fired (w : World) (id : String) : List Int := (w.engine.statusFor id).fired

theorem statusFor_setStatus (e : RuleEngine) (id i : String) (s : RuleStatus) :
    (e.setStatus id s).statusFor i = if i = id then s else e.statusFor i := by
  unfold RuleEngine.statusFor RuleEngine.setStatus
  rw [JsMap.get_set]
  split_ifs <;> rfl

theorem settle_fired (rule : Rule) (r : FreshRow) (now : Int) (error : Option String)
    (status : RuleStatus) : (settle rule r now error status).1.fired = status.fired := by
  cases error <;> rfl

theorem getD_ensureStatus (m : JsMap String RuleStatus) (id i : String) :
    ((RuleEngine.ensureStatus m id).get i).getD emptyStatus = (m.get i).getD emptyStatus := by
  unfold RuleEngine.ensureStatus
  split_ifs with h
  · rfl
  · rw [JsMap.get_set]
    split_ifs with hi
    · subst hi
      unfold JsMap.has at h
      rw [Option.not_isSome_iff_eq_none.mp h]
      rfl
    · rfl

theorem getD_ensureAll (ids : List String) (m : JsMap String RuleStatus) (i : String) :
    ((ids.foldl RuleEngine.ensureStatus m).get i).getD emptyStatus =
      (m.get i).getD emptyStatus := by
  induction ids generalizing m with
  | nil => rfl
  | cons id ids ih => rw [List.foldl_cons, ih, getD_ensureStatus]

/-! ## The invariant -/

structure World.Rated (w : World) : Prop where
  begun : ∀ s, w.phase.sweep? = some s → s.now ≤ w.clock
  known : ∀ id, w.engine.objects id = none → w.acts id = []
  covers : ∀ id rule, w.engine.objects id = some rule →
    Covers rule.limit w.clock (w.acts id) (w.fired id)

/-- A step in which no rule acts, and no ledger or limit changes. -/
theorem World.Rated.frame {w w' : World} (h : w.Rated) (hclock : w.clock ≤ w'.clock)
    (hbegun : ∀ s, w'.phase.sweep? = some s → s.now ≤ w'.clock) (hacts : w'.acts = w.acts)
    (hobj : ∀ id rule, w.engine.objects id = some rule →
      ∃ rule', w'.engine.objects id = some rule' ∧ rule'.limit = rule.limit)
    (hfired : ∀ id, (w.engine.objects id).isSome → w'.fired id = w.fired id) : w'.Rated := by
  refine ⟨hbegun, fun id hid => ?_, fun id rule' hrule' => ?_⟩
  · rw [hacts]
    cases hrule : w.engine.objects id with
    | none => exact h.known id hrule
    | some rule =>
      obtain ⟨rule', hrule', -⟩ := hobj id rule hrule
      rw [hid] at hrule'
      cases hrule'
  · rw [hacts]
    cases hrule : w.engine.objects id with
    | none =>
      rw [h.known id hrule]
      exact .nil _ _ _
    | some rule =>
      obtain ⟨rule'', hrule'', hlimit⟩ := hobj id rule hrule
      rw [hrule'] at hrule''
      obtain rfl := Option.some.inj hrule''
      rw [hlimit, hfired id (by rw [hrule]; rfl)]
      exact (h.covers id rule hrule).tick hclock

/-- Whether the next turn has a rule act. -/
def World.aboutToAct (w : World) : Option Sweep :=
  match w.phase with
  | .walking s =>
    match s.todo with
    | [] => none
    | id :: _ =>
      match w.engine.objects id with
      | none => none
      | some rule =>
        if ruleMatches rule s.row.row ∧
          (checkRuleLimit (w.engine.statusFor id).fired s.now rule.limit).allowed
        then some s else none
  | _ => none

/-- A rule acts while the clock still reads what it read when the sweep began. -/
def actsOnTime (w : World) : Move → Bool
  | .turn _ =>
    match w.aboutToAct with
    | none => true
    | some s => w.clock = s.now
  | _ => true

theorem actsOnTime_fire {w : World} {servers : List String} {s : Sweep} {id : String}
    {todo : List String} {rule : Rule} (hok : actsOnTime w (.turn servers) = true)
    (hs : w.phase = .walking s) (htodo : s.todo = id :: todo)
    (hrule : w.engine.objects id = some rule) (hmatch : ruleMatches rule s.row.row = true)
    (hyes : (checkRuleLimit (w.fired id) s.now rule.limit).allowed = true) : w.clock = s.now := by
  have habout : w.aboutToAct = some s := by
    unfold World.fired at hyes
    simp [World.aboutToAct, hs, htodo, hrule, hmatch, hyes]
  simpa [actsOnTime, habout] using hok

theorem World.Rated.begins {w w' : World} (h : w.Rated) (hidle : w.phase = .idle)
    (hb : w.Begins w') (hacts : w'.acts = w.acts) : w'.Rated := by
  have hno : ∀ v : World, v.phase = w.phase → ∀ s, v.phase.sweep? = some s → False := by
    intro v hv s hs
    rw [hv, hidle] at hs
    cases hs
  cases hb with
  | closed =>
    exact h.frame le_rfl (fun s hs => (hno w rfl s hs).elim) hacts
      (fun id rule hrule => ⟨rule, hrule, rfl⟩) fun id _ => rfl
  | first =>
    exact h.frame le_rfl (fun s hs => (hno w rfl s hs).elim) hacts
      (fun id rule hrule => ⟨rule, hrule, rfl⟩) fun id _ => rfl
  | quiet =>
    exact h.frame le_rfl (fun s hs => (hno w rfl s hs).elim) hacts
      (fun id rule hrule => ⟨rule, hrule, rfl⟩) fun id _ => rfl
  | rows m hm s es hplain hbegan hskips hopen =>
    refine h.frame le_rfl ?_ hacts (fun id rule hrule => ⟨rule, hrule, rfl⟩) fun id _ => rfl
    intro s' hs'
    obtain rfl : s = s' := Option.some.inj hs'
    exact hopen.now.le

section Rates
variable [Approval]

theorem proceed_fired (servers : List String) (rule : Rule) (r : FreshRow) (now : Int)
    (status : RuleStatus) : (proceed servers rule r now status).1.fired = status.fired := by
  unfold proceed
  cases verifyRuleAction rule with
  | some reason => rfl
  | none =>
    cases rule.action with
    | notify => rfl
    | job spec targets approval =>
      dsimp only
      split_ifs <;> rfl

theorem fire_fired (servers : List String) (rule : Rule) (r : FreshRow) (now : Int)
    (status : RuleStatus) :
    (fire servers rule r now status).1.fired =
      (checkRuleLimit status.fired now rule.limit).fired := by
  unfold fire
  extract_lets verdict
  split_ifs
  · rfl
  · exact proceed_fired ..

theorem fireRule_acts (w : World) (servers : List String) (s : Sweep) (id i : String)
    (rule : Rule) (hname : rule.id = id) :
    (w.fireRule servers s id rule).acts i = w.acts i ++
      if i = id ∧ (checkRuleLimit (w.fired id) s.now rule.limit).allowed then [w.clock] else [] := by
  have htrace : (w.fireRule servers s id rule).acts i =
      (w.say (fire servers rule s.row s.now (w.engine.statusFor id)).2.1).acts i := rfl
  rw [htrace, World.acts_say, fire_acts, hname]
  congr 1
  unfold World.fired
  split_ifs with hallowed hboth hboth
  · simp [hboth.1]
  · have hne : ¬ id = i := fun h => hboth ⟨h.symm, hallowed⟩
    simp [hne]
  · exact absurd hboth.2 hallowed
  · rfl

theorem fireRule_fired (w : World) (servers : List String) (s : Sweep) (id i : String)
    (rule : Rule) :
    (w.fireRule servers s id rule).fired i =
      if i = id then (checkRuleLimit (w.fired id) s.now rule.limit).fired else w.fired i := by
  unfold World.fired World.fireRule
  rw [statusFor_setStatus]
  split_ifs
  · exact fire_fired ..
  · rfl

theorem World.Rated.fireRule {w : World} (h : w.Rated) (hw : w.Sound) {servers : List String}
    {s : Sweep} {id : String} {todo : List String} {rule : Rule}
    (hok : actsOnTime w (.turn servers) = true) (hs : w.phase = .walking s)
    (htodo : s.todo = id :: todo) (hrule : w.engine.objects id = some rule)
    (hmatch : ruleMatches rule s.row.row = true) :
    (w.fireRule servers { s with todo := todo } id rule).Rated := by
  have hname : rule.id = id := hw.engine.named id rule hrule
  have hnow : s.now ≤ w.clock := h.begun s (by rw [hs]; rfl)
  have hbegun : ∀ s', (w.fireRule servers { s with todo := todo } id rule).phase.sweep? = some s' →
      s'.now ≤ w.clock := by
    intro s' hs'
    simp only [World.fireRule] at hs'
    split at hs'
    · next outcome _ =>
      obtain rfl := Option.some.inj hs'
      cases outcome <;> exact hnow
    · obtain rfl := Option.some.inj hs'
      exact hnow
  refine ⟨hbegun, fun i hi => ?_, fun i rule' hrule' => ?_⟩
  · change w.engine.objects i = none at hi
    have hne : i ≠ id := fun heq => by rw [heq, hrule] at hi; cases hi
    rw [fireRule_acts _ _ _ _ _ _ hname, if_neg (fun hboth => hne hboth.1), List.append_nil]
    exact h.known i hi
  · change w.engine.objects i = some rule' at hrule'
    rw [fireRule_acts _ _ _ _ _ _ hname, fireRule_fired]
    by_cases hi : i = id
    · subst hi
      rw [hrule] at hrule'
      obtain rfl := Option.some.inj hrule'
      rw [if_pos rfl]
      have hcovers := h.covers i rule hrule
      cases hallowed : (checkRuleLimit (w.fired i) s.now rule.limit).allowed with
      | true =>
        have hclock := actsOnTime_fire hok hs htodo hrule hmatch hallowed
        rw [← hclock] at hallowed ⊢
        rw [if_pos ⟨rfl, rfl⟩]
        exact hcovers.act hallowed
      | false =>
        rw [if_neg (fun hboth => by cases hboth.2), List.append_nil]
        exact hcovers.suppressed hnow hallowed
    · rw [if_neg (fun hboth => hi hboth.1), if_neg hi, List.append_nil]
      exact h.covers i rule' hrule'

theorem World.Rated.does {w w' : World} {m : Move} (h : w.Rated) (hw : w.Sound)
    (hord : ordinary w m = true) (hok : actsOnTime w m = true) (hd : Does w m w') : w'.Rated := by
  rcases hd.calls with
    ⟨-, -, hacts⟩ | ⟨servers, s, id, todo, rule, rfl, hs, htodo, hrule, hmatch, rfl⟩
  swap
  · exact h.fireRule hw hok hs htodo hrule hmatch
  cases hd with
  | tick clock =>
    have hle : w.clock ≤ clock := by simpa [ordinary] using hord
    exact h.frame hle (fun s hs => (h.begun s hs).trans hle) hacts
      (fun id rule hrule => ⟨rule, hrule, rfl⟩) fun id _ => rfl
  | openStore =>
    exact h.frame le_rfl h.begun hacts (fun id rule hrule => ⟨rule, hrule, rfl⟩) fun id _ => rfl
  | append e log hlog =>
    exact h.frame le_rfl h.begun hacts (fun id rule hrule => ⟨rule, hrule, rfl⟩) fun id _ => rfl
  | sweep hidle hb => exact h.begins hidle hb hacts
  | pass servers s id todo hs htodo hno =>
    refine h.frame le_rfl ?_ hacts (fun id rule hrule => ⟨rule, hrule, rfl⟩) fun id _ => rfl
    intro s' hs'
    obtain rfl := Option.some.inj hs'
    exact h.begun s (by rw [hs]; rfl)
  | fire servers s id todo rule hs htodo hrule hmatch => exact h.fireRule hw hok hs htodo hrule hmatch
  | nextRow servers s row later hs htodo hlater =>
    refine h.frame ?_ ?_ hacts ?_ ?_
    · rw [w.marked_clock]
    · intro s' hs'
      obtain rfl := Option.some.inj hs'
      rw [w.marked_clock]
      exact h.begun s (by rw [hs]; rfl)
    · intro id rule hrule
      exact ⟨rule, by simpa [w.marked_engine] using hrule, rfl⟩
    · intro id _
      simp only [World.fired, w.marked_engine, RuleEngine.statusFor]
  | finish servers s hs htodo hlater =>
    refine h.frame ?_ (fun s' hs' => by cases hs') hacts ?_ ?_
    · rw [World.finish_clock, w.marked_clock]
    · intro id rule hrule
      exact ⟨rule, by simpa [w.marked_engine] using hrule, rfl⟩
    · intro id _
      simp only [World.fired, World.finish_engine, w.marked_engine, RuleEngine.statusFor]
  | jobDone error s id rule hs hrule =>
    refine h.frame le_rfl ?_ hacts ?_ ?_
    · intro s' hs'
      obtain rfl := Option.some.inj hs'
      have hnow := h.begun s (by rw [hs]; rfl)
      cases (settle rule s.row s.now error (w.engine.statusFor id)).2.2 <;> exact hnow
    · intro i rule' hrule'
      refine ⟨rule', ?_, rfl⟩
      simp only [World.jobDone]
      split_ifs <;> exact hrule'
    · intro i _
      simp only [World.fired, World.jobDone]
      split_ifs
      · rw [statusFor_setStatus]
        split_ifs with hi
        · rw [settle_fired, hi]
        · rfl
      · rfl
  | create draft newId checked hchecked hnew =>
    have hne : ∀ i, (w.engine.objects i).isSome → i ≠ checked.id := by
      intro i hi heq
      rw [heq, hnew] at hi
      cases hi
    refine h.frame le_rfl ?_ hacts ?_ ?_
    · intro s' hs'
      simp only [World.say_phase, sweep?_map, Option.map_eq_some_iff] at hs'
      obtain ⟨s, hs, rfl⟩ := hs'
      unfold Sweep.pushed
      split_ifs <;> exact h.begun s hs
    · intro i rule hrule
      refine ⟨rule, ?_, rfl⟩
      simp only [World.say_engine, World.save_engine, RuleEngine.create_objects,
        RuleEngine.setObject]
      rw [if_neg (hne i (by rw [hrule]; rfl))]
      exact hrule
    · intro i hi
      simp only [World.fired, World.say_engine, World.save_engine, RuleEngine.statusFor,
        RuleEngine.create_status]
      rw [JsMap.get_set_ne _ _ (hne i hi)]
  | setEnabled id enabled rule hin hrule =>
    refine h.frame le_rfl h.begun hacts ?_ fun i _ => rfl
    intro i rule' hrule'
    simp only [World.say_engine, World.save_engine, RuleEngine.setObject]
    by_cases hi : i = id
    · subst hi
      rw [hrule] at hrule'
      obtain rfl := Option.some.inj hrule'
      exact ⟨_, if_pos rfl, rfl⟩
    · exact ⟨rule', by rw [if_neg hi]; exact hrule', rfl⟩
  | remove id hin => cases hord
  | list =>
    refine h.frame le_rfl h.begun hacts (fun id rule hrule => ⟨rule, hrule, rfl⟩) fun i _ => ?_
    exact congrArg RuleStatus.fired (getD_ensureAll _ _ _)
  | nothing => exact h
  | crash => cases hord

end Rates

/-! ## A job that takes its time -/

def tellRule : Rule := { restartRule with
  id := "r2", name := "tell us", action := .notify, limit := ⟨1, 60000⟩ }

def bothFile : RulesFile := ⟨some ⟨0, 0⟩, [restartRule, tellRule], []⟩

/-- Both rules act on one alert, the second when the job of the first is done. -/
def oneSweep (jobDoneAt : Int) : List Move :=
  toJob ++ [.tick jobDoneAt, .jobDone none, .turn [], .turn []]

def nextSweep : List Move :=
  [.tick 3600030, .append ⟨⟨3600025, 2⟩, some downRow⟩, .sweep, .turn ["s1"], .jobDone none,
    .turn []]

end OpsMaxx.Rules
