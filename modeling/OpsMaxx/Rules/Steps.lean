import OpsMaxx.Rules.Engine

/-!
# What a step can do

What each step leaves of the state, said once. `World.Sound` holds of every reachable state, crashes
included: the file carries the watermark the engine has, and a sweep in flight walks rows that
follow the watermark in order.
-/

set_option autoImplicit false

namespace OpsMaxx.Rules

open OpsMaxx OpsMaxx.Store

/-! ## Reading the trace -/

def Entry.fire? : Entry → Option (String × EventCursor)
  | .fire ruleId cursor => some (ruleId, cursor)
  | _ => none

def Entry.job? : Entry → Option (String × EventCursor)
  | .runJob ruleId cursor _ => some (ruleId, cursor)
  | _ => none

def Entry.act? : Entry → Option String
  | .act ruleId _ => some ruleId
  | _ => none

/-- Entries that are no call and say nothing to the outside. -/
def Entry.plain : Entry → Bool
  | .recordEvent _ _ _ _ => true
  | .began => true
  | .swept _ => true
  | _ => false

namespace World

/-- The rows passed to `fire`, with the rules they were passed for. -/
def fires (w : World) : List (String × EventCursor) := w.trace.filterMap fun e => e.2.fire?

def jobs (w : World) : List (String × EventCursor) := w.trace.filterMap fun e => e.2.job?

/-- When a rule acted. -/
def acts (w : World) (ruleId : String) : List Int :=
  (w.trace.filter fun e => e.2.act? = some ruleId).map Prod.fst

@[simp] theorem say_engine (w : World) (es : List Entry) : (w.say es).engine = w.engine := rfl
@[simp] theorem say_phase (w : World) (es : List Entry) : (w.say es).phase = w.phase := rfl
@[simp] theorem say_file (w : World) (es : List Entry) : (w.say es).file = w.file := rfl
@[simp] theorem say_log (w : World) (es : List Entry) : (w.say es).log = w.log := rfl
@[simp] theorem say_clock (w : World) (es : List Entry) : (w.say es).clock = w.clock := rfl
@[simp] theorem say_trace (w : World) (es : List Entry) :
    (w.say es).trace = w.trace ++ es.map fun e => (w.clock, e) := rfl

@[simp] theorem save_engine (w : World) (e : RuleEngine) : (w.save e).engine = e := rfl
@[simp] theorem save_phase (w : World) (e : RuleEngine) : (w.save e).phase = w.phase := rfl
@[simp] theorem save_file (w : World) (e : RuleEngine) : (w.save e).file = e.persist := rfl
@[simp] theorem save_log (w : World) (e : RuleEngine) : (w.save e).log = w.log := rfl
@[simp] theorem save_clock (w : World) (e : RuleEngine) : (w.save e).clock = w.clock := rfl
@[simp] theorem save_trace (w : World) (e : RuleEngine) : (w.save e).trace = w.trace := rfl

@[simp] theorem mark_engine (w : World) (c : EventCursor) :
    (w.mark c).engine = { w.engine with watermark := some c } := rfl
@[simp] theorem mark_phase (w : World) (c : EventCursor) : (w.mark c).phase = w.phase := rfl
@[simp] theorem mark_file (w : World) (c : EventCursor) :
    (w.mark c).file = { w.engine with watermark := some c }.persist := rfl
@[simp] theorem mark_log (w : World) (c : EventCursor) : (w.mark c).log = w.log := rfl
@[simp] theorem mark_clock (w : World) (c : EventCursor) : (w.mark c).clock = w.clock := rfl
@[simp] theorem mark_trace (w : World) (c : EventCursor) : (w.mark c).trace = w.trace := rfl

theorem say_nil (w : World) : w.say [] = w := by simp [say]

theorem filterMap_say {β : Type} (f : Entry → Option β) (w : World) (es : List Entry) :
    (w.say es).trace.filterMap (fun e => f e.2) =
      w.trace.filterMap (fun e => f e.2) ++ es.filterMap f := by
  rw [say_trace, List.filterMap_append, List.filterMap_map]
  rfl

end World

@[simp] theorem persist_watermark (e : RuleEngine) : e.persist.watermark = e.watermark := rfl

@[simp] theorem setStatus_rules (e : RuleEngine) (id : String) (s : RuleStatus) :
    (e.setStatus id s).rules = e.rules := rfl
@[simp] theorem setStatus_objects (e : RuleEngine) (id : String) (s : RuleStatus) :
    (e.setStatus id s).objects = e.objects := rfl
@[simp] theorem setStatus_watermark (e : RuleEngine) (id : String) (s : RuleStatus) :
    (e.setStatus id s).watermark = e.watermark := rfl

/-! ## Entries of a firing -/

/-- Entries that are no call of `fire` or of `runJob`, and no act. -/
def Still (es : List Entry) : Prop :=
  es.filterMap Entry.fire? = [] ∧ es.filterMap Entry.job? = [] ∧ es.filterMap Entry.act? = []

def Plain (es : List Entry) : Prop := ∀ e ∈ es, e.plain = true

theorem Plain.still {es : List Entry} (h : Plain es) : Still es := by
  have hnone : ∀ e ∈ es, e.fire? = none ∧ e.job? = none ∧ e.act? = none := by
    intro e he
    have hplain := h e he
    cases e <;> first | exact ⟨rfl, rfl, rfl⟩ | cases hplain
  refine ⟨?_, ?_, ?_⟩
  · exact List.filterMap_eq_nil_iff.mpr fun e he => (hnone e he).1
  · exact List.filterMap_eq_nil_iff.mpr fun e he => (hnone e he).2.1
  · exact List.filterMap_eq_nil_iff.mpr fun e he => (hnone e he).2.2

theorem refuse_still (rule : Rule) (r : FreshRow) (now : Int) (reason : String)
    (status : RuleStatus) : Still (refuse rule r now reason status).2 :=
  ⟨rfl, rfl, rfl⟩

theorem settle_still (rule : Rule) (r : FreshRow) (now : Int) (error : Option String)
    (status : RuleStatus) : Still (settle rule r now error status).2.1 := by
  cases error with
  | none => exact ⟨rfl, rfl, rfl⟩
  | some reason => exact refuse_still rule r now reason status

section Firing
variable [Approval]

/-- A rule that proceeds calls `runJob` where it then waits, and only there. -/
theorem proceed_calls (servers : List String) (rule : Rule) (r : FreshRow) (now : Int)
    (status : RuleStatus) :
    (proceed servers rule r now status).2.1.filterMap Entry.fire? = [] ∧
    (proceed servers rule r now status).2.1.filterMap Entry.job? =
      (match (proceed servers rule r now status).2.2 with
      | some _ => []
      | none => [(rule.id, r.cursor)]) ∧
    (proceed servers rule r now status).2.1.filterMap Entry.act? = [] := by
  unfold proceed
  cases verifyRuleAction rule with
  | some reason => exact refuse_still rule r now reason status
  | none =>
    cases rule.action with
    | notify => exact ⟨rfl, rfl, rfl⟩
    | job spec targets approval =>
      dsimp only
      split_ifs
      · exact refuse_still rule r now _ status
      · exact ⟨rfl, rfl, rfl⟩

theorem fire_fires (servers : List String) (rule : Rule) (r : FreshRow) (now : Int)
    (status : RuleStatus) :
    (fire servers rule r now status).2.1.filterMap Entry.fire? = [(rule.id, r.cursor)] := by
  unfold fire
  extract_lets verdict
  split_ifs
  · rfl
  · exact congrArg (List.cons (rule.id, r.cursor)) (proceed_calls servers rule r now _).1

theorem fire_jobs (servers : List String) (rule : Rule) (r : FreshRow) (now : Int)
    (status : RuleStatus) :
    (fire servers rule r now status).2.1.filterMap Entry.job? =
      match (fire servers rule r now status).2.2 with
      | some _ => []
      | none => [(rule.id, r.cursor)] := by
  unfold fire
  extract_lets verdict
  split_ifs
  · rfl
  · exact (proceed_calls servers rule r now _).2.1

theorem fire_acts (servers : List String) (rule : Rule) (r : FreshRow) (now : Int)
    (status : RuleStatus) :
    (fire servers rule r now status).2.1.filterMap Entry.act? =
      if (checkRuleLimit status.fired now rule.limit).allowed then [rule.id] else [] := by
  unfold fire
  extract_lets verdict
  cases hallowed : verdict.allowed with
  | false => rw [if_pos rfl, if_neg (by simp)]; rfl
  | true =>
    rw [if_neg (by simp), if_pos rfl]
    exact congrArg (List.cons rule.id) (proceed_calls servers rule r now _).2.2

end Firing

namespace World

theorem fires_say (w : World) (es : List Entry) :
    (w.say es).fires = w.fires ++ es.filterMap Entry.fire? :=
  filterMap_say _ _ _

theorem jobs_say (w : World) (es : List Entry) :
    (w.say es).jobs = w.jobs ++ es.filterMap Entry.job? :=
  filterMap_say _ _ _

theorem acts_say (w : World) (es : List Entry) (id : String) :
    (w.say es).acts id =
      w.acts id ++ ((es.filterMap Entry.act?).filter (· = id)).map fun _ => w.clock := by
  have hes : ((es.map fun e => (w.clock, e)).filter fun e => e.2.act? = some id).map Prod.fst =
      ((es.filterMap Entry.act?).filter (· = id)).map fun _ => w.clock := by
    induction es with
    | nil => rfl
    | cons e es ih =>
      rw [List.map_cons, List.filter_cons, List.filterMap_cons]
      cases hact : e.act? with
      | none => simpa using ih
      | some i =>
        rw [List.filter_cons]
        by_cases hi : i = id
        · simpa [hi] using ih
        · simpa [hi] using ih
  unfold acts
  rw [say_trace, List.filter_append, List.map_append, hes]

theorem calls_congr {w w' : World} (h : w'.trace = w.trace) :
    w'.fires = w.fires ∧ w'.jobs = w.jobs ∧ w'.acts = w.acts := by
  unfold fires jobs acts
  rw [h]
  exact ⟨rfl, rfl, rfl⟩

theorem calls_still {w w' : World} (es : List Entry) (hes : Still es)
    (h : w'.trace = (w.say es).trace) :
    w'.fires = w.fires ∧ w'.jobs = w.jobs ∧ w'.acts = w.acts := by
  obtain ⟨hf, hj, ha⟩ := calls_congr h
  refine ⟨?_, ?_, ?_⟩
  · rw [hf, fires_say, hes.1, List.append_nil]
  · rw [hj, jobs_say, hes.2.1, List.append_nil]
  · rw [ha]
    funext id
    rw [acts_say, hes.2.2, List.filter_nil, List.map_nil, List.append_nil]

end World

/-! ## The rules of a file -/

theorem addSanitised_nodup {out : List Rule} (h : (out.map Rule.id).Nodup) (r : Rule) :
    ((addSanitised out r).map Rule.id).Nodup := by
  unfold addSanitised
  cases sanitiseRule r with
  | none => exact h
  | some rule =>
    dsimp only
    split_ifs with hin
    · exact h
    · rw [List.map_append, List.nodup_append]
      refine ⟨h, by simp, ?_⟩
      intro a ha b hb hab
      simp only [List.map_cons, List.map_nil, List.mem_singleton] at hb
      exact hin (hb ▸ hab ▸ ha)

theorem sanitiseRules_nodup (rules : List Rule) : ((sanitiseRules rules).map Rule.id).Nodup := by
  unfold sanitiseRules
  have hout : (([] : List Rule).map Rule.id).Nodup := by simp
  revert hout
  generalize ([] : List Rule) = out
  intro hout
  induction rules.take MAX_RULES generalizing out with
  | nil => exact hout
  | cons r rest ih => exact ih _ (addSanitised_nodup hout r)

/-! ## What every state has -/

def Phase.sweep? : Phase → Option Sweep
  | .idle => none
  | .walking s => some s
  | .awaiting s _ => some s

@[simp] theorem sweep?_map (p : Phase) (f : Sweep → Sweep) : (p.map f).sweep? = p.sweep?.map f := by
  cases p <;> rfl

namespace RuleEngine

theorem setObject_isSome (e : RuleEngine) (id : String) (rule : Rule) {i : String}
    (hi : (e.objects i).isSome) : ((e.setObject id rule).objects i).isSome := by
  simp only [setObject]
  split_ifs
  · rfl
  · exact hi

/-- Ids name one rule each. -/
structure Sound (e : RuleEngine) : Prop where
  nodup : e.rules.Nodup
  known : ∀ id ∈ e.rules, (e.objects id).isSome
  named : ∀ id rule, e.objects id = some rule → rule.id = id

theorem sound_load (file : RulesFile) : (load file).Sound where
  nodup := sanitiseRules_nodup _
  known := by
    intro id hid
    obtain ⟨rule, hrule, rfl⟩ := List.mem_map.mp hid
    exact List.find?_isSome.mpr ⟨rule, hrule, by simp⟩
  named := by
    intro id rule h
    simpa using List.find?_some h

theorem Sound.setStatus {e : RuleEngine} (h : e.Sound) (id : String) (s : RuleStatus) :
    (e.setStatus id s).Sound := ⟨h.nodup, h.known, h.named⟩

theorem Sound.mark {e : RuleEngine} (h : e.Sound) (c : Option EventCursor) :
    { e with watermark := c }.Sound := ⟨h.nodup, h.known, h.named⟩

theorem Sound.setObject {e : RuleEngine} (h : e.Sound) {id : String} {rule : Rule}
    (hid : rule.id = id) : (e.setObject id rule).Sound where
  nodup := h.nodup
  known := fun i hi => setObject_isSome _ _ _ (h.known i hi)
  named := by
    intro i r hr
    simp only [RuleEngine.setObject] at hr
    split_ifs at hr with hi
    · rw [← Option.some.inj hr, hid, hi]
    · exact h.named i r hr

theorem Sound.list [Approval] {e : RuleEngine} (h : e.Sound) : e.list.2.Sound :=
  ⟨h.nodup, h.known, h.named⟩

theorem create_rules (now : Int) (checked : Rule) (e : RuleEngine) :
    (e.create now checked).rules = e.rules ++ [checked.id] := by
  unfold create
  split_ifs <;> rfl

theorem create_objects (now : Int) (checked : Rule) (e : RuleEngine) :
    (e.create now checked).objects = (e.setObject checked.id checked).objects := by
  unfold create
  split_ifs <;> rfl

theorem create_status (now : Int) (checked : Rule) (e : RuleEngine) :
    (e.create now checked).status = e.status.set checked.id emptyStatus := by
  unfold create
  split_ifs <;> rfl

theorem create_watermark (now : Int) (checked : Rule) (e : RuleEngine) :
    (e.create now checked).watermark = some (e.watermark.getD ⟨now, 0⟩) := by
  unfold create
  cases h : e.watermark <;> simp [setObject, h]

theorem Sound.create {e : RuleEngine} (h : e.Sound) (now : Int) {checked : Rule}
    (hnew : e.objects checked.id = none) : (e.create now checked).Sound := by
  have hset : (e.setObject checked.id checked).Sound := h.setObject rfl
  refine ⟨?_, ?_, ?_⟩
  · rw [create_rules, List.nodup_append]
    refine ⟨h.nodup, by simp, ?_⟩
    intro a ha b hb hab
    have hsome := h.known a ha
    rw [hab, List.mem_singleton.mp hb, hnew] at hsome
    cases hsome
  · intro id hid
    rw [create_rules, List.mem_append, List.mem_singleton] at hid
    rw [create_objects]
    rcases hid with hid | rfl
    · exact hset.known id hid
    · simp [RuleEngine.setObject]
  · intro id rule hrule
    rw [create_objects] at hrule
    exact hset.named id rule hrule

/-- What turning a rule on or off changes is that rule. -/
theorem setEnabled_eq_some {now : Int} {id : String} {enabled : Bool} {e e' : RuleEngine}
    (h : e.setEnabled now id enabled = some e') :
    id ∈ e.rules ∧ ∃ rule, e.objects id = some rule ∧
      e' = e.setObject id
        { rule with enabled := enabled, armedAt := if enabled then now else rule.armedAt } := by
  unfold setEnabled at h
  by_cases hin : id ∈ e.rules
  swap
  · rw [if_neg hin] at h
    cases h
  rw [if_pos hin] at h
  obtain ⟨rule, hrule, rfl⟩ := Option.map_eq_some_iff.mp h
  exact ⟨hin, rule, hrule, rfl⟩

theorem remove_eq_some {id : String} {e e' : RuleEngine} (h : e.remove id = some e') :
    id ∈ e.rules ∧
      e' = { e with rules := e.rules.filter (· ≠ id), status := e.status.delete id } := by
  unfold remove at h
  split_ifs at h with hin
  exact ⟨hin, (Option.some.inj h).symm⟩

end RuleEngine

/-- A sweep past a watermark: what is still to do comes after it, in order. -/
structure Sweep.Sound (objects : String → Option Rule) (watermark : EventCursor) (s : Sweep) :
    Prop where
  sorted : (s.row :: s.later).Pairwise Older
  ahead : watermark < s.row.cursor
  timed : ∀ r ∈ s.row :: s.later, r.row.time = r.cursor.ts
  nodup : s.todo.Nodup
  known : ∀ id ∈ s.todo, (objects id).isSome

structure World.Sound (w : World) : Prop where
  engine : w.engine.Sound
  file : w.file.watermark = w.engine.watermark
  sweep : ∀ s, w.phase.sweep? = some s →
    ∃ m, w.engine.watermark = some m ∧ s.Sound w.engine.objects m
  awaited : ∀ s id, w.phase = .awaiting s id → id ∉ s.todo ∧ (w.engine.objects id).isSome

theorem World.sound_start (file : RulesFile) (log : AlertLog) (clock : Int) :
    (World.start file log clock).Sound :=
  ⟨RuleEngine.sound_load file, rfl, fun s hs => (by cases hs), fun s id hs => (by cases hs)⟩

/-! ## The start of a sweep -/

namespace World

/-- How far back a sweep reads. -/
def since (w : World) (m : EventCursor) : Int := max m.ts (w.clock - RULE_STALE_EVENT_MS)

/-- A sweep as it begins. -/
structure Opening (w : World) (m : EventCursor) (s : Sweep) : Prop where
  opened : w.storeOpen = true
  now : s.now = w.clock
  rows : s.row :: s.later = oldestFirst (readNew w.log m (w.since m)).1
  todo : s.todo = w.engine.rules
  live : s.live = true
  acted : s.acted = false
  suppressed : s.suppressed = .empty

theorem Opening.of_rows {w : World} {m : EventCursor} {row : FreshRow} {later : List FreshRow}
    (hopened : w.storeOpen = true)
    (hrows : oldestFirst (readNew w.log m (w.since m)).1 = row :: later)
    (result : RuleSweepResult) :
    w.Opening m (.opened w.clock row later w.engine.rules result) :=
  ⟨hopened, rfl, hrows.symm, rfl, rfl, rfl, rfl⟩

/-- The record of a sweep that could not read its whole window. -/
def Skips (w : World) (m : EventCursor) (es : List Entry) : Prop :=
  (readNew w.log m (w.since m)).2 = false →
    ∃ payload, .recordEvent RULE_EVENT_SKIPPED none payload w.clock ∈ es

/-- All that a call of `sweep` may do at once. -/
inductive Begins (w : World) : World → Prop
  | closed (hclosed : w.storeOpen = false) : Begins w (w.say [.began, .swept noRows])
  | first (hnone : w.engine.watermark = none) :
      Begins w ((w.mark ⟨w.clock, 0⟩).say [.began, .swept noRows])
  | quiet (m : EventCursor) (hm : w.engine.watermark = some m)
      (hnil : (readNew w.log m (w.since m)).1 = []) (hall : (readNew w.log m (w.since m)).2 = true) :
      Begins w ((w.mark ⟨w.since m, m.id⟩).say [.began, .swept noRows])
  | rows (m : EventCursor) (hm : w.engine.watermark = some m) (s : Sweep) (es : List Entry)
      (hplain : Plain es) (hbegan : .began ∈ es) (hskips : w.Skips m es) (hopen : w.Opening m s) :
      Begins w { w.say es with phase := .walking s }

theorem begins (w : World) : w.Begins w.beginSweep := by
  unfold beginSweep
  split_ifs with hclosed
  · exact .closed hclosed
  cases hm : w.engine.watermark with
  | none => exact .first hm
  | some m =>
    dsimp only
    split_ifs with hnil hall
    · have hsince : max m.ts (w.since m) = w.since m := max_eq_right (le_max_left _ _)
      have hquiet := Begins.quiet m hm hnil hall
      rw [← hsince] at hquiet
      exact hquiet
    · exact absurd hnil (readNew_capped (by simpa using hall))
    · change w.Begins (w.beginRows w.clock (w.since m) (readNew w.log m (w.since m)))
      unfold beginRows
      cases hrows : oldestFirst (readNew w.log m (w.since m)).1 with
      | nil =>
        refine absurd (List.eq_nil_iff_forall_not_mem.mpr fun r hr => ?_) hnil
        have hmem : r ∈ oldestFirst (readNew w.log m (w.since m)).1 := mem_oldestFirst.mpr hr
        rw [hrows] at hmem
        cases hmem
      | cons row later =>
        have hopen := fun result => Opening.of_rows (by simpa using hclosed) hrows result
        cases hall : (readNew w.log m (w.since m)).2 with
        | true =>
          refine .rows m hm _ [.began] (fun e he => ?_) (by simp) (fun h => ?_) (hopen _)
          · rw [List.mem_singleton.mp he]
            rfl
          · rw [hall] at h
            cases h
        | false =>
          refine .rows m hm _ [.began, _] (fun e he => ?_) (by simp)
            (fun _ => ⟨_, List.mem_cons_of_mem _ (List.mem_singleton_self _)⟩) (hopen _)
          rcases List.mem_cons.mp he with rfl | he
          · rfl
          · rw [List.mem_singleton.mp he]
            rfl

theorem Opening.sound {w : World} {m : EventCursor} {s : Sweep} (h : w.Opening m s)
    (hw : w.engine.Sound) : s.Sound w.engine.objects m := by
  have hmem : ∀ r ∈ s.row :: s.later, r ∈ (readNew w.log m (w.since m)).1 := fun r hr => by
    rw [h.rows] at hr
    exact mem_oldestFirst.mp hr
  refine ⟨?_, ?_, ?_, ?_, ?_⟩
  · rw [h.rows]
    exact oldestFirst_sorted _ _ _
  · exact (mem_readNew (hmem _ List.mem_cons_self)).1
  · exact fun r hr => (mem_readNew (hmem r hr)).2.1
  · rw [h.todo]
    exact hw.nodup
  · rw [h.todo]
    exact hw.known

theorem Sound.begins {w w' : World} (h : w.Sound) (hidle : w.phase = .idle) (hb : w.Begins w') :
    w'.Sound := by
  have hno : ∀ v : World, v.phase = .idle → ∀ s, v.phase.sweep? = some s → False := by
    intro v hv s hs
    rw [hv] at hs
    cases hs
  have hnot : ∀ v : World, v.phase = .idle → ∀ s id, v.phase = .awaiting s id → False := by
    intro v hv s id hs
    rw [hv] at hs
    cases hs
  cases hb with
  | closed =>
    exact ⟨h.engine, h.file, fun s hs => (hno w hidle s hs).elim,
      fun s id hs => (hnot w hidle s id hs).elim⟩
  | first =>
    exact ⟨h.engine.mark _, rfl, fun s hs => (hno w hidle s hs).elim,
      fun s id hs => (hnot w hidle s id hs).elim⟩
  | quiet =>
    exact ⟨h.engine.mark _, rfl, fun s hs => (hno w hidle s hs).elim,
      fun s id hs => (hnot w hidle s id hs).elim⟩
  | rows m hm s es hplain hbegan hskips hopen =>
    refine ⟨h.engine, h.file, ?_, by simp⟩
    intro s' hs'
    obtain rfl : s = s' := Option.some.inj hs'
    exact ⟨m, hm, hopen.sound h.engine⟩

/-! ## The end of a row -/

/-- Where a row that something acted on leaves the watermark. -/
def marked (w : World) (s : Sweep) : World := if s.acted then w.mark s.row.cursor else w

theorem endRow_cases (w : World) (s : Sweep) :
    (s.later = [] ∧ w.endRow s = (w.marked s).finish s) ∨
    ∃ row later, s.later = row :: later ∧
      w.endRow s = { w.marked s with
        phase := .walking (s.next row later (w.marked s).engine.rules) } := by
  unfold endRow
  cases hlater : s.later with
  | nil => exact .inl ⟨rfl, rfl⟩
  | cons row later => exact .inr ⟨row, later, rfl, rfl⟩

end World

namespace Sweep

theorem Sound.objects {objects objects' : String → Option Rule} {m : EventCursor} {s : Sweep}
    (h : s.Sound objects m) (hobj : ∀ id, (objects id).isSome → (objects' id).isSome) :
    s.Sound objects' m :=
  ⟨h.sorted, h.ahead, h.timed, h.nodup, fun id hid => hobj id (h.known id hid)⟩

theorem Sound.tail {objects : String → Option Rule} {m : EventCursor} {s : Sweep} {id : String}
    {todo : List String} (h : s.Sound objects m) (htodo : s.todo = id :: todo) :
    { s with todo := todo }.Sound objects m := by
  have hnodup := h.nodup
  have hknown := h.known
  rw [htodo] at hnodup hknown
  exact ⟨h.sorted, h.ahead, h.timed, (List.nodup_cons.mp hnodup).2,
    fun i hi => hknown i (List.mem_cons_of_mem _ hi)⟩

theorem Sound.count {objects : String → Option Rule} {m : EventCursor} {s : Sweep}
    (h : s.Sound objects m) (id : String) (outcome : FireOutcome) :
    (s.count id outcome).Sound objects m := by
  cases outcome <;> exact ⟨h.sorted, h.ahead, h.timed, h.nodup, h.known⟩

theorem Sound.detached {objects : String → Option Rule} {m : EventCursor} {s : Sweep}
    (h : s.Sound objects m) : s.detached.Sound objects m :=
  ⟨h.sorted, h.ahead, h.timed, h.nodup, h.known⟩

theorem Sound.pushed {objects : String → Option Rule} {m : EventCursor} {s : Sweep} {id : String}
    (h : s.Sound objects m) (hid : (objects id).isSome) (hnot : id ∉ s.todo) :
    (s.pushed id).Sound objects m := by
  unfold Sweep.pushed
  split_ifs
  · refine ⟨h.sorted, h.ahead, h.timed, ?_, ?_⟩
    · rw [List.nodup_append]
      refine ⟨h.nodup, by simp, ?_⟩
      intro a ha b hb hab
      exact hnot (List.mem_singleton.mp hb ▸ hab ▸ ha)
    · intro i hi
      rcases List.mem_append.mp hi with hi | hi
      · exact h.known i hi
      · rwa [List.mem_singleton.mp hi]
  · exact h

theorem Sound.next {objects : String → Option Rule} {m m' : EventCursor} {s : Sweep}
    {row : FreshRow} {later : List FreshRow} {todo : List String} (h : s.Sound objects m)
    (hlater : s.later = row :: later) (hm : m' ≤ s.row.cursor) (hnodup : todo.Nodup)
    (hknown : ∀ id ∈ todo, (objects id).isSome) : (s.next row later todo).Sound objects m' := by
  have hsorted := h.sorted
  have htimed := h.timed
  rw [hlater] at hsorted htimed
  rw [List.pairwise_cons] at hsorted
  exact ⟨hsorted.2, hm.trans_lt (hsorted.1 row List.mem_cons_self),
    fun r hr => htimed r (List.mem_cons_of_mem _ hr), hnodup, hknown⟩

end Sweep

namespace World

theorem marked_engine (w : World) (s : Sweep) :
    (w.marked s).engine = { w.engine with
      watermark := if s.acted then some s.row.cursor else w.engine.watermark } := by
  unfold marked
  split_ifs <;> rfl

theorem marked_trace (w : World) (s : Sweep) : (w.marked s).trace = w.trace := by
  unfold marked
  split_ifs <;> rfl

theorem marked_clock (w : World) (s : Sweep) : (w.marked s).clock = w.clock := by
  unfold marked
  split_ifs <;> rfl

theorem marked_log (w : World) (s : Sweep) : (w.marked s).log = w.log := by
  unfold marked
  split_ifs <;> rfl

theorem marked_file {w : World} (h : w.file.watermark = w.engine.watermark) (s : Sweep) :
    (w.marked s).file.watermark = (w.marked s).engine.watermark := by
  unfold marked
  split_ifs
  · rfl
  · exact h

@[simp] theorem finish_engine (w : World) (s : Sweep) :
    (w.finish s).engine = { w.engine with watermark := some s.row.cursor } := rfl
@[simp] theorem finish_phase (w : World) (s : Sweep) : (w.finish s).phase = .idle := rfl
@[simp] theorem finish_clock (w : World) (s : Sweep) : (w.finish s).clock = w.clock := rfl
@[simp] theorem finish_log (w : World) (s : Sweep) : (w.finish s).log = w.log := rfl
@[simp] theorem finish_file (w : World) (s : Sweep) :
    (w.finish s).file.watermark = some s.row.cursor := rfl

theorem finish_trace (w : World) (s : Sweep) :
    ∃ es, Plain es ∧ (w.finish s).trace = (w.say es).trace := by
  refine ⟨s.suppressed.entries.map (w.suppressedRecord s.now) ++ [.swept s.result], ?_, ?_⟩
  · intro e he
    rcases List.mem_append.mp he with he | he
    · obtain ⟨c, -, rfl⟩ := List.mem_map.mp he
      rfl
    · rw [List.mem_singleton.mp he]
      rfl
  · simp [finish, say]

end World

/-- A settled job changes a ledger at most. -/
theorem jobDone_engine (w : World) (s : Sweep) (id : String) (rule : Rule)
    (error : Option String) :
    (w.jobDone s id rule error).engine.watermark = w.engine.watermark ∧
      (w.jobDone s id rule error).engine.objects = w.engine.objects ∧
      (w.jobDone s id rule error).engine.rules = w.engine.rules := by
  simp only [World.jobDone]
  split_ifs <;> exact ⟨rfl, rfl, rfl⟩

/-! ## Every step -/

section Steps
variable [Approval]

/-- What a move may do. `nothing` is a call that returns without a change. -/
inductive Does (w : World) : Move → World → Prop
  | tick (clock : Int) : Does w (.tick clock) { w with clock := clock }
  | openStore : Does w .openStore { w with storeOpen := true }
  | append (e : LogEvent) (log : AlertLog) (hlog : w.log.append e = some log) :
      Does w (.append e) { w with log := log }
  | sweep {w' : World} (hidle : w.phase = .idle) (hb : w.Begins w') : Does w .sweep w'
  | pass (servers : List String) (s : Sweep) (id : String) (todo : List String)
      (hs : w.phase = .walking s) (htodo : s.todo = id :: todo)
      (hno : ∀ rule, w.engine.objects id = some rule → ruleMatches rule s.row.row = false) :
      Does w (.turn servers) { w with phase := .walking { s with todo := todo } }
  | fire (servers : List String) (s : Sweep) (id : String) (todo : List String) (rule : Rule)
      (hs : w.phase = .walking s) (htodo : s.todo = id :: todo)
      (hrule : w.engine.objects id = some rule) (hmatch : ruleMatches rule s.row.row = true) :
      Does w (.turn servers) (w.fireRule servers { s with todo := todo } id rule)
  | nextRow (servers : List String) (s : Sweep) (row : FreshRow) (later : List FreshRow)
      (hs : w.phase = .walking s) (htodo : s.todo = []) (hlater : s.later = row :: later) :
      Does w (.turn servers) { w.marked s with
        phase := .walking (s.next row later (w.marked s).engine.rules) }
  | finish (servers : List String) (s : Sweep) (hs : w.phase = .walking s) (htodo : s.todo = [])
      (hlater : s.later = []) : Does w (.turn servers) ((w.marked s).finish s)
  | jobDone (error : Option String) (s : Sweep) (id : String) (rule : Rule)
      (hs : w.phase = .awaiting s id) (hrule : w.engine.objects id = some rule) :
      Does w (.jobDone error) (w.jobDone s id rule error)
  | create (draft : RuleEngine.RuleDraft) (newId : String) (checked : Rule)
      (hchecked : RuleEngine.checkedRule w.clock newId draft = some checked)
      (hnew : w.engine.objects checked.id = none) :
      Does w (.create draft newId) ({ w.save (w.engine.create w.clock checked) with
        phase := w.phase.map (Sweep.pushed checked.id) }.say [.created checked.id])
  | setEnabled (id : String) (enabled : Bool) (rule : Rule) (hin : id ∈ w.engine.rules)
      (hrule : w.engine.objects id = some rule) :
      Does w (.setEnabled id enabled)
        ((w.save (w.engine.setObject id { rule with
          enabled := enabled, armedAt := if enabled then w.clock else rule.armedAt })).say
            [if enabled then .enabled id else .disabled id])
  | remove (id : String) (hin : id ∈ w.engine.rules) :
      Does w (.remove id) ({ w.save { w.engine with
          rules := w.engine.rules.filter (· ≠ id), status := w.engine.status.delete id } with
        phase := w.phase.map Sweep.detached }.say [.removed id])
  | list : Does w .list { w with engine := w.engine.list.2 }
  | nothing (m : Move) : Does w m w
  | crash : Does w .crash { w with engine := .load w.file, phase := .idle, storeOpen := false }

theorem turn_does {w : World} (servers : List String) {s : Sweep} (hs : w.phase = .walking s) :
    Does w (.turn servers) (w.turn servers s) := by
  unfold World.turn
  cases htodo : s.todo with
  | nil =>
    rcases w.endRow_cases s with ⟨hlater, hend⟩ | ⟨row, later, hlater, hend⟩
    · simp only [hend]
      exact .finish servers s hs htodo hlater
    · simp only [hend]
      exact .nextRow servers s row later hs htodo hlater
  | cons id todo =>
    cases hrule : w.engine.objects id with
    | none =>
      simp only [hrule]
      exact .pass servers s id todo hs htodo fun rule h => by rw [hrule] at h; cases h
    | some rule =>
      simp only [hrule]
      split_ifs with hmatch
      · exact .fire servers s id todo rule hs htodo hrule hmatch
      · refine .pass servers s id todo hs htodo fun rule' h => ?_
        rw [hrule] at h
        obtain rfl := Option.some.inj h
        simpa using hmatch

theorem step_does {w w' : World} {m : Move} (h : step w m = some w') : Does w m w' := by
  cases m with
  | tick clock =>
    obtain rfl := Option.some.inj h
    exact .tick clock
  | openStore =>
    obtain rfl := Option.some.inj h
    exact .openStore
  | append e =>
    obtain ⟨log, hlog, rfl⟩ := Option.map_eq_some_iff.mp h
    exact .append e log hlog
  | sweep =>
    simp only [step] at h
    cases hp : w.phase with
    | idle =>
      rw [hp] at h
      obtain rfl := Option.some.inj h
      exact .sweep hp w.begins
    | walking s =>
      rw [hp] at h
      obtain rfl := Option.some.inj h
      exact .nothing _
    | awaiting s id =>
      rw [hp] at h
      obtain rfl := Option.some.inj h
      exact .nothing _
  | turn servers =>
    simp only [step] at h
    cases hp : w.phase with
    | walking s =>
      rw [hp] at h
      obtain rfl := Option.some.inj h
      exact turn_does servers hp
    | idle => rw [hp] at h; cases h
    | awaiting s id => rw [hp] at h; cases h
  | jobDone error =>
    simp only [step] at h
    cases hp : w.phase with
    | awaiting s id =>
      rw [hp] at h
      obtain ⟨rule, hrule, rfl⟩ := Option.map_eq_some_iff.mp h
      exact .jobDone error s id rule hp hrule
    | idle => rw [hp] at h; cases h
    | walking s => rw [hp] at h; cases h
  | create draft newId =>
    simp only [step] at h
    cases hc : RuleEngine.checkedRule w.clock newId draft with
    | none =>
      rw [hc] at h
      obtain rfl := Option.some.inj h
      exact .nothing _
    | some checked =>
      rw [hc] at h
      dsimp only at h
      split_ifs at h with hnew
      obtain rfl := Option.some.inj h
      exact .create draft newId checked hc hnew
  | setEnabled id enabled =>
    simp only [step] at h
    cases he : w.engine.setEnabled w.clock id enabled with
    | none =>
      rw [he] at h
      obtain rfl := Option.some.inj h
      exact .nothing _
    | some e =>
      rw [he] at h
      obtain ⟨hin, rule, hrule, rfl⟩ := RuleEngine.setEnabled_eq_some he
      obtain rfl := Option.some.inj h
      exact .setEnabled id enabled rule hin hrule
  | remove id =>
    simp only [step] at h
    cases he : w.engine.remove id with
    | none =>
      rw [he] at h
      obtain rfl := Option.some.inj h
      exact .nothing _
    | some e =>
      rw [he] at h
      obtain ⟨hin, rfl⟩ := RuleEngine.remove_eq_some he
      obtain rfl := Option.some.inj h
      exact .remove id hin
  | list =>
    obtain rfl := Option.some.inj h
    exact .list
  | crash =>
    obtain rfl := Option.some.inj h
    exact .crash

/-! ## The invariant of every state -/

theorem World.Sound.does {w w' : World} {m : Move} (h : w.Sound) (hd : Does w m w') :
    w'.Sound := by
  cases hd with
  | tick clock => exact ⟨h.engine, h.file, h.sweep, h.awaited⟩
  | openStore => exact ⟨h.engine, h.file, h.sweep, h.awaited⟩
  | append e log hlog => exact ⟨h.engine, h.file, h.sweep, h.awaited⟩
  | sweep hidle hb => exact h.begins hidle hb
  | pass servers s id todo hs htodo hno =>
    obtain ⟨m, hm, hsound⟩ := h.sweep s (by rw [hs]; rfl)
    refine ⟨h.engine, h.file, ?_, by simp⟩
    intro s' hs'
    obtain rfl := Option.some.inj hs'
    exact ⟨m, hm, hsound.tail htodo⟩
  | fire servers s id todo rule hs htodo hrule hmatch =>
    obtain ⟨m, hm, hsound⟩ := h.sweep s (by rw [hs]; rfl)
    have hnot : id ∉ todo := (List.nodup_cons.mp (htodo ▸ hsound.nodup)).1
    refine ⟨h.engine.setStatus _ _, h.file, ?_, ?_⟩
    · intro s' hs'
      refine ⟨m, hm, ?_⟩
      simp only [World.fireRule] at hs'
      split at hs'
      · obtain rfl := Option.some.inj hs'
        exact (hsound.tail htodo).count _ _
      · obtain rfl := Option.some.inj hs'
        exact hsound.tail htodo
    · intro s' id' hs'
      simp only [World.fireRule] at hs'
      split at hs'
      · cases hs'
      · cases hs'
        exact ⟨hnot, by rw [World.fireRule, setStatus_objects, hrule]; rfl⟩
  | nextRow servers s row later hs htodo hlater =>
    obtain ⟨m, hm, hsound⟩ := h.sweep s (by rw [hs]; rfl)
    refine ⟨?_, w.marked_file h.file s, ?_, by simp⟩
    · simp only [w.marked_engine]
      exact h.engine.mark _
    · intro s' hs'
      obtain rfl := Option.some.inj hs'
      simp only [w.marked_engine]
      cases hacted : s.acted with
      | true =>
        exact ⟨s.row.cursor, by simp,
          hsound.next hlater le_rfl h.engine.nodup h.engine.known⟩
      | false =>
        exact ⟨m, by simpa using hm,
          hsound.next hlater hsound.ahead.le h.engine.nodup h.engine.known⟩
  | finish servers s hs htodo hlater =>
    refine ⟨?_, rfl, fun s' hs' => (by cases hs'), fun s' id hs' => (by cases hs')⟩
    rw [World.finish_engine, w.marked_engine]
    exact h.engine.mark _
  | jobDone error s id rule hs hrule =>
    obtain ⟨m, hm, hsound⟩ := h.sweep s (by rw [hs]; rfl)
    obtain ⟨hwm, hobj, -⟩ := jobDone_engine w s id rule error
    refine ⟨?_, h.file.trans hwm.symm, ?_, by simp [World.jobDone]⟩
    · simp only [World.jobDone]
      split_ifs
      · exact h.engine.setStatus _ _
      · exact h.engine
    · intro s' hs'
      obtain rfl := Option.some.inj hs'
      rw [hobj, hwm]
      exact ⟨m, hm, hsound.count _ _⟩
  | create draft newId checked hchecked hnew =>
    have hobj : ∀ id, (w.engine.objects id).isSome →
        ((w.engine.create w.clock checked).objects id).isSome := by
      intro id hid
      rw [RuleEngine.create_objects]
      exact RuleEngine.setObject_isSome _ _ _ hid
    refine ⟨h.engine.create _ hnew, rfl, ?_, ?_⟩
    · intro s' hs'
      simp only [World.say_phase, sweep?_map, Option.map_eq_some_iff] at hs'
      obtain ⟨s, hs, rfl⟩ := hs'
      obtain ⟨m, hm, hsound⟩ := h.sweep s hs
      refine ⟨m, by simp [RuleEngine.create_watermark, hm], ?_⟩
      refine (hsound.objects hobj).pushed ?_ fun hin => ?_
      · simp [RuleEngine.create_objects, RuleEngine.setObject]
      · have := hsound.known _ hin
        rw [hnew] at this
        cases this
    · intro s' id hs'
      cases hp : w.phase with
      | awaiting s i =>
        simp only [World.say_phase, hp] at hs'
        cases hs'
        obtain ⟨hnot, hsome⟩ := h.awaited s id hp
        refine ⟨?_, hobj id hsome⟩
        unfold Sweep.pushed
        split_ifs
        · intro hin
          rcases List.mem_append.mp hin with hin | hin
          · exact hnot hin
          · rw [List.mem_singleton.mp hin, hnew] at hsome
            cases hsome
        · exact hnot
      | idle => simp only [World.say_phase, hp] at hs'; cases hs'
      | walking s => simp only [World.say_phase, hp] at hs'; cases hs'
  | setEnabled id enabled rule hin hrule =>
    refine ⟨h.engine.setObject (h.engine.named id rule hrule), rfl, ?_, ?_⟩
    · intro s hs
      obtain ⟨m, hm, hsound⟩ := h.sweep s hs
      exact ⟨m, hm, hsound.objects fun i hi => RuleEngine.setObject_isSome _ _ _ hi⟩
    · intro s i hs
      obtain ⟨hnot, hsome⟩ := h.awaited s i hs
      exact ⟨hnot, RuleEngine.setObject_isSome _ _ _ hsome⟩
  | remove id hin =>
    refine ⟨⟨h.engine.nodup.filter _, fun i hi => h.engine.known i (List.mem_of_mem_filter hi),
      h.engine.named⟩, rfl, ?_, ?_⟩
    · intro s' hs'
      simp only [World.say_phase, sweep?_map, Option.map_eq_some_iff] at hs'
      obtain ⟨s, hs, rfl⟩ := hs'
      obtain ⟨m, hm, hsound⟩ := h.sweep s hs
      exact ⟨m, hm, hsound.detached⟩
    · intro s' i hs'
      cases hp : w.phase with
      | awaiting s j =>
        simp only [World.say_phase, hp] at hs'
        cases hs'
        exact h.awaited s i hp
      | idle => simp only [World.say_phase, hp] at hs'; cases hs'
      | walking s => simp only [World.say_phase, hp] at hs'; cases hs'
  | list => exact ⟨h.engine.list, h.file, h.sweep, h.awaited⟩
  | nothing => exact h
  | crash =>
    exact ⟨RuleEngine.sound_load _, rfl, fun s hs => (by cases hs), fun s id hs => (by cases hs)⟩

theorem World.Sound.step {w w' : World} {m : Move} (h : w.Sound) (hs : Rules.step w m = some w') :
    w'.Sound :=
  h.does (step_does hs)

/-! ## Calls of `fire` and of `runJob` -/

namespace World

theorem fireRule_fires (w : World) (servers : List String) (s : Sweep) (id : String) (rule : Rule) :
    (w.fireRule servers s id rule).fires = w.fires ++ [(rule.id, s.row.cursor)] := by
  have htrace : (w.fireRule servers s id rule).fires =
      (w.say (Rules.fire servers rule s.row s.now (w.engine.statusFor id)).2.1).fires := rfl
  rw [htrace, fires_say, fire_fires]

theorem fireRule_jobs (w : World) (servers : List String) (s : Sweep) (id : String) (rule : Rule) :
    ((w.fireRule servers s id rule).phase = .awaiting s id ∧
      (w.fireRule servers s id rule).jobs = w.jobs ++ [(rule.id, s.row.cursor)]) ∨
    ∃ outcome, (w.fireRule servers s id rule).phase = .walking (s.count id outcome) ∧
      (w.fireRule servers s id rule).jobs = w.jobs := by
  have htrace : (w.fireRule servers s id rule).jobs =
      (w.say (Rules.fire servers rule s.row s.now (w.engine.statusFor id)).2.1).jobs := rfl
  rw [htrace, jobs_say, fire_jobs]
  simp only [fireRule]
  cases (Rules.fire servers rule s.row s.now (w.engine.statusFor id)).2.2 with
  | none => exact .inl ⟨rfl, rfl⟩
  | some outcome => exact .inr ⟨outcome, rfl, List.append_nil _⟩

end World

/-- Only a rule handed a row adds to the calls. -/
theorem Does.calls {w w' : World} {m : Move} (hd : Does w m w') :
    (w'.fires = w.fires ∧ w'.jobs = w.jobs ∧ w'.acts = w.acts) ∨
    ∃ servers s id todo rule, m = .turn servers ∧ w.phase = .walking s ∧ s.todo = id :: todo ∧
      w.engine.objects id = some rule ∧ ruleMatches rule s.row.row = true ∧
      w' = w.fireRule servers { s with todo := todo } id rule := by
  cases hd with
  | fire servers s id todo rule hs htodo hrule hmatch =>
    exact .inr ⟨servers, s, id, todo, rule, rfl, hs, htodo, hrule, hmatch, rfl⟩
  | sweep hidle hb =>
    left
    cases hb with
    | rows m hm s es hplain hbegan hskips hopen => exact World.calls_still es hplain.still rfl
    | closed => exact World.calls_still [.began, .swept World.noRows] ⟨rfl, rfl, rfl⟩ rfl
    | first => exact World.calls_still [.began, .swept World.noRows] ⟨rfl, rfl, rfl⟩ rfl
    | quiet => exact World.calls_still [.began, .swept World.noRows] ⟨rfl, rfl, rfl⟩ rfl
  | nextRow servers s row later hs htodo hlater =>
    exact .inl (World.calls_congr (w.marked_trace s))
  | finish servers s hs htodo hlater =>
    left
    obtain ⟨es, hes, htrace⟩ := (w.marked s).finish_trace s
    refine World.calls_still es hes.still (htrace.trans ?_)
    rw [World.say_trace, World.say_trace, w.marked_trace, w.marked_clock]
  | jobDone error s id rule hs hrule =>
    exact .inl (World.calls_still _ (settle_still rule s.row s.now error _) rfl)
  | setEnabled id enabled rule hin hrule =>
    left
    refine World.calls_still [if enabled then .enabled id else .disabled id] ?_ rfl
    cases enabled <;> exact ⟨rfl, rfl, rfl⟩
  | create draft newId checked =>
    exact .inl (World.calls_still [.created checked.id] ⟨rfl, rfl, rfl⟩ rfl)
  | remove id hin => exact .inl (World.calls_still [.removed id] ⟨rfl, rfl, rfl⟩ rfl)
  | _ => exact .inl ⟨rfl, rfl, rfl⟩

end Steps

end OpsMaxx.Rules
