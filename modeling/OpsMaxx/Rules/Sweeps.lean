import OpsMaxx.Rules.Once

/-!
# Every alert, once

Sweeps that do not crash, with the calls to the engine between them. What a sweep can first see it
hands to every rule it matches, once and oldest first, and what it cannot it says it skipped.
-/

set_option autoImplicit false

namespace OpsMaxx.Rules

open OpsMaxx OpsMaxx.Store

/-! ## The runs -/

def Entry.isBegan : Entry → Bool
  | .began => true
  | _ => false

def Phase.isIdle : Phase → Bool
  | .idle => true
  | _ => false

theorem isIdle_iff {p : Phase} : p.isIdle = true ↔ p = .idle := by
  cases p <;> simp [Phase.isIdle]

/-- Rows come in increasing order, sweeps begin at increasing times, calls come between sweeps. -/
def orderly (w : World) : Move → Prop
  | .tick clock => w.clock ≤ clock
  | .append e => ∀ e' ∈ w.log.events, e'.cursor < e.cursor
  | .sweep => w.phase.isIdle = true → ∀ x ∈ w.trace, x.2.isBegan = true → x.1 < w.clock
  | .create _ _ => w.phase.isIdle = true
  | .setEnabled _ _ => w.phase.isIdle = true
  | .remove _ => w.phase.isIdle = true
  | .list => w.phase.isIdle = true
  | .crash => False
  | _ => True

instance (w : World) : (m : Move) → Decidable (orderly w m)
  | .tick clock => inferInstanceAs (Decidable (w.clock ≤ clock))
  | .append e => inferInstanceAs (Decidable (∀ e' ∈ w.log.events, e'.cursor < e.cursor))
  | .sweep => inferInstanceAs (Decidable (w.phase.isIdle = true →
      ∀ x ∈ w.trace, x.2.isBegan = true → x.1 < w.clock))
  | .create _ _ => inferInstanceAs (Decidable (w.phase.isIdle = true))
  | .setEnabled _ _ => inferInstanceAs (Decidable (w.phase.isIdle = true))
  | .remove _ => inferInstanceAs (Decidable (w.phase.isIdle = true))
  | .list => inferInstanceAs (Decidable (w.phase.isIdle = true))
  | .crash => inferInstanceAs (Decidable False)
  | .openStore => inferInstanceAs (Decidable True)
  | .turn _ => inferInstanceAs (Decidable True)
  | .jobDone _ => inferInstanceAs (Decidable True)

/-- No sweep begins that reads the log. -/
def unseeing (w : World) (m : Move) : Prop :=
  orderly w m ∧ (m = .sweep → w.phase ≠ .idle ∨ w.storeOpen = false)

/-! ## The watermark goes forward -/

def World.Reached (w : World) (m : EventCursor) : Prop :=
  ∃ m', w.engine.watermark = some m' ∧ m ≤ m'

theorem since_le (w : World) (m : EventCursor) : m ≤ ⟨w.since m, m.id⟩ := by
  have hsince : m.ts ≤ w.since m := le_max_left _ _
  rcases hsince.lt_or_eq with hlt | heq
  · exact (EventCursor.lt_iff.mpr (.inl hlt)).le
  · rw [← heq]

theorem World.marked_watermark {w : World} (hw : w.Sound) {s : Sweep} (hs : w.phase = .walking s) :
    ∃ m m', w.engine.watermark = some m ∧ (w.marked s).engine.watermark = some m' ∧ m ≤ m' ∧
      m' ≤ s.row.cursor := by
  obtain ⟨m, hm, hsound⟩ := hw.sweep s (by rw [hs]; rfl)
  rw [w.marked_engine]
  cases s.acted with
  | true => exact ⟨m, s.row.cursor, hm, rfl, hsound.ahead.le, le_rfl⟩
  | false => exact ⟨m, m, hm, hm, le_rfl, hsound.ahead.le⟩

/-- What has been handled lies behind the sweep. -/
structure World.InOrder (w : World) : Prop where
  nodup : w.fires.Nodup
  sorted : (w.fires.map Prod.snd).Pairwise (· ≤ ·)
  behind : ∀ f ∈ w.fires, (∃ m, w.engine.watermark = some m ∧ f.2 ≤ m) ∨
    ∃ s, w.phase.sweep? = some s ∧ f.2 ≤ s.row.cursor ∧ (f.2 = s.row.cursor → f.1 ∉ s.todo)

theorem World.InOrder.of_behind {w w' : World} (h : w.InOrder) (hfires : w'.fires = w.fires)
    (hbehind : ∀ f : String × EventCursor,
      (∃ m, w.engine.watermark = some m ∧ f.2 ≤ m) ∨
        (∃ s, w.phase.sweep? = some s ∧ f.2 ≤ s.row.cursor ∧
          (f.2 = s.row.cursor → f.1 ∉ s.todo)) →
      (∃ m, w'.engine.watermark = some m ∧ f.2 ≤ m) ∨
        (∃ s, w'.phase.sweep? = some s ∧ f.2 ≤ s.row.cursor ∧
          (f.2 = s.row.cursor → f.1 ∉ s.todo))) : w'.InOrder := by
  refine ⟨hfires ▸ h.nodup, hfires ▸ h.sorted, fun f hf => ?_⟩
  rw [hfires] at hf
  exact hbehind f (h.behind f hf)

/-! ## The sweep that first sees a row -/

/-- The rows of a sweep come from the log. -/
def World.Logged (w : World) : Prop :=
  ∀ s, w.phase.sweep? = some s → ∀ r ∈ s.row :: s.later, ∃ e ∈ w.log.events, e.cursor = r.cursor

/-- Where the watermark is for a row still to come: before it, or where the row is stale at every
later sweep. -/
def World.Awaits (w : World) (c : EventCursor) : Prop :=
  (∃ m, w.engine.watermark = some m ∧ m < c) ∨
  ((∃ m, w.engine.watermark = some m) ∧
    ∃ t, (t, Entry.began) ∈ w.trace ∧ c.ts ≤ t - RULE_STALE_EVENT_MS)

theorem append_events {log log' : AlertLog} {e : LogEvent} (h : log.append e = some log') :
    log'.events = log.events ++ [e] := by
  unfold AlertLog.append at h
  split_ifs at h
  exact congrArg AlertLog.events (Option.some.inj h).symm

/-- The sweep in flight, if any, is over rows before a place in the log, and the watermark waits for
it. -/
structure World.Ahead (w : World) (c : EventCursor) : Prop where
  awaits : w.Awaits c
  rows : ∀ s, w.phase.sweep? = some s → ∀ r ∈ s.row :: s.later, r.cursor < c

theorem World.Awaits.mono {w w' : World} {c : EventCursor} (h : w.Awaits c)
    (hwm : w'.engine.watermark = w.engine.watermark) (htrace : ∀ x ∈ w.trace, x ∈ w'.trace) :
    w'.Awaits c := by
  rcases h with ⟨m, hm, hlt⟩ | ⟨⟨m, hm⟩, t, hin, hle⟩
  · exact .inl ⟨m, hwm.trans hm, hlt⟩
  · exact .inr ⟨⟨m, hwm.trans hm⟩, t, htrace _ hin, hle⟩

theorem World.Awaits.quiet {w : World} {c m : EventCursor} (h : w.Awaits c)
    (hm : w.engine.watermark = some m) (es : List Entry) (hbegan : .began ∈ es) :
    ((w.mark ⟨w.since m, m.id⟩).say es).Awaits c := by
  by_cases hlt : (⟨w.since m, m.id⟩ : EventCursor) < c
  · exact .inl ⟨_, rfl, hlt⟩
  · refine .inr ⟨⟨_, rfl⟩, ?_⟩
    have hpast : c.ts ≤ w.since m := by
      rw [EventCursor.lt_iff] at hlt
      dsimp only at hlt
      omega
    rcases h with ⟨m', hm', hlt'⟩ | ⟨-, t, hin, hle⟩
    · rw [hm] at hm'
      obtain rfl := Option.some.inj hm'
      refine ⟨w.clock, ?_, ?_⟩
      · exact List.mem_append_right _ (List.mem_map.mpr ⟨_, hbegan, rfl⟩)
      · -- a window that did not move would leave the row ahead
        by_contra hnew
        refine hlt ?_
        have hsince : w.since m = max m.ts (w.clock - RULE_STALE_EVENT_MS) := rfl
        rw [EventCursor.lt_iff] at hlt' ⊢
        dsimp only
        omega
    · exact ⟨t, List.mem_append_left _ hin, hle⟩

/-! ## What the sweep still has to do -/

/-- The row has been handed to the rule, or the sweep has it ahead of it. -/
def World.Due (w : World) (r : FreshRow) (rule : Rule) : Prop :=
  (rule.id, r.cursor) ∈ w.fires ∨
  ∃ s, w.phase.sweep? = some s ∧ w.engine.objects rule.id = some rule ∧
    ((s.row = r ∧ rule.id ∈ s.todo) ∨ (r ∈ s.later ∧ rule.id ∈ w.engine.rules))

/-- A row ahead of the watermark and in the window is ahead of the sweep, or the sweep says that it
skipped some. -/
theorem World.Begins.due {w w' : World} {e : LogEvent} {row : StoredAlertRow} {rule : Rule}
    {m : EventCursor} (hb : w.Begins w') (hopen : w.storeOpen = true)
    (hm : w.engine.watermark = some m) (hlt : m < e.cursor) (he : e ∈ w.log.events)
    (hrow : e.payload = some row) (hfresh : w.clock - RULE_STALE_EVENT_MS ≤ e.cursor.ts)
    (hrule : rule.id ∈ w.engine.rules) (hobj : w.engine.objects rule.id = some rule) :
    w'.Due ⟨{ row with time := e.cursor.ts }, e.cursor⟩ rule ∨
      ∃ es payload, w'.trace = w.trace ++ es ∧
        (w.clock, .recordEvent RULE_EVENT_SKIPPED none payload w.clock) ∈ es := by
  have hsince : w.since m ≤ e.cursor.ts := by
    refine max_le ?_ hfresh
    rcases EventCursor.lt_iff.mp hlt with hts | hts
    · exact hts.le
    · exact hts.1.le
  have hread := fun hall : (readNew w.log m (w.since m)).2 = true =>
    readNew_complete hall he hsince hlt hrow
  cases hb with
  | closed hclosed => rw [hopen] at hclosed; cases hclosed
  | first hnone => rw [hm] at hnone; cases hnone
  | quiet m' hm' hnil hall =>
    rw [hm] at hm'
    obtain rfl := Option.some.inj hm'
    have hin := hread hall
    rw [hnil] at hin
    cases hin
  | rows m' hm' s es hplain hbegan hskips hopening =>
    rw [hm] at hm'
    obtain rfl := Option.some.inj hm'
    cases hall : (readNew w.log m (w.since m)).2 with
    | true =>
      refine .inl (.inr ⟨s, rfl, hobj, ?_⟩)
      have hin := mem_oldestFirst.mpr (hread hall)
      rw [← hopening.rows, List.mem_cons] at hin
      rcases hin with hin | hin
      · exact .inl ⟨hin.symm, by rw [hopening.todo]; exact hrule⟩
      · exact .inr ⟨hin, hrule⟩
    | false =>
      obtain ⟨payload, hpayload⟩ := hskips hall
      exact .inr ⟨_, payload, rfl, List.mem_map.mpr ⟨_, hpayload, rfl⟩⟩

theorem count_rows {s : Sweep} {id : String} {outcome : FireOutcome} :
    (s.count id outcome).row = s.row ∧ (s.count id outcome).later = s.later := by
  cases outcome <;> exact ⟨rfl, rfl⟩

section Sweeps
variable [Approval]

theorem World.fireRule_rows {w : World} {servers : List String} {s s' : Sweep} {id : String}
    {rule : Rule} (h : (w.fireRule servers s id rule).phase.sweep? = some s') :
    s'.row = s.row ∧ s'.later = s.later := by
  rcases w.fireRule_jobs servers s id rule with ⟨hp, -⟩ | ⟨outcome, hp, -⟩
  · rw [hp] at h
    obtain rfl := Option.some.inj h
    exact ⟨rfl, rfl⟩
  · rw [hp] at h
    obtain rfl := Option.some.inj h
    exact count_rows

theorem World.Reached.does {w w' : World} {m : EventCursor} {mv : Move} (h : w.Reached m)
    (hw : w.Sound) (hok : orderly w mv) (hd : Does w mv w') : w'.Reached m := by
  obtain ⟨m', hm', hle⟩ := h
  cases hd with
  | sweep hidle hb =>
    cases hb with
    | closed => exact ⟨m', hm', hle⟩
    | first hnone => rw [hm'] at hnone; cases hnone
    | quiet m'' hm'' =>
      rw [hm'] at hm''
      obtain rfl := Option.some.inj hm''
      exact ⟨_, rfl, hle.trans (since_le w m')⟩
    | rows => exact ⟨m', hm', hle⟩
  | nextRow servers s row later hs htodo hlater =>
    obtain ⟨m₁, m₂, hm₁, hm₂, hle', -⟩ := World.marked_watermark hw hs
    rw [hm'] at hm₁
    obtain rfl := Option.some.inj hm₁
    exact ⟨m₂, hm₂, hle.trans hle'⟩
  | finish servers s hs htodo hlater =>
    obtain ⟨m₁, m₂, hm₁, hm₂, hle', hrow⟩ := World.marked_watermark hw hs
    rw [hm'] at hm₁
    obtain rfl := Option.some.inj hm₁
    exact ⟨s.row.cursor, rfl, hle.trans (hle'.trans hrow)⟩
  | jobDone error s id rule hs hrule =>
    exact ⟨m', (jobDone_engine w s id rule error).1.trans hm', hle⟩
  | create draft newId checked hchecked hnew =>
    exact ⟨m', by simp [RuleEngine.create_watermark, hm'], hle⟩
  | crash => exact hok.elim
  | _ => exact ⟨m', hm', hle⟩

/-! ## Oldest first, and once -/

theorem World.InOrder.fireRule {w : World} (h : w.InOrder) (hw : w.Sound) (servers : List String)
    {s : Sweep} {id : String} {todo : List String} {rule : Rule} (hs : w.phase = .walking s)
    (htodo : s.todo = id :: todo) (hrule : w.engine.objects id = some rule) :
    (w.fireRule servers { s with todo := todo } id rule).InOrder := by
  have hname : rule.id = id := hw.engine.named id rule hrule
  obtain ⟨m, hm, hsound⟩ := hw.sweep s (by rw [hs]; rfl)
  have hnot : id ∉ todo := (List.nodup_cons.mp (htodo ▸ hsound.nodup)).1
  -- every earlier call was for an earlier row, or for this row and a rule already visited
  have hold : ∀ f ∈ w.fires, f.2 ≤ s.row.cursor ∧ (f.2 = s.row.cursor → f.1 ∉ s.todo) := by
    intro f hf
    rcases h.behind f hf with ⟨m', hm', hle⟩ | ⟨s', hs', hle, hin⟩
    · rw [hm] at hm'
      obtain rfl := Option.some.inj hm'
      have hlt := hle.trans_lt hsound.ahead
      exact ⟨hlt.le, fun heq => absurd heq hlt.ne⟩
    · rw [hs] at hs'
      obtain rfl : s = s' := Option.some.inj hs'
      exact ⟨hle, hin⟩
  have hphase : ∃ s', (w.fireRule servers { s with todo := todo } id rule).phase.sweep? = some s' ∧
      s'.row = s.row ∧ s'.todo = todo := by
    rcases w.fireRule_jobs servers { s with todo := todo } id rule with
      ⟨hp, -⟩ | ⟨outcome, hp, -⟩
    · exact ⟨{ s with todo := todo }, by rw [hp]; rfl, rfl, rfl⟩
    · obtain ⟨hrow, htodo'⟩ := count_row { s with todo := todo } id outcome
      exact ⟨_, by rw [hp]; rfl, hrow, htodo'⟩
  obtain ⟨s', hs', hrow', htodo'⟩ := hphase
  have hfires := w.fireRule_fires servers { s with todo := todo } id rule
  rw [hname] at hfires
  refine ⟨?_, ?_, fun f hf => ?_⟩
  · rw [hfires, List.nodup_append]
    refine ⟨h.nodup, by simp, ?_⟩
    intro a ha b hb hab
    rw [List.mem_singleton] at hb
    subst hab
    subst hb
    exact (hold _ ha).2 rfl (by rw [htodo]; simp)
  · rw [hfires, List.map_append, List.pairwise_append]
    refine ⟨h.sorted, by simp, ?_⟩
    intro c hc c' hc'
    obtain ⟨f, hf, rfl⟩ := List.mem_map.mp hc
    rw [List.map_singleton, List.mem_singleton] at hc'
    rw [hc']
    exact (hold f hf).1
  · right
    refine ⟨s', hs', ?_⟩
    rw [hrow', htodo']
    rw [hfires, List.mem_append, List.mem_singleton] at hf
    rcases hf with hf | rfl
    · obtain ⟨hle, hin⟩ := hold f hf
      refine ⟨hle, fun heq ht => hin heq ?_⟩
      rw [htodo]
      exact List.mem_cons_of_mem _ ht
    · exact ⟨le_rfl, fun _ => hnot⟩

theorem World.InOrder.does {w w' : World} {mv : Move} (h : w.InOrder) (hw : w.Sound)
    (hok : orderly w mv) (hd : Does w mv w') : w'.InOrder := by
  rcases hd.calls with ⟨hfires, -⟩ | ⟨servers, s, id, todo, rule, -, hs, htodo, hrule, -, rfl⟩
  swap
  · exact h.fireRule hw servers hs htodo hrule
  cases hd with
  | tick clock => exact h.of_behind hfires fun f hf => hf
  | openStore => exact h.of_behind hfires fun f hf => hf
  | append e log hlog => exact h.of_behind hfires fun f hf => hf
  | sweep hidle hb =>
    refine h.of_behind hfires fun f hf => ?_
    rcases hf with ⟨m, hm, hle⟩ | ⟨s, hs, -⟩
    · left
      cases hb with
      | closed => exact ⟨m, hm, hle⟩
      | first hnone => rw [hm] at hnone; cases hnone
      | quiet m' hm' =>
        rw [hm] at hm'
        obtain rfl := Option.some.inj hm'
        exact ⟨_, rfl, hle.trans (since_le w m)⟩
      | rows => exact ⟨m, hm, hle⟩
    · rw [hidle] at hs
      cases hs
  | pass servers s id todo hs htodo hno =>
    refine h.of_behind hfires fun f hf => ?_
    rcases hf with hle | ⟨s', hs', hle, hin⟩
    · exact .inl hle
    · rw [hs] at hs'
      obtain rfl : s = s' := Option.some.inj hs'
      refine .inr ⟨{ s with todo := todo }, rfl, hle, fun heq ht => hin heq ?_⟩
      rw [htodo]
      exact List.mem_cons_of_mem _ ht
  | fire servers s id todo rule hs htodo hrule hmatch => exact h.fireRule hw servers hs htodo hrule
  | nextRow servers s row later hs htodo hlater =>
    obtain ⟨m, m', hm, hm', hle', hrow⟩ := World.marked_watermark hw hs
    obtain ⟨m₀, -, hsound⟩ := hw.sweep s (by rw [hs]; rfl)
    have hlt : s.row.cursor < row.cursor :=
      (List.pairwise_cons.mp hsound.sorted).1 row (by rw [hlater]; simp)
    refine h.of_behind hfires fun f hf => ?_
    rcases hf with ⟨m₁, hm₁, hle⟩ | ⟨s', hs', hle, -⟩
    · rw [hm] at hm₁
      obtain rfl := Option.some.inj hm₁
      exact .inl ⟨m', hm', hle.trans hle'⟩
    · rw [hs] at hs'
      obtain rfl : s = s' := Option.some.inj hs'
      have hf := hle.trans_lt hlt
      exact .inr ⟨_, rfl, hf.le, fun heq => absurd heq hf.ne⟩
  | finish servers s hs htodo hlater =>
    obtain ⟨m, m', hm, hm', hle', hrow⟩ := World.marked_watermark hw hs
    refine h.of_behind hfires fun f hf => .inl ⟨s.row.cursor, rfl, ?_⟩
    rcases hf with ⟨m₁, hm₁, hle⟩ | ⟨s', hs', hle, -⟩
    · rw [hm] at hm₁
      obtain rfl := Option.some.inj hm₁
      exact hle.trans (hle'.trans hrow)
    · rw [hs] at hs'
      obtain rfl : s = s' := Option.some.inj hs'
      exact hle
  | jobDone error s id rule hs hrule =>
    refine h.of_behind hfires fun f hf => ?_
    rcases hf with ⟨m, hm, hle⟩ | ⟨s', hs', hle, hin⟩
    · exact .inl ⟨m, (jobDone_engine w s id rule error).1.trans hm, hle⟩
    · rw [hs] at hs'
      obtain rfl : s = s' := Option.some.inj hs'
      obtain ⟨hrow, htodo⟩ := count_row s id
        (settle rule s.row s.now error (w.engine.statusFor id)).2.2
      refine .inr ⟨_, rfl, ?_⟩
      rw [hrow, htodo]
      exact ⟨hle, hin⟩
  | create draft newId checked hchecked hnew =>
    refine h.of_behind hfires fun f hf => ?_
    rcases hf with ⟨m, hm, hle⟩ | ⟨s, hs, -⟩
    · exact .inl ⟨m, by simp [RuleEngine.create_watermark, hm], hle⟩
    · have hidle : w.phase = .idle := isIdle_iff.mp hok
      rw [hidle] at hs
      cases hs
  | setEnabled id enabled rule hin hrule => exact h.of_behind hfires fun f hf => hf
  | remove id hin =>
    refine h.of_behind hfires fun f hf => ?_
    rcases hf with hle | ⟨s, hs, -⟩
    · exact .inl hle
    · have hidle : w.phase = .idle := isIdle_iff.mp hok
      rw [hidle] at hs
      cases hs
  | list => exact h.of_behind hfires fun f hf => hf
  | nothing => exact h
  | crash => exact hok.elim

theorem World.Logged.does {w w' : World} {mv : Move} (h : w.Logged) (hok : orderly w mv)
    (hd : Does w mv w') : w'.Logged := by
  intro s' hs' r hr
  cases hd with
  | append e log hlog =>
    obtain ⟨e', he', hcursor⟩ := h s' hs' r hr
    exact ⟨e', by rw [append_events hlog]; exact List.mem_append_left _ he', hcursor⟩
  | sweep hidle hb =>
    cases hb with
    | closed => exact h s' hs' r hr
    | first => exact h s' hs' r hr
    | quiet => exact h s' hs' r hr
    | rows m hm s es hplain hbegan hskips hopen =>
      obtain rfl : s = s' := Option.some.inj hs'
      rw [hopen.rows] at hr
      exact (mem_readNew (mem_oldestFirst.mp hr)).2.2.2
  | pass servers s id todo hs htodo hno =>
    obtain rfl := Option.some.inj hs'
    exact h s (by rw [hs]; rfl) r hr
  | fire servers s id todo rule hs htodo hrule hmatch =>
    have hrows := World.fireRule_rows hs'
    rw [hrows.1, hrows.2] at hr
    exact h s (by rw [hs]; rfl) r hr
  | nextRow servers s row later hs htodo hlater =>
    obtain rfl := Option.some.inj hs'
    rw [w.marked_log]
    refine h s (by rw [hs]; rfl) r (List.mem_cons_of_mem _ ?_)
    rw [hlater]
    exact hr
  | finish servers s hs htodo hlater => cases hs'
  | jobDone error s id rule hs hrule =>
    obtain rfl := Option.some.inj hs'
    rw [count_rows.1, count_rows.2] at hr
    exact h s (by rw [hs]; rfl) r hr
  | create draft newId checked hchecked hnew =>
    have hidle : w.phase = .idle := isIdle_iff.mp hok
    rw [World.say_phase, sweep?_map, hidle] at hs'
    cases hs'
  | remove id hin =>
    have hidle : w.phase = .idle := isIdle_iff.mp hok
    rw [World.say_phase, sweep?_map, hidle] at hs'
    cases hs'
  | crash => cases hs'
  | _ => exact h s' hs' r hr

theorem World.Ahead.does {w w' : World} {c : EventCursor} {mv : Move} (h : w.Ahead c)
    (hok : orderly w mv)
    (hread : mv = .sweep → w.phase = .idle → w.storeOpen = true →
      ∀ e ∈ w.log.events, e.cursor < c) (hd : Does w mv w') : w'.Ahead c := by
  have hrow : ∀ s, w.phase = .walking s → s.row.cursor < c := fun s hs =>
    h.rows s (by rw [hs]; rfl) _ List.mem_cons_self
  cases hd with
  | sweep hidle hb =>
    have hno : ∀ s, w.phase.sweep? = some s → False := by
      intro s hs
      rw [hidle] at hs
      cases hs
    cases hb with
    | closed =>
      exact ⟨h.awaits.mono rfl fun x hx => List.mem_append_left _ hx, h.rows⟩
    | first hnone =>
      rcases h.awaits with ⟨m, hm, -⟩ | ⟨⟨m, hm⟩, -⟩
      · rw [hm] at hnone; cases hnone
      · rw [hm] at hnone; cases hnone
    | quiet m hm => exact ⟨h.awaits.quiet hm _ (by simp), fun s hs => (hno s hs).elim⟩
    | rows m hm s es hplain hbegan hskips hopen =>
      refine ⟨h.awaits.mono rfl fun x hx => List.mem_append_left _ hx, ?_⟩
      intro s' hs' r hr
      obtain rfl : s = s' := Option.some.inj hs'
      rw [hopen.rows] at hr
      obtain ⟨-, -, -, e, he, hcursor⟩ := mem_readNew (mem_oldestFirst.mp hr)
      rw [← hcursor]
      exact hread rfl hidle hopen.opened e he
  | pass servers s id todo hs htodo hno =>
    refine ⟨h.awaits.mono rfl fun x hx => hx, ?_⟩
    intro s' hs' r hr
    obtain rfl := Option.some.inj hs'
    exact h.rows s (by rw [hs]; rfl) r hr
  | fire servers s id todo rule hs htodo hrule hmatch =>
    refine ⟨h.awaits.mono rfl fun x hx => List.mem_append_left _ hx, ?_⟩
    intro s' hs' r hr
    obtain ⟨hrow', hlater'⟩ := World.fireRule_rows hs'
    rw [hrow', hlater'] at hr
    exact h.rows s (by rw [hs]; rfl) r hr
  | nextRow servers s row later hs htodo hlater =>
    refine ⟨?_, ?_⟩
    · cases hacted : s.acted with
      | true =>
        left
        exact ⟨s.row.cursor, by simp [w.marked_engine, hacted], hrow s hs⟩
      | false =>
        exact h.awaits.mono (by simp [w.marked_engine, hacted]) fun x hx => by
          simpa [w.marked_trace] using hx
    · intro s' hs' r hr
      obtain rfl := Option.some.inj hs'
      refine h.rows s (by rw [hs]; rfl) r (List.mem_cons_of_mem _ ?_)
      rw [hlater]
      exact hr
  | finish servers s hs htodo hlater =>
    exact ⟨.inl ⟨s.row.cursor, rfl, hrow s hs⟩, fun s' hs' => by cases hs'⟩
  | jobDone error s id rule hs hrule =>
    refine ⟨h.awaits.mono (jobDone_engine w s id rule error).1 fun x hx =>
      List.mem_append_left _ hx, ?_⟩
    intro s' hs' r hr
    obtain rfl := Option.some.inj hs'
    rw [count_rows.1, count_rows.2] at hr
    exact h.rows s (by rw [hs]; rfl) r hr
  | create draft newId checked hchecked hnew =>
    refine ⟨?_, fun s hs => ?_⟩
    · rcases h.awaits with ⟨m, hm, hlt⟩ | ⟨⟨m, hm⟩, t, hin, hle⟩
      · exact .inl ⟨m, by simp [RuleEngine.create_watermark, hm], hlt⟩
      · exact .inr ⟨⟨m, by simp [RuleEngine.create_watermark, hm]⟩, t,
          List.mem_append_left _ hin, hle⟩
    · have hidle : w.phase = .idle := isIdle_iff.mp hok
      rw [World.say_phase, sweep?_map, hidle] at hs
      cases hs
  | setEnabled id enabled rule hin hrule =>
    exact ⟨h.awaits.mono rfl fun x hx => List.mem_append_left _ hx, h.rows⟩
  | remove id hin =>
    refine ⟨h.awaits.mono rfl fun x hx => List.mem_append_left _ hx, fun s hs => ?_⟩
    have hidle : w.phase = .idle := isIdle_iff.mp hok
    rw [World.say_phase, sweep?_map, hidle] at hs
    cases hs
  | crash => exact hok.elim
  | _ => exact ⟨h.awaits.mono rfl fun x hx => hx, h.rows⟩

theorem World.Due.does {w w' : World} {r : FreshRow} {rule : Rule} {mv : Move}
    (hmatch : ruleMatches rule r.row = true) (h : w.Due r rule) (hw : w.Sound)
    (hok : orderly w mv) (hd : Does w mv w') : w'.Due r rule := by
  have hgrow : ∀ f ∈ w.fires, f ∈ w'.fires := by
    intro f hf
    rcases hd.calls with ⟨hfires, -⟩ | ⟨servers, s, id, todo, rule', -, -, -, -, -, rfl⟩
    · rw [hfires]
      exact hf
    · rw [World.fireRule_fires]
      exact List.mem_append_left _ hf
  rcases h with hfired | ⟨s, hs, hobj, hahead⟩
  · exact .inl (hgrow _ hfired)
  cases hd with
  | sweep hidle hb =>
    rw [hidle] at hs
    cases hs
  | pass servers s' id todo hs' htodo hno =>
    rw [hs'] at hs
    obtain rfl : s' = s := Option.some.inj hs
    refine .inr ⟨{ s' with todo := todo }, rfl, hobj, ?_⟩
    rcases hahead with ⟨hrow, hin⟩ | hlater
    · rw [htodo, List.mem_cons] at hin
      rcases hin with heq | hin
      · have hskip := hno rule (heq ▸ hobj)
        rw [hrow, hmatch] at hskip
        cases hskip
      · exact .inl ⟨hrow, hin⟩
    · exact .inr hlater
  | fire servers s' id todo rule' hs' htodo hrule' hmatch' =>
    rw [hs'] at hs
    obtain rfl : s' = s := Option.some.inj hs
    have hname : rule'.id = id := hw.engine.named id rule' hrule'
    have hphase : ∃ s'', (w.fireRule servers { s' with todo := todo } id rule').phase.sweep? =
        some s'' ∧ s''.row = s'.row ∧ s''.later = s'.later ∧ s''.todo = todo := by
      rcases w.fireRule_jobs servers { s' with todo := todo } id rule' with
        ⟨hp, -⟩ | ⟨outcome, hp, -⟩
      · exact ⟨{ s' with todo := todo }, by rw [hp]; rfl, rfl, rfl, rfl⟩
      · refine ⟨({ s' with todo := todo } : Sweep).count id outcome, by rw [hp]; rfl, count_rows.1,
          count_rows.2, ?_⟩
        exact (count_row { s' with todo := todo } id outcome).2
    obtain ⟨s'', hs'', hrow'', hlater'', htodo''⟩ := hphase
    rcases hahead with ⟨hrow, hin⟩ | hlater
    · rw [htodo, List.mem_cons] at hin
      rcases hin with heq | hin
      · left
        rw [World.fireRule_fires, hname, ← heq, ← hrow]
        exact List.mem_append_right _ (List.mem_singleton_self _)
      · exact .inr ⟨s'', hs'', hobj, .inl ⟨hrow''.trans hrow, htodo'' ▸ hin⟩⟩
    · exact .inr ⟨s'', hs'', hobj, .inr ⟨hlater'' ▸ hlater.1, hlater.2⟩⟩
  | nextRow servers s' row later hs' htodo hlater =>
    rw [hs'] at hs
    obtain rfl : s' = s := Option.some.inj hs
    have hrules : (w.marked s').engine.rules = w.engine.rules := by rw [w.marked_engine]
    refine .inr ⟨_, rfl, by rw [← hobj, w.marked_engine], ?_⟩
    rcases hahead with ⟨-, hin⟩ | ⟨hin, hrule⟩
    · rw [htodo] at hin
      cases hin
    · rw [hlater, List.mem_cons] at hin
      rcases hin with rfl | hin
      · exact .inl ⟨rfl, hrules ▸ hrule⟩
      · exact .inr ⟨hin, hrules ▸ hrule⟩
  | finish servers s' hs' htodo hlater =>
    rw [hs'] at hs
    obtain rfl : s' = s := Option.some.inj hs
    rw [htodo, hlater] at hahead
    rcases hahead with ⟨-, hin⟩ | ⟨hin, -⟩
    · cases hin
    · cases hin
  | jobDone error s' id rule' hs' hrule' =>
    rw [hs'] at hs
    obtain rfl : s' = s := Option.some.inj hs
    obtain ⟨-, hobjects, hrules⟩ := jobDone_engine w s' id rule' error
    refine .inr ⟨_, rfl, by rw [hobjects]; exact hobj, ?_⟩
    rw [count_rows.1, count_rows.2, (count_row _ _ _).2, hrules]
    exact hahead
  | create draft newId checked hchecked hnew =>
    have hidle : w.phase = .idle := isIdle_iff.mp hok
    rw [hidle] at hs
    cases hs
  | setEnabled id enabled rule' hin hrule' =>
    have hidle : w.phase = .idle := isIdle_iff.mp hok
    rw [hidle] at hs
    cases hs
  | remove id hin =>
    have hidle : w.phase = .idle := isIdle_iff.mp hok
    rw [hidle] at hs
    cases hs
  | crash => exact hok.elim
  | _ => exact .inr ⟨s, hs, hobj, hahead⟩

/-! ## Whole runs -/

structure World.Orderly (w : World) : Prop where
  sound : w.Sound
  inOrder : w.InOrder
  logged : w.Logged

theorem Run.orderly {file : RulesFile} {log : AlertLog} {clock : Int} {ms : List Move} {w : World}
    (hrun : Run Rules.orderly (.start file log clock) ms w) : w.Orderly := by
  refine hrun.invariant ⟨World.sound_start file log clock, ⟨List.nodup_nil, List.Pairwise.nil,
    fun f hf => (by cases hf)⟩, fun s hs => (by cases hs)⟩ ?_
  intro v m v' hv hok hstep
  have hd := step_does hstep
  exact ⟨hv.sound.does hd, hv.inOrder.does hv.sound hok hd, hv.logged.does hok hd⟩

theorem Run.log_grows {ok : World → Move → Prop} {w w' : World} {ms : List Move}
    (hrun : Run ok w ms w') {e : LogEvent} (he : e ∈ w.log.events) : e ∈ w'.log.events := by
  refine hrun.invariant (I := fun v => e ∈ v.log.events) he ?_
  intro v m v' hv _ hstep
  cases step_does hstep with
  | append e' log hlog => rw [append_events hlog]; exact List.mem_append_left _ hv
  | sweep hidle hb => cases hb <;> exact hv
  | nextRow servers s row later => rw [v.marked_log]; exact hv
  | finish servers s => rw [World.finish_log, v.marked_log]; exact hv
  | _ => exact hv

/-- The row is appended while the watermark waits for it, and the watermark still does when a sweep
first sees it. -/
theorem World.Orderly.awaits {w₀ w₁ w₂ w₃ : World} {before mid : List Move} {m₀ : EventCursor}
    {e : LogEvent} (h : w₀.Orderly) (hm₀ : w₀.engine.watermark = some m₀) (hlt : m₀ < e.cursor)
    (hbefore : Run Rules.orderly w₀ before w₁) (hok : Rules.orderly w₁ (.append e))
    (happend : step w₁ (.append e) = some w₂) (hmid : Run unseeing w₂ mid w₃) :
    w₃.Ahead e.cursor := by
  -- as long as all of the log is before the row, so is the sweep in flight
  have hahead₁ : w₁.Logged ∧ ((∀ e' ∈ w₁.log.events, e'.cursor < e.cursor) → w₁.Ahead e.cursor) := by
    refine hbefore.invariant (I := fun v => v.Logged ∧
      ((∀ e' ∈ v.log.events, e'.cursor < e.cursor) → v.Ahead e.cursor)) ?_ ?_
    · refine ⟨h.logged, fun hlog => ⟨.inl ⟨m₀, hm₀, hlt⟩, fun s hs r hr => ?_⟩⟩
      obtain ⟨e', he', hcursor⟩ := h.logged s hs r hr
      rw [← hcursor]
      exact hlog e' he'
    · intro v m v' hv hok' hstep
      refine ⟨hv.1.does hok' (step_does hstep), fun hlog => ?_⟩
      have hold : ∀ e' ∈ v.log.events, e'.cursor < e.cursor := by
        intro e' he'
        exact hlog e' ((Run.next (.refl v) hok' hstep).log_grows he')
      exact (hv.2 hold).does hok' (fun _ _ _ => hold) (step_does hstep)
  have hahead₂ : w₂.Ahead e.cursor :=
    (hahead₁.2 hok).does hok (fun h => by cases h) (step_does happend)
  refine hmid.invariant (I := fun v => v.Ahead e.cursor) hahead₂ fun v m v' hv hok' hstep => ?_
  refine hv.does hok'.1 (fun hm hidle hopen => ?_) (step_does hstep)
  rcases hok'.2 hm with hno | hno
  · exact absurd hidle hno
  · rw [hopen] at hno
    cases hno

/-- A row appended after `w₀`, the sweep that can first see it, and a time after that sweep. -/
structure FirstSeen (w₀ w₁ w₂ w₃ w₄ w₅ : World) (e : LogEvent) : Prop where
  before : ∃ ms, Run orderly w₀ ms w₁
  inOrder : orderly w₁ (.append e)
  append : step w₁ (.append e) = some w₂
  unseen : ∃ ms, Run unseeing w₂ ms w₃
  idle : w₃.phase = .idle
  opened : w₃.storeOpen = true
  inTurn : orderly w₃ .sweep
  sweep : step w₃ .sweep = some w₄
  after : ∃ ms, Run orderly w₄ ms w₅
  done : w₅.phase = .idle

theorem FirstSeen.handled {w₀ w₁ w₂ w₃ w₄ w₅ : World} {e : LogEvent} {m₀ : EventCursor}
    {row : StoredAlertRow} {rule : Rule} (hseen : FirstSeen w₀ w₁ w₂ w₃ w₄ w₅ e) (h : w₀.Orderly)
    (hm₀ : w₀.engine.watermark = some m₀) (hlt : m₀ < e.cursor) (hrow : e.payload = some row)
    (hfresh : w₃.clock - RULE_STALE_EVENT_MS ≤ e.cursor.ts) (hrule : rule.id ∈ w₃.engine.rules)
    (hobj : w₃.engine.objects rule.id = some rule)
    (hmatch : ruleMatches rule { row with time := e.cursor.ts } = true) :
    (rule.id, e.cursor) ∈ w₅.fires ∨
      ∃ es payload, w₄.trace = w₃.trace ++ es ∧
        (w₃.clock, .recordEvent RULE_EVENT_SKIPPED none payload w₃.clock) ∈ es := by
  obtain ⟨before, hbefore⟩ := hseen.before
  obtain ⟨mid, hmid⟩ := hseen.unseen
  obtain ⟨after, hafter⟩ := hseen.after
  have hsound : ∀ {v v' : World} {ok : World → Move → Prop} {ms : List Move}, Run ok v ms v' →
      v.Sound → v'.Sound := fun hrun hv =>
    hrun.invariant hv fun _ _ _ hv _ hstep => hv.step hstep
  have hsound₃ : w₃.Sound := hsound hmid ((hsound hbefore h.sound).step hseen.append)
  have hlogged : e ∈ w₃.log.events := by
    refine hmid.log_grows ?_
    obtain ⟨log', hlog, rfl⟩ := Option.map_eq_some_iff.mp hseen.append
    rw [append_events hlog]
    simp
  -- a row the watermark has passed would be stale by now
  have hahead : ∃ m, w₃.engine.watermark = some m ∧ m < e.cursor := by
    have hwaits := h.awaits hm₀ hlt hbefore hseen.inOrder hseen.append hmid
    rcases hwaits.awaits with hahead | ⟨-, t, hbegan, hle⟩
    · exact hahead
    · have hturn := hseen.inTurn (isIdle_iff.mpr hseen.idle) _ hbegan rfl
      dsimp only at hturn
      omega
  obtain ⟨m, hm, hltm⟩ := hahead
  have hbegins : w₃.Begins w₄ := by
    have hstep := hseen.sweep
    simp only [step, hseen.idle] at hstep
    rw [← Option.some.inj hstep]
    exact w₃.begins
  rcases hbegins.due hseen.opened hm hltm hlogged hrow hfresh hrule hobj with hdue | hskipped
  · left
    have hend : w₅.Sound ∧ w₅.Due ⟨{ row with time := e.cursor.ts }, e.cursor⟩ rule := by
      refine hafter.invariant (I := fun v => v.Sound ∧ v.Due _ rule)
        ⟨hsound₃.step hseen.sweep, hdue⟩ fun v mv v' hv hok hstep => ?_
      exact ⟨hv.1.step hstep, hv.2.does hmatch hv.1 hok (step_does hstep)⟩
    rcases hend.2 with hfired | ⟨s, hs, -⟩
    · exact hfired
    · rw [hseen.done] at hs
      cases hs
  · exact .inr hskipped

/-- Rows are handled oldest first and never twice, the watermark goes forward, and a row later than
a watermark that existed, fresh at the sweep that first sees it, is handed to each rule it matches
once, unless the sweep says that it skipped some. -/
theorem no_alert_lost_or_repeated (file : RulesFile) (log : AlertLog) (clock : Int)
    (ms : List Move) (w₀ : World) (hrun : Run orderly (.start file log clock) ms w₀) :
    w₀.fires.Nodup ∧ (w₀.fires.map Prod.snd).Pairwise (· ≤ ·) ∧
    (∀ ms' w m, Run orderly w₀ ms' w → w₀.engine.watermark = some m →
      ∃ m', w.engine.watermark = some m' ∧ m ≤ m') ∧
    (∀ w₁ w₂ w₃ w₄ w₅ e m₀ row rule, FirstSeen w₀ w₁ w₂ w₃ w₄ w₅ e →
      w₀.engine.watermark = some m₀ → m₀ < e.cursor → e.payload = some row →
      w₃.clock - RULE_STALE_EVENT_MS ≤ e.cursor.ts → rule.id ∈ w₃.engine.rules →
      w₃.engine.objects rule.id = some rule →
      ruleMatches rule { row with time := e.cursor.ts } = true →
      w₅.fires.count (rule.id, e.cursor) = 1 ∨
        ∃ es payload, w₄.trace = w₃.trace ++ es ∧
          (w₃.clock, .recordEvent RULE_EVENT_SKIPPED none payload w₃.clock) ∈ es) := by
  have horderly := hrun.orderly
  refine ⟨horderly.inOrder.nodup, horderly.inOrder.sorted, ?_, ?_⟩
  · intro ms' w m hrun' hm
    have hreached : w.Sound ∧ w.Reached m := by
      refine hrun'.invariant (I := fun v => v.Sound ∧ v.Reached m)
        ⟨horderly.sound, m, hm, le_rfl⟩ fun v mv v' hv hok hstep => ?_
      exact ⟨hv.1.step hstep, hv.2.does hv.1 hok (step_does hstep)⟩
    exact hreached.2
  · intro w₁ w₂ w₃ w₄ w₅ e m₀ row rule hseen hm₀ hlt hrow hfresh hrule hobj hmatch
    rcases hseen.handled horderly hm₀ hlt hrow hfresh hrule hobj hmatch with hfired | hskipped
    · left
      obtain ⟨before, hbefore⟩ := hseen.before
      obtain ⟨mid, hmid⟩ := hseen.unseen
      obtain ⟨after, hafter⟩ := hseen.after
      have hwhole := ((((hrun.trans hbefore).next hseen.inOrder hseen.append).trans
        (hmid.mono fun _ _ h => h.1)).next hseen.inTurn hseen.sweep).trans hafter
      exact List.count_eq_one_of_mem hwhole.orderly.inOrder.nodup hfired
    · exact .inr hskipped

end Sweeps

/-! ## A row for a rule, and a row from before the watermark -/

section Runs

/-- Where a run gets, with every job covered. -/
def reached (w : World) (ms : List Move) : World × Bool :=
  letI := coversAll
  play (fun v m => decide (orderly v m)) w ms

theorem reached_run {w : World} {ms : List Move} (h : (reached w ms).2 = true) :
    letI := coversAll
    Run orderly w ms (reached w ms).1 :=
  letI := coversAll
  (Run.of_play _ w ms h).mono fun _ _ hok => of_decide_eq_true hok

theorem reached_step {w : World} {m : Move} (h : (reached w [m]).2 = true) :
    letI := coversAll
    orderly w m ∧ step w m = some (reached w [m]).1 :=
  letI := coversAll
  have hstep := step_of_play _ w m h
  ⟨of_decide_eq_true hstep.1, hstep.2⟩

def seenRow : LogEvent := ⟨⟨10, 1⟩, some downRow⟩

/-- Before the row, with the row, at the sweep and after it. -/
def seen₁ : World := (reached (.start armedFile .empty 0) [.openStore, .tick 10]).1
def seen₂ : World := (reached seen₁ [.append seenRow]).1
def seen₃ : World := (reached seen₂ [.sweep]).1
def seen₄ : World := (reached seen₃ [.turn ["s1"], .jobDone none, .turn []]).1

theorem no_alert_lost_or_repeated_row :
    seen₄.fires.count ("r1", ⟨10, 1⟩) = 1 ∨
      ∃ es payload, seen₃.trace = seen₂.trace ++ es ∧
        (seen₂.clock, .recordEvent RULE_EVENT_SKIPPED none payload seen₂.clock) ∈ es := by
  let _ := coversAll
  have hseen : FirstSeen (.start armedFile .empty 0) seen₁ seen₂ seen₂ seen₃ seen₄ seenRow :=
    { before := ⟨_, reached_run (by decide +kernel)⟩
      inOrder := (reached_step (w := seen₁) (by decide +kernel)).1
      append := (reached_step (by decide +kernel)).2
      unseen := ⟨[], .refl _⟩
      idle := isIdle_iff.mp (by decide +kernel)
      opened := by decide +kernel
      inTurn := (reached_step (w := seen₂) (by decide +kernel)).1
      sweep := (reached_step (by decide +kernel)).2
      after := ⟨_, reached_run (by decide +kernel)⟩
      done := isIdle_iff.mp (by decide +kernel) }
  have hmatch : (seen₂.engine.objects "r1").map (fun rule => (rule.id,
      ruleMatches rule { downRow with time := 10 })) = some ("r1", true) := by
    decide +kernel
  obtain ⟨rule, hobj, hrule⟩ := Option.map_eq_some_iff.mp hmatch
  obtain ⟨hid, hmatch⟩ := Prod.mk.inj hrule
  have hhandled := (no_alert_lost_or_repeated armedFile .empty 0 [] _ (.refl _)).2.2.2 seen₁ seen₂
    seen₂ seen₃ seen₄ seenRow ⟨0, 0⟩ downRow rule hseen rfl (by decide) rfl (by decide +kernel)
    (by rw [hid]; decide +kernel) (by rw [hid]; exact hobj) hmatch
  rwa [hid] at hhandled

def freshFile : RulesFile := ⟨none, [restartRule], []⟩

def lateRow : LogEvent := ⟨⟨50, 1⟩, some downRow⟩

/-- The first sweep makes the watermark; the row comes after it, with an earlier time. -/
def late₀ : World := (reached (.start freshFile .empty 0) [.openStore, .tick 100, .sweep]).1
def late₁ : World := (reached late₀ [.append lateRow]).1
def late₂ : World := (reached late₁ [.tick 200]).1
def late₃ : World := (reached late₂ [.sweep]).1

/-- A row from before the watermark is handed to no rule, and nothing says so. -/
theorem earlier_row_not_handled :
    ¬ ∀ [Approval] (file : RulesFile) (log : AlertLog) (clock : Int) (ms : List Move) (w₀ : World),
      Run orderly (.start file log clock) ms w₀ →
        ∀ w₁ w₂ w₃ w₄ w₅ e m₀ row rule, FirstSeen w₀ w₁ w₂ w₃ w₄ w₅ e →
          w₀.engine.watermark = some m₀ → e.payload = some row →
          w₃.clock - RULE_STALE_EVENT_MS ≤ e.cursor.ts → rule.id ∈ w₃.engine.rules →
          w₃.engine.objects rule.id = some rule →
          ruleMatches rule { row with time := e.cursor.ts } = true →
          w₅.fires.count (rule.id, e.cursor) = 1 ∨
            ∃ es payload, w₄.trace = w₃.trace ++ es ∧
              (w₃.clock, .recordEvent RULE_EVENT_SKIPPED none payload w₃.clock) ∈ es := by
  intro h
  let _ := coversAll
  have hseen : FirstSeen late₀ late₀ late₁ late₂ late₃ late₃ lateRow :=
    { before := ⟨[], .refl _⟩
      inOrder := (reached_step (w := late₀) (by decide +kernel)).1
      append := (reached_step (by decide +kernel)).2
      unseen := ⟨[.tick 200], (Run.next (.refl _) ⟨(reached_step (w := late₁)
        (by decide +kernel)).1, fun hm => by cases hm⟩ (reached_step (by decide +kernel)).2)⟩
      idle := isIdle_iff.mp (by decide +kernel)
      opened := by decide +kernel
      inTurn := (reached_step (w := late₂) (by decide +kernel)).1
      sweep := (reached_step (by decide +kernel)).2
      after := ⟨[], .refl _⟩
      done := isIdle_iff.mp (by decide +kernel) }
  have hmatch : (late₂.engine.objects "r1").map (fun rule => (rule.id,
      ruleMatches rule { downRow with time := 50 })) = some ("r1", true) := by
    decide +kernel
  obtain ⟨rule, hobj, hrule⟩ := Option.map_eq_some_iff.mp hmatch
  obtain ⟨hid, hmatch⟩ := Prod.mk.inj hrule
  rcases h freshFile .empty 0 _ late₀ (reached_run (by decide +kernel)) late₀ late₁ late₂ late₃ late₃
    lateRow ⟨100, 0⟩ downRow rule hseen (by decide +kernel) rfl (by decide +kernel)
    (by rw [hid]; decide +kernel) (by rw [hid]; exact hobj) hmatch with hcount | ⟨es, payload, htrace, hin⟩
  · rw [hid] at hcount
    revert hcount
    decide +kernel
  · have hno : late₃.trace.all (fun x => !(match x.2 with
        | .recordEvent _ _ _ _ => true | _ => false)) = true := by
      decide +kernel
    have hmem := List.all_eq_true.mp hno _ (by rw [htrace]; exact List.mem_append_right _ hin)
    cases hmem

end Runs

end OpsMaxx.Rules
