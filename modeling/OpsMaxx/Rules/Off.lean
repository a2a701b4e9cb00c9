import OpsMaxx.Rules.Once

/-!
# Off means off

A rule that was turned off or removed starts no job and sends no notification, and a removed rule's
status stays gone, where the call did not come while the sweep had the rule in hand: its own job
awaited, or, for a removal, the rule still to be visited on a row it matches.
-/

set_option autoImplicit false

namespace OpsMaxx.Rules

open OpsMaxx OpsMaxx.Store

/-! ## What the trace says of a rule -/

/-- The rule whose job starts or whose notification goes out. -/
def Entry.does? : Entry → Option String
  | .runJob ruleId _ _ => some ruleId
  | .notify ruleId _ _ => some ruleId
  | _ => none

/-- Whether the last call about a rule turned it off or removed it. -/
def turnedOff (trace : List (Int × Entry)) (id : String) : Bool :=
  trace.foldl (fun off e =>
    match e.2 with
    | .enabled i => if i = id then false else off
    | .disabled i => if i = id then true else off
    | .removed i => if i = id then true else off
    | _ => off) false

/-- When a rule was armed last: as the file had it, or when it was created or turned on. -/
def armedSince (file : RulesFile) (trace : List (Int × Entry)) (id : String) : Option Int :=
  trace.foldl (fun armed e =>
    match e.2 with
    | .created i => if i = id then some e.1 else armed
    | .enabled i => if i = id then some e.1 else armed
    | _ => armed) (((RuleEngine.load file).objects id).map Rule.armedAt)

/-- A call that returned true. -/
def Entry.toggle : Entry → Bool
  | .created _ => true
  | .enabled _ => true
  | .disabled _ => true
  | .removed _ => true
  | _ => false

/-- What an entry may be, after what came before it. -/
structure Fair (file : RulesFile) (before : List (Int × Entry)) (e : Entry) : Prop where
  off : ∀ id, e.does? = some id → turnedOff before id = false
  armed : ∀ id cursor, e = .act id cursor →
    ∃ armedAt, armedSince file before id = some armedAt ∧ armedAt < cursor.ts

def Each (file : RulesFile) (trace : List (Int × Entry)) : Prop :=
  ∀ before e after, trace = before ++ e :: after → Fair file before e.2

theorem turnedOff_append {trace es : List (Int × Entry)} (h : ∀ e ∈ es, e.2.toggle = false)
    (id : String) : turnedOff (trace ++ es) id = turnedOff trace id := by
  unfold turnedOff
  rw [List.foldl_append]
  generalize trace.foldl _ false = off
  induction es generalizing off with
  | nil => rfl
  | cons e es ih =>
    have he := h e List.mem_cons_self
    rw [List.foldl_cons, ih fun e' he' => h e' (List.mem_cons_of_mem _ he')]
    obtain ⟨t, entry⟩ := e
    cases entry <;> first | rfl | cases he

theorem armedSince_append {file : RulesFile} {trace es : List (Int × Entry)}
    (h : ∀ e ∈ es, e.2.toggle = false) (id : String) :
    armedSince file (trace ++ es) id = armedSince file trace id := by
  unfold armedSince
  rw [List.foldl_append]
  generalize trace.foldl _ _ = armed
  induction es generalizing armed with
  | nil => rfl
  | cons e es ih =>
    have he := h e List.mem_cons_self
    rw [List.foldl_cons, ih fun e' he' => h e' (List.mem_cons_of_mem _ he')]
    obtain ⟨t, entry⟩ := e
    cases entry <;> first | rfl | cases he

theorem Each.append {file : RulesFile} {trace es : List (Int × Entry)} (h : Each file trace)
    (hes : ∀ before e after, es = before ++ e :: after → Fair file (trace ++ before) e.2) :
    Each file (trace ++ es) := by
  intro before e after heq
  rcases List.append_eq_append_iff.mp heq with ⟨mid, hbefore, hmid⟩ | ⟨mid, htrace, hmid⟩
  · rw [hbefore]
    exact hes mid e after hmid
  · cases mid with
    | nil =>
      rw [List.append_nil] at htrace
      rw [← htrace]
      rw [List.nil_append] at hmid
      have hfair := hes [] e after hmid.symm
      rwa [List.append_nil] at hfair
    | cons e' mid =>
      rw [List.cons_append, List.cons.injEq] at hmid
      obtain ⟨rfl, -⟩ := hmid
      exact h before e mid htrace

/-- No call among the new entries, and each is fair as things were. -/
theorem Each.calm {file : RulesFile} {w : World} {es : List Entry} (h : Each file w.trace)
    (hcalm : ∀ e ∈ es, e.toggle = false) (hes : ∀ e ∈ es, Fair file w.trace e) :
    Each file (w.say es).trace := by
  refine h.append fun before e after heq => ?_
  have hstamped : ∀ e' ∈ before ++ e :: after, e'.2 ∈ es := by
    intro e' he'
    rw [← heq] at he'
    obtain ⟨entry, hentry, rfl⟩ := List.mem_map.mp he'
    exact hentry
  have hbefore : ∀ e' ∈ before, e'.2.toggle = false := fun e' he' =>
    hcalm _ (hstamped e' (List.mem_append_left _ he'))
  obtain ⟨hoff, harmed⟩ := hes _ (hstamped e (by simp))
  refine ⟨fun id hid => ?_, fun id cursor hact => ?_⟩
  · rw [turnedOff_append hbefore]
    exact hoff id hid
  · rw [armedSince_append hbefore]
    exact harmed id cursor hact

/-! ## The entries of a rule -/

/-- What the turn of a rule on a row may say. -/
def Entry.about (id : String) (cursor : EventCursor) : Entry → Prop
  | .fire i c => i = id ∧ c = cursor
  | .act i c => i = id ∧ c = cursor
  | .runJob i c _ => i = id ∧ c = cursor
  | .notify i c _ => i = id ∧ c = cursor
  | .recordEvent _ _ _ _ => True
  | _ => False

def About (id : String) (cursor : EventCursor) (es : List Entry) : Prop :=
  ∀ e ∈ es, e.about id cursor

theorem About.calm {id : String} {cursor : EventCursor} {es : List Entry} (h : About id cursor es) :
    ∀ e ∈ es, e.toggle = false := by
  intro e he
  have habout := h e he
  cases e <;> first | rfl | cases habout

theorem About.fair {file : RulesFile} {w : World} {id : String} {cursor : EventCursor}
    {es : List Entry} (h : About id cursor es) (hoff : turnedOff w.trace id = false)
    (harmed : (∀ c, .act id c ∉ es) ∨
      ∃ armedAt, armedSince file w.trace id = some armedAt ∧ armedAt < cursor.ts) :
    ∀ e ∈ es, Fair file w.trace e := by
  intro e he
  have habout := h e he
  refine ⟨fun i hi => ?_, fun i c hact => ?_⟩
  · have heq : i = id := by
      cases e with
      | runJob j c launch =>
        cases hi
        exact habout.1
      | notify j c notice =>
        cases hi
        exact habout.1
      | _ => cases hi
    rw [heq]
    exact hoff
  · subst hact
    obtain ⟨rfl, rfl⟩ := habout
    rcases harmed with hno | harmed
    · exact absurd he (hno c)
    · exact harmed

theorem About.cons {id : String} {cursor : EventCursor} {e : Entry} {es : List Entry}
    (he : e.about id cursor) (h : About id cursor es) : About id cursor (e :: es) :=
  List.forall_mem_cons.mpr ⟨he, h⟩

theorem About.nil {id : String} {cursor : EventCursor} : About id cursor [] :=
  fun e he => by cases he

theorem refuse_about (rule : Rule) (r : FreshRow) (now : Int) (reason : String)
    (status : RuleStatus) : About rule.id r.cursor (refuse rule r now reason status).2 :=
  .cons trivial (.cons ⟨rfl, rfl⟩ .nil)

theorem settle_about (rule : Rule) (r : FreshRow) (now : Int) (error : Option String)
    (status : RuleStatus) : About rule.id r.cursor (settle rule r now error status).2.1 := by
  cases error with
  | none => exact .cons trivial (.cons ⟨rfl, rfl⟩ .nil)
  | some reason => exact refuse_about rule r now reason status

theorem settle_no_act (rule : Rule) (r : FreshRow) (now : Int) (error : Option String)
    (status : RuleStatus) (c : EventCursor) :
    .act rule.id c ∉ (settle rule r now error status).2.1 := by
  cases error <;> simp [settle, refuse]

theorem Plain.calm {es : List Entry} (h : Plain es) : ∀ e ∈ es, e.toggle = false := by
  intro e he
  have hplain := h e he
  cases e <;> first | rfl | cases hplain

theorem Plain.fair {file : RulesFile} {w : World} {es : List Entry} (h : Plain es) :
    ∀ e ∈ es, Fair file w.trace e := by
  intro e he
  have hplain := h e he
  refine ⟨fun i hi => ?_, fun i c hact => ?_⟩
  · cases e with
    | recordEvent => cases hi
    | began => cases hi
    | swept => cases hi
    | _ => cases hplain
  · subst hact
    cases hplain

section Firing
variable [Approval]

theorem proceed_about (servers : List String) (rule : Rule) (r : FreshRow) (now : Int)
    (status : RuleStatus) : About rule.id r.cursor (proceed servers rule r now status).2.1 := by
  unfold proceed
  cases verifyRuleAction rule with
  | some reason => exact refuse_about rule r now reason status
  | none =>
    cases rule.action with
    | notify => exact .cons trivial (.cons ⟨rfl, rfl⟩ .nil)
    | job spec targets approval =>
      dsimp only
      split_ifs
      · exact refuse_about rule r now _ status
      · exact .cons ⟨rfl, rfl⟩ .nil

theorem fire_about (servers : List String) (rule : Rule) (r : FreshRow) (now : Int)
    (status : RuleStatus) : About rule.id r.cursor (fire servers rule r now status).2.1 := by
  unfold fire
  extract_lets verdict
  split_ifs
  · exact .cons ⟨rfl, rfl⟩ .nil
  · exact .cons ⟨rfl, rfl⟩ (.cons ⟨rfl, rfl⟩ (proceed_about servers rule r now _))

end Firing

/-! ## A rule that is off -/

/-- A removed rule nothing will bring back. -/
structure World.Gone (w : World) (id : String) : Prop where
  out : id ∉ w.engine.rules
  known : (w.engine.objects id).isSome
  forgotten : w.engine.status.get id = none
  unsaved : id ∉ w.file.status.map Prod.fst
  passed : ∀ s, w.phase.sweep? = some s → id ∈ s.todo →
    ∀ rule, w.engine.objects id = some rule → ruleMatches rule s.row.row = false
  settled : ∀ s, w.phase ≠ .awaiting s id

structure World.Disabled (w : World) (id : String) : Prop where
  disabled : ∃ rule, w.engine.objects id = some rule ∧ rule.enabled = false
  settled : ∀ s, w.phase ≠ .awaiting s id

structure World.Obeys (file : RulesFile) (w : World) : Prop where
  each : Each file w.trace
  off : ∀ id, turnedOff w.trace id = true → w.Disabled id ∨ w.Gone id
  gone : ∀ t id, (t, .removed id) ∈ w.trace → w.Gone id
  armed : ∀ id, (w.engine.objects id).map Rule.armedAt = armedSince file w.trace id

/-! ## The condition -/

def World.awaits (w : World) (id : String) : Bool :=
  match w.phase with
  | .awaiting _ i => i = id
  | _ => false

/-- Whether the rule is still to be visited on a row it matches. -/
def World.visits (w : World) (id : String) : Bool :=
  match w.phase.sweep? with
  | none => false
  | some s => decide (id ∈ s.todo) &&
    match w.engine.objects id with
    | some rule => ruleMatches rule s.row.row
    | none => false

/-- No call comes while the sweep has its rule in hand, and the process stays up. -/
def calledClear (w : World) : Move → Bool
  | .setEnabled id false => !w.awaits id
  | .remove id => !w.awaits id && !w.visits id
  | .crash => false
  | _ => true

theorem not_awaiting {w : World} {id : String} (h : w.awaits id = false) (s : Sweep) :
    w.phase ≠ .awaiting s id := by
  intro hs
  simp [World.awaits, hs] at h

theorem not_visited {w : World} {id : String} (h : w.visits id = false) (s : Sweep)
    (hs : w.phase.sweep? = some s) (hin : id ∈ s.todo) (rule : Rule)
    (hrule : w.engine.objects id = some rule) : ruleMatches rule s.row.row = false := by
  simpa [World.visits, hs, hin, hrule] using h

/-! ## What a step keeps -/

/-- A step that is no call, whose entries are fair. -/
theorem World.Obeys.calm {file : RulesFile} {w w' : World} (h : w.Obeys file) (es : List Entry)
    (htrace : w'.trace = (w.say es).trace) (hcalm : ∀ e ∈ es, e.toggle = false)
    (hfair : ∀ e ∈ es, Fair file w.trace e) (hobj : w'.engine.objects = w.engine.objects)
    (hgone : ∀ id, w.Gone id → w'.Gone id)
    (hawait : ∀ s id, w'.phase = .awaiting s id → w.phase = .awaiting s id ∨
      ∃ rule, w.engine.objects id = some rule ∧ rule.enabled = true) : w'.Obeys file := by
  have hstamped : ∀ e ∈ es.map (fun e => (w.clock, e)), e.2.toggle = false := by
    intro e he
    obtain ⟨entry, hentry, rfl⟩ := List.mem_map.mp he
    exact hcalm entry hentry
  refine ⟨?_, fun id hid => ?_, fun t id hin => ?_, fun id => ?_⟩
  · rw [htrace]
    exact h.each.calm hcalm hfair
  · rw [htrace, World.say_trace, turnedOff_append hstamped] at hid
    rcases h.off id hid with ⟨⟨rule, hrule, hoff⟩, hsettled⟩ | hg
    · refine .inl ⟨⟨rule, hobj ▸ hrule, hoff⟩, fun s hs => ?_⟩
      rcases hawait s id hs with hs | ⟨rule', hrule', hon⟩
      · exact hsettled s hs
      · rw [hrule] at hrule'
        obtain rfl := Option.some.inj hrule'
        rw [hoff] at hon
        cases hon
    · exact .inr (hgone id hg)
  · rw [htrace, World.say_trace] at hin
    rcases List.mem_append.mp hin with hin | hin
    · exact hgone id (h.gone t id hin)
    · have := hstamped _ hin
      cases this
  · rw [hobj, h.armed, htrace, World.say_trace, armedSince_append hstamped]

theorem ruleMatches_enabled {rule : Rule} {row : StoredAlertRow} (h : ruleMatches rule row = true) :
    rule.enabled = true := by
  unfold ruleMatches at h
  split_ifs at h with hoff
  · simpa using hoff

theorem ruleMatches_armed {rule : Rule} {row : StoredAlertRow} (h : ruleMatches rule row = true) :
    rule.armedAt < row.time := by
  unfold ruleMatches at h
  split_ifs at h with hoff harmed
  · simpa using harmed

/-- A removed rule is not saved again. -/
theorem unsaved_persist {e : RuleEngine} {id : String} (h : e.status.get id = none) :
    id ∉ e.persist.status.map Prod.fst := by
  intro hin
  have hkeys : id ∈ e.status.keys := hin
  rw [JsMap.mem_keys_iff, h] at hkeys
  cases hkeys

theorem get_ensureAll_of_notMem {ids : List String} {m : JsMap String RuleStatus} {id : String}
    (h : id ∉ ids) (hm : m.get id = none) :
    (ids.foldl RuleEngine.ensureStatus m).get id = none := by
  induction ids generalizing m with
  | nil => exact hm
  | cons i ids ih =>
    obtain ⟨hne, hin⟩ := not_or.mp (mt List.mem_cons.mpr h)
    refine ih hin ?_
    unfold RuleEngine.ensureStatus
    split_ifs
    · exact hm
    · rwa [JsMap.get_set_ne _ _ hne]

/-- What a step needs to leave of a removed rule. -/
theorem World.Gone.keep {w w' : World} {id : String} (h : w.Gone id)
    (hrules : w'.engine.rules = w.engine.rules) (hobj : w'.engine.objects = w.engine.objects)
    (hstatus : w'.engine.status.get id = none)
    (hfile : w'.file.status = w.file.status ∨ w'.file.status = w'.engine.persist.status)
    (hpassed : ∀ s, w'.phase.sweep? = some s → id ∈ s.todo →
      ∀ rule, w.engine.objects id = some rule → ruleMatches rule s.row.row = false)
    (hsettled : ∀ s, w'.phase ≠ .awaiting s id) : w'.Gone id where
  out := by
    rw [hrules]
    exact h.out
  known := by
    rw [hobj]
    exact h.known
  forgotten := hstatus
  unsaved := by
    rcases hfile with hfile | hfile
    · rw [hfile]
      exact h.unsaved
    · rw [hfile]
      exact unsaved_persist hstatus
  passed := by
    rw [hobj]
    exact hpassed
  settled := hsettled

theorem World.Gone.begins {w w' : World} {id : String} (h : w.Gone id) (hidle : w.phase = .idle)
    (hb : w.Begins w') : w'.Gone id := by
  have hno : ∀ s, w.phase.sweep? = some s → False := by
    intro s hs
    rw [hidle] at hs
    cases hs
  cases hb with
  | closed => exact h.keep rfl rfl h.forgotten (.inl rfl) h.passed h.settled
  | first => exact h.keep rfl rfl h.forgotten (.inr rfl) h.passed h.settled
  | quiet => exact h.keep rfl rfl h.forgotten (.inr rfl) h.passed h.settled
  | rows m hm s es hplain hbegan hskips hopen =>
    refine h.keep rfl rfl h.forgotten (.inl rfl) ?_ (by simp)
    intro s' hs' hin
    obtain rfl : s = s' := Option.some.inj hs'
    rw [hopen.todo] at hin
    exact absurd hin h.out

theorem World.Gone.marked {w : World} {s : Sweep} {id : String} (h : w.Gone id) :
    (w.marked s).Gone id := by
  unfold World.marked
  split_ifs
  · exact h.keep rfl rfl h.forgotten (.inr rfl) h.passed h.settled
  · exact h

theorem World.Begins.entries {w w' : World} (hb : w.Begins w') :
    ∃ es, Plain es ∧ w'.trace = (w.say es).trace ∧ w'.engine.objects = w.engine.objects ∧
      (w.phase = .idle → ∀ s id, w'.phase ≠ .awaiting s id) := by
  have hswept : Plain [.began, .swept World.noRows] := by
    intro e he
    rcases List.mem_pair.mp he with rfl | rfl <;> rfl
  cases hb with
  | closed => exact ⟨_, hswept, rfl, rfl, fun hidle s id hs => by simp [hidle] at hs⟩
  | first => exact ⟨_, hswept, rfl, rfl, fun hidle s id hs => by simp [hidle] at hs⟩
  | quiet => exact ⟨_, hswept, rfl, rfl, fun hidle s id hs => by simp [hidle] at hs⟩
  | rows m hm s es hplain => exact ⟨es, hplain, rfl, rfl, fun _ s' id hs => by simp at hs⟩

section Steps
variable [Approval]

theorem World.Obeys.fireRule {file : RulesFile} {w : World} (h : w.Obeys file) (hw : w.Sound)
    (servers : List String) {s : Sweep} {id : String} {todo : List String} {rule : Rule}
    (hs : w.phase = .walking s) (htodo : s.todo = id :: todo)
    (hrule : w.engine.objects id = some rule) (hmatch : ruleMatches rule s.row.row = true) :
    (w.fireRule servers { s with todo := todo } id rule).Obeys file := by
  have hname : rule.id = id := hw.engine.named id rule hrule
  obtain ⟨m, hm, hsound⟩ := hw.sweep s (by rw [hs]; rfl)
  have hnotGone : ∀ i, w.Gone i → i ≠ id := by
    intro i hg hi
    subst hi
    have hno := hg.passed s (by rw [hs]; rfl) (by rw [htodo]; simp) rule hrule
    rw [hmatch] at hno
    cases hno
  have hoff : turnedOff w.trace rule.id = false := by
    rw [hname]
    by_contra hoff
    rcases h.off id (by simpa using hoff) with ⟨⟨rule', hrule', hdis⟩, -⟩ | hg
    · rw [hrule] at hrule'
      obtain rfl := Option.some.inj hrule'
      rw [ruleMatches_enabled hmatch] at hdis
      cases hdis
    · exact hnotGone id hg rfl
  have harmed : ∃ armedAt, armedSince file w.trace rule.id = some armedAt ∧
      armedAt < s.row.cursor.ts := by
    refine ⟨rule.armedAt, ?_, ?_⟩
    · rw [hname, ← h.armed, hrule]
      rfl
    · rw [← hsound.timed s.row List.mem_cons_self]
      exact ruleMatches_armed hmatch
  have habout := fire_about servers rule s.row s.now (w.engine.statusFor id)
  refine h.calm _ rfl habout.calm (habout.fair hoff (.inr harmed)) rfl (fun i hg => ?_) ?_
  · refine hg.keep rfl rfl ?_ (.inl rfl) ?_ ?_
    · exact (JsMap.get_set_ne _ _ (hnotGone i hg)).trans hg.forgotten
    · intro s' hs' hin rule' hrule'
      have hrow : s'.row = s.row ∧ s'.todo = todo := by
        simp only [World.fireRule] at hs'
        split at hs'
        · obtain rfl := Option.some.inj hs'
          exact count_row { s with todo := todo } id _
        · obtain rfl := Option.some.inj hs'
          exact ⟨rfl, rfl⟩
      rw [hrow.1]
      rw [hrow.2] at hin
      exact hg.passed s (by rw [hs]; rfl) (by rw [htodo]; exact List.mem_cons_of_mem _ hin) rule'
        hrule'
    · intro s' hs'
      simp only [World.fireRule] at hs'
      split at hs'
      · cases hs'
      · cases hs'
        exact hnotGone _ hg rfl
  · intro s' i hs'
    right
    simp only [World.fireRule] at hs'
    split at hs'
    · cases hs'
    · cases hs'
      exact ⟨rule, hrule, ruleMatches_enabled hmatch⟩

end Steps

theorem World.Obeys.jobDone {file : RulesFile} {w : World} (h : w.Obeys file) (hw : w.Sound)
    {s : Sweep} {id : String} {rule : Rule} (error : Option String)
    (hs : w.phase = .awaiting s id) (hrule : w.engine.objects id = some rule) :
    (w.jobDone s id rule error).Obeys file := by
  have hname : rule.id = id := hw.engine.named id rule hrule
  have hoff : turnedOff w.trace rule.id = false := by
    rw [hname]
    by_contra hoff
    rcases h.off id (by simpa using hoff) with hd | hg
    · exact hd.settled s hs
    · exact hg.settled s hs
  have habout := settle_about rule s.row s.now error (w.engine.statusFor id)
  have hno := settle_no_act rule s.row s.now error (w.engine.statusFor id)
  refine h.calm _ rfl habout.calm (habout.fair hoff (.inl hno)) ?_ (fun i hg => ?_) ?_
  · simp only [World.jobDone]
    split_ifs <;> rfl
  · have hne : i ≠ id := fun hi => hg.settled s (by rw [hi]; exact hs)
    refine hg.keep ?_ ?_ ?_ (.inl rfl) ?_ (by simp [World.jobDone])
    · simp only [World.jobDone]
      split_ifs <;> rfl
    · simp only [World.jobDone]
      split_ifs <;> rfl
    · simp only [World.jobDone]
      split_ifs
      · exact (JsMap.get_set_ne _ _ hne).trans hg.forgotten
      · exact hg.forgotten
    · intro s' hs' hin rule' hrule'
      obtain rfl := Option.some.inj hs'
      obtain ⟨hrow, htodo⟩ := count_row s id
        (settle rule s.row s.now error (w.engine.statusFor id)).2.2
      rw [hrow]
      rw [htodo] at hin
      exact hg.passed s (by rw [hs]; rfl) hin rule' hrule'
  · intro s' i hs'
    cases hs'

/-! ## The calls -/

theorem turnedOff_snoc (trace : List (Int × Entry)) (e : Int × Entry) (id : String) :
    turnedOff (trace ++ [e]) id =
      match e.2 with
      | .enabled i => if i = id then false else turnedOff trace id
      | .disabled i => if i = id then true else turnedOff trace id
      | .removed i => if i = id then true else turnedOff trace id
      | _ => turnedOff trace id := by
  unfold turnedOff
  rw [List.foldl_append]
  rfl

theorem armedSince_snoc (file : RulesFile) (trace : List (Int × Entry)) (e : Int × Entry)
    (id : String) :
    armedSince file (trace ++ [e]) id =
      match e.2 with
      | .created i => if i = id then some e.1 else armedSince file trace id
      | .enabled i => if i = id then some e.1 else armedSince file trace id
      | _ => armedSince file trace id := by
  unfold armedSince
  rw [List.foldl_append]
  rfl

/-- A call's own entry is fair wherever it comes. -/
theorem Each.toggle {file : RulesFile} {trace : List (Int × Entry)} (h : Each file trace)
    (t : Int) {e : Entry} (he : e.toggle = true) : Each file (trace ++ [(t, e)]) := by
  refine h.append fun before e' after heq => ?_
  have hin : e' ∈ [(t, e)] := by
    rw [heq]
    simp
  rw [List.mem_singleton.mp hin]
  refine ⟨fun id hid => ?_, fun id cursor hact => ?_⟩
  · cases e with
    | runJob => cases he
    | notify => cases he
    | _ => cases hid
  · subst hact
    cases he

theorem checkedRule_armed {now : Int} {newId : String} {draft : RuleEngine.RuleDraft}
    {checked : Rule} (h : RuleEngine.checkedRule now newId draft = some checked) :
    checked.armedAt = now := by
  unfold RuleEngine.checkedRule at h
  split_ifs at h
  unfold sanitiseRules at h
  simp only [List.take_succ_cons, List.take_nil, MAX_RULES, List.foldl_cons, List.foldl_nil] at h
  unfold addSanitised at h
  cases hs : sanitiseRule (RuleEngine.draftedRule now newId draft) with
  | none => simp [hs] at h
  | some rule =>
    have hrule : rule = checked := by simpa [hs] using h
    rw [← hrule]
    unfold sanitiseRule at hs
    split_ifs at hs
    obtain ⟨action, -, rfl⟩ := Option.map_eq_some_iff.mp hs
    rfl

theorem World.Obeys.create {file : RulesFile} {w : World} (h : w.Obeys file) {checked : Rule}
    (harmed : checked.armedAt = w.clock) (hnew : w.engine.objects checked.id = none) :
    ({ w.save (w.engine.create w.clock checked) with
      phase := w.phase.map (Sweep.pushed checked.id) }.say [.created checked.id]).Obeys file := by
  have hne : ∀ i, (w.engine.objects i).isSome → i ≠ checked.id := by
    intro i hi heq
    rw [heq, hnew] at hi
    cases hi
  have hobj : ∀ i, i ≠ checked.id →
      (w.engine.create w.clock checked).objects i = w.engine.objects i := by
    intro i hi
    rw [RuleEngine.create_objects]
    exact if_neg hi
  have hsettled : ∀ i, (∀ s, w.phase ≠ .awaiting s i) →
      ∀ s, w.phase.map (Sweep.pushed checked.id) ≠ .awaiting s i := by
    intro i hi s hs
    cases hp : w.phase with
    | awaiting s' j =>
      rw [hp] at hs
      cases hs
      exact hi s' hp
    | idle => rw [hp] at hs; cases hs
    | walking s' => rw [hp] at hs; cases hs
  have hgone : ∀ i, w.Gone i → ({ w.save (w.engine.create w.clock checked) with
      phase := w.phase.map (Sweep.pushed checked.id) }.say [.created checked.id]).Gone i := by
    intro i hg
    have hi := hne i hg.known
    have hforgotten : (w.engine.create w.clock checked).status.get i = none := by
      rw [RuleEngine.create_status, JsMap.get_set_ne _ _ hi]
      exact hg.forgotten
    refine ⟨?_, ?_, hforgotten, unsaved_persist hforgotten, ?_, hsettled i hg.settled⟩
    · change i ∉ (w.engine.create w.clock checked).rules
      rw [RuleEngine.create_rules, List.mem_append, List.mem_singleton]
      exact not_or.mpr ⟨hg.out, hi⟩
    · exact (hobj i hi).symm ▸ hg.known
    · intro s' hs' hin rule hrule
      rw [World.say_phase, sweep?_map, Option.map_eq_some_iff] at hs'
      obtain ⟨s, hs, rfl⟩ := hs'
      change (w.engine.create w.clock checked).objects i = some rule at hrule
      rw [hobj i hi] at hrule
      have hrow : (s.pushed checked.id).row = s.row := by
        unfold Sweep.pushed
        split_ifs <;> rfl
      rw [hrow]
      refine hg.passed s hs ?_ rule hrule
      unfold Sweep.pushed at hin
      split_ifs at hin
      · rcases List.mem_append.mp hin with hin | hin
        · exact hin
        · exact absurd (List.mem_singleton.mp hin) hi
      · exact hin
  refine ⟨h.each.toggle _ rfl, fun id hid => ?_, fun t id hin => ?_, fun id => ?_⟩
  · change turnedOff (w.trace ++ [(w.clock, .created checked.id)]) id = true at hid
    rw [turnedOff_snoc] at hid
    rcases h.off id hid with ⟨⟨rule, hrule, hoff⟩, hs⟩ | hg
    · refine .inl ⟨⟨rule, ?_, hoff⟩, hsettled id hs⟩
      exact (hobj id (hne id (by rw [hrule]; rfl))).trans hrule
    · exact .inr (hgone id hg)
  · rcases List.mem_append.mp hin with hin | hin
    · exact hgone id (h.gone t id hin)
    · simp at hin
  · change ((w.engine.create w.clock checked).objects id).map Rule.armedAt =
      armedSince file (w.trace ++ [(w.clock, .created checked.id)]) id
    rw [armedSince_snoc]
    by_cases hid : checked.id = id
    · subst hid
      simp [RuleEngine.create_objects, RuleEngine.setObject, harmed]
    · rw [hobj id (Ne.symm hid), h.armed]
      simp [hid]

theorem World.Obeys.setEnabled {file : RulesFile} {w : World} (h : w.Obeys file) {id : String}
    {enabled : Bool} {rule : Rule} (hok : calledClear w (.setEnabled id enabled) = true)
    (hin : id ∈ w.engine.rules) (hrule : w.engine.objects id = some rule) :
    ((w.save (w.engine.setObject id { rule with
      enabled := enabled, armedAt := if enabled then w.clock else rule.armedAt })).say
        [if enabled then .enabled id else .disabled id]).Obeys file := by
  generalize hrule' : { rule with
    enabled := enabled, armedAt := if enabled then w.clock else rule.armedAt } = rule'
  have hself : (w.engine.setObject id rule').objects id = some rule' := if_pos rfl
  have hother : ∀ i, i ≠ id → (w.engine.setObject id rule').objects i = w.engine.objects i :=
    fun i hi => if_neg hi
  have hnotGone : ∀ i, w.Gone i → i ≠ id := fun i hg hi => hg.out (hi ▸ hin)
  have hgone : ∀ i, w.Gone i → ((w.save (w.engine.setObject id rule')).say
      [if enabled then .enabled id else .disabled id]).Gone i := by
    intro i hg
    have hi := hnotGone i hg
    refine ⟨hg.out, (hother i hi).symm ▸ hg.known, hg.forgotten,
      unsaved_persist (e := w.engine.setObject id rule') hg.forgotten, ?_, hg.settled⟩
    intro s hs htodo r hr
    exact hg.passed s hs htodo r ((hother i hi).symm.trans hr)
  have htoggle : (if enabled then Entry.enabled id else .disabled id).toggle = true := by
    cases enabled <;> rfl
  refine ⟨h.each.toggle _ htoggle, fun i hi => ?_, fun t i hi => ?_, fun i => ?_⟩
  · change turnedOff (w.trace ++ [(w.clock, _)]) i = true at hi
    rw [turnedOff_snoc] at hi
    have hkeep : i ≠ id → turnedOff w.trace i = true →
        World.Disabled ((w.save (w.engine.setObject id rule')).say
          [if enabled then .enabled id else .disabled id]) i ∨
        World.Gone ((w.save (w.engine.setObject id rule')).say
          [if enabled then .enabled id else .disabled id]) i := by
      intro hne hoff
      rcases h.off i hoff with ⟨⟨r, hr, hdis⟩, hs⟩ | hg
      · exact .inl ⟨⟨r, (hother i hne).trans hr, hdis⟩, hs⟩
      · exact .inr (hgone i hg)
    by_cases hne : id = i
    · subst hne
      cases enabled with
      | true => simp at hi
      | false =>
        have hawaits : w.awaits id = false := by simpa [calledClear] using hok
        exact .inl ⟨⟨rule', hself, by rw [← hrule']⟩, not_awaiting hawaits⟩
    · refine hkeep (Ne.symm hne) ?_
      cases enabled <;> simpa [hne] using hi
  · rcases List.mem_append.mp hi with hi | hi
    · exact hgone i (h.gone t i hi)
    · cases enabled <;> simp at hi
  · change ((w.engine.setObject id rule').objects i).map Rule.armedAt =
      armedSince file (w.trace ++ [(w.clock, _)]) i
    rw [armedSince_snoc]
    by_cases hne : id = i
    · subst hne
      rw [hself, ← hrule']
      cases enabled with
      | true => simp
      | false => simpa [hrule] using h.armed id
    · rw [hother i (Ne.symm hne), h.armed]
      cases enabled <;> simp [hne]

theorem World.Obeys.remove {file : RulesFile} {w : World} (h : w.Obeys file) (hw : w.Sound)
    {id : String} (hok : calledClear w (.remove id) = true) (hin : id ∈ w.engine.rules) :
    ({ w.save { w.engine with
        rules := w.engine.rules.filter (· ≠ id), status := w.engine.status.delete id } with
      phase := w.phase.map Sweep.detached }.say [.removed id]).Obeys file := by
  obtain ⟨hawaits, hvisits⟩ : w.awaits id = false ∧ w.visits id = false := by
    simpa [calledClear] using hok
  have hsettled : ∀ i, (∀ s, w.phase ≠ .awaiting s i) →
      ∀ s, w.phase.map Sweep.detached ≠ .awaiting s i := by
    intro i hi s hs
    cases hp : w.phase with
    | awaiting s' j =>
      rw [hp] at hs
      cases hs
      exact hi s' hp
    | idle => rw [hp] at hs; cases hs
    | walking s' => rw [hp] at hs; cases hs
  -- the removed rule, and any removed before it
  have hgone : ∀ i, i = id ∨ w.Gone i → World.Gone ({ w.save { w.engine with
        rules := w.engine.rules.filter (· ≠ id), status := w.engine.status.delete id } with
      phase := w.phase.map Sweep.detached }.say [.removed id]) i := by
    intro i hi
    have hforgotten : (w.engine.status.delete id).get i = none := by
      rw [JsMap.get_delete]
      split_ifs with heq
      · rfl
      · exact (hi.resolve_left heq).forgotten
    refine ⟨?_, ?_, hforgotten, unsaved_persist (e := { w.engine with
      rules := w.engine.rules.filter (· ≠ id), status := w.engine.status.delete id }) hforgotten,
      ?_, hsettled i ?_⟩
    · intro hmem
      obtain ⟨hmem, hne⟩ := List.mem_filter.mp hmem
      exact (hi.resolve_left (by simpa using hne)).out hmem
    · rcases hi with rfl | hg
      · exact hw.engine.known i hin
      · exact hg.known
    · intro s' hs' htodo rule hrule
      rw [World.say_phase, sweep?_map, Option.map_eq_some_iff] at hs'
      obtain ⟨s, hs, rfl⟩ := hs'
      rcases hi with rfl | hg
      · exact not_visited hvisits s hs htodo rule hrule
      · exact hg.passed s hs htodo rule hrule
    · rcases hi with rfl | hg
      · exact not_awaiting hawaits
      · exact hg.settled
  refine ⟨h.each.toggle _ rfl, fun i hi => ?_, fun t i hi => ?_, fun i => ?_⟩
  · change turnedOff (w.trace ++ [(w.clock, .removed id)]) i = true at hi
    rw [turnedOff_snoc] at hi
    by_cases hne : id = i
    · exact .inr (hgone i (.inl hne.symm))
    · have hoff : turnedOff w.trace i = true := by simpa [hne] using hi
      rcases h.off i hoff with ⟨hd, hs⟩ | hg
      · exact .inl ⟨hd, hsettled i hs⟩
      · exact .inr (hgone i (.inr hg))
  · rcases List.mem_append.mp hi with hi | hi
    · exact hgone i (.inr (h.gone t i hi))
    · have heq : t = w.clock ∧ i = id := by simpa using hi
      exact hgone i (.inl heq.2)
  · change (w.engine.objects i).map Rule.armedAt =
      armedSince file (w.trace ++ [(w.clock, .removed id)]) i
    rw [armedSince_snoc]
    exact h.armed i

/-! ## Every step -/

/-- A step that says nothing and leaves the rules as they are. -/
theorem World.Obeys.silent {file : RulesFile} {w w' : World} (h : w.Obeys file)
    (htrace : w'.trace = w.trace) (hobj : w'.engine.objects = w.engine.objects)
    (hgone : ∀ id, w.Gone id → w'.Gone id)
    (hawait : ∀ s id, w'.phase = .awaiting s id → w.phase = .awaiting s id) : w'.Obeys file := by
  refine h.calm [] ?_ (by simp) (by simp) hobj hgone fun s id hs => .inl (hawait s id hs)
  rw [World.say_nil]
  exact htrace

section Steps
variable [Approval]

theorem World.Obeys.does {file : RulesFile} {w w' : World} {m : Move} (h : w.Obeys file)
    (hw : w.Sound) (hok : calledClear w m = true) (hd : Does w m w') : w'.Obeys file := by
  cases hd with
  | tick clock =>
    exact h.silent rfl rfl (fun id hg => hg.keep rfl rfl hg.forgotten (.inl rfl) hg.passed
      hg.settled) fun s id hs => hs
  | openStore =>
    exact h.silent rfl rfl (fun id hg => hg.keep rfl rfl hg.forgotten (.inl rfl) hg.passed
      hg.settled) fun s id hs => hs
  | append e log hlog =>
    exact h.silent rfl rfl (fun id hg => hg.keep rfl rfl hg.forgotten (.inl rfl) hg.passed
      hg.settled) fun s id hs => hs
  | sweep hidle hb =>
    obtain ⟨es, hplain, htrace, hobj, hawait⟩ := hb.entries
    exact h.calm es htrace hplain.calm hplain.fair hobj (fun id hg => hg.begins hidle hb)
      fun s id hs => (hawait hidle s id hs).elim
  | pass servers s id todo hs htodo hno =>
    refine h.silent rfl rfl (fun i hg => ?_) (by simp)
    refine hg.keep rfl rfl hg.forgotten (.inl rfl) ?_ (by simp)
    intro s' hs' hin
    obtain rfl := Option.some.inj hs'
    exact hg.passed s (by rw [hs]; rfl) (by rw [htodo]; exact List.mem_cons_of_mem _ hin)
  | fire servers s id todo rule hs htodo hrule hmatch =>
    exact h.fireRule hw servers hs htodo hrule hmatch
  | nextRow servers s row later hs htodo hlater =>
    refine h.silent (w.marked_trace s) (by rw [w.marked_engine]) (fun i hg => ?_) (by simp)
    have hmarked := hg.marked (s := s)
    refine hmarked.keep rfl rfl hmarked.forgotten (.inl rfl) ?_ (by simp)
    intro s' hs' hin
    obtain rfl := Option.some.inj hs'
    exact absurd hin hmarked.out
  | finish servers s hs htodo hlater =>
    obtain ⟨es, hplain, htrace⟩ := (w.marked s).finish_trace s
    refine h.calm es ?_ hplain.calm hplain.fair (by rw [World.finish_engine, w.marked_engine])
      (fun i hg => ?_) (by simp)
    · rw [htrace, World.say_trace, World.say_trace, w.marked_trace, w.marked_clock]
    · have hmarked := hg.marked (s := s)
      exact hmarked.keep rfl rfl hmarked.forgotten (.inr rfl)
        (fun s' hs' => by rw [World.finish_phase] at hs'; cases hs') (by simp)
  | jobDone error s id rule hs hrule => exact h.jobDone hw error hs hrule
  | create draft newId checked hchecked hnew => exact h.create (checkedRule_armed hchecked) hnew
  | setEnabled id enabled rule hin hrule => exact h.setEnabled hok hin hrule
  | remove id hin => exact h.remove hw hok hin
  | list =>
    refine h.silent rfl rfl (fun id hg => ?_) fun s id hs => hs
    exact hg.keep rfl rfl (get_ensureAll_of_notMem hg.out hg.forgotten) (.inl rfl) hg.passed
      hg.settled
  | nothing => exact h
  | crash => cases hok

end Steps

/-! ## Removed while another rule's job runs -/

def secondRule : Rule := { restartRule with id := "r2", name := "restart it again" }

def twoJobsFile : RulesFile := ⟨some ⟨0, 0⟩, [restartRule, secondRule], []⟩

/-- The second rule is removed before it has been visited, or when it is done. -/
def removedEarly : List Move := toJob ++ [.remove "r2", .jobDone none, .turn ["s1"]]

def removedLate : List Move :=
  toJob ++ [.jobDone none, .turn ["s1"], .jobDone none, .remove "r2", .turn []]

def staysUp : Move → Bool
  | .crash => false
  | _ => true

end OpsMaxx.Rules
