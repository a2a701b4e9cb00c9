import OpsMaxx.Rules.Rate

/-!
# What survives a restart

What `load` makes of the file `persist` writes. A rule is checked when it is created by what the
file is read back through, one rule at a time; the file as a whole is cut at `MAX_RULES`.
-/

set_option autoImplicit false

namespace OpsMaxx.Rules

open OpsMaxx OpsMaxx.Store

/-! ## Checking a rule twice -/

theorem sliceChars_sliceChars (n : Nat) (cs : List Char) :
    sliceChars n (sliceChars n cs) = sliceChars n cs := by
  induction cs generalizing n with
  | nil => rfl
  | cons c cs ih =>
    by_cases hfits : (if c.toNat < 0x10000 then 1 else 2) ≤ n
    · simp only [sliceChars, if_pos hfits, ih]
    · simp only [sliceChars, if_neg hfits]

@[simp] theorem slice_slice (s : String) (n : Nat) : slice (slice s n) n = slice s n := by
  simp only [slice, String.toList_ofList, sliceChars_sliceChars]

theorem slice_ne_empty {s : String} {n : Nat} (hn : 2 ≤ n) (hs : s ≠ "") : slice s n ≠ "" := by
  obtain ⟨c, cs, hcs⟩ : ∃ c cs, s.toList = c :: cs := by
    cases h : s.toList with
    | nil => exact absurd (String.toList_eq_nil_iff.mp h) hs
    | cons c cs => exact ⟨c, cs, rfl⟩
  have hfits : (if c.toNat < 0x10000 then 1 else 2) ≤ n := by
    split_ifs <;> omega
  intro he
  have hlist := congrArg String.toList he
  rw [slice, hcs, sliceChars, if_pos hfits, String.toList_ofList] at hlist
  cases hlist

theorem clampRuleLimit_again (a b : Option ℚ) :
    clampRuleLimit (some (clampRuleLimit a b).maxFirings) (some (clampRuleLimit a b).windowMs) =
      clampRuleLimit a b := by
  have hfirings : 1 ≤ (clampRuleLimit a b).maxFirings ∧
      (clampRuleLimit a b).maxFirings ≤ RULE_LIMIT_MAX_FIRINGS := by
    unfold clampRuleLimit RULE_LIMIT_MAX_FIRINGS RULE_LIMIT_DEFAULT
    cases a <;> dsimp only <;> omega
  have hwindow : RULE_LIMIT_MIN_WINDOW_MS ≤ (clampRuleLimit a b).windowMs ∧
      (clampRuleLimit a b).windowMs ≤ RULE_LIMIT_MAX_WINDOW_MS := by
    unfold clampRuleLimit RULE_LIMIT_MIN_WINDOW_MS RULE_LIMIT_MAX_WINDOW_MS RULE_LIMIT_DEFAULT
    cases b <;> dsimp only <;> omega
  generalize clampRuleLimit a b = limit at hfirings hwindow
  unfold clampRuleLimit
  simp only [Int.floor_natCast, Int.toNat_natCast]
  rw [min_eq_right hfirings.2, max_eq_right hfirings.1, min_eq_right hwindow.2,
    max_eq_right hwindow.1]

theorem sanitiseFilter_again (filter : RuleFilter) :
    sanitiseFilter (sanitiseFilter filter) = sanitiseFilter filter := by
  cases hid : filter.serverId with
  | none => simp [sanitiseFilter, hid]
  | some serverId =>
    by_cases hempty : serverId = ""
    · simp [sanitiseFilter, hid, hempty]
    · simp [sanitiseFilter, hid, hempty, slice_ne_empty (n := MAX_NAME) (by decide) hempty]

theorem sanitiseAction_again {action action' : RuleAction} (h : sanitiseAction action = some action') :
    sanitiseAction action' = some action' := by
  cases action with
  | notify =>
    cases h
    rfl
  | job spec targets approval =>
    unfold sanitiseAction at h
    dsimp only at h
    split_ifs at h with hbad
    cases h
    unfold sanitiseAction
    dsimp only
    rw [if_neg]
    · simp [List.map_map, Function.comp_def]
    · simpa [List.map_map, Function.comp_def] using hbad

/-- A rule that was kept is kept as it is. -/
theorem sanitiseRule_again {r r' : Rule} (h : sanitiseRule r = some r') :
    sanitiseRule r' = some r' := by
  unfold sanitiseRule at h
  split_ifs at h with hbad
  rw [not_or] at hbad
  obtain ⟨action, haction, rfl⟩ := Option.map_eq_some_iff.mp h
  unfold sanitiseRule
  dsimp only
  rw [if_neg, sanitiseAction_again haction]
  · simp [sanitiseFilter_again, clampRuleLimit_again]
  · rw [not_or]
    exact ⟨slice_ne_empty (by decide) hbad.1, hbad.2⟩

/-! ## Checking a file twice -/

theorem foldl_addSanitised (out : List Rule) {rules : List Rule}
    (hnodup : ((out ++ rules).map Rule.id).Nodup)
    (h : ∀ r ∈ rules, sanitiseRule r = some r) : rules.foldl addSanitised out = out ++ rules := by
  induction rules generalizing out with
  | nil => simp
  | cons r rules ih =>
    have hnew : r.id ∉ out.map Rule.id := by
      intro hmem
      rw [List.map_append, List.map_cons] at hnodup
      exact (List.nodup_append.mp hnodup).2.2 _ hmem _ List.mem_cons_self rfl
    have hadd : addSanitised out r = out ++ [r] := by
      unfold addSanitised
      rw [h r List.mem_cons_self]
      exact if_neg hnew
    rw [List.foldl_cons, hadd, ih]
    · rw [List.append_assoc, List.singleton_append]
    · rwa [List.append_assoc, List.singleton_append]
    · exact fun x hx => h x (List.mem_cons_of_mem _ hx)

theorem sanitiseRules_again {rules : List Rule} (hnodup : (rules.map Rule.id).Nodup)
    (h : ∀ r ∈ rules, sanitiseRule r = some r) (hlen : rules.length ≤ MAX_RULES) :
    sanitiseRules rules = rules := by
  unfold sanitiseRules
  rw [List.take_of_length_le hlen]
  exact foldl_addSanitised [] hnodup h

theorem addSanitised_kept {out : List Rule} (hout : ∀ r ∈ out, sanitiseRule r = some r) (r : Rule) :
    (∀ x ∈ addSanitised out r, sanitiseRule x = some x) ∧
      (addSanitised out r).length ≤ out.length + 1 := by
  unfold addSanitised
  cases hr : sanitiseRule r with
  | none => exact ⟨hout, Nat.le_succ _⟩
  | some rule =>
    dsimp only
    split_ifs
    · exact ⟨hout, Nat.le_succ _⟩
    · constructor
      · intro x hx
        rcases List.mem_append.mp hx with hx | hx
        · exact hout x hx
        · rw [List.mem_singleton.mp hx]
          exact sanitiseRule_again hr
      · simp

/-- What is read of a file would be kept again, and is no more than `MAX_RULES`. -/
theorem sanitiseRules_kept (rules : List Rule) :
    (∀ r ∈ sanitiseRules rules, sanitiseRule r = some r) ∧
      (sanitiseRules rules).length ≤ MAX_RULES := by
  have hall : ∀ rest out : List Rule, (∀ r ∈ out, sanitiseRule r = some r) →
      (∀ r ∈ rest.foldl addSanitised out, sanitiseRule r = some r) ∧
        (rest.foldl addSanitised out).length ≤ out.length + rest.length := by
    intro rest
    induction rest with
    | nil => exact fun out hout => ⟨hout, le_rfl⟩
    | cons r rest ih =>
      intro out hout
      obtain ⟨hkept, hlen⟩ := addSanitised_kept hout r
      obtain ⟨hkept', hlen'⟩ := ih _ hkept
      refine ⟨hkept', hlen'.trans ?_⟩
      rw [List.length_cons]
      omega
  obtain ⟨hkept, hlen⟩ := hall (rules.take MAX_RULES) [] (by simp)
  refine ⟨hkept, hlen.trans ?_⟩
  rw [List.length_nil, Nat.zero_add]
  exact List.length_take_le _ _

namespace RuleEngine

/-- Loading what `persist` writes restores the rules in their order, the ledger of each and the
watermark. -/
structure Restores (e : RuleEngine) : Prop where
  rules : (load e.persist).rules = e.rules
  objects : ∀ id ∈ e.rules, (load e.persist).objects id = e.objects id
  fired : ∀ id ∈ e.rules, ((load e.persist).statusFor id).fired = (e.statusFor id).fired
  watermark : (load e.persist).watermark = e.watermark

/-- Every rule would be kept as it is. -/
def Lasting (e : RuleEngine) : Prop :=
  ∀ id rule, e.objects id = some rule → sanitiseRule rule = some rule

theorem persist_rules_id {e : RuleEngine} (h : e.Sound) : e.persist.rules.map Rule.id = e.rules := by
  have hall : ∀ ids : List String, (∀ id ∈ ids, (e.objects id).isSome) →
      (ids.filterMap e.objects).map Rule.id = ids := by
    intro ids
    induction ids with
    | nil => exact fun _ => rfl
    | cons id ids ih =>
      intro hids
      obtain ⟨rule, hrule⟩ := Option.isSome_iff_exists.mp (hids id List.mem_cons_self)
      rw [List.filterMap_cons_some hrule, List.map_cons, h.named id rule hrule,
        ih fun i hi => hids i (List.mem_cons_of_mem _ hi)]
  exact hall e.rules h.known

theorem mem_persist_rules {e : RuleEngine} {rule : Rule} (hmem : rule ∈ e.persist.rules) :
    ∃ id ∈ e.rules, e.objects id = some rule := List.mem_filterMap.mp hmem

theorem get_keepAll {kept : List String} {id : String} (hid : id ∈ kept)
    {entries : List (String × RuleStatus)} (hnodup : (entries.map Prod.fst).Nodup)
    (m : JsMap String RuleStatus) :
    (entries.foldl (keepStatus kept) m).get id =
      ((entries.lookup id).map sanitiseStatus).or (m.get id) := by
  induction entries generalizing m with
  | nil => rfl
  | cons entry entries ih =>
    obtain ⟨k, s⟩ := entry
    rw [List.map_cons, List.nodup_cons] at hnodup
    rw [List.foldl_cons, ih hnodup.2, List.lookup_cons]
    by_cases hk : k = id
    · subst hk
      have hnone : entries.lookup k = none := by
        rw [List.lookup_eq_none_iff]
        intro e he
        rw [bne_iff_ne]
        intro heq
        exact hnodup.1 (List.mem_map.mpr ⟨e, he, heq.symm⟩)
      simp [hnone, keepStatus, hid]
    · have hget : (keepStatus kept m (k, s)).get id = m.get id := by
        unfold keepStatus
        split_ifs
        · exact JsMap.get_set_ne m _ (Ne.symm hk)
        · rfl
      rw [hget, show (id == k) = false by simpa using Ne.symm hk]

theorem load_fired (e : RuleEngine) {id : String}
    (hid : id ∈ (sanitiseRules e.persist.rules).map Rule.id) :
    ((load e.persist).statusFor id).fired = (e.statusFor id).fired := by
  unfold statusFor load
  dsimp only
  rw [getD_ensureAll, show e.persist.status = e.status.entries from rfl,
    get_keepAll hid e.status.nodup, JsMap.get_empty, Option.or_none]
  show _ = ((e.status.entries.lookup id).getD emptyStatus).fired
  cases e.status.entries.lookup id with
  | none => rfl
  | some s =>
    show (sanitiseStatus s).fired = s.fired
    unfold sanitiseStatus
    split_ifs <;> rfl

/-- What can be created survives as long as there is room for it in the file. -/
theorem restores_iff {e : RuleEngine} (h : e.Sound) (hlast : e.Lasting) :
    e.Restores ↔ e.rules.length ≤ MAX_RULES := by
  constructor
  · intro hrestores
    rw [← hrestores.rules]
    show ((sanitiseRules e.persist.rules).map Rule.id).length ≤ MAX_RULES
    rw [List.length_map]
    exact (sanitiseRules_kept _).2
  · intro hlen
    have hids := persist_rules_id h
    have hrules : sanitiseRules e.persist.rules = e.persist.rules := by
      apply sanitiseRules_again
      · rw [hids]
        exact h.nodup
      · intro r hr
        obtain ⟨id, -, hrule⟩ := mem_persist_rules hr
        exact hlast id r hrule
      · rw [← hids, List.length_map] at hlen
        exact hlen
    constructor
    · show (sanitiseRules e.persist.rules).map Rule.id = e.rules
      rw [hrules, hids]
    · intro id hid
      show (sanitiseRules e.persist.rules).find? (fun r => r.id = id) = e.objects id
      rw [hrules]
      obtain ⟨rule, hrule⟩ := Option.isSome_iff_exists.mp (h.known id hid)
      have hmem : rule ∈ e.persist.rules := List.mem_filterMap.mpr ⟨id, hid, hrule⟩
      cases hfind : e.persist.rules.find? fun r => r.id = id with
      | none =>
        have hno := List.find?_eq_none.mp hfind rule hmem
        rw [h.named id rule hrule] at hno
        simp at hno
      | some found =>
        obtain ⟨i, -, hfound⟩ := mem_persist_rules (List.mem_of_find?_eq_some hfind)
        have hi : found.id = id := by simpa using List.find?_some hfind
        rw [h.named i found hfound] at hi
        rw [← hi, hfound]
    · intro id hid
      apply load_fired
      rw [hrules, hids]
      exact hid
    · rfl

/-! ## Lasting rules -/

theorem lasting_load (file : RulesFile) : (load file).Lasting := by
  intro id rule hrule
  exact (sanitiseRules_kept file.rules).1 rule (List.mem_of_find?_eq_some hrule)

theorem Lasting.setObject {e : RuleEngine} (h : e.Lasting) {id : String} {rule : Rule}
    (hrule : sanitiseRule rule = some rule) : (e.setObject id rule).Lasting := by
  intro i r hr
  unfold RuleEngine.setObject at hr
  dsimp only at hr
  split_ifs at hr
  · obtain rfl := Option.some.inj hr
    exact hrule
  · exact h i r hr

theorem checkedRule_lasting {now : Int} {newId : String} {draft : RuleDraft} {checked : Rule}
    (h : checkedRule now newId draft = some checked) : sanitiseRule checked = some checked := by
  unfold checkedRule at h
  split_ifs at h
  exact (sanitiseRules_kept _).1 checked (List.mem_of_head? h)

/-- Turning a rule on or off does not touch what `sanitiseRule` looks at. -/
theorem sanitiseRule_toggled {rule : Rule} (h : sanitiseRule rule = some rule) (enabled : Bool)
    (armedAt : Int) :
    sanitiseRule { rule with enabled := enabled, armedAt := armedAt } =
      some { rule with enabled := enabled, armedAt := armedAt } := by
  unfold sanitiseRule at h ⊢
  dsimp only
  split_ifs at h ⊢ with hbad
  obtain ⟨action, haction, heq⟩ := Option.map_eq_some_iff.mp h
  rw [haction, Option.map_some]
  cases rule
  simp only [Rule.mk.injEq] at heq
  simp [heq]

end RuleEngine

/-! ## Every run -/

section Runs
variable [Approval]

/-- A rule is created while the engine holds fewer than the file keeps. -/
def HasRoom (w : World) : Move → Prop
  | .create draft newId =>
    (RuleEngine.checkedRule w.clock newId draft).isSome → w.engine.rules.length < MAX_RULES
  | _ => True

structure World.Kept (w : World) : Prop where
  sound : w.Sound
  lasting : w.engine.Lasting
  room : w.engine.rules.length ≤ MAX_RULES

/-- Which rules there are, and what they are, only the calls change. -/
theorem Does.engine {w w' : World} {m : Move} (hd : Does w m w') :
    (w'.engine.objects = w.engine.objects ∧ w'.engine.rules.length ≤ w.engine.rules.length) ∨
      (∃ draft newId checked, m = .create draft newId ∧
        RuleEngine.checkedRule w.clock newId draft = some checked ∧
        w'.engine = w.engine.create w.clock checked) ∨
      (∃ id enabled rule armedAt, w.engine.objects id = some rule ∧
        w'.engine = w.engine.setObject id { rule with enabled := enabled, armedAt := armedAt }) ∨
      w'.engine = .load w.file := by
  cases hd with
  | create draft newId checked hchecked hnew =>
    exact .inr (.inl ⟨draft, newId, checked, rfl, hchecked, rfl⟩)
  | setEnabled id enabled rule hin hrule => exact .inr (.inr (.inl ⟨id, enabled, rule, _, hrule, rfl⟩))
  | crash => exact .inr (.inr (.inr rfl))
  | remove id hin => exact .inl ⟨rfl, List.length_filter_le _ _⟩
  | sweep hidle hb =>
    left
    cases hb <;> exact ⟨rfl, le_rfl⟩
  | nextRow servers s row later hs htodo hlater =>
    left
    rw [w.marked_engine]
    exact ⟨rfl, le_rfl⟩
  | finish servers s hs htodo hlater =>
    left
    rw [World.finish_engine, w.marked_engine]
    exact ⟨rfl, le_rfl⟩
  | jobDone error s id rule hs hrule =>
    obtain ⟨-, hobj, hrules⟩ := jobDone_engine w s id rule error
    exact .inl ⟨hobj, hrules ▸ le_rfl⟩
  | _ => exact .inl ⟨rfl, le_rfl⟩

theorem World.Kept.does {w w' : World} {m : Move} (h : w.Kept) (hroom : HasRoom w m)
    (hd : Does w m w') : w'.Kept := by
  refine ⟨h.sound.does hd, ?_, ?_⟩
  · obtain ⟨hobj, -⟩ | ⟨_, _, checked, -, hchecked, heng⟩ | ⟨id, enabled, rule, _, hrule, heng⟩ |
      heng := hd.engine
    · intro id rule hrule
      exact h.lasting id rule (hobj ▸ hrule)
    · intro id rule hrule
      rw [heng, RuleEngine.create_objects] at hrule
      exact h.lasting.setObject (RuleEngine.checkedRule_lasting hchecked) id rule hrule
    · rw [heng]
      exact h.lasting.setObject (RuleEngine.sanitiseRule_toggled (h.lasting id rule hrule) _ _)
    · rw [heng]
      exact RuleEngine.lasting_load w.file
  · obtain ⟨-, hlen⟩ | ⟨draft, newId, checked, rfl, hchecked, heng⟩ | ⟨id, _, rule, _, _, heng⟩ |
      heng := hd.engine
    · exact hlen.trans h.room
    · have hlt := hroom (by rw [hchecked]; rfl)
      rw [heng, RuleEngine.create_rules, List.length_append]
      exact hlt
    · rw [heng]
      exact h.room
    · rw [heng]
      show ((sanitiseRules w.file.rules).map Rule.id).length ≤ MAX_RULES
      rw [List.length_map]
      exact (sanitiseRules_kept _).2

omit [Approval] in
theorem World.kept_start (file : RulesFile) (log : AlertLog) (clock : Int) :
    (World.start file log clock).Kept := by
  refine ⟨World.sound_start file log clock, RuleEngine.lasting_load file, ?_⟩
  show ((sanitiseRules file.rules).map Rule.id).length ≤ MAX_RULES
  rw [List.length_map]
  exact (sanitiseRules_kept _).2

/-- In every run in which each rule is created while there is room for it, what is loaded from the
file written by `persist` is what the engine has: the rules in their order, the ledger of each and
the watermark. -/
theorem rules_survive_restart (file : RulesFile) (log : AlertLog) (clock : Int) (ms : List Move)
    (w : World) (hrun : Run HasRoom (.start file log clock) ms w) : w.engine.Restores := by
  have hkept := hrun.invariant (World.kept_start file log clock)
    fun _ _ _ h hok hs => h.does hok (step_does hs)
  exact (RuleEngine.restores_iff hkept.sound.engine hkept.lasting).mpr hkept.room

end Runs

/-! ## One rule after another -/

def emptyFile : RulesFile := ⟨none, [], []⟩

def tellDraft : RuleEngine.RuleDraft where
  name := "tell us"
  kind := .«service-down»
  event := .raised
  filter := none
  limit := (none, none)
  action := .notify
  unattended := false

/-- A rule is created, and turned off before the next one is. -/
theorem rules_survive_restart_off :
    letI := coversAll
    (play (fun _ _ => true) (.start emptyFile .empty 0)
      [.create tellDraft "r1", .setEnabled "r1" false, .create tellDraft "r2"]).1.engine.Restores := by
  let _ := coversAll
  apply rules_survive_restart emptyFile .empty 0
  have hroom : ∀ v m, v.engine.rules.length < MAX_RULES → HasRoom v m := by
    intro v m hlt
    cases m <;> first | exact fun _ => hlt | exact trivial
  have hrun := Run.of_play (fun v m => decide (v.engine.rules.length < MAX_RULES))
    (.start emptyFile .empty 0)
    [.create tellDraft "r1", .setEnabled "r1" false, .create tellDraft "r2"] (by decide +kernel)
  exact hrun.mono fun v m hlt => hroom v m (of_decide_eq_true hlt)

def nthId (n : Nat) : String := String.singleton (Char.ofNat (n + 200))

theorem nthId_toList (n : Nat) : (nthId n).toList = [Char.ofNat (n + 200)] :=
  String.toList_singleton _

theorem nthId_ne {m n : Nat} (hm : m ≤ 200) (hn : n ≤ 200) (hmn : m ≠ n) : nthId m ≠ nthId n := by
  intro h
  have hchar : Char.ofNat (m + 200) = Char.ofNat (n + 200) := by
    have hlist := congrArg String.toList h
    rw [nthId_toList, nthId_toList] at hlist
    exact List.head_eq_of_cons_eq hlist
  have hback : ∀ k : Nat, k ≤ 200 → (Char.ofNat (k + 200)).toNat = k + 200 := by
    intro k hk
    have hvalid : (k + 200).isValidChar := Or.inl (by omega)
    unfold Char.ofNat
    rw [dif_pos hvalid]
    rfl
  have hnat := congrArg Char.toNat hchar
  rw [hback m hm, hback n hn] at hnat
  omega

theorem slice_nthId (n : Nat) : slice (nthId n) MAX_NAME = nthId n := by
  have hfits : (if (Char.ofNat (n + 200)).toNat < 0x10000 then 1 else 2) ≤ MAX_NAME := by
    unfold MAX_NAME
    split_ifs <;> omega
  unfold slice
  rw [nthId_toList, sliceChars, if_pos hfits, sliceChars, ← nthId_toList, String.ofList_toList]

theorem nthId_ne_empty (n : Nat) : nthId n ≠ "" := by
  intro h
  have hlist := congrArg String.toList h
  rw [nthId_toList] at hlist
  cases hlist

/-- A rule that only tells can be created under any id that fits. -/
theorem checkedRule_tell (now : Int) {id : String} (hne : id ≠ "")
    (hfits : slice id MAX_NAME = id) :
    ∃ checked, RuleEngine.checkedRule now id tellDraft = some checked ∧ checked.id = id := by
  obtain ⟨checked, hkept, hid⟩ : ∃ checked,
      sanitiseRule (RuleEngine.draftedRule now id tellDraft) = some checked ∧ checked.id = id := by
    have hkind : ¬isRuleAlertKind tellDraft.kind = false := by decide
    have hgood : ¬((RuleEngine.draftedRule now id tellDraft).id = "" ∨
        isRuleAlertKind (RuleEngine.draftedRule now id tellDraft).kind = false) :=
      not_or.mpr ⟨hne, hkind⟩
    unfold sanitiseRule
    rw [if_neg hgood]
    exact ⟨_, rfl, hfits⟩
  refine ⟨checked, ?_, hid⟩
  unfold RuleEngine.checkedRule
  rw [if_neg (fun h => Bool.noConfusion h.1)]
  show (addSanitised [] _).head? = _
  rw [addSanitised, hkept]
  rfl

theorem created_many [Approval] (n : Nat) (hn : n ≤ 201) :
    ∃ ms w, Run (fun _ _ => True) (.start emptyFile .empty 0) ms w ∧ w.engine.rules.length = n ∧
      ∀ k, n ≤ k → k ≤ 200 → w.engine.objects (nthId k) = none := by
  induction n with
  | zero => exact ⟨[], _, .refl _, rfl, fun _ _ _ => rfl⟩
  | succ n ih =>
    obtain ⟨ms, w, hrun, hlen, hfree⟩ := ih (by omega)
    obtain ⟨checked, hchecked, hid⟩ := checkedRule_tell w.clock (nthId_ne_empty n) (slice_nthId n)
    have hnew : w.engine.objects checked.id = none := by
      rw [hid]
      exact hfree n le_rfl (by omega)
    have hstep : ∃ w', step w (.create tellDraft (nthId n)) = some w' ∧
        w'.engine = w.engine.create w.clock checked := by
      simp only [step, hchecked, if_pos hnew]
      exact ⟨_, rfl, rfl⟩
    obtain ⟨w', hw', heng⟩ := hstep
    refine ⟨_, w', hrun.next trivial hw', ?_, ?_⟩
    · rw [heng, RuleEngine.create_rules, List.length_append, hlen]
      rfl
    · intro k hk hle
      rw [heng, RuleEngine.create_objects]
      show (if nthId k = checked.id then some checked else w.engine.objects (nthId k)) = none
      rw [hid, if_neg (nthId_ne hle (by omega) (by omega))]
      exact hfree k (by omega) hle

/-- The two hundred and first rule is created, and is not read back. -/
theorem rule_dropped_on_restart :
    ¬∀ [Approval] (file : RulesFile) (log : AlertLog) (clock : Int) (ms : List Move) (w : World),
      Run (fun _ _ => True) (.start file log clock) ms w → w.engine.Restores := by
  intro h
  let _ := coversAll
  obtain ⟨ms, w, hrun, hlen, -⟩ := created_many 201 le_rfl
  have hrules := (h emptyFile .empty 0 ms w hrun).rules
  have hle : (RuleEngine.load w.engine.persist).rules.length ≤ MAX_RULES := by
    show ((sanitiseRules w.engine.persist.rules).map Rule.id).length ≤ MAX_RULES
    rw [List.length_map]
    exact (sanitiseRules_kept _).2
  rw [hrules, hlen] at hle
  exact absurd hle (by decide)

end OpsMaxx.Rules
