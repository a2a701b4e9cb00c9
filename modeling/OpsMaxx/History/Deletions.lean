import Mathlib.Data.Char
import OpsMaxx.History.Retention

/-!
# What a retention pass deletes

The ranges of the statements are the prefixes of the policy, the tiers divide the events, and so a pass
keeps the events its horizons name. The guards count the rows before the roll-up writes new ones.
-/

set_option autoImplicit false

namespace OpsMaxx.History

open OpsMaxx.Store OpsMaxx.Strings

/-! ## A range is a prefix -/

theorem toNat_valid (c : Char) : c.toNat < 0xd800 ∨ 0xdfff < c.toNat ∧ c.toNat < 0x110000 := c.valid

theorem toNat_ofNat {n : ℕ} (h : n < 0xd800 ∨ 0xdfff < n ∧ n < 0x110000) :
    (Char.ofNat n).toNat = n := by
  have hv : n.isValidChar := h
  unfold Char.ofNat
  rw [dif_pos hv]
  rfl

theorem toNat_nextPoint {last : Char} (h : last.toNat < 0x10ffff) (d : Char) :
    d.toNat < (nextPoint last).toNat ↔ d.toNat ≤ last.toNat := by
  have hlast := toNat_valid last
  have hd := toNat_valid d
  unfold nextPoint
  split_ifs with hs
  · rw [toNat_ofNat (by omega)]
    omega
  · rw [toNat_ofNat (by omega)]
    omega

theorem lt_nextPoint {last : Char} (h : last.toNat < 0x10ffff) (d : Char) :
    d < nextPoint last ↔ d ≤ last := toNat_nextPoint h d

theorem range_iff_prefix {last : Char} (h : last.toNat < 0x10ffff) (init kind : Text) :
    (init ++ [last] ≤ kind ∧ kind < init ++ [nextPoint last]) ↔ init ++ [last] <+: kind := by
  rw [← List.not_lt]
  induction init generalizing kind with
  | nil =>
    cases kind with
    | nil => simp
    | cons d kind =>
      simp only [List.nil_append, List.cons_lt_cons_iff, List.not_lt_nil, and_false, or_false,
        List.cons_prefix_cons, List.nil_prefix, and_true, lt_nextPoint h]
      constructor
      · intro ⟨hle, hge⟩
        exact le_antisymm (not_lt.mp hle) hge
      · intro heq
        subst heq
        simp
  | cons a init ih =>
    cases kind with
    | nil => simp
    | cons d kind =>
      simp only [List.cons_append, List.cons_lt_cons_iff, List.cons_prefix_cons, ← ih kind, not_or,
        not_and]
      constructor
      · intro ⟨⟨hle, hlt⟩, hge⟩
        rcases hge with hge | ⟨heq, hge⟩
        · exact absurd hge hle
        · exact ⟨heq.symm, hlt heq, hge⟩
      · intro ⟨heq, hlt, hge⟩
        subst heq
        exact ⟨⟨lt_irrefl _, fun _ => hlt⟩, Or.inr ⟨rfl, hge⟩⟩

theorem prefixUpperBound_append {last : Char} (h : last.toNat < 0x10ffff) (init : Text) :
    prefixUpperBound (init ++ [last]) = init ++ [nextPoint last] := by
  unfold prefixUpperBound
  rw [List.getLast?_concat, List.dropLast_concat]
  simp only
  rw [if_neg (by omega)]

/-- Between a prefix and its upper bound stand the texts that start with it. -/
theorem prefix_range {last : Char} (h : last.toNat < 0x10ffff) (init kind : Text) :
    (decide (init ++ [last] ≤ kind) && decide (kind < prefixUpperBound (init ++ [last]))) =
      (init ++ [last]).isPrefixOf kind := by
  rw [prefixUpperBound_append h, Bool.eq_iff_iff, Bool.and_eq_true, decide_eq_true_iff,
    decide_eq_true_iff, List.isPrefixOf_iff_prefix]
  exact range_iff_prefix h init kind

/-! ## The tiers divide the kinds -/

theorem tierPredicate_alert (kind : Text) : tierPredicate alertTier kind = alertTier.has kind := rfl

theorem tierPredicate_job (kind : Text) : tierPredicate jobTier kind = jobTier.has kind := by
  have hdash : '-'.toNat < 0x10ffff := by decide
  have hrange := prefix_range hdash ['j', 'o', 'b'] kind
  show (_ || (_ && _ || _)) = (_ || (_ || _))
  exact congrArg (fun b => (false || (b || false))) hrange

/-- No kind of an alert starts as a job's does. -/
theorem not_job_of_alert {kind : Text} (h : alertTier.has kind = true) : jobTier.has kind = false := by
  simp only [EventRetentionTier.has, alertTier, List.any_nil, Bool.or_false, List.contains_iff_mem,
    List.mem_cons, List.not_mem_nil, or_false] at h
  rcases h with rfl | rfl | rfl <;> decide

theorem eventTiers_eq : eventTiers = [⟨RETENTION_ALERT_DAYS, alertTier.has⟩,
    ⟨RETENTION_JOB_EVENT_DAYS, jobTier.has⟩,
    ⟨RETENTION_EVENT_DEFAULT_DAYS, fun kind => !alertTier.has kind && !jobTier.has kind⟩] := by
  have halert : tierPredicate alertTier = alertTier.has := funext tierPredicate_alert
  have hjob : tierPredicate jobTier = jobTier.has := funext tierPredicate_job
  have hdefault : defaultTierPredicate = fun kind => !alertTier.has kind && !jobTier.has kind := by
    funext kind
    simp [defaultTierPredicate, EVENT_RETENTION_TIERS, halert, hjob]
  unfold eventTiers EVENT_RETENTION_TIERS
  rw [List.map_cons, List.map_cons, List.map_nil, halert, hjob, hdefault]
  rfl

theorem eventRetentionDays_eq (kind : Text) : eventRetentionDays kind =
    if alertTier.has kind then RETENTION_ALERT_DAYS
    else if jobTier.has kind then RETENTION_JOB_EVENT_DAYS else RETENTION_EVENT_DEFAULT_DAYS := by
  unfold eventRetentionDays EVENT_RETENTION_TIERS
  rw [List.find?_cons, List.find?_cons]
  cases alertTier.has kind with
  | true => rfl
  | false => cases jobTier.has kind <;> rfl

theorem days_of_pred {tier : EventTier} (h : tier ∈ eventTiers) {kind : Text}
    (hp : tier.pred kind = true) : tier.days = eventRetentionDays kind := by
  rw [eventTiers_eq] at h
  rw [eventRetentionDays_eq]
  simp only [List.mem_cons, List.not_mem_nil, or_false] at h
  rcases h with rfl | rfl | rfl
  · exact (if_pos hp).symm
  · have hnot : alertTier.has kind = false := by
      by_contra halert
      have hjob := not_job_of_alert ((Bool.not_eq_false _).mp halert)
      exact absurd (hjob.symm.trans hp) (by decide)
    rw [hnot, if_neg Bool.false_ne_true]
    exact (if_pos hp).symm
  · simp only [Bool.and_eq_true, Bool.not_eq_true'] at hp
    rw [hp.1, hp.2, if_neg Bool.false_ne_true, if_neg Bool.false_ne_true]

theorem exists_tier (kind : Text) : ∃ tier ∈ eventTiers, tier.pred kind = true := by
  rw [eventTiers_eq]
  by_cases halert : alertTier.has kind = true
  · exact ⟨_, List.mem_cons_self, halert⟩
  · by_cases hjob : jobTier.has kind = true
    · exact ⟨_, List.mem_cons_of_mem _ List.mem_cons_self, hjob⟩
    · refine ⟨_, List.mem_cons_of_mem _ (List.mem_cons_of_mem _ List.mem_cons_self), ?_⟩
      simp [halert, hjob]

theorem tiers_apart :
    eventTiers.Pairwise fun a b => ∀ kind, ¬(a.pred kind = true ∧ b.pred kind = true) := by
  rw [eventTiers_eq]
  refine List.pairwise_cons.mpr ⟨fun b hb kind hk => ?_,
    List.pairwise_cons.mpr ⟨fun b hb kind hk => ?_, List.pairwise_singleton _ _⟩⟩
  · have hjob := not_job_of_alert hk.1
    simp only [List.mem_cons, List.not_mem_nil, or_false] at hb
    rcases hb with rfl | rfl
    · exact absurd hk.2 (by simp [hjob])
    · exact absurd hk.2 (by simp [show alertTier.has kind = true from hk.1])
  · simp only [List.mem_cons, List.not_mem_nil, or_false] at hb
    subst hb
    exact absurd hk.2 (by simp [show jobTier.has kind = true from hk.1])

/-!
## How much a retention pass deletes

The events go one tier after another, which is all of the doomed at once. The roll-up writes a row for
each new hour, and those already past the horizon go with the hourly rows that were counted.
-/

/-! ## Counting by disjoint tests -/

section Counts
variable {β : Type}

theorem countP_or_apart {p q : β → Bool} (h : ∀ b, ¬(p b = true ∧ q b = true)) (l : List β) :
    l.countP (fun b => p b || q b) = l.countP p + l.countP q := by
  induction l with
  | nil => rfl
  | cons b l ih =>
    rw [List.countP_cons, List.countP_cons, List.countP_cons, ih]
    have hb := h b
    cases hp : p b <;> cases hq : q b <;> simp_all <;> omega

theorem countP_any_apart {ι : Type} (p : ι → β → Bool) {l : List ι}
    (h : l.Pairwise fun i j => ∀ b, ¬(p i b = true ∧ p j b = true)) (bs : List β) :
    bs.countP (fun b => l.any fun i => p i b) = (l.map fun i => bs.countP (p i)).sum := by
  induction l with
  | nil => simp
  | cons i l ih =>
    rw [List.pairwise_cons] at h
    simp only [List.any_cons, List.map_cons, List.sum_cons]
    rw [countP_or_apart, ih h.2]
    intro b ⟨hi, hany⟩
    obtain ⟨j, hj, hb⟩ := List.any_eq_true.mp hany
    exact h.1 j hj b ⟨hi, hb⟩

theorem length_filter_not (p : β → Bool) (l : List β) :
    (l.filter fun b => !p b).length = l.length - l.countP p := by
  have hsum := l.length_eq_countP_add_countP p
  rw [← List.countP_eq_length_filter]
  simp only [Bool.decide_eq_true, decide_not] at hsum
  omega

end Counts

section Pass
variable {α : Type}

/-! ## The events -/

/-- Past the horizon of its kind. -/
def expired (now : ℚ) (e : Event α) : Bool :=
  decide (e.ts < now - eventRetentionDays e.kind * DAY_MS)

theorem any_dooms (now : ℚ) (e : Event α) :
    (eventTiers.any fun tier => tier.dooms now e) = expired now e := by
  rw [Bool.eq_iff_iff, List.any_eq_true]
  unfold EventTier.dooms EventTier.holds expired
  constructor
  · intro ⟨tier, htier, h⟩
    rw [Bool.and_eq_true] at h
    rw [← days_of_pred htier h.2]
    exact h.1
  · intro h
    obtain ⟨tier, htier, hp⟩ := exists_tier e.kind
    refine ⟨tier, htier, ?_⟩
    rw [Bool.and_eq_true, days_of_pred htier hp]
    exact ⟨h, hp⟩

theorem sum_doomed (t : Tables α) (now : ℚ) :
    (eventTiers.map fun tier => (tier.tally t now).doomed).sum = countEvents t (expired now) := by
  have hany : (fun e : Event α => eventTiers.any fun tier => tier.dooms now e) = expired now :=
    funext (any_dooms now)
  unfold countEvents
  rw [← hany, countP_any_apart]
  · rfl
  · refine tiers_apart.imp fun {a b} h e hboth => h e.kind ?_
    unfold EventTier.dooms EventTier.holds at hboth
    simp only [Bool.and_eq_true] at hboth
    exact ⟨hboth.1.2, hboth.2.2⟩

theorem dropTiers_fst (now : ℚ) (tiers : List EventTier) (t : Tables α) :
    (dropTiers now tiers t).1 = dropEvents t fun e => tiers.any fun tier => tier.dooms now e := by
  induction tiers generalizing t with
  | nil =>
    have hevents : t.events.filter (fun _ _ => !false) = t.events := by
      apply JsMap.ext_entries
      simp [JsMap.filter]
    show t = { t with events := t.events.filter fun _ _ => !false }
    rw [hevents]
  | cons tier rest ih =>
    show (dropTiers now rest _).1 = _
    rw [ih]
    unfold dropEvents
    congr 1
    apply JsMap.ext_entries
    simp only [JsMap.filter, List.filter_filter, List.any_cons, Bool.not_or, Bool.and_comm]

theorem length_dropEvents (t : Tables α) (p : Event α → Bool) :
    (dropEvents t p).events.entries.length = t.events.entries.length - countEvents t p := by
  show (t.events.entries.filter fun e => !p e.2).length = _
  rw [length_filter_not]
  unfold countEvents JsMap.values
  rw [List.countP_map]
  rfl

theorem countEvents_le (t : Tables α) (p : Event α → Bool) :
    countEvents t p ≤ t.events.entries.length := by
  have hle := List.countP_le_length (p := p) (l := t.events.values)
  unfold JsMap.values at hle
  rwa [List.length_map] at hle

/-- The rows the statements took are the rows that are gone. -/
theorem dropTiers_snd (now : ℚ) (tiers : List EventTier) (t : Tables α) :
    (dropTiers now tiers t).2 + (dropTiers now tiers t).1.events.entries.length =
      t.events.entries.length := by
  induction tiers generalizing t with
  | nil => exact Nat.zero_add _
  | cons tier rest ih =>
    have hrest := ih (dropEvents t (tier.dooms now))
    have hlen := length_dropEvents t (tier.dooms now)
    show t.events.entries.length - (dropEvents t (tier.dooms now)).events.entries.length +
      (dropTiers now rest (dropEvents t (tier.dooms now))).2 +
      (dropTiers now rest (dropEvents t (tier.dooms now))).1.events.entries.length = _
    omega

theorem dropTiers_count (t : Tables α) (now : ℚ) :
    (dropTiers now eventTiers t).2 = countEvents t (expired now) := by
  have hsum := dropTiers_snd now eventTiers t
  have hle := countEvents_le t (expired now)
  rw [dropTiers_fst, length_dropEvents, funext (any_dooms now)] at hsum
  omega

/-! ## The hourly rows -/

def pastHorizon (now : ℚ) (k : SampleKey α) : Bool := decide ((k.1 : ℚ) < hourlyCutoff now)

theorem length_dropHourly (t : Tables α) (now : ℚ) :
    (dropHourly t (hourlyCutoff now)).samples_hourly.entries.length =
      t.samples_hourly.entries.length - t.samples_hourly.keys.countP (pastHorizon now) := by
  show (t.samples_hourly.entries.filter fun e => !pastHorizon now e.1).length = _
  rw [length_filter_not]
  unfold JsMap.keys
  rw [List.countP_map]
  rfl

variable [DecidableEq α]

theorem keys_set_new {κ ν : Type} [DecidableEq κ] (m : JsMap κ ν) {k : κ} (v : ν)
    (h : m.get k = none) : (m.set k v).keys = m.keys ++ [k] := by
  unfold JsMap.keys
  rw [m.entries_set_new v h, List.map_append]
  rfl

theorem keys_set_old {κ ν : Type} [DecidableEq κ] (m : JsMap κ ν) {k : κ} {v : ν} (v' : ν)
    (h : m.get k = some v) : (m.set k v').keys = m.keys :=
  m.map_set Prod.fst v' h rfl

theorem keys_upsertHour (m : JsMap (SampleKey α) Hourly) (k : SampleKey α) (row : Hourly) :
    (upsertHour m k row).keys = m.keys ++ if m.has k then [] else [k] := by
  unfold upsertHour JsMap.has
  cases h : m.get k with
  | none => exact keys_set_new m _ h
  | some old =>
    rw [keys_set_old m _ h]
    exact (List.append_nil _).symm

theorem has_iff_mem_keys {κ ν : Type} [DecidableEq κ] (m : JsMap κ ν) (k : κ) :
    m.has k = true ↔ k ∈ m.keys := m.mem_keys_iff.symm

/-- The roll-up adds the hours that are new, in the order of the groups. -/
theorem keys_foldl_upsertHour (f : SampleKey α → Hourly) {ks : List (SampleKey α)} (hks : ks.Nodup)
    (m : JsMap (SampleKey α) Hourly) :
    (ks.foldl (fun m k => upsertHour m k (f k)) m).keys = m.keys ++ ks.filter fun k => !m.has k := by
  induction ks generalizing m with
  | nil => exact (List.append_nil _).symm
  | cons k ks ih =>
    rw [List.nodup_cons] at hks
    rw [List.foldl_cons, ih hks.2, keys_upsertHour, List.append_assoc, List.filter_cons]
    have hrest : (ks.filter fun k' => !(upsertHour m k (f k)).has k') =
        ks.filter fun k' => !m.has k' := by
      apply List.filter_congr
      intro k' hk'
      have hne : k' ≠ k := fun he => hks.1 (he ▸ hk')
      congr 1
      rw [Bool.eq_iff_iff, has_iff_mem_keys, has_iff_mem_keys, keys_upsertHour]
      split_ifs <;> simp [hne]
    rw [hrest]
    cases m.has k <;> simp

theorem nodup_bucketsOf (rows : List (SampleKey α × ℚ)) : (bucketsOf rows).Nodup := List.nodup_dedup _

theorem keys_rollup (t : Tables α) (cutoff : ℚ) :
    (rollup t cutoff).samples_hourly.keys = t.samples_hourly.keys ++
      (bucketsOf (samplesBefore t cutoff)).filter fun k => !t.samples_hourly.has k :=
  keys_foldl_upsertHour _ (nodup_bucketsOf _) _

/-- The hours a pass both writes and drops: past the horizon, with samples and no row yet. -/
def shortLived (t : Tables α) (now : ℚ) : ℕ :=
  (bucketsOf (samplesBefore t (fullCutoff now))).countP fun k =>
    decide ((k.1 : ℚ) < hourlyCutoff now) && !t.samples_hourly.has k

theorem countP_keys_rollup (t : Tables α) (now : ℚ) :
    (rollup t (fullCutoff now)).samples_hourly.keys.countP (pastHorizon now) =
      (hourlyTally t now).doomed + shortLived t now := by
  rw [keys_rollup, List.countP_append, List.countP_filter]
  rfl

theorem sweep_hourlyDropped (t : Tables α) (now : ℚ) :
    (sweep t now).2.hourlyDropped = (hourlyTally t now).doomed + shortLived t now := by
  show (rollup t (fullCutoff now)).samples_hourly.entries.length -
    (dropHourly (dropFull (rollup t (fullCutoff now)) (fullCutoff now))
      (hourlyCutoff now)).samples_hourly.entries.length = _
  rw [length_dropHourly]
  have hcount := countP_keys_rollup t now
  have hle := List.countP_le_length (p := pastHorizon now)
    (l := (rollup t (fullCutoff now)).samples_hourly.keys)
  unfold JsMap.keys at hle
  rw [List.length_map] at hle
  have hkeys : (dropFull (rollup t (fullCutoff now)) (fullCutoff now)).samples_hourly =
      (rollup t (fullCutoff now)).samples_hourly := rfl
  rw [hkeys]
  unfold JsMap.keys at hcount ⊢
  omega

theorem sweep_eventsDropped (t : Tables α) (now : ℚ) :
    (sweep t now).2.eventsDropped = countEvents t (expired now) :=
  dropTiers_count _ now

theorem sweep_events (t : Tables α) (now : ℚ) :
    (sweep t now).1.events = t.events.filter fun _ e => !expired now e := by
  show (dropTiers now eventTiers _).1.events = _
  rw [dropTiers_fst, funext (any_dooms now)]
  rfl

/-! ## What a pass may do -/

/-- The hourly and event rows. -/
def rowsHeld (t : Tables α) : ℕ := t.samples_hourly.entries.length + t.events.entries.length

/-- What a pass is to do at a clock: nothing where it says so, else leave the events inside their horizons,
and never take more than half of what was there, or of a tier with that many rows. -/
structure Spares (t : Tables α) (now : ℚ) : Prop where
  skipped : (retain t now).2.skipped.isSome → (retain t now).1 = t
  kept : (retain t now).2.skipped = none → ∀ id e, (retain t now).1.events.get id = some e ↔
    t.events.get id = some e ∧ now - eventRetentionDays e.kind * DAY_MS ≤ e.ts
  half : RETENTION_GUARD_MIN_ROWS ≤ rowsHeld t →
    2 * ((retain t now).2.hourlyDropped + (retain t now).2.eventsDropped) ≤ rowsHeld t
  hourly : RETENTION_GUARD_MIN_ROWS ≤ t.samples_hourly.entries.length →
    2 * (retain t now).2.hourlyDropped ≤ t.samples_hourly.entries.length
  tiers : ∀ tier ∈ eventTiers, RETENTION_GUARD_MIN_ROWS ≤ countEvents t tier.holds →
    countEvents t tier.holds ≤ 2 * countEvents (retain t now).1 tier.holds

/-- The doomed of a table and the hours that will be doomed at birth leave half of it. -/
def RoomForNew (t : Tables α) (now : ℚ) : Prop :=
  (RETENTION_GUARD_MIN_ROWS ≤ rowsHeld t →
    2 * ((wholeTally t now).doomed + shortLived t now) ≤ rowsHeld t) ∧
  (RETENTION_GUARD_MIN_ROWS ≤ t.samples_hourly.entries.length →
    2 * ((hourlyTally t now).doomed + shortLived t now) ≤ t.samples_hourly.entries.length)

theorem retain_of_refused {t : Tables α} {now : ℚ} {why : Skip} (h : guards t now = some why) :
    retain t now = (t, ⟨0, 0, 0, 0, some why⟩) := by
  unfold retain
  rw [h]

theorem retain_of_let {t : Tables α} {now : ℚ} (h : guards t now = none) :
    retain t now = sweep t now := by
  unfold retain
  rw [h]

omit [DecidableEq α] in
omit [DecidableEq α] in
theorem wholeTally_doomed (t : Tables α) (now : ℚ) :
    (wholeTally t now).doomed = (hourlyTally t now).doomed + countEvents t (expired now) := by
  unfold wholeTally tallies
  simp only [List.map_cons, List.map_map, List.sum_cons]
  exact congrArg _ (sum_doomed t now)

theorem Tally.not_overrun {y : Tally} (h : y.overrun = false) (hmin : RETENTION_GUARD_MIN_ROWS ≤ y.held) :
    2 * y.doomed ≤ y.held := by
  unfold Tally.overrun at h
  rw [decide_eq_true hmin, Bool.true_and, decide_eq_false_iff_not, not_lt] at h
  have hq : (2 * y.doomed : ℚ) ≤ y.held := by
    unfold RETENTION_MAX_DROP_FRACTION at h
    linarith
  exact_mod_cast hq

omit [DecidableEq α] in
theorem tally_of_let {t : Tables α} {now : ℚ} (h : guards t now = none) :
    (wholeTally t now).overrun = false ∧ ∀ y ∈ tallies t now, y.overrun = false := by
  unfold guards at h
  split_ifs at h with hclock hover
  rw [Bool.not_eq_true, Bool.or_eq_false_iff, List.any_eq_false] at hover
  exact ⟨hover.1, fun y hy => Bool.not_eq_true _ ▸ hover.2 y hy⟩

theorem get_sweep_events (t : Tables α) (now : ℚ) (id : ℕ) (e : Event α) :
    (sweep t now).1.events.get id = some e ↔
      t.events.get id = some e ∧ now - eventRetentionDays e.kind * DAY_MS ≤ e.ts := by
  rw [sweep_events, JsMap.get_filter, Option.filter_eq_some_iff]
  unfold expired
  simp

/-- What an event tier keeps and what it loses. -/
theorem countEvents_sweep (t : Tables α) (now : ℚ) {tier : EventTier} (h : tier ∈ eventTiers) :
    countEvents (sweep t now).1 tier.holds + (tier.tally t now).doomed = countEvents t tier.holds := by
  have hdoomed : (tier.tally t now).doomed =
      t.events.values.countP fun e => tier.holds e && expired now e := by
    show t.events.values.countP (tier.dooms now) = _
    apply List.countP_congr
    intro e _
    unfold EventTier.dooms EventTier.holds expired
    by_cases hp : tier.pred e.kind = true
    · rw [days_of_pred h hp, Bool.and_comm]
    · simp [hp]
  have hkept : countEvents (sweep t now).1 tier.holds =
      t.events.values.countP fun e => tier.holds e && !expired now e := by
    unfold countEvents JsMap.values
    rw [sweep_events, List.countP_map, List.countP_map]
    show (t.events.entries.filter fun e => !expired now e.2).countP _ = _
    rw [List.countP_filter]
    rfl
  rw [hdoomed, hkept, Nat.add_comm, ← countP_or_apart]
  · unfold countEvents
    apply List.countP_congr
    intro e _
    cases tier.holds e <;> cases expired now e <;> decide
  · intro e
    cases tier.holds e <;> cases expired now e <;> decide

/-- A pass keeps to its bounds when its guards refuse it, or when the hours it drops as it writes them
would have fitted the guards' bounds as well; and only then. -/
theorem pass_spares_iff (t : Tables α) (now : ℚ) :
    Spares t now ↔ (guards t now).isSome ∨ RoomForNew t now := by
  cases h : guards t now with
  | some why =>
    have hr := retain_of_refused h
    refine ⟨fun _ => Or.inl rfl, fun _ => ⟨fun _ => ?_, fun hs => ?_, fun _ => ?_, fun _ => ?_,
      fun tier _ _ => ?_⟩⟩
    · rw [hr]
    · rw [hr] at hs
      cases hs
    · rw [hr]
      exact Nat.zero_le _
    · rw [hr]
      exact Nat.zero_le _
    · rw [hr]
      exact Nat.le_mul_of_pos_left _ Nat.two_pos
  | none =>
    have hr := retain_of_let h
    have hdropped : (retain t now).2.hourlyDropped + (retain t now).2.eventsDropped =
        (wholeTally t now).doomed + shortLived t now := by
      rw [hr, sweep_hourlyDropped, sweep_eventsDropped, wholeTally_doomed]
      omega
    have hhourly : (retain t now).2.hourlyDropped = (hourlyTally t now).doomed + shortLived t now := by
      rw [hr, sweep_hourlyDropped]
    constructor
    · intro hs
      right
      constructor
      · intro hmin
        rw [← hdropped]
        exact hs.half hmin
      · intro hmin
        rw [← hhourly]
        exact hs.hourly hmin
    · intro hroom
      rcases hroom with hroom | hroom
      · cases hroom
      · refine ⟨fun hs => ?_, fun _ id e => ?_, fun hmin => ?_, fun hmin => ?_, fun tier htier hmin => ?_⟩
        · rw [hr] at hs
          cases hs
        · rw [hr]
          exact get_sweep_events t now id e
        · rw [hdropped]
          exact hroom.1 hmin
        · rw [hhourly]
          exact hroom.2 hmin
        · have hmem : tier.tally t now ∈ tallies t now :=
            List.mem_cons_of_mem _ (List.mem_map_of_mem htier)
          have hhalf := Tally.not_overrun ((tally_of_let h).2 _ hmem) hmin
          have hsum := countEvents_sweep t now htier
          rw [hr]
          have hheld : (tier.tally t now).held = countEvents t tier.holds := rfl
          omega

end Pass

/-! ## A pass that takes more -/

def oldHours : List (SampleKey ℕ) := (List.range 501).map fun i => (0, i + 1, 1)

theorem nodup_oldHours : oldHours.Nodup := by
  refine List.nodup_range.map fun i j hij => ?_
  simpa using hij

/-- A thousand alerts of today, one sample of today, and samples of the first hour of all for 501 servers
that were never rolled up. -/
def longClosed : Tables ℕ where
  samples := ⟨((8640000000, 0, 1), 0) :: oldHours.map fun k => (k, 0), by
    rw [List.map_cons, List.map_map]
    have hid : (Prod.fst ∘ fun k : SampleKey ℕ => (k, (0 : ℚ))) = id := rfl
    rw [hid, List.map_id]
    refine List.nodup_cons.mpr ⟨?_, nodup_oldHours⟩
    simp [oldHours]⟩
  samples_hourly := .empty
  events := ⟨(List.range 1000).map fun i => (i, ⟨8640000000, "alert".toList, none, .other none⟩), by
    rw [List.map_map]
    exact List.nodup_range.map fun i j hij => hij⟩
  facts := .empty

theorem guards_longClosed : guards longClosed 8640000000 = none := by decide +kernel

theorem shortLived_longClosed : shortLived longClosed 8640000000 = 501 := by
  have hrows : ((samplesBefore longClosed (fullCutoff 8640000000)).map fun e => e.1.hour) = oldHours := by
    decide +kernel
  unfold shortLived bucketsOf
  rw [hrows, nodup_oldHours.dedup]
  decide +kernel

theorem roll_up_feeds_the_drop : ¬Spares longClosed 8640000000 := by
  intro hs
  have hhalf := hs.half (by decide +kernel)
  rw [retain_of_let guards_longClosed, sweep_hourlyDropped, shortLived_longClosed] at hhalf
  have hheld : rowsHeld longClosed = 1000 := by decide +kernel
  omega

end OpsMaxx.History
