import OpsMaxx.Store.JsMap
import OpsMaxx.History.Memory

/-!
# Servers under other names

Nothing a statement does depends on how a row names its server, as long as different servers have
different names.
-/

set_option autoImplicit false

namespace OpsMaxx.History
open OpsMaxx.Store OpsMaxx.Strings
variable {α β : Type} (f : α ↪ β)

/-! ## Renaming -/

def sampleKey : SampleKey α ↪ SampleKey β where
  toFun k := (k.1, f k.2.1, k.2.2)
  inj' k k' h := by
    obtain ⟨ts, a, metric⟩ := k
    obtain ⟨ts', a', metric'⟩ := k'
    simp only [Prod.mk.injEq, f.injective.eq_iff] at h ⊢
    exact h

def factKey : α × Text ↪ β × Text where
  toFun k := (f k.1, k.2)
  inj' k k' h := by
    obtain ⟨a, key⟩ := k
    obtain ⟨a', key'⟩ := k'
    simp only [Prod.mk.injEq, f.injective.eq_iff] at h ⊢
    exact h

def Event.map (e : Event α) : Event β := ⟨e.ts, e.kind, e.server.map f, e.payload⟩

def Tables.map (t : Tables α) : Tables β where
  samples := t.samples.rekey (sampleKey f) id
  samples_hourly := t.samples_hourly.rekey (sampleKey f) id
  events := t.events.rekey (.refl ℕ) (Event.map f)
  facts := t.facts.rekey (factKey f) id

def Memory.map (m : Memory α) : Memory β where
  tables := m.tables.map f
  jobs := m.jobs
  flapping := m.flapping.rekey (factKey f) id

def Stmt.map : Stmt α → Stmt β
  | .sampleInsert ts server metric v => .sampleInsert ts (f server) metric v
  | .eventInsert e => .eventInsert (e.map f)
  | .factPut server key fact => .factPut (f server) key fact
  | .factDelete server key => .factDelete (f server) key
  | .eventRewrite server key value at' => .eventRewrite (f server) key value at'
  | .forget server key => .forget (f server) key
  | .eventChange server key was value at' => .eventChange (f server) key was value at'
  | .rollup cutoff => .rollup cutoff
  | .dropFull cutoff => .dropFull cutoff
  | .dropHourly cutoff => .dropHourly cutoff
  | .dropTier tier now => .dropTier tier now
  | .jobTargetsClear id => .jobTargetsClear id
  | .jobInsert id row => .jobInsert id row
  | .jobTargetInsert id serverId row => .jobTargetInsert id serverId row

theorem nextRowid_map (t : Tables α) : nextRowid (t.map f) = nextRowid t := by
  show (t.events.rekey (.refl ℕ) (Event.map f)).keys.foldl max 0 + 1 = _
  rw [JsMap.keys_rekey]
  show (t.events.keys.map id).foldl max 0 + 1 = _
  rw [List.map_id]
  rfl

/-! ## Statements -/

section Statements
variable [DecidableEq α] [DecidableEq β]

theorem sampleInsert_map (t : Tables α) (ts : ℤ) (a : α) (metric : ℕ) (v : ℚ) :
    (sampleInsert t ts a metric v).map f = sampleInsert (t.map f) ts (f a) metric v := by
  show Tables.mk ((t.samples.set _ _).rekey _ _) _ _ _ = _
  rw [JsMap.rekey_set]
  rfl

omit [DecidableEq α] [DecidableEq β] in
theorem eventInsert_map (t : Tables α) (e : Event α) :
    (eventInsert t e).map f = eventInsert (t.map f) (e.map f) := by
  show Tables.mk _ _ ((t.events.set _ _).rekey _ _) _ = Tables.mk _ _ ((t.map f).events.set _ _) _
  rw [JsMap.rekey_set, nextRowid_map]
  rfl

theorem factPut_map (t : Tables α) (a : α) (key : Text) (fact : Fact) :
    (factPut t a key fact).map f = factPut (t.map f) (f a) key fact := by
  show Tables.mk _ _ _ ((t.facts.set _ _).rekey _ _) = _
  rw [JsMap.rekey_set]
  rfl

theorem factDelete_map (t : Tables α) (a : α) (key : Text) :
    (factDelete t a key).map f = factDelete (t.map f) (f a) key := by
  show Tables.mk _ _ _ ((t.facts.delete _).rekey _ _) = _
  rw [JsMap.rekey_delete]
  rfl

omit [DecidableEq α] [DecidableEq β] in
theorem events_get_map (t : Tables α) (id : ℕ) :
    (t.map f).events.get id = (t.events.get id).map (Event.map f) :=
  JsMap.get_rekey (.refl ℕ) _ _ id

omit [DecidableEq α] [DecidableEq β] in
theorem eventRewrite_map (t : Tables α) (id : ℕ) (ts : ℚ) (payload : Payload) :
    eventRewrite (t.map f) id ts payload = (eventRewrite t id ts payload).map (Tables.map f) := by
  unfold eventRewrite
  rw [events_get_map]
  cases t.events.get id with
  | none => rfl
  | some e =>
    show some (Tables.mk _ _ ((t.events.rekey _ _).set _ _) _) =
      some (Tables.mk _ _ ((t.events.set _ _).rekey _ _) _)
    rw [JsMap.rekey_set]
    rfl

theorem flapping_get_map (m : Memory α) (a : α) (key : Text) :
    (m.map f).flapping.get (f a, key) = m.flapping.get (a, key) := by
  have hget := JsMap.get_rekey (factKey f) id m.flapping (a, key)
  rw [Option.map_id_fun, id] at hget
  exact hget

theorem rewriteEvent_map (m : Memory α) (a : α) (key value : Text) (at' : ℚ) :
    (rewriteEvent m a key value at').map f = rewriteEvent (m.map f) (f a) key value at' := by
  unfold rewriteEvent
  rw [flapping_get_map]
  cases m.flapping.get (a, key) with
  | none => rfl
  | some incident =>
    dsimp only
    rw [show (m.map f).tables = m.tables.map f from rfl, eventRewrite_map]
    cases eventRewrite m.tables incident.id at'
        (.change key incident.was value (some (incident.count + 1))) with
    | none => rfl
    | some t =>
      show Memory.mk _ _ ((m.flapping.set _ _).rekey _ _) = _
      rw [JsMap.rekey_set]
      rfl

omit [DecidableEq α] [DecidableEq β] in
theorem prune_map (flapping : JsMap (α × Text) Incident) (at' : ℚ) :
    (prune flapping at').rekey (factKey f) id = prune (flapping.rekey (factKey f) id) at' := by
  unfold prune
  rw [JsMap.entries_rekey, List.length_map]
  split_ifs
  · apply JsMap.rekey_filter
    intro _ _
    rfl
  · rfl

theorem changeEvent_map (m : Memory α) (a : α) (key was value : Text) (at' : ℚ) :
    (changeEvent m a key was value at').map f = changeEvent (m.map f) (f a) key was value at' := by
  show Memory.mk (Tables.map f (eventInsert _ _)) _ ((JsMap.set _ _ _).rekey _ _) = _
  rw [eventInsert_map, JsMap.rekey_set, prune_map, ← nextRowid_map f]
  rfl

omit [DecidableEq α] [DecidableEq β] in
theorem samplesBefore_map (t : Tables α) (cutoff : ℚ) :
    samplesBefore (t.map f) cutoff =
      (samplesBefore t cutoff).map fun e => (sampleKey f e.1, e.2) := by
  show (t.samples.entries.map _).filter _ = (t.samples.entries.filter _).map _
  rw [List.filter_map]
  rfl

theorem valuesOf_map (rows : List (SampleKey α × ℚ)) (k : SampleKey α) :
    valuesOf (rows.map fun e => (sampleKey f e.1, e.2)) (sampleKey f k) = valuesOf rows k := by
  unfold valuesOf
  rw [List.filter_map, List.map_map]
  have htest : ((fun e : SampleKey β × ℚ => decide (e.1.hour = sampleKey f k)) ∘
      fun e : SampleKey α × ℚ => (sampleKey f e.1, e.2)) = fun e => decide (e.1.hour = k) := by
    funext e
    show decide (sampleKey f e.1.hour = sampleKey f k) = _
    simp only [(sampleKey f).injective.eq_iff]
  rw [htest]
  rfl

theorem bucketsOf_map (rows : List (SampleKey α × ℚ)) :
    bucketsOf (rows.map fun e => (sampleKey f e.1, e.2)) = (bucketsOf rows).map (sampleKey f) := by
  unfold bucketsOf
  rw [← List.dedup_map_of_injective (sampleKey f).injective, List.map_map, List.map_map]
  rfl

theorem upsertHour_map (hourly : JsMap (SampleKey α) Hourly) (k : SampleKey α) (row : Hourly) :
    (upsertHour hourly k row).rekey (sampleKey f) id =
      upsertHour (hourly.rekey (sampleKey f) id) (sampleKey f k) row := by
  unfold upsertHour
  rw [JsMap.rekey_set, JsMap.get_rekey]
  cases hourly.get k <;> rfl

theorem foldl_upsertHour_map (g : SampleKey α → Hourly) (g' : SampleKey β → Hourly)
    (hg : ∀ k, g' (sampleKey f k) = g k) (ks : List (SampleKey α))
    (hourly : JsMap (SampleKey α) Hourly) :
    (ks.foldl (fun m k => upsertHour m k (g k)) hourly).rekey (sampleKey f) id =
      (ks.map (sampleKey f)).foldl (fun m k => upsertHour m k (g' k))
        (hourly.rekey (sampleKey f) id) := by
  induction ks generalizing hourly with
  | nil => rfl
  | cons k ks ih =>
    rw [List.map_cons, List.foldl_cons, List.foldl_cons, ih, upsertHour_map, hg]

theorem rollup_map (t : Tables α) (cutoff : ℚ) : (rollup t cutoff).map f = rollup (t.map f) cutoff := by
  show Tables.mk _ ((rolledInto _ _).rekey _ _) _ _ = Tables.mk _ (rolledInto _ _) _ _
  congr 1
  unfold rolledInto
  rw [samplesBefore_map, bucketsOf_map]
  apply foldl_upsertHour_map
  intro k
  rw [valuesOf_map]

omit [DecidableEq α] [DecidableEq β] in
theorem dropFull_map (t : Tables α) (cutoff : ℚ) :
    (dropFull t cutoff).map f = dropFull (t.map f) cutoff := by
  have hfilter := t.samples.rekey_filter (f := sampleKey f) (g := id)
    (fun k _ => !decide ((k.1 : ℚ) < cutoff)) (fun k _ => !decide ((k.1 : ℚ) < cutoff)) fun _ _ => rfl
  exact congrArg (fun m => Tables.mk m (t.map f).samples_hourly (t.map f).events (t.map f).facts) hfilter

omit [DecidableEq α] [DecidableEq β] in
theorem dropHourly_map (t : Tables α) (cutoff : ℚ) :
    (dropHourly t cutoff).map f = dropHourly (t.map f) cutoff := by
  have hfilter := t.samples_hourly.rekey_filter (f := sampleKey f) (g := id)
    (fun k _ => !decide ((k.1 : ℚ) < cutoff)) (fun k _ => !decide ((k.1 : ℚ) < cutoff)) fun _ _ => rfl
  exact congrArg (fun m => Tables.mk (t.map f).samples m (t.map f).events (t.map f).facts) hfilter

omit [DecidableEq α] [DecidableEq β] in
theorem dropEvents_map (t : Tables α) {doomed : Event α → Bool} {doomed' : Event β → Bool}
    (h : ∀ e, doomed' (e.map f) = doomed e) :
    (dropEvents t doomed).map f = dropEvents (t.map f) doomed' := by
  have hfilter := t.events.rekey_filter (f := .refl ℕ) (g := Event.map f) (fun _ e => !doomed e)
    (fun _ e => !doomed' e) fun _ e => congrArg _ (h e)
  exact congrArg (fun m => Tables.mk (t.map f).samples (t.map f).samples_hourly m (t.map f).facts) hfilter

omit [DecidableEq α] [DecidableEq β] in
theorem withTables_map {m : Memory α} {t : Tables α} {t' : Tables β} (h : t.map f = t') :
    ({ m with tables := t } : Memory α).map f = { m.map f with tables := t' } := by
  rw [← h]
  rfl

theorem run_map (m : Memory α) (stmt : Stmt α) :
    (stmt.run m).map f = (stmt.map f).run (m.map f) := by
  cases stmt with
  | sampleInsert ts a metric v => exact withTables_map f (sampleInsert_map f _ _ _ _ _)
  | eventInsert e => exact withTables_map f (eventInsert_map f _ _)
  | factPut a key fact => exact withTables_map f (factPut_map f _ _ _ _)
  | factDelete a key => exact withTables_map f (factDelete_map f _ _ _)
  | eventRewrite a key value at' => exact rewriteEvent_map f m a key value at'
  | forget a key =>
    exact congrArg (Memory.mk (m.map f).tables m.jobs) (JsMap.rekey_delete (factKey f) id m.flapping _)
  | eventChange a key was value at' => exact changeEvent_map f m a key was value at'
  | rollup cutoff => exact withTables_map f (rollup_map f _ _)
  | dropFull cutoff => exact withTables_map f (dropFull_map f _ _)
  | dropHourly cutoff => exact withTables_map f (dropHourly_map f _ _)
  | dropTier tier now => exact withTables_map f (dropEvents_map f _ fun _ => rfl)
  | jobTargetsClear id => rfl
  | jobInsert id row => rfl
  | jobTargetInsert id serverId row => rfl

theorem exec_map (m : Memory α) (stmts : List (Stmt α)) :
    (exec m stmts).map f = exec (m.map f) (stmts.map (Stmt.map f)) := by
  unfold exec
  induction stmts generalizing m with
  | nil => rfl
  | cons stmt stmts ih => rw [List.map_cons, List.foldl_cons, List.foldl_cons, ih, run_map]

/-! ## Calls -/

omit [DecidableEq α] [DecidableEq β] in
theorem recordSamples_map (a : α) (at' : ℚ) (values : List (Text × Option ℚ)) :
    recordSamples (f a) at' values = (recordSamples a at' values).map (Stmt.map f) := by
  unfold recordSamples
  rw [List.map_map]
  rfl

theorem liveIncident_map (m : Memory α) (a : α) (key : Text) (at' : ℚ) :
    liveIncident (m.map f) (f a) key at' = liveIncident m a key at' := by
  unfold liveIncident
  rw [flapping_get_map]

omit [DecidableEq α] [DecidableEq β] in
theorem events_has_map (t : Tables α) (id : ℕ) : (t.map f).events.has id = t.events.has id :=
  JsMap.has_rekey (.refl ℕ) _ _ id

theorem changeStatements_map (m : Memory α) (a : α) (key was value : Text) (at' : ℚ) :
    changeStatements (m.map f) (f a) key was value at' =
      (changeStatements m a key was value at').map (Stmt.map f) := by
  unfold changeStatements
  rw [liveIncident_map]
  cases liveIncident m a key at' with
  | none => rfl
  | some incident =>
    show (if (m.tables.map f).events.has incident.id then _ else _) = _
    rw [events_has_map]
    simp only
    split_ifs <;> rfl

theorem facts_get_map (t : Tables α) (a : α) (key : Text) :
    (t.map f).facts.get (f a, key) = t.facts.get (a, key) := by
  have hget := JsMap.get_rekey (factKey f) id t.facts (a, key)
  rw [Option.map_id_fun, id] at hget
  exact hget

theorem upsertFact_map (m : Memory α) (a : α) (key value : Text) (at' : ℚ) :
    upsertFact (m.map f) (f a) key value at' =
      ((upsertFact m a key value at').1, (upsertFact m a key value at').2.map (Stmt.map f)) := by
  unfold upsertFact
  rw [show (m.map f).tables = m.tables.map f from rfl, facts_get_map]
  cases m.tables.facts.get (a, key) with
  | none => rfl
  | some existing =>
    simp only [changeStatements_map]
    split_ifs <;> rfl

theorem factsOf_map (t : Tables α) (a : α) : factsOf (t.map f) (f a) = factsOf t a := by
  unfold factsOf
  show List.mergeSort ((t.facts.entries.map _).filterMap _) _ = _
  rw [List.filterMap_map]
  congr 2
  funext e
  show (if f e.1.1 = f a then some (e.1.2, e.2) else none) = _
  simp only [f.injective.eq_iff]

theorem retireFacts_map (t : Tables α) (a : α) (at' : ℚ) (pre : Text) (keep : List Text) :
    retireFacts (t.map f) (f a) at' pre keep =
      ((retireFacts t a at' pre keep).1, (retireFacts t a at' pre keep).2.map (Stmt.map f)) := by
  unfold retireFacts
  rw [factsOf_map, List.map_flatMap]
  rfl

omit [DecidableEq α] [DecidableEq β] in
theorem countEvents_map (t : Tables α) {p : Event α → Bool} {p' : Event β → Bool}
    (h : ∀ e, p' (e.map f) = p e) : countEvents (t.map f) p' = countEvents t p := by
  unfold countEvents
  show (JsMap.values (t.events.rekey _ _)).countP p' = _
  rw [JsMap.values_rekey, List.countP_map]
  congr 1
  funext e
  exact h e

omit [DecidableEq α] [DecidableEq β] in
theorem tallies_map (t : Tables α) (now : ℚ) : tallies (t.map f) now = tallies t now := by
  unfold tallies
  congr 1
  · unfold hourlyTally
    show Tally.mk ((JsMap.keys (t.samples_hourly.rekey _ _)).countP _)
      (JsMap.keys (t.samples_hourly.rekey _ _)).length = _
    rw [JsMap.keys_rekey, List.countP_map, List.length_map]
    rfl
  · congr 1
    funext tier
    unfold EventTier.tally
    rw [countEvents_map f t (p := tier.dooms now) fun _ => rfl,
      countEvents_map f t (p := tier.holds) fun _ => rfl]

omit [DecidableEq α] [DecidableEq β] in
theorem newestRow_map (t : Tables α) : newestRow (t.map f) = newestRow t := by
  unfold newestRow
  show max (newestOf ((JsMap.keys (t.samples.rekey _ _)).map _))
    (newestOf ((JsMap.keys (t.samples_hourly.rekey _ _)).map _)) = _
  rw [JsMap.keys_rekey, JsMap.keys_rekey, List.map_map, List.map_map]
  rfl

omit [DecidableEq α] [DecidableEq β] in
theorem guards_map (t : Tables α) (now : ℚ) : guards (t.map f) now = guards t now := by
  unfold guards wholeTally
  rw [newestRow_map, tallies_map]

omit [DecidableEq α] [DecidableEq β] in
theorem passStatements_map (t : Tables α) (now : ℚ) :
    passStatements (t.map f) now = (passStatements t now).map (Stmt.map f) := by
  unfold passStatements
  rw [guards_map]
  cases guards t now with
  | some why => rfl
  | none =>
    simp only [List.map_append, List.map_map]
    rfl

omit [DecidableEq α] [DecidableEq β] in
theorem createJob_map (job : NewJob) :
    (createJob job : List (Stmt β)) = (createJob job).map (Stmt.map f) := by
  unfold createJob
  rw [List.map_append, List.map_map]
  rfl

/-! ## Reads -/

theorem inSeries_map (a : α) (metric : ℕ) (lo hi : ℚ) (k : SampleKey α) :
    inSeries (f a) metric lo hi (sampleKey f k) = inSeries a metric lo hi k := by
  show (decide (f k.2.1 = f a) && _ && _ && _) = _
  simp only [f.injective.eq_iff]
  rfl

theorem readSeries_map (t : Tables α) (a : α) (metric : Text) (lo hi : ℚ) :
    readSeries (t.map f) (f a) metric lo hi = readSeries t a metric lo hi := by
  unfold readSeries
  cases metricId metric with
  | none => rfl
  | some m =>
    have hfull : (t.map f).samples.entries.filter (fun e => inSeries (f a) m lo hi e.1) =
        (t.samples.entries.filter fun e => inSeries a m lo hi e.1).map
          fun e => (sampleKey f e.1, e.2) := by
      show (t.samples.entries.map _).filter _ = _
      rw [List.filter_map]
      congr 2
      funext e
      exact inSeries_map f a m lo hi e.1
    have hhourly : (t.map f).samples_hourly.entries.filter (fun e => inSeries (f a) m lo hi e.1) =
        (t.samples_hourly.entries.filter fun e => inSeries a m lo hi e.1).map
          fun e => (sampleKey f e.1, e.2) := by
      show (t.samples_hourly.entries.map _).filter _ = _
      rw [List.filter_map]
      congr 2
      funext e
      exact inSeries_map f a m lo hi e.1
    simp only [hfull, hhourly, List.map_map]
    rfl

theorem readEvents_map (t : Tables α) (a : Option α) (w : EventFilter) :
    readEvents (t.map f) (a.map f) w = (readEvents t a w).map fun e => (e.1, e.2.map f) := by
  unfold readEvents
  rw [List.map_take]
  congr 1
  rw [List.map_mergeSort (s := laterFirst)]
  · congr 1
    show (t.events.entries.map _).filter _ = _
    rw [List.filter_map]
    congr 2
    funext e
    cases a with
    | none => rfl
    | some a =>
      show (decide (e.2.server.map f = some (f a)) && _) = (decide _ && _)
      cases e.2.server with
      | none => rfl
      | some b =>
        simp only [Option.map_some, Option.some.injEq, f.injective.eq_iff]
        rfl
  · intro _ _ _ _
    rfl

end Statements

end OpsMaxx.History
