import OpsMaxx.History.Naming

/-!
# What a rollback leaves in memory

The numbers and the incidents the connection remembers outlive a rollback. Where they still fit the
rows that are back, the store goes on as the store of servers by name does.
-/

set_option autoImplicit false

namespace OpsMaxx.History

open OpsMaxx.Store OpsMaxx.Strings OpsMaxx.Machine

/-! ## Statements of a call -/

section Calls
variable {α : Type} [DecidableEq α]

theorem owner_changeStatements {m : Memory α} {a : α} {key was value : Text} {at' : ℚ} {stmt : Stmt α}
    (h : stmt ∈ changeStatements m a key was value at') {fact : α × Text}
    (howner : stmt.owner = some fact) : fact.1 = a := by
  have hlast : ∀ stmt : Stmt α, stmt = .eventChange a key was value at' → stmt.owner = some fact →
      fact.1 = a := by
    intro stmt heq howner
    subst heq
    exact congrArg Prod.fst (Option.some.inj howner).symm
  unfold changeStatements at h
  cases hlive : liveIncident m a key at' with
  | none =>
    rw [hlive] at h
    exact hlast _ (List.mem_singleton.mp h) howner
  | some incident =>
    rw [hlive] at h
    simp only at h
    split_ifs at h
    · obtain rfl := List.mem_singleton.mp h
      cases howner
    · rcases List.mem_cons.mp h with rfl | h
      · cases howner
      · exact hlast _ (List.mem_singleton.mp h) howner

theorem owner_upsertFact {m : Memory α} {a : α} {key value : Text} {at' : ℚ} {stmt : Stmt α}
    (h : stmt ∈ (upsertFact m a key value at').2) {fact : α × Text}
    (howner : stmt.owner = some fact) : fact.1 = a := by
  unfold upsertFact at h
  cases hfact : m.tables.facts.get (a, key) with
  | none =>
    rw [hfact] at h
    simp only [List.mem_cons, List.not_mem_nil, or_false] at h
    rcases h with rfl | rfl <;> cases howner
  | some existing =>
    rw [hfact] at h
    simp only at h
    split_ifs at h
    · obtain rfl := List.mem_singleton.mp h
      cases howner
    · rcases List.mem_cons.mp h with rfl | h
      · cases howner
      · exact owner_changeStatements h howner

omit [DecidableEq α] in
theorem owner_recordSamples {a : α} {at' : ℚ} {values : List (Text × Option ℚ)} {stmt : Stmt α}
    (h : stmt ∈ recordSamples a at' values) : stmt.owner = none := by
  obtain ⟨e, _, rfl⟩ := List.mem_map.mp h
  rfl

theorem owner_retireFacts {t : Tables α} {a : α} {at' : ℚ} {pre : Text} {keep : List Text}
    {stmt : Stmt α} (h : stmt ∈ (retireFacts t a at' pre keep).2) : stmt.owner = none := by
  obtain ⟨r, _, hr⟩ := List.mem_flatMap.mp h
  simp only [List.mem_cons, List.not_mem_nil, or_false] at hr
  rcases hr with rfl | rfl <;> rfl

theorem deletes_upsertFact {m : Memory α} {a : α} {key value : Text} {at' : ℚ} {stmt : Stmt α}
    (h : stmt ∈ (upsertFact m a key value at').2) : stmt.deletes = false := by
  unfold upsertFact changeStatements at h
  cases hfact : m.tables.facts.get (a, key) with
  | none =>
    rw [hfact] at h
    simp only [List.mem_cons, List.not_mem_nil, or_false] at h
    rcases h with rfl | rfl <;> rfl
  | some existing =>
    rw [hfact] at h
    simp only at h
    split_ifs at h
    · obtain rfl := List.mem_singleton.mp h
      rfl
    · rcases List.mem_cons.mp h with rfl | h
      · rfl
      · cases hlive : liveIncident m a key at' with
        | none =>
          rw [hlive] at h
          obtain rfl := List.mem_singleton.mp h
          rfl
        | some incident =>
          rw [hlive] at h
          simp only at h
          split_ifs at h
          · obtain rfl := List.mem_singleton.mp h
            rfl
          · simp only [List.mem_cons, List.not_mem_nil, or_false] at h
            rcases h with rfl | rfl <;> rfl

omit [DecidableEq α] in
theorem inserts_passStatements {t : Tables α} {now : ℚ} {stmt : Stmt α}
    (h : stmt ∈ passStatements t now) : stmt.inserts = false := by
  unfold passStatements at h
  cases hguards : guards t now with
  | some why =>
    rw [hguards] at h
    cases h
  | none =>
    rw [hguards] at h
    rcases List.mem_append.mp h with h | h
    · simp only [List.mem_cons, List.not_mem_nil, or_false] at h
      rcases h with rfl | rfl | rfl <;> rfl
    · obtain ⟨tier, _, rfl⟩ := List.mem_map.mp h
      rfl

omit [DecidableEq α] in
theorem inserts_createJob {job : NewJob} {stmt : Stmt α} (h : stmt ∈ createJob job) :
    stmt.inserts = false ∧ stmt.owner = none := by
  rcases List.mem_append.mp h with h | h
  · simp only [List.mem_cons, List.not_mem_nil, or_false] at h
    rcases h with rfl | rfl <;> exact ⟨rfl, rfl⟩
  · obtain ⟨target, _, rfl⟩ := List.mem_map.mp h
    exact ⟨rfl, rfl⟩

omit [DecidableEq α] in
theorem owner_of_not_inserts {stmt : Stmt α} (h : stmt.inserts = false) : stmt.owner = none := by
  cases stmt with
  | eventChange => cases h
  | _ => rfl

end Calls

/-! ## Steps -/

section Steps
variable {s : Store} {a : Named}

/-- A call asks the same of both stores. -/
structure Prepared (s : Store) (a : Named) (c : Call) : Prop where
  mirrors : Mirrors (s.prepare c).1 a
  memory : (s.prepare c).1.memory = s.memory
  stmts : (s.prepare c).2.map (Stmt.map (s.prepare c).1.db.servers.naming) = (a.prepare c).map (Stmt.map byName)
  owners : ∀ stmt ∈ (s.prepare c).2, ∀ fact, stmt.owner = some fact →
    ∃ host, (s.prepare c).1.hostIds.get host = some fact.1
  keeps : ∀ stmt ∈ (s.prepare c).2, stmt.deletes = false

theorem factsOf_unnamed {α : Type} [DecidableEq α] {t : Tables α} {b : α} (h : ¬t.Names b) :
    factsOf t b = [] := by
  have hnone : (t.facts.entries.filterMap fun e => if e.1.1 = b then some (e.1.2, e.2) else none) = [] := by
    rw [List.filterMap_eq_nil_iff]
    intro e he
    rw [if_neg]
    intro heq
    exact h (Or.inr (Or.inr (Or.inr ⟨e.1, List.mem_map_of_mem he, heq⟩)))
  unfold factsOf
  rw [hnone, List.mergeSort_nil]

/-- A server without a number has no rows. -/
theorem Mirrors.unnamed (h : Mirrors s a) {host : Text} (hnone : (s.lookupHost host).2 = none) :
    ¬a.memory.Names host := by
  intro hname
  obtain ⟨id, _, hget⟩ := (h.names_iff host).mp hname
  rw [(lookupHost_snd h host).mpr hget] at hnone
  cases hnone

theorem prepared (h : Mirrors s a) (c : Call) : Prepared s a c := by
  cases c with
  | recordSamples host at' values =>
    obtain ⟨hm, hmem, hid⟩ := mirrors_internHost h host
    have hname := Servers.naming_eq (hm.cached _ _ hid)
    refine ⟨hm, hmem, ?_, fun stmt hstmt fact howner => ?_, fun stmt hstmt => ?_⟩
    · have hstmts : (recordSamples (s.internHost host).2 at' values).map
          (Stmt.map (s.internHost host).1.db.servers.naming) =
          (recordSamples host at' values).map (Stmt.map byName) := by
        rw [← recordSamples_map, ← recordSamples_map, hname]
      exact hstmts
    · rw [owner_recordSamples hstmt] at howner
      cases howner
    · obtain ⟨e, _, rfl⟩ := List.mem_map.mp hstmt
      rfl
  | recordEvent kind host payload at' =>
    cases host with
    | none =>
      refine ⟨h, rfl, rfl, fun stmt hstmt fact howner => ?_, fun stmt hstmt => ?_⟩
      · obtain rfl := List.mem_singleton.mp hstmt
        cases howner
      · obtain rfl := List.mem_singleton.mp hstmt
        rfl
    | some host =>
      obtain ⟨hm, hmem, hid⟩ := mirrors_internHost h host
      have hname := Servers.naming_eq (hm.cached _ _ hid)
      refine ⟨hm, hmem, ?_, fun stmt hstmt fact howner => ?_, fun stmt hstmt => ?_⟩
      · exact congrArg (fun b => [Stmt.eventInsert ⟨at', kind, some b, .other payload⟩]) hname
      · obtain rfl := List.mem_singleton.mp hstmt
        cases howner
      · obtain rfl := List.mem_singleton.mp hstmt
        rfl
  | upsertFact host key value at' =>
    obtain ⟨hm, hmem, hid⟩ := mirrors_internHost h host
    have hname := Servers.naming_eq (hm.cached _ _ hid)
    refine ⟨hm, hmem, ?_, fun stmt hstmt fact howner => ?_, fun stmt hstmt => ?_⟩
    · have hleft := congrArg Prod.snd (upsertFact_map (s.internHost host).1.db.servers.naming
        (s.internHost host).1.memory (s.internHost host).2 key value at')
      have hright := congrArg Prod.snd (upsertFact_map byName a.memory host key value at')
      rw [hm.memory, hname] at hleft
      exact hleft.symm.trans hright
    · exact ⟨host, (owner_upsertFact hstmt howner) ▸ hid⟩
    · exact deletes_upsertFact hstmt
  | retireFacts host at' pre keep =>
    obtain ⟨hm, hmem⟩ := mirrors_lookupHost h host
    cases hid : (s.lookupHost host).2 with
    | none =>
      have hprep : s.prepare (.retireFacts host at' pre keep) = ((s.lookupHost host).1, []) := by
        rw [Store.prepare]
        rw [← Prod.mk.eta (p := s.lookupHost host), hid]
      have hempty : a.prepare (.retireFacts host at' pre keep) = [] := by
        show (retireFacts a.memory.tables host at' pre keep).2 = []
        unfold retireFacts
        rw [factsOf_unnamed fun hname => h.unnamed hid (Or.inl hname)]
        rfl
      refine ⟨?_, ?_, ?_, ?_, ?_⟩
      · rwa [hprep]
      · rwa [hprep]
      · rw [hprep, hempty]
        rfl
      · rw [hprep]
        intro stmt hstmt
        cases hstmt
      · rw [hprep]
        intro stmt hstmt
        cases hstmt
    | some id =>
      have hget := (lookupHost_snd h host).mp hid
      have hprep : s.prepare (.retireFacts host at' pre keep) =
          ((s.lookupHost host).1, (retireFacts (s.lookupHost host).1.db.tables id at' pre keep).2) := by
        rw [Store.prepare]
        rw [← Prod.mk.eta (p := s.lookupHost host), hid]
      have hservers : (s.lookupHost host).1.db.servers.rows.get id = some host := by
        have hkeep : (s.lookupHost host).1.db = s.db := by
          unfold Store.lookupHost
          split
          · rfl
          · split <;> rfl
        rwa [hkeep]
      refine ⟨?_, ?_, ?_, ?_, ?_⟩
      · rwa [hprep]
      · rwa [hprep]
      · rw [hprep]
        have hleft := congrArg Prod.snd (retireFacts_map (s.lookupHost host).1.db.servers.naming
          (s.lookupHost host).1.db.tables id at' pre keep)
        have hright := congrArg Prod.snd (retireFacts_map byName a.memory.tables host at' pre keep)
        have htables := congrArg Memory.tables hm.memory
        change (s.lookupHost host).1.db.tables.map _ = a.memory.tables.map byName at htables
        rw [htables, Servers.naming_eq hservers] at hleft
        exact hleft.symm.trans hright
      · rw [hprep]
        intro stmt hstmt fact howner
        rw [owner_retireFacts hstmt] at howner
        cases howner
      · rw [hprep]
        intro stmt hstmt
        obtain ⟨r, _, hr⟩ := List.mem_flatMap.mp hstmt
        simp only [List.mem_cons, List.not_mem_nil, or_false] at hr
        rcases hr with rfl | rfl <;> rfl

/-- Statements run on both sides. -/
theorem mirrors_exec (h : Mirrors s a) {stmts : List (Stmt ℕ)} {stmts' : List (Stmt Text)}
    (heq : stmts.map (Stmt.map s.db.servers.naming) = stmts'.map (Stmt.map byName))
    (howners : ∀ stmt ∈ stmts, ∀ fact, stmt.owner = some fact →
      ∃ host, s.hostIds.get host = some fact.1) :
    Mirrors (s.setMemory (exec s.memory stmts)) { a with memory := exec a.memory stmts' } where
  memory := by
    show (exec s.memory stmts).map s.db.servers.naming = (exec a.memory stmts').map byName
    rw [exec_map, exec_map, h.memory, heq]
  cached := h.cached
  filed fact hfact := by
    rcases mem_flapping_exec hfact with hfact | ⟨stmt, hstmt, howner⟩
    · exact h.filed fact hfact
    · exact howners stmt hstmt fact howner
  depth := h.depth
  begun := h.begun

theorem mirrors_around (h : Mirrors s a) {stmts : List (Stmt ℕ)} {stmts' : List (Stmt Text)}
    (heq : stmts.map (Stmt.map s.db.servers.naming) = stmts'.map (Stmt.map byName))
    (howners : ∀ stmt ∈ stmts, stmt.owner = none) (upTo : ℕ) :
    Mirrors (s.around stmts upTo) (a.around stmts' upTo) := by
  have hlen : stmts.length = stmts'.length := by
    have hlen := congrArg List.length heq
    rwa [List.length_map, List.length_map] at hlen
  unfold Store.around Named.around
  rw [h.depth, hlen]
  split_ifs
  · exact h
  · apply mirrors_exec h
    · rw [List.map_take, List.map_take, heq]
    · intro stmt hstmt fact howner
      rw [howners stmt (List.mem_of_mem_take hstmt)] at howner
      cases howner

/-- A move after which nothing remembered is wrong: an event is not written under a rowid an incident of
another fact remembers, and at a rollback the numbers remembered are in the rows that come back, with the
events that incidents remember. -/
def Harmless (s : Store) : Move → Prop
  | .call c upTo => s.memory.Spared ((s.prepare c).2.take upTo)
  | .throw => s.depth = 1 → ∀ db, s.begun = some db →
      (∀ host id, s.hostIds.get host = some id → db.servers.rows.get id = some host) ∧
      Memory.Own ⟨db.tables, db.jobs, s.flapping⟩
  | _ => True

theorem mirrors_rollback (h : Mirrors s a) {db : Database} {rows : Tables Text × JobTables}
    (hrestores : Restores (some db) (some rows))
    (hids : ∀ host id, s.hostIds.get host = some id → db.servers.rows.get id = some host) :
    Mirrors { s with db := db, depth := 0, begun := none }
      { a with memory := { a.memory with tables := rows.1, jobs := rows.2 }, depth := 0, begun := none } where
  memory := by
    have hflapping : s.flapping.rekey (factKey db.servers.naming) id =
        s.flapping.rekey (factKey s.db.servers.naming) id := by
      apply flapping_congr
      intro fact hfact
      obtain ⟨host, hid⟩ := h.filed fact (s.flapping.mem_keys_iff.mp hfact)
      rw [Servers.naming_eq (hids _ _ hid), Servers.naming_eq (h.cached _ _ hid)]
    have hmem := congrArg Memory.flapping h.memory
    show Memory.mk (db.tables.map db.servers.naming) db.jobs (s.flapping.rekey _ id) = Memory.mk _ _ _
    rw [hflapping, hrestores.1, hrestores.2]
    exact congrArg (Memory.mk (rows.1.map byName) rows.2) hmem
  cached := hids
  filed := h.filed
  depth := rfl
  begun := trivial

theorem mirrors_step (h : Mirrors s a) {m : Move} (hok : Harmless s m) {s' : Store}
    (hstep : s.step m = some s') : ∃ a', a.step m = some a' ∧ Mirrors s' a' := by
  cases m with
  | call c upTo =>
    obtain rfl := Option.some.inj hstep
    have hprep := prepared h c
    refine ⟨_, rfl, mirrors_exec hprep.mirrors ?_ fun stmt hstmt => ?_⟩
    · rw [List.map_take, List.map_take]
      exact congrArg (List.take upTo) hprep.stmts
    · exact hprep.owners stmt (List.mem_of_mem_take hstmt)
  | retain now upTo =>
    obtain rfl := Option.some.inj hstep
    refine ⟨_, rfl, mirrors_around h ?_ (fun stmt hstmt => ?_) upTo⟩
    · have htables := congrArg Memory.tables h.memory
      change s.db.tables.map s.db.servers.naming = a.memory.tables.map byName at htables
      rw [← passStatements_map, ← passStatements_map, htables]
    · exact owner_of_not_inserts (inserts_passStatements hstmt)
  | createJob job upTo =>
    obtain rfl := Option.some.inj hstep
    refine ⟨_, rfl, mirrors_around h ?_ (fun stmt hstmt => (inserts_createJob hstmt).2) upTo⟩
    rw [← createJob_map, ← createJob_map]
  | read host =>
    obtain rfl := Option.some.inj hstep
    exact ⟨a, rfl, (mirrors_lookupHost h host).1⟩
  | enter =>
    obtain rfl := Option.some.inj hstep
    refine ⟨_, rfl, ⟨h.memory, h.cached, h.filed, congrArg (· + 1) h.depth, ?_⟩⟩
    show Restores (if s.depth = 0 then some s.db else s.begun)
      (if a.depth = 0 then some (a.memory.tables, a.memory.jobs) else a.begun)
    rw [← h.depth]
    split_ifs
    · exact ⟨congrArg Memory.tables h.memory, congrArg Memory.jobs h.memory⟩
    · exact h.begun
  | leave =>
    simp only [Store.step] at hstep
    simp only [Named.step, ← h.depth]
    by_cases hdepth : s.depth = 0
    · rw [if_pos hdepth] at hstep
      cases hstep
    rw [if_neg hdepth] at hstep ⊢
    obtain rfl := Option.some.inj hstep
    refine ⟨_, rfl, ⟨h.memory, h.cached, h.filed, rfl, ?_⟩⟩
    show Restores (if s.depth = 1 then none else s.begun) (if s.depth = 1 then none else a.begun)
    split_ifs
    · trivial
    · exact h.begun
  | throw =>
    have hbegun := h.begun
    simp only [Store.step] at hstep
    simp only [Named.step, ← h.depth]
    cases hdepth : s.depth with
    | zero =>
      rw [hdepth] at hstep
      cases hstep
    | succ depth =>
      rw [hdepth] at hstep
      cases depth with
      | zero =>
        cases hs : s.begun with
        | none =>
          rw [hs] at hstep
          cases hstep
        | some db =>
          rw [hs] at hstep hbegun
          cases ha : a.begun with
          | none =>
            rw [ha] at hbegun
            exact hbegun.elim
          | some rows =>
            rw [ha] at hbegun
            obtain rfl := Option.some.inj hstep
            exact ⟨_, rfl, mirrors_rollback h hbegun (hok hdepth db hs).1⟩
      | succ depth =>
        obtain rfl := Option.some.inj hstep
        exact ⟨_, rfl, ⟨h.memory, h.cached, h.filed, rfl, h.begun⟩⟩

theorem own_around (hown : s.memory.Own) {stmts : List (Stmt ℕ)}
    (hins : ∀ stmt ∈ stmts, stmt.inserts = false) (upTo : ℕ) : (s.around stmts upTo).memory.Own := by
  unfold Store.around
  split_ifs
  · exact hown
  · have htake : ∀ stmt ∈ stmts.take upTo, stmt.inserts = false :=
      fun stmt hstmt => hins stmt (List.mem_of_mem_take hstmt)
    refine own_exec hown (fun stmt hstmt hins' => ?_) (Or.inr htake)
    rw [htake stmt hstmt] at hins'
    cases hins'

theorem own_step (h : Mirrors s a) (hown : s.memory.Own) {m : Move} (hok : Harmless s m) {s' : Store}
    (hstep : s.step m = some s') : s'.memory.Own := by
  cases m with
  | call c upTo =>
    obtain rfl := Option.some.inj hstep
    have hprep := prepared h c
    show (exec (s.prepare c).1.memory ((s.prepare c).2.take upTo)).Own
    rw [hprep.memory]
    exact own_exec hown hok
      (Or.inl fun stmt hstmt => hprep.keeps stmt (List.mem_of_mem_take hstmt))
  | retain now upTo =>
    obtain rfl := Option.some.inj hstep
    exact own_around hown (fun stmt hstmt => inserts_passStatements hstmt) upTo
  | createJob job upTo =>
    obtain rfl := Option.some.inj hstep
    exact own_around hown (fun stmt hstmt => (inserts_createJob hstmt).1) upTo
  | read host =>
    obtain rfl := Option.some.inj hstep
    rw [(mirrors_lookupHost h host).2]
    exact hown
  | enter =>
    obtain rfl := Option.some.inj hstep
    exact hown
  | leave =>
    simp only [Store.step] at hstep
    by_cases hdepth : s.depth = 0
    · rw [if_pos hdepth] at hstep
      cases hstep
    · rw [if_neg hdepth] at hstep
      obtain rfl := Option.some.inj hstep
      exact hown
  | throw =>
    simp only [Store.step] at hstep
    cases hdepth : s.depth with
    | zero =>
      rw [hdepth] at hstep
      cases hstep
    | succ depth =>
      rw [hdepth] at hstep
      cases depth with
      | zero =>
        cases hs : s.begun with
        | none =>
          rw [hs] at hstep
          cases hstep
        | some db =>
          rw [hs] at hstep
          obtain rfl := Option.some.inj hstep
          exact (hok hdepth db hs).2
      | succ depth =>
        obtain rfl := Option.some.inj hstep
        exact hown

end Steps

end OpsMaxx.History

/-!
## Everything reads back under its own server

The reads of the store, answered by numbers, against the reads of the store of servers by name.
-/

namespace OpsMaxx.History

open OpsMaxx.Store OpsMaxx.Strings OpsMaxx.Machine

/-! ## Reads -/

section Unnamed
variable {α : Type} [DecidableEq α] {t : Tables α} {b : α}

theorem readSeries_unnamed (h : ¬t.Names b) (metric : Text) (lo hi : ℚ) :
    readSeries t b metric lo hi = [] := by
  have hfull : ∀ m, t.samples.entries.filter (fun e => inSeries b m lo hi e.1) = [] := by
    intro m
    rw [List.filter_eq_nil_iff]
    intro e he hin
    unfold inSeries at hin
    simp only [Bool.and_eq_true, decide_eq_true_iff] at hin
    exact h (Or.inl ⟨e.1, List.mem_map_of_mem he, hin.1.1.1⟩)
  have hhourly : ∀ m, t.samples_hourly.entries.filter (fun e => inSeries b m lo hi e.1) = [] := by
    intro m
    rw [List.filter_eq_nil_iff]
    intro e he hin
    unfold inSeries at hin
    simp only [Bool.and_eq_true, decide_eq_true_iff] at hin
    exact h (Or.inr (Or.inl ⟨e.1, List.mem_map_of_mem he, hin.1.1.1⟩))
  unfold readSeries
  cases metricId metric with
  | none => rfl
  | some m =>
    simp only [hfull, hhourly, mergeTiers, List.map_nil, List.mergeSort_nil, List.filter_nil,
      List.append_nil]

theorem readEvents_unnamed (h : ¬t.Names b) (w : EventFilter) : readEvents t (some b) w = [] := by
  have hnone : t.events.entries.filter (fun e => decide (e.2.server = some b) && w.takes e.1 e.2) = [] := by
    rw [List.filter_eq_nil_iff]
    intro e he hin
    rw [Bool.and_eq_true, decide_eq_true_iff] at hin
    exact h (Or.inr (Or.inr (Or.inl ⟨e.2, List.mem_map_of_mem he, hin.1⟩)))
  unfold readEvents
  simp only [hnone, List.mergeSort_nil, List.take_nil]

end Unnamed

section Reads
variable {s : Store} {a : Named}

theorem Mirrors.tables (h : Mirrors s a) :
    s.db.tables.map s.db.servers.naming = a.memory.tables.map byName := congrArg Memory.tables h.memory

theorem Mirrors.readSeries_eq (h : Mirrors s a) (host metric : Text) (lo hi : ℚ) :
    s.readSeries host metric lo hi = a.readSeries host metric lo hi := by
  unfold Store.readSeries Named.readSeries
  cases hid : (s.lookupHost host).2 with
  | none => exact (readSeries_unnamed (fun hname => h.unnamed hid (Or.inl hname)) _ _ _).symm
  | some id =>
    have hname := Servers.naming_eq ((lookupHost_snd h host).mp hid)
    have hleft := readSeries_map s.db.servers.naming s.db.tables id metric lo hi
    rw [h.tables, hname, readSeries_map] at hleft
    exact hleft.symm

theorem Mirrors.readFacts_eq (h : Mirrors s a) (host : Text) : s.readFacts host = a.readFacts host := by
  unfold Store.readFacts Named.readFacts
  cases hid : (s.lookupHost host).2 with
  | none =>
    rw [factsOf_unnamed fun hname => h.unnamed hid (Or.inl hname)]
    rfl
  | some id =>
    have hname := Servers.naming_eq ((lookupHost_snd h host).mp hid)
    have hleft := factsOf_map s.db.servers.naming s.db.tables id
    rw [h.tables, hname, factsOf_map] at hleft
    simp only [hleft]

/-- An event as it is handed out, of a server that has a name or a number. -/
def handedOut (e : ℕ × Event (ℕ ⊕ Text)) : HistoryEvent :=
  ⟨e.2.ts, e.2.kind, e.2.server.bind Sum.getRight?, e.2.payload, ⟨e.2.ts, e.1⟩⟩

theorem handedOut_naming (srv : Servers) (e : ℕ × Event ℕ) :
    handedOut (e.1, e.2.map srv.naming) =
      ⟨e.2.ts, e.2.kind, e.2.server.bind srv.rows.get, e.2.payload, ⟨e.2.ts, e.1⟩⟩ := by
  unfold handedOut Event.map
  cases e.2.server with
  | none => rfl
  | some id => simp only [Option.map_some, Option.bind_some, srv.getRight_naming]

theorem handedOut_byName (e : ℕ × Event Text) :
    handedOut (e.1, e.2.map byName) =
      ⟨e.2.ts, e.2.kind, e.2.server, e.2.payload, ⟨e.2.ts, e.1⟩⟩ := by
  unfold handedOut Event.map
  cases e.2.server <;> rfl

/-- The same events for a number as for the server under it, and for no server. -/
theorem Mirrors.found_eq (h : Mirrors s a) {id : Option ℕ} {host : Option Text}
    (hid : id.map s.db.servers.naming = host.map byName) (w : EventFilter) :
    ((readEvents s.db.tables id w).map fun e =>
      (⟨e.2.ts, e.2.kind, e.2.server.bind s.db.servers.rows.get, e.2.payload, ⟨e.2.ts, e.1⟩⟩ : HistoryEvent)) =
    a.readEvents host w := by
  have hboth : (readEvents s.db.tables id w).map (fun e => (e.1, e.2.map s.db.servers.naming)) =
      (readEvents a.memory.tables host w).map fun e => (e.1, e.2.map byName) := by
    rw [← readEvents_map, ← readEvents_map, h.tables, hid]
  have hout := congrArg (List.map handedOut) hboth
  rw [List.map_map, List.map_map] at hout
  unfold Named.readEvents
  simp only [← handedOut_naming, ← handedOut_byName]
  exact hout

theorem Mirrors.readEvents_eq (h : Mirrors s a) (host : Option Text) (w : EventFilter) :
    s.readEvents host w = a.readEvents host w := by
  unfold Store.readEvents
  cases host with
  | none => exact h.found_eq rfl w
  | some host =>
    simp only
    cases hid : (s.lookupHost host).2 with
    | none =>
      unfold Named.readEvents
      rw [readEvents_unnamed fun hname => h.unnamed hid (Or.inl hname)]
      rfl
    | some id =>
      have hname := Servers.naming_eq ((lookupHost_snd h host).mp hid)
      have hsome : (some id).map s.db.servers.naming = (some host).map byName := congrArg some hname
      exact h.found_eq hsome w

end Reads

/-! ## Runs -/

/-- No two servers have one number, all that was written under a server reads back under it, and the
event of an incident is a change of the incident's own fact. -/
structure Faithful (s : Store) (a : Named) : Prop where
  apart : ∀ host host' id, (s.lookupHost host).2 = some id → (s.lookupHost host').2 = some id → host = host'
  series : ∀ host metric lo hi, s.readSeries host metric lo hi = a.readSeries host metric lo hi
  events : ∀ host w, s.readEvents host w = a.readEvents host w
  facts : ∀ host, s.readFacts host = a.readFacts host
  own : s.memory.Own

theorem mirrors_run {ms : List Move} {s : Store} (hrun : Run Store.step Harmless .opened ms s) :
    ∃ a, Run Named.step (fun _ _ => True) .opened ms a ∧ Mirrors s a ∧ s.memory.Own := by
  induction hrun with
  | refl =>
    refine ⟨.opened, .refl _, mirrors_opened, ?_⟩
    intro fact incident e h
    cases h
  | next _ hok hstep ih =>
    obtain ⟨a, hrun, h, hown⟩ := ih
    obtain ⟨a', hstep', h'⟩ := mirrors_step h hok hstep
    exact ⟨a', hrun.next trivial hstep', h', own_step h hown hok hstep⟩

def webOne : Text := "web-1".toList

def webTwo : Text := "web-2".toList

def sampleOf (host : Text) : Move := .call (.recordSamples host 0 [("cpu".toList, some 1)]) 1

end OpsMaxx.History
