import OpsMaxx.History.Memory
import OpsMaxx.Machine.Run

/-!
# The history store

The store interns each server under a number and remembers the numbers it has seen. What a transaction
wrote is undone by a rollback, what the connection remembers is not. Beside it stands the store as one
would have it without numbers, whose rows carry the servers themselves.
-/

set_option autoImplicit false

namespace OpsMaxx.History
open OpsMaxx.Store OpsMaxx.Strings OpsMaxx.Machine

/-! ## Moves -/

/-- The calls that write under a server. -/
inductive Call where
  | recordSamples (host : Text) (at' : ℚ) (values : List (Text × Option ℚ))
  | recordEvent (kind : Text) (host : Option Text) (payload : Option Text) (at' : ℚ)
  | upsertFact (host key value : Text) (at' : ℚ)
  | retireFacts (host : Text) (at' : ℚ) (pre : Text) (keep : List Text)

/-- `upTo` is the number of statements that ran before one threw, all where that is large. -/
inductive Move where
  | call (c : Call) (upTo : ℕ)
  | retain (now : ℚ) (upTo : ℕ)
  | createJob (job : NewJob) (upTo : ℕ)
  /-- A read, for what it does to the numbers remembered. -/
  | read (host : Text)
  /-- `transaction` is called. -/
  | enter
  /-- Its callback returns. -/
  | leave
  /-- Its callback throws. -/
  | throw

/-! ## The store -/

/-- The interned servers: no server twice, and no number beyond the largest ever given. -/
structure Servers where
  rows : JsMap ℕ Text
  seq : ℕ
  unique : rows.values.Nodup
  given : ∀ id ∈ rows.keys, 0 < id ∧ id ≤ seq
  deriving DecidableEq

def Servers.empty : Servers := ⟨.empty, 0, List.nodup_nil, by simp [JsMap.keys, JsMap.empty]⟩

def Servers.hostId (srv : Servers) (host : Text) : Option ℕ :=
  (srv.rows.entries.find? fun e => decide (e.2 = host)).map Prod.fst

theorem Servers.fresh (srv : Servers) : srv.rows.get (srv.seq + 1) = none := by
  rw [← Option.not_isSome_iff_eq_none, ← srv.rows.mem_keys_iff]
  intro hmem
  have hgiven := srv.given _ hmem
  omega

theorem Servers.not_mem_values {srv : Servers} {host : Text} (h : srv.hostId host = none) :
    host ∉ srv.rows.values := by
  intro hmem
  obtain ⟨e, he, rfl⟩ := List.mem_map.mp hmem
  unfold Servers.hostId at h
  rw [Option.map_eq_none_iff, List.find?_eq_none] at h
  exact h e he (decide_eq_true rfl)

theorem Servers.entries_added (srv : Servers) (host : Text) :
    (srv.rows.set (srv.seq + 1) host).entries = srv.rows.entries ++ [(srv.seq + 1, host)] :=
  srv.rows.entries_set_new host srv.fresh

/-- `AUTOINCREMENT`: one more than the largest number ever given. -/
def Servers.add (srv : Servers) (host : Text) (h : srv.hostId host = none) : Servers where
  rows := srv.rows.set (srv.seq + 1) host
  seq := srv.seq + 1
  unique := by
    unfold JsMap.values
    rw [srv.entries_added, List.map_append]
    refine List.nodup_append.mpr ⟨srv.unique, List.nodup_singleton _, fun a ha b hb => ?_⟩
    obtain rfl := List.mem_singleton.mp hb
    intro heq
    exact Servers.not_mem_values h (heq ▸ ha)
  given := by
    intro id hid
    unfold JsMap.keys at hid
    rw [srv.entries_added, List.map_append, List.mem_append] at hid
    rcases hid with hid | hid
    · have hgiven := srv.given id hid
      omega
    · obtain rfl := List.mem_singleton.mp hid
      exact ⟨Nat.succ_pos _, le_refl _⟩

/-- `ON CONFLICT(host_key) DO NOTHING`. -/
def Servers.hostInsert (srv : Servers) (host : Text) : Servers :=
  match h : srv.hostId host with
  | some _ => srv
  | none => srv.add host h

/-- What a rollback restores. -/
structure Database where
  servers : Servers
  tables : Tables ℕ
  jobs : JobTables
  deriving DecidableEq

structure Store where
  db : Database
  hostIds : JsMap Text ℕ
  flapping : JsMap (ℕ × Text) Incident
  depth : ℕ
  /-- The rows as they were at `BEGIN`. -/
  begun : Option Database
  deriving DecidableEq

def Store.opened : Store where
  db := ⟨.empty, .empty ℕ, ⟨.empty, .empty⟩⟩
  hostIds := .empty
  flapping := .empty
  depth := 0
  begun := none

def Store.internHost (s : Store) (host : Text) : Store × ℕ :=
  match s.hostIds.get host with
  | some cached => (s, cached)
  | none =>
    let servers := s.db.servers.hostInsert host
    let id := (servers.hostId host).getD 0
    ({ s with
      db := { s.db with servers := servers }
      hostIds := if 0 < id then s.hostIds.set host id else s.hostIds }, id)

def Store.lookupHost (s : Store) (host : Text) : Store × Option ℕ :=
  match s.hostIds.get host with
  | some cached => (s, some cached)
  | none =>
    match s.db.servers.hostId host with
    | none => (s, none)
    | some id => ({ s with hostIds := s.hostIds.set host id }, some id)

def Store.memory (s : Store) : Memory ℕ := ⟨s.db.tables, s.db.jobs, s.flapping⟩

def Store.setMemory (s : Store) (m : Memory ℕ) : Store :=
  { s with db := { s.db with tables := m.tables, jobs := m.jobs }, flapping := m.flapping }

/-- What a call does to the interned servers, and the statements it goes on to. -/
def Store.prepare (s : Store) : Call → Store × List (Stmt ℕ)
  | .recordSamples host at' values =>
    let (s', id) := s.internHost host
    (s', History.recordSamples id at' values)
  | .recordEvent kind none payload at' => (s, History.recordEvent kind none payload at')
  | .recordEvent kind (some host) payload at' =>
    let (s', id) := s.internHost host
    (s', History.recordEvent kind (some id) payload at')
  | .upsertFact host key value at' =>
    let (s', id) := s.internHost host
    (s', (History.upsertFact s'.memory id key value at').2)
  | .retireFacts host at' pre keep =>
    match s.lookupHost host with
    | (s', none) => (s', [])
    | (s', some id) => (s', (History.retireFacts s'.db.tables id at' pre keep).2)

/-- A transaction around statements: nothing stays where it was the outermost and one of them threw. -/
def Store.around (s : Store) (stmts : List (Stmt ℕ)) (upTo : ℕ) : Store :=
  if s.depth = 0 ∧ upTo < stmts.length then s
  else s.setMemory (exec s.memory (stmts.take upTo))

def Store.step (s : Store) : Move → Option Store
  | .call c upTo =>
    let (s', stmts) := s.prepare c
    some (s'.setMemory (exec s'.memory (stmts.take upTo)))
  | .retain now upTo => some (s.around (passStatements s.db.tables now) upTo)
  | .createJob job upTo => some (s.around (History.createJob job) upTo)
  | .read host => some (s.lookupHost host).1
  | .enter =>
    some { s with depth := s.depth + 1, begun := if s.depth = 0 then some s.db else s.begun }
  | .leave =>
    if s.depth = 0 then none
    else some { s with depth := s.depth - 1, begun := if s.depth = 1 then none else s.begun }
  | .throw =>
    match s.depth, s.begun with
    | 0, _ => none
    | 1, some db => some { s with db := db, depth := 0, begun := none }
    | 1, none => none
    | depth + 2, _ => some { s with depth := depth + 1 }

def Store.readSeries (s : Store) (host metric : Text) (lo hi : ℚ) : List SeriesPoint :=
  match (s.lookupHost host).2 with
  | none => []
  | some id => History.readSeries s.db.tables id metric lo hi

structure HistoryFact where
  key : Text
  fact : Fact
  deriving DecidableEq

def Store.readFacts (s : Store) (host : Text) : List HistoryFact :=
  match (s.lookupHost host).2 with
  | none => []
  | some id => (factsOf s.db.tables id).map fun r => ⟨r.1, r.2⟩

structure HistoryEvent where
  ts : ℚ
  kind : Text
  hostId : Option Text
  payload : Payload
  cursor : EventCursor
  deriving DecidableEq

/-- `LEFT JOIN servers`. -/
def Store.readEvents (s : Store) (host : Option Text) (f : EventFilter) : List HistoryEvent :=
  let found := fun server => (History.readEvents s.db.tables server f).map fun e =>
    (⟨e.2.ts, e.2.kind, e.2.server.bind s.db.servers.rows.get, e.2.payload, ⟨e.2.ts, e.1⟩⟩ : HistoryEvent)
  match host with
  | none => found none
  | some host =>
    match (s.lookupHost host).2 with
    | none => []
    | some id => found (some id)

/-! ## The store of servers by name -/

structure Named where
  memory : Memory Text
  depth : ℕ
  begun : Option (Tables Text × JobTables)
  deriving DecidableEq

def Named.opened : Named := ⟨.empty Text, 0, none⟩

def Named.prepare (s : Named) : Call → List (Stmt Text)
  | .recordSamples host at' values => History.recordSamples host at' values
  | .recordEvent kind host payload at' => History.recordEvent kind host payload at'
  | .upsertFact host key value at' => (History.upsertFact s.memory host key value at').2
  | .retireFacts host at' pre keep => (History.retireFacts s.memory.tables host at' pre keep).2

def Named.around (s : Named) (stmts : List (Stmt Text)) (upTo : ℕ) : Named :=
  if s.depth = 0 ∧ upTo < stmts.length then s
  else { s with memory := exec s.memory (stmts.take upTo) }

def Named.step (s : Named) : Move → Option Named
  | .call c upTo => some { s with memory := exec s.memory ((s.prepare c).take upTo) }
  | .retain now upTo => some (s.around (passStatements s.memory.tables now) upTo)
  | .createJob job upTo => some (s.around (History.createJob job) upTo)
  | .read _ => some s
  | .enter => some { s with
      depth := s.depth + 1
      begun := if s.depth = 0 then some (s.memory.tables, s.memory.jobs) else s.begun }
  | .leave =>
    if s.depth = 0 then none
    else some { s with depth := s.depth - 1, begun := if s.depth = 1 then none else s.begun }
  | .throw =>
    match s.depth, s.begun with
    | 0, _ => none
    | 1, some rows => some { s with
        memory := { s.memory with tables := rows.1, jobs := rows.2 }, depth := 0, begun := none }
    | 1, none => none
    | depth + 2, _ => some { s with depth := depth + 1 }

def Named.readSeries (s : Named) (host metric : Text) (lo hi : ℚ) : List SeriesPoint :=
  History.readSeries s.memory.tables host metric lo hi

def Named.readFacts (s : Named) (host : Text) : List HistoryFact :=
  (factsOf s.memory.tables host).map fun r => ⟨r.1, r.2⟩

def Named.readEvents (s : Named) (host : Option Text) (f : EventFilter) : List HistoryEvent :=
  (History.readEvents s.memory.tables host f).map fun e =>
    ⟨e.2.ts, e.2.kind, e.2.server, e.2.payload, ⟨e.2.ts, e.1⟩⟩

end OpsMaxx.History
