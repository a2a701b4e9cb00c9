import OpsMaxx.History.Retention

/-!
# What one connection works on

The tables, the job rows and the incidents of flapping facts the connection remembers, with the prepared
statements that change them, the statements of each call, and the reads. A row names its server by an
`α`, as in the tables.
-/

set_option autoImplicit false

namespace OpsMaxx.History
open OpsMaxx.Store OpsMaxx.Strings

/-! ## State -/

structure Incident where
  id : ℕ
  since : ℚ
  was : Text
  count : ℕ
  deriving DecidableEq

structure JobRow where
  createdAt : ℚ
  workspaceId : Option Text
  title : Text
  kind : Text
  spec : Text
  risk : Text
  confirmation : Text
  confirmedAt : Option ℚ
  approval : Option Text
  state : Text
  deriving DecidableEq

structure TargetRow where
  serverName : Text
  ord : ℕ
  state : Text
  deriving DecidableEq

structure NewJob where
  id : Text
  row : JobRow
  targets : List (Text × TargetRow)

structure JobTables where
  job : JsMap Text JobRow
  job_target : JsMap (Text × Text) TargetRow
  deriving DecidableEq

/-- An incident is filed under its server and key. In the source the two are one text, joined by a U+0000
that the digits of a server's number do not hold. -/
structure Memory (α : Type) where
  tables : Tables α
  jobs : JobTables
  flapping : JsMap (α × Text) Incident
  deriving DecidableEq

def Memory.empty (α : Type) : Memory α := ⟨.empty α, ⟨.empty, .empty⟩, .empty⟩

def FLAP_WINDOW_MS : ℚ := 3600000

def factAdded : Text := "fact-added".toList

def factChanged : Text := "fact-changed".toList

def factRemoved : Text := "fact-removed".toList

/-! ## Statements -/

/-- A prepared statement with its values, and what the connection notes as it returns. -/
inductive Stmt (α : Type) where
  | sampleInsert (ts : ℤ) (server : α) (metric : ℕ) (v : ℚ)
  | eventInsert (e : Event α)
  | factPut (server : α) (key : Text) (f : Fact)
  | factDelete (server : α) (key : Text)
  /-- The event of an incident takes another change. -/
  | eventRewrite (server : α) (key value : Text) (at' : ℚ)
  /-- The event of an incident is gone. -/
  | forget (server : α) (key : Text)
  | eventChange (server : α) (key was value : Text) (at' : ℚ)
  | rollup (cutoff : ℚ)
  | dropFull (cutoff : ℚ)
  | dropHourly (cutoff : ℚ)
  | dropTier (tier : EventTier) (now : ℚ)
  | jobTargetsClear (id : Text)
  | jobInsert (id : Text) (row : JobRow)
  | jobTargetInsert (id serverId : Text) (row : TargetRow)

section Run
variable {α : Type} [DecidableEq α]

def rewriteEvent (m : Memory α) (server : α) (key value : Text) (at' : ℚ) : Memory α :=
  match m.flapping.get (server, key) with
  | none => m
  | some incident =>
    match eventRewrite m.tables incident.id at' (.change key incident.was value (some (incident.count + 1))) with
    | none => m
    | some t => { m with
        tables := t
        flapping := m.flapping.set (server, key) { incident with count := incident.count + 1 } }

/-- More than 4096 incidents are thinned out. -/
def prune (flapping : JsMap (α × Text) Incident) (at' : ℚ) : JsMap (α × Text) Incident :=
  if 4096 < flapping.entries.length then
    flapping.filter fun _ incident => !decide (FLAP_WINDOW_MS < at' - incident.since)
  else flapping

def changeEvent (m : Memory α) (server : α) (key was value : Text) (at' : ℚ) : Memory α :=
  { m with
    tables := eventInsert m.tables ⟨at', factChanged, some server, .change key was value none⟩
    flapping := (prune m.flapping at').set (server, key) ⟨nextRowid m.tables, at', was, 1⟩ }

def Stmt.run (m : Memory α) : Stmt α → Memory α
  | .sampleInsert ts server metric v => { m with tables := History.sampleInsert m.tables ts server metric v }
  | .eventInsert e => { m with tables := History.eventInsert m.tables e }
  | .factPut server key f => { m with tables := History.factPut m.tables server key f }
  | .factDelete server key => { m with tables := History.factDelete m.tables server key }
  | .eventRewrite server key value at' => rewriteEvent m server key value at'
  | .forget server key => { m with flapping := m.flapping.delete (server, key) }
  | .eventChange server key was value at' => changeEvent m server key was value at'
  | .rollup cutoff => { m with tables := History.rollup m.tables cutoff }
  | .dropFull cutoff => { m with tables := History.dropFull m.tables cutoff }
  | .dropHourly cutoff => { m with tables := History.dropHourly m.tables cutoff }
  | .dropTier tier now => { m with tables := dropEvents m.tables (tier.dooms now) }
  | .jobTargetsClear id => { m with
      jobs := { m.jobs with job_target := m.jobs.job_target.filter fun k _ => !decide (k.1 = id) } }
  | .jobInsert id row => { m with jobs := { m.jobs with job := m.jobs.job.set id row } }
  | .jobTargetInsert id serverId row => { m with
      jobs := { m.jobs with job_target := m.jobs.job_target.set (id, serverId) row } }

/-- The statements of a call, as far as they ran before one threw. -/
def exec (m : Memory α) (stmts : List (Stmt α)) : Memory α := stmts.foldl Stmt.run m

/-! ## Calls -/

def METRICS : List Text := ["cpu", "memPct", "memUsed", "diskPct", "diskUsed", "netRx", "netTx", "uptime",
  "inodePct", "dbBytes"].map String.toList

/-- Ids are the index and one. -/
def metricId (name : Text) : Option ℕ := (METRICS.findIdx? fun m => decide (m = name)).map (· + 1)

/-- Snapped to the second. -/
def snapped (at' : ℚ) : ℤ := ⌊at' / 1000⌋ * 1000

/-- A value that is no finite number is `none`. -/
def samplesOf (values : List (Text × Option ℚ)) : List (ℕ × ℚ) :=
  values.filterMap fun e => (metricId e.1).bind fun metric => e.2.map fun v => (metric, v)

def recordSamples (server : α) (at' : ℚ) (values : List (Text × Option ℚ)) : List (Stmt α) :=
  (samplesOf values).map fun e => .sampleInsert (snapped at') server e.1 e.2

def recordEvent (kind : Text) (server : Option α) (payload : Option Text) (at' : ℚ) : List (Stmt α) :=
  [.eventInsert ⟨at', kind, server, .other payload⟩]

/-- The incident a change at this time belongs to. -/
def liveIncident (m : Memory α) (server : α) (key : Text) (at' : ℚ) : Option Incident :=
  (m.flapping.get (server, key)).filter fun incident =>
    decide (incident.since ≤ at') && decide (at' - incident.since ≤ FLAP_WINDOW_MS)

def changeStatements (m : Memory α) (server : α) (key was value : Text) (at' : ℚ) : List (Stmt α) :=
  match liveIncident m server key at' with
  | none => [.eventChange server key was value at']
  | some incident =>
    if m.tables.events.has incident.id then [.eventRewrite server key value at']
    else [.forget server key, .eventChange server key was value at']

inductive FactOutcome where
  | created
  | changed
  | unchanged
  deriving DecidableEq

def upsertFact (m : Memory α) (server : α) (key value : Text) (at' : ℚ) : FactOutcome × List (Stmt α) :=
  match m.tables.facts.get (server, key) with
  | none => (.created, [.factPut server key ⟨value, at', at'⟩,
      .eventInsert ⟨at', factAdded, some server, .fact key value⟩])
  | some existing =>
    if existing.value = value then
      (.unchanged, [.factPut server key { existing with last_seen := at' }])
    else
      (.changed, .factPut server key { existing with value := value, last_seen := at' } ::
        changeStatements m server key existing.value value at')

/-- `ORDER BY key`. -/
def factsOf (t : Tables α) (server : α) : List (Text × Fact) :=
  (t.facts.entries.filterMap fun e =>
    if e.1.1 = server then some (e.1.2, e.2) else none).mergeSort fun a b => decide (a.1 ≤ b.1)

def inRange (pre key : Text) : Bool :=
  pre.isEmpty || (decide (pre ≤ key) && decide (key < prefixUpperBound pre))

def retireFacts (t : Tables α) (server : α) (at' : ℚ) (pre : Text) (keep : List Text) :
    ℕ × List (Stmt α) :=
  let removed := (factsOf t server).filter fun r => inRange pre r.1 && !keep.contains r.1
  (removed.length, removed.flatMap fun r => [.factDelete server r.1,
    .eventInsert ⟨at', factRemoved, some server, .fact r.1 r.2.value⟩])

/-- The statements of a pass, none where it is refused. -/
def passStatements (t : Tables α) (now : ℚ) : List (Stmt α) :=
  match guards t now with
  | some _ => []
  | none => [.rollup (fullCutoff now), .dropFull (fullCutoff now), .dropHourly (hourlyCutoff now)] ++
      eventTiers.map fun tier => .dropTier tier now

def createJob (job : NewJob) : List (Stmt α) :=
  [.jobTargetsClear job.id, .jobInsert job.id job.row] ++
    job.targets.map fun target => .jobTargetInsert job.id target.1 target.2

/-! ## Reads -/

inductive Res where
  | full
  | hourly (min max : ℚ) (n : ℕ)
  deriving DecidableEq

structure SeriesPoint where
  ts : ℤ
  v : ℚ
  res : Res
  deriving DecidableEq

def inSeries (server : α) (metric : ℕ) (lo hi : ℚ) (k : SampleKey α) : Bool :=
  decide (k.2.1 = server) && decide (k.2.2 = metric) && decide (lo ≤ k.1) && decide (k.1 ≤ hi)

/-- Where a reading stands at the time of a bucket, the reading is the point. -/
def mergeTiers (full hourly : List SeriesPoint) : List SeriesPoint :=
  ((hourly.filter fun r => !(full.map SeriesPoint.ts).contains r.ts) ++ full).mergeSort
    fun a b => decide (a.ts ≤ b.ts)

def readSeries (t : Tables α) (server : α) (metric : Text) (lo hi : ℚ) : List SeriesPoint :=
  match metricId metric with
  | none => []
  | some m =>
    let byTime := fun a b : SeriesPoint => decide (a.ts ≤ b.ts)
    mergeTiers
      (((t.samples.entries.filter fun e => inSeries server m lo hi e.1).map fun e =>
        ⟨e.1.1, e.2, .full⟩).mergeSort byTime)
      (((t.samples_hourly.entries.filter fun e => inSeries server m lo hi e.1).map fun e =>
        ⟨e.1.1, e.2.v_avg, .hourly e.2.v_min e.2.v_max e.2.n⟩).mergeSort byTime)

structure EventCursor where
  ts : ℚ
  id : ℕ
  deriving DecidableEq

/-- A filter but for its server. -/
structure EventFilter where
  kind : Option Text
  from' : Option ℚ
  to' : Option ℚ
  limit : Option ℤ
  cursor : Option EventCursor

def TS_MIN : ℚ := -8640000000000000

def TS_MAX : ℚ := 8640000000000000

def EventFilter.takes (f : EventFilter) (id : ℕ) (e : Event α) : Bool :=
  (match f.kind with | none => true | some kind => decide (e.kind = kind)) &&
    decide (f.from'.getD TS_MIN ≤ e.ts) &&
    match f.cursor with
    | none => decide (e.ts ≤ f.to'.getD TS_MAX)
    | some c => decide (e.ts ≤ min (f.to'.getD TS_MAX) c.ts) && (decide (e.ts < c.ts) || decide (id < c.id))

def EventFilter.rows (f : EventFilter) : ℕ := (max 1 (min 10000 (f.limit.getD 500))).toNat

/-- Newest first. -/
def laterFirst (a b : ℕ × Event α) : Bool :=
  decide (b.2.ts < a.2.ts) || (decide (a.2.ts = b.2.ts) && decide (b.1 ≤ a.1))

def readEvents (t : Tables α) (server : Option α) (f : EventFilter) : List (ℕ × Event α) :=
  ((t.events.entries.filter fun e =>
    (match server with | none => true | some a => decide (e.2.server = some a)) &&
      f.takes e.1 e.2).mergeSort laterFirst).take f.rows

end Run

end OpsMaxx.History
