import Mathlib.Data.Rat.Floor
import Mathlib.Data.List.Dedup
import OpsMaxx.Store.JsMap
import OpsMaxx.Strings.Words

/-!
# The tables of the history

Each table under its primary key. A row names its server by an `α`: the number the store interned it
under, or the server itself. SQL's numbers are exact rationals here.
-/

set_option autoImplicit false

namespace OpsMaxx.History

open OpsMaxx.Store OpsMaxx.Strings

/-- `(ts, server, metric)`. -/
abbrev SampleKey (α : Type) : Type := ℤ × α × ℕ

structure Hourly where
  v_avg : ℚ
  v_min : ℚ
  v_max : ℚ
  n : ℕ
  deriving DecidableEq

/-- What the payloads of the store's own events say, and any other. -/
inductive Payload where
  | fact (key value : Text)
  | change (key was now : Text) (flaps : Option ℕ)
  | other (json : Option Text)
  deriving DecidableEq

structure Event (α : Type) where
  ts : ℚ
  kind : Text
  server : Option α
  payload : Payload
  deriving DecidableEq

structure Fact where
  value : Text
  first_seen : ℚ
  last_seen : ℚ
  deriving DecidableEq

structure Tables (α : Type) where
  samples : JsMap (SampleKey α) ℚ
  samples_hourly : JsMap (SampleKey α) Hourly
  events : JsMap ℕ (Event α)
  facts : JsMap (α × Text) Fact
  deriving DecidableEq

def Tables.empty (α : Type) : Tables α := ⟨.empty, .empty, .empty, .empty⟩

section Statements
variable {α : Type} [DecidableEq α]

/-! ## Samples -/

def sampleInsert (t : Tables α) (ts : ℤ) (server : α) (metric : ℕ) (v : ℚ) : Tables α :=
  { t with samples := t.samples.set (ts, server, metric) v }

/-- SQLite divides integers towards zero. -/
def hourOf (ts : ℤ) : ℤ := ts.tdiv 3600000 * 3600000

def SampleKey.hour (k : SampleKey α) : SampleKey α := (hourOf k.1, k.2)

/-- `min` and `max` of the values of a group, which has one. -/
def minOf : List ℚ → ℚ
  | [] => 0
  | v :: vs => vs.foldl min v

def maxOf : List ℚ → ℚ
  | [] => 0
  | v :: vs => vs.foldl max v

def aggregate (vs : List ℚ) : Hourly := ⟨vs.sum / vs.length, minOf vs, maxOf vs, vs.length⟩

/-- The update of a bucket that is there. -/
def Hourly.merge (row excluded : Hourly) : Hourly where
  v_avg := (row.v_avg * row.n + excluded.v_avg * excluded.n) / (row.n + excluded.n)
  v_min := min row.v_min excluded.v_min
  v_max := max row.v_max excluded.v_max
  n := row.n + excluded.n

/-- The samples before a time, and those of one bucket among them. -/
def samplesBefore (t : Tables α) (cutoff : ℚ) : List (SampleKey α × ℚ) :=
  t.samples.entries.filter fun e => decide ((e.1.1 : ℚ) < cutoff)

def valuesOf (rows : List (SampleKey α × ℚ)) (k : SampleKey α) : List ℚ :=
  (rows.filter fun e => decide (e.1.hour = k)).map Prod.snd

/-- `GROUP BY 1, 2, 3`. -/
def bucketsOf (rows : List (SampleKey α × ℚ)) : List (SampleKey α) :=
  (rows.map fun e => e.1.hour).dedup

def upsertHour (hourly : JsMap (SampleKey α) Hourly) (k : SampleKey α) (row : Hourly) :
    JsMap (SampleKey α) Hourly :=
  hourly.set k (match hourly.get k with
    | some old => old.merge row
    | none => row)

/-- The groups are written one after another. -/
def rolledInto (hourly : JsMap (SampleKey α) Hourly) (rows : List (SampleKey α × ℚ)) :
    JsMap (SampleKey α) Hourly :=
  (bucketsOf rows).foldl (fun m k => upsertHour m k (aggregate (valuesOf rows k))) hourly

def rollup (t : Tables α) (cutoff : ℚ) : Tables α :=
  { t with samples_hourly := rolledInto t.samples_hourly (samplesBefore t cutoff) }

def dropFull (t : Tables α) (cutoff : ℚ) : Tables α :=
  { t with samples := t.samples.filter fun k _ => !decide ((k.1 : ℚ) < cutoff) }

def dropHourly (t : Tables α) (cutoff : ℚ) : Tables α :=
  { t with samples_hourly := t.samples_hourly.filter fun k _ => !decide ((k.1 : ℚ) < cutoff) }

/-! ## Events -/

/-- One more than the largest rowid in use. -/
def nextRowid (t : Tables α) : ℕ := t.events.keys.foldl max 0 + 1

def eventInsert (t : Tables α) (e : Event α) : Tables α :=
  { t with events := t.events.set (nextRowid t) e }

/-- None where no row has that rowid. -/
def eventRewrite (t : Tables α) (rowid : ℕ) (ts : ℚ) (payload : Payload) : Option (Tables α) :=
  (t.events.get rowid).map fun e =>
    { t with events := t.events.set rowid { e with ts := ts, payload := payload } }

def dropEvents (t : Tables α) (doomed : Event α → Bool) : Tables α :=
  { t with events := t.events.filter fun _ e => !doomed e }

/-! ## Facts -/

def factPut (t : Tables α) (server : α) (key : Text) (f : Fact) : Tables α :=
  { t with facts := t.facts.set (server, key) f }

def factDelete (t : Tables α) (server : α) (key : Text) : Tables α :=
  { t with facts := t.facts.delete (server, key) }

end Statements

end OpsMaxx.History

/-!
## Retention

Horizons for each kind of event, the two guards that are asked before anything is deleted, and the
pass itself.
-/

namespace OpsMaxx.History

open OpsMaxx.Store OpsMaxx.Strings

def DAY_MS : ℚ := 86400000

def RETENTION_FULL_DAYS : ℚ := 7

def RETENTION_HOURLY_DAYS : ℚ := 90

def RETENTION_ALERT_DAYS : ℚ := 400

def RETENTION_JOB_EVENT_DAYS : ℚ := 365

def RETENTION_EVENT_DEFAULT_DAYS : ℚ := RETENTION_HOURLY_DAYS

def RETENTION_CLOCK_GRACE_MS : ℚ := 2 * 86400000

def RETENTION_GUARD_MIN_ROWS : ℕ := 1000

def RETENTION_MAX_DROP_FRACTION : ℚ := 1 / 2

/-! ## The tiers of the events -/

structure EventRetentionTier where
  days : ℚ
  kinds : List Text
  prefixes : List Text

def alertTier : EventRetentionTier where
  days := RETENTION_ALERT_DAYS
  kinds := ["alert".toList, "db-alarm".toList, "db-watch".toList]
  prefixes := []

def jobTier : EventRetentionTier where
  days := RETENTION_JOB_EVENT_DAYS
  kinds := []
  prefixes := ["job-".toList]

def EVENT_RETENTION_TIERS : List EventRetentionTier := [alertTier, jobTier]

def EventRetentionTier.has (tier : EventRetentionTier) (kind : Text) : Bool :=
  tier.kinds.contains kind || tier.prefixes.any fun p => p.isPrefixOf kind

def eventRetentionDays (kind : Text) : ℚ :=
  match EVENT_RETENTION_TIERS.find? fun tier => tier.has kind with
  | some tier => tier.days
  | none => RETENTION_EVENT_DEFAULT_DAYS

/-- The code point after `last`, where surrogates are none. -/
def nextPoint (last : Char) : Char :=
  Char.ofNat (
    if 0xd800 ≤ last.toNat + 1 ∧ last.toNat + 1 ≤ 0xdfff then 0xe000 else last.toNat + 1)

/-- The first text, in the order of code points, after all that start with a prefix. -/
def prefixUpperBound (pre : Text) : Text :=
  match pre.getLast? with
  | none => [Char.ofNat 0x10ffff]
  | some last =>
    if 0x10ffff ≤ last.toNat then pre ++ [Char.ofNat 0x10ffff]
    else pre.dropLast ++ [nextPoint last]

/-- The `WHERE` of a tier. -/
def tierPredicate (tier : EventRetentionTier) (kind : Text) : Bool :=
  tier.kinds.contains kind ||
    tier.prefixes.any fun p => decide (p ≤ kind) && decide (kind < prefixUpperBound p)

def defaultTierPredicate (kind : Text) : Bool :=
  EVENT_RETENTION_TIERS.all fun tier => !tierPredicate tier kind

structure EventTier where
  days : ℚ
  pred : Text → Bool

def eventTiers : List EventTier :=
  EVENT_RETENTION_TIERS.map (fun tier => ⟨tier.days, tierPredicate tier⟩) ++
    [⟨RETENTION_EVENT_DEFAULT_DAYS, defaultTierPredicate⟩]

section Pass
variable {α : Type} [DecidableEq α]

def EventTier.holds (tier : EventTier) (e : Event α) : Bool := tier.pred e.kind

def EventTier.dooms (tier : EventTier) (now : ℚ) (e : Event α) : Bool :=
  decide (e.ts < now - tier.days * DAY_MS) && tier.holds e

def countEvents (t : Tables α) (p : Event α → Bool) : ℕ := t.events.values.countP p

/-! ## The guards -/

/-- The largest time, and 0 where there is none. -/
def newestOf : List ℤ → ℤ
  | [] => 0
  | ts :: rest => rest.foldl max ts

def newestRow (t : Tables α) : ℤ :=
  max (newestOf (t.samples.keys.map Prod.fst)) (newestOf (t.samples_hourly.keys.map Prod.fst))

def fullCutoff (now : ℚ) : ℚ := now - RETENTION_FULL_DAYS * DAY_MS

def hourlyCutoff (now : ℚ) : ℚ := now - RETENTION_HOURLY_DAYS * DAY_MS

structure Tally where
  doomed : ℕ
  held : ℕ

def hourlyTally (t : Tables α) (now : ℚ) : Tally where
  doomed := t.samples_hourly.keys.countP fun k => decide ((k.1 : ℚ) < hourlyCutoff now)
  held := t.samples_hourly.keys.length

def EventTier.tally (tier : EventTier) (t : Tables α) (now : ℚ) : Tally where
  doomed := countEvents t (tier.dooms now)
  held := countEvents t tier.holds

def tallies (t : Tables α) (now : ℚ) : List Tally :=
  hourlyTally t now :: eventTiers.map fun tier => tier.tally t now

/-- Enough rows, and more of them doomed than one pass may take. -/
def Tally.overrun (y : Tally) : Bool :=
  decide (RETENTION_GUARD_MIN_ROWS ≤ y.held) &&
    decide (y.held * RETENTION_MAX_DROP_FRACTION < (y.doomed : ℚ))

def wholeTally (t : Tables α) (now : ℚ) : Tally where
  doomed := ((tallies t now).map Tally.doomed).sum
  held := ((tallies t now).map Tally.held).sum

inductive Skip where
  | clockAhead
  | blastRadius
  deriving DecidableEq

/-- Why a pass is refused. -/
def guards (t : Tables α) (now : ℚ) : Option Skip :=
  if 0 < newestRow t ∧ RETENTION_CLOCK_GRACE_MS < now - newestRow t then some .clockAhead
  else if (wholeTally t now).overrun || (tallies t now).any Tally.overrun then some .blastRadius
  else none

/-! ## The pass -/

structure RetentionResult where
  rolledUp : ℕ
  hourlyRows : ℕ
  hourlyDropped : ℕ
  eventsDropped : ℕ
  skipped : Option Skip
  deriving DecidableEq

/-- One `DELETE` a tier, and the rows they took. -/
def dropTiers (now : ℚ) : List EventTier → Tables α → Tables α × ℕ
  | [], t => (t, 0)
  | tier :: rest, t =>
    let dropped := dropEvents t (tier.dooms now)
    let changes := t.events.entries.length - dropped.events.entries.length
    let (t', n) := dropTiers now rest dropped
    (t', changes + n)

def sweep (t : Tables α) (now : ℚ) : Tables α × RetentionResult :=
  let before := t.samples_hourly.entries.length
  let t₁ := rollup t (fullCutoff now)
  let after := t₁.samples_hourly.entries.length
  let t₂ := dropFull t₁ (fullCutoff now)
  let t₃ := dropHourly t₂ (hourlyCutoff now)
  let (t₄, eventsDropped) := dropTiers now eventTiers t₃
  (t₄, {
    rolledUp := t₁.samples.entries.length - t₂.samples.entries.length
    hourlyRows := after - before
    hourlyDropped := t₂.samples_hourly.entries.length - t₃.samples_hourly.entries.length
    eventsDropped
    skipped := none })

def retain (t : Tables α) (now : ℚ) : Tables α × RetentionResult :=
  match guards t now with
  | some why => (t, ⟨0, 0, 0, 0, some why⟩)
  | none => sweep t now

end Pass

end OpsMaxx.History
