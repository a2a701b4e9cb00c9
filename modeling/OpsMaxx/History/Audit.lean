import OpsMaxx.History.Downsample

/-!
# The store audited

Runs of recordings and retention passes, with the ledger kept under the servers' own ids.
-/

set_option autoImplicit false

namespace OpsMaxx.History
open OpsMaxx.Store OpsMaxx.Strings OpsMaxx.Machine

inductive Feed where
  | record (host : Text) (at' : ℚ) (values : List (Text × Option ℚ))
  | pass (now : ℚ)

structure Audited where
  store : Store
  books : Books Text

def Audited.opened : Audited := ⟨.opened, ⟨[], [], []⟩⟩

/-- The samples of one call. -/
def fed (host : Text) (at' : ℚ) (values : List (Text × Option ℚ)) : List (Sample Text) :=
  (samplesOf values).map fun e => ((snapped at', host, e.1), e.2)

/-- The full tier, each row under its server. -/
def Store.fullTier (s : Store) : List (Sample Text) :=
  s.db.tables.samples.entries.filterMap fun e =>
    (s.db.servers.rows.get e.1.2.1).map fun host => ((e.1.1, host, e.1.2.2), e.2)

/-- The samples of the full tier that a pass rolls up. -/
def Store.due (s : Store) (now : ℚ) : List (Sample Text) :=
  s.fullTier.filter fun e => decide ((e.1.1 : ℚ) < fullCutoff now)

/-- The books of a pass that is not refused: what is due joins the samples behind the hourly rows, and what
is past the horizon leaves. -/
def Audited.passed (b : Audited) (now : ℚ) : Books Text where
  recorded := b.books.recorded
  young := b.books.young.filter (keeps (hourlyCutoff now))
  folded := (b.books.folded ++ b.store.due now).filter (keeps (hourlyCutoff now))

def Audited.step (b : Audited) : Feed → Option Audited
  | .record host at' values =>
    (b.store.step (.call (.recordSamples host at' values) (samplesOf values).length)).map fun store =>
      ⟨store, b.books.record (fed host at' values)⟩
  | .pass now =>
    (b.store.step (.retain now (passStatements b.store.db.tables now).length)).map fun store =>
      ⟨store, match guards b.store.db.tables now with
        | some _ => b.books
        | none => b.passed now⟩

/-- The times are not negative, and no second, host and metric is recorded twice. -/
def Distinct (b : Audited) : Feed → Prop
  | .record host at' values => 0 ≤ at' ∧
      (b.books.recorded.map Prod.fst ++ (fed host at' values).map Prod.fst).Nodup
  | .pass _ => True

/-- The hourly row of an hour, under its server. -/
def Store.hourlyRow (s : Store) (hour : ℤ) (host : Text) (metric : ℕ) : Option Hourly :=
  (s.lookupHost host).2.bind fun id => s.db.tables.samples_hourly.get (hour, id, metric)

/-- Every hourly row has a server, and sums up the samples behind it, which are of its hour; and every
sample not yet aged is in one tier, once. -/
structure Exact (b : Audited) : Prop where
  named : ∀ k row, b.store.db.tables.samples_hourly.get k = some row →
    ∃ host, (b.store.lookupHost host).2 = some k.2.1
  rows : ∀ hour host metric, match b.store.hourlyRow hour host metric with
    | some row => Summary (valuesOf b.books.folded (hour, host, metric)) row
    | none => valuesOf b.books.folded (hour, host, metric) = []
  tiers : (b.store.fullTier ++ b.books.folded).Perm b.books.young
  once : (b.books.young.map Prod.fst).Nodup

/-! ## The ledger of the named store -/

theorem exec_passStatements (m : Memory Text) (now : ℚ) (h : guards m.tables now = none) :
    (exec m (passStatements m.tables now)).tables = (sweep m.tables now).1 := by
  have hdrops : ∀ (tiers : List EventTier) (m : Memory Text),
      (exec m (tiers.map fun tier => .dropTier tier now)).tables = (dropTiers now tiers m.tables).1 := by
    intro tiers
    induction tiers with
    | nil => exact fun _ => rfl
    | cons tier rest ih => exact fun m => ih _
  unfold passStatements
  rw [h]
  show (exec m ([_, _, _] ++ eventTiers.map _)).tables = _
  unfold exec
  rw [List.foldl_append]
  exact hdrops eventTiers _

theorem exec_recordSamples (m : Memory Text) (host : Text) (at' : ℚ)
    (values : List (Text × Option ℚ)) :
    (exec m (recordSamples host at' values)).tables =
      { m.tables with samples := (fed host at' values).foldl (fun s e => s.set e.1 e.2) m.tables.samples } := by
  unfold recordSamples fed exec
  induction samplesOf values generalizing m with
  | nil => rfl
  | cons e es ih =>
    rw [List.map_cons, List.map_cons, List.foldl_cons, List.foldl_cons, ih]
    rfl

section Sides
variable {s : Store} {a : Named}

theorem Mirrors.fullTier_eq (h : Mirrors s a) : s.fullTier = a.memory.tables.samples.entries := by
  have hsamples := congrArg (fun t => t.samples.entries) h.tables
  change s.db.tables.samples.entries.map (fun e => (sampleKey s.db.servers.naming e.1, e.2)) =
    a.memory.tables.samples.entries.map fun e => (sampleKey byName e.1, e.2) at hsamples
  have hread := congrArg (List.filterMap fun e : SampleKey (ℕ ⊕ Text) × ℚ =>
    e.1.2.1.getRight?.map fun host => ((e.1.1, host, e.1.2.2), e.2)) hsamples
  rw [List.filterMap_map, List.filterMap_map] at hread
  have hright : a.memory.tables.samples.entries.filterMap
      ((fun e : SampleKey (ℕ ⊕ Text) × ℚ =>
        e.1.2.1.getRight?.map fun host => ((e.1.1, host, e.1.2.2), e.2)) ∘
        fun e => (sampleKey byName e.1, e.2)) = a.memory.tables.samples.entries :=
    List.filterMap_some
  rw [hright] at hread
  rw [← hread]
  unfold Store.fullTier
  congr 1
  funext e
  show _ = ((s.db.servers.naming e.1.2.1).getRight?).map _
  rw [Servers.getRight_naming]
  rfl

theorem Mirrors.hourlyRow_eq (h : Mirrors s a) (hour : ℤ) (host : Text) (metric : ℕ) :
    s.hourlyRow hour host metric = a.memory.tables.samples_hourly.get (hour, host, metric) := by
  have hhourly := congrArg Tables.samples_hourly h.tables
  change s.db.tables.samples_hourly.rekey (sampleKey s.db.servers.naming) id =
    a.memory.tables.samples_hourly.rekey (sampleKey byName) id at hhourly
  have hright := JsMap.get_rekey (sampleKey byName) id a.memory.tables.samples_hourly (hour, host, metric)
  rw [← hhourly, Option.map_id_fun, id] at hright
  unfold Store.hourlyRow
  cases hid : (s.lookupHost host).2 with
  | none =>
    cases hget : a.memory.tables.samples_hourly.get (hour, host, metric) with
    | none => rfl
    | some row =>
      have hmem := a.memory.tables.samples_hourly.mem_entries_iff.mpr hget
      exact absurd (Or.inl (Or.inr (Or.inl ⟨_, List.mem_map_of_mem hmem, rfl⟩))) (h.unnamed hid)
  | some id' =>
    have hname := Servers.naming_eq ((lookupHost_snd h host).mp hid)
    have hleft := JsMap.get_rekey (sampleKey s.db.servers.naming) id s.db.tables.samples_hourly
      (hour, id', metric)
    have hkey : sampleKey s.db.servers.naming (hour, id', metric) =
        sampleKey byName (hour, host, metric) := congrArg (fun b => (hour, b, metric)) hname
    rw [hkey, hright, Option.map_id_fun, id] at hleft
    exact hleft.symm

theorem Mirrors.due_eq (h : Mirrors s a) (now : ℚ) :
    s.due now = samplesBefore a.memory.tables (fullCutoff now) := by
  unfold Store.due samplesBefore
  rw [h.fullTier_eq]

theorem Mirrors.guards_eq (h : Mirrors s a) (now : ℚ) :
    guards s.db.tables now = guards a.memory.tables now := by
  rw [← guards_map s.db.servers.naming, h.tables, guards_map]

theorem Mirrors.statements_length (h : Mirrors s a) (now : ℚ) :
    (passStatements s.db.tables now).length = (passStatements a.memory.tables now).length := by
  have hstmts := congrArg List.length (passStatements_map s.db.servers.naming s.db.tables now)
  have hstmts' := congrArg List.length (passStatements_map byName a.memory.tables now)
  rw [h.tables, List.length_map] at hstmts
  rw [List.length_map] at hstmts'
  exact hstmts.symm.trans hstmts'

theorem Mirrors.exact (h : Mirrors s a) {books : Books Text} (hledger : Ledger a.memory.tables books) :
    Exact ⟨s, books⟩ where
  named k row hget := by
    have hmem := s.db.tables.samples_hourly.mem_entries_iff.mpr hget
    have hname : s.memory.Names k.2.1 :=
      Or.inl (Or.inr (Or.inl ⟨k, List.mem_map_of_mem hmem, rfl⟩))
    obtain ⟨host, hid⟩ := h.interned hname
    exact ⟨host, (lookupHost_snd h host).mpr hid⟩
  rows hour host metric := by
    simp only [h.hourlyRow_eq]
    exact hledger.backed (hour, host, metric)
  tiers := by
    simp only [h.fullTier_eq]
    exact hledger.split
  once := hledger.distinct.sublist (hledger.part.map _)

end Sides

/-! ## Runs -/

theorem ledger_opened : Ledger Named.opened.memory.tables ⟨[], [], []⟩ where
  split := List.Perm.refl _
  backed _ := rfl
  distinct := List.nodup_nil
  part := List.Sublist.refl _
  times _ h := by cases h

theorem snapped_nonneg {at' : ℚ} (h : 0 ≤ at') : 0 ≤ snapped at' := by
  unfold snapped
  have hfloor : 0 ≤ ⌊at' / 1000⌋ := Int.floor_nonneg.mpr (div_nonneg h (by norm_num))
  omega

theorem harmless_recordSamples (s : Store) (host : Text) (at' : ℚ) (values : List (Text × Option ℚ))
    (upTo : ℕ) : Harmless s (.call (.recordSamples host at' values) upTo) := by
  intro stmt hstmt hins
  obtain ⟨e, _, rfl⟩ := List.mem_map.mp (List.mem_of_mem_take hstmt)
  cases hins

theorem ledger_step {b b' : Audited} {a : Named} (h : Mirrors b.store a)
    (hledger : Ledger a.memory.tables b.books) {m : Feed} (hok : Distinct b m)
    (hstep : b.step m = some b') :
    ∃ a', Mirrors b'.store a' ∧ Ledger a'.memory.tables b'.books := by
  cases m with
  | record host at' values =>
    simp only [Audited.step, Option.map_eq_some_iff] at hstep
    obtain ⟨store, hstore, rfl⟩ := hstep
    obtain ⟨a', ha', h'⟩ := mirrors_step h (harmless_recordSamples _ _ _ _ _) hstore
    refine ⟨a', h', ?_⟩
    obtain rfl := Option.some.inj ha'
    have hall : (recordSamples host at' values : List (Stmt Text)).take (samplesOf values).length =
        recordSamples host at' values := List.take_of_length_le (by simp [recordSamples])
    show Ledger (exec a.memory ((recordSamples host at' values).take _)).tables _
    rw [hall, exec_recordSamples]
    apply ledger_record hledger
    · intro e he
      obtain ⟨v, _, rfl⟩ := List.mem_map.mp he
      exact snapped_nonneg hok.1
    · exact hok.2
  | pass now =>
    simp only [Audited.step, Option.map_eq_some_iff] at hstep
    obtain ⟨store, hstore, rfl⟩ := hstep
    obtain ⟨a', ha', h'⟩ := mirrors_step h (m := .retain now _) trivial hstore
    refine ⟨a', h', ?_⟩
    obtain rfl := Option.some.inj ha'
    rw [h.statements_length]
    unfold Named.around
    rw [if_neg fun hshort => absurd hshort.2 (lt_irrefl _), List.take_length]
    simp only [h.guards_eq]
    cases hguards : guards a.memory.tables now with
    | some why =>
      have hnone : passStatements a.memory.tables now = [] := by
        unfold passStatements
        rw [hguards]
      rw [hnone]
      exact hledger
    | none =>
      have hpassed : b.passed now = b.books.pass a.memory.tables now := by
        unfold Audited.passed Books.pass
        rw [h.due_eq]
      simp only [exec_passStatements _ _ hguards, hpassed]
      exact ledger_pass hledger now

def cpuAt (host : Text) (at' : ℚ) : Feed := .record host at' [("cpu".toList, some 1)]

end OpsMaxx.History
