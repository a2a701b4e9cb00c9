import OpsMaxx.Rules.Rule
import Mathlib.Data.Prod.Lex
import Mathlib.Data.List.Sort

/-!
# Reading the alert log

The log is read newest first, a page at a time, as far back as a bound. What a whole read finds is
the newest part of the log down to the bound, or down to where the cap was reached.
-/

set_option autoImplicit false

namespace OpsMaxx.Rules

open OpsMaxx

/-! ## The log -/

/-- A place in the log: a time, and a row id that breaks ties. -/
structure EventCursor where
  ts : Int
  id : Int
  deriving DecidableEq

def EventCursor.toPair (c : EventCursor) : Int ×ₗ Int := toLex (c.ts, c.id)

theorem EventCursor.toPair_injective : Function.Injective EventCursor.toPair := by
  intro a b h
  cases a
  cases b
  simpa [EventCursor.toPair] using h

instance : LinearOrder EventCursor := LinearOrder.lift' EventCursor.toPair EventCursor.toPair_injective

theorem EventCursor.lt_iff {a b : EventCursor} :
    a < b ↔ a.ts < b.ts ∨ (a.ts = b.ts ∧ a.id < b.id) :=
  Prod.Lex.toLex_lt_toLex

/-- A row of the log: what its payload sanitises to, if it survives that. -/
structure LogEvent where
  cursor : EventCursor
  payload : Option StoredAlertRow
  deriving DecidableEq

/-- The alert rows of the store. No two have the same row id. -/
structure AlertLog where
  events : List LogEvent
  distinct : (events.map fun e => e.cursor.id).Nodup

namespace AlertLog

def empty : AlertLog := ⟨[], by simp⟩

def append (log : AlertLog) (e : LogEvent) : Option AlertLog :=
  if h : e.cursor.id ∉ log.events.map (fun e => e.cursor.id) then
    some ⟨log.events ++ [e], by
      rw [List.map_append, List.nodup_append]
      refine ⟨log.distinct, by simp, ?_⟩
      intro i hi j hj hij
      simp only [List.map_cons, List.map_nil, List.mem_singleton] at hj
      exact h (hj ▸ hij ▸ hi)⟩
  else none

/-- Whether a row is older than the cursor of the page before. -/
def beyond (cursor : Option EventCursor) (e : LogEvent) : Bool :=
  match cursor with
  | none => true
  | some c => e.cursor.ts ≤ c.ts ∧ (e.cursor.ts < c.ts ∨ e.cursor.id < c.id)

/-- A page, newest first. -/
def readEvents (log : AlertLog) (since : Int) (limit : Nat) (cursor : Option EventCursor) :
    List LogEvent :=
  ((log.events.filter fun e => since ≤ e.cursor.ts ∧ beyond cursor e).mergeSort
    fun a b => b.cursor ≤ a.cursor).take limit

end AlertLog

/-! ## The loop of a sweep -/

def RULE_STALE_EVENT_MS : Int := 3600000
def RULE_SWEEP_MAX_EVENTS : Nat := 2000
def RULE_SWEEP_PAGE : Nat := 200

structure FreshRow where
  row : StoredAlertRow
  cursor : EventCursor
  deriving DecidableEq

/-- A row a sweep acts on: one beyond the watermark whose payload survives. -/
def freshRow (watermark : EventCursor) (e : LogEvent) : Option FreshRow :=
  if e.cursor.ts > watermark.ts ∨ (e.cursor.ts = watermark.ts ∧ e.cursor.id > watermark.id) then
    e.payload.map fun row => ⟨{ row with time := e.cursor.ts }, e.cursor⟩
  else none

/-- The rows read, and whether that was all there was. `fuel` bounds the pages. -/
def readPages (log : AlertLog) (watermark : EventCursor) (since : Int) :
    Nat → Option EventCursor → List FreshRow → List FreshRow × Bool
  | 0, _, rows => (rows, false)
  | fuel + 1, cursor, rows =>
    if rows.length ≥ RULE_SWEEP_MAX_EVENTS then (rows, false)
    else
      let page := log.readEvents since RULE_SWEEP_PAGE cursor
      let rows := rows ++ page.filterMap (freshRow watermark)
      if page.length < RULE_SWEEP_PAGE then (rows, true)
      else readPages log watermark since fuel (page.getLast?.map LogEvent.cursor) rows

/-- All of a sweep's reading. A page that is not the last takes a row of the log at least. -/
def readNew (log : AlertLog) (watermark : EventCursor) (since : Int) : List FreshRow × Bool :=
  readPages log watermark since (log.events.length + 1) none []

/-- Read newest first, acted on oldest first. -/
def oldestFirst (rows : List FreshRow) : List FreshRow :=
  rows.mergeSort fun a b => a.cursor ≤ b.cursor

/-! ## What a page holds -/

/-- Newest first. -/
abbrev Newer (a b : LogEvent) : Prop := b.cursor < a.cursor

namespace AlertLog

theorem beyond_some (c : EventCursor) (e : LogEvent) :
    beyond (some c) e = true ↔ e.cursor < c := by
  rw [EventCursor.lt_iff]
  simp only [beyond, decide_eq_true_eq]
  omega

theorem cursor_injOn (log : AlertLog) {a b : LogEvent} (ha : a ∈ log.events) (hb : b ∈ log.events)
    (h : a.cursor = b.cursor) : a = b :=
  List.inj_on_of_nodup_map log.distinct ha hb (congrArg EventCursor.id h)

theorem cursors_nodup (log : AlertLog) : (log.events.map LogEvent.cursor).Nodup := by
  refine List.Nodup.of_map EventCursor.id ?_
  rw [List.map_map]
  exact log.distinct

/-- All of the log from a time on, newest first. -/
def newest (log : AlertLog) (since : Int) : List LogEvent :=
  (log.events.filter fun e => since ≤ e.cursor.ts).mergeSort fun a b => b.cursor ≤ a.cursor

theorem mem_newest {log : AlertLog} {since : Int} {e : LogEvent} :
    e ∈ log.newest since ↔ e ∈ log.events ∧ since ≤ e.cursor.ts := by
  simp [newest]

theorem length_newest_le (log : AlertLog) (since : Int) :
    (log.newest since).length ≤ log.events.length := by
  rw [newest, List.length_mergeSort]
  exact List.length_filter_le _ _

theorem pairwise_mergeSort_newest (l : List LogEvent) :
    (l.mergeSort fun a b => b.cursor ≤ a.cursor).Pairwise fun a b => b.cursor ≤ a.cursor := by
  refine (List.pairwise_mergeSort (fun a b c hab hbc => ?_) (fun a b => ?_) l).imp
    fun h => of_decide_eq_true h
  · simp only [decide_eq_true_eq] at hab hbc ⊢
    exact hbc.trans hab
  · simpa using le_total b.cursor a.cursor

theorem sorted_newest (log : AlertLog) (since : Int) : (log.newest since).Pairwise Newer := by
  have hnodup : ((log.newest since).map LogEvent.cursor).Nodup := by
    refine ((List.mergeSort_perm _ _).map _).nodup_iff.mpr ?_
    exact log.cursors_nodup.sublist (List.filter_sublist.map _)
  have hne := List.pairwise_map.mp hnodup
  exact (pairwise_mergeSort_newest _).and hne |>.imp fun h => lt_of_le_of_ne h.1 h.2.symm

/-- Sorting what is left after the rows at and above a cursor leaves the rest of the whole. -/
theorem readEvents_eq (log : AlertLog) (since : Int) (limit : Nat) (cursor : Option EventCursor) :
    log.readEvents since limit cursor = ((log.newest since).filter (beyond cursor)).take limit := by
  have hsplit : (log.events.filter fun e => decide (since ≤ e.cursor.ts ∧ beyond cursor e)) =
      (log.events.filter fun e => since ≤ e.cursor.ts).filter (beyond cursor) := by
    rw [List.filter_filter]
    refine List.filter_congr fun e _ => ?_
    simp [Bool.and_comm]
  have hperm := (List.mergeSort_perm (log.events.filter fun e => since ≤ e.cursor.ts)
    fun a b => b.cursor ≤ a.cursor).filter (beyond cursor)
  unfold readEvents
  rw [hsplit]
  refine congrArg (List.take limit) (List.Perm.eq_of_pairwise 
    (fun a b ha hb hab hba => ?_) (pairwise_mergeSort_newest _)
    (((log.sorted_newest since).sublist List.filter_sublist).imp fun h => h.le)
    ((List.mergeSort_perm _ _).trans hperm.symm))
  have ha' := (List.mem_filter.mp ((List.mergeSort_perm _ _).mem_iff.mp ha)).1
  have hb' := (List.mem_filter.mp hb).1
  exact log.cursor_injOn (List.mem_filter.mp ha').1 (mem_newest.mp hb').1 (le_antisymm hba hab)

end AlertLog

/-! ## What all the pages hold -/

theorem filter_beyond {A Q : List LogEvent} (h : (A ++ Q).Pairwise Newer) :
    (A ++ Q).filter (AlertLog.beyond (A.getLast?.map LogEvent.cursor)) = Q := by
  rcases List.eq_nil_or_concat A with rfl | ⟨A', e, rfl⟩
  · simp [AlertLog.beyond]
  · rw [List.concat_eq_append] at h ⊢
    have hlast : (A' ++ [e]).getLast?.map LogEvent.cursor = some e.cursor := by simp
    rw [List.pairwise_append, List.pairwise_append] at h
    obtain ⟨⟨-, -, hA⟩, -, hQ⟩ := h
    rw [hlast, List.filter_append]
    have hnone : (A' ++ [e]).filter (AlertLog.beyond (some e.cursor)) = [] := by
      refine List.filter_eq_nil_iff.mpr fun a ha => ?_
      rw [AlertLog.beyond_some]
      rcases List.mem_append.mp ha with ha | ha
      · exact lt_asymm (hA a ha e (List.mem_singleton_self e))
      · rw [List.mem_singleton.mp ha]
        exact lt_irrefl _
    have hall : Q.filter (AlertLog.beyond (some e.cursor)) = Q := by
      refine List.filter_eq_self.mpr fun q hq => ?_
      rw [AlertLog.beyond_some]
      exact hQ e (by simp) q hq
    rw [hnone, hall, List.nil_append]

/-- A read goes down the log without a gap, to its end or to the cap. -/
theorem readPages_spec (log : AlertLog) (watermark : EventCursor) (since : Int) (fuel : Nat) :
    ∀ (A Q : List LogEvent) (rows : List FreshRow), log.newest since = A ++ Q →
      Q.length < fuel →
      ∃ B C, Q = B ++ C ∧
        (readPages log watermark since fuel (A.getLast?.map LogEvent.cursor) rows).1 =
          rows ++ B.filterMap (freshRow watermark) ∧
        ((readPages log watermark since fuel (A.getLast?.map LogEvent.cursor) rows).2 = true →
          C = []) ∧
        ((readPages log watermark since fuel (A.getLast?.map LogEvent.cursor) rows).2 = false →
          RULE_SWEEP_MAX_EVENTS ≤
            (readPages log watermark since fuel (A.getLast?.map LogEvent.cursor) rows).1.length) := by
  induction fuel with
  | zero => intro A Q rows _ h; omega
  | succ fuel ih =>
    intro A Q rows hnewest hfuel
    have hpage : log.readEvents since RULE_SWEEP_PAGE (A.getLast?.map LogEvent.cursor) =
        Q.take RULE_SWEEP_PAGE := by
      have hsorted := log.sorted_newest since
      rw [hnewest] at hsorted
      rw [AlertLog.readEvents_eq, hnewest, filter_beyond hsorted]
    unfold readPages
    by_cases hcap : rows.length ≥ RULE_SWEEP_MAX_EVENTS
    · rw [if_pos hcap]
      exact ⟨[], Q, rfl, by simp, by simp, fun _ => hcap⟩
    · simp only [if_neg hcap, hpage]
      by_cases hshort : (Q.take RULE_SWEEP_PAGE).length < RULE_SWEEP_PAGE
      · have hwhole : Q.take RULE_SWEEP_PAGE = Q := by
          rw [List.length_take] at hshort
          exact List.take_of_length_le (by omega)
        rw [if_pos hshort, hwhole]
        exact ⟨Q, [], by simp, rfl, fun _ => rfl, by simp⟩
      · rw [if_neg hshort]
        have hdrop : (Q.drop RULE_SWEEP_PAGE).length < fuel := by
          rw [List.length_take] at hshort
          rw [List.length_drop]
          have : 0 < RULE_SWEEP_PAGE := by decide
          omega
        have hne : Q.take RULE_SWEEP_PAGE ≠ [] := by
          intro hnil
          rw [hnil] at hshort
          exact hshort (by decide)
        have hlast : (Q.take RULE_SWEEP_PAGE).getLast? =
            (A ++ Q.take RULE_SWEEP_PAGE).getLast? := by
          rw [List.getLast?_append_of_ne_nil _ hne]
        rw [hlast]
        obtain ⟨B, C, hQ, hrows, hend, hmax⟩ := ih (A ++ Q.take RULE_SWEEP_PAGE)
          (Q.drop RULE_SWEEP_PAGE) (rows ++ (Q.take RULE_SWEEP_PAGE).filterMap (freshRow watermark))
          (by rw [hnewest, List.append_assoc, List.take_append_drop]) hdrop
        refine ⟨Q.take RULE_SWEEP_PAGE ++ B, C, ?_, ?_, hend, hmax⟩
        · rw [List.append_assoc, ← hQ, List.take_append_drop]
        · rw [hrows, List.filterMap_append, List.append_assoc]

/-- What a sweep reads: the fresh rows of the newest part of the log, all of it unless the cap was
reached. -/
theorem readNew_spec (log : AlertLog) (watermark : EventCursor) (since : Int) :
    ∃ B C, log.newest since = B ++ C ∧
      (readNew log watermark since).1 = B.filterMap (freshRow watermark) ∧
      ((readNew log watermark since).2 = true → C = []) ∧
      ((readNew log watermark since).2 = false →
        RULE_SWEEP_MAX_EVENTS ≤ (readNew log watermark since).1.length) :=
  readPages_spec log watermark since (log.events.length + 1) [] (log.newest since) [] rfl
    (Nat.lt_succ_of_le (log.length_newest_le since))

/-! ## The rows of a sweep -/

theorem freshRow_eq_some {watermark : EventCursor} {e : LogEvent} {r : FreshRow} :
    freshRow watermark e = some r ↔
      watermark < e.cursor ∧
        ∃ row, e.payload = some row ∧ r = ⟨{ row with time := e.cursor.ts }, e.cursor⟩ := by
  have hlt : (e.cursor.ts > watermark.ts ∨
      (e.cursor.ts = watermark.ts ∧ e.cursor.id > watermark.id)) ↔ watermark < e.cursor := by
    rw [EventCursor.lt_iff]
    omega
  unfold freshRow
  split_ifs with h
  · simp [hlt.mp h, eq_comm]
  · simp [mt hlt.mpr h]

theorem mem_readNew {log : AlertLog} {watermark : EventCursor} {since : Int} {r : FreshRow}
    (h : r ∈ (readNew log watermark since).1) :
    watermark < r.cursor ∧ r.row.time = r.cursor.ts ∧ since ≤ r.cursor.ts ∧
      ∃ e ∈ log.events, e.cursor = r.cursor := by
  obtain ⟨B, C, hBC, hrows, -⟩ := readNew_spec log watermark since
  rw [hrows, List.mem_filterMap] at h
  obtain ⟨e, he, hr⟩ := h
  have hmem : e ∈ log.newest since := by
    rw [hBC]
    exact List.mem_append_left _ he
  obtain ⟨hlog, hsince⟩ := AlertLog.mem_newest.mp hmem
  obtain ⟨hfresh, row, -, rfl⟩ := freshRow_eq_some.mp hr
  exact ⟨hfresh, rfl, hsince, e, hlog, rfl⟩

/-- No row in the window is passed over in silence. -/
theorem readNew_complete {log : AlertLog} {watermark : EventCursor} {since : Int} {e : LogEvent}
    {row : StoredAlertRow} (hall : (readNew log watermark since).2 = true) (he : e ∈ log.events)
    (hsince : since ≤ e.cursor.ts) (hfresh : watermark < e.cursor) (hrow : e.payload = some row) :
    ⟨{ row with time := e.cursor.ts }, e.cursor⟩ ∈ (readNew log watermark since).1 := by
  obtain ⟨B, C, hBC, hrows, hend, -⟩ := readNew_spec log watermark since
  rw [hend hall, List.append_nil] at hBC
  rw [hrows, ← hBC, List.mem_filterMap]
  exact ⟨e, AlertLog.mem_newest.mpr ⟨he, hsince⟩, freshRow_eq_some.mpr ⟨hfresh, row, hrow, rfl⟩⟩

theorem readNew_capped {log : AlertLog} {watermark : EventCursor} {since : Int}
    (h : (readNew log watermark since).2 = false) : (readNew log watermark since).1 ≠ [] := by
  obtain ⟨-, -, -, -, -, hmax⟩ := readNew_spec log watermark since
  intro hnil
  have := hmax h
  rw [hnil] at this
  exact absurd this (by decide)

abbrev Older (a b : FreshRow) : Prop := a.cursor < b.cursor

theorem readNew_sorted (log : AlertLog) (watermark : EventCursor) (since : Int) :
    (readNew log watermark since).1.Pairwise fun a b => b.cursor < a.cursor := by
  obtain ⟨B, C, hBC, hrows, -⟩ := readNew_spec log watermark since
  have hsorted := log.sorted_newest since
  rw [hBC, List.pairwise_append] at hsorted
  rw [hrows, List.pairwise_filterMap]
  refine hsorted.1.imp fun h r hr s hs => ?_
  obtain ⟨-, -, -, rfl⟩ := freshRow_eq_some.mp hr
  obtain ⟨-, -, -, rfl⟩ := freshRow_eq_some.mp hs
  exact h

theorem mem_oldestFirst {rows : List FreshRow} {r : FreshRow} :
    r ∈ oldestFirst rows ↔ r ∈ rows :=
  List.mem_mergeSort

theorem oldestFirst_sorted (log : AlertLog) (watermark : EventCursor) (since : Int) :
    (oldestFirst (readNew log watermark since).1).Pairwise Older := by
  have hle : (oldestFirst (readNew log watermark since).1).Pairwise
      fun a b => a.cursor ≤ b.cursor := by
    refine (List.pairwise_mergeSort (fun a b c hab hbc => ?_) (fun a b => ?_) _).imp
      fun h => of_decide_eq_true h
    · simp only [decide_eq_true_eq] at hab hbc ⊢
      exact hab.trans hbc
    · simpa using le_total a.cursor b.cursor
  have hne : (oldestFirst (readNew log watermark since).1).Pairwise
      fun a b => a.cursor ≠ b.cursor := by
    refine ((List.mergeSort_perm _ _).pairwise_iff fun h => Ne.symm h).mpr ?_
    exact (readNew_sorted log watermark since).imp fun h => ne_of_gt h
  exact hle.and hne |>.imp fun h => lt_of_le_of_ne h.1 h.2

end OpsMaxx.Rules
