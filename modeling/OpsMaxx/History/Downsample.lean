import Mathlib.Data.List.MinMax
import Mathlib.Tactic.Linarith
import Mathlib.Tactic.FieldSimp
import OpsMaxx.History.Deletions
import OpsMaxx.History.Undone

/-!
# Downsampling is exact

Beside the store runs a ledger of its samples: those recorded, those not yet aged, and those behind the
hourly rows. A sample ages with its hour, since the hourly tier is dropped by the hour.
-/

set_option autoImplicit false

namespace OpsMaxx.History
open OpsMaxx.Store OpsMaxx.Strings OpsMaxx.Machine

/-! ## Summaries -/

/-- A row tells the count, the mean and the extremes of the values behind it. -/
structure Summary (vs : List ℚ) (row : Hourly) : Prop where
  some' : vs ≠ []
  n : row.n = vs.length
  avg : row.v_avg = vs.sum / vs.length
  min_mem : row.v_min ∈ vs
  min_le : ∀ v ∈ vs, row.v_min ≤ v
  max_mem : row.v_max ∈ vs
  le_max : ∀ v ∈ vs, v ≤ row.v_max

theorem foldl_min_spec (vs : List ℚ) (v : ℚ) :
    vs.foldl min v ∈ v :: vs ∧ ∀ w ∈ v :: vs, vs.foldl min v ≤ w := by
  induction vs generalizing v with
  | nil => simp
  | cons w vs ih =>
    obtain ⟨hmem, hle⟩ := ih (min v w)
    have hmin := hle _ List.mem_cons_self
    rw [List.foldl_cons]
    constructor
    · rcases List.mem_cons.mp hmem with heq | hmem
      · rw [heq]
        rcases min_choice v w with h | h <;> simp [h]
      · exact List.mem_cons_of_mem _ (List.mem_cons_of_mem _ hmem)
    · intro u hu
      rcases List.mem_cons.mp hu with rfl | hu
      · exact le_trans hmin (min_le_left _ _)
      · rcases List.mem_cons.mp hu with rfl | hu
        · exact le_trans hmin (min_le_right _ _)
        · exact hle u (List.mem_cons_of_mem _ hu)

theorem foldl_max_spec (vs : List ℚ) (v : ℚ) :
    vs.foldl max v ∈ v :: vs ∧ ∀ w ∈ v :: vs, w ≤ vs.foldl max v := by
  induction vs generalizing v with
  | nil => simp
  | cons w vs ih =>
    obtain ⟨hmem, hle⟩ := ih (max v w)
    have hmax := hle _ List.mem_cons_self
    rw [List.foldl_cons]
    constructor
    · rcases List.mem_cons.mp hmem with heq | hmem
      · rw [heq]
        rcases max_choice v w with h | h <;> simp [h]
      · exact List.mem_cons_of_mem _ (List.mem_cons_of_mem _ hmem)
    · intro u hu
      rcases List.mem_cons.mp hu with rfl | hu
      · exact le_trans (le_max_left _ _) hmax
      · rcases List.mem_cons.mp hu with rfl | hu
        · exact le_trans (le_max_right _ _) hmax
        · exact hle u (List.mem_cons_of_mem _ hu)

theorem summary_aggregate {vs : List ℚ} (h : vs ≠ []) : Summary vs (aggregate vs) := by
  cases vs with
  | nil => exact absurd rfl h
  | cons v vs =>
    obtain ⟨hmin, hle⟩ := foldl_min_spec vs v
    obtain ⟨hmax, hge⟩ := foldl_max_spec vs v
    exact ⟨h, rfl, rfl, hmin, hle, hmax, hge⟩

/-- The weighted merge is the summary of both groups of values. -/
theorem Summary.merge {vs ws : List ℚ} {row row' : Hourly} (h : Summary vs row) (h' : Summary ws row') :
    Summary (vs ++ ws) (row.merge row') where
  some' := fun heq => h.some' (List.append_eq_nil_iff.mp heq).1
  n := by
    show row.n + row'.n = _
    rw [h.n, h'.n, List.length_append]
  avg := by
    have hpos : (0 : ℚ) < vs.length := Nat.cast_pos.mpr (List.length_pos_iff.mpr h.some')
    have hpos' : (0 : ℚ) < ws.length := Nat.cast_pos.mpr (List.length_pos_iff.mpr h'.some')
    show (row.v_avg * row.n + row'.v_avg * row'.n) / (row.n + row'.n) = _
    rw [h.n, h'.n, h.avg, h'.avg, List.sum_append, List.length_append, Nat.cast_add,
      div_mul_cancel₀ _ hpos.ne', div_mul_cancel₀ _ hpos'.ne']
  min_mem := by
    show min row.v_min row'.v_min ∈ vs ++ ws
    rcases min_choice row.v_min row'.v_min with heq | heq
    · rw [heq]
      exact List.mem_append_left _ h.min_mem
    · rw [heq]
      exact List.mem_append_right _ h'.min_mem
  min_le := by
    intro v hv
    rcases List.mem_append.mp hv with hv | hv
    · exact le_trans (min_le_left _ _) (h.min_le v hv)
    · exact le_trans (min_le_right _ _) (h'.min_le v hv)
  max_mem := by
    show max row.v_max row'.v_max ∈ vs ++ ws
    rcases max_choice row.v_max row'.v_max with heq | heq
    · rw [heq]
      exact List.mem_append_left _ h.max_mem
    · rw [heq]
      exact List.mem_append_right _ h'.max_mem
  le_max := by
    intro v hv
    rcases List.mem_append.mp hv with hv | hv
    · exact le_trans (h.le_max v hv) (le_max_left _ _)
    · exact le_trans (h'.le_max v hv) (le_max_right _ _)

section Buckets
variable {α : Type} [DecidableEq α]

/-! ## Buckets -/

abbrev Sample (α : Type) : Type := SampleKey α × ℚ

theorem mem_bucketsOf {rows : List (Sample α)} {k : SampleKey α} :
    k ∈ bucketsOf rows ↔ valuesOf rows k ≠ [] := by
  unfold bucketsOf valuesOf
  rw [List.mem_dedup, List.mem_map, ne_eq, List.map_eq_nil_iff, List.filter_eq_nil_iff]
  push Not
  simp only [decide_eq_true_eq]

theorem valuesOf_append (rows rows' : List (Sample α)) (k : SampleKey α) :
    valuesOf (rows ++ rows') k = valuesOf rows k ++ valuesOf rows' k := by
  unfold valuesOf
  rw [List.filter_append, List.map_append]

theorem get_foldl_upsertHour (f : SampleKey α → Hourly) {ks : List (SampleKey α)} (hks : ks.Nodup)
    (m : JsMap (SampleKey α) Hourly) (k : SampleKey α) :
    (ks.foldl (fun m k => upsertHour m k (f k)) m).get k =
      if k ∈ ks then some (match m.get k with | some old => old.merge (f k) | none => f k)
      else m.get k := by
  induction ks generalizing m with
  | nil => rfl
  | cons k' ks ih =>
    rw [List.nodup_cons] at hks
    rw [List.foldl_cons, ih hks.2]
    have hset : (upsertHour m k' (f k')).get k =
        if k = k' then some (match m.get k' with | some old => old.merge (f k') | none => f k')
        else m.get k := JsMap.get_set _ _ _ _
    by_cases heq : k = k'
    · subst heq
      rw [hset, if_pos rfl, if_neg hks.1, if_pos List.mem_cons_self]
    · rw [hset, if_neg heq]
      simp only [List.mem_cons, heq, false_or]

theorem get_rolledInto (m : JsMap (SampleKey α) Hourly) (rows : List (Sample α)) (k : SampleKey α) :
    (rolledInto m rows).get k = if valuesOf rows k = [] then m.get k
      else some (match m.get k with
        | some old => old.merge (aggregate (valuesOf rows k))
        | none => aggregate (valuesOf rows k)) := by
  unfold rolledInto
  rw [get_foldl_upsertHour _ (nodup_bucketsOf rows)]
  by_cases hvs : valuesOf rows k = []
  · rw [if_pos hvs, if_neg fun hk => mem_bucketsOf.mp hk hvs]
  · rw [if_neg hvs, if_pos (mem_bucketsOf.mpr hvs)]

/-- Every row sums up its share of the samples folded, and every share has a row. -/
def Backed (hourly : JsMap (SampleKey α) Hourly) (folded : List (Sample α)) : Prop :=
  ∀ k, match hourly.get k with
    | some row => Summary (valuesOf folded k) row
    | none => valuesOf folded k = []

theorem backed_rolledInto {hourly : JsMap (SampleKey α) Hourly} {folded : List (Sample α)}
    (h : Backed hourly folded) (rows : List (Sample α)) :
    Backed (rolledInto hourly rows) (folded ++ rows) := by
  intro k
  have hk := h k
  rw [get_rolledInto, valuesOf_append]
  cases hget : hourly.get k with
  | none =>
    rw [hget] at hk
    simp only at hk
    rw [hk]
    split_ifs with hvs
    · rw [hvs]
      rfl
    · exact summary_aggregate hvs
  | some row =>
    rw [hget] at hk
    split_ifs with hvs
    · rw [hvs, List.append_nil]
      exact hk
    · exact hk.merge (summary_aggregate hvs)

/-! ## The ledger -/

/-- Not past an hourly cutoff, by the hour it is in. -/
def keeps (cutoff : ℚ) (e : Sample α) : Bool := decide (cutoff ≤ (e.1.hour.1 : ℚ))

theorem valuesOf_keeps (cutoff : ℚ) (rows : List (Sample α)) (k : SampleKey α) :
    valuesOf (rows.filter (keeps cutoff)) k = if cutoff ≤ (k.1 : ℚ) then valuesOf rows k else [] := by
  unfold valuesOf
  rw [List.filter_filter]
  split_ifs with hk
  · congr 1
    apply List.filter_congr
    intro e _
    by_cases he : e.1.hour = k
    · simp [keeps, he, hk]
    · simp [he]
  · rw [List.map_eq_nil_iff, List.filter_eq_nil_iff]
    intro e _ hboth
    rw [Bool.and_eq_true, decide_eq_true_iff] at hboth
    have hcut := of_decide_eq_true hboth.2
    rw [hboth.1] at hcut
    exact hk hcut

theorem backed_dropHourly {t : Tables α} {folded : List (Sample α)} (h : Backed t.samples_hourly folded)
    (cutoff : ℚ) :
    Backed (dropHourly t cutoff).samples_hourly (folded.filter (keeps cutoff)) := by
  intro k
  have hk := h k
  have hget : (dropHourly t cutoff).samples_hourly.get k =
      (t.samples_hourly.get k).filter fun _ => !decide ((k.1 : ℚ) < cutoff) :=
    JsMap.get_filter _ _ _
  rw [hget, valuesOf_keeps]
  cases hrow : t.samples_hourly.get k with
  | none =>
    rw [hrow] at hk
    simp only at hk
    rw [hk]
    split_ifs <;> rfl
  | some row =>
    rw [hrow] at hk
    by_cases hcut : cutoff ≤ (k.1 : ℚ)
    · rw [if_pos hcut]
      simpa [Option.filter, not_lt.mpr hcut] using hk
    · rw [if_neg hcut]
      simp [Option.filter, not_le.mp hcut]

structure Books (α : Type) where
  recorded : List (Sample α)
  young : List (Sample α)
  folded : List (Sample α)

/-- The ledger of a table: the young samples are those of the full tier and those behind the hourly rows,
each once. -/
structure Ledger (t : Tables α) (b : Books α) : Prop where
  split : (t.samples.entries ++ b.folded).Perm b.young
  backed : Backed t.samples_hourly b.folded
  distinct : (b.recorded.map Prod.fst).Nodup
  part : b.young.Sublist b.recorded
  times : ∀ e ∈ b.recorded, 0 ≤ e.1.1

def Books.record (b : Books α) (new : List (Sample α)) : Books α :=
  ⟨b.recorded ++ new, b.young ++ new, b.folded⟩

/-- A pass over the tables as it found them. -/
def Books.pass (b : Books α) (t : Tables α) (now : ℚ) : Books α where
  recorded := b.recorded
  young := b.young.filter (keeps (hourlyCutoff now))
  folded := (b.folded ++ samplesBefore t (fullCutoff now)).filter (keeps (hourlyCutoff now))

theorem hourOf_le {ts : ℤ} (h : 0 ≤ ts) : hourOf ts ≤ ts ∧ ts < hourOf ts + 3600000 := by
  unfold hourOf
  rw [Int.tdiv_eq_ediv_of_nonneg h]
  omega

theorem ledger_insert {t : Tables α} {b : Books α} (h : Ledger t b) {e : Sample α} (hpos : 0 ≤ e.1.1)
    (hnew : e.1 ∉ b.recorded.map Prod.fst) :
    Ledger { t with samples := t.samples.set e.1 e.2 } (b.record [e]) := by
  have hnone : t.samples.get e.1 = none := by
    rw [← Option.not_isSome_iff_eq_none, ← t.samples.mem_keys_iff]
    intro hmem
    obtain ⟨e', he', heq⟩ := List.mem_map.mp hmem
    have hyoung := h.split.subset (List.mem_append_left _ he')
    exact hnew (heq ▸ List.mem_map_of_mem (h.part.subset hyoung))
  have hentries := t.samples.entries_set_new e.2 hnone
  constructor
  · show ((t.samples.set e.1 e.2).entries ++ b.folded).Perm (b.young ++ [e])
    rw [hentries, List.append_assoc]
    have hswap : ([e] ++ b.folded).Perm (b.folded ++ [e]) := List.perm_append_comm
    have hleft := hswap.append_left t.samples.entries
    have hright := h.split.append_right [e]
    rw [List.append_assoc] at hright
    exact hleft.trans hright
  · exact h.backed
  · show ((b.recorded ++ [e]).map Prod.fst).Nodup
    rw [List.map_append]
    refine List.nodup_append.mpr ⟨h.distinct, List.nodup_singleton _, fun k hk k' hk' => ?_⟩
    obtain rfl := List.mem_singleton.mp hk'
    intro heq
    exact hnew (heq ▸ hk)
  · exact h.part.append (List.Sublist.refl _)
  · intro e' he'
    rcases List.mem_append.mp he' with he' | he'
    · exact h.times e' he'
    · obtain rfl := List.mem_singleton.mp he'
      exact hpos

theorem ledger_record {t : Tables α} {b : Books α} (h : Ledger t b) {new : List (Sample α)}
    (hpos : ∀ e ∈ new, 0 ≤ e.1.1) (hnew : (b.recorded.map Prod.fst ++ new.map Prod.fst).Nodup) :
    Ledger { t with samples := new.foldl (fun m e => m.set e.1 e.2) t.samples } (b.record new) := by
  induction new generalizing t b with
  | nil =>
    have hb : b.record [] = b := by simp [Books.record]
    rw [hb]
    exact h
  | cons e new ih =>
    have hfirst : e.1 ∉ b.recorded.map Prod.fst := by
      intro hmem
      exact (List.nodup_append.mp hnew).2.2 _ hmem _ List.mem_cons_self rfl
    have hins := ledger_insert h (hpos e List.mem_cons_self) hfirst
    have hrest : ((b.record [e]).recorded.map Prod.fst ++ new.map Prod.fst).Nodup := by
      show ((b.recorded ++ [e]).map Prod.fst ++ new.map Prod.fst).Nodup
      rwa [List.map_append, List.append_assoc]
    have hnext := ih hins (fun e' he' => hpos e' (List.mem_cons_of_mem _ he')) hrest
    have hb : (b.record [e]).record new = b.record (e :: new) := by simp [Books.record]
    rwa [hb] at hnext

omit [DecidableEq α] in
/-- A sample of the full tier has an hour that no pass at the same clock drops. -/
theorem keeps_of_recent {now : ℚ} {e : Sample α} (hpos : 0 ≤ e.1.1) (h : fullCutoff now ≤ (e.1.1 : ℚ)) :
    keeps (hourlyCutoff now) e = true := by
  have hhour : (e.1.1 : ℚ) < (e.1.hour.1 : ℚ) + 3600000 := by
    have hlt := (hourOf_le hpos).2
    show (e.1.1 : ℚ) < (hourOf e.1.1 : ℚ) + 3600000
    exact_mod_cast hlt
  unfold keeps
  rw [decide_eq_true_iff]
  unfold hourlyCutoff fullCutoff RETENTION_HOURLY_DAYS RETENTION_FULL_DAYS DAY_MS at *
  linarith

theorem ledger_pass {t : Tables α} {b : Books α} (h : Ledger t b) (now : ℚ) :
    Ledger (sweep t now).1 (b.pass t now) := by
  have hsamples : (sweep t now).1.samples = (dropFull t (fullCutoff now)).samples := by
    show (dropTiers now eventTiers _).1.samples = _
    rw [dropTiers_fst]
    rfl
  have hhourly : (sweep t now).1.samples_hourly =
      (dropHourly (rollup t (fullCutoff now)) (hourlyCutoff now)).samples_hourly := by
    show (dropTiers now eventTiers _).1.samples_hourly = _
    rw [dropTiers_fst]
    rfl
  constructor
  · rw [hsamples]
    show ((t.samples.entries.filter fun e => !decide ((e.1.1 : ℚ) < fullCutoff now)) ++
      (b.folded ++ samplesBefore t (fullCutoff now)).filter (keeps (hourlyCutoff now))).Perm
      (b.young.filter (keeps (hourlyCutoff now)))
    have hrecent : (t.samples.entries.filter fun e => !decide ((e.1.1 : ℚ) < fullCutoff now)) =
        (t.samples.entries.filter fun e => !decide ((e.1.1 : ℚ) < fullCutoff now)).filter
          (keeps (hourlyCutoff now)) := by
      rw [eq_comm, List.filter_eq_self]
      intro e he
      obtain ⟨he, hrecent⟩ := List.mem_filter.mp he
      have hyoung := h.split.subset (List.mem_append_left _ he)
      apply keeps_of_recent (h.times e (h.part.subset hyoung))
      simpa using hrecent
    rw [hrecent, ← List.filter_append]
    apply List.Perm.filter
    have hparts : (samplesBefore t (fullCutoff now) ++
        t.samples.entries.filter fun e => !decide ((e.1.1 : ℚ) < fullCutoff now)).Perm
        t.samples.entries := List.filter_append_perm _ _
    have hback := hparts.append_left b.folded
    rw [← List.append_assoc] at hback
    exact List.perm_append_comm.trans (hback.trans (List.perm_append_comm.trans h.split))
  · rw [hhourly]
    exact backed_dropHourly (backed_rolledInto h.backed _) _
  · exact h.distinct
  · exact (List.filter_sublist).trans h.part
  · exact h.times

end Buckets

end OpsMaxx.History
