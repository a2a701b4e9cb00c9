import OpsMaxx.Addy.Payload
import OpsMaxx.Merge.ThreeWay

/-! # Merging a collection

`mergeCollections` goes over the local records, then over the remote records whose ids the first
loop has not seen. What the two loops put out is, for every id, the state `Merge.resolve` selects;
they refuse exactly when some id is a `Merge.Clash`.
-/

set_option autoImplicit false

namespace OpsMaxx.Addy

open OpsMaxx.Merge

section Code
variable [Digest]

/-- Whether a record is not the one the ancestor has. -/
def changed (base : Base) (id : String) (item : Json) : Bool :=
  !base.has id || base.lookup id != some (fingerprint item)

/-- What the two loops carry. -/
structure Merging where
  out : List Identified
  added : Nat
  removed : Nat
  updated : Nat

/-- One turn of the loop over the local records. -/
def mergeLocal (base : Base) (remote : List Identified) (s : Merging) (l : Identified) :
    Option Merging :=
  match record remote l.id with
  | none =>
    if base.has l.id then
      if changed base l.id l.item then none
      else some { s with removed := s.removed + 1 }
    else some { s with added := s.added + 1, out := s.out ++ [l] }
  | some r =>
    let lChanged := changed base l.id l.item
    let rChanged := changed base r.id r.item
    if lChanged && rChanged then
      if canonical l.item ≠ canonical r.item then none
      else some { s with out := s.out ++ [l], updated := s.updated + 1 }
    else if lChanged then some { s with out := s.out ++ [l], updated := s.updated + 1 }
    else if rChanged then some { s with out := s.out ++ [r], updated := s.updated + 1 }
    else some { s with out := s.out ++ [l] }

/-- One turn of the loop over the remote records. -/
def mergeRemote (base : Base) (emitted : List String) (s : Merging) (r : Identified) :
    Option Merging :=
  if r.id ∈ emitted then some s
  else if base.has r.id then
    if changed base r.id r.item then none
    else some { s with removed := s.removed + 1 }
  else some { s with added := s.added + 1, out := s.out ++ [r] }

def mergeRecords (base : Base) (localRecords remoteRecords : List Identified) : Option Merging := do
  let s ← localRecords.foldlM (mergeLocal base remoteRecords) ⟨[], 0, 0, 0⟩
  remoteRecords.foldlM (mergeRemote base (ids localRecords)) s

structure MergeResult where
  merged : Buffer
  added : Nat
  removed : Nat
  updated : Nat

/-- Merge local and remote against the base they both came from, or refuse to decide. -/
def mergeCollections (base : Option Base) (here there : Buffer) : Option MergeResult := do
  let base ← base
  let localRecords ← asRecords here
  let remoteRecords ← asRecords there
  let s ← mergeRecords base localRecords remoteRecords
  return ⟨ofRecords s.out, s.added, s.removed, s.updated⟩

end Code

/-! ## Records as states of a key -/

/-- One record, up to the order of its keys. -/
def SameRecord (a b : Identified) : Prop := canonical a.item = canonical b.item

theorem SameRecord.refl (a : Identified) : SameRecord a a := rfl

theorem SameRecord.symm (a b : Identified) (h : SameRecord a b) : SameRecord b a := Eq.symm h

/-- The id is no name every object answers to. -/
def Plain (id : String) : Prop := id ∉ objectPrototype

theorem has_iff (base : Base) {id : String} (hid : Plain id) :
    base.has id = true ↔ (base.lookup id).isSome = true := by
  have hproto : objectPrototype.contains id = false := by simpa [Plain] using hid
  rw [Base.has, hproto, Bool.or_false]

theorem record_id {L : List Identified} {id : String} {r : Identified} (h : record L id = some r) :
    r.id = id := by
  simpa using List.find?_some h

theorem not_sameState_none {r : Identified} : ¬ SameState SameRecord (some r) none :=
  fun h => nomatch h

theorem not_none_sameState {r : Identified} : ¬ SameState SameRecord none (some r) :=
  fun h => nomatch h

theorem sameState_some {l r : Identified} :
    SameState SameRecord (some l) (some r) ↔ canonical l.item = canonical r.item :=
  Option.rel_some_some

/-- The ids the loops go through: the local ones, then those only the remote side has. -/
def seenIds (L R : List Identified) : List String :=
  ids L ++ (ids R).filter fun id => id ∉ ids L

theorem seenIds_nodup {L R : List Identified} (hL : (ids L).Nodup) (hR : (ids R).Nodup) : (seenIds L R).Nodup := by
  refine List.nodup_append.mpr ⟨hL, hR.filter _, fun a ha b hb => ?_⟩
  rintro rfl
  exact absurd ha (by simpa using List.of_mem_filter hb)

theorem mem_seenIds {L R : List Identified} {id : String} : id ∈ seenIds L R ↔ id ∈ ids L ∨ id ∈ ids R := by
  simp only [seenIds, List.mem_append, List.mem_filter, decide_not, Bool.not_eq_true',
    decide_eq_false_iff_not]
  tauto

/-- Records put out key by key are found again under their keys. -/
theorem record_flatMap {keys : List String} (hkeys : keys.Nodup)
    {state : String → Option Identified} (hstate : ∀ id r, state id = some r → r.id = id) :
    (ids (keys.flatMap fun id => (state id).toList)).Nodup ∧
    ∀ id, record (keys.flatMap fun id => (state id).toList) id =
      if id ∈ keys then state id else none := by
  induction keys with
  | nil => simp [ids, record]
  | cons key keys ih =>
    obtain ⟨hkey, hkeys⟩ := List.nodup_cons.mp hkeys
    obtain ⟨hnodup, hrec⟩ := ih hkeys
    cases hs : state key with
    | none =>
      simp only [List.flatMap_cons, hs, Option.toList_none, List.nil_append]
      refine ⟨hnodup, fun id => ?_⟩
      rw [hrec id]
      by_cases hid : id = key
      · subst hid
        simp [hkey, hs]
      · simp [hid]
    | some r =>
      have hr := hstate key r hs
      simp only [List.flatMap_cons, hs, Option.toList_some, List.singleton_append]
      refine ⟨List.nodup_cons.mpr ⟨?_, hnodup⟩, fun id => ?_⟩
      · exact record_eq_none.mp (by rw [hr, hrec key, if_neg hkey])
      · by_cases hid : id = key
        · subst hid
          simp [record, hr, hs]
        · have hne : r.id ≠ id := fun h => hid (h.symm.trans hr)
          simp only [record, List.find?_cons, hne, decide_false] at hrec ⊢
          rw [hrec id]
          simp [hid]

theorem flatMap_unseen (emit : String → List Identified) (L R : List Identified) :
    ((ids R).filter fun id => id ∉ ids L).flatMap emit =
      R.flatMap fun r => if r.id ∈ ids L then [] else emit r.id := by
  induction R with
  | nil => rfl
  | cons r R ih =>
    have hids : ids (r :: R) = r.id :: ids R := rfl
    rw [hids, List.filter_cons, List.flatMap_cons, ← ih]
    by_cases h : r.id ∈ ids L <;> simp [h]

section Sides
variable [Digest]

/-- The fingerprint of a record. -/
def printOf (r : Identified) : String := fingerprint r.item

theorem unchanged_none (base : Base) {id : String} (hid : Plain id) :
    Unchanged printOf (base.lookup id) none ↔ base.has id = false := by
  rw [← Bool.not_eq_true, has_iff base hid]
  cases base.lookup id <;> simp [Unchanged]

theorem unchanged_some (base : Base) {id : String} {r : Identified} (hid : Plain id) :
    Unchanged printOf (base.lookup id) (some r) ↔ changed base id r.item = false := by
  have hhas := has_iff base hid
  cases h : base.lookup id with
  | none =>
    rw [h] at hhas
    simp [changed, hhas, Unchanged]
  | some f =>
    rw [h] at hhas
    rw [changed, hhas.mpr rfl, h]
    simp only [Bool.not_true, Bool.false_or, bne_eq_false_iff_eq]
    exact eq_comm

variable (base : Base) (L R : List Identified)

/-- The two sides cannot be reconciled about an id. -/
def ClashAt (id : String) : Prop :=
  Clash printOf SameRecord (base.lookup id) (record L id) (record R id)

/-- The state the merge gives an id. -/
def resolveAt (id : String) : Option Identified :=
  resolve printOf (base.lookup id) (record L id) (record R id)

variable {base L R}

/-! ## What one turn does -/

theorem mergeLocal_emits (base : Base) (hL : (ids L).Nodup) {l : Identified} (hl : l ∈ L) (hid : Plain l.id) :
    Emits Merging.out (fun l => ClashAt base L R l.id) (fun l => (resolveAt base L R l.id).toList)
      (mergeLocal base R) l := by
  have hrec : record L l.id = some l := (record_eq_some hL).mpr ⟨hl, rfl⟩
  have hsome := unchanged_some base (r := l) hid
  cases hr : record R l.id with
  | none =>
    have hnone := unchanged_none base hid
    have hclash : ClashAt base L R l.id ↔
        changed base l.id l.item = true ∧ base.has l.id = true := by
      simp [ClashAt, Clash, hrec, hr, hsome, hnone, not_sameState_none]
    refine ⟨fun s hbad => ?_, fun s hok => ?_⟩
    · obtain ⟨hc, hhas⟩ := hclash.mp hbad
      simp [mergeLocal, hr, hc, hhas]
    · rw [hclash] at hok
      rw [resolveAt, hrec, hr, resolve]
      simp only [hsome, hnone]
      cases hhas : base.has l.id with
      | false => simp [mergeLocal, hr, hhas]
      | true =>
        have hc : changed base l.id l.item = false := by simpa [hhas] using hok
        simp [mergeLocal, hr, hhas, hc]
  | some r =>
    have hrid := record_id hr
    have hsome' := unchanged_some base (r := r) hid
    have hclash : ClashAt base L R l.id ↔ changed base l.id l.item = true ∧
        changed base l.id r.item = true ∧ canonical l.item ≠ canonical r.item := by
      simp [ClashAt, Clash, hrec, hr, hsome, hsome', sameState_some]
    refine ⟨fun s hbad => ?_, fun s hok => ?_⟩
    · obtain ⟨hc, hc', hne⟩ := hclash.mp hbad
      simp [mergeLocal, hr, hrid, hc, hc', hne]
    · rw [hclash] at hok
      rw [resolveAt, hrec, hr, resolve]
      simp only [hsome, hsome']
      cases hc : changed base l.id l.item <;> cases hc' : changed base l.id r.item
      · simp [mergeLocal, hr, hrid, hc, hc']
      · simp [mergeLocal, hr, hrid, hc, hc']
      · simp [mergeLocal, hr, hrid, hc, hc']
      · have hsame : canonical l.item = canonical r.item := by simpa [hc, hc'] using hok
        simp [mergeLocal, hr, hrid, hc, hc', hsame]

theorem mergeRemote_emits (base : Base) (hR : (ids R).Nodup) {r : Identified} (hr : r ∈ R) (hid : Plain r.id) :
    Emits Merging.out (fun r => r.id ∉ ids L ∧ ClashAt base L R r.id)
      (fun r => if r.id ∈ ids L then [] else (resolveAt base L R r.id).toList)
      (mergeRemote base (ids L)) r := by
  have hrec : record R r.id = some r := (record_eq_some hR).mpr ⟨hr, rfl⟩
  by_cases hseen : r.id ∈ ids L
  · refine ⟨fun s hbad => absurd hseen hbad.1, fun s _ => ?_⟩
    simp [mergeRemote, hseen]
  · have hl := record_eq_none.mpr hseen
    have hsome := unchanged_some base (r := r) hid
    have hnone := unchanged_none base hid
    have hclash : ClashAt base L R r.id ↔
        base.has r.id = true ∧ changed base r.id r.item = true := by
      simp [ClashAt, Clash, hrec, hl, hsome, hnone, not_none_sameState]
    refine ⟨fun s hbad => ?_, fun s hok => ?_⟩
    · obtain ⟨hhas, hc⟩ := hclash.mp hbad.2
      simp [mergeRemote, hseen, hc, hhas]
    · simp only [hseen, not_false_eq_true, true_and, hclash] at hok
      rw [if_neg hseen, resolveAt, hrec, hl, resolve]
      simp only [hsome, hnone]
      cases hhas : base.has r.id with
      | false =>
        have hc : changed base r.id r.item = true := by simp [changed, hhas]
        simp [mergeRemote, hseen, hhas, hc]
      | true =>
        have hc : changed base r.id r.item = false := by simpa [hhas] using hok
        simp [mergeRemote, hseen, hhas, hc]

/-! ## What the loops put out -/

theorem resolveAt_id {id : String} {r : Identified} (h : resolveAt base L R id = some r) :
    r.id = id := by
  rcases resolve_eq_or printOf (base.lookup id) (record L id) (record R id) with he | he
  · exact record_id (he.symm.trans h)
  · exact record_id (he.symm.trans h)

theorem resolveAt_of_unseen {id : String} (hl : record L id = none) (hr : record R id = none) :
    resolveAt base L R id = none := by
  rw [resolveAt, hl, hr]
  exact (resolve_eq_or printOf (base.lookup id) none none).elim (fun h => h) fun h => h

theorem not_clashAt_of_unseen {id : String} (hl : record L id = none) (hr : record R id = none) :
    ¬ ClashAt base L R id := by
  rw [ClashAt, hl, hr]
  exact fun h => h.2.2 .none

/-- The records the merge puts out. -/
def mergedRecords (base : Base) (L R : List Identified) : List Identified :=
  (seenIds L R).flatMap fun id => (resolveAt base L R id).toList

theorem mergedRecords_nodup (hL : (ids L).Nodup) (hR : (ids R).Nodup) :
    (ids (mergedRecords base L R)).Nodup :=
  (record_flatMap (seenIds_nodup hL hR) fun _ _ => resolveAt_id).1

/-- The record the merge gives an id is the one `resolveAt` selects. -/
theorem record_mergedRecords (hL : (ids L).Nodup) (hR : (ids R).Nodup) (id : String) :
    record (mergedRecords base L R) id = resolveAt base L R id := by
  refine ((record_flatMap (seenIds_nodup hL hR) fun _ _ => resolveAt_id).2 id).trans ?_
  split_ifs with h
  · rfl
  · rw [mem_seenIds, not_or] at h
    exact (resolveAt_of_unseen (record_eq_none.mpr h.1) (record_eq_none.mpr h.2)).symm

section Loops
variable (hL : (ids L).Nodup) (hR : (ids R).Nodup)
variable (hLp : ∀ l ∈ L, Plain l.id) (hRp : ∀ r ∈ R, Plain r.id)
include hL hR hLp hRp

theorem mergeRecords_of_clash {id : String} (h : ClashAt base L R id) :
    mergeRecords base L R = none := by
  have hlocal := fun l hl => mergeLocal_emits base (R := R) hL hl (hLp l hl)
  have hremote := fun r hr => mergeRemote_emits base (L := L) hR hr (hRp r hr)
  unfold mergeRecords
  by_cases hseen : id ∈ ids L
  · obtain ⟨l, hl, rfl⟩ := List.mem_map.mp hseen
    rw [foldlM_refuses hlocal ⟨l, hl, h⟩]
    rfl
  · obtain ⟨r, hr, rfl⟩ : ∃ r ∈ R, r.id = id := by
      by_contra hno
      refine not_clashAt_of_unseen (record_eq_none.mpr hseen) (record_eq_none.mpr ?_) h
      simpa [ids] using hno
    cases L.foldlM (mergeLocal base R) ⟨[], 0, 0, 0⟩ with
    | none => rfl
    | some s => exact foldlM_refuses hremote ⟨r, hr, hseen, h⟩ s

theorem mergeRecords_of_no_clash (h : ∀ id, ¬ ClashAt base L R id) :
    (mergeRecords base L R).map Merging.out = some (mergedRecords base L R) := by
  have hlocal := fun l hl => mergeLocal_emits base (R := R) hL hl (hLp l hl)
  have hremote := fun r hr => mergeRemote_emits base (L := L) hR hr (hRp r hr)
  obtain ⟨s, hs, hout⟩ := Option.map_eq_some_iff.mp
    (foldlM_puts hlocal (fun l _ => h l.id) ⟨[], 0, 0, 0⟩)
  have hrest := foldlM_puts hremote (fun r _ hr => h r.id hr.2) s
  unfold mergeRecords
  rw [hs]
  refine hrest.trans (congrArg some ?_)
  rw [hout, mergedRecords, seenIds, List.flatMap_append, flatMap_unseen, ids, List.flatMap_map]
  rfl

end Loops

/-! ## The merge -/

variable (base L R) in
/-- `M` is the merge of `L` and `R`, id by id. -/
structure MergesInto (M : List Identified) : Prop where
  nodup : (ids M).Nodup
  of_remote : ∀ id, Unchanged printOf (base.lookup id) (record R id) → record M id = record L id
  of_local : ∀ id, Unchanged printOf (base.lookup id) (record L id) →
    SameState SameRecord (record M id) (record R id) ∧
    (¬ Unchanged printOf (base.lookup id) (record R id) → record M id = record R id)
  of_both : ∀ id, ¬ Unchanged printOf (base.lookup id) (record L id) →
    ¬ Unchanged printOf (base.lookup id) (record R id) →
    record M id = record L id ∧ SameState SameRecord (record M id) (record R id)

theorem print_injective (hinj : ∀ l ∈ L, ∀ r ∈ R,
      fingerprint l.item = fingerprint r.item → canonical l.item = canonical r.item) (id : String) :
    ∀ a ∈ record L id, ∀ b ∈ record R id, printOf a = printOf b → SameRecord a b :=
  fun a ha b hb h =>
    hinj a (List.mem_of_find?_eq_some ha) b (List.mem_of_find?_eq_some hb) h

theorem mergesInto_mergedRecords (hL : (ids L).Nodup) (hR : (ids R).Nodup)
    (hinj : ∀ l ∈ L, ∀ r ∈ R,
      fingerprint l.item = fingerprint r.item → canonical l.item = canonical r.item)
    (h : ∀ id, ¬ ClashAt base L R id) : MergesInto base L R (mergedRecords base L R) where
  nodup := mergedRecords_nodup hL hR
  of_remote id hr := by
    rw [record_mergedRecords hL hR]
    exact resolve_of_right hr
  of_local id hl := by
    rw [record_mergedRecords hL hR]
    exact ⟨resolve_sameState_right SameRecord.refl (print_injective hinj id) hl,
      resolve_of_left hl⟩
  of_both id hl hr := by
    obtain ⟨hout, hsame⟩ := resolve_sameState_both (h id) hl hr
    rw [record_mergedRecords hL hR, resolveAt, hout]
    exact ⟨rfl, hsame⟩

theorem mergedRecords_valid {M : List Identified} (hM : M = mergedRecords base L R)
    (hL : ∀ l ∈ L, l.item.Valid) (hR : ∀ r ∈ R, r.item.Valid) : ∀ m ∈ M, m.item.Valid := by
  subst hM
  intro m hm
  obtain ⟨id, -, hm⟩ := List.mem_flatMap.mp hm
  rw [Option.mem_toList] at hm
  rcases resolve_eq_or printOf (base.lookup id) (record L id) (record R id) with he | he
  · exact hL m (List.mem_of_find?_eq_some (he.symm.trans hm))
  · exact hR m (List.mem_of_find?_eq_some (he.symm.trans hm))

/-- What `mergeCollections` answers for two lists of records. -/
theorem mergeCollections_eq (base : Base) {here there : Buffer} (hL : asRecords here = some L)
    (hR : asRecords there = some R) (hLp : ∀ l ∈ L, Plain l.id) (hRp : ∀ r ∈ R, Plain r.id) :
    ((∃ id, ClashAt base L R id) → mergeCollections (some base) here there = none) ∧
    ((∀ id, ¬ ClashAt base L R id) → ∃ m, mergeCollections (some base) here there = some m ∧
      m.merged = ofRecords (mergedRecords base L R) ∧
      asRecords m.merged = some (mergedRecords base L R)) := by
  have hLn := asRecords_nodup hL
  have hRn := asRecords_nodup hR
  have heq : mergeCollections (some base) here there = (mergeRecords base L R).bind fun s =>
      some ⟨ofRecords s.out, s.added, s.removed, s.updated⟩ := by
    simp [mergeCollections, hL, hR]
  rw [heq]
  refine ⟨fun ⟨id, hid⟩ => ?_, fun hno => ?_⟩
  · rw [mergeRecords_of_clash hLn hRn hLp hRp hid]
    rfl
  · obtain ⟨s, hs, hout⟩ := Option.map_eq_some_iff.mp
      (mergeRecords_of_no_clash hLn hRn hLp hRp hno)
    refine ⟨_, by rw [hs]; rfl, by rw [hout], ?_⟩
    exact (congrArg (fun out => asRecords (ofRecords out)) hout).trans
      (asRecords_ofRecords (mergedRecords_nodup hLn hRn)
        (mergedRecords_valid rfl (asRecords_valid hL) (asRecords_valid hR)))

/-- The three-way merge is right. It refuses exactly the clashes; otherwise every id ends in the
state of the side that changed it, and swapping the sides gives the same records. -/
theorem mergeCollections_correct (base : Base) {here there : Buffer} (hL : asRecords here = some L)
    (hR : asRecords there = some R) (hLp : ∀ l ∈ L, Plain l.id) (hRp : ∀ r ∈ R, Plain r.id)
    (hinj : ∀ l ∈ L, ∀ r ∈ R,
      fingerprint l.item = fingerprint r.item → canonical l.item = canonical r.item) :
    (mergeCollections (some base) here there = none ↔ ∃ id, ClashAt base L R id) ∧
    ∀ m, mergeCollections (some base) here there = some m →
      ∃ M, asRecords m.merged = some M ∧ MergesInto base L R M ∧
        ∃ m' M', mergeCollections (some base) there here = some m' ∧
          asRecords m'.merged = some M' ∧
          ∀ id, SameState SameRecord (record M id) (record M' id) := by
  obtain ⟨hclash, hmerge⟩ := mergeCollections_eq base hL hR hLp hRp
  obtain ⟨-, hmerge'⟩ := mergeCollections_eq base hR hL hRp hLp
  have hLn := asRecords_nodup hL
  have hRn := asRecords_nodup hR
  by_cases hex : ∃ id, ClashAt base L R id
  · rw [hclash hex]
    exact ⟨iff_of_true rfl hex, fun m hm => by cases hm⟩
  · have hno : ∀ id, ¬ ClashAt base L R id := fun id hid => hex ⟨id, hid⟩
    have hno' : ∀ id, ¬ ClashAt base R L id := fun id hid => hno id (hid.swap SameRecord.symm)
    obtain ⟨m, hm, -, hM⟩ := hmerge hno
    obtain ⟨m', hm', -, hM'⟩ := hmerge' hno'
    rw [hm]
    refine ⟨iff_of_false (by simp) hex, fun n hn => ?_⟩
    obtain rfl := Option.some.inj hn
    refine ⟨_, hM, mergesInto_mergedRecords hLn hRn hinj hno, m', _, hm', hM', fun id => ?_⟩
    rw [record_mergedRecords hLn hRn, record_mergedRecords hRn hLn]
    exact resolve_swap SameRecord.refl (print_injective hinj id) (hno id)

end Sides

/-! ## An edit here and an addition there -/

/-- A record with a port. -/
def portRecord (id : String) (port : Int) (h : id ≠ "") : Identified :=
  ⟨.obj [("id", .str id), ("port", .num (.ofInt port))], id, rfl, h⟩

theorem portRecord_valid (id : String) (port : Int) (h : id ≠ "") :
    (portRecord id port h).item.Valid := by
  have hkeys : KeyBefore "id" "port" := ⟨by decide +kernel, by decide +kernel⟩
  exact .obj (by simp [hkeys]) (by simp [Json.Valid.str, Json.Valid.num])

@[reducible] def portDigest : Digest := digestOf
  [("\x7b\"id\":\"a\",\"port\":22\x7d",
      "c0ae2c9d00b008e5fefbdd5194d1b8afcebc95e8c08b2d4e9ceccfa8aed3456e"),
    ("\x7b\"id\":\"a\",\"port\":23\x7d",
      "6935494d4c26300eeb28025e242e8f5677c6333e18e26681ae77a44a1f959da0"),
    ("\x7b\"id\":\"b\",\"port\":80\x7d",
      "320f301002b2c8e35c4b560373407c2c95800261c0cb06cdcec0ba48984ab1ca")]

theorem mergeCollections_correct_edit_and_add :
    letI := portDigest
    let base : Base := [("a", "c0ae2c9d00b008e5")]
    let L := [portRecord "a" 23 (by decide)]
    let R := [portRecord "a" 22 (by decide), portRecord "b" 80 (by decide)]
    (mergeCollections (some base) (ofRecords L) (ofRecords R) = none ↔ ∃ id, ClashAt base L R id) ∧
    ∀ m, mergeCollections (some base) (ofRecords L) (ofRecords R) = some m →
      ∃ M, asRecords m.merged = some M ∧ MergesInto base L R M ∧
        ∃ m' M', mergeCollections (some base) (ofRecords R) (ofRecords L) = some m' ∧
          asRecords m'.merged = some M' ∧
          ∀ id, SameState SameRecord (record M id) (record M' id) := by
  let _ := portDigest
  intro base L R
  have hL : asRecords (ofRecords L) = some L :=
    asRecords_ofRecords (by decide +kernel) (by simp [L, portRecord_valid])
  have hR : asRecords (ofRecords R) = some R :=
    asRecords_ofRecords (by decide +kernel) (by simp [R, portRecord_valid])
  have hfp : fingerprint (portRecord "a" 23 (by decide)).item = "6935494d4c26300e" ∧
      fingerprint (portRecord "a" 22 (by decide)).item = "c0ae2c9d00b008e5" ∧
      fingerprint (portRecord "b" 80 (by decide)).item = "320f301002b2c8e3" := by
    decide +kernel
  refine mergeCollections_correct base hL hR ?_ ?_ ?_
  · simp only [L, List.forall_mem_singleton, Plain]
    decide +kernel
  · simp only [R, List.forall_mem_cons, Plain]
    decide +kernel
  · simp only [L, R, List.forall_mem_cons, hfp]
    decide +kernel

end OpsMaxx.Addy
