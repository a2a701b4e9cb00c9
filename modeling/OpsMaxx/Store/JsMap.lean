import Mathlib.Data.List.Induction
import Mathlib.Data.List.Nodup
import Mathlib.Data.List.Lookmap
import Mathlib.Logic.Embedding.Basic

/-!
# Maps that remember insertion order

A JavaScript `Map`: at most one entry for a key, entries in the order their keys were first set.
-/

set_option autoImplicit false

namespace OpsMaxx.Store

structure JsMap (κ ν : Type) where
  entries : List (κ × ν)
  nodup : (entries.map Prod.fst).Nodup
  deriving DecidableEq

namespace JsMap
variable {κ ν : Type}

@[ext] theorem ext_entries {m n : JsMap κ ν} (h : m.entries = n.entries) : m = n := by
  cases m
  cases n
  simp_all

def empty : JsMap κ ν := ⟨[], by simp⟩

def keys (m : JsMap κ ν) : List κ := m.entries.map Prod.fst

def values (m : JsMap κ ν) : List ν := m.entries.map Prod.snd

/-- What stays when the entries that fail a test are deleted. -/
def filter (m : JsMap κ ν) (p : κ → ν → Bool) : JsMap κ ν :=
  ⟨m.entries.filter fun e => p e.1 e.2, (m.nodup.sublist (List.filter_sublist.map _))⟩

theorem entries_nodup (m : JsMap κ ν) : m.entries.Nodup := m.nodup.of_map _

variable [DecidableEq κ]

def get (m : JsMap κ ν) (k : κ) : Option ν := m.entries.lookup k

def has (m : JsMap κ ν) (k : κ) : Bool := (m.get k).isSome

def delete (m : JsMap κ ν) (k : κ) : JsMap κ ν := m.filter fun k' _ => decide (k' ≠ k)

/-- The entries with the value of a key replaced where it stands, or added at the end. -/
def put : List (κ × ν) → κ → ν → List (κ × ν)
  | [], k, v => [(k, v)]
  | (k', v') :: rest, k, v => if k' = k then (k, v) :: rest else (k', v') :: put rest k v

theorem mem_put_keys {l : List (κ × ν)} {k k' : κ} {v : ν} :
    k' ∈ (put l k v).map Prod.fst ↔ k' = k ∨ k' ∈ l.map Prod.fst := by
  induction l with
  | nil => simp [put]
  | cons e l ih =>
    obtain ⟨k₀, v₀⟩ := e
    unfold put
    split_ifs with h
    · subst h
      simp
    · simp only [List.map_cons, List.mem_cons, ih]
      tauto

theorem nodup_put {l : List (κ × ν)} (h : (l.map Prod.fst).Nodup) (k : κ) (v : ν) :
    ((put l k v).map Prod.fst).Nodup := by
  induction l with
  | nil => simp [put]
  | cons e l ih =>
    obtain ⟨k₀, v₀⟩ := e
    rw [List.map_cons, List.nodup_cons] at h
    unfold put
    split_ifs with hk
    · subst hk
      exact List.nodup_cons.mpr h
    · refine List.nodup_cons.mpr ⟨fun hm => ?_, ih h.2⟩
      rcases mem_put_keys.mp hm with rfl | hm
      · exact hk rfl
      · exact h.1 hm

def set (m : JsMap κ ν) (k : κ) (v : ν) : JsMap κ ν := ⟨put m.entries k v, nodup_put m.nodup k v⟩

/-! ## Reading back -/

theorem lookup_cons_if (k' : κ) (v' : ν) (l : List (κ × ν)) (k : κ) :
    ((k', v') :: l).lookup k = if k = k' then some v' else l.lookup k := by
  rw [List.lookup_cons]
  split_ifs with h
  · rw [beq_iff_eq.mpr h]
  · rw [beq_eq_false_iff_ne.mpr h]

theorem lookup_put (l : List (κ × ν)) (k k' : κ) (v : ν) :
    (put l k v).lookup k' = if k' = k then some v else l.lookup k' := by
  induction l with
  | nil => rw [put, lookup_cons_if]
  | cons e l ih =>
    obtain ⟨k₀, v₀⟩ := e
    unfold put
    split_ifs with h h' h'
    · rw [lookup_cons_if, if_pos h']
    · rw [lookup_cons_if, lookup_cons_if, if_neg h', if_neg (h ▸ h')]
    · rw [lookup_cons_if, if_neg (fun hk => h (hk.symm.trans h')), ih, if_pos h']
    · rw [lookup_cons_if, lookup_cons_if, ih, if_neg h']

@[simp] theorem get_empty (k : κ) : (empty : JsMap κ ν).get k = none := rfl

@[simp] theorem get_set_self (m : JsMap κ ν) (k : κ) (v : ν) : (m.set k v).get k = some v :=
  (lookup_put _ _ _ _).trans (if_pos rfl)

theorem get_set_ne (m : JsMap κ ν) {k k' : κ} (v : ν) (h : k' ≠ k) :
    (m.set k v).get k' = m.get k' :=
  (lookup_put _ _ _ _).trans (if_neg h)

theorem get_set (m : JsMap κ ν) (k k' : κ) (v : ν) :
    (m.set k v).get k' = if k' = k then some v else m.get k' :=
  lookup_put _ _ _ _

theorem mem_entries_iff (m : JsMap κ ν) {k : κ} {v : ν} :
    (k, v) ∈ m.entries ↔ m.get k = some v := by
  obtain ⟨l, hl⟩ := m
  simp only [get]
  induction l with
  | nil => simp
  | cons e l ih =>
    obtain ⟨k₀, v₀⟩ := e
    rw [List.map_cons, List.nodup_cons] at hl
    rw [List.mem_cons, lookup_cons_if]
    by_cases h : k = k₀
    · subst h
      have hnot : (k, v) ∉ l := fun hm => hl.1 (List.mem_map.mpr ⟨_, hm, rfl⟩)
      simp [hnot, eq_comm]
    · simp [h, ih hl.2]

theorem mem_keys_iff (m : JsMap κ ν) {k : κ} : k ∈ m.keys ↔ (m.get k).isSome := by
  unfold keys
  rw [List.mem_map, Option.isSome_iff_exists]
  constructor
  · intro ⟨⟨k', v⟩, hm, hk⟩
    subst hk
    exact ⟨v, m.mem_entries_iff.mp hm⟩
  · intro ⟨v, hv⟩
    exact ⟨(k, v), m.mem_entries_iff.mpr hv, rfl⟩

theorem get_filter (m : JsMap κ ν) (p : κ → ν → Bool) (k : κ) :
    (m.filter p).get k = (m.get k).filter (p k) := by
  apply Option.ext
  intro v
  rw [← mem_entries_iff, filter, Option.filter_eq_some_iff, ← mem_entries_iff]
  simp

@[simp] theorem get_delete_self (m : JsMap κ ν) (k : κ) : (m.delete k).get k = none := by
  rw [delete, get_filter]
  simp

theorem get_delete_ne (m : JsMap κ ν) {k k' : κ} (h : k' ≠ k) :
    (m.delete k).get k' = m.get k' := by
  rw [delete, get_filter]
  cases m.get k' <;> simp [h]

theorem get_delete (m : JsMap κ ν) (k k' : κ) :
    (m.delete k).get k' = if k' = k then none else m.get k' := by
  split_ifs with h
  · rw [h, get_delete_self]
  · exact get_delete_ne m h

/-- Setting a key the map does not have adds an entry at the end. -/
theorem entries_set_new (m : JsMap κ ν) {k : κ} (v : ν) (h : m.get k = none) :
    (m.set k v).entries = m.entries ++ [(k, v)] := by
  obtain ⟨l, hl⟩ := m
  simp only [get, set] at h ⊢
  induction l with
  | nil => rfl
  | cons e l ih =>
    obtain ⟨k₀, v₀⟩ := e
    rw [lookup_cons_if] at h
    split_ifs at h with hk
    rw [put, if_neg (Ne.symm hk), ih (List.nodup_cons.mp hl).2 h, List.cons_append]

/-- A value may be replaced by one that looks the same. -/
theorem map_set {β : Type} (m : JsMap κ ν) (f : κ × ν → β) {k : κ} {v : ν} (v' : ν)
    (hv : m.get k = some v) (hf : f (k, v') = f (k, v)) :
    (m.set k v').entries.map f = m.entries.map f := by
  obtain ⟨l, hl⟩ := m
  simp only [get, set] at hv ⊢
  induction l with
  | nil => cases hv
  | cons e l ih =>
    obtain ⟨k₀, v₀⟩ := e
    rw [lookup_cons_if] at hv
    unfold put
    split_ifs at hv ⊢ with h h' h'
    · obtain rfl := Option.some.inj hv
      rw [List.map_cons, List.map_cons, hf, h']
    · exact absurd h.symm h'
    · exact absurd h'.symm h
    · rw [List.map_cons, List.map_cons, ih (List.nodup_cons.mp hl).2 hv]

/-- `new Map(l)`. -/
def ofList (l : List (κ × ν)) : JsMap κ ν := l.foldl (fun m e => m.set e.1 e.2) empty

/-- The last entry of a key is the one that stays. -/
theorem get_ofList (l : List (κ × ν)) (k : κ) : (ofList l).get k = l.reverse.lookup k := by
  induction l using List.reverseRecOn with
  | nil => rfl
  | append_singleton l e ih =>
    have hset : ofList (l ++ [e]) = (ofList l).set e.1 e.2 := List.foldl_concat ..
    rw [hset, get_set, ih, List.reverse_concat, lookup_cons_if]

/-- An entry, and what deleting its key leaves. -/
theorem entries_perm (m : JsMap κ ν) {k : κ} {v : ν} (hv : m.get k = some v) :
    m.entries.Perm ((k, v) :: (m.delete k).entries) := by
  have hnot : (k, v) ∉ (m.delete k).entries := fun hm => by
    rw [mem_entries_iff, get_delete_self] at hm
    cases hm
  have hnodup := List.nodup_cons.mpr ⟨hnot, (m.delete k).entries_nodup⟩
  refine (List.perm_ext_iff_of_nodup m.entries_nodup hnodup).mpr fun e => ?_
  obtain ⟨k', v'⟩ := e
  rw [List.mem_cons, mem_entries_iff, mem_entries_iff, get_delete, Prod.mk.injEq]
  split_ifs with h
  · simp [h, hv, eq_comm]
  · simp [h]

end JsMap

end OpsMaxx.Store

/-!
## Maps under other keys

A map whose keys are renamed, none to the name of another, is used as the map was.
-/

namespace OpsMaxx.Store.JsMap

variable {κ κ' ν ν' : Type}

def rekey (f : κ ↪ κ') (g : ν → ν') (m : JsMap κ ν) : JsMap κ' ν' where
  entries := m.entries.map fun e => (f e.1, g e.2)
  nodup := by
    have hkeys := m.nodup.map f.injective
    rwa [List.map_map] at hkeys ⊢

@[simp] theorem entries_rekey (f : κ ↪ κ') (g : ν → ν') (m : JsMap κ ν) :
    (m.rekey f g).entries = m.entries.map fun e => (f e.1, g e.2) := rfl

@[simp] theorem keys_rekey (f : κ ↪ κ') (g : ν → ν') (m : JsMap κ ν) :
    (m.rekey f g).keys = m.keys.map f := by
  simp [keys, Function.comp_def]

@[simp] theorem values_rekey (f : κ ↪ κ') (g : ν → ν') (m : JsMap κ ν) :
    (m.rekey f g).values = m.values.map g := by
  simp [values, Function.comp_def]

@[simp] theorem rekey_empty (f : κ ↪ κ') (g : ν → ν') : (empty : JsMap κ ν).rekey f g = empty := rfl

theorem rekey_congr {f f' : κ ↪ κ'} {g g' : ν → ν'} {m : JsMap κ ν}
    (h : ∀ e ∈ m.entries, f e.1 = f' e.1 ∧ g e.2 = g' e.2) : m.rekey f g = m.rekey f' g' := by
  apply ext_entries
  apply List.map_congr_left
  intro e he
  rw [(h e he).1, (h e he).2]

theorem rekey_filter {f : κ ↪ κ'} {g : ν → ν'} (p : κ → ν → Bool) (p' : κ' → ν' → Bool)
    (h : ∀ k v, p' (f k) (g v) = p k v) (m : JsMap κ ν) :
    (m.filter p).rekey f g = (m.rekey f g).filter p' := by
  apply ext_entries
  show (m.entries.filter _).map _ = (m.entries.map _).filter _
  rw [List.filter_map]
  congr 1
  apply List.filter_congr
  intro e _
  exact (h e.1 e.2).symm

variable [DecidableEq κ] [DecidableEq κ']

theorem lookup_map (f : κ ↪ κ') (g : ν → ν') (l : List (κ × ν)) (k : κ) :
    (l.map fun e => (f e.1, g e.2)).lookup (f k) = (l.lookup k).map g := by
  induction l with
  | nil => rfl
  | cons e l ih =>
    obtain ⟨k₀, v₀⟩ := e
    rw [List.map_cons, lookup_cons_if, lookup_cons_if, ih]
    simp only [f.injective.eq_iff]
    split_ifs <;> rfl

@[simp] theorem get_rekey (f : κ ↪ κ') (g : ν → ν') (m : JsMap κ ν) (k : κ) :
    (m.rekey f g).get (f k) = (m.get k).map g := lookup_map f g m.entries k

@[simp] theorem has_rekey (f : κ ↪ κ') (g : ν → ν') (m : JsMap κ ν) (k : κ) :
    (m.rekey f g).has (f k) = m.has k := by
  unfold has
  rw [get_rekey, Option.isSome_map]

theorem map_put (f : κ ↪ κ') (g : ν → ν') (l : List (κ × ν)) (k : κ) (v : ν) :
    (put l k v).map (fun e => (f e.1, g e.2)) =
      put (l.map fun e => (f e.1, g e.2)) (f k) (g v) := by
  induction l with
  | nil => rfl
  | cons e l ih =>
    obtain ⟨k₀, v₀⟩ := e
    rw [List.map_cons]
    unfold put
    simp only [f.injective.eq_iff]
    split_ifs
    · rfl
    · rw [List.map_cons, ih]

theorem rekey_set (f : κ ↪ κ') (g : ν → ν') (m : JsMap κ ν) (k : κ) (v : ν) :
    (m.set k v).rekey f g = (m.rekey f g).set (f k) (g v) :=
  ext_entries (map_put f g m.entries k v)

theorem rekey_delete (f : κ ↪ κ') (g : ν → ν') (m : JsMap κ ν) (k : κ) :
    (m.delete k).rekey f g = (m.rekey f g).delete (f k) := by
  apply rekey_filter
  intro k' _
  simp only [ne_eq, f.injective.eq_iff]

end OpsMaxx.Store.JsMap

/-!
## Lists filed under keys

A list is taken apart into the lists of one key each, in the order of the keys' first elements. Put
together again these lists are the list, up to its order.
-/

namespace OpsMaxx.Store.JsMap

variable {α κ : Type} [DecidableEq κ]

/-- One more element under a key. -/
def append (m : JsMap κ (List α)) (k : κ) (a : α) : JsMap κ (List α) :=
  m.set k ((m.get k).getD [] ++ [a])

def groupBy (key : α → κ) (l : List α) : JsMap κ (List α) :=
  l.foldl (fun m a => m.append (key a) a) empty

theorem groupBy_concat (key : α → κ) (l : List α) (a : α) :
    groupBy key (l ++ [a]) = (groupBy key l).append (key a) a := List.foldl_concat ..

/-- A key has the elements it is the key of, in their order. -/
theorem get_groupBy (key : α → κ) (l : List α) (k : κ) :
    ((groupBy key l).get k).getD [] = l.filter (key · = k) := by
  induction l using List.reverseRecOn with
  | nil => rfl
  | append_singleton l a ih =>
    rw [groupBy_concat, append, get_set, List.filter_append]
    by_cases h : k = key a
    · subst h
      simp [ih]
    · rw [if_neg h, ih, List.filter_cons_of_neg (by simpa using Ne.symm h), List.filter_nil,
        List.append_nil]

/-- No key is there for nothing. -/
theorem groupBy_ne_nil (key : α → κ) (l : List α) {k : κ} {g : List α}
    (h : (groupBy key l).get k = some g) : g ≠ [] := by
  induction l using List.reverseRecOn with
  | nil => cases h
  | append_singleton l a ih =>
    rw [groupBy_concat, append, get_set] at h
    split_ifs at h
    · obtain rfl := Option.some.inj h
      simp
    · exact ih h

theorem mem_groupBy {key : α → κ} {l : List α} {k : κ} {g : List α}
    (h : (k, g) ∈ (groupBy key l).entries) : g = l.filter (key · = k) ∧ g ≠ [] := by
  have hget := ((groupBy key l).mem_entries_iff).mp h
  have hfilter := get_groupBy key l k
  rw [hget] at hfilter
  exact ⟨hfilter, groupBy_ne_nil key l hget⟩

theorem put_concat_perm (l : List (κ × List α)) (k : κ) (a : α) :
    ((put l k ((l.lookup k).getD [] ++ [a])).flatMap Prod.snd).Perm (l.flatMap Prod.snd ++ [a]) := by
  induction l with
  | nil => simp [put]
  | cons e l ih =>
    obtain ⟨k', g⟩ := e
    rw [lookup_cons_if]
    by_cases h : k' = k
    · rw [if_pos h.symm, put, if_pos h]
      simp only [List.flatMap_cons, Option.getD_some, List.append_assoc]
      exact (List.perm_append_comm).append_left g
    · rw [if_neg (Ne.symm h), put, if_neg h]
      simp only [List.flatMap_cons, List.append_assoc]
      exact ih.append_left g

/-- The groups hold every element once. -/
theorem groupBy_perm (key : α → κ) (l : List α) :
    ((groupBy key l).entries.flatMap Prod.snd).Perm l := by
  induction l using List.reverseRecOn with
  | nil => exact List.Perm.nil
  | append_singleton l a ih =>
    rw [groupBy_concat]
    exact (put_concat_perm _ _ _).trans (ih.append_right [a])

/-- With distinct keys every entry is found. -/
theorem get_ofList_of_mem {ν : Type} {l : List (κ × ν)} (hl : (l.map Prod.fst).Nodup) {k : κ} {v : ν}
    (h : (k, v) ∈ l) : (ofList l).get k = some v := by
  have hnodup : (l.reverse.map Prod.fst).Nodup := by
    rw [List.map_reverse]
    exact List.nodup_reverse.mpr hl
  rw [get_ofList]
  exact (mem_entries_iff ⟨l.reverse, hnodup⟩).mp (List.mem_reverse.mpr h)

end OpsMaxx.Store.JsMap
