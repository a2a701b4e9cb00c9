import OpsMaxx.History.Incidents
import OpsMaxx.History.Renaming
import OpsMaxx.History.Store

/-!
# The store and the store of servers by name

With each number read as the server interned under it, the rows of the store are the rows of the store
without numbers, and every move keeps them so.
-/

set_option autoImplicit false

namespace OpsMaxx.History
open OpsMaxx.Store OpsMaxx.Strings OpsMaxx.Machine

/-! ## Reading a number as a server -/

theorem Servers.unique_id {srv : Servers} {id id' : ℕ} {host : Text}
    (h : srv.rows.get id = some host) (h' : srv.rows.get id' = some host) : id = id' := by
  have hinj := List.inj_on_of_nodup_map srv.unique
  have heq := hinj (srv.rows.mem_entries_iff.mpr h) (srv.rows.mem_entries_iff.mpr h') rfl
  exact congrArg Prod.fst heq

theorem Servers.hostId_eq_some {srv : Servers} {host : Text} {id : ℕ} :
    srv.hostId host = some id ↔ srv.rows.get id = some host := by
  constructor
  · intro h
    obtain ⟨e, he, rfl⟩ := Option.map_eq_some_iff.mp h
    have hhost : e.2 = host := by simpa using List.find?_some he
    have hmem := List.mem_of_find?_eq_some he
    rw [← hhost]
    exact srv.rows.mem_entries_iff.mp hmem
  · intro h
    cases hid : srv.hostId host with
    | none =>
      have hmem : host ∈ srv.rows.values :=
        List.mem_map.mpr ⟨(id, host), srv.rows.mem_entries_iff.mpr h, rfl⟩
      exact absurd hmem (Servers.not_mem_values hid)
    | some id' =>
      obtain ⟨e, he, rfl⟩ := Option.map_eq_some_iff.mp hid
      have hhost : e.2 = host := by simpa using List.find?_some he
      have hget := srv.rows.mem_entries_iff.mp (List.mem_of_find?_eq_some he)
      rw [hhost] at hget
      rw [Servers.unique_id hget h]

/-- A number nobody is interned under stays a number. -/
def Servers.naming (srv : Servers) : ℕ ↪ ℕ ⊕ Text where
  toFun id := match srv.rows.get id with
    | some host => .inr host
    | none => .inl id
  inj' id id' h := by
    simp only at h
    cases hid : srv.rows.get id with
    | none =>
      cases hid' : srv.rows.get id' with
      | none =>
        rw [hid, hid'] at h
        exact Sum.inl.inj h
      | some host =>
        rw [hid, hid'] at h
        cases h
    | some host =>
      cases hid' : srv.rows.get id' with
      | none =>
        rw [hid, hid'] at h
        cases h
      | some host' =>
        rw [hid, hid'] at h
        exact Servers.unique_id hid (Sum.inr.inj h ▸ hid')

def byName : Text ↪ ℕ ⊕ Text := ⟨Sum.inr, Sum.inr_injective⟩

theorem Servers.naming_eq {srv : Servers} {id : ℕ} {host : Text} (h : srv.rows.get id = some host) :
    srv.naming id = byName host := by
  show (match srv.rows.get id with | some host => Sum.inr host | none => .inl id) = .inr host
  rw [h]

theorem Servers.of_naming_eq {srv : Servers} {id : ℕ} {host : Text} (h : srv.naming id = byName host) :
    srv.rows.get id = some host := by
  change (match srv.rows.get id with | some host => Sum.inr host | none => .inl id) = .inr host at h
  cases hid : srv.rows.get id with
  | none =>
    rw [hid] at h
    cases h
  | some host' =>
    rw [hid] at h
    rw [Sum.inr.inj h]

theorem Servers.getRight_naming (srv : Servers) (id : ℕ) : (srv.naming id).getRight? = srv.rows.get id := by
  show (match srv.rows.get id with | some host => Sum.inr host | none => .inl id : ℕ ⊕ Text).getRight? = _
  cases srv.rows.get id <;> rfl

/-! ## The servers of the rows -/

section Names
variable {α β : Type}

def Tables.Names (t : Tables α) (a : α) : Prop :=
  (∃ k ∈ t.samples.keys, k.2.1 = a) ∨ (∃ k ∈ t.samples_hourly.keys, k.2.1 = a) ∨
    (∃ e ∈ t.events.values, e.server = some a) ∨ ∃ k ∈ t.facts.keys, k.1 = a

def Memory.Names (m : Memory α) (a : α) : Prop :=
  m.tables.Names a ∨ ∃ k ∈ m.flapping.keys, k.1 = a

theorem Tables.names_map (f : α ↪ β) (t : Tables α) (b : β) :
    (t.map f).Names b ↔ ∃ a, t.Names a ∧ f a = b := by
  unfold Tables.Names
  simp only [Tables.map, JsMap.keys_rekey, JsMap.values_rekey, List.mem_map, exists_exists_and_eq_and]
  constructor
  · rintro (⟨k, hk, rfl⟩ | ⟨k, hk, rfl⟩ | ⟨e, he, hserver⟩ | ⟨k, hk, rfl⟩)
    · exact ⟨_, Or.inl ⟨k, hk, rfl⟩, rfl⟩
    · exact ⟨_, Or.inr (Or.inl ⟨k, hk, rfl⟩), rfl⟩
    · obtain ⟨a, ha, rfl⟩ := Option.map_eq_some_iff.mp hserver
      exact ⟨a, Or.inr (Or.inr (Or.inl ⟨e, he, ha⟩)), rfl⟩
    · exact ⟨_, Or.inr (Or.inr (Or.inr ⟨k, hk, rfl⟩)), rfl⟩
  · rintro ⟨a, ⟨k, hk, rfl⟩ | ⟨k, hk, rfl⟩ | ⟨e, he, hserver⟩ | ⟨k, hk, rfl⟩, rfl⟩
    · exact Or.inl ⟨k, hk, rfl⟩
    · exact Or.inr (Or.inl ⟨k, hk, rfl⟩)
    · exact Or.inr (Or.inr (Or.inl ⟨e, he, congrArg (Option.map f) hserver⟩))
    · exact Or.inr (Or.inr (Or.inr ⟨k, hk, rfl⟩))

theorem Memory.names_map (f : α ↪ β) (m : Memory α) (b : β) :
    (m.map f).Names b ↔ ∃ a, m.Names a ∧ f a = b := by
  unfold Memory.Names
  simp only [Memory.map, Tables.names_map, JsMap.keys_rekey, List.mem_map, exists_exists_and_eq_and]
  constructor
  · rintro (⟨a, ha, rfl⟩ | ⟨k, hk, rfl⟩)
    · exact ⟨a, Or.inl ha, rfl⟩
    · exact ⟨_, Or.inr ⟨k, hk, rfl⟩, rfl⟩
  · rintro ⟨a, ha | ⟨k, hk, rfl⟩, rfl⟩
    · exact Or.inl ⟨a, ha, rfl⟩
    · exact Or.inr ⟨k, hk, rfl⟩

theorem Tables.map_congr {f f' : α ↪ β} {t : Tables α} (h : ∀ a, t.Names a → f a = f' a) :
    t.map f = t.map f' := by
  unfold Tables.map
  congr 1
  · apply JsMap.rekey_congr
    intro e he
    have hname := h e.1.2.1 (Or.inl ⟨e.1, List.mem_map_of_mem he, rfl⟩)
    exact ⟨congrArg (fun b => (e.1.1, b, e.1.2.2)) hname, rfl⟩
  · apply JsMap.rekey_congr
    intro e he
    have hname := h e.1.2.1 (Or.inr (Or.inl ⟨e.1, List.mem_map_of_mem he, rfl⟩))
    exact ⟨congrArg (fun b => (e.1.1, b, e.1.2.2)) hname, rfl⟩
  · apply JsMap.rekey_congr
    intro e he
    refine ⟨rfl, ?_⟩
    unfold Event.map
    cases hserver : e.2.server with
    | none => rfl
    | some a =>
      have hname := h a (Or.inr (Or.inr (Or.inl ⟨e.2, List.mem_map_of_mem he, hserver⟩)))
      rw [Option.map_some, Option.map_some, hname]
  · apply JsMap.rekey_congr
    intro e he
    have hname := h e.1.1 (Or.inr (Or.inr (Or.inr ⟨e.1, List.mem_map_of_mem he, rfl⟩)))
    exact ⟨congrArg (fun b => (b, e.1.2)) hname, rfl⟩

theorem flapping_congr {f f' : α ↪ β} {flapping : JsMap (α × Text) Incident}
    (h : ∀ k ∈ flapping.keys, f k.1 = f' k.1) :
    flapping.rekey (factKey f) id = flapping.rekey (factKey f') id := by
  apply JsMap.rekey_congr
  intro e he
  exact ⟨congrArg (fun b => (b, e.1.2)) (h e.1 (List.mem_map_of_mem he)), rfl⟩

theorem Memory.map_congr {f f' : α ↪ β} {m : Memory α} (h : ∀ a, m.Names a → f a = f' a) :
    m.map f = m.map f' := by
  have htables := Tables.map_congr fun a ha => h a (Or.inl ha)
  have hflapping : m.flapping.rekey (factKey f) id = m.flapping.rekey (factKey f') id :=
    flapping_congr fun k hk => h k.1 (Or.inr ⟨k, hk, rfl⟩)
  unfold Memory.map
  rw [htables, hflapping]

end Names

/-! ## The two stores side by side -/

def Restores : Option Database → Option (Tables Text × JobTables) → Prop
  | some db, some rows => db.tables.map db.servers.naming = rows.1.map byName ∧ db.jobs = rows.2
  | none, none => True
  | _, _ => False

structure Mirrors (s : Store) (a : Named) : Prop where
  memory : s.memory.map s.db.servers.naming = a.memory.map byName
  cached : ∀ host id, s.hostIds.get host = some id → s.db.servers.rows.get id = some host
  filed : ∀ fact, (s.flapping.get fact).isSome → ∃ host, s.hostIds.get host = some fact.1
  depth : s.depth = a.depth
  begun : Restores s.begun a.begun

theorem mirrors_opened : Mirrors .opened .opened where
  memory := rfl
  cached _ _ h := by cases h
  filed _ h := by cases h
  depth := rfl
  begun := trivial

section Steps
variable {s : Store} {a : Named}

theorem Mirrors.names_iff (h : Mirrors s a) (host : Text) :
    a.memory.Names host ↔ ∃ id, s.memory.Names id ∧ s.db.servers.rows.get id = some host := by
  have hmap := Memory.names_map s.db.servers.naming s.memory (byName host)
  rw [h.memory, Memory.names_map] at hmap
  constructor
  · intro hname
    obtain ⟨id, hid, heq⟩ := hmap.mp ⟨host, hname, rfl⟩
    exact ⟨id, hid, Servers.of_naming_eq heq⟩
  · intro ⟨id, hid, hget⟩
    obtain ⟨host', hname, heq⟩ := hmap.mpr ⟨id, hid, Servers.naming_eq hget⟩
    rwa [← byName.injective heq]

/-- Every number in the rows is interned. -/
theorem Mirrors.interned (h : Mirrors s a) {id : ℕ} (hid : s.memory.Names id) :
    ∃ host, s.db.servers.rows.get id = some host := by
  have hmap := (Memory.names_map s.db.servers.naming s.memory _).mpr ⟨id, hid, rfl⟩
  rw [h.memory, Memory.names_map] at hmap
  obtain ⟨host, _, heq⟩ := hmap
  exact ⟨host, Servers.of_naming_eq heq.symm⟩

/-- Servers may be added. -/
theorem Mirrors.grow (h : Mirrors s a) {srv : Servers} {hostIds : JsMap Text ℕ}
    (hsrv : ∀ id host, s.db.servers.rows.get id = some host → srv.rows.get id = some host)
    (hnew : ∀ host id, hostIds.get host = some id → srv.rows.get id = some host)
    (hold : ∀ host id, s.hostIds.get host = some id → hostIds.get host = some id) :
    Mirrors { s with db := { s.db with servers := srv }, hostIds := hostIds } a where
  memory := by
    rw [← h.memory]
    apply Memory.map_congr
    intro id hid
    obtain ⟨host, hget⟩ := h.interned hid
    rw [Servers.naming_eq hget, Servers.naming_eq (hsrv _ _ hget)]
  cached := hnew
  filed fact hfact := by
    obtain ⟨host, hget⟩ := h.filed fact hfact
    exact ⟨host, hold _ _ hget⟩
  depth := h.depth
  begun := h.begun

theorem hostInsert_keeps (srv : Servers) (host : Text) {id : ℕ} {host' : Text}
    (h : srv.rows.get id = some host') : (srv.hostInsert host).rows.get id = some host' := by
  unfold Servers.hostInsert
  split
  · exact h
  · show (srv.rows.set _ _).get id = _
    rw [JsMap.get_set_ne, h]
    intro hid
    rw [hid, srv.fresh] at h
    cases h

theorem hostId_hostInsert (srv : Servers) (host : Text) :
    ∃ id, 0 < id ∧ (srv.hostInsert host).hostId host = some id := by
  have hget : ∃ id, (srv.hostInsert host).rows.get id = some host := by
    unfold Servers.hostInsert
    split
    · rename_i id hid
      exact ⟨id, Servers.hostId_eq_some.mp hid⟩
    · exact ⟨srv.seq + 1, JsMap.get_set_self _ _ _⟩
  obtain ⟨id, hid⟩ := hget
  have hmem : id ∈ (srv.hostInsert host).rows.keys :=
    (srv.hostInsert host).rows.mem_keys_iff.mpr (by rw [hid]; rfl)
  exact ⟨id, ((srv.hostInsert host).given id hmem).1, Servers.hostId_eq_some.mpr hid⟩

/-- An interned host is remembered under its number, and nothing else moves. -/
theorem mirrors_internHost (h : Mirrors s a) (host : Text) :
    Mirrors (s.internHost host).1 a ∧ (s.internHost host).1.memory = s.memory ∧
      (s.internHost host).1.hostIds.get host = some (s.internHost host).2 := by
  unfold Store.internHost
  cases hcached : s.hostIds.get host with
  | some id => exact ⟨h, rfl, hcached⟩
  | none =>
    obtain ⟨id, hpos, hid⟩ := hostId_hostInsert s.db.servers host
    simp only [hid, Option.getD_some, if_pos hpos]
    refine ⟨h.grow (fun id' host' => hostInsert_keeps _ _) ?_ ?_, rfl, JsMap.get_set_self _ _ _⟩
    · intro host' id' hget
      rw [JsMap.get_set] at hget
      split_ifs at hget with heq
      · subst heq
        obtain rfl := Option.some.inj hget
        exact Servers.hostId_eq_some.mp hid
      · exact hostInsert_keeps _ _ (h.cached _ _ hget)
    · intro host' id' hget
      rw [JsMap.get_set_ne]
      · exact hget
      · intro heq
        rw [heq, hcached] at hget
        cases hget

theorem lookupHost_snd (h : Mirrors s a) (host : Text) {id : ℕ} :
    (s.lookupHost host).2 = some id ↔ s.db.servers.rows.get id = some host := by
  unfold Store.lookupHost
  cases hcached : s.hostIds.get host with
  | some id' =>
    have hget := h.cached _ _ hcached
    simp only [Option.some.injEq]
    constructor
    · intro heq
      rwa [← heq]
    · intro hget'
      exact Servers.unique_id hget hget'
  | none =>
    rw [← Servers.hostId_eq_some]
    cases s.db.servers.hostId host <;> simp

theorem mirrors_lookupHost (h : Mirrors s a) (host : Text) :
    Mirrors (s.lookupHost host).1 a ∧ (s.lookupHost host).1.memory = s.memory := by
  unfold Store.lookupHost
  cases hcached : s.hostIds.get host with
  | some id => exact ⟨h, rfl⟩
  | none =>
    cases hid : s.db.servers.hostId host with
    | none => exact ⟨h, rfl⟩
    | some id =>
      have hsame : ∀ id' host', s.db.servers.rows.get id' = some host' →
          s.db.servers.rows.get id' = some host' := fun _ _ hget => hget
      refine ⟨h.grow hsame ?_ ?_, rfl⟩
      · intro host' id' hget
        rw [JsMap.get_set] at hget
        split_ifs at hget with heq
        · subst heq
          obtain rfl := Option.some.inj hget
          exact Servers.hostId_eq_some.mp hid
        · exact h.cached _ _ hget
      · intro host' id' hget
        rw [JsMap.get_set_ne]
        · exact hget
        · intro heq
          rw [heq, hcached] at hget
          cases hget

end Steps

end OpsMaxx.History
