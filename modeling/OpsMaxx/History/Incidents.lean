import OpsMaxx.History.Memory

/-!
# Incidents and their events

An incident remembers its event by a rowid, and rowids are given again. It stays the owner of its event as
long as no other event is written under a rowid it remembers.
-/

set_option autoImplicit false

namespace OpsMaxx.History
open OpsMaxx.Store OpsMaxx.Strings
variable {α : Type}

/-! ## Rowids -/

theorem le_foldl_max (l : List ℕ) (n : ℕ) : n ≤ l.foldl max n ∧ ∀ k ∈ l, k ≤ l.foldl max n := by
  induction l generalizing n with
  | nil => simp
  | cons k l ih =>
    have hle := ih (max n k)
    rw [List.foldl_cons]
    refine ⟨le_trans (le_max_left n k) hle.1, fun k' hk' => ?_⟩
    rcases List.mem_cons.mp hk' with rfl | hk'
    · exact le_trans (le_max_right n _) hle.1
    · exact hle.2 k' hk'

theorem lt_nextRowid {t : Tables α} {id : ℕ} {e : Event α} (h : t.events.get id = some e) :
    id < nextRowid t := by
  have hmem : id ∈ t.events.keys := t.events.mem_keys_iff.mpr (by rw [h]; rfl)
  exact Nat.lt_succ_of_le ((le_foldl_max _ 0).2 id hmem)

theorem get_nextRowid (t : Tables α) : t.events.get (nextRowid t) = none := by
  cases h : t.events.get (nextRowid t) with
  | none => rfl
  | some e => exact absurd (lt_nextRowid h) (lt_irrefl _)

theorem nextRowid_eventInsert (t : Tables α) (e : Event α) :
    nextRowid (eventInsert t e) = nextRowid t + 1 := by
  have hentries := t.events.entries_set_new e (get_nextRowid t)
  show ((t.events.set (nextRowid t) e).entries.map Prod.fst).foldl max 0 + 1 = _
  rw [hentries, List.map_append, List.foldl_append]
  show max (t.events.keys.foldl max 0) (nextRowid t) + 1 = _
  unfold nextRowid
  omega

theorem nextRowid_eventRewrite {t t' : Tables α} {id : ℕ} {ts : ℚ} {payload : Payload}
    (h : eventRewrite t id ts payload = some t') : nextRowid t' = nextRowid t := by
  unfold eventRewrite at h
  obtain ⟨e, he, rfl⟩ := Option.map_eq_some_iff.mp h
  have hkeys := t.events.map_set Prod.fst { e with ts := ts, payload := payload } he rfl
  show ((t.events.set id _).entries.map Prod.fst).foldl max 0 + 1 = _
  rw [hkeys]
  rfl

theorem get_eventRewrite {t t' : Tables α} {id : ℕ} {ts : ℚ} {payload : Payload}
    (h : eventRewrite t id ts payload = some t') {id' : ℕ} {e' : Event α}
    (he' : t'.events.get id' = some e') : ∃ e, t.events.get id' = some e ∧ e'.kind = e.kind ∧
      e'.server = e.server ∧ (e'.payload = e.payload ∨ id' = id ∧ e'.payload = payload) := by
  unfold eventRewrite at h
  obtain ⟨e, he, rfl⟩ := Option.map_eq_some_iff.mp h
  have hset := t.events.get_set id id' { e with ts := ts, payload := payload }
  rw [hset] at he'
  split_ifs at he' with hid
  · subst hid
    obtain rfl := Option.some.inj he'
    exact ⟨e, he, rfl, rfl, Or.inr ⟨rfl, rfl⟩⟩
  · exact ⟨e', he', rfl, rfl, Or.inl rfl⟩

/-! ## Owners -/

/-- A change of one fact of one server. -/
def Event.changes (e : Event α) (fact : α × Text) : Prop :=
  e.kind = factChanged ∧ e.server = some fact.1 ∧ ∃ was now flaps, e.payload = .change fact.2 was now flaps

theorem Event.changes_unique {e : Event α} {fact fact' : α × Text} (h : e.changes fact)
    (h' : e.changes fact') : fact = fact' := by
  obtain ⟨_, hserver, was, now, flaps, hpayload⟩ := h
  obtain ⟨_, hserver', was', now', flaps', hpayload'⟩ := h'
  have hfst := Option.some.inj (hserver.symm.trans hserver')
  have hsnd := (Payload.change.inj (hpayload.symm.trans hpayload')).1
  exact Prod.ext hfst hsnd

section Owners
variable [DecidableEq α]

/-- The event of every incident is a change of the incident's fact, if it is there. -/
def Memory.Own (m : Memory α) : Prop :=
  ∀ fact incident e, m.flapping.get fact = some incident → m.tables.events.get incident.id = some e →
    e.changes fact

/-- The fact whose incident a statement puts in place of the last. -/
def Stmt.owner : Stmt α → Option (α × Text)
  | .eventChange server key _ _ _ => some (server, key)
  | _ => none

def Stmt.inserts : Stmt α → Bool
  | .eventInsert _ => true
  | .eventChange _ _ _ _ _ => true
  | _ => false

def Stmt.deletes : Stmt α → Bool
  | .dropTier _ _ => true
  | _ => false

/-- No incident, other than of one fact, remembers a rowid that may be given again. -/
def Memory.Clear (m : Memory α) (owner : Option (α × Text)) : Prop :=
  ∀ fact incident, m.flapping.get fact = some incident → owner ≠ some fact →
    incident.id < nextRowid m.tables

/-- The statements write no event under a rowid remembered for another. -/
def Memory.Spared (m : Memory α) (stmts : List (Stmt α)) : Prop :=
  ∀ stmt ∈ stmts, stmt.inserts = true → m.Clear stmt.owner

theorem get_prune {flapping : JsMap (α × Text) Incident} {at' : ℚ} {fact : α × Text}
    {incident : Incident} (h : (prune flapping at').get fact = some incident) :
    flapping.get fact = some incident := by
  unfold prune at h
  split_ifs at h
  · rw [JsMap.get_filter] at h
    exact (Option.filter_eq_some_iff.mp h).1
  · exact h

omit [DecidableEq α] in
theorem get_eventInsert {t : Tables α} {e e' : Event α} {id : ℕ}
    (h : (eventInsert t e).events.get id = some e') :
    id = nextRowid t ∧ e' = e ∨ id < nextRowid t ∧ t.events.get id = some e' := by
  have hset := t.events.get_set (nextRowid t) id e
  have h' := hset.symm.trans h
  split_ifs at h' with hid
  · exact Or.inl ⟨hid, (Option.some.inj h').symm⟩
  · exact Or.inr ⟨lt_nextRowid h', h'⟩

theorem own_rewriteEvent {m : Memory α} (hown : m.Own) (server : α) (key value : Text) (at' : ℚ) :
    (rewriteEvent m server key value at').Own := by
  unfold rewriteEvent
  cases hincident : m.flapping.get (server, key) with
  | none => exact hown
  | some incident =>
    simp only
    cases hrewrite : eventRewrite m.tables incident.id at'
        (.change key incident.was value (some (incident.count + 1))) with
    | none => exact hown
    | some t =>
      intro fact incident' e' hfact he'
      simp only [JsMap.get_set] at hfact
      obtain ⟨e, he, hkind, hserver, hpayload⟩ := get_eventRewrite hrewrite he'
      have hbefore : e.changes fact := by
        split_ifs at hfact with hkey
        · subst hkey
          obtain rfl := Option.some.inj hfact
          exact hown _ _ _ hincident he
        · exact hown _ _ _ hfact he
      obtain ⟨hk, hs, hp⟩ := hbefore
      refine ⟨hkind.trans hk, hserver.trans hs, ?_⟩
      rcases hpayload with hpayload | ⟨hid, hpayload⟩
      · rw [hpayload]
        exact hp
      · have hself := hown _ _ _ hincident (hid ▸ he)
        obtain rfl := Event.changes_unique hself ⟨hk, hs, hp⟩
        exact ⟨_, _, _, hpayload⟩

theorem own_changeEvent {m : Memory α} (hown : m.Own) {server : α} {key : Text}
    (hclear : m.Clear (some (server, key))) (was value : Text) (at' : ℚ) :
    (changeEvent m server key was value at').Own := by
  intro fact incident e hfact he
  simp only [changeEvent, JsMap.get_set] at hfact
  split_ifs at hfact with hkey
  · subst hkey
    obtain rfl := Option.some.inj hfact
    rcases get_eventInsert he with ⟨_, rfl⟩ | ⟨hlt, _⟩
    · exact ⟨rfl, rfl, _, _, _, rfl⟩
    · exact absurd hlt (lt_irrefl _)
  · have hbefore := get_prune hfact
    rcases get_eventInsert he with ⟨hid, _⟩ | ⟨_, he⟩
    · have hlt := hclear _ _ hbefore fun h => hkey (Option.some.inj h).symm
      omega
    · exact hown _ _ _ hbefore he

theorem own_run {m : Memory α} (hown : m.Own) {stmt : Stmt α}
    (hclear : stmt.inserts = true → m.Clear stmt.owner) : (stmt.run m).Own := by
  cases stmt with
  | eventInsert e =>
    intro fact incident e' hfact he'
    rcases get_eventInsert he' with ⟨hid, _⟩ | ⟨_, he'⟩
    · have hlt := hclear rfl _ _ hfact (by intro h; cases h)
      omega
    · exact hown _ _ _ hfact he'
  | eventRewrite server key value at' => exact own_rewriteEvent hown server key value at'
  | forget server key =>
    intro fact incident e hfact he
    simp only [Stmt.run, JsMap.get_delete] at hfact
    split_ifs at hfact
    exact hown _ _ _ hfact he
  | eventChange server key was value at' => exact own_changeEvent hown (hclear rfl) was value at'
  | dropTier tier now =>
    intro fact incident e hfact he
    simp only [Stmt.run, dropEvents, JsMap.get_filter] at he
    exact hown _ _ _ hfact (Option.filter_eq_some_iff.mp he).1
  | _ => exact hown

theorem clear_run {m : Memory α} {stmt : Stmt α} (hkeeps : stmt.deletes = false)
    (hins : stmt.inserts = true → m.Clear stmt.owner) {owner : Option (α × Text)}
    (hclear : m.Clear owner) : (stmt.run m).Clear owner := by
  cases stmt with
  | eventInsert e =>
    intro fact incident hfact hne
    have hlt := hclear _ _ hfact hne
    show incident.id < nextRowid (eventInsert m.tables e)
    rw [nextRowid_eventInsert]
    omega
  | eventRewrite server key value at' =>
    simp only [Stmt.run]
    unfold rewriteEvent
    cases hincident : m.flapping.get (server, key) with
    | none => exact hclear
    | some incident =>
      simp only
      cases hrewrite : eventRewrite m.tables incident.id at'
          (.change key incident.was value (some (incident.count + 1))) with
      | none => exact hclear
      | some t =>
        intro fact incident' hfact hne
        simp only [JsMap.get_set] at hfact
        simp only [nextRowid_eventRewrite hrewrite]
        split_ifs at hfact with hkey
        · subst hkey
          obtain rfl := Option.some.inj hfact
          exact hclear _ incident hincident hne
        · exact hclear _ _ hfact hne
  | forget server key =>
    intro fact incident hfact hne
    simp only [Stmt.run, JsMap.get_delete] at hfact
    split_ifs at hfact
    exact hclear _ _ hfact hne
  | eventChange server key was value at' =>
    intro fact incident hfact hne
    simp only [Stmt.run, changeEvent, JsMap.get_set, nextRowid_eventInsert] at hfact ⊢
    split_ifs at hfact with hkey
    · obtain rfl := Option.some.inj hfact
      exact Nat.lt_succ_self _
    · exact Nat.lt_succ_of_lt (hins rfl _ _ (get_prune hfact) fun h => hkey (Option.some.inj h).symm)
  | dropTier tier now => cases hkeeps
  | _ => exact hclear

/-- Over a whole list of statements that deletes no event, or writes none. -/
theorem own_exec {m : Memory α} (hown : m.Own) {stmts : List (Stmt α)} (hspared : m.Spared stmts)
    (hsort : (∀ stmt ∈ stmts, stmt.deletes = false) ∨ ∀ stmt ∈ stmts, stmt.inserts = false) :
    (exec m stmts).Own := by
  induction stmts generalizing m with
  | nil => exact hown
  | cons stmt stmts ih =>
    have hfirst := hspared stmt List.mem_cons_self
    apply ih (own_run hown hfirst)
    · intro next hnext hins
      rcases hsort with hsort | hsort
      · exact clear_run (hsort stmt List.mem_cons_self) hfirst
          (hspared next (List.mem_cons_of_mem _ hnext) hins)
      · rw [hsort next (List.mem_cons_of_mem _ hnext)] at hins
        cases hins
    · exact hsort.imp (fun h s hs => h s (List.mem_cons_of_mem _ hs))
        fun h s hs => h s (List.mem_cons_of_mem _ hs)

/-- Only a change of a fact files an incident. -/
theorem mem_flapping_run {m : Memory α} {stmt : Stmt α} {fact : α × Text}
    (h : ((stmt.run m).flapping.get fact).isSome) :
    (m.flapping.get fact).isSome ∨ stmt.owner = some fact := by
  cases stmt with
  | eventRewrite server key value at' =>
    left
    simp only [Stmt.run] at h
    unfold rewriteEvent at h
    cases hincident : m.flapping.get (server, key) with
    | none =>
      rw [hincident] at h
      exact h
    | some incident =>
      rw [hincident] at h
      simp only at h
      cases hrewrite : eventRewrite m.tables incident.id at'
          (.change key incident.was value (some (incident.count + 1))) with
      | none =>
        rw [hrewrite] at h
        exact h
      | some t =>
        rw [hrewrite] at h
        simp only [JsMap.get_set] at h
        split_ifs at h with hkey
        · rw [hkey, hincident]
          rfl
        · exact h
  | forget server key =>
    left
    simp only [Stmt.run, JsMap.get_delete] at h
    split_ifs at h
    · cases h
    · exact h
  | eventChange server key was value at' =>
    simp only [Stmt.run, changeEvent, JsMap.get_set] at h
    split_ifs at h with hkey
    · exact Or.inr (congrArg some hkey.symm)
    · left
      obtain ⟨incident, hincident⟩ := Option.isSome_iff_exists.mp h
      rw [get_prune hincident]
      rfl
  | _ => exact Or.inl h

theorem mem_flapping_exec {m : Memory α} {stmts : List (Stmt α)} {fact : α × Text}
    (h : ((exec m stmts).flapping.get fact).isSome) :
    (m.flapping.get fact).isSome ∨ ∃ stmt ∈ stmts, stmt.owner = some fact := by
  induction stmts generalizing m with
  | nil => exact Or.inl h
  | cons stmt stmts ih =>
    rcases ih h with h | ⟨next, hnext, howner⟩
    · rcases mem_flapping_run h with h | howner
      · exact Or.inl h
      · exact Or.inr ⟨stmt, List.mem_cons_self, howner⟩
    · exact Or.inr ⟨next, List.mem_cons_of_mem _ hnext, howner⟩

end Owners

end OpsMaxx.History
