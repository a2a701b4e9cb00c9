import Mathlib.Data.List.Induction
import OpsMaxx.Trust.Moves

/-!
# Fields that came with a copy

What sync puts into a field is held until somebody here confirms the record or edits the field,
whatever arrives in between, and also where the trust file is damaged and rebuilt.
-/

set_option autoImplicit false

namespace OpsMaxx.Trust.Arrived
open OpsMaxx.Addy OpsMaxx.Machine

section Held
variable [Casing] [Digest] {kind k : HeldKind} {id f v : String}

/-- Which of `now` are still the values sync brought and nobody here confirmed. -/
def heldFields (disk : TrustOnDisk) (kind : HeldKind) (id : String) (now : Fields) : List String :=
  if (read disk).unreadable then now.map Prod.fst
  else
    match (read disk).marks kind id with
    | some m => (now.filter fun x => m.fields.lookup x.1 = some (hashOf kind id x.1 x.2)).map Prod.fst
    | none => []

def confirmRecord (data : Estate) (kind : HeldKind) (id : String) (disk : TrustOnDisk) : TrustOnDisk :=
  mutate data (fun t => t.setMark kind id none) disk

def valueOf (data : Estate) (kind : HeldKind) (id f : String) : Option String :=
  (lastWith (recordsOf (data kind)) id).bind fun r => fieldNow kind r.item f

/-- A device, and the fields whose values came with a copy. -/
structure State where
  device : Device
  came : HeldKind → String → String → Prop

/-- A copy lands behind its marks, the data is edited here, a record is confirmed, or the trust file
can no longer be read. -/
inductive Event where
  | synced (kind : HeldKind) (incoming : List Json)
  | edited (data : Estate)
  | confirmed (kind : HeldKind) (id : String)
  | damaged

def step (s : State) : Event → Option State
  | .synced kind incoming =>
    (markArrivals s.device.data kind (s.device.data kind) incoming s.device.disk).map fun disk =>
      let data := Function.update s.device.data kind incoming
      { device := ⟨disk, data⟩
        came := fun k id f => s.came k id f ∨ valueOf data k id f ≠ valueOf s.device.data k id f }
  | .edited data => some
      { device := { s.device with data := data }
        came := fun k id f => s.came k id f ∧ valueOf data k id f = valueOf s.device.data k id f }
  | .confirmed kind id => some
      { device := { s.device with disk := confirmRecord s.device.data kind id s.device.disk }
        came := fun k id' f => s.came k id' f ∧ ¬ (k = kind ∧ id' = id) }
  | .damaged => some { s with device := { s.device with disk := .damaged } }

/-! ## Marks of fields -/

def hashIn (t : TrustFile) (kind : HeldKind) (id f : String) : Option String :=
  (t.marks kind id).bind fun m => m.fields.lookup f

theorem lookup_nextMark (rec : Rec) (here : Option Rec) (prev : Option Mark) :
    ((nextMark kind rec here prev).bind fun m => m.fields.lookup f) =
      (brings kind rec here f).or (prev.bind fun m => m.fields.lookup f) := by
  have hlookup : (markFields kind rec here ((prev.map Mark.fields).getD [])).lookup f =
      (brings kind rec here f).or (prev.bind fun m => m.fields.lookup f) := by
    rw [lookup_markFields]
    cases prev <;> rfl
  unfold nextMark
  simp only
  split_ifs with h
  · exact hlookup
  · rw [← hlookup, lookup_markFields]
    obtain ⟨hbrings, hprev⟩ := markFields_eq_nil (not_not.mp (not_or.mp h).1) f
    rw [hbrings, hprev]
    cases prev with
    | none => rfl
    | some m => exact hprev

theorem marks_markRecords_ne (hk : k ≠ kind) (recs : List Rec) (here : Rec → Option Rec)
    (t : TrustFile) :
    (recs.foldl (fun t rec => markRecord kind rec (here rec) t) t).marks k id = t.marks k id := by
  induction recs generalizing t with
  | nil => rfl
  | cons rec recs ih => rw [List.foldl_cons, ih, marks_markRecord, if_neg fun h => hk h.1]

/-- Marked as if they had just arrived, all fields of the last record of an id are. -/
theorem hashIn_marked {recs : List Rec} (t : TrustFile)
    (h : ((lastWith recs id).bind fun r => fieldNow kind r.item f) = some v) :
    hashIn (recs.foldl (fun t rec => markRecord kind rec none t) t) kind id f =
      some (hashOf kind id f v) := by
  induction recs using List.reverseRecOn with
  | nil => cases h
  | append_singleton recs r ih =>
    have hlast : lastWith (recs ++ [r]) id = if r.id = id then some r else lastWith recs id := by
      unfold lastWith
      rw [List.reverse_append, List.reverse_singleton, List.singleton_append, List.find?_cons]
      split <;> simp_all
    rw [hlast] at h
    rw [List.foldl_append, List.foldl_cons, List.foldl_nil, hashIn, marks_markRecord]
    by_cases hid : r.id = id
    · subst hid
      rw [if_pos rfl, Option.bind_some] at h
      rw [if_pos ⟨rfl, rfl⟩, lookup_nextMark, brings, h]
      rfl
    · rw [if_neg hid] at h
      rw [if_neg fun hr => hid hr.2.symm]
      exact ih h

theorem hashIn_rebuilt (data : Estate) (t : TrustFile) (h : valueOf data k id f = some v) :
    hashIn (rebuilt data t) k id f = some (hashOf k id f v) := by
  have hne : ∀ {kind} (t : TrustFile), k ≠ kind → ∀ recs : List Rec,
      hashIn (recs.foldl (fun t rec => markRecord kind rec none t) t) k id f = hashIn t k id f :=
    fun t hk recs => by rw [hashIn, marks_markRecords_ne hk recs fun _ => none, hashIn]
  simp only [rebuilt, KINDS, List.foldl_cons, List.foldl_nil]
  cases k with
  | server => rw [hne _ (by decide), hne _ (by decide), hne _ (by decide), hashIn_marked _ h]
  | database => rw [hne _ (by decide), hne _ (by decide), hashIn_marked _ h]
  | cicd => rw [hne _ (by decide), hashIn_marked _ h]
  | vpn => exact hashIn_marked _ h

/-! ## Runs -/

/-- Every value that came with a copy has its hash in the file. -/
def Marked (t : TrustFile) (data : Estate) (came : HeldKind → String → String → Prop) : Prop :=
  ∀ k id f v, came k id f → valueOf data k id f = some v → hashIn t k id f = some (hashOf k id f v)

def Holding (s : State) : Prop :=
  (read s.device.disk).unreadable = false → Marked (read s.device.disk) s.device.data s.came

theorem Holding.opened {s : State} (h : Holding s) :
    Marked (opened s.device.data s.device.disk) s.device.data s.came := by
  intro k id f v hcame hv
  unfold Trust.opened
  split_ifs with hdamaged
  · exact hashIn_rebuilt _ _ hv
  · exact h (by simpa using hdamaged) k id f v hcame hv

/-- A copy lands behind its marks. -/
theorem Marked.landed {t : TrustFile} {data : Estate} {came : HeldKind → String → String → Prop}
    (h : Marked t data came) {incoming : List Json} (hok : acceptable [] incoming = true) :
    Marked (markAll kind (data kind) incoming t) (Function.update data kind incoming) fun k id f =>
      came k id f ∨ valueOf (Function.update data kind incoming) k id f ≠ valueOf data k id f := by
  intro k id f v hcame hv
  by_cases hk : k = kind
  · subst hk
    have hin : valueOf (Function.update data k incoming) k id f =
        (lastWith (recordsOf incoming) id).bind fun r => fieldNow k r.item f := by simp [valueOf]
    rw [hin] at hv hcame
    obtain ⟨rec, hrec, hv⟩ := Option.bind_eq_some_iff.mp hv
    rw [hashIn, marks_markAll _ _ _ _ hok, hrec]
    simp only
    rw [lookup_nextMark, brings, hv, (lastWith_id hrec).2]
    by_cases hsame : valueOf data k id f = some v
    · -- a value that is the same came before
      have hold := h k id f v (hcame.resolve_right (by simp [hrec, hv, hsame])) hsame
      rw [Option.bind_some]
      split_ifs
      · rfl
      · exact hold
    · rw [Option.bind_some, if_pos (.inr fun heq => hsame heq)]
      rfl
  · have hdata : valueOf (Function.update data kind incoming) k id f = valueOf data k id f := by
      simp [valueOf, hk]
    rw [hdata] at hv hcame
    rw [hashIn, markAll]
    simp only [hk, false_and, if_false]
    rw [marks_markRecords_ne hk _ fun rec => lastWith _ rec.id]
    exact h k id f v (hcame.resolve_right (by simp)) hv

theorem Holding.step {s s' : State} {e : Event} (h : Holding s)
    (hstep : Arrived.step s e = some s') : Holding s' := by
  cases e with
  | synced kind incoming =>
    obtain ⟨disk, hdisk, rfl⟩ := Option.map_eq_some_iff.mp hstep
    unfold markArrivals at hdisk
    split_ifs at hdisk with hok
    obtain rfl := Option.some.inj hdisk
    intro _
    rw [mutate_eq]
    exact h.opened.landed hok
  | edited data =>
    obtain rfl := Option.some.inj hstep
    exact fun hread k id f v hcame hv => h hread k id f v hcame.1 (hcame.2 ▸ hv)
  | confirmed kind id =>
    obtain rfl := Option.some.inj hstep
    intro _ k id' f v hcame hv
    simp only [confirmRecord, mutate_eq]
    change hashIn (TrustFile.setMark _ _ _ _) _ _ _ = _
    rw [hashIn, TrustFile.setMark_marks_ne _ _ (not_and_or.mp hcame.2)]
    exact h.opened k id' f v hcame.1 hv
  | damaged =>
    obtain rfl := Option.some.inj hstep
    exact fun hread => by cases hread

/-- In every run of copies that land, edits, confirmations and damage to the trust file, a field whose
value came with a copy, and which nobody has confirmed or edited since, is held. -/
theorem arrived_fields_held {s s' : State} {es : List Event} (hstart : ∀ k id f, ¬ s.came k id f)
    (hrun : Run step (fun _ _ => True) s es s') {rec : Rec}
    (hrec : lastWith (recordsOf (s'.device.data k)) id = some rec)
    (hv : fieldNow k rec.item f = some v) (hcame : s'.came k id f) :
    f ∈ heldFields s'.device.disk k id (fieldsNow k rec.item) := by
  have hheld : Holding s' := hrun.invariant (fun _ k id f _ hcame => absurd hcame (hstart k id f))
    fun _ _ _ h _ hstep => h.step hstep
  have hvalue : valueOf s'.device.data k id f = some v := by rw [valueOf, hrec, Option.bind_some, hv]
  have hmem : (f, v) ∈ fieldsNow k rec.item := by
    obtain ⟨before, after, hsplit, -⟩ := List.lookup_eq_some_iff.mp hv
    rw [hsplit]
    exact List.mem_append_right _ List.mem_cons_self
  unfold heldFields
  split_ifs with hread
  · exact List.mem_map_of_mem hmem
  · have hhash := hheld (by simpa using hread) k id f v hcame hvalue
    obtain ⟨m, hm, hlook⟩ := Option.bind_eq_some_iff.mp hhash
    rw [hm]
    exact List.mem_map.mpr ⟨(f, v), List.mem_filter.mpr ⟨hmem, by simpa using hlook⟩, rfl⟩

end Held

section Concrete

@[reducible] def plainDigest : Digest := ⟨Buffer.toText⟩

attribute [local instance] asciiCasing plainDigest

def linked (entry : String) : Json := .obj [("id", .str "web"), ("vaultEntryId", .str entry)]

def atHome : State where
  device := ⟨.absent, fun kind => if kind = .server then [linked "web-login"] else []⟩
  came _ _ _ := False

/-- A copy links a server to another credential, and the file with its mark is damaged. -/
theorem arrived_fields_held_damaged : ∃ s,
    Run step (fun _ _ => True) atHome [.synced .server [linked "root-key"], .damaged] s ∧
      "credential" ∈ heldFields s.device.disk .server "web" (fieldsNow .server (linked "root-key")) := by
  have hhome : Run step (fun _ _ => True) atHome [] atHome := .refl _
  have hlands := hhome.next (m := .synced .server [linked "root-key"]) trivial rfl
  have hdamaged := hlands.next (m := .damaged) trivial rfl
  have hrec : lastWith (recordsOf [linked "root-key"]) "web" =
      some ⟨linked "root-key", "web", rfl⟩ := rfl
  have hheld := arrived_fields_held (k := .server) (f := "credential") (v := "root-key")
    (fun _ _ _ h => h) hdamaged hrec rfl (.inr (by decide))
  exact ⟨_, hdamaged, hheld⟩

end Concrete

end OpsMaxx.Trust.Arrived
