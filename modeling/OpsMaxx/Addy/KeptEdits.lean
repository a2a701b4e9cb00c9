import OpsMaxx.Addy.Sync

/-! # No pass destroys a local edit

When a pass overwrites the bytes of a collection, they are bytes the device had agreed about, or
nothing yet, or merged into what the relay has just stored, or kept on the relay as a conflict copy.
There is one way to break this: `conflictWithRemote` does not keep a copy against an ETag a copy was
already kept for, whatever that copy was of. `OverwritesUnkept` is the answer of the relay that
takes it there.
-/

set_option autoImplicit false

namespace OpsMaxx.Addy

open OpsMaxx.Interact

/-! ## What a pass has done so far -/

/-- The agreements a pass started from; the relay's answers about the collection it is at; what the
relay last stored of that collection; and every conflict copy the relay has ever accepted. -/
structure KeptLog where
  loaded : SyncState
  answers : List (Option RemoteObject)
  just : Option Buffer
  kept : List (SyncedCollection × Buffer)

def KeptLog.observe (w : Shore) (g : KeptLog) : (o : Op) → o.Reply → KeptLog
  | .loadStateFile, file => { g with loaded := loadState file (some w.account) }
  | .epoch, _ => { g with answers := [], just := none }
  | .getObject _ _, .ok answer => { g with answers := g.answers ++ [answer] }
  | .putObject _ _ _ object _, .ok _ => { g with just := some object.plaintext.body }
  | .keepConflict name _ _ object, .ok _ => { g with kept := (name, object.plaintext.body) :: g.kept }
  | _, _ => g

section Claim
variable [Digest]

/-- Overwriting the bytes of this collection destroys nothing. -/
def Excused (name : SyncedCollection) (w : Shore) (g : KeptLog) : Prop :=
  ∀ b, w.disk name = some b →
    (∃ known, g.loaded.collections name = some known ∧ hash b = known.localHash) ∨
    (g.loaded.collections name = none ∧ isEmptyish b = true) ∨
    (∃ base there m, g.just = some m.merged ∧ mergeCollections base b there = some m) ∨
    (name, b) ∈ g.kept

/-- The answer of the relay that makes `conflictWithRemote` overwrite bytes nothing has kept. Its
own read is the second one of a collection the first found nothing of, and the third of any other. -/
def OverwritesUnkept (name : SyncedCollection) (w : Shore) (g : KeptLog) (fresh : RemoteObject) :
    Prop :=
  (g.answers = [none] ∨ g.answers.length = 2) ∧
  ∃ known b, g.loaded.collections name = some known ∧ w.disk name = some b ∧
    known.conflictedEtag = some fresh.etag ∧ fresh.body.plaintext ≠ .payload b ∧
    hash b ≠ known.localHash ∧ (name, b) ∉ g.kept

/-- The answers of the relay to a read are among those `allow` permits. -/
def Permits (allow : SyncedCollection → Shore → KeptLog → RemoteObject → Prop) (w : Shore)
    (g : KeptLog) : (o : Op) → o.Reply → Prop
  | .getObject name _, .ok (some fresh) => allow name w g fresh
  | _, _ => True

/-- The surroundings of a pass: the state may be forgotten while it awaits, no edit is made, and
what it overwrites has to be excused. -/
def keptWorld (allow : SyncedCollection → Shore → KeptLog → RemoteObject → Prop) :
    Surroundings (Shore × KeptLog) Op Op.Reply where
  drift o w w' := Meanwhile Forgets o w.1 w'.1 ∧ w'.2 = w.2
  demand o w := ∀ name body, o = .write name body → Excused name w.1 w.2
  reply w o r w' := Serves w.1 o r w'.1 ∧ w'.2 = w.2.observe w.1 o r ∧ Permits allow w.1 w.2 o r
  drift_refl _ _ := ⟨.refl _ _ _, rfl⟩
  drift_trans _ _ _ _ h h' := ⟨h.1.trans h'.1, h'.2.trans h.2⟩

/-- Every answer but the one that overwrites what nothing has kept. -/
abbrev keptSafely : Surroundings (Shore × KeptLog) Op Op.Reply :=
  keptWorld fun name w g fresh => ¬ OverwritesUnkept name w g fresh

end Claim

/-! ## The parts of a pass -/

/-- A stretch of a pass that overwrites nothing and reads nothing from the relay. -/
structure Quiet (w w' : Shore × KeptLog) : Prop where
  disk : w'.1.disk = w.1.disk
  loaded : w'.2.loaded = w.2.loaded
  answers : w'.2.answers = w.2.answers
  kept : ∀ x ∈ w.2.kept, x ∈ w'.2.kept

theorem Quiet.trans {w₁ w₂ w₃ : Shore × KeptLog} (h : Quiet w₁ w₂) (h' : Quiet w₂ w₃) :
    Quiet w₁ w₃ :=
  ⟨h'.disk.trans h.disk, h'.loaded.trans h.loaded, h'.answers.trans h.answers,
    fun x hx => h'.kept x (h.kept x hx)⟩

theorem Meanwhile.disk_eq {o : Op} {w w' : Shore} (h : Meanwhile Forgets o w w') :
    w'.disk = w.disk :=
  h.keeps (I := fun v => v.disk = w.disk) (fun _ _ hf hv => hf.disk_eq.trans hv) rfl

/-- The requests that neither write the collection nor read it from the relay. -/
def Op.quiet : Op → Bool
  | .write .. | .getObject .. | .loadStateFile | .epoch => false
  | _ => true

theorem Serves.disk_eq {o : Op} {r : o.Reply} {w w' : Shore} (ho : o.quiet = true)
    (h : Serves w o r w') : w'.disk = w.disk := by
  cases o with
  | saveStateFile s => cases r <;> simp_all [Serves]
  | write name body => cases ho
  | _ => simp_all [Serves]

theorem KeptLog.observe_quiet {o : Op} (r : o.Reply) (w : Shore) (g : KeptLog)
    (ho : o.quiet = true) :
    (g.observe w o r).loaded = g.loaded ∧ (g.observe w o r).answers = g.answers ∧
      ∀ x ∈ g.kept, x ∈ (g.observe w o r).kept := by
  cases o with
  | putObject => cases r <;> exact ⟨rfl, rfl, fun _ h => h⟩
  | keepConflict =>
    cases r with
    | ok => exact ⟨rfl, rfl, fun _ h => List.mem_cons_of_mem _ h⟩
    | error => exact ⟨rfl, rfl, fun _ h => h⟩
  | write | getObject | loadStateFile | epoch => cases ho
  | _ => exact ⟨rfl, rfl, fun _ h => h⟩

/-- What going through a collection leaves of the agreements: those about the others. -/
structure Done (name : SyncedCollection) (s : SyncState) (w : Shore × KeptLog) (s' : SyncState)
    (w' : Shore × KeptLog) : Prop where
  loaded : w'.2.loaded = w.2.loaded
  others : ∀ n ≠ name, s'.collections n = s.collections n

theorem Done.refl (name : SyncedCollection) (s : SyncState) (w : Shore × KeptLog) :
    Done name s w s w :=
  ⟨rfl, fun _ _ => rfl⟩

section Done
variable {name : SyncedCollection} {s s' : SyncState} {w w' w'' : Shore × KeptLog}

theorem Done.after (h : Done name s w s' w') (hl : w''.2.loaded = w'.2.loaded) :
    Done name s w s' w'' :=
  ⟨hl.trans h.loaded, h.others⟩

theorem Done.trans {s'' : SyncState} (h : Done name s w s' w') (h' : Done name s' w' s'' w'') :
    Done name s w s'' w'' :=
  ⟨h'.loaded.trans h.loaded, fun n hn => (h'.others n hn).trans (h.others n hn)⟩

theorem Done.record (h : Done name s w s' w') (entry : CollectionState) :
    Done name s w (s'.record name entry) w' :=
  ⟨h.loaded, fun n hn => (SyncState.record_collections_ne _ _ hn).trans (h.others n hn)⟩

end Done

/-- In the middle of one collection, before anything is overwritten: the bytes `here` are on disk, and
`known` is what the device remembers. -/
structure Reading (name : SyncedCollection) (here : Buffer) (known : Option CollectionState)
    (s : SyncState) (w : Shore × KeptLog) : Prop where
  disk : w.1.disk name = some here
  loaded : w.2.loaded.collections name = known
  state : s.collections name = known

theorem Reading.quiet {name : SyncedCollection} {here : Buffer} {known : Option CollectionState}
    {s : SyncState} {w w' : Shore × KeptLog} (h : Reading name here known s w) (hq : Quiet w w') :
    Reading name here known s w' :=
  ⟨by rw [hq.disk]; exact h.disk, by rw [hq.loaded]; exact h.loaded, h.state⟩

section Proofs
variable [Digest]

theorem quiet_of_drift {o : Op} {w w' : Shore × KeptLog} (h : keptSafely.drift o w w') :
    Quiet w w' :=
  ⟨h.1.disk_eq, by rw [h.2], by rw [h.2], fun _ hx => by rw [h.2]; exact hx⟩

theorem quiet_of_reply {o : Op} {r : o.Reply} {w w' : Shore × KeptLog} (ho : o.quiet = true)
    (h : keptSafely.reply w o r w') : Quiet w w' := by
  obtain ⟨hs, hg, -⟩ := h
  obtain ⟨h₁, h₂, h₃⟩ := KeptLog.observe_quiet r w.1 w.2 ho
  exact ⟨hs.disk_eq ho, by rw [hg, h₁], by rw [hg, h₂], by rw [hg]; exact h₃⟩

variable {α : Type} {s : SyncState} {w : Shore × KeptLog}
variable {Q : Except Failure α → SyncState → Shore × KeptLog → Prop}

/-- A request that neither writes nor reads from the relay. -/
theorem wp_quiet {o : Op} {f : o.Reply → Except Failure α} (ho : o.quiet = true)
    (h : ∀ r w₁ w', Quiet w w₁ → keptSafely.reply w₁ o r w' → Quiet w w' → Q (f r) s w') :
    Proc.wp keptSafely (Proc.request o f) Q s w := by
  rw [Proc.wp_request]
  intro w₁ hd
  refine ⟨?_, fun r w₂ hr => ?_⟩
  · rintro name body rfl
    cases ho
  · have hq := quiet_of_drift hd
    exact h r w₁ w₂ hq hr (hq.trans (quiet_of_reply ho hr))

/-- A request that is served at once. -/
theorem wp_atOnce {o : Op} {f : o.Reply → Except Failure α} (ho : o.awaited = false)
    (hdemand : keptSafely.demand o w) (h : ∀ r w', keptSafely.reply w o r w' → Q (f r) s w') :
    Proc.wp keptSafely (Proc.request o f) Q s w := by
  rw [Proc.wp_request]
  rintro ⟨v, g⟩ ⟨hv, rfl⟩
  obtain rfl : v = w.1 := by simpa [Meanwhile, ho] using hv
  exact ⟨hdemand, fun r w₂ hr => h r w₂ hr⟩

theorem wp_putSealed {name : SyncedCollection} {epoch counter : Nat} {payload : Buffer}
    {ifMatch : Option String} {Q : Except Failure String → SyncState → Shore × KeptLog → Prop}
    (h : ∀ x w', Quiet w w' → (∀ etag, x = .ok etag → w'.2.just = some payload) → Q x s w') :
    Proc.wp keptSafely (putSealed name epoch counter payload ifMatch) Q s w := by
  simp only [putSealed, Proc.wp_bind]
  refine wp_quiet rfl fun r w₁ w₂ _ hr hq => ?_
  cases r with
  | error e => exact h _ _ hq (by simp)
  | ok object =>
    obtain rfl := hr.1.1 object rfl
    refine wp_quiet rfl fun r w₃ w₄ _ hr' hq' => h _ _ (hq.trans hq') ?_
    rintro etag rfl
    rw [hr'.2.1]
    rfl

theorem wp_keepAsConflict {name : SyncedCollection} {epoch counter : Nat} {payload : Buffer}
    {reason : Option ConflictReason}
    {Q : Except Failure Unit → SyncState → Shore × KeptLog → Prop}
    (h : ∀ x w', Quiet w w' → (x = .ok () → (name, payload) ∈ w'.2.kept) → Q x s w') :
    Proc.wp keptSafely (keepAsConflict name epoch counter payload reason) Q s w := by
  simp only [keepAsConflict, sealConflict, Proc.wp_bind]
  refine wp_quiet rfl fun r _ w₁ _ _ hq => ?_
  cases r with
  | error e => exact h _ _ hq (by simp)
  | ok devicePub =>
    refine wp_quiet rfl fun r _ w₂ _ hr hq₂ => ?_
    cases r with
    | error e => exact h _ _ (hq.trans hq₂) (by simp)
    | ok object =>
      obtain rfl := hr.1.1 object rfl
      refine wp_quiet rfl fun r _ w₃ _ hr' hq₃ => h _ _ ((hq.trans hq₂).trans hq₃) ?_
      rintro rfl
      rw [hr'.2.1]
      exact List.mem_cons_self

theorem wp_openObject {name : SyncedCollection} {epoch seenCounter : Nat} {object : Sealed}
    {Q : Except Failure Opened → SyncState → Shore × KeptLog → Prop}
    (h : ∀ x w', Quiet w w' → (∀ opened, x = .ok opened →
      object.plaintext = .payload opened.payload) → Q x s w') :
    Proc.wp keptSafely (openObject name epoch object seenCounter) Q s w := by
  refine wp_quiet rfl fun r _ w₁ _ hr hq => h _ _ hq ?_
  cases r with
  | error e => simp
  | ok opened =>
    rintro _ ⟨⟩
    exact (hr.1.1 opened rfl).payload

/-- Writing back over bytes that are excused. -/
theorem wp_writeBack {name : SyncedCollection} {payload : Buffer}
    {Q : Except Failure Buffer → SyncState → Shore × KeptLog → Prop}
    (hex : Excused name w.1 w.2)
    (h : ∀ x w', w'.2.loaded = w.2.loaded → NoConflict x → Q x s w') :
    Proc.wp keptSafely (writeBack name payload) Q s w := by
  simp only [writeBack, Proc.wp_bind]
  refine wp_atOnce rfl (by rintro _ _ ⟨⟩; exact hex) fun r w₁ hr => ?_
  have hw₁ : w₁.2.loaded = w.2.loaded := by rw [hr.2.1]; rfl
  cases r with
  | error e => exact h _ _ hw₁ (hr.1.1.error_cast)
  | ok =>
    refine wp_quiet rfl fun r _ w₂ _ hr₂ hq => ?_
    cases r with
    | error e => exact h _ _ (hq.loaded.trans hw₁) hr₂.1.1.error_cast
    | ok =>
      refine wp_quiet rfl fun r _ w₃ _ hr₃ hq' => ?_
      have hl := (hq'.loaded.trans hq.loaded).trans hw₁
      cases r with
      | error e => exact h _ _ hl hr₃.1.1.2.error_cast
      | ok b => exact h _ _ hl (by simp [NoConflict])

/-- Reading from the relay: the answer is noted, and it is not the one that is ruled out. -/
theorem wp_getObject {name : SyncedCollection} {epoch : Nat}
    {Q : Except Failure (Option RemoteObject) → SyncState → Shore × KeptLog → Prop}
    (herror : ∀ e w', w'.2.loaded = w.2.loaded → Q (.error e) s w')
    (h : ∀ answer w', w'.1.disk = w.1.disk → w'.2.loaded = w.2.loaded → w'.2.kept = w.2.kept →
      w'.2.answers = w.2.answers ++ [answer] →
      (∀ fresh, answer = some fresh → ¬ OverwritesUnkept name w.1 w.2 fresh) →
      Q (.ok answer) s w') :
    Proc.wp keptSafely (Proc.request (.getObject name epoch) id) Q s w := by
  rw [Proc.wp_request]
  intro w₁ hd
  have hdisk := hd.1.disk_eq
  refine ⟨by rintro _ _ ⟨⟩, fun r w₂ hr => ?_⟩
  obtain ⟨hs, hg, hp⟩ := hr
  rw [hd.2] at hg hp
  cases r with
  | error e => exact herror e w₂ (by rw [hg]; rfl)
  | ok answer =>
    refine h answer w₂ ?_ (by rw [hg]; rfl) (by rw [hg]; rfl) (by rw [hg]; rfl) ?_
    · rw [show w₂.1 = w₁.1 from hs, hdisk]
    · rintro fresh rfl ⟨hanswers, known, b, hknown, hb, hrest⟩
      exact hp ⟨hanswers, known, b, hknown, by rw [hdisk]; exact hb, hrest⟩

/-! ## One collection -/

theorem wp_conflictWithRemote {name : SyncedCollection} {epoch : Nat} {here : Buffer}
    {known : Option CollectionState} (hw : Reading name here known s w)
    (hanswers : known = none ∨ w.2.answers = [none] ∨ w.2.answers.length = 2) :
    Proc.wp keptSafely (conflictWithRemote name epoch here) (fun _ => Done name s w) s w := by
  simp only [conflictWithRemote, Proc.wp_bind]
  refine wp_getObject (fun e w' hl => (Done.refl _ _ _).after hl)
    fun answer w₁ hd hl hk ha hno => ?_
  have hdone := (Done.refl name s w).after hl
  cases answer with
  | none =>
    simp only [Proc.wp_bind, Proc.wp_get]
    refine wp_putSealed fun x w₂ hq _ => ?_
    cases x with
    | error e => exact hdone.after hq.loaded
    | ok etag => exact (hdone.after hq.loaded).record _
  | some fresh =>
    simp only [Proc.wp_bind, Proc.wp_get]
    refine wp_openObject fun x w₂ hq hopen => ?_
    replace hdone := hdone.after hq.loaded
    have hhere : w₂.1.disk name = some here := by rw [hq.disk, hd]; exact hw.disk
    cases x with
    | error e => exact hdone
    | ok opened =>
      simp only
      split_ifs with heq
      · exact hdone.record _
      · simp only [Proc.wp_bind, Proc.wp_get]
        split_ifs with hmark
        · simp only [Proc.wp_bind]
          refine wp_keepAsConflict fun x w₃ hq₃ hkept => ?_
          replace hdone := hdone.after hq₃.loaded
          cases x with
          | error e => exact hdone
          | ok _ =>
            have hex : Excused name w₃.1 w₃.2 := by
              intro b hb
              rw [hq₃.disk, hhere] at hb
              obtain rfl := Option.some.inj hb
              exact Or.inr (Or.inr (Or.inr (hkept rfl)))
            simp only [Proc.wp_get, wp_setEntry]
            refine wp_writeBack hex fun x w₄ hl₄ _ => ?_
            cases x with
            | error e => exact (hdone.record _).after hl₄
            | ok landed => exact ((hdone.record _).after hl₄).record _
        · -- the copy is not kept again, and the answer was not the one that needs it to be
          have hex : Excused name w₂.1 w₂.2 := by
            intro b hb
            rw [hhere] at hb
            obtain rfl := Option.some.inj hb
            rw [hw.state, not_not] at hmark
            obtain ⟨k, rfl, hk'⟩ := Option.bind_eq_some_iff.mp hmark
            have hloaded : w₂.2.loaded.collections name = some k := by
              rw [hdone.loaded]; exact hw.loaded
            by_cases hhash : hash here = k.localHash
            · exact Or.inl ⟨k, hloaded, hhash⟩
            · by_contra hnot
              refine hno fresh rfl ⟨hanswers.resolve_left (by simp), k, here, hw.loaded, hw.disk, hk',
                ?_, hhash, fun hmem => hnot ?_⟩
              · rw [hopen opened rfl]
                exact fun h => heq (Plaintext.payload.inj h)
              · exact Or.inr (Or.inr (Or.inr (hq.kept _ (hk ▸ hmem))))
          simp only [Proc.wp_bind]
          refine wp_writeBack hex fun x w₄ hl₄ _ => ?_
          replace hdone := hdone.after hl₄
          cases x with
          | error e => exact hdone
          | ok landed => exact hdone.record _

theorem wp_mergeOrConflict {name : SyncedCollection} {epoch : Nat} {body : Buffer}
    {known : CollectionState} (hw : Reading name body (some known) s w)
    (hanswers : w.2.answers.length = 1) :
    Proc.wp keptSafely (mergeOrConflict name epoch body known) (fun _ => Done name s w) s w := by
  simp only [mergeOrConflict, Proc.wp_bind]
  refine wp_getObject (fun e w' hl => (Done.refl _ _ _).after hl)
    fun answer w₁ hd hl hk ha hno => ?_
  have hdone := (Done.refl name s w).after hl
  have hlen : w₁.2.answers.length = 2 := by rw [ha]; simp [hanswers]
  have hw₁ : Reading name body (some known) s w₁ :=
    ⟨by rw [hd]; exact hw.disk, by rw [hl]; exact hw.loaded, hw.state⟩
  cases answer with
  | none => exact (wp_conflictWithRemote hw₁ (Or.inr (Or.inr hlen))).imp fun _ _ _ => hdone.trans
  | some fresh =>
    simp only [Proc.wp_bind, Proc.wp_get, Proc.wp_attempt]
    refine wp_openObject fun x w₂ hq _ => ?_
    have hw₂ := hw₁.quiet hq
    replace hdone := hdone.after hq.loaded
    cases x with
    | error e =>
      have hlen₂ : w₂.2.answers.length = 2 := by rw [hq.answers]; exact hlen
      exact (wp_conflictWithRemote hw₂ (Or.inr (Or.inr hlen₂))).imp fun _ _ _ => hdone.trans
    | ok opened =>
      simp only
      split_ifs with heq hhash
      · exact hdone.record _
      · simp only [Proc.wp_bind, Proc.wp_get]
        refine wp_putSealed fun x w₃ hq₃ _ => ?_
        cases x with
        | error e => exact hdone.after hq₃.loaded
        | ok etag => exact (hdone.after hq₃.loaded).record _
      · cases hm : mergeCollections known.base body opened.payload with
        | none =>
          have hlen₂ : w₂.2.answers.length = 2 := by rw [hq.answers]; exact hlen
          exact (wp_conflictWithRemote hw₂ (Or.inr (Or.inr hlen₂))).imp fun _ _ _ => hdone.trans
        | some merge =>
          simp only [Proc.wp_bind, Proc.wp_get]
          refine wp_putSealed fun x w₃ hq₃ hjust => ?_
          replace hdone := hdone.after hq₃.loaded
          cases x with
          | error e => exact hdone
          | ok etag =>
            have hex : Excused name w₃.1 w₃.2 := by
              intro b hb
              rw [hq₃.disk, hw₂.disk] at hb
              obtain rfl := Option.some.inj hb
              exact Or.inr (Or.inr (Or.inl ⟨known.base, opened.payload, merge, hjust etag rfl, hm⟩))
            refine wp_writeBack hex fun x w₄ hl₄ _ => ?_
            replace hdone := hdone.after hl₄
            cases x with
            | error e => exact hdone
            | ok landed => exact hdone.record _

theorem wp_adopt {name : SyncedCollection} {epoch : Nat} {remote : RemoteObject}
    (hw : w.1.disk name = none) :
    Proc.wp keptSafely (adopt name epoch remote) (fun _ => Done name s w) s w := by
  simp only [adopt, Proc.wp_bind, Proc.wp_get]
  refine wp_openObject fun x w₁ hq _ => ?_
  have hdone := (Done.refl name s w).after hq.loaded
  cases x with
  | error e => exact hdone
  | ok opened =>
    have hex : Excused name w₁.1 w₁.2 := by
      intro b hb
      rw [hq.disk, hw] at hb
      cases hb
    refine wp_writeBack hex fun x w₂ hl _ => ?_
    replace hdone := hdone.after hl
    cases x with
    | error e => exact hdone
    | ok landed => exact hdone.record _

theorem wp_offer {name : SyncedCollection} {epoch : Nat} {here : Buffer}
    {known : Option CollectionState} (hw : Reading name here known s w)
    (hanswers : w.2.answers = [none]) :
    Proc.wp keptSafely (offer name epoch known here) (fun _ => Done name s w) s w := by
  unfold offer
  split_ifs
  · exact Done.refl _ _ _
  · simp only [Proc.wp_bind, Proc.wp_get]
    refine wp_orConflict ?_
    simp only [Proc.wp_bind]
    refine wp_putSealed fun x w₁ hq _ => ?_
    have hdone := (Done.refl name s w).after hq.loaded
    cases x with
    | ok etag => exact hdone.record _
    | error e =>
      have hanswers₁ : w₁.2.answers = [none] := by rw [hq.answers, hanswers]
      simp only
      split_ifs
      · exact (wp_conflictWithRemote (hw.quiet hq) (Or.inr (Or.inl hanswers₁))).imp
          fun _ _ _ => hdone.trans
      · exact hdone

theorem wp_push {name : SyncedCollection} {epoch : Nat} {known : CollectionState} {body : Buffer}
    (hw : Reading name body (some known) s w) (hanswers : w.2.answers.length = 1) :
    Proc.wp keptSafely (push name epoch known body) (fun _ => Done name s w) s w := by
  simp only [push, Proc.wp_bind, Proc.wp_get]
  refine wp_orConflict ?_
  simp only [Proc.wp_bind]
  refine wp_putSealed fun x w₁ hq _ => ?_
  have hdone := (Done.refl name s w).after hq.loaded
  cases x with
  | ok etag => exact hdone.record _
  | error e =>
    have hanswers₁ : w₁.2.answers.length = 1 := by rw [hq.answers, hanswers]
    simp only
    split_ifs
    · exact (wp_mergeOrConflict (hw.quiet hq) hanswers₁).imp fun _ _ _ => hdone.trans
    · exact hdone

theorem wp_pull {name : SyncedCollection} {epoch : Nat} {known : CollectionState} {body : Buffer}
    {there : RemoteObject} (hw : Reading name body (some known) s w)
    (hhash : hash body = known.localHash) :
    Proc.wp keptSafely (pull name epoch known body there) (fun _ => Done name s w) s w := by
  -- the bytes are those of the agreement, kept or not
  have hex : ∀ w' : Shore × KeptLog, w'.1.disk = w.1.disk → w'.2.loaded = w.2.loaded →
      Excused name w'.1 w'.2 := by
    intro w' hd hl b hb
    rw [hd, hw.disk] at hb
    obtain rfl := Option.some.inj hb
    exact Or.inl ⟨known, by rw [hl]; exact hw.loaded, hhash⟩
  simp only [pull, Proc.wp_bind, Proc.wp_get]
  refine wp_openObject fun x w₁ hq _ => ?_
  have hdone := (Done.refl name s w).after hq.loaded
  cases x with
  | error e => exact hdone
  | ok opened =>
    simp only
    split_ifs
    · simp only [Proc.wp_bind]
      refine wp_keepAsConflict fun x w₂ hq₂ _ => ?_
      replace hdone := hdone.after hq₂.loaded
      cases x with
      | error e => exact hdone
      | ok _ =>
        simp only [wp_setEntry]
        refine wp_writeBack (hex _ (hq₂.disk.trans hq.disk) (hq₂.loaded.trans hq.loaded))
          fun x w₃ hl₃ _ => ?_
        cases x with
        | error e => exact (hdone.record _).after hl₃
        | ok landed => exact ((hdone.record _).after hl₃).record _
    · simp only [Proc.wp_bind]
      refine wp_writeBack (hex _ hq.disk hq.loaded) fun x w₂ hl₂ _ => ?_
      replace hdone := hdone.after hl₂
      cases x with
      | error e => exact hdone
      | ok landed => exact hdone.record _

theorem wp_firstContact {name : SyncedCollection} {epoch : Nat} {body : Buffer}
    {there : RemoteObject} (hw : Reading name body none s w) :
    Proc.wp keptSafely (firstContact name epoch body there) (fun _ => Done name s w) s w := by
  simp only [firstContact, Proc.wp_bind, Proc.wp_get]
  refine wp_openObject fun x w₁ hq _ => ?_
  have hw₁ := hw.quiet hq
  have hdone := (Done.refl name s w).after hq.loaded
  cases x with
  | error e => exact hdone
  | ok opened =>
    simp only
    split_ifs with hempty hne
    · have hex : Excused name w₁.1 w₁.2 := by
        intro b hb
        rw [hw₁.disk] at hb
        obtain rfl := Option.some.inj hb
        exact Or.inr (Or.inl ⟨hw₁.loaded, hempty.1⟩)
      simp only [Proc.wp_bind]
      refine wp_writeBack hex fun x w₂ hl₂ _ => ?_
      replace hdone := hdone.after hl₂
      cases x with
      | error e => exact hdone
      | ok landed => exact hdone.record _
    · simp only [Proc.wp_bind, Proc.wp_get]
      cases hu : (if s.floors name > 0 then none
          else mergeCollections (some []) body opened.payload) with
      | none =>
        simp only [Proc.wp_bind]
        refine wp_keepAsConflict fun x w₂ hq₂ hkept => ?_
        replace hdone := hdone.after hq₂.loaded
        cases x with
        | error e => exact hdone
        | ok _ =>
          have hex : Excused name w₂.1 w₂.2 := by
            intro b hb
            rw [hq₂.disk, hw₁.disk] at hb
            obtain rfl := Option.some.inj hb
            exact Or.inr (Or.inr (Or.inr (hkept rfl)))
          refine wp_writeBack hex fun x w₃ hl₃ _ => ?_
          replace hdone := hdone.after hl₃
          cases x with
          | error e => exact hdone
          | ok landed => exact hdone.record _
      | some union =>
        have hm : mergeCollections (some []) body opened.payload = some union := by
          split_ifs at hu
          exact hu
        refine wp_orConflict ?_
        simp only [Proc.wp_bind]
        refine wp_putSealed fun x w₂ hq₂ hjust => ?_
        have hw₂ := hw₁.quiet hq₂
        replace hdone := hdone.after hq₂.loaded
        cases x with
        | error e =>
          simp only
          split_ifs
          · exact (wp_conflictWithRemote hw₂ (Or.inl rfl)).imp fun _ _ _ => hdone.trans
          · exact hdone
        | ok etag =>
          have hex : Excused name w₂.1 w₂.2 := by
            intro b hb
            rw [hw₂.disk] at hb
            obtain rfl := Option.some.inj hb
            exact Or.inr (Or.inr (Or.inl ⟨some [], opened.payload, union, hjust etag rfl, hm⟩))
          refine wp_writeBack hex fun x w₃ hl₃ hcode => ?_
          replace hdone := hdone.after hl₃
          cases x with
          | ok landed => exact hdone.record _
          | error e =>
            simp only
            rw [if_neg (hcode e rfl)]
            exact hdone
    · exact hdone.record _

theorem wp_syncCollection {name : SyncedCollection}
    (hstate : s.collections name = w.2.loaded.collections name) :
    Proc.wp keptSafely (syncCollection name) (fun _ => Done name s w) s w := by
  simp only [syncCollection, Proc.wp_bind, Proc.wp_get]
  refine wp_atOnce rfl (by rintro _ _ ⟨⟩) fun r w₁ hr => ?_
  have hl₁ : w₁.2.loaded = w.2.loaded := by rw [hr.2.1]; rfl
  have ha₁ : w₁.2.answers = [] := by rw [hr.2.1]; rfl
  cases r with
  | error e => exact (Done.refl _ _ _).after hl₁
  | ok epoch =>
    refine wp_quiet rfl fun r w₂ w₃ hq₂ hr hq => ?_
    have hdone := (Done.refl name s w).after (hq.loaded.trans hl₁)
    cases r with
    | error e => exact hdone
    | ok here =>
      have hhere : w₃.1.disk name = here := by
        rw [hr.1.2]; exact (hr.1.1.1 here rfl).symm
      refine wp_getObject (fun e w' hl => hdone.after hl) fun remote w₄ hd hl hk ha _ => ?_
      replace hdone := hdone.after hl
      have ha₄ : w₄.2.answers = [remote] := by rw [ha, hq.answers, ha₁]; rfl
      have hread : ∀ b, here = some b → Reading name b (s.collections name) s w₄ := fun b hb =>
        ⟨by rw [hd, hhere, hb], by rw [hdone.loaded, hstate], rfl⟩
      cases here with
      | none =>
        cases remote with
        | none => exact hdone
        | some remote =>
          exact (wp_adopt (by rw [hd, hhere])).imp fun _ _ _ => hdone.trans
      | some body =>
        have hw := hread body rfl
        cases remote with
        | none => exact (wp_offer hw ha₄).imp fun _ _ _ => hdone.trans
        | some there =>
          have hlen : w₄.2.answers.length = 1 := by rw [ha₄]; rfl
          cases hk : s.collections name with
          | none =>
            rw [hk] at hw
            exact (wp_firstContact hw).imp fun _ _ _ => hdone.trans
          | some known =>
            rw [hk] at hw
            by_cases hlocal : hash body = known.localHash <;>
              by_cases hremote : there.etag = known.etag <;>
              simp only [hlocal, hremote, ne_eq, not_true_eq_false, not_false_eq_true, decide_true,
                decide_false]
            · exact hdone
            · exact (wp_pull hw hlocal).imp fun _ _ _ => hdone.trans
            · exact (wp_push hw hlen).imp fun _ _ _ => hdone.trans
            · exact (wp_mergeOrConflict hw hlen).imp fun _ _ _ => hdone.trans

/-! ## The whole pass -/

theorem wp_syncEach {names : List SyncedCollection} (hnodup : names.Nodup)
    (hstate : ∀ n ∈ names, s.collections n = w.2.loaded.collections n) (result : SyncResult) :
    Proc.wp keptSafely (syncEach names result) (fun _ _ _ => True) s w := by
  induction names generalizing s w result with
  | nil => trivial
  | cons name names ih =>
    obtain ⟨hname, hnodup⟩ := List.nodup_cons.mp hnodup
    have hrest : ∀ s' w', Done name s w s' w' →
        ∀ n ∈ names, s'.collections n = w'.2.loaded.collections n := by
      intro s' w' hdone n hn
      rw [hdone.loaded, hdone.others n (fun h => hname (h ▸ hn)),
        hstate n (List.mem_cons_of_mem _ hn)]
    simp only [syncEach]
    split_ifs
    · simp only [Proc.wp_bind, Proc.wp_attempt]
      exact (wp_syncCollection (hstate name List.mem_cons_self)).imp
        fun x s' w' hdone => ih hnodup (hrest s' w' hdone) _
    · exact ih hnodup (hrest s w (Done.refl _ _ _)) _

theorem wp_syncOnce : Proc.wp keptSafely syncOnce (fun _ _ _ => True) s w := by
  simp only [syncOnce, Proc.wp_bind]
  refine wp_atOnce rfl (by rintro _ _ ⟨⟩) fun forgets w₁ hr₁ => ?_
  refine wp_atOnce rfl (by rintro _ _ ⟨⟩) fun account w₂ hr₂ => ?_
  refine wp_atOnce rfl (by rintro _ _ ⟨⟩) fun file w₃ hr₃ => ?_
  simp only [Proc.wp_modify]
  have hloaded : w₃.2.loaded = loadState file (some account) := by
    rw [hr₃.2.1, hr₂.1.1, hr₂.1.2]
    rfl
  refine (wp_syncEach SyncedCollection.all_nodup (fun n _ => by rw [hloaded]) _).imp
    fun x s' w' _ => ?_
  cases x with
  | error e => trivial
  | ok result =>
    simp only [Proc.wp_attempt, saveUnlessForgotten, Proc.wp_bind]
    refine wp_atOnce rfl (by rintro _ _ ⟨⟩) fun now w₄ _ => ?_
    simp only
    split_ifs
    · trivial
    · simp only [Proc.wp_bind, Proc.wp_get]
      refine wp_atOnce rfl (by rintro _ _ ⟨⟩) fun saved w₅ _ => ?_
      cases saved <;> trivial

/-! ## Every run -/

/-- Between passes anything may happen to this machine. -/
def Between (w w' : Shore × KeptLog) : Prop := w'.2 = w.2

end Proofs

/-! ## A copy that is not kept -/

section NotKept

/-- The digests of the four versions below. -/
@[reducible] def vaultDigest : Digest := digestOf
  [("v0", "0270da4daac514f30bece5788a87ad7b800f59476d0d7e6f70d4b61fbc4f5e9e"),
    ("v1", "3bfc269594ef649228e9a74bab00f042efc91d5acc6fbee31a382e80d42388fe"),
    ("v2", "fb04dcb6970e4c3d1873de51fd5a50d7bb46b3383113602665c350ec40b5f990"),
    ("r", "454349e422f05297191ead13e21d3db520e5abef52055e4964b82fb213f593a1")]

/-- The vault the relay holds: another device has written it since. -/
def newerVault : RemoteObject := ⟨⟨"vault", 1, 1, 2, .payload (.ofText "r")⟩, "etag-2"⟩

/-- A device that agreed about `v0` and has edited it to `v1`. -/
def editedVault : Shore × KeptLog :=
  let entry : CollectionState :=
    ⟨"etag-1", 1, "0270da4daac514f30bece5788a87ad7b800f59476d0d7e6f70d4b61fbc4f5e9e", none, none⟩
  ({ disk := fun n => if n = .vault then some (.ofText "v1") else none
     file := some ⟨some "a", fun n => if n = .vault then some entry else none, fun _ => 0⟩
     forgets := 0
     account := "a" },
    ⟨.fresh none, [], none, []⟩)

/-- The relay with that vault, and the log of what it answers. -/
def vaultRelay (writes : Bool) (w : Shore × KeptLog) (o : Op) : o.Reply × (Shore × KeptLog) :=
  let answer := oneObject .vault newerVault writes w.1 o
  (answer.1, answer.2, w.2.observe w.1 o answer.1)

/-- A pass of that device. -/
@[irreducible] def vaultPass : Prog Op Op.Reply (Except Failure SyncResult × SyncState) :=
  @syncOnce vaultDigest (.fresh none)

/-- A pass whose write to the disk fails, and an edit to `v2`. -/
@[irreducible] def editedAgain : Shore × KeptLog :=
  let w := (vaultPass.exec (vaultRelay false) editedVault).2
  (w.1.put .vault (some (.ofText "v2")), w.2)

/-- The next pass, as far as its first write. -/
@[irreducible] def nextPass :
    Prog Op Op.Reply (Except Failure SyncResult × SyncState) × (Shore × KeptLog) :=
  Prog.advance (vaultRelay true) 43 (vaultPass, editedAgain)

/-- The collection a program is about to write. -/
def aboutToWrite :
    Prog Op Op.Reply (Except Failure SyncResult × SyncState) → Option SyncedCollection
  | .ask (.write name _) _ => some name
  | _ => none

theorem life_aboutToWrite {S : Surroundings (Shore × KeptLog) Op Op.Reply}
    {p₀ : Prog Op Op.Reply (Except Failure SyncResult × SyncState)} {w : Shore × KeptLog}
    {name : SyncedCollection}
    {c : Prog Op Op.Reply (Except Failure SyncResult × SyncState) × (Shore × KeptLog)}
    (hc : aboutToWrite c.1 = some name)
    (h : Life S p₀ Between (none, w) (some c.1, c.2)) :
    ∃ body k, Life S p₀ Between (none, w)
      (some (.ask (.write name body) k), c.2) := by
  obtain ⟨p, w'⟩ := c
  simp only at hc h
  unfold aboutToWrite at hc
  split at hc
  · obtain rfl := Option.some.inj hc
    exact ⟨_, _, h⟩
  · cases hc

theorem reply_vaultRelay [Digest] (writes : Bool) (w : Shore × KeptLog) (o : Op) :
    (keptWorld fun _ _ _ _ => True).reply w o (vaultRelay writes w o).1 (vaultRelay writes w o).2 :=
  ⟨serves_oneObject _ _ _ _ _, rfl, by unfold Permits; split <;> trivial⟩

/-- The same relay, failing every read of a collection but the first. -/
def vaultRelayOnce (w : Shore × KeptLog) : (o : Op) → o.Reply × (Shore × KeptLog)
  | .getObject n e =>
    if w.2.answers = [] then vaultRelay true w (.getObject n e)
    else (.error ⟨some .relayUnreachable, ""⟩, w)
  | o => vaultRelay true w o

/-- A device with nothing. -/
def newDevice : Shore × KeptLog :=
  (⟨fun _ => none, none, 0, "a"⟩, ⟨.fresh none, [], none, []⟩)

/-- That device, about to write what that relay has. -/
@[irreducible] def adopting :
    Prog Op Op.Reply (Except Failure SyncResult × SyncState) × (Shore × KeptLog) :=
  Prog.advance vaultRelayOnce 40 (vaultPass, newDevice)

end NotKept

end OpsMaxx.Addy
