import OpsMaxx.Addy.Sync

/-! # Edits saved while a pass is in flight

A pass reads a collection once and decides on those bytes; by the time it writes, somebody may have
saved others. `Lands` is the table of the replies that make a pass write, read off what it has read
so far. A saved version that no pass has read stays on disk as long as no such reply comes while one
is unread.
-/

set_option autoImplicit false

namespace OpsMaxx.Addy.InFlight

open OpsMaxx.Interact

/-! ## What a pass has gone by -/

/-- The agreements a pass started from; and of the collection it is at, the bytes it read, the
relay's answers, and the last payload opened. -/
structure Course where
  loaded : SyncState
  current : SyncedCollection
  here : Option Buffer
  answers : List (Option RemoteObject)
  opened : Option Buffer

namespace Course

/-- What the device remembers of the collection at hand. -/
def known (c : Course) : Option CollectionState := c.loaded.collections c.current

def next (c : Course) (account : String) : (o : Op) → o.Reply → Course
  | .loadStateFile, file => { c with loaded := loadState file (some account) }
  | .epoch, _ => { c with answers := [], opened := none }
  | .read name, .ok here => { c with current := name, here := here }
  | .getObject _ _, .ok answer => { c with answers := c.answers ++ [answer] }
  | .open .., .ok opened => { c with opened := some opened.payload }
  | _, _ => c

/-- Whether opening this payload makes the pass write it: it adopts it, or pulls it without keeping
a copy, or it loses against it once more. -/
def Takes (c : Course) (payload : Buffer) : Prop :=
  match c.here, c.known, c.answers with
  | none, _, _ => True
  | some body, none, [_] => isEmptyish body = true ∧ payload ≠ body
  | some _, none, _ => False
  | some body, some known, [there] =>
    ¬ (removesMost body payload = true ∧ known.conflictedEtag ≠ there.map RemoteObject.etag)
  | some body, some known, answers =>
    (answers.head? = some none ∨ answers.length = 3) ∧ payload ≠ body ∧
      ∃ fresh, answers.getLast? = some (some fresh) ∧ known.conflictedEtag = some fresh.etag

variable [Digest]

/-- Whether what the pass puts on the relay is a merge, which it then writes. -/
def Merges (c : Course) : Prop :=
  match c.known, c.answers with
  | none, [some _] => True
  | some known, [some _, some _] => ∀ b, c.opened = some b → hash b ≠ known.localHash
  | _, _ => False

/-- The replies after which the pass writes the collection. -/
def Lands (c : Course) : (o : Op) → o.Reply → Prop
  | .open .., .ok opened => c.Takes opened.payload
  | .putObject .., .ok _ => c.Merges
  | .keepConflict .., .ok _ => True
  | _, _ => False

end Course

/-- A pass, the last saved version of each collection that no pass has read yet, and what is known
to be kept elsewhere: the object of each collection on the relay, and the conflict copies. -/
structure FlightLog where
  course : Course
  unread : SyncedCollection → Option Buffer
  object : SyncedCollection → Option Buffer
  kept : List (SyncedCollection × Buffer)

namespace FlightLog

/-- What a reply shows about the saved versions and where they are kept. -/
def observe (g : FlightLog) (account : String) (o : Op) (r : o.Reply) : FlightLog :=
  let g := { g with course := g.course.next account o r }
  match o, r with
  | .read name, .ok here =>
    { g with unread := if g.unread name = here then Function.update g.unread name none else g.unread }
  | .getObject name _, .ok answer =>
    { g with object := Function.update g.object name (answer.map fun x => x.body.plaintext.body) }
  | .putObject name _ _ object _, .ok _ =>
    { g with object := Function.update g.object name (some object.plaintext.body) }
  | .keepConflict name _ _ object, .ok _ =>
    { g with kept := (name, object.plaintext.body) :: g.kept }
  | _, _ => g

@[simp] theorem observe_course (g : FlightLog) (account : String) (o : Op) (r : o.Reply) :
    (g.observe account o r).course = g.course.next account o r := by
  unfold observe
  split <;> rfl

end FlightLog

/-! ## The surroundings of a pass -/

/-- Somebody saves a collection. -/
def Saves (w w' : Shore × FlightLog) : Prop :=
  ∃ name b, w'.1 = w.1.put name b ∧
    w'.2 = { w.2 with unread := Function.update w.2.unread name b }

/-- What happens beside a pass: saves, and the state being forgotten. -/
def Beside (w w' : Shore × FlightLog) : Prop :=
  Saves w w' ∨ Forgets w.1 w'.1 ∧ w'.2 = w.2

/-- The surroundings of a pass. If `calm`, no reply that lands finds an unread save, and then no
write may find one. -/
def flightWorld [Digest] (calm : Prop) : Surroundings (Shore × FlightLog) Op Op.Reply where
  drift := Meanwhile Beside
  demand o w := calm → ∀ name body, o = .write name body → w.2.unread name = none
  reply w o r w' := Serves w.1 o r w'.1 ∧ w'.2 = w.2.observe w.1.account o r ∧
    (calm → w.2.course.Lands o r → w.2.unread w.2.course.current = none)
  drift_refl := Meanwhile.refl _
  drift_trans _ _ _ _ := Meanwhile.trans

/-! ## The parts of a pass -/

/-- What happens beside a pass leaves its course alone. -/
theorem course_of_beside {o : Op} {w w' : Shore × FlightLog} (h : Meanwhile Beside o w w') :
    w'.2.course = w.2.course ∧ w'.1.account = w.1.account := by
  refine h.keeps (I := fun v => v.2.course = w.2.course ∧ v.1.account = w.1.account)
    (fun v v' hb hv => ?_) ⟨rfl, rfl⟩
  rcases hb with ⟨name, b, hput, hlog⟩ | ⟨hf, hlog⟩
  · rw [hput, hlog]
    exact hv
  · exact ⟨by rw [hlog, hv.1], hf.account_eq.trans hv.2⟩

theorem disk_eq_of_serves {o : Op} {r : o.Reply} {v v' : Shore} (ho : ∀ n b, o ≠ .write n b)
    (h : Serves v o r v') : v'.disk = v.disk := by
  cases o with
  | saveStateFile s => cases r <;> simp_all [Serves]
  | write name body => exact absurd rfl (ho name body)
  | _ => simp_all [Serves]

theorem FlightLog.unread_of_observe {g : FlightLog} {account : String} {o : Op} {r : o.Reply}
    {n : SyncedCollection} {b : Buffer} (h : (g.observe account o r).unread n = some b) :
    g.unread n = some b := by
  cases o with
  | read name =>
    cases r with
    | error e => exact h
    | ok here =>
      simp only [FlightLog.observe] at h
      split_ifs at h
      · by_cases hn : n = name
        · subst hn
          simp at h
        · simpa [hn] using h
      · exact h
  | getObject | putObject | keepConflict => cases r <;> exact h
  | _ => exact h

/-- What going through a collection leaves of the agreements: those about the others. -/
structure Done (name : SyncedCollection) (s : SyncState) (w : Shore × FlightLog) (s' : SyncState)
    (w' : Shore × FlightLog) : Prop where
  loaded : w'.2.course.loaded = w.2.course.loaded
  others : ∀ n ≠ name, s'.collections n = s.collections n

theorem Done.refl (name : SyncedCollection) (s : SyncState) (w : Shore × FlightLog) :
    Done name s w s w :=
  ⟨rfl, fun _ _ => rfl⟩

section Done
variable {name : SyncedCollection} {s s' : SyncState} {w w' w'' : Shore × FlightLog}

theorem Done.after (h : Done name s w s' w') (hl : w''.2.course.loaded = w'.2.course.loaded) :
    Done name s w s' w'' :=
  ⟨hl.trans h.loaded, h.others⟩

theorem Done.trans {s'' : SyncState} (h : Done name s w s' w') (h' : Done name s' w' s'' w'') :
    Done name s w s'' w'' :=
  ⟨h'.loaded.trans h.loaded, fun n hn => (h'.others n hn).trans (h.others n hn)⟩

theorem Done.record (h : Done name s w s' w') (entry : CollectionState) :
    Done name s w (s'.record name entry) w' :=
  ⟨h.loaded, fun n hn => (SyncState.record_collections_ne _ _ hn).trans (h.others n hn)⟩

end Done

/-- At a collection of which the pass has read `here`, with the answers so far. -/
structure Reading (name : SyncedCollection) (here : Option Buffer)
    (entry : Option CollectionState) (answers : List (Option RemoteObject)) (s : SyncState)
    (c : Course) : Prop where
  current : c.current = name
  here : c.here = here
  known : c.loaded.collections name = entry
  answers : c.answers = answers
  state : s.collections name = entry

section Reading
variable {name : SyncedCollection} {s : SyncState} {here : Option Buffer} {entry : Option CollectionState}
variable {answers : List (Option RemoteObject)} {c c' : Course}

theorem Reading.answered (h : Reading name here entry answers s c) {answer : Option RemoteObject}
    (hc : c' = { c with answers := c.answers ++ [answer] }) :
    Reading name here entry (answers ++ [answer]) s c' := by
  subst hc
  exact ⟨h.current, h.here, h.known, by rw [h.answers], h.state⟩

theorem Reading.opened (h : Reading name here entry answers s c) {b : Option Buffer}
    (hc : c' = { c with opened := b }) : Reading name here entry answers s c' := by
  subst hc
  exact ⟨h.current, h.here, h.known, h.answers, h.state⟩

theorem Reading.of_eq (h : Reading name here entry answers s c) (hc : c' = c) :
    Reading name here entry answers s c' := hc ▸ h

/-- The answers before `conflictWithRemote` reads again. -/
def Losing (entry : Option CollectionState) (answers : List (Option RemoteObject)) : Prop :=
  entry = none ∨ answers = [none] ∨ ∃ a b, answers = [a, b]

theorem takes_of_marker {here payload : Buffer} {known : CollectionState} {fresh : RemoteObject}
    (hr : Reading name (some here) (some known) (answers ++ [some fresh]) s c)
    (hl : Losing (some known) answers) (hne : payload ≠ here)
    (hmark : known.conflictedEtag = some fresh.etag) : c.Takes payload := by
  have hknown : c.known = some known := by rw [Course.known, hr.current, hr.known]
  rcases hl with h | rfl | ⟨a, b, rfl⟩
  · cases h
  · simp [Course.Takes, hr.here, hknown, hr.answers, hne, hmark]
  · simp [Course.Takes, hr.here, hknown, hr.answers, hne, hmark]

end Reading

section Proofs
variable [Digest] {calm : Prop} {α : Type} {name : SyncedCollection} {s : SyncState}
variable {w : Shore × FlightLog} {Q : Except Failure α → SyncState → Shore × FlightLog → Prop}

/-- No save of the collection is unread. -/
def AllRead (calm : Prop) (name : SyncedCollection) (w : Shore × FlightLog) : Prop :=
  calm → w.2.unread name = none

/-- A request other than a write, and what it leaves of the course of the pass. -/
theorem wp_other {o : Op} {f : o.Reply → Except Failure α} (ho : ∀ n b, o ≠ .write n b)
    (h : ∀ r w', w'.2.course = w.2.course.next w.1.account o r →
      (∃ v, Serves v o r w'.1 ∧ v.account = w.1.account) →
      (w.2.course.Lands o r → AllRead calm w.2.course.current w') → Q (f r) s w') :
    Proc.wp (flightWorld calm) (Proc.request o f) Q s w := by
  rw [Proc.wp_request]
  intro w₁ hd
  obtain ⟨hcourse, haccount⟩ := course_of_beside hd
  refine ⟨fun _ n b hn => absurd hn (ho n b), fun r w₂ hr => ?_⟩
  obtain ⟨hs, hlog, hlands⟩ := hr
  refine h r w₂ (by rw [hlog, FlightLog.observe_course, hcourse, haccount]) ⟨w₁.1, hs, haccount⟩
    fun hl hc => ?_
  rw [← hcourse] at hl ⊢
  have hnone := hlands hc hl
  cases o with
  | read => exact hl.elim
  | getObject => exact hl.elim
  | putObject => cases r <;> simpa [hlog, FlightLog.observe] using hnone
  | keepConflict => cases r <;> simpa [hlog, FlightLog.observe] using hnone
  | «open» => simpa [hlog, FlightLog.observe] using hnone
  | _ => exact hl.elim

theorem wp_putSealed {epoch counter : Nat} {payload : Buffer} {ifMatch : Option String}
    {Q : Except Failure String → SyncState → Shore × FlightLog → Prop}
    (h : ∀ x w', w'.2.course = w.2.course →
      (∀ etag, x = .ok etag → w.2.course.Merges → AllRead calm w.2.course.current w') → Q x s w') :
    Proc.wp (flightWorld calm) (putSealed name epoch counter payload ifMatch) Q s w := by
  simp only [putSealed, Proc.wp_bind]
  refine wp_other (by simp) fun r w₁ hc₁ _ _ => ?_
  cases r with
  | error e => exact h _ _ hc₁ (by simp)
  | ok object =>
    replace hc₁ : w₁.2.course = w.2.course := hc₁
    refine wp_other (by simp) fun r w₂ hc₂ _ hlands => ?_
    rw [hc₁] at hc₂ hlands
    refine h _ _ hc₂ ?_
    rintro etag rfl hm
    exact hlands hm

theorem wp_keepAsConflict {epoch counter : Nat} {payload : Buffer} {reason : Option ConflictReason}
    {Q : Except Failure Unit → SyncState → Shore × FlightLog → Prop}
    (h : ∀ x w', w'.2.course = w.2.course →
      (x = .ok () → AllRead calm w.2.course.current w') → Q x s w') :
    Proc.wp (flightWorld calm) (keepAsConflict name epoch counter payload reason) Q s w := by
  simp only [keepAsConflict, sealConflict, Proc.wp_bind]
  refine wp_other (by simp) fun r w₁ hc₁ _ _ => ?_
  cases r with
  | error e => exact h _ _ hc₁ (by simp)
  | ok devicePub =>
    replace hc₁ : w₁.2.course = w.2.course := hc₁
    refine wp_other (by simp) fun r w₂ hc₂ _ _ => ?_
    rw [hc₁] at hc₂
    cases r with
    | error e => exact h _ _ hc₂ (by simp)
    | ok object =>
      replace hc₂ : w₂.2.course = w.2.course := hc₂
      refine wp_other (by simp) fun r w₃ hc₃ _ hlands => ?_
      rw [hc₂] at hc₃ hlands
      refine h _ _ hc₃ ?_
      rintro rfl
      exact hlands trivial

theorem wp_openObject {epoch seenCounter : Nat} {object : Sealed}
    {Q : Except Failure Opened → SyncState → Shore × FlightLog → Prop}
    (herror : ∀ e w', w'.2.course = w.2.course → Q (.error e) s w')
    (h : ∀ opened w', w'.2.course = { w.2.course with opened := some opened.payload } →
      (w.2.course.Takes opened.payload → AllRead calm w.2.course.current w') →
      Q (.ok opened) s w') :
    Proc.wp (flightWorld calm) (openObject name epoch object seenCounter) Q s w := by
  refine wp_other (by simp) fun r w₁ hc₁ _ hlands => ?_
  cases r with
  | error e => exact herror _ _ hc₁
  | ok opened => exact h _ _ hc₁ hlands

theorem wp_getObject {epoch : Nat}
    {Q : Except Failure (Option RemoteObject) → SyncState → Shore × FlightLog → Prop}
    (herror : ∀ e w', w'.2.course = w.2.course → Q (.error e) s w')
    (h : ∀ answer w',
      w'.2.course = { w.2.course with answers := w.2.course.answers ++ [answer] } →
      Q (.ok answer) s w') :
    Proc.wp (flightWorld calm) (Proc.request (.getObject name epoch) id) Q s w := by
  refine wp_other (by simp) fun r w₁ hc₁ _ _ => ?_
  cases r with
  | error e => exact herror _ _ hc₁
  | ok answer => exact h _ _ hc₁

/-- Writing back when no save is unread. -/
theorem wp_writeBack {payload : Buffer}
    {Q : Except Failure Buffer → SyncState → Shore × FlightLog → Prop} (hw : AllRead calm name w)
    (h : ∀ x w', w'.2.course.loaded = w.2.course.loaded → NoConflict x → Q x s w') :
    Proc.wp (flightWorld calm) (writeBack name payload) Q s w := by
  simp only [writeBack, Proc.wp_bind]
  rw [Proc.wp_request]
  intro w₀ hd
  obtain rfl : w₀ = w := by simpa [flightWorld, Meanwhile, Op.awaited] using hd
  refine ⟨fun hc n b hn => ?_, fun r w₁ hr => ?_⟩
  · obtain ⟨rfl, rfl⟩ := Op.write.inj hn
    exact hw hc
  have hl₁ : w₁.2.course.loaded = w₀.2.course.loaded := by
    rw [hr.2.1, FlightLog.observe_course]
    rfl
  cases r with
  | error e => exact h _ _ hl₁ hr.1.1.error_cast
  | ok =>
    refine wp_other (by simp) fun r w₂ hc₂ hs₂ _ => ?_
    obtain ⟨v₂, hs₂, -⟩ := hs₂
    have hl₂ : w₂.2.course.loaded = w₀.2.course.loaded := by rw [hc₂, ← hl₁]; rfl
    cases r with
    | error e => exact h _ _ hl₂ hs₂.1.error_cast
    | ok =>
      refine wp_other (by simp) fun r w₃ hc₃ hs₃ _ => ?_
      obtain ⟨v₃, hs₃, -⟩ := hs₃
      have hl₃ : w₃.2.course.loaded = w₀.2.course.loaded := by
        rw [hc₃, ← hl₂]
        cases r <;> rfl
      cases r with
      | error e => exact h _ _ hl₃ hs₃.1.2.error_cast
      | ok b => exact h _ _ hl₃ (by simp [NoConflict])

/-! ## One collection -/

theorem wp_conflictWithRemote {epoch : Nat} {here : Buffer} {entry : Option CollectionState}
    {answers : List (Option RemoteObject)}
    (hw : Reading name (some here) entry answers s w.2.course) (hl : Losing entry answers) :
    Proc.wp (flightWorld calm) (conflictWithRemote name epoch here) (fun _ => Done name s w) s w := by
  simp only [conflictWithRemote, Proc.wp_bind]
  refine wp_getObject (fun e w' hc => (Done.refl _ _ _).after (by rw [hc]))
    fun answer w₁ hc => ?_
  have hw₁ := hw.answered hc
  have hdone : Done name s w s w₁ := (Done.refl name s w).after (by rw [hc])
  cases answer with
  | none =>
    simp only [Proc.wp_bind, Proc.wp_get]
    refine wp_putSealed fun x w₂ hc₂ _ => ?_
    replace hdone : Done name s w s w₂ := hdone.after (by rw [hc₂])
    cases x with
    | error e => exact hdone
    | ok etag => exact hdone.record _
  | some fresh =>
    simp only [Proc.wp_bind, Proc.wp_get]
    refine wp_openObject (fun e w₂ hc₂ => hdone.after (by rw [hc₂])) fun opened w₂ hc₂ hread => ?_
    have hw₂ := hw₁.opened hc₂
    replace hdone : Done name s w s w₂ := hdone.after (by rw [hc₂])
    simp only
    split_ifs with heq
    · exact hdone.record _
    · simp only [Proc.wp_bind, Proc.wp_get]
      split_ifs with hmark
      · simp only [Proc.wp_bind]
        refine wp_keepAsConflict fun x w₃ hc₃ hread => ?_
        replace hdone : Done name s w s w₃ := hdone.after (by rw [hc₃])
        cases x with
        | error e => exact hdone
        | ok _ =>
          rw [hw₂.current] at hread
          simp only [Proc.wp_get, wp_setEntry]
          refine wp_writeBack (hread rfl) fun x w₄ hl₄ _ => ?_
          cases x with
          | error e => exact (hdone.record _).after hl₄
          | ok landed => exact ((hdone.record _).after hl₄).record _
      · rw [hw.state, not_not] at hmark
        obtain ⟨known, rfl, hmark⟩ := Option.bind_eq_some_iff.mp hmark
        rw [hw₁.current] at hread
        simp only [Proc.wp_bind]
        refine wp_writeBack (hread (takes_of_marker hw₁ hl heq hmark)) fun x w₄ hl₄ _ => ?_
        replace hdone := hdone.after hl₄
        cases x with
        | error e => exact hdone
        | ok landed => exact hdone.record _

theorem wp_mergeOrConflict {epoch : Nat} {body : Buffer} {known : CollectionState}
    {there : RemoteObject}
    (hw : Reading name (some body) (some known) [some there] s w.2.course) :
    Proc.wp (flightWorld calm) (mergeOrConflict name epoch body known)
      (fun _ => Done name s w) s w := by
  simp only [mergeOrConflict, Proc.wp_bind]
  refine wp_getObject (fun e w' hc => (Done.refl _ _ _).after (by rw [hc]))
    fun answer w₁ hc => ?_
  have hw₁ : Reading name (some body) (some known) [some there, answer] s w₁.2.course :=
    hw.answered hc
  have hlosing : Losing (some known) [some there, answer] := Or.inr (Or.inr ⟨_, _, rfl⟩)
  have hdone : Done name s w s w₁ := (Done.refl name s w).after (by rw [hc])
  cases answer with
  | none => exact (wp_conflictWithRemote hw₁ hlosing).imp fun _ _ _ => hdone.trans
  | some fresh =>
    simp only [Proc.wp_bind, Proc.wp_get, Proc.wp_attempt]
    refine wp_openObject (fun e w₂ hc₂ => ?_) fun opened w₂ hc₂ _ => ?_
    · exact (wp_conflictWithRemote (hw₁.of_eq hc₂) hlosing).imp
        fun _ _ _ => (hdone.after (by rw [hc₂])).trans
    · have hw₂ := hw₁.opened hc₂
      have hopened : w₂.2.course.opened = some opened.payload := by rw [hc₂]
      replace hdone : Done name s w s w₂ := hdone.after (by rw [hc₂])
      simp only
      split_ifs with heq hhash
      · exact hdone.record _
      · simp only [Proc.wp_bind, Proc.wp_get]
        refine wp_putSealed fun x w₃ hc₃ _ => ?_
        replace hdone : Done name s w s w₃ := hdone.after (by rw [hc₃])
        cases x with
        | error e => exact hdone
        | ok etag => exact hdone.record _
      · cases mergeCollections known.base body opened.payload with
        | none => exact (wp_conflictWithRemote hw₂ hlosing).imp fun _ _ _ => hdone.trans
        | some merge =>
          simp only [Proc.wp_bind, Proc.wp_get]
          refine wp_putSealed fun x w₃ hc₃ hread => ?_
          replace hdone : Done name s w s w₃ := hdone.after (by rw [hc₃])
          cases x with
          | error e => exact hdone
          | ok etag =>
            have hmerges : w₂.2.course.Merges := by
              simp [Course.Merges, Course.known, hw₂.current, hw₂.known, hw₂.answers, hopened, hhash]
            have hclear := hread etag rfl hmerges
            rw [hw₂.current] at hclear
            refine wp_writeBack hclear fun x w₄ hl₄ _ => ?_
            replace hdone := hdone.after hl₄
            cases x with
            | error e => exact hdone
            | ok landed => exact hdone.record _

theorem wp_adopt {epoch : Nat} {remote : RemoteObject} {entry : Option CollectionState}
    {answers : List (Option RemoteObject)} (hw : Reading name none entry answers s w.2.course) :
    Proc.wp (flightWorld calm) (adopt name epoch remote) (fun _ => Done name s w) s w := by
  simp only [adopt, Proc.wp_bind, Proc.wp_get]
  refine wp_openObject (fun e w₁ hc => (Done.refl _ _ _).after (by rw [hc]))
    fun opened w₁ hc hread => ?_
  have hdone : Done name s w s w₁ := (Done.refl name s w).after (by rw [hc])
  have htakes : w.2.course.Takes opened.payload := by simp [Course.Takes, hw.here]
  have hclear := hread htakes
  rw [hw.current] at hclear
  refine wp_writeBack hclear fun x w₂ hl _ => ?_
  replace hdone := hdone.after hl
  cases x with
  | error e => exact hdone
  | ok landed => exact hdone.record _

theorem wp_offer {epoch : Nat} {here : Buffer} {entry : Option CollectionState}
    (hw : Reading name (some here) entry [none] s w.2.course) :
    Proc.wp (flightWorld calm) (offer name epoch entry here) (fun _ => Done name s w) s w := by
  unfold offer
  split_ifs
  · exact Done.refl _ _ _
  · simp only [Proc.wp_bind, Proc.wp_get]
    refine wp_orConflict ?_
    simp only [Proc.wp_bind]
    refine wp_putSealed fun x w₁ hc _ => ?_
    have hdone : Done name s w s w₁ := (Done.refl name s w).after (by rw [hc])
    cases x with
    | ok etag => exact hdone.record _
    | error e =>
      simp only
      split_ifs
      · exact (wp_conflictWithRemote (hw.of_eq hc) (Or.inr (Or.inl rfl))).imp
          fun _ _ _ => hdone.trans
      · exact hdone

theorem wp_push {epoch : Nat} {known : CollectionState} {body : Buffer} {there : RemoteObject}
    (hw : Reading name (some body) (some known) [some there] s w.2.course) :
    Proc.wp (flightWorld calm) (push name epoch known body) (fun _ => Done name s w) s w := by
  simp only [push, Proc.wp_bind, Proc.wp_get]
  refine wp_orConflict ?_
  simp only [Proc.wp_bind]
  refine wp_putSealed fun x w₁ hc _ => ?_
  have hdone : Done name s w s w₁ := (Done.refl name s w).after (by rw [hc])
  cases x with
  | ok etag => exact hdone.record _
  | error e =>
    simp only
    split_ifs
    · exact (wp_mergeOrConflict (hw.of_eq hc)).imp fun _ _ _ => hdone.trans
    · exact hdone

theorem wp_pull {epoch : Nat} {known : CollectionState} {body : Buffer} {there : RemoteObject}
    (hw : Reading name (some body) (some known) [some there] s w.2.course) :
    Proc.wp (flightWorld calm) (pull name epoch known body there) (fun _ => Done name s w) s w := by
  simp only [pull, Proc.wp_bind, Proc.wp_get]
  refine wp_openObject (fun e w₁ hc => (Done.refl _ _ _).after (by rw [hc]))
    fun opened w₁ hc hread => ?_
  have hdone : Done name s w s w₁ := (Done.refl name s w).after (by rw [hc])
  have hw₁ := hw.opened hc
  simp only
  split_ifs with hkeep
  · simp only [Proc.wp_bind]
    refine wp_keepAsConflict fun x w₂ hc₂ hread => ?_
    replace hdone : Done name s w s w₂ := hdone.after (by rw [hc₂])
    cases x with
    | error e => exact hdone
    | ok _ =>
      rw [hw₁.current] at hread
      simp only [wp_setEntry]
      refine wp_writeBack (hread rfl) fun x w₃ hl₃ _ => ?_
      cases x with
      | error e => exact (hdone.record _).after hl₃
      | ok landed => exact ((hdone.record _).after hl₃).record _
  · have htakes : w.2.course.Takes opened.payload := by
      simpa [Course.Takes, Course.known, hw.here, hw.current, hw.known, hw.answers] using hkeep
    have hclear := hread htakes
    rw [hw.current] at hclear
    simp only [Proc.wp_bind]
    refine wp_writeBack hclear fun x w₂ hl₂ _ => ?_
    replace hdone := hdone.after hl₂
    cases x with
    | error e => exact hdone
    | ok landed => exact hdone.record _

theorem wp_firstContact {epoch : Nat} {body : Buffer} {there : RemoteObject}
    (hw : Reading name (some body) none [some there] s w.2.course) :
    Proc.wp (flightWorld calm) (firstContact name epoch body there)
      (fun _ => Done name s w) s w := by
  simp only [firstContact, Proc.wp_bind, Proc.wp_get]
  refine wp_openObject (fun e w₁ hc => (Done.refl _ _ _).after (by rw [hc]))
    fun opened w₁ hc hread => ?_
  have hdone : Done name s w s w₁ := (Done.refl name s w).after (by rw [hc])
  have hw₁ := hw.opened hc
  simp only
  split_ifs with hempty hne
  · have htakes : w.2.course.Takes opened.payload := by
      simpa [Course.Takes, Course.known, hw.here, hw.current, hw.known, hw.answers] using hempty
    have hclear := hread htakes
    rw [hw.current] at hclear
    simp only [Proc.wp_bind]
    refine wp_writeBack hclear fun x w₂ hl₂ _ => ?_
    replace hdone := hdone.after hl₂
    cases x with
    | error e => exact hdone
    | ok landed => exact hdone.record _
  · simp only [Proc.wp_bind, Proc.wp_get]
    cases (if s.floors name > 0 then none
        else mergeCollections (some []) body opened.payload) with
    | none =>
      simp only [Proc.wp_bind]
      refine wp_keepAsConflict fun x w₂ hc₂ hread => ?_
      replace hdone : Done name s w s w₂ := hdone.after (by rw [hc₂])
      cases x with
      | error e => exact hdone
      | ok _ =>
        rw [hw₁.current] at hread
        refine wp_writeBack (hread rfl) fun x w₃ hl₃ _ => ?_
        replace hdone := hdone.after hl₃
        cases x with
        | error e => exact hdone
        | ok landed => exact hdone.record _
    | some union =>
      refine wp_orConflict ?_
      simp only [Proc.wp_bind]
      refine wp_putSealed fun x w₂ hc₂ hread => ?_
      have hw₂ := hw₁.of_eq hc₂
      replace hdone : Done name s w s w₂ := hdone.after (by rw [hc₂])
      cases x with
      | error e =>
        simp only
        split_ifs
        · exact (wp_conflictWithRemote hw₂ (Or.inl rfl)).imp fun _ _ _ => hdone.trans
        · exact hdone
      | ok etag =>
        have hmerges : w₁.2.course.Merges := by
          simp [Course.Merges, Course.known, hw₁.current, hw₁.known, hw₁.answers]
        have hclear := hread etag rfl hmerges
        rw [hw₁.current] at hclear
        refine wp_writeBack hclear fun x w₃ hl₃ hcode => ?_
        replace hdone := hdone.after hl₃
        cases x with
        | ok landed => exact hdone.record _
        | error e =>
          simp only
          rw [if_neg (hcode e rfl)]
          exact hdone
  · exact hdone.record _

theorem wp_syncCollection (hstate : s.collections name = w.2.course.loaded.collections name) :
    Proc.wp (flightWorld calm) (syncCollection name) (fun _ => Done name s w) s w := by
  simp only [syncCollection, Proc.wp_bind, Proc.wp_get]
  refine wp_other (by simp) fun r w₁ hc₁ _ _ => ?_
  have hl₁ : w₁.2.course.loaded = w.2.course.loaded := by rw [hc₁]; rfl
  have ha₁ : w₁.2.course.answers = [] := by rw [hc₁]; rfl
  cases r with
  | error e => exact (Done.refl _ _ _).after hl₁
  | ok epoch =>
    refine wp_other (by simp) fun r w₂ hc₂ _ _ => ?_
    cases r with
    | error e => exact (Done.refl _ _ _).after (by rw [hc₂, ← hl₁]; rfl)
    | ok here =>
      have hw₂ : Reading name here (s.collections name) [] s w₂.2.course := by
        refine ⟨by rw [hc₂]; rfl, by rw [hc₂]; rfl, ?_, by rw [hc₂, ← ha₁]; rfl, rfl⟩
        rw [hstate, ← hl₁, hc₂]
        rfl
      have hl₂ : w₂.2.course.loaded = w.2.course.loaded := by rw [hc₂, ← hl₁]; rfl
      refine wp_getObject (fun e w' hc => (Done.refl _ _ _).after (by rw [hc, hl₂]))
        fun remote w₃ hc₃ => ?_
      have hw₃ : Reading name here (s.collections name) [remote] s w₃.2.course := hw₂.answered hc₃
      have hdone : Done name s w s w₃ := (Done.refl name s w).after (by rw [hc₃, hl₂])
      cases here with
      | none =>
        cases remote with
        | none => exact hdone
        | some remote => exact (wp_adopt hw₃).imp fun _ _ _ => hdone.trans
      | some body =>
        cases remote with
        | none => exact (wp_offer hw₃).imp fun _ _ _ => hdone.trans
        | some there =>
          cases hk : s.collections name with
          | none =>
            rw [hk] at hw₃
            exact (wp_firstContact hw₃).imp fun _ _ _ => hdone.trans
          | some known =>
            rw [hk] at hw₃
            by_cases hlocal : hash body = known.localHash <;>
              by_cases hremote : there.etag = known.etag <;>
              simp only [hlocal, hremote, ne_eq, not_true_eq_false, not_false_eq_true, decide_true,
                decide_false]
            · exact hdone
            · exact (wp_pull hw₃).imp fun _ _ _ => hdone.trans
            · exact (wp_push hw₃).imp fun _ _ _ => hdone.trans
            · exact (wp_mergeOrConflict hw₃).imp fun _ _ _ => hdone.trans

/-! ## The whole pass -/

theorem wp_syncEach {names : List SyncedCollection} (hnodup : names.Nodup)
    (hstate : ∀ n ∈ names, s.collections n = w.2.course.loaded.collections n)
    (result : SyncResult) :
    Proc.wp (flightWorld calm) (syncEach names result) (fun _ _ _ => True) s w := by
  induction names generalizing s w result with
  | nil => trivial
  | cons name names ih =>
    obtain ⟨hname, hnodup⟩ := List.nodup_cons.mp hnodup
    have hrest : ∀ s' w', Done name s w s' w' →
        ∀ n ∈ names, s'.collections n = w'.2.course.loaded.collections n := by
      intro s' w' hdone n hn
      rw [hdone.loaded, hdone.others n (fun h => hname (h ▸ hn)),
        hstate n (List.mem_cons_of_mem _ hn)]
    simp only [syncEach]
    split_ifs
    · simp only [Proc.wp_bind, Proc.wp_attempt]
      exact (wp_syncCollection (hstate name List.mem_cons_self)).imp
        fun x s' w' hdone => ih hnodup (hrest s' w' hdone) _
    · exact ih hnodup (hrest s w (Done.refl _ _ _)) _

theorem wp_syncOnce : Proc.wp (flightWorld calm) syncOnce (fun _ _ _ => True) s w := by
  simp only [syncOnce, Proc.wp_bind]
  refine wp_other (by simp) fun forgets w₁ _ hs₁ _ => ?_
  refine wp_other (by simp) fun account w₂ hc₂ hs₂ _ => ?_
  refine wp_other (by simp) fun file w₃ hc₃ _ _ => ?_
  obtain ⟨v, ⟨hr, hv⟩, -⟩ := hs₂
  have haccount : w₂.1.account = account := by rw [hv]; exact hr.symm
  have hloaded : w₃.2.course.loaded = loadState file (some account) := by
    rw [hc₃, ← haccount]
    rfl
  simp only [Proc.wp_modify]
  refine (wp_syncEach SyncedCollection.all_nodup (fun n _ => by rw [hloaded]) _).imp
    fun x s' w' _ => ?_
  cases x with
  | error e => trivial
  | ok result =>
    simp only [Proc.wp_attempt, saveUnlessForgotten, Proc.wp_bind]
    refine wp_other (by simp) fun now w₄ _ _ _ => ?_
    simp only
    split_ifs
    · trivial
    · simp only [Proc.wp_bind, Proc.wp_get]
      refine wp_other (by simp) fun saved w₅ _ _ _ => ?_
      cases saved <;> trivial

end Proofs

/-! ## Every run -/

/-- Every saved version that no pass has read is on disk. -/
def Stays (w : Shore × FlightLog) : Prop := ∀ n b, w.2.unread n = some b → w.1.disk n = some b

theorem stays_of_beside {w w' : Shore × FlightLog} (h : Beside w w') (hw : Stays w) : Stays w' := by
  intro n b hn
  rcases h with ⟨name, b', hput, hlog⟩ | ⟨hf, hlog⟩
  · rw [hlog] at hn
    rw [hput]
    by_cases hname : n = name
    · subst hname
      simpa using hn
    · rw [Shore.put_disk_ne _ _ hname]
      exact hw n b (by simpa [hname] using hn)
  · rw [hf.disk_eq]
    exact hw n b (by rwa [hlog] at hn)

/-- A reply that overwrites nothing unread. -/
theorem stays_of_reply [Digest] {o : Op} {r : o.Reply} {w w' : Shore × FlightLog}
    (hdemand : (flightWorld True).demand o w) (h : (flightWorld True).reply w o r w')
    (hw : Stays w) : Stays w' := by
  obtain ⟨hs, hlog, -⟩ := h
  intro n b hn
  by_cases ho : ∃ name body, o = .write name body
  · obtain ⟨name, body, rfl⟩ := ho
    obtain ⟨-, b', hput⟩ := hs
    have hnone := hdemand trivial name body rfl
    have hn' : w.2.unread n = some b := by rwa [hlog] at hn
    have hne : n ≠ name := by
      rintro rfl
      simp [hnone] at hn'
    rw [hput, Shore.put_disk_ne _ _ hne]
    exact hw n b hn'
  · rw [disk_eq_of_serves (fun name body hwrite => ho ⟨name, body, hwrite⟩) hs]
    exact hw n b (FlightLog.unread_of_observe (hlog ▸ hn))

/-- The versions of records in a payload; one that is no list of records is one version. -/
def versions (b : Buffer) : List (List Char) :=
  match asRecords b with
  | some records => records.map fun r => canonical r.item
  | none => [b.toText.toList]

/-- Each version in a payload is on disk, or in the object on the relay, or in a conflict copy. -/
def Survives (name : SyncedCollection) (b : Buffer) (w : Shore × FlightLog) : Prop :=
  ∀ v ∈ versions b, ∃ b', v ∈ versions b' ∧
    (w.1.disk name = some b' ∨ w.2.object name = some b' ∨ (name, b') ∈ w.2.kept)

/-- Pass after pass, with saves and forgets at any moment one awaits or none runs: what was saved
last and has not been read survives, as long as no reply that lands finds it unread. -/
theorem saves_survive [Digest] {w : Shore × FlightLog} (hw : Stays w)
    {c : Service (Shore × FlightLog) Op Op.Reply (Except Failure SyncResult × SyncState)}
    (h : Life (flightWorld True) (syncOnce (.fresh none)) Beside (none, w) c)
    {name : SyncedCollection} {b : Buffer} (hb : c.2.2.unread name = some b) :
    Survives name b c.2 := by
  have hstays : Stays c.2 := life_relates (R := fun v v' => Stays v → Stays v') (I := fun _ => True)
    (fun _ => id) (fun _ _ _ h h' hv => h' (h hv)) (fun _ _ _ _ => trivial)
    (fun _ _ => wp_syncOnce) (fun _ _ h => stays_of_beside h)
    (fun _ _ _ h => Meanwhile.keeps (I := Stays) (fun _ _ => stays_of_beside) h)
    (fun _ _ _ _ => stays_of_reply) h trivial hw
  exact fun v hv => ⟨b, hv, Or.inl (hstays name b hb)⟩

/-! ## A save between the read and the write -/

section Overtaken

@[reducible] def portDigest : Digest := digestOf
  [("[\x7b\"id\":\"s1\",\"port\":22\x7d]",
      "64d9e3f83745edb29fd401f2df9ce1bc8d3beb101f1a7a4ca862f968eba49367"),
    ("[\x7b\"id\":\"s1\",\"port\":22\x7d,\x7b\"id\":\"s2\",\"port\":22\x7d]",
      "b6e193cd974da63b8e8182be662418446e8e2cf622f99496f962d85beb3ae749"),
    ("\x7b\"id\":\"s1\",\"port\":22\x7d",
      "e70b306f1696d6cfad70728d2dc955a30c996fc2e0e1ec9ae22339d71b171995"),
    ("\x7b\"id\":\"s2\",\"port\":22\x7d",
      "8e00cf4bc3ba216f3e74aef45ec752bacbdd84fad6d2715910c7bb0cabb9e87d")]

def oneServer : Buffer := .ofText "[\x7b\"id\":\"s1\",\"port\":22\x7d]"

/-- What another device has added to. -/
def twoServers : Buffer :=
  .ofText "[\x7b\"id\":\"s1\",\"port\":22\x7d,\x7b\"id\":\"s2\",\"port\":22\x7d]"

/-- What is saved while the pass awaits. -/
def editedServer : Buffer := .ofText "[\x7b\"id\":\"s1\",\"port\":2222\x7d]"

/-- A relay that holds the servers of another device. -/
def serversRelay (w : Shore × FlightLog) (o : Op) : o.Reply × (Shore × FlightLog) :=
  let answer := oneObject .servers ⟨⟨"servers", 1, 1, 2, .payload twoServers⟩, "etag-2"⟩ true w.1 o
  (answer.1, answer.2, w.2.observe w.1.account o answer.1)

/-- A relay that holds none, and a sidecar and a relay that refuse whatever lands. -/
def refusingRelay (w : Shore × FlightLog) : (o : Op) → o.Reply × (Shore × FlightLog)
  | .getObject name epoch =>
    (.ok none, w.1, w.2.observe w.1.account (.getObject name epoch) (.ok none))
  | .open .. => (.error ⟨some .rosterInvalid, ""⟩, w)
  | .keepConflict .. => (.error ⟨some .quotaExceeded, ""⟩, w)
  | o => serversRelay w o

/-- A device with one server, and what it remembers of it. -/
def device (entry : Option CollectionState) : Shore × FlightLog :=
  ({ disk := fun n => if n = .servers then some oneServer else none
     file := some ⟨some "a", fun n => if n = .servers then entry else none, fun _ => 0⟩
     forgets := 0
     account := "a" },
    ⟨⟨.fresh none, .servers, none, [], none⟩, fun _ => none, fun _ => none, []⟩)

theorem device_stays (entry : Option CollectionState) : Stays (device entry) := by
  intro n b hn
  cases hn

@[irreducible] def serversPass : Prog Op Op.Reply (Except Failure SyncResult × SyncState) :=
  @syncOnce portDigest (.fresh none)

/-- The edited server saved. -/
def saved (w : Shore × FlightLog) : Shore × FlightLog :=
  (w.1.put .servers (some editedServer),
    { w.2 with unread := Function.update w.2.unread .servers (some editedServer) })

theorem life_saved {calm : Prop} {w v : Shore × FlightLog}
    {p : Prog Op Op.Reply (Except Failure SyncResult × SyncState)}
    (hp : p.pending.map Op.awaited = some true)
    (h : Life (@flightWorld portDigest calm) serversPass Beside (none, w) (some p, v)) :
    Life (@flightWorld portDigest calm) serversPass Beside (none, w) (some p, saved v) := by
  obtain ⟨o, ho, hawaited⟩ := Option.map_eq_some_iff.mp hp
  refine h.tail (.turn (turn_of_pending ho ?_))
  simp only [flightWorld, Meanwhile, hawaited, if_true]
  exact .single (Or.inl ⟨_, _, rfl, rfl⟩)

theorem reply_serversRelay {w : Shore × FlightLog} {o : Op} :
    (@flightWorld portDigest False).reply w o (serversRelay w o).1 (serversRelay w o).2 :=
  ⟨serves_oneObject _ _ _ _ _, rfl, False.elim⟩

theorem reply_refusingRelay {w : Shore × FlightLog} {o : Op} :
    (@flightWorld portDigest True).reply w o (refusingRelay w o).1 (refusingRelay w o).2 := by
  have hserves := (reply_serversRelay (w := w) (o := o)).1
  cases o with
  | putObject => exact ⟨hserves, rfl, fun _ h => h.elim⟩
  | «open» => exact ⟨by simp [refusingRelay, Serves], rfl, fun _ h => h.elim⟩
  | keepConflict => exact ⟨rfl, rfl, fun _ h => h.elim⟩
  | getObject => exact ⟨rfl, rfl, fun _ h => h.elim⟩
  | _ => exact ⟨hserves, rfl, fun _ h => h.elim⟩

/-- A device that offers its server, as far as the write to the relay. -/
@[irreducible] def offering :
    Prog Op Op.Reply (Except Failure SyncResult × SyncState) × (Shore × FlightLog) :=
  Prog.advance refusingRelay 34 (serversPass, device none)

/-- It is edited there, and the write fails. -/
@[irreducible] def offered : Shore × FlightLog := (offering.1.exec refusingRelay (saved offering.2)).2

theorem saves_survive_offering : Survives .servers editedServer offered := by
  have hrun : Life (@flightWorld portDigest True) serversPass Beside (none, device none)
      (some offering.1, offering.2) := by
    unfold offering
    exact (Relation.ReflTransGen.single (.start _)).trans
      (life_of_run (run_advance (fun _ _ => reply_refusingRelay) 34 (serversPass, device none)))
  have hend : Life (@flightWorld portDigest True) serversPass Beside (none, device none)
      (none, offered) := by
    unfold offered
    exact ((life_saved (by decide +kernel) hrun).trans (life_of_run
      (run_exec (fun _ _ => reply_refusingRelay) offering.1 (saved offering.2)))).tail (.stop _ _)
  unfold serversPass at hend
  exact @saves_survive portDigest _ (device_stays none) _ hend .servers editedServer
    (by decide +kernel)

/-- The agreement about the one server. -/
def agreedServer : CollectionState :=
  ⟨"etag-1", 1, "64d9e3f83745edb29fd401f2df9ce1bc8d3beb101f1a7a4ca862f968eba49367",
    some [("s1", "e70b306f1696d6cf")], none⟩

/-- A device that pulls both servers, as far as opening them. -/
@[irreducible] def pulling :
    Prog Op Op.Reply (Except Failure SyncResult × SyncState) × (Shore × FlightLog) :=
  Prog.advance serversRelay 33 (serversPass, device (some agreedServer))

/-- It is edited there, and the pass goes on. -/
@[irreducible] def pulled : Shore × FlightLog := (pulling.1.exec serversRelay (saved pulling.2)).2

/-- The edit of `s1` saved while the pull awaits the sidecar is nowhere after the pass. -/
theorem save_lost :
    letI := portDigest
    ∃ w b, Life (flightWorld False) (syncOnce (.fresh none)) Beside
      (none, device (some agreedServer)) (none, w) ∧
      w.2.unread .servers = some b ∧ ¬ Survives .servers b w := by
  have hrun : Life (@flightWorld portDigest False) serversPass Beside
      (none, device (some agreedServer)) (some pulling.1, pulling.2) := by
    unfold pulling
    exact (Relation.ReflTransGen.single (.start _)).trans (life_of_run
      (run_advance (fun _ _ => reply_serversRelay) 33 (serversPass, device (some agreedServer))))
  have hend : Life (@flightWorld portDigest False) serversPass Beside
      (none, device (some agreedServer)) (none, pulled) := by
    unfold pulled
    exact ((life_saved (by decide +kernel) hrun).trans (life_of_run
      (run_exec (fun _ _ => reply_serversRelay) pulling.1 (saved pulling.2)))).tail (.stop _ _)
  unfold serversPass at hend
  refine ⟨pulled, editedServer, hend, by decide +kernel, fun hall => ?_⟩
  have hdisk : pulled.1.disk .servers = some twoServers := by decide +kernel
  have hobject : pulled.2.object .servers = some twoServers := by decide +kernel
  have hkept : pulled.2.kept = [] := by decide +kernel
  obtain ⟨b, hv, hb⟩ := hall "\x7b\"id\":\"s1\",\"port\":2222\x7d".toList (by decide +kernel)
  simp only [hdisk, hobject, hkept, List.not_mem_nil, or_false, or_self, Option.some.injEq] at hb
  subst hb
  exact absurd hv (by decide +kernel)

end Overtaken

end OpsMaxx.Addy.InFlight
