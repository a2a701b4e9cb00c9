import OpsMaxx.Addy.Sync

/-! # The counter floor

`counterFloor` never goes down, whatever a pass does and whatever is forgotten while it runs. That
it covers every counter the device has seen takes more: a pass records a counter at the end of a
collection, and the file at the end of the pass. `Steady` says which replies lose a counter in
between, and `Beside` when a forget does.
-/

set_option autoImplicit false

namespace OpsMaxx.Addy.Floor

open OpsMaxx.Interact

/-! ## What a pass has seen -/

/-- The highest counter of each collection the device has opened from the relay or written to it;
and, of the pass that runs, the floors it started from, how often the state had been forgotten then,
the collection it is at and how often it has read that one from the relay. -/
structure FloorLog where
  seen : SyncedCollection → Nat
  floors : SyncedCollection → Nat
  start : Nat
  current : SyncedCollection
  reads : Nat

namespace FloorLog

/-- A counter of the collection at hand is seen. -/
def saw (g : FloorLog) (counter : Nat) : FloorLog :=
  { g with seen := Function.update g.seen g.current (max (g.seen g.current) counter) }

/-- Nothing seen of the collection at hand is above the floor the pass started from. -/
def Low (g : FloorLog) : Prop := g.seen g.current ≤ g.floors g.current

/-- Nothing seen of any collection is. -/
def AllLow (g : FloorLog) : Prop := ∀ n, g.seen n ≤ g.floors n

/-- How the log goes on. A write that fails without a `conflict` may have reached the relay. -/
def Notes (w : Shore) (g : FloorLog) : (o : Op) → o.Reply → FloorLog → Prop
  | .loadStateFile, file, g' => g' =
      { g with floors := floorOf (loadState file (some w.account)), start := w.forgets }
  | .epoch, _, g' => g' = { g with reads := 0 }
  | .read name, _, g' => g' = { g with current := name }
  | .getObject _ _, _, g' => g' = { g with reads := g.reads + 1 }
  | .open .., .ok opened, g' => g' = g.saw opened.counter
  | .putObject _ _ counter _ _, .ok _, g' => g' = g.saw counter
  | .putObject _ _ counter _ _, .error e, g' =>
    g' = g ∨ e.code ≠ some .conflict ∧ g' = g.saw counter
  | _, _, g' => g' = g

/-- A counter that is not below one seen and not recorded, and that a forget has not overtaken. -/
def Follows (w : Shore) (g : FloorLog) (counter : Nat) : Prop :=
  g.seen g.current ≤ max (g.floors g.current) counter ∧
  (g.floors g.current < counter → w.forgets = g.start)

/-- An error, with nothing seen that would now go unrecorded. -/
def Harmless {α : Type} (g : FloorLog) (r : Except Failure α) : Prop := ∀ e, r = .error e → g.Low

/-- The replies that lose no counter. The `conflict` after the first read of a collection is not the
end of it: the pass goes on to read again. -/
def Steady (w : Shore) (g g' : FloorLog) : (o : Op) → o.Reply → Prop
  | .saveStateFile _, .error _ => g.AllLow
  | .write _ _, r => g.Harmless r
  | .applied _, r => g.Harmless r
  | .read name, r => ∀ e, r = .error e → g.seen name ≤ g.floors name
  | .whoami, r => g.Harmless r
  | .seal .., r => g.Harmless r
  | .getObject _ _, r => g.Harmless r
  | .keepConflict .., r => g.Harmless r
  | .open .., .ok opened => g.Follows w opened.counter
  | .open .., .error _ => g.Low
  | .putObject _ _ counter _ _, .ok _ => g.Follows w counter
  | .putObject .., .error e => g'.Low ∨ e.code = some .conflict ∧ g.reads = 1
  | _, _ => True

end FloorLog

/-! ## The surroundings of a pass -/

/-- Forgetting that keeps the floors. -/
inductive ForgetsKept (w : Shore) : Shore → Prop
  | state (only : Option (List SyncedCollection)) : ForgetsKept w
      { w with file := some (forgetSyncState w.file only false), forgets := w.forgets + 1 }
  | epoch : ForgetsKept w
      { w with file := some (forgetEpochState w.file), forgets := w.forgets + 1 }

/-- What the rest of the app does while a pass awaits; if `calm`, it forgets nothing once the pass
has seen a counter above the floors. -/
def Beside (calm : Prop) (g : FloorLog) (w w' : Shore) : Prop :=
  Edits w w' ∨ ForgetsKept w w' ∧ (calm → g.AllLow)

/-- The surroundings of a pass. The state file is only written over by one that goes no lower; if
`calm`, every reply is `Steady`. -/
def floorWorld (calm : Prop) : Surroundings (Shore × FloorLog) Op Op.Reply where
  drift o w w' := Meanwhile (Beside calm w.2) o w.1 w'.1 ∧ w'.2 = w.2
  demand o w := ∀ s, o = .saveStateFile s → ∀ n, counterFloor w.1.file n ≤ counterFloor (some s) n
  reply w o r w' := Serves w.1 o r w'.1 ∧ w.2.Notes w.1 o r w'.2 ∧
    (calm → w.2.Steady w.1 w'.2 o r)
  drift_refl _ _ := ⟨.refl _ _ _, rfl⟩
  drift_trans _ w₁ w₂ w₃ h h' := by
    refine ⟨h.1.trans ?_, h'.2.trans h.2⟩
    rw [← h.2]
    exact h'.1

/-! ## Floors of the state file -/

theorem floorOf_savedState (s : SyncState) (n : SyncedCollection) :
    floorOf (savedState s) n = floorOf s n := by
  simp only [floorOf, savedState]
  omega

theorem floorOf_fresh (a : Option String) (n : SyncedCollection) :
    floorOf (.fresh a) n = 0 := rfl

@[simp] theorem loadState_none (s : SyncState) : loadState (some s) none = s := rfl

theorem counterFloor_some (s : SyncState) (n : SyncedCollection) :
    counterFloor (some s) n = floorOf s n := rfl

theorem counterOf_le_floorOf (s : SyncState) (n : SyncedCollection) :
    counterOf (s.collections n) ≤ floorOf s n := le_max_left _ _

theorem floorOf_forgetSyncState (file : Option SyncState) (only : Option (List SyncedCollection))
    (n : SyncedCollection) : floorOf (forgetSyncState file only false) n = counterFloor file n := by
  have hle := counterOf_le_floorOf (loadState file none) n
  unfold forgetSyncState counterFloor
  simp only [Bool.false_eq_true, if_false]
  cases only with
  | none =>
    rw [floorOf_savedState, floorOf]
    exact max_eq_right (Nat.zero_le _)
  | some only =>
    rw [floorOf_savedState, floorOf]
    refine max_eq_right ?_
    simp only
    split_ifs
    · exact Nat.zero_le _
    · exact hle

theorem floorOf_forgetEpochState (file : Option SyncState) (n : SyncedCollection) :
    floorOf (forgetEpochState file) n = counterFloor file n := by
  unfold forgetEpochState counterFloor
  simp only
  rw [floorOf_savedState, floorOf]
  refine max_eq_right ?_
  cases h : (loadState file none).collections n <;> simp [h, counterOf, forgetEpochEntry]

/-- Forgetting keeps the floors. -/
theorem ForgetsKept.counterFloor_eq {w w' : Shore} (h : ForgetsKept w w') (n : SyncedCollection) :
    counterFloor w'.file n = counterFloor w.file n := by
  cases h with
  | state only => exact floorOf_forgetSyncState _ _ _
  | epoch => exact floorOf_forgetEpochState _ _

/-- A file of this account, or one with nothing in it to lose. -/
def Ours (w : Shore) : Prop :=
  ∀ s, w.file = some s → s.accountId = some w.account ∨ ∀ n, floorOf s n = 0

theorem Ours.floorOf_loadState {w : Shore} (h : Ours w) (n : SyncedCollection) :
    floorOf (loadState w.file (some w.account)) n = counterFloor w.file n := by
  cases hf : w.file with
  | none => rfl
  | some s =>
    by_cases ha : s.accountId = some w.account
    · simp [loadState, ha, counterFloor]
    · have hzero := (h s hf).resolve_left ha n
      simp only [loadState, ne_eq, reduceCtorEq, not_false_eq_true, ha, and_self, if_true,
        floorOf_fresh, counterFloor_some, hzero]

theorem accountId_loadState (w : Shore) :
    (loadState w.file (some w.account)).accountId = some w.account := by
  cases hf : w.file with
  | none => rfl
  | some s =>
    by_cases ha : s.accountId = some w.account <;> simp [loadState, ha, SyncState.fresh]

theorem ForgetsKept.ours {w w' : Shore} (h : ForgetsKept w w') (hw : Ours w) : Ours w' := by
  have hfloor := h.counterFloor_eq
  have hid : ∃ s', w'.file = some s' ∧ w'.account = w.account ∧
      s'.accountId = (loadState w.file none).accountId := by
    cases h with
    | state only => cases only <;> exact ⟨_, rfl, rfl, rfl⟩
    | epoch => exact ⟨_, rfl, rfl, rfl⟩
  obtain ⟨s', hfile, haccount, hid⟩ := hid
  intro s hs
  obtain rfl := Option.some.inj (hfile.symm.trans hs)
  simp only [hfile, counterFloor_some] at hfloor
  cases hf : w.file with
  | none => exact Or.inr fun n => by rw [hfloor, hf]; rfl
  | some s =>
    rw [hf] at hid hfloor
    rcases hw s hf with ha | hz
    · exact Or.inl (by rw [hid, haccount]; exact ha)
    · exact Or.inr fun n => by rw [hfloor]; exact hz n

/-! ## What holds all through a pass -/

/-- Between the load of the state and its save: the file is ours, its floors are those the pass
started from, and if it was forgotten since, nothing has been seen above them. -/
structure Underway (calm : Prop) (w : Shore × FloorLog) : Prop where
  ours : Ours w.1
  floors : ∀ n, counterFloor w.1.file n = w.2.floors n
  low : calm → w.1.forgets ≠ w.2.start → w.2.AllLow

variable {calm : Prop}

theorem Beside.underway {g : FloorLog} {w w' : Shore} (h : Beside calm g w w')
    (hw : Underway calm (w, g)) : Underway calm (w', g) := by
  rcases h with ⟨name, b, rfl⟩ | ⟨hf, hlow⟩
  · exact ⟨hw.ours, hw.floors, hw.low⟩
  · exact ⟨hf.ours hw.ours, fun n => (hf.counterFloor_eq n).trans (hw.floors n),
      fun hc _ => hlow hc⟩

theorem underway_of_drift {o : Op} {w w' : Shore × FloorLog}
    (h : (floorWorld calm).drift o w w') (hw : Underway calm w) : Underway calm w' := by
  obtain ⟨hm, hg⟩ := h
  obtain ⟨v, g⟩ := w
  obtain ⟨v', g'⟩ := w'
  obtain rfl : g' = g := hg
  exact hm.keeps (I := fun u => Underway calm (u, g')) (fun u u' hu => hu.underway) hw

theorem account_of_drift {o : Op} {w w' : Shore × FloorLog} (h : (floorWorld calm).drift o w w') :
    w'.1.account = w.1.account := by
  refine h.1.keeps (I := fun v => v.account = w.1.account) (fun v v' hb hv => ?_) rfl
  rcases hb with ⟨name, b, rfl⟩ | ⟨hf, -⟩
  · exact hv
  · cases hf <;> exact hv

/-! ## The parts of a pass -/

/-- A stretch of a pass within one collection. -/
structure Within (calm : Prop) (name : SyncedCollection) (w w' : Shore × FloorLog) : Prop where
  current : w'.2.current = name
  floors : w'.2.floors = w.2.floors
  start : w'.2.start = w.2.start
  account : w'.1.account = w.1.account
  others : ∀ n ≠ name, w'.2.seen n = w.2.seen n
  reads : w.2.reads ≤ w'.2.reads
  underway : Underway calm w → Underway calm w'

theorem Within.trans {name : SyncedCollection} {w₁ w₂ w₃ : Shore × FloorLog}
    (h : Within calm name w₁ w₂) (h' : Within calm name w₂ w₃) : Within calm name w₁ w₃ :=
  ⟨h'.current, h'.floors.trans h.floors, h'.start.trans h.start, h'.account.trans h.account,
    fun n hn => (h'.others n hn).trans (h.others n hn), h.reads.trans h'.reads,
    fun hw => h'.underway (h.underway hw)⟩

/-- A counter at most `bound` has been seen of the collection, if the replies were steady. -/
def SeenUpTo (calm : Prop) (name : SyncedCollection) (bound : Nat) (w : Shore × FloorLog) : Prop :=
  calm → w.2.seen name ≤ bound

/-- At a collection whose floor was `F` when the pass started. -/
structure At (name : SyncedCollection) (F : Nat) (w : Shore × FloorLog) : Prop where
  current : w.2.current = name
  floor : w.2.floors name = F

theorem Within.stays {name : SyncedCollection} {F : Nat} {w w' : Shore × FloorLog}
    (h : Within calm name w w') (hat : At name F w) : At name F w' :=
  ⟨h.current, by rw [h.floors, hat.floor]⟩

/-- The requests that see no counter. -/
def Blind (name : SyncedCollection) : Op → Prop
  | .write .. | .applied _ | .whoami | .seal .. | .keepConflict .. => True
  | .read n => n = name
  | _ => False

/-- The parts of a machine a pass keeps its floors by. -/
def SameFile (w w' : Shore) : Prop :=
  w'.file = w.file ∧ w'.forgets = w.forgets ∧ w'.account = w.account

theorem Underway.sameFile {w : Shore} {g : FloorLog} {w' : Shore} (h : Underway calm (w, g))
    (hs : SameFile w w') : Underway calm (w', g) := by
  obtain ⟨hfile, hforgets, haccount⟩ := hs
  refine ⟨?_, fun n => ?_, fun hc hne => h.low hc (hforgets ▸ hne)⟩
  · intro s hf
    rw [haccount]
    exact h.ours s (hfile ▸ hf)
  · simp only [hfile]
    exact h.floors n

theorem sameFile_of_serves {o : Op} {r : o.Reply} {w w' : Shore}
    (ho : ∀ s, o ≠ .saveStateFile s) (h : Serves w o r w') : SameFile w w' := by
  cases o with
  | saveStateFile s => exact absurd rfl (ho s)
  | write name body =>
    obtain ⟨-, b, rfl⟩ := h
    exact ⟨rfl, rfl, rfl⟩
  | _ => simp_all [Serves, SameFile]

theorem notes_blind {name : SyncedCollection} {o : Op} {r : o.Reply} {v : Shore} {g g' : FloorLog}
    (ho : Blind name o) (hcur : g.current = name) (h : g.Notes v o r g') : g' = g := by
  cases o with
  | read n =>
    obtain rfl : n = name := ho
    rw [show g' = { g with current := n } from h, ← hcur]
  | write | applied | whoami | «seal» | keepConflict => exact h
  | _ => exact ho.elim

section Steps
variable {α : Type} {name : SyncedCollection} {F : Nat} {s : SyncState} {w : Shore × FloorLog}
variable {Q : Except Failure α → SyncState → Shore × FloorLog → Prop}

theorem within_of_drift {o : Op} {w' : Shore × FloorLog} (hcur : w.2.current = name)
    (h : (floorWorld calm).drift o w w') : Within calm name w w' :=
  ⟨by rw [h.2, hcur], by rw [h.2], by rw [h.2], account_of_drift h, fun _ _ => by rw [h.2],
    by rw [h.2], underway_of_drift h⟩

/-- A request served at once. -/
theorem wp_atOnce {o : Op} {f : o.Reply → Except Failure α}
    (ho : o.awaited = false)
    (hdemand : (floorWorld calm).demand o w)
    (h : ∀ r w', (floorWorld calm).reply w o r w' → Q (f r) s w') :
    Proc.wp (floorWorld calm) (Proc.request o f) Q s w := by
  rw [Proc.wp_request]
  rintro ⟨v, g⟩ ⟨hv, rfl⟩
  obtain rfl : v = w.1 := by simpa [Meanwhile, ho] using hv
  exact ⟨hdemand, h⟩

/-- A request that sees no counter. -/
theorem wp_blind {o : Op} {f : o.Reply → Except Failure α} (ho : Blind name o)
    (hat : At name F w)
    (hf : ∀ v g' r, w.2.Steady v g' o r → ∀ e, f r = .error e → w.2.Low)
    (h : ∀ r v w', Serves v o r w'.1 → w'.2 = w.2 → Within calm name w w' →
      (∀ e, f r = .error e → SeenUpTo calm name F w') → Q (f r) s w') :
    Proc.wp (floorWorld calm) (Proc.request o f) Q s w := by
  obtain ⟨hcur, rfl⟩ := hat
  rw [Proc.wp_request]
  intro w₁ hd
  have hin := within_of_drift hcur hd
  refine ⟨?_, fun r w₂ hr => ?_⟩
  · rintro s rfl
    exact ho.elim
  · obtain ⟨hs, hn, hsteady⟩ := hr
    rw [hd.2] at hn hsteady
    have hlog := notes_blind ho hcur hn
    have hfile := sameFile_of_serves (by rintro s rfl; exact ho.elim) hs
    refine h r w₁.1 w₂ hs hlog ⟨by rw [hlog, hcur], by rw [hlog], by rw [hlog],
      hfile.2.2.trans hin.account, fun _ _ => by rw [hlog], by rw [hlog], fun hw => ?_⟩
      fun e he hc => ?_
    · have hu := (hin.underway hw).sameFile hfile
      rw [hd.2, ← hlog] at hu
      exact hu
    · have hlow := hf _ _ _ (hsteady hc) e he
      rw [hlog, ← hcur]
      exact hlow

/-- Reading the object again from the relay. -/
theorem wp_getObject {epoch : Nat}
    {Q : Except Failure (Option RemoteObject) → SyncState → Shore × FloorLog → Prop}
    (hat : At name F w)
    (h : ∀ x w', Within calm name w w' → w'.2.seen = w.2.seen → w'.2.reads = w.2.reads + 1 →
      (∀ e, x = .error e → SeenUpTo calm name F w') → Q x s w') :
    Proc.wp (floorWorld calm) (Proc.request (.getObject name epoch) id) Q s w := by
  obtain ⟨hcur, rfl⟩ := hat
  rw [Proc.wp_request]
  intro w₁ hd
  have hin := within_of_drift hcur hd
  refine ⟨by rintro s ⟨⟩, fun r w₂ hr => ?_⟩
  obtain ⟨hs, hn, hsteady⟩ := hr
  rw [hd.2] at hn hsteady
  have hlog : w₂.2 = { w.2 with reads := w.2.reads + 1 } := hn
  have hfile := sameFile_of_serves (by simp) hs
  refine h r w₂ ⟨by rw [hlog, ← hcur], by rw [hlog], by rw [hlog], hfile.2.2.trans hin.account,
    fun _ _ => by rw [hlog], by rw [hlog]; exact Nat.le_succ _, fun hw => ?_⟩
    (by rw [hlog]) (by rw [hlog]) fun e he hc => ?_
  · have hu := (hin.underway hw).sameFile hfile
    rw [hd.2] at hu
    exact ⟨hu.ours, fun n => by rw [hlog]; exact hu.floors n,
      fun hc hne => by rw [hlog] at hne ⊢; exact hu.low hc hne⟩
  · have hlow := hsteady hc e he
    rw [hlog, ← hcur]
    exact hlow

/-- What seeing a counter does: it is noted, and it is not below what went unrecorded. -/
theorem within_of_saw {w₁ w₂ : Shore × FloorLog} {counter : Nat} (hcur : w.2.current = name)
    (hin : Within calm name w w₁) (hg : w₁.2 = w.2) (hfile : SameFile w₁.1 w₂.1)
    (hlog : w₂.2 = w.2.saw counter) (hf : calm → w.2.Follows w₁.1 counter) :
    Within calm name w w₂ ∧ SeenUpTo calm name (max (w.2.floors name) counter) w₂ := by
  refine ⟨⟨by rw [hlog]; exact hcur, by rw [hlog]; rfl, by rw [hlog]; rfl,
    hfile.2.2.trans hin.account, fun n hn => ?_, by rw [hlog]; rfl, fun hw => ?_⟩, fun hc => ?_⟩
  · rw [hlog, FloorLog.saw]
    exact Function.update_of_ne (by rw [hcur]; exact hn) _ _
  · have hu := (hin.underway hw).sameFile hfile
    rw [hg] at hu
    refine ⟨hu.ours, fun n => by rw [hlog]; exact hu.floors n, fun hc hne n => ?_⟩
    rw [hlog] at hne ⊢
    have hlow := hu.low hc hne
    have hkept : ¬ w.2.floors w.2.current < counter := fun hlt =>
      hne (hfile.2.1.trans ((hf hc).2 hlt))
    have hn := hlow w.2.current
    simp only [FloorLog.saw]
    by_cases hn' : n = w.2.current
    · subst hn'
      rw [Function.update_self]
      exact max_le hn (not_lt.mp hkept)
    · rw [Function.update_of_ne hn']
      exact hlow n
  · have hle := (hf hc).1
    rw [hlog, ← hcur]
    simp only [FloorLog.saw, Function.update_self]
    exact max_le hle (le_max_right _ _)

/-- Opening an object: its counter is not below the one asked for. -/
theorem wp_openObject {epoch seenCounter : Nat} {object : Sealed}
    {Q : Except Failure Opened → SyncState → Shore × FloorLog → Prop} (hat : At name F w)
    (herror : ∀ e w', Within calm name w w' → w'.2.reads = w.2.reads →
      SeenUpTo calm name F w' → Q (.error e) s w')
    (h : ∀ opened w', Within calm name w w' → w'.2.reads = w.2.reads →
      seenCounter ≤ opened.counter →
      SeenUpTo calm name (max F opened.counter) w' → Q (.ok opened) s w') :
    Proc.wp (floorWorld calm) (openObject name epoch object seenCounter) Q s w := by
  obtain ⟨hcur, rfl⟩ := hat
  unfold openObject
  rw [Proc.wp_request]
  intro w₁ hd
  have hin := within_of_drift hcur hd
  refine ⟨by rintro s ⟨⟩, fun r w₂ hr => ?_⟩
  obtain ⟨hs, hn, hsteady⟩ := hr
  rw [hd.2] at hn hsteady
  have hfile := sameFile_of_serves (by simp) hs
  cases r with
  | error e =>
    have hlog : w₂.2 = w.2 := hn
    refine herror _ w₂ ⟨by rw [hlog, hcur], by rw [hlog], by rw [hlog],
      hfile.2.2.trans hin.account, fun _ _ => by rw [hlog], by rw [hlog], fun hw => ?_⟩
      (by rw [hlog]) fun hc => ?_
    · have hu := (hin.underway hw).sameFile hfile
      rw [hd.2, ← hlog] at hu
      exact hu
    · have hlow : w.2.Low := hsteady hc
      rw [hlog, ← hcur]
      exact hlow
  | ok opened =>
    obtain ⟨hin', hseen⟩ := within_of_saw hcur hin hd.2 hfile hn hsteady
    have hopens := hs.1 opened rfl
    exact h opened w₂ hin' (by rw [show w₂.2 = _ from hn]; rfl)
      (hopens.opened_counter ▸ hopens.counter) hseen

/-- A write to the relay that fails otherwise than by losing to another device leaves nothing
unrecorded; so does one that loses, except after the first read. -/
theorem wp_putSealed {epoch counter : Nat} {payload : Buffer} {ifMatch : Option String}
    {Q : Except Failure String → SyncState → Shore × FloorLog → Prop} (hat : At name F w)
    (herror : ∀ e w', Within calm name w w' → w'.2.reads = w.2.reads →
      (¬ (e.code = some .conflict ∧ w.2.reads = 1) → SeenUpTo calm name F w') →
      Q (.error e) s w')
    (h : ∀ etag w', Within calm name w w' → w'.2.reads = w.2.reads →
      SeenUpTo calm name (max F counter) w' → Q (.ok etag) s w') :
    Proc.wp (floorWorld calm) (putSealed name epoch counter payload ifMatch) Q s w := by
  simp only [putSealed, Proc.wp_bind]
  refine wp_blind trivial hat (fun _ _ _ h => h) fun r _ w₁ _ hg hin hlow => ?_
  cases r with
  | error e => exact herror e w₁ hin (by rw [hg]) fun _ => hlow e rfl
  | ok object =>
    obtain ⟨hcur, rfl⟩ := hat
    refine (Proc.wp_request _ _).mpr fun w₂ hd => ?_
    have hin₂ := hin.trans (within_of_drift hin.current hd)
    have hg₂ : w₂.2 = w.2 := hd.2.trans hg
    refine ⟨by rintro s ⟨⟩, fun r w₃ hr => ?_⟩
    obtain ⟨hs, hn, hsteady⟩ := hr
    rw [hg₂] at hn hsteady
    have hfile := sameFile_of_serves (by simp) hs
    cases r with
    | ok etag =>
      obtain ⟨hin₃, hseen⟩ := within_of_saw hcur hin₂ hg₂ hfile hn hsteady
      exact h etag w₃ hin₃ (by rw [show w₃.2 = _ from hn]; rfl) hseen
    | error e =>
      have hnoted : w₃.2.current = w.2.current ∧ w₃.2.floors = w.2.floors ∧
          w₃.2.start = w.2.start ∧ w₃.2.reads = w.2.reads ∧
          (∀ n ≠ w.2.current, w₃.2.seen n = w.2.seen n) ∧
          (e.code = some .conflict → w₃.2.seen = w.2.seen) := by
        rcases hn with hn | ⟨hcode, hn⟩
        · simp [hn]
        · rw [hn]
          exact ⟨rfl, rfl, rfl, rfl, fun n hne => Function.update_of_ne hne _ _,
            fun h => absurd h hcode⟩
      obtain ⟨hcur₃, hfloors, hstart, hreads, hothers, hsame⟩ := hnoted
      refine herror e w₃ ⟨hcur₃.trans hcur, hfloors, hstart, hfile.2.2.trans hin₂.account,
        fun n hne => hothers n (hcur ▸ hne), hreads.ge, fun hw => ?_⟩ hreads fun hnot hc => ?_
      · have hu := (hin₂.underway hw).sameFile hfile
        rw [hg₂] at hu
        refine ⟨hu.ours, fun n => by rw [hfloors]; exact hu.floors n, fun hc hne n => ?_⟩
        have hlow := hu.low hc (hstart ▸ hne)
        rw [hfloors]
        by_cases hn : n = w.2.current
        · rcases hsteady hc with hlow₃ | ⟨hcode, -⟩
          · rw [hn, ← hcur₃, ← hfloors]
            exact hlow₃
          · rw [hsame hcode]
            exact hlow n
        · rw [hothers n hn]
          exact hlow n
      · have hlow := (hsteady hc).resolve_right hnot
        rw [FloorLog.Low, hcur₃, hcur, hfloors] at hlow
        exact hlow

theorem wp_keepAsConflict {epoch counter : Nat} {payload : Buffer}
    {reason : Option ConflictReason} {Q : Except Failure Unit → SyncState → Shore × FloorLog → Prop}
    (hat : At name F w)
    (h : ∀ x w', Within calm name w w' → w'.2 = w.2 →
      (∀ e, x = .error e → SeenUpTo calm name F w') → Q x s w') :
    Proc.wp (floorWorld calm) (keepAsConflict name epoch counter payload reason) Q s w := by
  simp only [keepAsConflict, sealConflict, Proc.wp_bind]
  refine wp_blind trivial hat (fun _ _ _ h => h) fun r _ w₁ _ hg hin hlow => ?_
  cases r with
  | error e => exact h _ _ hin hg (by rintro _ ⟨⟩; exact hlow e rfl)
  | ok devicePub =>
    refine wp_blind trivial (hin.stays hat) (fun _ _ _ h => h)
      fun r _ w₂ _ hg₂ hin₂ hlow => ?_
    rw [hg] at hg₂
    cases r with
    | error e => exact h _ _ (hin.trans hin₂) hg₂ (by rintro _ ⟨⟩; exact hlow e rfl)
    | ok object =>
      refine wp_blind trivial (hin₂.stays (hin.stays hat)) (fun _ _ _ h => h)
        fun r _ w₃ _ hg₃ hin₃ hlow => ?_
      rw [hg₂] at hg₃
      exact h _ _ ((hin.trans hin₂).trans hin₃) hg₃ hlow

theorem wp_writeBack {payload : Buffer}
    {Q : Except Failure Buffer → SyncState → Shore × FloorLog → Prop} (hat : At name F w)
    (h : ∀ x w', Within calm name w w' → w'.2 = w.2 → NoConflict x →
      (∀ e, x = .error e → SeenUpTo calm name F w') → Q x s w') :
    Proc.wp (floorWorld calm) (writeBack name payload) Q s w := by
  simp only [writeBack, Proc.wp_bind]
  refine wp_blind trivial hat (fun _ _ _ h => h) fun r _ w₁ hs hg hin hlow => ?_
  cases r with
  | error e => exact h _ _ hin hg hs.1.error_cast (by rintro _ ⟨⟩; exact hlow e rfl)
  | ok =>
    refine wp_blind trivial (hin.stays hat) (fun _ _ _ h => h)
      fun r _ w₂ hs hg₂ hin₂ hlow => ?_
    rw [hg] at hg₂
    cases r with
    | error e =>
      exact h _ _ (hin.trans hin₂) hg₂ hs.1.error_cast (by rintro _ ⟨⟩; exact hlow e rfl)
    | ok =>
      refine wp_blind rfl (hin₂.stays (hin.stays hat))
        (fun _ _ _ h e he => by rw [FloorLog.Low, hin₂.current]; exact h e he)
        fun r _ w₃ hs hg₃ hin₃ hlow => ?_
      rw [hg₂] at hg₃
      have hin' := (hin.trans hin₂).trans hin₃
      cases r with
      | error e => exact h _ _ hin' hg₃ hs.1.2.error_cast (by rintro _ ⟨⟩; exact hlow e rfl)
      | ok b => exact h _ _ hin' hg₃ (by simp [NoConflict]) (by simp)

end Steps

/-! ## One collection -/

/-- The state after a part of a collection: its own floor is no lower, the rest is as it was. -/
structure Aside (name : SyncedCollection) (s s' : SyncState) : Prop where
  others : ∀ n ≠ name, s'.collections n = s.collections n
  floors : s'.floors = s.floors
  account : s'.accountId = s.accountId
  mono : floorOf s name ≤ floorOf s' name

/-- The state after a collection: what was seen of it is under its floor. -/
structure Recorded (calm : Prop) (name : SyncedCollection) (s : SyncState) (w : Shore × FloorLog)
    (s' : SyncState) (w' : Shore × FloorLog) : Prop extends Aside name s s' where
  within : Within calm name w w'
  covers : SeenUpTo calm name (floorOf s' name) w'

theorem floorOf_record (s : SyncState) (name : SyncedCollection) (entry : CollectionState) :
    floorOf (s.record name entry) name = max entry.counter (s.floors name) := by
  simp [floorOf, counterOf]

section Parts
variable {name : SyncedCollection} {s s₁ : SyncState} {w w' : Shore × FloorLog}

theorem Aside.refl (name : SyncedCollection) (s : SyncState) : Aside name s s :=
  ⟨fun _ _ => rfl, rfl, rfl, le_rfl⟩

theorem Aside.floorOf_ne (h : Aside name s s₁) {n : SyncedCollection}
    (hn : n ≠ name) : floorOf s₁ n = floorOf s n := by
  rw [floorOf, floorOf, h.others n hn, h.floors]

theorem Aside.record (h : Aside name s s₁) {entry : CollectionState}
    (hle : floorOf s name ≤ max entry.counter (s.floors name)) :
    Aside name s (s₁.record name entry) where
  others n hn := (SyncState.record_collections_ne _ _ hn).trans (h.others n hn)
  floors := h.floors
  account := h.account
  mono := by rw [floorOf_record, h.floors]; exact hle

/-- The marker of a conflict copy leaves the floor where it was. -/
theorem aside_marker (entry : CollectionState)
    (hcounter : entry.counter = counterOf (s.collections name)) :
    Aside name s (s.record name entry) :=
  (Aside.refl name s).record (by rw [hcounter]; exact le_rfl)

theorem Recorded.low (ha : Aside name s s₁) (hin : Within calm name w w')
    (hseen : SeenUpTo calm name (floorOf s name) w') : Recorded calm name s w s₁ w' :=
  ⟨ha, hin, fun hc => (hseen hc).trans ha.mono⟩

theorem Recorded.entry (ha : Aside name s s₁) (hin : Within calm name w w') {counter : Nat}
    (hseen : SeenUpTo calm name (max (floorOf s name) counter) w') {entry : CollectionState}
    (hfloor : floorOf s name ≤ entry.counter) (hcounter : counter ≤ entry.counter) :
    Recorded calm name s w (s₁.record name entry) w' := by
  refine ⟨ha.record (hfloor.trans (le_max_left _ _)), hin, fun hc => (hseen hc).trans ?_⟩
  rw [floorOf_record]
  exact (max_le hfloor hcounter).trans (le_max_left _ _)

theorem Recorded.after {w₀ : Shore × FloorLog} {s' : SyncState} (hin : Within calm name w₀ w)
    (h : Recorded calm name s w s' w') : Recorded calm name s w₀ s' w' :=
  ⟨h.toAside, hin.trans h.within, h.covers⟩

theorem SeenUpTo.of_eq {bound : Nat} (h : SeenUpTo calm name bound w) (hlog : w'.2 = w.2) :
    SeenUpTo calm name bound w' :=
  fun hc => by rw [hlog]; exact h hc

/-- A copy that lands, and the entry that records its counter. -/
theorem wp_landing {w₀ : Shore × FloorLog} {payload : Buffer} {counter : Nat}
    {entry : Buffer → CollectionState}
    {Q : Except Failure Buffer → SyncState → Shore × FloorLog → Prop}
    (hat : At name (floorOf s name) w₀) (ha : Aside name s s₁) (hin : Within calm name w₀ w)
    (hseen : SeenUpTo calm name (max (floorOf s name) counter) w)
    (hfloor : ∀ b, floorOf s name ≤ (entry b).counter) (hcounter : ∀ b, counter ≤ (entry b).counter)
    (herror : ∀ e w', NoConflict (.error e : Except _ Buffer) → Recorded calm name s w₀ s₁ w' →
      Q (.error e) s₁ w')
    (hok : ∀ b w', Recorded calm name s w₀ (s₁.record name (entry b)) w' → Q (.ok b) s₁ w') :
    Proc.wp (floorWorld calm) (writeBack name payload) Q s₁ w := by
  refine wp_writeBack (hin.stays hat) fun x w' hin' hlog hcode hlow => ?_
  cases x with
  | error e => exact herror e w' hcode (.low ha (hin.trans hin') (hlow e rfl))
  | ok b =>
    exact hok b w' (.entry ha (hin.trans hin') (hseen.of_eq hlog) (hfloor b) (hcounter b))

/-- Before anything is read of a collection: the file as it was, and nothing seen. -/
structure Before (calm : Prop) (name : SyncedCollection) (s : SyncState) (w : Shore × FloorLog) :
    Prop where
  floor : w.2.floors name = floorOf s name
  low : SeenUpTo calm name (floorOf s name) w
  underway : Underway calm w

/-- After the collection. -/
structure After (calm : Prop) (name : SyncedCollection) (s : SyncState) (w : Shore × FloorLog)
    (s' : SyncState) (w' : Shore × FloorLog) : Prop where
  aside : Aside name s s'
  floors : w'.2.floors = w.2.floors
  start : w'.2.start = w.2.start
  here : w'.1.account = w.1.account
  seen : ∀ n ≠ name, w'.2.seen n = w.2.seen n
  underway : Underway calm w'
  covers : SeenUpTo calm name (floorOf s' name) w'

theorem Before.afterNothing (hw : Before calm name s w) (hfile : SameFile w.1 w'.1)
    (hseen : w'.2.seen = w.2.seen) (hfloors : w'.2.floors = w.2.floors)
    (hstart : w'.2.start = w.2.start) : After calm name s w s w' := by
  have hu := hw.underway.sameFile hfile
  refine ⟨.refl _ _, hfloors, hstart, hfile.2.2, fun _ _ => by rw [hseen], ⟨hu.ours, fun n => ?_, fun hc hne => ?_⟩,
    fun hc => by rw [hseen]; exact hw.low hc⟩
  · rw [hfloors]
    exact hu.floors n
  · have hlow := hu.low hc (hstart ▸ hne)
    intro n
    rw [hseen, hfloors]
    exact hlow n

/-- In the middle of a pass, with the collections `names` to go. -/
structure Midway (calm : Prop) (start : Nat) (names : List SyncedCollection) (s : SyncState)
    (w : Shore × FloorLog) : Prop where
  start : w.2.start = start
  account : s.accountId = some w.1.account
  underway : Underway calm w
  ahead : ∀ n ∈ names, w.2.floors n = floorOf s n
  mono : ∀ n, w.2.floors n ≤ floorOf s n
  covers : ∀ n, SeenUpTo calm n (floorOf s n) w

theorem Midway.next {start : Nat} {names : List SyncedCollection} {s' : SyncState}
    (hname : name ∉ names) (hw : Midway calm start (name :: names) s w)
    (h : After calm name s w s' w') : Midway calm start names s' w' := by
  have hne : ∀ n ∈ names, n ≠ name := fun n hn he => hname (he ▸ hn)
  refine ⟨h.start.trans hw.start, by rw [h.aside.account, hw.account, h.here], h.underway,
    fun n hn => ?_, fun n => ?_, fun n => ?_⟩
  · rw [h.floors, hw.ahead n (List.mem_cons_of_mem _ hn), h.aside.floorOf_ne (hne n hn)]
  · rw [h.floors]
    by_cases hn : n = name
    · subst hn
      exact (hw.mono n).trans h.aside.mono
    · rw [h.aside.floorOf_ne hn]
      exact hw.mono n
  · by_cases hn : n = name
    · subst hn
      exact h.covers
    · rw [h.aside.floorOf_ne hn]
      intro hc
      rw [h.seen n hn]
      exact hw.covers n hc

/-- Between passes: the floors of the file are this account's, and cover what has been seen. -/
structure Resting (calm : Prop) (w : Shore × FloorLog) : Prop where
  ours : Ours w.1
  covers : calm → ∀ n, w.2.seen n ≤ counterFloor w.1.file n

theorem Midway.resting {start : Nat} {names : List SyncedCollection}
    (hw : Midway calm start names s w) (hlow : calm → w.2.AllLow) : Resting calm w :=
  ⟨hw.underway.ours, fun hc n => by rw [hw.underway.floors n]; exact hlow hc n⟩

theorem wp_saveUnlessForgotten {start : Nat} (hw : Midway calm start [] s w) :
    Proc.wp (floorWorld calm) (saveUnlessForgotten start) (fun _ _ => Resting calm) s w := by
  simp only [saveUnlessForgotten, Proc.wp_bind]
  refine wp_atOnce rfl (by rintro s ⟨⟩) fun now w₁ hr => ?_
  obtain ⟨⟨rfl, hw₁⟩, hlog, -⟩ := hr
  obtain rfl : w₁ = w := Prod.ext hw₁ hlog
  simp only
  split_ifs with hforgot
  · exact hw.resting fun hc => hw.underway.low hc (hw.start ▸ hforgot)
  · simp only [Proc.wp_bind, Proc.wp_get]
    refine wp_atOnce rfl ?_ fun r w₂ hr => ?_
    · rintro _ ⟨⟩ n
      rw [counterFloor_some, floorOf_savedState, hw.underway.floors n]
      exact hw.mono n
    · obtain ⟨hs, hlog, hsteady⟩ := hr
      obtain ⟨v, g⟩ := w₂
      obtain rfl : g = w₁.2 := hlog
      cases r with
      | error e =>
        obtain rfl : v = w₁.1 := hs
        exact hw.resting fun hc => hsteady hc
      | ok _ =>
        obtain rfl : v = { w₁.1 with file := some (savedState s) } := hs
        refine ⟨?_, fun hc n => ?_⟩
        · rintro _ ⟨⟩
          exact Or.inl hw.account
        · rw [counterFloor_some, floorOf_savedState]
          exact hw.covers n hc

section Branches
variable [Digest]

theorem wp_conflictWithRemote {epoch : Nat} {here : Buffer} (hat : At name (floorOf s name) w)
    (hreads : 1 ≤ w.2.reads) :
    Proc.wp (floorWorld calm) (conflictWithRemote name epoch here)
      (fun _ => Recorded calm name s w) s w := by
  simp only [conflictWithRemote, Proc.wp_bind]
  refine wp_getObject hat fun x w₁ hin _ hr hlow => ?_
  have hat₁ := hin.stays hat
  cases x with
  | error e => exact .low (.refl _ _) hin (hlow e rfl)
  | ok fresh =>
    cases fresh with
    | none =>
      simp only [Proc.wp_bind, Proc.wp_get]
      refine wp_putSealed hat₁ (fun e w₂ hin₂ _ hlow => ?_) fun etag w₂ hin₂ _ hseen => ?_
      · exact .low (.refl _ _) (hin.trans hin₂) (hlow (by omega))
      · exact .entry (.refl _ _) (hin.trans hin₂) hseen (Nat.le_succ _) le_rfl
    | some fresh =>
      simp only [Proc.wp_bind, Proc.wp_get]
      refine wp_openObject hat₁ (fun e w₂ hin₂ _ hlow => ?_) fun opened w₂ hin₂ _ hle hseen => ?_
      · exact .low (.refl _ _) (hin.trans hin₂) hlow
      · replace hin := hin.trans hin₂
        simp only
        split_ifs with heq
        · exact .entry (.refl _ _) hin hseen (le_max_right _ _) (le_max_left _ _)
        · simp only [Proc.wp_bind, Proc.wp_get]
          split_ifs with hmark
          · simp only [Proc.wp_bind]
            refine wp_keepAsConflict (hin.stays hat) fun x w₃ hin₃ hlog hlow => ?_
            cases x with
            | error e => exact .low (.refl _ _) (hin.trans hin₃) (hlow e rfl)
            | ok _ =>
              simp only [Proc.wp_get, wp_setEntry]
              have hmarked := aside_marker (s := s)
                { (s.collections name).getD ⟨"", 0, "", none, none⟩ with
                  conflictedEtag := some fresh.etag }
                (by cases s.collections name <;> rfl)
              exact wp_landing hat hmarked (hin.trans hin₃) (hseen.of_eq hlog)
                (fun _ => hmarked.mono.trans (le_max_right _ _)) (fun _ => le_max_left _ _)
                (fun _ _ _ h => h) fun _ _ h => h
          · simp only [Proc.wp_bind]
            exact wp_landing hat (.refl _ _) hin hseen (fun _ => le_max_right _ _)
              (fun _ => le_max_left _ _) (fun _ _ _ h => h) fun _ _ h => h

theorem wp_mergeOrConflict {epoch : Nat} {body : Buffer} {known : CollectionState}
    (hat : At name (floorOf s name) w) (hreads : 1 ≤ w.2.reads) :
    Proc.wp (floorWorld calm) (mergeOrConflict name epoch body known)
      (fun _ => Recorded calm name s w) s w := by
  simp only [mergeOrConflict, Proc.wp_bind]
  refine wp_getObject hat fun x w₁ hin _ hr hlow => ?_
  have hat₁ := hin.stays hat
  cases x with
  | error e => exact .low (.refl _ _) hin (hlow e rfl)
  | ok fresh =>
    cases fresh with
    | none => exact (wp_conflictWithRemote hat₁ (by omega)).imp fun _ _ _ h => h.after hin
    | some fresh =>
      simp only [Proc.wp_bind, Proc.wp_get, Proc.wp_attempt]
      refine wp_openObject hat₁ (fun e w₂ hin₂ hr₂ _ => ?_) fun opened w₂ hin₂ hr₂ hle hseen => ?_
      · exact (wp_conflictWithRemote (hin₂.stays hat₁) (by omega)).imp
          fun _ _ _ h => h.after (hin.trans hin₂)
      · replace hin := hin.trans hin₂
        simp only
        split_ifs with heq hhash
        · exact .entry (.refl _ _) hin hseen hle le_rfl
        · simp only [Proc.wp_bind, Proc.wp_get]
          refine wp_putSealed (hin.stays hat) (fun e w₃ hin₃ _ hlow => ?_)
            fun etag w₃ hin₃ _ hseen => ?_
          · exact .low (.refl _ _) (hin.trans hin₃) (hlow (by omega))
          · exact .entry (.refl _ _) (hin.trans hin₃) hseen
              ((le_max_right _ _).trans (Nat.le_succ _)) le_rfl
        · cases mergeCollections known.base body opened.payload with
          | none =>
            exact (wp_conflictWithRemote (hin.stays hat) (by omega)).imp
              fun _ _ _ h => h.after hin
          | some merge =>
            simp only [Proc.wp_bind, Proc.wp_get]
            refine wp_putSealed (hin.stays hat) (fun e w₃ hin₃ _ hlow => ?_)
              fun etag w₃ hin₃ _ hseen => ?_
            · exact .low (.refl _ _) (hin.trans hin₃) (hlow (by omega))
            · exact wp_landing hat (.refl _ _) (hin.trans hin₃) hseen
                (fun _ => (le_max_right _ _).trans (Nat.le_succ _)) (fun _ => le_rfl)
                (fun _ _ _ h => h) fun _ _ h => h

theorem wp_adopt {epoch : Nat} {remote : RemoteObject} (hat : At name (floorOf s name) w) :
    Proc.wp (floorWorld calm) (adopt name epoch remote) (fun _ => Recorded calm name s w) s w := by
  simp only [adopt, Proc.wp_bind, Proc.wp_get]
  refine wp_openObject hat (fun e w₁ hin _ hlow => ?_) fun opened w₁ hin _ hle hseen => ?_
  · exact .low (.refl _ _) hin hlow
  · exact wp_landing hat (.refl _ _) hin hseen (fun _ => hle) (fun _ => le_rfl)
      (fun _ _ _ h => h) fun _ _ h => h

/-- A first write that is lost to another device goes on with the remedy. -/
theorem wp_offered {counter : Nat} {epoch : Nat} {payload : Buffer} {ifMatch : Option String}
    {remedy : Sync CollectionOutcome} (hat : At name (floorOf s name) w)
    (hcounter : floorOf s name ≤ counter)
    (hremedy : ∀ w', Within calm name w w' → w'.2.reads = w.2.reads →
      Proc.wp (floorWorld calm) remedy (fun _ => Recorded calm name s w') s w') :
    Proc.wp (floorWorld calm) (orConflict (do
        let etag ← putSealed name epoch counter payload ifMatch
        setEntry name (agreed etag counter payload)
        return .pushed) remedy) (fun _ => Recorded calm name s w) s w := by
  refine wp_orConflict ?_
  simp only [Proc.wp_bind]
  refine wp_putSealed hat (fun e w₁ hin hr hlow => ?_) fun etag w₁ hin _ hseen => ?_
  · simp only
    split_ifs with hcode
    · exact (hremedy w₁ hin hr).imp fun _ _ _ h => h.after hin
    · exact .low (.refl _ _) hin (hlow fun h => hcode h.1)
  · exact .entry (.refl _ _) hin hseen hcounter le_rfl

theorem wp_offer {epoch : Nat} {here : Buffer} {known : Option CollectionState}
    (hat : At name (floorOf s name) w) (hreads : 1 ≤ w.2.reads)
    (hlow : SeenUpTo calm name (floorOf s name) w) :
    Proc.wp (floorWorld calm) (offer name epoch known here)
      (fun _ => Recorded calm name s w) s w := by
  unfold offer
  split_ifs
  · exact .low (.refl _ _) ⟨hat.current, rfl, rfl, rfl, fun _ _ => rfl, le_rfl, id⟩ hlow
  · simp only [Proc.wp_bind, Proc.wp_get]
    exact wp_offered hat (Nat.le_succ _) fun w₁ hin hr =>
      wp_conflictWithRemote (hin.stays hat) (by omega)

theorem wp_push {epoch : Nat} {known : CollectionState} {body : Buffer}
    (hat : At name (floorOf s name) w) (hreads : 1 ≤ w.2.reads) :
    Proc.wp (floorWorld calm) (push name epoch known body)
      (fun _ => Recorded calm name s w) s w := by
  simp only [push, Proc.wp_bind, Proc.wp_get]
  exact wp_offered hat (Nat.le_succ _) fun w₁ hin hr =>
    wp_mergeOrConflict (hin.stays hat) (by omega)

theorem wp_pull {epoch : Nat} {known : CollectionState} {body : Buffer} {there : RemoteObject}
    (hat : At name (floorOf s name) w) (hknown : s.collections name = some known) :
    Proc.wp (floorWorld calm) (pull name epoch known body there)
      (fun _ => Recorded calm name s w) s w := by
  simp only [pull, Proc.wp_bind, Proc.wp_get]
  refine wp_openObject hat (fun e w₁ hin _ hlow => ?_) fun opened w₁ hin _ hle hseen => ?_
  · exact .low (.refl _ _) hin hlow
  · simp only
    split_ifs
    · simp only [Proc.wp_bind]
      refine wp_keepAsConflict (hin.stays hat) fun x w₂ hin₂ hlog hlow => ?_
      cases x with
      | error e => exact .low (.refl _ _) (hin.trans hin₂) (hlow e rfl)
      | ok _ =>
        simp only [wp_setEntry]
        have hmarked := aside_marker (s := s)
          { known with conflictedEtag := some there.etag } (by rw [hknown]; rfl)
        exact wp_landing hat hmarked (hin.trans hin₂) (hseen.of_eq hlog) (fun _ => hle)
          (fun _ => le_rfl) (fun _ _ _ h => h) fun _ _ h => h
    · simp only [Proc.wp_bind]
      exact wp_landing hat (.refl _ _) hin hseen (fun _ => hle) (fun _ => le_rfl)
        (fun _ _ _ h => h) fun _ _ h => h

theorem wp_firstContact {epoch : Nat} {body : Buffer} {there : RemoteObject}
    (hat : At name (floorOf s name) w) (hreads : 1 ≤ w.2.reads) :
    Proc.wp (floorWorld calm) (firstContact name epoch body there)
      (fun _ => Recorded calm name s w) s w := by
  simp only [firstContact, Proc.wp_bind, Proc.wp_get]
  refine wp_openObject hat (fun e w₁ hin _ hlow => ?_) fun opened w₁ hin hr hle hseen => ?_
  · exact .low (.refl _ _) hin hlow
  · simp only
    split_ifs with hempty hne
    · simp only [Proc.wp_bind]
      exact wp_landing hat (.refl _ _) hin hseen (fun _ => hle) (fun _ => le_rfl)
        (fun _ _ _ h => h) fun _ _ h => h
    · simp only [Proc.wp_bind, Proc.wp_get]
      cases (if s.floors name > 0 then none
          else mergeCollections (some []) body opened.payload) with
      | none =>
        simp only [Proc.wp_bind]
        refine wp_keepAsConflict (hin.stays hat) fun x w₂ hin₂ hlog hlow => ?_
        cases x with
        | error e => exact .low (.refl _ _) (hin.trans hin₂) (hlow e rfl)
        | ok _ =>
          exact wp_landing hat (.refl _ _) (hin.trans hin₂) (hseen.of_eq hlog) (fun _ => hle)
            (fun _ => le_rfl) (fun _ _ _ h => h) fun _ _ h => h
      | some union =>
        refine wp_orConflict ?_
        simp only [Proc.wp_bind]
        refine wp_putSealed (hin.stays hat) (fun e w₂ hin₂ hr₂ hlow => ?_)
          fun etag w₂ hin₂ _ hseen => ?_
        · simp only
          split_ifs with hcode
          · exact (wp_conflictWithRemote (hin₂.stays (hin.stays hat)) (by omega)).imp
              fun _ _ _ h => h.after (hin.trans hin₂)
          · exact .low (.refl _ _) (hin.trans hin₂) (hlow fun h => hcode h.1)
        · refine wp_landing hat (.refl _ _) (hin.trans hin₂) hseen
            (fun _ => hle.trans (Nat.le_succ _)) (fun _ => le_rfl) (fun e w' hcode h => ?_)
            fun _ _ h => h
          simp only
          rw [if_neg (hcode e rfl)]
          exact h
    · exact .entry (.refl _ _) hin hseen hle le_rfl

theorem wp_syncCollection (hw : Before calm name s w) :
    Proc.wp (floorWorld calm) (syncCollection name) (fun _ => After calm name s w) s w := by
  simp only [syncCollection, Proc.wp_bind, Proc.wp_get]
  refine wp_atOnce rfl (by rintro s ⟨⟩) fun r w₁ hr => ?_
  have hfile₁ := sameFile_of_serves (by simp) hr.1
  have hlog₁ : w₁.2 = { w.2 with reads := 0 } := hr.2.1
  cases r with
  | error e =>
    exact hw.afterNothing hfile₁ (by rw [hlog₁]) (by rw [hlog₁]) (by rw [hlog₁])
  | ok epoch =>
    refine wp_atOnce rfl (by rintro s ⟨⟩) fun r w₂ hr => ?_
    have hfile₂ := sameFile_of_serves (by simp) hr.1
    have hlog₂ : w₂.2 = { w.2 with reads := 0, current := name } := by
      rw [show w₂.2 = { w₁.2 with current := name } from hr.2.1, hlog₁]
    have hafter : After calm name s w s w₂ :=
      hw.afterNothing ⟨hfile₂.1.trans hfile₁.1, hfile₂.2.1.trans hfile₁.2.1,
        hfile₂.2.2.trans hfile₁.2.2⟩ (by rw [hlog₂]) (by rw [hlog₂]) (by rw [hlog₂])
    have hat : At name (floorOf s name) w₂ := ⟨by rw [hlog₂], by rw [hlog₂]; exact hw.floor⟩
    have hdone : ∀ s' w', Recorded calm name s w₂ s' w' → After calm name s w s' w' :=
      fun s' w' h => ⟨h.toAside, h.within.floors.trans hafter.floors,
        h.within.start.trans hafter.start, h.within.account.trans hafter.here,
        fun n hn => (h.within.others n hn).trans (hafter.seen n hn),
        h.within.underway hafter.underway, h.covers⟩
    cases r with
    | error e => exact hafter
    | ok here =>
      refine wp_getObject hat fun x w₃ hin hseen hreads hlow => ?_
      have hat₃ := hin.stays hat
      have hlow₃ : SeenUpTo calm name (floorOf s name) w₃ := fun hc => by
        rw [hseen]
        exact hafter.covers hc
      cases x with
      | error e => exact hdone _ _ (.low (.refl _ _) hin (hlow e rfl))
      | ok remote =>
        have hread : 1 ≤ w₃.2.reads := by omega
        have hrest : ∀ s' w', Recorded calm name s w₃ s' w' → After calm name s w s' w' :=
          fun s' w' h => hdone s' w' (h.after hin)
        cases here with
        | none =>
          cases remote with
          | none => exact hdone _ _ (.low (.refl _ _) hin hlow₃)
          | some remote => exact (wp_adopt hat₃).imp fun _ => hrest
        | some body =>
          cases remote with
          | none => exact (wp_offer hat₃ hread hlow₃).imp fun _ => hrest
          | some there =>
            simp only
            cases hk : s.collections name with
            | none => exact (wp_firstContact hat₃ hread).imp fun _ => hrest
            | some known =>
              by_cases hlocal : hash body = known.localHash <;>
                by_cases hremote : there.etag = known.etag <;>
                simp only [hlocal, hremote, ne_eq, not_true_eq_false, not_false_eq_true,
                  decide_true, decide_false]
              · exact hdone _ _ (.low (.refl _ _) hin hlow₃)
              · exact (wp_pull hat₃ hk).imp fun _ => hrest
              · exact (wp_push hat₃ hread).imp fun _ => hrest
              · exact (wp_mergeOrConflict hat₃ hread).imp fun _ => hrest

/-! ## The whole pass -/

theorem wp_syncEach {start : Nat} {names : List SyncedCollection} (hnodup : names.Nodup)
    (result : SyncResult) (hw : Midway calm start names s w) :
    Proc.wp (floorWorld calm) (syncEach names result)
      (fun x s' w' => (∃ result', x = .ok result') ∧ Midway calm start [] s' w') s w := by
  induction names generalizing s w result with
  | nil => exact ⟨⟨_, rfl⟩, hw⟩
  | cons name names ih =>
    obtain ⟨hname, hnodup⟩ := List.nodup_cons.mp hnodup
    have hbefore : Before calm name s w :=
      ⟨hw.ahead name List.mem_cons_self, hw.covers name, hw.underway⟩
    simp only [syncEach]
    split_ifs
    · simp only [Proc.wp_bind, Proc.wp_attempt]
      exact (wp_syncCollection hbefore).imp fun x s' w' h => ih hnodup _ (hw.next hname h)
    · exact ih hnodup _ ⟨hw.start, hw.account, hw.underway,
        fun n hn => hw.ahead n (List.mem_cons_of_mem _ hn), hw.mono, hw.covers⟩

theorem wp_syncOnce (hw : Resting calm w) :
    Proc.wp (floorWorld calm) syncOnce (fun _ _ => Resting calm) s w := by
  simp only [syncOnce, Proc.wp_bind]
  refine wp_atOnce rfl (by rintro s ⟨⟩) fun forgets w₁ hr₁ => ?_
  refine wp_atOnce rfl (by rintro s ⟨⟩) fun account w₂ hr₂ => ?_
  refine wp_atOnce rfl (by rintro s ⟨⟩) fun file w₃ hr₃ => ?_
  obtain ⟨⟨rfl, hw₁⟩, hlog₁, -⟩ := hr₁
  obtain ⟨⟨rfl, hw₂⟩, hlog₂, -⟩ := hr₂
  obtain ⟨⟨rfl, hw₃⟩, hlog₃, -⟩ := hr₃
  obtain rfl : w₁ = w := Prod.ext hw₁ hlog₁
  obtain rfl : w₂ = w₁ := Prod.ext hw₂ hlog₂
  simp only [Proc.wp_modify]
  have hseen : w₃.2.seen = w₂.2.seen := by rw [hlog₃]
  have hfloors : w₃.2.floors = floorOf (loadState w₂.1.file (some w₂.1.account)) := by rw [hlog₃]
  have hstart : w₃.2.start = w₂.1.forgets := by rw [hlog₃]
  have hmid : Midway calm w₂.1.forgets SyncedCollection.all
      (loadState w₂.1.file (some w₂.1.account)) w₃ := by
    refine ⟨hstart, ?_, ⟨?_, fun n => ?_, fun _ hne => ?_⟩, fun n _ => ?_, fun n => ?_,
      fun n hc => ?_⟩
    · rw [hw₃]
      exact accountId_loadState _
    · rw [hw₃]
      exact hw.ours
    · rw [hw₃, hfloors]
      exact (hw.ours.floorOf_loadState n).symm
    · exact absurd (by rw [hw₃, hstart]) hne
    · rw [hfloors]
    · rw [hfloors]
    · rw [hseen, hw.ours.floorOf_loadState]
      exact hw.covers hc n
  refine (wp_syncEach SyncedCollection.all_nodup _ hmid).imp fun x s' w' h => ?_
  obtain ⟨⟨result, rfl⟩, hend⟩ := h
  simp only [Proc.wp_attempt]
  exact (wp_saveUnlessForgotten hend).imp fun x _ _ hrest => by cases x <;> exact hrest

end Branches

/-! ## Every run -/

/-- Between passes somebody edits, or forgets with the floors kept. -/
def Idle (w w' : Shore × FloorLog) : Prop :=
  (Edits w.1 w'.1 ∨ ForgetsKept w.1 w'.1) ∧ w'.2 = w.2

theorem Idle.counterFloor_eq {w w' : Shore × FloorLog} (h : Idle w w') (n : SyncedCollection) :
    counterFloor w'.1.file n = counterFloor w.1.file n := by
  rcases h.1 with ⟨name, b, hv⟩ | hf
  · rw [hv, Shore.put_file]
  · exact hf.counterFloor_eq n

theorem Idle.resting {w w' : Shore × FloorLog} (h : Idle w w') (hw : Resting calm w) :
    Resting calm w' := by
  refine ⟨?_, fun hc n => ?_⟩
  · rcases h.1 with ⟨name, b, hv⟩ | hf
    · rw [hv]
      exact hw.ours
    · exact hf.ours hw.ours
  · rw [h.2, h.counterFloor_eq n]
    exact hw.covers hc n

/-- Where floors go from one point to another. -/
def Rises (w w' : Shore × FloorLog) : Prop :=
  ∀ n, counterFloor w.1.file n ≤ counterFloor w'.1.file n

theorem rises_of_drift {o : Op} {w w' : Shore × FloorLog} (h : (floorWorld calm).drift o w w') :
    Rises w w' := by
  intro n
  refine (h.1.keeps (I := fun v => counterFloor v.file n = counterFloor w.1.file n)
    (fun v v' hb hv => ?_) rfl).ge
  rcases hb with ⟨name, b, rfl⟩ | ⟨hf, -⟩
  · exact hv
  · exact (hf.counterFloor_eq n).trans hv

theorem rises_of_reply {o : Op} {r : o.Reply} {w w' : Shore × FloorLog}
    (hdemand : (floorWorld calm).demand o w) (h : (floorWorld calm).reply w o r w') :
    Rises w w' := by
  intro n
  by_cases ho : ∃ s, o = .saveStateFile s
  · obtain ⟨s, rfl⟩ := ho
    have hs := h.1
    cases r with
    | ok _ =>
      rw [show w'.1 = { w.1 with file := some s } from hs]
      exact hdemand s rfl n
    | error _ => rw [show w'.1 = w.1 from hs]
  · rw [(sameFile_of_serves (fun s hs => ho ⟨s, hs⟩) h.1).1]

/-- Pass after pass, whatever is edited and forgotten meanwhile: the floors of the state file never
go down. If the replies are `Steady` and the forgets calm, they cover after every pass each counter
the device has seen. -/
theorem counterFloor_only_rises [Digest] {w : Shore × FloorLog} (hw : Resting calm w)
    {c c' : Service (Shore × FloorLog) Op Op.Reply (Except Failure SyncResult × SyncState)}
    (hc : Life (floorWorld calm) (syncOnce (.fresh none)) Idle (none, w) c)
    (hc' : Life (floorWorld calm) (syncOnce (.fresh none)) Idle c c') :
    (∀ n, counterFloor c.2.1.file n ≤ counterFloor c'.2.1.file n) ∧
    (calm → c'.1 = none → ∀ n, c'.2.2.seen n ≤ counterFloor c'.2.1.file n) := by
  have hrest : ∀ v v' : Shore × FloorLog, Idle v v' → Resting calm v → Resting calm v' :=
    fun _ _ h => h.resting
  have hmain : ∀ v, Resting calm v →
      (syncOnce (.fresh none)).wp (floorWorld calm) (fun _ => Resting calm) v :=
    fun _ hv => wp_syncOnce hv
  have hmid : Holds (floorWorld calm) (Resting calm) c := life_invariant hrest hmain hc hw
  refine ⟨life_relates (R := Rises) (fun _ _ => le_rfl) (fun _ _ _ h h' n => (h n).trans (h' n))
    hrest hmain (fun _ _ h n => (h.counterFloor_eq n).ge) (fun _ _ _ => rises_of_drift)
    (fun _ _ _ _ => rises_of_reply) hc' hmid, fun hcalm hnone n => ?_⟩
  obtain ⟨p, v⟩ := c'
  obtain rfl : p = none := hnone
  exact (life_invariant hrest hmain hc' hmid).covers hcalm n

end Parts

/-! ## One pass with and without a forget -/

section OnePass

/-- The log after a reply; a write that failed is taken not to have reached the relay. -/
def FloorLog.note (w : Shore) (g : FloorLog) : (o : Op) → o.Reply → FloorLog
  | .loadStateFile, file =>
    { g with floors := floorOf (loadState file (some w.account)), start := w.forgets }
  | .epoch, _ => { g with reads := 0 }
  | .read name, _ => { g with current := name }
  | .getObject _ _, _ => { g with reads := g.reads + 1 }
  | .open .., .ok opened => g.saw opened.counter
  | .putObject _ _ counter _ _, .ok _ => g.saw counter
  | _, _ => g

theorem FloorLog.notes_note (w : Shore) (g : FloorLog) (o : Op) (r : o.Reply) :
    g.Notes w o r (g.note w o r) := by
  cases o with
  | «open» => cases r <;> rfl
  | putObject =>
    cases r with
    | ok => rfl
    | error => exact Or.inl rfl
  | _ => exact rfl

@[reducible] def vaultDigest : Digest := digestOf
  [("r", "454349e422f05297191ead13e21d3db520e5abef52055e4964b82fb213f593a1")]

/-- What the relay holds: a vault written once before. -/
def vaultObject : RemoteObject := ⟨⟨"vault", 1, 1, 2, .payload (.ofText "r")⟩, "etag-2"⟩

def vaultRelay (w : Shore × FloorLog) (o : Op) : o.Reply × (Shore × FloorLog) :=
  let answer := oneObject .vault vaultObject true w.1 o
  (answer.1, answer.2, w.2.note w.1 o answer.1)

/-- A device with nothing, that has seen nothing. -/
def newDevice : Shore × FloorLog :=
  (⟨fun _ => none, none, 0, "a"⟩, ⟨fun _ => 0, fun _ => 0, 0, .vault, 0⟩)

theorem newDevice_resting (calm : Prop) : Resting calm newDevice :=
  ⟨by rintro s ⟨⟩, fun _ _ => le_rfl⟩

@[irreducible] def vaultPass : Prog Op Op.Reply (Except Failure SyncResult × SyncState) :=
  @syncOnce vaultDigest (.fresh none)

/-- Whether that relay is steady here. -/
def steadyHere (w : Shore × FloorLog) : Op → Bool
  | .open .. =>
    decide (w.2.seen w.2.current ≤ w.2.floors w.2.current) && w.1.forgets == w.2.start
  | .putObject .. => false
  | _ => true

theorem reply_vaultRelay {calm : Prop} (w : Shore × FloorLog) (o : Op)
    (h : calm → steadyHere w o = true) :
    (floorWorld calm).reply w o (vaultRelay w o).1 (vaultRelay w o).2 := by
  refine ⟨serves_oneObject _ _ _ _ _, FloorLog.notes_note _ _ _ _, fun hc => ?_⟩
  have hsteady := h hc
  cases o with
  | «open» =>
    simp only [steadyHere, Bool.and_eq_true, decide_eq_true_eq, beq_iff_eq] at hsteady
    obtain ⟨hlow, hstart⟩ := hsteady
    cases hr : (vaultRelay w (.open _ _ _ _ _)).1 with
    | ok opened => exact ⟨hlow.trans (le_max_left _ _), fun _ => hstart⟩
    | error e => exact hlow
  | putObject => cases hsteady
  | _ => simp [vaultRelay, oneObject, FloorLog.Steady, FloorLog.Harmless]

/-- The device after a pass. -/
@[irreducible] def adopted : Shore × FloorLog := (vaultPass.exec vaultRelay newDevice).2

theorem counterFloor_only_rises_adopting :
    (∀ n, counterFloor newDevice.1.file n ≤ counterFloor adopted.1.file n) ∧
    ∀ n, adopted.2.seen n ≤ counterFloor adopted.1.file n := by
  have hrun : Life (floorWorld True) vaultPass Idle (none, newDevice) (none, adopted) := by
    unfold adopted
    exact life_of_whole_run (run_exec_checked
      (fun w o h => reply_vaultRelay w o fun _ => h) (by decide +kernel))
  unfold vaultPass at hrun
  obtain ⟨hrises, hcovers⟩ :=
    @counterFloor_only_rises True vaultDigest _ (newDevice_resting True) _ _ .refl hrun
  exact ⟨hrises, hcovers trivial rfl⟩

/-- The same pass, as far as the collection after the vault. -/
@[irreducible] def midPass :
    Prog Op Op.Reply (Except Failure SyncResult × SyncState) × (Shore × FloorLog) :=
  Prog.advance vaultRelay 45 (vaultPass, newDevice)

/-- The state is forgotten there. -/
@[irreducible] def forgotten : Shore × FloorLog :=
  let w := midPass.2
  ({ w.1 with file := some (forgetSyncState w.1.file none false), forgets := w.1.forgets + 1 }, w.2)

/-- The rest of the pass. -/
@[irreducible] def unsaved : Shore × FloorLog := (midPass.1.exec vaultRelay forgotten).2

/-- A forget that lands once the vault is adopted: the pass ends without saving its counter. -/
theorem counterFloor_below_seen :
    letI := vaultDigest
    ∃ w, Life (floorWorld False) (syncOnce (.fresh none)) Idle (none, newDevice) (none, w) ∧
      ¬ w.2.seen .vault ≤ counterFloor w.1.file .vault := by
  have hreply : ∀ w o, (floorWorld False).reply w o (vaultRelay w o).1 (vaultRelay w o).2 :=
    fun w o => reply_vaultRelay w o False.elim
  have hmid : Life (floorWorld False) vaultPass Idle (none, newDevice) (some midPass.1, midPass.2) :=
    by
      unfold midPass
      exact (Relation.ReflTransGen.single (.start _)).trans
        (life_of_run (run_advance hreply 45 (vaultPass, newDevice)))
  have hawaits : midPass.1.pending.map Op.awaited = some true := by decide +kernel
  have hforget : Life (floorWorld False) vaultPass Idle (none, newDevice)
      (some midPass.1, forgotten) := by
    obtain ⟨o, ho, hawaited⟩ := Option.map_eq_some_iff.mp hawaits
    refine hmid.tail (.turn (turn_of_pending ho ⟨?_, by unfold forgotten; rfl⟩))
    unfold Meanwhile forgotten
    rw [hawaited, if_pos rfl]
    exact .single (Or.inr ⟨.state none, False.elim⟩)
  have hrest : Life (floorWorld False) vaultPass Idle (none, newDevice) (none, unsaved) := by
    unfold unsaved
    exact (hforget.trans (life_of_run (run_exec hreply midPass.1 forgotten))).tail (.stop _ _)
  unfold vaultPass at hrest
  exact ⟨unsaved, hrest, by decide +kernel⟩

end OnePass

end OpsMaxx.Addy.Floor
