import OpsMaxx.Rules.Rule
import Mathlib.Data.List.DropRight

/-!
# Kinds of alerts

What is measured, what is a state and what just happened; and, for each kind that has a number, how
long it is waited, how often it may be said, and which way is worse.
-/

set_option autoImplicit false

namespace OpsMaxx.Alerts

inductive NumericAlertKind
  | cpu | ram | disk | inode | load | «cert-expiry» | «vpn-cert-expiry» | «error-rate»
  deriving DecidableEq

inductive StateAlertKind
  | «host-unreachable» | «job-failed» | «tunnel-down» | «oom-kill» | «backup-failed» | «vpn-down»
  | «vpn-degraded» | «pod-crashloop» | «service-down»
  deriving DecidableEq

inductive EventAlertKind
  | «db-alarm» | «db-watch»
  deriving DecidableEq

inductive AlertKind
  | numeric (kind : NumericAlertKind)
  | state (kind : StateAlertKind)
  | event (kind : EventAlertKind)
  deriving DecidableEq

/-- What something is remembered under: a server and a kind, and for an event its question too. -/
inductive AlertKey
  | key (serverId : String) (kind : AlertKind)
  | eventKey (id : String) (kind : EventAlertKind) (question : String)
  deriving DecidableEq

open NumericAlertKind

/-! ## What a kind with a number is held to -/

def REPEAT : NumericAlertKind → Int
  | .cpu => 60000
  | .ram => 60000
  | .disk => 6 * 60 * 60 * 1000
  | .inode => 6 * 60 * 60 * 1000
  | .load => 60000
  | .«cert-expiry» => 24 * 60 * 60 * 1000
  | .«vpn-cert-expiry» => 24 * 60 * 60 * 1000
  | .«error-rate» => 60 * 60 * 1000

def DWELL_MS : NumericAlertKind → Int
  | .cpu => 120000
  | .ram => 120000
  | .load => 120000
  | .disk => 0
  | .inode => 0
  | .«cert-expiry» => 0
  | .«vpn-cert-expiry» => 0
  | .«error-rate» => 0

def DWELL_MIN_SAMPLES : Nat := 2

def RECOVER_MARGIN : NumericAlertKind → ℚ
  | .cpu => 5
  | .ram => 5
  | .disk => 5
  | .inode => 5
  | .load => 1 / 2
  | .«cert-expiry» => 5
  | .«vpn-cert-expiry» => 5
  | .«error-rate» => 1

def ESCALATE_BY : NumericAlertKind → ℚ
  | .cpu => 5
  | .ram => 5
  | .disk => 5
  | .inode => 5
  | .load => 1
  | .«cert-expiry» => 7
  | .«vpn-cert-expiry» => 7
  | .«error-rate» => 5

def MIN_GAP : NumericAlertKind → Int
  | .cpu => 60000
  | .ram => 60000
  | .disk => 0
  | .inode => 0
  | .load => 60000
  | .«cert-expiry» => 0
  | .«vpn-cert-expiry» => 0
  | .«error-rate» => 60 * 60 * 1000

def LOWER_IS_WORSE : NumericAlertKind → Bool
  | .«cert-expiry» => true
  | .«vpn-cert-expiry» => true
  | _ => false

/-- Whether a value is that much worse than the one said last. Running out counts in any case. -/
def escalated (kind : NumericAlertKind) (value said : ℚ) : Bool :=
  if LOWER_IS_WORSE kind then
    if said > 0 ∧ value ≤ 0 then true else value ≤ said - ESCALATE_BY kind
  else value ≥ said + ESCALATE_BY kind

def isRecovered (kind : NumericAlertKind) (value clearAt : ℚ) : Bool :=
  if LOWER_IS_WORSE kind then value > clearAt else value < clearAt

def clearLine (kind : NumericAlertKind) (threshold : ℚ) : ℚ :=
  if LOWER_IS_WORSE kind then threshold + RECOVER_MARGIN kind
  else max 0 (threshold - RECOVER_MARGIN kind)

/-- To the nearest tenth, and away from zero in the middle of two. -/
def fmt (v : ℚ) : ℚ :=
  if v < 0 then -((⌊-v * 10 + 1 / 2⌋ : ℚ) / 10) else (⌊v * 10 + 1 / 2⌋ : ℚ) / 10

/-! ## Damping -/

def FLAP_WINDOW_MS : Int := 6 * 60 * 60 * 1000
def FLAP_CROSSINGS : Nat := 5
def FLAP_DAMP_MS : Int := 6 * 60 * 60 * 1000
def STATE_HOLD_MAX_MS : Int := 6 * 60 * 60 * 1000

/-! ## Names -/

/-- The characters a name may have on its way out. -/
def isNameChar (c : Char) : Bool :=
  c.isAlphanum || c ∈ [' ', '.', '_', '@', ':', '-']

def cleanName (v : String) : String :=
  let kept := (Rules.slice v 128).toList.filter isNameChar
  let bare := kept.dropWhile (· = '@')
  String.ofList ((bare.dropWhile (· = ' ')).rdropWhile (· = ' '))

/-- A name, or what stands for it where nothing is left of it. -/
def nameOr (name : String) (other : String) : String :=
  if cleanName name = "" then other else cleanName name

/-!
## What is remembered of an alert

Everything the alerts keep between two samples under one key, and the small operations on it: the
periods in which nothing is said, the crossings that are counted, the runs of readings.
-/

/-- A run of readings: when it began, and how many they are. -/
structure Span where
  since : Int
  samples : Nat
  deriving DecidableEq

/-- What of a chip in the status bar is used again. -/
structure ActiveAlert where
  serverName : String
  since : Int
  detail : Option String
  deriving DecidableEq

/-- What the maps hold under one key. `announced` is the name it was announced with. -/
structure Memory where
  lastNotified : Option Int
  lastNotifiedValue : Option ℚ
  announced : Option String
  raiseTimes : List Int
  dampedUntil : Option Int
  snoozedUntil : Option Int
  acknowledged : Bool
  conditionHeld : Bool
  conditionSeen : Option Int
  breach : Option Span
  recovered : Option Span
  active : Option ActiveAlert
  deriving DecidableEq

namespace Memory

def fresh : Memory where
  lastNotified := none
  lastNotifiedValue := none
  announced := none
  raiseTimes := []
  dampedUntil := none
  snoozedUntil := none
  acknowledged := false
  conditionHeld := false
  conditionSeen := none
  breach := none
  recovered := none
  active := none

/-! ## Whether to be quiet -/

/-- A damp that is over is dropped when it is asked for. -/
def isDamped (m : Memory) (now : Int) : Bool × Memory :=
  match m.dampedUntil with
  | none => (false, m)
  | some ends => if now ≥ ends then (false, { m with dampedUntil := none }) else (true, m)

def isSnoozed (m : Memory) (now : Int) : Bool × Memory :=
  match m.snoozedUntil with
  | none => (false, m)
  | some ends => if now ≥ ends then (false, { m with snoozedUntil := none }) else (true, m)

def isQuiet (m : Memory) (now : Int) : Bool × Memory :=
  let (damped, m) := m.isDamped now
  if damped then (true, m)
  else
    let (snoozed, m) := m.isSnoozed now
    if snoozed then (true, m) else (m.acknowledged, m)

/-! ## Crossings -/

/-- Counts a crossing; `true` where it is the one that trips the damp. -/
def noteCrossing (m : Memory) (now : Int) : Bool × Memory :=
  let times := (m.raiseTimes.filter fun t => now - t < FLAP_WINDOW_MS) ++ [now]
  if times.length < FLAP_CROSSINGS then (false, { m with raiseTimes := times })
  else (true, { m with raiseTimes := [], dampedUntil := some (now + FLAP_DAMP_MS) })

/-- A crossing while damped keeps the damp alive. -/
def refreshDamp (m : Memory) (now : Int) : Memory :=
  let (damped, m) := m.isDamped now
  if damped then { m with dampedUntil := some (now + FLAP_DAMP_MS) } else m

def holdIsStale (m : Memory) (now : Int) : Bool :=
  if m.conditionHeld = false then false
  else
    match m.conditionSeen with
    | none => true
    | some seen => now - seen ≥ STATE_HOLD_MAX_MS

end Memory

/-! ## Runs of readings -/

def noteRun (run : Option Span) (now : Int) : Option Span :=
  match run with
  | some run => some { run with samples := run.samples + 1 }
  | none => some ⟨now, 1⟩

def dwellMet (run : Option Span) (kind : NumericAlertKind) (now : Int) : Bool :=
  let need := DWELL_MS kind
  if need = 0 then true
  else
    match run with
    | none => false
    | some run => now - run.since ≥ need ∧ run.samples ≥ DWELL_MIN_SAMPLES

/-! ## What asking does -/

namespace Memory
variable (m : Memory) (now : Int)

/-- Damped, at a time. -/
def Damped : Prop := ∃ ends ∈ m.dampedUntil, now < ends

def Snoozed : Prop := ∃ ends ∈ m.snoozedUntil, now < ends

def Quiet : Prop := m.Damped now ∨ m.Snoozed now ∨ m.acknowledged = true

instance : Decidable (m.Damped now) :=
  match h : m.dampedUntil with
  | none => isFalse (by simp [Damped, h])
  | some ends => decidable_of_iff (now < ends) (by simp [Damped, h])

instance : Decidable (m.Snoozed now) :=
  match h : m.snoozedUntil with
  | none => isFalse (by simp [Snoozed, h])
  | some ends => decidable_of_iff (now < ends) (by simp [Snoozed, h])

instance : Decidable (m.Quiet now) := inferInstanceAs (Decidable (_ ∨ _ ∨ _))

/-- Nothing but periods that are over is dropped. -/
structure Lapses (m : Memory) (now : Int) (m' : Memory) : Prop where
  lastNotified : m'.lastNotified = m.lastNotified
  lastNotifiedValue : m'.lastNotifiedValue = m.lastNotifiedValue
  announced : m'.announced = m.announced
  raiseTimes : m'.raiseTimes = m.raiseTimes
  damped : ∀ later, now ≤ later → (m'.Damped later ↔ m.Damped later)
  snoozed : ∀ later, now ≤ later → (m'.Snoozed later ↔ m.Snoozed later)
  acknowledged : m'.acknowledged = m.acknowledged
  conditionHeld : m'.conditionHeld = m.conditionHeld
  conditionSeen : m'.conditionSeen = m.conditionSeen
  breach : m'.breach = m.breach
  recovered : m'.recovered = m.recovered
  active : m'.active = m.active

theorem Lapses.refl : Lapses m now m :=
  ⟨rfl, rfl, rfl, rfl, fun _ _ => Iff.rfl, fun _ _ => Iff.rfl, rfl, rfl, rfl, rfl, rfl, rfl⟩

variable {m now}

theorem Lapses.trans {m₁ m₂ : Memory} (h : Lapses m now m₁) (h' : Lapses m₁ now m₂) :
    Lapses m now m₂ where
  lastNotified := h'.lastNotified.trans h.lastNotified
  lastNotifiedValue := h'.lastNotifiedValue.trans h.lastNotifiedValue
  announced := h'.announced.trans h.announced
  raiseTimes := h'.raiseTimes.trans h.raiseTimes
  damped := fun later hle => (h'.damped later hle).trans (h.damped later hle)
  snoozed := fun later hle => (h'.snoozed later hle).trans (h.snoozed later hle)
  acknowledged := h'.acknowledged.trans h.acknowledged
  conditionHeld := h'.conditionHeld.trans h.conditionHeld
  conditionSeen := h'.conditionSeen.trans h.conditionSeen
  breach := h'.breach.trans h.breach
  recovered := h'.recovered.trans h.recovered
  active := h'.active.trans h.active

theorem isDamped_spec (m : Memory) (now : Int) :
    ((m.isDamped now).1 = true ↔ m.Damped now) ∧ Lapses m now (m.isDamped now).2 := by
  unfold isDamped
  cases hends : m.dampedUntil with
  | none => exact ⟨by simp [Damped, hends], Lapses.refl m now⟩
  | some ends =>
    by_cases hover : now ≥ ends
    · simp only [if_pos hover]
      constructor
      · simp [Damped, hends, hover]
      · refine { Lapses.refl m now with damped := ?_ }
        intro later hle
        simp only [Damped, hends, Option.mem_some_iff, exists_eq_left']
        constructor
        · rintro ⟨_, hno, -⟩
          cases hno
        · intro hlt
          omega
    · simp only [if_neg hover]
      exact ⟨by simpa [Damped, hends] using hover, Lapses.refl m now⟩

theorem isSnoozed_spec (m : Memory) (now : Int) :
    ((m.isSnoozed now).1 = true ↔ m.Snoozed now) ∧ Lapses m now (m.isSnoozed now).2 := by
  unfold isSnoozed
  cases hends : m.snoozedUntil with
  | none => exact ⟨by simp [Snoozed, hends], Lapses.refl m now⟩
  | some ends =>
    by_cases hover : now ≥ ends
    · simp only [if_pos hover]
      constructor
      · simp [Snoozed, hends, hover]
      · refine { Lapses.refl m now with snoozed := ?_ }
        intro later hle
        simp only [Snoozed, hends, Option.mem_some_iff, exists_eq_left']
        constructor
        · rintro ⟨_, hno, -⟩
          cases hno
        · intro hlt
          omega
    · simp only [if_neg hover]
      exact ⟨by simpa [Snoozed, hends] using hover, Lapses.refl m now⟩

theorem isQuiet_spec (m : Memory) (now : Int) :
    ((m.isQuiet now).1 = true ↔ m.Quiet now) ∧ Lapses m now (m.isQuiet now).2 := by
  obtain ⟨hdamped, hlapse⟩ := m.isDamped_spec now
  unfold isQuiet Quiet
  generalize m.isDamped now = asked at hdamped hlapse
  obtain ⟨damped, m₁⟩ := asked
  dsimp only at hdamped hlapse ⊢
  by_cases hd : damped = true
  · rw [if_pos hd]
    exact ⟨by simp [hdamped.mp hd], hlapse⟩
  · rw [if_neg hd]
    obtain ⟨hsnoozed, hlapse'⟩ := m₁.isSnoozed_spec now
    generalize m₁.isSnoozed now = asked at hsnoozed hlapse'
    obtain ⟨snoozed, m₂⟩ := asked
    dsimp only at hsnoozed hlapse' ⊢
    rw [hlapse.snoozed now le_rfl] at hsnoozed
    have hno : ¬m.Damped now := fun h => hd (hdamped.mpr h)
    by_cases hs : snoozed = true
    · rw [if_pos hs]
      exact ⟨by simp [hsnoozed.mp hs], hlapse.trans hlapse'⟩
    · rw [if_neg hs]
      have hno' : ¬m.Snoozed now := fun h => hs (hsnoozed.mpr h)
      refine ⟨?_, hlapse.trans hlapse'⟩
      rw [hlapse'.acknowledged, hlapse.acknowledged]
      simp [hno, hno']

end Memory

end OpsMaxx.Alerts
