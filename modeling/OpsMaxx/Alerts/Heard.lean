import OpsMaxx.Alerts.Speak

/-!
# What the endpoint heard

The raises and all-clears that were posted for one key, and what each call adds to them.
-/

set_option autoImplicit false

namespace OpsMaxx.Alerts

/-! ## Reading what was said -/

namespace Said

def raised (k : AlertKey) : Said → Bool
  | .posted p => p.event = .raised ∧ p.key = k
  | _ => false

def resolved (k : AlertKey) : Said → Bool
  | .posted p => p.event = .resolved ∧ p.key = k
  | _ => false

/-- Neither of a key, nor that alerts were switched off. -/
def beside (k : AlertKey) (x : Said) : Bool := !x.raised k && !x.resolved k && x ≠ .off

/-- On the desktop or in the log only. -/
def unheard : Said → Bool
  | .desktop _ => true
  | .recorded _ => true
  | _ => false

theorem beside_of_unheard {x : Said} (k : AlertKey) (h : x.unheard) : x.beside k := by
  cases x with
  | desktop n => rfl
  | recorded row => rfl
  | posted p => cases h
  | off => cases h

end Said

/-- When something was raised, and why. -/
structure Raise where
  saidAt : Int
  crossing : Bool
  worsened : Bool
  deriving DecidableEq

def raiseOf (k : AlertKey) : Said → Option Raise
  | .posted p =>
    if p.event = .raised ∧ p.key = k then some ⟨p.sentAt, p.crossing, p.worsened⟩ else none
  | _ => none

/-- What was said since alerts were last switched off. -/
def sinceOff (log : List Said) : List Said :=
  log.foldl (fun since x => if x = .off then [] else since ++ [x]) []

def raises (k : AlertKey) (log : List Said) : List Raise := (sinceOff log).filterMap (raiseOf k)

/-- Whether a raise of the key is left open. -/
def outstanding (k : AlertKey) (log : List Said) : Bool :=
  log.foldl (fun isOpen x => if x.raised k then true
    else if x.resolved k || x = .off then false else isOpen) false

theorem sinceOff_append (log more : List Said) :
    sinceOff (log ++ more) =
      more.foldl (fun since x => if x = .off then [] else since ++ [x]) (sinceOff log) :=
  List.foldl_append

theorem raiseOf_eq_none {k : AlertKey} {x : Said} (h : x.beside k) : raiseOf k x = none := by
  cases x with
  | posted p =>
    simp only [Said.beside, Said.raised, Bool.and_eq_true, Bool.not_eq_true', decide_eq_false_iff_not]
      at h
    exact if_neg h.1.1
  | _ => rfl

/-- What is beside a key changes nothing of it. -/
theorem heard_beside {k : AlertKey} (log : List Said) {more : List Said}
    (h : ∀ x ∈ more, x.beside k) :
    raises k (log ++ more) = raises k log ∧ outstanding k (log ++ more) = outstanding k log := by
  induction more generalizing log with
  | nil => simp
  | cons x more ih =>
    have hx := h x List.mem_cons_self
    obtain ⟨hraises, hopen⟩ := ih (log ++ [x]) fun y hy => h y (List.mem_cons_of_mem _ hy)
    rw [List.append_assoc, List.singleton_append] at hraises hopen
    rw [hraises, hopen]
    simp only [Said.beside, Bool.and_eq_true, Bool.not_eq_true', decide_eq_true_eq] at hx
    constructor
    · unfold raises
      rw [sinceOff_append, List.foldl_cons, List.foldl_nil, if_neg hx.2, List.filterMap_append,
        List.filterMap_cons_none (raiseOf_eq_none _), List.filterMap_nil, List.append_nil]
      simp [Said.beside, hx]
    · unfold outstanding
      rw [List.foldl_append, List.foldl_cons, List.foldl_nil]
      simp [hx]

theorem heard_resolved {k : AlertKey} (log : List Said) {p : AlertPayload}
    (hevent : p.event = .resolved) (hkey : p.key = k) :
    raises k (log ++ [.posted p]) = raises k log ∧ outstanding k (log ++ [.posted p]) = false := by
  constructor
  · unfold raises
    rw [sinceOff_append, List.foldl_cons, List.foldl_nil, if_neg (by simp), List.filterMap_append]
    simp [raiseOf, hevent]
  · unfold outstanding
    rw [List.foldl_append, List.foldl_cons, List.foldl_nil]
    simp [Said.raised, Said.resolved, hevent, hkey]

theorem heard_raised {k : AlertKey} (log : List Said) {p : AlertPayload} (hevent : p.event = .raised)
    (hkey : p.key = k) :
    raises k (log ++ [.posted p]) = raises k log ++ [⟨p.sentAt, p.crossing, p.worsened⟩] ∧
      outstanding k (log ++ [.posted p]) = true := by
  constructor
  · unfold raises
    rw [sinceOff_append, List.foldl_cons, List.foldl_nil, if_neg (by simp), List.filterMap_append]
    simp [raiseOf, hevent, hkey]
  · unfold outstanding
    rw [List.foldl_append, List.foldl_cons, List.foldl_nil]
    simp [Said.raised, hevent, hkey]

theorem heard_off (k : AlertKey) (log : List Said) :
    raises k (log ++ [.off]) = [] ∧ outstanding k (log ++ [.off]) = false := by
  constructor
  · unfold raises
    rw [sinceOff_append]
    rfl
  · unfold outstanding
    rw [List.foldl_append]
    rfl

/-- What is left open is a raise that nothing came after. -/
theorem outstanding_iff (k : AlertKey) (log : List Said) :
    outstanding k log = true ↔
      ∃ before x after, log = before ++ x :: after ∧ x.raised k ∧
        ∀ y ∈ after, y.resolved k = false ∧ y ≠ .off := by
  induction log using List.reverseRecOn with
  | nil => simp [outstanding]
  | append_singleton log x ih =>
    have hlast : outstanding k (log ++ [x]) = if x.raised k then true
        else if x.resolved k || x = .off then false else outstanding k log := by
      unfold outstanding
      rw [List.foldl_append]
      rfl
    rw [hlast]
    by_cases hraised : x.raised k = true
    · rw [if_pos hraised]
      exact ⟨fun _ => ⟨log, x, [], rfl, hraised, by simp⟩, fun _ => rfl⟩
    · rw [if_neg hraised]
      have hsplit : ∀ {before after : List Said} {y : Said}, log ++ [x] = before ++ y :: after →
          y.raised k = true → ∃ after', after = after' ++ [x] ∧ log = before ++ y :: after' := by
        intro before after y heq hy
        cases after using List.reverseRecOn with
        | nil =>
          obtain ⟨-, hxy⟩ := List.append_inj' heq rfl
          rw [List.singleton_inj] at hxy
          exact absurd (hxy ▸ hy) hraised
        | append_singleton after' z =>
          rw [← List.cons_append, ← List.append_assoc] at heq
          obtain ⟨hlog, hxz⟩ := List.append_inj' heq rfl
          rw [List.singleton_inj] at hxz
          exact ⟨after', by rw [hxz], hlog⟩
      by_cases hends : (x.resolved k || decide (x = .off)) = true
      · rw [if_pos hends]
        constructor
        · intro hno
          cases hno
        · rintro ⟨before, y, after, heq, hy, hafter⟩
          obtain ⟨after', rfl, -⟩ := hsplit heq hy
          have hx := hafter x (List.mem_append_right _ List.mem_cons_self)
          simp [hx.1, hx.2] at hends
      · rw [if_neg hends, ih]
        simp only [Bool.or_eq_true, decide_eq_true_eq, not_or, Bool.not_eq_true] at hends
        constructor
        · rintro ⟨before, y, after, rfl, hy, hafter⟩
          refine ⟨before, y, after ++ [x], by simp, hy, ?_⟩
          intro z hz
          rcases List.mem_append.mp hz with hz | hz
          · exact hafter z hz
          · rw [List.mem_singleton.mp hz]
            exact hends
        · rintro ⟨before, y, after, heq, hy, hafter⟩
          obtain ⟨after', rfl, hlog⟩ := hsplit heq hy
          exact ⟨before, y, after', hlog, hy, fun z hz => hafter z (List.mem_append_left _ hz)⟩

/-! ## What a call adds -/

/-- A damp is not cut short: where it is over, it was over before, or its full time has passed. -/
def Rests (now : Int) (m m' : Memory) : Prop :=
  ∀ later, now ≤ later → ¬m'.Damped later → ¬m.Damped later ∨ now + FLAP_DAMP_MS ≤ later

/-- What a call does under its key, as the endpoint sees it. -/
inductive Hears (k : AlertKey) (now : Int) (m : Memory) : Memory → List Said → Prop
  | nothing (m' : Memory) (said : List Said) (hunheard : ∀ x ∈ said, x.unheard)
      (hannounced : m'.announced.isSome = m.announced.isSome)
      (hlast : m'.lastNotified = m.lastNotified) (htimes : m'.raiseTimes = m.raiseTimes)
      (hrests : Rests now m m') :
      Hears k now m m' said
  | resolved (m' : Memory) (p : AlertPayload) (before after : List Said)
      (hevent : p.event = .resolved) (hkey : p.key = k) (hbefore : ∀ x ∈ before, x.unheard)
      (hafter : ∀ x ∈ after, x.unheard) (hopen : m.announced.isSome)
      (hannounced : m'.announced = none)
      (hlast : (∃ id kind, k = .key id (.numeric kind)) → m'.lastNotified = m.lastNotified)
      (htimes : m'.raiseTimes = m.raiseTimes)
      (hrests : Rests now m m') :
      Hears k now m m' (before ++ .posted p :: after)
  | raised (m' : Memory) (p : AlertPayload) (before after : List Said)
      (hevent : p.event = .raised) (hkey : p.key = k) (hsent : p.sentAt = now)
      (hbefore : ∀ x ∈ before, x.unheard) (hafter : ∀ x ∈ after, x.unheard)
      (hannounced : m'.announced.isSome) (hlast : m'.lastNotified = some now)
      (hgap : ∀ id kind, k = .key id (.numeric kind) →
        MIN_GAP kind ≤ now - m.lastNotified.getD 0)
      (hquiet : p.worsened = false → ¬m.Quiet now)
      (hrests : Rests now m m') (htimes : p.crossing = false → m'.raiseTimes = m.raiseTimes)
      (hcounted : p.crossing = true →
        let times := (m.raiseTimes.filter fun t => now - t < FLAP_WINDOW_MS) ++ [now]
        (times.length < FLAP_CROSSINGS ∧ m'.raiseTimes = times) ∨
          (FLAP_CROSSINGS ≤ times.length ∧ m'.raiseTimes = [] ∧
            ∀ later, ¬m'.Damped later → now + FLAP_DAMP_MS ≤ later)) :
      Hears k now m m' (before ++ .posted p :: after)

namespace Memory
variable {m m' : Memory} {now : Int}

theorem Lapses.rests {m₁ : Memory} (h : Lapses m now m₁) : Rests now m m₁ :=
  fun later hle hno => Or.inl fun hd => hno ((h.damped later hle).mpr hd)

theorem rests_trans {m₁ m₂ : Memory} (h : Rests now m m₁) (h' : Rests now m₁ m₂) :
    Rests now m m₂ :=
  fun later hle hno => (h' later hle hno).elim (h later hle) Or.inr

theorem refreshDamp_spec (m : Memory) (now : Int) :
    ∃ m₁ ends, Lapses m now m₁ ∧ m.refreshDamp now = { m₁ with dampedUntil := ends } ∧
      Rests now m (m.refreshDamp now) ∧ ((m.refreshDamp now).Damped now ↔ m.Damped now) := by
  obtain ⟨hdamped, hlapse⟩ := m.isDamped_spec now
  unfold refreshDamp
  generalize m.isDamped now = asked at hdamped hlapse
  obtain ⟨damped, m₁⟩ := asked
  dsimp only at hdamped hlapse ⊢
  by_cases hd : damped = true
  · rw [if_pos hd]
    refine ⟨m₁, _, hlapse, rfl, ?_, ?_⟩
    · intro later _ hno
      right
      by_contra hlt
      exact hno ⟨now + FLAP_DAMP_MS, rfl, by omega⟩
    · have hends : now < now + FLAP_DAMP_MS := by
        unfold FLAP_DAMP_MS
        omega
      exact iff_of_true ⟨_, rfl, hends⟩ (hdamped.mp hd)
  · rw [if_neg hd]
    exact ⟨m₁, m₁.dampedUntil, hlapse, rfl, hlapse.rests, hlapse.damped now le_rfl⟩

theorem noteCrossing_spec (m : Memory) (now : Int) :
    let times := (m.raiseTimes.filter fun t => now - t < FLAP_WINDOW_MS) ++ [now]
    (times.length < FLAP_CROSSINGS ∧ m.noteCrossing now = (false, { m with raiseTimes := times })) ∨
      (FLAP_CROSSINGS ≤ times.length ∧ m.noteCrossing now =
        (true, { m with raiseTimes := [], dampedUntil := some (now + FLAP_DAMP_MS) })) := by
  unfold noteCrossing
  dsimp only
  split_ifs with hlen
  · exact Or.inl ⟨hlen, rfl⟩
  · exact Or.inr ⟨Nat.le_of_not_lt hlen, rfl⟩

variable (serverId serverName : String) (kind : NumericAlertKind) (value threshold : ℚ)

/-- A clear reading, outside a damp and a snooze and with its dwell met, leaves nothing announced. -/
theorem clearReading_hears (m : Memory) (now : Int) :
    Hears (.key serverId (.numeric kind)) now m
        (m.clearReading serverId serverName kind value threshold now).1
        (m.clearReading serverId serverName kind value threshold now).2 ∧
      (¬m.Damped now → ¬m.Snoozed now → dwellMet (noteRun m.recovered now) kind now = true →
        (m.clearReading serverId serverName kind value threshold now).1.announced = none) := by
  obtain ⟨hquiet, hlapse⟩ := (m.noteClearReading now).isQuiet_spec now
  have hquiet' : (m.noteClearReading now).Quiet now ↔ m.Damped now ∨ m.Snoozed now := by
    simp [Quiet, noteClearReading, noteClear, Damped, Snoozed]
  have hrests : Rests now m ((m.noteClearReading now).isQuiet now).2 := hlapse.rests
  unfold clearReading
  generalize (m.noteClearReading now).isQuiet now = asked at hquiet hlapse hrests ⊢
  obtain ⟨quiet, m₁⟩ := asked
  dsimp only at hquiet hlapse hrests ⊢
  have hsame : Hears (.key serverId (.numeric kind)) now m m₁ [] :=
    .nothing m₁ [] (by simp) (congrArg Option.isSome hlapse.announced) hlapse.lastNotified
      hlapse.raiseTimes hrests
  by_cases hq : quiet = true
  · rw [if_pos hq]
    refine ⟨hsame, fun hd hs => ?_⟩
    exact absurd (hquiet'.mp (hquiet.mp hq)) (not_or.mpr ⟨hd, hs⟩)
  · rw [if_neg hq]
    by_cases hdwell : dwellMet m₁.recovered kind now = false
    · rw [if_pos hdwell]
      refine ⟨hsame, fun _ _ hmet => ?_⟩
      rw [hlapse.recovered] at hdwell
      exact absurd (hmet.symm.trans hdwell) (by simp)
    · rw [if_neg hdwell]
      unfold allClear
      by_cases hopen : m₁.announced.isSome = true
      · rw [if_pos hopen]
        have hresolved : ∀ (m' : Memory) (row : StoredAlertRow), m'.announced = none →
            m'.lastNotified = m₁.lastNotified → m'.raiseTimes = m₁.raiseTimes →
            m'.dampedUntil = m₁.dampedUntil →
            Hears (.key serverId (.numeric kind)) now m m'
              ([.recorded row] ++ .posted ⟨.resolved, .key serverId (.numeric kind), serverName, "",
                now, some (fmt value), some threshold, none, false, false, false⟩ :: []) := by
          intro m' row hnone hlast htimes hdamp
          refine .resolved m' _ [.recorded row] [] rfl rfl (by simp [Said.unheard]) (by simp) ?_
            hnone (fun _ => hlast.trans hlapse.lastNotified) (htimes.trans hlapse.raiseTimes) ?_
          · exact (congrArg Option.isSome hlapse.announced).symm.trans hopen
          · intro later hle hno
            apply hrests later hle
            unfold Damped at hno ⊢
            rwa [hdamp] at hno
        dsimp only
        split_ifs
        · exact ⟨hresolved _ _ rfl rfl rfl rfl, fun _ _ _ => rfl⟩
        · exact ⟨hresolved _ _ rfl rfl rfl rfl, fun _ _ _ => rfl⟩
      · rw [if_neg hopen]
        rw [Option.not_isSome_iff_eq_none] at hopen
        dsimp only
        split_ifs
        · exact ⟨.nothing _ [] (by simp) (congrArg Option.isSome hlapse.announced)
            hlapse.lastNotified hlapse.raiseTimes hrests, fun _ _ _ => hopen⟩
        · exact ⟨hsame, fun _ _ _ => hopen⟩

/-- Seeing the condition hold changes nothing that was said. -/
theorem noteHeld_spec (crossing : Bool) (now : Int) (m : Memory) :
    (m.noteHeld crossing now).lastNotified = m.lastNotified ∧
      (m.noteHeld crossing now).lastNotifiedValue = m.lastNotifiedValue ∧
      (m.noteHeld crossing now).announced = m.announced ∧
      (m.noteHeld crossing now).raiseTimes = m.raiseTimes ∧
      Rests now m (m.noteHeld crossing now) ∧
      ((m.noteHeld crossing now).Quiet now ↔ m.Quiet now) := by
  unfold noteHeld
  cases crossing with
  | false => exact ⟨rfl, rfl, rfl, rfl, (Lapses.refl m now).rests, Iff.rfl⟩
  | true =>
    obtain ⟨m₁, ends, hlapse, heq, hrests, hdamped⟩ :=
      ({ m with conditionHeld := true } : Memory).refreshDamp_spec now
    rw [if_pos rfl]
    refine ⟨?_, ?_, ?_, ?_, hrests, ?_⟩
    · rw [heq]
      exact hlapse.lastNotified
    · rw [heq]
      exact hlapse.lastNotifiedValue
    · rw [heq]
      exact hlapse.announced
    · rw [heq]
      exact hlapse.raiseTimes
    · have hsnoozed := hlapse.snoozed now le_rfl
      have hack := hlapse.acknowledged
      rw [heq] at hdamped ⊢
      unfold Quiet
      apply or_congr hdamped
      apply or_congr hsnoozed
      rw [← hack]

/-- A raise, once it is decided. -/
theorem noteCrossing_hears {m₁ : Memory} (crossing worsened : Bool) (before after : List Said)
    {k : AlertKey} {p : AlertPayload} {m' : Memory}
    (htimes₁ : m₁.raiseTimes = m.raiseTimes) (hrests₁ : Rests now m m₁)
    (hnoted : m'.raiseTimes = (if crossing then m₁.noteCrossing now else (false, m₁)).2.raiseTimes ∧
      m'.dampedUntil = (if crossing then m₁.noteCrossing now else (false, m₁)).2.dampedUntil)
    (hevent : p.event = .raised) (hkey : p.key = k) (hsent : p.sentAt = now)
    (hcrossing : p.crossing = crossing) (hworsened : p.worsened = worsened)
    (hbefore : ∀ x ∈ before, x.unheard) (hafter : ∀ x ∈ after, x.unheard)
    (hannounced : m'.announced.isSome) (hlast : m'.lastNotified = some now)
    (hgap : ∀ id kind, k = .key id (.numeric kind) → MIN_GAP kind ≤ now - m.lastNotified.getD 0)
    (hquiet : worsened = false → ¬m.Quiet now) :
    Hears k now m m' (before ++ .posted p :: after) := by
  have hrests : Rests now m₁ m' := by
    cases crossing with
    | false =>
      intro later _ hno
      left
      unfold Damped at hno ⊢
      rwa [hnoted.2] at hno
    | true =>
      intro later _ hno
      unfold Damped at hno ⊢
      rw [hnoted.2] at hno
      obtain ⟨-, hnote⟩ | ⟨-, hnote⟩ := m₁.noteCrossing_spec now
      · rw [if_pos rfl, hnote] at hno
        exact Or.inl hno
      · rw [if_pos rfl, hnote] at hno
        right
        by_contra hlt
        exact hno ⟨_, rfl, by omega⟩
  refine .raised m' p before after hevent hkey hsent hbefore hafter hannounced hlast hgap ?_
    (rests_trans hrests₁ hrests) ?_ ?_
  · rw [hworsened]
    exact hquiet
  · rw [hcrossing]
    rintro rfl
    exact hnoted.1.trans htimes₁
  · rw [hcrossing]
    rintro rfl
    obtain ⟨hlen, hnote⟩ | ⟨hlen, hnote⟩ := m₁.noteCrossing_spec now
    · rw [if_pos rfl, hnote] at hnoted
      rw [htimes₁] at hlen hnoted
      exact Or.inl ⟨hlen, hnoted.1⟩
    · rw [if_pos rfl, hnote] at hnoted
      rw [htimes₁] at hlen
      refine Or.inr ⟨hlen, hnoted.1, ?_⟩
      intro later hno
      by_contra hlt
      apply hno
      unfold Damped
      rw [hnoted.2]
      exact ⟨_, rfl, by omega⟩

/-- A chip changes nothing that was said. -/
theorem showChip_spec (name : String) (detail : Option String) (now : Int) (m : Memory) :
    (m.showChip name detail now).announced = m.announced ∧
      (m.showChip name detail now).lastNotified = m.lastNotified ∧
      (m.showChip name detail now).lastNotifiedValue = m.lastNotifiedValue ∧
      (m.showChip name detail now).raiseTimes = m.raiseTimes ∧
      Rests now m (m.showChip name detail now) ∧
      ((m.showChip name detail now).Quiet now ↔ m.Quiet now) := by
  unfold showChip
  split_ifs <;> exact ⟨rfl, rfl, rfl, rfl, (Lapses.refl m now).rests, Iff.rfl⟩

theorem noteBadReading_spec (name : String) (now : Int) (m : Memory) :
    (m.noteBadReading name now).announced = m.announced ∧
      (m.noteBadReading name now).lastNotified = m.lastNotified ∧
      (m.noteBadReading name now).lastNotifiedValue = m.lastNotifiedValue ∧
      (m.noteBadReading name now).raiseTimes = m.raiseTimes ∧
      Rests now m (m.noteBadReading name now) ∧
      ((m.noteBadReading name now).Quiet now ↔ m.Quiet now) :=
  m.showChip_spec name none now

theorem badReading_hears (m : Memory) (now : Int) :
    Hears (.key serverId (.numeric kind)) now m
      (m.badReading serverId serverName kind value threshold now).1
      (m.badReading serverId serverName kind value threshold now).2 := by
  have hbad : ∀ m' : Memory, m'.announced = m.announced → m'.lastNotified = m.lastNotified →
      m'.raiseTimes = m.raiseTimes → Rests now m m' →
      Hears (.key serverId (.numeric kind)) now m m' [] := by
    intro m' hannounced hlast htimes hrests
    exact .nothing m' [] (by simp) (congrArg Option.isSome hannounced) hlast htimes hrests
  obtain ⟨hannounced, hlast, -, htimes, hrests, hquiet⟩ := m.noteBadReading_spec serverName now
  unfold badReading
  generalize m.noteBadReading serverName now = m₁ at *
  dsimp only
  by_cases hdwell : dwellMet m₁.breach kind now = false
  · rw [if_pos hdwell]
    exact hbad m₁ hannounced hlast htimes hrests
  · rw [if_neg hdwell]
    generalize (!m₁.conditionHeld) = crossing
    obtain ⟨hlast', -, hannounced', htimes', hrests', hquiet'⟩ := noteHeld_spec crossing now m₁
    generalize m₁.noteHeld crossing now = m₂ at *
    rw [hlast] at hlast'
    rw [hannounced] at hannounced'
    rw [htimes] at htimes'
    rw [hquiet] at hquiet'
    generalize (m₂.lastNotifiedValue.any fun said => escalated kind value said) = worsened
    obtain ⟨hasked, hlapse⟩ := m₂.isQuiet_spec now
    obtain ⟨quiet, m₃, heq, hlapse₃, hspoke⟩ : ∃ quiet m₃,
        (if worsened = true then (false, m₂) else m₂.isQuiet now) = (quiet, m₃) ∧
        Lapses m₂ now m₃ ∧ (worsened = false → quiet = false → ¬m₂.Quiet now) := by
      cases worsened with
      | true => exact ⟨false, m₂, rfl, Lapses.refl m₂ now, fun h => by cases h⟩
      | false =>
        refine ⟨_, _, rfl, hlapse, fun _ hq hquiet => ?_⟩
        have htrue := hasked.mpr hquiet
        exact absurd (htrue.symm.trans hq) (by simp)
    have hrests₂ := rests_trans hrests hrests'
    have hrests₃ := rests_trans hrests₂ hlapse₃.rests
    rw [heq]
    dsimp only
    split_ifs with hno hgap hq
    · exact hbad m₂ hannounced' hlast' htimes' hrests₂
    · exact hbad m₂ hannounced' hlast' htimes' hrests₂
    · exact hbad m₃ (hlapse₃.announced.trans hannounced') (hlapse₃.lastNotified.trans hlast')
        (hlapse₃.raiseTimes.trans htimes') hrests₃
    · unfold raiseReading
      refine noteCrossing_hears crossing worsened [.recorded _, .desktop _] []
        (hlapse₃.raiseTimes.trans htimes') hrests₃ ⟨rfl, rfl⟩ rfl rfl rfl rfl rfl ?_ ?_ rfl rfl ?_ ?_
      · simp [Said.unheard]
      · simp
      · intro id kind' hk
        cases hk
        rw [← hlast']
        omega
      · intro hw hquiet
        exact hspoke hw (by simpa using hq) (hquiet'.mpr hquiet)

variable (id who : String) (state : StateAlertKind)

theorem goodSignal_hears (m : Memory) (now : Int) :
    Hears (.key id (.state state)) now m (m.goodSignal id who state now).1
        (m.goodSignal id who state now).2 ∧
      (¬m.Damped now → ¬m.Snoozed now → (m.goodSignal id who state now).1.announced = none) := by
  obtain ⟨hquiet, hlapse⟩ := m.noteClear.isQuiet_spec now
  have hquiet' : m.noteClear.Quiet now ↔ m.Damped now ∨ m.Snoozed now := by
    simp [Quiet, noteClear, Damped, Snoozed]
  have hrests : Rests now m (m.noteClear.isQuiet now).2 := hlapse.rests
  unfold goodSignal
  generalize m.noteClear.isQuiet now = asked at hquiet hlapse hrests ⊢
  obtain ⟨quiet, m₁⟩ := asked
  dsimp only at hquiet hlapse hrests ⊢
  have hsame : Hears (.key id (.state state)) now m m₁ [] :=
    .nothing m₁ [] (by simp) (congrArg Option.isSome hlapse.announced) hlapse.lastNotified
      hlapse.raiseTimes hrests
  by_cases hq : quiet = true
  · rw [if_pos hq]
    refine ⟨hsame, fun hd hs => ?_⟩
    exact absurd (hquiet'.mp (hquiet.mp hq)) (not_or.mpr ⟨hd, hs⟩)
  · rw [if_neg hq]
    by_cases hopen : m₁.announced.isSome = true
    · rw [if_pos hopen]
      refine ⟨.resolved _ _ [] [.recorded _] rfl rfl (by simp) (by simp [Said.unheard]) ?_ rfl ?_
        hlapse.raiseTimes hrests, fun _ _ => rfl⟩
      · exact (congrArg Option.isSome hlapse.announced).symm.trans hopen
      · rintro ⟨_, _, hk⟩
        cases hk
    · rw [if_neg hopen]
      exact ⟨hsame, fun _ _ => Option.not_isSome_iff_eq_none.mp hopen⟩

theorem badSignal_hears (what : String) (m : Memory) (now : Int) :
    Hears (.key id (.state state)) now m (m.badSignal id who state what now).1
      (m.badSignal id who state what now).2 := by
  have hbad : ∀ m' : Memory, m'.announced = m.announced → m'.lastNotified = m.lastNotified →
      m'.raiseTimes = m.raiseTimes → Rests now m m' →
      Hears (.key id (.state state)) now m m' [] := by
    intro m' hannounced hlast htimes hrests
    exact .nothing m' [] (by simp) (congrArg Option.isSome hannounced) hlast htimes hrests
  obtain ⟨hannounced, hlast, -, htimes, hrests, hquiet⟩ := m.showChip_spec who (some what) now
  unfold badSignal
  generalize m.showChip who (some what) now = m₁ at *
  dsimp only
  generalize (!m₁.conditionHeld || m₁.holdIsStale now) = crossing
  obtain ⟨hlast', -, hannounced', htimes', hrests', hquiet'⟩ := noteHeld_spec crossing now m₁
  generalize m₁.noteHeld crossing now = m₂ at *
  rw [hlast] at hlast'
  rw [hannounced] at hannounced'
  rw [htimes] at htimes'
  rw [hquiet] at hquiet'
  have hrests₂ := rests_trans hrests hrests'
  obtain ⟨hasked, hlapse⟩ := m₂.isQuiet_spec now
  generalize m₂.isQuiet now = asked at hasked hlapse ⊢
  obtain ⟨quiet, m₃⟩ := asked
  dsimp only at hasked hlapse ⊢
  have hrests₃ := rests_trans hrests₂ hlapse.rests
  by_cases hcrossing : crossing = false
  · rw [if_pos hcrossing]
    exact hbad m₂ hannounced' hlast' htimes' hrests₂
  · rw [if_neg hcrossing]
    by_cases hq : quiet = true
    · rw [if_pos hq]
      exact hbad m₃ (hlapse.announced.trans hannounced') (hlapse.lastNotified.trans hlast')
        (hlapse.raiseTimes.trans htimes') hrests₃
    · rw [if_neg hq]
      refine noteCrossing_hears true false [.desktop _] [.recorded _]
        (hlapse.raiseTimes.trans htimes') hrests₃ ⟨rfl, rfl⟩ rfl rfl rfl rfl rfl ?_ ?_ rfl rfl ?_ ?_
      · simp [Said.unheard]
      · simp [Said.unheard]
      · intro _ _ hk
        cases hk
      · exact fun _ hquiet => hq (hasked.mpr (hquiet'.mpr hquiet))

end Memory

end OpsMaxx.Alerts
