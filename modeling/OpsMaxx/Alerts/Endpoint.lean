import OpsMaxx.Alerts.Picture

/-!
# What the endpoint can rely on

The endpoint hears of an alert only what is posted. Over every run: no all-clear comes without a
raise, a clear reading closes what is open, and the raises of one key are few and far between.
-/

set_option autoImplicit false

namespace OpsMaxx.Alerts
open OpsMaxx.Machine

/-! ## In a quiet period -/

/-- A raise that is posted, or shown on the desktop. -/
def Said.announces (k : AlertKey) : Said → Bool
  | .desktop n => n.key = k
  | x => x.raised k

namespace Memory
variable {m : Memory} {now : Int} {k : AlertKey} {x : Said}

theorem raiseReading_announces {serverId serverName : String} {kind : NumericAlertKind}
    {value threshold : ℚ} {mins : Int} {crossing worsened : Bool}
    (hx : x ∈ (m.raiseReading serverId serverName kind value threshold now mins crossing worsened).2)
    (hannounces : x.announces k) : k = .key serverId (.numeric kind) := by
  simp only [raiseReading, List.mem_cons, List.not_mem_nil, or_false] at hx
  rcases hx with rfl | rfl | rfl
  · cases hannounces
  · exact (of_decide_eq_true hannounces).symm
  · exact (of_decide_eq_true hannounces).2.symm

theorem badReading_announces {serverId serverName : String} {kind : NumericAlertKind}
    {value threshold : ℚ} (hx : x ∈ (m.badReading serverId serverName kind value threshold now).2)
    (hannounces : x.announces k) :
    k = .key serverId (.numeric kind) ∧
      (m.Quiet now → ∃ said ∈ m.lastNotifiedValue, escalated kind value said = true) := by
  obtain ⟨-, -, hvalue, -, -, hquiet⟩ := m.noteBadReading_spec serverName now
  unfold badReading at hx
  generalize m.noteBadReading serverName now = m₁ at *
  dsimp only at hx
  by_cases hdwell : dwellMet m₁.breach kind now = false
  · rw [if_pos hdwell] at hx
    cases hx
  · rw [if_neg hdwell] at hx
    obtain ⟨-, hvalue', -, -, -, hquiet'⟩ := noteHeld_spec (!m₁.conditionHeld) now m₁
    generalize m₁.noteHeld (!m₁.conditionHeld) now = m₂ at *
    rw [← hquiet, ← hquiet', ← hvalue, ← hvalue']
    have hasked := (m₂.isQuiet_spec now).1
    generalize m₂.isQuiet now = asked at hasked hx
    obtain ⟨quiet, m₃⟩ := asked
    dsimp only at hasked
    split_ifs at hx with _ _ hworsened _ hq
    · cases hx
    · cases hx
    · cases hx
    · exact ⟨raiseReading_announces hx hannounces, fun _ => Option.any_eq_true .. |>.mp hworsened⟩
    · cases hx
    · exact ⟨raiseReading_announces hx hannounces, fun h => absurd (hasked.mpr h) hq⟩

theorem badSignal_announces {id who : String} {state : StateAlertKind} {what : String}
    (hx : x ∈ (m.badSignal id who state what now).2) (hannounces : x.announces k) :
    k = .key id (.state state) ∧ ¬m.Quiet now := by
  obtain ⟨-, -, -, -, -, hquiet⟩ := m.showChip_spec who (some what) now
  unfold badSignal at hx
  generalize m.showChip who (some what) now = m₁ at *
  dsimp only at hx
  generalize (!m₁.conditionHeld || m₁.holdIsStale now) = crossing at hx
  obtain ⟨-, -, -, -, -, hquiet'⟩ := noteHeld_spec crossing now m₁
  generalize m₁.noteHeld crossing now = m₂ at *
  rw [← hquiet, ← hquiet']
  have hasked := (m₂.isQuiet_spec now).1
  generalize m₂.isQuiet now = asked at hasked hx
  obtain ⟨quiet, m₃⟩ := asked
  dsimp only at hasked hx
  split_ifs at hx with _ hq
  · cases hx
  · cases hx
  · refine ⟨?_, fun h => hq (hasked.mpr h)⟩
    simp only [List.mem_cons, List.not_mem_nil, or_false] at hx
    rcases hx with rfl | rfl | rfl
    · exact (of_decide_eq_true hannounces).symm
    · exact (of_decide_eq_true hannounces).2.symm
    · cases hannounces

/-- An all-clear announces nothing. -/
theorem clearReading_announces {serverId serverName : String} {kind : NumericAlertKind}
    {value threshold : ℚ}
    (hx : x ∈ (m.clearReading serverId serverName kind value threshold now).2) :
    x.announces k = false := by
  unfold clearReading allClear at hx
  generalize (m.noteClearReading now).isQuiet now = asked at hx
  obtain ⟨quiet, m₁⟩ := asked
  dsimp only at hx
  split_ifs at hx <;> simp at hx
  · rcases hx with rfl | rfl <;> rfl
  · rcases hx with rfl | rfl <;> rfl

theorem goodSignal_announces {id who : String} {state : StateAlertKind}
    (hx : x ∈ (m.goodSignal id who state now).2) : x.announces k = false := by
  unfold goodSignal at hx
  generalize m.noteClear.isQuiet now = asked at hx
  obtain ⟨quiet, m₁⟩ := asked
  dsimp only at hx
  split_ifs at hx <;> simp at hx
  rcases hx with rfl | rfl <;> rfl

end Memory

/-- What is announced in a quiet period is a value that got worse. -/
theorem act_quiet {k : AlertKey} (hk : k.holdsCondition) {s : State} {now : Int} {act : Act}
    (hquiet : (s.memory k).Quiet now) {more : List Said}
    (hsaid : (s.act now act).said = s.said ++ more) {x : Said} (hx : x ∈ more)
    (hannounces : x.announces k) :
    ∃ serverId serverName kind value threshold,
      act = .evaluate serverId serverName kind value threshold true ∧
      k = .key serverId (.numeric kind) ∧
      ∃ said ∈ (s.memory k).lastNotifiedValue, escalated kind value said = true := by
  have hnothing : ∀ s' : State, s'.said = s.said → s'.said = s.said ++ more → False := by
    intro s' hsame hsaid
    have hnil : more = [] := by simpa [hsame] using hsaid
    rw [hnil] at hx
    cases hx
  have hunder : ∀ (k' : AlertKey) (f : Memory → Memory × List Said),
      (s.under k' f).said = s.said ++ more → x ∈ (f (s.memory k')).2 := by
    intro k' f hsaid
    rwa [← List.append_cancel_left hsaid] at hx
  cases act with
  | evaluate serverId serverName kind value threshold isOver =>
    replace hsaid : (if s.enabled then _ else s : State).said = _ := hsaid
    split_ifs at hsaid
    · have hx' := hunder _ _ hsaid
      unfold Memory.evaluate at hx'
      cases isOver with
      | true =>
        obtain ⟨hkey, hworse⟩ := Memory.badReading_announces hx' hannounces
        subst hkey
        exact ⟨serverId, serverName, kind, value, threshold, rfl, rfl, hworse hquiet⟩
      | false =>
        rw [Memory.clearReading_announces hx'] at hannounces
        cases hannounces
    · exact (hnothing _ rfl hsaid).elim
  | checkStateAlert id name kind bad detail =>
    replace hsaid : (if s.enabled then _ else s : State).said = _ := hsaid
    split_ifs at hsaid
    · have hx' := hunder _ _ hsaid
      unfold Memory.checkStateAlert at hx'
      match bad with
      | none => cases hx'
      | some false =>
        rw [Memory.goodSignal_announces hx'] at hannounces
        cases hannounces
      | some true =>
        obtain ⟨hkey, hspoke⟩ := Memory.badSignal_announces hx' hannounces
        subst hkey
        exact absurd hquiet hspoke
    · exact (hnothing _ rfl hsaid).elim
  | noteAlertEvent id name kind detail occurred =>
    replace hsaid : (if s.enabled = false then s
      else if (id, kind, cleanName detail, occurred) ∈ s.seenEvents then s else _ : State).said = _ :=
        hsaid
    split_ifs at hsaid
    · exact (hnothing _ rfl hsaid).elim
    · exact (hnothing _ rfl hsaid).elim
    · have hx' := hunder _ _ hsaid
      unfold Memory.noteAlertEvent at hx'
      generalize (s.memory _).isDamped occurred = asked at hx'
      obtain ⟨damped, m₁⟩ := asked
      dsimp only at hx'
      split_ifs at hx'
      · cases hx'
      · simp only [List.mem_cons, List.not_mem_nil, or_false] at hx'
        rcases hx' with rfl | rfl | rfl
        · rw [← of_decide_eq_true hannounces] at hk
          cases hk
        · rw [← (of_decide_eq_true hannounces).2] at hk
          cases hk
        · cases hannounces
  | snoozeAlert serverId kind ms =>
    rw [List.mem_singleton.mp (hunder _ _ hsaid)] at hannounces
    cases hannounces
  | unsnoozeAlert serverId kind =>
    rw [List.mem_singleton.mp (hunder _ _ hsaid)] at hannounces
    cases hannounces
  | acknowledgeAlert serverId kind =>
    rw [List.mem_singleton.mp (hunder _ _ hsaid)] at hannounces
    cases hannounces
  | setEnabled enabled =>
    replace hsaid : (if enabled then { s with enabled := true }
      else if s.enabled then s.switchOff now else s : State).said = _ := hsaid
    split_ifs at hsaid
    · exact (hnothing _ rfl hsaid).elim
    · have hmore : s.announcedKeys.flatMap (s.standDown now) ++ [.off] = more := by
        apply List.append_cancel_left
        rw [← List.append_assoc]
        exact hsaid
      rw [← hmore] at hx
      rcases List.mem_append.mp hx with hx | hx
      · obtain ⟨key, -, hx⟩ := List.mem_flatMap.mp hx
        cases key with
        | key serverId kind =>
          rw [List.mem_singleton.mp hx] at hannounces
          cases hannounces
        | eventKey id kind question => cases hx
      · rw [List.mem_singleton.mp hx] at hannounces
        cases hannounces
    · exact (hnothing _ rfl hsaid).elim

/-! ## Over every run -/

/-- A raise that was posted has no all-clear yet, and alerts were not switched off since. -/
def LeftOpen (k : AlertKey) (log : List Said) : Prop :=
  ∃ before x after, log = before ++ x :: after ∧ x.raised k ∧
    ∀ y ∈ after, y.resolved k = false ∧ y ≠ .off

/-- The move is a clear reading of the key that is taken, outside a damp and a snooze and with its
dwell met. -/
def ReadsClear (k : AlertKey) (s : State) (move : Move) : Prop :=
  s.enabled = true ∧ ¬(s.memory k).Damped move.now ∧ ¬(s.memory k).Snoozed move.now ∧
    ((∃ serverId serverName kind value threshold,
        move.act = .evaluate serverId serverName kind value threshold false ∧
        k = .key serverId (.numeric kind) ∧
        dwellMet (noteRun (s.memory k).recovered move.now) kind move.now = true) ∨
      ∃ id name kind detail, move.act = .checkStateAlert id name kind (some false) detail ∧
        k = .key id (.state kind))

/-- The move is a reading that is that much worse than the one said last. -/
def ReadsWorse (k : AlertKey) (s : State) (move : Move) : Prop :=
  ∃ serverId serverName kind value threshold,
    move.act = .evaluate serverId serverName kind value threshold true ∧
    k = .key serverId (.numeric kind) ∧
    ∃ said ∈ (s.memory k).lastNotifiedValue, escalated kind value said = true

theorem ReadsClear.announced {k : AlertKey} {s : State} {move : Move} (h : ReadsClear k s move) :
    ((s.act move.now move.act).memory k).announced = none := by
  obtain ⟨henabled, hdamped, hsnoozed, hclear⟩ := h
  rcases hclear with ⟨serverId, serverName, kind, value, threshold, hact, rfl, hdwell⟩ |
    ⟨id, name, kind, detail, hact, rfl⟩
  · rw [hact]
    show ((if s.enabled then _ else s : State).memory _).announced = none
    rw [if_pos henabled]
    show (Function.update s.memory _ _ _).announced = none
    rw [Function.update_self]
    exact (Memory.clearReading_hears serverId serverName kind value threshold _ _).2 hdamped
      hsnoozed hdwell
  · rw [hact]
    show ((if s.enabled then _ else s : State).memory _).announced = none
    rw [if_pos henabled]
    show (Function.update s.memory _ _ _).announced = none
    rw [Function.update_self]
    exact (Memory.goodSignal_hears id _ kind _ _).2 hdamped hsnoozed

theorem Minded.step {k : AlertKey} (hk : k.holdsCondition) {s s' : State} {move : Move}
    (h : Minded k s) (hle : InOrder s move) (hstep : step s move = some s') : Minded k s' := by
  cases hstep
  have hturn : Turn k move.now s { s.act move.now move.act with clock := move.now } := by
    cases act_turn hk s move.now move.act with
    | aside more hsaid hbeside hsame => exact .aside more hsaid hbeside hsame
    | here more hsaid hhears => exact .here more hsaid hhears
    | off rows hsaid hrows hfresh => exact .off rows hsaid hrows hfresh
  exact h.turn hle rfl hturn

/-- In every run, and for every server and kind that holds a condition: an all-clear is posted only
while a raise is open; a clear reading leaves none open; from one switch-off of alerts to the next
two raises keep their distance, and no period holds too many that a crossing made; and in a quiet
period only a value that got worse is announced. -/
theorem endpoint_picture {k : AlertKey} (hk : k.holdsCondition) {enabled : Bool} {clock : Int}
    {moves : List Move} {s : State} (hrun : Run step InOrder (.start enabled clock) moves s) :
    (∀ before x after, s.said = before ++ x :: after → x.resolved k → LeftOpen k before) ∧
    (∀ move s', InOrder s move → Alerts.step s move = some s' → ReadsClear k s move →
      ¬LeftOpen k s'.said) ∧
    (∀ id kind, k = .key id (.numeric kind) →
      (raises k s.said).Pairwise fun r r' => MIN_GAP kind ≤ r'.saidAt - r.saidAt) ∧
    (∀ move s' more, Alerts.step s move = some s' → (s.memory k).Quiet move.now →
      s'.said = s.said ++ more → ∀ x ∈ more, x.announces k → ReadsWorse k s move) ∧
    ∀ begins, ((raises k s.said).filter fun r => plain r && inPeriod begins r).length ≤
      FLAP_CROSSINGS := by
  have hminded := hrun.invariant (Minded.start k enabled clock)
    fun v move v' h hok hstep => h.step hk hok hstep
  refine ⟨?_, ?_, hminded.spaced, ?_, ?_⟩
  · intro before x after heq hx
    exact (outstanding_iff k before).mp (hminded.answered before x after heq hx)
  · intro move s' hle hstep hclear hopen
    have hminded' := hminded.step hk hle hstep
    have hnone := hclear.announced
    cases hstep
    have hstill := hminded'.announced
    rw [(outstanding_iff k _).mpr hopen] at hstill
    replace hstill : ((s.act move.now move.act).memory k).announced.isSome = true := hstill
    rw [hnone] at hstill
    cases hstill
  · intro move s' more hstep hquiet hsaid x hx hannounces
    cases hstep
    exact act_quiet hk hquiet hsaid hx hannounces
  · intro begins
    have hbound := hminded.flap.bound begins
    rw [List.filter_filter] at hbound
    convert hbound using 3
    funext r
    unfold plain
    cases r.crossing <;> cases r.worsened <;> simp

/-! ## Some disks and an error rate -/

theorem run_of_play {s : State} (moves : List Move) {α : Type} (f : State → α) (v : α)
    (h : (play step (fun s m => decide (s.clock ≤ m.now)) s moves).map f = some v) :
    ∃ t, Run step InOrder s moves t ∧ f t = v := by
  obtain ⟨t, hplay, hv⟩ := Option.map_eq_some_iff.mp h
  refine ⟨t, (Run.of_play hplay).mono fun v m hok => ?_, hv⟩
  show v.clock ≤ m.now
  exact of_decide_eq_true hok

def webDisk : AlertKey := .key "web" (.numeric .disk)

def readsDisk (now : Int) (value : ℚ) (isOver : Bool) : Move :=
  ⟨now, .evaluate "web" "web" .disk value 85 isOver⟩

/-- A disk that fills, gets worse and is cleaned up. -/
def fillsOnce : List Move :=
  [readsDisk 30000000 86 true, readsDisk 30000010 92 true, readsDisk 30000020 40 false]

theorem endpoint_picture_fills :
    ∃ s, Run step InOrder (.start true 0) fillsOnce s ∧
      raises webDisk s.said = [⟨30000000, true, false⟩, ⟨30000010, false, true⟩] ∧
      (∀ before x after, s.said = before ++ x :: after → x.resolved webDisk →
        LeftOpen webDisk before) := by
  obtain ⟨s, hrun, hraises⟩ := run_of_play (s := .start true 0) fillsOnce
    (fun s => raises webDisk s.said) [⟨30000000, true, false⟩, ⟨30000010, false, true⟩]
    (by decide +kernel)
  exact ⟨s, hrun, hraises, (endpoint_picture (by exact trivial) hrun).1⟩

/-- Alerts are switched off and on between two readings of an error rate. -/
def offAndOn : List Move :=
  [⟨10000000, .evaluate "web" "web" .«error-rate» 20 5 true⟩, ⟨10000001, .setEnabled false⟩,
    ⟨10000002, .setEnabled true⟩, ⟨10000003, .evaluate "web" "web" .«error-rate» 20 5 true⟩]

/-- A disk that fills while it is snoozed for a moment, is said to be full when the snooze is over,
and is cleaned up. -/
def fillsAsleep (now : Int) : List Move :=
  [⟨now, .snoozeAlert "web" (.numeric .disk) 1⟩, readsDisk now 90 true, readsDisk (now + 1) 90 true,
    readsDisk (now + 2) 40 false]

def fillsSeven : List Move :=
  [0, 10, 20, 30, 40, 50, 60].flatMap fun i => fillsAsleep (30000000 + i)

/-- Two raises of one key come sooner than their distance where alerts were off in between; and a
period can hold more raises than are allowed that neither repeat nor are an escalation. -/
theorem raised_too_soon :
    (∃ s, Run step InOrder (.start true 0) offAndOn s ∧
      (s.said.filterMap (raiseOf (.key "web" (.numeric .«error-rate»)))).map Raise.saidAt =
        [10000000, 10000003] ∧
      ¬MIN_GAP .«error-rate» ≤ (10000003 : Int) - 10000000) ∧
    ∃ s r rs, Run step InOrder (.start true 0) fillsSeven s ∧ raises webDisk s.said = r :: rs ∧
      (r :: rs).IsChain (fun r r' => r'.saidAt - r.saidAt < REPEAT .disk) ∧
      (∀ r ∈ rs, r.worsened = false) ∧
      FLAP_CROSSINGS < (rs.filter (inPeriod 30000000)).length := by
  constructor
  · obtain ⟨s, hrun, htimes⟩ := run_of_play (s := .start true 0) offAndOn
      (fun s => (s.said.filterMap (raiseOf (.key "web" (.numeric .«error-rate»)))).map Raise.saidAt)
      [10000000, 10000003] (by decide +kernel)
    exact ⟨s, hrun, htimes, by decide⟩
  · obtain ⟨s, hrun, hraises⟩ := run_of_play (s := .start true 0) fillsSeven
      (fun s => raises webDisk s.said)
      (⟨30000001, false, false⟩ :: [10, 20, 30, 40, 50, 60].map fun i =>
        ⟨30000001 + i, false, false⟩) (by decide +kernel)
    exact ⟨s, _, _, hrun, hraises, by decide, by decide, by decide⟩

end OpsMaxx.Alerts
