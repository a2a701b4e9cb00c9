import OpsMaxx.Alerts.Heard

/-!
# The endpoint's picture of an alert

What every run keeps of the raises and all-clears posted for a key: an all-clear answers a raise, a
clear reading leaves none open, raises of one key keep their distance, nothing but an escalation is
said in a quiet period, and crossings are damped.
-/

set_option autoImplicit false

namespace OpsMaxx.Alerts
open OpsMaxx.Machine

/-! ## Crossings that are counted -/

/-- A period of `FLAP_WINDOW_MS` that begins at a time. -/
def inPeriod (begins : Int) (r : Raise) : Bool :=
  begins ≤ r.saidAt ∧ r.saidAt < begins + FLAP_WINDOW_MS

/-- A raise that is there because a condition began to hold, and not because it got worse. -/
def plain (r : Raise) : Bool := r.crossing && !r.worsened

def recent (now : Int) (times : List Int) : List Int :=
  times.filter fun t => now - t < FLAP_WINDOW_MS

/-- The crossings said so far, against the counter. Those before the last trip are as long ago as the
damp lasts; of the others the counter has those that are recent. -/
structure Flap (times : List Int) (damped : Int → Prop) (clock : Int) (crossings : List Raise) :
    Prop where
  few : times.length < FLAP_CROSSINGS
  ledger : ∃ old current, crossings = old ++ current ∧
    (∀ now, clock ≤ now → recent now times = recent now (current.map Raise.saidAt)) ∧
    ∀ r ∈ old, ∀ later, clock ≤ later → ¬damped later → r.saidAt + FLAP_WINDOW_MS ≤ later
  past : ∀ r ∈ crossings, r.saidAt ≤ clock
  bound : ∀ begins,
    (crossings.filter fun r => !r.worsened && inPeriod begins r).length ≤ FLAP_CROSSINGS

namespace Flap
variable {times : List Int} {damped damped' : Int → Prop} {clock now : Int} {crossings : List Raise}

theorem none (clock : Int) (damped : Int → Prop) : Flap [] damped clock [] where
  few := by decide
  ledger := ⟨[], [], rfl, fun _ _ => rfl, by simp⟩
  past := by simp
  bound := fun _ => Nat.zero_le _

/-- Time passes, and a damp may be refreshed. -/
theorem rest (h : Flap times damped clock crossings) (hle : clock ≤ now)
    (hrests : ∀ later, now ≤ later → ¬damped' later → ¬damped later ∨ now + FLAP_DAMP_MS ≤ later) :
    Flap times damped' now crossings := by
  obtain ⟨old, current, hsplit, htimes, hold⟩ := h.ledger
  refine ⟨h.few, ⟨old, current, hsplit, fun n hn => htimes n (hle.trans hn), ?_⟩, ?_, h.bound⟩
  · intro r hr later hlater hno
    rcases hrests later hlater hno with hno | hlong
    · exact hold r hr later (hle.trans hlater) hno
    · have hpast := h.past r (hsplit ▸ List.mem_append_left _ hr)
      unfold FLAP_WINDOW_MS
      unfold FLAP_DAMP_MS at hlong
      omega
  · exact fun r hr => (h.past r hr).trans hle

/-- How many of the crossings a period can hold once one more is said. -/
theorem bound_next (h : Flap times damped clock crossings) (hle : clock ≤ now) {r : Raise}
    (hr : r.saidAt = now) (hquiet : r.worsened = false → ¬damped now) (begins : Int) :
    ((crossings ++ [r]).filter fun r => !r.worsened && inPeriod begins r).length ≤
      FLAP_CROSSINGS := by
  rw [List.filter_append, List.length_append]
  by_cases hnew : (!r.worsened && inPeriod begins r) = true
  · simp only [Bool.and_eq_true, Bool.not_eq_true', inPeriod, decide_eq_true_eq, hr] at hnew
    obtain ⟨hplain, hbegins, hends⟩ := hnew
    obtain ⟨old, current, hsplit, htimes, hold⟩ := h.ledger
    -- those before the last trip are over, and the others are all in the counter
    have hold' : old.filter (fun r => !r.worsened && inPeriod begins r) = [] := by
      apply List.filter_eq_nil_iff.mpr
      intro o ho
      have hover := hold o ho now hle (hquiet hplain)
      simp only [Bool.and_eq_true, Bool.not_eq_true', inPeriod, decide_eq_true_eq, not_and]
      intro _ hin _
      omega
    have hcurrent : (current.filter fun r => !r.worsened && inPeriod begins r).length ≤
        (recent now (current.map Raise.saidAt)).length := by
      unfold recent
      rw [List.filter_map, List.length_map]
      apply List.Sublist.length_le
      apply List.monotone_filter_right
      intro o ho
      simp only [Bool.and_eq_true, Bool.not_eq_true', inPeriod, decide_eq_true_eq] at ho
      simp only [Function.comp_apply, decide_eq_true_eq]
      omega
    have hfew := h.few
    have hrecent : (recent now times).length ≤ times.length := List.length_filter_le _ _
    rw [htimes now hle] at hrecent
    rw [hsplit, List.filter_append, hold', List.nil_append]
    have hone : ([r].filter fun r => !r.worsened && inPeriod begins r).length ≤ 1 :=
      List.length_filter_le _ _
    omega
  · have hnone : [r].filter (fun r => !r.worsened && inPeriod begins r) = [] := by
      rw [List.filter_eq_nil_iff]
      intro o ho
      rw [List.mem_singleton.mp ho]
      exact hnew
    rw [hnone, List.length_nil, Nat.add_zero]
    exact h.bound begins

/-- A crossing that is said and does not trip. -/
theorem count (h : Flap times damped clock crossings) (hle : clock ≤ now) {r : Raise}
    (hr : r.saidAt = now) (hquiet : r.worsened = false → ¬damped now)
    (hrests : ∀ later, now ≤ later → ¬damped' later → ¬damped later ∨ now + FLAP_DAMP_MS ≤ later)
    (hfew : (recent now times ++ [now]).length < FLAP_CROSSINGS) :
    Flap (recent now times ++ [now]) damped' now (crossings ++ [r]) := by
  obtain ⟨old, current, hsplit, htimes, hold⟩ := (h.rest hle hrests).ledger
  refine ⟨hfew, ⟨old, current ++ [r], ?_, ?_, hold⟩, ?_, h.bound_next hle hr hquiet⟩
  · rw [hsplit, List.append_assoc]
  · intro n hn
    have hlater : recent n (recent now times) = recent n times := by
      unfold recent
      rw [List.filter_filter]
      apply List.filter_congr
      intro t _
      rw [Bool.eq_iff_iff]
      simp only [Bool.and_eq_true, decide_eq_true_eq]
      omega
    have happend : ∀ a b : List Int, recent n (a ++ b) = recent n a ++ recent n b :=
      fun a b => List.filter_append a b
    rw [happend, hlater, htimes n hn, List.map_append, happend, List.map_singleton, hr]
  · intro o ho
    rcases List.mem_append.mp ho with ho | ho
    · exact (h.past o ho).trans hle
    · rw [List.mem_singleton.mp ho, hr]

/-- The crossing that trips. -/
theorem trip (h : Flap times damped clock crossings) (hle : clock ≤ now) {r : Raise}
    (hr : r.saidAt = now) (hquiet : r.worsened = false → ¬damped now)
    (hdamped : ∀ later, ¬damped' later → now + FLAP_DAMP_MS ≤ later) :
    Flap [] damped' now (crossings ++ [r]) := by
  have hpast : ∀ o ∈ crossings ++ [r], o.saidAt ≤ now := by
    intro o ho
    rcases List.mem_append.mp ho with ho | ho
    · exact (h.past o ho).trans hle
    · rw [List.mem_singleton.mp ho, hr]
  refine ⟨by decide, ⟨crossings ++ [r], [], (List.append_nil _).symm, fun _ _ => rfl, ?_⟩, hpast,
    h.bound_next hle hr hquiet⟩
  intro o ho later _ hno
  have hlong := hdamped later hno
  have hbefore := hpast o ho
  unfold FLAP_WINDOW_MS
  unfold FLAP_DAMP_MS at hlong
  omega

end Flap

/-! ## Every call, under every key -/

/-- A key under which a condition is held: of a reading or of a state. -/
def AlertKey.holdsCondition : AlertKey → Prop
  | .key _ (.numeric _) => True
  | .key _ (.state _) => True
  | _ => False

/-- What an act does to one key. -/
inductive Turn (k : AlertKey) (now : Int) (s s' : State) : Prop
  | aside (more : List Said) (hsaid : s'.said = s.said ++ more) (hbeside : ∀ x ∈ more, x.beside k)
      (hsame : s'.memory k = s.memory k)
  | here (more : List Said) (hsaid : s'.said = s.said ++ more)
      (hhears : Hears k now (s.memory k) (s'.memory k) more)
  | off (rows : List Said) (hsaid : s'.said = s.said ++ rows ++ [.off])
      (hrows : ∀ x ∈ rows, x.unheard) (hfresh : s'.memory k = .fresh)

theorem Hears.beside_of_ne {k k' : AlertKey} {now : Int} {m m' : Memory} {more : List Said}
    (h : Hears k' now m m' more) (hne : k' ≠ k) : ∀ x ∈ more, x.beside k := by
  have hposted : ∀ p : AlertPayload, p.key = k' → (Said.posted p).beside k := by
    intro p hp
    have hother : p.key ≠ k := fun heq => hne (hp.symm.trans heq)
    simp [Said.beside, Said.raised, Said.resolved, hother]
  have hall : ∀ (before after : List Said) (p : AlertPayload), p.key = k' →
      (∀ x ∈ before, x.unheard) → (∀ x ∈ after, x.unheard) →
      ∀ x ∈ before ++ .posted p :: after, x.beside k := by
    intro before after p hp hbefore hafter x hx
    rcases List.mem_append.mp hx with hx | hx
    · exact Said.beside_of_unheard k (hbefore x hx)
    · rcases List.mem_cons.mp hx with rfl | hx
      · exact hposted p hp
      · exact Said.beside_of_unheard k (hafter x hx)
  cases h with
  | nothing _ hunheard => exact fun x hx => Said.beside_of_unheard k (hunheard x hx)
  | resolved p before after _ hkey hbefore hafter => exact hall before after p hkey hbefore hafter
  | raised p before after _ hkey _ hbefore hafter => exact hall before after p hkey hbefore hafter

theorem under_turn (s : State) (k k' : AlertKey) (now : Int) (f : Memory → Memory × List Said)
    (h : Hears k' now (s.memory k') (f (s.memory k')).1 (f (s.memory k')).2) :
    Turn k now s (s.under k' f) := by
  by_cases hk : k' = k
  · subst hk
    refine .here _ rfl ?_
    rw [show (s.under k' f).memory k' = (f (s.memory k')).1 from Function.update_self ..]
    exact h
  · exact .aside _ rfl (h.beside_of_ne hk) (Function.update_of_ne (Ne.symm hk) _ _)

/-- What a person does about an alert is not heard by the endpoint. -/
theorem decided_hears (k : AlertKey) (now : Int) {m m' : Memory} (row : StoredAlertRow)
    (hannounced : m'.announced = m.announced) (hlast : m'.lastNotified = m.lastNotified)
    (htimes : m'.raiseTimes = m.raiseTimes) (hdamped : m'.dampedUntil = m.dampedUntil) :
    Hears k now m m' [.recorded row] := by
  refine .nothing m' _ (by simp [Said.unheard]) (congrArg Option.isSome hannounced) hlast htimes ?_
  intro later _ hno
  left
  unfold Memory.Damped at hno ⊢
  rwa [hdamped] at hno

theorem noteAlertEvent_beside {k : AlertKey} {id : String} {kind : EventAlertKind} {what : String}
    (hne : AlertKey.eventKey id kind what ≠ k) (who : String) (occurred : Int) (m : Memory) :
    ∀ x ∈ (m.noteAlertEvent id who kind what occurred).2, x.beside k := by
  unfold Memory.noteAlertEvent
  generalize m.isDamped occurred = asked
  obtain ⟨damped, m₁⟩ := asked
  dsimp only
  split_ifs
  · simp
  · simp [Said.beside, Said.raised, Said.resolved, hne]

theorem act_turn {k : AlertKey} (hk : k.holdsCondition) (s : State) (now : Int) (act : Act) :
    Turn k now s (s.act now act) := by
  have hstays : Turn k now s s := .aside [] (List.append_nil _).symm (by simp) rfl
  cases act with
  | evaluate serverId serverName kind value threshold isOver =>
    show Turn k now s (if s.enabled then _ else s)
    split_ifs
    · apply under_turn
      unfold Memory.evaluate
      split_ifs
      · exact Memory.badReading_hears serverId serverName kind value threshold _ now
      · exact (Memory.clearReading_hears serverId serverName kind value threshold _ now).1
    · exact hstays
  | checkStateAlert id name kind bad detail =>
    show Turn k now s (if s.enabled then _ else s)
    split_ifs
    · cases bad with
      | none =>
        refine .aside [] rfl (by simp) ?_
        exact congrFun (Function.update_eq_self _ s.memory) k
      | some bad =>
        apply under_turn
        cases bad with
        | true => exact Memory.badSignal_hears id _ kind _ _ now
        | false => exact (Memory.goodSignal_hears id _ kind _ now).1
    · exact hstays
  | noteAlertEvent id name kind detail occurred =>
    show Turn k now s (if s.enabled = false then s
      else if (id, kind, cleanName detail, occurred) ∈ s.seenEvents then s else _)
    split_ifs
    · exact hstays
    · exact hstays
    · have hne : AlertKey.eventKey id kind (cleanName detail) ≠ k := by
        rintro rfl
        exact hk
      exact .aside _ rfl (noteAlertEvent_beside hne _ _ _) (Function.update_of_ne (Ne.symm hne) _ _)
  | snoozeAlert serverId kind ms => exact under_turn _ _ _ _ _ (decided_hears _ _ _ rfl rfl rfl rfl)
  | unsnoozeAlert serverId kind => exact under_turn _ _ _ _ _ (decided_hears _ _ _ rfl rfl rfl rfl)
  | acknowledgeAlert serverId kind =>
    exact under_turn _ _ _ _ _ (decided_hears _ _ _ rfl rfl rfl rfl)
  | setEnabled enabled =>
    show Turn k now s (if enabled then { s with enabled := true }
      else if s.enabled then s.switchOff now else s)
    split_ifs
    · exact .aside [] (List.append_nil _).symm (by simp) rfl
    · refine .off _ rfl ?_ rfl
      intro x hx
      obtain ⟨key, -, hx⟩ := List.mem_flatMap.mp hx
      cases key with
      | key serverId kind =>
        rw [List.mem_singleton.mp hx]
        rfl
      | eventKey id kind question => cases hx
    · exact hstays

/-! ## What holds of a key -/

/-- An all-clear is posted only while a raise is open. -/
def Answered (k : AlertKey) (log : List Said) : Prop :=
  ∀ before x after, log = before ++ x :: after → x.resolved k = true → outstanding k before = true

/-- The memory of a key against what was heard of it. -/
structure Minded (k : AlertKey) (s : State) : Prop where
  announced : (s.memory k).announced.isSome = outstanding k s.said
  answered : Answered k s.said
  last : ∀ id kind, k = .key id (.numeric kind) →
    (s.memory k).lastNotified = (raises k s.said).getLast?.map Raise.saidAt
  past : ∀ r ∈ raises k s.said, r.saidAt ≤ s.clock
  spaced : ∀ id kind, k = .key id (.numeric kind) →
    (raises k s.said).Pairwise fun r r' => MIN_GAP kind ≤ r'.saidAt - r.saidAt
  flap : Flap (s.memory k).raiseTimes (s.memory k).Damped s.clock
    ((raises k s.said).filter Raise.crossing)

theorem Answered.append {k : AlertKey} {log more : List Said} (h : Answered k log)
    (hmore : ∀ before x after, more = before ++ x :: after → x.resolved k = true →
      outstanding k (log ++ before) = true) : Answered k (log ++ more) := by
  intro before x after heq hx
  rcases List.append_eq_append_iff.mp heq with ⟨c, hbefore, hc⟩ | ⟨c, hlog, hc⟩
  · rw [hbefore]
    exact hmore c x after hc hx
  · cases c with
    | nil =>
      rw [List.append_nil] at hlog
      rw [← hlog, ← List.append_nil log]
      exact hmore [] x after hc.symm hx
    | cons y c =>
      obtain ⟨rfl, -⟩ := List.cons.inj hc
      exact h before x c hlog hx

theorem heard_posted {k : AlertKey} (log : List Said) {before after : List Said} (p : AlertPayload)
    (hbefore : ∀ x ∈ before, x.unheard) (hafter : ∀ x ∈ after, x.unheard) :
    raises k (log ++ (before ++ .posted p :: after)) = raises k (log ++ [.posted p]) ∧
      outstanding k (log ++ (before ++ .posted p :: after)) =
        outstanding k (log ++ [.posted p]) := by
  have hb : ∀ x ∈ before, x.beside k := fun x hx => Said.beside_of_unheard k (hbefore x hx)
  have ha : ∀ x ∈ after, x.beside k := fun x hx => Said.beside_of_unheard k (hafter x hx)
  have hsplit : log ++ (before ++ .posted p :: after) = (log ++ before) ++ [.posted p] ++ after := by
    simp
  obtain ⟨hraises, hopen⟩ := heard_beside (log ++ before ++ [.posted p]) ha
  obtain ⟨hraises', hopen'⟩ := heard_beside log hb
  rw [hsplit, hraises, hopen]
  constructor
  · unfold raises at hraises' ⊢
    rw [sinceOff_append _ [_], sinceOff_append _ [_]]
    simp only [List.foldl_cons, List.foldl_nil, reduceCtorEq, if_false, List.filterMap_append,
      hraises']
  · unfold outstanding at hopen' ⊢
    rw [List.foldl_append, hopen', ← List.foldl_append]

/-- Among what is on the desktop or in the log only, a post stands at one place. -/
theorem place_unique {before after before' after' : List Said} {x y : Said}
    (heq : before ++ x :: after = before' ++ y :: after') (hbefore : ∀ z ∈ before, z.unheard)
    (hafter : ∀ z ∈ after, z.unheard) (hy : y.unheard = false) : before' = before := by
  have hnot : ∀ z : Said, z.unheard = true → z ≠ y := by
    rintro z hz rfl
    rw [hz] at hy
    cases hy
  rcases List.append_eq_append_iff.mp heq with ⟨c, hbefore', hc⟩ | ⟨c, hbefore', hc⟩
  · cases c with
    | nil => rw [hbefore', List.append_nil]
    | cons z c =>
      have hmem : y ∈ after := by
        rw [(List.cons.inj hc).2]
        exact List.mem_append_right _ List.mem_cons_self
      exact absurd rfl (hnot y (hafter y hmem))
  · cases c with
    | nil => rw [hbefore', List.append_nil]
    | cons z c =>
      have hmem : y ∈ before := by
        rw [hbefore', (List.cons.inj hc).1]
        exact List.mem_append_right _ List.mem_cons_self
      exact absurd rfl (hnot y (hbefore y hmem))

theorem not_resolved_of_unheard {k : AlertKey} {x : Said} (h : x.unheard) :
    x.resolved k = false := by
  have hbeside := Said.beside_of_unheard k h
  simp only [Said.beside, Bool.and_eq_true, Bool.not_eq_true'] at hbeside
  exact hbeside.1.2

theorem Minded.start (k : AlertKey) (enabled : Bool) (clock : Int) :
    Minded k (.start enabled clock) where
  announced := rfl
  answered := fun before x after h => by simp [State.start] at h
  last := fun _ _ _ => rfl
  past := by simp [State.start, raises, sinceOff]
  spaced := by simp [State.start, raises, sinceOff]
  flap := Flap.none clock _

/-- Nothing of the key is heard. -/
theorem Minded.still {k : AlertKey} {s s' : State} (h : Minded k s) (hle : s.clock ≤ s'.clock)
    (hraises : raises k s'.said = raises k s.said)
    (hopen : (s'.memory k).announced.isSome = outstanding k s'.said)
    (hanswered : Answered k s'.said)
    (hlast : (∃ id kind, k = .key id (.numeric kind)) →
      (s'.memory k).lastNotified = (s.memory k).lastNotified)
    (htimes : (s'.memory k).raiseTimes = (s.memory k).raiseTimes)
    (hrests : Rests s'.clock (s.memory k) (s'.memory k)) : Minded k s' where
  announced := hopen
  answered := hanswered
  last := by
    intro id kind hk
    rw [hlast ⟨id, kind, hk⟩, hraises]
    exact h.last id kind hk
  past := by
    rw [hraises]
    exact fun r hr => (h.past r hr).trans hle
  spaced := by
    rw [hraises]
    exact h.spaced
  flap := by
    rw [hraises, htimes]
    exact h.flap.rest hle hrests

theorem MIN_GAP_nonneg (kind : NumericAlertKind) : 0 ≤ MIN_GAP kind := by
  cases kind <;> decide

/-- Raises that keep their distance are not later than the last of them. -/
theorem le_getLast {rs : List Raise} {gap : Int} (hgap : 0 ≤ gap)
    (h : rs.Pairwise fun r r' => gap ≤ r'.saidAt - r.saidAt) {last : Raise}
    (hlast : rs.getLast? = some last) : ∀ r ∈ rs, r.saidAt ≤ last.saidAt := by
  obtain ⟨init, rfl⟩ := List.getLast?_eq_some_iff.mp hlast
  intro r hr
  rcases List.mem_append.mp hr with hr | hr
  · have hdist := (List.pairwise_append.mp h).2.2 r hr last List.mem_cons_self
    omega
  · rw [List.mem_singleton.mp hr]

theorem Minded.turn {k : AlertKey} {s s' : State} {now : Int} (h : Minded k s)
    (hle : s.clock ≤ now) (hclock : s'.clock = now) (hturn : Turn k now s s') : Minded k s' := by
  subst hclock
  cases hturn with
  | aside more hsaid hbeside hsame =>
    obtain ⟨hraises, hopen⟩ := heard_beside s.said hbeside
    rw [← hsaid] at hraises hopen
    refine h.still hle hraises ?_ ?_ (fun _ => by rw [hsame]) (by rw [hsame]) ?_
    · rw [hsame, hopen]
      exact h.announced
    · rw [hsaid]
      apply h.answered.append
      intro before x after hmore hx
      have hx' := hbeside x (by rw [hmore]; exact List.mem_append_right _ List.mem_cons_self)
      simp [Said.beside, hx] at hx'
    · rw [hsame]
      exact (Memory.Lapses.refl _ _).rests
  | off rows hsaid hrows hfresh =>
    obtain ⟨hraises, hopen⟩ := heard_off k (s.said ++ rows)
    rw [← hsaid] at hraises hopen
    constructor
    · rw [hfresh, hopen]
      rfl
    · rw [hsaid, List.append_assoc]
      apply h.answered.append
      intro before x after hmore hx
      have hmem : x ∈ rows ++ [.off] := by
        rw [hmore]
        exact List.mem_append_right _ List.mem_cons_self
      rcases List.mem_append.mp hmem with hmem | hmem
      · rw [not_resolved_of_unheard (hrows x hmem)] at hx
        cases hx
      · rw [List.mem_singleton.mp hmem] at hx
        cases hx
    · intro _ _ _
      rw [hraises, hfresh]
      rfl
    · rw [hraises]
      simp
    · rw [hraises]
      simp
    · rw [hraises, hfresh]
      exact Flap.none _ _
  | here more hsaid hhears =>
    generalize hm' : s'.memory k = m' at hhears
    cases hhears with
    | nothing _ hunheard hannounced hlast htimes hrests =>
      obtain ⟨hraises, hopen⟩ :=
        heard_beside s.said fun x hx => Said.beside_of_unheard k (hunheard x hx)
      rw [← hsaid] at hraises hopen
      refine h.still hle hraises ?_ ?_ (fun _ => by rw [hm', hlast]) (by rw [hm', htimes])
        (by rw [hm']; exact hrests)
      · rw [hm', hannounced, hopen]
        exact h.announced
      · rw [hsaid]
        apply h.answered.append
        intro before x after hmore hx
        rw [not_resolved_of_unheard (hunheard x (by
          rw [hmore]
          exact List.mem_append_right _ List.mem_cons_self))] at hx
        cases hx
    | resolved p before after hevent hkey hbefore hafter hopen hannounced hlast htimes hrests =>
      obtain ⟨hraises, hclosed⟩ := heard_posted (k := k) s.said p hbefore hafter
      obtain ⟨hraises', hclosed'⟩ := heard_resolved s.said hevent hkey
      rw [hraises'] at hraises
      rw [hclosed'] at hclosed
      rw [← hsaid] at hraises hclosed
      refine h.still hle hraises ?_ ?_ (fun hk => by rw [hm', hlast hk]) (by rw [hm', htimes])
        (by rw [hm']; exact hrests)
      · rw [hm', hannounced, hclosed]
        rfl
      · rw [hsaid]
        apply h.answered.append
        intro before' x after' hmore hx
        have hwas : outstanding k (s.said ++ before) = true := by
          rw [(heard_beside s.said fun y hy => Said.beside_of_unheard k (hbefore y hy)).2,
            ← h.announced]
          exact hopen
        have hx' : x.unheard = false := by
          by_contra hno
          rw [not_resolved_of_unheard (by simpa using hno)] at hx
          cases hx
        rw [place_unique hmore hbefore hafter hx']
        exact hwas
    | raised p before after hevent hkey hsent hbefore hafter hannounced hlast hgap hquiet hrests htimes
        hcounted =>
      obtain ⟨hraises, hopen⟩ := heard_posted (k := k) s.said p hbefore hafter
      obtain ⟨hraises', hopen'⟩ := heard_raised s.said hevent hkey
      rw [hraises', hsent] at hraises
      rw [hopen'] at hopen
      rw [← hsaid] at hraises hopen
      have hworse : p.worsened = false → ¬(s.memory k).Damped s'.clock :=
        fun hw hdamped => hquiet hw (Or.inl hdamped)
      constructor
      · rw [hm', hopen, hannounced]
      · rw [hsaid]
        apply h.answered.append
        intro before' x after' hmore hx
        have hmem : x ∈ before ++ .posted p :: after := by
          rw [hmore]
          exact List.mem_append_right _ List.mem_cons_self
        have hno : x.resolved k = false := by
          rcases List.mem_append.mp hmem with hmem | hmem
          · exact not_resolved_of_unheard (hbefore x hmem)
          · rcases List.mem_cons.mp hmem with rfl | hmem
            · simp [Said.resolved, hevent]
            · exact not_resolved_of_unheard (hafter x hmem)
        rw [hno] at hx
        cases hx
      · intro _ _ _
        rw [hm', hraises, List.getLast?_concat, hlast]
        rfl
      · rw [hraises]
        intro r hr
        rcases List.mem_append.mp hr with hr | hr
        · exact (h.past r hr).trans hle
        · rw [List.mem_singleton.mp hr]
      · intro id kind hk
        rw [hraises, List.pairwise_append]
        refine ⟨h.spaced id kind hk, List.pairwise_singleton _ _, ?_⟩
        intro r hr r' hr'
        rw [List.mem_singleton.mp hr']
        have hdist := hgap id kind hk
        rw [h.last id kind hk] at hdist
        cases hlatest : (raises k s.said).getLast? with
        | none =>
          rw [List.getLast?_eq_none_iff.mp hlatest] at hr
          cases hr
        | some latest =>
          have hearlier := le_getLast (MIN_GAP_nonneg kind) (h.spaced id kind hk) hlatest r hr
          rw [hlatest] at hdist
          simp only [Option.map_some, Option.getD_some] at hdist
          show MIN_GAP kind ≤ s'.clock - r.saidAt
          omega
      · rw [hraises, List.filter_append, hm']
        cases hcrossing : p.crossing with
        | false =>
          rw [htimes hcrossing]
          rw [show [(⟨s'.clock, false, p.worsened⟩ : Raise)].filter Raise.crossing = [] from rfl,
            List.append_nil]
          exact h.flap.rest hle hrests
        | true =>
          rw [show [(⟨s'.clock, true, p.worsened⟩ : Raise)].filter Raise.crossing =
            [⟨s'.clock, true, p.worsened⟩] from rfl]
          obtain ⟨hfew, hm'⟩ | ⟨-, hm', hdamped⟩ := hcounted hcrossing
          · rw [hm']
            exact h.flap.count hle rfl hworse hrests hfew
          · rw [hm']
            exact h.flap.trip hle rfl hworse hdamped

end OpsMaxx.Alerts
