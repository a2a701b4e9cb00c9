import OpsMaxx.Approvals.Answers

/-!
# The brake

A request that stops something is rationed by what was done to other such requests, and by nothing
else; and the rationing is as tight as it says.
-/

set_option autoImplicit false

namespace OpsMaxx.Approvals

open OpsMaxx OpsMaxx.Store

/-! ## Time -/

/-- A history up to `now`, in the order of its times. -/
def Upto (h : History) (now : Nat) : Prop := (h.map Prod.fst ++ [now]).Pairwise (· ≤ ·)

theorem upto_nil (now : Nat) : Upto [] now := List.pairwise_singleton _ _

theorem Upto.before {h : History} {x : Nat × Op} {now : Nat} (hu : Upto (h ++ [x]) now) :
    Upto h x.1 ∧ x.1 ≤ now := by
  unfold Upto at hu ⊢
  rw [List.map_append, List.map_singleton] at hu
  have hparts := List.pairwise_append.mp hu
  exact ⟨hparts.1, hparts.2.2 x.1 (by simp) now (by simp)⟩

section Runs
variable [Wording]

/-- An invariant that also speaks of the time, over a history in time's order. -/
theorem Run.timed {J : Nat → Queue → Prop} {h : History} {m : Main} (hrun : Run .start h m)
    (hstart : ∀ now, J now .start) (hlater : ∀ now now' q, now ≤ now' → J now q → J now' q)
    (hstep : ∀ now op q q', J now q → op.Allowed q → Changes now op q q' → J now q')
    {now : Nat} (hu : Upto h now) : J now m.queue := by
  have hboth := hrun.invariant (I := fun h q => Sound h q ∧ ∀ now, Upto h now → J now q)
    ⟨sound_start, fun now _ => hstart now⟩ fun h q now op hI hop => by
      refine ⟨hI.1.step hop, fun now' hu' => ?_⟩
      obtain ⟨hbefore, hle⟩ := hu'.before
      exact hlater _ _ _ hle
        (hstep _ _ _ _ (hI.2 _ hbefore) hop (Op.changes hI.1.burning hop))
  exact hboth.2 now hu

end Runs

/-! ## What a request is told -/

theorem refusal_answer (now : Nat) (input : CreateApprovalInput) (q : Queue) :
    (refusal now input q).1 =
      if now < q.deniedUntil (subjectKey input) then some .refused
      else if (q.withdrawnSince now input.sessionId).length ≥ MAX_WITHDRAWALS_PER_WINDOW ∧
        input.containment ≠ some true then some .«refused-withdrawn»
      else if q.live input.sessionId (input.containment = some true) ≥ MAX_PENDING_PER_SESSION then
        some .refused
      else none := by
  have hdenied := (keeps_pruneDenials now q).denied (subjectKey input) now le_rfl
  simp only [refusal, hdenied, apply_ite Prod.fst]
  rfl

theorem request_answer [Wording] (now : Nat) (id : String) (input : CreateApprovalInput)
    (q : Queue) : (requestApproval now id input q).1 = (refusal now input q).1 := by
  unfold requestApproval
  split <;> simp_all

/-! ## The cap -/

theorem live_eq (q : Queue) (sessionId : String) (containment : Bool) :
    q.live sessionId containment = q.pending.entries.countP fun e =>
      e.2.request.sessionId = sessionId ∧ e.2.containment = containment := by
  simp only [Queue.live, JsMap.values, List.countP_map, Function.comp_def]

/-- Ending a request frees its place and no other. -/
theorem live_delete {q q' : Queue} {id : String} {e : Entry} (he : q.pending.get id = some e)
    (hpending : q'.pending = q.pending.delete id) (sessionId : String) (containment : Bool) :
    q.live sessionId containment = q'.live sessionId containment +
      if e.request.sessionId = sessionId ∧ e.containment = containment then 1 else 0 := by
  rw [live_eq, live_eq, hpending, (q.pending.entries_perm he).countP_eq, List.countP_cons]
  exact congrArg _ (if_congr decide_eq_true_iff rfl rfl)

/-- Nor does a request change places while it is pending. -/
theorem live_set {q q' : Queue} {id : String} {e e' : Entry} (he : q.pending.get id = some e)
    (hsame : e.Same e') (hpending : q'.pending = q.pending.set id e') (sessionId : String)
    (containment : Bool) : q'.live sessionId containment = q.live sessionId containment := by
  have hmap := q.pending.map_set (fun x : String × Entry =>
    decide (x.2.request.sessionId = sessionId ∧ x.2.containment = containment)) e' he
    (by rw [hsame.sessionId, hsame.containment])
  simpa only [live_eq, hpending, List.countP_map, Function.comp_def] using
    congrArg (List.countP fun b => b) hmap

/-- What was found by a request that was asked. -/
theorem refusal_none {now : Nat} {input : CreateApprovalInput} {q : Queue}
    (h : (refusal now input q).1 = none) :
    ¬ now < q.deniedUntil (subjectKey input) ∧
    (input.containment ≠ some true →
      (q.withdrawnSince now input.sessionId).length < MAX_WITHDRAWALS_PER_WINDOW) ∧
    q.live input.sessionId (input.containment = some true) < MAX_PENDING_PER_SESSION := by
  rw [refusal_answer] at h
  split_ifs at h with hdenied hwithdrawn hlive
  exact ⟨hdenied, fun hc => not_le.mp fun hle => hwithdrawn ⟨hle, hc⟩, not_le.mp hlive⟩

/-! ## What the rationing keeps -/

/-- A request of a session that its agent took back. -/
def Resolution.withdrawn (r : Resolution) (sessionId : String) : Bool :=
  r.decision = .ended .disconnected ∧ r.entry.request.sessionId = sessionId

/-- Whether it ended in the window that starts at `a`. -/
def Resolution.within (r : Resolution) (a : Nat) : Bool :=
  a ≤ r.time ∧ r.time < a + WITHDRAWAL_WINDOW_MS

def Queue.withdrawnWithin (q : Queue) (sessionId : String) (a : Nat) : Nat :=
  q.resolved.countP fun r => r.withdrawn sessionId && r.within a

def Queue.startsWithdrawnWithin (q : Queue) (sessionId : String) (a : Nat) : Nat :=
  q.resolved.countP fun r => r.withdrawn sessionId && r.within a && !r.entry.containment

structure Rationed (now : Nat) (q : Queue) : Prop where
  capped : ∀ sessionId containment, q.live sessionId containment ≤ MAX_PENDING_PER_SESSION
  past : ∀ r ∈ q.resolved, r.time ≤ now
  cooling : ∀ r ∈ q.resolved, r.decision = .ended .denied → ∀ t, now ≤ t →
    t < r.time + DENY_COOLDOWN_MS → t < q.deniedUntil r.entry.subject
  counted : ∀ sessionId t, now ≤ t → (q.withdrawnSince t sessionId).length =
    q.resolved.countP fun r => r.withdrawn sessionId && decide (t < r.time + WITHDRAWAL_WINDOW_MS)
  window : ∀ sessionId a, q.startsWithdrawnWithin sessionId a ≤ 5 ∧
    (now < a + WITHDRAWAL_WINDOW_MS → q.withdrawnWithin sessionId a ≤ 2 ∨
      q.startsWithdrawnWithin sessionId a + q.live sessionId false ≤ 5)

theorem starts_le_withdrawn (q : Queue) (sessionId : String) (a : Nat) :
    q.startsWithdrawnWithin sessionId a ≤ q.withdrawnWithin sessionId a :=
  List.countP_mono_left fun _ _ h => (Bool.and_eq_true_iff.mp h).1

theorem rationed_start (now : Nat) : Rationed now .start := by
  refine ⟨?_, ?_, ?_, ?_, ?_⟩
  all_goals simp [Queue.start, Queue.live, JsMap.values, JsMap.empty, JsMap.get,
    Queue.withdrawnSince, Queue.startsWithdrawnWithin, Queue.withdrawnWithin]

theorem Rationed.later {now now' : Nat} {q : Queue} (hle : now ≤ now') (h : Rationed now q) :
    Rationed now' q :=
  ⟨h.capped, fun r hr => (h.past r hr).trans hle,
    fun r hr hd t ht => h.cooling r hr hd t (hle.trans ht),
    fun sessionId t ht => h.counted sessionId t (hle.trans ht),
    fun sessionId a => ⟨(h.window sessionId a).1, fun ha => (h.window sessionId a).2 (by omega)⟩⟩

/-- The withdrawals in a window that is still open all count against the next request. -/
theorem Rationed.withdrawnWithin_le {now : Nat} {q : Queue} (h : Rationed now q)
    (sessionId : String) {a : Nat} (ha : now < a + WITHDRAWAL_WINDOW_MS) :
    q.withdrawnWithin sessionId a ≤ (q.withdrawnSince now sessionId).length := by
  rw [h.counted sessionId now le_rfl]
  refine List.countP_mono_left fun r _ hr => ?_
  simp only [Bool.and_eq_true, Resolution.within, decide_eq_true_eq] at hr ⊢
  exact ⟨hr.1, by omega⟩

/-- Where nothing was resolved and no request was opened. -/
theorem Rationed.same {now : Nat} {q q' : Queue} (h : Rationed now q)
    (hlive : ∀ sessionId containment, q'.live sessionId containment = q.live sessionId containment)
    (hresolved : q'.resolved = q.resolved) (hkeeps : Keeps now q q') : Rationed now q' := by
  refine ⟨fun s c => hlive s c ▸ h.capped s c, hresolved ▸ h.past, ?_, ?_, ?_⟩
  · intro r hr hd t ht hlt
    exact (hkeeps.denied _ t ht).mpr (h.cooling r (hresolved ▸ hr) hd t ht hlt)
  · intro sessionId t ht
    rw [hkeeps.withdrawn sessionId t ht, hresolved]
    exact h.counted sessionId t ht
  · intro sessionId a
    simp only [Queue.startsWithdrawnWithin, Queue.withdrawnWithin, hresolved, hlive]
    exact h.window sessionId a

theorem Rationed.opened {now : Nat} {q q' : Queue} {input : CreateApprovalInput}
    (h : Rationed now q) (hasked : (refusal now input q).1 = none)
    (hlive : ∀ sessionId containment, q'.live sessionId containment = q.live sessionId containment +
      if input.sessionId = sessionId ∧ decide (input.containment = some true) = containment
      then 1 else 0)
    (hresolved : q'.resolved = q.resolved) (hkeeps : Keeps now q q') : Rationed now q' := by
  obtain ⟨-, hfew, hroom⟩ := refusal_none hasked
  refine ⟨fun s c => ?_, hresolved ▸ h.past, ?_, ?_, fun s a => ?_⟩
  · rw [hlive]
    split_ifs with hmine
    · rw [← hmine.1, ← hmine.2]
      omega
    · exact h.capped s c
  · intro r hr hd t ht hlt
    exact (hkeeps.denied _ t ht).mpr (h.cooling r (hresolved ▸ hr) hd t ht hlt)
  · intro sessionId t ht
    rw [hkeeps.withdrawn sessionId t ht, hresolved]
    exact h.counted sessionId t ht
  · have hold := h.window s a
    simp only [Queue.startsWithdrawnWithin, Queue.withdrawnWithin, hresolved, hlive] at hold ⊢
    refine ⟨hold.1, fun ha => ?_⟩
    split_ifs with hmine
    · -- a request that starts something is asked only after fewer than three withdrawals
      have hfew := hfew (by simpa using hmine.2)
      have hle := h.withdrawnWithin_le s ha
      rw [hmine.1] at hfew
      simp only [Queue.withdrawnWithin, MAX_WITHDRAWALS_PER_WINDOW] at hle hfew
      exact Or.inl (by omega)
    · exact hold.2 ha

theorem answer_iff {e : Entry} {decision o : Outcome} {scope : ApprovalScope} (ho : o ≠ .approved) :
    (if forSession e decision scope then ApprovalDecision.«approved-for-session»
      else .ended decision) = .ended o ↔ decision = o := by
  split_ifs with hsession
  · simp only [forSession, decide_eq_true_eq] at hsession
    simp [hsession.1, ho.symm]
  · simp

theorem Rationed.ended {now : Nat} {q q' : Queue} {id : String} {e : Entry} {decision : Outcome}
    {scope : ApprovalScope} (h : Rationed now q) (he : q.pending.get id = some e)
    (hpending : q'.pending = q.pending.delete id)
    (hresolved : q'.resolved = q.resolved ++ [⟨id, now, e,
      if forSession e decision scope then .«approved-for-session» else .ended decision⟩])
    (hdenied : q'.recentDenials =
      if decision = .denied then q.recentDenials.set e.subject (now + DENY_COOLDOWN_MS)
      else q.recentDenials)
    (hwithdrawn : q'.withdrawals =
      if decision = .disconnected then
        q.withdrawals.set e.request.sessionId
          ((q.withdrawals.get e.request.sessionId).getD [] ++ [now])
      else q.withdrawals) : Rationed now q' := by
  have hlive := live_delete he hpending
  refine ⟨fun s c => ?_, fun r hr => ?_, fun r hr hd t ht hlt => ?_, fun s t ht => ?_, fun s a => ?_⟩
  · have := h.capped s c
    have := hlive s c
    omega
  · rw [hresolved, List.mem_append, List.mem_singleton] at hr
    rcases hr with hr | rfl
    · exact h.past r hr
    · exact le_rfl
  · rw [hresolved, List.mem_append, List.mem_singleton] at hr
    simp only [Queue.deniedUntil, hdenied]
    rcases hr with hr | rfl
    · have hold := h.cooling r hr hd t ht hlt
      have hpast := h.past r hr
      simp only [Queue.deniedUntil] at hold
      split_ifs
      · rw [JsMap.get_set]
        split_ifs
        · simp only [Option.getD_some]
          omega
        · exact hold
      · exact hold
    · rw [if_pos ((answer_iff (by decide)).mp hd), JsMap.get_set_self, Option.getD_some]
      exact hlt
  · have hold := h.counted s t ht
    rw [hresolved, List.countP_append, List.countP_singleton, ← hold]
    simp only [Queue.withdrawnSince, hwithdrawn, Resolution.withdrawn,
      answer_iff (by decide : Outcome.disconnected ≠ .approved)]
    by_cases hd : decision = .disconnected
    · rw [if_pos hd, JsMap.get_set]
      by_cases hs : s = e.request.sessionId
      · rw [if_pos hs, hs, Option.getD_some, List.filter_append, List.length_append,
          List.filter_singleton]
        by_cases hin : t < now + WITHDRAWAL_WINDOW_MS <;> simp [hin, hd]
      · simp [hs, Ne.symm hs]
    · simp [hd]
  · obtain ⟨hfive, hopen⟩ := h.window s a
    have hsome := starts_le_withdrawn q s a
    have hroom := h.capped s false
    have hlive := hlive s false
    have hall : q'.withdrawnWithin s a = q.withdrawnWithin s a +
        if decision = .disconnected ∧ e.request.sessionId = s ∧ a ≤ now ∧
          now < a + WITHDRAWAL_WINDOW_MS then 1 else 0 := by
      rw [Queue.withdrawnWithin, hresolved, List.countP_append, List.countP_singleton]
      simp [Queue.withdrawnWithin, Resolution.withdrawn, Resolution.within, answer_iff, and_assoc]
    have hstarts : q'.startsWithdrawnWithin s a = q.startsWithdrawnWithin s a +
        if (decision = .disconnected ∧ e.request.sessionId = s ∧ a ≤ now ∧
          now < a + WITHDRAWAL_WINDOW_MS) ∧ e.containment = false then 1 else 0 := by
      rw [Queue.startsWithdrawnWithin, hresolved, List.countP_append, List.countP_singleton]
      simp [Queue.startsWithdrawnWithin, Resolution.withdrawn, Resolution.within, answer_iff,
        and_assoc]
    simp only [MAX_PENDING_PER_SESSION] at hroom
    by_cases hin : decision = .disconnected ∧ e.request.sessionId = s ∧ a ≤ now ∧
        now < a + WITHDRAWAL_WINDOW_MS
    · have hopen := hopen hin.2.2.2
      rw [if_pos hin] at hall
      by_cases hstart : e.containment = false
      · -- it leaves the queue as it enters the window
        rw [if_pos ⟨hin, hstart⟩] at hstarts
        rw [if_pos ⟨hin.2.1, hstart⟩] at hlive
        omega
      · rw [if_neg fun h => hstart h.2] at hstarts
        rw [if_neg fun h => hstart h.2] at hlive
        omega
    · rw [if_neg hin] at hall
      rw [if_neg fun h => hin h.1] at hstarts
      omega

section Runs
variable [Wording]

theorem Rationed.step {now : Nat} {op : Op} {q q' : Queue} (h : Rationed now q)
    (hop : op.Allowed q) (hc : Changes now op q q') : Rationed now q' := by
  cases hc with
  | nothing hpending _ _ hresolved _ hkeeps =>
    exact h.same (fun s c => by simp only [live_eq, hpending]) hresolved hkeeps
  | opened id input hop' hpending _ _ hresolved _ hasked hkeeps =>
    subst hop'
    refine h.opened hasked (fun s c => ?_) hresolved hkeeps
    rw [live_eq, live_eq, hpending, JsMap.entries_set_new _ _ hop.1, List.countP_append,
      List.countP_singleton]
    exact congrArg _ (if_congr decide_eq_true_iff rfl rfl)
  | lit id e e' due grants he _ hsame _ _ hpending _ _ hresolved _ hkeeps =>
    exact h.same (live_set he hsame hpending) hresolved hkeeps
  | ended id e decision scope he _ hpending _ _ hresolved _ hdenied hwithdrawn =>
    exact h.ended he hpending hresolved hdenied hwithdrawn

theorem Run.rationed {h : History} {m : Main} (hrun : Run .start h m) {now : Nat}
    (hu : Upto h now) : Rationed now m.queue :=
  hrun.timed rationed_start (fun _ _ _ => Rationed.later) (fun _ _ _ _ => Rationed.step) hu

end Runs

/-! ## What a history is to the brake -/

/-- An operation without the number of its timer, which counts the timers of every request. -/
def Op.plain : Op → Op
  | .fire t => .fire ⟨0, t.owner, 0⟩
  | op => op

/-- The request an operation is about. -/
def Op.about : Op → Option String
  | .fire t => some t.owner
  | op => op.names

/-- Reads one more operation: which ids stand for requests that stop something, and what has been
done to those. -/
def sift (s : List String × History) : Nat × Op → List String × History
  | (now, .request id input) =>
    if input.containment = some true then (id :: s.1, s.2 ++ [(now, .request id input)])
    else (s.1.filter (· ≠ id), s.2)
  | (now, op) =>
    match op.about with
    | some id => if id ∈ s.1 then (s.1, s.2 ++ [(now, op.plain)]) else s
    | none => s

/-- The part of a history that is about requests that stop something. -/
def brake (h : History) : History := (h.foldl sift ([], [])).2

/-! ## What the brake sees of the queue -/

/-- The id, the session and the subject of an entry that stops something. -/
def stopOf (e : String × Entry) : Option (String × String × String) :=
  if e.2.containment = true then some (e.1, e.2.request.sessionId, e.2.subject) else none

def Queue.stops (q : Queue) : List (String × String × String) := q.pending.entries.filterMap stopOf

theorem live_stops (q : Queue) (sessionId : String) :
    q.live sessionId true = q.stops.countP fun e => e.2.1 = sessionId := by
  rw [live_eq, Queue.stops, List.countP_filterMap]
  refine List.countP_congr fun e _ => ?_
  by_cases h : e.2.containment = true <;> simp [stopOf, h]

theorem mem_stops {q : Queue} {x : String × String × String} (hx : x ∈ q.stops) :
    ∃ e, q.pending.get x.1 = some e ∧ e.containment = true ∧ e.subject = x.2.2 := by
  obtain ⟨⟨id, e⟩, he, hstop⟩ := List.mem_filterMap.mp hx
  unfold stopOf at hstop
  split_ifs at hstop with hc
  obtain rfl := Option.some.inj hstop
  exact ⟨e, q.pending.mem_entries_iff.mp he, hc, rfl⟩

theorem stops_of_get {q : Queue} {id : String} {e : Entry} (he : q.pending.get id = some e)
    (hc : e.containment = true) : (id, e.request.sessionId, e.subject) ∈ q.stops :=
  List.mem_filterMap.mpr ⟨(id, e), q.pending.mem_entries_iff.mpr he, by simp [stopOf, hc]⟩

theorem stops_set {q : Queue} {id : String} {e e' : Entry} (he : q.pending.get id = some e)
    (hsame : e.Same e') : ((q.pending.set id e').entries).filterMap stopOf = q.stops := by
  have hmap := q.pending.map_set stopOf e' he (by
    simp only [stopOf, hsame.containment, hsame.sessionId, hsame.subject])
  have hall := congrArg (List.filterMap fun x => x) hmap
  rwa [List.filterMap_map, List.filterMap_map] at hall

theorem stops_delete (q : Queue) (id : String) :
    ((q.pending.delete id).entries).filterMap stopOf = q.stops.filter fun x => x.1 ≠ id := by
  simp only [JsMap.delete, JsMap.filter, Queue.stops]
  rw [List.filterMap_filter, List.filter_filterMap]
  refine List.filterMap_congr fun x _ => ?_
  unfold stopOf
  by_cases hid : x.1 = id <;> by_cases hc : x.2.containment = true <;>
    simp [hid, hc, Option.filter]

/-- Every entry is kept under the subject of its input. -/
def Keyed (q : Queue) : Prop :=
  ∀ id e, q.pending.get id = some e → ∃ input : CreateApprovalInput,
    e.subject = subjectKey input ∧ e.containment = decide (input.containment = some true)

/-- The subject of a request that stops something is that of no other. -/
theorem subjectKey_ne {i j : CreateApprovalInput} (hi : i.containment = some true)
    (hj : j.containment ≠ some true) : subjectKey i ≠ subjectKey j := by
  obtain ⟨a, ha⟩ : ∃ a, subjectKey i = a ++ "stop" := ⟨_, by rw [subjectKey, if_pos hi]⟩
  obtain ⟨b, hb⟩ : ∃ b, subjectKey j = b ++ "start" := ⟨_, by rw [subjectKey, if_neg hj]⟩
  intro h
  have hlast := congrArg (fun s => s.toList.getLast?) (ha.symm.trans (h.trans hb))
  simp [String.toList_append] at hlast

/-- Whether a history has two queues the same, as far as the brake goes. -/
structure SameBrake (now : Nat) (q b : Queue) : Prop where
  stops : q.stops = b.stops
  denied : ∀ input : CreateApprovalInput, input.containment = some true → ∀ t, now ≤ t →
    (t < q.deniedUntil (subjectKey input) ↔ t < b.deniedUntil (subjectKey input))

theorem SameBrake.answer {now : Nat} {q b : Queue} (h : SameBrake now q b)
    {input : CreateApprovalInput} (hstop : input.containment = some true) :
    (refusal now input q).1 = (refusal now input b).1 := by
  have hdenied := h.denied input hstop now le_rfl
  simp only [refusal_answer, hstop, hdenied, ne_eq, not_true_eq_false, and_false, if_false,
    decide_true, live_stops, h.stops]

/-! ## What operations do to what the brake sees -/

theorem finish_stops (now : Nat) (id : String) (decision : Outcome) (scope : ApprovalScope)
    (q : Queue) : (finish now id decision scope q).stops = q.stops.filter fun x => x.1 ≠ id := by
  unfold finish
  split
  · next hnone =>
    refine (List.filter_eq_self.mpr fun x hx => ?_).symm
    obtain ⟨e, he, -⟩ := mem_stops hx
    simp only [ne_eq, decide_not, Bool.not_eq_true', decide_eq_false_iff_not]
    rintro rfl
    simp [hnone] at he
  · exact stops_delete q id

/-- A denial cools a subject down; of those the brake asks about, only one it sees. -/
theorem finish_denied {now : Nat} {q : Queue} (hq : Keyed q) (id : String) (decision : Outcome)
    (scope : ApprovalScope) {input : CreateApprovalInput} (hstop : input.containment = some true) :
    (finish now id decision scope q).deniedUntil (subjectKey input) =
      if decision = .denied ∧ ∃ x ∈ q.stops, x.1 = id ∧ x.2.2 = subjectKey input then
        now + DENY_COOLDOWN_MS
      else q.deniedUntil (subjectKey input) := by
  unfold finish
  split
  · next hnone =>
    rw [if_neg]
    rintro ⟨-, x, hx, rfl, -⟩
    obtain ⟨e, he, -⟩ := mem_stops hx
    simp [hnone] at he
  · next e he =>
    have hseen : (∃ x ∈ q.stops, x.1 = id ∧ x.2.2 = subjectKey input) ↔
        subjectKey input = e.subject := by
      constructor
      · rintro ⟨x, hx, rfl, hkey⟩
        obtain ⟨e', he', -, hsubject⟩ := mem_stops hx
        rw [he] at he'
        rw [← hkey, ← hsubject, Option.some.inj he']
      · intro hkey
        obtain ⟨input', hsubject, hc⟩ := hq id e he
        -- an entry with the subject of a stop is a stop
        have hstop' : input'.containment = some true := by
          by_contra hne
          exact subjectKey_ne hstop hne (hkey.trans hsubject)
        exact ⟨_, stops_of_get he (by simp [hc, hstop']), rfl, hkey.symm⟩
    simp only [Queue.deniedUntil, Queue.clearTimeout, hseen]
    by_cases hd : decision = .denied
    · rw [if_pos hd, JsMap.get_set]
      by_cases hkey : subjectKey input = e.subject <;> simp [hd, hkey]
    · simp [hd]

/-- A fact about the subject and the class of every pending request. -/
def Each (P : String → String → Bool → Prop) (q : Queue) : Prop :=
  ∀ id e, q.pending.get id = some e → P id e.subject e.containment

theorem Each.finish {P : String → String → Bool → Prop} {q : Queue} (hq : Each P q) (now : Nat)
    (id : String) (decision : Outcome) (scope : ApprovalScope) :
    Each P (finish now id decision scope q) := by
  intro id' e he
  unfold Approvals.finish at he
  split at he
  · exact hq id' e he
  · simp only [JsMap.get_delete] at he
    split_ifs at he
    exact hq id' e he

/-- Nothing happened to a pending request but what does not matter to the brake. -/
def Held (q q' : Queue) : Prop :=
  q'.recentDenials = q.recentDenials ∧ (q'.pending = q.pending ∨ ∃ id e e',
    q.pending.get id = some e ∧ e.Same e' ∧ q'.pending = q.pending.set id e')

theorem Each.held {P : String → String → Bool → Prop} {q q' : Queue} (hq : Each P q)
    (h : Held q q') : Each P q' := by
  intro id' e₁ he₁
  rcases h.2 with hp | ⟨id, e, e', he, hsame, hp⟩ <;> rw [hp] at he₁
  · exact hq id' e₁ he₁
  · rw [JsMap.get_set] at he₁
    split_ifs at he₁ with hid
    · obtain rfl := Option.some.inj he₁
      rw [hid, hsame.subject, hsame.containment]
      exact hq id e he
    · exact hq id' e₁ he₁

theorem Held.stops {q q' : Queue} (h : Held q q') : q'.stops = q.stops := by
  rcases h.2 with hp | ⟨id, e, e', he, hsame, hp⟩
  · simp only [Queue.stops, hp]
  · rw [Queue.stops, hp]
    exact stops_set he hsame

/-- What an operation about a request does with it: ends it, or holds it. -/
inductive Deed (op : Op) (id : String) : Prop
  | ends (decision : Outcome) (scope : ApprovalScope) (h : ∀ [Wording] now q,
      (op.run now q).2.pending = (finish now id decision scope q).pending ∧
      (op.run now q).2.recentDenials = (finish now id decision scope q).recentDenials)
  | holds (h : ∀ [Wording] now q, Held q (op.run now q).2)

theorem fire_eq (now : Nat) (t : Timer) (q : Queue) :
    (finish now t.owner .timeout .once (q.clearTimeout (some t.handle))).pending =
      (finish now t.owner .timeout .once q).pending ∧
    (finish now t.owner .timeout .once (q.clearTimeout (some t.handle))).recentDenials =
      (finish now t.owner .timeout .once q).recentDenials := by
  have hp : (q.clearTimeout (some t.handle)).pending = q.pending := rfl
  unfold finish
  rw [hp]
  split <;> exact ⟨rfl, rfl⟩

theorem held_arm (now : Nat) (id : String) (timeoutSeconds : Nat) (q : Queue) :
    Held q (armApproval now timeoutSeconds id q).2 := by
  unfold armApproval
  split
  · exact ⟨rfl, Or.inl rfl⟩
  · next e he =>
    split_ifs
    · exact ⟨rfl, Or.inl rfl⟩
    · refine ⟨rfl, Or.inr ⟨id, e, _, he, ?_, rfl⟩⟩
      exact ⟨rfl, rfl, rfl, rfl⟩

theorem held_extend (now : Nat) (id : String) (seconds : Option ℚ) (q : Queue) :
    Held q (extendApproval now id seconds q).2 := by
  unfold extendApproval
  split
  · exact ⟨rfl, Or.inl rfl⟩
  · next e he =>
    split
    · exact ⟨rfl, Or.inl rfl⟩
    · exact ⟨rfl, Or.inl rfl⟩
    · split_ifs
      · exact ⟨rfl, Or.inl rfl⟩
      extract_lets grant
      split_ifs
      · exact ⟨rfl, Or.inl rfl⟩
      · refine ⟨rfl, Or.inr ⟨id, e, _, he, ?_, rfl⟩⟩
        exact ⟨rfl, rfl, rfl, rfl⟩

/-- An answer to a request that is gone does nothing, as ending it would. -/
theorem respond_eq (now : Nat) (id decision : String) (scope : Option Json) (q : Queue) :
    (respondToApproval now id decision scope q).2 =
      finish now id (if decision = "approved" then .approved else .denied) (readScope scope) q := by
  unfold respondToApproval
  split_ifs with hhas <;> try rfl
  all_goals
    have hnone : q.pending.get id = none := by simpa [JsMap.has] using hhas
    simp only [finish, hnone]

theorem deed {op : Op} {id : String} (h : op.about = some id) : Deed op id := by
  cases op with
  | request | wouldRefuse => cases h
  | signal id' aborted =>
    obtain rfl := Option.some.inj h
    cases aborted with
    | true => exact .ends .disconnected .once fun _ _ => ⟨rfl, rfl⟩
    | false => exact .holds fun _ _ => ⟨rfl, Or.inl rfl⟩
  | arm id' timeoutSeconds => exact .holds fun now q => held_arm now id' timeoutSeconds q
  | extend id' seconds => exact .holds fun now q => held_extend now id' seconds q
  | respond id' decision scope =>
    obtain rfl := Option.some.inj h
    refine .ends (if decision = "approved" then .approved else .denied) (readScope scope)
      fun now q => ?_
    rw [Op.run, respond_eq]
    exact ⟨rfl, rfl⟩
  | fire t =>
    obtain rfl := Option.some.inj h
    exact .ends .timeout .once fun now q => fire_eq now t q
  | abort id' =>
    obtain rfl := Option.some.inj h
    exact .ends .disconnected .once fun _ _ => ⟨rfl, rfl⟩
  | deny id' =>
    obtain rfl := Option.some.inj h
    exact .ends .denied .once fun _ _ => ⟨rfl, rfl⟩

/-! ## The rest of a history does not matter -/

/-- A queue, and the one that only what is about the brake was done to. -/
structure Purged (now : Nat) (ids : List String) (q b : Queue) : Prop where
  same : SameBrake now q b
  keyed : Each (fun _ subject containment => ∃ input : CreateApprovalInput,
    subject = subjectKey input ∧ containment = decide (input.containment = some true)) q
  marked : Each (fun id _ containment => containment = true ↔ id ∈ ids) q
  only : Each (fun _ subject containment => containment = true ∧
    ∃ input : CreateApprovalInput, subject = subjectKey input ∧ input.containment = some true) b

theorem Purged.later {now now' : Nat} {ids : List String} {q b : Queue} (hle : now ≤ now')
    (h : Purged now ids q b) : Purged now' ids q b :=
  ⟨⟨h.same.stops, fun input hstop t ht => h.same.denied input hstop t (hle.trans ht)⟩, h.keyed,
    h.marked, h.only⟩

theorem Purged.keyed_only {now : Nat} {ids : List String} {q b : Queue} (h : Purged now ids q b) :
    Keyed b := by
  intro id e he
  obtain ⟨hc, input, hsubject, hstop⟩ := h.only id e he
  exact ⟨input, hsubject, by rw [hc, hstop]; rfl⟩

/-- What only what is pending and who is cooling down says about two queues. -/
theorem Purged.congr {now : Nat} {ids : List String} {q q' b b' : Queue} (h : Purged now ids q b)
    (hq : q'.pending = q.pending) (hqd : q'.recentDenials = q.recentDenials)
    (hb : b'.pending = b.pending) (hbd : b'.recentDenials = b.recentDenials) :
    Purged now ids q' b' := by
  refine ⟨⟨?_, ?_⟩, ?_, ?_, ?_⟩
  · simp only [Queue.stops, hq, hb]
    exact h.same.stops
  · intro input hstop t ht
    simp only [Queue.deniedUntil, hqd, hbd]
    exact h.same.denied input hstop t ht
  · exact fun id e he => h.keyed id e (hq ▸ he)
  · exact fun id e he => h.marked id e (hq ▸ he)
  · exact fun id e he => h.only id e (hb ▸ he)

theorem Purged.finish_both {now : Nat} {ids : List String} {q b : Queue} (h : Purged now ids q b)
    (id : String) (decision : Outcome) (scope : ApprovalScope) :
    Purged now ids (finish now id decision scope q) (finish now id decision scope b) := by
  refine ⟨⟨?_, ?_⟩, h.keyed.finish _ _ _ _, h.marked.finish _ _ _ _, h.only.finish _ _ _ _⟩
  · rw [finish_stops, finish_stops, h.same.stops]
  · intro input hstop t ht
    rw [finish_denied h.keyed _ _ _ hstop, finish_denied h.keyed_only _ _ _ hstop, h.same.stops]
    split_ifs
    · exact Iff.rfl
    · exact h.same.denied input hstop t ht

theorem Purged.finish_other {now : Nat} {ids : List String} {q b : Queue} (h : Purged now ids q b)
    {id : String} (hid : id ∉ ids) (decision : Outcome) (scope : ApprovalScope) :
    Purged now ids (finish now id decision scope q) b := by
  have hunseen : ∀ x ∈ q.stops, x.1 ≠ id := by
    intro x hx heq
    obtain ⟨e, he, hc, -⟩ := mem_stops hx
    exact hid (heq ▸ (h.marked x.1 e he).mp hc)
  refine ⟨⟨?_, ?_⟩, h.keyed.finish _ _ _ _, h.marked.finish _ _ _ _, h.only⟩
  · rw [finish_stops, ← h.same.stops]
    exact List.filter_eq_self.mpr fun x hx => by simpa using hunseen x hx
  · intro input hstop t ht
    rw [finish_denied h.keyed _ _ _ hstop, if_neg]
    · exact h.same.denied input hstop t ht
    · rintro ⟨-, x, hx, heq, -⟩
      exact hunseen x hx heq

theorem Purged.held {now : Nat} {ids : List String} {q q' b b' : Queue} (h : Purged now ids q b)
    (hq : Held q q') (hb : Held b b') : Purged now ids q' b' := by
  refine ⟨⟨?_, ?_⟩, h.keyed.held hq, h.marked.held hq, h.only.held hb⟩
  · rw [hq.stops, hb.stops, h.same.stops]
  · intro input hstop t ht
    simp only [Queue.deniedUntil, hq.1, hb.1]
    exact h.same.denied input hstop t ht

theorem Held.refl (q : Queue) : Held q q := ⟨rfl, Or.inl rfl⟩

theorem sift_about {op : Op} {id : String} (h : op.about = some id) (s : List String × History)
    (now : Nat) :
    sift s (now, op) = if id ∈ s.1 then (s.1, s.2 ++ [(now, op.plain)]) else s := by
  cases op with
  | request | wouldRefuse => cases h
  | _ => simp only [sift, h]

theorem purged_start (now : Nat) : Purged now [] .start .start := by
  have hnone : ∀ P, Each P .start := fun _ _ _ he => nomatch he
  exact ⟨⟨rfl, fun _ _ _ _ => Iff.rfl⟩, hnone _, hnone _, hnone _⟩

section Runs
variable [Wording]

theorem request_stops (now : Nat) (id : String) {input : CreateApprovalInput} {q : Queue}
    (hnew : q.pending.get id = none) :
    (requestApproval now id input q).2.stops = q.stops ++
      if (refusal now input q).1 = none ∧ input.containment = some true then
        [(id, input.sessionId, subjectKey input)] else [] := by
  obtain ⟨hpending, -⟩ := refusal_core now input q
  unfold requestApproval
  split
  · next why s hs =>
    simp only [hs] at hpending
    simp [Queue.stops, hpending, hs]
  · next s hs =>
    simp only [hs] at hpending
    simp only [Queue.stops, Queue.setTimeout, hs, hpending, JsMap.entries_set_new _ _ hnew,
      List.filterMap_append]
    by_cases hstop : input.containment = some true <;> simp [stopOf, hstop, newRequest]

theorem request_denied (now : Nat) (id : String) (input : CreateApprovalInput) (q : Queue)
    (key : String) {t : Nat} (ht : now ≤ t) :
    t < (requestApproval now id input q).2.deniedUntil key ↔ t < q.deniedUntil key := by
  have hkeeps := (refusal_keeps now input q).denied key t ht
  unfold requestApproval
  split <;> next hs => rw [hs] at hkeeps; exact hkeeps

theorem Each.request {P : String → String → Bool → Prop} {q : Queue} (hq : Each P q) (now : Nat)
    {id : String} {input : CreateApprovalInput}
    (hnew : P id (subjectKey input) (input.containment = some true)) :
    Each P (requestApproval now id input q).2 := by
  obtain ⟨hpending, -⟩ := refusal_core now input q
  intro id' e he
  unfold requestApproval at he
  split at he
  · next hs =>
    simp only [hs] at hpending
    exact hq id' e (hpending ▸ he)
  · next hs =>
    simp only [hs] at hpending
    simp only [Queue.setTimeout, hpending, JsMap.get_set] at he
    split_ifs at he with hid
    · obtain rfl := Option.some.inj he
      exact hid ▸ hnew
    · exact hq id' e he

/-- Both queues are asked the same thing that stops something. -/
theorem Purged.request_stop {now : Nat} {ids : List String} {q b : Queue}
    (h : Purged now ids q b) {id : String} {input : CreateApprovalInput}
    (hstop : input.containment = some true) (hnew : q.pending.get id = none) :
    Purged now (id :: ids) (requestApproval now id input q).2
      (requestApproval now id input b).2 := by
  have hnew' : b.pending.get id = none := by
    cases he : b.pending.get id with
    | none => rfl
    | some e =>
      have hmem := stops_of_get he (h.only id e he).1
      obtain ⟨e', he', -⟩ := mem_stops (h.same.stops ▸ hmem)
      simp [hnew] at he'
  have hmarked : Each (fun id' _ containment => containment = true ↔ id' ∈ id :: ids) q := by
    intro id' e he
    have hne : id' ≠ id := fun heq => by simp [← heq, he] at hnew
    rw [List.mem_cons, or_iff_right hne]
    exact h.marked id' e he
  refine ⟨⟨?_, ?_⟩, h.keyed.request now ⟨input, rfl, rfl⟩, hmarked.request now (by simp [hstop]),
    h.only.request now ⟨by simp [hstop], input, rfl, hstop⟩⟩
  · rw [request_stops now id hnew, request_stops now id hnew', h.same.answer hstop, h.same.stops]
  · intro input' hstop' t ht
    rw [request_denied now id input q _ ht, request_denied now id input b _ ht]
    exact h.same.denied input' hstop' t ht

/-- A request that starts something leaves the brake as it is. -/
theorem Purged.request_start {now : Nat} {ids : List String} {q b : Queue}
    (h : Purged now ids q b) {id : String} {input : CreateApprovalInput}
    (hstart : input.containment ≠ some true) (hnew : q.pending.get id = none) :
    Purged now (ids.filter (· ≠ id)) (requestApproval now id input q).2 b := by
  have hmarked : Each (fun id' _ containment =>
      containment = true ↔ id' ∈ ids.filter (· ≠ id)) q := by
    intro id' e he
    have hne : id' ≠ id := fun heq => by simp [← heq, he] at hnew
    rw [List.mem_filter, decide_eq_true_iff, and_iff_left hne]
    exact h.marked id' e he
  refine ⟨⟨?_, ?_⟩, h.keyed.request now ⟨input, rfl, rfl⟩, hmarked.request now (by simp [hstart]),
    h.only⟩
  · rw [request_stops now id hnew, if_neg fun hb => hstart hb.2, List.append_nil, h.same.stops]
  · intro input' hstop' t ht
    rw [request_denied now id input q _ ht]
    exact h.same.denied input' hstop' t ht

theorem plain_run (now : Nat) (op : Op) (q : Queue) :
    (op.plain.run now q).2.pending = (op.run now q).2.pending ∧
    (op.plain.run now q).2.recentDenials = (op.run now q).2.recentDenials := by
  cases op with
  | fire t =>
    obtain ⟨hp, hd⟩ := fire_eq now t q
    obtain ⟨hp', hd'⟩ := fire_eq now ⟨0, t.owner, 0⟩ q
    exact ⟨hp'.trans hp.symm, hd'.trans hd.symm⟩
  | _ => exact ⟨rfl, rfl⟩

theorem Purged.about {now : Nat} {ids : List String} {q b : Queue} (h : Purged now ids q b)
    {op : Op} {id : String} (hop : op.about = some id) :
    Purged now ids (op.run now q).2 (if id ∈ ids then (op.plain.run now b).2 else b) := by
  obtain ⟨hpb, hdb⟩ := plain_run now op b
  cases deed hop with
  | ends decision scope hends =>
    obtain ⟨hp, hd⟩ := hends now q
    obtain ⟨hp', hd'⟩ := hends now b
    split_ifs with hid
    · exact (h.finish_both id decision scope).congr hp hd (hpb.trans hp') (hdb.trans hd')
    · exact (h.finish_other hid decision scope).congr hp hd rfl rfl
  | holds hholds =>
    split_ifs
    · exact (h.held (hholds now q) (hholds now b)).congr rfl rfl hpb hdb
    · exact h.held (hholds now q) (.refl b)

/-- What a history does to a queue it starts with. -/
def replay (h : History) : Queue := h.foldl (fun q x => (x.2.run x.1 q).2) .start

/-- One more operation, done to the other queue too if it is about the brake. -/
theorem Purged.step {now : Nat} {s : List String × History} {q : Queue}
    (h : Purged now s.1 q (replay s.2)) {op : Op} (hop : op.Allowed q) :
    Purged now (sift s (now, op)).1 (op.run now q).2 (replay (sift s (now, op)).2) := by
  have hreplay : ∀ x, replay (s.2 ++ [x]) = (x.2.run x.1 (replay s.2)).2 := by
    intro x
    rw [replay, List.foldl_append]
    rfl
  cases hopn : op.about with
  | some id =>
    rw [sift_about hopn]
    have habout := h.about hopn
    split_ifs at habout ⊢
    · rw [hreplay]
      exact habout
    · exact habout
  | none =>
    cases op with
    | request id input =>
      simp only [sift]
      split_ifs with hstop
      · rw [hreplay]
        exact h.request_stop hstop hop.1
      · exact h.request_start hstop hop.1
    | wouldRefuse input =>
      obtain ⟨hpending, -⟩ := refusal_core now input q
      have hkeeps := refusal_keeps now input q
      refine ⟨⟨?_, fun input' hstop t ht => ?_⟩, ?_, ?_, h.only⟩
      · have hstops : (refusal now input q).2.stops = q.stops := by
          simp only [Queue.stops, hpending]
        exact hstops.trans h.same.stops
      · exact (hkeeps.denied _ t ht).trans (h.same.denied input' hstop t ht)
      · exact fun id e he => h.keyed id e (hpending ▸ he)
      · exact fun id e he => h.marked id e (hpending ▸ he)
    | _ => cases hopn

theorem Run.purged {h : History} {m : Main} (hrun : Run .start h m) {now : Nat}
    (hu : Upto h now) : Purged now (h.foldl sift ([], [])).1 m.queue (replay (brake h)) := by
  refine hrun.invariant (I := fun h q => ∀ now, Upto h now →
    Purged now (h.foldl sift ([], [])).1 q (replay (brake h))) (fun now _ => purged_start now)
    ?_ now hu
  intro h q now op hI hop now' hu'
  obtain ⟨hbefore, hle⟩ := hu'.before
  simp only [brake, List.foldl_append, List.foldl_cons, List.foldl_nil]
  exact ((hI now hbefore).step hop).later hle

/-- What stops something is asked or refused by what was done to such requests alone. And at no time
are there more than three pending for a session and a class, is a request created within 30 s of a
denial of its subject, or are more than five starts of a session withdrawn in 60 s. -/
theorem brake_independent :
    (∀ now h₁ h₂ m₁ m₂, Run .start h₁ m₁ → Run .start h₂ m₂ → Upto h₁ now → Upto h₂ now →
      brake h₁ = brake h₂ → ∀ input : CreateApprovalInput, input.containment = some true →
        (refusal now input m₁.queue).1 = (refusal now input m₂.queue).1 ∧
        ∀ id, (requestApproval now id input m₁.queue).1 =
          (requestApproval now id input m₂.queue).1) ∧
    ∀ now h m, Run .start h m → Upto h now →
      (∀ sessionId containment, m.queue.live sessionId containment ≤ 3) ∧
      (∀ id input, (requestApproval now id input m.queue).1 = none → ∀ r ∈ m.queue.resolved,
        r.decision = .ended .denied → r.entry.subject = subjectKey input →
          r.time + 30000 ≤ now) ∧
      ∀ sessionId a, (m.queue.resolved.filter fun r =>
        r.decision = .ended .disconnected ∧ r.entry.request.sessionId = sessionId ∧
          r.entry.containment = false ∧ a ≤ r.time ∧ r.time < a + 60000).length ≤ 5 := by
  refine ⟨?_, ?_⟩
  · intro now h₁ h₂ m₁ m₂ hrun₁ hrun₂ hu₁ hu₂ hbrake input hstop
    have h₁ := (hrun₁.purged hu₁).same.answer hstop
    have h₂ := (hrun₂.purged hu₂).same.answer hstop
    rw [hbrake] at h₁
    have hsame := h₁.trans h₂.symm
    exact ⟨hsame, fun id => by rw [request_answer, request_answer, hsame]⟩
  · intro now h m hrun hu
    have hr := hrun.rationed hu
    refine ⟨hr.capped, ?_, ?_⟩
    · intro id input hasked r hmem hdenied hsubject
      rw [request_answer] at hasked
      by_contra hlt
      refine (refusal_none hasked).1 (hsubject ▸ ?_)
      exact hr.cooling r hmem hdenied now le_rfl (not_le.mp hlt)
    · intro sessionId a
      rw [← List.countP_eq_length_filter]
      refine le_trans (List.countP_mono_left fun r _ hr => ?_) (hr.window sessionId a).1
      simp only [decide_eq_true_eq] at hr
      simp [Resolution.withdrawn, Resolution.within, WITHDRAWAL_WINDOW_MS, hr]

end Runs

/-! ## A stop after its start was denied -/

def deniedQueue : Queue :=
  letI := verbatim
  [Op.request "appr-1" deployInput, .signal "appr-1" false,
    .respond "appr-1" "denied" none].foldl (fun q op => (op.run 1000 q).2) .start

def stopInput : CreateApprovalInput := { deployInput with containment := some true }

theorem brake_independent_denied :
    letI := verbatim
    (requestApproval 2000 "appr-2" deployInput deniedQueue).1 = some .refused ∧
    (requestApproval 2000 "appr-2" stopInput deniedQueue).1 =
      (requestApproval 2000 "appr-2" stopInput .start).1 := by
  let _ := verbatim
  refine ⟨by decide +kernel, ?_⟩
  have hrun : Run .start [(1000, Op.request "appr-1" deployInput), (1000, .signal "appr-1" false),
      (1000, .respond "appr-1" "denied" none)] ⟨deniedQueue, []⟩ :=
    .op (.op (.op (.refl _) (.request "appr-1" deployInput false ⟨rfl, by decide⟩)) (.signal _ _))
      (.call (.respond "appr-1" "denied" none) trivial)
  exact ((brake_independent.1 2000 _ [] _ .start hrun (.refl _)
    (by simp [Upto]) (upto_nil _) rfl stopInput rfl).2 "appr-2")

end OpsMaxx.Approvals
