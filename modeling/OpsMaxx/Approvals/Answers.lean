import OpsMaxx.Approvals.Queue

/-!
# How a request is answered

Whatever runs, and whatever its listeners call, a request is resolved once, has one live timer until
then, and is never given more time than the ceiling.
-/

set_option autoImplicit false

namespace OpsMaxx.Approvals

open OpsMaxx OpsMaxx.Store

/-! ## Timers -/

/-- The timer an entry waits on: the fuse once it is armed, the backstop before. -/
def Entry.Fused (e : Entry) (handle : Nat) : Prop :=
  (e.timer = some handle ∧ e.unseen = none) ∨ (e.timer = none ∧ e.unseen = some handle)

theorem Entry.Fused.unique {e : Entry} {h h' : Nat} (hh : e.Fused h) (hh' : e.Fused h') :
    h = h' := by
  rcases hh with ⟨h₁, h₂⟩ | ⟨h₁, h₂⟩ <;> rcases hh' with ⟨h₃, h₄⟩ | ⟨h₃, h₄⟩ <;> simp_all

theorem Entry.Fused.iff {e : Entry} {h : Nat} (hh : e.Fused h) (h' : Nat) :
    (some h' ≠ e.timer ∧ some h' ≠ e.unseen) ↔ h' ≠ h := by
  rcases hh with ⟨h₁, h₂⟩ | ⟨h₁, h₂⟩ <;> simp [h₁, h₂]

/-- Each pending request has its timer, and no other timer is live. -/
structure Burning (q : Queue) : Prop where
  handles : (q.timers.map Timer.handle).Nodup
  below : ∀ t ∈ q.timers, t.handle < q.nextTimer
  owned : ∀ t ∈ q.timers, ∃ e, q.pending.get t.owner = some e ∧ e.Fused t.handle
  fused : ∀ id e, q.pending.get id = some e → ∃ t ∈ q.timers, t.owner = id ∧ e.Fused t.handle

/-- The timers that are not a request's. -/
def Queue.timersBut (q : Queue) (id : String) : List Timer :=
  q.timers.filter fun t => t.owner ≠ id

theorem Burning.owner_iff {q : Queue} (hq : Burning q) {id : String} {e : Entry}
    (he : q.pending.get id = some e) {h : Nat} (hfused : e.Fused h) {t : Timer}
    (ht : t ∈ q.timers) : t.owner = id ↔ t.handle = h := by
  constructor
  · intro howner
    obtain ⟨e', he', hfused'⟩ := hq.owned t ht
    rw [howner, he] at he'
    obtain rfl := Option.some.inj he'
    exact hfused'.unique hfused
  · intro hhandle
    obtain ⟨t', ht', howner, hfused'⟩ := hq.fused id e he
    have hsame : t = t' :=
      List.inj_on_of_nodup_map hq.handles ht ht' (hhandle.trans (hfused.unique hfused'))
    rw [hsame, howner]

/-- Clearing both handles of an entry clears what it owns. -/
theorem Burning.timers_cleared {q : Queue} (hq : Burning q) {id : String} {e : Entry}
    (he : q.pending.get id = some e) :
    ((q.clearTimeout e.timer).clearTimeout e.unseen).timers = q.timersBut id := by
  obtain ⟨t₀, -, -, hfused⟩ := hq.fused id e he
  simp only [Queue.clearTimeout, Queue.timersBut, List.filter_filter]
  apply List.filter_congr
  intro t ht
  have hiff := hfused.iff t.handle
  have howner := hq.owner_iff he hfused ht
  rw [decide_eq_decide.mpr Iff.rfl, ← Bool.decide_and, decide_eq_decide, and_comm, hiff, ne_eq,
    ne_eq, howner]

theorem Burning.timers_of {q : Queue} (hq : Burning q) {id : String} {e : Entry}
    (he : q.pending.get id = some e) :
    ∃ t, q.timers.filter (fun t => t.owner = id) = [t] ∧ e.Fused t.handle := by
  obtain ⟨t, ht, howner, hfused⟩ := hq.fused id e he
  refine ⟨t, ?_, hfused⟩
  have hnodup : (q.timers.filter fun t => t.owner = id).Nodup := (hq.handles.of_map _).filter _
  refine List.perm_singleton.mp ((List.perm_ext_iff_of_nodup hnodup (by simp)).mpr fun t' => ?_)
  rw [List.mem_filter, List.mem_singleton, decide_eq_true_iff]
  constructor
  · intro ⟨ht', howner'⟩
    exact List.inj_on_of_nodup_map hq.handles ht' ht ((hq.owner_iff he hfused ht').mp howner')
  · intro heq
    exact ⟨heq ▸ ht, heq ▸ howner⟩

theorem clearTimeout_none (q : Queue) : q.clearTimeout none = q := by
  simp [Queue.clearTimeout]

theorem Burning.opened {q q' : Queue} (hq : Burning q) {id : String} {e : Entry} {due : Nat}
    (hnew : q.pending.get id = none) (hfused : e.Fused q.nextTimer)
    (hpending : q'.pending = q.pending.set id e)
    (htimers : q'.timers = q.timers ++ [⟨q.nextTimer, id, due⟩])
    (hnext : q'.nextTimer = q.nextTimer + 1) : Burning q' := by
  have hother : ∀ t ∈ q.timers, t.owner ≠ id := by
    intro t ht howner
    obtain ⟨e', he', -⟩ := hq.owned t ht
    rw [howner, hnew] at he'
    cases he'
  refine ⟨?_, ?_, ?_, ?_⟩
  · rw [htimers, List.map_append, List.nodup_append]
    refine ⟨hq.handles, by simp, ?_⟩
    intro h hh h' hh' heq
    obtain ⟨t, ht, rfl⟩ := List.mem_map.mp hh
    simp only [List.map_cons, List.map_nil, List.mem_singleton] at hh'
    have := hq.below t ht
    omega
  · intro t ht
    rw [htimers, List.mem_append, List.mem_singleton] at ht
    rw [hnext]
    rcases ht with ht | rfl
    · have := hq.below t ht
      omega
    · exact Nat.lt_succ_self _
  · intro t ht
    rw [htimers, List.mem_append, List.mem_singleton] at ht
    rw [hpending]
    rcases ht with ht | rfl
    · rw [JsMap.get_set_ne _ _ (hother t ht)]
      exact hq.owned t ht
    · exact ⟨e, JsMap.get_set_self _ _ _, hfused⟩
  · intro id' e' he'
    rw [hpending, JsMap.get_set] at he'
    rw [htimers]
    split_ifs at he' with hid
    · subst hid
      obtain rfl := Option.some.inj he'
      exact ⟨⟨q.nextTimer, id', due⟩, by simp, rfl, hfused⟩
    · obtain ⟨t, ht, howner, hfused'⟩ := hq.fused id' e' he'
      exact ⟨t, by simp [ht], howner, hfused'⟩

theorem Burning.ended {q q' : Queue} (hq : Burning q) {id : String}
    (hpending : q'.pending = q.pending.delete id) (htimers : q'.timers = q.timersBut id)
    (hnext : q'.nextTimer = q.nextTimer) : Burning q' := by
  have hmem : ∀ t, t ∈ q'.timers ↔ t ∈ q.timers ∧ t.owner ≠ id := by
    intro t
    rw [htimers, Queue.timersBut, List.mem_filter, decide_eq_true_iff]
  refine ⟨?_, fun t ht => hnext ▸ hq.below t ((hmem t).mp ht).1, ?_, ?_⟩
  · rw [htimers]
    exact hq.handles.sublist (List.filter_sublist.map _)
  · intro t ht
    rw [hpending, JsMap.get_delete_ne _ ((hmem t).mp ht).2]
    exact hq.owned t ((hmem t).mp ht).1
  · intro id' e' he'
    rw [hpending, JsMap.get_delete] at he'
    split_ifs at he' with hid
    obtain ⟨t, ht, rfl, hfused⟩ := hq.fused id' e' he'
    exact ⟨t, (hmem t).mpr ⟨ht, hid⟩, rfl, hfused⟩

/-- Lighting a fuse anew is ending the request and opening it again. -/
theorem Burning.lit {q q' : Queue} (hq : Burning q) {id : String} {e : Entry} {due : Nat}
    (hfused : e.Fused q.nextTimer) (hpending : q'.pending = q.pending.set id e)
    (htimers : q'.timers = q.timersBut id ++ [⟨q.nextTimer, id, due⟩])
    (hnext : q'.nextTimer = q.nextTimer + 1) : Burning q' := by
  have hbetween : Burning { q with pending := q.pending.delete id, timers := q.timersBut id } :=
    hq.ended rfl rfl rfl
  have hopened : Burning { q' with pending := (q.pending.delete id).set id e } :=
    hbetween.opened (JsMap.get_delete_self _ _) hfused rfl htimers hnext
  have hsame : ∀ id', ((q.pending.delete id).set id e).get id' = q'.pending.get id' := by
    intro id'
    rw [hpending, JsMap.get_set, JsMap.get_set, JsMap.get_delete]
    split_ifs <;> rfl
  refine ⟨hopened.handles, hopened.below, ?_, ?_⟩
  · intro t ht
    obtain ⟨e', he', hfused'⟩ := hopened.owned t ht
    exact ⟨e', (hsame t.owner) ▸ he', hfused'⟩
  · intro id' e' he'
    exact hopened.fused id' e' ((hsame id').trans he')

/-! ## What holds of every run -/

/-- All the seconds a request was given. -/
def Queue.secondsGranted (q : Queue) (id : String) : Int :=
  ((q.granted.filter fun g => g.1 = id).map Prod.snd).sum

theorem secondsGranted_of_eq {q q' : Queue} (h : q'.granted = q.granted) (id : String) :
    q'.secondsGranted id = q.secondsGranted id := by
  simp only [Queue.secondsGranted, h]

theorem secondsGranted_append {q q' : Queue} {id : String} {grants : List Int}
    (h : q'.granted = q.granted ++ grants.map fun g => (id, g)) (id' : String) :
    q'.secondsGranted id' = q.secondsGranted id' + if id' = id then grants.sum else 0 := by
  simp only [Queue.secondsGranted, h, List.filter_append, List.map_append, List.sum_append,
    List.filter_map, List.map_map, Function.comp_def]
  split_ifs with hid
  · simp [hid]
  · simp [Ne.symm hid]

/-- A request is resolved once, and is not pending then. -/
structure Once (q : Queue) : Prop where
  nodup : (q.resolved.map Resolution.id).Nodup
  apart : ∀ id ∈ q.resolved.map Resolution.id, q.pending.get id = none

/-- What an entry counts is what was granted, and it stays under the ceiling. -/
structure Metered (q : Queue) : Prop where
  spent : ∀ id e, q.pending.get id = some e → e.extendedSeconds = q.secondsGranted id
  ceiling : ∀ id, q.secondsGranted id ≤ EXTENSION_CEILING_SECONDS
  unspent : ∀ id, Fresh id q → q.secondsGranted id = 0

/-- What a request was answered. -/
def Queue.Answered (q : Queue) (id : String) (a : ApprovalDecision) : Prop :=
  ∃ r ∈ q.resolved, r.id = id ∧ r.decision = a

theorem answered_of_eq {q q' : Queue} (h : q'.resolved = q.resolved) {id : String}
    {a : ApprovalDecision} (ha : q'.Answered id a) : q.Answered id a := by
  rwa [Queue.Answered, ← h]

/-- A session answer was offered by the request and given by an operator. -/
structure Offered (h : History) (q : Queue) : Prop where
  asked : ∀ id e, q.pending.get id = some e →
    ∃ t input, (t, Op.request id input) ∈ h ∧ e.request.sessionGrant = input.sessionGrant
  granted : ∀ id, q.Answered id .«approved-for-session» →
    (∃ t input, (t, Op.request id input) ∈ h ∧ input.sessionGrant.isSome) ∧
    ∃ t, (t, Op.respond id "approved" (some (.str "session"))) ∈ h

theorem Offered.mono {h h' : History} {q : Queue} (ho : Offered h q) (hh : h ⊆ h') :
    Offered h' q := by
  refine ⟨fun id e he => ?_, fun id hid => ?_⟩
  · obtain ⟨t, input, hmem, hgrant⟩ := ho.asked id e he
    exact ⟨t, input, hh hmem, hgrant⟩
  · obtain ⟨⟨t, input, hmem, hgrant⟩, t', hmem'⟩ := ho.granted id hid
    exact ⟨⟨t, input, hh hmem, hgrant⟩, t', hh hmem'⟩

/-- All of it, after any history from a queue it holds of. -/
structure Sound (h : History) (q : Queue) : Prop where
  burning : Burning q
  once : Once q
  metered : Metered q
  offered : Offered h q

theorem sound_start : Sound [] .start := by
  refine ⟨⟨?_, ?_, ?_, ?_⟩, ⟨?_, ?_⟩, ⟨?_, ?_, ?_⟩, ⟨?_, ?_⟩⟩
  all_goals simp [Queue.start, Queue.secondsGranted, Queue.Answered, EXTENSION_CEILING_SECONDS]

/-! ## What an operation can do -/

theorem readScope_session {scope : Option Json} (h : readScope scope = .session) :
    scope = some (.str "session") := by
  unfold readScope at h
  split at h
  · split_ifs at h with hs
    rw [hs]
  · cases h

theorem refusal_core (now : Nat) (input : CreateApprovalInput) (q : Queue) :
    (refusal now input q).2.pending = q.pending ∧ (refusal now input q).2.timers = q.timers ∧
    (refusal now input q).2.nextTimer = q.nextTimer ∧
    (refusal now input q).2.resolved = q.resolved ∧
    (refusal now input q).2.granted = q.granted := by
  simp only [refusal]
  split_ifs <;> exact ⟨rfl, rfl, rfl, rfl, rfl⟩

/-- What the guard still counts from `now` on: who is cooling down, and who withdrew. -/
structure Keeps (now : Nat) (q q' : Queue) : Prop where
  denied : ∀ key t, now ≤ t → (t < q'.deniedUntil key ↔ t < q.deniedUntil key)
  withdrawn : ∀ sessionId t, now ≤ t → q'.withdrawnSince t sessionId = q.withdrawnSince t sessionId

theorem Keeps.of_eq {now : Nat} {q q' : Queue} (hd : q'.recentDenials = q.recentDenials)
    (hw : q'.withdrawals = q.withdrawals) : Keeps now q q' := by
  refine ⟨fun key t _ => ?_, fun sessionId t _ => ?_⟩
  · simp only [Queue.deniedUntil, hd]
  · simp only [Queue.withdrawnSince, hw]

/-- What does not change in an entry while its request is pending. -/
structure Entry.Same (e e' : Entry) : Prop where
  sessionGrant : e'.request.sessionGrant = e.request.sessionGrant
  sessionId : e'.request.sessionId = e.request.sessionId
  subject : e'.subject = e.subject
  containment : e'.containment = e.containment

theorem Keeps.trans {now : Nat} {q q' q'' : Queue} (h : Keeps now q q') (h' : Keeps now q' q'') :
    Keeps now q q'' :=
  ⟨fun key t ht => (h'.denied key t ht).trans (h.denied key t ht),
    fun sessionId t ht => (h'.withdrawn sessionId t ht).trans (h.withdrawn sessionId t ht)⟩

theorem keeps_pruneDenials (now : Nat) (q : Queue) : Keeps now q (q.pruneDenials now) := by
  refine ⟨fun key t ht => ?_, fun _ _ _ => rfl⟩
  simp only [Queue.deniedUntil, Queue.pruneDenials, JsMap.get_filter]
  cases q.recentDenials.get key with
  | none => rfl
  | some expires =>
    simp only [Option.filter]
    split_ifs with h
    · rfl
    · simp only [decide_eq_true_eq] at h
      simp only [Option.getD_none, Option.getD_some]
      omega

theorem withdrawnSince_later {now t : Nat} (ht : now ≤ t) (l : List Nat) :
    (l.filter fun x => now < x + WITHDRAWAL_WINDOW_MS).filter
      (fun x => t < x + WITHDRAWAL_WINDOW_MS) = l.filter fun x => t < x + WITHDRAWAL_WINDOW_MS := by
  rw [List.filter_filter]
  refine List.filter_congr fun x _ => ?_
  rw [← Bool.decide_and, decide_eq_decide]
  omega

/-- Dropping what no longer counts at `now` changes nothing that counts later. -/
theorem keeps_keepWithdrawals (now : Nat) (sessionId : String) (q : Queue) :
    Keeps now q (q.keepWithdrawals sessionId (q.withdrawnSince now sessionId)) := by
  refine ⟨fun _ _ _ => Iff.rfl, fun sessionId' t ht => ?_⟩
  simp only [Queue.keepWithdrawals]
  unfold Queue.withdrawnSince
  simp only
  rw [← withdrawnSince_later ht ((q.withdrawals.get sessionId').getD [])]
  split_ifs with hlen
  · rw [JsMap.get_set]
    split_ifs with hid
    · rw [hid, Option.getD_some]
    · exact (withdrawnSince_later ht _).symm
  · rw [JsMap.get_delete]
    split_ifs with hid
    · rw [hid, List.eq_nil_of_length_eq_zero (Nat.eq_zero_of_not_pos hlen)]
      rfl
    · exact (withdrawnSince_later ht _).symm

theorem refusal_keeps (now : Nat) (input : CreateApprovalInput) (q : Queue) :
    Keeps now q (refusal now input q).2 := by
  have hprune := keeps_pruneDenials now q
  have hkeep := hprune.trans (keeps_keepWithdrawals now input.sessionId (q.pruneDenials now))
  simp only [refusal]
  split_ifs
  · exact hprune
  all_goals exact hkeep

section Runs
variable [Wording]

/-- What one operation does to the requests: nothing, or it opens one, lights the fuse of one anew,
or ends one. -/
inductive Changes (now : Nat) (op : Op) (q q' : Queue) : Prop
  | nothing (hpending : q'.pending = q.pending) (htimers : q'.timers = q.timers)
      (hnext : q'.nextTimer = q.nextTimer) (hresolved : q'.resolved = q.resolved)
      (hgranted : q'.granted = q.granted) (hkeeps : Keeps now q q')
  | opened (id : String) (input : CreateApprovalInput) (hop : op = .request id input)
      (hpending : q'.pending = q.pending.set id ⟨newRequest now id input, none, some q.nextTimer, 0,
        subjectKey input, input.containment = some true⟩)
      (htimers : q'.timers = q.timers ++ [⟨q.nextTimer, id, now + UNSEEN_MAX_MS⟩])
      (hnext : q'.nextTimer = q.nextTimer + 1) (hresolved : q'.resolved = q.resolved)
      (hgranted : q'.granted = q.granted) (hasked : (refusal now input q).1 = none)
      (hkeeps : Keeps now q q')
  | lit (id : String) (e e' : Entry) (due : Nat) (grants : List Int)
      (he : q.pending.get id = some e) (hfused : e'.Fused q.nextTimer)
      (hsame : e.Same e')
      (hextended : e'.extendedSeconds = e.extendedSeconds + grants.sum)
      (hceiling : e.extendedSeconds ≤ EXTENSION_CEILING_SECONDS →
        e'.extendedSeconds ≤ EXTENSION_CEILING_SECONDS)
      (hpending : q'.pending = q.pending.set id e')
      (htimers : q'.timers = q.timersBut id ++ [⟨q.nextTimer, id, due⟩])
      (hnext : q'.nextTimer = q.nextTimer + 1) (hresolved : q'.resolved = q.resolved)
      (hgranted : q'.granted = q.granted ++ grants.map fun g => (id, g)) (hkeeps : Keeps now q q')
  | ended (id : String) (e : Entry) (decision : Outcome) (scope : ApprovalScope)
      (he : q.pending.get id = some e)
      (hscope : decision = .approved ∧ scope = .session →
        op = .respond id "approved" (some (.str "session")))
      (hpending : q'.pending = q.pending.delete id) (htimers : q'.timers = q.timersBut id)
      (hnext : q'.nextTimer = q.nextTimer)
      (hresolved : q'.resolved = q.resolved ++ [⟨id, now, e,
        if forSession e decision scope then .«approved-for-session» else .ended decision⟩])
      (hgranted : q'.granted = q.granted)
      (hdenied : q'.recentDenials =
        if decision = .denied then q.recentDenials.set e.subject (now + DENY_COOLDOWN_MS)
        else q.recentDenials)
      (hwithdrawn : q'.withdrawals =
        if decision = .disconnected then
          q.withdrawals.set e.request.sessionId
            ((q.withdrawals.get e.request.sessionId).getD [] ++ [now])
        else q.withdrawals)

theorem changes_request (now : Nat) (id : String) (input : CreateApprovalInput) (q : Queue) :
    Changes now (.request id input) q (requestApproval now id input q).2 := by
  obtain ⟨hpending, htimers, hnext, hresolved, hgranted⟩ := refusal_core now input q
  have hkeeps := refusal_keeps now input q
  unfold requestApproval
  split
  · next s hs =>
    rw [hs] at hpending htimers hnext hresolved hgranted hkeeps
    exact .nothing hpending htimers hnext hresolved hgranted hkeeps
  · next s hs =>
    rw [hs] at hpending htimers hnext hresolved hgranted hkeeps
    simp only [Queue.setTimeout]
    refine .opened id input rfl ?_ ?_ ?_ hresolved hgranted (by rw [hs])
      ⟨hkeeps.denied, hkeeps.withdrawn⟩
    · rw [← hpending, ← hnext]
    · rw [← htimers, ← hnext]
    · rw [← hnext]

theorem changes_finish {now : Nat} {op : Op} {q : Queue} (hq : Burning q) (id : String)
    (decision : Outcome) (scope : ApprovalScope)
    (hscope : decision = .approved ∧ scope = .session →
      op = .respond id "approved" (some (.str "session"))) :
    Changes now op q (finish now id decision scope q) := by
  unfold finish
  split
  · exact .nothing rfl rfl rfl rfl rfl (.of_eq rfl rfl)
  · next e he =>
    exact .ended id e decision scope he hscope rfl (hq.timers_cleared he) rfl rfl rfl rfl rfl

theorem changes_fire {now : Nat} {q : Queue} (hq : Burning q) {t : Timer} (ht : t ∈ q.timers) :
    Changes now (.fire t) q (finish now t.owner .timeout .once (q.clearTimeout (some t.handle))) := by
  obtain ⟨e, he, hfused⟩ := hq.owned t ht
  have he' : (q.clearTimeout (some t.handle)).pending.get t.owner = some e := he
  unfold finish
  rw [he']
  refine .ended t.owner e .timeout .once he (fun h => absurd h.1 (by decide)) rfl ?_ rfl rfl rfl
    rfl rfl
  -- the timer that fired is one of those the entry clears
  have hcleared := hq.timers_cleared he
  have hkeeps : ∀ t' ∈ q.timersBut t.owner, t'.handle ≠ t.handle := by
    intro t' ht' hhandle
    obtain ⟨hmem, howner⟩ := List.mem_filter.mp ht'
    simp [(hq.owner_iff he hfused hmem).mpr hhandle] at howner
  have hcomm : ((((q.clearTimeout (some t.handle)).clearTimeout e.timer).clearTimeout
      e.unseen).timers) = ((q.clearTimeout e.timer).clearTimeout e.unseen).timers.filter
        fun t' => some t'.handle ≠ some t.handle := by
    simp only [Queue.clearTimeout, List.filter_filter]
    exact List.filter_congr fun _ _ => by ac_rfl
  rw [hcomm, hcleared, List.filter_eq_self]
  intro t' ht'
  simpa using hkeeps t' ht'

theorem changes_arm {now : Nat} {q : Queue} (hq : Burning q) (id : String) (timeoutSeconds : Nat) :
    Changes now (.arm id timeoutSeconds) q (armApproval now timeoutSeconds id q).2 := by
  unfold armApproval
  split
  · exact .nothing rfl rfl rfl rfl rfl (.of_eq rfl rfl)
  · next e he =>
    split_ifs with htimer
    · exact .nothing rfl rfl rfl rfl rfl (.of_eq rfl rfl)
    · have hnone : e.timer = none := by simpa using htimer
      have hcleared := hq.timers_cleared he
      rw [hnone, clearTimeout_none] at hcleared
      simp only [Queue.setTimeout, hcleared]
      refine .lit id e _ (now + timeoutSeconds * 1000) [] he ?_ ?_ ?_ ?_ rfl rfl rfl rfl ?_
        (.of_eq rfl rfl)
      · exact Or.inl ⟨rfl, rfl⟩
      · exact ⟨rfl, rfl, rfl, rfl⟩
      · simp
      · exact fun h => h
      · simp [Queue.clearTimeout]

theorem changes_extend {now : Nat} {q : Queue} (hq : Burning q) (id : String)
    (seconds : Option ℚ) :
    Changes now (.extend id seconds) q (extendApproval now id seconds q).2 := by
  unfold extendApproval
  split
  · exact .nothing rfl rfl rfl rfl rfl (.of_eq rfl rfl)
  · next e he =>
    split
    · exact .nothing rfl rfl rfl rfl rfl (.of_eq rfl rfl)
    · exact .nothing rfl rfl rfl rfl rfl (.of_eq rfl rfl)
    · next timer seconds htimer =>
      split_ifs with hpos
      · exact .nothing rfl rfl rfl rfl rfl (.of_eq rfl rfl)
      extract_lets grant
      split_ifs with hgrant
      · exact .nothing rfl rfl rfl rfl rfl (.of_eq rfl rfl)
      · -- an armed entry has no backstop left to clear
        obtain ⟨t, -, -, hfused⟩ := hq.fused id e he
        have hunseen : e.unseen = none := by
          rcases hfused with ⟨-, h⟩ | ⟨h, -⟩
          · exact h
          · rw [htimer] at h
            cases h
        have hcleared := hq.timers_cleared he
        rw [htimer, hunseen, clearTimeout_none] at hcleared
        have hgrant : grant ≤ EXTENSION_CEILING_SECONDS - e.extendedSeconds :=
          (min_le_right _ _).trans (min_le_right _ _)
        simp only [Queue.setTimeout, hcleared]
        refine .lit id e _ _ [grant] he ?_ ?_ ?_ ?_ rfl rfl rfl rfl rfl (.of_eq rfl rfl)
        · exact Or.inl ⟨rfl, hunseen⟩
        · exact ⟨rfl, rfl, rfl, rfl⟩
        · simp
        · intro _
          simp only
          omega

/-- One lemma for every operation: what it can do to the requests. -/
theorem Op.changes {now : Nat} {op : Op} {q : Queue} (hq : Burning q) (hop : op.Allowed q) :
    Changes now op q (op.run now q).2 := by
  cases op with
  | request id input => exact changes_request now id input q
  | wouldRefuse input =>
    obtain ⟨hpending, htimers, hnext, hresolved, hgranted⟩ := refusal_core now input q
    exact .nothing hpending htimers hnext hresolved hgranted (refusal_keeps now input q)
  | signal id aborted =>
    cases aborted with
    | true => exact changes_finish hq id _ _ fun h => absurd h.1 (by decide)
    | false => exact .nothing rfl rfl rfl rfl rfl (.of_eq rfl rfl)
  | arm id timeoutSeconds => exact changes_arm hq id timeoutSeconds
  | extend id seconds => exact changes_extend hq id seconds
  | respond id decision scope =>
    simp only [Op.run, respondToApproval]
    split_ifs with hhas hdecision
    · exact .nothing rfl rfl rfl rfl rfl (.of_eq rfl rfl)
    · refine changes_finish hq id _ _ fun h => ?_
      rw [hdecision, readScope_session h.2]
    · exact changes_finish hq id _ _ fun h => absurd h.1 (by decide)
  | fire t => exact changes_fire hq hop
  | abort id => exact changes_finish hq id _ _ fun h => absurd h.1 (by decide)
  | deny id => exact changes_finish hq id _ _ fun h => absurd h.1 (by decide)

theorem Changes.burning {now : Nat} {op : Op} {q q' : Queue} (hc : Changes now op q q')
    (hq : Burning q) (hop : op.Allowed q) : Burning q' := by
  cases hc with
  | nothing hpending htimers hnext =>
    refine ⟨by rw [htimers]; exact hq.handles, ?_, ?_, ?_⟩
    · rw [htimers, hnext]
      exact hq.below
    · rw [htimers, hpending]
      exact hq.owned
    · rw [htimers, hpending]
      exact hq.fused
  | opened id input hop' hpending htimers hnext =>
    subst hop'
    exact hq.opened hop.1 (Or.inr ⟨rfl, rfl⟩) hpending htimers hnext
  | lit id e e' due grants he hfused _ _ _ hpending htimers hnext =>
    exact hq.lit hfused hpending htimers hnext
  | ended id e decision scope he _ hpending htimers hnext =>
    exact hq.ended hpending htimers hnext

theorem Changes.once {now : Nat} {op : Op} {q q' : Queue} (hc : Changes now op q q')
    (hq : Once q) (hop : op.Allowed q) : Once q' := by
  cases hc with
  | nothing hpending _ _ hresolved => exact ⟨hresolved ▸ hq.nodup, hresolved ▸ hpending ▸ hq.apart⟩
  | opened id input hop' hpending _ _ hresolved =>
    subst hop'
    refine ⟨hresolved ▸ hq.nodup, fun id' hid' => ?_⟩
    rw [hresolved] at hid'
    have hne : id' ≠ id := fun heq => hop.2 (heq ▸ hid')
    rw [hpending, JsMap.get_set_ne _ _ hne]
    exact hq.apart id' hid'
  | lit id e e' due grants he _ _ _ _ hpending _ _ hresolved =>
    refine ⟨hresolved ▸ hq.nodup, fun id' hid' => ?_⟩
    rw [hresolved] at hid'
    have hnone := hq.apart id' hid'
    have hne : id' ≠ id := fun heq => by simp [heq, he] at hnone
    rw [hpending, JsMap.get_set_ne _ _ hne]
    exact hnone
  | ended id e decision scope he _ hpending _ _ hresolved =>
    have hnew : id ∉ q.resolved.map Resolution.id := fun hid => by simp [hq.apart id hid] at he
    refine ⟨?_, fun id' hid' => ?_⟩
    · rw [hresolved, List.map_append, List.nodup_append]
      refine ⟨hq.nodup, by simp, ?_⟩
      intro id' hid' id'' hid'' heq
      simp only [List.map_cons, List.map_nil, List.mem_singleton] at hid''
      exact hnew (hid'' ▸ heq ▸ hid')
    · rw [hpending, JsMap.get_delete]
      rw [hresolved, List.map_append, List.mem_append] at hid'
      split_ifs with hid
      · rfl
      · refine hq.apart id' (hid'.resolve_right fun h => hid ?_)
        simpa using h

theorem Changes.metered {now : Nat} {op : Op} {q q' : Queue} (hc : Changes now op q q')
    (hq : Metered q) (hop : op.Allowed q) : Metered q' := by
  cases hc with
  | nothing hpending _ _ hresolved hgranted =>
    have hseconds := secondsGranted_of_eq hgranted
    refine ⟨fun id e he => ?_, fun id => ?_, fun id hfresh => ?_⟩ <;> rw [hseconds]
    · exact hq.spent id e (hpending ▸ he)
    · exact hq.ceiling id
    · exact hq.unspent id ⟨hpending ▸ hfresh.1, hresolved ▸ hfresh.2⟩
  | opened id input hop' hpending _ _ hresolved hgranted =>
    subst hop'
    have hseconds := secondsGranted_of_eq hgranted
    refine ⟨fun id' e he => ?_, fun id' => ?_, fun id' hfresh => ?_⟩ <;> rw [hseconds]
    · rw [hpending, JsMap.get_set] at he
      split_ifs at he with hid
      · obtain rfl := Option.some.inj he
        rw [hid]
        exact (hq.unspent id hop).symm
      · exact hq.spent id' e he
    · exact hq.ceiling id'
    · obtain ⟨hnone, hnot⟩ := hfresh
      rw [hpending, JsMap.get_set] at hnone
      split_ifs at hnone
      exact hq.unspent id' ⟨hnone, hresolved ▸ hnot⟩
  | lit id e e' due grants he _ _ hextended hceiling hpending _ _ hresolved hgranted =>
    have hseconds := secondsGranted_append hgranted
    have htotal : e'.extendedSeconds = q'.secondsGranted id := by
      rw [hextended, hseconds, if_pos rfl, hq.spent id e he]
    refine ⟨fun id' e₁ he₁ => ?_, fun id' => ?_, fun id' hfresh => ?_⟩
    · rw [hpending, JsMap.get_set] at he₁
      split_ifs at he₁ with hid
      · obtain rfl := Option.some.inj he₁
        rw [hid, htotal]
      · rw [hseconds, if_neg hid, add_zero]
        exact hq.spent id' e₁ he₁
    · by_cases hid : id' = id
      · rw [hid, ← htotal]
        exact hceiling ((hq.spent id e he).trans_le (hq.ceiling id))
      · rw [hseconds, if_neg hid, add_zero]
        exact hq.ceiling id'
    · obtain ⟨hnone, hnot⟩ := hfresh
      rw [hpending, JsMap.get_set] at hnone
      split_ifs at hnone with hid
      rw [hseconds, if_neg hid, add_zero]
      exact hq.unspent id' ⟨hnone, hresolved ▸ hnot⟩
  | ended id e decision scope he _ hpending _ _ hresolved hgranted =>
    have hseconds := secondsGranted_of_eq hgranted
    refine ⟨fun id' e' he' => ?_, fun id' => ?_, fun id' hfresh => ?_⟩ <;> rw [hseconds]
    · rw [hpending, JsMap.get_delete] at he'
      split_ifs at he'
      exact hq.spent id' e' he'
    · exact hq.ceiling id'
    · obtain ⟨hnone, hnot⟩ := hfresh
      rw [hresolved, List.map_append, List.mem_append, not_or] at hnot
      have hid : id' ≠ id := fun hid => hnot.2 (by simp [hid])
      rw [hpending, JsMap.get_delete_ne _ hid] at hnone
      exact hq.unspent id' ⟨hnone, hnot.1⟩

theorem Changes.offered {now : Nat} {op : Op} {h : History} {q q' : Queue}
    (hc : Changes now op q q') (hq : Offered h q) : Offered (h ++ [(now, op)]) q' := by
  replace hq := hq.mono (List.subset_append_left h [(now, op)])
  cases hc with
  | nothing hpending _ _ hresolved =>
    exact ⟨fun id e he => hq.asked id e (hpending ▸ he),
      fun id ha => hq.granted id (answered_of_eq hresolved ha)⟩
  | opened id input hop hpending _ _ hresolved =>
    refine ⟨fun id' e he => ?_, fun id ha => hq.granted id (answered_of_eq hresolved ha)⟩
    rw [hpending, JsMap.get_set] at he
    split_ifs at he with hid
    · obtain rfl := Option.some.inj he
      exact ⟨now, input, by simp [hop, hid], rfl⟩
    · exact hq.asked id' e he
  | lit id e e' due grants he _ hsame _ _ hpending _ _ hresolved =>
    refine ⟨fun id' e₁ he₁ => ?_, fun id ha => hq.granted id (answered_of_eq hresolved ha)⟩
    rw [hpending, JsMap.get_set] at he₁
    split_ifs at he₁ with hid
    · obtain rfl := Option.some.inj he₁
      rw [hid, hsame.sessionGrant]
      exact hq.asked id e he
    · exact hq.asked id' e₁ he₁
  | ended id e decision scope he hscope hpending _ _ hresolved =>
    refine ⟨fun id' e' he' => ?_, fun id' hid' => ?_⟩
    · rw [hpending, JsMap.get_delete] at he'
      split_ifs at he'
      exact hq.asked id' e' he'
    · obtain ⟨r, hr, rfl, hanswer⟩ := hid'
      rw [hresolved, List.mem_append, List.mem_singleton] at hr
      rcases hr with hr | rfl
      · exact hq.granted r.id ⟨r, hr, rfl, hanswer⟩
      · -- the entry that ends is the one answered for the session
        simp only at hanswer ⊢
        split_ifs at hanswer with hsession
        simp only [forSession, decide_eq_true_eq] at hsession
        obtain ⟨t, input, hmem, hgrant⟩ := hq.asked id e he
        refine ⟨⟨t, input, hmem, hgrant ▸ hsession.2.2⟩, now, ?_⟩
        simp [hscope ⟨hsession.1, hsession.2.1⟩]

theorem Changes.resolved {now : Nat} {op : Op} {q q' : Queue} (hc : Changes now op q q') :
    q.resolved ⊆ q'.resolved := by
  cases hc with
  | ended _ _ _ _ _ _ _ _ _ hresolved _ => exact hresolved ▸ List.subset_append_left _ _
  | _ => simp_all

theorem Sound.step {now : Nat} {op : Op} {h : History} {q : Queue} (hs : Sound h q)
    (hop : op.Allowed q) : Sound (h ++ [(now, op)]) (op.run now q).2 := by
  have hc : Changes now op q (op.run now q).2 := Op.changes hs.burning hop
  exact ⟨hc.burning hs.burning hop, hc.once hs.once hop, hc.metered hs.metered hop,
    hc.offered hs.offered⟩

theorem Run.sound {h : History} {m : Main} (hrun : Run .start h m) : Sound h m.queue :=
  hrun.invariant sound_start fun _ _ _ _ => Sound.step

theorem Run.resolved {h h' : History} {m m' : Main} (hrun : Run .start h m)
    (hrun' : Run m h' m') : m.queue.resolved ⊆ m'.queue.resolved := by
  have hboth := hrun'.invariant (I := fun h'' q => Sound (h ++ h'') q ∧ m.queue.resolved ⊆ q.resolved)
    ⟨by rw [List.append_nil]; exact hrun.sound, fun _ h => h⟩ fun h'' q now op hI hop => by
      refine ⟨by rw [← List.append_assoc]; exact hI.1.step hop, fun x hx => ?_⟩
      exact (Op.changes hI.1.burning hop).resolved (hI.2 hx)
  exact hboth.2

/-- Nothing that names a request does anything once the request is not pending. -/
theorem Op.run_gone {now : Nat} {op : Op} {q : Queue} {id : String} (hop : op.names = some id)
    (hgone : q.pending.get id = none) : op.run now q = (false, q) := by
  have hfinish : ∀ decision scope, finish now id decision scope q = q := by
    intro decision scope
    simp only [finish, hgone]
  cases op with
  | request | wouldRefuse | fire => cases hop
  | signal id' aborted =>
    obtain rfl := Option.some.inj hop
    cases aborted <;> simp [Op.run, heedSignal, hfinish]
  | arm id' timeoutSeconds =>
    obtain rfl := Option.some.inj hop
    simp [Op.run, armApproval, hgone]
  | extend id' seconds =>
    obtain rfl := Option.some.inj hop
    simp [Op.run, extendApproval, hgone]
  | respond id' decision scope =>
    obtain rfl := Option.some.inj hop
    simp [Op.run, respondToApproval, JsMap.has, hgone]
  | abort id' | deny id' =>
    obtain rfl := Option.some.inj hop
    simp [Op.run, hfinish]

/-- Whatever order requests, answers, timers, aborts and denials come in, a request is resolved once
and for good, its fuse is one live timer, and its extensions stay under the ceiling. -/
theorem answers_are_final {h : History} {m : Main} (hrun : Run .start h m) :
    (m.queue.resolved.map Resolution.id).Nodup ∧
    (∀ h' m', Run m h' m' → ∀ id a, m.queue.Answered id a →
      ∀ a', m'.queue.Answered id a' ↔ a' = a) ∧
    (∀ id ∈ m.queue.resolved.map Resolution.id, (∀ t ∈ m.queue.timers, t.owner ≠ id) ∧
      ∀ (now : Nat) (op : Op), op.names = some id → op.run now m.queue = (false, m.queue)) ∧
    (∀ id, m.queue.Answered id .«approved-for-session» →
      (∃ t input, (t, Op.request id input) ∈ h ∧ input.sessionGrant.isSome) ∧
      ∃ t, (t, Op.respond id "approved" (some (.str "session"))) ∈ h) ∧
    (∀ id e, m.queue.pending.get id = some e → e.timer.isSome →
      ∃ t, m.queue.timers.filter (fun t => t.owner = id) = [t] ∧ e.timer = some t.handle) ∧
    ∀ id, m.queue.secondsGranted id ≤ 900 := by
  have hs := hrun.sound
  refine ⟨hs.once.nodup, ?_, ?_, hs.offered.granted, ?_, hs.metered.ceiling⟩
  · intro h' m' hrun' id a ⟨r, hr, hid, ha⟩ a'
    have hr' := hrun.resolved hrun' hr
    have hs' := (hrun.trans hrun').sound
    constructor
    · intro ⟨r', hmem, hid', ha'⟩
      rw [← ha', ← ha, List.inj_on_of_nodup_map hs'.once.nodup hmem hr' (hid'.trans hid.symm)]
    · intro heq
      exact ⟨r, hr', hid, ha.trans heq.symm⟩
  · intro id hid
    have hgone := hs.once.apart id hid
    refine ⟨fun t ht howner => ?_, fun now op hop => Op.run_gone hop hgone⟩
    obtain ⟨e, he, -⟩ := hs.burning.owned t ht
    simp [howner, hgone] at he
  · intro id e he harmed
    obtain ⟨t, ht, hfused | hfused⟩ := hs.burning.timers_of he
    · exact ⟨t, ht, hfused.1⟩
    · simp [hfused.1] at harmed

end Runs

/-! ## A request that is given time and approved for its session -/

@[reducible] def verbatim : Wording := ⟨fun text => text, fun text _ => text, fun text _ => text,
  fun text => ⟨text, 0, 0⟩⟩

def deployInput : CreateApprovalInput :=
  ⟨"session", "ciTrigger", "workspace", some "server", some "web", "deploy", "starts a deploy", none,
    none, some "conversation", none⟩

/-- The queue after each of its operations. -/
def deployQueue : Queue :=
  letI := verbatim
  [Op.request "appr-1" deployInput, .signal "appr-1" false, .arm "appr-1" 120,
    .extend "appr-1" (some 90), .respond "appr-1" "approved" (some (.str "session"))].foldl
    (fun q op => (op.run 1000 q).2) .start

theorem answers_are_final_session :
    letI := verbatim
    deployQueue.Answered "appr-1" .«approved-for-session» ∧
    deployQueue.secondsGranted "appr-1" = 90 ∧
    ∀ (now : Nat) (op : Op), op.names = some "appr-1" →
      op.run now deployQueue = (false, deployQueue) := by
  let _ := verbatim
  have hcall : ∀ {m m' : Main} {h : History} {op : Op}, Run m h m' → Turn 1000 m' (some op)
      ⟨(op.run 1000 m'.queue).2, m'.stack⟩ →
      Run m (h ++ [(1000, op)]) ⟨(op.run 1000 m'.queue).2, m'.stack⟩ := fun hrun => .op hrun
  have hasked : Run .start [(1000, .request "appr-1" deployInput)] ⟨_, [.signal "appr-1" false]⟩ :=
    .op (.refl _) (.request "appr-1" deployInput false ⟨rfl, by decide⟩)
  have hheard : Run .start _ ⟨heedSignal 1000 "appr-1" false _, []⟩ :=
    .op hasked (.signal "appr-1" false)
  have hrun : ∃ h, Run .start h ⟨deployQueue, []⟩ :=
    ⟨_, hcall (hcall (hcall hheard (.call (.arm "appr-1" 120) trivial))
      (.call (.extend "appr-1" (some 90)) trivial))
      (.call (.respond "appr-1" "approved" (some (.str "session"))) trivial)⟩
  obtain ⟨h, hrun⟩ := hrun
  have hid : deployQueue.resolved.map Resolution.id = ["appr-1"] := by decide +kernel
  have hdecision : deployQueue.resolved.map Resolution.decision = [.«approved-for-session»] := by
    decide +kernel
  refine ⟨?_, by decide +kernel, ?_⟩
  · obtain ⟨r, hr⟩ := List.length_eq_one_iff.mp ((List.length_map _).symm.trans (congrArg _ hid))
    simp_all [Queue.Answered]
  · exact ((answers_are_final hrun).2.2.1 "appr-1" (by simp [hid])).2

end OpsMaxx.Approvals
