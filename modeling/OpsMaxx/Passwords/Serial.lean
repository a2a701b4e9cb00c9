import Mathlib.Data.List.Permutation
import OpsMaxx.Passwords.Wslock

/-!
# Locks one after another

While every set and every remove writes over the map it read, the calls that succeeded could have
been made one at a time. Where another operation has written in between, they could not.
-/

set_option autoImplicit false

namespace OpsMaxx.Passwords.Wslock
open OpsMaxx.Machine

section Model
variable [Scrypt]

/-! ## What an operation may find when it writes -/

/-- The file is as the operation read it, but for its own lock: the password that was checked may
have upgraded that. -/
def AsRead (file map : LockMap) (id current : String) : Prop :=
  (∀ j, j ≠ id → file j = map j) ∧
    (file id = map id ∨ ∃ lock, map id = some lock ∧ isCurrentKdf (kdfOf lock) = false ∧
      file id = some (newLock current lock.salt))

/-- A write of this frame goes over the file it read; an upgrade, over the lock it checked. -/
def Frame.Undisturbed (file : LockMap) (o : Outcome) : Frame → Prop
  | .upgrading id _ lock _ => o.derived = true → o.written = true → ∀ still, file id = some still →
      still.hash = lock.hash → still.salt = lock.salt → kdfOf still = kdfOf lock
  | .verified id current true (.remove map) => o.written = true → AsRead file map id current
  | .setting id _ current _ map => o.derived = true → o.written = true →
      AsRead file map id (current.getD "")
  | _ => True

def Undisturbed (s : State) : Move → Prop
  | .call _ _ => True
  | .resume i o => ∀ x, s.waiting[i]? = some x → x.2.Undisturbed s.file o

/-! ## Calls alone -/

theorem settle_append (t : Turn) (os os' : List Outcome) :
    settle t (os ++ os') = settle (settle t os) os' := by
  induction os generalizing t with
  | nil => rfl
  | cons o os ih =>
    cases hf : t.frame with
    | none =>
      have hstays : ∀ os, settle t os = t := by
        intro os
        cases os with
        | nil => rfl
        | cons o os => simp only [settle, hf]
      rw [hstays, hstays, hstays]
    | some f =>
      simp only [List.cons_append, settle, hf]
      exact ih _

/-- A verification that nothing comes between ends well where the password passes, and need not
change the file. -/
theorem settle_verifying (F : LockMap) (id : String) {password : String} {lock : Lock} (w : Waiter)
    (hpasses : passes password lock = true) :
    ∃ os, settle ⟨F, [], some (.verifying id password lock w)⟩ os =
      verifyEnds F id password true w := by
  cases hcurrent : isCurrentKdf (kdfOf lock) with
  | true =>
    refine ⟨[⟨true, true⟩], ?_⟩
    simp [settle, resume, hpasses, hcurrent, verifyEnds]
  | false =>
    refine ⟨[⟨true, true⟩, ⟨false, true⟩], ?_⟩
    simp [settle, resume, hpasses, hcurrent, verifyEnds, upgrade]

theorem alone_verify_unlocked {F : LockMap} {id password : String} (h : F id = none) :
    Alone (.verify id password) F F := by
  refine ⟨⟨true, true⟩, [], ?_⟩
  simp [settle, call, wsLockVerify, h, verifyEnds]

theorem alone_verify {F : LockMap} {id password : String} {lock : Lock} (h : F id = some lock)
    (hpasses : passes password lock = true) : Alone (.verify id password) F F := by
  obtain ⟨os, hos⟩ := settle_verifying F id .caller hpasses
  refine ⟨⟨true, true⟩, os, ?_⟩
  simp only [call, wsLockVerify, h]
  rw [hos]
  simp [verifyEnds]

theorem alone_verify_upgrade {F : LockMap} {id password : String} {lock : Lock}
    (h : F id = some lock) (hpasses : passes password lock = true)
    (hlegacy : isCurrentKdf (kdfOf lock) = false) :
    Alone (.verify id password) F (Function.update F id (some (newLock password lock.salt))) := by
  refine ⟨⟨true, true⟩, [⟨true, true⟩, ⟨true, true⟩], ?_⟩
  simp [settle, call, wsLockVerify, h, resume, hpasses, hlegacy, verifyEnds, upgrade]

theorem alone_remove {F : LockMap} {id current : String} {lock : Lock} (h : F id = some lock)
    (hpasses : passes current lock = true) :
    Alone (.remove id current) F (Function.update F id none) := by
  obtain ⟨os, hos⟩ := settle_verifying F id (.remove F) hpasses
  refine ⟨⟨true, true⟩, os ++ [⟨true, true⟩], ?_⟩
  simp only [call, wsLockRemove, wsLockVerify, h]
  rw [settle_append, hos]
  simp [verifyEnds, settle, resume]

theorem alone_set_over {F : LockMap} {id password salt : String} {current : Option String}
    {lock : Lock} (hlong : ¬ jsLength password < WS_MIN_PASSWORD) (h : F id = some lock)
    (hpasses : passes (current.getD "") lock = true) :
    Alone (.set id password current salt) F
      (Function.update F id (some (newLock password salt))) := by
  obtain ⟨os, hos⟩ := settle_verifying F id (.set password current salt F) hpasses
  refine ⟨⟨true, true⟩, os ++ [⟨true, true⟩, ⟨true, true⟩], ?_⟩
  simp only [call, wsLockSet, if_neg hlong, wsLockVerify, h]
  rw [settle_append, hos]
  simp [verifyEnds, settle, resume]

theorem alone_set_first {F : LockMap} {id password salt : String} {current : Option String}
    (hlong : ¬ jsLength password < WS_MIN_PASSWORD) (h : F id = none) :
    Alone (.set id password current salt) F
      (Function.update F id (some (newLock password salt))) := by
  refine ⟨⟨true, true⟩, [⟨true, true⟩], ?_⟩
  simp [call, wsLockSet, if_neg hlong, h, settle, resume]

theorem alone_delete (F : LockMap) (id : String) :
    Alone (.delete id) F (Function.update F id none) := by
  refine ⟨⟨true, true⟩, [], ?_⟩
  cases h : F id with
  | none =>
    have hsame : Function.update F id none = F := by
      rw [← h, Function.update_eq_self]
    simp [call, wsLockDelete, h, settle, hsame]
  | some lock => simp [call, wsLockDelete, h, settle]

/-! ## What an operation knows while it waits -/

/-- What a set or a remove that awaits a verification holds of its lock. -/
def Waiter.Holds (id password : String) (lock : Lock) : Waiter → Prop
  | .caller => True
  | .set next current _ map =>
    ¬ jsLength next < WS_MIN_PASSWORD ∧ password = current.getD "" ∧ map id = some lock
  | .remove map => map id = some lock

/-- What a frame holds, where `seen` are the files since its call. -/
def Frame.Sound (seen : LockMap → Prop) : Frame → Prop
  | .verifying id password lock w => (∃ F, seen F ∧ F id = some lock) ∧ w.Holds id password lock
  | .upgrading id password lock w => (∃ F, seen F ∧ F id = some lock) ∧
      passes password lock = true ∧ isCurrentKdf (kdfOf lock) = false ∧ w.Holds id password lock
  | .verified id password ok w =>
      ok = true → ∃ lock, passes password lock = true ∧ w.Holds id password lock
  | .setting id password current _ map => ¬ jsLength password < WS_MIN_PASSWORD ∧
      (map id = none ∨ ∃ lock, map id = some lock ∧ passes (current.getD "") lock = true)

theorem Frame.Sound.mono {seen seen' : LockMap → Prop} {f : Frame} (h : f.Sound seen)
    (hseen : ∀ F, seen F → seen' F) : f.Sound seen' := by
  cases f with
  | verifying id password lock w =>
    obtain ⟨⟨F, hF, hid⟩, hw⟩ := h
    exact ⟨⟨F, hseen F hF, hid⟩, hw⟩
  | upgrading id password lock w =>
    obtain ⟨⟨F, hF, hid⟩, hrest⟩ := h
    exact ⟨⟨F, hseen F hF, hid⟩, hrest⟩
  | verified id password ok w => exact h
  | setting id password current salt map => exact h

/-- What a turn does: nothing, a call that changes nothing in a file that was seen, or a call in the
file as it is. -/
inductive Turn.Does (seen : LockMap → Prop) (file : LockMap) (t : Turn) : Prop
  | nothing (hfile : t.file = file) (hended : ∀ e ∈ t.ended, e.2 = false)
  | idle (c : Call) (F : LockMap) (hended : t.ended = [(c, true)]) (hfile : t.file = file)
      (hseen : seen F) (halone : Alone c F F)
  | acts (c : Call) (hended : t.ended = [(c, true)]) (halone : Alone c file t.file)

/-- A turn that does one thing, and waits knowing what it should. -/
structure Turn.Sound (seen : LockMap → Prop) (file : LockMap) (t : Turn) : Prop where
  does : t.Does seen file
  waits : ∀ f, t.frame = some f → f.Sound seen

/-! ## Each turn -/

section Turns
variable {seen : LockMap → Prop} {file : LockMap}

/-- A verification ends with what it did, and hands the lock it checked to whoever asked. -/
theorem verifyEnds_waits {F : LockMap} {id password : String} {ok : Bool} {lock : Lock}
    {w : Waiter} (h : ok = true → passes password lock = true ∧ w.Holds id password lock) :
    ∀ f, (verifyEnds F id password ok w).frame = some f → f.Sound seen := by
  intro f hf
  cases w with
  | caller => cases hf
  | set next current salt map =>
    obtain rfl := Option.some.inj hf
    exact fun hok => ⟨lock, h hok⟩
  | remove map =>
    obtain rfl := Option.some.inj hf
    exact fun hok => ⟨lock, h hok⟩

theorem wsLockVerify_sound (hnow : seen file) (id password : String) {w : Waiter}
    (hw : ∀ lock, file id = some lock → w.Holds id password lock)
    (hasked : file id = none → w = .caller) : (wsLockVerify file id password w).Sound seen file := by
  unfold wsLockVerify
  cases h : file id with
  | none =>
    rw [hasked h]
    refine ⟨.idle _ file rfl rfl hnow (alone_verify_unlocked h), ?_⟩
    intro f hf
    cases hf
  | some lock =>
    refine ⟨.nothing rfl (by simp), ?_⟩
    intro f hf
    obtain rfl := Option.some.inj hf
    exact ⟨⟨file, hnow, h⟩, hw lock h⟩

theorem wsLockSet_sound (hnow : seen file) (id password : String) (current : Option String)
    (salt : String) : (wsLockSet file id password current salt).Sound seen file := by
  unfold wsLockSet
  by_cases hlong : jsLength password < WS_MIN_PASSWORD
  · rw [if_pos hlong]
    exact ⟨.nothing rfl (by simp), fun f hf => by cases hf⟩
  · rw [if_neg hlong]
    cases h : file id with
    | none =>
      refine ⟨.nothing rfl (by simp), ?_⟩
      intro f hf
      obtain rfl := Option.some.inj hf
      exact ⟨hlong, .inl h⟩
    | some lock =>
      apply wsLockVerify_sound hnow
      · intro lock' h'
        exact ⟨hlong, rfl, h'⟩
      · intro hnone
        rw [h] at hnone
        cases hnone

theorem wsLockRemove_sound (hnow : seen file) (id current : String) :
    (wsLockRemove file id current).Sound seen file := by
  unfold wsLockRemove
  cases h : file id with
  | none =>
    refine ⟨.idle (.remove id current) file rfl rfl hnow ?_, fun f hf => by cases hf⟩
    exact ⟨⟨true, true⟩, [], by simp [settle, call, wsLockRemove, h]⟩
  | some lock =>
    apply wsLockVerify_sound hnow
    · intro lock' h'
      exact h'
    · intro hnone
      rw [h] at hnone
      cases hnone

theorem wsLockDelete_sound (hnow : seen file) (id : String) (written : Bool) :
    (wsLockDelete file id written).Sound seen file := by
  unfold wsLockDelete
  cases h : file id with
  | none =>
    refine ⟨.idle (.delete id) file rfl rfl hnow ?_, fun f hf => by cases hf⟩
    exact ⟨⟨true, true⟩, [], by simp [settle, call, wsLockDelete, h]⟩
  | some lock =>
    cases written with
    | true => exact ⟨.acts (.delete id) rfl (alone_delete file id), fun f hf => by cases hf⟩
    | false => exact ⟨.nothing rfl (by simp), fun f hf => by cases hf⟩

theorem call_sound (hnow : seen file) (c : Call) (o : Outcome) :
    (call file c o).Sound seen file := by
  cases c with
  | verify id password =>
    exact wsLockVerify_sound hnow id password (fun _ _ => trivial) fun _ => rfl
  | set id password current salt => exact wsLockSet_sound hnow id password current salt
  | remove id current => exact wsLockRemove_sound hnow id current
  | delete id => exact wsLockDelete_sound hnow id o.written

/-- What a password passes it passes at the current work factor too. -/
theorem passes_newLock (password salt : String) : passes password (newLock password salt) = true := by
  simp [passes, newLock, kdfOf]

/-- The lock under a file that is as it was read passes as the one that was read. -/
theorem AsRead.passes {map : LockMap} {id current : String} {lock : Lock}
    (h : AsRead file map id current) (hmap : map id = some lock)
    (hpasses : Wslock.passes current lock = true) :
    ∃ lock', file id = some lock' ∧ Wslock.passes current lock' = true := by
  obtain ⟨-, hid⟩ := h
  rcases hid with hid | ⟨lock', -, -, hid⟩
  · exact ⟨lock, hid.trans hmap, hpasses⟩
  · exact ⟨_, hid, passes_newLock _ _⟩

/-- A write over the map that was read is a write over the file. -/
theorem AsRead.update {map : LockMap} {id current : String} (h : AsRead file map id current)
    (v : Option Lock) : Function.update map id v = Function.update file id v := by
  funext j
  by_cases hj : j = id
  · subst hj
    rw [Function.update_self, Function.update_self]
  · rw [Function.update_of_ne hj, Function.update_of_ne hj, h.1 j hj]

/-- An upgrade changes nothing, or it is the upgrade of the lock that stands in the file. -/
theorem upgrade_cases {id password : String} {lock : Lock} {o : Outcome}
    (hfresh : o.derived = true → o.written = true → ∀ still, file id = some still →
      still.hash = lock.hash → still.salt = lock.salt → kdfOf still = kdfOf lock) :
    upgrade file id password lock o = file ∨ ∃ still, file id = some still ∧
      still.hash = lock.hash ∧ still.salt = lock.salt ∧ kdfOf still = kdfOf lock ∧
      upgrade file id password lock o =
        Function.update file id (some (newLock password still.salt)) := by
  unfold upgrade
  cases hderived : o.derived with
  | false => exact .inl rfl
  | true =>
    cases h : file id with
    | none => exact .inl rfl
    | some still =>
      by_cases hsame : still.hash = lock.hash ∧ still.salt = lock.salt ∧ o.written = true
      · obtain ⟨hhash, hsalt, hwritten⟩ := hsame
        have hkdf := hfresh hderived hwritten still h hhash hsalt
        refine .inr ⟨still, rfl, hhash, hsalt, hkdf, ?_⟩
        simp [hhash, hsalt, hwritten]
      · refine .inl ?_
        simp only [if_true, if_neg hsame]

theorem upgrading_sound {id password : String} {lock : Lock} {w : Waiter} {o : Outcome}
    (h : (Frame.upgrading id password lock w).Sound seen)
    (hfresh : (Frame.upgrading id password lock w).Undisturbed file o) :
    (resume file o (.upgrading id password lock w)).Sound seen file := by
  obtain ⟨⟨F, hF, hid⟩, hpasses, hlegacy, hw⟩ := h
  refine ⟨?_, verifyEnds_waits fun _ => ⟨hpasses, hw⟩⟩
  rcases upgrade_cases hfresh with hsame | ⟨still, hstill, hhash, hsalt, hkdf, hupgrade⟩
  · exact .idle _ F rfl hsame hF (alone_verify hid hpasses)
  · apply Turn.Does.acts _ rfl
    show Alone _ file (upgrade file id password lock o)
    rw [hupgrade]
    apply alone_verify_upgrade hstill
    · rw [← hpasses]
      simp only [passes, hhash, hsalt, hkdf]
    · rw [hkdf]
      exact hlegacy

theorem setting_sound {id password salt : String} {current : Option String} {map : LockMap}
    {o : Outcome} (h : (Frame.setting id password current salt map).Sound seen)
    (hfresh : (Frame.setting id password current salt map).Undisturbed file o) :
    (resume file o (.setting id password current salt map)).Sound seen file := by
  obtain ⟨hlong, hmap⟩ := h
  unfold resume
  by_cases ho : o.derived = true ∧ o.written = true
  · have hread := hfresh ho.1 ho.2
    simp only [if_pos ho]
    refine ⟨.acts _ rfl ?_, fun f hf => by cases hf⟩
    simp only [hread.update]
    rcases hmap with hnone | ⟨lock, hlock, hpasses⟩
    · rcases hread.2 with hid | ⟨lock, hlock, -⟩
      · exact alone_set_first hlong (hid.trans hnone)
      · rw [hnone] at hlock
        cases hlock
    · obtain ⟨lock', hlock', hpasses'⟩ := hread.passes hlock hpasses
      exact alone_set_over hlong hlock' hpasses'
  · simp only [if_neg ho]
    exact ⟨.nothing rfl (by simp), fun f hf => by cases hf⟩

theorem verified_sound {id password : String} {ok : Bool} {w : Waiter} {o : Outcome}
    (h : (Frame.verified id password ok w).Sound seen)
    (hfresh : (Frame.verified id password ok w).Undisturbed file o) :
    (resume file o (.verified id password ok w)).Sound seen file := by
  cases w with
  | caller => exact ⟨.nothing rfl (by simp [resume]), fun f hf => by cases hf⟩
  | set next current salt map =>
    cases ok with
    | false => exact ⟨.nothing rfl (by simp [resume]), fun f hf => by cases hf⟩
    | true =>
      obtain ⟨lock, hpasses, hlong, hcurrent, hlock⟩ := h rfl
      refine ⟨.nothing rfl (by simp [resume]), ?_⟩
      intro f hf
      obtain rfl := Option.some.inj hf
      exact ⟨hlong, .inr ⟨lock, hlock, hcurrent ▸ hpasses⟩⟩
  | remove map =>
    unfold resume
    by_cases ho : ok = true ∧ o.written = true
    · obtain ⟨rfl, hwritten⟩ := ho
      obtain ⟨lock, hpasses, hlock⟩ := h rfl
      have hread : AsRead file map id password := hfresh hwritten
      simp only [hwritten, and_self, if_true]
      refine ⟨.acts _ rfl ?_, fun f hf => by cases hf⟩
      simp only [hread.update]
      obtain ⟨lock', hlock', hpasses'⟩ := hread.passes hlock hpasses
      exact alone_remove hlock' hpasses'
    · simp only [if_neg ho]
      exact ⟨.nothing rfl (by simp), fun f hf => by cases hf⟩

theorem verifying_sound {id password : String} {lock : Lock} {w : Waiter} {o : Outcome}
    (h : (Frame.verifying id password lock w).Sound seen) :
    (resume file o (.verifying id password lock w)).Sound seen file := by
  obtain ⟨⟨F, hF, hid⟩, hw⟩ := h
  unfold resume
  by_cases ho : o.derived = true ∧ passes password lock = true
  · simp only [if_pos ho]
    cases hcurrent : isCurrentKdf (kdfOf lock) with
    | true =>
      simp only [if_true]
      exact ⟨.idle _ F rfl rfl hF (alone_verify hid ho.2), verifyEnds_waits fun _ => ⟨ho.2, hw⟩⟩
    | false =>
      simp only [Bool.false_eq_true, if_false]
      refine ⟨.nothing rfl (by simp), ?_⟩
      intro f hf
      obtain rfl := Option.some.inj hf
      exact ⟨⟨F, hF, hid⟩, ho.2, hcurrent, hw⟩
  · simp only [if_neg ho]
    refine ⟨.nothing rfl (by simp [verifyEnds]), @verifyEnds_waits _ _ file id password false lock w ?_⟩
    intro hok
    cases hok

theorem resume_sound {f : Frame} {o : Outcome} (h : f.Sound seen) (hfresh : f.Undisturbed file o) :
    (resume file o f).Sound seen file := by
  cases f with
  | verifying id password lock w => exact verifying_sound h
  | upgrading id password lock w => exact upgrading_sound h hfresh
  | verified id password ok w => exact verified_sound h hfresh
  | setting id password current salt map => exact setting_sound h hfresh

end Turns

/-! ## The order -/

abbrev AloneAs (e : Ended) (file file' : LockMap) : Prop := Alone e.call file file'

/-- The files an operation called at `start` may have seen, by an order of the successful calls. -/
def State.seen (file : LockMap) (s : State) (order : List (Ended × LockMap)) (start : Nat) :
    LockMap → Prop :=
  Passes AloneAs file order s.file fun e => start ≤ e.stop

/-- An order explains the process: it is of the calls that succeeded, it ends in the file, it keeps
to their times, and every operation that waits has seen what it needs in it. -/
structure Explained (file : LockMap) (s : State) (order : List (Ended × LockMap)) : Prop where
  calls : (order.map Prod.fst).Perm s.successful
  series : Series AloneAs file order s.file
  timed : (order.map Prod.fst).Pairwise fun e e' => e.start ≤ e'.stop
  past : ∀ e ∈ order, e.1.start ≤ s.clock
  started : ∀ x ∈ s.waiting, x.1 ≤ s.clock
  waits : ∀ x ∈ s.waiting, x.2.Sound (s.seen file order x.1)

theorem explained_start (file : LockMap) : Explained file (.start file) [] where
  calls := .refl _
  series := .nil _
  timed := .nil
  past := by simp
  started := by simp [State.start]
  waits := by simp [State.start]

section After
variable {file : LockMap} {s : State} {order order' : List (Ended × LockMap)} {start : Nat}
  {waiting : List (Nat × Frame)} {t : Turn}

/-- After a turn, with an order that passes all that the one before it did. -/
theorem Explained.after (h : Explained file s order) (hstart : start ≤ s.clock)
    (hwaiting : ∀ x ∈ waiting, x ∈ s.waiting)
    (hframe : ∀ f, t.frame = some f → f.Sound (s.seen file order start))
    (hcalls : (order'.map Prod.fst).Perm (s.after start waiting t).successful)
    (hseries : Series AloneAs file order' t.file)
    (htimed : (order'.map Prod.fst).Pairwise fun e e' => e.start ≤ e'.stop)
    (hpast : ∀ e ∈ order', e.1.start ≤ s.clock)
    (hseen : ∀ start F, start ≤ s.clock → s.seen file order start F →
      (s.after start waiting t).seen file order' start F) :
    Explained file (s.after start waiting t) order' := by
  refine ⟨hcalls, hseries, htimed, fun e he => Nat.le_succ_of_le (hpast e he), ?_, ?_⟩
  · intro x hx
    rcases List.mem_append.mp hx with hx | hx
    · exact Nat.le_succ_of_le (h.started x (hwaiting x hx))
    · obtain ⟨f, hf, rfl⟩ := Option.map_eq_some_iff.mp (Option.mem_toList.mp hx)
      exact Nat.le_succ_of_le hstart
  · intro x hx
    rcases List.mem_append.mp hx with hx | hx
    · have hmem := hwaiting x hx
      exact (h.waits x hmem).mono fun F => hseen x.1 F (h.started x hmem)
    · obtain ⟨f, hf, rfl⟩ := Option.map_eq_some_iff.mp (Option.mem_toList.mp hx)
      exact (hframe f hf).mono fun F => hseen start F hstart

omit [Scrypt] in
theorem successful_after (s : State) (start : Nat) (waiting : List (Nat × Frame)) (t : Turn) :
    (s.after start waiting t).successful = s.successful ++
      (t.ended.filter Prod.snd).map fun e => ⟨e.1, e.2, start, s.clock⟩ := by
  unfold State.successful State.after
  rw [List.filter_append, List.filter_map]
  rfl

/-- A sound turn of an operation leaves the process explained. -/
theorem Explained.turn (h : Explained file s order) (hstart : start ≤ s.clock)
    (hwaiting : ∀ x ∈ waiting, x ∈ s.waiting) (ht : t.Sound (s.seen file order start) s.file) :
    ∃ order', Explained file (s.after start waiting t) order' := by
  obtain ⟨hdoes, hframe⟩ := ht
  cases hdoes with
  | nothing hfile hended =>
    have hnone : t.ended.filter Prod.snd = [] := by
      rw [List.filter_eq_nil_iff]
      intro e he
      simp [hended e he]
    refine ⟨order, h.after hstart hwaiting hframe ?_ ?_ h.timed h.past ?_⟩
    · rw [successful_after, hnone, List.map_nil, List.append_nil]
      exact h.calls
    · rw [hfile]
      exact h.series
    · intro start F _ hF
      unfold State.seen State.after
      rw [hfile]
      exact hF
  | idle c F hended hfile hseen halone =>
    obtain ⟨before, behind, rfl, hbefore, hbehind, hlate⟩ := hseen
    have hcalls := h.calls
    have htimed := h.timed
    rw [List.map_append] at hcalls htimed
    refine ⟨before ++ (⟨c, true, start, s.clock⟩, F) :: behind,
      h.after hstart hwaiting hframe ?_ ?_ ?_ ?_ ?_⟩
    · rw [successful_after, hended, List.map_append, List.map_cons]
      apply List.perm_middle.trans
      exact (hcalls.cons _).trans (List.perm_append_singleton _ _).symm
    · rw [hfile]
      exact hbefore.append (.cons halone hbehind)
    · rw [List.map_append, List.map_cons]
      obtain ⟨hl, hr, hlr⟩ := List.pairwise_append.mp htimed
      refine List.pairwise_append.mpr ⟨hl, List.pairwise_cons.mpr ⟨?_, hr⟩, ?_⟩
      · intro e he
        obtain ⟨x, hx, rfl⟩ := List.mem_map.mp he
        exact hlate x hx
      · intro e he e' he'
        rcases List.mem_cons.mp he' with rfl | he'
        · obtain ⟨x, hx, rfl⟩ := List.mem_map.mp he
          exact h.past x (List.mem_append_left _ hx)
        · exact hlr e he e' he'
    · intro e he
      rcases List.mem_append.mp he with he | he
      · exact h.past e (List.mem_append_left _ he)
      · rcases List.mem_cons.mp he with rfl | he
        · exact hstart
        · exact h.past e (List.mem_append_right _ he)
    · intro start' F' hstart' hF'
      show Passes AloneAs file _ t.file _ F'
      rw [hfile]
      exact hF'.insert hbefore hbehind halone hstart'
  | acts c hended halone =>
    refine ⟨order ++ [(⟨c, true, start, s.clock⟩, t.file)],
      h.after hstart hwaiting hframe ?_ (h.series.snoc halone) ?_ ?_ ?_⟩
    · rw [successful_after, hended, List.map_append]
      exact h.calls.append_right _
    · rw [List.map_append]
      refine List.pairwise_append.mpr ⟨h.timed, List.pairwise_singleton _ _, ?_⟩
      intro e he e' he'
      obtain ⟨x, hx, rfl⟩ := List.mem_map.mp he
      rw [List.mem_singleton.mp he']
      exact h.past x hx
    · intro e he
      rcases List.mem_append.mp he with he | he
      · exact h.past e he
      · rw [List.mem_singleton.mp he]
        exact hstart
    · intro start' F' hstart' hF'
      exact hF'.snoc halone hstart'

end After

/-- A move that nothing disturbs leaves the process explained. -/
theorem Explained.step {file : LockMap} {s s' : State} {order : List (Ended × LockMap)} {m : Move}
    (h : Explained file s order) (hm : Undisturbed s m) (hstep : step s m = some s') :
    ∃ order', Explained file s' order' := by
  cases m with
  | call c o =>
    obtain rfl := Option.some.inj hstep
    exact h.turn (Nat.le_refl _) (fun _ hx => hx) (call_sound (.last h.series) c o)
  | resume i o =>
    unfold Wslock.step at hstep
    cases hi : s.waiting[i]? with
    | none => simp [hi] at hstep
    | some x =>
      have hmem := List.mem_of_getElem? hi
      simp only [hi, Option.some.injEq] at hstep
      subst hstep
      exact h.turn (h.started x hmem) (fun _ hy => List.mem_of_mem_eraseIdx hy)
        (resume_sound (h.waits x hmem) (hm x hi))

/-- In every run in which each set and each remove writes over the file it read, the file is at every
moment what the successful calls would have made of it in some order, one after another. -/
theorem undisturbed_runs_in_some_order {file : LockMap} {ms : List Move} {s : State}
    (hrun : Run step Undisturbed (.start file) ms s) : InSomeOrder file s := by
  have hexplained : ∃ order, Explained file s order := by
    refine hrun.invariant (I := fun s => ∃ order, Explained file s order)
      ⟨[], explained_start file⟩ ?_
    intro v m v' ⟨order, h⟩ hm hstep
    exact h.step hm hstep
  obtain ⟨order, h⟩ := hexplained
  exact ⟨order, h.calls, h.series, h.timed⟩

/-- All that the first lock of a workspace can leave. -/
theorem alone_set_first_leaves {F F' : LockMap} {id password salt : String}
    {current : Option String} (h : F id = none) (halone : Alone (.set id password current salt) F F') :
    F' = Function.update F id (some (newLock password salt)) := by
  obtain ⟨o, os, hframe, hfile, hended⟩ := halone
  by_cases hlong : jsLength password < WS_MIN_PASSWORD
  · cases os <;> simp [call, wsLockSet, hlong, settle] at hended
  · cases os with
    | nil => simp [call, wsLockSet, hlong, h, settle] at hframe
    | cons o' os =>
      have hdone : ∀ t : Turn, t.frame = none → settle t os = t := by
        intro t ht
        cases os with
        | nil => rfl
        | cons o os => simp only [settle, ht]
      by_cases ho : o'.derived = true ∧ o'.written = true
      · simp only [call, wsLockSet, if_neg hlong, h, settle, resume, if_pos ho] at hfile
        rw [hdone _ rfl] at hfile
        exact hfile.symm
      · simp only [call, wsLockSet, if_neg hlong, h, settle, resume, if_neg ho] at hended
        rw [hdone _ rfl] at hended
        simp at hended

end Model

/-! ## Two workspaces at once -/

section Runs

/-- A scrypt whose verifiers can be read. -/
@[reducible] def plainScrypt : Scrypt where
  scrypt password salt params := password ++ "." ++ salt ++ "." ++ toString params.p

attribute [local instance] plainScrypt

def setA : Call := .set "a" "secret-a" none "salt-a"

def setB : Call := .set "b" "secret-b" none "salt-b"

/-- Both read the file before either has written it. -/
def together : List Move :=
  [.call setA ⟨true, true⟩, .call setB ⟨true, true⟩, .resume 0 ⟨true, true⟩, .resume 0 ⟨true, true⟩]

/-- One workspace verifies while the other is being locked. -/
def apart : List Move :=
  [.call setA ⟨true, true⟩, .resume 0 ⟨true, true⟩, .call (.verify "a" "secret-a") ⟨true, true⟩,
    .call setB ⟨true, true⟩, .resume 0 ⟨true, true⟩, .resume 0 ⟨true, true⟩]

theorem undisturbed_setting {s : State} {o : Outcome} {start : Nat} {id password salt : String}
    {current : Option String}
    (h : s.waiting[0]? = some (start, .setting id password current salt s.file)) :
    Undisturbed s (.resume 0 o) := by
  intro x hx
  rw [h] at hx
  obtain rfl := Option.some.inj hx
  exact fun _ _ => ⟨fun _ _ => rfl, .inl rfl⟩

theorem undisturbed_verifying {s : State} {o : Outcome} {start : Nat} {id password : String}
    {lock : Lock} {w : Waiter}
    (h : s.waiting[0]? = some (start, .verifying id password lock w)) :
    Undisturbed s (.resume 0 o) := by
  intro x hx
  rw [h] at hx
  obtain rfl := Option.some.inj hx
  exact trivial

theorem undisturbed_runs_in_some_order_apart :
    ∃ s, Run step Undisturbed (.start .empty) apart s ∧ s.waiting = [] ∧
      s.successful.map Ended.call = [setA, .verify "a" "secret-a", setB] ∧
      InSomeOrder .empty s := by
  have h₀ : Run step Undisturbed (.start .empty) [] _ := .refl _
  have h₁ := h₀.next (m := Move.call setA ⟨true, true⟩) trivial rfl
  have h₂ := h₁.next (m := Move.resume 0 ⟨true, true⟩) (undisturbed_setting rfl) rfl
  have h₃ := h₂.next (m := Move.call (.verify "a" "secret-a") ⟨true, true⟩) trivial rfl
  have h₄ := h₃.next (m := Move.call setB ⟨true, true⟩) trivial rfl
  have h₅ := h₄.next (m := Move.resume 0 ⟨true, true⟩) (undisturbed_verifying rfl) rfl
  have h₆ := h₅.next (m := Move.resume 0 ⟨true, true⟩) (undisturbed_setting rfl) rfl
  exact ⟨_, h₆, by decide, by decide, undisturbed_runs_in_some_order h₆⟩

/-- One after the other they leave both locks. -/
theorem series_of_two {order : List (Ended × LockMap)} {F : LockMap}
    (hseries : Series AloneAs .empty order F)
    (hcalls : order.map (Ended.call ∘ Prod.fst) = [setA, setB] ∨
      order.map (Ended.call ∘ Prod.fst) = [setB, setA]) : F "a" ≠ none := by
  match order, hseries with
  | [], _ => simp at hcalls
  | [_], _ => simp at hcalls
  | _ :: _ :: _ :: _, _ => simp at hcalls
  | [(e, F₁), (e', F₂)], .cons hfirst (.cons hsecond (.nil _)) =>
    simp only [List.map_cons, List.map_nil, Function.comp_apply, List.cons.injEq, and_true] at hcalls
    rcases hcalls with ⟨he, he'⟩ | ⟨he, he'⟩
    · rw [AloneAs, he] at hfirst
      rw [AloneAs, he'] at hsecond
      obtain rfl := alone_set_first_leaves rfl hfirst
      obtain rfl := alone_set_first_leaves rfl hsecond
      simp [Function.update]
    · rw [AloneAs, he] at hfirst
      rw [AloneAs, he'] at hsecond
      obtain rfl := alone_set_first_leaves rfl hfirst
      obtain rfl := alone_set_first_leaves rfl hsecond
      simp [Function.update]

/-- Two workspaces locked at once: both are told that it is done, and one lock is lost. -/
theorem set_of_another_workspace_is_erased :
    ∃ s, Run step (fun _ _ => True) (.start .empty) together s ∧ s.waiting = [] ∧
      s.successful.map Ended.call = [setA, setB] ∧ s.file "a" = none ∧ ¬ InSomeOrder .empty s := by
  obtain ⟨s, hrun, hwaiting, hcalled, hlost⟩ : ∃ s, Run step (fun _ _ => True) (.start .empty)
      together s ∧ s.waiting = [] ∧ s.successful.map Ended.call = [setA, setB] ∧
      s.file "a" = none :=
    ⟨_, (@Run.of_play _ _ _ (fun _ _ => true) _ _ _ rfl).mono fun _ _ _ => trivial, by decide,
      by decide, by decide⟩
  refine ⟨s, hrun, hwaiting, hcalled, hlost, ?_⟩
  rintro ⟨order, hcalls, hseries, -⟩
  have hcalls := hcalls.map Ended.call
  rw [hcalled, List.perm_pair, List.map_map] at hcalls
  exact series_of_two hseries hcalls hlost

end Runs

end OpsMaxx.Passwords.Wslock
