import OpsMaxx.Transfer.Notice

/-! # One transfer never costs another

What is promised of a run, the passes that keep it, and why they do.
-/

set_option autoImplicit false

namespace OpsMaxx.Transfer

/-! ## What is promised -/

/-- The text a notice points at is not the one it promises, whatever is fetched; or the notice is
none at all. -/
def World.Hopeless (W : World) (mail : String) : Prop :=
  ∀ n, W.noticeOf mail = some n → ∀ body bytes, W.openBlob n.key body = some bytes →
    n.hasDigest (W.sha256 bytes) = false

/-- The row is no notice a device on the roster could have sent, or its content cannot be used. -/
def World.Unusable (W : World) (peers : List String) (m : MailRow) : Prop :=
  m.fromDevice ∉ peers ∨ (m.kind ≠ transferKind ∧ m.kind ≠ clipboardKind) ∨
    isLegacyMail m.sealed = true ∨ (∀ o, W.mail m.sealed = some o → o.signer ∉ peers) ∨
      W.Hopeless m.sealed

def DeskEvent.reports (mail : String) : DeskEvent → Bool
  | .reported m _ => m = mail
  | _ => false

def Desk.reportsOf (s : Desk) (mail : String) : Nat := s.log.countP (DeskEvent.reports mail)

structure StandAlone (W : World) (s₀ : Desk) (passes : List Pass) : Prop where
  independent : ∀ mail, (s₀.run W passes).about mail =
    (s₀.run W (passes.map fun p => p.only mail)).about mail
  once : ∀ mail, (s₀.run W passes).reportsOf mail ≤ 1
  told : ∀ mail path bytes, .stored mail path bytes ∈ (s₀.run W passes).log →
    ∃ file, .reported mail file ∈ (s₀.run W passes).log ∧ file.path = path
  waiting : ∀ mail, (s₀.run W passes).spent mail = true → (s₀.run W passes).held mail = none →
    (s₀.run W passes).reportsOf mail = 1 ∨ W.Hopeless mail
  acked : ∀ m peers, .acked m peers ∈ (s₀.run W passes).log →
    W.Unusable peers m ∨ (s₀.run W passes).reportsOf m.sealed = 1
  kept : ∀ path bytes, (s₀.files path = some bytes ∨
    ∃ mail, .stored mail path bytes ∈ (s₀.run W passes).log) →
      (s₀.run W passes).files path = some bytes
  inside : ∀ mail path, .wrote mail path ∈ (s₀.run W passes).log →
    ∃ n name, W.noticeOf mail = some n ∧ path = [n.id, name] ∧ Plain name
  deleted : ∀ m peers n, .acked m peers ∈ (s₀.run W passes).log → m.kind = transferKind →
    m.fromDevice ∈ peers → isLegacyMail m.sealed = false → W.noticeOf m.sealed = some n →
      (∀ o, W.mail m.sealed = some o → o.signer ∈ peers) →
        .deleted (objectName n.id) ∈ (s₀.run W passes).log

/-! ## Passes that keep it -/

/-- What a pass needs: every payload is one the checks can look at, the quarantine is there, the
sidecar answers, and the acknowledgement and the deletions it may come to are carried out. -/
structure CleanPass (W : World) (s : Desk) (p : Pass) : Prop where
  readable : ∀ m ∈ p.notices, W.Readable m.sealed
  quarantine : p.quarantine = true
  opens : ∀ m ∈ p.notices, s.spent m.sealed = false → p.sidecar m.sealed = .answered
  ack : p.ack = .ok ∨ ∀ m ∈ p.notices, ∀ n, W.noticeOf m.sealed = some n →
    fetchObject p (s.incoming p) (objectName n.id) = none
  deletes : ∀ m ∈ p.notices, ∀ n, W.noticeOf m.sealed = some n → p.delete (objectName n.id) = true

def CleanRun (W : World) : Desk → List Pass → Prop
  | _, [] => True
  | s, p :: rest => CleanPass W s p ∧ CleanRun W (s.pass W p) rest

/-- A mail of the run. -/
def Known (passes : List Pass) (mail : String) : Prop :=
  ∃ p ∈ passes, ∃ m ∈ p.notices, m.sealed = mail

/-- No two notices name the same transfer, and no file is there under a transfer's name yet. -/
structure OwnNames (W : World) (known : String → Prop) (s : Desk) : Prop where
  apart : ∀ mail other n n', known mail → known other → W.noticeOf mail = some n →
    W.noticeOf other = some n' → n.id = n'.id → mail = other
  free : ∀ mail n name, known mail → W.noticeOf mail = some n → s.files [n.id, name] = none

/-! ## The loop -/

section Loop
variable {W : World} {p : Pass} {s : Desk}

/-- What a step of the loop keeps, the loop keeps. -/
theorem handleAll_induct {motive : Desk → List (MailRow × Fate) → Prop} (ms : List MailRow)
    (pre : List (MailRow × Fate)) (hstart : motive s pre)
    (hstep : ∀ s pre m, m ∈ ms → motive s pre → (handleNotice W p s m).2 ≠ .threw ∧
      motive (handleNotice W p s m).1 (pre ++ [(m, (handleNotice W p s m).2)])) :
    motive (handleAll W p s ms).1 (pre ++ (handleAll W p s ms).2.1) := by
  induction ms generalizing s pre with
  | nil =>
    rw [handleAll, List.append_nil]
    exact hstart
  | cons m rest ih =>
    obtain ⟨hthrow, hnext⟩ := hstep s pre m List.mem_cons_self hstart
    have htail := ih _ hnext fun s pre x hx => hstep s pre x (List.mem_cons_of_mem m hx)
    rw [handleAll_cons hthrow]
    rw [List.append_assoc, List.singleton_append] at htail
    exact htail

theorem Took.mail {s₁ : Desk} {mail : String} {o : OpenedMail} (h : Took W p s mail s₁ o)
    (hs : s.Genuine W) : W.mail mail = some o := by
  cases h with
  | before hheld => exact hs mail o hheld
  | now _ _ hmail => exact hmail

theorem Took.noticeOf {s₁ : Desk} {mail : String} {o : OpenedMail} (h : Took W p s mail s₁ o)
    (hs : s.Genuine W) : W.noticeOf mail = noticeIn o := by
  rw [World.noticeOf, h.mail hs, Option.bind_some]

theorem Tried.objects {s s₂ : Desk} {mail : String} {n : TransferNotice} (h : Tried mail n s s₂) :
    s₂.objects = s.objects := by
  cases h <;> rfl

theorem NoticeStep.objects {m : MailRow} {s' : Desk} {fate : Fate}
    (h : NoticeStep W p s m s' fate) : s'.objects = s.objects := by
  cases h with
  | refused => rfl
  | lost => rfl
  | useless htook => exact htook.objects
  | threw htook => exact htook.objects
  | mismatch htook => exact htook.objects
  | retried htook _ htried => exact htried.objects.trans htook.objects
  | arrived htook => exact htook.objects

/-- The object a fate is done with is the notice's own, and it was there. -/
def Named (W : World) (p : Pass) (s : Desk) (x : MailRow × Fate) : Prop :=
  (∀ object, x.2.finished = some object → ∃ n, W.noticeOf x.1.sealed = some n ∧
    object = objectName n.id ∧ fetchObject p s object ≠ none) ∧
      (x.2.file ≠ none → x.2.finished ≠ none)

theorem NoticeStep.named {m : MailRow} {s' : Desk} {fate : Fate} (h : NoticeStep W p s m s' fate)
    (hs : s.Genuine W) : Named W p s (m, fate) := by
  have hnone : ∀ fate : Fate, fate.finished = none → fate.file = none → Named W p s (m, fate) := by
    intro fate hfinished hfile
    refine ⟨?_, fun hne => absurd hfile hne⟩
    intro object hobject
    rw [show fate.finished = some object from hobject] at hfinished
    cases hfinished
  cases h with
  | refused => exact hnone _ rfl rfl
  | lost => exact hnone _ rfl rfl
  | useless => exact hnone _ rfl rfl
  | threw => exact hnone _ rfl rfl
  | retried => exact hnone _ rfl rfl
  | mismatch htook hnotice hfetch =>
    refine ⟨?_, fun hne => absurd rfl hne⟩
    intro object hobject
    cases hobject
    refine ⟨_, (htook.noticeOf hs).trans hnotice, rfl, ?_⟩
    rw [hfetch]
    exact Option.some_ne_none _
  | arrived htook hnotice hfetch =>
    refine ⟨?_, fun _ => Option.some_ne_none _⟩
    intro object hobject
    cases hobject
    refine ⟨_, (htook.noticeOf hs).trans hnotice, rfl, ?_⟩
    rw [hfetch]
    exact Option.some_ne_none _

theorem Named.of_objects {s' : Desk} {x : MailRow × Fate} (h : Named W p s x)
    (hobjects : s'.objects = s.objects) : Named W p s' x := by
  unfold Named fetchObject at h ⊢
  rw [hobjects]
  exact h

theorem handleAll_named {ms : List MailRow} (hs : s.Genuine W)
    (hms : ∀ m ∈ ms, W.Readable m.sealed) :
    (handleAll W p s ms).1.Genuine W ∧
      ∀ x ∈ (handleAll W p s ms).2.1, x.1 ∈ ms ∧ Named W p s x := by
  have hall := handleAll_induct (W := W) (p := p) (s := s) ms []
    (motive := fun s' fates => s'.Genuine W ∧ s'.objects = s.objects ∧
      ∀ x ∈ fates, x.1 ∈ ms ∧ Named W p s x)
    ⟨hs, rfl, fun x hx => by cases hx⟩ ?_
  · exact ⟨hall.1, hall.2.2⟩
  · rintro s' pre m hm ⟨hgenuine, hobjects, hpre⟩
    have hstep := notice_step (W := W) (p := p) (s := s') m
    refine ⟨handleNotice_no_throw hgenuine (hms m hm), handleNotice_genuine hgenuine m,
      hstep.objects.trans hobjects, ?_⟩
    intro x hx
    rcases List.mem_append.mp hx with hx | hx
    · exact hpre x hx
    · rw [List.mem_singleton.mp hx]
      exact ⟨hm, (hstep.named hgenuine).of_objects hobjects.symm⟩

end Loop

/-! ## A clean pass, written out -/

def Pass.foreign (p : Pass) : List MailRow := (p.listing.getD []).filter p.isForeign

section Passes
variable {W : World} {s : Desk} {p : Pass}

abbrev Desk.looped (W : World) (s : Desk) (p : Pass) : Desk :=
  (handleAll W p (s.incoming p) p.notices).1

abbrev Desk.fates (W : World) (s : Desk) (p : Pass) : List (MailRow × Fate) :=
  (handleAll W p (s.incoming p) p.notices).2.1

theorem fates_named (hclean : CleanPass W s p) (hs : s.Genuine W) :
    (s.looped W p).Genuine W ∧
      ∀ x ∈ s.fates W p, x.1 ∈ p.notices ∧ Named W p (s.incoming p) x :=
  handleAll_named (s := s.incoming p) hs hclean.readable

theorem nothing_hangs (hclean : CleanPass W s p) (hs : s.Genuine W) :
    p.ack = .ok ∨ finishedObjects (s.fates W p) = [] ∧ arrivals (s.fates W p) = [] := by
  rcases hclean.ack with hack | hgone
  · exact .inl hack
  · have hnone : ∀ x ∈ s.fates W p, x.2.finished = none := by
      intro x hx
      obtain ⟨hm, hnamed, -⟩ := (fates_named hclean hs).2 x hx
      cases hfinished : x.2.finished with
      | none => rfl
      | some object =>
        obtain ⟨n, hn, rfl, hthere⟩ := hnamed object hfinished
        exact absurd (hgone x.1 hm n hn) hthere
    refine .inr ⟨List.filterMap_eq_nil_iff.mpr hnone, List.filterMap_eq_nil_iff.mpr ?_⟩
    intro x hx
    cases hfile : x.2.file with
    | none => rfl
    | some file =>
      refine absurd (hnone x hx) (((fates_named hclean hs).2 x hx).2.2 ?_)
      rw [hfile]
      exact Option.some_ne_none _

theorem pass_told : s.pass W p = (collectFiles W p (s.incoming p)).1.note
    ((told (collectFiles W p (s.incoming p)).2).map fun f => .reported f.1 f.2) := by
  unfold Desk.pass
  cases collectFiles W p (s.incoming p) with
  | mk d answer =>
    cases answer with
    | error => simp [told, Desk.note]
    | ok files => rfl

theorem pass_clean (hclean : CleanPass W s p) (hs : s.Genuine W) :
    s.pass W p = ((s.looped W p).settled p (ackRows p.foreign (s.fates W p))
      (finishedObjects (s.fates W p))).note ((arrivals (s.fates W p)).map fun f =>
        .reported f.1 f.2) := by
  have hcollect : (collectFiles W p (s.incoming p)).1 =
      (settle p (s.looped W p) p.foreign (s.fates W p)).1 ∧
        told (collectFiles W p (s.incoming p)).2 =
          told (settle p (s.looped W p) p.foreign (s.fates W p)).2 := by
    have hloop : handleAll W p (s.incoming p) p.notices = (s.looped W p, s.fates W p, false) := by
      rw [← handleAll_no_throw (s := s.incoming p) hs hclean.readable]
    unfold collectFiles
    cases hlisting : p.listing with
    | none =>
      have hnotices : p.notices = [] := by rw [Pass.notices, hlisting]; rfl
      have hforeign : p.foreign = [] := by rw [Pass.foreign, hlisting]; rfl
      simp only [Desk.looped, Desk.fates, hnotices, hforeign, handleAll]
      exact ⟨rfl, rfl⟩
    | some messages =>
      have hnotices : messages.filter p.isNotice = p.notices := by
        rw [Pass.notices, hlisting, Option.getD_some]
      have hforeign : messages.filter p.isForeign = p.foreign := by
        rw [Pass.foreign, hlisting, Option.getD_some]
      simp only [hnotices, hforeign, hclean.quarantine, Bool.not_true, Bool.false_eq_true, if_false]
      split_ifs with hempty
      · simp only [Desk.looped, Desk.fates, List.isEmpty_iff.mp hempty, handleAll]
        exact ⟨trivial, trivial⟩
      · rw [hloop]
        exact ⟨rfl, rfl⟩
  obtain ⟨hdesk, htold⟩ := settle_eq (s.looped W p) p.foreign (nothing_hangs hclean hs)
  rw [pass_told, hcollect.1, hcollect.2, hdesk, htold]

end Passes

/-! ## What holds of one mail -/

/-- Opened, and not waiting here. -/
def Desk.Settled (s : Desk) (mail : String) : Prop := s.spent mail = true ∧ s.held mail = none

def Desk.tally (s : Desk) (mail : String) (fates : List (MailRow × Fate)) : Nat :=
  s.reportsOf mail + (arrivals fates).countP fun f => f.1 = mail

structure InvAt (W : World) (s : Desk) (mail : String) (fates : List (MailRow × Fate)) : Prop where
  held : ∀ o, s.held mail = some o → s.spent mail = true ∧ s.tally mail fates = 0
  fresh : s.spent mail = false → s.tally mail fates = 0
  settled : s.Settled mail → s.tally mail fates = 1 ∨ s.tally mail fates = 0 ∧ W.Hopeless mail
  finished : s.Settled mail → ∀ n, W.noticeOf mail = some n →
    .deleted (objectName n.id) ∈ s.log ∨ objectName n.id ∈ finishedObjects fates
  stored : ∀ path bytes, .stored mail path bytes ∈ s.log →
    s.Settled mail ∧ s.files path = some bytes ∧ ∃ file, file.path = path ∧
      (.reported mail file ∈ s.log ∨ (mail, file) ∈ arrivals fates)
  wrote : ∀ path bytes, .wrote mail path ∈ s.log ∨ .stored mail path bytes ∈ s.log →
    ∃ n name, W.noticeOf mail = some n ∧ path = [n.id, name] ∧ Plain name

section Invariant
variable {W : World} {p : Pass} {s s₁ s' : Desk} {mail : String} {fates : List (MailRow × Fate)}

theorem arrivals_append (fates : List (MailRow × Fate)) (x : MailRow × Fate) :
    arrivals (fates ++ [x]) = arrivals fates ++ arrivals [x] := List.filterMap_append

theorem finishedObjects_append (fates : List (MailRow × Fate)) (x : MailRow × Fate) :
    finishedObjects (fates ++ [x]) = finishedObjects fates ++ finishedObjects [x] :=
  List.filterMap_append

theorem arrivals_none {x : MailRow × Fate} (h : x.2.file = none) : arrivals [x] = [] := by
  simp [arrivals, h]

theorem tally_append (s : Desk) (mail : String) (fates : List (MailRow × Fate))
    (x : MailRow × Fate) : s.tally mail (fates ++ [x]) =
      s.tally mail fates + (arrivals [x]).countP fun f => f.1 = mail := by
  rw [Desk.tally, Desk.tally, arrivals_append, List.countP_append, Nat.add_assoc]

theorem reports_concerns {e : DeskEvent} (h : e.concerns mail = false) : e.reports mail = false := by
  cases e with
  | reported m file => exact h
  | wrote | stored | acked | deleted => rfl

theorem Untouched.reportsOf (h : Untouched mail s s') : s'.reportsOf mail = s.reportsOf mail := by
  obtain ⟨es, hes, hnot⟩ := h.log
  rw [Desk.reportsOf, hes, List.countP_append]
  have hnone : es.countP (DeskEvent.reports mail) = 0 := by
    rw [List.countP_eq_zero]
    intro e he
    rw [reports_concerns (hnot e he)]
    exact Bool.false_ne_true
  rw [hnone, Nat.add_zero, Desk.reportsOf]

theorem Untouched.mem (h : Untouched mail s s') {e : DeskEvent} (he : e ∈ s.log) : e ∈ s'.log := by
  obtain ⟨es, hes, -⟩ := h.log
  rw [hes]
  exact List.mem_append_left es he

theorem Untouched.mem_of (h : Untouched mail s s') {e : DeskEvent} (he : e ∈ s'.log)
    (hconcerns : e.concerns mail = true) : e ∈ s.log := by
  obtain ⟨es, hes, hnot⟩ := h.log
  rw [hes] at he
  rcases List.mem_append.mp he with he | he
  · exact he
  · rw [hnot e he] at hconcerns
    cases hconcerns

/-- What is done about other mails leaves alone what holds of this one. -/
theorem InvAt.kept {m : MailRow} {fate : Fate} (h : InvAt W s mail fates)
    (huntouched : Untouched mail s s') (hne : m.sealed ≠ mail)
    (hfiles : s.spent mail = true → ∀ n name, W.noticeOf mail = some n →
      s'.files [n.id, name] = s.files [n.id, name]) :
    InvAt W s' mail (fates ++ [(m, fate)]) := by
  have htally : s'.tally mail (fates ++ [(m, fate)]) = s.tally mail fates := by
    have hnone : (arrivals [(m, fate)]).countP (fun f => f.1 = mail) = 0 := by
      rw [List.countP_eq_zero]
      intro f hf
      obtain ⟨x, hx, hfile⟩ := List.mem_filterMap.mp hf
      rw [List.mem_singleton.mp hx] at hfile
      obtain ⟨file, -, rfl⟩ := Option.map_eq_some_iff.mp hfile
      simpa using hne
    rw [tally_append, hnone, Nat.add_zero, Desk.tally, Desk.tally, huntouched.reportsOf]
  have hsettled : s'.Settled mail → s.Settled mail := by
    unfold Desk.Settled
    rw [huntouched.spent, huntouched.held]
    exact id
  constructor
  · rw [huntouched.held, huntouched.spent, htally]
    exact h.held
  · rw [huntouched.spent, htally]
    exact h.fresh
  · rw [htally]
    intro hs
    exact h.settled (hsettled hs)
  · intro hs n hn
    rw [finishedObjects_append]
    exact (h.finished (hsettled hs) n hn).imp huntouched.mem (List.mem_append_left _)
  · intro path bytes hstored
    have hold := huntouched.mem_of hstored (by simp [DeskEvent.concerns])
    obtain ⟨hs, hpath, file, hfile, htold⟩ := h.stored path bytes hold
    obtain ⟨n, name, hn, rfl, -⟩ := h.wrote path bytes (.inr hold)
    refine ⟨⟨huntouched.spent.trans hs.1, huntouched.held.trans hs.2⟩,
      (hfiles hs.1 n name hn).trans hpath, file, hfile, ?_⟩
    rw [arrivals_append]
    exact htold.imp huntouched.mem (List.mem_append_left _)
  · intro path bytes hwrote
    apply h.wrote path bytes
    exact hwrote.imp (fun hw => huntouched.mem_of hw (by simp [DeskEvent.concerns]))
      fun hw => huntouched.mem_of hw (by simp [DeskEvent.concerns])

/-- What was opened just now was not told before, and nothing of it is in the quarantine. -/
theorem Took.opened {o : OpenedMail} (h : InvAt W s mail fates) (htook : Took W p s mail s₁ o) :
    s₁.Settled mail ∧ s₁.log = s.log ∧ s₁.files = s.files ∧ s.tally mail fates = 0 ∧
      ∀ path bytes, .stored mail path bytes ∉ s.log := by
  cases htook with
  | before hheld =>
    obtain ⟨hspent, htally⟩ := h.held o hheld
    refine ⟨⟨hspent, Function.update_self _ _ _⟩, rfl, rfl, htally, ?_⟩
    intro path bytes hstored
    obtain ⟨⟨-, hnone⟩, -⟩ := h.stored path bytes hstored
    rw [hheld] at hnone
    cases hnone
  | now hheld hspent =>
    refine ⟨⟨Function.update_self _ _ _, hheld⟩, rfl, rfl, h.fresh hspent, ?_⟩
    intro path bytes hstored
    obtain ⟨⟨hspent', -⟩, -⟩ := h.stored path bytes hstored
    rw [hspent] at hspent'
    cases hspent'

theorem tally_none {m : MailRow} {fate : Fate} (hfate : fate.file = none) (hlog : s'.log = s.log) :
    s'.tally mail (fates ++ [(m, fate)]) = s.tally mail fates := by
  rw [tally_append, arrivals_none hfate, List.countP_nil, Nat.add_zero, Desk.tally, Desk.tally,
    Desk.reportsOf, Desk.reportsOf, hlog]

/-- A notice that is done with, without a file. -/
theorem InvAt.useless {m : MailRow} {o : OpenedMail} {object : Option String}
    (h : InvAt W s m.sealed fates) (htook : Took W p s m.sealed s₁ o)
    (hhopeless : W.Hopeless m.sealed)
    (hobject : ∀ n, W.noticeOf m.sealed = some n → object = some (objectName n.id)) :
    InvAt W s₁ m.sealed (fates ++ [(m, .unusable object)]) := by
  obtain ⟨hsettled, hlog, -, htally, hnot⟩ := htook.opened h
  have hzero : s₁.tally m.sealed (fates ++ [(m, .unusable object)]) = 0 :=
    (tally_none rfl hlog).trans htally
  constructor
  · intro o' ho'
    exact ⟨hsettled.1, hzero⟩
  · intro _
    exact hzero
  · intro _
    exact .inr ⟨hzero, hhopeless⟩
  · intro _ n hn
    right
    rw [finishedObjects_append, hobject n hn]
    exact List.mem_append_right _ List.mem_cons_self
  · rw [hlog]
    intro path bytes hstored
    exact absurd hstored (hnot path bytes)
  · rw [hlog]
    exact h.wrote

theorem InvAt.refused {m : MailRow} (h : InvAt W s m.sealed fates) :
    InvAt W s m.sealed (fates ++ [(m, .unopened)]) := by
  have htally : s.tally m.sealed (fates ++ [(m, .unopened)]) = s.tally m.sealed fates :=
    tally_none rfl rfl
  constructor
  · rw [htally]
    exact h.held
  · rw [htally]
    exact h.fresh
  · rw [htally]
    exact h.settled
  · rw [finishedObjects_append]
    intro hs n hn
    exact (h.finished hs n hn).imp_right (List.mem_append_left _)
  · rw [arrivals_append]
    intro path bytes hstored
    obtain ⟨hs, hfile, file, hpath, htold⟩ := h.stored path bytes hstored
    exact ⟨hs, hfile, file, hpath, htold.imp_right (List.mem_append_left _)⟩
  · exact h.wrote

theorem InvAt.retried {m : MailRow} {o : OpenedMail} {n : TransferNotice} {s₂ : Desk}
    (h : InvAt W s m.sealed fates) (htook : Took W p s m.sealed s₁ o)
    (hnotice : W.noticeOf m.sealed = some n) (htried : Tried m.sealed n s₁ s₂) :
    InvAt W (s₂.hold m.sealed (some o)) m.sealed (fates ++ [(m, .retried)]) := by
  obtain ⟨hsettled, hlog, -, htally, hnot⟩ := htook.opened h
  have hheld : (s₂.hold m.sealed (some o)).held m.sealed = some o := Function.update_self _ _ _
  have hlive : ¬ (s₂.hold m.sealed (some o)).Settled m.sealed := by
    rintro ⟨-, hnone⟩
    rw [hheld] at hnone
    cases hnone
  have hspent : s₂.spent m.sealed = true := by
    cases htried with
    | not => exact hsettled.1
    | partly => exact hsettled.1
  have hzero : (s₂.hold m.sealed (some o)).tally m.sealed (fates ++ [(m, .retried)]) = 0 := by
    rw [tally_append, arrivals_none rfl, List.countP_nil, Nat.add_zero, ← htally, Desk.tally,
      Desk.tally]
    congr 1
    unfold Desk.reportsOf
    cases htried with
    | not => rw [← hlog]; rfl
    | partly => simp [Desk.hold, Desk.note, DeskEvent.reports, hlog]
  have hnone : ∀ path bytes, .stored m.sealed path bytes ∉ (s₂.hold m.sealed (some o)).log := by
    intro path bytes hstored
    apply hnot path bytes
    cases htried with
    | not =>
      rw [← hlog]
      exact hstored
    | partly =>
      rcases List.mem_append.mp hstored with hstored | hstored
      · rw [← hlog]
        exact hstored
      · cases List.mem_singleton.mp hstored
  constructor
  · intro _ _
    exact ⟨hspent, hzero⟩
  · intro _
    exact hzero
  · intro hs
    exact absurd hs hlive
  · intro hs
    exact absurd hs hlive
  · intro path bytes hstored
    exact absurd hstored (hnone path bytes)
  · intro path bytes hwrote
    rcases hwrote with hwrote | hstored
    · cases htried with
      | not => exact h.wrote path bytes (.inl (by rw [← hlog]; exact hwrote))
      | @partly name files hname =>
        rcases List.mem_append.mp hwrote with hwrote | hwrote
        · exact h.wrote path bytes (.inl (by rw [← hlog]; exact hwrote))
        · cases List.mem_singleton.mp hwrote
          exact ⟨n, name, hnotice, rfl, hname⟩
    · exact absurd hstored (hnone path bytes)

theorem InvAt.arrived {m : MailRow} {o : OpenedMail} {n : TransferNotice} {name : String}
    {bytes : Bytes} {file : ArrivedFile} (h : InvAt W s m.sealed fates)
    (htook : Took W p s m.sealed s₁ o) (hnotice : W.noticeOf m.sealed = some n)
    (hname : Plain name) (hpath : file.path = [n.id, name]) :
    InvAt W (s₁.stored m.sealed n.id name bytes) m.sealed
      (fates ++ [(m, .arrived file (objectName n.id))]) := by
  obtain ⟨hsettled, hlog, -, htally, hnot⟩ := htook.opened h
  have hnow : (s₁.stored m.sealed n.id name bytes).Settled m.sealed := hsettled
  have hone : (s₁.stored m.sealed n.id name bytes).tally m.sealed
      (fates ++ [(m, .arrived file (objectName n.id))]) = 1 := by
    have hreports : (s₁.stored m.sealed n.id name bytes).reportsOf m.sealed = s.reportsOf m.sealed := by
      simp [Desk.reportsOf, Desk.stored, Desk.note, DeskEvent.reports, hlog]
    rw [tally_append, Desk.tally, hreports, ← Desk.tally, htally]
    simp [arrivals, Fate.file]
  constructor
  · intro o' ho'
    rw [hnow.2] at ho'
    cases ho'
  · intro hfresh
    rw [hnow.1] at hfresh
    cases hfresh
  · intro _
    exact .inl hone
  · intro _ n' hn'
    rw [hnotice] at hn'
    cases hn'
    right
    rw [finishedObjects_append]
    exact List.mem_append_right _ List.mem_cons_self
  · intro path bytes' hstored
    rcases List.mem_append.mp hstored with hstored | hstored
    · rw [hlog] at hstored
      exact absurd hstored (hnot path bytes')
    · rcases List.mem_cons.mp hstored with hstored | hstored
      · cases hstored
      · cases List.mem_singleton.mp hstored
        refine ⟨hnow, Function.update_self _ _ _, file, hpath, .inr ?_⟩
        rw [arrivals_append]
        exact List.mem_append_right _ List.mem_cons_self
  · intro path bytes' hwrote
    rcases hwrote with hwrote | hstored
    · rcases List.mem_append.mp hwrote with hwrote | hwrote
      · exact h.wrote path bytes' (.inl (by rw [← hlog]; exact hwrote))
      · rcases List.mem_cons.mp hwrote with hwrote | hwrote
        · cases hwrote
          exact ⟨n, name, hnotice, rfl, hname⟩
        · cases List.mem_singleton.mp hwrote
    · rcases List.mem_append.mp hstored with hstored | hstored
      · exact h.wrote path bytes' (.inr (by rw [← hlog]; exact hstored))
      · rcases List.mem_cons.mp hstored with hstored | hstored
        · cases hstored
        · cases List.mem_singleton.mp hstored
          exact ⟨n, name, hnotice, rfl, hname⟩

theorem Took.files {o : OpenedMail} (h : Took W p s mail s₁ o) : s₁.files = s.files := by
  cases h <;> rfl

theorem Tried.files {n : TransferNotice} {s₂ : Desk} (h : Tried mail n s₁ s₂) {path : List String}
    (hpath : ∀ name, path ≠ [n.id, name]) : s₂.files path = s₁.files path := by
  cases h with
  | not => rfl
  | partly hname hfiles => exact hfiles path (hpath _)

/-- Nothing outside the transfer's own folder is touched. -/
theorem NoticeStep.files {m : MailRow} {fate : Fate} (h : NoticeStep W p s m s' fate)
    (hs : s.Genuine W) {path : List String}
    (hpath : ∀ n name, W.noticeOf m.sealed = some n → path ≠ [n.id, name]) :
    s'.files path = s.files path := by
  cases h with
  | refused => rfl
  | lost => rfl
  | useless htook => rw [htook.files]
  | threw htook => rw [htook.files]
  | mismatch htook => rw [htook.files]
  | retried htook hnotice htried =>
    rw [← htook.files]
    exact htried.files fun name => hpath _ name ((htook.noticeOf hs).trans hnotice)
  | arrived htook hnotice =>
    rw [← htook.files]
    exact Function.update_of_ne (hpath _ _ ((htook.noticeOf hs).trans hnotice)) _ _

theorem inv_notice {m : MailRow} {fate : Fate} (h : InvAt W s mail fates)
    (hstep : NoticeStep W p s m s' fate) (hs : s.Genuine W) (hthrow : fate ≠ .threw)
    (hopens : s.spent m.sealed = false → p.sidecar m.sealed = .answered)
    (hother : m.sealed ≠ mail → Untouched mail s s')
    (hapart : s.spent mail = true → ∀ n n', W.noticeOf mail = some n →
      W.noticeOf m.sealed = some n' → n.id = n'.id → mail = m.sealed) : InvAt W s' mail (fates ++ [(m, fate)]) := by
  by_cases hm : m.sealed = mail
  · subst hm
    cases hstep with
    | refused => exact h.refused
    | lost hspent hlost =>
      rw [hopens hspent] at hlost
      cases hlost
    | useless htook hnotice =>
      have hnone : W.noticeOf m.sealed = none := (htook.noticeOf hs).trans hnotice
      apply h.useless htook
      · intro n hn
        rw [hnone] at hn
        cases hn
      · intro n hn
        rw [hnone] at hn
        cases hn
    | threw => exact absurd rfl hthrow
    | mismatch htook hnotice hfetch hopen hdigest =>
      have hsome := (htook.noticeOf hs).trans hnotice
      apply h.useless htook
      · intro n hn body bytes hbytes
        rw [hsome] at hn
        cases hn
        rw [W.authenticated hbytes hopen]
        exact hdigest
      · intro n hn
        rw [hsome] at hn
        cases hn
        rfl
    | retried htook hnotice htried => exact h.retried htook ((htook.noticeOf hs).trans hnotice) htried
    | arrived htook hnotice hfetch hname hpath =>
      exact h.arrived htook ((htook.noticeOf hs).trans hnotice) hname hpath
  · apply h.kept (hother hm) hm
    intro hspent n name hn
    apply hstep.files hs
    intro n' name' hn' hpath
    apply hm
    symm
    apply hapart hspent n n' hn hn'
    exact (List.cons.inj hpath).1

end Invariant

/-! ## A pass keeps it -/

section PassInvariant
variable {W : World} {p : Pass} {s s₁ s' : Desk} {mail : String} {known : String → Prop}

theorem Took.not_settled {o : OpenedMail} (htook : Took W p s mail s₁ o) : ¬ s.Settled mail := by
  rintro ⟨hspent, hnone⟩
  cases htook with
  | before hheld =>
    rw [hheld] at hnone
    cases hnone
  | now hheld hfresh =>
    rw [hspent] at hfresh
    cases hfresh

/-- What was opened and done with stays so. -/
theorem NoticeStep.settled {m : MailRow} {fate : Fate} (hstep : NoticeStep W p s m s' fate)
    (hother : m.sealed ≠ mail → Untouched mail s s') (h : s.Settled mail) : s'.Settled mail := by
  by_cases hm : m.sealed = mail
  · subst hm
    cases hstep with
    | refused => exact h
    | lost hspent =>
      rw [h.1] at hspent
      cases hspent
    | useless htook | threw htook | mismatch htook | retried htook | arrived htook =>
      exact absurd h htook.not_settled
  · exact ⟨(hother hm).spent.trans h.1, (hother hm).held.trans h.2⟩

theorem NoticeStep.spent {m : MailRow} {fate : Fate} (hstep : NoticeStep W p s m s' fate)
    (hother : m.sealed ≠ mail → Untouched mail s s') (h : s.spent mail = true) :
    s'.spent mail = true := by
  by_cases hm : m.sealed = mail
  · subst hm
    cases hheld : s.held m.sealed with
    | none => exact (hstep.settled hother ⟨h, hheld⟩).1
    | some o =>
      have htook : ∀ {s₁ : Desk} {o : OpenedMail}, Took W p s m.sealed s₁ o →
          s₁.spent m.sealed = true := by
        intro s₁ o htook
        cases htook with
        | before => exact h
        | now _ hspent =>
          rw [h] at hspent
          cases hspent
      cases hstep with
      | refused => exact h
      | lost hspent =>
        rw [h] at hspent
        cases hspent
      | useless ht | threw ht | mismatch ht => exact htook ht
      | arrived ht =>
        have hspent := htook ht
        exact hspent
      | retried ht _ htried =>
        have hspent := htook ht
        cases htried <;> exact hspent
  · exact (hother hm).spent.trans h

/-- The row could not be opened for what it is: an old sender's, or no member's. -/
def World.Unsigned (W : World) (p : Pass) (m : MailRow) : Prop :=
  isLegacyMail m.sealed = true ∨ ∀ o, W.mail m.sealed = some o → o.signer ∉ p.peers

/-- What the loop has made of the notices so far. -/
structure LoopInv (W : World) (p : Pass) (known : String → Prop) (s s' : Desk)
    (fates : List (MailRow × Fate)) : Prop where
  genuine : s'.Genuine W
  spent : ∀ mail, s.spent mail = true → s'.spent mail = true
  ours : ∀ mail, s'.spent mail = true → known mail
  inv : ∀ mail, InvAt W s' mail fates
  settled : ∀ x ∈ fates, x.2.isDone = true ∨ x.2.isUnusable = true →
    W.Unsigned p x.1 ∨ s'.Settled x.1.sealed
  files : ∀ path, (∀ mail n name, known mail → W.noticeOf mail = some n → path ≠ [n.id, name]) →
    s'.files path = s.files path
  stays : ∀ mail, s.Settled mail → s'.Settled mail
  acks : ∀ m peers, .acked m peers ∈ s'.log → .acked m peers ∈ s.log
  log : ∃ es, s'.log = s.log ++ es

theorem fate_settled {m : MailRow} {fate : Fate} {fates : List (MailRow × Fate)}
    (hstep : NoticeStep W p s m s' fate) (hinv : InvAt W s m.sealed fates)
    (hopens : s.spent m.sealed = false → p.sidecar m.sealed = .answered)
    (hfate : fate.isDone = true ∨ fate.isUnusable = true) :
    W.Unsigned p m ∨ s'.Settled m.sealed := by
  cases hstep with
  | refused hheld hwhy =>
    rcases hwhy with hlegacy | hspent | hsigner | ⟨hspent, hdown⟩
    · exact .inl (.inl hlegacy)
    · exact .inr ⟨hspent, hheld⟩
    · exact .inl (.inr hsigner)
    · rw [hopens hspent] at hdown
      cases hdown
  | lost hspent hlost =>
    rw [hopens hspent] at hlost
    cases hlost
  | useless htook => exact .inr (htook.opened hinv).1
  | mismatch htook => exact .inr (htook.opened hinv).1
  | arrived htook => exact .inr (htook.opened hinv).1
  | threw | retried => rcases hfate with h | h <;> cases h

theorem Took.log {o : OpenedMail} (h : Took W p s mail s₁ o) : s₁.log = s.log := by
  cases h <;> rfl

/-- The loop's body writes to the log only what it does with files. -/
theorem NoticeStep.log {m : MailRow} {fate : Fate} (hstep : NoticeStep W p s m s' fate) :
    ∃ es, s'.log = s.log ++ es ∧ ∀ row peers, .acked row peers ∉ es := by
  have hsame : s'.log = s.log → ∃ es, s'.log = s.log ++ es ∧ ∀ row peers, .acked row peers ∉ es :=
    fun h => ⟨[], by rw [h, List.append_nil], fun _ _ hmem => by cases hmem⟩
  cases hstep with
  | refused => exact hsame rfl
  | lost => exact hsame rfl
  | useless htook | threw htook | mismatch htook => exact hsame htook.log
  | retried htook _ htried =>
    cases htried with
    | not => exact hsame htook.log
    | partly => exact ⟨_, congrArg (· ++ _) htook.log, by simp⟩
  | arrived htook => exact ⟨_, congrArg (· ++ _) htook.log, by simp⟩

theorem LoopInv.next {ms : List MailRow} {fates : List (MailRow × Fate)} {m : MailRow}
    (h : LoopInv W p known s s' fates) (hm : m ∈ ms) (hknown : ∀ m ∈ ms, known m.sealed)
    (hreadable : ∀ m ∈ ms, W.Readable m.sealed)
    (hopens : ∀ m ∈ ms, s.spent m.sealed = false → p.sidecar m.sealed = .answered)
    (hapart : ∀ mail other n n', known mail → known other → W.noticeOf mail = some n →
      W.noticeOf other = some n' → n.id = n'.id → mail = other) :
    LoopInv W p known s (handleNotice W p s' m).1 (fates ++ [(m, (handleNotice W p s' m).2)]) := by
  have hstep := notice_step (W := W) (p := p) (s := s') m
  have hother : ∀ mail, m.sealed ≠ mail → Untouched mail s' (handleNotice W p s' m).1 :=
    fun mail hne => handleNotice_other hne
  have hopens' : s'.spent m.sealed = false → p.sidecar m.sealed = .answered := by
    intro hfresh
    apply hopens m hm
    cases hs : s.spent m.sealed with
    | false => rfl
    | true =>
      rw [h.spent _ hs] at hfresh
      cases hfresh
  constructor
  · exact handleNotice_genuine h.genuine m
  · intro mail hs
    exact hstep.spent (hother mail) (h.spent mail hs)
  · intro mail hs
    by_cases hmail : m.sealed = mail
    · rw [← hmail]
      exact hknown m hm
    · rw [(hother mail hmail).spent] at hs
      exact h.ours mail hs
  · intro mail
    apply inv_notice (h.inv mail) hstep h.genuine (handleNotice_no_throw h.genuine (hreadable m hm))
      hopens' (hother mail)
    intro hs n n' hn hn'
    exact hapart mail m.sealed n n' (h.ours mail hs) (hknown m hm) hn hn'
  · intro x hx hfate
    rcases List.mem_append.mp hx with hx | hx
    · exact (h.settled x hx hfate).imp_right fun hs => hstep.settled (hother x.1.sealed) hs
    · rw [List.mem_singleton.mp hx] at hfate ⊢
      exact fate_settled hstep (h.inv m.sealed) hopens' hfate
  · intro path hpath
    rw [hstep.files h.genuine fun n name hn => hpath m.sealed n name (hknown m hm) hn]
    exact h.files path hpath
  · intro mail hs
    exact hstep.settled (hother mail) (h.stays mail hs)
  · intro row peers hacked
    obtain ⟨es, hes, hnot⟩ := hstep.log
    rw [hes] at hacked
    rcases List.mem_append.mp hacked with hacked | hacked
    · exact h.acks row peers hacked
    · exact absurd hacked (hnot row peers)
  · obtain ⟨es, hes⟩ := h.log
    obtain ⟨es', hes', -⟩ := hstep.log
    exact ⟨es ++ es', by rw [hes', hes, List.append_assoc]⟩

/-- What holds between two passes. -/
structure RunInv (W : World) (known : String → Prop) (s₀ s : Desk) : Prop where
  genuine : s.Genuine W
  ours : ∀ mail, s.spent mail = true → known mail
  inv : ∀ mail, InvAt W s mail []
  files : ∀ path, (∀ mail n name, known mail → W.noticeOf mail = some n → path ≠ [n.id, name]) →
    s.files path = s₀.files path
  acked : ∀ m peers, .acked m peers ∈ s.log → W.Unusable peers m ∨ s.Settled m.sealed
  deleted : ∀ m peers n, .acked m peers ∈ s.log → m.kind = transferKind → m.fromDevice ∈ peers →
    isLegacyMail m.sealed = false → W.noticeOf m.sealed = some n →
      (∀ o, W.mail m.sealed = some o → o.signer ∈ peers) → .deleted (objectName n.id) ∈ s.log

theorem loop_inv {s₀ : Desk} (h : RunInv W known s₀ s) (hclean : CleanPass W s p)
    (hknown : ∀ m ∈ p.notices, known m.sealed)
    (hapart : ∀ mail other n n', known mail → known other → W.noticeOf mail = some n →
      W.noticeOf other = some n' → n.id = n'.id → mail = other) :
    LoopInv W p known (s.incoming p) (s.looped W p) (s.fates W p) := by
  have hstart : LoopInv W p known (s.incoming p) (s.incoming p) [] := by
    constructor
    · exact h.genuine
    · exact fun _ hs => hs
    · exact h.ours
    · intro mail
      exact ⟨(h.inv mail).held, (h.inv mail).fresh, (h.inv mail).settled, (h.inv mail).finished,
        (h.inv mail).stored, (h.inv mail).wrote⟩
    · intro x hx
      cases hx
    · exact fun _ _ => rfl
    · exact fun _ hs => hs
    · exact fun _ _ hacked => hacked
    · exact ⟨[], (List.append_nil _).symm⟩
  have hall := handleAll_induct (W := W) (p := p) (s := s.incoming p) p.notices []
    (motive := LoopInv W p known (s.incoming p)) hstart ?_
  · exact hall
  · intro s' fates m hm hloop
    exact ⟨handleNotice_no_throw hloop.genuine (hclean.readable m hm),
      hloop.next hm hknown hclean.readable hclean.opens hapart⟩

theorem finished_deletable {s₀ : Desk} (h : RunInv W known s₀ s) (hclean : CleanPass W s p)
    {object : String} (hobject : object ∈ finishedObjects (s.fates W p)) :
    p.delete object = true := by
  obtain ⟨x, hx, hfinished⟩ := List.mem_filterMap.mp hobject
  obtain ⟨hm, hnamed, -⟩ := (fates_named hclean h.genuine).2 x hx
  obtain ⟨n, hn, rfl, -⟩ := hnamed object hfinished
  exact hclean.deletes x.1 hm n hn

/-- Each object a pass is done with is deleted at its end. -/
theorem finished_deleted {s₀ : Desk} (h : RunInv W known s₀ s) (hclean : CleanPass W s p)
    {object : String} (hobject : object ∈ finishedObjects (s.fates W p)) :
    .deleted object ∈ (s.pass W p).log := by
  rw [pass_clean hclean h.genuine]
  apply List.mem_append_left
  apply List.mem_append_right
  exact List.mem_map.mpr ⟨object, List.mem_filter.mpr ⟨hobject, finished_deletable h hclean hobject⟩, rfl⟩

theorem reportsOf_pass {s₀ : Desk} (h : RunInv W known s₀ s) (hclean : CleanPass W s p) :
    (s.pass W p).tally mail [] = (s.looped W p).tally mail (s.fates W p) := by
  rw [pass_clean hclean h.genuine, Desk.tally, Desk.tally]
  simp only [arrivals, List.filterMap_nil, List.countP_nil, Nat.add_zero]
  unfold Desk.reportsOf Desk.note Desk.settled
  simp only [List.countP_append, List.countP_map]
  have hacks : (if p.ack.carriedOut then
      (ackRows p.foreign (s.fates W p)).map fun m => DeskEvent.acked m p.peers else []).countP
        (DeskEvent.reports mail) = 0 := by
    rw [List.countP_eq_zero]
    intro e he
    split_ifs at he
    · obtain ⟨m, -, rfl⟩ := List.mem_map.mp he
      exact Bool.false_ne_true
    · cases he
  rw [hacks, Nat.add_zero]
  have hdeletes : ((finishedObjects (s.fates W p)).filter p.delete).countP
      (DeskEvent.reports mail ∘ DeskEvent.deleted) = 0 := by
    rw [List.countP_eq_zero]
    intro object _
    exact Bool.false_ne_true
  rw [hdeletes, Nat.add_zero]
  rfl

end PassInvariant

/-! ## A run keeps it -/

section RunInvariant
variable {W : World} {p : Pass} {s s₀ : Desk} {mail : String} {known : String → Prop}

theorem mem_pass {e : DeskEvent} (hclean : CleanPass W s p) (hs : s.Genuine W) :
    e ∈ (s.pass W p).log ↔ e ∈ (s.looped W p).log ∨
      (p.ack.carriedOut = true ∧ ∃ m ∈ ackRows p.foreign (s.fates W p), .acked m p.peers = e) ∨
        (∃ object ∈ (finishedObjects (s.fates W p)).filter p.delete, .deleted object = e) ∨
          ∃ f ∈ arrivals (s.fates W p), .reported f.1 f.2 = e := by
  rw [pass_clean hclean hs]
  unfold Desk.note Desk.settled
  simp only [List.mem_append, List.mem_map, or_assoc]
  split_ifs with hack
  · simp only [List.mem_map, hack, true_and]
  · simp only [hack, Bool.false_eq_true, false_and, List.not_mem_nil]

theorem Desk.looped_log (s : Desk) (h : LoopInv W p known (s.incoming p) (s.looped W p) (s.fates W p))
    {e : DeskEvent} (he : e ∈ s.log) : e ∈ (s.looped W p).log := by
  obtain ⟨es, hes⟩ := h.log
  rw [hes]
  exact List.mem_append_left es he

theorem pass_inv_at (h : RunInv W known s₀ s) (hclean : CleanPass W s p)
    (hloop : LoopInv W p known (s.incoming p) (s.looped W p) (s.fates W p)) (mail : String) :
    InvAt W (s.pass W p) mail [] := by
  have hmem : ∀ e, e ∈ (s.pass W p).log ↔ _ := fun e => mem_pass hclean h.genuine
  have hinv := hloop.inv mail
  have hheld : (s.pass W p).held = (s.looped W p).held := by
    rw [pass_clean hclean h.genuine]
    rfl
  have hspent : (s.pass W p).spent = (s.looped W p).spent := by
    rw [pass_clean hclean h.genuine]
    rfl
  have hfiles : (s.pass W p).files = (s.looped W p).files := by
    rw [pass_clean hclean h.genuine]
    rfl
  have hsettled : (s.pass W p).Settled mail ↔ (s.looped W p).Settled mail := by
    rw [Desk.Settled, Desk.Settled, hheld, hspent]
  constructor
  · rw [hheld, hspent, reportsOf_pass h hclean]
    exact hinv.held
  · rw [hspent, reportsOf_pass h hclean]
    exact hinv.fresh
  · rw [hsettled, reportsOf_pass h hclean]
    exact hinv.settled
  · rw [hsettled]
    intro hs n hn
    rcases hinv.finished hs n hn with hdeleted | hfinished
    · exact .inl ((hmem _).mpr (.inl hdeleted))
    · exact .inl (finished_deleted h hclean hfinished)
  · intro path bytes hstored
    rcases (hmem _).mp hstored with hstored | ⟨-, _, -, hkind⟩ | ⟨_, -, hkind⟩ | ⟨_, -, hkind⟩
    · obtain ⟨hs, hfile, file, hpath, htold⟩ := hinv.stored path bytes hstored
      refine ⟨hsettled.mpr hs, (congrFun hfiles path).trans hfile, file, hpath, .inl ?_⟩
      rcases htold with htold | htold
      · exact (hmem _).mpr (.inl htold)
      · exact (hmem _).mpr (.inr (.inr (.inr ⟨(mail, file), htold, rfl⟩)))
    all_goals cases hkind
  · intro path bytes hwrote
    apply hinv.wrote path bytes
    rcases hwrote with hwrote | hwrote
    · rcases (hmem _).mp hwrote with hwrote | ⟨-, _, -, hkind⟩ | ⟨_, -, hkind⟩ | ⟨_, -, hkind⟩
      · exact .inl hwrote
      all_goals cases hkind
    · rcases (hmem _).mp hwrote with hwrote | ⟨-, _, -, hkind⟩ | ⟨_, -, hkind⟩ | ⟨_, -, hkind⟩
      · exact .inr hwrote
      all_goals cases hkind

/-- An acknowledged row is one that is not for this device, or one a pass is done with. -/
theorem acked_row {m : MailRow} (h : RunInv W known s₀ s) (hclean : CleanPass W s p)
    (hloop : LoopInv W p known (s.incoming p) (s.looped W p) (s.fates W p))
    (hm : m ∈ ackRows p.foreign (s.fates W p)) :
    (m.fromDevice ∉ p.peers ∨ m.kind ≠ transferKind ∧ m.kind ≠ clipboardKind) ∨
      W.Unsigned p m ∨ (s.pass W p).Settled m.sealed := by
  have hfate : ∀ x ∈ s.fates W p, x.2.isDone = true ∨ x.2.isUnusable = true →
      W.Unsigned p x.1 ∨ (s.pass W p).Settled x.1.sealed := by
    intro x hx hdone
    rw [pass_clean hclean h.genuine]
    exact hloop.settled x hx hdone
  unfold ackRows at hm
  rcases List.mem_append.mp hm with hm | hm
  · obtain ⟨x, hx, rfl⟩ := List.mem_map.mp hm
    obtain ⟨hx, hdone⟩ := List.mem_filter.mp hx
    exact .inr (hfate x hx (.inl hdone))
  · rcases List.mem_append.mp hm with hm | hm
    · left
      have hforeign := (List.mem_filter.mp hm).2
      simpa [Pass.isForeign] using hforeign
    · obtain ⟨x, hx, rfl⟩ := List.mem_map.mp hm
      obtain ⟨hx, hunusable⟩ := List.mem_filter.mp hx
      exact .inr (hfate x hx (.inr hunusable))

theorem pass_inv (h : RunInv W known s₀ s) (hclean : CleanPass W s p)
    (hknown : ∀ m ∈ p.notices, known m.sealed)
    (hapart : ∀ mail other n n', known mail → known other → W.noticeOf mail = some n →
      W.noticeOf other = some n' → n.id = n'.id → mail = other) :
    RunInv W known s₀ (s.pass W p) := by
  have hloop := loop_inv h hclean hknown hapart
  have hmem : ∀ e, e ∈ (s.pass W p).log ↔ _ := fun e => mem_pass hclean h.genuine
  have hstays : ∀ mail, s.Settled mail → (s.pass W p).Settled mail := by
    intro mail hs
    rw [pass_clean hclean h.genuine]
    exact hloop.stays mail hs
  have hinv := pass_inv_at h hclean hloop
  constructor
  · rw [pass_clean hclean h.genuine]
    exact hloop.genuine
  · rw [pass_clean hclean h.genuine]
    exact hloop.ours
  · exact hinv
  · intro path hpath
    rw [pass_clean hclean h.genuine]
    exact (hloop.files path hpath).trans (h.files path hpath)
  · intro m peers hacked
    rcases (hmem _).mp hacked with hacked | ⟨-, row, hrow, hkind⟩ | ⟨_, -, hkind⟩ | ⟨_, -, hkind⟩
    · exact (h.acked m peers (hloop.acks m peers hacked)).imp_right (hstays m.sealed)
    · cases hkind
      rcases acked_row h hclean hloop hrow with (hlabel | hkind) | (hlegacy | hsigner) | hs
      · exact .inl (.inl hlabel)
      · exact .inl (.inr (.inl hkind))
      · exact .inl (.inr (.inr (.inl hlegacy)))
      · exact .inl (.inr (.inr (.inr (.inl hsigner))))
      · exact .inr hs
    all_goals cases hkind
  · intro m peers n hacked hkind hlabel hlegacy hn hsigner
    rcases (hmem _).mp hacked with hacked | ⟨-, row, hrow, hevent⟩ | ⟨_, -, hevent⟩ | ⟨_, -, hevent⟩
    · apply (hmem _).mpr
      exact .inl (s.looped_log hloop
        (h.deleted m peers n (hloop.acks m peers hacked) hkind hlabel hlegacy hn hsigner))
    · cases hevent
      rcases acked_row h hclean hloop hrow with (hnot | hnot) | (hnot | hnot) | hs
      · exact absurd hlabel hnot
      · exact absurd hkind hnot.1
      · rw [hlegacy] at hnot
        cases hnot
      · obtain ⟨o, ho, -⟩ := Option.bind_eq_some_iff.mp hn
        exact absurd (hsigner o ho) (hnot o ho)
      · rcases (hinv m.sealed).finished hs n hn with hdeleted | hfinished
        · exact hdeleted
        · cases hfinished
    all_goals cases hevent

theorem start_inv (files : List String → Option Bytes) (objects : String → Option Bytes) :
    RunInv W known (.start files objects) (.start files objects) where
  genuine mail o ho := by cases ho
  ours mail hs := by cases hs
  inv mail := by
    constructor
    · intro o ho
      cases ho
    · intro _
      rfl
    · rintro ⟨hs, -⟩
      cases hs
    · rintro ⟨hs, -⟩
      cases hs
    · intro path bytes hstored
      cases hstored
    · intro path bytes hwrote
      rcases hwrote with hwrote | hwrote <;> cases hwrote
  files path _ := rfl
  acked m peers hacked := by cases hacked
  deleted m peers n hacked := by cases hacked

theorem run_inv {passes : List Pass} (h : RunInv W known s₀ s) (hclean : CleanRun W s passes)
    (hknown : ∀ mail, Known passes mail → known mail)
    (hapart : ∀ mail other n n', known mail → known other → W.noticeOf mail = some n →
      W.noticeOf other = some n' → n.id = n'.id → mail = other) :
    RunInv W known s₀ (s.run W passes) := by
  induction passes generalizing s with
  | nil => exact h
  | cons p rest ih =>
    apply ih
    · exact pass_inv h hclean.1 (fun m hm => hknown _ ⟨p, List.mem_cons_self, m, hm, rfl⟩) hapart
    · exact hclean.2
    · rintro mail ⟨q, hq, m, hm, rfl⟩
      exact hknown _ ⟨q, List.mem_cons_of_mem p hq, m, hm, rfl⟩

end RunInvariant

/-! ## The rest of the mailbox does not matter -/

section Independence
variable {W : World} {p : Pass} {s t : Desk} {mail : String} {known : String → Prop}

theorem only_notices : (p.only mail).notices = p.notices.filter fun m => m.sealed = mail := by
  unfold Pass.notices Pass.only
  cases p.listing with
  | none => rfl
  | some messages =>
    simp only [Option.map_some, Option.getD_some, List.filter_filter]
    congr 1
    funext m
    exact Bool.and_comm _ _

theorem only_foreign : (p.only mail).foreign = p.foreign.filter fun m => m.sealed = mail := by
  unfold Pass.foreign Pass.only
  cases p.listing with
  | none => rfl
  | some messages =>
    simp only [Option.map_some, Option.getD_some, List.filter_filter]
    congr 1
    funext m
    exact Bool.and_comm _ _

/-- The loop does not look at the listing. -/
theorem handleAll_only (ms : List MailRow) (s : Desk) :
    handleAll W (p.only mail) s ms = handleAll W p s ms := by
  induction ms generalizing s with
  | nil => rfl
  | cons m rest ih =>
    have hopen : openMail W (p.only mail) = openMail W p := rfl
    have hwrite : writeFile (p.only mail) = writeFile p := rfl
    have hfetch : fetchObject (p.only mail) = fetchObject p := rfl
    have hblob : openBytes W (p.only mail) = openBytes W p := rfl
    have hstep : handleNotice W (p.only mail) s m = handleNotice W p s m := by
      unfold handleNotice takeNotice receive store
      rw [hopen, hwrite, hfetch, hblob]
      rfl
    rw [handleAll, handleAll, hstep]
    simp only [ih]

theorem ackRows_filter (rows : List MailRow) (fates : List (MailRow × Fate)) :
    (ackRows rows fates).filter (fun m => m.sealed = mail) =
      ackRows (rows.filter fun m => m.sealed = mail) (ofMail mail fates) := by
  unfold ackRows ofMail
  simp only [List.filter_append, List.filter_map, List.filter_filter, Function.comp_def,
    Bool.and_comm]

theorem arrivals_filter (fates : List (MailRow × Fate)) :
    (arrivals fates).filter (fun f => f.1 = mail) = arrivals (ofMail mail fates) := by
  unfold arrivals ofMail
  rw [List.filter_filterMap, List.filterMap_filter]
  congr 1
  funext x
  by_cases hx : x.1.sealed = mail
  · cases x.2.file <;> simp [hx]
  · cases x.2.file <;> simp [hx]

theorem objectName_injective {a b : String} (h : objectName a = objectName b) : a = b := by
  unfold objectName at h
  have hlist := congrArg String.toList h
  rw [String.toList_append, String.toList_append] at hlist
  exact String.toList_injective (List.append_cancel_left hlist)

/-- The pass with one mail's rows only is as clean. -/
theorem CleanPass.only (hclean : CleanPass W s p) (hagree : Agree W (known mail) mail s t)
    (hknown : ∀ m ∈ p.notices, known m.sealed) : CleanPass W t (p.only mail) := by
  have hm : ∀ m ∈ (p.only mail).notices, m ∈ p.notices ∧ m.sealed = mail := by
    intro m hm
    rw [only_notices] at hm
    obtain ⟨hm, hmail⟩ := List.mem_filter.mp hm
    exact ⟨hm, by simpa using hmail⟩
  constructor
  · intro m hmem
    exact hclean.readable m (hm m hmem).1
  · exact hclean.quarantine
  · intro m hmem hspent
    obtain ⟨hmem, hmail⟩ := hm m hmem
    apply hclean.opens m hmem
    rw [hmail, hagree.spent, ← hmail, hspent]
  · rcases hclean.ack with hack | hgone
    · exact .inl hack
    · right
      intro m hmem n hn
      obtain ⟨hmem, hmail⟩ := hm m hmem
      have hsame := hagree.object (hmail ▸ hknown m hmem) n (hmail ▸ hn)
      have hnone := hgone m hmem n hn
      unfold fetchObject Desk.incoming at hnone ⊢
      simp only [hsame] at hnone
      exact hnone
  · intro m hmem n hn
    exact hclean.deletes m (hm m hmem).1 n hn

theorem Agree.incoming (h : Agree W (known mail) mail s t) (p : Pass) :
    Agree W (known mail) mail (s.incoming p) (t.incoming p) where
  held := h.held
  spent := h.spent
  object hlive n hn := by
    unfold Desk.incoming
    simp only [h.object hlive n hn]
  about := h.about
  genuine := h.genuine

theorem finished_only {fates : List (MailRow × Fate)} {n : TransferNotice}
    (hfates : ∀ x ∈ fates, known x.1.sealed ∧ Named W p s x) (hlive : known mail)
    (hn : W.noticeOf mail = some n)
    (hapart : ∀ mail other n n', known mail → known other → W.noticeOf mail = some n →
      W.noticeOf other = some n' → n.id = n'.id → mail = other) :
    objectName n.id ∈ finishedObjects fates ↔
      objectName n.id ∈ finishedObjects (ofMail mail fates) := by
  constructor
  · intro hmem
    obtain ⟨x, hx, hfinished⟩ := List.mem_filterMap.mp hmem
    obtain ⟨hknown, hnamed, -⟩ := hfates x hx
    obtain ⟨n', hn', hname, -⟩ := hnamed _ hfinished
    have hmail := hapart mail x.1.sealed n n' hlive hknown hn hn' (objectName_injective hname)
    exact List.mem_filterMap.mpr ⟨x, List.mem_filter.mpr ⟨hx, by simp [hmail]⟩, hfinished⟩
  · intro hmem
    obtain ⟨x, hx, hfinished⟩ := List.mem_filterMap.mp hmem
    exact List.mem_filterMap.mpr ⟨x, (List.mem_filter.mp hx).1, hfinished⟩

theorem pass_agree (h : Agree W (known mail) mail s t) (hs : s.Genuine W) (ht : t.Genuine W)
    (hclean : CleanPass W s p) (hknown : ∀ m ∈ p.notices, known m.sealed)
    (hapart : ∀ mail other n n', known mail → known other → W.noticeOf mail = some n →
      W.noticeOf other = some n' → n.id = n'.id → mail = other) :
    Agree W (known mail) mail (s.pass W p) (t.pass W (p.only mail)) := by
  have honly := hclean.only h hknown
  obtain ⟨hdesk, hfates⟩ := handleAll_agree (p := p) p.notices
    (fun m hm hmail => hmail ▸ hknown m hm) (h.incoming p) hs hclean.readable
  have hsolo : handleAll W (p.only mail) (t.incoming (p.only mail)) (p.only mail).notices =
      handleAll W p (t.incoming p) (p.notices.filter fun m => m.sealed = mail) := by
    rw [only_notices, handleAll_only]
    rfl
  have hfates' : t.fates W (p.only mail) = ofMail mail (s.fates W p) := by
    rw [Desk.fates, hsolo, ← hfates]
  have hdesk' : Agree W (known mail) mail (s.looped W p) (t.looped W (p.only mail)) := by
    rw [Desk.looped, Desk.looped, hsolo]
    exact hdesk
  have hnamed : ∀ x ∈ s.fates W p, known x.1.sealed ∧ Named W p (s.incoming p) x := by
    intro x hx
    obtain ⟨hm, hx⟩ := (fates_named hclean hs).2 x hx
    exact ⟨hknown x.1 hm, hx⟩
  rw [pass_clean hclean hs, pass_clean honly ht]
  constructor
  · exact hdesk'.held
  · exact hdesk'.spent
  · intro hlive n hn
    show (if p.delete (objectName n.id) = true ∧ objectName n.id ∈ finishedObjects (s.fates W p)
        then none else (s.looped W p).objects (objectName n.id)) =
      if p.delete (objectName n.id) = true ∧
          objectName n.id ∈ finishedObjects (t.fates W (p.only mail))
        then none else (t.looped W (p.only mail)).objects (objectName n.id)
    rw [hfates', hdesk'.object hlive n hn]
    simp only [finished_only hnamed hlive hn hapart]
  · have hacks : ∀ rows : List MailRow,
        ((if p.ack.carriedOut then rows.map fun m => DeskEvent.acked m p.peers else []).filter
          (DeskEvent.concerns mail)) = if p.ack.carriedOut then
            (rows.filter fun m => m.sealed = mail).map fun m => DeskEvent.acked m p.peers else [] := by
      intro rows
      split_ifs
      · rw [List.filter_map]
        rfl
      · rfl
    have hdeletes : ∀ objects : List String,
        (objects.map DeskEvent.deleted).filter (DeskEvent.concerns mail) = [] := by
      intro objects
      rw [List.filter_map, List.map_eq_nil_iff, List.filter_eq_nil_iff]
      intro object _
      exact Bool.false_ne_true
    have hreports : ∀ files : List (String × ArrivedFile),
        (files.map fun f => DeskEvent.reported f.1 f.2).filter (DeskEvent.concerns mail) =
          (files.filter fun f => f.1 = mail).map fun f => DeskEvent.reported f.1 f.2 := by
      intro files
      rw [List.filter_map]
      rfl
    have hidem : ofMail mail (ofMail mail (s.fates W p)) = ofMail mail (s.fates W p) := by
      unfold ofMail
      rw [List.filter_filter]
      simp
    have habout := hdesk'.about
    unfold Desk.about at habout ⊢
    unfold Desk.note Desk.settled
    simp only [List.filter_append, habout, hdeletes, hreports]
    rw [hacks, show (p.only mail).ack = p.ack from rfl, show (p.only mail).peers = p.peers from rfl,
      hacks, ackRows_filter, ackRows_filter, arrivals_filter, arrivals_filter, hfates', hidem,
      only_foreign, List.filter_filter]
    simp
  · exact hdesk'.genuine

theorem run_agree {passes : List Pass} (h : Agree W (known mail) mail s t) (hs : s.Genuine W)
    (ht : t.Genuine W) (hclean : CleanRun W s passes)
    (hknown : ∀ mail, Known passes mail → known mail)
    (hapart : ∀ mail other n n', known mail → known other → W.noticeOf mail = some n →
      W.noticeOf other = some n' → n.id = n'.id → mail = other) :
    Agree W (known mail) mail (s.run W passes) (t.run W (passes.map fun p => p.only mail)) := by
  induction passes generalizing s t with
  | nil => exact h
  | cons p rest ih =>
    have hnotices : ∀ m ∈ p.notices, known m.sealed :=
      fun m hm => hknown _ ⟨p, List.mem_cons_self, m, hm, rfl⟩
    have honly := hclean.1.only h hnotices
    apply ih (pass_agree h hs ht hclean.1 hnotices hapart)
    · rw [pass_clean hclean.1 hs]
      exact (fates_named hclean.1 hs).1
    · rw [pass_clean honly ht]
      exact (fates_named honly ht).1
    · exact hclean.2
    · rintro mail ⟨q, hq, m, hm, rfl⟩
      exact hknown _ ⟨q, List.mem_cons_of_mem p hq, m, hm, rfl⟩

end Independence

theorem transfers_stand_alone {W : World} {passes : List Pass} {files : List String → Option Bytes}
    {objects : String → Option Bytes} (hnames : OwnNames W (Known passes) (.start files objects))
    (hclean : CleanRun W (.start files objects) passes) :
    StandAlone W (.start files objects) passes := by
  have hrun : RunInv W (Known passes) _ _ :=
    run_inv (start_inv files objects) hclean (fun _ h => h) hnames.apart
  constructor
  · intro mail
    have hstart : RunInv W (Known passes) (.start files objects) (.start files objects) :=
      start_inv files objects
    exact (run_agree (.refl hstart.genuine mail) hstart.genuine hstart.genuine hclean
      (fun _ h => h) hnames.apart).about
  · intro mail
    have hinv := hrun.inv mail
    cases hspent : (Desk.run W (.start files objects) passes).spent mail with
    | false => exact (hinv.fresh hspent).le.trans (Nat.zero_le 1)
    | true =>
      cases hheld : (Desk.run W (.start files objects) passes).held mail with
      | some o => exact (hinv.held o hheld).2.le.trans (Nat.zero_le 1)
      | none =>
        rcases hinv.settled ⟨hspent, hheld⟩ with htally | ⟨htally, -⟩
        · exact htally.le
        · exact htally.le.trans (Nat.zero_le 1)
  · intro mail path bytes hstored
    obtain ⟨-, -, file, hpath, htold⟩ := (hrun.inv mail).stored path bytes hstored
    rcases htold with htold | htold
    · exact ⟨file, htold, hpath⟩
    · cases htold
  · intro mail hspent hheld
    exact ((hrun.inv mail).settled ⟨hspent, hheld⟩).imp_right And.right
  · intro m peers hacked
    rcases hrun.acked m peers hacked with hunusable | hs
    · exact .inl hunusable
    · rcases (hrun.inv m.sealed).settled hs with htally | ⟨-, hhopeless⟩
      · exact .inr htally
      · exact .inl (.inr (.inr (.inr (.inr hhopeless))))
  · intro path bytes hthere
    rcases hthere with hthere | ⟨mail, hstored⟩
    · rw [hrun.files path]
      · exact hthere
      · rintro mail n name hknown hn rfl
        rw [show (Desk.start files objects).files [n.id, name] = none from
          hnames.free mail n name hknown hn] at hthere
        cases hthere
    · exact ((hrun.inv mail).stored path bytes hstored).2.1
  · intro mail path hwrote
    exact (hrun.inv mail).wrote path [] (.inl hwrote)
  · exact hrun.deleted

/-! ## A mailbox with a notice in it -/

def toyNotice : OpenedMail := ⟨"desk", 1,
  "\x7b\"id\":\"0a1b2c3d\",\"key\":\"k\",\"name\":\"notes.txt\",\"sha256\":\"h\"\x7d"⟩

/-- Mail `a` holds a notice, mail `b` the text `null`; sealing changes nothing. -/
def toyWorld : World where
  mail sealed :=
    if sealed = "a" then some toyNotice
    else if sealed = "b" then some ⟨"desk", 2, "null"⟩
    else none
  openBlob _ _ := some [1, 2]
  sha256 _ := "h"
  authenticated h h' := Option.some.inj (h.symm.trans h')

/-- A pass on which everything works. -/
def toyPass (messages : List MailRow) : Pass where
  listing := some messages
  peers := ["desk"]
  change object := if object = "transfer:0a1b2c3d" then some (some [9]) else none
  sidecar _ := .answered
  fetch _ := true
  blob _ := true
  quarantine := true
  folder _ := true
  write _ := .ok
  ack := .ok
  delete _ := true

def toyRow (id : Nat) (sealed : String) : MailRow := ⟨id, "desk", "transfer", sealed⟩

def toyStart : Desk := .start (fun _ => none) fun _ => none

theorem toyPass_notices : (toyPass [toyRow 1 "a", ⟨2, "stranger", "transfer", "c"⟩]).notices =
    [toyRow 1 "a"] := by
  decide

theorem toyPass_clean : CleanPass toyWorld toyStart
    (toyPass [toyRow 1 "a", ⟨2, "stranger", "transfer", "c"⟩]) where
  readable m hm o ho hread := by
    rw [toyPass_notices] at hm
    rw [List.mem_singleton.mp hm] at ho
    cases ho
    have hsome : (noticeIn toyNotice).isSome = true := by decide +kernel
    rw [noticeIn, hread] at hsome
    cases hsome
  quarantine := rfl
  opens _ _ _ := rfl
  ack := .inl rfl
  deletes _ _ _ _ := rfl

theorem transfers_stand_alone_arriving :
    StandAlone toyWorld toyStart [toyPass [toyRow 1 "a", ⟨2, "stranger", "transfer", "c"⟩]] ∧
      (toyStart.run toyWorld [toyPass [toyRow 1 "a", ⟨2, "stranger", "transfer", "c"⟩]]).reportsOf
        "a" = 1 := by
  have hnames : OwnNames toyWorld
      (Known [toyPass [toyRow 1 "a", ⟨2, "stranger", "transfer", "c"⟩]]) toyStart := by
    refine ⟨?_, fun _ _ _ _ _ => rfl⟩
    rintro mail other n n' ⟨p, hp, m, hm, rfl⟩ ⟨p', hp', m', hm', rfl⟩ _ _ _
    rw [List.mem_singleton.mp hp, toyPass_notices] at hm
    rw [List.mem_singleton.mp hp', toyPass_notices] at hm'
    rw [List.mem_singleton.mp hm, List.mem_singleton.mp hm']
  exact ⟨transfers_stand_alone hnames ⟨toyPass_clean, trivial⟩, by decide +kernel⟩

/-- The notice behind `a` is stored; the payload `null` of the next one ends the pass, so nobody is
told of the file, and the pass after it acknowledges the notice as unusable. -/
theorem transfer_lost_to_another :
    ¬ StandAlone toyWorld toyStart
      [toyPass [toyRow 1 "a", toyRow 2 "b"], toyPass [toyRow 1 "a", toyRow 2 "b"]] := by
  intro h
  have hlog : (toyStart.run toyWorld
      [toyPass [toyRow 1 "a", toyRow 2 "b"], toyPass [toyRow 1 "a", toyRow 2 "b"]]).log =
      [.wrote "a" ["0a1b2c3d", "notes.txt"], .stored "a" ["0a1b2c3d", "notes.txt"] [1, 2],
        .acked (toyRow 1 "a") ["desk"], .acked (toyRow 2 "b") ["desk"]] := by
    decide +kernel
  obtain ⟨file, htold, -⟩ := h.told "a" ["0a1b2c3d", "notes.txt"] [1, 2] (by rw [hlog]; simp)
  rw [hlog] at htold
  simp at htold

end OpsMaxx.Transfer
