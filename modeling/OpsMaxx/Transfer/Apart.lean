import OpsMaxx.Transfer.Collect

/-! # A notice and the rest of the mailbox

Two desks agree on one mail when they hold the same of it, the sidecar has opened it in both or in
neither, the object it names is the same, and the same was done about it. What a pass does about
a mail keeps two desks in agreement, and what it does about another leaves the mail alone.
-/

set_option autoImplicit false

namespace OpsMaxx.Transfer

/-! ## One mail's part of things -/

def noticeIn (o : OpenedMail) : Option TransferNotice :=
  match readNotice o.payload with
  | .notice n => some n
  | _ => none

def World.noticeOf (W : World) (mail : String) : Option TransferNotice :=
  (W.mail mail).bind noticeIn

def DeskEvent.concerns (mail : String) : DeskEvent → Bool
  | .wrote m _ => m = mail
  | .stored m _ _ => m = mail
  | .acked row _ => row.sealed = mail
  | .deleted _ => false
  | .reported m _ => m = mail

def Desk.about (s : Desk) (mail : String) : List DeskEvent := s.log.filter (DeskEvent.concerns mail)

/-- The pass as it would be with the rows of one mail only. -/
def Pass.only (p : Pass) (mail : String) : Pass :=
  { p with listing := p.listing.map fun l => l.filter fun m => m.sealed = mail }

def Pass.notices (p : Pass) : List MailRow := (p.listing.getD []).filter p.isNotice

/-- The object counts only for a mail that is ever taken for a notice. -/
structure Agree (W : World) (live : Prop) (mail : String) (s t : Desk) : Prop where
  held : s.held mail = t.held mail
  spent : s.spent mail = t.spent mail
  object : live → ∀ n, W.noticeOf mail = some n → s.objects (objectName n.id) = t.objects (objectName n.id)
  about : s.about mail = t.about mail
  genuine : ∀ o, s.held mail = some o → W.mail mail = some o

section Agreement
variable {W : World} {live : Prop} {mail : String} {s t : Desk} {p : Pass}

theorem Agree.hold (h : Agree W live mail s t) {x : Option OpenedMail}
    (hx : ∀ o, x = some o → W.mail mail = some o) :
    Agree W live mail (s.hold mail x) (t.hold mail x) where
  held := by simp [Desk.hold]
  spent := h.spent
  object := h.object
  about := h.about
  genuine o ho := by
    apply hx
    simpa [Desk.hold] using ho

theorem Agree.spend (h : Agree W live mail s t) : Agree W live mail (s.spend mail) (t.spend mail) where
  held := h.held
  spent := by simp [Desk.spend]
  object := h.object
  about := h.about
  genuine := h.genuine

theorem Agree.note (h : Agree W live mail s t) (es : List DeskEvent) :
    Agree W live mail (s.note es) (t.note es) where
  held := h.held
  spent := h.spent
  object := h.object
  about := by
    have hlog := h.about
    unfold Desk.about at hlog ⊢
    simp only [Desk.note, List.filter_append, hlog]
  genuine := h.genuine

theorem Agree.files (h : Agree W live mail s t) (f g : List String → Option Bytes) :
    Agree W live mail { s with files := f } { t with files := g } :=
  ⟨h.held, h.spent, h.object, h.about, h.genuine⟩

theorem openMail_agree (h : Agree W live mail s t) :
    (openMail W p s mail).2 = (openMail W p t mail).2 ∧
      Agree W live mail (openMail W p s mail).1 (openMail W p t mail).1 ∧
      ∀ o, (openMail W p s mail).2 = some o → W.mail mail = some o := by
  unfold openMail
  rw [← h.spent]
  split_ifs
  · exact ⟨rfl, h, fun o ho => by cases ho⟩
  · cases hmail : W.mail mail with
    | none => exact ⟨rfl, h, fun o ho => by cases ho⟩
    | some o =>
      simp only
      split_ifs
      · cases p.sidecar mail with
        | answered => exact ⟨rfl, h.spend, fun _ ho => ho⟩
        | down => exact ⟨rfl, h, fun o ho => by cases ho⟩
        | lost => exact ⟨rfl, h.spend, fun o ho => by cases ho⟩
      · exact ⟨rfl, h, fun o ho => by cases ho⟩

theorem takeNotice_agree (h : Agree W live mail s t) :
    (takeNotice W p s mail).2 = (takeNotice W p t mail).2 ∧
      Agree W live mail (takeNotice W p s mail).1 (takeNotice W p t mail).1 ∧
      ∀ o, (takeNotice W p s mail).2 = some o → W.mail mail = some o := by
  unfold takeNotice
  rw [← h.held]
  cases hheld : s.held mail with
  | none => exact openMail_agree h
  | some o => exact ⟨rfl, h.hold (fun _ ho => by cases ho), fun _ ho => by rw [← ho, h.genuine o hheld]⟩

theorem writeFile_agree (h : Agree W live mail s t) (m : String) (path : List String) (bytes : Bytes) :
    (writeFile p s m path bytes).2 = (writeFile p t m path bytes).2 ∧
      Agree W live mail (writeFile p s m path bytes).1 (writeFile p t m path bytes).1 := by
  unfold writeFile
  split_ifs
  · exact ⟨rfl, h⟩
  · cases p.write path with
    | ok => exact ⟨rfl, (h.files _ _).note _⟩
    | failed left =>
      cases left with
      | none => exact ⟨rfl, h.note _⟩
      | some left => exact ⟨rfl, (h.files _ _).note _⟩

theorem store_agree (h : Agree W live mail s t) (m : String) (n : TransferNotice) (bytes : Bytes) :
    (store p s m n bytes).2 = (store p t m n bytes).2 ∧
      Agree W live mail (store p s m n bytes).1 (store p t m n bytes).1 := by
  unfold store
  split_ifs
  · cases n.name with
    | none => exact ⟨rfl, h⟩
    | some name =>
      cases name with
      | str name =>
        obtain ⟨hsame, hagree⟩ := writeFile_agree (p := p) h m (joinName [n.id] (safeName name)) bytes
        simp only
        cases hs : writeFile p s m (joinName [n.id] (safeName name)) bytes with
        | mk s₁ b =>
          cases ht : writeFile p t m (joinName [n.id] (safeName name)) bytes with
          | mk t₁ b' =>
            rw [hs, ht] at hsame hagree
            cases hsame
            cases b with
            | true => exact ⟨rfl, hagree⟩
            | false => exact ⟨rfl, hagree⟩
      | null | bool | num | arr | obj => exact ⟨rfl, h⟩
  · exact ⟨rfl, h⟩

theorem receive_agree (hlive : live) (h : Agree W live mail s t) {m : MailRow} (hm : m.sealed = mail) {o : OpenedMail}
    (ho : W.mail mail = some o) {n : TransferNotice} (hn : readNotice o.payload = .notice n) :
    (receive W p s m o n).2 = (receive W p t m o n).2 ∧
      Agree W live mail (receive W p s m o n).1 (receive W p t m o n).1 := by
  have hheld : ∀ x, some o = some x → W.mail mail = some x := fun x hx => by rw [← hx, ho]
  have hnotice : W.noticeOf mail = some n := by
    unfold World.noticeOf noticeIn
    rw [ho, Option.bind_some, hn]
  have hfetch : fetchObject p s (objectName n.id) = fetchObject p t (objectName n.id) := by
    unfold fetchObject
    rw [h.object hlive n hnotice]
  unfold receive
  simp only [hfetch, hm]
  cases (fetchObject p t (objectName n.id)).bind (openBytes W p n.key (objectName n.id)) with
  | none => exact ⟨rfl, h.hold hheld⟩
  | some bytes =>
    simp only
    split_ifs
    · obtain ⟨hsame, hagree⟩ := store_agree (p := p) h mail n bytes
      cases hs : store p s mail n bytes with
      | mk s₁ b =>
        cases ht : store p t mail n bytes with
        | mk t₁ b' =>
          rw [hs, ht] at hsame hagree
          cases hsame
          cases b with
          | none => exact ⟨rfl, hagree.hold hheld⟩
          | some stored => exact ⟨rfl, hagree⟩
    · exact ⟨rfl, h⟩

theorem handleNotice_agree (hlive : live) (h : Agree W live mail s t) {m : MailRow} (hm : m.sealed = mail) :
    (handleNotice W p s m).2 = (handleNotice W p t m).2 ∧
      Agree W live mail (handleNotice W p s m).1 (handleNotice W p t m).1 := by
  obtain ⟨hsame, hagree, hgenuine⟩ := takeNotice_agree (p := p) h
  unfold handleNotice
  rw [hm]
  cases hs : takeNotice W p s mail with
  | mk s₁ o =>
    cases ht : takeNotice W p t mail with
    | mk t₁ o' =>
      rw [hs, ht] at hsame hagree
      rw [hs] at hgenuine
      cases hsame
      cases o with
      | none => exact ⟨rfl, hagree⟩
      | some o =>
        simp only
        cases hread : readNotice o.payload with
        | unreadable | nothing | malformed => exact ⟨rfl, hagree⟩
        | notice n => exact receive_agree hlive hagree hm (hgenuine o rfl) hread

end Agreement

/-! ## Another mail -/

/-- The desk after something was done about other mails only. -/
structure Untouched (mail : String) (s s' : Desk) : Prop where
  held : s'.held mail = s.held mail
  spent : s'.spent mail = s.spent mail
  objects : s'.objects = s.objects
  log : ∃ es, s'.log = s.log ++ es ∧ ∀ e ∈ es, e.concerns mail = false

section Others
variable {W : World} {live : Prop} {mail other : String} {s s' s'' : Desk} {p : Pass}

theorem Untouched.refl (mail : String) (s : Desk) : Untouched mail s s :=
  ⟨rfl, rfl, rfl, [], by simp, by simp⟩

theorem Untouched.trans (h : Untouched mail s s') (h' : Untouched mail s' s'') :
    Untouched mail s s'' where
  held := h'.held.trans h.held
  spent := h'.spent.trans h.spent
  objects := h'.objects.trans h.objects
  log := by
    obtain ⟨es, hes, hnot⟩ := h.log
    obtain ⟨es', hes', hnot'⟩ := h'.log
    refine ⟨es ++ es', by rw [hes', hes, List.append_assoc], ?_⟩
    intro e he
    rcases List.mem_append.mp he with he | he
    · exact hnot e he
    · exact hnot' e he

theorem Untouched.about (h : Untouched mail s s') : s'.about mail = s.about mail := by
  obtain ⟨es, hes, hnot⟩ := h.log
  have hnone : es.filter (DeskEvent.concerns mail) = [] := by
    apply List.filter_eq_nil_iff.mpr
    intro e he
    rw [hnot e he]
    exact Bool.false_ne_true
  unfold Desk.about
  rw [hes, List.filter_append, hnone, List.append_nil]

theorem Untouched.hold (hne : other ≠ mail) (x : Option OpenedMail) :
    Untouched mail s (s.hold other x) :=
  ⟨Function.update_of_ne hne.symm _ _, rfl, rfl, [], by simp [Desk.hold], by simp⟩

theorem Untouched.spend (hne : other ≠ mail) : Untouched mail s (s.spend other) :=
  ⟨rfl, Function.update_of_ne hne.symm _ _, rfl, [], by simp [Desk.spend], by simp⟩

theorem Untouched.wrote {es : List DeskEvent} (f : List String → Option Bytes)
    (hnot : ∀ e ∈ es, e.concerns mail = false) :
    Untouched mail s ({ s with files := f }.note es) :=
  ⟨rfl, rfl, rfl, es, rfl, hnot⟩

theorem takeNotice_other (hne : other ≠ mail) : Untouched mail s (takeNotice W p s other).1 := by
  unfold takeNotice
  cases s.held other with
  | some o => exact .hold hne _
  | none =>
    simp only
    unfold openMail
    split_ifs
    · exact .refl _ _
    · cases W.mail other with
      | none => exact .refl _ _
      | some o =>
        simp only
        split_ifs
        · cases p.sidecar other with
          | answered => exact .spend hne
          | down => exact .refl _ _
          | lost => exact .spend hne
        · exact .refl _ _

theorem writeFile_other (hne : other ≠ mail) (path : List String) (bytes : Bytes) :
    Untouched mail s (writeFile p s other path bytes).1 := by
  unfold writeFile
  split_ifs
  · exact .refl _ _
  · cases p.write path with
    | ok => exact .wrote _ (by simp [DeskEvent.concerns, hne])
    | failed left =>
      cases left with
      | none => exact .wrote s.files (by simp [DeskEvent.concerns, hne])
      | some left => exact .wrote _ (by simp [DeskEvent.concerns, hne])

theorem store_other (hne : other ≠ mail) (n : TransferNotice) (bytes : Bytes) :
    Untouched mail s (store p s other n bytes).1 := by
  unfold store
  split_ifs
  · cases n.name with
    | none => exact .refl _ _
    | some name =>
      cases name with
      | str name =>
        have h := writeFile_other (p := p) (s := s) hne (joinName [n.id] (safeName name)) bytes
        simp only
        cases hs : writeFile p s other (joinName [n.id] (safeName name)) bytes with
        | mk s₁ b =>
          rw [hs] at h
          cases b with
          | true => exact h
          | false => exact h
      | null | bool | num | arr | obj => exact .refl _ _
  · exact .refl _ _

theorem receive_other {m : MailRow} (hne : m.sealed ≠ mail) (o : OpenedMail) (n : TransferNotice) :
    Untouched mail s (receive W p s m o n).1 := by
  unfold receive
  simp only
  cases (fetchObject p s (objectName n.id)).bind (openBytes W p n.key (objectName n.id)) with
  | none => exact .hold hne _
  | some bytes =>
    simp only
    split_ifs
    · have h := store_other (p := p) (s := s) hne n bytes
      cases hs : store p s m.sealed n bytes with
      | mk s₁ b =>
        rw [hs] at h
        cases b with
        | none => exact h.trans (.hold hne _)
        | some stored => exact h
    · exact .refl _ _

theorem handleNotice_other {m : MailRow} (hne : m.sealed ≠ mail) :
    Untouched mail s (handleNotice W p s m).1 := by
  have h := takeNotice_other (W := W) (p := p) (s := s) hne
  unfold handleNotice
  cases hs : takeNotice W p s m.sealed with
  | mk s₁ o =>
    rw [hs] at h
    cases o with
    | none => exact h
    | some o =>
      simp only
      cases readNotice o.payload with
      | unreadable | nothing | malformed => exact h
      | notice n => exact h.trans (receive_other hne o n)

theorem Agree.untouched (h : Agree W live mail s s') (hs : Untouched mail s s'') :
    Agree W live mail s'' s' where
  held := hs.held.trans h.held
  spent := hs.spent.trans h.spent
  object hlive n hn := by rw [hs.objects, h.object hlive n hn]
  about := hs.about.trans h.about
  genuine o ho := h.genuine o (by rw [← hs.held, ho])

end Others

/-! ## The loop -/

def Desk.Genuine (W : World) (s : Desk) : Prop :=
  ∀ mail o, s.held mail = some o → W.mail mail = some o

/-- The payload is not the value on which the checks throw. -/
def World.Readable (W : World) (mail : String) : Prop :=
  ∀ o, W.mail mail = some o → readNotice o.payload ≠ .nothing

section Loop
variable {W : World} {live : Prop} {mail : String} {s t : Desk} {p : Pass}

theorem Agree.refl (hs : s.Genuine W) (mail : String) : Agree W live mail s s :=
  ⟨rfl, rfl, fun _ _ _ => rfl, rfl, hs mail⟩

theorem handleNotice_genuine (hs : s.Genuine W) (m : MailRow) :
    (handleNotice W p s m).1.Genuine W := by
  intro mail
  by_cases hm : m.sealed = mail
  · exact (handleNotice_agree trivial (.refl hs mail) hm).2.genuine
  · intro o ho
    apply hs mail
    rw [← (handleNotice_other hm).held, ho]

theorem receive_no_throw (m : MailRow) (o : OpenedMail) (n : TransferNotice) :
    (receive W p s m o n).2 ≠ .threw := by
  unfold receive
  simp only
  split
  · exact Fate.noConfusion
  · split_ifs
    · split <;> exact Fate.noConfusion
    · exact Fate.noConfusion

theorem handleNotice_no_throw (hs : s.Genuine W) {m : MailRow} (hm : W.Readable m.sealed) :
    (handleNotice W p s m).2 ≠ .threw := by
  have hrefl : Agree W True m.sealed s s := .refl hs m.sealed
  have hgenuine := (takeNotice_agree (p := p) hrefl).2.2
  unfold handleNotice
  cases htake : takeNotice W p s m.sealed with
  | mk s₁ o =>
    rw [htake] at hgenuine
    cases o with
    | none => exact Fate.noConfusion
    | some o =>
      simp only
      cases hread : readNotice o.payload with
      | nothing => exact absurd hread (hm o (hgenuine o rfl))
      | unreadable | malformed => exact Fate.noConfusion
      | notice n => exact receive_no_throw m o n

theorem handleAll_cons {m : MailRow} {rest : List MailRow} (h : (handleNotice W p s m).2 ≠ .threw) :
    handleAll W p s (m :: rest) = ((handleAll W p (handleNotice W p s m).1 rest).1,
      (m, (handleNotice W p s m).2) :: (handleAll W p (handleNotice W p s m).1 rest).2.1,
      (handleAll W p (handleNotice W p s m).1 rest).2.2) := by
  rw [handleAll]
  cases hstep : handleNotice W p s m with
  | mk s₁ fate =>
    rw [hstep] at h
    cases fate with
    | threw => exact absurd rfl h
    | unopened | unusable | retried | arrived => rfl

theorem handleAll_no_throw {ms : List MailRow} (hs : s.Genuine W)
    (hms : ∀ m ∈ ms, W.Readable m.sealed) : (handleAll W p s ms).2.2 = false := by
  induction ms generalizing s with
  | nil => rfl
  | cons m rest ih =>
    rw [handleAll_cons (handleNotice_no_throw hs (hms m List.mem_cons_self))]
    exact ih (handleNotice_genuine hs m) fun x hx => hms x (List.mem_cons_of_mem m hx)

def ofMail (mail : String) (fates : List (MailRow × Fate)) : List (MailRow × Fate) :=
  fates.filter fun x => x.1.sealed = mail

theorem handleAll_agree (ms : List MailRow) (hlive : ∀ m ∈ ms, m.sealed = mail → live)
    (h : Agree W live mail s t) (hs : s.Genuine W) (hms : ∀ m ∈ ms, W.Readable m.sealed) :
    Agree W live mail (handleAll W p s ms).1
        (handleAll W p t (ms.filter fun m => m.sealed = mail)).1 ∧
      ofMail mail (handleAll W p s ms).2.1 =
        (handleAll W p t (ms.filter fun m => m.sealed = mail)).2.1 := by
  induction ms generalizing s t with
  | nil => exact ⟨h, rfl⟩
  | cons m rest ih =>
    have hrest : ∀ x ∈ rest, W.Readable x.sealed := fun x hx => hms x (List.mem_cons_of_mem m hx)
    have hliveRest : ∀ x ∈ rest, x.sealed = mail → live :=
      fun x hx => hlive x (List.mem_cons_of_mem m hx)
    have hstep := handleNotice_no_throw (p := p) hs (hms m List.mem_cons_self)
    rw [handleAll_cons hstep]
    by_cases hm : m.sealed = mail
    · obtain ⟨hsame, hagree⟩ :=
        handleNotice_agree (p := p) (hlive m List.mem_cons_self hm) h hm
      obtain ⟨hdesk, hfates⟩ := ih hliveRest hagree (handleNotice_genuine hs m) hrest
      rw [List.filter_cons_of_pos (by simpa using hm), handleAll_cons (hsame ▸ hstep)]
      refine ⟨hdesk, ?_⟩
      show ofMail mail (_ :: _) = _
      unfold ofMail at hfates ⊢
      rw [List.filter_cons_of_pos (by simpa using hm), hfates, hsame]
    · obtain ⟨hdesk, hfates⟩ := ih hliveRest (h.untouched (handleNotice_other hm))
        (handleNotice_genuine hs m) hrest
      rw [List.filter_cons_of_neg (by simpa using hm)]
      refine ⟨hdesk, ?_⟩
      show ofMail mail (_ :: _) = _
      unfold ofMail at hfates ⊢
      rw [List.filter_cons_of_neg (by simpa using hm), hfates]

end Loop

/-! ## What comes after the loop -/

def AckAnswer.carriedOut : AckAnswer → Bool
  | .ok => true
  | .refused => false
  | .threw carriedOut => carriedOut

def ackRows (rows : List MailRow) (fates : List (MailRow × Fate)) : List MailRow :=
  (fates.filter fun x => x.2.isDone).map Prod.fst ++
    (rows ++ (fates.filter fun x => x.2.isUnusable).map Prod.fst)

def told (r : Except CollectError (List (String × ArrivedFile))) : List (String × ArrivedFile) :=
  match r with
  | .ok files => files
  | .error _ => []

/-- The desk with these rows acknowledged and these objects deleted. -/
def Desk.settled (p : Pass) (s : Desk) (rows : List MailRow) (objects : List String) : Desk :=
  { s with
    objects := fun name => if p.delete name = true ∧ name ∈ objects then none else s.objects name
    log := s.log ++ (if p.ack.carriedOut then rows.map fun m => .acked m p.peers else []) ++
      (objects.filter p.delete).map .deleted }

section Settling
variable {p : Pass}

theorem sendAck_eq (s : Desk) (rows : List MailRow) : sendAck p s rows = s.settled p rows [] := by
  unfold sendAck Desk.settled Desk.note AckAnswer.carriedOut
  cases p.ack with
  | ok => simp
  | refused => simp
  | threw carriedOut => cases carriedOut <;> simp

theorem deleteAll_eq (objects : List String) (s : Desk) :
    objects.foldl (deleteObject p) s =
      { s with
        objects := fun name => if p.delete name = true ∧ name ∈ objects then none else s.objects name
        log := s.log ++ (objects.filter p.delete).map .deleted } := by
  induction objects generalizing s with
  | nil => simp
  | cons object rest ih =>
    rw [List.foldl_cons, ih]
    unfold deleteObject
    by_cases hdelete : p.delete object = true
    · rw [if_pos hdelete, List.filter_cons_of_pos hdelete]
      simp only [Desk.note, List.map_cons, List.append_assoc, List.singleton_append]
      congr 1
      funext name
      by_cases hname : name = object
      · subst hname
        simp [hdelete]
      · simp [hname]
    · rw [if_neg hdelete, List.filter_cons_of_neg hdelete]
      congr 1
      funext name
      by_cases hname : name = object
      · subst hname
        simp [hdelete]
      · simp [hname]

theorem finished_of_no_rows {rows : List MailRow} {fates : List (MailRow × Fate)}
    (h : ackRows rows fates = []) : finishedObjects fates = [] ∧ arrivals fates = [] := by
  unfold ackRows at h
  rw [List.append_eq_nil_iff, List.append_eq_nil_iff, List.map_eq_nil_iff, List.map_eq_nil_iff,
    List.filter_eq_nil_iff, List.filter_eq_nil_iff] at h
  obtain ⟨hdone, -, hunusable⟩ := h
  constructor
  · apply List.filterMap_eq_nil_iff.mpr
    intro x hx
    cases hfate : x.2 with
    | unopened | retried | threw => rfl
    | unusable object => exact absurd (by rw [hfate]; rfl) (hunusable x hx)
    | arrived file object => exact absurd (by rw [hfate]; rfl) (hdone x hx)
  · apply List.filterMap_eq_nil_iff.mpr
    intro x hx
    cases hfate : x.2 with
    | unopened | retried | threw | unusable => rfl
    | arrived file object => exact absurd (by rw [hfate]; rfl) (hdone x hx)

/-- With the acknowledgement answered, or nothing that hangs on it, the rest of the pass is this. -/
theorem settle_eq (s : Desk) (rows : List MailRow) {fates : List (MailRow × Fate)}
    (hack : p.ack = .ok ∨ finishedObjects fates = [] ∧ arrivals fates = []) :
    (settle p s rows fates).1 = s.settled p (ackRows rows fates) (finishedObjects fates) ∧
      told (settle p s rows fates).2 = arrivals fates := by
  have hquiet : ∀ r : Desk, told (if 0 < legacyCount fates ∧ (arrivals fates).isEmpty then
      (r, (.error (.legacyRefused (legacyCount fates)) : Except CollectError _))
        else (r, .ok (arrivals fates))).2 = arrivals fates := by
    intro r
    split_ifs with hlegacy
    · exact (List.isEmpty_iff.mp hlegacy.2).symm
    · rfl
  have hdesk : ∀ r : Desk, (if 0 < legacyCount fates ∧ (arrivals fates).isEmpty then
      (r, (.error (.legacyRefused (legacyCount fates)) : Except CollectError _))
        else (r, .ok (arrivals fates))).1 = r := by
    intro r
    split_ifs <;> rfl
  unfold settle
  show (_ : Desk × _).1 = _ ∧ told (_ : Desk × _).2 = _
  rw [show (fates.filter fun x => x.2.isDone).map Prod.fst ++
    (rows ++ (fates.filter fun x => x.2.isUnusable).map Prod.fst) = ackRows rows fates from rfl]
  by_cases hrows : ackRows rows fates = []
  · obtain ⟨hfinished, -⟩ := finished_of_no_rows hrows
    simp only [hrows, hfinished, List.isEmpty_nil, if_true, Bool.false_eq_true, if_false, hdesk,
      hquiet, and_true]
    unfold Desk.settled
    simp
  · have hne : (ackRows rows fates).isEmpty = false := by simpa using hrows
    simp only [hne, Bool.false_eq_true, if_false]
    rcases hack with hack | ⟨hfinished, harrivals⟩
    · simp only [hack, AckAnswer.isThrow, if_true, Bool.false_eq_true, if_false, hdesk, hquiet,
        and_true, deleteAll_eq, sendAck_eq]
      unfold Desk.settled
      simp
    · simp only [hfinished, List.foldl_nil, ite_self, sendAck_eq]
      by_cases hthrow : p.ack.isThrow = true
      · simp only [hthrow, if_true]
        exact ⟨trivial, harrivals.symm⟩
      · simp only [hthrow]
        exact ⟨hdesk _, hquiet _⟩

end Settling

end OpsMaxx.Transfer
