import OpsMaxx.Transfer.Apart

/-! # What becomes of one notice

Every way the loop's body can end, with what was found on the way.
-/

set_option autoImplicit false

namespace OpsMaxx.Transfer

/-! ## Names -/

/-- One part of a path that stays where it is put. -/
def Plain (name : String) : Prop :=
  name ≠ "" ∧ name ≠ "." ∧ name ≠ ".." ∧ ∀ c ∈ name.toList, c ≠ '/' ∧ c ≠ '\x00'

theorem safeName_ne_empty (name : String) : safeName name ≠ "" := by
  unfold safeName
  simp only
  split_ifs with h
  · decide
  · intro hempty
    have hlist := congrArg String.toList hempty
    rw [String.toList_ofList] at hlist
    rw [hlist] at h
    exact h rfl

theorem safeName_no_slash (name : String) : ∀ c ∈ (safeName name).toList, c ≠ '/' := by
  unfold safeName
  simp only
  split_ifs with h
  · decide
  · intro c hc
    rw [String.toList_ofList] at hc
    obtain ⟨d, -, rfl⟩ := List.mem_map.mp hc
    split_ifs with hd
    · decide
    · intro hslash
      subst hslash
      exact hd rfl

theorem joinName_folder {id name : String} (h : ¬ (joinName [id] name).length ≤ 1) :
    name ≠ "." ∧ name ≠ ".." ∧ joinName [id] name = [id, name] := by
  unfold joinName at h ⊢
  split_ifs at h ⊢ with hdot hdots
  · exact absurd (le_refl 1) h
  · exact absurd (Nat.zero_le 1) h
  · exact ⟨hdot, hdots, rfl⟩

theorem safeName_writable {id name : String}
    (h : ¬ ((joinName [id] (safeName name)).length ≤ 1 ∨
      (joinName [id] (safeName name)).any fun part => part.toList.contains '\x00')) :
    Plain (safeName name) ∧ joinName [id] (safeName name) = [id, safeName name] := by
  rw [not_or] at h
  obtain ⟨hdot, hdots, hjoin⟩ := joinName_folder h.1
  refine ⟨⟨safeName_ne_empty name, hdot, hdots, ?_⟩, hjoin⟩
  intro c hc
  refine ⟨safeName_no_slash name c hc, ?_⟩
  rintro rfl
  apply h.2
  rw [hjoin]
  simp [hc]

/-! ## Opening -/

/-- The notice was opened: earlier and held since, or now. -/
inductive Took (W : World) (p : Pass) (s : Desk) (mail : String) : Desk → OpenedMail → Prop
  | before {o : OpenedMail} (hheld : s.held mail = some o) : Took W p s mail (s.hold mail none) o
  | now {o : OpenedMail} (hheld : s.held mail = none) (hspent : s.spent mail = false)
      (hmail : W.mail mail = some o) : Took W p s mail (s.spend mail) o

/-- At most one file of the transfer's own folder was written, not as it should be. -/
inductive Tried (mail : String) (n : TransferNotice) (s : Desk) : Desk → Prop
  | not : Tried mail n s s
  | partly {name : String} {files : List String → Option Bytes} (hname : Plain name)
      (hfiles : ∀ path, path ≠ [n.id, name] → files path = s.files path) :
      Tried mail n s ({ s with files }.note [.wrote mail [n.id, name]])

/-- The file as it was written, and what was noted of it. -/
def Desk.stored (s : Desk) (mail id name : String) (bytes : Bytes) : Desk :=
  { s with files := Function.update s.files [id, name] (some bytes) }.note
    [.wrote mail [id, name], .stored mail [id, name] bytes]

inductive NoticeStep (W : World) (p : Pass) (s : Desk) (m : MailRow) : Desk → Fate → Prop
  | refused (hheld : s.held m.sealed = none)
      (hwhy : isLegacyMail m.sealed = true ∨ s.spent m.sealed = true ∨
        (∀ o, W.mail m.sealed = some o → o.signer ∉ p.peers) ∨
          s.spent m.sealed = false ∧ p.sidecar m.sealed = .down) :
      NoticeStep W p s m s .unopened
  | lost (hspent : s.spent m.sealed = false) (hlost : p.sidecar m.sealed = .lost) :
      NoticeStep W p s m (s.spend m.sealed) .unopened
  | useless {s₁ : Desk} {o : OpenedMail} (htook : Took W p s m.sealed s₁ o)
      (hnotice : noticeIn o = none) : NoticeStep W p s m s₁ (.unusable none)
  | threw {s₁ : Desk} {o : OpenedMail} (htook : Took W p s m.sealed s₁ o) :
      NoticeStep W p s m s₁ .threw
  | mismatch {s₁ : Desk} {o : OpenedMail} {n : TransferNotice} {body bytes : Bytes}
      (htook : Took W p s m.sealed s₁ o) (hnotice : noticeIn o = some n)
      (hfetch : fetchObject p s (objectName n.id) = some body)
      (hopen : W.openBlob n.key body = some bytes) (hdigest : n.hasDigest (W.sha256 bytes) = false) :
      NoticeStep W p s m s₁ (.unusable (some (objectName n.id)))
  | retried {s₁ s₂ : Desk} {o : OpenedMail} {n : TransferNotice} (htook : Took W p s m.sealed s₁ o)
      (hnotice : noticeIn o = some n) (htried : Tried m.sealed n s₁ s₂) :
      NoticeStep W p s m (s₂.hold m.sealed (some o)) .retried
  | arrived {s₁ : Desk} {o : OpenedMail} {n : TransferNotice} {body bytes : Bytes} {name : String}
      {file : ArrivedFile} (htook : Took W p s m.sealed s₁ o) (hnotice : noticeIn o = some n)
      (hfetch : fetchObject p s (objectName n.id) = some body) (hname : Plain name)
      (hpath : file.path = [n.id, name]) :
      NoticeStep W p s m (s₁.stored m.sealed n.id name bytes) (.arrived file (objectName n.id))

section Steps
variable {W : World} {p : Pass} {s s₁ : Desk} {mail : String}

theorem openMail_none (hheld : s.held mail = none) {m : MailRow} (hm : m.sealed = mail)
    (hopen : (openMail W p s mail).2 = none) :
    NoticeStep W p s m (openMail W p s mail).1 .unopened := by
  subst hm
  unfold openMail at hopen ⊢
  split_ifs at hopen ⊢ with hrefused
  · refine .refused hheld ?_
    rcases Bool.or_eq_true_iff.mp hrefused with h | h
    · exact .inl h
    · exact .inr (.inl h)
  · have hspent : s.spent m.sealed = false := by
      cases hs : s.spent m.sealed with
      | false => rfl
      | true => exact absurd (by rw [hs, Bool.or_true]) hrefused
    cases hmail : W.mail m.sealed with
    | none => exact .refused hheld (.inr (.inr (.inl fun o ho => by rw [hmail] at ho; cases ho)))
    | some o =>
      rw [hmail] at hopen
      simp only at hopen ⊢
      split_ifs at hopen ⊢ with hpeer
      · cases hreach : p.sidecar m.sealed with
        | answered =>
          rw [hreach] at hopen
          cases hopen
        | down => exact .refused hheld (.inr (.inr (.inr ⟨hspent, hreach⟩)))
        | lost => exact .lost hspent hreach
      · refine .refused hheld (.inr (.inr (.inl ?_)))
        intro o' ho'
        rw [hmail] at ho'
        cases ho'
        exact hpeer

theorem openMail_some {o : OpenedMail} (hheld : s.held mail = none)
    (hopen : (openMail W p s mail).2 = some o) : Took W p s mail (openMail W p s mail).1 o := by
  unfold openMail at hopen ⊢
  split_ifs at hopen ⊢ with hrefused
  · have hspent : s.spent mail = false := by
      cases hs : s.spent mail with
      | false => rfl
      | true => exact absurd (by rw [hs, Bool.or_true]) hrefused
    cases hmail : W.mail mail with
    | none =>
      rw [hmail] at hopen
      cases hopen
    | some o' =>
      rw [hmail] at hopen
      simp only at hopen ⊢
      split_ifs at hopen ⊢ with hpeer
      cases hreach : p.sidecar mail with
      | answered =>
        rw [hreach] at hopen
        cases hopen
        exact .now hheld hspent hmail
      | down =>
        rw [hreach] at hopen
        cases hopen
      | lost =>
        rw [hreach] at hopen
        cases hopen

theorem Took.objects {o : OpenedMail} (h : Took W p s mail s₁ o) : s₁.objects = s.objects := by
  cases h with
  | before => rfl
  | now => rfl

/-- What `store` leaves when it reports no file. -/
theorem store_none {n : TransferNotice} {bytes : Bytes} (h : (store p s mail n bytes).2 = none) :
    Tried mail n s (store p s mail n bytes).1 := by
  unfold store at h ⊢
  split_ifs at h ⊢
  · split
    · rename_i name hname
      unfold writeFile
      simp only
      split_ifs with hdirectory
      · exact .not
      · obtain ⟨hplain, hjoin⟩ := safeName_writable hdirectory
        cases hwrite : p.write (joinName [n.id] (safeName name)) with
        | ok =>
          simp only [hname, writeFile, if_neg hdirectory, hwrite] at h
          cases h
        | failed left =>
          cases left with
          | none =>
            rw [hjoin]
            exact @Tried.partly mail n s _ s.files hplain fun _ _ => rfl
          | some left =>
            rw [hjoin]
            exact .partly hplain fun path hpath => Function.update_of_ne hpath _ _
    · exact .not
  · exact .not

theorem store_some {n : TransferNotice} {bytes : Bytes} {name : String} {path : List String}
    (h : (store p s mail n bytes).2 = some (name, path)) :
    Plain name ∧ path = [n.id, name] ∧
      (store p s mail n bytes).1 = s.stored mail n.id name bytes := by
  unfold store at h ⊢
  split_ifs at h ⊢
  · split at h
    · rename_i name' hname
      unfold writeFile at h ⊢
      simp only at h ⊢
      split_ifs at h ⊢ with hdirectory
      · obtain ⟨hplain, hjoin⟩ := safeName_writable hdirectory
        cases hwrite : p.write (joinName [n.id] (safeName name')) with
        | ok =>
          rw [hwrite] at h
          cases h
          refine ⟨hplain, hjoin, ?_⟩
          rw [hjoin]
          rfl
        | failed left =>
          rw [hwrite] at h
          cases left <;> cases h
    · cases h

theorem receive_step {m : MailRow} {o : OpenedMail} {n : TransferNotice}
    (htook : Took W p s m.sealed s₁ o) (hnotice : noticeIn o = some n) :
    NoticeStep W p s m (receive W p s₁ m o n).1 (receive W p s₁ m o n).2 := by
  have hfetch : fetchObject p s₁ (objectName n.id) = fetchObject p s (objectName n.id) := by
    unfold fetchObject
    rw [htook.objects]
  unfold receive
  simp only [hfetch]
  cases hbind : (fetchObject p s (objectName n.id)).bind (openBytes W p n.key (objectName n.id)) with
  | none => exact .retried htook hnotice .not
  | some bytes =>
    obtain ⟨body, hbody, hopen⟩ := Option.bind_eq_some_iff.mp hbind
    have hblob : W.openBlob n.key body = some bytes := by
      unfold openBytes at hopen
      split_ifs at hopen
      exact hopen
    simp only
    split_ifs with hdigest
    · cases hstore : (store p s₁ m.sealed n bytes).2 with
      | none =>
        have hpair : store p s₁ m.sealed n bytes = ((store p s₁ m.sealed n bytes).1, none) := by
          rw [← hstore]
        rw [hpair]
        exact .retried htook hnotice (store_none hstore)
      | some stored =>
        obtain ⟨name, path⟩ := stored
        have hpair : store p s₁ m.sealed n bytes =
            ((store p s₁ m.sealed n bytes).1, some (name, path)) := by
          rw [← hstore]
        obtain ⟨hplain, hpath, hdesk⟩ := store_some hstore
        rw [hpair, hdesk]
        exact .arrived htook hnotice hbody hplain hpath
    · exact .mismatch htook hnotice hbody hblob (Bool.eq_false_iff.mpr hdigest)

theorem notice_step (m : MailRow) :
    NoticeStep W p s m (handleNotice W p s m).1 (handleNotice W p s m).2 := by
  have hcases : ∀ o, Took W p s m.sealed (takeNotice W p s m.sealed).1 o →
      (takeNotice W p s m.sealed).2 = some o →
        NoticeStep W p s m (handleNotice W p s m).1 (handleNotice W p s m).2 := by
    intro o htook ho
    unfold handleNotice
    have hpair : takeNotice W p s m.sealed = ((takeNotice W p s m.sealed).1, some o) := by rw [← ho]
    rw [hpair]
    simp only
    cases hread : readNotice o.payload with
    | unreadable => exact .useless htook (by rw [noticeIn, hread])
    | malformed => exact .useless htook (by rw [noticeIn, hread])
    | nothing => exact .threw htook
    | notice n => exact receive_step htook (by rw [noticeIn, hread])
  cases hheld : s.held m.sealed with
  | some o =>
    have htake : takeNotice W p s m.sealed = (s.hold m.sealed none, some o) := by
      rw [takeNotice, hheld]
    apply hcases o
    · rw [htake]
      exact .before hheld
    · rw [htake]
  | none =>
    have htake : takeNotice W p s m.sealed = openMail W p s m.sealed := by
      rw [takeNotice, hheld]
    cases hopen : (openMail W p s m.sealed).2 with
    | some o =>
      apply hcases o
      · rw [htake]
        exact openMail_some hheld hopen
      · rw [htake, hopen]
    | none =>
      have hpair : takeNotice W p s m.sealed = ((openMail W p s m.sealed).1, none) := by
        rw [htake, ← hopen]
      unfold handleNotice
      rw [hpair]
      exact openMail_none hheld rfl hopen

end Steps

end OpsMaxx.Transfer
