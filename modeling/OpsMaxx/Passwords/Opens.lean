import OpsMaxx.Passwords.Gaps

/-!
# The master password

One call at a time, the vault file opens with the password that was last set, as long as nothing is
saved into a file that still has the legacy work factor: the write stamps the current one on it.
-/

set_option autoImplicit false

namespace OpsMaxx.Passwords.Vaults
open OpsMaxx.Machine

section Model
variable [Sealing]

/-! ## The password that was set last -/

def Ended.sets : Ended → Option String
  | ⟨.create password, _, true⟩ => some password
  | ⟨.changePassword _ next, _, true⟩ => some next
  | _ => none

/-- The master password: `initial` until another was set. -/
def State.master (initial : Option String) (s : State) : Option String :=
  (s.ended.filterMap Ended.sets).getLast?.or initial

/-- A file the password opens, at a work factor the vault has ever written. -/
def OpensWith (m : String) (file : VaultFile) : Prop :=
  kdfAllowed (kdfOf file) = true ∧
    ∃ entries, decrypt (derive m file.salt (kdfOf file)) file.box = some entries

/-- No vault, or one that `initial` opens. -/
def Begins (initial : Option String) : Disk → Prop
  | .absent => initial = none
  | .damaged => False
  | .present file => ∃ m, initial = some m ∧ OpensWith m file

/-! ## One call at a time -/

/-- The file on disk, if there is one, has the current work factor. -/
def CurrentOnDisk (v : Vault) : Prop :=
  ∀ file, v.disk = .present file → isCurrentKdf (kdfOf file) = true

/-- What a merge saves goes over a file with the current work factor. -/
def Frame.SavesOver (v : Vault) : Frame → Prop
  | .merging _ _ => v.key.isSome = true → CurrentOnDisk v
  | _ => True

/-- A call is made when nothing waits; a stored key is one that was exported; a copy that lands is one
the master password opens. What an open vault saves goes over a file with the current work factor. -/
def OneAtATime (initial : Option String) (s : State) : Move → Prop
  | .call c _ => s.waiting = [] ∧ match c with
    | .unlockWithKey k salt => (k, salt) ∈ s.exported
    | .save _ => s.vault.key.isSome = true → CurrentOnDisk s.vault
    | .land file => ∃ m, s.master initial = some m ∧ OpensWith m file
    | _ => True
  | .resume i _ => ∀ p, s.waiting[i]? = some p → p.frame.SavesOver s.vault

/-! ## What is kept -/

/-- The vault of a process whose master password is `master`: it opens the file, and a live key is
the one it derives from the file. -/
structure Mastered (master : Option String) (v : Vault) : Prop where
  whole : v.disk ≠ .damaged
  opens : ∀ file, v.disk = .present file → ∃ m, master = some m ∧ OpensWith m file
  live : ∀ k, v.key = some k → ∃ m file, master = some m ∧ v.disk = .present file ∧
    k = derive m file.salt (kdfOf file) ∧ v.salt = some file.salt

/-- What an operation that waits holds is still on disk. -/
def Frame.Fresh (v : Vault) : Frame → Prop
  | .creating _ _ => True
  | .unlocking _ file _ => v.disk = .present file
  | .upgrading password file k => v.disk = .present file ∧
      k = derive password file.salt (kdfOf file) ∧ decrypt k file.box = some v.cache
  | .merging _ _ => True
  | .checking _ _ file => v.disk = .present file
  | .changing current _ file entries _ => v.disk = .present file ∧
      decrypt (derive current file.salt KDF) file.box = some entries

/-- A turn of a call under a master password: a call that sets another makes it the master. -/
structure Turn.Keeps (master : Option String) (c : Call) (t : Turn) : Prop where
  mastered : Mastered ((t.ended.bind fun ok => Ended.sets ⟨c, 0, ok⟩).or master) t.vault
  fresh : ∀ f, t.frame = some f → f.Fresh t.vault ∧ f.Of c

section Turns
variable {v : Vault} {c : Call} {master : Option String}

theorem keeps_failure (h : Mastered master v) : (ends v false).Keeps master c where
  mastered := by
    have hnone : Ended.sets ⟨c, 0, false⟩ = none := by cases c <;> rfl
    simpa [ends, hnone] using h
  fresh := by simp [ends]

/-- A call that sets no password. -/
theorem keeps_ends (h : Mastered master v) (ok : Bool) (hc : ∀ ok, Ended.sets ⟨c, 0, ok⟩ = none) :
    (ends v ok).Keeps master c where
  mastered := by simpa [ends, hc] using h
  fresh := by simp [ends]

theorem keeps_waits (h : Mastered master v) {f : Frame} (hfresh : f.Fresh v) (hof : f.Of c) :
    (waits v f).Keeps master c where
  mastered := by simpa [waits] using h
  fresh g hg := by
    obtain rfl := Option.some.inj hg
    exact ⟨hfresh, hof⟩

theorem mastered_shut (h : Mastered master v) : Mastered master (shut v) where
  whole := h.whole
  opens := h.opens
  live k hk := by cases hk

theorem opensWith_sealedFile (entries : Option Entries) (m s : String) (o : Outcome) :
    OpensWith m (sealedFile entries (derive m s KDF) s o) :=
  ⟨rfl, entries, decrypt_sealedFile _ _ _ _⟩

/-- A file that was just written under a password opens with it. -/
theorem mastered_written (v : Vault) (entries : Option Entries) (m s : String) (o : Outcome)
    (cache : Option Entries) :
    Mastered (some m) (opened { v with disk := .present (sealedFile entries (derive m s KDF) s o), cache := cache }
      (derive m s KDF) s) where
  whole := by simp [opened]
  opens file hfile := by
    obtain rfl := Disk.present.inj hfile
    exact ⟨m, rfl, opensWith_sealedFile entries m s o⟩
  live k hk := by
    obtain rfl := Option.some.inj hk
    exact ⟨m, _, rfl, rfl, rfl, rfl⟩

/-- One password opens a file. -/
theorem OpensWith.unique {m password : String} {params : KdfParams} {file : VaultFile} {s : String}
    {entries : Option Entries} (h : OpensWith m file)
    (hopen : decrypt (derive password s params) file.box = some entries) :
    password = m ∧ s = file.salt ∧ params = kdfOf file := by
  obtain ⟨-, entries', hopen'⟩ := h
  exact Sealing.scrypt_inj (decrypt_unique hopen hopen').1

/-- A vault opened under a key that opens the file. -/
theorem mastered_opened (h : Mastered master v) {file : VaultFile} {password s : String}
    {params : KdfParams} {entries : Option Entries} (hdisk : v.disk = .present file)
    (hopen : decrypt (derive password s params) file.box = some entries) (cache : Option Entries) :
    Mastered master (opened { v with cache := cache } (derive password s params) s) := by
  obtain ⟨m, hm, hopens⟩ := h.opens file hdisk
  obtain ⟨rfl, rfl, rfl⟩ := hopens.unique hopen
  refine ⟨h.whole, h.opens, ?_⟩
  intro k hk
  obtain rfl := Option.some.inj hk
  exact ⟨_, file, hm, hdisk, rfl, rfl⟩

/-! ### Calls -/

/-- A save over a file with the current work factor is sealed as it is stamped. -/
theorem vaultSave_keeps (h : Mastered master v) (entries : Entries) (o : Outcome) (why : Why)
    (hcurrent : v.key.isSome = true → CurrentOnDisk v) (hc : ∀ ok, Ended.sets ⟨c, 0, ok⟩ = none) :
    (vaultSave v entries o why).Keeps master c := by
  unfold vaultSave
  split
  · rename_i k s _ hk hs
    by_cases ho : o.written = true
    · rw [if_pos ho]
      obtain ⟨m, file, hm, hdisk, hderive, hsalt⟩ := h.live k hk
      obtain rfl := Option.some.inj (hs.symm.trans hsalt)
      have hkdf := (isCurrentKdf_iff _).mp (hcurrent (by rw [hk]; rfl) file hdisk)
      rw [hkdf] at hderive
      subst hderive
      refine ⟨?_, by simp⟩
      simp only [Option.bind_some, hc, Option.none_or]
      constructor
      · simp
      · intro file' hfile'
        obtain rfl := Disk.present.inj hfile'
        exact ⟨m, hm, opensWith_sealedFile _ m _ o⟩
      · intro k' hk'
        obtain rfl := Option.some.inj (hk.symm.trans hk')
        exact ⟨m, _, hm, rfl, rfl, hs⟩
    · rw [if_neg ho]
      exact keeps_failure h
  · exact keeps_failure h

theorem vaultUnlockWithKey_keeps (h : Mastered master v) {k : Key} {s password : String}
    {params : KdfParams} (hkey : k = derive password s params) :
    (vaultUnlockWithKey v k s).Keeps master (.unlockWithKey k s) := by
  unfold vaultUnlockWithKey
  split
  · exact keeps_failure h
  · rename_i file hread
    split
    · rename_i entries hopen
      subst hkey
      exact keeps_ends (mastered_opened h (readFile_eq_some.mp hread) hopen entries) true
        fun ok => by cases ok <;> rfl
    · exact keeps_failure h

theorem vaultExternalChange_keeps (hwhole : v.disk ≠ .damaged)
    (hopens : ∀ file, v.disk = .present file → ∃ m, master = some m ∧ OpensWith m file)
    (hlive : ∀ k, v.key = some k → ∃ password s params, k = derive password s params ∧
      v.salt = some s) : Mastered master (vaultExternalChange v) := by
  unfold vaultExternalChange
  split
  · rename_i hnone
    refine ⟨hwhole, hopens, ?_⟩
    intro k hk
    rw [hnone] at hk
    cases hk
  · rename_i k hk
    split
    · rename_i entries hopen
      obtain ⟨file, hread, hopen⟩ := Option.bind_eq_some_iff.mp hopen
      have hdisk := readFile_eq_some.mp hread
      refine ⟨hwhole, hopens, ?_⟩
      intro k' hk'
      obtain rfl := Option.some.inj (hk.symm.trans hk')
      obtain ⟨m, hm, hopens⟩ := hopens file hdisk
      obtain ⟨password, s, params, rfl, hsalt⟩ := hlive k hk
      obtain ⟨rfl, rfl, rfl⟩ := hopens.unique hopen
      exact ⟨_, file, hm, hdisk, rfl, hsalt⟩
    · exact ⟨hwhole, hopens, fun k hk => by cases hk⟩

theorem Mastered.salted (h : Mastered master v) :
    ∀ k, v.key = some k → ∃ password s params, k = derive password s params ∧ v.salt = some s := by
  intro k hk
  obtain ⟨m, file, -, -, hderive, hsalt⟩ := h.live k hk
  exact ⟨m, file.salt, kdfOf file, hderive, hsalt⟩

theorem call_keeps {initial : Option String} {s : State} {c : Call} {o : Outcome}
    (h : Mastered (s.master initial) s.vault)
    (hexported : ∀ x ∈ s.exported, ∃ password params, x.1 = derive password x.2 params)
    (hm : OneAtATime initial s (.call c o)) :
    (call s.vault c o).Keeps (s.master initial) c := by
  obtain ⟨-, hm⟩ := hm
  cases c with
  | create password =>
    show (vaultCreate s.vault password o).Keeps _ _
    unfold vaultCreate
    split
    · exact keeps_failure h
    · split
      · exact keeps_failure h
      · exact keeps_waits h trivial rfl
  | unlock password =>
    show (vaultUnlock s.vault password).Keeps _ _
    unfold vaultUnlock
    split
    · exact keeps_failure h
    · rename_i file hread
      split
      · exact keeps_waits h (readFile_eq_some.mp hread) rfl
      · exact keeps_failure h
  | unlockWithKey k salt =>
    obtain ⟨password, params, hkey⟩ := hexported _ hm
    exact vaultUnlockWithKey_keeps h hkey
  | exportKey => exact keeps_ends h _ fun ok => by cases ok <;> rfl
  | save entries => exact vaultSave_keeps h entries o _ hm fun ok => by cases ok <;> rfl
  | mergeFrom text password =>
    show (vaultMergeFrom s.vault text password).Keeps _ _
    unfold vaultMergeFrom
    split
    · split
      · exact keeps_failure h
      · split
        · exact keeps_waits h trivial ⟨_, rfl⟩
        · exact keeps_failure h
    · exact keeps_failure h
  | changePassword current next =>
    show (vaultChangePassword s.vault current next).Keeps _ _
    unfold vaultChangePassword
    split
    · exact keeps_failure h
    · split
      · exact keeps_failure h
      · rename_i file hread
        exact keeps_waits h (readFile_eq_some.mp hread) rfl
  | lock => exact keeps_ends (mastered_shut h) true fun ok => by cases ok <;> rfl
  | secure =>
    apply keeps_ends _ true fun ok => by cases ok <;> rfl
    unfold vaultSecure
    split
    · exact ⟨h.whole, h.opens, h.live⟩
    · exact h
  | externalChange =>
    exact keeps_ends (vaultExternalChange_keeps h.whole h.opens h.salted) true
      fun ok => by cases ok <;> rfl
  | land file =>
    apply keeps_ends _ true fun ok => by cases ok <;> rfl
    have hopens : ∀ file', Disk.present file = .present file' →
        ∃ m, s.master initial = some m ∧ OpensWith m file' := by
      intro file' hfile'
      obtain rfl := Disk.present.inj hfile'
      exact hm
    exact vaultExternalChange_keeps (v := { s.vault with disk := .present file })
      (by simp) hopens h.salted

/-! ### Resuming -/

theorem unlockFails_keeps (h : Mastered master v) (wasOpen : Bool) :
    (unlockFails v wasOpen).Keeps master c := by
  unfold unlockFails
  cases wasOpen with
  | true => exact keeps_failure h
  | false => exact keeps_failure (mastered_shut h)

theorem vaultUnlock_derived_keeps (h : Mastered master v) (o : Outcome) (password : String)
    {file : VaultFile} (wasOpen : Bool) (hdisk : v.disk = .present file) :
    (vaultUnlock.derived v o password file wasOpen).Keeps master (.unlock password) := by
  unfold vaultUnlock.derived
  simp only
  split
  · exact unlockFails_keeps h wasOpen
  · rename_i entries hdecrypted
    have hopen := (decrypted_eq_some.mp hdecrypted).2
    split
    · exact keeps_ends (mastered_opened h hdisk hopen entries) true fun ok => by cases ok <;> rfl
    · have hcached : Mastered master { v with cache := entries } := ⟨h.whole, h.opens, h.live⟩
      exact keeps_waits hcached ⟨hdisk, rfl, hopen⟩ ⟨rfl, rfl⟩

theorem vaultUnlock_upgraded_keeps (h : Mastered master v) (o : Outcome) {password : String}
    {file : VaultFile} {k : Key} (hdisk : v.disk = .present file)
    (hk : k = derive password file.salt (kdfOf file)) (hopen : decrypt k file.box = some v.cache) :
    (vaultUnlock.upgraded v o password file k).Keeps master (.unlock password) := by
  subst hk
  obtain ⟨m, hm, hopens⟩ := h.opens file hdisk
  obtain ⟨rfl, -, -⟩ := hopens.unique hopen
  unfold vaultUnlock.upgraded
  by_cases ho : o.derived = true ∧ o.written = true
  · rw [if_pos ho]
    refine ⟨?_, by simp⟩
    subst hm
    exact mastered_written v v.cache password file.salt o v.cache
  · rw [if_neg ho]
    exact keeps_ends (mastered_opened h hdisk hopen v.cache) true fun ok => by cases ok <;> rfl

theorem vaultMergeFrom_derived_keeps (h : Mastered master v) (o : Outcome) (password : String)
    (file : VaultFile) (hcurrent : v.key.isSome = true → CurrentOnDisk v) (text : Option VaultFile) :
    (vaultMergeFrom.derived v o password file).Keeps master (.mergeFrom text password) := by
  have hc : ∀ ok, Ended.sets ⟨.mergeFrom text password, 0, ok⟩ = none := by
    intro ok
    cases ok <;> rfl
  unfold vaultMergeFrom.derived
  split
  · split
    · exact keeps_ends h true hc
    · exact vaultSave_keeps h _ o _ hcurrent hc
  · exact keeps_failure h

theorem vaultChangePassword_checked_keeps (h : Mastered master v) (o : Outcome)
    (current next : String) {file : VaultFile} (hdisk : v.disk = .present file) :
    (vaultChangePassword.checked v o current next file).Keeps master
      (.changePassword current next) := by
  unfold vaultChangePassword.checked
  split
  · rename_i entries hdecrypted
    have hopen := (decrypted_eq_some.mp hdecrypted).2
    exact keeps_waits h ⟨hdisk, hopen⟩ ⟨rfl, hopen⟩
  · exact keeps_failure h

theorem resume_keeps {v : Vault} {o : Outcome} {p : Pending} (h : Mastered master v)
    (hfresh : p.frame.Fresh v) (hof : p.frame.Of p.call)
    (hm : p.frame.SavesOver v) :
    (resume v o p.frame).Keeps master p.call := by
  obtain ⟨c, locks, f⟩ := p
  cases f with
  | creating password salt =>
    obtain rfl : c = _ := hof
    show (vaultCreate.derived v o password salt).Keeps _ _
    unfold vaultCreate.derived
    split
    · exact ⟨mastered_written v (some []) password salt o (some []), by simp⟩
    · exact keeps_failure h
  | unlocking password file wasOpen =>
    obtain rfl : c = _ := hof
    exact vaultUnlock_derived_keeps h o password wasOpen hfresh
  | upgrading password file k =>
    obtain ⟨rfl, -⟩ := hof
    exact vaultUnlock_upgraded_keeps h o hfresh.1 hfresh.2.1 hfresh.2.2
  | merging password file =>
    obtain ⟨text, rfl⟩ := hof
    exact vaultMergeFrom_derived_keeps h o password file hm text
  | checking current next file =>
    obtain rfl : c = _ := hof
    exact vaultChangePassword_checked_keeps h o current next hfresh
  | changing current next file entries salt =>
    obtain ⟨rfl, -⟩ := hof
    show (vaultChangePassword.derived v o next entries salt).Keeps _ _
    unfold vaultChangePassword.derived
    split
    · exact ⟨mastered_written v entries next salt o entries, by simp⟩
    · exact keeps_failure h

end Turns

/-! ## Whole runs -/

/-- What every run keeps: the master password opens the vault, and the one operation that waits holds
what is on disk. -/
structure Safe (initial : Option String) (s : State) : Prop where
  mastered : Mastered (s.master initial) s.vault
  exported : ∀ x ∈ s.exported, ∃ password params, x.1 = derive password x.2 params
  single : s.waiting.length ≤ 1
  fresh : ∀ p ∈ s.waiting, p.frame.Fresh s.vault ∧ p.frame.Of p.call

theorem safe_start {initial : Option String} {disk : Disk} (h : Begins initial disk) :
    Safe initial (.start disk) := by
  refine ⟨⟨?_, ?_, ?_⟩, by simp [State.start], by simp [State.start], by simp [State.start]⟩
  · rintro hdisk
    rw [show disk = .damaged from hdisk] at h
    exact h
  · intro file hfile
    rw [show disk = .present file from hfile] at h
    exact h
  · intro k hk
    cases hk

theorem master_after (initial : Option String) (s : State) (c : Call) (locks : Nat)
    (waiting : List Pending) (t : Turn) :
    (s.after c locks waiting t).master initial =
      (t.ended.bind fun ok => Ended.sets ⟨c, 0, ok⟩).or (s.master initial) := by
  have hlocks : ∀ ok, Ended.sets ⟨c, locks, ok⟩ = Ended.sets ⟨c, 0, ok⟩ := by
    intro ok
    cases c <;> cases ok <;> rfl
  unfold State.master State.after
  rw [List.filterMap_append]
  cases h : t.ended with
  | none => simp
  | some ok =>
    cases hsets : Ended.sets ⟨c, 0, ok⟩ with
    | none => simp [hlocks, hsets]
    | some m => simp [hlocks, hsets]

/-- A turn of the only call under way is safe. -/
theorem Safe.after {initial : Option String} {s : State} {c : Call} {locks : Nat} {t : Turn}
    (h : Safe initial s) (ht : t.Keeps (s.master initial) c) :
    Safe initial (s.after c locks [] t) := by
  refine ⟨?_, ?_, ?_, ?_⟩
  · rw [master_after]
    exact ht.mastered
  · intro x hx
    rcases List.mem_append.mp hx with hx | hx
    · exact h.exported x hx
    · cases c with
      | exportKey =>
        obtain ⟨k, hk, hx⟩ := Option.bind_eq_some_iff.mp (Option.mem_toList.mp hx)
        obtain ⟨salt, hsalt, rfl⟩ := Option.map_eq_some_iff.mp hx
        obtain ⟨password, salt', params, hderive, hsalt'⟩ := h.mastered.salted k hk
        obtain rfl := Option.some.inj (hsalt.symm.trans hsalt')
        exact ⟨password, params, hderive⟩
      | _ => simp [Vault.exports] at hx
  · cases hf : t.frame <;> simp [State.after, hf]
  · intro p hp
    rcases mem_waiting_after hp with hp | ⟨f, hf, rfl⟩
    · cases hp
    · exact ht.fresh f hf

theorem Safe.step {initial : Option String} {s s' : State} {m : Move} (h : Safe initial s)
    (hm : OneAtATime initial s m) (hstep : step s m = some s') : Safe initial s' := by
  cases m with
  | call c o =>
    obtain rfl := Option.some.inj hstep
    rw [hm.1]
    exact h.after (call_keeps h.mastered h.exported hm)
  | resume i o =>
    unfold Vaults.step at hstep
    obtain ⟨p, hi, rfl⟩ := Option.map_eq_some_iff.mp hstep
    obtain ⟨hfresh, hof⟩ := h.fresh p (List.mem_of_getElem? hi)
    have hrest : s.waiting.eraseIdx i = [] := by
      obtain ⟨hlt, -⟩ := List.getElem?_eq_some_iff.mp hi
      have := List.length_eraseIdx_of_lt hlt
      apply List.length_eq_zero_iff.mp
      have := h.single
      omega
    rw [hrest]
    exact h.after (resume_keeps h.mastered hfresh hof (hm p hi))

/-- An operation that nothing comes between. -/
def settle : Turn → List Outcome → Turn
  | t, [] => t
  | t, o :: os =>
    match t.frame with
    | none => t
    | some f => settle (resume t.vault o f) os

theorem vaultUnlock_succeeds {v : Vault} {m : String} {file : VaultFile}
    (hdisk : v.disk = .present file) (h : OpensWith m file) {o : Outcome} (o' : Outcome)
    (ho : o.derived = true) : (settle (vaultUnlock v m) [o, o']).ended = some true := by
  obtain ⟨hallowed, entries, hopen⟩ := h
  have hdecrypted : decrypted o (derive m file.salt (kdfOf file)) file = some entries :=
    decrypted_eq_some.mpr ⟨ho, hopen⟩
  unfold vaultUnlock
  simp only [hdisk, readFile, hallowed, if_true, waits, settle, resume, vaultUnlock.derived,
    hdecrypted]
  cases hcurrent : isCurrentKdf (kdfOf file) with
  | true => simp [ends]
  | false =>
    simp only [Bool.false_eq_true, if_false, vaultUnlock.upgraded]
    split <;> rfl

theorem vaultChangePassword_succeeds {v : Vault} {m next : String} {file : VaultFile}
    (hdisk : v.disk = .present file) (h : OpensWith m file)
    (hnext : ¬ jsLength next < VAULT_MIN_PASSWORD) {o o' : Outcome} (ho : o.derived = true)
    (ho' : o'.derived = true ∧ o'.written = true) :
    (settle (vaultChangePassword v m next) [o, o']).ended = some true ↔
      isCurrentKdf (kdfOf file) = true := by
  unfold vaultChangePassword
  simp only [if_neg hnext, hdisk, readFile, waits, settle, resume, vaultChangePassword.checked]
  cases hd : decrypted o (derive m file.salt KDF) file with
  | none =>
    simp only [ends, Option.some.injEq, Bool.false_eq_true, false_iff]
    intro hcurrent
    obtain ⟨-, entries, hopen⟩ := h
    rw [(isCurrentKdf_iff _).mp hcurrent] at hopen
    rw [decrypted_eq_some.mpr ⟨ho, hopen⟩] at hd
    cases hd
  | some entries =>
    obtain ⟨-, -, hkdf⟩ := h.unique (decrypted_eq_some.mp hd).2
    simp [vaultChangePassword.derived, ho', ← hkdf]

/-- Whenever a file is on disk, the password that was last set opens it and no other does; unlocking
with it succeeds, and so does changing it if and only if the file has the current work factor. -/
theorem master_password_opens {initial : Option String} {disk : Disk} {ms : List Move} {s : State}
    (hbegins : Begins initial disk)
    (hrun : Run step (OneAtATime initial) (.start disk) ms s) {file : VaultFile}
    (hfile : s.vault.disk = .present file) :
    ∃ m, s.master initial = some m ∧
      (∀ password, (decrypt (derive password file.salt (kdfOf file)) file.box).isSome = true ↔
        password = m) ∧
      (∀ o o' : Outcome, o.derived = true →
        (settle (vaultUnlock s.vault m) [o, o']).ended = some true) ∧
      (∀ (o o' : Outcome) (next : String), o.derived = true →
        o'.derived = true ∧ o'.written = true → ¬ jsLength next < VAULT_MIN_PASSWORD →
        ((settle (vaultChangePassword s.vault m next) [o, o']).ended = some true ↔
          isCurrentKdf (kdfOf file) = true)) := by
  have hsafe := hrun.invariant (safe_start hbegins) fun _ _ _ h hm hstep => h.step hm hstep
  obtain ⟨m, hm, hopens⟩ := hsafe.mastered.opens file hfile
  refine ⟨m, hm, ?_, fun o o' ho => vaultUnlock_succeeds hfile hopens o' ho,
    fun o o' next ho ho' hnext => vaultChangePassword_succeeds hfile hopens hnext ho ho'⟩
  intro password
  constructor
  · intro hsome
    obtain ⟨entries, hopen⟩ := Option.isSome_iff_exists.mp hsome
    exact (hopens.unique hopen).1
  · rintro rfl
    obtain ⟨-, entries, hopen⟩ := hopens
    rw [hopen]
    rfl

end Model

/-! ## A vault that was not upgraded -/

section Runs

attribute [local instance] plainSealing

/-- A vault of before the work factor was raised. -/
def legacyFile : VaultFile :=
  ⟨"salt", none, encrypt (derive "master-password" "salt" LEGACY_KDF) "iv" (some [login])⟩

def failing : Outcome := { drawn "" with written := false }

/-- The upgrade cannot write its file, and a save that follows can. -/
def savedUnderLegacyKey : List Move :=
  [.call (.unlock "master-password") (drawn ""), .resume 0 (drawn ""), .resume 0 failing,
    .call (.save [login, sshkey]) (drawn "")]

/-- One call at a time. -/
def whenIdle (s : State) : Move → Bool
  | .call _ _ => s.waiting.isEmpty
  | .resume _ _ => true

theorem save_under_legacy_key_locks_out :
    ∃ s file, Run step (fun s m => whenIdle s m = true) (.start (.present legacyFile))
        savedUnderLegacyKey s ∧
      Begins (some "master-password") (.present legacyFile) ∧
      s.ended.map Ended.ok = [true, true] ∧ s.vault.disk = .present file ∧
      ∀ password, decrypt (derive password file.salt (kdfOf file)) file.box = none := by
  refine ⟨_, _, Run.of_play rfl, ⟨_, rfl, by decide +kernel, _, rfl⟩, by decide +kernel, rfl, ?_⟩
  intro password
  apply Sealing.decrypt_other
  intro h
  exact absurd (Sealing.scrypt_inj h).2.2 (by decide)

/-- An unlock that upgrades, a save, and a change of the password. -/
def upgradedFirst : List Move :=
  [.call (.unlock "master-password") (drawn ""), .resume 0 (drawn ""), .resume 0 (drawn ""),
    .call (.save [login, sshkey]) (drawn ""),
    .call (.changePassword "master-password" "other-password") (drawn ""),
    .resume 0 (drawn "salt-2"), .resume 0 (drawn "")]

theorem master_password_opens_upgraded :
    ∃ s file, Run step (OneAtATime (some "master-password")) (.start (.present legacyFile))
        upgradedFirst s ∧ s.vault.disk = .present file ∧
      ∃ m, s.master (some "master-password") = some m ∧
        (settle (vaultUnlock s.vault m) [drawn "", drawn ""]).ended = some true := by
  have hresume : ∀ (s : State) (o : Outcome) (p : Pending), s.waiting[0]? = some p →
      p.frame.SavesOver s.vault → OneAtATime (some "master-password") s (.resume 0 o) := by
    intro s o p hp h q hq
    rw [hp] at hq
    obtain rfl := Option.some.inj hq
    exact h
  have hbegins : Begins (some "master-password") (.present legacyFile) :=
    ⟨_, rfl, by decide +kernel, _, rfl⟩
  have h₀ : Run step (OneAtATime (some "master-password")) (.start (.present legacyFile)) [] _ :=
    .refl _
  have h₁ := h₀.next (m := Move.call (.unlock "master-password") (drawn "")) ⟨rfl, trivial⟩ rfl
  have h₂ := h₁.next (m := Move.resume 0 (drawn "")) (hresume _ _ _ rfl trivial) rfl
  have h₃ := h₂.next (m := Move.resume 0 (drawn "")) (hresume _ _ _ rfl trivial) rfl
  have h₄ := h₃.next (m := Move.call (.save [login, sshkey]) (drawn ""))
    ⟨rfl, fun _ file hfile => by
      obtain rfl := Disk.present.inj hfile
      rfl⟩ rfl
  have h₅ := h₄.next (m := Move.call (.changePassword "master-password" "other-password")
    (drawn "")) ⟨rfl, trivial⟩ rfl
  have h₆ := h₅.next (m := Move.resume 0 (drawn "salt-2")) (hresume _ _ _ rfl trivial) rfl
  have h₇ := h₆.next (m := Move.resume 0 (drawn "")) (hresume _ _ _ rfl trivial) rfl
  obtain ⟨m, hm, -, hunlock, -⟩ := master_password_opens hbegins h₇ rfl
  exact ⟨_, _, h₇, rfl, m, hm, hunlock _ _ rfl⟩

end Runs

end OpsMaxx.Passwords.Vaults
