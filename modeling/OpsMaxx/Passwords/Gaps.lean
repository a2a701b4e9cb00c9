import OpsMaxx.Passwords.Vault

/-!
# The vault between two awaits

While an operation that was resumed finds the file it read, and no lock since its call, what it writes
comes from what is on disk, and the key, the salt and the cache are those of one file.
-/

set_option autoImplicit false

namespace OpsMaxx.Passwords.Vaults
open OpsMaxx.Machine

section Model
variable [Sealing]

/-! ## What should hold -/

def Holds (disk : Disk) (entries : Option Entries) : Prop :=
  ∃ k file, disk = .present file ∧ decrypt k file.box = some entries

/-- The entries that were written come from those on disk at that moment. -/
def Write.Derived (w : Write) : Prop :=
  match w.why with
  | .create => w.disk = .absent ∧ w.entries = some []
  | .upgrade => Holds w.disk w.entries
  | .change => Holds w.disk w.entries
  | .save held => Holds w.disk held
  | .merge held theirs uuid =>
    Holds w.disk (some held) ∧ w.entries = some (held ++ mergeEntries held uuid 0 theirs)

/-- The calls that open a vault. -/
def Call.opens : Call → Bool
  | .create _ => true
  | .unlock _ => true
  | .unlockWithKey _ _ => true
  | .changePassword _ _ => true
  | _ => false

/-- The key opens the file on disk to the cache, and the salt is the one it was derived with. -/
def Keyed (v : Vault) : Prop :=
  ∀ k, v.key = some k → (∃ file, v.disk = .present file ∧ decrypt k file.box = some v.cache) ∧
    ∃ s, v.salt = some s ∧ ∃ password params, k = derive password s params

def Frame.isUpgrading : Frame → Bool
  | .upgrading _ _ _ => true
  | _ => false

/-- Key, salt and cache are of one file; every write came from what was on disk; an open vault was
opened by a call made since the last lock, and a shut one holds no entries, but while an unlock
called since the last lock is upgrading them. -/
structure Tidy (s : State) : Prop where
  keyed : Keyed s.vault
  derived : ∀ w ∈ s.writes, w.Derived
  opened : s.vault.key.isSome = true →
    ∃ e ∈ s.ended, e.call.opens = true ∧ e.ok = true ∧ e.locks = s.locks
  cleared : s.vault.key = none → s.vault.cache.isSome = true →
    ∃ p ∈ s.waiting, p.frame.isUpgrading = true ∧ p.locks = s.locks

/-! ## What an operation may find when it is resumed -/

/-- The file is the one that was read, and the vault was not locked since the call. An upgrade also
finds the entries it decrypted. -/
def Pending.Undisturbed (s : State) (o : Outcome) (p : Pending) : Prop :=
  match p.frame with
  | .creating _ _ => o.derived = true → o.written = true →
      s.vault.disk = .absent ∧ s.locks = p.locks
  | .unlocking password file _ => o.derived = true →
      (decrypt (derive password file.salt (kdfOf file)) file.box).isSome = true →
      s.vault.disk = .present file ∧ s.locks = p.locks
  | .upgrading _ file k => s.vault.disk = .present file ∧ s.locks = p.locks ∧
      decrypt k file.box = some s.vault.cache
  | .merging _ _ => True
  | .checking _ _ _ => True
  | .changing _ _ file _ _ => o.derived = true → o.written = true →
      s.vault.disk = .present file ∧ s.locks = p.locks

/-- A stored key is one that was exported. -/
def Undisturbed (s : State) : Move → Prop
  | .call (.unlockWithKey k salt) _ => (k, salt) ∈ s.exported
  | .call _ _ => True
  | .resume i o => ∀ p, s.waiting[i]? = some p → p.Undisturbed s o

/-! ## What is known of an operation that waits -/

/-- A frame belongs to its call, and holds what it read. -/
def Frame.Of (c : Call) : Frame → Prop
  | .creating password _ => c = .create password
  | .unlocking password _ _ => c = .unlock password
  | .upgrading password file k => c = .unlock password ∧ k = derive password file.salt (kdfOf file)
  | .merging password _ => ∃ text, c = .mergeFrom text password
  | .checking current next _ => c = .changePassword current next
  | .changing current next file entries _ => c = .changePassword current next ∧
      decrypt (derive current file.salt KDF) file.box = some entries

/-- What a turn of a call does to a vault. -/
structure Turn.Sound (v : Vault) (c : Call) (t : Turn) : Prop where
  keyed : Keyed t.vault
  derived : ∀ w, t.write = some w → w.Derived
  opened : t.vault.key.isSome = true → v.key.isSome = true ∨ (c.opens = true ∧ t.ended = some true)
  cleared : t.vault.key = none → t.vault.cache.isSome = true →
    (v.key = none ∧ v.cache.isSome = true) ∨ ∃ f, t.frame = some f ∧ f.isUpgrading = true
  waits : ∀ f, t.frame = some f → f.Of c

section Turns
variable {v : Vault} {c : Call}

/-- A turn that leaves the vault as it is and ends. -/
theorem sound_ends (h : Keyed v) (ok : Bool) : (ends v ok).Sound v c where
  keyed := h
  derived := by simp [ends]
  opened := .inl
  cleared hkey hcache := .inl ⟨hkey, hcache⟩
  waits := by simp [ends]

theorem sound_waits (h : Keyed v) {f : Frame} (hf : f.Of c) : (waits v f).Sound v c where
  keyed := h
  derived := by simp [waits]
  opened := .inl
  cleared hkey hcache := .inl ⟨hkey, hcache⟩
  waits g hg := by
    obtain rfl := Option.some.inj hg
    exact hf

theorem keyed_shut (v : Vault) : Keyed (shut v) := by
  intro k hk
  cases hk

theorem sound_shut (ok : Bool) : (ends (shut v) ok).Sound v c where
  keyed := keyed_shut v
  derived := by simp [ends]
  opened h := by simp [ends, shut] at h
  cleared _ h := by simp [ends, shut] at h
  waits := by simp [ends]

/-- A vault opened under a key that opens the file to the cache. -/
theorem keyed_opened {file : VaultFile} {k : Key} {s password : String} {params : KdfParams}
    (hdisk : v.disk = .present file) (hopen : decrypt k file.box = some v.cache)
    (hkey : k = derive password s params) : Keyed (opened v k s) := by
  intro k' hk'
  obtain rfl := Option.some.inj hk'
  exact ⟨⟨file, hdisk, hopen⟩, s, rfl, password, params, hkey⟩

/-- A turn that opens the vault. -/
theorem sound_opened {v' : Vault} {k : Key} {s : String} {w : Option Write}
    (hkeyed : Keyed (opened v' k s)) (hopens : c.opens = true)
    (hderived : ∀ w', w = some w' → w'.Derived) :
    (Turn.mk (opened v' k s) (some true) none w).Sound v c where
  keyed := hkeyed
  derived := hderived
  opened _ := .inr ⟨hopens, rfl⟩
  cleared h := by cases h
  waits := by simp

/-- A file that was just sealed opens under its key. -/
theorem decrypt_sealedFile (entries : Option Entries) (k : Key) (s : String) (o : Outcome) :
    decrypt k (sealedFile entries k s o).box = some entries :=
  Sealing.decrypt_encrypt _ _ _

theorem holds_of_keyed (h : Keyed v) {k : Key} (hk : v.key = some k) : Holds v.disk v.cache := by
  obtain ⟨⟨file, hdisk, hopen⟩, -⟩ := h k hk
  exact ⟨k, file, hdisk, hopen⟩

theorem vaultSave_sound (h : Keyed v) (entries : Entries) (o : Outcome) (why : Why)
    (hwhy : v.key.isSome = true → (Write.mk why v.disk (some entries)).Derived) :
    (vaultSave v entries o why).Sound v c := by
  unfold vaultSave
  split
  · rename_i k s _ hk hs
    by_cases ho : o.written = true
    · rw [if_pos ho]
      obtain ⟨-, s', hs', password, params, hderive⟩ := h k hk
      obtain rfl := Option.some.inj (hs'.symm.trans hs)
      have hw := hwhy (by rw [hk]; rfl)
      constructor
      · intro k' hk'
        obtain rfl := Option.some.inj (hk.symm.trans hk')
        exact ⟨⟨_, rfl, decrypt_sealedFile _ _ _ _⟩, s', hs, password, params, hderive⟩
      · intro w hw'
        obtain rfl := Option.some.inj hw'
        exact hw
      · exact .inl
      · intro hnone
        rw [show _ = v.key from rfl, hk] at hnone
        cases hnone
      · simp
    · rw [if_neg ho]
      exact sound_ends h false
  · exact sound_ends h false

theorem vaultUnlockWithKey_sound (h : Keyed v) {k : Key} {s password : String} {params : KdfParams}
    (hkey : k = derive password s params) :
    (vaultUnlockWithKey v k s).Sound v (.unlockWithKey k s) := by
  unfold vaultUnlockWithKey
  split
  · exact sound_ends h false
  · rename_i file hread
    split
    · rename_i entries hopen
      apply sound_opened ?_ rfl (by simp)
      exact keyed_opened (readFile_eq_some.mp hread) hopen hkey
    · exact sound_ends h false

/-- Telling the vault that its file was replaced leaves it keyed, whatever the file is now. -/
theorem vaultExternalChange_keyed {v : Vault}
    (h : ∀ k, v.key = some k → ∃ s, v.salt = some s ∧ ∃ password params, k = derive password s params) :
    Keyed (vaultExternalChange v) := by
  unfold vaultExternalChange
  split
  · rename_i hnone
    intro k hk
    rw [hnone] at hk
    cases hk
  · rename_i k hk
    split
    · rename_i entries hopen
      obtain ⟨file, hread, hopen⟩ := Option.bind_eq_some_iff.mp hopen
      intro k' hk'
      obtain rfl := Option.some.inj (hk.symm.trans hk')
      exact ⟨⟨file, readFile_eq_some.mp hread, hopen⟩, h k hk⟩
    · exact keyed_shut v

theorem vaultExternalChange_cases (v : Vault) :
    (v.key = none ∧ vaultExternalChange v = v) ∨ vaultExternalChange v = vaultLock v ∨
      ∃ e, v.key.isSome = true ∧ vaultExternalChange v = { v with cache := e } := by
  unfold vaultExternalChange
  split
  · rename_i hnone
    exact .inl ⟨hnone, rfl⟩
  · rename_i k hk
    split
    · rename_i entries _
      exact .inr (.inr ⟨entries, by rw [hk]; rfl, rfl⟩)
    · exact .inr (.inl rfl)

theorem externalChange_sound {v' : Vault} (hkey : v'.key = v.key) (hsalt : v'.salt = v.salt)
    (hcache : v'.cache = v.cache) (h : Keyed v) :
    (ends (vaultExternalChange v') true).Sound v c := by
  have hkeyed : Keyed (vaultExternalChange v') := by
    apply vaultExternalChange_keyed
    intro k hk
    rw [hsalt]
    exact (h k (hkey ▸ hk)).2
  refine ⟨hkeyed, by simp [ends], ?_, ?_, by simp [ends]⟩
  · intro hsome
    refine .inl ?_
    rcases vaultExternalChange_cases v' with ⟨-, hsame⟩ | hlock | ⟨e, hsome', -⟩
    · rw [← hkey]
      simpa [ends, hsame] using hsome
    · simp [ends, hlock, vaultLock, shut] at hsome
    · rw [← hkey]
      exact hsome'
  · intro hnone hsome
    refine .inl ?_
    rcases vaultExternalChange_cases v' with ⟨hnone', hsame⟩ | hlock | ⟨e, hsome', hsame⟩
    · rw [← hkey, ← hcache]
      exact ⟨hnone', by simpa [ends, hsame] using hsome⟩
    · simp [ends, hlock, vaultLock, shut] at hsome
    · simp [ends, hsame] at hnone
      simp [hnone] at hsome'

/-! ### Calls -/

theorem call_sound (h : Keyed v) (o : Outcome)
    (hstored : ∀ k s, c = .unlockWithKey k s → ∃ password params, k = derive password s params) :
    (call v c o).Sound v c := by
  cases c with
  | create password =>
    show (vaultCreate v password o).Sound v _
    unfold vaultCreate
    split
    · exact sound_ends h false
    · split
      · exact sound_ends h false
      · exact sound_waits h rfl
  | unlock password =>
    show (vaultUnlock v password).Sound v _
    unfold vaultUnlock
    split
    · exact sound_ends h false
    · split
      · exact sound_waits h rfl
      · exact sound_ends h false
  | unlockWithKey k s =>
    obtain ⟨password, params, hkey⟩ := hstored k s rfl
    exact vaultUnlockWithKey_sound h hkey
  | exportKey => exact sound_ends h _
  | save entries =>
    apply vaultSave_sound h
    intro hsome
    obtain ⟨k, hk⟩ := Option.isSome_iff_exists.mp hsome
    exact holds_of_keyed h hk
  | mergeFrom text password =>
    show (vaultMergeFrom v text password).Sound v _
    unfold vaultMergeFrom
    split
    · split
      · exact sound_ends h false
      · split
        · exact sound_waits h ⟨_, rfl⟩
        · exact sound_ends h false
    · exact sound_ends h false
  | changePassword current next =>
    show (vaultChangePassword v current next).Sound v _
    unfold vaultChangePassword
    split
    · exact sound_ends h false
    · split
      · exact sound_ends h false
      · exact sound_waits h rfl
  | lock => exact sound_shut true
  | secure =>
    have hsame : (vaultSecure v).key = v.key ∧ (vaultSecure v).salt = v.salt ∧
        (vaultSecure v).cache = v.cache ∧ (vaultSecure v).disk = v.disk := by
      unfold vaultSecure
      split <;> exact ⟨rfl, rfl, rfl, rfl⟩
    obtain ⟨hkey, hsalt, hcache, hdisk⟩ := hsame
    refine ⟨?_, by simp [call, ends], ?_, ?_, by simp [call, ends]⟩
    · intro k hk
      rw [show (call v .secure o).vault = vaultSecure v from rfl] at hk ⊢
      rw [hdisk, hsalt, hcache]
      exact h k (hkey ▸ hk)
    · intro hsome
      rw [show (call v .secure o).vault = vaultSecure v from rfl, hkey] at hsome
      exact .inl hsome
    · intro hnone hsome
      rw [show (call v .secure o).vault = vaultSecure v from rfl] at hnone hsome
      exact .inl ⟨hkey ▸ hnone, hcache ▸ hsome⟩
  | externalChange => exact externalChange_sound rfl rfl rfl h
  | land file => exact externalChange_sound rfl rfl rfl h

/-! ### Resuming -/

/-- A vault that is written under a fresh key is keyed by it. -/
theorem keyed_written (v : Vault) (entries : Option Entries) (o : Outcome)
    {password salt : String} {k : Key} (hk : k = derive password salt KDF) :
    Keyed (opened { v with disk := .present (sealedFile entries k salt o), cache := entries } k
      salt) :=
  keyed_opened rfl (decrypt_sealedFile entries k salt o) hk

theorem vaultCreate_derived_sound (h : Keyed v) (o : Outcome) (password salt : String)
    (hfresh : o.derived = true → o.written = true → v.disk = .absent) :
    (vaultCreate.derived v o password salt).Sound v (.create password) := by
  unfold vaultCreate.derived
  by_cases ho : o.derived = true ∧ o.written = true
  · rw [if_pos ho]
    apply sound_opened (keyed_written v (some []) o rfl) rfl
    intro w hw
    obtain rfl := Option.some.inj hw
    exact ⟨hfresh ho.1 ho.2, rfl⟩
  · rw [if_neg ho]
    exact sound_ends h false

theorem vaultUnlock_derived_sound (h : Keyed v) (o : Outcome) (password : String)
    (file : VaultFile) (wasOpen : Bool)
    (hfresh : o.derived = true →
      (decrypt (derive password file.salt (kdfOf file)) file.box).isSome = true →
      v.disk = .present file) :
    (vaultUnlock.derived v o password file wasOpen).Sound v (.unlock password) := by
  unfold vaultUnlock.derived
  simp only
  split
  · unfold unlockFails
    cases wasOpen with
    | true => exact sound_ends h false
    | false => exact sound_shut false
  · rename_i entries hdecrypted
    obtain ⟨hderived, hopen⟩ := decrypted_eq_some.mp hdecrypted
    have hdisk := hfresh hderived (by rw [hopen]; rfl)
    split
    · have hkeyed : Keyed (opened { v with cache := entries } _ file.salt) :=
        keyed_opened hdisk hopen rfl
      exact sound_opened hkeyed rfl (by simp)
    · refine ⟨?_, by simp [waits], .inl, fun _ _ => .inr ⟨_, rfl, rfl⟩, ?_⟩
      · -- whatever key the vault was open under is the one that was just derived
        intro k hk
        obtain ⟨⟨file', hdisk', hopen'⟩, hsalt⟩ := h k hk
        obtain rfl : file = file' := Disk.present.inj (hdisk.symm.trans hdisk')
        obtain ⟨rfl, -⟩ := decrypt_unique hopen hopen'
        exact ⟨⟨file, hdisk, hopen⟩, hsalt⟩
      · intro f hf
        obtain rfl := Option.some.inj hf
        exact ⟨rfl, rfl⟩

theorem vaultUnlock_upgraded_sound (o : Outcome) {password : String} {file : VaultFile} {k : Key}
    (hk : k = derive password file.salt (kdfOf file)) (hdisk : v.disk = .present file)
    (hopen : decrypt k file.box = some v.cache) :
    (vaultUnlock.upgraded v o password file k).Sound v (.unlock password) := by
  unfold vaultUnlock.upgraded
  by_cases ho : o.derived = true ∧ o.written = true
  · rw [if_pos ho]
    apply sound_opened (keyed_written v v.cache o rfl) rfl
    intro w hw
    obtain rfl := Option.some.inj hw
    exact ⟨k, file, hdisk, hopen⟩
  · rw [if_neg ho]
    exact sound_opened (keyed_opened hdisk hopen hk) rfl (by simp)

theorem vaultMergeFrom_derived_sound (h : Keyed v) (o : Outcome) (password : String)
    (file : VaultFile) : (vaultMergeFrom.derived v o password file).Sound v c := by
  unfold vaultMergeFrom.derived
  split
  · rename_i theirs mine _ hcache
    split
    · exact sound_ends h true
    · apply vaultSave_sound h
      intro hsome
      obtain ⟨k, hk⟩ := Option.isSome_iff_exists.mp hsome
      refine ⟨?_, rfl⟩
      rw [← hcache]
      exact holds_of_keyed h hk
  · exact sound_ends h false

theorem vaultChangePassword_checked_sound (h : Keyed v) (o : Outcome) (current next : String)
    (file : VaultFile) :
    (vaultChangePassword.checked v o current next file).Sound v (.changePassword current next) := by
  unfold vaultChangePassword.checked
  split
  · rename_i entries hdecrypted
    exact sound_waits h ⟨rfl, (decrypted_eq_some.mp hdecrypted).2⟩
  · exact sound_ends h false

theorem vaultChangePassword_derived_sound (h : Keyed v) (o : Outcome) {current next salt : String}
    {file : VaultFile} {entries : Option Entries}
    (hopen : decrypt (derive current file.salt KDF) file.box = some entries)
    (hfresh : o.derived = true → o.written = true → v.disk = .present file) :
    (vaultChangePassword.derived v o next entries salt).Sound v (.changePassword current next) := by
  unfold vaultChangePassword.derived
  by_cases ho : o.derived = true ∧ o.written = true
  · rw [if_pos ho]
    apply sound_opened (keyed_written v entries o rfl) rfl
    intro w hw
    obtain rfl := Option.some.inj hw
    exact ⟨_, file, hfresh ho.1 ho.2, hopen⟩
  · rw [if_neg ho]
    exact sound_ends h false

theorem resume_sound {s : State} {o : Outcome} {p : Pending} (h : Keyed s.vault)
    (hof : p.frame.Of p.call) (hfresh : p.Undisturbed s o) :
    (resume s.vault o p.frame).Sound s.vault p.call := by
  obtain ⟨c, locks, f⟩ := p
  cases f with
  | creating password salt =>
    obtain rfl : c = _ := hof
    exact vaultCreate_derived_sound h o password salt fun hd hw => (hfresh hd hw).1
  | unlocking password file wasOpen =>
    obtain rfl : c = _ := hof
    exact vaultUnlock_derived_sound h o password file wasOpen fun hd ho => (hfresh hd ho).1
  | upgrading password file k =>
    obtain ⟨rfl, hk⟩ := hof
    exact vaultUnlock_upgraded_sound o hk hfresh.1 hfresh.2.2
  | merging password file => exact vaultMergeFrom_derived_sound h o password file
  | checking current next file =>
    obtain rfl : c = _ := hof
    exact vaultChangePassword_checked_sound h o current next file
  | changing current next file entries salt =>
    obtain ⟨rfl, hopen⟩ := hof
    exact vaultChangePassword_derived_sound h o hopen fun hd hw => (hfresh hd hw).1

theorem vaultSave_frame (v : Vault) (entries : Entries) (o : Outcome) (why : Why) :
    (vaultSave v entries o why).frame = none := by
  unfold vaultSave
  split
  · split <;> rfl
  · rfl

/-- What opens the vault or decrypts its entries was called since the last lock. -/
theorem resume_timely {s : State} {o : Outcome} {p : Pending} (hof : p.frame.Of p.call)
    (hfresh : p.Undisturbed s o)
    (h : (p.call.opens = true ∧ (resume s.vault o p.frame).ended = some true) ∨
      ∃ f, (resume s.vault o p.frame).frame = some f ∧ f.isUpgrading = true) :
    p.locks = s.locks := by
  obtain ⟨c, locks, f⟩ := p
  cases f with
  | creating password salt =>
    by_cases ho : o.derived = true ∧ o.written = true
    · exact (hfresh ho.1 ho.2).2.symm
    · simp [resume, vaultCreate.derived, if_neg ho, ends] at h
  | unlocking password file wasOpen =>
    cases hd : decrypted o (derive password file.salt (kdfOf file)) file with
    | none => simp [resume, vaultUnlock.derived, hd, unlockFails, ends] at h
    | some entries =>
      obtain ⟨hderived, hopen⟩ := decrypted_eq_some.mp hd
      exact (hfresh hderived (by rw [hopen]; rfl)).2.symm
  | upgrading password file k => exact hfresh.2.1.symm
  | merging password file =>
    obtain ⟨text, rfl⟩ : ∃ text, c = .mergeFrom text password := hof
    rcases h with ⟨hopens, -⟩ | ⟨f, hf, -⟩
    · cases hopens
    · have hnone : (vaultMergeFrom.derived s.vault o password file).frame = none := by
        unfold vaultMergeFrom.derived
        split
        · split
          · rfl
          · exact vaultSave_frame _ _ _ _
        · rfl
      rw [show (resume s.vault o (.merging password file)).frame = _ from hnone] at hf
      cases hf
  | checking current next file =>
    cases hd : decrypted o (derive current file.salt KDF) file with
    | none => simp [resume, vaultChangePassword.checked, hd, ends] at h
    | some entries =>
      rcases h with ⟨-, hended⟩ | ⟨f, hf, hupgrading⟩
      · simp [resume, vaultChangePassword.checked, hd, waits] at hended
      · simp only [resume, vaultChangePassword.checked, hd, waits, Option.some.injEq] at hf
        subst hf
        cases hupgrading
  | changing current next file entries salt =>
    by_cases ho : o.derived = true ∧ o.written = true
    · exact (hfresh ho.1 ho.2).2.symm
    · simp [resume, vaultChangePassword.derived, if_neg ho, ends] at h

end Turns

/-! ## Whole runs -/

/-- What every run keeps: a tidy state, operations that hold what they read, and exported keys with
the salts they were derived with. -/
structure Kept (s : State) : Prop where
  tidy : Tidy s
  waits : ∀ p ∈ s.waiting, p.frame.Of p.call
  exported : ∀ x ∈ s.exported, ∃ password params, x.1 = derive password x.2 params

theorem kept_start (disk : Disk) : Kept (.start disk) where
  tidy :=
    { keyed := by simp [Keyed, State.start]
      derived := by simp [State.start]
      opened := by simp [State.start]
      cleared := by simp [State.start] }
  waits := by simp [State.start]
  exported := by simp [State.start]

section After
variable {s : State} {c : Call} {locks : Nat} {waiting : List Pending} {t : Turn}

theorem mem_waiting_after {p : Pending} (hp : p ∈ (s.after c locks waiting t).waiting) :
    p ∈ waiting ∨ ∃ f, t.frame = some f ∧ p = ⟨c, locks, f⟩ := by
  rcases List.mem_append.mp hp with hp | hp
  · exact .inl hp
  · obtain ⟨f, hf, rfl⟩ := Option.map_eq_some_iff.mp (Option.mem_toList.mp hp)
    exact .inr ⟨f, hf, rfl⟩

/-- A sound turn leaves the state tidy. The upgrades that wait still wait, but where the turn opened
the vault. -/
theorem Tidy.after (h : Tidy s) (ht : t.Sound s.vault c)
    (hupgrades : t.vault.key = none → ∀ p ∈ s.waiting, p.frame.isUpgrading = true → p ∈ waiting)
    (htimely : ((c.opens = true ∧ t.ended = some true) ∨
      ∃ f, t.frame = some f ∧ f.isUpgrading = true) → locks = s.locks)
    (hlock : c.isLock = true → t.vault.key = none ∧ t.vault.cache = none) :
    Tidy (s.after c locks waiting t) := by
  have hlocks : c.isLock = false → (s.after c locks waiting t).locks = s.locks := by
    intro hc
    simp [State.after, hc]
  constructor
  · exact ht.keyed
  · intro w hw
    rcases List.mem_append.mp hw with hw | hw
    · exact h.derived w hw
    · exact ht.derived w (Option.mem_toList.mp hw)
  · intro hsome
    cases hc : c.isLock with
    | true => simp [State.after, (hlock hc).1] at hsome
    | false =>
      rw [hlocks hc]
      rcases ht.opened hsome with hsome | ⟨hopens, hended⟩
      · obtain ⟨e, he, hrest⟩ := h.opened hsome
        exact ⟨e, List.mem_append_left _ he, hrest⟩
      · refine ⟨⟨c, locks, true⟩, List.mem_append_right _ ?_, hopens, rfl,
          htimely (.inl ⟨hopens, hended⟩)⟩
        simp [hended]
  · intro hnone hsome
    cases hc : c.isLock with
    | true => simp [State.after, (hlock hc).2] at hsome
    | false =>
      rw [hlocks hc]
      rcases ht.cleared hnone hsome with ⟨hnone', hsome'⟩ | ⟨f, hf, hupgrading⟩
      · obtain ⟨p, hp, hupgrading, hplocks⟩ := h.cleared hnone' hsome'
        exact ⟨p, List.mem_append_left _ (hupgrades hnone p hp hupgrading), hupgrading, hplocks⟩
      · refine ⟨⟨c, locks, f⟩, List.mem_append_right _ ?_, hupgrading, htimely (.inr ⟨f, hf, hupgrading⟩)⟩
        simp [hf]

theorem Kept.after (h : Kept s) (hwaiting : ∀ p ∈ waiting, p ∈ s.waiting)
    (ht : t.Sound s.vault c) (htidy : Tidy (s.after c locks waiting t)) :
    Kept (s.after c locks waiting t) := by
  refine ⟨htidy, ?_, ?_⟩
  · intro p hp
    rcases mem_waiting_after hp with hp | ⟨f, hf, rfl⟩
    · exact h.waits p (hwaiting p hp)
    · exact ht.waits f hf
  · intro x hx
    rcases List.mem_append.mp hx with hx | hx
    · exact h.exported x hx
    · cases c with
      | exportKey =>
        obtain ⟨k, hk, hx⟩ := Option.bind_eq_some_iff.mp (Option.mem_toList.mp hx)
        obtain ⟨salt, hsalt, rfl⟩ := Option.map_eq_some_iff.mp hx
        obtain ⟨-, salt', hsalt', password, params, hderive⟩ := h.tidy.keyed k hk
        obtain rfl := Option.some.inj (hsalt.symm.trans hsalt')
        exact ⟨password, params, hderive⟩
      | _ => simp [Vault.exports] at hx

end After

/-- A lock never waits. -/
theorem Frame.Of.not_lock {f : Frame} {c : Call} (h : f.Of c) : c.isLock = false := by
  cases f with
  | creating password salt =>
    obtain rfl : c = _ := h
    rfl
  | unlocking password file wasOpen =>
    obtain rfl : c = _ := h
    rfl
  | upgrading password file k =>
    obtain ⟨rfl, -⟩ := h
    rfl
  | merging password file =>
    obtain ⟨text, rfl⟩ := h
    rfl
  | checking current next file =>
    obtain rfl : c = _ := h
    rfl
  | changing current next file entries salt =>
    obtain ⟨rfl, -⟩ := h
    rfl

/-- A move that nothing disturbs is kept. -/
theorem Kept.step {s s' : State} {m : Move} (h : Kept s) (hm : Undisturbed s m)
    (hstep : step s m = some s') : Kept s' := by
  cases m with
  | call c o =>
    obtain rfl := Option.some.inj hstep
    have hsound : (call s.vault c o).Sound s.vault c := by
      apply call_sound h.tidy.keyed
      intro k salt hc
      subst hc
      exact h.exported _ hm
    apply h.after (fun _ hp => hp) hsound
    apply h.tidy.after hsound (fun _ p hp _ => hp) (fun _ => rfl)
    intro hc
    cases c with
    | lock => exact ⟨rfl, rfl⟩
    | _ => cases hc
  | resume i o =>
    unfold Vaults.step at hstep
    obtain ⟨p, hi, rfl⟩ := Option.map_eq_some_iff.mp hstep
    have hmem := List.mem_of_getElem? hi
    have hof := h.waits p hmem
    have hsound := resume_sound h.tidy.keyed hof (hm p hi)
    apply h.after (fun _ hq => List.mem_of_mem_eraseIdx hq) hsound
    apply h.tidy.after hsound ?_ (resume_timely hof (hm p hi)) ?_
    · intro hnone q hq hupgrading
      obtain ⟨j, hj⟩ := List.getElem?_of_mem hq
      refine List.mem_eraseIdx_iff_getElem?.mpr ⟨j, ?_, hj⟩
      rintro rfl
      -- the upgrade that was resumed left the vault open
      obtain rfl := Option.some.inj (hi.symm.trans hj)
      obtain ⟨c, locks, f⟩ := p
      cases f with
      | upgrading password file k =>
        have hopen : (vaultUnlock.upgraded s.vault o password file k).vault.key ≠ none := by
          unfold vaultUnlock.upgraded
          split <;> simp [opened, ends]
        exact hopen hnone
      | _ => cases hupgrading
    · intro hc
      rw [hof.not_lock] at hc
      cases hc

/-- In every run in which an operation that was resumed finds the file it read and no lock since its
call, every write comes from what is on disk, key, salt and cache are of one file, and a lock leaves
nothing decrypted behind. -/
theorem undisturbed_runs_are_tidy {disk : Disk} {ms : List Move} {s : State}
    (hrun : Run step Undisturbed (.start disk) ms s) : Tidy s :=
  (hrun.invariant (kept_start disk) fun _ _ _ h hm hstep => h.step hm hstep).tidy

end Model

/-! ## A save during a change of password -/

section Runs

/-- Keys and sealed texts that can be read. -/
@[reducible] def plainSealing : Sealing where
  Key := String × String × KdfParams
  Box := (String × String × KdfParams) × String × Option Entries
  scrypt password salt params := (password, salt, params)
  encrypt k iv entries := (k, iv, entries)
  decrypt k box := if box.1 = k then some box.2.2 else none
  scrypt_inj h := by
    simpa using h
  decrypt_encrypt k iv e := if_pos rfl
  decrypt_other h := if_neg (Ne.symm h)
  decrypt_authentic {k b e} h := by
    obtain ⟨k', iv, e'⟩ := b
    split at h
    · rename_i hk
      obtain rfl : k' = k := hk
      obtain rfl := Option.some.inj h
      exact ⟨iv, rfl⟩
    · cases h

attribute [local instance] plainSealing

def drawn (salt : String) : Outcome := ⟨true, true, salt, "iv", fun n => toString n⟩

def login : VaultEntry := ⟨"login", "Login", ""⟩

def sshkey : VaultEntry := ⟨"sshkey", "Key", ""⟩

def openWith (entries : Entries) : List Move :=
  [.call (.create "master-password") (drawn "salt"), .resume 0 (drawn ""),
    .call (.save entries) (drawn "")]

/-- An unlock, a save and a change of password, one after another. -/
def inTurn : List Move :=
  openWith [login] ++ [.call .lock (drawn ""), .call (.unlock "master-password") (drawn ""),
    .resume 0 (drawn ""), .call (.save [login, sshkey]) (drawn ""),
    .call (.changePassword "master-password" "other-password") (drawn ""),
    .resume 0 (drawn "salt-2"), .resume 0 (drawn "")]

/-- A save that completes while the password is being changed. -/
def savedMeanwhile : List Move :=
  openWith [login] ++
    [.call (.changePassword "master-password" "other-password") (drawn ""),
      .resume 0 (drawn "salt-2"), .call (.save [login, sshkey]) (drawn ""), .resume 0 (drawn "")]

/-- What is on disk under a password. -/
def entriesOn (disk : Disk) (password : String) : Option (Option Entries) :=
  (readFile disk).bind fun file => decrypt (derive password file.salt (kdfOf file)) file.box

/-- Each of them ends before the next is called, and the run is tidy to its end. -/
theorem undisturbed_runs_are_tidy_in_turn :
    ∃ s, Run step Undisturbed (.start .absent) inTurn s ∧
      entriesOn s.vault.disk "other-password" = some (some [login, sshkey]) ∧ Tidy s := by
  have hresume : ∀ (s : State) (o : Outcome) (p : Pending), s.waiting[0]? = some p →
      p.Undisturbed s o → Undisturbed s (.resume 0 o) := by
    intro s o p hp h q hq
    rw [hp] at hq
    obtain rfl := Option.some.inj hq
    exact h
  have h₀ : Run step Undisturbed (.start .absent) [] _ := .refl _
  have h₁ := h₀.next (m := Move.call (.create "master-password") (drawn "salt")) trivial rfl
  have h₂ := h₁.next (m := Move.resume 0 (drawn ""))
    (hresume _ _ _ rfl fun _ _ => ⟨rfl, rfl⟩) rfl
  have h₃ := h₂.next (m := Move.call (.save [login]) (drawn "")) trivial rfl
  have h₄ := h₃.next (m := Move.call .lock (drawn "")) trivial rfl
  have h₅ := h₄.next (m := Move.call (.unlock "master-password") (drawn "")) trivial rfl
  have h₆ := h₅.next (m := Move.resume 0 (drawn ""))
    (hresume _ _ _ rfl fun _ _ => ⟨rfl, rfl⟩) rfl
  have h₇ := h₆.next (m := Move.call (.save [login, sshkey]) (drawn "")) trivial rfl
  have h₈ := h₇.next (m := Move.call (.changePassword "master-password" "other-password")
    (drawn "")) trivial rfl
  have h₉ := h₈.next (m := Move.resume 0 (drawn "salt-2")) (hresume _ _ _ rfl trivial) rfl
  have h₁₀ := h₉.next (m := Move.resume 0 (drawn ""))
    (hresume _ _ _ rfl fun _ _ => ⟨rfl, rfl⟩) rfl
  exact ⟨_, h₁₀, by decide +kernel, undisturbed_runs_are_tidy h₁₀⟩

/-- The save was told that it is done, and what it saved is gone. -/
theorem save_during_change_is_overwritten :
    ∃ s, Run step (fun _ _ => True) (.start .absent) savedMeanwhile s ∧
      s.ended.map Ended.ok = [true, true, true, true] ∧
      entriesOn s.vault.disk "other-password" = some (some [login]) ∧ ¬ Tidy s := by
  obtain ⟨s, hrun, hended, hdisk, w, hw, hwhy, hentries, hheld⟩ :
      ∃ s, Run step (fun _ _ => True) (.start .absent) savedMeanwhile s ∧
        s.ended.map Ended.ok = [true, true, true, true] ∧
        entriesOn s.vault.disk "other-password" = some (some [login]) ∧
        ∃ w, s.writes[3]? = some w ∧ w.why = .change ∧ w.entries = some [login] ∧
          entriesOn w.disk "master-password" = some (some [login, sshkey]) :=
    ⟨_, (@Run.of_play _ _ _ (fun _ _ => true) _ _ _ rfl).mono fun _ _ _ => trivial,
      by decide +kernel, by decide +kernel, _, rfl, rfl, rfl, by decide +kernel⟩
  refine ⟨s, hrun, hended, hdisk, ?_⟩
  intro h
  have hderived := h.derived w (List.mem_of_getElem? hw)
  simp only [Write.Derived, hwhy, hentries] at hderived
  obtain ⟨k, file, hfile, hopen⟩ := hderived
  rw [hfile] at hheld
  have hsame := (decrypt_unique hopen hheld).2
  simp [sshkey] at hsame

end Runs

end OpsMaxx.Passwords.Vaults
