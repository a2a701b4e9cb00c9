import OpsMaxx.Reap.Orphans

/-!
# Who is spared

A pid says nothing, so the sweep asks who holds it, and takes the holder for the recorded process
when it runs the same executable and did not start before the record. There is no bound from
above, nothing is asked again between the two signals, and the live runs are read once. What a
sweep does is allowed when none of this matters: `Undisturbed`.
-/

set_option autoImplicit false

namespace OpsMaxx.Reap

open Strings

variable (w : World) (delay : ℚ)

/-! ## What a sweep may do -/

/-- The process the record was written for, when writing it takes up to `delay`. -/
def IsRecorded (r : SupervisorPidRecord) (p : ProcessIdentity) : Prop :=
  norm w r.exePath = norm w p.exePath ∧ ∃ recorded, w.dateParse r.startedAtIso = some recorded ∧
    recorded - START_TIME_TOLERANCE_MS - delay ≤ p.startedAtMs ∧
    p.startedAtMs ≤ recorded + START_TIME_TOLERANCE_MS + delay

/-- The record of a pid file. -/
def Recorded (r : SupervisorPidRecord) : Prop :=
  ∃ t name, pidSuffix <:+ name ∧ w.record t name = some r

def Listed (t : Nat) (e : Entry) : Prop := ∃ entries, w.listing t = some entries ∧ e ∈ entries

def Allowed (t : Nat) : Event → Prop
  | .signal pid _ =>
    0 < pid ∧ ∃ r, Recorded w r ∧ r.pid = pid ∧
      ∀ p, w.holder t pid = some p → IsRecorded w delay r p
  | .unlink name =>
    pidSuffix <:+ name ∧ (∃ t e, Listed w t e ∧ e.name = name) ∧
      ∀ id ∈ w.runs t, (runIdSegment id).map (· ++ pidSuffix) ≠ some name
  | .remove dir =>
    ((∃ r, Recorded w r ∧ runIdSegment r.runId = some dir) ∨
      ∃ t e, Listed w t e ∧ e.isDirectory = true ∧ e.name = dir) ∧
      ∀ id ∈ w.runs t, runIdSegment id ≠ some dir

def Safe (s : Sweep) : Prop := ∀ e ∈ s.events, Allowed w delay e.1 e.2

/-! ## When nothing interferes -/

/-- What the tools print of a process. -/
def Prints (p : ProcessIdentity) (out : Text) : Tool → Prop
  | .readlink => trim out = p.exePath
  | .stat => ∃ n, number (trim out) = some n ∧ n * 1000 ≤ p.startedAtMs
  | .ps => ∃ line rest date n, nonEmptyLines out = line :: rest ∧
      words line = words p.exePath ++ date ∧ date.length = 5 ∧
      unwords (words p.exePath) = p.exePath ∧
      w.dateParse (unwords date) = some n ∧ n ≤ p.startedAtMs
  | .powershell => ∃ date n, (nonEmptyLines out = [p.exePath, date] ∨ nonEmptyLines out = [date]) ∧
      w.dateParse date = some n ∧ n ≤ p.startedAtMs

structure Undisturbed : Prop where
  prints : ∀ t tool pid out, w.output t tool pid = some out →
    ∃ p, w.holder t pid = some p ∧ Prints w p out tool
  /-- No process that started later runs the recorded executable under a recorded pid. -/
  unique : ∀ r, Recorded w r → ∀ t p recorded, w.holder t r.pid = some p →
    norm w r.exePath = norm w p.exePath → w.dateParse r.startedAtIso = some recorded →
    p.startedAtMs ≤ recorded + START_TIME_TOLERANCE_MS + delay
  /-- No process takes a recorded pid while the sweep goes on. -/
  steady : ∀ r, Recorded w r → ∀ t t' p, t ≤ t' → w.holder t' r.pid = some p →
    w.holder t r.pid = some p
  /-- No run starts or ends meanwhile. -/
  runs : ∀ t, w.runs t = w.runs 0
  /-- The pid file of a live run can be read. -/
  own : ∀ id ∈ w.runs 0, ∀ dir, runIdSegment id = some dir → ∀ t e, Listed w t e →
    e.name = dir ++ pidSuffix → ∀ t', ∃ r, w.record t' e.name = some r ∧ r.runId = id
  /-- No record of another run is spelled like a live one. -/
  apart : ∀ id ∈ w.runs 0, ∀ r, Recorded w r → runIdSegment r.runId = runIdSegment id →
    r.runId = id

/-! ## Probing -/

variable {w} {delay}

theorem mem_emit {s : Sweep} {e : Event} {x : Nat × Event} (h : x ∈ (s.emit e).events) :
    x ∈ s.events ∨ x = (s.time, e) := by
  simpa [Sweep.emit] using h

theorem le_pause (n : Nat) (s : Sweep) : s.time ≤ (pause w n s).time := by
  simp only [pause]
  omega

theorem runProbe_spec {tool : Tool} {pid : Int} {s s' : Sweep} {out : Option Text}
    (h : runProbe w tool pid s = (out, s')) :
    s'.events = s.events ∧ s'.keep = s.keep ∧ s.time ≤ s'.time ∧
      ∀ o, out = some o → 0 < pid ∧ ∃ t, t ≤ s'.time ∧ w.output t tool pid = some o := by
  obtain ⟨rfl, rfl⟩ := Prod.mk.inj h
  refine ⟨rfl, rfl, (le_pause 0 s).trans (le_pause 0 _), ?_⟩
  intro o ho
  split at ho
  · exact ⟨‹_›, _, le_pause 0 _, ho⟩
  · contradiction

/-- Whoever holds the pid from `t` on is no older than the identity and runs its executable. -/
def Identifies (pid : Int) (t : Nat) (i : ProcessIdentity) : Prop :=
  ∀ t' p, t ≤ t' → w.holder t' pid = some p → i.exePath = p.exePath ∧ i.startedAtMs ≤ p.startedAtMs

theorem parseDarwinPs_eq {p i : ProcessIdentity} {out : Text} (hp : Prints w p out .ps)
    (h : parseDarwinPs w out = some i) :
    i.exePath = p.exePath ∧ i.startedAtMs ≤ p.startedAtMs := by
  obtain ⟨line, rest, date, n, hlines, hwords, hlen, hpath, hdate, hn⟩ := hp
  have htake : (words line).length - 5 = (words p.exePath).length := by
    rw [hwords, List.length_append]
    omega
  simp only [parseDarwinPs, hlines, htake] at h
  rw [hwords, List.drop_left, List.take_left, hpath, hdate] at h
  split at h
  · contradiction
  · obtain rfl := Option.some.inj h
    exact ⟨rfl, hn⟩

theorem parseWindowsProcess_eq {p i : ProcessIdentity} {out : Text}
    (hp : Prints w p out .powershell) (h : parseWindowsProcess w out = some i) :
    i.exePath = p.exePath ∧ i.startedAtMs ≤ p.startedAtMs := by
  obtain ⟨date, n, hlines | hlines, hdate, hn⟩ := hp
  · simp only [parseWindowsProcess, hlines, hdate] at h
    obtain rfl := Option.some.inj h
    exact ⟨rfl, hn⟩
  · simp [parseWindowsProcess, hlines] at h

theorem linuxIdentity_eq {p i : ProcessIdentity} {exe seconds : Text}
    (hexe : Prints w p exe .readlink) (hstat : Prints w p seconds .stat)
    (h : linuxIdentity exe seconds = some i) :
    i.exePath = p.exePath ∧ i.startedAtMs ≤ p.startedAtMs := by
  obtain ⟨n, hn, hle⟩ := hstat
  simp only [linuxIdentity, hn] at h
  split at h
  · contradiction
  · obtain rfl := Option.some.inj h
    exact ⟨hexe, hle⟩

/-- What a tool printed at `t` is of whoever holds the pid later. -/
theorem Undisturbed.printed (hw : Undisturbed w delay) {r : SupervisorPidRecord}
    (hr : Recorded w r) {t t' : Nat} {tool : Tool} {out : Text} {p : ProcessIdentity}
    (hout : w.output t tool r.pid = some out) (hle : t ≤ t') (hp : w.holder t' r.pid = some p) :
    Prints w p out tool := by
  obtain ⟨q, hq, hprints⟩ := hw.prints t tool r.pid out hout
  have hsame := hw.steady r hr t t' p hle hp
  rw [hq] at hsame
  obtain rfl := Option.some.inj hsame
  exact hprints

theorem probeIdentity_spec (hw : Undisturbed w delay) {r : SupervisorPidRecord}
    (hr : Recorded w r) {s s' : Sweep} {found : Option ProcessIdentity}
    (h : probeIdentity w r.pid s = (found, s')) :
    s'.events = s.events ∧ s'.keep = s.keep ∧ s.time ≤ s'.time ∧
      ∀ i, found = some i → 0 < r.pid ∧ Identifies (w := w) r.pid s'.time i := by
  unfold probeIdentity at h
  split at h
  · split at h
    · rename_i s₁ h₁
      obtain ⟨rfl, rfl⟩ := Prod.mk.inj h
      obtain ⟨hev, hkeep, htime, -⟩ := runProbe_spec h₁
      exact ⟨hev, hkeep, htime, by simp⟩
    · rename_i exe s₁ h₁
      obtain ⟨hev, hkeep, htime, hexe⟩ := runProbe_spec h₁
      obtain ⟨hpid, t, ht, hexe⟩ := hexe exe rfl
      split at h
      · rename_i s₂ h₂
        obtain ⟨rfl, rfl⟩ := Prod.mk.inj h
        obtain ⟨hev₂, hkeep₂, htime₂, -⟩ := runProbe_spec h₂
        exact ⟨hev₂.trans hev, hkeep₂.trans hkeep, htime.trans htime₂, by simp⟩
      · rename_i seconds s₂ h₂
        obtain ⟨rfl, rfl⟩ := Prod.mk.inj h
        obtain ⟨hev₂, hkeep₂, htime₂, hstat⟩ := runProbe_spec h₂
        obtain ⟨-, t₂, ht₂, hstat⟩ := hstat seconds rfl
        refine ⟨hev₂.trans hev, hkeep₂.trans hkeep, htime.trans htime₂, ?_⟩
        intro i hi
        refine ⟨hpid, ?_⟩
        intro t' p hle hp
        exact linuxIdentity_eq (w := w) (hw.printed hr hexe (by omega) hp)
          (hw.printed hr hstat (by omega) hp) hi
  · obtain ⟨rfl, rfl⟩ := Prod.mk.inj h
    obtain ⟨hev, hkeep, htime, hout⟩ := @runProbe_spec w .ps r.pid s _ _ rfl
    refine ⟨hev, hkeep, htime, ?_⟩
    intro i hi
    obtain ⟨out, ho, hparse⟩ := Option.bind_eq_some_iff.mp hi
    obtain ⟨hpid, t, ht, hout⟩ := hout out ho
    refine ⟨hpid, ?_⟩
    intro t' p hle hp
    exact parseDarwinPs_eq (hw.printed hr hout (by omega) hp) hparse
  · obtain ⟨rfl, rfl⟩ := Prod.mk.inj h
    obtain ⟨hev, hkeep, htime, hout⟩ :=
      @runProbe_spec w .powershell r.pid s _ _ rfl
    refine ⟨hev, hkeep, htime, ?_⟩
    intro i hi
    obtain ⟨out, ho, hparse⟩ := Option.bind_eq_some_iff.mp hi
    obtain ⟨hpid, t, ht, hout⟩ := hout out ho
    refine ⟨hpid, ?_⟩
    intro t' p hle hp
    exact parseWindowsProcess_eq (hw.printed hr hout (by omega) hp) hparse
  · obtain ⟨rfl, rfl⟩ := Prod.mk.inj h
    exact ⟨rfl, rfl, le_rfl, by simp⟩

/-- A holder the probes identified, and that the record matches, is the recorded process. -/
theorem Undisturbed.isRecorded (hw : Undisturbed w delay) (hdelay : 0 ≤ delay)
    {r : SupervisorPidRecord} (hr : Recorded w r) {t t' : Nat} {i p : ProcessIdentity}
    (hi : Identifies (w := w) r.pid t i) (hmatch : identityMatches w r i = true) (hle : t ≤ t')
    (hp : w.holder t' r.pid = some p) : IsRecorded w delay r p := by
  obtain ⟨hpath, hstart⟩ := hi t' p hle hp
  simp only [identityMatches] at hmatch
  split at hmatch
  · contradiction
  · rename_i hnorm
    split at hmatch
    · contradiction
    · rename_i recorded hdate
      have hsame : norm w r.exePath = norm w p.exePath := by
        rw [← hpath]
        exact not_not.mp hnorm
      have hlow := of_decide_eq_true hmatch
      refine ⟨hsame, recorded, hdate, ?_, hw.unique r hr t' p recorded hp hsame hdate⟩
      linarith

/-! ## Killing -/

theorem poll_spec {pid : Int} {deadline fuel : Nat} {s : Sweep} :
    (poll w pid deadline fuel s).keep = s.keep ∧ s.time ≤ (poll w pid deadline fuel s).time ∧
      ∀ x ∈ (poll w pid deadline fuel s).events,
        x ∈ s.events ∨ ∃ t, s.time ≤ t ∧ x = (t, .signal pid .kill) := by
  induction fuel generalizing s with
  | zero => exact ⟨rfl, le_rfl, fun x hx => .inl hx⟩
  | succ fuel ih =>
    simp only [poll]
    split
    · split
      · refine ⟨rfl, le_rfl, ?_⟩
        intro x hx
        exact (mem_emit hx).imp_right fun h => ⟨s.time, le_rfl, h⟩
      · exact ⟨rfl, le_rfl, fun x hx => .inl hx⟩
    · split
      · exact ⟨rfl, le_rfl, fun x hx => .inl hx⟩
      · obtain ⟨hkeep, htime, hev⟩ := ih (s := pause w 100 s)
        have hle := le_pause (w := w) 100 s
        refine ⟨hkeep, by omega, ?_⟩
        intro x hx
        exact (hev x hx).imp_right fun ⟨t, ht, h⟩ => ⟨t, by omega, h⟩

theorem killOrphan_spec {pid : Int} {s : Sweep} :
    (killOrphan w pid s).keep = s.keep ∧ s.time ≤ (killOrphan w pid s).time ∧
      ∀ x ∈ (killOrphan w pid s).events,
        x ∈ s.events ∨ ∃ t sig, s.time ≤ t ∧ x = (t, .signal pid sig) := by
  unfold killOrphan
  split
  · refine ⟨rfl, le_rfl, ?_⟩
    intro x hx
    refine (List.mem_append.mp hx).imp_right fun h => ?_
    exact ⟨_, .taskkill, le_pause 0 s, List.mem_singleton.mp h⟩
  · split
    · exact ⟨rfl, le_rfl, fun x hx => .inl hx⟩
    · obtain ⟨hkeep, htime, hev⟩ := @poll_spec w pid (s.time + w.reapTermGraceMs)
        (w.reapTermGraceMs + 1) (s.emit (.signal pid .term))
      refine ⟨hkeep, htime, ?_⟩
      intro x hx
      obtain h | ⟨t, ht, rfl⟩ := hev x hx
      · exact (mem_emit h).imp_right fun h => ⟨s.time, .term, le_rfl, h⟩
      · exact .inr ⟨t, .kill, ht, rfl⟩

/-! ## One file -/

theorem Safe.deletes {s : Sweep} {e : Event} (hs : Safe w delay s) (he : Allowed w delay s.time e) :
    Safe w delay (deletes w e s) := by
  intro x hx
  obtain h | rfl := mem_emit (show x ∈ (s.emit e).events from hx)
  · exact hs x h
  · exact he

theorem Safe.disposeRunDir {runId : Text} {s : Sweep} (hs : Safe w delay s)
    (h : ∀ dir, runIdSegment runId = some dir → Allowed w delay s.time (.remove dir)) :
    Safe w delay (disposeRunDir w runId s).sweep := by
  unfold Reap.disposeRunDir
  split
  · exact hs
  · rename_i dir hdir
    exact hs.deletes (h dir hdir)

theorem disposeRunDir_keep {runId : Text} {s : Sweep} :
    (disposeRunDir w runId s).sweep.keep = s.keep := by
  unfold disposeRunDir
  split
  · rfl
  · rfl

/-- A file of the listing that the sweep has come to. -/
structure Turn (w : World) (name : Text) : Prop where
  suffix : pidSuffix <:+ name
  listed : ∃ t e, Listed w t e ∧ e.name = name

theorem Undisturbed.unlink (hw : Undisturbed w delay) {name : Text} (hname : Turn w name) {t : Nat}
    (t' : Nat) (h : ∀ r, w.record t' name = some r → r.runId ∉ w.runs 0) :
    Allowed w delay t (.unlink name) := by
  refine ⟨hname.suffix, hname.listed, ?_⟩
  intro id hid heq
  rw [hw.runs t] at hid
  obtain ⟨dir, hdir, hd⟩ := Option.map_eq_some_iff.mp heq
  obtain ⟨t₀, e, he, rfl⟩ := hname.listed
  obtain ⟨r, hr, hrid⟩ := hw.own id hid dir hdir t₀ e he hd.symm t'
  exact h r hr (hrid ▸ hid)

theorem Undisturbed.discard (hw : Undisturbed w delay) {name : Text} (hname : Turn w name)
    {r : SupervisorPidRecord} {t : Nat} (hr : w.record t name = some r)
    (hlive : r.runId ∉ w.runs 0) {s : Sweep} (hs : Safe w delay s) :
    Safe w delay (discard w name r s).sweep := by
  have hunlink : Allowed w delay s.time (.unlink name) := by
    apply hw.unlink hname t
    intro r' hr'
    rw [hr] at hr'
    exact Option.some.inj hr' ▸ hlive
  apply (hs.deletes hunlink).disposeRunDir
  intro dir hdir
  refine ⟨.inl ⟨r, ⟨t, name, hname.suffix, hr⟩, hdir⟩, ?_⟩
  intro id hid heq
  rw [hw.runs] at hid
  have := hw.apart id hid r ⟨t, name, hname.suffix, hr⟩ (hdir.trans heq.symm)
  exact hlive (this ▸ hid)

theorem Safe.killOrphan (hw : Undisturbed w delay) (hdelay : 0 ≤ delay) {r : SupervisorPidRecord}
    (hr : Recorded w r) (hpid : 0 < r.pid) {s : Sweep} {i : ProcessIdentity}
    (hi : Identifies (w := w) r.pid s.time i) (hmatch : identityMatches w r i = true)
    (hs : Safe w delay s) : Safe w delay (killOrphan w r.pid s) := by
  intro x hx
  obtain h | ⟨t, sig, ht, rfl⟩ := killOrphan_spec.2.2 x hx
  · exact hs x h
  · exact ⟨hpid, r, hr, rfl, fun p hp => hw.isRecorded hdelay hr hi hmatch ht hp⟩

theorem reapRecord_safe (hw : Undisturbed w delay) (hdelay : 0 ≤ delay) {name : Text}
    (hname : Turn w name) {r : SupervisorPidRecord} {t : Nat} (hr : w.record t name = some r)
    {s : Sweep} (hs : Safe w delay s) :
    Safe w delay (reapRecord w (w.runs 0) name r s).sweep ∧
      s.keep ⊆ (reapRecord w (w.runs 0) name r s).sweep.keep := by
  have hrec : Recorded w r := ⟨t, name, hname.suffix, hr⟩
  unfold reapRecord
  split
  · exact ⟨hs, List.subset_append_left _ _⟩
  · rename_i hlive
    split
    · exact ⟨hw.discard hname hr hlive hs, by simp [discard, disposeRunDir_keep, deletes, pause, Sweep.emit]⟩
    · split
      · rename_i s₁ h₁
        obtain ⟨hev, hkeep, -, -⟩ := probeIdentity_spec hw hrec h₁
        refine ⟨?_, ?_⟩
        · intro x hx
          exact hs x (hev ▸ hx)
        · exact hkeep ▸ List.subset_append_left _ _
      · rename_i i s₁ h₁
        obtain ⟨hev, hkeep, -, hi⟩ := probeIdentity_spec hw hrec h₁
        obtain ⟨hpid, hi⟩ := hi i rfl
        have hs₁ : Safe w delay s₁ := fun x hx => hs x (hev ▸ hx)
        split
        · exact ⟨hw.discard hname hr hlive hs₁,
            by simp [discard, disposeRunDir_keep, deletes, pause, Sweep.emit, hkeep]⟩
        · rename_i hmatch
          have hkill := hs₁.killOrphan hw hdelay hrec hpid hi (by simpa using hmatch)
          refine ⟨hw.discard hname hr hlive hkill, ?_⟩
          simp [discard, disposeRunDir_keep, deletes, pause, Sweep.emit, killOrphan_spec.1, hkeep]

theorem reapFile_safe (hw : Undisturbed w delay) (hdelay : 0 ≤ delay) {name : Text}
    (hname : Turn w name) {s : Sweep} (hs : Safe w delay s) :
    Safe w delay (reapFile w (w.runs 0) name s).sweep ∧
      s.keep ⊆ (reapFile w (w.runs 0) name s).sweep.keep := by
  unfold reapFile
  dsimp only
  split
  · rename_i hnone
    refine ⟨?_, List.Subset.refl _⟩
    refine Safe.deletes hs ?_
    apply hw.unlink hname (pause w 0 s).time
    simp [hnone]
  · rename_i r hr
    exact reapRecord_safe hw hdelay hname hr (s := pause w 0 (pause w 0 s)) hs

/-! ## The whole sweep -/

theorem reapFiles_safe (hw : Undisturbed w delay) (hdelay : 0 ≤ delay) {names : List Text}
    (hnames : ∀ name ∈ names, Turn w name) {s : Sweep} (hs : Safe w delay s) :
    Safe w delay (reapFiles w (w.runs 0) names s).sweep ∧
      s.keep ⊆ (reapFiles w (w.runs 0) names s).sweep.keep := by
  induction names generalizing s with
  | nil => exact ⟨hs, List.Subset.refl _⟩
  | cons name names ih =>
    obtain ⟨hfile, hkeep⟩ := reapFile_safe hw hdelay (hnames name (by simp)) hs
    simp only [reapFiles]
    split
    · exact ⟨hfile, hkeep⟩
    · obtain ⟨hrest, hkeep'⟩ := ih (fun n hn => hnames n (by simp [hn])) hfile
      exact ⟨hrest, List.Subset.trans hkeep hkeep'⟩

theorem removeAll_safe {dirs : List Text} {s : Sweep} (hs : Safe w delay s)
    (h : ∀ dir ∈ dirs, ∀ t, Allowed w delay t (.remove dir)) :
    Safe w delay (removeAll w dirs s) := by
  induction dirs generalizing s with
  | nil => exact hs
  | cons dir dirs ih =>
    refine ih (hs.deletes (h dir (by simp) s.time)) ?_
    intro d hd
    exact h d (by simp [hd])

theorem mem_of_mapM {α β : Type} {f : α → Option β} {xs : List α} {ys : List β}
    (h : xs.mapM f = some ys) {x : α} {y : β} (hx : x ∈ xs) (hy : f x = some y) : y ∈ ys := by
  induction xs generalizing ys with
  | nil => contradiction
  | cons a xs ih =>
    simp only [List.mapM_cons, Option.bind_eq_bind, Option.bind_eq_some_iff, Option.pure_def,
      Option.some.injEq] at h
    obtain ⟨b, hb, bs, hbs, rfl⟩ := h
    obtain rfl | hx := List.mem_cons.mp hx
    · simp_all
    · exact List.mem_cons_of_mem _ (ih hbs hx)

theorem sweepRunDirs_safe (hw : Undisturbed w delay) {ids : List Text} (hids : w.runs 0 ⊆ ids)
    {s : Sweep} (hs : Safe w delay s) : Safe w delay (sweepRunDirs w ids s).sweep := by
  unfold sweepRunDirs
  split
  · exact hs
  · rename_i keep hkeep
    dsimp only
    split
    · exact hs
    · rename_i entries hentries
      refine removeAll_safe (s := pause w 0 (pause w 0 s)) hs ?_
      intro dir hdir t
      simp only [List.mem_map, List.mem_filter, Bool.and_eq_true, decide_eq_true_eq] at hdir
      obtain ⟨e, ⟨he, hisDir, hnot⟩, rfl⟩ := hdir
      refine ⟨.inr ⟨_, e, ⟨entries, hentries, he⟩, hisDir, rfl⟩, ?_⟩
      intro id hid heq
      rw [hw.runs] at hid
      exact hnot (mem_of_mapM hkeep (hids hid) heq)

def orphan : SupervisorPidRecord := ⟨100, ['t'], ['/', 'o'], ['a']⟩

def running : SupervisorPidRecord := ⟨200, ['t'], ['/', 'f'], ['b']⟩

/-- The orphan's pid is held by a process that runs its executable and started at `start`, which
`stat` prints as `seconds`. -/
def pidHeldBy (start : ℚ) (seconds : Text) : World where
  holder _ pid :=
    if pid = 100 then some ⟨['/', 'o'], start⟩ else if pid = 200 then some ⟨['/', 'f'], start⟩ else none
  group _ _ := false
  runs _ := [['b']]
  listing _ := some [⟨['a', '.', 'p', 'i', 'd'], false⟩, ⟨['b', '.', 'p', 'i', 'd'], false⟩,
    ⟨['b'], true⟩]
  record _ name :=
    if name = ['a', '.', 'p', 'i', 'd'] then some orphan
    else if name = ['b', '.', 'p', 'i', 'd'] then some running else none
  output _ tool pid :=
    if pid = 100 then
      match tool with
      | .readlink => some ['/', 'o', '\n']
      | .stat => some seconds
      | _ => none
    else none
  wait _ := 0
  dateParse t := if t = ['t'] then some 1000000000 else none
  toLower t := t
  platform := .linux
  reapTermGraceMs := 200

theorem recorded_pidHeldBy {start : ℚ} {seconds : Text} {r : SupervisorPidRecord}
    (h : Recorded (pidHeldBy start seconds) r) : r = orphan ∨ r = running := by
  obtain ⟨t, name, -, h⟩ := h
  simp only [pidHeldBy] at h
  split at h
  · exact .inl (Option.some.inj h).symm
  · split at h
    · exact .inr (Option.some.inj h).symm
    · contradiction

theorem prints_pidHeldBy {start n : ℚ} {seconds : Text} (hn : number (trim seconds) = some n)
    (hle : n * 1000 ≤ start) (t : Nat) (tool : Tool) (pid : Int) (out : Text)
    (h : (pidHeldBy start seconds).output t tool pid = some out) :
    ∃ p, (pidHeldBy start seconds).holder t pid = some p ∧
      Prints (pidHeldBy start seconds) p out tool := by
  simp only [pidHeldBy] at h
  split at h
  · rename_i hpid
    refine ⟨⟨['/', 'o'], start⟩, by simp [pidHeldBy, hpid], ?_⟩
    cases tool with
    | readlink =>
      obtain rfl := Option.some.inj h
      exact (by decide : trim ['/', 'o', '\n'] = ['/', 'o'])
    | stat =>
      obtain rfl := Option.some.inj h
      exact ⟨n, hn, hle⟩
    | ps => contradiction
    | powershell => contradiction
  · contradiction

theorem undisturbed_pidHeldBy :
    Undisturbed (pidHeldBy 999999500 ['9', '9', '9', '9', '9', '9']) 60000 where
  prints := prints_pidHeldBy (n := 999999) (by decide +kernel) (by norm_num)
  unique r hr t p recorded hp _ hdate := by
    obtain rfl | rfl := recorded_pidHeldBy hr
    · obtain rfl : (⟨['/', 'o'], 999999500⟩ : ProcessIdentity) = p := Option.some.inj hp
      obtain rfl : (1000000000 : ℚ) = recorded := Option.some.inj hdate
      norm_num [START_TIME_TOLERANCE_MS]
    · obtain rfl : (⟨['/', 'f'], 999999500⟩ : ProcessIdentity) = p := Option.some.inj hp
      obtain rfl : (1000000000 : ℚ) = recorded := Option.some.inj hdate
      norm_num [START_TIME_TOLERANCE_MS]
  steady _ _ _ _ _ _ h := h
  runs _ := rfl
  own id hid dir hdir t e _ he t' := by
    obtain rfl := List.mem_singleton.mp hid
    obtain rfl : ['b'] = dir := Option.some.inj hdir
    exact ⟨running, by rw [he]; rfl, rfl⟩
  apart id hid r hr heq := by
    obtain rfl := List.mem_singleton.mp hid
    obtain rfl | rfl := recorded_pidHeldBy hr
    · exact absurd heq (by decide)
    · rfl

end OpsMaxx.Reap
