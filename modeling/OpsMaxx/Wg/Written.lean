import OpsMaxx.Wg.Config

/-!
# What the file says

The lines of a file without the maps they are read into: the settings in the order they were
written, and the sections with all of theirs. Reading keeps of a key the last setting in a section,
and a warning names each one it replaces.
-/

set_option autoImplicit false

namespace OpsMaxx.Wg

open Machine (Reporting)
open Machine.Reporting
open Store (JsMap)
open Strings

variable (other : Text → Text)

/-! ## Settings and sections -/

structure Setting where
  line : Nat
  raw : Text
  key : Text
  value : Text
  deriving DecidableEq

def Setting.entry (s : Setting) : Entry := ⟨s.value, s.line, s.raw⟩

/-- What a line says once its comment is gone. -/
def lineOf (raw : Text) : Text := trim (stripComment raw)

def settingOf (lineNo : Nat) (raw : Text) : Option Setting :=
  if (headerName (lineOf raw)).isSome then none
  else
    (cutAt ['='] (lineOf raw)).map fun found =>
      ⟨lineNo, raw, toLowerCase other (trim found.1), trim found.2⟩

def headerOf (raw : Text) : Option SectionName :=
  (headerName (lineOf raw)).bind fun written => sectionName (toLowerCase other written)

/-- Every `Key = value` line. -/
def settingsFrom (lineNo : Nat) : List Text → List Setting
  | [] => []
  | raw :: rest => (settingOf other lineNo raw).toList ++ settingsFrom (lineNo + 1) rest

structure Block where
  name : SectionName
  settings : List Setting
  deriving DecidableEq

/-- The settings above the first header, and the sections below. -/
def blocksFrom (lineNo : Nat) : List Text → List Setting × List Block
  | [] => ([], [])
  | raw :: rest =>
    let below := blocksFrom (lineNo + 1) rest
    match headerOf other raw with
    | some name => ([], ⟨name, below.1⟩ :: below.2)
    | none => ((settingOf other lineNo raw).toList ++ below.1, below.2)

def settings (text : Text) : List Setting := settingsFrom other 1 (linesOf text)

def blocks (text : Text) : List Block := (blocksFrom other 1 (linesOf text)).2

/-- The setting of a key that counts. -/
def lastOf (key : Text) (settings : List Setting) : Option Setting :=
  settings.reverse.find? fun s => s.key = key

def Block.last (b : Block) (key : Text) : Option Setting := lastOf key b.settings

variable {other}

theorem settingsFrom_blocks (lines : List Text) (n : Nat) :
    settingsFrom other n lines =
      (blocksFrom other n lines).1 ++ (blocksFrom other n lines).2.flatMap Block.settings := by
  induction lines generalizing n with
  | nil => rfl
  | cons raw rest ih =>
    rw [settingsFrom, blocksFrom, ih]
    cases hheader : headerOf other raw with
    | some name =>
      have hnot : settingOf other n raw = none := by
        unfold settingOf
        unfold headerOf at hheader
        rw [if_pos]
        cases hname : headerName (lineOf raw) with
        | some written => rfl
        | none => simp [hname] at hheader
      simp [hnot]
    | none => simp

theorem lastOf_append_self (settings : List Setting) (s : Setting) :
    lastOf s.key (settings ++ [s]) = some s := by
  simp [lastOf]

theorem lastOf_append_ne {settings : List Setting} {s : Setting} {key : Text} (h : s.key ≠ key) :
    lastOf key (settings ++ [s]) = lastOf key settings := by
  simp [lastOf, h]

/-! ## What one line does -/

def isHook (key : Text) : Bool := (WG_REJECT_RULES.lookup key).isSome

def duplicates (last : Section) (lineNo : Nat) (key value : Text) : List Text :=
  ((last.values.get key).map fun prev =>
    duplicateWarning lineNo key last.name value prev.value).toList

theorem gives_warnDuplicate {last : Section} {n : Nat} {key value : Text} {s t : Ctx} {u : PUnit} :
    Gives (warnDuplicate last n key value) s u t ↔
      { s with warnings := s.warnings ++ duplicates last n key value } = t := by
  unfold warnDuplicate duplicates
  cases last.values.get key with
  | none => simp
  | some prev => exact gives_modify

/-- A line that is read opens a section, sets a key in the last one, or says nothing. -/
inductive Line (sections : List Section) (n : Nat) (raw : Text) (s : Ctx) :
    List Section → Ctx → Prop
  | blank (hset : settingOf other n raw = none) (hhead : headerOf other raw = none) :
      Line sections n raw s sections s
  | header (name : SectionName) (hhead : headerOf other raw = some name)
      (hsingle : name = .interface → ∀ sec ∈ sections, sec.name ≠ .interface) :
      Line sections n raw s (sections ++ [⟨name, .empty⟩]) s
  | setting (written : Setting) (before : List Section) (last : Section)
      (hset : settingOf other n raw = some written) (hhead : headerOf other raw = none)
      (hline : written.line = n) (hhook : isHook written.key = false)
      (hsections : sections = before ++ [last]) :
      Line sections n raw s
        (before ++ [⟨last.name, last.values.set written.key written.entry⟩])
        { s with warnings := s.warnings ++ duplicates last n written.key written.value }

theorem gives_readSetting {sections out : List Section} {n : Nat} {raw key value : Text}
    {s t : Ctx} (h : Gives (readSetting sections n raw key value) s out t) :
    isHook key = false ∧ ∃ before last, sections = before ++ [last] ∧
      out = before ++ [⟨last.name, last.values.set key ⟨value, n, raw⟩⟩] ∧
      t = { s with warnings := s.warnings ++ duplicates last n key value } := by
  unfold readSetting at h
  split_ifs at h with hkey
  · exact absurd h not_gives_throw
  split at h
  · obtain ⟨_, _, -, hthrow⟩ := gives_bind.mp h
    exact absurd hthrow not_gives_throw
  · rename_i hlookup
    cases hlast : sections.getLast? with
    | none =>
      rw [hlast] at h
      exact absurd h not_gives_throw
    | some last =>
      rw [hlast] at h
      obtain ⟨_, u, hwarn, hpure⟩ := gives_bind.mp h
      obtain ⟨hout, hu⟩ := gives_pure.mp hpure
      rw [gives_warnDuplicate] at hwarn
      refine ⟨by simp [isHook, hlookup], sections.dropLast, last, ?_, ?_, ?_⟩
      · exact (List.dropLast_append_getLast? last hlast).symm
      · rw [← hout]
        rfl
      · rw [hwarn, hu]

theorem gives_readHeader {sections out : List Section} {n : Nat} {raw written : Text} {s t : Ctx}
    (h : Gives (readHeader other sections n raw written) s out t) :
    ∃ name, sectionName (toLowerCase other written) = some name ∧
      (name = .interface → ∀ sec ∈ sections, sec.name ≠ .interface) ∧
      out = sections ++ [⟨name, .empty⟩] ∧ t = s := by
  unfold readHeader at h
  cases hname : sectionName (toLowerCase other written) with
  | none =>
    rw [hname] at h
    exact absurd h not_gives_throw
  | some name =>
    rw [hname] at h
    simp only at h
    split_ifs at h with hsecond
    · exact absurd h not_gives_throw
    · obtain ⟨hout, hst⟩ := gives_pure.mp h
      refine ⟨name, rfl, ?_, hout.symm, hst.symm⟩
      intro hif sec hsec hsecname
      apply hsecond
      exact ⟨hif, List.any_eq_true.mpr ⟨sec, hsec, by simpa using hsecname⟩⟩

theorem line_of_gives {sections out : List Section} {n : Nat} {raw : Text} {s t : Ctx}
    (h : Gives (readLine other sections n raw) s out t) :
    @Line other sections n raw s out t := by
  unfold readLine at h
  simp only at h
  split_ifs at h with hblank
  · obtain ⟨hout, hst⟩ := gives_pure.mp h
    subst hout hst
    have hempty : lineOf raw = [] := hblank
    apply Line.blank
    · simp [settingOf, hempty, headerName, cutAt]
    · simp [headerOf, hempty, headerName]
  · have hline : trim (stripComment raw) = lineOf raw := rfl
    rw [hline] at h
    cases hheader : headerName (lineOf raw) with
    | some written =>
      rw [hheader] at h
      obtain ⟨name, hname, hsingle, rfl, rfl⟩ := gives_readHeader h
      exact Line.header name (by simp [headerOf, hheader, hname]) hsingle
    | none =>
      rw [hheader] at h
      have hhead : headerOf other raw = none := by simp [headerOf, hheader]
      cases hcut : cutAt ['='] (lineOf raw) with
      | none =>
        rw [hcut] at h
        exact absurd h not_gives_throw
      | some found =>
        rw [hcut] at h
        obtain ⟨hhook, before, last, hsections, rfl, rfl⟩ := gives_readSetting h
        exact Line.setting ⟨n, raw, toLowerCase other (trim found.1), trim found.2⟩ before last
          (by simp [settingOf, hheader, hcut]) hhead rfl hhook hsections

/-! ## What all the lines do -/

/-- A warning names the setting as replaced by a later one of its key. -/
def Replaced (warnings : List Text) (b : Block) (s : Setting) : Prop :=
  ∃ later ∈ b.settings, later.key = s.key ∧ s.line < later.line ∧
    duplicateWarning later.line s.key b.name later.value s.value ∈ warnings

/-- A section holds of every key the last setting, and the others are named by warnings. -/
structure ReadAs (warnings : List Text) (n : Nat) (b : Block) (sec : Section) : Prop where
  name : sec.name = b.name
  values : ∀ key, sec.values.get key = (b.last key).map Setting.entry
  lines : ∀ s ∈ b.settings, s.line < n
  hooks : ∀ s ∈ b.settings, isHook s.key = false
  named : ∀ s ∈ b.settings, b.last s.key = some s ∨ Replaced warnings b s

theorem readAs_empty (warnings : List Text) (n : Nat) (name : SectionName) :
    ReadAs warnings n ⟨name, []⟩ ⟨name, .empty⟩ :=
  ⟨rfl, fun _ => rfl, by simp, by simp, by simp⟩

theorem ReadAs.mono {w w' : List Text} {n m : Nat} {b : Block} {sec : Section}
    (h : ReadAs w n b sec) (hw : w ⊆ w') (hn : n ≤ m) : ReadAs w' m b sec where
  name := h.name
  values := h.values
  lines s hs := lt_of_lt_of_le (h.lines s hs) hn
  hooks := h.hooks
  named s hs := by
    apply (h.named s hs).imp_right
    rintro ⟨later, hmem, hkey, hline, hwarn⟩
    exact ⟨later, hmem, hkey, hline, hw hwarn⟩

/-- A setting is added to a section. -/
theorem ReadAs.set {w : List Text} {b : Block} {sec : Section} {written : Setting}
    (h : ReadAs w written.line b sec) (hhook : isHook written.key = false) :
    ReadAs (w ++ duplicates sec written.line written.key written.value) (written.line + 1)
      ⟨b.name, b.settings ++ [written]⟩
      ⟨sec.name, sec.values.set written.key written.entry⟩ where
  name := h.name
  values key := by
    rw [JsMap.get_set]
    unfold Block.last
    split_ifs with hkey
    · rw [hkey, lastOf_append_self]
      rfl
    · rw [lastOf_append_ne (Ne.symm hkey)]
      exact h.values key
  lines s hs := by
    obtain hs | hs := List.mem_append.mp hs
    · have := h.lines s hs
      omega
    · rw [List.mem_singleton.mp hs]
      exact Nat.lt_succ_self _
  hooks s hs := by
    obtain hs | hs := List.mem_append.mp hs
    · exact h.hooks s hs
    · rw [List.mem_singleton.mp hs]
      exact hhook
  named s hs := by
    obtain hs | hs := List.mem_append.mp hs
    · by_cases hkey : written.key = s.key
      · right
        obtain hlast | ⟨later, hmem, hsame, hline, hwarn⟩ := h.named s hs
        · refine ⟨written, by simp, hkey, h.lines s hs, List.mem_append_right _ ?_⟩
          have hget : sec.values.get s.key = some s.entry := by
            rw [h.values, hlast]
            rfl
          simp [duplicates, hget, h.name, hkey, Setting.entry]
        · exact ⟨later, List.mem_append_left _ hmem, hsame, hline, List.mem_append_left _ hwarn⟩
      · obtain hlast | ⟨later, hmem, hsame, hline, hwarn⟩ := h.named s hs
        · left
          unfold Block.last
          rw [lastOf_append_ne hkey]
          exact hlast
        · right
          exact ⟨later, List.mem_append_left _ hmem, hsame, hline, List.mem_append_left _ hwarn⟩
    · left
      rw [List.mem_singleton.mp hs]
      exact lastOf_append_self _ _

/-- More settings at the end of the last section. -/
def joined : List Block → List Setting → List Block
  | [], _ => []
  | [b], more => [⟨b.name, b.settings ++ more⟩]
  | b :: c :: bs, more => b :: joined (c :: bs) more

theorem joined_nil (bs : List Block) : joined bs [] = bs := by
  induction bs with
  | nil => rfl
  | cons b bs ih =>
    cases bs with
    | nil => simp [joined]
    | cons c bs => rw [joined, ih]

theorem joined_append (before : List Block) (last : Block) (more : List Setting) :
    joined (before ++ [last]) more = before ++ [⟨last.name, last.settings ++ more⟩] := by
  induction before with
  | nil => rfl
  | cons b before ih =>
    cases before with
    | nil => rfl
    | cons c before =>
      rw [List.cons_append, List.cons_append, joined, ← List.cons_append, ih]
      rfl

theorem readAs_all_mono {w w' : List Text} {n m : Nat} {bs : List Block} {sections : List Section}
    (h : List.Forall₂ (ReadAs w n) bs sections) (hw : w ⊆ w') (hn : n ≤ m) :
    List.Forall₂ (ReadAs w' m) bs sections :=
  h.imp fun _ _ hr => hr.mono hw hn

theorem forall₂_concat {α β : Type} {R : α → β → Prop} {as : List α} {bs : List β} {b : β}
    (h : List.Forall₂ R as (bs ++ [b])) :
    ∃ as' a, as = as' ++ [a] ∧ List.Forall₂ R as' bs ∧ R a b := by
  have hfirst := List.forall₂_take_append _ _ _ h
  have hlast := List.forall₂_drop_append _ _ _ h
  obtain ⟨a, l, hab, hnil, hdrop⟩ := List.forall₂_cons_right_iff.mp hlast
  rw [List.forall₂_nil_right_iff.mp hnil] at hdrop
  refine ⟨as.take bs.length, a, ?_, hfirst, hab⟩
  rw [← hdrop, List.take_append_drop]

/-- The sections are what the blocks were read as, those begun before and those the lines begin. -/
theorem blocks_of_gives {lines : List Text} {sections out : List Section} {n : Nat} {s t : Ctx}
    {bs : List Block} (h : Gives (readLines other sections n lines) s out t)
    (hread : List.Forall₂ (ReadAs s.warnings n) bs sections) :
    (bs = [] → (blocksFrom other n lines).1 = []) ∧ t.stripped = s.stripped ∧
      List.Forall₂ (ReadAs t.warnings (n + lines.length))
        (joined bs (blocksFrom other n lines).1 ++ (blocksFrom other n lines).2) out := by
  induction lines generalizing sections n s bs with
  | nil =>
    obtain ⟨rfl, rfl⟩ := gives_pure.mp h
    simpa [blocksFrom, joined_nil] using hread
  | cons raw rest ih =>
    obtain ⟨middle, u, hline, hrest⟩ := gives_bind.mp h
    have hlength : n + (raw :: rest).length = n + 1 + rest.length := by
      rw [List.length_cons]
      omega
    rw [hlength, blocksFrom]
    cases line_of_gives hline with
    | blank hset hhead =>
      obtain ⟨hnone, hstripped, hall⟩ := ih hrest (readAs_all_mono hread (fun _ h => h) (by omega))
      simpa [hset, hhead] using ⟨hnone, hstripped, hall⟩
    | header name hhead hsingle =>
      have hopened := List.rel_append (readAs_all_mono hread (fun _ h => h) (Nat.le_succ n))
        (List.Forall₂.cons (readAs_empty s.warnings (n + 1) name) .nil)
      obtain ⟨-, hstripped, hall⟩ := ih hrest hopened
      rw [joined_append, List.append_assoc] at hall
      simpa [hhead, joined_nil] using ⟨hstripped, hall⟩
    | setting written before last hset hhead hnumber hhook hsections =>
      subst hnumber hsections
      obtain ⟨before', b, rfl, hbefore, hlast⟩ := forall₂_concat hread
      have hset' := List.rel_append
        (readAs_all_mono hbefore (List.subset_append_left _ _) (Nat.le_succ written.line))
        (List.Forall₂.cons (hlast.set hhook) .nil)
      obtain ⟨-, hstripped, hall⟩ := ih hrest hset'
      rw [joined_append, List.append_assoc, List.append_assoc] at hall
      simpa [hset, hhead, joined_append] using ⟨hstripped, hall⟩

/-- There is never a second interface. -/
theorem single_of_gives {lines : List Text} {sections out : List Section} {n : Nat} {s t : Ctx}
    (h : Gives (readLines other sections n lines) s out t)
    (hone : sections.countP (fun sec => sec.name = .interface) ≤ 1) :
    out.countP (fun sec => sec.name = .interface) ≤ 1 := by
  induction lines generalizing sections n s with
  | nil =>
    obtain ⟨rfl, -⟩ := gives_pure.mp h
    exact hone
  | cons raw rest ih =>
    obtain ⟨middle, u, hline, hrest⟩ := gives_bind.mp h
    apply ih hrest
    cases line_of_gives hline with
    | blank hset hhead => exact hone
    | header name hhead hsingle =>
      rw [List.countP_append]
      by_cases hname : name = .interface
      · have hzero : sections.countP (fun sec => sec.name = .interface) = 0 := by
          rw [List.countP_eq_zero]
          simpa using hsingle hname
        rw [hzero]
        simp [hname]
      · simpa [List.countP_cons, hname] using hone
    | setting written before last hset hhead hnumber hhook hsections =>
      rw [hsections] at hone
      simpa [List.countP_append, List.countP_cons] using hone

/-- The blocks of an accepted file, read into its sections. -/
theorem sections_of_gives {lines : List Text} {sections : List Section} {t : Ctx}
    (h : Gives (readLines other [] 1 lines) ⟨[], []⟩ sections t) :
    (blocksFrom other 1 lines).1 = [] ∧ t.stripped = [] ∧
      List.Forall₂ (ReadAs t.warnings (1 + lines.length)) (blocksFrom other 1 lines).2 sections := by
  obtain ⟨hnone, hstripped, hall⟩ := blocks_of_gives h .nil
  exact ⟨hnone rfl, hstripped, hall⟩

end OpsMaxx.Wg
