import Mathlib.Data.List.Forall2
import Mathlib.Data.List.Nodup
import OpsMaxx.Drift.Framed

/-! # What a reading says of the file

The collection of a host, cut off anywhere: when a reading is `ok`, when it is `absent`, and what
the other statuses name.
-/

set_option autoImplicit false

namespace OpsMaxx.Drift

open OpsMaxx.Strings OpsMaxx.Sidecar

/-- Watches whose ids are words and tell them apart. -/
structure Catalogue where
  watches : List DriftWatch
  id_word : ∀ w ∈ watches, IsWord w.id
  distinct : (watches.map DriftWatch.id).Nodup

def stockCatalogue : Catalogue where
  watches := DRIFT_WATCHES
  id_word := by
    unfold IsWord
    decide +kernel
  distinct := by decide +kernel

namespace Host

variable (h : Host) (cap : Nat) (escalate : Bool)

/-- The collection made of the first `n` characters of the script's output. -/
def collect (c : Catalogue) (n : Nat) : DriftCollection :=
  parseDriftCollection ((h.run (buildDriftCommand c.watches cap escalate)).take n) c.watches

/-- What a reading says of the file. -/
def Faithful (cutOff : Prop) (p : Text) (r : DriftFileRead) : Prop :=
  match r.status with
  | .ok => h.kind p = .regular ∧ (h.content p).length ≤ cap ∧
      ∃ b64, r.contentB64 = some b64 ∧ base64Decode b64 = some (h.content p)
  | .absent => h.kind p = .missing
  | .tooLarge => h.kind p = .regular ∧ cap < (h.content p).length
  | .denied => h.mayEnter .self (parentOf p) = false ∨
      h.kind p = .regular ∧ h.mayRead .self p = false
  | .noTool => h.hasTool = false
  | .unsupported => h.kind p = .other
  | .unknown => cutOff

/-- Where a file's content is sent, it is sent whole, and it is no larger than the cap. -/
structure SentWhole (p : Text) : Prop where
  own : h.hasTool = true → h.ownRead p = true → (h.counted p).getD 0 ≤ cap →
    h.readAs .self p = h.content p ∧ (h.content p).length ≤ cap
  root : h.hasTool = true → h.rootRead escalate p = true →
    h.sudoCat p = h.content p ∧ (h.content p).length ≤ cap

variable {h cap escalate} {p : Text}

/-! ## The blocks -/

theorem digits_word (n : Nat) : IsWord (digits n) := by
  refine ⟨Nat.toDigits_ne_nil, ?_⟩
  intro c hc
  exact isInk_of_isDigit (Nat.isDigit_of_mem_toDigits (by decide) (by decide) hc)

theorem readBlock_wired (n : Nat) (b : Bytes) : (h.readBlock cap n b).Wired := by
  have hdash : IsWord ['-'] := ⟨by simp, by decide⟩
  unfold readBlock
  split_ifs with htool hcap
  · exact ⟨hdash, by simp, by simp⟩
  · exact ⟨digits_word n, by simp, by simp⟩
  · refine ⟨digits_word n, ?_, by simp⟩
    intro chunks hchunks c hc x hx
    cases hchunks
    have hmem : x ∈ base64Encode b := by
      rw [← h.wrap_flatten (base64Encode b)]
      exact List.mem_flatten.mpr ⟨c, hc, hx⟩
    have hall : ∀ x ∈ '=' :: base64Alphabet, isInk x = true := by decide +kernel
    exact hall x (base64Encode_mem b x hmem)

theorem classifyBlock_wired (p : Text) : (h.classifyBlock p).Wired := by
  have hdash : IsWord ['-'] := ⟨by simp, by decide⟩
  unfold classifyBlock
  split_ifs
  · exact ⟨hdash, by simp, by simp⟩
  · exact ⟨hdash, by simp, by simp⟩
  · exact ⟨hdash, by simp, by simp⟩
  · exact ⟨hdash, by simp, by simp⟩

variable (h cap escalate) in
theorem blockOf_wired (p : Text) : (h.blockOf cap escalate p).Wired := by
  unfold blockOf
  split_ifs
  · exact readBlock_wired _ _
  · exact readBlock_wired _ _
  · exact classifyBlock_wired p

/-- What a block of content carries is what was delivered. -/
theorem decode_chunks {n : Nat} {b : Bytes} (hok : (h.readBlock cap n b).status = .ok) :
    ∃ b64, (h.readBlock cap n b).chunks.map List.flatten = some b64 ∧
      base64Decode b64 = some b := by
  unfold readBlock at hok ⊢
  split_ifs at hok ⊢ with htool hcap
  refine ⟨base64Encode b, ?_, base64Decode_encode b⟩
  rw [Option.map_some, h.wrap_flatten]

theorem readBlock_ok {n : Nat} {b : Bytes} :
    (h.readBlock cap n b).status = .ok ↔ h.hasTool = true ∧ n ≤ cap := by
  unfold readBlock
  split_ifs with htool hcap
  · simp [htool]
  · simp [Nat.not_le.mpr hcap]
  · simp only [Bool.not_eq_false] at htool
    simp [htool, Nat.not_lt.mp hcap]

theorem kind_of_ownRead (hown : h.ownRead p = true) : h.kind p = .regular := by
  simp only [ownRead, isFile, Bool.and_eq_true, beq_iff_eq] at hown
  exact hown.1.2

theorem kind_of_rootRead (hroot : h.rootRead escalate p = true) : h.kind p = .regular := by
  simp only [rootRead, isFile, Bool.and_eq_true, beq_iff_eq] at hroot
  exact hroot.2.2.2

theorem ownRead_of_rootRead (hroot : h.rootRead escalate p = true) : h.ownRead p = false := by
  simp only [rootRead, Bool.and_eq_true, Bool.not_eq_true'] at hroot
  exact hroot.1.1.1

/-! ## What the statuses name -/

variable {cutOff : Prop} {r : DriftFileRead}

/-- A reading made of a read file's block. -/
theorem faithful_read {n : Nat} {b : Bytes} (hkind : h.kind p = .regular)
    (hn : cap < n → cap < (h.content p).length)
    (hsent : h.hasTool = true → n ≤ cap → b = h.content p ∧ (h.content p).length ≤ cap)
    (hstatus : r.status = (h.readBlock cap n b).status)
    (hcontent : r.status = .ok → r.contentB64 = (h.readBlock cap n b).chunks.map List.flatten) :
    Faithful h cap cutOff p r := by
  unfold Faithful
  by_cases hok : r.status = .ok
  · rw [hok]
    have hblock : (h.readBlock cap n b).status = .ok := hstatus.symm.trans hok
    obtain ⟨htool, hle⟩ := readBlock_ok.mp hblock
    obtain ⟨hwhole, hsize⟩ := hsent htool hle
    obtain ⟨b64, hb64, hdecode⟩ := decode_chunks hblock
    refine ⟨hkind, hsize, b64, (hcontent hok).trans hb64, ?_⟩
    rw [hdecode, hwhole]
  · rw [hstatus] at hok ⊢
    unfold readBlock at hok ⊢
    split_ifs at hok ⊢ with htool hcap
    · exact htool
    · exact ⟨hkind, hn hcap⟩
    · exact absurd rfl hok

theorem faithful_classify (hread : h.isFile .self p = true → h.canRead .self p = false)
    (hstatus : r.status = (h.classifyBlock p).status) : Faithful h cap cutOff p r := by
  unfold Faithful
  rw [hstatus]
  unfold classifyBlock
  split_ifs with henter hthere hfile
  · exact Or.inl henter
  · rw [Bool.not_eq_false] at henter
    simpa [sees, henter] using hthere
  · rw [Bool.not_eq_false] at hthere
    have hsees := hthere
    simp only [sees, Bool.and_eq_true, bne_iff_ne, ne_eq] at hthere
    simp only [isFile, hsees, Bool.true_and, beq_eq_false_iff_ne, ne_eq] at hfile
    cases hkind : h.kind p with
    | missing => exact absurd hkind hthere.1
    | regular => exact absurd hkind hfile
    | other => rfl
  · rw [Bool.not_eq_false] at hfile
    have hdenied := hread hfile
    simp only [isFile, Bool.and_eq_true, beq_iff_eq] at hfile
    simp only [canRead, hfile.1, Bool.true_and] at hdenied
    exact Or.inr ⟨hfile.2, hdenied⟩

/-- A reading that says what the block says is so, where content is sent whole. -/
theorem faithful_block (hw : SentWhole h cap escalate p)
    (hstatus : r.status = (h.blockOf cap escalate p).status)
    (hcontent : r.status = .ok →
      r.contentB64 = (h.blockOf cap escalate p).chunks.map List.flatten) :
    Faithful h cap cutOff p r := by
  unfold blockOf at hstatus hcontent
  split_ifs at hstatus hcontent with hown hroot
  · apply faithful_read (kind_of_ownRead hown) _ (fun htool => hw.own htool hown) hstatus hcontent
    intro hcap
    cases hcount : h.counted p with
    | none =>
      rw [hcount] at hcap
      cases hcap
    | some n =>
      rw [hcount] at hcap
      exact lt_of_lt_of_le hcap (h.counted_le p n hcount)
  · apply faithful_read (kind_of_rootRead hroot) _ (fun htool _ => hw.root htool hroot) hstatus
      hcontent
    intro hcap
    cases hcap
  · apply faithful_classify _ hstatus
    intro hfile
    rw [Bool.not_eq_true] at hown
    simpa [ownRead, hfile] using hown

/-- A reading that is so, of a block that came whole, was sent whole. -/
theorem sentWhole_of_faithful (hstatus : r.status = (h.blockOf cap escalate p).status)
    (hcontent : r.contentB64 = (h.blockOf cap escalate p).chunks.map List.flatten)
    (hf : Faithful h cap cutOff p r) : SentWhole h cap escalate p := by
  have hread : ∀ {n : Nat} {b : Bytes}, h.blockOf cap escalate p = h.readBlock cap n b →
      h.hasTool = true → n ≤ cap → b = h.content p ∧ (h.content p).length ≤ cap := by
    intro n b hblock htool hle
    rw [hblock] at hstatus hcontent
    have hok : (h.readBlock cap n b).status = .ok := readBlock_ok.mpr ⟨htool, hle⟩
    unfold Faithful at hf
    rw [hstatus, hok] at hf
    obtain ⟨-, hsize, b64, hb64, hdecode⟩ := hf
    obtain ⟨b64', hb64', hdecode'⟩ := decode_chunks hok
    rw [hcontent, hb64', Option.some.injEq] at hb64
    rw [← hb64, hdecode', Option.some.injEq] at hdecode
    exact ⟨hdecode, hsize⟩
  constructor
  · intro htool hown hle
    apply hread _ htool hle
    unfold blockOf
    rw [if_pos hown]
  · intro htool hroot
    apply hread _ htool (Nat.zero_le _)
    unfold blockOf
    rw [if_neg (by simp [ownRead_of_rootRead hroot]), if_pos hroot]

/-! ## The collection -/

variable (h cap escalate) (c : Catalogue)

def blocks : List (Text × Block) :=
  c.watches.map fun w => (w.id, h.blockOf cap escalate w.path)

theorem blocks_wired : AllWired (h.blocks cap escalate c) := by
  intro x hx
  obtain ⟨w, hw, rfl⟩ := List.mem_map.mp hx
  exact ⟨c.id_word w hw, blockOf_wired h cap escalate w.path⟩

theorem blocks_distinct : ((h.blocks cap escalate c).map Prod.fst).Nodup := by
  unfold blocks
  rw [List.map_map]
  exact c.distinct

/-- The lines of a collection behind its marker. -/
def recordLines : List Text := blockLines (h.blocks cap escalate c) ++ [DRIFT_STATUS_MARKER]

theorem printed_eq :
    h.printed cap escalate c.watches = DRIFT_MARKER :: h.recordLines cap escalate c := by
  simp [printed, recordLines, blockLines, blocks, List.flatMap_map]

theorem lines_newline {id : Text} {b : Block} (hid : IsWord id) (hb : b.Wired) :
    ∀ l ∈ b.lines id, '\n' ∉ l := by
  have hn : ∀ {t : Text}, (∀ x ∈ t, isInk x = true) → '\n' ∉ t :=
    fun h => not_mem_of_ink h (by decide)
  intro l hl
  unfold Block.lines at hl
  obtain rfl | hl := List.mem_cons.mp hl
  · simp [headerLine, hn hid.2, hn (word_ink b.status), hn hb.size_word.2]
  · cases hchunks : b.chunks with
    | none =>
      rw [hchunks] at hl
      cases hl
    | some chunks =>
      rw [hchunks] at hl
      obtain hl | hl := List.mem_append.mp hl
      · obtain ⟨chunk, hchunk, rfl⟩ := List.mem_map.mp hl
        simp [chunkLine, hn (hb.chunks_inked chunks hchunks chunk hchunk)]
      · rw [List.mem_singleton.mp hl]
        simp [closingLine, hn hid.2]

theorem recordLines_newline : ∀ l ∈ h.recordLines cap escalate c, '\n' ∉ l := by
  intro l hl
  obtain hl | hl := List.mem_append.mp hl
  · obtain ⟨x, hx, hl⟩ := List.mem_flatMap.mp hl
    obtain ⟨hid, hb⟩ := blocks_wired h cap escalate c x hx
    exact lines_newline hid hb l hl
  · rw [List.mem_singleton.mp hl]
    decide

theorem behind_of_prefix {needle s : Text} (hs : s ≠ []) (h : needle <+: s) :
    behind needle s = some (s.drop needle.length) := by
  cases s with
  | nil => exact absurd rfl hs
  | cons c cs =>
    unfold behind
    rw [if_pos h]

theorem behind_of_short {needle s : Text} (h : s.length < needle.length) :
    behind needle s = none := by
  induction s with
  | nil =>
    unfold behind
    rw [if_neg]
    rintro rfl
    cases h
  | cons c cs ih =>
    unfold behind
    rw [if_neg]
    · apply ih
      simp only [List.length_cons] at h
      omega
    · intro hprefix
      have := hprefix.length_le
      omega

/-- What the parser has on record of the first `n` characters. -/
def seenAt (n : Nat) : Text → Option DriftFileRead :=
  (parseLines .blank (((behind DRIFT_MARKER ((h.run (buildDriftCommand c.watches cap
    escalate)).take n)).getD []).splitOn '\n')).seen

theorem collect_files (n : Nat) :
    (h.collect cap escalate c n).files = c.watches.map (settle (h.seenAt cap escalate c n)) := rfl

/-- The lines the parser is given: none, or a cut of the records behind an empty line. -/
theorem body_cut (n : Nat) :
    ((behind DRIFT_MARKER ((h.run (buildDriftCommand c.watches cap escalate)).take n)).getD
      []).splitOn '\n' = [[]] ∨
    ∃ out, ((behind DRIFT_MARKER ((h.run (buildDriftCommand c.watches cap escalate)).take
      n)).getD []).splitOn '\n' = [] :: out ∧ Cut (h.recordLines cap escalate c) out := by
  rw [run_buildDriftCommand, printed_eq, unlines_cons]
  by_cases hn : n < DRIFT_MARKER.length
  · left
    rw [behind_of_short]
    · rfl
    · rw [List.length_take]
      omega
  · obtain ⟨m, rfl⟩ : ∃ m, n = DRIFT_MARKER.length + m := ⟨n - DRIFT_MARKER.length, by omega⟩
    rw [List.take_length_add_append, behind_of_prefix _ (List.prefix_append _ _),
      List.drop_left, Option.getD_some]
    · cases m with
      | zero => exact Or.inl rfl
      | succ m =>
        right
        rw [List.take_succ_cons]
        refine ⟨_, ?_, cut_take (recordLines_newline h cap escalate c) m⟩
        exact splitOn_newline_cons _
    · have hne : DRIFT_MARKER ≠ [] := by decide
      simp [hne]

theorem told_seenAt (n : Nat) :
    Told (h.blocks cap escalate c) (h.seenAt cap escalate c n) := by
  unfold seenAt
  obtain hnone | ⟨out, hout, hcut⟩ := body_cut h cap escalate c n
  · rw [hnone]
    intro id rec hseen
    cases hseen
  · rw [hout]
    show Told _ (parseLines (parseLine .blank []) out).seen
    rw [parseLine_short (Or.inl rfl)]
    exact told_cut (blocks_wired h cap escalate c) hcut

theorem seenAt_whole {n : Nat} (hn : (h.run (buildDriftCommand c.watches cap escalate)).length ≤ n)
    {w : DriftWatch} (hw : w ∈ c.watches) :
    h.seenAt cap escalate c n w.id = some ((h.blockOf cap escalate w.path).record w.id) := by
  have hbody : ((behind DRIFT_MARKER ((h.run (buildDriftCommand c.watches cap escalate)).take
      n)).getD []).splitOn '\n' = [] :: (h.recordLines cap escalate c ++ [[]]) := by
    rw [List.take_of_length_le hn, run_buildDriftCommand, printed_eq, unlines_cons,
      behind_of_prefix _ (List.prefix_append _ _), List.drop_left, Option.getD_some]
    · rw [← splitOn_unlines (recordLines_newline h cap escalate c)]
      exact splitOn_newline_cons _
    · have hne : DRIFT_MARKER ≠ [] := by decide
      simp [hne]
  have hrecord : (parseLines .blank (blockLines (h.blocks cap escalate c))).seen w.id =
      some ((h.blockOf cap escalate w.path).record w.id) := by
    apply seen_whole (blocks_wired h cap escalate c) (blocks_distinct h cap escalate c)
    exact List.mem_map.mpr ⟨w, hw, rfl⟩
  unfold seenAt
  rw [hbody]
  show (parseLines (parseLine .blank []) (blockLines (h.blocks cap escalate c) ++
    [DRIFT_STATUS_MARKER] ++ [[]])).seen w.id = _
  rw [parseLine_short (Or.inl rfl), parse_append, parse_append, ← hrecord, parse_single,
    parse_single, parseLine_short (Or.inl rfl), parseLine_marker _ List.prefix_rfl]

/-! ## The readings -/

variable {h cap escalate c}

theorem mem_blocks {w : DriftWatch} {b : Block} (hw : w ∈ c.watches)
    (hb : (w.id, b) ∈ h.blocks cap escalate c) : b = h.blockOf cap escalate w.path := by
  obtain ⟨w', hw', heq⟩ := List.mem_map.mp hb
  obtain ⟨hid, rfl⟩ := Prod.mk.inj heq
  rw [List.inj_on_of_nodup_map c.distinct hw' hw hid]

/-- Where content is sent whole, every reading of every cut is so. -/
theorem collect_faithful (hsent : ∀ w ∈ c.watches, SentWhole h cap escalate w.path) (n : Nat) :
    List.Forall₂ (fun w r => r.watchId = w.id ∧
      Faithful h cap (n < (h.run (buildDriftCommand c.watches cap escalate)).length) w.path r)
      c.watches (h.collect cap escalate c n).files := by
  rw [collect_files, List.forall₂_map_right_iff, List.forall₂_same]
  intro w hw
  by_cases hn : n < (h.run (buildDriftCommand c.watches cap escalate)).length
  · unfold settle
    cases hseen : h.seenAt cap escalate c n w.id with
    | none => exact ⟨rfl, hn⟩
    | some rec =>
      obtain ⟨hid, hrec⟩ := told_seenAt h cap escalate c n w.id rec hseen
      by_cases hfrag : rec.status = .ok ∧ rec.contentB64 = none
      · simp only [if_pos hfrag, true_and]
        exact hn
      · simp only [if_neg hfrag]
        refine ⟨hid, ?_⟩
        obtain hunknown | ⟨b, hb, hstatus, hcontent⟩ := hrec
        · unfold Faithful
          rw [hunknown]
          exact hn
        · rw [mem_blocks hw hb] at hstatus hcontent
          apply faithful_block (hsent w hw) hstatus
          intro hok
          obtain hnone | hcontent := hcontent
          · exact absurd ⟨hok, hnone⟩ hfrag
          · exact hcontent
  · have hseen := seenAt_whole h cap escalate c (not_lt.mp hn) hw
    rw [settle_record (blockOf_wired h cap escalate w.path) hseen]
    exact ⟨rfl, faithful_block (hsent w hw) rfl fun _ => rfl⟩

/-- What the readings of the whole output say, the script sent. -/
theorem sentWhole_of_collect {w : DriftWatch} (hw : w ∈ c.watches)
    (h₂ : List.Forall₂ (fun w r => r.watchId = w.id ∧
      Faithful h cap ((h.run (buildDriftCommand c.watches cap escalate)).length <
        (h.run (buildDriftCommand c.watches cap escalate)).length) w.path r)
      c.watches
      (h.collect cap escalate c (h.run (buildDriftCommand c.watches cap escalate)).length).files) :
    SentWhole h cap escalate w.path := by
  rw [collect_files, List.forall₂_map_right_iff, List.forall₂_same] at h₂
  obtain ⟨-, hf⟩ := h₂ w hw
  have hseen := seenAt_whole h cap escalate c le_rfl hw
  rw [settle_record (blockOf_wired h cap escalate w.path) hseen] at hf
  exact sentWhole_of_faithful rfl rfl hf

end Host

/-- However a collection is cut off, its readings are `ok` only of files that were read whole and
are no larger than the cap, `absent` only of files that are missing, and otherwise name why: just
when every file whose content the script sends is sent whole and is no larger than the cap. -/
theorem readings_whole (h : Host) (cap : Nat) (escalate : Bool) (c : Catalogue) :
    (∀ n, List.Forall₂ (fun w r => r.watchId = w.id ∧
      h.Faithful cap (n < (h.run (buildDriftCommand c.watches cap escalate)).length) w.path r)
      c.watches (h.collect cap escalate c n).files) ↔
    ∀ w ∈ c.watches, h.SentWhole cap escalate w.path := by
  constructor
  · intro hall w hw
    exact Host.sentWhole_of_collect hw (hall _)
  · intro hsent n
    exact Host.collect_faithful hsent n

/-- A host whose `sshd_config` only root may read, and is a byte over the cap. -/
def hardenedHost : Host where
  kind := fun _ => .regular
  content := fun _ => List.replicate (DRIFT_READ_CAP + 1) 35
  mayEnter := fun _ _ => true
  mayRead := fun a _ => a == .root
  sudoRuns := fun _ => true
  commands := fun c => c == "base64".toList
  counted := fun _ => some (DRIFT_READ_CAP + 1)
  counted_le := by
    intro p n hn
    rw [List.length_replicate]
    exact (Option.some.inj hn).ge
  delivered := fun _ _ => DRIFT_READ_CAP + 1
  wrap := fun t => [t]
  wrap_flatten := by simp
  padding := 0

theorem reading_over_cap :
    ¬∀ n, List.Forall₂ (fun w r => r.watchId = w.id ∧
      hardenedHost.Faithful DRIFT_READ_CAP (n < (hardenedHost.run
        (buildDriftCommand stockCatalogue.watches DRIFT_READ_CAP true)).length) w.path r)
      stockCatalogue.watches (hardenedHost.collect DRIFT_READ_CAP true stockCatalogue n).files := by
  intro hall
  have hw : (⟨"sshd-config".toList, "/etc/ssh/sshd_config".toList⟩ : DriftWatch) ∈
      stockCatalogue.watches := List.mem_cons_self
  have hsent := Host.sentWhole_of_collect hw (hall _)
  have hsize := (hsent.root (by decide) (by decide)).2
  rw [show (hardenedHost.content _).length = DRIFT_READ_CAP + 1 from List.length_replicate ..]
    at hsize
  omega

end OpsMaxx.Drift
