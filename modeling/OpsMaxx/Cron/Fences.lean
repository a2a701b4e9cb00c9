import OpsMaxx.Cron.Markers
import OpsMaxx.Cron.Kept
import Mathlib.Algebra.GroupWithZero.Nat

/-! # Files, found again

The files of a section are found again exactly when none of their lines reads as a fence. What a
file says depends on its lines and not on how they end, so a blank line more changes nothing.
-/

set_option autoImplicit false

namespace OpsMaxx.Cron

open OpsMaxx.Strings

/-! ## A crontab is what its lines say -/

def stripReturns (s : Text) : Text := s.filter (· ≠ '\r')

theorem cleanLine_eq (s : Text) : cleanLine s = trim (stripReturns s) := rfl

theorem cleanLine_strip (s : Text) : cleanLine (stripReturns s) = cleanLine s := by
  rw [cleanLine_eq, cleanLine_eq]
  simp [stripReturns]

/-- Splitting at newlines gives the same lines, but for carriage returns and a last empty one. -/
theorem splitOn_splitKeepingEol (t : Text) :
    ∃ last, (last = [] ∨ last = [[]]) ∧
      (t.splitOn '\n').map stripReturns =
        (splitKeepingEol t).map (fun l => stripReturns l.1) ++ last := by
  induction t with
  | nil => exact ⟨[[]], .inr rfl, by simp [splitKeepingEol, stripReturns]⟩
  | cons c cs ih =>
    obtain ⟨last, hlast, heq⟩ := ih
    rw [List.splitOn_cons_eq_if_modifyHead]
    unfold splitKeepingEol
    by_cases hc : c = '\n'
    · refine ⟨last, hlast, ?_⟩
      rw [if_pos (by simpa using hc), if_pos hc, List.map_cons, heq]
      rfl
    · rw [if_neg (by simpa using hc), if_neg hc]
      obtain ⟨p, ps, hp⟩ := List.exists_cons_of_ne_nil (List.splitOn_ne_nil '\n' cs)
      rw [hp] at heq ⊢
      cases hk : splitKeepingEol cs with
      | nil =>
        have hcs : cs = [] := splitKeepingEol_eq_nil.mp hk
        subst hcs
        refine ⟨[], .inl rfl, ?_⟩
        simp only [List.splitOn_nil, List.cons.injEq] at hp
        obtain ⟨rfl, rfl⟩ := hp
        simp [consLine]
      | cons l rest =>
        obtain ⟨text, eol⟩ := l
        rw [hk] at heq
        simp only [List.map_cons, List.cons_append, List.cons.injEq] at heq
        obtain ⟨hhead, htail⟩ := heq
        refine ⟨last, hlast, ?_⟩
        simp only [List.modifyHead_cons, List.map_cons, htail, consLine]
        split_ifs with hcr
        · obtain ⟨rfl, rfl, rfl⟩ := hcr
          simp only [List.map_cons, List.cons_append, List.cons.injEq, and_true]
          rw [← hhead]
          simp [stripReturns]
        · simp only [List.map_cons, List.cons_append, List.cons.injEq, and_true]
          unfold stripReturns at hhead ⊢
          simp only [List.filter_cons, hhead]

/-- What a line is does not depend on its carriage returns or its terminator. -/
theorem parseLine_congr {origin raw raw' eol eol' : Text} {kind : CronSourceKind}
    {hasUserField : Bool} (h : cleanLine raw = cleanLine raw') :
    (parseLine origin kind hasUserField raw eol).entry =
        (parseLine origin kind hasUserField raw' eol').entry ∧
      (parseLine origin kind hasUserField raw eol).kind =
        (parseLine origin kind hasUserField raw' eol').kind := by
  unfold parseLine
  simp only [h]
  split_ifs
  · exact ⟨rfl, rfl⟩
  · exact ⟨rfl, rfl⟩
  · exact ⟨rfl, rfl⟩
  · cases layoutJobLine (cleanLine raw') hasUserField <;> exact ⟨rfl, rfl⟩

theorem entryOfLine_strip (origin : Text) (kind : CronSourceKind) (hasUserField : Bool)
    (raw : Text) :
    entryOfLine origin kind hasUserField raw =
      entryOfLine origin kind hasUserField (stripReturns raw) :=
  (parseLine_congr (cleanLine_strip raw).symm).1

theorem unparsedOfLine_strip (origin : Text) (kind : CronSourceKind) (hasUserField : Bool)
    (raw : Text) :
    unparsedOfLine origin kind hasUserField raw =
      unparsedOfLine origin kind hasUserField (stripReturns raw) := by
  have hkind : (parseLine origin kind hasUserField raw []).kind =
      (parseLine origin kind hasUserField (stripReturns raw) []).kind :=
    (parseLine_congr (cleanLine_strip raw).symm).2
  unfold unparsedOfLine
  rw [hkind, cleanLine_strip]

/-- A function of stripped lines, over the lines either way of splitting. -/
theorem filterMap_splitKeepingEol {β : Type} (t : Text) (f : Text → Option β)
    (hf : ∀ raw, f raw = f (stripReturns raw)) (hnil : f [] = none) :
    (splitKeepingEol t).filterMap (fun l => f l.1) = (t.splitOn '\n').filterMap f := by
  obtain ⟨last, hlast, heq⟩ := splitOn_splitKeepingEol t
  have h₁ : (t.splitOn '\n').filterMap f = ((t.splitOn '\n').map stripReturns).filterMap f := by
    rw [List.filterMap_map]
    exact List.filterMap_congr fun raw _ => hf raw
  have h₂ : (splitKeepingEol t).filterMap (fun l => f l.1) =
      ((splitKeepingEol t).map fun l => stripReturns l.1).filterMap f := by
    rw [List.filterMap_map]
    exact List.filterMap_congr fun l _ => hf l.1
  rw [h₁, h₂, heq, List.filterMap_append]
  rcases hlast with rfl | rfl
  · simp
  · simp [hnil]

theorem unparsed_lines (origin : Text) (kind : CronSourceKind) (hasUserField : Bool)
    (ls : List (Text × Text)) :
    (((ls.map fun l => parseLine origin kind hasUserField l.1 l.2).filter
        fun l => l.kind = .unparsed).map fun l => cleanLine l.text).map (fun line => (origin, line)) =
      ls.filterMap fun l => unparsedOfLine origin kind hasUserField l.1 := by
  induction ls with
  | nil => rfl
  | cons l ls ih =>
    have hkind : (parseLine origin kind hasUserField l.1 l.2).kind =
        (parseLine origin kind hasUserField l.1 []).kind := (parseLine_congr rfl).2
    rw [List.map_cons, List.filterMap_cons, List.filter_cons, hkind]
    unfold unparsedOfLine
    split_ifs with h h' h'
    · simpa [unparsedOfLine] using ih
    · simp_all
    · simp_all
    · simpa [unparsedOfLine] using ih

theorem parseCrontab_lines (t origin : Text) (kind : CronSourceKind) (hasUserField : Bool) :
    parseCrontab t origin kind hasUserField =
      linesResult origin kind hasUserField (t.splitOn '\n') := by
  unfold parseCrontab parseCrontabDocument docOfLines linesResult
  simp only [CronParseResult.mk.injEq]
  constructor
  · rw [← filterMap_splitKeepingEol t _ (entryOfLine_strip origin kind hasUserField) rfl,
      List.filterMap_map]
    apply List.filterMap_congr
    intro l _
    exact (parseLine_congr rfl).1
  · rw [← filterMap_splitKeepingEol t _ (unparsedOfLine_strip origin kind hasUserField) rfl]
    exact unparsed_lines origin kind hasUserField _

theorem linesResult_append_nil (origin : Text) (kind : CronSourceKind) (hasUserField : Bool)
    (lines : List Text) :
    linesResult origin kind hasUserField (lines ++ [[]]) =
      linesResult origin kind hasUserField lines := by
  unfold linesResult
  simp only [List.filterMap_append]
  have h₁ : [([] : Text)].filterMap (entryOfLine origin kind hasUserField) = [] := rfl
  have h₂ : [([] : Text)].filterMap (unparsedOfLine origin kind hasUserField) = [] := rfl
  rw [h₁, h₂, List.append_nil, List.append_nil]

/-- A newline more at the end changes nothing. -/
theorem parseCrontab_printLine (t origin : Text) (kind : CronSourceKind) (hasUserField : Bool) :
    parseCrontab (printLine t) origin kind hasUserField =
      parseCrontab t origin kind hasUserField := by
  rw [parseCrontab_lines, parseCrontab_lines]
  unfold printLine
  rw [List.splitOn_append_cons_self, List.splitOn_nil, linesResult_append_nil]

theorem parseSystemdTimers_printLine (t : Text) :
    parseSystemdTimers (printLine t) = parseSystemdTimers t := by
  unfold parseSystemdTimers printLine takeAll
  rw [List.splitOn_append_cons_self, List.splitOn_nil, List.map_append, List.flatMap_append,
    List.flatMap_append]
  have hnil : parseTimerLine [] = .nothing := by decide
  simp [hnil, CronParseResult.nothing]

/-! ## Blocks -/

/-- The lines a file is printed as. -/
def fileLines (f : PrintedFile) : List Text := (fence ++ f.path) :: f.text.splitOn '\n'

theorem splitOn_printFiles (fs : List PrintedFile) :
    (printFiles fs).splitOn '\n' = fs.flatMap fileLines ++ [[]] := by
  induction fs with
  | nil => rfl
  | cons f fs ih =>
    have hpath : '\n' ∉ fence ++ f.path := by
      rw [List.mem_append, not_or]
      exact ⟨by decide, f.path_line⟩
    have hprint : printFiles (f :: fs) =
        (fence ++ f.path) ++ '\n' :: (f.text ++ '\n' :: printFiles fs) := by
      unfold printFiles
      rw [List.flatMap_cons]
      simp [printFile, printLine]
    rw [hprint, List.splitOn_append_cons_self_of_not_mem hpath, List.splitOn_append_cons_self, ih]
    simp [fileLines]

/-- The blocks of some files as they were printed, behind what was read before them. -/
def ownBlocks (current : Text) (buffer : List Text) : List PrintedFile → List (Text × List Text)
  | [] => [(current, buffer ++ [[]])]
  | f :: fs => flush current buffer ++ ownBlocks f.path (f.text.splitOn '\n') fs

/-- None of a file's lines reads as a fence. -/
def Unfenced (f : PrintedFile) : Prop := ∀ line ∈ f.text.splitOn '\n', fenceOf line = none

theorem blocksFrom_unfenced {current : Text} {buffer lines rest : List Text}
    (h : ∀ line ∈ lines, fenceOf line = none) :
    blocksFrom current buffer (lines ++ rest) = blocksFrom current (buffer ++ lines) rest := by
  induction lines generalizing buffer with
  | nil => simp
  | cons line lines ih =>
    rw [List.cons_append]
    conv => lhs; unfold blocksFrom
    rw [h line List.mem_cons_self]
    simp only
    rw [ih fun l hl => h l (List.mem_cons_of_mem _ hl)]
    simp

theorem blocksFrom_unfenced_files {current : Text} {buffer : List Text} {fs : List PrintedFile}
    (h : ∀ f ∈ fs, Unfenced f) :
    blocksFrom current buffer (fs.flatMap fileLines ++ [[]]) = ownBlocks current buffer fs := by
  induction fs generalizing current buffer with
  | nil =>
    have hnil : fenceOf [] = none := by decide
    have hne : (buffer ++ [[]]).isEmpty = false := by cases buffer <;> rfl
    simp only [List.flatMap_nil, List.nil_append, blocksFrom, hnil, flush, hne, ownBlocks,
      Bool.false_eq_true, if_false]
  | cons f fs ih =>
    have hf := h f List.mem_cons_self
    rw [List.flatMap_cons, List.append_assoc]
    unfold fileLines ownBlocks
    rw [List.cons_append]
    conv => lhs; unfold blocksFrom
    rw [f.path_read]
    simp only
    have hrest := @ih f.path (f.text.splitOn '\n') fun g hg => h g (List.mem_cons_of_mem _ hg)
    rw [blocksFrom_unfenced hf, List.nil_append, ← hrest]
    rfl

/-! ### Counting the lines that are kept -/

def keptLines (blocks : List (Text × List Text)) : Nat := (blocks.map fun b => b.2.length).sum

theorem keptLines_append (a b : List (Text × List Text)) :
    keptLines (a ++ b) = keptLines a + keptLines b := by
  unfold keptLines
  rw [List.map_append, List.sum_append]

theorem keptLines_flush (current : Text) (buffer : List Text) :
    keptLines (flush current buffer) = buffer.length := by
  unfold flush
  cases buffer <;> simp [keptLines]

/-- Every line that is no fence is kept, in some block. -/
theorem keptLines_blocksFrom (current : Text) (buffer lines : List Text) :
    keptLines (blocksFrom current buffer lines) =
      buffer.length + lines.countP fun line => (fenceOf line).isNone := by
  induction lines generalizing current buffer with
  | nil => simp [blocksFrom, keptLines_flush]
  | cons line lines ih =>
    unfold blocksFrom
    cases hf : fenceOf line with
    | none =>
      simp only
      rw [ih, List.countP_cons_of_pos (by simp [hf])]
      simp only [List.length_append, List.length_singleton]
      omega
    | some path =>
      simp only
      rw [keptLines_append, keptLines_flush, ih, List.countP_cons_of_neg (by simp [hf])]
      simp

theorem keptLines_ownBlocks (current : Text) (buffer : List Text) (fs : List PrintedFile) :
    keptLines (ownBlocks current buffer fs) =
      buffer.length + (fs.map fun f => (f.text.splitOn '\n').length).sum + 1 := by
  induction fs generalizing current buffer with
  | nil => simp [ownBlocks, keptLines]
  | cons f fs ih =>
    unfold ownBlocks
    rw [keptLines_append, keptLines_flush, ih, List.map_cons, List.sum_cons]
    omega

theorem countP_files_le (fs : List PrintedFile) :
    ((fs.flatMap fileLines).countP fun line => (fenceOf line).isNone) ≤
        (fs.map fun f => (f.text.splitOn '\n').length).sum ∧
      (((fs.flatMap fileLines).countP fun line => (fenceOf line).isNone) =
        (fs.map fun f => (f.text.splitOn '\n').length).sum → ∀ f ∈ fs, Unfenced f) := by
  induction fs with
  | nil => simp
  | cons f fs ih =>
    obtain ⟨hle, hall⟩ := ih
    have hlines := List.countP_le_length (p := fun line => (fenceOf line).isNone)
      (l := f.text.splitOn '\n')
    have hcount : ((f :: fs).flatMap fileLines).countP (fun line => (fenceOf line).isNone) =
        (f.text.splitOn '\n').countP (fun line => (fenceOf line).isNone) +
          (fs.flatMap fileLines).countP fun line => (fenceOf line).isNone := by
      rw [List.flatMap_cons, List.countP_append]
      unfold fileLines
      rw [List.countP_cons_of_neg (by simp [f.path_read])]
    rw [hcount, List.map_cons, List.sum_cons]
    refine ⟨by omega, ?_⟩
    intro heq g hg
    rcases List.mem_cons.mp hg with rfl | hg
    · have hfull : (g.text.splitOn '\n').countP (fun line => (fenceOf line).isNone) =
          (g.text.splitOn '\n').length := by omega
      intro line hline
      simpa using List.countP_eq_length.mp hfull line hline
    · exact hall (by omega) g hg

/-- The files of a section are found again as they were printed, if and only if no line of theirs
reads as a fence. -/
theorem files_found_iff (current : Text) (buffer : List Text) (fs : List PrintedFile) :
    blocksFrom current buffer ((printFiles fs).splitOn '\n') = ownBlocks current buffer fs ↔
      ∀ f ∈ fs, Unfenced f := by
  rw [splitOn_printFiles]
  constructor
  · intro h
    have hkept := congrArg keptLines h
    rw [keptLines_blocksFrom, keptLines_ownBlocks, List.countP_append] at hkept
    have hone : ([[]] : List Text).countP (fun line => (fenceOf line).isNone) = 1 := by
      decide
    rw [hone] at hkept
    exact (countP_files_le fs).2 (by omega)
  · exact blocksFrom_unfenced_files

/-! ## What the blocks say -/

theorem fileResult_congr {rules : FileRules} {path t t' : Text}
    (h : parseCrontab t path rules.kind rules.hasUserField =
      parseCrontab t' path rules.kind rules.hasUserField) :
    fileResult rules path t = fileResult rules path t' := by
  unfold fileResult
  simp only [h]

theorem joinWith_splitOn (t : Text) : joinWith '\n' (t.splitOn '\n') = t :=
  List.intercalate_splitOn '\n'

theorem joinWith_append_nil {ls : List Text} (h : ls ≠ []) :
    joinWith '\n' (ls ++ [[]]) = printLine (joinWith '\n' ls) := by
  unfold joinWith printLine
  induction ls with
  | nil => exact absurd rfl h
  | cons l ls ih =>
    cases ls with
    | nil => simp [List.intercalate]
    | cons m ls =>
      have := ih (by simp)
      simp only [List.cons_append, List.intercalate_cons_cons] at this ⊢
      rw [this]
      simp

theorem fileResult_own (rules : FileRules) (f : PrintedFile) (last : List Text)
    (hlast : last = [] ∨ last = [[]]) :
    fileResult rules f.path (joinWith '\n' (f.text.splitOn '\n' ++ last)) = ownResult rules f := by
  unfold ownResult
  apply fileResult_congr
  rcases hlast with rfl | rfl
  · rw [List.append_nil, joinWith_splitOn]
  · rw [joinWith_append_nil (List.splitOn_ne_nil _ _), joinWith_splitOn, parseCrontab_printLine]

theorem takeAll_append (a b : List CronParseResult) :
    takeAll (a ++ b) = (takeAll a).append (takeAll b) := by
  simp [takeAll, CronParseResult.append]

theorem takeAll_cons (r : CronParseResult) (rs : List CronParseResult) :
    takeAll (r :: rs) = r.append (takeAll rs) := by
  simp [takeAll, CronParseResult.append]

/-- What the blocks of some files come to, behind a file. -/
theorem takeAll_ownBlocks_behind (rules : FileRules) (f : PrintedFile) (fs : List PrintedFile) :
    takeAll ((ownBlocks f.path (f.text.splitOn '\n') fs).map fun b =>
        fileResult rules b.1 (joinWith '\n' b.2)) =
      takeAll ((f :: fs).map (ownResult rules)) := by
  induction fs generalizing f with
  | nil =>
    simp only [ownBlocks, List.map_cons, List.map_nil]
    rw [fileResult_own rules f [[]] (.inr rfl)]
  | cons g fs ih =>
    have hne : (f.text.splitOn '\n').isEmpty = false := by
      rw [List.isEmpty_eq_false_iff]
      exact List.splitOn_ne_nil _ _
    have hown := fileResult_own rules f [] (.inl rfl)
    rw [List.append_nil] at hown
    unfold ownBlocks flush
    rw [if_neg (by simp [hne]), List.singleton_append, List.map_cons, takeAll_cons, ih g, hown,
      ← takeAll_cons]
    rfl

theorem fileResult_blank (rules : FileRules) (path t : Text)
    (h : parseCrontab t path rules.kind rules.hasUserField = .nothing) :
    fileResult rules path t = .nothing := by
  unfold fileResult
  simp only [h]
  split_ifs <;> rfl

theorem parseCrontab_blank (n : Nat) (origin : Text) (kind : CronSourceKind)
    (hasUserField : Bool) :
    parseCrontab (joinWith '\n' (List.replicate n [])) origin kind hasUserField = .nothing := by
  induction n with
  | zero => rfl
  | succ n ih =>
    cases n with
    | zero => rfl
    | succ n =>
      rw [List.replicate_succ', joinWith_append_nil (by simp), parseCrontab_printLine, ih]

/-- What the blocks of some files come to, behind a few blank lines. -/
theorem takeAll_ownBlocks (rules : FileRules) (current : Text) (n : Nat) (fs : List PrintedFile) :
    takeAll ((ownBlocks current (List.replicate n []) fs).map fun b =>
        fileResult rules b.1 (joinWith '\n' b.2)) =
      takeAll (fs.map (ownResult rules)) := by
  have hblank (m : Nat) (path : Text) :
      fileResult rules path (joinWith '\n' (List.replicate m [])) = .nothing :=
    fileResult_blank rules path _ (parseCrontab_blank m path _ _)
  cases fs with
  | nil =>
    simp only [ownBlocks, List.map_cons, List.map_nil]
    rw [← List.replicate_succ', hblank]
    rfl
  | cons f fs =>
    unfold ownBlocks flush
    rw [List.map_append, takeAll_append, takeAll_ownBlocks_behind]
    split_ifs
    · rfl
    · simp only [List.map_cons, List.map_nil, hblank]
      rfl

/-! ## A collection, read as it was printed

Each section is read whole and each file under its own fence exactly when no body holds the mark
and no line of a file reads as a fence; and then the collection is what it was on the host.
-/

/-- The stream is taken apart where it was put together: every section's text is the body printed
behind its marker, and the lines filed under each fence are the lines of that file. -/
structure TakenApart (c : Collected) : Prop where
  sections : ∀ s : Section, sectionOf s c.output = c.body s
  crond : blocksOf crondRules.fallback (sectionOf .crond c.output) =
    ownBlocks crondRules.fallback [] c.crond
  spool : (selfLine true (sectionOf .spool c.output)).map (fun found =>
      (found.1, blocksOf (spoolRules none).fallback found.2)) =
    some (trim c.self, ownBlocks (spoolRules none).fallback [[]] c.spool)

/-- Nothing that was collected holds a section mark, and no line of a collected file reads as a
fence. -/
structure Unforged (c : Collected) : Prop where
  unmarked : ∀ s : Section, Unmarked (c.body s)
  unfenced : ∀ f ∈ c.crond ++ c.spool, Unfenced f

theorem mem_sections (s : Section) : s ∈ sections := by
  cases s <;> decide

theorem sections_taken_apart_iff (c : Collected) :
    (∀ s : Section, sectionOf s c.output = c.body s) ↔ ∀ s : Section, Unmarked (c.body s) := by
  have h := @sections_found_iff c.body sections (by decide)
  constructor
  · intro hs s
    exact h.mp (fun s _ => hs s) s (mem_sections s)
  · intro hs s
    exact h.mpr (fun s _ => hs s) s (mem_sections s)

theorem takeWhile_self {self rest : Text} (h : self.any isLineTerminator = false) :
    (self ++ '\n' :: rest).takeWhile (fun c => !isLineTerminator c) = self ∧
      (self ++ '\n' :: rest).dropWhile (fun c => !isLineTerminator c) = '\n' :: rest := by
  have hall : ∀ c ∈ self, (!isLineTerminator c) = true := by
    intro c hc
    rw [List.any_eq_false] at h
    simpa using h c hc
  have hnl : (!isLineTerminator '\n') = false := by decide
  constructor
  · rw [List.takeWhile_append_of_pos hall, List.takeWhile_cons_of_neg (by simp [hnl]),
      List.append_nil]
  · rw [List.dropWhile_append_of_pos hall, List.dropWhile_cons_of_neg (by simp [hnl])]

/-- The account's own line is the first of its section. -/
theorem selfLine_body (c : Collected) :
    selfLine true (c.body .spool) = some (trim c.self, '\n' :: printFiles c.spool) := by
  obtain ⟨htake, hdrop⟩ := @takeWhile_self c.self (printFiles c.spool) c.self_line
  have hbody : c.body .spool = selfFence ++ (c.self ++ '\n' :: printFiles c.spool) := by
    simp [Collected.body, printLine]
  rw [hbody]
  unfold selfLine
  have hpre : selfFence.isPrefixOf (selfFence ++ (c.self ++ '\n' :: printFiles c.spool)) = true :=
    List.isPrefixOf_iff_prefix.mpr (List.prefix_append _ _)
  rw [hpre, Bool.and_self, if_pos rfl, List.drop_left, htake, hdrop]

theorem blocksOf_behind_self (fallback : Text) (fs : List PrintedFile) :
    blocksOf fallback ('\n' :: printFiles fs) =
      blocksFrom fallback [[]] ((printFiles fs).splitOn '\n') := by
  have hnil : fenceOf [] = none := by decide
  unfold blocksOf
  rw [List.splitOn_cons_eq_if_modifyHead, if_pos (by simp)]
  conv => lhs; unfold blocksFrom
  rw [hnil]
  rfl

/-- The stream is taken apart where it was put together exactly when it is not forged. -/
theorem taken_apart_iff (c : Collected) : TakenApart c ↔ Unforged c := by
  have hcrond := files_found_iff crondRules.fallback [] c.crond
  have hspool := files_found_iff (spoolRules none).fallback [[]] c.spool
  constructor
  · intro h
    refine ⟨(sections_taken_apart_iff c).mp h.sections, ?_⟩
    intro f hf
    rcases List.mem_append.mp hf with hf | hf
    · have hblocks := h.crond
      rw [h.sections] at hblocks
      exact hcrond.mp hblocks f hf
    · have hblocks := h.spool
      rw [h.sections, selfLine_body, Option.map_some, blocksOf_behind_self] at hblocks
      have := (Prod.mk.inj (Option.some.inj hblocks)).2
      exact hspool.mp this f hf
  · intro h
    have hsections := (sections_taken_apart_iff c).mpr h.unmarked
    refine ⟨hsections, ?_, ?_⟩
    · rw [hsections]
      exact hcrond.mpr fun f hf => h.unfenced f (List.mem_append_left _ hf)
    · rw [hsections, selfLine_body, Option.map_some, blocksOf_behind_self,
        hspool.mpr fun f hf => h.unfenced f (List.mem_append_right _ hf)]

theorem byFile_own (rules : FileRules) (n : Nat) (fs : List PrintedFile) (text : Text)
    (h : blocksOf rules.fallback text = ownBlocks rules.fallback (List.replicate n []) fs) :
    byFile rules text = takeAll (fs.map (ownResult rules)) := by
  unfold byFile
  rw [h, takeAll_ownBlocks]

/-- A stream taken apart where it was put together reads as what it stands for. -/
theorem TakenApart.meaning {c : Collected} (h : TakenApart c) :
    parseCronCollection c.output = c.meaning := by
  have hcrond := h.crond
  have hspool := h.spool
  rw [h.sections] at hcrond hspool
  rw [selfLine_body, Option.map_some] at hspool
  have hblocks : blocksOf (spoolRules none).fallback ('\n' :: printFiles c.spool) =
      ownBlocks (spoolRules none).fallback (List.replicate 1 []) c.spool :=
    (Prod.mk.inj (Option.some.inj hspool)).2
  have huser : parseCrontab (c.body .user) "crontab -l".toList .userCrontab false =
      parseCrontab (c.user.getD []) "crontab -l".toList .userCrontab false := by
    cases hu : c.user with
    | none => simp [Collected.body, hu]
    | some t => simpa [Collected.body, hu] using parseCrontab_printLine t _ _ _
  have htimers : parseSystemdTimers (c.body .timers) = parseSystemdTimers (c.timers.getD []) := by
    cases ht : c.timers with
    | none => simp [Collected.body, ht]
    | some t => simpa [Collected.body, ht] using parseSystemdTimers_printLine t
  have hown (skip : Option Text) : byFile (spoolRules skip) ('\n' :: printFiles c.spool) =
      takeAll (c.spool.map (ownResult (spoolRules skip))) :=
    byFile_own (spoolRules skip) 1 c.spool _ hblocks
  unfold parseCronCollection Collected.meaning
  simp only [h.sections, selfLine_body, Option.map_some, Option.getD_some, huser, htimers]
  rw [byFile_own crondRules 0 c.crond _ hcrond, hown]
  rfl

/-- A collection is read as it was, section by section and file by file, if and only if nothing in
it holds a section mark and no line of its files reads as a fence. -/
theorem collection_read_as_it_was_iff (c : Collected) :
    (parseCronCollection c.output = c.meaning ∧ TakenApart c) ↔ Unforged c := by
  rw [← taken_apart_iff]
  exact ⟨And.right, fun h => ⟨h.meaning, h⟩⟩

/-- A user crontab that holds a status section of its own, on a host that read it well. -/
def forgingCrontab : Collected where
  user := some "===OPSMAXX-STATUS===\nuser-crontab denied -\n* * * * * true".toList
  system := []
  crond := []
  self := "root".toList
  self_line := by decide
  spool := []
  timers := none
  status := "user-crontab ok -\n".toList

theorem crontab_forges_the_reports :
    (parseCronCollection forgingCrontab.output).sources ≠ forgingCrontab.meaning.sources ∧
      (reportOn (sectionOf .status forgingCrontab.output |>.splitOn '\n') .userCrontab).map
        CronSourceReport.status = some .denied := by
  decide

end OpsMaxx.Cron
