import OpsMaxx.Strings.Words

/-! # One line of a crontab

What a line has to look like to be a job, how it is laid out, and the rule for the percent sign:
cron cuts a command at the first one that is not escaped and feeds the rest to it on stdin.
-/

set_option autoImplicit false

namespace OpsMaxx.Cron

open OpsMaxx.Strings

inductive CronSourceKind where
  | userCrontab | systemCrontab | cronD | systemdTimer | otherUserCrontab
  deriving DecidableEq, Repr

structure CronEntry where
  kind : CronSourceKind
  origin : Text
  schedule : Text
  user : Option Text
  command : Text
  input : Option Text
  nextRun : Option Text
  lastRun : Option Text
  line : Option Text
  deriving DecidableEq, Repr

/-! ## Schedules -/

def SPECIALS : List Text :=
  ["@reboot".toList, "@yearly".toList, "@annually".toList, "@monthly".toList, "@weekly".toList,
    "@daily".toList, "@midnight".toList, "@hourly".toList]

def MONTH_ABBR : List Text :=
  ["jan".toList, "feb".toList, "mar".toList, "apr".toList, "may".toList, "jun".toList,
    "jul".toList, "aug".toList, "sep".toList, "oct".toList, "nov".toList, "dec".toList]

def DOW_ABBR : List Text :=
  ["sun".toList, "mon".toList, "tue".toList, "wed".toList, "thu".toList, "fri".toList,
    "sat".toList]

def isDigit (c : Char) : Bool := '0' ≤ c && c ≤ '9'

def isLetter (c : Char) : Bool := ('a' ≤ c && c ≤ 'z') || ('A' ≤ c && c ≤ 'Z')

/-- `\d{1,4}`. -/
def isShortNumber (s : Text) : Bool := !s.isEmpty && s.length ≤ 4 && s.all isDigit

/-- `[A-Za-z]{3}`. -/
def isThreeLetters (s : Text) : Bool := s.length = 3 && s.all isLetter

/-- An item of a field: a star, a value or a range, and an optional step. -/
def isItem (value : Text → Bool) (item : Text) : Bool :=
  let range (r : Text) : Bool :=
    r = ['*'] ||
      match r.splitOn '-' with
      | [a] => value a
      | [a, b] => value a && value b
      | _ => false
  match item.splitOn '/' with
  | [r] => range r
  | [r, step] => range r && isShortNumber step
  | _ => false

def NUMERIC_ITEM (item : Text) : Bool := isItem isShortNumber item

def NAMED_ITEM (item : Text) : Bool := isItem (fun v => isShortNumber v || isThreeLetters v) item

def namesValid (item : Text) (abbr : List Text) : Bool :=
  (((item.splitOn '/').headD []).splitOn '-').all fun part =>
    part = ['*'] || (!part.isEmpty && part.all isDigit) || abbr.contains (toLowerCase part)

def isNumericField (field : Text) : Bool :=
  !field.isEmpty && (field.splitOn ',').all NUMERIC_ITEM

def isNamedField (field : Text) (abbr : List Text) : Bool :=
  !field.isEmpty && (field.splitOn ',').all fun i => NAMED_ITEM i && namesValid i abbr

def isCronFieldSet : List Text → Bool
  | [min, hour, dom, mon, dow] =>
    isNumericField min && isNumericField hour && isNumericField dom &&
      isNamedField mon MONTH_ABBR && isNamedField dow DOW_ABBR
  | _ => false

def isSpecial (s : Text) : Bool := SPECIALS.contains (toLowerCase s)

/-- Is this a schedule the read half would accept? -/
def isValidCronSchedule (schedule : Text) : Bool :=
  match trim schedule with
  | [] => false
  | '@' :: rest => isSpecial ('@' :: rest)
  | s => isCronFieldSet (words s)

/-- Runs of white space collapsed. -/
def collapse (s : Text) : Text := unwords (words s)

theorem collapse_collapse (s : Text) : collapse (collapse s) = collapse s := by
  unfold collapse
  rw [words_unwords (words_isWord s)]

theorem collapse_trim (s : Text) : collapse (trim s) = collapse s := by
  unfold collapse
  rw [words_trim]

/-! ## The percent sign -/

/-- A backslash and what it escapes, the only two pairs the reader undoes. -/
def isEscape (c : Char) : Bool := c = '%' || c = '\\'

/-- The text up to the first unescaped percent sign, with its escapes undone, and what follows
that sign. -/
@[grind =] def unescapeHead : Text → Text × Option Text
  | [] => ([], none)
  | '\\' :: c :: rest =>
    if isEscape c then ((unescapeHead rest).map (c :: ·) id)
    else (unescapeHead (c :: rest)).map ('\\' :: ·) id
  | c :: rest => if c = '%' then ([], some rest) else (unescapeHead rest).map (c :: ·) id

/-- Text for stdin: escapes undone, and a newline for each unescaped percent sign. -/
def unescapeInput : Text → Text
  | [] => []
  | '\\' :: c :: rest =>
    if isEscape c then c :: unescapeInput rest else '\\' :: unescapeInput (c :: rest)
  | c :: rest => (if c = '%' then '\n' else c) :: unescapeInput rest

/-- A command as cron runs it, and what it is given on stdin. -/
def splitCronCommand (raw : Text) : Text × Option Text :=
  ((unescapeHead raw).1, (unescapeHead raw).2.map unescapeInput)

def escape (s : Text) : Text :=
  s.flatMap fun c => if isEscape c then ['\\', c] else [c]

/-- The bytes a crontab holds for a command and its stdin. -/
def serialiseCronCommand (command : Text) (input : Option Text) : Text :=
  match input with
  | none => escape command
  | some i => escape command ++ '%' :: ['%'].intercalate ((i.splitOn '\n').map escape)

/-! ## The layout of a job -/

structure CronLineLayout where
  dash : Text
  scheduleRaw : Text
  gap : Text
  user : Option Text
  userGap : Text
  rest : Text
  deriving DecidableEq, Repr

/-- `^(\S+)(\s+)(.*)$`: a word, white space, and the rest if it is all on one line. -/
def wordThenRest (s : Text) : Option (Text × Text × Text) :=
  let w := s.takeWhile isInk
  let after := s.dropWhile isInk
  let gap := after.takeWhile isSpace
  let rest := after.dropWhile isSpace
  if w.isEmpty || gap.isEmpty || rest.any isLineTerminator then none else some (w, gap, rest)

/-- The first `n` words of a text, the text they take up, and what follows it. -/
def takeWords : Nat → Text → Option (List Text × Text × Text)
  | 0, s => some ([], [], s)
  | n + 1, s =>
    let lead := s.takeWhile isSpace
    let ink := s.dropWhile isSpace
    let w := ink.takeWhile isInk
    if w.isEmpty then none
    else (takeWords n (ink.dropWhile isInk)).map fun (ws, raw, rest) =>
      (w :: ws, lead ++ w ++ raw, rest)

/-- How many words a job has after its schedule at least. -/
def wordsAfterSchedule (hasUserField : Bool) : Nat := if hasUserField then 2 else 1

/-- The schedule as written, the white space after it, and what follows. -/
def scheduleOf (body : Text) (hasUserField : Bool) : Option (Text × Text × Text) :=
  match body with
  | '@' :: _ =>
    match wordThenRest body with
    | some (w, gap, rest) => if 2 ≤ w.length && isSpecial w then some (w, gap, rest) else none
    | none => none
  | _ =>
    match takeWords 5 body with
    | some (ws, raw, after) =>
      let rest := after.dropWhile isSpace
      if isCronFieldSet ws && wordsAfterSchedule hasUserField ≤ (words rest).length then
        some (raw, after.takeWhile isSpace, rest)
      else none
    | none => none

/-- The user column, the white space after it, and what follows. -/
def userOf (rest : Text) (hasUserField : Bool) : Option (Option Text × Text × Text) :=
  if hasUserField then (wordThenRest rest).map fun (w, gap, rest) => (some w, gap, rest)
  else some (none, [], rest)

/-- cronie's mark for a job that is not logged. -/
def dashOf (line : Text) : Text := if line.head? = some '-' then ['-'] else []

/-- Split a cleaned line into its parts, or refuse it as no job. -/
def layoutJobLine (line : Text) (hasUserField : Bool) : Option CronLineLayout :=
  let dash := dashOf line
  match scheduleOf (line.drop dash.length) hasUserField with
  | none => none
  | some (scheduleRaw, gap, rest) =>
    match userOf rest hasUserField with
    | none => none
    | some (user, userGap, rest) =>
      if (trim (splitCronCommand rest).1).isEmpty then none
      else some { dash, scheduleRaw, gap, user, userGap, rest }

/-- A layout put together again. -/
def CronLineLayout.join (l : CronLineLayout) : Text :=
  l.dash ++ l.scheduleRaw ++ l.gap ++ (l.user.elim [] fun u => u ++ l.userGap) ++ l.rest

/-! ### A layout holds every character of its line -/

theorem wordThenRest_join {s w gap rest : Text} (h : wordThenRest s = some (w, gap, rest)) :
    w ++ gap ++ rest = s := by
  unfold wordThenRest at h
  simp only at h
  split_ifs at h
  cases h
  rw [List.append_assoc, List.takeWhile_append_dropWhile, List.takeWhile_append_dropWhile]

theorem takeWords_join {n : Nat} {s raw rest : Text} {ws : List Text}
    (h : takeWords n s = some (ws, raw, rest)) : raw ++ rest = s := by
  induction n generalizing s ws raw rest with
  | zero =>
    cases h
    rfl
  | succ n ih =>
    unfold takeWords at h
    simp only at h
    split_ifs at h
    obtain ⟨⟨ws', raw', rest'⟩, htail, heq⟩ := Option.map_eq_some_iff.mp h
    cases heq
    have hjoin := ih htail
    rw [List.append_assoc, hjoin, List.append_assoc, List.takeWhile_append_dropWhile,
      List.takeWhile_append_dropWhile]

theorem scheduleOf_join {body raw gap rest : Text} {hasUserField : Bool}
    (h : scheduleOf body hasUserField = some (raw, gap, rest)) : raw ++ gap ++ rest = body := by
  unfold scheduleOf at h
  split at h
  · split at h
    · rename_i w gap' rest' hw
      split_ifs at h
      cases h
      exact wordThenRest_join hw
    · cases h
  · split at h
    · rename_i ws raw' after htake
      simp only at h
      split_ifs at h
      cases h
      rw [List.append_assoc, List.takeWhile_append_dropWhile]
      exact takeWords_join htake
    · cases h

theorem userOf_join {rest userGap rest' : Text} {user : Option Text} {hasUserField : Bool}
    (h : userOf rest hasUserField = some (user, userGap, rest')) :
    (user.elim [] fun u => u ++ userGap) ++ rest' = rest := by
  unfold userOf at h
  split_ifs at h
  · obtain ⟨⟨w, gap, r⟩, hw, heq⟩ := Option.map_eq_some_iff.mp h
    cases heq
    exact wordThenRest_join hw
  · cases h
    rfl

theorem dashOf_append (line : Text) : dashOf line ++ line.drop (dashOf line).length = line := by
  unfold dashOf
  split_ifs with h
  · cases line with
    | nil => simp at h
    | cons c cs =>
      have hc : c = '-' := by simpa using h
      rw [hc]
      rfl
  · rfl

theorem layoutJobLine_join {line : Text} {hasUserField : Bool} {l : CronLineLayout}
    (h : layoutJobLine line hasUserField = some l) : l.join = line := by
  unfold layoutJobLine at h
  simp only at h
  split at h
  · cases h
  · rename_i raw gap rest hsched
    split at h
    · cases h
    · rename_i user userGap rest' huser
      split_ifs at h
      cases h
      have h₁ := scheduleOf_join hsched
      have h₂ := userOf_join huser
      unfold CronLineLayout.join
      simp only [List.append_assoc]
      rw [h₂]
      simp only [List.append_assoc] at h₁
      rw [h₁]
      exact dashOf_append line

/-! ## A crontab as a document

Every line of the file with its own terminator, and the jobs the lines are. A document that nothing
was done to is written back as the bytes it was read from.
-/

inductive CronDocLineKind where
  | blank | comment | assignment | job | unparsed
  deriving DecidableEq, Repr

structure CronDocLine where
  kind : CronDocLineKind
  text : Text
  eol : Text
  entry : Option CronEntry
  deriving DecidableEq, Repr

structure CronDocument where
  origin : Text
  kind : CronSourceKind
  hasUserField : Bool
  lines : List CronDocLine
  entries : List CronEntry
  unparsed : List Text
  deriving DecidableEq, Repr

/-! ## Lines and their terminators -/

/-- A character in front of the first of some lines. A carriage return right before a newline
belongs to the terminator. -/
def consLine (c : Char) : List (Text × Text) → List (Text × Text)
  | [] => [([c], [])]
  | (text, eol) :: rest =>
    if c = '\r' ∧ text = [] ∧ eol = ['\n'] then ([], ['\r', '\n']) :: rest
    else (c :: text, eol) :: rest

/-- Text into lines that remember their own terminator. -/
def splitKeepingEol : Text → List (Text × Text)
  | [] => []
  | c :: cs => if c = '\n' then ([], ['\n']) :: splitKeepingEol cs else consLine c (splitKeepingEol cs)

def joinLines (ls : List (Text × Text)) : Text := ls.flatMap fun l => l.1 ++ l.2

theorem joinLines_consLine (c : Char) (ls : List (Text × Text)) :
    joinLines (consLine c ls) = c :: joinLines ls := by
  cases ls with
  | nil => rfl
  | cons l rest =>
    obtain ⟨text, eol⟩ := l
    simp only [consLine]
    split_ifs with h
    · obtain ⟨rfl, rfl, rfl⟩ := h
      rfl
    · rfl

theorem joinLines_splitKeepingEol (t : Text) : joinLines (splitKeepingEol t) = t := by
  induction t with
  | nil => rfl
  | cons c cs ih =>
    unfold splitKeepingEol
    split_ifs with h
    · subst h
      show '\n' :: joinLines (splitKeepingEol cs) = _
      rw [ih]
    · rw [joinLines_consLine, ih]

/-- No line holds a newline of its own. -/
theorem newline_not_mem_splitKeepingEol (t : Text) : ∀ l ∈ splitKeepingEol t, '\n' ∉ l.1 := by
  induction t with
  | nil => simp [splitKeepingEol]
  | cons c cs ih =>
    unfold splitKeepingEol
    split_ifs with h
    · intro l hl
      rcases List.mem_cons.mp hl with rfl | hl
      · simp
      · exact ih l hl
    · cases hs : splitKeepingEol cs with
      | nil =>
        intro l hl
        rw [consLine, List.mem_singleton] at hl
        subst hl
        simpa using Ne.symm h
      | cons first rest =>
        obtain ⟨text, eol⟩ := first
        rw [hs] at ih
        intro l hl
        simp only [consLine] at hl
        split_ifs at hl
        · rcases List.mem_cons.mp hl with rfl | hl
          · simp
          · exact ih l (List.mem_cons_of_mem _ hl)
        · rcases List.mem_cons.mp hl with rfl | hl
          · have := ih (text, eol) List.mem_cons_self
            simp only [List.mem_cons, not_or]
            exact ⟨Ne.symm h, this⟩
          · exact ih l (List.mem_cons_of_mem _ hl)

/-! ## Reading -/

def isNameChar (c : Char) : Bool := isLetter c || isDigit c || c = '_'

/-- An environment assignment: a name, white space, an equals sign. -/
def isAssignment (line : Text) : Bool :=
  match line with
  | c :: rest =>
    (isLetter c || c = '_') &&
      ((rest.dropWhile isNameChar).dropWhile isSpace).head? = some '='
  | [] => false

def entryFromLayout (l : CronLineLayout) (origin : Text) (kind : CronSourceKind) (line : Text) :
    CronEntry where
  kind := kind
  origin := origin
  schedule := collapse l.scheduleRaw
  user := l.user
  command := (splitCronCommand l.rest).1
  input := (splitCronCommand l.rest).2
  nextRun := none
  lastRun := none
  line := some line

/-- The line the parser sees: carriage returns stripped, and trimmed. -/
def cleanLine (raw : Text) : Text := trim (raw.filter (· ≠ '\r'))

def parseLine (origin : Text) (kind : CronSourceKind) (hasUserField : Bool) (raw eol : Text) :
    CronDocLine :=
  let line := cleanLine raw
  if line.isEmpty then ⟨.blank, raw, eol, none⟩
  else if line.head? = some '#' then ⟨.comment, raw, eol, none⟩
  else if isAssignment line then ⟨.assignment, raw, eol, none⟩
  else
    match layoutJobLine line hasUserField with
    | none => ⟨.unparsed, raw, eol, none⟩
    | some layout => ⟨.job, raw, eol, some (entryFromLayout layout origin kind line)⟩

def docOfLines (origin : Text) (kind : CronSourceKind) (hasUserField : Bool)
    (lines : List CronDocLine) : CronDocument where
  origin := origin
  kind := kind
  hasUserField := hasUserField
  lines := lines
  entries := lines.filterMap CronDocLine.entry
  unparsed := (lines.filter fun l => l.kind = .unparsed).map fun l => cleanLine l.text

def parseCrontabDocument (text origin : Text) (kind : CronSourceKind) (hasUserField : Bool) :
    CronDocument :=
  docOfLines origin kind hasUserField
    ((splitKeepingEol text).map fun l => parseLine origin kind hasUserField l.1 l.2)

def CronDocLine.bytes (l : CronDocLine) : Text := l.text ++ l.eol

def serialiseLines (lines : List CronDocLine) : Text := lines.flatMap CronDocLine.bytes

def serialiseCrontabDocument (doc : CronDocument) : Text := serialiseLines doc.lines

@[simp] theorem parseLine_text (origin : Text) (kind : CronSourceKind) (hasUserField : Bool)
    (raw eol : Text) : (parseLine origin kind hasUserField raw eol).text = raw := by
  unfold parseLine
  simp only
  split_ifs <;> try rfl
  split <;> rfl

@[simp] theorem parseLine_eol (origin : Text) (kind : CronSourceKind) (hasUserField : Bool)
    (raw eol : Text) : (parseLine origin kind hasUserField raw eol).eol = eol := by
  unfold parseLine
  simp only
  split_ifs <;> try rfl
  split <;> rfl

/-- A document is written back as it was read. -/
theorem serialise_parseCrontabDocument (text origin : Text) (kind : CronSourceKind)
    (hasUserField : Bool) :
    serialiseCrontabDocument (parseCrontabDocument text origin kind hasUserField) = text := by
  show serialiseLines ((splitKeepingEol text).map _) = text
  unfold serialiseLines
  rw [List.flatMap_map]
  simp only [CronDocLine.bytes, parseLine_text, parseLine_eol]
  exact joinLines_splitKeepingEol text

/-- What a job line of a document is: a line with a layout, shown as that layout's entry. -/
theorem parseLine_job {origin raw eol : Text} {kind : CronSourceKind} {hasUserField : Bool}
    (h : (parseLine origin kind hasUserField raw eol).kind = .job) :
    ∃ layout, layoutJobLine (cleanLine raw) hasUserField = some layout ∧
      (parseLine origin kind hasUserField raw eol).entry =
        some (entryFromLayout layout origin kind (cleanLine raw)) := by
  unfold parseLine at h ⊢
  simp only at h ⊢
  split_ifs at h ⊢
  cases hl : layoutJobLine (cleanLine raw) hasUserField with
  | none =>
    rw [hl] at h
    cases h
  | some layout => exact ⟨layout, rfl, rfl⟩

theorem job_of_mem_lines {text origin : Text} {kind : CronSourceKind} {hasUserField : Bool}
    {l : CronDocLine} (hl : l ∈ (parseCrontabDocument text origin kind hasUserField).lines)
    (hkind : l.kind = .job) :
    '\n' ∉ l.text ∧ ∃ layout, layoutJobLine (cleanLine l.text) hasUserField = some layout ∧
      l.entry = some (entryFromLayout layout origin kind (cleanLine l.text)) := by
  obtain ⟨⟨raw, eol⟩, hmem, rfl⟩ := List.mem_map.mp hl
  refine ⟨?_, ?_⟩
  · rw [parseLine_text]
    exact newline_not_mem_splitKeepingEol text (raw, eol) hmem
  · simp only [parseLine_text]
    exact parseLine_job hkind

end OpsMaxx.Cron
