import OpsMaxx.Cron.Document

/-! # Reading a collection's other parts

`systemctl list-timers`, the lines of the status block, and a crontab's jobs as a function of its
lines.
-/

set_option autoImplicit false

namespace OpsMaxx.Cron

open OpsMaxx.Strings

structure CronParseResult where
  entries : List CronEntry
  unparsed : List (Text × Text)
  deriving DecidableEq, Repr

def CronParseResult.append (a b : CronParseResult) : CronParseResult :=
  ⟨a.entries ++ b.entries, a.unparsed ++ b.unparsed⟩

def CronParseResult.nothing : CronParseResult := ⟨[], []⟩

/-- `take`, result after result. -/
def takeAll (rs : List CronParseResult) : CronParseResult :=
  ⟨rs.flatMap CronParseResult.entries, rs.flatMap CronParseResult.unparsed⟩

def parseCrontab (text origin : Text) (kind : CronSourceKind) (hasUserField : Bool) :
    CronParseResult :=
  let doc := parseCrontabDocument text origin kind hasUserField
  ⟨doc.entries, doc.unparsed.map fun line => (origin, line)⟩

/-! ## Timers -/

/-- `^[A-Za-z]{3}$`. -/
def isTimerDay (t : Text) : Bool := isThreeLetters t

/-- A pattern of digits and fixed characters: `d` stands for a digit. -/
def fits (pattern : String) (t : Text) : Bool :=
  pattern.toList.length = t.length &&
    (pattern.toList.zip t).all fun (p, c) => if p = 'd' then isDigit c else p = c

def isTimerDate (t : Text) : Bool := fits "dddd-dd-dd" t

def isTimerTime (t : Text) : Bool := fits "dd:dd:dd" t

def isCapital (c : Char) : Bool := 'A' ≤ c && c ≤ 'Z'

/-- `^([A-Z]{2,5}|[+-]\d{2}:?\d{0,2})$`. -/
def isTimerZone (t : Text) : Bool :=
  (2 ≤ t.length && t.length ≤ 5 && t.all isCapital) ||
    match t with
    | sign :: a :: b :: rest =>
      (sign = '+' || sign = '-') && isDigit a && isDigit b &&
        let rest := if rest.head? = some ':' then rest.drop 1 else rest
        rest.length ≤ 2 && rest.all isDigit
    | _ => false

def isTimerAbsent (t : Text) : Bool := t = "n/a".toList || t = "-".toList || t = "*".toList

/-- The date that stands at a place among the tokens, with the day before it and the time and zone
after it. -/
def dateAt (pre : List Text) (i : Nat) : Text :=
  let day := if 0 < i ∧ isTimerDay (pre.getD (i - 1) []) then [pre.getD (i - 1) []] else []
  let time :=
    if isTimerTime (pre.getD (i + 1) []) then
      pre.getD (i + 1) [] ::
        if isTimerZone (pre.getD (i + 2) []) then [pre.getD (i + 2) []] else []
    else []
  unwords (day ++ pre.getD i [] :: time)

/-- The NEXT and LAST columns, read out of the tokens before the unit name. -/
def timerDates (pre : List Text) : Option Text × Option Text :=
  let found := ((List.range pre.length).filter fun i => isTimerDate (pre.getD i [])).map (dateAt pre)
  match found with
  | next :: last :: _ => (some next, some last)
  | [date] => if isTimerAbsent (pre.headD []) then (none, some date) else (some date, none)
  | [] => (none, none)

def endsWith (suffix t : Text) : Bool := suffix.isSuffixOf t

def contains (part t : Text) : Bool := t.tails.any fun s => part.isPrefixOf s

/-- `^(NEXT|UNIT|LEFT)\b`. -/
def isTimerHeading (line : Text) : Bool :=
  ["NEXT".toList, "UNIT".toList, "LEFT".toList].any fun w =>
    w.isPrefixOf line && !((line.drop w.length).head?.any isNameChar)

def timerSuffix : Text := ".timer".toList

/-- One row of the listing: a timer, a row that could not be split, or nothing to report. -/
def parseTimerLine (raw : Text) : CronParseResult :=
  let line := cleanLine raw
  if line.isEmpty || isTimerHeading line || contains "timers listed".toList line
      || "Pass --all".toList.isPrefixOf line then .nothing
  else
    let tokens := words line
    match tokens.findIdx? (endsWith timerSuffix) with
    | some ti =>
      if (tokens.drop (ti + 1)).isEmpty then ⟨[], [("systemd".toList, line)]⟩
      else
        ⟨[{ kind := .systemdTimer
            origin := tokens.getD ti []
            schedule := "systemd timer".toList
            user := none
            command := unwords (tokens.drop (ti + 1))
            input := none
            nextRun := (timerDates (tokens.take ti)).1
            lastRun := (timerDates (tokens.take ti)).2
            line := none }], []⟩
    | none =>
      if contains timerSuffix line then ⟨[], [("systemd".toList, line)]⟩ else .nothing

def parseSystemdTimers (text : Text) : CronParseResult :=
  takeAll ((text.splitOn '\n').map parseTimerLine)

/-! ## Status lines -/

inductive CronSourceId where
  | userCrontab | systemCrontab | cronD | otherCrontabs | systemdTimers
  deriving DecidableEq, Repr

def CronSourceId.name : CronSourceId → Text
  | .userCrontab => "user-crontab".toList
  | .systemCrontab => "system-crontab".toList
  | .cronD => "cron.d".toList
  | .otherCrontabs => "other-crontabs".toList
  | .systemdTimers => "systemd-timers".toList

def CRON_SOURCE_IDS : List CronSourceId :=
  [.userCrontab, .systemCrontab, .cronD, .otherCrontabs, .systemdTimers]

inductive CronSourceStatus where
  | ok | incomplete | absent | denied | noTool | unknown
  deriving DecidableEq, Repr

def CronSourceStatus.name : CronSourceStatus → Text
  | .ok => "ok".toList
  | .incomplete => "partial".toList
  | .absent => "absent".toList
  | .denied => "denied".toList
  | .noTool => "no-tool".toList
  | .unknown => "unknown".toList

def CRON_STATUSES : List CronSourceStatus :=
  [.ok, .incomplete, .absent, .denied, .noTool, .unknown]

structure CronSourceReport where
  id : CronSourceId
  status : CronSourceStatus
  usedSudo : Bool
  detail : Option Text
  deriving DecidableEq, Repr

/-- A quotation mark taken off either end. -/
def unquote (s : Text) : Text :=
  let s := if s.head? = some '"' then s.drop 1 else s
  if s.getLast? = some '"' then s.dropLast else s

def parseStatusLine (line : Text) : Option CronSourceReport :=
  let ws := words line
  match CRON_SOURCE_IDS.find? fun id => ws.head? = some id.name with
  | none => none
  | some id =>
    let detail := trim (unquote (unwords (ws.drop 3)))
    some {
      id := id
      status := (CRON_STATUSES.find? fun s => ws[1]? = some s.name).getD .unknown
      usedSudo := ws[2]? = some "root".toList
      detail := if detail = [] ∨ detail = ['-'] then none else some detail }

/-- The last report on a source, among the lines of the status block. -/
def reportOn (lines : List Text) (id : CronSourceId) : Option CronSourceReport :=
  ((lines.filterMap parseStatusLine).reverse).find? fun r => r.id = id

def sourcesOf (status : Text) : List CronSourceReport :=
  CRON_SOURCE_IDS.map fun id =>
    (reportOn (status.splitOn '\n') id).getD
      { id := id, status := .unknown, usedSudo := false,
        detail := some "the collector did not report on this source".toList }

/-! ## A crontab's jobs, line by line -/

def entryOfLine (origin : Text) (kind : CronSourceKind) (hasUserField : Bool) (raw : Text) :
    Option CronEntry :=
  (parseLine origin kind hasUserField raw []).entry

def unparsedOfLine (origin : Text) (kind : CronSourceKind) (hasUserField : Bool) (raw : Text) :
    Option (Text × Text) :=
  if (parseLine origin kind hasUserField raw []).kind = .unparsed then some (origin, cleanLine raw)
  else none

/-- What some lines of a crontab say, whatever their terminators. -/
def linesResult (origin : Text) (kind : CronSourceKind) (hasUserField : Bool) (lines : List Text) :
    CronParseResult :=
  ⟨lines.filterMap (entryOfLine origin kind hasUserField),
    lines.filterMap (unparsedOfLine origin kind hasUserField)⟩

/-! ## Taking a collection apart

The collector prints everything in one stream: six sections behind markers, the files of a section
behind fences. Reading it back is a search for those markers and fences in text that also holds the
files themselves.
-/

/-! ## Sections -/

inductive Section where
  | user | system | crond | spool | timers | status
  deriving DecidableEq, Repr

def Section.name : Section → Text
  | .user => "USER".toList
  | .system => "SYSTEM".toList
  | .crond => "CROND".toList
  | .spool => "SPOOL".toList
  | .timers => "TIMERS".toList
  | .status => "STATUS".toList

/-- The text a section is taken to end at. -/
def mark : Text := "===OPSMAXX-".toList

def Section.marker (s : Section) : Text := mark ++ s.name ++ "===".toList

/-- What follows a marker that a text starts with, and the end of its line. -/
def afterMarkerHere (marker t : Text) : Option Text :=
  if marker.isPrefixOf t then
    match t.drop marker.length with
    | '\n' :: rest => some rest
    | '\r' :: '\n' :: rest => some rest
    | _ => none
  else none

/-- What follows the first such marker of a text. -/
@[grind =] def afterMarker (marker : Text) : Text → Option Text
  | [] => afterMarkerHere marker []
  | c :: cs => (afterMarkerHere marker (c :: cs)).or (afterMarker marker cs)

/-- A text up to the first mark in it. -/
@[grind =] def upToMark : Text → Text
  | [] => []
  | c :: cs => if mark.isPrefixOf (c :: cs) then [] else c :: upToMark cs

/-- `section(name)`. -/
def sectionOf (s : Section) (output : Text) : Text :=
  ((afterMarker s.marker output).map upToMark).getD []

/-! ## Files -/

def fence : Text := "#FILE:".toList

/-- The path a fence names, if a line is one. -/
def fenceOf (line : Text) : Option Text :=
  let clean := line.filter (· ≠ '\r')
  if fence.isPrefixOf clean && !(clean.drop fence.length).any isLineTerminator then
    some (trim (clean.drop fence.length))
  else none

def flush (current : Text) (buffer : List Text) : List (Text × List Text) :=
  if buffer.isEmpty then [] else [(current, buffer)]

/-- The lines of a section, under the fence they stand behind. -/
@[grind =] def blocksFrom (current : Text) (buffer : List Text) : List Text → List (Text × List Text)
  | [] => flush current buffer
  | line :: rest =>
    match fenceOf line with
    | some path => flush current buffer ++ blocksFrom path [] rest
    | none => blocksFrom current (buffer ++ [line]) rest

def blocksOf (fallback text : Text) : List (Text × List Text) :=
  blocksFrom fallback [] (text.splitOn '\n')

def joinWith (sep : Char) (ls : List Text) : Text := [sep].intercalate ls

/-- The last part of a path. -/
def ownerOf (path : Text) : Text := (path.reverse.takeWhile (· ≠ '/')).reverse

structure FileRules where
  fallback : Text
  kind : CronSourceKind
  hasUserField : Bool
  userFromFile : Bool
  skip : Option Text

def withOwner (owner : Text) (r : CronParseResult) : CronParseResult :=
  { r with entries := r.entries.map fun e => { e with user := some owner } }

/-- What one file of a section comes to. -/
def fileResult (rules : FileRules) (path text : Text) : CronParseResult :=
  let owner := ownerOf path
  if owner ≠ [] ∧ rules.skip = some owner then .nothing
  else
    let r := parseCrontab text path rules.kind rules.hasUserField
    if rules.userFromFile then withOwner owner r else r

def byFile (rules : FileRules) (text : Text) : CronParseResult :=
  takeAll ((blocksOf rules.fallback text).map fun b => fileResult rules b.1 (joinWith '\n' b.2))

/-! ## The account the collector ran as -/

def selfFence : Text := "#SELF:".toList

/-- The first line that is a `#SELF:` fence: what it names, and the text without it. -/
def selfLine : Bool → Text → Option (Text × Text)
  | atStart, t =>
    if atStart && selfFence.isPrefixOf t then
      some (trim ((t.drop selfFence.length).takeWhile fun c => !isLineTerminator c),
        (t.drop selfFence.length).dropWhile fun c => !isLineTerminator c)
    else
      match t with
      | [] => none
      | c :: cs => (selfLine (isLineTerminator c) cs).map fun (self, rest) => (self, c :: rest)

/-! ## The whole collection -/

structure CronCollection where
  result : CronParseResult
  sources : List CronSourceReport
  deriving DecidableEq, Repr

def userRead (status : Text) : Bool :=
  ((reportOn (status.splitOn '\n') .userCrontab).map CronSourceReport.status) = some .ok

def crondRules : FileRules where
  fallback := "/etc/cron.d".toList
  kind := .cronD
  hasUserField := true
  userFromFile := false
  skip := none

def spoolRules (skip : Option Text) : FileRules where
  fallback := "crontab spool".toList
  kind := .otherUserCrontab
  hasUserField := false
  userFromFile := true
  skip := skip

def parseCronCollection (output : Text) : CronCollection :=
  let status := sectionOf .status output
  let spool := sectionOf .spool output
  let self := ((selfLine true spool).map Prod.fst).getD []
  let skip := if userRead status then some self else none
  { result := takeAll [
      parseCrontab (sectionOf .user output) "crontab -l".toList .userCrontab false,
      parseCrontab (sectionOf .system output) "/etc/crontab".toList .systemCrontab true,
      byFile crondRules (sectionOf .crond output),
      byFile (spoolRules skip) (((selfLine true spool).map Prod.snd).getD spool),
      parseSystemdTimers (sectionOf .timers output)]
    sources := sourcesOf status }

/-! ## What the collector prints -/

/-- A file as the collector prints it. Its path is one line that the fence gives back. -/
structure PrintedFile where
  path : Text
  text : Text
  path_line : '\n' ∉ path
  path_read : fenceOf (fence ++ path) = some path
  deriving DecidableEq

structure Collected where
  user : Option Text
  system : Text
  crond : List PrintedFile
  self : Text
  self_line : self.any isLineTerminator = false
  spool : List PrintedFile
  timers : Option Text
  status : Text
  deriving DecidableEq

def printLine (t : Text) : Text := t ++ ['\n']

def printFile (f : PrintedFile) : Text := printLine (fence ++ f.path) ++ printLine f.text

def printFiles (fs : List PrintedFile) : Text := fs.flatMap printFile

/-- What is printed behind each marker. -/
def Collected.body (c : Collected) : Section → Text
  | .user => c.user.elim [] printLine
  | .system => c.system
  | .crond => printFiles c.crond
  | .spool => printLine (selfFence ++ c.self) ++ printFiles c.spool
  | .timers => c.timers.elim [] printLine
  | .status => c.status

def sections : List Section := [.user, .system, .crond, .spool, .timers, .status]

def printSection (body : Section → Text) (s : Section) : Text := printLine s.marker ++ body s

def printSections (body : Section → Text) (ss : List Section) : Text :=
  ss.flatMap (printSection body)

/-- The collector's output. -/
def Collected.output (c : Collected) : Text := printSections c.body sections

/-! ## What it stands for -/

/-- The jobs of a file of a section, under its own path. -/
def ownResult (rules : FileRules) (f : PrintedFile) : CronParseResult := fileResult rules f.path f.text

/-- The collection as it was: each file read on its own under its own origin, a spool file with its
own user, and the reports of the status block. The account's own spool file is what `crontab -l`
printed, and stands there. -/
def Collected.meaning (c : Collected) : CronCollection where
  result := takeAll [
    parseCrontab (c.user.getD []) "crontab -l".toList .userCrontab false,
    parseCrontab c.system "/etc/crontab".toList .systemCrontab true,
    takeAll (c.crond.map (ownResult crondRules)),
    takeAll (c.spool.map
      (ownResult (spoolRules (if userRead c.status then some (trim c.self) else none)))),
    parseSystemdTimers (c.timers.getD [])]
  sources := sourcesOf c.status

end OpsMaxx.Cron
