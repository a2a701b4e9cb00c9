import OpsMaxx.Cron.Document

/-! # Planning an edit of a crontab

One edit of one line, worked out as the bytes to install or refused. What the plan is meant to keep
is every byte the edit does not ask to change; what it keeps is decided by how the untouched part of
the edited line was escaped.
-/

set_option autoImplicit false

namespace OpsMaxx.Cron
open OpsMaxx.Strings

/-! ## The planner -/

inductive CronEdit where
  | add (schedule command : Text) (input : Option Text)
  | update (lineIndex : Int) (lineText schedule command : Text) (input : Option Text)
  | remove (lineIndex : Int) (lineText : Text)
  deriving DecidableEq, Repr

/-- Why something cannot be written as a job. -/
inductive JobRefusal where
  | badSchedule (schedule : Text)
  | lineBreak
  | noCommand
  | userColumn
  deriving DecidableEq, Repr

/-- Why an edit was not planned, with what the message says it about. -/
inductive PlanRefusal where
  | source (kind : CronSourceKind)
  | unparsedLines (count : Nat) (first : Text)
  | notAJobToWrite (why : JobRefusal)
  | noSuchLine (count : Nat) (lineIndex : Int)
  | notAJob (lineIndex : Int)
  | lineMoved (lineIndex : Int) (now was : Text)
  | carriageReturn (lineIndex : Int)
  | noLongerParses (lineIndex : Int)
  | wouldNotParse (line : Text)
  | wouldMiscount (got expected : Int)
  | wouldReadOtherwise
  deriving DecidableEq, Repr

structure CronEditPlan where
  before : Text
  after : Text
  summary : Text
  addedFinalNewline : Bool
  deriving DecidableEq, Repr

def cronEditRefusal (kind : CronSourceKind) : Option PlanRefusal :=
  if kind = .userCrontab then none else some (.source kind)

/-- The terminator this file mostly uses. -/
def dominantEol (lines : List CronDocLine) : Text :=
  if (lines.filter fun l => l.eol = ['\n']).length
      < (lines.filter fun l => l.eol = ['\r', '\n']).length then ['\r', '\n']
  else ['\n']

/-- One job line built from scratch. -/
def buildJobLine (schedule command : Text) (input : Option Text) (hasUserField : Bool) :
    Except JobRefusal Text :=
  let s := trim schedule
  if !isValidCronSchedule s then .error (.badSchedule s)
  else if '\r' ∈ command ∨ '\n' ∈ command ∨ (∃ i ∈ input, '\r' ∈ i) then .error .lineBreak
  else if (trim command).isEmpty then .error .noCommand
  else if hasUserField then .error .userColumn
  else .ok (s ++ ' ' :: serialiseCronCommand command input)

/-- A job line rebuilt around a new schedule and a new command. -/
def rewriteJobLine (layout : CronLineLayout) (scheduleRaw rest : Text) : Text :=
  let schedule :=
    if collapse layout.scheduleRaw = collapse scheduleRaw then layout.scheduleRaw else scheduleRaw
  let body := if layout.rest = rest then layout.rest else rest
  layout.dash ++ schedule ++ layout.gap ++ (layout.user.elim [] fun u => u ++ layout.userGap) ++ body

/-- `lines[i]`. -/
def lineAt (lines : List CronDocLine) (i : Int) : Option CronDocLine :=
  if 0 ≤ i then lines[i.toNat]? else none

/-- The line an edit points at, if it is still the line that was meant. -/
def targetOf (lines : List CronDocLine) (lineIndex : Int) (lineText : Text) :
    Except PlanRefusal CronDocLine :=
  match lineAt lines lineIndex with
  | none => .error (.noSuchLine lines.length lineIndex)
  | some target =>
    if target.kind ≠ .job then .error (.notAJob lineIndex)
    else if target.text ≠ lineText then
      .error (.lineMoved lineIndex (trim target.text) (trim lineText))
    else if '\r' ∈ target.text then .error (.carriageReturn lineIndex)
    else .ok target

structure EditedLines where
  lines : List CronDocLine
  summary : Text
  addedFinalNewline : Bool
  deriving DecidableEq, Repr

/-- The last line given a terminator if it has none. -/
def terminateLast (eol : Text) : List CronDocLine → List CronDocLine
  | [] => []
  | [l] => if l.eol = [] then [{ l with eol := eol }] else [l]
  | l :: m :: rest => l :: terminateLast eol (m :: rest)

def lacksTerminator (lines : List CronDocLine) : Bool :=
  lines.getLast?.any fun l => l.eol = []

def addLine (doc : CronDocument) (schedule command : Text) (input : Option Text) :
    Except PlanRefusal EditedLines :=
  match buildJobLine schedule command input doc.hasUserField with
  | .error why => .error (.notAJobToWrite why)
  | .ok built =>
    let eol := dominantEol doc.lines
    .ok {
      lines := terminateLast eol doc.lines ++ [⟨.job, built, eol, none⟩]
      summary := "add `".toList ++ built ++ "`".toList
      addedFinalNewline := lacksTerminator doc.lines }

def updateLine (doc : CronDocument) (lineIndex : Int) (lineText schedule command : Text)
    (input : Option Text) : Except PlanRefusal EditedLines :=
  match targetOf doc.lines lineIndex lineText with
  | .error e => .error e
  | .ok target =>
    let clean := trim target.text
    match layoutJobLine clean doc.hasUserField with
    | none => .error (.noLongerParses lineIndex)
    | some layout =>
      match buildJobLine schedule command input doc.hasUserField with
      | .error why => .error (.notAJobToWrite why)
      | .ok _ =>
        let rewritten := rewriteJobLine layout (trim schedule) (serialiseCronCommand command input)
        .ok {
          lines := doc.lines.set lineIndex.toNat
            { target with text := leading target.text ++ rewritten ++ trailing target.text }
          summary := "change `".toList ++ clean ++ "` to `".toList ++ rewritten ++ "`".toList
          addedFinalNewline := false }

def removeLine (doc : CronDocument) (lineIndex : Int) (lineText : Text) :
    Except PlanRefusal EditedLines :=
  match targetOf doc.lines lineIndex lineText with
  | .error e => .error e
  | .ok target => .ok {
      lines := doc.lines.eraseIdx lineIndex.toNat
      summary := "remove `".toList ++ trim target.text ++ "`".toList
      addedFinalNewline := false }

def editLines (doc : CronDocument) : CronEdit → Except PlanRefusal EditedLines
  | .add schedule command input => addLine doc schedule command input
  | .update lineIndex lineText schedule command input =>
    updateLine doc lineIndex lineText schedule command input
  | .remove lineIndex lineText => removeLine doc lineIndex lineText

/-- How many jobs the file has to have after the edit. -/
def expectedEntries (doc : CronDocument) : CronEdit → Int
  | .remove .. => (doc.entries.length : Int) - 1
  | .add .. => (doc.entries.length : Int) + 1
  | .update .. => doc.entries.length

/-- The job line at an index, as it reads back. -/
def readBack (reparsed : CronDocument) (i : Int) : Option CronEntry :=
  match lineAt reparsed.lines i with
  | some l => if l.kind = .job then l.entry else none
  | none => none

def readsAs (got : Option CronEntry) (schedule command : Text) (input : Option Text) : Bool :=
  match got with
  | none => false
  | some e => e.schedule = collapse schedule && e.command = command && e.input = input

/-- Does the edited line read back as the job that was asked for? -/
def readsAsAsked (edited : EditedLines) (reparsed : CronDocument) : CronEdit → Bool
  | .remove .. => true
  | .add schedule command input =>
    readsAs (readBack reparsed (edited.lines.length - 1)) schedule command input
  | .update lineIndex _ schedule command input =>
    readsAs (readBack reparsed lineIndex) schedule command input

/-- The last check: what would be written has to parse, and to say what was meant. -/
def checkReparsed (doc : CronDocument) (edit : CronEdit) (edited : EditedLines)
    (reparsed : CronDocument) : Except PlanRefusal Unit :=
  match reparsed.unparsed with
  | line :: _ => .error (.wouldNotParse line)
  | [] =>
    if (reparsed.entries.length : Int) ≠ expectedEntries doc edit then
      .error (.wouldMiscount reparsed.entries.length (expectedEntries doc edit))
    else if !readsAsAsked edited reparsed edit then .error .wouldReadOtherwise
    else .ok ()

/-- The exact bytes an edit would install, or why it is refused. -/
def planCronEdit (doc : CronDocument) (edit : CronEdit) : Except PlanRefusal CronEditPlan :=
  match cronEditRefusal doc.kind with
  | some refusal => .error refusal
  | none =>
    match doc.unparsed with
    | first :: _ => .error (.unparsedLines doc.unparsed.length first)
    | [] =>
      match editLines doc edit with
      | .error e => .error e
      | .ok edited =>
        let after := serialiseLines edited.lines
        let reparsed := parseCrontabDocument after doc.origin doc.kind doc.hasUserField
        match checkReparsed doc edit edited reparsed with
        | .error e => .error e
        | .ok _ => .ok {
            before := serialiseCrontabDocument doc
            after := after
            summary := edited.summary
            addedFinalNewline := edited.addedFinalNewline }

end OpsMaxx.Cron
