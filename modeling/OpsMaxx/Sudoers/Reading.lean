import OpsMaxx.Sudoers.Policy
import OpsMaxx.Strings.Percent

/-! # What the program reads in sudoers files

`parseSudoers`, `sudoPrivilegesFor`, `describeSudo`, `parseSudoersOutput` and `sudoAcrossFiles` of
`shared/sudoers.ts`.
-/

set_option autoImplicit false

namespace OpsMaxx.Sudoers
open Strings

/-! ## One line -/

def VALUE_CAP : Nat := 512
def SUDOERS_MAX_LINES : Nat := 2000

def cap (s : Text) : Text := if VALUE_CAP < s.length then s.take VALUE_CAP ++ ['…'] else s

inductive SudoersAliasKind
  | User_Alias | Runas_Alias | Cmnd_Alias | Host_Alias
deriving DecidableEq, Repr

structure SudoersAlias where
  kind : SudoersAliasKind
  name : Text
  members : List Text
deriving DecidableEq, Repr

inductive NoPassword
  | all | some | none
deriving DecidableEq, Repr

structure SudoersSpec where
  who : Text
  hosts : Text
  runAs : Text
  noPassword : NoPassword
  commands : Text
  grantsAll : Bool
  line : Nat
deriving DecidableEq, Repr

/-- `\s*(.+)$` behind an `=`. -/
def valueOf (r : Text) : Option Text :=
  let value := trimStart r
  if value ≠ [] ∧ value.all (fun c => !isLineTerminator c) then some value else none

/-- `/^[#@]include(dir)?\s+(\S+)/`. -/
def readInclude (t : Text) : Option Text :=
  match t with
  | c :: rest =>
    if (c = '#' ∨ c = '@') ∧ "include".toList.isPrefixOf rest then
      let after := if "dir".toList.isPrefixOf (rest.drop 7) then rest.drop 10 else rest.drop 7
      let path := (trimStart after).takeWhile isInk
      if (after.head?.map isSpace).getD false ∧ path ≠ [] then some path else none
    else none
  | [] => none

def aliasKinds : List (String × SudoersAliasKind) :=
  [("User_Alias", .User_Alias), ("Runas_Alias", .Runas_Alias), ("Cmnd_Alias", .Cmnd_Alias),
    ("Host_Alias", .Host_Alias)]

def isCapital (c : Char) : Bool := 65 ≤ c.toNat && c.toNat ≤ 90

def isNameChar (c : Char) : Bool :=
  isCapital c || (48 ≤ c.toNat && c.toNat ≤ 57) || c = '_'

/-- `ALIAS_RE`. -/
def readAlias (t : Text) : Option SudoersAlias := do
  let kind ← aliasKinds.find? fun k => k.1.toList.isPrefixOf t
  let after := t.drop kind.1.length
  let named := trimStart after
  let behind := trimStart (named.dropWhile isNameChar)
  if (after.head?.map isSpace).getD false ∧ (named.head?.map isCapital).getD false
      ∧ behind.head? = some '=' then
    let value ← valueOf behind.tail
    pure ⟨kind.2, named.takeWhile isNameChar,
      ((value.splitOn ',').map fun m => cap (trim m)).filter (· ≠ [])⟩
  else none

/-- Where the word `token` can end, the longest first: at its end, when an `=` follows, or in front of
one of its own `=`. With each the text behind the `=`. -/
def hostEnds (token behind : Text) : List (Text × Text) :=
  (if (trimStart behind).head? = some '=' then [(token, (trimStart behind).tail)] else [])
    ++ (((List.range token.length).filter fun n => 0 < n ∧ (token.drop n).head? = some '=').map
      fun n => (token.take n, token.drop (n + 1) ++ behind)).reverse

/-- `\s+(\S+)\s*=\s*(.+)$`. -/
def readHosts (s : Text) : Option (Text × Text) :=
  let spaced := trimStart s
  if (s.head?.map isSpace).getD false then
    (hostEnds (spaced.takeWhile isInk) (spaced.dropWhile isInk)).findSome? fun p =>
      (valueOf p.2).map fun value => (p.1, value)
  else none

/-- `SPEC_RE`: the shortest user list that a host and an `=` can follow, the host and the rest. -/
def readRule (t : Text) : Option (Text × Text × Text) :=
  (List.range t.length).findSome? fun n =>
    if ((t.take (n + 1)).head?.map isInk).getD false
        ∧ (t.take (n + 1)).tail.all (fun c => !isLineTerminator c) then
      (readHosts (t.drop (n + 1))).map fun p => (t.take (n + 1), p.1, p.2)
    else none

def TAG_WORDS : List String :=
  ["NOPASSWD", "PASSWD", "NOEXEC", "EXEC", "SETENV", "NOSETENV", "LOG_INPUT", "NOLOG_INPUT",
    "LOG_OUTPUT", "NOLOG_OUTPUT", "FOLLOW", "NOFOLLOW", "MAIL", "NOMAIL"]

def isTagWord (w : Text) : Bool := TAG_WORDS.any fun t => t.toList = w

/-- What a tag makes of the flag for `NOPASSWD`. -/
def tagSays (leading : Bool) (tag : Text) : Bool :=
  if tag = "NOPASSWD".toList then true
  else if tag = "PASSWD".toList then false
  else leading

/-- The loop over the tags in front of the commands. -/
def stripTags : Nat → Bool → Text → Bool × Text
  | 0, leading, rest => (leading, rest)
  | fuel + 1, leading, rest =>
    match splitFirst ':' rest with
    | some (tag, after) =>
      if isTagWord tag then stripTags fuel (tagSays leading tag) (trimStart after)
      else (leading, rest)
    | none => (leading, rest)

/-- The runas group in front of the commands, and what is behind it. -/
def readRunAs (rest : Text) : Text × Text :=
  match rest with
  | '(' :: inner =>
    match splitFirst ')' inner with
    | some (runAs, after) => (cap (trim runAs), trim after)
    | none => ("ALL".toList, rest)
  | _ => ("ALL".toList, rest)

/-- `/,\s*(NOPASSWD|PASSWD):/`. -/
def hasLaterTag (rest : Text) : Bool :=
  rest.tails.any fun s =>
    match s with
    | ',' :: after =>
      "NOPASSWD:".toList.isPrefixOf (trimStart after) || "PASSWD:".toList.isPrefixOf (trimStart after)
    | _ => false

def readSpec (line : Nat) (who hosts value : Text) : SudoersSpec :=
  let runAs := readRunAs (trim value)
  let tags := stripTags (trim value).length false runAs.2
  { who := cap (trim who)
    hosts := cap (trim hosts)
    runAs := runAs.1
    noPassword := if hasLaterTag tags.2 then .some else if tags.1 then .all else .none
    commands := cap (trim tags.2)
    grantsAll := trim tags.2 = "ALL".toList
    line := line }

/-! ## One file -/

inductive Line
  | nothing
  | inclusion (path : Text)
  | defaults (text : Text)
  | definition (a : SudoersAlias)
  | spec (s : SudoersSpec)
  | unparsed (text : Text)
deriving DecidableEq, Repr

/-- One line, trimmed. -/
def readLine (line : Nat) (t : Text) : Line :=
  if t = [] then .nothing
  else
    match readInclude t with
    | some path => .inclusion (cap path)
    | none =>
      if t.head? = some '#' then .nothing
      else if "Defaults".toList.isPrefixOf t then .defaults (cap t)
      else
        match readAlias t with
        | some a => .definition a
        | none =>
          match readRule t with
          | some (who, hosts, value) => .spec (readSpec line who hosts value)
          | none => .unparsed (cap t)

/-- Continued lines joined, under the number of the first: `buf` is what is joined so far. -/
def joinLines : Nat → Text → Nat → List Text → List (Nat × Text)
  | _, buf, start, [] => if buf = [] then [] else [(start, buf)]
  | i, buf, start, l :: ls =>
    let first := if buf = [] then i + 1 else start
    if l.getLast? = some '\\' then joinLines (i + 1) (buf ++ l.dropLast ++ [' ']) first ls
    else (first, buf ++ l) :: joinLines (i + 1) [] first ls

structure SudoersReading where
  aliases : List SudoersAlias
  specs : List SudoersSpec
  defaults : List Text
  includes : List Text
  unparsed : List (Nat × Text)
  truncated : Bool
deriving DecidableEq, Repr

/-- The lines of a file as they are read, with their numbers. -/
def readLines (text : Text) : List (Nat × Line) :=
  (joinLines 0 [] 0 ((text.splitOn '\n').take SUDOERS_MAX_LINES)).map fun l =>
    (l.1, readLine l.1 (trim l.2))

def parseSudoers (text : Text) : SudoersReading :=
  { aliases := (readLines text).filterMap fun l => match l.2 with
      | .definition a => some a
      | _ => none
    specs := (readLines text).filterMap fun l => match l.2 with
      | .spec s => some s
      | _ => none
    defaults := (readLines text).filterMap fun l => match l.2 with
      | .defaults d => some d
      | _ => none
    includes := (readLines text).filterMap fun l => match l.2 with
      | .inclusion path => some path
      | _ => none
    unparsed := (readLines text).filterMap fun l => match l.2 with
      | .unparsed t => some (l.1, t)
      | _ => none
    truncated := decide (SUDOERS_MAX_LINES < (text.splitOn '\n').length) }

/-! ## One account -/

inductive Via
  | name | group | alias
deriving DecidableEq, Repr

structure SudoFinding where
  who : Text
  runAs : Text
  noPassword : NoPassword
  grantsAll : Bool
  commands : Text
  line : Nat
  via : Via
deriving DecidableEq, Repr

/-- A member that is the account itself or one of its groups. -/
def isAccount (user : Text) (groups : List Text) (m : Text) : Bool :=
  m = user || (m.head? = some '%' && groups.contains m.tail)

def userAliases (user : Text) (groups : List Text) (reading : SudoersReading) : List Text :=
  (reading.aliases.filter fun a =>
    a.kind = .User_Alias && a.members.any (isAccount user groups)).map SudoersAlias.name

def viaOf (user : Text) (groups : List Text) (aliases : List Text) (who : Text) : Option Via :=
  if who = user then some .name
  else if who.head? = some '%' ∧ groups.contains who.tail then some .group
  else if aliases.contains who then some .alias
  else none

/-- The names of a user list. -/
def names (who : Text) : List Text := ((who.splitOn ',').map trim).filter (· ≠ [])

def sudoPrivilegesFor (user : Text) (groups : List Text) (reading : SudoersReading) :
    List SudoFinding :=
  reading.specs.filterMap fun s =>
    (names s.who).findSome? fun who =>
      (viaOf user groups (userAliases user groups reading) who).map fun via =>
        { who := who, runAs := s.runAs, noPassword := s.noPassword, grantsAll := s.grantsAll
          commands := s.commands, line := s.line, via := via }

inductive SudoClaim
  | none | anyNoPassword | anyWithPassword
  | listedNoPassword (count : Nat)
  | namedSomeNoPassword (count : Nat)
  | namedWithPassword (count : Nat)
deriving DecidableEq, Repr

/-- The sentence for an account: what is claimed, and the gaps it is said with. -/
structure Sentence where
  claim : SudoClaim
  includes : Nat
  unparsed : Nat
  truncated : Bool
  unreadable : List Text
deriving DecidableEq, Repr

def describeSudo (findings : List SudoFinding) (reading : SudoersReading) : Sentence :=
  let root := findings.filter fun f => f.grantsAll
  let free := findings.filter fun f => f.noPassword = .all
  let mixed := findings.filter fun f => f.noPassword = .some
  { claim :=
      if findings = [] then .none
      else if root ≠ [] ∧ free ≠ [] then .anyNoPassword
      else if root ≠ [] then .anyWithPassword
      else if free ≠ [] then .listedNoPassword free.length
      else if mixed ≠ [] then .namedSomeNoPassword findings.length
      else .namedWithPassword findings.length
    includes := reading.includes.length
    unparsed := reading.unparsed.length
    truncated := reading.truncated
    unreadable := [] }

/-! ## Every file -/

structure SudoersFileReading where
  path : Text
  unreadable : Bool
  reading : SudoersReading
deriving DecidableEq, Repr

/-- A collected file: its path and its text. -/
structure Collected where
  path : Text
  text : Text
deriving DecidableEq, Repr

def isUnreadable (text : Text) : Bool := trim text = "SP_UNREADABLE".toList || trim text = []

def readFile (f : Collected) : SudoersFileReading :=
  { path := f.path
    unreadable := isUnreadable f.text
    reading := parseSudoers (if isUnreadable f.text then [] else f.text) }

def withoutSlash (path : Text) : Text := if path.getLast? = some '/' then path.dropLast else path

/-- The readings as one, without the includes that were read. -/
def merged (files : List SudoersFileReading) : SudoersReading :=
  { aliases := files.flatMap fun f => f.reading.aliases
    specs := files.flatMap fun f => f.reading.specs
    defaults := files.flatMap fun f => f.reading.defaults
    includes := (files.flatMap fun f => f.reading.includes).filter fun i =>
      !files.any fun f => (withoutSlash i).isPrefixOf f.path
    unparsed := files.flatMap fun f => f.reading.unparsed
    truncated := files.any fun f => f.reading.truncated }

structure SudoAnswer where
  findings : List SudoFinding
  unreadable : List Text
  sentence : Sentence
deriving DecidableEq, Repr

def sudoAcrossFiles (user : Text) (groups : List Text) (files : List SudoersFileReading) :
    SudoAnswer :=
  let unreadable := (files.filter fun f => f.unreadable).map fun f => f.path
  let findings := files.flatMap fun f => sudoPrivilegesFor user groups f.reading
  { findings := findings
    unreadable := unreadable
    sentence := { describeSudo findings (merged files) with unreadable := unreadable } }

end OpsMaxx.Sudoers
