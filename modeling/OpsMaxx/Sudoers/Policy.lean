import OpsMaxx.Strings.Words

/-! # The sudoers policy

The grammar and the meaning of a sudoers file, after its manual: continued lines, comments, aliases
that may be nested and defined in any file, user specifications of several clauses, tags that carry
along a command list, and the last match that decides a list. Nothing here is how the program reads
such a file; it is what the program's reading is held against.
-/

set_option autoImplicit false

namespace OpsMaxx.Sudoers.Policy
open Strings

/-! ## Words and marks -/

inductive Token
  | word (w : Text)
  | comma | colon | equals | lparen | rparen | bang
deriving DecidableEq, Repr

def markOf (c : Char) : Option Token :=
  match c with
  | ',' => some .comma
  | ':' => some .colon
  | '=' => some .equals
  | '(' => some .lparen
  | ')' => some .rparen
  | '!' => some .bang
  | _ => none

def isDigit (c : Char) : Bool := 48 ≤ c.toNat && c.toNat ≤ 57

def wordOf (cur : Text) : List Token := if cur = [] then [] else [.word cur]

/-- The lines of a file, each as its words and marks. A backslash continues a line or makes the next
character part of a word, a `#` that no digit follows starts a comment, and an `!` is a mark only in
front of a word. -/
def lex : Bool → List Token → Text → Text → List (List Token)
  | _, line, cur, [] => [line ++ wordOf cur]
  | comment, line, cur, c :: rest =>
    if c = '\n' then (line ++ wordOf cur) :: lex false [] [] rest
    else if comment then lex true line cur rest
    else if c = '\\' then
      match rest with
      | d :: rest' =>
        if d = '\n' then lex false (line ++ wordOf cur) [] rest' else lex false line (cur ++ [d]) rest'
      | [] => [line ++ wordOf cur]
    else if c = '#' ∧ (rest.head?.map isDigit).getD false = false then
      lex true (line ++ wordOf cur) [] rest
    else if isSpace c then lex false (line ++ wordOf cur) [] rest
    else
      match markOf c with
      | some mark =>
        if c = '!' ∧ cur ≠ [] then lex false line (cur ++ [c]) rest
        else lex false (line ++ wordOf cur ++ [mark]) [] rest
      | none => lex false line (cur ++ [c]) rest

/-! ## Specifications -/

/-- A member of a list: a user, a host, or a command with its arguments. -/
structure Member where
  negated : Bool
  words : List Text
deriving DecidableEq, Repr

/-- A command, with the password tag in effect for it. -/
structure Command where
  noPassword : Bool
  member : Member
deriving DecidableEq, Repr

structure Clause where
  hosts : List Member
  commands : List Command
deriving DecidableEq, Repr

structure UserSpec where
  users : List Member
  clauses : List Clause
deriving DecidableEq, Repr

inductive AliasKind
  | user | runas | cmnd | host
deriving DecidableEq, Repr

structure Alias where
  kind : AliasKind
  name : Text
  members : List Member
deriving DecidableEq, Repr

inductive Entry
  | aliases (as : List Alias)
  | spec (s : UserSpec)
  | other
deriving DecidableEq, Repr

def splitAt (t : Token) (ts : List Token) : List (List Token) := ts.splitOn t

def Token.text? : Token → Option Text
  | .word w => some w
  | _ => none

/-- The words of a member behind the marks that negate it. -/
def memberOf : List Token → Option Member
  | .bang :: rest => (memberOf rest).map fun m => { m with negated := !m.negated }
  | .word w :: rest => (rest.mapM Token.text?).map fun ws => ⟨false, w :: ws⟩
  | _ => none

def listOf (ts : List Token) : Option (List Member) := (splitAt .comma ts).mapM memberOf

/-- A user list and the host list that follows it without a comma between. -/
def splitUsers : List Token → Option (List Token × List Token)
  | .word w :: rest =>
    match rest with
    | .word _ :: _ => some ([.word w], rest)
    | .bang :: _ => some ([.word w], rest)
    | _ => (splitUsers rest).map fun p => (.word w :: p.1, p.2)
  | t :: rest => (splitUsers rest).map fun p => (t :: p.1, p.2)
  | [] => none

def TAGS : List String :=
  ["EXEC", "NOEXEC", "FOLLOW", "NOFOLLOW", "INTERCEPT", "NOINTERCEPT", "LOG_INPUT", "NOLOG_INPUT",
    "LOG_OUTPUT", "NOLOG_OUTPUT", "MAIL", "NOMAIL", "PASSWD", "NOPASSWD", "SETENV", "NOSETENV"]

def isTag (w : Text) : Bool := TAGS.any fun t => t.toList = w

/-- The pieces between the marks `t` that stand outside parentheses; a colon behind a tag belongs to
the tag. -/
def splitOutside (t : Token) : Bool → Bool → List Token → List (List Token)
  | _, _, [] => [[]]
  | inside, afterTag, u :: rest =>
    let more := splitOutside t (if u = .lparen then true else if u = .rparen then false else inside)
      (match u with
        | .word w => isTag w
        | _ => false) rest
    if u = t ∧ inside = false ∧ afterTag = false then [] :: more
    else
      match more with
      | p :: ps => (u :: p) :: ps
      | [] => [[u]]

/-- Tags in front of a command. -/
def readTags (noPassword : Bool) : List Token → Bool × List Token
  | .word w :: .colon :: rest =>
    if isTag w then
      readTags (if w = "NOPASSWD".toList then true
        else if w = "PASSWD".toList then false else noPassword) rest
    else (noPassword, .word w :: .colon :: rest)
  | ts => (noPassword, ts)

def afterRunas (ts : List Token) : List Token :=
  match ts with
  | .lparen :: rest => (rest.dropWhile (· ≠ .rparen)).tail
  | _ => ts

/-- The tags before and after a runas group, and the command behind them. -/
def readHead (noPassword : Bool) (piece : List Token) : Bool × List Token :=
  readTags (readTags noPassword piece).1 (afterRunas (readTags noPassword piece).2)

/-- The commands of a clause: a tag holds for the commands behind it. -/
def commandsOf (noPassword : Bool) : List (List Token) → Option (List Command)
  | [] => some []
  | piece :: rest => do
    let tags := readHead noPassword piece
    let m ← memberOf tags.2
    let cs ← commandsOf tags.1 rest
    pure (⟨tags.1, m⟩ :: cs)

def clauseOf (hosts commands : List Token) : Option Clause := do
  let hs ← listOf hosts
  let cs ← commandsOf false (splitOutside .comma false false commands)
  pure ⟨hs, cs⟩

/-- A text cut at its first `=`. -/
def cutEquals (ts : List Token) : Option (List Token × List Token) :=
  if .equals ∈ ts then some (ts.takeWhile (· ≠ .equals), (ts.dropWhile (· ≠ .equals)).tail)
  else none

def clausesOf : List (List Token) → Option (List Clause)
  | [] => some []
  | piece :: rest => do
    let cut ← cutEquals piece
    let c ← clauseOf cut.1 cut.2
    let cs ← clausesOf rest
    pure (c :: cs)

def specOf (ts : List Token) : Option UserSpec := do
  let cut ← cutEquals ts
  let lists ← splitUsers cut.1
  let users ← listOf lists.1
  match splitOutside .colon false false cut.2 with
  | [] => none
  | commands :: rest => do
    let c ← clauseOf lists.2 commands
    let cs ← clausesOf rest
    pure ⟨users, c :: cs⟩

def aliasKindOf (w : Text) : Option AliasKind :=
  if w = "User_Alias".toList then some .user
  else if w = "Runas_Alias".toList then some .runas
  else if w = "Cmnd_Alias".toList ∨ w = "Cmd_Alias".toList then some .cmnd
  else if w = "Host_Alias".toList then some .host
  else none

def aliasOf (kind : AliasKind) (ts : List Token) : Option Alias :=
  match ts with
  | .word name :: .equals :: rest => (listOf rest).map fun ms => ⟨kind, name, ms⟩
  | _ => none

def isDefaults (w : Text) : Bool :=
  "Defaults".toList.isPrefixOf w
    && ((w.drop 8).head?.map fun c => c = '@' || c = '!' || c = '>').getD true

def entryOf (line : List Token) : Entry :=
  match line with
  | [] => .other
  | .word w :: rest =>
    if isDefaults w then .other
    else
      match aliasKindOf w with
      | some kind => ((splitAt .colon rest).mapM (aliasOf kind)).elim .other .aliases
      | none => (specOf line).elim .other .spec
  | _ => (specOf line).elim .other .spec

def entries (text : Text) : List Entry := (lex false [] [] text).map entryOf

/-! ## Meaning -/

structure Account where
  name : Text
  uid : Nat
  groups : List Text
deriving DecidableEq, Repr

/-- The host a policy is read on: the host words that mean it. -/
structure Host where
  here : Text → Bool

def ALL : Text := "ALL".toList

/-- Whether a word of a user list that is no alias means the account. A netgroup never does. -/
def meansAccount (a : Account) (w : Text) : Bool :=
  match w with
  | '#' :: digits => digits = Nat.toDigits 10 a.uid
  | '%' :: group => a.groups.contains group
  | '+' :: _ => false
  | _ => w = a.name

def lookup (as : List Alias) (kind : AliasKind) (w : Text) : Option (List Member) :=
  (as.find? fun a => a.kind = kind && a.name = w).map Alias.members

/-- What the last member of a list that matches says. -/
def lastMatch (value : Member → Option Bool) (ms : List Member) : Option Bool :=
  ms.foldl (fun acc m => ((value m).map fun b => b != m.negated).or acc) none

/-- Whether a member means what is asked for: `ALL` always does, an alias when its list does. -/
def value (as : List Alias) (kind : AliasKind) (base : Text → Bool) : Nat → Member → Option Bool
  | 0, _ => none
  | fuel + 1, m =>
    match m.words with
    | [w] =>
      if w = ALL then some true
      else
        match lookup as kind w with
        | some ms => lastMatch (value as kind base fuel) ms
        | none => if base w then some true else none
    | _ => none

/-- Nesting is at most as deep as there are aliases. -/
def means (as : List Alias) (kind : AliasKind) (base : Text → Bool) (m : Member) : Option Bool :=
  value as kind base (as.length + 1) m

/-- Whether a command list grants the command `ALL`, and whether without a password. -/
def commandGrant (as : List Alias) (cs : List Command) : Option (Bool × Bool) :=
  cs.foldl (fun acc c => ((means as .cmnd (fun _ => false) c.member).map
    fun b => (b != c.member.negated, c.noPassword)).or acc) none

def aliasesOf (es : List Entry) : List Alias :=
  es.flatMap fun e => match e with
    | .aliases as => as
    | _ => []

def specsOf (es : List Entry) : List UserSpec :=
  es.filterMap fun e => match e with
    | .spec s => some s
    | _ => none

/-- A clause of some specification grants the account the command `ALL` on this host. -/
def Grants (es : List Entry) (host : Host) (a : Account) (noPassword : Bool) : Prop :=
  ∃ s ∈ specsOf es,
    lastMatch (means (aliasesOf es) .user (meansAccount a)) s.users = some true ∧
      ∃ c ∈ s.clauses,
        lastMatch (means (aliasesOf es) .host host.here) c.hosts = some true ∧
          commandGrant (aliasesOf es) c.commands = some (true, noPassword)

end OpsMaxx.Sudoers.Policy
