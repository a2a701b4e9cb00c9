import OpsMaxx.Strings.Words
import OpsMaxx.Strings.Regex
import OpsMaxx.Strings.Numeric
import OpsMaxx.Store.JsMap

/-!
# Hosts of an ssh config

`parseSshConfig`: the blocks of the file, and an entry for every name that is written out in one. A
block's own values come first, those of the other blocks with a wildcard for the name fill the gaps.
-/

set_option autoImplicit false

namespace OpsMaxx.SshConfig

open Strings Store

structure SshConfigHost where
  name : Text
  hostName : Text
  user : Text
  /-- None is an infinite number. -/
  port : Option ℚ
  identityFile : Option Text
  identityAgent : Option Text
  proxyJump : Option Text
  extras : JsMap Text Text
  deriving DecidableEq

structure RawBlock where
  patterns : List Text
  values : JsMap Text Text
  deriving DecidableEq

/-! ## Patterns -/

def patternMatches (pattern name : Text) : Bool :=
  if pattern = name then true
  else if !pattern.any (fun c => c = '*' || c = '?') then false
  else (globRegex pattern).test name

def isPattern (p : Text) : Bool := p.any fun c => c = '*' || c = '?' || c = '!'

/-! ## Lines -/

/-- `replace(/^"(.*)"$/, '$1')`. -/
@[grind =] def unquote (value : Text) : Text :=
  match value with
  | '"' :: t => if t.getLast? = some '"' then t.dropLast else value
  | _ => value

/-- The keyword and the value, what is before the value being blank but for one `=`. -/
def keyValue (line : Text) : Option (Text × Text) :=
  let key := line.takeWhile isWordChar
  let gap := line.dropWhile isWordChar
  let rest := trimStart gap
  let value := match rest with
    | '=' :: t => trimStart t
    | _ => rest
  if key = [] ∨ (gap = rest ∧ rest.head? ≠ some '=') ∨ value.any isLineTerminator then none
  else some (toLowerCase key, unquote (trim value))

/-- The keywords that an object without entries already has. -/
def inherited : List Text := ["constructor".toList, "__proto__".toList]

/-- Sets a value that is undefined. -/
def setFirst (values : JsMap Text Text) (key value : Text) : JsMap Text Text :=
  if key ∈ inherited ∨ values.has key then values else values.set key value

/-- The blocks so far, and the one that the next lines belong to. -/
structure Reading where
  closed : List RawBlock
  current : Option RawBlock

def Reading.blocks (r : Reading) : List RawBlock := r.closed ++ r.current.toList

def readLine (r : Reading) (rawLine : Text) : Reading :=
  let line := trim rawLine
  if line = [] ∨ line.head? = some '#' then r
  else
    match keyValue line with
    | none => r
    | some (key, value) =>
      if key = "host".toList then ⟨r.blocks, some ⟨words value, .empty⟩⟩
      else
        match r.current with
        | none => r
        | some block =>
          if key = "match".toList then ⟨r.blocks, none⟩
          else ⟨r.closed, some { block with values := setFirst block.values key value }⟩

def readBlocks (text : Text) : List RawBlock :=
  ((text.splitOn '\n').foldl readLine ⟨[], none⟩).blocks

/-! ## Entries -/

/-- The values of a block where there is none yet. -/
def fill (values : JsMap Text Text) (b : RawBlock) : JsMap Text Text :=
  b.values.entries.foldl (fun m e => setFirst m e.1 e.2) values

def applies (name : Text) (b : RawBlock) : Bool :=
  b.patterns.any fun p => isPattern p && patternMatches p name

def merged (block : RawBlock) (others : List RawBlock) (name : Text) : JsMap Text Text :=
  (others.filter (applies name)).foldl fill block.values

/-- `value || fallback`. -/
def orElse (value : Option Text) (fallback : Text) : Text :=
  match value with
  | none | some [] => fallback
  | some v => v

def infinities : List Text := ["Infinity".toList, "+Infinity".toList, "-Infinity".toList]

/-- `Number(port) || 22`. -/
def portNumber (port : Option Text) : Option ℚ :=
  match port with
  | none => some 22
  | some t =>
    if trim t ∈ infinities then none
    else
      match numericLiteral (trim t) with
      | none => some 22
      | some q =>
        match toDouble q with
        | none => none
        | some n => if n = 0 then some 22 else some n

def imported : List Text :=
  ["hostname".toList, "user".toList, "port".toList, "identityfile".toList, "identityagent".toList,
    "proxyjump".toList]

def hostOf (values : JsMap Text Text) (name : Text) : SshConfigHost where
  name := name
  hostName := orElse (values.get "hostname".toList) name
  user := orElse (values.get "user".toList) []
  port := portNumber (values.get "port".toList)
  identityFile := values.get "identityfile".toList
  identityAgent := values.get "identityagent".toList
  proxyJump := values.get "proxyjump".toList
  extras := values.filter fun k _ => decide (k ∉ imported)

def concreteNames (b : RawBlock) : List Text := b.patterns.filter fun p => !isPattern p

/-- The entries of the second blocks, the first ones standing before them in the file. -/
def hostsFrom : List RawBlock → List RawBlock → List SshConfigHost
  | _, [] => []
  | before, b :: after =>
    (concreteNames b).map (fun name => hostOf (merged b (before ++ after) name) name) ++
      hostsFrom (before ++ [b]) after

def parseSshConfig (text : Text) : List SshConfigHost := hostsFrom [] (readBlocks text)

/-!
## The rule of OpenSSH

A block applies to a name when one of its patterns takes the name and none of its negated ones does.
Of the values that the applying blocks set for a keyword the first in the file is the one obtained.
The lines of a file and the blocks they stand for are related here as well.
-/

open Strings
open Net (ofDecimal)

inductive Keyword
  | hostName
  | user
  | port
  | identityFile
  | identityAgent
  | proxyJump
  deriving DecidableEq

def Keyword.text : Keyword → Text
  | hostName => "hostname".toList
  | user => "user".toList
  | port => "port".toList
  | identityFile => "identityfile".toList
  | identityAgent => "identityagent".toList
  | proxyJump => "proxyjump".toList

structure Block where
  patterns : List Text
  settings : List (Keyword × Text)

/-! ## What is obtained -/

def Block.matches (b : Block) (name : Text) : Bool := globList b.patterns name

def Block.setting (b : Block) (k : Keyword) : Option Text := b.settings.lookup k

/-- The names a block has without wildcards. -/
def Block.concrete (b : Block) : List Text := b.patterns.filter fun p => !isPattern p

def firstOf (blocks : List Block) (k : Keyword) : Option Text := blocks.findSome? fun b => b.setting k

def obtained (blocks : List Block) (name : Text) (k : Keyword) : Option Text :=
  firstOf (blocks.filter fun b => b.matches name) k

/-- What an entry says of a keyword, with its default where no value is set. -/
def Reports (h : SshConfigHost) (set : Option Text) : Keyword → Prop
  | .hostName => h.hostName = set.getD h.name
  | .user => h.user = set.getD []
  | .port => h.port = some ((set.elim 22 ofDecimal : Nat) : ℚ)
  | .identityFile => h.identityFile = set
  | .identityAgent => h.identityAgent = set
  | .proxyJump => h.proxyJump = set

/-- Every name of a block is reported, and reported as the rule has it. -/
def ResolvesAsObtained (text : Text) (blocks : List Block) : Prop :=
  (∀ b ∈ blocks, ∀ name ∈ b.concrete, ∃ h ∈ parseSshConfig text, h.name = name) ∧
    ∀ h ∈ parseSshConfig text, (∃ b ∈ blocks, h.name ∈ b.concrete) ∧
      ∀ k, Reports h (obtained blocks h.name k) k

/-! ## The lines of a file -/

def isBlank (c : Char) : Bool := c = ' ' || c = '\t' || c = '\r'

/-- A character that is read alike inside and outside a word. -/
def isPlain (c : Char) : Bool := isInk c && c ≠ '"' && c ≠ '\'' && c ≠ '\\'

inductive Item
  | host (patterns : List Text)
  | setting (k : Keyword) (value : Text)

/-- Blanks, or one `=` between blanks. -/
inductive Separator : Text → Prop
  | blanks {s : Text} (hne : s ≠ []) (h : ∀ c ∈ s, isBlank c = true) : Separator s
  | equals {s t : Text} (hs : ∀ c ∈ s, isBlank c = true) (ht : ∀ c ∈ t, isBlank c = true) :
      Separator (s ++ '=' :: t)

/-- A keyword and an argument on a line. -/
structure Directive (line key argument : Text) : Prop where
  spelled : ∃ before between after, line = before ++ (key ++ between ++ argument) ++ after ∧
    (∀ c ∈ before, isBlank c = true) ∧ Separator between ∧ ∀ c ∈ after, isBlank c = true
  word : key ≠ [] ∧ ∀ c ∈ key, isWordChar c = true
  argument_head : ∃ c rest, argument = c :: rest ∧ isInk c = true ∧ c ≠ '=' ∧ c ≠ '#'
  argument_last : ∃ rest c, argument = rest ++ [c] ∧ isInk c = true

/-- A word as it is, or some text in quotes. The jump hosts are never in quotes. -/
inductive Argument (k : Keyword) : Text → Text → Prop
  | plain {v : Text} (hne : v ≠ []) (h : ∀ c ∈ v, isPlain c = true) : Argument k v v
  | quoted {v : Text} (hk : k ≠ .proxyJump) (hne : v ≠ [])
      (h : ∀ c ∈ v, c ≠ '"' ∧ c ≠ '\\' ∧ isLineTerminator c = false) :
      Argument k ('"' :: v ++ ['"']) v

/-- A port is its number in digits. -/
def ValidFor (k : Keyword) (v : Text) : Prop :=
  k = .port → (∀ c ∈ v, c.isDigit = true) ∧ 0 < ofDecimal v ∧ ofDecimal v ≤ 65535

/-- What a line stands for. -/
inductive SpelledLine : Text → Option Item → Prop
  | blank {line : Text} (h : ∀ c ∈ line, isBlank c = true) : SpelledLine line none
  | comment {before rest : Text} (h : ∀ c ∈ before, isBlank c = true) :
      SpelledLine (before ++ '#' :: rest) none
  | other {before key rest : Text} (hbefore : ∀ c ∈ before, isBlank c = true)
      (hkey : key ≠ [] ∧ ∀ c ∈ key, isWordChar c = true)
      (hrest : ∀ c, rest.head? = some c → isWordChar c = false)
      (hother : toLowerCase key ∉ imported ∧ toLowerCase key ≠ "host".toList ∧
        toLowerCase key ≠ "match".toList ∧ toLowerCase key ≠ "include".toList) :
      SpelledLine (before ++ key ++ rest) none
  | host {line key argument : Text} (h : Directive line key argument)
      (hkey : toLowerCase key = "host".toList)
      (hargument : ∀ c ∈ argument, c = ' ' ∨ c = '\t' ∨ isPlain c = true)
      (hwords : ∀ p ∈ words argument, p.head? ≠ some '#') :
      SpelledLine line (some (.host (words argument)))
  | setting {line key argument value : Text} {k : Keyword} (h : Directive line key argument)
      (hkey : toLowerCase key = k.text) (hargument : Argument k argument value)
      (hvalid : ValidFor k value) : SpelledLine line (some (.setting k value))

def Block.items (b : Block) : List Item :=
  .host b.patterns :: b.settings.map fun s => .setting s.1 s.2

/-- The blocks that a text is made of, line by line. -/
def Spells (text : Text) (blocks : List Block) : Prop :=
  ∃ items, List.Forall₂ SpelledLine (text.splitOn '\n') items ∧
    items.reduceOption = blocks.flatMap Block.items

end OpsMaxx.SshConfig
