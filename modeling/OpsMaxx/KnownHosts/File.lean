import OpsMaxx.Strings.Regex
import OpsMaxx.Jobs.Reply
import OpsMaxx.Access.Encoding

/-!
# The known_hosts of OpenSSH

`parseKnownHosts` reads the file, `lookupInKnownHosts` says what its lines have about a key that a
host presented. The message authentication code of hashed names and the fingerprint of a key are
parameters.
-/

set_option autoImplicit false

namespace OpsMaxx.KnownHosts

open Strings
open Access (Bytes encodeBase64)

inductive Marker
  | certAuthority
  | revoked
  deriving DecidableEq

structure OpenSshHostEntry where
  marker : Option Marker
  patterns : List Text
  /-- The salt and the code, in base64. -/
  hashed : Option (Text × Text)
  keyType : Text
  key : Bytes
  deriving DecidableEq

/-! ## Lines -/

/-- `split(/\s+/)` of a text without white space at its ends. -/
def splitSpaces (s : Text) : List Text := if s = [] then [[]] else words s

/-- The standard character for one of the alphabet that is safe in URLs. -/
def standard (c : Char) : Char := if c = '-' then '+' else if c = '_' then '/' else c

/-- `Buffer.from(t, 'base64')`. -/
def bufferFrom (t : Text) : Bytes := Jobs.Reply.base64Bytes (t.map standard)

/-- The marker and the rest of the line. None is an unknown marker. -/
def readMarker (line : Text) : Option (Option Marker × Text) :=
  if line.head? = some '@' then
    match splitSpaces line with
    | [] => none
    | tag :: tail =>
      if tag = "@cert-authority".toList then some (some .certAuthority, unwords tail)
      else if tag = "@revoked".toList then some (some .revoked, unwords tail)
      else none
  else some (none, line)

def readEntry (marker : Option Marker) (rest : Text) : Option OpenSshHostEntry :=
  match splitSpaces rest with
  | hosts :: keyType :: keyB64 :: _ =>
    let key := bufferFrom keyB64
    if key = [] then none
    else if "|1|".toList.isPrefixOf hosts then
      match hosts.splitOn '|' with
      | _ :: _ :: salt :: hash :: _ =>
        if salt = [] ∨ hash = [] then none else some ⟨marker, [], some (salt, hash), keyType, key⟩
      | _ => none
    else some ⟨marker, hosts.splitOn ',', none, keyType, key⟩
  | _ => none

def parseLine (raw : Text) : Option OpenSshHostEntry :=
  let line := trim raw
  if line = [] ∨ line.head? = some '#' then none
  else (readMarker line).bind fun read => readEntry read.1 read.2

def parseKnownHosts (text : Text) : List OpenSshHostEntry := (text.splitOn '\n').filterMap parseLine

/-! ## Names -/

def canonicalHostname (host : Text) (port : Nat) : Text :=
  let p := if port = 0 then 22 else port
  if p = 22 then host else '[' :: host ++ "]:".toList ++ Nat.toDigits 10 p

/-- The patterns that are left, and whether one before them matched. -/
def patternsLoop (name : Text) : Bool → List Text → Bool
  | matched, [] => matched
  | matched, p :: ps =>
    if p.head? = some '!' then
      if (globRegex p.tail).test name then false else patternsLoop name matched ps
    else if (globRegex p).test name then patternsLoop name true ps
    else patternsLoop name matched ps

def patternsMatch (patterns : List Text) (name : Text) : Bool := patternsLoop name false patterns

variable (hmac : Bytes → Text → Bytes)

def entryMatchesHost (entry : OpenSshHostEntry) (name : Text) : Bool :=
  match entry.hashed with
  | some (salt, hash) => encodeBase64 (hmac (bufferFrom salt) name) = hash
  | none => patternsMatch entry.patterns name

/-! ## Lookup -/

structure OpenSshLookup where
  trusted : Bool
  knownUnderAnotherKey : Bool
  revoked : Bool
  deriving DecidableEq

variable (fingerprintOf : Bytes → Text)

def lookupEntry (name presented : Text) (result : OpenSshLookup) (entry : OpenSshHostEntry) :
    OpenSshLookup :=
  if !entryMatchesHost hmac entry name then result
  else
    let sameKey : Bool := fingerprintOf entry.key = presented
    match entry.marker with
    | some .revoked => if sameKey then { result with revoked := true } else result
    | some .certAuthority => result
    | none =>
      if sameKey then { result with trusted := true }
      else { result with knownUnderAnotherKey := true }

def lookupInKnownHosts (entries : List OpenSshHostEntry) (host : Text) (port : Nat)
    (presentedFingerprint : Text) : OpenSshLookup :=
  entries.foldl (lookupEntry hmac fingerprintOf (canonicalHostname host port) presentedFingerprint)
    ⟨false, false, false⟩

end OpsMaxx.KnownHosts

/-!
## What OpenSSH has about a key

The lines of the file, and which of them take a name. The name is looked up in lower case; where it
has a port and no plain line takes it, the bare host is looked up as well.
-/

namespace OpsMaxx.KnownHosts

open Strings
open Access (Bytes encodeBase64)

inductive Hosts
  | patterns (ps : List Text)
  | hashed (salt hash : Bytes)

structure Line where
  marker : Option Marker
  hosts : Hosts
  key : Bytes

/-! ## Lookup -/

section
variable (hmac : Bytes → Text → Bytes)

def Hosts.takes : Hosts → Text → Prop
  | .patterns ps, name => globList ps name = true
  | .hashed salt hash, name => hmac salt name = hash

/-- Some line with this marker has the key for the name. -/
def Names (lines : List Line) (marker : Option Marker) (key : Bytes) (name : Text) : Prop :=
  ∃ l ∈ lines, l.marker = marker ∧ l.key = key ∧ l.hosts.takes hmac name

def Found (lines : List Line) (name : Text) : Prop := ∃ key, Names hmac lines none key name

def lowered (name : Text) : Text := name.map Char.toLower

def defaultPort (port : Nat) : Prop := port = 0 ∨ port = 22

/-- The names that are looked up. -/
def Tried (lines : List Line) (host : Text) (port : Nat) (name : Text) : Prop :=
  name = lowered (canonicalHostname host port) ∨
    (¬ defaultPort port ∧ ¬ Found hmac lines (lowered (canonicalHostname host port)) ∧
      name = lowered host)

def Revokes (lines : List Line) (host : Text) (port : Nat) (key : Bytes) : Prop :=
  ∃ name, Tried hmac lines host port name ∧ Names hmac lines (some .revoked) key name

/-- A plain line has the key. -/
def Holds (lines : List Line) (host : Text) (port : Nat) (key : Bytes) : Prop :=
  ∃ name, Tried hmac lines host port name ∧ Names hmac lines none key name

end

/-! ## The lines of a file -/

def isBlank (c : Char) : Bool := c = ' ' || c = '\t' || c = '\r'

def IsGap (s : Text) : Prop := s ≠ [] ∧ ∀ c ∈ s, isBlank c = true

/-- The patterns are what stands between the commas. -/
inductive SpelledHosts : Hosts → Text → Prop
  | patterns {s : Text} (hs : IsWord s)
      (hhead : s.head? ≠ some '#' ∧ s.head? ≠ some '@' ∧ s.head? ≠ some '|') :
      SpelledHosts (.patterns (s.splitOn ',')) s
  | hashed {salt hash : Bytes} (hsalt : salt ≠ []) (hhash : hash ≠ []) :
      SpelledHosts (.hashed salt hash)
        ("|1|".toList ++ encodeBase64 salt ++ '|' :: encodeBase64 hash)

def Marker.tag : Marker → Text
  | certAuthority => "@cert-authority".toList
  | revoked => "@revoked".toList

inductive SpelledMarker : Option Marker → Text → Prop
  | plain : SpelledMarker none []
  | marked {m : Marker} {gap : Text} (h : IsGap gap) : SpelledMarker (some m) (m.tag ++ gap)

/-- What a line stands for: nothing, or the hosts, the type and the key behind its marker, and a
comment. -/
inductive SpelledLine : Text → Option Line → Prop
  | blank {line : Text} (h : ∀ c ∈ line, isBlank c = true) : SpelledLine line none
  | comment {before rest : Text} (h : ∀ c ∈ before, isBlank c = true) :
      SpelledLine (before ++ '#' :: rest) none
  | entry {l : Line} {before mark hosts gap type gap' comment : Text}
      (hbefore : ∀ c ∈ before, isBlank c = true) (hmark : SpelledMarker l.marker mark)
      (hhosts : SpelledHosts l.hosts hosts) (hgap : IsGap gap) (htype : IsWord type)
      (hgap' : IsGap gap') (hkey : l.key ≠ [])
      (hcomment : ∀ c, comment.head? = some c → isBlank c = true) :
      SpelledLine (before ++ mark ++ (hosts ++ gap ++ (type ++ gap' ++ (encodeBase64 l.key ++ comment))))
        (some l)

def Spells (text : Text) (lines : List Line) : Prop :=
  ∃ found, List.Forall₂ SpelledLine (text.splitOn '\n') found ∧ found.reduceOption = lines

/-! ## What is expected of the lookup -/

section
variable (hmac : Bytes → Text → Bytes) (fingerprintOf : Bytes → Text)

/-- Whatever OpenSSH has as revoked is revoked, and only what a plain line has is trusted. -/
structure ReadAlike (text : Text) (lines : List Line) (host : Text) (port : Nat) (key : Bytes) :
    Prop where
  revoked : Revokes hmac lines host port key →
    (lookupInKnownHosts hmac fingerprintOf (parseKnownHosts text) host port
      (fingerprintOf key)).revoked = true
  trusted : (lookupInKnownHosts hmac fingerprintOf (parseKnownHosts text) host port
      (fingerprintOf key)).trusted = true → Holds hmac lines host port key

/-- A host in lower case, of one line. -/
def PlainHost (host : Text) : Prop := lowered host = host ∧ ∀ c ∈ host, isDot c = true

/-- No revocation is found under the bare host alone. -/
def NoBareRevocation (lines : List Line) (host : Text) (port : Nat) (key : Bytes) : Prop :=
  defaultPort port ∨ Found hmac lines (canonicalHostname host port) ∨
    Names hmac lines (some .revoked) key (canonicalHostname host port) ∨
      ¬ Names hmac lines (some .revoked) key host

end

end OpsMaxx.KnownHosts
