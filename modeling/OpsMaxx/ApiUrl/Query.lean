import Mathlib.Data.List.DropRight
import OpsMaxx.Strings.Percent
import OpsMaxx.Strings.Words

/-!
# The query of a URL template

`splitUrl` reads the query of a URL as rows, `withParams` writes the enabled rows back. The URL may
hold references, `{{name}}` and `vault:id#field`, which are written as they stand.
-/

set_option autoImplicit false

namespace OpsMaxx.ApiUrl

open Strings

structure Row where
  enabled : Bool
  key : Text
  value : Text
  deriving DecidableEq

/-! ## References -/

def notBrace (c : Char) : Bool := c ≠ '{' && c ≠ '}'

/-- `/^\{\{[^{}]*\}\}/`: the reference, and what follows it. -/
def braceRef : Text → Option (Text × Text)
  | '{' :: '{' :: t =>
    match t.dropWhile notBrace with
    | '}' :: '}' :: rest => some ('{' :: '{' :: t.takeWhile notBrace ++ ['}', '}'], rest)
    | _ => none
  | _ => none

/-- `[A-Za-z0-9_-]`. -/
def isIdChar (c : Char) : Bool := c.isAlphanum || c = '_' || c = '-'

def vaultTag : Text := ['v', 'a', 'u', 'l', 't', ':']

def fields : List Text :=
  [['p', 'a', 's', 's', 'w', 'o', 'r', 'd'], ['u', 's', 'e', 'r', 'n', 'a', 'm', 'e']]

/-- `/^vault:[A-Za-z0-9_-]{1,64}#(?:password|username)/`. -/
def vaultRef (t : Text) : Option (Text × Text) :=
  if !vaultTag.isPrefixOf t then none
  else
    let id := (t.drop 6).takeWhile isIdChar
    let behind := (t.drop 6).dropWhile isIdChar
    if id = [] ∨ 64 < id.length ∨ behind.head? ≠ some '#' then none
    else
      (fields.find? fun f => f.isPrefixOf behind.tail).map fun f =>
        (vaultTag ++ id ++ '#' :: f, behind.tail.drop f.length)

def kept (t : Text) : Option (Text × Text) := (braceRef t).or (vaultRef t)

inductive Piece
  | reference (r : Text)
  | char (c : Char)
  deriving DecidableEq

def Piece.text : Piece → Text
  | reference r => r
  | char c => [c]

def piecesFrom : Nat → Text → List Piece
  | 0, _ => []
  | n + 1, t =>
    match kept t with
    | some (r, rest) => .reference r :: piecesFrom n rest
    | none =>
      match t with
      | [] => []
      | c :: t => .char c :: piecesFrom n t

/-- The references of a text and the characters between them. -/
def pieces (t : Text) : List Piece := piecesFrom t.length t

/-! ## Coding -/

def safeDecode (t : Text) : Text := (decodeURIComponent (plusToSpace t)).getD t

/-- What is not written as it is. The back quote is 0x60. -/
def isSpecial (isKey : Bool) (c : Char) : Bool :=
  c = '&' || c = '#' || c = '+' || c = '%' || (isKey && c = '=') || isSpace c || c = '"' || c = '<' ||
    c = '>' || c = '\\' || c = '^' || c.toNat = 0x60 || c = '|' || c = '{' || c = '}'

def encodePiece (isKey : Bool) : Piece → Text
  | .reference r => r
  | .char c => if isSpecial isKey c then encodeURIComponent [c] else [c]

def encodePart (t : Text) (isKey : Bool) : Text := (pieces t).flatMap (encodePiece isKey)

/-! ## The URL -/

/-- `/vault:[A-Za-z0-9_-]{1,64}$/`. -/
def guarded (before : Text) : Bool :=
  let id := before.rtakeWhile isIdChar
  id ≠ [] && id.length ≤ 64 && vaultTag.isSuffixOf (before.rdropWhile isIdChar)

def splitHashFrom (before : Text) : Text → Text × Text
  | [] => (before, [])
  | c :: t =>
    if c = '#' ∧ guarded before = false then (before, c :: t) else splitHashFrom (before ++ [c]) t

def splitHash (url : Text) : Text × Text := splitHashFrom [] url

def readPair (pair : Text) : Row :=
  match splitFirst '=' pair with
  | none => ⟨true, safeDecode pair, safeDecode []⟩
  | some (key, value) => ⟨true, safeDecode key, safeDecode value⟩

/-- The base, and a row for each pair. -/
def splitUrl (url : Text) : Text × List Row :=
  let head := (splitHash url).1
  match splitFirst '?' head with
  | none => (head, [])
  | some (base, query) => (base, ((query.splitOn '&').filter (· ≠ [])).map readPair)

def live (rows : List Row) : List Row := rows.filter fun r => r.enabled && r.key ≠ []

def pairText (r : Row) : Text :=
  if r.value = [] then encodePart r.key true
  else encodePart r.key true ++ '=' :: encodePart r.value false

def queryText (pairs : List Text) : Text :=
  if pairs = [] then [] else '?' :: ['&'].intercalate pairs

def withParams (url : Text) (rows : List Row) : Text :=
  let (head, hash) := splitHash url
  let base := match splitFirst '?' head with
    | none => head
    | some (base, _) => base
  base ++ queryText ((live rows).map pairText) ++ hash

/-!
## A template as it is meant

A reference is one piece of a template, whatever it holds. The query begins at the first question mark
that is no part of a reference, the fragment at the first hash, and the pairs are what stands between
ampersands.
-/

def textOf (ps : List Piece) : Text := ps.flatMap Piece.text

/-- Everything before the fragment. -/
def headPieces (u : Text) : List Piece := (pieces u).takeWhile (· ≠ .char '#')

def basePieces (u : Text) : List Piece := (headPieces u).takeWhile (· ≠ .char '?')

def queryPieces (u : Text) : List Piece := ((headPieces u).dropWhile (· ≠ .char '?')).tail

def baseOf (u : Text) : Text := textOf (basePieces u)

def fragmentOf (u : Text) : Text := textOf ((pieces u).dropWhile (· ≠ .char '#'))

/-! ## The pairs -/

def keyPieces (pair : List Piece) : List Piece := pair.takeWhile (· ≠ .char '=')

def valuePieces (pair : List Piece) : List Piece := (pair.dropWhile (· ≠ .char '=')).tail

def namedPair (pair : List Piece) : Row :=
  ⟨true, safeDecode (textOf (keyPieces pair)), safeDecode (textOf (valuePieces pair))⟩

def pairPieces (u : Text) : List (List Piece) :=
  ((queryPieces u).splitOn (.char '&')).filter (· ≠ [])

/-- The decoded pairs that a URL names. -/
def namedPairs (u : Text) : List Row := (pairPieces u).map namedPair

/-- Writing rows into a URL and reading them again. -/
structure RoundTrips (u : Text) (rows : List Row) : Prop where
  read : (splitUrl (withParams u rows)).2 = live rows
  written : ∃ query, (query = [] ∨ query.head? = some '?') ∧
    withParams u rows = baseOf u ++ query ++ fragmentOf u
  base : (splitUrl (withParams u rows)).1 = baseOf u
  fragment : (splitHash (withParams u rows)).2 = fragmentOf u
  named : (splitUrl (withParams u (splitUrl u).2)).2 = namedPairs u

/-! ## What may stand in references -/

/-- Every hash has `vault:` and an id before it. -/
def HashGuarded (s : Text) : Prop := ∀ p q, s = p ++ '#' :: q → guarded p = true

/-- No reference holds what the coding or the query would take for its own. -/
def CleanPart (isKey : Bool) (t : Text) : Prop :=
  ∀ r, Piece.reference r ∈ pieces t →
    '+' ∉ r ∧ '%' ∉ r ∧ '&' ∉ r ∧ (isKey = true → '=' ∉ r) ∧ HashGuarded r

/-- What the last row ends with, or the base where there is none. -/
def lastPart (base : Text) (rows : List Row) : Text :=
  match rows.getLast? with
  | none => base
  | some r => if r.value = [] then r.key else r.value

/-- The rows can be written in front of the fragment. -/
structure CleanRows (u : Text) (rows : List Row) : Prop where
  parts : ∀ r ∈ live rows, CleanPart true r.key ∧ CleanPart false r.value
  fragment : fragmentOf u = [] ∨ guarded (lastPart (baseOf u) (live rows)) = false

/-- The references of a URL hold nothing that divides it. -/
structure CleanUrl (u : Text) : Prop where
  hashes : ∀ r, Piece.reference r ∈ headPieces u → HashGuarded r
  marks : ∀ r, Piece.reference r ∈ basePieces u → '?' ∉ r
  ampersands : ∀ r, Piece.reference r ∈ queryPieces u → '&' ∉ r
  equals : ∀ pair ∈ pairPieces u, ∀ r, Piece.reference r ∈ keyPieces pair → '=' ∉ r
  fragment : fragmentOf u = [] ∨ guarded (textOf (headPieces u)) = false
  keys : ∀ r ∈ namedPairs u, r.key ≠ []

end OpsMaxx.ApiUrl
