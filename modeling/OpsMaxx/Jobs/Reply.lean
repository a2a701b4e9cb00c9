import OpsMaxx.Addy.Payload
import OpsMaxx.Jobs.Follow
import OpsMaxx.Jobs.Watch
import OpsMaxx.Sidecar.Encoding
import OpsMaxx.Strings.Find
import OpsMaxx.Strings.Split
import OpsMaxx.Strings.Percent

/-!
# The text of a poll's reply

What the commands of `buildJobPoll` print for a marker directory, and what `parseJobPoll` reads in
as much of it as arrives: the fields of the header, and the bytes of the body.
-/

set_option autoImplicit false

namespace OpsMaxx.Jobs.Reply

open OpsMaxx.Strings

/-! ## What the host prints -/

/-- What a marker directory holds beside the output. Its values are identifiers and numbers. -/
structure Marker where
  inst : Text
  pid : Text
  pgid : Text
  rc : Text
  alive : Bool
  strong : Bool
  rc2 : Text
  plain : ∀ value ∈ [inst, pid, pgid, rc, rc2], ∀ c ∈ value, safeIdChar c = true

/-- What a poll asks for. -/
structure Asked where
  offset : Nat
  maxBytes : Nat

def sentOf (a : Asked) (size : Nat) : Nat := min (size - a.offset) (max 1 a.maxBytes)

def field (key : String) (value : Text) : Text := key.toList ++ '=' :: value

/-- The lines of the header behind the first. -/
def headerLines (m : Marker) (size sent : Nat) : List Text :=
  [field "marker" "present".toList, field "instance" m.inst, field "pid" m.pid,
    field "pgid" m.pgid, field "rc" m.rc, field "alive" (if m.alive then "yes" else "no").toList,
    field "pidcheck" (if m.strong then "strong" else "weak").toList, field "rc2" m.rc2,
    field "size" (Nat.toDigits 10 size), field "sent" (Nat.toDigits 10 sent)]

/-- The window is closed in bytes on the host. -/
def window (a : Asked) (size : Nat) (out : List UInt8) : List UInt8 :=
  (out.drop a.offset).take (sentOf a size)

/-- `out` may have grown since its size was read. -/
def pollReply (a : Asked) (m : Option Marker) (size : Nat) (out : List UInt8) : Text :=
  match m with
  | none => unlines ["opsmaxx-poll/1".toList, "marker=missing".toList, "body/1".toList]
  | some m =>
    unlines ("opsmaxx-poll/1".toList :: headerLines m size (sentOf a size)) ++
      "body/1\n".toList ++ Sidecar.base64Encode (window a size out)

/-! ## What is read in it -/

/-- The bytes that characters of the alphabet spell. What is left of a group that was cut short
spells the bytes that are whole. -/
def base64Groups : List Nat → List UInt8
  | x :: y :: z :: w :: rest =>
    (x * 4 + y / 16).toUInt8 :: (y % 16 * 16 + z / 4).toUInt8 :: (z % 4 * 64 + w).toUInt8 ::
      base64Groups rest
  | [x, y, z] => [(x * 4 + y / 16).toUInt8, (y % 16 * 16 + z / 4).toUInt8]
  | [x, y] => [(x * 4 + y / 16).toUInt8]
  | _ => []

def isBase64Char (c : Char) : Bool := (Sidecar.base64Value c).isSome || c = '='

/-- `Buffer.from(text.replace(/[^A-Za-z0-9+/=]/g, ''), 'base64')`: it ends at the padding. -/
def base64Bytes (text : Text) : List UInt8 :=
  base64Groups (((text.filter isBase64Char).takeWhile (· ≠ '=')).filterMap Sidecar.base64Value)

def isKeyChar (c : Char) : Bool := c.isLower || c.isDigit || c = '_'

def dropCarriageReturn (t : Text) : Text := if t.getLast? = some '\r' then t.dropLast else t

/-- What one line of a header sets. -/
def headerField (line : Text) : Option (Text × Text) :=
  match splitFirst '=' line with
  | none => none
  | some (before, value) =>
    let key := trim before
    if before ≠ [] ∧ key ≠ [] ∧ key.all isKeyChar then
      some (key, trim (dropCarriageReturn value))
    else none

def headerFields (text : Text) : List (Text × Text) := (text.splitOn '\n').filterMap headerField

/-- A field that is set again has its last value. -/
def getField (fields : List (Text × Text)) (key : String) : Option Text :=
  fields.reverse.lookup key.toList

def num (fields : List (Text × Text)) (key : String) : Option Nat :=
  match getField fields key with
  | none => none
  | some v => if v ≠ [] ∧ v.all Char.isDigit then some (Nat.ofDigitChars 10 v 0) else none

/-- `rest.replace(/^\r?\n?/, '')`. -/
def dropLineEnd : Text → Text
  | '\r' :: '\n' :: rest => rest
  | '\r' :: rest => rest
  | '\n' :: rest => rest
  | rest => rest

inductive PidCheck
  | strong
  | weak
  deriving DecidableEq

structure JobPollRead where
  present : Bool
  inst : Option Text
  pid : Option Nat
  pgid : Option Nat
  rc : Option Nat
  alive : Bool
  pidCheck : PidCheck
  size : Nat
  sent : Nat
  text : Text
  carry : List UInt8

/-- `Buffer.toString('utf8')`. -/
def decode (bytes : List UInt8) : Text := Addy.decodeLossy bytes.length bytes

/-- The header and the body. -/
def sections (stdout : Text) : Text × Text :=
  match cutAt "body/1".toList stdout with
  | none => (stdout, [])
  | some (head, rest) => (head, dropLineEnd rest)

def parseJobPoll (stdout : Text) (base64 : Bool) (carry : List UInt8) : JobPollRead :=
  let f := headerFields (sections stdout).1
  let raw := (sections stdout).2
  let body :=
    Jobs.parseJobPoll decode base64 carry ((num f "sent").getD 0)
      (if base64 then base64Bytes raw else utf8 raw)
  { present := getField f "marker" = some "present".toList
    inst := (getField f "instance").filter (· ≠ [])
    pid := num f "pid"
    pgid := num f "pgid"
    rc := (num f "rc").or (num f "rc2")
    alive := getField f "alive" = some "yes".toList
    pidCheck := if getField f "pidcheck" = some "strong".toList then .strong else .weak
    size := (num f "size").getD 0
    sent := body.sent
    text := if base64 then body.text else raw
    carry := body.carry }

end OpsMaxx.Jobs.Reply
