import Mathlib.Data.List.DropRight
import OpsMaxx.Streams.Buffered

/-!
# The CONNECT proxy

The head of a request is read line by line off a buffered reader, its lines trimmed and counted. What
the client sent behind it goes to the upstream, first what is in the buffer, then the connection.
-/

set_option autoImplicit false

namespace OpsMaxx.Proxy

open Streams (Reader takePiece takePiece_measure)

abbrev Bytes : Type := List UInt8

def httpMaxHeaderBytes : Nat := 32 * 1024

def httpMaxHeaderLines : Nat := 200

def httpReadBufSize : Nat := 8 * 1024

def relayBufSize : Nat := 32 * 1024

theorem httpReadBufSize_pos : 0 < httpReadBufSize := by decide

theorem relayBufSize_pos : 0 < relayBufSize := by decide

inductive ReadError
  | io
  | http (status : Nat) (reason : String)
  deriving DecidableEq

def tooLarge : ReadError := .http 431 "Request Header Fields Too Large"

def badRequest : ReadError := .http 400 "Bad Request"

def notImplemented : ReadError := .http 501 "Not Implemented"

/-! ## Lines -/

def CR : UInt8 := 13

def LF : UInt8 := 10

def isLineEnd (b : UInt8) : Bool := b = CR || b = LF

/-- `strings.TrimRight(line, "\r\n")`. -/
def trimRight (line : Bytes) : Bytes := line.rdropWhile isLineEnd

/-- Reading up to the line feed grows to meet the line and never finds the buffer full, so that the
length is looked at behind it. -/
def readHTTPLine (br : Reader UInt8) : Except ReadError Bytes × Reader UInt8 :=
  match Streams.readString httpReadBufSize_pos LF br with
  | (none, br) => (.error .io, br)
  | (some line, br) =>
    if httpReadBufSize < line.length then (.error tooLarge, br) else (.ok (trimRight line), br)

/-! ## The request line -/

def ascii (s : String) : Bytes := s.toList.map fun c => c.toNat.toUInt8

/-- How many bytes the white space at the beginning takes, in UTF-8. -/
def spaceWidth : Bytes → Nat
  | 0xc2 :: 0x85 :: _ | 0xc2 :: 0xa0 :: _ => 2
  | 0xe1 :: 0x9a :: 0x80 :: _ | 0xe2 :: 0x81 :: 0x9f :: _ | 0xe3 :: 0x80 :: 0x80 :: _ => 3
  | 0xe2 :: 0x80 :: b :: _ => if (0x80 ≤ b && b ≤ 0x8a) || b = 0xa8 || b = 0xa9 || b = 0xaf then 3 else 0
  | b :: _ => if (9 ≤ b && b ≤ 13) || b = 32 then 1 else 0
  | [] => 0

/-- `strings.Fields`, from what has been read of the field. -/
def fields (field : Bytes) : Bytes → List Bytes
  | [] => if field = [] then [] else [field]
  | b :: t =>
    match spaceWidth (b :: t) with
    | 0 => fields (field ++ [b]) t
    | w + 1 => (if field = [] then [] else [field]) ++ fields [] (t.drop w)
termination_by t => t.length
decreasing_by
  · simp
  · simp only [List.length_cons, List.length_drop]
    omega

def lower (b : UInt8) : UInt8 := if 65 ≤ b && b ≤ 90 then b + 32 else b

/-- What is before the last colon, and what follows. -/
def lastColon (s : Bytes) : Option (Bytes × Bytes) :=
  if 58 ∈ s then
    some ((s.rdropWhile (· ≠ 58)).dropLast, s.rtakeWhile (· ≠ 58))
  else none

/-- `net.SplitHostPort`. -/
def splitHostPort (hostport : Bytes) : Option (Bytes × Bytes) :=
  match lastColon hostport with
  | none => none
  | some (before, port) =>
    if hostport.head? = some 91 then
      let host := (hostport.drop 1).takeWhile (· ≠ 93)
      if before ≠ 91 :: host ++ [93] then none
      else if 91 ∈ host || 91 ∈ port || 93 ∈ port then none
      else some (host, port)
    else if 58 ∈ before || 91 ∈ hostport || 93 ∈ hostport then none
    else some (before, port)

def isDigit (b : UInt8) : Bool := 48 ≤ b && b ≤ 57

def digits (s : Bytes) : Option Nat :=
  if s ≠ [] && s.all isDigit then some (s.foldl (fun n b => n * 10 + (b.toNat - 48)) 0) else none

/-- `strconv.Atoi`, without its bound, which is above that of a port. -/
def atoi : Bytes → Option Int
  | 45 :: s => (digits s).map fun n => -(n : Int)
  | 43 :: s => (digits s).map fun n => (n : Int)
  | s => (digits s).map fun n => (n : Int)

/-- The host and the port that a request line asks for. -/
def requestTarget (line : Bytes) : Except ReadError (Bytes × Nat) :=
  match fields [] line with
  | method :: target :: _ :: _ =>
    if method.map lower ≠ (ascii "CONNECT").map lower then .error notImplemented
    else
      let (host, portStr) := (splitHostPort target).getD (target, ascii "443")
      match atoi portStr with
      | none => .error badRequest
      | some port =>
        if host = [] || port ≤ 0 || 65535 < port then .error badRequest else .ok (host, port.toNat)
  | _ => .error badRequest

/-! ## The head -/

/-- The header lines, of which so many may still come, with the bytes counted so far. -/
def readHeaders : Nat → Nat → Reader UInt8 → Except ReadError Unit × Reader UInt8
  | 0, _, br => (.error tooLarge, br)
  | left + 1, total, br =>
    match readHTTPLine br with
    | (.error e, br) => (.error e, br)
    | (.ok h, br) =>
      if h = [] then (.ok (), br)
      else if httpMaxHeaderBytes < total + h.length then (.error tooLarge, br)
      else readHeaders left (total + h.length) br

def readConnectRequest (br : Reader UInt8) : Except ReadError (Bytes × Nat) × Reader UInt8 :=
  match readHTTPLine br with
  | (.error e, br) => (.error e, br)
  | (.ok line, br) =>
    match requestTarget line with
    | .error e => (.error e, br)
    | .ok target =>
      let found := readHeaders httpMaxHeaderLines line.length br
      (found.1.map fun _ => target, found.2)

/-! ## The connection -/

/-- One direction of the relay. -/
def copyBuffer : List Bytes → Bytes
  | [] => []
  | p :: ps => p.take relayBufSize ++ copyBuffer (takePiece relayBufSize p ps)
termination_by c => c.flatten.length + c.length
decreasing_by exact takePiece_measure relayBufSize_pos p ps

/-- What the upstream is sent when the request is accepted: what is in the buffer, then what the relay
copies. -/
def forwarded (br : Reader UInt8) : Bytes := br.buf ++ copyBuffer br.conn

/-- The connection of a client that sends these pieces. -/
def newReader (pieces : List Bytes) : Reader UInt8 := ⟨[], pieces⟩

end OpsMaxx.Proxy
