import OpsMaxx.Sidecar.Encoding
import OpsMaxx.Strings.Split

/-! # A host, and the shell a collector runs in

What a host has at a path, what two accounts may do with it and how far a read of it gets; and the
statements a collector script is made of, run by the shell of the unprivileged account.
-/

set_option autoImplicit false

namespace OpsMaxx.Drift

open OpsMaxx.Strings OpsMaxx.Sidecar

inductive Account where
  | self
  | root
  deriving DecidableEq, Repr

inductive Kind where
  | missing
  | regular
  | other
  deriving DecidableEq, Repr

/-- `p.replace(/\/[^/]*$/, '') || '/'`. -/
def parentOf (p : Text) : Text :=
  let head := p.rdropWhile fun c => c != '/'
  let dir := if head = [] then p else head.dropLast
  if dir = [] then ['/'] else dir

/-- A size as it is printed. -/
def digits (n : Nat) : Text := Nat.toDigits 10 n

/-- A text of digits only, as a number. -/
def number (t : Text) : Option Nat :=
  if t ≠ [] ∧ t.all Char.isDigit then some (Nat.ofDigitChars 10 t 0) else none

structure Host where
  kind : Text → Kind
  content : Text → Bytes
  mayEnter : Account → Text → Bool
  mayRead : Account → Text → Bool
  /-- The programs this account may run as root without a password. -/
  sudoRuns : Text → Bool
  /-- `command -v`. -/
  commands : Text → Bool
  /-- What `wc -c` counts in an open file, if it gets to counting. -/
  counted : Text → Option Nat
  counted_le : ∀ p n, counted p = some n → n ≤ (content p).length
  /-- How many bytes a read of an open file delivers before it ends. -/
  delivered : Account → Text → Nat
  /-- The lines the encoder breaks its output into. -/
  wrap : Text → List Text
  wrap_flatten : ∀ t, (wrap t).flatten = t
  padding : Nat

namespace Host

variable (h : Host)

/-- What a lookup of the path finds, for an account. -/
def sees (a : Account) (p : Text) : Bool := h.kind p != .missing && h.mayEnter a (parentOf p)

/-- `test -f`. -/
def isFile (a : Account) (p : Text) : Bool := h.sees a p && h.kind p == .regular

/-- `test -r`, and whether an open for reading succeeds. -/
def canRead (a : Account) (p : Text) : Bool := h.sees a p && h.mayRead a p

/-- What the account gets when it reads the file. -/
def readAs (a : Account) (p : Text) : Bytes :=
  if h.canRead a p then (h.content p).take (h.delivered a p) else []

/-- What `wc -c` prints for the file behind an open descriptor. -/
def countOf (p : Text) : Text :=
  match h.counted p with
  | some n => List.replicate h.padding ' ' ++ digits n
  | none => []

end Host

/-! ## Statements -/

inductive Var where
  | spB64
  | spCap
  | spSudo
  | spN
  deriving DecidableEq, Repr

inductive Piece where
  | lit (t : Text)
  | var (v : Var)

inductive Test where
  /-- `[ -f p ]` -/
  | isFile (p : Text)
  /-- `[ -r p ]` -/
  | canRead (p : Text)
  /-- `[ -x p ]` on a directory -/
  | canEnter (p : Text)
  /-- `[ -e p ]` -/
  | isThere (p : Text)
  /-- `[ -z "$v" ]` -/
  | isEmpty (v : Var)
  /-- `[ "$a" -gt "$b" ]` -/
  | above (a b : Var)
  /-- `[ "$v" = t ]` -/
  | equals (v : Var) (t : Text)
  /-- `[ "$(sudo -n true >/dev/null 2>&1 && echo SP_SUDO_OK || true)" = SP_SUDO_OK ]` -/
  | sudoProbe
  /-- `sudo -n test -f p 2>/dev/null` -/
  | sudoIsFile (p : Text)
  | and (s t : Test)
  | not (t : Test)

inductive Stmt where
  | skip
  | seq (s t : Stmt)
  /-- `printf '…\n'` -/
  | print (ps : List Piece)
  | assign (v : Var) (t : Text)
  /-- `v=""; for c in …; do command -v "$c" >/dev/null 2>&1 && v="$c" && break; done` -/
  | firstOf (v : Var) (candidates : List Text)
  /-- `v=$(wc -c < p 2>/dev/null | tr -d ' ')`, or the same with `sudo -n` before `wc` -/
  | size (a : Account) (v : Var) (p : Text)
  /-- `"$SP_B64" < p 2>/dev/null | sed 's/^/D /'` -/
  | encodeSelf (p : Text)
  /-- `sudo -n cat p 2>/dev/null | "$SP_B64" | sed 's/^/D /'` -/
  | encodeRoot (p : Text)
  | ite (c : Test) (s t : Stmt)

abbrev Env : Type := Var → Text

namespace Host

variable (h : Host)

def piece (env : Env) : Piece → Text
  | .lit t => t
  | .var v => env v

@[grind =] def holds (env : Env) : Test → Bool
  | .isFile p => h.isFile .self p
  | .canRead p => h.canRead .self p
  | .canEnter p => h.mayEnter .self p
  | .isThere p => h.sees .self p
  | .isEmpty v => env v == []
  | .above a b =>
    match number (env a), number (env b) with
    | some x, some y => decide (y < x)
    | _, _ => false
  | .equals v t => env v == t
  | .sudoProbe => h.sudoRuns "true".toList
  | .sudoIsFile p => h.sudoRuns "test".toList && h.isFile .root p
  | .and s t => holds env s && holds env t
  | .not t => !holds env t

/-- The shell opens the redirected file itself, before anything runs as another account. -/
def sizeOf (a : Account) (p : Text) : Text :=
  if h.canRead .self p then
    match a with
    | .self => h.countOf p
    | .root => if h.sudoRuns "wc".toList then h.countOf p else []
  else []

/-- The encoder's lines, each behind its mark. -/
def encoded (b : Bytes) : List Text := (h.wrap (base64Encode b)).map fun l => 'D' :: ' ' :: l

def sudoCat (p : Text) : Bytes := if h.sudoRuns "cat".toList then h.readAs .root p else []

/-- What a statement leaves in the variables, and the lines it prints. -/
def exec (env : Env) : Stmt → Env × List Text
  | .skip => (env, [])
  | .seq s t =>
    let first := exec env s
    let second := exec first.1 t
    (second.1, first.2 ++ second.2)
  | .print ps => (env, [(ps.map (piece env)).flatten])
  | .assign v t => (Function.update env v t, [])
  | .firstOf v candidates => (Function.update env v ((candidates.find? h.commands).getD []), [])
  | .size a v p => (Function.update env v ((h.sizeOf a p).filter (· != ' ')), [])
  | .encodeSelf p => (env, h.encoded (h.readAs .self p))
  | .encodeRoot p => (env, h.encoded (h.sudoCat p))
  | .ite c s t => if h.holds env c then exec env s else exec env t

end Host

/-- A script's output, from a shell none of the variables is set in. -/
def Host.run (h : Host) (script : Stmt) : Text := unlines (h.exec (fun _ => []) script).2

theorem number_digits (n : Nat) : number (digits n) = some n := by
  have hdigits : (digits n).all Char.isDigit = true := by
    rw [List.all_eq_true]
    intro c hc
    exact Nat.isDigit_of_mem_toDigits (by decide) (by decide) hc
  unfold number
  rw [if_pos ⟨Nat.toDigits_ne_nil, hdigits⟩]
  exact congrArg some Nat.ofDigitChars_ten_toDigits

end OpsMaxx.Drift

/-! ## The drift collector

The script that reads the watched files of a host, and the parser of what it prints.
-/

namespace OpsMaxx.Drift

open OpsMaxx.Strings OpsMaxx.Sidecar

inductive DriftStatus where
  | ok
  | tooLarge
  | absent
  | denied
  | noTool
  | unsupported
  | unknown
  deriving DecidableEq, Repr

/-- The word a status is written as. -/
def DriftStatus.word : DriftStatus → Text
  | .ok => "ok".toList
  | .tooLarge => "partial".toList
  | .absent => "absent".toList
  | .denied => "denied".toList
  | .noTool => "no-tool".toList
  | .unsupported => "unsupported".toList
  | .unknown => "unknown".toList

def DRIFT_STATUSES : List DriftStatus :=
  [.ok, .tooLarge, .absent, .denied, .noTool, .unsupported, .unknown]

structure DriftWatch where
  id : Text
  path : Text

def DRIFT_WATCHES : List DriftWatch :=
  [⟨"sshd-config".toList, "/etc/ssh/sshd_config".toList⟩,
    ⟨"nginx-conf".toList, "/etc/nginx/nginx.conf".toList⟩,
    ⟨"resolv-conf".toList, "/etc/resolv.conf".toList⟩,
    ⟨"hosts".toList, "/etc/hosts".toList⟩,
    ⟨"sysctl-conf".toList, "/etc/sysctl.conf".toList⟩,
    ⟨"chrony-conf".toList, "/etc/chrony/chrony.conf".toList⟩,
    ⟨"timezone".toList, "/etc/timezone".toList⟩]

def DRIFT_MARKER : Text := "===OPSMAXX-DRIFT===".toList

def DRIFT_STATUS_MARKER : Text := "===OPSMAXX-DRIFT-STATUS===".toList

def DRIFT_READ_CAP : Nat := 262144

/-! ## The script -/

def encoders : List Text :=
  ["base64".toList, "/usr/bin/base64".toList, "/bin/base64".toList]

/-- `printf 'F %s <status> <size>\n' '<id>'`. -/
def header (w : DriftWatch) (s : DriftStatus) (size : Piece) : Stmt :=
  .print [.lit ('F' :: ' ' :: w.id), .lit (' ' :: s.word ++ [' ']), size]

def dash : Piece := .lit ['-']

/-- The part the two ways of reading share: no encoder, too large, or the size, the content and the
closing record. -/
def readFile (w : DriftWatch) (a : Account) (send : Stmt) : Stmt :=
  .ite (.isEmpty .spB64) (header w .noTool dash)
    (.seq (.size a .spN w.path)
      (.seq (.ite (.isEmpty .spN) (.assign .spN ['0']) .skip)
        (.ite (.above .spN .spCap) (header w .tooLarge (.var .spN))
          (.seq (header w .ok (.var .spN))
            (.seq send (.print [.lit ('X' :: ' ' :: w.id)]))))))

def readAsSelf (w : DriftWatch) : Stmt := readFile w .self (.encodeSelf w.path)

def readAsRoot (w : DriftWatch) : Stmt := readFile w .root (.encodeRoot w.path)

def classify (w : DriftWatch) : Stmt :=
  .ite (.not (.canEnter (parentOf w.path))) (header w .denied dash)
    (.ite (.not (.isThere w.path)) (header w .absent dash)
      (.ite (.not (.isFile w.path)) (header w .unsupported dash)
        (header w .denied dash)))

def readWatch (escalate : Bool) (w : DriftWatch) : Stmt :=
  .ite (.and (.isFile w.path) (.canRead w.path)) (readAsSelf w)
    (if escalate then
      .ite (.and (.equals .spSudo ['1']) (.sudoIsFile w.path)) (readAsRoot w) (classify w)
    else classify w)

def statements : List Stmt → Stmt
  | [] => .skip
  | s :: ss => .seq s (statements ss)

def buildDriftCommand (watches : List DriftWatch) (cap : Nat) (escalate : Bool) : Stmt :=
  statements ([.firstOf .spB64 encoders, .assign .spCap (digits cap)] ++
    (if escalate then [.assign .spSudo ['0'], .ite .sudoProbe (.assign .spSudo ['1']) .skip] else []) ++
    [.print [.lit DRIFT_MARKER]] ++ watches.map (readWatch escalate) ++
    [.print [.lit DRIFT_STATUS_MARKER]])

/-! ## The parser -/

structure DriftFileRead where
  watchId : Text
  status : DriftStatus
  bytes : Option Nat
  contentB64 : Option Text
  detail : Option Text
  deriving DecidableEq, Repr

structure DriftCollection where
  files : List DriftFileRead
  complete : Bool

/-- What stands behind the first occurrence of a text. -/
def behind (needle : Text) : Text → Option Text
  | [] => if needle = [] then some [] else none
  | c :: cs => if needle <+: c :: cs then some ((c :: cs).drop needle.length) else behind needle cs

structure Parsing where
  seen : Text → Option DriftFileRead
  opened : Option (Text × List Text)

def statusNamed (word : Text) : DriftStatus :=
  (DRIFT_STATUSES.find? fun s => s.word = word).getD .unknown

def chomp (raw : Text) : Text := if raw.getLast? = some '\r' then raw.dropLast else raw

def closeRecord (st : Parsing) (id : Text) : Parsing :=
  match st.opened, st.seen id with
  | some (name, chunks), some rec =>
    if name = id then
      { seen := Function.update st.seen id (some { rec with contentB64 := some chunks.flatten })
        opened := none }
    else { st with opened := none }
  | _, _ => { st with opened := none }

def openRecord (st : Parsing) (rest : Text) : Parsing :=
  let fields := rest.splitOn ' '
  let id := fields.headD []
  if id = [] then st
  else
    let known := statusNamed ((fields.drop 1).headD [])
    let bytes := ((fields.drop 2).head?).bind number
    { seen := Function.update st.seen id (some ⟨id, known, bytes, none, none⟩)
      opened := if known = .ok then some (id, []) else none }

def parseLine (st : Parsing) (raw : Text) : Parsing :=
  match chomp raw with
  | 'D' :: ' ' :: chunk =>
    { st with opened := st.opened.map fun o => (o.1, o.2 ++ [chunk]) }
  | 'X' :: ' ' :: rest => closeRecord st (trim rest)
  | 'F' :: ' ' :: rest => openRecord st rest
  | _ => st

def parseLines (st : Parsing) (lines : List Text) : Parsing := lines.foldl parseLine st

def Parsing.blank : Parsing := ⟨fun _ => none, none⟩

/-- One watch's record, as the collection hands it on. -/
def settle (seen : Text → Option DriftFileRead) (w : DriftWatch) : DriftFileRead :=
  match seen w.id with
  | none => ⟨w.id, .unknown, none, none, some "the collector did not report on this file".toList⟩
  | some rec =>
    if rec.status = .ok ∧ rec.contentB64 = none then
      ⟨w.id, .unknown, rec.bytes, none,
        some "the content block was cut off before it finished".toList⟩
    else rec

def parseDriftCollection (out : Text) (watches : List DriftWatch) : DriftCollection :=
  let body := (behind DRIFT_MARKER out).getD []
  let seen := (parseLines .blank (body.splitOn '\n')).seen
  { complete := (behind DRIFT_STATUS_MARKER out).isSome
    files := watches.map (settle seen) }

end OpsMaxx.Drift
