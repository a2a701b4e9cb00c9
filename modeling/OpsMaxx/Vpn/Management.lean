import OpsMaxx.Strings.Words
import OpsMaxx.Sidecar.Encoding

/-! # Words on the management channel

How openvpn cuts a management command into words, and the forms in which values are written so
that each is one word again.
-/

set_option autoImplicit false

namespace OpsMaxx.Vpn.Management

open OpsMaxx.Strings

/-! ## How openvpn reads a command -/

/-- Where the reader stands: between words, in a bare word, or within quotes of either kind. -/
inductive Reading where
  | between | bare | quoted | single
  deriving DecidableEq, Repr

/-- C's `isspace`. -/
def isBlank (c : Char) : Bool := c == ' ' || (9 ≤ c.toNat && c.toNat ≤ 13)

/-- The characters a backslash may stand before. -/
def escapable (c : Char) : Bool := c == '\\' || c == '"' || isBlank c

/-- The words of a command from here on, with whether a backslash came just before and what was read
of the current word. A quote that is not closed, or a backslash before another character, is an
error. -/
@[grind =] def wordsFrom : Reading → Bool → Text → Text → Option (List Text)
  | .between, _, _, [] => some []
  | .bare, false, word, [] => some [word]
  | .bare, true, _, [] => none
  | .quoted, _, _, [] => none
  | .single, _, _, [] => none
  | .between, bs, word, c :: rest =>
    if bs = false ∧ c = '\\' then wordsFrom .between true word rest
    else if isBlank c then wordsFrom .between false word rest
    else if c = ';' ∨ c = '#' then some []
    else if bs = false ∧ c = '"' then wordsFrom .quoted false [] rest
    else if bs = false ∧ c = '\'' then wordsFrom .single false [] rest
    else if bs = true ∧ escapable c = false then none
    else wordsFrom .bare false [c] rest
  | .bare, bs, word, c :: rest =>
    if bs = false ∧ c = '\\' then wordsFrom .bare true word rest
    else if bs = false ∧ isBlank c then (wordsFrom .between false [] rest).map (word :: ·)
    else if bs = true ∧ escapable c = false then none
    else wordsFrom .bare false (word ++ [c]) rest
  | .quoted, bs, word, c :: rest =>
    if bs = false ∧ c = '\\' then wordsFrom .quoted true word rest
    else if bs = false ∧ c = '"' then (wordsFrom .between false [] rest).map (word :: ·)
    else if bs = true ∧ escapable c = false then none
    else wordsFrom .quoted false (word ++ [c]) rest
  | .single, _, word, c :: rest =>
    if c = '\'' then (wordsFrom .between false [] rest).map (word :: ·)
    else wordsFrom .single false (word ++ [c]) rest

def commandWords (line : Text) : Option (List Text) := wordsFrom .between false [] line

/-! ## How values are written -/

def isBreak (c : Char) : Bool := c == '\r' || c == '\n' || c == '\x00'

def escapeChar (c : Char) : Text := if c = '\\' then ['\\', '\\'] else if c = '"' then ['\\', '"'] else [c]

/-- A value with a line break is refused. -/
def escapeManagementValue (value : Text) : Option Text :=
  if value.any isBreak then none else some (value.flatMap escapeChar)

def quoteManagementValue (value : Text) : Option Text :=
  (escapeManagementValue value).map fun v => '"' :: v ++ ['"']

/-- `/^[A-Za-z0-9_.@-]+$/` -/
def unquotedSafe (value : Text) : Bool :=
  !value.isEmpty && value.all fun c => c.isAlphanum || c == '_' || c == '.' || c == '@' || c == '-'

def usernameArgument (value : Text) : Option Text :=
  if unquotedSafe value then escapeManagementValue value else quoteManagementValue value

/-! ## Reading back what was written -/

theorem wordsFrom_quoted (value word rest : Text) :
    wordsFrom .quoted false word (value.flatMap escapeChar ++ '"' :: rest) =
      (wordsFrom .between false [] rest).map ((word ++ value) :: ·) := by
  induction value generalizing word with
  | nil => simp [wordsFrom]
  | cons c value ih =>
    rw [List.flatMap_cons, List.append_assoc]
    have hnext := ih (word ++ [c])
    rw [List.append_assoc, List.singleton_append] at hnext
    rw [← hnext]
    by_cases hslash : c = '\\'
    · subst hslash
      simp [escapeChar, wordsFrom, escapable]
    · by_cases hquote : c = '"'
      · subst hquote
        simp [escapeChar, wordsFrom, escapable]
      · simp [escapeChar, wordsFrom, hslash, hquote]

theorem words_quoted {value written : Text} (h : quoteManagementValue value = some written)
    (rest : Text) : wordsFrom .between false [] (written ++ rest) =
      (wordsFrom .between false [] rest).map (value :: ·) := by
  obtain ⟨escaped, hescape, rfl⟩ := Option.map_eq_some_iff.mp h
  unfold escapeManagementValue at hescape
  split_ifs at hescape
  cases hescape
  have hopen : wordsFrom .between false [] ('"' :: (value.flatMap escapeChar ++ '"' :: rest)) =
      wordsFrom .quoted false [] (value.flatMap escapeChar ++ '"' :: rest) := by
    simp [wordsFrom, isBlank]
  rw [List.cons_append, List.cons_append, List.append_assoc, List.singleton_append, hopen,
    wordsFrom_quoted, List.nil_append]

/-- A bare word: no blanks and no backslash in it. -/
theorem wordsFrom_bare {value : Text} (h : ∀ c ∈ value, isBlank c = false ∧ c ≠ '\\')
    (word rest : Text) : wordsFrom .bare false word (value ++ rest) =
      wordsFrom .bare false (word ++ value) rest := by
  induction value generalizing word with
  | nil => simp
  | cons c value ih =>
    obtain ⟨hblank, hslash⟩ := h c List.mem_cons_self
    have hnext := ih (fun x hx => h x (List.mem_cons_of_mem c hx)) (word ++ [c])
    rw [List.append_assoc, List.singleton_append] at hnext
    rw [← hnext, List.cons_append, wordsFrom]
    simp [hblank, hslash]

/-- What openvpn reads as one word where it stands. -/
def OneWord (value : Text) : Prop :=
  (∀ c ∈ value, isBlank c = false ∧ c ≠ '\\') ∧
    ∃ c rest, value = c :: rest ∧ c ≠ ';' ∧ c ≠ '#' ∧ c ≠ '"' ∧ c ≠ '\''

theorem wordsFrom_oneWord {value : Text} (h : OneWord value) (rest : Text) :
    wordsFrom .between false [] (value ++ rest) = wordsFrom .bare false value rest := by
  obtain ⟨hall, c, tail, rfl, hsemi, hhash, hquote, hsingle⟩ := h
  obtain ⟨hblank, hslash⟩ := hall c List.mem_cons_self
  have htail := wordsFrom_bare (fun x hx => hall x (List.mem_cons_of_mem c hx)) [c] rest
  rw [List.singleton_append] at htail
  rw [← htail, List.cons_append, wordsFrom]
  simp [hblank, hslash, hsemi, hhash, hquote, hsingle]

theorem words_oneWord {value : Text} (h : OneWord value) :
    commandWords value = some [value] := by
  have hwords := wordsFrom_oneWord h []
  rw [List.append_nil] at hwords
  rw [commandWords, hwords, wordsFrom]

theorem words_oneWord_blank {value : Text} (h : OneWord value) (rest : Text) :
    wordsFrom .between false [] (value ++ ' ' :: rest) =
      (wordsFrom .between false [] rest).map (value :: ·) := by
  rw [wordsFrom_oneWord h, wordsFrom]
  simp [isBlank]

theorem unquotedSafe_oneWord {value : Text} (h : unquotedSafe value = true) : OneWord value := by
  unfold unquotedSafe at h
  rw [Bool.and_eq_true, List.all_eq_true] at h
  obtain ⟨hne, hall⟩ := h
  have hsafe : ∀ c ∈ value, isBlank c = false ∧ c ≠ '\\' ∧ c ≠ ';' ∧ c ≠ '#' ∧ c ≠ '"' ∧ c ≠ '\'' := by
    intro c hc
    have hchar := hall c hc
    refine ⟨?_, ?_, ?_, ?_, ?_, ?_⟩
    · rw [Bool.eq_false_iff]
      intro hblank
      unfold isBlank at hblank
      simp only [Bool.or_eq_true, Bool.and_eq_true, beq_iff_eq, decide_eq_true_eq] at hblank hchar
      rcases hblank with rfl | ⟨hlow, hhigh⟩
      · revert hchar
        decide
      · have hno : c.isAlphanum = false := by
          rw [Bool.eq_false_iff, ne_eq, isAlphanum_iff]
          omega
        rcases hchar with (((halnum | rfl) | rfl) | rfl) | rfl
        · rw [hno] at halnum
          cases halnum
        all_goals revert hlow hhigh; decide
    all_goals
      rintro rfl
      revert hchar
      decide
  refine ⟨fun c hc => ⟨(hsafe c hc).1, (hsafe c hc).2.1⟩, ?_⟩
  cases value with
  | nil => cases hne
  | cons c rest =>
    obtain ⟨-, -, hsemi, hhash, hquote, hsingle⟩ := hsafe c List.mem_cons_self
    exact ⟨c, rest, rfl, hsemi, hhash, hquote, hsingle⟩

theorem escapeChar_safe {value : Text} (h : unquotedSafe value = true) :
    value.flatMap escapeChar = value := by
  have hall := (unquotedSafe_oneWord h).1
  unfold unquotedSafe at h
  rw [Bool.and_eq_true, List.all_eq_true] at h
  have hsame : ∀ c ∈ value, escapeChar c = [c] := by
    intro c hc
    have hquote : c ≠ '"' := by
      rintro rfl
      have hchar := h.2 _ hc
      revert hchar
      decide
    rw [escapeChar, if_neg (hall c hc).2, if_neg hquote]
  rw [List.flatMap_congr hsame, List.flatMap_singleton']

/-- A username, in either form, is read back as it was. -/
theorem words_username {value written : Text} (h : usernameArgument value = some written) :
    wordsFrom .between false [] written = some [value] := by
  unfold usernameArgument at h
  split_ifs at h with hsafe
  · unfold escapeManagementValue at h
    split_ifs at h
    cases h
    rw [escapeChar_safe hsafe]
    exact words_oneWord (unquotedSafe_oneWord hsafe)
  · have hwords := words_quoted h []
    rw [List.append_nil] at hwords
    rw [hwords]
    rfl

/-! ## The OpenVPN management channel

openvpn writes lines, some of which ask for credentials; the answers are written one after the
other, each when the user or the vault has given it. Lines keep coming while an answer waits.
-/

/-! ## One line -/

structure Challenge where
  text : Text
  echo : Bool
  deriving DecidableEq, Repr

structure PasswordEvent where
  raw : Text
  realm : Text
  failed : Bool
  needsUsername : Bool
  challenge : Option Challenge
  deriving DecidableEq, Repr

inductive OpenVpnEvent where
  | hold
  | state (name description : Text)
  | password (event : PasswordEvent)
  | needOk (needType text : Text)
  | other
  deriving DecidableEq, Repr

/-- What stands between a leading quote and the next one, and what follows. -/
def quotedPart : Text → Option (Text × Text)
  | '\'' :: rest =>
    match rest.dropWhile (· != '\'') with
    | _ :: tail => some (rest.takeWhile (· != '\''), tail)
    | [] => none
  | _ => none

/-- `/^Verification Failed:\s*'([^']*)'/` -/
def failedRealm (body : Text) : Option Text :=
  if "Verification Failed:".toList.isPrefixOf body then
    (quotedPart (trimStart (body.drop "Verification Failed:".toList.length))).map Prod.fst
  else none

/-- `/^Need\s+'([^']*)'\s*(.*)$/` -/
def needRealm (body : Text) : Option (Text × Text) :=
  if "Need".toList.isPrefixOf body then
    let rest := body.drop "Need".toList.length
    if rest.head?.any isSpace then
      match quotedPart (trimStart rest) with
      | some (realm, tail) =>
        let tail := trimStart tail
        if tail.any isLineTerminator then none else some (realm, tail)
      | none => none
    else none
  else none

def isWordChar (c : Char) : Bool := c.isAlphanum || c == '_'

/-- `/\bSC:([01]),([\s\S]*)$/`, from a character on and with the one before it. -/
def staticChallenge : Option Char → Text → Option Challenge
  | before, 'S' :: 'C' :: ':' :: flag :: ',' :: rest =>
    if before.any isWordChar || (flag != '0' && flag != '1') then
      staticChallenge (some 'S') ('C' :: ':' :: flag :: ',' :: rest)
    else some ⟨trim rest, flag == '1'⟩
  | _, c :: rest => staticChallenge (some c) rest
  | _, [] => none

/-- `/username/i` -/
def asksUsername : Text → Bool
  | [] => false
  | c :: rest => "username".toList.isPrefixOf ((c :: rest).map Char.toLower) || asksUsername rest

def parsePasswordLine (raw body : Text) : PasswordEvent :=
  match failedRealm body with
  | some realm => ⟨raw, realm, true, false, none⟩
  | none =>
    match needRealm body with
    | some (realm, rest) => ⟨raw, realm, false, asksUsername rest, staticChallenge none rest⟩
    | none => ⟨raw, [], false, asksUsername body, staticChallenge none body⟩

/-- The part of a line behind its tag. -/
def tagged (tag : String) (raw : Text) : Option Text :=
  if tag.toList.isPrefixOf raw then some (raw.drop tag.toList.length) else none

def splitOn (sep : Char) (s : Text) : List Text := s.splitOnP (· == sep)

/-- The lines that only inform are `other` here. -/
def parseManagementLine (line : Text) : OpenVpnEvent :=
  let raw := if line.getLast? = some '\r' then line.dropLast else line
  match tagged ">HOLD:" raw, tagged ">STATE:" raw, tagged ">PASSWORD:" raw,
    tagged ">NEED-OK:" raw with
  | some _, _, _, _ => .hold
  | none, some fields, _, _ =>
    let f := splitOn ',' fields
    .state (trim (f.getD 1 [])) (trim (f.getD 2 []))
  | none, none, some body, _ => .password (parsePasswordLine raw (trim body))
  | none, none, none, some body =>
    .needOk (trim (body.takeWhile (· != ':'))) (trim ((body.dropWhile (· != ':')).drop 1))
  | none, none, none, none => .other

/-! ## What is written and seen -/

/-- A line on the wire, and the words it is written for. -/
structure Sent where
  line : Text
  words : List Text
  deriving DecidableEq, Repr

inductive Entry where
  | line (text : Text)
  | command (sent : Sent)
  | answer (event : PasswordEvent) (lines : List Sent)
  deriving DecidableEq, Repr

structure OpenVpnCredentials where
  username : Option Text
  password : Option Text
  keyPassphrase : Option Text

/-- What the answer at the head of the queue waits for. -/
inductive Asking where
  | passphrase (event : PasswordEvent)
  | username (event : PasswordEvent)
  | password (event : PasswordEvent) (username : Option Text)
  | otp (event : PasswordEvent) (username : Option Text) (password : Text)
  deriving DecidableEq, Repr

def Asking.event : Asking → PasswordEvent
  | .passphrase event | .username event | .password event _ | .otp event _ _ => event

/-- What the options and the hooks decide once: how lines are decoded, how long one may be, and
whether there is a way to show a confirmation. -/
structure Setup where
  decode : List UInt8 → Text
  maxLineBytes : Nat
  confirm : Bool

structure Channel where
  buffer : List UInt8
  greeted : Bool
  closed : Bool
  socket : Bool
  rejected : Bool
  queue : List PasswordEvent
  asking : Option Asking
  confirming : List Text
  log : List Entry
  deriving DecidableEq, Repr

/-! ## Writing -/

def Channel.write (s : Channel) (e : Entry) : Channel :=
  if s.closed || !s.socket then s else { s with log := s.log ++ [e] }

def hasLineBreak (command : Text) : Bool := command.any fun c => c == '\r' || c == '\n'

/-- A command with a line break in it throws. -/
def Channel.send (s : Channel) (line : Text) (words : List Text) : Channel :=
  if hasLineBreak line then s else s.write (.command ⟨line, words⟩)

def Channel.signal (s : Channel) (name : String) : Channel :=
  s.send ("signal ".toList ++ name.toList) ["signal".toList, name.toList]

def Channel.sigterm (s : Channel) : Channel := s.signal "SIGTERM"

def Channel.holdRelease (s : Channel) : Channel :=
  s.send "hold release".toList ["hold".toList, "release".toList]

def Channel.handshake (s : Channel) : Channel :=
  (((s.send "state on".toList ["state".toList, "on".toList]).send "bytecount 5".toList
    ["bytecount".toList, "5".toList]).send "log on all".toList
      ["log".toList, "on".toList, "all".toList]).holdRelease

def usernameLine (realm username : Text) : Option Sent := do
  let r ← quoteManagementValue realm
  let u ← usernameArgument username
  some ⟨"username ".toList ++ (r ++ ' ' :: u), ["username".toList, realm, username]⟩

def passwordLine (realm password : Text) : Option Sent := do
  let r ← quoteManagementValue realm
  let p ← quoteManagementValue password
  some ⟨"password ".toList ++ (r ++ ' ' :: p), ["password".toList, realm, password]⟩

/-- The lines of one answer; a value that cannot be written throws, after what went before it. -/
def answerLines (realm : Text) (username : Option Text) (password : Text) : List Sent × Bool :=
  match username with
  | none =>
    match passwordLine realm password with
    | some p => ([p], false)
    | none => ([], true)
  | some username =>
    match usernameLine realm username with
    | none => ([], true)
    | some u =>
      match passwordLine realm password with
      | some p => ([u, p], false)
      | none => ([u], true)

/-! ## Answering -/

/-- Report the failure and ask openvpn to exit. -/
def Channel.stop (s : Channel) : Channel := if s.socket then s.sigterm else s

def Channel.fail (s : Channel) : Channel := { s with closed := true, socket := false }

def askedRealm (event : PasswordEvent) : Text :=
  if event.realm.isEmpty then "Auth".toList else event.realm

/-- The end of an answer: the lines go out, and a value that cannot be written ends the session. -/
def Channel.writeAnswer (s : Channel) (event : PasswordEvent) (username : Option Text)
    (password : Text) : Channel :=
  let s := { s with asking := none }
  match answerLines (askedRealm event) username password with
  | ([], threw) => if threw then s.stop else s
  | (lines, threw) =>
    let s := s.write (.answer event lines)
    if threw then s.stop else s

def Channel.askChallenge (s : Channel) (event : PasswordEvent) (username : Option Text)
    (password : Text) : Channel :=
  match event.challenge with
  | some _ => { s with asking := some (.otp event username password) }
  | none => s.writeAnswer event username password

def nonEmpty (value : Option Text) : Option Text := value.filter fun v => !v.isEmpty

def Channel.askPassword (s : Channel) (event : PasswordEvent) (username : Option Text)
    (c : OpenVpnCredentials) : Channel :=
  match nonEmpty c.password with
  | some password => s.askChallenge event username password
  | none => { s with asking := some (.password event username) }

def Channel.answer (s : Channel) (event : PasswordEvent) (c : OpenVpnCredentials) : Channel :=
  if s.closed || !s.socket then s
  else if askedRealm event = "Private Key".toList then
    match c.keyPassphrase with
    | some passphrase => s.writeAnswer event none passphrase
    | none => { s with asking := some (.passphrase event) }
  else if event.needsUsername && (nonEmpty c.username).isNone then
    { s with asking := some (.username event) }
  else s.askPassword event c.username c

/-- The next answer begins when the one before it is done. -/
def Channel.turn (s : Channel) (c : OpenVpnCredentials) : Channel :=
  match s.asking, s.queue with
  | none, event :: rest => { s with queue := rest }.answer event c
  | _, _ => s

def base64 (value : Text) : Text :=
  OpsMaxx.Sidecar.base64Encode (String.ofList value).toUTF8.toList

def scrv1 (password response : Text) : Text :=
  "SCRV1:".toList ++ base64 password ++ ':' :: base64 response

/-- How a prompt ends; one that fails ends the session. -/
inductive UserAnswer where
  | text (value : Text)
  | cancelled
  | failed

def Channel.answered (s : Channel) (a : UserAnswer) (c : OpenVpnCredentials) : Channel :=
  match s.asking with
  | none => s
  | some asking =>
    match a with
    | .text value =>
      match asking with
      | .passphrase event => s.writeAnswer event none value
      | .username event => { s with asking := none }.askPassword event (some value) c
      | .password event username => { s with asking := none }.askChallenge event username value
      | .otp event username password => s.writeAnswer event username (scrv1 password value)
    | .cancelled => { s with asking := none }.stop
    | .failed => { s with asking := none }.stop

/-! ## Lines as they come -/

def Channel.rejectCredentials (s : Channel) : Channel :=
  if s.rejected then s else { s with rejected := true }.stop

def Channel.onState (s : Channel) (name description : Text) : Channel :=
  if name = "RECONNECTING".toList ∧ description = "auth-failure".toList then s.rejectCredentials
  else s

def Channel.onPassword (s : Channel) (event : PasswordEvent) : Channel :=
  if event.failed then s.rejectCredentials
  else if s.rejected then s
  else { s with queue := s.queue ++ [event] }

def needOkLine (needType : Text) (ok : Bool) : Text :=
  "needok ".toList ++ (needType ++ ' ' :: if ok then "ok".toList else "cancel".toList)

def Channel.answerNeedOk (s : Channel) (needType : Text) (ok : Bool) : Channel :=
  if s.closed then s
  else s.send (needOkLine needType ok)
    ["needok".toList, needType, if ok then "ok".toList else "cancel".toList]

def Channel.onNeedOk (C : Setup) (s : Channel) (needType : Text) : Channel :=
  if C.confirm then { s with confirming := s.confirming ++ [needType] }
  else s.answerNeedOk needType false

def Channel.confirmed (s : Channel) (i : Nat) (ok : Bool) : Channel :=
  match s.confirming[i]? with
  | some needType => { s with confirming := s.confirming.eraseIdx i }.answerNeedOk needType ok
  | none => s

def greetingPrefix : Text := ">INFO:OpenVPN Management Interface Version".toList

def Channel.handleLine (C : Setup) (s : Channel) (line : Text) : Channel :=
  if s.greeted then
    let s := { s with log := s.log ++ [.line line] }
    match parseManagementLine line with
    | .hold => s.holdRelease
    | .state name description => s.onState name description
    | .password event => s.onPassword event
    | .needOk needType _ => s.onNeedOk C needType
    | .other => s
  else if greetingPrefix.isPrefixOf line then { s with greeted := true }.handshake
  else s.fail

/-- The complete lines at the front, and what is left. -/
def takeLines : List UInt8 → List (List UInt8) × List UInt8
  | [] => ([], [])
  | b :: rest =>
    match takeLines rest with
    | (lines, left) =>
      if b = 10 then ([] :: lines, left)
      else
        match lines with
        | [] => ([], b :: left)
        | l :: more => ((b :: l) :: more, left)

/-- The lines in their order, until one closes the channel. -/
def Channel.handleLines (C : Setup) (s : Channel) : List Text → Channel
  | [] => s
  | line :: rest => if s.closed then s else (s.handleLine C line).handleLines C rest

def Channel.consume (C : Setup) (s : Channel) (chunk : List UInt8) : Channel :=
  if s.closed then s
  else
    match takeLines (s.buffer ++ chunk) with
    | (lines, left) =>
      let s := s.handleLines C (lines.map C.decode)
      if s.closed then s
      else if C.maxLineBytes < left.length then { s with buffer := [] }.fail
      else { s with buffer := left }

/-! ## The channel over time -/

inductive Event where
  | data (chunk : List UInt8)
  | turn (credentials : OpenVpnCredentials)
  | answered (answer : UserAnswer) (credentials : OpenVpnCredentials)
  | confirmed (index : Nat) (ok : Bool)
  | sigterm | softRestart | socketClosed | close

def Channel.step (C : Setup) (s : Channel) : Event → Channel
  | .data chunk => s.consume C chunk
  | .turn credentials => s.turn credentials
  | .answered answer credentials => s.answered answer credentials
  | .confirmed index ok => s.confirmed index ok
  | .sigterm => s.sigterm
  | .softRestart => s.signal "SIGUSR1"
  | .socketClosed => { s with socket := false }
  | .close => s.fail

/-- openvpn has dialled in. Where the socket's directory vouches for it, the handshake goes out at
once; elsewhere it has to greet first. -/
def Channel.accepted (trusted : Bool) : Channel :=
  let s : Channel := ⟨[], trusted, false, true, false, [], none, [], []⟩
  if trusted then s.handshake else s

end OpsMaxx.Vpn.Management
