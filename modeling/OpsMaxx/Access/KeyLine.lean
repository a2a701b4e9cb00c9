import OpsMaxx.Access.Encoding
import OpsMaxx.Net.Address

/-!
# One line of an authorized_keys file

`parseAuthorizedKeyLine` takes the options off the front of a line, reads the type and the blob behind
them, and computes the fingerprint of the key, or says why there is none.
-/

set_option autoImplicit false

namespace OpsMaxx.Access

open Net (ofDecimal)
open Strings

/-! ## The tables -/

def KEY_TYPES : List Text :=
  ["ssh-rsa".toList, "ssh-dss".toList, "ssh-ed25519".toList, "ssh-ed448".toList,
    "ecdsa-sha2-nistp256".toList, "ecdsa-sha2-nistp384".toList, "ecdsa-sha2-nistp521".toList,
    "sk-ssh-ed25519@openssh.com".toList, "sk-ecdsa-sha2-nistp256@openssh.com".toList,
    "ssh-rsa-cert-v01@openssh.com".toList, "ssh-dss-cert-v01@openssh.com".toList,
    "ssh-ed25519-cert-v01@openssh.com".toList, "ecdsa-sha2-nistp256-cert-v01@openssh.com".toList,
    "ecdsa-sha2-nistp384-cert-v01@openssh.com".toList,
    "ecdsa-sha2-nistp521-cert-v01@openssh.com".toList,
    "sk-ssh-ed25519-cert-v01@openssh.com".toList,
    "sk-ecdsa-sha2-nistp256-cert-v01@openssh.com".toList]

def RESTRICTING_OPTIONS : List Text :=
  ["command".toList, "from".toList, "restrict".toList, "no-pty".toList,
    "no-agent-forwarding".toList, "no-port-forwarding".toList, "no-x11-forwarding".toList,
    "no-user-rc".toList, "principals".toList, "expiry-time".toList, "permitopen".toList,
    "permitlisten".toList, "tunnel".toList, "verify-required".toList, "environment".toList,
    "agent-forwarding".toList, "port-forwarding".toList, "pty".toList, "user-rc".toList,
    "x11-forwarding".toList, "touch-required".toList, "no-touch-required".toList]

def BROADENING_OPTIONS : List Text := ["cert-authority".toList]

def KNOWN_OPTIONS : List Text := RESTRICTING_OPTIONS ++ BROADENING_OPTIONS

structure CertInner where
  type : Text
  fields : Nat

def CERT_INNER : List (Text × CertInner) :=
  [("ssh-rsa-cert-v01@openssh.com".toList, ⟨"ssh-rsa".toList, 2⟩),
    ("ssh-dss-cert-v01@openssh.com".toList, ⟨"ssh-dss".toList, 4⟩),
    ("ssh-ed25519-cert-v01@openssh.com".toList, ⟨"ssh-ed25519".toList, 1⟩),
    ("ecdsa-sha2-nistp256-cert-v01@openssh.com".toList, ⟨"ecdsa-sha2-nistp256".toList, 2⟩),
    ("ecdsa-sha2-nistp384-cert-v01@openssh.com".toList, ⟨"ecdsa-sha2-nistp384".toList, 2⟩),
    ("ecdsa-sha2-nistp521-cert-v01@openssh.com".toList, ⟨"ecdsa-sha2-nistp521".toList, 2⟩),
    ("sk-ssh-ed25519-cert-v01@openssh.com".toList, ⟨"sk-ssh-ed25519@openssh.com".toList, 2⟩),
    ("sk-ecdsa-sha2-nistp256-cert-v01@openssh.com".toList,
      ⟨"sk-ecdsa-sha2-nistp256@openssh.com".toList, 3⟩)]

inductive KeyProblem
  | malformed
  | unknownType
  | badBase64
  | typeMismatch
  | truncated
  | certificate
  deriving DecidableEq

structure AuthorizedKey where
  fingerprint : Option Text
  type : Option Text
  rawType : Option Text
  bits : Option Nat
  comment : Option Text
  options : List Text
  restricted : Bool
  broadened : Bool
  certificate : Bool
  line : Nat
  problem : Option KeyProblem
  blob : Option Text
  deriving DecidableEq

/-! ## Text -/

def inRange (lo hi : Nat) (c : Char) : Bool := lo ≤ c.toNat && c.toNat ≤ hi

/-- `UNSAFE_FREE`. -/
def isUnsafe (c : Char) : Bool :=
  inRange 0 0x1f c || inRange 0x7f 0x9f c || inRange 0x200b 0x200f c || inRange 0x202a 0x202e c ||
    inRange 0x2066 0x2069 c || inRange 0x2028 0x2029 c

def cleanChar (c : Char) : Char := if isUnsafe c then ' ' else c

def clean (t : Text) : Text := t.map cleanChar

def isBlank (c : Char) : Bool := c = ' ' || c = '\t'

def skipBlanks (t : Text) : Text := t.dropWhile isBlank

def token (t : Text) : Text := t.takeWhile fun c => !isBlank c

def afterToken (t : Text) : Text := t.dropWhile fun c => !isBlank c

/-- `split(/[ \t]+/)`. -/
def splitBlanks : Text → List Text
  | [] => [[]]
  | c :: t =>
    if isBlank c then
      if (t.head?.map isBlank).getD false then splitBlanks t else [] :: splitBlanks t
    else
      match splitBlanks t with
      | [] => [[c]]
      | p :: ps => (c :: p) :: ps

def unitsOf (c : Char) : Nat := if c.toNat < 0x10000 then 1 else 2

/-- The first code units. A character the cut goes through is left out. -/
def sliceUnits : Nat → Text → Text
  | _, [] => []
  | n, c :: t => if unitsOf c ≤ n then c :: sliceUnits (n - unitsOf c) t else []

def freeText (value : Text) (max : Nat) : Option Text :=
  let flat := unwords (words (clean value))
  if flat = [] then none
  else if max < (flat.map unitsOf).sum then some (sliceUnits max flat ++ ['…'])
  else some flat

def COMMENT_CAP : Nat := 200

/-! ## Keys -/

/-- The decimal number behind `nistp` at the end. -/
def nistpBits (type : Text) : Option Nat :=
  let digits := type.rtakeWhile Char.isDigit
  if digits ≠ [] && "nistp".toList.isSuffixOf (type.rdropWhile Char.isDigit) then
    some (ofDecimal digits)
  else none

/-- How many bits a number has, from the first byte of it that is not zero. -/
def modulusBits (mod : Bytes) : Option Nat :=
  match mod.dropWhile (· = 0) with
  | [] => none
  | b :: rest => some (rest.length * 8 + Nat.size b.toNat)

def keyBits (type : Text) (blob : Bytes) : Option Nat :=
  if (cutAt "-cert-v01@".toList type).isSome then none
  else if type = "ssh-ed25519".toList || type = "sk-ssh-ed25519@openssh.com".toList then some 256
  else if type = "ssh-ed448".toList then some 448
  else
    match nistpBits type with
    | some n => some n
    | none =>
      if type ≠ "ssh-rsa".toList && type ≠ "ssh-dss".toList then none
      else
        ((sshFields blob 3).bind fun fields =>
          fields[if type = "ssh-rsa".toList then 2 else 1]?).bind modulusBits

def isCertificateType (type : Text) : Bool := (CERT_INNER.lookup type).isSome

/-- The type and the blob of the key that a certificate is about. -/
def certifiedKeyBlob (certType : Text) (cert : Bytes) : Option (Text × Bytes) :=
  match CERT_INNER.lookup certType with
  | none => none
  | some inner =>
    match sshFields cert (2 + inner.fields) with
    | none => none
    | some fields =>
      if fields.length ≠ 2 + inner.fields then none
      else if ascii (fields.headD []) ≠ certType then none
      else some (inner.type, sshEncode (asciiBytes inner.type :: fields.drop 2))

def sshFingerprint (sha256 : Bytes → Bytes) (blob : Bytes) : Text :=
  "SHA256:".toList ++ (encodeBase64 (sha256 blob)).rdropWhile isPad

/-! ## Options -/

/-- What is before the first blank outside quotes, and what follows. -/
@[grind =] def scanOptions : Bool → Text → Option (Text × Text)
  | _, [] => none
  | true, '\\' :: [] => none
  | true, '\\' :: c :: t => (scanOptions true t).map fun found => ('\\' :: c :: found.1, found.2)
  | inQuote, c :: t =>
    if c = '"' then (scanOptions (!inQuote) t).map fun found => (c :: found.1, found.2)
    else if !inQuote && isBlank c then some ([], c :: t)
    else (scanOptions inQuote t).map fun found => (c :: found.1, found.2)

def splitKeyOptions (line : Text) : Option (Text × Text) :=
  match scanOptions false line with
  | none => none
  | some (options, rest) => if skipBlanks rest = [] then none else some (options, skipBlanks rest)

def isNameChar (c : Char) : Bool := c.isLower || c.isDigit || c = '-'

/-- The name before the `=`. -/
def optionName (raw : Text) : List Text :=
  let name := toLowerCase (trim ((trim raw).takeWhile (· ≠ '=')))
  if (name.head?.map Char.isLower).getD false && name.all isNameChar && name.length ≤ 32 then [name]
  else if name ≠ [] then ["(unreadable)".toList]
  else []

/-- The names of the options, from what has been read of the first of them. -/
def optionNames : Bool → Text → Text → List Text
  | _, read, [] => optionName read
  | true, read, '\\' :: [] => optionName (read ++ ['\\'])
  | true, read, '\\' :: c :: t => optionNames true (read ++ ['\\', c]) t
  | inQuote, read, c :: t =>
    if c = '"' then optionNames (!inQuote) (read ++ [c]) t
    else if c = ',' && !inQuote then optionName read ++ optionNames inQuote [] t
    else optionNames inQuote (read ++ [c]) t

def parseKeyOptionNames (options : Text) : List Text := (optionNames false [] options).take 24

/-! ## The line -/

/-- The algorithm name a blob begins with. -/
def innerName (blob : Option Bytes) : Text :=
  match blob.bind fun b => sshFields b 1 with
  | some (name :: _) => ascii name
  | _ => []

def baseKey (line : Nat) : AuthorizedKey where
  fingerprint := none
  type := none
  rawType := none
  bits := none
  comment := none
  options := []
  restricted := false
  broadened := false
  certificate := false
  line := line
  problem := some .malformed
  blob := none

def withOptions (base : AuthorizedKey) (options : List Text) : AuthorizedKey :=
  { base with
    options := options
    restricted := options.any fun o => o ∈ RESTRICTING_OPTIONS
    broadened := options.any fun o => o ∈ BROADENING_OPTIONS }

def looksLikeOptions (options : Text) : Bool :=
  options.any (fun c => c = '=' || c = ',') || toLowerCase options ∈ KNOWN_OPTIONS

/-- The key of a type and a blob. -/
def keyOf (base : AuthorizedKey) (rawType blob64 : Text) (sha256 : Bytes → Bytes)
    (truncated : Bool) : AuthorizedKey :=
  if rawType = [] || blob64 = [] then base
  else if rawType ∉ KEY_TYPES then
    { base with
      problem := some (if innerName (decodeBase64 blob64) = rawType then .unknownType else .malformed) }
  else if truncated then { base with type := some rawType, problem := some .truncated }
  else
    match decodeBase64 blob64 with
    | none => { base with type := some rawType, problem := some .badBase64 }
    | some blob =>
      if innerName (some blob) ≠ rawType then
        { base with type := some rawType, problem := some .typeMismatch }
      else if isCertificateType rawType then
        match certifiedKeyBlob rawType blob with
        | none =>
          { base with type := some rawType, certificate := true, problem := some .certificate }
        | some certified =>
          { base with
            type := some rawType
            certificate := true
            fingerprint := some (sshFingerprint sha256 certified.2)
            bits := keyBits certified.1 certified.2
            problem := none
            blob := none }
      else
        { base with
          type := some rawType
          fingerprint := some (sshFingerprint sha256 blob)
          bits := keyBits rawType blob
          problem := none
          blob := some blob64 }

/-- The options of a line, if it has any, and the rest. -/
def bodyOf (text : Text) : Option Text × Text :=
  match splitKeyOptions text with
  | none => (none, text)
  | some (options, rest) =>
    if (splitBlanks text).headD [] ∉ KEY_TYPES && looksLikeOptions options then (some options, rest)
    else (none, text)

def readBody (base : AuthorizedKey) (body : Text) (sha256 : Bytes → Bytes) (truncated : Bool) :
    AuthorizedKey :=
  let parts := splitBlanks body
  let rawType := parts.headD []
  keyOf
    { base with
      comment := freeText (unwords (parts.drop 2)) COMMENT_CAP
      rawType := freeText rawType 64 }
    rawType (parts.tail.headD []) sha256 truncated

def parseAuthorizedKeyLine (raw : Text) (line : Nat) (sha256 : Bytes → Bytes) (truncated : Bool) :
    Option AuthorizedKey :=
  let text := trim (clean raw)
  if text = [] || text.head? = some '#' then none
  else
    let base :=
      match (bodyOf text).1 with
      | some options => withOptions (baseKey line) (parseKeyOptionNames options)
      | none => baseKey line
    some (readBody base (bodyOf text).2 sha256 truncated)

/-!
## The line as sshd reads it

A line trusts a key through its first field or behind an options field, which ends at the first blank
outside quotes. `parseAuthorizedKeyLine` reads the same key, or says that it has none, as long as the
two agree on the quotes of that field.
-/

/-! ## The grammar -/

/-- The options field and what follows. Only a backslash before a quote is an escape. -/
@[grind =] def optionsField : Bool → Text → Text × Text
  | _, [] => ([], [])
  | quoted, '\\' :: '"' :: t =>
    let found := optionsField quoted t
    ('\\' :: '"' :: found.1, found.2)
  | quoted, c :: t =>
    if c = '"' then
      let found := optionsField (!quoted) t
      (c :: found.1, found.2)
    else if !quoted && isBlank c then ([], c :: t)
    else
      let found := optionsField quoted t
      (c :: found.1, found.2)

/-- The type and the blob of a line that is not empty and no comment. -/
def sshdReads (raw : Text) : Option (Text × Text) :=
  let t := skipBlanks raw
  if t = [] ∨ t.head? = some '#' then none
  else
    let body := if token t ∈ KEY_TYPES then t else skipBlanks (optionsField false t).2
    some (token body, token (skipBlanks (afterToken body)))

/-- A blob that is well formed for its type, and the key it stands for: itself, or the one inside the
certificate. -/
def KeyBlob (type : Text) (blob key : Bytes) : Prop :=
  match CERT_INNER.lookup type with
  | none => (∃ rest, blob = sshEncode [asciiBytes type] ++ rest) ∧ key = blob
  | some inner => ∃ nonce fields rest, fields.length = inner.fields ∧
      (∀ p ∈ nonce :: fields, p.length < 2 ^ 32) ∧
      blob = sshEncode (asciiBytes type :: nonce :: fields) ++ rest ∧
      key = sshEncode (asciiBytes inner.type :: fields)

/-- sshd trusts the key because of the line. -/
def Trusts (raw : Text) (key : Bytes) : Prop :=
  ∃ type blob, sshdReads raw = some (type, encodeBase64 blob) ∧ type ∈ KEY_TYPES ∧
    KeyBlob type blob key

/-! ## Where the two readings go together -/

/-- Quotes that both readings take alike, up to the end of the options: no quote outside quotes is
behind a backslash, none inside is behind an even number of them, and outside nothing is cleaned
away. -/
def inStep : Bool → Text → Bool
  | _, [] => true
  | quoted, '\\' :: '"' :: t => quoted && inStep quoted t
  | true, '\\' :: '\\' :: t => t.head? ≠ some '"' && inStep true t
  | quoted, c :: t =>
    if c = '"' then inStep (!quoted) t
    else if quoted then inStep quoted t
    else isBlank c || (!isUnsafe c && inStep quoted t)

/-- What is left of a line at its beginning once it is cleaned and trimmed. -/
def lead (raw : Text) : Text := raw.dropWhile fun c => isSpace c || isUnsafe c

def Plain (raw : Text) : Prop := (lead raw).head? ≠ some '#' ∧ inStep false (lead raw) = true

/-! ## The options field -/

theorem optionsField_cons {q : Bool} {c : Char} {t : Text} (hesc : ¬ (c = '\\' ∧ t.head? = some '"')) :
    optionsField q (c :: t) =
      if c = '"' then (c :: (optionsField (!q) t).1, (optionsField (!q) t).2)
      else if !q && isBlank c then ([], c :: t)
      else (c :: (optionsField q t).1, (optionsField q t).2) := by
  rw [optionsField]
  rintro u rfl hu
  exact hesc ⟨rfl, by rw [hu]; rfl⟩

theorem optionsField_escape (q : Bool) (t : Text) :
    optionsField q ('\\' :: '"' :: t) =
      ('\\' :: '"' :: (optionsField q t).1, (optionsField q t).2) := by
  rw [optionsField]

theorem optionsField_append (q : Bool) (t : Text) :
    (optionsField q t).1 ++ (optionsField q t).2 = t := by
  fun_induction optionsField q t with
  | case1 => rfl
  | case2 q t found ih => simpa [found] using ih
  | case3 q t _ found ih => simpa [found] using ih
  | case4 => rfl
  | case5 q c t _ hc hb found ih => simpa [found] using ih

/-- What follows the field is nothing or begins with a blank. -/
theorem optionsField_behind (q : Bool) (t : Text) {c : Char}
    (h : (optionsField q t).2.head? = some c) : isBlank c = true := by
  fun_induction optionsField q t with
  | case1 => cases h
  | case2 q t found ih => exact ih h
  | case3 q t _ found ih => exact ih h
  | case4 q c' t _ hc hb =>
    obtain rfl := Option.some.inj h
    simp only [Bool.and_eq_true] at hb
    exact hb.2
  | case5 q c t _ hc hb found ih => exact ih h

theorem cleanChar_eq {c : Char} (h : isUnsafe c = false) : cleanChar c = c := by
  rw [cleanChar, h]
  rfl

theorem cleanChar_quote : cleanChar '"' = '"' := by decide

theorem cleanChar_backslash : cleanChar '\\' = '\\' := by decide

theorem cleanChar_ne_quote {c : Char} (h : c ≠ '"') : cleanChar c ≠ '"' := by
  unfold cleanChar
  split_ifs
  · decide
  · exact h

theorem scanOptions_pair (c : Char) (t : Text) :
    scanOptions true ('\\' :: c :: t) =
      (scanOptions true t).map fun found => ('\\' :: c :: found.1, found.2) := by
  rw [scanOptions]

theorem scanOptions_cons {q : Bool} {c : Char} {t : Text} (hesc : ¬ (q = true ∧ c = '\\')) :
    scanOptions q (c :: t) =
      if c = '"' then (scanOptions (!q) t).map fun found => (c :: found.1, found.2)
      else if !q && isBlank c then some ([], c :: t)
      else (scanOptions q t).map fun found => (c :: found.1, found.2) := by
  rw [scanOptions]
  all_goals
    intros
    exact hesc ⟨‹q = true›, ‹c = '\\'›⟩

theorem scanOptions_quote (q : Bool) (t : Text) :
    scanOptions q ('"' :: t) = (scanOptions (!q) t).map fun found => ('"' :: found.1, found.2) := by
  rw [scanOptions_cons (by simp), if_pos rfl]

theorem scanOptions_blank {c : Char} (h : isBlank c = true) (t : Text) :
    scanOptions false (c :: t) = some ([], c :: t) := by
  have hc : c ≠ '"' := by
    rintro rfl
    revert h
    decide
  rw [scanOptions_cons (by simp), if_neg hc, if_pos (by simpa using h)]

theorem scanOptions_quoted {c : Char} (hback : c ≠ '\\') (hc : c ≠ '"') (t : Text) :
    scanOptions true (c :: t) = (scanOptions true t).map fun found => (c :: found.1, found.2) := by
  rw [scanOptions_cons (fun h => hback h.2), if_neg hc, if_neg (by simp)]

theorem scanOptions_plain {c : Char} (hc : c ≠ '"') (hb : isBlank c = false) (t : Text) :
    scanOptions false (c :: t) = (scanOptions false t).map fun found => (c :: found.1, found.2) := by
  rw [scanOptions_cons (by simp), if_neg hc, if_neg (by simp [hb])]

/-- In quotes a backslash before a character that is neither a quote nor another one is of no account. -/
theorem scanOptions_backslash {c : Char} (hc : c ≠ '"') (hb : c ≠ '\\') (t : Text) :
    scanOptions true ('\\' :: c :: t) =
      (scanOptions true (c :: t)).map fun found => ('\\' :: found.1, found.2) := by
  rw [scanOptions_pair, scanOptions_quoted hb hc, Option.map_map]
  rfl

theorem cleanChar_ne_backslash {c : Char} (h : c ≠ '\\') : cleanChar c ≠ '\\' := by
  unfold cleanChar
  split_ifs
  · decide
  · exact h

/-- Where the readings are in step the options end at the same blank. -/
theorem scan_of_inStep {q : Bool} {t w : Text} (hstep : inStep q t = true)
    (hne : (optionsField q t).2 ≠ []) (hw : (w.head?.map isBlank).getD false = true) :
    scanOptions q (clean (optionsField q t).1 ++ w) = some (clean (optionsField q t).1, w) := by
  have hend : scanOptions false w = some ([], w) := by
    cases w with
    | nil => cases hw
    | cons c w => exact scanOptions_blank (by simpa using hw) w
  fun_induction inStep q t with
  | case1 => exact absurd rfl hne
  | case2 q t ih =>
    simp only [Bool.and_eq_true] at hstep
    obtain ⟨rfl, hstep⟩ := hstep
    rw [optionsField_escape] at hne ⊢
    have hrest := ih hstep hne
    simp only [clean, List.map_cons, cleanChar_backslash, cleanChar_quote, List.cons_append] at hrest ⊢
    rw [scanOptions_pair, hrest]
    rfl
  | case3 t ih =>
    simp only [Bool.and_eq_true, decide_eq_true_eq] at hstep
    have hfield : optionsField true ('\\' :: '\\' :: t) =
        ('\\' :: '\\' :: (optionsField true t).1, (optionsField true t).2) := by
      have hnext : optionsField true ('\\' :: t) =
          ('\\' :: (optionsField true t).1, (optionsField true t).2) := by
        rw [optionsField_cons (by simpa using hstep.1), if_neg (by decide), if_neg (by simp)]
      rw [optionsField_cons (by simp), if_neg (by decide), if_neg (by simp), hnext]
    rw [hfield] at hne ⊢
    have hrest := ih hstep.2 hne
    simp only [clean, List.map_cons, cleanChar_backslash, List.cons_append] at hrest ⊢
    rw [scanOptions_pair, hrest]
    rfl
  | case4 q t _ _ ih =>
    rw [optionsField_cons (by simp), if_pos rfl] at hne ⊢
    have hrest := ih hstep hne
    simp only [clean, List.map_cons, cleanChar_quote, List.cons_append] at hrest ⊢
    rw [scanOptions_quote, hrest]
    rfl
  | case5 c t hesc hc hpair ih =>
    have hesc' : ¬ (c = '\\' ∧ t.head? = some '"') := by
      rintro ⟨rfl, hhead⟩
      cases t with
      | nil => cases hhead
      | cons d t => exact hesc t rfl (by rw [Option.some.inj hhead])
    rw [optionsField_cons hesc', if_neg hc, if_neg (by simp)] at hne ⊢
    have hrest := ih hstep hne
    simp only [clean, List.map_cons, List.cons_append] at hrest ⊢
    by_cases hback : c = '\\'
    · subst hback
      cases t with
      | nil => exact absurd rfl hne
      | cons d t =>
        have hd : d ≠ '"' := fun h => hesc t rfl (by rw [h])
        have hd' : d ≠ '\\' := fun h => hpair t rfl rfl (by rw [h])
        have hfield : (optionsField true (d :: t)).1 = d :: (optionsField true t).1 := by
          rw [optionsField_cons (fun h => hd' h.1), if_neg hd, if_neg (by simp)]
        rw [hfield] at hrest ⊢
        simp only [List.map_cons, List.cons_append] at hrest ⊢
        rw [cleanChar_backslash, scanOptions_backslash (cleanChar_ne_quote hd)
          (cleanChar_ne_backslash hd'), hrest]
        rfl
    · rw [scanOptions_quoted (cleanChar_ne_backslash hback) (cleanChar_ne_quote hc), hrest]
      rfl
  | case6 q c t hesc _ hc hq ih =>
    have hesc' : ¬ (c = '\\' ∧ t.head? = some '"') := by
      rintro ⟨rfl, hhead⟩
      cases t with
      | nil => cases hhead
      | cons d t => exact hesc t rfl (by rw [Option.some.inj hhead])
    have hfalse : q = false := by simpa using hq
    subst hfalse
    rw [optionsField_cons hesc', if_neg hc] at hne ⊢
    by_cases hb : isBlank c = true
    · rw [if_pos (by simpa using hb)]
      exact hend
    · rw [if_neg (by simpa using hb)] at hne ⊢
      have hstep' : isUnsafe c = false ∧ inStep false t = true := by simpa [hb] using hstep
      have hrest := ih hstep'.2 hne
      simp only [clean, List.map_cons, List.cons_append, cleanChar_eq hstep'.1] at hrest ⊢
      rw [scanOptions_plain hc (by simpa using hb), hrest]
      rfl

end OpsMaxx.Access
