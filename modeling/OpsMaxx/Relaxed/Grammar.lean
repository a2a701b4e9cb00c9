import Mathlib.Data.List.TakeWhile
import Mathlib.Tactic.Common

/-!
# The parser for the mongo shell

A recursive-descent parser for object literals as the shell accepts them. A text is its UTF-16 code
units, the parser stands before what is left of them, and a parse that throws says what it missed;
the position and the excerpt of the message are left out. Recursion is on a fuel that the length of
the text bounds.
-/

set_option autoImplicit false

namespace OpsMaxx.Relaxed

/-! ## Code units -/

abbrev Units : Type := List Nat

def units (s : String) : Units := s.toList.map Char.toNat

/-- `/\s/`. -/
def isSpace (c : Nat) : Bool :=
  c ∈ [9, 10, 11, 12, 13, 32, 0xa0, 0x1680, 0x2028, 0x2029, 0x202f, 0x205f, 0x3000, 0xfeff] ||
    (0x2000 ≤ c && c ≤ 0x200a)

def isDigit (c : Nat) : Bool := 48 ≤ c && c ≤ 57

def isLetter (c : Nat) : Bool := (65 ≤ c && c ≤ 90) || (97 ≤ c && c ≤ 122)

def hexValue (c : Nat) : Option Nat :=
  if 48 ≤ c ∧ c ≤ 57 then some (c - 48)
  else if 97 ≤ c ∧ c ≤ 102 then some (c - 87)
  else if 65 ≤ c ∧ c ≤ 70 then some (c - 55)
  else none

/-- `[A-Za-z_$]` and `[\w$]`. -/
def isNameStart (c : Nat) : Bool := isLetter c || c = 95 || c = 36

def isNamePart (c : Nat) : Bool := isNameStart c || isDigit c

/-! ## Values -/

/-- What a parse returns. Numbers are of a type of their own, what helpers return of another. An
object is its own properties in the order they were added, and whether it still inherits from
`Object.prototype`. -/
inductive JsValue (ν κ : Type)
  | undefined
  | null
  | bool (b : Bool)
  | num (n : ν)
  | infinity
  | nan
  | str (s : Units)
  | arr (items : List (JsValue ν κ))
  | obj (own : List (Units × JsValue ν κ)) (rooted : Bool)
  | regex (body flags : Units)
  | custom (x : κ)

/-- What the parser is given from outside: the number a literal denotes, whether a pattern with its
flags is a regular expression, and the helper. -/
structure Host (ν κ : Type) where
  number : Units → ν
  isPattern : Units → Units → Bool
  helper : Option (Units → List (JsValue ν κ) → Except String (JsValue ν κ))

section
variable {ν κ : Type}

/-- A property is set where it is, or added at the end. -/
def put : List (Units × JsValue ν κ) → Units → JsValue ν κ → List (Units × JsValue ν κ)
  | [], key, v => [(key, v)]
  | (k, w) :: rest, key, v => if k = key then (k, v) :: rest else (k, w) :: put rest key v

def protoKey : Units := units "__proto__"

/-- What an object that inherits from this value inherits from, if it may be inherited from. -/
def JsValue.proto? : JsValue ν κ → Option Bool
  | .null => some false
  | .obj _ rooted => some rooted
  | .arr _ => some true
  | .regex _ _ => some true
  | .custom _ => some true
  | _ => none

/-- `out[key] = value`. `Object.prototype` has a setter for `__proto__`, so an object gets a
property of that name only when it inherits from there no more. -/
def assign (out : List (Units × JsValue ν κ) × Bool) (key : Units) (v : JsValue ν κ) :
    List (Units × JsValue ν κ) × Bool :=
  if key = protoKey ∧ out.2 = true then (out.1, v.proto?.getD out.2)
  else (put out.1 key v, out.2)

end

/-! ## Space, names, strings and numbers -/

inductive Skipping
  | space
  | line
  | opening
  | block
  | closing

/-- Whitespace and comments. -/
def skip : Skipping → Units → Units
  | _, [] => []
  | .space, c :: cs =>
    if isSpace c then skip .space cs
    else if c = 47 ∧ cs.head? = some 47 then skip .line cs
    else if c = 47 ∧ cs.head? = some 42 then skip .opening cs
    else c :: cs
  | .line, c :: cs => if c = 10 then skip .space cs else skip .line cs
  | .opening, _ :: cs => skip .block cs
  | .block, c :: cs => if c = 42 ∧ cs.head? = some 47 then skip .closing cs else skip .block cs
  | .closing, _ :: cs => skip .space cs

def ws (cs : Units) : Units := skip .space cs

/-- What is left if that character comes next. -/
def takes (ch : Nat) (cs : Units) : Option Units :=
  match ws cs with
  | [] => none
  | c :: rest => if c = ch then some rest else none

def expect (ch : Nat) (cs : Units) : Except String Units :=
  match takes ch cs with
  | some rest => .ok rest
  | none => .error ("Expected \"" ++ String.singleton (Char.ofNat ch) ++ "\"")

/-- The digits `parseInt(_, 16)` reads, after the space, the sign and the `0x` it passes over. -/
def parseHex (text : Units) : Int :=
  let text := text.dropWhile isSpace
  let negative := text.head? = some 45
  let text := if negative ∨ text.head? = some 43 then text.tail else text
  let text := if text.take 2 = [48, 120] ∨ text.take 2 = [48, 88] then text.drop 2 else text
  let digits := text.takeWhile fun c => (hexValue c).isSome
  let n : Nat := digits.foldl (fun n c => n * 16 + (hexValue c).getD 0) 0
  if negative then -n else n

/-- `String.fromCharCode`, which makes 0 of the `NaN` that no digits are. -/
def fromCharCode (n : Int) : Nat := (n % 65536).toNat

def escaped (e : Nat) : Nat :=
  if e = 110 then 10
  else if e = 116 then 9
  else if e = 114 then 13
  else if e = 98 then 8
  else if e = 102 then 12
  else if e = 48 then 0
  else e

def isQuote (c : Nat) : Bool := c = 34 || c = 39 || c = 96

def unterminated : String := "Unterminated string"

def push (c : Nat) (x : Except String (Units × Units)) : Except String (Units × Units) :=
  x.map fun y => (c :: y.1, y.2)

/-- A string after its opening quote. An escape that the text ends in leaves it unterminated. -/
def stringBody (quote : Nat) : Units → Except String (Units × Units)
  | [] => .error unterminated
  | c :: cs =>
    if c = quote then .ok ([], cs)
    else if c ≠ 92 then push c (stringBody quote cs)
    else
      match cs with
      | [] => .error unterminated
      | e :: es =>
        if e = 117 then
          match es with
          | h₁ :: h₂ :: h₃ :: h₄ :: rest =>
            push (fromCharCode (parseHex [h₁, h₂, h₃, h₄])) (stringBody quote rest)
          | _ => .error unterminated
        else push (escaped e) (stringBody quote es)

/-- `string`, before the quote it opens with. -/
def string : Units → Except String (Units × Units)
  | [] => .error unterminated
  | quote :: rest => stringBody quote rest

/-- `/^[A-Za-z_$][\w$]*/`. -/
def name? (cs : Units) : Option (Units × Units) :=
  match cs with
  | [] => none
  | c :: _ => if isNameStart c then some (cs.span isNamePart) else none

def key (cs : Units) : Except String (Units × Units) :=
  match cs with
  | [] => .error "Expected a property name"
  | c :: _ =>
    if isQuote c then string cs
    else if isNameStart c then .ok (cs.span isNamePart)
    else if isDigit c then .ok (cs.span isDigit)
    else .error "Expected a property name"

/-- `[+-]?`. -/
def sign (cs : Units) : Units × Units :=
  match cs with
  | [] => ([], [])
  | c :: rest => if c = 43 ∨ c = 45 then ([c], rest) else ([], cs)

/-- `(?:[eE][+-]?\d+)?`. -/
def exponent (cs : Units) : Units × Units :=
  match cs with
  | [] => ([], [])
  | e :: rest =>
    if (e = 101 ∨ e = 69) ∧ (((sign rest).2.head?.map isDigit).getD false) = true then
      (e :: (sign rest).1 ++ (sign rest).2.takeWhile isDigit, (sign rest).2.dropWhile isDigit)
    else ([], cs)

/-- `\d*\.?\d+`. -/
def mantissa (cs : Units) : Option (Units × Units) :=
  let whole := cs.takeWhile isDigit
  let rest := cs.dropWhile isDigit
  if rest.head? = some 46 ∧ ((rest.tail.head?.map isDigit).getD false) = true then
    some (whole ++ 46 :: rest.tail.takeWhile isDigit, rest.tail.dropWhile isDigit)
  else if whole = [] then none
  else some (whole, rest)

/-- `0[xX][0-9a-fA-F]+`. -/
def hexLiteral (cs : Units) : Option (Units × Units) :=
  match cs with
  | 48 :: x :: h :: rest =>
    if (x = 120 ∨ x = 88) ∧ (hexValue h).isSome then
      some (48 :: x :: (h :: rest).takeWhile (fun c => (hexValue c).isSome),
        (h :: rest).dropWhile fun c => (hexValue c).isSome)
    else none
  | _ => none

def numberText (cs : Units) : Option (Units × Units) :=
  match hexLiteral (sign cs).2 with
  | some (w, rest) => some ((sign cs).1 ++ w, rest)
  | none =>
    match mantissa (sign cs).2 with
    | some (w, rest) => some ((sign cs).1 ++ w ++ (exponent rest).1, (exponent rest).2)
    | none => none

/-- A pattern after its opening slash, where it ends, and what follows. -/
def regexBody : Bool → Bool → Units → Option (Units × Units)
  | _, _, [] => none
  | escaped, inClass, c :: cs =>
    if escaped then (regexBody false inClass cs).map fun x => (c :: x.1, x.2)
    else if c = 92 then (regexBody true inClass cs).map fun x => (c :: x.1, x.2)
    else if c = 91 then (regexBody false true cs).map fun x => (c :: x.1, x.2)
    else if c = 93 then (regexBody false false cs).map fun x => (c :: x.1, x.2)
    else if c = 47 ∧ inClass = false then some ([], cs)
    else (regexBody false inClass cs).map fun x => (c :: x.1, x.2)

def isFlag (c : Nat) : Bool := c ∈ units "gimsuy"

/-! ## The grammar -/

/-- How a list goes on after one of its entries. -/
inductive Sequel
  | closed (rest : Units)
  | more (rest : Units)
  | neither

/-- A comma may stand before the closing bracket. -/
def sequel (close : Nat) (cs : Units) : Sequel :=
  match takes 44 cs with
  | some cs =>
    match takes close cs with
    | some rest => .closed rest
    | none => .more cs
  | none =>
    match takes close cs with
    | some rest => .closed rest
    | none => .neither

def outOfFuel : String := "Out of fuel"

def quoted (text : String) (name : Units) (after : String) : String :=
  text ++ " \"" ++ String.ofList (name.map Char.ofNat) ++ after ++ "\""

section
variable {ν κ : Type}

def number (host : Host ν κ) (cs : Units) : Except String (JsValue ν κ × Units) :=
  match numberText cs with
  | some (w, rest) => .ok (.num (host.number w), rest)
  | none => .error "Invalid number"

def regex (host : Host ν κ) (cs : Units) : Except String (JsValue ν κ × Units) :=
  match regexBody false false cs.tail with
  | none => .error "Unterminated regular expression"
  | some (body, rest) =>
    if host.isPattern body (rest.takeWhile isFlag) then
      .ok (.regex body (rest.takeWhile isFlag), rest.dropWhile isFlag)
    else .error "Invalid regular expression"

/-- The names that stand for a value. -/
def literal (name : Units) : Option (JsValue ν κ) :=
  if name = units "true" then some (.bool true)
  else if name = units "false" then some (.bool false)
  else if name = units "null" then some .null
  else if name = units "undefined" then some .undefined
  else if name = units "Infinity" then some .infinity
  else if name = units "NaN" then some .nan
  else none

mutual

def value (host : Host ν κ) : Nat → Units → Except String (JsValue ν κ × Units)
  | 0, _ => .error outOfFuel
  | fuel + 1, cs =>
    match ws cs with
    | [] => .error "Unexpected end of input"
    | c :: rest =>
      if c = 123 then object host fuel (c :: rest)
      else if c = 91 then array host fuel (c :: rest)
      else if isQuote c then (string (c :: rest)).map fun x => (.str x.1, x.2)
      else if c = 47 then regex host (c :: rest)
      else if c = 45 ∨ c = 43 ∨ isDigit c then number host (c :: rest)
      else word host fuel (c :: rest)

def object (host : Host ν κ) : Nat → Units → Except String (JsValue ν κ × Units)
  | 0, _ => .error outOfFuel
  | fuel + 1, cs =>
    match expect 123 cs with
    | .error e => .error e
    | .ok cs =>
      match takes 125 cs with
      | some rest => .ok (.obj [] true, rest)
      | none => members host fuel ([], true) cs

/-- The loop of `object`, with what `out` holds. -/
def members (host : Host ν κ) :
    Nat → List (Units × JsValue ν κ) × Bool → Units → Except String (JsValue ν κ × Units)
  | 0, _, _ => .error outOfFuel
  | fuel + 1, out, cs =>
    match key (ws cs) with
    | .error e => .error e
    | .ok (k, cs) =>
      match expect 58 cs with
      | .error e => .error e
      | .ok cs =>
        match value host fuel cs with
        | .error e => .error e
        | .ok (v, cs) =>
          match sequel 125 cs with
          | .closed rest => .ok (.obj (assign out k v).1 (assign out k v).2, rest)
          | .more rest => members host fuel (assign out k v) rest
          | .neither => .error "Expected \",\" or \"\x7d\""

def array (host : Host ν κ) : Nat → Units → Except String (JsValue ν κ × Units)
  | 0, _ => .error outOfFuel
  | fuel + 1, cs =>
    match expect 91 cs with
    | .error e => .error e
    | .ok cs =>
      match takes 93 cs with
      | some rest => .ok (.arr [], rest)
      | none =>
        (entries host fuel 93 "Expected \",\" or \"]\"" [] cs).map fun x => (.arr x.1, x.2)

def argList (host : Host ν κ) : Nat → Units → Except String (List (JsValue ν κ) × Units)
  | 0, _ => .error outOfFuel
  | fuel + 1, cs =>
    match expect 40 cs with
    | .error e => .error e
    | .ok cs =>
      match takes 41 cs with
      | some rest => .ok ([], rest)
      | none => entries host fuel 41 "Expected \",\" or \")\"" [] cs

/-- The loop of `array` and of `argList`. -/
def entries (host : Host ν κ) :
    Nat → Nat → String → List (JsValue ν κ) → Units → Except String (List (JsValue ν κ) × Units)
  | 0, _, _, _, _ => .error outOfFuel
  | fuel + 1, close, what, out, cs =>
    match value host fuel cs with
    | .error e => .error e
    | .ok (v, cs) =>
      match sequel close cs with
      | .closed rest => .ok (out ++ [v], rest)
      | .more rest => entries host fuel close what (out ++ [v]) rest
      | .neither => .error what

def word (host : Host ν κ) : Nat → Units → Except String (JsValue ν κ × Units)
  | 0, _ => .error outOfFuel
  | fuel + 1, cs =>
    match name? cs with
    | none => .error "Unexpected character"
    | some (name, rest) =>
      if name = units "new" then
        match name? (ws rest) with
        | none => .error "Expected a constructor after \"new\""
        | some (name, rest) => call host fuel name rest
      else
        match literal name with
        | some v => .ok (v, rest)
        | none => call host fuel name rest

/-- The end of `word`, where the name is one of a helper. -/
def call (host : Host ν κ) :
    Nat → Units → Units → Except String (JsValue ν κ × Units)
  | 0, _, _ => .error outOfFuel
  | fuel + 1, name, cs =>
    match takes 40 cs with
    | none => .error (quoted "Unknown identifier" name "")
    | some _ =>
      match argList host fuel cs with
      | .error e => .error e
      | .ok (args, rest) =>
        match host.helper with
        | none => .error (quoted "Unsupported helper" name "()")
        | some helper => (helper name args).map fun v => (v, rest)

end

/-- One value, and nothing but space after it. -/
def parseRelaxed (host : Host ν κ) (src : Units) : Except String (JsValue ν κ) :=
  match value host (4 * src.length + 1) src with
  | .error e => .error e
  | .ok (v, rest) => if ws rest = [] then .ok v else .error "Trailing input"

end

end OpsMaxx.Relaxed

/-!
## JSON

The grammar of JSON over code units, what `JSON.parse` makes of a text, and what assigning its
members one by one makes of it. The two part at a member named `__proto__`.
-/

namespace OpsMaxx.Relaxed

/-- What a text spells. A number is its literal; members keep their order and their repeats. -/
inductive Syn
  | null
  | bool (b : Bool)
  | num (lit : Units)
  | str (s : Units)
  | arr (items : List Syn)
  | obj (members : List (Units × Syn))

/-! ## Spelling -/

def Space (w : Units) : Prop := ∀ c ∈ w, c = 32 ∨ c = 9 ∨ c = 10 ∨ c = 13

def Digits (w : Units) : Prop := w ≠ [] ∧ ∀ c ∈ w, isDigit c = true

inductive WholePart : Units → Prop
  | zero : WholePart [48]
  | digits {d : Nat} {ds : Units} (hd : 49 ≤ d ∧ d ≤ 57) (hds : ∀ c ∈ ds, isDigit c = true) :
    WholePart (d :: ds)

inductive FractionPart : Units → Prop
  | none : FractionPart []
  | digits {ds : Units} (hds : Digits ds) : FractionPart (46 :: ds)

inductive ExponentPart : Units → Prop
  | none : ExponentPart []
  | digits {e : Nat} {sgn ds : Units} (he : e = 101 ∨ e = 69)
    (hsgn : sgn = [] ∨ sgn = [43] ∨ sgn = [45]) (hds : Digits ds) : ExponentPart (e :: sgn ++ ds)

inductive JsonNumber : Units → Prop
  | mk {sgn whole fraction expo : Units} (hsgn : sgn = [] ∨ sgn = [45]) (hwhole : WholePart whole)
    (hfraction : FractionPart fraction) (hexpo : ExponentPart expo) :
    JsonNumber (sgn ++ (whole ++ (fraction ++ expo)))

/-- What may follow a backslash other than `u`, and what it stands for. -/
def escapes : List (Nat × Nat) :=
  [(34, 34), (92, 92), (47, 47), (98, 8), (102, 12), (110, 10), (114, 13), (116, 9)]

def hexUnits (a b c d : Nat) : Nat := ((a * 16 + b) * 16 + c) * 16 + d

/-- The spelling of a string between its quotes. -/
inductive StringText : Units → Units → Prop
  | nil : StringText [] []
  | plain {c : Nat} {s w : Units} (hc : 32 ≤ c) (hquote : c ≠ 34) (hback : c ≠ 92)
    (h : StringText s w) : StringText (c :: s) (c :: w)
  | escape {e c : Nat} {s w : Units} (he : (e, c) ∈ escapes) (h : StringText s w) :
    StringText (c :: s) (92 :: e :: w)
  | unicode {h₁ h₂ h₃ h₄ v₁ v₂ v₃ v₄ : Nat} {s w : Units} (h1 : hexValue h₁ = some v₁)
    (h2 : hexValue h₂ = some v₂) (h3 : hexValue h₃ = some v₃) (h4 : hexValue h₄ = some v₄)
    (h : StringText s w) :
    StringText (hexUnits v₁ v₂ v₃ v₄ :: s) (92 :: 117 :: h₁ :: h₂ :: h₃ :: h₄ :: w)

/-- What a piece of a text is: a value, or what stands between brackets. -/
inductive Piece
  | value (t : Syn)
  | items (ts : List Syn)
  | members (ms : List (Units × Syn))

inductive Spells : Piece → Units → Prop
  | null : Spells (.value .null) (units "null")
  | true : Spells (.value (.bool true)) (units "true")
  | false : Spells (.value (.bool false)) (units "false")
  | num {w : Units} (h : JsonNumber w) : Spells (.value (.num w)) w
  | str {s w : Units} (h : StringText s w) : Spells (.value (.str s)) (34 :: (w ++ [34]))
  | emptyArr {a : Units} (ha : Space a) : Spells (.value (.arr [])) (91 :: (a ++ [93]))
  | arr {ts : List Syn} {w : Units} (h : Spells (.items ts) w) :
    Spells (.value (.arr ts)) (91 :: (w ++ [93]))
  | emptyObj {a : Units} (ha : Space a) : Spells (.value (.obj [])) (123 :: (a ++ [125]))
  | obj {ms : List (Units × Syn)} {w : Units} (h : Spells (.members ms) w) :
    Spells (.value (.obj ms)) (123 :: (w ++ [125]))
  | lastItem {t : Syn} {a w b : Units} (ha : Space a) (hb : Space b) (h : Spells (.value t) w) :
    Spells (.items [t]) (a ++ (w ++ b))
  | item {t : Syn} {ts : List Syn} {a w b rest : Units} (ha : Space a) (hb : Space b)
    (h : Spells (.value t) w) (hrest : Spells (.items ts) rest) :
    Spells (.items (t :: ts)) (a ++ (w ++ (b ++ 44 :: rest)))
  | lastMember {s : Units} {t : Syn} {a k b c w d : Units} (ha : Space a) (hk : StringText s k)
    (hb : Space b) (hc : Space c) (hd : Space d) (h : Spells (.value t) w) :
    Spells (.members [(s, t)]) (a ++ 34 :: (k ++ 34 :: (b ++ 58 :: (c ++ (w ++ d)))))
  | member {s : Units} {t : Syn} {ms : List (Units × Syn)} {a k b c w d rest : Units}
    (ha : Space a) (hk : StringText s k) (hb : Space b) (hc : Space c) (hd : Space d)
    (h : Spells (.value t) w) (hrest : Spells (.members ms) rest) :
    Spells (.members ((s, t) :: ms))
      (a ++ 34 :: (k ++ 34 :: (b ++ 58 :: (c ++ (w ++ (d ++ 44 :: rest))))))

/-- A JSON text: a value between space. -/
inductive Text (t : Syn) : Units → Prop
  | mk {a w b : Units} (ha : Space a) (hb : Space b) (h : Spells (.value t) w) :
    Text t (a ++ (w ++ b))

/-! ## Meaning -/

section
variable {ν κ : Type} (number : Units → ν)

mutual

/-- `JSON.parse`, which makes a property of every member. -/
def jsonEval : Syn → JsValue ν κ
  | .null => .null
  | .bool b => .bool b
  | .num lit => .num (number lit)
  | .str s => .str s
  | .arr items => .arr (jsonItems items)
  | .obj ms => .obj (jsonMembers [] ms) true
termination_by structural t => t

def jsonItems : List Syn → List (JsValue ν κ)
  | [] => []
  | t :: rest => jsonEval t :: jsonItems rest
termination_by structural ts => ts

def jsonMembers (out : List (Units × JsValue ν κ)) :
    List (Units × Syn) → List (Units × JsValue ν κ)
  | [] => out
  | (k, t) :: rest => jsonMembers (put out k (jsonEval t)) rest
termination_by structural ms => ms

end

mutual

/-- The same, with every member assigned. -/
def assignEval : Syn → JsValue ν κ
  | .null => .null
  | .bool b => .bool b
  | .num lit => .num (number lit)
  | .str s => .str s
  | .arr items => .arr (assignItems items)
  | .obj ms => .obj (assignMembers ([], true) ms).1 (assignMembers ([], true) ms).2
termination_by structural t => t

def assignItems : List Syn → List (JsValue ν κ)
  | [] => []
  | t :: rest => assignEval t :: assignItems rest
termination_by structural ts => ts

def assignMembers (out : List (Units × JsValue ν κ) × Bool) :
    List (Units × Syn) → List (Units × JsValue ν κ) × Bool
  | [] => out
  | (k, t) :: rest => assignMembers (assign out k (assignEval t)) rest
termination_by structural ms => ms

end

end

end OpsMaxx.Relaxed
