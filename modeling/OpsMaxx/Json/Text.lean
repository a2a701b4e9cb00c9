import Mathlib.Data.List.Sort
import Mathlib.Algebra.Group.Int.Defs
import Mathlib.Algebra.Group.Nat.Defs
import Mathlib.Tactic.Common

/-! # JSON values

A value `JSON.parse` can return. An object is the list of its own keys in the order the engine
lists them: array-index keys first and ascending, then the others as they were added. `Valid`
says that every object inside a value is listed that way, without a repeated key. A number is an
exact decimal in lowest terms, which is what its shortest printed form denotes.
-/

set_option autoImplicit false

-- what holds of all members of a list is decided member by member, also where the type is finite
attribute [instance (high)] List.decidableBAll List.decidableBEx Option.decidableForallMem
  Option.decidableExistsMem List.instLE

namespace OpsMaxx

/-- The number `mantissa / 10 ^ places`, with no trailing zero after the point. -/
structure Decimal where
  mantissa : Int
  places : Nat
  reduced : places = 0 ∨ mantissa % 10 ≠ 0
  deriving DecidableEq

namespace Decimal

def ofInt (n : Int) : Decimal := ⟨n, 0, Or.inl rfl⟩

/-- `m / 10 ^ p` in lowest terms. -/
def normalize (m : Int) : Nat → Decimal
  | 0 => ofInt m
  | p + 1 => if h : m % 10 = 0 then normalize (m / 10) p else ⟨m, p + 1, Or.inr h⟩

theorem normalize_of_reduced {m : Int} {p : Nat} (h : p = 0 ∨ m % 10 ≠ 0) :
    normalize m p = ⟨m, p, h⟩ := by
  cases p with
  | zero => rfl
  | succ p =>
    have hm : m % 10 ≠ 0 := h.resolve_left (Nat.succ_ne_zero p)
    rw [normalize, dif_neg hm]

end Decimal

/-- A value as `JSON.parse` returns it. -/
inductive Json where
  | null
  | bool (b : Bool)
  | num (n : Decimal)
  | str (s : String)
  | arr (items : List Json)
  | obj (fields : List (String × Json))

/-! ## Key order -/

/-- The array index a key spells, if it spells one in canonical form below `2 ^ 32 - 1`. -/
def arrayIndex (key : String) : Option Nat :=
  let cs := key.toList
  let n := Nat.ofDigitChars 10 cs 0
  if cs ≠ [] ∧ cs.all Char.isDigit ∧ (cs.head? = some '0' → cs = ['0']) ∧ n < 2 ^ 32 - 1 then some n
  else none

/-- Whether the engine lists `a` before `b` whatever the order they were added in. -/
def precedes (a b : String) : Bool :=
  match arrayIndex a, arrayIndex b with
  | some i, some j => i < j
  | some _, none => true
  | none, _ => false

theorem precedes_asymm {a b : String} (h : precedes a b = true) : precedes b a = false := by
  unfold precedes at *
  cases ha : arrayIndex a <;> cases hb : arrayIndex b <;> simp_all
  omega

theorem precedes_trans {a b c : String} (h : precedes a b = true) (h' : precedes b c = true) :
    precedes a c = true := by
  unfold precedes at *
  cases ha : arrayIndex a <;> cases hb : arrayIndex b <;> cases hc : arrayIndex c <;> simp_all
  omega

/-- `a` may be listed before `b` in one object. -/
def KeyBefore (a b : String) : Prop := a ≠ b ∧ precedes b a = false

/-! ## Own fields -/

/-- The value of an own field. -/
def lookupField (fields : List (String × Json)) (key : String) : Option Json :=
  (fields.find? fun kv => kv.1 = key).map Prod.snd

/-- `o[key] = v`: an existing key keeps its place, a new one goes where the engine lists it. -/
def setField : List (String × Json) → String → Json → List (String × Json)
  | [], key, v => [(key, v)]
  | (k, u) :: rest, key, v =>
    if k = key then (key, v) :: rest
    else if precedes key k then (key, v) :: (k, u) :: rest
    else (k, u) :: setField rest key v

/-- `delete o[key]`. -/
def deleteField (fields : List (String × Json)) (key : String) : List (String × Json) :=
  fields.filter fun kv => kv.1 ≠ key

namespace Json

/-- `v[key]` of an object, and `undefined` of anything that has no own fields. -/
def get? : Json → String → Option Json
  | obj fields, key => lookupField fields key
  | _, _ => none

end Json

/-! ## Valid values -/

/-- Every object inside lists its keys as the engine does. -/
inductive Json.Valid : Json → Prop
  | null : Valid .null
  | bool (b : Bool) : Valid (.bool b)
  | num (n : Decimal) : Valid (.num n)
  | str (s : String) : Valid (.str s)
  | arr {items : List Json} (h : ∀ v ∈ items, Valid v) : Valid (.arr items)
  | obj {fields : List (String × Json)} (hkeys : (fields.map Prod.fst).Pairwise KeyBefore)
      (h : ∀ kv ∈ fields, Valid kv.2) : Valid (.obj fields)

theorem Json.Valid.items {items : List Json} (h : (Json.arr items).Valid) :
    ∀ v ∈ items, v.Valid := by
  cases h with
  | arr h => exact h

theorem Json.Valid.keys {fields : List (String × Json)} (h : (Json.obj fields).Valid) :
    (fields.map Prod.fst).Pairwise KeyBefore := by
  cases h with
  | obj hkeys _ => exact hkeys

theorem Json.Valid.values {fields : List (String × Json)} (h : (Json.obj fields).Valid) :
    ∀ kv ∈ fields, kv.2.Valid := by
  cases h with
  | obj _ h => exact h

theorem mem_setField {fields : List (String × Json)} {key : String} {v : Json}
    {kv : String × Json} (h : kv ∈ setField fields key v) : kv = (key, v) ∨ kv ∈ fields := by
  induction fields with
  | nil => exact Or.inl (by simpa [setField] using h)
  | cons head rest ih =>
    obtain ⟨k, u⟩ := head
    unfold setField at h
    split_ifs at h with hk hp
    · rcases List.mem_cons.mp h with h | h
      · exact Or.inl h
      · exact Or.inr (List.mem_cons_of_mem _ h)
    · rcases List.mem_cons.mp h with h | h
      · exact Or.inl h
      · exact Or.inr h
    · rcases List.mem_cons.mp h with h | h
      · exact Or.inr (by simp [h])
      · exact (ih h).imp id (List.mem_cons_of_mem _)

/-- A key that may follow every key present is added at the end. -/
theorem setField_append {fields : List (String × Json)} {key : String} (v : Json)
    (h : ∀ kv ∈ fields, KeyBefore kv.1 key) : setField fields key v = fields ++ [(key, v)] := by
  induction fields with
  | nil => rfl
  | cons head rest ih =>
    obtain ⟨k, u⟩ := head
    obtain ⟨hne, hpre⟩ := h (k, u) List.mem_cons_self
    rw [setField, if_neg hne, if_neg (by simp [hpre]),
      ih fun kv hkv => h kv (List.mem_cons_of_mem _ hkv)]
    rfl

theorem setField_pairwise {fields : List (String × Json)} (key : String) (v : Json)
    (h : (fields.map Prod.fst).Pairwise KeyBefore) :
    ((setField fields key v).map Prod.fst).Pairwise KeyBefore := by
  induction fields with
  | nil => simp [setField]
  | cons head rest ih =>
    obtain ⟨k, u⟩ := head
    simp only [List.map_cons, List.pairwise_cons, List.forall_mem_map] at h
    obtain ⟨hk, hrest⟩ := h
    unfold setField
    split_ifs with hkey hpre
    · subst hkey
      simpa only [List.map_cons, List.pairwise_cons, List.forall_mem_map] using ⟨hk, hrest⟩
    · simp only [List.map_cons, List.pairwise_cons, List.forall_mem_cons, List.forall_mem_map]
      refine ⟨⟨⟨Ne.symm hkey, precedes_asymm hpre⟩, fun kv hkv => ?_⟩, hk, hrest⟩
      -- a later key that came before `key` would come before `k` as well
      have hlast := (hk kv hkv).2
      refine ⟨fun he => ?_, ?_⟩
      · rw [← he, hpre] at hlast
        exact absurd hlast (by simp)
      · by_contra hc
        rw [precedes_trans (by simpa using hc) hpre] at hlast
        exact absurd hlast (by simp)
    · simp only [List.map_cons, List.pairwise_cons, List.forall_mem_map]
      refine ⟨fun kv hkv => ?_, ih hrest⟩
      rcases mem_setField hkv with rfl | hkv
      · exact ⟨hkey, by simpa using hpre⟩
      · exact hk kv hkv

theorem Json.Valid.setField {fields : List (String × Json)} {key : String} {v : Json}
    (h : (Json.obj fields).Valid) (hv : v.Valid) : (Json.obj (setField fields key v)).Valid := by
  refine .obj (setField_pairwise key v h.keys) fun kv hkv => ?_
  rcases mem_setField hkv with rfl | hkv
  · exact hv
  · exact h.values kv hkv

/-! ## JSON text

`JSON.stringify` and `JSON.parse`. Text is read as a list of characters; a reader returns the
value and what is left. Recursion in the reader is on a fuel that the length of the text bounds.
A number is written out in plain decimal, and a lone surrogate escape, which no text of Unicode
characters can hold, reads as the replacement character.
-/

/-! ## Printing -/

/-- `n` in decimal, with leading zeros up to `width` digits. -/
def padDigits (width n : Nat) : List Char :=
  let ds := Nat.toDigits 10 n
  List.replicate (width - ds.length) '0' ++ ds

/-- The digits and the point of a number without its sign. -/
def Decimal.printAbs (d : Decimal) : List Char :=
  let n := d.mantissa.natAbs
  if d.places = 0 then Nat.toDigits 10 n
  else Nat.toDigits 10 (n / 10 ^ d.places) ++ '.' :: padDigits d.places (n % 10 ^ d.places)

def Decimal.print (d : Decimal) : List Char :=
  if d.mantissa < 0 then '-' :: d.printAbs else d.printAbs

def hexDigit (n : Nat) : Char := Nat.digitChar n

/-- One character inside a JSON string. -/
def escapeChar (c : Char) : List Char :=
  if c = '"' then ['\\', '"']
  else if c = '\\' then ['\\', '\\']
  else if c = '\x08' then ['\\', 'b']
  else if c = '\x0c' then ['\\', 'f']
  else if c = '\n' then ['\\', 'n']
  else if c = '\r' then ['\\', 'r']
  else if c = '\t' then ['\\', 't']
  else if c.toNat < 32 then ['\\', 'u', '0', '0', hexDigit (c.toNat / 16), hexDigit (c.toNat % 16)]
  else [c]

def printString (s : String) : List Char :=
  '"' :: (s.toList.flatMap escapeChar ++ ['"'])

mutual
/-- The characters `JSON.stringify` prints. -/
def Json.print : Json → List Char
  | .null => ['n', 'u', 'l', 'l']
  | .bool true => ['t', 'r', 'u', 'e']
  | .bool false => ['f', 'a', 'l', 's', 'e']
  | .num n => n.print
  | .str s => printString s
  | .arr [] => ['[', ']']
  | .arr (v :: vs) => '[' :: (v.print ++ printItems vs)
  | .obj [] => ['{', '}']
  | .obj ((k, v) :: rest) => '{' :: (printString k ++ ':' :: (v.print ++ printFields rest))

/-- The items after the first, and the closing bracket. -/
def printItems : List Json → List Char
  | [] => [']']
  | v :: vs => ',' :: (v.print ++ printItems vs)

/-- The fields after the first, and the closing brace. -/
def printFields : List (String × Json) → List Char
  | [] => ['}']
  | (k, v) :: rest => ',' :: (printString k ++ ':' :: (v.print ++ printFields rest))
end

/-- `JSON.stringify`. -/
def Json.stringify (v : Json) : String := String.ofList v.print

/-! ## Reading -/

def isJsonSpace (c : Char) : Bool := c = ' ' || c = '\t' || c = '\n' || c = '\r'

def skipSpace (cs : List Char) : List Char := cs.dropWhile isJsonSpace

def hexVal (c : Char) : Option Nat :=
  if '0' ≤ c ∧ c ≤ '9' then some (c.toNat - '0'.toNat)
  else if 'a' ≤ c ∧ c ≤ 'f' then some (c.toNat - 'a'.toNat + 10)
  else if 'A' ≤ c ∧ c ≤ 'F' then some (c.toNat - 'A'.toNat + 10)
  else none

/-- The code unit four hexadecimal digits spell. -/
def hexUnit (a b c d : Char) : Option Nat := do
  let a ← hexVal a
  let b ← hexVal b
  let c ← hexVal c
  let d ← hexVal d
  return ((a * 16 + b) * 16 + c) * 16 + d

def isSurrogate (n : Nat) : Bool := decide (0xD800 ≤ n ∧ n < 0xE000)

/-- The character of one code unit. -/
def unitChar (n : Nat) : Char := if isSurrogate n then '\uFFFD' else Char.ofNat n

/-- The character a simple escape stands for. -/
def simpleEscape (c : Char) : Option Char :=
  if c = '"' then some '"'
  else if c = '\\' then some '\\'
  else if c = '/' then some '/'
  else if c = 'b' then some '\x08'
  else if c = 'f' then some '\x0c'
  else if c = 'n' then some '\n'
  else if c = 'r' then some '\r'
  else if c = 't' then some '\t'
  else none

/-- The character outside the basic plane that a pair of code units spells. -/
def pairChar (hi : Nat) : Option Nat → Option Char
  | some lo =>
    if 0xD800 ≤ hi ∧ hi < 0xDC00 ∧ 0xDC00 ≤ lo ∧ lo < 0xE000 then
      some (Char.ofNat (0x10000 + (hi - 0xD800) * 0x400 + (lo - 0xDC00)))
    else none
  | none => none

/-- A string after its opening quote, up to its closing one. -/
@[grind =] def readString : List Char → Option (List Char × List Char)
  | [] => none
  | '"' :: rest => some ([], rest)
  | '\\' :: 'u' :: a :: b :: c :: d :: '\\' :: 'u' :: a' :: b' :: c' :: d' :: rest =>
    match hexUnit a b c d with
    | none => none
    | some hi =>
      match pairChar hi (hexUnit a' b' c' d') with
      | some ch => (readString rest).map fun x => (ch :: x.1, x.2)
      | none => (readString ('\\' :: 'u' :: a' :: b' :: c' :: d' :: rest)).map fun x =>
          (unitChar hi :: x.1, x.2)
  | '\\' :: 'u' :: a :: b :: c :: d :: rest =>
    match hexUnit a b c d with
    | none => none
    | some n => (readString rest).map fun x => (unitChar n :: x.1, x.2)
  | '\\' :: e :: rest =>
    match simpleEscape e with
    | some c => (readString rest).map fun x => (c :: x.1, x.2)
    | none => none
  | c :: rest => if c.toNat < 32 then none else (readString rest).map fun x => (c :: x.1, x.2)

/-- The longest run of digits, and what is left. -/
def readDigits (cs : List Char) : List Char × List Char :=
  (cs.takeWhile Char.isDigit, cs.dropWhile Char.isDigit)

/-- The digits after a point, if there is a point. -/
def readFraction : List Char → Option (List Char × List Char)
  | '.' :: rest =>
    let (ds, rest) := readDigits rest
    if ds = [] then none else some (ds, rest)
  | cs => some ([], cs)

/-- The exponent, if there is one. -/
def readExponent : List Char → Option (Int × List Char)
  | c :: rest =>
    if c = 'e' ∨ c = 'E' then
      let (sign, rest) : Int × List Char :=
        match rest with
        | '-' :: rest => (-1, rest)
        | '+' :: rest => (1, rest)
        | rest => (1, rest)
      let (ds, rest) := readDigits rest
      if ds = [] then none else some (sign * Nat.ofDigitChars 10 ds 0, rest)
    else some (0, c :: rest)
  | [] => some (0, [])

/-- `m * 10 ^ e` in lowest terms. -/
def Decimal.scale (m e : Int) : Decimal :=
  if 0 ≤ e then ofInt (m * 10 ^ e.toNat) else normalize m (-e).toNat

/-- A number without its sign. -/
def readUnsigned (cs : List Char) (sign : Int) : Option (Json × List Char) := do
  let (int, cs) := readDigits cs
  if int = [] ∨ (int.head? = some '0' ∧ int ≠ ['0']) then none
  let (frac, cs) ← readFraction cs
  let (exp, cs) ← readExponent cs
  return (.num (.scale (sign * Nat.ofDigitChars 10 (int ++ frac) 0) (exp - frac.length)), cs)

def readNumber : List Char → Option (Json × List Char)
  | '-' :: cs => readUnsigned cs (-1)
  | cs => readUnsigned cs 1

mutual
/-- One value, after any space. -/
@[grind =] def readValue : Nat → List Char → Option (Json × List Char)
  | 0, _ => none
  | n + 1, cs =>
    match skipSpace cs with
    | 'n' :: 'u' :: 'l' :: 'l' :: rest => some (.null, rest)
    | 't' :: 'r' :: 'u' :: 'e' :: rest => some (.bool true, rest)
    | 'f' :: 'a' :: 'l' :: 's' :: 'e' :: rest => some (.bool false, rest)
    | '"' :: rest => (readString rest).map fun x => (.str (String.ofList x.1), x.2)
    | '[' :: rest =>
      match skipSpace rest with
      | ']' :: rest => some (.arr [], rest)
      | rest => (readItems n rest).map fun x => (.arr x.1, x.2)
    | '{' :: rest =>
      match skipSpace rest with
      | '}' :: rest => some (.obj [], rest)
      | rest => (readFields n rest []).map fun x => (.obj x.1, x.2)
    | rest => readNumber rest

/-- The items of an array up to its closing bracket. -/
def readItems : Nat → List Char → Option (List Json × List Char)
  | 0, _ => none
  | n + 1, cs => do
    let (v, cs) ← readValue n cs
    match skipSpace cs with
    | ',' :: rest => (readItems n rest).map fun x => (v :: x.1, x.2)
    | ']' :: rest => some ([v], rest)
    | _ => none

/-- The fields of an object up to its closing brace, set one after another on `acc`. -/
def readFields : Nat → List Char → List (String × Json) →
    Option (List (String × Json) × List Char)
  | 0, _, _ => none
  | n + 1, cs, acc =>
    match skipSpace cs with
    | '"' :: rest => do
      let (key, rest) ← readString rest
      match skipSpace rest with
      | ':' :: rest => do
        let (v, rest) ← readValue n rest
        let acc := setField acc (String.ofList key) v
        match skipSpace rest with
        | ',' :: rest => readFields n rest acc
        | '}' :: rest => some (acc, rest)
        | _ => none
      | _ => none
    | _ => none
end

/-- `JSON.parse`; `none` is a thrown `SyntaxError`. -/
def Json.parse (text : String) : Option Json :=
  match readValue (text.toList.length + 1) text.toList with
  | some (v, rest) => if skipSpace rest = [] then some v else none
  | none => none

end OpsMaxx
