import Mathlib.Data.Int.Log
import Mathlib.Data.Rat.Floor
import OpsMaxx.Strings.Words
import OpsMaxx.Net.Address

/-!
# The number a text is

`Number(text)` of JavaScript: a decimal or a hexadecimal, octal or binary literal between white
space, rounded to a double. What is not a number, or is beyond the doubles, is none here.
-/

set_option autoImplicit false

namespace OpsMaxx.Strings

/-! ## Digits -/

def digitValue (c : Char) : Nat :=
  if c.isDigit then c.toNat - 48
  else if c.isAlpha then c.toLower.toNat - 87
  else 36

/-- Some digits of a base, and nothing else. -/
def digitsIn (base : Nat) (t : Text) : Option Nat :=
  if t ≠ [] ∧ ∀ c ∈ t, digitValue c < base then
    some (t.foldl (fun n c => n * base + digitValue c) 0)
  else none

def signed {α : Type} [Neg α] (read : Text → Option α) : Text → Option α
  | '-' :: t => (read t).map fun x => -x
  | '+' :: t => read t
  | t => read t

/-! ## Doubles -/

/-- How far apart the doubles around a positive number are. -/
def doubleStep (q : ℚ) : ℚ := 2 ^ max (Int.log 2 q - 52) (-1074)

/-- The nearest integer, and of two the even one. -/
def roundEven (q : ℚ) : Int :=
  if q - ⌊q⌋ < 1 / 2 then ⌊q⌋
  else if 1 / 2 < q - ⌊q⌋ then ⌊q⌋ + 1
  else if ⌊q⌋ % 2 = 0 then ⌊q⌋
  else ⌊q⌋ + 1

def toDouble (q : ℚ) : Option ℚ :=
  if q = 0 then some 0
  else
    let rounded := roundEven (q / doubleStep |q|) * doubleStep |q|
    if |rounded| < 2 ^ (1024 : Nat) then some rounded else none

/-! ## Literals -/

/-- The power of ten behind the digits, if there is one. -/
def exponentOf : Text → Option Int
  | [] => some 0
  | c :: t => if c = 'e' ∨ c = 'E' then signed (fun ds => (digitsIn 10 ds).map Int.ofNat) t else none

def decimalLiteral (t : Text) : Option ℚ :=
  let whole := t.takeWhile Char.isDigit
  let behind := t.dropWhile Char.isDigit
  let dotted := behind.head? = some '.'
  let fraction := if dotted then behind.tail.takeWhile Char.isDigit else []
  let rest := if dotted then behind.tail.dropWhile Char.isDigit else behind
  match digitsIn 10 (whole ++ fraction), exponentOf rest with
  | some n, some e => some (n * 10 ^ (e - fraction.length))
  | _, _ => none

def numericLiteral : Text → Option ℚ
  | [] => some 0
  | '0' :: c :: t =>
    if c = 'x' ∨ c = 'X' then (digitsIn 16 t).map Nat.cast
    else if c = 'o' ∨ c = 'O' then (digitsIn 8 t).map Nat.cast
    else if c = 'b' ∨ c = 'B' then (digitsIn 2 t).map Nat.cast
    else decimalLiteral ('0' :: c :: t)
  | t => signed decimalLiteral t

/-- `Number(text)`. -/
def number (t : Text) : Option ℚ := (numericLiteral (trim t)).bind toDouble

/-- `Number.isInteger(n)` and that it is one of those from 0 to a bound. -/
def upTo (bound : Nat) (n : Option ℚ) : Option Nat :=
  match n with
  | some q => if q.den = 1 ∧ 0 ≤ q ∧ q ≤ bound then some q.num.toNat else none
  | none => none

example : upTo 65535 (number " 5.182e4".toList) = some 51820 := by decide +kernel

/-!
## Some digits as a number

The number that a run of decimal digits is, which is exact as long as a double has room for it.
-/

open Net (ofDecimal)

theorem roundEven_intCast (z : Int) : roundEven (z : ℚ) = z := by
  unfold roundEven
  rw [Int.floor_intCast, sub_self, if_pos (by norm_num)]

/-- An integer is a whole number of steps as long as it has at most 53 bits. -/
theorem toDouble_natCast {n : Nat} (hn : n < 2 ^ 53) : toDouble (n : ℚ) = some (n : ℚ) := by
  unfold toDouble
  by_cases hzero : (n : ℚ) = 0
  · rw [if_pos hzero, hzero]
  · have hpos : 0 < (n : ℚ) := lt_of_le_of_ne (Nat.cast_nonneg n) (Ne.symm hzero)
    have hbound : (n : ℚ) < 2 ^ 53 := by exact_mod_cast hn
    have hlog : Int.log 2 (n : ℚ) < 53 := (Int.lt_zpow_iff_log_lt (by norm_num) hpos).mp hbound
    have hstep : ∃ m : Nat, doubleStep (n : ℚ) = ((2 : ℚ) ^ m)⁻¹ := by
      obtain ⟨m, hm⟩ : ∃ m : Nat, max (Int.log 2 (n : ℚ) - 52) (-1074) = -(m : Int) :=
        ⟨(-max (Int.log 2 (n : ℚ) - 52) (-1074)).toNat, by omega⟩
      refine ⟨m, ?_⟩
      rw [doubleStep, hm, zpow_neg, zpow_natCast]
    obtain ⟨m, hm⟩ := hstep
    have hsteps : (n : ℚ) / ((2 : ℚ) ^ m)⁻¹ = ((n * 2 ^ m : Int) : ℚ) := by
      rw [div_inv_eq_mul]
      push_cast
      ring
    have hround : (roundEven ((n : ℚ) / doubleStep |(n : ℚ)|) : ℚ) * doubleStep |(n : ℚ)| = n := by
      rw [abs_of_pos hpos, hm, hsteps, roundEven_intCast]
      push_cast
      rw [mul_assoc, mul_inv_cancel₀ (by positivity), mul_one]
    have hlarge : (2 : ℚ) ^ 53 < 2 ^ (1024 : Nat) := pow_lt_pow_right₀ (by norm_num) (by norm_num)
    rw [if_neg hzero]
    simp only [hround]
    rw [if_pos]
    rw [abs_of_pos hpos]
    exact hbound.trans hlarge

theorem digitValue_of_isDigit {c : Char} (h : c.isDigit = true) :
    digitValue c = c.toNat - 48 ∧ digitValue c < 10 := by
  have hvalue : digitValue c = c.toNat - 48 := by
    unfold digitValue
    rw [if_pos h]
  refine ⟨hvalue, ?_⟩
  rw [hvalue]
  have hle := (isDigit_iff.mp h).2
  omega

theorem digitsIn_ten {t : Text} (hne : t ≠ []) (h : ∀ c ∈ t, c.isDigit = true) :
    digitsIn 10 t = some (ofDecimal t) := by
  unfold digitsIn
  rw [if_pos ⟨hne, fun c hc => (digitValue_of_isDigit (h c hc)).2⟩, ofDecimal,
    Nat.ofDigitChars_eq_foldl]
  congr 1
  apply List.foldl_ext
  intro n c hc
  rw [(digitValue_of_isDigit (h c hc)).1, Nat.mul_comm]
  rfl

theorem takeWhile_isDigit {t : Text} (h : ∀ c ∈ t, c.isDigit = true) :
    t.takeWhile Char.isDigit = t ∧ t.dropWhile Char.isDigit = [] :=
  ⟨List.takeWhile_eq_self_iff.mpr h, List.dropWhile_eq_nil_iff.mpr h⟩

theorem decimalLiteral_digits {t : Text} (hne : t ≠ []) (h : ∀ c ∈ t, c.isDigit = true) :
    decimalLiteral t = some (ofDecimal t : ℚ) := by
  obtain ⟨htake, hdrop⟩ := takeWhile_isDigit h
  unfold decimalLiteral
  simp [htake, hdrop, digitsIn_ten hne h, exponentOf]

theorem numericLiteral_digits {t : Text} (hne : t ≠ []) (h : ∀ c ∈ t, c.isDigit = true) :
    numericLiteral t = some (ofDecimal t : ℚ) := by
  have hliteral := decimalLiteral_digits hne h
  have hhead : ∀ c ∈ t, c ≠ '-' ∧ c ≠ '+' ∧ c ≠ 'x' ∧ c ≠ 'X' ∧ c ≠ 'o' ∧ c ≠ 'O' ∧ c ≠ 'b' ∧
      c ≠ 'B' := by
    intro c hc
    have hdigit := h c hc
    refine ⟨?_, ?_, ?_, ?_, ?_, ?_, ?_, ?_⟩ <;>
      · rintro rfl
        exact absurd hdigit (by decide)
  unfold numericLiteral
  split
  · exact absurd rfl hne
  · rename_i c t
    have hc := hhead c (by simp)
    simp [hc, hliteral]
  · unfold signed
    split
    · exact absurd rfl (hhead '-' List.mem_cons_self).1
    · exact absurd rfl (hhead '+' List.mem_cons_self).2.1
    · exact hliteral

end OpsMaxx.Strings
