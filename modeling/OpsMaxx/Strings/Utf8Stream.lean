import Mathlib.Data.List.Induction
import Mathlib.Tactic.SplitIfs

/-! # Decoding UTF-8 a byte at a time

Between two bytes a decoder with replacement characters is at rest, or part of the way through a
character: it knows how many bytes the character still needs, and between which bounds the next of
them must lie. What bytes decode to, followed by what more bytes decode to, is what all of them
decode to, as long as the cut between them leaves the decoder at rest or is before a byte that
begins a character.
-/

set_option autoImplicit false

namespace OpsMaxx.Strings.Utf8

/-- Part of the way through a character: it needs `rest + 1` more bytes, and the bytes so far spell
`acc`. -/
structure Partial where
  rest : Nat
  acc : Nat
  lo : UInt8
  hi : UInt8
  lo_ge : 0x80 ≤ lo
  hi_le : hi ≤ 0xBF

abbrev State : Type := Option Partial

/-- How many bytes the character still needs. -/
def need : State → Nat
  | none => 0
  | some p => p.rest + 1

theorem need_zero {s : State} (h : need s = 0) : s = none := by
  cases s with
  | none => rfl
  | some p => cases h

/-- A byte that continues a character. -/
def Continues (b : UInt8) : Prop := 0x80 ≤ b ∧ b ≤ 0xBF

instance (b : UInt8) : Decidable (Continues b) :=
  inferInstanceAs (Decidable (0x80 ≤ b ∧ b ≤ 0xBF))

def replacement : Char := '\uFFFD'

/-! ## Bytes -/

/-- The first byte of a character, and what it stands for if it is one. -/
def opening (b : UInt8) : List Char × State :=
  if b < 0x80 then ([Char.ofNat b.toNat], none)
  else if b < 0xC2 then ([replacement], none)
  else if b < 0xE0 then ([], some ⟨0, b.toNat % 32, 0x80, 0xBF, by decide, by decide⟩)
  else if b < 0xF0 then
    ([], some ⟨1, b.toNat % 16, if b = 0xE0 then 0xA0 else 0x80, if b = 0xED then 0x9F else 0xBF,
      by split_ifs <;> decide, by split_ifs <;> decide⟩)
  else if b < 0xF5 then
    ([], some ⟨2, b.toNat % 8, if b = 0xF0 then 0x90 else 0x80, if b = 0xF4 then 0x8F else 0xBF,
      by split_ifs <;> decide, by split_ifs <;> decide⟩)
  else ([replacement], none)

/-- What a character that was cut short decodes to. -/
def flush : State → List Char
  | none => []
  | some _ => [replacement]

def next (b : UInt8) : State → List Char × State
  | none => opening b
  | some p =>
    if p.lo ≤ b ∧ b ≤ p.hi then
      match p.rest with
      | 0 => ([Char.ofNat (p.acc * 64 + b.toNat % 64)], none)
      | n + 1 => ([], some ⟨n, p.acc * 64 + b.toNat % 64, 0x80, 0xBF, by decide, by decide⟩)
    else (replacement :: (opening b).1, (opening b).2)

theorem next_within {p : Partial} {b : UInt8} (h : p.lo ≤ b ∧ b ≤ p.hi) :
    next b (some p) = match p.rest with
      | 0 => ([Char.ofNat (p.acc * 64 + b.toNat % 64)], none)
      | n + 1 => ([], some ⟨n, p.acc * 64 + b.toNat % 64, 0x80, 0xBF, by decide, by decide⟩) := by
  simp only [next, if_pos h]

theorem next_outside {p : Partial} {b : UInt8} (h : ¬ (p.lo ≤ b ∧ b ≤ p.hi)) :
    next b (some p) = (replacement :: (opening b).1, (opening b).2) := by
  simp only [next, if_neg h]

theorem Partial.outside (p : Partial) {b : UInt8} (hb : ¬ Continues b) :
    ¬ (p.lo ≤ b ∧ b ≤ p.hi) := by
  intro h
  apply hb
  exact ⟨UInt8.le_trans p.lo_ge h.1, UInt8.le_trans h.2 p.hi_le⟩

/-! ## Runs of bytes -/

/-- Where the decoder is after a run of bytes. -/
def after (s : State) : List UInt8 → State
  | [] => s
  | b :: bs => after (next b s).2 bs

/-- What it has given by then. -/
def given (s : State) : List UInt8 → List Char
  | [] => []
  | b :: bs => (next b s).1 ++ given (next b s).2 bs

/-- Everything it gives for bytes that end there. -/
def decodeFrom (s : State) (bs : List UInt8) : List Char := given s bs ++ flush (after s bs)

def decode (bs : List UInt8) : List Char := decodeFrom none bs

@[simp] theorem decode_nil : decode [] = [] := rfl

@[simp] theorem decodeFrom_nil (s : State) : decodeFrom s [] = flush s := rfl

theorem decodeFrom_cons (s : State) (b : UInt8) (bs : List UInt8) :
    decodeFrom s (b :: bs) = (next b s).1 ++ decodeFrom (next b s).2 bs := by
  rw [decodeFrom, given, after, List.append_assoc]
  rfl

theorem after_append (s : State) (xs ys : List UInt8) :
    after s (xs ++ ys) = after (after s xs) ys := by
  induction xs generalizing s with
  | nil => rfl
  | cons b xs ih => exact ih _

theorem decodeFrom_append (s : State) (xs ys : List UInt8) :
    decodeFrom s (xs ++ ys) = given s xs ++ decodeFrom (after s xs) ys := by
  induction xs generalizing s with
  | nil => rfl
  | cons b xs ih =>
    rw [List.cons_append, decodeFrom_cons, ih, given, after, List.append_assoc]

/-! ## Where a run can be cut -/

/-- A byte that continues no character ends the one before it. -/
theorem decodeFrom_begins (s : State) {b : UInt8} (hb : ¬ Continues b) (bs : List UInt8) :
    decodeFrom s (b :: bs) = flush s ++ decode (b :: bs) := by
  cases s with
  | none => rfl
  | some p =>
    rw [decode, decodeFrom_cons, decodeFrom_cons, next_outside (p.outside hb)]
    rfl

/-- A cut before a byte that begins a character. -/
theorem decode_append_begins (xs : List UInt8) {b : UInt8} (hb : ¬ Continues b)
    (bs : List UInt8) : decode (xs ++ b :: bs) = decode xs ++ decode (b :: bs) := by
  rw [decode, decodeFrom_append, decodeFrom_begins _ hb, ← List.append_assoc]
  rfl

/-- A cut where the decoder is at rest. -/
theorem decode_append_rest {xs : List UInt8} (h : after none xs = none) (ys : List UInt8) :
    decode (xs ++ ys) = decode xs ++ decode ys := by
  have hxs : decode xs = given none xs := by
    rw [decode, decodeFrom, h, flush, List.append_nil]
  rw [decode, decodeFrom_append, h, hxs]
  rfl

/-! ## How much a character still needs -/

/-- How many bytes the character that begins with `b` has. -/
def size (b : UInt8) : Nat :=
  if 0xF0 ≤ b then 4 else if 0xE0 ≤ b then 3 else if 0xC0 ≤ b then 2 else 1

theorem size_le (b : UInt8) : size b ≤ 4 := by
  unfold size
  split_ifs <;> decide

theorem need_opening (b : UInt8) : need (opening b).2 < size b := by
  have hall : ∀ n < 256, need (opening (UInt8.ofNat n)).2 < size (UInt8.ofNat n) := by
    decide +kernel
  rw [← UInt8.ofNat_toNat (x := b)]
  exact hall b.toNat b.toNat_lt

theorem need_opening_continues {b : UInt8} (h : Continues b) : (opening b).2 = none := by
  obtain ⟨hlo, hhi⟩ := h
  unfold opening
  simp only [UInt8.le_iff_toNat_le, UInt8.reduceToNat] at hlo hhi
  simp only [UInt8.lt_iff_toNat_lt, UInt8.reduceToNat]
  rw [if_neg (by omega), if_pos (by omega)]

/-- A byte that continues a character leaves it needing one less, or none. -/
theorem need_next {b : UInt8} (h : Continues b) (s : State) :
    need (next b s).2 ≤ need s - 1 := by
  cases s with
  | none =>
    rw [next, need_opening_continues h]
    exact Nat.zero_le _
  | some p =>
    by_cases hin : p.lo ≤ b ∧ b ≤ p.hi
    · rw [next_within hin]
      cases hrest : p.rest with
      | zero => exact Nat.zero_le _
      | succ n =>
        simp only [need, hrest]
        omega
    · rw [next_outside hin]
      show need (opening b).2 ≤ _
      rw [need_opening_continues h]
      exact Nat.zero_le _

/-- Any other byte leaves what it begins. -/
theorem next_begins {b : UInt8} (h : ¬ Continues b) (s : State) : (next b s).2 = (opening b).2 := by
  cases s with
  | none => rfl
  | some p => rw [next_outside (p.outside h)]

theorem need_after_le (xs : List UInt8) : need (after none xs) ≤ 3 := by
  induction xs using List.reverseRecOn with
  | nil => exact Nat.zero_le _
  | append_singleton xs b ih =>
    rw [after_append]
    show need (next b (after none xs)).2 ≤ 3
    by_cases hb : Continues b
    · have h := need_next hb (after none xs)
      omega
    · have h := need_opening b
      have hle := size_le b
      rw [next_begins hb]
      omega

end OpsMaxx.Strings.Utf8
