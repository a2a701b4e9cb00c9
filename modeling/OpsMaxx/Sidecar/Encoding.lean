import Mathlib.Algebra.Group.Int.Defs
import Mathlib.Algebra.Group.Nat.Defs
import Mathlib.Data.List.Basic

/-! # ACE-1, the canonical encoding

The byte strings the account's records are written in: a domain prefix with its NUL, big-endian
integers, fixed fields without a length and counted fields with one. A decoder stops at its first
error, so it is a reader of bytes that gives a value and what is left, or the error.
-/

set_option autoImplicit false

namespace OpsMaxx.Sidecar

abbrev Bytes : Type := List UInt8

/-- The bytes of an ASCII text. -/
def ascii (s : String) : Bytes := s.toList.map fun c => c.toNat.toUInt8

/-- What decoding or checking a record can fail with. -/
inductive WireErr where
  | badDomain | truncated | badEnum | trailing | fixedLen
  | emptyChain | badGenesis | wrongAccount | badSequence | brokenLink | badEpoch | badFlags
  | badSigner | badSignature | badOp | forked | rewound
  | degenerateKey
  | zeroEpoch | keyLength | deriving
  | escrowSuite | escrowCommit | escrowMismatch
  | zeroCounter | noBinding | hpke
  | notTransition | revocationRotation
  | noTransition (epoch : UInt64)
  deriving DecidableEq, Repr

/-! ## Encoding -/

def beBytes : Nat → Nat → Bytes
  | 0, _ => []
  | n + 1, v => beBytes n (v / 256) ++ [(v % 256).toUInt8]

namespace Encoder

def new (domain : String) : Bytes := ascii domain ++ [0]
def u8 (v : UInt8) : Bytes := [v]
def u32 (v : Nat) : Bytes := beBytes 4 (v % 2 ^ 32)
def u64 (v : UInt64) : Bytes := beBytes 8 v.toNat
def fixed (p : Bytes) : Bytes := p
def bytes (p : Bytes) : Bytes := u32 p.length ++ p

end Encoder

/-- A field of a pinned width, refused when it is not that wide. -/
def fixed (p : Bytes) (n : Nat) : Except WireErr Unit :=
  if p.length = n then .ok () else .error .fixedLen

/-! ## Decoding -/

/-- A reader of the bytes from some position on. -/
def Decoder (α : Type) : Type := Bytes → Except WireErr (α × Bytes)

namespace Decoder
variable {α β : Type}

instance : Monad Decoder where
  pure a := fun b => .ok (a, b)
  bind d f := fun b =>
    match d b with
    | .ok (a, rest) => f a rest
    | .error e => .error e

def fail (e : WireErr) : Decoder α := fun _ => .error e

def take (n : Nat) : Decoder Bytes := fun b =>
  if b.length < n then .error .truncated else .ok (b.take n, b.drop n)

def fromBE (p : Bytes) : Nat := p.foldl (fun n b => n * 256 + b.toNat) 0

def u8 : Decoder UInt8 := do
  let p ← take 1
  pure (p.headD 0)

def u32 : Decoder Nat := do
  let p ← take 4
  pure (fromBE p)

def u64 : Decoder UInt64 := do
  let p ← take 8
  pure (UInt64.ofNat (fromBE p))

/-- A byte out of a closed table. -/
def enum (max : UInt8) : Decoder UInt8 := do
  let v ← u8
  if max < v then fail .badEnum else pure v

def fixed (n : Nat) : Decoder Bytes := take n

def bytes : Decoder Bytes := do
  let n ← u32
  take n

/-- The domain prefix, checked before anything else is read. -/
def new (domain : String) : Decoder Unit := fun b =>
  let want := Encoder.new domain
  if b.take want.length = want then .ok ((), b.drop want.length) else .error .badDomain

/-- Every byte was read. -/
def atEnd : Decoder Unit := fun b => if b.isEmpty then .ok ((), b) else .error .trailing

/-! ### Readers never give back more than they were given -/

def Shrinks (d : Decoder α) : Prop :=
  ∀ b a rest, d b = .ok (a, rest) → rest.length ≤ b.length

theorem bind_ok {d : Decoder α} {f : α → Decoder β} {b rest : Bytes} {x : β}
    (h : (d >>= f) b = .ok (x, rest)) :
    ∃ a mid, d b = .ok (a, mid) ∧ f a mid = .ok (x, rest) := by
  change (match d b with | .ok (a, rest) => f a rest | .error e => .error e) = _ at h
  cases hd : d b with
  | error e =>
    rw [hd] at h
    cases h
  | ok v =>
    obtain ⟨a, mid⟩ := v
    rw [hd] at h
    exact ⟨a, mid, rfl, h⟩

theorem Shrinks.pure (a : α) : Shrinks (Pure.pure a : Decoder α) := by
  intro b x rest h
  cases h
  apply Nat.le_refl

theorem Shrinks.fail (e : WireErr) : Shrinks (Decoder.fail e : Decoder α) := by
  intro b x rest h
  cases h

theorem Shrinks.bind {d : Decoder α} {f : α → Decoder β} (hd : Shrinks d)
    (hf : ∀ a, Shrinks (f a)) : Shrinks (d >>= f) := by
  intro b x rest h
  obtain ⟨a, mid, hmid, hrest⟩ := bind_ok h
  have h₁ := hd b a mid hmid
  have h₂ := hf a mid x rest hrest
  omega

theorem Shrinks.take (n : Nat) : Shrinks (Decoder.take n) := by
  intro b x rest h
  unfold Decoder.take at h
  split_ifs at h
  cases h
  simp

theorem Shrinks.u8 : Shrinks Decoder.u8 :=
  .bind (.take 1) fun _ => .pure _

theorem Shrinks.u64 : Shrinks Decoder.u64 :=
  .bind (.take 8) fun _ => .pure _

theorem Shrinks.enum (max : UInt8) : Shrinks (Decoder.enum max) := by
  apply Shrinks.bind .u8
  intro v
  split_ifs
  · exact .fail _
  · exact .pure _

theorem Shrinks.bytes : Shrinks Decoder.bytes :=
  .bind (.bind (.take 4) fun _ => .pure _) fun n => .take n

/-- A domain prefix is at least its NUL long. -/
theorem new_shrinks {domain : String} {b rest : Bytes}
    (h : Decoder.new domain b = .ok ((), rest)) : rest.length < b.length := by
  unfold Decoder.new at h
  simp only at h
  split_ifs at h with hpre
  cases h
  have hlen := congrArg List.length hpre
  simp only [List.length_take, Encoder.new, List.length_append, List.length_cons,
    List.length_nil] at hlen
  simp only [List.length_drop, Encoder.new, List.length_append, List.length_cons,
    List.length_nil]
  omega

end Decoder

end OpsMaxx.Sidecar

/-! ## Hex and base64

The two text forms binary values travel in between the parent and the sidecar, as the standard
library reads them: hex in either case, and padded base64 that passes over line ends.
-/

namespace OpsMaxx.Sidecar

/-! ## Hex -/

def hexValue (c : Char) : Option Nat :=
  if '0' ≤ c ∧ c ≤ '9' then some (c.toNat - '0'.toNat)
  else if 'a' ≤ c ∧ c ≤ 'f' then some (c.toNat - 'a'.toNat + 10)
  else if 'A' ≤ c ∧ c ≤ 'F' then some (c.toNat - 'A'.toNat + 10)
  else none

def hexPairs : List Char → Option Bytes
  | [] => some []
  | [_] => none
  | a :: b :: rest =>
    match hexValue a, hexValue b, hexPairs rest with
    | some h, some l, some tail => some ((h * 16 + l).toUInt8 :: tail)
    | _, _, _ => none

def hexDecode (s : List Char) : Option Bytes := hexPairs s

def hexChar (n : Nat) : Char := "0123456789abcdef".toList.getD n '0'

def hexEncode (b : Bytes) : List Char :=
  b.flatMap fun x => [hexChar (x.toNat / 16), hexChar (x.toNat % 16)]

/-! ## Base64 -/

def base64Value (c : Char) : Option Nat :=
  if 'A' ≤ c ∧ c ≤ 'Z' then some (c.toNat - 'A'.toNat)
  else if 'a' ≤ c ∧ c ≤ 'z' then some (c.toNat - 'a'.toNat + 26)
  else if '0' ≤ c ∧ c ≤ '9' then some (c.toNat - '0'.toNat + 52)
  else if c = '+' then some 62
  else if c = '/' then some 63
  else none

/-- Four characters at a time; the last four may end in one or two padding characters. -/
@[grind =] def base64Quads : List Char → Option Bytes
  | [] => some []
  | a :: b :: c :: d :: rest =>
    match base64Value a, base64Value b with
    | some x, some y =>
      let first := (x * 4 + y / 16).toUInt8
      match base64Value c, base64Value d with
      | some z, some w =>
        (base64Quads rest).map fun tail =>
          first :: (y % 16 * 16 + z / 4).toUInt8 :: (z % 4 * 64 + w).toUInt8 :: tail
      | some z, none =>
        if d = '=' ∧ rest = [] then some [first, (y % 16 * 16 + z / 4).toUInt8] else none
      | none, _ => if c = '=' ∧ d = '=' ∧ rest = [] then some [first] else none
    | _, _ => none
  | _ => none

def isLineEnd (c : Char) : Bool := c = '\r' || c = '\n'

def base64Decode (s : List Char) : Option Bytes := base64Quads (s.filter fun c => !isLineEnd c)

def base64Alphabet : List Char :=
  "ABCDEFGHIJKLMNOPQRSTUVWXYZabcdefghijklmnopqrstuvwxyz0123456789+/".toList

def base64Char (n : Nat) : Char := base64Alphabet.getD n 'A'

@[grind =] def base64Encode : Bytes → List Char
  | [] => []
  | [a] => [base64Char (a.toNat / 4), base64Char (a.toNat % 4 * 16), '=', '=']
  | [a, b] =>
    [base64Char (a.toNat / 4), base64Char (a.toNat % 4 * 16 + b.toNat / 16),
      base64Char (b.toNat % 16 * 4), '=']
  | a :: b :: c :: rest =>
    base64Char (a.toNat / 4) :: base64Char (a.toNat % 4 * 16 + b.toNat / 16) ::
      base64Char (b.toNat % 16 * 4 + c.toNat / 64) :: base64Char (c.toNat % 64) :: base64Encode rest

theorem base64Quads_length {cs : List Char} {b : Bytes} (h : base64Quads cs = some b) :
    b.length ≤ cs.length := by
  fun_induction base64Quads cs generalizing b with
  | case1 =>
    cases h
    exact Nat.zero_le _
  | case2 =>
    rename_i ih
    obtain ⟨tail, htail, rfl⟩ := Option.map_eq_some_iff.mp h
    have := ih htail
    simp only [List.length_cons]
    omega
  | case3 =>
    cases h
    simp
  | case4 => cases h
  | case5 =>
    cases h
    simp
  | case6 => cases h
  | case7 => cases h
  | case8 => cases h

/-- Three bytes for four characters, so never more bytes than characters. -/
theorem base64Decode_length {s : List Char} {b : Bytes} (h : base64Decode s = some b) :
    b.length ≤ s.length := by
  have h₁ := base64Quads_length h
  have h₂ := List.length_filter_le (fun c => !isLineEnd c) s
  omega

/-! ### Decoding what was encoded -/

theorem base64Value_char {n : Nat} (h : n < 64) : base64Value (base64Char n) = some n := by
  have hall : ∀ m < 64, base64Value (base64Char m) = some m := by decide +kernel
  exact hall n h

theorem base64Char_mem {n : Nat} (h : n < 64) : base64Char n ∈ base64Alphabet := by
  have hall : ∀ m < 64, base64Char m ∈ base64Alphabet := by decide
  exact hall n h

theorem toUInt8_eq {n : Nat} {a : UInt8} (h : n = a.toNat) : n.toUInt8 = a := by
  rw [h]
  exact UInt8.ofNat_toNat

theorem base64Quads_encode (b : Bytes) : base64Quads (base64Encode b) = some b := by
  have hpad : base64Value '=' = none := by decide
  fun_induction base64Encode b with
  | case1 => rfl
  | case2 a =>
    have ha := a.toNat_lt
    unfold base64Quads
    rw [base64Value_char (by omega), base64Value_char (by omega), hpad]
    simp only [and_self, if_true, Option.some.injEq, List.cons.injEq, and_true]
    apply toUInt8_eq
    omega
  | case3 a b =>
    have ha := a.toNat_lt
    have hb := b.toNat_lt
    unfold base64Quads
    rw [base64Value_char (by omega), base64Value_char (by omega), base64Value_char (by omega),
      hpad]
    simp only [and_self, if_true, Option.some.injEq, List.cons.injEq, and_true]
    constructor
    · apply toUInt8_eq
      omega
    · apply toUInt8_eq
      omega
  | case4 a b c rest ih =>
    have ha := a.toNat_lt
    have hb := b.toNat_lt
    have hc := c.toNat_lt
    unfold base64Quads
    rw [base64Value_char (by omega), base64Value_char (by omega), base64Value_char (by omega),
      base64Value_char (by omega), ih]
    simp only [Option.map_some, Option.some.injEq, List.cons.injEq, and_true]
    refine ⟨?_, ?_, ?_⟩
    · apply toUInt8_eq
      omega
    · apply toUInt8_eq
      omega
    · apply toUInt8_eq
      omega

theorem base64Encode_mem (b : Bytes) : ∀ c ∈ base64Encode b, c ∈ '=' :: base64Alphabet := by
  have hchar : ∀ n < 64, base64Char n ∈ '=' :: base64Alphabet := by
    intro n hn
    exact List.mem_cons_of_mem _ (base64Char_mem hn)
  fun_induction base64Encode b with
  | case1 => simp
  | case2 a =>
    have ha := a.toNat_lt
    intro c hc
    simp only [List.mem_cons, List.not_mem_nil, or_false] at hc
    obtain rfl | rfl | rfl | rfl := hc
    · exact hchar _ (by omega)
    · exact hchar _ (by omega)
    · exact List.mem_cons_self
    · exact List.mem_cons_self
  | case3 a b =>
    have ha := a.toNat_lt
    have hb := b.toNat_lt
    intro c hc
    simp only [List.mem_cons, List.not_mem_nil, or_false] at hc
    obtain rfl | rfl | rfl | rfl := hc
    · exact hchar _ (by omega)
    · exact hchar _ (by omega)
    · exact hchar _ (by omega)
    · exact List.mem_cons_self
  | case4 a b c rest ih =>
    have ha := a.toNat_lt
    have hb := b.toNat_lt
    have hc := c.toNat_lt
    intro x hx
    simp only [List.mem_cons] at hx
    obtain rfl | rfl | rfl | rfl | hx := hx
    · exact hchar _ (by omega)
    · exact hchar _ (by omega)
    · exact hchar _ (by omega)
    · exact hchar _ (by omega)
    · exact ih x hx

theorem base64Decode_encode (b : Bytes) : base64Decode (base64Encode b) = some b := by
  unfold base64Decode
  rw [List.filter_eq_self.mpr]
  · exact base64Quads_encode b
  · intro c hc
    have hend : ∀ c ∈ '=' :: base64Alphabet, (!isLineEnd c) = true := by decide
    exact hend c (base64Encode_mem b c hc)

end OpsMaxx.Sidecar
