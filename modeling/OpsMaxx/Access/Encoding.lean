import OpsMaxx.Sidecar.Encoding
import OpsMaxx.Strings.Words

/-!
# Keys as bytes

A public key is a run of fields, each behind its length in four bytes, and a line of a file has it in
base64. The decoder is not strict about the padding, and of what was encoded it gives the bytes back.
-/

set_option autoImplicit false

namespace OpsMaxx.Access

open Strings (Text)

abbrev Bytes : Type := List UInt8

/-! ## Base64 -/

def B64 : Text := Sidecar.base64Alphabet

def encodeBase64 (bytes : Bytes) : Text := Sidecar.base64Encode bytes

def isPad (c : Char) : Bool := c = '='

/-- Eight bits at a time. The accumulator keeps 32 bits, and its sign does not reach the byte that is
taken from it. -/
def decodeLoop (acc bits : Nat) : Text → Bytes
  | [] => []
  | ch :: rest =>
    let acc := (acc * 64 + B64.idxOf ch) % 2 ^ 32
    if 8 ≤ bits + 6 then
      (acc / 2 ^ (bits - 2) % 256).toUInt8 :: decodeLoop acc (bits - 2) rest
    else decodeLoop acc (bits + 6) rest

def decodeBase64 (input : Text) : Option Bytes :=
  let s := input.rdropWhile isPad
  if s = [] || s.any (fun c => c ∉ B64) || s.length % 4 = 1 then none
  else some (decodeLoop 0 0 s)

/-! ## Fields -/

def be32 (a b c d : UInt8) : Nat :=
  a.toNat * 2 ^ 24 + b.toNat * 2 ^ 16 + c.toNat * 2 ^ 8 + d.toNat

/-- A length of 2 ^ 31 and more is a negative number. -/
def fieldsLoop : Nat → Bytes → List Bytes
  | max + 1, a :: b :: c :: d :: rest =>
    let len := be32 a b c d
    if 2 ^ 31 ≤ len ∨ rest.length < len then []
    else rest.take len :: fieldsLoop max (rest.drop len)
  | _, _ => []

def sshFields (blob : Bytes) (max : Nat) : Option (List Bytes) :=
  let out := fieldsLoop max blob
  if out = [] then none else some out

def sshLength (n : Nat) : Bytes :=
  [(n / 2 ^ 24).toUInt8, (n / 2 ^ 16).toUInt8, (n / 2 ^ 8).toUInt8, n.toUInt8]

def sshEncode (parts : List Bytes) : Bytes := parts.flatMap fun p => sshLength p.length ++ p

def ascii (b : Bytes) : Text := b.map fun c => Char.ofNat c.toNat

def asciiBytes (s : Text) : Bytes := s.map fun c => c.toNat.toUInt8

/-! ## What was encoded -/

theorem idxOf_base64Char {n : Nat} (h : n < 64) : B64.idxOf (Sidecar.base64Char n) = n := by
  have hall : ∀ m < 64, B64.idxOf (Sidecar.base64Char m) = m := by decide +kernel
  exact hall n h

theorem not_isPad_base64Char {n : Nat} (h : n < 64) : isPad (Sidecar.base64Char n) = false := by
  have hall : ∀ m < 64, isPad (Sidecar.base64Char m) = false := by decide +kernel
  exact hall n h

section Loop
variable {n u v : Nat} {t : Text}

theorem decodeLoop_first (hv : v < 64) :
    ∃ n', n' % 64 = v ∧
      decodeLoop n 0 (Sidecar.base64Char v :: t) = decodeLoop n' 6 t := by
  refine ⟨(n * 64 + v) % 2 ^ 32, by omega, ?_⟩
  simp [decodeLoop, idxOf_base64Char hv]

theorem decodeLoop_second (hv : v < 64) (hu : n % 64 = u) :
    ∃ n', n' % 64 = v ∧
      decodeLoop n 6 (Sidecar.base64Char v :: t) =
        (u * 4 + v / 16).toUInt8 :: decodeLoop n' 4 t := by
  refine ⟨(n * 64 + v) % 2 ^ 32, by omega, ?_⟩
  have hbyte : (n * 64 + v) % 2 ^ 32 / 2 ^ 4 % 256 = u * 4 + v / 16 := by omega
  simp only [decodeLoop, idxOf_base64Char hv]
  rw [if_pos (by omega), hbyte]

theorem decodeLoop_third (hv : v < 64) (hu : n % 64 = u) :
    ∃ n', n' % 64 = v ∧
      decodeLoop n 4 (Sidecar.base64Char v :: t) =
        (u % 16 * 16 + v / 4).toUInt8 :: decodeLoop n' 2 t := by
  refine ⟨(n * 64 + v) % 2 ^ 32, by omega, ?_⟩
  have hbyte : (n * 64 + v) % 2 ^ 32 / 2 ^ 2 % 256 = u % 16 * 16 + v / 4 := by omega
  simp only [decodeLoop, idxOf_base64Char hv]
  rw [if_pos (by omega), hbyte]

theorem decodeLoop_fourth (hv : v < 64) (hu : n % 64 = u) :
    ∃ n', decodeLoop n 2 (Sidecar.base64Char v :: t) =
      (u % 4 * 64 + v).toUInt8 :: decodeLoop n' 0 t := by
  refine ⟨(n * 64 + v) % 2 ^ 32, ?_⟩
  have hbyte : (n * 64 + v) % 2 ^ 32 / 2 ^ 0 % 256 = u % 4 * 64 + v := by omega
  simp only [decodeLoop, idxOf_base64Char hv]
  rw [if_pos (by omega), hbyte]

end Loop

/-- What is taken off the end of a text whose beginning ends with something else. -/
theorem rdropWhile_append {α : Type} {p : α → Bool} {x : List α} (hx : x.rdropWhile p = x)
    (y : List α) : (x ++ y).rdropWhile p = x ++ y.rdropWhile p := by
  unfold List.rdropWhile at hx ⊢
  rw [List.reverse_append, List.dropWhile_append]
  split_ifs with h
  · have hy : y.reverse.dropWhile p = [] := List.isEmpty_iff.mp h
    rw [hx, hy]
    simp
  · simp

theorem rdropWhile_concat {α : Type} {p : α → Bool} {x : List α} {a : α} (ha : p a = false) :
    (x ++ [a]).rdropWhile p = x ++ [a] := by
  rw [List.rdropWhile_concat_neg]
  simp [ha]

/-- The characters that `encodeBase64` writes before the padding. -/
theorem unpadded_quad {v w x y : Nat} (hy : y < 64) (rest : Text) :
    (Sidecar.base64Char v :: Sidecar.base64Char w :: Sidecar.base64Char x :: Sidecar.base64Char y ::
        rest).rdropWhile isPad =
      Sidecar.base64Char v :: Sidecar.base64Char w :: Sidecar.base64Char x ::
        Sidecar.base64Char y :: rest.rdropWhile isPad :=
  rdropWhile_append (x := [Sidecar.base64Char v, Sidecar.base64Char w, Sidecar.base64Char x,
    Sidecar.base64Char y]) (rdropWhile_concat (x := [_, _, _]) (not_isPad_base64Char hy)) rest

theorem unpadded_one {v w : Nat} (hw : w < 64) :
    [Sidecar.base64Char v, Sidecar.base64Char w, '=', '='].rdropWhile isPad =
      [Sidecar.base64Char v, Sidecar.base64Char w] :=
  rdropWhile_append (x := [_, _]) (rdropWhile_concat (x := [_]) (not_isPad_base64Char hw)) ['=', '=']

theorem unpadded_two {v w x : Nat} (hx : x < 64) :
    [Sidecar.base64Char v, Sidecar.base64Char w, Sidecar.base64Char x, '='].rdropWhile isPad =
      [Sidecar.base64Char v, Sidecar.base64Char w, Sidecar.base64Char x] :=
  rdropWhile_append (x := [_, _, _]) (rdropWhile_concat (x := [_, _]) (not_isPad_base64Char hx)) ['=']

theorem decodeLoop_encode (acc : Nat) (b : Bytes) :
    decodeLoop acc 0 ((encodeBase64 b).rdropWhile isPad) = b := by
  unfold encodeBase64
  fun_induction Sidecar.base64Encode b generalizing acc with
  | case1 => rfl
  | case2 a =>
    have ha := a.toNat_lt
    obtain ⟨acc₁, h₁, hfirst⟩ := decodeLoop_first (n := acc) (v := a.toNat / 4)
      (t := [Sidecar.base64Char (a.toNat % 4 * 16)]) (by omega)
    obtain ⟨acc₂, h₂, hsecond⟩ := decodeLoop_second (v := a.toNat % 4 * 16) (t := []) (by omega) h₁
    have hbyte : (a.toNat / 4 * 4 + a.toNat % 4 * 16 / 16).toUInt8 = a :=
      Sidecar.toUInt8_eq (by omega)
    rw [unpadded_one (by omega), hfirst, hsecond, hbyte]
    rfl
  | case3 a b =>
    have ha := a.toNat_lt
    have hb := b.toNat_lt
    obtain ⟨acc₁, h₁, hfirst⟩ := decodeLoop_first (n := acc) (v := a.toNat / 4)
      (t := [Sidecar.base64Char (a.toNat % 4 * 16 + b.toNat / 16),
        Sidecar.base64Char (b.toNat % 16 * 4)]) (by omega)
    obtain ⟨acc₂, h₂, hsecond⟩ := decodeLoop_second (v := a.toNat % 4 * 16 + b.toNat / 16)
      (t := [Sidecar.base64Char (b.toNat % 16 * 4)]) (by omega) h₁
    obtain ⟨acc₃, h₃, hthird⟩ := decodeLoop_third (v := b.toNat % 16 * 4) (t := []) (by omega) h₂
    have hone : (a.toNat / 4 * 4 + (a.toNat % 4 * 16 + b.toNat / 16) / 16).toUInt8 = a :=
      Sidecar.toUInt8_eq (by omega)
    have htwo : ((a.toNat % 4 * 16 + b.toNat / 16) % 16 * 16 + b.toNat % 16 * 4 / 4).toUInt8 = b :=
      Sidecar.toUInt8_eq (by omega)
    rw [unpadded_two (by omega), hfirst, hsecond, hthird, hone, htwo]
    rfl
  | case4 a b c rest ih =>
    have ha := a.toNat_lt
    have hb := b.toNat_lt
    have hc := c.toNat_lt
    rw [unpadded_quad (by omega)]
    obtain ⟨acc₁, h₁, hfirst⟩ := decodeLoop_first (n := acc) (v := a.toNat / 4)
      (t := Sidecar.base64Char (a.toNat % 4 * 16 + b.toNat / 16) ::
        Sidecar.base64Char (b.toNat % 16 * 4 + c.toNat / 64) :: Sidecar.base64Char (c.toNat % 64) ::
        (Sidecar.base64Encode rest).rdropWhile isPad) (by omega)
    obtain ⟨acc₂, h₂, hsecond⟩ := decodeLoop_second (v := a.toNat % 4 * 16 + b.toNat / 16)
      (t := Sidecar.base64Char (b.toNat % 16 * 4 + c.toNat / 64) ::
        Sidecar.base64Char (c.toNat % 64) :: (Sidecar.base64Encode rest).rdropWhile isPad)
      (by omega) h₁
    obtain ⟨acc₃, h₃, hthird⟩ := decodeLoop_third (v := b.toNat % 16 * 4 + c.toNat / 64)
      (t := Sidecar.base64Char (c.toNat % 64) :: (Sidecar.base64Encode rest).rdropWhile isPad)
      (by omega) h₂
    obtain ⟨acc₄, hfourth⟩ := decodeLoop_fourth (v := c.toNat % 64)
      (t := (Sidecar.base64Encode rest).rdropWhile isPad) (by omega) h₃
    have hone : (a.toNat / 4 * 4 + (a.toNat % 4 * 16 + b.toNat / 16) / 16).toUInt8 = a :=
      Sidecar.toUInt8_eq (by omega)
    have htwo : ((a.toNat % 4 * 16 + b.toNat / 16) % 16 * 16 +
        (b.toNat % 16 * 4 + c.toNat / 64) / 4).toUInt8 = b := Sidecar.toUInt8_eq (by omega)
    have hthree : ((b.toNat % 16 * 4 + c.toNat / 64) % 4 * 64 + c.toNat % 64).toUInt8 = c :=
      Sidecar.toUInt8_eq (by omega)
    rw [hfirst, hsecond, hthird, hfourth, hone, htwo, hthree, ih acc₄]

/-- Neither the alphabet nor the length is in the way. -/
theorem unpadded_encode (b : Bytes) :
    (∀ c ∈ (encodeBase64 b).rdropWhile isPad, c ∈ B64) ∧
      ((encodeBase64 b).rdropWhile isPad).length % 4 ≠ 1 := by
  have hmem : ∀ n < 64, Sidecar.base64Char n ∈ B64 := fun n hn => Sidecar.base64Char_mem hn
  unfold encodeBase64
  fun_induction Sidecar.base64Encode b with
  | case1 => simp
  | case2 a =>
    have ha := a.toNat_lt
    rw [unpadded_one (by omega)]
    refine ⟨?_, by simp⟩
    simp only [List.forall_mem_cons]
    exact ⟨hmem _ (by omega), hmem _ (by omega), by simp⟩
  | case3 a b =>
    have ha := a.toNat_lt
    have hb := b.toNat_lt
    rw [unpadded_two (by omega)]
    refine ⟨?_, by simp⟩
    simp only [List.forall_mem_cons]
    exact ⟨hmem _ (by omega), hmem _ (by omega), hmem _ (by omega), by simp⟩
  | case4 a b c rest ih =>
    have ha := a.toNat_lt
    have hb := b.toNat_lt
    have hc := c.toNat_lt
    rw [unpadded_quad (by omega)]
    simp only [List.forall_mem_cons, List.length_cons]
    obtain ⟨hrest, hlength⟩ := ih
    refine ⟨⟨hmem _ (by omega), hmem _ (by omega), hmem _ (by omega), hmem _ (by omega), hrest⟩, ?_⟩
    omega

theorem decodeBase64_encode {b : Bytes} (hb : b ≠ []) : decodeBase64 (encodeBase64 b) = some b := by
  have hloop := decodeLoop_encode 0 b
  obtain ⟨hall, hlength⟩ := unpadded_encode b
  unfold decodeBase64
  simp only
  rw [if_neg, hloop]
  simp only [Bool.or_eq_true, decide_eq_true_eq, List.any_eq_true, not_or, not_exists, not_and]
  refine ⟨⟨?_, fun c hc => by simpa using hall c hc⟩, hlength⟩
  intro hnil
  rw [hnil] at hloop
  exact hb hloop.symm

/-! ## Fields that were written -/

theorem be32_sshLength {n : Nat} (h : n < 2 ^ 32) :
    be32 (n / 2 ^ 24).toUInt8 (n / 2 ^ 16).toUInt8 (n / 2 ^ 8).toUInt8 n.toUInt8 = n := by
  unfold be32
  simp only [Nat.toUInt8, UInt8.toNat_ofNat']
  omega

def isShort (p : Bytes) : Bool := p.length < 2 ^ 31

/-- The fields at the front of a blob are read back as far as they are not too long. -/
theorem fieldsLoop_encode {parts : List Bytes} (h : ∀ p ∈ parts, p.length < 2 ^ 32) (rest : Bytes) :
    fieldsLoop parts.length (sshEncode parts ++ rest) = parts.takeWhile isShort := by
  induction parts with
  | nil => simp [fieldsLoop]
  | cons p parts ih =>
    have hp : p.length < 2 ^ 32 := h p List.mem_cons_self
    have hcons : sshEncode (p :: parts) ++ rest =
        (p.length / 2 ^ 24).toUInt8 :: (p.length / 2 ^ 16).toUInt8 :: (p.length / 2 ^ 8).toUInt8 ::
          p.length.toUInt8 :: (p ++ (sshEncode parts ++ rest)) := by
      simp [sshEncode, sshLength]
    rw [hcons, List.length_cons, fieldsLoop]
    simp only [be32_sshLength hp]
    by_cases hshort : p.length < 2 ^ 31
    · rw [if_neg, List.take_left, List.drop_left, ih fun q hq => h q (List.mem_cons_of_mem _ hq)]
      · rw [List.takeWhile_cons_of_pos (by simpa [isShort] using hshort)]
      · rw [List.length_append]
        omega
    · rw [if_pos (Or.inl (by omega)), List.takeWhile_cons_of_neg (by simpa [isShort] using hshort)]

/-- A number of fields is read back, or fewer are. -/
theorem sshFields_encode {parts : List Bytes} (h : ∀ p ∈ parts, p.length < 2 ^ 32) (rest : Bytes)
    {out : List Bytes} (hout : sshFields (sshEncode parts ++ rest) parts.length = some out)
    (hlength : out.length = parts.length) : out = parts := by
  unfold sshFields at hout
  simp only [fieldsLoop_encode h rest] at hout
  split_ifs at hout
  rw [← Option.some.inj hout] at hlength ⊢
  exact (List.takeWhile_prefix _).eq_of_length hlength

end OpsMaxx.Access
