import Mathlib.Data.Nat.Bitwise
import Mathlib.Data.List.Basic
import OpsMaxx.Strings.Find

/-!
# The first bits of a sequence of units

An address is a sequence of units of one width, its bits counted from the highest one of the first
unit. Masking keeps the first bits and clears the others; two sequences have the same first bits
just when they are the same once masked.
-/

set_option autoImplicit false

namespace OpsMaxx.Net

/-- Bit `i`, where a unit has `w` bits. -/
def bit (w : Nat) (units : List Nat) (i : Nat) : Bool :=
  (units.getD (i / w) 0).testBit (w - 1 - i % w)

def SameBits (w n : Nat) (a b : List Nat) : Prop := ∀ i < n, bit w a i = bit w b i

/-- A unit of which the highest `k` bits are kept. -/
def maskUnit (w k u : Nat) : Nat := u >>> (w - k) <<< (w - k)

/-- How many bits of unit `i` are among the first `n`. -/
def keep (w n i : Nat) : Nat := min (n - i * w) w

def mask (w n : Nat) (units : List Nat) : List Nat :=
  units.mapIdx fun i u => maskUnit w (keep w n i) u

section
variable {w n : Nat} {a b c : List Nat}

theorem SameBits.refl (a : List Nat) : SameBits w n a a := fun _ _ => rfl

theorem SameBits.symm (h : SameBits w n a b) : SameBits w n b a := fun i hi => (h i hi).symm

theorem SameBits.trans (h : SameBits w n a b) (h' : SameBits w n b c) : SameBits w n a c :=
  fun i hi => (h i hi).trans (h' i hi)

@[simp] theorem length_mask (w n : Nat) (a : List Nat) : (mask w n a).length = a.length := by
  simp [mask]

theorem testBit_maskUnit (w k u j : Nat) :
    (maskUnit w k u).testBit j = (decide (w - k ≤ j) && u.testBit j) := by
  by_cases hj : w - k ≤ j
  · simp [maskUnit, hj]
  · simp [maskUnit, hj]

theorem maskUnit_lt {k u : Nat} (h : u < 2 ^ w) : maskUnit w k u < 2 ^ w := by
  apply Nat.lt_of_le_of_lt _ h
  unfold maskUnit
  rw [Nat.shiftRight_eq_div_pow, Nat.shiftLeft_eq]
  exact Nat.div_mul_le_self _ _

theorem mask_lt (h : ∀ u ∈ a, u < 2 ^ w) : ∀ u ∈ mask w n a, u < 2 ^ w := by
  intro u hu
  obtain ⟨i, hi, rfl⟩ := List.mem_mapIdx.mp hu
  exact maskUnit_lt (h _ (List.getElem_mem hi))

theorem getD_mask (i : Nat) :
    (mask w n a).getD i 0 = maskUnit w (keep w n i) (a.getD i 0) := by
  by_cases hi : i < a.length
  · simp [mask, List.getD_eq_getElem?_getD, hi]
  · have hnone : a[i]? = none := List.getElem?_eq_none (Nat.le_of_not_lt hi)
    simp [mask, List.getD_eq_getElem?_getD, hnone, maskUnit]

/-- The kept bits of a unit are the ones that are among the first. -/
theorem kept_iff (hw : 0 < w) (i : Nat) : w - keep w n (i / w) ≤ w - 1 - i % w ↔ i < n := by
  have hmod := Nat.mod_lt i hw
  have hdiv := Nat.div_add_mod' i w
  unfold keep
  omega

theorem bit_mask (hw : 0 < w) (i : Nat) : bit w (mask w n a) i = (decide (i < n) && bit w a i) := by
  unfold bit
  rw [getD_mask, testBit_maskUnit]
  congr 1
  exact decide_eq_decide.mpr (kept_iff hw i)

theorem sameBits_mask (hw : 0 < w) (n : Nat) (a : List Nat) : SameBits w n (mask w n a) a := by
  intro i hi
  rw [bit_mask hw, decide_eq_true hi, Bool.true_and]

/-- A sequence of units is its bits. -/
theorem ext_bits (hw : 0 < w) (hlen : a.length = b.length) (ha : ∀ u ∈ a, u < 2 ^ w)
    (hb : ∀ u ∈ b, u < 2 ^ w) (h : ∀ i, bit w a i = bit w b i) : a = b := by
  apply List.ext_getElem hlen
  intro i hia hib
  apply Nat.eq_of_testBit_eq
  intro j
  by_cases hj : j < w
  · have hbit := h (i * w + (w - 1 - j))
    unfold bit at hbit
    have hdiv : (i * w + (w - 1 - j)) / w = i := by
      rw [Nat.mul_comm, Nat.mul_add_div hw, Nat.div_eq_of_lt (by omega), Nat.add_zero]
    have hmod : (i * w + (w - 1 - j)) % w = w - 1 - j := by
      rw [Nat.mul_comm, Nat.mul_add_mod, Nat.mod_eq_of_lt (by omega)]
    rw [hdiv, hmod, show w - 1 - (w - 1 - j) = j by omega] at hbit
    simpa [List.getD_eq_getElem?_getD, hia, hib] using hbit
  · have hpow : 2 ^ w ≤ 2 ^ j := Nat.pow_le_pow_right (by omega) (by omega)
    rw [Nat.testBit_lt_two_pow (Nat.lt_of_lt_of_le (ha _ (List.getElem_mem hia)) hpow),
      Nat.testBit_lt_two_pow (Nat.lt_of_lt_of_le (hb _ (List.getElem_mem hib)) hpow)]

theorem mask_eq_iff (hw : 0 < w) (hlen : a.length = b.length) (ha : ∀ u ∈ a, u < 2 ^ w)
    (hb : ∀ u ∈ b, u < 2 ^ w) : mask w n a = mask w n b ↔ SameBits w n a b := by
  constructor
  · intro h
    have hsame := (sameBits_mask hw n a).symm
    rw [h] at hsame
    exact hsame.trans (sameBits_mask hw n b)
  · intro h
    apply ext_bits hw (by simp [hlen]) (mask_lt ha) (mask_lt hb)
    intro i
    rw [bit_mask hw, bit_mask hw]
    by_cases hi : i < n
    · rw [h i hi]
    · simp [hi]

end

end OpsMaxx.Net

/-!
## Addresses and their spellings

An IPv4 address is four octets. An IPv6 address is eight groups; a run of zero groups may be left
out between two colons, and the last two groups may be written as the octets of an IPv4 address.
`printIpv6` leaves out the first one of the longest runs.
-/

namespace OpsMaxx.Net

open Strings (Text cutAt)

/-! ## Numbers -/

def hexValue (c : Char) : Option Nat :=
  if '0' ≤ c ∧ c ≤ '9' then some (c.toNat - 48)
  else if 'a' ≤ c ∧ c ≤ 'f' then some (c.toNat - 87)
  else if 'A' ≤ c ∧ c ≤ 'F' then some (c.toNat - 55)
  else none

def isHex (c : Char) : Bool := (hexValue c).isSome

def ofHex (t : Text) : Nat := t.foldl (fun n c => n * 16 + (hexValue c).getD 0) 0

/-- One to four hexadecimal digits. -/
def hexGroup (t : Text) : Option Nat :=
  if t ≠ [] ∧ t.length ≤ 4 ∧ t.all isHex = true then some (ofHex t) else none

def ofDecimal (t : Text) : Nat := Nat.ofDigitChars 10 t 0

/-- `25[0-5]|2[0-4]\d|1\d\d|[1-9]\d|\d`. -/
def octet (t : Text) : Option Nat :=
  if t ≠ [] ∧ t.length ≤ 3 ∧ t.all Char.isDigit = true ∧ (t.length = 1 ∨ t.head? ≠ some '0') ∧
      ofDecimal t ≤ 255 then
    some (ofDecimal t)
  else none

/-! ## Addresses -/

def ipv4 (t : Text) : Option (List Nat) :=
  if (t.splitOn '.').length = 4 then (t.splitOn '.').mapM octet else none

/-- What an IPv6 address is written as. -/
structure Ipv6Text where
  lead : List Nat
  compressed : Bool
  trail : List Nat
  quad : Option (List Nat)
  deriving DecidableEq

def quadGroups : List Nat → List Nat
  | [a, b, c, d] => [a * 256 + b, c * 256 + d]
  | _ => []

def Ipv6Text.written (x : Ipv6Text) : Nat :=
  x.lead.length + x.trail.length + if x.quad.isSome then 2 else 0

def Ipv6Text.groups (x : Ipv6Text) : List Nat :=
  x.lead ++ (if x.compressed then List.replicate (8 - x.written) 0 else []) ++ x.trail ++
    (x.quad.map quadGroups).getD []

def pieces (t : Text) : List Text := if t = [] then [] else t.splitOn ':'

/-- Groups, of which the last two may be a quad. -/
def groupsQuad : List Text → Option (List Nat × Option (List Nat))
  | [] => some ([], none)
  | p :: ps =>
    match hexGroup p with
    | some g => (groupsQuad ps).map fun x => (g :: x.1, x.2)
    | none => if ps = [] then (ipv4 p).map fun q => ([], some q) else none

def ipv6 (t : Text) : Option Ipv6Text :=
  match cutAt [':', ':'] t with
  | none =>
    match groupsQuad (t.splitOn ':') with
    | some (lead, quad) =>
      if lead.length + (if quad.isSome then 2 else 0) = 8 then some ⟨lead, false, [], quad⟩ else none
    | none => none
  | some (head, tail) =>
    match (pieces head).mapM hexGroup, groupsQuad (pieces tail) with
    | some lead, some (trail, quad) =>
      if lead.length + trail.length + (if quad.isSome then 2 else 0) ≤ 7 then
        some ⟨lead, true, trail, quad⟩
      else none
    | _, _ => none

/-! ## Printing -/

def join (sep : Char) (ts : List Text) : Text := [sep].intercalate ts

def printIpv4 (octets : List Nat) : Text := join '.' (octets.map (Nat.toDigits 10))

def printGroups (groups : List Nat) : Text := join ':' (groups.map (Nat.toDigits 16))

/-- How many zero groups there are from a place on. -/
def zerosAt (groups : List Nat) (i : Nat) : Nat := ((groups.drop i).takeWhile (· = 0)).length

/-- The first place with the most zero groups. -/
def longestZeros (groups : List Nat) : Nat :=
  (List.range groups.length).foldl
    (fun best i => if zerosAt groups best < zerosAt groups i then i else best) 0

def printIpv6 (groups : List Nat) : Text :=
  let i := longestZeros groups
  let n := zerosAt groups i
  if 2 ≤ n then printGroups (groups.take i) ++ [':', ':'] ++ printGroups (groups.drop (i + n))
  else printGroups groups

/-! ## Numbers that were printed -/

theorem hexValue_digitChar {d : Nat} (h : d < 16) : hexValue d.digitChar = some d := by
  revert d
  decide

theorem ofHex_append (s : Text) (c : Char) :
    ofHex (s ++ [c]) = ofHex s * 16 + (hexValue c).getD 0 := by
  simp [ofHex]

theorem ofHex_toDigits (n : Nat) :
    ofHex (Nat.toDigits 16 n) = n ∧ ∀ c ∈ Nat.toDigits 16 n, isHex c = true := by
  induction n using Nat.strong_induction_on with
  | _ n ih =>
    by_cases hn : n < 16
    · rw [Nat.toDigits_of_lt_base hn]
      constructor
      · simp [ofHex, hexValue_digitChar hn]
      · intro c hc
        rw [List.mem_singleton.mp hc, isHex, hexValue_digitChar hn]
        rfl
    · obtain ⟨hvalue, hhex⟩ := ih (n / 16) (by omega)
      have hlt : n % 16 < 16 := Nat.mod_lt n (by omega)
      rw [Nat.toDigits_of_base_le (by omega) (Nat.le_of_not_lt hn)]
      constructor
      · rw [ofHex_append, hvalue, hexValue_digitChar hlt, Option.getD_some]
        omega
      · intro c hc
        rw [List.mem_append, List.mem_singleton] at hc
        obtain hc | rfl := hc
        · exact hhex c hc
        · rw [isHex, hexValue_digitChar hlt]
          rfl

theorem hexGroup_toDigits {n : Nat} (h : n < 2 ^ 16) : hexGroup (Nat.toDigits 16 n) = some n := by
  obtain ⟨hvalue, hhex⟩ := ofHex_toDigits n
  have hlen : (Nat.toDigits 16 n).length ≤ 4 :=
    (Nat.length_toDigits_le_iff (by omega) (by omega)).mpr (by omega)
  rw [hexGroup, if_pos ⟨Nat.toDigits_ne_nil, hlen, List.all_eq_true.mpr hhex⟩, hvalue]

theorem ofDecimal_toDigits (n : Nat) : ofDecimal (Nat.toDigits 10 n) = n :=
  Nat.ofDigitChars_toDigits (by omega) (by omega)

theorem digits_toDigits (n : Nat) : ∀ c ∈ Nat.toDigits 10 n, c.isDigit = true :=
  fun _ hc => Nat.isDigit_of_mem_toDigits (by omega) (by omega) hc

theorem octet_toDigits {n : Nat} (h : n < 2 ^ 8) : octet (Nat.toDigits 10 n) = some n := by
  revert n
  decide +kernel

/-! ## Joined pieces -/

theorem join_cons_cons (sep : Char) (p q : Text) (ps : List Text) :
    join sep (p :: q :: ps) = p ++ sep :: join sep (q :: ps) := by
  simp [join, List.intercalate_cons_cons]

theorem splitOn_join {sep : Char} {ps : List Text} (h : ∀ p ∈ ps, sep ∉ p) (hne : ps ≠ []) :
    (join sep ps).splitOn sep = ps :=
  List.splitOn_intercalate sep h hne

/-- Pieces that are not empty have no two colons in a row before, between or behind them. -/
theorem cutAt_join {ps : List Text} (h : ∀ p ∈ ps, p ≠ [] ∧ ':' ∉ p) (hne : ps ≠ []) (s : Text) :
    cutAt [':', ':'] (join ':' ps ++ s) =
      (cutAt [':', ':'] s).map fun found => (join ':' ps ++ found.1, found.2) := by
  induction ps with
  | nil => exact absurd rfl hne
  | cons p ps ih =>
    have hp := (h p List.mem_cons_self).2
    cases ps with
    | nil =>
      have hjoin : join ':' [p] = p := by simp [join]
      rw [hjoin]
      exact Strings.cutAt_append p s hp
    | cons q ps =>
      have hrest := ih (fun r hr => h r (List.mem_cons_of_mem p hr)) (by simp)
      have hq := h q (by simp)
      have hlater : ¬ [':', ':'] <+: ':' :: (join ':' (q :: ps) ++ s) := by
        intro hpre
        obtain ⟨c, cs, rfl⟩ := List.exists_cons_of_ne_nil hq.1
        have hhead : ∃ cs', join ':' ((c :: cs) :: ps) = c :: cs' := by
          cases ps with
          | nil => exact ⟨cs, by simp [join]⟩
          | cons r ps => exact ⟨_, join_cons_cons ':' (c :: cs) r ps⟩
        obtain ⟨cs', hcs'⟩ := hhead
        rw [hcs'] at hpre
        have hcolon := (List.cons_prefix_cons.mp (List.cons_prefix_cons.mp hpre).2).1
        rw [← hcolon] at hq
        exact hq.2 List.mem_cons_self
      rw [join_cons_cons, List.append_assoc, List.cons_append, Strings.cutAt_append p _ hp,
        Strings.cutAt_later hlater, hrest]
      cases cutAt [':', ':'] s with
      | none => rfl
      | some found => simp

/-! ## What was printed is read -/

theorem mapM_toDigits {f : Text → Option Nat} {b : Nat} {ns : List Nat}
    (h : ∀ n ∈ ns, f (Nat.toDigits b n) = some n) : (ns.map (Nat.toDigits b)).mapM f = some ns := by
  induction ns with
  | nil => rfl
  | cons n ns ih =>
    have hn := h n List.mem_cons_self
    have hns := ih fun m hm => h m (List.mem_cons_of_mem n hm)
    simp [hn, hns]

theorem toDigits_ne {b n : Nat} {c : Char} {p : Char → Bool} (h : ∀ d ∈ Nat.toDigits b n, p d = true)
    (hc : p c = false) : c ∉ Nat.toDigits b n := by
  intro hmem
  rw [h c hmem] at hc
  cases hc

theorem ipv4_print {octets : List Nat} (hlen : octets.length = 4) (h : ∀ u ∈ octets, u < 2 ^ 8) :
    ipv4 (printIpv4 octets) = some octets := by
  have hdot : ∀ p ∈ octets.map (Nat.toDigits 10), '.' ∉ p := by
    intro p hp
    obtain ⟨n, -, rfl⟩ := List.mem_map.mp hp
    exact toDigits_ne (digits_toDigits n) (by decide)
  have hne : octets.map (Nat.toDigits 10) ≠ [] := by
    intro hnil
    rw [List.map_eq_nil_iff] at hnil
    simp [hnil] at hlen
  rw [ipv4, printIpv4, splitOn_join hdot hne, List.length_map, if_pos hlen]
  exact mapM_toDigits fun n hn => octet_toDigits (h n hn)

section Groups
variable {groups : List Nat}

theorem hexDigits_piece : ∀ p ∈ groups.map (Nat.toDigits 16), p ≠ [] ∧ ':' ∉ p := by
  intro p hp
  obtain ⟨n, -, rfl⟩ := List.mem_map.mp hp
  exact ⟨Nat.toDigits_ne_nil, toDigits_ne (ofHex_toDigits n).2 (by decide)⟩

theorem pieces_print (groups : List Nat) :
    pieces (printGroups groups) = groups.map (Nat.toDigits 16) := by
  cases groups with
  | nil => rfl
  | cons g gs =>
    have hsplit : (printGroups (g :: gs)).splitOn ':' = (g :: gs).map (Nat.toDigits 16) :=
      splitOn_join (fun p hp => (hexDigits_piece p hp).2) (by simp)
    have hne : printGroups (g :: gs) ≠ [] := by
      intro hnil
      rw [hnil] at hsplit
      have hg := congrArg List.head? hsplit
      simp at hg
    rw [pieces, if_neg hne, hsplit]

theorem groupsQuad_print (h : ∀ g ∈ groups, g < 2 ^ 16) :
    groupsQuad (groups.map (Nat.toDigits 16)) = some (groups, none) := by
  induction groups with
  | nil => rfl
  | cons g gs ih =>
    have hg := hexGroup_toDigits (h g List.mem_cons_self)
    have hgs := ih fun m hm => h m (List.mem_cons_of_mem g hm)
    simp [groupsQuad, hg, hgs]

theorem ipv6_printGroups (hlen : groups.length = 8) (h : ∀ g ∈ groups, g < 2 ^ 16) :
    ipv6 (printGroups groups) = some ⟨groups, false, [], none⟩ := by
  have hne : groups.map (Nat.toDigits 16) ≠ [] := by
    intro hnil
    rw [List.map_eq_nil_iff] at hnil
    simp [hnil] at hlen
  have hcut := cutAt_join (@hexDigits_piece groups) hne []
  rw [List.append_nil, show cutAt [':', ':'] ([] : Text) = none from rfl, Option.map_none] at hcut
  have hsplit := splitOn_join (fun p hp => (@hexDigits_piece groups p hp).2) hne
  unfold ipv6 printGroups
  rw [hcut, hsplit, groupsQuad_print h]
  simp [hlen]

theorem ipv6_printCompressed {lead trail : List Nat} (hlen : lead.length + trail.length ≤ 7)
    (hlead : ∀ g ∈ lead, g < 2 ^ 16) (htrail : ∀ g ∈ trail, g < 2 ^ 16) :
    ipv6 (printGroups lead ++ [':', ':'] ++ printGroups trail) =
      some ⟨lead, true, trail, none⟩ := by
  have hcut : cutAt [':', ':'] (printGroups lead ++ ([':', ':'] ++ printGroups trail)) =
      some (printGroups lead, printGroups trail) := by
    have hhere : cutAt [':', ':'] ([':', ':'] ++ printGroups trail) =
        some ([], printGroups trail) := Strings.cutAt_here (List.prefix_append _ _)
    cases lead with
    | nil => exact hhere
    | cons g gs =>
      have hjoin := cutAt_join (@hexDigits_piece (g :: gs)) (by simp)
        ([':', ':'] ++ printGroups trail)
      rw [hhere, Option.map_some, List.append_nil] at hjoin
      exact hjoin
  unfold ipv6
  rw [List.append_assoc, hcut]
  simp only [pieces_print, groupsQuad_print htrail,
    mapM_toDigits fun n hn => hexGroup_toDigits (hlead n hn)]
  simp [hlen]

theorem zerosAt_spec (groups : List Nat) (i : Nat) :
    groups = groups.take i ++ (List.replicate (zerosAt groups i) 0 ++
      groups.drop (i + zerosAt groups i)) := by
  have htake : (groups.drop i).take (zerosAt groups i) = List.replicate (zerosAt groups i) 0 := by
    apply List.eq_replicate_iff.mpr
    have hpre : (groups.drop i).takeWhile (· = 0) = (groups.drop i).take (zerosAt groups i) :=
      List.prefix_iff_eq_take.mp (List.takeWhile_prefix _)
    rw [← hpre]
    refine ⟨rfl, fun x hx => ?_⟩
    simpa using List.mem_takeWhile_imp hx
  rw [← htake, ← List.drop_drop, List.take_append_drop, List.take_append_drop]

/-- An address that was printed is read back. -/
theorem ipv6_print (hlen : groups.length = 8) (h : ∀ g ∈ groups, g < 2 ^ 16) :
    ∃ x, ipv6 (printIpv6 groups) = some x ∧ x.groups = groups ∧ x.quad = none := by
  have hspec := zerosAt_spec groups (longestZeros groups)
  unfold printIpv6
  simp only
  generalize longestZeros groups = i at hspec ⊢
  generalize zerosAt groups i = n at hspec ⊢
  split_ifs with hn
  · have hlens : (groups.take i).length + (groups.drop (i + n)).length + n = 8 := by
      rw [← hlen]
      conv => rhs; rw [hspec]
      simp only [List.length_append, List.length_replicate]
      omega
    refine ⟨_, ipv6_printCompressed (by omega) (fun g hg => h g (List.mem_of_mem_take hg))
      (fun g hg => h g (List.mem_of_mem_drop hg)), ?_, rfl⟩
    have hgap : 8 - ((groups.take i).length + (groups.drop (i + n)).length) = n := by omega
    conv => rhs; rw [hspec]
    simp only [Ipv6Text.groups, Ipv6Text.written, if_true, Option.isSome_none, Bool.false_eq_true,
      if_false, Nat.add_zero, Option.map_none, Option.getD_none, List.append_nil, hgap,
      List.append_assoc]
  · exact ⟨_, ipv6_printGroups hlen h, by simp [Ipv6Text.groups], rfl⟩

end Groups

end OpsMaxx.Net
