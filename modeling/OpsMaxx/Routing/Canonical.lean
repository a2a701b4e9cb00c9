import OpsMaxx.Routing.Network
import Mathlib.Data.List.TakeDrop

/-!
# The comparable form names the network

For the addresses that are well read `normalizeCidr` is a canonical form of the network, and for no
others: `normalizeCidr_canonical`.
-/

set_option autoImplicit false

namespace OpsMaxx.Routing

open Strings (Text cutAt cutAt_eq toLowerCase trim)
open Net

/-! ## Masks -/

theorem masked_testBit {n bits : Nat} (hn : n < 2 ^ 32) (j : Nat) :
    (if bits = 0 then 0
      else (BitVec.ofNat 32 n &&& (BitVec.allOnes 32 <<< ((32 - bits) % 32))).toNat).testBit j =
      (decide (32 - bits ≤ j) && n.testBit j) := by
  have hhigh : 32 ≤ j → n.testBit j = false := fun hj =>
    Nat.testBit_lt_two_pow (Nat.lt_of_lt_of_le hn (Nat.pow_le_pow_right (by omega) hj))
  split_ifs with hbits
  · subst hbits
    rw [Nat.zero_testBit]
    by_cases hj : 32 ≤ j
    · simp [hhigh hj]
    · simp [hj]
  · rw [BitVec.testBit_toNat, BitVec.getLsbD_and, BitVec.getLsbD_shiftLeft, BitVec.getLsbD_ofNat]
    by_cases hj : j < 32
    · have hmod : (32 - bits) % 32 = 32 - bits := Nat.mod_eq_of_lt (by omega)
      rw [hmod]
      by_cases hle : 32 - bits ≤ j
      · have hone : (BitVec.allOnes 32).getLsbD (j - (32 - bits)) = true := by
          rw [BitVec.getLsbD_allOnes]
          exact decide_eq_true (by omega)
        rw [hone]
        simp [hj, hle, Nat.not_lt.mpr hle]
      · simp [hj, hle, Nat.lt_of_not_le hle]
    · rw [hhigh (Nat.le_of_not_lt hj)]
      simp

/-- Octet by octet, a number of 32 bits. -/
theorem octets_testBit {a b c d : Nat} (hb : b < 2 ^ 8) (hc : c < 2 ^ 8) (hd : d < 2 ^ 8) (j : Nat) :
    (((a * 256 + b) * 256 + c) * 256 + d).testBit j =
      if j < 8 then d.testBit j
      else if j < 16 then c.testBit (j - 8)
      else if j < 24 then b.testBit (j - 16)
      else a.testBit (j - 24) := by
  have hform : ((a * 256 + b) * 256 + c) * 256 + d =
      2 ^ 8 * (2 ^ 8 * (2 ^ 8 * a + b) + c) + d := by omega
  rw [hform, Nat.testBit_two_pow_mul_add _ hd, Nat.testBit_two_pow_mul_add _ hc,
    Nat.testBit_two_pow_mul_add _ hb]
  have h₁ : j - 8 < 8 ↔ j < 16 ∨ j < 8 := by omega
  have h₂ : j - 8 - 8 < 8 ↔ j < 24 ∨ j < 16 := by omega
  split_ifs <;> first | rfl | omega

theorem foldl_octets {ps : List Text} {ns : List Nat} (h : ps.mapM octet = some ns) (acc : Nat) :
    ps.foldl (fun acc o => acc * 256 + ofDecimal o) acc =
      ns.foldl (fun acc n => acc * 256 + n) acc := by
  induction ps generalizing ns acc with
  | nil =>
    cases h
    rfl
  | cons p ps ih =>
    rw [List.mapM_cons] at h
    cases hp : octet p with
    | none => simp [hp] at h
    | some n =>
      cases hps : ps.mapM octet with
      | none => simp [hp, hps] at h
      | some ms =>
        simp only [hp, hps, Option.bind_eq_bind, Option.bind_some, Option.pure_def,
          Option.some.injEq] at h
        subst h
        have hvalue : ofDecimal p = n := by
          rw [← (octet_print hp).2.2]
          exact ofDecimal_toDigits n
        rw [List.foldl_cons, List.foldl_cons, hvalue]
        exact ih hps _

theorem testBit_octet {u p : Nat} (hu : u < 2 ^ 8) (h : u.testBit p = true) : p < 8 := by
  by_contra hge
  rw [Nat.testBit_lt_two_pow (Nat.lt_of_lt_of_le hu
    (Nat.pow_le_pow_right (by omega) (Nat.le_of_not_lt hge)))] at h
  cases h

/-- An octet of a masked number is the masked octet. -/
theorem octet_masked {x u bits i : Nat} (hi : i < 4) (hu : u < 2 ^ 8) (hx : ∀ p, x.testBit p =
    (decide (p < 8) && (decide (32 - bits ≤ 24 - 8 * i + p) && u.testBit p))) :
    x = maskUnit 8 (keep 8 bits i) u := by
  apply Nat.eq_of_testBit_eq
  intro p
  rw [hx, testBit_maskUnit]
  cases hbit : u.testBit p with
  | false => simp
  | true =>
    have hp := testBit_octet hu hbit
    have hiff : 32 - bits ≤ 24 - 8 * i + p ↔ 8 - keep 8 bits i ≤ p := by
      unfold keep
      omega
    simp [hp, hiff]

theorem maskIpv4_spec {t : Text} {octets : List Nat} (h : ipv4 t = some octets)
    (bits : Nat) : maskIpv4 t bits = printIpv4 (mask 8 bits octets) := by
  obtain ⟨hlen, hlt⟩ := ipv4_bound h
  unfold ipv4 at h
  split_ifs at h with hpieces
  unfold maskIpv4
  rw [foldl_octets h]
  match octets, hlen with
  | [a, b, c, d], _ =>
    have ha := hlt a (by simp)
    have hb := hlt b (by simp)
    have hc := hlt c (by simp)
    have hd := hlt d (by simp)
    simp only [List.foldl_cons, List.foldl_nil, Nat.zero_mul, Nat.zero_add]
    have hmasked := @masked_testBit (((a * 256 + b) * 256 + c) * 256 + d) bits
      (by omega)
    generalize (if bits = 0 then 0 else (BitVec.ofNat 32 (((a * 256 + b) * 256 + c) * 256 + d) &&&
      (BitVec.allOnes 32 <<< ((32 - bits) % 32))).toNat) = m at hmasked
    have hoctets := fun j => octets_testBit (a := a) hb hc hd j
    have hfirst : m >>> 24 = maskUnit 8 (keep 8 bits 0) a := octet_masked (by omega) ha fun p => by
      rw [Nat.testBit_shiftRight, hmasked, hoctets]
      simp only [show ¬ 24 + p < 8 by omega, show ¬ 24 + p < 16 by omega,
        show ¬ 24 + p < 24 by omega, if_false, Nat.add_sub_cancel_left, Nat.mul_zero, Nat.sub_zero]
      cases hbit : a.testBit p with
      | false => simp
      | true => simp [testBit_octet ha hbit]
    have hlater : ∀ i < 4, 0 < i → ∀ u, u < 2 ^ 8 → (∀ p < 8,
        (((a * 256 + b) * 256 + c) * 256 + d).testBit (24 - 8 * i + p) = u.testBit p) →
        m >>> (24 - 8 * i) &&& 255 = maskUnit 8 (keep 8 bits i) u := by
      intro i hi hpos u hu hunit
      refine octet_masked hi hu fun p => ?_
      rw [Nat.testBit_and, Nat.testBit_shiftRight, hmasked, show 255 = 2 ^ 8 - 1 from rfl,
        Nat.testBit_two_pow_sub_one]
      by_cases hp : p < 8
      · simp [hp, hunit p hp]
      · simp [hp]
    have hsecond := hlater 1 (by omega) (by omega) b hb fun p hp => by
      rw [hoctets]
      simp only [show ¬ 24 - 8 * 1 + p < 8 by omega, show ¬ 24 - 8 * 1 + p < 16 by omega,
        show 24 - 8 * 1 + p < 24 by omega, if_false, if_true]
      congr 1
      omega
    have hthird := hlater 2 (by omega) (by omega) c hc fun p hp => by
      rw [hoctets]
      simp only [show ¬ 24 - 8 * 2 + p < 8 by omega, show 24 - 8 * 2 + p < 16 by omega, if_false,
        if_true]
      congr 1
      omega
    have hfourth := hlater 3 (by omega) (by omega) d hd fun p hp => by
      rw [hoctets]
      simp only [show 24 - 8 * 3 + p < 8 by omega, if_true]
      congr 1
      omega
    simp only [Nat.mul_one, Nat.reduceMul, Nat.reduceSub, Nat.shiftRight_zero] at hsecond hthird hfourth
    rw [hfirst, hsecond, hthird, hfourth]
    simp [mask]

theorem maskGroup_spec {g : Nat} (hg : g < 2 ^ 16) (bits i : Nat) :
    maskGroup bits i g = maskUnit 16 (keep 16 bits i) g := by
  apply Nat.eq_of_testBit_eq
  intro p
  have hlt : g.testBit p = true → p < 16 := by
    intro hbit
    by_contra hge
    rw [Nat.testBit_lt_two_pow (Nat.lt_of_lt_of_le hg
      (Nat.pow_le_pow_right (by omega) (Nat.le_of_not_lt hge)))] at hbit
    cases hbit
  unfold maskGroup
  simp only
  rw [testBit_maskUnit, show min (bits - i * 16) 16 = keep 16 bits i from rfl]
  cases hbit : g.testBit p with
  | false => split_ifs <;> simp [hbit]
  | true =>
    have hp := hlt hbit
    split_ifs with hkeep
    · simp [hkeep, Nat.not_le.mpr hp]
    · have hones : ∀ j, (0xffff : Nat).testBit j = decide (j < 16) := fun j => by
        rw [show 0xffff = 2 ^ 16 - 1 from rfl, Nat.testBit_two_pow_sub_one]
      rw [Nat.testBit_and, Nat.testBit_and, Nat.testBit_shiftLeft, hones, hones, hbit]
      have hinner : p - (16 - keep 16 bits i) < 16 := by omega
      simp [hp, hinner]

theorem maskIpv6_spec {t : Text} {x : Ipv6Text} (h : ipv6 t = some x) (bits : Nat) :
    maskIpv6 t bits = (readGroups x).map fun groups => printIpv6 (mask 16 bits groups) := by
  unfold maskIpv6
  rw [groupsOf_read h]
  cases hread : readGroups x with
  | none => rfl
  | some groups =>
    obtain ⟨hlen, hlt⟩ := (ipv6_proper h).read hread
    have hmask : (groups.mapIdx fun i g => maskGroup bits i g) = mask 16 bits groups := by
      apply List.ext_getElem (by simp)
      intro i hi hi'
      simp only [List.getElem_mapIdx, mask]
      exact maskGroup_spec (hlt _ (List.getElem_mem _)) bits i
    have hprint := @ipv6_printGroups (mask 16 bits groups) (by simpa using hlen)
      (mask_lt hlt)
    simp [hmask, canonicalIpv6, hprint, Ipv6Text.groups]

/-! ## From the text to the network -/

/-- The text of an address with what stands behind its slash. -/
def written (addr : Text) : Option Text → Text
  | none => addr
  | some s => addr ++ '/' :: s

/-- A destination is an address and a suffix. -/
theorem Denotes.parts {t : Text} {c : Cidr} (h : Denotes t c) :
    ∃ addr suffix, t = written addr suffix ∧ readAddress addr = some c.addr ∧
      (∀ s ∈ suffix, isDigits s = true) ∧ c.bits = (suffix.map ofDecimal).getD c.addr.size ∧
      c.bits ≤ c.addr.size := by
  cases h with
  | @bare t a h => exact ⟨t, none, rfl, h, by simp, rfl, le_refl _⟩
  | @withPrefix t s a h hs hb => exact ⟨t, some s, rfl, h, by simpa using hs, rfl, hb⟩

theorem readAddress_chars {t : Text} {a : Address} (h : readAddress t = some a) :
    ∀ c ∈ t, isAddressChar c = true := by
  unfold readAddress at h
  cases hv4 : ipv4 t with
  | some octets => exact ipv4_addressChar hv4
  | none =>
    rw [hv4] at h
    obtain ⟨x, hx, -⟩ := Option.map_eq_some_iff.mp h
    exact ipv6_chars hx

theorem addressChar_cases {c : Char} (h : isAddressChar c = true) :
    c ∈ "0123456789abcdefABCDEF:.".toList := by
  unfold isAddressChar isHex hexValue at h
  have hrange : ∀ lo hi : Nat, lo ≤ c.toNat → c.toNat ≤ hi → hi < 55296 →
      (∀ n ≤ hi, lo ≤ n → Char.ofNat n ∈ "0123456789abcdefABCDEF:.".toList) →
      c ∈ "0123456789abcdefABCDEF:.".toList := by
    intro lo hi hlo hhi hval hall
    rw [← Char.ofNat_toNat c]
    exact hall c.toNat hhi hlo
  split_ifs at h with h1 h2 h3
  · exact hrange 48 57 h1.1 h1.2 (by omega) (by decide)
  · exact hrange 97 102 h2.1 h2.2 (by omega) (by decide)
  · exact hrange 65 70 h3.1 h3.2 (by omega) (by decide)
  · simp only [Option.isSome_none, Bool.false_or, Bool.or_eq_true, decide_eq_true_eq] at h
    obtain rfl | rfl := h <;> decide

theorem written_chars {addr : Text} {suffix : Option Text} {a : Address}
    (h : readAddress addr = some a) (hs : ∀ s ∈ suffix, isDigits s = true) :
    ∀ c ∈ written addr suffix, c ∈ "0123456789abcdefABCDEF:./".toList := by
  have haddr : ∀ c ∈ addr, c ∈ "0123456789abcdefABCDEF:./".toList := by
    intro c hc
    have hmem := addressChar_cases (readAddress_chars h c hc)
    clear hc
    revert hmem
    revert c
    decide
  intro c hc
  cases suffix with
  | none => exact haddr c hc
  | some s =>
    rw [written, List.mem_append, List.mem_cons] at hc
    obtain hc | rfl | hc := hc
    · exact haddr c hc
    · decide
    · have hdigits := hs s rfl
      unfold isDigits at hdigits
      rw [Bool.and_eq_true, List.all_eq_true] at hdigits
      have hmem := addressChar_cases (c := c) (by
        simp [isAddressChar, isDigit_hex (hdigits.2 c hc)])
      clear hc
      revert hmem
      revert c
      decide

theorem lastSlash_none {t : Text} (h : '/' ∉ t) : lastSlash t = none := by
  have hall : ∀ c ∈ t.reverse, (decide (c ≠ '/')) = true := by
    intro c hc
    simp only [decide_eq_true_eq]
    rintro rfl
    exact h (List.mem_reverse.mp hc)
  unfold lastSlash
  rw [List.span_eq_takeWhile_dropWhile, List.takeWhile_eq_self_iff.mpr hall,
    List.dropWhile_eq_nil_iff.mpr hall]

theorem lastSlash_some {addr s : Text} (h : '/' ∉ s) :
    lastSlash (addr ++ '/' :: s) = some (addr, s) := by
  have hall : ∀ c ∈ s.reverse, (decide (c ≠ '/')) = true := by
    intro c hc
    simp only [decide_eq_true_eq]
    rintro rfl
    exact h (List.mem_reverse.mp hc)
  have hrev : (addr ++ '/' :: s).reverse = s.reverse ++ '/' :: addr.reverse := by simp
  unfold lastSlash
  rw [hrev, List.span_eq_takeWhile_dropWhile, List.takeWhile_append_of_pos hall,
    List.dropWhile_append_of_pos hall]
  simp

theorem isDigits_slash {s : Text} (h : isDigits s = true) : '/' ∉ s := by
  unfold isDigits at h
  rw [Bool.and_eq_true, List.all_eq_true] at h
  intro hmem
  have hdigit := h.2 '/' hmem
  revert hdigit
  decide

theorem lower_written {addr : Text} {suffix : Option Text} (hs : ∀ s ∈ suffix, isDigits s = true) :
    toLowerCase (written addr suffix) = written (toLowerCase addr) suffix := by
  cases suffix with
  | none => rfl
  | some s =>
    have hdigits := hs s rfl
    unfold isDigits at hdigits
    rw [Bool.and_eq_true] at hdigits
    have hlower := toLowerCase_digits hdigits.2
    unfold toLowerCase at hlower ⊢
    simp only [written, List.map_append, List.map_cons, hlower]
    rfl

/-- What `normalizeCidr` has to work with, for the text of a route. -/
theorem normalizeCidr_parts {addr : Text} {suffix : Option Text} {a : Address}
    (h : readAddress addr = some a) (hs : ∀ s ∈ suffix, isDigits s = true)
    (family : Option Family) : normalizeCidr (written addr suffix) family =
      normalizeParts (toLowerCase (written addr suffix)) (toLowerCase addr) suffix := by
  have hchars := written_chars h hs
  have htrim : trim (written addr suffix) = written addr suffix := by
    apply Strings.trim_of_ink
    intro c hc
    have hmem := hchars c hc
    clear hc
    revert hmem
    revert c
    decide
  have hne : addr ≠ [] := by
    rintro rfl
    cases h
  have hnil : toLowerCase (written addr suffix) ≠ [] := by
    rw [lower_written hs]
    obtain ⟨c, cs, rfl⟩ := List.exists_cons_of_ne_nil hne
    cases suffix <;> simp [written, toLowerCase]
  have hdefault : toLowerCase (written addr suffix) ≠ "default".toList := by
    intro heq
    have hmem : 'u' ∈ toLowerCase (written addr suffix) := by
      rw [heq]
      decide
    obtain ⟨c, hc, hlower⟩ := List.mem_map.mp hmem
    have hin := hchars c hc
    clear hc
    revert hlower
    revert hin
    revert c
    decide
  have hslash : '/' ∉ toLowerCase addr := by
    intro hmem
    obtain ⟨c, hc, hlower⟩ := List.mem_map.mp hmem
    have hin := addressChar_cases (readAddress_chars h c hc)
    clear hc
    revert hlower
    revert hin
    revert c
    decide
  unfold normalizeCidr
  simp only [htrim]
  rw [if_neg hnil, if_neg hdefault, lower_written hs]
  cases suffix with
  | none => simp only [written, lastSlash_none hslash]
  | some s => simp only [written, lastSlash_some (isDigits_slash (hs s rfl))]

theorem readAddress_lower {t : Text} : readAddress (toLowerCase t) = readAddress t := by
  simp only [readAddress, ipv4_lower, ipv6_lower]

theorem isIPv6_of_chars {t : Text} {x : Ipv6Text} (h : ipv6 t = some x) :
    isIPv6 t = true ∧ '%' ∉ t := by
  have hpercent : ∀ c ∈ t, (decide (c ≠ '%')) = true := by
    intro c hc
    have hmem := addressChar_cases (ipv6_chars h c hc)
    clear hc
    revert hmem
    revert c
    decide
  constructor
  · unfold isIPv6
    rw [List.takeWhile_eq_self_iff.mpr hpercent, List.dropWhile_eq_nil_iff.mpr hpercent, h]
    rfl
  · intro hmem
    simpa using hpercent '%' hmem

/-- What `normalizeCidr` makes of a route: its masked groups as they are read, and nothing but
lower case of an address it does not read. -/
theorem normalizeCidr_spec {t : Text} {c : Cidr} (h : Denotes t c) (family : Option Family) :
    normalizeCidr t family =
      match c.addr with
      | .v4 octets => withBits (printIpv4 (mask 8 c.bits octets)) c.bits
      | .v6 x =>
        match readGroups x with
        | some groups => withBits (printIpv6 (mask 16 c.bits groups)) c.bits
        | none => toLowerCase t := by
  obtain ⟨addr, suffix, rfl, hread, hs, hbits, hle⟩ := h.parts
  have hany : (suffix.any fun s => !isDigits s) = false := by
    cases suffix with
    | none => rfl
    | some s => simp [hs s rfl]
  rw [normalizeCidr_parts hread hs, normalizeParts, hany, if_neg Bool.false_ne_true]
  rw [← readAddress_lower] at hread
  unfold readAddress at hread
  cases hv4 : ipv4 (toLowerCase addr) with
  | some octets =>
    rw [hv4] at hread
    obtain ⟨a, n⟩ := c
    obtain rfl := Option.some.inj hread
    simp only [isIPv4, hv4, Option.isSome_some, if_true]
    simp only at hbits hle
    rw [show Address.size (.v4 octets) = 32 from rfl] at hbits hle
    rw [← hbits, if_neg (Nat.not_lt.mpr hle), maskIpv4_spec hv4]
  | none =>
    rw [hv4] at hread
    obtain ⟨x, hx, heq⟩ := Option.map_eq_some_iff.mp hread
    obtain ⟨a, n⟩ := c
    simp only at heq
    subst heq
    obtain ⟨hv6, hpercent⟩ := isIPv6_of_chars hx
    simp only [isIPv4, hv4, Option.isSome_none, Bool.false_eq_true, if_false, hv6, hpercent,
      not_false_eq_true, decide_true, Bool.and_self, if_true]
    simp only at hbits hle
    rw [show Address.size (.v6 x) = 128 from rfl] at hbits hle
    rw [← hbits, if_neg (Nat.not_lt.mpr hle), maskIpv6_spec hx]
    cases readGroups x <;> rfl

/-! ## Printed routes -/

theorem ipv6_colon {t : Text} {x : Ipv6Text} (h : ipv6 t = some x) : ':' ∈ t := by
  by_contra hcolon
  obtain ⟨-, hquad, -, htrail, hlen⟩ | ⟨head, tail, hcut, -⟩ := ipv6_cases h
  · obtain ⟨hcount, -⟩ := parse_groupsQuad hquad
    rw [List.splitOn_eq_singleton hcolon, List.length_singleton] at hcount
    unfold Ipv6Text.written at hlen
    rw [htrail, List.length_nil] at hlen
    split_ifs at hcount hlen <;> omega
  · rw [cutAt_eq hcut] at hcolon
    simp at hcolon

theorem ipv4_of_ipv6 {t : Text} {x : Ipv6Text} (h : ipv6 t = some x) : ipv4 t = none := by
  cases hv4 : ipv4 t with
  | none => rfl
  | some octets => exact absurd (ipv6_colon h) (ipv4_piece hv4).2

theorem isDigits_toDigits (n : Nat) : isDigits (Nat.toDigits 10 n) = true := by
  have hall : (Nat.toDigits 10 n).all Char.isDigit = true :=
    List.all_eq_true.mpr (digits_toDigits n)
  simp [isDigits, hall]

theorem denotes_withBits {t : Text} {a : Address} (h : readAddress t = some a) {n : Nat}
    (hn : n ≤ a.size) : Denotes (withBits t n) ⟨a, n⟩ := by
  have hdenotes := Denotes.withPrefix h (isDigits_toDigits n) (by rwa [ofDecimal_toDigits])
  rwa [ofDecimal_toDigits] at hdenotes

theorem denotes_printIpv4 {octets : List Nat} (hlen : octets.length = 4)
    (hlt : ∀ u ∈ octets, u < 2 ^ 8) {n : Nat} (hn : n ≤ 32) :
    Denotes (withBits (printIpv4 octets) n) ⟨.v4 octets, n⟩ := by
  apply denotes_withBits _ hn
  rw [readAddress, ipv4_print hlen hlt]

theorem denotes_printIpv6 {groups : List Nat} (hlen : groups.length = 8)
    (hlt : ∀ g ∈ groups, g < 2 ^ 16) {n : Nat} (hn : n ≤ 128) :
    ∃ x, Denotes (withBits (printIpv6 groups) n) ⟨.v6 x, n⟩ ∧ x.groups = groups ∧
      readGroups x = some groups := by
  obtain ⟨x, hx, hgroups, hquad⟩ := ipv6_print hlen hlt
  refine ⟨x, denotes_withBits ?_ hn, hgroups, ?_⟩
  · rw [readAddress, ipv4_of_ipv6 hx, hx]
    rfl
  · rw [readGroups, hquad, hgroups]

/-! ## The canonical form -/

theorem Denotes.v4 {t : Text} {octets : List Nat} {n : Nat} (h : Denotes t ⟨.v4 octets, n⟩) :
    octets.length = 4 ∧ (∀ u ∈ octets, u < 2 ^ 8) ∧ n ≤ 32 := by
  obtain ⟨addr, suffix, -, hread, -, -, hle⟩ := h.parts
  unfold readAddress at hread
  cases hv4 : ipv4 addr with
  | some o =>
    rw [hv4] at hread
    cases hread
    exact ⟨(ipv4_bound hv4).1, (ipv4_bound hv4).2, hle⟩
  | none =>
    rw [hv4] at hread
    obtain ⟨x, -, heq⟩ := Option.map_eq_some_iff.mp hread
    cases heq

theorem Denotes.v6 {t : Text} {x : Ipv6Text} {n : Nat} (h : Denotes t ⟨.v6 x, n⟩) :
    Proper x ∧ n ≤ 128 := by
  obtain ⟨addr, suffix, -, hread, -, -, hle⟩ := h.parts
  unfold readAddress at hread
  cases hv4 : ipv4 addr with
  | some o =>
    rw [hv4] at hread
    cases hread
  | none =>
    rw [hv4] at hread
    obtain ⟨y, hy, heq⟩ := Option.map_eq_some_iff.mp hread
    cases heq
    exact ⟨ipv6_proper hy, hle⟩

/-- A text denotes one route. -/
theorem Denotes.unique {t : Text} {c d : Cidr} (h : Denotes t c) (h' : Denotes t d) : c = d := by
  obtain ⟨addr, suffix, rfl, hread, hs, hbits, -⟩ := h.parts
  obtain ⟨addr', suffix', heq, hread', hs', hbits', -⟩ := h'.parts
  have hslash : ∀ {t : Text} {a : Address}, readAddress t = some a → '/' ∉ t := by
    intro t a ha hmem
    have hchar := addressChar_cases (readAddress_chars ha '/' hmem)
    revert hchar
    decide
  have hlast : ∀ {t : Text} {a : Address} {s : Option Text}, readAddress t = some a →
      (∀ r ∈ s, isDigits r = true) → lastSlash (written t s) = s.map fun r => (t, r) := by
    intro t a s ha hs
    cases s with
    | none => exact lastSlash_none (hslash ha)
    | some r => exact lastSlash_some (isDigits_slash (hs r rfl))
  have hsame := hlast hread hs
  rw [heq, hlast hread' hs'] at hsame
  obtain ⟨a, n⟩ := c
  obtain ⟨b, m⟩ := d
  have hparts : addr = addr' ∧ suffix = suffix' := by
    cases suffix with
    | none =>
      cases suffix' with
      | none => exact ⟨heq, rfl⟩
      | some s' => cases hsame
    | some s =>
      cases suffix' with
      | none => cases hsame
      | some s' =>
        obtain ⟨rfl, rfl⟩ := Prod.mk.inj (Option.some.inj hsame)
        exact ⟨rfl, rfl⟩
  obtain ⟨rfl, rfl⟩ := hparts
  rw [hread] at hread'
  obtain rfl := Option.some.inj hread'
  simp only at hbits hbits'
  rw [hbits, hbits']

theorem Denotes.lower {t : Text} {c : Cidr} (h : Denotes t c) : Denotes (toLowerCase t) c := by
  cases h with
  | bare h => exact .bare (readAddress_lower.trans h)
  | @withPrefix t s a h hs hb =>
    have hlower := @lower_written t (some s) (by simpa using hs)
    simp only [written] at hlower
    rw [hlower]
    exact .withPrefix (readAddress_lower.trans h) hs hb

/-- The form of a well-read route denotes its network. -/
theorem normalizeCidr_denotes {t : Text} {c : Cidr} (h : Denotes t c) (hwell : WellRead c)
    (family : Option Family) :
    ∃ d, Denotes (normalizeCidr t family) d ∧ WellRead d ∧ SameNetwork d c := by
  rw [normalizeCidr_spec h]
  obtain ⟨a, n⟩ := c
  cases a with
  | v4 octets =>
    obtain ⟨hlen, hlt, hn⟩ := h.v4
    exact ⟨_, denotes_printIpv4 (by simpa using hlen) (mask_lt hlt) hn, trivial, rfl, rfl,
      sameBits_mask (show 0 < 8 by omega) n octets⟩
  | v6 x =>
    obtain ⟨hproper, hn⟩ := h.v6
    obtain ⟨groups, hread, hsame⟩ := hwell
    obtain ⟨hlen, hlt⟩ := hproper.read hread
    simp only [hread]
    obtain ⟨y, hy, hgroups, hready⟩ :=
      @denotes_printIpv6 (mask 16 n groups) (by simpa using hlen) (mask_lt hlt) n hn
    refine ⟨_, hy, ⟨_, hready, ?_⟩, rfl, rfl, ?_⟩
    · simp only [hgroups]
      exact .refl _
    · show SameBits 16 n y.groups x.groups
      rw [hgroups]
      exact (sameBits_mask (by omega) n groups).trans hsame

/-- Well-read routes to one network have one form. -/
theorem normalizeCidr_same {t t' : Text} {c d : Cidr} (h : Denotes t c) (h' : Denotes t' d)
    (hwell : WellRead c) (hwell' : WellRead d) (hsame : SameNetwork c d)
    (family family' : Option Family) : normalizeCidr t family = normalizeCidr t' family' := by
  rw [normalizeCidr_spec h, normalizeCidr_spec h']
  obtain ⟨a, n⟩ := c
  obtain ⟨b, m⟩ := d
  obtain ⟨hwidth, hbits, hbit⟩ := hsame
  simp only at hwidth hbits hbit
  subst hbits
  cases a with
  | v4 octets =>
    cases b with
    | v6 y => cases hwidth
    | v4 octets' =>
      obtain ⟨hlen, hlt, -⟩ := h.v4
      obtain ⟨hlen', hlt', -⟩ := h'.v4
      simp only
      rw [(mask_eq_iff (by omega) (hlen.trans hlen'.symm) hlt hlt').mpr hbit]
  | v6 x =>
    cases b with
    | v4 octets' => cases hwidth
    | v6 y =>
      obtain ⟨groups, hread, hx⟩ := hwell
      obtain ⟨groups', hread', hy⟩ := hwell'
      obtain ⟨hlen, hlt⟩ := h.v6.1.read hread
      obtain ⟨hlen', hlt'⟩ := h'.v6.1.read hread'
      simp only [hread, hread']
      rw [(mask_eq_iff (by omega) (hlen.trans hlen'.symm) hlt hlt').mpr
        ((hx.trans hbit).trans hy.symm)]

/-- Two well-read routes have one form just when they are routes to one network, and a form is its
own form. Every route of which that is so is well read. -/
theorem normalizeCidr_canonical {t : Text} {c : Cidr} (h : Denotes t c) (family : Option Family) :
    WellRead c ↔
      (∀ t' c' family', Denotes t' c' → WellRead c' →
        (normalizeCidr t family = normalizeCidr t' family' ↔ SameNetwork c c')) ∧
      ∀ family', normalizeCidr (normalizeCidr t family) family' = normalizeCidr t family := by
  constructor
  · intro hwell
    obtain ⟨d, hd, hdwell, hdc⟩ := normalizeCidr_denotes h hwell family
    refine ⟨?_, fun family' => normalizeCidr_same hd h hdwell hwell hdc family' family⟩
    intro t' c' family' h' hwell'
    constructor
    · intro heq
      obtain ⟨d', hd', -, hdc'⟩ := normalizeCidr_denotes h' hwell' family'
      rw [← heq] at hd'
      obtain rfl := hd.unique hd'
      exact hdc.symm.trans hdc'
    · intro hsame
      exact normalizeCidr_same h h' hwell hwell' hsame family family'
  · rintro ⟨hforms, -⟩
    obtain ⟨a, n⟩ := c
    cases a with
    | v4 octets => trivial
    | v6 x =>
      obtain ⟨hproper, hn⟩ := h.v6
      have hform := normalizeCidr_spec h family
      cases hread : readGroups x with
      | none =>
        -- The route is left as it is, but another spelling of it is not.
        simp only [hread] at hform
        obtain ⟨y, hy, hgroups, hready⟩ := denotes_printIpv6 hproper.groups.1 hproper.groups.2 hn
        have hwell : WellRead ⟨.v6 y, n⟩ := ⟨_, hready, by rw [hgroups]; exact .refl _⟩
        have hsame : SameNetwork ⟨.v6 x, n⟩ ⟨.v6 y, n⟩ :=
          ⟨rfl, rfl, by
            show SameBits 16 n x.groups y.groups
            rw [hgroups]
            exact .refl _⟩
        have heq := (hforms _ _ none hy hwell).mpr hsame
        obtain ⟨d, hd, hdwell, -⟩ := normalizeCidr_denotes hy hwell none
        rw [← heq, hform] at hd
        obtain rfl := h.lower.unique hd
        exact hdwell
      | some groups =>
        -- The route has the form of what is read.
        simp only [hread] at hform
        obtain ⟨hlen, hlt⟩ := hproper.read hread
        obtain ⟨y, hy, hgroups, hready⟩ := denotes_printIpv6 hlen hlt hn
        have hwell : WellRead ⟨.v6 y, n⟩ := ⟨_, hready, by rw [hgroups]; exact .refl _⟩
        have heq : normalizeCidr t family =
            normalizeCidr (withBits (printIpv6 groups) n) none := by
          rw [hform, normalizeCidr_spec hy]
          simp only [hready]
        have hsame := ((hforms _ _ none hy hwell).mp heq).same
        refine ⟨groups, hread, ?_⟩
        have hbits : SameBits 16 n x.groups y.groups := hsame
        rw [hgroups] at hbits
        exact hbits.symm

/-- An address pasted from the interface, and the network of it. -/
theorem normalizeCidr_canonical_pasted :
    normalizeCidr "10.8.0.1/24".toList none = normalizeCidr "10.8.0.0/24".toList none := by
  have hpasted : Denotes "10.8.0.1/24".toList ⟨.v4 [10, 8, 0, 1], 24⟩ :=
    .withPrefix (t := "10.8.0.1".toList) (s := "24".toList) (by decide +kernel) (by decide)
      (by decide)
  have hnetwork : Denotes "10.8.0.0/24".toList ⟨.v4 [10, 8, 0, 0], 24⟩ :=
    .withPrefix (t := "10.8.0.0".toList) (s := "24".toList) (by decide +kernel) (by decide)
      (by decide)
  refine (((normalizeCidr_canonical hpasted none).mp trivial).1 _ _ none hnetwork trivial).mpr ?_
  exact ⟨rfl, rfl, show ∀ i < 24, bit 8 [10, 8, 0, 1] i = bit 8 [10, 8, 0, 0] i by decide⟩

/-- `::1.2.3.4` is taken for `::1`. -/
theorem normalizeCidr_confuses : ∃ t t' c c', Denotes t c ∧ Denotes t' c' ∧
    ¬ (normalizeCidr t none = normalizeCidr t' none ↔ SameNetwork c c') := by
  refine ⟨"::1.2.3.4".toList, "::1".toList, ⟨.v6 ⟨[], true, [], some [1, 2, 3, 4]⟩, 128⟩,
    ⟨.v6 ⟨[], true, [1], none⟩, 128⟩, .bare (by decide +kernel), .bare (by decide +kernel), ?_⟩
  intro h
  have heq : normalizeCidr "::1.2.3.4".toList none = normalizeCidr "::1".toList none := by
    decide +kernel
  have hbit := (h.mp heq).same 103 (by decide)
  revert hbit
  decide

end OpsMaxx.Routing
