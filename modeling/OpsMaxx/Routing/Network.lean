import OpsMaxx.Net.Spelled

/-!
# The comparable form of a route

`normalizeCidr` brings a destination into the form the route table prints: the network address of
its prefix, in lower case, an IPv6 address the way the platform's URL parser prints it.
-/

set_option autoImplicit false

namespace OpsMaxx.Routing

open Strings (Text cutAt toLowerCase trim)
open Net

inductive Family
  | inet
  | inet6
  deriving DecidableEq

def isIPv4 (addr : Text) : Bool := (ipv4 addr).isSome

def isZoneChar (c : Char) : Bool := c.isAlphanum || c = '-' || c = '.' || c = ':'

/-- A zone may follow a percent sign. -/
def isIPv6 (addr : Text) : Bool :=
  let zone := addr.dropWhile (· ≠ '%')
  (ipv6 (addr.takeWhile (· ≠ '%'))).isSome && (zone = [] || (zone ≠ ['%'] && zone.tail.all isZoneChar))

/-- The bits of the four octets, and the shifts and masks of 32-bit integers. A shift by 32 is one
by 0. -/
def maskIpv4 (addr : Text) (bits : Nat) : Text :=
  let n := (addr.splitOn '.').foldl (fun acc o => acc * 256 + ofDecimal o) 0
  let masked : Nat :=
    if bits = 0 then 0
    else (BitVec.ofNat 32 n &&& (BitVec.allOnes 32 <<< ((32 - bits) % 32))).toNat
  printIpv4 [masked >>> 24, masked >>> 16 &&& 255, masked >>> 8 &&& 255, masked &&& 255]

/-- The host of a URL with that address. -/
def canonicalIpv6 (addr : Text) : Option Text := (ipv6 addr).map fun x => printIpv6 x.groups

/-- `parseInt(p, 16)`, of a text without a sign, white space or `0x` before its digits: what follows
the digits is not read. -/
def parseIntHex (p : Text) : Option Nat :=
  if p.takeWhile isHex = [] then none else some (ofHex (p.takeWhile isHex))

/-- The eight groups of an IPv6 address with `::` expanded. -/
def groupsOf (addr : Text) : Option (List Nat) :=
  match cutAt [':', ':'] addr with
  | none =>
    if (pieces addr).length = 8 then (pieces addr).mapM parseIntHex else none
  | some (head, tail) =>
    if (cutAt [':', ':'] tail).isSome then none
    else
      let lead := pieces head
      let trail := pieces tail
      if 8 < lead.length + trail.length then none
      else
        (lead ++ List.replicate (8 - lead.length - trail.length) ['0'] ++ trail).mapM parseIntHex

def maskGroup (bits i g : Nat) : Nat :=
  let kept := min (bits - i * 16) 16
  if kept = 0 then 0 else g &&& (0xffff <<< (16 - kept) &&& 0xffff)

def maskIpv6 (addr : Text) (bits : Nat) : Option Text :=
  match groupsOf addr with
  | none => none
  | some groups => canonicalIpv6 (printGroups (groups.mapIdx fun i g => maskGroup bits i g))

/-- What is before the last slash, and what is behind it. -/
def lastSlash (t : Text) : Option (Text × Text) :=
  match t.reverse.span (· ≠ '/') with
  | (_, []) => none
  | (suffix, _ :: addr) => some (addr.reverse, suffix.reverse)

def isDigits (t : Text) : Bool := t ≠ [] && t.all Char.isDigit

def withBits (addr : Text) (bits : Nat) : Text := addr ++ '/' :: Nat.toDigits 10 bits

/-- What is made of an address and the number behind its slash, if it has one. -/
def normalizeParts (t addr : Text) (suffix : Option Text) : Text :=
  if suffix.any fun s => !isDigits s then t
  else if isIPv4 addr then
    let bits := (suffix.map ofDecimal).getD 32
    if 32 < bits then t else withBits (maskIpv4 addr bits) bits
  else if isIPv6 addr && '%' ∉ addr then
    let bits := (suffix.map ofDecimal).getD 128
    if 128 < bits then t
    else
      match maskIpv6 addr bits with
      | some net => withBits net bits
      | none => t
  else t

def normalizeCidr (destination : Text) (family : Option Family) : Text :=
  let t := toLowerCase (trim destination)
  if t = [] then []
  else if t = "default".toList then
    if family.getD .inet = .inet6 then "::/0".toList else "0.0.0.0/0".toList
  else
    match lastSlash t with
    | none => normalizeParts t t none
    | some (addr, suffix) => normalizeParts t addr (some suffix)

/-!
## What a route denotes

An address with a number of bits denotes the network of the addresses that begin with those bits.
`groupsOf` has the groups of an IPv6 address that is written in groups throughout; where its last two
groups are written as octets it reads them as one group, or does not read the address at all.
-/

/-! ## Networks -/

inductive Address
  | v4 (octets : List Nat)
  | v6 (x : Ipv6Text)
  deriving DecidableEq

def Address.width : Address → Nat
  | .v4 _ => 8
  | .v6 _ => 16

def Address.units : Address → List Nat
  | .v4 octets => octets
  | .v6 x => x.groups

/-- How many bits there are. -/
def Address.size : Address → Nat
  | .v4 _ => 32
  | .v6 _ => 128

def readAddress (t : Text) : Option Address :=
  match ipv4 t with
  | some octets => some (.v4 octets)
  | none => (ipv6 t).map .v6

structure Cidr where
  addr : Address
  bits : Nat

/-- A bare address, or one with a prefix length that it has bits for. -/
inductive Denotes : Text → Cidr → Prop
  | bare {t : Text} {a : Address} (h : readAddress t = some a) : Denotes t ⟨a, a.size⟩
  | withPrefix {t s : Text} {a : Address} (h : readAddress t = some a) (hs : isDigits s = true)
    (hb : ofDecimal s ≤ a.size) : Denotes (t ++ '/' :: s) ⟨a, ofDecimal s⟩

/-- The same family, the same length and the same bits up to it. -/
structure SameNetwork (c d : Cidr) : Prop where
  width : c.addr.width = d.addr.width
  bits : c.bits = d.bits
  same : SameBits c.addr.width c.bits c.addr.units d.addr.units

theorem SameNetwork.symm {c d : Cidr} (h : SameNetwork c d) : SameNetwork d c where
  width := h.width.symm
  bits := h.bits.symm
  same := by
    rw [← h.width, ← h.bits]
    exact h.same.symm

theorem SameNetwork.trans {c d e : Cidr} (h : SameNetwork c d) (h' : SameNetwork d e) :
    SameNetwork c e where
  width := h.width.trans h'.width
  bits := h.bits.trans h'.bits
  same := by
    apply h.same.trans
    rw [h.width, h.bits]
    exact h'.same

/-! ## Octets that are read as a group -/

/-- The groups of an address, where octets at its end count as one group, which the digits of the
first octet are, read as hexadecimal. -/
def readGroups (x : Ipv6Text) : Option (List Nat) :=
  match x.quad with
  | none => some x.groups
  | some q =>
    if x.compressed then
      some (x.lead ++ List.replicate (7 - x.lead.length - x.trail.length) 0 ++ x.trail ++
        [ofHex (Nat.toDigits 10 (q.headD 0))])
    else none

/-- Reading octets so makes no difference among the bits of the prefix. -/
def WellRead (c : Cidr) : Prop :=
  match c.addr with
  | .v4 _ => True
  | .v6 x => ∃ groups, readGroups x = some groups ∧ SameBits 16 c.bits groups x.groups

/-! ## What is read is bounded -/

theorem hexValue_lt {c : Char} : (hexValue c).getD 0 < 16 := by
  unfold hexValue
  have hle : ∀ a b : Char, a ≤ b → a.toNat ≤ b.toNat := fun a b h => h
  split_ifs with h1 h2 h3
  · have := hle _ _ h1.2
    simp only [Option.getD_some]
    have : ('9' : Char).toNat = 57 := rfl
    omega
  · have := hle _ _ h2.2
    simp only [Option.getD_some]
    have : ('f' : Char).toNat = 102 := rfl
    omega
  · have := hle _ _ h3.2
    simp only [Option.getD_some]
    have : ('F' : Char).toNat = 70 := rfl
    omega
  · simp

theorem ofHex_lt (t : Text) : ofHex t < 16 ^ t.length := by
  induction t using List.reverseRecOn with
  | nil => simp [ofHex]
  | append_singleton t c ih =>
    have hc := hexValue_lt (c := c)
    rw [ofHex_append, List.length_append, List.length_singleton, Nat.pow_succ]
    omega

theorem hexGroup_lt {t : Text} {g : Nat} (h : hexGroup t = some g) : g < 2 ^ 16 := by
  unfold hexGroup at h
  split_ifs at h with ht
  obtain rfl := Option.some.inj h
  have hpow : 16 ^ t.length ≤ 16 ^ 4 := Nat.pow_le_pow_right (by omega) ht.2.1
  exact Nat.lt_of_lt_of_le (ofHex_lt t) hpow

theorem octet_lt {t : Text} {n : Nat} (h : octet t = some n) : n < 2 ^ 8 := by
  unfold octet at h
  split_ifs at h with ht
  obtain rfl := Option.some.inj h
  have hle := ht.2.2.2.2
  omega

theorem mapM_length {f : Text → Option Nat} {ps : List Text} {ns : List Nat}
    (h : ps.mapM f = some ns) : ns.length = ps.length := by
  induction ps generalizing ns with
  | nil =>
    cases h
    rfl
  | cons p ps ih =>
    rw [List.mapM_cons] at h
    cases hp : f p with
    | none => simp [hp] at h
    | some n =>
      cases hps : ps.mapM f with
      | none => simp [hp, hps] at h
      | some ms =>
        simp [hp, hps] at h
        rw [← h, List.length_cons, List.length_cons, ih hps]

theorem mapM_bound {f : Text → Option Nat} {N : Nat} (hf : ∀ t n, f t = some n → n < N)
    {ps : List Text} {ns : List Nat} (h : ps.mapM f = some ns) : ∀ n ∈ ns, n < N := by
  induction ps generalizing ns with
  | nil =>
    cases h
    simp
  | cons p ps ih =>
    rw [List.mapM_cons] at h
    cases hp : f p with
    | none => simp [hp] at h
    | some n =>
      cases hps : ps.mapM f with
      | none => simp [hp, hps] at h
      | some ms =>
        simp [hp, hps] at h
        subst h
        intro m hm
        rw [List.mem_cons] at hm
        obtain rfl | hm := hm
        · exact hf p m hp
        · exact ih hps m hm

theorem ipv4_bound {t : Text} {octets : List Nat} (h : ipv4 t = some octets) :
    octets.length = 4 ∧ ∀ u ∈ octets, u < 2 ^ 8 := by
  unfold ipv4 at h
  split_ifs at h with hlen
  exact ⟨(mapM_length h).trans hlen, mapM_bound (fun _ _ => octet_lt) h⟩

/-- The pieces of an address that has groups and a quad. -/
theorem groupsQuad_spec {ps : List Text} {gs : List Nat} {quad : Option (List Nat)}
    (h : groupsQuad ps = some (gs, quad)) :
    (∀ g ∈ gs, g < 2 ^ 16) ∧ (∀ q ∈ quad, q.length = 4 ∧ ∀ u ∈ q, u < 2 ^ 8) ∧
      ∃ qs, ps = qs ++ (if quad.isSome then [ps.getLastD []] else []) ∧
        qs.mapM hexGroup = some gs ∧ ∀ q ∈ quad, ipv4 (ps.getLastD []) = some q := by
  induction ps generalizing gs quad with
  | nil =>
    cases h
    exact ⟨by simp, by simp, [], rfl, rfl, by simp⟩
  | cons p ps ih =>
    unfold groupsQuad at h
    cases hp : hexGroup p with
    | some g =>
      rw [hp] at h
      obtain ⟨⟨gs', quad'⟩, hps, heq⟩ := Option.map_eq_some_iff.mp h
      cases heq
      obtain ⟨hgs, hquad, qs, hqs, hmap, hlast⟩ := ih hps
      refine ⟨?_, hquad, p :: qs, ?_, ?_, ?_⟩
      · intro m hm
        rw [List.mem_cons] at hm
        obtain rfl | hm := hm
        · exact hexGroup_lt hp
        · exact hgs m hm
      · cases quad' with
        | none => simpa using hqs
        | some q =>
          have hne : ps ≠ [] := by
            intro hnil
            subst hnil
            cases hps
          obtain ⟨r, rs, rfl⟩ := List.exists_cons_of_ne_nil hne
          simpa using hqs
      · simp [hp, hmap]
      · intro q hq
        have hne : ps ≠ [] := by
          intro hnil
          subst hnil
          cases hps
          cases hq
        obtain ⟨r, rs, rfl⟩ := List.exists_cons_of_ne_nil hne
        simpa using hlast q hq
    | none =>
      simp only [hp] at h
      split_ifs at h with hnil
      subst hnil
      obtain ⟨q, hq, heq⟩ := Option.map_eq_some_iff.mp h
      cases heq
      refine ⟨by simp, ?_, [], rfl, rfl, ?_⟩
      · intro q' hq'
        cases hq'
        exact ipv4_bound hq
      · intro q' hq'
        cases hq'
        exact hq

/-- What `ipv6` makes of a text. -/
structure Proper (x : Ipv6Text) : Prop where
  lead : ∀ g ∈ x.lead, g < 2 ^ 16
  trail : ∀ g ∈ x.trail, g < 2 ^ 16
  quad : ∀ q ∈ x.quad, q.length = 4 ∧ ∀ u ∈ q, u < 2 ^ 8
  compressed : x.compressed = true → x.written ≤ 7
  full : x.compressed = false → x.trail = [] ∧ x.written = 8

theorem ipv6_cases {t : Text} {x : Ipv6Text} (h : ipv6 t = some x) :
    (cutAt [':', ':'] t = none ∧ groupsQuad (t.splitOn ':') = some (x.lead, x.quad) ∧
        x.compressed = false ∧ x.trail = [] ∧ x.written = 8) ∨
      ∃ head tail, cutAt [':', ':'] t = some (head, tail) ∧
        (pieces head).mapM hexGroup = some x.lead ∧
        groupsQuad (pieces tail) = some (x.trail, x.quad) ∧ x.compressed = true ∧ x.written ≤ 7 := by
  unfold ipv6 at h
  cases hcut : cutAt [':', ':'] t with
  | none =>
    rw [hcut] at h
    cases hquad : groupsQuad (t.splitOn ':') with
    | none => simp [hquad] at h
    | some y =>
      simp only [hquad, Option.ite_none_right_eq_some] at h
      obtain ⟨hlen, h⟩ := h
      cases h
      exact Or.inl ⟨rfl, rfl, rfl, rfl, by simpa [Ipv6Text.written] using hlen⟩
  | some found =>
    obtain ⟨head, tail⟩ := found
    rw [hcut] at h
    cases hlead : (pieces head).mapM hexGroup with
    | none => simp [hlead] at h
    | some lead =>
      cases hquad : groupsQuad (pieces tail) with
      | none => simp [hlead, hquad] at h
      | some y =>
        simp only [hlead, hquad, Option.ite_none_right_eq_some] at h
        obtain ⟨hlen, h⟩ := h
        cases h
        exact Or.inr ⟨head, tail, rfl, hlead, hquad, rfl, hlen⟩

theorem ipv6_proper {t : Text} {x : Ipv6Text} (h : ipv6 t = some x) : Proper x := by
  obtain ⟨-, hquad, hcompressed, htrail, hlen⟩ | ⟨head, tail, -, hlead, hquad, hcompressed, hlen⟩ :=
    ipv6_cases h
  · obtain ⟨hgs, hq, -⟩ := groupsQuad_spec hquad
    exact ⟨hgs, by simp [htrail], hq, by simp [hcompressed], fun _ => ⟨htrail, hlen⟩⟩
  · obtain ⟨hgs, hq, -⟩ := groupsQuad_spec hquad
    exact ⟨mapM_bound (fun _ _ => hexGroup_lt) hlead, hgs, hq, fun _ => hlen, by simp [hcompressed]⟩

theorem quadGroups_spec {q : List Nat} (h : q.length = 4 ∧ ∀ u ∈ q, u < 2 ^ 8) :
    (quadGroups q).length = 2 ∧ ∀ g ∈ quadGroups q, g < 2 ^ 16 := by
  obtain ⟨hlen, hlt⟩ := h
  match q, hlen with
  | [a, b, c, d], _ =>
    have ha := hlt a (by simp)
    have hb := hlt b (by simp)
    have hc := hlt c (by simp)
    have hd := hlt d (by simp)
    refine ⟨rfl, fun g hg => ?_⟩
    simp only [quadGroups, List.mem_cons, List.not_mem_nil, or_false] at hg
    omega

theorem Proper.groups {x : Ipv6Text} (h : Proper x) :
    x.groups.length = 8 ∧ ∀ g ∈ x.groups, g < 2 ^ 16 := by
  have hquad : ((x.quad.map quadGroups).getD []).length = (if x.quad.isSome then 2 else 0) ∧
      ∀ g ∈ (x.quad.map quadGroups).getD [], g < 2 ^ 16 := by
    cases hq : x.quad with
    | none => simp
    | some q => simpa using quadGroups_spec (h.quad q hq)
  obtain ⟨hlen, hlt⟩ := hquad
  constructor
  · unfold Ipv6Text.groups
    simp only [List.length_append, hlen]
    cases hc : x.compressed with
    | true =>
      have hle := h.compressed hc
      unfold Ipv6Text.written at hle ⊢
      simp only [if_true, List.length_replicate]
      omega
    | false =>
      obtain ⟨htrail, hfull⟩ := h.full hc
      simpa [Ipv6Text.written, htrail] using hfull
  · intro g hg
    unfold Ipv6Text.groups at hg
    simp only [List.mem_append] at hg
    obtain ((hg | hg) | hg) | hg := hg
    · exact h.lead g hg
    · split_ifs at hg
      · rw [List.eq_of_mem_replicate hg]
        decide
      · cases hg
    · exact h.trail g hg
    · exact hlt g hg

/-! ## What `groupsOf` reads -/

theorem hexGroup_all {t : Text} {g : Nat} (h : hexGroup t = some g) :
    t ≠ [] ∧ (∀ c ∈ t, isHex c = true) ∧ ofHex t = g := by
  unfold hexGroup at h
  split_ifs at h with ht
  exact ⟨ht.1, List.all_eq_true.mp ht.2.2, Option.some.inj h⟩

theorem parseIntHex_group {t : Text} {g : Nat} (h : hexGroup t = some g) :
    parseIntHex t = some g := by
  obtain ⟨hne, hall, hvalue⟩ := hexGroup_all h
  have htake : t.takeWhile isHex = t := List.takeWhile_eq_self_iff.mpr hall
  rw [parseIntHex, htake, if_neg hne, hvalue]

/-- Digits that do not begin with a zero are the digits of their number. -/
theorem toDigits_ofDecimal {t : Text} (hne : t ≠ []) (hdigits : ∀ c ∈ t, c.isDigit = true)
    (hhead : t.head? ≠ some '0') : 0 < ofDecimal t ∧ Nat.toDigits 10 (ofDecimal t) = t := by
  induction t using List.reverseRecOn with
  | nil => exact absurd rfl hne
  | append_singleton t c ih =>
    have hc := hdigits c (by simp)
    obtain ⟨d, hd, rfl⟩ : ∃ d < 10, c = Nat.digitChar d := by
      obtain ⟨hlo, hhi⟩ := Strings.isDigit_iff.mp hc
      refine ⟨c.toNat - 48, by omega, ?_⟩
      have hof := (Char.ofNat_toNat c).symm
      generalize c.toNat = n at hlo hhi hof
      subst hof
      interval_cases n <;> rfl
    have hvalue : ofDecimal (t ++ [d.digitChar]) = 10 * ofDecimal t + d := by
      rw [ofDecimal, Nat.ofDigitChars_append, Nat.ofDigitChars_cons_digitChar_of_lt_ten hd,
        Nat.ofDigitChars_nil, ofDecimal]
    rw [hvalue]
    by_cases ht : t = []
    · subst ht
      have hpos : d ≠ 0 := by
        rintro rfl
        exact hhead rfl
      rw [show ofDecimal [] = 0 from rfl, Nat.mul_zero, Nat.zero_add, Nat.toDigits_of_lt_base hd]
      exact ⟨by omega, rfl⟩
    · obtain ⟨hpos, hprint⟩ := ih ht (fun c hc => hdigits c (List.mem_append_left _ hc)) (by
        obtain ⟨a, s, rfl⟩ := List.exists_cons_of_ne_nil ht
        simpa using hhead)
      refine ⟨by omega, ?_⟩
      rw [← Nat.toDigits_append_toDigits (by omega) hpos hd, hprint, Nat.toDigits_of_lt_base hd]

theorem octet_print {t : Text} {n : Nat} (h : octet t = some n) :
    (∀ c ∈ t, c.isDigit = true) ∧ t ≠ [] ∧ Nat.toDigits 10 n = t := by
  unfold octet at h
  split_ifs at h with ht
  obtain rfl := Option.some.inj h
  obtain ⟨hne, -, hdigits, hhead, -⟩ := ht
  have hall := List.all_eq_true.mp hdigits
  refine ⟨hall, hne, ?_⟩
  by_cases hzero : t.head? = some '0'
  · have hlen := hhead.resolve_right fun hnot => hnot hzero
    match t, hlen with
    | [c], _ =>
      obtain rfl := Option.some.inj hzero
      rfl
  · exact (toDigits_ofDecimal hne hall hzero).2

/-- Of a quad the first octet is read. -/
theorem parseIntHex_quad {t : Text} {q : List Nat} (h : ipv4 t = some q) :
    parseIntHex t = some (ofHex (Nat.toDigits 10 (q.headD 0))) := by
  unfold ipv4 at h
  split_ifs at h with hlen
  have hjoin : ['.'].intercalate (t.splitOn '.') = t := List.intercalate_splitOn '.'
  generalize t.splitOn '.' = ps at h hlen hjoin
  match ps, hlen with
  | o :: p :: ps, _ =>
    rw [List.mapM_cons] at h
    cases ho : octet o with
    | none => simp [ho] at h
    | some n =>
      cases hps : (p :: ps).mapM octet with
      | none => simp [ho, hps] at h
      | some ms =>
        simp only [ho, hps, Option.bind_eq_bind, Option.bind_some, Option.pure_def,
          Option.some.injEq] at h
        subst h
        obtain ⟨hdigits, hne, hprint⟩ := octet_print ho
        rw [List.intercalate_cons_cons] at hjoin
        have htake : t.takeWhile isHex = o := by
          rw [← hjoin, List.append_assoc,
            List.takeWhile_append_of_pos fun c hc => isDigit_hex (hdigits c hc)]
          rw [List.singleton_append, List.takeWhile_cons_of_neg (by decide), List.append_nil]
        rw [parseIntHex, htake, if_neg hne, List.headD_cons, hprint]

theorem ipv4_piece {t : Text} {q : List Nat} (h : ipv4 t = some q) : t ≠ [] ∧ ':' ∉ t := by
  constructor
  · rintro rfl
    cases h
  · intro hmem
    obtain hdigit | heq := ipv4_chars h ':' hmem
    · revert hdigit
      decide
    · cases heq

theorem groupsQuad_piece {ps : List Text} {x : List Nat × Option (List Nat)}
    (h : groupsQuad ps = some x) : ∀ p ∈ ps, p ≠ [] ∧ ':' ∉ p := by
  induction ps generalizing x with
  | nil => simp
  | cons p ps ih =>
    have hgroup : ∀ g, hexGroup p = some g → p ≠ [] ∧ ':' ∉ p := by
      intro g hg
      obtain ⟨hne, hall, -⟩ := hexGroup_all hg
      refine ⟨hne, fun hmem => ?_⟩
      have hcolon := hall ':' hmem
      revert hcolon
      decide
    unfold groupsQuad at h
    cases hp : hexGroup p with
    | some g =>
      rw [hp] at h
      obtain ⟨y, hps, -⟩ := Option.map_eq_some_iff.mp h
      intro q hq
      rw [List.mem_cons] at hq
      obtain rfl | hq := hq
      · exact hgroup g hp
      · exact ih hps q hq
    | none =>
      simp only [hp] at h
      split_ifs at h with hnil
      subst hnil
      obtain ⟨q, hq, -⟩ := Option.map_eq_some_iff.mp h
      intro r hr
      rw [List.mem_singleton.mp hr]
      exact ipv4_piece hq

theorem mapM_parse {ps : List Text} {gs : List Nat} (h : ps.mapM hexGroup = some gs) :
    ps.mapM parseIntHex = some gs := by
  induction ps generalizing gs with
  | nil => exact h
  | cons p ps ih =>
    rw [List.mapM_cons] at h
    cases hp : hexGroup p with
    | none => simp [hp] at h
    | some g =>
      cases hps : ps.mapM hexGroup with
      | none => simp [hp, hps] at h
      | some ms =>
        simp only [hp, hps, Option.bind_eq_bind, Option.bind_some, Option.pure_def,
          Option.some.injEq] at h
        subst h
        simp [parseIntHex_group hp, ih hps]

/-- The pieces of groups and a quad, read one by one. -/
theorem parse_groupsQuad {ps : List Text} {gs : List Nat} {quad : Option (List Nat)}
    (h : groupsQuad ps = some (gs, quad)) :
    ps.length = gs.length + (if quad.isSome then 1 else 0) ∧ ps.mapM parseIntHex =
      some (gs ++ (quad.map fun q => [ofHex (Nat.toDigits 10 (q.headD 0))]).getD []) := by
  obtain ⟨-, -, qs, hqs, hmap, hlast⟩ := groupsQuad_spec h
  have hlen := mapM_length hmap
  generalize ps.getLastD [] = last at hqs hlast
  subst hqs
  cases quad with
  | none => simp [hlen, mapM_parse hmap]
  | some q => simp [hlen, mapM_parse hmap, parseIntHex_quad (hlast q rfl)]

theorem cutAt_pieces {t : Text} (h : ∀ p ∈ pieces t, p ≠ [] ∧ ':' ∉ p) :
    cutAt [':', ':'] t = none := by
  unfold pieces at h
  split_ifs at h with hnil
  · rw [hnil]
    rfl
  · have hcut := cutAt_join h (List.splitOn_ne_nil ':' t) []
    rw [join, List.intercalate_splitOn, List.append_nil] at hcut
    exact hcut

/-- What `groupsOf` makes of an address. -/
theorem groupsOf_read {t : Text} {x : Ipv6Text} (h : ipv6 t = some x) :
    groupsOf t = readGroups x := by
  obtain ⟨hcut, hquad, hcompressed, htrail, hlen⟩ |
      ⟨head, tail, hcut, hlead, hquad, hcompressed, hlen⟩ := ipv6_cases h
  · have hne : t ≠ [] := by
      rintro rfl
      cases h
    obtain ⟨hcount, hparse⟩ := parse_groupsQuad hquad
    unfold groupsOf readGroups
    simp only [hcut, pieces, if_neg hne, hcount, hparse]
    unfold Ipv6Text.written at hlen
    cases hq : x.quad with
    | none =>
      rw [hq] at hlen
      simp only [htrail, List.length_nil, Option.isSome_none, Bool.false_eq_true, if_false,
        Nat.add_zero] at hlen
      simp [hlen, Ipv6Text.groups, hcompressed, htrail, hq]
    | some q =>
      rw [hq] at hlen
      simp only [htrail, List.length_nil, Option.isSome_some, if_true, Nat.add_zero] at hlen
      have hshort : ¬ x.lead.length + 1 = 8 := by omega
      simp [hshort, hcompressed]
  · obtain ⟨hcount, hparse⟩ := parse_groupsQuad hquad
    have hcount' := mapM_length hlead
    have htail := cutAt_pieces (groupsQuad_piece hquad)
    unfold groupsOf readGroups
    simp only [hcut, htail, Option.isSome_none, Bool.false_eq_true, if_false, hcount, ← hcount']
    unfold Ipv6Text.written at hlen
    have hzero : parseIntHex ['0'] = some 0 := rfl
    have hzeros : ∀ n, (List.replicate n ['0']).mapM parseIntHex = some (List.replicate n 0) := by
      intro n
      induction n with
      | zero => rfl
      | succ n ih => simp [List.replicate_succ, hzero, ih]
    cases hq : x.quad with
    | none =>
      rw [hq] at hlen hparse
      simp only [Option.isSome_none, Bool.false_eq_true, if_false, Nat.add_zero] at hlen
      rw [if_neg (by simp; omega)]
      simp [mapM_parse hlead, hparse, hzeros, Ipv6Text.groups, Ipv6Text.written, hcompressed, hq,
        Nat.sub_sub]
    | some q =>
      rw [hq] at hlen hparse
      simp only [Option.isSome_some, if_true] at hlen
      rw [if_neg (by simp; omega)]
      have hgap : 8 - x.lead.length - (x.trail.length + 1) = 7 - x.lead.length - x.trail.length := by
        omega
      simp [mapM_parse hlead, hparse, hzeros, hcompressed, hgap]

/-- What is read is eight groups. -/
theorem Proper.read {x : Ipv6Text} (h : Proper x) {groups : List Nat}
    (hread : readGroups x = some groups) :
    groups.length = 8 ∧ ∀ g ∈ groups, g < 2 ^ 16 := by
  unfold readGroups at hread
  cases hq : x.quad with
  | none =>
    rw [hq] at hread
    cases hread
    exact h.groups
  | some q =>
    simp only [hq, Option.ite_none_right_eq_some] at hread
    obtain ⟨hcompressed, hread⟩ := hread
    cases hread
    obtain ⟨hlen, hlt⟩ := h.quad q hq
    have hle := h.compressed hcompressed
    unfold Ipv6Text.written at hle
    rw [hq] at hle
    simp only [Option.isSome_some, if_true] at hle
    constructor
    · simp only [List.length_append, List.length_replicate, List.length_singleton]
      omega
    · intro g hg
      simp only [List.mem_append, List.mem_singleton] at hg
      obtain ((hg | hg) | hg) | rfl := hg
      · exact h.lead g hg
      · rw [List.eq_of_mem_replicate hg]
        decide
      · exact h.trail g hg
      · have hfirst : q.headD 0 < 1000 := by
          obtain ⟨a, as, rfl⟩ := List.exists_cons_of_ne_nil (show q ≠ [] by
            rintro rfl
            cases hlen)
          have ha := hlt a (by simp)
          simp only [List.headD_cons]
          omega
        have hdigits : (Nat.toDigits 10 (q.headD 0)).length ≤ 3 :=
          (Nat.length_toDigits_le_iff (by omega) (by omega)).mpr (by omega)
        have hpow : 16 ^ (Nat.toDigits 10 (q.headD 0)).length ≤ 16 ^ 3 :=
          Nat.pow_le_pow_right (by omega) hdigits
        have hvalue := ofHex_lt (Nat.toDigits 10 (q.headD 0))
        omega

end OpsMaxx.Routing
