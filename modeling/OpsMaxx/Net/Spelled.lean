import OpsMaxx.Net.Address
import Mathlib.Tactic.IntervalCases

/-!
# The characters of addresses

An address is written in hexadecimal digits, colons and points, and means the same in lower case.
-/

set_option autoImplicit false

namespace OpsMaxx.Net

open Strings (Text cutAt cutAt_eq lower toLowerCase)

/-! ## Lower case -/

theorem lower_cases (c : Char) : lower c = c ∨ c ∈ "ABCDEFGHIJKLMNOPQRSTUVWXYZ".toList ∨
    (c.toNat = 0x212a ∧ lower c = 'k') := by
  unfold lower
  split_ifs with hkelvin
  · exact Or.inr (Or.inr ⟨hkelvin, rfl⟩)
  · by_cases hcapital : 65 ≤ c.toNat ∧ c.toNat ≤ 90
    · right
      left
      obtain ⟨hlo, hhi⟩ := hcapital
      have hc := (Char.ofNat_toNat c).symm
      generalize c.toNat = n at hlo hhi hc
      subst hc
      interval_cases n <;> decide
    · left
      unfold Char.toLower
      rw [dif_neg]
      exact hcapital

/-- A property of characters that capitals keep in lower case, and the Kelvin sign as a `k`. -/
theorem lower_keeps {β : Type} (f : Char → β)
    (hcapital : ∀ c ∈ "ABCDEFGHIJKLMNOPQRSTUVWXYZ".toList, f (lower c) = f c)
    (hkelvin : f (Char.ofNat 0x212a) = f 'k') (c : Char) : f (lower c) = f c := by
  obtain h | h | ⟨hc, h⟩ := lower_cases c
  · rw [h]
  · exact hcapital c h
  · rw [h, ← hkelvin, ← hc, Char.ofNat_toNat]

theorem hexValue_lower : ∀ c, hexValue (lower c) = hexValue c :=
  lower_keeps hexValue (by decide) (by decide)

theorem isDigit_lower : ∀ c, (lower c).isDigit = c.isDigit :=
  lower_keeps Char.isDigit (by decide) (by decide)

theorem lower_colon : ∀ c, (lower c = ':') = (c = ':') := by
  intro c
  have h := lower_keeps (fun c => decide (c = ':')) (by decide) (by decide) c
  exact propext (decide_eq_decide.mp h)

theorem lower_point : ∀ c, (lower c = '.') = (c = '.') := by
  intro c
  have h := lower_keeps (fun c => decide (c = '.')) (by decide) (by decide) c
  exact propext (decide_eq_decide.mp h)

theorem lower_digit {c : Char} (h : c.isDigit = true) : lower c = c := by
  obtain hc | hc | ⟨hc, -⟩ := lower_cases c
  · exact hc
  · exfalso
    revert h
    revert c
    decide
  · have hle := (Strings.isDigit_iff.mp h).2
    omega

section
variable {sep : Char}

theorem splitOn_lower (hsep : ∀ c, (lower c = sep) = (c = sep)) (t : Text) :
    (toLowerCase t).splitOn sep = (t.splitOn sep).map toLowerCase := by
  induction t with
  | nil => rfl
  | cons c t ih =>
    unfold toLowerCase at ih ⊢
    rw [List.map_cons, List.splitOn_cons_eq_if_modifyHead, List.splitOn_cons_eq_if_modifyHead, ih]
    simp only [beq_iff_eq, hsep]
    split_ifs with hc
    · rfl
    · cases t.splitOn sep <;> rfl

theorem cutAt_lower (t : Text) : cutAt [':', ':'] (toLowerCase t) =
    (cutAt [':', ':'] t).map fun found => (toLowerCase found.1, toLowerCase found.2) := by
  have hpre : ∀ s : Text, [':', ':'] <+: toLowerCase s ↔ [':', ':'] <+: s := by
    intro s
    rcases s with _ | ⟨a, _ | ⟨b, s⟩⟩
    · rfl
    · simp [toLowerCase, List.cons_prefix_cons, eq_comm (a := ':'), lower_colon]
    · simp [toLowerCase, List.cons_prefix_cons, eq_comm (a := ':'), lower_colon]
  induction t with
  | nil => rfl
  | cons c t ih =>
    by_cases h : [':', ':'] <+: c :: t
    · have h' := (hpre (c :: t)).mpr h
      rw [Strings.cutAt_here h, Strings.cutAt_here h']
      simp [toLowerCase]
    · have h' : ¬ [':', ':'] <+: lower c :: toLowerCase t := fun hp => h ((hpre (c :: t)).mp hp)
      rw [show toLowerCase (c :: t) = lower c :: toLowerCase t from rfl, Strings.cutAt_later h,
        Strings.cutAt_later h', ih]
      cases cutAt [':', ':'] t <;> rfl

end

theorem ofHex_lower (t : Text) : ofHex (toLowerCase t) = ofHex t := by
  simp only [ofHex, toLowerCase, List.foldl_map, hexValue_lower]

theorem hexGroup_lower (t : Text) : hexGroup (toLowerCase t) = hexGroup t := by
  have hall : (toLowerCase t).all isHex = t.all isHex := by
    simp only [toLowerCase, List.all_map]
    exact congrArg t.all (funext fun c => by simp [isHex, hexValue_lower])
  have hnil : toLowerCase t = [] ↔ t = [] := by simp [toLowerCase]
  have hlen : (toLowerCase t).length = t.length := by simp [toLowerCase]
  simp only [hexGroup, hall, ne_eq, hnil, hlen, ofHex_lower]

theorem toLowerCase_digits {t : Text} (h : t.all Char.isDigit = true) : toLowerCase t = t := by
  rw [List.all_eq_true] at h
  unfold toLowerCase
  conv => rhs; rw [← List.map_id t]
  exact List.map_congr_left fun c hc => lower_digit (h c hc)

theorem octet_lower (t : Text) : octet (toLowerCase t) = octet t := by
  by_cases h : t.all Char.isDigit = true
  · rw [toLowerCase_digits h]
  · have hall : (toLowerCase t).all Char.isDigit = t.all Char.isDigit := by
      simp [toLowerCase, isDigit_lower, Function.comp_def]
    simp [octet, hall, h]

theorem mapM_lower {f : Text → Option Nat} (h : ∀ t, f (toLowerCase t) = f t) (ps : List Text) :
    (ps.map toLowerCase).mapM f = ps.mapM f := by
  induction ps with
  | nil => rfl
  | cons p ps ih => simp [h, ih]

theorem ipv4_lower (t : Text) : ipv4 (toLowerCase t) = ipv4 t := by
  simp only [ipv4, splitOn_lower lower_point, List.length_map, mapM_lower octet_lower]

theorem groupsQuad_lower (ps : List Text) : groupsQuad (ps.map toLowerCase) = groupsQuad ps := by
  induction ps with
  | nil => rfl
  | cons p ps ih => simp [groupsQuad, hexGroup_lower, ih, ipv4_lower]

theorem pieces_lower (t : Text) : pieces (toLowerCase t) = (pieces t).map toLowerCase := by
  have hnil : toLowerCase t = [] ↔ t = [] := by simp [toLowerCase]
  simp only [pieces, hnil, splitOn_lower lower_colon]
  split_ifs <;> rfl

theorem ipv6_lower (t : Text) : ipv6 (toLowerCase t) = ipv6 t := by
  unfold ipv6
  rw [cutAt_lower]
  cases cutAt [':', ':'] t with
  | none => simp only [Option.map_none, splitOn_lower lower_colon, groupsQuad_lower]
  | some found =>
    simp only [Option.map_some, pieces_lower, groupsQuad_lower, mapM_lower hexGroup_lower]

/-! ## Characters -/

def isAddressChar (c : Char) : Bool := isHex c || c = ':' || c = '.'

theorem isDigit_hex {c : Char} (h : c.isDigit = true) : isHex c = true := by
  simp only [Char.isDigit, Bool.and_eq_true, decide_eq_true_eq] at h
  have hdigit : '0' ≤ c ∧ c ≤ '9' := h
  simp [isHex, hexValue, hdigit]

theorem mem_splitOn {t : Text} {sep c : Char} (hc : c ∈ t) (hne : c ≠ sep) :
    ∃ p ∈ t.splitOn sep, c ∈ p := by
  induction t with
  | nil => cases hc
  | cons x t ih =>
    rw [List.splitOn_cons_eq_if_modifyHead]
    have hnil := List.splitOn_ne_nil sep t
    rw [List.mem_cons] at hc
    split_ifs with hx
    · obtain rfl | hc := hc
      · exact absurd (beq_iff_eq.mp hx) hne
      · obtain ⟨p, hp, hcp⟩ := ih hc
        exact ⟨p, List.mem_cons_of_mem _ hp, hcp⟩
    · generalize t.splitOn sep = ps at ih hnil
      cases ps with
      | nil => exact absurd rfl hnil
      | cons p ps =>
        obtain rfl | hc := hc
        · exact ⟨c :: p, List.mem_cons_self, List.mem_cons_self⟩
        · obtain ⟨q, hq, hcq⟩ := ih hc
          rw [List.mem_cons] at hq
          obtain rfl | hq := hq
          · exact ⟨x :: q, List.mem_cons_self, List.mem_cons_of_mem x hcq⟩
          · exact ⟨q, List.mem_cons_of_mem _ hq, hcq⟩

theorem mapM_some_mem {f : Text → Option Nat} {ps : List Text} {ns : List Nat}
    (h : ps.mapM f = some ns) : ∀ p ∈ ps, ∃ n, f p = some n := by
  induction ps generalizing ns with
  | nil => simp
  | cons p ps ih =>
    rw [List.mapM_cons] at h
    cases hp : f p with
    | none => simp [hp] at h
    | some n =>
      cases hps : ps.mapM f with
      | none => simp [hp, hps] at h
      | some ms =>
        intro q hq
        rw [List.mem_cons] at hq
        obtain rfl | hq := hq
        · exact ⟨n, hp⟩
        · exact ih hps q hq

theorem hexGroup_chars {t : Text} {n : Nat} (h : hexGroup t = some n) :
    ∀ c ∈ t, isAddressChar c = true := by
  unfold hexGroup at h
  split_ifs at h with hall
  intro c hc
  simp [isAddressChar, List.all_eq_true.mp hall.2.2 c hc]

theorem ipv4_chars {t : Text} {octets : List Nat} (h : ipv4 t = some octets) :
    ∀ c ∈ t, c.isDigit = true ∨ c = '.' := by
  unfold ipv4 at h
  split_ifs at h
  intro c hc
  by_cases hdot : c = '.'
  · exact Or.inr hdot
  · obtain ⟨p, hp, hcp⟩ := mem_splitOn hc hdot
    obtain ⟨n, hn⟩ := mapM_some_mem h p hp
    unfold octet at hn
    split_ifs at hn with hall
    exact Or.inl (List.all_eq_true.mp hall.2.2.1 c hcp)

theorem ipv4_addressChar {t : Text} {octets : List Nat} (h : ipv4 t = some octets) :
    ∀ c ∈ t, isAddressChar c = true := by
  intro c hc
  obtain hdigit | rfl := ipv4_chars h c hc
  · simp [isAddressChar, isDigit_hex hdigit]
  · rfl

theorem groupsQuad_chars {ps : List Text} {x : List Nat × Option (List Nat)}
    (h : groupsQuad ps = some x) : ∀ p ∈ ps, ∀ c ∈ p, isAddressChar c = true := by
  induction ps generalizing x with
  | nil => simp
  | cons p ps ih =>
    unfold groupsQuad at h
    cases hp : hexGroup p with
    | some g =>
      rw [hp] at h
      cases hps : groupsQuad ps with
      | none => simp [hps] at h
      | some y =>
        intro q hq
        rw [List.mem_cons] at hq
        obtain rfl | hq := hq
        · exact hexGroup_chars hp
        · exact ih hps q hq
    | none =>
      simp only [hp] at h
      split_ifs at h with hnil
      subst hnil
      cases hquad : ipv4 p with
      | none => simp [hquad] at h
      | some octets =>
        intro q hq
        rw [List.mem_singleton.mp hq]
        exact ipv4_addressChar hquad

theorem mem_pieces {t : Text} {c : Char} (hc : c ∈ t) (hne : c ≠ ':') : ∃ p ∈ pieces t, c ∈ p := by
  unfold pieces
  split_ifs with hnil
  · rw [hnil] at hc
    cases hc
  · exact mem_splitOn hc hne

theorem ipv6_chars {t : Text} {x : Ipv6Text} (h : ipv6 t = some x) :
    ∀ c ∈ t, isAddressChar c = true := by
  intro c hc
  by_cases hcolon : c = ':'
  · subst hcolon
    rfl
  · unfold ipv6 at h
    cases hcut : cutAt [':', ':'] t with
    | none =>
      rw [hcut] at h
      cases hquad : groupsQuad (t.splitOn ':') with
      | none => simp [hquad] at h
      | some y =>
        obtain ⟨p, hp, hcp⟩ := mem_splitOn hc hcolon
        exact groupsQuad_chars hquad p hp c hcp
    | some found =>
      obtain ⟨head, tail⟩ := found
      rw [hcut] at h
      have ht := cutAt_eq hcut
      cases hlead : (pieces head).mapM hexGroup with
      | none => simp [hlead] at h
      | some lead =>
        cases hquad : groupsQuad (pieces tail) with
        | none => simp [hlead, hquad] at h
        | some y =>
          rw [ht, List.mem_append, List.mem_append] at hc
          obtain (hc | hc) | hc := hc
          · obtain ⟨p, hp, hcp⟩ := mem_pieces hc hcolon
            obtain ⟨n, hn⟩ := mapM_some_mem hlead p hp
            exact hexGroup_chars hn c hcp
          · simp [hcolon] at hc
          · obtain ⟨p, hp, hcp⟩ := mem_pieces hc hcolon
            exact groupsQuad_chars hquad p hp c hcp

end OpsMaxx.Net
