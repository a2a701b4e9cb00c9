import OpsMaxx.ApiUrl.Query

/-!
# Coding a part of the query

What a text is written as, piece by piece: where a hash can stand in it, what it ends with, and that
decoding gives it back as long as no reference holds what is coded outside references.
-/

set_option autoImplicit false

namespace OpsMaxx.ApiUrl

open Strings

/-! ## Pieces -/

/-- The two kinds of references. -/
inductive IsReference : Text → Prop
  | brace (name : Text) : IsReference ('{' :: '{' :: name ++ ['}', '}'])
  | vault {id f : Text} (hne : id ≠ []) (hlen : id.length ≤ 64) (hid : ∀ c ∈ id, isIdChar c = true)
      (hf : f ∈ fields) : IsReference (vaultTag ++ id ++ '#' :: f)

theorem braceRef_some {t r rest : Text} (h : braceRef t = some (r, rest)) :
    t = r ++ rest ∧ IsReference r := by
  unfold braceRef at h
  split at h
  · rename_i t
    split at h
    · rename_i behind hbehind
      obtain ⟨rfl, rfl⟩ := Prod.mk.inj (Option.some.inj h)
      have hsplit := List.takeWhile_append_dropWhile (p := notBrace) (l := t)
      rw [hbehind] at hsplit
      refine ⟨?_, IsReference.brace _⟩
      conv => lhs; rw [← hsplit]
      simp
    · cases h
  · cases h

theorem vaultRef_some {t r rest : Text} (h : vaultRef t = some (r, rest)) :
    t = r ++ rest ∧ IsReference r := by
  unfold vaultRef at h
  dsimp only at h
  split_ifs at h with htag hid
  rw [Bool.not_eq_true', Bool.not_eq_false, List.isPrefixOf_iff_prefix] at htag
  obtain ⟨behind, rfl⟩ := htag
  have hdrop : (vaultTag ++ behind).drop 6 = behind := rfl
  rw [hdrop] at h hid
  simp only [not_or, not_not, Nat.not_lt] at hid
  obtain ⟨hne, hlen, hhash⟩ := hid
  obtain ⟨f, hf, hpair⟩ := Option.map_eq_some_iff.mp h
  obtain ⟨rfl, rfl⟩ := Prod.mk.inj hpair
  have hprefix := List.find?_some hf
  rw [List.isPrefixOf_iff_prefix] at hprefix
  obtain ⟨after, hafter⟩ := hprefix
  have hsplit := List.takeWhile_append_dropWhile (p := isIdChar) (l := behind)
  have hcons : behind.dropWhile isIdChar = '#' :: (behind.dropWhile isIdChar).tail := by
    cases hd : behind.dropWhile isIdChar with
    | nil => simp [hd] at hhash
    | cons c t =>
      rw [hd] at hhash
      rw [Option.some.inj hhash]
      rfl
  refine ⟨?_, IsReference.vault hne hlen (fun c hc => ?_) (List.mem_of_find?_eq_some hf)⟩
  · conv => lhs; rw [← hsplit, hcons, ← hafter]
    rw [← hafter, List.drop_left]
    simp
  · exact List.mem_takeWhile_imp hc

theorem kept_some {t r rest : Text} (h : kept t = some (r, rest)) :
    t = r ++ rest ∧ IsReference r := by
  obtain h | ⟨-, h⟩ := Option.or_eq_some_iff.mp h
  · exact braceRef_some h
  · exact vaultRef_some h

theorem IsReference.ne_nil {r : Text} (h : IsReference r) : r ≠ [] := by
  cases h <;> simp [vaultTag]

theorem piecesFrom_spec (n : Nat) {t : Text} (hn : t.length ≤ n) :
    textOf (piecesFrom n t) = t ∧ ∀ r, Piece.reference r ∈ piecesFrom n t → IsReference r := by
  induction n generalizing t with
  | zero =>
    have hnil : t = [] := List.length_eq_zero_iff.mp (Nat.le_zero.mp hn)
    subst hnil
    exact ⟨rfl, by simp [piecesFrom]⟩
  | succ n ih =>
    unfold piecesFrom
    cases hkept : kept t with
    | some found =>
      obtain ⟨r, rest⟩ := found
      obtain ⟨hsplit, href⟩ := kept_some hkept
      have hpos := List.length_pos_iff.mpr href.ne_nil
      have hlen : rest.length ≤ n := by
        rw [hsplit, List.length_append] at hn
        omega
      obtain ⟨htext, hrefs⟩ := ih hlen
      constructor
      · show r ++ textOf (piecesFrom n rest) = t
        rw [htext, hsplit]
      · intro r' hr'
        obtain hr' | hr' := List.mem_cons.mp hr'
        · obtain rfl := Piece.reference.inj hr'
          exact href
        · exact hrefs r' hr'
    | none =>
      cases t with
      | nil => exact ⟨rfl, by simp⟩
      | cons c t =>
        obtain ⟨htext, hrefs⟩ := ih (Nat.le_of_succ_le_succ hn)
        constructor
        · show c :: textOf (piecesFrom n t) = c :: t
          rw [htext]
        · intro r hr
          obtain hr | hr := List.mem_cons.mp hr
          · cases hr
          · exact hrefs r hr

theorem textOf_pieces (t : Text) : textOf (pieces t) = t := (piecesFrom_spec _ le_rfl).1

theorem isReference_of_mem {t r : Text} (h : Piece.reference r ∈ pieces t) : IsReference r :=
  (piecesFrom_spec _ le_rfl).2 r h

@[simp] theorem textOf_nil : textOf [] = [] := rfl

@[simp] theorem textOf_cons (p : Piece) (ps : List Piece) : textOf (p :: ps) = p.text ++ textOf ps := rfl

theorem textOf_append (ps qs : List Piece) : textOf (ps ++ qs) = textOf ps ++ textOf qs := by
  simp [textOf]

theorem mem_textOf {c : Char} {ps : List Piece} (h : c ∈ textOf ps) :
    Piece.char c ∈ ps ∨ ∃ r, Piece.reference r ∈ ps ∧ c ∈ r := by
  obtain ⟨p, hp, hc⟩ := List.mem_flatMap.mp h
  cases p with
  | reference r => exact Or.inr ⟨r, hp, hc⟩
  | char d =>
    obtain rfl := List.mem_singleton.mp hc
    exact Or.inl hp

/-! ## Guards -/

theorem guarded_iff (s : Text) :
    guarded s = true ↔ ∃ p id, s = p ++ vaultTag ++ id ∧ id ≠ [] ∧ id.length ≤ 64 ∧
      ∀ c ∈ id, isIdChar c = true := by
  have hsplit := List.rdropWhile_append_rtakeWhile (p := isIdChar) (l := s)
  unfold guarded
  simp only [Bool.and_eq_true, decide_eq_true_eq, List.isSuffixOf_iff_suffix]
  constructor
  · rintro ⟨⟨hne, hlen⟩, p, hp⟩
    refine ⟨p, s.rtakeWhile isIdChar, ?_, hne, hlen, fun c hc => List.mem_rtakeWhile_imp hc⟩
    rw [hp, hsplit]
  · rintro ⟨p, id, rfl, hne, hlen, hid⟩
    have htake : (p ++ vaultTag ++ id).rtakeWhile isIdChar = id ∧
        (p ++ vaultTag ++ id).rdropWhile isIdChar = p ++ vaultTag := by
      have hcolon : p ++ vaultTag = (p ++ ['v', 'a', 'u', 'l', 't']) ++ [':'] := by simp [vaultTag]
      unfold List.rtakeWhile List.rdropWhile
      rw [List.reverse_append, List.takeWhile_append_of_pos (by simpa using hid),
        List.dropWhile_append_of_pos (by simpa using hid), hcolon, List.reverse_append]
      have hstop : isIdChar ':' = false := by decide
      simp [hstop]
    rw [htake.1, htake.2]
    exact ⟨⟨hne, hlen⟩, p, rfl⟩

theorem guarded_append {s : Text} (h : guarded s = true) (x : Text) : guarded (x ++ s) = true := by
  obtain ⟨p, id, rfl, hid⟩ := (guarded_iff s).mp h
  exact (guarded_iff _).mpr ⟨x ++ p, id, by simp, hid⟩

theorem HashGuarded.append {s t : Text} (hs : HashGuarded s) (ht : HashGuarded t) :
    HashGuarded (s ++ t) := by
  intro p q h
  obtain ⟨a, rfl, hq⟩ | ⟨a, rfl, hq⟩ := List.append_eq_append_iff.mp h
  · exact guarded_append (ht a q hq) s
  · cases a with
    | nil =>
      obtain rfl : '#' :: q = t := by simpa using hq
      have hguard := guarded_append (ht [] q rfl) p
      simpa using hguard
    | cons c a =>
      obtain ⟨rfl, rfl⟩ := List.cons.inj hq
      exact hs p a rfl

theorem hashGuarded_of_not_mem {s : Text} (h : '#' ∉ s) : HashGuarded s := by
  rintro p q rfl
  exact absurd (List.mem_append_right p List.mem_cons_self) h

theorem hashGuarded_flatMap {α : Type} {ps : List α} {f : α → Text}
    (h : ∀ p ∈ ps, HashGuarded (f p)) : HashGuarded (ps.flatMap f) := by
  induction ps with
  | nil => exact hashGuarded_of_not_mem (by simp)
  | cons p ps ih =>
    obtain ⟨hp, hps⟩ := List.forall_mem_cons.mp h
    rw [List.flatMap_cons]
    exact hp.append (ih hps)

/-! ## Characters of a coded part -/

theorem isSpecial_percent (isKey : Bool) : isSpecial isKey '%' = true := by
  cases isKey <;> decide

theorem isSpecial_hexDigit (isKey : Bool) {n : Nat} (h : n < 16) :
    isSpecial isKey (Strings.hexDigit n) = false ∧ Strings.hexDigit n ≠ 'v' := by
  have hdigits : ∀ k : Bool, ∀ d : Fin 16, isSpecial k (Strings.hexDigit d) = false ∧
      Strings.hexDigit d ≠ 'v' := by
    decide
  exact hdigits isKey ⟨n, h⟩

theorem not_isSpecial_of_isAlphanumeric (isKey : Bool) {c : Char} (h : isAlphanumeric c = true) :
    isSpecial isKey c = false := by
  simp only [isAlphanumeric, Bool.or_eq_true, Bool.and_eq_true, decide_eq_true_eq] at h
  have hne : ∀ d : Char, d.toNat < 48 ∨ (57 < d.toNat ∧ d.toNat < 65) ∨
      (90 < d.toNat ∧ d.toNat < 97) ∨ 122 < d.toNat → c ≠ d := by
    rintro d hd rfl
    omega
  have hspace : isSpace c = false := by
    have hink := isInk_of_graphic (c := c) (by omega) (by omega)
    simpa [isInk] using hink
  have hquote : c.toNat ≠ 0x60 := by omega
  simp [isSpecial, hspace, hquote, hne '&' (by decide), hne '#' (by decide), hne '+' (by decide),
    hne '%' (by decide), hne '=' (by decide), hne '"' (by decide), hne '<' (by decide),
    hne '>' (by decide), hne '\\' (by decide), hne '^' (by decide), hne '|' (by decide),
    hne '{' (by decide), hne '}' (by decide)]

/-- Everything special is coded. -/
theorem encodeURIComponent_special {isKey : Bool} {c : Char} (h : isSpecial isKey c = true) :
    encodeURIComponent [c] = percentChar (fun d => !isSpecial isKey d) c := by
  have hmarks : ∀ k : Bool, ∀ d ∈ "-_.!~*'()".toList, isSpecial k d = false := by decide +kernel
  have hkept : (isAlphanumeric c || "-_.!~*'()".toList.contains c) = false := by
    rw [Bool.or_eq_false_iff]
    constructor
    · cases halnum : isAlphanumeric c with
      | false => rfl
      | true =>
        rw [not_isSpecial_of_isAlphanumeric isKey halnum] at h
        cases h
    · rw [List.contains_eq_mem, decide_eq_false_iff_not]
      intro hc
      rw [hmarks isKey c hc] at h
      cases h
  simp only [encodeURIComponent, List.flatMap_cons, List.flatMap_nil, List.append_nil, percentChar,
    hkept, h]
  rfl

theorem percentByte_chars (isKey : Bool) (b : UInt8) :
    ∀ c ∈ percentByte b, c = '%' ∨ (isSpecial isKey c = false ∧ c ≠ 'v') := by
  have hb : b.toNat < 256 := b.toNat_lt
  intro c hc
  simp only [percentByte, List.mem_cons, List.not_mem_nil, or_false] at hc
  obtain rfl | rfl | rfl := hc
  · exact Or.inl rfl
  · exact Or.inr (isSpecial_hexDigit isKey (by omega))
  · exact Or.inr (isSpecial_hexDigit isKey (by omega))

/-- What a character is written as: itself, or a run behind per cent signs. -/
theorem encodePiece_char (isKey : Bool) (c : Char) :
    (isSpecial isKey c = false ∧ encodePiece isKey (.char c) = [c]) ∨
      ('%' ∈ encodePiece isKey (.char c) ∧
        ∀ d ∈ encodePiece isKey (.char c), d = '%' ∨ (isSpecial isKey d = false ∧ d ≠ 'v')) := by
  cases hc : isSpecial isKey c with
  | false => exact Or.inl ⟨rfl, by simp [encodePiece, hc]⟩
  | true =>
    right
    have hcoded : encodePiece isKey (.char c) = (String.utf8EncodeChar c).flatMap percentByte := by
      simp [encodePiece, hc, encodeURIComponent_special hc, percentChar]
    rw [hcoded]
    constructor
    · cases hbytes : String.utf8EncodeChar c with
      | nil => exact absurd (congrArg List.length hbytes) (by
          rw [String.length_utf8EncodeChar]
          have := Char.utf8Size_pos c
          simp
          omega)
      | cons b bs => simp [percentByte]
    · intro d hd
      obtain ⟨b, -, hb⟩ := List.mem_flatMap.mp hd
      exact percentByte_chars isKey b d hb

/-- A character of a coded part is in a reference, or it is a per cent sign or not special. -/
theorem mem_encodePart {isKey : Bool} {t : Text} {c : Char} (h : c ∈ encodePart t isKey) :
    (∃ r, Piece.reference r ∈ pieces t ∧ c ∈ r) ∨ c = '%' ∨ isSpecial isKey c = false := by
  obtain ⟨p, hp, hc⟩ := List.mem_flatMap.mp h
  cases p with
  | reference r => exact Or.inl ⟨r, hp, hc⟩
  | char d =>
    obtain ⟨hspecial, hself⟩ | ⟨-, hall⟩ := encodePiece_char isKey d
    · rw [hself] at hc
      obtain rfl := List.mem_singleton.mp hc
      exact Or.inr (Or.inr hspecial)
    · obtain hper | ⟨hspecial, -⟩ := hall c hc
      · exact Or.inr (Or.inl hper)
      · exact Or.inr (Or.inr hspecial)

theorem not_mem_encodePart {isKey : Bool} {t : Text} {c : Char} (hc : isSpecial isKey c = true)
    (hper : c ≠ '%') (hrefs : ∀ r, Piece.reference r ∈ pieces t → c ∉ r) :
    c ∉ encodePart t isKey := by
  intro h
  obtain ⟨r, hr, hmem⟩ | h | h := mem_encodePart h
  · exact hrefs r hr hmem
  · exact hper h
  · rw [hc] at h
    cases h

theorem hashGuarded_encodePart {isKey : Bool} {t : Text} (h : CleanPart isKey t) :
    HashGuarded (encodePart t isKey) := by
  apply hashGuarded_flatMap
  intro p hp
  cases p with
  | reference r => exact (h r hp).2.2.2.2
  | char c =>
    apply hashGuarded_of_not_mem
    obtain ⟨hspecial, hself⟩ | ⟨-, hall⟩ := encodePiece_char isKey c
    · rw [hself, List.mem_singleton]
      rintro rfl
      exact absurd hspecial (by cases isKey <;> decide)
    · intro hmem
      obtain h | ⟨h, -⟩ := hall _ hmem
      · exact absurd h (by decide)
      · exact absurd h (by cases isKey <;> decide)

/-! ## Decoding -/

theorem percentBytes_text {s : Text} (h : '%' ∉ s) (rest : Text) :
    percentBytes (s ++ rest) = (percentBytes rest).map (utf8 s ++ ·) := by
  induction s with
  | nil => simp [utf8]
  | cons c s ih =>
    rw [List.mem_cons, not_or] at h
    obtain ⟨hc, hs⟩ := h
    rw [List.cons_append, percentBytes_plain (Ne.symm hc), ih hs, Option.map_map, utf8_cons]
    congr 1
    funext bytes
    simp

theorem percentBytes_encode (isKey : Bool) (ps : List Piece)
    (h : ∀ r, Piece.reference r ∈ ps → '%' ∉ r) :
    percentBytes (ps.flatMap (encodePiece isKey)) = some (utf8 (textOf ps)) := by
  induction ps with
  | nil => rfl
  | cons p ps ih =>
    have hrest := ih fun r hr => h r (List.mem_cons_of_mem _ hr)
    rw [List.flatMap_cons, textOf_cons]
    cases p with
    | reference r =>
      have htext := percentBytes_text (h r List.mem_cons_self) (ps.flatMap (encodePiece isKey))
      rw [encodePiece, htext, hrest]
      simp [utf8, Piece.text]
    | char c =>
      have hcoded : encodePiece isKey (.char c) = percentChar (fun d => !isSpecial isKey d) c := by
        cases hc : isSpecial isKey c with
        | true => simp [encodePiece, hc, encodeURIComponent_special hc]
        | false => simp [encodePiece, hc, percentChar]
      rw [hcoded, percentBytes_percentChar (by simp [isSpecial_percent]), hrest]
      rfl

/-- A clean part is read as it was before it was written. -/
theorem safeDecode_encodePart {isKey : Bool} {t : Text} (h : CleanPart isKey t) :
    safeDecode (encodePart t isKey) = t := by
  have hplus : '+' ∉ encodePart t isKey :=
    not_mem_encodePart (by cases isKey <;> decide) (by decide) fun r hr => (h r hr).1
  have hspaces : plusToSpace (encodePart t isKey) = encodePart t isKey := by
    refine (List.map_congr_left fun c hc => if_neg ?_).trans (List.map_id _)
    rintro rfl
    exact hplus hc
  unfold safeDecode decodeURIComponent
  rw [hspaces, encodePart, percentBytes_encode isKey _ fun r hr => (h r hr).2.1, textOf_pieces,
    Option.bind_some, utf8Decode?_utf8]
  rfl

/-! ## The end of a coded part -/

theorem suffix_append_cases {s a b : Text} (h : s <:+ a ++ b) :
    s <:+ b ∨ ∃ s', s = s' ++ b ∧ s' <:+ a := by
  obtain ⟨p, hp⟩ := h
  obtain ⟨x, ha, hs⟩ | ⟨x, -, hb⟩ := List.append_eq_append_iff.mp hp
  · exact Or.inr ⟨x, hs, p, ha.symm⟩
  · exact Or.inl ⟨x, hb.symm⟩

/-- The end of a text, or it has the last character in it. -/
theorem suffix_concat {s a : Text} {c : Char} (h : s <:+ a ++ [c]) : s = [] ∨ c ∈ s := by
  obtain h | ⟨s', rfl, -⟩ := suffix_append_cases h
  · cases s with
    | nil => exact Or.inl rfl
    | cons d s =>
      obtain rfl := List.mem_singleton.mp (h.subset List.mem_cons_self)
      exact Or.inr List.mem_cons_self
  · exact Or.inr (by simp)

/-- What begins with a letter v and is at the end of a reference holds its brace or its hash. -/
theorem mem_of_suffix_reference {r s : Text} (hr : IsReference r) (hs : s.head? = some 'v')
    (h : s <:+ r) : '}' ∈ s ∨ '#' ∈ s := by
  have hne : s ≠ [] := by
    rintro rfl
    cases hs
  cases hr with
  | brace name =>
    have hlast : s <:+ ('{' :: '{' :: name ++ ['}']) ++ ['}'] := by simpa using h
    exact Or.inl ((suffix_concat hlast).resolve_left hne)
  | @vault id f _ _ _ hf =>
    have hlast : s <:+ (vaultTag ++ id ++ ['#']) ++ f := by simpa using h
    have hv : 'v' ∈ s := List.mem_of_mem_head? hs
    have hletters : ∀ f ∈ fields, 'v' ∉ f := by decide
    obtain hend | ⟨s', rfl, hrest⟩ := suffix_append_cases hlast
    · exact absurd (hend.subset hv) (hletters f hf)
    · obtain rfl | hhash := suffix_concat hrest
      · exact absurd hv (hletters f hf)
      · exact Or.inr (List.mem_append_left f hhash)

theorem suffix_encode {isKey : Bool} {ps : List Piece}
    (hps : ∀ r, Piece.reference r ∈ ps → IsReference r) {s : Text} (hs : s.head? = some 'v')
    (hper : '%' ∉ s) (hbrace : '}' ∉ s) (hhash : '#' ∉ s)
    (h : s <:+ ps.flatMap (encodePiece isKey)) : s <:+ textOf ps := by
  induction ps using List.reverseRecOn generalizing s with
  | nil => simpa using h
  | append_singleton ps p ih =>
    have hps' : ∀ r, Piece.reference r ∈ ps → IsReference r :=
      fun r hr => hps r (List.mem_append_left _ hr)
    rw [List.flatMap_append, List.flatMap_singleton] at h
    rw [textOf_append]
    obtain hend | ⟨s', rfl, hrest⟩ := suffix_append_cases h
    · cases p with
      | reference r =>
        obtain hmem | hmem := mem_of_suffix_reference (hps r (by simp)) hs hend
        · exact absurd hmem hbrace
        · exact absurd hmem hhash
      | char c =>
        obtain ⟨-, hself⟩ | ⟨-, hall⟩ := encodePiece_char isKey c
        · rw [hself] at hend
          exact hend.trans (List.suffix_append _ _)
        · obtain hv | ⟨-, hv⟩ := hall 'v' (hend.subset (List.mem_of_mem_head? hs))
          · exact absurd hv (by decide)
          · exact absurd rfl hv
    · simp only [List.mem_append, not_or] at hper hbrace hhash
      cases p with
      | reference r =>
        have hmem : '}' ∈ r ∨ '#' ∈ r := by
          cases hps r (by simp) with
          | brace name => exact Or.inl (by simp)
          | vault => exact Or.inr (by simp)
        obtain hmem | hmem := hmem
        · exact absurd hmem hbrace.2
        · exact absurd hmem hhash.2
      | char c =>
        obtain ⟨-, hself⟩ | ⟨hmem, -⟩ := encodePiece_char isKey c
        · rw [hself] at hs ⊢
          have hprefix : s' <:+ textOf ps := by
            cases s' with
            | nil => exact List.nil_suffix
            | cons d s' => exact ih hps' hs hper.1 hbrace.1 hhash.1 hrest
          obtain ⟨x, hx⟩ := hprefix
          refine ⟨x, ?_⟩
          rw [← hx]
          simp [Piece.text]
        · exact absurd hmem hper.2

/-- A coded part ends with a vault id only when the part does. -/
theorem guarded_of_encodePart {isKey : Bool} {t y : Text} {sep : Char} (hsep : sep ∉ vaultTag)
    (hid : isIdChar sep = false) (h : guarded (y ++ sep :: encodePart t isKey) = true) :
    guarded t = true := by
  obtain ⟨p, id, heq, hne, hlen, hchars⟩ := (guarded_iff _).mp h
  have hmem : ∀ c, c ∈ vaultTag ++ id → c ∈ vaultTag ∨ isIdChar c = true := by
    intro c hc
    obtain hc | hc := List.mem_append.mp hc
    · exact Or.inl hc
    · exact Or.inr (hchars c hc)
  have hnot : ∀ c : Char, c ∉ vaultTag → isIdChar c = false → c ∉ vaultTag ++ id := by
    intro c htag hc h
    obtain h | h := hmem c h
    · exact htag h
    · rw [hc] at h
      cases h
  have hsuffix : vaultTag ++ id <:+ (y ++ [sep]) ++ encodePart t isKey :=
    ⟨p, by rw [← List.append_assoc, ← heq]; simp⟩
  have hend : vaultTag ++ id <:+ encodePart t isKey := by
    obtain h | ⟨s, hs, h⟩ := suffix_append_cases hsuffix
    · exact h
    · obtain rfl | h := suffix_concat h
      · exact ⟨[], by rw [hs]; rfl⟩
      · exact absurd (hs ▸ List.mem_append_left _ h) (hnot sep hsep hid)
  have htext := suffix_encode (fun r hr => isReference_of_mem hr) rfl (hnot '%' (by decide) (by decide))
    (hnot '}' (by decide) (by decide)) (hnot '#' (by decide) (by decide)) hend
  rw [textOf_pieces] at htext
  obtain ⟨x, hx⟩ := htext
  exact (guarded_iff t).mpr ⟨x, id, by rw [← hx, List.append_assoc], hne, hlen, hchars⟩

end OpsMaxx.ApiUrl
