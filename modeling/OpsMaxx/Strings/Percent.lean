import OpsMaxx.Strings.Words

/-! # Percent coding and form texts

A text as its UTF-8 bytes, the percent coding of JavaScript's `encodeURIComponent` and of
`URLSearchParams`, and what reads them back.
-/

set_option autoImplicit false

namespace OpsMaxx.Strings

/-! ## Bytes -/

def utf8 (s : Text) : List UInt8 := s.flatMap String.utf8EncodeChar

def utf8Decode? (bs : List UInt8) : Option Text := bs.toByteArray.utf8Decode?.map Array.toList

theorem utf8Decode?_utf8 (s : Text) : utf8Decode? (utf8 s) = some s := by
  show (s.utf8Encode.utf8Decode?).map Array.toList = some s
  rw [List.utf8Decode?_utf8Encode]
  rfl

theorem utf8_injective : Function.Injective utf8 := by
  intro s t h
  have hs := utf8Decode?_utf8 s
  rw [h, utf8Decode?_utf8] at hs
  exact (Option.some.inj hs).symm

theorem utf8_cons (c : Char) (s : Text) : utf8 (c :: s) = String.utf8EncodeChar c ++ utf8 s := rfl

/-! ## Percent coding -/

def hexDigit (n : Nat) : Char := Char.ofNat (if n < 10 then 48 + n else 55 + n)

def hexValue (c : Char) : Option Nat :=
  if 48 ≤ c.toNat ∧ c.toNat ≤ 57 then some (c.toNat - 48)
  else if 65 ≤ c.toNat ∧ c.toNat ≤ 70 then some (c.toNat - 55)
  else if 97 ≤ c.toNat ∧ c.toNat ≤ 102 then some (c.toNat - 87)
  else none

theorem hexValue_hexDigit {n : Nat} (h : n < 16) : hexValue (hexDigit n) = some n := by
  have hdigits : ∀ d : Fin 16, hexValue (hexDigit d) = some d.val := by decide
  exact hdigits ⟨n, h⟩

def percentByte (b : UInt8) : Text := ['%', hexDigit (b.toNat / 16), hexDigit (b.toNat % 16)]

/-- Every character that is not kept is written as its bytes. -/
def percentChar (kept : Char → Bool) (c : Char) : Text :=
  if kept c then [c] else (String.utf8EncodeChar c).flatMap percentByte

/-- The bytes a percent coded text stands for. -/
def percentBytes : Text → Option (List UInt8)
  | [] => some []
  | c :: rest =>
    if c = '%' then
      match rest with
      | h :: l :: rest => do
        let hi ← hexValue h
        let lo ← hexValue l
        let bs ← percentBytes rest
        pure (UInt8.ofNat (16 * hi + lo) :: bs)
      | _ => none
    else (percentBytes rest).map (String.utf8EncodeChar c ++ ·)

theorem percentBytes_coded (h l : Char) (rest : Text) :
    percentBytes ('%' :: h :: l :: rest) = (do
      let hi ← hexValue h
      let lo ← hexValue l
      let bs ← percentBytes rest
      pure (UInt8.ofNat (16 * hi + lo) :: bs)) := by
  conv => lhs; unfold percentBytes
  rw [if_pos rfl]

theorem percentBytes_plain {c : Char} (h : c ≠ '%') (rest : Text) :
    percentBytes (c :: rest) = (percentBytes rest).map (String.utf8EncodeChar c ++ ·) := by
  conv => lhs; unfold percentBytes
  rw [if_neg h]

theorem percentBytes_percentByte (b : UInt8) (rest : Text) :
    percentBytes (percentByte b ++ rest) = (percentBytes rest).map (b :: ·) := by
  have hb : b.toNat < 256 := b.toNat_lt
  have hbyte : UInt8.ofNat (16 * (b.toNat / 16) + b.toNat % 16) = b := by
    rw [Nat.div_add_mod]
    exact UInt8.ofNat_toNat
  show percentBytes ('%' :: _ :: _ :: rest) = _
  rw [percentBytes_coded, hexValue_hexDigit (by omega), hexValue_hexDigit (by omega)]
  cases percentBytes rest with
  | none => rfl
  | some bs =>
    show some (UInt8.ofNat _ :: bs) = some (b :: bs)
    rw [hbyte]

theorem percentBytes_flatMap (bs : List UInt8) (rest : Text) :
    percentBytes (bs.flatMap percentByte ++ rest) = (percentBytes rest).map (bs ++ ·) := by
  induction bs with
  | nil =>
    show percentBytes rest = _
    cases percentBytes rest <;> rfl
  | cons b bs ih =>
    rw [List.flatMap_cons, List.append_assoc, percentBytes_percentByte, ih, Option.map_map]
    rfl

theorem percentBytes_percentChar {kept : Char → Bool} (hkept : kept '%' = false) (c : Char)
    (rest : Text) :
    percentBytes (percentChar kept c ++ rest)
      = (percentBytes rest).map (String.utf8EncodeChar c ++ ·) := by
  unfold percentChar
  by_cases hc : kept c = true
  · have hne : c ≠ '%' := by
      rintro rfl
      simp [hkept] at hc
    rw [if_pos hc, List.singleton_append, percentBytes_plain hne]
  · rw [if_neg hc]
    exact percentBytes_flatMap _ rest

def decodeURIComponent (s : Text) : Option Text := (percentBytes s).bind utf8Decode?

def isAlphanumeric (c : Char) : Bool :=
  (48 ≤ c.toNat && c.toNat ≤ 57) || (65 ≤ c.toNat && c.toNat ≤ 90)
    || (97 ≤ c.toNat && c.toNat ≤ 122)

def encodeURIComponent (s : Text) : Text :=
  s.flatMap (percentChar fun c => isAlphanumeric c || "-_.!~*'()".toList.contains c)

/-- A digit of an escape is a capital or a figure. -/
theorem hexDigit_isAlphanumeric {n : Nat} (h : n < 16) : isAlphanumeric (hexDigit n) = true := by
  have hdigits : ∀ d : Fin 16, isAlphanumeric (hexDigit d) = true := by decide
  exact hdigits ⟨n, h⟩

theorem not_mem_encodeURIComponent {d : Char} (hp : d ≠ '%')
    (hd : (isAlphanumeric d || "-_.!~*'()".toList.contains d) = false) (s : Text) :
    d ∉ encodeURIComponent s := by
  intro hm
  obtain ⟨c, -, hc⟩ := List.mem_flatMap.mp hm
  unfold percentChar at hc
  split_ifs at hc with hkept
  · rw [List.mem_singleton.mp hc] at hd
    exact absurd (hd.symm.trans hkept) (by simp)
  · obtain ⟨b, -, hb⟩ := List.mem_flatMap.mp hc
    have hlt : b.toNat < 256 := b.toNat_lt
    simp only [percentByte, List.mem_cons, List.not_mem_nil, or_false] at hb
    rw [Bool.or_eq_false_iff] at hd
    obtain rfl | rfl | rfl := hb
    · exact hp rfl
    · rw [hexDigit_isAlphanumeric (by omega)] at hd
      exact absurd hd.1 (by simp)
    · rw [hexDigit_isAlphanumeric (by omega)] at hd
      exact absurd hd.1 (by simp)

theorem decodeURIComponent_encodeURIComponent (s : Text) :
    decodeURIComponent (encodeURIComponent s) = some s := by
  have hbytes : percentBytes (encodeURIComponent s) = some (utf8 s) := by
    induction s with
    | nil => rfl
    | cons c s ih =>
      show percentBytes (percentChar _ c ++ encodeURIComponent s) = _
      rw [percentBytes_percentChar (by decide +kernel), ih]
      rfl
  unfold decodeURIComponent
  rw [hbytes]
  exact utf8Decode?_utf8 s

/-! ## The first of a separator -/

/-- A text before and after the first of a character, when it has one. -/
def splitFirst (sep : Char) : Text → Option (Text × Text)
  | [] => none
  | c :: rest =>
    if c = sep then some ([], rest) else (splitFirst sep rest).map fun p => (c :: p.1, p.2)

theorem splitFirst_append {sep : Char} {before : Text} (h : sep ∉ before) (after : Text) :
    splitFirst sep (before ++ sep :: after) = some (before, after) := by
  induction before with
  | nil => exact if_pos rfl
  | cons c before ih =>
    have hc : c ≠ sep := fun he => h (he ▸ List.mem_cons_self)
    rw [List.cons_append, splitFirst, if_neg hc, ih fun hm => h (List.mem_cons_of_mem _ hm)]
    rfl

theorem splitFirst_some {sep : Char} {s before after : Text}
    (h : splitFirst sep s = some (before, after)) : s = before ++ sep :: after ∧ sep ∉ before := by
  induction s generalizing before with
  | nil => cases h
  | cons c s ih =>
    unfold splitFirst at h
    split_ifs at h with hc
    · cases h
      exact ⟨by rw [hc]; rfl, List.not_mem_nil⟩
    · obtain ⟨⟨b, a⟩, hs, hp⟩ := Option.map_eq_some_iff.mp h
      cases hp
      obtain ⟨rfl, hb⟩ := ih hs
      refine ⟨rfl, ?_⟩
      intro hm
      rcases List.mem_cons.mp hm with he | hm
      · exact hc he.symm
      · exact hb hm

theorem splitFirst_of_mem {sep : Char} {s : Text} (h : sep ∈ s) :
    ∃ p, splitFirst sep s = some p := by
  obtain ⟨before, after, rfl, hb⟩ := List.eq_append_cons_of_mem h
  exact ⟨_, splitFirst_append hb after⟩

theorem splitFirst_none {sep : Char} {s : Text} (h : sep ∉ s) : splitFirst sep s = none := by
  cases hs : splitFirst sep s with
  | none => rfl
  | some p =>
    obtain ⟨rfl, -⟩ := splitFirst_some hs
    exact absurd (List.mem_append_right _ List.mem_cons_self) h

/-! ## Form texts -/

def keptInForm (c : Char) : Bool := isAlphanumeric c || "*-._".toList.contains c

def formChar (c : Char) : Text := if c = ' ' then ['+'] else percentChar keptInForm c

/-- How `URLSearchParams` writes a name or a value. -/
def formEncode (s : Text) : Text := s.flatMap formChar

def plusToSpace (s : Text) : Text := s.map fun c => if c = '+' then ' ' else c

def formPair (p : Text × Text) : Text := formEncode p.1 ++ '=' :: formEncode p.2

/-- `URLSearchParams.toString`. -/
def formText (rows : List (Text × Text)) : Text := ['&'].intercalate (rows.map formPair)

/-- What a name or a value is written in. -/
def IsFormChar (c : Char) : Prop := keptInForm c = true ∨ c = '%' ∨ c = '+'

theorem IsFormChar.ne {c d : Char} (h : IsFormChar c) (hk : keptInForm d = false) (hp : d ≠ '%')
    (hplus : d ≠ '+') : c ≠ d := by
  rintro rfl
  rcases h with h | h | h
  · rw [hk] at h
    cases h
  · exact hp h
  · exact hplus h

theorem hexDigit_kept {n : Nat} (h : n < 16) : keptInForm (hexDigit n) = true := by
  have hdigits : ∀ d : Fin 16, keptInForm (hexDigit d) = true := by decide
  exact hdigits ⟨n, h⟩

theorem percentByte_formChars (b : UInt8) : ∀ c ∈ percentByte b, c = '%' ∨ keptInForm c = true := by
  have hb : b.toNat < 256 := b.toNat_lt
  intro c hc
  simp only [percentByte, List.mem_cons, List.not_mem_nil, or_false] at hc
  rcases hc with rfl | rfl | rfl
  · exact .inl rfl
  · exact .inr (hexDigit_kept (by omega))
  · exact .inr (hexDigit_kept (by omega))

theorem percentChar_formChars (d : Char) :
    ∀ c ∈ percentChar keptInForm d, c = '%' ∨ keptInForm c = true := by
  unfold percentChar
  intro c hc
  split_ifs at hc with hd
  · rw [List.mem_singleton.mp hc]
    exact .inr hd
  · obtain ⟨b, -, hb⟩ := List.mem_flatMap.mp hc
    exact percentByte_formChars b c hb

theorem formEncode_formChars (s : Text) : ∀ c ∈ formEncode s, IsFormChar c := by
  intro c hc
  obtain ⟨d, -, hd⟩ := List.mem_flatMap.mp hc
  unfold formChar at hd
  split_ifs at hd
  · exact .inr (.inr (List.mem_singleton.mp hd))
  · rcases percentChar_formChars d c hd with h | h
    · exact .inr (.inl h)
    · exact .inl h

theorem plusToSpace_formChar (c : Char) :
    plusToSpace (formChar c) = if c = ' ' then [' '] else percentChar keptInForm c := by
  unfold formChar
  split_ifs
  · rfl
  · unfold plusToSpace
    conv => rhs; rw [← List.map_id (percentChar keptInForm c)]
    apply List.map_congr_left
    intro d hd
    have hne : d ≠ '+' := by
      rintro rfl
      rcases percentChar_formChars c _ hd with h | h
      · exact absurd h (by decide)
      · exact absurd h (by decide)
    rw [if_neg hne]
    rfl

theorem percentBytes_formEncode (s : Text) :
    percentBytes (plusToSpace (formEncode s)) = some (utf8 s) := by
  induction s with
  | nil => rfl
  | cons c s ih =>
    have hsplit : plusToSpace (formEncode (c :: s))
        = (if c = ' ' then [' '] else percentChar keptInForm c) ++ plusToSpace (formEncode s) := by
      rw [← plusToSpace_formChar]
      exact List.map_append
    rw [hsplit]
    split_ifs with hc
    · rw [hc, List.singleton_append, percentBytes_plain (by decide), ih]
      rfl
    · rw [percentBytes_percentChar (by decide), ih]
      rfl

theorem decodeURIComponent_formEncode (s : Text) :
    decodeURIComponent (plusToSpace (formEncode s)) = some s := by
  unfold decodeURIComponent
  rw [percentBytes_formEncode]
  exact utf8Decode?_utf8 s

theorem plusToSpace_eq_self {s : Text} (h : '+' ∉ s) : plusToSpace s = s := by
  unfold plusToSpace
  conv => rhs; rw [← List.map_id s]
  apply List.map_congr_left
  intro c hc
  have hne : c ≠ '+' := by
    rintro rfl
    exact h hc
  exact if_neg hne

theorem not_mem_formEncode {d : Char} (hk : keptInForm d = false) (hp : d ≠ '%') (hplus : d ≠ '+')
    (s : Text) : d ∉ formEncode s := by
  intro hd
  exact (formEncode_formChars s d hd).ne hk hp hplus rfl

/-- A form text holds nothing but names, values, `=` and `&`. -/
theorem formText_chars (rows : List (Text × Text)) :
    ∀ c ∈ formText rows, IsFormChar c ∨ c = '=' ∨ c = '&' := by
  unfold formText
  induction rows with
  | nil => simp [List.intercalate]
  | cons p rows ih =>
    have hpair : ∀ c ∈ formPair p, IsFormChar c ∨ c = '=' ∨ c = '&' := by
      intro c hc
      rcases List.mem_append.mp hc with h | h
      · exact .inl (formEncode_formChars _ c h)
      · rcases List.mem_cons.mp h with h | h
        · exact .inr (.inl h)
        · exact .inl (formEncode_formChars _ c h)
    cases rows with
    | nil => simpa [List.intercalate] using hpair
    | cons q rows =>
      intro c hc
      have hsplit : ['&'].intercalate ((p :: q :: rows).map formPair)
          = formPair p ++ '&' :: ['&'].intercalate ((q :: rows).map formPair) := by
        simp [List.intercalate]
      rw [hsplit] at hc
      rcases List.mem_append.mp hc with h | h
      · exact hpair c h
      · rcases List.mem_cons.mp h with h | h
        · exact .inr (.inr h)
        · exact ih c h

theorem not_mem_formText {d : Char} (hk : keptInForm d = false) (hp : d ≠ '%') (hplus : d ≠ '+')
    (heq : d ≠ '=') (hamp : d ≠ '&') (rows : List (Text × Text)) : d ∉ formText rows := by
  intro hd
  rcases formText_chars rows d hd with h | h | h
  · exact h.ne hk hp hplus rfl
  · exact heq h
  · exact hamp h

/-- The pairs of a form text, taken apart at the `&`. -/
theorem splitOn_formText {rows : List (Text × Text)} (h : rows ≠ []) :
    (formText rows).splitOn '&' = rows.map formPair := by
  unfold formText
  apply List.splitOn_intercalate
  · intro l hl
    obtain ⟨p, -, rfl⟩ := List.mem_map.mp hl
    unfold formPair
    intro hm
    rcases List.mem_append.mp hm with hm | hm
    · exact not_mem_formEncode (by decide) (by decide) (by decide) _ hm
    · rcases List.mem_cons.mp hm with hm | hm
      · exact absurd hm (by decide)
      · exact not_mem_formEncode (by decide) (by decide) (by decide) _ hm
  · simpa using h

theorem splitFirst_formPair (p : Text × Text) :
    splitFirst '=' (formPair p) = some (formEncode p.1, formEncode p.2) :=
  splitFirst_append (not_mem_formEncode (by decide) (by decide) (by decide) _) _

end OpsMaxx.Strings
