import OpsMaxx.Access.KeyLine

/-!
# The same key on both sides

The trimmed and cleaned line keeps the two words that sshd reads, the options are cut off at the same
blank, and from there the blob gives the fingerprint or a problem.
-/

set_option autoImplicit false

namespace OpsMaxx.Access

open Strings

/-! ## Words between blanks -/

theorem token_afterToken (t : Text) : token t ++ afterToken t = t :=
  List.takeWhile_append_dropWhile

theorem afterToken_head {t : Text} {c : Char} (h : (afterToken t).head? = some c) :
    isBlank c = true := by
  have hnot := List.head?_dropWhile_not (fun c => !isBlank c) t
  rw [show t.dropWhile (fun c => !isBlank c) = afterToken t from rfl, h] at hnot
  simpa using hnot

/-- A word without blanks in front of nothing, or of a blank, is the token. -/
theorem token_append {s u : Text} (hs : ∀ c ∈ s, isBlank c = false)
    (hu : ∀ c, u.head? = some c → isBlank c = true) :
    token (s ++ u) = s ∧ afterToken (s ++ u) = u := by
  have hs' : ∀ c ∈ s, (!isBlank c) = true := fun c hc => by rw [hs c hc]; rfl
  unfold token afterToken
  rw [List.takeWhile_append_of_pos hs', List.dropWhile_append_of_pos hs']
  cases u with
  | nil => simp
  | cons c u => simp [hu c rfl]

theorem skipBlanks_append {s u : Text} (hs : ∀ c ∈ s, isBlank c = true)
    (hu : ∀ c, u.head? = some c → isBlank c = false) : skipBlanks (s ++ u) = u := by
  unfold skipBlanks
  rw [List.dropWhile_append_of_pos hs]
  cases u with
  | nil => rfl
  | cons c u => rw [List.dropWhile_cons_of_neg (by simp [hu c rfl])]

theorem splitBlanks_eq (t : Text) :
    splitBlanks t =
      token t :: (if afterToken t = [] then [] else splitBlanks (skipBlanks (afterToken t))) := by
  induction t with
  | nil => rfl
  | cons c t ih =>
    by_cases hc : isBlank c = true
    · have htoken : token (c :: t) = [] := by simp [token, hc]
      have hafter : afterToken (c :: t) = c :: t := by simp [afterToken, hc]
      have hskip : skipBlanks (c :: t) = skipBlanks t := by simp [skipBlanks, hc]
      rw [htoken, hafter, hskip, if_neg (by simp), splitBlanks, if_pos hc]
      split_ifs with hnext
      · cases t with
        | nil => cases hnext
        | cons d t =>
          have hd : isBlank d = true := by simpa using hnext
          rw [ih]
          simp [token, afterToken, hd]
      · congr 1
        cases t with
        | nil => rfl
        | cons d t =>
          have hd : isBlank d = false := by simpa using hnext
          simp [skipBlanks, hd]
    · have htoken : token (c :: t) = c :: token t := by simp [token, hc]
      have hafter : afterToken (c :: t) = afterToken t := by simp [afterToken, hc]
      rw [htoken, hafter, splitBlanks, if_neg hc, ih]

theorem splitBlanks_first (t : Text) : (splitBlanks t).headD [] = token t := by
  rw [splitBlanks_eq]
  rfl

theorem splitBlanks_second (t : Text) :
    (splitBlanks t).tail.headD [] = token (skipBlanks (afterToken t)) := by
  rw [splitBlanks_eq, List.tail_cons]
  split_ifs with h
  · rw [h]
    rfl
  · exact splitBlanks_first _

/-- Without quotes in it the options field is the first token. -/
theorem scanOptions_token {t options rest : Text} (hscan : scanOptions false t = some (options, rest))
    (hquote : '"' ∉ token t) : options = token t ∧ rest = afterToken t := by
  induction t generalizing options with
  | nil => cases hscan
  | cons c t ih =>
    by_cases hb : isBlank c = true
    · rw [scanOptions_blank hb] at hscan
      cases hscan
      simp [token, afterToken, hb]
    · have htoken : token (c :: t) = c :: token t := by simp [token, hb]
      have hafter : afterToken (c :: t) = afterToken t := by simp [afterToken, hb]
      rw [htoken] at hquote ⊢
      have hc : c ≠ '"' := fun h => hquote (h ▸ List.mem_cons_self)
      rw [scanOptions_plain hc (by simpa using hb)] at hscan
      obtain ⟨found, hfound, heq⟩ := Option.map_eq_some_iff.mp hscan
      cases heq
      obtain ⟨hfirst, hrest⟩ := ih hfound fun h => hquote (List.mem_cons_of_mem _ h)
      exact ⟨by rw [hfirst], by rw [hrest, hafter]⟩

/-! ## Cleaning and trimming -/

/-- A character that cleaning leaves alone and trimming does not take off. -/
def isKept (c : Char) : Bool := !isSpace c && !isUnsafe c

theorem isSpace_cleanChar (c : Char) : isSpace (cleanChar c) = (isSpace c || isUnsafe c) := by
  unfold cleanChar
  split_ifs with h
  · rw [h, Bool.or_true]
    decide
  · simp [h]

theorem isBlank_isSpace {c : Char} (h : isBlank c = true) : isSpace c = true := by
  simp only [isBlank, Bool.or_eq_true, decide_eq_true_eq] at h
  obtain rfl | rfl := h <;> decide

theorem isBlank_cleanChar {c : Char} (h : isBlank c = true) : isBlank (cleanChar c) = true := by
  simp only [isBlank, Bool.or_eq_true, decide_eq_true_eq] at h
  obtain rfl | rfl := h <;> decide

theorem isBlank_of_kept {c : Char} (h : isKept c = true) : isBlank c = false := by
  by_contra hb
  rw [isKept, isBlank_isSpace (by simpa using hb)] at h
  cases h

theorem clean_of_kept {s : Text} (h : ∀ c ∈ s, isKept c = true) : clean s = s := by
  unfold clean
  refine (List.map_congr_left fun c hc => ?_).trans s.map_id
  have hc := h c hc
  simp only [isKept, Bool.and_eq_true, Bool.not_eq_true'] at hc
  exact cleanChar_eq hc.2

theorem clean_append (s t : Text) : clean (s ++ t) = clean s ++ clean t := List.map_append

theorem trim_clean (raw : Text) : trim (clean raw) = trimEnd (clean (lead raw)) := by
  unfold trim trimStart clean lead
  rw [List.dropWhile_map]
  congr 3
  funext c
  exact isSpace_cleanChar c

/-- Text that ends with a kept character holds off what is trimmed behind it. -/
theorem trimEnd_append {s : Text} (hne : s ≠ []) (hs : ∀ c ∈ s, isKept c = true) (x y : Text) :
    trimEnd (x ++ s ++ y) = x ++ s ++ trimEnd y := by
  apply rdropWhile_append
  have hlast := hs _ (List.getLast_mem hne)
  rw [← List.dropLast_append_getLast hne, ← List.append_assoc]
  apply rdropWhile_concat
  simp only [isKept, Bool.and_eq_true, Bool.not_eq_true'] at hlast
  exact hlast.1

theorem rdropWhile_head {α : Type} {p : α → Bool} {x : List α} {a : α}
    (h : (x.rdropWhile p).head? = some a) : x.head? = some a := by
  obtain ⟨y, hy⟩ := List.rdropWhile_prefix p x
  rw [← hy, List.head?_append, h]
  rfl

/-- The words of a line are still there when it is cleaned and trimmed. -/
theorem body_words {b type b64 : Text} (htype : ∀ c ∈ type, isKept c = true)
    (hb64 : ∀ c ∈ b64, isKept c = true) (hne : b64 ≠ []) (hfirst : token b = type)
    (hsecond : token (skipBlanks (afterToken b)) = b64) :
    token (trimEnd (clean b)) = type ∧
      token (skipBlanks (afterToken (trimEnd (clean b)))) = b64 := by
  have hsplit := token_afterToken b
  have hrest := token_afterToken (skipBlanks (afterToken b))
  have hgap : (afterToken b).takeWhile isBlank ++ skipBlanks (afterToken b) = afterToken b :=
    List.takeWhile_append_dropWhile
  rw [hfirst] at hsplit
  rw [hsecond] at hrest
  have hblanks := List.all_takeWhile (l := afterToken b) (p := isBlank)
  rw [List.all_eq_true] at hblanks
  generalize hgapEq : (afterToken b).takeWhile isBlank = gap at hgap hblanks
  generalize htail : afterToken (skipBlanks (afterToken b)) = tail at hrest
  have hclean : clean b = type ++ clean gap ++ b64 ++ clean tail := by
    conv => lhs; rw [← hsplit, ← hgap, ← hrest]
    simp only [clean_append, clean_of_kept htype, clean_of_kept hb64, List.append_assoc]
  have hcleanGap : ∀ c ∈ clean gap, isBlank c = true := by
    intro c hc
    obtain ⟨d, hd, rfl⟩ := List.mem_map.mp hc
    exact isBlank_cleanChar (hblanks d hd)
  have hbehind : ∀ c, (trimEnd (clean tail)).head? = some c → isBlank c = true := by
    intro c hc
    have hc := rdropWhile_head hc
    rw [clean, List.head?_map] at hc
    obtain ⟨d, hd, rfl⟩ := Option.map_eq_some_iff.mp hc
    exact isBlank_cleanChar (afterToken_head (htail ▸ hd))
  have hgapNe : gap ≠ [] := by
    rintro rfl
    cases hafter : afterToken b with
    | nil =>
      rw [hafter] at hsecond
      exact hne hsecond.symm
    | cons c t =>
      have hc := afterToken_head (c := c) (by rw [hafter]; rfl)
      rw [hafter, List.takeWhile_cons_of_pos hc] at hgapEq
      cases hgapEq
  rw [hclean, trimEnd_append hne hb64, List.append_assoc, List.append_assoc]
  have hword : token (b64 ++ trimEnd (clean tail)) = b64 :=
    (token_append (fun c hc => isBlank_of_kept (hb64 c hc)) hbehind).1
  have hskip : skipBlanks (clean gap ++ (b64 ++ trimEnd (clean tail))) =
      b64 ++ trimEnd (clean tail) := by
    apply skipBlanks_append hcleanGap
    intro c hc
    obtain ⟨d, s, rfl⟩ := List.exists_cons_of_ne_nil hne
    rw [← Option.some.inj hc]
    exact isBlank_of_kept (hb64 d List.mem_cons_self)
  obtain ⟨htoken, hafter⟩ := token_append (s := type) (u := clean gap ++ (b64 ++ trimEnd (clean tail)))
    (fun c hc => isBlank_of_kept (htype c hc)) (by
      intro c hc
      obtain ⟨d, s, rfl⟩ := List.exists_cons_of_ne_nil hgapNe
      rw [← Option.some.inj hc]
      exact hcleanGap _ List.mem_cons_self)
  rw [htoken, hafter, hskip, hword]
  exact ⟨rfl, rfl⟩

/-! ## What a blob says -/

/-- The listed types are plain words with a hyphen. -/
theorem keyType_spec {type : Text} (h : type ∈ KEY_TYPES) :
    type ≠ [] ∧ '-' ∈ type ∧ ∀ c ∈ type, isKept c = true ∧ c ≠ '"' := by
  have hall : ∀ type ∈ KEY_TYPES,
      type ≠ [] ∧ '-' ∈ type ∧ ∀ c ∈ type, isKept c = true ∧ c ≠ '"' := by
    decide
  exact hall type h

theorem decodeBase64_hyphen {t : Text} (h : '-' ∈ t) : decodeBase64 t = none := by
  have hsplit : t.rdropWhile isPad ++ t.rtakeWhile isPad = t := List.rdropWhile_append_rtakeWhile
  rw [← hsplit, List.mem_append] at h
  have hmem : '-' ∈ t.rdropWhile isPad := by
    refine h.resolve_right fun hpad => ?_
    exact absurd (List.mem_rtakeWhile_imp hpad) (by decide)
  unfold decodeBase64
  simp only
  rw [if_pos]
  simp only [Bool.or_eq_true, decide_eq_true_eq, List.any_eq_true]
  exact Or.inl (Or.inr ⟨'-', hmem, by decide⟩)

theorem isKept_type {type : Text} (h : type ∈ KEY_TYPES) : ∀ c ∈ type, isKept c = true :=
  fun c hc => ((keyType_spec h).2.2 c hc).1

theorem type_ne_nil {type : Text} (h : type ∈ KEY_TYPES) : type ≠ [] := (keyType_spec h).1

theorem quote_not_mem_type {type : Text} (h : type ∈ KEY_TYPES) : '"' ∉ type :=
  fun hmem => ((keyType_spec h).2.2 _ hmem).2 rfl

theorem isKept_encodeBase64 (b : Bytes) : ∀ c ∈ encodeBase64 b, isKept c = true := by
  have hall : ∀ c ∈ '=' :: Sidecar.base64Alphabet, isKept c = true := by decide
  exact fun c hc => hall c (Sidecar.base64Encode_mem b c hc)

theorem encodeBase64_ne_nil {b : Bytes} (hb : b ≠ []) : encodeBase64 b ≠ [] := by
  intro h
  have hdecode := decodeBase64_encode hb
  rw [h] at hdecode
  cases hdecode

theorem KeyBlob.ne_nil {type : Text} {blob key : Bytes} (h : KeyBlob type blob key) : blob ≠ [] := by
  unfold KeyBlob at h
  split at h
  · obtain ⟨⟨rest, rfl⟩, -⟩ := h
    simp [sshEncode, sshLength]
  · obtain ⟨nonce, fields, rest, -, -, rfl, -⟩ := h
    simp [sshEncode, sshLength]

/-- The certified key is the one inside, or there is none to be had. -/
theorem certifiedKeyBlob_of_keyBlob {type : Text} {inner : CertInner} {blob key : Bytes}
    (hinner : CERT_INNER.lookup type = some inner) (hkey : KeyBlob type blob key)
    {certified : Text × Bytes} (hcertified : certifiedKeyBlob type blob = some certified) :
    certified.2 = key := by
  unfold KeyBlob at hkey
  rw [hinner] at hkey
  obtain ⟨nonce, fields, rest, hcount, hlengths, rfl, rfl⟩ := hkey
  unfold certifiedKeyBlob at hcertified
  rw [hinner] at hcertified
  simp only at hcertified
  have hwant : 2 + inner.fields = (asciiBytes type :: nonce :: fields).length := by
    simp only [List.length_cons]
    omega
  cases hfields : sshFields (sshEncode (asciiBytes type :: nonce :: fields) ++ rest)
      (2 + inner.fields) with
  | none =>
    rw [hfields] at hcertified
    cases hcertified
  | some found =>
    rw [hfields] at hcertified
    simp only at hcertified
    split_ifs at hcertified with hlength hname
    have hall : ∀ p ∈ asciiBytes type :: nonce :: fields, p.length < 2 ^ 32 := by
      intro p hp
      obtain rfl | hp := List.mem_cons.mp hp
      · have hshort : ∀ entry ∈ CERT_INNER, (asciiBytes entry.1).length < 2 ^ 32 := by
          decide
        obtain ⟨before, after, heq, -⟩ := List.lookup_eq_some_iff.mp hinner
        exact hshort (type, inner) (by simp [heq])
      · exact hlengths p hp
    rw [hwant] at hfields
    have heq := sshFields_encode hall rest hfields (by rw [← hwant]; exact not_not.mp hlength)
    rw [← Option.some.inj hcertified, heq]
    rfl

/-- A line without a fingerprint that says why. -/
def Faulty (k : AuthorizedKey) : Prop := k.fingerprint = none ∧ k.problem ≠ none

theorem Faulty.of_problem {base k : AuthorizedKey} {p : KeyProblem} (hbase : Faulty base)
    (hfingerprint : k.fingerprint = base.fingerprint) (hproblem : k.problem = some p) : Faulty k :=
  ⟨hfingerprint.trans hbase.1, by rw [hproblem]; exact Option.some_ne_none p⟩

theorem keyOf_trusted {base : AuthorizedKey} (hbase : Faulty base) {type : Text} {blob key : Bytes}
    (hkey : KeyBlob type blob key) (sha256 : Bytes → Bytes) (truncated : Bool) :
    (keyOf base type (encodeBase64 blob) sha256 truncated).fingerprint =
        some (sshFingerprint sha256 key) ∨
      Faulty (keyOf base type (encodeBase64 blob) sha256 truncated) := by
  unfold keyOf
  by_cases hempty : (type = [] || encodeBase64 blob = []) = true
  · rw [if_pos hempty]
    exact Or.inr hbase
  rw [if_neg hempty]
  by_cases hknown : type ∉ KEY_TYPES
  · rw [if_pos hknown]
    exact Or.inr (hbase.of_problem rfl rfl)
  rw [if_neg hknown, decodeBase64_encode hkey.ne_nil]
  cases truncated with
  | true => exact Or.inr (hbase.of_problem rfl rfl)
  | false =>
    simp only [Bool.false_eq_true, if_false]
    by_cases hname : innerName (some blob) ≠ type
    · rw [if_pos hname]
      exact Or.inr (hbase.of_problem rfl rfl)
    rw [if_neg hname]
    cases hinner : CERT_INNER.lookup type with
    | none =>
      left
      unfold KeyBlob at hkey
      rw [hinner] at hkey
      rw [if_neg (by simp [isCertificateType, hinner]), hkey.2]
    | some inner =>
      rw [if_pos (by simp [isCertificateType, hinner])]
      cases hcertified : certifiedKeyBlob type blob with
      | none => exact Or.inr (hbase.of_problem rfl rfl)
      | some certified =>
        left
        simp only [certifiedKeyBlob_of_keyBlob hinner hkey hcertified]

theorem keyOf_wrong {base : AuthorizedKey} (hbase : Faulty base) {rawType blob64 : Text}
    (hwrong : rawType ∉ KEY_TYPES ∨ decodeBase64 blob64 = none) (sha256 : Bytes → Bytes)
    (truncated : Bool) : Faulty (keyOf base rawType blob64 sha256 truncated) := by
  unfold keyOf
  by_cases hempty : (rawType = [] || blob64 = []) = true
  · rw [if_pos hempty]
    exact hbase
  rw [if_neg hempty]
  by_cases hknown : rawType ∉ KEY_TYPES
  · rw [if_pos hknown]
    exact hbase.of_problem rfl rfl
  rw [if_neg hknown, hwrong.resolve_left hknown]
  cases truncated with
  | true => exact hbase.of_problem rfl rfl
  | false => exact hbase.of_problem rfl rfl

/-! ## What is left of a line at its beginning -/

theorem lead_cons {c : Char} (h : isKept c = true) (t : Text) : lead (c :: t) = c :: t := by
  simp only [isKept, Bool.and_eq_true, Bool.not_eq_true'] at h
  simp [lead, h.1, h.2]

theorem lead_drop {c : Char} (h : (isSpace c || isUnsafe c) = true) (t : Text) :
    lead (c :: t) = lead t := by
  unfold lead
  rw [List.dropWhile_cons]
  exact if_pos h

theorem lead_skipBlanks (t : Text) : lead (skipBlanks t) = lead t := by
  induction t with
  | nil => rfl
  | cons c t ih =>
    by_cases hc : isBlank c = true
    · have hskip : skipBlanks (c :: t) = skipBlanks t := by simp [skipBlanks, hc]
      rw [hskip, ih, lead_drop (by rw [isBlank_isSpace hc]; rfl)]
    · rw [skipBlanks, List.dropWhile_cons_of_neg hc]

theorem lead_append {s t : Text} (hs : lead s = []) : lead (s ++ t) = lead t := by
  unfold lead at *
  rw [List.dropWhile_append, hs]
  rfl

theorem lead_append_of_ne_nil {s t : Text} (hs : lead s ≠ []) : lead (s ++ t) = lead s ++ t := by
  unfold lead at *
  rw [List.dropWhile_append, if_neg (by simpa using hs)]

theorem lead_of_token {b type : Text} (hfirst : token b = type) (htype : type ∈ KEY_TYPES) :
    lead b = b := by
  obtain ⟨c, t, hcons⟩ := List.exists_cons_of_ne_nil (type_ne_nil htype)
  have hc : isKept c = true := isKept_type htype c (hcons ▸ List.mem_cons_self)
  rw [← token_afterToken b, hfirst, hcons]
  exact lead_cons hc _

/-- Without what trimming takes off its beginning the options field is still the one in front of the
same text. -/
theorem optionsField_lead (t : Text) :
    optionsField false (lead (optionsField false t).1 ++ (optionsField false t).2) =
      (lead (optionsField false t).1, (optionsField false t).2) := by
  induction t with
  | nil => rfl
  | cons c t ih =>
    by_cases hkept : (isSpace c || isUnsafe c) = true
    · have hc : c ≠ '"' := by
        rintro rfl
        revert hkept
        decide
      have hback : c ≠ '\\' := by
        rintro rfl
        revert hkept
        decide
      have hcons := optionsField_cons (q := false) (t := t) fun h => hback h.1
      rw [if_neg hc] at hcons
      by_cases hb : isBlank c = true
      · rw [if_pos (by simpa using hb)] at hcons
        rw [hcons]
        exact hcons
      · rw [if_neg (by simpa using hb)] at hcons
        rw [hcons]
        simp only [lead_drop hkept]
        exact ih
    · have hself : lead (optionsField false (c :: t)).1 = (optionsField false (c :: t)).1 := by
        cases hfield : (optionsField false (c :: t)).1 with
        | nil => rfl
        | cons d s =>
          have happend := optionsField_append false (c :: t)
          rw [hfield] at happend
          obtain ⟨rfl, -⟩ := List.cons.inj happend
          apply lead_cons
          simpa [isKept] using hkept
      rw [hself, optionsField_append]

/-- A line that trusts a key is, after cleaning and trimming its beginning, the body or an options
field in front of the blanks and the body. -/
theorem lead_of_sshdReads {raw type b64 : Text} (hreads : sshdReads raw = some (type, b64))
    (htype : type ∈ KEY_TYPES) :
    ∃ b, token b = type ∧ token (skipBlanks (afterToken b)) = b64 ∧
      (lead raw = b ∨ ∃ o w, lead raw = o ++ w ∧ skipBlanks w = b ∧ o ≠ [] ∧
        optionsField false (o ++ w) = (o, w)) := by
  unfold sshdReads at hreads
  simp only at hreads
  split_ifs at hreads with hempty hknown
  · cases hreads
    refine ⟨skipBlanks raw, rfl, rfl, Or.inl ?_⟩
    rw [← lead_skipBlanks, lead_of_token rfl htype]
  · cases hreads
    refine ⟨skipBlanks (optionsField false (skipBlanks raw)).2, rfl, rfl, ?_⟩
    have hsplit := optionsField_append false (skipBlanks raw)
    by_cases hnil : lead (optionsField false (skipBlanks raw)).1 = []
    · left
      rw [← lead_skipBlanks raw]
      conv => lhs; rw [← hsplit]
      rw [lead_append hnil, ← lead_skipBlanks, lead_of_token rfl htype]
    · right
      refine ⟨lead (optionsField false (skipBlanks raw)).1, (optionsField false (skipBlanks raw)).2,
        ?_, rfl, hnil, optionsField_lead _⟩
      rw [← lead_skipBlanks raw]
      conv => lhs; rw [← hsplit]
      exact lead_append_of_ne_nil hnil

/-! ## The two readings -/

theorem readBody_eq {base : AuthorizedKey} (hbase : Faulty base) (body : Text)
    (sha256 : Bytes → Bytes) (truncated : Bool) :
    ∃ named, Faulty named ∧ readBody base body sha256 truncated =
      keyOf named (token body) (token (skipBlanks (afterToken body))) sha256 truncated := by
  rw [← splitBlanks_first, ← splitBlanks_second]
  have hnamed : ∀ comment rawType,
      Faulty { base with comment := comment, rawType := rawType } := fun _ _ => hbase
  exact ⟨_, hnamed _ _, rfl⟩

/-- What trimming takes off the end does not reach what is before something it leaves. -/
theorem trimEnd_append_of_ne_nil (x : Text) {y : Text} (hy : trimEnd y ≠ []) :
    trimEnd (x ++ y) = x ++ trimEnd y := by
  unfold trimEnd List.rdropWhile at *
  rw [List.reverse_append, List.dropWhile_append, if_neg]
  · simp
  · simpa using hy

theorem cleanChar_hash {c : Char} (h : cleanChar c = '#') : c = '#' := by
  unfold cleanChar at h
  split_ifs at h
  · exact absurd h (by decide)
  · exact h

/-- The text begins with the mark of a comment only if the line does. -/
theorem head_trimEnd_clean {s : Text} (h : (trimEnd (clean s)).head? = some '#') :
    s.head? = some '#' := by
  have hclean := rdropWhile_head h
  rw [clean, List.head?_map] at hclean
  obtain ⟨c, hc, hhash⟩ := Option.map_eq_some_iff.mp hclean
  rw [hc, cleanChar_hash hhash]

/-- Behind an options field that both readings end at the same place, the text is read as it stands
there. -/
theorem splitKeyOptions_of_inStep {o w b : Text} (hfield : optionsField false (o ++ w) = (o, w))
    (hstep : inStep false (o ++ w) = true) (hskip : skipBlanks w = b)
    (hne : trimEnd (clean b) ≠ []) (hkept : ∀ c, (trimEnd (clean b)).head? = some c → isBlank c = false) :
    ∃ z, trimEnd (clean (o ++ w)) = clean o ++ z ∧ scanOptions false (clean o ++ z) = some (clean o, z) ∧
      skipBlanks z = trimEnd (clean b) := by
  have hgap : w.takeWhile isBlank ++ b = w := by
    rw [← hskip]
    exact List.takeWhile_append_dropWhile
  have hblanks := List.all_takeWhile (l := w) (p := isBlank)
  rw [List.all_eq_true] at hblanks
  have hcleanGap : ∀ c ∈ clean (w.takeWhile isBlank), isBlank c = true := by
    intro c hc
    obtain ⟨d, hd, rfl⟩ := List.mem_map.mp hc
    exact isBlank_cleanChar (hblanks d hd)
  have hw : trimEnd (clean w) = clean (w.takeWhile isBlank) ++ trimEnd (clean b) := by
    conv => lhs; rw [← hgap]
    rw [clean_append, trimEnd_append_of_ne_nil _ hne]
  have hwne : trimEnd (clean w) ≠ [] := by
    rw [hw]
    simp [hne]
  refine ⟨trimEnd (clean w), ?_, ?_, ?_⟩
  · rw [clean_append, trimEnd_append_of_ne_nil _ hwne]
  · have hscan := scan_of_inStep hstep (w := trimEnd (clean w))
    rw [hfield] at hscan
    apply hscan
    · rintro rfl
      exact hwne rfl
    · cases w with
      | nil => exact absurd rfl hwne
      | cons c w =>
        have hc : isBlank c = true := optionsField_behind false (o ++ c :: w) (by rw [hfield]; rfl)
        rw [hw, List.takeWhile_cons_of_pos hc]
        simpa [clean] using isBlank_cleanChar hc
  · rw [hw]
    exact skipBlanks_append hcleanGap hkept

/-- A line that sshd takes as trusting a key, and that is not read as a comment or with its quotes out
of step, is read with the fingerprint of that key or with a problem. -/
theorem parseAuthorizedKeyLine_trusted {raw : Text} {key : Bytes} (hplain : Plain raw)
    (htrust : Trusts raw key) (line : Nat) (sha256 : Bytes → Bytes) (truncated : Bool) :
    ∃ k, parseAuthorizedKeyLine raw line sha256 truncated = some k ∧
      (k.fingerprint = some (sshFingerprint sha256 key) ∨
        (k.fingerprint = none ∧ k.problem ≠ none)) := by
  obtain ⟨type, blob, hreads, htype, hkey⟩ := htrust
  obtain ⟨hhash, hstep⟩ := hplain
  obtain ⟨b, hfirst, hsecond, hlead⟩ := lead_of_sshdReads hreads htype
  obtain ⟨hword, hword'⟩ := body_words (isKept_type htype) (isKept_encodeBase64 blob)
    (encodeBase64_ne_nil hkey.ne_nil) hfirst hsecond
  have hreadBody : ∀ base, Faulty base →
      (readBody base (trimEnd (clean b)) sha256 truncated).fingerprint =
          some (sshFingerprint sha256 key) ∨
        Faulty (readBody base (trimEnd (clean b)) sha256 truncated) := by
    intro base hbase
    obtain ⟨named, hnamed, heq⟩ := readBody_eq hbase (trimEnd (clean b)) sha256 truncated
    rw [heq, hword, hword']
    exact keyOf_trusted hnamed hkey sha256 truncated
  have hbase : Faulty (baseKey line) := ⟨rfl, by simp [baseKey]⟩
  have hbne : trimEnd (clean b) ≠ [] := by
    intro h
    rw [h] at hword
    exact type_ne_nil htype hword.symm
  unfold parseAuthorizedKeyLine
  simp only [trim_clean]
  obtain hlead | ⟨o, w, hlead, hskip, ho, hfield⟩ := hlead
  · rw [hlead] at hhash ⊢
    have hbody : bodyOf (trimEnd (clean b)) = (none, trimEnd (clean b)) := by
      unfold bodyOf
      rw [splitBlanks_first, hword]
      cases splitKeyOptions (trimEnd (clean b)) with
      | none => rfl
      | some found => simp [htype]
    rw [if_neg, hbody]
    · exact ⟨_, rfl, hreadBody _ hbase⟩
    · simp only [Bool.or_eq_true, decide_eq_true_eq, not_or]
      exact ⟨hbne, fun h => hhash (head_trimEnd_clean h)⟩
  · rw [hlead] at hhash hstep ⊢
    have hkept : ∀ c, (trimEnd (clean b)).head? = some c → isBlank c = false := by
      intro c hc
      obtain ⟨d, s, hcons⟩ := List.exists_cons_of_ne_nil (type_ne_nil htype)
      rw [← token_afterToken (trimEnd (clean b)), hword, hcons] at hc
      rw [← Option.some.inj hc]
      exact isBlank_of_kept (isKept_type htype d (hcons ▸ List.mem_cons_self))
    obtain ⟨z, htext, hscan, hz⟩ := splitKeyOptions_of_inStep hfield hstep hskip hbne hkept
    have hsplit : splitKeyOptions (clean o ++ z) = some (clean o, trimEnd (clean b)) := by
      unfold splitKeyOptions
      rw [hscan]
      simp only [hz]
      rw [if_neg hbne]
    rw [if_neg]
    · refine ⟨_, rfl, ?_⟩
      rw [htext]
      unfold bodyOf
      rw [hsplit, splitBlanks_first]
      simp only
      split_ifs with hoptions
      · exact hreadBody _ ⟨rfl, by simp [withOptions, baseKey]⟩
      · right
        obtain ⟨named, hnamed, heq⟩ := readBody_eq hbase (clean o ++ z) sha256 truncated
        simp only
        rw [heq]
        apply keyOf_wrong hnamed
        by_cases hknown : token (clean o ++ z) ∈ KEY_TYPES
        · right
          obtain ⟨-, hbehind⟩ := scanOptions_token hscan (quote_not_mem_type hknown)
          rw [← hbehind, hz, hword]
          exact decodeBase64_hyphen (keyType_spec htype).2.1
        · exact Or.inl hknown
    · simp only [Bool.or_eq_true, decide_eq_true_eq, not_or]
      refine ⟨?_, fun h => hhash (head_trimEnd_clean h)⟩
      rw [htext]
      simpa [clean] using fun h => absurd h ho

/-- A key of 32 equal bytes. -/
def ed25519Key (byte : UInt8) : Bytes :=
  sshEncode [asciiBytes "ssh-ed25519".toList, List.replicate 32 byte]

def ed25519Line (options : String) (byte : UInt8) : Text :=
  options.toList ++ "ssh-ed25519 ".toList ++ encodeBase64 (ed25519Key byte)

theorem parseAuthorizedKeyLine_trusted_from :
    ∃ k, parseAuthorizedKeyLine (ed25519Line "from=\"10.0.0.1\",no-pty " 7) 1 (·.take 32) false =
        some k ∧
      (k.fingerprint = some (sshFingerprint (·.take 32) (ed25519Key 7)) ∨
        (k.fingerprint = none ∧ k.problem ≠ none)) :=
  parseAuthorizedKeyLine_trusted
    (show Plain (ed25519Line "from=\"10.0.0.1\",no-pty " 7) by unfold Plain; decide)
    ⟨"ssh-ed25519".toList, ed25519Key 7, by decide, by decide,
      ⟨_, rfl⟩, rfl⟩ 1 _ false

/-- sshd reads the quote behind the two backslashes as escaped and goes on to the second key. The code
reads it as the end of the command. -/
theorem parseAuthorizedKeyLine_misreads :
    ¬ ∀ raw key, Trusts raw key → ∀ line sha256 truncated,
      ∃ k, parseAuthorizedKeyLine raw line sha256 truncated = some k ∧
        (k.fingerprint = some (sshFingerprint sha256 key) ∨
          (k.fingerprint = none ∧ k.problem ≠ none)) := by
  intro hall
  obtain ⟨k, hk, hreport⟩ := hall
    (ed25519Line "command=\"a\\\\\" " 1 ++ ed25519Line " \" " 2) (ed25519Key 2)
    ⟨"ssh-ed25519".toList, ed25519Key 2, by decide, by decide, ⟨_, rfl⟩, rfl⟩
    1 id false
  have hfirst : ((parseAuthorizedKeyLine
      (ed25519Line "command=\"a\\\\\" " 1 ++ ed25519Line " \" " 2) 1 id false).bind
        AuthorizedKey.fingerprint) = some (sshFingerprint id (ed25519Key 1)) := by
    decide +kernel
  rw [hk, Option.bind_some] at hfirst
  rw [hfirst] at hreport
  obtain hsame | hnone := hreport
  · exact absurd hsame (by decide)
  · cases hnone.1

end OpsMaxx.Access
