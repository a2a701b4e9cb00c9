import Mathlib.Data.List.DropRight
import Mathlib.Data.List.TakeWhile

/-! # Text, its white space and its words

A text is its list of characters. White space is what a JavaScript `\s` matches, which is also what
`trim` takes off.
-/

set_option autoImplicit false

namespace OpsMaxx.Strings

abbrev Text : Type := List Char

/-- Named once, so that membership in a list of texts is decided alike everywhere. -/
instance lawfulText : LawfulBEq Text := inferInstance

def isSpace (c : Char) : Bool :=
  c.toNat ∈ [9, 10, 11, 12, 13, 32, 0xa0, 0x1680, 0x2028, 0x2029, 0x202f, 0x205f, 0x3000,
    0xfeff] || (0x2000 ≤ c.toNat && c.toNat ≤ 0x200a)

def isInk (c : Char) : Bool := !isSpace c

/-- The printable characters of ASCII are none of the white space. -/
theorem isInk_of_graphic {c : Char} (hlo : 32 < c.toNat) (hhi : c.toNat < 127) :
    isInk c = true := by
  simp only [isInk, isSpace, List.mem_cons, List.not_mem_nil, or_false, Bool.not_eq_true',
    Bool.or_eq_false_iff, decide_eq_false_iff_not, Bool.and_eq_false_iff]
  omega

theorem isUpper_iff {c : Char} : c.isUpper = true ↔ 65 ≤ c.toNat ∧ c.toNat ≤ 90 := decide_eq_true_iff

theorem isAlpha_iff {c : Char} : c.isAlpha = true ↔
    65 ≤ c.toNat ∧ c.toNat ≤ 90 ∨ 97 ≤ c.toNat ∧ c.toNat ≤ 122 :=
  Bool.or_eq_true_iff.trans (or_congr isUpper_iff
    (Bool.and_eq_true_iff.trans (and_congr decide_eq_true_iff decide_eq_true_iff)))

theorem isDigit_iff {c : Char} : c.isDigit = true ↔ 48 ≤ c.toNat ∧ c.toNat ≤ 57 :=
  Bool.and_eq_true_iff.trans (and_congr decide_eq_true_iff decide_eq_true_iff)

theorem isAlphanum_iff {c : Char} : c.isAlphanum = true ↔
    (65 ≤ c.toNat ∧ c.toNat ≤ 90 ∨ 97 ≤ c.toNat ∧ c.toNat ≤ 122) ∨ 48 ≤ c.toNat ∧ c.toNat ≤ 57 :=
  Bool.or_eq_true_iff.trans (or_congr isAlpha_iff isDigit_iff)

theorem isInk_of_isAlpha {c : Char} (h : c.isAlpha = true) : isInk c = true := by
  have hrange := isAlpha_iff.mp h
  exact isInk_of_graphic (by omega) (by omega)

theorem isInk_of_isDigit {c : Char} (h : c.isDigit = true) : isInk c = true := by
  have hrange := isDigit_iff.mp h
  exact isInk_of_graphic (by omega) (by omega)

/-- What `.` does not match. -/
def isLineTerminator (c : Char) : Bool := c.toNat ∈ [10, 13, 0x2028, 0x2029]

def trimStart (s : Text) : Text := s.dropWhile isSpace

def trimEnd (s : Text) : Text := s.rdropWhile isSpace

def trim (s : Text) : Text := trimEnd (trimStart s)

/-- The white space `trimStart` takes off. -/
def leading (s : Text) : Text := s.takeWhile isSpace

/-- The white space `trimEnd` takes off. -/
def trailing (s : Text) : Text := s.rtakeWhile isSpace

theorem leading_trimStart (s : Text) : leading s ++ trimStart s = s :=
  List.takeWhile_append_dropWhile

theorem trimEnd_trailing (s : Text) : trimEnd s ++ trailing s = s := by
  unfold trimEnd trailing List.rdropWhile List.rtakeWhile
  rw [← List.reverse_append, List.takeWhile_append_dropWhile, List.reverse_reverse]

/-- White space, what is left after trimming, and white space again make up a text that is not all
white space. -/
theorem leading_trim_trailing {s : Text} (h : trim s ≠ []) :
    leading s ++ trim s ++ trailing s = s := by
  have hstart := leading_trimStart s
  have hend := trimEnd_trailing (trimStart s)
  have htrail : trailing s = trailing (trimStart s) := by
    unfold trailing List.rtakeWhile
    conv => lhs; rw [← hstart]
    rw [List.reverse_append, List.takeWhile_append, if_neg]
    intro hlen
    apply h
    have hall : (trimStart s).reverse.takeWhile isSpace = (trimStart s).reverse :=
      (List.takeWhile_prefix _).eq_of_length hlen
    show trimEnd (trimStart s) = []
    unfold trimEnd List.rdropWhile
    rw [List.dropWhile_eq_nil_iff.mpr]
    · rfl
    · exact List.takeWhile_eq_self_iff.mp hall
  rw [htrail, List.append_assoc]
  unfold trim
  rw [hend, hstart]

theorem trim_subset (s : Text) : trim s ⊆ s := by
  intro c hc
  have h₁ : c ∈ trimStart s := by
    rw [← trimEnd_trailing (trimStart s)]
    exact List.mem_append_left _ hc
  rw [← leading_trimStart s]
  exact List.mem_append_right _ h₁

theorem not_mem_of_ink {t : Text} {c : Char} (h : ∀ x ∈ t, isInk x = true)
    (hc : isInk c = false) : c ∉ t := by
  intro hmem
  rw [h c hmem] at hc
  cases hc

theorem trim_of_ink {t : Text} (h : ∀ x ∈ t, isInk x = true) : trim t = t := by
  have hspace : ∀ x ∈ t, isSpace x = false := by
    intro x hx
    simpa [isInk] using h x hx
  have hstart : trimStart t = t := by
    cases t with
    | nil => rfl
    | cons c cs =>
      unfold trimStart
      rw [List.dropWhile_cons_of_neg]
      simp [hspace c List.mem_cons_self]
  unfold trim
  rw [hstart]
  unfold trimEnd List.rdropWhile
  cases hrev : t.reverse with
  | nil =>
    rw [List.reverse_eq_nil_iff.mp hrev]
    rfl
  | cons c cs =>
    rw [List.dropWhile_cons_of_neg, ← hrev, List.reverse_reverse]
    have hc : c ∈ t := by
      rw [← List.mem_reverse, hrev]
      exact List.mem_cons_self
    simp [hspace c hc]

/-! ## Words -/

/-- The runs of characters between white space. -/
def words : Text → List Text
  | [] => []
  | c :: cs =>
    if isSpace c then words cs
    else if (cs.head?.map isInk).getD false then
      match words cs with
      | [] => [[c]]
      | w :: ws => (c :: w) :: ws
    else [c] :: words cs

/-- A word: some characters, none of them white space. -/
def IsWord (w : Text) : Prop := w ≠ [] ∧ ∀ c ∈ w, isInk c = true

theorem words_isWord (s : Text) : ∀ w ∈ words s, IsWord w := by
  induction s with
  | nil => simp [words]
  | cons c cs ih =>
    unfold words
    split_ifs with hc hnext
    · exact ih
    · have hink : isInk c = true := by simp [isInk, hc]
      split
      · rename_i h
        intro w hw
        rw [List.mem_singleton.mp hw]
        exact ⟨by simp, by simpa using hink⟩
      · rename_i v vs h
        rw [h] at ih
        intro w hw
        rcases List.mem_cons.mp hw with rfl | hw
        · refine ⟨by simp, ?_⟩
          intro d hd
          rcases List.mem_cons.mp hd with rfl | hd
          · exact hink
          · exact (ih v List.mem_cons_self).2 d hd
        · exact ih w (List.mem_cons_of_mem _ hw)
    · have hink : isInk c = true := by simp [isInk, hc]
      intro w hw
      rcases List.mem_cons.mp hw with rfl | hw
      · exact ⟨by simp, by simpa using hink⟩
      · exact ih w hw

/-- `words.join(' ')`. -/
def unwords (ws : List Text) : Text := [' '].intercalate ws

theorem words_space (c : Char) (hc : isSpace c = true) (s : Text) : words (c :: s) = words s := by
  conv => lhs; unfold words
  rw [if_pos hc]

/-- A word in front of white space, or of nothing, is read back whole. -/
theorem words_word_append {w rest : Text} (hw : IsWord w)
    (hrest : ∀ c, rest.head? = some c → isSpace c = true) :
    words (w ++ rest) = w :: words rest := by
  obtain ⟨hne, hink⟩ := hw
  induction w with
  | nil => exact absurd rfl hne
  | cons c cs ih =>
    have hc : isSpace c = false := by simpa [isInk] using hink c List.mem_cons_self
    have hcs : ∀ d ∈ cs, isInk d = true := fun d hd => hink d (List.mem_cons_of_mem _ hd)
    rw [List.cons_append]
    conv => lhs; unfold words
    rw [if_neg (by simp [hc])]
    cases cs with
    | nil =>
      rw [List.nil_append, if_neg]
      cases hr : rest.head? with
      | none => simp
      | some d => simp [isInk, hrest d hr]
    | cons d ds =>
      rw [if_pos (by simpa using hcs d List.mem_cons_self), ih (by simp) hcs]

theorem words_unwords {ws : List Text} (h : ∀ w ∈ ws, IsWord w) : words (unwords ws) = ws := by
  unfold unwords
  induction ws with
  | nil => rfl
  | cons w ws ih =>
    have hw := h w List.mem_cons_self
    have hws : ∀ v ∈ ws, IsWord v := fun v hv => h v (List.mem_cons_of_mem _ hv)
    cases ws with
    | nil =>
      have : words (w ++ []) = w :: words [] := words_word_append hw (by simp)
      simpa [List.intercalate, words] using this
    | cons v vs =>
      have hsplit : [' '].intercalate (w :: v :: vs) = w ++ ' ' :: [' '].intercalate (v :: vs) := by
        simp [List.intercalate, List.intersperse]
      rw [hsplit, words_word_append hw (by simp; decide), words_space ' ' (by decide), ih hws]

theorem words_trimStart (s : Text) : words (trimStart s) = words s := by
  unfold trimStart
  induction s with
  | nil => rfl
  | cons c cs ih =>
    by_cases hc : isSpace c = true
    · rw [List.dropWhile_cons_of_pos hc, ih, words_space c hc]
    · rw [List.dropWhile_cons_of_neg hc]

theorem words_append_space {s sp : Text} (h : ∀ c ∈ sp, isSpace c = true) :
    words (s ++ sp) = words s := by
  induction s with
  | nil =>
    induction sp with
    | nil => rfl
    | cons c cs ih =>
      rw [List.nil_append, words_space c (h c List.mem_cons_self)]
      exact ih fun d hd => h d (List.mem_cons_of_mem _ hd)
  | cons c cs ih =>
    have hhead : ((cs ++ sp).head?.map isInk).getD false = (cs.head?.map isInk).getD false := by
      cases cs with
      | cons d ds => rfl
      | nil =>
        cases sp with
        | nil => rfl
        | cons d ds =>
          have := h d List.mem_cons_self
          simp [isInk, this]
    rw [List.cons_append]
    unfold words
    rw [hhead, ih]

theorem words_trimEnd (s : Text) : words (trimEnd s) = words s := by
  conv => rhs; rw [← trimEnd_trailing s]
  rw [words_append_space]
  intro c hc
  exact List.mem_rtakeWhile_imp hc

theorem words_trim (s : Text) : words (trim s) = words s := by
  unfold trim
  rw [words_trimEnd, words_trimStart]

/-! ## Lower case -/

/-- `toLowerCase`, as far as it can give an ASCII text: the capitals, and the Kelvin sign. -/
def lower (c : Char) : Char := if c.toNat = 0x212a then 'k' else c.toLower

def toLowerCase (s : Text) : Text := s.map lower

/-!
## The ends of a text

What trimming takes off when it is known which characters stand at the ends, and that a line ends
with white space only.
-/

theorem trimStart_spaces {s : Text} (hs : ∀ c ∈ s, isSpace c = true) (t : Text) :
    trimStart (s ++ t) = trimStart t :=
  List.dropWhile_append_of_pos hs

theorem trimStart_ink {c : Char} (hc : isInk c = true) (t : Text) : trimStart (c :: t) = c :: t := by
  unfold trimStart
  rw [List.dropWhile_cons_of_neg]
  simpa [isInk] using hc

theorem trimEnd_spaces {s : Text} (hs : ∀ c ∈ s, isSpace c = true) (t : Text) :
    trimEnd (t ++ s) = trimEnd t := by
  unfold trimEnd List.rdropWhile
  rw [List.reverse_append, List.dropWhile_append_of_pos]
  intro c hc
  exact hs c (List.mem_reverse.mp hc)

theorem trimEnd_cons {c : Char} (hc : isInk c = true) (t : Text) :
    trimEnd (c :: t) = c :: trimEnd t := by
  have hspace : isSpace c = false := by simpa [isInk] using hc
  unfold trimEnd List.rdropWhile
  rw [List.reverse_cons, List.dropWhile_append]
  split_ifs with h
  · rw [List.isEmpty_iff.mp h]
    simp [hspace]
  · simp

theorem trimEnd_ink {s : Text} (hs : ∀ c ∈ s, isInk c = true) (t : Text) :
    trimEnd (s ++ t) = s ++ trimEnd t := by
  induction s with
  | nil => rfl
  | cons c s ih =>
    obtain ⟨hc, hs⟩ := List.forall_mem_cons.mp hs
    rw [List.cons_append, trimEnd_cons hc, ih hs, List.cons_append]

theorem trimEnd_last {c : Char} (hc : isInk c = true) (t : Text) : trimEnd (t ++ [c]) = t ++ [c] := by
  unfold trimEnd
  rw [List.rdropWhile_concat_neg]
  simpa [isInk] using hc

theorem trimEnd_prefix (t : Text) : trimEnd t <+: t := ⟨trailing t, trimEnd_trailing t⟩

/-- What stands between white space and begins and ends without. -/
theorem trim_between {before after rest rest' : Text} {c d : Char}
    (hbefore : ∀ c ∈ before, isSpace c = true) (hc : isInk c = true)
    (hsame : c :: rest = rest' ++ [d]) (hd : isInk d = true) (hafter : ∀ c ∈ after, isSpace c = true) :
    trim (before ++ (c :: rest) ++ after) = c :: rest := by
  have hstart : trimStart (before ++ (c :: rest) ++ after) = (c :: rest) ++ after := by
    rw [List.append_assoc, trimStart_spaces hbefore, List.cons_append, trimStart_ink hc]
  unfold trim
  rw [hstart, trimEnd_spaces hafter, hsame, trimEnd_last hd]

/-! ## Line terminators -/

theorem isLineTerminator_isSpace {c : Char} (h : isLineTerminator c = true) : isSpace c = true := by
  simp only [isLineTerminator, isSpace, List.mem_cons, List.not_mem_nil, or_false,
    decide_eq_true_eq, Bool.or_eq_true, Bool.and_eq_true] at h ⊢
  omega

theorem isLineTerminator_of_isInk {c : Char} (h : isInk c = true) : isLineTerminator c = false := by
  cases hc : isLineTerminator c with
  | false => rfl
  | true => simp [isInk, isLineTerminator_isSpace hc] at h

theorem any_isLineTerminator {s : Text} (h : ∀ c ∈ s, isLineTerminator c = false) :
    s.any isLineTerminator = false := by
  rw [List.any_eq_false]
  intro c hc
  simp [h c hc]

end OpsMaxx.Strings
