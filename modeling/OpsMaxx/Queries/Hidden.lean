import OpsMaxx.Queries.Statements
import OpsMaxx.Strings.Numeric

/-!
# Destructive statements that are not hidden

A statement that drops or truncates, or deletes or updates everything, is graded destructive where the
passes read the text up to it as it is. A comment marker inside a literal, an identifier or a comment of
the other kind, or a quote inside an identifier, is what they read otherwise.
-/

set_option autoImplicit false

namespace OpsMaxx.Queries

open Strings

/-! ## What is destructive -/

/-- The word of a token, in lower case. -/
def keyword : Token → Text
  | .word w => w.map Char.toLower
  | _ => []

/-- A statement and the tokens on each side of it. -/
structure StatementAt (ts before stmt behind : List Token) : Prop where
  whole : ts = before ++ (stmt ++ behind)
  starts : before = [] ∨ ∃ ts, before = ts ++ [.semicolon]
  one : .semicolon ∉ stmt
  stops : behind = [] ∨ ∃ ts, behind = .semicolon :: ts

def leadOf (stmt : List Token) : List Token := stmt.takeWhile Token.isBlank

/-- The first word of a statement. -/
def verbOf (stmt : List Token) : Text := ((stmt.dropWhile Token.isBlank).head?.map keyword).getD []

/-- The white space and the comments behind the first word. -/
def gapOf (stmt : List Token) : List Token := (stmt.dropWhile Token.isBlank).tail.takeWhile Token.isBlank

/-- What stands behind them. -/
def objectOf (stmt : List Token) : List Token :=
  (stmt.dropWhile Token.isBlank).tail.dropWhile Token.isBlank

def headOf (stmt : List Token) : List Token :=
  leadOf stmt ++ ((stmt.dropWhile Token.isBlank).take 1 ++ gapOf stmt)

def dropVerbs : List Text := ["drop".toList, "truncate".toList]

def scopedVerbs : List Text := ["delete".toList, "update".toList]

/-- It drops or truncates, or deletes or updates with no `WHERE`. -/
def Dangerous (stmt : List Token) : Prop :=
  verbOf stmt ∈ dropVerbs ∨ (verbOf stmt ∈ scopedVerbs ∧ ∀ t ∈ stmt, keyword t ≠ "where".toList)

instance (stmt : List Token) : Decidable (Dangerous stmt) :=
  inferInstanceAs (Decidable (_ ∨ (_ ∧ ∀ t ∈ stmt, keyword t ≠ "where".toList)))

/-! ## What is read as it is -/

/-- An identifier of a statement reads `where`, in front of any semicolon in an identifier. -/
def whereQuoted : List Token → Bool
  | [] => false
  | .quoted q body :: ts =>
    whereBetween.test (trimEnd ((left (.quoted q body)).takeWhile (· ≠ ';'))) ||
      (!(left (.quoted q body)).contains ';' && whereQuoted ts)
  | _ :: ts => whereQuoted ts

instance (t : Token) (rest : Text) : Decidable (Contained t rest) := by
  cases t <;> unfold Contained <;> infer_instance

instance (rest : Text) : ∀ ts, Decidable (AllContained rest ts)
  | [] => isTrue trivial
  | t :: ts =>
    have := instDecidableAllContained rest ts
    inferInstanceAs (Decidable (Contained t (textOf ts ++ rest) ∧ AllContained rest ts))

/-- The first word stands apart from what is behind it, and no pass takes anything in front of it, or
in a statement that may have a `WHERE`, for what it is not. -/
def Shown (before stmt behind : List Token) : Prop :=
  gapOf stmt ≠ [] ∧ objectOf stmt ≠ [] ∧
    if verbOf stmt ∈ dropVerbs then
      AllContained (textOf (objectOf stmt ++ behind)) (before ++ headOf stmt)
    else AllContained (textOf behind) (before ++ stmt) ∧ whereQuoted stmt = false

instance (before stmt behind : List Token) : Decidable (Shown before stmt behind) := by
  unfold Shown
  infer_instance

/-! ## The parts of a statement -/

theorem headOf_objectOf (stmt : List Token) : headOf stmt ++ objectOf stmt = stmt := by
  unfold headOf leadOf gapOf objectOf
  rw [List.append_assoc, List.append_assoc, List.takeWhile_append_dropWhile, ← List.drop_one,
    List.take_append_drop, List.takeWhile_append_dropWhile]

theorem headOf_eq {stmt : List Token} (h : verbOf stmt ≠ []) :
    ∃ w, headOf stmt = leadOf stmt ++ .word w :: gapOf stmt ∧ verbOf stmt = w.map Char.toLower := by
  unfold headOf verbOf at *
  cases hrest : stmt.dropWhile Token.isBlank with
  | nil =>
    rw [hrest] at h
    exact absurd rfl h
  | cons t ts =>
    rw [hrest] at h
    cases t with
    | word w => exact ⟨w, rfl, rfl⟩
    | _ => exact absurd rfl h

/-! ## What the passes leave of a token -/

theorem left_blank {t : Token} {rest : Text} (h : Fits t rest) (hb : t.isBlank = true) :
    ∃ c, left t = [c] ∧ isSpace c = true := by
  cases t with
  | space c => exact ⟨c, rfl, h⟩
  | line body => exact ⟨' ', rfl, by decide⟩
  | block body => exact ⟨' ', rfl, by decide⟩
  | _ => cases hb

theorem left_blanks {ts : List Token} {rest : Text} (h : Lexed rest ts)
    (hb : ∀ t ∈ ts, t.isBlank = true) : ∀ c ∈ ts.flatMap left, isSpace c = true := by
  induction ts with
  | nil => simp
  | cons t ts ih =>
    obtain ⟨hfits, h⟩ := h
    obtain ⟨hbt, hb⟩ := List.forall_mem_cons.mp hb
    obtain ⟨c, hleft, hc⟩ := left_blank hfits hbt
    rw [List.flatMap_cons, hleft, List.singleton_append]
    exact List.forall_mem_cons.mpr ⟨hc, ih h hb⟩

theorem left_blanks_ne {ts : List Token} {rest : Text} (h : Lexed rest ts)
    (hb : ∀ t ∈ ts, t.isBlank = true) (hne : ts ≠ []) : ts.flatMap left ≠ [] := by
  obtain ⟨t, ts, rfl⟩ := List.exists_cons_of_ne_nil hne
  obtain ⟨c, hleft, -⟩ := left_blank h.1 (hb t List.mem_cons_self)
  rw [List.flatMap_cons, hleft]
  exact List.cons_ne_nil _ _

theorem isInk_of_isWord {c : Char} (h : isWord c = true) : isInk c = true := by
  simp only [isWord, Char.isAlphanum, Bool.or_eq_true, decide_eq_true_eq, Bool.and_eq_true] at h
  obtain ((((halpha | hdigit) | rfl) | rfl) | ⟨-, hink⟩) := h
  · exact isInk_of_isAlpha halpha
  · exact isInk_of_isDigit hdigit
  · decide
  · decide
  · exact hink

theorem withoutLiterals_quote (s : Text) : ∃ y, withoutLiterals ('\'' :: s) = '\'' :: y := by
  cases hmatch : literal ('\'' :: s) with
  | none => exact ⟨_, sub_none hmatch⟩
  | some n =>
    rw [withoutLiterals, Strings.sub, subFrom, hmatch]
    exact ⟨_, rfl⟩

/-- What the passes leave of a token that is not blank begins in its place, whatever they take behind
it. -/
theorem passes_ink {t : Token} {rest : Text} (h : Fits t rest) (hb : t.isBlank = false)
    (hsemi : t ≠ .semicolon) :
    ∃ c y, isInk c = true ∧ c ≠ ';' ∧ passes (t.text ++ rest) = c :: y := by
  cases t with
  | space c => cases hb
  | line body => cases hb
  | block body => cases hb
  | literal body =>
    unfold passes
    rw [Token.text, List.cons_append, withoutLines_cons (by simp), withoutBlocks_cons (by simp)]
    obtain ⟨y, hy⟩ := withoutLiterals_quote (withoutBlocks (withoutLines (body ++ ['\''] ++ rest)))
    exact ⟨_, y, by decide, by decide, hy⟩
  | quoted q body =>
    obtain ⟨hdash, hslash, hquote⟩ := isQuote_plain h.1
    have hq : q = '"' ∨ q = '\x60' := by simpa [isQuote] using h.1
    refine ⟨q, _, ?_, ?_, passes_plain hdash hslash hquote _⟩
    · obtain rfl | rfl := hq <;> decide
    · obtain rfl | rfl := hq <;> decide
  | word w =>
    obtain ⟨hne, hw, -⟩ := h
    obtain ⟨c, w, rfl⟩ := List.exists_cons_of_ne_nil hne
    obtain ⟨hc, hw⟩ := List.forall_mem_cons.mp hw
    obtain ⟨hdash, hslash, hquote⟩ := isWord_plain hc
    refine ⟨c, _, isInk_of_isWord hc, ?_, passes_plain hdash hslash hquote _⟩
    rintro rfl
    exact absurd hc (by decide)
  | semicolon => exact absurd rfl hsemi
  | other c =>
    obtain ⟨hspace, -, -, hquote, hnot, hdash, hslash⟩ := h
    exact ⟨c, _, by simp [isInk, hspace], hnot, passes_cons hdash hslash hquote⟩

/-! ## The words of what the passes leave -/

/-- Where a character of a word begins what is left of tokens, the first of them is a word. -/
theorem word_of_left {t : Token} {ts : List Token} {rest : Text} (h : Lexed rest (t :: ts)) {c : Char}
    {y : Text} (hleft : (t :: ts).flatMap left = c :: y) (hc : isWord c = true) :
    ∃ w, t = .word w := by
  have hfits := h.1
  cases t with
  | word w => exact ⟨w, rfl⟩
  | space d =>
    obtain ⟨rfl, -⟩ := List.cons.inj hleft
    have hink := isInk_of_isWord hc
    rw [isInk, show isSpace d = true from hfits] at hink
    cases hink
  | line body =>
    obtain ⟨rfl, -⟩ := List.cons.inj hleft
    exact absurd hc (by decide)
  | block body =>
    obtain ⟨rfl, -⟩ := List.cons.inj hleft
    exact absurd hc (by decide)
  | literal body =>
    obtain ⟨rfl, -⟩ := List.cons.inj hleft
    exact absurd hc (by decide)
  | quoted q body =>
    obtain ⟨rfl, -⟩ := List.cons.inj hleft
    have hq : q = '"' ∨ q = '\x60' := by simpa [isQuote] using hfits.1
    obtain rfl | rfl := hq <;> exact absurd hc (by decide)
  | semicolon =>
    obtain ⟨rfl, -⟩ := List.cons.inj hleft
    exact absurd hc (by decide)
  | other d =>
    obtain ⟨rfl, -⟩ := List.cons.inj hleft
    rw [hfits.2.1] at hc
    cases hc

/-- A run of characters of words, with none behind it, is the only one there. -/
theorem word_unique {v w y z : Text} (hv : ∀ c ∈ v, isWord c = true) (hw : ∀ c ∈ w, isWord c = true)
    (hy : ∀ c, y.head? = some c → isWord c = false) (hz : ∀ c, z.head? = some c → isWord c = false)
    (h : v ++ y = w ++ z) : v = w := by
  have htake : ∀ {v y : Text}, (∀ c ∈ v, isWord c = true) →
      (∀ c, y.head? = some c → isWord c = false) → (v ++ y).takeWhile isWord = v := by
    intro v y hv hy
    rw [List.takeWhile_append_of_pos hv]
    cases y with
    | nil => simp
    | cons c y => rw [List.takeWhile_cons_of_neg (by simp [hy c rfl]), List.append_nil]
  rw [← htake hv hy, h, htake hw hz]

/-- A `where` right behind white space is a word of the statement. -/
theorem where_token {ts : List Token} {rest : Text} (h : Lexed rest ts) {w v : Text} {b : Char}
    (hleft : (ts.flatMap left).takeWhile (· ≠ ';') = w ++ b :: v) (hb : isSpace b = true)
    (hlower : w.map Char.toLower = "where".toList) : ∃ t ∈ ts, keyword t = "where".toList := by
  have hword : ∀ c ∈ w, isWord c = true := by
    intro c hc
    have := alpha_of_keyword hlower (by decide) c hc
    simp [isWord, Char.isAlphanum, this]
  obtain ⟨first, w', rfl⟩ : ∃ first w', w = first :: w' := List.exists_cons_of_ne_nil (by
    rintro rfl
    cases hlower)
  cases ts with
  | nil => cases hleft
  | cons t ts =>
    obtain ⟨y, hy⟩ : ∃ y, (t :: ts).flatMap left = first :: y := by
      have hpre := List.takeWhile_prefix (p := (· ≠ ';')) (l := (t :: ts).flatMap left)
      rw [hleft] at hpre
      obtain ⟨y, hy⟩ := hpre
      exact ⟨_, hy.symm⟩
    obtain ⟨u, rfl⟩ := word_of_left h hy (hword first List.mem_cons_self)
    refine ⟨.word u, List.mem_cons_self, ?_⟩
    obtain ⟨⟨-, hu, hbehind⟩, hlexed⟩ := h
    have hnosemi : ∀ c ∈ u, decide (c ≠ ';') = true := by
      intro c hc
      refine decide_eq_true ?_
      rintro rfl
      exact absurd (hu ';' hc) (by decide)
    rw [List.flatMap_cons, left, List.takeWhile_append_of_pos hnosemi] at hleft
    have hnext : ∀ c, ((ts.flatMap left).takeWhile (· ≠ ';')).head? = some c → isWord c = false := by
      intro c hc
      by_contra hword
      rw [Bool.not_eq_false] at hword
      cases ts with
      | nil => cases hc
      | cons t ts =>
        obtain ⟨y, hy⟩ : ∃ y, (t :: ts).flatMap left = c :: y := by
          have hpre := List.takeWhile_prefix (p := (· ≠ ';')) (l := (t :: ts).flatMap left)
          obtain ⟨z, hz⟩ := List.head?_eq_some_iff.mp hc
          rw [hz] at hpre
          obtain ⟨y, hy⟩ := hpre
          exact ⟨_, hy.symm⟩
        obtain ⟨x, rfl⟩ := word_of_left hlexed hy hword
        obtain ⟨hne, hx, -⟩ := hlexed.1
        obtain ⟨d, x, rfl⟩ := List.exists_cons_of_ne_nil hne
        have := hbehind d rfl
        rw [hx d List.mem_cons_self] at this
        cases this
    have hnotb : ∀ c, (b :: v).head? = some c → isWord c = false := by
      intro c hc
      obtain rfl := Option.some.inj hc
      by_contra hword
      have hink := isInk_of_isWord (Bool.not_eq_false _ |>.mp hword)
      rw [isInk, hb] at hink
      cases hink
    rw [keyword, word_unique hu hword hnext hnotb hleft]
    exact hlower

theorem hasWhere_cons {c : Char} {z : Text} (h : HasWhere (c :: z)) :
    HasWhere z ∨ (isSpace c = true ∧ ∃ w b v, z = w ++ b :: v ∧ isSpace b = true ∧
      w.map Char.toLower = "where".toList) := by
  obtain ⟨u, a, w, b, v, hz, ha, hb, hlower, hv⟩ := h
  cases u with
  | nil =>
    obtain ⟨rfl, rfl⟩ := List.cons.inj hz
    exact .inr ⟨ha, w, b, v, rfl, hb, hlower⟩
  | cons d u => exact .inl ⟨u, a, w, b, v, (List.cons.inj hz).2, ha, hb, hlower, hv⟩

theorem hasWhere_append {x z : Text} (hx : ∀ c ∈ x, isSpace c = false) (h : HasWhere (x ++ z)) :
    HasWhere z := by
  induction x with
  | nil => exact h
  | cons c x ih =>
    obtain ⟨hc, hx⟩ := List.forall_mem_cons.mp hx
    obtain h | ⟨hspace, -⟩ := hasWhere_cons h
    · exact ih hx h
    · rw [hc] at hspace
      cases hspace

/-- No `where` between white space stands on both sides of a quote. -/
theorem hasWhere_around {q : Char} (hq : isInk q = true) (halpha : q.isAlpha = false) {x z : Text}
    (h : HasWhere (x ++ q :: z)) : HasWhere (x ++ [q]) ∨ HasWhere z := by
  obtain ⟨u, a, w, b, v, heq, ha, hb, hlower, hv⟩ := h
  have hnot : q ∉ a :: (w ++ [b]) := by
    have hspace : ∀ c, isSpace c = true → q ≠ c := by
      rintro c hc rfl
      rw [isInk, hc] at hq
      cases hq
    have hw : q ∉ w := by
      intro hmem
      rw [alpha_of_keyword hlower (by decide) q hmem] at halpha
      cases halpha
    simp [hspace a ha, hspace b hb, hw]
  have hparts : x ++ q :: z = (u ++ a :: (w ++ [b])) ++ v := by
    rw [heq]
    simp
  obtain ⟨m, hm, hz⟩ | ⟨m, rfl, rfl⟩ := List.append_eq_append_iff.mp hparts
  · obtain ⟨n, rfl, hn⟩ | ⟨n, rfl, rfl⟩ := List.append_eq_append_iff.mp hm
    · cases m with
      | nil =>
        rw [List.append_nil] at hn
        exact .inl ⟨u, a, w, b, [q], by rw [← hn]; simp, ha, hb, hlower, q, List.mem_singleton_self q, hq⟩
      | cons d m =>
        obtain ⟨rfl, -⟩ := List.cons.inj hz
        rw [hn] at hnot
        exact absurd (List.mem_append_right n List.mem_cons_self) hnot
    · cases n with
      | nil =>
        obtain ⟨rfl, -⟩ := List.cons.inj hz
        exact absurd List.mem_cons_self hnot
      | cons d n =>
        obtain ⟨-, rfl⟩ := List.cons.inj hz
        exact .inr ⟨n, a, w, b, v, by simp, ha, hb, hlower, hv⟩
  · refine .inl ⟨u, a, w, b, m ++ [q], by simp, ha, hb, hlower, q, ?_, hq⟩
    exact List.mem_append_right m (List.mem_singleton_self q)

theorem takeWhile_append_mem {p : Char → Bool} {a : Text} (h : ∃ c ∈ a, p c = false) (b : Text) :
    (a ++ b).takeWhile p = a.takeWhile p := by
  rw [List.takeWhile_append, if_neg]
  intro hlen
  obtain ⟨c, hc, hpc⟩ := h
  have hall := List.takeWhile_eq_self_iff.mp ((List.takeWhile_prefix p).eq_of_length hlen)
  rw [hall c hc] at hpc
  cases hpc

/-- What is left of a statement reads `where` only where the statement does, or in an identifier. -/
theorem hasWhere_tokens {ts : List Token} {rest : Text} (h : Lexed rest ts) (hsemi : .semicolon ∉ ts)
    (hw : HasWhere ((ts.flatMap left).takeWhile (· ≠ ';'))) :
    (∃ t ∈ ts, keyword t = "where".toList) ∨ whereQuoted ts = true := by
  induction ts with
  | nil =>
    obtain ⟨u, a, w, b, v, hnil, -⟩ := hw
    simp at hnil
  | cons t ts ih =>
    rw [List.mem_cons, not_or] at hsemi
    have ih := ih h.2 hsemi.2
    rw [List.flatMap_cons] at hw
    -- white space and comments leave one character, the other tokens none that is white space
    have hblank : ∀ c, left t = [c] → c ≠ ';' →
        (∃ t ∈ ts, keyword t = "where".toList) ∨ whereQuoted ts = true := by
      intro c hc hne
      rw [hc, List.singleton_append, List.takeWhile_cons_of_pos (by simpa using hne)] at hw
      obtain hw | ⟨-, w, b, v, hleft, hb, hlower⟩ := hasWhere_cons hw
      · exact ih hw
      · exact .inl (where_token h.2 hleft hb hlower)
    have hplain : (∀ c ∈ left t, isSpace c = false ∧ c ≠ ';') →
        (∃ t ∈ ts, keyword t = "where".toList) ∨ whereQuoted ts = true := by
      intro hall
      rw [List.takeWhile_append_of_pos fun c hc => decide_eq_true (hall c hc).2] at hw
      exact ih (hasWhere_append (fun c hc => (hall c hc).1) hw)
    have hmore : (∃ t ∈ ts, keyword t = "where".toList) →
        ∃ u ∈ t :: ts, keyword u = "where".toList := by
      rintro ⟨u, hu, hkey⟩
      exact ⟨u, List.mem_cons_of_mem t hu, hkey⟩
    cases t with
    | quoted q body =>
      by_cases hin : ';' ∈ left (.quoted q body)
      · rw [takeWhile_append_mem ⟨';', hin, by simp⟩] at hw
        exact .inr (by simp only [whereQuoted, hw.test_trimEnd, Bool.true_or])
      · have hall : ∀ c ∈ left (.quoted q body), decide (c ≠ ';') = true := by
          intro c hc
          exact decide_eq_true fun heq => hin (heq ▸ hc)
        have hwhole : (left (.quoted q body)).takeWhile (· ≠ ';') = left (.quoted q body) :=
          List.takeWhile_eq_self_iff.mpr hall
        rw [List.takeWhile_append_of_pos hall, left, ← List.cons_append, List.append_assoc,
          List.singleton_append] at hw
        have hq : q = '"' ∨ q = '\x60' := by simpa [isQuote] using h.1.1
        have hquote : isInk q = true ∧ q.isAlpha = false := by
          obtain rfl | rfl := hq <;> decide
        obtain hw | hw := hasWhere_around hquote.1 hquote.2 hw
        · have hw : HasWhere (left (.quoted q body)) := hw
          rw [← hwhole] at hw
          exact .inr (by simp only [whereQuoted, hw.test_trimEnd, Bool.true_or])
        · obtain hfound | hfound := ih hw
          · exact .inl (hmore hfound)
          · right
            have hnot : (left (.quoted q body)).contains ';' = false := by simpa using hin
            rw [whereQuoted, hnot, hfound]
            simp
    | space c =>
      refine (hblank c rfl ?_).imp_left hmore
      rintro rfl
      exact absurd (show isSpace ';' = true from h.1) (by decide)
    | line body => exact (hblank ' ' rfl (by decide)).imp_left hmore
    | block body => exact (hblank ' ' rfl (by decide)).imp_left hmore
    | literal body =>
      have hall : ∀ c ∈ "''".toList, isSpace c = false ∧ c ≠ ';' := by decide
      exact (hplain hall).imp_left hmore
    | word w =>
      refine (hplain fun c hc => ⟨?_, ?_⟩).imp_left hmore
      · simpa [isInk] using isInk_of_isWord (h.1.2.1 c hc)
      · rintro rfl
        exact absurd (h.1.2.1 ';' hc) (by decide)
    | semicolon => exact absurd rfl hsemi.1
    | other c =>
      refine (hplain fun d hd => ?_).imp_left hmore
      obtain rfl := List.mem_singleton.mp hd
      exact ⟨h.1.1, h.1.2.2.2.2.1⟩

/-! ## The statement that is graded -/

theorem AllContained.append {rest : Text} {ts us : List Token} (h : AllContained rest (ts ++ us)) :
    AllContained (textOf us ++ rest) ts ∧ AllContained rest us := by
  induction ts with
  | nil => exact ⟨trivial, h⟩
  | cons t ts ih =>
    obtain ⟨hin, h⟩ := h
    have hin : Contained t (textOf (ts ++ us) ++ rest) := hin
    rw [textOf_append, List.append_assoc] at hin
    exact ⟨⟨hin, (ih h).1⟩, (ih h).2⟩

theorem starts_left {before : List Token}
    (h : before = [] ∨ ∃ ts, before = ts ++ [.semicolon]) :
    before.flatMap left = [] ∨ ∃ a, before.flatMap left = a ++ [';'] := by
  obtain rfl | ⟨ts, rfl⟩ := h
  · exact .inl rfl
  · exact .inr ⟨ts.flatMap left, by rw [List.flatMap_append]; rfl⟩

variable {s : Text} {ts before stmt behind : List Token}

/-- The statement as it is graded: what is left of its head, and what the passes make of the text
behind it, up to a semicolon. -/
def gradedOf (stmt behind : List Token) : Text :=
  trim (collapse (((headOf stmt).flatMap left ++ passes (textOf (objectOf stmt ++ behind))).takeWhile
    (· ≠ ';')))

theorem graded_eq (h : Lexed [] ts) (hat : StatementAt ts before stmt behind)
    (hverb : verbOf stmt ≠ []) (hgap : gapOf stmt ≠ []) (hobject : objectOf stmt ≠ []) :
    ∃ w c y, verbOf stmt = w.map Char.toLower ∧ gradedOf stmt behind = w ++ ' ' :: c :: y := by
  obtain ⟨w, hhead, hw⟩ := headOf_eq hverb
  have hstmt := headOf_objectOf stmt
  rw [hat.whole, ← hstmt, List.append_assoc] at h
  obtain ⟨-, h⟩ := h.append
  obtain ⟨hlexed, htail⟩ := h.append
  obtain ⟨t, more, hmore⟩ := List.exists_cons_of_ne_nil hobject
  have hblank : t.isBlank = false := by
    have := List.head?_dropWhile_not Token.isBlank (stmt.dropWhile Token.isBlank).tail
    rw [show (stmt.dropWhile Token.isBlank).tail.dropWhile Token.isBlank = t :: more from hmore] at this
    simpa using this
  have hsemi : t ≠ .semicolon := by
    rintro rfl
    apply hat.one
    rw [← hstmt, hmore]
    simp
  rw [hmore] at htail
  have hfits : Fits t (textOf (more ++ behind) ++ []) := htail.1
  rw [List.append_nil] at hfits
  obtain ⟨c, y, hc, hne, hpasses⟩ := passes_ink hfits hblank hsemi
  rw [hhead] at hlexed
  obtain ⟨hlead, hword, hgaps⟩ := hlexed.append
  have hwords := hword.2.1
  have hblanks : ∀ us : List Token, ∀ u ∈ us.takeWhile Token.isBlank, u.isBlank = true :=
    fun us u hu => List.mem_takeWhile_imp hu
  have hleadsp := left_blanks hlead (hblanks stmt)
  have hgapsp := left_blanks hgaps (hblanks _)
  have hgapne := left_blanks_ne hgaps (hblanks _) hgap
  have hnosemi : ∀ d, isSpace d = true ∨ isWord d = true → decide (d ≠ ';') = true := by
    rintro d hd
    refine decide_eq_true ?_
    rintro rfl
    exact hd.elim (fun h => absurd h (by decide)) fun h => absurd h (by decide)
  have hpart : ((headOf stmt).flatMap left ++ passes (textOf (objectOf stmt ++ behind))).takeWhile
      (· ≠ ';') = (leadOf stmt).flatMap left ++
        (w ++ ((gapOf stmt).flatMap left ++ c :: y.takeWhile (· ≠ ';'))) := by
    have hinner : textOf (objectOf stmt ++ behind) = t.text ++ textOf (more ++ behind) := by
      rw [hmore, List.cons_append, textOf_cons]
    rw [hinner, hpasses, hhead, List.flatMap_append, List.flatMap_cons, left, List.append_assoc,
      List.append_assoc, List.takeWhile_append_of_pos fun d hd => hnosemi d (.inl (hleadsp d hd)),
      List.takeWhile_append_of_pos fun d hd => hnosemi d (.inr (hwords d hd)),
      List.takeWhile_append_of_pos fun d hd => hnosemi d (.inl (hgapsp d hd)),
      List.takeWhile_cons_of_pos (by simpa using hne)]
  obtain ⟨y', hy'⟩ := trim_collapse hleadsp hword.1 (fun d hd => isInk_of_isWord (hwords d hd)) hgapsp
    hgapne hc
  exact ⟨w, c, y', hw, by rw [gradedOf, hpart, hy']⟩

theorem graded_mem (h : Lexed [] ts) (hs : s = textOf ts) (hat : StatementAt ts before stmt behind)
    (hin : AllContained (textOf (objectOf stmt ++ behind)) (before ++ headOf stmt))
    (hne : gradedOf stmt behind ≠ []) : gradedOf stmt behind ∈ statements s := by
  have hstmt := headOf_objectOf stmt
  have hts : ts = (before ++ headOf stmt) ++ (objectOf stmt ++ behind) := by
    rw [hat.whole]
    conv => lhs; rw [← hstmt]
    simp only [List.append_assoc]
  rw [hts] at h
  have hpasses : passes s = before.flatMap left ++
      ((headOf stmt).flatMap left ++ passes (textOf (objectOf stmt ++ behind))) := by
    have hlexed := h.append.1
    rw [List.append_nil] at hlexed
    rw [hs, hts, textOf_append, passes_textOf hlexed hin, List.flatMap_append, List.append_assoc]
  exact mem_statements hpasses (starts_left hat.starts) hne

/-- Where the whole statement is read as it is, it is graded as what is left of its tokens. -/
theorem graded_whole (h : Lexed [] ts) (hat : StatementAt ts before stmt behind)
    (hin : AllContained (textOf behind) (before ++ stmt)) :
    gradedOf stmt behind = trim (collapse ((stmt.flatMap left).takeWhile (· ≠ ';'))) := by
  have hstmt := headOf_objectOf stmt
  rw [hat.whole] at h
  have hlexed := (h.append.2).append.1
  have hcontained := hin.append.2
  rw [← hstmt] at hlexed hcontained
  have hobject := hlexed.append.2
  rw [List.append_nil] at hobject
  have hpasses := passes_textOf hobject hcontained.append.2
  have hstop : ∀ a : Text, (a ++ passes (textOf behind)).takeWhile (· ≠ ';') =
      a.takeWhile (· ≠ ';') := by
    intro a
    obtain rfl | ⟨us, rfl⟩ := hat.stops
    · rw [show passes (textOf []) = [] from rfl, List.append_nil]
    · have hsemi : passes (textOf (.semicolon :: us)) = ';' :: passes (textOf us) :=
        passes_plain (by decide) (by decide) (by decide) _
      rw [hsemi, List.takeWhile_append]
      split_ifs with hall
      · rw [List.takeWhile_cons_of_neg (by simp), List.append_nil]
        exact ((List.takeWhile_prefix _).eq_of_length hall).symm
      · rfl
  rw [gradedOf, textOf_append, hpasses, ← List.append_assoc, hstop, ← List.flatMap_append, hstmt]

/-- A dangerous statement that is shown is graded as one. -/
theorem graded_destructive (h : Lexed [] ts) (hat : StatementAt ts before stmt behind)
    (hd : Dangerous stmt) (hshown : Shown before stmt behind) :
    isDestructive (gradedOf stmt behind) = true ∧
      AllContained (textOf (objectOf stmt ++ behind)) (before ++ headOf stmt) ∧
      gradedOf stmt behind ≠ [] := by
  obtain ⟨hgap, hobject, hread⟩ := hshown
  have hverb : verbOf stmt ≠ [] := by
    intro hnil
    unfold Dangerous at hd
    rw [hnil] at hd
    exact hd.elim (fun h => absurd h (by decide)) fun h => absurd h.1 (by decide)
  obtain ⟨w, c, y, hw, hgraded⟩ := graded_eq h hat hverb hgap hobject
  have hne : gradedOf stmt behind ≠ [] := by
    rw [hgraded]
    simp
  by_cases hdrop : verbOf stmt ∈ dropVerbs
  · rw [if_pos hdrop] at hread
    refine ⟨?_, hread, hne⟩
    rw [hw, dropVerbs, List.mem_cons, List.mem_singleton] at hdrop
    unfold isDestructive
    rw [hgraded, Bool.or_eq_true, List.any_eq_true]
    left
    obtain hdrop | hdrop := hdrop
    · exact ⟨headWord "drop", by simp [DESTRUCTIVE], test_headWord hdrop⟩
    · exact ⟨headWord "truncate", by simp [DESTRUCTIVE], test_headWord hdrop⟩
  · rw [if_neg hdrop] at hread
    obtain ⟨hin, hquoted⟩ := hread
    obtain ⟨hverbs, hwhere⟩ := hd.resolve_left hdrop
    have hheads : AllContained (textOf (objectOf stmt ++ behind)) (before ++ headOf stmt) := by
      have hall := hin
      rw [← headOf_objectOf stmt, ← List.append_assoc] at hall
      rw [textOf_append]
      exact hall.append.1
    refine ⟨?_, hheads, hne⟩
    rw [hw, scopedVerbs, List.mem_cons, List.mem_singleton] at hverbs
    have hnowhere : whereBetween.test (gradedOf stmt behind) = false := by
      rw [← Bool.not_eq_true]
      intro htest
      rw [graded_whole h hat hin] at htest
      have hfound := (hasWhere_of_test_trim htest).mono
        (( trimEnd_prefix _).isInfix.trans (List.dropWhile_suffix _).isInfix)
      have hlexed := h
      rw [hat.whole] at hlexed
      obtain ⟨u, hu, hkey⟩ | hbad := hasWhere_tokens hlexed.append.2.append.1 hat.one hfound.of_collapse
      · exact hwhere u hu hkey
      · rw [hquoted] at hbad
        cases hbad
    unfold isDestructive unscoped
    rw [hnowhere, hgraded, test_deleteOrUpdate hverbs]
    simp

/-- **A destructive statement is graded as one** wherever its first word stands apart and no pass takes
a part of a token in front of it, or in a statement without `WHERE`, for something else. -/
theorem queryRisk_shown (h : tokenize s = some ts) (hat : StatementAt ts before stmt behind)
    (hd : Dangerous stmt) (hshown : Shown before stmt behind) :
    queryRisk s = .destructive ∧
      ∃ phrase, phrase ≠ [] ∧ queryConfirmation s = .typeToConfirm phrase := by
  obtain ⟨hs, hlexed⟩ := lexed_of_tokenize h
  obtain ⟨hdestructive, hin, hne⟩ := graded_destructive hlexed hat hd hshown
  have hrisk : queryRisk s = .destructive :=
    worstOf_destructive (graded_mem hlexed hs hat hin hne) hdestructive _
  exact ⟨hrisk, queryConfirmation_destructive hrisk⟩

/-- Two comments, a literal with a semicolon and a doubled quote, and everything deleted behind them. -/
theorem queryRisk_shown_delete :
    queryRisk "-- all\nSELECT 'it''s; a' /* ; */; DELETE FROM \"users\"".toList = .destructive ∧
      ∃ phrase, phrase ≠ [] ∧
        queryConfirmation "-- all\nSELECT 'it''s; a' /* ; */; DELETE FROM \"users\"".toList =
          .typeToConfirm phrase := by
  let before : List Token :=
    [.line " all".toList, .space '\n', .word "SELECT".toList, .space ' ',
      .literal "it''s; a".toList, .space ' ', .block " ; ".toList, .semicolon]
  let stmt : List Token :=
    [.space ' ', .word "DELETE".toList, .space ' ', .word "FROM".toList, .space ' ',
      .quoted '"' "users".toList]
  have hat : StatementAt (before ++ (stmt ++ [])) before stmt [] :=
    ⟨rfl, .inr ⟨before.dropLast, rfl⟩, by decide, .inl rfl⟩
  exact queryRisk_shown (by decide +kernel) hat (by decide) (by decide +kernel)

/-- A block comment with two dashes in it hides what stands behind it. -/
theorem drop_hidden :
    ¬ ∀ (s : Text) (ts before stmt behind : List Token), tokenize s = some ts →
      StatementAt ts before stmt behind → Dangerous stmt → queryRisk s = .destructive := by
  intro hall
  let stmt : List Token :=
    [.block " a -- b ".toList, .space ' ', .word "DROP".toList, .space ' ', .word "TABLE".toList,
      .space ' ', .word "users".toList]
  have hat : StatementAt stmt [] stmt [] := ⟨by simp, .inl rfl, by decide, .inl rfl⟩
  have hgraded := hall "/* a -- b */ DROP TABLE users".toList stmt [] stmt [] (by decide +kernel) hat
    (by decide)
  have hread : queryRisk "/* a -- b */ DROP TABLE users".toList = .read := by decide +kernel
  rw [hread] at hgraded
  cases hgraded

end OpsMaxx.Queries
