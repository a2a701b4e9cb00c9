import OpsMaxx.Sudoers.Reading
import Mathlib.Data.List.Infix

/-! # Rights that are understated

What the findings are held against is the policy the collected files make up. A grant is seen when
one of its lines is written plainly: the whole command list is `ALL` behind a runas group and tags.
-/

set_option autoImplicit false

namespace OpsMaxx.Sudoers
open Strings

/-! ## What is promised -/

/-- The policy all files make up together. -/
def policyOf (files : List Collected) : List Policy.Entry :=
  files.flatMap fun f => Policy.entries f.text

def answerFor (a : Policy.Account) (files : List Collected) : SudoAnswer :=
  sudoAcrossFiles a.name a.groups (files.map readFile)

/-- The answer says that it is not the whole picture. -/
def CarriesGap (answer : SudoAnswer) : Prop :=
  0 < answer.sentence.unparsed ∨ 0 < answer.sentence.includes ∨ answer.sentence.truncated = true
    ∨ answer.unreadable ≠ []

/-- A finding that shows a grant of `ALL`, and that it is without a password when it is. -/
def Shows (answer : SudoAnswer) (noPassword : Bool) : Prop :=
  ∃ f ∈ answer.findings, f.grantsAll = true ∧ (noPassword = true → f.noPassword ≠ .none)

/-- Rights are never understated: every grant of `ALL` is shown, or a gap is. -/
def NeverUnderstated (host : Policy.Host) (a : Policy.Account) (files : List Collected) : Prop :=
  ∀ noPassword, Policy.Grants (policyOf files) host a noPassword →
    Shows (answerFor a files) noPassword ∨ CarriesGap (answerFor a files)

/-! ## When it holds -/

/-- The lines of a file, continued lines joined and trimmed. -/
def fileLines (text : Text) : List Text :=
  (joinLines 0 [] 0 ((text.splitOn '\n').take SUDOERS_MAX_LINES)).map fun l => trim l.2

/-- The files that can be read. -/
def readable (files : List Collected) : List Collected := files.filter fun f => !isUnreadable f.text

/-- A tag as it is written: its name and the white space behind its colon. -/
structure WrittenTag where
  tag : Text
  gap : Text

def tagText (ts : List WrittenTag) : Text := ts.flatMap fun t => t.tag ++ ':' :: t.gap

/-- The flag the tags leave: that of the last `NOPASSWD` or `PASSWD`. -/
def lastTag (leading : Bool) (ts : List WrittenTag) : Bool :=
  ts.foldl (fun f t => tagSays f t.tag) leading

/-- A text that is tags and then `ALL`, and nothing else. -/
def TaggedAll (s : Text) (leading : Bool) : Prop :=
  ∃ (ts : List WrittenTag) (w : Text), s = tagText ts ++ w ∧ trim w = "ALL".toList ∧
    (∀ t ∈ ts, isTagWord t.tag = true ∧ ∀ c ∈ t.gap, isSpace c = true) ∧ leading = lastTag false ts

/-- What is behind the `=` of a rule is `ALL`, behind a runas group and tags. -/
def PlainAll (value : Text) (leading : Bool) : Prop :=
  (value.head? ≠ some '(' ∧ TaggedAll value leading) ∨
    ∃ runAs after, ')' ∉ runAs ∧ value = '(' :: runAs ++ ')' :: after ∧
      TaggedAll (trim after) leading

/-- A file names the account in a user list: by name, by a group, or by an alias that lists one of
the two and stands in the same file. -/
def NamedIn (a : Policy.Account) (f : Collected) (who : Text) : Prop :=
  ∃ w ∈ names (cap (trim who)), isAccount a.name a.groups w = true ∨
    ∃ t ∈ fileLines f.text, ∃ al, readLine 0 t = .definition al ∧ al.kind = .User_Alias ∧
      al.name = w ∧ ∃ m ∈ al.members, isAccount a.name a.groups m = true

/-- Some line of some file grants the account `ALL` in so many words. -/
def PlainlyGranted (a : Policy.Account) (files : List Collected) (noPassword : Bool) : Prop :=
  ∃ f ∈ readable files, ∃ t ∈ fileLines f.text, ∃ spec, readLine 0 t = .spec spec ∧
    ∃ who hosts value leading, readRule t = some (who, hosts, value) ∧
      NamedIn a f who ∧ PlainAll (trim value) leading ∧ (noPassword = true → leading = true)

/-- Some file cannot be read or is too long, some line is not understood, or some include is not
among the files. -/
def LeavesGap (files : List Collected) : Prop :=
  (∃ f ∈ files, isUnreadable f.text = true) ∨
    ∃ f ∈ readable files, SUDOERS_MAX_LINES < (f.text.splitOn '\n').length ∨
      ∃ t ∈ fileLines f.text, (∃ s, readLine 0 t = .unparsed s) ∨
        ∃ path, readLine 0 t = .inclusion path ∧
          ∀ g ∈ files, (withoutSlash path).isPrefixOf g.path = false

/-! ## Tags -/

theorem char_of_trim {s : Text} (h : trim s = "ALL".toList) {c : Char} (hc : c ∈ s) :
    isSpace c = true ∨ c ∈ "ALL".toList := by
  have hne : trim s ≠ [] := by
    rw [h]
    decide
  rw [← leading_trim_trailing hne] at hc
  rcases List.mem_append.mp hc with hc | hc
  · rcases List.mem_append.mp hc with hc | hc
    · exact .inl (List.mem_takeWhile_imp hc)
    · rw [h] at hc
      exact .inr hc
  · exact .inl (List.mem_rtakeWhile_imp hc)

theorem not_mem_of_trim {s : Text} (h : trim s = "ALL".toList) {c : Char}
    (hs : isSpace c = false) (hc : c ∉ "ALL".toList) : c ∉ s := by
  intro hm
  rcases char_of_trim h hm with hm | hm
  · rw [hs] at hm
    cases hm
  · exact hc hm

theorem trimStart_trimStart (s : Text) : trimStart (trimStart s) = trimStart s :=
  List.dropWhile_idempotent isSpace s

theorem trim_trimStart (s : Text) : trim (trimStart s) = trim s := by
  unfold trim
  rw [trimStart_trimStart]

theorem trimStart_gap {gap : Text} (h : ∀ c ∈ gap, isSpace c = true) (s : Text) :
    trimStart (gap ++ s) = trimStart s := by
  unfold trimStart
  rw [List.dropWhile_append, List.dropWhile_eq_nil_iff.mpr h]
  rfl

theorem tag_chars {tag : Text} (h : isTagWord tag = true) :
    ∃ c rest, tag = c :: rest ∧ c ≠ '(' ∧ isSpace c = false ∧ ':' ∉ tag := by
  unfold isTagWord at h
  obtain ⟨t, ht, he⟩ := List.any_eq_true.mp h
  rw [← of_decide_eq_true he]
  have hall : ∀ t ∈ TAG_WORDS, (t.toList.head?.map fun c => c ≠ '(' ∧ isSpace c = false) = some True
      ∧ ':' ∉ t.toList := by
    intro t ht
    simp only [TAG_WORDS, List.mem_cons, List.not_mem_nil, or_false] at ht
    rcases ht with rfl | rfl | rfl | rfl | rfl | rfl | rfl | rfl | rfl | rfl | rfl | rfl | rfl | rfl
    all_goals exact ⟨by simp; decide, by decide⟩
  obtain ⟨hhead, hcolon⟩ := hall t ht
  cases hl : t.toList with
  | nil =>
    rw [hl] at hhead
    cases hhead
  | cons c rest =>
    rw [hl] at hhead hcolon
    have hc : (c ≠ '(' ∧ isSpace c = false) = True := Option.some.inj hhead
    have hc' := of_eq_true hc
    exact ⟨c, rest, rfl, hc'.1, hc'.2, hcolon⟩

/-- The loop takes tags off, with the flag they leave. -/
theorem stripTags_tags (fuel : Nat) (leading : Bool) (s : Text) :
    ∃ ts : List WrittenTag, s = tagText ts ++ (stripTags fuel leading s).2 ∧
      (∀ t ∈ ts, isTagWord t.tag = true ∧ ∀ c ∈ t.gap, isSpace c = true) ∧
      (stripTags fuel leading s).1 = lastTag leading ts := by
  induction fuel generalizing leading s with
  | zero => exact ⟨[], rfl, fun t ht => absurd ht List.not_mem_nil, rfl⟩
  | succ fuel ih =>
    have hstop : ∃ ts : List WrittenTag, s = tagText ts ++ s ∧
        (∀ t ∈ ts, isTagWord t.tag = true ∧ ∀ c ∈ t.gap, isSpace c = true) ∧
        leading = lastTag leading ts := ⟨[], rfl, fun t ht => absurd ht List.not_mem_nil, rfl⟩
    unfold stripTags
    cases hs : splitFirst ':' s with
    | none => exact hstop
    | some p =>
      obtain ⟨tag, after⟩ := p
      simp only
      split_ifs with htag
      · obtain ⟨ts, htext, hvalid, hlast⟩ := ih (tagSays leading tag) (trimStart after)
        refine ⟨⟨tag, Strings.leading after⟩ :: ts, ?_, ?_, hlast⟩
        · rw [(splitFirst_some hs).1]
          show tag ++ ':' :: after = tag ++ ':' :: Strings.leading after ++ tagText ts ++ _
          rw [List.append_assoc, ← htext, List.append_assoc, List.cons_append,
            leading_trimStart after]
        · intro t ht
          rcases List.mem_cons.mp ht with rfl | ht
          · exact ⟨htag, fun c hc => List.mem_takeWhile_imp hc⟩
          · exact hvalid t ht
      · exact hstop

/-- Tags and `ALL` are taken apart as they were written. -/
theorem stripTags_all {ts : List WrittenTag} {w : Text} (hw : trim w = "ALL".toList)
    (hvalid : ∀ t ∈ ts, isTagWord t.tag = true ∧ ∀ c ∈ t.gap, isSpace c = true) {fuel : Nat}
    (hfuel : (tagText ts ++ w).length ≤ fuel) (leading : Bool) :
    (stripTags fuel leading (tagText ts ++ w)).1 = lastTag leading ts ∧
      trim (stripTags fuel leading (tagText ts ++ w)).2 = "ALL".toList := by
  induction ts generalizing w fuel leading with
  | nil =>
    have hcolon : splitFirst ':' w = none :=
      splitFirst_none (not_mem_of_trim hw (by decide) (by decide))
    show (stripTags fuel leading w).1 = leading ∧ trim (stripTags fuel leading w).2 = _
    cases fuel with
    | zero => exact ⟨rfl, hw⟩
    | succ fuel =>
      unfold stripTags
      rw [hcolon]
      exact ⟨rfl, hw⟩
  | cons t ts ih =>
    obtain ⟨htag, hgap⟩ := hvalid t List.mem_cons_self
    obtain ⟨c, tag', htag', -, -, hcolon⟩ := tag_chars htag
    have htext : tagText (t :: ts) ++ w = t.tag ++ ':' :: (t.gap ++ (tagText ts ++ w)) := by
      show (t.tag ++ ':' :: t.gap ++ tagText ts) ++ w = _
      simp
    have hmore : ∃ w', trimStart (tagText ts ++ w) = tagText ts ++ w' ∧ trim w' = "ALL".toList ∧
        w'.length ≤ w.length := by
      cases ts with
      | nil => exact ⟨trimStart w, rfl, by rw [trim_trimStart, hw], List.length_dropWhile_le _ _⟩
      | cons u ts =>
        refine ⟨w, ?_, hw, le_refl _⟩
        obtain ⟨d, rest, hd, -, hspace, -⟩ := tag_chars (hvalid u (by simp)).1
        show trimStart (u.tag ++ ':' :: u.gap ++ tagText ts ++ w) = _
        rw [hd]
        unfold trimStart
        rw [List.cons_append, List.cons_append, List.cons_append,
          List.dropWhile_cons_of_neg (by simp [hspace])]
        show d :: rest ++ ':' :: u.gap ++ tagText ts ++ w = u.tag ++ ':' :: u.gap ++ tagText ts ++ w
        rw [hd]
    obtain ⟨w', hstart, hw', hlen⟩ := hmore
    rw [htext] at hfuel ⊢
    cases fuel with
    | zero => simp at hfuel
    | succ fuel =>
      have hshort : (tagText ts ++ w').length ≤ fuel := by
        simp only [List.length_append, List.length_cons] at hfuel ⊢
        omega
      have hnext := ih hw' (fun u hu => hvalid u (List.mem_cons_of_mem _ hu)) hshort
        (tagSays leading t.tag)
      unfold stripTags
      rw [splitFirst_append hcolon]
      simp only [htag, if_true]
      rw [trimStart_gap hgap, hstart]
      exact hnext

theorem TaggedAll.head {s : Text} {leading : Bool} (h : TaggedAll s leading) :
    s.head? ≠ some '(' := by
  obtain ⟨ts, w, rfl, hw, hvalid, -⟩ := h
  cases ts with
  | nil =>
    intro hh
    exact not_mem_of_trim hw (by decide) (by decide) (List.mem_of_mem_head? hh)
  | cons t ts =>
    obtain ⟨c, rest, hc, hne, -, -⟩ := tag_chars (hvalid t List.mem_cons_self).1
    show (t.tag ++ ':' :: t.gap ++ tagText ts ++ w).head? ≠ _
    rw [hc]
    intro hh
    exact hne (Option.some.inj hh)

theorem readRunAs_plain {s : Text} (h : s.head? ≠ some '(') : (readRunAs s).2 = s := by
  unfold readRunAs
  split
  · exact absurd rfl h
  · rfl

theorem trim_length (s : Text) : (trim s).length ≤ s.length := by
  unfold trim trimEnd trimStart
  apply le_trans (List.rdropWhile_prefix isSpace (s.dropWhile isSpace)).sublist.length_le
  exact List.length_dropWhile_le _ _

theorem readRunAs_length (s : Text) : (readRunAs s).2.length ≤ s.length := by
  unfold readRunAs
  split
  · rename_i inner
    cases hs : splitFirst ')' inner with
    | none => exact le_refl _
    | some p =>
      have hinner := (splitFirst_some (show splitFirst _ _ = some (p.1, p.2) from hs)).1
      have htrim := trim_length p.2
      have hlen := congrArg List.length hinner
      simp only [List.length_append, List.length_cons] at hlen ⊢
      omega
  · exact le_refl _

/-- The text behind the `=` is read as `ALL` exactly when it is plain. -/
theorem readsAll_plain (value : Text) (leading : Bool) :
    (trim (stripTags value.length false (readRunAs value).2).2 = "ALL".toList ∧
      (stripTags value.length false (readRunAs value).2).1 = leading) ↔ PlainAll value leading := by
  have htagged : ∀ s : Text, s.length ≤ value.length →
      ((trim (stripTags value.length false s).2 = "ALL".toList ∧
        (stripTags value.length false s).1 = leading) ↔ TaggedAll s leading) := by
    intro s hlen
    constructor
    · rintro ⟨hall, hlead⟩
      obtain ⟨ts, htext, hvalid, hlast⟩ := stripTags_tags value.length false s
      exact ⟨ts, _, htext, hall, hvalid, by rw [← hlead, hlast]⟩
    · rintro ⟨ts, w, rfl, hw, hvalid, rfl⟩
      have h := stripTags_all hw hvalid hlen false
      exact ⟨h.2, h.1⟩
  rw [htagged _ (readRunAs_length value)]
  unfold PlainAll
  by_cases hhead : value.head? = some '('
  · obtain ⟨inner, rfl⟩ : ∃ inner, value = '(' :: inner := by
      cases value with
      | nil => cases hhead
      | cons c inner => exact ⟨inner, by rw [Option.some.inj hhead]⟩
    have hread : (readRunAs ('(' :: inner)).2 =
        ((splitFirst ')' inner).map fun p => trim p.2).getD ('(' :: inner) := by
      simp only [readRunAs]
      cases splitFirst ')' inner with
      | none => rfl
      | some p => rfl
    rw [hread]
    cases hs : splitFirst ')' inner with
    | none =>
      constructor
      · intro h
        exact absurd hhead h.head
      · rintro (⟨h, -⟩ | ⟨runAs, after, hr, he, -⟩)
        · exact absurd hhead h
        · have hinner : inner = runAs ++ ')' :: after := (List.cons.inj he).2
          rw [hinner, splitFirst_append hr] at hs
          cases hs
    | some p =>
      obtain ⟨hinner, hp⟩ := splitFirst_some (show splitFirst _ _ = some (p.1, p.2) from hs)
      constructor
      · intro h
        exact .inr ⟨p.1, p.2, hp, by rw [hinner]; rfl, h⟩
      · rintro (⟨h, -⟩ | ⟨runAs, after, hr, he, h⟩)
        · exact absurd hhead h
        · have hinner' : inner = runAs ++ ')' :: after := (List.cons.inj he).2
          rw [hinner', splitFirst_append hr] at hs
          cases hs
          exact h
  · rw [readRunAs_plain hhead]
    constructor
    · intro h
      exact .inl ⟨hhead, h⟩
    · rintro (⟨-, h⟩ | ⟨runAs, after, -, he, -⟩)
      · exact h
      · exact absurd (by rw [he]; rfl) hhead

/-! ## A rule -/

theorem hasLaterTag_comma {s : Text} (h : hasLaterTag s = true) : ',' ∈ s := by
  obtain ⟨u, hu, htag⟩ := List.any_eq_true.mp h
  split at htag
  · exact ((List.mem_tails _ _).mp hu).subset List.mem_cons_self
  · cases htag

/-- What a rule is reported as when its command list is `ALL`. -/
theorem readSpec_all (line : Nat) (who hosts value : Text) (noPassword : Bool) :
    ((readSpec line who hosts value).grantsAll = true ∧
      (noPassword = true → (readSpec line who hosts value).noPassword ≠ .none)) ↔
      ∃ leading, PlainAll (trim value) leading ∧ (noPassword = true → leading = true) := by
  let tags := stripTags (trim value).length false (readRunAs (trim value)).2
  have hgrants : (readSpec line who hosts value).grantsAll = true ↔
      trim tags.2 = "ALL".toList := decide_eq_true_iff
  have hflag : trim tags.2 = "ALL".toList →
      ((readSpec line who hosts value).noPassword ≠ .none ↔ tags.1 = true) := by
    intro hall
    have hlater : hasLaterTag tags.2 = false := by
      rw [Bool.eq_false_iff]
      intro h
      exact not_mem_of_trim hall (by decide) (by decide) (hasLaterTag_comma h)
    show (if hasLaterTag tags.2 = true then NoPassword.some else if tags.1 = true then .all else .none)
      ≠ .none ↔ _
    rw [hlater, if_neg (by decide)]
    cases tags.1 with
    | true => simp
    | false => simp
  constructor
  · rintro ⟨hall, hpass⟩
    rw [hgrants] at hall
    refine ⟨tags.1, (readsAll_plain _ _).mp ⟨hall, rfl⟩, ?_⟩
    intro hn
    exact (hflag hall).mp (hpass hn)
  · rintro ⟨leading, hplain, hpass⟩
    obtain ⟨hall, hlead⟩ := (readsAll_plain _ _).mpr hplain
    refine ⟨hgrants.mpr hall, ?_⟩
    intro hn
    rw [hflag hall]
    show tags.1 = true
    rw [← hpass hn]
    exact hlead

/-- The number of a line is all that a line's place changes. -/
def Line.renumber (i : Nat) : Line → Line
  | .spec s => .spec { s with line := i }
  | l => l

theorem readLine_renumber (i : Nat) (t : Text) : readLine i t = (readLine 0 t).renumber i := by
  unfold readLine
  by_cases hnil : t = []
  · simp only [hnil, if_true]
    rfl
  · simp only [hnil, if_false]
    cases readInclude t with
    | some path => rfl
    | none =>
      by_cases hhash : t.head? = some '#'
      · simp only [hhash, if_true]
        rfl
      · simp only [hhash, if_false]
        by_cases hdef : "Defaults".toList.isPrefixOf t = true
        · simp only [hdef, if_true]
          rfl
        · simp only [hdef, if_false, Bool.false_eq_true]
          cases readAlias t with
          | some a => rfl
          | none =>
            cases readRule t with
            | none => rfl
            | some p => rfl

theorem readLine_spec {i : Nat} {t : Text} {s : SudoersSpec} (h : readLine i t = .spec s) :
    ∃ who hosts value, readRule t = some (who, hosts, value) ∧ s = readSpec i who hosts value := by
  unfold readLine at h
  split at h
  · cases h
  · split at h
    · cases h
    · split at h
      · cases h
      · split at h
        · cases h
        · split at h
          · cases h
          · split at h
            · rename_i who hosts value hrule
              cases h
              exact ⟨who, hosts, value, hrule, rfl⟩
            · cases h

/-! ## Files -/

theorem Line.renumber_alias {i : Nat} {l : Line} {al : SudoersAlias} :
    l.renumber i = .definition al ↔ l = .definition al := by
  cases l <;> simp [Line.renumber]

theorem Line.renumber_unparsed {i : Nat} {l : Line} {s : Text} :
    l.renumber i = .unparsed s ↔ l = .unparsed s := by
  cases l <;> simp [Line.renumber]

theorem Line.renumber_include {i : Nat} {l : Line} {s : Text} :
    l.renumber i = .inclusion s ↔ l = .inclusion s := by
  cases l <;> simp [Line.renumber]

/-- What the lines of a file are read as, with the place of each. -/
theorem mem_readLines {text : Text} {l : Line} :
    (∃ i, (i, l) ∈ readLines text) ↔
      ∃ i, ∃ raw, (i, raw) ∈ joinLines 0 [] 0 ((text.splitOn '\n').take SUDOERS_MAX_LINES) ∧
        (readLine 0 (trim raw)).renumber i = l := by
  unfold readLines
  constructor
  · rintro ⟨i, h⟩
    obtain ⟨⟨j, raw⟩, hraw, he⟩ := List.mem_map.mp h
    cases he
    exact ⟨_, raw, hraw, (readLine_renumber _ _).symm⟩
  · rintro ⟨i, raw, hraw, rfl⟩
    exact ⟨i, List.mem_map.mpr ⟨(i, raw), hraw, by rw [readLine_renumber]⟩⟩

theorem mem_fileLines {text t : Text} :
    t ∈ fileLines text ↔
      ∃ i, ∃ raw, (i, raw) ∈ joinLines 0 [] 0 ((text.splitOn '\n').take SUDOERS_MAX_LINES) ∧
        trim raw = t := by
  unfold fileLines
  constructor
  · intro h
    obtain ⟨⟨i, raw⟩, hraw, rfl⟩ := List.mem_map.mp h
    exact ⟨i, raw, hraw, rfl⟩
  · rintro ⟨i, raw, hraw, rfl⟩
    exact List.mem_map.mpr ⟨(i, raw), hraw, rfl⟩

theorem mem_aliases {text : Text} {al : SudoersAlias} :
    al ∈ (parseSudoers text).aliases ↔ ∃ t ∈ fileLines text, readLine 0 t = .definition al := by
  have hread : al ∈ (parseSudoers text).aliases ↔ ∃ i, (i, Line.definition al) ∈ readLines text := by
    show al ∈ List.filterMap _ _ ↔ _
    rw [List.mem_filterMap]
    constructor
    · rintro ⟨⟨i, l⟩, hl, hal⟩
      cases l with
      | definition a =>
        cases hal
        exact ⟨i, hl⟩
      | _ => cases hal
    · rintro ⟨i, hl⟩
      exact ⟨_, hl, rfl⟩
  rw [hread, mem_readLines]
  constructor
  · rintro ⟨i, raw, hraw, h⟩
    exact ⟨trim raw, mem_fileLines.mpr ⟨i, raw, hraw, rfl⟩, Line.renumber_alias.mp h⟩
  · rintro ⟨t, ht, h⟩
    obtain ⟨i, raw, hraw, rfl⟩ := mem_fileLines.mp ht
    exact ⟨i, raw, hraw, Line.renumber_alias.mpr h⟩

theorem mem_unparsed {text s : Text} :
    (∃ i, (i, s) ∈ (parseSudoers text).unparsed) ↔
      ∃ t ∈ fileLines text, readLine 0 t = .unparsed s := by
  have hread : (∃ i, (i, s) ∈ (parseSudoers text).unparsed) ↔
      ∃ i, (i, Line.unparsed s) ∈ readLines text := by
    apply exists_congr
    intro i
    show (i, s) ∈ List.filterMap _ _ ↔ _
    rw [List.mem_filterMap]
    constructor
    · rintro ⟨⟨j, l⟩, hl, hal⟩
      cases l with
      | unparsed a =>
        cases hal
        exact hl
      | _ => cases hal
    · intro hl
      exact ⟨_, hl, rfl⟩
  rw [hread, mem_readLines]
  constructor
  · rintro ⟨i, raw, hraw, h⟩
    exact ⟨trim raw, mem_fileLines.mpr ⟨i, raw, hraw, rfl⟩, Line.renumber_unparsed.mp h⟩
  · rintro ⟨t, ht, h⟩
    obtain ⟨i, raw, hraw, rfl⟩ := mem_fileLines.mp ht
    exact ⟨i, raw, hraw, Line.renumber_unparsed.mpr h⟩

theorem mem_includes {text s : Text} :
    s ∈ (parseSudoers text).includes ↔ ∃ t ∈ fileLines text, readLine 0 t = .inclusion s := by
  have hread : s ∈ (parseSudoers text).includes ↔ ∃ i, (i, Line.inclusion s) ∈ readLines text := by
    show s ∈ List.filterMap _ _ ↔ _
    rw [List.mem_filterMap]
    constructor
    · rintro ⟨⟨i, l⟩, hl, hal⟩
      cases l with
      | inclusion a =>
        cases hal
        exact ⟨i, hl⟩
      | _ => cases hal
    · rintro ⟨i, hl⟩
      exact ⟨_, hl, rfl⟩
  rw [hread, mem_readLines]
  constructor
  · rintro ⟨i, raw, hraw, h⟩
    exact ⟨trim raw, mem_fileLines.mpr ⟨i, raw, hraw, rfl⟩, Line.renumber_include.mp h⟩
  · rintro ⟨t, ht, h⟩
    obtain ⟨i, raw, hraw, rfl⟩ := mem_fileLines.mp ht
    exact ⟨i, raw, hraw, Line.renumber_include.mpr h⟩

/-- The rules of a file are its plain lines with a host and an `=`. -/
theorem mem_specs {text : Text} {s : SudoersSpec} :
    s ∈ (parseSudoers text).specs ↔
      ∃ i, ∃ raw, (i, raw) ∈ joinLines 0 [] 0 ((text.splitOn '\n').take SUDOERS_MAX_LINES) ∧
        readLine i (trim raw) = .spec s := by
  have hread : s ∈ (parseSudoers text).specs ↔ ∃ i, (i, Line.spec s) ∈ readLines text := by
    show s ∈ List.filterMap _ _ ↔ _
    rw [List.mem_filterMap]
    constructor
    · rintro ⟨⟨i, l⟩, hl, hal⟩
      cases l with
      | spec a =>
        cases hal
        exact ⟨i, hl⟩
      | _ => cases hal
    · rintro ⟨i, hl⟩
      exact ⟨_, hl, rfl⟩
  rw [hread, mem_readLines]
  apply exists_congr
  intro i
  apply exists_congr
  intro raw
  rw [← readLine_renumber]

theorem parseSudoers_nil :
    parseSudoers [] = ⟨[], [], [], [], [], false⟩ := by
  decide

/-! ## Findings -/

theorem isAccount_iff (user : Text) (groups : List Text) (w : Text) :
    isAccount user groups w = true ↔
      w = user ∨ (w.head? = some '%' ∧ groups.contains w.tail = true) := by
  unfold isAccount
  rw [Bool.or_eq_true, Bool.and_eq_true, decide_eq_true_iff, decide_eq_true_iff]

theorem viaOf_isSome (user : Text) (groups aliases : List Text) (w : Text) :
    (viaOf user groups aliases w).isSome = true ↔
      isAccount user groups w = true ∨ w ∈ aliases := by
  rw [isAccount_iff]
  unfold viaOf
  split_ifs with hname hgroup halias
  · simp [hname]
  · exact ⟨fun _ => .inl (.inr hgroup), fun _ => rfl⟩
  · exact ⟨fun _ => .inr (List.contains_iff_mem.mp halias), fun _ => rfl⟩
  · constructor
    · intro h
      cases h
    · rintro ((h | h) | h)
      · exact absurd h hname
      · exact absurd h hgroup
      · exact absurd (List.contains_iff_mem.mpr h) halias

theorem mem_userAliases {a : Policy.Account} {f : Collected} {w : Text} :
    w ∈ userAliases a.name a.groups (parseSudoers f.text) ↔
      ∃ t ∈ fileLines f.text, ∃ al, readLine 0 t = .definition al ∧ al.kind = .User_Alias ∧
        al.name = w ∧ ∃ m ∈ al.members, isAccount a.name a.groups m = true := by
  unfold userAliases
  rw [List.mem_map]
  constructor
  · rintro ⟨al, hal, rfl⟩
    obtain ⟨hmem, htest⟩ := List.mem_filter.mp hal
    rw [Bool.and_eq_true, decide_eq_true_iff, List.any_eq_true] at htest
    obtain ⟨t, ht, hread⟩ := mem_aliases.mp hmem
    exact ⟨t, ht, al, hread, htest.1, rfl, htest.2⟩
  · rintro ⟨t, ht, al, hread, hkind, rfl, hm⟩
    refine ⟨al, List.mem_filter.mpr ⟨mem_aliases.mpr ⟨t, ht, hread⟩, ?_⟩, rfl⟩
    rw [Bool.and_eq_true, decide_eq_true_iff, List.any_eq_true]
    exact ⟨hkind, hm⟩

theorem mem_sudoPrivilegesFor {a : Policy.Account} {f : Collected} {noPassword : Bool} :
    (∃ x ∈ sudoPrivilegesFor a.name a.groups (parseSudoers f.text),
      x.grantsAll = true ∧ (noPassword = true → x.noPassword ≠ .none)) ↔
      ∃ spec ∈ (parseSudoers f.text).specs,
        (∃ w ∈ names spec.who, isAccount a.name a.groups w = true ∨
          w ∈ userAliases a.name a.groups (parseSudoers f.text)) ∧
        spec.grantsAll = true ∧ (noPassword = true → spec.noPassword ≠ .none) := by
  unfold sudoPrivilegesFor
  constructor
  · rintro ⟨x, hx, hall, hpass⟩
    obtain ⟨spec, hspec, hfind⟩ := List.mem_filterMap.mp hx
    obtain ⟨w, hw, hvia⟩ := List.exists_of_findSome?_eq_some hfind
    obtain ⟨via, hv, rfl⟩ := Option.map_eq_some_iff.mp hvia
    refine ⟨spec, hspec, ⟨w, hw, ?_⟩, hall, hpass⟩
    rw [← viaOf_isSome, hv]
    rfl
  · rintro ⟨spec, hspec, ⟨w, hw, hnamed⟩, hall, hpass⟩
    rw [← viaOf_isSome] at hnamed
    have hsome : ((names spec.who).findSome? fun who =>
        (viaOf a.name a.groups (userAliases a.name a.groups (parseSudoers f.text)) who).map
          fun via => ({ who := who, runAs := spec.runAs, noPassword := spec.noPassword
                        grantsAll := spec.grantsAll, commands := spec.commands
                        line := spec.line, via := via } : SudoFinding)).isSome = true := by
      rw [List.findSome?_isSome_iff]
      exact ⟨w, hw, by rw [Option.isSome_map]; exact hnamed⟩
    obtain ⟨x, hx⟩ := Option.isSome_iff_exists.mp hsome
    refine ⟨x, List.mem_filterMap.mpr ⟨spec, hspec, hx⟩, ?_⟩
    obtain ⟨v, -, hvia⟩ := List.exists_of_findSome?_eq_some hx
    obtain ⟨via, -, rfl⟩ := Option.map_eq_some_iff.mp hvia
    exact ⟨hall, hpass⟩

theorem shows_iff (a : Policy.Account) (files : List Collected) (noPassword : Bool) :
    Shows (answerFor a files) noPassword ↔ PlainlyGranted a files noPassword := by
  have hfindings : ∀ x, x ∈ (answerFor a files).findings ↔
      ∃ f ∈ readable files, x ∈ sudoPrivilegesFor a.name a.groups (parseSudoers f.text) := by
    intro x
    show x ∈ List.flatMap _ (files.map readFile) ↔ _
    rw [List.mem_flatMap]
    constructor
    · rintro ⟨g, hg, hx⟩
      obtain ⟨f, hf, rfl⟩ := List.mem_map.mp hg
      unfold readFile at hx
      simp only at hx
      by_cases hu : isUnreadable f.text = true
      · rw [if_pos hu, parseSudoers_nil] at hx
        exact absurd hx List.not_mem_nil
      · rw [if_neg hu] at hx
        exact ⟨f, List.mem_filter.mpr ⟨hf, by simpa using hu⟩, hx⟩
    · rintro ⟨f, hf, hx⟩
      obtain ⟨hmem, hu⟩ := List.mem_filter.mp hf
      refine ⟨readFile f, List.mem_map_of_mem hmem, ?_⟩
      unfold readFile
      have hu' : ¬isUnreadable f.text = true := by simpa using hu
      simp only
      rw [if_neg hu']
      exact hx
  constructor
  · rintro ⟨x, hx, hshow⟩
    obtain ⟨f, hf, hmem⟩ := (hfindings x).mp hx
    obtain ⟨spec, hspec, hnamed, hall⟩ := mem_sudoPrivilegesFor.mp ⟨x, hmem, hshow⟩
    obtain ⟨i, raw, hraw, hread⟩ := mem_specs.mp hspec
    obtain ⟨who, hosts, value, hrule, rfl⟩ := readLine_spec hread
    obtain ⟨leading, hplain, hlead⟩ := (readSpec_all i who hosts value noPassword).mp hall
    obtain ⟨s₀, hs₀⟩ : ∃ s₀, readLine 0 (trim raw) = .spec s₀ := by
      rw [readLine_renumber] at hread
      cases h₀ : readLine 0 (trim raw) with
      | spec s => exact ⟨s, rfl⟩
      | _ =>
        rw [h₀] at hread
        cases hread
    refine ⟨f, hf, trim raw, mem_fileLines.mpr ⟨i, raw, hraw, rfl⟩, s₀, hs₀, who, hosts, value,
      leading, hrule, ?_, hplain, hlead⟩
    obtain ⟨w, hw, hw'⟩ := hnamed
    exact ⟨w, hw, hw'.imp id mem_userAliases.mp⟩
  · rintro ⟨f, hf, t, ht, s₀, hs₀, who, hosts, value, leading, hrule, ⟨w, hw, hw'⟩, hplain, hlead⟩
    obtain ⟨i, raw, hraw, rfl⟩ := mem_fileLines.mp ht
    have hread : readLine i (trim raw) = .spec (readSpec i who hosts value) := by
      obtain ⟨who', hosts', value', hrule', rfl⟩ := readLine_spec hs₀
      rw [hrule] at hrule'
      cases hrule'
      rw [readLine_renumber, hs₀]
      rfl
    obtain ⟨x, hx, hshow⟩ := mem_sudoPrivilegesFor.mpr
      ⟨_, mem_specs.mpr ⟨i, raw, hraw, hread⟩, ⟨w, hw, hw'.imp id mem_userAliases.mpr⟩,
        (readSpec_all i who hosts value noPassword).mpr ⟨leading, hplain, hlead⟩⟩
    exact ⟨x, (hfindings x).mpr ⟨f, hf, hx⟩, hshow⟩

/-! ## Gaps -/

theorem pos_length_flatMap {α β : Type*} (l : List α) (f : α → List β) :
    0 < (l.flatMap f).length ↔ ∃ a ∈ l, ∃ b, b ∈ f a := by
  rw [List.length_pos_iff_exists_mem]
  constructor
  · rintro ⟨b, hb⟩
    obtain ⟨a, ha, hb⟩ := List.mem_flatMap.mp hb
    exact ⟨a, ha, b, hb⟩
  · rintro ⟨a, ha, b, hb⟩
    exact ⟨b, List.mem_flatMap.mpr ⟨a, ha, hb⟩⟩

/-- A file that cannot be read gives an empty reading. -/
theorem reading_cases (f : Collected) :
    (isUnreadable f.text = true ∧ (readFile f).reading = ⟨[], [], [], [], [], false⟩) ∨
      (isUnreadable f.text = false ∧ (readFile f).reading = parseSudoers f.text) := by
  unfold readFile
  cases hu : isUnreadable f.text with
  | true => exact .inl ⟨rfl, parseSudoers_nil⟩
  | false => exact .inr ⟨rfl, rfl⟩

theorem carriesGap_iff (a : Policy.Account) (files : List Collected) :
    CarriesGap (answerFor a files) ↔ LeavesGap files := by
  have hunreadable : (answerFor a files).unreadable ≠ [] ↔
      ∃ f ∈ files, isUnreadable f.text = true := by
    show List.map _ (List.filter _ (files.map readFile)) ≠ [] ↔ _
    rw [← List.length_pos_iff, List.length_map, List.length_pos_iff_exists_mem]
    constructor
    · rintro ⟨g, hg⟩
      obtain ⟨hmem, hu⟩ := List.mem_filter.mp hg
      obtain ⟨f, hf, rfl⟩ := List.mem_map.mp hmem
      exact ⟨f, hf, hu⟩
    · rintro ⟨f, hf, hu⟩
      exact ⟨readFile f, List.mem_filter.mpr ⟨List.mem_map_of_mem hf, hu⟩⟩
  have hunparsed : 0 < (answerFor a files).sentence.unparsed ↔
      ∃ f ∈ readable files, ∃ t ∈ fileLines f.text, ∃ s, readLine 0 t = .unparsed s := by
    show 0 < ((files.map readFile).flatMap fun f => f.reading.unparsed).length ↔ _
    rw [pos_length_flatMap]
    constructor
    · rintro ⟨g, hg, ⟨i, s⟩, hs⟩
      obtain ⟨f, hf, rfl⟩ := List.mem_map.mp hg
      rcases reading_cases f with ⟨-, hr⟩ | ⟨hu, hr⟩
      · rw [hr] at hs
        exact absurd hs List.not_mem_nil
      · rw [hr] at hs
        obtain ⟨t, ht, hread⟩ := mem_unparsed.mp ⟨i, hs⟩
        exact ⟨f, List.mem_filter.mpr ⟨hf, by simp [hu]⟩, t, ht, s, hread⟩
    · rintro ⟨f, hf, t, ht, s, hread⟩
      obtain ⟨hmem, hu⟩ := List.mem_filter.mp hf
      obtain ⟨i, hs⟩ := mem_unparsed.mpr ⟨t, ht, hread⟩
      refine ⟨readFile f, List.mem_map_of_mem hmem, (i, s), ?_⟩
      rcases reading_cases f with ⟨hu', -⟩ | ⟨-, hr⟩
      · rw [hu'] at hu
        cases hu
      · rw [hr]
        exact hs
  have hincludes : 0 < (answerFor a files).sentence.includes ↔
      ∃ f ∈ readable files, ∃ t ∈ fileLines f.text, ∃ path, readLine 0 t = .inclusion path ∧
        ∀ g ∈ files, (withoutSlash path).isPrefixOf g.path = false := by
    show 0 < (List.filter _ _).length ↔ _
    rw [List.length_pos_iff_exists_mem]
    have hfollowed : ∀ path : Text, (!(files.map readFile).any fun f =>
        (withoutSlash path).isPrefixOf f.path) = true ↔
          ∀ g ∈ files, (withoutSlash path).isPrefixOf g.path = false := by
      intro path
      rw [Bool.not_eq_true', List.any_eq_false]
      constructor
      · intro h g hg
        exact Bool.eq_false_iff.mpr (h (readFile g) (List.mem_map_of_mem hg))
      · intro h g hg
        obtain ⟨f, hf, rfl⟩ := List.mem_map.mp hg
        exact Bool.eq_false_iff.mp (h f hf)
    constructor
    · rintro ⟨path, hp⟩
      obtain ⟨hmem, hnot⟩ := List.mem_filter.mp hp
      obtain ⟨g, hg, hpath⟩ := List.mem_flatMap.mp hmem
      obtain ⟨f, hf, rfl⟩ := List.mem_map.mp hg
      rcases reading_cases f with ⟨-, hr⟩ | ⟨hu, hr⟩
      · rw [hr] at hpath
        exact absurd hpath List.not_mem_nil
      · rw [hr] at hpath
        obtain ⟨t, ht, hread⟩ := mem_includes.mp hpath
        exact ⟨f, List.mem_filter.mpr ⟨hf, by simp [hu]⟩, t, ht, path, hread,
          (hfollowed path).mp hnot⟩
    · rintro ⟨f, hf, t, ht, path, hread, hnot⟩
      obtain ⟨hmem, hu⟩ := List.mem_filter.mp hf
      refine ⟨path, List.mem_filter.mpr ⟨?_, (hfollowed path).mpr hnot⟩⟩
      refine List.mem_flatMap.mpr ⟨readFile f, List.mem_map_of_mem hmem, ?_⟩
      rcases reading_cases f with ⟨hu', -⟩ | ⟨-, hr⟩
      · rw [hu'] at hu
        cases hu
      · rw [hr]
        exact mem_includes.mpr ⟨t, ht, hread⟩
  have htruncated : (answerFor a files).sentence.truncated = true ↔
      ∃ f ∈ readable files, SUDOERS_MAX_LINES < (f.text.splitOn '\n').length := by
    show ((files.map readFile).any fun f => f.reading.truncated) = true ↔ _
    rw [List.any_eq_true]
    constructor
    · rintro ⟨g, hg, ht⟩
      obtain ⟨f, hf, rfl⟩ := List.mem_map.mp hg
      rcases reading_cases f with ⟨-, hr⟩ | ⟨hu, hr⟩
      · rw [hr] at ht
        cases ht
      · rw [hr] at ht
        exact ⟨f, List.mem_filter.mpr ⟨hf, by simp [hu]⟩, of_decide_eq_true ht⟩
    · rintro ⟨f, hf, ht⟩
      obtain ⟨hmem, hu⟩ := List.mem_filter.mp hf
      refine ⟨readFile f, List.mem_map_of_mem hmem, ?_⟩
      rcases reading_cases f with ⟨hu', -⟩ | ⟨-, hr⟩
      · rw [hu'] at hu
        cases hu
      · rw [hr]
        exact decide_eq_true ht
  unfold CarriesGap LeavesGap
  rw [hunreadable, hunparsed, hincludes, htruncated]
  constructor
  · rintro (⟨f, hf, t, ht, hs⟩ | ⟨f, hf, t, ht, hp⟩ | ⟨f, hf, ht⟩ | h)
    · exact .inr ⟨f, hf, .inr ⟨t, ht, .inl hs⟩⟩
    · exact .inr ⟨f, hf, .inr ⟨t, ht, .inr hp⟩⟩
    · exact .inr ⟨f, hf, .inl ht⟩
    · exact .inl h
  · rintro (h | ⟨f, hf, ht | ⟨t, ht, hs | hp⟩⟩)
    · exact .inr (.inr (.inr h))
    · exact .inr (.inr (.inl ⟨f, hf, ht⟩))
    · exact .inl ⟨f, hf, t, ht, hs⟩
    · exact .inr (.inl ⟨f, hf, t, ht, hp⟩)

def everybodyFile : Collected :=
  ⟨"/etc/sudoers".toList, "\nALL ALL=(ALL) NOPASSWD: ALL\n".toList⟩

/-- All users on all hosts, the command `ALL` without a password. -/
def everybodySpec : Policy.UserSpec :=
  ⟨[⟨false, [Policy.ALL]⟩], [⟨[⟨false, [Policy.ALL]⟩], [⟨true, ⟨false, [Policy.ALL]⟩⟩]⟩]⟩

theorem policyOf_everybody :
    Policy.specsOf (policyOf [everybodyFile]) = [everybodySpec] ∧
      Policy.aliasesOf (policyOf [everybodyFile]) = [] := by
  decide +kernel

end OpsMaxx.Sudoers
