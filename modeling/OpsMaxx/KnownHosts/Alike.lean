import OpsMaxx.Strings.Words
import OpsMaxx.Jobs.Cursor
import OpsMaxx.KnownHosts.File

/-!
# Where the lookup follows OpenSSH

The entries read in a file are its lines, and an entry takes a name of one line when its line does.
The name itself is where the two part: the lookup has it as it was written, and only in its long
form.
-/

set_option autoImplicit false

namespace OpsMaxx.KnownHosts

open Strings
open Access (Bytes encodeBase64)

/-! ## Words of a line -/

theorem isSpace_of_isBlank {c : Char} (h : isBlank c = true) : isSpace c = true := by
  simp only [isBlank, Bool.or_eq_true, decide_eq_true_eq] at h
  obtain (rfl | rfl) | rfl := h <;> decide

theorem words_spaces {s : Text} (hs : ∀ c ∈ s, isSpace c = true) (t : Text) :
    words (s ++ t) = words t := by
  induction s with
  | nil => rfl
  | cons c s ih =>
    obtain ⟨hc, hs⟩ := List.forall_mem_cons.mp hs
    rw [List.cons_append, words_space c hc, ih hs]

/-- A word, and a gap behind it. -/
theorem words_gap {w gap : Text} (hw : IsWord w) (hgap : IsGap gap) (rest : Text) :
    words (w ++ gap ++ rest) = w :: words rest := by
  obtain ⟨hne, hgap⟩ := hgap
  have hspaces : ∀ c ∈ gap, isSpace c = true := fun c hc => isSpace_of_isBlank (hgap c hc)
  rw [List.append_assoc, words_word_append hw, words_spaces hspaces]
  intro c hc
  cases gap with
  | nil => exact absurd rfl hne
  | cons d gap =>
    obtain rfl := Option.some.inj hc
    exact hspaces _ List.mem_cons_self

theorem isWord_encodeBase64 {b : Bytes} (hb : b ≠ []) : IsWord (encodeBase64 b) := by
  constructor
  · intro h
    have hdecode := Access.decodeBase64_encode hb
    rw [h] at hdecode
    cases hdecode
  · have hall : ∀ c ∈ '=' :: Sidecar.base64Alphabet, isInk c = true := by decide
    exact fun c hc => hall c (Sidecar.base64Encode_mem b c hc)

theorem bufferFrom_encode (b : Bytes) : bufferFrom (encodeBase64 b) = b := by
  have hall : ∀ c ∈ '=' :: Sidecar.base64Alphabet, standard c = c := by decide
  have hmap : (encodeBase64 b).map standard = encodeBase64 b :=
    (List.map_congr_left fun c hc => hall c (Sidecar.base64Encode_mem b c hc)).trans (List.map_id _)
  unfold bufferFrom
  rw [hmap]
  exact Jobs.Reply.base64Bytes_encode b

theorem bar_not_mem (b : Bytes) : '|' ∉ encodeBase64 b := by
  intro h
  exact absurd (Sidecar.base64Encode_mem b _ h) (by decide)

/-! ## One line -/

variable {hmac : Bytes → Text → Bytes}

/-- The entry has the marker and the key of the line, and takes the names it takes. -/
structure Reads (hmac : Bytes → Text → Bytes) (e : OpenSshHostEntry) (l : Line) : Prop where
  marker : e.marker = l.marker
  key : e.key = l.key
  takes : ∀ name : Text, (∀ c ∈ name, isDot c = true) →
    (entryMatchesHost hmac e name = true ↔ l.hosts.takes hmac name)
  patterns : ∀ ps, l.hosts = .patterns ps → e.hashed = none ∧ e.patterns = ps

theorem patternsLoop_eq (ps : List Text) (matched : Bool) {name : Text}
    (hname : ∀ c ∈ name, isDot c = true) :
    patternsLoop name matched ps =
      ((matched || ps.any fun p => takes p name) && !ps.any fun p => excludes p name) := by
  induction ps generalizing matched with
  | nil => simp [patternsLoop]
  | cons p ps ih =>
    unfold patternsLoop
    rw [List.any_cons, List.any_cons, test_globRegex _ hname, test_globRegex _ hname]
    unfold takes excludes at ih ⊢
    by_cases hneg : p.head? = some '!'
    · cases hglob : glob p.tail name with
      | true => simp [hneg]
      | false => simp [hneg, ih]
    · cases hglob : glob p name with
      | true => simp [hneg, ih]
      | false => simp [hneg, ih]

theorem hashMark_eq : "|1|".toList = ['|', '1', '|'] := by decide

theorem SpelledHosts.isWord {h : Hosts} {s : Text} (hs : SpelledHosts h s) :
    IsWord s ∧ s.head? ≠ some '#' ∧ s.head? ≠ some '@' := by
  cases hs with
  | patterns hs hhead => exact ⟨hs, hhead.1, hhead.2.1⟩
  | hashed hsalt hhash =>
    have hbar : ∀ c ∈ ['|', '1', '|'], isInk c = true := by decide
    rw [hashMark_eq]
    refine ⟨⟨by simp, fun c hc => ?_⟩, by simp, by simp⟩
    obtain hc | hc := List.mem_append.mp hc
    · obtain hc | hc := List.mem_append.mp hc
      · exact hbar c hc
      · exact (isWord_encodeBase64 hsalt).2 c hc
    obtain rfl | hc := List.mem_cons.mp hc
    · decide
    · exact (isWord_encodeBase64 hhash).2 c hc

theorem encodeBase64_inj {a b : Bytes} (h : encodeBase64 a = encodeBase64 b) : a = b := by
  rw [← bufferFrom_encode a, h, bufferFrom_encode]

/-- The words of a line behind the marker. -/
theorem readEntry_spelled {l : Line} {hosts type : Text} (hhosts : SpelledHosts l.hosts hosts)
    (hkey : l.key ≠ []) {rest : Text} {comment : List Text} (hne : rest ≠ [])
    (hrest : words rest = hosts :: type :: encodeBase64 l.key :: comment) :
    ∃ e, readEntry l.marker rest = some e ∧ Reads hmac e l := by
  obtain ⟨marker, form, key⟩ := l
  unfold readEntry splitSpaces
  rw [if_neg hne, hrest]
  simp only [bufferFrom_encode]
  rw [if_neg hkey]
  cases hhosts with
  | patterns hs hhead =>
    have hbar : "|1|".toList.isPrefixOf hosts = false := by
      cases hosts with
      | nil => rfl
      | cons c t =>
        have hc : '|' ≠ c := fun heq => hhead.2.2 (by rw [heq]; rfl)
        show ('|' == c && _) = false
        rw [beq_eq_false_iff_ne.mpr hc, Bool.false_and]
    rw [hbar, if_neg Bool.false_ne_true]
    refine ⟨_, rfl, rfl, rfl, fun name hname => ?_, fun ps hps => ⟨rfl, Hosts.patterns.inj hps⟩⟩
    show patternsLoop name false (hosts.splitOn ',') = true ↔ _
    rw [patternsLoop_eq _ _ hname, Bool.false_or]
    rfl
  | @hashed salt hash hsalt hhash =>
    have hbar : "|1|".toList.isPrefixOf ("|1|".toList ++ encodeBase64 salt ++ '|' :: encodeBase64 hash) =
        true := by
      rw [List.isPrefixOf_iff_prefix, List.append_assoc]
      exact List.prefix_append _ _
    have hsplit : ("|1|".toList ++ encodeBase64 salt ++ '|' :: encodeBase64 hash).splitOn '|' =
        [[], ['1'], encodeBase64 salt, encodeBase64 hash] := by
      have hlead : "|1|".toList ++ encodeBase64 salt ++ '|' :: encodeBase64 hash =
          [] ++ '|' :: (['1'] ++ '|' :: (encodeBase64 salt ++ '|' :: encodeBase64 hash)) := by
        rw [hashMark_eq]
        simp
      rw [hlead, List.splitOn_append_cons_self_of_not_mem (by simp),
        List.splitOn_append_cons_self_of_not_mem (by decide),
        List.splitOn_append_cons_self_of_not_mem (bar_not_mem salt),
        List.splitOn_eq_singleton (bar_not_mem hash)]
    rw [hbar, if_pos rfl, hsplit]
    dsimp only
    rw [if_neg (not_or.mpr ⟨(isWord_encodeBase64 hsalt).1, (isWord_encodeBase64 hhash).1⟩)]
    refine ⟨_, rfl, rfl, rfl, fun name _ => ?_, fun ps hps => by cases hps⟩
    show decide (encodeBase64 (hmac (bufferFrom (encodeBase64 salt)) name) = encodeBase64 hash) = true ↔ _
    rw [decide_eq_true_iff, bufferFrom_encode]
    exact ⟨encodeBase64_inj, fun h => congrArg encodeBase64 h⟩

theorem parseLine_of_head {before rest : Text} {c : Char} (hbefore : ∀ c ∈ before, isBlank c = true)
    (hc : isInk c = true) (hhash : c ≠ '#') :
    parseLine (before ++ c :: rest) =
      (readMarker (c :: trimEnd rest)).bind fun read => readEntry read.1 read.2 := by
  have htrim : trim (before ++ c :: rest) = c :: trimEnd rest := by
    unfold trim
    rw [trimStart_spaces fun d hd => isSpace_of_isBlank (hbefore d hd), trimStart_ink hc,
      trimEnd_cons hc]
  unfold parseLine
  simp only [htrim]
  rw [if_neg]
  simpa using hhash

/-- The words of the hosts and what follows them. -/
theorem words_hosts {l : Line} {hosts gap type gap' comment : Text}
    (hhosts : SpelledHosts l.hosts hosts) (hgap : IsGap gap) (htype : IsWord type)
    (hgap' : IsGap gap') (hkey : l.key ≠ [])
    (hcomment : ∀ c, comment.head? = some c → isBlank c = true) :
    words (hosts ++ gap ++ (type ++ gap' ++ (encodeBase64 l.key ++ comment))) =
      hosts :: type :: encodeBase64 l.key :: words comment := by
  rw [words_gap hhosts.isWord.1 hgap, words_gap htype hgap',
    words_word_append (isWord_encodeBase64 hkey) fun c hc => isSpace_of_isBlank (hcomment c hc)]

theorem Marker.tag_spec (m : Marker) : IsWord m.tag ∧ ∃ t, m.tag = '@' :: t := by
  cases m with
  | certAuthority =>
    exact ⟨⟨by decide, by decide⟩, "cert-authority".toList, by decide⟩
  | revoked => exact ⟨⟨by decide, by decide⟩, "revoked".toList, by decide⟩

theorem readMarker_tag (m : Marker) {line : Text} {tail : List Text} (hhead : line.head? = some '@')
    (hwords : words line = m.tag :: tail) : readMarker line = some (some m, unwords tail) := by
  have hne : line ≠ [] := by
    rintro rfl
    cases hhead
  have hother : Marker.revoked.tag ≠ "@cert-authority".toList := by decide
  unfold readMarker splitSpaces
  rw [if_pos hhead, if_neg hne, hwords]
  cases m with
  | certAuthority =>
    have htag : Marker.certAuthority.tag = "@cert-authority".toList := Eq.refl _
    dsimp only
    rw [if_pos htag]
  | revoked =>
    have htag : Marker.revoked.tag = "@revoked".toList := Eq.refl _
    dsimp only
    rw [if_neg hother, if_pos htag]

theorem parseLine_spelled {line : Text} {found : Option Line} (h : SpelledLine line found) :
    List.Forall₂ (Reads hmac) (parseLine line).toList found.toList := by
  cases h with
  | blank hblank =>
    have htrim : trim line = [] := by
      have hstart := trimStart_spaces (fun c hc => isSpace_of_isBlank (hblank c hc)) []
      rw [List.append_nil] at hstart
      unfold trim
      rw [hstart]
      rfl
    unfold parseLine
    rw [if_pos (Or.inl htrim)]
    exact List.Forall₂.nil
  | @comment before rest hbefore =>
    have htrim : trim (before ++ '#' :: rest) = '#' :: trimEnd rest := by
      unfold trim
      rw [trimStart_spaces fun c hc => isSpace_of_isBlank (hbefore c hc),
        trimStart_ink (by decide), trimEnd_cons (by decide)]
    unfold parseLine
    dsimp only
    rw [htrim, if_pos (Or.inr List.head?_cons)]
    exact List.Forall₂.nil
  | @entry l before mark hosts gap type gap' comment hbefore hmark hhosts hgap htype hgap' hkey
      hcomment =>
    have hwords := words_hosts hhosts hgap htype hgap' hkey hcomment
    generalize htail : hosts ++ gap ++ (type ++ gap' ++ (encodeBase64 l.key ++ comment)) = tail
      at hwords ⊢
    have hread : ∃ e, parseLine (before ++ mark ++ tail) = some e ∧ Reads hmac e l := by
      generalize hm : l.marker = marker at hmark
      cases hmark with
      | plain =>
        obtain ⟨⟨hne, hink⟩, hhash, hat⟩ := hhosts.isWord
        cases hosts with
        | nil => exact absurd rfl hne
        | cons c hosts =>
          have hc := hink c List.mem_cons_self
          subst htail
          rw [List.append_nil, List.cons_append, List.cons_append,
            parseLine_of_head hbefore hc (by simpa using hhash), readMarker,
            if_neg (by simpa using hat), ← hm]
          apply readEntry_spelled hhosts hkey (List.cons_ne_nil _ _)
          show words (c :: trimEnd _) = _
          rw [← trimEnd_cons hc, words_trimEnd]
          exact hwords
      | @marked m g hg =>
        obtain ⟨htag, t, ht⟩ := m.tag_spec
        have hline : before ++ (m.tag ++ g) ++ tail = before ++ '@' :: (t ++ g ++ tail) := by
          rw [ht]
          simp
        have hsplit : words ('@' :: trimEnd (t ++ g ++ tail)) = m.tag :: words tail := by
          rw [← trimEnd_cons (by decide), words_trimEnd, ← words_gap htag hg, ht]
          rfl
        have hall := words_isWord tail
        rw [hline, parseLine_of_head hbefore (by decide) (by decide),
          readMarker_tag m List.head?_cons hsplit, ← hm]
        have hrest := (words_unwords hall).trans hwords
        refine readEntry_spelled hhosts hkey (fun hnil => ?_) hrest
        have hempty : unwords (words tail) = [] := hnil
        rw [hempty] at hrest
        cases hrest
    obtain ⟨e, he, hreads⟩ := hread
    rw [he]
    exact List.Forall₂.cons hreads List.Forall₂.nil

theorem reads_parse {text : Text} {lines : List Line} (h : Spells text lines) :
    List.Forall₂ (Reads hmac) (parseKnownHosts text) lines := by
  obtain ⟨found, hfound, rfl⟩ := h
  unfold parseKnownHosts
  generalize text.splitOn '\n' = raws at hfound ⊢
  induction hfound with
  | nil => exact List.Forall₂.nil
  | @cons line item lines found hline _ ih =>
    have hparsed := @parseLine_spelled hmac _ _ hline
    have happend := List.rel_append hparsed ih
    rw [List.filterMap_cons]
    cases hp : parseLine line <;> cases item <;> rw [hp] at happend <;> exact happend

end OpsMaxx.KnownHosts
