import OpsMaxx.ApiUrl.Coding
import OpsMaxx.Strings.Split

/-!
# Writing and reading a query

A clean URL is divided where its template is, and the rows written into it are read back, each pair
as the row it was.
-/

set_option autoImplicit false

namespace OpsMaxx.ApiUrl

open Strings

/-! ## The fragment -/

theorem splitHashFrom_append {s : Text} (f before : Text)
    (hs : ∀ p q, s = p ++ '#' :: q → guarded (before ++ p) = true) :
    splitHashFrom before (s ++ f) = splitHashFrom (before ++ s) f := by
  induction s generalizing before with
  | nil => simp
  | cons c s ih =>
    have hskip : ¬ (c = '#' ∧ guarded before = false) := by
      rintro ⟨rfl, hfree⟩
      have hguard := hs [] s rfl
      rw [List.append_nil, hfree] at hguard
      cases hguard
    rw [List.cons_append, splitHashFrom, if_neg hskip, ih]
    · rw [List.append_assoc, List.singleton_append]
    · rintro p q rfl
      have hguard := hs (c :: p) q rfl
      rwa [List.append_assoc, List.singleton_append]

theorem splitHash_append {s f : Text} (hs : HashGuarded s)
    (hf : f = [] ∨ (f.head? = some '#' ∧ guarded s = false)) : splitHash (s ++ f) = (s, f) := by
  unfold splitHash
  rw [splitHashFrom_append f [] hs, List.nil_append]
  obtain rfl | ⟨hhead, hguard⟩ := hf
  · rfl
  · cases f with
    | nil => cases hhead
    | cons c f => rw [splitHashFrom, if_pos ⟨Option.some.inj hhead, hguard⟩]

/-! ## Where the template divides -/

/-- The first of a character outside references, and what stands around it. -/
theorem splitFirst_textOf {d : Char} {ps : List Piece}
    (h : ∀ r, Piece.reference r ∈ ps.takeWhile (· ≠ .char d) → d ∉ r) :
    splitFirst d (textOf ps) =
      if ps.dropWhile (· ≠ .char d) = [] then none
      else some (textOf (ps.takeWhile (· ≠ .char d)), textOf (ps.dropWhile (· ≠ .char d)).tail) := by
  have hbefore : d ∉ textOf (ps.takeWhile (· ≠ .char d)) := by
    intro hmem
    obtain hmem | ⟨r, hr, hmem⟩ := mem_textOf hmem
    · have hne := List.mem_takeWhile_imp hmem
      simp at hne
    · exact h r hr hmem
  have hsplit := List.takeWhile_append_dropWhile (p := fun q => decide (q ≠ Piece.char d)) (l := ps)
  cases hdrop : ps.dropWhile (· ≠ .char d) with
  | nil =>
    rw [if_pos rfl]
    rw [hdrop, List.append_nil] at hsplit
    rw [hsplit] at hbefore
    exact splitFirst_none hbefore
  | cons q rest =>
    have hq : q = .char d := by
      have hhead := List.head?_dropWhile_not (fun q => decide (q ≠ Piece.char d)) ps
      rw [hdrop] at hhead
      simpa using hhead
    rw [if_neg (by simp)]
    conv => lhs; rw [← hsplit, hdrop, hq, textOf_append]
    exact splitFirst_append hbefore _

variable {u : Text}

theorem mem_head {p : Piece} (h : p ∈ basePieces u ∨ p ∈ queryPieces u) : p ∈ headPieces u := by
  obtain h | h := h
  · exact (List.takeWhile_sublist _).subset h
  · exact (List.dropWhile_sublist _).subset (List.mem_of_mem_tail h)

theorem hash_not_mem_char {ps : List Piece} (h : ∀ p ∈ ps, p ∈ headPieces u) :
    Piece.char '#' ∉ ps := by
  intro hmem
  have hne := List.mem_takeWhile_imp (h _ hmem)
  simp at hne

theorem hashGuarded_textOf {ps : List Piece} (h : CleanUrl u) (hps : ∀ p ∈ ps, p ∈ headPieces u) :
    HashGuarded (textOf ps) := by
  apply hashGuarded_flatMap
  intro p hp
  cases p with
  | reference r => exact h.hashes r (hps _ hp)
  | char c =>
    apply hashGuarded_of_not_mem
    intro hmem
    obtain rfl := List.mem_singleton.mp hmem
    exact hash_not_mem_char hps hp

theorem fragment_head (u : Text) : fragmentOf u = [] ∨ (fragmentOf u).head? = some '#' := by
  unfold fragmentOf
  cases hdrop : (pieces u).dropWhile (· ≠ .char '#') with
  | nil => exact Or.inl rfl
  | cons q rest =>
    have hq : q = .char '#' := by
      have hhead := List.head?_dropWhile_not (fun q => decide (q ≠ Piece.char '#')) (pieces u)
      rw [hdrop] at hhead
      simpa using hhead
    rw [hq]
    exact Or.inr rfl

/-- A clean URL is divided at the fragment of the template. -/
theorem splitHash_clean (h : CleanUrl u) : splitHash u = (textOf (headPieces u), fragmentOf u) := by
  have hsplit := List.takeWhile_append_dropWhile (p := fun q => decide (q ≠ Piece.char '#'))
    (l := pieces u)
  have hu : textOf (headPieces u) ++ fragmentOf u = u := by
    rw [fragmentOf, ← textOf_append, headPieces, hsplit, textOf_pieces]
  have hdivided := splitHash_append (hashGuarded_textOf h fun p hp => hp)
    (f := fragmentOf u) ?_
  · rwa [hu] at hdivided
  · obtain hnil | hguard := h.fragment
    · exact Or.inl hnil
    · exact (fragment_head u).imp_right fun hhead => ⟨hhead, hguard⟩

theorem splitFirst_clean (h : CleanUrl u) :
    splitFirst '?' (textOf (headPieces u)) =
      if (headPieces u).dropWhile (· ≠ .char '?') = [] then none
      else some (baseOf u, textOf (queryPieces u)) := splitFirst_textOf h.marks

theorem baseOf_of_nil (h : (headPieces u).dropWhile (· ≠ .char '?') = []) :
    baseOf u = textOf (headPieces u) ∧ queryPieces u = [] := by
  have hsplit := List.takeWhile_append_dropWhile (p := fun q => decide (q ≠ Piece.char '?'))
    (l := headPieces u)
  rw [h, List.append_nil] at hsplit
  refine ⟨congrArg textOf hsplit, ?_⟩
  rw [queryPieces, h]
  rfl

theorem withParams_clean (h : CleanUrl u) (rows : List Row) :
    withParams u rows = baseOf u ++ queryText ((live rows).map pairText) ++ fragmentOf u := by
  unfold withParams
  rw [splitHash_clean h]
  dsimp only
  rw [splitFirst_clean h]
  split_ifs with hnil
  · rw [(baseOf_of_nil hnil).1]
  · rfl

/-! ## The pairs of a template -/

/-- Between the characters of a template its text is divided where its pieces are. -/
theorem splitOn_textOf {d : Char} {ps : List Piece} (h : ∀ r, Piece.reference r ∈ ps → d ∉ r) :
    (textOf ps).splitOn d = (ps.splitOn (.char d)).map textOf := by
  induction ps with
  | nil => rfl
  | cons p ps ih =>
    have hrest := ih fun r hr => h r (List.mem_cons_of_mem p hr)
    rw [textOf_cons, List.splitOn_cons_eq_if_modifyHead]
    by_cases hp : p = .char d
    · subst hp
      rw [if_pos (by simp), List.map_cons, ← hrest]
      have hnil : d ∉ ([] : Text) := by simp
      exact List.splitOn_append_cons_self_of_not_mem hnil _
    · have hnot : d ∉ p.text := by
        cases p with
        | reference r => exact h r List.mem_cons_self
        | char c =>
          intro hmem
          exact hp (by rw [List.mem_singleton.mp hmem])
      rw [if_neg (by simpa using hp), splitOn_append_of_not_mem hnot, hrest]
      cases ps.splitOn (.char d) <;> rfl

theorem mem_of_mem_splitOn {α : Type} [DecidableEq α] {a x : α} {l pair : List α}
    (hpair : pair ∈ l.splitOn a) (hx : x ∈ pair) : x ∈ l := by
  induction l generalizing pair with
  | nil =>
    rw [List.mem_singleton.mp hpair] at hx
    exact hx
  | cons y l ih =>
    rw [List.splitOn_cons_eq_if_modifyHead] at hpair
    split_ifs at hpair
    · obtain rfl | hpair := List.mem_cons.mp hpair
      · cases hx
      · exact List.mem_cons_of_mem y (ih hpair hx)
    · cases hl : l.splitOn a with
      | nil => exact absurd hl (List.splitOn_ne_nil a l)
      | cons b bs =>
        rw [hl] at hpair ih
        obtain rfl | hpair := List.mem_cons.mp hpair
        · obtain rfl | hx := List.mem_cons.mp hx
          · exact List.mem_cons_self
          · exact List.mem_cons_of_mem y (ih List.mem_cons_self hx)
        · exact List.mem_cons_of_mem y (ih (List.mem_cons_of_mem b hpair) hx)

theorem textOf_ne_nil {ps : List Piece} (hrefs : ∀ r, Piece.reference r ∈ ps → r ≠ []) :
    textOf ps ≠ [] ↔ ps ≠ [] := by
  cases ps with
  | nil => simp
  | cons p ps =>
    have hne : p.text ≠ [] := by
      cases p with
      | reference r => exact hrefs r List.mem_cons_self
      | char c => simp [Piece.text]
    simp [hne]

/-- One pair is read at the equals sign of its template. -/
theorem readPair_textOf {pair : List Piece}
    (h : ∀ r, Piece.reference r ∈ keyPieces pair → '=' ∉ r) : readPair (textOf pair) = namedPair pair := by
  have hsplit := List.takeWhile_append_dropWhile (p := fun q => decide (q ≠ Piece.char '='))
    (l := pair)
  unfold readPair
  rw [splitFirst_textOf h]
  unfold namedPair keyPieces valuePieces
  by_cases hnil : pair.dropWhile (· ≠ .char '=') = []
  · rw [if_pos hnil]
    rw [hnil, List.append_nil] at hsplit
    rw [hnil, hsplit]
    rfl
  · rw [if_neg hnil]

/-- The rows read in a clean URL are the pairs that its template names. -/
theorem splitUrl_clean (h : CleanUrl u) : (splitUrl u).2 = namedPairs u := by
  have hrefs : ∀ pair ∈ (queryPieces u).splitOn (.char '&'), ∀ r, Piece.reference r ∈ pair → r ≠ [] := by
    intro pair hpair r hr
    have hhead := mem_head (Or.inr (mem_of_mem_splitOn hpair hr))
    exact (isReference_of_mem ((List.takeWhile_sublist _).subset hhead)).ne_nil
  have hpairs : ((textOf (queryPieces u)).splitOn '&').filter (· ≠ []) =
      (pairPieces u).map textOf := by
    rw [splitOn_textOf h.ampersands, List.filter_map, pairPieces]
    congr 1
    apply List.filter_congr
    intro pair hpair
    exact decide_eq_decide.mpr (textOf_ne_nil (hrefs pair hpair))
  unfold splitUrl
  rw [splitHash_clean h]
  dsimp only
  rw [splitFirst_clean h]
  split_ifs with hnil
  · have hquery := (baseOf_of_nil hnil).2
    rw [namedPairs, pairPieces, hquery]
    rfl
  · show List.map readPair _ = _
    rw [hpairs, List.map_map, namedPairs]
    exact List.map_congr_left fun pair hpair => readPair_textOf (h.equals pair hpair)

/-! ## The pairs that are written -/

theorem encodePart_ne_nil {t : Text} (h : t ≠ []) (isKey : Bool) : encodePart t isKey ≠ [] := by
  unfold encodePart
  have htext := textOf_pieces t
  cases hps : pieces t with
  | nil =>
    rw [hps] at htext
    exact absurd htext.symm h
  | cons p ps =>
    have hne : encodePiece isKey p ≠ [] := by
      cases p with
      | reference r =>
        have hr : Piece.reference r ∈ pieces t := by
          rw [hps]
          exact List.mem_cons_self
        exact (isReference_of_mem hr).ne_nil
      | char c =>
        obtain ⟨-, hself⟩ | ⟨hmem, -⟩ := encodePiece_char isKey c
        · simp [hself]
        · exact List.ne_nil_of_mem hmem
    simp [hne]

section
variable {r : Row} (hkey : CleanPart true r.key) (hvalue : CleanPart false r.value)
include hkey hvalue

theorem ampersand_not_mem : '&' ∉ pairText r := by
  have hk : '&' ∉ encodePart r.key true :=
    not_mem_encodePart (by decide) (by decide) fun s hs => (hkey s hs).2.2.1
  have hv : '&' ∉ encodePart r.value false :=
    not_mem_encodePart (by decide) (by decide) fun s hs => (hvalue s hs).2.2.1
  unfold pairText
  split_ifs
  · exact hk
  · simp [hk, hv]

theorem hashGuarded_pairText : HashGuarded (pairText r) := by
  unfold pairText
  split_ifs
  · exact hashGuarded_encodePart hkey
  · refine (hashGuarded_encodePart hkey).append ?_
    exact (hashGuarded_of_not_mem (s := ['=']) (by decide)).append (hashGuarded_encodePart hvalue)

theorem readPair_pairText (henabled : r.enabled = true) : readPair (pairText r) = r := by
  have heq : '=' ∉ encodePart r.key true :=
    not_mem_encodePart (by decide) (by decide) fun s hs => (hkey s hs).2.2.2.1 rfl
  have hdecode := safeDecode_encodePart hkey
  have hnil : safeDecode [] = [] := by decide +kernel
  obtain ⟨enabled, key, value⟩ := r
  obtain rfl : enabled = true := henabled
  unfold readPair pairText
  by_cases hempty : value = []
  · subst hempty
    rw [if_pos rfl, splitFirst_none heq]
    dsimp only
    rw [hdecode, hnil]
  · rw [if_neg hempty, splitFirst_append heq]
    dsimp only
    rw [hdecode, safeDecode_encodePart hvalue]

end

theorem pairText_ne_nil {r : Row} (h : r.key ≠ []) : pairText r ≠ [] := by
  unfold pairText
  split_ifs
  · exact encodePart_ne_nil h true
  · simp

theorem mem_live {rows : List Row} {r : Row} (h : r ∈ live rows) : r.enabled = true ∧ r.key ≠ [] := by
  have hr := (List.mem_filter.mp h).2
  simpa using hr

/-! ## What stands before the fragment -/

theorem intercalate_concat {sep : Char} {init : List Text} (hinit : init ≠ []) (p : Text) :
    [sep].intercalate (init ++ [p]) = [sep].intercalate init ++ sep :: p := by
  induction init with
  | nil => exact absurd rfl hinit
  | cons q init ih =>
    cases init with
    | nil => simp [List.intercalate_cons_cons]
    | cons q' init =>
      have hrest := ih (by simp)
      rw [List.cons_append] at hrest ⊢
      rw [List.cons_append, List.intercalate_cons_cons, hrest, List.intercalate_cons_cons]
      simp

/-- The last pair, and the mark before it. -/
theorem queryText_concat (init : List Text) (p : Text) :
    ∃ y sep, (sep = '?' ∨ sep = '&') ∧ queryText (init ++ [p]) = y ++ sep :: p := by
  unfold queryText
  rw [if_neg (by simp)]
  cases init with
  | nil => exact ⟨[], '?', Or.inl rfl, by simp⟩
  | cons q init =>
    refine ⟨'?' :: ['&'].intercalate (q :: init), '&', Or.inr rfl, ?_⟩
    rw [intercalate_concat (by simp)]
    rfl

theorem guarded_lastPart {base : Text} {rows : List Row}
    (h : guarded (base ++ queryText (rows.map pairText)) = true) : guarded (lastPart base rows) = true := by
  obtain rfl | ⟨init, r, rfl⟩ := List.eq_nil_or_concat' rows
  · simpa [queryText, lastPart] using h
  · rw [List.map_append, List.map_singleton] at h
    obtain ⟨y, sep, hsep, htext⟩ := queryText_concat (init.map pairText) (pairText r)
    rw [htext] at h
    have hmark : sep ∉ vaultTag ∧ isIdChar sep = false := by
      obtain rfl | rfl := hsep <;> decide
    have hlast : lastPart base (init ++ [r]) = if r.value = [] then r.key else r.value := by
      simp [lastPart]
    rw [hlast]
    unfold pairText at h
    split_ifs at h ⊢
    · rw [← List.append_assoc] at h
      exact guarded_of_encodePart hmark.1 hmark.2 h
    · have hassoc : base ++ (y ++ sep :: (encodePart r.key true ++ '=' :: encodePart r.value false)) =
          (base ++ y ++ sep :: encodePart r.key true) ++ '=' :: encodePart r.value false := by simp
      rw [hassoc] at h
      exact guarded_of_encodePart (by decide) (by decide) h

theorem hashGuarded_intercalate {pairs : List Text} (h : ∀ p ∈ pairs, HashGuarded p) :
    HashGuarded (['&'].intercalate pairs) := by
  induction pairs with
  | nil => exact hashGuarded_of_not_mem (by simp)
  | cons p pairs ih =>
    obtain ⟨hp, hpairs⟩ := List.forall_mem_cons.mp h
    cases pairs with
    | nil =>
      rw [List.intercalate_singleton]
      exact hp
    | cons q pairs =>
      rw [List.intercalate_cons_cons]
      exact (hp.append (hashGuarded_of_not_mem (by decide))).append (ih hpairs)

theorem hashGuarded_queryText {pairs : List Text} (h : ∀ p ∈ pairs, HashGuarded p) :
    HashGuarded (queryText pairs) := by
  unfold queryText
  split_ifs
  · exact hashGuarded_of_not_mem (by simp)
  · exact (hashGuarded_of_not_mem (s := ['?']) (by decide)).append (hashGuarded_intercalate h)

/-! ## There and back -/

theorem splitHash_withParams (h : CleanUrl u) {rows : List Row} (hrows : CleanRows u rows) :
    splitHash (withParams u rows) =
      (baseOf u ++ queryText ((live rows).map pairText), fragmentOf u) := by
  rw [withParams_clean h]
  refine splitHash_append ?_ ?_
  · refine (hashGuarded_textOf h fun p hp => mem_head (Or.inl hp)).append (hashGuarded_queryText ?_)
    intro p hp
    obtain ⟨r, hr, rfl⟩ := List.mem_map.mp hp
    exact hashGuarded_pairText (hrows.parts r hr).1 (hrows.parts r hr).2
  · obtain hnil | hguard := hrows.fragment
    · exact Or.inl hnil
    · refine (fragment_head u).imp_right fun hhead => ⟨hhead, ?_⟩
      by_contra hnot
      rw [guarded_lastPart (Bool.not_eq_false _ ▸ hnot)] at hguard
      cases hguard

theorem mark_not_mem (h : CleanUrl u) : '?' ∉ baseOf u := by
  intro hmem
  obtain hmem | ⟨r, hr, hmem⟩ := mem_textOf hmem
  · have hne := List.mem_takeWhile_imp hmem
    simp at hne
  · exact h.marks r hr hmem

/-- Written into a clean URL, clean rows are read again behind the same base. -/
theorem splitUrl_withParams (h : CleanUrl u) {rows : List Row} (hrows : CleanRows u rows) :
    splitUrl (withParams u rows) = (baseOf u, live rows) := by
  unfold splitUrl
  rw [splitHash_withParams h hrows]
  dsimp only
  by_cases hnil : (live rows).map pairText = []
  · have hlive : live rows = [] := List.map_eq_nil_iff.mp hnil
    rw [queryText, if_pos hnil, List.append_nil, splitFirst_none (mark_not_mem h), hlive]
  · have hamp : ∀ p ∈ (live rows).map pairText, '&' ∉ p := by
      intro p hp
      obtain ⟨r, hr, rfl⟩ := List.mem_map.mp hp
      exact ampersand_not_mem (hrows.parts r hr).1 (hrows.parts r hr).2
    have hkeep : ((live rows).map pairText).filter (· ≠ []) = (live rows).map pairText := by
      rw [List.filter_eq_self]
      intro p hp
      obtain ⟨r, hr, rfl⟩ := List.mem_map.mp hp
      exact decide_eq_true (pairText_ne_nil (mem_live hr).2)
    rw [queryText, if_neg hnil, splitFirst_append (mark_not_mem h)]
    dsimp only
    rw [List.splitOn_intercalate '&' hamp hnil, hkeep, List.map_map]
    refine Prod.ext rfl ((List.map_congr_left fun r hr => ?_).trans (List.map_id _))
    exact readPair_pairText (hrows.parts r hr).1 (hrows.parts r hr).2 (mem_live hr).1

/-- A clean URL and clean rows go there and back. -/
theorem withParams_roundTrips {rows : List Row} (h : CleanUrl u) (hrows : CleanRows u rows)
    (hown : CleanRows u (namedPairs u)) : RoundTrips u rows := by
  have hread := splitUrl_withParams h hrows
  refine ⟨by rw [hread], ⟨_, ?_, withParams_clean h rows⟩, by rw [hread],
    by rw [splitHash_withParams h hrows], ?_⟩
  · unfold queryText
    split_ifs
    · exact Or.inl rfl
    · exact Or.inr rfl
  · have hall : live (namedPairs u) = namedPairs u := by
      rw [live, List.filter_eq_self]
      intro r hr
      obtain ⟨pair, -, rfl⟩ := List.mem_map.mp hr
      exact Bool.and_eq_true_iff.mpr ⟨rfl, decide_eq_true (h.keys _ hr)⟩
    rw [splitUrl_clean h, splitUrl_withParams h hown, hall]

/-! ## References that hold a name -/

def isPlainPiece : Piece → Bool
  | .reference r => !r.any fun c => c ∈ ['+', '%', '&', '=', '#', '?']
  | .char _ => true

theorem not_mem_plain {r : Text} (h : isPlainPiece (.reference r) = true) {c : Char}
    (hc : c ∈ ['+', '%', '&', '=', '#', '?']) : c ∉ r := by
  intro hmem
  simp only [isPlainPiece, Bool.not_eq_true', List.any_eq_false, decide_eq_true_eq] at h
  exact h c hmem hc

theorem cleanPart_of_plain {t : Text} (h : (pieces t).all isPlainPiece = true) (isKey : Bool) :
    CleanPart isKey t := by
  intro r hr
  have hplain := List.all_eq_true.mp h _ hr
  exact ⟨not_mem_plain hplain (by decide), not_mem_plain hplain (by decide),
    not_mem_plain hplain (by decide), fun _ => not_mem_plain hplain (by decide),
    hashGuarded_of_not_mem (not_mem_plain hplain (by decide))⟩

theorem cleanUrl_of_plain (h : (headPieces u).all isPlainPiece = true)
    (hfragment : fragmentOf u = [] ∨ guarded (textOf (headPieces u)) = false)
    (hkeys : ∀ r ∈ namedPairs u, r.key ≠ []) : CleanUrl u := by
  have hplain : ∀ r, Piece.reference r ∈ headPieces u → isPlainPiece (.reference r) = true :=
    fun r hr => List.all_eq_true.mp h _ hr
  refine ⟨fun r hr => ?_, fun r hr => ?_, fun r hr => ?_, fun pair hpair r hr => ?_, hfragment, hkeys⟩
  · exact hashGuarded_of_not_mem (not_mem_plain (hplain r hr) (by decide))
  · exact not_mem_plain (hplain r (mem_head (Or.inl hr))) (by decide)
  · exact not_mem_plain (hplain r (mem_head (Or.inr hr))) (by decide)
  · have hquery := mem_of_mem_splitOn (List.mem_of_mem_filter hpair)
      ((List.takeWhile_sublist _).subset hr)
    exact not_mem_plain (hplain r (mem_head (Or.inr hquery))) (by decide)

theorem withParams_roundTrips_names :
    RoundTrips "https://h/{{v}}?t={{t}}#top".toList [⟨true, "q".toList, "{{q}} & c+o".toList⟩] :=
  withParams_roundTrips
    (cleanUrl_of_plain (by decide +kernel) (by decide +kernel) (by decide +kernel))
    ⟨fun r hr => by
      have hlive : live [⟨true, "q".toList, "{{q}} & c+o".toList⟩] =
          [⟨true, "q".toList, "{{q}} & c+o".toList⟩] := by decide +kernel
      rw [hlive] at hr
      obtain rfl := List.mem_singleton.mp hr
      exact ⟨cleanPart_of_plain (by decide +kernel) true, cleanPart_of_plain (by decide +kernel) false⟩,
      by decide +kernel⟩
    ⟨fun r hr => by
      have hlive : live (namedPairs "https://h/{{v}}?t={{t}}#top".toList) =
          [⟨true, "t".toList, "{{t}}".toList⟩] := by decide +kernel
      rw [hlive] at hr
      obtain rfl := List.mem_singleton.mp hr
      exact ⟨cleanPart_of_plain (by decide +kernel) true, cleanPart_of_plain (by decide +kernel) false⟩,
      by decide +kernel⟩

/-- Behind a value that ends like a vault reference the fragment is read as part of it. -/
theorem withParams_swallows :
    ¬ RoundTrips "https://h/#top".toList [⟨true, "q".toList, "vault:x".toList⟩] := by
  intro h
  have hread := h.read
  have hlong : splitUrl (withParams "https://h/#top".toList [⟨true, "q".toList, "vault:x".toList⟩]) =
      ("https://h/".toList, [⟨true, "q".toList, "vault:x#top".toList⟩]) := by decide +kernel
  rw [hlong] at hread
  exact absurd hread (by decide +kernel)

end OpsMaxx.ApiUrl
