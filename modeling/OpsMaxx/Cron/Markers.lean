import OpsMaxx.Cron.Collect

/-! # Sections, found again

The sections of a stream are found again exactly when no body holds the mark. The mark has no
border, so an occurrence of it cannot start in a body and end in the marker behind it.
-/

set_option autoImplicit false

namespace OpsMaxx.Cron
open OpsMaxx.Strings

/-! ## The mark in a text -/

/-- The mark stands nowhere in a text. -/
def Unmarked (t : Text) : Prop := ¬ mark <:+: t

instance (t : Text) : Decidable (Unmarked t) := inferInstanceAs (Decidable (¬ mark <:+: t))

/-- Where a body can end: at a marker, or at the end of the stream. -/
def Stops (rest : Text) : Prop := rest = [] ∨ mark <+: rest

/-- A pattern without the separator lies on one side of it. -/
theorem infix_of_separated {m u v : Text} {c : Char} (hc : c ∉ m) (h : m <:+: u ++ c :: v) :
    m <:+: u ∨ m <:+: v := by
  obtain ⟨a, b, hab⟩ := h
  rcases List.append_eq_append_iff.mp hab with ⟨z, hu, _⟩ | ⟨z, ham, hcv⟩
  · exact .inl ⟨a, z, hu.symm⟩
  · cases z with
    | nil =>
      rw [List.append_nil] at ham
      exact .inl ⟨a, [], by simpa using ham⟩
    | cons d z =>
      rw [List.cons_append, List.cons.injEq] at hcv
      obtain ⟨rfl, rfl⟩ := hcv
      rcases List.append_eq_append_iff.mp ham with ⟨w, hu, hm⟩ | ⟨w, ha, hz⟩
      · exact absurd (by rw [hm]; simp) hc
      · cases w with
        | nil =>
          rw [List.nil_append] at hz
          exact absurd (by rw [← hz]; simp) hc
        | cons e w =>
          rw [List.cons_append, List.cons.injEq] at hz
          obtain ⟨rfl, rfl⟩ := hz
          exact .inr ⟨w, b, rfl⟩

theorem unmarked_lines {u v : Text} (hu : Unmarked u) (hv : Unmarked v) :
    Unmarked (u ++ '\n' :: v) := by
  intro h
  rcases infix_of_separated (by decide +kernel) h with h | h
  · exact hu h
  · exact hv h

theorem unmarked_tail {c : Char} {t : Text} (h : Unmarked (c :: t)) : Unmarked t :=
  fun hin => h (hin.trans (List.suffix_cons c t).isInfix)

theorem mark_has_no_border : ∀ k < 11, 0 < k → ¬ mark.drop k <+: mark := by decide +kernel

/-- No occurrence of the mark starts inside an unmarked body. -/
theorem not_mark_prefix {t rest : Text} (hne : t ≠ []) (ht : Unmarked t) (hrest : Stops rest) :
    ¬ mark <+: t ++ rest := by
  intro h
  have hlen : mark.length = 11 := by decide
  by_cases hle : mark.length ≤ t.length
  · exact ht (List.prefix_of_prefix_length_le h (List.prefix_append t rest) hle).isInfix
  · have htm : t <+: mark :=
      List.prefix_of_prefix_length_le (List.prefix_append t rest) h (by omega)
    obtain ⟨u, hu⟩ := htm
    have hdrop : mark.drop t.length = u := by
      rw [← hu]
      exact List.drop_left
    have hur : u <+: rest := by
      rw [← hu] at h
      exact (List.prefix_append_right_inj t).mp h
    have hpos : 0 < t.length := List.length_pos_iff.mpr hne
    have hulen : u.length + t.length = 11 := by
      rw [← hlen, ← hu, List.length_append]
      omega
    rcases hrest with rfl | hmark
    · have : u = [] := List.prefix_nil.mp hur
      rw [this] at hulen
      simp only [List.length_nil] at hulen
      omega
    · apply mark_has_no_border t.length (by omega) hpos
      rw [hdrop]
      exact List.prefix_of_prefix_length_le hur hmark (by omega)

/-! ## Bodies -/

theorem upToMark_stop {rest : Text} (h : Stops rest) : upToMark rest = [] := by
  rcases h with rfl | h
  · rfl
  · cases rest with
    | nil => rfl
    | cons c cs =>
      unfold upToMark
      rw [if_pos]
      exact List.isPrefixOf_iff_prefix.mpr h

/-- An unmarked body is read up to where it ends. -/
theorem upToMark_unmarked {t rest : Text} (ht : Unmarked t) (hrest : Stops rest) :
    upToMark (t ++ rest) = t := by
  induction t with
  | nil => exact upToMark_stop hrest
  | cons c cs ih =>
    have hno := not_mark_prefix (List.cons_ne_nil c cs) ht hrest
    rw [List.cons_append] at hno ⊢
    unfold upToMark
    rw [if_neg, ih (unmarked_tail ht)]
    rwa [List.isPrefixOf_iff_prefix]

theorem upToMark_length (a x : Text) : (upToMark (a ++ mark ++ x)).length ≤ a.length := by
  induction a with
  | nil =>
    have : upToMark (mark ++ x) = [] := upToMark_stop (.inr (List.prefix_append mark x))
    simp [this]
  | cons c cs ih =>
    simp only [List.cons_append]
    unfold upToMark
    split_ifs
    · exact Nat.zero_le _
    · simpa using ih

/-- A body that is read whole has no mark in it. -/
theorem unmarked_of_upToMark {t rest : Text} (h : upToMark (t ++ rest) = t) : Unmarked t := by
  rintro ⟨a, b, rfl⟩
  have hlen := upToMark_length a (b ++ rest)
  rw [← List.append_assoc (a ++ mark), h] at hlen
  have hmark : mark.length = 11 := by decide
  simp only [List.length_append] at hlen
  omega

/-! ## Markers -/

theorem mark_prefix_marker (s : Section) : mark <+: s.marker := by
  unfold Section.marker
  rw [List.append_assoc]
  exact List.prefix_append _ _

/-- What a marker holds after its first character is not marked. -/
theorem marker_eq (s : Section) : ∃ tail, s.marker = '=' :: tail ∧ Unmarked tail := by
  refine ⟨s.marker.tail, ?_, ?_⟩
  · cases s <;> rfl
  · cases s <;> decide +kernel

theorem marker_not_prefix {s s' : Section} (h : s ≠ s') (x : Text) :
    ¬ s.marker <+: s'.marker ++ x := by
  intro hp
  have hboth := List.prefix_or_prefix_of_prefix hp (List.prefix_append s'.marker x)
  revert hboth
  cases s <;> cases s' <;> first | exact absurd rfl h | decide +kernel

theorem afterMarkerHere_none {m t : Text} (h : ¬ m <+: t) : afterMarkerHere m t = none := by
  unfold afterMarkerHere
  rw [if_neg]
  rwa [List.isPrefixOf_iff_prefix]

theorem afterMarkerHere_self (s : Section) (x : Text) :
    afterMarkerHere s.marker (s.marker ++ '\n' :: x) = some x := by
  unfold afterMarkerHere
  rw [if_pos (List.isPrefixOf_iff_prefix.mpr (List.prefix_append _ _)), List.drop_left]
  rfl

theorem afterMarker_cons {m : Text} {c : Char} {cs : Text} (h : ¬ m <+: c :: cs) :
    afterMarker m (c :: cs) = afterMarker m cs := by
  conv => lhs; unfold afterMarker
  rw [afterMarkerHere_none h, Option.none_or]

/-- A search passes over an unmarked body. -/
theorem afterMarker_unmarked (s : Section) {t rest : Text} (ht : Unmarked t)
    (hrest : mark <+: rest) : afterMarker s.marker (t ++ rest) = afterMarker s.marker rest := by
  induction t with
  | nil => rfl
  | cons c cs ih =>
    have hno := not_mark_prefix (List.cons_ne_nil c cs) ht (.inr hrest)
    rw [List.cons_append] at hno ⊢
    rw [afterMarker_cons fun hp => hno ((mark_prefix_marker s).trans hp)]
    exact ih (unmarked_tail ht)

variable (body : Section → Text)

theorem afterMarker_self (s : Section) (rest : Text) :
    afterMarker s.marker (printSection body s ++ rest) = some (body s ++ rest) := by
  obtain ⟨tail, htail, _⟩ := marker_eq s
  have hhere := afterMarkerHere_self s (body s ++ rest)
  unfold printSection printLine
  rw [List.append_assoc, List.append_assoc, List.singleton_append]
  rw [htail, List.cons_append] at hhere ⊢
  unfold afterMarker
  rw [hhere, Option.some_or]

/-- A search passes over a section of another name. -/
theorem afterMarker_other {s s' : Section} (h : s ≠ s') {rest : Text} (hbody : Unmarked (body s'))
    (hrest : mark <+: rest) :
    afterMarker s.marker (printSection body s' ++ rest) = afterMarker s.marker rest := by
  obtain ⟨tail, htail, hunmarked⟩ := marker_eq s'
  have hno := marker_not_prefix h ('\n' :: (body s' ++ rest))
  have hpass := afterMarker_unmarked s (unmarked_lines hunmarked hbody) hrest
  unfold printSection printLine
  rw [List.append_assoc, List.append_assoc, List.singleton_append]
  rw [htail, List.cons_append] at hno ⊢
  rw [afterMarker_cons hno]
  simpa using hpass

theorem mark_prefix_printSection (s : Section) (rest : Text) :
    mark <+: printSection body s ++ rest := by
  unfold printSection printLine
  rw [List.append_assoc, List.append_assoc]
  exact (mark_prefix_marker s).trans (List.prefix_append _ _)

theorem stops_printSections (ss : List Section) : Stops (printSections body ss) := by
  cases ss with
  | nil => exact .inl rfl
  | cons s ss => exact .inr (mark_prefix_printSection body s _)

theorem mark_prefix_printSections {ss : List Section} {s : Section} (h : s ∈ ss) :
    mark <+: printSections body ss := by
  cases ss with
  | nil => cases h
  | cons s' ss => exact mark_prefix_printSection body s' _

theorem sectionOf_self (s : Section) (ss : List Section) :
    sectionOf s (printSections body (s :: ss)) = upToMark (body s ++ printSections body ss) := by
  unfold sectionOf
  show (Option.map upToMark (afterMarker s.marker
    (printSection body s ++ printSections body ss))).getD [] = _
  rw [afterMarker_self]
  rfl

theorem sectionOf_other {s s' : Section} {ss : List Section} (h : s ≠ s') (hs : s ∈ ss)
    (hbody : Unmarked (body s')) :
    sectionOf s (printSections body (s' :: ss)) = sectionOf s (printSections body ss) := by
  unfold sectionOf
  show (Option.map upToMark (afterMarker s.marker
    (printSection body s' ++ printSections body ss))).getD [] = _
  rw [afterMarker_other body h hbody (mark_prefix_printSections body hs)]

/-- Every section is found again as it was printed, if and only if no body holds the mark. -/
theorem sections_found_iff {ss : List Section} (hnodup : ss.Nodup) :
    (∀ s ∈ ss, sectionOf s (printSections body ss) = body s) ↔ ∀ s ∈ ss, Unmarked (body s) := by
  induction ss with
  | nil => simp
  | cons s ss ih =>
    obtain ⟨hs, hnodup⟩ := List.nodup_cons.mp hnodup
    have hhead : sectionOf s (printSections body (s :: ss)) = body s ↔ Unmarked (body s) := by
      rw [sectionOf_self]
      exact ⟨unmarked_of_upToMark, fun h => upToMark_unmarked h (stops_printSections body ss)⟩
    have htail (hbody : Unmarked (body s)) :
        (∀ s' ∈ ss, sectionOf s' (printSections body (s :: ss)) = body s') ↔
          ∀ s' ∈ ss, Unmarked (body s') := by
      rw [← ih hnodup]
      constructor
      · intro h s' hs'
        have hne : s' ≠ s := fun heq => hs (heq ▸ hs')
        rw [← sectionOf_other body hne hs' hbody]
        exact h s' hs'
      · intro h s' hs'
        have hne : s' ≠ s := fun heq => hs (heq ▸ hs')
        rw [sectionOf_other body hne hs' hbody]
        exact h s' hs'
    rw [List.forall_mem_cons, List.forall_mem_cons, hhead]
    constructor
    · rintro ⟨hbody, h⟩
      exact ⟨hbody, (htail hbody).mp h⟩
    · rintro ⟨hbody, h⟩
      exact ⟨hbody, (htail hbody).mpr h⟩

end OpsMaxx.Cron
