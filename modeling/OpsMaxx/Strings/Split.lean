import OpsMaxx.Strings.Words
import Mathlib.Tactic.Common

/-! # Lines, and a text that was cut off

Lines each with its end are one text. A text that stops part of the way through splits into the
lines that came whole and the beginning of the one after them.
-/

set_option autoImplicit false

namespace OpsMaxx.Strings

def unlines (lines : List Text) : Text := lines.flatMap fun l => l ++ ['\n']

@[simp] theorem unlines_nil : unlines [] = [] := rfl

@[simp] theorem unlines_cons (l : Text) (ls : List Text) :
    unlines (l :: ls) = l ++ '\n' :: unlines ls := by
  simp [unlines]

/-- The lines that came whole, and the beginning of the one that did not. -/
inductive Cut : List Text → List Text → Prop where
  | behind : Cut [] [[]]
  | within {l frag : Text} (ls : List Text) (h : frag <+: l) : Cut (l :: ls) [frag]
  | later (l : Text) {ls out : List Text} (h : Cut ls out) : Cut (l :: ls) (l :: out)

variable {lines : List Text}

theorem splitOn_newline_cons (t : Text) : ('\n' :: t).splitOn '\n' = [] :: t.splitOn '\n' := by
  have hnil : '\n' ∉ ([] : Text) := by simp
  exact List.splitOn_append_cons_self_of_not_mem hnil t

theorem splitOn_unlines (h : ∀ l ∈ lines, '\n' ∉ l) :
    (unlines lines).splitOn '\n' = lines ++ [[]] := by
  induction lines with
  | nil => rfl
  | cons l ls ih =>
    rw [unlines_cons, List.splitOn_append_cons_self_of_not_mem (h l List.mem_cons_self),
      ih fun m hm => h m (List.mem_cons_of_mem _ hm)]
    rfl

/-- Wherever the text stops, its lines are a cut of the lines it was made of. -/
theorem cut_take (h : ∀ l ∈ lines, '\n' ∉ l) (n : Nat) :
    Cut lines (((unlines lines).take n).splitOn '\n') := by
  induction lines generalizing n with
  | nil =>
    rw [unlines_nil, List.take_nil]
    exact Cut.behind
  | cons l ls ih =>
    have hl : '\n' ∉ l := h l List.mem_cons_self
    by_cases hn : n ≤ l.length
    · have hfrag : '\n' ∉ l.take n := fun hmem => hl (List.mem_of_mem_take hmem)
      rw [unlines_cons, List.take_append_of_le_length hn, List.splitOn_eq_singleton hfrag]
      exact Cut.within ls (List.take_prefix n l)
    · obtain ⟨m, rfl⟩ : ∃ m, n = l.length + (m + 1) := ⟨n - l.length - 1, by omega⟩
      rw [unlines_cons, List.take_length_add_append, List.take_succ_cons,
        List.splitOn_append_cons_self_of_not_mem hl]
      exact Cut.later l (ih (fun m hm => h m (List.mem_cons_of_mem _ hm)) m)

/-- A cut falls in the first lines or behind them. -/
theorem cut_append {ls ms out : List Text} (h : Cut (ls ++ ms) out) :
    Cut ls out ∨ ∃ out', out = ls ++ out' ∧ Cut ms out' := by
  induction ls generalizing out with
  | nil => exact Or.inr ⟨out, rfl, h⟩
  | cons l ls ih =>
    cases h with
    | within _ hfrag => exact Or.inl (Cut.within ls hfrag)
    | later _ h =>
      obtain hcut | ⟨out', hout, hcut⟩ := ih h
      · exact Or.inl (Cut.later l hcut)
      · refine Or.inr ⟨out', ?_, hcut⟩
        rw [hout]
        rfl

/-- A cut of the lines of several things falls in the lines of one of them, or behind all. -/
theorem cut_flatMap {α : Type} {f : α → List Text} {xs : List α} {ms out : List Text}
    (h : Cut (xs.flatMap f ++ ms) out) :
    (∃ before x behind out', xs = before ++ x :: behind ∧ out = before.flatMap f ++ out' ∧
      Cut (f x) out') ∨ ∃ out', out = xs.flatMap f ++ out' ∧ Cut ms out' := by
  induction xs generalizing out with
  | nil => exact Or.inr ⟨out, rfl, h⟩
  | cons x xs ih =>
    rw [List.flatMap_cons, List.append_assoc] at h
    obtain hcut | ⟨rest, hout, hcut⟩ := cut_append h
    · exact Or.inl ⟨[], x, xs, out, rfl, rfl, hcut⟩
    · obtain ⟨before, y, behind, out', hxs, hrest, hy⟩ | ⟨out', hrest, hms⟩ := ih hcut
      · left
        refine ⟨x :: before, y, behind, out', ?_, ?_, hy⟩
        · rw [hxs]
          rfl
        · rw [hout, hrest, List.flatMap_cons, List.append_assoc]
      · right
        refine ⟨out', ?_, hms⟩
        rw [hout, hrest, List.flatMap_cons, List.append_assoc]

/-- The beginning of a text with a separator in it ends before the separator or behind it. -/
theorem prefix_append_cons {p a b : Text} {c : Char} (hc : c ∉ a) (h : p <+: a ++ c :: b) :
    (c ∉ p ∧ p <+: a) ∨ ∃ q, p = a ++ c :: q ∧ q <+: b := by
  obtain ⟨rest, hrest⟩ := h
  obtain ⟨mid, ha, hmid⟩ | ⟨mid, hp, hmid⟩ := List.append_eq_append_iff.mp hrest
  · left
    refine ⟨?_, mid, ha.symm⟩
    intro hmem
    apply hc
    rw [ha]
    exact List.mem_append_left _ hmem
  · cases mid with
    | nil =>
      left
      rw [List.append_nil] at hp
      rw [hp]
      exact ⟨hc, List.prefix_rfl⟩
    | cons x xs =>
      right
      rw [List.cons_append, List.cons.injEq] at hmid
      refine ⟨xs, ?_, rest, hmid.2.symm⟩
      rw [hp, hmid.1]

end OpsMaxx.Strings

/-!
## Parts between separators

Dividing a text where a separator stands, and trimming the parts.
-/

namespace OpsMaxx.Strings

variable {sep : Char}

theorem splitOn_append_of_not_mem {s : Text} (h : sep ∉ s) (t : Text) :
    (s ++ t).splitOn sep = (t.splitOn sep).modifyHead (s ++ ·) := by
  induction s with
  | nil =>
    rw [List.nil_append]
    cases t.splitOn sep <;> rfl
  | cons c s ih =>
    rw [List.mem_cons, not_or] at h
    rw [List.cons_append, List.splitOn_cons_eq_if_modifyHead, if_neg (by simpa using Ne.symm h.1),
      ih h.2]
    cases t.splitOn sep <;> rfl

theorem splitOn_append_cons (a b : Text) :
    (a ++ sep :: b).splitOn sep = a.splitOn sep ++ b.splitOn sep := by
  induction a with
  | nil =>
    have hnil : sep ∉ ([] : Text) := by simp
    exact List.splitOn_append_cons_self_of_not_mem hnil b
  | cons c a ih =>
    rw [List.cons_append, List.splitOn_cons_eq_if_modifyHead, List.splitOn_cons_eq_if_modifyHead, ih]
    split_ifs with hc
    · rfl
    · cases ha : a.splitOn sep with
      | nil => exact absurd ha (List.splitOn_ne_nil sep a)
      | cons p ps => rfl

/-- A text is its first part, or the first part stands in front of a separator. -/
theorem splitOn_cases (sep : Char) (s : Text) :
    (sep ∉ s ∧ s.splitOn sep = [s]) ∨
      ∃ b, sep ∉ s.takeWhile (· ≠ sep) ∧ s = s.takeWhile (· ≠ sep) ++ sep :: b ∧
        s.splitOn sep = s.takeWhile (· ≠ sep) :: b.splitOn sep := by
  have hnot : sep ∉ s.takeWhile (· ≠ sep) := by
    intro hmem
    simpa using List.mem_takeWhile_imp hmem
  by_cases hmem : sep ∈ s
  · right
    have hs := List.takeWhile_append_dropWhile (p := (· ≠ sep)) (l := s)
    cases hrest : s.dropWhile (· ≠ sep) with
    | nil =>
      rw [hrest, List.append_nil] at hs
      rw [hs] at hnot
      exact absurd hmem hnot
    | cons d b =>
      have hd : d = sep := by
        have := List.head?_dropWhile_not (· ≠ sep) s
        rw [hrest] at this
        simpa using this
      subst hd
      rw [hrest] at hs
      refine ⟨b, hnot, hs.symm, ?_⟩
      conv => lhs; rw [← hs]
      exact List.splitOn_append_cons_self_of_not_mem hnot b
  · exact .inl ⟨hmem, List.splitOn_eq_singleton hmem⟩

theorem takeWhile_mem_splitOn (s : Text) : s.takeWhile (· ≠ sep) ∈ s.splitOn sep := by
  obtain ⟨hmem, hs⟩ | ⟨b, -, -, hs⟩ := splitOn_cases sep s
  · rw [hs, List.mem_singleton, List.takeWhile_eq_self_iff]
    intro c hc
    exact decide_eq_true fun heq => hmem (heq ▸ hc)
  · rw [hs]
    exact List.mem_cons_self

/-! ## Trimmed parts -/

theorem trim_spaces_append {sp : Text} (hsp : ∀ c ∈ sp, isSpace c = true) (t : Text) :
    trim (sp ++ t) = trim t := by
  unfold trim
  rw [trimStart_spaces hsp]

theorem trim_append_spaces {sp : Text} (hsp : ∀ c ∈ sp, isSpace c = true) (t : Text) :
    trim (t ++ sp) = trim t := by
  have ht := leading_trimStart t
  have hlead : ∀ c ∈ leading t, isSpace c = true := fun c hc => List.mem_takeWhile_imp hc
  rw [← ht, List.append_assoc, trim_spaces_append hlead, trim_spaces_append hlead]
  cases hstart : trimStart t with
  | nil =>
    rw [List.nil_append, ← List.append_nil sp, trim_spaces_append hsp]
  | cons c y =>
    have hc : isInk c = true := by
      have := List.head?_dropWhile_not isSpace t
      rw [show t.dropWhile isSpace = c :: y from hstart] at this
      simpa [isInk] using this
    unfold trim
    rw [List.cons_append, trimStart_ink hc, trimStart_ink hc, ← List.cons_append, trimEnd_spaces hsp]

theorem trimEnd_append_cons {c : Char} (hc : isInk c = true) (a t : Text) :
    trimEnd (a ++ c :: t) = a ++ trimEnd (c :: t) := by
  have hspace : isSpace c = false := by simpa [isInk] using hc
  have hne : ((c :: t).reverse.dropWhile isSpace).isEmpty = false := by
    rw [List.isEmpty_eq_false_iff, Ne, List.dropWhile_eq_nil_iff]
    intro hall
    have := hall c (by simp)
    rw [hspace] at this
    cases this
  unfold trimEnd List.rdropWhile
  rw [List.reverse_append, List.dropWhile_append, hne]
  simp

/-- Trimming a text changes none of its parts but in the white space at their ends. -/
theorem map_trim_splitOn_spaces (hsep : isInk sep = true) {sp : Text}
    (hsp : ∀ c ∈ sp, isSpace c = true) (t : Text) :
    ((sp ++ t).splitOn sep).map trim = (t.splitOn sep).map trim := by
  have hnot : sep ∉ sp := by
    intro hmem
    rw [isInk, hsp sep hmem] at hsep
    cases hsep
  rw [splitOn_append_of_not_mem hnot]
  cases t.splitOn sep with
  | nil => rfl
  | cons p ps => rw [List.modifyHead_cons, List.map_cons, trim_spaces_append hsp, List.map_cons]

theorem map_trim_splitOn_append (hsep : isInk sep = true) {sp : Text}
    (hsp : ∀ c ∈ sp, isSpace c = true) (t : Text) :
    ((t ++ sp).splitOn sep).map trim = (t.splitOn sep).map trim := by
  have hnot : sep ∉ sp := by
    intro hmem
    rw [isInk, hsp sep hmem] at hsep
    cases hsep
  induction hn : t.length using Nat.strong_induction_on generalizing t with
  | _ n ih =>
    subst hn
    obtain ⟨hmem, ht⟩ | ⟨b, hpart, hb, ht⟩ := splitOn_cases sep t
    · have hwhole : sep ∉ t ++ sp := by
        rw [List.mem_append, not_or]
        exact ⟨hmem, hnot⟩
      rw [ht, List.splitOn_eq_singleton hwhole, List.map_singleton, List.map_singleton,
        trim_append_spaces hsp]
    · have hlen : b.length < t.length := by
        conv => rhs; rw [hb]
        rw [List.length_append, List.length_cons]
        omega
      have hwhole : t ++ sp = t.takeWhile (· ≠ sep) ++ sep :: (b ++ sp) := by
        conv => lhs; rw [hb]
        rw [List.append_assoc, List.cons_append]
      rw [ht, hwhole, List.splitOn_append_cons_self_of_not_mem hpart, List.map_cons, List.map_cons,
        ih _ hlen _ rfl]

theorem map_trim_splitOn_trim (hsep : isInk sep = true) (s : Text) :
    ((trim s).splitOn sep).map trim = (s.splitOn sep).map trim := by
  have hlead : ∀ c ∈ leading s, isSpace c = true := fun c hc => List.mem_takeWhile_imp hc
  have htrail : ∀ c ∈ trailing (trimStart s), isSpace c = true := fun c hc =>
    List.mem_rtakeWhile_imp hc
  calc
    ((trim s).splitOn sep).map trim
        = ((trimEnd (trimStart s) ++ trailing (trimStart s)).splitOn sep).map trim :=
          (map_trim_splitOn_append hsep htrail _).symm
    _ = ((trimStart s).splitOn sep).map trim := by rw [trimEnd_trailing]
    _ = ((leading s ++ trimStart s).splitOn sep).map trim :=
          (map_trim_splitOn_spaces hsep hlead _).symm
    _ = (s.splitOn sep).map trim := by rw [leading_trimStart]

end OpsMaxx.Strings
