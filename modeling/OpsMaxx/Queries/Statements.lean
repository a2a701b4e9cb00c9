import OpsMaxx.Queries.Passes
import OpsMaxx.Strings.Split

/-!
# The statements of what the passes leave

Collapsing white space and trimming take place between the passes and the division at the semicolons;
what a statement reads can be told from its part of what the passes left.
-/

set_option autoImplicit false

namespace OpsMaxx.Queries

open Strings
open Strings.Regex
open Risk (sp litAnyCase)

/-! ## Collapsed white space -/

theorem collapse_ink {c : Char} (hc : isInk c = true) (s : Text) :
    collapse (c :: s) = c :: collapse s := by
  have hspace : isSpace c = false := by simpa [isInk] using hc
  exact sub_none (by simp [spaces, hspace])

theorem collapse_space {c : Char} (hc : isSpace c = true) (s : Text) :
    collapse (c :: s) = ' ' :: collapse (s.dropWhile isSpace) := by
  have hmatch : spaces (c :: s) = some (1 + (s.takeWhile isSpace).length) := by simp [spaces, hc]
  rw [collapse, Strings.sub, subFrom, hmatch]
  simp only [Nat.add_sub_cancel_left, subFrom_skip, drop_takeWhile]
  rfl

theorem collapse_word {w : Text} (hw : ∀ c ∈ w, isInk c = true) (s : Text) :
    collapse (w ++ s) = w ++ collapse s := by
  induction w with
  | nil => rfl
  | cons c w ih =>
    rw [List.cons_append, collapse_ink (hw c List.mem_cons_self),
      ih fun d hd => hw d (List.mem_cons_of_mem c hd), List.cons_append]

/-- White space in front of a character that is none. -/
theorem collapse_spaces {gap : Text} (hne : gap ≠ []) (hgap : ∀ c ∈ gap, isSpace c = true) {c : Char}
    (hc : isInk c = true) (s : Text) :
    collapse (gap ++ c :: s) = ' ' :: collapse (c :: s) := by
  have hspace : isSpace c = false := by simpa [isInk] using hc
  cases gap with
  | nil => exact absurd rfl hne
  | cons d gap =>
    obtain ⟨hd, hgap⟩ := List.forall_mem_cons.mp hgap
    rw [List.cons_append, collapse_space hd, List.dropWhile_append_of_pos hgap,
      List.dropWhile_cons_of_neg (by simp [hspace])]

/-- A text is collapsed on each side of a character that is not white space. -/
theorem collapse_between {c : Char} (hc : isInk c = true) (a b : Text) :
    collapse (a ++ c :: b) = collapse a ++ c :: collapse b := by
  have hspace : isSpace c = false := by simpa [isInk] using hc
  induction hn : a.length using Nat.strong_induction_on generalizing a with
  | _ n ih =>
    subst hn
    cases a with
    | nil => exact collapse_ink hc b
    | cons d a =>
      cases hd : isSpace d with
      | false =>
        have hink : isInk d = true := by simp [isInk, hd]
        rw [List.cons_append, collapse_ink hink, collapse_ink hink, ih _ (Nat.lt_succ_self _) a rfl,
          List.cons_append]
      | true =>
        have hdrop : (a ++ c :: b).dropWhile isSpace = a.dropWhile isSpace ++ c :: b := by
          rw [List.dropWhile_append]
          split_ifs with hall
          · rw [List.isEmpty_iff.mp hall, List.dropWhile_cons_of_neg (by simp [hspace]),
              List.nil_append]
          · rfl
        have hlen : (a.dropWhile isSpace).length < (d :: a).length := by
          have := (List.dropWhile_suffix isSpace (l := a)).length_le
          rw [List.length_cons]
          omega
        rw [List.cons_append, collapse_space hd, collapse_space hd, hdrop, ih _ hlen _ rfl,
          List.cons_append]

/-- What a collapsed text begins with. -/
theorem collapse_eq_cons {x y : Text} {c : Char} (h : collapse x = c :: y) :
    (isInk c = true ∧ ∃ s, x = c :: s ∧ collapse s = y) ∨
      (c = ' ' ∧ ∃ gap s, gap ≠ [] ∧ (∀ d ∈ gap, isSpace d = true) ∧ x = gap ++ s ∧
        collapse s = y) := by
  cases x with
  | nil => cases h
  | cons d x =>
    cases hd : isSpace d with
    | false =>
      have hink : isInk d = true := by simp [isInk, hd]
      rw [collapse_ink hink] at h
      obtain ⟨rfl, hy⟩ := List.cons.inj h
      exact .inl ⟨hink, x, rfl, hy⟩
    | true =>
      rw [collapse_space hd] at h
      obtain ⟨rfl, hy⟩ := List.cons.inj h
      refine .inr ⟨rfl, d :: x.takeWhile isSpace, x.dropWhile isSpace, List.cons_ne_nil _ _, ?_, ?_, hy⟩
      · exact List.forall_mem_cons.mpr ⟨hd, fun e he => List.mem_takeWhile_imp he⟩
      · rw [List.cons_append, List.takeWhile_append_dropWhile]

/-- What a collapsed text ends with is a collapsed text. -/
theorem collapse_eq_append {x u y : Text} (h : collapse x = u ++ y) :
    ∃ before behind, x = before ++ behind ∧ collapse behind = y := by
  induction u generalizing x with
  | nil => exact ⟨[], x, rfl, h⟩
  | cons c u ih =>
    obtain ⟨-, s, rfl, hs⟩ | ⟨-, gap, s, -, -, rfl, hs⟩ := collapse_eq_cons h
    · obtain ⟨before, behind, rfl, hy⟩ := ih hs
      exact ⟨c :: before, behind, rfl, hy⟩
    · obtain ⟨before, behind, rfl, hy⟩ := ih hs
      exact ⟨gap ++ before, behind, by rw [List.append_assoc], hy⟩

theorem collapse_eq_word {x w y : Text} (hw : ∀ c ∈ w, isInk c = true)
    (h : collapse x = w ++ y) : ∃ behind, x = w ++ behind ∧ collapse behind = y := by
  induction w generalizing x with
  | nil => exact ⟨x, rfl, h⟩
  | cons c w ih =>
    obtain ⟨hc, hw⟩ := List.forall_mem_cons.mp hw
    obtain ⟨-, s, rfl, hs⟩ | ⟨rfl, -⟩ := collapse_eq_cons h
    · obtain ⟨behind, rfl, hy⟩ := ih hw hs
      exact ⟨behind, rfl, hy⟩
    · exact absurd hc (by decide)

theorem mem_collapse {s : Text} {c : Char} (hc : isInk c = true) (h : c ∈ collapse s) : c ∈ s := by
  obtain ⟨u, v, huv⟩ := List.append_of_mem h
  obtain ⟨before, behind, rfl, hbehind⟩ := collapse_eq_append huv
  obtain ⟨-, s, rfl, -⟩ | ⟨rfl, -⟩ := collapse_eq_cons hbehind
  · simp
  · exact absurd hc (by decide)

theorem splitOn_collapse (s : Text) :
    (collapse s).splitOn ';' = (s.splitOn ';').map collapse := by
  induction hn : s.length using Nat.strong_induction_on generalizing s with
  | _ n ih =>
    subst hn
    have hsemi : isInk ';' = true := by decide
    obtain ⟨hmem, hs⟩ | ⟨b, hpart, hb, hs⟩ := splitOn_cases ';' s
    · rw [hs, List.splitOn_eq_singleton fun h => hmem (mem_collapse hsemi h), List.map_singleton]
    · have hlen : b.length < s.length := by
        conv => rhs; rw [hb]
        rw [List.length_append, List.length_cons]
        omega
      have hwhole : collapse s = collapse (s.takeWhile (· ≠ ';')) ++ ';' :: collapse b := by
        conv => lhs; rw [hb]
        exact collapse_between hsemi _ _
      rw [hs, hwhole, List.splitOn_append_cons_self_of_not_mem fun h => hpart (mem_collapse hsemi h),
        ih _ hlen b rfl, List.map_cons]

/-- A part of what the passes left is a statement once it is collapsed and trimmed. -/
theorem mem_statements {sql a y : Text} (h : passes sql = a ++ y)
    (ha : a = [] ∨ ∃ before, a = before ++ [';'])
    (hne : trim (collapse (y.takeWhile (· ≠ ';'))) ≠ []) :
    trim (collapse (y.takeWhile (· ≠ ';'))) ∈ statements sql := by
  have hpart : y.takeWhile (· ≠ ';') ∈ (passes sql).splitOn ';' := by
    rw [h]
    obtain rfl | ⟨before, rfl⟩ := ha
    · exact takeWhile_mem_splitOn y
    · rw [List.append_assoc, List.singleton_append, splitOn_append_cons]
      exact List.mem_append_right _ (takeWhile_mem_splitOn y)
  unfold statements strip
  rw [map_trim_splitOn_trim (by decide), splitOn_collapse, List.map_map, List.mem_filter]
  exact ⟨List.mem_map_of_mem hpart, decide_eq_true hne⟩

/-! ## What a statement begins with -/

theorem trim_collapse {lead w gap y : Text} {c : Char} (hlead : ∀ d ∈ lead, isSpace d = true)
    (hne : w ≠ []) (hw : ∀ d ∈ w, isInk d = true) (hgap : ∀ d ∈ gap, isSpace d = true)
    (hgapne : gap ≠ []) (hc : isInk c = true) :
    ∃ y', trim (collapse (lead ++ (w ++ (gap ++ c :: y)))) = w ++ ' ' :: c :: y' := by
  have hword : collapse (w ++ (gap ++ c :: y)) = (w ++ [' ']) ++ c :: collapse y := by
    rw [collapse_word hw, collapse_spaces hgapne hgap hc, collapse_ink hc, List.append_assoc,
      List.singleton_append]
  obtain ⟨first, w, rfl⟩ := List.exists_cons_of_ne_nil hne
  have hfirst : isInk first = true := hw first List.mem_cons_self
  have hsp : ∃ sp, (∀ d ∈ sp, isSpace d = true) ∧
      collapse (lead ++ (first :: w ++ (gap ++ c :: y))) =
        sp ++ collapse (first :: w ++ (gap ++ c :: y)) := by
    by_cases hnil : lead = []
    · exact ⟨[], by simp, by rw [hnil, List.nil_append, List.nil_append]⟩
    · refine ⟨[' '], by simp; decide, ?_⟩
      rw [List.cons_append, collapse_spaces hnil hlead hfirst, List.singleton_append]
  obtain ⟨sp, hsp, heq⟩ := hsp
  refine ⟨trimEnd (collapse y), ?_⟩
  rw [heq, trim_spaces_append hsp, hword, trim, List.append_assoc, List.cons_append,
    trimStart_ink hfirst, ← List.cons_append, ← List.append_assoc, trimEnd_append_cons hc,
    trimEnd_cons hc, List.append_assoc, List.singleton_append]

theorem run_litAnyCase {word : String} {w : Text} (h : w.map Char.toLower = word.toList)
    (prev : Option Char) (rest : Text) :
    Run (litAnyCase word) ⟨prev, w ++ rest⟩ ⟨lastOf prev w, rest⟩ := by
  unfold litAnyCase
  rw [← h]
  clear h
  induction w generalizing prev with
  | nil => rfl
  | cons c w ih => exact ⟨_, run_chars (by simp) prev _, ih _⟩

theorem of_run_litAnyCase {word : String} {p q : Pos} (h : Run (litAnyCase word) p q) :
    ∃ w, p.rest = w ++ q.rest ∧ w.map Char.toLower = word.toList := by
  unfold litAnyCase at h
  generalize word.toList = cs at h
  induction cs generalizing p with
  | nil => exact ⟨[], by rw [show q = p from h]; rfl, rfl⟩
  | cons c cs ih =>
    obtain ⟨m, ⟨d, rest, hrest, hd, rfl⟩, h⟩ := h
    obtain ⟨w, hw, hlower⟩ := ih h
    refine ⟨d :: w, by rw [hrest, List.cons_append, ← hw], ?_⟩
    rw [List.map_cons, hlower, of_decide_eq_true hd]

theorem run_gap (prev : Option Char) (rest : Text) :
    Run (plus sp) ⟨prev, ' ' :: rest⟩ ⟨some ' ', rest⟩ :=
  ⟨_, run_chars (by decide) prev rest, .refl⟩

theorem test_headWord {word : String} {w rest : Text} (h : w.map Char.toLower = word.toList) :
    (headWord word).test (w ++ ' ' :: rest) = true :=
  test_of_run ⟨_, ⟨rfl, rfl⟩, _, run_litAnyCase h none _, _, run_gap _ rest, rfl⟩

theorem test_deleteOrUpdate {w rest : Text}
    (h : w.map Char.toLower = "delete".toList ∨ w.map Char.toLower = "update".toList) :
    deleteOrUpdate.test (w ++ ' ' :: rest) = true := by
  have hword : Run (alt (litAnyCase "delete") (litAnyCase "update")) ⟨none, w ++ ' ' :: rest⟩
      ⟨lastOf none w, ' ' :: rest⟩ :=
    h.imp (fun h => run_litAnyCase h none _) fun h => run_litAnyCase h none _
  exact test_of_run ⟨_, ⟨rfl, rfl⟩, _, hword, _, run_gap _ rest, rfl⟩

/-- A letter is one in either case. -/
theorem isAlpha_of_toLower {c : Char} (h : c.toLower.isAlpha = true) : c.isAlpha = true := by
  unfold Char.toLower at h
  split at h
  · rename_i hupper
    exact isAlpha_iff.mpr (.inl hupper)
  · exact h

theorem alpha_of_keyword {w : Text} {word : String} (h : w.map Char.toLower = word.toList)
    (hword : ∀ c ∈ word.toList, c.isAlpha = true) : ∀ c ∈ w, c.isAlpha = true := by
  intro c hc
  apply isAlpha_of_toLower
  apply hword
  rw [← h]
  exact List.mem_map_of_mem hc

/-! ## Where a statement reads `where` -/

/-- `where` between white space, with something behind it. -/
def HasWhere (t : Text) : Prop :=
  ∃ u a w b v, t = u ++ a :: (w ++ b :: v) ∧ isSpace a = true ∧ isSpace b = true ∧
    w.map Char.toLower = "where".toList ∧ ∃ d ∈ v, isInk d = true

theorem test_whereBetween {t : Text} :
    whereBetween.test t = true ↔ ∃ u a w b v, t = u ++ a :: (w ++ b :: v) ∧ isSpace a = true ∧
      isSpace b = true ∧ w.map Char.toLower = "where".toList := by
  rw [test_iff]
  constructor
  · rintro ⟨u, rest, rfl, q, m, ⟨a, rest', rfl, ha, rfl⟩, n, hword, o, ⟨b, v, hb, hspace, rfl⟩, -⟩
    obtain ⟨w, hw, hlower⟩ := of_run_litAnyCase hword
    rw [hb] at hw
    exact ⟨u, a, w, b, v, by rw [show rest' = w ++ b :: v from hw], ha, hspace, hlower⟩
  · rintro ⟨u, a, w, b, v, rfl, ha, hb, hlower⟩
    exact ⟨u, _, rfl, _, _, run_chars ha _ _, _, run_litAnyCase hlower _ _, _, run_chars hb _ _, rfl⟩

theorem HasWhere.test_trimEnd {t : Text} (h : HasWhere t) : whereBetween.test (trimEnd t) = true := by
  obtain ⟨u, a, w, b, v, rfl, ha, hb, hlower, d, hd, hink⟩ := h
  obtain ⟨v₁, v₂, rfl⟩ := List.append_of_mem hd
  refine test_whereBetween.mpr ⟨u, a, w, b, v₁ ++ trimEnd (d :: v₂), ?_, ha, hb, hlower⟩
  rw [show u ++ a :: (w ++ b :: (v₁ ++ d :: v₂)) = (u ++ a :: (w ++ b :: v₁)) ++ d :: v₂ by simp,
    trimEnd_append_cons hink]
  simp

/-- A trimmed text does not end with white space. -/
theorem hasWhere_of_test_trim {t : Text} (h : whereBetween.test (trim t) = true) :
    HasWhere (trim t) := by
  obtain ⟨u, a, w, b, v, ht, ha, hb, hlower⟩ := test_whereBetween.mp h
  refine ⟨u, a, w, b, v, ht, ha, hb, hlower, ?_⟩
  by_contra hnone
  have hspace : ∀ d ∈ b :: v, isSpace d = true := by
    refine List.forall_mem_cons.mpr ⟨hb, fun d hd => ?_⟩
    by_contra hd'
    exact hnone ⟨d, hd, by simpa [isInk] using hd'⟩
  have htwice : trimEnd (trim t) = trim t := List.rdropWhile_idempotent _ _
  rw [ht, show u ++ a :: (w ++ b :: v) = (u ++ a :: w) ++ (b :: v) by simp, trimEnd_spaces hspace]
    at htwice
  have hlen := ( trimEnd_prefix (u ++ a :: w)).length_le
  rw [htwice, List.length_append, List.length_cons (a := b)] at hlen
  omega

theorem HasWhere.mono {s t : Text} (h : HasWhere s) (hst : s <:+: t) : HasWhere t := by
  obtain ⟨u, a, w, b, v, rfl, ha, hb, hlower, d, hd, hink⟩ := h
  obtain ⟨x, y, rfl⟩ := hst
  refine ⟨x ++ u, a, w, b, v ++ y, by simp, ha, hb, hlower, d, List.mem_append_left _ hd, hink⟩

theorem ink_of_where {w : Text} (h : w.map Char.toLower = "where".toList) :
    ∀ c ∈ w, isInk c = true :=
  fun c hc => isInk_of_isAlpha (alpha_of_keyword h (by decide) c hc)

theorem HasWhere.of_collapse {t : Text} (h : HasWhere (collapse t)) : HasWhere t := by
  obtain ⟨u, a, w, b, v, ht, ha, hb, hlower, d, hd, hink⟩ := h
  obtain ⟨before, behind, rfl, hbehind⟩ := collapse_eq_append ht
  obtain ⟨hinka, -⟩ | ⟨-, gap, s, hne, hgap, rfl, hs⟩ := collapse_eq_cons hbehind
  · rw [isInk, ha] at hinka
    cases hinka
  obtain ⟨rest, rfl, hrest⟩ := collapse_eq_word (ink_of_where hlower) hs
  obtain ⟨hinkb, -⟩ | ⟨-, gap', s', hne', hgap', rfl, hs'⟩ := collapse_eq_cons hrest
  · rw [isInk, hb] at hinkb
    cases hinkb
  obtain ⟨first, gap', rfl⟩ := List.exists_cons_of_ne_nil hne'
  obtain ⟨gap, last, rfl⟩ := (List.eq_nil_or_concat' gap).resolve_left hne
  refine ⟨before ++ gap, last, w, first, gap' ++ s', by simp, hgap last (by simp),
    hgap' first List.mem_cons_self, hlower, d, ?_, hink⟩
  rw [← hs'] at hd
  exact List.mem_append_right _ (mem_collapse hink hd)

end OpsMaxx.Queries
