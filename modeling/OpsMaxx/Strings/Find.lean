import OpsMaxx.Strings.Words
import Mathlib.Tactic.Common

/-! # The first occurrence of a text in a text

`cutAt pat s` is what stands before the first occurrence of `pat` in `s` and what stands behind it.
-/

set_option autoImplicit false

namespace OpsMaxx.Strings

@[grind =] def cutAt (pat : Text) : Text → Option (Text × Text)
  | [] => if pat = [] then some ([], []) else none
  | c :: s =>
    if pat.isPrefixOf (c :: s) then some ([], (c :: s).drop pat.length)
    else (cutAt pat s).map fun found => (c :: found.1, found.2)

variable {pat : Text}

theorem cutAt_here {s : Text} (h : pat <+: s) : cutAt pat s = some ([], s.drop pat.length) := by
  cases s with
  | nil =>
    rw [List.prefix_nil.mp h]
    rfl
  | cons c s => rw [cutAt, if_pos (List.isPrefixOf_iff_prefix.mpr h)]

theorem cutAt_later {c : Char} {s : Text} (h : ¬ pat <+: c :: s) :
    cutAt pat (c :: s) = (cutAt pat s).map fun found => (c :: found.1, found.2) := by
  rw [cutAt, if_neg fun hp => h (List.isPrefixOf_iff_prefix.mp hp)]

theorem cutAt_short {s : Text} (h : s.length < pat.length) : cutAt pat s = none := by
  induction s with
  | nil =>
    rw [cutAt, if_neg]
    exact fun hnil => by simp [hnil] at h
  | cons c s ih =>
    rw [cutAt_later fun hp => by
      have := hp.length_le
      omega]
    rw [ih (by
      rw [List.length_cons] at h
      omega)]
    rfl

theorem cutAt_eq {t head tail : Text} (h : cutAt pat t = some (head, tail)) :
    t = head ++ pat ++ tail := by
  induction t generalizing head with
  | nil =>
    unfold cutAt at h
    split_ifs at h with hnil
    cases h
    simp [hnil]
  | cons c t ih =>
    unfold cutAt at h
    split_ifs at h with hpre
    · cases h
      obtain ⟨s, hs⟩ := List.isPrefixOf_iff_prefix.mp hpre
      rw [← hs, List.drop_left]
      rfl
    · obtain ⟨⟨head', tail'⟩, hcut, heq⟩ := Option.map_eq_some_iff.mp h
      cases heq
      rw [ih hcut]
      rfl

/-- It is the first occurrence that is found. -/
theorem not_infix_of_cutAt (hpat : pat ≠ []) {t head tail : Text}
    (h : cutAt pat t = some (head, tail)) : ¬ pat <:+: head := by
  induction t generalizing head with
  | nil =>
    rw [cutAt, if_neg hpat] at h
    cases h
  | cons c t ih =>
    have ht := cutAt_eq h
    rw [cutAt] at h
    split_ifs at h with hpre
    · cases h
      exact fun hnil => hpat (List.infix_nil.mp hnil)
    · obtain ⟨⟨head', tail'⟩, hcut, heq⟩ := Option.map_eq_some_iff.mp h
      cases heq
      rw [List.infix_cons_iff, not_or]
      refine ⟨fun hhead => hpre ?_, ih hcut⟩
      rw [List.isPrefixOf_iff_prefix, ht, List.append_assoc]
      exact hhead.trans (List.prefix_append _ _)

/-- What is found in a text is found there whatever stands behind it. -/
theorem cutAt_append_right {t head tail : Text} (hpat : pat ≠ [])
    (h : cutAt pat t = some (head, tail)) (rest : Text) :
    cutAt pat (t ++ rest) = some (head, tail ++ rest) := by
  induction t generalizing head with
  | nil =>
    rw [cutAt, if_neg hpat] at h
    cases h
  | cons c t ih =>
    have ht := cutAt_eq h
    by_cases hpre : pat <+: c :: t
    · rw [cutAt_here hpre] at h
      cases h
      rw [cutAt_here (hpre.trans (List.prefix_append _ _)),
        List.drop_append_of_le_length hpre.length_le]
    · rw [cutAt_later hpre] at h
      obtain ⟨⟨head', tail'⟩, hcut, heq⟩ := Option.map_eq_some_iff.mp h
      cases heq
      have hlong : ¬ pat <+: c :: (t ++ rest) := by
        intro hlong
        have hlen : pat.length ≤ (c :: t).length := by
          rw [ht]
          simp only [List.length_append]
          omega
        exact hpre (List.prefix_of_prefix_length_le hlong (List.prefix_append (c :: t) rest) hlen)
      rw [List.cons_append, cutAt_later hlong, ih hcut]
      rfl

/-- What is found before the end of a text is found without what stands behind it. -/
theorem cutAt_of_append {t rest head tail : Text} (h : cutAt pat (t ++ rest) = some (head, tail))
    (hlen : head.length + pat.length ≤ t.length) : ∃ behind, cutAt pat t = some (head, behind) := by
  induction t generalizing head with
  | nil =>
    have hpat : pat = [] := List.length_eq_zero_iff.mp (by rw [List.length_nil] at hlen; omega)
    have hhead : head = [] := List.length_eq_zero_iff.mp (by rw [List.length_nil] at hlen; omega)
    rw [hpat, hhead]
    exact ⟨[], rfl⟩
  | cons c t ih =>
    by_cases hlong : pat <+: c :: (t ++ rest)
    · rw [List.cons_append, cutAt_here hlong] at h
      cases h
      have hpre : pat <+: c :: t := by
        rw [List.length_nil, Nat.zero_add] at hlen
        exact List.prefix_of_prefix_length_le hlong (List.prefix_append (c :: t) rest) hlen
      exact ⟨_, cutAt_here hpre⟩
    · rw [List.cons_append, cutAt_later hlong] at h
      obtain ⟨⟨head', tail'⟩, hcut, heq⟩ := Option.map_eq_some_iff.mp h
      cases heq
      have hlen' : head'.length + pat.length ≤ t.length := by
        simp only [List.length_cons] at hlen
        omega
      obtain ⟨behind, hbehind⟩ := ih hcut hlen'
      have hpre : ¬ pat <+: c :: t := fun hpre => hlong (hpre.trans (List.prefix_append (c :: t) rest))
      rw [cutAt_later hpre, hbehind]
      exact ⟨_, rfl⟩

/-- A pair of characters is found where it first stands. -/
theorem cutAt_pair {x y : Char} (hne : x ≠ y) {b : Text} (h : ¬ [x, y] <:+: b) (rest : Text) :
    cutAt [x, y] (b ++ x :: y :: rest) = some (b, rest) := by
  induction b with
  | nil => exact cutAt_here (List.prefix_append [x, y] rest)
  | cons c b ih =>
    rw [List.infix_cons_iff, not_or] at h
    have hnot : ¬ [x, y] <+: c :: (b ++ x :: y :: rest) := by
      intro hpre
      obtain ⟨hxc, htail⟩ := List.cons_prefix_cons.mp hpre
      cases b with
      | nil => exact hne (List.cons_prefix_cons.mp htail).1.symm
      | cons d b =>
        apply h.1
        rw [hxc, (List.cons_prefix_cons.mp htail).1]
        exact List.prefix_append [c, d] b
    rw [List.cons_append, cutAt_later hnot, ih h.2]
    rfl

/-- Nothing begins among characters that the pattern does not begin with. -/
theorem cutAt_append {c : Char} {p : Text} (a s : Text) (h : c ∉ a) :
    cutAt (c :: p) (a ++ s) = (cutAt (c :: p) s).map fun found => (a ++ found.1, found.2) := by
  induction a with
  | nil => simp
  | cons x a ih =>
    have hx : ¬ (c :: p) <+: x :: (a ++ s) := by
      intro hp
      apply h
      rw [(List.cons_prefix_cons.mp hp).1]
      exact List.mem_cons_self
    rw [List.cons_append, cutAt_later hx, ih fun hmem => h (List.mem_cons_of_mem x hmem)]
    cases cutAt (c :: p) s with
    | none => rfl
    | some found => rfl

/-- Where a character of the pattern is missing before it, the pattern is found where it stands,
cut short or whole. -/
theorem cutAt_before {c : Char} {p q a t after : Text} (ha : c ∉ a) (hp : c ∉ p)
    (ht : t <+: p ++ c :: q ++ after) :
    cutAt (p ++ c :: q) (a ++ t) =
      if p ++ c :: q <+: t then some (a, t.drop (p ++ c :: q).length) else none := by
  induction a with
  | nil =>
    rw [List.nil_append]
    split_ifs with hwhole
    · exact cutAt_here hwhole
    · apply cutAt_short
      apply Nat.lt_of_not_le
      intro hle
      apply hwhole
      exact List.prefix_of_prefix_length_le (List.prefix_append _ _) ht hle
  | cons x a ih =>
    have hx : ¬ p ++ c :: q <+: x :: (a ++ t) := by
      intro hpre
      have hall : p ++ c :: q <+: (x :: a ++ p) ++ c :: (q ++ after) := by
        refine hpre.trans ?_
        obtain ⟨rest, hrest⟩ := ht
        refine ⟨rest, ?_⟩
        rw [List.cons_append, List.append_assoc, hrest]
        simp
      have hshort : p ++ [c] <+: x :: a ++ p := by
        refine List.prefix_of_prefix_length_le (List.IsPrefix.trans ?_ hall)
          (List.prefix_append _ _) ?_
        · exact ⟨q, by simp⟩
        · simp
      have hmem : c ∈ x :: a ++ p := hshort.subset (by simp)
      rw [List.mem_append] at hmem
      exact hmem.elim ha hp
    rw [List.cons_append, cutAt_later hx, ih fun hmem => ha (List.mem_cons_of_mem x hmem)]
    split_ifs with hwhole
    · rfl
    · rfl

end OpsMaxx.Strings

/-! ## Replacing every match

`sub m new s` replaces the matches in `s` from left to right, where `m` says how long the match is that
begins a text. A replacement can be made on each side of a place that no match runs over.
-/

namespace OpsMaxx.Strings

variable (m : Text → Option Nat) (new : Text)

/-- The characters of a match behind its first one are skipped. -/
@[grind =] def subFrom : Nat → Text → Text
  | _, [] => []
  | skip + 1, _ :: s => subFrom skip s
  | 0, c :: s =>
    match m (c :: s) with
    | some n => new ++ subFrom (n - 1) s
    | none => c :: subFrom 0 s

def sub (s : Text) : Text := subFrom m new 0 s

/-- How far the last match that begins in a text goes on in what stands behind it. -/
def overrun (rest : Text) : Nat → Text → Nat
  | skip, [] => skip
  | skip + 1, _ :: a => overrun rest skip a
  | 0, c :: a =>
    match m (c :: a ++ rest) with
    | some n => overrun rest (n - 1) a
    | none => overrun rest 0 a

/-- No match that begins in the text goes on behind it. -/
def Within (a rest : Text) : Prop := overrun m rest 0 a = 0

instance (a rest : Text) : Decidable (Within m a rest) :=
  inferInstanceAs (Decidable (overrun m rest 0 a = 0))

/-- A match in a text is one whatever stands behind it, and there are no others. -/
structure Stable : Prop where
  inside : ∀ {a rest : Text} {n : Nat}, m (a ++ rest) = some n → n ≤ a.length → m a = some n
  absent : ∀ {a rest : Text}, m (a ++ rest) = none → m a = none

variable {m new}

@[simp] theorem sub_nil : sub m new [] = [] := rfl

@[simp] theorem within_nil (rest : Text) : Within m [] rest := rfl

theorem subFrom_skip (skip : Nat) (s : Text) : subFrom m new skip s = sub m new (s.drop skip) := by
  induction s generalizing skip with
  | nil =>
    rw [List.drop_nil]
    cases skip <;> rfl
  | cons c s ih =>
    cases skip with
    | zero => rfl
    | succ skip => exact ih skip

theorem sub_none {c : Char} {s : Text} (h : m (c :: s) = none) :
    sub m new (c :: s) = c :: sub m new s := by
  unfold sub
  rw [subFrom, h]

theorem sub_match {a rest : Text} (hne : a ≠ []) (h : m (a ++ rest) = some a.length) :
    sub m new (a ++ rest) = new ++ sub m new rest := by
  cases a with
  | nil => exact absurd rfl hne
  | cons c a =>
    rw [List.cons_append] at h ⊢
    rw [sub, subFrom, h]
    simp only [List.length_cons, Nat.add_sub_cancel, subFrom_skip, List.drop_left]

theorem le_overrun (rest : Text) (skip : Nat) (a : Text) :
    skip ≤ a.length + overrun m rest skip a := by
  induction a generalizing skip with
  | nil => exact Nat.le_add_left _ _
  | cons c a ih =>
    cases skip with
    | zero => exact Nat.zero_le _
    | succ skip =>
      have := ih skip
      rw [List.length_cons, overrun]
      omega

theorem subFrom_append (hm : Stable m) (rest : Text) {skip : Nat} {a : Text}
    (h : overrun m rest skip a = 0) :
    subFrom m new skip (a ++ rest) = subFrom m new skip a ++ sub m new rest := by
  induction a generalizing skip with
  | nil =>
    obtain rfl : skip = 0 := h
    rfl
  | cons c a ih =>
    cases skip with
    | succ skip => exact ih h
    | zero =>
      rw [List.cons_append, subFrom, subFrom]
      rw [overrun] at h
      cases hmatch : m (c :: a ++ rest) with
      | none =>
        rw [hmatch] at h
        rw [List.cons_append] at hmatch
        rw [hmatch, hm.absent hmatch]
        simp only [ih h, List.cons_append]
      | some n =>
        rw [hmatch] at h
        have hlen : n ≤ (c :: a).length := by
          have := le_overrun (m := m) rest (n - 1) a
          rw [show overrun m rest (n - 1) a = 0 from h] at this
          rw [List.length_cons]
          omega
        rw [hm.inside hmatch hlen]
        rw [List.cons_append] at hmatch
        rw [hmatch]
        simp only [ih h, List.append_assoc]

/-- A text is replaced on each side of a place that no match runs over. -/
theorem sub_append (hm : Stable m) {a rest : Text} (h : Within m a rest) :
    sub m new (a ++ rest) = sub m new a ++ sub m new rest :=
  subFrom_append hm rest h

/-- What a replaced text begins with. -/
theorem head_sub {d : Char} {s : Text} {c : Char} (h : (sub m (d :: new) s).head? = some c) :
    c = d ∨ s.head? = some c := by
  cases s with
  | nil => cases h
  | cons x s =>
    rw [sub, subFrom] at h
    cases hmatch : m (x :: s) with
    | none =>
      rw [hmatch] at h
      exact .inr h
    | some n =>
      rw [hmatch] at h
      exact .inl (Option.some.inj h).symm

/-- Characters that the replacement is not stand side by side only where they did before. -/
theorem pair_subFrom {d x y : Char} (hx : x ≠ d) (hy : y ≠ d) {skip : Nat} {s : Text}
    (h : [x, y] <:+: subFrom m [d] skip s) : [x, y] <:+: s := by
  induction s generalizing skip with
  | nil =>
    rw [show subFrom m [d] skip [] = [] by cases skip <;> rfl] at h
    exact h
  | cons c s ih =>
    rw [List.infix_cons_iff]
    cases skip with
    | succ skip => exact .inr (ih h)
    | zero =>
      rw [subFrom] at h
      cases hmatch : m (c :: s) with
      | some n =>
        rw [hmatch] at h
        obtain hpre | h := List.infix_cons_iff.mp h
        · exact absurd (List.cons_prefix_cons.mp hpre).1 hx
        · exact .inr (ih h)
      | none =>
        rw [hmatch] at h
        obtain hpre | h := List.infix_cons_iff.mp h
        · left
          obtain ⟨rfl, t, ht⟩ := List.cons_prefix_cons.mp hpre
          have hhead : (sub m [d] s).head? = some y := by
            rw [sub, ← ht]
            rfl
          obtain ⟨t', rfl⟩ : ∃ t', s = y :: t' := by
            have hs := (head_sub hhead).resolve_left hy
            cases s with
            | nil => cases hs
            | cons z t' => exact ⟨t', by rw [Option.some.inj hs]⟩
          exact List.prefix_append [x, y] t'
        · exact .inr (ih h)

theorem pair_sub {d x y : Char} (hx : x ≠ d) (hy : y ≠ d) {s : Text} (h : ¬ [x, y] <:+: s) :
    ¬ [x, y] <:+: sub m [d] s :=
  fun hsub => h (pair_subFrom hx hy hsub)

end OpsMaxx.Strings
