import Mathlib.Data.List.Infix
import Mathlib.Data.List.TakeWhile
import Mathlib.Tactic.Common

/-!
# Replacing every occurrence

`replaceFrom` replaces the occurrences of a pattern from left to right, none of which overlaps the one
before. The elements of the text may carry more than their characters, and what has been replaced can
be marked in place: `mark` keeps the length of the text, and `render` writes the marks out.
-/

set_option autoImplicit false

namespace OpsMaxx.Strings

variable {α U : Type} [DecidableEq U] (char : α → U) (pat : List U) (new : List α)

/-- The elements of an occurrence behind its first one are skipped. -/
def replaceFrom : Nat → List α → List α
  | _, [] => []
  | skip + 1, _ :: s => replaceFrom skip s
  | 0, a :: s =>
    if pat <+: (a :: s).map char then new ++ replaceFrom (pat.length - 1) s
    else a :: replaceFrom 0 s

def replaceAll (s : List α) : List α := replaceFrom char pat new 0 s

variable {char pat new}

@[simp] theorem replaceFrom_nil (skip : Nat) : replaceFrom char pat new skip [] = [] := by
  cases skip <;> rfl

theorem replaceFrom_skip (skip : Nat) (s : List α) :
    replaceFrom char pat new skip s = replaceAll char pat new (s.drop skip) := by
  induction s generalizing skip with
  | nil => simp [replaceAll]
  | cons a s ih =>
    cases skip with
    | zero => rfl
    | succ skip => exact ih skip

theorem replaceAll_here {s : List α} (hpat : pat ≠ []) (h : pat <+: s.map char) :
    replaceAll char pat new s = new ++ replaceAll char pat new (s.drop pat.length) := by
  cases s with
  | nil => exact absurd (List.prefix_nil.mp h) hpat
  | cons a s =>
    rw [replaceAll, replaceFrom, if_pos h, replaceFrom_skip]
    cases pat with
    | nil => exact absurd rfl hpat
    | cons c p => rfl

theorem replaceAll_later {a : α} {s : List α} (h : ¬ pat <+: (a :: s).map char) :
    replaceAll char pat new (a :: s) = a :: replaceAll char pat new s := by
  rw [replaceAll, replaceFrom, if_neg h]
  rfl

/-- Nothing is replaced where nothing occurs. -/
theorem replaceAll_of_absent {s : List α} (h : ¬ pat <:+: s.map char) :
    replaceAll char pat new s = s := by
  induction s with
  | nil => rfl
  | cons a s ih =>
    rw [replaceAll_later fun hp => h hp.isInfix, ih fun hi => h ?_]
    rw [List.map_cons]
    exact hi.trans (List.suffix_cons _ _).isInfix

/-- A text is replaced on each side of characters that are not in the pattern. -/
theorem replaceAll_between {a : List α} {b : α} {s : List α} (hb : char b ∉ pat) (hpat : pat ≠ []) :
    replaceAll char pat new (a ++ b :: s) =
      replaceAll char pat new a ++ b :: replaceAll char pat new s := by
  induction hn : a.length using Nat.strong_induction_on generalizing a with
  | _ n ih =>
    subst hn
    cases a with
    | nil =>
      have hnot : ¬ pat <+: (b :: s).map char := by
        intro hp
        cases pat with
        | nil => exact hpat rfl
        | cons c p =>
          rw [List.map_cons, List.cons_prefix_cons] at hp
          exact hb (hp.1 ▸ List.mem_cons_self)
      rw [List.nil_append, replaceAll_later hnot]
      rfl
    | cons x a =>
      by_cases hp : pat <+: (x :: a).map char
      · have hlong : pat <+: ((x :: a) ++ b :: s).map char := by
          rw [List.map_append]
          exact hp.trans (List.prefix_append _ _)
        have hlen : pat.length ≤ (x :: a).length := by simpa using hp.length_le
        have hpos : 0 < pat.length := List.length_pos_of_ne_nil hpat
        rw [replaceAll_here hpat hlong, replaceAll_here hpat hp, List.drop_append_of_le_length hlen,
          ih _ _ rfl, List.append_assoc]
        rw [List.length_drop]
        omega
      · have hnot : ¬ pat <+: ((x :: a) ++ b :: s).map char := by
          intro hlong
          apply hp
          rw [List.map_append, List.map_cons] at hlong
          obtain hle | hlt := Nat.lt_or_ge ((x :: a).map char).length pat.length
          · exfalso
            apply hb
            have hshort : (x :: a).map char ++ [char b] <+: pat := by
              refine List.prefix_of_prefix_length_le ?_ hlong ?_
              · exact ⟨s.map char, by simp⟩
              · rw [List.length_append]
                exact hle
            exact hshort.subset (by simp)
          · exact List.prefix_of_prefix_length_le hlong (List.prefix_append _ _) hlt
        rw [List.cons_append] at hnot ⊢
        rw [replaceAll_later hnot, replaceAll_later hp, ih _ (by simp) rfl, List.cons_append]

/-- On each side of a text none of whose characters is in the pattern. -/
theorem replaceAll_around {mid : List α} (hmid : ∀ b ∈ mid, char b ∉ pat) (hne : mid ≠ [])
    (hpat : pat ≠ []) (a s : List α) :
    replaceAll char pat new (a ++ mid ++ s) =
      replaceAll char pat new a ++ mid ++ replaceAll char pat new s := by
  induction mid generalizing a with
  | nil => exact absurd rfl hne
  | cons b mid ih =>
    rw [List.append_assoc, List.cons_append, replaceAll_between (hmid b List.mem_cons_self) hpat]
    cases mid with
    | nil => simp
    | cons c mid =>
      have hrest := ih (fun x hx => hmid x (List.mem_cons_of_mem _ hx)) (by simp) []
      rw [List.nil_append] at hrest
      rw [hrest]
      simp [replaceAll]

/-- What no occurrence begins in stays in front. -/
theorem replaceAll_append {a s : List α}
    (h : ∀ i < a.length, ¬ pat <+: ((a ++ s).drop i).map char) :
    replaceAll char pat new (a ++ s) = a ++ replaceAll char pat new s := by
  induction a with
  | nil => rfl
  | cons x a ih =>
    have hfirst : ¬ pat <+: (x :: (a ++ s)).map char := h 0 (by simp)
    rw [List.cons_append, replaceAll_later hfirst, ih, List.cons_append]
    intro i hi
    exact h (i + 1) (by simpa using hi)

theorem replaceAll_eq_nil {s : List α} (hne : new ≠ []) (h : replaceAll char pat new s = []) :
    s = [] := by
  cases s with
  | nil => rfl
  | cons a s =>
    rw [replaceAll, replaceFrom] at h
    split_ifs at h
    exact absurd (List.append_eq_nil_iff.mp h).1 hne

/-- The first occurrence is replaced. -/
theorem replaceAll_first {a o s : List α} (hpat : pat ≠ []) (ho : o.map char = pat)
    (h : ∀ i < a.length, ¬ pat <+: ((a ++ (o ++ s)).drop i).map char) :
    replaceAll char pat new (a ++ (o ++ s)) = a ++ (new ++ replaceAll char pat new s) := by
  have hread : pat <+: (o ++ s).map char := by
    rw [List.map_append, ho]
    exact List.prefix_append _ _
  have hlen : pat.length = o.length := by rw [← ho, List.length_map]
  rw [replaceAll_append h, replaceAll_here hpat hread, hlen, List.drop_left]

/-! ## Several patterns at once -/

section Several
variable (char new) (pats : List (List U))

/-- At each place the first pattern that occurs there. -/
def hideFrom : Nat → List α → List α
  | _, [] => []
  | skip + 1, _ :: s => hideFrom skip s
  | 0, a :: s =>
    match pats.find? fun p => p <+: (a :: s).map char with
    | some p => new ++ hideFrom (p.length - 1) s
    | none => a :: hideFrom 0 s

def hide (s : List α) : List α := hideFrom char new pats 0 s

/-- Of two occurrences of patterns in a text the first ends before the second begins. -/
def Apart (t : List U) : Prop :=
  ∀ p ∈ pats, ∀ q ∈ pats, ∀ i j, i ≤ j → p <+: t.drop i → q <+: t.drop j →
    i = j ∧ p = q ∨ i + p.length ≤ j

variable {char new pats}

omit [DecidableEq U] in
theorem Apart.drop {t : List U} (h : Apart pats t) (k : Nat) : Apart pats (t.drop k) := by
  intro p hp q hq i j hij hpi hqj
  rw [List.drop_drop] at hpi hqj
  obtain ⟨hsame, hpq⟩ | hle := h p hp q hq (k + i) (k + j) (by omega) hpi hqj
  · exact Or.inl ⟨by omega, hpq⟩
  · right
    omega

omit [DecidableEq U] in
theorem Apart.mono {pats' : List (List U)} {t : List U} (h : Apart pats' t) (hsub : pats ⊆ pats') :
    Apart pats t :=
  fun p hp q hq => h p (hsub hp) q (hsub hq)

@[simp] theorem hide_nil : hide char new pats [] = [] := rfl

theorem hideFrom_skip (skip : Nat) (s : List α) :
    hideFrom char new pats skip s = hide char new pats (s.drop skip) := by
  induction s generalizing skip with
  | nil => cases skip <;> rfl
  | cons a s ih =>
    cases skip with
    | zero => rfl
    | succ skip => exact ih skip

theorem hide_later {a : α} {s : List α} (h : ∀ p ∈ pats, ¬ p <+: (a :: s).map char) :
    hide char new pats (a :: s) = a :: hide char new pats s := by
  have hfind : pats.find? (fun p => p <+: (a :: s).map char) = none := by
    rw [List.find?_eq_none]
    intro p hp
    simpa using h p hp
  rw [hide, hideFrom, hfind]
  rfl

/-- A pattern that occurs is the one found, if the occurrences are apart. -/
theorem hide_here {s : List α} {p : List U} (hp : p ∈ pats) (hne : p ≠ [])
    (happ : Apart pats (s.map char)) (h : p <+: s.map char) :
    hide char new pats s = new ++ hide char new pats (s.drop p.length) := by
  cases s with
  | nil => exact absurd (List.prefix_nil.mp h) hne
  | cons a s =>
    have hfind : pats.find? (fun p => p <+: (a :: s).map char) = some p := by
      cases hf : pats.find? (fun p => p <+: (a :: s).map char) with
      | none =>
        rw [List.find?_eq_none] at hf
        exact absurd (by simpa using h) (hf p hp)
      | some q =>
        have hq := List.mem_of_find?_eq_some hf
        have hqs : q <+: (a :: s).map char := by simpa using List.find?_some hf
        obtain ⟨-, hpq⟩ | hle := happ p hp q hq 0 0 le_rfl h hqs
        · rw [hpq]
        · have hpos := List.length_pos_of_ne_nil hne
          omega
    rw [hide, hideFrom, hfind]
    simp only
    rw [hideFrom_skip]
    cases p with
    | nil => exact absurd rfl hne
    | cons c p => rfl

/-- What is in front of the first occurrence stays. -/
theorem hide_append {a s : List α}
    (h : ∀ p ∈ pats, ∀ i < a.length, ¬ p <+: ((a ++ s).drop i).map char) :
    hide char new pats (a ++ s) = a ++ hide char new pats s := by
  induction a with
  | nil => rfl
  | cons x a ih =>
    have hfirst : ∀ p ∈ pats, ¬ p <+: (x :: (a ++ s)).map char := fun p hp => h p hp 0 (by simp)
    rw [List.cons_append, hide_later hfirst, ih, List.cons_append]
    intro p hp i hi
    exact h p hp (i + 1) (by simpa using hi)

omit [DecidableEq U] in
theorem Apart.of_prefix {t t' : List U} (h : Apart pats t) (ht : t' <+: t) : Apart pats t' := by
  intro p hp q hq i j hij hpi hqj
  exact h p hp q hq i j hij (hpi.trans (ht.drop i)) (hqj.trans (ht.drop j))

/-- What is read at the beginning of a text in which patterns are hidden stood there before. -/
theorem prefix_of_hide {p : List U} (hnew : ∀ b ∈ new, char b ∉ p) (hne : new ≠ []) {t : List α}
    (h : p <+: (hide char new pats t).map char) : p <+: t.map char := by
  induction t generalizing p with
  | nil => simpa using h
  | cons a s ih =>
    cases p with
    | nil => exact List.nil_prefix
    | cons c p =>
      cases hfind : pats.find? (fun q => q <+: (a :: s).map char) with
      | some q =>
        rw [hide, hideFrom, hfind] at h
        cases new with
        | nil => exact absurd rfl hne
        | cons b new =>
          exfalso
          apply hnew b List.mem_cons_self
          simp only [List.cons_append, List.map_cons, List.cons_prefix_cons] at h
          rw [h.1]
          exact List.mem_cons_self
      | none =>
        rw [hide, hideFrom, hfind] at h
        simp only [List.map_cons, List.cons_prefix_cons] at h ⊢
        refine ⟨h.1, ih (fun b hb hmem => hnew b hb (List.mem_cons_of_mem _ hmem)) h.2⟩

/-- One pattern more, once the others are hidden. -/
theorem replaceAll_hide {q : List U} (hq : q ≠ []) (hpats : ∀ p ∈ pats, p ≠ [])
    (hnew : ∀ b ∈ new, char b ∉ q) (hne : new ≠ []) {t : List α}
    (happ : Apart (pats ++ [q]) (t.map char)) :
    replaceAll char q new (hide char new pats t) = hide char new (pats ++ [q]) t := by
  induction hn : t.length using Nat.strong_induction_on generalizing t with
  | _ n ih =>
    subst hn
    have hsub : pats ⊆ pats ++ [q] := List.subset_append_left _ _
    have hmem : q ∈ pats ++ [q] := by simp
    have hdrop : ∀ k, Apart (pats ++ [q]) ((t.drop k).map char) := fun k => by
      rw [List.map_drop]
      exact happ.drop k
    by_cases hother : ∃ p ∈ pats, p <+: t.map char
    · obtain ⟨p, hp, hpt⟩ := hother
      have hpos := List.length_pos_of_ne_nil (hpats p hp)
      have hlen : p.length ≤ t.length := by simpa using hpt.length_le
      have haround : replaceAll char q new ([] ++ new ++ hide char new pats (t.drop p.length)) = _ :=
        replaceAll_around hnew hne hq [] _
      rw [hide_here hp (hpats p hp) (happ.mono hsub) hpt,
        hide_here (hsub hp) (hpats p hp) happ hpt]
      rw [List.nil_append] at haround
      rw [haround, ih _ (by rw [List.length_drop]; omega) (hdrop _) rfl]
      rfl
    · have hnone : ∀ p ∈ pats, ¬ p <+: t.map char := fun p hp hpt => hother ⟨p, hp, hpt⟩
      by_cases hown : q <+: t.map char
      · have hpos := List.length_pos_of_ne_nil hq
        have hlen : q.length ≤ t.length := by simpa using hown.length_le
        have hfront : hide char new pats (t.take q.length ++ t.drop q.length) =
            t.take q.length ++ hide char new pats (t.drop q.length) := by
          apply hide_append
          intro p hp i hi hpi
          rw [List.take_append_drop, List.map_drop] at hpi
          rw [List.length_take] at hi
          obtain ⟨hzero, -⟩ | hle := happ q hmem p (hsub hp) 0 i (Nat.zero_le _) hown hpi
          · subst hzero
            exact hnone p hp hpi
          · omega
        rw [List.take_append_drop] at hfront
        have hread : q <+: (t.take q.length ++ hide char new pats (t.drop q.length)).map char := by
          have htake : (t.take q.length).map char = q := by
            rw [List.map_take]
            exact (List.prefix_iff_eq_take.mp hown).symm
          rw [List.map_append, htake]
          exact List.prefix_append _ _
        rw [hfront, replaceAll_here hq hread, hide_here hmem hq happ hown]
        rw [List.drop_left' (by rw [List.length_take]; omega),
          ih _ (by rw [List.length_drop]; omega) (hdrop _) rfl]
      · cases t with
        | nil => rfl
        | cons a s =>
          have hall : ∀ p ∈ pats ++ [q], ¬ p <+: (a :: s).map char := by
            intro p hp
            obtain hp | hp := List.mem_append.mp hp
            · exact hnone p hp
            · rw [List.mem_singleton.mp hp]
              exact hown
          have hnot : ¬ q <+: (a :: hide char new pats s).map char := by
            rw [← hide_later hnone]
            exact fun h => hown (prefix_of_hide hnew hne h)
          have hrest : Apart (pats ++ [q]) (s.map char) := happ.drop 1
          rw [hide_later hnone, hide_later hall, replaceAll_later hnot,
            ih s.length (by simp) hrest rfl]

/-- The order of the patterns is of no account. -/
theorem hide_congr {pats' : List (List U)} (hpats : ∀ p ∈ pats, p ≠ [])
    (hmem : ∀ p, p ∈ pats ↔ p ∈ pats') {t : List α} (happ : Apart pats (t.map char)) :
    hide char new pats t = hide char new pats' t := by
  have happ' : Apart pats' (t.map char) := happ.mono fun p hp => (hmem p).mpr hp
  induction hn : t.length using Nat.strong_induction_on generalizing t with
  | _ n ih =>
    subst hn
    by_cases hsome : ∃ p ∈ pats, p <+: t.map char
    · obtain ⟨p, hp, hpt⟩ := hsome
      have hpos := List.length_pos_of_ne_nil (hpats p hp)
      have hlen : p.length ≤ t.length := by simpa using hpt.length_le
      rw [hide_here hp (hpats p hp) happ hpt,
        hide_here ((hmem p).mp hp) (hpats p hp) happ' hpt]
      rw [ih _ (by rw [List.length_drop]; omega)
        (by rw [List.map_drop]; exact happ.drop _) (by rw [List.map_drop]; exact happ'.drop _) rfl]
    · cases t with
      | nil => rfl
      | cons a s =>
        rw [hide_later fun p hp hpt => hsome ⟨p, hp, hpt⟩,
          hide_later fun p hp hpt => hsome ⟨p, (hmem p).mpr hp, hpt⟩]
        rw [ih s.length (by simp) (happ.drop 1) (happ'.drop 1) rfl]

theorem mem_hide {x : α} {t : List α} (h : x ∈ hide char new pats t) : x ∈ new ∨ x ∈ t := by
  induction hn : t.length using Nat.strong_induction_on generalizing t with
  | _ n ih =>
    subst hn
    cases t with
    | nil => cases h
    | cons a s =>
      rw [hide, hideFrom] at h
      split at h
      · rw [hideFrom_skip] at h
        obtain h | h := List.mem_append.mp h
        · exact Or.inl h
        · refine (ih _ ?_ h rfl).imp_right fun hmem => ?_
          · rw [List.length_drop, List.length_cons]
            omega
          · exact List.mem_cons_of_mem _ (List.mem_of_mem_drop hmem)
      · obtain rfl | h := List.mem_cons.mp h
        · exact Or.inr List.mem_cons_self
        · exact (ih s.length (by simp) h rfl).imp_right (List.mem_cons_of_mem _)

/-- An occurrence is hidden whole, between what is made of the text on its two sides. -/
theorem hide_occurrence (hpats : ∀ p ∈ pats, p ≠ []) {a o r : List α} (ho : o.map char ∈ pats)
    (happ : Apart pats ((a ++ o ++ r).map char)) :
    hide char new pats (a ++ o ++ r) = hide char new pats a ++ new ++ hide char new pats r := by
  induction hn : a.length using Nat.strong_induction_on generalizing a with
  | _ n ih =>
    subst hn
    have hoccurs : o.map char <+: ((a ++ o ++ r).map char).drop a.length := by
      simp
    by_cases hsome : ∃ p ∈ pats, p <+: (a ++ o ++ r).map char
    · obtain ⟨p, hp, hpt⟩ := hsome
      have hpos := List.length_pos_of_ne_nil (hpats p hp)
      rw [hide_here hp (hpats p hp) happ hpt]
      obtain ⟨hzero, hpo⟩ | hle := happ p hp _ ho 0 a.length (Nat.zero_le _) hpt hoccurs
      · have hnil : a = [] := List.length_eq_zero_iff.mp hzero.symm
        subst hnil
        have hlen : p.length = o.length := by rw [hpo, List.length_map]
        simp [hlen]
      · rw [Nat.zero_add] at hle
        have hpa : p <+: a.map char := by
          refine List.prefix_of_prefix_length_le hpt ?_ (by simpa using hle)
          rw [List.append_assoc, List.map_append]
          exact List.prefix_append _ _
        have happa : Apart pats (a.map char) := happ.of_prefix (by
          rw [List.append_assoc, List.map_append]
          exact List.prefix_append _ _)
        have hdrop : (a ++ o ++ r).drop p.length = a.drop p.length ++ o ++ r := by
          rw [List.append_assoc, List.drop_append_of_le_length hle, ← List.append_assoc]
        rw [hide_here hp (hpats p hp) happa hpa, hdrop,
          ih _ (by rw [List.length_drop]; omega) (by rw [← hdrop, List.map_drop]; exact happ.drop _)
            rfl]
        simp
    · cases a with
      | nil =>
        exfalso
        exact hsome ⟨_, ho, by simp⟩
      | cons x a =>
        have hwhole : ∀ p ∈ pats, ¬ p <+: (x :: (a ++ o ++ r)).map char :=
          fun p hp hpt => hsome ⟨p, hp, hpt⟩
        have hfront : ∀ p ∈ pats, ¬ p <+: (x :: a).map char := by
          intro p hp hpt
          apply hsome
          refine ⟨p, hp, hpt.trans ?_⟩
          rw [List.append_assoc, List.map_append]
          exact List.prefix_append _ _
        have happ' : Apart pats ((a ++ o ++ r).map char) := happ.drop 1
        rw [List.cons_append, List.cons_append, hide_later hwhole, hide_later hfront,
          ih a.length (by simp) happ' rfl]
        rfl

end Several

end OpsMaxx.Strings
