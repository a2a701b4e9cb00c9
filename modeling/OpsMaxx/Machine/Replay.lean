import Mathlib.Data.List.Pairwise
import Mathlib.Data.List.Count
import Mathlib.Order.Lattice
import Mathlib.Logic.Function.Basic

/-!
# A memory that forgets

What was taken is remembered under its key until it lapses, and whatever comes next first drops what
has lapsed by then. A key can be taken again exactly when it is offered after the memory of it has
lapsed.
-/

set_option autoImplicit false

namespace OpsMaxx.Machine
variable {α κ τ : Type} [DecidableEq κ] [LinearOrder τ]

/-- How what is offered is read: the key it is known by, the clock, and when it is forgotten. -/
structure Clocked (α κ τ : Type) where
  key : α → κ
  now : α → τ
  lapse : α → τ

abbrev Memory (κ τ : Type) : Type := κ → Option τ

namespace Memory

def prune (m : Memory κ τ) (now : τ) : Memory κ τ := fun k => (m k).filter fun u => now ≤ u

def remember (c : Clocked α κ τ) (m : Memory κ τ) (o : α) : Memory κ τ :=
  Function.update m (c.key o) (some (c.lapse o))

/-- What is left in the memory when `o` has been offered. -/
def next (c : Clocked α κ τ) (m : Memory κ τ) (o : α) : Memory κ τ :=
  match m.prune (c.now o) (c.key o) with
  | some _ => m.prune (c.now o)
  | none => (m.prune (c.now o)).remember c o

def after (c : Clocked α κ τ) (m : Memory κ τ) (os : List α) : Memory κ τ := os.foldl (next c) m

/-- The offers that were new to the memory when they came. -/
def taken (c : Clocked α κ τ) (m : Memory κ τ) : List α → List α
  | [] => []
  | o :: os => if m.prune (c.now o) (c.key o) = none then o :: taken c (m.next c o) os else taken c (m.next c o) os

theorem taken_cons (c : Clocked α κ τ) (m : Memory κ τ) (o : α) (os : List α) :
    m.taken c (o :: os) =
      if m.prune (c.now o) (c.key o) = none then o :: (m.next c o).taken c os else (m.next c o).taken c os :=
  rfl

/-! ## One offer -/

variable {c : Clocked α κ τ} {m : Memory κ τ} {o : α} {os os' : List α} {k : κ} {u : τ}

omit [DecidableEq κ] in
theorem prune_some (h : m k = some u) {now : τ} (hnow : now ≤ u) : m.prune now k = some u := by
  unfold prune
  rw [h, Option.filter_some, if_pos (decide_eq_true hnow)]

omit [DecidableEq κ] in
theorem prune_lapsed (h : m k = some u) {now : τ} (hnow : u < now) : m.prune now k = none := by
  unfold prune
  rw [h, Option.filter_some, if_neg (by simpa using hnow)]

omit [DecidableEq κ] in
theorem prune_none (h : m k = none) (now : τ) : m.prune now k = none := by
  unfold prune
  rw [h]
  rfl

theorem next_of_known (h : m.prune (c.now o) (c.key o) = some u) :
    m.next c o = m.prune (c.now o) := by
  unfold next
  rw [h]

theorem next_of_new (h : m.prune (c.now o) (c.key o) = none) :
    m.next c o = (m.prune (c.now o)).remember c o := by
  unfold next
  rw [h]

theorem next_other (hkey : c.key o ≠ k) : m.next c o k = m.prune (c.now o) k := by
  unfold next
  cases m.prune (c.now o) (c.key o) with
  | some v => rfl
  | none =>
    unfold remember
    exact Function.update_of_ne (Ne.symm hkey) _ _

theorem next_new (h : m.prune (c.now o) (c.key o) = none) :
    m.next c o (c.key o) = some (c.lapse o) := by
  rw [next_of_new h]
  exact Function.update_self _ _ _

theorem next_known (h : m.prune (c.now o) (c.key o) = some u) :
    m.next c o (c.key o) = some u := by
  rw [next_of_known h, h]

/-! ## Many offers -/

theorem taken_sublist : ∀ (m : Memory κ τ) (os : List α), (m.taken c os).Sublist os
  | _, [] => List.Sublist.refl _
  | m, o :: os => by
    unfold taken
    split_ifs
    · exact (taken_sublist _ os).cons_cons o
    · exact (taken_sublist _ os).cons o

theorem taken_append (m : Memory κ τ) (os os' : List α) :
    m.taken c (os ++ os') = m.taken c os ++ (m.after c os).taken c os' := by
  induction os generalizing m with
  | nil => rfl
  | cons o os ih =>
    rw [List.cons_append, taken_cons, taken_cons]
    split_ifs
    · rw [ih, List.cons_append]
      rfl
    · rw [ih]
      rfl

theorem after_other (hm : m k = none) (hos : ∀ o ∈ os, c.key o ≠ k) : m.after c os k = none := by
  induction os generalizing m with
  | nil => exact hm
  | cons o os ih =>
    apply ih
    · rw [next_other (hos o List.mem_cons_self)]
      exact prune_none hm _
    · intro o' ho'
      exact hos o' (List.mem_cons_of_mem _ ho')

/-- While it is remembered, a key is not taken. -/
theorem not_taken_again (hm : m k = some u) (hsorted : os.Pairwise fun o o' => c.now o ≤ c.now o')
    (hos : ∀ o ∈ os, c.key o = k → c.now o ≤ u) : ∀ o ∈ m.taken c os, c.key o ≠ k := by
  induction os generalizing m with
  | nil =>
    intro o ho
    cases ho
  | cons o os ih =>
    obtain ⟨hfirst, hrest⟩ := List.pairwise_cons.mp hsorted
    have hos' : ∀ o' ∈ os, c.key o' = k → c.now o' ≤ u := by
      intro o' ho'
      exact hos o' (List.mem_cons_of_mem _ ho')
    rcases lt_or_ge u (c.now o) with hlate | hearly
    · -- whatever is still to come comes later, so it has other keys
      intro o' ho' hkey
      have hmem := (taken_sublist m (o :: os)).subset ho'
      have hle : c.now o' ≤ u := hos o' hmem hkey
      rcases List.mem_cons.mp hmem with rfl | hmem
      · exact absurd hle (not_le.mpr hlate)
      · exact absurd (le_trans (hfirst o' hmem) hle) (not_le.mpr hlate)
    · have hkept : m.prune (c.now o) k = some u := prune_some hm hearly
      by_cases hkey : c.key o = k
      · have hnext : m.next c o k = some u := by
          rw [← hkey] at hkept ⊢
          exact next_known hkept
        intro o' ho'
        unfold taken at ho'
        rw [hkey, hkept, if_neg (Option.some_ne_none u)] at ho'
        exact ih hnext hrest hos' o' ho'
      · have hnext : m.next c o k = some u := by rw [next_other hkey, hkept]
        intro o' ho'
        unfold taken at ho'
        split_ifs at ho'
        · rcases List.mem_cons.mp ho' with rfl | ho'
          · exact hkey
          · exact ih hnext hrest hos' o' ho'
        · exact ih hnext hrest hos' o' ho'

/-- A key that is not remembered is taken when it is offered. -/
theorem taken_when_new (hm : m k = none) (hoffered : ∃ o ∈ os, c.key o = k) :
    ∃ o ∈ m.taken c os, c.key o = k := by
  induction os generalizing m with
  | nil =>
    obtain ⟨o, ho, -⟩ := hoffered
    cases ho
  | cons o os ih =>
    unfold taken
    by_cases hkey : c.key o = k
    · rw [if_pos (by rw [hkey]; exact prune_none hm _)]
      exact ⟨o, List.mem_cons_self, hkey⟩
    · have hoffered' : ∃ o ∈ os, c.key o = k := by
        obtain ⟨o', ho', hkey'⟩ := hoffered
        rcases List.mem_cons.mp ho' with rfl | ho'
        · exact absurd hkey' hkey
        · exact ⟨o', ho', hkey'⟩
      have hnext : m.next c o k = none := by rw [next_other hkey, prune_none hm]
      obtain ⟨o', ho', hkey'⟩ := ih hnext hoffered'
      refine ⟨o', ?_, hkey'⟩
      split_ifs
      · exact List.mem_cons_of_mem _ ho'
      · exact ho'

/-- A key offered after the memory of it has lapsed is taken. -/
theorem taken_when_lapsed (hm : m k = some u) (hoffered : ∃ o ∈ os, c.key o = k ∧ u < c.now o) :
    ∃ o ∈ m.taken c os, c.key o = k := by
  induction os generalizing m with
  | nil =>
    obtain ⟨o, ho, -⟩ := hoffered
    cases ho
  | cons o os ih =>
    have hmore : (∃ o' ∈ (m.next c o).taken c os, c.key o' = k) → ∃ o' ∈ m.taken c (o :: os), c.key o' = k := by
      rintro ⟨o', ho', hkey'⟩
      refine ⟨o', ?_, hkey'⟩
      unfold taken
      split_ifs
      · exact List.mem_cons_of_mem _ ho'
      · exact ho'
    rcases lt_or_ge u (c.now o) with hlate | hearly
    · have hgone : m.prune (c.now o) k = none := prune_lapsed hm hlate
      by_cases hkey : c.key o = k
      · unfold taken
        rw [if_pos (by rw [hkey]; exact hgone)]
        exact ⟨o, List.mem_cons_self, hkey⟩
      · apply hmore
        apply taken_when_new
        · rw [next_other hkey, hgone]
        · obtain ⟨o', ho', hkey', -⟩ := hoffered
          rcases List.mem_cons.mp ho' with rfl | ho'
          · exact absurd hkey' hkey
          · exact ⟨o', ho', hkey'⟩
    · have hkept : m.prune (c.now o) k = some u := prune_some hm hearly
      apply hmore
      apply ih
      · by_cases hkey : c.key o = k
        · rw [← hkey] at hkept ⊢
          exact next_known hkept
        · rw [next_other hkey, hkept]
      · obtain ⟨o', ho', hkey', hlate⟩ := hoffered
        rcases List.mem_cons.mp ho' with rfl | ho'
        · exact absurd hlate (not_lt.mpr hearly)
        · exact ⟨o', ho', hkey', hlate⟩

/-- Every later offer of a key comes before what the first one left in the memory lapses. -/
def NeverLapses (c : Clocked α κ τ) (os : List α) : Prop :=
  ∀ before o behind, os = before ++ o :: behind → (∀ b ∈ before, c.key b ≠ c.key o) →
    ∀ o' ∈ behind, c.key o' = c.key o → c.now o' ≤ c.lapse o

/-- Around the first offer of a key: nothing with the key is taken before it, and it is. -/
theorem taken_first {before : List α} (behind : List α)
    (hfirst : ∀ b ∈ before, c.key b ≠ c.key o) :
    ∃ n : Memory κ τ, n (c.key o) = some (c.lapse o) ∧
      taken c (fun _ => none) (before ++ o :: behind) =
        taken c (fun _ => none) before ++ o :: n.taken c behind := by
  have hnew : (after c (fun _ => none) before).prune (c.now o) (c.key o) = none :=
    prune_none (after_other rfl hfirst) _
  refine ⟨(after c (fun _ => none) before).next c o, next_new hnew, ?_⟩
  rw [taken_append]
  conv_lhs => arg 2; unfold taken
  rw [if_pos hnew]

theorem first_taken {before behind : List α} (hfirst : ∀ b ∈ before, c.key b ≠ c.key o) :
    o ∈ taken c (fun _ => none) (before ++ o :: behind) := by
  obtain ⟨n, -, htaken⟩ := taken_first behind hfirst
  rw [htaken]
  exact List.mem_append_right _ List.mem_cons_self

omit [LinearOrder τ] in
/-- The first of those that carry a key. -/
theorem exists_first (hoffered : ∃ o ∈ os, c.key o = k) :
    ∃ before o behind, os = before ++ o :: behind ∧ c.key o = k ∧ ∀ b ∈ before, c.key b ≠ k := by
  obtain ⟨x, hx, hkey⟩ := hoffered
  have hfound : (os.find? fun o => c.key o = k).isSome = true :=
    List.find?_isSome.mpr ⟨x, hx, decide_eq_true hkey⟩
  obtain ⟨o, hfind⟩ := Option.isSome_iff_exists.mp hfound
  obtain ⟨ho, before, behind, hsplit, hfirst⟩ := List.find?_eq_some_iff_append.mp hfind
  refine ⟨before, o, behind, hsplit, of_decide_eq_true ho, ?_⟩
  intro b hb
  simpa using hfirst b hb

/-- No key is taken twice exactly when no key is offered again after it was forgotten. -/
theorem taken_once_iff {os : List α} (hsorted : os.Pairwise fun o o' => c.now o ≤ c.now o') :
    ((taken c (fun _ => none) os).map c.key).Nodup ↔ NeverLapses c os := by
  constructor
  · intro hnodup before o behind hsplit hfirst o' ho' hkey'
    by_contra hlate
    obtain ⟨n, hn, htaken⟩ := taken_first behind hfirst
    obtain ⟨o₂, ho₂, hkey₂⟩ := taken_when_lapsed hn ⟨o', ho', hkey', not_le.mp hlate⟩
    rw [hsplit, htaken, List.map_append, List.map_cons] at hnodup
    have htail := (List.nodup_append.mp hnodup).2.1
    apply (List.nodup_cons.mp htail).1
    exact List.mem_map.mpr ⟨o₂, ho₂, hkey₂⟩
  · intro hnever
    rw [List.nodup_iff_count]
    intro k
    by_cases hk : ∃ o ∈ os, c.key o = k
    · obtain ⟨before, o, behind, hsplit, hkey, hfirst⟩ := exists_first hk
      subst hkey
      obtain ⟨n, hn, htaken⟩ := taken_first behind hfirst
      have hbehind := not_taken_again hn
        ((List.pairwise_append.mp (hsplit ▸ hsorted)).2.1.of_cons)
        (hnever before o behind hsplit hfirst)
      have hbefore : c.key o ∉ (taken c (fun _ => none) before).map c.key := by
        intro hmem
        obtain ⟨b, hb, hkey⟩ := List.mem_map.mp hmem
        exact hfirst b ((taken_sublist _ _).subset hb) hkey
      have hlater : c.key o ∉ (n.taken c behind).map c.key := by
        intro hmem
        obtain ⟨b, hb, hkey⟩ := List.mem_map.mp hmem
        exact hbehind b hb hkey
      rw [hsplit, htaken, List.map_append, List.map_cons, List.count_append,
        List.count_eq_zero_of_not_mem hbefore, List.count_cons_self,
        List.count_eq_zero_of_not_mem hlater]
    · have habsent : k ∉ (taken c (fun _ => none) os).map c.key := by
        intro hmem
        obtain ⟨o, ho, hkey⟩ := List.mem_map.mp hmem
        exact hk ⟨o, (taken_sublist _ _).subset ho, hkey⟩
      rw [List.count_eq_zero_of_not_mem habsent]
      exact Nat.zero_le 1

end Memory

end OpsMaxx.Machine
