import Mathlib.Data.Option.Basic
import Mathlib.Tactic.Common

/-! # Three-way merge of one key

Two sides hold a state of a key, which is a record or its absence, and a base recorded the print
of the state both came from. A side that still has the recorded print has not changed. `resolve`
takes the state of the side that changed, and `Clash` is what it cannot decide: both sides changed
and they do not hold the same.

Records are compared by a relation `same`; what the laws need of it is that records with one print
are the same, which is asked for the two records at hand only.

`Emits` is a turn of a loop that either stops or puts something out; a loop of such turns is
described by what its turns do.
-/

set_option autoImplicit false

namespace OpsMaxx.Merge

section Laws
variable {α φ : Type} (print : α → φ) (same : α → α → Prop)

/-- The state has the recorded print. -/
def Unchanged (base : Option φ) (x : Option α) : Prop := x.map print = base

instance [DecidableEq φ] (base : Option φ) (x : Option α) : Decidable (Unchanged print base x) :=
  inferInstanceAs (Decidable (x.map print = base))

/-- Two states that are both absent, or both there and the same. -/
def SameState (x y : Option α) : Prop := Option.Rel same x y

/-- Both sides changed, to different states. -/
def Clash (base : Option φ) (l r : Option α) : Prop :=
  ¬ Unchanged print base l ∧ ¬ Unchanged print base r ∧ ¬ SameState same l r

variable {print same} {base : Option φ} {l r : Option α}

theorem SameState.refl (hrefl : ∀ a, same a a) (x : Option α) : SameState same x x := by
  cases x with
  | none => exact .none
  | some a => exact .some (hrefl a)

theorem SameState.symm (hsymm : ∀ a b, same a b → same b a) (h : SameState same l r) :
    SameState same r l := by
  cases h with
  | some h => exact .some (hsymm _ _ h)
  | none => exact .none

/-- Two states with the recorded print are the same. -/
theorem sameState_of_unchanged (hprint : ∀ a ∈ l, ∀ b ∈ r, print a = print b → same a b)
    (hl : Unchanged print base l) (hr : Unchanged print base r) : SameState same l r := by
  have h : l.map print = r.map print := hl.trans hr.symm
  match l, r, h with
  | none, none, _ => exact .none
  | some a, some b, h => exact .some (hprint a rfl b rfl (Option.some.inj h))

theorem Clash.swap (hsymm : ∀ a b, same a b → same b a) (h : Clash print same base l r) :
    Clash print same base r l :=
  ⟨h.2.1, h.1, fun hs => h.2.2 (hs.symm hsymm)⟩

/-! ## The resolved state -/

variable [DecidableEq φ]

/-- The state of the side that changed; the left one if both did, or neither. -/
def resolve (print : α → φ) (base : Option φ) (l r : Option α) : Option α :=
  if Unchanged print base r then l else if Unchanged print base l then r else l

theorem resolve_eq_or (print : α → φ) (base : Option φ) (l r : Option α) :
    resolve print base l r = l ∨ resolve print base l r = r := by
  unfold resolve
  split_ifs <;> simp

theorem resolve_of_right (h : Unchanged print base r) : resolve print base l r = l := if_pos h

theorem resolve_of_left (hl : Unchanged print base l) (hr : ¬ Unchanged print base r) :
    resolve print base l r = r := by
  rw [resolve, if_neg hr, if_pos hl]

theorem resolve_of_both (hl : ¬ Unchanged print base l) (hr : ¬ Unchanged print base r) :
    resolve print base l r = l := by
  rw [resolve, if_neg hr, if_neg hl]

/-- If the left side has not changed, the result is the right side's state. -/
theorem resolve_sameState_right (hrefl : ∀ a, same a a)
    (hprint : ∀ a ∈ l, ∀ b ∈ r, print a = print b → same a b) (hl : Unchanged print base l) :
    SameState same (resolve print base l r) r := by
  by_cases hr : Unchanged print base r
  · rw [resolve_of_right hr]
    exact sameState_of_unchanged hprint hl hr
  · rw [resolve_of_left hl hr]
    exact SameState.refl hrefl r

/-- If both sides changed without a clash, they hold the same and so does the result. -/
theorem resolve_sameState_both (hclash : ¬ Clash print same base l r)
    (hl : ¬ Unchanged print base l) (hr : ¬ Unchanged print base r) :
    resolve print base l r = l ∧ SameState same l r :=
  ⟨resolve_of_both hl hr, by_contra fun h => hclash ⟨hl, hr, h⟩⟩

/-- Swapping the sides gives the same state. -/
theorem resolve_swap (hrefl : ∀ a, same a a)
    (hprint : ∀ a ∈ l, ∀ b ∈ r, print a = print b → same a b)
    (hclash : ¬ Clash print same base l r) :
    SameState same (resolve print base l r) (resolve print base r l) := by
  by_cases hl : Unchanged print base l
  · rw [resolve_of_right hl]
    exact resolve_sameState_right hrefl hprint hl
  · by_cases hr : Unchanged print base r
    · rw [resolve_of_right hr, resolve_of_left hr hl]
      exact SameState.refl hrefl l
    · rw [resolve_of_both hl hr, resolve_of_both hr hl]
      exact (resolve_sameState_both hclash hl hr).2

end Laws

/-! ## Loops -/

section Loops
variable {σ α β : Type} {out : σ → List β} {bad : α → Prop} {emit : α → List β}
variable {step : σ → α → Option σ}

/-- A turn of a loop that stops at the items `bad` describes and otherwise puts out `emit`. -/
structure Emits (out : σ → List β) (bad : α → Prop) (emit : α → List β)
    (step : σ → α → Option σ) (a : α) : Prop where
  refuses : ∀ s, bad a → step s a = none
  puts : ∀ s, ¬ bad a → (step s a).map out = some (out s ++ emit a)

/-- A loop of such turns stops at a bad item. -/
theorem foldlM_refuses {l : List α} (h : ∀ a ∈ l, Emits out bad emit step a)
    (hbad : ∃ a ∈ l, bad a) (s : σ) : l.foldlM step s = none := by
  induction l generalizing s with
  | nil => simp at hbad
  | cons a l ih =>
    have ha := h a List.mem_cons_self
    rw [List.foldlM_cons]
    by_cases hba : bad a
    · rw [ha.refuses s hba]
      rfl
    · obtain ⟨s₁, hs₁, -⟩ := Option.map_eq_some_iff.mp (ha.puts s hba)
      obtain ⟨b, hb, hbb⟩ := hbad
      rw [hs₁]
      refine ih (fun b hb => h b (List.mem_cons_of_mem a hb)) ?_ s₁
      rcases List.mem_cons.mp hb with rfl | hb
      · exact absurd hbb hba
      · exact ⟨b, hb, hbb⟩

/-- A loop of such turns without a bad item puts out what they put, in order. -/
theorem foldlM_puts {l : List α} (h : ∀ a ∈ l, Emits out bad emit step a)
    (hok : ∀ a ∈ l, ¬ bad a) (s : σ) :
    (l.foldlM step s).map out = some (out s ++ l.flatMap emit) := by
  induction l generalizing s with
  | nil => simp
  | cons a l ih =>
    obtain ⟨s₁, hs₁, hout⟩ := Option.map_eq_some_iff.mp
      ((h a List.mem_cons_self).puts s (hok a List.mem_cons_self))
    have hrest := ih (fun b hb => h b (List.mem_cons_of_mem a hb))
      (fun b hb => hok b (List.mem_cons_of_mem a hb)) s₁
    rw [List.foldlM_cons, hs₁, List.flatMap_cons, ← List.append_assoc, ← hout]
    exact hrest

end Loops

end OpsMaxx.Merge
