import Mathlib.Data.List.Basic
import Mathlib.Data.List.Count
import Mathlib.Data.List.Forall2
import Mathlib.Data.List.Perm.Basic
import Mathlib.Data.List.Pairwise

/-!
# Runs of a machine

A machine is a partial step function on its states. A run is a list of moves it made, each allowed
by a condition on the state the move was made in.
-/

set_option autoImplicit false

namespace OpsMaxx.Machine

variable {σ μ : Type}

inductive Run (step : σ → μ → Option σ) (ok : σ → μ → Prop) : σ → List μ → σ → Prop
  | refl (s : σ) : Run step ok s [] s
  | next {s t u : σ} {ms : List μ} {m : μ} (hrun : Run step ok s ms t) (hok : ok t m)
      (hstep : step t m = some u) : Run step ok s (ms ++ [m]) u

namespace Run
variable {step : σ → μ → Option σ} {ok ok' : σ → μ → Prop} {s t u : σ} {ms ns : List μ}

/-- What holds at the start and is kept by every allowed move holds at the end. -/
theorem invariant {I : σ → Prop} (hrun : Run step ok s ms t) (hstart : I s)
    (hkeeps : ∀ v m v', I v → ok v m → step v m = some v' → I v') : I t := by
  induction hrun with
  | refl => exact hstart
  | next _ hok hstep ih => exact hkeeps _ _ _ ih hok hstep

theorem trans (hrun : Run step ok s ms t) (hrun' : Run step ok t ns u) :
    Run step ok s (ms ++ ns) u := by
  induction hrun' with
  | refl => rwa [List.append_nil]
  | next _ hok hstep ih =>
    rw [← List.append_assoc]
    exact .next ih hok hstep

theorem mono (hrun : Run step ok s ms t) (himp : ∀ v m, ok v m → ok' v m) :
    Run step ok' s ms t := by
  induction hrun with
  | refl => exact .refl _
  | next _ hok hstep ih => exact .next ih (himp _ _ hok) hstep

end Run

/-- The end of a run, if its moves could be made and each met the condition. -/
def play (step : σ → μ → Option σ) (ok : σ → μ → Bool) : σ → List μ → Option σ
  | s, [] => some s
  | s, m :: ms =>
    match step s m with
    | some t => if ok s m then play step ok t ms else none
    | none => none

theorem Run.of_play {step : σ → μ → Option σ} {ok : σ → μ → Bool} {s t : σ} {ms : List μ}
    (h : play step ok s ms = some t) : Run step (fun v m => ok v m = true) s ms t := by
  induction ms generalizing s with
  | nil =>
    cases h
    exact .refl _
  | cons m ms ih =>
    unfold play at h
    cases hstep : step s m with
    | none => simp [hstep] at h
    | some v =>
      by_cases hok : ok s m = true
      · simp only [hstep, hok, if_true] at h
        exact (Run.next (.refl s) hok hstep).trans (ih h)
      · simp [hstep, hok] at h

end OpsMaxx.Machine

/-!
## Programs that report as they go

A program reads and extends a report; when it fails, the report stays as it was then. `Gives x s a t`
says that `x` comes to a value from one report to another.
-/

namespace OpsMaxx.Machine

abbrev Reporting (ε σ α : Type) : Type := ExceptT ε (StateM σ) α

namespace Reporting
variable {ε σ α β : Type}

/-- The outcome, and the report it leaves. -/
def outcome (x : Reporting ε σ α) (s : σ) : Except ε α × σ := x s

def Gives (x : Reporting ε σ α) (s : σ) (a : α) (t : σ) : Prop := x.outcome s = (.ok a, t)

@[simp] theorem gives_pure {a b : α} {s t : σ} :
    Gives (pure a : Reporting ε σ α) s b t ↔ a = b ∧ s = t := by
  constructor
  · intro h
    cases h
    exact ⟨rfl, rfl⟩
  · rintro ⟨rfl, rfl⟩
    rfl

@[simp] theorem not_gives_throw {e : ε} {s t : σ} {a : α} :
    ¬ Gives (throw e : Reporting ε σ α) s a t := by
  intro h
  cases h

theorem gives_bind {x : Reporting ε σ α} {f : α → Reporting ε σ β} {s t : σ} {b : β} :
    Gives (x >>= f) s b t ↔ ∃ a u, Gives x s a u ∧ Gives (f a) u b t := by
  have hbind : (x >>= f).outcome s =
      match x.outcome s with
      | (.ok a, u) => (f a).outcome u
      | (.error e, u) => (.error e, u) := by
    show (ExceptT.bindCont f (x s).1) (x s).2 = _
    unfold outcome
    rcases x s with ⟨r, u⟩
    cases r with
    | error e => rfl
    | ok a => rfl
  unfold Gives
  rw [hbind]
  constructor
  · intro h
    rcases hx : x.outcome s with ⟨r, u⟩
    rw [hx] at h
    cases r with
    | error e => cases h
    | ok a => exact ⟨a, u, rfl, h⟩
  · rintro ⟨a, u, hx, hf⟩
    rw [hx]
    exact hf

@[simp] theorem gives_modify {f : σ → σ} {s t : σ} {a : PUnit} :
    Gives (modify f : Reporting ε σ PUnit) s a t ↔ f s = t := by
  constructor
  · intro h
    cases h
    rfl
  · rintro rfl
    rfl

@[simp] theorem gives_get {s a t : σ} : Gives (get : Reporting ε σ σ) s a t ↔ s = a ∧ s = t := by
  constructor
  · intro h
    cases h
    exact ⟨rfl, rfl⟩
  · rintro ⟨rfl, rfl⟩
    rfl

/-- A step that fails unless a condition holds. -/
theorem gives_unless {p : Prop} [Decidable p] {e : ε} {s t : σ} {a : PUnit} :
    Gives (if p then pure () else throw e : Reporting ε σ PUnit) s a t ↔ p ∧ s = t := by
  split_ifs with h
  · simp [h]
  · simp [h]

end Reporting

end OpsMaxx.Machine

/-!
## Operations one after another

What concurrent operations did is explained by an order in which they ran alone, each with the state
it left. An operation that changed nothing may be placed wherever the order passes a state that it
would have left as it was.
-/

namespace OpsMaxx.Machine

variable {σ ω : Type} {alone : ω → σ → σ → Prop}

inductive Series (alone : ω → σ → σ → Prop) : σ → List (ω × σ) → σ → Prop
  | nil (s : σ) : Series alone s [] s
  | cons {s t u : σ} {o : ω} {os : List (ω × σ)} (hfirst : alone o s t)
      (hrest : Series alone t os u) : Series alone s ((o, t) :: os) u

namespace Series
variable {s t u : σ} {o : ω} {os os' : List (ω × σ)}

theorem append (h : Series alone s os t) (h' : Series alone t os' u) :
    Series alone s (os ++ os') u := by
  induction h with
  | nil => exact h'
  | cons hfirst _ ih => exact .cons hfirst (ih h')

theorem single (h : alone o s t) : Series alone s [(o, t)] t := .cons h (.nil t)

theorem snoc (h : Series alone s os t) (ho : alone o t u) : Series alone s (os ++ [(o, u)]) u :=
  h.append (single ho)

theorem split (h : Series alone s (os ++ os') u) :
    ∃ t, Series alone s os t ∧ Series alone t os' u := by
  induction os generalizing s with
  | nil => exact ⟨s, .nil s, h⟩
  | cons o os ih =>
    cases h with
    | cons hfirst hrest =>
      obtain ⟨t, hleft, hright⟩ := ih hrest
      exact ⟨t, .cons hfirst hleft, hright⟩

/-- The states are part of the order, so its end is determined. -/
theorem end_unique (h : Series alone s os t) (h' : Series alone s os u) : t = u := by
  induction h with
  | nil =>
    cases h'
    rfl
  | cons _ _ ih =>
    cases h' with
    | cons _ hrest => exact ih hrest

end Series

/-- The order passes `t`, and what it does behind `t` is all `late`. -/
def Passes (alone : ω → σ → σ → Prop) (s : σ) (os : List (ω × σ)) (u : σ) (late : ω → Prop)
    (t : σ) : Prop :=
  ∃ before behind, os = before ++ behind ∧ Series alone s before t ∧ Series alone t behind u ∧
    ∀ o ∈ behind, late o.1

namespace Passes
variable {s t t' u v : σ} {o : ω} {os : List (ω × σ)} {late late' : ω → Prop}

theorem last (h : Series alone s os u) : Passes alone s os u late u :=
  ⟨os, [], (List.append_nil os).symm, h, .nil u, by simp⟩

theorem snoc (h : Passes alone s os u late t) (ho : alone o u v) (hlate : late o) :
    Passes alone s (os ++ [(o, v)]) v late t := by
  obtain ⟨before, behind, rfl, hbefore, hbehind, hall⟩ := h
  refine ⟨before, behind ++ [(o, v)], List.append_assoc _ _ _, hbefore, hbehind.snoc ho, ?_⟩
  intro x hx
  rcases List.mem_append.mp hx with hx | hx
  · exact hall x hx
  · rw [List.mem_singleton.mp hx]
    exact hlate

/-- What the order passes it still passes with `o` put in where it leaves the state as it is. -/
theorem insert {before behind : List (ω × σ)} (hbefore : Series alone s before t)
    (hbehind : Series alone t behind u) (ho : alone o t t) (hlate : late o)
    (h : Passes alone s (before ++ behind) u late t') :
    Passes alone s (before ++ (o, t) :: behind) u late t' := by
  obtain ⟨before', behind', hsplit, hbefore', hbehind', hall⟩ := h
  rcases List.append_eq_append_iff.mp hsplit with ⟨mid, rfl, rfl⟩ | ⟨mid, rfl, rfl⟩
  · -- `t'` comes behind the place of `o`
    obtain ⟨t₀, h₀, hmid⟩ := hbefore'.split
    obtain rfl := h₀.end_unique hbefore
    exact ⟨before ++ (o, t₀) :: mid, behind', by simp, hbefore.append (.cons ho hmid), hbehind',
      hall⟩
  · -- `t'` comes before it
    obtain ⟨t₀, hmid, h₀⟩ := hbehind'.split
    obtain rfl := (hbefore'.append hmid).end_unique hbefore
    refine ⟨before', mid ++ (o, t₀) :: behind, by simp, hbefore', hmid.append (.cons ho hbehind), ?_⟩
    intro x hx
    rcases List.mem_append.mp hx with hx | hx
    · exact hall x (List.mem_append_left _ hx)
    · rcases List.mem_cons.mp hx with rfl | hx
      · exact hlate
      · exact hall x (List.mem_append_right _ hx)

end Passes

end OpsMaxx.Machine
