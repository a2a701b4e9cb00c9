import Mathlib.Logic.Relation

/-! # Programs that ask their surroundings

A program here is a tree of requests: it stops with a value, or it asks for something and goes on
with the reply. Nothing in this file says what the requests are.

* `Prog Op Res α`: the trees, with sequencing.
* `Surroundings`: what the world may do on its own while a request is pending (`drift`), what has
  to hold of the world when a request is served (`demand`), and which replies it can give.
* `Turn`: one step of a program in its surroundings, drift included.
* `Prog.wp`: every request of every run is served in a world meeting its demand, and every
  result satisfies the postcondition. `wp_run` is its soundness over whole runs.
* `Prog.exec`: running a program against a function that answers its requests.
-/

set_option autoImplicit false

namespace OpsMaxx.Interact

/-- A program that either stops with a value or makes a request and continues with the reply. -/
inductive Prog (Op : Type) (Res : Op → Type) (α : Type) where
  | done (a : α)
  | ask (o : Op) (k : Res o → Prog Op Res α)

namespace Prog

variable {Op : Type} {Res : Op → Type} {α β γ : Type}

/-- Run one program, then the one its value selects. -/
def bind : Prog Op Res α → (α → Prog Op Res β) → Prog Op Res β
  | done a, f => f a
  | ask o k, f => ask o fun r => (k r).bind f

@[simp] theorem bind_done (a : α) (f : α → Prog Op Res β) : (done a).bind f = f a := rfl

@[simp] theorem bind_ask (o : Op) (k : Res o → Prog Op Res α) (f : α → Prog Op Res β) :
    (ask o k).bind f = ask o fun r => (k r).bind f := rfl

end Prog

/-! ## Surroundings -/

/-- The world a program runs in. `drift o` is what the world may do by itself while `o` is
pending, `demand o` is what must hold of it when `o` is served, `reply` is how `o` is served. -/
structure Surroundings (W : Type) (Op : Type) (Res : Op → Type) where
  drift : Op → W → W → Prop
  demand : Op → W → Prop
  reply : W → (o : Op) → Res o → W → Prop
  drift_refl : ∀ o w, drift o w w
  drift_trans : ∀ o w₁ w₂ w₃, drift o w₁ w₂ → drift o w₂ w₃ → drift o w₁ w₃

section Runs
variable {W Op : Type} {Res : Op → Type} {α β : Type} (S : Surroundings W Op Res)

/-- One step of a program in its surroundings. -/
inductive Turn : Prog Op Res α × W → Prog Op Res α × W → Prop
  | drift {o : Op} {k : Res o → Prog Op Res α} {w w' : W} (h : S.drift o w w') :
      Turn (.ask o k, w) (.ask o k, w')
  | reply {o : Op} {k : Res o → Prog Op Res α} {w w' : W} {r : Res o} (h : S.reply w o r w') :
      Turn (.ask o k, w) (k r, w')

/-- Any number of steps. -/
abbrev Run : Prog Op Res α × W → Prog Op Res α × W → Prop := Relation.ReflTransGen (Turn S)

/-- Every request of every run of `p` from `w` is served in a world that meets its demand, and
every result of such a run satisfies `Q`. -/
def Prog.wp : Prog Op Res α → (α → W → Prop) → W → Prop
  | .done a, Q, w => Q a w
  | .ask o k, Q, w => ∀ w₁, S.drift o w w₁ →
      S.demand o w₁ ∧ ∀ r w₂, S.reply w₁ o r w₂ → Prog.wp (k r) Q w₂

variable {S}

@[simp] theorem wp_done (a : α) (Q : α → W → Prop) (w : W) :
    Prog.wp S (Prog.done a : Prog Op Res α) Q w = Q a w := rfl

theorem wp_ask (o : Op) (k : Res o → Prog Op Res α) (Q : α → W → Prop) (w : W) :
    Prog.wp S (.ask o k) Q w ↔ ∀ w₁, S.drift o w w₁ →
      S.demand o w₁ ∧ ∀ r w₂, S.reply w₁ o r w₂ → Prog.wp S (k r) Q w₂ := Iff.rfl

theorem wp_mono {p : Prog Op Res α} {Q Q' : α → W → Prop} (hQ : ∀ a w, Q a w → Q' a w) {w : W}
    (h : Prog.wp S p Q w) : Prog.wp S p Q' w := by
  induction p generalizing w with
  | done a => exact hQ a w h
  | ask o k ih =>
    intro w₁ hw
    obtain ⟨hd, hr⟩ := h w₁ hw
    exact ⟨hd, fun r w₂ hs => ih r (hr r w₂ hs)⟩

theorem wp_bind {p : Prog Op Res α} {f : α → Prog Op Res β} {Q : β → W → Prop} {w : W} :
    Prog.wp S (p.bind f) Q w ↔ Prog.wp S p (fun a w' => Prog.wp S (f a) Q w') w := by
  induction p generalizing w with
  | done a => rfl
  | ask o k ih => simp only [Prog.bind_ask, wp_ask, ih]

theorem wp_turn {p p' : Prog Op Res α} {Q : α → W → Prop} {w w' : W}
    (ht : Turn S (p, w) (p', w')) (h : Prog.wp S p Q w) : Prog.wp S p' Q w' := by
  cases ht with
  | drift hd => exact fun w₁ hw => h w₁ (S.drift_trans _ _ _ _ hd hw)
  | reply hr => exact (h w (S.drift_refl _ _)).2 _ _ hr

/-- What holds of every run before it starts holds of the rest of it at any point. -/
theorem wp_run {c c' : Prog Op Res α × W} {Q : α → W → Prop} (hr : Run S c c')
    (h : Prog.wp S c.1 Q c.2) : Prog.wp S c'.1 Q c'.2 := by
  induction hr with
  | refl => exact h
  | tail _ ht ih => exact wp_turn ht ih

/-- A run that stops stops with the postcondition. -/
theorem result_of_run {p : Prog Op Res α} {Q : α → W → Prop} {w w' : W} {a : α}
    (h : Prog.wp S p Q w) (hr : Run S (p, w) (.done a, w')) : Q a w' :=
  wp_run hr h

end Runs

/-! ## Running against a function -/

section Exec
variable {W Op : Type} {Res : Op → Type} {α : Type}

/-- Run a program against a function that answers each request. -/
def Prog.exec (answer : W → (o : Op) → Res o × W) : Prog Op Res α → W → α × W
  | .done a, w => (a, w)
  | .ask o k, w => Prog.exec answer (k (answer w o).1) (answer w o).2

theorem run_exec {S : Surroundings W Op Res} {answer : W → (o : Op) → Res o × W}
    (h : ∀ w o, S.reply w o (answer w o).1 (answer w o).2) (p : Prog Op Res α) (w : W) :
    Run S (p, w) (.done (p.exec answer w).1, (p.exec answer w).2) := by
  induction p generalizing w with
  | done a => exact .refl
  | ask o k ih => exact .head (Turn.reply (h w o)) (ih _ _)

/-- Whether all the answers of a run pass a check. -/
def Prog.checks (ok : W → Op → Bool) (answer : W → (o : Op) → Res o × W) : Prog Op Res α → W → Bool
  | .done _, _ => true
  | .ask o k, w => ok w o && Prog.checks ok answer (k (answer w o).1) (answer w o).2

/-- A run whose answers are possible wherever they pass a check, and all do. -/
theorem run_exec_checked {S : Surroundings W Op Res} {answer : W → (o : Op) → Res o × W}
    {ok : W → Op → Bool} (h : ∀ w o, ok w o = true → S.reply w o (answer w o).1 (answer w o).2)
    {p : Prog Op Res α} {w : W} (hp : p.checks ok answer w = true) :
    Run S (p, w) (.done (p.exec answer w).1, (p.exec answer w).2) := by
  induction p generalizing w with
  | done a => exact .refl
  | ask o k ih =>
    obtain ⟨ho, hk⟩ := Bool.and_eq_true_iff.mp hp
    exact .head (Turn.reply (h w o ho)) (ih _ hk)

end Exec

end OpsMaxx.Interact

/-! ## A program run again and again

A service rests, starts its program, runs it turn by turn, and rests again when it stops. While it
rests the world may change in ways of its own. `life_invariant` takes a property that resting
changes keep and that every run of the program gives back, through whole lives.
-/

namespace OpsMaxx.Interact

section Life
variable {W Op : Type} {Res : Op → Type} {α : Type}
variable (S : Surroundings W Op Res) (main : Prog Op Res α) (rest : W → W → Prop)

/-- Resting, or in the middle of a run. -/
abbrev Service (W Op : Type) (Res : Op → Type) (α : Type) : Type := Option (Prog Op Res α) × W

/-- One step of a life. -/
inductive Step : Service W Op Res α → Service W Op Res α → Prop
  | rest {w w' : W} (h : rest w w') : Step (none, w) (none, w')
  | start (w : W) : Step (none, w) (some main, w)
  | turn {p p' : Prog Op Res α} {w w' : W} (h : Turn S (p, w) (p', w')) :
      Step (some p, w) (some p', w')
  | stop (a : α) (w : W) : Step (some (.done a), w) (none, w)

/-- Any number of steps. -/
abbrev Life : Service W Op Res α → Service W Op Res α → Prop :=
  Relation.ReflTransGen (Step S main rest)

variable {S main rest}

/-- What holds of a service: the invariant while it rests, and while it runs that the rest of the
run meets every demand and gives the invariant back. -/
def Holds (S : Surroundings W Op Res) (I : W → Prop) : Service W Op Res α → Prop
  | (none, w) => I w
  | (some p, w) => p.wp S (fun _ => I) w

theorem life_invariant {I : W → Prop} (hrest : ∀ w w', rest w w' → I w → I w')
    (hmain : ∀ w, I w → main.wp S (fun _ => I) w) {c c' : Service W Op Res α}
    (hl : Life S main rest c c') (h : Holds S I c) : Holds S I c' := by
  induction hl with
  | refl => exact h
  | tail _ hs ih =>
    cases hs with
    | rest hr => exact hrest _ _ hr ih
    | start w => exact hmain w ih
    | turn ht => exact wp_turn ht ih
    | stop a w => exact ih

/-- A request that a life is about to make finds its demand met. -/
theorem demand_of_life {I : W → Prop} (hrest : ∀ w w', rest w w' → I w → I w')
    (hmain : ∀ w, I w → main.wp S (fun _ => I) w) {w w' : W} {o : Op}
    {k : Res o → Prog Op Res α} (hl : Life S main rest (none, w) (some (.ask o k), w')) (h : I w) :
    S.demand o w' :=
  (life_invariant hrest hmain hl h w' (S.drift_refl o w')).1

/-- A relation that resting, drifting and replies that meet their demand stay within relates any two
points of a life. -/
theorem life_relates {I : W → Prop} {R : W → W → Prop} (hrefl : ∀ w, R w w)
    (htrans : ∀ w₁ w₂ w₃, R w₁ w₂ → R w₂ w₃ → R w₁ w₃)
    (hrest : ∀ w w', rest w w' → I w → I w') (hmain : ∀ w, I w → main.wp S (fun _ => I) w)
    (hrestR : ∀ w w', rest w w' → R w w') (hdrift : ∀ o w w', S.drift o w w' → R w w')
    (hreply : ∀ w o r w', S.demand o w → S.reply w o r w' → R w w')
    {c c' : Service W Op Res α} (hl : Life S main rest c c') (h : Holds S I c) : R c.2 c'.2 := by
  induction hl with
  | refl => exact hrefl _
  | tail hl hs ih =>
    refine htrans _ _ _ ih ?_
    have hmid := life_invariant hrest hmain hl h
    cases hs with
    | rest hr => exact hrestR _ _ hr
    | start w => exact hrefl _
    | turn ht =>
      cases ht with
      | drift hd => exact hdrift _ _ _ hd
      | reply hs => exact hreply _ _ _ _ (hmid _ (S.drift_refl _ _)).1 hs
    | stop a w => exact hrefl _

/-- A run is a part of a life. -/
theorem life_of_run {c c' : Prog Op Res α × W} (h : Run S c c') :
    Life S main rest (some c.1, c.2) (some c'.1, c'.2) :=
  h.lift (fun c => (some c.1, c.2)) fun _ _ ht => .turn ht

/-- A whole run, from rest to rest. -/
theorem life_of_whole_run {a : α} {w w' : W} (h : Run S (main, w) (.done a, w')) :
    Life S main rest (none, w) (none, w') :=
  .head (.start w) ((life_of_run h).tail (.stop a w'))

end Life

/-! ## Running part of the way -/

section Advance
variable {W Op : Type} {Res : Op → Type} {α : Type}

/-- The first `n` requests, answered by a function. -/
def Prog.advance (answer : W → (o : Op) → Res o × W) :
    Nat → Prog Op Res α × W → Prog Op Res α × W
  | 0, c => c
  | _ + 1, (.done a, w) => (.done a, w)
  | n + 1, (.ask o k, w) => Prog.advance answer n (k (answer w o).1, (answer w o).2)

theorem run_advance {S : Surroundings W Op Res} {answer : W → (o : Op) → Res o × W}
    (h : ∀ w o, S.reply w o (answer w o).1 (answer w o).2) (n : Nat) (c : Prog Op Res α × W) :
    Run S c (Prog.advance answer n c) := by
  induction n generalizing c with
  | zero => exact .refl
  | succ n ih =>
    match c with
    | (.done a, w) => exact .refl
    | (.ask o k, w) => exact .head (Turn.reply (h w o)) (ih _)

/-- The request a program is waiting for. -/
def Prog.pending : Prog Op Res α → Option Op
  | .done _ => none
  | .ask o _ => some o

/-- While a request is pending, the world drifts as it may. -/
theorem turn_of_pending {S : Surroundings W Op Res} {p : Prog Op Res α} {o : Op} {w w' : W}
    (ho : p.pending = some o) (h : S.drift o w w') : Turn S (p, w) (p, w') := by
  cases p with
  | done a => cases ho
  | ask o' k =>
    obtain rfl := Option.some.inj ho
    exact .drift h

end Advance

end OpsMaxx.Interact

/-! ## Programs with a private state that may throw

`Proc Op Res ε σ α` is a program of requests that carries a state `σ` of its own and ends with a
value or an error, keeping what it did to its state either way. Its `wp` has one rule for each way
of building such a program; the rules are equivalences, so they can be used as rewrites.
-/

namespace OpsMaxx.Interact

/-- A program of requests with a private state, ending with a value or an error. -/
def Proc (Op : Type) (Res : Op → Type) (ε σ α : Type) : Type :=
  σ → Prog Op Res (Except ε α × σ)

namespace Proc

section Build
variable {Op : Type} {Res : Op → Type} {ε σ α β : Type}

instance : Monad (Proc Op Res ε σ) where
  pure a := fun s => .done (.ok a, s)
  bind m f := fun s => (m s).bind fun x =>
    match x.1 with
    | .ok a => f a x.2
    | .error e => .done (.error e, x.2)

instance : MonadExcept ε (Proc Op Res ε σ) where
  throw e := fun s => .done (.error e, s)
  tryCatch m h := fun s => (m s).bind fun x =>
    match x.1 with
    | .ok a => .done (.ok a, x.2)
    | .error e => h e x.2

/-- The private state. -/
def get : Proc Op Res ε σ σ := fun s => .done (.ok s, s)

/-- Change the private state. -/
def modify (f : σ → σ) : Proc Op Res ε σ Unit := fun s => .done (.ok (), f s)

/-- Make one request and read its reply as a value or an error. -/
def request (o : Op) (f : Res o → Except ε α) : Proc Op Res ε σ α :=
  fun s => .ask o fun r => .done (f r, s)

/-- What came of a program, error included, as a value. -/
def attempt (m : Proc Op Res ε σ α) : Proc Op Res ε σ (Except ε α) :=
  fun s => (m s).bind fun x => .done (.ok x.1, x.2)

end Build

/-! ## Weakest preconditions -/

section Rules
variable {W Op : Type} {Res : Op → Type} {ε σ α β : Type} {S : Surroundings W Op Res}

/-- `Prog.wp` read as a predicate on the outcome, the private state and the world. -/
def wp (S : Surroundings W Op Res) (m : Proc Op Res ε σ α) (Q : Except ε α → σ → W → Prop) (s : σ)
    (w : W) : Prop :=
  Prog.wp S (m s) (fun x w' => Q x.1 x.2 w') w

variable {Q : Except ε α → σ → W → Prop} {s : σ} {w : W}

@[simp] theorem wp_pure (a : α) : wp S (pure a : Proc Op Res ε σ α) Q s w ↔ Q (.ok a) s w := Iff.rfl

@[simp] theorem wp_throw (e : ε) :
    wp S (throw e : Proc Op Res ε σ α) Q s w ↔ Q (.error e) s w := Iff.rfl

@[simp] theorem wp_bind (m : Proc Op Res ε σ β) (f : β → Proc Op Res ε σ α) :
    wp S (m >>= f) Q s w ↔ wp S m (fun x s' w' =>
      match x with
      | .ok b => wp S (f b) Q s' w'
      | .error e => Q (.error e) s' w') s w := by
  refine Interact.wp_bind.trans ?_
  constructor <;> refine wp_mono ?_ <;> rintro ⟨x, s'⟩ w' h <;> cases x <;> exact h

@[simp] theorem wp_tryCatch (m : Proc Op Res ε σ α) (f : ε → Proc Op Res ε σ α) :
    wp S (tryCatch m f) Q s w ↔ wp S m (fun x s' w' =>
      match x with
      | .ok a => Q (.ok a) s' w'
      | .error e => wp S (f e) Q s' w') s w := by
  refine Interact.wp_bind.trans ?_
  constructor <;> refine wp_mono ?_ <;> rintro ⟨x, s'⟩ w' h <;> cases x <;> exact h

@[simp] theorem wp_attempt (m : Proc Op Res ε σ α) {Q : Except ε (Except ε α) → σ → W → Prop} :
    wp S (attempt m) Q s w ↔ wp S m (fun x s' w' => Q (.ok x) s' w') s w :=
  Interact.wp_bind

@[simp] theorem wp_get {Q : Except ε σ → σ → W → Prop} :
    wp S (get : Proc Op Res ε σ σ) Q s w ↔ Q (.ok s) s w := Iff.rfl

@[simp] theorem wp_modify (f : σ → σ) {Q : Except ε Unit → σ → W → Prop} :
    wp S (modify f : Proc Op Res ε σ Unit) Q s w ↔ Q (.ok ()) (f s) w := Iff.rfl

theorem wp_request (o : Op) (f : Res o → Except ε α) :
    wp S (request o f) Q s w ↔ ∀ w₁, S.drift o w w₁ →
      S.demand o w₁ ∧ ∀ r w₂, S.reply w₁ o r w₂ → Q (f r) s w₂ := Iff.rfl

theorem wp_imp {m : Proc Op Res ε σ α} {Q' : Except ε α → σ → W → Prop}
    (h : wp S m Q s w) (hQ : ∀ x s' w', Q x s' w' → Q' x s' w') : wp S m Q' s w := by
  unfold wp at h ⊢
  exact wp_mono (fun x w' hx => hQ x.1 x.2 w' hx) h

theorem wp.imp {m : Proc Op Res ε σ α} (h : wp S m Q s w)
    {Q' : Except ε α → σ → W → Prop} (hQ : ∀ x s' w', Q x s' w' → Q' x s' w') : wp S m Q' s w :=
  wp_imp h hQ

end Rules

end Proc

end OpsMaxx.Interact

/-! ## Programs that keep a property

`Keeps S J m`: wherever `m` is started in a world with `J`, every request of it finds its demand met
and every world it ends in has `J`. One rule for each way of building a program.
-/

namespace OpsMaxx.Interact

section Redemand
variable {W Op : Type} {Res : Op → Type} {α : Type} {S S' : Surroundings W Op Res}

/-- A turn does not depend on what is demanded. -/
theorem Turn.redemand (hdrift : S'.drift = S.drift) (hreply : S'.reply = S.reply)
    {c c' : Prog Op Res α × W} (h : Turn S c c') : Turn S' c c' := by
  cases h with
  | drift h => exact .drift (by rw [hdrift]; exact h)
  | reply h => exact .reply (by rw [hreply]; exact h)

end Redemand

namespace Proc

section Keeps
variable {W Op : Type} {Res : Op → Type} {ε σ α β : Type} {S : Surroundings W Op Res}
  {J : W → Prop}

/-- `m` keeps `J`, and meets its demands on the way. -/
def Keeps (S : Surroundings W Op Res) (J : W → Prop) (m : Proc Op Res ε σ α) : Prop :=
  ∀ s w, J w → wp S m (fun _ _ w' => J w') s w

theorem keeps_pure (a : α) : Keeps S J (pure a : Proc Op Res ε σ α) := fun _ _ h => h

theorem keeps_throw (e : ε) : Keeps S J (throw e : Proc Op Res ε σ α) := fun _ _ h => h

theorem Keeps.bind {m : Proc Op Res ε σ β} {f : β → Proc Op Res ε σ α} (hm : Keeps S J m)
    (hf : ∀ b, Keeps S J (f b)) : Keeps S J (m >>= f) := by
  intro s w hw
  rw [wp_bind]
  apply (hm s w hw).imp
  intro x s' w' hw'
  cases x with
  | ok b => exact hf b s' w' hw'
  | error e => exact hw'

theorem Keeps.attempt {m : Proc Op Res ε σ α} (hm : Keeps S J m) :
    Keeps S J (attempt m) := by
  intro s w hw
  rw [wp_attempt]
  exact hm s w hw

theorem keeps_request {o : Op} (f : Res o → Except ε α)
    (h : ∀ w w₁, J w → S.drift o w w₁ → S.demand o w₁ ∧ ∀ r w₂, S.reply w₁ o r w₂ → J w₂) :
    Keeps S J (request o f : Proc Op Res ε σ α) := fun _ w hw w₁ hdrift => h w w₁ hw hdrift

end Keeps

end Proc

end OpsMaxx.Interact
