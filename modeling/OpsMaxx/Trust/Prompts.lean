import OpsMaxx.Machine.Run
import OpsMaxx.Trust.File

/-!
# Trusting a host key

`verifyHostKey` answers at once, joins a dialog that is up, or puts one up; a person answers it; and
whoever waits on it gets that answer. Dialogs are kept under a text, made from the id alone.
-/

set_option autoImplicit false

namespace OpsMaxx.Trust.Prompts
open OpsMaxx.Machine

/-- The OpenSSH-style fingerprint of a key. -/
class Fingerprints where
  fingerprint : List UInt8 → String

export Fingerprints (fingerprint)

/-! ## The files -/

/-- The fingerprint the known-hosts file has for each id, and the trust file. -/
structure Files where
  knownHosts : String → Option String
  trust : TrustOnDisk

/-- The key this device should hold `id` to, given what the synced file says. -/
def hostKeyExpected (t : TrustFile) (id : String) (fileFp : Option String) : Option String :=
  if t.unreadable then none
  else match t.hostKeys id with
    | some m => if m.speaksOf fileFp then m.mine else fileFp
    | none => fileFp

/-- A mark that is there was read from a file that need not be rebuilt. -/
def clearHostKeyMark (id : String) (disk : TrustOnDisk) : TrustOnDisk :=
  if ((read disk).hostKeys id).isSome then .saved ((read disk).setHostKey id none) else disk

/-- What accepting a key writes. -/
def Files.accept (f : Files) (id fp : String) : Files where
  knownHosts := Function.update f.knownHosts id (some fp)
  trust := clearHostKeyMark id f.trust

/-! ## Calls and dialogs -/

/-- A call, with the key it presented and what `hostKeyExpected` returned for it. -/
structure Call where
  id : String
  fp : String
  trusted : Option String
  deriving DecidableEq, Repr

/-- What OpenSSH thinks of the host. -/
structure OpenSsh where
  revoked : Bool
  trusted : Bool
  knownUnderAnotherKey : Bool
  deriving DecidableEq, Repr

inductive Title where
  | confirm | unknown | changed | replace
  deriving DecidableEq, Repr

inductive Button where
  | trust | cancel | ok | copy | replaceKey | replaceAndConnect
  deriving DecidableEq, Repr

/-- A dialog as it stands on the screen: the id and the fingerprint it displays, and its buttons. -/
structure Dialog where
  title : Title
  id : String
  fp : String
  buttons : List Button
  deriving DecidableEq, Repr

/-- The first sighting of a host, or a key that is not the one that was expected. -/
inductive Kind where
  | first (recognised : Bool)
  | changed (expected : String) (person : Bool)
  deriving DecidableEq, Repr

/-- Where a prompt is: its dialog is up, the second question is, or it has its answer. A prompt whose
write failed rejects. -/
inductive Stage where
  | asking
  | sure
  | answered (verdict : Option Bool)
  deriving DecidableEq, Repr

structure Prompt where
  id : String
  fp : String
  kind : Kind
  stage : Stage
  joined : List Call
  deriving DecidableEq, Repr

/-- The dialog of a prompt that waits for a person. -/
def Prompt.dialog (p : Prompt) : Option Dialog :=
  match p.stage, p.kind with
  | .asking, .first recognised =>
    some ⟨if recognised then .confirm else .unknown, p.id, p.fp, [.trust, .cancel]⟩
  | .asking, .changed _ person =>
    some ⟨.changed, p.id, p.fp,
      if person then [.cancel, .copy, .replaceKey] else [.ok, .copy]⟩
  | .sure, .changed _ _ => some ⟨.replace, p.id, p.fp, [.cancel, .replaceAndConnect]⟩
  | _, _ => none

/-! ## The process -/

/-- The button that accepted a key, the dialog it was pressed in, and the fingerprint the file had for
its id right after. -/
structure Acceptance where
  button : Button
  dialog : Dialog
  written : Option String
  deriving DecidableEq, Repr

structure State where
  files : Files
  pending : String → Option Prompt
  resolved : List (Call × Bool)
  accepted : List Acceptance

def State.start (files : Files) : State := ⟨files, fun _ => none, [], []⟩

/-- `files` is any change of the files by someone else. A response is none where there was no window
to ask in. -/
inductive Move where
  | verifyHostKey (host : String) (port : Nat) (key : List UInt8) (allowPrompt : Bool)
      (identity : Option String) (openssh : OpenSsh)
  | answer (key : String) (response : Option Nat) (written : Bool)
  | settle (key : String)
  | files (f : Files)

def State.resolve (s : State) (c : Call) (verdict : Bool) : State :=
  { s with resolved := s.resolved ++ [(c, verdict)] }

/-- Join the prompt under a key, or put this one there. -/
def State.ask (s : State) (key : String) (c : Call) (kind : Kind) : State :=
  let p := match s.pending key with
    | some p => { p with joined := p.joined ++ [c] }
    | none => ⟨c.id, c.fp, kind, .asking, [c]⟩
  { s with pending := Function.update s.pending key (some p) }

def changedKey (s : State) (c : Call) (expected : String) (person : Bool) : State :=
  s.ask ("changed:" ++ c.id) c (.changed expected person)

def hostId (host : String) (port : Nat) (identity : Option String) : String :=
  identity.getD (host ++ ":" ++ toString (if port = 0 then 22 else port))

/-- An empty text is no fingerprint. -/
def expectedKey (c : Call) (known : Option String) : Option String :=
  (match c.trusted with
    | some t => some t
    | none => known.filter fun k => k ≠ c.fp).filter fun e => e ≠ ""

/-- `verifyHostKey`, its key read as a fingerprint. A revoked key is told and refused. -/
def verify (s : State) (c : Call) (allowPrompt : Bool) (openssh : OpenSsh) : State :=
  if c.trusted = some c.fp then s.resolve c true
  else match expectedKey c (s.files.knownHosts c.id) with
    | some expected => changedKey s c expected allowPrompt
    | none =>
      if ¬ allowPrompt then s.resolve c false
      else if (s.pending c.id).isNone ∧ openssh.revoked = true then s.resolve c false
      else s.ask c.id c (.first openssh.trusted)

/-- A button pressed in a dialog. -/
def Dialog.pressed (d : Dialog) (response : Option Nat) : Option Button :=
  response.bind fun i => d.buttons[i]?

/-- A prompt after an answer: the second question, the first one again, or done. -/
def Button.stage : Button → Stage
  | .copy => .asking
  | .replaceKey => .sure
  | _ => .answered (some false)

def Button.accepts : Button → Bool
  | .trust => true
  | .replaceAndConnect => true
  | _ => false

def State.move (s : State) (key : String) (p : Prompt) (stage : Stage) : State :=
  { s with pending := Function.update s.pending key (some { p with stage := stage }) }

/-- The key is written, and the press recorded. -/
def State.accept (s : State) (key : String) (p : Prompt) (d : Dialog) (b : Button) : State :=
  let files := s.files.accept p.id p.fp
  { s.move key p (.answered (some true)) with
    files := files
    accepted := s.accepted ++ [⟨b, d, files.knownHosts d.id⟩] }

def answer (s : State) (key : String) (p : Prompt) (d : Dialog) (response : Option Nat)
    (written : Bool) : State :=
  match d.pressed response with
  | none => s.move key p (.answered (some false))
  | some b =>
    if ¬ b.accepts then s.move key p b.stage
    else if written then s.accept key p d b
    else s.move key p (.answered none)

/-- The prompt is taken down, and all who wait on it get its verdict. -/
def settle (s : State) (key : String) (p : Prompt) (verdict : Option Bool) : State :=
  { s with
    pending := Function.update s.pending key none
    resolved := s.resolved ++
      match verdict with
      | some b => p.joined.map fun c => (c, b)
      | none => [] }

section Step
variable [Fingerprints]

def step (s : State) : Move → Option State
  | .verifyHostKey host port key allowPrompt identity openssh =>
    let id := hostId host port identity
    let trusted := hostKeyExpected (read s.files.trust) id (s.files.knownHosts id)
    some (verify s ⟨id, fingerprint key, trusted⟩ allowPrompt openssh)
  | .answer key response written => do
    let p ← s.pending key
    let d ← p.dialog
    some (answer s key p d response written)
  | .settle key => do
    let p ← s.pending key
    match p.stage with
    | .answered verdict => some (settle s key p verdict)
    | _ => none
  | .files f => some { s with files := f }

/-! ## Who was shown what -/

/-- A call whose key is the one this device already held, or was displayed for its id in a dialog
where a person accepted it. -/
def Shown (s : State) (c : Call) : Prop :=
  c.trusted = some c.fp ∨ ∃ a ∈ s.accepted, a.dialog.id = c.id ∧ a.dialog.fp = c.fp

/-- No key is trusted that nobody was shown, and what is accepted is what is written. -/
structure Sane (s : State) : Prop where
  shown : ∀ x ∈ s.resolved, x.2 = true → Shown s x.1
  written : ∀ a ∈ s.accepted, a.button.accepts = true ∧ a.written = some a.dialog.fp

/-- All who wait on a dialog that was accepted presented the key it displayed, for its id. -/
def SameKey (s : State) : Move → Prop
  | .settle key => ∀ p, s.pending key = some p → p.stage = .answered (some true) →
      ∀ c ∈ p.joined, c.id = p.id ∧ c.fp = p.fp
  | _ => True

end Step

/-- What every run keeps: a prompt that was accepted was accepted in a dialog of its own. -/
structure Kept (s : State) : Prop where
  sane : Sane s
  accepted : ∀ key p, s.pending key = some p → p.stage = .answered (some true) →
    ∃ a ∈ s.accepted, a.dialog.id = p.id ∧ a.dialog.fp = p.fp

theorem kept_start (files : Files) : Kept (.start files) where
  sane := ⟨by simp [State.start], by simp [State.start]⟩
  accepted := by simp [State.start]

theorem dialog_displays {p : Prompt} {d : Dialog} (h : p.dialog = some d) :
    d.id = p.id ∧ d.fp = p.fp := by
  unfold Prompt.dialog at h
  split at h
  · obtain rfl := Option.some.inj h
    exact ⟨rfl, rfl⟩
  · obtain rfl := Option.some.inj h
    exact ⟨rfl, rfl⟩
  · obtain rfl := Option.some.inj h
    exact ⟨rfl, rfl⟩
  · cases h

theorem Shown.mono {s s' : State} {c : Call} (h : Shown s c) (hsub : s.accepted ⊆ s'.accepted) :
    Shown s' c := by
  rcases h with h | ⟨a, ha, hsame⟩
  · exact .inl h
  · exact .inr ⟨a, hsub ha, hsame⟩

/-! ### Each move -/

section Moves
variable {s : State}

theorem Kept.resolve (h : Kept s) {c : Call} {verdict : Bool}
    (hshown : verdict = true → Shown s c) : Kept (s.resolve c verdict) := by
  refine ⟨⟨?_, h.sane.written⟩, h.accepted⟩
  intro x hx hverdict
  rcases List.mem_append.mp hx with hx | hx
  · exact (h.sane.shown x hx hverdict).mono fun _ ha => ha
  · rw [List.mem_singleton.mp hx] at hverdict ⊢
    exact (hshown hverdict).mono fun _ ha => ha

/-- Joining a prompt does not answer it. -/
theorem Kept.ask (h : Kept s) (key : String) (c : Call) (kind : Kind) : Kept (s.ask key c kind) := by
  refine ⟨⟨fun x hx hv => (h.sane.shown x hx hv).mono fun _ ha => ha, h.sane.written⟩, ?_⟩
  intro key' p hp hstage
  unfold State.ask at hp
  by_cases hkey : key' = key
  · subst hkey
    simp only [Function.update_self, Option.some.injEq] at hp
    cases hpending : s.pending key' with
    | none =>
      simp only [hpending] at hp
      subst hp
      cases hstage
    | some q =>
      simp only [hpending] at hp
      subst hp
      exact h.accepted key' q hpending hstage
  · simp only [Function.update_of_ne hkey] at hp
    exact h.accepted key' p hp hstage

theorem Kept.verify (h : Kept s) (c : Call) (allowPrompt : Bool) (openssh : OpenSsh) :
    Kept (verify s c allowPrompt openssh) := by
  unfold Prompts.verify
  split
  · rename_i htrusted
    exact h.resolve fun _ => .inl htrusted
  · split
    · exact h.ask _ c _
    · split
      · exact h.resolve nofun
      · split
        · exact h.resolve nofun
        · exact h.ask _ c _

/-- A prompt in another stage, which is not that of one that was accepted. -/
theorem Kept.moved (h : Kept s) (key : String) (p : Prompt) {stage : Stage}
    (hstage : stage ≠ .answered (some true)) :
    Kept (s.move key p stage) := by
  refine ⟨⟨fun x hx hv => (h.sane.shown x hx hv).mono fun _ ha => ha, h.sane.written⟩, ?_⟩
  intro key' q hq hanswered
  by_cases hkey : key' = key
  · subst hkey
    simp only [State.move, Function.update_self, Option.some.injEq] at hq
    subst hq
    exact absurd hanswered hstage
  · simp only [State.move, Function.update_of_ne hkey] at hq
    exact h.accepted key' q hq hanswered

/-- A press that accepts is recorded with what its dialog displays, and that is what is written. -/
theorem Kept.accept (h : Kept s) {key : String} {p : Prompt} {d : Dialog} {b : Button}
    (hd : p.dialog = some d) (hb : b.accepts = true) :
    Kept (s.accept key p d b) := by
  obtain ⟨hid, hfp⟩ := dialog_displays hd
  refine ⟨⟨fun x hx hv => (h.sane.shown x hx hv).mono fun _ ha => List.mem_append_left _ ha, ?_⟩, ?_⟩
  · intro a ha
    rcases List.mem_append.mp ha with ha | ha
    · exact h.sane.written a ha
    · rw [List.mem_singleton.mp ha]
      refine ⟨hb, ?_⟩
      simp [Files.accept, hid, hfp]
  · intro key' q hq hanswered
    by_cases hkey : key' = key
    · subst hkey
      simp only [State.accept, State.move, Function.update_self, Option.some.injEq] at hq
      subst hq
      exact ⟨_, List.mem_append_right _ (List.mem_singleton_self _), hid, hfp⟩
    · simp only [State.accept, State.move, Function.update_of_ne hkey] at hq
      obtain ⟨a, ha, hsame⟩ := h.accepted key' q hq hanswered
      exact ⟨a, List.mem_append_left _ ha, hsame⟩

theorem Kept.answer (h : Kept s) {key : String} {p : Prompt} {d : Dialog}
    (hd : p.dialog = some d) (response : Option Nat) (written : Bool) :
    Kept (answer s key p d response written) := by
  unfold Prompts.answer
  split
  · exact h.moved key p nofun
  · rename_i b _
    split
    · apply h.moved key p
      cases b <;> exact nofun
    · rename_i hb
      split
      · exact h.accept hd (by simpa using hb)
      · exact h.moved key p nofun

theorem Kept.settle (h : Kept s) {key : String} {p : Prompt} {verdict : Option Bool}
    (hp : s.pending key = some p) (hstage : p.stage = .answered verdict)
    (hsame : verdict = some true → ∀ c ∈ p.joined, c.id = p.id ∧ c.fp = p.fp) :
    Kept (settle s key p verdict) := by
  refine ⟨⟨?_, h.sane.written⟩, ?_⟩
  · intro x hx hverdict
    rcases List.mem_append.mp hx with hx | hx
    · exact (h.sane.shown x hx hverdict).mono fun _ ha => ha
    · cases verdict with
      | none => cases hx
      | some b =>
        obtain ⟨c, hc, rfl⟩ := List.mem_map.mp hx
        obtain rfl : b = true := hverdict
        obtain ⟨a, ha, hid, hfp⟩ := h.accepted key p hp hstage
        obtain ⟨hcid, hcfp⟩ := hsame rfl c hc
        exact .inr ⟨a, ha, hid.trans hcid.symm, hfp.trans hcfp.symm⟩
  · intro key' q hq hanswered
    by_cases hkey : key' = key
    · subst hkey
      simp [Prompts.settle] at hq
    · simp only [Prompts.settle, Function.update_of_ne hkey] at hq
      exact h.accepted key' q hq hanswered

end Moves

/-! ## Whole runs -/

section Runs
variable [Fingerprints]

theorem Kept.step {s s' : State} {m : Move} (h : Kept s) (hm : SameKey s m)
    (hstep : step s m = some s') : Kept s' := by
  cases m with
  | verifyHostKey host port key allowPrompt identity openssh =>
    obtain rfl := Option.some.inj hstep
    exact h.verify _ allowPrompt openssh
  | answer key response written =>
    obtain ⟨p, hp, hstep⟩ := Option.bind_eq_some_iff.mp hstep
    obtain ⟨d, hd, hstep⟩ := Option.bind_eq_some_iff.mp hstep
    obtain rfl := Option.some.inj hstep
    exact h.answer hd response written
  | settle key =>
    obtain ⟨p, hp, hstep⟩ := Option.bind_eq_some_iff.mp hstep
    cases hstage : p.stage with
    | asking => simp [hstage] at hstep
    | sure => simp [hstage] at hstep
    | answered verdict =>
      simp only [hstage, Option.some.injEq] at hstep
      subst hstep
      apply h.settle hp hstage
      intro hverdict
      exact hm p hp (hverdict ▸ hstage)
  | files f =>
    obtain rfl := Option.some.inj hstep
    exact ⟨⟨fun x hx hv => (h.sane.shown x hx hv).mono fun _ ha => ha, h.sane.written⟩, h.accepted⟩

/-- In every run in which all who wait on a dialog that is accepted presented the key it displays, a
call is answered yes only for the key this device held or one a person was shown and accepted. -/
theorem same_key_runs_are_sane {files : Files} {ms : List Move} {s : State}
    (hrun : Run step SameKey (.start files) ms s) : Sane s :=
  (hrun.invariant (kept_start files) fun _ _ _ h hm hstep => h.step hm hstep).sane

end Runs

/-! ## Two keys for one host -/

section Concrete

/-- A fingerprint that can be read. -/
@[reducible] def plainFingerprints : Fingerprints := ⟨fun key => "SHA256:" ++ toString key⟩

attribute [local instance] plainFingerprints

def strange : OpenSsh := ⟨false, false, false⟩

def fresh : Files := ⟨fun _ => none, .absent⟩

/-- A terminal and a file transfer connect at once; the second is shown another key. -/
def twoKeys : List Move :=
  [.verifyHostKey "web" 22 [1] true none strange, .verifyHostKey "web" 22 [2] true none strange,
    .answer "web:22" (some 0) true, .settle "web:22"]

def oneKey : List Move :=
  [.verifyHostKey "web" 22 [1] true none strange, .verifyHostKey "web" 22 [1] true none strange,
    .answer "web:22" (some 0) true, .settle "web:22", .verifyHostKey "web" 22 [1] false none strange]

theorem same_key_runs_are_sane_for_two :
    ∃ s, Run step SameKey (.start fresh) oneKey s ∧ s.resolved.map Prod.snd = [true, true, true] ∧
      Sane s := by
  have h₀ : Run step SameKey (.start fresh) [] _ := .refl _
  have h₁ := h₀.next (m := Move.verifyHostKey "web" 22 [1] true none strange) trivial rfl
  have h₂ := h₁.next (m := Move.verifyHostKey "web" 22 [1] true none strange) trivial rfl
  have h₃ := h₂.next (m := Move.answer "web:22" (some 0) true) trivial rfl
  have h₄ := h₃.next (m := Move.settle "web:22") (fun p hp _ => by
    obtain rfl := Option.some.inj hp
    decide +kernel) rfl
  have h₅ := h₄.next (m := Move.verifyHostKey "web" 22 [1] false none strange) trivial rfl
  exact ⟨_, h₅, by decide +kernel, same_key_runs_are_sane h₅⟩

theorem joined_key_is_trusted_unseen :
    ∃ s, Run step (fun _ _ => True) (.start fresh) twoKeys s ∧
      s.resolved.map (fun x => (x.1.fp, x.2)) =
        [(fingerprint [1], true), (fingerprint [2], true)] ∧ ¬ Sane s := by
  obtain ⟨s, hrun, hresolved, haccepted, htrusted⟩ : ∃ s, Run step (fun _ _ => True) (.start fresh)
      twoKeys s ∧ s.resolved.map (fun x => (x.1.fp, x.2)) =
        [(fingerprint [1], true), (fingerprint [2], true)] ∧
      s.accepted.map (·.dialog.fp) = [fingerprint [1]] ∧
      s.resolved[1]? = some (⟨"web:22", fingerprint [2], none⟩, true) :=
    ⟨_, (@Run.of_play _ _ _ (fun _ _ => true) _ _ _ rfl).mono fun _ _ _ => trivial,
      by decide +kernel, by decide +kernel, by decide +kernel⟩
  refine ⟨s, hrun, hresolved, ?_⟩
  intro h
  rcases h.shown _ (List.mem_of_getElem? htrusted) rfl with hheld | ⟨a, ha, -, hfp⟩
  · cases hheld
  · have hmem := List.mem_map_of_mem (f := (·.dialog.fp)) ha
    rw [haccepted, hfp] at hmem
    exact absurd hmem (by decide +kernel)

end Concrete

end OpsMaxx.Trust.Prompts
