import OpsMaxx.Jobs.Follow
import OpsMaxx.Jobs.Tracked

/-!
# No gap in a detached step's output

When a host's row is an end, what is stored of its output, redacted, and the count of elided bytes
account for every byte the cursor moved past. It is so unless the runner is disposed, or the process
stopped, while a call holds bytes it has already counted as read: the partial character of a poll,
the partial line held back for the redaction, and the ring are in memory only.
-/

set_option autoImplicit false

namespace OpsMaxx.Jobs

open OpsMaxx.Machine

/-! ## Partial characters -/

theorem incompleteBack_cons (b : UInt8) (before : List UInt8) (back : Nat) :
    incompleteBack (b :: before) back =
      if 3 < back then 0
      else if b &&& 0xc0 = 0x80 then incompleteBack before (back + 1)
      else if utf8Need b > back then back
      else 0 := rfl

/-- The walk back stops within the buffer, and only the bytes walked back over matter. -/
theorem incompleteBack_found {before : List UInt8} {back k : Nat}
    (h : incompleteBack before back = k) (hk : k ≠ 0) :
    back ≤ k ∧ k < back + before.length ∧
      incompleteBack (before.take (k + 1 - back)) back = k := by
  induction before generalizing back with
  | nil => exact absurd h.symm hk
  | cons b before ih =>
    rw [incompleteBack_cons] at h
    rw [List.length_cons]
    split_ifs at h with hfar hmiddle hneed
    · exact absurd h.symm hk
    · obtain ⟨hle, hlt, htake⟩ := ih h
      refine ⟨by omega, by omega, ?_⟩
      have hcount : k + 1 - back = (k + 1 - (back + 1)) + 1 := by omega
      rw [hcount, List.take_succ_cons, incompleteBack_cons, if_neg hfar, if_pos hmiddle]
      exact htake
    · subst h
      refine ⟨le_refl _, by omega, ?_⟩
      rw [Nat.add_sub_cancel_left, List.take_succ_cons, incompleteBack_cons, if_neg hfar,
        if_neg hmiddle, if_pos hneed]
    · exact absurd h.symm hk

theorem incompleteUtf8Tail_le (buf : List UInt8) : incompleteUtf8Tail buf ≤ buf.length := by
  by_cases hzero : incompleteUtf8Tail buf = 0
  · rw [hzero]
    exact Nat.zero_le _
  · have hlt := (incompleteBack_found rfl hzero).2.1
    rw [List.length_reverse] at hlt
    unfold incompleteUtf8Tail
    omega

/-- The bytes that wait are all of them still incomplete. -/
theorem incompleteUtf8Tail_carry (buf : List UInt8) :
    incompleteUtf8Tail (buf.drop (buf.length - incompleteUtf8Tail buf)) =
      (buf.drop (buf.length - incompleteUtf8Tail buf)).length := by
  have hle := incompleteUtf8Tail_le buf
  rw [List.length_drop, Nat.sub_sub_self hle]
  by_cases hzero : incompleteUtf8Tail buf = 0
  · rw [hzero, Nat.sub_zero, List.drop_length]
    rfl
  · have htake := (incompleteBack_found (k := incompleteUtf8Tail buf) rfl hzero).2.2
    rw [Nat.add_sub_cancel] at htake
    have hreverse : (buf.drop (buf.length - incompleteUtf8Tail buf)).reverse =
        buf.reverse.take (incompleteUtf8Tail buf) := by
      rw [List.reverse_drop, Nat.sub_sub_self hle]
    rw [incompleteUtf8Tail, hreverse]
    exact htake

/-- What a poll brought is decoded, or waits for the next one. -/
theorem parseJobPoll_decoded (decode : List UInt8 → Text) {base64 : Bool} {carry : List UInt8}
    (body : List UInt8) (announced : Nat) (hplain : base64 = false → carry = []) :
    carry ++ body = (parseJobPoll decode base64 carry announced body).decoded ++
        (parseJobPoll decode base64 carry announced body).carry ∧
      (parseJobPoll decode base64 carry announced body).text =
        decode (parseJobPoll decode base64 carry announced body).decoded ∧
      incompleteUtf8Tail (parseJobPoll decode base64 carry announced body).carry =
        (parseJobPoll decode base64 carry announced body).carry.length ∧
      (base64 = false → (parseJobPoll decode base64 carry announced body).carry = []) := by
  cases base64 with
  | true =>
    refine ⟨(List.take_append_drop _ _).symm, rfl, incompleteUtf8Tail_carry _, fun h => ?_⟩
    cases h
  | false =>
    rw [hplain rfl]
    exact ⟨(List.append_nil _).symm, rfl, rfl, fun _ => rfl⟩

/-- A poll that moves the cursor nowhere leaves the bytes that wait as they are. -/
theorem parseJobPoll_none (decode : List UInt8 → Text) {base64 : Bool} {carry body : List UInt8}
    {announced : Nat} (hplain : base64 = false → carry = [])
    (hcarry : incompleteUtf8Tail carry = carry.length) (hbody : body.length ≤ announced)
    (hnone : (parseJobPoll decode base64 carry announced body).sent = 0) :
    (parseJobPoll decode base64 carry announced body).carry = carry := by
  cases base64 with
  | true =>
    have hsent : min announced body.length = 0 := hnone
    have hnil : body = [] := List.length_eq_zero_iff.mp (by omega)
    unfold parseJobPoll
    dsimp only
    rw [if_pos rfl, hnil, List.append_nil, hcarry, Nat.sub_self, List.drop_zero]
  | false =>
    rw [hplain rfl]
    rfl

/-! ## The books -/

def redactedBytes (redact : Text → Text) (pieces : List Text) : Nat :=
  (pieces.map fun p => byteLength (redact p)).sum

theorem redactedBytes_append (redact : Text → Text) (a b : List Text) :
    redactedBytes redact (a ++ b) = redactedBytes redact a + redactedBytes redact b := by
  simp [redactedBytes]

namespace Host

/-- What was given to `pushOutput` on a stream. -/
def said (deps : FollowDeps) (h : Host) (stream : Stream) : Text :=
  h.heard.flatMap (Heard.text deps.decode stream)

/-- What the call that owns the job holds back. -/
def carried (h : Host) (stream : Stream) : Text :=
  match h.run with
  | some c => if c.owned then c.out.carry stream else []
  | none => []

/-- The bytes that are counted as elided, or are in the ring. -/
def inHand (h : Host) : Nat :=
  match h.run with
  | some c => c.out.elided + if c.owned then linesBytes c.out.tail else 0
  | none => h.row.outElided

/-- The bytes of a poll that wait for the next one. -/
def pollCarry (h : Host) : List UInt8 :=
  match h.run with
  | some c => if c.owned then (c.watch.map Watch.carry).getD [] else []
  | none => []

section InHand
variable {h : Host} {c : HostCall}

theorem carried_owned (hrun : h.run = some c) (howned : c.owned = true) (s : Stream) :
    h.carried s = c.out.carry s := by
  unfold carried
  rw [hrun]
  exact if_pos howned

theorem carried_lost (hrun : h.run = some c) (howned : ¬ c.owned = true) (s : Stream) :
    h.carried s = [] := by
  unfold carried
  rw [hrun]
  exact if_neg howned

theorem carried_none (hrun : h.run = none) (s : Stream) : h.carried s = [] := by
  unfold carried
  rw [hrun]

theorem inHand_owned (hrun : h.run = some c) (howned : c.owned = true) :
    h.inHand = c.out.elided + linesBytes c.out.tail := by
  unfold inHand
  rw [hrun]
  exact congrArg _ (if_pos howned)

theorem inHand_lost (hrun : h.run = some c) (howned : ¬ c.owned = true) :
    h.inHand = c.out.elided := by
  unfold inHand
  rw [hrun]
  exact congrArg (c.out.elided + ·) (if_neg howned)

theorem inHand_none (hrun : h.run = none) : h.inHand = h.row.outElided := by
  unfold inHand
  rw [hrun]

end InHand

section Frame
variable (deps : FollowDeps) (stream : Stream) (text : Text) (final : Bool) (h : Host)

@[simp] theorem tell_row : (h.tell deps stream text final).row = h.row := by
  unfold tell
  split
  · rfl
  · split_ifs <;> rfl

@[simp] theorem tell_marks : (h.tell deps stream text final).marks = h.marks := by
  unfold tell
  split
  · rfl
  · split_ifs <;> rfl

@[simp] theorem tell_moved : (h.tell deps stream text final).moved = h.moved := by
  unfold tell
  split
  · rfl
  · split_ifs <;> rfl

/-- A text that was told is no byte of an `out` file. -/
@[simp] theorem tell_bytes : (h.tell deps stream text final).heard.flatMap Heard.bytes =
    h.heard.flatMap Heard.bytes := by
  unfold tell
  split
  · rfl
  · split_ifs
    · exact (List.flatMap_append ..).trans (List.append_nil _)
    · rfl

@[simp] theorem flushTail_row : h.flushTail.row = h.row := by
  unfold flushTail
  split
  · rfl
  · split_ifs <;> rfl

@[simp] theorem flushTail_marks : h.flushTail.marks = h.marks := by
  unfold flushTail
  split
  · rfl
  · split_ifs <;> rfl

@[simp] theorem flushTail_moved : h.flushTail.moved = h.moved := by
  unfold flushTail
  split
  · rfl
  · split_ifs <;> rfl

@[simp] theorem flushTail_heard : h.flushTail.heard = h.heard := by
  unfold flushTail
  split
  · rfl
  · split_ifs <;> rfl

theorem mark_same (handle : Option JobDetachedHandle) :
    (h.mark handle).row = h.row ∧ (h.mark handle).output = h.output ∧
      (h.mark handle).heard = h.heard ∧ (h.mark handle).notices = h.notices ∧
        (h.mark handle).capped = h.capped ∧ (h.mark handle).run = h.run ∧
          (h.mark handle).files = h.files := by
  cases handle <;> exact ⟨rfl, rfl, rfl, rfl, rfl, rfl, rfl⟩

theorem writeRow_same (p : JobTargetPatch) :
    (h.writeRow p).row = h.row.patch p ∧ (h.writeRow p).output = h.output ∧
      (h.writeRow p).heard = h.heard ∧ (h.writeRow p).notices = h.notices ∧
        (h.writeRow p).capped = h.capped ∧ (h.writeRow p).run = h.run ∧
          (h.writeRow p).files = h.files :=
  mark_same _ _

variable {h}

theorem tell_run {c : HostCall} (hrun : h.run = some c) (hweighed : c.out.Weighed) :
    ∃ c', (h.tell deps stream text final).run = some c' ∧ c'.host = c.host ∧
      c'.watch = c.watch ∧ c'.owned = c.owned ∧
        (c.owned = true → final = true → c'.out.carry stream = []) ∧
          ∀ s, s ≠ stream → c'.out.carry s = c.out.carry s := by
  obtain ⟨_, hpushed⟩ := c.out.pushOutput_spec stream h.clock deps.redact text final hweighed
  unfold tell
  rw [hrun]
  dsimp only
  split_ifs with howned
  · exact ⟨_, rfl, rfl, rfl, rfl, fun _ hf => hpushed.emptied hf, hpushed.other⟩
  · exact ⟨c, hrun, rfl, rfl, rfl, fun h => absurd h howned, fun _ _ => rfl⟩

end Frame

end Host

/-- Every byte the cursor moved past was heard; all that was heard was redacted, in some pieces; and
every byte of what they became is stored, or counted as elided. -/
def Accounted (deps : FollowDeps) (h : Host) : Prop :=
  h.moved = h.heard.flatMap Heard.bytes ∧
    ∃ pieces : Stream → List Text, (∀ s, (pieces s).flatten = h.said deps s) ∧
      linesBytes h.output + h.row.outElided =
        redactedBytes deps.redact (pieces .out) + redactedBytes deps.redact (pieces .err) +
          h.notices + h.capped

/-- A call that holds nothing. -/
def HostCall.Empty (c : HostCall) : Prop :=
  (∀ s, c.out.carry s = []) ∧ c.out.tail = [] ∧ ∀ x ∈ c.watch, x.carry = []

/-- What goes right in every step. The runner is disposed, and the process stopped, only when the
call holds nothing and the row counts what was elided; a watch ends with no bytes waiting; a call
that was disposed took no bytes since; and without base64 the body of a poll arrives whole. -/
def Unbroken (deps : FollowDeps) (h : Host) : HostMove → Prop
  | .disposeAll => ∀ c, h.run = some c → c.owned = true → c.Empty
  | .restart => ∀ c, h.run = some c →
      (c.owned = true → c.Empty) ∧ c.out.elided = h.row.outElided
  | .settle _ => ∀ c, h.run = some c →
      (c.owned = true → ∀ x ∈ c.watch, x.carry = []) ∧
        (c.owned = false → ∀ b ∈ c.host.handle, b.readOffset ≤ h.marks b.dir)
  | .update u => u.detached = some none → ∀ c, h.run = some c → c.owned = true →
      ∀ x ∈ c.watch, x.carry = []
  | .poll announced arrived _ => ∀ c, h.run = some c → c.owned = true → ∀ x ∈ c.watch,
      x.handle.base64 = false →
        (parseJobPoll deps.decode false x.carry announced
          (((h.files x.handle.dir).drop x.handle.readOffset).take arrived)).sent = arrived
  | _ => True

/-- The books of the output. -/
structure Books (deps : FollowDeps) (h : Host) : Prop where
  weighed : ∀ c, h.run = some c → c.out.Weighed
  below : Below h.output.length h.output
  seq : ∀ c, h.run = some c → c.owned = true → c.out.seq = h.output.length
  account : ∃ pieces : Stream → List Text,
    (∀ s, (pieces s).flatten ++ h.carried s = h.said deps s) ∧
      linesBytes h.output + h.inHand =
        redactedBytes deps.redact (pieces .out) + redactedBytes deps.redact (pieces .err) +
          h.notices + h.capped

namespace Books
variable {deps : FollowDeps} {h h' : Host} {c c' : HostCall}

/-- Nothing is said, stored or counted: only the rest of the state changes. -/
theorem same (hb : Books deps h) (hrun : h.run = some c) (hrun' : h'.run = some c')
    (hout : c'.out = c.out) (howned : c'.owned = c.owned) (houtput : h'.output = h.output)
    (hsaid : ∀ s, h'.said deps s = h.said deps s) (hnotices : h'.notices = h.notices)
    (hcapped : h'.capped = h.capped) : Books deps h' := by
  have hcarried : ∀ s, h'.carried s = h.carried s := by
    intro s
    unfold Host.carried
    rw [hrun, hrun']
    dsimp only
    rw [hout, howned]
  have hinHand : h'.inHand = h.inHand := by
    unfold Host.inHand
    rw [hrun, hrun']
    dsimp only
    rw [hout, howned]
  refine ⟨fun d hd => ?_, houtput ▸ hb.below, fun d hd hown => ?_, ?_⟩
  · rw [hrun'] at hd
    cases hd
    rw [hout]
    exact hb.weighed c hrun
  · rw [hrun'] at hd
    cases hd
    rw [hout, houtput]
    exact hb.seq c hrun (howned ▸ hown)
  · obtain ⟨pieces, htext, hbytes⟩ := hb.account
    refine ⟨pieces, fun s => ?_, ?_⟩
    · rw [hcarried, htext, hsaid]
    · rw [houtput, hinHand, hnotices, hcapped]
      exact hbytes

/-- A chunk goes through `pushOutput`. -/
theorem pushed (hb : Books deps h) {stream : Stream} {raw : Text} {final : Bool} {now : Nat}
    (hrun : h.run = some c) (howned : c.owned = true) (hrun' : h'.run = some c')
    (howned' : c'.owned = true)
    (hout : c'.out = (c.out.pushOutput deps.redact stream raw final now).1)
    (houtput : h'.output =
      appendJobOutput h.output (c.out.pushOutput deps.redact stream raw final now).2)
    (hsaid : ∀ s, h'.said deps s = h.said deps s ++ if s = stream then raw else [])
    (hnotices : h'.notices = h.notices) (hcapped : h'.capped = h.capped) : Books deps h' := by
  obtain ⟨more, hpushed⟩ := c.out.pushOutput_spec stream now deps.redact raw final
    (hb.weighed c hrun)
  have hseq := hb.seq c hrun howned
  have hbelow := hb.below
  rw [← hseq] at hbelow
  obtain ⟨happend, hafter⟩ := appendJobOutput_below hbelow
    (c.out.pushOutput deps.redact stream raw final now).2
  rw [← hpushed.numbers] at happend hafter
  rw [happend] at houtput
  have hlength : c'.out.seq = h'.output.length := by
    rw [hout, hpushed.seq, houtput, List.length_append, hseq]
  refine ⟨fun d hd => ?_, ?_, fun d hd _ => ?_, ?_⟩
  · rw [hrun'] at hd
    cases hd
    rw [hout]
    exact hpushed.weighed
  · rw [← hlength, hout, hpushed.seq, houtput]
    exact hafter
  · rw [hrun'] at hd
    cases hd
    exact hlength
  · obtain ⟨pieces, htext, hbytes⟩ := hb.account
    refine ⟨fun s => if s = stream then pieces s ++ more else pieces s, fun s => ?_, ?_⟩
    · rw [hsaid, ← htext, Host.carried_owned hrun howned, Host.carried_owned hrun' howned', hout]
      dsimp only
      by_cases hs : s = stream
      · subst hs
        rw [if_pos rfl, if_pos rfl, List.flatten_append, List.append_assoc, List.append_assoc,
          hpushed.text]
      · rw [if_neg hs, if_neg hs, List.append_nil, hpushed.other s hs]
    · have hmore := hpushed.bytes
      rw [← hout] at hmore
      rw [Host.inHand_owned hrun howned] at hbytes
      rw [houtput, linesBytes_append, Host.inHand_owned hrun' howned', hnotices, hcapped]
      have hsum : redactedBytes deps.redact (if Stream.out = stream then pieces .out ++ more
            else pieces .out) +
          redactedBytes deps.redact (if Stream.err = stream then pieces .err ++ more
            else pieces .err) =
          redactedBytes deps.redact (pieces .out) + redactedBytes deps.redact (pieces .err) +
            redactedBytes deps.redact more := by
        cases stream with
        | out =>
          rw [if_pos rfl, if_neg (by decide), redactedBytes_append]
          omega
        | err =>
          rw [if_neg (by decide), if_pos rfl, redactedBytes_append]
          omega
      rw [hsum]
      have hnew : (more.map fun p => byteLength (deps.redact p)).sum =
          redactedBytes deps.redact more := rfl
      rw [hnew] at hmore
      omega

theorem tell (hb : Books deps h) (stream : Stream) (text : Text) (final : Bool) :
    Books deps (h.tell deps stream text final) := by
  unfold Host.tell
  cases hrun : h.run with
  | none => exact hb
  | some c =>
    dsimp only
    split_ifs with howned
    · refine hb.pushed hrun howned rfl howned rfl rfl (fun s => ?_) rfl rfl
      rw [Host.said, Host.said, List.flatMap_append, List.flatMap_singleton]
      rfl
    · exact hb

theorem flushTail (hb : Books deps h) : Books deps h.flushTail := by
  unfold Host.flushTail
  cases hrun : h.run with
  | none => exact hb
  | some c =>
    have hweighed := hb.weighed c hrun
    dsimp only
    split_ifs with howned
    · obtain ⟨htail, hweighed', helided, hcarry, hbytes, hnumbers, hseq'⟩ :=
        c.out.flushTail_spec h.clock hweighed
      have hseq := hb.seq c hrun howned
      have hbelow := hb.below
      rw [← hseq] at hbelow
      obtain ⟨happend, hafter⟩ := appendJobOutput_below hbelow (c.out.flushTail h.clock).2
      rw [← hnumbers] at happend hafter
      refine ⟨fun d hd => ?_, ?_, fun d hd _ => ?_, ?_⟩
      · cases hd
        exact hweighed'
      · dsimp only
        rw [happend, List.length_append, ← hseq]
        exact hafter
      · cases hd
        dsimp only
        rw [happend, List.length_append, hseq', hseq]
      · obtain ⟨pieces, htext, haccount⟩ := hb.account
        refine ⟨pieces, fun s => ?_, ?_⟩
        · rw [Host.carried_owned rfl (by exact howned)]
          dsimp only
          rw [hcarry, ← Host.carried_owned hrun howned]
          exact htext s
        · rw [Host.inHand_owned hrun howned] at haccount
          rw [Host.inHand_owned rfl (by exact howned)]
          dsimp only
          rw [happend, linesBytes_append, hbytes, helided, htail, linesBytes_nil]
          omega
    · refine ⟨fun d hd => ?_, hb.below, fun d hd hown => ?_, ?_⟩
      · cases hd
        rfl
      · cases hd
        exact absurd hown howned
      · obtain ⟨pieces, htext, haccount⟩ := hb.account
        refine ⟨pieces, fun s => ?_, ?_⟩
        · rw [Host.carried_lost rfl (by exact howned), ← Host.carried_lost hrun howned s]
          exact htext s
        · rw [Host.inHand_lost rfl (by exact howned)]
          rw [Host.inHand_lost hrun howned] at haccount
          exact haccount

/-- What is held back, written at the end of `runOne`. -/
theorem flushed (hb : Books deps h) (hrun : h.run = some c) :
    ∃ c', ((h.tell deps .out [] true).tell deps .err [] true).flushTail.run = some c' ∧
      c'.host = c.host ∧ c'.watch = c.watch ∧ c'.owned = c.owned ∧
        (c.owned = true → (∀ s, c'.out.carry s = []) ∧ c'.out.tail = []) := by
  obtain ⟨c₁, hrun₁, hhost₁, hwatch₁, howned₁, hempty₁, hother₁⟩ :=
    Host.tell_run deps .out [] true hrun (hb.weighed c hrun)
  have hb₁ := hb.tell .out [] true
  obtain ⟨c₂, hrun₂, hhost₂, hwatch₂, howned₂, hempty₂, hother₂⟩ :=
    Host.tell_run deps .err [] true hrun₁ (hb₁.weighed c₁ hrun₁)
  have hb₂ := hb₁.tell .err [] true
  unfold Host.flushTail
  rw [hrun₂]
  dsimp only
  have hhost := hhost₂.trans hhost₁
  have hwatch := hwatch₂.trans hwatch₁
  have howned := howned₂.trans howned₁
  split_ifs with how
  · obtain ⟨htail, -, -, hcarry, -⟩ := c₂.out.flushTail_spec
      ((h.tell deps .out [] true).tell deps .err [] true).clock (hb₂.weighed c₂ hrun₂)
    refine ⟨_, rfl, hhost, hwatch, howned, fun hown => ⟨fun s => ?_, htail⟩⟩
    rw [hcarry]
    cases s with
    | out => exact (hother₂ .out (by decide)).trans (hempty₁ hown rfl)
    | err => exact hempty₂ (howned₁.trans hown) rfl
  · refine ⟨_, rfl, hhost, hwatch, howned, fun hown => ?_⟩
    exact absurd (howned.trans hown) how

theorem mark (hb : Books deps h) (handle : Option JobDetachedHandle) :
    Books deps (h.mark handle) := by
  cases handle with
  | none => exact hb
  | some handle => exact ⟨hb.weighed, hb.below, hb.seq, hb.account⟩

/-- While a call runs the row has no part in the books. -/
theorem writeRow (hb : Books deps h) (hrun : h.run = some c) (p : JobTargetPatch) :
    Books deps (h.writeRow p) := by
  have hsame : Books deps { h with row := h.row.patch p } :=
    hb.same hrun hrun rfl rfl rfl (fun _ => rfl) rfl rfl
  exact hsame.mark _

theorem endRun (hb : Books deps h) (hrun : h.run = some c) (e : StepsEnd) :
    Books deps (h.endRun deps e) := by
  obtain ⟨c', hrun', -, -, howned, hempty⟩ := hb.flushed hrun
  have hb' := ((hb.tell .out [] true).tell .err [] true).flushTail
  unfold Host.endRun
  dsimp only
  rw [hrun']
  dsimp only
  generalize ((h.tell deps .out [] true).tell deps .err [] true).flushTail = g at hrun' hb' ⊢
  obtain ⟨pieces, htext, haccount⟩ := hb'.account
  have hcarried : ∀ s, g.carried s = [] := by
    intro s
    by_cases hown : c'.owned = true
    · rw [Host.carried_owned hrun' hown]
      exact (hempty (howned ▸ hown)).1 s
    · exact Host.carried_lost hrun' hown s
  have hinHand : g.inHand = c'.out.elided := by
    by_cases hown : c'.owned = true
    · rw [Host.inHand_owned hrun' hown, (hempty (howned ▸ hown)).2]
      rfl
    · exact Host.inHand_lost hrun' hown
  have hpatch : ∀ p : JobTargetPatch, p.outElided = some c'.out.elided →
      Books deps { g.writeRow p with run := none } := by
    intro p hp
    obtain ⟨hrow, houtput, hheard, hnotices, hcapped, -, -⟩ := g.writeRow_same p
    refine ⟨fun d hd => (by cases hd), ?_, fun d hd => (by cases hd), pieces, fun s => ?_, ?_⟩
    · dsimp only
      rw [houtput]
      exact hb'.below
    · rw [Host.carried_none rfl, Host.said]
      dsimp only
      rw [hheard, ← hcarried s]
      exact htext s
    · rw [Host.inHand_none rfl]
      dsimp only
      rw [houtput, hrow, hnotices, hcapped, ← haccount, hinHand]
      exact congrArg (linesBytes g.output + ·) (congrArg (Option.getD · g.row.outElided) hp)
  split_ifs
  · exact hpatch _ rfl
  · refine hpatch _ ?_
    unfold disposedPatch
    split <;> rfl

/-- The step of `c` is entered, with the output as it was. -/
theorem enter {req : JobRunRequest} (hb : Books deps { h with run := some c }) :
    Books deps (h.enter req deps c) := by
  unfold Host.enter
  dsimp only
  split_ifs
  · exact hb.tell _ _ _
  · exact hb

theorem runOne {req : JobRunRequest} (hb : Books deps { h with run := some c }) :
    Books deps (h.runOne req deps c) := by
  unfold Host.runOne
  split_ifs
  · exact hb.enter
  · exact hb.endRun rfl _

theorem tellText (hb : Books deps h) (stream : Stream) (text : String) :
    Books deps (h.tellText deps stream text) := by
  unfold Host.tellText
  split_ifs
  · exact hb
  · exact hb.tell _ _ _

theorem deliver (hb : Books deps h) (r : JobExecResult) : Books deps (h.deliver deps r) := by
  have hsaid := (hb.tellText .out r.stdout).tellText .err r.stderr
  unfold Host.deliver
  dsimp only
  generalize (h.tellText deps .out r.stdout).tellText deps .err r.stderr = g at hsaid ⊢
  split
  · exact hsaid
  · rename_i c hrun
    obtain ⟨pieces, htext, haccount⟩ := hsaid.account
    refine ⟨fun d hd => ?_, hsaid.below, fun d hd hown => ?_, pieces, fun s => ?_, ?_⟩
    · cases hd
      exact hsaid.weighed c hrun
    · cases hd
      exact hsaid.seq c hrun hown
    · refine (congrArg ((pieces s).flatten ++ ·) ?_).trans (htext s)
      by_cases hown : c.owned = true
      · rw [Host.carried_owned rfl (by exact hown), Host.carried_owned hrun hown]
      · rw [Host.carried_lost rfl (by exact hown), Host.carried_lost hrun hown]
    · by_cases hown : c.owned = true
      · rw [Host.inHand_owned hrun hown] at haccount
        rw [Host.inHand_owned rfl (by exact hown)]
        dsimp only
        omega
      · rw [Host.inHand_lost hrun hown] at haccount
        rw [Host.inHand_lost rfl (by exact hown)]
        dsimp only
        omega

theorem goOn {req : JobRunRequest} (hb : Books deps h) (next : HostRun ⊕ StepsEnd) :
    Books deps (h.goOn req deps next) := by
  unfold Host.goOn
  cases hrun : h.run with
  | none => exact hb
  | some c =>
    dsimp only
    cases next with
    | inl host =>
      have hsame : Books deps { h with run := some { c with host := host, watch := none } } :=
        hb.same hrun rfl rfl rfl rfl (fun _ => rfl) rfl rfl
      exact hsame.enter
    | inr e => exact hb.endRun hrun e

theorem settle {req : JobRunRequest} {s : World.Settled} (hb : Books deps h)
    (hstep : h.settle req deps s = some h') : Books deps h' := by
  unfold Host.settle at hstep
  cases hrun : h.run with
  | none => simp [hrun] at hstep
  | some c =>
    simp only [hrun] at hstep
    cases s with
    | fulfilled r =>
      dsimp only at hstep
      split_ifs at hstep
      cases hstep
      exact (hb.deliver r).goOn _
    | rejected message =>
      cases hstep
      exact hb.goOn _
    | stalled =>
      cases hstep
      exact hb.goOn _

/-- A call that starts, or follows the host again, goes on where the row and the store are. -/
theorem opened (hb : Books deps h) (hrun : h.run = none) (hrun' : h'.run = some c)
    (bytes : Nat) (hout : c.out = .fresh h.output.length bytes h.row.outElided)
    (howned : c.owned = true) (houtput : h'.output = h.output) (hheard : h'.heard = h.heard)
    (hnotices : h'.notices = h.notices) (hcapped : h'.capped = h.capped) : Books deps h' := by
  refine ⟨fun d hd => ?_, houtput ▸ hb.below, fun d hd _ => ?_, ?_⟩
  · rw [hrun'] at hd
    cases hd
    rw [hout]
    rfl
  · rw [hrun'] at hd
    cases hd
    rw [hout, houtput]
    rfl
  · obtain ⟨pieces, htext, haccount⟩ := hb.account
    refine ⟨pieces, fun s => ?_, ?_⟩
    · have hsaid : h'.said deps s = h.said deps s := by rw [Host.said, Host.said, hheard]
      rw [Host.carried_owned hrun' howned, hout, hsaid, ← htext s, Host.carried_none hrun]
      rfl
    · rw [Host.inHand_none hrun] at haccount
      rw [Host.inHand_owned hrun' howned, hout, houtput, hnotices, hcapped]
      exact haccount

end Books

/-! ## A poll -/

section Poll
variable {deps : FollowDeps} {h h' : Host} {announced arrived : Nat} {boot : Option String}

/-- The bytes past the cursor. -/
def Host.unread (h : Host) (x : Watch) : List UInt8 :=
  (h.files x.handle.dir).drop x.handle.readOffset

/-- The call after a poll that moved the cursor. -/
def HostCall.polled (c : HostCall) (x : Watch) (body : JobPollBody) (boot : Option String)
    (out : HostOutput) : HostCall :=
  { c with
    host := { c.host with handle := some (Host.polledHandle x body boot) }
    out := out
    watch := some ⟨Host.polledHandle x body boot, body.carry⟩ }

/-- What a poll makes of the output. -/
def HostCall.pushPoll (deps : FollowDeps) (c : HostCall) (body : JobPollBody) (now : Nat) :
    HostOutput × List JobOutputLine :=
  if c.owned = true ∧ body.text ≠ [] then
    c.out.pushOutput deps.redact .out body.text false now
  else (c.out, [])

/-- What a poll does: it brings nothing, it is heard and the cursor written, or it comes too late. -/
inductive Polls (deps : FollowDeps) (h : Host) (c : HostCall) (x : Watch) (body : JobPollBody)
    (boot : Option String) : Host → Prop
  | nothing (hsent : body.sent = 0) :
      Polls deps h c x body boot
        { h with run := some { c with watch := some ⟨x.handle, body.carry⟩ } }
  | heard (hsent : body.sent ≠ 0) (howned : c.owned = true) :
      Polls deps h c x body boot
        ({ h with
          run := some (c.polled x body boot (c.pushPoll deps body h.clock).1)
          output := appendJobOutput h.output (c.pushPoll deps body h.clock).2
          heard := h.heard ++ [Heard.polled body.decoded] }.writeRow
            { detached := some (some (Host.polledHandle x body boot)) })
  | late (hsent : body.sent ≠ 0) (howned : ¬ c.owned = true) :
      Polls deps h c x body boot { h with run := some (c.polled x body boot c.out) }

theorem poll_polls (hstep : h.poll deps announced arrived boot = some h') :
    ∃ c x, h.run = some c ∧ c.watch = some x ∧ arrived ≤ announced ∧
      announced ≤ (h.unread x).length ∧
        Polls deps h c x (parseJobPoll deps.decode x.handle.base64 x.carry announced
          ((h.unread x).take arrived)) boot h' := by
  unfold Host.poll at hstep
  cases hrun : h.run with
  | none => simp [hrun] at hstep
  | some c =>
    simp only [hrun] at hstep
    cases hwatch : c.watch with
    | none => simp [hwatch] at hstep
    | some x =>
      simp only [hwatch] at hstep
      by_cases hfits : arrived ≤ announced ∧ announced ≤ (h.unread x).length
      · rw [if_pos (by exact hfits)] at hstep
        refine ⟨c, x, rfl, hwatch, hfits.1, hfits.2, ?_⟩
        change (if (parseJobPoll deps.decode x.handle.base64 x.carry announced
          ((h.unread x).take arrived)).sent = 0 then _ else _) = some h' at hstep
        by_cases hnone : (parseJobPoll deps.decode x.handle.base64 x.carry announced
          ((h.unread x).take arrived)).sent = 0
        · rw [if_pos hnone] at hstep
          cases hstep
          exact .nothing hnone
        · rw [if_neg hnone] at hstep
          by_cases howned : c.owned = true
          · rw [if_pos howned, if_pos howned] at hstep
            cases hstep
            exact .heard hnone howned
          · rw [if_neg howned, if_neg howned, if_neg fun h => howned h.1] at hstep
            cases hstep
            exact .late hnone howned
      · rw [if_neg (by exact hfits)] at hstep
        cases hstep

theorem said_polled (deps : FollowDeps) (heard : List Heard) (bytes : List UInt8) (s : Stream) :
    (heard ++ [Heard.polled bytes]).flatMap (Heard.text deps.decode s) =
      heard.flatMap (Heard.text deps.decode s) ++ if s = .out then deps.decode bytes else [] := by
  rw [List.flatMap_append, List.flatMap_singleton]
  rfl

theorem Books.poll (hb : Books deps h) (hplain : ∀ c x, h.run = some c → c.watch = some x →
      x.handle.base64 = false → x.carry = [])
    (hstep : h.poll deps announced arrived boot = some h') : Books deps h' := by
  obtain ⟨c, x, hrun, hwatch, -, -, hpolls⟩ := poll_polls hstep
  obtain ⟨-, htext, -⟩ := parseJobPoll_decoded deps.decode
    ((h.unread x).take arrived) announced (hplain c x hrun hwatch)
  generalize parseJobPoll deps.decode x.handle.base64 x.carry announced
    ((h.unread x).take arrived) = body at hpolls htext
  cases hpolls with
  | nothing hsent => exact hb.same hrun rfl rfl rfl rfl (fun _ => rfl) rfl rfl
  | heard hsent howned =>
    refine Books.writeRow ?_ rfl _
    unfold HostCall.pushPoll
    by_cases hempty : body.text = []
    · rw [if_neg fun h => h.2 hempty]
      refine hb.same hrun rfl rfl rfl rfl (fun s => ?_) rfl rfl
      have hnil : (if s = .out then deps.decode body.decoded else []) = [] := by
        rw [← htext, hempty]
        exact ite_self _
      exact (said_polled deps h.heard body.decoded s).trans (by rw [hnil, List.append_nil]; rfl)
    · rw [if_pos ⟨howned, hempty⟩]
      refine hb.pushed hrun howned rfl howned rfl rfl (fun s => ?_) rfl rfl
      rw [htext]
      exact said_polled deps h.heard body.decoded s
  | late hsent howned => exact hb.same hrun rfl rfl rfl rfl (fun _ => rfl) rfl rfl

end Poll

/-! ## The row of a host that runs -/

structure Live (h : Host) : Prop where
  live : ∀ c, h.run = some c → isJobHostLive h.row.state = true ∧ h.row.state ≠ .pending
  fresh : h.row.state = .pending → h.output = [] ∧ h.row.outElided = 0 ∧ h.row.detached = none

theorem Live.of_state {h : Host} (hlive : h.run = none ∨ isJobHostLive h.row.state = true)
    (hnot : h.row.state ≠ .pending) : Live h := by
  refine ⟨fun c hrun => ⟨?_, hnot⟩, fun hpending => absurd hpending hnot⟩
  rcases hlive with hnone | hlive
  · rw [hnone] at hrun
    cases hrun
  · exact hlive

/-- A call writes no row that was never started, and an executor does not end a host as one. -/
theorem endRun_state {deps : FollowDeps} {h : Host} {c : HostCall} (hb : Books deps h)
    (hrun : h.run = some c) (e : StepsEnd)
    (hend : c.owned = true → e.state = .ok ∨ e.state = .failed ∨ e.state = .orphaned) :
    (h.endRun deps e).run = none ∧
      (if c.owned = true then isJobHostLive (h.endRun deps e).row.state = false
        else (h.endRun deps e).row.state = .detached ∨ (h.endRun deps e).row.state = .failed) ∧
      (h.endRun deps e).row.state ≠ .pending := by
  obtain ⟨c', hrun', -, -, howned, -⟩ := hb.flushed hrun
  unfold Host.endRun
  dsimp only
  rw [hrun']
  dsimp only
  rw [howned]
  refine ⟨rfl, ?_⟩
  generalize ((h.tell deps .out [] true).tell deps .err [] true).flushTail = g
  have hrow := fun p => (g.writeRow_same p).1
  split_ifs with hown
  · rw [hrow]
    rcases hend hown with hstate | hstate | hstate <;>
      simp [StepsEnd.terminalPatch, JobHostRow.patch, hstate, isJobHostLive, JOB_HOST_LIVE_STATES]
  · rw [hrow]
    unfold disposedPatch
    split <;> simp [JobHostRow.patch]

/-- What an executor may hand back ends a host that is owned. -/
theorem returnable_ends {req : JobRunRequest} {c : HostCall} {s : World.Settled} {e : StepsEnd}
    (hend : World.settled req c.owned c.host s = .inr e) (howned : c.owned = true)
    (hreturn : ∀ r, s = .fulfilled r → Host.returnable c r = true) :
    e.state = .ok ∨ e.state = .failed ∨ e.state = .orphaned := by
  refine settled_ends hend fun r hr t ht => ?_
  have hstate := (Bool.and_eq_true_iff.mp (hreturn r hr)).2
  rw [Option.mem_def.mp ht] at hstate
  simp only [howned, Bool.not_true, Bool.and_false, Bool.or_false, decide_eq_true_eq] at hstate
  exact Or.inr (Or.inr hstate)

namespace Host
variable {req : JobRunRequest} {deps : FollowDeps} {h : Host} {c : HostCall}

theorem enter_row : (h.enter req deps c).row = h.row := by
  unfold enter
  dsimp only
  split_ifs
  · rw [tell_row]
  · rfl

theorem tellText_same (deps : FollowDeps) (h : Host) (stream : Stream) (text : String) :
    (h.tellText deps stream text).row = h.row ∧ (h.tellText deps stream text).marks = h.marks ∧
      (h.tellText deps stream text).moved = h.moved ∧
        (h.tellText deps stream text).heard.flatMap Heard.bytes =
          h.heard.flatMap Heard.bytes := by
  unfold tellText
  split_ifs <;> simp

theorem tellText_run (hb : Books deps h) (hrun : h.run = some c) (stream : Stream)
    (text : String) : ∃ c', (h.tellText deps stream text).run = some c' ∧ c'.host = c.host ∧
      c'.watch = c.watch ∧ c'.owned = c.owned := by
  unfold tellText
  split_ifs
  · exact ⟨c, hrun, rfl, rfl, rfl⟩
  · obtain ⟨c', hrun', hhost, hwatch, howned, -⟩ :=
      tell_run deps stream text.toList false hrun (hb.weighed c hrun)
    exact ⟨c', hrun', hhost, hwatch, howned⟩

/-- What was returned is told, and counted; nothing else changes. -/
theorem deliver_same (deps : FollowDeps) (h : Host) (r : JobExecResult) :
    (h.deliver deps r).row = h.row ∧ (h.deliver deps r).marks = h.marks ∧
      (h.deliver deps r).moved = h.moved ∧
        (h.deliver deps r).heard.flatMap Heard.bytes = h.heard.flatMap Heard.bytes := by
  obtain ⟨hrow, hmarks, hmoved, hheard⟩ := tellText_same deps h .out r.stdout
  obtain ⟨hrow', hmarks', hmoved', hheard'⟩ :=
    tellText_same deps (h.tellText deps .out r.stdout) .err r.stderr
  unfold deliver
  dsimp only
  split <;> exact ⟨hrow'.trans hrow, hmarks'.trans hmarks, hmoved'.trans hmoved,
    hheard'.trans hheard⟩

theorem deliver_run (hb : Books deps h) (hrun : h.run = some c) (r : JobExecResult) :
    ∃ c', (h.deliver deps r).run = some c' ∧ c'.host = c.host ∧ c'.watch = c.watch ∧
      c'.owned = c.owned := by
  obtain ⟨d, hd, hhost, hwatch, howned⟩ := tellText_run hb hrun .out r.stdout
  obtain ⟨d', hd', hhost', hwatch', howned'⟩ :=
    tellText_run (hb.tellText .out r.stdout) hd .err r.stderr
  unfold deliver
  dsimp only
  rw [hd']
  exact ⟨_, rfl, hhost'.trans hhost, hwatch'.trans hwatch, howned'.trans howned⟩

end Host

namespace Live
variable {req : JobRunRequest} {deps : FollowDeps} {h h' : Host} {c : HostCall}

theorem keeps (hl : Live h) (hrun : h.run = some c) (hrow : h'.row.state = h.row.state) :
    Live h' := by
  obtain ⟨hlive, hnot⟩ := hl.live c hrun
  exact .of_state (Or.inr (hrow ▸ hlive)) (hrow ▸ hnot)

theorem tell (hl : Live h) (stream : Stream) (text : Text) (final : Bool) :
    Live (h.tell deps stream text final) := by
  cases hrun : h.run with
  | none =>
    unfold Host.tell
    rw [hrun]
    exact hl
  | some c => exact hl.keeps hrun (by rw [Host.tell_row])

theorem endRun (hb : Books deps h) (hrun : h.run = some c) {e : StepsEnd}
    (hend : c.owned = true → e.state = .ok ∨ e.state = .failed ∨ e.state = .orphaned) :
    Live (h.endRun deps e) := by
  obtain ⟨hnone, -, hnot⟩ := endRun_state hb hrun e hend
  exact .of_state (Or.inl hnone) hnot

theorem runOne (hb : Books deps { h with run := some c })
    (hlive : isJobHostLive h.row.state = true) (hnot : h.row.state ≠ .pending) :
    Live (h.runOne req deps c) := by
  unfold Host.runOne
  split_ifs
  · refine .of_state (Or.inr ?_) ?_
    · rw [Host.enter_row]
      exact hlive
    · rw [Host.enter_row]
      exact hnot
  · exact endRun hb rfl fun _ => Or.inr (Or.inl rfl)

theorem settle {s : World.Settled} (hl : Live h) (hb : Books deps h)
    (hstep : h.settle req deps s = some h') : Live h' := by
  unfold Host.settle at hstep
  cases hrun : h.run with
  | none => simp [hrun] at hstep
  | some c =>
    simp only [hrun] at hstep
    have hgoes : ∀ (g : Host) (d : HostCall), Books deps g → g.run = some d →
        d.owned = c.owned → g.row = h.row →
          (∀ r, s = .fulfilled r → Host.returnable c r = true) →
            Live (g.goOn req deps (World.settled req c.owned c.host s)) := by
      intro g d hg hd howned hrow hreturn
      unfold Host.goOn
      rw [hd]
      dsimp only
      cases hnext : World.settled req c.owned c.host s with
      | inl host =>
        refine hl.keeps hrun ?_
        dsimp only
        rw [Host.enter_row, hrow]
      | inr e =>
        refine endRun hg hd fun hown => ?_
        exact returnable_ends hnext (howned ▸ hown) hreturn
    cases s with
    | fulfilled r =>
      dsimp only at hstep
      split_ifs at hstep with hreturn
      cases hstep
      obtain ⟨d, hd, -, -, howned⟩ := Host.deliver_run hb hrun r
      refine hgoes _ d (hb.deliver r) hd howned (Host.deliver_same deps h r).1 fun r' hr' => ?_
      cases hr'
      exact hreturn
    | rejected message =>
      cases hstep
      exact hgoes h c hb hrun rfl rfl fun r hr => (by cases hr)
    | stalled =>
      cases hstep
      exact hgoes h c hb hrun rfl rfl fun r hr => (by cases hr)

end Live

/-! ## The cursor -/

/-- A handle whose bytes the cursor has moved past already. -/
def Host.Reached (h : Host) (b : JobDetachedHandle) : Prop := b.readOffset ≤ h.marks b.dir

/-- Where the cursor is: on the row of a host that runs, it is where the row's directory was read
to; the call that owns the job holds the row's handle; and the bytes it moved past were heard, but
for those of a partial character. -/
structure Cursor (h : Host) : Prop where
  moved : h.moved = h.heard.flatMap Heard.bytes ++ h.pollCarry
  carry : ∀ c x, h.run = some c → c.watch = some x →
    incompleteUtf8Tail x.carry = x.carry.length ∧ (x.handle.base64 = false → x.carry = [])
  watch : ∀ c x, h.run = some c → c.watch = some x → c.host.handle = some x.handle
  owned : ∀ c, h.run = some c → c.owned = true → h.row.detached = c.host.handle
  ahead : ∀ c b, h.run = some c → c.host.handle = some b → h.marks b.dir ≤ b.readOffset
  row : isJobHostLive h.row.state = true → ∀ b, h.row.detached = some b →
    b.readOffset = h.marks b.dir
  result : ∀ c r b, h.run = some c → c.host.result = some r →
    r.detachedHandle = some (some b) → h.Reached b

/-- A handle that was reached moves no cursor. -/
theorem mark_reached {h : Host} {handle : Option JobDetachedHandle}
    (hreached : ∀ b, handle = some b → h.Reached b) : h.mark handle = h := by
  cases handle with
  | none => rfl
  | some b =>
    have hle : b.readOffset ≤ h.marks b.dir := hreached b rfl
    have hmarks : (fun dir => if dir = b.dir then max (h.marks dir) b.readOffset
        else h.marks dir) = h.marks := by
      funext dir
      split_ifs with hdir
      · rw [hdir]
        exact max_eq_left hle
      · rfl
    unfold Host.mark
    dsimp only
    rw [hmarks, Nat.sub_eq_zero_of_le hle, List.take_zero, List.append_nil]

theorem writeRow_reached {h : Host} {p : JobTargetPatch}
    (hreached : ∀ b, (h.row.patch p).detached = some b → h.Reached b) :
    h.writeRow p = { h with row := h.row.patch p } :=
  mark_reached (h := { h with row := h.row.patch p }) hreached

namespace Host
variable {h : Host} {c : HostCall}

theorem pollCarry_owned (hrun : h.run = some c) (howned : c.owned = true) :
    h.pollCarry = (c.watch.map Watch.carry).getD [] := by
  unfold pollCarry
  rw [hrun]
  exact if_pos howned

theorem pollCarry_lost (hrun : h.run = some c) (howned : ¬ c.owned = true) :
    h.pollCarry = [] := by
  unfold pollCarry
  rw [hrun]
  exact if_neg howned

theorem pollCarry_none (hrun : h.run = none) : h.pollCarry = [] := by
  unfold pollCarry
  rw [hrun]

/-- With nothing waiting in the watch, nothing waits. -/
theorem pollCarry_empty (hrun : h.run = some c)
    (hempty : c.owned = true → ∀ x ∈ c.watch, x.carry = []) : h.pollCarry = [] := by
  by_cases howned : c.owned = true
  · rw [pollCarry_owned hrun howned]
    cases hwatch : c.watch with
    | none => rfl
    | some x => exact hempty howned x (by rw [hwatch]; rfl)
  · exact pollCarry_lost hrun howned

end Host

namespace Cursor
variable {req : JobRunRequest} {deps : FollowDeps} {h h' : Host} {c c' : HostCall}

/-- The handle of a call that owns the job is reached. -/
theorem reached (hc : Cursor h) (hl : Live h) (hrun : h.run = some c) (howned : c.owned = true)
    {b : JobDetachedHandle} (hb : c.host.handle = some b) : h.Reached b :=
  (hc.row (hl.live c hrun).1 b ((hc.owned c hrun howned).trans hb)).le

/-- Only the output changes. -/
theorem same (hc : Cursor h) (hrun : h.run = some c) (hrun' : h'.run = some c')
    (hhost : c'.host = c.host) (hwatch : c'.watch = c.watch) (howned : c'.owned = c.owned)
    (hrow : h'.row = h.row) (hmarks : h'.marks = h.marks) (hmoved : h'.moved = h.moved)
    (hheard : h'.heard.flatMap Heard.bytes = h.heard.flatMap Heard.bytes) : Cursor h' := by
  have hcarry : h'.pollCarry = h.pollCarry := by
    unfold Host.pollCarry
    rw [hrun, hrun']
    dsimp only
    rw [howned, hwatch]
  have hcall : ∀ d, h'.run = some d → d = c' := by
    intro d hd
    rw [hrun'] at hd
    exact (Option.some.inj hd).symm
  refine ⟨?_, fun d x hd hx => ?_, fun d x hd hx => ?_, fun d hd hown => ?_, fun d b hd hb => ?_,
    ?_, fun d r b hd hr hb => ?_⟩
  · rw [hmoved, hheard, hcarry]
    exact hc.moved
  · rw [hcall d hd, hwatch] at hx
    exact hc.carry c x hrun hx
  · rw [hcall d hd] at hx ⊢
    rw [hwatch] at hx
    rw [hhost]
    exact hc.watch c x hrun hx
  · rw [hcall d hd] at hown ⊢
    rw [hrow, hhost]
    exact hc.owned c hrun (howned ▸ hown)
  · rw [hcall d hd, hhost] at hb
    rw [hmarks]
    exact hc.ahead c b hrun hb
  · rw [hrow, hmarks]
    exact hc.row
  · rw [hcall d hd, hhost] at hr
    unfold Host.Reached
    rw [hmarks]
    exact hc.result c r b hrun hr hb

theorem tell (hc : Cursor h) (hb : Books deps h) (stream : Stream) (text : Text) (final : Bool) :
    Cursor (h.tell deps stream text final) := by
  cases hrun : h.run with
  | none =>
    unfold Host.tell
    rw [hrun]
    exact hc
  | some c =>
    obtain ⟨c', hrun', hhost, hwatch, howned, -⟩ :=
      Host.tell_run deps stream text final hrun (hb.weighed c hrun)
    exact hc.same hrun hrun' hhost hwatch howned (Host.tell_row ..) (Host.tell_marks ..)
      (Host.tell_moved ..) (Host.tell_bytes ..)

theorem flushed (hc : Cursor h) (hb : Books deps h) (hrun : h.run = some c) :
    Cursor ((h.tell deps .out [] true).tell deps .err [] true).flushTail := by
  obtain ⟨c', hrun', hhost, hwatch, howned, -⟩ := hb.flushed hrun
  refine hc.same hrun hrun' hhost hwatch howned ?_ ?_ ?_ ?_ <;> simp

/-- The end of `runOne`: the handle it writes is reached, and nothing waits. -/
theorem endRun (hc : Cursor h) (hl : Live h) (hb : Books deps h) (hrun : h.run = some c)
    {e : StepsEnd}
    (hempty : c.owned = true → ∀ x ∈ c.watch, x.carry = [])
    (hreached : ∀ b, (if c.owned = true then e.handle c.host.handle else c.host.handle) = some b →
      h.Reached b)
    (hend : c.owned = true → e.state = .ok ∨ e.state = .failed ∨ e.state = .orphaned) :
    Cursor (h.endRun deps e) := by
  obtain ⟨-, hstate, -⟩ := endRun_state hb hrun e hend
  have hc' := hc.flushed hb hrun
  obtain ⟨c', hrun', hhost, hwatch, howned, -⟩ := hb.flushed hrun
  have hmarks : ((h.tell deps .out [] true).tell deps .err [] true).flushTail.marks = h.marks := by
    simp
  have hrow : ((h.tell deps .out [] true).tell deps .err [] true).flushTail.row = h.row := by
    simp
  have hstate' : isJobHostLive (h.endRun deps e).row.state = true → ¬ c.owned = true := by
    intro hlive hown
    rw [if_pos hown] at hstate
    rw [hstate] at hlive
    cases hlive
  unfold Host.endRun at hstate' ⊢
  dsimp only at hstate' ⊢
  rw [hrun'] at hstate' ⊢
  dsimp only at hstate' ⊢
  rw [howned, hhost] at hstate' ⊢
  generalize ((h.tell deps .out [] true).tell deps .err [] true).flushTail = g
    at hc' hrun' hmarks hrow hstate' ⊢
  have hreached' : ∀ b, (if c.owned = true then e.handle c.host.handle else c.host.handle) = some b →
      g.Reached b := by
    intro b hb
    unfold Host.Reached
    rw [hmarks]
    exact hreached b hb
  have hwrite : ∀ p : JobTargetPatch, (∀ b, (g.row.patch p).detached = some b → g.Reached b) →
      (isJobHostLive ({ g.writeRow p with run := none } : Host).row.state = true →
        ∀ b, (g.row.patch p).detached = some b → g.marks b.dir ≤ b.readOffset) →
          Cursor { g.writeRow p with run := none } := by
    intro p hp hahead
    rw [writeRow_reached hp] at hahead ⊢
    refine ⟨?_, fun d x hd => (by cases hd), fun d x hd => (by cases hd), fun d hd => (by cases hd),
      fun d b hd => (by cases hd), fun hlive b hb => ?_, fun d r b hd => (by cases hd)⟩
    · rw [Host.pollCarry_none rfl]
      have hmoved := hc'.moved
      rw [Host.pollCarry_empty hrun' fun hown => hwatch ▸ hempty (howned ▸ hown)] at hmoved
      exact hmoved
    · exact le_antisymm (hp b hb) (hahead hlive b hb)
  by_cases hown : c.owned = true
  · rw [if_pos hown] at hstate' ⊢
    refine hwrite _ (fun b hb => hreached' b ?_) fun hlive => ?_
    · rw [if_pos hown]
      exact hb
    · exact absurd hown (hstate' hlive)
  · rw [if_neg hown] at hstate' ⊢
    rw [if_neg hown] at hreached'
    cases hhandle : c.host.handle with
    | none =>
      refine hwrite _ (fun b hb => ?_) fun hlive => ?_
      · have hold : h.row.detached = some b := by
          rw [← hrow]
          exact hb
        unfold Host.Reached
        rw [hmarks]
        exact (hc.row (hl.live c hrun).1 b hold).le
      · rw [(g.writeRow_same _).1] at hlive
        cases hlive
    | some b =>
      refine hwrite _ (fun b' hb' => hreached' b' ?_) fun _ b' hb' => hc'.ahead c' b' hrun' ?_
      · rw [hhandle]
        exact hb'
      · rw [hhost, hhandle]
        exact hb'

theorem parseJobPoll_sent {base64 : Bool} {carry body : List UInt8} {announced : Nat}
    (hfits : body.length ≤ announced)
    (hplain : base64 = false →
      (parseJobPoll deps.decode false carry announced body).sent = body.length) :
    (parseJobPoll deps.decode base64 carry announced body).sent = body.length := by
  cases base64 with
  | true => exact min_eq_right hfits
  | false => exact hplain rfl

/-- The bytes of a poll are moved past, and decoded or waiting. -/
theorem poll {announced arrived : Nat} {boot : Option String} (hc : Cursor h) (hl : Live h)
    (hok : Unbroken deps h (.poll announced arrived boot))
    (hstep : h.poll deps announced arrived boot = some h') : Cursor h' := by
  obtain ⟨c, x, hrun, hwatch, harrived, hannounced, hpolls⟩ := poll_polls hstep
  obtain ⟨hwaits, hplain⟩ := hc.carry c x hrun hwatch
  have hlength : ((h.unread x).take arrived).length = arrived :=
    List.length_take_of_le (harrived.trans hannounced)
  have hfits : ((h.unread x).take arrived).length ≤ announced := hlength.le.trans harrived
  obtain ⟨hdecoded, -, hcarry, hplain'⟩ := parseJobPoll_decoded deps.decode
    ((h.unread x).take arrived) announced hplain
  have hsame := parseJobPoll_none deps.decode hplain hwaits hfits
  have hsent : c.owned = true → (parseJobPoll deps.decode x.handle.base64 x.carry announced
      ((h.unread x).take arrived)).sent = arrived := by
    intro howned
    refine (parseJobPoll_sent hfits fun hplain => ?_).trans hlength
    exact (hok c hrun howned x hwatch hplain).trans hlength.symm
  generalize parseJobPoll deps.decode x.handle.base64 x.carry announced
    ((h.unread x).take arrived) = body at hpolls hdecoded hcarry hplain' hsame hsent
  have hhandle := hc.watch c x hrun hwatch
  cases hpolls with
  | nothing hzero =>
    have hx : (⟨x.handle, body.carry⟩ : Watch) = x := by rw [hsame hzero]
    have hcall : ({ c with watch := some ⟨x.handle, body.carry⟩ } : HostCall) = c := by
      rw [hx, ← hwatch]
    rw [hcall, ← hrun]
    exact hc
  | heard hsent' howned =>
    have hrow := hc.row (hl.live c hrun).1 x.handle ((hc.owned c hrun howned).trans hhandle)
    have hmoved := hc.moved
    rw [Host.pollCarry_owned hrun howned, hwatch] at hmoved
    refine ⟨?_, fun d y hd hy => ?_, fun d y hd hy => ?_, fun d hd _ => ?_, fun d b hd hb => ?_,
      fun _ b hb => ?_, fun d r b hd hr hb => ?_⟩
    · have hpast : ((h.files x.handle.dir).drop (h.marks x.handle.dir)).take
          (x.handle.readOffset + body.sent - h.marks x.handle.dir) =
            (h.unread x).take arrived := by
        rw [← hrow, Nat.add_sub_cancel_left, hsent howned]
        rfl
      have hnew : ∀ (out : HostOutput) (output : List JobOutputLine) (heard : List Heard),
          (({ h with run := some (c.polled x body boot out), output := output, heard := heard } :
            Host).writeRow { detached := some (some (Host.polledHandle x body boot)) }).pollCarry =
              body.carry := fun out _ _ =>
        Host.pollCarry_owned (c := c.polled x body boot out) rfl howned
      rw [hnew]
      have hbytes : (h.heard ++ [Heard.polled body.decoded]).flatMap Heard.bytes =
          h.heard.flatMap Heard.bytes ++ body.decoded := by
        rw [List.flatMap_append, List.flatMap_singleton]
        rfl
      refine (congrArg₂ (· ++ ·) hmoved hpast).trans ?_
      refine Eq.trans ?_ (congrArg (· ++ body.carry) hbytes).symm
      rw [List.append_assoc, List.append_assoc]
      exact congrArg (h.heard.flatMap Heard.bytes ++ ·) hdecoded
    · cases hd
      cases hy
      exact ⟨hcarry, hplain'⟩
    · cases hd
      cases hy
      rfl
    · cases hd
      rfl
    · cases hd
      cases hb
      refine (if_pos rfl).le.trans (max_le ?_ le_rfl)
      exact hrow.ge.trans (Nat.le_add_right _ _)
    · cases hb
      refine ((if_pos rfl).trans (max_eq_right ?_)).symm
      exact hrow.ge.trans (Nat.le_add_right _ _)
    · cases hd
      have hold : h.Reached b := hc.result c r b hrun hr hb
      refine hold.trans ?_
      change h.marks b.dir ≤ if b.dir = x.handle.dir then _ else _
      split_ifs with hdir
      · exact le_max_left _ _
      · exact le_rfl
  | late hsent' howned =>
    refine ⟨?_, fun d y hd hy => ?_, fun d y hd hy => ?_, fun d hd hown => ?_, fun d b hd hb => ?_,
      hc.row, fun d r b hd hr hb => ?_⟩
    · have hmoved := hc.moved
      rw [Host.pollCarry_lost hrun howned] at hmoved
      rw [Host.pollCarry_lost rfl (by exact howned)]
      exact hmoved
    · cases hd
      cases hy
      exact ⟨hcarry, hplain'⟩
    · cases hd
      cases hy
      rfl
    · cases hd
      exact absurd hown howned
    · cases hd
      cases hb
      exact (hc.ahead c x.handle hrun hhandle).trans (Nat.le_add_right _ _)
    · cases hd
      exact hc.result c r b hrun hr hb

theorem enter (hc : Cursor { h with run := some c }) (hb : Books deps { h with run := some c }) :
    Cursor (h.enter req deps c) := by
  unfold Host.enter
  dsimp only
  split_ifs
  · exact hc.tell hb _ _ _
  · exact hc

theorem runOne (hc : Cursor { h with run := some c }) (hl : Live { h with run := some c })
    (hb : Books deps { h with run := some c }) (howned : c.owned = true)
    (hempty : ∀ x ∈ c.watch, x.carry = []) : Cursor (h.runOne req deps c) := by
  unfold Host.runOne
  split_ifs
  · exact hc.enter hb
  · refine hc.endRun hl hb rfl (fun _ => hempty) (fun b hb => ?_) fun _ => Or.inr (Or.inl rfl)
    rw [if_pos howned] at hb
    exact hc.reached hl rfl howned hb

/-- The handle a settled call leaves on the row is the one it holds, or one of an earlier step. -/
theorem settled_handle {s : World.Settled} {e : StepsEnd} {b : JobDetachedHandle}
    (hend : World.settled req c.owned c.host s = .inr e)
    (hreturn : ∀ r, s = .fulfilled r → Host.returnable c r = true)
    (hb : e.handle c.host.handle = some b) :
    c.host.handle = some b ∨ (∃ x, c.watch = some x ∧ x.handle = b) ∨
      ∃ r, c.host.result = some r ∧ r.detachedHandle = some (some b) := by
  have hresult : ∀ r : JobExecResult, e.result = some r →
      r.detachedHandle = some (some b) ∨ c.host.handle = some b := by
    intro r hr
    unfold StepsEnd.handle at hb
    rw [hr, Option.bind_some] at hb
    cases hdetached : r.detachedHandle with
    | none =>
      rw [hdetached] at hb
      exact Or.inr hb
    | some handle =>
      rw [hdetached] at hb
      exact Or.inl (congrArg some hb)
  have hfailed : e.result = c.host.result → c.host.handle = some b ∨
      (∃ x, c.watch = some x ∧ x.handle = b) ∨
        ∃ r, c.host.result = some r ∧ r.detachedHandle = some (some b) := by
    intro heq
    cases hr : c.host.result with
    | none =>
      unfold StepsEnd.handle at hb
      rw [heq, hr] at hb
      exact Or.inl hb
    | some r =>
      rcases hresult r (heq.trans hr) with hdetached | hhandle
      · exact Or.inr (Or.inr ⟨r, rfl, hdetached⟩)
      · exact Or.inl hhandle
  cases s with
  | fulfilled r =>
    have hr : e.result = some r := by
      unfold World.settled at hend
      dsimp only at hend
      split_ifs at hend
      cases hend
      rfl
    rcases hresult r hr with hdetached | hhandle
    · have hown := (Bool.and_eq_true_iff.mp (hreturn r rfl)).1
      rw [hdetached] at hown
      obtain ⟨x, hx, hxb⟩ := Option.map_eq_some_iff.mp (of_decide_eq_true hown)
      exact Or.inr (Or.inl ⟨x, hx, hxb⟩)
    · exact Or.inl hhandle
  | rejected message =>
    cases hend
    exact hfailed rfl
  | stalled =>
    cases hend
    exact hfailed rfl

/-- A settled call goes on to the next step, or writes its end. -/
theorem goOn {s : World.Settled} {g : Host} {d : HostCall} (hc : Cursor g) (hl : Live g)
    (hb : Books deps g) (hd : g.run = some d)
    (hempty : d.owned = true → ∀ x ∈ d.watch, x.carry = [])
    (hlost : d.owned = false → ∀ b ∈ d.host.handle, g.Reached b)
    (hreturn : ∀ r, s = .fulfilled r → Host.returnable d r = true) :
    Cursor (g.goOn req deps (World.settled req d.owned d.host s)) := by
  unfold Host.goOn
  rw [hd]
  dsimp only
  cases hnext : World.settled req d.owned d.host s with
  | inl host =>
    dsimp only
    obtain ⟨howned, r, rfl, rfl⟩ := settled_inl hnext
    have hsame : Books deps { g with run := some { d with
        host := { d.host with stepIndex := d.host.stepIndex + 1, result := some r }
        watch := none } } :=
      hb.same hd rfl rfl rfl rfl (fun _ => rfl) rfl rfl
    refine enter ?_ hsame
    refine ⟨?_, fun d' x hd' hx => ?_, fun d' x hd' hx => ?_, fun d' hd' _ => ?_,
      fun d' b hd' hb' => ?_, hc.row, fun d' r' b hd' hr' hb' => ?_⟩
    · rw [Host.pollCarry_empty rfl fun _ x hx => (by cases hx)]
      have hmoved := hc.moved
      rw [Host.pollCarry_empty hd hempty] at hmoved
      exact hmoved
    · cases hd'
      cases hx
    · cases hd'
      cases hx
    · cases hd'
      exact hc.owned d hd howned
    · cases hd'
      exact hc.ahead d b hd hb'
    · cases hd'
      cases hr'
      have hown := (Bool.and_eq_true_iff.mp (hreturn r rfl)).1
      rw [hb'] at hown
      obtain ⟨x, hx, hxb⟩ := Option.map_eq_some_iff.mp (of_decide_eq_true hown)
      subst hxb
      exact hc.reached hl hd howned (hc.watch d x hd hx)
  | inr e =>
    dsimp only
    refine hc.endRun hl hb hd hempty (fun b hb' => ?_) fun howned =>
      returnable_ends hnext howned hreturn
    split_ifs at hb' with howned
    · rcases settled_handle hnext hreturn hb' with hhandle | ⟨x, hx, rfl⟩ | ⟨r, hr, hdetached⟩
      · exact hc.reached hl hd howned hhandle
      · exact hc.reached hl hd howned (hc.watch d x hd hx)
      · exact hc.result d r b hd hr hdetached
    · exact hlost (Bool.eq_false_iff.mpr howned) b hb'

theorem settle {s : World.Settled} (hc : Cursor h) (hl : Live h) (hb : Books deps h)
    (hok : Unbroken deps h (.settle s)) (hstep : h.settle req deps s = some h') : Cursor h' := by
  unfold Host.settle at hstep
  cases hrun : h.run with
  | none => simp [hrun] at hstep
  | some c =>
    simp only [hrun] at hstep
    obtain ⟨hempty, hlost⟩ := hok c hrun
    cases s with
    | fulfilled r =>
      dsimp only at hstep
      split_ifs at hstep with hreturn
      cases hstep
      obtain ⟨d, hd, hhost, hwatch, howned⟩ := Host.deliver_run hb hrun r
      obtain ⟨hrow, hmarks, hmoved, hheard⟩ := Host.deliver_same deps h r
      have hdelivered := hc.same hrun hd hhost hwatch howned hrow hmarks hmoved hheard
      have hlive : Live (h.deliver deps r) := hl.keeps hrun (congrArg JobHostRow.state hrow)
      have hreturn' : Host.returnable d r = true := by
        unfold Host.returnable at hreturn ⊢
        rw [hwatch, howned]
        exact hreturn
      rw [← hhost, ← howned]
      refine hdelivered.goOn hlive (hb.deliver r) hd (fun hown => ?_) (fun hown b hb' => ?_)
        fun r' hr' => ?_
      · rw [hwatch]
        exact hempty (howned ▸ hown)
      · unfold Host.Reached
        rw [hmarks]
        exact hlost (howned ▸ hown) b (hhost ▸ hb')
      · cases hr'
        exact hreturn'
    | rejected message =>
      cases hstep
      exact goOn hc hl hb hrun hempty hlost fun r hr => (by cases hr)
    | stalled =>
      cases hstep
      exact goOn hc hl hb hrun hempty hlost fun r hr => (by cases hr)

/-- A row that keeps the marks, and the call that goes with it. -/
theorem handled (hc : Cursor h) (hrun : h.run = some c) (hrun' : h'.run = some c')
    (hresult : c'.host.result = c.host.result) (howned : c'.owned = c.owned)
    (hcarry : h'.pollCarry = h.pollCarry)
    (hwatch : ∀ x, c'.watch = some x → incompleteUtf8Tail x.carry = x.carry.length ∧
      (x.handle.base64 = false → x.carry = []) ∧ c'.host.handle = some x.handle)
    (hrow : c.owned = true → h'.row.detached = c'.host.handle)
    (hahead : ∀ b, c'.host.handle = some b → h.marks b.dir ≤ b.readOffset)
    (hreached : isJobHostLive h'.row.state = true → ∀ b, h'.row.detached = some b →
      b.readOffset = h.marks b.dir)
    (hmarks : h'.marks = h.marks) (hmoved : h'.moved = h.moved)
    (hheard : h'.heard = h.heard) : Cursor h' := by
  have hcall : ∀ d, h'.run = some d → d = c' := by
    intro d hd
    rw [hrun'] at hd
    exact (Option.some.inj hd).symm
  refine ⟨?_, fun d x hd hx => ?_, fun d x hd hx => ?_, fun d hd hown => ?_, fun d b hd hb => ?_,
    ?_, fun d r b hd hr hb => ?_⟩
  · rw [hmoved, hheard, hcarry]
    exact hc.moved
  · rw [hcall d hd] at hx
    exact ⟨(hwatch x hx).1, (hwatch x hx).2.1⟩
  · rw [hcall d hd] at hx ⊢
    exact (hwatch x hx).2.2
  · rw [hcall d hd] at hown ⊢
    exact hrow (howned ▸ hown)
  · rw [hcall d hd] at hb
    rw [hmarks]
    exact hahead b hb
  · rw [hmarks]
    exact hreached
  · rw [hcall d hd, hresult] at hr
    unfold Host.Reached
    rw [hmarks]
    exact hc.result c r b hrun hr hb

theorem launched {handle : JobDetachedHandle} (hc : Cursor h)
    (hstep : h.launched handle = some h') : Cursor h' := by
  unfold Host.launched at hstep
  cases hrun : h.run with
  | none => simp [hrun] at hstep
  | some c =>
    simp only [hrun] at hstep
    split_ifs at hstep with hnew howned
    all_goals
      cases hstep
      obtain ⟨hnone, hzero, hmark⟩ := hnew
      have hnone := Option.isNone_iff_eq_none.mp hnone
      have hmatch : ∀ x, some (⟨handle, []⟩ : Watch) = some x →
          incompleteUtf8Tail x.carry = x.carry.length ∧ (x.handle.base64 = false → x.carry = []) ∧
            some handle = some x.handle := by
        intro x hx
        cases hx
        exact ⟨rfl, fun _ => rfl, rfl⟩
      have hahead : ∀ b, some handle = some b → h.marks b.dir ≤ b.readOffset := by
        intro b hb
        cases hb
        rw [hmark]
        exact Nat.zero_le _
    · rw [writeRow_reached fun b hb => ?_]
      · refine hc.handled hrun rfl rfl rfl ?_ hmatch (fun _ => rfl) hahead (fun _ b hb => ?_) rfl
          rfl rfl
        · rw [Host.pollCarry_owned hrun howned, Host.pollCarry_owned rfl (by exact howned), hnone]
          rfl
        · cases hb
          rw [hzero, hmark]
      · cases hb
        exact hzero.le.trans (Nat.zero_le _)
    · refine hc.handled hrun rfl rfl rfl ?_ hmatch (fun hown => absurd hown howned) hahead hc.row rfl
        rfl rfl
      rw [Host.pollCarry_lost hrun howned, Host.pollCarry_lost rfl (by exact howned)]

theorem update {u : World.JobExecUpdate} (hc : Cursor h) (hl : Live h)
    (hok : Unbroken deps h (.update u)) (hstep : h.update u = some h') : Cursor h' := by
  unfold Host.update at hstep
  cases hrun : h.run with
  | none => simp [hrun] at hstep
  | some c =>
    simp only [hrun] at hstep
    by_cases hfits : (u.state.all (· ∈ [.running, .detached, .rebooting, .foreign]) = true) ∧
        (u.detached = none ∨ u.detached = some none)
    · rw [if_pos hfits] at hstep
      obtain ⟨-, hdetached⟩ := hfits
      have hlive := (hl.live c hrun).1
      have hmatch : ∀ x, (if u.detached = none then c.watch else none) = some x →
          incompleteUtf8Tail x.carry = x.carry.length ∧ (x.handle.base64 = false → x.carry = []) ∧
            u.detached.getD c.host.handle = some x.handle := by
        intro x hx
        split_ifs at hx with hnone
        obtain ⟨hwaits, hplain⟩ := hc.carry c x hrun hx
        refine ⟨hwaits, hplain, ?_⟩
        rw [hnone]
        exact hc.watch c x hrun hx
      have hahead : ∀ b, u.detached.getD c.host.handle = some b → h.marks b.dir ≤ b.readOffset := by
        intro b hb
        rcases hdetached with hnone | hnone <;> rw [hnone] at hb
        · exact hc.ahead c b hrun hb
        · cases hb
      have hrow : ∀ b, u.detached.getD h.row.detached = some b → b.readOffset = h.marks b.dir := by
        intro b hb
        rcases hdetached with hnone | hnone <;> rw [hnone] at hb
        · exact hc.row hlive b hb
        · cases hb
      have hempty : c.owned = true →
          ((if u.detached = none then c.watch else none).map Watch.carry).getD [] =
            (c.watch.map Watch.carry).getD [] := by
        intro howned
        split_ifs with hnone
        · rfl
        · cases hwatch : c.watch with
          | none => rfl
          | some x => exact (hok (hdetached.resolve_left hnone) c hrun howned x hwatch).symm
      by_cases howned : c.owned = true
      · rw [if_pos howned] at hstep
        cases hstep
        rw [writeRow_reached fun b hb => ?_]
        · refine hc.handled hrun rfl rfl rfl ?_ hmatch (fun _ => ?_) hahead
            (fun _ b hb => hrow b hb) rfl rfl rfl
          · rw [Host.pollCarry_owned hrun howned, Host.pollCarry_owned rfl (by exact howned)]
            exact hempty howned
          · exact congrArg (u.detached.getD ·) (hc.owned c hrun howned)
        · exact (hrow b hb).le
      · rw [if_neg howned] at hstep
        cases hstep
        refine hc.handled hrun rfl rfl rfl ?_ hmatch (fun hown => absurd hown howned) hahead hc.row
          rfl rfl rfl
        rw [Host.pollCarry_lost hrun howned, Host.pollCarry_lost rfl (by exact howned)]
    · rw [if_neg hfits] at hstep
      cases hstep

end Cursor

/-- A host that nobody can follow keeps its output and its handle, and none is left pending. -/
theorem closed_row (now : Nat) (notRun : String) (r : JobHostRow) :
    (World.closed now notRun r).outElided = r.outElided ∧
      (World.closed now notRun r).detached = r.detached ∧
        (World.closed now notRun r).state ≠ .pending ∧
          (isJobHostLive (World.closed now notRun r).state = true →
            isJobHostLive r.state = true) := by
  unfold World.closed
  split_ifs with hrunning hwaiting
  · exact ⟨rfl, rfl, by simp [JobHostRow.patch], fun h => by cases h⟩
  · exact ⟨rfl, rfl, by simp [JobHostRow.patch], fun h => by cases h⟩
  · exact ⟨rfl, rfl, fun hpending => hwaiting (Or.inl hpending), id⟩

/-! ## Runs -/

/-- What holds in every state of a host's run whose steps all go right. -/
structure Steady (deps : FollowDeps) (h : Host) : Prop where
  books : Books deps h
  live : Live h
  cursor : Cursor h

namespace Steady
variable {req : JobRunRequest} {deps : FollowDeps} {h h' : Host}

theorem created (target : JobTarget) (files : String → List UInt8) (clock : Nat) :
    Steady deps (Host.created target files clock) where
  books := by
    refine ⟨fun c hc => (by cases hc), fun l hl => absurd hl List.not_mem_nil,
      fun c hc => (by cases hc), fun _ => [], fun s => rfl, rfl⟩
  live := ⟨fun c hc => (by cases hc), fun _ => ⟨rfl, rfl, rfl⟩⟩
  cursor := by
    refine ⟨rfl, fun c x hc => (by cases hc), fun c x hc => (by cases hc), fun c hc => (by cases hc),
      fun c b hc => (by cases hc), fun _ b hb => (by cases hb), fun c r b hc => (by cases hc)⟩

theorem start (hs : Steady deps h) (hstep : h.start req deps = some h') : Steady deps h' := by
  unfold Host.start at hstep
  split_ifs at hstep with hnew
  cases hstep
  obtain ⟨hnone, hpending⟩ := hnew
  have hnone := Option.isNone_iff_eq_none.mp hnone
  obtain ⟨houtput, helided, hdetached⟩ := hs.live.fresh hpending
  rw [writeRow_reached fun b hb => ?_]
  · have hbooks : ∀ c : HostCall, c.out = .fresh 0 0 0 → c.owned = true → Books deps
        { h with
          row := h.row.patch { state := some .running, startedAt := some (some h.clock) }
          run := some c } := by
      intro c hout howned
      refine hs.books.opened hnone rfl 0 ?_ howned rfl rfl rfl rfl
      rw [hout, houtput, helided]
      rfl
    refine ⟨(hbooks _ rfl rfl).runOne, Live.runOne (hbooks _ rfl rfl) rfl (by simp), ?_⟩
    refine Cursor.runOne ?_ (.of_state (Or.inr rfl) (by simp)) (hbooks _ rfl rfl) rfl fun x hx =>
      (by cases hx)
    refine ⟨?_, fun c x hc hx => ?_, fun c x hc hx => ?_, fun c hc _ => ?_, fun c b hc hb => ?_,
      fun _ b hb => ?_, fun c r b hc hr => ?_⟩
    · have hmoved := hs.cursor.moved
      rw [Host.pollCarry_none hnone] at hmoved
      exact hmoved
    · cases hc
      cases hx
    · cases hc
      cases hx
    · cases hc
      exact hdetached
    · cases hc
      cases hb
    · rw [show h.row.detached = some b from hb] at hdetached
      cases hdetached
    · cases hc
      cases hr
  · rw [show h.row.detached = some b from hb] at hdetached
    cases hdetached

theorem reclaim (hs : Steady deps h) (hstep : h.reclaim req deps = some h') :
    Steady deps h' := by
  unfold Host.reclaim at hstep
  cases hdetached : h.row.detached with
  | none => simp [hdetached] at hstep
  | some handle =>
    simp only [hdetached] at hstep
    split_ifs at hstep with hnew
    cases hstep
    obtain ⟨hnone, hlive⟩ := hnew
    have hnone := Option.isNone_iff_eq_none.mp hnone
    have hnot : h.row.state ≠ .pending := by
      intro hpending
      rw [(hs.live.fresh hpending).2.2] at hdetached
      cases hdetached
    have hbooks : ∀ c : HostCall, c.out = .fresh h.output.length h.row.outOffset h.row.outElided →
        c.owned = true → Books deps { h with run := some c } :=
      fun c hout howned => hs.books.opened hnone rfl _ hout howned rfl rfl rfl rfl
    refine ⟨(hbooks _ rfl rfl).runOne, Live.runOne (hbooks _ rfl rfl) hlive hnot, ?_⟩
    refine Cursor.runOne ?_ (.of_state (Or.inr hlive) hnot) (hbooks _ rfl rfl) rfl fun x hx => ?_
    · have hmark := hs.cursor.row hlive handle hdetached
      refine ⟨?_, fun c x hc hx => ?_, fun c x hc hx => ?_, fun c hc _ => ?_, fun c b hc hb => ?_,
        hs.cursor.row, fun c r b hc hr => ?_⟩
      · have hmoved := hs.cursor.moved
        rw [Host.pollCarry_none hnone] at hmoved
        exact hmoved
      · cases hc
        cases hx
        exact ⟨rfl, fun _ => rfl⟩
      · cases hc
        cases hx
        rfl
      · cases hc
        exact hdetached
      · cases hc
        cases hb
        exact hmark.ge
      · cases hc
        cases hr
    · cases hx
      rfl

theorem launched {handle : JobDetachedHandle} (hs : Steady deps h)
    (hstep : h.launched handle = some h') : Steady deps h' := by
  refine ⟨?_, ?_, hs.cursor.launched hstep⟩
  all_goals
    unfold Host.launched at hstep
    cases hrun : h.run with
    | none => simp [hrun] at hstep
    | some c =>
      simp only [hrun] at hstep
      split_ifs at hstep with hnew howned <;> cases hstep
      all_goals first
        | exact Books.writeRow (hs.books.same hrun rfl rfl rfl rfl (fun _ => rfl) rfl rfl) rfl _
        | exact hs.books.same hrun rfl rfl rfl rfl (fun _ => rfl) rfl rfl
        | exact hs.live.keeps hrun rfl
        | exact .of_state (Or.inr rfl) (by simp [Host.writeRow_same])

theorem poll {announced arrived : Nat} {boot : Option String} (hs : Steady deps h)
    (hok : Unbroken deps h (.poll announced arrived boot))
    (hstep : h.poll deps announced arrived boot = some h') : Steady deps h' := by
  refine ⟨hs.books.poll (fun c x hc hx => (hs.cursor.carry c x hc hx).2) hstep, ?_,
    hs.cursor.poll hs.live hok hstep⟩
  obtain ⟨c, x, hrun, -, -, -, hpolls⟩ := poll_polls hstep
  cases hpolls with
  | nothing => exact hs.live.keeps hrun rfl
  | heard => exact hs.live.keeps hrun (by rw [(Host.writeRow_same _ _).1]; rfl)
  | late => exact hs.live.keeps hrun rfl

theorem update {u : World.JobExecUpdate} (hs : Steady deps h) (hok : Unbroken deps h (.update u))
    (hstep : h.update u = some h') : Steady deps h' := by
  refine ⟨?_, ?_, hs.cursor.update hs.live hok hstep⟩
  · unfold Host.update at hstep
    cases hrun : h.run with
    | none => simp [hrun] at hstep
    | some c =>
      simp only [hrun] at hstep
      split at hstep
      · cases hstep
        by_cases howned : c.owned = true
        · rw [if_pos howned]
          refine Books.writeRow ?_ rfl _
          exact hs.books.same hrun rfl rfl rfl rfl (fun _ => rfl) rfl rfl
        · rw [if_neg howned]
          exact hs.books.same hrun rfl rfl rfl rfl (fun _ => rfl) rfl rfl
      · cases hstep
  · unfold Host.update at hstep
    cases hrun : h.run with
    | none => simp [hrun] at hstep
    | some c =>
      simp only [hrun] at hstep
      obtain ⟨hlive, hnot⟩ := hs.live.live c hrun
      split at hstep
      · rename_i hfits
        cases hstep
        by_cases howned : c.owned = true
        · have hstate : isJobHostLive (u.state.getD h.row.state) = true ∧
              u.state.getD h.row.state ≠ .pending := by
            cases hu : u.state with
            | none => exact ⟨hlive, hnot⟩
            | some s =>
              have hs' := hfits.1
              rw [hu, Option.all_some] at hs'
              simp only [List.mem_cons, List.not_mem_nil, or_false, decide_eq_true_eq] at hs'
              rcases hs' with rfl | rfl | rfl | rfl <;> exact ⟨rfl, by simp⟩
          rw [if_pos howned]
          refine .of_state (Or.inr ?_) ?_
          · rw [(Host.writeRow_same _ _).1]
            exact hstate.1
          · rw [(Host.writeRow_same _ _).1]
            exact hstate.2
        · rw [if_neg howned]
          exact hs.live.keeps hrun rfl
      · cases hstep

theorem disposeAll (hs : Steady deps h) (hok : Unbroken deps h .disposeAll) :
    Steady deps h.disposeAll := by
  unfold Host.disposeAll
  cases hrun : h.run with
  | none => exact hs
  | some c =>
    dsimp only
    by_cases howned : c.owned = true
    · obtain ⟨hcarry, htail, hwatch⟩ := hok c hrun howned
      refine ⟨?_, hs.live.keeps hrun rfl, ?_⟩
      · obtain ⟨pieces, htext, haccount⟩ := hs.books.account
        refine ⟨fun d hd => ?_, hs.books.below, fun d hd hown => ?_, pieces, fun s => ?_, ?_⟩
        · cases hd
          exact hs.books.weighed c hrun
        · cases hd
          cases hown
        · rw [Host.carried_lost rfl (by exact Bool.false_ne_true), ← hcarry s,
            ← Host.carried_owned hrun howned]
          exact htext s
        · rw [Host.inHand_owned hrun howned, htail, linesBytes_nil] at haccount
          rw [Host.inHand_lost rfl (by exact Bool.false_ne_true)]
          exact haccount
      · refine ⟨?_, fun d x hd hx => ?_, fun d x hd hx => ?_, fun d hd hown => ?_,
          fun d b hd hb => ?_, hs.cursor.row, fun d r b hd hr hb => ?_⟩
        · rw [Host.pollCarry_lost rfl (by exact Bool.false_ne_true)]
          have hmoved := hs.cursor.moved
          rw [Host.pollCarry_empty hrun fun _ => hwatch] at hmoved
          exact hmoved
        · cases hd
          exact hs.cursor.carry c x hrun hx
        · cases hd
          exact hs.cursor.watch c x hrun hx
        · cases hd
          cases hown
        · cases hd
          exact hs.cursor.ahead c b hrun hb
        · cases hd
          exact hs.cursor.result c r b hrun hr hb
    · have hsame : ({ c with owned := false } : HostCall) = c := by
        rw [← Bool.eq_false_iff.mpr howned]
      rw [hsame, ← hrun]
      exact hs

theorem restart (hs : Steady deps h) (hok : Unbroken deps h .restart) :
    Steady deps h.restart := by
  unfold Host.restart
  have hcarried : (∀ s, h.carried s = []) ∧ h.inHand = h.row.outElided ∧ h.pollCarry = [] := by
    cases hrun : h.run with
    | none =>
      exact ⟨Host.carried_none hrun, Host.inHand_none hrun, Host.pollCarry_none hrun⟩
    | some c =>
      obtain ⟨hempty, helided⟩ := hok c hrun
      by_cases howned : c.owned = true
      · obtain ⟨hcarry, htail, hwatch⟩ := hempty howned
        refine ⟨fun s => ?_, ?_, Host.pollCarry_empty hrun fun _ => hwatch⟩
        · rw [Host.carried_owned hrun howned]
          exact hcarry s
        · rw [Host.inHand_owned hrun howned, htail]
          exact helided
      · exact ⟨Host.carried_lost hrun howned, (Host.inHand_lost hrun howned).trans helided,
          Host.pollCarry_lost hrun howned⟩
  obtain ⟨hcarry, hinHand, hpoll⟩ := hcarried
  refine ⟨?_, ⟨fun c hc => (by cases hc), hs.live.fresh⟩, ?_⟩
  · obtain ⟨pieces, htext, haccount⟩ := hs.books.account
    refine ⟨fun c hc => (by cases hc), hs.books.below, fun c hc => (by cases hc), pieces,
      fun s => ?_, ?_⟩
    · rw [Host.carried_none rfl, ← hcarry s]
      exact htext s
    · rw [hinHand] at haccount
      exact haccount
  · refine ⟨?_, fun c x hc => (by cases hc), fun c x hc => (by cases hc), fun c hc => (by cases hc),
      fun c b hc => (by cases hc), hs.cursor.row, fun c r b hc => (by cases hc)⟩
    rw [Host.pollCarry_none rfl]
    have hmoved := hs.cursor.moved
    rw [hpoll] at hmoved
    exact hmoved

/-- Time goes on and files grow; nobody here read anything of it. -/
theorem elsewhere (hs : Steady deps h) (clock : Nat) (files : String → List UInt8) :
    Steady deps { h with clock := clock, files := files } where
  books := ⟨hs.books.weighed, hs.books.below, hs.books.seq, hs.books.account⟩
  live := ⟨hs.live.live, hs.live.fresh⟩
  cursor := ⟨hs.cursor.moved, hs.cursor.carry, hs.cursor.watch, hs.cursor.owned, hs.cursor.ahead,
    hs.cursor.row, hs.cursor.result⟩

theorem adopt (hs : Steady deps h) (hstep : h.adopt = some h') : Steady deps h' := by
  unfold Host.adopt at hstep
  split_ifs at hstep with hidle
  cases hstep
  have hnone := Option.isNone_iff_eq_none.mp hidle.1
  obtain ⟨helided, hdetached, hclosed⟩ := closed_row h.clock World.notReached h.row
  refine ⟨?_, ⟨fun c hc => ?_, fun hpending => absurd hpending hclosed.1⟩, ?_⟩
  · obtain ⟨pieces, htext, haccount⟩ := hs.books.account
    refine ⟨hs.books.weighed, hs.books.below, hs.books.seq, pieces, htext, ?_⟩
    rw [Host.inHand_none hnone, ← helided] at haccount
    rw [Host.inHand_none (by exact hnone)]
    exact haccount
  · rw [show h.run = some c from hc] at hnone
    cases hnone
  · refine ⟨hs.cursor.moved, hs.cursor.carry, hs.cursor.watch, fun c hc => ?_, hs.cursor.ahead,
      fun hlive b hb => ?_, hs.cursor.result⟩
    · rw [show h.run = some c from hc] at hnone
      cases hnone
    · exact hs.cursor.row (hclosed.2 hlive) b (hdetached ▸ hb)

/-- Each step that goes right keeps all of it. -/
theorem step {m : HostMove} (hs : Steady deps h) (hok : Unbroken deps h m)
    (hstep : h.step req deps m = some h') : Steady deps h' := by
  cases m with
  | tick ms =>
    cases hstep
    exact hs.elsewhere _ _
  | grow dir bytes =>
    cases hstep
    exact hs.elsewhere _ _
  | start => exact hs.start hstep
  | launched handle => exact hs.launched hstep
  | poll announced arrived boot => exact hs.poll hok hstep
  | update u => exact hs.update hok hstep
  | tell stream text =>
    cases hstep
    exact ⟨hs.books.tell stream text false, hs.live.tell stream text false,
      hs.cursor.tell hs.books stream text false⟩
  | settle s =>
    exact ⟨hs.books.settle hstep, hs.live.settle hs.books hstep,
      hs.cursor.settle hs.live hs.books hok hstep⟩
  | disposeAll =>
    cases hstep
    exact hs.disposeAll hok
  | restart =>
    cases hstep
    exact hs.restart hok
  | adopt => exact hs.adopt hstep
  | reclaim => exact hs.reclaim hstep

/-- A row that is an end has no call left that could hold anything. -/
theorem accounted (hs : Steady deps h) (hend : isJobHostLive h.row.state = false) :
    Accounted deps h := by
  have hnone : h.run = none := by
    cases hrun : h.run with
    | none => rfl
    | some c =>
      rw [(hs.live.live c hrun).1] at hend
      cases hend
  obtain ⟨pieces, htext, haccount⟩ := hs.books.account
  refine ⟨?_, pieces, fun s => ?_, ?_⟩
  · rw [hs.cursor.moved, Host.pollCarry_none hnone, List.append_nil]
  · rw [← htext s, Host.carried_none hnone, List.append_nil]
  · rw [← haccount, Host.inHand_none hnone]

end Steady

/-- `Unbroken`, as far as it can be read off a state and a move. -/
def unbrokenCheck (h : Host) : HostMove → Bool
  | .disposeAll => h.run.all fun c =>
    !c.owned || ((c.out.carry .out).isEmpty && (c.out.carry .err).isEmpty && c.out.tail.isEmpty &&
      c.watch.all fun x => x.carry.isEmpty)
  | .restart => h.run.all fun c => !c.owned && c.out.elided == h.row.outElided
  | .settle _ => h.run.all fun c =>
    if c.owned then c.watch.all fun x => x.carry.isEmpty
    else c.host.handle.all fun b => b.readOffset ≤ h.marks b.dir
  | .update u => u.detached.isNone
  | .poll _ _ _ => h.run.all fun c => c.watch.all fun x => x.handle.base64
  | _ => true

theorem unbroken_of_check (deps : FollowDeps) {h : Host} {m : HostMove}
    (hcheck : unbrokenCheck h m = true) : Unbroken deps h m := by
  cases m with
  | disposeAll =>
    intro c hrun howned
    simp only [unbrokenCheck, hrun, Option.all_some, howned, Bool.not_true, Bool.false_or,
      Bool.and_eq_true, List.isEmpty_iff] at hcheck
    obtain ⟨⟨⟨hout, herr⟩, htail⟩, hwatch⟩ := hcheck
    refine ⟨fun s => ?_, htail, fun x hx => ?_⟩
    · cases s with
      | out => exact hout
      | err => exact herr
    · rw [Option.mem_def.mp hx, Option.all_some] at hwatch
      exact List.isEmpty_iff.mp hwatch
  | restart =>
    intro c hrun
    simp only [unbrokenCheck, hrun, Option.all_some, Bool.and_eq_true, Bool.not_eq_true',
      beq_iff_eq] at hcheck
    exact ⟨fun howned => absurd howned (Bool.eq_false_iff.mp hcheck.1), hcheck.2⟩
  | settle s =>
    intro c hrun
    simp only [unbrokenCheck, hrun, Option.all_some] at hcheck
    refine ⟨fun howned x hx => ?_, fun hlost b hb => ?_⟩
    · rw [if_pos howned, Option.mem_def.mp hx, Option.all_some] at hcheck
      exact List.isEmpty_iff.mp hcheck
    · rw [if_neg (Bool.eq_false_iff.mp hlost), Option.mem_def.mp hb, Option.all_some] at hcheck
      exact of_decide_eq_true hcheck
  | update u =>
    intro hnone
    rw [unbrokenCheck, hnone] at hcheck
    cases hcheck
  | poll announced arrived boot =>
    intro c hrun _ x hx hplain
    simp only [unbrokenCheck, hrun, Option.all_some, Option.mem_def.mp hx, hplain] at hcheck
    cases hcheck
  | tick ms => trivial
  | grow dir bytes => trivial
  | start => trivial
  | launched handle => trivial
  | tell stream text => trivial
  | adopt => trivial
  | reclaim => trivial

def followDeps : FollowDeps where
  toJobRunnerDeps := plainDeps
  decode := fun bytes => bytes.map fun b => Char.ofNat b.toNat
  redact := id

def jobMarker (readOffset : Nat) : JobDetachedHandle where
  dir := "a"
  step := 1
  instanceId := "desk"
  launcher := .setsid
  base64 := true
  launchedAt := 0
  readOffset := readOffset
  command := "apt full-upgrade -y"
  bootIdBefore := none

def webHost : Host := .created ⟨"s0", "web-0", none⟩ (fun _ => []) 0

/-- The command writes `text`, which is read; then the window is closed, the app started again, and
the command's end read. -/
def readAndReclaimed (text : Text) : List HostMove :=
  [.start, .launched (jobMarker 0), .grow "a" (text.map fun c => UInt8.ofNat c.toNat),
    .poll text.length text.length none, .disposeAll,
    .settle (.fulfilled
      { ok := false, finalState := some .detached
        detachedHandle := some (some (jobMarker text.length)) }),
    .restart, .reclaim,
    .settle (.fulfilled { ok := true, code := some 0, detachedHandle := some none })]

theorem redactedBytes_id (pieces : List Text) :
    redactedBytes id pieces = byteLength pieces.flatten := by
  induction pieces with
  | nil => rfl
  | cons p pieces ih =>
    rw [List.flatten_cons, byteLength_append, ← ih]
    rfl

end OpsMaxx.Jobs
