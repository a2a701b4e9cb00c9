import OpsMaxx.Jobs.Follow
import Mathlib.Data.List.TakeWhile

/-!
# The middle that is left out

What is stored of a host's output once the ring is flushed, against all that was handed over. The
rows written through are a beginning of it and those of the ring an end, unless a chunk that comes
after the head was passed finds that its first character still fits in what the head left over.
-/

set_option autoImplicit false

namespace OpsMaxx.Jobs

/-! ## What was said -/

/-- Text with the stream each character came on. -/
abbrev Said := List (Stream × Char)

def tagged (stream : Stream) (text : Text) : Said := text.map (Prod.mk stream)

def saidBytes (said : Said) : Nat := byteLength (said.map Prod.snd)

def linesSaid (lines : List JobOutputLine) : Said := lines.flatMap fun l => tagged l.stream l.text

@[simp] theorem tagged_nil (stream : Stream) : tagged stream [] = [] := rfl

@[simp] theorem tagged_append (stream : Stream) (a b : Text) :
    tagged stream (a ++ b) = tagged stream a ++ tagged stream b := List.map_append

@[simp] theorem saidBytes_nil : saidBytes [] = 0 := rfl

@[simp] theorem saidBytes_append (a b : Said) : saidBytes (a ++ b) = saidBytes a + saidBytes b := by
  simp [saidBytes]

@[simp] theorem saidBytes_tagged (stream : Stream) (text : Text) :
    saidBytes (tagged stream text) = byteLength text := by
  simp [saidBytes, tagged, Function.comp_def]

@[simp] theorem linesSaid_nil : linesSaid [] = [] := rfl

@[simp] theorem linesSaid_cons (l : JobOutputLine) (lines : List JobOutputLine) :
    linesSaid (l :: lines) = tagged l.stream l.text ++ linesSaid lines := List.flatMap_cons

@[simp] theorem linesSaid_append (a b : List JobOutputLine) :
    linesSaid (a ++ b) = linesSaid a ++ linesSaid b := List.flatMap_append

@[simp] theorem saidBytes_linesSaid (lines : List JobOutputLine) :
    saidBytes (linesSaid lines) = linesBytes lines := by
  induction lines with
  | nil => rfl
  | cons l lines ih => rw [linesSaid_cons, saidBytes_append, saidBytes_tagged, ih, linesBytes_cons]

/-! ## Chunk after chunk -/

/-- One call of `pushOutput`. -/
structure Chunk where
  stream : Stream
  raw : Text
  final : Bool
  pushedAt : Nat

/-- What was handed over so far, what was written through of it, and what is kept back. -/
structure Pushes where
  out : HostOutput
  rows : List JobOutputLine
  said : Said

namespace HostOutput
variable (redact : Text → Text)

/-- What is redacted when a chunk comes. -/
def ready (out : HostOutput) (c : Chunk) : Text :=
  if c.final then out.carry c.stream ++ c.raw else (holdBack (out.carry c.stream ++ c.raw)).1

/-- What is held back then. -/
def held (out : HostOutput) (c : Chunk) : Text :=
  if c.final then [] else (holdBack (out.carry c.stream ++ c.raw)).2

/-- What a chunk hands to the budget. -/
def handed (out : HostOutput) (c : Chunk) : Text :=
  if out.ready c = [] then [] else redact (out.ready c)

/-- Once something is past the head, nothing that comes later fits in what the head has left. -/
def InTurn (out : HostOutput) (c : Chunk) : Prop :=
  out.tail = [] ∨ ∀ first ∈ (out.handed redact c).head?,
    JOB_OUTPUT_HEAD - out.headBytes < first.utf8Size

def AllInTurn : HostOutput → List Chunk → Prop
  | _, [] => True
  | out, c :: chunks =>
    InTurn redact out c ∧ AllInTurn (out.pushOutput redact c.stream c.raw c.final c.pushedAt).1 chunks

/-- The notice the ring is flushed with. -/
def notice (out : HostOutput) (now : Nat) : List JobOutputLine :=
  if out.tail ≠ [] ∧ 0 < out.elided then [⟨-1, now, .err, elisionNotice out.elided⟩] else []

end HostOutput

namespace Pushes
open HostOutput
variable (redact : Text → Text)

def push (s : Pushes) (c : Chunk) : Pushes where
  out := (s.out.pushOutput redact c.stream c.raw c.final c.pushedAt).1
  rows := s.rows ++ (s.out.pushOutput redact c.stream c.raw c.final c.pushedAt).2
  said := s.said ++ tagged c.stream (s.out.handed redact c)

def pushAll (start : HostOutput) (chunks : List Chunk) : Pushes :=
  chunks.foldl (push redact) ⟨start, [], []⟩

/-- The rows appended are what was said with one piece left out: those written through, within the
head's budget, the notice where something was dropped, and those of the ring. Their numbers follow
one another, and what is not in them is counted. -/
structure OneGap (start : HostOutput) (s : Pushes) (now : Nat) : Prop where
  order : ∃ gap, s.said = linesSaid s.rows ++ gap ++ linesSaid s.out.tail ∧
    start.elided + saidBytes gap = (s.out.flushTail now).1.elided ∧ (gap ≠ [] → s.out.tail ≠ [])
  head : linesBytes s.rows ≤ JOB_OUTPUT_HEAD - start.headBytes
  numbers : s.rows ++ (s.out.flushTail now).2 =
    numbered start.seq (s.rows ++ s.out.notice now ++ s.out.tail)
  bytes : linesBytes s.rows + linesBytes s.out.tail + (s.out.flushTail now).1.elided =
    start.elided + saidBytes s.said

end Pushes

/-! ## The budget -/

theorem splitAtBytes_fits (text : Text) (budget : Nat) :
    byteLength (splitAtBytes text budget).1 ≤ budget := by
  induction text generalizing budget with
  | nil => exact Nat.zero_le _
  | cons c text ih =>
    unfold splitAtBytes
    split_ifs with hc
    · have hrest := ih (budget - c.utf8Size)
      rw [byteLength_cons]
      omega
    · exact Nat.zero_le _

/-- What is left over begins with a character there was no room for. -/
theorem splitAtBytes_over (text : Text) (budget : Nat) :
    ∀ first ∈ (splitAtBytes text budget).2.head?,
      budget - byteLength (splitAtBytes text budget).1 < first.utf8Size := by
  induction text generalizing budget with
  | nil => simp [splitAtBytes]
  | cons c text ih =>
    intro first hfirst
    unfold splitAtBytes at hfirst ⊢
    split_ifs at hfirst ⊢ with hc
    · have hrest := ih (budget - c.utf8Size) first hfirst
      rw [byteLength_cons]
      omega
    · obtain rfl := Option.some.inj hfirst
      rw [byteLength_nil]
      omega

theorem splitAtBytes_none {text : Text} {budget : Nat}
    (h : ∀ first ∈ text.head?, budget < first.utf8Size) : splitAtBytes text budget = ([], text) := by
  cases text with
  | nil => rfl
  | cons c text => exact if_neg (Nat.not_le.mpr (h c rfl))

theorem byteLength_pos {text : Text} (h : text ≠ []) : 0 < byteLength text := by
  cases text with
  | nil => exact absurd rfl h
  | cons c text =>
    have hc := c.utf8Size_pos
    rw [byteLength_cons]
    omega

/-! ## The ring -/

namespace HostOutput

/-- No line of the ring is empty. -/
def Inked (lines : List JobOutputLine) : Prop := ∀ l ∈ lines, l.text ≠ []

theorem trimTail_drops (lines : List JobOutputLine) (elided : Nat) :
    ∃ dropped, lines = dropped ++ (trimTail lines (linesBytes lines) elided).1 ∧
      (trimTail lines (linesBytes lines) elided).2.2 = elided + linesBytes dropped ∧
      (lines ≠ [] → (trimTail lines (linesBytes lines) elided).1 ≠ []) := by
  induction lines generalizing elided with
  | nil => exact ⟨[], rfl, rfl, fun h => h⟩
  | cons l lines ih =>
    cases lines with
    | nil => exact ⟨[], rfl, rfl, fun h => h⟩
    | cons next lines =>
      unfold trimTail
      split_ifs
      · have hrest : linesBytes (l :: next :: lines) - byteLength l.text =
            linesBytes (next :: lines) := by
          rw [linesBytes_cons, Nat.add_sub_cancel_left]
        rw [hrest]
        obtain ⟨dropped, hlines, helided, hne⟩ := ih (elided + byteLength l.text)
        refine ⟨l :: dropped, ?_, ?_, fun _ => hne (by simp)⟩
        · rw [List.cons_append, ← hlines]
        · rw [helided, linesBytes_cons, Nat.add_assoc]
      · exact ⟨[], rfl, rfl, fun h => h⟩

/-- A line as long as the ring leaves no other in it. -/
theorem trimTail_full {lines : List JobOutputLine} {last : JobOutputLine} (h : Inked lines)
    (hlast : JOB_OUTPUT_TAIL ≤ byteLength last.text) (elided : Nat) :
    trimTail (lines ++ [last]) (linesBytes (lines ++ [last])) elided =
      ([last], byteLength last.text, elided + linesBytes lines) := by
  induction lines generalizing elided with
  | nil => rfl
  | cons l lines ih =>
    have hl := byteLength_pos (h l List.mem_cons_self)
    have hrest := ih (fun k hk => h k (List.mem_cons_of_mem _ hk)) (elided + byteLength l.text)
    have hover : linesBytes (l :: lines ++ [last]) > JOB_OUTPUT_TAIL := by
      rw [linesBytes_append, linesBytes_cons, linesBytes_cons]
      omega
    have hcut : linesBytes (l :: lines ++ [last]) - byteLength l.text =
        linesBytes (lines ++ [last]) := by
      rw [List.cons_append, linesBytes_cons, Nat.add_sub_cancel_left]
    obtain ⟨next, tail, hnext⟩ : ∃ next tail, lines ++ [last] = next :: tail :=
      List.exists_cons_of_ne_nil (by simp)
    rw [List.cons_append] at hover hcut ⊢
    rw [hnext] at hover hcut hrest ⊢
    rw [trimTail, if_pos hover, hcut, hrest, linesBytes_cons, Nat.add_assoc]

variable (out : HostOutput) (stream : Stream) (now : Nat)

/-- What the ring drops for the rest of a chunk comes before all it keeps. -/
theorem pushTail_drops (rest : Text) (hweighed : out.Weighed) (hinked : Inked out.tail) :
    ∃ gap, linesSaid out.tail ++ tagged stream rest =
        gap ++ linesSaid (out.pushTail stream rest now).tail ∧
      (out.pushTail stream rest now).elided = out.elided + saidBytes gap ∧
      Inked (out.pushTail stream rest now).tail ∧
      (rest ≠ [] ∨ out.tail ≠ [] → (out.pushTail stream rest now).tail ≠ []) := by
  have hline : ∀ kept : Text, linesBytes out.tail + byteLength kept =
      linesBytes (out.tail ++ [⟨-1, now, stream, kept⟩]) := by
    intro kept
    rw [linesBytes_append, linesBytes_cons, linesBytes_nil, Nat.add_zero]
  unfold pushTail
  split_ifs with hrest hbig
  · refine ⟨[], ?_, rfl, hinked, ?_⟩
    · rw [hrest, tagged_nil, List.append_nil, List.nil_append]
    · rintro (h | h)
      · exact absurd hrest h
      · exact h
  · -- the chunk alone is more than the ring holds: all that was in it goes, and its beginning
    have happend := splitAtBytes_append rest (byteLength rest - JOB_OUTPUT_TAIL)
    have hbytes := splitAtBytes_bytes rest (byteLength rest - JOB_OUTPUT_TAIL)
    have hfits := splitAtBytes_fits rest (byteLength rest - JOB_OUTPUT_TAIL)
    generalize splitAtBytes rest (byteLength rest - JOB_OUTPUT_TAIL) = split at *
    obtain ⟨gone, kept⟩ := split
    dsimp only at happend hbytes hfits ⊢
    have hkept : JOB_OUTPUT_TAIL ≤ byteLength kept := by omega
    rw [hweighed, hline kept, trimTail_full hinked hkept]
    refine ⟨linesSaid out.tail ++ tagged stream gone, ?_, ?_, ?_, fun _ => by simp⟩
    · rw [← happend, tagged_append, linesSaid_cons, linesSaid_nil, List.append_nil,
        List.append_assoc]
    · show out.elided + byteLength gone + linesBytes out.tail = _
      rw [saidBytes_append, saidBytes_linesSaid, saidBytes_tagged]
      omega
    · intro l hl
      rw [List.mem_singleton.mp hl]
      rintro rfl
      rw [byteLength_nil, JOB_OUTPUT_TAIL] at hkept
      omega
  · dsimp only
    rw [hweighed, hline rest, byteLength_nil, Nat.add_zero]
    obtain ⟨dropped, hlines, helided, hne⟩ :=
      trimTail_drops (out.tail ++ [⟨-1, now, stream, rest⟩]) out.elided
    generalize trimTail (out.tail ++ [⟨-1, now, stream, rest⟩])
      (linesBytes (out.tail ++ [⟨-1, now, stream, rest⟩])) out.elided = trimmed at *
    obtain ⟨tail, tailBytes, elided⟩ := trimmed
    dsimp only at hlines helided hne ⊢
    refine ⟨linesSaid dropped, ?_, ?_, ?_, fun _ => hne (by simp)⟩
    · rw [← linesSaid_append, ← hlines, linesSaid_append, linesSaid_cons, linesSaid_nil,
        List.append_nil]
    · rw [helided, saidBytes_linesSaid]
    · intro l hl
      have hmem : l ∈ out.tail ++ [⟨-1, now, stream, rest⟩] := by
        rw [hlines]
        exact List.mem_append_right _ hl
      rcases List.mem_append.mp hmem with hold | hnew
      · exact hinked l hold
      · rw [List.mem_singleton.mp hnew]
        exact hrest

/-- What is written through is the beginning of a chunk, as far as the head has room. -/
theorem pushHead_takes (text : Text) :
    let p := out.pushHead stream text now
    tagged stream text = linesSaid p.2.1 ++ tagged stream p.2.2 ∧
      p.1.headBytes = out.headBytes + linesBytes p.2.1 ∧
      (out.headBytes ≤ JOB_OUTPUT_HEAD → p.1.headBytes ≤ JOB_OUTPUT_HEAD) ∧
      (∀ first ∈ p.2.2.head?, JOB_OUTPUT_HEAD - p.1.headBytes < first.utf8Size) := by
  have happend := splitAtBytes_append text (JOB_OUTPUT_HEAD - out.headBytes)
  have hfits := splitAtBytes_fits text (JOB_OUTPUT_HEAD - out.headBytes)
  have hover := splitAtBytes_over text (JOB_OUTPUT_HEAD - out.headBytes)
  unfold pushHead
  split_ifs with hroom
  · dsimp only
    split_ifs with hhead
    · rw [hhead, List.nil_append] at happend
      rw [hhead, byteLength_nil, Nat.sub_zero] at hover
      refine ⟨?_, rfl, fun h => h, hover⟩
      rw [happend]
      rfl
    · refine ⟨?_, ?_, ?_, ?_⟩
      · rw [linesSaid_cons, linesSaid_nil, List.append_nil, ← tagged_append, happend]
      · show _ = out.headBytes + linesBytes [_]
        rw [linesBytes_cons, linesBytes_nil, Nat.add_zero]
        rfl
      · intro _
        dsimp only
        omega
      · intro first hfirst
        have hlt := hover first hfirst
        dsimp only
        omega
  · refine ⟨rfl, rfl, fun h => h, ?_⟩
    intro first _
    have hpos := first.utf8Size_pos
    show JOB_OUTPUT_HEAD - out.headBytes < first.utf8Size
    omega

/-- Nothing is written through of a chunk whose first character does not fit. -/
theorem pushHead_none {text : Text}
    (h : ∀ first ∈ text.head?, JOB_OUTPUT_HEAD - out.headBytes < first.utf8Size) :
    out.pushHead stream text now = (out, [], text) := by
  unfold pushHead
  rw [splitAtBytes_none h]
  split_ifs <;> rfl

/-- A chunk is what it hands over, put in the head and then in the ring. -/
theorem pushOutput_eq (redact : Text → Text) (c : Chunk) :
    ∃ out₁ : HostOutput, out₁.tail = out.tail ∧ out₁.tailBytes = out.tailBytes ∧
      out₁.elided = out.elided ∧ out₁.headBytes = out.headBytes ∧
      out₁.carry c.stream = out.held c ∧
      let p := out₁.pushHead c.stream (out.handed redact c) c.pushedAt
      out.pushOutput redact c.stream c.raw c.final c.pushedAt =
        (p.1.pushTail c.stream p.2.2 c.pushedAt, p.2.1) := by
  obtain ⟨ready, held, hsplit, hready, hheld⟩ : ∃ ready held,
      (if c.final = true then (out.carry c.stream ++ c.raw, [])
        else holdBack (out.carry c.stream ++ c.raw)) = (ready, held) ∧ out.ready c = ready ∧
      out.held c = held := by
    unfold HostOutput.ready HostOutput.held
    cases c.final with
    | true => exact ⟨_, _, rfl, rfl, rfl⟩
    | false => exact ⟨_, _, rfl, rfl, rfl⟩
  unfold pushOutput handed
  rw [hready, hheld]
  dsimp only
  rw [hsplit]
  dsimp only
  by_cases hnothing : ready = []
  · refine ⟨{ out with carry := fun s => if s = c.stream then held else out.carry s },
      rfl, rfl, rfl, rfl, if_pos rfl, ?_⟩
    rw [if_pos hnothing, if_pos hnothing, pushHead_none _ _ _ (by simp)]
    rfl
  · obtain ⟨htail, hbytes, helided, hcarry, -⟩ := classify_keeps
      { out with carry := fun s => if s = c.stream then held else out.carry s } c.stream
      (redact ready)
    refine ⟨_, htail, hbytes, helided, ?_, ?_, ?_⟩
    · unfold classify
      cases c.stream <;> rfl
    · rw [hcarry]
      exact if_pos rfl
    · rw [if_neg hnothing, if_neg hnothing]

/-- What a chunk does: the rows written through and `rest` are what it hands over, and `gap` falls
out of the ring when `rest` is put into it. -/
structure Takes (redact : Text → Text) (out : HostOutput) (c : Chunk) (out' : HostOutput)
    (rows : List JobOutputLine) (rest : Text) (gap : Said) : Prop where
  handed : tagged c.stream (out.handed redact c) = linesSaid rows ++ tagged c.stream rest
  ring : linesSaid out.tail ++ tagged c.stream rest = gap ++ linesSaid out'.tail
  elided : out'.elided = out.elided + saidBytes gap
  headBytes : out'.headBytes = out.headBytes + linesBytes rows
  room : out.headBytes ≤ JOB_OUTPUT_HEAD → out'.headBytes ≤ JOB_OUTPUT_HEAD
  above : ∀ first ∈ rest.head?, JOB_OUTPUT_HEAD - out'.headBytes < first.utf8Size
  ringed : rest ≠ [] ∨ out.tail ≠ [] → out'.tail ≠ []
  inked : Inked out'.tail
  weighed : out'.Weighed
  numbers : rows = numbered out.seq rows
  seq : out'.seq = out.seq + rows.length

theorem pushTail_headBytes (rest : Text) :
    (out.pushTail stream rest now).headBytes = out.headBytes := by
  unfold pushTail
  split_ifs <;> rfl

theorem pushOutput_takes (redact : Text → Text) (c : Chunk) (hweighed : out.Weighed)
    (hinked : Inked out.tail) :
    ∃ rest gap, Takes redact out c (out.pushOutput redact c.stream c.raw c.final c.pushedAt).1
      (out.pushOutput redact c.stream c.raw c.final c.pushedAt).2 rest gap := by
  obtain ⟨pieces, hpushed⟩ := out.pushOutput_spec c.stream c.pushedAt redact c.raw c.final hweighed
  obtain ⟨out₁, htail, htailBytes, helided, hheadBytes, -, heq⟩ := out.pushOutput_eq redact c
  have hweighed₁ : out₁.Weighed := by
    unfold Weighed
    rw [htail, htailBytes]
    exact hweighed
  obtain ⟨pweighed, ptail, pelided, -⟩ :=
    out₁.pushHead_spec c.stream c.pushedAt (out.handed redact c) hweighed₁
  obtain ⟨phanded, pheadBytes, proom, pover⟩ :=
    out₁.pushHead_takes c.stream c.pushedAt (out.handed redact c)
  dsimp only at heq
  generalize out₁.pushHead c.stream (out.handed redact c) c.pushedAt = head at *
  obtain ⟨out₂, rows, rest⟩ := head
  dsimp only at heq pweighed ptail pelided phanded pheadBytes proom pover
  obtain ⟨gap, qring, qelided, qinked, qringed⟩ := out₂.pushTail_drops c.stream c.pushedAt rest
    pweighed (by rw [ptail, htail]; exact hinked)
  rw [ptail, htail] at qring qringed
  rw [pelided, helided] at qelided
  rw [hheadBytes] at pheadBytes proom
  rw [heq] at hpushed ⊢
  refine ⟨rest, gap, phanded, qring, qelided, ?_, ?_, ?_, qringed, qinked, hpushed.weighed,
    hpushed.numbers, hpushed.seq⟩
  · rw [pushTail_headBytes, pheadBytes]
  · rw [pushTail_headBytes]
    exact proom
  · rw [pushTail_headBytes]
    exact pover

theorem numbered_append (n : Nat) (a b : List JobOutputLine) :
    numbered n (a ++ b) = numbered n a ++ numbered (n + a.length) b := by
  induction a generalizing n with
  | nil => rfl
  | cons l a ih =>
    rw [List.cons_append, numbered, numbered, ih, List.cons_append, List.length_cons,
      Nat.add_comm a.length 1, Nat.add_assoc]

end HostOutput

/-! ## Every chunk in its turn -/

namespace Pushes
open HostOutput
variable {redact : Text → Text} {start : HostOutput} {s : Pushes}

/-- What holds after any chunks. -/
structure Sound (start : HostOutput) (s : Pushes) : Prop where
  headBytes : s.out.headBytes = start.headBytes + linesBytes s.rows
  room : s.out.headBytes ≤ JOB_OUTPUT_HEAD
  bytes : linesBytes s.rows + linesBytes s.out.tail + s.out.elided =
    start.elided + saidBytes s.said
  numbers : s.rows = numbered start.seq s.rows
  seq : s.out.seq = start.seq + s.rows.length
  weighed : s.out.Weighed
  inked : Inked s.out.tail

/-- What was said is a beginning that was written through, a gap and what the ring holds; what comes
after the beginning did not fit in the head. -/
def Ordered (s : Pushes) : Prop :=
  ∃ gap, s.said = linesSaid s.rows ++ gap ++ linesSaid s.out.tail ∧ (s.out.tail = [] → gap = []) ∧
    ∀ x ∈ (gap ++ linesSaid s.out.tail).head?, JOB_OUTPUT_HEAD - s.out.headBytes < x.2.utf8Size

/-- What was written through is no beginning of what was said. -/
def Diverged (s : Pushes) : Prop :=
  ∃ same x y xs ys, x ≠ y ∧ linesSaid s.rows = same ++ x :: xs ∧ s.said = same ++ y :: ys

theorem Sound.push (h : Sound start s) (c : Chunk) : Sound start (s.push redact c) := by
  obtain ⟨rest, gap, htakes⟩ := s.out.pushOutput_takes redact c h.weighed h.inked
  unfold Pushes.push
  generalize s.out.pushOutput redact c.stream c.raw c.final c.pushedAt = p at htakes ⊢
  obtain ⟨out', rows⟩ := p
  dsimp only at htakes ⊢
  have hhanded := congrArg saidBytes htakes.handed
  have hring := congrArg saidBytes htakes.ring
  rw [saidBytes_append, saidBytes_tagged, saidBytes_tagged, saidBytes_linesSaid] at hhanded
  rw [saidBytes_append, saidBytes_append, saidBytes_tagged, saidBytes_linesSaid,
    saidBytes_linesSaid] at hring
  refine ⟨?_, htakes.room h.room, ?_, ?_, ?_, htakes.weighed, htakes.inked⟩
  · show out'.headBytes = start.headBytes + linesBytes (s.rows ++ rows)
    rw [htakes.headBytes, h.headBytes, linesBytes_append, Nat.add_assoc]
  · show linesBytes (s.rows ++ rows) + linesBytes out'.tail + out'.elided = start.elided + saidBytes _
    have hbytes := h.bytes
    have helided := htakes.elided
    rw [linesBytes_append, saidBytes_append, saidBytes_tagged]
    omega
  · show s.rows ++ rows = numbered start.seq (s.rows ++ rows)
    rw [numbered_append, ← h.numbers, ← h.seq, ← htakes.numbers]
  · show out'.seq = start.seq + (s.rows ++ rows).length
    rw [htakes.seq, h.seq, List.length_append, Nat.add_assoc]

theorem linesSaid_ne_nil {lines : List JobOutputLine} (hinked : Inked lines) (h : lines ≠ []) :
    linesSaid lines ≠ [] := by
  obtain ⟨l, lines, rfl⟩ := List.exists_cons_of_ne_nil h
  have hl : l.text ≠ [] := hinked l List.mem_cons_self
  simp [tagged, hl]

theorem Ordered.push (h : Ordered s) (hsound : Sound start s) (c : Chunk)
    (hturn : s.out.InTurn redact c) : Ordered (s.push redact c) := by
  obtain ⟨rest, new, htakes⟩ := s.out.pushOutput_takes redact c hsound.weighed hsound.inked
  obtain ⟨gap, hsaid, hempty, hover⟩ := h
  unfold Pushes.push
  generalize s.out.pushOutput redact c.stream c.raw c.final c.pushedAt = p at htakes ⊢
  obtain ⟨out', rows⟩ := p
  dsimp only at htakes ⊢
  by_cases htail : s.out.tail = []
  · -- nothing is past the head yet: what goes past it now is the rest of this chunk
    have hring := htakes.ring
    rw [htail, linesSaid_nil, List.nil_append] at hring
    refine ⟨new, ?_, ?_, ?_⟩
    · show s.said ++ _ = linesSaid (s.rows ++ rows) ++ new ++ linesSaid out'.tail
      rw [hsaid, hempty htail, htail, linesSaid_nil, List.append_nil, List.append_nil,
        htakes.handed, hring, linesSaid_append, List.append_assoc, List.append_assoc]
    · intro htail'
      have hrest : rest = [] := by
        by_contra hne
        exact htakes.ringed (Or.inl hne) htail'
      rw [hrest, htail', tagged_nil, linesSaid_nil, List.append_nil] at hring
      exact hring.symm
    · intro x hx
      change x ∈ (new ++ linesSaid out'.tail).head? at hx
      rw [← hring, tagged, List.head?_map] at hx
      obtain ⟨first, hfirst, rfl⟩ := Option.map_eq_some_iff.mp hx
      exact htakes.above first hfirst
  · have hfirst := hturn.resolve_left htail
    have hnone : linesSaid rows = [] := by
      cases hrows : linesSaid rows with
      | nil => rfl
      | cons x more =>
        have hhanded := htakes.handed
        rw [hrows, List.cons_append] at hhanded
        have hx : ∃ first ∈ (s.out.handed redact c).head?, (c.stream, first) = x := by
          have hhead := congrArg List.head? hhanded
          rw [tagged, List.head?_map, List.head?_cons] at hhead
          exact Option.map_eq_some_iff.mp hhead
        obtain ⟨first, hmem, rfl⟩ := hx
        have hbig := hfirst first hmem
        have hbytes : linesBytes rows = first.utf8Size + saidBytes more := by
          rw [← saidBytes_linesSaid, hrows]
          rfl
        have hroom := htakes.room hsound.room
        have hheadBytes := htakes.headBytes
        omega
    have hheadBytes : out'.headBytes = s.out.headBytes := by
      rw [htakes.headBytes, ← saidBytes_linesSaid, hnone, saidBytes_nil, Nat.add_zero]
    have hhanded := htakes.handed
    rw [hnone, List.nil_append] at hhanded
    refine ⟨gap ++ new, ?_, fun hno => absurd hno (htakes.ringed (Or.inr htail)), ?_⟩
    · show s.said ++ _ = linesSaid (s.rows ++ rows) ++ (gap ++ new) ++ linesSaid out'.tail
      rw [hsaid, hhanded, linesSaid_append, hnone, List.append_nil, List.append_assoc,
        List.append_assoc, htakes.ring]
      simp only [List.append_assoc]
    · intro x hx
      change x ∈ (gap ++ new ++ linesSaid out'.tail).head? at hx
      rw [List.append_assoc, ← htakes.ring, ← List.append_assoc, List.head?_append_of_ne_nil] at hx
      · show JOB_OUTPUT_HEAD - out'.headBytes < _
        rw [hheadBytes]
        exact hover x hx
      · intro hnil
        exact linesSaid_ne_nil hsound.inked htail (List.append_eq_nil_iff.mp hnil).2

/-- A later character is written through before one that is kept back. -/
theorem Ordered.diverges (h : Ordered s) (hsound : Sound start s) (c : Chunk)
    (hturn : ¬s.out.InTurn redact c) : Diverged (s.push redact c) := by
  obtain ⟨rest, new, htakes⟩ := s.out.pushOutput_takes redact c hsound.weighed hsound.inked
  obtain ⟨gap, hsaid, -, hover⟩ := h
  unfold InTurn at hturn
  push Not at hturn
  obtain ⟨htail, first, hfirst, hfits⟩ := hturn
  unfold Pushes.push
  generalize s.out.pushOutput redact c.stream c.raw c.final c.pushedAt = p at htakes ⊢
  obtain ⟨out', rows⟩ := p
  dsimp only at htakes ⊢
  obtain ⟨y, ys, hkept⟩ : ∃ y ys, gap ++ linesSaid s.out.tail = y :: ys := by
    apply List.exists_cons_of_ne_nil
    intro hnil
    exact linesSaid_ne_nil hsound.inked htail (List.append_eq_nil_iff.mp hnil).2
  have hbig := hover y (by rw [hkept]; rfl)
  obtain ⟨xs, hrows⟩ : ∃ xs, linesSaid rows = (c.stream, first) :: xs := by
    have hhead := congrArg List.head? htakes.handed
    rw [tagged, List.head?_map, hfirst, Option.map_some] at hhead
    cases hrows : linesSaid rows with
    | nil =>
      -- then the chunk is left over as a whole, and what is left over does not fit
      rw [hrows, List.nil_append, tagged, List.head?_map] at hhead
      obtain ⟨first', hfirst', heq⟩ := Option.map_eq_some_iff.mp hhead.symm
      have hlt := htakes.above first' hfirst'
      have hbytes : linesBytes rows = 0 := by rw [← saidBytes_linesSaid, hrows, saidBytes_nil]
      rw [(Prod.mk.inj heq).2, htakes.headBytes, hbytes] at hlt
      omega
    | cons x xs =>
      rw [hrows, List.cons_append, List.head?_cons] at hhead
      exact ⟨xs, congrArg (· :: xs) (Option.some.inj hhead).symm⟩
  refine ⟨linesSaid s.rows, (c.stream, first), y, xs,
    ys ++ tagged c.stream (s.out.handed redact c), ?_, ?_, ?_⟩
  · rintro rfl
    exact absurd hbig (Nat.not_lt.mpr hfits)
  · show linesSaid (s.rows ++ rows) = _
    rw [linesSaid_append, hrows]
  · show s.said ++ _ = _
    rw [hsaid, List.append_assoc (linesSaid s.rows), hkept, List.append_assoc, List.cons_append]

theorem Diverged.push (h : Diverged s) (c : Chunk) : Diverged (s.push redact c) := by
  obtain ⟨same, x, y, xs, ys, hne, hrows, hsaid⟩ := h
  refine ⟨same, x, y,
    xs ++ linesSaid (s.out.pushOutput redact c.stream c.raw c.final c.pushedAt).2,
    ys ++ tagged c.stream (s.out.handed redact c), hne, ?_, ?_⟩
  · show linesSaid (s.rows ++ _) = _
    rw [linesSaid_append, hrows, List.append_assoc, List.cons_append]
  · show s.said ++ _ = _
    rw [hsaid, List.append_assoc, List.cons_append]

theorem Diverged.pushes (h : Diverged s) (chunks : List Chunk) :
    Diverged (chunks.foldl (Pushes.push redact) s) := by
  induction chunks generalizing s with
  | nil => exact h
  | cons c chunks ih => exact ih (h.push c)

theorem Sound.pushes (h : Sound start s) (chunks : List Chunk) :
    Sound start (chunks.foldl (Pushes.push redact) s) := by
  induction chunks generalizing s with
  | nil => exact h
  | cons c chunks ih => exact ih (h.push c)

/-- After any chunks: in order if each came in its turn, and else not any more. -/
theorem Ordered.pushes (h : Ordered s) (hsound : Sound start s) (chunks : List Chunk) :
    (AllInTurn redact s.out chunks → Ordered (chunks.foldl (Pushes.push redact) s)) ∧
      (¬AllInTurn redact s.out chunks → Diverged (chunks.foldl (Pushes.push redact) s)) := by
  induction chunks generalizing s with
  | nil => exact ⟨fun _ => h, fun hno => absurd trivial hno⟩
  | cons c chunks ih =>
    by_cases hturn : s.out.InTurn redact c
    · obtain ⟨hordered, hdiverged⟩ := ih (h.push hsound c hturn) (hsound.push c)
      constructor
      · exact fun hall => hordered hall.2
      · exact fun hno => hdiverged fun hall => hno ⟨hturn, hall⟩
    · constructor
      · exact fun hall => absurd hall.1 hturn
      · exact fun _ => (h.diverges hsound c hturn).pushes chunks

/-- A host that starts, or goes on, has said nothing yet. -/
theorem sound_fresh (seq bytes elided : Nat) :
    Sound (.fresh seq bytes elided) ⟨.fresh seq bytes elided, [], []⟩ := by
  refine ⟨rfl, Nat.min_le_right _ _, ?_, rfl, rfl, rfl, fun l hl => by cases hl⟩
  exact Nat.zero_add _

theorem ordered_fresh (seq bytes elided : Nat) : Ordered ⟨.fresh seq bytes elided, [], []⟩ :=
  ⟨[], rfl, fun _ => rfl, fun x hx => by cases hx⟩

theorem OneGap.not_diverged {now : Nat} (h : OneGap start s now) : ¬Diverged s := by
  rintro ⟨same, x, y, xs, ys, hne, hrows, hsaid⟩
  obtain ⟨gap, horder, -⟩ := h.order
  rw [hsaid, hrows, List.append_assoc, List.append_assoc, List.append_right_inj,
    List.cons_append] at horder
  exact hne (List.cons.inj horder).1.symm

theorem Ordered.oneGap (h : Ordered s) (hsound : Sound start s) (now : Nat) :
    OneGap start s now := by
  obtain ⟨gap, hsaid, hempty, -⟩ := h
  obtain ⟨-, -, helided, -, -, hnumbers, -⟩ := s.out.flushTail_spec now hsound.weighed
  have hbytes := hsound.bytes
  constructor
  · refine ⟨gap, hsaid, ?_, fun hgap htail => hgap (hempty htail)⟩
    have hall := congrArg saidBytes hsaid
    rw [saidBytes_append, saidBytes_append, saidBytes_linesSaid, saidBytes_linesSaid] at hall
    rw [helided]
    omega
  · have hhead := hsound.headBytes
    have hroom := hsound.room
    omega
  · rw [List.append_assoc, numbered_append, ← hsound.numbers, ← hsound.seq]
    congr 1
    unfold flushTail notice
    by_cases htail : s.out.tail = []
    · rw [if_pos htail, if_neg (fun hn => hn.1 htail), htail]
      rfl
    · rw [if_neg htail]
      by_cases hpos : 0 < s.out.elided
      · rw [if_pos hpos, if_pos ⟨htail, hpos⟩]
      · rw [if_neg hpos, if_neg (fun hn => hpos hn.2)]
  · rw [helided]
    exact hbytes

/-- What is stored of a host's output is what it said with one gap, exactly when every chunk comes
in its turn. -/
theorem one_gap_iff (redact : Text → Text) (seq bytes elided : Nat) (chunks : List Chunk)
    (now : Nat) :
    OneGap (.fresh seq bytes elided) (pushAll redact (.fresh seq bytes elided) chunks) now ↔
      AllInTurn redact (.fresh seq bytes elided) chunks := by
  have hsound := sound_fresh seq bytes elided
  obtain ⟨hordered, hdiverged⟩ :
      (AllInTurn redact (.fresh seq bytes elided) chunks →
        (pushAll redact (.fresh seq bytes elided) chunks).Ordered) ∧
      (¬AllInTurn redact (.fresh seq bytes elided) chunks →
        (pushAll redact (.fresh seq bytes elided) chunks).Diverged) :=
    (ordered_fresh seq bytes elided).pushes hsound chunks
  constructor
  · intro hgap
    by_contra hturn
    exact hgap.not_diverged (hdiverged hturn)
  · intro hall
    exact (hordered hall).oneGap (hsound.pushes chunks) now

/-- A line whose last character is past the `n`th byte. -/
def longLine (n : Nat) : Text := List.replicate n 'a' ++ ['é']

theorem splitAtBytes_ascii {n budget : Nat} (h : n ≤ budget) (text : Text) :
    splitAtBytes (List.replicate n 'a' ++ text) budget =
      (List.replicate n 'a' ++ (splitAtBytes text (budget - n)).1,
        (splitAtBytes text (budget - n)).2) := by
  induction n generalizing budget with
  | zero => rfl
  | succ n ih =>
    have ha : 'a'.utf8Size = 1 := rfl
    have hone : 'a'.utf8Size ≤ budget := by omega
    rw [List.replicate_succ, List.cons_append, splitAtBytes, if_pos hone, ih (by omega), ha,
      Nat.sub_sub, Nat.add_comm 1 n]
    rfl

theorem byteLength_ascii (n : Nat) : byteLength (List.replicate n 'a') = n := by
  induction n with
  | zero => rfl
  | succ n ih =>
    rw [List.replicate_succ, byteLength_cons, ih, Nat.add_comm]
    rfl

theorem holdBack_longLine {n : Nat} (h : JOB_REDACT_LINE_CARRY ≤ n) :
    holdBack (longLine n) = (longLine n, []) := by
  have hnone : ((longLine n).reverse.dropWhile fun c => !newline c) = [] := by
    rw [List.dropWhile_eq_nil_iff]
    intro c hc
    rw [List.mem_reverse, longLine, List.mem_append, List.mem_replicate, List.mem_singleton] at hc
    rcases hc with ⟨-, rfl⟩ | rfl <;> rfl
  have hlong : byteLength (longLine n) > JOB_REDACT_LINE_CARRY := by
    have htwo : byteLength ['é'] = 2 := rfl
    rw [longLine, byteLength_append, byteLength_ascii, htwo]
    omega
  unfold holdBack
  rw [hnone]
  exact if_pos hlong

/-- The last character of the line is what goes past the head. -/
theorem push_longLine {n : Nat} (h : n + 1 = JOB_OUTPUT_HEAD) :
    let out := ((HostOutput.fresh 0 0 0).pushOutput id .out (longLine n) false 0).1
    out.headBytes = n ∧ out.tail ≠ [] ∧ out.carry .out = [] := by
  have hhold := holdBack_longLine (n := n) (by
    unfold JOB_OUTPUT_HEAD at h
    unfold JOB_REDACT_LINE_CARRY
    omega)
  have hover : splitAtBytes ['é'] 1 = ([], ['é']) := rfl
  have hsplit : splitAtBytes (longLine n) JOB_OUTPUT_HEAD = (List.replicate n 'a', ['é']) := by
    rw [longLine, splitAtBytes_ascii (by omega), ← h, Nat.add_sub_cancel_left, hover,
      List.append_nil]
  have hne : longLine n ≠ [] := by simp [longLine]
  have hready : (HostOutput.fresh 0 0 0).ready ⟨.out, longLine n, false, 0⟩ = longLine n := by
    show (holdBack ([] ++ longLine n)).1 = _
    rw [List.nil_append, hhold]
  have hheld : (HostOutput.fresh 0 0 0).held ⟨.out, longLine n, false, 0⟩ = [] := by
    show (holdBack ([] ++ longLine n)).2 = _
    rw [List.nil_append, hhold]
  have hhanded : (HostOutput.fresh 0 0 0).handed id ⟨.out, longLine n, false, 0⟩ = longLine n := by
    unfold handed
    rw [hready]
    exact if_neg hne
  obtain ⟨out₁, htail, htailBytes, -, hheadBytes, hcarry, heq⟩ :=
    (HostOutput.fresh 0 0 0).pushOutput_eq id ⟨.out, longLine n, false, 0⟩
  have hweighed : out₁.Weighed := htailBytes.trans (congrArg linesBytes htail).symm
  have hinked : Inked out₁.tail := by
    rw [htail]
    exact fun l hl => by cases hl
  have hhead : out₁.pushHead .out (longLine n) 0 =
      ({ out₁ with headBytes := n, bytes := out₁.bytes + n, seq := out₁.seq + 1 },
        [⟨out₁.seq, 0, .out, List.replicate n 'a'⟩], ['é']) := by
    have hzero : out₁.headBytes = 0 := hheadBytes
    unfold pushHead
    rw [hzero, if_pos (by omega), Nat.sub_zero, hsplit]
    dsimp only
    have hnext : List.replicate n 'a' ≠ [] := by
      intro hnil
      have hlen := congrArg byteLength hnil
      rw [byteLength_ascii, byteLength_nil] at hlen
      unfold JOB_OUTPUT_HEAD at h
      omega
    rw [if_neg hnext, byteLength_ascii, Nat.zero_add]
  dsimp only at heq
  rw [hhanded, hhead] at heq
  dsimp only at heq
  rw [heq]
  refine ⟨?_, ?_, ?_⟩
  · rw [pushTail_headBytes]
  · obtain ⟨-, -, -, -, hringed⟩ := pushTail_drops
      { out₁ with headBytes := n, bytes := out₁.bytes + n, seq := out₁.seq + 1 } .out 0 ['é']
      hweighed hinked
    exact hringed (Or.inl (by simp))
  · rw [pushTail_carry]
    exact hcarry.trans hheld

/-- After the line, a short one is put in the byte that is left, before the end of the first. -/
theorem output_out_of_order :
    ¬∀ (redact : Text → Text) (chunks : List Chunk) (now : Nat),
      OneGap (.fresh 0 0 0) (pushAll redact (.fresh 0 0 0) chunks) now := by
  intro h
  obtain ⟨n, hn⟩ : ∃ n, n + 1 = JOB_OUTPUT_HEAD := ⟨JOB_OUTPUT_HEAD - 1, rfl⟩
  have hgap := h id [⟨.out, longLine n, false, 0⟩, ⟨.out, ['b', '\n'], false, 0⟩] 0
  apply hgap.not_diverged
  apply ((ordered_fresh 0 0 0).pushes (sound_fresh 0 0 0) _).2
  rintro ⟨-, hturn, -⟩
  obtain ⟨hheadBytes, htail, hcarry⟩ := push_longLine hn
  have hhanded : ((HostOutput.fresh 0 0 0).pushOutput id .out (longLine n) false 0).1.handed id
      ⟨.out, ['b', '\n'], false, 0⟩ = ['b', '\n'] := by
    unfold handed ready
    simp only [hcarry]
    decide
  have hlt := hturn.resolve_left htail 'b' (by rw [hhanded]; rfl)
  have hone : 'b'.utf8Size = 1 := rfl
  rw [hheadBytes, hone] at hlt
  omega

end Pushes

end OpsMaxx.Jobs
