import OpsMaxx.Jobs.Rows

/-!
# What is stored of a host's output

Output comes in pieces cut anywhere. A partial line is held back until it is whole, so that the
redaction sees it in one piece; what is redacted is stored up to a head budget; past it the last
bytes are kept in a ring, and what falls out of the ring is counted.
-/

set_option autoImplicit false

namespace OpsMaxx.Jobs

/-! ## Texts and their bytes -/

abbrev Text := List Char

def byteLength (text : Text) : Nat := (text.map Char.utf8Size).sum

@[simp] theorem byteLength_nil : byteLength [] = 0 := rfl

@[simp] theorem byteLength_cons (c : Char) (text : Text) :
    byteLength (c :: text) = c.utf8Size + byteLength text := rfl

@[simp] theorem byteLength_append (a b : Text) :
    byteLength (a ++ b) = byteLength a + byteLength b := by
  simp [byteLength]

/-- The longest beginning of whole characters within the budget, and the rest. -/
def splitAtBytes : Text → Nat → Text × Text
  | [], _ => ([], [])
  | c :: text, budget =>
    if c.utf8Size ≤ budget then
      (c :: (splitAtBytes text (budget - c.utf8Size)).1,
        (splitAtBytes text (budget - c.utf8Size)).2)
    else ([], c :: text)

theorem splitAtBytes_append (text : Text) (budget : Nat) :
    (splitAtBytes text budget).1 ++ (splitAtBytes text budget).2 = text := by
  induction text generalizing budget with
  | nil => rfl
  | cons c text ih =>
    unfold splitAtBytes
    split_ifs
    · rw [List.cons_append, ih]
    · rfl

theorem splitAtBytes_bytes (text : Text) (budget : Nat) :
    byteLength (splitAtBytes text budget).1 + byteLength (splitAtBytes text budget).2 =
      byteLength text := by
  rw [← byteLength_append, splitAtBytes_append]

def lastIndexOf (word text : Text) : Option Nat :=
  ((List.range (text.length + 1)).filter fun i => word.isPrefixOf (text.drop i)).getLast?

def occursIn (word text : Text) : Bool :=
  (List.range (text.length + 1)).any fun i => word.isPrefixOf (text.drop i)

/-! ## The output of a host -/

inductive Stream
  | out
  | err
  deriving DecidableEq

/-- A line in the ring has no number yet: its `seq` is -1. -/
structure JobOutputLine where
  seq : Int
  writtenAt : Nat
  stream : Stream
  text : Text
  deriving DecidableEq

def linesBytes (lines : List JobOutputLine) : Nat := (lines.map fun l => byteLength l.text).sum

@[simp] theorem linesBytes_nil : linesBytes [] = 0 := rfl

@[simp] theorem linesBytes_cons (l : JobOutputLine) (lines : List JobOutputLine) :
    linesBytes (l :: lines) = byteLength l.text + linesBytes lines := rfl

@[simp] theorem linesBytes_append (a b : List JobOutputLine) :
    linesBytes (a ++ b) = linesBytes a + linesBytes b := by
  simp [linesBytes]

/-- `bytes` is what was stored, `elided` what fell out of the ring, `carry` what is held back. -/
structure HostOutput where
  seq : Nat
  bytes : Nat
  elided : Nat
  headBytes : Nat
  tail : List JobOutputLine
  tailBytes : Nat
  carry : Stream → Text
  clsOut : Text
  clsErr : Text

def JOB_OUTPUT_HEAD : Nat := 64 * 1024

def JOB_OUTPUT_TAIL : Nat := 192 * 1024

def JOB_CLASSIFY_BYTES : Nat := 8 * 1024

def JOB_REDACT_LINE_CARRY : Nat := 4 * 1024

def JOB_REDACT_BLOCK_CARRY : Nat := 64 * 1024

def keepTail (text : Text) (budget : Nat) : Text :=
  if byteLength text ≤ budget then text else (splitAtBytes text (byteLength text - budget)).2

def newline (c : Char) : Bool := c = '\n' || c = '\r'

/-- What is ready to be redacted, and what is held back: the partial line at the end, and a key
block that is not closed. -/
def holdBack (buffered : Text) : Text × Text :=
  let cut := (buffered.reverse.dropWhile fun c => !newline c).length
  let ready := buffered.take cut
  let held := buffered.drop cut
  if byteLength held > JOB_REDACT_LINE_CARRY then (buffered, [])
  else
    match lastIndexOf "-----BEGIN ".toList ready with
    | none => (ready, held)
    | some start =>
      if occursIn "-----END ".toList (ready.drop start) then (ready, held)
      else if byteLength (ready.drop start ++ held) ≤ JOB_REDACT_BLOCK_CARRY then
        (ready.take start, ready.drop start ++ held)
      else (ready, held)

theorem holdBack_append (buffered : Text) :
    (holdBack buffered).1 ++ (holdBack buffered).2 = buffered := by
  unfold holdBack
  dsimp only
  split_ifs
  · rw [List.append_nil]
  · split
    · exact List.take_append_drop _ _
    · split_ifs
      · exact List.take_append_drop _ _
      · rw [← List.append_assoc, List.take_append_drop, List.take_append_drop]
      · exact List.take_append_drop _ _

namespace HostOutput

/-- The head is written straight through; what does not fit in it is left over. -/
def pushHead (out : HostOutput) (stream : Stream) (text : Text) (now : Nat) :
    HostOutput × List JobOutputLine × Text :=
  if out.headBytes < JOB_OUTPUT_HEAD then
    let (head, overflow) := splitAtBytes text (JOB_OUTPUT_HEAD - out.headBytes)
    if head = [] then (out, [], overflow)
    else
      ({ out with
          headBytes := out.headBytes + byteLength head
          bytes := out.bytes + byteLength head
          seq := out.seq + 1 },
        [⟨out.seq, now, stream, head⟩], overflow)
  else (out, [], text)

/-- Lines leave the ring at its front, all but the last one. -/
@[grind =] def trimTail : List JobOutputLine → Nat → Nat → List JobOutputLine × Nat × Nat
  | dropped :: next :: tail, tailBytes, elided =>
    if tailBytes > JOB_OUTPUT_TAIL then
      trimTail (next :: tail) (tailBytes - byteLength dropped.text)
        (elided + byteLength dropped.text)
    else (dropped :: next :: tail, tailBytes, elided)
  | tail, tailBytes, elided => (tail, tailBytes, elided)

def pushTail (out : HostOutput) (stream : Stream) (rest : Text) (now : Nat) : HostOutput :=
  if rest = [] then out
  else
    let (gone, kept) :=
      if byteLength rest > JOB_OUTPUT_TAIL then
        splitAtBytes rest (byteLength rest - JOB_OUTPUT_TAIL)
      else ([], rest)
    let (tail, tailBytes, elided) :=
      trimTail (out.tail ++ [⟨-1, now, stream, kept⟩]) (out.tailBytes + byteLength kept)
        (out.elided + byteLength gone)
    { out with tail := tail, tailBytes := tailBytes, elided := elided }

/-- A piece of output, redacted: its end is kept to classify the host's result. -/
def classify (out : HostOutput) (stream : Stream) (text : Text) : HostOutput :=
  match stream with
  | .out => { out with clsOut := keepTail (out.clsOut ++ text) JOB_CLASSIFY_BYTES }
  | .err => { out with clsErr := keepTail (out.clsErr ++ text) JOB_CLASSIFY_BYTES }

/-- The output after one chunk of it, and the lines to append to the store. -/
def pushOutput (redact : Text → Text) (out : HostOutput) (stream : Stream) (raw : Text)
    (final : Bool) (now : Nat) : HostOutput × List JobOutputLine :=
  let buffered := out.carry stream ++ raw
  let (ready, held) := if final then (buffered, []) else holdBack buffered
  let out := { out with carry := fun s => if s = stream then held else out.carry s }
  if ready = [] then (out, [])
  else
    let text := redact ready
    let (out, rows, rest) := (out.classify stream text).pushHead stream text now
    (out.pushTail stream rest now, rows)

def elisionNotice (bytes : Nat) : Text :=
  ("\n… " ++ toString bytes ++ " bytes elided from the middle of this server's output …\n").toList

/-- Lines get their numbers when they are written. -/
@[grind =] def numbered (seq : Nat) : List JobOutputLine → List JobOutputLine
  | [] => []
  | l :: lines => { l with seq := seq } :: numbered (seq + 1) lines

/-- The bytes of the notice that stands where the middle of the output was. -/
def noticeBytes (out : HostOutput) : Nat :=
  if out.tail ≠ [] ∧ 0 < out.elided then byteLength (elisionNotice out.elided) else 0

def flushTail (out : HostOutput) (now : Nat) : HostOutput × List JobOutputLine :=
  if out.tail = [] then (out, [])
  else
    let notice : List JobOutputLine :=
      if 0 < out.elided then [⟨-1, now, .err, elisionNotice out.elided⟩] else []
    let rows := numbered out.seq (notice ++ out.tail)
    ({ out with
        seq := out.seq + rows.length
        bytes := out.bytes + linesBytes rows
        tail := []
        tailBytes := 0 },
      rows)

end HostOutput

/-! ## The store -/

/-- A line with a number that is there already replaces it. -/
def appendLine (output : List JobOutputLine) (l : JobOutputLine) : List JobOutputLine :=
  (output.filter fun k => k.seq ≠ l.seq) ++ [l]

def appendJobOutput (output rows : List JobOutputLine) : List JobOutputLine :=
  rows.foldl appendLine output

/-- Every line stored has a number below `n`. -/
def Below (n : Nat) (output : List JobOutputLine) : Prop := ∀ l ∈ output, l.seq < n

namespace HostOutput

theorem numbered_numbered (n : Nat) (lines : List JobOutputLine) :
    numbered n (numbered n lines) = numbered n lines := by
  induction lines generalizing n with
  | nil => rfl
  | cons l lines ih => simp only [numbered, ih]

@[simp] theorem linesBytes_numbered (n : Nat) (lines : List JobOutputLine) :
    linesBytes (numbered n lines) = linesBytes lines := by
  induction lines generalizing n with
  | nil => rfl
  | cons l lines ih => simp only [numbered, linesBytes_cons, ih]

end HostOutput

open HostOutput

theorem appendLine_below {n : Nat} {output : List JobOutputLine} (h : Below n output)
    (l : JobOutputLine) (hl : l.seq = n) : appendLine output l = output ++ [l] := by
  unfold appendLine
  congr 1
  refine List.filter_eq_self.mpr fun k hk => decide_eq_true fun heq => ?_
  have hlt := h k hk
  omega

/-- Lines with new numbers are added, and replace nothing. -/
theorem appendJobOutput_below {n : Nat} {output : List JobOutputLine} (h : Below n output)
    (rows : List JobOutputLine) :
    appendJobOutput output (numbered n rows) = output ++ numbered n rows ∧
      Below (n + rows.length) (output ++ numbered n rows) := by
  induction rows generalizing n output with
  | nil =>
    rw [numbered, List.append_nil, List.length_nil, Nat.add_zero]
    exact ⟨rfl, h⟩
  | cons l rows ih =>
    have hline := appendLine_below h { l with seq := n } rfl
    have hbelow : Below (n + 1) (output ++ [{ l with seq := (n : Int) }]) := by
      intro k hk
      rcases List.mem_append.mp hk with hold | hnew
      · have hlt := h k hold
        omega
      · rw [List.mem_singleton.mp hnew]
        exact Int.ofNat_lt.mpr (Nat.lt_succ_self n)
    obtain ⟨happend, hafter⟩ := ih hbelow
    rw [appendJobOutput, numbered, List.foldl_cons, hline]
    rw [List.append_assoc, List.singleton_append] at happend hafter
    refine ⟨happend, ?_⟩
    rwa [List.length_cons, Nat.add_comm rows.length 1, ← Nat.add_assoc]

/-! ## Nothing is dropped without being counted -/

namespace HostOutput
variable (out : HostOutput) (stream : Stream) (now : Nat)

/-- The ring knows how many bytes it holds. -/
def Weighed : Prop := out.tailBytes = linesBytes out.tail

theorem trimTail_bytes (tail : List JobOutputLine) (elided : Nat) :
    (trimTail tail (linesBytes tail) elided).2.1 =
        linesBytes (trimTail tail (linesBytes tail) elided).1 ∧
      (trimTail tail (linesBytes tail) elided).2.2 +
          linesBytes (trimTail tail (linesBytes tail) elided).1 =
        elided + linesBytes tail := by
  induction tail generalizing elided with
  | nil => exact ⟨rfl, rfl⟩
  | cons dropped tail ih =>
    cases tail with
    | nil => exact ⟨rfl, rfl⟩
    | cons next tail =>
      unfold trimTail
      split_ifs
      · have hrest : linesBytes (dropped :: next :: tail) - byteLength dropped.text =
            linesBytes (next :: tail) := by
          rw [linesBytes_cons, Nat.add_sub_cancel_left]
        rw [hrest]
        obtain ⟨hweighed, hsum⟩ := ih (elided + byteLength dropped.text)
        refine ⟨hweighed, hsum.trans ?_⟩
        rw [linesBytes_cons dropped]
        omega
      · exact ⟨rfl, rfl⟩

theorem pushTail_spec (rest : Text) (h : out.Weighed) :
    (out.pushTail stream rest now).Weighed ∧
      (out.pushTail stream rest now).elided + linesBytes (out.pushTail stream rest now).tail =
        out.elided + linesBytes out.tail + byteLength rest := by
  have hsplit : ∀ gone kept : Text, byteLength gone + byteLength kept = byteLength rest →
      let trimmed := trimTail (out.tail ++ [⟨-1, now, stream, kept⟩])
        (out.tailBytes + byteLength kept) (out.elided + byteLength gone)
      trimmed.2.1 = linesBytes trimmed.1 ∧
        trimmed.2.2 + linesBytes trimmed.1 = out.elided + linesBytes out.tail + byteLength rest := by
    intro gone kept hsum
    have hline : linesBytes (out.tail ++ [⟨-1, now, stream, kept⟩]) =
        linesBytes out.tail + byteLength kept := by
      rw [linesBytes_append, linesBytes_cons, linesBytes_nil, Nat.add_zero]
    have hweight : out.tailBytes + byteLength kept =
        linesBytes (out.tail ++ [⟨-1, now, stream, kept⟩]) := by
      rw [h, hline]
    rw [hweight]
    obtain ⟨hweighed, htotal⟩ := trimTail_bytes (out.tail ++ [⟨-1, now, stream, kept⟩])
      (out.elided + byteLength gone)
    refine ⟨hweighed, htotal.trans ?_⟩
    rw [hline]
    omega
  unfold pushTail
  split_ifs with hrest hbig
  · rw [hrest]
    exact ⟨h, rfl⟩
  · exact hsplit _ _ (splitAtBytes_bytes rest _)
  · exact hsplit [] rest (Nat.zero_add _)

/-- What a chunk leaves: the pieces that were redacted, and what each of them became. -/
structure Pushed (redact : Text → Text) (out : HostOutput) (stream : Stream) (raw : Text)
    (final : Bool) (out' : HostOutput) (rows : List JobOutputLine) (pieces : List Text) : Prop where
  text : out.carry stream ++ raw = pieces.flatten ++ out'.carry stream
  other : ∀ s, s ≠ stream → out'.carry s = out.carry s
  emptied : final = true → out'.carry stream = []
  weighed : out'.Weighed
  bytes : linesBytes rows + out'.elided + linesBytes out'.tail =
    out.elided + linesBytes out.tail + (pieces.map fun p => byteLength (redact p)).sum
  numbers : rows = numbered out.seq rows
  seq : out'.seq = out.seq + rows.length

theorem pushHead_spec (text : Text) (h : out.Weighed) :
    let p := out.pushHead stream text now
    p.1.Weighed ∧ p.1.tail = out.tail ∧ p.1.elided = out.elided ∧ p.1.carry = out.carry ∧
      linesBytes p.2.1 + byteLength p.2.2 = byteLength text ∧
      p.2.1 = numbered out.seq p.2.1 ∧ p.1.seq = out.seq + p.2.1.length := by
  have hbytes := splitAtBytes_bytes text (JOB_OUTPUT_HEAD - out.headBytes)
  unfold pushHead
  split_ifs with hroom
  · dsimp only
    split_ifs with hhead
    · rw [hhead, byteLength_nil] at hbytes
      exact ⟨h, rfl, rfl, rfl, hbytes, rfl, rfl⟩
    · refine ⟨h, rfl, rfl, rfl, ?_, rfl, rfl⟩
      rw [linesBytes_cons, linesBytes_nil, Nat.add_zero]
      exact hbytes
  · exact ⟨h, rfl, rfl, rfl, Nat.zero_add _, rfl, rfl⟩

@[simp] theorem pushTail_carry (rest : Text) :
    (out.pushTail stream rest now).carry = out.carry := by
  unfold pushTail
  split_ifs <;> rfl

@[simp] theorem pushTail_seq (rest : Text) : (out.pushTail stream rest now).seq = out.seq := by
  unfold pushTail
  split_ifs <;> rfl

theorem classify_keeps (text : Text) :
    (out.classify stream text).tail = out.tail ∧
      (out.classify stream text).tailBytes = out.tailBytes ∧
      (out.classify stream text).elided = out.elided ∧
      (out.classify stream text).carry = out.carry ∧
      (out.classify stream text).seq = out.seq := by
  cases stream <;> exact ⟨rfl, rfl, rfl, rfl, rfl⟩

theorem pushOutput_spec (redact : Text → Text) (raw : Text) (final : Bool) (h : out.Weighed) :
    ∃ pieces, Pushed redact out stream raw final (out.pushOutput redact stream raw final now).1
      (out.pushOutput redact stream raw final now).2 pieces := by
  have hheld : ∃ ready held, (if final = true then (out.carry stream ++ raw, [])
      else holdBack (out.carry stream ++ raw)) = (ready, held) ∧
      out.carry stream ++ raw = ready ++ held ∧ (final = true → held = []) := by
    cases final with
    | true => exact ⟨_, _, rfl, (List.append_nil _).symm, fun _ => rfl⟩
    | false => exact ⟨_, _, rfl, (holdBack_append _).symm, fun h => (by cases h)⟩
  obtain ⟨ready, held, hsplit, htext, hfinal⟩ := hheld
  unfold pushOutput
  dsimp only
  rw [hsplit]
  dsimp only
  split_ifs with hready
  · refine ⟨[], ?_, fun s hs => if_neg hs, fun hf => ?_, h, ?_, rfl, rfl⟩
    · rw [htext, hready]
      exact (if_pos rfl).symm
    · exact (if_pos rfl).trans (hfinal hf)
    · rw [linesBytes_nil, Nat.zero_add, List.map_nil, List.sum_nil, Nat.add_zero]
  · generalize hheldout : ({ out with carry := fun s => if s = stream then held else out.carry s } :
      HostOutput) = out₁
    have hcarry : out₁.carry = fun s => if s = stream then held else out.carry s := by
      rw [← hheldout]
    have hkept : out₁.tail = out.tail ∧ out₁.elided = out.elided ∧ out₁.seq = out.seq ∧
        out₁.Weighed := by
      rw [← hheldout]
      exact ⟨rfl, rfl, rfl, h⟩
    obtain ⟨htail, helided, hseq, hweighed⟩ := hkept
    obtain ⟨ctail, ctailBytes, celided, ccarry, cseq⟩ := out₁.classify_keeps stream (redact ready)
    have hclassified : (out₁.classify stream (redact ready)).Weighed := by
      unfold Weighed
      rw [ctail, ctailBytes]
      exact hweighed
    have hhead := (out₁.classify stream (redact ready)).pushHead_spec stream now (redact ready)
      hclassified
    generalize (out₁.classify stream (redact ready)).pushHead stream (redact ready) now = head
      at hhead ⊢
    obtain ⟨out₂, rows, rest⟩ := head
    dsimp only at hhead ⊢
    obtain ⟨pweighed, ptail, pelided, pcarry, pbytes, pnumbers, pseq⟩ := hhead
    obtain ⟨qweighed, qbytes⟩ := out₂.pushTail_spec stream now rest pweighed
    refine ⟨[ready], ?_, fun s hs => ?_, fun hf => ?_, qweighed, ?_, ?_, ?_⟩
    · rw [pushTail_carry, pcarry, ccarry, hcarry, htext, List.flatten_cons, List.flatten_nil,
        List.append_nil]
      exact congrArg _ (if_pos rfl).symm
    · rw [pushTail_carry, pcarry, ccarry, hcarry]
      exact if_neg hs
    · rw [pushTail_carry, pcarry, ccarry, hcarry]
      exact (if_pos rfl).trans (hfinal hf)
    · rw [pelided, ptail, celided, ctail, helided, htail] at qbytes
      simp only [List.map_cons, List.map_nil, List.sum_cons, List.sum_nil]
      omega
    · rw [cseq, hseq] at pnumbers
      exact pnumbers
    · rw [pushTail_seq, pseq, cseq, hseq]

theorem flushTail_spec (h : out.Weighed) :
    (out.flushTail now).1.tail = [] ∧ (out.flushTail now).1.Weighed ∧
      (out.flushTail now).1.elided = out.elided ∧ (out.flushTail now).1.carry = out.carry ∧
      linesBytes (out.flushTail now).2 = linesBytes out.tail + out.noticeBytes ∧
      (out.flushTail now).2 = numbered out.seq (out.flushTail now).2 ∧
      (out.flushTail now).1.seq = out.seq + (out.flushTail now).2.length := by
  unfold flushTail noticeBytes
  split_ifs with htail hnotice helided hnotice hnotice
  · exact absurd htail hnotice.1
  · refine ⟨htail, h, rfl, rfl, ?_, rfl, rfl⟩
    rw [htail]
    rfl
  · refine ⟨rfl, rfl, rfl, rfl, ?_, (numbered_numbered _ _).symm, rfl⟩
    rw [linesBytes_numbered, List.singleton_append, linesBytes_cons, Nat.add_comm]
  · exact absurd ⟨htail, helided⟩ hnotice
  · exact absurd hnotice.2 helided
  · refine ⟨rfl, rfl, rfl, rfl, ?_, (numbered_numbered _ _).symm, rfl⟩
    rw [linesBytes_numbered, List.nil_append]
    rfl

end HostOutput

end OpsMaxx.Jobs
