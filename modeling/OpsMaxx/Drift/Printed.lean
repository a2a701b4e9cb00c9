import OpsMaxx.Drift.Collect

/-! # What the collector prints

The script's output on a host, watch by watch: the header of each file and, where its content is
sent, the content and the closing record.
-/

set_option autoImplicit false

namespace OpsMaxx.Drift

open OpsMaxx.Strings OpsMaxx.Sidecar

/-- What is printed about one watch, without its id. -/
structure Block where
  status : DriftStatus
  size : Text
  chunks : Option (List Text)

def headerLine (id : Text) (s : DriftStatus) (size : Text) : Text :=
  'F' :: ' ' :: id ++ ' ' :: s.word ++ ' ' :: size

def chunkLine (chunk : Text) : Text := 'D' :: ' ' :: chunk

def closingLine (id : Text) : Text := 'X' :: ' ' :: id

def Block.lines (id : Text) (b : Block) : List Text :=
  headerLine id b.status b.size ::
    match b.chunks with
    | none => []
    | some chunks => chunks.map chunkLine ++ [closingLine id]

namespace Host

variable (h : Host) (cap : Nat) (escalate : Bool)

def hasTool : Bool := (encoders.find? h.commands).isSome

/-- The block of a file that is being read: `n` as it was measured, `b` as it was delivered. -/
def readBlock (n : Nat) (b : Bytes) : Block :=
  if h.hasTool = false then ⟨.noTool, ['-'], none⟩
  else if cap < n then ⟨.tooLarge, digits n, none⟩
  else ⟨.ok, digits n, some (h.wrap (base64Encode b))⟩

def classifyBlock (p : Text) : Block :=
  if h.mayEnter .self (parentOf p) = false then ⟨.denied, ['-'], none⟩
  else if h.sees .self p = false then ⟨.absent, ['-'], none⟩
  else if h.isFile .self p = false then ⟨.unsupported, ['-'], none⟩
  else ⟨.denied, ['-'], none⟩

/-- This account can read the file itself. -/
def ownRead (p : Text) : Bool := h.isFile .self p && h.canRead .self p

/-- It cannot, the script may use `sudo`, and `sudo` finds the file. -/
def rootRead (p : Text) : Bool :=
  !h.ownRead p && escalate && h.sudoRuns "true".toList &&
    (h.sudoRuns "test".toList && h.isFile .root p)

def blockOf (p : Text) : Block :=
  if h.ownRead p then h.readBlock cap ((h.counted p).getD 0) (h.readAs .self p)
  else if h.rootRead escalate p then h.readBlock cap 0 (h.sudoCat p)
  else h.classifyBlock p

/-- The variables after the script's first statements; only `SP_N` changes behind them. -/
structure Ready (env : Env) : Prop where
  b64 : env .spB64 = (encoders.find? h.commands).getD []
  cap : env .spCap = digits cap
  sudo_probed : escalate = true → (env .spSudo = ['1'] ↔ h.sudoRuns "true".toList = true)

variable {h cap escalate} {env : Env}

theorem Ready.update (r : h.Ready cap escalate env) (t : Text) :
    h.Ready cap escalate (Function.update env .spN t) := by
  constructor
  · rw [Function.update_of_ne (by decide)]
    exact r.b64
  · rw [Function.update_of_ne (by decide)]
    exact r.cap
  · rw [Function.update_of_ne (by decide)]
    exact r.sudo_probed

theorem Ready.toolless (r : h.Ready cap escalate env) :
    h.holds env (.isEmpty .spB64) = !h.hasTool := by
  show (env .spB64 == []) = _
  rw [r.b64]
  unfold hasTool
  cases hfind : encoders.find? h.commands with
  | none => rfl
  | some c =>
    have hnonempty : ∀ c ∈ encoders, c ≠ [] := by decide
    have hc : c ≠ [] := hnonempty c (List.mem_of_find?_eq_some hfind)
    simpa using hc

/-! ## One watch -/

theorem exec_seq (s t : Stmt) :
    h.exec env (.seq s t) = ((h.exec (h.exec env s).1 t).1,
      (h.exec env s).2 ++ (h.exec (h.exec env s).1 t).2) := rfl

theorem exec_ite (c : Test) (s t : Stmt) :
    h.exec env (.ite c s t) = if h.holds env c then h.exec env s else h.exec env t := rfl

@[simp] theorem exec_header (w : DriftWatch) (s : DriftStatus) (size : Piece) :
    h.exec env (header w s size) = (env, [headerLine w.id s (piece env size)]) := by
  simp [header, exec, piece, headerLine]

/-- `SP_N` once it was measured and nothing was made zero. -/
theorem exec_measure {p : Text} {a : Account} {n : Nat} (r : h.Ready cap escalate env)
    (hsize : (h.sizeOf a p).filter (· != ' ') = digits n ∨
      (h.sizeOf a p).filter (· != ' ') = [] ∧ n = 0) :
    ∃ env', h.Ready cap escalate env' ∧ env' .spN = digits n ∧
      h.exec (h.exec env (.size a .spN p)).1
        (.ite (.isEmpty .spN) (.assign .spN ['0']) .skip) = (env', []) := by
  have hexec : (h.exec env (.size a .spN p)).1 =
      Function.update env .spN ((h.sizeOf a p).filter (· != ' ')) := rfl
  rw [hexec, exec_ite]
  obtain ht | ⟨ht, rfl⟩ := hsize
  · rw [ht]
    refine ⟨_, r.update (digits n), Function.update_self .., ?_⟩
    rw [if_neg]
    · rfl
    · have hne : digits n ≠ [] := Nat.toDigits_ne_nil
      simpa [holds] using hne
  · rw [ht]
    refine ⟨_, (r.update []).update ['0'], Function.update_self .., ?_⟩
    rw [if_pos]
    · rfl
    · simp [holds]

/-- The statements of a read, run: `n` as it was measured, `b` what was sent. -/
theorem exec_readFile {w : DriftWatch} {a : Account} {send : Stmt} {n : Nat} {b : Bytes}
    (r : h.Ready cap escalate env)
    (hsize : (h.sizeOf a w.path).filter (· != ' ') = digits n ∨
      (h.sizeOf a w.path).filter (· != ' ') = [] ∧ n = 0)
    (hsend : ∀ env, h.exec env send = (env, h.encoded b)) :
    (h.exec env (readFile w a send)).2 = (h.readBlock cap n b).lines w.id ∧
      h.Ready cap escalate (h.exec env (readFile w a send)).1 := by
  unfold readFile readBlock
  rw [exec_ite, r.toolless]
  cases htool : h.hasTool with
  | false =>
    rw [if_pos (by rfl), if_pos rfl, exec_header]
    exact ⟨rfl, r⟩
  | true =>
    rw [if_neg (by simp), if_neg (by simp)]
    obtain ⟨env', r', hn, hexec⟩ := exec_measure r hsize
    have habove : h.holds env' (.above .spN .spCap) = decide (cap < n) := by
      simp only [holds, hn, r'.cap, number_digits]
    have hquiet : (h.exec env (.size a .spN w.path)).2 = [] := rfl
    rw [exec_seq, exec_seq, hexec, hquiet, exec_ite, habove]
    by_cases hcap : cap < n
    · rw [if_pos (decide_eq_true hcap), if_pos hcap, exec_header]
      refine ⟨?_, r'⟩
      simp only [piece, hn]
      rfl
    · rw [if_neg (by simpa using hcap), if_neg hcap, exec_seq, exec_seq, exec_header, hsend]
      refine ⟨?_, r'⟩
      simp [Block.lines, encoded, chunkLine, closingLine, piece, exec, hn]

theorem exec_classify (w : DriftWatch) :
    h.exec env (classify w) = (env, (h.classifyBlock w.path).lines w.id) := by
  unfold classify classifyBlock
  simp only [exec_ite, holds, Bool.not_eq_true', exec_header]
  split_ifs with henter hthere hfile
  · rfl
  · rfl
  · rfl
  · rfl

theorem measured_self (p : Text) (hread : h.canRead .self p = true) :
    (h.sizeOf .self p).filter (· != ' ') = digits ((h.counted p).getD 0) ∨
      (h.sizeOf .self p).filter (· != ' ') = [] ∧ (h.counted p).getD 0 = 0 := by
  unfold sizeOf
  rw [if_pos hread]
  show (h.countOf p).filter _ = _ ∨ (h.countOf p).filter _ = [] ∧ _
  unfold countOf
  cases hcount : h.counted p with
  | none => exact Or.inr ⟨rfl, rfl⟩
  | some n =>
    left
    have hpad : (List.replicate h.padding ' ').filter (· != ' ') = [] := by simp
    have hdigits : (digits n).filter (· != ' ') = digits n := by
      rw [List.filter_eq_self]
      intro c hc
      have hdigit : c.isDigit = true := Nat.isDigit_of_mem_toDigits (by decide) (by decide) hc
      have hspace : c ≠ ' ' := by
        rintro rfl
        exact absurd hdigit (by decide)
      simpa using hspace
    rw [List.filter_append, hpad, hdigits]
    rfl

/-- The redirect of the escalated measuring is the shell's own, and the shell cannot open it. -/
theorem measured_root (p : Text) (hread : h.canRead .self p = false) :
    (h.sizeOf .root p).filter (· != ' ') = digits 0 ∨
      (h.sizeOf .root p).filter (· != ' ') = [] ∧ 0 = 0 := by
  unfold sizeOf
  rw [if_neg (by simp [hread])]
  exact Or.inr ⟨rfl, rfl⟩

/-- A regular file this account does not read itself, it cannot open. -/
theorem canRead_of_rootRead {p : Text} (hroot : h.rootRead escalate p = true) :
    h.canRead .self p = false := by
  simp only [rootRead, ownRead, isFile, canRead, Bool.and_eq_true, Bool.not_eq_true'] at hroot
  obtain ⟨⟨⟨hown, -⟩, -⟩, -, -, hkind⟩ := hroot
  rw [hkind] at hown
  cases hsees : h.sees .self p with
  | false => simp [canRead, hsees]
  | true =>
    rw [hsees] at hown
    simpa [canRead, hsees] using hown

theorem exec_readWatch (r : h.Ready cap escalate env) (w : DriftWatch) :
    (h.exec env (readWatch escalate w)).2 = (h.blockOf cap escalate w.path).lines w.id ∧
      h.Ready cap escalate (h.exec env (readWatch escalate w)).1 := by
  unfold readWatch blockOf
  have hself : h.holds env (.and (.isFile w.path) (.canRead w.path)) = h.ownRead w.path := rfl
  rw [exec_ite, hself]
  by_cases hown : h.ownRead w.path = true
  · rw [if_pos hown, if_pos hown]
    have hread : h.canRead .self w.path = true := (Bool.and_eq_true_iff.mp hown).2
    exact exec_readFile r (measured_self w.path hread) fun _ => rfl
  · rw [if_neg hown, if_neg hown]
    have hroot : h.rootRead escalate w.path =
        (escalate && h.sudoRuns "true".toList &&
          (h.sudoRuns "test".toList && h.isFile .root w.path)) := by
      unfold rootRead
      rw [Bool.not_eq_true] at hown
      rw [hown]
      rfl
    cases hesc : escalate with
    | false =>
      subst hesc
      rw [if_neg (by simp), hroot, if_neg (by simp), exec_classify]
      exact ⟨rfl, r⟩
    | true =>
      subst hesc
      rw [if_pos rfl, exec_ite]
      have hprobe : h.holds env (.and (.equals .spSudo ['1']) (.sudoIsFile w.path)) =
          h.rootRead true w.path := by
        rw [hroot]
        have heq : (env .spSudo == ['1']) = h.sudoRuns "true".toList := by
          rw [Bool.eq_iff_iff, beq_iff_eq]
          exact r.sudo_probed rfl
        simp only [holds, heq, Bool.true_and]
      rw [hprobe]
      by_cases hr : h.rootRead true w.path = true
      · rw [if_pos hr, if_pos hr]
        exact exec_readFile r (measured_root w.path (canRead_of_rootRead hr)) fun _ => rfl
      · rw [if_neg hr, if_neg hr, exec_classify]
        exact ⟨rfl, r⟩

/-! ## The whole script -/

theorem exec_statements_append (ss ts : List Stmt) :
    (h.exec env (statements (ss ++ ts))).2 = (h.exec env (statements ss)).2 ++
      (h.exec (h.exec env (statements ss)).1 (statements ts)).2 := by
  induction ss generalizing env with
  | nil => rfl
  | cons s ss ih =>
    simp only [List.cons_append, statements, exec]
    rw [ih, List.append_assoc]

theorem exec_watches (r : h.Ready cap escalate env) (watches : List DriftWatch) :
    (h.exec env (statements (watches.map (readWatch escalate)))).2 =
      watches.flatMap fun w => (h.blockOf cap escalate w.path).lines w.id := by
  induction watches generalizing env with
  | nil => rfl
  | cons w ws ih =>
    obtain ⟨hlines, hready⟩ := exec_readWatch r w
    simp only [List.map_cons, statements, exec, List.flatMap_cons]
    rw [hlines, ih hready]

variable (h cap escalate)

/-- The lines the script prints. -/
def printed (watches : List DriftWatch) : List Text :=
  DRIFT_MARKER :: (watches.flatMap fun w => (h.blockOf cap escalate w.path).lines w.id) ++
    [DRIFT_STATUS_MARKER]

def prologue : List Stmt :=
  [.firstOf .spB64 encoders, .assign .spCap (digits cap)] ++
    (if escalate then
      [.assign .spSudo ['0'], .ite .sudoProbe (.assign .spSudo ['1']) .skip] else [])

theorem exec_prologue :
    h.Ready cap escalate (h.exec (fun _ => []) (statements (prologue cap escalate))).1 ∧
      (h.exec (fun _ => []) (statements (prologue cap escalate))).2 = [] := by
  unfold prologue
  cases escalate with
  | false =>
    refine ⟨⟨?_, ?_, ?_⟩, rfl⟩
    · simp [statements, exec, Function.update]
    · simp [statements, exec]
    · simp
  | true =>
    by_cases hsudo : h.sudoRuns "true".toList = true
    · have hprobe : ∀ env, h.holds env .sudoProbe = true := fun _ => hsudo
      refine ⟨⟨?_, ?_, ?_⟩, ?_⟩
      · simp [statements, exec, hprobe, Function.update]
      · simp [statements, exec, hprobe, Function.update]
      · simpa [statements, exec, hprobe] using hsudo
      · simp [statements, exec, hprobe]
    · have hprobe : ∀ env, h.holds env .sudoProbe = false :=
        fun _ => Bool.eq_false_iff.mpr hsudo
      refine ⟨⟨?_, ?_, ?_⟩, ?_⟩
      · simp [statements, exec, hprobe, Function.update]
      · simp [statements, exec, hprobe, Function.update]
      · simpa [statements, exec, hprobe] using hsudo
      · simp [statements, exec, hprobe]

theorem run_buildDriftCommand (watches : List DriftWatch) :
    h.run (buildDriftCommand watches cap escalate) =
      unlines (h.printed cap escalate watches) := by
  obtain ⟨hready, hquiet⟩ := exec_prologue h cap escalate
  have hshape : buildDriftCommand watches cap escalate =
      statements (prologue cap escalate ++ ([.print [.lit DRIFT_MARKER]] ++
        (watches.map (readWatch escalate) ++ [.print [.lit DRIFT_STATUS_MARKER]]))) := by
    simp only [buildDriftCommand, prologue, List.append_assoc]
  unfold run printed
  rw [hshape, exec_statements_append, hquiet, exec_statements_append, exec_statements_append]
  apply congrArg unlines
  have hmarker : ∀ env, h.exec env (statements [.print [.lit DRIFT_MARKER]]) =
      (env, [DRIFT_MARKER]) := fun _ => rfl
  have hstatus : ∀ env, (h.exec env (statements [.print [.lit DRIFT_STATUS_MARKER]])).2 =
      [DRIFT_STATUS_MARKER] := fun _ => rfl
  rw [hmarker, hstatus, exec_watches hready]
  rfl

end Host

end OpsMaxx.Drift
