import OpsMaxx.Curl.Parse

/-! # The draft a copied command gives -/

set_option autoImplicit false

namespace OpsMaxx.Curl
open Strings

/-! ## Nothing to trim -/

/-- A text that ends in something other than white space. -/
def Inked (p : Text) : Prop := ∃ q c, p = q ++ [c] ∧ isInk c = true

theorem Inked.append {q : Text} (h : Inked q) (p : Text) : Inked (p ++ q) := by
  obtain ⟨r, c, rfl, hc⟩ := h
  exact ⟨p ++ r, c, (List.append_assoc _ _ _).symm, hc⟩

theorem shellQuote_inked (s : Text) : Inked (shellQuote s) := ⟨_, _, rfl, by decide⟩

theorem flagged_inked (flag : String) (arg : Text) : Inked (flagged flag arg) := by
  show Inked (flag.toList ++ ([' '] ++ shellQuote arg))
  exact ((shellQuote_inked arg).append _).append _

theorem isInk_of_isBare {c : Char} (h : isBare c = true) : isInk c = true := by
  unfold isInk
  have hm := isBare_plain h []
  by_contra hs
  have hspace : isSpace c = true := by simpa using hs
  have hback : c ≠ '\\' := by
    rintro rfl
    exact absurd h (by decide)
  simp [move, hspace, hback] at hm

theorem bare_inked {w : Text} (hne : w ≠ []) (h : ∀ c ∈ w, isBare c = true) : Inked w := by
  refine ⟨w.dropLast, w.getLast hne, (List.dropLast_append_getLast hne).symm, ?_⟩
  exact isInk_of_isBare (h _ (List.getLast_mem hne))

theorem bodyParts_inked (b : OutBody) : ∀ p ∈ bodyParts b, Inked p := by
  intro p hp
  cases b with
  | none => exact absurd hp List.not_mem_nil
  | text t ct =>
    rw [List.mem_singleton.mp hp]
    exact flagged_inked _ _
  | form rows =>
    obtain ⟨r, -, rfl⟩ := List.mem_map.mp hp
    exact flagged_inked _ _
  | file name =>
    rw [List.mem_singleton.mp hp]
    exact flagged_inked _ _

theorem digits_inked (n : Nat) : Inked (digits n) :=
  bare_inked (digits_bare n).1 (digits_bare n).2

theorem Inked.cons {q : Text} (h : Inked q) (c : Char) : Inked (c :: q) := h.append [c]

theorem insecureParts_inked (insecure : Bool) : ∀ p ∈ insecureParts insecure, Inked p := by
  intro p hp
  unfold insecureParts at hp
  split_ifs at hp
  · rw [List.mem_singleton.mp hp]
    exact bare_inked (by decide) (by decide)
  · exact absurd hp List.not_mem_nil

theorem redirectParts_inked (redirects : Nat) : ∀ p ∈ redirectParts redirects, Inked p := by
  intro p hp
  unfold redirectParts at hp
  split_ifs at hp
  · rw [List.mem_singleton.mp hp]
    exact ((((digits_inked _).cons ' ').append _).cons ' ').append _
  · exact absurd hp List.not_mem_nil

theorem timeoutParts_inked (timeout : Nat) : ∀ p ∈ timeoutParts timeout, Inked p := by
  intro p hp
  unfold timeoutParts at hp
  split_ifs at hp
  · rw [List.mem_singleton.mp hp]
    exact ((digits_inked _).cons ' ').append _
  · exact absurd hp List.not_mem_nil

theorem parts_inked (out : Outgoing) (spec : HttpRequestSpec) : ∀ p ∈ parts out spec, Inked p := by
  intro p hp
  unfold parts at hp
  simp only [List.mem_append, List.mem_singleton, List.mem_map] at hp
  rcases hp with ((((((hp | hp) | hp) | hp) | hp) | hp) | hp) | hp
  · rw [hp]
    exact bare_inked (by decide) (by decide)
  · split_ifs at hp
    · rw [List.mem_singleton.mp hp]
      exact flagged_inked _ _
    · exact absurd hp List.not_mem_nil
  · rw [hp]
    exact shellQuote_inked _
  · obtain ⟨h, -, rfl⟩ := hp
    exact flagged_inked _ _
  · exact bodyParts_inked _ p hp
  · exact insecureParts_inked _ p hp
  · exact redirectParts_inked _ p hp
  · exact timeoutParts_inked _ p hp

theorem joinParts_inked {ps : List Text} (hne : ps ≠ []) (h : ∀ p ∈ ps, Inked p) :
    Inked (joinParts ps) := by
  induction ps with
  | nil => exact absurd rfl hne
  | cons p ps ih =>
    cases ps with
    | nil => exact h p List.mem_cons_self
    | cons q ps =>
      exact (ih (by simp) fun x hx => h x (List.mem_cons_of_mem _ hx)).append _

theorem trim_eq_self {c : Char} {s : Text} (hc : isInk c = true) (h : Inked (c :: s)) :
    trim (c :: s) = c :: s := by
  have hcs : isSpace c = false := by simpa [isInk] using hc
  obtain ⟨q, d, he, hd⟩ := h
  have hds : isSpace d = false := by simpa [isInk] using hd
  unfold trim trimStart trimEnd
  rw [List.dropWhile_cons_of_neg (by simp [hcs]), he, List.rdropWhile_concat_neg]
  simp [hds]

theorem trim_toCurl [UpperCase] (req : HttpRequest) (spec : HttpRequestSpec) :
    trim (toCurl req spec).1 = (toCurl req spec).1 := by
  have hink : Inked (toCurl req spec).1 :=
    joinParts_inked (by simp [parts]) (parts_inked (outgoing req spec) spec)
  have hhead : ∃ s, (toCurl req spec).1 = 'c' :: s := by
    have hne : (parts (outgoing req spec) spec).tail ≠ [] := by simp [parts]
    unfold toCurl
    obtain ⟨p, ps, hps⟩ : ∃ p ps, parts (outgoing req spec) spec = "curl".toList :: p :: ps := by
      cases ht : (parts (outgoing req spec) spec).tail with
      | nil => exact absurd ht hne
      | cons p ps => exact ⟨p, ps, by rw [← ht]; rfl⟩
    rw [hps]
    exact ⟨_, rfl⟩
  obtain ⟨s, hs⟩ := hhead
  rw [hs] at hink ⊢
  exact trim_eq_self (by decide) hink

/-! ## Its arguments -/

def bodyArgs (b : OutBody) : List Text := (bodyRead b).flatMap Prod.snd

def limitArgs (out : Outgoing) (spec : HttpRequestSpec) : List Text :=
  (insecureRead out.insecure).flatMap Prod.snd
    ++ ((redirectRead (spec.maxRedirects.getD 0)).flatMap Prod.snd
      ++ (timeoutRead (spec.timeoutMs.getD 0)).flatMap Prod.snd)

def formArgs (rows : List MultipartRow) : List Text :=
  rows.flatMap fun r => ["-F".toList, unixLines (formArg r)]

def headerArgs (headers : List (Text × Text)) : List Text :=
  headers.flatMap fun h => ["-H".toList, unixLines (headerArg h)]

def copiedArgs (out : Outgoing) (spec : HttpRequestSpec) : List Text :=
  (if out.method ≠ GET then ["-X".toList, unixLines out.method] else [])
    ++ (unixLines out.url :: (headerArgs out.headers ++ (bodyArgs out.body ++ limitArgs out spec)))

/-- The command is split into the arguments it was made of. -/
theorem tokenize_toCurl [UpperCase] (req : HttpRequest) (spec : HttpRequestSpec) :
    tokenize (trim (toCurl req spec).1)
      = .ok ⟨"curl".toList :: copiedArgs (outgoing req spec) spec, false⟩ := by
  rw [trim_toCurl]
  unfold tokenize toCurl
  rw [unixLines_joinParts, ← readParts_fst,
    joinParts_reads (by simp [readParts]) (readParts_reads _ _)]
  have hargs : (readParts (outgoing req spec) spec).flatMap Prod.snd
      = "curl".toList :: copiedArgs (outgoing req spec) spec := by
    unfold readParts copiedArgs bodyArgs limitArgs headerArgs
    simp only [List.flatMap_append, List.flatMap_cons, List.flatMap_map, List.append_assoc,
      List.cons_append, List.nil_append]
    congr 1
    split_ifs
    · rfl
    · rfl
  rw [hargs]

/-! ## One argument after another -/

section Read
variable [UpperCase]

theorem readArgs_shortValue {c : Char} (hdash : c ≠ '-') (hc : c ∈ SHORT_WITH_ARG) (v : Text)
    (rest : List Text) (d : Draft) :
    readArgs (['-', c] :: v :: rest) d = readArgs rest (d.apply (longName c) (some v)) := by
  have hne : ['-', c] ≠ "--".toList := by
    intro h
    exact hdash (List.cons.inj (List.cons.inj h).2).1
  have htake : ['-', c].take 2 ≠ "--".toList := hne
  conv => lhs; unfold readArgs
  rw [if_neg hne, if_neg htake, if_pos ⟨rfl, by simp⟩]
  simp only [List.tail_cons, shortFlags, if_pos hc, if_true]

theorem readArgs_short {c : Char} (hdash : c ≠ '-') (hc : c ∉ SHORT_WITH_ARG) (rest : List Text)
    (d : Draft) : readArgs (['-', c] :: rest) d = readArgs rest (d.apply (longName c) none) := by
  have hne : ['-', c] ≠ "--".toList := by
    intro h
    exact hdash (List.cons.inj (List.cons.inj h).2).1
  have htake : ['-', c].take 2 ≠ "--".toList := hne
  conv => lhs; unfold readArgs
  rw [if_neg hne, if_neg htake, if_pos ⟨rfl, by simp⟩]
  simp only [List.tail_cons, shortFlags, if_neg hc, if_true]

theorem readArgs_longValue {name : Text} (hne : name ≠ []) (heq : '=' ∉ name)
    (hn : name ∈ LONG_WITH_ARG.map String.toList) (v : Text) (rest : List Text) (d : Draft) :
    readArgs (("--".toList ++ name) :: v :: rest) d
      = readArgs rest (d.apply name (some v)) := by
  have hlong : "--".toList ++ name ≠ "--".toList := by
    intro h
    exact hne (List.append_cancel_left (h.trans (List.append_nil _).symm))
  have htake : ("--".toList ++ name).take 2 = "--".toList := rfl
  have hdrop : ("--".toList ++ name).drop 2 = name := rfl
  conv => lhs; unfold readArgs
  rw [if_neg hlong, if_pos htake, hdrop, splitFirst_none heq]
  simp only [if_pos hn]

theorem readArgs_positional {a : Text} (h : a.head? ≠ some '-') (rest : List Text) (d : Draft) :
    readArgs (a :: rest) d = readArgs rest { d with positional := d.positional ++ [a] } := by
  have hne : a ≠ "--".toList := by
    rintro rfl
    exact h rfl
  have htake : a.take 2 ≠ "--".toList := by
    intro ht
    cases a with
    | nil => cases ht
    | cons c a =>
      have hc := (List.cons.inj ht).1
      exact h (congrArg some hc)
  conv => lhs; unfold readArgs
  rw [if_neg hne, if_neg htake, if_neg fun hd => h hd.1]

/-! ## The draft -/

/-- The header an emitted `-H` gives. -/
def copiedHeader (h : Text × Text) : Option (Text × Text) :=
  let v := unixLines (headerArg h)
  if v.head? = some '@' then none else readHeader v

/-- The field an emitted `-F` gives. -/
def copiedField (r : MultipartRow) : Option FormField :=
  (splitFirst '=' (unixLines (formArg r))).map fun p => readField true p.1 p.2

omit [UpperCase] in
theorem note_notes (d : Draft) (n : Note) : ∃ ns, d.note n = { d with notes := ns } := by
  unfold Draft.note
  split_ifs
  · exact ⟨d.notes, rfl⟩
  · exact ⟨_, rfl⟩

theorem apply_header (d : Draft) (h : Text × Text) :
    ∃ ns, d.apply "header".toList (some (unixLines (headerArg h)))
      = { d with headers := d.headers ++ (copiedHeader h).toList, notes := ns } := by
  show ∃ ns, (if (unixLines (headerArg h)).head? = some '@' then _ else _) = _
  unfold copiedHeader
  simp only
  split_ifs with hat
  · obtain ⟨ns, hns⟩ := note_notes d (fileNote "-H" (unixLines (headerArg h)).tail)
    exact ⟨ns, by simp only [Option.toList_none, List.append_nil]; exact hns⟩
  · exact ⟨d.notes, rfl⟩

theorem apply_form (d : Draft) (r : MultipartRow) :
    ∃ ns, d.apply "form".toList (some (unixLines (formArg r)))
      = { d with form := d.form ++ (copiedField r).toList, notes := ns } := by
  show ∃ ns, d.addForm true (unixLines (formArg r)) = _
  unfold Draft.addForm copiedField
  cases splitFirst '=' (unixLines (formArg r)) with
  | none =>
    obtain ⟨ns, hns⟩ := note_notes d (.formNotPair ("-F ".toList ++ unixLines (formArg r)))
    refine ⟨ns, ?_⟩
    simp only [Option.map_none, Option.toList_none, List.append_nil]
    exact hns
  | some p =>
    simp only [Option.map_some, Option.toList_some]
    cases (readField true p.1 p.2).file with
    | none => exact ⟨d.notes, rfl⟩
    | some file => exact note_notes _ _

theorem readArgs_headers (headers : List (Text × Text)) (rest : List Text) (d : Draft) :
    ∃ ns, readArgs (headerArgs headers ++ rest) d
      = readArgs rest
          { d with headers := d.headers ++ headers.filterMap copiedHeader, notes := ns } := by
  induction headers generalizing d with
  | nil => exact ⟨d.notes, by simp [headerArgs]⟩
  | cons h headers ih =>
    obtain ⟨ns, hns⟩ := apply_header d h
    obtain ⟨ns', hns'⟩ :=
      ih { d with headers := d.headers ++ (copiedHeader h).toList, notes := ns }
    refine ⟨ns', ?_⟩
    show readArgs (['-', 'H'] :: unixLines (headerArg h) :: (headerArgs headers ++ rest)) d = _
    rw [readArgs_shortValue (by decide) (by decide)]
    show readArgs _ (d.apply "header".toList _) = _
    rw [hns, hns']
    cases hc : copiedHeader h with
    | none => simp [hc]
    | some p => simp [hc]

theorem readArgs_form (rows : List MultipartRow) (rest : List Text) (d : Draft) :
    ∃ ns, readArgs (formArgs rows ++ rest) d
      = readArgs rest { d with form := d.form ++ rows.filterMap copiedField, notes := ns } := by
  induction rows generalizing d with
  | nil => exact ⟨d.notes, by simp [formArgs]⟩
  | cons r rows ih =>
    obtain ⟨ns, hns⟩ := apply_form d r
    obtain ⟨ns', hns'⟩ := ih { d with form := d.form ++ (copiedField r).toList, notes := ns }
    refine ⟨ns', ?_⟩
    show readArgs (['-', 'F'] :: unixLines (formArg r) :: (formArgs rows ++ rest)) d = _
    rw [readArgs_shortValue (by decide) (by decide)]
    show readArgs _ (d.apply "form".toList _) = _
    rw [hns, hns']
    cases hc : copiedField r with
    | none => simp [hc]
    | some p => simp [hc]

theorem readArgs_insecure (insecure : Bool) (rest : List Text) (d : Draft) :
    ∃ ns, readArgs ((insecureRead insecure).flatMap Prod.snd ++ rest) d
      = readArgs rest { d with notes := ns } := by
  unfold insecureRead
  split_ifs
  · obtain ⟨ns, hns⟩ := note_notes d .insecure
    refine ⟨ns, ?_⟩
    show readArgs (['-', 'k'] :: rest) d = _
    rw [readArgs_short (by decide) (by decide), ← hns]
    rfl
  · exact ⟨d.notes, rfl⟩

theorem readArgs_redirects (redirects : Nat) (rest : List Text) (d : Draft) :
    ∃ l m, readArgs ((redirectRead redirects).flatMap Prod.snd ++ rest) d
      = readArgs rest { d with location := l, maxRedirs := m } := by
  unfold redirectRead
  split_ifs
  · refine ⟨true, some (digits redirects), ?_⟩
    show readArgs (['-', 'L'] :: ("--".toList ++ "max-redirs".toList) :: digits redirects :: rest) d
      = _
    rw [readArgs_short (by decide) (by decide),
      readArgs_longValue (by decide) (by decide) (by decide)]
    rfl
  · exact ⟨d.location, d.maxRedirs, rfl⟩

theorem readArgs_timeout (timeout : Nat) (d : Draft) :
    ∃ t, readArgs ((timeoutRead timeout).flatMap Prod.snd) d = { d with maxTime := t } := by
  unfold timeoutRead
  split_ifs
  · refine ⟨d.maxTime ++ [digits ((timeout + 999) / 1000)], ?_⟩
    show readArgs (("--".toList ++ "max-time".toList) :: digits ((timeout + 999) / 1000) :: []) d = _
    rw [readArgs_longValue (by decide) (by decide) (by decide)]
    rfl
  · exact ⟨d.maxTime, rfl⟩

/-- The flags behind the body change neither what is sent nor where. -/
theorem readArgs_limits (out : Outgoing) (spec : HttpRequestSpec) (d : Draft) :
    ∃ l m t ns, readArgs (limitArgs out spec) d
      = { d with location := l, maxRedirs := m, maxTime := t, notes := ns } := by
  unfold limitArgs
  obtain ⟨ns, h₁⟩ := readArgs_insecure out.insecure _ d
  obtain ⟨l, m, h₂⟩ := readArgs_redirects (spec.maxRedirects.getD 0) _ { d with notes := ns }
  obtain ⟨t, h₃⟩ := readArgs_timeout (spec.timeoutMs.getD 0)
    { d with notes := ns, location := l, maxRedirs := m }
  refine ⟨l, m, t, ns, ?_⟩
  rw [h₁, h₂, h₃]

def copiedData : OutBody → List Text
  | .text text _ => [unixLines text]
  | _ => []

def copiedForm : OutBody → List FormField
  | .form rows => rows.filterMap copiedField
  | _ => []

theorem readArgs_body {b : OutBody} (hb : ∀ name, b ≠ .file name) (rest : List Text) (d : Draft) :
    ∃ ns, readArgs (bodyArgs b ++ rest) d
      = readArgs rest { d with
          data := d.data ++ copiedData b, form := d.form ++ copiedForm b, notes := ns } := by
  cases b with
  | none => exact ⟨d.notes, by simp [bodyArgs, bodyRead, copiedData, copiedForm]⟩
  | text t ct =>
    refine ⟨d.notes, ?_⟩
    show readArgs (("--".toList ++ "data-raw".toList) :: unixLines t :: rest) d = _
    rw [readArgs_longValue (by decide) (by decide) (by decide)]
    simp only [copiedData, copiedForm, List.append_nil]
    rfl
  | form rows =>
    obtain ⟨ns, hns⟩ := readArgs_form rows rest d
    refine ⟨ns, ?_⟩
    have hargs : bodyArgs (.form rows) = formArgs rows := by
      unfold bodyArgs bodyRead formArgs
      rw [List.flatMap_map]
      rfl
    rw [hargs, hns]
    simp only [copiedData, copiedForm, List.append_nil]
  | file name => exact absurd rfl (hb name)

/-- The draft of a copied command, but for the flags that say neither what is sent nor where. -/
def copiedDraft (out : Outgoing) (l : Bool) (m : Option Text) (t : List Text) (ns : List Note) :
    Draft :=
  { method := if out.method ≠ GET then some (toUpperCase (unixLines out.method)) else none
    headers := out.headers.filterMap copiedHeader
    data := copiedData out.body
    form := copiedForm out.body
    positional := [unixLines out.url]
    location := l, maxRedirs := m, maxTime := t, notes := ns }

theorem readArgs_copied {out : Outgoing} (spec : HttpRequestSpec)
    (hurl : (unixLines out.url).head? ≠ some '-') (hb : ∀ name, out.body ≠ .file name) :
    ∃ l m t ns, readArgs (copiedArgs out spec) {} = copiedDraft out l m t ns := by
  let method := if out.method ≠ GET then some (toUpperCase (unixLines out.method)) else none
  have hmethod : ∀ rest, readArgs
      ((if out.method ≠ GET then ["-X".toList, unixLines out.method] else []) ++ rest) {}
      = readArgs rest { method := method } := by
    intro rest
    show _ = readArgs rest { method := if out.method ≠ GET then _ else none }
    split_ifs
    · show readArgs (['-', 'X'] :: unixLines out.method :: rest) {} = _
      rw [readArgs_shortValue (by decide) (by decide)]
      rfl
    · rfl
  unfold copiedArgs
  obtain ⟨n₁, h₁⟩ := readArgs_headers out.headers (bodyArgs out.body ++ limitArgs out spec)
    { method := method, positional := [unixLines out.url] }
  obtain ⟨n₂, h₂⟩ := readArgs_body hb (limitArgs out spec)
    { method := method, positional := [unixLines out.url],
      headers := out.headers.filterMap copiedHeader, notes := n₁ }
  obtain ⟨l, m, t, ns, h₃⟩ := readArgs_limits out spec
    { method := method, positional := [unixLines out.url],
      headers := out.headers.filterMap copiedHeader, data := copiedData out.body,
      form := copiedForm out.body, notes := n₂ }
  refine ⟨l, m, t, ns, ?_⟩
  rw [hmethod, readArgs_positional hurl]
  simp only [List.nil_append] at h₁ h₂ ⊢
  rw [h₁, h₂, h₃]
  rfl

theorem parseCurl_ok_url {text : Text} {req : HttpRequest} {ns : List Note}
    (h : parseCurl text = .ok (req, ns)) : req.url ≠ [] := by
  have hdraft : ∀ (d : Draft) (c : Char) (cs : Text), draftUrl d (c :: cs) ≠ [] := by
    intro d c cs
    unfold draftUrl
    split_ifs <;> simp
  unfold parseCurl at h
  cases ht : tokenize (trim text) with
  | error e =>
    rw [ht] at h
    cases h
  | ok tokens =>
    rw [ht] at h
    simp only at h
    split at h
    · cases h
    · split at h
      · unfold parseDraft at h
        split at h
        · cases h
          exact hdraft _ _ _
        · cases h
          exact hdraft _ _ _
        · cases h
      · cases h

/-- What the import makes of a copied command. -/
theorem parseCurl_toCurl (req : HttpRequest) (spec : HttpRequestSpec) (hne : spec.url ≠ [])
    (hdash : spec.url.head? ≠ some '-') (hb : ∀ name, (outgoing req spec).body ≠ .file name) :
    ∃ d l m t ns ns', d = copiedDraft (outgoing req spec) l m t ns ∧
      parseCurl (toCurl req spec).1 = .ok (draftRequest d (unixLines spec.url), ns') := by
  obtain ⟨c, cs, hurl⟩ : ∃ c cs, unixLines spec.url = c :: cs ∧ c ≠ '-' := by
    cases hs : spec.url with
    | nil => exact absurd hs hne
    | cons c s =>
      rw [hs] at hdash
      unfold unixLines unixLinesFrom
      split_ifs with hc hcr
      · exact ⟨'\n', _, rfl, by decide⟩
      · exact absurd hcr.1 (by decide)
      · refine ⟨c, _, rfl, ?_⟩
        intro he
        exact hdash (congrArg some he)
  have hhead : (unixLines (outgoing req spec).url).head? ≠ some '-' := by
    show (unixLines spec.url).head? ≠ some '-'
    rw [hurl.1]
    intro he
    exact hurl.2 (Option.some.inj he)
  obtain ⟨l, m, t, ns, hd⟩ := readArgs_copied spec hhead hb
  refine ⟨_, l, m, t, ns, ns, rfl, ?_⟩
  have hcurl : isCurl "curl".toList = true := by decide
  unfold parseCurl
  rw [tokenize_toCurl]
  simp only [hcurl, if_true, Bool.false_eq_true, if_false]
  rw [hd]
  have hpos : (copiedDraft (outgoing req spec) l m t ns).positional = [c :: cs] := by
    show [unixLines spec.url] = _
    rw [hurl.1]
  unfold parseDraft
  rw [hpos, hurl.1]
  rfl

end Read

end OpsMaxx.Curl
