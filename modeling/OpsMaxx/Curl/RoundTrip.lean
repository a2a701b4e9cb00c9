import OpsMaxx.Curl.Kept

/-! # Copy as cURL and back

When the command a request is copied as is read back as the request that is sent.
-/

set_option autoImplicit false

namespace OpsMaxx.Curl
open Strings

/-! ## The same request -/

/-- The bytes of a body that is not in parts. -/
def bodyBytes : Body → Option (List UInt8)
  | .none => some []
  | .text _ text => some (utf8 text)
  | .urlencoded rows =>
    some (utf8 (formText ((rows.filter isPresent).map fun r => (r.key, r.value))))
  | .multipart _ => none
  | .binary _ => none

/-- The body read back is the one that is sent: none, the same rows, or the same bytes. -/
def SameBody (req : HttpRequest) (spec : HttpRequestSpec) (parsed : Body) : Prop :=
  match spec.body with
  | none => parsed = .none
  | some sent =>
    match req.body with
    | .multipart rows =>
      ∃ rows', parsed = .multipart rows' ∧
        (rows'.filter fun r => r.enabled).map part = (rows.filter fun r => r.enabled).map part
    | _ => bodyBytes parsed = some (utf8 sent)

structure SameRequest (req : HttpRequest) (spec : HttpRequestSpec) (parsed : HttpRequest) :
    Prop where
  method : parsed.method = spec.method
  url : parsed.url = spec.url
  headers : parsed.headers = rowsOf spec.headers
  body : SameBody req spec parsed.body

def outRows : OutBody → List MultipartRow
  | .form rows => rows
  | _ => []

/-- Some header or text row is written as an argument that names a file to read. -/
def ReadsLocalFile (out : Outgoing) : Prop :=
  (∃ h ∈ out.headers, (headerArg h).head? = some '@') ∨
    ∃ r ∈ outRows out.body, r.kind = .text ∧
      ∃ key rest, splitFirst '=' (formArg r) = some (key, rest) ∧
        (rest.head? = some '@' ∨ rest.head? = some '<')

/-- The command is read back as the request that is sent, and reads no file for a text. -/
def CopiesTheRequest [UpperCase] (req : HttpRequest) (spec : HttpRequestSpec) : Prop :=
  (∃ parsed notes, parseCurl (toCurl req spec).1 = .ok (parsed, notes) ∧
    SameRequest req spec parsed) ∧ ¬ ReadsLocalFile (outgoing req spec)

/-- A body that comes through: nothing is left in the draft of a request that has none, every
enabled row is kept, or the text is. -/
def BodyKept (req : HttpRequest) (spec : HttpRequestSpec) : Prop :=
  match spec.body, bodyFromTemplate req with
  | none, .text t => t = []
  | none, .form rows => rows = []
  | none, _ => True
  | some _, .form rows => rows ≠ [] ∧ ∀ r ∈ rows, RowKept r
  | some sent, _ => TextKept (contentTypeOf spec.headers) sent

structure Copyable (req : HttpRequest) (spec : HttpRequestSpec) : Prop where
  method : '\r' ∉ spec.method
  url_ne : spec.url ≠ []
  url : '\r' ∉ spec.url
  headers : ∀ h ∈ spec.headers, HeaderKept h
  body : BodyKept req spec

/-! ## Text bodies -/

/-- The body a text of the sent bytes is read back as. -/
def readBack (contentType sent : Text) : Body :=
  if '\x00' ∈ decodeText sent ∨ decodeText sent = [] then .none
  else bodyOfText contentType false (unixLines (decodeText sent))

theorem presentRows (pairs : List (Text × Text)) :
    ((rowsOf pairs).filter isPresent).map (fun r => (r.key, r.value))
      = pairs.filter fun p => trim p.1 ≠ [] := by
  induction pairs with
  | nil => rfl
  | cons p pairs ih =>
    have hrows : rowsOf (p :: pairs) = ⟨true, p.1, p.2⟩ :: rowsOf pairs := rfl
    rw [hrows]
    by_cases hp : trim p.1 = []
    · rw [List.filter_cons_of_neg (by simp [isPresent, hp]),
        List.filter_cons_of_neg (by simp [hp]), ih]
    · rw [List.filter_cons_of_pos (by simp [isPresent, hp]),
        List.filter_cons_of_pos (by simp [hp]), List.map_cons, ih]

theorem bodyOfText_bytes (contentType s : Text) :
    bodyBytes (bodyOfText contentType false s) =
      some (utf8 (if readsAsForm contentType s then
        formText ((parseQuery ('?' :: s)).filter fun p => trim p.1 ≠ []) else s)) := by
  unfold bodyOfText readsAsForm
  by_cases hj : (containsText "json" contentType || looksJson s) = true
  · simp only [hj, if_true, Bool.not_true, Bool.false_and, Bool.false_eq_true, if_false]
    rfl
  · by_cases hx : containsText "xml" contentType = true
    · simp only [hj, hx, if_true, Bool.not_true, Bool.and_false, Bool.false_and,
        Bool.false_eq_true, if_false]
      rfl
    · by_cases hf : isFormText s = true
      · simp only [hj, hx, hf, Bool.false_or, Bool.not_false, Bool.and_true, if_true,
          Bool.false_eq_true, if_false]
        show some (utf8 (formText _)) = _
        rw [presentRows]
      · simp only [hj, hx, hf, Bool.false_or, Bool.and_false, Bool.false_eq_true, if_false]
        rfl

theorem decodeText_of_no_mark {s : Text} (h : s.head? ≠ some '\ufeff') : decodeText s = s :=
  if_neg h

theorem decodeText_length {s : Text} (h : s.head? = some '\ufeff') :
    (decodeText s).length < s.length := by
  unfold decodeText
  rw [if_pos h]
  cases s with
  | nil => cases h
  | cons c s => simp

theorem decodeText_subset (s : Text) : decodeText s ⊆ s := by
  unfold decodeText
  split_ifs
  · exact fun _ h => List.mem_of_mem_tail h
  · exact fun _ h => h

theorem not_form_nil (contentType : Text) : readsAsForm contentType [] = false := by
  have h : isFormText [] = false := by decide
  unfold readsAsForm
  rw [h, Bool.and_false]

theorem textKept_nil (contentType : Text) : TextKept contentType [] := by
  refine ⟨List.not_mem_nil, List.not_mem_nil, by simp, ?_⟩
  rw [not_form_nil]
  intro h
  cases h

/-- A text body comes back byte for byte exactly when it is kept. -/
theorem readBack_kept (contentType sent : Text) :
    bodyBytes (readBack contentType sent) = some (utf8 sent) ↔ TextKept contentType sent := by
  unfold readBack
  constructor
  · intro h
    split_ifs at h with hgone
    · have hbytes : some (utf8 []) = some (utf8 sent) := h
      have hnil : sent = [] := (utf8_injective (Option.some.inj hbytes)).symm
      rw [hnil]
      exact textKept_nil contentType
    · push Not at hgone
      rw [bodyOfText_bytes] at h
      have hsent := utf8_injective (Option.some.inj h)
      split_ifs at hsent with hform
      · rw [← hsent]
        refine ⟨?_, ?_, ?_, ?_⟩
        · exact not_mem_formText (by decide) (by decide) (by decide) (by decide) (by decide) _
        · exact not_mem_formText (by decide) (by decide) (by decide) (by decide) (by decide) _
        · intro hmark
          apply not_mem_formText (d := '\ufeff') (by decide) (by decide) (by decide) (by decide)
            (by decide)
          exact List.mem_of_mem_head? hmark
        · intro _
          exact ⟨_, fun r hr => by simpa using (List.mem_filter.mp hr).2, rfl⟩
      · have hcr : '\r' ∉ sent := by
          rw [← hsent]
          exact no_cr_unixLines _
        have hcr' : '\r' ∉ decodeText sent := fun hm => hcr (decodeText_subset sent hm)
        rw [(unixLines_eq_self _).mpr hcr'] at hsent hform
        have hmark : sent.head? ≠ some '\ufeff' := by
          intro hm
          have hlen := decodeText_length hm
          rw [hsent] at hlen
          omega
        rw [hsent] at hgone hform
        exact ⟨hcr, hgone.1, hmark, fun hf => absurd hf hform⟩
  · rintro ⟨hcr, hnul, hmark, hform⟩
    rw [decodeText_of_no_mark hmark, (unixLines_eq_self _).mpr hcr]
    split_ifs with hgone
    · have hnil : sent = [] := hgone.resolve_left hnul
      rw [hnil]
      rfl
    · rw [bodyOfText_bytes]
      split_ifs with hf
      · obtain ⟨rows, hrows, rfl⟩ := hform hf
        rw [parseQuery_formText, List.filter_eq_self.mpr]
        intro r hr
        simpa using hrows r hr
      · rfl

/-! ## Upper case in ASCII -/

theorem toNat_toUpper (c : Char) :
    c.toUpper.toNat = if 97 ≤ c.toNat ∧ c.toNat ≤ 122 then c.toNat - 32 else c.toNat := by
  unfold Char.toUpper
  split
  · rename_i hc
    have hlow : 97 ≤ c.toNat := UInt32.le_iff_toNat_le.mp hc.1
    have hhigh : c.toNat ≤ 122 := UInt32.le_iff_toNat_le.mp hc.2
    rw [if_pos ⟨hlow, hhigh⟩]
    show (c.val + _).toNat = _
    have hval : c.val.toNat = c.toNat := rfl
    rw [UInt32.toNat_add, hval]
    show (c.toNat + 4294967264) % 4294967296 = _
    omega
  · rename_i hc
    rw [if_neg]
    rintro ⟨hlow, hhigh⟩
    exact hc ⟨UInt32.le_iff_toNat_le.mpr hlow, UInt32.le_iff_toNat_le.mpr hhigh⟩

theorem toUpper_toUpper (c : Char) : c.toUpper.toUpper = c.toUpper := by
  apply Char.ext
  apply UInt32.toNat.inj
  show c.toUpper.toUpper.toNat = c.toUpper.toNat
  rw [toNat_toUpper c.toUpper, toNat_toUpper c]
  split_ifs <;> omega

/-- Upper case of ASCII texts, which is all the examples need. -/
@[reducible] def asciiUpper : UpperCase :=
  { upper := fun c => [c.toUpper]
    upper_upper := fun c => by
      rw [List.flatMap_singleton, toUpper_toUpper]
    upper_ascii := fun _ _ => rfl
    upper_cr := fun c h => by
      have hcr := congrArg Char.toNat (List.mem_singleton.mp h)
      have h13 : '\r'.toNat = 13 := rfl
      rw [toNat_toUpper, h13] at hcr
      apply Char.ext
      apply UInt32.toNat.inj
      show c.toNat = '\r'.toNat
      split_ifs at hcr <;> omega }

def plainCtx : BuildCtx :=
  { tpl := id, vaultResolve := id, isPrivateHost := fun _ => false, formBytes := fun _ => []
    fileBytes := [] }

/-! ## What is sent -/

section Sent
variable [UpperCase]

theorem toUpperCase_toUpperCase (s : Text) : toUpperCase (toUpperCase s) = toUpperCase s := by
  unfold toUpperCase
  rw [List.flatMap_assoc]
  apply List.flatMap_congr
  intro c _
  exact UpperCase.upper_upper c

theorem toUpperCase_ascii {s : Text} (h : ∀ c ∈ s, c.toNat < 128) :
    toUpperCase s = s.map Char.toUpper := by
  induction s with
  | nil => rfl
  | cons c s ih =>
    have hc := UpperCase.upper_ascii c (h c List.mem_cons_self)
    show UpperCase.upper c ++ toUpperCase s = _
    rw [hc, ih fun d hd => h d (List.mem_cons_of_mem _ hd)]
    rfl

theorem toUpperCase_get : toUpperCase GET = GET := by
  rw [toUpperCase_ascii (by decide)]
  decide

theorem cr_of_cr_toUpperCase {s : Text} (h : '\r' ∈ toUpperCase s) : '\r' ∈ s := by
  obtain ⟨c, hc, hu⟩ := List.mem_flatMap.mp h
  exact UpperCase.upper_cr c hu ▸ hc

variable {ctx : BuildCtx} {req : HttpRequest} {spec : HttpRequestSpec}

theorem Sent.method_upper (h : Sent ctx req spec) : toUpperCase spec.method = spec.method := by
  rw [h.method]
  unfold methodOf
  split_ifs
  · exact toUpperCase_get
  · exact toUpperCase_toUpperCase _

theorem Sent.method_ne (h : Sent ctx req spec) : spec.method ≠ [] := by
  rw [h.method]
  unfold methodOf
  split_ifs with hm
  · decide
  · exact hm

theorem Sent.out_method (h : Sent ctx req spec) : (outgoing req spec).method = spec.method := by
  show toUpperCase (if spec.method = [] then GET else spec.method) = _
  rw [if_neg h.method_ne, h.method_upper]

theorem Sent.get_no_body (h : Sent ctx req spec) (hm : spec.method = GET) : spec.body = none := by
  rw [h.body, if_neg]
  unfold methodAllowsBody
  rw [h.method_upper, hm]
  decide

omit [UpperCase] in
theorem ensureScheme_head (ctx : BuildCtx) (url : Text) :
    (ensureScheme ctx url).head? ≠ some '-' := by
  unfold ensureScheme
  simp only
  split_ifs with hs ht hp
  · intro hh
    unfold hasScheme at hs
    rw [hh] at hs
    exact absurd hs (by simp; intro h; exact absurd h (by decide))
  · rcases ht with ht | ht
    · rw [ht]
      simp
    · intro hh
      cases htr : trim url with
      | nil =>
        rw [htr] at hh
        cases hh
      | cons c s =>
        rw [htr] at hh ht
        have h₁ : c = '-' := Option.some.inj hh
        have h₂ : c = '{' := (List.cons.inj ht).1
        rw [h₁] at h₂
        exact absurd h₂ (by decide)
  · intro hh
    exact absurd (Option.some.inj hh) (by decide)
  · intro hh
    exact absurd (Option.some.inj hh) (by decide)

theorem Sent.url_head (h : Sent ctx req spec) : spec.url.head? ≠ some '-' := by
  obtain ⟨url, hu⟩ := h.url
  rw [hu]
  exact ensureScheme_head ctx url

/-! ## The draft, piece by piece -/

/-- No header has a line break or NUL in it. -/
def PlainHeaders (spec : HttpRequestSpec) : Prop :=
  ∀ h ∈ spec.headers, hasControl h.1 = false ∧ hasControl h.2 = false

omit [UpperCase] in
theorem PlainHeaders.kept (h : PlainHeaders spec) : keptHeaders spec.headers = spec.headers := by
  apply List.filter_eq_self.mpr
  intro p hp
  simp [h p hp]

omit [UpperCase] in
theorem no_cr_of_plain {s : Text} (h : hasControl s = false) : '\r' ∉ s := by
  intro hm
  unfold hasControl at h
  rw [List.any_eq_false] at h
  exact h _ hm (by decide)

omit [UpperCase] in
theorem PlainHeaders.copied (h : PlainHeaders spec) :
    spec.headers.filterMap copiedHeader = spec.headers ↔ ∀ p ∈ spec.headers, HeaderKept p := by
  rw [filterMap_eq_self]
  apply forall₂_congr
  intro p hp
  apply copiedHeader_eq
  unfold headerArg
  intro hm
  rcases List.mem_append.mp hm with hm | hm
  · exact no_cr_of_plain (h p hp).1 hm
  · rcases List.mem_cons.mp hm with hm | hm
    · exact absurd hm (by decide)
    · rcases List.mem_cons.mp hm with hm | hm
      · exact absurd hm (by decide)
      · exact no_cr_of_plain (h p hp).2 hm

omit [UpperCase] in
theorem rowsOf_injective : Function.Injective rowsOf := by
  apply Function.Injective.list_map
  intro p q h
  exact Prod.ext (congrArg Row.key h) (congrArg Row.value h)

omit [UpperCase] in
theorem unixLines_ne_nil {s : Text} (h : s ≠ []) : unixLines s ≠ [] := by
  cases s with
  | nil => exact absurd rfl h
  | cons c s =>
    unfold unixLines unixLinesFrom
    split_ifs with hr hcr
    · simp
    · exact absurd hcr.1 (by decide)
    · simp

theorem draftBody_copied (out : Outgoing) (l : Bool) (m : Option Text) (t : List Text)
    (ns : List Note) :
    draftBody (copiedDraft out l m t ns) =
      match out.body with
      | .text text _ =>
        if text = [] then .none
        else bodyOfText (contentTypeOf (out.headers.filterMap copiedHeader)) false (unixLines text)
      | .form rows =>
        if rows = [] then .none else .multipart ((rows.filterMap copiedField).map partOf)
      | _ => .none := by
  cases hb : out.body with
  | none => simp [draftBody, copiedDraft, hb, copiedForm, copiedData, joinedData, List.intercalate]
  | file name =>
    simp [draftBody, copiedDraft, hb, copiedForm, copiedData, joinedData, List.intercalate]
  | text text ct =>
    by_cases ht : text = []
    · simp [draftBody, copiedDraft, hb, copiedForm, copiedData, joinedData, List.intercalate, ht,
        unixLines, unixLinesFrom]
    · simp [draftBody, copiedDraft, hb, copiedForm, copiedData, joinedData, List.intercalate, ht,
        unixLines_ne_nil ht]
  | form rows =>
    cases rows with
    | nil => simp [draftBody, copiedDraft, hb, copiedForm, copiedData, joinedData, List.intercalate]
    | cons r rows =>
      obtain ⟨f, hf, -⟩ := copiedField_key r
      simp [draftBody, copiedDraft, hb, copiedForm, hf]

omit [UpperCase] in
theorem bodyOfText_ne_none (contentType : Text) (u : Bool) (s : Text) :
    bodyOfText contentType u s ≠ .none := by
  unfold bodyOfText
  split_ifs <;> simp

omit [UpperCase] in
theorem sameBody_text {sent : Text} (hsent : spec.body = some sent)
    (hrows : ∀ rows, req.body ≠ .multipart rows) (parsed : Body) :
    SameBody req spec parsed ↔ bodyBytes parsed = some (utf8 sent) := by
  unfold SameBody
  rw [hsent]
  cases hb : req.body with
  | multipart rows => exact absurd hb (hrows rows)
  | none => rfl
  | text mode t => rfl
  | urlencoded rows => rfl
  | binary f => rfl

omit [UpperCase] in
theorem sameBody_none (hsent : spec.body = none) (parsed : Body) :
    SameBody req spec parsed ↔ parsed = .none := by
  unfold SameBody
  rw [hsent]

/-- The body of the draft, for a request whose body is a text or a form. -/
theorem draftBody_text {t : Text} (htpl : bodyFromTemplate req = .text t) (hp : PlainHeaders spec)
    (hkept : ∀ p ∈ spec.headers, HeaderKept p) (l : Bool) (m : Option Text) (ts : List Text)
    (ns : List Note) :
    draftBody (copiedDraft (outgoing req spec) l m ts ns) =
      match spec.body with
      | some sent => readBack (contentTypeOf spec.headers) sent
      | none =>
        if t = [] then .none else bodyOfText (contentTypeOf spec.headers) false (unixLines t) := by
  have hheaders : (outgoing req spec).headers.filterMap copiedHeader = spec.headers := by
    show (keptHeaders spec.headers).filterMap copiedHeader = _
    rw [hp.kept, hp.copied.mpr hkept]
  have hbody : (outgoing req spec).body = textBody (contentTypeOut (keptHeaders spec.headers))
      (outText (some t) spec.body).1 := by
    show (outBody req spec).1 = _
    unfold outBody
    rw [htpl]
  rw [draftBody_copied, hheaders, hbody]
  cases spec.body with
  | none =>
    cases t with
    | nil => rfl
    | cons c t => rfl
  | some sent =>
    unfold readBack outText
    by_cases hnul : '\x00' ∈ decodeText sent
    · simp only [hnul, if_true, true_or]
      rfl
    · simp only [hnul, if_false, false_or]
      cases decodeText sent with
      | nil => rfl
      | cons c s => rfl

theorem draftBody_form {rows : List MultipartRow} (htpl : bodyFromTemplate req = .form rows)
    (l : Bool) (m : Option Text) (ts : List Text) (ns : List Note) :
    draftBody (copiedDraft (outgoing req spec) l m ts ns) =
      if rows = [] then .none else .multipart ((rows.filterMap copiedField).map partOf) := by
  have hbody : (outgoing req spec).body = .form rows := by
    show (outBody req spec).1 = _
    unfold outBody
    rw [htpl]
  rw [draftBody_copied, hbody]

omit [UpperCase] in
theorem partOf_enabled (f : FormField) : (partOf f).enabled = true := by
  unfold partOf
  split
  · rfl
  · rfl

omit [UpperCase] in
theorem filter_enabled_partOf (fields : List FormField) :
    (fields.map partOf).filter (fun r => r.enabled) = fields.map partOf := by
  apply List.filter_eq_self.mpr
  intro r hr
  obtain ⟨f, -, rfl⟩ := List.mem_map.mp hr
  exact partOf_enabled f

/-- The body is read back as it is sent exactly when it is kept. -/
theorem body_kept (hsent : Sent ctx req spec) (hbin : ∀ f, req.body ≠ .binary f)
    (hp : PlainHeaders spec) (hkept : ∀ p ∈ spec.headers, HeaderKept p) (l : Bool)
    (m : Option Text) (ts : List Text) (ns : List Note) :
    SameBody req spec (draftBody (copiedDraft (outgoing req spec) l m ts ns)) ↔
      BodyKept req spec := by
  have htext : ∀ t, bodyFromTemplate req = .text t → (∀ rows, req.body ≠ .multipart rows) →
      (SameBody req spec (draftBody (copiedDraft (outgoing req spec) l m ts ns)) ↔
        BodyKept req spec) := by
    intro t htpl hrows
    rw [draftBody_text htpl hp hkept]
    unfold BodyKept
    rw [htpl]
    cases hb : spec.body with
    | none =>
      rw [sameBody_none hb]
      by_cases ht : t = []
      · simp [ht]
      · simp [ht, bodyOfText_ne_none]
    | some sent =>
      rw [sameBody_text hb hrows]
      exact readBack_kept _ sent
  cases hbody : req.body with
  | none =>
    have htpl : bodyFromTemplate req = .none := by
      unfold bodyFromTemplate
      rw [hbody]
    have hnone : spec.body = none := by
      rw [hsent.body, hbody]
      split_ifs
      · rfl
      · rfl
    have hout : (outgoing req spec).body = .none := by
      show (outBody req spec).1 = _
      unfold outBody
      rw [htpl, hnone]
      rfl
    rw [sameBody_none hnone, draftBody_copied, hout]
    unfold BodyKept
    rw [hnone, htpl]
    simp
  | text mode t =>
    apply htext t
    · unfold bodyFromTemplate
      rw [hbody]
    · intro rows h
      rw [hbody] at h
      cases h
  | urlencoded rows =>
    apply htext _
    · unfold bodyFromTemplate
      rw [hbody]
    · intro rows' h
      rw [hbody] at h
      cases h
  | binary f => exact absurd hbody (hbin f)
  | multipart rows =>
    have htpl : bodyFromTemplate req = .form (rows.filter fun r => r.enabled) := by
      unfold bodyFromTemplate
      rw [hbody]
    rw [draftBody_form htpl]
    unfold BodyKept
    rw [htpl]
    cases hb : spec.body with
    | none =>
      rw [sameBody_none hb]
      by_cases hr : rows.filter (fun r => r.enabled) = []
      · simp [hr]
      · rw [if_neg hr]
        simp only [reduceCtorEq, hr]
    | some sent =>
      unfold SameBody
      rw [hb, hbody]
      simp only
      by_cases hr : rows.filter (fun r => r.enabled) = []
      · rw [if_pos hr]
        simp [hr]
      · rw [if_neg hr, ← copiedRows_kept]
        constructor
        · rintro ⟨rows', he, hparts⟩
          cases he
          rw [filter_enabled_partOf] at hparts
          exact ⟨hr, hparts⟩
        · rintro ⟨-, hparts⟩
          refine ⟨_, rfl, ?_⟩
          rw [filter_enabled_partOf]
          exact hparts

/-! ## The round trip -/

theorem out_body_not_file (hbin : ∀ f, req.body ≠ .binary f) :
    ∀ name, (outgoing req spec).body ≠ .file name := by
  intro name h
  have hb : (outBody req spec).1 = .file name := h
  have htext : ∀ ct t, textBody ct t ≠ .file name := by
    intro ct t
    unfold textBody
    split
    · simp
    · simp
  unfold outBody bodyFromTemplate at hb
  cases hbody : req.body with
  | binary f => exact hbin f hbody
  | none =>
    rw [hbody] at hb
    exact htext _ _ hb
  | text mode t =>
    rw [hbody] at hb
    exact htext _ _ hb
  | urlencoded rows =>
    rw [hbody] at hb
    exact htext _ _ hb
  | multipart rows =>
    rw [hbody] at hb
    cases hb

theorem draftMethod_kept (hsent : Sent ctx req spec) (l : Bool) (m : Option Text)
    (ts : List Text) (ns : List Note)
    (hbody : SameBody req spec (draftBody (copiedDraft (outgoing req spec) l m ts ns))) :
    draftMethod (copiedDraft (outgoing req spec) l m ts ns) = spec.method ↔ '\r' ∉ spec.method := by
  have hform : draftMethod (copiedDraft (outgoing req spec) l m ts ns)
      = (if spec.method ≠ GET then some (toUpperCase (unixLines spec.method)) else none).getD
        (if draftBody (copiedDraft (outgoing req spec) l m ts ns) = .none then GET
          else "POST".toList) := by
    rw [← hsent.out_method]
    rfl
  rw [hform]
  by_cases hget : spec.method = GET
  · rw [sameBody_none (hsent.get_no_body hget)] at hbody
    rw [if_neg (fun h => h hget), Option.getD_none, if_pos hbody, hget]
    exact ⟨fun _ => by decide, fun _ => rfl⟩
  · rw [if_pos hget, Option.getD_some]
    constructor
    · intro h hcr
      rw [← h] at hcr
      exact no_cr_unixLines _ (cr_of_cr_toUpperCase hcr)
    · intro h
      rw [(unixLines_eq_self _).mpr h]
      exact hsent.method_upper

theorem draftUrl_copied (out : Outgoing) (l : Bool) (m : Option Text) (ts : List Text)
    (ns : List Note) (url : Text) : draftUrl (copiedDraft out l m ts ns) url = url := by
  unfold draftUrl
  rw [if_neg]
  rintro ⟨-, -, -, h⟩
  cases h

theorem draftHeaders_copied (out : Outgoing) (l : Bool) (m : Option Text) (ts : List Text)
    (ns : List Note) :
    draftHeaders (copiedDraft out l m ts ns) = out.headers.filterMap copiedHeader := by
  simp [draftHeaders, copiedDraft]

omit [UpperCase] in
theorem outRows_textBody (contentType : Text) (t : Option Text) :
    outRows (textBody contentType t) = [] := by
  unfold textBody
  split
  · rfl
  · rfl

theorem outRows_outgoing :
    outRows (outgoing req spec).body =
      match bodyFromTemplate req with
      | .form rows => rows
      | _ => [] := by
  show outRows (outBody req spec).1 = _
  unfold outBody
  cases bodyFromTemplate req with
  | form rows => rfl
  | file name => rfl
  | none => exact outRows_textBody _ _
  | text t => exact outRows_textBody _ _

/-- A request that is kept is copied without an argument that reads a file. -/
theorem Copyable.reads_no_file (hp : PlainHeaders spec) (h : Copyable req spec) :
    ¬ ReadsLocalFile (outgoing req spec) := by
  rintro (⟨p, hmem, hat⟩ | ⟨r, hr, hkind, key, rest, hs, hat⟩)
  · have hmem' : p ∈ keptHeaders spec.headers := hmem
    rw [hp.kept] at hmem'
    exact (h.headers p hmem').at' (headerArg_head.mp hat)
  · have hrow : RowKept r := by
      have hbody := h.body
      unfold BodyKept at hbody
      rw [outRows_outgoing] at hr
      cases htpl : bodyFromTemplate req with
      | form rows =>
        rw [htpl] at hr hbody
        cases hb : spec.body with
        | none =>
          rw [hb] at hbody
          have hnil : rows = [] := hbody
          rw [hnil] at hr
          exact absurd hr List.not_mem_nil
        | some sent =>
          rw [hb] at hbody
          exact hbody.2 r hr
      | none =>
        rw [htpl] at hr
        exact absurd hr List.not_mem_nil
      | text t =>
        rw [htpl] at hr
        exact absurd hr List.not_mem_nil
      | file name =>
        rw [htpl] at hr
        exact absurd hr List.not_mem_nil
    obtain ⟨-, heq, hvalue⟩ := hrow
    rw [hkind] at hvalue
    have harg : formArg r = r.key ++ '=' :: r.value := by
      unfold formArg
      rw [hkind]
    rw [harg, splitFirst_append heq] at hs
    cases hs
    rcases hat with hat | hat
    · exact hvalue.2.1 hat
    · exact hvalue.2.2 hat

end Sent

def quotedRequest : HttpRequest :=
  { method := "post".toList, url := "h.example/it's".toList, params := [], headers := []
    auth := .none, body := .text .json "\x7b\"a\":\"it's\"\x7d".toList
    settings := { followRedirects := true, maxRedirects := none, timeout := [] } }

def quotedSpec : HttpRequestSpec :=
  { url := "https://h.example/it's".toList, method := "POST".toList
    headers := [("X-Evil".toList, "a'$(id)'b".toList)], body := some "\x7b\"a\":\"it's\"\x7d".toList
    viaDirect := false, insecureTls := true, caPem := none, maxRedirects := some 5
    timeoutMs := some 60000 }

/-- A note sent as a form field, whose text begins with an `@`. -/
def mentionRequest : HttpRequest :=
  { method := "POST".toList, url := "https://api.example/notes".toList, params := [], headers := []
    auth := .none
    body := .multipart [{ enabled := true, key := "note".toList, value := "@/etc/passwd".toList,
                          kind := .text, fileName := none }]
    settings := { followRedirects := false, maxRedirects := none, timeout := [] } }

def mentionSpec : HttpRequestSpec :=
  { url := "https://api.example/notes".toList, method := "POST".toList, headers := []
    body := some [], viaDirect := true, insecureTls := false, caPem := none
    maxRedirects := none, timeoutMs := none }

end OpsMaxx.Curl
