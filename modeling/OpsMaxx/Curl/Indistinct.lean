import OpsMaxx.Curl.Hidden
import OpsMaxx.Curl.RoundTrip
import OpsMaxx.Strings.Numeric

/-!
# Requests that cannot be told apart

What goes out of two requests that are alike, part by part, and the command they are copied as.
-/

set_option autoImplicit false

namespace OpsMaxx.Curl

open Strings

/-! ## Headers -/

theorem HeaderAlike.hasControl {h h' : Text × Text} (hh : HeaderAlike covered h h') :
    (hasControl h.2 || hasControl h.1) = (hasControl h'.2 || hasControl h'.1) := by
  obtain ⟨hname, hvalue | ⟨-, -, hlimit⟩⟩ := hh
  · rw [hname, hvalue]
  · have hlimit : Curl.hasControl h.2 = Curl.hasControl h'.2 := hlimit
    rw [hname, hlimit]

theorem keptHeaders_alike {hs hs' : List (Text × Text)}
    (h : List.Forall₂ (HeaderAlike covered) hs hs') :
    List.Forall₂ (HeaderAlike covered) (keptHeaders hs) (keptHeaders hs') := by
  induction h with
  | nil => exact .nil
  | cons hh _ ih =>
    unfold keptHeaders at *
    simp only [List.filter_cons, hh.hasControl]
    split_ifs
    · exact .cons hh ih
    · exact ih

theorem contentType_plain {name : Text} (h : toLowerCase name = contentTypeName) :
    isSensitiveName name = false := by
  simp only [isSensitiveName, h]
  decide

theorem contentTypeOut_alike {hs hs' : List (Text × Text)}
    (h : List.Forall₂ (HeaderAlike covered) hs hs') : contentTypeOut hs = contentTypeOut hs' := by
  unfold contentTypeOut
  generalize ([] : Text) = ct
  induction h generalizing ct with
  | nil => rfl
  | @cons a b hs hs' hab _ ih =>
    obtain ⟨hname, hvalue⟩ := hab
    simp only [List.foldl_cons, ← hname]
    split_ifs with hct
    · obtain hvalue | ⟨hk, -⟩ := hvalue
      · rw [hvalue]
        exact ih _
      · rw [contentType_plain hct] at hk
        contradiction
    · exact ih _

theorem authTemplate_alike {a a' : Auth} (h : AuthAlike a a') :
    maskedFrom (authTemplate a) = maskedFrom (authTemplate a') ∧ isApiKey a = isApiKey a' := by
  cases h with
  | same => exact ⟨rfl, rfl⟩
  | bearer h => exact ⟨by simp [authTemplate, h.1, h.2], rfl⟩
  | basic h => exact ⟨rfl, rfl⟩
  | apikey _ h => exact ⟨maskedFrom_swapped h, rfl⟩

variable {form : Bool}

theorem RequestAlike.headers {req req' : ApiRequest} (h : RequestAlike covered form req req') :
    List.Forall₂ RowAlike req.headers req'.headers := by
  cases h with
  | http _ headers _ _ => exact headers
  | graphql headers _ _ _ _ => exact headers

theorem RequestAlike.auth {req req' : ApiRequest} (h : RequestAlike covered form req req') :
    AuthAlike req.auth req'.auth := by
  cases h with
  | http _ _ auth _ => exact auth
  | graphql _ auth _ _ _ => exact auth

theorem RequestAlike.params {req req' : ApiRequest} (h : RequestAlike covered form req req') :
    List.Forall₂ RowAlike req.params req'.params := by
  cases h with
  | http params _ _ _ => exact params
  | graphql _ _ _ _ _ => exact .nil

theorem RequestAlike.isUrlencoded {req req' : ApiRequest} (h : RequestAlike covered form req req') :
    req.isUrlencoded = req'.isUrlencoded := by
  cases h with
  | @http r r' _ _ _ body =>
    cases r
    cases r'
    cases body with
    | same => rfl
    | text => rfl
    | urlencoded => rfl
    | multipart => rfl
  | graphql _ _ _ _ _ => rfl

theorem headerTemplate_alike {req req' : ApiRequest} (h : RequestAlike covered form req req')
    (name : Text) :
    maskedFrom (headerTemplate req name) = maskedFrom (headerTemplate req' name) := by
  obtain ⟨hauth, hkey⟩ := authTemplate_alike h.auth
  have hrow : ∀ a b : Row, RowAlike a b →
      (a.enabled && toLowerCase a.key = toLowerCase name) =
        (b.enabled && toLowerCase b.key = toLowerCase name) := by
    rintro a b ⟨henabled, hk, -⟩
    rw [henabled, hk]
  unfold headerTemplate
  obtain ⟨h₁, h₂⟩ | ⟨a, b, h₁, h₂, hab⟩ := find_alike hrow (fun _ _ => RowAlike.value) h.headers
  · rw [h₁, h₂, hkey, Option.map_none, Option.none_or, Option.none_or]
    split_ifs
    · exact hauth
    · rfl
  · rw [h₁, h₂, Option.map_some, Option.map_some, Option.some_or, Option.some_or]
    exact maskedFrom_same hab

theorem maskHeaders_alike {req req' : ApiRequest} (h : RequestAlike covered form req req')
    {hs hs' : List (Text × Text)} (hhs : List.Forall₂ (HeaderAlike covered) hs hs') :
    hs.map (maskHeader req) = hs'.map (maskHeader req') := by
  induction hhs with
  | nil => rfl
  | @cons a b hs hs' hab _ ih =>
    obtain ⟨name, v⟩ := a
    obtain ⟨name', v'⟩ := b
    obtain ⟨rfl, hvalue⟩ := hab
    rw [List.map_cons, List.map_cons, ih]
    congr 1
    simp only [maskHeader]
    split_ifs with hk
    · rw [headerTemplate_alike h]
    · obtain hvalue | ⟨hk', -⟩ := hvalue
      · exact Prod.ext rfl hvalue
      · exact absurd hk' hk

/-! ## Texts -/

theorem maskedTextBody_some (ct : Text) (t : Text) :
    maskedTextBody form ct (some t) = if t = [] then .none else .text (maskText form t) ct := by
  cases t with
  | nil => rfl
  | cons c t => rfl

theorem PairsAlike.symm {name value : Text → Prop} {s s' : Text} (h : PairsAlike name value s s') :
    PairsAlike name value s' s := by
  refine h.flip.imp ?_
  rintro p p' (rfl | ⟨n, v, v', hn, htrue, hname, hv, hv', rfl, rfl⟩)
  · exact .inl rfl
  · exact .inr ⟨n, v', v, hn, htrue, hname, hv', hv, rfl, rfl⟩

theorem PairsAlike.nil {name value : Text → Prop} {s : Text} (h : PairsAlike name value [] s) :
    s = [] := by
  have hone : ([] : Text).splitOn '&' = [[]] := rfl
  have hjoin : ['&'].intercalate (s.splitOn '&') = s := List.intercalate_splitOn '&'
  unfold PairsAlike at h
  rw [hone] at h
  generalize s.splitOn '&' = ps at h hjoin
  obtain ⟨p, ps, hp, hrest, rfl⟩ := List.forall₂_cons_left_iff.mp h
  obtain rfl := List.forall₂_nil_left_iff.mp hrest
  obtain rfl | ⟨n, v, v', -, -, -, -, -, hp, -⟩ := hp
  · exact hjoin.symm
  · simp at hp

theorem PairsAlike.nil_iff {name value : Text → Prop} {s s' : Text}
    (h : PairsAlike name value s s') : s = [] ↔ s' = [] := by
  constructor
  · rintro rfl
    exact h.nil
  · rintro rfl
    exact h.symm.nil

theorem mem_intercalate {c : Char} (hc : c ≠ '&') (ps : List Text) :
    c ∈ ['&'].intercalate ps ↔ ∃ p ∈ ps, c ∈ p := by
  induction ps with
  | nil => simp [List.intercalate]
  | cons p ps ih =>
    cases ps with
    | nil => simp [List.intercalate]
    | cons q qs =>
      rw [List.intercalate_cons_cons, List.mem_append, List.mem_append, ih]
      simp [hc]

theorem PairsAlike.nul {name : Text → Prop} {s s' : Text}
    (h : PairsAlike name (fun v => '\x00' ∉ v) s s') : '\x00' ∈ s ↔ '\x00' ∈ s' := by
  have hjoin : ['&'].intercalate (s.splitOn '&') = s := List.intercalate_splitOn '&'
  have hjoin' : ['&'].intercalate (s'.splitOn '&') = s' := List.intercalate_splitOn '&'
  rw [← hjoin, ← hjoin', mem_intercalate (by decide), mem_intercalate (by decide)]
  clear hjoin hjoin'
  unfold PairsAlike at h
  generalize s.splitOn '&' = ps at h
  generalize s'.splitOn '&' = ps' at h
  induction h with
  | nil => simp
  | cons hp _ ih =>
    simp only [List.mem_cons, exists_eq_or_imp, ih]
    obtain rfl | ⟨n, v, v', -, -, -, hv, hv', rfl, rfl⟩ := hp
    · rfl
    · simp [hv, hv']

theorem JsonAlike.ne_nil {L : Limits} {d : Nat} {t t' : Text} {v v' : Json}
    (h : JsonAlike L d t t' v v') : t ≠ [] ∧ t' ≠ [] := by
  have hempty : Json.parse (String.ofList []) = none := by decide
  constructor
  · rintro rfl
    exact absurd (hempty.symm.trans h.parse.1) (by simp)
  · rintro rfl
    exact absurd (hempty.symm.trans h.parse.2) (by simp)

theorem JsonAlike.nul {L : Limits} {d : Nat} {t t' : Text} {v v' : Json}
    (h : JsonAlike L d t t' v v') : '\x00' ∈ t ↔ '\x00' ∈ t' := by
  obtain ⟨s, s', after, rfl, rfl, -, h⟩ := h
  rw [List.mem_append, List.mem_append, h.mem_iff (by decide)]

theorem TextAlike.nul {t t' : Text} (h : TextAlike covered form t t') :
    '\x00' ∈ t ↔ '\x00' ∈ t' := by
  cases h with
  | same => rfl
  | form _ h => exact h.nul
  | json h _ _ => exact h.nul

theorem TextAlike.masked {t t' : Text} (h : TextAlike covered form t t') (ct : Text) :
    maskedTextBody form ct (some t) = maskedTextBody form ct (some t') := by
  rw [maskedTextBody_some, maskedTextBody_some]
  cases h with
  | same => rfl
  | form hform h =>
    rw [hform, maskText, maskText, if_pos rfl, if_pos rfl, maskFormBody_alike h]
    simp only [h.nil_iff]
  | json h hjson hshown =>
    have hjson : form = false := hjson
    simp [h.ne_nil, hjson, maskText, maskJsonBody_alike h hshown]

theorem TextAlike.bytes {b b' : Text} (h : TextAlike covered form (decodeText b) (decodeText b'))
    (ct : Text) (t t' : Option Text) :
    maskedTextBody form ct (outText t (some b)).1 = maskedTextBody form ct (outText t' (some b')).1 := by
  simp only [outText, h.nul]
  split_ifs
  · rfl
  · exact h.masked ct

/-! ## The body of a GraphQL request -/

theorem stringify_ne_nil (v : Json) : v.stringify.toList ≠ [] := by
  obtain ⟨c, cs, hc, -⟩ := v.print_head
  simp [Json.stringify, hc]

theorem maskJsonBody_stringify {v v' : Json} (hv : v.Valid) (hv' : v'.Valid)
    (h : WalkSame 0 v v') :
    maskJsonBody v.stringify.toList = maskJsonBody v'.stringify.toList := by
  obtain ⟨hwalk, hchanges, rfl | hc⟩ := h
  · rfl
  · simp only [maskJsonBody, String.ofList_toList, Json.parse_stringify hv,
      Json.parse_stringify hv', hc, ← hchanges, hwalk, if_true]

/-- A text that is read as JSON is not all white space. -/
theorem trim_ne_of_parse {t : Text} {v : Json} (h : Json.parse (String.ofList t) = some v) :
    trim t ≠ [] := by
  intro htrim
  have hstart : trimStart t = [] := by
    cases hs : trimStart t with
    | nil => rfl
    | cons c cs =>
      have hc : isSpace c = false := by
        have := List.head?_dropWhile_not isSpace t
        simpa [show t.dropWhile isSpace = c :: cs from hs] using this
      have hall := List.rdropWhile_eq_nil_iff.mp (htrim : (trimStart t).rdropWhile isSpace = [])
      rw [hall c (hs ▸ List.mem_cons_self)] at hc
      contradiction
  have hspace : ∀ c ∈ t, isSpace c = true := List.dropWhile_eq_nil_iff.mp hstart
  have hread : ∀ n, readValue (n + 1) t = none := by
    intro n
    rw [readValue]
    have hmem : ∀ c ∈ skipSpace t, isSpace c = true := by
      intro c hc
      exact hspace c ((List.dropWhile_sublist _).subset hc)
    generalize skipSpace t = r at hmem
    match r with
    | [] => rfl
    | c :: r =>
      have hc := hmem c List.mem_cons_self
      have hne : ∀ x : Char, isSpace x = false → c ≠ x := by
        rintro x hx rfl
        rw [hx] at hc
        contradiction
      have hdigit : c.isDigit = false := by
        cases hd : c.isDigit with
        | false => rfl
        | true =>
          have := isInk_of_isDigit hd
          simp [isInk, hc] at this
      split
      case h_7 =>
        simp [readNumber, hne '-' (by decide), readUnsigned, readDigits, hdigit]
      all_goals
        next heq => exact absurd (List.cons.inj heq).1 (hne _ (by decide))
  rw [Json.parse, String.toList_ofList, hread] at h
  contradiction

theorem graphQlBody_valid (req : GraphQlRequest) : (graphQlBody req).Valid := by
  have hvars : ∀ v ∈ variablesOf req, v.Valid := by
    intro v hv
    unfold variablesOf at hv
    split_ifs at hv
    · contradiction
    · exact Json.parse_valid hv
  have hkeys : KeyBefore "query" "variables" ∧ KeyBefore "query" "operationName" ∧
      KeyBefore "variables" "operationName" := by
    unfold KeyBefore
    decide
  unfold graphQlBody
  have hnames : (req.operationName.toList.filter (· ≠ [])).length ≤ 1 :=
    (List.length_filter_le _ _).trans (by cases req.operationName <;> simp)
  generalize variablesOf req = vars at hvars
  generalize req.operationName.toList.filter (· ≠ []) = names at hnames
  have hstr : ∀ n : Text, (Json.str (String.ofList n)).Valid := fun n => .str _
  match vars, names with
  | none, [] => exact .obj (by simp) (by simp [hstr])
  | none, [n] => exact .obj (by simp [hkeys]) (by simp [hstr])
  | some v, [] => exact .obj (by simp [hkeys]) (by simp [hstr, hvars])
  | some v, [n] => exact .obj (by simp [hkeys]) (by simp [hstr, hvars])
  | _, a :: b :: names => simp at hnames

theorem VariablesAlike.same_or {L : Limits} {t t' : Text} (h : VariablesAlike L form t t') :
    t = t' ∨ L.json form ∧ ∃ v v', JsonAlike L 1 t t' v v' := by
  cases h with
  | same => exact .inl rfl
  | json h hjson => exact .inr ⟨hjson, _, _, h⟩

theorem graphQlBody_alike {req req' : GraphQlRequest} (hquery : req.query = req'.query)
    (hname : req.operationName = req'.operationName) {v v' : Json}
    (h : JsonAlike covered 1 req.variablesText req'.variablesText v v') :
    WalkSame 0 (graphQlBody req) (graphQlBody req') := by
  obtain ⟨hparse, hparse'⟩ := h.parse
  obtain ⟨s, s', after, -, -, -, h⟩ := h
  have hv := walkSame_of_alike h
  simp only [graphQlBody, variablesOf, if_neg (trim_ne_of_parse hparse),
    if_neg (trim_ne_of_parse hparse'), hparse, hparse', hquery, hname]
  apply WalkSame.obj
  refine .cons ⟨rfl, .inl (.refl _ _)⟩ (.cons ⟨rfl, .inl hv⟩ ?_)
  exact List.forall₂_same.mpr fun e _ => ⟨rfl, .inl (.refl _ _)⟩

/-! ## Bodies -/

/-- What the templates show is the same. -/
inductive TemplateSame (form : Bool) : TemplateBody → TemplateBody → Prop
  | none : TemplateSame form .none .none
  | text {t t' : Text}
      (h : ∀ ct, maskedTextBody form ct (some t) = maskedTextBody form ct (some t')) :
      TemplateSame form (.text t) (.text t')
  | form {rows rows' : List MultipartRow} (h : rows.map maskRow = rows'.map maskRow) :
      TemplateSame form (.form rows) (.form rows')
  | file (name : Text) : TemplateSame form (.file name) (.file name)

theorem TemplateSame.refl (t : TemplateBody) : TemplateSame form t t := by
  cases t with
  | none => exact .none
  | text t => exact .text fun _ => rfl
  | form rows => exact .form rfl
  | file name => exact .file name

theorem maskRow_alike {r r' : MultipartRow} (h : PartAlike r r') : maskRow r = maskRow r' := by
  obtain ⟨⟨enabled, key, value⟩, kind, fileName⟩ := r
  obtain ⟨⟨enabled', key', value'⟩, kind', fileName'⟩ := r'
  obtain ⟨rfl, rfl, rfl, rfl, rfl | ⟨rfl, hk, hv⟩⟩ := h
  · rfl
  · have := maskedFrom_swapped hv
    simp_all [maskRow]

theorem maskRows_alike {rows rows' : List MultipartRow} (h : List.Forall₂ PartAlike rows rows') :
    (rows.filter fun r => r.enabled).map maskRow = (rows'.filter fun r => r.enabled).map maskRow := by
  induction h with
  | nil => rfl
  | @cons a b rows rows' hab _ ih =>
    have henabled : a.enabled = b.enabled := hab.1
    simp only [List.filter_cons, henabled]
    split_ifs
    · rw [List.map_cons, List.map_cons, ih, maskRow_alike hab]
    · exact ih

def pairOf (r : Row) : Text := encodeURIComponent r.key ++ '=' :: encodeURIComponent r.value

theorem maskFormPair_row {r r' : Row} (h : RowAlike r r') :
    maskFormPair (pairOf r) = maskFormPair (pairOf r') := by
  obtain ⟨-, hkey, hvalue | ⟨hk, -⟩⟩ := h
  · rw [pairOf, pairOf, hkey, hvalue]
  · have hsplit : ∀ v, splitFirst '=' (encodeURIComponent r'.key ++ '=' :: v) = some (_, v) :=
      fun v => splitFirst_append (not_mem_encodeURIComponent (by decide) (by decide) _) v
    have hname : formName (encodeURIComponent r'.key) = r'.key := by
      rw [formName, plusToSpace_eq_self (not_mem_encodeURIComponent (by decide) (by decide) _),
        decodeURIComponent_encodeURIComponent]
      rfl
    rw [hkey] at hk
    simp only [maskFormPair, pairOf, hkey, hsplit, hname, hk, if_true]

theorem maskFormBody_rows {rows : List Row} (h : rows ≠ []) :
    maskFormBody (['&'].intercalate (rows.map pairOf)) =
      ['&'].intercalate ((rows.map pairOf).map maskFormPair) := by
  unfold maskFormBody maskPairs
  rw [List.splitOn_intercalate]
  · intro p hp hm
    obtain ⟨r, -, rfl⟩ := List.mem_map.mp hp
    simp only [pairOf, List.mem_append, List.mem_cons] at hm
    obtain hm | hm | hm := hm
    · exact not_mem_encodeURIComponent (by decide) (by decide) _ hm
    · exact absurd hm (by decide)
    · exact not_mem_encodeURIComponent (by decide) (by decide) _ hm
  · simpa using h

theorem filter_alike {rows rows' : List Row} (h : List.Forall₂ RowAlike rows rows') :
    List.Forall₂ RowAlike (rows.filter Row.enabled) (rows'.filter Row.enabled) := by
  induction h with
  | nil => exact .nil
  | cons hab _ ih =>
    simp only [List.filter_cons, hab.1]
    split_ifs
    · exact .cons hab ih
    · exact ih

theorem urlencoded_alike {rows rows' : List Row} (h : List.Forall₂ RowAlike rows rows') (ct : Text) :
    maskedTextBody true ct (some (['&'].intercalate ((rows.filter Row.enabled).map pairOf))) =
      maskedTextBody true ct (some (['&'].intercalate ((rows'.filter Row.enabled).map pairOf))) := by
  have h := filter_alike h
  generalize rows.filter Row.enabled = xs at h
  generalize rows'.filter Row.enabled = ys at h
  cases h with
  | nil => rfl
  | @cons a b xs ys hab hrest =>
    have hne : ∀ (r : Row) rs, ['&'].intercalate ((r :: rs).map pairOf) ≠ [] := by
      intro r rs hnil
      have hmem : '=' ∈ ['&'].intercalate ((r :: rs).map pairOf) :=
        (mem_intercalate (by decide) _).mpr ⟨pairOf r, by simp, by simp [pairOf]⟩
      rw [hnil] at hmem
      contradiction
    have hmap : ((a :: xs).map pairOf).map maskFormPair = ((b :: ys).map pairOf).map maskFormPair := by
      have hall : List.Forall₂ RowAlike (a :: xs) (b :: ys) := .cons hab hrest
      generalize a :: xs = us at hall
      generalize b :: ys = vs at hall
      induction hall with
      | nil => rfl
      | cons huv _ ih => simp only [List.map_cons, maskFormPair_row huv, ih]
    rw [maskedTextBody_some, maskedTextBody_some, if_neg (hne a xs), if_neg (hne b ys), maskText,
      maskText, if_pos rfl, if_pos rfl, maskFormBody_rows (by simp), maskFormBody_rows (by simp), hmap]

theorem template_alike {req req' : ApiRequest} (h : RequestAlike covered form req req')
    (hform : req.isUrlencoded = true → form = true) :
    TemplateSame form (templateOf req) (templateOf req') := by
  cases h with
  | @http r r' _ _ _ body =>
    cases r
    cases r'
    cases body with
    | same => exact .refl _
    | text h => exact .text fun ct => h.masked ct
    | urlencoded h =>
      obtain rfl := hform rfl
      exact .text (urlencoded_alike h)
    | multipart h => exact .form (maskRows_alike h)
  | @graphql r r' _ _ query vars name =>
    refine .text fun ct => ?_
    obtain heq | ⟨hjson, v, v', h⟩ := vars.same_or
    · have hbody : graphQlBody r = graphQlBody r' := by
        simp only [graphQlBody, variablesOf, heq, query, name]
      rw [hbody]
    · have hjson : form = false := hjson
      have hbody := maskJsonBody_stringify (graphQlBody_valid r) (graphQlBody_valid r')
        (graphQlBody_alike query name h)
      rw [maskedTextBody_some, maskedTextBody_some, if_neg (stringify_ne_nil _),
        if_neg (stringify_ne_nil _), hjson, maskText, maskText, if_neg (by simp), if_neg (by simp),
        hbody]

theorem maskedBody_alike {req req' : ApiRequest} {spec spec' : HttpRequestSpec}
    (hreq : RequestAlike covered (formOf req spec) req req')
    (hspec : SpecAlike covered req spec spec') : maskedBody req spec = maskedBody req' spec' := by
  have htemplate := template_alike hreq fun h => by simp [formOf, h]
  have hct := contentTypeOut_alike (keptHeaders_alike hspec.headers)
  have hform : formOf req spec = (isFormType (contentTypeOut (keptHeaders spec'.headers)) ||
      req'.isUrlencoded) := by
    rw [formOf, hct, hreq.isUrlencoded]
  unfold maskedBody
  dsimp only
  rw [← hform, ← hct]
  have hbody := hspec.body
  generalize spec.body = b at hbody
  generalize spec'.body = b' at hbody
  generalize htr : templateOf req = tr at htemplate
  generalize templateOf req' = tr' at htemplate
  cases hbody with
  | none =>
    cases htemplate with
    | none => rfl
    | text h => exact h _
    | form h => simp only [h]
    | file => rfl
  | encoded h =>
    obtain rfl := htr.symm.trans h
    cases htemplate with
    | form h => simp only [h]
  | text h =>
    cases htemplate with
    | none => exact h.bytes _ _ _
    | text _ => exact h.bytes _ _ _
    | form h => simp only [h]
    | file => rfl

/-! ## The command -/

/-- A field that holds a string, written without a blank. -/
def passwordText (x : Text) : Text :=
  '\x7b' :: '"' :: ("password\"".toList ++ ':' :: ('"' :: (x ++ ['"']) ++ ['\x7d']))

/-- Brackets around a text. -/
def nested : Nat → Text → Text
  | 0, s => s
  | n + 1, s => '[' :: (nested n s ++ [']'])

def nestedValue : Nat → Json → Json
  | 0, v => v
  | n + 1, v => .arr [nestedValue n v]

theorem alike_nested {may : Nat → String → String → String → Prop} {d : Nat} (n : Nat)
    {s s' : Text} {v v' : Json} (h : Alike may (d + n) s s' (.value v) (.value v')) :
    Alike may d (nested n s) (nested n s') (.value (nestedValue n v)) (.value (nestedValue n v')) := by
  induction n generalizing d with
  | zero => exact h
  | succ n ih =>
    have hin := ih (d := d + 1) (by rwa [Nat.add_assoc, Nat.add_comm 1])
    have hblank : Blank [] := by simp [Blank]
    exact .arr hblank (.last hblank hin)

theorem alike_password {may : Nat → String → String → String → Prop} {d : Nat} (x x' : String)
    (hx : Quoted (x.toList ++ ['"']) x) (hx' : Quoted (x'.toList ++ ['"']) x')
    (hmay : may (d + 1) "password" x x') :
    Alike may d (passwordText x.toList) (passwordText x'.toList)
      (.value (.obj [("password", .str x)])) (.value (.obj [("password", .str x')])) := by
  have hblank : Blank [] := by simp [Blank]
  have hkey : Quoted "password\"".toList "password" := quoted_escaped "password"
  exact .obj hblank (.lastField (k := "password") hblank hkey hblank hblank
    (.string hblank hx hx' hmay))

def jsonRequest (text : Text) : ApiRequest :=
  .http { method := "POST".toList, url := "https://h/".toList, params := [], headers := []
          auth := .none, body := .text .json text
          settings := { followRedirects := false, maxRedirects := none, timeout := [] } }

def jsonSpec (url : Text) (headers : List (Text × Text)) (text : Text) : HttpRequestSpec :=
  { url := url, method := "POST".toList, headers := headers, body := some text, viaDirect := true
    insecureTls := false, caPem := none, maxRedirects := none, timeoutMs := none }

def secretUrl (x y : Text) : Text := "https://u:".toList ++ (x ++ "@h/?token=".toList ++ y)

theorem hasSecret_nested {n d : Nat} {v : Json} (hd : d + n ≤ 64) (h : HasSecret (d + n) v) :
    HasSecret d (nestedValue n v) := by
  induction n generalizing d with
  | zero => exact h
  | succ n ih =>
    refine .item (by omega) List.mem_cons_self (ih (by omega) ?_)
    rwa [Nat.add_assoc, Nat.add_comm 1]

theorem swapped_one_two : Swapped "one".toList "two".toList := by
  unfold Swapped
  decide

theorem secretUrl_alike :
    UrlAlike covered (secretUrl "one".toList "one".toList) (secretUrl "two".toList "two".toList) := by
  have hpassword : UrlStep covered (secretUrl "one".toList "one".toList)
      (secretUrl "two".toList "one".toList) := by
    have hsplit : ∀ x ∈ ["one".toList, "two".toList], secretUrl x "one".toList =
        [] ++ ("https".toList ++ ':' :: '/' :: '/' ::
          (['u'] ++ ':' :: (x ++ '@' :: (['h'] ++ "/?token=one".toList)))) := by decide
    rw [hsplit _ (by simp), hsplit _ (by simp)]
    exact .password (by simp) (by decide) (by decide) (by decide)
      (by decide) (by decide) (by decide) (by decide)
      swapped_one_two (fun h => absurd h (by decide))
  have hquery : UrlStep covered (secretUrl "two".toList "one".toList)
      (secretUrl "two".toList "two".toList) := by
    have hsplit : ∀ x ∈ ["one".toList, "two".toList], secretUrl "two".toList x =
        "https://u:two@h/".toList ++ '?' :: ("token=".toList ++ x ++ []) := by decide
    have hpairs : ∀ x ∈ ["one".toList, "two".toList], ("token=".toList ++ x).splitOn '&' =
        ["token".toList ++ '=' :: x] := by decide
    rw [hsplit _ (by simp), hsplit _ (by simp)]
    refine .query (by decide) (by decide) (by decide) (by simp) ?_
    unfold PairsAlike
    rw [hpairs _ (by simp), hpairs _ (by simp)]
    refine .cons (.inr ⟨"token".toList, "one".toList, "two".toList, ?_⟩) .nil
    exact ⟨by decide, by decide, (by decide : isSensitiveName _ = true),
      trivial, trivial, rfl, rfl⟩
  exact .tail (.single hpassword) hquery

theorem jsonAlike_nested {L : Limits} (n : Nat) (h : L.depth (0 + n + 1)) :
    JsonAlike L 0 (nested n (passwordText "one".toList)) (nested n (passwordText "two".toList))
      (nestedValue n (.obj [("password", .str "one")]))
      (nestedValue n (.obj [("password", .str "two")])) := by
  refine ⟨_, _, [], (List.append_nil _).symm, (List.append_nil _).symm, by simp [Blank], ?_⟩
  apply alike_nested
  apply alike_password "one" "two" (quoted_escaped "one") (quoted_escaped "two")
  exact ⟨h, by decide, swapped_one_two⟩

theorem decodeText_nested (n : Nat) (x : Text) :
    decodeText (nested (n + 1) x) = nested (n + 1) x :=
  if_neg (show ¬ some '[' = some '\ufeff' by decide)

end OpsMaxx.Curl
