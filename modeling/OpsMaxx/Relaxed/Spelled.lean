import OpsMaxx.Relaxed.Grammar
import Mathlib.Data.List.TakeDrop

/-!
# The shell's parser reads JSON

Before the spelling of a value the parser stops right behind it, with the value its members make
when they are assigned one by one: `value_spelled`, by induction on the spelling.
-/

set_option autoImplicit false

namespace OpsMaxx.Relaxed

/-! ## Space -/

/-- A character that is neither space nor the start of a comment. -/
def Solid (c : Nat) : Prop := isSpace c = false ∧ c ≠ 47

theorem ws_cons {c : Nat} {cs : Units} (h : Solid c) : ws (c :: cs) = c :: cs := by
  simp [ws, skip, h.1, h.2]

theorem isSpace_json {c : Nat} (h : c = 32 ∨ c = 9 ∨ c = 10 ∨ c = 13) : isSpace c = true := by
  obtain rfl | rfl | rfl | rfl := h <;> decide

theorem ws_space {a : Units} (ha : Space a) (cs : Units) : ws (a ++ cs) = ws cs := by
  induction a with
  | nil => rfl
  | cons c a ih =>
    have hc := isSpace_json (ha c List.mem_cons_self)
    have hrest := ih fun x hx => ha x (List.mem_cons_of_mem c hx)
    simpa [ws, skip, hc] using hrest

theorem takes_cons {ch : Nat} (h : Solid ch) (cs : Units) : takes ch (ch :: cs) = some cs := by
  simp [takes, ws_cons h]

theorem takes_other {ch c : Nat} (h : Solid c) (hne : c ≠ ch) (cs : Units) :
    takes ch (c :: cs) = none := by
  simp [takes, ws_cons h, hne]

theorem takes_space {ch : Nat} {a : Units} (ha : Space a) (cs : Units) :
    takes ch (a ++ cs) = takes ch cs := by
  simp [takes, ws_space ha]

theorem expect_cons {ch : Nat} (h : Solid ch) (cs : Units) : expect ch (ch :: cs) = .ok cs := by
  simp [expect, takes_cons h]

theorem expect_space {ch : Nat} {a : Units} (ha : Space a) (cs : Units) :
    expect ch (a ++ cs) = expect ch cs := by
  simp [expect, takes_space ha]

theorem solid_punct {c : Nat} (h : c ∈ [34, 44, 58, 91, 93, 123, 125]) : Solid c := by
  simp only [List.mem_cons, List.not_mem_nil, or_false] at h
  obtain rfl | rfl | rfl | rfl | rfl | rfl | rfl := h <;> exact ⟨by decide, by decide⟩

/-! ## Strings -/

theorem hexValue_lt {c v : Nat} (h : hexValue c = some v) : v < 16 := by
  unfold hexValue at h
  split_ifs at h <;> · simp only [Option.some.injEq] at h; omega

theorem hexValue_range {c v : Nat} (h : hexValue c = some v) :
    (48 ≤ c ∧ c ≤ 57) ∨ (97 ≤ c ∧ c ≤ 102) ∨ (65 ≤ c ∧ c ≤ 70) := by
  unfold hexValue at h
  split_ifs at h <;> omega

theorem parseHex_digits {h₁ h₂ h₃ h₄ v₁ v₂ v₃ v₄ : Nat} (h1 : hexValue h₁ = some v₁)
    (h2 : hexValue h₂ = some v₂) (h3 : hexValue h₃ = some v₃) (h4 : hexValue h₄ = some v₄) :
    parseHex [h₁, h₂, h₃, h₄] = hexUnits v₁ v₂ v₃ v₄ := by
  have hr1 := hexValue_range h1
  have hr2 := hexValue_range h2
  have hsp : isSpace h₁ = false := by
    simp only [isSpace, List.mem_cons, List.not_mem_nil, or_false, Bool.or_eq_false_iff,
      Bool.and_eq_false_iff, decide_eq_false_iff_not]
    omega
  have hneg : h₁ ≠ 45 := by omega
  have hpos : h₁ ≠ 43 := by omega
  have hx : h₂ ≠ 120 := by omega
  have hX : h₂ ≠ 88 := by omega
  simp [parseHex, hsp, hneg, hpos, hx, hX, h1, h2, h3, h4, hexUnits]

theorem fromCharCode_digits {h₁ h₂ h₃ h₄ v₁ v₂ v₃ v₄ : Nat} (h1 : hexValue h₁ = some v₁)
    (h2 : hexValue h₂ = some v₂) (h3 : hexValue h₃ = some v₃) (h4 : hexValue h₄ = some v₄) :
    fromCharCode (parseHex [h₁, h₂, h₃, h₄]) = hexUnits v₁ v₂ v₃ v₄ := by
  have l1 := hexValue_lt h1
  have l2 := hexValue_lt h2
  have l3 := hexValue_lt h3
  have l4 := hexValue_lt h4
  have hlt : hexUnits v₁ v₂ v₃ v₄ < 65536 := by unfold hexUnits; omega
  rw [parseHex_digits h1 h2 h3 h4, fromCharCode]
  omega

theorem escaped_escapes {e c : Nat} (h : (e, c) ∈ escapes) :
    e ≠ 117 ∧ escaped e = c := by
  simp only [escapes, List.mem_cons, Prod.mk.injEq, List.not_mem_nil, or_false] at h
  obtain ⟨rfl, rfl⟩ | ⟨rfl, rfl⟩ | ⟨rfl, rfl⟩ | ⟨rfl, rfl⟩ | ⟨rfl, rfl⟩ | ⟨rfl, rfl⟩ |
    ⟨rfl, rfl⟩ | ⟨rfl, rfl⟩ := h <;> decide

theorem stringBody_spelled {s w : Units} (h : StringText s w) (rest : Units) :
    stringBody 34 (w ++ 34 :: rest) = .ok (s, rest) := by
  induction h with
  | nil =>
    rw [List.nil_append, stringBody.eq_def]
    simp
  | plain hc hquote hback h ih =>
    rw [List.cons_append, stringBody.eq_def]
    simp [hquote, hback, ih, push, Except.map]
  | escape he h ih =>
    obtain ⟨hu, hc⟩ := escaped_escapes he
    rw [List.cons_append, List.cons_append, stringBody.eq_def]
    simp [hu, hc, ih, push, Except.map]
  | unicode h1 h2 h3 h4 h ih =>
    have hcode := fromCharCode_digits h1 h2 h3 h4
    rw [stringBody.eq_def]
    simp [hcode, ih, push, Except.map]

theorem string_spelled {s w : Units} (h : StringText s w) (rest : Units) :
    string (34 :: (w ++ 34 :: rest)) = .ok (s, rest) :=
  stringBody_spelled h rest

/-! ## Numbers -/

/-- What follows a value: nothing, space, a comma or a closing bracket. -/
def Ends (rest : Units) : Prop := ∀ c ∈ rest.head?, c ∈ [32, 9, 10, 13, 44, 93, 125]

theorem Ends.not {rest : Units} (h : Ends rest) {p : Nat → Bool}
    (hp : ∀ c ∈ [32, 9, 10, 13, 44, 93, 125], p c = false) : ∀ c ∈ rest.head?, p c = false :=
  fun c hc => hp c (h c hc)

theorem takeWhile_stop {p : Nat → Bool} {ds rest : Units} (hds : ∀ c ∈ ds, p c = true)
    (hrest : ∀ c ∈ rest.head?, p c = false) :
    (ds ++ rest).takeWhile p = ds ∧ (ds ++ rest).dropWhile p = rest := by
  rw [List.takeWhile_append_of_pos hds, List.dropWhile_append_of_pos hds]
  cases rest with
  | nil => simp
  | cons c rest =>
    have hc := hrest c rfl
    simp [hc]

theorem span_stop {p : Nat → Bool} {ds rest : Units} (hds : ∀ c ∈ ds, p c = true)
    (hrest : ∀ c ∈ rest.head?, p c = false) : (ds ++ rest).span p = (ds, rest) := by
  obtain ⟨htake, hdrop⟩ := takeWhile_stop hds hrest
  rw [List.span_eq_takeWhile_dropWhile, htake, hdrop]

theorem exponent_spelled {e rest : Units} (he : ExponentPart e) (hrest : Ends rest) :
    exponent (e ++ rest) = (e, rest) := by
  have hdigit := hrest.not (p := isDigit) (by decide)
  cases he with
  | none =>
    cases rest with
    | nil => rfl
    | cons c rest =>
      have hc := hrest c rfl
      have hne : ¬ (c = 101 ∨ c = 69) := by
        simp only [List.mem_cons, List.not_mem_nil, or_false] at hc
        omega
      simp [exponent, hne]
  | @digits e sgn ds he hsgn hds =>
    obtain ⟨htake, hdrop⟩ := takeWhile_stop hds.2 hdigit
    obtain ⟨d, ds', rfl⟩ := List.exists_cons_of_ne_nil hds.1
    have hd := hds.2 d List.mem_cons_self
    have hsign : sign (sgn ++ (d :: ds' ++ rest)) = (sgn, d :: ds' ++ rest) := by
      obtain rfl | rfl | rfl := hsgn
      · have hne : ¬ (d = 43 ∨ d = 45) := by
          simp only [isDigit, Bool.and_eq_true, decide_eq_true_eq] at hd
          omega
        simp [sign, hne]
      · rfl
      · rfl
    rw [List.cons_append, List.cons_append, List.append_assoc, exponent, hsign]
    simp only [List.cons_append, List.head?_cons, Option.map_some, Option.getD_some, hd, and_true,
      if_pos he] at htake hdrop ⊢
    rw [htake, hdrop]

theorem mantissa_spelled {whole fraction rest : Units} (hw : WholePart whole)
    (hf : FractionPart fraction) (hdigit : ∀ c ∈ rest.head?, isDigit c = false)
    (hdot : rest.head? ≠ some 46) :
    mantissa (whole ++ (fraction ++ rest)) = some (whole ++ fraction, rest) := by
  have hall : ∀ c ∈ whole, isDigit c = true := by
    cases hw with
    | zero => decide
    | digits hd hds =>
      intro c hc
      obtain rfl | hc := List.mem_cons.mp hc
      · simp only [isDigit, Bool.and_eq_true, decide_eq_true_eq]
        omega
      · exact hds c hc
  have hne : whole ≠ [] := by cases hw <;> simp
  cases hf with
  | none =>
    obtain ⟨htake, hdrop⟩ := takeWhile_stop hall hdigit
    simp [mantissa, htake, hdrop, hdot, hne]
  | @digits ds hds =>
    have hstop : ∀ c ∈ (46 :: ds ++ rest).head?, isDigit c = false := by
      intro c hc
      simp only [List.cons_append, List.head?_cons, Option.mem_some] at hc
      subst hc
      decide
    obtain ⟨htake, hdrop⟩ := takeWhile_stop hall hstop
    obtain ⟨htake', hdrop'⟩ := takeWhile_stop hds.2 hdigit
    obtain ⟨d, ds', rfl⟩ := List.exists_cons_of_ne_nil hds.1
    have hd := hds.2 d List.mem_cons_self
    unfold mantissa
    rw [htake, hdrop]
    simp only [List.cons_append, List.head?_cons, List.tail_cons, Option.map_some,
      Option.getD_some, hd, and_self, if_true] at htake' hdrop' ⊢
    rw [htake', hdrop']

theorem hexLiteral_number {d : Nat} {cs : Units}
    (h : d = 48 → ∀ c ∈ cs.head?, c ≠ 120 ∧ c ≠ 88) : hexLiteral (d :: cs) = none := by
  unfold hexLiteral
  split
  · next x h' rest heq =>
    obtain ⟨rfl, rfl⟩ := List.cons.inj heq
    have hx := h rfl x rfl
    simp [hx.1, hx.2]
  · rfl

theorem WholePart.head {w : Units} (h : WholePart w) :
    ∃ d ds, w = d :: ds ∧ isDigit d = true ∧ (d = 48 → ds = []) := by
  cases h with
  | zero => exact ⟨48, [], rfl, by decide, fun _ => rfl⟩
  | digits hd hds =>
    refine ⟨_, _, rfl, ?_, by omega⟩
    simp only [isDigit, Bool.and_eq_true, decide_eq_true_eq]
    omega

/-- What can follow the whole part of a number, or the number itself. -/
theorem after_whole {fraction expo rest : Units} (hf : FractionPart fraction)
    (he : ExponentPart expo) (hrest : Ends rest) :
    ∀ c ∈ (fraction ++ (expo ++ rest)).head?, c ∈ [46, 101, 69, 32, 9, 10, 13, 44, 93, 125] := by
  intro c hc
  cases hf with
  | digits hds =>
    simp only [List.cons_append, List.head?_cons, Option.mem_some] at hc
    simp [← hc]
  | none =>
    cases he with
    | digits he hsgn hds =>
      simp only [List.nil_append, List.cons_append, List.head?_cons, Option.mem_some] at hc
      subst hc
      obtain rfl | rfl := he <;> simp
    | none =>
      have hmem := hrest c hc
      simp only [List.mem_cons, List.not_mem_nil, or_false] at hmem ⊢
      omega

theorem numberText_spelled {w rest : Units} (h : JsonNumber w) (hrest : Ends rest) :
    numberText (w ++ rest) = some (w, rest) := by
  obtain ⟨hsgn, hw, hf, he⟩ := h
  rename_i sgn whole fraction expo
  obtain ⟨d, ds, rfl, hd, hzero⟩ := hw.head
  have hsign : sign (sgn ++ (d :: ds ++ (fraction ++ expo)) ++ rest) =
      (sgn, d :: ds ++ (fraction ++ (expo ++ rest))) := by
    have hne : ¬ (d = 43 ∨ d = 45) := by
      simp only [isDigit, Bool.and_eq_true, decide_eq_true_eq] at hd
      omega
    obtain rfl | rfl := hsgn <;> simp [sign, hne]
  have hhex : hexLiteral (d :: ds ++ (fraction ++ (expo ++ rest))) = none := by
    apply hexLiteral_number
    intro h48 c hc
    have hmem := after_whole hf he hrest c (by simpa [hzero h48] using hc)
    simp only [List.mem_cons, List.not_mem_nil, or_false] at hmem
    omega
  have hstop : ∀ c ∈ (expo ++ rest).head?, isDigit c = false ∧ c ≠ 46 := by
    intro c hc
    have hmem := after_whole .none he hrest c (by simpa using hc)
    cases he with
    | digits he hsgn hds =>
      simp only [List.cons_append, List.head?_cons, Option.mem_some] at hc
      subst hc
      obtain rfl | rfl := he <;> decide
    | none => exact ⟨hrest.not (by decide) c hc, by
        have hne := hrest c hc
        simp only [List.mem_cons, List.not_mem_nil, or_false] at hne
        omega⟩
  have hmantissa := mantissa_spelled hw hf (fun c hc => (hstop c hc).1)
    (fun hc => (hstop 46 hc).2 rfl)
  rw [numberText, hsign]
  simp only [hhex, hmantissa, exponent_spelled he hrest, List.append_assoc]

/-! ## How a piece starts -/

theorem solid_digit {c : Nat} (h : isDigit c = true) : Solid c := by
  simp only [isDigit, Bool.and_eq_true, decide_eq_true_eq] at h
  refine ⟨?_, by omega⟩
  simp only [isSpace, List.mem_cons, List.not_mem_nil, or_false, Bool.or_eq_false_iff,
    Bool.and_eq_false_iff, decide_eq_false_iff_not]
  omega

/-- A spelling starts with a character of its own, which is no closing bracket; what stands between
brackets may have space before it. -/
def Starts : Piece → Units → Prop
  | .value _, w => ∃ c cs, w = c :: cs ∧ Solid c ∧ c ≠ 93 ∧ c ≠ 125
  | .items _, w => ∃ a c cs, Space a ∧ w = a ++ c :: cs ∧ Solid c ∧ c ≠ 93 ∧ c ≠ 125
  | .members _, w => ∃ a c cs, Space a ∧ w = a ++ c :: cs ∧ Solid c ∧ c ≠ 93 ∧ c ≠ 125

theorem JsonNumber.head {w : Units} (h : JsonNumber w) :
    ∃ c cs, w = c :: cs ∧ (c = 45 ∨ isDigit c = true) := by
  obtain ⟨hsgn, hw, -, -⟩ := h
  obtain ⟨d, ds, rfl, hd, -⟩ := hw.head
  obtain rfl | rfl := hsgn
  · exact ⟨_, _, rfl, Or.inr hd⟩
  · exact ⟨_, _, rfl, Or.inl rfl⟩

theorem starts_spelled {p : Piece} {w : Units} (h : Spells p w) : Starts p w := by
  have hquote : Solid 34 := solid_punct (by decide)
  induction h with
  | null => exact ⟨110, units "ull", rfl, ⟨by decide, by decide⟩, by decide, by decide⟩
  | true => exact ⟨116, units "rue", rfl, ⟨by decide, by decide⟩, by decide, by decide⟩
  | false => exact ⟨102, units "alse", rfl, ⟨by decide, by decide⟩, by decide, by decide⟩
  | num h =>
    obtain ⟨c, cs, rfl, hc⟩ := h.head
    obtain rfl | hc := hc
    · exact ⟨_, _, rfl, ⟨by decide, by decide⟩, by decide, by decide⟩
    · refine ⟨c, cs, rfl, solid_digit hc, ?_⟩
      simp only [isDigit, Bool.and_eq_true, decide_eq_true_eq] at hc
      omega
  | str h => exact ⟨_, _, rfl, hquote, by decide, by decide⟩
  | emptyArr ha => exact ⟨_, _, rfl, solid_punct (by decide), by decide, by decide⟩
  | arr h => exact ⟨_, _, rfl, solid_punct (by decide), by decide, by decide⟩
  | emptyObj ha => exact ⟨_, _, rfl, solid_punct (by decide), by decide, by decide⟩
  | obj h => exact ⟨_, _, rfl, solid_punct (by decide), by decide, by decide⟩
  | lastItem ha hb h ih =>
    obtain ⟨c, cs, rfl, hc⟩ := ih
    exact ⟨_, c, _, ha, rfl, hc⟩
  | item ha hb h hrest ih ihrest =>
    obtain ⟨c, cs, rfl, hc⟩ := ih
    exact ⟨_, c, _, ha, rfl, hc⟩
  | lastMember ha hk hb hc hd h ih => exact ⟨_, 34, _, ha, rfl, hquote, by decide, by decide⟩
  | member ha hk hb hc hd h hrest ih ihrest =>
    exact ⟨_, 34, _, ha, rfl, hquote, by decide, by decide⟩

theorem Starts.takes_items {ts : List Syn} {w : Units} (h : Starts (.items ts) w) (cs : Units) :
    takes 93 (w ++ cs) = none := by
  obtain ⟨a, c, w, ha, rfl, hc, hne, -⟩ := h
  rw [List.append_assoc, takes_space ha]
  exact takes_other hc hne _

theorem Starts.takes_members {ms : List (Units × Syn)} {w : Units} (h : Starts (.members ms) w)
    (cs : Units) : takes 125 (w ++ cs) = none := by
  obtain ⟨a, c, w, ha, rfl, hc, -, hne⟩ := h
  rw [List.append_assoc, takes_space ha]
  exact takes_other hc hne _

/-! ## Values -/

section
variable {ν κ : Type} (host : Host ν κ)

theorem value_space {a : Units} (ha : Space a) (fuel : Nat) (cs : Units) :
    value host fuel (a ++ cs) = value host fuel cs := by
  cases fuel with
  | zero => simp [value]
  | succ fuel => rw [value, value, ws_space ha]

theorem ends_punct {c : Nat} (h : c ∈ [44, 93, 125]) {b : Units} (hb : Space b) (rest : Units) :
    Ends (b ++ c :: rest) := by
  intro x hx
  cases b with
  | nil =>
    simp only [List.nil_append, List.head?_cons, Option.mem_some] at hx
    subst hx
    simp only [List.mem_cons, List.not_mem_nil, or_false] at h ⊢
    omega
  | cons y b =>
    have hy := hb y List.mem_cons_self
    simp only [List.cons_append, List.head?_cons, Option.mem_some] at hx
    subst hx
    simp only [List.mem_cons, List.not_mem_nil, or_false]
    omega

theorem sequel_closed {close : Nat} (h : close ∈ [93, 125]) {b : Units} (hb : Space b)
    (rest : Units) : sequel close (b ++ close :: rest) = .closed rest := by
  have hsolid : Solid close := solid_punct (by
    simp only [List.mem_cons, List.not_mem_nil, or_false] at h ⊢
    omega)
  have hne : close ≠ 44 := by
    simp only [List.mem_cons, List.not_mem_nil, or_false] at h
    omega
  rw [sequel, takes_space hb, takes_space hb, takes_other hsolid hne, takes_cons hsolid]

theorem sequel_more {close : Nat} {b rest : Units} (hb : Space b)
    (hrest : takes close rest = none) : sequel close (b ++ 44 :: rest) = .more rest := by
  have hsolid : Solid 44 := solid_punct (by decide)
  simp only [sequel, takes_space hb, takes_cons hsolid, hrest]

theorem literal_spelled {name : Units} {v : JsValue ν κ} (hname : ∃ c cs, name = c :: cs ∧
      isNameStart c = true) (hparts : ∀ c ∈ name, isNamePart c = true) (hnew : name ≠ units "new")
    (hv : literal name = some v) (fuel : Nat) {rest : Units} (hrest : Ends rest) :
    word host (fuel + 1) (name ++ rest) = .ok (v, rest) := by
  have hstop := hrest.not (p := isNamePart) (by decide)
  have hspan := span_stop hparts hstop
  obtain ⟨c, cs, rfl, hc⟩ := hname
  have hname? : name? (c :: cs ++ rest) = some (c :: cs, rest) := by
    rw [← hspan]
    simp [name?, hc]
  simp only [word, hname?, if_neg hnew, hv]

theorem value_cons {c : Nat} (h : Solid c) (fuel : Nat) (cs : Units) :
    value host (fuel + 1) (c :: cs) =
      if c = 123 then object host fuel (c :: cs)
      else if c = 91 then array host fuel (c :: cs)
      else if isQuote c then (string (c :: cs)).map fun x => (.str x.1, x.2)
      else if c = 47 then regex host (c :: cs)
      else if c = 45 ∨ c = 43 ∨ isDigit c then number host (c :: cs)
      else word host fuel (c :: cs) := by
  rw [value, ws_cons h]

theorem value_number {w rest : Units} (h : JsonNumber w) (hrest : Ends rest) (fuel : Nat) :
    value host (fuel + 1) (w ++ rest) = .ok (.num (host.number w), rest) := by
  have htext := numberText_spelled h hrest
  obtain ⟨c, cs, rfl, hc⟩ := h.head
  have hsolid : Solid c := by
    obtain rfl | hc := hc
    · exact ⟨by decide, by decide⟩
    · exact solid_digit hc
  have hdispatch : c ≠ 123 ∧ c ≠ 91 ∧ isQuote c = false ∧ c ≠ 47 := by
    simp only [isDigit, Bool.and_eq_true, decide_eq_true_eq] at hc
    simp only [isQuote, Bool.or_eq_false_iff, decide_eq_false_iff_not]
    omega
  have hnumber : c = 45 ∨ c = 43 ∨ isDigit c = true := by
    obtain hc | hc := hc
    · exact Or.inl hc
    · exact Or.inr (Or.inr hc)
  obtain ⟨h1, h2, h3, h4⟩ := hdispatch
  rw [List.cons_append] at htext ⊢
  rw [value_cons host hsolid, if_neg h1, if_neg h2, h3, if_neg Bool.false_ne_true, if_neg h4,
    if_pos hnumber, number, htext]

/-- What the parser does at a piece of JSON, with what is to come after it and fuel enough. -/
def Parses : Piece → Units → Prop
  | .value t, w => ∀ fuel rest, 4 * w.length + 1 ≤ fuel → Ends rest →
      value host fuel (w ++ rest) = .ok (assignEval host.number t, rest)
  | .items ts, w => ∀ fuel rest what out, 4 * w.length + 2 ≤ fuel →
      entries host fuel 93 what out (w ++ 93 :: rest) = .ok (out ++ assignItems host.number ts, rest)
  | .members ms, w => ∀ fuel rest out, 4 * w.length + 2 ≤ fuel →
      members host fuel out (w ++ 125 :: rest) =
        .ok (.obj (assignMembers host.number out ms).1 (assignMembers host.number out ms).2, rest)

theorem parses_spelled {p : Piece} {w : Units} (h : Spells p w) : Parses host p w := by
  induction h with
  | null =>
    intro fuel rest hfuel hrest
    have hlen : (units "null").length = 4 := rfl
    obtain ⟨fuel, rfl⟩ := Nat.exists_eq_add_of_le' (show 2 ≤ fuel by omega)
    exact literal_spelled host ⟨110, units "ull", rfl, by decide⟩ (by decide) (by decide) rfl fuel
      hrest
  | true =>
    intro fuel rest hfuel hrest
    have hlen : (units "true").length = 4 := rfl
    obtain ⟨fuel, rfl⟩ := Nat.exists_eq_add_of_le' (show 2 ≤ fuel by omega)
    exact literal_spelled host ⟨116, units "rue", rfl, by decide⟩ (by decide) (by decide) rfl fuel
      hrest
  | false =>
    intro fuel rest hfuel hrest
    have hlen : (units "false").length = 5 := rfl
    obtain ⟨fuel, rfl⟩ := Nat.exists_eq_add_of_le' (show 2 ≤ fuel by omega)
    exact literal_spelled host ⟨102, units "alse", rfl, by decide⟩ (by decide) (by decide) rfl fuel
      hrest
  | num h =>
    intro fuel rest hfuel hrest
    obtain ⟨fuel, rfl⟩ := Nat.exists_eq_add_of_le' (show 1 ≤ fuel by omega)
    exact value_number host h hrest fuel
  | str h =>
    intro fuel rest hfuel hrest
    obtain ⟨fuel, rfl⟩ := Nat.exists_eq_add_of_le' (show 1 ≤ fuel by omega)
    have hstring := string_spelled h rest
    rw [List.cons_append, List.append_assoc, value_cons host (solid_punct (by decide))]
    simp [isQuote, hstring, Except.map, assignEval]
  | emptyArr ha =>
    intro fuel rest hfuel hrest
    rw [List.length_cons] at hfuel
    obtain ⟨fuel, rfl⟩ := Nat.exists_eq_add_of_le' (show 2 ≤ fuel by omega)
    have hsolid : Solid 91 := solid_punct (by decide)
    have hclose : Solid 93 := solid_punct (by decide)
    rw [List.cons_append, List.append_assoc, value_cons host hsolid]
    simp [array, expect_cons hsolid, takes_space ha, takes_cons hclose, assignEval, assignItems]
  | @arr ts w h ih =>
    intro fuel rest hfuel hrest
    simp only [List.length_cons, List.length_append, List.length_nil] at hfuel
    obtain ⟨fuel, rfl⟩ := Nat.exists_eq_add_of_le' (show 2 ≤ fuel by omega)
    have hsolid : Solid 91 := solid_punct (by decide)
    have hnone := (starts_spelled h).takes_items (93 :: rest)
    have hentries := ih fuel rest "Expected \",\" or \"]\"" [] (by omega)
    rw [List.cons_append, List.append_assoc, List.singleton_append, value_cons host hsolid]
    simp [array, expect_cons hsolid, hnone, hentries, Except.map, assignEval]
  | emptyObj ha =>
    intro fuel rest hfuel hrest
    rw [List.length_cons] at hfuel
    obtain ⟨fuel, rfl⟩ := Nat.exists_eq_add_of_le' (show 2 ≤ fuel by omega)
    have hsolid : Solid 123 := solid_punct (by decide)
    have hclose : Solid 125 := solid_punct (by decide)
    rw [List.cons_append, List.append_assoc, value_cons host hsolid]
    simp [object, expect_cons hsolid, takes_space ha, takes_cons hclose, assignEval, assignMembers]
  | @obj ms w h ih =>
    intro fuel rest hfuel hrest
    simp only [List.length_cons, List.length_append, List.length_nil] at hfuel
    obtain ⟨fuel, rfl⟩ := Nat.exists_eq_add_of_le' (show 2 ≤ fuel by omega)
    have hsolid : Solid 123 := solid_punct (by decide)
    have hnone := (starts_spelled h).takes_members (125 :: rest)
    have hmembers := ih fuel rest ([], true) (by omega)
    rw [List.cons_append, List.append_assoc, List.singleton_append, value_cons host hsolid]
    simp [object, expect_cons hsolid, hnone, hmembers, assignEval]
  | @lastItem t a w b ha hb h ih =>
    intro fuel rest what out hfuel
    simp only [List.length_append] at hfuel
    obtain ⟨fuel, rfl⟩ := Nat.exists_eq_add_of_le' (show 1 ≤ fuel by omega)
    have hvalue := ih fuel (b ++ 93 :: rest) (by omega) (ends_punct (by decide) hb rest)
    simp only [List.append_assoc, entries, value_space host ha, hvalue,
      sequel_closed (show 93 ∈ [93, 125] by decide) hb, assignItems]
  | @item t ts a w b rest' ha hb h hrest ih ihrest =>
    intro fuel rest what out hfuel
    simp only [List.length_append, List.length_cons] at hfuel
    obtain ⟨fuel, rfl⟩ := Nat.exists_eq_add_of_le' (show 1 ≤ fuel by omega)
    have hvalue := ih fuel (b ++ 44 :: (rest' ++ 93 :: rest)) (by omega)
      (ends_punct (by decide) hb _)
    have hmore := sequel_more hb ((starts_spelled hrest).takes_items (93 :: rest))
    have hitems := ihrest fuel rest what (out ++ [assignEval host.number t]) (by omega)
    simp only [List.append_assoc, List.cons_append, entries, value_space host ha, hvalue, hmore,
      hitems, assignItems, List.nil_append]
  | @lastMember s t a k b c w d ha hk hb hc hd h ih =>
    intro fuel rest out hfuel
    simp only [List.length_append, List.length_cons] at hfuel
    obtain ⟨fuel, rfl⟩ := Nat.exists_eq_add_of_le' (show 1 ≤ fuel by omega)
    have hvalue := ih fuel (d ++ 125 :: rest) (by omega) (ends_punct (by decide) hd rest)
    have hkey := string_spelled hk (b ++ 58 :: (c ++ (w ++ (d ++ 125 :: rest))))
    simp only [List.append_assoc, List.cons_append, members, ws_space ha,
      ws_cons (solid_punct (show 34 ∈ _ by decide)), key, show isQuote 34 = true from rfl, if_true,
      hkey, expect_space hb, expect_cons (solid_punct (show 58 ∈ _ by decide)),
      value_space host hc, hvalue, sequel_closed (show 125 ∈ [93, 125] by decide) hd, assignMembers]
  | @member s t ms a k b c w d rest' ha hk hb hc hd h hrest ih ihrest =>
    intro fuel rest out hfuel
    simp only [List.length_append, List.length_cons] at hfuel
    obtain ⟨fuel, rfl⟩ := Nat.exists_eq_add_of_le' (show 1 ≤ fuel by omega)
    have hvalue := ih fuel (d ++ 44 :: (rest' ++ 125 :: rest)) (by omega)
      (ends_punct (by decide) hd _)
    have hkey := string_spelled hk (b ++ 58 :: (c ++ (w ++ (d ++ 44 :: (rest' ++ 125 :: rest)))))
    have hmore := sequel_more hd ((starts_spelled hrest).takes_members (125 :: rest))
    have hmembers := ihrest fuel rest (assign out s (assignEval host.number t)) (by omega)
    simp only [List.append_assoc, List.cons_append, members, ws_space ha,
      ws_cons (solid_punct (show 34 ∈ _ by decide)), key, show isQuote 34 = true from rfl, if_true,
      hkey, expect_space hb, expect_cons (solid_punct (show 58 ∈ _ by decide)),
      value_space host hc, hvalue, hmore, hmembers, assignMembers]

/-- Every JSON text is read. -/
theorem parseRelaxed_text {t : Syn} {src : Units} (h : Text t src) :
    parseRelaxed host src = .ok (assignEval host.number t) := by
  obtain ⟨ha, hb, hw⟩ := h
  rename_i a w b
  have hends : Ends b := by
    intro c hc
    have hmem := hb c (List.mem_of_mem_head? hc)
    simp only [List.mem_cons, List.not_mem_nil, or_false]
    omega
  have hws : ws b = [] := by
    have := ws_space hb []
    simpa [ws, skip] using this
  have hvalue := parses_spelled host hw (4 * (a ++ (w ++ b)).length + 1) b (by simp; omega) hends
  simp only [parseRelaxed, value_space host ha, hvalue, hws, if_true]

end

end OpsMaxx.Relaxed
