import Mathlib.Data.List.DropRight
import OpsMaxx.Json.RoundTrip

/-!
# JSON texts that differ in some of their strings

Two texts are alike when they are the same but for the spelling of strings that are the values of
fields, where a relation says which strings may stand for one another, under which key and how deep.
White space, escapes and repeated keys are as they are.
-/

set_option autoImplicit false

namespace OpsMaxx

/-! ## What a text is read as -/

/-- A value, the items of an array, what a key has, or the fields of an object, set one after
another on those there are. -/
inductive Piece where
  | value (v : Json)
  | items (vs : List Json)
  | entry (key : String) (v : Json)
  | fields (acc out : List (String × Json))

def Spells (s : List Char) (v : Json) : Prop :=
  ∀ n rest, s.length < n → NumberEnd rest → readValue n (s ++ rest) = some (v, rest)

def Piece.Reads (s : List Char) : Piece → Prop
  | value v => Spells s v
  | items vs => ∀ n rest, s.length < n → readItems n (s ++ rest) = some (vs, rest)
  | entry _ v => Spells s v
  | fields acc out => ∀ n rest, s.length < n → readFields n (s ++ rest) acc = some (out, rest)

/-- A string behind its opening quote, the closing one included. -/
def Quoted (s : List Char) (x : String) : Prop :=
  ∀ rest, readString (s ++ rest) = some (x.toList, rest)

theorem quoted_escaped (x : String) : Quoted (x.toList.flatMap escapeChar ++ ['"']) x := by
  intro rest
  rw [List.append_assoc]
  exact readString_printString x rest

def Blank (s : List Char) : Prop := ∀ c ∈ s, isJsonSpace c = true

theorem skipSpace_blank {sp : List Char} (h : Blank sp) (s : List Char) :
    skipSpace (sp ++ s) = skipSpace s :=
  List.dropWhile_append_of_pos h

theorem skipSpace_skipSpace (s : List Char) : skipSpace (skipSpace s) = skipSpace s :=
  List.dropWhile_idempotent _ _

theorem readValue_skipSpace (n : Nat) (s : List Char) : readValue n (skipSpace s) = readValue n s := by
  cases n with
  | zero => rfl
  | succ n => rw [readValue, readValue, skipSpace_skipSpace]

theorem readItems_skipSpace (n : Nat) (s : List Char) : readItems n (skipSpace s) = readItems n s := by
  cases n with
  | zero => rfl
  | succ n => rw [readItems, readItems, readValue_skipSpace]

theorem readFields_skipSpace (n : Nat) (s : List Char) (acc : List (String × Json)) :
    readFields n (skipSpace s) acc = readFields n s acc := by
  cases n with
  | zero => rfl
  | succ n => rw [readFields, readFields, skipSpace_skipSpace]

theorem readValue_closed (n : Nat) {s rest : List Char} (h : skipSpace s = ']' :: rest) :
    readValue n s = none := by
  cases n with
  | zero => rfl
  | succ n =>
    rw [readValue, h]
    rfl

theorem readItems_closed (n : Nat) {s rest : List Char} (h : skipSpace s = ']' :: rest) :
    readItems n s = none := by
  cases n with
  | zero => rfl
  | succ n => rw [readItems, readValue_closed n h]; rfl

theorem readFields_closed (n : Nat) {s rest : List Char} (acc : List (String × Json))
    (h : skipSpace s = '}' :: rest) : readFields n s acc = none := by
  cases n with
  | zero => rfl
  | succ n => rw [readFields, h]; rfl

theorem readValue_items (n : Nat) {s : List Char} (h : ∀ rest, skipSpace s ≠ ']' :: rest) :
    readValue (n + 1) ('[' :: s) = (readItems n s).map fun x => (Json.arr x.1, x.2) := by
  obtain ⟨t, ht⟩ : ∃ t, skipSpace s = t := ⟨_, rfl⟩
  rw [readValue, skipSpace_cons (by rfl), ← readItems_skipSpace n s]
  simp only [ht]
  split
  · exact absurd ht (h _)
  · rfl

theorem readValue_fields (n : Nat) {s : List Char} (h : ∀ rest, skipSpace s ≠ '}' :: rest) :
    readValue (n + 1) ('{' :: s) = (readFields n s []).map fun x => (Json.obj x.1, x.2) := by
  obtain ⟨t, ht⟩ : ∃ t, skipSpace s = t := ⟨_, rfl⟩
  rw [readValue, skipSpace_cons (by rfl), ← readFields_skipSpace n s]
  simp only [ht]
  split
  · exact absurd ht (h _)
  · rfl

/-- White space and a separator end a number. -/
theorem NumberEnd.blank {sp : List Char} (h : Blank sp) {c : Char} (hc : c ∈ [',', ']', '}', ':'])
    (rest : List Char) : NumberEnd (sp ++ c :: rest) := by
  cases sp with
  | nil => exact .of_head hc
  | cons d sp =>
    intro x hx
    obtain rfl : d = x := by simpa using hx
    have hd := h d List.mem_cons_self
    simp only [isJsonSpace, Bool.or_eq_true, decide_eq_true_eq] at hd
    obtain ((rfl | rfl) | rfl) | rfl := hd <;> decide

/-! ## Reading a piece from what it is made of -/

section
variable {sp sp' gap key s t : List Char} {v : Json} {vs : List Json} {k : String}
  {fs acc out : List (String × Json)}

theorem reads_string {x : String} (hsp : Blank sp) (h : Quoted s x) :
    Spells (sp ++ '"' :: s) (.str x) := by
  intro n rest hn _
  cases n with
  | zero => omega
  | succ n =>
    rw [← readValue_skipSpace, List.append_assoc, skipSpace_blank hsp, List.cons_append,
      readValue_skipSpace, readValue, skipSpace_cons (by rfl)]
    simp [h rest]

theorem reads_arr (hsp : Blank sp) (h : (Piece.items vs).Reads s) :
    Spells (sp ++ '[' :: s) (.arr vs) := by
  intro n rest hn _
  cases n with
  | zero => omega
  | succ n =>
    have hs := h n rest (by simp at hn; omega)
    rw [← readValue_skipSpace, List.append_assoc, skipSpace_blank hsp, readValue_skipSpace,
      List.cons_append, readValue_items, hs]
    · rfl
    · intro r hr
      rw [readItems_closed n hr] at hs
      contradiction

theorem reads_obj (hsp : Blank sp) (h : (Piece.fields [] fs).Reads s) :
    Spells (sp ++ '{' :: s) (.obj fs) := by
  intro n rest hn _
  cases n with
  | zero => omega
  | succ n =>
    have hs := h n rest (by simp at hn; omega)
    rw [← readValue_skipSpace, List.append_assoc, skipSpace_blank hsp, readValue_skipSpace,
      List.cons_append, readValue_fields, hs]
    · rfl
    · intro r hr
      rw [readFields_closed n [] hr] at hs
      contradiction

theorem reads_last (hsp : Blank sp) (h : Spells s v) :
    (Piece.items [v]).Reads (s ++ (sp ++ [']'])) := by
  intro n rest hn
  cases n with
  | zero => omega
  | succ n =>
    have hs := h n (sp ++ ']' :: rest) (by simp at hn; omega) (.blank hsp (by simp) rest)
    rw [readItems, List.append_assoc, List.append_assoc, List.singleton_append, hs]
    simp only [Option.bind_eq_bind, Option.bind_some, skipSpace_blank hsp,
      skipSpace_cons (show isJsonSpace ']' = false by rfl)]

theorem reads_item (hsp : Blank sp) (h : Spells s v) (ht : (Piece.items vs).Reads t) :
    (Piece.items (v :: vs)).Reads (s ++ (sp ++ ',' :: t)) := by
  intro n rest hn
  cases n with
  | zero => omega
  | succ n =>
    have hs := h n (sp ++ ',' :: (t ++ rest)) (by simp at hn; omega) (.blank hsp (by simp) _)
    have ht := ht n rest (by simp at hn; omega)
    rw [readItems, List.append_assoc, List.append_assoc, List.cons_append, hs]
    simp only [Option.bind_eq_bind, Option.bind_some, skipSpace_blank hsp,
      skipSpace_cons (show isJsonSpace ',' = false by rfl), ht, Option.map_some]

theorem reads_lastField (hsp : Blank sp) (hkey : Quoted key k) (hgap : Blank gap)
    (hsp' : Blank sp') (h : Spells s v) :
    (Piece.fields acc (setField acc k v)).Reads
      (sp ++ '"' :: (key ++ (gap ++ ':' :: (s ++ (sp' ++ ['}']))))) := by
  intro n rest hn
  cases n with
  | zero => omega
  | succ n =>
    have hs := h n (sp' ++ '}' :: rest) (by simp at hn; omega) (.blank hsp' (by simp) rest)
    rw [readFields, List.append_assoc, skipSpace_blank hsp, List.cons_append,
      skipSpace_cons (by rfl)]
    simp only [List.append_assoc, hkey _, Option.bind_eq_bind, Option.bind_some,
      skipSpace_blank hgap, List.cons_append, skipSpace_cons (show isJsonSpace ':' = false by rfl),
      List.nil_append, hs, skipSpace_blank hsp',
      skipSpace_cons (show isJsonSpace '}' = false by rfl), String.ofList_toList]

theorem reads_field (hsp : Blank sp) (hkey : Quoted key k) (hgap : Blank gap)
    (hsp' : Blank sp') (h : Spells s v) (ht : (Piece.fields (setField acc k v) out).Reads t) :
    (Piece.fields acc out).Reads
      (sp ++ '"' :: (key ++ (gap ++ ':' :: (s ++ (sp' ++ ',' :: t))))) := by
  intro n rest hn
  cases n with
  | zero => omega
  | succ n =>
    have hs := h n (sp' ++ ',' :: (t ++ rest)) (by simp at hn; omega) (.blank hsp' (by simp) _)
    have ht := ht n rest (by simp at hn; omega)
    rw [readFields, List.append_assoc, skipSpace_blank hsp, List.cons_append,
      skipSpace_cons (by rfl)]
    simp only [List.append_assoc, hkey _, Option.bind_eq_bind, Option.bind_some,
      skipSpace_blank hgap, List.cons_append, skipSpace_cons (show isJsonSpace ':' = false by rfl),
      hs, skipSpace_blank hsp', skipSpace_cons (show isJsonSpace ',' = false by rfl),
      String.ofList_toList, ht]

end

/-! ## Texts that are alike -/

/-- One text and value beside another, `d` containers deep. -/
inductive Alike (may : Nat → String → String → String → Prop) :
    Nat → List Char → List Char → Piece → Piece → Prop
  | same {d : Nat} {s : List Char} {v : Json} (h : Spells s v) :
      Alike may d s s (.value v) (.value v)
  | arr {d : Nat} {sp s s' : List Char} {vs vs' : List Json} (hsp : Blank sp)
      (h : Alike may (d + 1) s s' (.items vs) (.items vs')) :
      Alike may d (sp ++ '[' :: s) (sp ++ '[' :: s') (.value (.arr vs)) (.value (.arr vs'))
  | obj {d : Nat} {sp s s' : List Char} {fs fs' : List (String × Json)} (hsp : Blank sp)
      (h : Alike may (d + 1) s s' (.fields [] fs) (.fields [] fs')) :
      Alike may d (sp ++ '{' :: s) (sp ++ '{' :: s') (.value (.obj fs)) (.value (.obj fs'))
  | last {d : Nat} {s s' sp : List Char} {v v' : Json} (hsp : Blank sp)
      (h : Alike may d s s' (.value v) (.value v')) :
      Alike may d (s ++ (sp ++ [']'])) (s' ++ (sp ++ [']'])) (.items [v]) (.items [v'])
  | item {d : Nat} {s s' sp t t' : List Char} {v v' : Json} {vs vs' : List Json} (hsp : Blank sp)
      (h : Alike may d s s' (.value v) (.value v'))
      (ht : Alike may d t t' (.items vs) (.items vs')) :
      Alike may d (s ++ (sp ++ ',' :: t)) (s' ++ (sp ++ ',' :: t')) (.items (v :: vs))
        (.items (v' :: vs'))
  | entry {d : Nat} {s s' : List Char} {k : String} {v v' : Json}
      (h : Alike may d s s' (.value v) (.value v')) : Alike may d s s' (.entry k v) (.entry k v')
  | string {d : Nat} {sp s s' : List Char} {k x x' : String} (hsp : Blank sp) (h : Quoted s x)
      (h' : Quoted s' x') (hmay : may d k x x') :
      Alike may d (sp ++ '"' :: s) (sp ++ '"' :: s') (.entry k (.str x)) (.entry k (.str x'))
  | lastField {d : Nat} {sp key gap s s' sp' : List Char} {k : String} {v v' : Json}
      {acc acc' : List (String × Json)} (hsp : Blank sp) (hkey : Quoted key k) (hgap : Blank gap)
      (hsp' : Blank sp') (h : Alike may d s s' (.entry k v) (.entry k v')) :
      Alike may d (sp ++ '"' :: (key ++ (gap ++ ':' :: (s ++ (sp' ++ ['}'])))))
        (sp ++ '"' :: (key ++ (gap ++ ':' :: (s' ++ (sp' ++ ['}'])))))
        (.fields acc (setField acc k v)) (.fields acc' (setField acc' k v'))
  | field {d : Nat} {sp key gap s s' sp' t t' : List Char} {k : String} {v v' : Json}
      {acc acc' out out' : List (String × Json)} (hsp : Blank sp) (hkey : Quoted key k)
      (hgap : Blank gap) (hsp' : Blank sp') (h : Alike may d s s' (.entry k v) (.entry k v'))
      (ht : Alike may d t t' (.fields (setField acc k v) out) (.fields (setField acc' k v') out')) :
      Alike may d (sp ++ '"' :: (key ++ (gap ++ ':' :: (s ++ (sp' ++ ',' :: t)))))
        (sp ++ '"' :: (key ++ (gap ++ ':' :: (s' ++ (sp' ++ ',' :: t')))))
        (.fields acc out) (.fields acc' out')

variable {may : Nat → String → String → String → Prop} {d : Nat} {s s' : List Char}

/-- Both texts are read as their pieces. -/
theorem Alike.reads {p p' : Piece} (h : Alike may d s s' p p') : p.Reads s ∧ p'.Reads s' := by
  induction h with
  | same h => exact ⟨h, h⟩
  | arr hsp _ ih => exact ⟨reads_arr hsp ih.1, reads_arr hsp ih.2⟩
  | obj hsp _ ih => exact ⟨reads_obj hsp ih.1, reads_obj hsp ih.2⟩
  | last hsp _ ih => exact ⟨reads_last hsp ih.1, reads_last hsp ih.2⟩
  | item hsp _ _ ih iht => exact ⟨reads_item hsp ih.1 iht.1, reads_item hsp ih.2 iht.2⟩
  | entry _ ih => exact ih
  | string hsp h h' => exact ⟨reads_string hsp h, reads_string hsp h'⟩
  | lastField hsp hkey hgap hsp' _ ih =>
    exact ⟨reads_lastField hsp hkey hgap hsp' ih.1, reads_lastField hsp hkey hgap hsp' ih.2⟩
  | field hsp hkey hgap hsp' _ _ ih iht =>
    exact ⟨reads_field hsp hkey hgap hsp' ih.1 iht.1, reads_field hsp hkey hgap hsp' ih.2 iht.2⟩

theorem Spells.parse {v : Json} (h : Spells s v) {after : List Char} (hafter : Blank after) :
    Json.parse (String.ofList (s ++ after)) = some v := by
  have hend : NumberEnd after := by
    cases after with
    | nil => exact fun c hc => nomatch hc
    | cons c after =>
      intro x hx
      obtain rfl : c = x := by simpa using hx
      have hc := hafter c List.mem_cons_self
      simp only [isJsonSpace, Bool.or_eq_true, decide_eq_true_eq] at hc
      obtain ((rfl | rfl) | rfl) | rfl := hc <;> decide
  have hnil : skipSpace after = [] := by
    have := skipSpace_blank hafter []
    simpa [skipSpace] using this
  rw [Json.parse, String.toList_ofList, h _ after (by rw [List.length_append]; omega) hend]
  simp only [hnil, if_true]

/-! ## Characters no string can hold -/

theorem hexVal_some {c : Char} {n : Nat} (h : hexVal c = some n) : 32 ≤ c.toNat := by
  unfold hexVal at h
  split_ifs at h with h₁ h₂ h₃
  · exact le_trans (by decide) h₁.1
  · exact le_trans (by decide) h₂.1
  · exact le_trans (by decide) h₃.1

theorem hexUnit_some {a b c d : Char} {n : Nat} (h : hexUnit a b c d = some n) :
    ∀ x ∈ [a, b, c, d], 32 ≤ x.toNat := by
  simp only [hexUnit, Option.bind_eq_bind, Option.bind_eq_some_iff] at h
  obtain ⟨_, ha, _, hb, _, hc, _, hd, -⟩ := h
  intro x hx
  simp only [List.mem_cons, List.not_mem_nil, or_false] at hx
  obtain rfl | rfl | rfl | rfl := hx
  · exact hexVal_some ha
  · exact hexVal_some hb
  · exact hexVal_some hc
  · exact hexVal_some hd

theorem simpleEscape_some {e c : Char} (h : simpleEscape e = some c) : 32 ≤ e.toNat := by
  unfold simpleEscape at h
  split_ifs at h <;> subst e <;> decide

/-- The text begins with printable characters, and `rest` follows them. -/
def Taken (cs rest : List Char) : Prop := ∃ q, cs = q ++ rest ∧ ∀ c ∈ q, 32 ≤ c.toNat

theorem Taken.append {pre cs rest : List Char} (hpre : ∀ c ∈ pre, 32 ≤ c.toNat)
    (h : Taken cs rest) : Taken (pre ++ cs) rest := by
  obtain ⟨q, rfl, hq⟩ := h
  refine ⟨pre ++ q, (List.append_assoc _ _ _).symm, ?_⟩
  intro c hc
  exact (List.mem_append.mp hc).elim (hpre c) (hq c)

theorem readString_map {ch : Char} {cs x rest : List Char}
    (h : (readString cs).map (fun y => (ch :: y.1, y.2)) = some (x, rest)) :
    ∃ y, readString cs = some (y, rest) := by
  obtain ⟨⟨y, r⟩, hy, he⟩ := Option.map_eq_some_iff.mp h
  obtain ⟨-, rfl⟩ := Prod.mk.inj he
  exact ⟨y, hy⟩

theorem hexUnit_escape {a b c d : Char} {n : Nat} (h : hexUnit a b c d = some n) :
    ∀ x ∈ ['\\', 'u', a, b, c, d], 32 ≤ x.toNat := by
  intro x hx
  obtain rfl | rfl | hx := by simpa only [List.mem_cons] using hx
  · decide
  · decide
  · exact hexUnit_some h x (by simpa using hx)

/-- A string takes printable characters off the text. -/
theorem readString_taken (cs : List Char) {x rest : List Char}
    (h : readString cs = some (x, rest)) : Taken cs rest := by
  fun_induction readString cs generalizing x with
  | case1 => contradiction
  | case2 r =>
    obtain ⟨-, rfl⟩ := Prod.mk.inj (Option.some.inj h)
    exact ⟨['"'], rfl, by decide⟩
  | case3 => contradiction
  | case4 a b c d a' b' c' d' r hi hhi ch hpair ih =>
    obtain ⟨y, hy⟩ := readString_map h
    obtain ⟨lo, hlo⟩ : ∃ lo, hexUnit a' b' c' d' = some lo := by
      cases hl : hexUnit a' b' c' d' with
      | none => rw [hl] at hpair; contradiction
      | some lo => exact ⟨lo, rfl⟩
    exact .append (hexUnit_escape hhi) (.append (hexUnit_escape hlo) (ih hy))
  | case5 a b c d a' b' c' d' r hi hhi _ ih =>
    obtain ⟨y, hy⟩ := readString_map h
    exact .append (hexUnit_escape hhi) (ih hy)
  | case6 => contradiction
  | case7 a b c d r _ n hn ih =>
    obtain ⟨y, hy⟩ := readString_map h
    exact .append (hexUnit_escape hn) (ih hy)
  | case8 e r _ _ c he ih =>
    obtain ⟨y, hy⟩ := readString_map h
    have hpre : ∀ x ∈ ['\\', e], 32 ≤ x.toNat := by
      intro x hx
      obtain rfl | rfl := by simpa using hx
      · decide
      · exact simpleEscape_some he
    exact .append hpre (ih hy)
  | case9 => contradiction
  | case10 => contradiction
  | case11 c r _ _ _ _ hc ih =>
    obtain ⟨y, hy⟩ := readString_map h
    have hpre : ∀ x ∈ [c], 32 ≤ x.toNat := by
      intro x hx
      obtain rfl := List.mem_singleton.mp hx
      omega
    exact .append hpre (ih hy)

theorem Quoted.printable {x : String} (h : Quoted s x) : ∀ c ∈ s, 32 ≤ c.toNat := by
  obtain ⟨q, hq, hp⟩ := readString_taken _ (h [])
  rw [List.append_nil, List.append_nil] at hq
  exact hq ▸ hp

/-- A control character is in both texts or in neither. -/
theorem Alike.mem_iff {p p' : Piece} (h : Alike may d s s' p p') {c : Char} (hc : c.toNat < 32) :
    c ∈ s ↔ c ∈ s' := by
  induction h with
  | same => rfl
  | arr _ _ ih => simp [ih]
  | obj _ _ ih => simp [ih]
  | last _ _ ih => simp [ih]
  | item _ _ _ ih iht => simp [ih, iht]
  | entry _ ih => exact ih
  | string _ h h' =>
    have hs : c ∉ _ := fun hm => absurd (h.printable c hm) (by omega)
    have hs' : c ∉ _ := fun hm => absurd (h'.printable c hm) (by omega)
    simp [hs, hs']
  | lastField _ _ _ _ _ ih => simp [ih]
  | field _ _ _ _ _ _ ih iht => simp [ih, iht]

/-! ## What they are read as -/

/-- A field beside another: related values, or two strings of which one may stand for the other. -/
def EntryAlike (may : Nat → String → String → String → Prop) (R : Nat → Json → Json → Prop) (d : Nat)
    (a b : String × Json) : Prop :=
  a.1 = b.1 ∧ (R d a.2 b.2 ∨ ∃ x x', a.2 = .str x ∧ b.2 = .str x' ∧ may d a.1 x x')

theorem setField_alike {R : String × Json → String × Json → Prop} (hkey : ∀ a b, R a b → a.1 = b.1)
    {fs fs' : List (String × Json)} {k : String} {v v' : Json} (h : List.Forall₂ R fs fs')
    (hv : R (k, v) (k, v')) : List.Forall₂ R (setField fs k v) (setField fs' k v') := by
  induction h with
  | nil => exact .cons hv .nil
  | @cons a b fs fs' hab hrest ih =>
    obtain ⟨ka, va⟩ := a
    obtain ⟨kb, vb⟩ := b
    obtain rfl : ka = kb := hkey _ _ hab
    simp only [setField]
    split_ifs
    · exact .cons hv hrest
    · exact .cons hv (.cons hab hrest)
    · exact .cons hab ih

/-- A relation that holds of equal values and passes from items and fields to arrays and objects
holds of what alike texts are read as. -/
theorem Alike.related {R : Nat → Json → Json → Prop} (hsame : ∀ d v, R d v v)
    (harr : ∀ d vs vs', List.Forall₂ (R (d + 1)) vs vs' → R d (.arr vs) (.arr vs'))
    (hobj : ∀ d fs fs', List.Forall₂ (EntryAlike may R (d + 1)) fs fs' → R d (.obj fs) (.obj fs'))
    {p p' : Piece} (h : Alike may d s s' p p') :
    match p, p' with
    | .value v, .value v' => R d v v'
    | .items vs, .items vs' => List.Forall₂ (R d) vs vs'
    | .entry k v, .entry k' v' => EntryAlike may R d (k, v) (k', v')
    | .fields acc out, .fields acc' out' =>
      List.Forall₂ (EntryAlike may R d) acc acc' → List.Forall₂ (EntryAlike may R d) out out'
    | _, _ => False := by
  induction h with
  | same => exact hsame _ _
  | arr _ _ ih => exact harr _ _ _ ih
  | obj _ _ ih => exact hobj _ _ _ (ih .nil)
  | last _ _ ih => exact .cons ih .nil
  | item _ _ _ ih iht => exact .cons ih iht
  | entry _ ih => exact ⟨rfl, .inl ih⟩
  | string _ _ _ hmay => exact ⟨rfl, .inr ⟨_, _, rfl, rfl, hmay⟩⟩
  | lastField _ _ _ _ _ ih => exact fun hacc => setField_alike (fun _ _ h => h.1) hacc ih
  | field _ _ _ _ _ _ ih iht => exact fun hacc => iht (setField_alike (fun _ _ h => h.1) hacc ih)

end OpsMaxx
