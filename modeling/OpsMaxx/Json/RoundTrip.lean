import OpsMaxx.Json.Text

/-! # Reading back what was printed

* `Json.parse_stringify`: a valid value survives being printed and read.
* `Json.parse_valid`: whatever is read is valid.
-/

set_option autoImplicit false

namespace OpsMaxx

/-! ## Strings -/

theorem hexVal_hexDigit : ∀ n < 16, hexVal (hexDigit n) = some n := by decide

theorem hexUnit_control {n : Nat} (h : n < 256) :
    hexUnit '0' '0' (hexDigit (n / 16)) (hexDigit (n % 16)) = some n := by
  have hz : hexVal '0' = some 0 := by decide
  have h1 := hexVal_hexDigit (n / 16) (by omega)
  have h2 := hexVal_hexDigit (n % 16) (by omega)
  simp only [hexUnit, hz, h1, h2, Option.bind_eq_bind, Option.bind_some]
  simp
  omega

theorem unitChar_toNat {c : Char} (h : c.toNat < 32) : unitChar c.toNat = c := by
  have hs : isSurrogate c.toNat = false := by simp [isSurrogate]; omega
  simp [unitChar, hs]

theorem pairChar_control {n : Nat} (h : n < 32) (lo : Option Nat) : pairChar n lo = none := by
  cases lo with
  | none => rfl
  | some lo => exact if_neg (by omega)

theorem readString_control {n : Nat} (h : n < 32) (rest : List Char) :
    readString ('\\' :: 'u' :: '0' :: '0' :: hexDigit (n / 16) :: hexDigit (n % 16) :: rest) =
      (readString rest).map fun x => (unitChar n :: x.1, x.2) := by
  have hn := hexUnit_control (show n < 256 by omega)
  rw [readString.eq_def]
  split
  · next heq => simp at heq
  · next heq => simp at heq
  · next heq =>
    simp only [List.cons.injEq, true_and] at heq
    obtain ⟨rfl, rfl, rfl, rfl, rfl⟩ := heq
    simp only [hn, pairChar_control h]
  · next heq =>
    simp only [List.cons.injEq, true_and] at heq
    obtain ⟨rfl, rfl, rfl, rfl, rfl⟩ := heq
    simp only [hn]
  · next hne heq =>
    simp only [List.cons.injEq, true_and] at heq
    exact (hne _ _ _ _ _ heq.1.symm heq.2.symm).elim
  · next hne heq =>
    simp only [List.cons.injEq] at heq
    exact (hne _ _ heq.1.symm heq.2.symm).elim

theorem readString_plain {c : Char} (hq : c ≠ '"') (hb : c ≠ '\\') (h : 32 ≤ c.toNat)
    (rest : List Char) :
    readString (c :: rest) = (readString rest).map fun x => (c :: x.1, x.2) := by
  rw [readString.eq_def]
  split
  · contradiction
  · next heq => exact absurd (List.cons.inj heq).1 hq
  · next heq => exact absurd (List.cons.inj heq).1 hb
  · next heq => exact absurd (List.cons.inj heq).1 hb
  · next heq => exact absurd (List.cons.inj heq).1 hb
  · next heq =>
    obtain ⟨rfl, rfl⟩ := List.cons.inj heq
    rw [if_neg (by omega)]

theorem readString_escapeChar (c : Char) (rest : List Char) :
    readString (escapeChar c ++ rest) = (readString rest).map fun x => (c :: x.1, x.2) := by
  unfold escapeChar
  split_ifs with h1 h2 h3 h4 h5 h6 h7 h8
  · subst h1; simp [readString, simpleEscape]
  · subst h2; simp [readString, simpleEscape]
  · subst h3; simp [readString, simpleEscape]
  · subst h4; simp [readString, simpleEscape]
  · subst h5; simp [readString, simpleEscape]
  · subst h6; simp [readString, simpleEscape]
  · subst h7; simp [readString, simpleEscape]
  · simpa [unitChar_toNat h8] using readString_control h8 rest
  · exact readString_plain h1 h2 (by omega) rest

theorem readString_printString (s : String) (rest : List Char) :
    readString (s.toList.flatMap escapeChar ++ '"' :: rest) = some (s.toList, rest) := by
  induction s.toList with
  | nil => simp [readString]
  | cons c cs ih =>
    simp only [List.flatMap_cons, List.append_assoc]
    rw [readString_escapeChar, ih]
    rfl

/-! ## Numbers -/

/-- What may follow a printed number: nothing that could belong to it. -/
def NumberEnd (rest : List Char) : Prop :=
  ∀ c ∈ rest.head?, c.isDigit = false ∧ c ≠ '.' ∧ c ≠ 'e' ∧ c ≠ 'E'

theorem readDigits_append {ds rest : List Char} (hd : ∀ c ∈ ds, c.isDigit = true)
    (hr : ∀ c ∈ rest.head?, c.isDigit = false) : readDigits (ds ++ rest) = (ds, rest) := by
  have hrest : rest.takeWhile Char.isDigit = [] ∧ rest.dropWhile Char.isDigit = rest := by
    cases rest with
    | nil => exact ⟨rfl, rfl⟩
    | cons c cs => simp [hr c rfl]
  rw [readDigits, List.takeWhile_append_of_pos hd, List.dropWhile_append_of_pos hd, hrest.1,
    hrest.2, List.append_nil]

theorem toDigits_isDigit (n : Nat) : ∀ c ∈ Nat.toDigits 10 n, c.isDigit = true :=
  fun _ hc => Nat.isDigit_of_mem_toDigits (by decide) (by decide) hc

theorem padDigits_isDigit (width n : Nat) : ∀ c ∈ padDigits width n, c.isDigit = true := by
  intro c hc
  rcases List.mem_append.mp hc with hc | hc
  · rw [List.eq_of_mem_replicate hc]; rfl
  · exact toDigits_isDigit n c hc

theorem padDigits_length {width n : Nat} (hw : 0 < width) (h : n < 10 ^ width) :
    (padDigits width n).length = width := by
  have hle := (Nat.length_toDigits_le_iff (b := 10) (by decide) hw).mpr h
  simp [padDigits]
  omega

theorem ofDigitChars_padDigits (width n init : Nat) (hw : 0 < width) (h : n < 10 ^ width) :
    Nat.ofDigitChars 10 (padDigits width n) init = 10 ^ width * init + n := by
  rw [Nat.ofDigitChars_eq_ofDigitChars_zero, padDigits_length hw h, padDigits]
  simp [Nat.ofDigitChars_append]

/-- A number above nine is not printed with a leading zero. -/
theorem toDigits_head (n : Nat) :
    (Nat.toDigits 10 n).head? = some '0' → Nat.toDigits 10 n = ['0'] := by
  induction n using Nat.strong_induction_on with
  | _ n ih =>
    intro h
    by_cases hn : n < 10
    · rw [Nat.toDigits_of_lt_base hn] at h ⊢
      simpa using h
    · rw [Nat.toDigits_of_base_le (by decide) (by omega),
        List.head?_append_of_ne_nil _ Nat.toDigits_ne_nil] at h
      have hzero := ih (n / 10) (Nat.div_lt_self (by omega) (by decide)) h
      have hval := congrArg (fun ds => Nat.ofDigitChars 10 ds 0) hzero
      simp at hval
      simp [Nat.ofDigitChars_cons] at hval
      omega

theorem readFraction_none {rest : List Char} (h : NumberEnd rest) :
    readFraction rest = some ([], rest) := by
  cases rest with
  | nil => rfl
  | cons c cs =>
    have hc := (h c rfl).2.1
    rw [readFraction]
    rintro rest heq
    exact hc (List.cons.inj heq).1

theorem readExponent_none {rest : List Char} (h : NumberEnd rest) :
    readExponent rest = some (0, rest) := by
  cases rest with
  | nil => rfl
  | cons c cs =>
    obtain ⟨-, -, he, hE⟩ := h c rfl
    simp [readExponent.eq_def, he, hE]

theorem readUnsigned_printAbs (d : Decimal) {sign : Int}
    (hs : sign * d.mantissa.natAbs = d.mantissa) {rest : List Char} (hr : NumberEnd rest) :
    readUnsigned (d.printAbs ++ rest) sign = some (.num d, rest) := by
  obtain ⟨m, p, hred⟩ := d
  have hdigit : ∀ c ∈ rest.head?, c.isDigit = false := fun c hc => (hr c hc).1
  have hlead : ∀ n, ¬(Nat.toDigits 10 n = [] ∨
      ((Nat.toDigits 10 n).head? = some '0' ∧ Nat.toDigits 10 n ≠ ['0'])) := fun n hn =>
    hn.elim Nat.toDigits_ne_nil fun hn => hn.2 (toDigits_head n hn.1)
  unfold readUnsigned Decimal.printAbs
  simp only at hs ⊢
  by_cases hp : p = 0
  · subst hp
    rw [if_pos rfl, readDigits_append (toDigits_isDigit _) hdigit]
    simp only [if_neg (hlead _), readFraction_none hr, readExponent_none hr, Option.bind_eq_bind,
      Option.bind_some, List.append_nil, Nat.ofDigitChars_ten_toDigits, hs]
    simp [Decimal.scale, Decimal.ofInt]
  · have hpos : 0 < 10 ^ p := Nat.pow_pos (by decide)
    have hlt : m.natAbs % 10 ^ p < 10 ^ p := Nat.mod_lt _ hpos
    have hpad : padDigits p (m.natAbs % 10 ^ p) ≠ [] := by
      rw [← List.length_pos_iff, padDigits_length (by omega) hlt]
      omega
    rw [if_neg hp, List.append_assoc, List.cons_append,
      readDigits_append (toDigits_isDigit _) (by simp)]
    simp only [if_neg (hlead _), readFraction, readDigits_append (padDigits_isDigit _ _) hdigit,
      if_neg hpad, readExponent_none hr, Option.bind_eq_bind, Option.bind_some,
      Nat.ofDigitChars_append, Nat.ofDigitChars_ten_toDigits,
      ofDigitChars_padDigits p _ _ (by omega) hlt, padDigits_length (by omega : 0 < p) hlt,
      Nat.div_add_mod, hs]
    have hneg : ¬ (0 : Int) ≤ 0 - (p : Int) := by omega
    simp [Decimal.scale, hp, Decimal.normalize_of_reduced hred]

theorem readNumber_print (d : Decimal) {rest : List Char} (hr : NumberEnd rest) :
    readNumber (d.print ++ rest) = some (.num d, rest) := by
  unfold Decimal.print
  split_ifs with h
  · exact readUnsigned_printAbs d (by omega) hr
  · have hpos := readUnsigned_printAbs d (by omega : 1 * (d.mantissa.natAbs : Int) = d.mantissa) hr
    -- a number that is not negative does not print a sign
    have hhead : ∀ cs, d.printAbs ++ rest ≠ '-' :: cs := by
      intro cs heq
      have hd : ∀ n, (Nat.toDigits 10 n).head? ≠ some '-' := fun n hn => by
        have := toDigits_isDigit n '-' (List.mem_of_mem_head? (by simp [hn]))
        simp at this
      have hne : ∀ n, Nat.toDigits 10 n ≠ [] := fun n => Nat.toDigits_ne_nil
      have := congrArg List.head? heq
      unfold Decimal.printAbs at this
      split_ifs at this <;>
        simp [List.head?_append_of_ne_nil _ (hne _), hd] at this
    rw [readNumber.eq_def]
    split
    · next heq => exact absurd heq (hhead _)
    · exact hpos

/-! ## Values -/

theorem skipSpace_cons {c : Char} (h : isJsonSpace c = false) (cs : List Char) :
    skipSpace (c :: cs) = c :: cs := by
  simp [skipSpace, h]

/-- The first character of a printed number. -/
theorem Decimal.print_head (d : Decimal) :
    ∃ c cs, d.print = c :: cs ∧ (c.isDigit = true ∨ c = '-') := by
  have hdigits : ∀ n ds, ∃ c cs, Nat.toDigits 10 n ++ ds = c :: cs ∧ c.isDigit = true := by
    intro n ds
    cases h : Nat.toDigits 10 n with
    | nil => exact absurd h Nat.toDigits_ne_nil
    | cons c cs => exact ⟨c, cs ++ ds, rfl, toDigits_isDigit n c (by simp [h])⟩
  have habs : ∃ c cs, d.printAbs = c :: cs ∧ c.isDigit = true := by
    unfold Decimal.printAbs
    simp only
    split_ifs
    · simpa using hdigits d.mantissa.natAbs []
    · exact hdigits _ _
  obtain ⟨c, cs, hc, hd⟩ := habs
  unfold Decimal.print
  split_ifs
  · exact ⟨'-', d.printAbs, rfl, Or.inr rfl⟩
  · exact ⟨c, cs, hc, Or.inl hd⟩

theorem isJsonSpace_digit {c : Char} (h : c.isDigit = true) : isJsonSpace c = false := by
  simp only [isJsonSpace, Bool.or_eq_false_iff, decide_eq_false_iff_not]
  refine ⟨⟨⟨?_, ?_⟩, ?_⟩, ?_⟩ <;> rintro rfl <;> exact absurd h (by decide)

theorem readValue_number {c : Char} (h : c.isDigit = true ∨ c = '-') (n : Nat) (cs : List Char) :
    readValue (n + 1) (c :: cs) = readNumber (c :: cs) := by
  have hspace : isJsonSpace c = false := by
    rcases h with h | rfl
    · exact isJsonSpace_digit h
    · rfl
  have hne : ∀ x : Char, x.isDigit = false → x ≠ '-' → c ≠ x := by
    rintro x hx hm rfl
    exact h.elim (fun h => by simp [hx] at h) hm
  rw [readValue, skipSpace_cons hspace]
  split
  case h_7 => rfl
  all_goals
    next heq => exact absurd (List.cons.inj heq).1 (hne _ (by decide) (by decide))

theorem NumberEnd.of_head {c : Char} {rest : List Char} (h : c ∈ [',', ']', '}', ':']) :
    NumberEnd (c :: rest) := by
  intro x hx
  obtain rfl : c = x := by simpa using hx
  simp only [List.mem_cons, List.not_mem_nil, or_false] at h
  rcases h with rfl | rfl | rfl | rfl <;> decide

theorem printItems_head (vs : List Json) (rest : List Char) :
    NumberEnd (printItems vs ++ rest) := by
  cases vs <;> exact .of_head (by simp)

theorem printFields_head (fs : List (String × Json)) (rest : List Char) :
    NumberEnd (printFields fs ++ rest) := by
  cases fs with
  | nil => exact .of_head (by simp)
  | cons kv fs => exact .of_head (by simp)

theorem printItems_length_pos (vs : List Json) : 0 < (printItems vs).length := by
  cases vs <;> simp [printItems]

theorem printFields_length_pos (fs : List (String × Json)) : 0 < (printFields fs).length := by
  rcases fs with _ | ⟨⟨k, v⟩, fs⟩ <;> simp [printFields]

/-- A printed value starts with neither space nor a closing bracket. -/
theorem Json.print_head (v : Json) :
    ∃ c cs, v.print = c :: cs ∧ isJsonSpace c = false ∧ c ≠ ']' := by
  match v with
  | .null => exact ⟨_, _, rfl, rfl, by decide⟩
  | .bool true => exact ⟨_, _, rfl, rfl, by decide⟩
  | .bool false => exact ⟨_, _, rfl, rfl, by decide⟩
  | .str s => exact ⟨_, _, rfl, rfl, by decide⟩
  | .arr [] => exact ⟨_, _, rfl, rfl, by decide⟩
  | .arr (u :: us) => exact ⟨_, _, rfl, rfl, by decide⟩
  | .obj [] => exact ⟨_, _, rfl, rfl, by decide⟩
  | .obj ((k, u) :: fs) => exact ⟨_, _, rfl, rfl, by decide⟩
  | .num d =>
    obtain ⟨c, cs, hc, hd⟩ := d.print_head
    rcases hd with hd | rfl
    · exact ⟨c, cs, hc, isJsonSpace_digit hd, by rintro rfl; exact absurd hd (by decide)⟩
    · exact ⟨_, cs, hc, rfl, by decide⟩

theorem skipSpace_print (v : Json) (rest : List Char) :
    skipSpace (v.print ++ rest) = v.print ++ rest := by
  obtain ⟨c, cs, hc, hs, -⟩ := v.print_head
  rw [hc, List.cons_append, skipSpace_cons hs]

theorem readValue_arr (n : Nat) (v : Json) (cs : List Char) :
    readValue (n + 1) ('[' :: (v.print ++ cs)) =
      (readItems n (v.print ++ cs)).map fun x => (.arr x.1, x.2) := by
  obtain ⟨c, cs', hc, -, hb⟩ := v.print_head
  rw [readValue, skipSpace_cons (by rfl)]
  simp only [skipSpace_print]
  rw [hc, List.cons_append]
  split
  · next heq => exact absurd (List.cons.inj heq).1 hb
  · rfl

/-- What reading a printed value, item list or field list gives back, with `n` fuel. -/
structure ReadsBack (n : Nat) : Prop where
  value : ∀ v rest, v.Valid → v.print.length ≤ n → NumberEnd rest →
    readValue n (v.print ++ rest) = some (v, rest)
  items : ∀ v vs rest, (∀ u ∈ v :: vs, u.Valid) → v.print.length + (printItems vs).length ≤ n →
    readItems n (v.print ++ (printItems vs ++ rest)) = some (v :: vs, rest)
  fields : ∀ acc k v fs rest, (Json.obj (acc ++ (k, v) :: fs)).Valid →
    (printString k).length + v.print.length + (printFields fs).length ≤ n →
    readFields n (printString k ++ ':' :: (v.print ++ (printFields fs ++ rest))) acc =
      some (acc ++ (k, v) :: fs, rest)

theorem readsBack (n : Nat) : ReadsBack n := by
  induction n with
  | zero =>
    refine ⟨fun v rest _ h => ?_, fun v vs rest _ h => ?_, fun _ _ _ fs _ _ h => ?_⟩
    · obtain ⟨c, cs, hc, -⟩ := v.print_head
      simp [hc] at h
    · have := printItems_length_pos vs
      omega
    · have := printFields_length_pos fs
      omega
  | succ n ih =>
    refine ⟨fun v rest hv hn hr => ?_, fun v vs rest hv hn => ?_, fun acc k v fs rest hv hn => ?_⟩
    · cases v with
      | null => rfl
      | bool b => cases b <;> rfl
      | str s =>
        rw [Json.print, printString, List.cons_append, readValue, skipSpace_cons (by rfl)]
        simp [readString_printString]
      | num d =>
        obtain ⟨c, cs, hc, hd⟩ := d.print_head
        have hnum := readNumber_print d hr
        rw [Json.print, hc, List.cons_append, readValue_number hd, ← List.cons_append, ← hc, hnum]
      | arr items =>
        cases items with
        | nil => rfl
        | cons u us =>
          rw [Json.print, List.length_cons, List.length_append] at hn
          rw [Json.print, List.cons_append, List.append_assoc, readValue_arr,
            ih.items u us rest hv.items (by omega)]
          rfl
      | obj fields =>
        cases fields with
        | nil => rfl
        | cons field fs =>
          obtain ⟨k, u⟩ := field
          simp only [Json.print, List.length_cons, List.length_append] at hn
          have hfields := ih.fields [] k u fs rest hv (by omega)
          simp only [printString, List.cons_append, List.append_assoc, List.nil_append] at hfields
          rw [Json.print, List.cons_append, readValue, skipSpace_cons (by rfl)]
          simp only [printString, List.cons_append, List.append_assoc, List.nil_append,
            skipSpace_cons (show isJsonSpace '"' = false by rfl)]
          exact congrArg (Option.map fun x => (Json.obj x.1, x.2)) hfields
    · have hv' := hv v List.mem_cons_self
      have hpos := printItems_length_pos vs
      rw [readItems, ih.value v _ hv' (by omega) (printItems_head vs rest)]
      cases vs with
      | nil => rfl
      | cons w ws =>
        simp only [printItems, List.length_cons, List.length_append] at hn
        have hrest := ih.items w ws rest (fun u hu => hv u (List.mem_cons_of_mem _ hu)) (by omega)
        simp only [printItems, List.cons_append, List.append_assoc, Option.bind_eq_bind,
          Option.bind_some, skipSpace_cons (show isJsonSpace ',' = false by rfl), hrest]
        rfl
    · have hv' : v.Valid := hv.values (k, v) (by simp)
      have hpos := printFields_length_pos fs
      have hset : setField acc k v = acc ++ [(k, v)] := by
        refine setField_append v fun kv hkv => ?_
        have hkeys := hv.keys
        rw [List.map_append, List.pairwise_append] at hkeys
        exact hkeys.2.2 kv.1 (List.mem_map_of_mem hkv) k (by simp)
      have hval := ih.value v _ hv' (by omega) (printFields_head fs rest)
      rw [readFields, printString, List.cons_append, skipSpace_cons (by rfl)]
      simp only [List.append_assoc, List.singleton_append, readString_printString,
        Option.bind_eq_bind, Option.bind_some, skipSpace_cons (show isJsonSpace ':' = false by rfl),
        hval, String.ofList_toList, hset]
      cases fs with
      | nil => rfl
      | cons field fs =>
        obtain ⟨k', v'⟩ := field
        simp only [printFields, List.length_cons, List.length_append] at hn
        have hrest := ih.fields (acc ++ [(k, v)]) k' v' fs rest (by simpa using hv) (by omega)
        simp only [printFields, List.cons_append, List.append_assoc,
          skipSpace_cons (show isJsonSpace ',' = false by rfl), hrest]
        simp

/-- `JSON.parse(JSON.stringify(v))` is `v`. -/
theorem Json.parse_stringify {v : Json} (h : v.Valid) : Json.parse v.stringify = some v := by
  have hread := (readsBack (v.print.length + 1)).value v [] h (by omega) (by simp [NumberEnd])
  rw [List.append_nil] at hread
  simp [Json.parse, Json.stringify, hread, skipSpace]

/-! ## What is read is valid -/

/-- What reading with `n` fuel gives is valid. -/
structure ReadsValid (n : Nat) : Prop where
  value : ∀ cs v rest, readValue n cs = some (v, rest) → v.Valid
  items : ∀ cs vs rest, readItems n cs = some (vs, rest) → ∀ v ∈ vs, v.Valid
  fields : ∀ cs acc fs rest, (Json.obj acc).Valid → readFields n cs acc = some (fs, rest) →
    (Json.obj fs).Valid

theorem readUnsigned_valid {cs rest : List Char} {sign : Int} {v : Json}
    (h : readUnsigned cs sign = some (v, rest)) : v.Valid := by
  simp only [readUnsigned, Option.bind_eq_bind] at h
  split at h
  · cases h
  · simp only [Option.bind_eq_some_iff, Option.pure_def, Option.some.injEq, Prod.mk.injEq] at h
    obtain ⟨-, -, -, -, rfl, -⟩ := h
    exact .num _

theorem readNumber_valid {cs rest : List Char} {v : Json} (h : readNumber cs = some (v, rest)) :
    v.Valid := by
  unfold readNumber at h
  split at h <;> exact readUnsigned_valid h

theorem readsValid (n : Nat) : ReadsValid n := by
  induction n with
  | zero =>
    refine ⟨fun cs v rest h => ?_, fun cs vs rest h => ?_, fun cs acc fs rest _ h => ?_⟩
    · simp [readValue] at h
    · simp [readItems] at h
    · simp [readFields] at h
  | succ n ih =>
    refine ⟨fun cs v rest h => ?_, fun cs vs rest h => ?_, fun cs acc fs rest hacc h => ?_⟩
    · rw [readValue] at h
      split at h
      · cases h; exact .null
      · cases h; exact .bool true
      · cases h; exact .bool false
      · obtain ⟨x, -, hx⟩ := Option.map_eq_some_iff.mp h
        cases hx; exact .str _
      · split at h
        · cases h; exact .arr (by simp)
        · obtain ⟨x, hread, hx⟩ := Option.map_eq_some_iff.mp h
          cases hx; exact .arr (ih.items _ _ _ hread)
      · split at h
        · cases h; exact .obj (by simp) (by simp)
        · obtain ⟨x, hread, hx⟩ := Option.map_eq_some_iff.mp h
          cases hx; exact ih.fields _ [] _ _ (.obj (by simp) (by simp)) hread
      · exact readNumber_valid h
    · simp only [readItems, Option.bind_eq_bind, Option.bind_eq_some_iff] at h
      obtain ⟨⟨u, cs'⟩, hu, h⟩ := h
      have hu := ih.value _ _ _ hu
      split at h
      · obtain ⟨x, hread, hx⟩ := Option.map_eq_some_iff.mp h
        cases hx
        exact List.forall_mem_cons.mpr ⟨hu, ih.items _ _ _ hread⟩
      · cases h
        exact List.forall_mem_singleton.mpr hu
      · cases h
    · rw [readFields] at h
      split at h
      · simp only [Option.bind_eq_bind, Option.bind_eq_some_iff] at h
        obtain ⟨⟨key, cs'⟩, -, h⟩ := h
        split at h
        · simp only [Option.bind_eq_some_iff] at h
          obtain ⟨⟨v, cs'⟩, hv, h⟩ := h
          have hset := @Json.Valid.setField _ (String.ofList key) _ hacc (ih.value _ _ _ hv)
          split at h
          · exact ih.fields _ _ _ _ hset h
          · cases h; exact hset
          · cases h
        · cases h
      · cases h

theorem Json.parse_valid {s : String} {v : Json} (h : Json.parse s = some v) : v.Valid := by
  unfold Json.parse at h
  split at h
  · next hread =>
    split_ifs at h
    obtain rfl := Option.some.inj h
    exact (readsValid _).value _ _ _ hread
  · cases h

end OpsMaxx
