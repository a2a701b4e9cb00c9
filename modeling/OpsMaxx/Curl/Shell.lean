import OpsMaxx.Strings.Percent

/-! # Words of a command line

`shellQuote` and `tokenize` of `shared/curl.ts`: how an argument is written for a shell, and how a
command line is split into its arguments without running anything.
-/

set_option autoImplicit false

namespace OpsMaxx.Curl
open Strings

/-! ## Writing a word -/

def quoteChar (c : Char) : Text := if c = '\'' then ['\'', '\\', '\'', '\''] else [c]

def shellQuote (s : Text) : Text := '\'' :: s.flatMap quoteChar ++ ['\'']

/-! ## Reading words -/

/-- `/\r\n?/g` to a line feed; the flag tells whether the character before was a `\r`. -/
@[grind =] def unixLinesFrom : Bool → Text → Text
  | _, [] => []
  | cr, c :: rest =>
    if c = '\r' then '\n' :: unixLinesFrom true rest
    else if cr = true ∧ c = '\n' then unixLinesFrom false rest
    else c :: unixLinesFrom false rest

def unixLines (s : Text) : Text := unixLinesFrom false s

inductive TokenError
  | singleQuoteOpen | ansiQuoteOpen | doubleQuoteOpen
deriving DecidableEq, Repr

structure Tokens where
  args : List Text
  expansion : Bool
deriving DecidableEq, Repr

/-- Where the scan stands: between quotes of one kind, or in none. -/
inductive Mode
  | plain | single | ansi | double
deriving DecidableEq, Repr

/-- What one character does: the text it adds to the word, whether it makes a word, whether it
ends one, and how many of the characters after it it takes. -/
structure Move where
  mode : Mode
  add : Text := []
  word : Bool := true
  push : Bool := false
  skip : Nat := 0
  expansion : Bool := false

def startsExpansion (c : Char) (rest : Text) : Bool :=
  c = '`' || (c = '$' && (rest.head?.map fun d =>
    (97 ≤ d.toNat && d.toNat ≤ 122) || (65 ≤ d.toNat && d.toNat ≤ 90)
      || "(\x7b_".toList.contains d).getD false)

def hexDigits (n : Nat) (s : Text) : Text := (s.take n).takeWhile fun c => (hexValue c).isSome

def hexNumber (ds : Text) : Nat := ds.foldl (fun n d => 16 * n + (hexValue d).getD 0) 0

/-- `\uXXXX`: a surrogate pair is one character, half of one the replacement character. -/
def unicodeEscape (unit : Nat) (after : Text) : Text × Nat :=
  let low := hexNumber (hexDigits 4 (after.drop 2))
  if 0xd800 ≤ unit ∧ unit < 0xdc00 ∧ after.take 2 = ['\\', 'u']
      ∧ (hexDigits 4 (after.drop 2)).length = 4 ∧ 0xdc00 ≤ low ∧ low < 0xe000 then
    ([Char.ofNat (0x10000 + (unit - 0xd800) * 0x400 + (low - 0xdc00))], 11)
  else if 0xd800 ≤ unit ∧ unit < 0xe000 then (['\ufffd'], 5)
  else ([Char.ofNat unit], 5)

def simpleEscape (c : Char) : Option Char :=
  match c with
  | 'n' => some '\n' | 't' => some '\t' | 'r' => some '\r' | '\\' => some '\\' | '\'' => some '\''
  | '"' => some '"' | '0' => some '\x00' | _ => none

/-- A backslash between `$'` and `'`, before the character `c`. -/
def ansiEscape (c : Char) (rest : Text) : Text × Nat :=
  if c = 'x' ∧ hexDigits 2 rest ≠ [] then
    ([Char.ofNat (hexNumber (hexDigits 2 rest))], 1 + (hexDigits 2 rest).length)
  else if c = 'u' ∧ (hexDigits 4 rest).length = 4 then
    unicodeEscape (hexNumber (hexDigits 4 rest)) (rest.drop 4)
  else
    match simpleEscape c with
    | some d => ([d], 1)
    | none => (['\\', c], 1)

@[grind =] def move (mode : Mode) (c : Char) (rest : Text) : Move :=
  match mode with
  | .plain =>
    if c = '\\' ∧ rest.head? = some '\n' then { mode := .plain, word := false, skip := 1 }
    else if isSpace c then { mode := .plain, word := false, push := true }
    else if c = '\'' then { mode := .single }
    else if c = '$' ∧ rest.head? = some '\'' then { mode := .ansi, skip := 1 }
    else if c = '"' then { mode := .double }
    else if c = '\\' then { mode := .plain, add := rest.head?.toList, skip := 1 }
    else { mode := .plain, add := [c], expansion := startsExpansion c rest }
  | .single => if c = '\'' then { mode := .plain } else { mode := .single, add := [c] }
  | .ansi =>
    if c = '\'' then { mode := .plain }
    else
      match rest with
      | d :: rest' =>
        if c = '\\' then
          { mode := .ansi, add := (ansiEscape d rest').1, skip := (ansiEscape d rest').2 }
        else { mode := .ansi, add := [c] }
      | [] => { mode := .ansi, add := [c] }
  | .double =>
    if c = '"' then { mode := .plain }
    else if c = '\\' ∧ ∀ d ∈ rest.head?, d ∈ "\"\\$`\n".toList then
      { mode := .double, add := rest.head?.toList.filter (· ≠ '\n'), skip := 1 }
    else { mode := .double, add := [c], expansion := startsExpansion c rest }

def flush (cur : Text) (has : Bool) : List Text := if has then [cur] else []

def finishScan (mode : Mode) (cur : Text) (has : Bool) : Except TokenError Tokens :=
  match mode with
  | .plain => .ok ⟨flush cur has, false⟩
  | .single => .error .singleQuoteOpen
  | .ansi => .error .ansiQuoteOpen
  | .double => .error .doubleQuoteOpen

def Tokens.after (args : List Text) (expansion : Bool) (t : Tokens) : Tokens :=
  ⟨args ++ t.args, expansion || t.expansion⟩

/-- The loop of `tokenize`: `cur` is the word so far, `has` tells whether there is one. -/
@[grind =] def scan : Mode → Nat → Text → Bool → Text → Except TokenError Tokens
  | mode, _, cur, has, [] => finishScan mode cur has
  | mode, skip + 1, cur, has, _ :: rest => scan mode skip cur has rest
  | mode, 0, cur, has, c :: rest =>
    let m := move mode c rest
    if m.push then (scan m.mode m.skip [] false rest).map (Tokens.after (flush cur has) m.expansion)
    else (scan m.mode m.skip (cur ++ m.add) (has || m.word) rest).map
      (Tokens.after [] m.expansion)

def tokenize (input : Text) : Except TokenError Tokens := scan .plain 0 [] false (unixLines input)

/-! ## Line ends -/

theorem unixLinesFrom_of_no_cr {s : Text} (h : '\r' ∉ s) : unixLinesFrom false s = s := by
  induction s with
  | nil => rfl
  | cons c s ih =>
    have hc : c ≠ '\r' := fun he => h (he ▸ List.mem_cons_self)
    unfold unixLinesFrom
    rw [if_neg hc, if_neg (by simp), ih fun hm => h (List.mem_cons_of_mem _ hm)]

theorem no_cr_unixLinesFrom (cr : Bool) (s : Text) : '\r' ∉ unixLinesFrom cr s := by
  induction s generalizing cr with
  | nil => simp [unixLinesFrom]
  | cons c s ih =>
    unfold unixLinesFrom
    split_ifs with hc hn
    · intro hm
      rcases List.mem_cons.mp hm with h | h
      · exact absurd h (by decide)
      · exact ih true h
    · exact ih false
    · intro hm
      rcases List.mem_cons.mp hm with h | h
      · exact hc h.symm
      · exact ih false h

/-- Line ends are rewritten in a text exactly when it has a `\r`. -/
theorem unixLines_eq_self (s : Text) : unixLines s = s ↔ '\r' ∉ s := by
  constructor
  · intro h
    rw [← h]
    exact no_cr_unixLinesFrom false s
  · exact unixLinesFrom_of_no_cr

theorem no_cr_unixLines (s : Text) : '\r' ∉ unixLines s := no_cr_unixLinesFrom false s

/-- A character that is no line end keeps what stands on its two sides apart. -/
theorem unixLinesFrom_append (cr : Bool) (s : Text) {c : Char} (hr : c ≠ '\r') (hn : c ≠ '\n')
    (rest : Text) :
    unixLinesFrom cr (s ++ c :: rest) = unixLinesFrom cr s ++ c :: unixLines rest := by
  induction s generalizing cr with
  | nil =>
    rw [List.nil_append]
    conv => lhs; unfold unixLinesFrom
    rw [if_neg hr, if_neg fun h => hn h.2]
    rfl
  | cons d s ih =>
    rw [List.cons_append]
    unfold unixLinesFrom
    split_ifs
    · rw [ih]
      rfl
    · exact ih false
    · rw [ih]
      rfl

theorem unixLinesFrom_flatMap_quote (cr : Bool) (s : Text) :
    unixLinesFrom cr (s.flatMap quoteChar) = (unixLinesFrom cr s).flatMap quoteChar := by
  induction s generalizing cr with
  | nil => rfl
  | cons c s ih =>
    rw [List.flatMap_cons]
    by_cases hq : c = '\''
    · rw [hq]
      simp only [quoteChar, if_true, List.cons_append, List.nil_append, unixLinesFrom]
      simp [ih, quoteChar]
    · have hc : quoteChar c = [c] := if_neg hq
      rw [hc, List.singleton_append]
      unfold unixLinesFrom
      split_ifs with hr hn
      · rw [ih, List.flatMap_cons]
        rfl
      · exact ih false
      · rw [ih, List.flatMap_cons, hc]
        rfl

theorem unixLines_shellQuote (s : Text) : unixLines (shellQuote s) = shellQuote (unixLines s) := by
  have hbody : unixLinesFrom false (s.flatMap quoteChar ++ ['\''])
      = (unixLinesFrom false s).flatMap quoteChar ++ ['\''] := by
    rw [unixLinesFrom_append false _ (by decide) (by decide), unixLinesFrom_flatMap_quote]
    rfl
  show unixLinesFrom false ([] ++ '\'' :: (s.flatMap quoteChar ++ ['\''])) = _
  rw [unixLinesFrom_append false _ (by decide) (by decide)]
  show '\'' :: unixLinesFrom false _ = _
  rw [hbody]
  rfl

/-! ## A quoted word is read back -/

theorem after_nil (r : Except TokenError Tokens) : r.map (Tokens.after [] false) = r := by
  cases r with
  | error e => rfl
  | ok t => rfl

theorem scan_single {c : Char} (h : c ≠ '\'') (cur rest : Text) :
    scan .single 0 cur true (c :: rest) = scan .single 0 (cur ++ [c]) true rest := by
  conv => lhs; unfold scan
  simp only [move, if_neg h, Bool.false_eq_true, if_false, Bool.true_or, after_nil]

theorem scan_single_end (cur rest : Text) :
    scan .single 0 cur true ('\'' :: rest) = scan .plain 0 cur true rest := by
  conv => lhs; unfold scan
  simp only [move, if_true, Bool.false_eq_true, if_false, Bool.true_or, List.append_nil, after_nil]

theorem scan_open (cur : Text) (has : Bool) (rest : Text) :
    scan .plain 0 cur has ('\'' :: rest) = scan .single 0 cur true rest := by
  have hspace : isSpace '\'' = false := by decide
  conv => lhs; unfold scan
  simp only [move, Char.reduceEq, false_and, hspace, Bool.false_eq_true, if_true, if_false,
    Bool.or_true, List.append_nil, after_nil]

theorem scan_escaped_quote (cur rest : Text) :
    scan .plain 0 cur true ('\\' :: '\'' :: rest) = scan .plain 0 (cur ++ ['\'']) true rest := by
  have hspace : isSpace '\\' = false := by decide
  conv => lhs; unfold scan
  simp only [move, List.head?_cons, Option.some.injEq, Char.reduceEq, and_false, false_and, hspace,
    Bool.false_eq_true, if_true, if_false, Bool.or_true, Option.toList_some, after_nil]
  conv => lhs; unfold scan

/-- A piece of command line that is one word, or the rest of one. -/
def Spells (p w : Text) : Prop :=
  ∀ (cur : Text) (has : Bool) (rest : Text),
    scan .plain 0 cur has (p ++ rest) = scan .plain 0 (cur ++ w) true rest

theorem scan_quoted (s cur rest : Text) :
    scan .single 0 cur true (s.flatMap quoteChar ++ '\'' :: rest)
      = scan .plain 0 (cur ++ s) true rest := by
  induction s generalizing cur with
  | nil =>
    rw [List.append_nil]
    exact scan_single_end cur rest
  | cons c s ih =>
    rw [List.flatMap_cons, List.append_assoc]
    by_cases hq : c = '\''
    · rw [hq]
      show scan .single 0 cur true
        ('\'' :: '\\' :: '\'' :: '\'' :: (s.flatMap quoteChar ++ '\'' :: rest)) = _
      rw [scan_single_end, scan_escaped_quote, scan_open, ih, List.append_assoc]
      rfl
    · rw [quoteChar, if_neg hq, List.singleton_append, scan_single hq, ih, List.append_assoc]
      rfl

theorem shellQuote_spells (s : Text) : Spells (shellQuote s) s := by
  intro cur has rest
  show scan .plain 0 cur has ('\'' :: (s.flatMap quoteChar ++ ['\'']) ++ rest) = _
  rw [List.cons_append, List.append_assoc, scan_open]
  exact scan_quoted s cur rest

/-- A character that means itself outside quotes. -/
def isBare (c : Char) : Bool :=
  isAlphanumeric c || c = '-'

theorem isBare_plain {c : Char} (h : isBare c = true) (rest : Text) :
    move .plain c rest = { mode := .plain, add := [c] } := by
  have hne : ∀ d : Char, isBare d = false → c ≠ d := by
    rintro d hd rfl
    rw [h] at hd
    cases hd
  have hspace : isSpace c = false := by
    by_cases hdash : c = '-'
    · rw [hdash]
      decide
    · rw [Bool.eq_false_iff]
      intro hs
      simp [isBare, isAlphanumeric, hdash] at h
      simp [isSpace] at hs
      omega
  have hexp : startsExpansion c rest = false := by
    unfold startsExpansion
    simp [hne '`' (by decide), hne '$' (by decide)]
  simp only [move, hne '\\' (by decide), hne '\'' (by decide), hne '$' (by decide),
    hne '"' (by decide), hspace, hexp, false_and, if_false, Bool.false_eq_true]

theorem bare_spells {w : Text} (hne : w ≠ []) (h : ∀ c ∈ w, isBare c = true) : Spells w w := by
  intro cur has rest
  induction w generalizing cur has with
  | nil => exact absurd rfl hne
  | cons c w ih =>
    have hstep : scan .plain 0 cur has (c :: (w ++ rest))
        = scan .plain 0 (cur ++ [c]) true (w ++ rest) := by
      conv => lhs; unfold scan
      simp only [isBare_plain (h c List.mem_cons_self), Bool.false_eq_true, if_false, Bool.or_true,
        after_nil]
    rw [List.cons_append, hstep]
    cases w with
    | nil => rfl
    | cons d w =>
      rw [ih (by simp) (fun x hx => h x (List.mem_cons_of_mem _ hx)), List.append_assoc]
      rfl

/-! ## Words in a row -/

theorem scan_space (cur : Text) (has : Bool) (rest : Text) :
    scan .plain 0 cur has (' ' :: rest)
      = (scan .plain 0 [] false rest).map (Tokens.after (flush cur has) false) := by
  have hspace : isSpace ' ' = true := by decide
  conv => lhs; unfold scan
  simp only [move, Char.reduceEq, false_and, hspace, if_true, if_false]

theorem scan_continued (rest : Text) :
    scan .plain 0 [] false ('\\' :: '\n' :: ' ' :: ' ' :: rest) = scan .plain 0 [] false rest := by
  conv => lhs; unfold scan
  simp only [move, List.head?_cons, and_self, if_true, Bool.false_eq_true, if_false, Bool.or_false,
    List.append_nil, after_nil]
  conv => lhs; unfold scan
  rw [scan_space, scan_space]
  cases scan .plain 0 [] false rest with
  | error e => rfl
  | ok t => rfl

/-- A piece of command line that is some whole words. -/
structure Reads (p : Text) (args : List Text) : Prop where
  more : ∀ rest, scan .plain 0 [] false (p ++ ' ' :: rest)
    = (scan .plain 0 [] false rest).map (Tokens.after args false)
  last : scan .plain 0 [] false p = .ok ⟨args, false⟩

theorem Spells.reads {p w : Text} (h : Spells p w) : Reads p [w] := by
  constructor
  · intro rest
    rw [h, scan_space, List.nil_append]
    rfl
  · have hp := h [] false []
    rw [List.append_nil] at hp
    rw [hp, List.nil_append]
    rfl

theorem Reads.words {p q : Text} {ps qs : List Text} (hp : Reads p ps) (hq : Reads q qs) :
    Reads (p ++ ' ' :: q) (ps ++ qs) := by
  constructor
  · intro rest
    rw [List.append_assoc, List.cons_append, hp.more, hq.more]
    cases scan .plain 0 [] false rest with
    | error e => rfl
    | ok t => simp [Except.map, Tokens.after]
  · rw [hp.more, hq.last]
    rfl

/-- `parts.join(' \\\n  ')`. -/
@[grind =] def joinParts : List Text → Text
  | [] => []
  | [p] => p
  | p :: ps => p ++ " \\\n  ".toList ++ joinParts ps

theorem joinParts_reads {ps : List (Text × List Text)} (hne : ps ≠ [])
    (h : ∀ p ∈ ps, Reads p.1 p.2) :
    scan .plain 0 [] false (joinParts (ps.map Prod.fst)) = .ok ⟨ps.flatMap Prod.snd, false⟩ := by
  induction ps with
  | nil => exact absurd rfl hne
  | cons p ps ih =>
    have hp := h p List.mem_cons_self
    cases ps with
    | nil => simpa [joinParts] using hp.last
    | cons q ps =>
      show scan .plain 0 [] false (p.1 ++ " \\\n  ".toList ++ joinParts ((q :: ps).map Prod.fst)) = _
      rw [List.append_assoc]
      show scan .plain 0 [] false
        (p.1 ++ ' ' :: '\\' :: '\n' :: ' ' :: ' ' :: joinParts ((q :: ps).map Prod.fst)) = _
      rw [hp.more, scan_continued, ih (by simp) fun x hx => h x (List.mem_cons_of_mem _ hx)]
      rfl

theorem unixLines_joinParts (ps : List Text) :
    unixLines (joinParts ps) = joinParts (ps.map unixLines) := by
  induction ps with
  | nil => rfl
  | cons p ps ih =>
    cases ps with
    | nil => rfl
    | cons q ps =>
      show unixLinesFrom false (p ++ " \\\n  ".toList ++ joinParts (q :: ps)) = _
      rw [List.append_assoc]
      show unixLinesFrom false (p ++ ' ' :: (['\\', '\n', ' '] ++ ' ' :: joinParts (q :: ps))) = _
      rw [unixLinesFrom_append false p (by decide) (by decide)]
      show unixLines p ++ ' ' :: unixLinesFrom false _ = _
      rw [unixLinesFrom_append false _ (by decide) (by decide), ih]
      simp [joinParts, unixLinesFrom]

end OpsMaxx.Curl
