import OpsMaxx.Strings.Find
import Mathlib.Data.List.Infix

/-!
# The tokens of a text in SQL

What a query is, apart from how the repository reads it: comments, literals, quoted identifiers, words
and single characters, each as long as it can be. Two dashes begin a comment that goes on to the end of
its line, and a literal contains its quote doubled.
-/

set_option autoImplicit false

namespace OpsMaxx.Queries

open Strings

inductive Token
  | space (c : Char)
  | line (body : Text)
  | block (body : Text)
  | literal (body : Text)
  | quoted (q : Char) (body : Text)
  | word (w : Text)
  | semicolon
  | other (c : Char)
  deriving DecidableEq

namespace Token

def text : Token → Text
  | space c => [c]
  | line body => '-' :: '-' :: body
  | block body => '/' :: '*' :: (body ++ ['*', '/'])
  | literal body => '\'' :: (body ++ ['\''])
  | quoted q body => q :: (body ++ [q])
  | word w => w
  | semicolon => [';']
  | other c => [c]

/-- White space and comments. -/
def isBlank : Token → Bool
  | space _ => true
  | line _ => true
  | block _ => true
  | _ => false

end Token

def textOf (ts : List Token) : Text := ts.flatMap Token.text

@[simp] theorem textOf_nil : textOf [] = [] := rfl

@[simp] theorem textOf_cons (t : Token) (ts : List Token) : textOf (t :: ts) = t.text ++ textOf ts :=
  rfl

@[simp] theorem textOf_append (ts us : List Token) : textOf (ts ++ us) = textOf ts ++ textOf us :=
  List.flatMap_append

/-! ## Reading the tokens -/

/-- A character of a word: a letter or a digit, or one beyond ASCII that is not white space. -/
def isWord (c : Char) : Bool :=
  c.isAlphanum || c = '_' || c = '$' || (128 ≤ c.toNat && isInk c)

def isQuote (c : Char) : Bool := c = '"' || c = '\x60'

/-- The body of a literal and what stands behind its closing quote. -/
def closing : Text → Option (Text × Text)
  | [] => none
  | '\'' :: '\'' :: s => (closing s).map fun found => ('\'' :: '\'' :: found.1, found.2)
  | '\'' :: s => some ([], s)
  | c :: s => (closing s).map fun found => (c :: found.1, found.2)

/-- The first token and what stands behind it; none where something is left open. -/
def next : Text → Option (Token × Text)
  | [] => none
  | '-' :: '-' :: s => some (.line (s.takeWhile (· ≠ '\n')), s.dropWhile (· ≠ '\n'))
  | '/' :: '*' :: s => (cutAt "*/".toList s).map fun found => (.block found.1, found.2)
  | '\'' :: s => (closing s).map fun found => (.literal found.1, found.2)
  | ';' :: s => some (.semicolon, s)
  | c :: s =>
    if isQuote c then (cutAt [c] s).map fun found => (.quoted c found.1, found.2)
    else if isSpace c then some (.space c, s)
    else if isWord c then some (.word (c :: s.takeWhile isWord), s.dropWhile isWord)
    else some (.other c, s)

/-- Every token takes a character at least, so that as many steps as characters are enough. -/
def tokenizeIn : Nat → Text → Option (List Token)
  | _, [] => some []
  | 0, _ :: _ => none
  | n + 1, c :: s => do
    let (t, rest) ← next (c :: s)
    let ts ← tokenizeIn n rest
    some (t :: ts)

def tokenize (s : Text) : Option (List Token) := tokenizeIn s.length s

/-! ## What stands where -/

/-- A text in which every quote is doubled. -/
inductive Paired : Text → Prop
  | nil : Paired []
  | char {c : Char} {b : Text} (hc : c ≠ '\'') (h : Paired b) : Paired (c :: b)
  | pair {b : Text} (h : Paired b) : Paired ('\'' :: '\'' :: b)

/-- A token stands in front of `rest`, and could not have been read otherwise. -/
def Fits : Token → Text → Prop
  | .space c, _ => isSpace c = true
  | .line body, rest => '\n' ∉ body ∧ (rest = [] ∨ rest.head? = some '\n')
  | .block body, _ => ¬ "*/".toList <:+: body
  | .literal body, rest => Paired body ∧ rest.head? ≠ some '\''
  | .quoted q body, _ => isQuote q = true ∧ q ∉ body
  | .word w, rest => w ≠ [] ∧ (∀ c ∈ w, isWord c = true) ∧ ∀ c, rest.head? = some c → isWord c = false
  | .semicolon, _ => True
  | .other c, rest => isSpace c = false ∧ isWord c = false ∧ isQuote c = false ∧ c ≠ '\'' ∧ c ≠ ';' ∧
      (c = '-' → rest.head? ≠ some '-') ∧ (c = '/' → rest.head? ≠ some '*')

/-- Every token of a list stands in front of the ones behind it and of `rest`. -/
def Lexed (rest : Text) : List Token → Prop
  | [] => True
  | t :: ts => Fits t (textOf ts ++ rest) ∧ Lexed rest ts

theorem Lexed.append {rest : Text} {ts us : List Token} (h : Lexed rest (ts ++ us)) :
    Lexed (textOf us ++ rest) ts ∧ Lexed rest us := by
  induction ts with
  | nil => exact ⟨trivial, h⟩
  | cons t ts ih =>
    obtain ⟨hfits, h⟩ := h
    have hfits : Fits t (textOf (ts ++ us) ++ rest) := hfits
    rw [textOf_append, List.append_assoc] at hfits
    exact ⟨⟨hfits, (ih h).1⟩, (ih h).2⟩

theorem closing_eq {s : Text} {found : Text × Text} (h : closing s = some found) :
    s = found.1 ++ '\'' :: found.2 ∧ Paired found.1 ∧ found.2.head? ≠ some '\'' := by
  induction s using closing.induct generalizing found with
  | case1 => cases h
  | case2 s ih =>
    rw [closing] at h
    obtain ⟨inner, hinner, rfl⟩ := Option.map_eq_some_iff.mp h
    obtain ⟨hs, hpaired, hhead⟩ := ih hinner
    exact ⟨by simp [← hs], .pair hpaired, hhead⟩
  | case3 s hs =>
    rw [closing] at h
    · cases h
      refine ⟨rfl, .nil, ?_⟩
      intro hhead
      obtain ⟨t, rfl⟩ : ∃ t, s = '\'' :: t := by
        cases s with
        | nil => cases hhead
        | cons x t => exact ⟨t, by rw [Option.some.inj hhead]⟩
      exact hs t rfl
    · exact hs
  | case4 c s _ hc ih =>
    rw [closing] at h
    · obtain ⟨inner, hinner, rfl⟩ := Option.map_eq_some_iff.mp h
      obtain ⟨hs, hpaired, hhead⟩ := ih hinner
      exact ⟨by simp [← hs], .char hc hpaired, hhead⟩
    · assumption
    · exact hc

theorem head_dropWhile {p : Char → Bool} {s : Text} {c : Char} (h : (s.dropWhile p).head? = some c) :
    p c = false := by
  induction s with
  | nil => cases h
  | cons d s ih =>
    rw [List.dropWhile_cons] at h
    split_ifs at h with hd
    · exact ih h
    · rw [← Option.some.inj h]
      exact Bool.eq_false_iff.mpr hd

/-- A token is read where it stands, and could not have been read otherwise. -/
theorem next_eq {s : Text} {t : Token} {rest : Text} (h : next s = some (t, rest)) :
    s = t.text ++ rest ∧ Fits t rest := by
  unfold next at h
  split at h
  · cases h
  · rename_i s
    cases h
    refine ⟨by simp [Token.text], fun hmem => ?_, ?_⟩
    · simpa using List.mem_takeWhile_imp hmem
    · cases hrest : s.dropWhile (· ≠ '\n') with
      | nil => exact .inl rfl
      | cons c rest =>
        have := head_dropWhile (p := (· ≠ '\n')) (s := s) (c := c) (by rw [hrest]; rfl)
        exact .inr (by simpa using this)
  · obtain ⟨⟨body, behind⟩, hcut, heq⟩ := Option.map_eq_some_iff.mp h
    cases heq
    exact ⟨by rw [cutAt_eq hcut]; simp [Token.text], not_infix_of_cutAt (by decide) hcut⟩
  · obtain ⟨⟨body, behind⟩, hclosing, heq⟩ := Option.map_eq_some_iff.mp h
    cases heq
    obtain ⟨hs, hpaired, hhead⟩ := closing_eq hclosing
    exact ⟨by rw [hs]; simp [Token.text], hpaired, hhead⟩
  · cases h
    exact ⟨rfl, trivial⟩
  · rename_i c s hdashes hslash hliteral hsemi
    split_ifs at h with hquote hspace hword
    · obtain ⟨⟨body, behind⟩, hcut, heq⟩ := Option.map_eq_some_iff.mp h
      cases heq
      refine ⟨by rw [cutAt_eq hcut]; simp [Token.text], hquote, fun hmem => ?_⟩
      exact not_infix_of_cutAt (List.cons_ne_nil _ _) hcut (List.singleton_infix_iff _ _ |>.mpr hmem)
    · cases h
      exact ⟨rfl, hspace⟩
    · cases h
      refine ⟨by simp [Token.text], List.cons_ne_nil _ _, ?_, fun d hd => head_dropWhile hd⟩
      exact List.forall_mem_cons.mpr ⟨hword, fun d hd => List.mem_takeWhile_imp hd⟩
    · cases h
      refine ⟨rfl, by simpa using hspace, by simpa using hword, by simpa using hquote, ?_, ?_, ?_, ?_⟩
      · rintro rfl
        exact hliteral rfl
      · rintro rfl
        exact hsemi rfl
      · rintro rfl hhead
        obtain ⟨d, t, rfl⟩ : ∃ d t, rest = d :: t := List.ne_nil_iff_exists_cons.mp (by
          rintro rfl
          cases hhead)
        exact hdashes t rfl (by rw [Option.some.inj hhead])
      · rintro rfl hhead
        obtain ⟨d, t, rfl⟩ : ∃ d t, rest = d :: t := List.ne_nil_iff_exists_cons.mp (by
          rintro rfl
          cases hhead)
        exact hslash t rfl (by rw [Option.some.inj hhead])

theorem lexed_of_tokenizeIn {n : Nat} {s : Text} {ts : List Token} (h : tokenizeIn n s = some ts) :
    s = textOf ts ∧ Lexed [] ts := by
  induction n generalizing s ts with
  | zero =>
    cases s with
    | nil =>
      cases h
      exact ⟨rfl, trivial⟩
    | cons c s => cases h
  | succ n ih =>
    cases s with
    | nil =>
      cases h
      exact ⟨rfl, trivial⟩
    | cons c s =>
      obtain ⟨⟨t, rest⟩, hnext, h⟩ := Option.bind_eq_some_iff.mp h
      obtain ⟨us, hus, heq⟩ := Option.bind_eq_some_iff.mp h
      cases heq
      obtain ⟨hs, hfits⟩ := next_eq hnext
      obtain ⟨rfl, hlexed⟩ := ih hus
      refine ⟨hs, ?_, hlexed⟩
      rwa [List.append_nil]

/-- A text is the text of its tokens, each as long as it can be. -/
theorem lexed_of_tokenize {s : Text} {ts : List Token} (h : tokenize s = some ts) :
    s = textOf ts ∧ Lexed [] ts :=
  lexed_of_tokenizeIn h

end OpsMaxx.Queries
