import OpsMaxx.Strings.Words
import Mathlib.Data.List.Dedup
import Mathlib.Logic.Relation
import Mathlib.Data.List.Infix

/-! # Regular expressions

A regular expression takes a position in a text to the positions a match from it can end at. A
position remembers the character before it, which is what `^` and a word boundary look at. Whether
there is a match does not depend on the order in which the ways to match are tried, so an expression
is the relation of its matches; `ends` computes it.
-/

set_option autoImplicit false

namespace OpsMaxx.Strings

structure Pos where
  prev : Option Char
  rest : Text
  deriving DecidableEq

/-- `\w`. -/
def isWordChar (c : Char) : Bool := c.isAlphanum || c = '_'

/-- Whether a word begins or ends at a position. -/
def Pos.atBoundary (p : Pos) : Bool := p.prev.any isWordChar != p.rest.head?.any isWordChar

inductive Regex
  | empty
  | chars (kept : Char → Bool)
  | seq (a b : Regex)
  | alt (a b : Regex)
  | star (a : Regex)
  | start
  | boundary
  | ahead (a : Regex)
  | notAhead (a : Regex)

namespace Regex

/-! ## Matches -/

/-- A match that begins at the first position can end at the second. -/
def Run : Regex → Pos → Pos → Prop
  | empty, p, q => q = p
  | chars kept, p, q => ∃ c rest, p.rest = c :: rest ∧ kept c = true ∧ q = ⟨some c, rest⟩
  | seq a b, p, q => ∃ m, Run a p m ∧ Run b m q
  | alt a b, p, q => Run a p q ∨ Run b p q
  | star a, p, q => Relation.ReflTransGen (Run a) p q
  | start, p, q => p.prev = none ∧ q = p
  | boundary, p, q => p.atBoundary = true ∧ q = p
  | ahead a, p, q => (∃ m, Run a p m) ∧ q = p
  | notAhead a, p, q => ¬ (∃ m, Run a p m) ∧ q = p

/-- Repeats a step that goes on in the text. -/
def repeated (step : Pos → List Pos) : Nat → Pos → List Pos
  | 0, p => [p]
  | n + 1, p =>
    (p :: ((step p).filter fun q => q.rest.length < p.rest.length).flatMap
      (repeated step n)).dedup

def ends : Regex → Pos → List Pos
  | empty, p => [p]
  | chars kept, p =>
    match p.rest with
    | [] => []
    | c :: rest => if kept c then [⟨some c, rest⟩] else []
  | seq a b, p => ((ends a p).flatMap (ends b)).dedup
  | alt a b, p => ends a p ++ ends b p
  | star a, p => repeated (ends a) p.rest.length p
  | start, p => if p.prev = none then [p] else []
  | boundary, p => if p.atBoundary then [p] else []
  | ahead a, p => if !(ends a p).isEmpty then [p] else []
  | notAhead a, p => if (ends a p).isEmpty then [p] else []

/-- The positions of a text. -/
def positions (prev : Option Char) : Text → List Pos
  | [] => [⟨prev, []⟩]
  | c :: rest => ⟨prev, c :: rest⟩ :: positions (some c) rest

/-- `rx.test(text)`. -/
def test (rx : Regex) (text : Text) : Bool :=
  (positions none text).any fun p => !(rx.ends p).isEmpty

/-! ## What is computed -/

/-- A match goes on in the text, or stands still. -/
theorem Run.shrinks {r : Regex} {p q : Pos} (h : Run r p q) :
    q = p ∨ q.rest.length < p.rest.length := by
  induction r generalizing p q with
  | empty => exact Or.inl h
  | chars kept =>
    obtain ⟨c, rest, hrest, -, rfl⟩ := h
    right
    rw [hrest]
    exact Nat.lt_succ_self _
  | seq a b iha ihb =>
    obtain ⟨m, ha, hb⟩ := h
    obtain rfl | hm := iha ha
    · exact ihb hb
    · obtain rfl | hq := ihb hb
      · exact Or.inr hm
      · exact Or.inr (hq.trans hm)
  | alt a b iha ihb => exact h.elim (fun h => iha h) fun h => ihb h
  | star a ih =>
    have hstar : Relation.ReflTransGen (Run a) p q := h
    induction hstar with
    | refl => exact Or.inl rfl
    | tail hbefore hlast hind =>
      obtain rfl | hm := hind hbefore
      · exact ih hlast
      · obtain rfl | hq := ih hlast
        · exact Or.inr hm
        · exact Or.inr (hq.trans hm)
  | start => exact Or.inl h.2
  | boundary => exact Or.inl h.2
  | ahead a ih => exact Or.inl h.2
  | notAhead a ih => exact Or.inl h.2

theorem mem_repeated {a : Regex} (ha : ∀ p q, q ∈ ends a p ↔ Run a p q) {n : Nat} {p q : Pos}
    (hn : p.rest.length ≤ n) :
    q ∈ repeated (ends a) n p ↔ Relation.ReflTransGen (Run a) p q := by
  constructor
  · intro h
    clear hn
    induction n generalizing p with
    | zero =>
      rw [List.mem_singleton.mp h]
    | succ n ih =>
      rw [repeated, List.mem_dedup, List.mem_cons] at h
      obtain rfl | h := h
      · exact .refl
      · obtain ⟨m, hm, hq⟩ := List.mem_flatMap.mp h
        exact .head ((ha p m).mp (List.mem_filter.mp hm).1) (ih hq)
  · intro h
    induction h using Relation.ReflTransGen.head_induction_on generalizing n with
    | refl =>
      cases n with
      | zero => exact List.mem_singleton_self q
      | succ n =>
        rw [repeated, List.mem_dedup]
        exact List.mem_cons_self
    | head hfirst hrest ih =>
      rename_i p m
      obtain rfl | hlt := hfirst.shrinks
      · exact ih hn
      · cases n with
        | zero => omega
        | succ n =>
          rw [repeated, List.mem_dedup]
          apply List.mem_cons_of_mem
          rw [List.mem_flatMap]
          refine ⟨m, List.mem_filter.mpr ⟨(ha p m).mpr hfirst, ?_⟩, ih (by omega)⟩
          exact decide_eq_true hlt

theorem mem_guard {P : Prop} [Decidable P] {p q : Pos} :
    q ∈ (if P then [p] else []) ↔ P ∧ q = p := by
  by_cases h : P
  · simp [h]
  · simp [h]

theorem no_end {a : Regex} (ha : ∀ p q, q ∈ ends a p ↔ Run a p q) (p : Pos) :
    (ends a p).isEmpty = true ↔ ¬ ∃ m, Run a p m := by
  rw [List.isEmpty_iff, List.eq_nil_iff_forall_not_mem, not_exists]
  exact forall_congr' fun m => not_congr (ha p m)

theorem some_end {a : Regex} (ha : ∀ p q, q ∈ ends a p ↔ Run a p q) (p : Pos) :
    (!(ends a p).isEmpty) = true ↔ ∃ m, Run a p m := by
  rw [Bool.not_eq_true', ← Bool.not_eq_true, no_end ha p, not_not]

theorem mem_ends (r : Regex) (p q : Pos) : q ∈ ends r p ↔ Run r p q := by
  induction r generalizing p q with
  | empty => exact List.mem_singleton
  | chars kept =>
    obtain ⟨prev, rest⟩ := p
    cases rest with
    | nil => simp [ends, Run]
    | cons c rest =>
      simp only [ends, Run, List.cons.injEq]
      constructor
      · intro h
        split_ifs at h with hc
        · exact ⟨c, rest, ⟨rfl, rfl⟩, hc, List.mem_singleton.mp h⟩
        · cases h
      · rintro ⟨d, rest', ⟨rfl, rfl⟩, hc, rfl⟩
        rw [if_pos hc]
        exact List.mem_singleton_self _
  | seq a b iha ihb =>
    rw [ends, List.mem_dedup, List.mem_flatMap]
    simp only [iha, ihb]
    rfl
  | alt a b iha ihb =>
    rw [ends, List.mem_append, iha, ihb]
    rfl
  | star a ih => exact mem_repeated ih (le_refl _)
  | start => exact mem_guard
  | boundary => exact mem_guard
  | ahead a ih => exact mem_guard.trans (and_congr_left fun _ => some_end ih p)
  | notAhead a ih => exact mem_guard.trans (and_congr_left fun _ => no_end ih p)

/-- A match from the beginning of the text. -/
theorem test_of_run {rx : Regex} {text : Text} {q : Pos} (h : Run rx ⟨none, text⟩ q) :
    rx.test text = true := by
  unfold test
  rw [List.any_eq_true]
  refine ⟨⟨none, text⟩, ?_, ?_⟩
  · cases text with
    | nil => exact List.mem_singleton_self _
    | cons c rest => exact List.mem_cons_self
  · have hmem := (mem_ends rx _ q).mpr h
    rw [Bool.not_eq_true', List.isEmpty_eq_false_iff]
    exact List.ne_nil_of_mem hmem

/-! ## Expressions made of others -/

/-- The text itself. -/
def lit : Text → Regex
  | [] => empty
  | c :: cs => seq (chars (· = c)) (lit cs)

/-- One behind the other. -/
def cat : List Regex → Regex
  | [] => empty
  | a :: rest => seq a (cat rest)

def opt (a : Regex) : Regex := alt a empty

def plus (a : Regex) : Regex := seq a (star a)

/-- One of several. -/
def anyOf : List Regex → Regex
  | [] => chars fun _ => false
  | a :: rest => alt a (anyOf rest)

/-- One of several texts. -/
def words (ws : List String) : Regex := anyOf (ws.map fun w => lit w.toList)

/-- What stands before a position after `w` has been read. -/
def lastOf (prev : Option Char) : Text → Option Char
  | [] => prev
  | c :: cs => lastOf (some c) cs

theorem lastOf_append (prev : Option Char) (v w : Text) :
    lastOf prev (v ++ w) = lastOf (lastOf prev v) w := by
  induction v generalizing prev with
  | nil => rfl
  | cons c v ih => exact ih _

theorem run_chars {kept : Char → Bool} {c : Char} (hc : kept c = true) (prev : Option Char)
    (rest : Text) : Run (chars kept) ⟨prev, c :: rest⟩ ⟨some c, rest⟩ :=
  ⟨c, rest, rfl, hc, rfl⟩

theorem run_lit (w : Text) (prev : Option Char) (rest : Text) :
    Run (lit w) ⟨prev, w ++ rest⟩ ⟨lastOf prev w, rest⟩ := by
  induction w generalizing prev with
  | nil => rfl
  | cons c w ih => exact ⟨_, run_chars (by simp) prev _, ih _⟩

theorem run_star_chars {p : Char → Bool} {w : Text} (hw : ∀ c ∈ w, p c = true)
    (prev : Option Char) (rest : Text) :
    Run (star (chars p)) ⟨prev, w ++ rest⟩ ⟨lastOf prev w, rest⟩ := by
  induction w generalizing prev with
  | nil => exact .refl
  | cons c w ih =>
    refine .head (run_chars (hw c List.mem_cons_self) prev _) ?_
    exact ih (fun d hd => hw d (List.mem_cons_of_mem c hd)) _

theorem run_plus_chars {kept : Char → Bool} {w : Text} (hne : w ≠ [])
    (hw : ∀ c ∈ w, kept c = true) (prev : Option Char) (rest : Text) :
    Run (plus (chars kept)) ⟨prev, w ++ rest⟩ ⟨lastOf prev w, rest⟩ := by
  cases w with
  | nil => exact absurd rfl hne
  | cons c w =>
    refine ⟨_, run_chars (hw c List.mem_cons_self) prev _, ?_⟩
    exact run_star_chars (fun d hd => hw d (List.mem_cons_of_mem c hd)) _ rest

theorem run_anyOf {a : Regex} {rs : List Regex} {p q : Pos} (ha : a ∈ rs) (h : Run a p q) :
    Run (anyOf rs) p q := by
  induction rs with
  | nil => cases ha
  | cons b rs ih =>
    rw [List.mem_cons] at ha
    obtain rfl | ha := ha
    · exact Or.inl h
    · exact Or.inr (ih ha)

theorem run_words {w : String} {ws : List String} (hw : w ∈ ws) (prev : Option Char)
    (rest : Text) : Run (words ws) ⟨prev, w.toList ++ rest⟩ ⟨lastOf prev w.toList, rest⟩ :=
  run_anyOf (List.mem_map_of_mem hw) (run_lit _ prev rest)

/-! ## A match anywhere in the text -/

theorem mem_positions_iff {prev : Option Char} {s : Text} {p : Pos} :
    p ∈ positions prev s ↔ ∃ u, s = u ++ p.rest ∧ p.prev = lastOf prev u := by
  constructor
  · intro h
    induction s generalizing prev with
    | nil =>
      rw [List.mem_singleton.mp h]
      exact ⟨[], rfl, rfl⟩
    | cons c s ih =>
      obtain rfl | h := List.mem_cons.mp h
      · exact ⟨[], rfl, rfl⟩
      · obtain ⟨u, rfl, hprev⟩ := ih h
        exact ⟨c :: u, rfl, hprev⟩
  · rintro ⟨u, rfl, hprev⟩
    obtain ⟨before, rest⟩ := p
    subst hprev
    induction u generalizing prev with
    | nil =>
      cases rest with
      | nil => exact List.mem_singleton_self _
      | cons c rest => exact List.mem_cons_self
    | cons c u ih => exact List.mem_cons_of_mem _ ih

theorem test_iff {rx : Regex} {text : Text} :
    rx.test text = true ↔
      ∃ u rest, text = u ++ rest ∧ ∃ q, Run rx ⟨lastOf none u, rest⟩ q := by
  unfold test
  rw [List.any_eq_true]
  constructor
  · rintro ⟨p, hp, hends⟩
    rw [some_end fun p q => mem_ends rx p q] at hends
    obtain ⟨u, htext, hprev⟩ := mem_positions_iff.mp hp
    rw [show p = ⟨lastOf none u, p.rest⟩ by rw [← hprev]] at hends
    exact ⟨u, p.rest, htext, hends⟩
  · rintro ⟨u, rest, htext, hrun⟩
    refine ⟨⟨lastOf none u, rest⟩, mem_positions_iff.mpr ⟨u, htext, rfl⟩, ?_⟩
    rwa [some_end fun p q => mem_ends rx p q]

/-! ## Expressions that look at no character before them -/

/-- The expression begins by taking a character. -/
def headed : Regex → Bool
  | chars _ => true
  | seq a _ => headed a
  | alt a b => headed a && headed b
  | _ => false

theorem Run.anywhere {r : Regex} (hr : r.headed = true) {p q : Pos} (h : Run r p q)
    (prev : Option Char) : Run r ⟨prev, p.rest⟩ q := by
  induction r generalizing q with
  | chars kept => exact h
  | seq a b iha ihb =>
    obtain ⟨m, ha, hb⟩ := h
    exact ⟨m, iha hr ha, hb⟩
  | alt a b iha ihb =>
    rw [headed, Bool.and_eq_true] at hr
    exact h.elim (fun h => Or.inl (iha hr.1 h)) fun h => Or.inr (ihb hr.2 h)
  | empty => cases hr
  | star a => cases hr
  | start => cases hr
  | boundary => cases hr
  | ahead a => cases hr
  | notAhead a => cases hr

end Regex

/-!
## Wildcards

A pattern in which a star stands for any text and a question mark for any character, and the regular
expression it is turned into. They take the same texts as long as these are of one line.
-/

/-- Whether the pattern takes the whole text. -/
def glob : Text → Text → Bool
  | [], s => s.isEmpty
  | c :: p, s =>
    if c = '*' then s.tails.any (glob p)
    else
      match s with
      | [] => false
      | d :: s => (c = '?' || c = d) && glob p s

/-- What `.` matches. -/
def isDot (c : Char) : Bool := !isLineTerminator c

/-- What one character of a pattern becomes, the others being escaped. -/
def globPiece (c : Char) : Regex :=
  if c = '*' then .star (.chars isDot) else if c = '?' then .chars isDot else .chars (· = c)

/-- `$`. -/
def atEnd : Regex := .notAhead (.chars fun _ => true)

def globRegex (p : Text) : Regex := .seq .start (.cat (p.map globPiece ++ [atEnd]))

/-! ## Lists of patterns -/

def takes (p s : Text) : Bool := p.head? ≠ some '!' && glob p s

def excludes (p s : Text) : Bool := p.head? = some '!' && glob p.tail s

/-- Whether some pattern takes the text and no negated one does. -/
def globList (ps : List Text) (s : Text) : Bool :=
  ps.any (fun p => takes p s) && !ps.any fun p => excludes p s

/-! ## What a pattern takes -/

theorem glob_nil (s : Text) : glob [] s = true ↔ s = [] := by
  rw [glob, List.isEmpty_iff]

theorem glob_star (p s : Text) : glob ('*' :: p) s = true ↔ ∃ t, t <:+ s ∧ glob p t = true := by
  have hstar : glob ('*' :: p) s = s.tails.any (glob p) := by
    cases s <;> rw [glob, if_pos rfl]
  rw [hstar, List.any_eq_true]
  simp only [List.mem_tails]

theorem glob_cons {c : Char} (hc : c ≠ '*') (p s : Text) :
    glob (c :: p) s = true ↔ ∃ d t, s = d :: t ∧ (c = '?' ∨ c = d) ∧ glob p t = true := by
  cases s with
  | nil => simp [glob, hc]
  | cons d t => simp [glob, hc]

namespace Regex

/-- What is left behind some characters. -/
theorem suffix_of_star {kept : Char → Bool} {p q : Pos}
    (h : Relation.ReflTransGen (Run (chars kept)) p q) : q.rest <:+ p.rest := by
  induction h with
  | refl => exact List.suffix_rfl
  | tail _ hstep ih =>
    obtain ⟨c, rest, hrest, -, rfl⟩ := hstep
    rw [hrest] at ih
    exact (List.suffix_cons c rest).trans ih

theorem run_atEnd {p q : Pos} : Run atEnd p q ↔ p.rest = [] ∧ q = p := by
  refine and_congr_left fun _ => ?_
  constructor
  · intro h
    cases hrest : p.rest with
    | nil => rfl
    | cons c rest => exact absurd ⟨_, c, rest, hrest, rfl, rfl⟩ h
  · rintro h ⟨m, c, rest, hrest, -⟩
    rw [h] at hrest
    cases hrest

/-- On one line the pieces of a pattern match what the pattern takes. -/
theorem run_pieces (p : Text) (prev : Option Char) {s : Text} (hs : ∀ c ∈ s, isDot c = true) :
    (∃ q, Run (cat (p.map globPiece ++ [atEnd])) ⟨prev, s⟩ q) ↔ glob p s = true := by
  induction p generalizing prev s with
  | nil =>
    rw [glob_nil]
    constructor
    · rintro ⟨q, m, hend, -⟩
      exact (run_atEnd.mp hend).1
    · rintro rfl
      exact ⟨_, _, run_atEnd.mpr ⟨rfl, rfl⟩, rfl⟩
  | cons c p ih =>
    rw [List.map_cons, List.cons_append]
    by_cases hstar : c = '*'
    · subst hstar
      rw [glob_star]
      constructor
      · rintro ⟨q, m, hstep, hrest⟩
        have hsuffix := suffix_of_star hstep
        refine ⟨m.rest, hsuffix, ?_⟩
        exact (ih m.prev fun d hd => hs d (hsuffix.subset hd)).mp ⟨q, hrest⟩
      · rintro ⟨t, ⟨w, rfl⟩, hglob⟩
        obtain ⟨q, hq⟩ := (ih (lastOf prev w) fun d hd => hs d (List.mem_append_right w hd)).mpr hglob
        exact ⟨q, _, run_star_chars (fun d hd => hs d (List.mem_append_left t hd)) prev t, hq⟩
    · rw [glob_cons hstar]
      have hpiece : globPiece c = chars fun d => if c = '?' then isDot d else d = c := by
        unfold globPiece
        rw [if_neg hstar]
        split_ifs <;> rfl
      rw [hpiece]
      constructor
      · rintro ⟨q, m, ⟨d, t, hrest, hd, rfl⟩, hq⟩
        obtain rfl : s = d :: t := hrest
        refine ⟨d, t, rfl, ?_, (ih _ fun e he => hs e (List.mem_cons_of_mem d he)).mp ⟨q, hq⟩⟩
        split_ifs at hd with hmark
        · exact Or.inl hmark
        · exact Or.inr (of_decide_eq_true hd).symm
      · rintro ⟨d, t, rfl, hd, hglob⟩
        obtain ⟨q, hq⟩ := (ih (some d) fun e he => hs e (List.mem_cons_of_mem d he)).mpr hglob
        refine ⟨q, _, run_chars ?_ prev t, hq⟩
        split_ifs with hmark
        · exact hs d List.mem_cons_self
        · exact decide_eq_true (hd.resolve_left hmark).symm

/-- Only the first position has nothing before it. -/
theorem mem_positions {prev : Option Char} {s : Text} {p : Pos} (h : p ∈ positions prev s)
    (hp : p.prev = none) : p = ⟨prev, s⟩ := by
  induction s generalizing prev with
  | nil => exact List.mem_singleton.mp h
  | cons c s ih =>
    obtain h | h := List.mem_cons.mp h
    · exact h
    · rw [ih h] at hp
      cases hp

end Regex

/-- A match begins with the text. -/
theorem run_of_test {p s : Text} (h : (globRegex p).test s = true) :
    ∃ q, Regex.Run (.cat (p.map globPiece ++ [atEnd])) ⟨none, s⟩ q := by
  unfold Regex.test at h
  obtain ⟨pos, hpos, hends⟩ := List.any_eq_true.mp h
  rw [Bool.not_eq_true', List.isEmpty_eq_false_iff] at hends
  obtain ⟨q, hq⟩ := List.exists_mem_of_ne_nil _ hends
  obtain ⟨m, ⟨hprev, rfl⟩, hrun⟩ := (Regex.mem_ends _ pos q).mp hq
  rw [Regex.mem_positions hpos hprev] at hrun
  exact ⟨q, hrun⟩

/-- On a text of one line the expression is tested as the pattern says. -/
theorem test_globRegex (p : Text) {s : Text} (hs : ∀ c ∈ s, isDot c = true) :
    (globRegex p).test s = glob p s := by
  rw [Bool.eq_iff_iff, ← Regex.run_pieces p none hs]
  constructor
  · exact run_of_test
  · rintro ⟨q, hq⟩
    exact Regex.test_of_run ⟨⟨none, s⟩, ⟨rfl, rfl⟩, hq⟩

theorem globList_singleton {p : Text} (hp : p.head? ≠ some '!') (s : Text) :
    globList [p] s = glob p s := by
  unfold globList takes excludes
  rw [List.any_cons, List.any_cons, decide_eq_true hp, decide_eq_false hp]
  simp

/-! ## A pattern for each character -/

/-- Each character of a text matched by a pattern of its length is the one there, or one that `.`
matches. -/
theorem run_map {f : Char → Char} (hf : ∀ c, f c ≠ '*') (prev : Option Char) {s : Text}
    (h : ∃ q, Regex.Run (.cat ((s.map f).map globPiece ++ [atEnd])) ⟨prev, s⟩ q) :
    ∀ c ∈ s, if f c = '?' then isDot c = true else f c = c := by
  induction s generalizing prev with
  | nil => simp
  | cons c s ih =>
    obtain ⟨q, m, hstep, hrest⟩ := h
    have hpiece : globPiece (f c) = .chars fun d => if f c = '?' then isDot d else d = f c := by
      unfold globPiece
      rw [if_neg (hf c)]
      split_ifs <;> rfl
    rw [hpiece] at hstep
    obtain ⟨d, rest, hcons, hd, rfl⟩ := hstep
    obtain ⟨rfl, rfl⟩ := List.cons.inj hcons
    refine List.forall_mem_cons.mpr ⟨?_, ih _ ⟨q, hrest⟩⟩
    split_ifs at hd ⊢ with hmark
    · exact hd
    · exact (of_decide_eq_true hd).symm

theorem glob_map {f g : Char → Char} (hf : ∀ c, f c ≠ '*') {s : Text}
    (h : ∀ c ∈ s, f c = '?' ∨ f c = g c) : glob (s.map f) (s.map g) = true := by
  induction s with
  | nil => rfl
  | cons c s ih =>
    obtain ⟨hc, hs⟩ := List.forall_mem_cons.mp h
    exact (glob_cons (hf c) _ _).mpr ⟨g c, s.map g, rfl, hc, ih hs⟩

end OpsMaxx.Strings
