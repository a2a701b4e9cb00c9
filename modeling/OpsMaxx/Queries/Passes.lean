import OpsMaxx.Queries.Risk
import OpsMaxx.Queries.Tokens

/-!
# What the passes leave of a text

Each pass looks for its own comments or literals only. Where none that it finds inside a literal, an
identifier or a block comment goes on behind the end of that token, the three passes leave every token
in its place.
-/

set_option autoImplicit false

namespace OpsMaxx.Queries

open Strings

/-! ## What a pass looks for -/

theorem lineComment_eq {s : Text} {n : Nat} (h : lineComment s = some n) :
    ∃ t, s = '-' :: '-' :: t ∧ n = 2 + (t.takeWhile (· ≠ '\n')).length := by
  unfold lineComment at h
  split at h
  · exact ⟨_, rfl, (Option.some.inj h).symm⟩
  · cases h

theorem lineComment_none {c : Char} {s : Text} (h : c = '-' → s.head? ≠ some '-') :
    lineComment (c :: s) = none := by
  unfold lineComment
  split
  · rename_i heq
    cases heq
    exact absurd rfl (h rfl)
  · rfl

theorem blockComment_eq {s : Text} {n : Nat} (h : blockComment s = some n) :
    ∃ t body behind, s = '/' :: '*' :: t ∧ cutAt "*/".toList t = some (body, behind) ∧
      n = 2 + body.length + 2 := by
  unfold blockComment at h
  split at h
  · obtain ⟨⟨body, behind⟩, hcut, hn⟩ := Option.map_eq_some_iff.mp h
    exact ⟨_, body, behind, rfl, hcut, hn.symm⟩
  · cases h

theorem blockComment_none {c : Char} {s : Text} (h : c = '/' → s.head? ≠ some '*') :
    blockComment (c :: s) = none := by
  unfold blockComment
  split
  · rename_i heq
    cases heq
    exact absurd rfl (h rfl)
  · rfl

theorem literal_none {c : Char} {s : Text} (h : c ≠ '\'') : literal (c :: s) = none := by
  unfold literal
  split
  · rename_i heq
    cases heq
    exact absurd rfl h
  · rfl

theorem takeWhile_append_short {p : Char → Bool} {a rest : Text}
    (h : ((a ++ rest).takeWhile p).length ≤ a.length) :
    ((a ++ rest).takeWhile p).length = (a.takeWhile p).length := by
  rw [List.takeWhile_append] at h ⊢
  split_ifs at h ⊢ with hall
  · rw [List.length_append] at h ⊢
    omega
  · rfl

theorem stable_lineComment : Stable lineComment where
  inside := by
    intro a rest n h hlen
    obtain ⟨t, ht, hn⟩ := lineComment_eq h
    match a, ht, hlen with
    | [], _, hlen =>
      rw [List.length_nil] at hlen
      omega
    | [x], _, hlen =>
      rw [List.length_singleton] at hlen
      omega
    | x :: y :: a, ht, hlen =>
      obtain ⟨rfl, rfl, rfl⟩ : x = '-' ∧ y = '-' ∧ a ++ rest = t := by simpa using ht
      rw [takeWhile_append_short] at hn
      · rw [hn, lineComment]
      · simp only [List.length_cons] at hlen
        omega
  absent := by
    intro a rest h
    cases hmatch : lineComment a with
    | none => rfl
    | some n =>
      obtain ⟨t, rfl, -⟩ := lineComment_eq hmatch
      cases h

theorem stable_blockComment : Stable blockComment where
  inside := by
    intro a rest n h hlen
    obtain ⟨t, body, behind, ht, hcut, hn⟩ := blockComment_eq h
    match a, ht, hlen with
    | [], _, hlen =>
      rw [List.length_nil] at hlen
      omega
    | [x], _, hlen =>
      rw [List.length_singleton] at hlen
      omega
    | x :: y :: a, ht, hlen =>
      obtain ⟨rfl, rfl, rfl⟩ : x = '/' ∧ y = '*' ∧ a ++ rest = t := by simpa using ht
      have hfits : body.length + "*/".toList.length ≤ a.length := by
        simp only [List.length_cons] at hlen
        have : "*/".toList.length = 2 := rfl
        omega
      obtain ⟨behind', hbehind⟩ := cutAt_of_append hcut hfits
      rw [blockComment, hbehind, hn]
      rfl
  absent := by
    intro a rest h
    cases hmatch : blockComment a with
    | none => rfl
    | some n =>
      obtain ⟨t, body, behind, rfl, hcut, -⟩ := blockComment_eq hmatch
      rw [List.cons_append, List.cons_append, blockComment,
        cutAt_append_right (by decide) hcut] at h
      cases h

theorem literalEnd_none {s : Text} : literalEnd s = none ↔ '\'' ∉ s := by
  induction s using literalEnd.induct with
  | case1 => simp [literalEnd]
  | case2 s n hs ih => simp [literalEnd, hs]
  | case3 s hs ih => simp [literalEnd, hs]
  | case4 s h => simp [literalEnd]
  | case5 c s h hc ih =>
    rw [literalEnd, Option.map_eq_none_iff, ih, List.mem_cons, not_or]
    · exact ⟨fun h => ⟨fun heq => hc heq.symm, h⟩, And.right⟩
    · exact h
    · exact hc

theorem literalEnd_char {c : Char} (hc : c ≠ '\'') (s : Text) :
    literalEnd (c :: s) = (literalEnd s).map (· + 1) := by
  rw [literalEnd]
  · exact fun _ h => absurd h hc
  · exact hc

theorem literalEnd_quote {s : Text} (h : s.head? ≠ some '\'') : literalEnd ('\'' :: s) = some 1 := by
  rw [literalEnd]
  rintro t rfl
  exact h rfl

theorem literalEnd_pair (s : Text) :
    literalEnd ('\'' :: '\'' :: s) = some (((literalEnd s).map (· + 2)).getD 1) := by
  rw [literalEnd]
  cases literalEnd s with
  | none => rfl
  | some n => rfl

theorem literalEnd_pos {s : Text} {n : Nat} (h : literalEnd s = some n) : 0 < n := by
  cases s with
  | nil => cases h
  | cons c s =>
    by_cases hc : c = '\''
    · subst hc
      by_cases hs : s.head? = some '\''
      · obtain ⟨t, rfl⟩ := List.head?_eq_some_iff.mp hs
        rw [literalEnd_pair] at h
        cases hrest : literalEnd t with
        | none =>
          rw [hrest] at h
          cases h
          exact Nat.one_pos
        | some k =>
          rw [hrest] at h
          cases h
          exact Nat.succ_pos _
      · rw [literalEnd_quote hs] at h
        cases h
        exact Nat.one_pos
    · rw [literalEnd_char hc] at h
      obtain ⟨k, -, rfl⟩ := Option.map_eq_some_iff.mp h
      exact Nat.succ_pos k

theorem literalEnd_of_append {a rest : Text} {n : Nat} (h : literalEnd (a ++ rest) = some n)
    (hlen : n ≤ a.length) : literalEnd a = some n := by
  induction a using literalEnd.induct generalizing n with
  | case1 =>
    have := literalEnd_pos h
    rw [List.length_nil] at hlen
    omega
  | case2 s k hs ih =>
    rw [List.cons_append, List.cons_append, literalEnd_pair] at h
    cases hrest : literalEnd (s ++ rest) with
    | none =>
      rw [literalEnd_none, List.mem_append, not_or] at hrest
      rw [literalEnd_none.mpr hrest.1] at hs
      cases hs
    | some j =>
      rw [hrest] at h
      cases h
      simp only [List.length_cons, Option.map_some, Option.getD_some] at hlen
      rw [literalEnd_pair, ih hrest (by omega)]
  | case3 s hs ih =>
    rw [List.cons_append, List.cons_append, literalEnd_pair] at h
    cases hrest : literalEnd (s ++ rest) with
    | none =>
      rw [hrest] at h
      cases h
      rw [literalEnd_pair, hs]
    | some j =>
      rw [hrest] at h
      cases h
      simp only [List.length_cons, Option.map_some, Option.getD_some] at hlen
      rw [ih hrest (by omega)] at hs
      cases hs
  | case4 s hs =>
    have hhead : s.head? ≠ some '\'' := by
      intro hhead
      obtain ⟨t, rfl⟩ := List.head?_eq_some_iff.mp hhead
      exact hs t rfl
    rw [literalEnd_quote hhead]
    by_cases hlong : (s ++ rest).head? = some '\''
    · obtain ⟨t, ht⟩ := List.head?_eq_some_iff.mp hlong
      rw [List.cons_append, ht, literalEnd_pair] at h
      have hnil : s = [] := by
        cases s with
        | nil => rfl
        | cons c s => exact absurd hlong hhead
      subst hnil
      rw [List.length_singleton] at hlen
      cases hrest : literalEnd t with
      | none =>
        rw [hrest] at h
        exact h
      | some k =>
        rw [hrest] at h
        cases h
        simp only [Option.map_some, Option.getD_some] at hlen
        omega
    · rw [List.cons_append, literalEnd_quote hlong] at h
      exact h
  | case5 c s _ hc ih =>
    rw [List.cons_append, literalEnd_char hc] at h
    obtain ⟨k, hk, rfl⟩ := Option.map_eq_some_iff.mp h
    rw [List.length_cons] at hlen
    rw [literalEnd_char hc, ih hk (by omega)]
    rfl

theorem stable_literal : Stable literal where
  inside := by
    intro a rest n h hlen
    cases a with
    | nil =>
      unfold literal at h
      split at h
      · obtain ⟨k, -, hk⟩ := Option.map_eq_some_iff.mp h
        rw [List.length_nil] at hlen
        omega
      · cases h
    | cons c a =>
      by_cases hc : c = '\''
      · subst hc
        obtain ⟨k, hk, hn⟩ := Option.map_eq_some_iff.mp h
        rw [List.length_cons] at hlen
        rw [literal, literalEnd_of_append hk (by omega)]
        exact congrArg some hn
      · rw [List.cons_append, literal_none hc] at h
        cases h
  absent := by
    intro a rest h
    cases a with
    | nil => rfl
    | cons c a =>
      by_cases hc : c = '\''
      · subst hc
        rw [List.cons_append, literal, Option.map_eq_none_iff, literalEnd_none, List.mem_append,
          not_or] at h
        rw [literal, literalEnd_none.mpr h.1]
        rfl
      · exact literal_none hc

/-! ## Passing over one character, and over a body -/

theorem withoutLines_cons {c : Char} {s : Text} (h : c = '-' → s.head? ≠ some '-') :
    withoutLines (c :: s) = c :: withoutLines s :=
  sub_none (lineComment_none h)

theorem withoutBlocks_cons {c : Char} {s : Text} (h : c = '/' → s.head? ≠ some '*') :
    withoutBlocks (c :: s) = c :: withoutBlocks s :=
  sub_none (blockComment_none h)

theorem withoutLiterals_cons {c : Char} {s : Text} (h : c ≠ '\'') :
    withoutLiterals (c :: s) = c :: withoutLiterals s :=
  sub_none (literal_none h)

theorem withoutLines_body {b rest : Text} {c : Char} (h : Within lineComment b (c :: rest))
    (hc : c ≠ '-') : withoutLines (b ++ c :: rest) = withoutLines b ++ c :: withoutLines rest := by
  rw [← withoutLines_cons fun heq => absurd heq hc]
  exact sub_append stable_lineComment h

theorem withoutBlocks_body {b rest : Text} {c : Char} (h : Within blockComment b (c :: rest))
    (hc : c ≠ '/') : withoutBlocks (b ++ c :: rest) = withoutBlocks b ++ c :: withoutBlocks rest := by
  rw [← withoutBlocks_cons fun heq => absurd heq hc]
  exact sub_append stable_blockComment h

theorem withoutLiterals_body {b rest : Text} {c : Char} (h : Within literal b (c :: rest))
    (hc : c ≠ '\'') :
    withoutLiterals (b ++ c :: rest) = withoutLiterals b ++ c :: withoutLiterals rest := by
  rw [← withoutLiterals_cons hc]
  exact sub_append stable_literal h

theorem head_withoutLines {s : Text} {c : Char} (hc : c ≠ ' ') (h : s.head? ≠ some c) :
    (withoutLines s).head? ≠ some c :=
  fun hsub => (head_sub hsub).elim hc h

theorem head_withoutBlocks {s : Text} {c : Char} (hc : c ≠ ' ') (h : s.head? ≠ some c) :
    (withoutBlocks s).head? ≠ some c :=
  fun hsub => (head_sub hsub).elim hc h

theorem passes_cons {c : Char} {s : Text} (hdash : c = '-' → s.head? ≠ some '-')
    (hslash : c = '/' → s.head? ≠ some '*') (hquote : c ≠ '\'') :
    passes (c :: s) = c :: passes s := by
  unfold passes
  rw [withoutLines_cons hdash, withoutBlocks_cons fun h => head_withoutLines (by decide) (hslash h),
    withoutLiterals_cons hquote]

/-- A character that begins nothing a pass looks for. -/
theorem passes_plain {c : Char} (hdash : c ≠ '-') (hslash : c ≠ '/') (hquote : c ≠ '\'') (s : Text) :
    passes (c :: s) = c :: passes s :=
  passes_cons (fun h => absurd h hdash) (fun h => absurd h hslash) hquote

theorem passes_plains {w : Text} (h : ∀ c ∈ w, c ≠ '-' ∧ c ≠ '/' ∧ c ≠ '\'') (s : Text) :
    passes (w ++ s) = w ++ passes s := by
  induction w with
  | nil => rfl
  | cons c w ih =>
    obtain ⟨hdash, hslash, hquote⟩ := h c List.mem_cons_self
    rw [List.cons_append, passes_plain hdash hslash hquote,
      ih fun d hd => h d (List.mem_cons_of_mem c hd), List.cons_append]

/-! ## The body of a literal -/

theorem Paired.behind {x : Text} {c : Char} {y : Text} (hc : c ≠ '\'') (h : Paired (x ++ c :: y)) :
    Paired y := by
  generalize hs : x ++ c :: y = s at h
  induction h generalizing x with
  | nil => simp at hs
  | @char d b hd hb ih =>
    cases x with
    | nil =>
      obtain ⟨-, rfl⟩ := List.cons.inj hs
      exact hb
    | cons _ x => exact ih (List.cons.inj hs).2
  | @pair b hb ih =>
    match x, hs with
    | [], hs => exact absurd (List.cons.inj hs).1 hc
    | [_], hs => exact absurd (List.cons.inj (List.cons.inj hs).2).1 hc
    | _ :: _ :: x, hs => exact ih (List.cons.inj (List.cons.inj hs).2).2

/-- Where a match takes whole pairs with it, the quotes of what is left are doubled. -/
theorem Paired.sub {m : Text → Option Nat} (hquote : ∀ s, m ('\'' :: s) = none)
    (hdrop : ∀ {c s n}, m (c :: s) = some n → Paired (c :: s) → Paired (s.drop (n - 1)))
    {b : Text} (h : Paired b) : Paired (sub m [' '] b) := by
  induction hn : b.length using Nat.strong_induction_on generalizing b with
  | _ n ih =>
    subst hn
    cases hb : b with
    | nil => exact .nil
    | cons c s =>
      subst hb
      cases hmatch : m (c :: s) with
      | some n =>
        have hrest := hdrop hmatch h
        have hlen : (s.drop (n - 1)).length < (c :: s).length := by
          rw [List.length_drop, List.length_cons]
          omega
        rw [Strings.sub, subFrom, hmatch]
        simp only [subFrom_skip]
        exact .char (by decide) (ih _ hlen hrest rfl)
      | none =>
        rw [sub_none hmatch]
        cases h with
        | char hc hs => exact .char hc (ih _ (Nat.lt_succ_self _) hs rfl)
        | @pair t ht =>
          rw [sub_none (hquote t)]
          refine .pair (ih _ ?_ ht rfl)
          simp only [List.length_cons]
          omega

theorem drop_takeWhile {p : Char → Bool} (t : Text) :
    t.drop (t.takeWhile p).length = t.dropWhile p := by
  have ht := List.takeWhile_append_dropWhile (p := p) (l := t)
  calc
    t.drop (t.takeWhile p).length
        = (t.takeWhile p ++ t.dropWhile p).drop (t.takeWhile p).length := by rw [ht]
    _ = t.dropWhile p := List.drop_left

theorem paired_withoutLines {b : Text} (h : Paired b) : Paired (withoutLines b) := by
  refine h.sub (fun s => lineComment_none (by simp)) ?_
  intro c s n hmatch hpaired
  obtain ⟨t, ht, rfl⟩ := lineComment_eq hmatch
  obtain ⟨rfl, rfl⟩ := List.cons.inj ht
  have hlen : 2 + (t.takeWhile (· ≠ '\n')).length - 1 = (t.takeWhile (· ≠ '\n')).length + 1 := by
    omega
  rw [hlen, List.drop_succ_cons, drop_takeWhile]
  cases hrest : t.dropWhile (· ≠ '\n') with
  | nil => exact .nil
  | cons d y =>
    have hd : d = '\n' := by
      have := head_dropWhile (p := (· ≠ '\n')) (s := t) (c := d) (by rw [hrest]; rfl)
      simpa using this
    subst hd
    have ht := List.takeWhile_append_dropWhile (p := (· ≠ '\n')) (l := t)
    rw [hrest] at ht
    rw [← ht, ← List.cons_append, ← List.cons_append] at hpaired
    exact .char (by decide) (hpaired.behind (by decide))

theorem paired_withoutBlocks {b : Text} (h : Paired b) : Paired (withoutBlocks b) := by
  refine h.sub (fun s => blockComment_none (by simp)) ?_
  intro c s n hmatch hpaired
  obtain ⟨t, body, behind, ht, hcut, rfl⟩ := blockComment_eq hmatch
  obtain ⟨rfl, rfl⟩ := List.cons.inj ht
  have hs : ('*' :: t).drop (2 + body.length + 2 - 1) = behind := by
    have hlen : 2 + body.length + 2 - 1 = (body ++ "*/".toList).length + 1 := by
      rw [List.length_append, show "*/".toList.length = 2 from rfl]
      omega
    rw [hlen, List.drop_succ_cons, cutAt_eq hcut, List.drop_left]
  rw [hs]
  rw [cutAt_eq hcut, show '/' :: '*' :: (body ++ "*/".toList ++ behind) =
    ('/' :: '*' :: body ++ ['*']) ++ '/' :: behind by simp] at hpaired
  exact hpaired.behind (by decide)

theorem literalEnd_paired {b rest : Text} (h : Paired b) (hrest : rest.head? ≠ some '\'') :
    literalEnd (b ++ '\'' :: rest) = some (b.length + 1) := by
  induction h with
  | nil => exact literalEnd_quote hrest
  | char hc _ ih =>
    rw [List.cons_append, literalEnd_char hc, ih]
    rfl
  | pair _ ih =>
    rw [List.cons_append, List.cons_append, literalEnd_pair, ih]
    rfl

/-! ## Passing over a token -/

/-- What the passes leave of a token. -/
def left : Token → Text
  | .space c => [c]
  | .line _ => [' ']
  | .block _ => [' ']
  | .literal _ => "''".toList
  | .quoted q body => q :: (passes body ++ [q])
  | .word w => w
  | .semicolon => [';']
  | .other c => [c]

/-- No comment or literal that a pass finds in the body of a token goes on behind it. -/
def Contained : Token → Text → Prop
  | .block body, rest => Within lineComment body ('*' :: '/' :: rest)
  | .literal body, rest => Within lineComment body ('\'' :: rest) ∧
      Within blockComment (withoutLines body) ('\'' :: withoutLines rest)
  | .quoted q body, rest => Within lineComment body (q :: rest) ∧
      Within blockComment (withoutLines body) (q :: withoutLines rest) ∧
      Within literal (withoutBlocks (withoutLines body)) (q :: withoutBlocks (withoutLines rest))
  | _, _ => True

theorem isWord_plain {c : Char} (h : isWord c = true) : c ≠ '-' ∧ c ≠ '/' ∧ c ≠ '\'' := by
  refine ⟨?_, ?_, ?_⟩ <;> (rintro rfl; exact absurd h (by decide))

theorem isQuote_plain {c : Char} (h : isQuote c = true) : c ≠ '-' ∧ c ≠ '/' ∧ c ≠ '\'' := by
  refine ⟨?_, ?_, ?_⟩ <;> (rintro rfl; exact absurd h (by decide))

theorem isSpace_plain {c : Char} (h : isSpace c = true) : c ≠ '-' ∧ c ≠ '/' ∧ c ≠ '\'' := by
  refine ⟨?_, ?_, ?_⟩ <;> (rintro rfl; exact absurd h (by decide))

theorem passes_line {body rest : Text} (h : Fits (.line body) rest) :
    passes ((Token.line body).text ++ rest) = ' ' :: passes rest := by
  obtain ⟨hbody, hrest⟩ := h
  have htake : (body ++ rest).takeWhile (· ≠ '\n') = body := by
    have hall : ∀ c ∈ body, decide (c ≠ '\n') = true := by
      intro c hc
      exact decide_eq_true fun heq => hbody (heq ▸ hc)
    rw [List.takeWhile_append_of_pos hall]
    obtain rfl | hhead := hrest
    · simp
    · obtain ⟨t, rfl⟩ := List.head?_eq_some_iff.mp hhead
      simp
  have hmatch : lineComment (('-' :: '-' :: body) ++ rest) = some ('-' :: '-' :: body).length := by
    rw [List.cons_append, List.cons_append, lineComment, htake]
    simp only [List.length_cons]
    congr 1
    omega
  have hlines : withoutLines ((Token.line body).text ++ rest) = ' ' :: withoutLines rest :=
    sub_match (List.cons_ne_nil _ _) hmatch
  unfold passes
  rw [hlines, withoutBlocks_cons (by simp), withoutLiterals_cons (by decide)]

theorem passes_block {body rest : Text} (h : Fits (.block body) rest)
    (hin : Contained (.block body) rest) :
    passes ((Token.block body).text ++ rest) = ' ' :: passes rest := by
  have hlines : withoutLines ((Token.block body).text ++ rest) =
      ('/' :: '*' :: (withoutLines body ++ ['*', '/'])) ++ withoutLines rest := by
    have hend : withoutLines ('/' :: rest) = '/' :: withoutLines rest := withoutLines_cons (by simp)
    simp only [Token.text, List.cons_append, List.append_assoc, List.nil_append]
    rw [withoutLines_cons (by simp), withoutLines_cons (by simp), withoutLines_body hin (by decide),
      hend]
  have hbody : ¬ ['*', '/'] <:+: withoutLines body := pair_sub (by decide) (by decide) h
  have hmatch : blockComment (('/' :: '*' :: (withoutLines body ++ ['*', '/'])) ++ withoutLines rest) =
      some ('/' :: '*' :: (withoutLines body ++ ['*', '/'])).length := by
    have hcut := cutAt_pair (by decide) hbody (withoutLines rest)
    simp only [List.cons_append, List.append_assoc, List.nil_append]
    rw [blockComment, show "*/".toList = ['*', '/'] from rfl, hcut]
    simp
    omega
  have hblocks := @sub_match blockComment [' '] _ _ (List.cons_ne_nil _ _) hmatch
  unfold passes
  rw [hlines, withoutBlocks, hblocks, List.singleton_append, withoutLiterals_cons (by decide)]
  rfl

theorem passes_literal {body rest : Text} (h : Fits (.literal body) rest)
    (hin : Contained (.literal body) rest) :
    passes ((Token.literal body).text ++ rest) = "''".toList ++ passes rest := by
  obtain ⟨hpaired, hhead⟩ := h
  obtain ⟨hline, hblock⟩ := hin
  have hblocks : withoutBlocks (withoutLines ((Token.literal body).text ++ rest)) =
      ('\'' :: (withoutBlocks (withoutLines body) ++ ['\''])) ++
        withoutBlocks (withoutLines rest) := by
    simp only [Token.text, List.cons_append, List.append_assoc, List.nil_append]
    rw [withoutLines_cons (by simp), withoutLines_body hline (by decide), withoutBlocks_cons (by simp),
      withoutBlocks_body hblock (by decide)]
  have hmatch : literal (('\'' :: (withoutBlocks (withoutLines body) ++ ['\''])) ++
      withoutBlocks (withoutLines rest)) =
      some ('\'' :: (withoutBlocks (withoutLines body) ++ ['\''])).length := by
    have hend := literalEnd_paired (paired_withoutBlocks (paired_withoutLines hpaired))
      (head_withoutBlocks (by decide) (head_withoutLines (by decide) hhead))
    simp only [List.cons_append, List.append_assoc, List.nil_append]
    rw [literal, hend]
    simp
  unfold passes
  rw [hblocks, withoutLiterals, sub_match (List.cons_ne_nil _ _) hmatch]
  rfl

theorem passes_quoted {q : Char} {body rest : Text} (h : Fits (.quoted q body) rest)
    (hin : Contained (.quoted q body) rest) :
    passes ((Token.quoted q body).text ++ rest) = left (.quoted q body) ++ passes rest := by
  obtain ⟨hdash, hslash, hquote⟩ := isQuote_plain h.1
  obtain ⟨hline, hblock, hliteral⟩ := hin
  simp only [Token.text, left, List.cons_append, List.append_assoc, List.nil_append]
  rw [passes_plain hdash hslash hquote]
  unfold passes
  rw [withoutLines_body hline hdash, withoutBlocks_body hblock hslash,
    withoutLiterals_body hliteral hquote]

/-- The passes leave a token in its place. -/
theorem passes_token {t : Token} {rest : Text} (h : Fits t rest) (hin : Contained t rest) :
    passes (t.text ++ rest) = left t ++ passes rest := by
  cases t with
  | space c =>
    obtain ⟨hdash, hslash, hquote⟩ := isSpace_plain h
    exact passes_plain hdash hslash hquote rest
  | line body => exact passes_line h
  | block body => exact passes_block h hin
  | literal body => exact passes_literal h hin
  | quoted q body => exact passes_quoted h hin
  | word w => exact passes_plains (fun c hc => isWord_plain (h.2.1 c hc)) rest
  | semicolon => exact passes_plain (by decide) (by decide) (by decide) rest
  | other c =>
    obtain ⟨-, -, -, hquote, -, hdash, hslash⟩ := h
    exact passes_cons hdash hslash hquote

/-- What is contained in every token of a list, in front of `rest`. -/
def AllContained (rest : Text) : List Token → Prop
  | [] => True
  | t :: ts => Contained t (textOf ts ++ rest) ∧ AllContained rest ts

/-- The passes leave every token in its place. -/
theorem passes_textOf {rest : Text} {ts : List Token} (h : Lexed rest ts)
    (hin : AllContained rest ts) : passes (textOf ts ++ rest) = ts.flatMap left ++ passes rest := by
  induction ts with
  | nil => rfl
  | cons t ts ih =>
    rw [textOf_cons, List.append_assoc, passes_token h.1 hin.1, ih h.2 hin.2, List.flatMap_cons,
      List.append_assoc]

end OpsMaxx.Queries
