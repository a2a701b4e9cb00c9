import OpsMaxx.SshConfig.Config

/-!
# What the lines leave behind

Every line that stands for an item leaves the reader at the blocks that the items so far stand for,
and a text therefore at the blocks it spells.
-/

set_option autoImplicit false

namespace OpsMaxx.SshConfig

open Strings Store
open Net (ofDecimal)

/-! ## Ends of a line -/

theorem isSpace_of_isBlank {c : Char} (h : isBlank c = true) : isSpace c = true := by
  simp only [isBlank, Bool.or_eq_true, decide_eq_true_eq] at h
  obtain (rfl | rfl) | rfl := h <;> decide

theorem isInk_of_isWordChar {c : Char} (h : isWordChar c = true) : isInk c = true := by
  simp only [isWordChar, Bool.or_eq_true, isAlphanum_iff, decide_eq_true_eq] at h
  obtain h | rfl := h
  · exact isInk_of_graphic (by omega) (by omega)
  · decide

/-! ## One directive -/

theorem not_isWordChar_of_isBlank {c : Char} (h : isBlank c = true) : isWordChar c = false := by
  simp only [isBlank, Bool.or_eq_true, decide_eq_true_eq] at h
  obtain (rfl | rfl) | rfl := h <;> decide

variable {line key argument : Text}

/-- The word that a line begins with. -/
theorem takeWhile_key {rest : Text} (hkey : ∀ c ∈ key, isWordChar c = true)
    (hrest : ∀ c, rest.head? = some c → isWordChar c = false) :
    (key ++ rest).takeWhile isWordChar = key ∧ (key ++ rest).dropWhile isWordChar = rest := by
  rw [List.takeWhile_append_of_pos hkey, List.dropWhile_append_of_pos hkey]
  cases rest with
  | nil => simp
  | cons c rest => simp [hrest c rfl]

theorem Separator.head {s : Text} (h : Separator s) (rest : Text) :
    ∀ c, (s ++ rest).head? = some c → isWordChar c = false := by
  intro c hc
  cases h with
  | blanks hne h =>
    cases s with
    | nil => exact absurd rfl hne
    | cons d s =>
      obtain rfl := Option.some.inj hc
      exact not_isWordChar_of_isBlank (h _ List.mem_cons_self)
  | @equals s t hs _ =>
    cases s with
    | nil =>
      obtain rfl := Option.some.inj hc
      decide
    | cons d s =>
      obtain rfl := Option.some.inj hc
      exact not_isWordChar_of_isBlank (hs _ List.mem_cons_self)

namespace Directive

/-- The line without the blanks around it. -/
theorem trim_line (h : Directive line key argument) :
    ∃ between, Separator between ∧ trim line = key ++ between ++ argument := by
  obtain ⟨before, between, after, rfl, hbefore, hbetween, hafter⟩ := h.spelled
  obtain ⟨rest, d, hlast, hd⟩ := h.argument_last
  refine ⟨between, hbetween, ?_⟩
  obtain ⟨hne, hword⟩ := h.word
  cases hkey : key with
  | nil => exact absurd hkey hne
  | cons c key =>
    rw [hkey] at hword
    have hc := isInk_of_isWordChar (hword c List.mem_cons_self)
    exact @trim_between before after (key ++ between ++ argument) (c :: key ++ between ++ rest) c d
      (fun e he => isSpace_of_isBlank (hbefore e he)) hc (by rw [hlast]; simp) hd
      fun e he => isSpace_of_isBlank (hafter e he)

theorem keyValue_line (h : Directive line key argument)
    (hone : argument.any isLineTerminator = false) :
    keyValue (trim line) = some (toLowerCase key, unquote argument) := by
  obtain ⟨between, hbetween, htrim⟩ := h.trim_line
  obtain ⟨hne, hword⟩ := h.word
  obtain ⟨c, rest, harg, hc, heq, -⟩ := h.argument_head
  obtain ⟨rest', d, hlast, hd⟩ := h.argument_last
  obtain ⟨htake, hdrop⟩ := takeWhile_key hword (hbetween.head argument)
  have hself : trim argument = argument := by
    have hwhole := @trim_between [] [] rest rest' c d (by simp) hc (harg ▸ hlast) hd (by simp)
    rwa [List.nil_append, List.append_nil, ← harg] at hwhole
  have hstart : trimStart argument = argument := by rw [harg, trimStart_ink hc]
  have hhead : argument.head? ≠ some '=' := by
    rw [harg]
    simpa using heq
  rw [htrim, List.append_assoc]
  unfold keyValue
  simp only [htake, hdrop]
  cases hbetween with
  | blanks hsne hs =>
    have hrest : trimStart (between ++ argument) = argument := by
      rw [trimStart_spaces fun e he => isSpace_of_isBlank (hs e he), hstart]
    rw [hrest]
    split
    · exact absurd rfl hhead
    rw [hself, hone, if_neg]
    rintro (h | ⟨h, -⟩ | h)
    · exact hne h
    · exact hsne (List.append_left_eq_self.mp h)
    · cases h
  | @equals s t hs ht =>
    have hrest : trimStart (s ++ '=' :: t ++ argument) = '=' :: t ++ argument := by
      rw [List.append_assoc, trimStart_spaces fun e he => isSpace_of_isBlank (hs e he)]
      exact trimStart_ink (by decide) _
    have hvalue : trimStart (t ++ argument) = argument := by
      rw [trimStart_spaces fun e he => isSpace_of_isBlank (ht e he), hstart]
    rw [hrest]
    simp only [List.cons_append, hvalue, hself, hone]
    rw [if_neg]
    rintro (h | ⟨-, h⟩ | h)
    · exact hne h
    · exact h rfl
    · cases h

/-- A line with a directive is not empty and no comment. -/
theorem not_skipped (h : Directive line key argument) :
    ¬ (trim line = [] ∨ (trim line).head? = some '#') := by
  obtain ⟨between, -, htrim⟩ := h.trim_line
  obtain ⟨hne, hword⟩ := h.word
  rw [htrim]
  cases key with
  | nil => exact absurd rfl hne
  | cons c key =>
    rintro (h | h)
    · cases h
    · obtain rfl : c = '#' := Option.some.inj h
      exact absurd (hword _ List.mem_cons_self) (by decide)

end Directive

/-! ## Arguments -/

theorem isPlain_isInk {c : Char} (h : isPlain c = true) : isInk c = true := by
  simp only [isPlain, Bool.and_eq_true] at h
  exact h.1.1.1

theorem isPlain_ne_quote {c : Char} (h : isPlain c = true) : c ≠ '"' := by
  rintro rfl
  exact absurd h (by decide)

theorem unquote_of_head {s : Text} (h : s.head? ≠ some '"') : unquote s = s := by
  unfold unquote
  split
  · exact absurd rfl h
  · rfl

theorem unquote_quoted (v : Text) : unquote ('"' :: v ++ ['"']) = v := by
  simp [unquote]

theorem Argument.unquote_eq {k : Keyword} {a v : Text} (h : Argument k a v) : unquote a = v := by
  cases h with
  | plain hne h =>
    apply unquote_of_head
    cases a with
    | nil => simp
    | cons c a => simpa using isPlain_ne_quote (h c List.mem_cons_self)
  | quoted => exact unquote_quoted v

theorem Argument.one_line {k : Keyword} {a v : Text} (h : Argument k a v) :
    a.any isLineTerminator = false := by
  apply any_isLineTerminator
  intro c hc
  cases h with
  | plain _ h => exact isLineTerminator_of_isInk (isPlain_isInk (h c hc))
  | quoted _ _ h =>
    simp only [List.cons_append, List.mem_cons, List.mem_append, List.not_mem_nil, or_false] at hc
    obtain rfl | hc | rfl := hc
    · decide
    · exact (h c hc).2.2
    · decide

theorem Argument.value_ne {k : Keyword} {a v : Text} (h : Argument k a v) : v ≠ [] := by
  cases h <;> assumption

/-! ## Values -/

theorem get_setFirst (m : JsMap Text Text) (key value : Text) {k : Text} (hk : k ∉ inherited) :
    (setFirst m key value).get k = (m.get k).or (if k = key then some value else none) := by
  unfold setFirst
  by_cases hkey : k = key
  · subst hkey
    cases hm : m.get k with
    | none => simp [hk, JsMap.has, hm]
    | some v => simp [JsMap.has, hm]
  · rw [if_neg hkey, Option.or_none]
    split_ifs
    · rfl
    · exact JsMap.get_set_ne m value hkey

theorem Keyword.text_mem (k : Keyword) : k.text ∈ imported := by
  cases k <;> decide

theorem Keyword.text_injective {k k' : Keyword} (h : k.text = k'.text) : k = k' := by
  cases k <;> cases k' <;> first | rfl | exact absurd h (by decide)

theorem imported_not_inherited : ∀ k ∈ imported, k ∉ inherited := by decide

theorem Keyword.not_inherited (k : Keyword) : k.text ∉ inherited :=
  imported_not_inherited _ k.text_mem

theorem imported_ne_block : ∀ k ∈ imported, k ≠ "host".toList ∧ k ≠ "match".toList := by
  decide

/-! ## Blocks -/

/-- The block of the reader holds what the block of the file sets. -/
structure Reads (raw : RawBlock) (b : Block) : Prop where
  patterns : raw.patterns = b.patterns
  inked : ∀ p ∈ b.patterns, ∀ c ∈ p, isInk c = true
  values : ∀ k : Keyword, raw.values.get k.text = b.setting k
  valid : ∀ s ∈ b.settings, s.2 ≠ [] ∧ ValidFor s.1 s.2

structure Gathered where
  done : List Block
  current : Option Block

def Gathered.blocks (g : Gathered) : List Block := g.done ++ g.current.toList

/-- What the next item adds. -/
def gather (g : Gathered) : Item → Gathered
  | .host patterns => ⟨g.blocks, some ⟨patterns, []⟩⟩
  | .setting k v => ⟨g.done, g.current.map fun b => ⟨b.patterns, b.settings ++ [(k, v)]⟩⟩

structure Tracks (r : Reading) (g : Gathered) : Prop where
  closed : List.Forall₂ Reads r.closed g.done
  current : List.Forall₂ Reads r.current.toList g.current.toList

theorem Tracks.blocks {r : Reading} {g : Gathered} (h : Tracks r g) :
    List.Forall₂ Reads r.blocks g.blocks := List.rel_append h.closed h.current

theorem Tracks.split {r : Reading} {g : Gathered} (h : Tracks r g) :
    (r.current = none ∧ g.current = none) ∨
      ∃ raw b, r.current = some raw ∧ g.current = some b ∧ Reads raw b := by
  have hcurrent := h.current
  cases hr : r.current with
  | none =>
    cases hg : g.current with
    | none => exact Or.inl ⟨rfl, rfl⟩
    | some b => simp [hr, hg] at hcurrent
  | some raw =>
    cases hg : g.current with
    | none => simp [hr, hg] at hcurrent
    | some b =>
      rw [hr, hg] at hcurrent
      exact Or.inr ⟨raw, b, rfl, rfl, (List.forall₂_cons.mp hcurrent).1⟩

/-- A keyword of its own changes nothing of what the blocks set. -/
theorem Reads.other {raw : RawBlock} {b : Block} (h : Reads raw b) {key : Text}
    (hkey : key ∉ imported) (value : Text) :
    Reads { raw with values := setFirst raw.values key value } b := by
  refine ⟨h.patterns, h.inked, fun k => ?_, h.valid⟩
  have hne : k.text ≠ key := fun heq => hkey (heq ▸ k.text_mem)
  rw [get_setFirst _ _ _ k.not_inherited, if_neg hne, Option.or_none]
  exact h.values k

theorem Reads.setting {raw : RawBlock} {b : Block} (h : Reads raw b) {k : Keyword} {value : Text}
    (hne : value ≠ []) (hvalid : ValidFor k value) :
    Reads { raw with values := setFirst raw.values k.text value }
      ⟨b.patterns, b.settings ++ [(k, value)]⟩ := by
  refine ⟨h.patterns, h.inked, fun k' => ?_, ?_⟩
  · rw [get_setFirst _ _ _ k'.not_inherited, h.values k', Block.setting, Block.setting,
      List.lookup_append, JsMap.lookup_cons_if]
    congr 1
    by_cases hk : k' = k
    · rw [if_pos hk, if_pos (hk ▸ rfl)]
    · rw [if_neg hk, if_neg fun heq => hk (Keyword.text_injective heq), List.lookup_nil]
  · intro s hs
    obtain hs | hs := List.mem_append.mp hs
    · exact h.valid s hs
    · obtain rfl := List.mem_singleton.mp hs
      exact ⟨hne, hvalid⟩

/-! ## Lines -/

variable {r : Reading} {g : Gathered}

theorem Tracks.readLine_other (h : Tracks r g) {before rest : Text}
    (hbefore : ∀ c ∈ before, isBlank c = true) (hkey : key ≠ [] ∧ ∀ c ∈ key, isWordChar c = true)
    (hrest : ∀ c, rest.head? = some c → isWordChar c = false)
    (hother : toLowerCase key ∉ imported ∧ toLowerCase key ≠ "host".toList ∧
      toLowerCase key ≠ "match".toList) : Tracks (readLine r (before ++ key ++ rest)) g := by
  obtain ⟨hne, hword⟩ := hkey
  have hink : ∀ c ∈ key, isInk c = true := fun c hc => isInk_of_isWordChar (hword c hc)
  have htrim : trim (before ++ key ++ rest) = key ++ trimEnd rest := by
    unfold trim
    rw [List.append_assoc, trimStart_spaces fun c hc => isSpace_of_isBlank (hbefore c hc)]
    cases key with
    | nil => exact absurd rfl hne
    | cons c key =>
      rw [List.cons_append, trimStart_ink (hink c List.mem_cons_self), ← List.cons_append,
        trimEnd_ink hink]
  have hhead : ∀ c, (trimEnd rest).head? = some c → isWordChar c = false := by
    intro c hc
    apply hrest c
    obtain ⟨after, hafter⟩ := trimEnd_prefix rest
    rw [← hafter]
    cases htrimmed : trimEnd rest with
    | nil => simp [htrimmed] at hc
    | cons d t =>
      rw [htrimmed] at hc
      exact hc
  obtain ⟨htake, hdrop⟩ := takeWhile_key hword hhead
  unfold readLine
  simp only [htrim]
  split_ifs
  · exact h
  · cases hvalue : keyValue (key ++ trimEnd rest) with
    | none => exact h
    | some found =>
      obtain ⟨lowered, value⟩ := found
      have hlowered : lowered = toLowerCase key := by
        unfold keyValue at hvalue
        simp only [htake, hdrop] at hvalue
        split_ifs at hvalue
        exact (Prod.mk.inj (Option.some.inj hvalue)).1.symm
      rw [hlowered]
      dsimp only
      rw [if_neg hother.2.1]
      obtain ⟨hr, -⟩ | ⟨raw, b, hr, hg, hreads⟩ := h.split
      · rw [hr]
        exact h
      · rw [hr]
        dsimp only
        rw [if_neg hother.2.2]
        refine ⟨h.closed, ?_⟩
        rw [hg]
        exact List.Forall₂.cons (hreads.other hother.1 value) List.Forall₂.nil

theorem Tracks.readLine_host (h : Tracks r g) (hline : Directive line key argument)
    (hkey : toLowerCase key = "host".toList)
    (hargument : ∀ c ∈ argument, c = ' ' ∨ c = '\t' ∨ isPlain c = true) :
    Tracks (readLine r line) (gather g (.host (words argument))) := by
  have hunquote : unquote argument = argument := by
    apply unquote_of_head
    cases argument with
    | nil => simp
    | cons c argument =>
      intro hc
      obtain rfl := Option.some.inj hc
      obtain h | h | h := hargument _ List.mem_cons_self
      · exact absurd h (by decide)
      · exact absurd h (by decide)
      · exact absurd h (by decide)
  have hone : argument.any isLineTerminator = false := by
    apply any_isLineTerminator
    intro c hc
    obtain rfl | rfl | h := hargument c hc
    · decide
    · decide
    · exact isLineTerminator_of_isInk (isPlain_isInk h)
  unfold readLine
  rw [if_neg hline.not_skipped, hline.keyValue_line hone, hkey, hunquote]
  dsimp only
  rw [if_pos rfl]
  refine ⟨h.blocks, List.Forall₂.cons ⟨rfl, ?_, fun k => rfl, ?_⟩ List.Forall₂.nil⟩
  · intro p hp
    exact (words_isWord argument p hp).2
  · intro s hs
    cases hs

theorem Tracks.readLine_setting (h : Tracks r g) (hline : Directive line key argument) {k : Keyword}
    {value : Text} (hkey : toLowerCase key = k.text) (hargument : Argument k argument value)
    (hvalid : ValidFor k value) : Tracks (readLine r line) (gather g (.setting k value)) := by
  obtain ⟨hhost, hmatch⟩ := imported_ne_block _ k.text_mem
  unfold readLine
  rw [if_neg hline.not_skipped, hline.keyValue_line hargument.one_line, hkey, hargument.unquote_eq]
  dsimp only
  rw [if_neg hhost]
  obtain ⟨hr, hg⟩ | ⟨raw, b, hr, hg, hreads⟩ := h.split
  · rw [hr]
    refine ⟨h.closed, ?_⟩
    rw [hr]
    simp [gather, hg]
  · rw [hr]
    dsimp only
    rw [if_neg hmatch]
    refine ⟨h.closed, ?_⟩
    simp only [gather, hg, Option.map_some]
    exact List.Forall₂.cons (hreads.setting hargument.value_ne hvalid) List.Forall₂.nil

end OpsMaxx.SshConfig
