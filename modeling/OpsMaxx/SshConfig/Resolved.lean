import OpsMaxx.SshConfig.Lines

/-!
# Where the entries follow the rule

An entry has a block's own values first and those of the other blocks with a wildcard for the name
after them, whatever the order in the file and whatever the negations. It is what OpenSSH obtains as
far as these give the value that the applying blocks set first.
-/

set_option autoImplicit false

namespace OpsMaxx.SshConfig

open Strings Store
open Net (ofDecimal)

/-! ## The condition -/

def Block.wildcard (b : Block) (name : Text) : Bool :=
  b.patterns.any fun p => p.any (fun c => c = '*' || c = '?') && glob p name

/-- Two settings of a keyword that come to the same. -/
def SameValue (name : Text) (s s' : Option Text) : Keyword → Prop
  | .hostName => s.getD name = s'.getD name
  | .user => s.getD [] = s'.getD []
  | .port => s.elim 22 ofDecimal = s'.elim 22 ofDecimal
  | .identityFile | .identityAgent | .proxyJump => s = s'

/-- Where a block sets a keyword, the first applying block of the file that sets it gives the same
value. Where it does not, the first of the others with a wildcard for the name does. -/
def OwnFirst (blocks : List Block) : Prop :=
  ∀ before b after, blocks = before ++ b :: after → ∀ name ∈ b.concrete, ∀ k,
    match b.setting k with
    | some v => SameValue name (obtained blocks name k) (some v) k
    | none => SameValue name (obtained blocks name k)
        (firstOf ((before ++ after).filter fun c => c.wildcard name) k) k

/-! ## Reading a file -/

theorem gather_items (b : Block) (g : Gathered) :
    b.items.foldl gather g = ⟨g.blocks, some b⟩ := by
  have hsettings : ∀ (settings added : List (Keyword × Text)),
      (added.map fun s => Item.setting s.1 s.2).foldl gather
        ⟨g.blocks, some ⟨b.patterns, settings⟩⟩ = ⟨g.blocks, some ⟨b.patterns, settings ++ added⟩⟩ := by
    intro settings added
    induction added generalizing settings with
    | nil => simp
    | cons s added ih =>
      rw [List.map_cons, List.foldl_cons]
      simp only [gather, Option.map_some]
      rw [ih]
      simp
  rw [Block.items, List.foldl_cons]
  exact hsettings [] b.settings

theorem gather_blocks (blocks : List Block) (g : Gathered) :
    ((blocks.flatMap Block.items).foldl gather g).blocks = g.blocks ++ blocks := by
  induction blocks generalizing g with
  | nil => simp
  | cons b blocks ih =>
    rw [List.flatMap_cons, List.foldl_append, gather_items, ih]
    simp [Gathered.blocks]

theorem Tracks.readLine {r : Reading} {g : Gathered} (h : Tracks r g) {line : Text}
    {item : Option Item} (hline : SpelledLine line item) :
    Tracks (readLine r line) (item.toList.foldl gather g) := by
  cases hline with
  | blank hblank =>
    have htrim : trim line = [] := by
      have hstart := trimStart_spaces (fun c hc => isSpace_of_isBlank (hblank c hc)) []
      rw [List.append_nil] at hstart
      unfold trim
      rw [hstart]
      rfl
    unfold SshConfig.readLine
    rw [if_pos (Or.inl htrim)]
    exact h
  | @comment before rest hbefore =>
    have htrim : trim (before ++ '#' :: rest) = '#' :: trimEnd rest := by
      unfold trim
      rw [trimStart_spaces fun c hc => isSpace_of_isBlank (hbefore c hc),
        trimStart_ink (by decide), trimEnd_cons (by decide)]
    unfold SshConfig.readLine
    dsimp only
    rw [htrim, if_pos (Or.inr List.head?_cons)]
    exact h
  | other hbefore hkey hrest hother =>
    exact h.readLine_other hbefore hkey hrest ⟨hother.1, hother.2.1, hother.2.2.1⟩
  | host hline hkey hargument _ => exact h.readLine_host hline hkey hargument
  | setting hline hkey hargument hvalid => exact h.readLine_setting hline hkey hargument hvalid

theorem Tracks.readLines {lines : List Text} {items : List (Option Item)}
    (hlines : List.Forall₂ SpelledLine lines items) {r : Reading} {g : Gathered} (h : Tracks r g) :
    Tracks (lines.foldl SshConfig.readLine r) (items.reduceOption.foldl gather g) := by
  induction hlines generalizing r g with
  | nil => exact h
  | @cons line item lines items hline _ ih =>
    have hstep := ih (h.readLine hline)
    rw [← List.foldl_append] at hstep
    cases item <;> exact hstep

theorem reads_readBlocks {text : Text} {blocks : List Block} (h : Spells text blocks) :
    List.Forall₂ Reads (readBlocks text) blocks := by
  obtain ⟨items, hlines, hitems⟩ := h
  have hstart : Tracks ⟨[], none⟩ ⟨[], none⟩ := ⟨List.Forall₂.nil, List.Forall₂.nil⟩
  have hread := (hstart.readLines hlines).blocks
  rwa [hitems, gather_blocks] at hread

/-! ## Entries -/

theorem get_foldl_setFirst (entries : List (Text × Text)) (m : JsMap Text Text) {k : Text}
    (hk : k ∉ inherited) :
    (entries.foldl (fun m e => setFirst m e.1 e.2) m).get k =
      (m.get k).or (@List.lookup Text Text instBEqOfDecidableEq k entries) := by
  induction entries generalizing m with
  | nil => simp
  | cons e entries ih =>
    obtain ⟨key, value⟩ := e
    rw [List.foldl_cons, ih, get_setFirst _ _ _ hk, Option.or_assoc]
    congr 1
    refine Eq.trans ?_ (JsMap.lookup_cons_if key value entries k).symm
    split_ifs <;> rfl

theorem get_merged (block : RawBlock) (others : List RawBlock) (name : Text) {k : Text}
    (hk : k ∉ inherited) :
    (merged block others name).get k =
      (block.values.get k).or ((others.filter (applies name)).findSome? fun b => b.values.get k) := by
  unfold merged
  generalize block.values = m
  induction others.filter (applies name) generalizing m with
  | nil => simp
  | cons b others ih =>
    have hfill : (fill m b).get k = (m.get k).or (b.values.get k) := get_foldl_setFirst b.values.entries m hk
    rw [List.foldl_cons, ih, hfill, List.findSome?_cons, Option.or_assoc]
    cases b.values.get k <;> rfl

/-- On a name of one line without wildcards the reader sees the wildcards alone. -/
theorem Reads.applies_eq {raw : RawBlock} {b : Block} (h : Reads raw b) {name : Text}
    (hname : isPattern name = false) (hone : ∀ c ∈ name, isDot c = true) :
    applies name raw = b.wildcard name := by
  unfold applies Block.wildcard
  rw [h.patterns]
  congr 1
  funext p
  unfold patternMatches
  by_cases hself : p = name
  · subst hself
    have hwild : (p.any fun c => c = '*' || c = '?') = false := by
      rw [isPattern, List.any_eq_false] at hname
      rw [List.any_eq_false]
      intro c hc hstar
      apply hname c hc
      rw [hstar, Bool.true_or]
    rw [hname, hwild, Bool.false_and, Bool.false_and]
  · rw [if_neg hself]
    cases hwild : p.any fun c => c = '*' || c = '?' with
    | false => simp
    | true =>
      have hpattern : isPattern p = true := by
        obtain ⟨c, hc, hstar⟩ := List.any_eq_true.mp hwild
        refine List.any_eq_true.mpr ⟨c, hc, ?_⟩
        rw [hstar, Bool.true_or]
      simp [hpattern, test_globRegex p hone]

/-- What the reader takes for a keyword of a name in a block. -/
def taken (b : Block) (others : List Block) (name : Text) (k : Keyword) : Option Text :=
  (b.setting k).or (firstOf (others.filter fun c => c.wildcard name) k)

theorem findSome_reads {raws : List RawBlock} {blocks : List Block}
    (h : List.Forall₂ Reads raws blocks) {name : Text} (hname : isPattern name = false)
    (hone : ∀ c ∈ name, isDot c = true) (k : Keyword) :
    ((raws.filter (applies name)).findSome? fun b => b.values.get k.text) =
      firstOf (blocks.filter fun c => c.wildcard name) k := by
  induction h with
  | nil => rfl
  | cons hreads _ ih =>
    rw [List.filter_cons, List.filter_cons, hreads.applies_eq hname hone]
    split_ifs
    · unfold firstOf at ih ⊢
      rw [List.findSome?_cons, List.findSome?_cons, hreads.values k, ih]
    · exact ih

theorem setting_mem {b : Block} {k : Keyword} {v : Text} (h : b.setting k = some v) :
    (k, v) ∈ b.settings := by
  obtain ⟨before, after, hsettings, -⟩ := List.lookup_eq_some_iff.mp h
  rw [hsettings]
  simp

def Valid (blocks : List Block) : Prop := ∀ b ∈ blocks, ∀ s ∈ b.settings, s.2 ≠ [] ∧ ValidFor s.1 s.2

theorem firstOf_valid {blocks : List Block} (h : Valid blocks) {k : Keyword} {v : Text}
    (hv : firstOf blocks k = some v) : v ≠ [] ∧ ValidFor k v := by
  obtain ⟨b, hb, hset⟩ := List.exists_of_findSome?_eq_some hv
  exact h b hb (k, v) (setting_mem hset)

theorem valid_of_reads {raws : List RawBlock} {blocks : List Block}
    (h : List.Forall₂ Reads raws blocks) : Valid blocks := by
  induction h with
  | nil => simp [Valid]
  | cons hreads _ ih => exact List.forall_mem_cons.mpr ⟨hreads.valid, ih⟩

theorem orElse_eq {value : Option Text} (h : ∀ v, value = some v → v ≠ []) (fallback : Text) :
    orElse value fallback = value.getD fallback := by
  unfold orElse
  split
  · rfl
  · exact absurd rfl (h [] rfl)
  · rfl

theorem infinities_not_digits : ∀ t ∈ infinities, ¬ ∀ c ∈ t, c.isDigit = true := by decide +kernel

theorem portNumber_eq {port : Option Text} (h : ∀ v, port = some v → v ≠ [] ∧ ValidFor .port v) :
    portNumber port = some ((port.elim 22 ofDecimal : Nat) : ℚ) := by
  cases port with
  | none => rfl
  | some t =>
    obtain ⟨hne, hvalid⟩ := h t rfl
    obtain ⟨hdigits, hpos, hle⟩ := hvalid rfl
    have htrim : trim t = t := trim_of_ink fun c hc => isInk_of_isDigit (hdigits c hc)
    have hzero : ((ofDecimal t : Nat) : ℚ) ≠ 0 := by
      rw [Nat.cast_ne_zero]
      omega
    unfold portNumber
    simp only [htrim, numericLiteral_digits hne hdigits,
      toDouble_natCast (lt_of_le_of_lt hle (by norm_num)), if_neg hzero]
    rw [if_neg fun hinfinite => infinities_not_digits t hinfinite hdigits]
    rfl

/-- An entry says of every keyword what the values have. -/
theorem hostOf_reports {values : JsMap Text Text} {name : Text} {set : Keyword → Option Text}
    (hget : ∀ k : Keyword, values.get k.text = set k)
    (hvalid : ∀ k v, set k = some v → v ≠ [] ∧ ValidFor k v) (k : Keyword) :
    Reports (hostOf values name) (set k) k := by
  have hk := hget k
  cases k with
  | hostName =>
    show orElse (values.get Keyword.hostName.text) name = _
    rw [hk]
    exact orElse_eq (fun v hv => (hvalid _ v hv).1) name
  | user =>
    show orElse (values.get Keyword.user.text) [] = _
    rw [hk]
    exact orElse_eq (fun v hv => (hvalid _ v hv).1) []
  | port =>
    show portNumber (values.get Keyword.port.text) = _
    rw [hk]
    exact portNumber_eq fun v hv => hvalid _ v hv
  | identityFile => exact hk
  | identityAgent => exact hk
  | proxyJump => exact hk

theorem reports_iff {h : SshConfigHost} {s s' : Option Text} {k : Keyword} (hs : Reports h s k) :
    Reports h s' k ↔ SameValue h.name s' s k := by
  cases k <;> simp only [Reports, SameValue] at hs ⊢ <;> rw [hs]
  case port =>
    rw [Option.some.injEq, Nat.cast_inj, eq_comm]
  all_goals exact eq_comm

theorem Reads.concrete_eq {raw : RawBlock} {b : Block} (h : Reads raw b) :
    concreteNames raw = b.concrete := by
  rw [concreteNames, h.patterns, Block.concrete]

theorem concrete_name {b : Block} (hinked : ∀ p ∈ b.patterns, ∀ c ∈ p, isInk c = true) {name : Text}
    (h : name ∈ b.concrete) : isPattern name = false ∧ ∀ c ∈ name, isDot c = true := by
  obtain ⟨hmem, hname⟩ := List.mem_filter.mp h
  refine ⟨by simpa using hname, fun c hc => ?_⟩
  rw [isDot, isLineTerminator_of_isInk (hinked name hmem c hc)]
  rfl

/-- The entry of a name that is written out in a block. -/
theorem entry_reports {rawsBefore rawsAfter : List RawBlock} {raw : RawBlock}
    {before after : List Block} {b : Block} (hbefore : List.Forall₂ Reads rawsBefore before)
    (hreads : Reads raw b) (hafter : List.Forall₂ Reads rawsAfter after) {name : Text}
    (hname : name ∈ b.concrete) (k : Keyword) :
    Reports (hostOf (merged raw (rawsBefore ++ rawsAfter) name) name)
      (taken b (before ++ after) name k) k := by
  have hothers := List.rel_append hbefore hafter
  obtain ⟨hpattern, hone⟩ := concrete_name hreads.inked hname
  refine @hostOf_reports _ name (taken b (before ++ after) name) (fun k => ?_) (fun k v hv => ?_) k
  · rw [get_merged _ _ _ k.not_inherited, hreads.values k, findSome_reads hothers hpattern hone, taken]
  · unfold taken at hv
    obtain hv | ⟨-, hv⟩ := Option.or_eq_some_iff.mp hv
    · exact hreads.valid (k, v) (setting_mem hv)
    · refine firstOf_valid (fun c hc => ?_) hv
      exact valid_of_reads hothers c (List.mem_of_mem_filter hc)

/-- The entries, each with the block it comes from. -/
theorem mem_hostsFrom {raws : List RawBlock} {blocks : List Block}
    (h : List.Forall₂ Reads raws blocks) {rawsBefore : List RawBlock} {before : List Block}
    (hbefore : List.Forall₂ Reads rawsBefore before) :
    (∀ host ∈ hostsFrom rawsBefore raws, ∃ pre b post, blocks = pre ++ b :: post ∧
      host.name ∈ b.concrete ∧ ∀ k, Reports host (taken b (before ++ pre ++ post) host.name k) k) ∧
    ∀ pre b post, blocks = pre ++ b :: post → ∀ name ∈ b.concrete,
      ∃ host ∈ hostsFrom rawsBefore raws, host.name = name ∧
        ∀ k, Reports host (taken b (before ++ pre ++ post) name k) k := by
  induction h generalizing rawsBefore before with
  | nil => simp [hostsFrom]
  | @cons raw b raws blocks hreads hrest ih =>
    obtain ⟨hsound, hcomplete⟩ := ih (List.rel_append hbefore (List.Forall₂.cons hreads List.Forall₂.nil))
    constructor
    · intro host hhost
      obtain hhost | hhost := List.mem_append.mp hhost
      · obtain ⟨name, hname, rfl⟩ := List.mem_map.mp hhost
        rw [hreads.concrete_eq] at hname
        refine ⟨[], b, blocks, rfl, hname, fun k => ?_⟩
        rw [List.append_nil]
        exact entry_reports hbefore hreads hrest hname k
      · obtain ⟨pre, c, post, hsplit, hname, hreports⟩ := hsound host hhost
        refine ⟨b :: pre, c, post, by rw [hsplit]; rfl, hname, fun k => ?_⟩
        have hk := hreports k
        rwa [List.append_assoc before [b] pre, List.singleton_append] at hk
    · intro pre c post hsplit name hname
      cases pre with
      | nil =>
        obtain ⟨rfl, rfl⟩ := List.cons.inj hsplit
        refine ⟨_, List.mem_append_left _ (List.mem_map.mpr ⟨name, ?_, rfl⟩), rfl, fun k => ?_⟩
        · rwa [hreads.concrete_eq]
        · rw [List.append_nil]
          exact entry_reports hbefore hreads hrest hname k
      | cons d pre =>
        obtain ⟨rfl, hrest⟩ := List.cons_eq_cons.mp hsplit
        obtain ⟨host, hhost, heq, hreports⟩ := hcomplete pre c post hrest name hname
        refine ⟨host, List.mem_append_right _ hhost, heq, fun k => ?_⟩
        have hk := hreports k
        rwa [List.append_assoc before [b] pre, List.singleton_append] at hk

/-! ## The entries and the rule -/

theorem taken_same {blocks before after : List Block} {b : Block} {name : Text} {k : Keyword} :
    SameValue name (obtained blocks name k) (taken b (before ++ after) name k) k ↔
      match b.setting k with
      | some v => SameValue name (obtained blocks name k) (some v) k
      | none => SameValue name (obtained blocks name k)
          (firstOf ((before ++ after).filter fun c => c.wildcard name) k) k := by
  unfold taken
  cases b.setting k <;> rfl

def defaultFirst : Text := "Host *\n  User root\nHost web\n  User deploy".toList

def defaultFirstBlocks : List Block :=
  [⟨["*".toList], [(.user, "root".toList)]⟩, ⟨["web".toList], [(.user, "deploy".toList)]⟩]

/-- A keyword, a space and a word. -/
theorem directive_word {before key name : Text} (hbefore : ∀ c ∈ before, isBlank c = true)
    (hkey : key ≠ [] ∧ ∀ c ∈ key, isWordChar c = true)
    (hname : name ≠ [] ∧ ∀ c ∈ name, isInk c = true ∧ c ≠ '=' ∧ c ≠ '#') :
    Directive (before ++ (key ++ [' '] ++ name)) key name := by
  obtain ⟨hne, hname⟩ := hname
  refine ⟨⟨before, [' '], [], by simp, hbefore, ?_, by simp⟩, hkey, ?_, ?_⟩
  · exact Separator.blanks (by simp) (by decide)
  · cases name with
    | nil => exact absurd rfl hne
    | cons c name => exact ⟨c, name, rfl, hname c List.mem_cons_self⟩
  · obtain ⟨rest, c, hlast⟩ := List.eq_nil_or_concat name |>.resolve_left hne
    rw [List.concat_eq_append] at hlast
    exact ⟨rest, c, hlast, (hname c (by simp [hlast])).1⟩

theorem spells_defaultFirst : Spells defaultFirst defaultFirstBlocks := by
  have hhost : ∀ name : Text, (name ≠ [] ∧ ∀ c ∈ name, isInk c = true ∧ c ≠ '=' ∧ c ≠ '#') →
      (∀ c ∈ name, isPlain c = true) → words name = [name] →
      SpelledLine ([] ++ ("Host".toList ++ [' '] ++ name)) (some (.host [name])) := by
    intro name hname hplain hwords
    have hline := @directive_word [] "Host".toList name (by simp) (by decide +kernel) hname
    have hspelled := SpelledLine.host hline (by decide +kernel)
      (fun c hc => Or.inr (Or.inr (hplain c hc))) fun p hp hhash => by
        rw [hwords] at hp
        obtain rfl := List.mem_singleton.mp hp
        exact (hname.2 '#' (List.mem_of_mem_head? hhash)).2.2 rfl
    rwa [hwords] at hspelled
  have huser : ∀ name : Text, (name ≠ [] ∧ ∀ c ∈ name, isInk c = true ∧ c ≠ '=' ∧ c ≠ '#') →
      (∀ c ∈ name, isPlain c = true) →
      SpelledLine ("  ".toList ++ ("User".toList ++ [' '] ++ name)) (some (.setting .user name)) := by
    intro name hname hplain
    have hline := @directive_word "  ".toList "User".toList name (by decide +kernel)
      (by decide +kernel) hname
    exact SpelledLine.setting hline (by decide +kernel) (Argument.plain hname.1 hplain)
      fun h => by cases h
  refine ⟨defaultFirstBlocks.flatMap fun b => b.items.map some, ?_, rfl⟩
  have hlines : defaultFirst.splitOn '\n' = [[] ++ ("Host".toList ++ [' '] ++ "*".toList),
      "  ".toList ++ ("User".toList ++ [' '] ++ "root".toList),
      [] ++ ("Host".toList ++ [' '] ++ "web".toList),
      "  ".toList ++ ("User".toList ++ [' '] ++ "deploy".toList)] := by decide +kernel
  rw [hlines]
  refine List.Forall₂.cons (hhost _ ?_ ?_ ?_) (List.Forall₂.cons (huser _ ?_ ?_)
    (List.Forall₂.cons (hhost _ ?_ ?_ ?_) (List.Forall₂.cons (huser _ ?_ ?_) List.Forall₂.nil)))
  all_goals decide +kernel

end OpsMaxx.SshConfig
