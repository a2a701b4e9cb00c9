import OpsMaxx.Curl.Drafted

/-! # What a copied command keeps

When a header, a row and a text are read back from a copied command as they went in.
-/

set_option autoImplicit false

namespace OpsMaxx.Curl
open Strings

/-! ## Line ends and where a text begins -/

theorem mem_unixLinesFrom {cr : Bool} {s : Text} {c : Char} (h : c ∈ unixLinesFrom cr s)
    (hn : c ≠ '\n') : c ∈ s := by
  induction s generalizing cr with
  | nil => exact h
  | cons d s ih =>
    unfold unixLinesFrom at h
    split_ifs at h
    · rcases List.mem_cons.mp h with h | h
      · exact absurd h hn
      · exact List.mem_cons_of_mem _ (ih h)
    · exact List.mem_cons_of_mem _ (ih h)
    · rcases List.mem_cons.mp h with h | h
      · exact h ▸ List.mem_cons_self
      · exact List.mem_cons_of_mem _ (ih h)

theorem unixLines_cons {c : Char} (hr : c ≠ '\r') (s : Text) :
    unixLines (c :: s) = c :: unixLines s := by
  unfold unixLines
  conv => lhs; unfold unixLinesFrom
  rw [if_neg hr, if_neg (by simp)]

/-! ## Headers -/

structure HeaderKept (h : Text × Text) : Prop where
  at' : h.1.head? ≠ some '@'
  colon : ':' ∉ h.1
  name : trim h.1 = h.1
  value : trim h.2 = h.2

theorem headerArg_head {h : Text × Text} : (headerArg h).head? = some '@' ↔ h.1.head? = some '@' := by
  unfold headerArg
  cases h.1 with
  | nil => simp
  | cons c s => simp

theorem readHeader_headerArg {h : Text × Text} (hc : ':' ∉ h.1) :
    readHeader (headerArg h) = some (trim h.1, trim h.2) := by
  have hspace : trim (' ' :: h.2) = trim h.2 := by
    unfold trim trimStart
    rw [List.dropWhile_cons_of_pos (by decide)]
  unfold readHeader headerArg
  rw [splitFirst_append hc]
  show some (trim h.1, trim (' ' :: h.2)) = _
  rw [hspace]

theorem copiedHeader_eq {h : Text × Text} (hcr : '\r' ∉ headerArg h) :
    copiedHeader h = some h ↔ HeaderKept h := by
  unfold copiedHeader
  rw [(unixLines_eq_self _).mpr hcr]
  simp only [headerArg_head]
  constructor
  · intro hread
    split_ifs at hread with hat
    have hcolon : ':' ∉ h.1 := by
      intro hc
      obtain ⟨p, hs⟩ := splitFirst_of_mem (List.mem_append_left (':' :: ' ' :: h.2) hc)
      unfold readHeader headerArg at hread
      rw [hs] at hread
      have hname : trim p.1 = h.1 := congrArg Prod.fst (Option.some.inj hread)
      apply (splitFirst_some (show splitFirst _ _ = some (p.1, p.2) from hs)).2
      exact trim_subset p.1 (hname ▸ hc)
    rw [readHeader_headerArg hcolon] at hread
    have hpair := Option.some.inj hread
    exact ⟨hat, hcolon, congrArg Prod.fst hpair, congrArg Prod.snd hpair⟩
  · rintro ⟨hat, hcolon, hname, hvalue⟩
    rw [if_neg hat, readHeader_headerArg hcolon, hname, hvalue]

/-- A list is read back whole when each of its members is. -/
theorem filterMap_eq_self {α : Type*} (f : α → Option α) (l : List α) :
    l.filterMap f = l ↔ ∀ a ∈ l, f a = some a := by
  induction l with
  | nil => simp
  | cons a l ih =>
    cases ha : f a with
    | none =>
      simp only [List.filterMap_cons_none ha, List.forall_mem_cons, ha, false_and, iff_false,
        reduceCtorEq]
      intro he
      have hlen := List.length_filterMap_le f l
      rw [he, List.length_cons] at hlen
      omega
    | some b =>
      rw [List.filterMap_cons_some ha, List.forall_mem_cons, ha, List.cons.injEq, ih,
        Option.some.injEq]

/-! ## Rows -/

inductive Part
  | text (key value : Text)
  | file (key name : Text)
deriving DecidableEq, Repr

/-- What a row is about. -/
def part (r : MultipartRow) : Part :=
  match r.kind with
  | .text => .text r.key r.value
  | .file => .file r.key (r.fileName.getD "file".toList)

def RowKept (r : MultipartRow) : Prop :=
  '\r' ∉ r.key ∧ '=' ∉ r.key ∧
    match r.kind with
    | .text => '\r' ∉ r.value ∧ r.value.head? ≠ some '@' ∧ r.value.head? ≠ some '<'
    | .file =>
      r.fileName.getD "file".toList ≠ [] ∧ '\r' ∉ r.fileName.getD "file".toList
        ∧ ';' ∉ r.fileName.getD "file".toList
        ∧ baseName (r.fileName.getD "file".toList) = r.fileName.getD "file".toList

theorem baseName_subset (p : Text) : baseName p ⊆ p := by
  unfold baseName
  split_ifs
  · exact fun _ h => h
  · intro c hc
    exact (List.rtakeWhile_suffix _ p).subset hc

/-- Whatever stands behind the `=` that ends the key of a row, the field it gives. -/
theorem copiedField_of_key {r : MultipartRow} {rest : Text} (harg : formArg r = r.key ++ '=' :: rest)
    (hkey : '=' ∉ r.key) :
    copiedField r = some (readField true (unixLines r.key) (unixLines rest)) := by
  have hsplit : unixLines (formArg r) = unixLines r.key ++ '=' :: unixLines rest := by
    rw [harg]
    exact unixLinesFrom_append false _ (by decide) (by decide) _
  have hkey' : '=' ∉ unixLines r.key := fun hm => hkey (mem_unixLinesFrom hm (by decide))
  unfold copiedField
  rw [hsplit, splitFirst_append hkey']
  rfl

theorem formArg_key (r : MultipartRow) : ∃ rest, formArg r = r.key ++ '=' :: rest := by
  unfold formArg
  cases r.kind with
  | text => exact ⟨_, rfl⟩
  | file => exact ⟨_, rfl⟩

/-- A field has the key its argument has in front of the first `=`. -/
theorem copiedField_key (r : MultipartRow) :
    ∃ f, copiedField r = some f ∧ '=' ∉ f.key ∧ '\r' ∉ f.key := by
  obtain ⟨rest, harg⟩ := formArg_key r
  have hmem : '=' ∈ unixLines (formArg r) := by
    rw [harg]
    show '=' ∈ unixLinesFrom false _
    rw [unixLinesFrom_append false _ (by decide) (by decide)]
    exact List.mem_append_right _ List.mem_cons_self
  obtain ⟨⟨key, v⟩, hs⟩ := splitFirst_of_mem hmem
  obtain ⟨hsplit, hkey⟩ := splitFirst_some hs
  have hcr : '\r' ∉ key := by
    intro hm
    apply no_cr_unixLines (formArg r)
    rw [hsplit]
    exact List.mem_append_left _ hm
  refine ⟨readField true key v, by rw [copiedField, hs]; rfl, ?_⟩
  unfold readField
  split_ifs
  · exact ⟨hkey, hcr⟩
  · exact ⟨hkey, hcr⟩

def partKey : Part → Text
  | .text key _ => key
  | .file key _ => key

theorem partKey_part (r : MultipartRow) : partKey (part r) = r.key := by
  unfold part
  cases r.kind with
  | text => rfl
  | file => rfl

theorem key_partOf (f : FormField) : (partOf f).key = f.key := by
  unfold partOf
  split
  · rfl
  · rfl

theorem part_partOf_text (key value : Text) : part (partOf ⟨key, value, none⟩) = .text key value :=
  rfl

theorem part_partOf_file (key file : Text) :
    part (partOf ⟨key, [], some file⟩) = if file = [] then .text key [] else .file key file := by
  cases file with
  | nil => rfl
  | cons c cs => rfl

theorem head_unixLines {s : Text} {c : Char} (hr : c ≠ '\r') (hn : c ≠ '\n') :
    (unixLines s).head? = some c ↔ s.head? = some c := by
  cases s with
  | nil => rfl
  | cons d s =>
    by_cases hd : d = '\r'
    · rw [hd]
      unfold unixLines unixLinesFrom
      rw [if_pos rfl, List.head?_cons, List.head?_cons]
      simp [hr.symm, hn.symm]
    · rw [unixLines_cons hd]
      rfl

theorem copiedField_text {r : MultipartRow} (hkind : r.kind = .text) (hk : '\r' ∉ r.key)
    (heq : '=' ∉ r.key) :
    (∃ f, copiedField r = some f ∧ part (partOf f) = part r) ↔
      '\r' ∉ r.value ∧ r.value.head? ≠ some '@' ∧ r.value.head? ≠ some '<' := by
  have harg : formArg r = r.key ++ '=' :: r.value := by
    unfold formArg
    rw [hkind]
  have hpart : part r = .text r.key r.value := by
    unfold part
    rw [hkind]
  rw [copiedField_of_key harg heq, (unixLines_eq_self _).mpr hk, hpart]
  simp only [Option.some.injEq, exists_eq_left']
  unfold readField
  simp only [head_unixLines (show '@' ≠ '\r' by decide) (show '@' ≠ '\n' by decide),
    head_unixLines (show '<' ≠ '\r' by decide) (show '<' ≠ '\n' by decide)]
  by_cases hat : r.value.head? = some '@' ∨ r.value.head? = some '<'
  · rw [if_pos ⟨trivial, hat⟩, part_partOf_file]
    have hne : r.value ≠ [] := by
      intro hnil
      rw [hnil] at hat
      simp at hat
    constructor
    · intro h
      split_ifs at h
      · exact absurd (Part.text.inj h).2.symm hne
    · rintro ⟨-, h₁, h₂⟩
      rcases hat with hat | hat
      · exact absurd hat h₁
      · exact absurd hat h₂
  · rw [if_neg fun h => hat h.2, part_partOf_text, Part.text.injEq, unixLines_eq_self]
    push Not at hat
    exact ⟨fun h => ⟨h.2, hat⟩, fun h => ⟨rfl, h.1⟩⟩

theorem copiedField_file {r : MultipartRow} (hkind : r.kind = .file) (hk : '\r' ∉ r.key)
    (heq : '=' ∉ r.key) {name : Text} (hname : r.fileName.getD "file".toList = name) :
    (∃ f, copiedField r = some f ∧ part (partOf f) = part r) ↔
      name ≠ [] ∧ '\r' ∉ name ∧ ';' ∉ name ∧ baseName name = name := by
  have harg : formArg r = r.key ++ '=' :: '@' :: name := by
    unfold formArg
    rw [hkind, hname]
  have hpart : part r = .file r.key name := by
    unfold part
    rw [hkind, hname]
  rw [copiedField_of_key harg heq, (unixLines_eq_self _).mpr hk, hpart,
    unixLines_cons (by decide)]
  simp only [Option.some.injEq, exists_eq_left']
  unfold readField
  rw [if_pos ⟨rfl, .inl rfl⟩, part_partOf_file, List.tail_cons]
  constructor
  · intro h
    split_ifs at h with hb
    have hbase := (Part.file.inj h).2
    have hsub : name ⊆ (unixLines name).takeWhile (· ≠ ';') := by
      conv => lhs; rw [← hbase]
      exact baseName_subset _
    have hcr : '\r' ∉ name := by
      intro hm
      exact no_cr_unixLines name ((List.takeWhile_prefix _).subset (hsub hm))
    have hsemi : ';' ∉ name := by
      intro hm
      simpa using List.mem_takeWhile_imp (hsub hm)
    rw [(unixLines_eq_self _).mpr hcr, List.takeWhile_eq_self_iff.mpr] at hbase
    · refine ⟨?_, hcr, hsemi, hbase⟩
      intro hnil
      apply hb
      rw [hnil]
      rfl
    · intro c hc
      have hne : c ≠ ';' := fun he => hsemi (he ▸ hc)
      simpa using hne
  · rintro ⟨hne, hcr, hsemi, hbase⟩
    rw [(unixLines_eq_self _).mpr hcr, List.takeWhile_eq_self_iff.mpr, hbase, if_neg hne]
    intro c hc
    have hne' : c ≠ ';' := fun he => hsemi (he ▸ hc)
    simpa using hne'

/-- A row is read back as the row it was exactly when it is kept. -/
theorem copiedField_kept (r : MultipartRow) :
    (∃ f, copiedField r = some f ∧ part (partOf f) = part r) ↔ RowKept r := by
  unfold RowKept
  by_cases hk : '\r' ∈ r.key ∨ '=' ∈ r.key
  · constructor
    · rintro ⟨f, hf, hpart⟩
      obtain ⟨f', hf', heq, hcr⟩ := copiedField_key r
      rw [hf] at hf'
      cases hf'
      have hkey : f.key = r.key := by
        rw [← partKey_part r, ← hpart, partKey_part, key_partOf]
      rw [hkey] at heq hcr
      rcases hk with hk | hk
      · exact absurd hk hcr
      · exact absurd hk heq
    · rintro ⟨hcr, heq, -⟩
      rcases hk with hk | hk
      · exact absurd hk hcr
      · exact absurd hk heq
  · push Not at hk
    obtain ⟨hcr, heq⟩ := hk
    cases hkind : r.kind with
    | text =>
      rw [copiedField_text hkind hcr heq]
      exact ⟨fun h => ⟨hcr, heq, h⟩, fun h => h.2.2⟩
    | file =>
      rw [copiedField_file hkind hcr heq rfl]
      exact ⟨fun h => ⟨hcr, heq, h⟩, fun h => h.2.2⟩

theorem copiedRows_kept (rows : List MultipartRow) :
    ((rows.filterMap copiedField).map partOf).map part = rows.map part ↔
      ∀ r ∈ rows, RowKept r := by
  induction rows with
  | nil => simp
  | cons r rows ih =>
    obtain ⟨f, hf, -⟩ := copiedField_key r
    rw [List.filterMap_cons_some hf, List.forall_mem_cons, ← copiedField_kept, ← ih]
    simp only [List.map_cons, List.cons.injEq, hf, Option.some.injEq, exists_eq_left']

/-! ## Texts -/

/-- Whether the import takes a text for a form. -/
def readsAsForm (contentType s : Text) : Bool :=
  !(containsText "json" contentType || looksJson s) && !containsText "xml" contentType
    && isFormText s

def TextKept (contentType s : Text) : Prop :=
  '\r' ∉ s ∧ '\x00' ∉ s ∧ s.head? ≠ some '\ufeff' ∧
    (readsAsForm contentType s = true →
      ∃ rows : List (Text × Text), (∀ r ∈ rows, trim r.1 ≠ []) ∧ s = formText rows)

theorem readPart_formEncode (s : Text) : readPart (formEncode s) = s := by
  unfold readPart
  rw [decodeURIComponent_formEncode]
  rfl

/-- A form text is read back as the rows it was written from. -/
theorem parseQuery_formText (rows : List (Text × Text)) :
    parseQuery ('?' :: formText rows) = rows := by
  have hsplit : splitFirst '?' ('?' :: formText rows) = some ([], formText rows) := rfl
  have hhash : (formText rows).takeWhile (· ≠ '#') = formText rows := by
    apply List.takeWhile_eq_self_iff.mpr
    intro c hc
    have hne : c ≠ '#' := by
      rintro rfl
      exact not_mem_formText (by decide) (by decide) (by decide) (by decide) (by decide) rows hc
    simpa using hne
  unfold parseQuery
  rw [hsplit]
  simp only
  rw [hhash]
  by_cases hne : rows = []
  · rw [hne]
    rfl
  · rw [splitOn_formText hne, List.filter_eq_self.mpr, List.map_map]
    · conv => rhs; rw [← List.map_id rows]
      apply List.map_congr_left
      intro p _
      show readPair (formPair p) = p
      unfold readPair
      rw [splitFirst_formPair]
      show (readPart (formEncode p.1), readPart (formEncode p.2)) = p
      rw [readPart_formEncode, readPart_formEncode]
    · intro pair hpair
      obtain ⟨p, -, rfl⟩ := List.mem_map.mp hpair
      simp [formPair]

end OpsMaxx.Curl
