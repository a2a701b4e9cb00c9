import Mathlib.Data.List.Infix
import OpsMaxx.Drift.Printed

/-! # Records that were cut off

What the parser makes of the blocks of several files when the transport stops anywhere: a record
says what its block said, or that it is unknown.
-/

set_option autoImplicit false

namespace OpsMaxx.Drift

open OpsMaxx.Strings OpsMaxx.Sidecar

/-- A block as the script prints it: its size is a word, and it has content exactly when it is
`ok`. -/
structure Block.Wired (b : Block) : Prop where
  size_word : IsWord b.size
  chunks_inked : ∀ chunks, b.chunks = some chunks → ∀ c ∈ chunks, ∀ x ∈ c, isInk x = true
  chunks_iff : b.chunks = none ↔ b.status ≠ .ok

/-- The record of a block that came whole. -/
def Block.record (id : Text) (b : Block) : DriftFileRead :=
  ⟨id, b.status, number b.size, b.chunks.map List.flatten, none⟩

/-- What is recorded was said by a block of that id, as far as it is not unknown. -/
def Told (blocks : List (Text × Block)) (seen : Text → Option DriftFileRead) : Prop :=
  ∀ id rec, seen id = some rec → rec.watchId = id ∧ (rec.status = .unknown ∨
    ∃ b, (id, b) ∈ blocks ∧ rec.status = b.status ∧
      (rec.contentB64 = none ∨ rec.contentB64 = b.chunks.map List.flatten))

variable {blocks : List (Text × Block)} {seen : Text → Option DriftFileRead} {st : Parsing}
  {id : Text} {b : Block}

theorem Told.update {rec : DriftFileRead} (ht : Told blocks seen) (hid : rec.watchId = id)
    (hrec : rec.status = .unknown ∨ ∃ b, (id, b) ∈ blocks ∧ rec.status = b.status ∧
      (rec.contentB64 = none ∨ rec.contentB64 = b.chunks.map List.flatten)) :
    Told blocks (Function.update seen id (some rec)) := by
  intro id' rec' hseen
  by_cases heq : id' = id
  · subst heq
    rw [Function.update_self, Option.some.injEq] at hseen
    subst hseen
    exact ⟨hid, hrec⟩
  · rw [Function.update_of_ne heq] at hseen
    exact ht id' rec' hseen

/-! ## Single lines -/

theorem chomp_of_not_mem {raw : Text} (h : '\r' ∉ raw) : chomp raw = raw := by
  unfold chomp
  rw [if_neg]
  intro hlast
  exact h (List.mem_of_getLast? hlast)

theorem word_ink (s : DriftStatus) : ∀ x ∈ s.word, isInk x = true := by
  cases s <;> decide

theorem statusNamed_word (s : DriftStatus) : statusNamed s.word = s := by
  cases s <;> decide

/-- Part of a status's word names that status or none. -/
theorem statusNamed_prefix {s : DriftStatus} {p : Text} (h : p <+: s.word) :
    statusNamed p = .unknown ∨ statusNamed p = s := by
  have hall : ∀ q ∈ s.word.inits, statusNamed q = .unknown ∨ statusNamed q = s := by
    cases s <;> decide +kernel
  exact hall p ((List.mem_inits p s.word).mpr h)

theorem parseLine_header (hid : IsWord id) (s : DriftStatus) {size : Text} (hsize : IsWord size) :
    parseLine st (headerLine id s size) =
      { seen := Function.update st.seen id (some ⟨id, s, number size, none, none⟩)
        opened := if s = .ok then some (id, []) else none } := by
  have hspace : ∀ {t : Text}, (∀ x ∈ t, isInk x = true) → ' ' ∉ t :=
    fun h => not_mem_of_ink h (by decide)
  have hreturn : '\r' ∉ headerLine id s size := by
    have hr : ∀ {t : Text}, (∀ x ∈ t, isInk x = true) → '\r' ∉ t :=
      fun h => not_mem_of_ink h (by decide)
    simp [headerLine, hr hid.2, hr (word_ink s), hr hsize.2]
  have hfields : (id ++ ' ' :: s.word ++ ' ' :: size).splitOn ' ' = [id, s.word, size] := by
    rw [List.append_assoc, List.cons_append,
      List.splitOn_append_cons_self_of_not_mem (hspace hid.2),
      List.splitOn_append_cons_self_of_not_mem (hspace (word_ink s)),
      List.splitOn_eq_singleton (hspace hsize.2)]
  unfold parseLine
  rw [chomp_of_not_mem hreturn]
  show openRecord st (id ++ ' ' :: s.word ++ ' ' :: size) = _
  unfold openRecord
  simp only [hfields, List.headD_cons, if_neg hid.1, List.drop_succ_cons, List.drop_zero,
    List.head?_cons, Option.bind_some, statusNamed_word]

/-- The beginning of a header opens no record, or one that is unknown or says what the header
says. -/
theorem openRecord_prefix (hid : IsWord id) (s : DriftStatus) {size frag : Text}
    (h : frag <+: id ++ ' ' :: s.word ++ ' ' :: size) :
    openRecord st frag = st ∨ ∃ id' status bytes,
      (openRecord st frag).seen =
        Function.update st.seen id' (some ⟨id', status, bytes, none, none⟩) ∧
      (status = .unknown ∨ id' = id ∧ status = s) := by
  have hspace : ∀ {t : Text}, (∀ x ∈ t, isInk x = true) → ' ' ∉ t :=
    fun h => not_mem_of_ink h (by decide)
  unfold openRecord
  by_cases hnil : (frag.splitOn ' ').headD [] = []
  · left
    simp only [hnil, if_true]
  · right
    simp only [if_neg hnil]
    refine ⟨_, _, _, rfl, ?_⟩
    rw [List.append_assoc, List.cons_append] at h
    obtain ⟨hnone, -⟩ | ⟨q, rfl, hq⟩ := prefix_append_cons (hspace hid.2) h
    · left
      rw [List.splitOn_eq_singleton hnone]
      exact (by decide : statusNamed [] = .unknown)
    · rw [List.splitOn_append_cons_self_of_not_mem (hspace hid.2)]
      obtain ⟨hnone, hword⟩ | ⟨r, rfl, -⟩ := prefix_append_cons (hspace (word_ink s)) hq
      · rw [List.splitOn_eq_singleton hnone]
        obtain hunknown | hsame := statusNamed_prefix hword
        · exact Or.inl hunknown
        · exact Or.inr ⟨rfl, hsame⟩
      · right
        rw [List.splitOn_append_cons_self_of_not_mem (hspace (word_ink s))]
        exact ⟨rfl, statusNamed_word s⟩

/-! ## Blocks -/

theorem parseLine_chunk (st : Parsing) {chunk : Text} (h : ∀ x ∈ chunk, isInk x = true) :
    parseLine st (chunkLine chunk) =
      { st with opened := st.opened.map fun o => (o.1, o.2 ++ [chunk]) } := by
  have hreturn : '\r' ∉ chunkLine chunk := by
    have hr : '\r' ∉ chunk := not_mem_of_ink h (by decide)
    simp [chunkLine, hr]
  unfold parseLine
  rw [chomp_of_not_mem hreturn]
  rfl

theorem parseLine_closing {q : Text} (h : ∀ x ∈ q, isInk x = true) :
    parseLine st (closingLine q) = closeRecord st q := by
  have hreturn : '\r' ∉ closingLine q := by
    have hr : '\r' ∉ q := not_mem_of_ink h (by decide)
    simp [closingLine, hr]
  unfold parseLine
  rw [chomp_of_not_mem hreturn]
  show closeRecord st (trim q) = _
  rw [trim_of_ink h]

theorem parse_chunks (id : Text) {chunks : List Text}
    (hink : ∀ c ∈ chunks, ∀ x ∈ c, isInk x = true)
    (seen : Text → Option DriftFileRead) (acc : List Text) :
    parseLines ⟨seen, some (id, acc)⟩ (chunks.map chunkLine) =
      ⟨seen, some (id, acc ++ chunks)⟩ := by
  induction chunks generalizing acc with
  | nil =>
    rw [List.append_nil]
    rfl
  | cons c cs ih =>
    have hcs : ∀ d ∈ cs, ∀ x ∈ d, isInk x = true := fun d hd => hink d (List.mem_cons_of_mem _ hd)
    show parseLines (parseLine ⟨seen, some (id, acc)⟩ (chunkLine c)) (cs.map chunkLine) = _
    rw [parseLine_chunk _ (hink c List.mem_cons_self), Option.map_some, ih hcs,
      List.append_assoc]
    rfl

/-- A block that came whole leaves its record, and nothing open. -/
theorem parse_block (hid : IsWord id) (hb : b.Wired) :
    parseLines st (b.lines id) =
      ⟨Function.update st.seen id (some (b.record id)), none⟩ := by
  show parseLines (parseLine st (headerLine id b.status b.size)) _ = _
  rw [parseLine_header hid b.status hb.size_word]
  cases hchunks : b.chunks with
  | none =>
    rw [if_neg (hb.chunks_iff.mp hchunks)]
    simp only [Block.record, hchunks]
    rfl
  | some chunks =>
    have hok : b.status = .ok := by
      by_contra hne
      rw [hb.chunks_iff.mpr hne] at hchunks
      cases hchunks
    rw [if_pos hok]
    unfold parseLines
    rw [List.foldl_append]
    have hfold := parse_chunks id (hb.chunks_inked chunks hchunks)
      (Function.update st.seen id (some ⟨id, b.status, number b.size, none, none⟩)) []
    unfold parseLines at hfold
    rw [hfold, List.foldl_cons, List.foldl_nil, parseLine_closing hid.2]
    simp only [closeRecord, Function.update_self, Block.record, hchunks]
    simp

theorem Told.block (ht : Told blocks st.seen) (hid : IsWord id) (hb : b.Wired)
    (hmem : (id, b) ∈ blocks) : Told blocks (parseLines st (b.lines id)).seen := by
  rw [parse_block hid hb]
  exact ht.update rfl (Or.inr ⟨b, hmem, rfl, Or.inr rfl⟩)

/-- A line that begins no record and closes none is passed over. -/
theorem parseLine_short {frag : Text} (h : frag = [] ∨ ∃ c, frag = [c]) :
    parseLine st frag = st := by
  obtain rfl | ⟨c, rfl⟩ := h
  · rfl
  · unfold parseLine chomp
    by_cases hc : c = '\r'
    · subst hc
      rfl
    · rw [if_neg (by simpa using hc)]
      split
      · rename_i heq
        cases heq
      · rename_i heq
        cases heq
      · rename_i heq
        cases heq
      · rfl

theorem prefix_tagged {t u : Char} {l frag : Text} (h : frag <+: t :: u :: l) :
    (frag = [] ∨ ∃ c, frag = [c]) ∨ ∃ q, frag = t :: u :: q ∧ q <+: l := by
  obtain ⟨rest, hrest⟩ := h
  cases frag with
  | nil => exact Or.inl (Or.inl rfl)
  | cons x xs =>
    cases xs with
    | nil => exact Or.inl (Or.inr ⟨x, rfl⟩)
    | cons y ys =>
      right
      simp only [List.cons_append, List.cons.injEq] at hrest
      obtain ⟨rfl, rfl, hrest⟩ := hrest
      exact ⟨ys, rfl, rest, hrest⟩

theorem Told.header_cut (ht : Told blocks st.seen) (hid : IsWord id) (hb : b.Wired)
    (hmem : (id, b) ∈ blocks) {frag : Text} (h : frag <+: headerLine id b.status b.size) :
    Told blocks (parseLine st frag).seen := by
  obtain hshort | ⟨q, rfl, hq⟩ := prefix_tagged h
  · rw [parseLine_short hshort]
    exact ht
  · have hreturn : '\r' ∉ 'F' :: ' ' :: q := by
      have hr : ∀ {t : Text}, (∀ x ∈ t, isInk x = true) → '\r' ∉ t :=
        fun h => not_mem_of_ink h (by decide)
      have hline : '\r' ∉ headerLine id b.status b.size := by
        simp [headerLine, hr hid.2, hr (word_ink b.status), hr hb.size_word.2]
      exact fun hmem => hline (h.subset hmem)
    unfold parseLine
    rw [chomp_of_not_mem hreturn]
    show Told blocks (openRecord st q).seen
    obtain hsame | ⟨id', status, bytes, hseen, hstatus⟩ := openRecord_prefix hid b.status hq
    · rw [hsame]
      exact ht
    · rw [hseen]
      apply ht.update
      · rfl
      · obtain hunknown | ⟨rfl, hstatus⟩ := hstatus
        · exact Or.inl hunknown
        · exact Or.inr ⟨b, hmem, hstatus, Or.inl rfl⟩

/-- A closing record puts the content in that was opened under its id. -/
theorem Told.closing (ht : Told blocks st.seen) {chunks : List Text} {q : Text}
    (hchunks : b.chunks = some chunks) (ho : st.opened = some (id, chunks))
    (hstatus : ∀ rec, st.seen id = some rec → rec.status = b.status) (hmem : (id, b) ∈ blocks)
    (hq : ∀ x ∈ q, isInk x = true) : Told blocks (parseLine st (closingLine q)).seen := by
  rw [parseLine_closing hq]
  unfold closeRecord
  rw [ho]
  cases hseen : st.seen q with
  | none => exact ht
  | some rec =>
    by_cases heq : id = q
    · subst heq
      simp only [if_true]
      apply ht.update
      · exact (ht id rec hseen).1
      · right
        refine ⟨b, hmem, hstatus rec hseen, Or.inr ?_⟩
        rw [hchunks]
        rfl
    · simp only [if_neg heq]
      exact ht

theorem Told.chunks_cut {acc chunks out : List Text}
    (ht : Told blocks st.seen) (hid : IsWord id) (hmem : (id, b) ∈ blocks)
    (hchunks : b.chunks = some (acc ++ chunks)) (ho : st.opened = some (id, acc))
    (hstatus : ∀ rec, st.seen id = some rec → rec.status = b.status)
    (hink : ∀ c ∈ chunks, ∀ x ∈ c, isInk x = true)
    (h : Cut (chunks.map chunkLine ++ [closingLine id]) out) :
    Told blocks (parseLines st out).seen := by
  induction chunks generalizing st acc out with
  | nil =>
    rw [List.append_nil] at hchunks
    cases h with
    | within _ hfrag =>
      show Told blocks (parseLine st _).seen
      obtain hshort | ⟨q, rfl, hq⟩ := prefix_tagged hfrag
      · rw [parseLine_short hshort]
        exact ht
      · exact ht.closing hchunks ho hstatus hmem fun x hx => hid.2 x (hq.subset hx)
    | later _ h =>
      cases h
      have hclosed := ht.closing hchunks ho hstatus hmem hid.2
      show Told blocks (parseLine (parseLine st (closingLine id)) []).seen
      rw [parseLine_short (Or.inl rfl)]
      exact hclosed
  | cons c cs ih =>
    have hc := hink c List.mem_cons_self
    cases h with
    | within _ hfrag =>
      show Told blocks (parseLine st _).seen
      obtain hshort | ⟨q, rfl, hq⟩ := prefix_tagged hfrag
      · rw [parseLine_short hshort]
        exact ht
      · have hline := parseLine_chunk st fun x hx => hc x (hq.subset hx)
        unfold chunkLine at hline
        rw [hline]
        exact ht
    | later _ h =>
      show Told blocks (parseLines (parseLine st (chunkLine c)) _).seen
      rw [parseLine_chunk st hc, ho]
      have hrest : b.chunks = some ((acc ++ [c]) ++ cs) := by
        rw [hchunks, List.append_assoc]
        rfl
      have hcs : ∀ d ∈ cs, ∀ x ∈ d, isInk x = true := fun d hd => hink d (List.mem_cons_of_mem _ hd)
      have hnext : Told blocks (⟨st.seen, some (id, acc ++ [c])⟩ : Parsing).seen := ht
      exact ih hnext hrest rfl hstatus hcs h

theorem Told.block_cut (ht : Told blocks st.seen) (hid : IsWord id) (hb : b.Wired)
    (hmem : (id, b) ∈ blocks) {out : List Text} (h : Cut (b.lines id) out) :
    Told blocks (parseLines st out).seen := by
  unfold Block.lines at h
  cases h with
  | within _ hfrag => exact ht.header_cut hid hb hmem hfrag
  | later _ h =>
    have hheader : Told blocks (parseLine st (headerLine id b.status b.size)).seen :=
      ht.header_cut hid hb hmem List.prefix_rfl
    rw [parseLine_header hid b.status hb.size_word] at hheader
    show Told blocks (parseLines (parseLine st (headerLine id b.status b.size)) _).seen
    rw [parseLine_header hid b.status hb.size_word]
    cases hchunks : b.chunks with
    | none =>
      rw [hchunks] at h
      cases h
      exact hheader
    | some chunks =>
      have hok : b.status = .ok := by
        by_contra hne
        rw [hb.chunks_iff.mpr hne] at hchunks
        cases hchunks
      rw [hchunks] at h
      rw [if_pos hok] at hheader ⊢
      apply hheader.chunks_cut hid hmem (by rw [hchunks, List.nil_append]) rfl _ (hb.chunks_inked chunks hchunks) h
      intro rec hseen
      have hrec : some (⟨id, b.status, number b.size, none, none⟩ : DriftFileRead) = some rec := by
        rw [← hseen]
        exact (Function.update_self id _ st.seen).symm
      rw [← Option.some.inj hrec]

/-! ## All blocks -/

def blockLines (blocks : List (Text × Block)) : List Text :=
  blocks.flatMap fun x => x.2.lines x.1

theorem parse_append (st : Parsing) (ls ms : List Text) :
    parseLines st (ls ++ ms) = parseLines (parseLines st ls) ms := List.foldl_append

theorem parse_single (st : Parsing) (l : Text) : parseLines st [l] = parseLine st l := rfl

/-- A block that came whole is handed on as it is. -/
theorem settle_record {w : DriftWatch} (hb : b.Wired) (hseen : seen w.id = some (b.record w.id)) :
    settle seen w = b.record w.id := by
  have hwhole : ¬((b.record w.id).status = .ok ∧ (b.record w.id).contentB64 = none) := by
    rintro ⟨hok, hnone⟩
    exact hb.chunks_iff.mp (Option.map_eq_none_iff.mp hnone) hok
  unfold settle
  rw [hseen]
  simp only [if_neg hwhole]

/-- Every block is about a word and is one the script prints. -/
def AllWired (blocks : List (Text × Block)) : Prop :=
  ∀ x ∈ blocks, IsWord x.1 ∧ x.2.Wired

theorem Told.whole {before : List (Text × Block)} (ht : Told blocks st.seen)
    (hw : AllWired before) (hsub : before ⊆ blocks) :
    Told blocks (parseLines st (blockLines before)).seen := by
  induction before generalizing st with
  | nil => exact ht
  | cons x xs ih =>
    have hx : x ∈ blocks := hsub List.mem_cons_self
    obtain ⟨hid, hb⟩ := hw x List.mem_cons_self
    unfold blockLines
    rw [List.flatMap_cons, parse_append]
    exact ih (ht.block hid hb hx) (fun y hy => hw y (List.mem_cons_of_mem _ hy))
      fun y hy => hsub (List.mem_cons_of_mem _ hy)

theorem parseLine_marker (st : Parsing) {frag : Text} (h : frag <+: DRIFT_STATUS_MARKER) :
    parseLine st frag = st := by
  have hline : '\r' ∉ DRIFT_STATUS_MARKER := by decide
  have hreturn : '\r' ∉ frag := fun hmem => hline (h.subset hmem)
  have htagged : DRIFT_STATUS_MARKER = '=' :: '=' :: "=OPSMAXX-DRIFT-STATUS===".toList := by
    decide
  rw [htagged] at h
  obtain hshort | ⟨q, rfl, -⟩ := prefix_tagged h
  · exact parseLine_short hshort
  · unfold parseLine
    rw [chomp_of_not_mem hreturn]
    rfl

/-- However the blocks are cut off, what is recorded was said. -/
theorem told_cut (hw : AllWired blocks) {out : List Text}
    (h : Cut (blockLines blocks ++ [DRIFT_STATUS_MARKER]) out) :
    Told blocks (parseLines .blank out).seen := by
  have hblank : Told blocks Parsing.blank.seen := by
    intro id rec hseen
    cases hseen
  obtain ⟨before, x, behind, out', hsplit, hout, hcut⟩ | ⟨out', hout, hcut⟩ := cut_flatMap h
  · have hx : x ∈ blocks := by
      rw [hsplit]
      exact List.mem_append_right _ List.mem_cons_self
    have hsub : before ⊆ blocks := by
      rw [hsplit]
      exact List.subset_append_left _ _
    rw [hout, parse_append]
    exact (hblank.whole (fun y hy => hw y (hsub hy)) hsub).block_cut (hw x hx).1 (hw x hx).2 hx hcut
  · have hwhole : Told blocks (parseLines .blank (blockLines blocks)).seen :=
      hblank.whole hw fun _ hy => hy
    rw [hout, parse_append]
    cases hcut with
    | within _ hfrag =>
      show Told blocks (parseLine (parseLines .blank (blockLines blocks)) _).seen
      rw [parseLine_marker _ hfrag]
      exact hwhole
    | later _ hend =>
      cases hend
      show Told blocks (parseLine (parseLine (parseLines .blank (blockLines blocks))
        DRIFT_STATUS_MARKER) []).seen
      rw [parseLine_short (Or.inl rfl), parseLine_marker _ List.prefix_rfl]
      exact hwhole

theorem seen_other (hw : AllWired blocks) (hid : id ∉ blocks.map Prod.fst) :
    (parseLines st (blockLines blocks)).seen id = st.seen id := by
  induction blocks generalizing st with
  | nil => rfl
  | cons x xs ih =>
    obtain ⟨hx, hb⟩ := hw x List.mem_cons_self
    rw [List.map_cons, List.mem_cons, not_or] at hid
    unfold blockLines
    rw [List.flatMap_cons, parse_append, parse_block hx hb]
    refine (ih (fun y hy => hw y (List.mem_cons_of_mem _ hy)) hid.2).trans ?_
    exact Function.update_of_ne hid.1 _ _

/-- When nothing is cut off, every block is on record. -/
theorem seen_whole (hw : AllWired blocks) (hdistinct : (blocks.map Prod.fst).Nodup)
    (hmem : (id, b) ∈ blocks) :
    (parseLines st (blockLines blocks)).seen id = some (b.record id) := by
  induction blocks generalizing st with
  | nil => cases hmem
  | cons x xs ih =>
    obtain ⟨hx, hb⟩ := hw x List.mem_cons_self
    have hxs : AllWired xs := fun y hy => hw y (List.mem_cons_of_mem _ hy)
    rw [List.map_cons, List.nodup_cons] at hdistinct
    unfold blockLines
    rw [List.flatMap_cons, parse_append]
    obtain rfl | hmem := List.mem_cons.mp hmem
    · refine (seen_other hxs hdistinct.1).trans ?_
      rw [parse_block hx hb]
      exact Function.update_self ..
    · exact ih hxs hdistinct.2 hmem

end OpsMaxx.Drift
