import Mathlib.Data.Nat.Find
import OpsMaxx.Strings.Replace

/-!
# Known secrets in a text

`redactKnownSecrets` blanks the secrets out one after the other, each in the text the ones before it
have left. What is blanked out depends on the order where secrets overlap.
-/

set_option autoImplicit false

namespace OpsMaxx.Redact

open Strings

/-- A string of code units. -/
abbrev Units : Type := List UInt16

/-- The units of an ASCII text. -/
def units (t : String) : Units := t.toList.map fun c => c.toNat.toUInt16

def PLACEHOLDER : Units := units "[REDACTED]"

section Redact
variable {α : Type} (char : α → UInt16) (new : List α)

/-- `out.split(secret).join(PLACEHOLDER)`, of a text whose units may carry more than themselves. -/
def redactOne (out : List α) (secret : Units) : List α :=
  if secret = [] ∨ secret.length < 3 then out else replaceAll char secret new out

def redact (text : List α) (knownSecrets : List Units) : List α :=
  knownSecrets.foldl (redactOne char new) text

end Redact

def redactKnownSecrets (text : Units) (knownSecrets : List Units) : Units :=
  redact id PLACEHOLDER text knownSecrets

/-! ## What is left of the text -/

/-- Every unit of the text with its place. -/
def placed (text : Units) : List (UInt16 × Option Nat) := text.mapIdx fun i c => (c, some i)

def placeholder : List (UInt16 × Option Nat) := PLACEHOLDER.map fun c => (c, none)

def redactPlaced (text : Units) (knownSecrets : List Units) : List (UInt16 × Option Nat) :=
  redact Prod.fst placeholder (placed text) knownSecrets

theorem map_placed (text : Units) : (placed text).map Prod.fst = text := by
  apply List.ext_getElem
  · simp [placed]
  · intro i hi hi'
    simp [placed]

/-- The unit at a place of the text is still there. -/
def Survives (text : Units) (secrets : List Units) (k : Nat) : Prop :=
  ∃ c, (c, some k) ∈ redactPlaced text secrets

/-- Nothing inside an occurrence of a secret is left. -/
def Complete (text : Units) (secrets : List Units) : Prop :=
  ∀ s ∈ secrets, ∀ i, s <+: text.drop i → ∀ k, i ≤ k → k < i + s.length → ¬ Survives text secrets k

/-- In whatever order the secrets come, nothing of them is left and the result is the same. -/
def Redacts (text : Units) (secrets : List Units) : Prop :=
  ∀ secrets', secrets'.Perm secrets → Complete text secrets' ∧
    redactKnownSecrets text secrets' = redactKnownSecrets text secrets

/-- Secrets of three units and more, none of them a unit of the placeholder. -/
def Known (secrets : List Units) : Prop :=
  ∀ s ∈ secrets, 3 ≤ s.length ∧ ∀ c ∈ PLACEHOLDER, c ∉ s

/-- No secret is inside another one, and none ends with the beginning of another one or its own. -/
def Separate (secrets : List Units) : Prop :=
  ∀ s ∈ secrets, ∀ t ∈ secrets, (s <:+: t → s = t) ∧
    ∀ y, y ≠ [] → y <:+ s → y <+: t → y = s ∧ y = t

variable {text : Units} {secrets : List Units}

theorem placeholder_ne_nil : PLACEHOLDER ≠ [] := by decide

theorem placeholder_fst : placeholder.map Prod.fst = PLACEHOLDER := by
  unfold placeholder
  rw [List.map_map]
  exact List.map_id' _

theorem Known.perm {secrets' : List Units} (h : Known secrets) (hp : secrets'.Perm secrets) :
    Known secrets' :=
  fun s hs => h s (hp.mem_iff.mp hs)

theorem Known.ne_nil (h : Known secrets) : ∀ s ∈ secrets, s ≠ [] := by
  intro s hs hnil
  have := (h s hs).1
  simp [hnil] at this

theorem redactOne_known {α : Type} {char : α → UInt16} {new : List α} (h : Known secrets)
    {s : Units} (hs : s ∈ secrets) (out : List α) :
    redactOne char new out s = replaceAll char s new out := by
  unfold redactOne
  rw [if_neg]
  have := (h s hs).1
  simp only [not_or, not_lt]
  exact ⟨h.ne_nil s hs, this⟩

/-! ## Secrets whose occurrences are apart -/

/-- One after the other comes to all at once. -/
theorem redact_eq_hide {α : Type} {char : α → UInt16} {new : List α} (h : Known secrets)
    (hnew : new.map char = PLACEHOLDER) {t : List α} (happ : Apart secrets (t.map char)) :
    redact char new t secrets = hide char new secrets t := by
  have hchars : ∀ s ∈ secrets, ∀ b ∈ new, char b ∉ s := by
    intro s hs b hb
    apply (h s hs).2
    rw [← hnew]
    exact List.mem_map_of_mem hb
  have hne : new ≠ [] := by
    rintro rfl
    exact placeholder_ne_nil hnew.symm
  induction secrets using List.reverseRecOn with
  | nil =>
    show t = hide char new [] t
    clear happ
    induction t with
    | nil => rfl
    | cons a s ih => rw [hide_later (by simp), ← ih]
  | append_singleton secrets s ih =>
    have hfront : ∀ p ∈ secrets, p ∈ secrets ++ [s] := fun p hp => List.mem_append_left _ hp
    have hmem : s ∈ secrets ++ [s] := by simp
    rw [redact, List.foldl_concat, ← redact,
      ih (fun p hp => h p (hfront p hp)) (happ.mono hfront) fun p hp => hchars p (hfront p hp),
      redactOne_known h hmem]
    exact replaceAll_hide (h.ne_nil s hmem) (fun p hp => h.ne_nil p (hfront p hp)) (hchars s hmem)
      hne happ

theorem mem_placed {c : UInt16} {o : Option Nat} {n : Nat} :
    (c, o) ∈ (placed text).take n → ∃ k < n, o = some k := by
  intro h
  obtain ⟨i, hi, hget⟩ := List.mem_iff_getElem.mp h
  rw [List.length_take] at hi
  refine ⟨i, by omega, ?_⟩
  simp only [List.getElem_take, placed, List.getElem_mapIdx, Prod.mk.injEq] at hget
  exact hget.2.symm

theorem mem_placed_drop {c : UInt16} {o : Option Nat} {n : Nat} :
    (c, o) ∈ (placed text).drop n → ∃ k, n ≤ k ∧ o = some k := by
  intro h
  obtain ⟨i, hi, hget⟩ := List.mem_iff_getElem.mp h
  refine ⟨n + i, Nat.le_add_right _ _, ?_⟩
  simp only [List.getElem_drop, placed, List.getElem_mapIdx, Prod.mk.injEq] at hget
  exact hget.2.symm

theorem complete_of_apart (h : Known secrets) (happ : Apart secrets text) :
    Complete text secrets := by
  rintro s hs i hoccurs k hik hki ⟨c, hmem⟩
  have happ' : Apart secrets ((placed text).map Prod.fst) := by rwa [map_placed]
  unfold redactPlaced at hmem
  rw [redact_eq_hide h placeholder_fst happ'] at hmem
  have hparts : (placed text).take i ++ ((placed text).drop i).take s.length ++
      (placed text).drop (i + s.length) = placed text := by
    rw [List.append_assoc, ← List.drop_drop, List.take_append_drop, List.take_append_drop]
  have ho : (((placed text).drop i).take s.length).map Prod.fst = s := by
    rw [List.map_take, List.map_drop, map_placed]
    exact (List.prefix_iff_eq_take.mp hoccurs).symm
  rw [← hparts] at happ' hmem
  rw [hide_occurrence h.ne_nil (by rwa [ho]) happ'] at hmem
  have hnot : (c, some k) ∉ placeholder := by simp [placeholder]
  simp only [List.mem_append] at hmem
  obtain (hfront | hnew) | hback := hmem
  · obtain hnew | hfront := mem_hide hfront
    · exact hnot hnew
    · obtain ⟨j, hj, heq⟩ := mem_placed hfront
      have := Option.some.inj heq
      omega
  · exact hnot hnew
  · obtain hnew | hback := mem_hide hback
    · exact hnot hnew
    · obtain ⟨j, hj, heq⟩ := mem_placed_drop hback
      have := Option.some.inj heq
      omega

theorem redacts_of_apart (h : Known secrets) (happ : Apart secrets text) :
    Redacts text secrets := by
  intro secrets' hperm
  have h' := h.perm hperm
  have happ' : Apart secrets' text := happ.mono hperm.subset
  refine ⟨complete_of_apart h' happ', ?_⟩
  unfold redactKnownSecrets
  rw [redact_eq_hide h' (List.map_id _) (by rwa [List.map_id]),
    redact_eq_hide h (List.map_id _) (by rwa [List.map_id])]
  exact hide_congr h'.ne_nil (fun p => hperm.mem_iff) (by rwa [List.map_id])

theorem apart_of_separate (hsep : Separate secrets) (text : Units) : Apart secrets text := by
  intro p hp q hq i j hij hpi hqj
  rw [or_iff_not_imp_right]
  intro hover
  obtain ⟨d, rfl⟩ := Nat.exists_eq_add_of_le hij
  have htail : p.drop d <+: text.drop (i + d) := by
    rw [← List.drop_drop]
    exact hpi.drop d
  obtain hlt | hle := Nat.lt_or_ge (p.drop d).length q.length
  · have hstart : p.drop d <+: q := List.prefix_of_prefix_length_le htail hqj (Nat.le_of_lt hlt)
    have hne : p.drop d ≠ [] := by
      rw [ne_eq, List.drop_eq_nil_iff]
      omega
    obtain ⟨hwhole, hqp⟩ := (hsep p hp q hq).2 _ hne (List.drop_suffix d p) hstart
    have hlen : (p.drop d).length = p.length := by rw [hwhole]
    rw [List.length_drop] at hlen
    refine ⟨by omega, ?_⟩
    rw [← hwhole, hqp]
  · have hinside : q <+: p.drop d := List.prefix_of_prefix_length_le hqj htail hle
    have hqp : q = p := (hsep q hq p hp).1 (hinside.isInfix.trans (List.drop_suffix d p).isInfix)
    have hlen : q.length = p.length := by rw [hqp]
    rw [List.length_drop] at hle
    exact ⟨by omega, hqp.symm⟩

/-! ## Secrets that overlap -/

/-- A text is redacted on each side of a placeholder. -/
theorem redact_around {α : Type} {char : α → UInt16} {new : List α} (h : Known secrets)
    (hnew : new.map char = PLACEHOLDER) (a b : List α) :
    redact char new (a ++ new ++ b) secrets =
      redact char new a secrets ++ new ++ redact char new b secrets := by
  have hne : new ≠ [] := by
    rintro rfl
    exact placeholder_ne_nil hnew.symm
  induction secrets generalizing a b with
  | nil => rfl
  | cons s secrets ih =>
    have hs : s ∈ s :: secrets := List.mem_cons_self
    have hchars : ∀ c ∈ new, char c ∉ s := by
      intro c hc
      apply (h s hs).2
      rw [← hnew]
      exact List.mem_map_of_mem hc
    have hrest : Known secrets := fun p hp => h p (List.mem_cons_of_mem _ hp)
    simp only [redact, List.foldl_cons, redactOne_known h hs]
    rw [replaceAll_around hchars hne (h.ne_nil s hs)]
    exact ih hrest _ _

theorem redact_eq_nil {α : Type} {char : α → UInt16} {new : List α} (h : Known secrets)
    (hne : new ≠ []) {t : List α} (hnil : redact char new t secrets = []) : t = [] := by
  induction secrets generalizing t with
  | nil => exact hnil
  | cons s secrets ih =>
    have hrest : Known secrets := fun p hp => h p (List.mem_cons_of_mem _ hp)
    rw [redact, List.foldl_cons, redactOne_known h List.mem_cons_self] at hnil
    exact replaceAll_eq_nil hne (ih hrest hnil)

theorem redact_of_absent {α : Type} {char : α → UInt16} {new : List α} (h : Known secrets)
    {t : List α} (hnone : ∀ s ∈ secrets, ¬ s <:+: t.map char) : redact char new t secrets = t := by
  induction secrets with
  | nil => rfl
  | cons s secrets ih =>
    have hrest : Known secrets := fun p hp => h p (List.mem_cons_of_mem _ hp)
    rw [redact, List.foldl_cons, redactOne_known h List.mem_cons_self,
      replaceAll_of_absent (hnone s List.mem_cons_self)]
    exact ih hrest fun p hp => hnone p (List.mem_cons_of_mem _ hp)

theorem exists_first {s t : Units} (h : s <:+: t) :
    ∃ a b, t = a ++ (s ++ b) ∧ ∀ i < a.length, ¬ s <+: t.drop i := by
  classical
  have hsome : ∃ i, s <+: t.drop i := by
    obtain ⟨a, b, rfl⟩ := h
    exact ⟨a.length, b, by simp⟩
  obtain ⟨b, hb⟩ := Nat.find_spec hsome
  refine ⟨t.take (Nat.find hsome), b, by rw [hb, List.take_append_drop], fun i hi => ?_⟩
  rw [List.length_take] at hi
  exact Nat.find_min hsome (by omega)

/-- The longer of two secrets first, and the shorter one first. -/
theorem eq_of_infix (h : Known secrets) {s t : Units} (hs : s ∈ secrets) (ht : t ∈ secrets)
    (hst : s <:+: t) (hall : Redacts t secrets) : s = t := by
  have hlong := (hall _ (List.perm_cons_erase ht).symm).2
  have hshort := (hall _ (List.perm_cons_erase hs).symm).2
  have hrest : ∀ x, Known (secrets.erase x) := fun x p hp => h p (List.mem_of_mem_erase hp)
  have hwhole : redactKnownSecrets t (t :: secrets.erase t) = PLACEHOLDER := by
    have hself : t <+: t.map id := by simp
    rw [redactKnownSecrets, redact, List.foldl_cons, redactOne_known h ht,
      replaceAll_here (h.ne_nil t ht) hself]
    simp only [List.drop_length, replaceAll, replaceFrom_nil, List.append_nil]
    refine redact_of_absent (hrest t) fun p hp hpart => ?_
    have hp' := List.mem_of_mem_erase hp
    obtain ⟨c, p', rfl⟩ := List.exists_cons_of_ne_nil (h.ne_nil p hp')
    rw [List.map_id] at hpart
    exact (h _ hp').2 c (hpart.subset List.mem_cons_self) List.mem_cons_self
  obtain ⟨a, b, htab, hfirst⟩ := exists_first hst
  have hsplit : redactKnownSecrets t (s :: secrets.erase s) =
      redact id PLACEHOLDER a (secrets.erase s) ++ PLACEHOLDER ++
        redact id PLACEHOLDER (replaceAll id s PLACEHOLDER b) (secrets.erase s) := by
    have hone : replaceAll id s PLACEHOLDER t =
        a ++ (PLACEHOLDER ++ replaceAll id s PLACEHOLDER b) := by
      rw [htab]
      apply replaceAll_first (h.ne_nil s hs) (List.map_id s)
      intro i hi
      rw [List.map_id, ← htab]
      exact hfirst i hi
    rw [redactKnownSecrets, redact, List.foldl_cons, redactOne_known h hs, hone,
      ← List.append_assoc]
    exact redact_around (hrest s) (List.map_id _) _ _
  have hlength : (redactKnownSecrets t (s :: secrets.erase s)).length = PLACEHOLDER.length := by
    rw [hshort, ← hlong, hwhole]
  rw [hsplit, List.length_append, List.length_append] at hlength
  have hfront : redact id PLACEHOLDER a (secrets.erase s) = [] :=
    List.length_eq_zero_iff.mp (by omega)
  have hback : redact id PLACEHOLDER (replaceAll id s PLACEHOLDER b) (secrets.erase s) = [] :=
    List.length_eq_zero_iff.mp (by omega)
  have ha : a = [] := redact_eq_nil (hrest s) placeholder_ne_nil hfront
  have hb : b = [] :=
    replaceAll_eq_nil placeholder_ne_nil (redact_eq_nil (hrest s) placeholder_ne_nil hback)
  rw [htab, ha, hb]
  simp

/-- Of two secrets that overlap the end of the second is left behind the first. -/
theorem survives_overlap (h : Known secrets) {s t y : Units} (hs : s ∈ secrets) (ht : t ∈ secrets)
    (hinside : ∀ u ∈ secrets, u <:+: t → u = t) (hy : y ≠ []) {x z : Units} (hz : z ≠ [])
    (hsxy : s = x ++ y) (htyz : t = y ++ z) :
    ¬ Complete (s ++ z) (s :: secrets.erase s) := by
  intro hcomplete
  have hrest : Known (secrets.erase s) := fun p hp => h p (List.mem_of_mem_erase hp)
  have hypos := List.length_pos_of_ne_nil hy
  have hzpos := List.length_pos_of_ne_nil hz
  have htmem : t ∈ s :: secrets.erase s := (List.perm_cons_erase hs).mem_iff.mp ht
  have hoccurs : t <+: (s ++ z).drop x.length := by
    rw [hsxy, List.append_assoc, List.drop_left, ← htyz]
  have hlen : s.length = x.length + y.length := by rw [hsxy, List.length_append]
  have hlent : t.length = y.length + z.length := by rw [htyz, List.length_append]
  apply hcomplete t htmem x.length hoccurs s.length (by omega) (by omega)
  have hsplit : placed (s ++ z) = (placed (s ++ z)).take s.length ++ (placed (s ++ z)).drop s.length :=
    (List.take_append_drop _ _).symm
  have hzs : ((placed (s ++ z)).drop s.length).map Prod.fst = z := by
    rw [List.map_drop, map_placed, List.drop_left]
  have hread : s <+: (placed (s ++ z)).map Prod.fst := by
    rw [map_placed]
    exact List.prefix_append _ _
  have hnone : ∀ u ∈ secrets, ¬ u <:+: z := by
    intro u hu huz
    have hut : u = t := hinside u hu (by
      rw [htyz]
      exact huz.trans (List.suffix_append _ _).isInfix)
    have := huz.length_le
    rw [hut] at this
    omega
  have hresult : redactPlaced (s ++ z) (s :: secrets.erase s) =
      placeholder ++ (placed (s ++ z)).drop s.length := by
    rw [redactPlaced, redact, List.foldl_cons, redactOne_known h hs,
      replaceAll_here (h.ne_nil s hs) hread,
      replaceAll_of_absent (by rw [hzs]; exact hnone s hs)]
    have haround := redact_around (a := []) (b := (placed (s ++ z)).drop s.length) hrest
      placeholder_fst
    rw [List.nil_append] at haround
    refine haround.trans ?_
    rw [redact_of_absent (t := []) hrest fun u hu => ?_, List.nil_append,
      redact_of_absent hrest fun u hu => ?_]
    · rw [hzs]
      exact hnone u (List.mem_of_mem_erase hu)
    · intro hnil
      exact h.ne_nil u (List.mem_of_mem_erase hu) (List.infix_nil.mp (by simpa using hnil))
  have hplace : s.length < (placed (s ++ z)).length := by
    simp only [placed, List.length_mapIdx, List.length_append]
    omega
  refine ⟨((placed (s ++ z))[s.length]).1, ?_⟩
  rw [hresult, List.drop_eq_getElem_cons hplace]
  apply List.mem_append_right
  have hget : (placed (s ++ z))[s.length] = (((placed (s ++ z))[s.length]).1, some s.length) := by
    simp [placed]
  rw [← hget]
  exact List.mem_cons_self

/-- Every text is redacted exactly if the secrets are separate, and a text in which their occurrences
are apart is in any case. -/
theorem redactKnownSecrets_iff (h : Known secrets) :
    ((∀ text, Redacts text secrets) ↔ Separate secrets) ∧
      ∀ text, Apart secrets text → Redacts text secrets := by
  refine ⟨⟨fun hall s hs t ht => ?_, fun hsep text => ?_⟩, fun text => redacts_of_apart h⟩
  · have hinside : ∀ u ∈ secrets, ∀ v ∈ secrets, u <:+: v → u = v :=
      fun u hu v hv huv => eq_of_infix h hu hv huv (hall v)
    refine ⟨hinside s hs t ht, fun y hy hys hyt => ?_⟩
    obtain ⟨x, hsxy⟩ := hys
    obtain ⟨z, htyz⟩ := hyt
    by_cases hz : z = []
    · subst hz
      rw [List.append_nil] at htyz
      have hts : t = s := hinside t ht s hs (by
        rw [← htyz, ← hsxy]
        exact (List.suffix_append _ _).isInfix)
      exact ⟨htyz.trans hts, htyz⟩
    · have hnot := survives_overlap h hs ht (fun u hu => hinside u hu t ht) hy hz hsxy.symm htyz.symm
      exact absurd (hall (s ++ z) _ (List.perm_cons_erase hs).symm).1 hnot
  · exact redacts_of_apart h (apart_of_separate hsep text)

theorem redactKnownSecrets_iff_tokens :
    ((∀ text, Redacts text [units "hunter2", units "swordfish"]) ↔
        Separate [units "hunter2", units "swordfish"]) ∧
      ∀ text, Apart [units "hunter2", units "swordfish"] text →
        Redacts text [units "hunter2", units "swordfish"] := by
  apply redactKnownSecrets_iff
  unfold Known
  decide +kernel

/-- The beginning of a secret is a secret itself and comes first. -/
theorem redactKnownSecrets_leaves :
    Known [units "abc", units "abcdef"] ∧
      ¬ Complete (units "abcdef") [units "abc", units "abcdef"] ∧
      redactKnownSecrets (units "abcdef") [units "abc", units "abcdef"] ≠
        redactKnownSecrets (units "abcdef") [units "abcdef", units "abc"] := by
  refine ⟨by unfold Known; decide +kernel, fun hcomplete => ?_, by decide +kernel⟩
  have hoccurs : units "abcdef" <+: (units "abcdef").drop 0 := List.prefix_rfl
  apply hcomplete (units "abcdef") (by simp) 0 hoccurs 3 (Nat.zero_le _) (by decide +kernel)
  refine ⟨100, ?_⟩
  decide +kernel

end OpsMaxx.Redact
