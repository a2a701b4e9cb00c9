import OpsMaxx.Curl.Masked
import OpsMaxx.Strings.Words

/-!
# A masked command tells nothing of what is masked

Within what the masking covers, requests that differ in their secrets are copied as the same text.
-/

set_option autoImplicit false

namespace OpsMaxx.Curl

open Strings

/-! ## Values -/

theorem maskedFrom_swapped {v v' : Text} (h : Swapped v v') :
    maskedFrom (some v) = maskedFrom (some v') := by
  simp [maskedFrom, h.1, h.2]

theorem maskedFrom_same {v v' : Text} (h : v = v' ∨ Swapped v v') :
    maskedFrom (some v) = maskedFrom (some v') := by
  obtain rfl | h := h
  · rfl
  · exact maskedFrom_swapped h

/-- The first row that is looked for is in the same place. -/
theorem find_alike {α : Type} {R : α → α → Prop} {p : α → Bool} (hp : ∀ a b, R a b → p a = p b)
    {f : α → Text} (hf : ∀ a b, R a b → f a = f b ∨ Swapped (f a) (f b)) {xs ys : List α}
    (h : List.Forall₂ R xs ys) :
    (xs.find? p = none ∧ ys.find? p = none) ∨
      ∃ a b, xs.find? p = some a ∧ ys.find? p = some b ∧ (f a = f b ∨ Swapped (f a) (f b)) := by
  induction h with
  | nil => exact .inl ⟨rfl, rfl⟩
  | @cons a b xs ys hab _ ih =>
    have hpab := hp a b hab
    cases hpa : p a with
    | true =>
      refine .inr ⟨a, b, by simp [hpa], by simp [← hpab, hpa], hf a b hab⟩
    | false =>
      rw [List.find?_cons_of_neg (by simp [hpa]), List.find?_cons_of_neg (by simp [← hpab, hpa])]
      exact ih

theorem RowAlike.value {r r' : Row} (h : RowAlike r r') :
    r.value = r'.value ∨ Swapped r.value r'.value :=
  h.2.2.imp_right And.right

theorem maskedFrom_find {rows rows' : List Row} (h : List.Forall₂ RowAlike rows rows')
    {p : Row → Bool} (hp : ∀ a b, RowAlike a b → p a = p b) :
    maskedFrom ((rows.find? p).map Row.value) = maskedFrom ((rows'.find? p).map Row.value) := by
  obtain ⟨h₁, h₂⟩ | ⟨a, b, h₁, h₂, hab⟩ := find_alike hp (fun _ _ => RowAlike.value) h
  · rw [h₁, h₂]
  · rw [h₁, h₂]
    exact maskedFrom_same hab

/-! ## JSON -/

theorem walk_deep {d : Nat} (hd : 64 < d) (v : Json) : walk d v = v := by
  cases v with
  | arr items => simp [walk, hd]
  | obj fields => simp [walk, hd]
  | null => simp [walk]
  | bool b => simp [walk]
  | num n => simp [walk]
  | str s => simp [walk]

/-- Masked, two values are the same, and where they differ something is masked. -/
def WalkSame (d : Nat) (v v' : Json) : Prop :=
  walk d v = walk d v' ∧ changes d v = changes d v' ∧ (v = v' ∨ changes d v = true)

theorem WalkSame.refl (d : Nat) (v : Json) : WalkSame d v v := ⟨rfl, rfl, .inl rfl⟩

theorem WalkSame.eq {d : Nat} (hd : 64 < d) {v v' : Json} (h : WalkSame d v v') : v = v' := by
  have := h.1
  rwa [walk_deep hd, walk_deep hd] at this

theorem isMasked_swapped {k x x' : String} (hk : isSensitiveName k.toList = true)
    (h : Swapped x.toList x'.toList) :
    isMasked k (.str x) = true ∧ isMasked k (.str x') = true := by
  have hempty : ∀ y : String, referenceOnly y.toList = false → y ≠ "" := by
    rintro y hy rfl
    exact absurd hy (by decide)
  exact ⟨by simp [isMasked, hk, h.1, hempty x h.1], by simp [isMasked, hk, h.2, hempty x' h.2]⟩

theorem changes_container {d : Nat} {v : Json} (h : changes d v = true) (k : String) :
    isMasked k v = isSensitiveName k.toList := by
  cases v with
  | arr items => rfl
  | obj fields => rfl
  | null => simp [changes] at h
  | bool b => rfl
  | num n => rfl
  | str s => simp [changes] at h

theorem WalkSame.isMasked {d : Nat} {v v' : Json} (h : WalkSame d v v') (k : String) :
    isMasked k v = isMasked k v' := by
  obtain ⟨-, hchanges, rfl | hv⟩ := h
  · rfl
  · rw [changes_container hv, changes_container (hchanges ▸ hv)]

theorem walkItems_same {d : Nat} {vs vs' : List Json}
    (h : List.Forall₂ (WalkSame (d + 1)) vs vs') :
    walkItems d vs = walkItems d vs' ∧ changesItems d vs = changesItems d vs' ∧
      (vs = vs' ∨ changesItems d vs = true) := by
  induction h with
  | nil => exact ⟨rfl, rfl, .inl rfl⟩
  | cons hv _ ih =>
    obtain ⟨hwalk, hchanges, hne⟩ := hv
    obtain ⟨iwalk, ichanges, ine⟩ := ih
    refine ⟨by simp only [walkItems, hwalk, iwalk], by simp only [changesItems, hchanges, ichanges], ?_⟩
    obtain rfl | hne := hne
    · obtain rfl | ine := ine
      · exact .inl rfl
      · exact .inr (by simp [changesItems, ine])
    · exact .inr (by simp [changesItems, hne])

theorem walkFields_same {d : Nat} {fs fs' : List (String × Json)}
    (h : List.Forall₂ (EntryAlike (mayDiffer covered) WalkSame (d + 1)) fs fs') :
    walkFields d fs = walkFields d fs' ∧ changesFields d fs = changesFields d fs' ∧
      (fs = fs' ∨ changesFields d fs = true) := by
  induction h with
  | nil => exact ⟨rfl, rfl, .inl rfl⟩
  | @cons a b fs fs' hab _ ih =>
    obtain ⟨k, v⟩ := a
    obtain ⟨k', v'⟩ := b
    obtain ⟨rfl, hv⟩ := hab
    obtain ⟨iwalk, ichanges, ine⟩ := ih
    obtain hv | ⟨x, x', rfl, rfl, -, hk, hx⟩ := hv
    · have hmask := hv.isMasked k
      obtain ⟨hwalk, hchanges, hne⟩ := hv
      refine ⟨by simp only [walkFields, hwalk, iwalk, hmask],
        by simp only [changesFields, hchanges, ichanges, hmask], ?_⟩
      obtain rfl | hne := hne
      · obtain rfl | ine := ine
        · exact .inl rfl
        · exact .inr (by simp [changesFields, ine])
      · exact .inr (by simp [changesFields, hne])
    · obtain ⟨hm, hm'⟩ := isMasked_swapped hk hx
      exact ⟨by simp only [walkFields, hm, hm', iwalk, if_true],
        by simp only [changesFields, hm, hm', Bool.true_or], .inr (by simp [changesFields, hm])⟩

theorem WalkSame.arr {d : Nat} {vs vs' : List Json}
    (h : List.Forall₂ (WalkSame (d + 1)) vs vs') : WalkSame d (.arr vs) (.arr vs') := by
  obtain hd | hd := Nat.lt_or_ge 64 d
  · have heq : List.Forall₂ Eq vs vs' :=
      h.imp fun v v' (hv : WalkSame (d + 1) v v') => hv.eq (by omega)
    rw [List.forall₂_eq_eq_eq] at heq
    rw [heq]
    exact .refl d _
  · obtain ⟨hwalk, hchanges, hne⟩ := walkItems_same h
    refine ⟨by simp [walk, hwalk, Nat.not_lt.mpr hd], by simp [changes, hchanges], ?_⟩
    exact hne.imp (congrArg Json.arr) fun hc => by simp [changes, hc, hd]

theorem WalkSame.obj {d : Nat} {fs fs' : List (String × Json)}
    (h : List.Forall₂ (EntryAlike (mayDiffer covered) WalkSame (d + 1)) fs fs') :
    WalkSame d (.obj fs) (.obj fs') := by
  obtain hd | hd := Nat.lt_or_ge 64 d
  · have heq : List.Forall₂ Eq fs fs' := by
      apply h.imp
      rintro ⟨k, v⟩ ⟨k', v'⟩ ⟨rfl, hv | ⟨x, x', -, -, hdepth, -⟩⟩
      · exact Prod.ext rfl (hv.eq (by omega))
      · exact absurd hdepth (by simp [covered]; omega)
    rw [List.forall₂_eq_eq_eq] at heq
    rw [heq]
    exact .refl d _
  · obtain ⟨hwalk, hchanges, hne⟩ := walkFields_same h
    refine ⟨by simp [walk, hwalk, Nat.not_lt.mpr hd], by simp [changes, hchanges], ?_⟩
    exact hne.imp (congrArg Json.obj) fun hc => by simp [changes, hc, hd]

theorem walkSame_of_alike {d : Nat} {s s' : Text} {v v' : Json}
    (h : Alike (mayDiffer covered) d s s' (.value v) (.value v')) : WalkSame d v v' :=
  h.related WalkSame.refl (fun _ _ _ => .arr) (fun _ _ _ => .obj)

theorem changesItems_of_mem {d : Nat} {items : List Json} {v : Json} (hv : v ∈ items)
    (h : changes (d + 1) v = true) : changesItems d items = true := by
  induction items with
  | nil => contradiction
  | cons u us ih =>
    obtain rfl | hv := List.mem_cons.mp hv
    · simp [changesItems, h]
    · simp [changesItems, ih hv]

theorem changesFields_of_mem {d : Nat} {fields : List (String × Json)} {kv : String × Json}
    (hv : kv ∈ fields) (h : isMasked kv.1 kv.2 = true ∨ changes (d + 1) kv.2 = true) :
    changesFields d fields = true := by
  induction fields with
  | nil => contradiction
  | cons u us ih =>
    obtain rfl | hv := List.mem_cons.mp hv
    · obtain h | h := h
      · simp [changesFields, h]
      · simp [changesFields, h]
    · simp [changesFields, ih hv]

theorem HasSecret.changes {d : Nat} {v : Json} (h : HasSecret d v) : changes d v = true := by
  induction h with
  | item hd hv _ ih => simp [Curl.changes, hd, changesItems_of_mem hv ih]
  | field hd hv _ ih => simp [Curl.changes, hd, changesFields_of_mem hv (.inr ih)]
  | here hd hv h => simp [Curl.changes, hd, changesFields_of_mem hv (.inl h)]

theorem JsonAlike.parse {L : Limits} {d : Nat} {t t' : Text} {v v' : Json}
    (h : JsonAlike L d t t' v v') :
    Json.parse (String.ofList t) = some v ∧ Json.parse (String.ofList t') = some v' := by
  obtain ⟨s, s', after, rfl, rfl, hafter, h⟩ := h
  exact ⟨Spells.parse h.reads.1 hafter, Spells.parse h.reads.2 hafter⟩

theorem maskJsonBody_alike {t t' : Text} {v v' : Json} (h : JsonAlike covered 0 t t' v v')
    (hshown : HasSecret 0 v) : maskJsonBody t = maskJsonBody t' := by
  obtain ⟨hparse, hparse'⟩ := h.parse
  obtain ⟨s, s', after, -, -, -, h⟩ := h
  obtain ⟨hwalk, hchanges, -⟩ := walkSame_of_alike h
  have hc := hshown.changes
  simp only [maskJsonBody, hparse, hparse', ← hchanges, hc, hwalk, if_true]

/-! ## Queries and forms -/

theorem maskPairs_alike {name value : Text → Prop} {mask mask' : Text → Text}
    (hsame : ∀ p, mask p = mask' p)
    (hmask : ∀ n v v', '=' ∉ n → isSensitiveName (trueName n) = true → name n →
      mask (n ++ '=' :: v) = mask' (n ++ '=' :: v')) {s s' : Text}
    (h : PairsAlike name value s s') : maskPairs mask s = maskPairs mask' s' := by
  have hpairs : (s.splitOn '&').map mask = (s'.splitOn '&').map mask' := by
    unfold PairsAlike at h
    generalize s.splitOn '&' = ps at h
    generalize s'.splitOn '&' = ps' at h
    induction h with
    | nil => rfl
    | cons hp _ ih =>
      rw [List.map_cons, List.map_cons, ih]
      obtain rfl | ⟨n, v, v', hn, htrue, hname, -, -, rfl, rfl⟩ := hp
      · rw [hsame]
      · rw [hmask n v v' hn htrue hname]
  rw [maskPairs, maskPairs, hpairs]

theorem maskFormBody_alike {t t' : Text}
    (h : PairsAlike covered.formName (fun v => '\x00' ∉ v) t t') :
    maskFormBody t = maskFormBody t' := by
  apply maskPairs_alike (fun _ => rfl) _ h
  intro n v v' hn _ hname
  have hname : isSensitiveName (formName n) = true := hname
  simp only [maskFormPair, splitFirst_append hn, hname, if_true]

theorem maskQueryPair_rows {rows rows' : List Row} (h : List.Forall₂ RowAlike rows rows')
    (p : Text) : maskQueryPair rows p = maskQueryPair rows' p := by
  unfold maskQueryPair
  split
  · rfl
  · rw [maskedFrom_find h]
    intro a b hab
    rw [hab.2.1]

theorem maskQuery_alike {rows rows' : List Row} (hrows : List.Forall₂ RowAlike rows rows')
    {q q' : Text} (h : PairsAlike covered.queryName (fun _ => True) q q') :
    maskPairs (maskQueryPair rows) q = maskPairs (maskQueryPair rows') q' := by
  apply maskPairs_alike (maskQueryPair_rows hrows) _ h
  intro n v v' hn _ hname
  have hname : isSensitiveName (queryName n) = true := hname
  rw [maskQueryPair_rows hrows]
  simp only [maskQueryPair, splitFirst_append hn, hname, if_true]

/-! ## The user information of a URL -/

theorem authorityFrom_query (seen t rest : Text) :
    authorityFrom seen (t ++ '?' :: rest) =
      ((authorityFrom seen t).1, (authorityFrom seen t).2 ++ '?' :: rest) := by
  induction t generalizing seen with
  | nil => simp [authorityFrom]
  | cons c t ih =>
    rw [List.cons_append, authorityFrom, authorityFrom]
    split_ifs
    · rfl
    · exact ih _

theorem authorityFrom_append (seen t : Text) :
    (authorityFrom seen t).1 ++ (authorityFrom seen t).2 = seen ++ t := by
  induction t generalizing seen with
  | nil => rfl
  | cons c t ih =>
    rw [authorityFrom]
    split_ifs
    · rfl
    · rw [ih]
      simp

theorem authorityFrom_plain {s : Text} (h : ∀ c ∈ s, isAuthorityChar c = true) (seen rest : Text) :
    authorityFrom seen (s ++ rest) = authorityFrom (seen ++ s) rest := by
  induction s generalizing seen with
  | nil => rw [List.append_nil, List.nil_append]
  | cons c s ih =>
    have hc := h c List.mem_cons_self
    simp only [isAuthorityChar, Bool.and_eq_true, decide_eq_true_eq] at hc
    rw [List.cons_append, authorityFrom, if_neg (by simp [hc]),
      ih (fun d hd => h d (List.mem_cons_of_mem _ hd))]
    simp

theorem dropWhile_stop {p : Char → Bool} {d : Char} (hp : p d = false) (s rest : Text) :
    (s ++ d :: rest).dropWhile p = s.dropWhile p ++ d :: rest := by
  induction s with
  | nil => simp [hp]
  | cons c s ih =>
    rw [List.cons_append, List.dropWhile_cons, List.dropWhile_cons, ih]
    split_ifs
    · rfl
    · rfl

theorem takeWhile_stop {p : Char → Bool} {d : Char} (hp : p d = false) (s rest : Text) :
    (s ++ d :: rest).takeWhile p = s.takeWhile p := by
  induction s with
  | nil => simp [hp]
  | cons c s ih =>
    rw [List.cons_append, List.takeWhile_cons, List.takeWhile_cons, ih]

/-- The marker of an authority is not cut by a query. -/
theorem marker_query (s rest : Text) :
    (s ++ '?' :: rest).take 3 = [':', '/', '/'] ↔ s.take 3 = [':', '/', '/'] := by
  match s with
  | [] => simp
  | [a] => simp
  | [a, b] => simp
  | a :: b :: c :: s => simp

theorem hasScheme_query (s rest : Text) : hasScheme (s ++ '?' :: rest) = hasScheme s := by
  unfold hasScheme
  rw [dropWhile_stop (by decide), decide_eq_decide.mpr (marker_query _ _)]
  cases s with
  | nil => rfl
  | cons c s => rfl

theorem hasScheme_marker {s : Text} (h : hasScheme s = true) :
    ∃ t, s.dropWhile isSchemeChar = ':' :: '/' :: '/' :: t := by
  simp only [hasScheme, Bool.and_eq_true, decide_eq_true_eq] at h
  refine ⟨(s.dropWhile isSchemeChar).drop 3, ?_⟩
  have := List.take_append_drop 3 (s.dropWhile isSchemeChar)
  rw [h.2] at this
  exact this.symm

theorem userinfoSpan_query (s rest : Text) :
    userinfoSpan (s ++ '?' :: rest) =
      (userinfoSpan s).map fun x => (x.1, x.2.1, x.2.2 ++ '?' :: rest) := by
  have htrim : trimStart (s ++ '?' :: rest) = trimStart s ++ '?' :: rest :=
    dropWhile_stop (by decide) s rest
  have hleading : leading (s ++ '?' :: rest) = leading s := takeWhile_stop (by decide) s rest
  have hmark : isSchemeChar '?' = false := by decide
  unfold userinfoSpan
  simp only [htrim, hleading, hasScheme_query]
  cases hscheme : hasScheme (trimStart s) with
  | false => rfl
  | true =>
    obtain ⟨t, ht⟩ := hasScheme_marker hscheme
    simp only [Bool.not_true, Bool.false_eq_true, if_false, takeWhile_stop hmark,
      dropWhile_stop hmark, ht, List.cons_append, List.drop_succ_cons, List.drop_zero,
      authorityFrom_query]
    split_ifs
    · simp
    · rfl

/-! ## The masked URL -/

theorem cut_at_last {after : Text} (h : '@' ∉ after) (before : Text) :
    (before ++ '@' :: after).rdropWhile (· ≠ '@') = before ++ ['@'] ∧
      (before ++ '@' :: after).rtakeWhile (· ≠ '@') = after := by
  have hall : ∀ c ∈ after.reverse, decide (c ≠ '@') = true := by
    intro c hc
    simp only [decide_eq_true_eq]
    rintro rfl
    exact h (List.mem_reverse.mp hc)
  unfold List.rdropWhile List.rtakeWhile
  rw [List.reverse_append, List.reverse_cons, List.append_assoc, List.dropWhile_append_of_pos hall,
    List.takeWhile_append_of_pos hall]
  simp

theorem rdropWhile_last {t : Text} (h : '@' ∈ t) :
    (t.rdropWhile (· ≠ '@')).dropLast ++ '@' :: t.rtakeWhile (· ≠ '@') = t := by
  obtain ⟨a, b, hab, ha⟩ := List.eq_append_cons_of_mem (List.mem_reverse.mpr h)
  obtain rfl : t = b.reverse ++ '@' :: a.reverse := by
    rw [← List.reverse_reverse t, hab]
    simp
  obtain ⟨hdrop, htake⟩ := cut_at_last (fun hm => ha (List.mem_reverse.mp hm)) b.reverse
  rw [hdrop, htake, List.dropLast_concat]

/-- The pieces make up the URL. -/
theorem userinfoSpan_append {url before info behind : Text}
    (h : userinfoSpan url = some (before, info, behind)) : before ++ (info ++ behind) = url := by
  unfold userinfoSpan at h
  dsimp only at h
  split at h
  · contradiction
  · rename_i hscheme
    obtain ⟨t, ht⟩ := hasScheme_marker (by simpa using hscheme)
    split_ifs at h with hat
    obtain ⟨rfl, rfl, rfl⟩ := by simpa using h
    simp only [ht, List.drop_succ_cons, List.drop_zero] at hat ⊢
    have hauth := authorityFrom_append [] t
    have hwhole := List.takeWhile_append_dropWhile (p := isSchemeChar) (l := trimStart url)
    have hlast := rdropWhile_last hat
    rw [ht] at hwhole
    conv => rhs; rw [← leading_trimStart url, ← hwhole]
    rw [List.nil_append] at hauth
    conv => rhs; rw [← hauth, ← hlast]
    simp

theorem maskUserinfo_query (s rest : Text) :
    maskUserinfo (s ++ '?' :: rest) = maskUserinfo s ++ '?' :: rest := by
  unfold maskUserinfo
  rw [userinfoSpan_query]
  cases userinfoSpan s with
  | none => rfl
  | some x =>
    obtain ⟨before, info, behind⟩ := x
    simp only [Option.map_some]
    split_ifs
    · rfl
    · simp

theorem not_mem_maskUserinfo {s : Text} (h : '?' ∉ s) : '?' ∉ maskUserinfo s := by
  unfold maskUserinfo
  split
  · rename_i before info behind hspan
    rw [← userinfoSpan_append hspan] at h
    split_ifs
    · exact userinfoSpan_append hspan ▸ h
    · have hsecret : '?' ∉ SECRET := by decide +kernel
      simp only [List.mem_append, not_or] at h ⊢
      exact ⟨⟨h.1, hsecret⟩, h.2.2⟩
  · exact h

theorem maskUrl_rows {rows rows' : List Row} (h : List.Forall₂ RowAlike rows rows') (url : Text) :
    maskUrlForCurl rows url = maskUrlForCurl rows' url := by
  have : maskQueryPair rows = maskQueryPair rows' := funext (maskQueryPair_rows h)
  unfold maskUrlForCurl
  rw [this]

theorem maskUrl_query (rows : List Row) {head q tail : Text} (hhead : '?' ∉ head) (hq : '#' ∉ q)
    (htail : ∀ c ∈ tail.head?, c = '#') :
    maskUrlForCurl rows (head ++ '?' :: (q ++ tail)) =
      maskUserinfo head ++ '?' :: maskPairs (maskQueryPair rows) q ++ tail := by
  have hall : ∀ c ∈ q, decide (c ≠ '#') = true := by
    intro c hc
    simp only [decide_eq_true_eq]
    rintro rfl
    exact hq hc
  have hcut : tail.takeWhile (· ≠ '#') = [] ∧ tail.dropWhile (· ≠ '#') = tail := by
    cases tail with
    | nil => exact ⟨rfl, rfl⟩
    | cons c tail =>
      obtain rfl : c = '#' := htail c rfl
      simp
  unfold maskUrlForCurl
  simp only [maskUserinfo_query, splitFirst_append (not_mem_maskUserinfo hhead),
    List.takeWhile_append_of_pos hall, List.dropWhile_append_of_pos hall, hcut.1, hcut.2,
    List.append_nil]

theorem guarded_host (host before : Text) :
    ApiUrl.guarded (before ++ '@' :: host) = ApiUrl.guarded host := by
  have hat : ApiUrl.isIdChar '@' = false := by decide
  have hrev : (before ++ '@' :: host).reverse = host.reverse ++ '@' :: before.reverse := by simp
  have htake : (before ++ '@' :: host).rtakeWhile ApiUrl.isIdChar =
      host.rtakeWhile ApiUrl.isIdChar := by
    unfold List.rtakeWhile
    rw [hrev, takeWhile_stop hat]
  have hdrop : (before ++ '@' :: host).rdropWhile ApiUrl.isIdChar =
      before ++ '@' :: host.rdropWhile ApiUrl.isIdChar := by
    unfold List.rdropWhile
    rw [hrev, dropWhile_stop hat]
    simp
  have hsuffix : ∀ t : Text, ApiUrl.vaultTag <:+ before ++ '@' :: t ↔ ApiUrl.vaultTag <:+ t := by
    intro t
    have ht : '@' :: t <:+ before ++ '@' :: t := List.suffix_append _ _
    constructor
    · intro h
      obtain hle | hlt := Nat.lt_or_ge t.length ApiUrl.vaultTag.length
      · have hin := List.suffix_of_suffix_length_le ht h (by simp only [List.length_cons]; omega)
        exact absurd (hin.subset List.mem_cons_self) (by decide)
      · exact List.suffix_of_suffix_length_le h ((List.suffix_cons _ _).trans ht) hlt
    · intro h
      exact h.trans ((List.suffix_cons _ _).trans ht)
  have hbool : ApiUrl.vaultTag.isSuffixOf (before ++ '@' :: host.rdropWhile ApiUrl.isIdChar) =
      ApiUrl.vaultTag.isSuffixOf (host.rdropWhile ApiUrl.isIdChar) := by
    rw [Bool.eq_iff_iff, List.isSuffixOf_iff_suffix, List.isSuffixOf_iff_suffix, hsuffix]
  simp only [ApiUrl.guarded, htake, hdrop, hbool]

theorem userinfoSpan_password {lead scheme user pw host rest : Text}
    (hlead : ∀ c ∈ lead, isSpace c = true) (hletter : scheme.head?.map isLetter = some true)
    (hscheme : ∀ c ∈ scheme, isSchemeChar c = true)
    (huser : ∀ c ∈ user, isAuthorityChar c = true ∧ c ≠ ':')
    (hpw : ∀ c ∈ pw, isAuthorityChar c = true)
    (hhost : ∀ c ∈ host, isAuthorityChar c = true ∧ c ≠ '@')
    (hrest : ∀ c ∈ rest.head?, isAuthorityChar c = false)
    (hlimit : rest.head? = some '#' → ApiUrl.guarded host = false) :
    userinfoSpan (lead ++ (scheme ++ ':' :: '/' :: '/' ::
      (user ++ ':' :: (pw ++ '@' :: (host ++ rest))))) =
      some (lead ++ scheme ++ [':', '/', '/'], user ++ ':' :: pw, '@' :: host ++ rest) := by
  obtain ⟨c, cs, rfl⟩ : ∃ c cs, scheme = c :: cs := by
    cases scheme with
    | nil => contradiction
    | cons c cs => exact ⟨c, cs, rfl⟩
  have hletter : isLetter c = true := by simpa using hletter
  have hspace : isSpace c = false := by
    have hrange : 32 < c.toNat ∧ c.toNat < 127 := by
      simp only [isLetter, Bool.or_eq_true, Bool.and_eq_true, decide_eq_true_eq] at hletter
      omega
    simpa [isInk] using isInk_of_graphic hrange.1 hrange.2
  have hcolon : isSchemeChar ':' = false := by decide
  have hwhole : ∀ d ∈ user ++ ':' :: (pw ++ '@' :: host), isAuthorityChar d = true := by
    intro d hd
    simp only [List.mem_append, List.mem_cons] at hd
    obtain hd | rfl | hd | rfl | hd := hd
    · exact (huser d hd).1
    · decide
    · exact hpw d hd
    · decide
    · exact (hhost d hd).1
  have hauth : authorityFrom [] (user ++ ':' :: (pw ++ '@' :: host) ++ rest) =
      (user ++ ':' :: (pw ++ '@' :: host), rest) := by
    rw [authorityFrom_plain hwhole, List.nil_append]
    cases rest with
    | nil => rfl
    | cons d rest =>
      have hd := hrest d rfl
      simp only [isAuthorityChar, Bool.and_eq_false_iff, decide_eq_false_iff_not, not_not] at hd
      rw [authorityFrom, if_pos]
      obtain (rfl | rfl) | rfl := hd
      · exact .inl rfl
      · exact .inr (.inl rfl)
      · refine .inr (.inr ⟨rfl, ?_⟩)
        have := guarded_host host (user ++ ':' :: pw)
        simp only [List.append_assoc, List.cons_append] at this
        rw [this]
        exact hlimit rfl
  obtain ⟨hcut, hafter⟩ := cut_at_last (fun hm => (hhost '@' hm).2 rfl) (user ++ ':' :: pw)
  have hinfo := congrArg List.dropLast hcut
  rw [List.dropLast_concat] at hinfo
  simp only [List.append_assoc, List.cons_append] at hinfo hafter hauth
  have htrim : ∀ t, trimStart (lead ++ (c :: t)) = c :: t := by
    intro t
    rw [trimStart_spaces hlead]
    exact trimStart_ink (by simp [isInk, hspace]) t
  have hleading : ∀ t, leading (lead ++ (c :: t)) = lead := by
    intro t
    unfold leading
    rw [List.takeWhile_append_of_pos hlead, List.takeWhile_cons_of_neg (by simp [hspace]),
      List.append_nil]
  have hdrop : ∀ t, (c :: (cs ++ ':' :: t)).dropWhile isSchemeChar = ':' :: t := by
    intro t
    rw [← List.cons_append, List.dropWhile_append_of_pos hscheme,
      List.dropWhile_cons_of_neg (by simp [hcolon])]
  have htake : ∀ t, (c :: (cs ++ ':' :: t)).takeWhile isSchemeChar = c :: cs := by
    intro t
    rw [← List.cons_append, List.takeWhile_append_of_pos hscheme,
      List.takeWhile_cons_of_neg (by simp [hcolon]), List.append_nil]
  have hhas : ∀ t, hasScheme (c :: (cs ++ ':' :: '/' :: '/' :: t)) = true := by
    intro t
    simp [hasScheme, hdrop, hletter]
  unfold userinfoSpan
  simp only [List.cons_append, htrim, hleading, hhas, hdrop, htake, Bool.not_true,
    Bool.false_eq_true, if_false, List.drop_succ_cons, List.drop_zero, hauth]
  rw [if_pos (by simp), hinfo, hafter]

theorem maskUrl_step {rows : List Row} {url url' : Text} (h : UrlStep covered url url') :
    maskUrlForCurl rows url = maskUrlForCurl rows url' := by
  cases h with
  | password hlead hletter hscheme huser hpw hpw' hhost hrest hswap hlimit =>
    rename_i lead scheme user pw pw' host rest
    have hcolon : ':' ∉ user := fun hm => (huser ':' hm).2 rfl
    have hmask : ∀ p : Text, (∀ c ∈ p, isAuthorityChar c = true) → referenceOnly p = false →
        maskUserinfo (lead ++ (scheme ++ ':' :: '/' :: '/' ::
          (user ++ ':' :: (p ++ '@' :: (host ++ rest))))) =
          lead ++ scheme ++ [':', '/', '/'] ++ SECRET ++ ('@' :: host ++ rest) := by
      intro p hp href
      have hinfo : userinfoIsReference (user ++ ':' :: p) = false := by
        simp [userinfoIsReference, splitFirst_append hcolon, href]
      simp [maskUserinfo, userinfoSpan_password hlead hletter hscheme huser hp hhost hrest hlimit,
        hinfo]
    unfold maskUrlForCurl
    rw [hmask pw hpw hswap.1, hmask pw' hpw' hswap.2]
  | query hhead hq hq' htail h =>
    rw [maskUrl_query rows hhead hq htail, maskUrl_query rows hhead hq' htail,
      maskQuery_alike (List.forall₂_same.mpr fun r _ => ⟨rfl, rfl, .inl rfl⟩) h]

theorem maskUrl_alike {rows rows' : List Row} (hrows : List.Forall₂ RowAlike rows rows')
    {url url' : Text} (h : UrlAlike covered url url') :
    maskUrlForCurl rows url = maskUrlForCurl rows' url' := by
  rw [← maskUrl_rows hrows]
  induction h with
  | refl => rfl
  | tail _ hstep ih => exact ih.trans (maskUrl_step hstep)

end OpsMaxx.Curl
