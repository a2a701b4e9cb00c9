import OpsMaxx.Jobs.NoGap
import OpsMaxx.Jobs.Reply
import OpsMaxx.Strings.Utf8Stream

/-!
# The cursor of the polls

Polls of an `out` file that is being written, each with a window of its own and each cut off
anywhere. What they decode, and then what the bytes that wait decode to, is what the bytes before
the cursor decode to.
-/

set_option autoImplicit false

namespace OpsMaxx.Jobs.Reply

open OpsMaxx.Strings

/-! ## Decoding -/

theorem decodeTail_length (n acc : Nat) (lo hi : UInt8) (bs : List UInt8) :
    (Addy.decodeTail n acc lo hi bs).2.length ≤ bs.length := by
  induction bs generalizing n acc lo hi with
  | nil =>
    cases n with
    | zero => exact le_refl _
    | succ n => exact le_refl _
  | cons b bs ih =>
    cases n with
    | zero => exact le_refl _
    | succ n =>
      rw [Addy.decodeTail]
      split_ifs
      · exact (ih _ _ _ _).trans (Nat.le_succ _)
      · exact le_refl _

theorem decodeChar_length (b : UInt8) (bs : List UInt8) :
    (Addy.decodeChar b bs).2.length ≤ bs.length := by
  unfold Addy.decodeChar
  split_ifs
  all_goals first | exact le_refl _ | exact decodeTail_length _ _ _ _ _

/-- The rest of a character, read at once or byte by byte. -/
theorem decodeFrom_tail (p : Utf8.Partial) (bs : List UInt8) :
    Utf8.decodeFrom (some p) bs =
      (Addy.decodeTail (p.rest + 1) p.acc p.lo p.hi bs).1 ::
        Utf8.decode (Addy.decodeTail (p.rest + 1) p.acc p.lo p.hi bs).2 := by
  induction bs generalizing p with
  | nil => rfl
  | cons b bs ih =>
    rw [Utf8.decodeFrom_cons, Addy.decodeTail]
    by_cases hin : p.lo ≤ b ∧ b ≤ p.hi
    · rw [Utf8.next_within hin, if_pos hin]
      cases hrest : p.rest with
      | zero => rfl
      | succ n => exact ih _
    · rw [Utf8.next_outside hin, if_neg hin]
      show _ = Utf8.replacement :: Utf8.decodeFrom none (b :: bs)
      rw [Utf8.decodeFrom_cons]
      rfl

theorem decode_char (b : UInt8) (bs : List UInt8) :
    Utf8.decode (b :: bs) =
      (Addy.decodeChar b bs).1 :: Utf8.decode (Addy.decodeChar b bs).2 := by
  rw [Utf8.decode, Utf8.decodeFrom_cons]
  show (Utf8.opening b).1 ++ Utf8.decodeFrom (Utf8.opening b).2 bs = _
  unfold Utf8.opening Addy.decodeChar
  split_ifs
  all_goals first | rfl | exact decodeFrom_tail _ bs

theorem decodeLossy_eq {n : Nat} {bs : List UInt8} (h : bs.length ≤ n) :
    Addy.decodeLossy n bs = Utf8.decode bs := by
  induction n generalizing bs with
  | zero =>
    rw [List.length_eq_zero_iff.mp (Nat.le_zero.mp h)]
    rfl
  | succ n ih =>
    cases bs with
    | nil => rfl
    | cons b bs =>
      have hlen := decodeChar_length b bs
      rw [List.length_cons] at h
      rw [Addy.decodeLossy, decode_char, ih (by omega)]

theorem decode_eq (bs : List UInt8) : decode bs = Utf8.decode bs := decodeLossy_eq (le_refl _)

/-! ## Where a buffer is cut -/

theorem continues_iff (b : UInt8) : b &&& 0xc0 = 0x80 ↔ Utf8.Continues b := by
  have hall : ∀ n < 256, (UInt8.ofNat n &&& 0xc0 = 0x80 ↔ Utf8.Continues (UInt8.ofNat n)) := by
    decide +kernel
  rw [← UInt8.ofNat_toNat (x := b)]
  exact hall b.toNat b.toNat_lt

/-- Where no character is incomplete at the end, the decoder is at rest. -/
theorem need_of_incompleteBack {before : List UInt8} {back : Nat} (hback : 0 < back)
    (hfar : back ≤ 4) (h : incompleteBack before back = 0) :
    Utf8.need (Utf8.after none before.reverse) < back := by
  induction before generalizing back with
  | nil => exact hback
  | cons b before ih =>
    have hthree := Utf8.need_after_le (b :: before).reverse
    rw [incompleteBack_cons] at h
    split_ifs at h with hstop hmiddle hneed
    · omega
    · have hbefore := ih (by omega) (by omega) h
      have hnext := Utf8.need_next ((continues_iff b).mp hmiddle)
        (Utf8.after none before.reverse)
      rw [List.reverse_cons, Utf8.after_append]
      show Utf8.need (Utf8.next b (Utf8.after none before.reverse)).2 < back
      omega
    · omega
    · have hbegins : ¬ Utf8.Continues b := fun hb => hmiddle ((continues_iff b).mpr hb)
      have hopening := Utf8.need_opening b
      have hsize : Utf8.size b = utf8Need b := rfl
      rw [List.reverse_cons, Utf8.after_append]
      show Utf8.need (Utf8.next b (Utf8.after none before.reverse)).2 < back
      rw [Utf8.next_begins hbegins]
      omega

/-- The bytes that wait begin with one that begins a character. -/
theorem incompleteBack_begins {before : List UInt8} {back : Nat}
    (h : incompleteBack before back ≠ 0) :
    ∃ later b earlier, before = later ++ b :: earlier ∧ ¬ Utf8.Continues b ∧
      later.length + back = incompleteBack before back := by
  induction before generalizing back with
  | nil => exact absurd rfl h
  | cons b before ih =>
    rw [incompleteBack_cons] at h ⊢
    split_ifs at h ⊢ with hstop hmiddle hneed
    · exact absurd rfl h
    · obtain ⟨later, c, earlier, hbefore, hc, hlength⟩ := ih h
      refine ⟨b :: later, c, earlier, ?_, hc, ?_⟩
      · rw [hbefore]
        rfl
      · rw [← hlength, List.length_cons]
        omega
    · refine ⟨[], b, before, rfl, fun hb => hmiddle ((continues_iff b).mpr hb), ?_⟩
      exact Nat.zero_add back
    · exact absurd rfl h

/-- A buffer decodes in two parts, whatever comes behind it. -/
theorem decode_cut (joined more : List UInt8) :
    decode (joined ++ more) =
      decode (joined.take (joined.length - incompleteUtf8Tail joined)) ++
        decode (joined.drop (joined.length - incompleteUtf8Tail joined) ++ more) := by
  simp only [decode_eq]
  by_cases hzero : incompleteUtf8Tail joined = 0
  · have hneed := need_of_incompleteBack Nat.one_pos (by omega) hzero
    rw [List.reverse_reverse] at hneed
    have hrest := Utf8.need_zero (Nat.lt_one_iff.mp hneed)
    rw [hzero, Nat.sub_zero, List.take_length, List.drop_length, Utf8.decode_append_rest hrest]
    rfl
  · obtain ⟨later, b, earlier, hreverse, hb, hlength⟩ := incompleteBack_begins hzero
    have hjoined : joined = earlier.reverse ++ b :: later.reverse := by
      rw [← List.reverse_reverse joined, hreverse]
      simp
    have hwhole : joined.length - incompleteUtf8Tail joined = earlier.reverse.length := by
      rw [incompleteUtf8Tail, ← hlength, hjoined]
      simp only [List.length_append, List.length_cons, List.length_reverse]
      omega
    rw [hwhole, hjoined, List.take_left, List.drop_left, List.append_assoc, List.cons_append]
    exact Utf8.decode_append_begins _ hb _

theorem incompleteUtf8Tail_le_three (buf : List UInt8) : incompleteUtf8Tail buf ≤ 3 := by
  have hall : ∀ (before : List UInt8) (back : Nat), incompleteBack before back ≤ 3 := by
    intro before
    induction before with
    | nil =>
      intro back
      exact Nat.zero_le _
    | cons b before ih =>
      intro back
      rw [incompleteBack_cons]
      split_ifs
      · exact Nat.zero_le _
      · exact ih _
      · omega
      · exact Nat.zero_le _
  exact hall _ _

/-! ## The body -/

/-- The values of the characters before the padding. -/
def sixes (cs : Text) : List Nat := (cs.takeWhile (· ≠ '=')).filterMap Sidecar.base64Value

theorem sixes_char {n : Nat} (h : n < 64) (cs : Text) :
    sixes (Sidecar.base64Char n :: cs) = n :: sixes cs := by
  have hpad : Sidecar.base64Char n ≠ '=' := by
    intro heq
    have hvalue := Sidecar.base64Value_char h
    rw [heq] at hvalue
    cases hvalue
  rw [sixes, List.takeWhile_cons_of_pos (by simpa using hpad),
    List.filterMap_cons_some (Sidecar.base64Value_char h)]
  rfl

@[simp] theorem sixes_nil : sixes [] = [] := rfl

@[simp] theorem sixes_pad (cs : Text) : sixes ('=' :: cs) = [] := rfl

theorem take_encode (bytes : List UInt8) (k : Nat) :
    ∃ j, base64Groups (sixes ((Sidecar.base64Encode bytes).take k)) = bytes.take j := by
  fun_induction Sidecar.base64Encode bytes generalizing k with
  | case1 => exact ⟨0, by simp [base64Groups]⟩
  | case2 a =>
    have ha := a.toNat_lt
    rcases k with _ | _ | k
    · exact ⟨0, rfl⟩
    · refine ⟨0, ?_⟩
      rw [List.take_succ_cons, sixes_char (by omega)]
      rfl
    · refine ⟨1, ?_⟩
      rw [List.take_succ_cons, List.take_succ_cons, sixes_char (by omega), sixes_char (by omega)]
      have hpad : sixes (['=', '='].take k) = [] := by cases k <;> rfl
      rw [hpad, base64Groups]
      refine congrArg (fun x => [x]) (Sidecar.toUInt8_eq ?_)
      omega
  | case3 a b =>
    have ha := a.toNat_lt
    have hb := b.toNat_lt
    rcases k with _ | _ | _ | k
    · exact ⟨0, rfl⟩
    · refine ⟨0, ?_⟩
      rw [List.take_succ_cons, sixes_char (by omega)]
      rfl
    · refine ⟨1, ?_⟩
      rw [List.take_succ_cons, List.take_succ_cons, sixes_char (by omega), sixes_char (by omega)]
      refine congrArg (fun x => [x]) (Sidecar.toUInt8_eq ?_)
      omega
    · refine ⟨2, ?_⟩
      rw [List.take_succ_cons, List.take_succ_cons, List.take_succ_cons, sixes_char (by omega),
        sixes_char (by omega), sixes_char (by omega)]
      have hpad : sixes (['='].take k) = [] := by cases k <;> rfl
      rw [hpad, base64Groups]
      refine congrArg₂ (fun x y => [x, y]) (Sidecar.toUInt8_eq ?_) (Sidecar.toUInt8_eq ?_)
      · omega
      · omega
  | case4 a b c rest ih =>
    have ha := a.toNat_lt
    have hb := b.toNat_lt
    have hc := c.toNat_lt
    rcases k with _ | _ | _ | _ | k
    · exact ⟨0, rfl⟩
    · refine ⟨0, ?_⟩
      rw [List.take_succ_cons, sixes_char (by omega)]
      rfl
    · refine ⟨1, ?_⟩
      rw [List.take_succ_cons, List.take_succ_cons, sixes_char (by omega), sixes_char (by omega)]
      refine congrArg (fun x => [x]) (Sidecar.toUInt8_eq ?_)
      omega
    · refine ⟨2, ?_⟩
      rw [List.take_succ_cons, List.take_succ_cons, List.take_succ_cons, sixes_char (by omega),
        sixes_char (by omega), sixes_char (by omega)]
      refine congrArg₂ (fun x y => [x, y]) (Sidecar.toUInt8_eq ?_) (Sidecar.toUInt8_eq ?_)
      · omega
      · omega
    · obtain ⟨j, hj⟩ := ih k
      refine ⟨j + 3, ?_⟩
      rw [List.take_succ_cons, List.take_succ_cons, List.take_succ_cons, List.take_succ_cons,
        sixes_char (by omega), sixes_char (by omega), sixes_char (by omega),
        sixes_char (by omega), base64Groups, hj]
      rw [Sidecar.toUInt8_eq (a := a) (by omega), Sidecar.toUInt8_eq (a := b) (by omega),
        Sidecar.toUInt8_eq (a := c) (by omega)]
      rfl

theorem whole_encode (bytes : List UInt8) :
    base64Groups (sixes (Sidecar.base64Encode bytes)) = bytes := by
  fun_induction Sidecar.base64Encode bytes with
  | case1 => rfl
  | case2 a =>
    have ha := a.toNat_lt
    rw [sixes_char (by omega), sixes_char (by omega)]
    refine congrArg (fun x => [x]) (Sidecar.toUInt8_eq ?_)
    omega
  | case3 a b =>
    have ha := a.toNat_lt
    have hb := b.toNat_lt
    rw [sixes_char (by omega), sixes_char (by omega), sixes_char (by omega)]
    refine congrArg₂ (fun x y => [x, y]) (Sidecar.toUInt8_eq ?_) (Sidecar.toUInt8_eq ?_)
    · omega
    · omega
  | case4 a b c rest ih =>
    have ha := a.toNat_lt
    have hb := b.toNat_lt
    have hc := c.toNat_lt
    rw [sixes_char (by omega), sixes_char (by omega), sixes_char (by omega), sixes_char (by omega),
      base64Groups, ih]
    rw [Sidecar.toUInt8_eq (a := a) (by omega), Sidecar.toUInt8_eq (a := b) (by omega),
      Sidecar.toUInt8_eq (a := c) (by omega)]

theorem isBase64Char_encode (bytes : List UInt8) :
    ∀ c ∈ Sidecar.base64Encode bytes, isBase64Char c = true := by
  have hall : ∀ c ∈ '=' :: Sidecar.base64Alphabet, isBase64Char c = true := by decide +kernel
  exact fun c hc => hall c (Sidecar.base64Encode_mem bytes c hc)

/-- Whatever arrives of a body spells the first of its bytes. -/
theorem base64Bytes_take (bytes : List UInt8) (k : Nat) :
    ∃ j, base64Bytes ((Sidecar.base64Encode bytes).take k) = bytes.take j := by
  unfold base64Bytes
  rw [List.filter_eq_self.mpr fun c hc => isBase64Char_encode bytes c (List.mem_of_mem_take hc)]
  exact take_encode bytes k

/-- What was encoded is read back. -/
theorem base64Bytes_encode (bytes : List UInt8) :
    base64Bytes (Sidecar.base64Encode bytes) = bytes := by
  unfold base64Bytes
  rw [List.filter_eq_self.mpr (isBase64Char_encode bytes)]
  exact whole_encode bytes

/-! ## The header -/

/-- A character of a header line. -/
def InHeader (c : Char) : Prop := c = '=' ∨ safeIdChar c = true

theorem safeIdChar_range {c : Char} (h : safeIdChar c = true) : 44 < c.toNat ∧ c.toNat < 123 := by
  simp only [safeIdChar, Bool.or_eq_true, isAlphanum_iff, decide_eq_true_eq, or_assoc] at h
  obtain h | h | h | rfl | rfl | rfl := h
  · omega
  · omega
  · omega
  · decide
  · decide
  · decide

theorem safeIdChar_ne {c d : Char} (h : safeIdChar c = true) (hd : safeIdChar d = false) :
    c ≠ d := by
  intro heq
  rw [heq, hd] at h
  cases h

theorem inHeader_ne {c d : Char} (h : InHeader c) (heq : d ≠ '=') (hd : safeIdChar d = false) :
    c ≠ d := by
  obtain rfl | h := h
  · exact heq.symm
  · exact safeIdChar_ne h hd

theorem digits_safe (n : Nat) : ∀ c ∈ Nat.toDigits 10 n, safeIdChar c = true := by
  intro c hc
  have hdigit : c.isDigit = true := Nat.isDigit_of_mem_toDigits (by decide) (by decide) hc
  simp [safeIdChar, Char.isAlphanum, hdigit]

theorem field_inHeader {key : String} {value : Text}
    (hkey : ∀ c ∈ key.toList, safeIdChar c = true) (hvalue : ∀ c ∈ value, safeIdChar c = true) :
    ∀ c ∈ field key value, InHeader c := by
  intro c hc
  rw [field, List.mem_append, List.mem_cons] at hc
  obtain hc | hc | hc := hc
  · exact Or.inr (hkey c hc)
  · exact Or.inl hc
  · exact Or.inr (hvalue c hc)

theorem headerLines_inHeader (m : Marker) (size sent : Nat) :
    ∀ l ∈ headerLines m size sent, ∀ c ∈ l, InHeader c := by
  have hplain := m.plain
  simp only [List.forall_mem_cons, List.not_mem_nil, false_imp_iff, implies_true, and_true]
    at hplain
  obtain ⟨hinst, hpid, hpgid, hrc, hrc2⟩ := hplain
  simp only [headerLines, List.forall_mem_cons, List.not_mem_nil, false_imp_iff, implies_true,
    and_true]
  refine ⟨field_inHeader (by decide) (by decide), field_inHeader (by decide) hinst,
    field_inHeader (by decide) hpid, field_inHeader (by decide) hpgid,
    field_inHeader (by decide) hrc, field_inHeader (by decide) ?_, field_inHeader (by decide) ?_,
    field_inHeader (by decide) hrc2, field_inHeader (by decide) (digits_safe size),
    field_inHeader (by decide) (digits_safe sent)⟩
  · cases m.alive
    · decide
    · decide
  · cases m.strong
    · decide
    · decide

theorem headerField_field {key : String} {value : Text} (hne : key.toList ≠ [])
    (hkey : ∀ c ∈ key.toList, isKeyChar c = true ∧ safeIdChar c = true)
    (hvalue : ∀ c ∈ value, safeIdChar c = true) :
    headerField (field key value) = some (key.toList, value) := by
  have hink : ∀ {t : Text}, (∀ c ∈ t, safeIdChar c = true) → trim t = t := by
    intro t ht
    apply trim_of_ink
    intro c hc
    have hrange := safeIdChar_range (ht c hc)
    exact isInk_of_graphic (by omega) (by omega)
  have hkey' : trim key.toList = key.toList := hink fun c hc => (hkey c hc).2
  have heq : '=' ∉ key.toList := fun hmem => safeIdChar_ne (hkey _ hmem).2 (by decide) rfl
  have hreturn : dropCarriageReturn value = value := by
    rw [dropCarriageReturn, if_neg]
    intro hlast
    exact safeIdChar_ne (hvalue _ (List.mem_of_getLast? hlast)) (by decide) rfl
  have hall : key.toList.all isKeyChar = true :=
    List.all_eq_true.mpr fun c hc => (hkey c hc).1
  unfold headerField field
  rw [splitFirst_append heq]
  simp only [hkey', hreturn, hink hvalue]
  rw [if_pos ⟨hne, hne, hall⟩]

/-- The header of a reply that arrived whole announces what the host sent. -/
theorem num_sent (m : Marker) (size sent : Nat) :
    num (headerFields (unlines ("opsmaxx-poll/1".toList :: headerLines m size sent))) "sent" =
      some sent := by
  have hlines : ∀ l ∈ "opsmaxx-poll/1".toList :: headerLines m size sent, '\n' ∉ l := by
    intro l hl hmem
    rw [List.mem_cons] at hl
    obtain rfl | hl := hl
    · revert hmem
      decide
    · exact inHeader_ne (headerLines_inHeader m size sent l hl _ hmem) (by decide) (by decide) rfl
  have hlast : headerLines m size sent =
      (headerLines m size sent).take 9 ++ [field "sent" (Nat.toDigits 10 sent)] := rfl
  have hfields : headerFields
      (unlines ("opsmaxx-poll/1".toList :: headerLines m size sent)) =
        ("opsmaxx-poll/1".toList :: (headerLines m size sent).take 9).filterMap headerField ++
          [("sent".toList, Nat.toDigits 10 sent)] := by
    unfold headerFields
    rw [splitOn_unlines hlines, hlast, ← List.cons_append, List.append_assoc,
      List.filterMap_append]
    congr 1
    rw [List.singleton_append, List.filterMap_cons_some
      (headerField_field (by decide) (by decide) (digits_safe sent))]
    rfl
  have hget : getField (headerFields
      (unlines ("opsmaxx-poll/1".toList :: headerLines m size sent))) "sent" =
        some (Nat.toDigits 10 sent) := by
    unfold getField
    rw [hfields, List.reverse_append]
    exact List.lookup_cons_self
  unfold num
  simp only [hget]
  rw [if_pos]
  · exact congrArg some (Nat.ofDigitChars_toDigits (by omega) (by omega))
  · refine ⟨Nat.toDigits_ne_nil, List.all_eq_true.mpr ?_⟩
    intro c hc
    exact Nat.isDigit_of_mem_toDigits (by decide) (by decide) hc

/-! ## What arrives of a reply -/

theorem dropLineEnd_take (bytes : List UInt8) (k : Nat) :
    ∃ j, dropLineEnd (('\n' :: Sidecar.base64Encode bytes).take k) =
      (Sidecar.base64Encode bytes).take j := by
  cases k with
  | zero => exact ⟨0, rfl⟩
  | succ k => exact ⟨k, rfl⟩

/-- Either no body arrives, or the header is whole and the body begins. -/
theorem sections_reply (a : Asked) (m : Marker) (size : Nat) (out : List UInt8) (k : Nat) :
    (sections ((pollReply a (some m) size out).take k)).2 = [] ∨
      ∃ j, sections ((pollReply a (some m) size out).take k) =
        (unlines ("opsmaxx-poll/1".toList :: headerLines m size (sentOf a size)),
          (Sidecar.base64Encode (window a size out)).take j) := by
  have hslash : '/' ∉ unlines (headerLines m size (sentOf a size)) := by
    intro hmem
    rw [unlines, List.mem_flatMap] at hmem
    obtain ⟨l, hl, hc⟩ := hmem
    rw [List.mem_append, List.mem_singleton] at hc
    obtain hc | hc := hc
    · exact inHeader_ne (headerLines_inHeader m size _ l hl _ hc) (by decide) (by decide) rfl
    · exact absurd hc (by decide)
  have hfirst : 'b' ∉ "opsmaxx-poll/1\n".toList := by decide
  have hreply : pollReply a (some m) size out =
      "opsmaxx-poll/1\n".toList ++ (unlines (headerLines m size (sentOf a size)) ++
        ("body/1".toList ++ '\n' :: Sidecar.base64Encode (window a size out))) := by
    unfold pollReply
    rw [unlines_cons]
    simp
  have hhead : unlines ("opsmaxx-poll/1".toList :: headerLines m size (sentOf a size)) =
      "opsmaxx-poll/1\n".toList ++ unlines (headerLines m size (sentOf a size)) := by
    rw [unlines_cons]
    simp
  rw [hreply, hhead]
  generalize unlines (headerLines m size (sentOf a size)) = lines at hslash
  generalize hbytes : window a size out = bytes
  rw [List.take_append, List.take_append]
  generalize hk : k - "opsmaxx-poll/1\n".toList.length = k'
  have hpat : "body/1".toList = "body".toList ++ '/' :: "1".toList := by decide
  have hmem : 'b' ∉ "opsmaxx-poll/1\n".toList.take k := fun h => hfirst (List.mem_of_mem_take h)
  have hmem' : '/' ∉ lines.take k' := fun h => hslash (List.mem_of_mem_take h)
  have hcut := cutAt_append (p := "ody/1".toList) ("opsmaxx-poll/1\n".toList.take k)
    (lines.take k' ++
      ("body/1".toList ++ '\n' :: Sidecar.base64Encode bytes).take (k' - lines.length)) hmem
  have hprefix : ("body/1".toList ++ '\n' :: Sidecar.base64Encode bytes).take
      (k' - lines.length) <+:
        "body".toList ++ '/' :: "1".toList ++ '\n' :: Sidecar.base64Encode bytes := by
    rw [← hpat]
    exact List.take_prefix _ _
  have hfound := cutAt_before hmem' (by decide) hprefix
  rw [← hpat] at hfound
  rw [show 'b' :: "ody/1".toList = "body/1".toList by decide, hfound] at hcut
  unfold sections
  rw [hcut]
  split_ifs with hwhole
  · right
    have hlong : 6 ≤ k' - lines.length := by
      have hle := hwhole.length_le
      rw [List.length_take] at hle
      exact le_trans hle (Nat.min_le_left _ _)
    obtain ⟨j, hj⟩ := dropLineEnd_take bytes (k' - lines.length - 6)
    refine ⟨j, ?_⟩
    have hk' : k = "opsmaxx-poll/1\n".toList.length + k' := by omega
    rw [List.drop_take, List.drop_left, show "body/1".toList.length = 6 by decide,
      List.take_of_length_le (l := lines) (by omega), hk', List.take_of_length_le (by omega)]
    exact congrArg (Prod.mk _) hj
  · left
    rfl

/-! ## The cursor -/

/-- One poll: how much the command had written when the size was read, how much more when the
output was, and how much of the reply arrived. -/
structure Poll where
  maxBytes : Nat
  marker : Option Marker
  written : Nat
  later : Nat
  arrived : Nat

def Poll.stdout (p : Poll) (content : List UInt8) (offset : Nat) : Text :=
  (pollReply ⟨offset, p.maxBytes⟩ p.marker (content.take p.written).length
    (content.take (p.written + p.later))).take p.arrived

/-- What the reader of an `out` file holds between two polls. -/
structure Reader where
  offset : Nat
  carry : List UInt8
  text : Text

def Reader.start : Reader := ⟨0, [], []⟩

def Reader.poll (content : List UInt8) (r : Reader) (p : Poll) : Reader :=
  let read := parseJobPoll (p.stdout content r.offset) true r.carry
  { offset := r.offset + read.sent
    carry := read.carry
    text := r.text ++ read.text }

/-- The text so far, and the bytes that wait, are the bytes before the cursor. -/
structure Reader.Reads (content : List UInt8) (r : Reader) : Prop where
  decoded : ∀ more, decode (content.take r.offset ++ more) = r.text ++ decode (r.carry ++ more)
  waits : incompleteUtf8Tail r.carry = r.carry.length

theorem Reader.start_reads (content : List UInt8) : Reader.start.Reads content where
  decoded := fun _ => rfl
  waits := rfl

/-- What a poll brings is the bytes at the cursor, as many as the cursor moves past. -/
theorem poll_brings (content : List UInt8) (offset : Nat) (p : Poll) :
    ∃ body announced, base64Bytes (sections (p.stdout content offset)).2 = body ∧
      (num (headerFields (sections (p.stdout content offset)).1) "sent").getD 0 = announced ∧
      content.take (offset + min announced body.length) = content.take offset ++ body := by
  refine ⟨_, _, rfl, rfl, ?_⟩
  have hnone : (sections (p.stdout content offset)).2 = [] →
      content.take (offset + min
        ((num (headerFields (sections (p.stdout content offset)).1) "sent").getD 0)
        (base64Bytes (sections (p.stdout content offset)).2).length) =
      content.take offset ++ base64Bytes (sections (p.stdout content offset)).2 := by
    intro hnil
    have hempty : base64Bytes [] = [] := rfl
    rw [hnil, hempty, List.length_nil, Nat.min_zero, Nat.add_zero, List.append_nil]
  cases hmarker : p.marker with
  | none =>
    apply hnone
    have hshort : ∀ k < 39, (sections ((pollReply ⟨0, 0⟩ none 0 []).take k)).2 = [] := by
      decide +kernel
    unfold Poll.stdout
    rw [hmarker]
    by_cases hk : p.arrived < 39
    · exact hshort p.arrived hk
    · have hlong : pollReply ⟨0, 0⟩ none 0 [] = (pollReply ⟨0, 0⟩ none 0 []).take 38 := by
        decide +kernel
      have hlength : (pollReply ⟨0, 0⟩ none 0 []).length ≤ p.arrived := by
        have h38 : (pollReply ⟨0, 0⟩ none 0 []).length ≤ 38 := by decide +kernel
        omega
      show (sections ((pollReply ⟨0, 0⟩ none 0 []).take p.arrived)).2 = []
      rw [List.take_of_length_le hlength, hlong]
      exact hshort 38 (by omega)
  | some m =>
    have hsections := sections_reply ⟨offset, p.maxBytes⟩ m (content.take p.written).length
      (content.take (p.written + p.later)) p.arrived
    rw [← hmarker] at hsections
    obtain hnil | ⟨j, hj⟩ := hsections
    · exact hnone hnil
    · have hstdout : sections (p.stdout content offset) = _ := hj
      rw [hstdout]
      dsimp only
      rw [num_sent, Option.getD_some]
      obtain ⟨i, hi⟩ := base64Bytes_take (window ⟨offset, p.maxBytes⟩
        (content.take p.written).length (content.take (p.written + p.later))) j
      rw [hi]
      have hwindow : window ⟨offset, p.maxBytes⟩ (content.take p.written).length
          (content.take (p.written + p.later)) =
            (content.drop offset).take (min (p.written + p.later - offset)
              (sentOf ⟨offset, p.maxBytes⟩ (content.take p.written).length)) := by
        rw [window, List.drop_take, List.take_take, Nat.min_comm]
      generalize hsent : sentOf ⟨offset, p.maxBytes⟩ (content.take p.written).length = sent
        at hwindow
      rw [hwindow, List.take_take, List.take_add]
      congr 1
      rw [List.length_take]
      apply List.take_eq_take_iff.mpr
      omega

theorem Reader.Reads.poll {content : List UInt8} {r : Reader} (h : r.Reads content) (p : Poll) :
    (r.poll content p).Reads content := by
  obtain ⟨body, announced, hbody, hannounced, htake⟩ := poll_brings content r.offset p
  have hread : r.poll content p =
      { offset := r.offset + min announced body.length
        carry := (r.carry ++ body).drop
          ((r.carry ++ body).length - incompleteUtf8Tail (r.carry ++ body))
        text := r.text ++ decode ((r.carry ++ body).take
          ((r.carry ++ body).length - incompleteUtf8Tail (r.carry ++ body))) } := by
    rw [← hbody, ← hannounced]
    rfl
  rw [hread]
  constructor
  · intro more
    dsimp only
    rw [htake, List.append_assoc, h.decoded, ← List.append_assoc, decode_cut, List.append_assoc]
  · exact incompleteUtf8Tail_carry _

/-- The polls lose nothing and repeat nothing, and at most three bytes wait. -/
theorem cursor_exact (content : List UInt8) (polls : List Poll) :
    (polls.foldl (Reader.poll content) .start).text ++
        decode (polls.foldl (Reader.poll content) .start).carry =
      decode (content.take (polls.foldl (Reader.poll content) .start).offset) ∧
    (polls.foldl (Reader.poll content) .start).carry.length ≤ 3 := by
  have hreads : ∀ r : Reader, r.Reads content →
      (polls.foldl (Reader.poll content) r).Reads content := by
    induction polls with
    | nil => exact fun r h => h
    | cons p polls ih => exact fun r h => ih _ (h.poll p)
  have h := hreads .start (Reader.start_reads content)
  constructor
  · have hdecoded := h.decoded []
    rw [List.append_nil, List.append_nil] at hdecoded
    exact hdecoded.symm
  · rw [← h.waits]
    exact incompleteUtf8Tail_le_three _

end OpsMaxx.Jobs.Reply
