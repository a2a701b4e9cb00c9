import OpsMaxx.Proxy.Connect
import Mathlib.Algebra.GroupWithZero.Nat

/-!
# How much of a connection the head takes

The reader takes whole lines, and of the line it is at as much as reaches to its end in whole buffers.
How much that is at most depends on the bytes alone, and so does what is left for the upstream.
-/

set_option autoImplicit false

namespace OpsMaxx.Proxy

open Streams

/-! ## The law -/

/-- The head's bytes, one buffer and the ends of the lines. -/
def headLimit : Nat := httpMaxHeaderBytes + httpReadBufSize + 2 * httpMaxHeaderLines

/-- What follows the first blank line, from what has been read of the line. -/
def afterBlank (line : Bytes) : Bytes → Option Bytes
  | [] => none
  | b :: t =>
    if b = LF then
      if line = [] ∨ line = [CR] then some t else afterBlank [] t
    else afterBlank (line ++ [b]) t

/-- In whatever pieces the bytes come, the head takes no more than the limit, and a request that is
accepted has the upstream sent what follows its first blank line. -/
def Law (s : Bytes) : Prop :=
  ∀ pieces, (∀ p ∈ pieces, p ≠ []) → pieces.flatten = s →
    s.length - (readConnectRequest (newReader pieces)).2.left ≤ headLimit ∧
      ∀ target, (readConnectRequest (newReader pieces)).1 = .ok target →
        afterBlank [] s = some (forwarded (readConnectRequest (newReader pieces)).2)

/-! ## Where it holds -/

def IsLine (line : Bytes) : Prop := upto LF line = some (line, [])

/-- A line that is not longer than the buffer. -/
def Fits (line : Bytes) : Prop := IsLine line ∧ line.length ≤ httpReadBufSize

def counted (ls : List Bytes) : Nat := (ls.map fun line => (trimRight line).length).sum

/-- A request line with header lines that are read and counted without a refusal. -/
structure Lines (first : Bytes) (ls : List Bytes) : Prop where
  request : Fits first ∧ ∃ target, requestTarget (trimRight first) = .ok target
  headers : ∀ h ∈ ls, Fits h ∧ trimRight h ≠ []
  total : ls ≠ [] → counted (first :: ls) ≤ httpMaxHeaderBytes

/-- Lines after which another one is begun. -/
def GoesOn : List Bytes → Prop
  | [] => True
  | first :: ls => Lines first ls ∧ ls.length < httpMaxHeaderLines

/-- Wherever a line is begun, what it reaches in whole buffers is within the limit. -/
def Short (s : Bytes) : Prop :=
  ∀ ls rest, GoesOn ls → s = ls.flatten ++ rest →
    min s.length (ls.flatten.length + reach httpReadBufSize LF rest) ≤ headLimit

/-- The line that ends the head is blank. -/
def Ended (s : Bytes) : Prop :=
  ∀ ls line rest, GoesOn ls → ls ≠ [] → s = ls.flatten ++ (line ++ rest) → Fits line →
    trimRight line = [] → line.length ≤ 2

/-! ## Reading lines -/

/-- The reader behind its next line. -/
def next (r : Reader UInt8) : Reader UInt8 := (Streams.readString httpReadBufSize_pos LF r).2

def skip (ls : List Bytes) (r : Reader UInt8) : Reader UInt8 := ls.foldl (fun r _ => next r) r

theorem upto_self {s line rest : Bytes} (h : upto LF s = some (line, rest)) : IsLine line := by
  induction s generalizing line with
  | nil => cases h
  | cons a s ih =>
    rw [upto] at h
    split_ifs at h with ha
    · cases h
      rw [IsLine, upto, if_pos ha]
    · obtain ⟨found, hfound, heq⟩ := Option.map_eq_some_iff.mp h
      cases heq
      have hself := ih hfound
      unfold IsLine at hself ⊢
      rw [upto, if_neg ha, hself]
      rfl

theorem IsLine.upto {line : Bytes} (h : IsLine line) (rest : Bytes) :
    upto LF (line ++ rest) = some (line, rest) := upto_append_some h rest

theorem next_unread {r : Reader UInt8} {line rest : Bytes} (hline : IsLine line)
    (h : r.unread = line ++ rest) : (next r).unread = rest :=
  (readString_some httpReadBufSize_pos line rest (by rw [h]; exact hline.upto rest)).2

theorem readHTTPLine_fits {r : Reader UInt8} {line rest : Bytes} (hline : Fits line)
    (h : r.unread = line ++ rest) : readHTTPLine r = (.ok (trimRight line), next r) := by
  have hread := (readString_some httpReadBufSize_pos line rest
    (by rw [h]; exact hline.1.upto rest)).1
  unfold readHTTPLine next
  generalize Streams.readString httpReadBufSize_pos LF r = found at hread ⊢
  obtain ⟨out, br⟩ := found
  obtain rfl : out = some line := hread
  simp only
  rw [if_neg (Nat.not_lt.mpr hline.2)]

/-- Reading a line fails, or hands out a line that fits. -/
theorem readHTTPLine_cases (r : Reader UInt8) :
    (∃ e, readHTTPLine r = (.error e, next r)) ∨
      ∃ line, Fits line ∧ r.unread = line ++ (next r).unread ∧
        readHTTPLine r = (.ok (trimRight line), next r) := by
  cases hline : upto LF r.unread with
  | none =>
    left
    refine ⟨.io, ?_⟩
    unfold readHTTPLine next
    rw [readString_none httpReadBufSize_pos hline]
  | some found =>
    obtain ⟨line, rest⟩ := found
    have hself := upto_self hline
    have happend := (upto_append hline).symm
    by_cases hfits : line.length ≤ httpReadBufSize
    · right
      exact ⟨line, ⟨hself, hfits⟩, by rw [next_unread hself happend, happend],
        readHTTPLine_fits ⟨hself, hfits⟩ happend⟩
    · left
      refine ⟨tooLarge, ?_⟩
      have hsome := (readString_some httpReadBufSize_pos line rest hline).1
      unfold readHTTPLine next
      generalize Streams.readString httpReadBufSize_pos LF r = found at hsome ⊢
      obtain ⟨out, br⟩ := found
      obtain rfl : out = some line := hsome
      simp only
      rw [if_pos (Nat.not_le.mp hfits)]

theorem skip_unread {ls : List Bytes} (hls : ∀ line ∈ ls, IsLine line) {r : Reader UInt8} {rest : Bytes}
    (h : r.unread = ls.flatten ++ rest) : (skip ls r).unread = rest := by
  induction ls generalizing r with
  | nil => exact h
  | cons line ls ih =>
    obtain ⟨hline, hls⟩ := List.forall_mem_cons.mp hls
    rw [List.flatten_cons, List.append_assoc] at h
    exact ih hls (next_unread hline h)

theorem skip_conn (ls : List Bytes) {r : Reader UInt8} (h : ∀ p ∈ r.conn, p ≠ []) :
    ∀ p ∈ (skip ls r).conn, p ≠ [] := by
  induction ls generalizing r with
  | nil => exact h
  | cons line ls ih => exact ih (readString_conn httpReadBufSize_pos LF h)

/-- Lines that end in the first pieces leave those behind them alone. -/
theorem skip_behind {ls : List Bytes} (hls : ∀ line ∈ ls, IsLine line) {r : Reader UInt8}
    {rest : Bytes} (h : r.unread = ls.flatten ++ rest) (more : List Bytes) :
    skip ls ⟨r.buf, r.conn ++ more⟩ = ⟨(skip ls r).buf, (skip ls r).conn ++ more⟩ := by
  induction ls generalizing r with
  | nil => rfl
  | cons line ls ih =>
    obtain ⟨hline, hls⟩ := List.forall_mem_cons.mp hls
    rw [List.flatten_cons, List.append_assoc] at h
    have hsome : (upto LF r.unread).isSome := by
      rw [h, hline.upto]
      rfl
    have hnext : next ⟨r.buf, r.conn ++ more⟩ = ⟨(next r).buf, (next r).conn ++ more⟩ := by
      rw [next, readString_behind httpReadBufSize_pos hsome more]
      rfl
    exact (congrArg (skip ls) hnext).trans (ih hls (next_unread hline h))

theorem next_left (r : Reader UInt8) : (next r).left ≤ r.left :=
  readString_left httpReadBufSize_pos LF r

theorem readHeaders_left (left total : Nat) (r : Reader UInt8) :
    (readHeaders left total r).2.left ≤ r.left := by
  induction left generalizing total r with
  | zero => exact Nat.le_refl _
  | succ left ih =>
    rw [readHeaders]
    obtain ⟨e, hread⟩ | ⟨line, -, -, hread⟩ := readHTTPLine_cases r
    · rw [hread]
      exact next_left r
    · rw [hread]
      simp only
      split_ifs
      · exact next_left r
      · exact next_left r
      · exact Nat.le_trans (ih _ _) (next_left r)

theorem readHeaders_begin (left total : Nat) (r : Reader UInt8) :
    (readHeaders (left + 1) total r).2.left ≤ (next r).left := by
  rw [readHeaders]
  obtain ⟨e, hread⟩ | ⟨line, -, -, hread⟩ := readHTTPLine_cases r
  · rw [hread]
  · rw [hread]
    simp only
    split_ifs
    · exact Nat.le_refl _
    · exact Nat.le_refl _
    · exact readHeaders_left _ _ _

theorem readConnectRequest_begin (r : Reader UInt8) :
    (readConnectRequest r).2.left ≤ (next r).left := by
  unfold readConnectRequest
  obtain ⟨e, hread⟩ | ⟨line, -, -, hread⟩ := readHTTPLine_cases r
  · rw [hread]
  · rw [hread]
    simp only
    cases requestTarget (trimRight line) with
    | error e => exact Nat.le_refl _
    | ok target => exact readHeaders_left _ _ _

theorem counted_concat (ls : List Bytes) (line : Bytes) :
    counted (ls ++ [line]) = counted ls + (trimRight line).length := by
  simp [counted]

theorem counted_cons (line : Bytes) (ls : List Bytes) :
    counted (line :: ls) = (trimRight line).length + counted ls := by
  simp [counted]

/-- Header lines are read one by one while they are counted. -/
theorem readHeaders_lines {ls : List Bytes} (hls : ∀ h ∈ ls, Fits h ∧ trimRight h ≠ []) (total : Nat)
    (htotal : ls ≠ [] → total + counted ls ≤ httpMaxHeaderBytes) {r : Reader UInt8} {rest : Bytes}
    (h : r.unread = ls.flatten ++ rest) (left : Nat) :
    readHeaders (ls.length + left) total r = readHeaders left (total + counted ls) (skip ls r) := by
  induction ls generalizing total r with
  | nil => simp [counted, skip]
  | cons line ls ih =>
    obtain ⟨⟨hfits, hne⟩, hls⟩ := List.forall_mem_cons.mp hls
    rw [List.flatten_cons, List.append_assoc] at h
    have htotal := htotal (List.cons_ne_nil _ _)
    rw [counted_cons] at htotal
    have hstep : (line :: ls).length + left = ls.length + left + 1 := by
      rw [List.length_cons]
      omega
    rw [hstep, readHeaders, readHTTPLine_fits hfits h]
    simp only
    rw [if_neg hne, if_neg (by omega), ih hls _ (fun _ => by omega) (next_unread hfits.1 h),
      counted_cons, Nat.add_assoc]
    rfl

/-- A request whose first lines are in order is read as far as the line after them. -/
theorem readConnectRequest_lines {first : Bytes} {ls : List Bytes} (hlines : Lines first ls)
    (hcount : ls.length ≤ httpMaxHeaderLines) {r : Reader UInt8} {rest : Bytes}
    (h : r.unread = (first :: ls).flatten ++ rest) :
    ∃ target, (readConnectRequest r).2 =
        (readHeaders (httpMaxHeaderLines - ls.length) (counted (first :: ls)) (skip (first :: ls) r)).2 ∧
      (readConnectRequest r).1 =
        (readHeaders (httpMaxHeaderLines - ls.length) (counted (first :: ls))
          (skip (first :: ls) r)).1.map fun _ => target := by
  obtain ⟨hfits, target, htarget⟩ := hlines.request
  rw [List.flatten_cons, List.append_assoc] at h
  have hheaders := readHeaders_lines hlines.headers (trimRight first).length
    (fun hne => by rw [← counted_cons]; exact hlines.total hne) (next_unread hfits.1 h)
    (httpMaxHeaderLines - ls.length)
  rw [Nat.add_sub_cancel' hcount, ← counted_cons] at hheaders
  refine ⟨target, ?_, ?_⟩
  all_goals
    unfold readConnectRequest
    rw [readHTTPLine_fits hfits h]
    simp only [htarget, hheaders]
    rfl

/-! ## What is left for the upstream -/

theorem copyBuffer_eq (pieces : List Bytes) : copyBuffer pieces = pieces.flatten := by
  fun_induction copyBuffer pieces with
  | case1 => rfl
  | case2 p ps ih => rw [ih, take_append_takePiece, List.flatten_cons]

theorem forwarded_eq (r : Reader UInt8) : forwarded r = r.unread := by
  rw [forwarded, copyBuffer_eq, Reader.unread]

theorem afterBlank_line {line rest : Bytes} (h : IsLine line) (before : Bytes) :
    afterBlank before (line ++ rest) =
      if before ++ line = [LF] ∨ before ++ line = [CR, LF] then some rest else afterBlank [] rest := by
  induction line generalizing before with
  | nil => cases h
  | cons b line ih =>
    unfold IsLine at h
    rw [upto] at h
    rw [List.cons_append, afterBlank]
    by_cases hb : b = LF
    · subst hb
      rw [if_pos rfl] at h
      obtain rfl : line = [] := by simpa using h.symm
      have hlast : ∀ x : Bytes, before ++ [LF] = x ++ [LF] ↔ before = x := fun x =>
        List.append_left_inj [LF]
      have hone := hlast []
      have htwo := hlast [CR]
      simp only [List.nil_append, List.singleton_append] at hone htwo ⊢
      simp only [if_true, hone, htwo]
    · rw [if_neg hb] at h ⊢
      obtain ⟨⟨line', rest'⟩, hfound, heq⟩ := Option.map_eq_some_iff.mp h
      cases heq
      rw [ih hfound, List.append_assoc, List.singleton_append]

theorem afterBlank_length {s out : Bytes} {before : Bytes} (h : afterBlank before s = some out) :
    out.length < s.length := by
  induction s generalizing before with
  | nil => cases h
  | cons b s ih =>
    rw [afterBlank] at h
    split_ifs at h
    · obtain rfl := Option.some.inj h
      exact Nat.lt_succ_self _
    · exact Nat.lt_succ_of_lt (ih h)
    · exact Nat.lt_succ_of_lt (ih h)

theorem trimRight_blank {line : Bytes} (h : line = [LF] ∨ line = [CR, LF]) : trimRight line = [] := by
  obtain rfl | rfl := h <;> decide

/-- Lines that are not blank come before the first one that is. -/
theorem afterBlank_skip {ls : List Bytes} (hls : ∀ line ∈ ls, IsLine line ∧ trimRight line ≠ [])
    (rest : Bytes) : afterBlank [] (ls.flatten ++ rest) = afterBlank [] rest := by
  induction ls with
  | nil => rfl
  | cons line ls ih =>
    obtain ⟨⟨hline, hne⟩, hls⟩ := List.forall_mem_cons.mp hls
    rw [List.flatten_cons, List.append_assoc, afterBlank_line hline, List.nil_append,
      if_neg fun h => hne (trimRight_blank h), ih hls]

/-- A line of line ends alone that is at most two long is a blank one. -/
theorem blank_of_short {line : Bytes} (hline : IsLine line) (htrim : trimRight line = [])
    (hlen : line.length ≤ 2) : line = [LF] ∨ line = [CR, LF] := by
  have hends : ∀ b ∈ line, b = CR ∨ b = LF := by
    intro b hb
    have hall := List.rdropWhile_eq_nil_iff.mp htrim b hb
    simpa [isLineEnd] using hall
  match line, hlen with
  | [], _ => cases hline
  | [b], _ =>
    left
    unfold IsLine at hline
    rw [upto] at hline
    split_ifs at hline with hb
    · rw [hb]
    · cases hline
  | [b, c], _ =>
    unfold IsLine at hline
    rw [upto] at hline
    split_ifs at hline with hb
    · cases hline
    · right
      rw [upto] at hline
      split_ifs at hline with hc
      · rw [hc, (hends b List.mem_cons_self).resolve_right hb]
      · cases hline

theorem requestTarget_nil : requestTarget [] = .error badRequest := by
  simp [requestTarget, fields]

theorem Lines.ne_nil {first : Bytes} {ls : List Bytes} (h : Lines first ls) :
    ∀ line ∈ first :: ls, IsLine line ∧ trimRight line ≠ [] := by
  obtain ⟨hfits, target, htarget⟩ := h.request
  refine List.forall_mem_cons.mpr ⟨⟨hfits.1, fun hnil => ?_⟩, fun line hline => ?_⟩
  · rw [hnil, requestTarget_nil] at htarget
    cases htarget
  · exact ⟨(h.headers line hline).1.1, (h.headers line hline).2⟩

theorem GoesOn.isLine {ls : List Bytes} (h : GoesOn ls) : ∀ line ∈ ls, IsLine line := by
  cases ls with
  | nil => exact fun _ hline => nomatch hline
  | cons first ls => exact fun line hline => (h.1.ne_nil line hline).1

/-! ## The limit -/

/-- What the head has taken once a line has been begun behind these. -/
theorem taken_next {s : Bytes} {ls : List Bytes} {r : Reader UInt8} (hbuf : r.buf.length ≤ httpReadBufSize)
    (hs : s = ls.flatten ++ r.unread) (hgoes : GoesOn ls) (hshort : Short s) :
    s.length - (next r).left ≤ headLimit ∧ (next r).buf.length ≤ httpReadBufSize := by
  obtain ⟨hreach, hsmall⟩ := readString_reach httpReadBufSize_pos hbuf (d := LF)
  have hlimit := hshort ls r.unread hgoes hs
  have hlen := congrArg List.length hs
  rw [List.length_append] at hlen
  refine ⟨?_, hsmall⟩
  unfold next
  omega

/-- One more header line: the reader has it in its buffer, and the lines go on or end with it. -/
theorem readHeaders_limit {s first : Bytes} (hshort : Short s) (left : Nat) {ls : List Bytes}
    (hcount : ls.length + left = httpMaxHeaderLines) (hlines : Lines first ls) {r : Reader UInt8}
    (hbuf : r.buf.length ≤ httpReadBufSize) (hs : s = (first :: ls).flatten ++ r.unread)
    (htaken : s.length - r.left ≤ headLimit) :
    s.length - (readHeaders left (counted (first :: ls)) r).2.left ≤ headLimit ∧
      ((readHeaders left (counted (first :: ls)) r).1 = .ok () →
        ∃ ls' line, GoesOn (first :: ls') ∧ Fits line ∧ trimRight line = [] ∧
          s = (first :: ls').flatten ++
            (line ++ (readHeaders left (counted (first :: ls)) r).2.unread)) := by
  induction left generalizing ls r with
  | zero => exact ⟨htaken, fun h => nomatch h⟩
  | succ left ih =>
    have hgoes : GoesOn (first :: ls) := ⟨hlines, by omega⟩
    obtain ⟨htaken', hbuf'⟩ := taken_next hbuf hs hgoes hshort
    rw [readHeaders]
    obtain ⟨e, hread⟩ | ⟨line, hfits, happend, hread⟩ := readHTTPLine_cases r
    · rw [hread]
      exact ⟨htaken', fun h => nomatch h⟩
    rw [hread]
    simp only
    split_ifs with hblank hmany
    · refine ⟨htaken', fun _ => ⟨ls, line, hgoes, hfits, hblank, ?_⟩⟩
      rw [hs, happend]
    · exact ⟨htaken', fun h => nomatch h⟩
    · rw [← counted_concat, List.cons_append]
      have hlines' : Lines first (ls ++ [line]) := by
        refine ⟨hlines.request, fun h hh => ?_, fun _ => ?_⟩
        · obtain hh | hh := List.mem_append.mp hh
          · exact hlines.headers h hh
          · obtain rfl := List.mem_singleton.mp hh
            exact ⟨hfits, hblank⟩
        · rw [← List.cons_append, counted_concat]
          omega
      apply ih
      · rw [List.length_append, List.length_singleton]
        omega
      · exact hlines'
      · exact hbuf'
      · rw [hs, happend]
        simp
      · exact htaken'

theorem newReader_unread (pieces : List Bytes) : (newReader pieces).unread = pieces.flatten := rfl

/-- The first line, and the header lines behind it. -/
theorem readConnectRequest_limit {s : Bytes} (hshort : Short s) {pieces : List Bytes}
    (hs : pieces.flatten = s) :
    s.length - (readConnectRequest (newReader pieces)).2.left ≤ headLimit ∧
      ∀ target, (readConnectRequest (newReader pieces)).1 = .ok target →
        ∃ first ls line, GoesOn (first :: ls) ∧ Fits line ∧ trimRight line = [] ∧
          s = (first :: ls).flatten ++
            (line ++ (readConnectRequest (newReader pieces)).2.unread) := by
  obtain ⟨htaken, hbuf⟩ := @taken_next s [] (newReader pieces) (Nat.zero_le _)
    (by rw [newReader_unread, hs]; rfl) trivial hshort
  unfold readConnectRequest
  obtain ⟨e, hread⟩ | ⟨first, hfits, happend, hread⟩ := readHTTPLine_cases (newReader pieces)
  · rw [hread]
    exact ⟨htaken, fun _ h => nomatch h⟩
  rw [hread]
  simp only
  cases htarget : requestTarget (trimRight first) with
  | error e => exact ⟨htaken, fun _ h => nomatch h⟩
  | ok target =>
    have hlines : Lines first [] :=
      ⟨⟨hfits, target, htarget⟩, (fun _ h => nomatch h), fun h => absurd rfl h⟩
    have hbegun : s = [first].flatten ++ (next (newReader pieces)).unread := by
      rw [← hs, ← newReader_unread, happend]
      simp
    obtain ⟨hlimit, hok⟩ := readHeaders_limit hshort httpMaxHeaderLines (by simp) hlines hbuf hbegun
      htaken
    have htotal : counted [first] = (trimRight first).length := by simp [counted]
    rw [htotal] at hlimit hok
    refine ⟨hlimit, fun found hfound => ?_⟩
    cases hheaders : (readHeaders httpMaxHeaderLines (trimRight first).length
        (next (newReader pieces))).1 with
    | error e =>
      simp only [hheaders] at hfound
      cases hfound
    | ok u =>
      obtain ⟨ls, line, hend⟩ := hok hheaders
      exact ⟨first, ls, line, hend⟩

/-! ## Both directions -/

/-- The two parts of a stream as the pieces it comes in. -/
def twoPieces (x y : Bytes) : List Bytes := [x, y].filter (· ≠ [])

theorem twoPieces_flatten (x y : Bytes) : (twoPieces x y).flatten = x ++ y := by
  unfold twoPieces
  by_cases hx : x = [] <;> by_cases hy : y = [] <;> simp [hx, hy]

theorem twoPieces_ne_nil (x y : Bytes) : ∀ p ∈ twoPieces x y, p ≠ [] := by
  intro p hp
  simpa using (List.mem_filter.mp hp).2

theorem twoPieces_of_ne_nil {x : Bytes} (hx : x ≠ []) (y : Bytes) :
    twoPieces x y = [x] ++ twoPieces [] y := by
  by_cases hy : y = [] <;> simp [twoPieces, hx, hy]

theorem next_left_single (rest : Bytes) :
    (next (newReader (twoPieces [] rest))).left = rest.length - reach httpReadBufSize LF rest := by
  by_cases h : rest = []
  · subst h
    have hnone : Streams.readString httpReadBufSize_pos LF (newReader (twoPieces [] [])) =
        (none, ⟨[], []⟩) := readString_none httpReadBufSize_pos rfl
    rw [next, hnone]
    rfl
  · have hpieces : twoPieces [] rest = [rest] := by simp [twoPieces, h]
    rw [hpieces]
    exact readString_single httpReadBufSize_pos rest h

/-- In two pieces, the second of which begins with a line, all that the line reaches is taken. -/
theorem readConnectRequest_reach {ls : List Bytes} (hgoes : GoesOn ls) (rest : Bytes) :
    (readConnectRequest (newReader (twoPieces ls.flatten rest))).2.left ≤
      rest.length - reach httpReadBufSize LF rest := by
  rw [← next_left_single rest]
  cases ls with
  | nil =>
    exact readConnectRequest_begin _
  | cons first ls =>
    have hunread : (newReader (twoPieces (first :: ls).flatten rest)).unread =
        (first :: ls).flatten ++ rest := twoPieces_flatten _ _
    obtain ⟨target, hsnd, -⟩ := readConnectRequest_lines hgoes.1 hgoes.2.le hunread
    have hfirst : (first :: ls).flatten ≠ [] := by
      have hline := (hgoes.1.ne_nil first List.mem_cons_self).1
      intro hnil
      rw [List.flatten_cons, List.append_eq_nil_iff] at hnil
      rw [hnil.1] at hline
      cases hline
    have hpieces : newReader (twoPieces (first :: ls).flatten rest) =
        ⟨[], [(first :: ls).flatten] ++ twoPieces [] rest⟩ := by
      rw [twoPieces_of_ne_nil hfirst]
      rfl
    have hwhole : (newReader [(first :: ls).flatten]).unread = (first :: ls).flatten ++ [] := by
      simp [newReader, Reader.unread]
    have halone : skip (first :: ls) (newReader [(first :: ls).flatten]) = ⟨[], []⟩ := by
      have hrest := skip_unread hgoes.isLine hwhole
      have hconn := skip_conn (first :: ls) (r := newReader [(first :: ls).flatten])
        (by simpa [newReader] using hfirst)
      generalize skip (first :: ls) (newReader [(first :: ls).flatten]) = r at hrest hconn
      obtain ⟨buf, conn⟩ := r
      rw [Reader.unread, List.append_eq_nil_iff] at hrest
      obtain ⟨rfl, hflat⟩ := hrest
      cases conn with
      | nil => rfl
      | cons p ps =>
        rw [List.flatten_cons, List.append_eq_nil_iff] at hflat
        exact absurd hflat.1 (hconn p List.mem_cons_self)
    have hskip := skip_behind hgoes.isLine hwhole (twoPieces [] rest)
    rw [halone] at hskip
    have hleft : httpMaxHeaderLines - ls.length = httpMaxHeaderLines - ls.length - 1 + 1 := by
      have hcount := hgoes.2
      omega
    rw [hsnd, hpieces, show skip (first :: ls) ⟨[], [(first :: ls).flatten] ++ twoPieces [] rest⟩ =
      newReader (twoPieces [] rest) from hskip, hleft]
    exact readHeaders_begin _ _ _

/-- A head that goes on as far as a line of line ends alone is accepted there. -/
theorem readConnectRequest_end {first line rest : Bytes} {ls : List Bytes} (hgoes : GoesOn (first :: ls))
    (hfits : Fits line) (htrim : trimRight line = []) {r : Reader UInt8}
    (h : r.unread = (first :: ls).flatten ++ (line ++ rest)) :
    (∃ target, (readConnectRequest r).1 = .ok target) ∧ (readConnectRequest r).2.unread = rest := by
  obtain ⟨target, hsnd, hfst⟩ := readConnectRequest_lines hgoes.1 hgoes.2.le h
  have hrest := skip_unread hgoes.isLine h
  have hleft : httpMaxHeaderLines - ls.length = httpMaxHeaderLines - ls.length - 1 + 1 := by
    have hcount := hgoes.2
    omega
  have hend : readHeaders (httpMaxHeaderLines - ls.length) (counted (first :: ls))
      (skip (first :: ls) r) = (.ok (), next (skip (first :: ls) r)) := by
    rw [hleft, readHeaders, readHTTPLine_fits hfits hrest]
    simp only
    rw [if_pos htrim]
  rw [hend] at hsnd hfst
  exact ⟨⟨target, hfst⟩, by rw [hsnd]; exact next_unread hfits.1 hrest⟩

/-- The law holds of exactly the streams that are short wherever a line begins and whose head a blank
line ends. -/
theorem readConnectRequest_iff (s : Bytes) : Law s ↔ Short s ∧ Ended s := by
  constructor
  · intro hlaw
    refine ⟨fun ls rest hgoes hs => ?_, fun ls line rest hgoes hne hs hfits htrim => ?_⟩
    · have htaken := (hlaw (twoPieces ls.flatten rest) (twoPieces_ne_nil _ _)
        (by rw [twoPieces_flatten, hs])).1
      have hleft := readConnectRequest_reach hgoes rest
      have hlen := congrArg List.length hs
      rw [List.length_append] at hlen
      omega
    · obtain ⟨first, ls, rfl⟩ := List.exists_cons_of_ne_nil hne
      have hpieces : (twoPieces [] s).flatten = s := twoPieces_flatten [] s
      have hunread : (newReader (twoPieces [] s)).unread = (first :: ls).flatten ++ (line ++ rest) := by
        rw [newReader_unread, hpieces, hs]
      obtain ⟨⟨target, hok⟩, hrest⟩ := readConnectRequest_end hgoes hfits htrim hunread
      have hblank := (hlaw (twoPieces [] s) (twoPieces_ne_nil _ _) hpieces).2 target hok
      rw [forwarded_eq, hrest, hs, afterBlank_skip hgoes.1.ne_nil, afterBlank_line hfits.1] at hblank
      split_ifs at hblank with hshort
      · rw [List.nil_append] at hshort
        obtain rfl | rfl := hshort <;> decide
      · exact absurd (afterBlank_length hblank) (Nat.lt_irrefl _)
  · rintro ⟨hshort, hended⟩ pieces - hs
    obtain ⟨hlimit, hok⟩ := readConnectRequest_limit hshort hs
    refine ⟨hlimit, fun target htarget => ?_⟩
    obtain ⟨first, ls, line, hgoes, hfits, htrim, hsplit⟩ := hok target htarget
    have hlen := hended (first :: ls) line _ hgoes (List.cons_ne_nil _ _) hsplit hfits htrim
    rw [forwarded_eq]
    conv => lhs; rw [hsplit]
    rw [afterBlank_skip hgoes.1.ne_nil, afterBlank_line hfits.1, List.nil_append,
      if_pos (blank_of_short hfits.1 htrim hlen)]

theorem upto_replicate (n : Nat) : upto LF (List.replicate n (120 : UInt8)) = none := by
  induction n with
  | zero => rfl
  | succ n ih =>
    rw [List.replicate_succ, upto, if_neg (by decide), ih]
    rfl

/-- A line that never ends is taken as far as it comes. -/
theorem Law.endless {n : Nat} (h : Law (List.replicate (n + 1) 120)) : n + 1 ≤ headLimit := by
  have hlen := (h [List.replicate (n + 1) 120] (by simp) (by simp)).1
  have hnone : Streams.readString httpReadBufSize_pos LF (newReader [List.replicate (n + 1) 120]) =
      (none, ⟨[], []⟩) := by
    apply readString_none httpReadBufSize_pos
    rw [newReader_unread, List.flatten_cons, List.flatten_nil, List.append_nil, upto_replicate]
  unfold readConnectRequest readHTTPLine at hlen
  rw [hnone, List.length_replicate] at hlen
  exact hlen

theorem readConnectRequest_endless : ¬ ∀ s, Law s := fun hall =>
  absurd (hall (List.replicate (49999 + 1) 120)).endless (by decide)

end OpsMaxx.Proxy
