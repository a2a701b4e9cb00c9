import Mathlib.Data.List.Basic
import Mathlib.Tactic.SplitIfs

/-!
# Buffered reading

A connection hands out what was sent piece by piece. A reader keeps a buffer of a fixed size and fills
it when what it is asked for is not there. What it hands out does not depend on the pieces, and how
much it has taken is known up to one buffer.
-/

set_option autoImplicit false

namespace OpsMaxx.Streams

variable {α : Type} [DecidableEq α]

/-- The first line with its delimiter, and what follows. -/
def upto (d : α) : List α → Option (List α × List α)
  | [] => none
  | a :: l => if a = d then some ([a], l) else (upto d l).map fun found => (a :: found.1, found.2)

/-- What is read and not handed out yet, and the pieces to come. -/
structure Reader (α : Type) where
  buf : List α
  conn : List (List α)

def Reader.unread (r : Reader α) : List α := r.buf ++ r.conn.flatten

/-- One read of at most `n` from a connection that goes on with this piece. -/
def takePiece (n : Nat) (p : List α) (ps : List (List α)) : List (List α) :=
  if p.length ≤ n then ps else p.drop n :: ps

omit [DecidableEq α] in
theorem take_append_takePiece (n : Nat) (p : List α) (ps : List (List α)) :
    p.take n ++ (takePiece n p ps).flatten = p ++ ps.flatten := by
  unfold takePiece
  split_ifs with h
  · rw [List.take_of_length_le h]
  · rw [List.flatten_cons, ← List.append_assoc, List.take_append_drop]

omit [DecidableEq α] in
theorem takePiece_measure {n : Nat} (hn : 0 < n) (p : List α) (ps : List (List α)) :
    (takePiece n p ps).flatten.length + (takePiece n p ps).length <
      (p :: ps).flatten.length + (p :: ps).length := by
  unfold takePiece
  split_ifs with h
  · simp only [List.flatten_cons, List.length_append, List.length_cons]
    omega
  · simp only [List.flatten_cons, List.length_append, List.length_cons, List.length_drop]
    omega

section Read
variable {size : Nat}

/-- Reading up to the delimiter. A full buffer without one is set aside, and the reading goes on. At
the end of the connection what was read is an error. -/
def readString (hsize : 0 < size) (d : α) (r : Reader α) : Option (List α) × Reader α :=
  match upto d r.buf with
  | some (line, rest) => (some line, ⟨rest, r.conn⟩)
  | none =>
    if size ≤ r.buf.length then
      let found := readString hsize d ⟨[], r.conn⟩
      (found.1.map (r.buf ++ ·), found.2)
    else
      match _hconn : r.conn with
      | [] => (none, ⟨[], []⟩)
      | p :: ps =>
        readString hsize d
          ⟨r.buf ++ p.take (size - r.buf.length), takePiece (size - r.buf.length) p ps⟩
termination_by 2 * (r.conn.flatten.length + r.conn.length) + if size ≤ r.buf.length then 1 else 0
decreasing_by
  · rename_i hfull
    simp only [List.length_nil]
    rw [if_pos hfull, if_neg (by omega)]
    omega
  · rename_i hfull
    have hless := takePiece_measure (show 0 < size - r.buf.length by omega) p ps
    rw [if_neg hfull, _hconn]
    split_ifs <;> omega

variable {d : α}

theorem readString_found (hsize : 0 < size) {r : Reader α} {line rest : List α}
    (h : upto d r.buf = some (line, rest)) :
    readString hsize d r = (some line, ⟨rest, r.conn⟩) := by
  rw [readString]
  simp only [h]

theorem readString_full (hsize : 0 < size) {r : Reader α} (h : upto d r.buf = none)
    (hfull : size ≤ r.buf.length) :
    readString hsize d r =
      ((readString hsize d ⟨[], r.conn⟩).1.map (r.buf ++ ·), (readString hsize d ⟨[], r.conn⟩).2) := by
  rw [readString]
  simp only [h, if_pos hfull]

theorem readString_fill (hsize : 0 < size) {buf : List α} (h : upto d buf = none)
    (hroom : buf.length < size) (p : List α) (ps : List (List α)) :
    readString hsize d ⟨buf, p :: ps⟩ =
      readString hsize d ⟨buf ++ p.take (size - buf.length), takePiece (size - buf.length) p ps⟩ := by
  rw [readString]
  simp only [h, if_neg (Nat.not_le.mpr hroom)]

/-! ## Lines -/

omit [DecidableEq α] in
theorem takePiece_ne_nil {n : Nat} {p : List α} {ps : List (List α)} (h : ∀ q ∈ ps, q ≠ []) :
    ∀ q ∈ takePiece n p ps, q ≠ [] := by
  unfold takePiece
  split_ifs with hn
  · exact h
  · refine List.forall_mem_cons.mpr ⟨fun hnil => ?_, h⟩
    have hlen := List.drop_eq_nil_iff.mp hnil
    omega

theorem upto_append_some {s line rest : List α} (h : upto d s = some (line, rest)) (t : List α) :
    upto d (s ++ t) = some (line, rest ++ t) := by
  induction s generalizing line with
  | nil => cases h
  | cons a s ih =>
    rw [upto] at h
    rw [List.cons_append, upto]
    split_ifs at h ⊢
    · cases h
      rfl
    · obtain ⟨found, hfound, heq⟩ := Option.map_eq_some_iff.mp h
      cases heq
      rw [ih hfound]
      rfl

theorem upto_append_none {s : List α} (h : upto d s = none) (t : List α) :
    upto d (s ++ t) = (upto d t).map fun found => (s ++ found.1, found.2) := by
  induction s with
  | nil => simp
  | cons a s ih =>
    rw [upto] at h
    rw [List.cons_append, upto]
    split_ifs at h ⊢
    rw [ih (Option.map_eq_none_iff.mp h), Option.map_map]
    rfl

theorem upto_append {s line rest : List α} (h : upto d s = some (line, rest)) :
    line ++ rest = s := by
  induction s generalizing line with
  | nil => cases h
  | cons a s ih =>
    rw [upto] at h
    split_ifs at h
    · cases h
      rfl
    · obtain ⟨found, hfound, heq⟩ := Option.map_eq_some_iff.mp h
      cases heq
      rw [List.cons_append, ih hfound]

/-! ## What a reading hands out -/

/-- A reading hands out the next line whatever the pieces are, and leaves what follows it. -/
theorem readString_some (hsize : 0 < size) {r : Reader α} :
    ∀ line rest, upto d r.unread = some (line, rest) →
      (readString hsize d r).1 = some line ∧ (readString hsize d r).2.unread = rest := by
  fun_induction readString hsize d r with
  | case1 r line' rest' hbuf =>
    intro line rest h
    rw [Reader.unread, upto_append_some hbuf] at h
    cases h
    exact ⟨rfl, rfl⟩
  | case2 r hbuf hfull found ih =>
    intro line rest h
    rw [Reader.unread, upto_append_none hbuf] at h
    obtain ⟨⟨next, after⟩, hnext, heq⟩ := Option.map_eq_some_iff.mp h
    cases heq
    obtain ⟨hline, hrest⟩ := ih next after hnext
    exact ⟨by simp only [found, hline, Option.map_some], hrest⟩
  | case3 r hbuf hfull hconn =>
    intro line rest h
    rw [Reader.unread, hconn, List.flatten_nil, List.append_nil, hbuf] at h
    cases h
  | case4 r hbuf hfull p ps hconn ih =>
    intro line rest h
    apply ih
    rw [← h, Reader.unread, Reader.unread, hconn, List.append_assoc, take_append_takePiece,
      List.flatten_cons]

/-- Without another line everything is taken. -/
theorem readString_none (hsize : 0 < size) {r : Reader α} (h : upto d r.unread = none) :
    readString hsize d r = (none, ⟨[], []⟩) := by
  fun_induction readString hsize d r with
  | case1 r line' rest' hbuf =>
    rw [Reader.unread, upto_append_some hbuf] at h
    cases h
  | case2 r hbuf hfull found ih =>
    rw [Reader.unread, upto_append_none hbuf, Option.map_eq_none_iff] at h
    simp only [found, ih h, Option.map_none]
  | case3 r hbuf hfull hconn => rfl
  | case4 r hbuf hfull p ps hconn ih =>
    apply ih
    rw [← h, Reader.unread, Reader.unread, hconn, List.append_assoc, take_append_takePiece,
      List.flatten_cons]

/-! ## What a reading takes -/

/-- What is still on the connection. -/
def Reader.left (r : Reader α) : Nat := r.conn.flatten.length

theorem readString_left (hsize : 0 < size) (d : α) (r : Reader α) :
    (readString hsize d r).2.left ≤ r.left := by
  fun_induction readString hsize d r with
  | case1 r line rest hbuf => exact Nat.le_refl _
  | case2 r hbuf hfull found ih => exact ih
  | case3 r hbuf hfull hconn => exact Nat.zero_le _
  | case4 r hbuf hfull p ps hconn ih =>
    refine Nat.le_trans ih ?_
    have hall := congrArg List.length (take_append_takePiece (size - r.buf.length) p ps)
    simp only [List.length_append] at hall
    simp only [Reader.left, hconn, List.flatten_cons, List.length_append]
    omega

theorem readString_conn (hsize : 0 < size) (d : α) {r : Reader α} (h : ∀ p ∈ r.conn, p ≠ []) :
    ∀ p ∈ (readString hsize d r).2.conn, p ≠ [] := by
  fun_induction readString hsize d r with
  | case1 r line rest hbuf => exact h
  | case2 r hbuf hfull found ih => exact ih h
  | case3 r hbuf hfull hconn => exact fun _ hp => nomatch hp
  | case4 r hbuf hfull p ps hconn ih =>
    rw [hconn] at h
    exact ih (takePiece_ne_nil (List.forall_mem_cons.mp h).2)

/-- A length in whole buffers. -/
def whole (size n : Nat) : Nat := (n + (size - 1)) / size * size

theorem whole_add (hsize : 0 < size) (n : Nat) : whole size (size + n) = size + whole size n := by
  unfold whole
  rw [Nat.add_assoc, Nat.add_div_left _ hsize, Nat.succ_mul, Nat.add_comm]

theorem whole_of_le (hsize : 0 < size) {n : Nat} (hpos : 0 < n) (hle : n ≤ size) :
    whole size n = size := by
  have hdiv : (n + (size - 1)) / size = 1 := by
    apply Nat.div_eq_of_lt_le <;> omega
  rw [whole, hdiv, Nat.one_mul]

/-- What the next line makes a reader take at most: the line in whole buffers, or all there is. -/
def reach (size : Nat) (d : α) (s : List α) : Nat :=
  match upto d s with
  | none => s.length
  | some (line, _) => whole size line.length

theorem upto_pos {s line rest : List α} (h : upto d s = some (line, rest)) : 0 < line.length := by
  cases s with
  | nil => cases h
  | cons a s =>
    rw [upto] at h
    split_ifs at h
    · cases h
      exact Nat.one_pos
    · obtain ⟨found, -, heq⟩ := Option.map_eq_some_iff.mp h
      cases heq
      exact Nat.succ_pos _

theorem reach_append (hsize : 0 < size) {s : List α} (h : upto d s = none) (hs : s.length = size)
    (t : List α) : reach size d (s ++ t) = size + reach size d t := by
  unfold reach
  rw [upto_append_none h]
  cases upto d t with
  | none => simp [hs]
  | some found =>
    simp only [Option.map_some, List.length_append, hs]
    exact whole_add hsize _

/-- A reading takes no more than its line reaches, counted from where the line begins. -/
theorem readString_reach (hsize : 0 < size) {r : Reader α} (hbuf : r.buf.length ≤ size) :
    r.unread.length ≤ (readString hsize d r).2.left + reach size d r.unread ∧
      (readString hsize d r).2.buf.length ≤ size := by
  fun_induction readString hsize d r with
  | case1 r line rest hfound =>
    have hline := congrArg List.length (upto_append hfound)
    have hpos := upto_pos hfound
    rw [List.length_append] at hline
    have hreach : reach size d r.unread = size := by
      rw [reach, Reader.unread, upto_append_some hfound]
      exact whole_of_le hsize hpos (by omega)
    rw [hreach, Reader.unread, List.length_append]
    simp only [Reader.left]
    omega
  | case2 r hnone hfull found ih =>
    obtain ⟨hreach, hsmall⟩ := ih (Nat.zero_le _)
    have hlen : r.buf.length = size := Nat.le_antisymm hbuf hfull
    rw [Reader.unread, reach_append hsize hnone hlen, List.length_append]
    simp only [Reader.unread, List.nil_append] at hreach
    exact ⟨by simp only [found]; omega, hsmall⟩
  | case3 r hnone hfull hconn =>
    rw [reach, Reader.unread, hconn, List.flatten_nil, List.append_nil, hnone]
    exact ⟨Nat.le_add_left _ _, Nat.zero_le _⟩
  | case4 r hnone hfull p ps hconn ih =>
    have hunread : (⟨r.buf ++ p.take (size - r.buf.length),
        takePiece (size - r.buf.length) p ps⟩ : Reader α).unread = r.unread := by
      rw [Reader.unread, Reader.unread, hconn, List.append_assoc, take_append_takePiece,
        List.flatten_cons]
    rw [hunread] at ih
    apply ih
    simp only [List.length_append, List.length_take]
    omega

/-- From one piece a reading takes exactly what its line reaches. -/
theorem readString_single (hsize : 0 < size) (p : List α) (hp : p ≠ []) :
    (readString hsize d ⟨[], [p]⟩).2.left = p.length - reach size d p := by
  generalize hlen : p.length = n
  induction n using Nat.strongRecOn generalizing p with
  | ind n ih =>
    have hfirst : readString hsize d ⟨[], [p]⟩ =
        readString hsize d ⟨p.take size, takePiece size p []⟩ := by
      rw [readString_fill hsize (by rfl) (by simpa using hsize)]
      rfl
    rw [hfirst]
    have hsplit := List.take_append_drop size p
    cases hfound : upto d (p.take size) with
    | some found =>
      obtain ⟨line, rest⟩ := found
      have hline := congrArg List.length (upto_append hfound)
      rw [List.length_append, List.length_take] at hline
      have hreach : reach size d p = size := by
        rw [reach, ← hsplit, upto_append_some hfound]
        exact whole_of_le hsize (upto_pos hfound) (by omega)
      rw [readString_found hsize hfound, hreach]
      simp only [Reader.left, takePiece]
      split_ifs with hle
      · simp only [List.flatten_nil, List.length_nil]
        omega
      · simp only [List.flatten_cons, List.flatten_nil, List.append_nil, List.length_drop]
        omega
    | none =>
      by_cases hle : size < p.length
      · have htake : (p.take size).length = size := by
          rw [List.length_take]
          omega
        have hreach : reach size d p = size + reach size d (p.drop size) := by
          conv => lhs; rw [← hsplit]
          exact reach_append hsize hfound htake _
        have hpiece : takePiece size p [] = [p.drop size] := by
          rw [takePiece, if_neg (by omega)]
        have hdrop : (p.drop size).length = n - size := by
          rw [List.length_drop, hlen]
        have hrest := ih (n - size) (by omega) (p.drop size)
          (fun h => by rw [h] at hdrop; simp only [List.length_nil] at hdrop; omega) hdrop
        rw [readString_full hsize hfound (Nat.le_of_eq htake.symm), hpiece, hreach, hrest]
        omega
      · have hall : p.take size = p := List.take_of_length_le (by omega)
        have hreach : reach size d p = n := by
          rw [hall] at hfound
          rw [reach, hfound, hlen]
        have hpiece : takePiece size p [] = [] := by
          rw [takePiece, if_pos (by omega)]
        rw [hreach, hpiece, readString_none hsize (by simpa [Reader.unread] using hfound), Nat.sub_self]
        rfl

/-- A line that ends in the first pieces leaves the pieces behind them as they are. -/
theorem readString_behind (hsize : 0 < size) {r : Reader α} (h : (upto d r.unread).isSome)
    (more : List (List α)) :
    readString hsize d ⟨r.buf, r.conn ++ more⟩ =
      ((readString hsize d r).1,
        ⟨(readString hsize d r).2.buf, (readString hsize d r).2.conn ++ more⟩) := by
  fun_induction readString hsize d r with
  | case1 r line rest hfound =>
    exact readString_found hsize hfound
  | case2 r hnone hfull found ih =>
    rw [Reader.unread, upto_append_none hnone, Option.isSome_map] at h
    have hfirst := readString_full hsize (r := ⟨r.buf, r.conn ++ more⟩) hnone hfull
    rw [hfirst, ih h]
  | case3 r hnone hfull hconn =>
    rw [Reader.unread, hconn, List.flatten_nil, List.append_nil, hnone] at h
    cases h
  | case4 r hnone hfull p ps hconn ih =>
    have hunread : (⟨r.buf ++ p.take (size - r.buf.length),
        takePiece (size - r.buf.length) p ps⟩ : Reader α).unread = r.unread := by
      rw [Reader.unread, Reader.unread, hconn, List.append_assoc, take_append_takePiece,
        List.flatten_cons]
    rw [hunread] at ih
    rw [hconn, List.cons_append, readString_fill hsize hnone (Nat.not_le.mp hfull)]
    have hpiece : takePiece (size - r.buf.length) p (ps ++ more) =
        takePiece (size - r.buf.length) p ps ++ more := by
      unfold takePiece
      split_ifs <;> rfl
    rw [hpiece]
    exact ih h

end Read

end OpsMaxx.Streams
