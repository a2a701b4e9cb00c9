import Mathlib.Algebra.Order.Ring.Rat
import Mathlib.Data.Rat.Floor
import Mathlib.Data.List.Sort
import OpsMaxx.Strings.Words

/-!
# Generations and their names

A generation carries the second it was written in its name. Retention orders generations by that time, and
those with the same time by the name.
-/

set_option autoImplicit false

namespace OpsMaxx.Backup

open OpsMaxx.Strings

/-! ## Names -/

/-- A reading of a clock, by its fields in UTC. -/
structure Date where
  year : ℤ
  month : ℕ
  day : ℕ
  hour : ℕ
  minute : ℕ
  second : ℕ
  millis : ℕ
  month_valid : 1 ≤ month ∧ month ≤ 12
  day_valid : 1 ≤ day ∧ day ≤ 31
  time_valid : hour < 24 ∧ minute < 60 ∧ second < 60 ∧ millis < 1000

def digitChar (n : ℕ) : Char := Char.ofNat (48 + n % 10)

/-- The last digits of a number, with zeros in front. -/
def pad : ℕ → ℕ → Text
  | 0, _ => []
  | k + 1, n => pad k (n / 10) ++ [digitChar n]

/-- Six digits and a sign outside the four-digit years. -/
def isoYear (year : ℤ) : Text :=
  if 0 ≤ year ∧ year ≤ 9999 then pad 4 year.toNat
  else (if year < 0 then '-' else '+') :: pad 6 year.natAbs

def toISOString (d : Date) : Text :=
  isoYear d.year ++ ['-'] ++ pad 2 d.month ++ ['-'] ++ pad 2 d.day ++ ['T'] ++ pad 2 d.hour ++ [':'] ++
    pad 2 d.minute ++ [':'] ++ pad 2 d.second ++ ['.'] ++ pad 3 d.millis ++ ['Z']

def isDigit (c : Char) : Bool := 48 ≤ c.toNat && c.toNat ≤ 57

/-- `.replace(/\.\d{3}Z$/, 'Z')`. -/
def dropMillis (s : Text) : Text :=
  match s.reverse with
  | 'Z' :: a :: b :: c :: '.' :: rest =>
    if isDigit a && isDigit b && isDigit c then rest.reverse ++ ['Z'] else s
  | _ => s

def BACKUP_OBJECT_PREFIX : Text := "opsmaxx-".toList

def BACKUP_OBJECT_SUFFIX : Text := ".spbackup".toList

def backupObjectName (when' : Date) : Text :=
  let iso := dropMillis ((toISOString when').filter fun c => !(c == '-' || c == ':'))
  BACKUP_OBJECT_PREFIX ++ iso ++ BACKUP_OBJECT_SUFFIX

/-- `NAME_RE`, with its two groups. -/
def nameParts (name : Text) : Option (Text × Text) :=
  let d := (name.drop 8).take 8
  let t := (name.drop 17).take 6
  if name = BACKUP_OBJECT_PREFIX ++ d ++ ['T'] ++ t ++ ['Z'] ++ BACKUP_OBJECT_SUFFIX ∧ d.length = 8 ∧
      t.length = 6 ∧ (d ++ t).all isDigit then
    some (d, t)
  else none

def isBackupObjectName (name : Text) : Bool := (nameParts name).isSome

def number (s : Text) : ℕ := s.foldl (fun n c => 10 * n + (c.toNat - 48)) 0

/-- Days from 1970 to the first of a month. -/
def daysToMonth (year : ℤ) (month : ℕ) : ℤ :=
  let y := if month ≤ 2 then year - 1 else year
  let era := y / 400
  let yoe := y - era * 400
  let doy := (153 * (((month + 9) % 12 : ℕ) : ℤ) + 2) / 5
  era * 146097 + (yoe * 365 + yoe / 4 - yoe / 100 + doy) - 719468

/-- `Date.parse` of the fields. A day past the end of its month is one of the next. -/
def dateParse (year month day hour minute second : ℕ) : Option ℤ :=
  if 1 ≤ month ∧ month ≤ 12 ∧ 1 ≤ day ∧ day ≤ 31 ∧ minute < 60 ∧ second < 60 ∧
      (hour < 24 ∨ hour = 24 ∧ minute = 0 ∧ second = 0) then
    some ((((daysToMonth year month + day - 1) * 24 + hour) * 60 + minute) * 60000 + second * 1000)
  else none

def backupObjectTime (name : Text) : Option ℤ :=
  (nameParts name).bind fun p =>
    dateParse (number (p.1.take 4)) (number ((p.1.drop 4).take 2)) (number (p.1.drop 6))
      (number (p.2.take 2)) (number ((p.2.drop 2).take 2)) (number (p.2.drop 4))

example : backupObjectTime "opsmaxx-20240115T103000Z.spbackup".toList = some 1705314600000 := by
  decide +kernel

/-! ## Retention -/

structure BackupGeneration where
  name : Text
  size : ℕ
  modified : ℤ
  deriving DecidableEq

def withNameTimes (generations : List BackupGeneration) : List BackupGeneration :=
  generations.map fun g =>
    match backupObjectTime g.name with
    | none => g
    | some encoded => { g with modified := encoded }

/-- The newest first. Names of ours differ in digits only, where `localeCompare` is the order of the
digits. -/
def NewerFirst (a b : BackupGeneration) : Prop :=
  b.modified < a.modified ∨ a.modified = b.modified ∧ b.name ≤ a.name

instance : DecidableRel NewerFirst := fun a b =>
  inferInstanceAs (Decidable (b.modified < a.modified ∨ a.modified = b.modified ∧ b.name ≤ a.name))

inductive Refusal where
  | noLimit
  | onlyOne
  deriving DecidableEq

structure RetentionPlan where
  keep : List BackupGeneration
  remove : List BackupGeneration
  refused : Option Refusal
  deriving DecidableEq

/-- A limit that is not finite is `none`. -/
def planRetention (generations : List BackupGeneration) (keep : Option ℚ) : RetentionPlan :=
  let ours := generations.filter fun g => isBackupObjectName g.name
  let sorted := ours.insertionSort NewerFirst
  match keep.filter fun k => !decide (k ≤ 0) with
  | none => ⟨sorted, [], some .noLimit⟩
  | some k =>
    if sorted.length ≤ 1 then ⟨sorted, [], some .onlyOne⟩
    else
      let kept := sorted.take ⌊max 1 k⌋.toNat
      ⟨kept, sorted.drop kept.length, none⟩

/-!
## What a plan keeps

The name of a generation says the second it was written, and a plan keeps those before which few enough
others stand.
-/

/-! ## The second in a name -/

theorem digitChar_toNat (n : ℕ) : (digitChar n).toNat = 48 + n % 10 := by
  unfold digitChar
  have hlt := Nat.mod_lt n (Nat.succ_pos 9)
  have hv : (48 + n % 10).isValidChar := Or.inl (by omega)
  unfold Char.ofNat
  rw [dif_pos hv]
  rfl

theorem isDigit_digitChar (n : ℕ) : isDigit (digitChar n) = true := by
  unfold isDigit
  rw [digitChar_toNat]
  have hlt := Nat.mod_lt n (Nat.succ_pos 9)
  simp only [Bool.and_eq_true, decide_eq_true_iff]
  omega

theorem digitChar_ne (n : ℕ) {c : Char} (h : isDigit c = false) : (digitChar n == c) = false := by
  rw [beq_eq_false_iff_ne]
  intro heq
  rw [← heq, isDigit_digitChar] at h
  cases h

theorem number_digits (s : Text) (n : ℕ) : number (s ++ [digitChar n]) = 10 * number s + n % 10 := by
  unfold number
  rw [List.foldl_append]
  show 10 * _ + ((digitChar n).toNat - 48) = _
  rw [digitChar_toNat]
  omega

theorem number_pad (k n : ℕ) : number (pad k n) = n % 10 ^ k := by
  induction k generalizing n with
  | zero => simp [pad, number, Nat.mod_one]
  | succ k ih =>
    rw [pad, number_digits, ih, pow_succ, mul_comm (10 ^ k) 10, Nat.mod_mul]
    omega

/-- The second a reading is in. -/
def secondOf (d : Date) : ℤ :=
  (((daysToMonth d.year d.month + d.day - 1) * 24 + d.hour) * 60 + d.minute) * 60000 + d.second * 1000

/-- The date and the time of a reading, in digits. -/
def dateDigits (d : Date) : Text := pad 4 d.year.toNat ++ pad 2 d.month ++ pad 2 d.day

def timeDigits (d : Date) : Text := pad 2 d.hour ++ pad 2 d.minute ++ pad 2 d.second

theorem backupObjectName_eq {d : Date} (h : 0 ≤ d.year ∧ d.year ≤ 9999) :
    backupObjectName d =
      BACKUP_OBJECT_PREFIX ++ dateDigits d ++ ['T'] ++ timeDigits d ++ ['Z'] ++ BACKUP_OBJECT_SUFFIX := by
  have hdash : ∀ n, (digitChar n == '-') = false := fun n => digitChar_ne n (by decide)
  have hcolon : ∀ n, (digitChar n == ':') = false := fun n => digitChar_ne n (by decide)
  have hiso : dropMillis ((toISOString d).filter fun c => !(c == '-' || c == ':')) =
      dateDigits d ++ ['T'] ++ timeDigits d ++ ['Z'] := by
    unfold toISOString isoYear
    rw [if_pos h]
    simp [pad, hdash, hcolon, dropMillis, isDigit_digitChar, dateDigits, timeDigits]
  unfold backupObjectName
  rw [hiso]
  simp only [List.append_assoc]

theorem nameParts_name {d : Date} (h : 0 ≤ d.year ∧ d.year ≤ 9999) :
    nameParts (backupObjectName d) = some (dateDigits d, timeDigits d) := by
  rw [backupObjectName_eq h]
  unfold nameParts
  have hdate : ((BACKUP_OBJECT_PREFIX ++ dateDigits d ++ ['T'] ++ timeDigits d ++ ['Z'] ++
      BACKUP_OBJECT_SUFFIX).drop 8).take 8 = dateDigits d := rfl
  have htime : ((BACKUP_OBJECT_PREFIX ++ dateDigits d ++ ['T'] ++ timeDigits d ++ ['Z'] ++
      BACKUP_OBJECT_SUFFIX).drop 17).take 6 = timeDigits d := rfl
  simp only [hdate, htime]
  rw [if_pos]
  refine ⟨trivial, rfl, rfl, ?_⟩
  simp [dateDigits, timeDigits, pad, isDigit_digitChar]

/-- The name of a four-digit year reads back as its second. -/
theorem backupObjectTime_name {d : Date} (h : 0 ≤ d.year ∧ d.year ≤ 9999) :
    backupObjectTime (backupObjectName d) = some (secondOf d) := by
  have hm := d.month_valid
  have hd := d.day_valid
  have ht := d.time_valid
  have hyear : ((d.year.toNat : ℕ) : ℤ) = d.year := Int.toNat_of_nonneg h.1
  have hy : number ((dateDigits d).take 4) = d.year.toNat := by
    show number (pad 4 d.year.toNat) = _
    rw [number_pad]
    omega
  have hmonth : number (((dateDigits d).drop 4).take 2) = d.month := by
    show number (pad 2 d.month) = _
    rw [number_pad]
    omega
  have hday : number ((dateDigits d).drop 6) = d.day := by
    show number (pad 2 d.day) = _
    rw [number_pad]
    omega
  have hhour : number ((timeDigits d).take 2) = d.hour := by
    show number (pad 2 d.hour) = _
    rw [number_pad]
    omega
  have hminute : number (((timeDigits d).drop 2).take 2) = d.minute := by
    show number (pad 2 d.minute) = _
    rw [number_pad]
    omega
  have hsecond : number ((timeDigits d).drop 4) = d.second := by
    show number (pad 2 d.second) = _
    rw [number_pad]
    omega
  unfold backupObjectTime
  rw [nameParts_name h, Option.bind_some, hy, hmonth, hday, hhour, hminute, hsecond]
  unfold dateParse secondOf
  rw [if_pos ⟨hm.1, hm.2, hd.1, hd.2, ht.2.1, ht.2.2.1, Or.inl ht.1⟩, hyear]

/-- Our names have a `T` after the date. -/
theorem not_ours_of_sixteenth {name : Text} {c : Char} (h : name[16]? = some c) (hc : c ≠ 'T') :
    isBackupObjectName name = false := by
  unfold isBackupObjectName nameParts
  rw [if_neg]
  · rfl
  · intro ⟨hname, hlen, _⟩
    have hpre : (BACKUP_OBJECT_PREFIX ++ (name.drop 8).take 8).length = 16 := by
      rw [List.length_append, hlen]
      decide
    generalize (name.drop 8).take 8 = date at hname hpre
    generalize (name.drop 17).take 6 = time at hname
    rw [hname, List.append_assoc, List.append_assoc, List.append_assoc,
      List.getElem?_append_right hpre.le, hpre] at h
    exact hc (Option.some.inj h).symm

/-- A year of another length makes a name that is not ours. -/
theorem not_ours_of_year {d : Date} (h : ¬(0 ≤ d.year ∧ d.year ≤ 9999)) :
    isBackupObjectName (backupObjectName d) = false := by
  have hdash : ∀ n, (digitChar n == '-') = false := fun n => digitChar_ne n (by decide)
  have hcolon : ∀ n, (digitChar n == ':') = false := fun n => digitChar_ne n (by decide)
  have hT : ∀ n, digitChar n ≠ 'T' := fun n => by
    have hne := digitChar_ne (c := 'T') n (by decide)
    rwa [beq_eq_false_iff_ne] at hne
  have hiso : dropMillis ((toISOString d).filter fun c => !(c == '-' || c == ':')) =
      (if d.year < 0 then [] else ['+']) ++ pad 6 d.year.natAbs ++ pad 2 d.month ++ pad 2 d.day ++ ['T'] ++
        timeDigits d ++ ['Z'] := by
    unfold toISOString isoYear
    rw [if_neg h]
    split_ifs <;> simp [pad, hdash, hcolon, dropMillis, isDigit_digitChar, timeDigits]
  by_cases hneg : d.year < 0
  · have hat : (backupObjectName d)[16]? = some (digitChar (d.day / 10)) := by
      unfold backupObjectName
      rw [hiso, if_pos hneg]
      rfl
    exact not_ours_of_sixteenth hat (hT _)
  · have hat : (backupObjectName d)[16]? = some (digitChar d.month) := by
      unfold backupObjectName
      rw [hiso, if_neg hneg]
      rfl
    exact not_ours_of_sixteenth hat (hT _)

/-! ## The first of a sorted list -/

/-- An element stands among the first `n` of a list when fewer than `n` pass a test that all before it
pass. -/
theorem mem_take_of_countP {β : Type} {p : β → Bool} {x : β} {l : List β}
    (hbefore : l.Pairwise fun y z => z = x → p y = true) (hx : x ∈ l) {n : ℕ}
    (hcount : l.countP p < n) : x ∈ l.take n := by
  obtain ⟨before, after, rfl⟩ := List.append_of_mem hx
  have hall : ∀ y ∈ before, p y = true := fun y hy =>
    (List.pairwise_append.mp hbefore).2.2 y hy x List.mem_cons_self rfl
  rw [List.countP_append, List.countP_eq_length.mpr hall] at hcount
  rw [List.take_append]
  apply List.mem_append_right
  obtain ⟨k, hk⟩ : ∃ k, n - before.length = k + 1 := ⟨n - before.length - 1, by omega⟩
  rw [hk, List.take_succ_cons]
  exact List.mem_cons_self

/-! ## Plans -/

theorem newerFirst_total (a b : BackupGeneration) : NewerFirst a b ∨ NewerFirst b a := by
  unfold NewerFirst
  rcases lt_trichotomy a.modified b.modified with h | h | h
  · exact Or.inr (Or.inl h)
  · rcases List.le_total a.name b.name with hn | hn
    · exact Or.inr (Or.inr ⟨h.symm, hn⟩)
    · exact Or.inl (Or.inr ⟨h, hn⟩)
  · exact Or.inl (Or.inl h)

theorem newerFirst_trans (a b c : BackupGeneration) (h : NewerFirst a b) (h' : NewerFirst b c) :
    NewerFirst a c := by
  unfold NewerFirst at *
  rcases h with h | ⟨h, hn⟩
  · rcases h' with h' | ⟨h', _⟩
    · exact Or.inl (h'.trans h)
    · exact Or.inl (h' ▸ h)
  · rcases h' with h' | ⟨h', hn'⟩
    · exact Or.inl (h ▸ h')
    · exact Or.inr ⟨h.trans h', List.le_trans hn' hn⟩

instance : Std.Total NewerFirst := ⟨newerFirst_total⟩

instance : IsTrans BackupGeneration NewerFirst := ⟨newerFirst_trans⟩

def oursOf (generations : List BackupGeneration) : List BackupGeneration :=
  generations.filter fun g => isBackupObjectName g.name

theorem planRetention_eq (generations : List BackupGeneration) (keep : Option ℚ) :
    planRetention generations keep = match keep.filter fun k => !decide (k ≤ 0) with
      | none => ⟨(oursOf generations).insertionSort NewerFirst, [], some .noLimit⟩
      | some k =>
        if ((oursOf generations).insertionSort NewerFirst).length ≤ 1 then
          ⟨(oursOf generations).insertionSort NewerFirst, [], some .onlyOne⟩
        else
          ⟨((oursOf generations).insertionSort NewerFirst).take ⌊max 1 k⌋.toNat,
            ((oursOf generations).insertionSort NewerFirst).drop ⌊max 1 k⌋.toNat, none⟩ := by
  unfold planRetention
  cases keep.filter fun k => !decide (k ≤ 0) with
  | none => rfl
  | some k =>
    simp only [List.length_take, ← List.drop_eq_drop_min]
    rfl

theorem one_le_floor (k : ℚ) : 1 ≤ ⌊max 1 k⌋.toNat := by
  have hle : (1 : ℤ) ≤ ⌊max 1 k⌋ := Int.le_floor.mpr (by simp)
  omega

/-- A plan divides our generations, and never gives up all of them. -/
theorem plan_parts (generations : List BackupGeneration) (keep : Option ℚ) :
    ((planRetention generations keep).keep ++ (planRetention generations keep).remove).Perm
      (oursOf generations) ∧
    ((planRetention generations keep).remove ≠ [] → (planRetention generations keep).keep ≠ []) := by
  have hperm := List.perm_insertionSort NewerFirst (oursOf generations)
  rw [planRetention_eq]
  cases keep.filter fun k => !decide (k ≤ 0) with
  | none => exact ⟨by rwa [List.append_nil], fun h => absurd rfl h⟩
  | some k =>
    simp only
    split_ifs with hone
    · exact ⟨by rwa [List.append_nil], fun h => absurd rfl h⟩
    · refine ⟨by rwa [List.take_append_drop], fun _ hnil => ?_⟩
      rcases List.take_eq_nil_iff.mp hnil with h | h
      · have hfloor := one_le_floor k
        omega
      · rw [h] at hone
        exact hone (Nat.zero_le 1)

/-- What stands among the first is not removed. -/
theorem not_removed_of_countP {generations : List BackupGeneration} {keep : Option ℚ}
    (hnodup : (generations.map BackupGeneration.name).Nodup) {g : BackupGeneration} (hg : g ∈ generations)
    (hcount : ∀ k, keep.filter (fun k => !decide (k ≤ 0)) = some k →
      (oursOf generations).countP (fun g' => decide (NewerFirst g' g) && decide (g'.name ≠ g.name)) <
        ⌊max 1 k⌋.toNat) :
    g.name ∉ (planRetention generations keep).remove.map BackupGeneration.name := by
  have hperm := List.perm_insertionSort NewerFirst (oursOf generations)
  have hnames : (((oursOf generations).insertionSort NewerFirst).map BackupGeneration.name).Nodup :=
    (hperm.map _).nodup_iff.mpr (hnodup.sublist (List.filter_sublist.map _))
  rw [planRetention_eq]
  cases hkeep : keep.filter fun k => !decide (k ≤ 0) with
  | none => exact List.not_mem_nil
  | some k =>
    simp only
    split_ifs with hone
    · exact List.not_mem_nil
    · intro hmem
      obtain ⟨g', hg', hname⟩ := List.mem_map.mp hmem
      have hours : g' ∈ oursOf generations := hperm.subset (List.mem_of_mem_drop hg')
      have hsame : g' = g :=
        List.inj_on_of_nodup_map hnodup (List.mem_of_mem_filter hours) hg hname
      subst hsame
      have hbefore : ((oursOf generations).insertionSort NewerFirst).Pairwise fun y z => z = g' →
          (decide (NewerFirst y g') && decide (y.name ≠ g'.name)) = true := by
        have hsorted := List.pairwise_insertionSort NewerFirst (oursOf generations)
        refine (hsorted.and (List.pairwise_map.mp hnames)).imp fun {y z} hyz hz => ?_
        subst hz
        rw [Bool.and_eq_true, decide_eq_true_iff, decide_eq_true_iff]
        exact hyz
      have htake := mem_take_of_countP hbefore (List.mem_of_mem_drop hg')
        (hperm.countP_eq _ ▸ hcount k hkeep)
      have hsplit := List.take_append_drop ⌊max 1 k⌋.toNat
        ((oursOf generations).insertionSort NewerFirst)
      rw [← hsplit, List.map_append] at hnames
      exact (List.nodup_append.mp hnames).2.2 _ (List.mem_map_of_mem htake) _
        (List.mem_map_of_mem hg') rfl

end OpsMaxx.Backup
