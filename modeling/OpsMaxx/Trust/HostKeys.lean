import Mathlib.Data.List.Dedup
import OpsMaxx.Trust.Moves
import OpsMaxx.Trust.Prompts

/-!
# Host keys that arrive with a copy

The known-hosts file is synced. Before a copy replaces it, every entry the copy adds, changes or
takes away is marked with the fingerprint this device had for it; the write behind the marks may
still fail. A mark is the only thing left of what this device had accepted.
-/

set_option autoImplicit false

namespace OpsMaxx.Trust.HostKeys
open OpsMaxx.Addy OpsMaxx.Machine
open Prompts (hostKeyExpected clearHostKeyMark)

/-! ## Marking -/

/-- `Object.keys`. -/
def keysOf (map : Json) : List String := ((spread map).map Prod.fst).dedup

theorem nodup_keysOf (map : Json) : (keysOf map).Nodup := List.nodup_dedup _

/-- The fingerprint a known-hosts file has for `id`. -/
def fpOf (map : Json) (id : String) : Option String :=
  match ((spread map).lookup id).bind fun entry => entry.get? "fingerprint" with
  | some (.str fp) => some fp
  | _ => none

/-- The mark of an entry of the copy. One that is marked already keeps what this device had before
the first synced change. -/
def arrivedMark (mine theirs : Option String) (prev : Option HostMark) : Option HostMark :=
  match theirs with
  | none => prev
  | some fp =>
    if fp = "" ∨ some fp = mine then prev
    else
      let before := match prev with
        | some mark => if mark.speaksOf mine then mark.mine else mine
        | none => mine
      some ⟨fp, before.filter (· ≠ "")⟩

/-- An entry the copy takes away keeps what this device had. -/
def removedMark (mine theirs : Option String) (prev : Option HostMark) : Option HostMark :=
  match mine, theirs, prev with
  | some fp, none, none => if fp = "" then none else some ⟨REMOVED, some fp⟩
  | _, _, _ => prev

def markHostKeys (here incoming : Json) (t : TrustFile) : TrustFile :=
  let t := (keysOf incoming).foldl (fun t id =>
    t.setHostKey id (arrivedMark (fpOf here id) (fpOf incoming id) (t.hostKeys id))) t
  (keysOf here).foldl (fun t id =>
    t.setHostKey id (removedMark (fpOf here id) (fpOf incoming id) (t.hostKeys id))) t

/-! ## One entry -/

variable {id : String} {own : Option String}

/-- What an entry and its mark say together. -/
def agreed (mark : Option HostMark) (entry : Option String) : Option String :=
  match mark with
  | some mark => if mark.speaksOf entry then mark.mine else entry
  | none => entry

@[simp] theorem removedMark_some (mine theirs : Option String) (mark : HostMark) :
    removedMark mine theirs (some mark) = some mark := by
  cases mine <;> cases theirs <;> rfl

variable (own) in
/-- The mark of a removal that did not land has the entry's own fingerprint. -/
structure Kept (entry : Option String) (mark : Option HostMark) : Prop where
  agrees : agreed mark entry = own
  nonempty : entry ≠ some ""
  removal : ∀ m fp, mark = some m → m.fp = REMOVED → entry = some fp → fp = REMOVED ∨ m.mine = some fp

theorem arrivedMark_new {entry : Option String} {mark : Option HostMark} {fp : String}
    (h : agreed mark entry = own) (hown : own ≠ some "") (hfp : fp ≠ "") (hne : some fp ≠ entry) :
    arrivedMark entry (some fp) mark = some ⟨fp, own⟩ := by
  have hfilter : own.filter (· ≠ "") = own := by
    cases own with
    | none => rfl
    | some x => simpa using hown
  unfold arrivedMark
  simp only
  rw [if_neg (by simp [hfp, hne])]
  change some (⟨fp, (agreed mark entry).filter (· ≠ "")⟩ : HostMark) = _
  rw [h, hfilter]

theorem Kept.removed {fp : String} (hown : own = some fp) (hfp : fp ≠ "") (entry : Option String)
    (hentry : entry = none ∨ entry = some fp) : Kept own entry (some ⟨REMOVED, some fp⟩) where
  agrees := by
    subst hown
    obtain rfl | rfl := hentry
    · simp [agreed, HostMark.speaksOf]
    · by_cases hsame : REMOVED = fp <;> simp [agreed, HostMark.speaksOf, hsame]
  nonempty := by
    obtain rfl | rfl := hentry <;> simp [hfp]
  removal m x hm _ hx := by
    obtain rfl := Option.some.inj hm
    obtain rfl | rfl := hentry
    · cases hx
    · exact .inr hx

theorem Kept.landed {entry theirs : Option String} {mark : Option HostMark}
    (h : Kept own entry mark) (hown : own ≠ some "") (hfp : theirs ≠ some "")
    (hgone : theirs = none → entry = none ∨ ∀ m, mark = some m →
      m.fp = REMOVED ∨ (m.speaksOf entry = true ∧ m.mine = none)) :
    Kept own theirs (removedMark entry theirs (arrivedMark entry theirs mark)) := by
  cases theirs with
  | none =>
    cases entry with
    | none => exact h
    | some fp =>
      cases mark with
      | none =>
        have hne : fp ≠ "" := fun hfp => h.nonempty (congrArg some hfp)
        simpa [removedMark, arrivedMark, hne] using Kept.removed h.agrees.symm hne none (.inl rfl)
      | some m =>
        have hm := (hgone rfl).resolve_left (Option.some_ne_none fp) m rfl
        refine ⟨?_, by simp, fun _ _ _ _ hx => by cases hx⟩
        have hagrees := h.agrees
        -- a mark of a removal speaks of the gap; any other was of an entry this device never had
        obtain hm | ⟨hspeaks, hmine⟩ := hm
        · obtain rfl | hmine := h.removal m fp rfl hm rfl
          · simpa [removedMark, arrivedMark, agreed, HostMark.speaksOf, hm] using hagrees
          · simp only [agreed, hmine, ite_self] at hagrees
            simpa [removedMark, arrivedMark, agreed, HostMark.speaksOf, hm, hmine] using hagrees
        · simp only [agreed, hspeaks, if_true, hmine] at hagrees
          simpa [removedMark, arrivedMark, agreed, hmine] using hagrees
  | some fp =>
    by_cases hsame : some fp = entry
    · subst hsame
      simpa [removedMark, arrivedMark] using h
    · rw [arrivedMark_new h.agrees hown (fun he => hfp (congrArg some he)) hsame, removedMark_some]
      refine ⟨?_, hfp, fun m x hm hr hx => .inl ?_⟩
      · simp [agreed, HostMark.speaksOf]
      · obtain rfl := Option.some.inj hm
        rw [← Option.some.inj hx]
        exact hr

theorem Kept.failed {entry theirs : Option String} {mark : Option HostMark}
    (h : Kept own entry mark) (hown : own ≠ some "")
    (hsame : ∀ fp m, theirs = some fp → mark = some m → fp = "" ∨ some fp = entry ∨
      (m.speaksOf entry = true → m.mine = entry)) :
    Kept own entry (removedMark entry theirs (arrivedMark entry theirs mark)) := by
  cases theirs with
  | none =>
    cases entry with
    | none => exact h
    | some fp =>
      cases mark with
      | none =>
        have hne : fp ≠ "" := fun hfp => h.nonempty (congrArg some hfp)
        simpa [removedMark, arrivedMark, hne] using Kept.removed h.agrees.symm hne _ (.inr rfl)
      | some m => exact h
  | some fp =>
    by_cases hskip : fp = "" ∨ some fp = entry
    · simpa [removedMark, arrivedMark, hskip] using h
    · obtain ⟨hfp, hne⟩ := not_or.mp hskip
      have hentry : own = entry := by
        have hagrees := h.agrees
        cases mark with
        | none => exact hagrees.symm
        | some m =>
          have hmine := ((hsame fp m rfl rfl).resolve_left hfp).resolve_left hne
          by_cases hspeaks : m.speaksOf entry = true
          · rw [← hagrees, agreed, if_pos hspeaks, hmine hspeaks]
          · rw [← hagrees, agreed, if_neg hspeaks]
      rw [arrivedMark_new h.agrees hown hfp hne, removedMark_some]
      subst hentry
      refine ⟨?_, h.nonempty, fun m x hm _ hx => .inr ?_⟩
      · simp [agreed]
      · obtain rfl := Option.some.inj hm
        exact hx

/-! ## All entries -/

theorem hostKeys_foldl (mark : String → Option HostMark → Option HostMark) {ids : List String}
    (hnodup : ids.Nodup) (t : TrustFile) :
    (ids.foldl (fun t k => t.setHostKey k (mark k (t.hostKeys k))) t).hostKeys id =
      if id ∈ ids then mark id (t.hostKeys id) else t.hostKeys id := by
  induction ids generalizing t with
  | nil => rfl
  | cons k ids ih =>
    obtain ⟨hk, hnodup⟩ := List.nodup_cons.mp hnodup
    rw [List.foldl_cons, ih hnodup]
    by_cases hid : id = k
    · subst hid
      simp [hk]
    · simp [TrustFile.setHostKey, hid]

theorem fpOf_none {map : Json} (h : id ∉ keysOf map) : fpOf map id = none := by
  have hlookup : (spread map).lookup id = none := by
    rw [List.lookup_eq_none_iff]
    intro e he
    simp only [bne_iff_ne, ne_eq]
    rintro rfl
    exact h (List.mem_dedup.mpr (List.mem_map_of_mem he))
  rw [fpOf, hlookup]
  rfl

theorem hostKeys_markHostKeys (here incoming : Json) (t : TrustFile) :
    (markHostKeys here incoming t).hostKeys id =
      removedMark (fpOf here id) (fpOf incoming id)
        (arrivedMark (fpOf here id) (fpOf incoming id) (t.hostKeys id)) := by
  unfold markHostKeys
  simp only
  rw [hostKeys_foldl (fun k => removedMark (fpOf here k) (fpOf incoming k)) (nodup_keysOf _),
    hostKeys_foldl (fun k => arrivedMark (fpOf here k) (fpOf incoming k)) (nodup_keysOf _)]
  have harrived : id ∉ keysOf incoming → ∀ prev,
      arrivedMark (fpOf here id) (fpOf incoming id) prev = prev := fun h _ => by
    rw [fpOf_none h]
    rfl
  have hremoved : id ∉ keysOf here → ∀ prev,
      removedMark (fpOf here id) (fpOf incoming id) prev = prev := fun h _ => by
    rw [fpOf_none h]
    rfl
  split_ifs with hhere hincoming hincoming
  · rfl
  · rw [harrived hincoming]
  · rw [hremoved hhere]
  · rw [hremoved hhere, harrived hincoming]

/-! ## Runs -/

section Runs
variable [Casing] [Digest]

def markHostKeyArrivals (data : Estate) (here incoming : Json) (disk : TrustOnDisk) : TrustOnDisk :=
  mutate data (markHostKeys here incoming) disk

structure Device where
  disk : TrustOnDisk
  knownHosts : Json

/-- A copy is marked and then lands or fails, or this device accepts or forgets a key itself and
rewrites the file. -/
inductive Event where
  | synced (data : Estate) (incoming : Json) (lands : Bool)
  | decided (id : String) (knownHosts : Json)

def step (d : Device) : Event → Option Device
  | .synced data incoming lands => some
      { disk := markHostKeyArrivals data d.knownHosts incoming d.disk
        knownHosts := if lands then incoming else d.knownHosts }
  | .decided id knownHosts => some ⟨clearHostKeyMark id d.disk, knownHosts⟩

variable (id own)

def Device.entry (d : Device) : Option String := fpOf d.knownHosts id
def Device.mark (d : Device) : Option HostMark := (read d.disk).hostKeys id

/-- The key this device holds the host to. -/
def Device.expected (d : Device) : Option String := hostKeyExpected (read d.disk) id (d.entry id)

/-- This device accepted `own` itself, or has no key of the host: nothing is marked. -/
structure Accepted (d : Device) : Prop where
  readable : (read d.disk).unreadable = false
  entry : d.entry id = own
  unmarked : d.mark id = none
  nonempty : own ≠ some ""

/-- No copy that lands has an empty fingerprint for the host, and none takes away an entry that is
marked, unless the mark is of a removal or this device had no key. No copy that fails would change an
entry that sync has changed. The keys this device accepts or forgets are other hosts'. -/
def Careful (d : Device) : Event → Prop
  | .synced _ incoming true =>
    fpOf incoming id ≠ some "" ∧
      (fpOf incoming id = none → d.entry id = none ∨ ∀ mark, d.mark id = some mark →
        mark.fp = REMOVED ∨ (mark.speaksOf (d.entry id) = true ∧ mark.mine = none))
  | .synced _ incoming false =>
    ∀ fp mark, fpOf incoming id = some fp → d.mark id = some mark →
      fp = "" ∨ some fp = d.entry id ∨
        (mark.speaksOf (d.entry id) = true → mark.mine = d.entry id)
  | .decided other knownHosts => other ≠ id ∧ fpOf knownHosts id = d.entry id

structure Held (d : Device) : Prop where
  readable : (read d.disk).unreadable = false
  kept : Kept own (d.entry id) (d.mark id)

variable {id own}

omit [Casing] [Digest] in
theorem Held.expected {d : Device} (h : Held id own d) : d.expected id = own := by
  unfold Device.expected hostKeyExpected
  rw [if_neg (by simp [h.readable])]
  exact h.kept.agrees

theorem Held.step {d d' : Device} {e : Event} (h : Held id own d) (hown : own ≠ some "")
    (hok : Careful id d e) (hstep : HostKeys.step d e = some d') : Held id own d' := by
  cases e with
  | synced data incoming lands =>
    obtain rfl := Option.some.inj hstep
    have hdisk : markHostKeyArrivals data d.knownHosts incoming d.disk =
        .saved (markHostKeys d.knownHosts incoming (read d.disk)) := by
      unfold markHostKeyArrivals
      rw [mutate_eq, opened, if_neg (by simp [h.readable])]
    refine ⟨by rw [hdisk]; rfl, ?_⟩
    unfold Device.entry Device.mark
    simp only [hdisk]
    change Kept own _ ((markHostKeys d.knownHosts incoming (read d.disk)).hostKeys id)
    rw [hostKeys_markHostKeys]
    cases lands with
    | true => exact h.kept.landed hown hok.1 hok.2
    | false => exact h.kept.failed hown hok
  | decided other knownHosts =>
    obtain rfl := Option.some.inj hstep
    obtain ⟨hother, hentry⟩ := hok
    have hmark : (read (clearHostKeyMark other d.disk)).hostKeys id = (read d.disk).hostKeys id := by
      unfold clearHostKeyMark
      split_ifs
      · exact Function.update_of_ne hother.symm _ _
      · rfl
    refine ⟨?_, ?_⟩
    · have hread := h.readable
      show (read (clearHostKeyMark other d.disk)).unreadable = false
      unfold clearHostKeyMark
      split_ifs
      · rfl
      · exact hread
    · unfold Device.entry Device.mark at *
      rw [hentry, hmark]
      exact h.kept

/-- From a device that accepted its key of a host itself, in every run of copies that land or fail
behind their marks and of decisions about other hosts, in which every copy is careful, the host is
held to that key, whatever the file says. -/
theorem own_key_expected {d d' : Device} {es : List Event} (hstart : Accepted id own d)
    (hrun : Run step (Careful id) d es d') : d'.expected id = own := by
  have hheld : Held id own d := by
    refine ⟨hstart.readable, ?_, ?_, ?_⟩
    · rw [hstart.unmarked, hstart.entry]
      rfl
    · rw [hstart.entry]
      exact hstart.nonempty
    · intro m _ hm
      rw [hstart.unmarked] at hm
      cases hm
  exact (hrun.invariant hheld fun _ _ _ h hok hstep => h.step hstart.nonempty hok hstep).expected

end Runs

/-! ## One host, three keys -/

section Concrete

attribute [local instance] asciiCasing noDigest

def keyOf (fp : String) : Json := .obj [("web:22", .obj [("fingerprint", .str fp)])]

def holdsOwn : Device := ⟨.absent, keyOf "SHA256:own"⟩

/-- Replaced twice, and held to the key it had first. -/
theorem own_key_expected_twice : ∃ d,
    Run step (Careful "web:22") holdsOwn
        [.synced (fun _ => []) (keyOf "SHA256:b") true, .synced (fun _ => []) (keyOf "SHA256:c") true]
        d ∧
      d.entry "web:22" = some "SHA256:c" ∧ d.expected "web:22" = some "SHA256:own" := by
  have hlands : ∀ {d : Device} {fp : String}, fp ≠ "" →
      fpOf (keyOf fp) "web:22" = some fp → Careful "web:22" d (.synced (fun _ => []) (keyOf fp) true) :=
    fun hne hfp => ⟨by simpa [hfp] using hne, fun hnone => by simp [hfp] at hnone⟩
  have h₀ : Run step (Careful "web:22") holdsOwn [] holdsOwn := .refl _
  have h₁ := h₀.next (m := Event.synced (fun _ => []) (keyOf "SHA256:b") true)
    (hlands (by decide) (by decide)) rfl
  have h₂ := h₁.next (m := Event.synced (fun _ => []) (keyOf "SHA256:c") true)
    (hlands (by decide) (by decide)) rfl
  exact ⟨_, h₂, by decide, own_key_expected ⟨rfl, by decide, rfl, by decide⟩ h₂⟩

end Concrete

end OpsMaxx.Trust.HostKeys
