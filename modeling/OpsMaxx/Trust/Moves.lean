import OpsMaxx.Machine.Run
import OpsMaxx.Trust.File

/-! # A server's move through synced copies

A move that arrives by sync is held until somebody here confirms it: the policy goes on asking for
the workspace this device had the server in. The copies of one server's moves follow one another,
each over what the one before left.
-/

set_option autoImplicit false

namespace OpsMaxx.Trust
open OpsMaxx OpsMaxx.Addy OpsMaxx.Machine

/-! ## One mark -/

section Marks
variable [Casing] [Digest]

/-- The mark of a record behind `markRecord`, from the mark before. -/
def nextMark (kind : HeldKind) (rec : Rec) (here : Option Rec) (prev : Option Mark) : Option Mark :=
  let mark : Mark :=
    { fields := markFields kind rec here ((prev.map Mark.fields).getD [])
      arrived := here.isNone || (prev.map Mark.arrived).getD false
      ws := match kind, here with
        | .server, some here => movedFrom prev rec here
        | _, _ => none }
  if mark.fields ≠ [] ∨ mark.ws ≠ none then some mark else prev

theorem marks_markRecord (kind : HeldKind) (rec : Rec) (here : Option Rec) (t : TrustFile)
    (k : HeldKind) (id : String) :
    (markRecord kind rec here t).marks k id =
      if k = kind ∧ id = rec.id then nextMark kind rec here (t.marks kind rec.id)
      else t.marks k id := by
  unfold markRecord nextMark
  by_cases hid : k = kind ∧ id = rec.id
  · obtain ⟨rfl, rfl⟩ := hid
    cases k <;> cases here <;> simp only [and_self, if_true] <;> split_ifs <;> simp
  · have hne : k ≠ kind ∨ id ≠ rec.id := by
      rw [← not_and_or]
      exact hid
    rw [if_neg hid]
    simp only
    split_ifs
    · exact TrustFile.setMark_marks_ne _ _ hne
    · rfl

/-- Among records of different ids, each leaves its own mark. -/
theorem marks_markRecords (kind : HeldKind) (recs : List Rec) (here : Rec → Option Rec)
    (t : TrustFile) (hnodup : (recs.map Rec.id).Nodup) (id : String) :
    (recs.foldl (fun t rec => markRecord kind rec (here rec) t) t).marks kind id =
      match recs.find? (·.id = id) with
      | some rec => nextMark kind rec (here rec) (t.marks kind id)
      | none => t.marks kind id := by
  induction recs generalizing t with
  | nil => rfl
  | cons rec recs ih =>
    rw [List.map_cons, List.nodup_cons] at hnodup
    rw [List.foldl_cons, ih _ hnodup.2]
    by_cases hid : rec.id = id
    · have hnone : recs.find? (·.id = id) = none := by
        rw [List.find?_eq_none]
        intro r hr
        rw [decide_eq_true_iff]
        rintro rfl
        exact hnodup.1 (hid ▸ List.mem_map_of_mem hr)
      rw [List.find?_cons_of_pos (by simpa using hid), hnone, marks_markRecord,
        if_pos ⟨rfl, hid.symm⟩, hid]
    · rw [List.find?_cons_of_neg (by simpa using hid), marks_markRecord,
        if_neg (fun h => hid h.2.symm)]

omit [Casing] [Digest] in
theorem nodup_of_acceptable {items : List Json} {seen : List String}
    (h : acceptable seen items = true) :
    ((recordsOf items).map Rec.id).Nodup ∧ ∀ id ∈ (recordsOf items).map Rec.id, id ∉ seen := by
  induction items generalizing seen with
  | nil => exact ⟨List.nodup_nil, by simp [recordsOf]⟩
  | cons item items ih =>
    unfold acceptable at h
    by_cases hobject : (object? (some item)).isNone
    · rw [if_pos hobject] at h
      have hnone : Rec.of? item = none := by
        cases item <;> first | rfl | simp [object?] at hobject
      have hrest : recordsOf (item :: items) = recordsOf items := List.filterMap_cons_none hnone
      rw [hrest]
      exact ih h
    · rw [if_neg hobject] at h
      split at h
      · rename_i id hid
        simp only [Bool.and_eq_true, Bool.not_eq_true', decide_eq_true_eq,
          List.contains_eq_mem, decide_eq_false_iff_not] at h
        obtain ⟨hnodup, hseen⟩ := ih h.2
        have hof : Rec.of? item = some ⟨item, id, hid⟩ := Rec.of?_eq_some.mpr rfl
        have hcons : recordsOf (item :: items) = ⟨item, id, hid⟩ :: recordsOf items :=
          List.filterMap_cons_some hof
        rw [hcons, List.map_cons]
        constructor
        · refine List.nodup_cons.mpr ⟨?_, hnodup⟩
          exact fun hmem => hseen id hmem List.mem_cons_self
        · intro i hi
          obtain rfl | hi := List.mem_cons.mp hi
          · exact h.1.2
          · exact fun hmem => hseen i hi (List.mem_cons_of_mem _ hmem)
      · cases h

omit [Casing] [Digest] in
/-- Where the ids differ, the last record of an id is its first. -/
theorem lastWith_eq_find? {recs : List Rec} (hnodup : (recs.map Rec.id).Nodup) (id : String) :
    lastWith recs id = recs.find? (·.id = id) := by
  unfold lastWith
  cases hfind : recs.find? (·.id = id) with
  | none =>
    rw [List.find?_eq_none] at hfind ⊢
    exact fun r hr => hfind r (List.mem_reverse.mp hr)
  | some r =>
    have hr := List.mem_of_find?_eq_some hfind
    have hid := List.find?_some hfind
    cases hlast : recs.reverse.find? (·.id = id) with
    | none => exact absurd hid (List.find?_eq_none.mp hlast r (List.mem_reverse.mpr hr))
    | some x =>
      have hx := List.mem_reverse.mp (List.mem_of_find?_eq_some hlast)
      have hxid := List.find?_some hlast
      rw [decide_eq_true_iff] at hid hxid
      rw [List.inj_on_of_nodup_map hnodup hx hr (hxid.trans hid.symm)]

omit [Casing] [Digest] in
theorem lastWith_id {recs : List Rec} {id : String} {r : Rec} (h : lastWith recs id = some r) :
    r ∈ recs ∧ r.id = id := by
  unfold lastWith at h
  exact ⟨List.mem_reverse.mp (List.mem_of_find?_eq_some h), by simpa using List.find?_some h⟩

/-- What a copy leaves of the mark of one record. -/
theorem marks_markAll (kind : HeldKind) (here incoming : List Json) (t : TrustFile)
    (h : acceptable [] incoming = true) (id : String) :
    (markAll kind here incoming t).marks kind id =
      match lastWith (recordsOf incoming) id with
      | some rec => nextMark kind rec (lastWith (recordsOf here) id) (t.marks kind id)
      | none => none := by
  have hnodup := (nodup_of_acceptable h).1
  have hfold := marks_markRecords kind (recordsOf incoming)
    (fun r => lastWith (recordsOf here) r.id) t hnodup id
  rw [← lastWith_eq_find? hnodup] at hfold
  unfold markAll
  simp only [true_and]
  cases hlast : lastWith (recordsOf incoming) id with
  | none =>
    rw [if_pos]
    intro hmem
    obtain ⟨r, hr, rfl⟩ := List.mem_map.mp hmem
    rw [lastWith_eq_find? hnodup, List.find?_eq_none] at hlast
    exact hlast r hr (by simp)
  | some rec =>
    obtain ⟨hmem, rfl⟩ := lastWith_id hlast
    rw [if_neg (not_not.mpr (List.mem_map_of_mem hmem)), hfold, hlast]

end Marks

/-! ## A device and what comes to it -/

section Runs
variable [Casing] [Digest]

structure Device where
  disk : TrustOnDisk
  data : Estate

def Device.servers (d : Device) : List Json := d.data .server

/-- A copy of the servers arrives, or somebody here edits the data. -/
inductive Event where
  | synced (incoming : List Json)
  | edited (data : Estate)

/-- A copy that is refused is no step. -/
def step (d : Device) : Event → Option Device
  | .synced incoming =>
    (markArrivals d.data .server d.servers incoming d.disk).map fun disk =>
      { disk := disk, data := Function.update d.data .server incoming }
  | .edited data => some { d with data := data }

/-- The `workspaceId` of a server, if there is such a server. -/
def wsOf (servers : List Json) (serverId : String) : Option String :=
  (lastWith (recordsOf servers) serverId).map fun r => str (r.item.get? "workspaceId")

/-- The server is in workspace `ws`. -/
def Sits (servers : List Json) (serverId ws : String) : Prop :=
  wsOf servers serverId = some ws ∧ ws ≠ ""

variable (serverId home : String)

/-- Wherever the server is now, the workspace this device had it in is still asked. -/
def OldRulesKept (d : Device) : Prop :=
  ∀ ws, Sits d.servers serverId ws → ws ≠ home →
    pendingWorkspace d.disk serverId ws = some home

/-- This device has the server in its workspace itself: no move of it is marked. -/
structure AtHome (d : Device) : Prop where
  sits : Sits d.servers serverId home
  readable : (read d.disk).unreadable = false
  unmarked : ((read d.disk).marks .server serverId).bind Mark.ws = none

/-- The workspace of the server is not edited here. -/
def NoLocalMove (d : Device) : Event → Prop
  | .synced _ => True
  | .edited data => wsOf (data .server) serverId = wsOf d.servers serverId

/-- The fields of the server arrive as they are here, and none was marked before. -/
def NothingElse (d : Device) (incoming : List Json) : Prop :=
  ∀ rec here, lastWith (recordsOf incoming) serverId = some rec →
    lastWith (recordsOf d.servers) serverId = some here →
    markFields .server rec (some here)
      ((((read d.disk).marks .server serverId).map Mark.fields).getD []) = []

/-- No copy brings the server back from being gone, or from no workspace, into a workspace other
than its own. One that puts it where the mark last had it, with nothing else to mark, does no
harm. -/
def Steady (d : Device) : Event → Prop
  | .synced incoming =>
    ∀ ws, Sits incoming serverId ws → (¬∃ mine, Sits d.servers serverId mine) →
      ws = home ∨ (∃ here, lastWith (recordsOf d.servers) serverId = some here) ∧
        pendingWorkspace d.disk serverId ws = some home ∧ NothingElse serverId d incoming
  | .edited _ => True

/-! ## One step -/

/-- Every mark of a move the server makes is of a move from home. -/
structure Threaded (d : Device) : Prop where
  readable : (read d.disk).unreadable = false
  marked : ∀ old new, ((read d.disk).marks .server serverId).bind Mark.ws = some (old, new) →
    old = home ∧ new ≠ ""
  kept : OldRulesKept serverId home d

variable {serverId home}

omit [Casing] [Digest] in
theorem pendingWorkspace_eq_some {disk : TrustOnDisk} (h : (read disk).unreadable = false)
    {ws old : String} :
    pendingWorkspace disk serverId ws = some old ↔
      ((read disk).marks .server serverId).bind Mark.ws = some (old, ws) := by
  unfold pendingWorkspace
  simp only [h, Bool.false_eq_true, if_false]
  cases ((read disk).marks .server serverId).bind Mark.ws with
  | none => simp
  | some move =>
    obtain ⟨from', to'⟩ := move
    simp only
    split_ifs with hto
    · simp [hto]
    · simp [hto]

omit [Casing] [Digest] in
/-- Over a server that is in a workspace here, the move is from home. -/
theorem movedFrom_home {d : Device} (h : Threaded serverId home d) {mine : String}
    (hhome : home ≠ "") (rec : Rec) {here : Rec}
    (hhere : lastWith (recordsOf d.servers) serverId = some here)
    (hsits : Sits d.servers serverId mine) :
    movedFrom ((read d.disk).marks .server serverId) rec here =
      (let goes := str (rec.item.get? "workspaceId")
       if goes ≠ "" ∧ home ≠ goes then some (home, goes) else none) := by
  have hmine : str (here.item.get? "workspaceId") = mine := by
    have hws := hsits.1
    unfold wsOf at hws
    rw [hhere] at hws
    exact Option.some.inj hws
  have hpending : mine ≠ home →
      ((read d.disk).marks .server serverId).bind Mark.ws = some (home, mine) :=
    fun hne => (pendingWorkspace_eq_some h.readable).mp (h.kept mine hsits hne)
  unfold movedFrom
  cases hmark : ((read d.disk).marks .server serverId).bind Mark.ws with
  | none =>
    have hathome : mine = home := by
      by_contra hne
      rw [hpending hne] at hmark
      cases hmark
    simp only [hmine, hathome, ne_eq, hhome, not_false_eq_true, true_and]
  | some move =>
    obtain ⟨old, new⟩ := move
    obtain ⟨rfl, -⟩ := h.marked old new hmark
    have hcame : (if new = mine then old else mine) = old := by
      split_ifs with hnew
      · rfl
      · by_contra hne
        rw [hpending hne] at hmark
        cases hmark
        exact hnew rfl
    simp only [hmine, hcame, ne_eq, hhome, not_false_eq_true, true_and]

omit [Casing] [Digest] in
/-- Over a server that is in no workspace here, nothing is a move. -/
theorem movedFrom_nowhere {prev : Option Mark} {rec here : Rec}
    (hhere : str (here.item.get? "workspaceId") = "")
    (hnew : ∀ old new, prev.bind Mark.ws = some (old, new) → new ≠ "") :
    movedFrom prev rec here = none := by
  unfold movedFrom
  cases hmark : prev.bind Mark.ws with
  | none => simp [hhere]
  | some move =>
    obtain ⟨old, new⟩ := move
    simp [hhere, hnew old new hmark]

/-- A record that was not here marks its fields. -/
theorem markFields_new (rec : Rec) (prev : Fields) : markFields .server rec none prev ≠ [] := by
  intro hnil
  obtain ⟨hbrings, -⟩ := markFields_eq_nil hnil "host"
  simp [brings, fieldNow, fieldsNow, fieldsOf] at hbrings

theorem nextMark_ws_none {rec : Rec} {here : Option Rec} {prev : Option Mark}
    (hmove : ∀ l, here = some l → movedFrom prev rec l = none) :
    (nextMark .server rec here prev).bind Mark.ws =
      if markFields .server rec here ((prev.map Mark.fields).getD []) = [] then prev.bind Mark.ws
      else none := by
  have hws : (match HeldKind.server, here with
      | .server, some here => movedFrom prev rec here
      | _, _ => none) = none := by
    cases here with
    | none => rfl
    | some l => exact hmove l rfl
  unfold nextMark
  cases here with
  | none =>
    by_cases hnil : markFields .server rec none ((prev.map Mark.fields).getD []) = []
    · simp [hnil]
    · simp [hnil]
  | some l =>
    simp only [hmove l rfl]
    by_cases hnil : markFields .server rec (some l) ((prev.map Mark.fields).getD []) = []
    · simp [hnil]
    · simp [hnil]

theorem nextMark_ws_some {rec here : Rec} {prev : Option Mark} {move : String × String}
    (hmove : movedFrom prev rec here = some move) :
    (nextMark .server rec (some here) prev).bind Mark.ws = some move := by
  unfold nextMark
  simp [hmove]

theorem step_synced (serverId : String) {d d' : Device} {incoming : List Json} (h : (read d.disk).unreadable = false)
    (hstep : step d (.synced incoming) = some d') :
    d'.servers = incoming ∧ (read d'.disk).unreadable = false ∧
      (read d'.disk).marks .server serverId =
        match lastWith (recordsOf incoming) serverId with
        | some rec => nextMark .server rec (lastWith (recordsOf d.servers) serverId)
            ((read d.disk).marks .server serverId)
        | none => none := by
  unfold step markArrivals at hstep
  by_cases haccept : acceptable [] incoming = true
  · simp only [if_pos haccept] at hstep
    obtain rfl := Option.some.inj hstep
    have hopened : opened d.data d.disk = read d.disk := by
      unfold opened
      rw [h]
      rfl
    refine ⟨?_, ?_, ?_⟩
    · simp [Device.servers]
    · simp only [mutate_eq, unreadable_read_saved]
    · rw [← marks_markAll .server d.servers incoming (read d.disk) haccept serverId]
      simp only [mutate_eq, hopened]
      rfl
  · simp only [if_neg haccept] at hstep
    cases hstep

/-- What one copy does: the marks stay threaded to home, and the old rules are kept exactly when the
copy is steady. -/
theorem synced_iff_steady {d d' : Device} {incoming : List Json} (h : Threaded serverId home d)
    (hhome : home ≠ "") (hstep : step d (.synced incoming) = some d') :
    (∀ old new, ((read d'.disk).marks .server serverId).bind Mark.ws = some (old, new) →
        old = home ∧ new ≠ "") ∧
      (OldRulesKept serverId home d' ↔ Steady serverId home d (.synced incoming)) := by
  obtain ⟨hservers, hreadable, hmarks⟩ := step_synced serverId h.readable hstep
  have hkept : OldRulesKept serverId home d' ↔ ∀ ws, Sits incoming serverId ws → ws ≠ home →
      ((read d'.disk).marks .server serverId).bind Mark.ws = some (home, ws) := by
    unfold OldRulesKept
    simp only [hservers, pendingWorkspace_eq_some hreadable]
  rw [hkept]
  unfold Steady
  cases hrec : lastWith (recordsOf incoming) serverId with
  | none =>
    have hgone : ∀ ws, ¬Sits incoming serverId ws := by
      intro ws hsits
      have hws := hsits.1
      unfold wsOf at hws
      rw [hrec] at hws
      cases hws
    rw [hrec] at hmarks
    rw [hmarks]
    refine ⟨fun old new hws => absurd hws (by simp), ?_⟩
    exact ⟨fun _ ws hsits => absurd hsits (hgone ws), fun _ ws hsits => absurd hsits (hgone ws)⟩
  | some rec =>
    rw [hrec] at hmarks
    have hsits : ∀ ws, Sits incoming serverId ws ↔
        str (rec.item.get? "workspaceId") = ws ∧ ws ≠ "" := by
      intro ws
      unfold Sits wsOf
      rw [hrec, Option.map_some, Option.some.injEq]
    simp only [hmarks, hsits]
    cases hhere : lastWith (recordsOf d.servers) serverId with
    | none =>
      have hnone : ∀ mine, ¬Sits d.servers serverId mine := by
        intro mine hmine
        have hws := hmine.1
        unfold wsOf at hws
        rw [hhere] at hws
        cases hws
      rw [nextMark_ws_none (fun l hl => by cases hl), if_neg (markFields_new _ _)]
      refine ⟨fun old new hws => absurd hws (by simp), ?_⟩
      constructor
      · intro hall ws hws _
        by_contra hne
        rw [not_or] at hne
        exact absurd (hall ws hws hne.1) (by simp)
      · intro hall ws hws hne
        obtain heq | ⟨⟨l, hl⟩, -⟩ := hall ws hws (fun ⟨mine, hmine⟩ => hnone mine hmine)
        · exact absurd heq hne
        · cases hl
    | some here =>
      have hmine : ∀ mine, Sits d.servers serverId mine ↔
          str (here.item.get? "workspaceId") = mine ∧ mine ≠ "" := by
        intro mine
        unfold Sits wsOf
        rw [hhere, Option.map_some, Option.some.injEq]
      by_cases hnowhere : str (here.item.get? "workspaceId") = ""
      · have hmove : ∀ l, some here = some l →
            movedFrom ((read d.disk).marks .server serverId) rec l = none := by
          rintro l hl
          obtain rfl := Option.some.inj hl
          exact movedFrom_nowhere hnowhere fun old new hws => (h.marked old new hws).2
        have helse : NothingElse serverId d incoming ↔ markFields .server rec (some here)
            ((((read d.disk).marks .server serverId).map Mark.fields).getD []) = [] := by
          unfold NothingElse
          rw [hrec, hhere]
          constructor
          · exact fun hall => hall rec here rfl rfl
          · rintro hnil r l hr hl
            cases hr
            cases hl
            exact hnil
        have hnone : ¬∃ mine, Sits d.servers serverId mine := by
          rintro ⟨mine, hsit⟩
          obtain ⟨rfl, hne⟩ := (hmine mine).mp hsit
          exact hne hnowhere
        rw [nextMark_ws_none hmove]
        simp only [helse, pendingWorkspace_eq_some h.readable]
        split_ifs with hnil
        · refine ⟨h.marked, ?_⟩
          constructor
          · intro hall ws hws _
            by_cases heq : ws = home
            · exact Or.inl heq
            · exact Or.inr ⟨⟨here, rfl⟩, hall ws hws heq, hnil⟩
          · intro hall ws hws hne
            obtain heq | ⟨-, hpending, -⟩ := hall ws hws hnone
            · exact absurd heq hne
            · exact hpending
        · refine ⟨fun old new hws => absurd hws (by simp), ?_⟩
          constructor
          · intro hall ws hws _
            by_cases heq : ws = home
            · exact Or.inl heq
            · exact absurd (hall ws hws heq) (by simp)
          · intro hall ws hws hne
            obtain heq | ⟨-, -, hnil'⟩ := hall ws hws hnone
            · exact absurd heq hne
            · exact absurd hnil' hnil
      · have hsit : Sits d.servers serverId (str (here.item.get? "workspaceId")) :=
          (hmine _).mpr ⟨rfl, hnowhere⟩
        have hmove := movedFrom_home h hhome rec hhere hsit
        simp only at hmove
        have hsteady : ∃ mine, Sits d.servers serverId mine := ⟨_, hsit⟩
        by_cases hgoes : str (rec.item.get? "workspaceId") ≠ "" ∧
            home ≠ str (rec.item.get? "workspaceId")
        · rw [if_pos hgoes] at hmove
          rw [nextMark_ws_some hmove]
          constructor
          · intro old new hws
            cases hws
            exact ⟨rfl, hgoes.1⟩
          · constructor
            · exact fun _ _ _ hno => absurd hsteady hno
            · rintro _ ws ⟨rfl, -⟩ -
              rfl
        · rw [if_neg hgoes] at hmove
          rw [nextMark_ws_none (fun l hl => by cases hl; exact hmove)]
          constructor
          · intro old new hws
            split_ifs at hws
            exact h.marked old new hws
          · constructor
            · exact fun _ _ _ hno => absurd hsteady hno
            · rintro _ ws ⟨rfl, hne⟩ hother
              exact absurd ⟨hne, Ne.symm hother⟩ hgoes

/-! ## Every run -/

theorem Threaded.step {d d' : Device} {e : Event} (h : Threaded serverId home d)
    (hhome : home ≠ "") (hstay : NoLocalMove serverId d e) (hsteady : Steady serverId home d e)
    (hstep : step d e = some d') : Threaded serverId home d' := by
  cases e with
  | synced incoming =>
    obtain ⟨hmarked, hkept⟩ := synced_iff_steady h hhome hstep
    exact ⟨(step_synced serverId h.readable hstep).2.1, hmarked, hkept.mpr hsteady⟩
  | edited data =>
    obtain rfl := Option.some.inj hstep
    refine ⟨h.readable, h.marked, ?_⟩
    intro ws hsits hne
    apply h.kept ws _ hne
    refine ⟨?_, hsits.2⟩
    rw [← hstay]
    exact hsits.1

omit [Casing] [Digest] in
theorem AtHome.threaded {d : Device} (h : AtHome serverId home d) : Threaded serverId home d := by
  constructor
  · exact h.readable
  · intro old new hws
    rw [h.unmarked] at hws
    cases hws
  · intro ws hsits hne
    exact absurd (Option.some.inj (hsits.1.symm.trans h.sits.1)) hne

/-- From a device that has the server in its workspace itself, in every run of copies and edits
without a local move and in which every copy is steady, the old workspace is still asked wherever
the server has been moved. -/
theorem old_rules_kept {d d' : Device} {es : List Event} (hstart : AtHome serverId home d)
    (hrun : Run step (fun d e => NoLocalMove serverId d e ∧ Steady serverId home d e) d es d') :
    OldRulesKept serverId home d' :=
  (hrun.invariant hstart.threaded
    fun _ _ _ h hok hstep => h.step hstart.sits.2 hok.1 hok.2 hstep).kept

end Runs

/-! ## One server, three workspaces -/

section Concrete

@[reducible] def noDigest : Digest := digestOf []

attribute [local instance] asciiCasing noDigest

def serverIn (ws : String) : List Json :=
  [.obj [("id", .str "web"), ("host", .str "10.0.0.7"), ("workspaceId", .str ws)]]

def atProd : Device where
  disk := .absent
  data := fun kind => if kind = .server then serverIn "prod" else []

theorem atProd_atHome : AtHome "web" "prod" atProd := by
  refine ⟨⟨by decide +kernel, by decide⟩, rfl, rfl⟩

/-- Moved twice, and asked for by the rules it had first. -/
theorem old_rules_kept_twice :
    ∃ d, Run step (fun d e => NoLocalMove "web" d e ∧ Steady "web" "prod" d e) atProd
        [.synced (serverIn "staging"), .synced (serverIn "lab")] d ∧
      pendingWorkspace d.disk "web" "lab" = some "prod" := by
  have hsteady : ∀ {d : Device} {incoming : List Json} (mine : String),
      wsOf d.servers "web" = some mine → mine ≠ "" →
        Steady "web" "prod" d (.synced incoming) :=
    fun _ hmine hne _ _ hno => absurd ⟨_, hmine, hne⟩ hno
  have h₀ : Run step (fun d e => NoLocalMove "web" d e ∧ Steady "web" "prod" d e) atProd [] atProd :=
    .refl _
  have h₁ := h₀.next (m := Event.synced (serverIn "staging"))
    ⟨trivial, hsteady "prod" (by decide +kernel) (by decide)⟩ rfl
  have h₂ := h₁.next (m := Event.synced (serverIn "lab"))
    ⟨trivial, hsteady "staging" (by decide +kernel) (by decide)⟩ rfl
  refine ⟨_, h₂, ?_⟩
  exact old_rules_kept atProd_atHome h₂ "lab" ⟨by decide +kernel, by decide⟩ (by decide)

/-- A copy without the server, and the next with it in another workspace: nothing is pending. -/
theorem old_rules_lost :
    ¬∀ (d : Device) (es : List Event) (d' : Device), AtHome "web" "prod" d →
      Run step (fun d e => NoLocalMove "web" d e) d es d' → OldRulesKept "web" "prod" d' := by
  intro hall
  have h₀ : Run step (fun d e => NoLocalMove "web" d e) atProd [] atProd := .refl _
  have h₁ := h₀.next (m := Event.synced []) trivial rfl
  have h₂ := h₁.next (m := Event.synced (serverIn "lab")) trivial rfl
  have hpending := hall _ _ _ atProd_atHome h₂ "lab" ⟨by decide +kernel, by decide⟩ (by decide)
  revert hpending
  decide +kernel

end Concrete

end OpsMaxx.Trust
