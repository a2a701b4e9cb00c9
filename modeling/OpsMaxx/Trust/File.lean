import OpsMaxx.Addy.Payload
import Mathlib.Data.List.Infix

/-! # The fields that decide where a credential goes

Some records name a destination a credential is sent to, or the credential itself. `fieldsOf` is the
part of such a record that a synced change must not alter unasked, as named values; `hashOf` is how a
value is remembered without being copied.
-/

set_option autoImplicit false

namespace OpsMaxx.Trust

open OpsMaxx OpsMaxx.Addy

/-! ## Kinds of records -/

inductive HeldKind where
  | server | database | cicd | vpn
  deriving DecidableEq

namespace HeldKind

def name : HeldKind → String
  | server => "server"
  | database => "database"
  | cicd => "cicd"
  | vpn => "vpn"

end HeldKind

def KINDS : List HeldKind := [.server, .database, .cicd, .vpn]

/-! ## Values -/

/-- `String.prototype.toLowerCase`, whose table for letters beyond ASCII is left open. -/
class Casing where
  toLowerCase : String → String

/-- Lower case of ASCII letters only. -/
@[reducible] def asciiCasing : Casing := ⟨String.toLower⟩

def str : Option Json → String
  | some (.str s) => s
  | _ => ""

def isTrue : Option Json → Bool
  | some (.bool b) => b
  | _ => false

def isFalse : Option Json → Bool
  | some (.bool b) => !b
  | _ => false

/-- Whether a value counts as true in a condition. -/
def truthy : Option Json → Bool
  | none | some .null | some (.bool false) => false
  | some (.num n) => n.mantissa ≠ 0
  | some (.str s) => s ≠ ""
  | _ => true

/-- A value that is an object, arrays included. -/
def object? : Option Json → Option Json
  | some (.obj fields) => some (.obj fields)
  | some (.arr items) => some (.arr items)
  | _ => none

/-- The own fields `{ ...v }` copies. -/
def spread : Json → List (String × Json)
  | .obj fields => fields
  | .arr items => items.mapIdx fun i v => (toString i, v)
  | .str s => (utf16 s).mapIdx fun i n => (toString i, .str (String.singleton (unitChar n)))
  | _ => []

/-- Stable JSON: object keys sorted. -/
def stable (v : Option Json) : String := String.ofList (canonical (v.getD .null))

/-- The string without the slashes it ends in. -/
def stripSlashes (s : String) : String :=
  String.ofList (s.toList.reverse.dropWhile (· = '/')).reverse

/-- A VPN spec as one string, without what belongs to one machine. -/
def vpnConnectionKey (spec : Option Json) : String :=
  match object? spec with
  | none => stable spec
  | some v =>
    stable (some (.obj (deleteField (deleteField (deleteField (spread v) "binaryPath") "sourcePath")
      "strippedDirectives")))

/-! ## Fields -/

abbrev Fields := List (String × String)

section Fields
variable [Casing]

/-- Hosts and URLs compared the way a resolver would. -/
def norm (v : Option Json) : String := Casing.toLowerCase (trim (str v))

/-- The values that decide where a record's credential goes. -/
def fieldsOf (kind : HeldKind) (rec : Json) : Option Fields :=
  match kind with
  | .server =>
    let rdp := (object? (rec.get? "rdp")).getD (.obj [])
    some
      [("host", norm (rec.get? "host")),
        ("cloud", stable (rec.get? "cloud")),
        ("rdp", str (rdp.get? "kdcProxyUrl") ++ "|" ++
          (if isFalse (rdp.get? "nla") then "0" else "1") ++ "|" ++ str (rdp.get? "domain")),
        ("credential", str (rec.get? "vaultEntryId"))]
  | .database => some
      [("host", norm (rec.get? "host")),
        ("via", str (rec.get? "sshServerId")),
        ("container", str (rec.get? "container")),
        ("tls", if isTrue (rec.get? "ssl") then
          (if isFalse (rec.get? "tlsVerify") then "1-unverified" else "1") else "0"),
        ("vpn", str (rec.get? "vpnProfileId")),
        ("ws", str (rec.get? "workspaceId")),
        ("credential", if truthy (rec.get? "vaultEntryId") then
          (if isTrue (rec.get? "uri") then "u" else "p") ++ "|" ++ str (rec.get? "vaultEntryId")
          else "")]
  | .cicd => some
      [("url", str (rec.get? "provider") ++ "|" ++ stripSlashes (norm (rec.get? "baseUrl"))),
        ("user", str (rec.get? "username")),
        ("credential", str (rec.get? "vaultEntryId")),
        ("tls", (if isTrue (rec.get? "insecureTls") then "1" else "0") ++ "|" ++
          str (rec.get? "caPem")),
        ("route", stable (rec.get? "route")),
        ("ws", str (rec.get? "workspaceId"))]
  | .vpn =>
    match object? (rec.get? "spec") with
    | none => none
    | some spec =>
      let text := vpnConnectionKey (some spec)
      if "\"vaultEntryId\"".toList <:+: text.toList then
        some [("connection", text), ("ws", str (rec.get? "workspaceId"))]
      else none

/-- The fields of a record, none if it names no credential. -/
def fieldsNow (kind : HeldKind) (rec : Json) : Fields := (fieldsOf kind rec).getD []

theorem fieldsNow_nodup (kind : HeldKind) (rec : Json) :
    ((fieldsNow kind rec).map Prod.fst).Nodup := by
  unfold fieldsNow fieldsOf
  cases kind with
  | server | database | cicd => simp
  | vpn =>
    cases object? (rec.get? "spec") with
    | none => simp
    | some spec =>
      simp only
      split_ifs <;> simp

/-- A field of a record. -/
def fieldNow (kind : HeldKind) (rec : Json) (f : String) : Option String :=
  (fieldsNow kind rec).lookup f

end Fields

def hashOf [Digest] (kind : HeldKind) (id field value : String) : String :=
  String.ofList ((Digest.sha256 (.ofText (kind.name ++ "\x00" ++ id ++ "\x00" ++ field ++ "\x00" ++
    value))).toList.take 32)

/-! ## Records -/

/-- A record of one of the lists: an object whose id is a string. -/
structure Rec where
  item : Json
  id : String
  get_id : item.get? "id" = some (.str id)

def Rec.of? (item : Json) : Option Rec :=
  match h : item.get? "id" with
  | some (.str id) => some ⟨item, id, h⟩
  | _ => none

theorem Rec.of?_eq_some {item : Json} {r : Rec} : Rec.of? item = some r ↔ r.item = item := by
  constructor
  · intro h
    unfold Rec.of? at h
    split at h
    · rw [← Option.some.inj h]
    · cases h
  · rintro rfl
    have hid := r.get_id
    unfold Rec.of?
    split
    · next id h =>
      obtain rfl : r.id = id := by simpa using hid.symm.trans h
      rfl
    · next h => exact absurd hid (h r.id)

/-- `recordsOf`, of the list itself. -/
def recordsOf (items : List Json) : List Rec := items.filterMap Rec.of?

/-- The lists of a data file. -/
abbrev Estate := HeldKind → List Json

end OpsMaxx.Trust

/-! ## The trust file

Which synced changes nobody on this device has confirmed: a mark for each record, with a hash for
each of its fields, and a mark for each host key. `mutate` is how every change is made: it rebuilds a
file that is there and cannot be read, changes what it has and saves it.
-/

namespace OpsMaxx.Trust

open OpsMaxx OpsMaxx.Addy

/-! ## What the file holds -/

/-- The mark of a record: the hash of each field as it arrived, whether the record itself arrived,
and the workspaces a move went from and to. -/
structure Mark where
  fields : Fields
  arrived : Bool
  ws : Option (String × String)
  deriving DecidableEq

/-- The mark of a host key: the fingerprint sync wrote, and this device's own before. -/
structure HostMark where
  fp : String
  mine : Option String
  deriving DecidableEq

/-- The file, keyed as `kind:id`. Reading `hostKeys` finds its own keys only, which is so for every
id that is not a name all objects share. -/
structure TrustFile where
  marks : HeldKind → String → Option Mark
  hostKeys : String → Option HostMark
  linksSeeded : Bool
  unreadable : Bool

namespace TrustFile

def empty : TrustFile := ⟨fun _ _ => none, fun _ => none, false, false⟩

def setMark (t : TrustFile) (kind : HeldKind) (id : String) (mark : Option Mark) : TrustFile :=
  { t with marks := Function.update t.marks kind (Function.update (t.marks kind) id mark) }

def setHostKey (t : TrustFile) (id : String) (mark : Option HostMark) : TrustFile :=
  { t with hostKeys := Function.update t.hostKeys id mark }

@[simp] theorem setMark_marks_self (t : TrustFile) (kind : HeldKind) (id : String)
    (mark : Option Mark) : (t.setMark kind id mark).marks kind id = mark := by simp [setMark]

theorem setMark_marks_ne (t : TrustFile) {kind kind' : HeldKind} {id id' : String}
    (mark : Option Mark) (h : kind' ≠ kind ∨ id' ≠ id) :
    (t.setMark kind id mark).marks kind' id' = t.marks kind' id' := by
  by_cases hk : kind' = kind
  · subst hk
    simp [setMark, h.resolve_left (by simp)]
  · simp [setMark, hk]

@[simp] theorem setHostKey_self (t : TrustFile) (id : String) (mark : Option HostMark) :
    (t.setHostKey id mark).hostKeys id = mark := by simp [setHostKey]

end TrustFile

/-- The file as it lies on disk. -/
inductive TrustOnDisk where
  | absent
  | damaged
  | saved (t : TrustFile)

/-- What is read of it: a file that cannot be read could have held any mark. -/
def read : TrustOnDisk → TrustFile
  | .absent => .empty
  | .damaged => { TrustFile.empty with unreadable := true }
  | .saved t => { t with unreadable := false }

/-! ## Marking records -/

/-- `fields[f] = h`. -/
def putField (fields : Fields) (f h : String) : Fields := (f, h) :: fields.filter fun x => x.1 ≠ f

/-- The last record with this id, which is what a map of them holds. -/
def lastWith (records : List Rec) (id : String) : Option Rec := records.reverse.find? (·.id = id)

section Marking
variable [Casing] [Digest]

/-- The fields of a mark: those of `rec` that are not as they are `here`, over the older ones. -/
def markFields (kind : HeldKind) (rec : Rec) (here : Option Rec) (prev : Fields) : Fields :=
  (fieldsNow kind rec.item).foldl (fun fields x =>
    if here.isNone ∨ here.bind (fun l => fieldNow kind l.item x.1) ≠ some x.2 then
      putField fields x.1 (hashOf kind rec.id x.1 x.2)
    else fields) prev

/-- The workspace move of a server that is here already. -/
def movedFrom (prev : Option Mark) (rec here : Rec) : Option (String × String) :=
  let mine := str (here.item.get? "workspaceId")
  let came := match prev.bind Mark.ws with
    | some (old, new) => if new = mine then old else mine
    | none => mine
  let goes := str (rec.item.get? "workspaceId")
  if came ≠ "" ∧ goes ≠ "" ∧ came ≠ goes then some (came, goes) else none

/-- Mark what `rec` brings that this device's copy did not have. -/
def markRecord (kind : HeldKind) (rec : Rec) (here : Option Rec) (t : TrustFile) : TrustFile :=
  let prev := t.marks kind rec.id
  let mark : Mark :=
    { fields := markFields kind rec here ((prev.map Mark.fields).getD [])
      arrived := here.isNone || (prev.map Mark.arrived).getD false
      ws := match kind, here with
        | .server, some here => movedFrom prev rec here
        | _, _ => none }
  if mark.fields ≠ [] ∨ mark.ws ≠ none then t.setMark kind rec.id (some mark) else t

/-- Every current record marked as if it had just arrived. -/
def rebuilt (data : Estate) (t : TrustFile) : TrustFile :=
  KINDS.foldl (fun t kind =>
    (recordsOf (data kind)).foldl (fun t rec => markRecord kind rec none t) t) t

/-- Read, change, write, rebuilding a file that cannot be read. -/
def mutate (data : Estate) (change : TrustFile → TrustFile) (disk : TrustOnDisk) : TrustOnDisk :=
  let t := read disk
  if t.unreadable then .saved (change (rebuilt data { t with unreadable := false }))
  else .saved (change t)

/-- Whether every record of a list has an id of its own. -/
def acceptable (seen : List String) : List Json → Bool
  | [] => true
  | item :: rest =>
    if (object? (some item)).isNone then acceptable seen rest
    else
      match item.get? "id" with
      | some (.str id) => id ≠ "" && !seen.contains id && acceptable (id :: seen) rest
      | _ => false

/-- The marks `incoming` leaves over `here`; a record that is gone takes its mark with it. -/
def markAll (kind : HeldKind) (here incoming : List Json) (t : TrustFile) : TrustFile :=
  let theirs := recordsOf incoming
  let t := theirs.foldl (fun t rec =>
    markRecord kind rec (lastWith (recordsOf here) rec.id) t) t
  { t with marks := fun k id =>
      if k = kind ∧ id ∉ theirs.map Rec.id then none else t.marks k id }

/-- Sync is about to write `incoming` over `here`; none if the copy is refused. -/
def markArrivals (data : Estate) (kind : HeldKind) (here incoming : List Json)
    (disk : TrustOnDisk) : Option TrustOnDisk :=
  if acceptable [] incoming then some (mutate data (markAll kind here incoming) disk) else none

/-! ## Marking host keys -/

/-- Stands for "sync removed this entry". -/
def REMOVED : String := "-removed-"

/-- Whether a mark speaks of the fingerprint a file has. -/
def HostMark.speaksOf (mark : HostMark) (fp : Option String) : Bool :=
  some mark.fp = fp || (mark.fp = REMOVED && fp.isNone)

/-! ## Checking -/

/-- What a damaged file answers for a workspace. -/
def UNKNOWN_WORKSPACE : String := "\x00unknown-workspace"

/-- The workspace a server was in before a synced move that is unconfirmed. -/
def pendingWorkspace (disk : TrustOnDisk) (serverId currentWs : String) : Option String :=
  let t := read disk
  if t.unreadable then some UNKNOWN_WORKSPACE
  else
    match (t.marks .server serverId).bind Mark.ws with
    | some (old, new) => if new = currentWs then some old else none
    | none => none

end Marking

/-! ## What a change remembers -/

/-- A field that a filter on names keeps. -/
theorem lookup_filter (fields : Fields) {p : String → Bool} {f : String} (hf : p f = true) :
    (fields.filter fun x => p x.1).lookup f = fields.lookup f := by
  induction fields with
  | nil => rfl
  | cons x rest ih =>
    obtain ⟨g, h⟩ := x
    by_cases hg : p g = true
    · rw [List.filter_cons_of_pos (by exact hg), List.lookup_cons, List.lookup_cons, ih]
    · have hne : (f == g) = false := by
        simp only [beq_eq_false_iff_ne, ne_eq]
        rintro rfl
        exact hg hf
      rw [List.filter_cons_of_neg (by exact hg), List.lookup_cons, hne, ih]

theorem lookup_putField (fields : Fields) (f g h : String) :
    (putField fields f h).lookup g = if g = f then some h else fields.lookup g := by
  by_cases hg : g = f
  · simp [putField, hg]
  · have hne : (g == f) = false := by simpa using hg
    rw [if_neg hg, putField, List.lookup_cons, hne,
      ← lookup_filter fields (p := fun x => x ≠ f) (by simpa using hg)]

section Remembering
variable [Casing] [Digest]

/-- The hash a record brings for a field that is not as it is here. -/
def brings (kind : HeldKind) (rec : Rec) (here : Option Rec) (f : String) : Option String :=
  (fieldNow kind rec.item f).bind fun v =>
    if here.isNone ∨ here.bind (fun l => fieldNow kind l.item f) ≠ some v then
      some (hashOf kind rec.id f v)
    else none

theorem lookup_markFields (kind : HeldKind) (rec : Rec) (here : Option Rec) (prev : Fields)
    (f : String) :
    (markFields kind rec here prev).lookup f = (brings kind rec here f).or (prev.lookup f) := by
  have hnodup := fieldsNow_nodup kind rec.item
  unfold markFields brings fieldNow
  generalize fieldsNow kind rec.item = now at hnodup
  induction now generalizing prev with
  | nil => rfl
  | cons x now ih =>
    obtain ⟨hx, hnodup⟩ := List.nodup_cons.mp hnodup
    rw [List.foldl_cons, ih _ hnodup, List.lookup_cons]
    by_cases hf : f = x.1
    · subst hf
      have hnone : now.lookup x.1 = none := by
        rw [List.lookup_eq_none_iff]
        intro y hy
        simp only [bne_iff_ne, ne_eq]
        exact fun h => hx (h ▸ List.mem_map_of_mem hy)
      simp only [hnone, Option.bind_none, Option.none_or, beq_self_eq_true, Option.bind_some]
      split_ifs with h <;> simp [lookup_putField]
    · rw [show (f == x.1) = false by simpa using hf]
      split_ifs
      · rw [lookup_putField, if_neg hf]
      · rfl

theorem markFields_eq_nil {kind : HeldKind} {rec : Rec} {here : Option Rec} {prev : Fields}
    (h : markFields kind rec here prev = []) (f : String) :
    brings kind rec here f = none ∧ prev.lookup f = none := by
  have hl := lookup_markFields kind rec here prev f
  rw [h, List.lookup_nil] at hl
  cases hb : brings kind rec here f with
  | none => exact ⟨rfl, by simpa [hb] using hl.symm⟩
  | some v => simp [hb] at hl

/-- The file a change is made to. -/
def opened (data : Estate) (disk : TrustOnDisk) : TrustFile :=
  if (read disk).unreadable then rebuilt data { read disk with unreadable := false } else read disk

theorem mutate_eq (data : Estate) (change : TrustFile → TrustFile) (disk : TrustOnDisk) :
    mutate data change disk = .saved (change (opened data disk)) := by
  unfold mutate opened
  simp only
  split_ifs <;> rfl

end Remembering

@[simp] theorem unreadable_read_saved (t : TrustFile) : (read (.saved t)).unreadable = false := rfl

end OpsMaxx.Trust
