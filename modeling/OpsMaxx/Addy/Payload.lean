import OpsMaxx.Json.RoundTrip

/-! # Payloads

What one collection carries: bytes, usually the text of a JSON list of records with ids.

* `Buffer` with `ofText` and `toText`, the two conversions the code makes.
* `canonical` and `fingerprint`, the identity of a record.
* `asRecords` and `baseOf`, the records of a payload and the ancestor they make.
* `removesMost` and `isEmptyish`, the two questions a pass asks about a whole payload.
-/

set_option autoImplicit false

namespace OpsMaxx.Addy

open OpsMaxx

/-! ## Bytes -/

attribute [instance (high)] ByteArray.instDecidableEq

/-- A run of bytes: the UTF-8 text it spells, or the bytes themselves when they spell none. -/
inductive Buffer where
  | text (s : String)
  | binary (bytes : ByteArray) (h : ¬ bytes.IsValidUTF8)
  deriving DecidableEq

/-- `Buffer.from(s, 'utf8')`. -/
def Buffer.ofText (s : String) : Buffer := .text s

/-- The bytes that continue a character, read onto `acc`. The first of them has to lie between
`lo` and `hi`; a character cut short becomes one replacement character. -/
def decodeTail : Nat → Nat → UInt8 → UInt8 → List UInt8 → Char × List UInt8
  | 0, acc, _, _, bs => (Char.ofNat acc, bs)
  | _ + 1, _, _, _, [] => ('\uFFFD', [])
  | n + 1, acc, lo, hi, b :: bs =>
    if lo ≤ b ∧ b ≤ hi then decodeTail n (acc * 64 + b.toNat % 64) 0x80 0xBF bs
    else ('\uFFFD', b :: bs)

/-- One character, replaced if its first byte starts none. -/
def decodeChar (b : UInt8) (bs : List UInt8) : Char × List UInt8 :=
  if b < 0x80 then (Char.ofNat b.toNat, bs)
  else if b < 0xC2 then ('\uFFFD', bs)
  else if b < 0xE0 then decodeTail 1 (b.toNat % 32) 0x80 0xBF bs
  else if b < 0xF0 then
    decodeTail 2 (b.toNat % 16) (if b = 0xE0 then 0xA0 else 0x80) (if b = 0xED then 0x9F else 0xBF) bs
  else if b < 0xF5 then
    decodeTail 3 (b.toNat % 8) (if b = 0xF0 then 0x90 else 0x80) (if b = 0xF4 then 0x8F else 0xBF) bs
  else ('\uFFFD', bs)

def decodeLossy : Nat → List UInt8 → List Char
  | 0, _ => []
  | _ + 1, [] => []
  | n + 1, b :: bs => (decodeChar b bs).1 :: decodeLossy n (decodeChar b bs).2

/-- `b.toString('utf8')`. -/
def Buffer.toText : Buffer → String
  | .text s => s
  | .binary bytes _ => String.ofList (decodeLossy bytes.size bytes.toList)

@[simp] theorem Buffer.toText_ofText (s : String) : (Buffer.ofText s).toText = s := rfl

/-- SHA-256 of a run of bytes, in hexadecimal. -/
class Digest where
  sha256 : Buffer → String

/-- A digest of which only the values at some texts matter. -/
@[reducible] def digestOf (known : List (String × String)) : Digest :=
  ⟨fun b => (known.lookup b.toText).getD ""⟩

/-! ## Records -/

/-- The UTF-16 code units of a string, which is what strings are ordered by. -/
def utf16 (s : String) : List Nat :=
  s.toList.flatMap fun c =>
    let n := c.toNat
    if n < 0x10000 then [n] else [0xD800 + (n - 0x10000) / 0x400, 0xDC00 + (n - 0x10000) % 0x400]

/-- Whether `a` sorts no later than `b`. -/
def utf16Le (a b : String) : Prop := utf16 a ≤ utf16 b

instance (a b : String) : Decidable (utf16Le a b) := inferInstanceAs (Decidable (utf16 a ≤ utf16 b))

/-- `items.join(',')`. -/
def joinComma : List (List Char) → List Char
  | [] => []
  | [t] => t
  | t :: ts => t ++ ',' :: joinComma ts

mutual
/-- The same characters for the same record whatever order its keys arrived in. -/
def canonical : Json → List Char
  | .arr items => '[' :: (joinComma (canonicalItems items) ++ [']'])
  | .obj fields =>
    let sorted := (canonicalFields fields).insertionSort fun a b => utf16Le a.1 b.1
    '{' :: (joinComma (sorted.map fun kv => printString kv.1 ++ ':' :: kv.2) ++ ['}'])
  | v => v.print

def canonicalItems : List Json → List (List Char)
  | [] => []
  | v :: vs => canonical v :: canonicalItems vs

def canonicalFields : List (String × Json) → List (String × List Char)
  | [] => []
  | (k, v) :: rest => (k, canonical v) :: canonicalFields rest
end

def fingerprint [Digest] (item : Json) : String :=
  String.ofList ((Digest.sha256 (.ofText (String.ofList (canonical item)))).toList.take 16)

/-- A record with an id. -/
structure Identified where
  item : Json
  id : String
  get_id : item.get? "id" = some (.str id)
  id_ne : id ≠ ""

/-- The record an item of a list is, if it has an id. -/
def Identified.of? (item : Json) : Option Identified :=
  match h : item.get? "id" with
  | some (.str id) => if hid : id ≠ "" then some ⟨item, id, h, hid⟩ else none
  | _ => none

/-- The loop of `asRecords`: `out` is what has been collected, and a repeated id ends it. -/
def collect (out : List Identified) : List Json → Option (List Identified)
  | [] => some out
  | item :: rest =>
    match Identified.of? item with
    | some r => if out.any fun o => o.id = r.id then none else collect (out ++ [r]) rest
    | none => none

/-- The records, if this payload is a list of them. -/
def asRecords (payload : Buffer) : Option (List Identified) :=
  match Json.parse payload.toText with
  | some (.arr items) => collect [] items
  | _ => none

/-! ## The ancestor -/

/-- What this device last agreed with the relay: the fingerprint of each id. -/
abbrev Base := List (String × String)

/-- The names every object answers to without having them of its own. -/
def objectPrototype : List String :=
  ["__defineGetter__", "__defineSetter__", "__lookupGetter__", "__lookupSetter__", "__proto__",
    "constructor", "hasOwnProperty", "isPrototypeOf", "propertyIsEnumerable", "toLocaleString",
    "toString", "valueOf"]

/-- `id in base`. -/
def Base.has (base : Base) (id : String) : Bool :=
  (base.lookup id).isSome || objectPrototype.contains id

/-- `base[r.id] = fingerprint(r)` for every record. An assignment to `__proto__` makes no key. -/
def baseOfRecords [Digest] (records : List Identified) : Base :=
  (records.filter fun r => r.id ≠ "__proto__").map fun r => (r.id, fingerprint r.item)

def baseOf [Digest] (payload : Buffer) : Option Base := (asRecords payload).map baseOfRecords

/-! ## Questions about a whole payload -/

/-- More than half of a list of more than five identified records gone. -/
def removesMost (before after : Buffer) : Bool :=
  match asRecords before, asRecords after with
  | some was, some now =>
    decide (5 < was.length) &&
      decide (was.length < (was.filter fun r => !now.any fun n => n.id = r.id).length * 2)
  | _, _ => false

/-- What `String.prototype.trim` takes off. -/
def isTrimmed (c : Char) : Bool :=
  (0x09 ≤ c.toNat ∧ c.toNat ≤ 0x0D) || (0x2000 ≤ c.toNat ∧ c.toNat ≤ 0x200A) ||
    [0x20, 0xA0, 0x1680, 0x2028, 0x2029, 0x202F, 0x205F, 0x3000, 0xFEFF].contains c.toNat

def trim (s : String) : String :=
  String.ofList (((s.toList.dropWhile isTrimmed).reverse.dropWhile isTrimmed).reverse)

/-- Whether a payload is a collection with nothing in it. -/
def isEmptyish (body : Buffer) : Bool :=
  let text := trim body.toText
  if text = "" ∨ text = "[]" ∨ text = "{}" ∨ text = "null" then true
  else
    match Json.parse text with
    | some (.arr items) => items.isEmpty
    | some (.obj fields) => fields.isEmpty
    | some .null => true
    | _ => false

/-! ## Facts about records -/

theorem Identified.ext_item {r s : Identified} (h : r.item = s.item) : r = s := by
  obtain ⟨item, id, get_id, _⟩ := r
  obtain ⟨item', id', get_id', _⟩ := s
  obtain rfl : item = item' := h
  obtain rfl : id = id' := by simpa using get_id.symm.trans get_id'
  rfl

theorem Identified.of?_eq_some {item : Json} {r : Identified} :
    Identified.of? item = some r ↔ r.item = item := by
  constructor
  · intro h
    unfold Identified.of? at h
    split at h
    · split_ifs at h
      rw [← Option.some.inj h]
    · cases h
  · rintro rfl
    have hid := r.get_id
    unfold Identified.of?
    split
    · next id h =>
      obtain rfl : r.id = id := by simpa using hid.symm.trans h
      rw [dif_pos r.id_ne]
    · next h => exact absurd hid (h r.id)

/-- The ids of a list of records. -/
def ids (records : List Identified) : List String := records.map Identified.id

theorem collect_eq_some {out : List Identified} {items : List Json} {rs : List Identified}
    (hout : (ids out).Nodup) :
    collect out items = some rs ↔
      ∃ new, rs = out ++ new ∧ new.map Identified.item = items ∧ (ids rs).Nodup := by
  induction items generalizing out with
  | nil =>
    simp only [collect, Option.some.injEq, List.map_eq_nil_iff]
    constructor
    · rintro rfl
      exact ⟨[], by simp, rfl, hout⟩
    · rintro ⟨new, rfl, rfl, -⟩
      simp
  | cons item items ih =>
    rw [collect]
    split
    · next r hr =>
      rw [Identified.of?_eq_some] at hr
      split_ifs with hany
      · -- the id is there already, so no list with this record in it lists its ids once
        refine iff_of_false (by simp) ?_
        rintro ⟨new, rfl, hnew, hnodup⟩
        obtain ⟨o, ho, hid⟩ := List.any_eq_true.mp hany
        match new, hnew with
        | n :: new, hnew =>
          obtain rfl : n = r := Identified.ext_item ((List.cons.inj hnew).1.trans hr.symm)
          simp only [ids, List.map_append, List.map_cons, List.nodup_append] at hnodup
          exact hnodup.2.2 o.id (List.mem_map_of_mem ho) n.id (by simp) (by simpa using hid)
      · have hout' : (ids (out ++ [r])).Nodup := by
          simp only [List.any_eq_true, not_exists, not_and, decide_eq_true_eq] at hany
          simp only [ids, List.map_append, List.nodup_append]
          refine ⟨hout, by simp, fun x hx y hy => ?_⟩
          obtain ⟨o, ho, rfl⟩ := List.mem_map.mp hx
          rw [show y = r.id by simpa using hy]
          exact hany o ho
        rw [ih hout']
        constructor
        · rintro ⟨new, rfl, hnew, hnodup⟩
          exact ⟨r :: new, by simp, by simp [hr, hnew], hnodup⟩
        · rintro ⟨new, rfl, hnew, hnodup⟩
          match new, hnew with
          | n :: new, hnew =>
            obtain rfl : n = r := Identified.ext_item ((List.cons.inj hnew).1.trans hr.symm)
            exact ⟨new, by simp, (List.cons.inj hnew).2, hnodup⟩
    · next hnone =>
      refine iff_of_false (by simp) ?_
      rintro ⟨new, rfl, hnew, -⟩
      match new, hnew with
      | n :: new, hnew =>
        rw [← (List.cons.inj hnew).1, Identified.of?_eq_some.mpr rfl] at hnone
        cases hnone

/-- The records of a payload are the items of the list it spells, each id once. -/
theorem asRecords_eq_some {payload : Buffer} {rs : List Identified} :
    asRecords payload = some rs ↔
      Json.parse payload.toText = some (.arr (rs.map Identified.item)) ∧ (ids rs).Nodup := by
  unfold asRecords
  split
  · next items h =>
    rw [collect_eq_some (by simp [ids]), h]
    constructor
    · rintro ⟨new, rfl, rfl, hnodup⟩
      exact ⟨by simp, hnodup⟩
    · rintro ⟨hitems, hnodup⟩
      exact ⟨rs, rfl, by simpa using hitems.symm, hnodup⟩
  · next h =>
    exact iff_of_false (by simp) fun hp => absurd hp.1 (h _)

theorem asRecords_nodup {payload : Buffer} {rs : List Identified}
    (h : asRecords payload = some rs) : (ids rs).Nodup :=
  (asRecords_eq_some.mp h).2

theorem asRecords_valid {payload : Buffer} {rs : List Identified}
    (h : asRecords payload = some rs) : ∀ r ∈ rs, r.item.Valid :=
  fun r hr => (Json.parse_valid (asRecords_eq_some.mp h).1).items r.item (List.mem_map_of_mem hr)

/-- `Buffer.from(JSON.stringify(records), 'utf8')`. -/
def ofRecords (records : List Identified) : Buffer :=
  .ofText (Json.arr (records.map Identified.item)).stringify

/-- A list of records that is written out is read back. -/
theorem asRecords_ofRecords {rs : List Identified} (hnodup : (ids rs).Nodup)
    (hvalid : ∀ r ∈ rs, r.item.Valid) : asRecords (ofRecords rs) = some rs := by
  rw [asRecords_eq_some, ofRecords, Buffer.toText_ofText]
  exact ⟨Json.parse_stringify (.arr (by simpa using hvalid)), hnodup⟩

/-! ## Finding a record -/

/-- The record with this id. -/
def record (records : List Identified) (id : String) : Option Identified :=
  records.find? fun r => r.id = id

theorem record_eq_some {rs : List Identified} (h : (ids rs).Nodup) {id : String} {r : Identified} :
    record rs id = some r ↔ r ∈ rs ∧ r.id = id := by
  constructor
  · intro hr
    exact ⟨List.mem_of_find?_eq_some hr, by simpa using List.find?_some hr⟩
  · rintro ⟨hr, rfl⟩
    induction rs with
    | nil => cases hr
    | cons s rs ih =>
      obtain ⟨hs, hrest⟩ := List.nodup_cons.mp h
      by_cases hid : s.id = r.id
      · rcases List.mem_cons.mp hr with rfl | hr
        · simp [record]
        · exact absurd (hid ▸ List.mem_map_of_mem hr) hs
      · rcases List.mem_cons.mp hr with rfl | hr
        · exact absurd rfl hid
        · simpa [record, List.find?_cons, hid] using ih hrest hr

theorem record_eq_none {rs : List Identified} {id : String} :
    record rs id = none ↔ id ∉ ids rs := by
  simp [record, ids, List.find?_eq_none]

end OpsMaxx.Addy
