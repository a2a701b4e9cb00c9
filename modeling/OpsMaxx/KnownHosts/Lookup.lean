import OpsMaxx.KnownHosts.Alike

/-!
# What the lookup finds

A host in lower case is looked up as OpenSSH does but for the bare name behind a port. For every other
host there is a revocation that is not found.
-/

set_option autoImplicit false

namespace OpsMaxx.KnownHosts

open Strings
open Access (Bytes encodeBase64)

variable {hmac : Bytes → Text → Bytes} {fingerprintOf : Bytes → Text}

/-! ## The loop -/

/-- An entry with this marker has the presented key for the name. -/
def hits (hmac : Bytes → Text → Bytes) (fingerprintOf : Bytes → Text) (name presented : Text)
    (marker : Option Marker) (e : OpenSshHostEntry) : Bool :=
  entryMatchesHost hmac e name && fingerprintOf e.key = presented && e.marker = marker

theorem lookupEntry_spec (name presented : Text) (r : OpenSshLookup) (e : OpenSshHostEntry) :
    (lookupEntry hmac fingerprintOf name presented r e).revoked =
        (r.revoked || hits hmac fingerprintOf name presented (some .revoked) e) ∧
      (lookupEntry hmac fingerprintOf name presented r e).trusted =
        (r.trusted || hits hmac fingerprintOf name presented none e) := by
  unfold lookupEntry hits
  cases entryMatchesHost hmac e name with
  | false => simp
  | true =>
    cases hm : e.marker with
    | none => by_cases hkey : fingerprintOf e.key = presented <;> simp [hkey]
    | some m => cases m <;> by_cases hkey : fingerprintOf e.key = presented <;> simp [hkey]

theorem lookup_spec (name presented : Text) (entries : List OpenSshHostEntry) (r : OpenSshLookup) :
    (entries.foldl (lookupEntry hmac fingerprintOf name presented) r).revoked =
        (r.revoked || entries.any (hits hmac fingerprintOf name presented (some .revoked))) ∧
      (entries.foldl (lookupEntry hmac fingerprintOf name presented) r).trusted =
        (r.trusted || entries.any (hits hmac fingerprintOf name presented none)) := by
  induction entries generalizing r with
  | nil => simp
  | cons e entries ih =>
    obtain ⟨hrevoked, htrusted⟩ := @lookupEntry_spec hmac fingerprintOf name presented r e
    obtain ⟨ihrevoked, ihtrusted⟩ := ih (lookupEntry hmac fingerprintOf name presented r e)
    rw [List.foldl_cons, ihrevoked, ihtrusted, hrevoked, htrusted]
    simp [Bool.or_assoc]

section
variable {key : Bytes} (hfingerprint : ∀ k, fingerprintOf k = fingerprintOf key → k = key)
include hfingerprint

/-- On a name of one line the entries hit what the lines name. -/
theorem any_hits {entries : List OpenSshHostEntry} {lines : List Line}
    (h : List.Forall₂ (Reads hmac) entries lines) {name : Text} (hname : ∀ c ∈ name, isDot c = true)
    (marker : Option Marker) :
    entries.any (hits hmac fingerprintOf name (fingerprintOf key) marker) = true ↔
      Names hmac lines marker key name := by
  unfold Names
  induction h with
  | nil => simp
  | @cons e l entries lines hreads _ ih =>
    rw [List.any_cons, Bool.or_eq_true, ih, List.exists_mem_cons_iff]
    refine or_congr_left ?_
    have hkey : fingerprintOf e.key = fingerprintOf key ↔ e.key = key :=
      ⟨hfingerprint e.key, congrArg fingerprintOf⟩
    rw [hits, Bool.and_eq_true, Bool.and_eq_true, decide_eq_true_iff, decide_eq_true_iff,
      hreads.takes name hname, hkey, hreads.marker, hreads.key]
    tauto

/-- What the lookup says of a file. -/
theorem lookup_iff_names {text : Text} {lines : List Line} (h : Spells text lines) {host : Text}
    {port : Nat} (hname : ∀ c ∈ canonicalHostname host port, isDot c = true) :
    ((lookupInKnownHosts hmac fingerprintOf (parseKnownHosts text) host port
        (fingerprintOf key)).revoked = true ↔
      Names hmac lines (some .revoked) key (canonicalHostname host port)) ∧
    ((lookupInKnownHosts hmac fingerprintOf (parseKnownHosts text) host port
        (fingerprintOf key)).trusted = true ↔
      Names hmac lines none key (canonicalHostname host port)) := by
  obtain ⟨hrevoked, htrusted⟩ := @lookup_spec hmac fingerprintOf (canonicalHostname host port)
    (fingerprintOf key) (parseKnownHosts text) ⟨false, false, false⟩
  have hreads := @reads_parse hmac _ _ h
  unfold lookupInKnownHosts
  rw [hrevoked, htrusted, Bool.false_or, Bool.false_or]
  exact ⟨any_hits hfingerprint hreads hname _, any_hits hfingerprint hreads hname _⟩

end

/-! ## Names -/

theorem canonicalHostname_default {port : Nat} (h : defaultPort port) (host : Text) :
    canonicalHostname host port = host := by
  unfold canonicalHostname
  obtain rfl | rfl := h <;> rfl

theorem canonicalHostname_port {port : Nat} (h : ¬ defaultPort port) (host : Text) :
    canonicalHostname host port = '[' :: host ++ ']' :: ':' :: Nat.toDigits 10 port := by
  have hcolon : "]:".toList = [']', ':'] := by decide
  unfold defaultPort at h
  unfold canonicalHostname
  simp only
  rw [if_neg fun hz => h (Or.inl hz), if_neg fun hp => h (Or.inr hp), hcolon]
  simp

theorem lowered_append (s t : Text) : lowered (s ++ t) = lowered s ++ lowered t := List.map_append

theorem toLower_of_not_isUpper {c : Char} (h : c.isUpper = false) : c.toLower = c := by
  unfold Char.toLower
  rw [dif_neg]
  exact of_decide_eq_false h

theorem lowered_digits (n : Nat) : lowered (Nat.toDigits 10 n) = Nat.toDigits 10 n := by
  refine (List.map_congr_left fun c hc => toLower_of_not_isUpper ?_).trans (List.map_id _)
  have hdigit : c.isDigit = true := Nat.isDigit_of_mem_toDigits (by decide) (by decide) hc
  have hle := (isDigit_iff.mp hdigit).2
  rw [Bool.eq_false_iff, ne_eq, isUpper_iff]
  omega

theorem lowered_canonical (host : Text) (port : Nat) :
    lowered (canonicalHostname host port) = canonicalHostname (lowered host) port := by
  by_cases h : defaultPort port
  · rw [canonicalHostname_default h, canonicalHostname_default h]
  · rw [canonicalHostname_port h, canonicalHostname_port h, lowered_append]
    show _ ++ (']' :: ':' :: lowered (Nat.toDigits 10 port)) = _
    rw [lowered_digits]
    rfl

theorem isDot_canonical {host : Text} (h : ∀ c ∈ host, isDot c = true) (port : Nat) :
    ∀ c ∈ canonicalHostname host port, isDot c = true := by
  by_cases hport : defaultPort port
  · rw [canonicalHostname_default hport]
    exact h
  · rw [canonicalHostname_port hport]
    intro c hc
    simp only [List.cons_append, List.mem_cons, List.mem_append] at hc
    obtain rfl | hc | rfl | rfl | hc := hc
    · decide
    · exact h c hc
    · decide
    · decide
    · have hdigit : c.isDigit = true := Nat.isDigit_of_mem_toDigits (by decide) (by decide) hc
      rw [isDot, isLineTerminator_of_isInk (isInk_of_isDigit hdigit)]
      rfl

/-! ## A host in lower case -/

/-- Every lookup of a plain host goes as in OpenSSH exactly when no revocation is behind the bare
host alone. -/
theorem readAlike_iff {key : Bytes} (hfingerprint : ∀ k, fingerprintOf k = fingerprintOf key → k = key)
    {host : Text} (hhost : PlainHost host) (port : Nat) {text : Text} {lines : List Line}
    (h : Spells text lines) :
    ReadAlike hmac fingerprintOf text lines host port key ↔
      NoBareRevocation hmac lines host port key := by
  obtain ⟨hlower, hone⟩ := hhost
  have hname : lowered (canonicalHostname host port) = canonicalHostname host port := by
    rw [lowered_canonical, hlower]
  obtain ⟨hrevoked, htrusted⟩ := @lookup_iff_names hmac fingerprintOf key hfingerprint _ _ h _ _
    (isDot_canonical hone port)
  constructor
  · rintro ⟨hread, -⟩
    by_contra hbare
    simp only [NoBareRevocation, not_or, not_not] at hbare
    obtain ⟨hport, hfound, hnone, hhost⟩ := hbare
    refine hnone (hrevoked.mp (hread ⟨host, Or.inr ⟨hport, ?_, hlower.symm⟩, hhost⟩))
    rwa [hname]
  · intro hbare
    constructor
    · rintro ⟨name, rfl | ⟨hport, hfound, rfl⟩, hnames⟩
      · rw [hname] at hnames
        exact hrevoked.mpr hnames
      · rw [hname] at hfound
        rw [hlower] at hnames
        obtain hdefault | hf | hn | hnot := hbare
        · exact absurd hdefault hport
        · exact absurd hf hfound
        · exact hrevoked.mpr hn
        · exact absurd hnames hnot
    · intro htrue
      refine ⟨_, Or.inl rfl, ?_⟩
      rw [hname]
      exact htrusted.mp htrue

/-! ## Any other host -/

/-- A pattern for one character in lower case that does not take the capital. -/
def lowerOnly (c : Char) : Char := if c.toLower = c then '?' else c.toLower

theorem toLower_range {c : Char} (h : c.toLower ≠ c) : 97 ≤ c.toLower.toNat ∧ c.toLower.toNat ≤ 122 := by
  unfold Char.toLower at h ⊢
  split at h
  · rename_i hupper
    rw [dif_pos hupper]
    have hlo : 65 ≤ c.val.toNat := hupper.1
    have hhi : c.val.toNat ≤ 90 := hupper.2
    show 97 ≤ (c.val + 32).toNat ∧ (c.val + 32).toNat ≤ 122
    rw [UInt32.toNat_add]
    have hshift : (32 : UInt32).toNat = 32 := rfl
    omega
  · exact absurd rfl h

theorem lowerOnly_spec (c : Char) :
    lowerOnly c = '?' ∨ (97 ≤ (lowerOnly c).toNat ∧ (lowerOnly c).toNat ≤ 122) := by
  unfold lowerOnly
  split_ifs with h
  · exact Or.inl rfl
  · exact Or.inr (toLower_range h)

theorem lowerOnly_ne {d : Char} (hmark : d ≠ '?') (hd : d.toNat < 97 ∨ 122 < d.toNat) (c : Char) :
    lowerOnly c ≠ d := by
  rintro rfl
  obtain h | ⟨hlo, hhi⟩ := lowerOnly_spec c
  · exact hmark h
  · omega

theorem lowerOnly_isInk (c : Char) : isInk (lowerOnly c) = true := by
  obtain h | ⟨hlo, hhi⟩ := lowerOnly_spec c
  · rw [h]
    decide
  · exact isInk_of_graphic (by omega) (by omega)

/-- A line that revokes the key for names that only differ in case. -/
def revocation (name : Text) (key : Bytes) : Text :=
  Marker.revoked.tag ++ [' '] ++ (name.map lowerOnly ++ [' '] ++
    ("ssh-rsa".toList ++ [' '] ++ (encodeBase64 key ++ [])))

def revocationLine (name : Text) (key : Bytes) : Line :=
  ⟨some .revoked, .patterns [name.map lowerOnly], key⟩

theorem spells_revocation {name : Text} (hname : name ≠ []) {key : Bytes} (hkey : key ≠ []) :
    Spells (revocation name key) [revocationLine name key] := by
  have hgap : IsGap [' '] := ⟨by simp, by decide⟩
  have hink : ∀ c ∈ name.map lowerOnly, isInk c = true := by
    intro c hc
    obtain ⟨d, -, rfl⟩ := List.mem_map.mp hc
    exact lowerOnly_isInk d
  have hword : IsWord (name.map lowerOnly) := ⟨by simpa using hname, hink⟩
  have hhead : ∀ d : Char, d ≠ '?' → (d.toNat < 97 ∨ 122 < d.toNat) →
      (name.map lowerOnly).head? ≠ some d := by
    intro d hmark hd
    cases name with
    | nil => simp
    | cons c name => simpa using lowerOnly_ne hmark hd c
  have hcomma : ',' ∉ name.map lowerOnly := by
    intro hc
    obtain ⟨d, -, hd⟩ := List.mem_map.mp hc
    exact lowerOnly_ne (by decide) (by decide) d hd
  have hhosts : SpelledHosts (revocationLine name key).hosts (name.map lowerOnly) := by
    have hspelled := SpelledHosts.patterns hword ⟨hhead '#' (by decide) (by decide),
      hhead '@' (by decide) (by decide), hhead '|' (by decide) (by decide)⟩
    rwa [List.splitOn_eq_singleton hcomma] at hspelled
  have htype : IsWord "ssh-rsa".toList := ⟨by decide, by decide⟩
  have hline : SpelledLine (revocation name key) (some (revocationLine name key)) :=
    @SpelledLine.entry (revocationLine name key) [] _ _ _ _ _ [] (by simp)
      (SpelledMarker.marked hgap) hhosts hgap htype hgap hkey (by simp)
  have hone : '\n' ∉ revocation name key := by
    have hspace : isInk '\n' = false := by decide
    simp only [revocation, List.mem_append, not_or]
    refine ⟨⟨not_mem_of_ink (Marker.tag_spec _).1.2 hspace, by decide⟩,
      ⟨not_mem_of_ink hink hspace, by decide⟩, ⟨not_mem_of_ink htype.2 hspace, by decide⟩,
      not_mem_of_ink (isWord_encodeBase64 hkey).2 hspace, by simp⟩
  refine ⟨[some (revocationLine name key)], ?_, rfl⟩
  rw [List.splitOn_eq_singleton hone]
  exact List.Forall₂.cons hline List.Forall₂.nil

/-- Of the host that is not plain OpenSSH has the key as revoked, and the lookup has not. -/
theorem revocation_missed {key : Bytes} (hkey : key ≠ []) {host : Text} (hhost : ¬ PlainHost host)
    (port : Nat) :
    ∃ text lines, Spells text lines ∧ ¬ ReadAlike hmac fingerprintOf text lines host port key := by
  have hmem : ∀ c ∈ host, c ∈ canonicalHostname host port := by
    intro c hc
    by_cases hport : defaultPort port
    · rwa [canonicalHostname_default hport]
    · rw [canonicalHostname_port hport]
      simp [hc]
  generalize hname : canonicalHostname host port = name at hmem
  have hne : name ≠ [] := by
    rintro rfl
    apply hhost
    have hnil : host = [] := List.eq_nil_iff_forall_not_mem.mpr fun c hc => by simpa using hmem c hc
    rw [hnil]
    exact ⟨rfl, by simp⟩
  have hstar : ∀ c, lowerOnly c ≠ '*' := lowerOnly_ne (by decide) (by decide)
  have hbang : (name.map lowerOnly).head? ≠ some '!' := by
    cases name with
    | nil => simp
    | cons c name => simpa using lowerOnly_ne (by decide) (by decide) c
  have hglob : glob (name.map lowerOnly) (lowered name) = true := by
    refine glob_map hstar fun c _ => ?_
    unfold lowerOnly
    split_ifs
    · exact Or.inl rfl
    · exact Or.inr rfl
  have hspells := spells_revocation hne hkey
  refine ⟨_, _, hspells, fun hread => ?_⟩
  have hrevokes : Revokes hmac [revocationLine name key] host port key := by
    refine ⟨lowered name, Or.inl (by rw [hname]), _, List.mem_singleton_self _, rfl, rfl, ?_⟩
    exact (globList_singleton hbang _).trans hglob
  have hfound := hread.revoked hrevokes
  obtain ⟨hloop, -⟩ := @lookup_spec hmac fingerprintOf name (fingerprintOf key)
    (parseKnownHosts (revocation name key)) ⟨false, false, false⟩
  have hreads := @reads_parse hmac _ _ hspells
  unfold lookupInKnownHosts at hfound
  rw [hname, hloop, Bool.false_or] at hfound
  obtain ⟨e, he, hhits⟩ := List.any_eq_true.mp hfound
  have hmatch : entryMatchesHost hmac e name = true := by
    unfold hits at hhits
    simp only [Bool.and_eq_true] at hhits
    exact hhits.1.1
  have hform : e.hashed = none ∧ e.patterns = [name.map lowerOnly] := by
    obtain ⟨e', rest, heads, hrest, hentries⟩ := List.forall₂_cons_right_iff.mp hreads
    rw [hentries, List.forall₂_nil_right_iff.mp hrest, List.mem_singleton] at he
    rw [he]
    exact heads.patterns _ rfl
  have htest : (globRegex (name.map lowerOnly)).test name = true := by
    unfold entryMatchesHost at hmatch
    rw [hform.1, hform.2] at hmatch
    simp only [patternsMatch, patternsLoop, if_neg hbang] at hmatch
    by_contra hno
    rw [if_neg hno] at hmatch
    cases hmatch
  have hchars := run_map hstar none (run_of_test htest)
  apply hhost
  have hplain : ∀ c ∈ host, c.toLower = c ∧ isDot c = true := by
    intro c hc
    have hat := hchars c (hmem c hc)
    unfold lowerOnly at hat
    by_cases hlower : c.toLower = c
    · simpa [hlower] using hat
    · rw [if_neg hlower] at hat
      obtain ⟨hlo, hhi⟩ := toLower_range hlower
      rw [if_neg] at hat
      · exact absurd hat hlower
      · intro hmark
        rw [hmark] at hlo
        exact absurd hlo (by decide)
  exact ⟨(List.map_congr_left fun c hc => (hplain c hc).1).trans (List.map_id _),
    fun c hc => (hplain c hc).2⟩

/-- The fingerprint of the key of one zero byte, and a text of their own for all others. -/
def zeroFingerprint (key : Bytes) : Text :=
  if key = [0] then "SHA256:bjQLnP+zepicpUTmu3gKLHiQHT+zNzh2hRGjBhevoB0".toList
  else encodeBase64 key

theorem zeroFingerprint_inj (k : Bytes) (h : zeroFingerprint k = zeroFingerprint [0]) : k = [0] := by
  by_contra hk
  have hcolon : ':' ∈ zeroFingerprint [0] := by decide
  rw [← h, zeroFingerprint, if_neg hk] at hcolon
  exact absurd (Sidecar.base64Encode_mem k _ hcolon) (by decide)

/-- The same code for every name, for a file without hashed names. -/
def zeroCode : Bytes → Text → Bytes := fun _ _ => List.replicate 20 0

end OpsMaxx.KnownHosts
