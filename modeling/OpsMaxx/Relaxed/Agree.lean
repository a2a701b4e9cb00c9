import OpsMaxx.Relaxed.Spelled
import Mathlib.Data.List.Forall2

/-!
# Where the shell's parser and `JSON.parse` agree

Assigning a member named `__proto__` makes the object inherit from the value instead of giving it
the property, as long as the object inherits from `Object.prototype`. A member that cuts it off from
there, by `null` or by an object that is cut off itself, makes the later ones properties again.
-/

set_option autoImplicit false

namespace OpsMaxx.Relaxed

/-! ## Own properties -/

section
variable {ν κ : Type}

def property : List (Units × JsValue ν κ) → Units → Option (JsValue ν κ)
  | [], _ => none
  | (k, v) :: rest, key => if k = key then some v else property rest key

theorem property_put (own : List (Units × JsValue ν κ)) (k : Units) (v : JsValue ν κ)
    (key : Units) : property (put own k v) key = if k = key then some v else property own key := by
  induction own with
  | nil => rfl
  | cons m own ih =>
    obtain ⟨k', w⟩ := m
    by_cases hk : k' = k
    · subst hk
      simp only [put, if_true, property]
      split_ifs <;> rfl
    · simp only [put, if_neg hk, property, ih]
      split_ifs with h₁ h₂
      · exact absurd (h₁.trans h₂.symm) hk
      all_goals rfl

/-- The same value: objects have the same own keys, with the same values. -/
inductive Same : JsValue ν κ → JsValue ν κ → Prop
  | refl (v : JsValue ν κ) : Same v v
  | arr {xs ys : List (JsValue ν κ)} (h : List.Forall₂ Same xs ys) : Same (.arr xs) (.arr ys)
  | obj {own other : List (Units × JsValue ν κ)} {rooted rooted' : Bool}
    (hkeys : ∀ key, (property own key).isSome = (property other key).isSome)
    (h : ∀ key v w, property own key = some v → property other key = some w → Same v w) :
    Same (.obj own rooted) (.obj other rooted')

theorem same_arr {xs ys : List (JsValue ν κ)} :
    Same (.arr xs) (.arr ys) ↔ List.Forall₂ Same xs ys := by
  constructor
  · intro h
    cases h with
    | refl => exact List.forall₂_same.mpr fun v _ => .refl v
    | arr h => exact h
  · exact .arr

theorem same_obj {own other : List (Units × JsValue ν κ)} {rooted rooted' : Bool} :
    Same (.obj own rooted) (.obj other rooted') ↔
      ∀ key, Option.Rel Same (property own key) (property other key) := by
  constructor
  · intro h key
    cases h with
    | refl =>
      cases property own key with
      | none => exact .none
      | some v => exact .some (.refl v)
    | obj hkeys h =>
      have hkey := hkeys key
      cases hv : property own key with
      | none =>
        rw [hv, Option.isSome_none, Eq.comm, Option.isSome_eq_false_iff, Option.isNone_iff_eq_none]
          at hkey
        rw [hkey]
        exact .none
      | some v =>
        rw [hv, Option.isSome_some, Eq.comm, Option.isSome_iff_exists] at hkey
        obtain ⟨w, hw⟩ := hkey
        rw [hw]
        exact .some (h key v w hv hw)
  · intro h
    refine .obj ?_ ?_
    · intro key
      have hkey := h key
      generalize property own key = x at hkey ⊢
      generalize property other key = y at hkey ⊢
      cases hkey <;> rfl
    · intro key v w hv hw
      have hkey := h key
      rw [hv, hw] at hkey
      cases hkey with
      | some hvw => exact hvw

end

/-! ## Members -/

/-- The value of the last member of that name. -/
def latest (key : Units) : List (Units × Syn) → Option Syn
  | [] => none
  | (k, t) :: rest => (latest key rest).or (if k = key then some t else none)

theorem latest_mem {key : Units} {ms : List (Units × Syn)} {t : Syn}
    (h : latest key ms = some t) : (key, t) ∈ ms := by
  induction ms with
  | nil => cases h
  | cons m ms ih =>
    unfold latest at h
    rw [Option.or_eq_some_iff] at h
    obtain h | ⟨-, h⟩ := h
    · exact List.mem_cons_of_mem m (ih h)
    · split_ifs at h with hk
      obtain rfl := Option.some.inj h
      subst hk
      exact List.mem_cons_self

mutual

/-- Inheriting from what is spelled so cuts an object off from `Object.prototype`. -/
def Cuts : Syn → Bool
  | .null => true
  | .obj ms => cutOff ms
  | _ => false
termination_by structural t => t

def cutOff : List (Units × Syn) → Bool
  | [] => false
  | (k, t) :: rest => (decide (k = protoKey) && Cuts t) || cutOff rest
termination_by structural ms => ms

end

/-- A member named `__proto__` comes after one that cut the object off. -/
def protoKept : List (Units × Syn) → Bool
  | [] => false
  | (k, t) :: rest =>
    if k = protoKey ∧ Cuts t = true then (latest protoKey rest).isSome else protoKept rest

theorem protoKept_latest {ms : List (Units × Syn)} (h : protoKept ms = true) :
    (latest protoKey ms).isSome := by
  induction ms with
  | nil => cases h
  | cons m ms ih =>
    obtain ⟨k, t⟩ := m
    rw [latest, Option.isSome_or]
    have hrest : (latest protoKey ms).isSome = true := by
      unfold protoKept at h
      split_ifs at h with hcuts
      · exact h
      · exact ih h
    rw [hrest, Bool.true_or]

mutual

/-- In every object that is left of the text, either no member is named `__proto__` or the last one
of that name comes after one that cut the object off. -/
def Agrees : Syn → Prop
  | .arr items => AllAgree items
  | .obj ms => ((latest protoKey ms).isSome → protoKept ms = true) ∧ LatestAgree ms
  | _ => True
termination_by structural t => t

def AllAgree : List Syn → Prop
  | [] => True
  | t :: rest => Agrees t ∧ AllAgree rest
termination_by structural ts => ts

/-- The members that no later one of the same name replaces. -/
def LatestAgree : List (Units × Syn) → Prop
  | [] => True
  | (k, t) :: rest => ((latest k rest).isSome ∨ Agrees t) ∧ LatestAgree rest
termination_by structural ms => ms

end

theorem latestAgree_iff {ms : List (Units × Syn)} :
    LatestAgree ms ↔ ∀ key t, latest key ms = some t → Agrees t := by
  induction ms with
  | nil => simp [LatestAgree, latest]
  | cons m ms ih =>
    obtain ⟨k, t⟩ := m
    rw [LatestAgree, ih]
    constructor
    · intro h key u hu
      rw [latest, Option.or_eq_some_iff] at hu
      obtain hu | ⟨hnone, hu⟩ := hu
      · exact h.2 key u hu
      · split_ifs at hu with hk
        obtain rfl := Option.some.inj hu
        subst hk
        obtain hsome | ht := h.1
        · rw [hnone] at hsome
          cases hsome
        · exact ht
    · intro h
      constructor
      · cases hk : latest k ms with
        | some u => exact Or.inl rfl
        | none =>
          refine Or.inr (h k t ?_)
          simp [latest, hk]
      · intro key u hu
        exact h key u (by simp [latest, hu])

/-! ## What the members make -/

section
variable {ν κ : Type} (number : Units → ν)

theorem property_jsonMembers (ms : List (Units × Syn)) (out : List (Units × JsValue ν κ))
    (key : Units) : property (jsonMembers number out ms) key =
      ((latest key ms).map (jsonEval number)).or (property out key) := by
  induction ms generalizing out with
  | nil => simp [jsonMembers, latest]
  | cons m ms ih =>
    obtain ⟨k, t⟩ := m
    rw [jsonMembers, ih, property_put, latest]
    cases latest key ms with
    | some u => rfl
    | none => split_ifs <;> rfl

mutual

theorem proto_assignEval : ∀ t : Syn,
    ((assignEval number t : JsValue ν κ).proto?.getD true) = !Cuts t
  | .null => rfl
  | .bool _ => rfl
  | .num _ => rfl
  | .str _ => rfl
  | .arr _ => rfl
  | .obj ms => by
    have h := rooted_assignMembers ms [] true
    simpa [assignEval, JsValue.proto?, Cuts] using h

theorem rooted_assignMembers : ∀ (ms : List (Units × Syn)) (out : List (Units × JsValue ν κ))
    (rooted : Bool), (assignMembers number (out, rooted) ms).2 = (rooted && !cutOff ms)
  | [], out, rooted => by simp [assignMembers, cutOff]
  | (k, t) :: rest, out, rooted => by
    have ht := proto_assignEval t
    rw [assignMembers, assign]
    split_ifs with hk
    · obtain ⟨rfl, hrooted⟩ := hk
      simp only at hrooted
      subst hrooted
      rw [rooted_assignMembers rest, ht]
      simp [cutOff]
    · rw [rooted_assignMembers rest, cutOff]
      cases rooted with
      | false => rfl
      | true =>
        have hne : k ≠ protoKey := fun h => hk ⟨h, rfl⟩
        simp [hne]

end

/-- A name other than `__proto__`, or any name once the object is cut off. -/
theorem property_assignMembers {ms : List (Units × Syn)} {key : Units} {rooted : Bool}
    (h : rooted = false ∨ key ≠ protoKey) (out : List (Units × JsValue ν κ)) :
    property (assignMembers number (out, rooted) ms).1 key =
      ((latest key ms).map (assignEval number)).or (property out key) := by
  induction ms generalizing out rooted with
  | nil => simp [assignMembers, latest]
  | cons m ms ih =>
    obtain ⟨k, t⟩ := m
    rw [assignMembers, assign]
    split_ifs with hk
    · obtain ⟨rfl, rfl⟩ := hk
      have hne : key ≠ protoKey := h.resolve_left (by decide)
      rw [ih (Or.inr hne), latest, if_neg hne.symm, Option.or_none]
    · rw [ih h, property_put, latest]
      cases latest key ms with
      | some u => rfl
      | none => split_ifs <;> rfl

theorem property_proto (ms : List (Units × Syn)) (out : List (Units × JsValue ν κ)) :
    property (assignMembers number (out, true) ms).1 protoKey =
      if protoKept ms then (latest protoKey ms).map (assignEval number)
      else property out protoKey := by
  induction ms generalizing out with
  | nil => rfl
  | cons m ms ih =>
    obtain ⟨k, t⟩ := m
    have ht := proto_assignEval (κ := κ) number t
    by_cases hk : k = protoKey
    · subst hk
      have hassign : assign (out, true) protoKey (assignEval number t) = (out, !Cuts t) := by
        simp only [assign, and_self, if_true, ht]
      rw [assignMembers, hassign]
      cases hcuts : Cuts t with
      | true =>
        rw [Bool.not_true, property_assignMembers number (Or.inl rfl)]
        simp only [protoKept, latest, hcuts, and_self, if_true]
        cases latest protoKey ms <;> simp
      | false =>
        rw [Bool.not_false, ih]
        simp only [protoKept, latest, hcuts, Bool.false_eq_true, and_false, if_false, if_true]
        split_ifs with hkept
        · obtain ⟨u, hu⟩ := Option.isSome_iff_exists.mp (protoKept_latest hkept)
          rw [hu, Option.some_or]
        · rfl
    · have hassign : assign (out, true) k (assignEval number t) =
          (put out k (assignEval number t), true) := by
        simp only [assign, hk, false_and, if_false]
      rw [assignMembers, hassign, ih, property_put, if_neg hk]
      simp only [protoKept, latest, hk, false_and, if_false, Option.or_none]

/-! ## Agreement -/

theorem same_members {ms : List (Units × Syn)}
    (ih : ∀ m ∈ ms, (Same (assignEval number m.2 : JsValue ν κ) (jsonEval number m.2) ↔
      Agrees m.2)) :
    Same (assignEval number (.obj ms) : JsValue ν κ) (jsonEval number (.obj ms)) ↔
      Agrees (.obj ms) := by
  rw [assignEval, jsonEval, same_obj, Agrees, latestAgree_iff]
  have hjson : ∀ key, property (jsonMembers number ([] : List (Units × JsValue ν κ)) ms) key =
      (latest key ms).map (jsonEval number) := fun key => by
    rw [property_jsonMembers, property, Option.or_none]
  have hplain : ∀ key, key ≠ protoKey →
      property (assignMembers number (([] : List (Units × JsValue ν κ)), true) ms).1 key =
        (latest key ms).map (assignEval number) := fun key hne => by
    rw [property_assignMembers number (Or.inr hne), property, Option.or_none]
  have hproto := property_proto (κ := κ) number ms []
  rw [property] at hproto
  constructor
  · intro h
    have hkept : (latest protoKey ms).isSome → protoKept ms = true := by
      intro hsome
      have hrel := h protoKey
      obtain ⟨t, ht⟩ := Option.isSome_iff_exists.mp hsome
      rw [hproto, hjson, ht] at hrel
      by_contra hno
      rw [if_neg hno] at hrel
      cases hrel
    refine ⟨hkept, ?_⟩
    intro key t ht
    have hrel := h key
    apply (ih (key, t) (latest_mem ht)).mp
    rw [hjson, ht] at hrel
    by_cases hkey : key = protoKey
    · subst hkey
      rw [hproto, if_pos (hkept (by rw [ht]; rfl)), ht] at hrel
      cases hrel with
      | some h => exact h
    · rw [hplain key hkey, ht] at hrel
      cases hrel with
      | some h => exact h
  · intro ⟨hkept, hlatest⟩ key
    have hassign : property (assignMembers number (([] : List (Units × JsValue ν κ)), true) ms).1
        key = (latest key ms).map (assignEval number) := by
      by_cases hkey : key = protoKey
      · subst hkey
        rw [hproto]
        split_ifs with hyes
        · rfl
        · rw [Option.not_isSome_iff_eq_none.mp fun hsome => hyes (hkept hsome)]
          rfl
      · exact hplain key hkey
    rw [hassign, hjson]
    cases ht : latest key ms with
    | none => exact .none
    | some t => exact .some ((ih (key, t) (latest_mem ht)).mpr (hlatest key t ht))

mutual

theorem same_iff : ∀ t : Syn,
    Same (assignEval number t : JsValue ν κ) (jsonEval number t) ↔ Agrees t
  | .null => iff_of_true (.refl _) trivial
  | .bool _ => iff_of_true (.refl _) trivial
  | .num _ => iff_of_true (.refl _) trivial
  | .str _ => iff_of_true (.refl _) trivial
  | .arr items => by
    rw [assignEval, jsonEval, same_arr, Agrees]
    exact same_items items
  | .obj ms => same_members number (same_each ms)

theorem same_items : ∀ ts : List Syn,
    List.Forall₂ Same (assignItems number ts : List (JsValue ν κ)) (jsonItems number ts) ↔
      AllAgree ts
  | [] => iff_of_true .nil trivial
  | t :: rest => by
    rw [assignItems, jsonItems, List.forall₂_cons, same_iff t, same_items rest, AllAgree]

theorem same_each : ∀ (ms : List (Units × Syn)), ∀ m ∈ ms,
    (Same (assignEval number m.2 : JsValue ν κ) (jsonEval number m.2) ↔ Agrees m.2)
  | [], m, h => absurd h List.not_mem_nil
  | (k, t) :: rest, m, h => by
    rw [List.mem_cons] at h
    obtain rfl | h := h
    · exact same_iff t
    · exact same_each rest m h

end

/-- On every JSON text the parser and `JSON.parse` come to the same value just where no member
named `__proto__` gets lost. -/
theorem parseRelaxed_json (host : Host ν κ) {t : Syn} {src : Units} (h : Text t src) :
    (∃ v, parseRelaxed host src = .ok v ∧ Same v (jsonEval host.number t)) ↔ Agrees t := by
  rw [parseRelaxed_text host h, ← same_iff (κ := κ) host.number t]
  constructor
  · rintro ⟨v, hv, hsame⟩
    obtain rfl := Except.ok.inj hv
    exact hsame
  · intro hsame
    exact ⟨_, rfl, hsame⟩

/-! ## Two texts -/

/-- A parser that leaves numbers as they are written and knows no helper. -/
def bareHost : Host Units Empty where
  number := id
  isPattern _ _ := false
  helper := none

theorem StringText.plain_all {s : Units} (h : ∀ c ∈ s, 32 ≤ c ∧ c ≠ 34 ∧ c ≠ 92) :
    StringText s s := by
  induction s with
  | nil => exact .nil
  | cons c s ih =>
    obtain ⟨hc, hquote, hback⟩ := h c List.mem_cons_self
    exact .plain hc hquote hback (ih fun x hx => h x (List.mem_cons_of_mem c hx))

theorem space_nil : Space [] := fun _ hc => absurd hc List.not_mem_nil

theorem spells_one : Spells (.value (.num (units "1"))) (units "1") := by
  have hone : JsonNumber ([] ++ ([49] ++ ([] ++ []))) :=
    .mk (Or.inl rfl) (.digits (by decide) (by decide)) .none .none
  exact .num hone

/-- An object with one member, whose value is 1. -/
theorem spells_single {s : Units} (h : ∀ c ∈ s, 32 ≤ c ∧ c ≠ 34 ∧ c ≠ 92) :
    Spells (.value (.obj [(s, .num (units "1"))])) (123 :: 34 :: (s ++ [34, 58, 49, 125])) := by
  have hspells := Spells.obj (.lastMember space_nil (StringText.plain_all h) space_nil space_nil
    space_nil spells_one)
  simpa [units] using hspells

theorem parseRelaxed_json_single :
    (∃ v, parseRelaxed bareHost (units "\x7b\"a\":1\x7d") = .ok v ∧
      Same v (jsonEval bareHost.number (.obj [(units "a", .num (units "1"))]))) ↔
      Agrees (.obj [(units "a", .num (units "1"))]) :=
  parseRelaxed_json bareHost
    (.mk (a := []) (b := []) space_nil space_nil (spells_single (s := units "a") (by decide)))

/-- `{"__proto__":1}` is read as an object without properties. -/
theorem parseRelaxed_loses_proto : ∃ t,
    Text t (units "\x7b\"__proto__\":1\x7d") ∧
      ¬ ∃ v, parseRelaxed bareHost (units "\x7b\"__proto__\":1\x7d") = .ok v ∧
        Same v (jsonEval bareHost.number t) := by
  have htext : Text (.obj [(protoKey, .num (units "1"))]) (units "\x7b\"__proto__\":1\x7d") :=
    .mk (a := []) (b := []) space_nil space_nil (spells_single (s := protoKey) (by decide))
  refine ⟨_, htext, ?_⟩
  rintro ⟨v, hv, hsame⟩
  rw [parseRelaxed_text bareHost htext] at hv
  obtain rfl := Except.ok.inj hv
  have hagrees := (same_iff (κ := Empty) bareHost.number _).mp hsame
  rw [Agrees] at hagrees
  exact absurd (hagrees.1 (by decide)) (by decide)

end

end OpsMaxx.Relaxed
