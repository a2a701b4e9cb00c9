import Mathlib.Data.List.Forall2
import OpsMaxx.Frp.Config

/-!
# The templates in a text

frpc expands what stands between double braces in the whole of its file. `actions` is what opens
there: the name of an environment variable, or anything else.
-/

set_option autoImplicit false

namespace OpsMaxx.Frp

open OpsMaxx.Strings (Text)

/-! ## Reading -/

def isEnvChar (c : Char) : Bool := c.isAlphanum || c = '_'

/-- The variable that `\x7b\x7b .Envs.NAME \x7d\x7d` names, if that is what a text begins with. -/
def envName (t : Text) : Option Text :=
  if "\x7b\x7b .Envs.".toList.isPrefixOf t then
    let name := (t.drop 9).takeWhile isEnvChar
    if " \x7d\x7d".toList.isPrefixOf (t.drop (9 + name.length)) then some name else none
  else none

def actionHere : Text → List (Option Text)
  | '\x7b' :: '\x7b' :: rest => [envName ('\x7b' :: '\x7b' :: rest)]
  | _ => []

/-- What opens anywhere in a text. -/
def actions : Text → List (Option Text)
  | [] => []
  | c :: cs => actionHere (c :: cs) ++ actions cs

/-- Whatever comes behind it, this is what opens in a text. -/
def Reads (t : Text) (found : List (Option Text)) : Prop :=
  ∀ rest, actions (t ++ rest) = found ++ actions rest

theorem Reads.whole {t : Text} {found : List (Option Text)} (h : Reads t found) :
    actions t = found := by
  have h₀ := h []
  rw [List.append_nil] at h₀
  exact h₀.trans (List.append_nil found)

theorem Reads.append {a b : Text} {found more : List (Option Text)} (ha : Reads a found)
    (hb : Reads b more) : Reads (a ++ b) (found ++ more) := by
  intro rest
  rw [List.append_assoc, ha, hb, List.append_assoc]

theorem Reads.nil : Reads [] [] := fun _ => rfl

theorem actionHere_single {c : Char} {rest : Text} (h : ¬ (c = '\x7b' ∧ rest.head? = some '\x7b')) :
    actionHere (c :: rest) = [] := by
  unfold actionHere
  split
  · rename_i heq
    obtain ⟨rfl, rfl⟩ := List.cons.inj heq
    exact absurd ⟨rfl, rfl⟩ h
  · rfl

theorem hasTemplateOpen_cons {c : Char} {cs : Text} (h : hasTemplateOpen (c :: cs) = false) :
    ¬ (c = '\x7b' ∧ cs.head? = some '\x7b') ∧ hasTemplateOpen cs = false := by
  unfold hasTemplateOpen at h
  split at h
  · cases h
  · rename_i hne heq
    obtain ⟨rfl, rfl⟩ := List.cons.inj heq
    refine ⟨?_, h⟩
    rintro ⟨rfl, hhead⟩
    cases cs with
    | nil => cases hhead
    | cons d ds =>
      cases hhead
      exact hne ds rfl rfl
  · rename_i heq
    cases heq

/-- A text in which nothing opens, and that ends in no brace. -/
theorem Reads.calm {t : Text} (h : hasTemplateOpen t = false) (hlast : t.getLast? ≠ some '\x7b') :
    Reads t [] := by
  intro rest
  induction t with
  | nil => rfl
  | cons c cs ih =>
    obtain ⟨hfirst, hrest⟩ := hasTemplateOpen_cons h
    have hhere : actionHere (c :: (cs ++ rest)) = [] := by
      apply actionHere_single
      rintro ⟨rfl, hhead⟩
      cases cs with
      | nil => exact hlast rfl
      | cons d ds => exact hfirst ⟨rfl, hhead⟩
    have hlast' : cs.getLast? ≠ some '\x7b' := by
      cases cs with
      | nil => simp
      | cons d ds =>
        rw [List.getLast?_cons_cons] at hlast
        exact hlast
    show actionHere (c :: (cs ++ rest)) ++ actions (cs ++ rest) = _
    rw [hhere, ih hrest hlast']
    rfl

theorem hasTemplateOpen_of_not_mem {t : Text} (h : '\x7b' ∉ t) : hasTemplateOpen t = false := by
  induction t with
  | nil => rfl
  | cons c cs ih =>
    unfold hasTemplateOpen
    split
    · rename_i heq
      obtain ⟨rfl, -⟩ := List.cons.inj heq
      exact absurd List.mem_cons_self h
    · rename_i heq
      obtain ⟨rfl, rfl⟩ := List.cons.inj heq
      exact ih fun hm => h (List.mem_cons_of_mem _ hm)
    · rfl

theorem Reads.plain {t : Text} (h : '\x7b' ∉ t) : Reads t [] :=
  .calm (hasTemplateOpen_of_not_mem h) fun hlast => h (List.mem_of_getLast? hlast)

/-- Texts one behind the other, with a text between them in which nothing opens. -/
theorem Reads.intercalate {s : Text} (hsep : '\x7b' ∉ s) {ts : List Text}
    {founds : List (List (Option Text))} (h : List.Forall₂ Reads ts founds) :
    Reads (s.intercalate ts) founds.flatten := by
  induction h with
  | nil => exact .nil
  | cons hhead htail ih =>
    cases htail with
    | nil =>
      rw [List.intercalate_singleton, List.flatten_singleton]
      exact hhead
    | cons hnext hmore =>
      rw [List.intercalate_cons_cons, List.flatten_cons]
      have hboth := hhead.append (Reads.plain hsep)
      rw [List.append_nil] at hboth
      exact hboth.append ih

/-! ## What is written -/

theorem isSafe_calm {value : Text} (h : isSafeTomlString value = true) :
    hasTemplateOpen value = false := by
  simp only [isSafeTomlString, Bool.and_eq_true, Bool.not_eq_true'] at h
  exact h.1.2

theorem hasTemplateOpen_append_quote {t : Text} (h : hasTemplateOpen t = false) :
    hasTemplateOpen (t ++ ['"']) = false := by
  induction t with
  | nil => rfl
  | cons c cs ih =>
    obtain ⟨hfirst, hrest⟩ := hasTemplateOpen_cons h
    show hasTemplateOpen (c :: (cs ++ ['"'])) = false
    unfold hasTemplateOpen
    split
    · rename_i heq
      obtain ⟨rfl, hcs⟩ := List.cons.inj heq
      cases cs with
      | nil => cases hcs
      | cons d ds =>
        cases hcs
        exact absurd ⟨rfl, rfl⟩ hfirst
    · rename_i heq
      obtain ⟨rfl, rfl⟩ := List.cons.inj heq
      exact ih hrest
    · rfl

theorem quote_ok {value t : Text} (h : quote value = .ok t) :
    isSafeTomlString value = true ∧ t = '"' :: (value ++ ['"']) := by
  unfold quote at h
  split_ifs at h with hsafe
  cases h
  exact ⟨by simpa using hsafe, rfl⟩

theorem quote_safe {value : Text} (h : isSafeTomlString value = true) :
    quote value = .ok ('"' :: (value ++ ['"'])) := by
  unfold quote
  rw [h]
  rfl

theorem reads_quote {value t : Text} (h : quote value = .ok t) : Reads t [] := by
  obtain ⟨hsafe, rfl⟩ := quote_ok h
  apply Reads.calm
  · have hopen := hasTemplateOpen_append_quote (isSafe_calm hsafe)
    unfold hasTemplateOpen
    split
    · rename_i heq
      cases heq
    · rename_i heq
      obtain ⟨-, rfl⟩ := List.cons.inj heq
      exact hopen
    · rfl
  · rw [← List.cons_append, List.getLast?_concat]
    decide

theorem envName_template {name : Text} (h : ∀ c ∈ name, isEnvChar c = true) (rest : Text) :
    envName ("\x7b\x7b .Envs.".toList ++ name ++ " \x7d\x7d\"".toList ++ rest) = some name := by
  have hprefix : "\x7b\x7b .Envs.".toList.isPrefixOf
      ("\x7b\x7b .Envs.".toList ++ name ++ " \x7d\x7d\"".toList ++ rest) = true := by
    rw [List.isPrefixOf_iff_prefix, List.append_assoc, List.append_assoc]
    exact List.prefix_append _ _
  have hdrop : ("\x7b\x7b .Envs.".toList ++ name ++ " \x7d\x7d\"".toList ++ rest).drop 9 =
      name ++ (" \x7d\x7d\"".toList ++ rest) := by
    rw [List.append_assoc, List.append_assoc]
    rfl
  have hname : (name ++ (" \x7d\x7d\"".toList ++ rest)).takeWhile isEnvChar = name := by
    rw [List.takeWhile_append_of_pos h]
    exact List.append_nil name
  unfold envName
  rw [if_pos hprefix, hdrop, hname]
  dsimp only
  rw [← List.drop_drop, hdrop, List.drop_left, if_pos]
  rfl

theorem reads_envTemplate {name : Text} (h : ∀ c ∈ name, isEnvChar c = true) :
    Reads (envTemplate name) [some name] := by
  intro rest
  have hplain : Reads (" .Envs.".toList ++ name ++ " \x7d\x7d\"".toList) [] := by
    apply Reads.plain
    intro hmem
    rw [List.mem_append, List.mem_append] at hmem
    obtain (hmem | hmem) | hmem := hmem
    · exact absurd hmem (by decide)
    · exact absurd (h _ hmem) (by decide)
    · exact absurd hmem (by decide)
  have hname := envName_template h rest
  have htext : envTemplate name ++ rest = '"' :: '\x7b' :: '\x7b' ::
      (" .Envs.".toList ++ name ++ " \x7d\x7d\"".toList ++ rest) := by
    unfold envTemplate
    rw [List.append_assoc, List.append_assoc, List.append_assoc, List.append_assoc]
    rfl
  have hhere : actionHere ('\x7b' :: (" .Envs.".toList ++ name ++ " \x7d\x7d\"".toList ++ rest)) =
      [] := rfl
  rw [htext]
  show [] ++ ([envName ('\x7b' :: '\x7b' ::
      (" .Envs.".toList ++ name ++ " \x7d\x7d\"".toList ++ rest))] ++
    (actionHere ('\x7b' :: (" .Envs.".toList ++ name ++ " \x7d\x7d\"".toList ++ rest)) ++
      actions (" .Envs.".toList ++ name ++ " \x7d\x7d\"".toList ++ rest))) = _
  rw [hhere, hplain rest]
  rw [show ('\x7b' :: '\x7b' :: (" .Envs.".toList ++ name ++ " \x7d\x7d\"".toList ++ rest)) =
    "\x7b\x7b .Envs.".toList ++ name ++ " \x7d\x7d\"".toList ++ rest by rfl, hname]
  rfl

end OpsMaxx.Frp
