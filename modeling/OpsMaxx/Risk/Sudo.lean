import OpsMaxx.Risk.Command

/-!
# A grade behind sudo

Whatever is destructive by itself is destructive behind assignments, `sudo` or `doas`, and options
of the grammar that the comments of the rules give, as long as no value that is set with `=` has a
blank in it.
-/

set_option autoImplicit false

namespace OpsMaxx.Risk

open OpsMaxx.Strings
open OpsMaxx.Strings.Regex

/-! ## The grammar -/

structure Gap where
  text : Text
  ne : text ≠ []
  blank : ∀ c ∈ text, isSpace c = true

/-- A run of characters without blanks in it. -/
structure Word where
  text : Text
  ne : text ≠ []
  inked : ∀ c ∈ text, isInk c = true

def isBooleanFlag (c : Char) : Bool := c.isAlpha && !SUDO_VALUE_SHORT.toList.contains c

inductive Quote
  | single
  | double

def Quote.char : Quote → Char
  | .single => '\''
  | .double => '"'

/-- A value that is a word of its own: bare, or in quotes. -/
inductive Value
  | bare (word : Word) (h : word.text.head? ≠ some '-')
  | quoted (q : Quote) (inner : Text) (h : q.char ∉ inner)

def Value.text : Value → Text
  | .bare word _ => word.text
  | .quoted q inner _ => q.char :: (inner ++ [q.char])

/-- What stands behind `=`. -/
inductive SetTo
  | nothing
  | bare (word : Word)
  | quoted (q : Quote) (inner : Text) (h : q.char ∉ inner)

def SetTo.text : SetTo → Text
  | .nothing => []
  | .bare word => word.text
  | .quoted q inner _ => q.char :: (inner ++ [q.char])

def SetTo.Blankless (v : SetTo) : Prop := ∀ c ∈ v.text, isInk c = true

structure Assignment where
  name : Text
  ne : name ≠ []
  word : ∀ c ∈ name, isWordChar c = true
  value : SetTo

def Assignment.text (a : Assignment) : Text := a.name ++ '=' :: a.value.text

inductive SudoOption
  | flags (letters : Text) (ne : letters ≠ []) (h : ∀ c ∈ letters, isBooleanFlag c = true)
  | attached (lead : Text) (h : ∀ c ∈ lead, isBooleanFlag c = true) (flag : Char)
      (hflag : flag ∈ SUDO_VALUE_SHORT.toList) (value : Word)
  | separated (lead : Text) (h : ∀ c ∈ lead, isBooleanFlag c = true) (flag : Char)
      (hflag : flag ∈ SUDO_VALUE_SHORT.toList) (gap : Gap) (value : Value)
  | long (name : Word)
  | longSet (name : Word) (value : SetTo)
  | longSeparated (name : String) (h : name ∈ SUDO_VALUE_LONG) (gap : Gap) (value : Value)
  | dashes
  | assign (a : Assignment)

def SudoOption.text : SudoOption → Text
  | .flags letters _ _ => '-' :: letters
  | .attached lead _ flag _ value => '-' :: (lead ++ flag :: value.text)
  | .separated lead _ flag _ gap value => '-' :: (lead ++ flag :: (gap.text ++ value.text))
  | .long name => "--".toList ++ name.text
  | .longSet name value => "--".toList ++ name.text ++ '=' :: value.text
  | .longSeparated name _ gap value => "--".toList ++ name.toList ++ gap.text ++ value.text
  | .dashes => "--".toList
  | .assign a => a.text

inductive Escalation
  | viaSudo
  | viaDoas

def Escalation.text : Escalation → Text
  | .viaSudo => "sudo".toList
  | .viaDoas => "doas".toList

/-- What stands before a command: assignments, sudo, and its options. -/
structure SudoPrefix where
  assignments : List (Assignment × Gap)
  escalation : Escalation
  gap : Gap
  options : List (SudoOption × Gap)

def SudoPrefix.text (p : SudoPrefix) : Text :=
  (p.assignments.flatMap fun a => a.1.text ++ a.2.text) ++ p.escalation.text ++ p.gap.text ++
    p.options.flatMap fun o => o.1.text ++ o.2.text

/-- A variable is set to a word that is not empty. -/
def Assignment.Plain (a : Assignment) : Prop := a.value.text ≠ [] ∧ a.value.Blankless

def SudoOption.Plain : SudoOption → Prop
  | .longSet _ value => value.Blankless
  | .assign a => a.Plain
  | _ => True

/-- Nothing that is set with `=` has a blank in it. -/
def SudoPrefix.Plain (p : SudoPrefix) : Prop :=
  (∀ a ∈ p.assignments, a.1.Plain) ∧ ∀ o ∈ p.options, o.1.Plain

/-! ## What the pieces match -/

theorem run_blanks (g : Gap) (prev : Option Char) (rest : Text) :
    Run (plus sp) ⟨prev, g.text ++ rest⟩ ⟨lastOf prev g.text, rest⟩ :=
  run_plus_chars g.ne g.blank prev rest

theorem run_ink {w : Text} (hne : w ≠ []) (hw : ∀ c ∈ w, isInk c = true) (prev : Option Char)
    (rest : Text) : Run (plus ink) ⟨prev, w ++ rest⟩ ⟨lastOf prev w, rest⟩ :=
  run_plus_chars hne hw prev rest

theorem run_ch (c : Char) (prev : Option Char) (rest : Text) :
    Run (ch c) ⟨prev, c :: rest⟩ ⟨some c, rest⟩ := run_chars (by simp) prev rest

theorem run_assignment {a : Assignment} (ha : a.Plain) (prev : Option Char) (rest : Text) :
    Run assignment ⟨prev, a.text ++ rest⟩ ⟨lastOf prev a.text, rest⟩ := by
  have hname := run_plus_chars a.ne a.word prev ('=' :: (a.value.text ++ rest))
  have hvalue := run_ink ha.1 ha.2 (some '=') rest
  have htext : a.text ++ rest = a.name ++ '=' :: (a.value.text ++ rest) := by
    simp [Assignment.text]
  rw [htext, Assignment.text, lastOf_append]
  exact ⟨_, hname, _, run_ch '=' _ _, _, hvalue, rfl⟩

theorem run_value (v : Value) (prev : Option Char) (rest : Text) :
    Run SUDO_VALUE ⟨prev, v.text ++ rest⟩ ⟨lastOf prev v.text, rest⟩ := by
  cases v with
  | bare word h =>
    exact run_anyOf (a := plus ink) (by simp) (run_ink word.ne word.inked prev rest)
  | quoted q inner h =>
    have hinner : ∀ c ∈ inner, (c ≠ q.char : Bool) = true := by
      intro c hc
      apply decide_eq_true
      rintro rfl
      exact h hc
    have hquoted : Run (quotedBy q.char)
        ⟨prev, (Value.quoted q inner h).text ++ rest⟩
        ⟨lastOf prev (Value.quoted q inner h).text, rest⟩ := by
      have htext : (Value.quoted q inner h).text ++ rest =
          q.char :: (inner ++ q.char :: rest) := by
        simp [Value.text]
      have hlast : lastOf prev (Value.quoted q inner h).text = some q.char := by
        rw [Value.text, lastOf, lastOf_append]
        rfl
      rw [htext, hlast]
      exact ⟨_, run_ch _ _ _, _, run_star_chars hinner _ _, _, run_ch _ _ _, rfl⟩
    cases q with
    | single => exact run_anyOf (a := quotedBy '\'') (by simp) hquoted
    | double => exact run_anyOf (a := quotedBy '"') (by simp) hquoted

theorem Value.no_dash (v : Value) (prev : Option Char) (rest : Text) :
    ¬ ∃ q, Run (ch '-') ⟨prev, v.text ++ rest⟩ q := by
  rintro ⟨q, c, after, hrest, hc, -⟩
  have hdash : (v.text ++ rest).head? = some '-' := by
    have hc' : c = '-' := by simpa using hc
    rw [show v.text ++ rest = c :: after from hrest, hc']
    rfl
  cases v with
  | bare word h =>
    rw [Value.text, List.head?_append_of_ne_nil _ word.ne] at hdash
    exact h hdash
  | quoted q inner h =>
    cases q with
    | single => cases hdash
    | double => cases hdash

theorem booleanFlag_alpha {c : Char} (h : isBooleanFlag c = true) : c.isAlpha = true :=
  (Bool.and_eq_true _ _ ▸ h).1

theorem valueFlag_alpha {c : Char} (h : c ∈ SUDO_VALUE_SHORT.toList) : c.isAlpha = true := by
  have hall : ∀ c ∈ SUDO_VALUE_SHORT.toList, c.isAlpha = true := by decide
  exact hall c h

/-- A bundle that ends in a flag with a value. -/
theorem bundle_inked {lead : Text} {flag : Char} (hlead : ∀ c ∈ lead, isBooleanFlag c = true)
    (hflag : flag ∈ SUDO_VALUE_SHORT.toList) : ∀ c ∈ lead ++ [flag], isInk c = true := by
  intro c hc
  rw [List.mem_append, List.mem_singleton] at hc
  obtain hc | rfl := hc
  · exact isInk_of_isAlpha (booleanFlag_alpha (hlead c hc))
  · exact isInk_of_isAlpha (valueFlag_alpha hflag)

/-- Any word that begins with a dash is an option. -/
theorem run_dashed {w : Text} (hne : w ≠ []) (hw : ∀ c ∈ w, isInk c = true) (prev : Option Char)
    (rest : Text) : Run SUDO_OPT ⟨prev, '-' :: w ++ rest⟩ ⟨lastOf prev ('-' :: w), rest⟩ := by
  refine run_anyOf (a := cat [ch '-', plus ink]) (by simp) ?_
  exact ⟨_, run_ch '-' _ _, _, run_ink hne hw _ rest, rfl⟩

theorem run_separateValue {w : Text} (hne : w ≠ []) (hw : ∀ c ∈ w, isInk c = true) (gap : Gap)
    (value : Value) (prev : Option Char) (rest : Text) :
    Run separateValue ⟨prev, w ++ (gap.text ++ (value.text ++ rest))⟩
      ⟨lastOf prev (w ++ (gap.text ++ value.text)), rest⟩ := by
  rw [lastOf_append, lastOf_append]
  exact ⟨_, run_ink hne hw _ _, _, run_blanks gap _ _, _, ⟨value.no_dash _ _, rfl⟩, _,
    run_value value _ rest, rfl⟩

/-- The first blank behind a flag. -/
theorem run_sp (gap : Gap) (prev : Option Char) (rest : Text) :
    ∃ q, Run (cat [sp]) ⟨prev, gap.text ++ rest⟩ q := by
  cases htext : gap.text with
  | nil => exact absurd htext gap.ne
  | cons c cs =>
    have hc : isSpace c = true := gap.blank c (htext ▸ List.mem_cons_self)
    exact ⟨_, _, run_chars hc _ _, rfl⟩

theorem run_option {o : SudoOption} (ho : o.Plain) (prev : Option Char) (rest : Text) :
    Run SUDO_OPT ⟨prev, o.text ++ rest⟩ ⟨lastOf prev o.text, rest⟩ := by
  cases o with
  | flags letters ne h =>
    exact run_dashed ne (fun c hc => isInk_of_isAlpha (booleanFlag_alpha (h c hc))) prev rest
  | attached lead h flag hflag value =>
    refine run_dashed (w := lead ++ flag :: value.text) (by simp) ?_ prev rest
    intro c hc
    rw [List.append_cons, List.mem_append] at hc
    exact hc.elim (bundle_inked h hflag c) (value.inked c)
  | separated lead h flag hflag gap value =>
    refine run_anyOf (a := cat [ahead (cat [ch '-', star letter, among SUDO_VALUE_SHORT, sp]),
      ch '-', separateValue]) (by simp) ?_
    have htext : (SudoOption.separated lead h flag hflag gap value).text =
        '-' :: (lead ++ [flag] ++ (gap.text ++ value.text)) := by
      simp [SudoOption.text]
    have hwhole : (SudoOption.separated lead h flag hflag gap value).text ++ rest =
        '-' :: (lead ++ flag :: (gap.text ++ (value.text ++ rest))) := by
      simp [SudoOption.text]
    rw [hwhole, htext]
    obtain ⟨q, hq⟩ := run_sp gap (some flag) (value.text ++ rest)
    have hlead := run_star_chars (p := Char.isAlpha)
      (fun c hc => booleanFlag_alpha (h c hc)) (some '-')
      (flag :: (gap.text ++ (value.text ++ rest)))
    have hmember : SUDO_VALUE_SHORT.toList.contains flag = true := List.contains_iff_mem.mpr hflag
    refine ⟨_, ⟨⟨q, _, run_ch '-' _ _, _, hlead, _, run_chars hmember _ _, hq⟩, rfl⟩, _,
      run_ch '-' _ _, _, ?_, rfl⟩
    have hvalue := run_separateValue (w := lead ++ [flag]) (by simp) (bundle_inked h hflag) gap
      value (some '-') rest
    rw [List.append_assoc, List.singleton_append] at hvalue
    exact hvalue
  | long name =>
    refine run_dashed (w := '-' :: name.text) (by simp) ?_ prev rest
    intro c hc
    rw [List.mem_cons] at hc
    obtain rfl | hc := hc
    · decide
    · exact name.inked c hc
  | longSet name value =>
    refine run_dashed (w := '-' :: (name.text ++ '=' :: value.text)) (by simp) ?_ prev rest
    intro c hc
    rw [List.mem_cons, List.mem_append, List.mem_cons] at hc
    obtain rfl | hc | rfl | hc := hc
    · decide
    · exact name.inked c hc
    · decide
    · exact ho c hc
  | longSeparated name h gap value =>
    refine run_anyOf (a := cat [ahead (cat [lit "--".toList, words SUDO_VALUE_LONG, sp]),
      lit "--".toList, separateValue]) (by simp) ?_
    have hname : name.toList ≠ [] ∧ ∀ c ∈ name.toList, isInk c = true := by
      have hall : ∀ n ∈ SUDO_VALUE_LONG, n.toList ≠ [] ∧ ∀ c ∈ n.toList, isInk c = true := by
        decide
      exact hall name h
    have htext : (SudoOption.longSeparated name h gap value).text =
        "--".toList ++ (name.toList ++ (gap.text ++ value.text)) := by
      simp [SudoOption.text]
    have hwhole : (SudoOption.longSeparated name h gap value).text ++ rest =
        "--".toList ++ (name.toList ++ (gap.text ++ (value.text ++ rest))) := by
      simp [SudoOption.text]
    rw [hwhole, htext, lastOf_append]
    obtain ⟨q, hq⟩ := run_sp gap (lastOf (lastOf prev "--".toList) name.toList)
      (value.text ++ rest)
    exact ⟨_, ⟨⟨q, _, run_lit _ _ _, _, run_words h _ _, hq⟩, rfl⟩, _, run_lit _ _ _, _,
      run_separateValue hname.1 hname.2 gap value _ rest, rfl⟩
  | dashes => exact run_dashed (w := ['-']) (by simp) (by decide) prev rest
  | assign a => exact run_anyOf (a := assignment) (by simp) (run_assignment ho prev rest)

/-! ## Past the whole prefix -/

/-- Repeats of an expression, each followed by blanks. -/
theorem run_star_gaps {α : Type} {rx : Regex} {f : α → Text} {xs : List (α × Gap)}
    (h : ∀ x ∈ xs, ∀ prev rest, Run rx ⟨prev, f x.1 ++ rest⟩ ⟨lastOf prev (f x.1), rest⟩)
    (prev : Option Char) (rest : Text) :
    Run (star (cat [rx, plus sp])) ⟨prev, (xs.flatMap fun x => f x.1 ++ x.2.text) ++ rest⟩
      ⟨lastOf prev (xs.flatMap fun x => f x.1 ++ x.2.text), rest⟩ := by
  induction xs generalizing prev with
  | nil => exact .refl
  | cons x xs ih =>
    have hhead : Run (cat [rx, plus sp])
        ⟨prev, f x.1 ++ (x.2.text ++ ((xs.flatMap fun x => f x.1 ++ x.2.text) ++ rest))⟩
        ⟨lastOf (lastOf prev (f x.1)) x.2.text,
          (xs.flatMap fun x => f x.1 ++ x.2.text) ++ rest⟩ :=
      ⟨_, h x List.mem_cons_self _ _, _, run_blanks x.2 _ _, rfl⟩
    rw [List.flatMap_cons, lastOf_append, lastOf_append, List.append_assoc, List.append_assoc]
    exact .head hhead (ih (fun y hy => h y (List.mem_cons_of_mem x hy)) _)

theorem run_prefix {p : SudoPrefix} (hp : p.Plain) {rest : Regex} {c : Text} {q : Pos}
    (hrest : rest.headed = true) (h : Run rest ⟨none, c⟩ q) :
    ∃ q, Run (commandStart rest) ⟨none, p.text ++ c⟩ q := by
  have hassign := run_star_gaps (f := Assignment.text)
    (fun x hx prev rest => run_assignment (hp.1 x hx) prev rest) none
    (p.escalation.text ++ (p.gap.text ++ ((p.options.flatMap fun o => o.1.text ++ o.2.text) ++ c)))
  have hescalation : ∀ prev rest, Run (words ["sudo", "doas"])
      ⟨prev, p.escalation.text ++ rest⟩ ⟨lastOf prev p.escalation.text, rest⟩ := by
    intro prev rest
    cases p.escalation with
    | viaSudo => exact run_words (w := "sudo") (by simp) prev rest
    | viaDoas => exact run_words (w := "doas") (by simp) prev rest
  have hoptions := fun prev => run_star_gaps (f := SudoOption.text)
    (fun x hx prev rest => run_option (hp.2 x hx) prev rest) prev c
  have htext : p.text ++ c = (p.assignments.flatMap fun a => a.1.text ++ a.2.text) ++
      (p.escalation.text ++ (p.gap.text ++
        ((p.options.flatMap fun o => o.1.text ++ o.2.text) ++ c))) := by
    simp [SudoPrefix.text]
  rw [htext]
  exact ⟨q, _, Or.inl ⟨rfl, rfl⟩, _, .refl, _, hassign, _,
    Or.inl ⟨_, hescalation _ _, _, run_blanks p.gap _ _, _, hoptions _, rfl⟩, _,
    h.anywhere hrest _, rfl⟩

/-! ## The grade -/

/-- What a rule looks for at the start of a command, if that is where it looks. -/
def restOf : Regex → Option Regex
  | seq (alt start _) (seq _ (seq _ (seq _ (seq rest empty)))) => some rest
  | _ => none

theorem restOf_commandStart (rest : Regex) : restOf (commandStart rest) = some rest := rfl

/-- Each of the rules begins by taking a character. -/
theorem destructive_headed {rest : Regex} {why : String}
    (h : ⟨commandStart rest, why⟩ ∈ DESTRUCTIVE) : rest.headed = true := by
  have hall : ∀ r ∈ DESTRUCTIVE, (restOf r.rx).all headed = true := by
    rw [← List.all_eq_true (p := fun r : Rule => (restOf r.rx).all headed)]
    rfl
  have hrest := hall _ h
  rw [restOf_commandStart] at hrest
  exact hrest

theorem assess_destructive {rx : Regex} {why : String} {command : Text}
    (hmem : ⟨rx, why⟩ ∈ DESTRUCTIVE) (htest : rx.test command = true) :
    (assessCommand command).risk = .destructive := by
  have hreason : why ∈ reasonsOf DESTRUCTIVE command :=
    List.mem_map.mpr ⟨⟨rx, why⟩, List.mem_filter.mpr ⟨hmem, htest⟩, rfl⟩
  unfold assessCommand
  rw [if_pos (List.ne_nil_of_mem hreason)]

/-- What is destructive at the start of a command is destructive behind sudo. -/
theorem sudo_keeps_grade {p : SudoPrefix} (hp : p.Plain) {rest : Regex} {why : String} {c : Text}
    {q : Pos} (hrule : ⟨commandStart rest, why⟩ ∈ DESTRUCTIVE) (hc : Run rest ⟨none, c⟩ q) :
    (assessCommand (p.text ++ c)).risk = .destructive := by
  obtain ⟨q, hrun⟩ := run_prefix hp (destructive_headed hrule) hc
  exact assess_destructive hrule (test_of_run hrun)

def oneBlank : Gap := ⟨[' '], by decide, by decide⟩

def stops : Regex := cat [words ["shutdown", "poweroff", "halt", "reboot"], boundary]

theorem stops_mem : ⟨commandStart stops, "stops or restarts the machine"⟩ ∈ DESTRUCTIVE :=
  List.mem_of_getElem? (i := 6) rfl

theorem stops_reboot : Run stops ⟨none, "reboot".toList⟩ ⟨some 't', []⟩ :=
  (mem_ends _ _ _).mp (by decide +kernel)

/-- `FOO=1 sudo -nu root ` before a command. -/
def asRoot : SudoPrefix where
  assignments :=
    [(⟨"FOO".toList, by decide, by decide, .bare ⟨['1'], by decide, by decide⟩⟩, oneBlank)]
  escalation := .viaSudo
  gap := oneBlank
  options :=
    [(.separated ['n'] (by decide) 'u' (by decide) oneBlank
      (.bare ⟨"root".toList, by decide, by decide⟩ (by decide)), oneBlank)]

theorem sudo_keeps_grade_reboot :
    asRoot.text ++ "reboot".toList = "FOO=1 sudo -nu root reboot".toList ∧
      (assessCommand (asRoot.text ++ "reboot".toList)).risk = .destructive := by
  have hplain : asRoot.Plain := by
    constructor
    · intro a ha
      rw [List.mem_singleton.mp ha]
      exact ⟨by decide, show ∀ c ∈ ['1'], isInk c = true by decide⟩
    · intro o ho
      rw [List.mem_singleton.mp ho]
      trivial
  exact ⟨by decide, sudo_keeps_grade hplain stops_mem stops_reboot⟩

/-- `sudo --prompt='Password: ' ` before a command. -/
def asking : SudoPrefix where
  assignments := []
  escalation := .viaSudo
  gap := oneBlank
  options :=
    [(.longSet ⟨"prompt".toList, by decide, by decide⟩
      (.quoted .single "Password: ".toList (by decide)), oneBlank)]

/-- A quoted value with a blank in it, behind `=`, hides the verb. -/
theorem sudo_loses_grade :
    asking.text ++ "reboot".toList = "sudo --prompt='Password: ' reboot".toList ∧
      ⟨commandStart stops, "stops or restarts the machine"⟩ ∈ DESTRUCTIVE ∧
      Run stops ⟨none, "reboot".toList⟩ ⟨some 't', []⟩ ∧
      (assessCommand "reboot".toList).risk = .destructive ∧
      (assessCommand (asking.text ++ "reboot".toList)).risk = .elevated :=
  ⟨by decide, stops_mem, stops_reboot, by decide +kernel, by decide +kernel⟩

end OpsMaxx.Risk
