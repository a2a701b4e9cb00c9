import OpsMaxx.Cron.Edit

/-! # What an edit keeps

The planner rebuilds the edited line from its parts. The schedule's bytes are reused when the
schedule stays the same. The command's bytes are written anew from the command as it was read, so
they come back as they were exactly when every backslash in them stands in an escape.
-/

set_option autoImplicit false

namespace OpsMaxx.Cron
open OpsMaxx.Strings

/-! ## The command as it stands in the file -/

/-- The command's bytes, and the bytes after the percent sign that ends it. -/
@[grind =] def cutPercent : Text → Text × Option Text
  | [] => ([], none)
  | '\\' :: c :: rest =>
    if isEscape c then (cutPercent rest).map (fun t => '\\' :: c :: t) id
    else (cutPercent (c :: rest)).map ('\\' :: ·) id
  | c :: rest => if c = '%' then ([], some rest) else (cutPercent rest).map (c :: ·) id

def commandBytes (rest : Text) : Text := (cutPercent rest).1

def inputBytes (rest : Text) : Option Text := (cutPercent rest).2

/-- Every backslash is the first of a pair the reader undoes. -/
def wellEscaped : Text → Bool
  | [] => true
  | '\\' :: c :: rest => isEscape c && wellEscaped rest
  | c :: rest => c ≠ '\\' && wellEscaped rest

theorem cutPercent_join (t : Text) :
    commandBytes t ++ (inputBytes t).elim [] ('%' :: ·) = t := by
  unfold commandBytes inputBytes
  fun_induction cutPercent t with
  | case1 => rfl
  | case2 c rest hc ih => simpa using ih
  | case3 c rest hc ih => simpa using ih
  | case4 rest => rfl
  | case5 c rest _ hc ih => simpa using ih

theorem cutPercent_input (t : Text) : (unescapeHead t).2 = inputBytes t := by
  unfold inputBytes
  fun_induction cutPercent t with
  | case1 => rfl
  | case2 c rest hc ih =>
    unfold unescapeHead
    simpa [hc] using ih
  | case3 c rest hc ih =>
    unfold unescapeHead
    simpa [hc] using ih
  | case4 rest =>
    unfold unescapeHead
    simp
  | case5 c rest hne hc ih =>
    unfold unescapeHead
    simpa [hc] using ih

@[simp] theorem escape_nil : escape [] = [] := rfl

theorem escape_cons (c : Char) (s : Text) :
    escape (c :: s) = (if isEscape c then ['\\', c] else [c]) ++ escape s := rfl

theorem isEscape_backslash : isEscape '\\' = true := rfl

/-- A command is written back as it stood exactly when all its backslashes stand in escapes. -/
theorem escape_unescapeHead_iff (t : Text) :
    escape (unescapeHead t).1 = commandBytes t ↔ wellEscaped (commandBytes t) = true := by
  unfold commandBytes
  fun_induction cutPercent t with
  | case1 => simp [unescapeHead, wellEscaped]
  | case2 c rest hc ih =>
    unfold unescapeHead
    simpa [hc, escape_cons, wellEscaped] using ih
  | case3 c rest hc ih =>
    have hne : c ≠ '\\' := by
      intro h
      simp [h, isEscape] at hc
    have hpct : c ≠ '%' := by
      intro h
      simp [h, isEscape] at hc
    have hcut : (cutPercent (c :: rest)).1 = c :: (cutPercent rest).1 := by
      conv => lhs; unfold cutPercent
      simp [hne, hpct]
    unfold unescapeHead
    simp only [hc, if_false, Bool.false_eq_true, Prod.map_fst, escape_cons, isEscape_backslash,
      if_true, hcut, List.cons_append, List.cons.injEq, true_and]
    simp [wellEscaped, hc, Ne.symm hne]
  | case4 rest =>
    unfold unescapeHead
    simp [wellEscaped]
  | case5 c rest hne hc ih =>
    have hsplit : (unescapeHead (c :: rest)).1 = c :: (unescapeHead rest).1 := by
      conv => lhs; unfold unescapeHead
      split <;> simp_all
    rw [hsplit]
    by_cases hb : c = '\\'
    · have hrest : rest = [] := by
        cases rest with
        | nil => rfl
        | cons d ds => exact absurd hb (fun hb => hne d ds hb rfl)
      subst hb
      subst hrest
      simp [unescapeHead, cutPercent, escape_cons, isEscape, wellEscaped]
    · have hesc : isEscape c = false := by simp [isEscape, hc, hb]
      have hwell : wellEscaped (c :: (cutPercent rest).1) = wellEscaped (cutPercent rest).1 := by
        conv => lhs; unfold wellEscaped
        simp [hb]
      simp only [escape_cons, hesc, Prod.map_fst, hwell, Bool.false_eq_true, if_false,
        List.singleton_append, List.cons.injEq, true_and]
      exact ih

/-! ## The text for stdin -/

/-- What `serialiseCronCommand` writes after the percent sign. -/
def serialiseInput (input : Text) : Text :=
  ['%'].intercalate ((input.splitOn '\n').map escape)

theorem serialiseInput_cons (c : Char) (s : Text) :
    serialiseInput (c :: s) = (if c = '\n' then ['%'] else escape [c]) ++ serialiseInput s := by
  have hne := List.splitOn_ne_nil '\n' s
  unfold serialiseInput
  rw [List.splitOn_cons_eq_if_modifyHead]
  cases hs : s.splitOn '\n' with
  | nil => exact absurd hs hne
  | cons p ps =>
    by_cases hc : c = '\n'
    · simp [hc, List.intercalate]
    · cases ps with
      | nil => simp [hc, List.intercalate, escape]
      | cons q qs => simp [hc, List.intercalate, escape]

theorem escape_singleton (c : Char) : escape [c] = if isEscape c then ['\\', c] else [c] := by
  simp [escape]

/-- The same for stdin, whose raw text holds no newline since a line does not. -/
theorem serialiseInput_unescapeInput_iff {t : Text} (ht : '\n' ∉ t) :
    serialiseInput (unescapeInput t) = t ↔ wellEscaped t = true := by
  fun_induction wellEscaped t with
  | case1 => simp [unescapeInput, serialiseInput, List.intercalate]
  | case2 c rest ih =>
    simp only [List.mem_cons, not_or] at ht
    obtain ⟨_, hc, hrest⟩ := ht
    by_cases hesc : isEscape c = true
    · have hin : unescapeInput ('\\' :: c :: rest) = c :: unescapeInput rest := by
        conv => lhs; unfold unescapeInput
        simp [hesc]
      rw [hin, serialiseInput_cons, if_neg (Ne.symm hc), escape_singleton, if_pos hesc]
      simpa [hesc] using ih hrest
    · have hne : c ≠ '\\' := by
        intro h
        simp [h, isEscape] at hesc
      have hin : unescapeInput ('\\' :: c :: rest) = '\\' :: unescapeInput (c :: rest) := by
        conv => lhs; unfold unescapeInput
        simp [hesc]
      rw [hin, serialiseInput_cons, if_neg (by decide), escape_singleton, if_pos isEscape_backslash]
      simp only [hesc, Bool.false_and, Bool.false_eq_true, iff_false]
      intro h
      simp only [List.cons_append, List.nil_append, List.cons.injEq, true_and] at h
      exact hne h.1.symm
  | case3 c rest hne ih =>
    simp only [List.mem_cons, not_or] at ht
    obtain ⟨hc, hrest⟩ := ht
    have hin : unescapeInput (c :: rest) = (if c = '%' then '\n' else c) :: unescapeInput rest := by
      conv => lhs; unfold unescapeInput
      split <;> simp_all
    rw [hin, serialiseInput_cons]
    by_cases hpct : c = '%'
    · subst hpct
      simpa using ih hrest
    · rw [if_neg hpct, if_neg (Ne.symm hc), escape_singleton]
      by_cases hb : c = '\\'
      · subst hb
        simp [isEscape_backslash]
        intro h
        cases rest with
        | nil => simp at h
        | cons d ds => exact absurd rfl (hne d ds rfl)
      · have hesc : isEscape c = false := by simp [isEscape, hpct, hb]
        simpa [hesc, hb] using ih hrest

/-! ## What was written, cut again -/

theorem cutPercent_escape (s tail : Text) (htail : tail = [] ∨ tail.head? = some '%') :
    cutPercent (escape s ++ tail) = (escape s, (cutPercent tail).2) := by
  induction s with
  | nil =>
    rcases htail with rfl | hhead
    · rfl
    · cases tail with
      | nil => simp at hhead
      | cons c rest =>
        have hc : c = '%' := by simpa using hhead
        subst hc
        rfl
  | cons c s ih =>
    rw [escape_cons]
    by_cases hc : isEscape c = true
    · simp only [hc, if_true, List.cons_append, List.nil_append]
      conv => lhs; unfold cutPercent
      simp [hc, ih]
    · have hne : c ≠ '\\' := by
        intro h
        simp [h, isEscape] at hc
      have hpct : c ≠ '%' := by
        intro h
        simp [h, isEscape] at hc
      simp only [hc, Bool.false_eq_true, if_false, List.cons_append, List.nil_append]
      conv => lhs; unfold cutPercent
      simp [hne, hpct, ih]

theorem commandBytes_serialise (command : Text) (input : Option Text) :
    commandBytes (serialiseCronCommand command input) = escape command := by
  unfold commandBytes serialiseCronCommand
  cases input with
  | none => simpa using congrArg Prod.fst (cutPercent_escape command [] (.inl rfl))
  | some i => exact congrArg Prod.fst (cutPercent_escape command _ (.inr rfl))

theorem inputBytes_serialise (command : Text) (input : Option Text) :
    inputBytes (serialiseCronCommand command input) = input.map serialiseInput := by
  unfold inputBytes serialiseCronCommand
  cases input with
  | none => simpa [cutPercent] using congrArg Prod.snd (cutPercent_escape command [] (.inl rfl))
  | some i =>
    have h := congrArg Prod.snd
      (cutPercent_escape command ('%' :: serialiseInput i) (.inr rfl))
    simpa [cutPercent, serialiseInput] using h

/-! ## Lines of the document -/

theorem splitKeepingEol_eq_nil {t : Text} : splitKeepingEol t = [] ↔ t = [] := by
  cases t with
  | nil => simp [splitKeepingEol]
  | cons c cs =>
    simp only [reduceCtorEq, iff_false]
    unfold splitKeepingEol
    split_ifs
    · simp
    · cases splitKeepingEol cs with
      | nil => simp [consLine]
      | cons l rest =>
        obtain ⟨text, eol⟩ := l
        simp only [consLine]
        split_ifs <;> simp

theorem getLast_consLine (c : Char) (l : Text × Text) (rest : List (Text × Text)) :
    ((consLine c (l :: rest)).getLast?.any fun l => l.2 = []) =
      ((l :: rest).getLast?.any fun l => l.2 = []) := by
  obtain ⟨text, eol⟩ := l
  simp only [consLine]
  cases rest with
  | nil =>
    split_ifs with h
    · obtain ⟨_, _, rfl⟩ := h
      simp
    · simp
  | cons m rest =>
    split_ifs <;> simp [List.getLast?_cons_cons]

/-- The last line lacks a terminator when there is text and it does not end in a newline. -/
theorem last_lacks_iff (t : Text) :
    ((splitKeepingEol t).getLast?.any fun l => l.2 = []) = true ↔
      t ≠ [] ∧ t.getLast? ≠ some '\n' := by
  induction t with
  | nil => simp [splitKeepingEol]
  | cons c cs ih =>
    unfold splitKeepingEol
    cases cs with
    | nil =>
      split_ifs with hc
      · simp [splitKeepingEol, hc]
      · simpa [splitKeepingEol, consLine] using hc
    | cons d ds =>
      have hne : splitKeepingEol (d :: ds) ≠ [] := fun h => by
        rw [splitKeepingEol_eq_nil] at h
        cases h
      obtain ⟨l, rest, hl⟩ := List.exists_cons_of_ne_nil hne
      have hlast : (c :: d :: ds).getLast? = (d :: ds).getLast? := List.getLast?_cons_cons
      rw [hlast]
      simp only [ne_eq, reduceCtorEq, not_false_eq_true, true_and] at ih ⊢
      rw [← ih]
      split_ifs with hc
      · rw [hl, List.getLast?_cons_cons]
      · rw [hl, getLast_consLine]

theorem lacksTerminator_iff (t origin : Text) (kind : CronSourceKind) (hasUserField : Bool) :
    lacksTerminator (parseCrontabDocument t origin kind hasUserField).lines = true ↔
      t ≠ [] ∧ t.getLast? ≠ some '\n' := by
  rw [← last_lacks_iff]
  unfold lacksTerminator parseCrontabDocument docOfLines
  simp only [List.getLast?_map]
  cases (splitKeepingEol t).getLast? with
  | none => simp
  | some l => simp

theorem serialise_terminateLast (eol : Text) (lines : List CronDocLine) :
    serialiseLines (terminateLast eol lines) =
      serialiseLines lines ++ if lacksTerminator lines then eol else [] := by
  fun_induction terminateLast eol lines with
  | case1 => rfl
  | case2 l h => simp [serialiseLines, CronDocLine.bytes, lacksTerminator, h]
  | case3 l h => simp [serialiseLines, lacksTerminator, h]
  | case4 l m rest ih =>
    have hlast : lacksTerminator (l :: m :: rest) = lacksTerminator (m :: rest) := by
      unfold lacksTerminator
      rw [List.getLast?_cons_cons]
    rw [hlast]
    unfold serialiseLines at ih ⊢
    simp only [List.flatMap_cons] at ih ⊢
    rw [ih]
    simp only [List.append_assoc]

theorem serialise_append (a b : List CronDocLine) :
    serialiseLines (a ++ b) = serialiseLines a ++ serialiseLines b := by
  unfold serialiseLines
  exact List.flatMap_append

/-- A line of the document, with the lines before and after it. -/
theorem lineAt_split {lines : List CronDocLine} {i : Int} {l : CronDocLine}
    (h : lineAt lines i = some l) :
    ∃ pre post, lines = pre ++ l :: post ∧ pre.length = i.toNat ∧ 0 ≤ i ∧
      (∀ l', lines.set i.toNat l' = pre ++ l' :: post) ∧
      lines.eraseIdx i.toNat = pre ++ post := by
  unfold lineAt at h
  split_ifs at h with hi
  obtain ⟨hlt, hl⟩ := List.getElem?_eq_some_iff.mp h
  have hlen : (lines.take i.toNat).length = i.toNat := by
    rw [List.length_take]
    omega
  have hsplit : lines = lines.take i.toNat ++ l :: lines.drop (i.toNat + 1) := by
    conv => lhs; rw [← List.take_append_drop i.toNat lines]
    rw [List.drop_eq_getElem_cons hlt, hl]
  refine ⟨lines.take i.toNat, lines.drop (i.toNat + 1), hsplit, hlen, hi, ?_, ?_⟩
  · intro l'
    exact List.set_eq_take_append_cons_drop.trans (if_pos hlt)
  · exact List.eraseIdx_eq_take_drop_succ ..

/-! ## Edits that were planned -/

theorem planCronEdit_ok {doc : CronDocument} {edit : CronEdit} {plan : CronEditPlan}
    (h : planCronEdit doc edit = .ok plan) :
    ∃ edited, editLines doc edit = .ok edited ∧ plan.before = serialiseCrontabDocument doc ∧
      plan.after = serialiseLines edited.lines := by
  unfold planCronEdit at h
  split at h
  · cases h
  · split at h
    · cases h
    · split at h
      · cases h
      · rename_i edited hedited
        simp only at h
        split at h
        · cases h
        · cases h
          exact ⟨edited, hedited, rfl, rfl⟩

theorem targetOf_ok {lines : List CronDocLine} {i : Int} {text : Text} {l : CronDocLine}
    (h : targetOf lines i text = .ok l) :
    lineAt lines i = some l ∧ l.kind = .job ∧ l.text = text ∧ '\r' ∉ l.text := by
  unfold targetOf at h
  split at h
  · cases h
  · rename_i target hat
    split_ifs at h with hkind htext hcr
    cases h
    exact ⟨hat, not_not.mp hkind, not_not.mp htext, hcr⟩

theorem cleanLine_of_no_return {raw : Text} (h : '\r' ∉ raw) : cleanLine raw = trim raw := by
  unfold cleanLine
  rw [List.filter_eq_self.mpr]
  intro c hc
  simp only [decide_eq_true_eq]
  intro heq
  exact h (heq ▸ hc)

/-! ## One job and nothing else -/

/-- The schedule's bytes after an update: the ones there were, when it is the schedule they say. -/
def keptSchedule (layout : CronLineLayout) (e : CronEntry) (schedule : Text) : Text :=
  if collapse schedule = e.schedule then layout.scheduleRaw else trim schedule

/-- What an update may do to a file: in the one line it points at, replace the schedule, the command
and the stdin it was asked to replace, and keep every other byte. -/
structure UpdateTouchesOneLine (t : Text) (doc : CronDocument) (after : Text) (lineIndex : Int)
    (schedule command : Text) (input : Option Text) (pre post : List CronDocLine) (l : CronDocLine)
    (e : CronEntry) (layout : CronLineLayout) (body : Text) : Prop where
  lines : doc.lines = pre ++ l :: post
  index : (pre.length : Int) = lineIndex
  shown : l.entry = some e
  laidOut : layoutJobLine (trim l.text) doc.hasUserField = some layout
  only : after = serialiseLines pre ++ (leading l.text ++ (layout.dash
    ++ keptSchedule layout e schedule ++ layout.gap
    ++ (layout.user.elim [] fun u => u ++ layout.userGap) ++ body) ++ trailing l.text ++ l.eol)
    ++ serialiseLines post
  sameCommand : command = e.command → commandBytes body = commandBytes layout.rest
  sameInput : input = e.input → inputBytes body = inputBytes layout.rest
  nothing : schedule = e.schedule → command = e.command → input = e.input → after = t

/-- What an edit may do to the text `t` of a crontab. -/
def TouchesOneLine (t : Text) (doc : CronDocument) (plan : CronEditPlan) : CronEdit → Prop
  | .add schedule command input =>
    plan.before = t ∧ ∃ eol ∈ [['\n'], ['\r', '\n']],
      plan.after = t ++ (if t ≠ [] ∧ t.getLast? ≠ some '\n' then eol else [])
        ++ (trim schedule ++ ' ' :: serialiseCronCommand command input) ++ eol
  | .remove lineIndex lineText =>
    plan.before = t ∧ ∃ pre l post, doc.lines = pre ++ l :: post ∧ (pre.length : Int) = lineIndex ∧
      l.text = lineText ∧ t = serialiseLines pre ++ l.bytes ++ serialiseLines post ∧
      plan.after = serialiseLines pre ++ serialiseLines post
  | .update lineIndex lineText schedule command input =>
    plan.before = t ∧ ∃ pre post l e layout body, l.text = lineText ∧
      t = serialiseLines pre ++ l.bytes ++ serialiseLines post ∧
      UpdateTouchesOneLine t doc plan.after lineIndex schedule command input pre post l e layout body

/-- In the line an update points at, what the update leaves alone is escaped the way the writer
escapes: every backslash of an unchanged command, and of an unchanged stdin, is the first of a
pair `\\` or `\%`. Additions and removals leave every line alone as a whole. -/
def UntouchedIsEscaped (doc : CronDocument) : CronEdit → Prop
  | .update lineIndex _ _ command input =>
    ∀ l e layout, lineAt doc.lines lineIndex = some l → l.entry = some e →
      layoutJobLine (trim l.text) doc.hasUserField = some layout →
      (command = e.command → wellEscaped (commandBytes layout.rest) = true) ∧
      (input = e.input → ∀ b ∈ inputBytes layout.rest, wellEscaped b = true)
  | _ => True

theorem dominantEol_mem (lines : List CronDocLine) :
    dominantEol lines ∈ [['\n'], ['\r', '\n']] := by
  unfold dominantEol
  split_ifs <;> simp

theorem add_touches_one_line {t origin schedule command : Text} {kind : CronSourceKind}
    {hasUserField : Bool} {input : Option Text} {plan : CronEditPlan}
    (h : planCronEdit (parseCrontabDocument t origin kind hasUserField)
      (.add schedule command input) = .ok plan) :
    TouchesOneLine t (parseCrontabDocument t origin kind hasUserField) plan
      (.add schedule command input) := by
  obtain ⟨edited, hedit, hbefore, hafter⟩ := planCronEdit_ok h
  have ht := serialise_parseCrontabDocument t origin kind hasUserField
  have hlacks := lacksTerminator_iff t origin kind hasUserField
  refine ⟨hbefore.trans ht, dominantEol (parseCrontabDocument t origin kind hasUserField).lines,
    dominantEol_mem _, ?_⟩
  rw [hafter]
  have hadd : addLine (parseCrontabDocument t origin kind hasUserField) schedule command input
    = .ok edited := hedit
  clear hedit
  unfold addLine at hadd
  split at hadd
  · cases hadd
  · rename_i built hbuilt
    cases hadd
    unfold buildJobLine at hbuilt
    simp only at hbuilt
    split_ifs at hbuilt
    cases hbuilt
    simp only [serialise_append, serialise_terminateLast, hlacks]
    have hserialise : serialiseLines (parseCrontabDocument t origin kind hasUserField).lines = t := ht
    rw [hserialise]
    simp [serialiseLines, CronDocLine.bytes]

theorem remove_touches_one_line {t origin lineText : Text} {kind : CronSourceKind}
    {hasUserField : Bool} {lineIndex : Int} {plan : CronEditPlan}
    (h : planCronEdit (parseCrontabDocument t origin kind hasUserField)
      (.remove lineIndex lineText) = .ok plan) :
    TouchesOneLine t (parseCrontabDocument t origin kind hasUserField) plan
      (.remove lineIndex lineText) := by
  obtain ⟨edited, hedit, hbefore, hafter⟩ := planCronEdit_ok h
  have ht := serialise_parseCrontabDocument t origin kind hasUserField
  have hremove : removeLine (parseCrontabDocument t origin kind hasUserField) lineIndex lineText
    = .ok edited := hedit
  clear hedit
  unfold removeLine at hremove
  split at hremove
  · cases hremove
  · rename_i l htarget
    cases hremove
    obtain ⟨hat, _, htext, _⟩ := targetOf_ok htarget
    obtain ⟨pre, post, hlines, hlen, hi, _, herase⟩ := lineAt_split hat
    refine ⟨hbefore.trans ht, pre, l, post, hlines, by omega, htext, ?_, ?_⟩
    · conv => lhs; rw [← ht]
      unfold serialiseCrontabDocument
      rw [hlines, serialise_append]
      simp [serialiseLines]
    · rw [hafter]
      simp only [herase, serialise_append]

/-- A command and its stdin, put together from their bytes. -/
theorem rest_of_bytes {a b : Text} (hc : commandBytes a = commandBytes b)
    (hi : inputBytes a = inputBytes b) : a = b := by
  rw [← cutPercent_join a, ← cutPercent_join b, hc, hi]

theorem mem_of_lineAt {lines : List CronDocLine} {i : Int} {l : CronDocLine}
    (h : lineAt lines i = some l) : l ∈ lines := by
  obtain ⟨pre, post, hlines, -⟩ := lineAt_split h
  rw [hlines]
  simp

/-- An update that was planned: the line it points at, that line's layout and entry, and the bytes
it leaves in the file. -/
theorem update_planned {t origin lineText schedule command : Text} {kind : CronSourceKind}
    {hasUserField : Bool} {lineIndex : Int} {input : Option Text} {plan : CronEditPlan}
    (h : planCronEdit (parseCrontabDocument t origin kind hasUserField)
      (.update lineIndex lineText schedule command input) = .ok plan) :
    ∃ pre post l layout e,
      lineAt (parseCrontabDocument t origin kind hasUserField).lines lineIndex = some l ∧
      l.text = lineText ∧ '\n' ∉ l.text ∧
      (parseCrontabDocument t origin kind hasUserField).lines = pre ++ l :: post ∧
      (pre.length : Int) = lineIndex ∧ t = serialiseLines pre ++ l.bytes ++ serialiseLines post ∧
      layoutJobLine (trim l.text) hasUserField = some layout ∧ l.entry = some e ∧
      e.schedule = collapse layout.scheduleRaw ∧ e.command = (unescapeHead layout.rest).1 ∧
      e.input = (inputBytes layout.rest).map unescapeInput ∧
      plan.after = serialiseLines pre ++ (leading l.text ++ (layout.dash
        ++ keptSchedule layout e schedule ++ layout.gap
        ++ (layout.user.elim [] fun u => u ++ layout.userGap)
        ++ serialiseCronCommand command input) ++ trailing l.text ++ l.eol)
        ++ serialiseLines post := by
  obtain ⟨edited, hedit, hbefore, hafter⟩ := planCronEdit_ok h
  have ht := serialise_parseCrontabDocument t origin kind hasUserField
  have hupdate : updateLine (parseCrontabDocument t origin kind hasUserField) lineIndex lineText
    schedule command input = .ok edited := hedit
  clear hedit
  unfold updateLine at hupdate
  split at hupdate
  · cases hupdate
  · rename_i l htarget
    obtain ⟨hat, hkind, htext, hcr⟩ := targetOf_ok htarget
    obtain ⟨pre, post, hlines, hlen, hi, hset, -⟩ := lineAt_split hat
    obtain ⟨hnl, layout, hlayout, hentry⟩ := job_of_mem_lines (mem_of_lineAt hat) hkind
    rw [cleanLine_of_no_return hcr] at hlayout hentry
    simp only at hupdate
    split at hupdate
    · cases hupdate
    · rename_i layout' hlayout'
      have hsame : layout' = layout := Option.some.inj (hlayout'.symm.trans hlayout)
      subst hsame
      split at hupdate
      · cases hupdate
      · cases hupdate
        refine ⟨pre, post, l, layout', _, hat, htext, hnl, hlines, by omega, ?_, hlayout, hentry,
          rfl, rfl, ?_, ?_⟩
        · conv => lhs; rw [← ht]
          unfold serialiseCrontabDocument
          rw [hlines, serialise_append]
          simp [serialiseLines]
        · rw [← cutPercent_input]
          rfl
        · rw [hafter]
          simp only [hset, serialise_append]
          have hsched : rewriteJobLine layout' (trim schedule) (serialiseCronCommand command input)
              = layout'.dash ++ keptSchedule layout' (entryFromLayout layout' origin kind
                (trim l.text)) schedule ++ layout'.gap
                ++ (layout'.user.elim [] fun u => u ++ layout'.userGap)
                ++ serialiseCronCommand command input := by
            have hbody : (if layout'.rest = serialiseCronCommand command input then layout'.rest
                else serialiseCronCommand command input) = serialiseCronCommand command input := by
              split_ifs with hb
              · exact hb
              · rfl
            simp only [rewriteJobLine, keptSchedule, entryFromLayout, collapse_trim, hbody,
              eq_comm (a := collapse schedule)]
          rw [hsched]
          simp [serialiseLines, CronDocLine.bytes]

theorem layoutJobLine_ne_nil {line : Text} {hasUserField : Bool} {l : CronLineLayout}
    (h : layoutJobLine line hasUserField = some l) : line ≠ [] := by
  rintro rfl
  have hnil := layoutJobLine_join h
  unfold CronLineLayout.join at hnil
  have hrest : l.rest = [] := by
    have := List.append_eq_nil_iff.mp hnil
    exact this.2
  unfold layoutJobLine at h
  simp only at h
  split at h
  · cases h
  · split at h
    · cases h
    · split_ifs at h with hempty
      cases h
      apply hempty
      simp only at hrest
      rw [hrest]
      rfl

/-- An unchanged stdin is written back as it stood when its bytes are well escaped. -/
theorem sameInput_bytes {rest : Text} {input : Option Text} (hnl : '\n' ∉ rest)
    (hsame : input = (inputBytes rest).map unescapeInput) :
    input.map serialiseInput = inputBytes rest ↔
      ∀ b ∈ inputBytes rest, wellEscaped b = true := by
  subst hsame
  cases hb : inputBytes rest with
  | none => simp
  | some b =>
    have hb' : '\n' ∉ b := by
      intro hmem
      apply hnl
      rw [← cutPercent_join rest, hb]
      simp [hmem]
    simpa using serialiseInput_unescapeInput_iff hb'

/-- What planning an edit keeps, and when. Additions and removals touch one line. An update keeps
what it does not change exactly when that is escaped the way the writer escapes. -/
theorem edit_touches_one_line_iff (t origin : Text) (kind : CronSourceKind) (hasUserField : Bool)
    (edit : CronEdit) (plan : CronEditPlan)
    (h : planCronEdit (parseCrontabDocument t origin kind hasUserField) edit = .ok plan) :
    TouchesOneLine t (parseCrontabDocument t origin kind hasUserField) plan edit ↔
      UntouchedIsEscaped (parseCrontabDocument t origin kind hasUserField) edit := by
  cases edit with
  | add schedule command input => exact ⟨fun _ => trivial, fun _ => add_touches_one_line h⟩
  | remove lineIndex lineText => exact ⟨fun _ => trivial, fun _ => remove_touches_one_line h⟩
  | update lineIndex lineText schedule command input =>
    have hbefore : plan.before = t := by
      obtain ⟨_, _, hb, _⟩ := planCronEdit_ok h
      exact hb.trans (serialise_parseCrontabDocument t origin kind hasUserField)
    obtain ⟨pre, post, l, layout, e, hat, htext, hnl, hlines, hlen, ht, hlayout, hentry, hsched,
      hcommand, hinput, hafter⟩ := update_planned h
    have hrestnl : '\n' ∉ layout.rest := by
      intro hmem
      apply hnl
      apply trim_subset
      rw [← layoutJobLine_join hlayout]
      exact List.mem_append_right _ hmem
    constructor
    · rintro ⟨-, pre', post', l', e', layout', body, -, -, hu⟩ l'' e'' layout'' hat'' hentry'' hlayout''
      have hl'' : l'' = l := Option.some.inj (hat''.symm.trans hat)
      subst hl''
      have he'' : e'' = e := Option.some.inj (hentry''.symm.trans hentry)
      subst he''
      have hlayout_eq : layout'' = layout := Option.some.inj (hlayout''.symm.trans hlayout)
      subst hlayout_eq
      have hsame := hlines.symm.trans hu.lines
      obtain ⟨rfl, hcons⟩ := List.append_inj hsame (by have := hu.index; omega)
      obtain ⟨rfl, rfl⟩ := List.cons_eq_cons.mp hcons
      have he' : e' = e'' := Option.some.inj (hu.shown.symm.trans hentry)
      subst he'
      have hlayout' : layout' = layout'' := Option.some.inj (hu.laidOut.symm.trans hlayout)
      subst hlayout'
      have hbody : body = serialiseCronCommand command input := by
        have := hu.only.symm.trans hafter
        simpa using this
      subst hbody
      refine ⟨?_, ?_⟩
      · intro hc
        have hbytes := hu.sameCommand hc
        rw [commandBytes_serialise, hc, hcommand] at hbytes
        exact (escape_unescapeHead_iff _).mp hbytes
      · intro hi
        have hbytes := hu.sameInput hi
        rw [inputBytes_serialise] at hbytes
        exact (sameInput_bytes hrestnl (hi.trans hinput)).mp hbytes
    · intro hok
      obtain ⟨hcmd, hin⟩ := hok l e layout hat hentry hlayout
      have hsameCommand : command = e.command →
          commandBytes (serialiseCronCommand command input) = commandBytes layout.rest := by
        intro hc
        rw [commandBytes_serialise, hc, hcommand]
        exact (escape_unescapeHead_iff _).mpr (hcmd hc)
      have hsameInput : input = e.input →
          inputBytes (serialiseCronCommand command input) = inputBytes layout.rest := by
        intro hi
        rw [inputBytes_serialise]
        exact (sameInput_bytes hrestnl (hi.trans hinput)).mpr (hin hi)
      refine ⟨hbefore, pre, post, l, e, layout, serialiseCronCommand command input, htext, ht, ?_⟩
      exact {
        lines := hlines
        index := hlen
        shown := hentry
        laidOut := hlayout
        only := hafter
        sameCommand := hsameCommand
        sameInput := hsameInput
        nothing := by
          intro hs hc hi
          have hrest := rest_of_bytes (hsameCommand hc) (hsameInput hi)
          have hkept : keptSchedule layout e schedule = layout.scheduleRaw := by
            unfold keptSchedule
            rw [if_pos]
            rw [hs, hsched, collapse_collapse]
          have hjoin := layoutJobLine_join hlayout
          unfold CronLineLayout.join at hjoin
          rw [hafter, hrest, hkept, hjoin,
            leading_trim_trailing (layoutJobLine_ne_nil hlayout), ht]
          rfl }

def nightlyCrontab : Text := "MAILTO=ops\r\n\t5 *\t* * *  date +\\%F%in \n# end".toList

def nightlyDoc : CronDocument :=
  parseCrontabDocument nightlyCrontab "crontab -l".toList .userCrontab false

/-- The nightly job moved to three in the morning, its command and stdin left alone. -/
def nightlyMoved : CronEdit :=
  .update 1 "\t5 *\t* * *  date +\\%F%in ".toList "0 3 * * *".toList "date +%F".toList
    (some "in".toList)

def nightlyPlan : CronEditPlan where
  before := nightlyCrontab
  after := "MAILTO=ops\r\n\t0 3 * * *  date +\\%F%in \n# end".toList
  summary := "change `5 *\t* * *  date +\\%F%in` to `0 3 * * *  date +\\%F%in`".toList
  addedFinalNewline := false

theorem edit_touches_one_line_iff_moved :
    TouchesOneLine nightlyCrontab nightlyDoc nightlyPlan nightlyMoved := by
  have hplan : (planCronEdit nightlyDoc nightlyMoved).toOption = some nightlyPlan := by
    decide
  have hescaped : ∀ l ∈ lineAt nightlyDoc.lines 1, ∀ layout ∈ layoutJobLine (trim l.text) false,
      wellEscaped (commandBytes layout.rest) = true ∧
        ∀ b ∈ inputBytes layout.rest, wellEscaped b = true := by
    decide
  have hok : planCronEdit nightlyDoc nightlyMoved = .ok nightlyPlan := by
    cases h : planCronEdit nightlyDoc nightlyMoved with
    | error e =>
      rw [h] at hplan
      cases hplan
    | ok plan =>
      rw [h] at hplan
      cases hplan
      rfl
  apply (edit_touches_one_line_iff nightlyCrontab _ _ _ nightlyMoved nightlyPlan hok).mpr
  intro l e layout hat _ hlayout
  obtain ⟨hcommand, hinput⟩ := hescaped l hat layout hlayout
  exact ⟨fun _ => hcommand, fun _ => hinput⟩

/-- `echo a\b`, saved with the schedule and the command it already has. -/
theorem update_with_nothing_new_rewrites_the_command :
    let t : Text := "* * * * * echo a\\b\n".toList
    let doc := parseCrontabDocument t "crontab -l".toList .userCrontab false
    let edit := CronEdit.update 0 "* * * * * echo a\\b".toList "* * * * *".toList
      "echo a\\b".toList none
    (doc.entries.map fun e => (e.schedule, e.command, e.input)) =
        [("* * * * *".toList, "echo a\\b".toList, none)] ∧
      (planCronEdit doc edit).toOption.map CronEditPlan.after =
        some "* * * * * echo a\\\\b\n".toList := by
  decide

end OpsMaxx.Cron
