import OpsMaxx.Vpn.Management

/-! # Refused credentials

What is promised of the lines a channel writes, and the lines from openvpn under which it is kept.
-/

set_option autoImplicit false

namespace OpsMaxx.Vpn.Management
open OpsMaxx.Strings

/-! ## What is promised -/

/-- The line says that the credentials were refused. -/
def rejects (line : Text) : Bool :=
  match parseManagementLine line with
  | .password event => event.failed
  | .state name description =>
    decide (name = "RECONNECTING".toList ∧ description = "auth-failure".toList)
  | _ => false

/-- The request a line makes, when it makes one. -/
def requestOf (line : Text) : Option PasswordEvent :=
  match parseManagementLine line with
  | .password event => if event.failed || event.realm.isEmpty then none else some event
  | _ => none

def requestsOf (log : List Entry) : List PasswordEvent :=
  log.filterMap fun
    | .line text => requestOf text
    | _ => none

def answersOf (log : List Entry) : List PasswordEvent :=
  log.filterMap fun
    | .answer event _ => some event
    | _ => none

/-- At most a username and a password, for the realm that was asked about. -/
def IsAnswer (event : PasswordEvent) (lines : List Sent) : Prop :=
  ∃ username password : Option Text, lines.map Sent.words =
    (username.map fun u => ["username".toList, event.realm, u]).toList ++
      (password.map fun p => ["password".toList, event.realm, p]).toList

/-- openvpn reads exactly the words the line was written for. -/
def Sent.Good (sent : Sent) : Prop := commandWords sent.line = some sent.words

def Entry.sent : Entry → List Sent
  | .line _ => []
  | .command sent => [sent]
  | .answer _ lines => lines

structure CredentialsSafe (s : Channel) : Prop where
  silent : ∀ pre line post, s.log = pre ++ .line line :: post → rejects line = true →
    ∀ event lines, .answer event lines ∉ post
  inOrder : (answersOf s.log).Sublist (requestsOf s.log)
  ownRealm : ∀ event lines, .answer event lines ∈ s.log → IsAnswer event lines
  words : ∀ e ∈ s.log, ∀ sent ∈ e.sent, sent.Good

/-! ## Lines that keep it -/

/-- No request is waiting. -/
def Channel.Quiet (s : Channel) : Prop := s.queue = [] ∧ s.asking = none

/-- Credentials are refused when no request waits, a request names its realm, and a confirmation is
asked for by one word. -/
def CarefulLine (s : Channel) (line : Text) : Prop :=
  match parseManagementLine line with
  | .password event => if event.failed then s.Quiet else event.realm ≠ []
  | .state name description =>
    name = "RECONNECTING".toList → description = "auth-failure".toList → s.Quiet
  | .needOk needType _ => hasLineBreak needType = true ∨ OneWord needType
  | _ => True

def CarefulLines (C : Setup) : Channel → List Text → Prop
  | _, [] => True
  | s, line :: rest => s.closed = true ∨
      (s.greeted = true → CarefulLine s line) ∧ CarefulLines C (s.handleLine C line) rest

def Careful (C : Setup) (s : Channel) : Event → Prop
  | .data chunk => CarefulLines C s ((takeLines (s.buffer ++ chunk)).1.map C.decode)
  | _ => True

/-- The channels that events reach, each of which met a condition. -/
inductive Run (C : Setup) (ok : Channel → Event → Prop) (trusted : Bool) : Channel → Prop
  | start : Run C ok trusted (.accepted trusted)
  | next {s : Channel} {e : Event} (hrun : Run C ok trusted s) (hok : ok s e) :
      Run C ok trusted (s.step C e)

/-! ## The lines are read as they were meant -/

theorem Good.of_word (word : String) {rest : Text} {words : List Text}
    (hword : unquotedSafe word.toList = true)
    (hrest : wordsFrom .between false [] rest = some words) :
    Sent.Good ⟨word.toList ++ ' ' :: rest, word.toList :: words⟩ := by
  show wordsFrom .between false [] _ = _
  rw [words_oneWord_blank (unquotedSafe_oneWord hword), hrest]
  rfl

theorem usernameLine_good {realm username : Text} {sent : Sent}
    (h : usernameLine realm username = some sent) :
    sent.Good ∧ sent.words = ["username".toList, realm, username] := by
  obtain ⟨r, hr, h⟩ := Option.bind_eq_some_iff.mp h
  obtain ⟨u, hu, h⟩ := Option.bind_eq_some_iff.mp h
  cases h
  refine ⟨Good.of_word "username" (by decide) ?_, rfl⟩
  show wordsFrom .between false [] (r ++ ' ' :: u) = _
  rw [words_quoted hr]
  have hblank : wordsFrom .between false [] (' ' :: u) = wordsFrom .between false [] u := by
    simp [wordsFrom, isBlank]
  rw [hblank, words_username hu]
  rfl

theorem passwordLine_good {realm password : Text} {sent : Sent}
    (h : passwordLine realm password = some sent) :
    sent.Good ∧ sent.words = ["password".toList, realm, password] := by
  obtain ⟨r, hr, h⟩ := Option.bind_eq_some_iff.mp h
  obtain ⟨p, hp, h⟩ := Option.bind_eq_some_iff.mp h
  cases h
  refine ⟨Good.of_word "password" (by decide) ?_, rfl⟩
  show wordsFrom .between false [] (r ++ ' ' :: p) = _
  rw [words_quoted hr]
  have hwords := words_quoted hp []
  rw [List.append_nil] at hwords
  have hblank : wordsFrom .between false [] (' ' :: p) = wordsFrom .between false [] p := by
    simp [wordsFrom, isBlank]
  rw [hblank, hwords]
  rfl

theorem answerLines_good (realm : Text) (username : Option Text) (password : Text) :
    (∀ sent ∈ (answerLines realm username password).1, sent.Good) ∧
      ∃ u p : Option Text, (answerLines realm username password).1.map Sent.words =
        (u.map fun u => ["username".toList, realm, u]).toList ++
          (p.map fun p => ["password".toList, realm, p]).toList := by
  unfold answerLines
  cases username with
  | none =>
    cases hp : passwordLine realm password with
    | none => exact ⟨by simp, none, none, rfl⟩
    | some p =>
      obtain ⟨hgood, hwords⟩ := passwordLine_good hp
      exact ⟨by simpa using hgood, none, some password, by simp [hwords]⟩
  | some username =>
    simp only
    cases hu : usernameLine realm username with
    | none => exact ⟨by simp, none, none, rfl⟩
    | some u =>
      simp only
      obtain ⟨hgoodu, hwordsu⟩ := usernameLine_good hu
      cases hp : passwordLine realm password with
      | none => exact ⟨by simpa using hgoodu, some username, none, by simp [hwordsu]⟩
      | some p =>
        obtain ⟨hgoodp, hwordsp⟩ := passwordLine_good hp
        exact ⟨by simp [hgoodu, hgoodp], some username, some password, by simp [hwordsu, hwordsp]⟩

theorem needOk_good {needType : Text} (h : OneWord needType) (ok : Bool) :
    Sent.Good ⟨needOkLine needType ok,
      ["needok".toList, needType, if ok then "ok".toList else "cancel".toList]⟩ := by
  apply Good.of_word "needok" (by decide)
  show wordsFrom .between false [] (needType ++ ' ' :: _) = _
  rw [words_oneWord_blank h]
  cases ok
  · exact congrArg _ (words_oneWord (unquotedSafe_oneWord (by decide)))
  · exact congrArg _ (words_oneWord (unquotedSafe_oneWord (by decide)))

theorem needOk_break {needType : Text} (h : hasLineBreak needType = true) (ok : Bool) :
    hasLineBreak (needOkLine needType ok) = true := by
  unfold hasLineBreak needOkLine at *
  rw [List.any_append, List.any_append, h, Bool.true_or, Bool.or_true]

/-! ## The invariant -/

structure InvWith (s : Channel) (current : List PasswordEvent) : Prop where
  silent : ∀ pre line post, s.log = pre ++ .line line :: post → rejects line = true →
    ∀ event lines, .answer event lines ∉ post
  clean : s.rejected = false → ∀ line, .line line ∈ s.log → rejects line = false
  quiet : s.rejected = true → current = [] ∧ s.queue = []
  order : (answersOf s.log ++ (current ++ s.queue)).Sublist (requestsOf s.log)
  realms : ∀ event ∈ current ++ s.queue, event.realm ≠ []
  ownRealm : ∀ event lines, .answer event lines ∈ s.log → IsAnswer event lines
  words : ∀ e ∈ s.log, ∀ sent ∈ e.sent, sent.Good
  confirming : ∀ needType ∈ s.confirming, hasLineBreak needType = true ∨ OneWord needType

/-- The request whose answer waits for the user. -/
def Channel.current (s : Channel) : List PasswordEvent := (s.asking.map Asking.event).toList

def Channel.Inv (s : Channel) : Prop := InvWith s s.current

section Invariant
variable {s s' : Channel} {current : List PasswordEvent}

/-- Only these parts of a channel matter. -/
theorem InvWith.of_eq (h : InvWith s current) (hlog : s'.log = s.log)
    (hrejected : s'.rejected = s.rejected) (hqueue : s'.queue = s.queue)
    (hconfirming : s'.confirming = s.confirming) : InvWith s' current where
  silent := by
    rw [hlog]
    exact h.silent
  clean := by
    rw [hlog, hrejected]
    exact h.clean
  quiet := by
    rw [hrejected, hqueue]
    exact h.quiet
  order := by
    rw [hlog, hqueue]
    exact h.order
  realms := by
    rw [hqueue]
    exact h.realms
  ownRealm := by
    rw [hlog]
    exact h.ownRealm
  words := by
    rw [hlog]
    exact h.words
  confirming := by
    rw [hconfirming]
    exact h.confirming

theorem Channel.write_cases (s : Channel) (e : Entry) :
    s.write e = s ∨ s.write e = { s with log := s.log ++ [e] } := by
  unfold Channel.write
  split_ifs
  · exact .inl rfl
  · exact .inr rfl

theorem append_singleton_split {log pre post : List Entry} {e x : Entry}
    (h : log ++ [e] = pre ++ x :: post) :
    (∃ post', post = post' ++ [e] ∧ log = pre ++ x :: post') ∨
      post = [] ∧ x = e ∧ log = pre := by
  rcases List.eq_nil_or_concat post with rfl | ⟨post', last, rfl⟩
  · obtain ⟨hlog, hx⟩ := List.append_inj' h rfl
    exact .inr ⟨rfl, (List.cons.inj hx).1.symm, hlog⟩
  · left
    rw [List.concat_eq_append, ← List.cons_append, ← List.append_assoc] at h
    obtain ⟨hlog, hx⟩ := List.append_inj' h rfl
    exact ⟨post', by rw [(List.cons.inj hx).1, List.concat_eq_append], hlog⟩

theorem InvWith.command (h : InvWith s current) {sent : Sent} (hgood : sent.Good) :
    InvWith (s.write (.command sent)) current := by
  rcases s.write_cases (.command sent) with hwrite | hwrite
  · rw [hwrite]
    exact h
  · rw [hwrite]
    constructor
    · intro pre line post hlog hrejects event lines hmem
      rcases append_singleton_split hlog with ⟨post', rfl, hold⟩ | ⟨rfl, -, -⟩
      · rcases List.mem_append.mp hmem with hmem | hmem
        · exact h.silent pre line post' hold hrejects event lines hmem
        · cases List.mem_singleton.mp hmem
      · cases hmem
    · intro hrejected line hline
      rcases List.mem_append.mp hline with hline | hline
      · exact h.clean hrejected line hline
      · cases List.mem_singleton.mp hline
    · exact h.quiet
    · have hanswers : answersOf (s.log ++ [.command sent]) = answersOf s.log := by
        simp [answersOf]
      have hrequests : requestsOf (s.log ++ [.command sent]) = requestsOf s.log := by
        simp [requestsOf]
      rw [hanswers, hrequests]
      exact h.order
    · exact h.realms
    · intro event lines hmem
      rcases List.mem_append.mp hmem with hmem | hmem
      · exact h.ownRealm event lines hmem
      · cases List.mem_singleton.mp hmem
    · intro e he
      rcases List.mem_append.mp he with he | he
      · exact h.words e he
      · rw [List.mem_singleton.mp he]
        intro x hx
        rw [List.mem_singleton.mp hx]
        exact hgood
    · exact h.confirming

theorem InvWith.send (h : InvWith s current) {line : Text} {words : List Text}
    (hgood : hasLineBreak line = false → Sent.Good ⟨line, words⟩) :
    InvWith (s.send line words) current := by
  unfold Channel.send
  split_ifs with hbreak
  · exact h
  · exact h.command (hgood (Bool.eq_false_iff.mpr hbreak))

theorem InvWith.signal (h : InvWith s current) {name : String}
    (hname : unquotedSafe name.toList = true) : InvWith (s.signal name) current := by
  apply h.send
  intro _
  exact Good.of_word "signal" (by decide) (words_oneWord (unquotedSafe_oneWord hname))

theorem InvWith.stop (h : InvWith s current) : InvWith s.stop current := by
  unfold Channel.stop
  split_ifs
  · exact h.signal (by decide)
  · exact h

theorem InvWith.holdRelease (h : InvWith s current) : InvWith s.holdRelease current := by
  apply h.send
  intro _
  exact Good.of_word "hold" (by decide) (words_oneWord (unquotedSafe_oneWord (by decide)))

theorem InvWith.handshake (h : InvWith s current) : InvWith s.handshake current := by
  have hstate : Sent.Good ⟨"state on".toList, ["state".toList, "on".toList]⟩ :=
    Good.of_word "state" (by decide) (words_oneWord (unquotedSafe_oneWord (by decide)))
  have hbytes : Sent.Good ⟨"bytecount 5".toList, ["bytecount".toList, "5".toList]⟩ :=
    Good.of_word "bytecount" (by decide) (words_oneWord (unquotedSafe_oneWord (by decide)))
  have hlog : Sent.Good ⟨"log on all".toList, ["log".toList, "on".toList, "all".toList]⟩ := by
    apply Good.of_word "log" (by decide)
    have hword : OneWord "on".toList := unquotedSafe_oneWord (by decide)
    have hon := words_oneWord_blank hword "all".toList
    rw [show wordsFrom .between false [] "all".toList = some ["all".toList] from
      words_oneWord (unquotedSafe_oneWord (by decide))] at hon
    exact hon
  unfold Channel.handshake
  exact (((h.send fun _ => hstate).send fun _ => hbytes).send fun _ => hlog).holdRelease

/-- What is written for the request that waits is its answer. -/
theorem InvWith.answer {event : PasswordEvent} {lines : List Sent} (h : InvWith s [event])
    (hgood : ∀ sent ∈ lines, sent.Good) (hown : IsAnswer event lines) :
    InvWith (s.write (.answer event lines)) [] := by
  have hlive : s.rejected = false := by
    cases hrejected : s.rejected with
    | false => rfl
    | true => cases (h.quiet hrejected).1
  have hdrop : InvWith s [] := by
    refine ⟨h.silent, h.clean, fun hr => ⟨rfl, (h.quiet hr).2⟩, ?_, ?_, h.ownRealm, h.words,
      h.confirming⟩
    · apply List.Sublist.trans _ h.order
      exact List.Sublist.append_left (List.sublist_cons_self event s.queue) _
    · intro x hx
      exact h.realms x (List.mem_cons_of_mem event hx)
  rcases s.write_cases (.answer event lines) with hwrite | hwrite
  · rw [hwrite]
    exact hdrop
  · rw [hwrite]
    constructor
    · intro pre line post hlog hrejects e ls hmem
      rcases append_singleton_split hlog with ⟨post', rfl, hold⟩ | ⟨rfl, -, -⟩
      · have hfalse := h.clean hlive line (by rw [hold]; simp)
        rw [hrejects] at hfalse
        cases hfalse
      · cases hmem
    · intro hrejected line hline
      rcases List.mem_append.mp hline with hline | hline
      · exact h.clean hrejected line hline
      · cases List.mem_singleton.mp hline
    · exact hdrop.quiet
    · have hanswers : answersOf (s.log ++ [.answer event lines]) = answersOf s.log ++ [event] := by
        simp [answersOf]
      have hrequests : requestsOf (s.log ++ [.answer event lines]) = requestsOf s.log := by
        simp [requestsOf]
      rw [hanswers, hrequests, List.append_assoc]
      exact h.order
    · exact hdrop.realms
    · intro e ls hmem
      rcases List.mem_append.mp hmem with hmem | hmem
      · exact h.ownRealm e ls hmem
      · cases List.mem_singleton.mp hmem
        exact hown
    · intro e he
      rcases List.mem_append.mp he with he | he
      · exact h.words e he
      · rw [List.mem_singleton.mp he]
        exact hgood
    · exact h.confirming

/-- A request may go without an answer. -/
theorem InvWith.drop {event : PasswordEvent} (h : InvWith s [event]) : InvWith s [] where
  silent := h.silent
  clean := h.clean
  quiet hr := ⟨rfl, (h.quiet hr).2⟩
  order := (List.Sublist.append_left (List.sublist_cons_self event s.queue) _).trans h.order
  realms x hx := h.realms x (List.mem_cons_of_mem event hx)
  ownRealm := h.ownRealm
  words := h.words
  confirming := h.confirming

end Invariant

/-! ## Answers and lines keep it -/

section Steps
variable {C : Setup} {s : Channel}

theorem writeAnswer_inv {event : PasswordEvent} (h : InvWith s [event])
    (username : Option Text) (password : Text) : (s.writeAnswer event username password).Inv := by
  have hrealm : askedRealm event = event.realm := by
    have hne := h.realms event List.mem_cons_self
    unfold askedRealm
    rw [if_neg (by simpa using hne)]
  obtain ⟨hgood, hwords⟩ := answerLines_good (askedRealm event) username password
  have hown : IsAnswer event (answerLines (askedRealm event) username password).1 := by
    rw [hrealm] at hwords ⊢
    exact hwords
  have hnone : ∀ r : Channel, r.asking = none → InvWith r [] → r.Inv := by
    intro r hr hinv
    unfold Channel.Inv Channel.current
    rw [hr]
    exact hinv
  have hs : InvWith { s with asking := none } [event] := h.of_eq rfl rfl rfl rfl
  have hwrite : ∀ e, (Channel.write { s with asking := none } e).asking = none := by
    intro e
    rcases Channel.write_cases { s with asking := none } e with hw | hw <;> rw [hw]
  have hstop : ∀ r : Channel, r.asking = none → r.stop.asking = none := by
    intro r hr
    unfold Channel.stop Channel.sigterm Channel.signal Channel.send
    split_ifs
    · exact hr
    · rcases Channel.write_cases r _ with hw | hw <;> rw [hw] <;> exact hr
    · exact hr
  unfold Channel.writeAnswer
  simp only
  split
  · split_ifs
    · exact hnone _ (hstop _ rfl) hs.drop.stop
    · exact hnone _ rfl hs.drop
  · rename_i lines threw _ hlines
    rw [hlines] at hgood hown
    split_ifs
    · exact hnone _ (hstop _ (hwrite _)) (hs.answer hgood hown).stop
    · exact hnone _ (hwrite _) (hs.answer hgood hown)

theorem askChallenge_inv {event : PasswordEvent} (h : InvWith s [event])
    (username : Option Text) (password : Text) :
    (s.askChallenge event username password).Inv := by
  unfold Channel.askChallenge
  cases event.challenge with
  | none => exact writeAnswer_inv h username password
  | some challenge => exact h.of_eq rfl rfl rfl rfl

theorem askPassword_inv {event : PasswordEvent} (h : InvWith s [event])
    (username : Option Text) (c : OpenVpnCredentials) : (s.askPassword event username c).Inv := by
  unfold Channel.askPassword
  cases nonEmpty c.password with
  | some password => exact askChallenge_inv h username password
  | none => exact h.of_eq rfl rfl rfl rfl

theorem InvWith.idle (h : InvWith s []) (hasking : s.asking = none) : s.Inv := by
  unfold Channel.Inv Channel.current
  rw [hasking]
  exact h

theorem answer_inv {event : PasswordEvent} (h : InvWith s [event]) (hasking : s.asking = none)
    (c : OpenVpnCredentials) : (s.answer event c).Inv := by
  unfold Channel.answer
  split_ifs
  · exact h.drop.idle hasking
  · cases c.keyPassphrase with
    | some passphrase => exact writeAnswer_inv h none passphrase
    | none => exact h.of_eq rfl rfl rfl rfl
  · exact h.of_eq rfl rfl rfl rfl
  · exact askPassword_inv h c.username c

theorem turn_inv (h : s.Inv) (c : OpenVpnCredentials) : (s.turn c).Inv := by
  unfold Channel.turn
  cases hasking : s.asking with
  | some asking =>
    simp only
    exact h
  | none =>
    cases hqueue : s.queue with
    | nil =>
      simp only
      exact h
    | cons event rest =>
      simp only
      have hinv : InvWith s [] := by
        unfold Channel.Inv Channel.current at h
        rw [hasking] at h
        exact h
      have hpopped : InvWith { s with asking := none, queue := rest } [event] := by
        constructor
        · exact hinv.silent
        · exact hinv.clean
        · intro hrejected
          have hnil := (hinv.quiet hrejected).2
          rw [hqueue] at hnil
          cases hnil
        · have horder := hinv.order
          rw [hqueue] at horder
          exact horder
        · have hrealms := hinv.realms
          rw [hqueue] at hrealms
          exact hrealms
        · exact hinv.ownRealm
        · exact hinv.words
        · exact hinv.confirming
      exact answer_inv hpopped rfl c

theorem answered_inv (h : s.Inv) (a : UserAnswer) (c : OpenVpnCredentials) :
    (s.answered a c).Inv := by
  unfold Channel.answered
  cases hasking : s.asking with
  | none =>
    simp only
    exact h
  | some asking =>
    have hinv : InvWith s [asking.event] := by
      unfold Channel.Inv Channel.current at h
      rw [hasking] at h
      exact h
    have hidle : InvWith { s with asking := none } [asking.event] := hinv.of_eq rfl rfl rfl rfl
    have hstopped : (Channel.stop { s with asking := none }).Inv := by
      apply hidle.drop.stop.idle
      unfold Channel.stop Channel.sigterm Channel.signal Channel.send
      split_ifs
      · rfl
      · rcases Channel.write_cases { s with asking := none } _ with hw | hw <;> rw [hw]
      · rfl
    cases a with
    | cancelled => exact hstopped
    | failed => exact hstopped
    | text value =>
      cases asking with
      | passphrase event => exact writeAnswer_inv (s := s) hinv none value
      | username event => exact askPassword_inv hidle (some value) c
      | password event username => exact askChallenge_inv hidle username value
      | otp event username password => exact writeAnswer_inv (s := s) hinv username _

end Steps

/-! ## Lines keep it -/

section Lines
variable {C : Setup} {s : Channel} {current : List PasswordEvent} {line : Text}

theorem splitLine_append {log pre post : List Entry} {text line : Text}
    (h : log ++ [.line text] = pre ++ .line line :: post) {event : PasswordEvent} {lines : List Sent}
    (hmem : .answer event lines ∈ post) :
    ∃ post', log = pre ++ .line line :: post' ∧ .answer event lines ∈ post' := by
  rcases append_singleton_split h with ⟨post', rfl, hold⟩ | ⟨rfl, -, -⟩
  · refine ⟨post', hold, ?_⟩
    rcases List.mem_append.mp hmem with hmem | hmem
    · exact hmem
    · cases List.mem_singleton.mp hmem
  · cases hmem

theorem requestsOf_line (log : List Entry) (line : Text) :
    (requestsOf log).Sublist (requestsOf (log ++ [.line line])) := by
  unfold requestsOf
  rw [List.filterMap_append]
  exact List.sublist_append_left _ _

/-- A line that does not refuse only lengthens the log. -/
theorem InvWith.seen (h : InvWith s current) (hrejects : rejects line = false) :
    InvWith { s with log := s.log ++ [.line line] } current where
  silent pre l post hlog hr event lines hmem := by
    obtain ⟨post', hold, hmem⟩ := splitLine_append hlog hmem
    exact h.silent pre l post' hold hr event lines hmem
  clean hrejected l hl := by
    rcases List.mem_append.mp hl with hl | hl
    · exact h.clean hrejected l hl
    · cases List.mem_singleton.mp hl
      exact hrejects
  quiet := h.quiet
  order := by
    have hanswers : answersOf (s.log ++ [.line line]) = answersOf s.log := by simp [answersOf]
    rw [hanswers]
    exact h.order.trans (requestsOf_line s.log line)
  realms := h.realms
  ownRealm event lines hmem := by
    rcases List.mem_append.mp hmem with hmem | hmem
    · exact h.ownRealm event lines hmem
    · cases List.mem_singleton.mp hmem
  words e he := by
    rcases List.mem_append.mp he with he | he
    · exact h.words e he
    · rw [List.mem_singleton.mp he]
      intro sent hsent
      cases hsent
  confirming := h.confirming

/-- A refusal, when nothing waits. -/
theorem InvWith.refused (h : InvWith s []) (hqueue : s.queue = []) :
    InvWith { s with log := s.log ++ [.line line], rejected := true } [] where
  silent pre l post hlog hr event lines hmem := by
    obtain ⟨post', hold, hmem⟩ := splitLine_append hlog hmem
    exact h.silent pre l post' hold hr event lines hmem
  clean hrejected := by cases hrejected
  quiet _ := ⟨rfl, hqueue⟩
  order := by
    have hanswers : answersOf (s.log ++ [.line line]) = answersOf s.log := by simp [answersOf]
    show (answersOf (s.log ++ [.line line]) ++ _).Sublist (requestsOf (s.log ++ [.line line]))
    rw [hanswers]
    exact h.order.trans (requestsOf_line s.log line)
  realms := h.realms
  ownRealm event lines hmem := by
    rcases List.mem_append.mp hmem with hmem | hmem
    · exact h.ownRealm event lines hmem
    · cases List.mem_singleton.mp hmem
  words e he := by
    rcases List.mem_append.mp he with he | he
    · exact h.words e he
    · rw [List.mem_singleton.mp he]
      intro sent hsent
      cases hsent
  confirming := h.confirming

/-- A request joins the queue. -/
theorem InvWith.queued {event : PasswordEvent} (h : InvWith s current) (hlive : s.rejected = false)
    (hrejects : rejects line = false) (hrequest : requestOf line = some event)
    (hrealm : event.realm ≠ []) :
    InvWith { s with log := s.log ++ [.line line], queue := s.queue ++ [event] } current where
  silent pre l post hlog hr e lines hmem := by
    obtain ⟨post', hold, hmem⟩ := splitLine_append hlog hmem
    exact h.silent pre l post' hold hr e lines hmem
  clean hrejected l hl := by
    rcases List.mem_append.mp hl with hl | hl
    · exact h.clean hrejected l hl
    · cases List.mem_singleton.mp hl
      exact hrejects
  quiet hrejected := by
    rw [show s.rejected = true from hrejected] at hlive
    cases hlive
  order := by
    have hanswers : answersOf (s.log ++ [.line line]) = answersOf s.log := by simp [answersOf]
    have hrequests : requestsOf (s.log ++ [.line line]) = requestsOf s.log ++ [event] := by
      simp [requestsOf, hrequest]
    show (answersOf (s.log ++ [.line line]) ++ (current ++ (s.queue ++ [event]))).Sublist
      (requestsOf (s.log ++ [.line line]))
    rw [hanswers, hrequests, ← List.append_assoc, ← List.append_assoc]
    apply List.Sublist.append _ (List.Sublist.refl _)
    rw [List.append_assoc]
    exact h.order
  realms e he := by
    have he' : e ∈ current ++ (s.queue ++ [event]) := he
    rw [← List.append_assoc] at he'
    rcases List.mem_append.mp he' with he | he
    · exact h.realms e he
    · rw [List.mem_singleton.mp he]
      exact hrealm
  ownRealm e lines hmem := by
    rcases List.mem_append.mp hmem with hmem | hmem
    · exact h.ownRealm e lines hmem
    · cases List.mem_singleton.mp hmem
  words e he := by
    rcases List.mem_append.mp he with he | he
    · exact h.words e he
    · rw [List.mem_singleton.mp he]
      intro sent hsent
      cases hsent
  confirming := h.confirming

theorem write_asking (s : Channel) (e : Entry) : (s.write e).asking = s.asking := by
  rcases s.write_cases e with hw | hw <;> rw [hw]

theorem send_asking (s : Channel) (line : Text) (words : List Text) :
    (s.send line words).asking = s.asking := by
  unfold Channel.send
  split_ifs
  · rfl
  · exact write_asking s _

theorem Channel.Inv.send (h : s.Inv) {words : List Text}
    (hgood : hasLineBreak line = false → Sent.Good ⟨line, words⟩) : (s.send line words).Inv := by
  unfold Channel.Inv Channel.current at *
  rw [send_asking]
  exact InvWith.send h hgood

theorem Channel.Inv.signal (h : s.Inv) {name : String} (hname : unquotedSafe name.toList = true) :
    (s.signal name).Inv := by
  apply h.send
  intro _
  exact Good.of_word "signal" (by decide) (words_oneWord (unquotedSafe_oneWord hname))

theorem Channel.Inv.stop (h : s.Inv) : s.stop.Inv := by
  unfold Channel.stop
  split_ifs
  · exact h.signal (by decide)
  · exact h

theorem answerNeedOk_inv (h : s.Inv) {needType : Text}
    (hword : hasLineBreak needType = true ∨ OneWord needType) (ok : Bool) :
    (s.answerNeedOk needType ok).Inv := by
  unfold Channel.answerNeedOk
  by_cases hclosed : s.closed = true
  · rw [if_pos hclosed]
    exact h
  · rw [if_neg hclosed]
    apply h.send
    intro hbreak
    rcases hword with hword | hword
    · rw [needOk_break hword ok] at hbreak
      cases hbreak
    · exact needOk_good hword ok

theorem confirmed_inv (h : s.Inv) (i : Nat) (ok : Bool) : (s.confirmed i ok).Inv := by
  unfold Channel.confirmed
  cases hi : s.confirming[i]? with
  | none => exact h
  | some needType =>
    simp only
    have herased : Channel.Inv { s with confirming := s.confirming.eraseIdx i } :=
      ⟨h.silent, h.clean, h.quiet, h.order, h.realms, h.ownRealm, h.words, fun t ht =>
        h.confirming t (List.mem_of_mem_eraseIdx ht)⟩
    exact answerNeedOk_inv herased (h.confirming needType (List.mem_of_getElem? hi)) ok

/-- The refusal of a line, when nothing waits for an answer. -/
theorem rejectCredentials_inv (h : s.Inv) (hquiet : s.Quiet) :
    (Channel.rejectCredentials { s with log := s.log ++ [.line line] }).Inv := by
  obtain ⟨hqueue, hasking⟩ := hquiet
  have hinv : InvWith s [] := by
    unfold Channel.Inv Channel.current at h
    rw [hasking] at h
    exact h
  have hrefused : InvWith { s with log := s.log ++ [.line line], rejected := true } [] :=
    hinv.refused hqueue
  unfold Channel.rejectCredentials
  split_ifs with hrejected
  · have hrejected : s.rejected = true := hrejected
    have hsame : ({ s with log := s.log ++ [.line line] } : Channel) =
        { s with log := s.log ++ [.line line], rejected := true } := by rw [← hrejected]
    rw [hsame]
    exact hrefused.idle hasking
  · exact (hrefused.idle hasking).stop

theorem handleLine_inv (h : s.Inv) (hcareful : s.greeted = true → CarefulLine s line) :
    (s.handleLine C line).Inv := by
  unfold Channel.handleLine
  split_ifs with hgreeted hgreeting
  · have hline := hcareful hgreeted
    unfold CarefulLine at hline
    have hrejects : rejects line = match parseManagementLine line with
      | .password event => event.failed
      | .state name description =>
        decide (name = "RECONNECTING".toList ∧ description = "auth-failure".toList)
      | _ => false := rfl
    cases hparse : parseManagementLine line with
    | hold =>
      rw [hparse] at hrejects
      apply Channel.Inv.send (InvWith.seen h hrejects)
      intro _
      exact Good.of_word "hold" (by decide)
        (words_oneWord (unquotedSafe_oneWord (by decide)))
    | other =>
      rw [hparse] at hrejects
      exact InvWith.seen h hrejects
    | needOk needType text =>
      rw [hparse] at hrejects hline
      have hseen : Channel.Inv { s with log := s.log ++ [.line line] } := InvWith.seen h hrejects
      simp only
      unfold Channel.onNeedOk
      split_ifs
      · refine ⟨hseen.silent, hseen.clean, hseen.quiet, hseen.order, hseen.realms, hseen.ownRealm,
          hseen.words, ?_⟩
        intro t ht
        rcases List.mem_append.mp ht with ht | ht
        · exact h.confirming t ht
        · rw [List.mem_singleton.mp ht]
          exact hline
      · exact answerNeedOk_inv hseen hline false
    | state name description =>
      rw [hparse] at hrejects hline
      simp only
      unfold Channel.onState
      split_ifs with hauth
      · exact rejectCredentials_inv h (hline hauth.1 hauth.2)
      · exact InvWith.seen h (hrejects.trans (decide_eq_false hauth))
    | password event =>
      rw [hparse] at hrejects hline
      simp only at hline hrejects ⊢
      unfold Channel.onPassword
      split_ifs with hfailed hrejected
      · rw [if_pos hfailed] at hline
        exact rejectCredentials_inv h hline
      · exact InvWith.seen h (hrejects.trans (Bool.eq_false_iff.mpr hfailed))
      · rw [if_neg hfailed] at hline
        have hfalse := Bool.eq_false_iff.mpr hfailed
        have hrealm : event.realm.isEmpty = false := by simpa using hline
        have hrequest : requestOf line = some event := by
          rw [requestOf, hparse]
          simp only [hfalse, hrealm, Bool.or_false, Bool.false_eq_true, if_false]
        exact InvWith.queued h (Bool.eq_false_iff.mpr hrejected) (hrejects.trans hfalse) hrequest
          hline
  · unfold Channel.handshake Channel.holdRelease
    have hgreet : Channel.Inv { s with greeted := true } := h.of_eq rfl rfl rfl rfl
    have hinv := InvWith.handshake hgreet
    have hasking : (Channel.handshake { s with greeted := true }).asking = s.asking := by
      unfold Channel.handshake Channel.holdRelease
      rw [send_asking, send_asking, send_asking, send_asking]
    unfold Channel.Inv Channel.current
    rw [show (Channel.send _ _ _).asking = s.asking from hasking]
    exact hinv
  · exact h.of_eq rfl rfl rfl rfl

theorem handleLines_inv {lines : List Text} (h : s.Inv) (hcareful : CarefulLines C s lines) :
    (s.handleLines C lines).Inv := by
  induction lines generalizing s with
  | nil => exact h
  | cons line rest ih =>
    unfold Channel.handleLines
    split_ifs with hclosed
    · exact h
    · obtain hcareful | ⟨hline, hrest⟩ := hcareful
      · exact absurd hcareful hclosed
      · exact ih (handleLine_inv h hline) hrest

theorem consume_inv {chunk : List UInt8} (h : s.Inv) (hcareful : Careful C s (.data chunk)) :
    (s.consume C chunk).Inv := by
  unfold Channel.consume
  split_ifs
  · exact h
  · have hlines := handleLines_inv h hcareful
    simp only
    split_ifs
    · exact hlines
    · exact hlines.of_eq rfl rfl rfl rfl
    · exact hlines.of_eq rfl rfl rfl rfl

theorem step_inv {e : Event} (h : s.Inv) (hcareful : Careful C s e) : (s.step C e).Inv := by
  cases e with
  | data chunk => exact consume_inv h hcareful
  | turn credentials => exact turn_inv h credentials
  | answered answer credentials => exact answered_inv h answer credentials
  | confirmed index ok => exact confirmed_inv h index ok
  | sigterm =>
    show (s.signal "SIGTERM").Inv
    exact h.signal (by decide)
  | softRestart =>
    show (s.signal "SIGUSR1").Inv
    exact h.signal (by decide)
  | socketClosed => exact h.of_eq rfl rfl rfl rfl
  | close => exact h.of_eq rfl rfl rfl rfl

end Lines

theorem accepted_inv (trusted : Bool) : (Channel.accepted trusted).Inv := by
  have hempty : ∀ b, Channel.Inv ⟨[], b, false, true, false, [], none, [], []⟩ := by
    intro b
    constructor
    · intro pre line post hlog
      have hlength := congrArg List.length hlog
      simp at hlength
    · intro _ line hline
      cases hline
    · intro hrejected
      cases hrejected
    · exact List.Sublist.refl _
    · intro event hevent
      cases hevent
    · intro event lines hmem
      cases hmem
    · intro e he
      cases he
    · intro t ht
      cases ht
  unfold Channel.accepted
  cases trusted with
  | false => exact hempty false
  | true =>
    have hinv := InvWith.handshake (hempty true)
    have hasking : (Channel.handshake ⟨[], true, false, true, false, [], none, [], []⟩).asking =
        none := by
      unfold Channel.handshake Channel.holdRelease
      rw [send_asking, send_asking, send_asking, send_asking]
    exact InvWith.idle hinv hasking

theorem run_inv {C : Setup} {trusted : Bool} {s : Channel} (hrun : Run C (Careful C) trusted s) :
    s.Inv := by
  induction hrun with
  | start => exact accepted_inv trusted
  | next hrun hok ih => exact step_inv ih hok

theorem credentials_safe {C : Setup} {trusted : Bool} {s : Channel}
    (hrun : Run C (Careful C) trusted s) : CredentialsSafe s := by
  have hinv := run_inv hrun
  refine ⟨hinv.silent, ?_, hinv.ownRealm, hinv.words⟩
  exact (List.sublist_append_left _ _).trans hinv.order

/-! ## A password that is typed too late -/

/-- Lines in plain characters, and no way to show a confirmation. -/
def toySetup : Setup := ⟨fun bytes => bytes.map fun b => Char.ofNat b.toNat, 65536, false⟩

def toyLine (line : String) : Event := .data ((line ++ "\n").toList.map fun c => c.toNat.toUInt8)

/-- The vault has a username only. -/
def toyVault : OpenVpnCredentials := ⟨some "me".toList, none, none⟩

def toyEvent : PasswordEvent :=
  parsePasswordLine ">PASSWORD:Need 'Auth' username/password".toList
    "Need 'Auth' username/password".toList

def toyAsked : Channel :=
  ((Channel.accepted true).step toySetup (toyLine ">PASSWORD:Need 'Auth' username/password")).step
    toySetup (.turn toyVault)

def toyAnswered : Channel :=
  toyAsked.step toySetup (.answered (.text "p\"w".toList) toyVault)

def toyRefused : Channel :=
  (toyAsked.step toySetup (toyLine ">PASSWORD:Verification Failed: 'Auth'")).step toySetup
    (.answered (.text "p\"w".toList) toyVault)

theorem credentials_safe_answering :
    CredentialsSafe toyAnswered ∧ (answersOf toyAnswered.log).length = 1 := by
  refine ⟨?_, by decide⟩
  have hline : Careful toySetup (.accepted true)
      (toyLine ">PASSWORD:Need 'Auth' username/password") := by
    have hlines : (takeLines ((Channel.accepted true).buffer ++
        (">PASSWORD:Need 'Auth' username/password" ++ "\n").toList.map
          fun c => c.toNat.toUInt8)).1.map toySetup.decode =
        [">PASSWORD:Need 'Auth' username/password".toList] := by decide
    have hparse : parseManagementLine ">PASSWORD:Need 'Auth' username/password".toList =
        .password toyEvent := by decide
    have hfailed : toyEvent.failed = false := by decide
    have hrealm : toyEvent.realm = "Auth".toList := by decide
    show CarefulLines _ _ _
    rw [hlines]
    refine .inr ⟨fun _ => ?_, trivial⟩
    unfold CarefulLine
    rw [hparse]
    simp only [hfailed, Bool.false_eq_true, if_false, hrealm]
    decide
  have hstart : Run toySetup (Careful toySetup) true (.accepted true) := .start
  exact credentials_safe (((hstart.next hline).next (e := .turn toyVault) trivial).next
    (e := .answered _ _) trivial)

/-- The user types the password after the server refused the last one; it is sent. -/
theorem password_sent_after_refusal :
    ∃ s, Run toySetup (fun _ _ => True) true s ∧ ¬ CredentialsSafe s := by
  refine ⟨toyRefused, ((((Run.start).next trivial).next trivial).next trivial).next trivial, ?_⟩
  intro h
  have hlog : toyRefused.log = toyRefused.log.take 5 ++
      .line ">PASSWORD:Verification Failed: 'Auth'".toList ::
        [.command ⟨"signal SIGTERM".toList, ["signal".toList, "SIGTERM".toList]⟩,
          .answer toyEvent (answerLines "Auth".toList toyVault.username "p\"w".toList).1] := by
    decide
  apply h.silent _ _ _ hlog (by decide) toyEvent _
  exact List.mem_cons_of_mem _ List.mem_cons_self

end OpsMaxx.Vpn.Management
