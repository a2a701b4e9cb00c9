import OpsMaxx.Risk.Command
import OpsMaxx.Strings.Find

/-!
# How much damage a query can do

What a keyword can hide behind is taken out in three passes over the whole text; then each statement
is graded by regular expressions. What is irreversible is confirmed by typing the name of the object.
-/

set_option autoImplicit false

namespace OpsMaxx.Queries

open Strings
open Strings.Regex
open Risk (ch sp ink litAnyCase)

inductive QueryRisk
  | read
  | write
  | destructive
  deriving DecidableEq

inductive QueryConfirmation
  | none
  | confirm
  | typeToConfirm (phrase : Text)
  deriving DecidableEq

/-! ## Stripping -/

/-- `--[^\n]*`. -/
@[grind =] def lineComment : Text → Option Nat
  | '-' :: '-' :: s => some (2 + (s.takeWhile (· ≠ '\n')).length)
  | _ => none

/-- `/\*[\s\S]*?\*/`. -/
@[grind =] def blockComment : Text → Option Nat
  | '/' :: '*' :: s => (cutAt "*/".toList s).map fun found => 2 + found.1.length + 2
  | _ => none

/-- `(?:[^']|'')*'`. Where no quote follows that closes, the last doubled one is given back. -/
@[grind =] def literalEnd : Text → Option Nat
  | [] => none
  | '\'' :: '\'' :: s =>
    match literalEnd s with
    | some n => some (n + 2)
    | none => some 1
  | '\'' :: _ => some 1
  | _ :: s => (literalEnd s).map (· + 1)

/-- `'(?:[^']|'')*'`. -/
def literal : Text → Option Nat
  | '\'' :: s => (literalEnd s).map (· + 1)
  | _ => none

/-- `\s+`. -/
def spaces : Text → Option Nat
  | c :: s => if isSpace c then some (1 + (s.takeWhile isSpace).length) else none
  | [] => none

def withoutLines (s : Text) : Text := sub lineComment [' '] s

def withoutBlocks (s : Text) : Text := sub blockComment [' '] s

def withoutLiterals (s : Text) : Text := sub literal "''".toList s

def collapse (s : Text) : Text := sub spaces [' '] s

/-- What the three passes leave of a text. -/
def passes (s : Text) : Text := withoutLiterals (withoutBlocks (withoutLines s))

def strip (sql : Text) : Text := trim (collapse (passes sql))

def statements (sql : Text) : List Text :=
  (((strip sql).splitOn ';').map trim).filter (· ≠ [])

/-! ## Grading -/

/-- `/^word\s+/i`. -/
def headWord (word : String) : Regex := cat [start, litAnyCase word, plus sp]

def DESTRUCTIVE : List Regex :=
  [headWord "drop",
    headWord "truncate",
    cat [start, litAnyCase "alter", plus sp, litAnyCase "table", plus sp, plus ink, plus sp,
      litAnyCase "drop", plus sp],
    cat [start, litAnyCase "drop", plus sp, litAnyCase "database", plus sp],
    cat [start, litAnyCase "vacuum", plus sp, litAnyCase "full", boundary],
    headWord "reindex",
    cat [litAnyCase "\"drop\"", star sp, ch ':'],
    -- the name is `dropDatabase`, looked for in either case
    cat [litAnyCase "\"dropdatabase\"", star sp, ch ':'],
    cat [start, litAnyCase "flushall", boundary],
    cat [start, litAnyCase "flushdb", boundary]]

def WRITE : List Regex :=
  ["insert", "update", "delete", "create", "alter", "grant", "revoke"].map headWord

/-- `/^(delete|update)\s+/i`. -/
def deleteOrUpdate : Regex :=
  cat [start, alt (litAnyCase "delete") (litAnyCase "update"), plus sp]

/-- `/\swhere\s/i`. -/
def whereBetween : Regex := cat [sp, litAnyCase "where", sp]

def unscoped (stmt : Text) : Bool :=
  if !deleteOrUpdate.test stmt then false
  else !whereBetween.test stmt

def isDestructive (stmt : Text) : Bool :=
  DESTRUCTIVE.any (fun re => re.test stmt) || unscoped stmt

/-- The loop over the statements, with the worst of those before. -/
def worstOf (worst : QueryRisk) : List Text → QueryRisk
  | [] => worst
  | stmt :: rest =>
    if isDestructive stmt then .destructive
    else worstOf (if WRITE.any (fun re => re.test stmt) then .write else worst) rest

def queryRisk (sql : Text) : QueryRisk := worstOf .read (statements sql)

/-! ## What is confirmed -/

/-- Takes a word off a text, in either case. -/
def eat (word : String) (s : Text) : Option Text :=
  if (s.take word.toList.length).map Char.toLower = word.toList then
    some (s.drop word.toList.length)
  else none

def eatSpaces (s : Text) : Option Text :=
  if s.head?.any isSpace then some (s.dropWhile isSpace) else none

def eatAny (kinds : List String) (s : Text) : Option Text := kinds.findSome? fun w => eat w s

/-- A character of a name: `[A-Za-z0-9_."\x60[\]]`. -/
def isNameChar (c : Char) : Bool := c.isAlphanum || "_.\"\x60[]".toList.contains c

def nameRun (s : Text) : Option Text :=
  if s.head?.any isNameChar then some (s.takeWhile isNameChar) else none

def ifExists (s : Text) : Option Text := do
  eatSpaces (← eat "exists" (← eatSpaces (← eat "if" s)))

/-- The name behind an optional part, which is given up where no name follows it. -/
def nameBehind (optional : Text → Option Text) (s : Text) : Option Text :=
  ((optional s).bind nameRun).orElse fun _ => nameRun s

def droppedName (stmt : Text) : Option Text := do
  let s ← eatSpaces (← eat "drop" stmt)
  let s ← eatSpaces (← eatAny ["table", "view", "index", "database", "schema", "collection"] s)
  nameBehind ifExists s

def truncatedName (stmt : Text) : Option Text := do
  let s ← eatSpaces (← eat "truncate" stmt)
  nameBehind (fun s => (eat "table" s).bind eatSpaces) s

/-- A name without its schema and without its quotes. -/
def bareName (found : Text) : Text :=
  ((found.filter fun c => !"\x60\"[]".toList.contains c).splitOn '.').getLastD []

def namedBy (stmt : Text) : Option Text :=
  (((droppedName stmt).orElse fun _ => truncatedName stmt).map bareName).filter (· ≠ [])

def destroyedObject (sql : Text) : Option Text := (statements sql).findSome? namedBy

def queryConfirmation (sql : Text) : QueryConfirmation :=
  match queryRisk sql with
  | .read => .none
  | .write => .confirm
  | .destructive => .typeToConfirm ((destroyedObject sql).getD "RUN".toList)

example : queryConfirmation "SELECT 1; drop table if exists \"public\".\"user_sessions\"".toList =
    .typeToConfirm "user_sessions".toList := by
  decide +kernel

example : queryConfirmation "SELECT * FROM notes WHERE body = 'drop table users'".toList =
    .none := by
  decide +kernel

/-! ## What a destructive query is asked for -/

theorem worstOf_destructive {stmts : List Text} {stmt : Text} (hmem : stmt ∈ stmts)
    (h : isDestructive stmt = true) (worst : QueryRisk) : worstOf worst stmts = .destructive := by
  induction stmts generalizing worst with
  | nil => cases hmem
  | cons first rest ih =>
    rw [worstOf]
    split_ifs with hfirst hwrite
    · rfl
    all_goals
      obtain rfl | hmem := List.mem_cons.mp hmem
      · exact absurd h hfirst
      · exact ih hmem _

/-- A phrase that is to be typed is not empty. -/
theorem queryConfirmation_destructive {sql : Text} (h : queryRisk sql = .destructive) :
    ∃ phrase, phrase ≠ [] ∧ queryConfirmation sql = .typeToConfirm phrase := by
  refine ⟨_, ?_, by rw [queryConfirmation, h]⟩
  cases hname : destroyedObject sql with
  | none => decide
  | some name =>
    obtain ⟨stmt, -, hstmt⟩ := List.exists_of_findSome?_eq_some hname
    exact of_decide_eq_true (Option.filter_eq_some_iff.mp hstmt).2

end OpsMaxx.Queries
