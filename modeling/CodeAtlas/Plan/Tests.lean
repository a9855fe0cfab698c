import CodeAtlas.Assistant.Chat
import CodeAtlas.Plan.Extraction
import CodeAtlas.Plan.Prompt

/-!
# Tests for a plan

The language model writes tests for the scenarios of a plan. If what it writes does not read as a
program it is asked again, so many times.
-/

/-!
## Programs of simple statements

Generated code is taken only if it reads as a program. What is recognised are lines that hold an
import, an assignment or a value, where names and whole numbers are values.
-/
namespace CodeAtlas.Program

/-- Words that cannot be names. -/
def reserved : List String :=
  ["False", "None", "True", "and", "as", "assert", "async", "await", "break", "class", "continue",
   "def", "del", "elif", "else", "except", "finally", "for", "from", "global", "if", "import", "in",
   "is", "lambda", "nonlocal", "not", "or", "pass", "raise", "return", "try", "while", "with", "yield"]

def isName (word : String) : Bool :=
  match word.toList with
  | [] => false
  | c :: cs => !c.isDigit && (c :: cs).all Text.isWord && !reserved.contains word

def isNumber (word : String) : Bool := word != "" && word.toList.all Char.isDigit

def isValue (word : String) : Bool :=
  isName word || isNumber word || ["False", "None", "True"].contains word

def isModule (word : String) : Bool := (Text.fields '.' word).all isName

def isStatement (line : String) : Bool :=
  match Text.words line with
  | [] | ["pass"] => true
  | [value] => isValue value
  | ["import", module] => isModule module
  | [name, "=", value] => isName name && isValue value
  | _ => false

def isProgram (text : String) : Bool := (Text.fields '\n' text).all isStatement

end CodeAtlas.Program

/-! ## Asking for tests -/
namespace CodeAtlas.TestWriting

/-- What tests are asked with. -/
structure Wish where
  plan : Json
  subject : Plan.Prompt.Subject
  temperature : String

def attempt (a : Assistant) (w : Wish) : Run String := do
  let reply ← Assistant.ask a.reasoning
    [⟨"ai", w.plan⟩, .system Plan.Prompt.tester, .human (Plan.Prompt.tests w.subject)]
    w.temperature
  match CodeBlock.first? reply with
  | some code => return code
  | none => throw (.outOfRange "list")

/-- Asks for tests, and again so many times while they do not read as a program. -/
def writeWithin (a : Assistant) (w : Wish) : Nat → Run String
  | 0 => attempt a w
  | n + 1 => do
    let code ← attempt a w
    if Program.isProgram code then return code else writeWithin a w n

/-- How many times something is done again, if one is taken off a number as long as it is above
zero. -/
def repeats (number : Json) : Except Failure Nat :=
  match Quantity.ofJson? number with
  | some q => .ok q.ceiling.toNat
  | none =>
    .error (.unfit s!"'>' not supported between instances of '{number.kindName}' and 'int'")

/-- Asks for tests, and again so many times while they do not read as a program. The number is only
looked at if there is need for it. -/
def write (a : Assistant) (w : Wish) (again : Json) : Run String := do
  let code ← attempt a w
  if Program.isProgram code then return code
  match ← repeats again with
  | 0 => return code
  | n + 1 => writeWithin a w n

end CodeAtlas.TestWriting
