import CodeAtlas.Schema.Target

/-!
# Scripts

A migration can be written down without a database, between two versions that are named. The script
holds what was written up to a fault.
-/
namespace CodeAtlas.Schema.Script

/-- Something that writes a script and may end early. -/
abbrev Writer := ExceptT Fault (StateM (List String))

def say (line : String) : Writer Unit := modify (· ++ [line])

def statement (s : Statement) : Writer Unit := say (s.text .postgres ++ ";")

def change : Change → Writer Unit
  | .run s => statement s
  | .ensure _ => throw .noDatabase
  | .dropNameless _ => throw .nameless

def heading (s : Step) : String :=
  let verb := match s.direction with
    | .up => "upgrade"
    | .down => "downgrade"
  Text.collapse ("-- Running " ++ verb ++ " " ++ (idOf? s.source).getD "" ++ " -> " ++
    (idOf? s.goal).getD "")

def recording (source goal : Nat) : List Statement :=
  match idOf? source, idOf? goal with
  | none, some new => [.insertVersion new]
  | some old, some new => [.updateVersion old new]
  | some old, none => [.deleteVersion old]
  | none, none => []

def step (s : Step) : Writer Unit := do
  if s.source = 0 then statement (.createTable versionShape)
  say (heading s)
  s.changes.forM change
  (recording s.source s.goal).forM statement

/-- Writes the steps between two versions. Without a version left, its table is dropped. -/
def between (d : Direction) (source goal : String) : Writer Unit := do
  say "BEGIN;"
  let present ← named source
  if present = 0 ∧ source ≠ "base" then throw .nowhere
  let steps ← way d (idOf? present).toList goal
  steps.forM step
  if (steps.getLast?.map Step.goal).getD present = 0 then statement (.dropTable versionTable)
  say "COMMIT;"

/-- Writes the migration that an argument asks for: two versions, or one from the first version up. -/
def write (d : Direction) (argument : String) : Writer Unit :=
  match Text.fields ':' argument, d with
  | [source, goal], _ => between d source goal
  | [goal], .up => between .up "base" goal
  | [_], .down => throw .unreachable
  | _, _ => throw .malformed

end CodeAtlas.Schema.Script
