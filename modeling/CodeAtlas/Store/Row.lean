import CodeAtlas.Json.Access
import CodeAtlas.Json.Basic
import CodeAtlas.Store.Cell

/-!
# Rows

What the store keeps about users, their projects, and what is known of a project: its entry points,
explanations of its functions, and its data models.

A row is made of a value for each column and changed column by column. What is wrong with the values of
a statement shows in three steps: first whether each column takes its value at all, then whether it can
be handed over, in the order of the columns, and last whether the row keeps the rules of its table.
-/
namespace CodeAtlas

inductive ProjectStatus where
  | created
  | ready
  | error
  deriving DecidableEq, Repr

namespace ProjectStatus

def text : ProjectStatus → String
  | created => "created"
  | ready => "ready"
  | error => "error"

def ofText? (s : String) : Option ProjectStatus :=
  if s == "created" then some created
  else if s == "ready" then some ready
  else if s == "error" then some error
  else none

end ProjectStatus

structure User where
  uid : String
  email : String
  displayName : Option String
  emailVerified : Option Bool
  providerInfo : Json
  providerUsername : Option String

/-- A branch of a repository that was analysed for a user. -/
structure Project where
  id : Int
  directory : Option String
  isDefault : Option Bool
  name : Option String
  /-- What is known about the repository, as a text. -/
  properties : Option String
  repository : Option String
  branch : Option String
  owner : String
  commit : Option String
  isDeleted : Option Bool
  status : Option ProjectStatus
  deriving DecidableEq

/-- An entry point of a project: the function that serves a path, with the test plan and the
preferences saved for it. -/
structure Endpoint where
  path : Option String
  identifier : String
  plan : Option String
  preferences : Option String
  /-- The number of the project; what is not a number is kept as it is. -/
  project : Cell
  deriving DecidableEq

/-- What was said about a function whose code has a given hash. -/
structure Explanation where
  id : Int
  identifier : String
  hash : String
  explanation : String
  project : Cell
  deriving DecidableEq

structure ModelClass where
  file : String
  name : String
  definition : Option String
  project : Cell
  deriving DecidableEq

/-! ## Columns -/

abbrev Change := String × Json

inductive ColumnKind where
  | text
  | number
  | truth
  | time
  | bytes
  | json
  deriving DecidableEq

namespace ColumnKind

def takes (isNew : Bool) (k : ColumnKind) (v : Json) : Bool :=
  match k with
  | text | number | json => true
  | truth => v = .null || v.same (.bool true) || v.same (.bool false)
  | time => v = .null
  | bytes => v = .null || (isNew && v.str?.isSome)

def truthRefusal : Json → String
  | .int n => s!"(builtins.ValueError) Value {n} is not None, True, or False"
  | .arr _ => "(builtins.TypeError) unhashable type: 'list'"
  | .obj _ => "(builtins.TypeError) unhashable type: 'dict'"
  | v => "(builtins.TypeError) Not a boolean value: " ++ v.literal

/-- Hands a value over. Truth values, times and bytes have been turned before. -/
def handOver (k : ColumnKind) (v : Json) : Except Failure Unit :=
  match k with
  | text | number => do let _ ← Cell.ofJson v
  | truth | time | bytes | json => .ok ()

end ColumnKind

structure Column where
  name : String
  kind : ColumnKind
  /-- Do rows differ in this column, alone or with others? -/
  isKey : Bool

namespace Column

def text (v : Json) : Except Failure (Option String) := do return (← Cell.ofJson v).asText

def someText (v : Json) : Except Failure String := do
  match ← text v with
  | some s => return s
  | none => throw .constraintBroken

/-- A number, or what does not read as one; never nothing. -/
def number (v : Json) : Except Failure Cell := do
  match (← Cell.ofJson v).asNumber with
  | .null => throw .constraintBroken
  | c => return c

def rowNumber (v : Json) : Except Failure Int := do
  match (← Cell.ofJson v).asNumber with
  | .number n => return n
  | _ => throw .constraintBroken

def truth (v : Json) : Option Bool := if v = .null then none else some v.isGiven

def status (v : Json) : Except Failure (Option ProjectStatus) := do
  match ← text v with
  | none => return none
  | some s =>
    match ProjectStatus.ofText? s with
    | some p => return some p
    | none => throw .constraintBroken

/-- A value that is not given, or is null, stands for a default. -/
def orDefault {α : Type} (a : α) : Option α → Option α
  | some b => some b
  | none => some a

def check (isNew : Bool) (columns : List Column) (given : List Change) : Except Failure Unit := do
  let value (c : Column) : Json := (Table.get? given c.name).getD .null
  match columns.find? fun c => !c.kind.takes isNew (value c) with
  | some c => throw (.columnRefused s!"the column {c.name} does not take its value")
  | none => columns.forM fun c => c.kind.handOver (value c)

/-- A list or an object cannot tell rows apart. -/
def isCompound : Json → Bool
  | .arr _ | .obj _ => true
  | _ => false

def ofNew (columns : List Column) (v : Json) : Except Failure Unit :=
  match v with
  | .obj members =>
    if members.any fun m => !(columns.map Column.name).contains m.1 then
      .error (.unfit "invalid keyword argument")
    else if columns.any fun c => c.isKey && isCompound (v.getD c.name) then
      .error (.unfit "unhashable type")
    else check true columns members
  | v => .error (.unfit s!"argument after ** must be a mapping, not {v.kindName}")

def unknown (column : String) : Failure := .storeMisused s!"Invalid expression type: '{column}'"

def ofChanges (columns : List Column) (changes : List Change) : Except Failure Unit :=
  match changes.find? fun c => !(columns.map Column.name).contains c.1 with
  | some c => .error (unknown c.1)
  | none => check false columns changes

end Column

namespace User

def columns : List Column :=
  [⟨"uid", .text, true⟩, ⟨"email", .text, false⟩, ⟨"display_name", .text, false⟩,
   ⟨"email_verified", .truth, false⟩, ⟨"created_at", .time, false⟩, ⟨"last_login_at", .time, false⟩,
   ⟨"provider_info", .json, false⟩, ⟨"provider_username", .text, false⟩]

/-- Sets a column. The times are kept elsewhere. -/
def assign (u : User) : Change → Except Failure User
  | ("uid", v) => do return { u with uid := ← Column.someText v }
  | ("email", v) => do return { u with email := ← Column.someText v }
  | ("display_name", v) => do return { u with displayName := ← Column.text v }
  | ("email_verified", v) => .ok { u with emailVerified := Column.truth v }
  | ("provider_info", v) => .ok { u with providerInfo := v }
  | ("provider_username", v) => do return { u with providerUsername := ← Column.text v }
  | _ => .ok u

def ofColumns (c : Json) : Except Failure User := do
  return { uid := ← Column.someText (c.getD "uid")
           email := ← Column.someText (c.getD "email")
           displayName := ← Column.text (c.getD "display_name")
           emailVerified := Column.orDefault false (Column.truth (c.getD "email_verified"))
           providerInfo := c.getD "provider_info"
           providerUsername := ← Column.text (c.getD "provider_username") }

end User

namespace Project

/-- The members that describe a project to those who plan for it. -/
def details (p : Project) : Json :=
  .obj [("directory", Json.ofOption p.directory), ("id", .int p.id)]

def columns : List Column :=
  [⟨"id", .number, true⟩, ⟨"directory", .text, false⟩, ⟨"is_default", .truth, false⟩,
   ⟨"project_name", .text, false⟩, ⟨"properties", .bytes, false⟩, ⟨"repo_name", .text, false⟩,
   ⟨"branch_name", .text, false⟩, ⟨"user_id", .text, false⟩, ⟨"created_at", .time, false⟩,
   ⟨"commit_id", .text, false⟩, ⟨"is_deleted", .truth, false⟩, ⟨"updated_at", .time, false⟩,
   ⟨"status", .text, false⟩]

/-- Sets a column. The times are kept elsewhere. -/
def assign (p : Project) : Change → Except Failure Project
  | ("id", v) => do return { p with id := ← Column.rowNumber v }
  | ("directory", v) => do return { p with directory := ← Column.text v }
  | ("is_default", v) => .ok { p with isDefault := Column.truth v }
  | ("project_name", v) => do return { p with name := ← Column.text v }
  | ("properties", v) => do return { p with properties := ← Column.text v }
  | ("repo_name", v) => do return { p with repository := ← Column.text v }
  | ("branch_name", v) => do return { p with branch := ← Column.text v }
  | ("user_id", v) => do return { p with owner := ← Column.someText v }
  | ("commit_id", v) => do return { p with commit := ← Column.text v }
  | ("is_deleted", v) => .ok { p with isDeleted := Column.truth v }
  | ("status", v) => do return { p with status := ← Column.status v }
  | _ => .ok p

def ofColumns (next : Int) (c : Json) : Except Failure Project := do
  let id ← if c.getD "id" = .null then .ok next else Column.rowNumber (c.getD "id")
  return { id
           directory := ← Column.text (c.getD "directory")
           isDefault := Column.orDefault false (Column.truth (c.getD "is_default"))
           name := ← Column.text (c.getD "project_name")
           properties := ← Column.text (c.getD "properties")
           repository := ← Column.text (c.getD "repo_name")
           branch := ← Column.text (c.getD "branch_name")
           owner := ← Column.someText (c.getD "user_id")
           commit := ← Column.text (c.getD "commit_id")
           isDeleted := Column.orDefault false (Column.truth (c.getD "is_deleted"))
           status := Column.orDefault .created (← Column.status (c.getD "status")) }

end Project

namespace Endpoint

def columns : List Column :=
  [⟨"path", .text, false⟩, ⟨"identifier", .text, true⟩, ⟨"test_plan", .text, false⟩,
   ⟨"preferences", .text, false⟩, ⟨"project_id", .number, true⟩]

def assign (e : Endpoint) : Change → Except Failure Endpoint
  | ("path", v) => do return { e with path := ← Column.text v }
  | ("identifier", v) => do return { e with identifier := ← Column.someText v }
  | ("test_plan", v) => do return { e with plan := ← Column.text v }
  | ("preferences", v) => do return { e with preferences := ← Column.text v }
  | ("project_id", v) => do return { e with project := ← Column.number v }
  | _ => .ok e

def ofColumns (c : Json) : Except Failure Endpoint := do
  return { path := ← Column.text (c.getD "path")
           identifier := ← Column.someText (c.getD "identifier")
           plan := ← Column.text (c.getD "test_plan")
           preferences := ← Column.text (c.getD "preferences")
           project := ← Column.number (c.getD "project_id") }

end Endpoint

namespace Explanation

def columns : List Column :=
  [⟨"id", .number, true⟩, ⟨"identifier", .text, false⟩, ⟨"hash", .text, false⟩,
   ⟨"explanation", .text, false⟩, ⟨"project_id", .number, false⟩]

def assign (e : Explanation) : Change → Except Failure Explanation
  | ("id", v) => do return { e with id := ← Column.rowNumber v }
  | ("identifier", v) => do return { e with identifier := ← Column.someText v }
  | ("hash", v) => do return { e with hash := ← Column.someText v }
  | ("explanation", v) => do return { e with explanation := ← Column.someText v }
  | ("project_id", v) => do return { e with project := ← Column.number v }
  | _ => .ok e

def ofColumns (next : Int) (c : Json) : Except Failure Explanation := do
  let id ← if c.getD "id" = .null then .ok next else Column.rowNumber (c.getD "id")
  return { id
           identifier := ← Column.someText (c.getD "identifier")
           hash := ← Column.someText (c.getD "hash")
           explanation := ← Column.someText (c.getD "explanation")
           project := ← Column.number (c.getD "project_id") }

end Explanation

namespace ModelClass

def columns : List Column :=
  [⟨"filepath", .text, true⟩, ⟨"classname", .text, true⟩, ⟨"definition", .text, false⟩,
   ⟨"project_id", .number, false⟩]

def assign (m : ModelClass) : Change → Except Failure ModelClass
  | ("filepath", v) => do return { m with file := ← Column.someText v }
  | ("classname", v) => do return { m with name := ← Column.someText v }
  | ("definition", v) => do return { m with definition := ← Column.text v }
  | ("project_id", v) => do return { m with project := ← Column.number v }
  | _ => .ok m

def ofColumns (c : Json) : Except Failure ModelClass := do
  return { file := ← Column.someText (c.getD "filepath")
           name := ← Column.someText (c.getD "classname")
           definition := ← Column.text (c.getD "definition")
           project := ← Column.number (c.getD "project_id") }

end ModelClass
end CodeAtlas
