import CodeAtlas.Json.Printer
import CodeAtlas.World

/-!
# Saved plans and preferences

The test plan and the preferences of an entry point are kept as JSON texts. A text that is missing or
empty stands for nothing.
-/
namespace CodeAtlas.Saved

def value : Option String → Except Failure Json
  | none => .ok .null
  | some s =>
    if s == "" then .ok .null
    else (Json.ofText s).mapError .unreadable

def endpoint? (identifier : Json) (project : ProjectKey) : Run (Option Endpoint) := do
  let identifier ← Column.text identifier
  let project ← project.cell
  Run.look fun s => s.endpoint? identifier project

/-- The plan of an entry point, null if there is none. -/
def plan (identifier : Json) (project : ProjectKey) : Run Json := do
  match ← endpoint? identifier project with
  | some e => value e.plan
  | none => return .null

/-- The preferences of an entry point, null if there are none. -/
def preferences (identifier : Json) (project : ProjectKey) : Run Json := do
  match ← endpoint? identifier project with
  | some e => value e.preferences
  | none => return .null

def planAndPreferences (identifier : Json) (project : ProjectKey) : Run (Json × Json) := do
  match ← endpoint? identifier project with
  | some e => return (← value e.plan, ← value e.preferences)
  | none => return (.null, .null)

/-- Sets a column of an entry point; nothing is written if the column holds the value already. -/
def set (column : String) (held : Endpoint → Option String) (v identifier : Json)
    (project : ProjectKey) : Run Unit := do
  match ← endpoint? identifier project with
  | none => throw (.refuse 404 "Endpoint not found")
  | some e =>
    if Json.ofOption (held e) = v then return ()
    Run.alter fun s => s.updateEndpoint identifier project.given [(column, v)]

def setPlan (identifier plan : Json) (project : ProjectKey) : Run Unit :=
  set "test_plan" Endpoint.plan plan identifier project

def setPreferences (identifier preferences : Json) (project : ProjectKey) : Run Unit :=
  set "preferences" Endpoint.preferences (.str (preferences.render .spaced)) identifier project

def clear (project : ProjectKey) (user : Json) : Run Unit := do
  if (← get).deletesJoined then
    let project ← project.cell
    let user ← Column.text user
    Run.alter fun s => s.deleteEndpointsOf project user
  else
    throw (.storeMisused "Could not evaluate current criteria in Python: \"Cannot evaluate Select\". Specify 'fetch' or False for the synchronize_session execution option.")

end CodeAtlas.Saved
