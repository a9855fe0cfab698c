import CodeAtlas.Plan.Generation
import CodeAtlas.World

/-!
# Comments

The comments that the service leaves on pull requests, and those that it answers.
-/
namespace CodeAtlas

/-!
## Comments on pull requests

The wording of the comments that the service leaves: a plan as a table, and the entry points that a
change reaches.
-/

namespace Markdown

def row (first second : String) : String := "| " ++ first ++ " | " ++ second ++ " |\n"

def categoryRows (category : String) (items : Json) : Except Failure String := do
  return String.join ((← items.elements).map fun item => row category item.display)

def planTable (plan : List (String × Json)) : Except Failure String := do
  let rows ← plan.mapM fun (category, items) => categoryRows category items
  return "| Category | Description |\n|----------|-------------|\n" ++ String.join rows

def fileRows (file : String) (endpoints : Json) : Except Failure String := do
  let paths ← (← endpoints.elements).mapM fun e => e.key "entryPoint"
  return String.join (paths.map fun path => row (Text.swap "\\" "/" file) path.display)

def botName : Run String := do
  match ← Run.setting? "GITHUB_BOT_NAME" with
  | some name => return name
  | none => throw (.missingKey (.str "GITHUB_BOT_NAME"))

/-- The entry points that a change reaches, by file, as a comment. -/
def impact (radius : List (String × Json)) : Run String := do
  let rows ← (radius.mapM fun (file, endpoints) => fileRows file endpoints : Except Failure _)
  let bot ← botName
  return "The scope of impact of your current changes.\u00a0Learn more about\u00a0[momentum " ++
    "\u2197\ufe0e](https://momentum.sh/)\n\n## Blast Radius:\n\n" ++ row "Filename" "Entry Point" ++
    row "---" "---" ++ String.join rows ++
    "\n Tag the app and use the /plan command with the name of the entry point to generate a " ++
    "Test Plan for it. Like: \n`@" ++ bot ++ " /plan\u00a0 GET /end/point`"

end Markdown

/-!
## Comments that ask for a plan

A comment on an open pull request that mentions the service and `/plan` asks for the plan of the
entry point named after it. What goes wrong on the way is passed over.
-/

namespace PlanRequest

/-- Does a comment ask the service for a plan? A mention in quotes does not count. -/
def isRequest (bot comment : String) : Bool :=
  let said := Text.lower comment
  Text.contains "/plan" said && Text.contains ("@" ++ bot) said &&
    !Text.contains ("`@" ++ bot) said

def wanted (comment : String) : Except Failure String :=
  match (Text.fields ' ' comment).dropWhile (· != "/plan") with
  | _ :: rest => .ok (" ".intercalate rest)
  | [] => .error (.invalid "'/plan' is not in list")

def planFor (path : String) (p : Project) : Run Json := do
  match ← Run.look fun s => s.endpointServing? (some path) (.number p.id) with
  | some _ => throw (.argumentRejected "SQL expression element or literal value expected")
  | none => Planning.generate (.str p.owner) .null p.details .null

def answer (repository number : Json) (comment : String) : Run Unit := do
  let hosted ← Hosting.repository repository
  let branch ← Hosting.pullBranch hosted number.display
  let project ← Run.look fun s => s.projectOfBranch? repository.str? (some branch)
  let path ← wanted comment
  match project with
  | none => throw (Json.notIndexed "NoneType")
  | some p =>
    let plan ← planFor path p
    if plan != .obj [] then
      let table ← Markdown.planTable plan.members
      Run.note (.commented ("Test plan for " ++ path ++ ":\n" ++ table ++
        "\nHead over to the [momentum app](https://app.momentum.sh/) to visualise and test your " ++
        "changes"))

def handle (payload : Json) (comment : String) : Run Unit := do
  let repository ← payload.keys ["repository", "full_name"]
  let number ← payload.keys ["issue", "number"]
  match payload.keys ["installation", "id"] with
  | .error _ => throw (.unassigned "github")
  | .ok _ =>
    let _ ← Run.outcome (answer repository number comment)
    return ()

def commented (payload : Json) : Run Unit := do
  let state ← (← payload.lookUp "issue").lookUp "state"
  let comment ← (← payload.lookUp "comment").lookUp "body"
  let bot ← Markdown.botName
  if state = .str "open" then
    match comment with
    | .str said => if isRequest bot said then handle payload said
    | v => throw (.noMember v.kindName "lower")

end PlanRequest

end CodeAtlas
