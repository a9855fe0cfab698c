import CodeAtlas.Crew.Prompt
import CodeAtlas.Flow.Basic
import CodeAtlas.Plan.Explanation
import CodeAtlas.Plan.Extraction
import CodeAtlas.Plan.Generation
import CodeAtlas.Project.Folder
import CodeAtlas.Project.Registry
import CodeAtlas.User

/-!
# The crew

A crew of agents writes tests for an entry point, with tools that tell it about the code.
-/
namespace CodeAtlas

/-!
## The tools of the crew

What the agents may ask for while they work: the code of a flow, the definitions of data classes, and
the knowledge graph. The tests they write go to a file.
-/

namespace Tools

def functionCode (function : Json) (project : ProjectKey) : Run String := do
  match ← GraphService.node? function project with
  | none => throw (Json.notIndexed "NoneType")
  | some n =>
    let name ← Explaining.nameOf (← n.shownId)
    let code ← CodeSource.hosted.code n.properties
    return "\n" ++ name ++ "\n code: \n" ++ code

def flowCode (project : ProjectKey) : List Json → Run String
  | [] => return ""
  | f :: fs => do
    let first ← functionCode f project
    return first ++ (← flowCode project fs)

def code (identifier : Json) (project : ProjectKey) : Run String := do
  flowCode project (← Flow.functions identifier project)

def definition (c : GraphService.BaseClass) : Run String := do
  let node := [("project_id", c.project), ("id", c.id), ("start", c.start), ("end", c.stop)]
  return (← Code.hosted node).getD "None" ++ "\n\n"

def definitionsOf : List GraphService.BaseClass → Run String
  | [] => return ""
  | c :: cs => do
    let first ← definition c
    return first ++ (← definitionsOf cs)

def model (name : Json) (project : ProjectKey) : Run String := do
  definitionsOf (← GraphService.lineage name project)

/-- The definitions of several classes and their bases; nothing if they cannot be had. -/
def models (names : Json) (project : ProjectKey) : Run String := do
  match ← Run.outcome (GraphService.lineages names project) with
  | .ok classes => definitionsOf classes
  | .error _ => return ""

def ask (query project : Json) : Run Json := do
  let url := (← Run.setting? "KNOWLEDGE_GRAPH_URL").getD "None"
  Run.note (.posted url (.obj [("project_id", project), ("query", query)]))
  return (← get).knowledge

def writeTests (identifier code directory : Json) : Run String := do
  let folder := directory.display ++ "/tests"
  unless (← get).files.contains folder do Folder.make folder
  let identifier ← identifier.asText "split"
  let name := ((Text.fields ':' identifier).getLast?).getD identifier
  let path := folder ++ "/test_" ++ name ++ "_xxxxxxxx.py"
  Folder.write path ByteArray.empty
  match code with
  | .str code => Folder.write path code.toUTF8
  | v => throw (.unfit s!"write() argument must be str, not {v.kindName}")
  return path

end Tools

/-!
## Tests written by the crew

Tests for an entry point are written by a crew of agents after a saved plan, or a new one. How many
tests were written counts towards what the user may generate.
-/

namespace Crew

/-- Gives the crew its tasks and waits for its answer. -/
def work (s : Subject) : Run String := do
  for t in [Prompt.modelTask s, Prompt.graphTask s, Prompt.testTask s] do
    Run.note (.taskGiven t.description t.expected)
  for a in [Prompt.modelAgent, Prompt.analysisAgent s, Prompt.testAgent s] do
    Run.note (.agentGiven a.role a.goal a.backstory)
  return (← get).crewReply

def scenariosOf (plan : Json) (name : String) : Except Failure Nat :=
  match plan with
  | .obj members =>
    match Table.get? members name with
    | some v => Planning.size v
    | none => .error (.unfit "object of type 'int' has no len()")
  | v => .error (.unfit s!"argument of type '{v.kindName}' is not iterable")

def testCount (plan : Json) : Except Failure Nat := do
  let happy ← scenariosOf plan "happy_path"
  let edge ← scenariosOf plan "edge_case"
  return happy + edge

/-- The entry point that tests are asked for. -/
structure Request where
  identifier : Json
  path : Json
  project : ProjectKey
  user : Json

/-- Asks the crew for tests, and notes how many were asked for. -/
def askFor (r : Request) (p : Project) : Run String := do
  let (saved, preferences) ← Saved.planAndPreferences r.identifier (.number p.id)
  let plan ←
    if saved = .null then Planning.generate r.user r.identifier p.details preferences
    else pure saved
  let tests ← testCount plan
  let _ ← Assistant.ofUser r.user
  let reply ← work ⟨r.identifier.display, toString p.id, p.directory.getD "None", plan.display, r.path.display,
    preferences.display⟩
  Usage.save ⟨.int p.id, r.user, .int tests, Json.ofOption p.repository, Json.ofOption p.branch⟩
  return reply

def writeFor (r : Request) (p : Project) : Run String := do
  (CodeBlock.content (← askFor r p)).first

/-- Writes tests for an entry point, as long as the user may generate some. -/
def write (r : Request) : Run String := do
  let limit := Usage.limit (← Usage.isPro r.user)
  if (← Usage.count r.user).below limit then
    match ← Registry.projectOf? r.project r.user with
    | some p => writeFor r p
    | none => throw (.refuse 400 "Project Details not found.")
  else throw (.refuse 429 "Test generation limit reached")

end Crew

end CodeAtlas
