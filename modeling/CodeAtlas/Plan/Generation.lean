import CodeAtlas.Flow.Basic
import CodeAtlas.Form.Requests
import CodeAtlas.Plan.Explanation
import CodeAtlas.Plan.Extraction
import CodeAtlas.Plan.Saved

/-!
# Test plans

A plan lists scenarios for an entry point: happy paths and edge cases. The language model is told the
tree of calls, the code and an explanation of every function in the flow, and what is to be mocked.
A plan with few scenarios is asked for once more.

* `Planning.draft` asks for a plan;
* `Planning.generate` collects the context, asks, and saves the plan.
-/
namespace CodeAtlas.Planning

def size : Json → Except Failure Nat
  | .arr items => .ok items.length
  | .obj members => .ok members.length
  | .str s => .ok s.length
  | v => .error (.unfit s!"object of type '{v.kindName}' has no len()")

def scenarios (plan : Json) : Except Failure Nat := do
  let happy ← size (← plan.key "happy_path")
  let edge ← size (← plan.key "edge_case")
  return happy + edge

/-- What a plan is asked for. -/
structure Wish where
  /-- What is known about the entry point. -/
  context : Json
  mocked : Json
  databaseMocked : Json
  package : Json
  /-- With fewer scenarios the plan is asked for once more. -/
  least : Json

/-- The answer to a wish: a plan, or one that was asked for once more. -/
inductive Draft where
  | plan (text : String)
  | elaborated (text : String)

def Draft.text : Draft → String
  | .plan t => t
  | .elaborated t => t

/-- Are there fewer scenarios than a number? -/
def isShort (n : Nat) (least : Json) : Except Failure Bool :=
  match Quantity.ofJson? least with
  | some q => .ok (q.above n)
  | none =>
    .error (.unfit s!"'<' not supported between instances of 'int' and '{least.kindName}'")

def draft (a : Assistant) (w : Wish) : Run Draft := do
  let opening := [⟨"ai", w.context⟩,
    .human (Plan.Prompt.plan w.package.display w.mocked.display w.databaseMocked.display)]
  let reply ← a.askReasoning opening
  if ← isShort (← scenarios (← Extraction.value reply)) w.least then
    let more ← a.askReasoning (opening ++ [.assistant reply, .human Plan.Prompt.elaborate])
    return .elaborated more
  return .plan reply

def functionContext (source : CodeSource) (project : ProjectKey) (function : Json) : Run String := do
  let node ← GraphService.node? function project
  let name ← Explaining.nameOf function
  let properties := (node.map GraphNode.properties).getD []
  let code ← source.code properties
  let explanation ← Explaining.explain source name properties project
  return "\n" ++ name ++ "\n code: \n" ++ code ++ "\n explanation: \n" ++ explanation

def flowContext (source : CodeSource) (project : ProjectKey) : List Json → Run String
  | [] => return ""
  | f :: fs => do
    let first ← functionContext source project f
    return first ++ (← flowContext source project fs)

def mocking (preferences : Json) : Except Failure (Json × Json) := do
  if preferences.isGiven then
    return (← preferences.key "entities_to_mock", ← preferences.key "is_db_mocked")
  else return (.str "", .bool false)

def keyOf (project : Json) : Except Failure ProjectKey := return ⟨← project.key "id"⟩

/-- What is done with the answer to a wish. -/
def close (identifier : Json) (project : ProjectKey) : Draft → Run Json
  | .elaborated _ => throw (.noMember "str" "content")
  | .plan text => do
    let plan ← Extraction.value text
    let read ← Form.plan.read plan
    Saved.setPlan identifier (.str (read.render .compact)) project
    return plan

/-- Makes a plan for an entry point and saves it. Without preferences the saved ones are taken. A
project is described by its folder and its number. -/
def generate (user identifier details preferences : Json) : Run Json := do
  let a ← Assistant.ofUser user
  let preferences ←
    if preferences = .null then do
      let _ ← details.key "directory"
      Saved.preferences identifier (← keyOf details)
    else pure preferences
  let (mocked, databaseMocked) ← mocking preferences
  let project ← keyOf details
  let flow ← Flow.functions identifier project
  let _ ← details.key "directory"
  let tree ← Flow.tree identifier project
  if flow.isEmpty then throw (.refuse 404 "Identifier not found, run code")
  let source ← CodeSource.ofUser user
  let functions ← flowContext source project flow
  let context := "The structure of the code represented as a tree in json format:\n " ++
    (Json.arr (CallTree.listToJson tree)).literal ++ functions
  draft a ⟨.str context, mocked, databaseMocked, .str "pytest", .int 6⟩ >>= close identifier project

end CodeAtlas.Planning
