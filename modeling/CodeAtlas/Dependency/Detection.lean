import CodeAtlas.Assistant.Chat
import CodeAtlas.Code.Reader
import CodeAtlas.Flow.Basic

/-!
# Dependencies

The dependencies of an entry point are the functions that it reaches; the language model is asked for
those that the graph does not show.
-/

/-!
## What the language model is told about dependencies

The wording of the messages by which the dependencies of a function are asked for.
-/
namespace CodeAtlas.Dependency.Prompt

def detector : String :=
  "You are a world-class Python unit testing expert with a keen ability to identify " ++
    "dependencies that can be mocked. You meticulously analyze code to determine which " ++
    "classes, functions, or third-party SDKs/libraries are called."

def detect (code calls known : String) : String :=
  "\n".intercalate [
    "Please analyze the following Python function to identify its dependencies. List all " ++
      "classes, third-party SDKs/libraries called by this function, which could potentially " ++
      "be mocked for testing purposes. ",
    "        ",
    "            DO NOT HALLUCINATE any new function or class names. You output should " ++
      "match the entities in the below code.",
    "",
    "        Function to test: ",
    "        ```python",
    "        " ++ code,
    "        ```",
    "",
    "        List of user defined function calls from the above function: ",
    "        ``` ",
    "        " ++ calls,
    "        ```",
    "        DO NOT INCLUDE THE FOLLOWING functions in your output as they are accounted " ++
      "for: ",
    "        " ++ known,
    "        ```",
    "        Adhere to the following filtering RULES:",
    "        * Pydantic classes are not dependencies. IDENTIFY possible pydantic " ++
      "classname references in function parameters and DO NOT INCLUDE them.",
    "        * DO NOT include file names and paths as they cannot be mocked. ",
    "        * ONLY include the names of the classes, functions, or third-party " ++
      "SDKs/libraries.",
    "        * 'async' and 'await' are not dependencies.",
    "        * Structure your output in a comma separated list format WITHOUT any " ++
      "additional text or spacing. ",
    "            For example: ",
    "            function1,classA,importB",
    "        ",
    "        "]

end CodeAtlas.Dependency.Prompt

/-! ## The dependencies of an entry point -/
namespace CodeAtlas.Dependency

/-- What follows the first colon of an identifier, up to the next one. -/
def localName : Json → Except Failure String
  | .str identifier =>
    match Text.fields ':' identifier with
    | _ :: name :: _ => .ok name
    | _ => .error (.outOfRange "list")
  | v => .error (.noMember v.kindName "split")

def others (identifier : Json) (flow : List Json) : Except Failure (List String) :=
  (flow.filter fun f => !f.same identifier).mapM localName

/-- The functions that an entry point reaches. -/
def known (identifier : Json) (project : ProjectKey) : Run (List String) := do
  others identifier (← Flow.functions identifier project)

def items (text : String) : List String :=
  ((Text.fields ',' text).map Text.trim).filter (· != "")

def ofFunction (function : Json) (project : ProjectKey) (known : List String) :
    Run (List String) := do
  let node ← GraphService.node? function project
  let code ← Code.hosted ((node.map GraphNode.properties).getD [])
  let calls ← GraphService.callees function project
  let shownCalls := (Json.arr (calls.map fun n => .obj n.properties)).literal
  let shownKnown := (Json.arr (known.map .str)).literal
  let reply ← Assistant.askQuick [.system Prompt.detector,
    .human (Prompt.detect (code.getD "None") shownCalls shownKnown)]
  return items reply

/-- All dependencies of an entry point: those that are asked for, then those that are known. The
project is described by its members. -/
def all (user identifier details : Json) : Run (List String) := do
  let _ ← Assistant.ofUser user
  let project : ProjectKey := ⟨← details.key "id"⟩
  let flow ← Flow.functions identifier project
  let known ← others identifier flow
  let asked ← Run.gather (fun f => ofFunction f project known) flow
  return asked ++ known

end CodeAtlas.Dependency
