import CodeAtlas.Graph.Service
import CodeAtlas.Index
import CodeAtlas.Text.Case

/-!
# Entry points by decorator

A decorated definition is an entry point if a decorator contains the name of a request method. The
decorator gives the verb and the path; a `route` gives one entry point for each of its methods. A
response type named by the decorator is noted on the node of the function.
-/

/-!
## The paths that entry points serve

* `ofDecorator`: the path written in a decorator, its first argument;
* `qualified`: a path below the path of a router.
-/
namespace CodeAtlas.ServedPath

def isQuote (c : Char) : Bool := c == '\'' || c == '"'

def isQuoted (s : String) : Bool := s.toList.head?.any isQuote && s.toList.getLast?.any isQuote

/-- The path written in a decorator: the text after the first opening parenthesis up to the next
comma, or without its last character if there is no comma. Quotes around it are taken off, and an
empty path is the root. -/
def ofDecorator (decorator : String) : String :=
  let rest := ((Text.cut? "(" decorator).map Prod.snd).getD decorator
  let argument := Text.trim (((Text.cut? "," rest).map Prod.fst).getD (Text.dropLast rest))
  let path := if isQuoted argument then Text.inner argument else argument
  if path == "" then "/" else path

def qualified (path : String) : Option String → String
  | none => path
  | some router =>
    let router := Text.trimBy (· == '/') (Text.trimBy (· == '"') router)
    let parts := Text.fields '/' path
    parts.head?.getD "" ++ "/" ++ router ++ "/" ++ "/".intercalate (parts.drop 1)

end CodeAtlas.ServedPath

/-! ## Decorated definitions -/
namespace CodeAtlas.Decorator

def marks : List String :=
  [".get", ".post", ".put", ".patch", ".delete", ".options", ".head", ".trace", ".websocket", ".route"]

/-- Is this the text of the decorator of an entry point? -/
def isMarked (text : String) : Bool :=
  marks.any (Text.contains · text) && !Text.contains ".patch." text

def endpointText (text : String) : String :=
  Text.upper ((Text.fields '.' (Text.before '(' text)).getLast?.getD "") ++ " " ++
    ServedPath.ofDecorator text

def methods (text : String) : Except Failure (List String) := do
  let some (_, rest) := Text.cut? "methods=" text | throw (.outOfRange "list")
  let inside := Text.trim (Text.before ')' ((Text.cut? "methods=" rest).map Prod.fst |>.getD rest))
  let listed := Text.trimBy (· == ']') (Text.trimBy (· == '[') inside)
  return (Text.fields ',' listed).map fun m => Text.remove "\"" (Text.remove "'" (Text.trim m))

/-- The entry points that a decorator makes. -/
def endpoints (text : String) : Except Failure (List String) := do
  let endpoint := endpointText text
  if Text.contains ".route" text then
    if Text.contains "methods" text then
      return (← methods text).map fun m => Text.swap "ROUTE" (Text.upper m) endpoint
    else return [Text.swap "ROUTE" "GET" endpoint]
  else return [endpoint]

def namedArguments (decorator : Node) : List Node :=
  (((decorator.children.filter (·.kind == "call")).flatMap Node.children).filter
    (·.kind == "argument_list")).flatMap fun a => a.children.filter (·.kind == "keyword_argument")

def responseType? (src : String) (argument : Node) : Except Failure (Option String) := do
  let name ← (← argument.child 0).text src
  if name == "response_model" then
    let value ← (← argument.child 2).text src
    return some value
  else return none

def noteResponse (id : String) (project : ProjectKey) (response : String) : Run Unit := do
  match ← GraphService.node? (.str id) project with
  | none => throw (.unfit "'NoneType' object does not support item assignment")
  | some n => GraphService.upsert (.str id) project (Table.set n.properties "response" (.str response))

def noteResponses (src id : String) (project : ProjectKey) (decorator : Node) : Run Unit :=
  (namedArguments decorator).forM fun a => do
    match ← responseType? src a with
    | some response => noteResponse id project response
    | none => return ()

def functionId (src directory file : String) (definition : Node) : Except Failure String := do
  let outline ← Outline.read src definition
  match outline.name with
  | some name => return identifier directory file name
  | none => throw (.unfit "can only concatenate str (not \"NoneType\") to str")

/-- The entry points that a decorator of a definition makes by its text, with the identifier of the
function. -/
def ofText (src directory file : String) (project : ProjectKey) (definition decorator : Node)
    (text : String) : Run (List (String × String)) := do
  if isMarked text then
    let id ← functionId src directory file definition
    let paths ← endpoints text
    noteResponses src id project decorator
    return paths.map fun p => (p, id)
  else return []

def ofDecorator (src directory file : String) (project : ProjectKey) (definition decorator : Node) :
    Run (List (String × String)) :=
  ofText src directory file project definition decorator (decorator.cutOut src)

def ofDefinition (src directory file : String) (project : ProjectKey) (n : Node) :
    Run (List (String × String)) :=
  if n.kind == "decorated_definition" then
    Run.gather (ofDecorator src directory file project n) (n.children.filter (·.kind == "decorator"))
  else return []

/-- The entry points in a tree, at any depth: path and identifier. -/
def inTree (src directory file : String) (project : ProjectKey) (root : Node) :
    Run (List (String × String)) :=
  Run.gather (ofDefinition src directory file project) root.preorder

end CodeAtlas.Decorator
