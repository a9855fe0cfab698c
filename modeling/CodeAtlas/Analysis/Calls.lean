import CodeAtlas.Graph.Service
import CodeAtlas.Index

/-!
# What a file adds to the graph

Its definitions become nodes and its calls become edges. The routers that it mounts are noted for the
detection of entry points.
-/
namespace CodeAtlas

/-!
## Recording what a file defines

The functions and classes that a survey finds become nodes of the graph, in the order of the findings.
When the survey ended early, what it found up to there is recorded before the failure is passed on.
-/

namespace Analysis

def parameterJson (p : Parameter) : Json :=
  .obj [("identifier", Json.ofOption p.name), ("type", Json.ofOption p.type)]

def functionProperties (path : String) (s : Signature) : List (String × Json) :=
  [("type", .str "function"), ("file", .str path),
   ("parameters", .arr (s.parameters.map parameterJson)), ("start", .int s.firstRow),
   ("end", .int s.lastRow), ("response", .str s.response)]

def classProperties (path : String) (c : ClassFound) : List (String × Json) :=
  [("type", .str "class"), ("file", .str path), ("start", .int c.firstRow),
   ("class_name", .str c.name), ("end", .int c.lastRow)]

/-- Sets a node, and leaves it alone if it would break a constraint. -/
def setNode (id : String) (project : ProjectKey) (ps : List (String × Json)) : Run Unit := do
  match ← Run.outcome (GraphService.upsert (.str id) project ps) with
  | .ok _ => return ()
  | .error .graphConstraint => return ()
  | .error e => throw e

def recordFinding (directory path : String) (project : ProjectKey) : Finding → Run Unit
  | .function f => setNode (identifier directory path f.name) project (functionProperties path f.signature)
  | .class c => setNode (identifier directory path c.name) project (classProperties path c)
  | _ => return ()

def recordSurvey (directory path : String) (project : ProjectKey) (s : Survey) : Run Unit := do
  s.findings.forM (recordFinding directory path project)
  match s.ended with
  | some e => throw e
  | none => return ()

end Analysis

/-!
## Calls

Each function is searched for calls and for the dependencies of its default parameters, at any depth.
A name that is defined in the same file means that definition; any other is resolved through the
imports. Only what is defined in the project is connected.
-/

namespace Calls

def namesAt (src : String) (owner : Option String) (n : Node) : Except Failure (List String) := do
  if n.kind == "default_parameter" then return Injection.names (← n.text src)
  else if n.kind == "call" then
    match ← Callee.ofCall src owner n with
    | some name => return if name == "" then [] else [name]
    | none => return []
  else return []

structure Scope where
  directory : String
  file : String
  index : FileIndex
  /-- The identifiers of all functions of the project. -/
  defined : List String

/-- The identifier that a name means: of a function of the same file, or of what it leads to. -/
def meant? (t : FileTree) (s : Scope) (name : String) : Except Failure (Option String) := do
  let own := identifier s.directory s.file name
  if s.defined.contains own then return some own
  else
    let found ← Resolve.functionTarget t s.index s.directory s.file name
    return (found.name.filter (· != "")).map (identifier s.directory found.file)

/-- The function of the project that a name means. -/
def target? (t : FileTree) (s : Scope) (name : String) : Except Failure (Option String) := do
  return (← meant? t s name).filter s.defined.contains

def connect (s : Scope) (project : ProjectKey) (caller name : String) : Run Unit := do
  match ← target? (← get).files s name with
  | some id => GraphService.connect (.str caller) (.str id) project GraphService.callProperties
  | none => return ()

/-- The class that a function belongs to, by the first part of a dotted name. The name is what stands
between the first colon of the identifier and the next. -/
def ownerOf (id : String) : Except Failure (Option String) :=
  match Text.fields ':' id with
  | _ :: name :: _ =>
    match Text.fields '.' name with
    | owner :: _ :: _ => .ok (some owner)
    | _ => .ok none
  | _ => .error (.outOfRange "list")

def connectFunction (src : String) (s : Scope) (project : ProjectKey) (id : String) (n : Node) :
    Run Unit := do
  let owner ← ownerOf id
  n.preorder.forM fun part => do
    let names ← namesAt src owner part
    names.forM (connect s project id)

def connectFile (src : String) (s : Scope) (project : ProjectKey) (functions : Table String Node) :
    Run Unit :=
  functions.forM fun (id, n) => connectFunction src s project id n

end Calls

/-!
## Routers

A mounted router lends its path and its dependencies to the entry points of the file it is defined in.
-/

/-- What a router lends to the entry points of its file. -/
structure RouterInfo where
  path : Option String
  depends : List String
  deriving DecidableEq, Repr

/-- What routers lend, by the path of their file inside the project. -/
abbrev RouterTable := Table String RouterInfo

namespace Routers

/-- The identifiers of dependencies, without those that cannot be resolved. -/
def dependencies (t : FileTree) (s : Calls.Scope) : List String → Except Failure (List String)
  | [] => .ok []
  | name :: names => do
    match ← Calls.meant? t s name with
    | some id => return id :: (← dependencies t s names)
    | none => dependencies t s names

def mount (t : FileTree) (s : Calls.Scope) (table : RouterTable) (m : Mount) :
    Except Failure RouterTable := do
  let router ← Resolve.functionTarget t s.index s.directory s.file m.router
  let depends ← dependencies t s m.depends
  return Table.set table (Text.remove s.directory router.file) ⟨m.path, depends⟩

def mountAll (t : FileTree) (s : Calls.Scope) (mounts : List Mount) (table : RouterTable) :
    Except Failure RouterTable :=
  mounts.foldlM (mount t s) table

end Routers

end CodeAtlas
