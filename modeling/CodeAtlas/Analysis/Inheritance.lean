import CodeAtlas.Graph.Service
import CodeAtlas.Syntax.Survey

/-!
# Data models

Which classes are data models, and how they are connected with their bases.
-/
namespace CodeAtlas

/-!
## The search for data models

A class is a data model if one of the names it is derived from is `BaseModel` or a data model found
before. Classes may stand in any order, so the search goes over all of them five times.
-/

structure ClassText where
  file : String
  text : String
  deriving DecidableEq, Repr

abbrev ModelTable := Table String ClassText

namespace ModelSearch

def namesModel (src : String) (known : ModelTable) : List Node → Except Failure Bool
  | [] => .ok false
  | n :: ns => do
    if n.kind == "identifier" then
      let name ← n.text src
      if name == "BaseModel" || Table.has known name then return true
      else namesModel src known ns
    else namesModel src known ns

def examine (src file : String) (c : Node) (known : ModelTable) (part : Node) :
    Except Failure ModelTable := do
  if ← namesModel src known part.children then
    let text ← c.text src
    let name ← (← c.child 1).text src
    return Table.set known name ⟨file, text⟩
  else return known

def visit (src file : String) (known : ModelTable) (n : Node) : Except Failure ModelTable :=
  if n.kind == "class_definition" then n.children.foldlM (examine src file n) known else .ok known

def inTree (src file : String) (known : ModelTable) (root : Node) : Except Failure ModelTable :=
  root.preorder.foldlM (visit src file) known

end ModelSearch

structure ClassSource where
  file : String
  source : String
  node : Node

namespace ModelSearch

def inClass (known : ModelTable) (c : ClassSource) : Except Failure ModelTable := do
  let text ← c.node.text c.source
  if Table.has known text then return known else inTree c.source c.file known c.node

def round (classes : List ClassSource) (known : ModelTable) : Except Failure ModelTable :=
  classes.foldlM inClass known

def rounds (classes : List ClassSource) : Nat → ModelTable → Except Failure ModelTable
  | 0, known => .ok known
  | n + 1, known => do rounds classes n (← round classes known)

def models (classes : List ClassSource) : Except Failure ModelTable := rounds classes 5 []

end ModelSearch

/-!
## Inheritance

The bases of a data model are cut out of its text: what stands between the first opening parenthesis
and the next closing one. Each base that is itself a data model gives an edge of the graph, and is
followed in turn, at most three steps up.
-/

/-!
### Paths inside a project

Projects lie below a folder `projects`, each in a folder of its own. `afterProject?` gives the part of
a path that follows the project's folder.
-/
namespace ProjectPath

def fromHere? (s : List Char) : Option (List Char) :=
  match Chars.after? "/projects/".toList s with
  | none => none
  | some rest =>
    if (rest.takeWhile (· != '/')).isEmpty then none
    else
      match rest.dropWhile (· != '/') with
      | [] => none
      | tail => some (tail.takeWhile (· != '\n'))

/-- The part of a path after the folder of a project, at the leftmost place where there is one. -/
def search? : List Char → Option (List Char)
  | [] => none
  | c :: cs =>
    match fromHere? (c :: cs) with
    | some r => some r
    | none => search? cs

def afterProject? (path : String) : Option String := (search? path.toList).map String.ofList

end ProjectPath

/-! ### Edges between data models -/
namespace Inheritance

/-- The text between the first opening parenthesis and the next parenthesis. -/
def baseList (text : String) : Except Failure String :=
  match Text.cut? "(" text with
  | none => .error (.outOfRange "list")
  | some (_, rest) => .ok (Text.trim (Text.before ')' (Text.before '(' rest)))

def baseNames (bases : String) : List String := (Text.fields ',' bases).map Text.trim

def lookup (models : ModelTable) (name : String) : Except Failure ClassText :=
  match Table.get? models name with
  | some c => .ok c
  | none => .error (.missingKey (.str name))

def classId (c : ClassText) (name : String) : String :=
  (ProjectPath.afterProject? c.file).getD "None" ++ ":" ++ name

def connect (models : ModelTable) (project : ProjectKey) : Nat → String → Run (Option String)
  | 0, name => do return some (← lookup models name).text
  | steps + 1, name => do
    let c ← lookup models name
    if name == "BaseModel" then return some c.text
    let bases ← baseList c.text
    if bases == "BaseModel" then return some c.text
    (baseNames bases).forM fun base => do
      let b ← lookup models base
      GraphService.extend (.str (classId b base)) (.str (classId c name)) project
      let _ ← connect models project steps base
    return none

def connectAll (models : ModelTable) (project : ProjectKey) : Run Unit :=
  (Table.keys models).forM fun name => do let _ ← connect models project 3 name

end Inheritance

end CodeAtlas
