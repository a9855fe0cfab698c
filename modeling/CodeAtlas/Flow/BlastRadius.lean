import CodeAtlas.Flow.Basic

/-!
# Blast radius

The entry points that a change can reach. Of the changed functions and their direct callers those
count that nothing calls and that are kept as entry points. They are shown by file.
-/
namespace CodeAtlas

/-- An entry point as it is shown: its path and its identifier. -/
structure ShownEndpoint where
  path : Option String
  identifier : String
  deriving DecidableEq, Repr

abbrev EndpointsByFile := Table String (List ShownEndpoint)

namespace EndpointsByFile

def add (t : EndpointsByFile) (file : String) (e : ShownEndpoint) : EndpointsByFile :=
  Table.set t file ((Table.get? t file).getD [] ++ [e])

/-- The number of entry points. -/
def count (t : EndpointsByFile) : Nat := t.foldl (fun n f => n + f.2.length) 0

end EndpointsByFile

/-- A list without the members that are related to one that is kept before them. -/
def firsts {α : Type} (r : α → α → Bool) (l : List α) : List α :=
  l.foldl (fun kept a => if kept.any (r a) then kept else kept ++ [a]) []

namespace BlastRadius

/-- The changed functions and their direct callers, each once. -/
def reached (ids : List Json) (project : ProjectKey) : Run (List GraphNode) := do
  let found ← Run.gather (fun id => GraphService.withCallers id project) ids
  return firsts GraphNode.alike found

/-- Is a function known, and called by nothing? -/
def isTop (project : ProjectKey) (id : Json) : Run Bool := do
  return (← GraphService.withCallers id project).length == 1

/-- The changed functions and their direct callers that nothing calls. -/
def tops (ids : List Json) (project : ProjectKey) : Run (List Json) := do
  (← reached ids project).filterMapM fun n => do
    let id ← n.shownId
    return if ← isTop project id then some id else none

/-- The path of a function that is kept as an entry point. -/
def shown? (project : ProjectKey) (id : Json) : Run (Option (Json × Option String)) := do
  let name ← Column.text id
  let project ← project.cell
  return (← Run.look fun s => s.endpoint? name project).map fun e => (id, e.path)

/-- Adds an entry point to its file: the part of the identifier before its only colon. -/
def group (t : EndpointsByFile) (e : Json × Option String) : Except Failure EndpointsByFile :=
  match e.1 with
  | .str id =>
    match Text.fields ':' id with
    | [file, _] => .ok (t.add file ⟨e.2, id⟩)
    | [_] => .error (.invalid "not enough values to unpack (expected 2, got 1)")
    | _ => .error (.invalid "too many values to unpack (expected 2)")
  | v => .error (.noMember v.kindName "split")

def groupAll (es : List (Json × Option String)) : Except Failure EndpointsByFile := es.foldlM group []

/-- The entry points that a change of some functions can reach. -/
def endpoints (ids : List Json) (project : ProjectKey) : Run EndpointsByFile := do
  let found := firsts Json.same (← tops ids project)
  groupAll (← found.filterMapM fun id => shown? project id)

end BlastRadius

namespace Endpoint

def byFile (s : Store) (project : Cell) : EndpointsByFile :=
  (s.endpointsOf project).foldl
    (fun t e => t.add (Text.before ':' e.identifier) ⟨e.path, e.identifier⟩) []

end Endpoint
end CodeAtlas
