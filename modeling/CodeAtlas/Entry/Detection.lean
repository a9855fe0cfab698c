import CodeAtlas.Analysis.Calls
import CodeAtlas.Entry.UrlPattern

/-!
# Detecting and keeping entry points

All entry points of a project are detected, first those listed as URL patterns, then those marked by
decorators. A new one is kept with the path that its router gives it; one that is known stays as it
is. The dependencies of the router are connected with the last entry point.
-/
namespace CodeAtlas.Entry

/-- What the detection works on. -/
structure Survey where
  directory : String
  routers : RouterTable
  index : FileIndex

def decoratedIn (directory : String) (project : ProjectKey) (file : String) :
    Run (List (String × String)) := do
  let src ← (← get).files.readText file
  let root ← Run.treeOf src
  Decorator.inTree src directory file project root

/-- All entry points of a project: path and identifier. -/
def detect (s : Survey) (project : ProjectKey) : Run (List (String × String)) := do
  let listed ← UrlPattern.below ⟨s.directory, s.index⟩ s.directory project
  let decorated ← Run.gather (decoratedIn s.directory project)
    ((← get).files.sources s.directory)
  return listed ++ decorated

/-- What the router of an entry point's file lends to it. -/
def routerOf (routers : RouterTable) (id : String) : RouterInfo :=
  (Table.get? routers (Text.before ':' id)).getD ⟨none, []⟩

/-- Keeps an entry point unless one with its identifier is known. -/
def keep (routers : RouterTable) (project : ProjectKey) (found : String × String) (s : Store) :
    Except Failure Store := do
  match s.endpoint? (some found.2) (← project.cell) with
  | some _ => return s
  | none =>
    let path := ServedPath.qualified found.1 (routerOf routers found.2).path
    let (_, s) ← s.createEndpoint
      (.obj [("path", .str path), ("identifier", .str found.2), ("project_id", project.given)])
    return s

/-- Keeps entry points, each in a statement of its own. -/
def keepAll (routers : RouterTable) (project : ProjectKey) (found : List (String × String)) : Run Unit :=
  found.forM fun f => Run.alter (keep routers project f)

def connectDependencies (routers : RouterTable) (project : ProjectKey) (found : List (String × String)) :
    Run Unit := do
  match found.getLast? with
  | none => throw (.unassigned "depends")
  | some (_, id) =>
    (routerOf routers id).depends.forM fun d =>
      GraphService.connect (.str id) (.str d) project GraphService.callProperties

def analyse (s : Survey) (project : ProjectKey) (user : Json) : Run Unit := do
  let found ← detect s project
  keepAll s.routers project found
  connectDependencies s.routers project found
  Run.note (.queued "knowledgegraph.task.infer_flows"
    [("project_id", project.given), ("directory", .str s.directory), ("user_id", user)])

end CodeAtlas.Entry
