import CodeAtlas.Graph.Query
import CodeAtlas.Json.Access
import CodeAtlas.World

/-!
# The graph service

Operations on the code graph as runs. Each opens a session, sends a query and then reads or changes
the graph. At any request the service may be down when the session is opened, or fail on the query;
deleting says so in its own words, and adding a base class or asking for base classes passes over a
failed query.
-/
namespace CodeAtlas.GraphService

def openSession : Run Unit := do
  match (← get).troubles with
  | some .down :: troubles =>
    modify fun w => { w with troubles }
    throw .graphDown
  | _ => return ()

def failureOf : GraphTrouble → Failure
  | .down => .graphDown
  | .rejected => .graphRejected
  | .constraint => .graphConstraint
  | .other => .invalid "graph failure"

/-- The service answers a query, or fails if there is trouble. -/
def respond : Run Unit := do
  match (← get).troubles with
  | [] => return ()
  | trouble :: troubles =>
    modify fun w => { w with troubles }
    if let some t := trouble then throw (failureOf t)

def send (q : GraphQuery) : Run Unit := do
  if (← get).tracing then Run.note (.queried q.text q.parameters)
  respond

/-- Can values tell nodes of a project apart? -/
def checkKeys (project : ProjectKey) (ids : List Json) : Except Failure Unit := do
  project.given.checkKey
  ids.forM Json.checkKey

def sendAbout (q : GraphQuery) (project : ProjectKey) (ids : List Json) : Run Unit := do
  send q
  checkKeys project ids

/-- Lists and objects are kept as texts. -/
def serialised : Json → Json
  | .arr items => .str ((Json.arr items).render .spaced)
  | .obj members => .str ((Json.obj members).render .spaced)
  | v => v

/-! ## Writing -/

/-- Creates a node if it is missing and sets properties on it, in an open session. -/
def upsertIn (id : Json) (project : ProjectKey) (ps : List (String × Json)) : Run Unit := do
  let ps := ps.map fun (k, v) => (k, serialised v)
  send (.upsert id project ps)
  Run.note (.nodeSet id project ps)
  checkKeys project [id]
  modify fun w => { w with graph := w.graph.upsert project id ps }

/-- Creates a node if it is missing and sets properties on it, the project among them. -/
def upsert (id : Json) (project : ProjectKey) (ps : List (String × Json)) : Run Unit := do
  openSession
  upsertIn id project (Table.set ps "project_id" project.given)

def connectIn (source target : Json) (project : ProjectKey) (properties : Json) : Run Unit := do
  send (.connect source target project properties)
  Run.note (.called source target project properties)
  checkKeys project [source, target]
  if (← get).graph.hasNodes project source target then
    let ps ← properties.asMembers
    modify fun w => { w with graph := w.graph.connect project source target ps }

def connect (source target : Json) (project : ProjectKey) (properties : Json) : Run Unit := do
  openSession
  connectIn source target project properties

def callProperties : Json := .obj [("action", .str "calls")]

/-- Connects two nodes by an edge of another kind, in an open session. The query names a parameter
that is not sent, so it is always rejected. -/
def joinIn (first second kind : Json) : Run Unit := do
  send (.edge first second kind)
  throw .graphRejected

/-- Connects two nodes by an edge of another kind. -/
def join (first second kind : Json) : Run Unit := do
  openSession
  joinIn first second kind

/-- Connects a class with a base; a failed query is passed over. -/
def extend (base derived : Json) (project : ProjectKey) : Run Unit := do
  openSession
  let work : Run Unit := do
    send (.extend base derived project)
    Run.note (.extended derived base project)
    checkKeys project [base, derived]
    modify fun w => { w with graph := w.graph.extend project derived base }
  let _ ← Run.outcome work

def deleteProject (project : ProjectKey) : Run Unit := do
  openSession
  match ← Run.outcome (send (.deleteProject project)) with
  | .error e =>
    throw (.halted ("Failed to delete nodes with project_id " ++ project.given.display ++ ": " ++
      e.message))
  | .ok _ =>
    Run.note (.nodesDeleted project)
    modify fun w => { w with graph := w.graph.deleteProject project }

/-- One of several changes that are made together. -/
inductive Step where
  | upsert (id : Json) (project : ProjectKey) (properties : Json)
  | connect (source target : Json) (project : ProjectKey)
  | join (first second kind : Json)

def Step.run : Step → Run Unit
  | .upsert id project properties => do upsertIn id project (← properties.asMembers)
  | .connect source target project => connectIn source target project (.obj [])
  | .join first second kind => joinIn first second kind

/-- Makes several changes in one session and commits them, or rolls back at the first failure. -/
def together (steps : List Step) : Run Unit := do
  openSession
  match ← Run.outcome (steps.forM Step.run) with
  | .ok _ => Run.note .committed
  | .error e =>
    Run.note .rolledBack
    throw e

/-! ## Reading -/

/-- Asks about nodes of a project. -/
def ask {α : Type} (q : GraphQuery) (project : ProjectKey) (ids : List Json) (answer : Graph → α) :
    Run α := do
  openSession
  sendAbout q project ids
  return answer (← get).graph

def node? (id : Json) (project : ProjectKey) : Run (Option GraphNode) :=
  ask (.node id project) project [id] (·.node? project id)

def file? (id : Json) (project : ProjectKey) : Run (Option Json) :=
  ask (.file id project) project [id] fun g =>
    (g.node? project id).bind fun n => Table.get? n.properties "file"

def callees (id : Json) (project : ProjectKey) : Run (List GraphNode) := do
  openSession
  send (.callees id project)
  return (← get).graph.callees project id

def withCallers (id : Json) (project : ProjectKey) : Run (List GraphNode) :=
  ask (.callers id project) project [id] (·.withCallers project id)

/-- Without a direction the query is wrong, which shows where there is a node. -/
def trailsBy (q : GraphQuery) (id : Json) (project : ProjectKey) :
    Option Direction → Run (List GraphNode)
  | some d => ask q project [id] (·.withTrailEnds d project id)
  | none => do
    if ← ask q project [id] (·.hasNode project id) then throw .graphSyntax
    return []

def trails (d : Option Direction) (bodies : Bool) (id : Json) (project : ProjectKey) :
    Run (List GraphNode) :=
  trailsBy (.trailsInside d bodies id project) id project d

def trailsDirect (d : Option Direction) (bodies : Bool) (id : Json) (project : ProjectKey) :
    Run (List GraphNode) :=
  trailsBy (.trails d bodies id project) id project d

def trailsTo (bodies : Bool) (id : Json) (project : ProjectKey) : Run (List GraphNode) :=
  trailsBy (.trailsTo bodies id project) id project (some .inward)

/-! ## Base classes -/

/-- A class in the answer to a question about base classes. -/
structure BaseClass where
  file : Json
  name : Json
  start : Json
  stop : Json
  id : Json
  project : Json
  rootClass : Json

def property (r : LineageRow) (key : String) : Except Failure Json :=
  match Table.get? r.properties key with
  | some v => .ok v
  | none => .error (.missingKey (.str key))

def baseClass (r : LineageRow) : Except Failure BaseClass := do
  return { file := ← property r "file", name := ← property r "class_name"
           start := ← property r "start", stop := ← property r "end", id := ← property r "id"
           project := ← property r "project_id", rootClass := r.rootClass }

def baseClasses (q : GraphQuery) (pick : List LineageRow → Except Failure (List LineageRow)) :
    Run (List BaseClass) := do
  openSession
  match ← Run.outcome (send q) with
  | .error _ => return []
  | .ok _ => return ((pick (← get).lineage).bind fun rs => rs.mapM baseClass).toOption.getD []

def lineage (className : Json) (project : ProjectKey) : Run (List BaseClass) :=
  baseClasses (.lineage className project) .ok

/-- Rows without those whose node came before. -/
def firstOfEach (seen : List Json) : List LineageRow → Except Failure (List LineageRow)
  | [] => .ok []
  | r :: rs => do
    r.number.checkKey
    if seen.any r.number.same then firstOfEach seen rs
    else return r :: (← firstOfEach (r.number :: seen) rs)

def lineages (classNames : Json) (project : ProjectKey) : Run (List BaseClass) :=
  baseClasses (.lineages classNames project) (firstOfEach [])

end CodeAtlas.GraphService
