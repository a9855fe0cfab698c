import CodeAtlas.Json.Basic
import CodeAtlas.Store.Cell

/-!
# The code graph

Nodes and edges with their operations, and the trails along its calls.
-/
namespace CodeAtlas

/-!
## The code graph

Functions and classes are nodes, told apart by what their project and identifier mean: equal numbers
are one identifier, however they are written. What was given first is what is shown. A `calls` edge leads from a
function to one it calls, an `extends` edge from a class to its base. An edge leads from one node to
another; that both are of one project is not part of an edge, but follows from how edges are made. There
is at most one edge of each sort from a node to another, and it goes with either of its nodes.

A node carries properties in the order in which they were set; setting a property to null removes it.
An edge keeps null as a value of a property.
-/

/-- What a project is known by. A project has a number. A caller may name it in other ways that mean the
same, so a key keeps the value as it was given: the graph compares keys by what they mean, the store as
its column of numbers does, and messages show the value as it is. -/
structure ProjectKey where
  given : Json
  deriving DecidableEq

namespace ProjectKey

def number (n : Int) : ProjectKey := ⟨.int n⟩

def same (a b : ProjectKey) : Bool := a.given.same b.given

def cell (p : ProjectKey) : Except Failure Cell := do return (← Cell.ofJson p.given).asNumber

@[simp] theorem same_self (a : ProjectKey) : a.same a = true := by simp [same]

theorem same_comm (a b : ProjectKey) : a.same b = b.same a := Json.same_comm _ _

theorem same_trans {a b c : ProjectKey} (h : a.same b = true) (k : b.same c = true) :
    a.same c = true := Json.same_trans h k

end ProjectKey

abbrev Properties := Table String Json

def Properties.assign (t : Properties) (key : String) (v : Json) : Properties :=
  if v = .null then Table.erase t key else Table.set t key v

def Properties.assignAll (t : Properties) (ps : List (String × Json)) : Properties :=
  ps.foldl (fun t (k, v) => assign t k v) t

/-- A function or a class of a project. -/
structure GraphNode where
  project : ProjectKey
  id : Json
  properties : Properties

def GraphNode.is (n : GraphNode) (project : ProjectKey) (id : Json) : Bool :=
  n.project.same project && n.id.same id

def GraphNode.alike (n m : GraphNode) : Bool :=
  (Json.obj n.properties).same (.obj m.properties)

/-- An end of an edge: the node with a project and an identifier. -/
structure NodeRef where
  project : ProjectKey
  id : Json

namespace NodeRef

def is (r : NodeRef) (project : ProjectKey) (id : Json) : Bool :=
  r.project.same project && r.id.same id

def same (r s : NodeRef) : Bool := r.is s.project s.id

end NodeRef

structure CallEdge where
  source : NodeRef
  target : NodeRef
  properties : Properties

def CallEdge.is (e : CallEdge) (project : ProjectKey) (source target : Json) : Bool :=
  e.source.is project source && e.target.is project target

/-- A class and one of its bases. -/
structure ExtendsEdge where
  derived : NodeRef
  base : NodeRef

def ExtendsEdge.is (e : ExtendsEdge) (project : ProjectKey) (derived base : Json) : Bool :=
  e.derived.is project derived && e.base.is project base

/-- The code graph: nodes and edges in the order of their creation. -/
structure Graph where
  nodes : List GraphNode
  calls : List CallEdge
  extensions : List ExtendsEdge

namespace Graph

def empty : Graph := ⟨[], [], []⟩

def node? (g : Graph) (project : ProjectKey) (id : Json) : Option GraphNode :=
  g.nodes.find? fun n => n.is project id

/-- The node at an end of an edge. -/
def nodeAt? (g : Graph) (r : NodeRef) : Option GraphNode := g.node? r.project r.id

def hasNode (g : Graph) (project : ProjectKey) (id : Json) : Bool := (g.node? project id).isSome

def freshNode (project : ProjectKey) (id : Json) : GraphNode :=
  ⟨project, id, [("id", id), ("project_id", project.given)]⟩

/-- Creates a node if it is missing, then sets properties on it. -/
def upsert (g : Graph) (project : ProjectKey) (id : Json) (ps : List (String × Json)) : Graph :=
  if g.hasNode project id then
    { g with nodes := g.nodes.map fun n =>
        if n.is project id then
          { n with properties := Properties.assignAll n.properties ps }
        else n }
  else
    let n := freshNode project id
    { g with nodes := g.nodes ++ [{ n with properties := Properties.assignAll n.properties ps }] }

def hasNodes (g : Graph) (project : ProjectKey) (first second : Json) : Bool :=
  g.hasNode project first && g.hasNode project second

def connect (g : Graph) (project : ProjectKey) (source target : Json)
    (ps : List (String × Json)) : Graph :=
  if g.hasNodes project source target then
    if g.calls.any fun e => e.is project source target then
      { g with calls := g.calls.map fun e =>
          if e.is project source target then
            { e with properties := Table.setAll e.properties ps }
          else e }
    else
      { g with calls := g.calls ++ [⟨⟨project, source⟩, ⟨project, target⟩, Table.ofPairs ps⟩] }
  else g

def extend (g : Graph) (project : ProjectKey) (derived base : Json) : Graph :=
  if g.hasNodes project derived base &&
      !(g.extensions.any fun e => e.is project derived base) then
    { g with extensions := g.extensions ++ [⟨⟨project, derived⟩, ⟨project, base⟩⟩] }
  else g

/-- Deletes the nodes of a project, and with a node every edge from it or to it. -/
def deleteProject (g : Graph) (project : ProjectKey) : Graph :=
  let left (r : NodeRef) : Bool := !r.project.same project
  { nodes := g.nodes.filter fun n => !n.project.same project
    calls := g.calls.filter fun e => left e.source && left e.target
    extensions := g.extensions.filter fun e => left e.derived && left e.base }

/-- What a node calls, in whatever project that is. -/
def callees (g : Graph) (project : ProjectKey) (id : Json) : List GraphNode :=
  g.calls.filterMap fun e => if e.source.is project id then g.nodeAt? e.target else none

/-- What calls a node, in its project. -/
def callers (g : Graph) (project : ProjectKey) (id : Json) : List GraphNode :=
  g.calls.filterMap fun e =>
    if e.target.is project id && e.source.project.same project then g.nodeAt? e.source else none

/-- A node and what calls it. -/
def withCallers (g : Graph) (p : ProjectKey) (id : Json) : List GraphNode :=
  match g.node? p id with
  | none => []
  | some n => n :: g.callers p n.id

end Graph

/-!
## Trails

A trail follows call edges and uses none of them twice. `Graph.trailEnds` lists the ends of all trails
of at least one edge that start at a node and end in its project, depth first, the edges tried in the
order of their creation. A node that several trails reach is listed once for each of them.
-/

/-- Which way call edges are followed. -/
inductive Direction where
  | outward
  | inward
  | either
  deriving DecidableEq, Repr

namespace Direction

def follow : Direction → CallEdge → NodeRef → Option NodeRef
  | outward, e, x => if e.source.same x then some e.target else none
  | inward, e, x => if e.target.same x then some e.source else none
  | either, e, x =>
    if e.source.same x then some e.target else if e.target.same x then some e.source else none

end Direction

def picks {α : Type} : List α → List (α × List α)
  | [] => []
  | a :: as => (a, as) :: (picks as).map fun (b, bs) => (b, a :: bs)

namespace Graph

def trailsOver (d : Direction) : Nat → List CallEdge → NodeRef → List NodeRef
  | 0, _, _ => []
  | fuel + 1, edges, x =>
    (picks edges).flatMap fun (e, rest) =>
      match d.follow e x with
      | some y => y :: trailsOver d fuel rest y
      | none => []

def trailEnds (g : Graph) (d : Direction) (project : ProjectKey) (id : Json) : List GraphNode :=
  (trailsOver d g.calls.length g.calls ⟨project, id⟩).filterMap fun r =>
    if r.project.same project then g.nodeAt? r else none

/-- A node and the ends of its trails, nothing if it has none. -/
def withTrailEnds (g : Graph) (d : Direction) (p : ProjectKey) (id : Json) : List GraphNode :=
  match g.node? p id with
  | none => []
  | some n =>
    match g.trailEnds d p n.id with
    | [] => []
    | ends => n :: ends

end Graph

end CodeAtlas
