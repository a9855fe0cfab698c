import CodeAtlas.Graph.Service

/-!
# Flows

What happens below an entry point: `Flow.functions` lists the functions that it reaches, and
`Flow.tree` unfolds its calls into a tree of bounded depth.
-/
namespace CodeAtlas

def GraphNode.shownId (n : GraphNode) : Except Failure Json :=
  match Table.get? n.properties "id" with
  | some v => .ok v
  | none => .error (.missingKey (.str "id"))

/-- A function in a tree of calls, with what its node says about parameters and response. -/
inductive CallTree where
  | mk (function : Json) (parameters response : Json) (children : List CallTree)

namespace CallTree

mutual

def toJson : CallTree → Json
  | .mk f p r children =>
    .obj [("function", f), ("params", p), ("response_object", r),
          ("children", .arr (listToJson children))]

def listToJson : List CallTree → List Json
  | [] => []
  | t :: ts => toJson t :: listToJson ts

end

end CallTree

namespace Flow

/-- What the start of a flow is listed as: nothing if it shows no identifier. A node that names a
neighbour instead does so by a text, in which no identifier can be looked up. -/
def start (n : GraphNode) : Except Failure (List Json) :=
  match Table.get? n.properties "id" with
  | some v => .ok [v]
  | none =>
    if (Table.get? n.properties "neighbor").isSome then
      .error (.unfit "string indices must be integers, not 'str'")
    else .ok []

/-- An entry point, then the function at the end of each trail from it; nothing if it is not known or
calls nothing. -/
def functions (id : Json) (project : ProjectKey) : Run (List Json) := do
  match ← GraphService.trails (some .outward) true id project with
  | [] => return []
  | n :: ends => return (← start n) ++ (← ends.mapM fun m => m.shownId)

/-- The code along a flow. The reading of a node expects another form than the graph gives, so it only
ends well for an empty flow. -/
def code (id : Json) (project : ProjectKey) : Run String := do
  match ← GraphService.trails (some .outward) true id project with
  | [] => return ""
  | _ => throw (.missingKey (.int 2))

def shown (n : GraphNode) (key : String) : Json := (Table.get? n.properties key).getD (.arr [])

def known? (id : Json) (project : ProjectKey) : Run (Option GraphNode) := do
  return (← GraphService.node? id project).filter fun n => !n.properties.isEmpty

def unfold (project : ProjectKey) (cut : Bool) : Nat → Json → Run (List CallTree)
  | 0, id => do
    unless cut do throw .tooDeep
    match ← known? id project with
    | some n => return [.mk id (shown n "parameters") (shown n "response") []]
    | none => return []
  | depth + 1, id => do
    match ← known? id project with
    | some n =>
      let callees ← GraphService.callees id project
      let children ← Run.gather (fun c => do unfold project cut depth (← c.shownId)) callees
      return [.mk id (shown n "parameters") (shown n "response") children]
    | none => return []

/-- How many calls deep a depth allows: every level takes one from it until nothing is left. -/
def levels? (depth : Json) : Option Nat :=
  match Quantity.ofJson? depth with
  | some q => some q.ceiling.toNat
  | none => none

def deepest : Nat := 900

def unfoldTo (project : ProjectKey) (depth id : Json) : Run (List CallTree) :=
  match levels? depth with
  | some n => unfold project (n ≤ deepest) (min n deepest) id
  | none => do
    if (← known? id project).isNone then return []
    else throw (.unfit s!"'>' not supported between instances of '{depth.kindName}' and 'int'")

def shownDepth : Nat := 4

def tree (id : Json) (project : ProjectKey) : Run (List CallTree) :=
  unfold project true shownDepth id

end Flow
end CodeAtlas
