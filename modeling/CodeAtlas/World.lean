import CodeAtlas.Decimal.Quantity
import CodeAtlas.Effect
import CodeAtlas.FileTree
import CodeAtlas.Repository
import CodeAtlas.Store.Basic
import CodeAtlas.Syntax.Node

/-!
# The world and runs in it

`World` is all that operations read and change: settings, files, the code graph, the store, the
hosting service, clones and the services that answer. A `Run` is an operation on the world that may
end early; what it did up to there stands.
-/
namespace CodeAtlas

/-- Why the graph service does not answer a request. -/
inductive GraphTrouble where
  /-- No session can be opened. -/
  | down
  | rejected
  | constraint
  | other
  deriving DecidableEq, Repr

/-- A row of the answer to a question about base classes. -/
structure LineageRow where
  /-- The number of the node inside the graph service. -/
  number : Json
  properties : List (String × Json)
  rootClass : Json

/-- How many tests a user generated, and how long ago. -/
structure UsageRecord where
  user : Json
  tests : Json
  daysAgo : Quantity

/-- All that operations read and change. -/
structure World where
  settings : Table String String
  files : FileTree
  /-- Files that cannot be opened for writing. -/
  unwritable : List String
  /-- Files that cannot be removed. -/
  unremovable : List String
  trees : Table String Node
  graph : Graph
  /-- What the next requests to the graph service will meet, one after the other. Beyond that all of them
  are answered. -/
  troubles : List (Option GraphTrouble)
  lineage : List LineageRow
  /-- Are queries to the graph noted? -/
  tracing : Bool
  store : Store
  /-- Does the store delete rows by a condition on another table? -/
  deletesJoined : Bool
  hosted : Table String HostedRepository
  /-- The names of the hosting service's accounts, by their numbers. -/
  accounts : Table String String
  clones : Table String Clone
  /-- What the language model will answer. -/
  replies : List String
  crewReply : String
  documents : Table String Json
  secrets : Table String String
  tokens : Table String Json
  passwords : Table String Json
  knowledge : Json
  usage : List UsageRecord
  subscriptions : Table String Json
  usageFails : Bool
  requestNotes : Table String Json
  log : List Effect

/-- An operation on the world that may end early. -/
abbrev Run := ExceptT Failure (StateM World)

namespace Run

def note (e : Effect) : Run Unit := modify fun w => { w with log := w.log ++ [e] }

def outcome {α : Type} (r : Run α) : Run (Except Failure α) := do
  try
    let a ← r
    return .ok a
  catch e => return .error e

def setting? (name : String) : Run (Option String) := return Table.get? (← get).settings name

def inDevelopment : Run Bool := return (← setting? "isDevelopmentMode") == some "enabled"

def isDefaultUser (user : Json) : Run Bool :=
  return Json.ofOption (← setting? "defaultUsername") = user

def look {α : Type} (f : Store → α) : Run α := return f (← get).store

def alterWith {α : Type} (f : Store → Except Failure (α × Store)) : Run α := do
  let (a, store) ← f (← get).store
  modify fun w => { w with store }
  return a

def alter (f : Store → Except Failure Store) : Run Unit := do
  let store ← f (← get).store
  modify fun w => { w with store }

/-- Notes something about the request at hand. -/
def annotate (key : String) (v : Json) : Run Unit :=
  modify fun w => { w with requestNotes := Table.set w.requestNotes key v }

/-- What runs for the members of a list find, one after the other. -/
def gather {α β : Type} (f : α → Run (List β)) : List α → Run (List β)
  | [] => return []
  | a :: as => do
    let found ← f a
    return found ++ (← gather f as)

def treeOf (src : String) : Run Node := return (Table.get? (← get).trees src).getD (Node.whole src)

end Run

/-! ## Clones on disk

A clone belongs to the folder it lies in. Checking a branch out is noted before it can fail.
-/

namespace Clone

def inFolder (path : Json) : Run Clone := do
  match ← Json.find? (← get).clones path with
  | some c => return c
  | none => throw (.notRepository path.display)

def folderOf (path : Json) : Run String := do
  let _ ← inFolder path
  path.asPath

def checkoutAt (path : String) (branch : Json) : Run Clone := do
  let c ← inFolder (.str path)
  Run.note (.checkedOut branch)
  let c ← c.checkout branch
  modify fun w => { w with clones := Table.set w.clones path c }
  return c

end Clone
end CodeAtlas
