import CodeAtlas.Syntax.Definition
import CodeAtlas.Syntax.Mount

/-!
# What a file defines

A survey walks over the top level of a file's tree and notes, in order, its imports, the names bound
to calls, its functions, its classes with their methods, and the routers it mounts. Reading can fail
part way (a span that cuts a character, a statement without the parts it needs); the findings up to
there stand.

* `Survey.ofTree`: the findings of a file and how the reading ended.
-/
namespace CodeAtlas

/-- A function found in a file: its name, its node and what it says about itself. -/
structure FunctionFound where
  name : String
  node : Node
  signature : Signature

structure ClassFound where
  name : String
  node : Node
  firstRow : Nat
  lastRow : Nat

/-- Something that a file says about itself. -/
inductive Finding where
  | imported (entry : Import)
  | bound (name : String) (callee : Option String)
  | function (f : FunctionFound)
  | class (c : ClassFound)
  | mounted (m : Mount)

/-- The findings of a file in order, and the failure that ended the reading if there was one. -/
structure Survey where
  findings : List Finding
  ended : Option Failure

namespace Survey

def empty : Survey := ⟨[], none⟩

def failed (e : Failure) : Survey := ⟨[], some e⟩

/-- One survey after the other; the second one counts only if the first one did not fail. -/
def followedBy (a b : Survey) : Survey :=
  match a.ended with
  | some e => ⟨a.findings, some e⟩
  | none => ⟨a.findings ++ b.findings, b.ended⟩

def ofReading (r : Except Failure (List Finding)) : Survey :=
  match r with
  | .ok fs => ⟨fs, none⟩
  | .error e => failed e

def sequence : List Survey → Survey
  | [] => empty
  | s :: ss => s.followedBy (sequence ss)

def isFunction (n : Node) : Bool := n.kind == "function_definition" || n.kind == "decorated_definition"

/-- The function that a definition defines, unless it has no name. -/
def functionOf (src : String) (owner : Option String) (n : Node) :
    Except Failure (List Finding) := do
  let signature ← Signature.read src owner n
  match signature.name with
  | some name => return if name == "" then [] else [.function ⟨name, n, signature⟩]
  | none => return []

/-- The name bound by an assignment of a call, and what the call calls. -/
def bindingOf (src : String) (n : Node) : Except Failure (List Finding) := do
  let target ← n.child 0
  let name ← target.text src
  let value ← n.lastChild
  if value.kind == "call" then
    let callee ← Callee.ofCall src none value
    return [.bound name callee]
  else return []

def ofExpression (src : String) (n : Node) : Except Failure (List Finding) := do
  if n.kind == "call" then
    let mounts ← Mount.ofCall src false n.children
    return mounts.map .mounted
  else if n.kind == "assignment" then bindingOf src n
  else return []

def methodsOf (src : String) (owner : String) (n : Node) : Survey :=
  let members := (n.children.filter fun c => c.kind == "block").flatMap Node.children
  sequence ((members.filter isFunction).map fun m => ofReading (functionOf src (some owner) m))

def ofClass (src : String) (n : Node) : Survey :=
  match n.child 1 with
  | .error e => failed e
  | .ok c =>
    match c.text src with
    | .error e => failed e
    | .ok name =>
      followedBy ⟨[.class ⟨name, n, n.firstRow src, n.lastRow src⟩], none⟩ (methodsOf src name n)

def ofTopLevel (src : String) (n : Node) : Survey :=
  if n.kind == "import_from_statement" || n.kind == "import_statement" then
    ofReading ((Import.ofStatement src n).map fun entries => entries.map .imported)
  else if n.kind == "expression_statement" then
    sequence (n.children.map fun c => ofReading (ofExpression src c))
  else if n.kind == "class_definition" then ofClass src n
  else if isFunction n then ofReading (functionOf src none n)
  else empty

/-- What a file defines. -/
def ofTree (src : String) (root : Node) : Survey := sequence (root.children.map (ofTopLevel src))

def imports (s : Survey) : List Import :=
  s.findings.filterMap fun | .imported e => some e | _ => none

def bindings (s : Survey) : Table String (Option String) :=
  Table.ofPairs (s.findings.filterMap fun | .bound name callee => some (name, callee) | _ => none)

def functions (s : Survey) : List FunctionFound :=
  s.findings.filterMap fun | .function f => some f | _ => none

def classes (s : Survey) : List ClassFound :=
  s.findings.filterMap fun | .class c => some c | _ => none

def mounts (s : Survey) : List Mount :=
  s.findings.filterMap fun | .mounted m => some m | _ => none

end Survey
end CodeAtlas
