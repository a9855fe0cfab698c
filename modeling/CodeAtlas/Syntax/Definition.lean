import CodeAtlas.Syntax.Node

/-!
# Calls and definitions

What a call says about its callee, and what a definition says about its function.
-/
namespace CodeAtlas

/-!
## The name of what is called

A call names its callee by an identifier or by an attribute. Of an attribute the identifiers among
its direct children are joined by points, and a call among them stands for what it calls. Inside a
class, `self.` is read as the name of the class.
-/

namespace Callee

/-- Joins the identifiers and calls among the children of an attribute, after `name`. -/
def joined (src : String) : Option String → List Node → Except Failure (Option String)
  | name, [] => .ok name
  | name, c :: cs => do
    if c.kind == "call" then
      let text ← c.text src
      joined src (some (Text.before '(' text)) cs
    else if c.kind == "identifier" then
      let text ← c.text src
      match name with
      | some n => if n == "" then joined src (some text) cs else joined src (some (n ++ "." ++ text)) cs
      | none => joined src (some text) cs
    else joined src name cs

def inClass (owner : Option String) (name : Option String) : Except Failure (Option String) :=
  match owner with
  | none => .ok name
  | some c =>
    if c == "" then .ok name
    else
      match name with
      | some n => .ok (some (Text.swap "self." (c ++ ".") n))
      | none => .error (.noMember "NoneType" "replace")

/-- The name that the children of a call give to its callee; nothing if none of them names one. -/
def ofChildren (src : String) (owner : Option String) : List Node → Except Failure (Option String)
  | [] => .ok none
  | c :: cs => do
    if c.kind == "identifier" then
      let text ← c.text src
      return some text
    else if c.kind == "attribute" then
      let name ← joined src none c.children
      inClass owner name
    else ofChildren src owner cs

def ofCall (src : String) (owner : Option String) (n : Node) : Except Failure (Option String) :=
  ofChildren src owner n.children

end Callee

/-!
## Function definitions

What a definition says about a function: its name, its parameters, the type it answers with and the
rows it covers. A decorated definition speaks for the function definition inside it, but covers its
decorators too.

* `Signature.read` is the reading used for the graph: names of methods carry their class.
* `Outline.read` is the reading used for entry points: plain names, and the whole text.
-/

structure Parameter where
  name : Option String
  type : Option String
  deriving DecidableEq, Repr

/-- The name of a function, with the class before it. -/
def Definitions.qualified (owner : Option String) (name : String) : String :=
  match owner with
  | some c => if c == "" then name else c ++ "." ++ name
  | none => name

/-- What a definition says about a function. -/
structure Signature where
  name : Option String
  parameters : List Parameter
  firstRow : Nat
  lastRow : Nat
  response : String
  deriving DecidableEq, Repr

namespace Signature

/-- What the children of a definition have said so far. -/
structure Draft where
  name : Option String
  parameters : List Parameter
  response : String

/-- A parameter with a declared type; of repeated parts the last one counts. -/
def typedParameter (src : String) : Parameter → List Node → Except Failure Parameter
  | p, [] => .ok p
  | p, c :: cs => do
    if c.kind == "identifier" then typedParameter src { p with name := some (← c.text src) } cs
    else if c.kind == "type" then typedParameter src { p with type := some (← c.text src) } cs
    else typedParameter src p cs

def parametersOf (src : String) : List Node → Except Failure (List Parameter)
  | [] => .ok []
  | c :: cs => do
    if c.kind == "identifier" then
      let name ← c.text src
      return ⟨some name, none⟩ :: (← parametersOf src cs)
    else if c.kind == "typed_parameter" then
      let p ← typedParameter src ⟨none, none⟩ c.children
      return p :: (← parametersOf src cs)
    else parametersOf src cs

/-- Reads the children of a definition: the first identifier names the function unless it has a name
already, parameter lists add to the parameters, and the last type is the response. -/
def readChildren (src : String) (owner : Option String) : Draft → List Node → Except Failure Draft
  | d, [] => .ok d
  | d, c :: cs => do
    if c.kind == "identifier" && d.name.isNone then
      let name ← c.text src
      readChildren src owner { d with name := some (Definitions.qualified owner name) } cs
    else if c.kind == "parameters" then
      let ps ← parametersOf src c.children
      readChildren src owner { d with parameters := d.parameters ++ ps } cs
    else if c.kind == "type" then
      let response ← c.text src
      readChildren src owner { d with response := response } cs
    else readChildren src owner d cs

/-- Reads the function definitions among the children of a decorated definition. Parameters add up;
name and response are those of the last one. -/
def readInner (src : String) (owner : Option String) : Draft → List Node → Except Failure Draft
  | d, [] => .ok d
  | d, c :: cs => do
    if c.kind == "function_definition" then
      let d ← readChildren src owner ⟨none, d.parameters, ""⟩ c.children
      readInner src owner d cs
    else readInner src owner d cs

/-- What a definition says about a function; `owner` is the class that the function belongs to. -/
def read (src : String) (owner : Option String) (n : Node) : Except Failure Signature := do
  let blank : Draft := ⟨none, [], ""⟩
  let d ← if n.kind == "decorated_definition" then readInner src owner blank n.children else .ok blank
  let d ← readChildren src owner d n.children
  return ⟨d.name, d.parameters, n.firstRow src, n.lastRow src, d.response⟩

end Signature

/-- What a definition says about a possible entry point. -/
structure Outline where
  name : Option String
  parameters : List String
  firstRow : Nat
  lastRow : Nat
  text : String
  deriving DecidableEq, Repr

namespace Outline

def identifiers (src : String) : List Node → Except Failure (List String)
  | [] => .ok []
  | c :: cs => do
    if c.kind == "identifier" then
      let name ← c.text src
      return name :: (← identifiers src cs)
    else identifiers src cs

/-- The name and the parameters that the children of a definition give; of several parameter lists
the last one counts. -/
def readChildren (src : String) :
    Option String → List String → List Node → Except Failure (Option String × List String)
  | name, ps, [] => .ok (name, ps)
  | name, ps, c :: cs => do
    if c.kind == "identifier" && name.isNone then
      let text ← c.text src
      readChildren src (some text) ps cs
    else if c.kind == "parameters" then
      let ps ← identifiers src c.children
      readChildren src name ps cs
    else readChildren src name ps cs

def readPlain (src : String) (name : Option String) (n : Node) : Except Failure Outline := do
  let (name, ps) ← readChildren src name [] n.children
  let text ← n.text src
  return ⟨name, ps, n.firstRow src, n.lastRow src, text⟩

/-- The name of the last function definition among some nodes, each of which is read in full. -/
def innerName (src : String) : Option String → List Node → Except Failure (Option String)
  | name, [] => .ok name
  | name, c :: cs => do
    if c.kind == "function_definition" then
      let inner ← readPlain src none c
      innerName src inner.name cs
    else innerName src name cs

/-- What a definition says about a possible entry point. -/
def read (src : String) (n : Node) : Except Failure Outline := do
  let name ← if n.kind == "decorated_definition" then innerName src none n.children else .ok none
  readPlain src name n

end Outline

end CodeAtlas
