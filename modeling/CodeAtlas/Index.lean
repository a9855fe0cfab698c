import CodeAtlas.FileTree
import CodeAtlas.Syntax.Survey

/-!
# The index of a project

What the files of a project define and import, and what a called name means there.
-/
namespace CodeAtlas

/-!
## The file index

What each analysed file contributes to the resolution of names: its imports, the names it binds to
calls, the classes it defines and the identifiers of its functions.
-/

structure FileEntry where
  imports : List Import
  instances : Table String (Option String)
  classes : List String
  functions : List String

abbrev FileIndex := Table String FileEntry

def identifier (directory path name : String) : String := Text.remove directory path ++ ":" ++ name

namespace FileIndex

def entry (index : FileIndex) (path : String) : Except Failure FileEntry :=
  match Table.get? index path with
  | some e => .ok e
  | none => .error (.missingKey (.str path))

end FileIndex

def Survey.toEntry (s : Survey) (directory path : String) : FileEntry :=
  { imports := s.imports
    instances := s.bindings
    classes := s.classes.map ClassFound.name
    functions := (s.functions.map fun f => identifier directory path f.name).eraseDups }

/-!
## Resolving names

A called name is resolved to a file and a name in it. If its first part is bound to a call, the class
behind that call is looked for; otherwise, or if that fails, the first part itself. Each time the
first import whose alias is the name, or whose path contains it, says in which files to look: the
source files whose path contains the path of the imported module.

* `Resolve.functionTarget`: a called function;
* `Resolve.classTarget`: a class, with its name alone as the answer.
-/

/-- A file, and the name of what was found in it. -/
structure Target where
  file : String
  name : Option String
  deriving DecidableEq, Repr

namespace Resolve

/-- The path of the first import whose alias is the name or whose path contains it. A name that is
not known can only match the missing alias. -/
def importOf (name : Option String) : List Import → Except Failure (Option String)
  | [] => .ok none
  | i :: is =>
    if i.otherName = name then .ok (some i.module)
    else
      match name with
      | none => .error (.unfit "'in <string>' requires string as left operand, not NoneType")
      | some n => if Text.contains n i.module then .ok (some i.module) else importOf name is

/-- Where an import points: the part of a path under which to look, and the name to look for. Leading
points stand for as many folders at the end of the importing file's own path. -/
def place (file module : String) : String × String :=
  if Text.startsWith "." module then
    let ups := (module.toList.takeWhile (· == '.')).length
    let folders := (Text.fields '/' file).dropLast
    let kept := if ups ≤ folders.length then folders.drop (folders.length - ups) else []
    let parts := Text.fields '.' (Text.trimLeft '.' module)
    ("/".intercalate (kept ++ parts.dropLast), parts.getLast?.getD "")
  else
    let parts := Text.fields '.' module
    ("/".intercalate parts.dropLast, parts.getLast?.getD "")

def firstIn (index : FileIndex) (pick : FileEntry → Except Failure (Option (Option String))) :
    List String → Except Failure (Option Target)
  | [] => .ok none
  | p :: ps =>
    match Table.get? index p with
    | none => firstIn index pick ps
    | some e => do
      match ← pick e with
      | some name => return some ⟨p, name⟩
      | none => firstIn index pick ps

def candidates (t : FileTree) (directory part : String) : List String :=
  (t.sourcesWith directory part).map (Path.join directory)

def pickMethod (name rest : String) (e : FileEntry) : Except Failure (Option (Option String)) :=
  if e.classes.contains name then .ok (some (some (name ++ "." ++ rest)))
  else
    match Table.get? e.instances name with
    | some (some v) => .ok (some (some (v ++ "." ++ rest)))
    | some none => .error (.unfit "unsupported operand type(s) for +: 'NoneType' and 'str'")
    | none => .ok none

def pickClass (name : String) (e : FileEntry) : Except Failure (Option (Option String)) :=
  if e.classes.contains name then .ok (some (some name)) else .ok (Table.get? e.instances name)

def pickFunction (name : String) (e : FileEntry) : Option (Option String) :=
  if (e.functions.map fun id => (Text.fields ':' id).getLast?.getD "").contains name then
    some (some name)
  else none

def orElse (first : FileEntry → Except Failure (Option (Option String)))
    (second : FileEntry → Option (Option String)) (e : FileEntry) :
    Except Failure (Option (Option String)) := do
  match ← first e with
  | some name => return some name
  | none => return second e

def firstAndRest (name : String) : String × String :=
  match Text.fields '.' name with
  | first :: rest@(_ :: _) => (first, ".".intercalate rest)
  | _ => (name, name)

def throughImport (t : FileTree) (index : FileIndex) (directory file : String) (e : FileEntry)
    (name : Option String) (pick : String → FileEntry → Except Failure (Option (Option String))) :
    Except Failure (Option Target) := do
  match ← importOf name e.imports with
  | none => return none
  | some module =>
    if module == "" then return none
    else
      let (part, last) := place file module
      firstIn index (pick last) (candidates t directory part)

/-- What the class behind a call that a name is bound to leads to. -/
def boundTo (t : FileTree) (index : FileIndex) (directory file : String) (e : FileEntry)
    (first : String) (own : String → String)
    (pick : String → FileEntry → Except Failure (Option (Option String))) :
    Except Failure (Option Target) :=
  match Table.get? e.instances first with
  | none => .ok none
  | some none => throughImport t index directory file e none pick
  | some (some c) =>
    if e.classes.contains c then .ok (some ⟨file, some (own c)⟩)
    else throughImport t index directory file e (some c) pick

/-- The method of the class behind a call that a name is bound to. -/
def boundTarget (t : FileTree) (index : FileIndex) (directory file : String) (e : FileEntry)
    (first rest : String) : Except Failure (Option Target) :=
  boundTo t index directory file e first (· ++ "." ++ rest) fun last => pickMethod last rest

/-- What the import that is taken for a name leads to. -/
def importedTarget (t : FileTree) (index : FileIndex) (directory file : String) (e : FileEntry)
    (first rest : String) : Except Failure (Option Target) :=
  throughImport t index directory file e (some first) fun last =>
    orElse (pickMethod last rest) (pickFunction last)

/-- A name is resolved by what it is bound to, and if that leads nowhere by the imports. -/
def functionTarget (t : FileTree) (index : FileIndex) (directory file name : String) :
    Except Failure Target := do
  let (first, rest) := firstAndRest name
  let e ← index.entry file
  match ← boundTarget t index directory file e first rest with
  | some target => return target
  | none => return (← importedTarget t index directory file e first rest).getD ⟨file, none⟩

def classTarget (t : FileTree) (index : FileIndex) (directory file name : String) :
    Except Failure Target := do
  let (first, rest) := firstAndRest name
  let e ← index.entry file
  match ← boundTo t index directory file e first id pickClass with
  | some target => return target
  | none =>
    let found ← throughImport t index directory file e (some first) fun _ =>
      orElse (pickClass rest) (pickFunction rest)
    return found.getD ⟨file, none⟩

end Resolve

end CodeAtlas
