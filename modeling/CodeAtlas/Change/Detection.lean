import CodeAtlas.Change.Hunk
import CodeAtlas.Failure
import CodeAtlas.Hosting.Service
import CodeAtlas.Syntax.Definition
import CodeAtlas.Text.Regex

/-!
# Changed functions

Where the functions of a file lie, where a file lies in its repository, and which functions a patch
changes.
-/
namespace CodeAtlas

/-!
## Where functions are defined

The functions of a tree with their rows, counted from one: those inside classes under the name of the
nearest class, those inside other functions not at all. Of a name that is defined twice the last
definition counts, at the place of the first.
-/

structure RowRange where
  first : Nat
  last : Nat
  deriving DecidableEq, Repr

namespace Definitions

def identifier? (ns : List Node) : Option Node := ns.find? (·.kind == "identifier")

def addFunction (src : String) (owner : Option String) (n : Node) (found : Table String RowRange) :
    Except Failure (Table String RowRange) :=
  match identifier? n.children with
  | none => .ok found
  | some c => do
    let name ← c.text src
    return Table.set found (qualified owner name) ⟨n.firstRow src + 1, n.lastRow src + 1⟩

mutual

/-- Adds the functions of a tree; `owner` is the class around it. -/
def collect (src : String) (owner : Option String) :
    Node → Table String RowRange → Except Failure (Table String RowRange)
  | .mk kind a b children, found =>
    if kind == "function_definition" then addFunction src owner (.mk kind a b children) found
    else if kind == "class_definition" then
      match identifier? children with
      | none => .ok found
      | some c => do
        let name ← c.text src
        collectAll src (some name) children found
    else collectAll src owner children found

def collectAll (src : String) (owner : Option String) :
    List Node → Table String RowRange → Except Failure (Table String RowRange)
  | [], found => .ok found
  | n :: ns, found => do
    let found ← collect src owner n found
    collectAll src owner ns found

end

def ofTree (src : String) (root : Node) : Except Failure (Table String RowRange) :=
  collect src none root []

end Definitions

/-!
## Paths inside a download

A repository is downloaded into a folder named after it, the branch and a user. From the path of a
file below such a folder the path inside the repository is recovered, by a regular expression.
-/

namespace DownloadPath

inductive System where
  | posix
  | windows
  | other
  deriving DecidableEq, Repr

/-- What stands between the parts of a path. -/
def System.separator? : System → Option Char
  | posix => some '/'
  | windows => some '\\'
  | other => none

/-- The characters that have a meaning in a regular expression. -/
def special : List Char := "()[]\x7b\x7d?*+-|^$\\.&~# \t\n\r\x0b\x0c".toList

/-- A text with a backslash before each special character. -/
def escape (s : String) : String :=
  String.ofList (s.toList.flatMap fun c => if special.contains c then ['\\', c] else [c])

/-- The regular expression for paths in a download: the name of the folder, a dash, a word, a separator
and, as its group, at least one character up to the end of the line. -/
def pattern (system : System) (repository branch : String) : Except Failure String :=
  match system.separator? with
  | some sep =>
    .ok (escape (repository ++ "-" ++ branch) ++ "-\\w+\\" ++ String.singleton sep ++ "(.+)")
  | none => .error (.invalid "Unsupported operating system")

def inside? (system : System) (repository branch path : String) : Option String :=
  match pattern system repository branch with
  | .ok expression => Regex.captured? expression path
  | .error _ => none

end DownloadPath

/-!
## Changed functions

The functions whose rows have a line in common with a hunk. Files are read from disk, or from the
hosting service for a download; a file that cannot be read or surveyed changes nothing.
-/

namespace Change

inductive FileSource where
  | disk
  | hosted (repository : HostedRepository) (name : String)

def readFile (source : FileSource) (branch path : String) : Run String := do
  match source with
  | .disk => (← get).files.readText path
  | .hosted r name =>
    match DownloadPath.inside? .posix name branch path with
    | some inner => Hosting.fileText r inner
    | none => throw (.unknownObject "Not Found")

/-- The identifier of a function in a file below a folder. -/
def functionId (root path name : String) : String :=
  let inner := Path.relative path root
  (if Text.startsWith "/" inner then inner else "/" ++ inner) ++ ":" ++ name

def touched (root path : String) (hunks : List Hunk) (functions : Table String RowRange) :
    List String :=
  (functions.filter fun (_, rows) => hunks.any fun h => h.touches rows.first rows.last).map
    fun (name, _) => functionId root path name

def functionsOf (source : FileSource) (branch path : String) : Run (Table String RowRange) := do
  let src ← readFile source branch path
  let root ← Run.treeOf src
  Definitions.ofTree src root

def inFile (source : FileSource) (root branch : String) (entry : String × List Hunk) :
    Run (List String) := do
  match ← Run.outcome (functionsOf source branch entry.1) with
  | .ok functions => return touched root entry.1 entry.2 functions
  | .error _ => return []

def inFiles (source : FileSource) (root branch : String) : ChangedLines → Run (List String)
  | [] => return []
  | entry :: rest => do
    let found ← inFile source root branch entry
    return found ++ (← inFiles source root branch rest)

def functions (source : FileSource) (root branch : String) (patches : List (String × Option String)) :
    Run (List String) := do
  let changed ← ChangedLines.ofPatches root patches
  inFiles source root branch changed

end Change

end CodeAtlas
