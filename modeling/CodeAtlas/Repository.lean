import CodeAtlas.Failure
import CodeAtlas.Json.Access

/-!
# Repositories

A repository as the hosting service tells of it, and as a clone in a folder.
-/
namespace CodeAtlas

/-!
## Hosted repositories

What the hosting service tells about a repository: its branches and their commits, its files, its
languages and figures, its pull requests, and how two branches differ.
-/

/-- A file that differs between two branches. Files that are not text have no patch. -/
structure ChangedFile where
  name : String
  patch : Json
  additions : Json
  deletions : Json

/-- How two branches differ. -/
structure Comparison where
  commits : Json
  files : List ChangedFile

/-- A repository as it is told at once. What is asked for in a request of its own may fail to come. -/
structure HostedRepository where
  defaultBranch : Json
  size : Json
  description : Json
  createdAt : String
  updatedAt : String
  stars : Json
  forks : Json
  watchers : Json
  openIssues : Json
  branches : Table String String
  files : List (String × String)
  languages : Except Failure (Table String Int)
  commits : Except Failure Json
  contributors : Except Failure Json
  topics : Except Failure Json
  /-- The branch of each pull request, by its number as it is written. -/
  pulls : Table String String
  comparisons : Table String Comparison
  archiveStatus : Option Int
  archiveDamaged : Bool
  /-- Is the repository closed to the application, although it is installed there? -/
  hidden : Bool

namespace HostedRepository

def blank : HostedRepository :=
  { defaultBranch := .str "main", size := .int 2048, description := .null
    createdAt := "2024-01-02T03:04:05", updatedAt := "2024-01-02T03:04:05"
    stars := .int 1, forks := .int 2, watchers := .int 3, openIssues := .int 4
    branches := [], files := []
    languages := .ok [("Python", 100)], commits := .ok (.int 7), contributors := .ok (.int 5)
    topics := .ok (.arr []), pulls := [], comparisons := [], archiveStatus := none, archiveDamaged := false, hidden := false }

def file? (r : HostedRepository) (path : String) : Option String := Table.get? r.files path

/-- The name under which the difference of two branches is kept. -/
def comparisonName (base head : String) : String := base ++ "..." ++ head

end HostedRepository

/-!
## Clones

A clone of a repository in a folder: its branches, the one that is checked out, and the files that
each branch holds.
-/

structure Clone where
  /-- The last commit of each branch. -/
  heads : Table String String
  /-- The branch that is checked out. -/
  head : String
  /-- What counting the commits of a revision gives. -/
  commits : Table String (Except Failure Int)
  branchFiles : Table String (Table String ByteArray)
  /-- Branches that cannot be checked out because of changes in the working tree. -/
  conflicts : List String
  /-- Branches whose commit cannot be read. -/
  unreadable : List String

namespace Clone

def commitCount (c : Clone) (range : String) : Except Failure Int :=
  (Table.get? c.commits range).getD (.ok 0)

def commitOf (c : Clone) (branch : Json) : Except Failure String := do
  if branch.str?.any c.unreadable.contains then throw .gitFailed
  match ← Json.find? c.heads branch with
  | some sha => return sha
  | none => throw (.outOfRange "list")

def checkout (c : Clone) (branch : Json) : Except Failure Clone := do
  branch.checkKey
  match branch.str? with
  | some name =>
    if c.conflicts.contains name || !Table.has c.heads name then throw .gitFailed
    else return { c with head := name }
  | none => throw .gitFailed

def filesOf (c : Clone) (branch : Json) : Except Failure (Table String ByteArray) := do
  match ← Json.find? c.branchFiles branch with
  | some files => return files
  | none => throw (.missingKey branch)

end Clone

end CodeAtlas
