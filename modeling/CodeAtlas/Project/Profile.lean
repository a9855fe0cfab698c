import CodeAtlas.Hosting.Service
import CodeAtlas.Json.Printer

/-!
# Profiles of repositories

What is known about a repository as a whole: its name and description, its figures, and how much of
it is written in which language.
-/
namespace CodeAtlas

/-- What is known about a repository as a whole. -/
structure Profile where
  fullName : String
  description : Json
  createdAt : Option String
  updatedAt : Option String
  defaultBranch : Json
  size : Json
  stars : Json
  forks : Json
  watchers : Json
  openIssues : Json
  /-- The number of bytes in each language. -/
  languages : Table String Int
  commits : Json
  contributors : Json
  topics : Json

namespace Profile

def totalBytes (p : Profile) : Int := p.languages.foldl (fun n l => n + l.2) 0

def percentage (part total : Int) : Binary64 :=
  (Binary64.ofRatio (decide (part < 0) != decide (total < 0)) part.natAbs total.natAbs).mul (.ofInt 100)

/-- Is at least half of the repository written in the language that is analysed? -/
def isSupported (p : Profile) : Except Failure Bool :=
  match Table.get? p.languages "Python" with
  | none => .ok false
  | some bytes =>
    if p.totalBytes = 0 then .error .divisionByZero
    else .ok !((percentage bytes p.totalBytes).ltNat 50)

def members (p : Profile) : List (String × Json) :=
  [("basic_info", .obj
      [("full_name", .str p.fullName), ("description", p.description),
       ("created_at", Json.ofOption p.createdAt), ("updated_at", Json.ofOption p.updatedAt),
       ("default_branch", p.defaultBranch)]),
   ("metrics", .obj
      [("size", p.size), ("stars", p.stars), ("forks", p.forks), ("watchers", p.watchers),
       ("open_issues", p.openIssues)]),
   ("languages", .obj
      [("breakdown", .obj (p.languages.map fun (k, n) => (k, .int n))),
       ("total_bytes", .int p.totalBytes)]),
   ("commit_info", .obj [("total_commits", p.commits)]),
   ("contributors", .obj [("count", p.contributors)]),
   ("topics", p.topics)]

def text (p : Profile) (trouble : Option String) : String :=
  (Json.obj (p.members ++ [("error_message", Json.ofOption trouble)])).render .spaced

/-- The languages, the commits, the people and the topics are asked for one after the other. -/
def ofHosted (fullName : String) (r : HostedRepository) : Except Failure Profile := do
  let languages ← r.languages
  let commits ← r.commits
  let contributors ← r.contributors
  let topics ← r.topics
  return { fullName, description := r.description, createdAt := some r.createdAt
           updatedAt := some r.updatedAt, defaultBranch := r.defaultBranch, size := r.size
           stars := r.stars, forks := r.forks, watchers := r.watchers, openIssues := r.openIssues
           languages, commits, contributors, topics }

def languagesBelow (t : FileTree) (folder : String) : Table String Int :=
  let size := t.sizeBelow folder
  let source := t.sourceSizeBelow folder
  if size = 0 then [] else [("Python", (source : Int)), ("Other", (size : Int) - source)]

def ofClone (t : FileTree) (folder : String) (c : Clone) : Except Failure Profile := do
  let commits ← c.commitCount "HEAD"
  let contributors ← c.commitCount "--all"
  return { fullName := Path.base folder, description := .null, createdAt := none, updatedAt := none
           defaultBranch := .str c.head, size := .int (t.sizeBelow folder), stars := .null
           forks := .null, watchers := .null, openIssues := .null
           languages := languagesBelow t folder, commits := .int commits
           contributors := .int contributors, topics := .arr [] }

end Profile
end CodeAtlas
