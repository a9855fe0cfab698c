import CodeAtlas.Graph.Service
import CodeAtlas.Plan.Saved
import CodeAtlas.Project.Folder
import CodeAtlas.Project.Profile
import CodeAtlas.Project.Registry

/-!
# Setting a project up

Before a branch is analysed its files are brought into a folder, the folder is prepared, and the
project is registered with the profile of its repository. Before it is analysed again, what was found
before is cleared away.
-/
namespace CodeAtlas.Setup

/-- What is set up, and for whom. -/
structure Request where
  owner : Json
  repository : Json
  branch : Json
  user : Json
  project : ProjectKey

/-- A project that was set up. -/
structure Prepared where
  directory : String
  project : ProjectKey
  /-- Is the project to be analysed? -/
  isSupported : Bool

namespace Request

def fullName (r : Request) : String := r.owner.display ++ "/" ++ r.repository.display

def projectName (r : Request) : String := Registry.projectName r.repository r.branch

end Request

def unsupported : String := "Repository doesn't consist of a language currently supported."

def mapPath (directory : String) : String := directory ++ "/.momentum/momentum.db"

def prepare (directory : String) : Run Unit := do
  let kept := Path.join directory ".momentum"
  Folder.make kept
  Folder.write (Path.join kept "momentum.db") ByteArray.empty

/-- Registers a project in a folder. Where the service is not in development mode, only
repositories in a supported language are analysed. -/
def register (r : Request) (directory commit : String) (isDefault : Bool) (profile : Profile) :
    Run Prepared := do
  let isSupported ←
    if (← Run.setting? "isDevelopmentMode") == some "disabled" then profile.isSupported
    else pure true
  let metadata := profile.text (if isSupported then none else some unsupported)
  let project ← Registry.register
    { directory := .str directory, name := .str r.projectName, repository := .str r.fullName
      branch := r.branch, user := r.user, commit := .str commit
      isDefault := .bool isDefault, metadata := .str metadata } r.project
  Registry.setStatus project .created
  return { directory, project, isSupported }

def hosted (r : Request) (fullName : String) (repository : HostedRepository) : Run Prepared := do
  match ← Run.setting? "PROJECT_PATH" with
  | none => throw (.unfit "expected str, bytes or os.PathLike object, not NoneType")
  | some projects =>
    let archive := Path.join projects (r.projectName ++ ".tar.gz")
    let directory := Path.join projects (r.projectName ++ "-" ++ r.user.display)
    let fault ← Archive.fetch repository archive directory
    let commit ← Hosting.branchCommit repository r.branch
    if let some f := fault then throw f.failure
    prepare directory
    let profile ← Profile.ofHosted fullName repository
    register r directory commit (r.branch.same repository.defaultBranch) profile

def cloned (r : Request) (folder : String) : Run Prepared := do
  match ← Run.outcome (Clone.checkoutAt folder r.branch) with
  | .error .gitFailed => throw (.refuse 400 ("Failed to checkout branch " ++ r.branch.display))
  | .error e => throw e
  | .ok clone =>
    prepare folder
    let profile ← Profile.ofClone (← get).files folder clone
    register r folder ((Table.get? clone.heads clone.head).getD "") false profile

def clear (directory : Json) (project : ProjectKey) (user : Json) : Run Unit := do
  Saved.clear project user
  GraphService.deleteProject project
  Folder.discard directory

/-! ## Is an analysis up to date? -/

def isBehind (last : String) (analysed : Except Failure Json) (status : Except Failure Json) :
    Except Failure Bool := do
  if (← analysed) = .str last then return (← status) != .str ProjectStatus.ready.text
  else return true

def hostedIsAhead (repository : HostedRepository) (branch project : Json) :
    Except Failure Bool := do
  let last ← Hosting.branchCommit repository branch
  isBehind last (project.key "commit_id") (project.key "status")

def clonedIsAhead (folder branch project : Json) : Run Bool := do
  let clone ← Clone.inFolder folder
  let ahead : Except Failure Bool := do
    let last ← clone.commitOf branch
    isBehind last (project.position 3) (project.position 4)
  match ahead with
  | .ok b => return b
  | .error .gitFailed => return false
  | .error (.outOfRange _) => return false
  | .error e => throw e

def localRepository (path : Json) : Run String := do
  let path ← path.asPath
  if (← get).files.isFolder path then return path
  else throw (.refuse 400 "Repository path does not exist")

end CodeAtlas.Setup
