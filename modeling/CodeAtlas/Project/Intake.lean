import CodeAtlas.Analysis.Directory
import CodeAtlas.Form.Requests
import CodeAtlas.Project.Setup

/-!
# Taking a repository in

A user asks for the analysis of a branch. A local repository is first copied to where projects are
kept; a hosted one must be open to the application. A branch that is new to the user is set up and
analysed, a deleted project is restored, and a local one is cleared and analysed again. If the
analysis ends early the project is marked as faulty.
-/
namespace CodeAtlas.Intake

/-- The branch that is taken in. -/
structure Request where
  repository : Option String
  path : Option String
  branch : String
  user : Json

inductive Source where
  | cloned (folder : String)
  | hosted (owner : String) (fullName : String) (repository : HostedRepository)

/-- What came of a request. -/
structure Outcome where
  message : String
  project : ProjectKey
  /-- Is the project new to the user, or was it only restored? -/
  isNew : Bool

namespace Request

def ofForm (form user : Json) : Request :=
  ⟨(form.getD "repo_name").str?, (form.getD "repo_path").str?,
   ((form.getD "branch_name").str?).getD "", user⟩

def name? (r : Request) : Option String := r.repository.filter (· != "")

def path? (r : Request) : Option String := r.path.filter (· != "")

def folderName (r : Request) : Except Failure String :=
  match r.name?, r.path with
  | some name, _ => .ok (name ++ "-" ++ r.user.display)
  | none, some p => .ok (Path.base p ++ "-" ++ r.user.display)
  | none, none => .error (.unfit "expected str, bytes or os.PathLike object, not NoneType")

end Request

def permit (r : Request) : Run Unit := do
  if !(← Run.inDevelopment) && r.path?.isSome then
    throw (.refuse 403 "Development mode is not enabled, cannot parse local repository.")
  if (← Run.isDefaultUser r.user) && r.name?.isSome then
    throw (.refuse 403 "Cannot parse remote repository without auth token")

def copyFolder (path target : String) : Run Unit := do
  if (← get).files.contains target then throw (.fileExists target)
  modify fun w =>
    { w with
      files := w.files.copyFolder path target
      clones :=
        match Table.get? w.clones path with
        | some c => Table.set w.clones target c
        | none => w.clones }

def notSwitched : Failure := .refuse 400 "Failed to access or switch branch in local repository"

def switchTo (folder : String) (branch : Json) : Run Unit := do
  let clone ← Clone.inFolder (.str folder)
  if (← Json.find? clone.heads branch).isNone then
    throw (.refuse 400 "Branch not found in local repository")
  match ← Run.outcome (Clone.checkoutAt folder branch) with
  | .ok _ => return ()
  | .error _ => throw notSwitched

def reach (r : Request) : Run Source := do
  match ← Run.setting? "PROJECT_PATH" with
  | none =>
    let _ ← r.folderName
    throw (.unfit "expected str, bytes or os.PathLike object, not NoneType")
  | some projects =>
    let target := Path.join projects (← r.folderName)
    match r.path? with
    | some path =>
      if !(← get).files.contains path then
        throw (.refuse 400 "Local repository does not exist on given path")
      copyFolder path target
      switchTo target (.str r.branch)
      return .cloned target
    | none =>
      let fullName := r.repository.getD ""
      let (owner, _) ← Hosting.ownerAndName (.str fullName)
      if !(← Hosting.isInstalled (.str fullName)) then throw Hosting.notInstalled
      match ← Run.outcome (Hosting.repository (.str fullName)) with
      | .ok repository => return .hosted owner fullName repository
      | .error _ => throw (.refuse 400 "Repository not found on GitHub")

def setUp (r : Setup.Request) : Source → Run Setup.Prepared
  | .cloned folder => Setup.cloned r folder
  | .hosted _ fullName repository => Setup.hosted r fullName repository

def analyse (p : Setup.Prepared) (user : Json) (done : String) : Run String := do
  if p.isSupported then
    Analysis.analyse p.directory user p.project
    Registry.setStatus p.project .ready
    return done
  else
    Registry.setStatus p.project .error
    return Setup.unsupported

def fault {α : Type} (project : ProjectKey) (e : Failure) : Run α := do
  Registry.setStatus project .error
  throw (.refuse 500 e.message)

def hostedSize (repository : HostedRepository) : Except Failure Json :=
  let share (n : Int) : Json := .real (Binary64.ofRatio (n < 0) n.natAbs 1024)
  match repository.size with
  | .int n => .ok (share n)
  | .bool b => .ok (share (if b then 1 else 0))
  | .real x => .ok (.real (x.mul (Binary64.ofRatio false 1 1024)))
  | v => .error (.unfit s!"unsupported operand type(s) for /: '{v.kindName}' and 'int'")

/-- The size of a hosted repository, nothing for a local one. -/
def size (r : Request) (source : Source) : Except Failure Json :=
  match r.name?, source with
  | none, _ => .ok (.int 0)
  | some _, .hosted _ _ repository => hostedSize repository
  | some _, .cloned _ => .error (.noMember "Repo" "size")

/-- What a request is about: where the files come from, what is to be set up, and the project that
the user has for it already. -/
structure Found where
  source : Source
  request : Setup.Request
  known : Option Project

/-- What is done before the project is looked up, and the look-up. -/
def find (r : Request) : Run Found := do
  permit r
  let source ← reach r
  let repository ← Registry.shortName (Json.ofOption r.repository) (Json.ofOption r.path)
  let owner := match source with
    | .cloned _ => .null
    | .hosted owner _ _ => .str owner
  let request : Setup.Request := ⟨owner, .str repository, .str r.branch, r.user, ⟨.null⟩⟩
  let known ← Registry.projectNamed? request.projectName r.user
  return ⟨source, request, known⟩

namespace Found

def key (f : Found) : ProjectKey :=
  match f.known with
  | none => ⟨.null⟩
  | some q => .number q.id

def wanted (f : Found) : Setup.Request := { f.request with project := f.key }

/-- What is done before the analysis. A hosted project that is known cannot be set up again. -/
def prepare (f : Found) : Run Setup.Prepared :=
  match f.known, f.source with
  | none, _ => setUp f.wanted f.source
  | some q, .cloned _ => do
    Setup.clear (Json.ofOption q.directory) (.number q.id) f.request.user
    setUp f.wanted f.source
  | some _, .hosted _ _ repository => do
    let _ ← Hosting.branchCommit repository f.request.branch
    throw (Json.notIndexed "Project")

/-- What is said after an analysis. -/
def done (f : Found) : String :=
  match f.known with
  | none => "The project has been parsed successfully"
  | some _ => "The project has been re-parsed successfully"

/-- What is done with a project that was set up, or could not be. -/
def conclude (f : Found) : Except Failure Setup.Prepared → Run Outcome
  | .error e => fault f.key e
  | .ok p => do
    match ← Run.outcome (analyse p f.request.user f.done) with
    | .error e => fault p.project e
    | .ok message => return ⟨message, p.project, f.known.isNone || !p.isSupported⟩

/-- What is done with a deleted project. -/
def restore (f : Found) (q : Project) : Run Outcome := do
  match ← Run.outcome (Registry.restore (.number q.id) f.request.user) with
  | .error e => fault (.number q.id) e
  | .ok message => return ⟨message, .number q.id, true⟩

/-- What is done with the project that was found. -/
def settle (f : Found) : Run Outcome :=
  match f.known.filter fun q => q.isDeleted == some true with
  | some q => f.restore q
  | none => Run.outcome f.prepare >>= f.conclude

/-- What is said about the outcome. -/
def report (r : Request) (f : Found) (outcome : Outcome) : Run Outcome := do
  let size ← size r f.source
  Run.annotate "additional_data" (.obj
    [("repository_name", Json.ofOption (r.name? <|> r.path)), ("branch_name", .str r.branch),
     ("project_id", outcome.project.given), ("size", size),
     ("new_project", .bool outcome.isNew)])
  return outcome

end Found

/-- Takes a repository in. -/
def run (r : Request) : Run Outcome := do
  let found ← find r
  found.settle >>= found.report r

end CodeAtlas.Intake
