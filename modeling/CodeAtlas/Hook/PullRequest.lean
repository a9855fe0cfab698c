import CodeAtlas.Flow.BlastRadius
import CodeAtlas.Hook.Comment
import CodeAtlas.Project.Intake

/-!
# Pull requests

When a pull request is opened its branch is analysed, if it has no project yet. Then, as after every
change to it, the entry points that it reaches are posted as a comment.
-/
namespace CodeAtlas.PullRequest

structure Pull where
  repository : Json
  branch : Json
  base : Json

namespace Pull

/-- Reads the branches off a message. -/
def ofPayload (payload : Json) : Except Failure Pull := do
  let repository ← payload.keys ["repository", "full_name"]
  let branch ← payload.keys ["pull_request", "head", "ref"]
  let base ← payload.keys ["pull_request", "base", "ref"]
  return ⟨repository, branch, base⟩

end Pull

def installation (payload : Json) : Except Failure Json := payload.keys ["installation", "id"]

/-- The entry points that a pull request reaches; nothing if its branches cannot be compared. They
are looked for where the record of a project has no place for them, so there are none without a
project, and no end with one. -/
def radius (project : ProjectKey) (pull : Pull) : Run (Option EndpointsByFile) := do
  let known ← Registry.project? project
  let comparison ← Run.outcome do
    let repository ← Hosting.repository pull.repository
    Hosting.compare repository pull.base pull.branch
  match comparison, known with
  | .error _, _ => return none
  | .ok _, none => return some []
  | .ok _, some _ => throw (.missingKey (.int 1))

def shown (found : EndpointsByFile) : List (String × Json) :=
  found.map fun (file, endpoints) =>
    (file, .arr (endpoints.map fun e => .obj [("entryPoint", Json.ofOption e.path)]))

def announce (project : ProjectKey) (pull : Pull) (number : Json) : Run Unit := do
  match ← radius project pull with
  | none => throw (.unfit "'NoneType' object is not iterable")
  | some found => Hosting.comment pull.repository number (.str (← Markdown.impact (shown found)))

/-- The first character of the name of a user. -/
def initial : Option String → Except Failure String
  | none => .error (Json.notIndexed "NoneType")
  | some user =>
    match user.toList with
    | [] => .error (.outOfRange "string")
    | c :: _ => .ok (String.singleton c)

def project? (pull : Pull) : Run (Option Project) := do
  let repository ← Column.text pull.repository
  let branch ← Column.text pull.branch
  Run.look fun s => s.projectOfBranch? repository branch

def owner? (pull : Pull) : Run (Option String) := do
  let repository ← Column.text pull.repository
  return (← Run.look fun s => s.projectOfRepository? repository).map Project.owner

/-- What is known about a pull request that was opened before anything is done. -/
structure Opened where
  pull : Pull
  owner : Json
  number : Json
  repository : HostedRepository
  /-- To whom the first project of the repository belongs. -/
  user : Option String
  /-- The project of the branch. -/
  known : Option Project

def find (payload : Json) : Run Opened := do
  let pull ← Pull.ofPayload payload
  let owner ← payload.keys ["pull_request", "head", "repo", "owner", "login"]
  let number ← payload.keys ["pull_request", "number"]
  let _ ← installation payload
  let repository ← Hosting.repository pull.repository
  let user ← owner? pull
  let known ← project? pull
  return ⟨pull, owner, number, repository, user, known⟩

namespace Opened

/-- The branch is set up. -/
def prepare (o : Opened) : Run Setup.Prepared := do
  let fullName ← o.pull.repository.asText "split"
  let user ← initial o.user
  Setup.hosted ⟨o.owner, .str (((Text.fields '/' fullName).getLast?).getD ""), o.pull.branch,
    .str user, ⟨.null⟩⟩ fullName o.repository

def conclude (o : Opened) (p : Setup.Prepared) : Run ProjectKey := do
  Analysis.analyse p.directory (Json.ofOption o.user) p.project
  Registry.setStatus p.project .ready
  return p.project

def again (o : Opened) (p : Project) : Run Unit := do
  let last ← Hosting.branchCommit o.repository o.pull.branch
  let status := Json.ofOption (p.status.map ProjectStatus.text)
  if ← Setup.isBehind last (.ok (Json.ofOption p.commit)) (.ok status) then
    throw (.noMember "dict" "directory")
  announce (.number p.id) o.pull o.number

end Opened

def opened (payload : Json) : Run Unit := do
  let o ← find payload
  match o.known with
  | none => o.prepare >>= fun p => o.conclude p >>= fun key => announce key o.pull o.number
  | some p => o.again p

def changed (payload : Json) : Run Unit := do
  let pull ← Pull.ofPayload payload
  let number ← payload.keys ["pull_request", "number"]
  let _ ← installation payload
  match ← project? pull with
  | none => throw (Json.notIndexed "NoneType")
  | some p => announce (.number p.id) pull number

end CodeAtlas.PullRequest
