import CodeAtlas.World

/-!
# The hosting service

The application reaches a repository through its installation there: `owner/name` must be known to
the service, and open to the application.
-/
namespace CodeAtlas.Hosting

def ownerAndName (fullName : Json) : Except Failure (String × String) := do
  match Text.fields '/' (← fullName.asText "split") with
  | owner :: name :: _ => return (owner, name)
  | _ => throw (.outOfRange "list")

def isInstalled (fullName : Json) : Run Bool := do
  let (owner, name) ← ownerAndName fullName
  return Table.has (← get).hosted (owner ++ "/" ++ name)

def repository (fullName : Json) : Run HostedRepository := do
  match ← Json.find? (← get).hosted fullName with
  | some r => if r.hidden then throw (.unknownObject "Not Found") else return r
  | none => throw (.unknownObject "Not Found")

def notInstalled : Failure := .refuse 400 "Failed to get installation ID"

def installedRepository (fullName : Json) : Run HostedRepository := do
  if ← isInstalled fullName then repository fullName else throw notInstalled

def fileText (r : HostedRepository) (path : String) : Except Failure String :=
  match r.file? path with
  | some s => .ok s
  | none => .error (.unknownObject "Not Found")

def branchCommit (r : HostedRepository) (branch : Json) : Except Failure String := do
  match ← Json.find? r.branches branch with
  | some sha => return sha
  | none => throw (.unknownObject "Branch not found")

/-- How two branches differ. -/
def compare (r : HostedRepository) (base head : Json) : Except Failure Comparison :=
  let name := HostedRepository.comparisonName base.display head.display
  match Table.get? r.comparisons name with
  | some c => .ok c
  | none => .error (.missingKey (.str name))

def pullBranch (r : HostedRepository) (number : String) : Except Failure String :=
  match Table.get? r.pulls number with
  | some branch => .ok branch
  | none => .error (.unknownObject "Not Found")

def comment (fullName number text : Json) : Run Unit := do
  let (owner, name) ← ownerAndName fullName
  Run.note (.posted
    ("https://api.github.com/repos/" ++ owner ++ "/" ++ name ++ "/issues/" ++ number.display ++
      "/comments")
    (.obj [("body", text)]))

end CodeAtlas.Hosting
