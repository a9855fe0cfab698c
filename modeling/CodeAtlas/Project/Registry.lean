import CodeAtlas.Project.Folder

/-!
# The register of projects

Projects are registered for a user when a branch is first analysed, and looked up, marked as deleted
and restored on behalf of users.
-/
namespace CodeAtlas.Registry

/-- What a new project is registered with: values of its columns. -/
structure Registration where
  directory : Json
  name : Json
  repository : Json
  branch : Json
  user : Json
  commit : Json
  isDefault : Json
  /-- What is known about the repository. -/
  metadata : Json

def Registration.columns (r : Registration) : Json :=
  .obj [("directory", r.directory), ("project_name", r.name), ("repo_name", r.repository),
        ("branch_name", r.branch), ("user_id", r.user), ("commit_id", r.commit),
        ("is_default", r.isDefault), ("properties", r.metadata)]

/-- Sets columns of a project. The answer says whether there is one. -/
def change (id : ProjectKey) (changes : List Change) : Run Bool := do
  let cell ← id.cell
  Run.alterWith fun s => s.updateProject cell changes

def register (r : Registration) (id : ProjectKey) : Run ProjectKey := do
  if id.given.isGiven then
    let _ ← change id [("commit_id", r.commit)]
    return id
  else
    let p ← Run.alterWith fun s => s.createProject r.columns
    return .number p.id

def setStatus (id : ProjectKey) (status : ProjectStatus) : Run Unit := do
  let _ ← change id [("status", .str status.text)]

def statusOf (v : Json) : Except Failure ProjectStatus :=
  match v.str?.bind ProjectStatus.ofText? with
  | some p => .ok p
  | none => .error (.invalid (v.literal ++ " is not a valid ProjectStatusEnum"))

def mark (deleted : Bool) (id : ProjectKey) (user : Json) : Run Bool :=
  change id [("is_deleted", .bool deleted), ("user_id", user)]

def projectOf? (id : ProjectKey) (user : Json) : Run (Option Project) := do
  let id ← id.cell
  let user ← Column.text user
  Run.look fun s => s.projectOf? id user

def project? (id : ProjectKey) : Run (Option Project) := do
  let id ← id.cell
  Run.look fun s => s.project? id

def removeLocalFolder (id : ProjectKey) (user : Json) : Run Unit := do
  if (← Run.inDevelopment) && (← Run.isDefaultUser user) then
    match ← projectOf? id user with
    | none => throw (.unfit "'NoneType' object is not subscriptable")
    | some p =>
      match p.directory with
      | none =>
        throw (.unfit "stat: path should be string, bytes, os.PathLike or integer, not NoneType")
      | some d => if (← get).files.contains d then Folder.remove d

def delete (id : ProjectKey) (user : Json) : Run Unit := do
  let work : Run Unit := do
    if ← mark true id user then removeLocalFolder id user
    else throw (.refuse 404 "No matching project found or project is already deleted.")
  match ← Run.outcome work with
  | .ok _ => return ()
  | .error e => throw (.refuse 500 ("An error occurred while deleting the project: " ++ e.message))

def restore (id : ProjectKey) (user : Json) : Run String := do
  match ← Run.outcome (mark false id user) with
  | .ok true => return s!"Project with ID {id.given.display} restored successfully."
  | .ok false => return "Project not found or already restored."
  | .error _ => return "Error occurred during restoration."

def markAll (deleted : Bool) (ids : List Int) : Run Unit :=
  ids.forM fun id => do
    let _ ← change (.number id) [("is_deleted", .bool deleted)]

/-! ## Projects by their columns -/

/-- A condition on a column, as a statement shows it. Only truth values and nothing stand in the statement
itself; other values are handed over with it. -/
def condition (column : String) : Json → String
  | .null => s!"projects.{column} IS NULL"
  | .bool true => s!"projects.{column} = 1"
  | .bool false => s!"projects.{column} = 0"
  | _ => s!"projects.{column} = ?"

def statement (conditions : List Change) : String :=
  let shown := Project.columns.map fun c => s!"projects.{c.name} AS projects_{c.name}"
  let required := conditions.map fun c => condition c.1 c.2
  "SELECT " ++ ", ".intercalate shown ++ " \nFROM projects \nWHERE " ++ " AND ".intercalate required

def truthOf (conditions : List Change) (v : Json) : Except Failure (Option Bool) :=
  if ColumnKind.truth.takes false v then .ok (Column.truth v)
  else .error (.columnRefused (ColumnKind.truthRefusal v ++ "\n[SQL: " ++ statement conditions ++
    "]\n[parameters: [\x7b\x7d]]"))

def projectsFor (repository user deleted : Json) : Run (List Project) := do
  let deleted ← truthOf [("repo_name", repository), ("user_id", user), ("is_deleted", deleted)] deleted
  let repository ← Column.text repository
  let user ← Column.text user
  Run.look fun s => s.projectsFor repository user deleted

/-- Marks the projects of a repository that are not marked so yet. -/
def markFound (deleted : Bool) (done doing : String) (repository user : Json) : Run String := do
  let work : Run (List Int) := do
    let ids := (← projectsFor repository user (.bool !deleted)).map Project.id
    markAll deleted ids
    return ids
  match ← Run.outcome work with
  | .ok [] => return s!"Projects not found or already {done}."
  | .ok _ => return s!"Projects with repo_name {repository.display} {done} successfully."
  | .error _ => return s!"Error occurred during {doing}."

def restoreAll : Json → Json → Run String := markFound false "restored" "restoration"

def deleteAll : Json → Json → Run String := markFound true "deleted" "deletion"

def branches (repository user isDefault : Json) : Run (List Project) := do
  let conditions := ("user_id", user) ::
    [("is_default", isDefault), ("repo_name", repository)].filter fun c => c.2 != .null
  let preferred ← truthOf conditions isDefault
  let owner ← Column.text user
  let name ← Column.text repository
  let projects ← Run.look fun s => s.projectsOf owner
  return projects.filter fun p =>
    (isDefault = .null || p.isDefault = preferred) && (repository = .null || p.repository = name)

def shortName (repository path : Json) : Except Failure String := do
  if repository.isGiven then
    return (Text.fields '/' (← repository.asText "split")).getLast?.getD ""
  else return Path.base (← path.asPath)

def projectName (repository branch : Json) : String := repository.display ++ "-" ++ branch.display

structure BranchProject where
  repository : String
  branch : Json
  project : Option Project

def projectNamed? (name : String) (user : Json) : Run (Option Project) := do
  let user ← Column.text user
  Run.look fun s => s.projectNamed? (some name) user

def lookUp (repository path branch user : Json) : Run BranchProject := do
  let name ← shortName repository path
  return ⟨name, branch, ← projectNamed? (projectName (.str name) branch) user⟩

end CodeAtlas.Registry
