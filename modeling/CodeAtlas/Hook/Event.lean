import CodeAtlas.Api
import CodeAtlas.Hook.Comment
import CodeAtlas.Hook.PullRequest
import CodeAtlas.Project.Intake
import CodeAtlas.User

/-!
# Events of the hosting service

What is done when the application is installed or commits are pushed, and what is done with any event.
-/
namespace CodeAtlas

/-!
## Installations

When the application is installed for repositories, their default branches are taken in for the user
who did so. When commits are pushed to a branch that has a project, the project is cleared.
-/

namespace Installation

def listedIn (action : Json) : Except Failure (Option String) :=
  Json.find? [("added", "repositories_added"), ("created", "repositories"),
    ("removed", "repositories_removed")] action

/-- The identifier and the email of the user who sent a message. -/
def sender (payload : Json) : Run (String × String) := do
  let _ ← payload.keys ["installation", "id"]
  let account ← payload.keys ["sender", "id"]
  match Table.get? (← get).accounts account.display with
  | none => throw (.missingKey (.str account.display))
  | some login =>
    match ← Account.idByName (.str login) with
    | some user => return user
    | none => throw (Json.notIndexed "NoneType")

def takeIn (user : String) (item : Json) : Run (Option (String × Json)) := do
  let name ← item.key "full_name"
  let hosted ← Hosting.repository name
  let form ← Form.repository.readMembers
    [("repo_name", .str name.display), ("branch_name", hosted.defaultBranch)]
  let branch := form.getD "branch_name"
  let known ← Registry.lookUp name .null branch (.str user)
  match known.project with
  | some _ => Intake.fault ⟨.null⟩ (Json.notIndexed "Project")
  | none =>
    let fullName := name.display
    let owner := Text.before '/' fullName
    let request : Setup.Request :=
      ⟨.str owner, .str known.repository, branch, .str user, ⟨.null⟩⟩
    match ← Run.outcome (Setup.hosted request fullName hosted) with
    | .error e => Intake.fault request.project e
    | .ok p =>
      match ← Run.outcome (Intake.analyse p request.user "") with
      | .error e => Intake.fault p.project e
      | .ok _ =>
        if !p.isSupported then return none
        match Intake.hostedSize hosted with
        | .error e => Intake.fault p.project e
        | .ok size =>
          return some (known.repository, .obj [("repository_name", .str known.repository),
            ("branch_name", branch), ("project_id", p.project.given), ("size", size),
            ("new_project", .bool true)])

/-- Takes in repositories, one after the other, and notes them about the request. -/
def takeInAll (user : String) (noted : List (String × Json)) : List Json → Run Unit
  | [] => return ()
  | item :: rest => do
    match ← takeIn user item with
    | none => takeInAll user noted rest
    | some (name, about) =>
      let noted := Table.set noted name about
      Run.annotate "additional_data" (.obj noted)
      takeInAll user noted rest

/-- Commits were pushed to a branch: its project is cleared. What follows asks the project for its
number in a way that it does not answer. -/
def pushed (user : String) (payload : Json) : Run Unit := do
  let fullName ← payload.keys ["repository", "full_name"]
  let branch ←
    match ← payload.key "ref" with
    | .str ref => pure (((Text.fields '/' ref).getLast?).getD "")
    | v => throw (.noMember v.kindName "split")
  let form ← Form.repository.readMembers [("repo_name", fullName), ("branch_name", .str branch)]
  let _ ← Hosting.repository fullName
  match (← Registry.lookUp (form.getD "repo_name") .null (.str branch) (.str user)).project with
  | none => return ()
  | some p =>
    Setup.clear (Json.ofOption p.directory) (.number p.id) (.str user)
    throw (Json.notIndexed "Project")

/-- The application was installed or removed, or commits were pushed. -/
def changed (payload : Json) : Run Unit := do
  let action ← payload.key "action"
  let listed ← listedIn action
  let installs := (payload.get? "installation").isSome &&
    (action = .str "added" || action = .str "created")
  let commits := (payload.get? "commits").isSome
  if installs || commits then
    let (user, email) ← sender payload
    Run.annotate "user" (.obj [("user_id", .str user), ("email", .str email)])
    Run.annotate "additional_data" (.obj [])
    match listed.bind payload.get? with
    | some repositories => takeInAll user [] (← repositories.elements)
    | none => if commits && (payload.get? "head_commit").isSome then pushed user payload

end Installation

/-!
## Events of the hosting service

The hosting service tells what happens to repositories. A message is answered at once; the work goes
on in the background, where a failure is only noted.
-/

namespace Hook

def background (work : Run Unit) : Run Unit := do
  match ← Run.outcome work with
  | .ok _ => return ()
  | .error e => Run.note (.taskFailed e)

def pullRequest (action payload : Json) : Run Unit :=
  match action with
  | .str "opened" => PullRequest.opened payload
  | .str "synchronize" | .str "reopened" => PullRequest.changed payload
  | _ => return ()

def handle (event payload : Json) : Run Unit := do
  let action ← payload.lookUp "action"
  match event with
  | .str "issue_comment" => PlanRequest.commented payload
  | .str "pull_request" => pullRequest action payload
  | .str "create" | .str "push" => return ()
  | _ => background (Installation.changed payload)

def receive (event payload : Json) : Run (Reply Unit) := do
  background (handle event payload)
  return .text 200 ""

end Hook

end CodeAtlas
