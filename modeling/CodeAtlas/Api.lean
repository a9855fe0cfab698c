import CodeAtlas.Dependency.Detection
import CodeAtlas.Flow.BlastRadius
import CodeAtlas.Hosting.Service
import CodeAtlas.Json.Printer
import CodeAtlas.Plan.Generation
import CodeAtlas.Project.Registry
import CodeAtlas.User

/-!
# Requests

The requests that the service answers. Each but those about users names a project, and is answered only
to the user whose project it is.
-/
namespace CodeAtlas

/-!
## Replies

A request is answered with a value, with a refusal that is itself the answer, or with a text and a
status.
-/

/-- The answer to a request. -/
inductive Reply (α : Type) where
  | value (a : α)
  | refusal (status : Nat) (detail : String)
  | text (status : Nat) (body : String)

namespace Reply

def noProject {α : Type} : Reply α := .refusal 400 "Project Details not found."

def about {α : Type} (project : ProjectKey) (user : Json) (f : Project → Run α) :
    Run (Reply α) := do
  match ← Registry.projectOf? project user with
  | some p => return .value (← f p)
  | none => return noProject

def aboutOwned {α : Type} (project : ProjectKey) (user : Json) (f : Project → Run α) :
    Run α := do
  match ← Registry.projectOf? project user with
  | some p => f p
  | none => throw (.refuse 400 "Project Details not found.")

end Reply

/-! ## Requests about projects -/

namespace Api.Projects

def branches (repository : Json) : Run (List String) := do
  match ← Run.outcome (Hosting.installedRepository repository) with
  | .ok r => return r.branches.map Prod.fst
  | .error e =>
    throw (.refuse 404 ("Repository not found or error fetching branches: " ++ e.message))

def list (repository isDefault : Json) (user : Json) : Run (List Project) := do
  match ← Run.outcome (Registry.branches repository user isDefault) with
  | .ok found => return found
  | .error e => throw (.refuse 400 e.message)

def delete (project : ProjectKey) (user : Json) : Run (Reply Unit) := do
  match ← Run.outcome (Registry.delete project user) with
  | .ok _ =>
    return .text 200 ((Json.obj [("message", .str "Project deleted successfully."),
      ("id", project.given)]).render .compact)
  | .error e => throw (.refuse 500 e.message)

end Api.Projects

/-!
## Requests about entry points

Each request names a project, and is answered only to the user whose project it is.
-/

namespace Api.Endpoints

def list (project : ProjectKey) (user : Json) : Run (Reply EndpointsByFile) :=
  Reply.about project user fun p => do
    let found ← Run.look fun s => Endpoint.byFile s (.number p.id)
    Run.annotate "additional_data" (.obj [("number_of_endpoints", .int (EndpointsByFile.count found))])
    return found

def flow (project : ProjectKey) (identifier : Json) (user : Json) : Run (Reply (List CallTree)) :=
  Reply.about project user fun p => Flow.tree identifier (.number p.id)

/-- The functions that an entry point reaches. -/
def dependencies (project : ProjectKey) (identifier : Json) (user : Json) :
    Run (Reply (List String)) :=
  Reply.about project user fun p => Dependency.known identifier (.number p.id)

/-- The functions that an entry point reaches, and what the language model finds besides. -/
def moreDependencies (project : ProjectKey) (identifier : Json) (user : Json) :
    Run (Reply (List String)) :=
  Reply.about project user fun p => Dependency.all user identifier (.obj [("id", .int p.id)])

def node (project : ProjectKey) (identifier : Json) (user : Json) :
    Run (Reply (Option GraphNode)) :=
  Reply.about project user fun p => GraphService.node? identifier (.number p.id)

end Api.Endpoints

/-! ## Requests about plans and preferences -/

namespace Api.Plans

def set (form : Json) (user : Json) : Run (Reply Unit) :=
  Reply.about ⟨form.getD "project_id"⟩ user fun p =>
    Saved.setPlan (form.getD "identifier") (.str ((form.getD "plan").render .compact)) (.number p.id)

def plan (project : ProjectKey) (identifier : Json) (user : Json) : Run Json := do
  match ← Registry.projectOf? project user with
  | none => return .null
  | some p =>
    match ← Saved.plan identifier (.number p.id) with
    | .null => Planning.generate user identifier p.details .null
    | saved => return saved

def setPreferences (form : Json) (user : Json) : Run Unit :=
  Reply.aboutOwned ⟨form.getD "project_id"⟩ user fun p => do
    if form.getD "preference" = .str "" then throw (.refuse 400 "Configuration is empty")
    Saved.setPreferences (form.getD "identifier") (form.getD "preference") (.number p.id)

def preferences (project : ProjectKey) (identifier : Json) (user : Json) :
    Run Json :=
  Reply.aboutOwned project user fun p => Saved.preferences identifier (.number p.id)

end Api.Plans

/-! ## Requests about users -/

namespace Api.Users

def login (form : Json) : Run (Reply Unit) := do
  match ← Run.outcome (Identity.signIn (form.getD "email") (form.getD "password")) with
  | .ok answer =>
    return .text 200 ((Json.obj [("token", answer.getD "idToken")]).render .compact)
  | .error e =>
    return .text 400 ((Json.obj [("error", .str ("ERROR: " ++ e.message))]).render .compact)

def uidText (uid : Json) : String := (Json.obj [("uid", uid)]).render .spaced

/-- Notes about the request who signed up. -/
def annotate (body : Json) : Run Unit := do
  let uid ← body.key "uid"
  let email ← body.key "email"
  Run.annotate "user" (.obj [("user_id", uid), ("email", email)])
  let created ← body.key "createdAt"
  Run.annotate "additional_data" (.obj [("uid", uid), ("display_name", body.getD "displayName"),
    ("email_verified", (body.get? "emailVerified").getD (.bool false)), ("created_at", created),
    ("provider_data", body.getD "providerData")])

def newUser (body : Json) : Except Failure Json := do
  let uid ← body.key "uid"
  let email ← body.key "email"
  let name ← body.key "displayName"
  let verified ← body.key "emailVerified"
  let info ← (← body.key "providerData").position 0
  let provider ← body.key "providerUsername"
  Form.user.readMembers [("uid", uid), ("email", email), ("display_name", name),
    ("email_verified", verified), ("provider_info", info), ("provider_username", provider)]

/-- Takes in a new user, or notes that a user has come back. -/
def signUp (body : Json) : Run (Reply Unit) := do
  let uid ← body.key "uid"
  match ← Account.find uid with
  | some _ =>
    let o ← Account.noteLogin uid
    return if o.failed then .text 400 o.message else .text 200 (uidText uid)
  | none =>
    let (id, o) ← Account.create (← newUser body)
    annotate body
    return if o.failed then .text 400 o.message else .text 201 (uidText (.str id))

end Api.Users

end CodeAtlas
