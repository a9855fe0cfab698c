import CodeAtlas.Form.Requests
import CodeAtlas.Text.Encoding
import CodeAtlas.World

/-!
# Users

The users of the service: their accounts, how they show who they are, and how much they may use.
-/
namespace CodeAtlas

/-! ## Users of the service -/

namespace Account

/-- What came of a change to a user: the message, and whether it failed. -/
structure Outcome where
  message : String
  failed : Bool

/-- The user with an identifier; nothing also if none can have it. -/
def find (uid : Json) : Run (Option User) := do
  match Column.text uid with
  | .ok name => Run.look fun s => s.user? name
  | .error _ => return none

/-- Notes that a user has come back. -/
def noteLogin (uid : Json) : Run Outcome := do
  match Column.text uid with
  | .error _ => return ⟨"Error updating last login time", true⟩
  | .ok name =>
    match ← Run.look fun s => s.user? name with
    | none => return ⟨"User not found", true⟩
    | some u =>
      if (← get).store.readOnly then return ⟨"Error updating last login time", true⟩
      return ⟨"Updated last login time for user with ID: " ++ u.uid, false⟩

def create (form : Json) : Run (String × Outcome) := do
  match ← Run.outcome (Run.alterWith fun s => s.createUser form) with
  | .ok u => return (u.uid, ⟨"User created with ID: " ++ u.uid, false⟩)
  | .error _ => return ("", ⟨"error creating user", true⟩)

def dummyForm (name : String) : Json :=
  .obj [("uid", .str name), ("email", .str (name ++ "@momentum.sh")),
        ("display_name", .str "Dummy User"), ("email_verified", .bool true),
        ("provider_info", .obj []), ("provider_username", .str "self")]

/-- Makes the user of development mode. -/
def createDummy : Run Unit := do
  match ← Run.setting? "defaultUsername" with
  | none => throw (.unfit "unsupported operand type(s) for +: 'NoneType' and 'str'")
  | some name =>
    let _ ← create (dummyForm name)
    return ()

def idByEmail (email : Json) : Run (Option String) := do
  let email ← Column.text email
  return (← Run.look fun s => s.userByEmail? email).map User.uid

def idByName (name : Json) : Run (Option (String × String)) := do
  let name ← Column.text name
  return (← Run.look fun s => s.userByName? name).map fun u => (u.uid, u.email)

end Account

/-!
## Who someone is

The identity service knows accounts by email and password, and knows for whom a token stands.
-/

namespace Identity

def verify (token : Json) : Run Json := do
  match ← Json.find? (← get).tokens token with
  | some user => return user
  | none => throw (.general "bad token")

def userOf (token : Json) : Run Json := do
  match (← Run.outcome (verify token)).bind fun user => user.key "user_id" with
  | .ok id => return id
  | .error _ => throw (.general "User not authorised")

/-! ### Requests with a token -/

/-- Who sent a request, and what the answer says about it. -/
structure Admission where
  user : Json
  headers : List (String × String)

private def challenge (text : String) : List (String × String) := [("WWW-Authenticate", text)]

private def realm : List (String × String) := challenge "Bearer realm=\"auth_required\""

/-- Who sent a request with a token or, in development mode, without one. -/
def admission (token : Json) : Run Admission := do
  match token with
  | .null =>
    if ← Run.inDevelopment then
      return ⟨.obj [("user_id", Json.ofOption (← Run.setting? "defaultUsername"))], []⟩
    else throw (.refused 401 "Bearer authentication is needed" realm)
  | token =>
    match ← Run.outcome (verify token) with
    | .ok user => return ⟨user, realm⟩
    | .error e =>
      throw (.refused 401 ("Invalid authentication from Firebase. " ++ e.message)
        (challenge "Bearer error=\"invalid_token\""))

/-! ### Accounts -/

def signInUrl (key : Option String) : String :=
  "https://identitytoolkit.googleapis.com/v1/accounts:signInWithPassword?key=" ++ key.getD "None"

def passwordOf (w : World) (email : Json) : Except Failure Json :=
  return (← Json.find? w.passwords email).getD .null

def tokenOf : Json → Except Failure String
  | .str email => .ok ("id-" ++ email)
  | v => .error (.unfit s!"can only concatenate str (not \"{v.kindName}\") to str")

def signIn (email password : Json) : Run Json := do
  let url := signInUrl (← Run.setting? "GOOGLE_IDENTITY_TOOL_KIT_KEY")
  Run.note (.posted url (.obj [("email", email), ("password", password),
    ("returnSecureToken", .bool true)]))
  if (← passwordOf (← get) email).same password then
    return .obj [("idToken", .str (← tokenOf email))]
  else throw (.general (Json.obj [("error", .str "INVALID_LOGIN_CREDENTIALS")]).literal)

def register (email password name : Json) : Run String := do
  Run.note (.accountCreated [("email", email), ("password", password), ("display_name", name)])
  return "new-uid"

/-! ### Starting -/

def credentialFile : String := "/cwd/firebase_service_account.json"

def credential? (text : String) : Option Json := do
  let bytes ← Base64.decode? text
  Json.ofText? (← (Utf8.decode bytes).toOption)

def start : Run Unit := do
  let held := (← Run.setting? "FIREBASE_SERVICE_ACCOUNT").filter (· != "")
  Run.note (.identityStarted ((held.bind credential?).getD (.str credentialFile)))

end Identity

/-!
## Usage

How many tests were generated for a user in the last thirty days. A user with a subscription may
generate more of them. If the record of usage fails, or holds something that cannot be added up,
nothing was used; and nothing is noted if it fails.
-/

namespace Usage

def window : Int := 30

def count (user : Json) : Run Quantity := do
  let w ← get
  if w.usageFails then return .whole 0
  let recent := w.usage.filter fun r => r.user.same user && r.daysAgo.atMost window
  return (Quantity.sum? (recent.map UsageRecord.tests)).getD (.whole 0)

def isPro (user : Json) : Run Bool :=
  return (← Json.find? (← get).subscriptions user) = some (.str "PRO")

/-- How many tests may be generated. -/
def limit (isPro : Bool) : Int := if isPro then 200 else 50

/-- A note of usage. -/
structure Entry where
  project : Json
  user : Json
  tests : Json
  repository : Json
  branch : Json

def save (e : Entry) : Run Unit := do
  if (← get).usageFails then return ()
  Run.note (.usageSaved [("project_id", e.project), ("user_id", e.user),
    ("number_of_tests_generated", e.tests), ("repo_name", e.repository),
    ("branch_name", e.branch)])
  modify fun w => { w with usage := w.usage ++ [⟨e.user, e.tests, .whole 0⟩] }

end Usage

end CodeAtlas
