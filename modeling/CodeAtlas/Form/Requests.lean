import CodeAtlas.Form.Basic

/-!
# The forms of requests
-/
namespace CodeAtlas

/-! ## Keys of the language model's provider -/

namespace ApiKey

def isKeyChar (c : Char) : Bool := c.isAlpha || c.isDigit

/-- Forty-eight letters and digits, and perhaps one line end. -/
def isBody (s : List Char) : Bool :=
  let body := if s.getLast? = some '\n' then s.dropLast else s
  body.length == 48 && body.all isKeyChar

def isValid (key : String) : Bool :=
  ["sk-", "sk-proj-"].any fun beginning =>
    (Chars.after? beginning.toList key.toList).any isBody

end ApiKey

namespace Form

private def required (name : String) (shape : Shape) : Field := (name, .required, shape)

/-! ## Repositories -/

private def repositoryFields : List Field :=
  [("repo_name", .orNull, .text), ("repo_path", .orNull, .text), required "branch_name" .text]

private def isNamed (v : Json) : Except Failure Unit :=
  if (v.getD "repo_name").isGiven || (v.getD "repo_path").isGiven then .ok ()
  else .error (.invalid "Either repo_name or repo_path must be provided.")

def repository : Form := ⟨repositoryFields, isNamed⟩

def endpoint : Form := ⟨repositoryFields ++ [required "endpoint_id" .text], isNamed⟩

/-- A function of a branch. -/
def node : Form := ⟨repositoryFields ++ [required "node_id" .text], isNamed⟩

def comparison : Form :=
  ⟨repositoryFields ++ [("base_branch", .usual (.str "main"), .text)], isNamed⟩

/-! ## Plans -/

def planFields : List Field := [required "happy_path" .texts, required "edge_case" .texts]

def plan : Form := ofFields planFields

def planDetails : Form :=
  ofFields [required "plan" (.form planFields), required "project_id" .integer,
            required "identifier" .text]

def preference : Form :=
  ofFields [required "preference" .text, required "identifier" .text,
            required "project_id" .integer]

def planRequest : Form := ofFields [required "identifier" .text]

def testRequest : Form :=
  ofFields [required "identifier" .text, required "endpoint_path" .text,
            required "project_id" .integer]

/-! ## Users -/

def credentials : Form := ofFields [required "username" .text, required "password" .text]

def account : Form :=
  ofFields [required "email" .text, required "password" .text, required "full_name" .text]

def login : Form := ofFields [required "email" .text, required "password" .text]

def user : Form :=
  ofFields [required "uid" .text, required "email" .text, required "display_name" .text,
            required "email_verified" .truth, required "provider_info" .record,
            required "provider_username" .text]

def secret : Form :=
  ofFields [required "api_key" (.checked ApiKey.isValid),
            ("provider", .usual (.str "openai"), .constant "openai")]

end Form
end CodeAtlas
