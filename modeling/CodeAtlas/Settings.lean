import CodeAtlas.Failure

/-!
# Settings

What the named settings say about the services around: where tasks are queued, where usage is
recorded, where secrets are kept and which database holds the store. A setting that is left out has a
usual value, or none.
-/
namespace CodeAtlas

abbrev Settings := Table String String

namespace Settings

def valueOr (s : Settings) (name usual : String) : String := (Table.get? s name).getD usual

def both? (s : Settings) (a b : String) : Option (String × String) :=
  let x := valueOr s a ""
  let y := valueOr s b ""
  if x = "" ∨ y = "" then none else some (x, y)

/-! ## Tasks -/

structure TaskQueue where
  broker : String
  name : String
  /-- The queue of each task. -/
  routes : List (String × String)

def brokerNumber (s : Settings) : Except Failure Int :=
  match Table.get? s "REDISPORT" with
  | none => .ok 6379
  | some text =>
    match Integer.ofText? text with
    | some number => .ok number
    | none => .error (.invalid ("invalid literal for int() with base 10: " ++ Json.literalText text))

def taskQueue (s : Settings) : Except Failure TaskQueue := do
  let number ← brokerNumber s
  let place := valueOr s "REDISHOST" "localhost" ++ ":" ++ toString number ++ "/0"
  let broker := match both? s "REDISUSER" "REDISPASSWORD" with
    | some (user, password) => "redis://" ++ user ++ ":" ++ password ++ "@" ++ place
    | none => "redis://" ++ place
  return ⟨broker, "KnowledgeGraph",
    [("knowledgegraph.task.infer_flows", valueOr s "CELERY_QUEUE_NAME" "staging")]⟩

/-! ## Usage, secrets and hosting -/

structure UsageStore where
  database : String
  host : String
  /-- Is the connection checked against the usual authorities? -/
  certified : Bool

/-- The record of usage. Only services for others check the connection. -/
def usageStore (s : Settings) : UsageStore :=
  ⟨valueOr s "MONGO_DB_NAME" "test", valueOr s "MONGO_URI" "mongodb://localhost:27017",
   ["production", "staging"].contains (valueOr s "ENV" "development")⟩

def vault (s : Settings) : Bool × Option String :=
  if Table.get? s "isDevelopmentMode" = some "disabled" then (true, Table.get? s "GCP_PROJECT")
  else (false, none)

def usesHosting (s : Settings) : Bool := Table.get? s "isDevelopmentMode" != some "enabled"

/-! ## The database -/

def databaseLog (s : Settings) : List String :=
  "SUCCESS Database settings loaded successfully!" ::
    ["POSTGRES_SERVER", "POSTGRES_USER", "POSTGRES_PASSWORD", "POSTGRES_DB"].map fun name =>
      "INFO " ++ valueOr s name "None"

end Settings
end CodeAtlas
