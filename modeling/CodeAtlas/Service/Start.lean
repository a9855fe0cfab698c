import CodeAtlas.Service.Answer
import CodeAtlas.Settings
import CodeAtlas.User

/-!
# Starting the service

Development mode is only for development. In production the service is monitored and its answers are
watched. A folder for projects is made, and settings that are needed and left out are asked for.
-/
namespace CodeAtlas.Service

/-- Something that answers pass through. -/
inductive Layer where
  /-- Pages of other origins may read the answer. -/
  | sharing
  /-- The answer is reported. -/
  | telemetry
  deriving DecidableEq, Repr

structure Started where
  /-- What answers pass through, outermost first. -/
  layers : List Layer
  reporting : Option (Option String × String)

def inProduction : Run Bool := return (← Run.setting? "ENV") == some "production"

def monitoring (address : Option String) : List (String × Json) :=
  let whole : Json := .real (Binary64.ofInt 1)
  [("dsn", Json.ofOption address), ("traces_sample_rate", whole), ("profiles_sample_rate", whole),
   ("enable_tracing", .bool true),
   ("integrations", .arr [.obj [("level", .int 30), ("event_level", .int 30)]])]

def required : List String := ["OPENAI_API_KEY", "OPENAI_MODEL_REASONING"]

def ask : List String → List String → Run Unit
  | [], _ => return ()
  | name :: names, typed => do
    if (← Run.setting? name).isSome then ask names typed
    else
      Run.note (.asked ("Enter value for " ++ name ++ ": "))
      match typed with
      | [] => throw .inputExhausted
      | line :: rest =>
        modify fun w => { w with settings := Table.set w.settings name line }
        ask names rest

def start (folder : String) (typed : List String) : Run Started := do
  let developing ← Run.inDevelopment
  if developing ∧ (← Run.setting? "ENV") ≠ some "development" then
    throw (.invalid "isDevelopmentMode is enabled but ENV is not development")
  let watching ← inProduction
  if watching then Run.note (.monitored (monitoring (← Run.setting? "SENTRY_DSN")))
  if developing then Account.createDummy else Identity.start
  modify fun w => { w with files := w.files.makeFolder folder,
                           settings := Table.set w.settings "PROJECT_PATH" folder }
  ask required typed
  let key ← Run.setting? "POSTHOG_PROJECT_KEY"
  let host := (← Run.setting? "POSTHOG_HOST").getD "https://us.i.posthog.com"
  return { layers := if watching then [.sharing, .telemetry] else [.sharing]
           reporting := if watching then some (key, host) else none }

def Started.answers (s : Started) (requests : List Request) : Run (List Answer) :=
  requests.mapM (answer (s.layers.contains .telemetry))

end CodeAtlas.Service
