import CodeAtlas.Secrets

/-!
# Asking the language model

There are two models: a quick one that explains code, and one that reasons, whose name is a setting.
-/

/-!
## Clients of the language model

In development mode the service talks to the model with its own key. Otherwise it goes through a
gateway that is told who asks, with the key that the user keeps, if there is one.
-/
namespace CodeAtlas.Client

def keyFor (user : Json) : Run (Option String) := do
  let own ← Run.setting? "OPENAI_API_KEY"
  if ← Run.inDevelopment then return own
  match ← Documents.get? Secrets.preferences user with
  | none => return own
  | some preference =>
    if preference.getD "provider" = .str Secrets.provider then
      return some (← Secrets.key (.str Secrets.provider) user)
    else return own

def gateway : String := "http://portkey"

def arguments (provider key model user : Json) : Run (Option (List (String × Json))) := do
  if provider != .str Secrets.provider then return none
  let direct := [("api_key", key), ("model", model)]
  if ← Run.inDevelopment then return some direct
  let portKey ← Run.setting? "PORTKEY_API_KEY"
  let environment ← Run.setting? "ENV"
  let headers : List (String × Json) :=
    [("api_key", Json.ofOption portKey), ("provider", .str Secrets.provider),
     ("metadata", .obj [("_user", user), ("environment", Json.ofOption environment)])]
  return some (direct ++ [("base_url", .str gateway), ("default_headers", .obj headers)])

end CodeAtlas.Client

/-! ## Questions and replies -/
namespace CodeAtlas

/-- Someone to ask, by the name of the model that reasons. -/
structure Assistant where
  reasoning : String

namespace Assistant

def quick : String := "gpt-3.5-turbo-0125"

def ofUser (user : Json) : Run Assistant := do
  let _ ← Client.keyFor user
  match ← Run.setting? "OPENAI_MODEL_REASONING" with
  | some model => return ⟨model⟩
  | none => throw (.missingKey (.str "OPENAI_MODEL_REASONING"))

/-- How freely the model answers, unless it is said otherwise. -/
def usualTemperature : String := "0.4"

def ask (model : String) (messages : List Message) (temperature : String) : Run String := do
  Run.note (.prompted model messages temperature)
  match (← get).replies with
  | [] => throw (.outOfRange "list")
  | reply :: rest =>
    modify fun w => { w with replies := rest }
    return reply

def askQuick (messages : List Message) : Run String := ask quick messages usualTemperature

def askReasoning (a : Assistant) (messages : List Message) : Run String :=
  ask a.reasoning messages usualTemperature

end Assistant
end CodeAtlas
