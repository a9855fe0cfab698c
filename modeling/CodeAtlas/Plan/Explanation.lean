import CodeAtlas.Assistant.Chat
import CodeAtlas.Code.Reader
import CodeAtlas.Digest.Sha256
import CodeAtlas.Plan.Prompt

/-!
# Explanations of functions

An explanation is kept with the hash of the code it was given for, so that the language model is not
asked twice about the same code. An explanation that was given for another project is kept once more
for the project at hand.
-/
namespace CodeAtlas

inductive CodeSource where
  | hosted
  | cloned
  deriving DecidableEq

namespace CodeSource

def code? : CodeSource → List (String × Json) → Run (Option String)
  | hosted, node => Code.hosted node
  | cloned, node => Code.cloned node

def code (s : CodeSource) (node : List (String × Json)) : Run String := do
  match ← s.code? node with
  | some c => return c
  | none => throw (.unfit "can only concatenate str (not \"NoneType\") to str")

def ofUser (user : Json) : Run CodeSource := do
  return if (← Run.inDevelopment) && (← Run.isDefaultUser user) then cloned else hosted

end CodeSource

namespace Explaining

def ask (code : Json) : Run String :=
  Assistant.askQuick [.system Plan.Prompt.explainer, .human (Plan.Prompt.explain code.display)]

/-- The name of a function in a text that tells about it. -/
def nameOf : Json → Except Failure String
  | .str name => .ok name
  | v => .error (.unfit s!"can only concatenate str (not \"{v.kindName}\") to str")

def keep (identifier hash text : String) (project : ProjectKey) : Run Unit := do
  let _ ← Run.alterWith fun s => s.createExplanation
    (.obj [("identifier", .str identifier), ("hash", .str hash), ("explanation", .str text),
      ("project_id", project.given)])

def explain (source : CodeSource) (identifier : String) (node : List (String × Json))
    (project : ProjectKey) : Run String := do
  let hash := Sha256.hex (← source.code node)
  match ← Run.look fun s => s.explanation? (some identifier) (some hash) with
  | some e =>
    if !e.project.toJson.same project.given then keep identifier hash e.explanation project
    return e.explanation
  | none =>
    let text ← ask (.str (← source.code node))
    keep identifier hash text project
    return text

end Explaining
end CodeAtlas
