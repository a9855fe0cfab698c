import CodeAtlas.Graph.Basic
import CodeAtlas.Json.Printer

/-!
# Effects

What an operation does to the services around it, noted in order.
-/
namespace CodeAtlas

/-- A message to or from a language model. It says a text as a rule; whatever is passed on as a message is
kept as it is. -/
structure Message where
  role : String
  content : Json

namespace Message

/-- A rule for the conversation. -/
def system (text : String) : Message := ⟨"system", .str text⟩

def human (text : String) : Message := ⟨"human", .str text⟩

/-- Something that was answered. -/
def assistant (text : String) : Message := ⟨"ai", .str text⟩

def sentLine (m : Message) : String := "[" ++ m.role ++ "]\n" ++ m.content.display

def receivedLines (m : Message) : List String := ["[" ++ m.role ++ "]\n", m.content.display]

end Message

/-- Something done to a service. -/
inductive Effect where
  | nodeSet (id : Json) (project : ProjectKey) (properties : List (String × Json))
  | called (source target : Json) (project : ProjectKey) (properties : Json)
  | extended (derived base : Json) (project : ProjectKey)
  | nodesDeleted (project : ProjectKey)
  | queried (text : String) (parameters : List (String × Json))
  | committed
  | rolledBack
  | queued (task : String) (arguments : List (String × Json))
  | folderRemoved (path : String)
  | checkedOut (branch : Json)
  | prompted (model : String) (messages : List Message) (temperature : String)
  | taskGiven (description expected : String)
  | agentGiven (role goal backstory : String)
  | usageSaved (record : List (String × Json))
  | posted (url : String) (body : Json)
  | commented (text : String)
  | accountCreated (fields : List (String × Json))
  | identityStarted (credential : Json)
  | documentSet (path : String) (data : Json)
  | documentUpdated (path : String) (data : Json)
  | documentDeleted (path : String)
  | secretCreated (request : Json)
  | secretVersioned (request : Json)
  | secretDeleted (request : Json)
  | reported (who event : Json) (properties : Json)
  | taskFailed (cause : Failure)
  | requestNoted (members : List (String × Json))
  | monitored (arguments : List (String × Json))
  | asked (text : String)

end CodeAtlas
