import CodeAtlas.Index
import CodeAtlas.World

/-!
# Worlds in JSON

A world can be loaded from a JSON object. Each of its members describes one part; what is left out is
empty or has the usual value.
-/

/-!
## Syntax trees in JSON

A tree is written as `[kind, start, stop]` or `[kind, start, stop, children]`.
-/
namespace CodeAtlas.Snapshot

def position (j : Json) : Nat := (j.int?.getD 0).toNat

mutual

/-- The tree that a value describes. -/
def node : Json → Node
  | .arr (kind :: a :: b :: rest) => .mk (kind.str?.getD "") (position a) (position b) (childNodes rest)
  | _ => .mk "" 0 0 []

/-- The children, given as the first of some values. -/
def childNodes : List Json → List Node
  | .arr children :: _ => nodes children
  | _ => []

def nodes : List Json → List Node
  | [] => []
  | j :: js => node j :: nodes js

end

def ofNode (n : Node) : Json := .arr [.str n.kind, .int n.start, .int n.stop]

mutual

/-- The source texts with trees inside a value: its objects that have both, at any depth. Trees
belong to texts whose lines end in a line feed. -/
def treesIn : Json → List (String × Node)
  | .arr items => treesInItems items
  | .obj members =>
    match Table.get? members "source", Table.get? members "tree" with
    | some (.str source), some (.arr tree) =>
      [(String.ofList (Lines.unify source.toList), node (.arr tree))]
    | _, _ => treesInMembers members
  | _ => []

def treesInItems : List Json → List (String × Node)
  | [] => []
  | j :: js => treesIn j ++ treesInItems js

def treesInMembers : List (String × Json) → List (String × Node)
  | [] => []
  | (_, j) :: js => treesIn j ++ treesInMembers js

end

end CodeAtlas.Snapshot

/-! ## Worlds -/
namespace CodeAtlas.Snapshot

/-! ## Values -/

def text (j : Json) : String := j.str?.getD ""

def texts (j : Json) : List String := j.items.map text

def number (j : Json) (key : String) (usual : Int) : Int := (j.getD key).int?.getD usual

def pairs (j : Json) : List (Json × Json) :=
  j.items.filterMap fun
    | .arr (a :: b :: _) => some (a, b)
    | _ => none

def namedPairs (j : Json) : List (String × Json) := (pairs j).map fun (a, b) => (text a, b)

def textPairs (j : Json) : List (String × String) := (pairs j).map fun (a, b) => (text a, text b)

def textsGiven (j : Json) : List (String × Option String) :=
  (pairs j).map fun (a, b) => (text a, b.str?)

def textMembers (j : Json) : Table String String := j.members.map fun (k, v) => (k, text v)

/-! ## Files -/

/-- The bytes that pairs of hexadecimal digits give. -/
def bytesOfHex : List Char → List UInt8
  | a :: b :: rest =>
    let value (c : Char) : Nat :=
      if c.isDigit then c.toNat - 48 else if 'a' ≤ c ∧ c ≤ 'f' then c.toNat - 87 else c.toNat - 55
    (value a * 16 + value b).toUInt8 :: bytesOfHex rest
  | _ => []

/-- The content of a file: a text, an object with a source, or one with hexadecimal digits. -/
def content : Json → ByteArray
  | .str s => s.toUTF8
  | j =>
    match j.get? "source" with
    | some s => (text s).toUTF8
    | none => ⟨(bytesOfHex (text (j.getD "hex")).toList).toArray⟩

def fileBytes : Json → Except Failure ByteArray
  | .str s => .ok s.toUTF8
  | j =>
    match j.get? "hex" with
    | some _ => .ok (content j)
    | none => do return (← (← j.key "source").asText "encode").toUTF8

def files (j : Json) : FileTree :=
  .named (Table.ofPairs ((namedPairs j).map fun (p, c) => (p, content c))) []

def bareFiles (paths : List String) : FileTree :=
  .named (Table.ofPairs (paths.map fun p => (p, ByteArray.empty))) []

/-! ## Repositories -/

def changedFile : Json → Option ChangedFile
  | .arr [name, patch, additions, deletions] =>
    some ⟨text name, patch, additions, deletions⟩
  | _ => none

def comparison (j : Json) : Comparison :=
  ⟨(j.get? "total_commits").getD (.int 0), (j.getD "files").items.filterMap changedFile⟩

def hostedRepository (j : Json) : HostedRepository :=
  let usual := HostedRepository.blank
  let given (key : String) (value : Json) : Json := (j.get? key).getD value
  { defaultBranch := given "default_branch" usual.defaultBranch
    size := given "size" usual.size
    description := given "description" usual.description
    createdAt := usual.createdAt
    updatedAt := usual.updatedAt
    stars := given "stars" usual.stars
    forks := usual.forks
    watchers := usual.watchers
    openIssues := usual.openIssues
    branches := textMembers (j.getD "branches")
    files := Table.ofPairs (textPairs (j.getD "files"))
    languages := match j.get? "languages" with
      | some l => .ok (Table.ofPairs ((namedPairs l).map fun (k, v) => (k, v.int?.getD 0)))
      | none => usual.languages
    commits := (usual.commits).map (given "commits")
    contributors := usual.contributors
    topics := (usual.topics).map (given "topics")
    pulls := textMembers (j.getD "pulls")
    comparisons := (j.getD "compare").members.map fun (k, v) => (k, comparison v)
    archiveStatus := (j.getD "tarball_status").int?.filter (· ≠ 0)
    archiveDamaged := (j.getD "bad_tarball").isGiven
    hidden := (j.getD "hidden").isGiven }

def clone (j : Json) : Clone :=
  { heads := textMembers (j.getD "heads")
    head := (j.getD "head").str?.getD "main"
    commits := (j.getD "commits").members.map fun (k, v) => (k, .ok (v.int?.getD 0))
    branchFiles := (j.getD "trees").members.map fun (k, v) =>
      (k, Table.ofPairs ((textPairs v).map fun (p, s) => (p, s.toUTF8)))
    conflicts := texts (j.getD "conflicts")
    unreadable := texts (j.getD "unreadable") }

/-! ## The graph -/

def lineageRow (j : Json) : LineageRow :=
  ⟨j.getD "internal_id", (j.getD "node").members, j.getD "root_class_name"⟩

/-- What the next request to the graph service meets. -/
def troubles (j : Json) : List (Option GraphTrouble) :=
  match j with
  | .str "unavailable" => [some .down]
  | .str "neo4j" => [some .rejected]
  | .str "integrity" => [some .constraint]
  | .str _ => [some .other]
  | _ => []

/-! ## The file index -/

def importEntry : Json → Option Import
  | .arr (module :: other :: _) => some ⟨text module, other.str?⟩
  | _ => none

def fileEntry (j : Json) : FileEntry :=
  { imports := (j.getD "imports").items.filterMap importEntry
    instances := Table.ofPairs ((namedPairs (j.getD "instances")).map fun (k, v) => (k, v.str?))
    classes := texts (j.getD "classes")
    functions := texts (j.getD "functions") }

def fileIndex (j : Json) : FileIndex :=
  Table.ofPairs ((namedPairs j).map fun (p, e) => (p, fileEntry e))

/-! ## The world -/

def usualSettings : Table String String :=
  [("isDevelopmentMode", "enabled"), ("ENV", "development"), ("defaultUsername", "localdev"),
   ("OPENAI_API_KEY", "sk-env"), ("OPENAI_MODEL_REASONING", "gpt-4"),
   ("GITHUB_BOT_NAME", "momentum-bot"), ("PORTKEY_API_KEY", "pk"), ("PROJECT_PATH", "/projects"),
   ("KNOWLEDGE_GRAPH_URL", "http://kg/query"), ("GOOGLE_IDENTITY_TOOL_KIT_KEY", "gk"),
   ("CELERY_QUEUE_NAME", "q"), ("MONGO_URI", "mongodb://x"), ("GCP_PROJECT", "proj"),
   ("POSTGRES_SERVER", "sqlite://")]

def settings (given leftOut : Json) : Table String String :=
  (texts leftOut).foldl Table.erase (Table.setAll usualSettings (textMembers given))

def usageRecord (j : Json) : UsageRecord :=
  ⟨j.getD "user_id", (j.get? "number_of_tests_generated").getD (.int 0),
   (Quantity.ofJson? (j.getD "days_ago")).getD (.whole 0)⟩

/-- The world that an object describes, with an empty store. -/
def bareWorld (j : Json) : World :=
  { settings := settings (j.getD "env") (j.getD "unset")
    files := files (j.getD "files")
    unwritable := texts ((j.getD "denied").getD "write")
    unremovable := texts ((j.getD "denied").getD "remove")
    trees := Table.ofPairs (treesIn (.obj (Table.erase j.members "steps")))
    graph := Graph.empty
    troubles := []
    lineage := []
    tracing := (j.getD "log_queries").isGiven
    store := Store.empty
    deletesJoined := j.getD "sqlalchemy" == .int 2
    hosted := Table.ofPairs ((namedPairs (j.getD "github")).map fun (k, v) => (k, hostedRepository v))
    accounts := textMembers (j.getD "github_users")
    clones := Table.ofPairs ((namedPairs (j.getD "git")).map fun (k, v) => (k, clone v))
    replies := texts (j.getD "llm")
    crewReply := text (j.getD "crew")
    documents := (j.getD "firestore").members
    secrets := textMembers (j.getD "secrets")
    tokens := (j.getD "tokens").members
    passwords := (j.getD "logins").members
    knowledge := j.getD "kg"
    usage := (j.getD "tests").items.map usageRecord
    subscriptions := (j.getD "plans").members
    usageFails := (j.getD "mongo_fail").isGiven
    requestNotes := []
    log := [] }

def namedUser (uid : Json) : Json :=
  .obj [("uid", uid), ("email", .str (uid.display ++ "@x.io")),
        ("provider_username", .str (uid.display ++ "-gh"))]

def fill (s : Store) (users projects : List Json) : Except Failure Store := do
  let s ← users.foldlM (fun s u => return (← s.createUser (namedUser u)).2) s
  projects.foldlM (fun s p => return (← s.createProject p).2) s

/-- The world that an object describes; there is none if a row breaks a rule of its table. -/
def world (j : Json) : Except Failure World := do
  let w := bareWorld j
  return { w with store := ← fill w.store (j.getD "users").items (j.getD "projects").items }

end CodeAtlas.Snapshot
