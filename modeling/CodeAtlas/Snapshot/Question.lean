import CodeAtlas.Analysis.Directory
import CodeAtlas.Change.Detection
import CodeAtlas.Flow.BlastRadius
import CodeAtlas.Json.Access
import CodeAtlas.Project.Profile
import CodeAtlas.Schema.Live
import CodeAtlas.Schema.Script
import CodeAtlas.Snapshot.World

/-!
# Questions in JSON

Calls with their arguments, questions about one file, and migrations.
-/
namespace CodeAtlas

/-!
## Calls in JSON

A call gives its arguments in order, or by name. What it leaves out has a usual value; a call with too
few or too many arguments, or with a name that is not known, is refused.
-/

namespace Snapshot

def miscalled : Failure := .unfit "the arguments of the call do not fit"

/-- The arguments of a call in order. So many must be given; the usual values stand for those after
them that are left out. -/
def inSequence (given : Json) (least : Nat) (usual : List Json) : Except Failure (Nat → Json) := do
  let items ← given.elements
  if items.length < least || least + usual.length < items.length then throw miscalled
  let all := items ++ usual.drop (items.length - least)
  return fun i => all[i]?.getD .null

/-- The arguments of a call under names. Those in order come first; the others may follow by name, and
the usual values stand for those that are left out. -/
def byName (names : List String) (usual : List (String × Json)) (inOrder : List Json) (named : Json) :
    Except Failure (String → Json) := do
  let .obj members := named | throw miscalled
  let left := names.drop inOrder.length
  if names.length < inOrder.length || members.any fun (k, _) => !left.contains k then throw miscalled
  let given := names.zip inOrder ++ members
  if names.any fun k => !Table.has given k && !Table.has usual k then throw miscalled
  return fun k => (Table.get? given k).getD ((Table.get? usual k).getD .null)

end Snapshot

/-!
## Questions about one file

Each question is an object that describes a file, a tree, some paths or some patches, and is answered
in a world that holds nothing else. Where effects or a failure belong to the answer, `failure` says
how a failure is shown. The graph, the findings of an analysis and the effects are shown in JSON.
-/

namespace Snapshot

/-! ### The graph and its views in JSON -/

def ofNodeSet (n : GraphNode) : Json := .obj n.properties

/-- All nodes and edges in the order of their creation. -/
def graph (g : Graph) : Json :=
  .obj [("nodes", .arr (g.nodes.map fun n => .arr [n.project.given, n.id, .obj n.properties])),
        ("calls", .arr (g.calls.map fun e =>
          .arr [e.source.project.given, e.source.id, e.target.id, .obj e.properties])),
        ("extends", .arr (g.extensions.map fun e =>
          .arr [e.derived.project.given, e.derived.id, e.base.id]))]

def neighbours (named bodies : Bool) : List GraphNode → Json
  | [] => .arr []
  | n :: ns =>
    .arr (.obj n.properties :: ns.map fun m =>
      if bodies then
        .obj [("neighbor", .obj m.properties), ("body", (Table.get? m.properties "body").getD .null)]
      else if named then .obj [("neighbor", .obj m.properties)]
      else .obj m.properties)

def shownEndpoint (e : ShownEndpoint) : Json :=
  .obj [("entryPoint", Json.ofOption e.path), ("identifier", .str e.identifier)]

def endpointsByFile (t : EndpointsByFile) : Json :=
  .obj (t.map fun (f, es) =>
    (f, .arr ((es.mergeSort fun a b => decide (a.identifier ≤ b.identifier)).map shownEndpoint)))

/-- Texts in their order, or numbers in theirs. Other values cannot be put in order. -/
def inOrder (ids : List Json) : Except Failure (List Json) :=
  match ids.mapM Json.str?, ids.mapM Quantity.ofJson? with
  | some _, _ =>
    .ok (ids.mergeSort fun a b =>
      match a, b with
      | .str a, .str b => decide (a ≤ b)
      | _, _ => true)
  | _, some _ =>
    .ok (ids.mergeSort fun a b =>
      match Quantity.ofJson? a, Quantity.ofJson? b with
      | some a, some b => a.le b
      | _, _ => true)
  | _, _ =>
    if ids.length ≤ 1 then .ok ids else .error (.unfit "'<' not supported between instances")

/-! ### Findings of an analysis in JSON -/

def strs (l : List String) : Json := .arr (l.map .str)

/-- What was found in a file. -/
def survey (functions : List (String × Node)) (s : Survey) : List (String × Json) :=
  [("functions", .arr (functions.map fun (id, n) => .arr [.str id, ofNode n])),
   ("imports", .arr (s.imports.map fun i => .arr [.str i.module, Json.ofOption i.otherName])),
   ("instances", .arr (s.bindings.map fun (k, v) => .arr [.str k, Json.ofOption v])),
   ("classes", strs (s.classes.map ClassFound.name)),
   ("class_nodes", .arr (s.classes.map fun c => ofNode c.node)),
   ("routers", .arr (s.mounts.map fun m =>
     .obj [("router", .str m.router), ("prefix", Json.ofOption m.path), ("depends", strs m.depends)]))]

def signature (s : Signature) : Json :=
  .arr [Json.ofOption s.name, .arr (s.parameters.map Analysis.parameterJson), .int s.firstRow,
        .int s.lastRow, .str s.response]

def outline (o : Outline) : Json :=
  .arr [Json.ofOption o.name, strs o.parameters, .int o.firstRow, .int o.lastRow, .str o.text]

/-- The data classes of a program. -/
def models (found : ModelTable) : Json :=
  .arr (found.map fun (k, c) => .arr [.str k, .arr [.str c.file, .str c.text]])

/-!
### Effects in JSON

Each effect is a list that starts with its name.
-/

def message (m : Message) : Json := .arr [.str m.role, m.content]

def effectParts (failure : Failure → Json) : Effect → String × List Json
  | .nodeSet id p ps => ("upsert", [id, p.given, .obj ps])
  | .called a b p ps => ("calls", [a, b, p.given, ps])
  | .extended d b p => ("extends", [d, b, p.given])
  | .nodesDeleted p => ("delete_nodes", [p.given])
  | .queried t ps => ("query", [.str t, .obj ps])
  | .committed => ("commit", [])
  | .rolledBack => ("rollback", [])
  | .queued t ps => ("celery", [.str t, .obj ps])
  | .folderRemoved p => ("rmtree", [.str p])
  | .checkedOut b => ("checkout", [b])
  | .prompted m ms t => ("llm", [.str m, .arr (ms.map message), .str t])
  | .taskGiven d e => ("task", [.str d, .str e])
  | .agentGiven r g b => ("agent", [.str r, .str g, .str b])
  | .usageSaved r => ("mongo", [.obj r])
  | .posted u b => ("post", [.str u, b])
  | .commented t => ("issue_comment", [.str t])
  | .accountCreated f => ("firebase_create_user", [.obj f])
  | .identityStarted c => ("firebase_init", [c])
  | .documentSet p d => ("firestore_set", [.str p, d])
  | .documentUpdated p d => ("firestore_update", [.str p, d])
  | .documentDeleted p => ("firestore_delete", [.str p])
  | .secretCreated r => ("create_secret", [r])
  | .secretVersioned r => ("add_secret_version", [r])
  | .secretDeleted r => ("delete_secret", [r])
  | .reported w e p => ("posthog", [w, e, p])
  | .taskFailed e => ("task_failed", [failure e])
  | .requestNoted m => ("state", [.obj m])
  | .monitored a => ("sentry_init", [.obj a])
  | .asked t => ("prompt", [.str t])

def effect (failure : Failure → Json) (e : Effect) : Json :=
  let (name, parts) := effectParts failure e
  .arr (.str name :: parts)

/-! ### What a question says -/

def str (j : Json) (key : String) : String := text (j.getD key)

def str? (j : Json) (key : String) : Option String := (j.getD key).str?

def treeOf (j : Json) : Node := node (j.getD "tree")

def sourceOf (j : Json) : String := str j "source"

/-- The key of the project at hand, the first one unless it is said otherwise. -/
def projectOr1 (j : Json) : ProjectKey := ⟨(j.get? "project_id").getD (.int 1)⟩

def modelTable (j : Json) : ModelTable :=
  Table.ofPairs ((namedPairs j).map fun (k, v) =>
    (k, ⟨text (v.items[0]?.getD .null), text (v.items[1]?.getD .null)⟩))

/-- The patches of files; of a repeated name the last patch counts. -/
def patchTable (j : Json) : Table String (Option String) := Table.ofPairs (textsGiven j)

/-! ### Answers -/

def emptyWorld : World := bareWorld (.obj [])

def runIn {α : Type} (w : World) (r : Run α) : Except Failure α × World := r.run w

def effects (failure : Failure → Json) (w : World) : List Json := w.log.map (effect failure)

def orShown (failure : Failure → Json) : Except Failure Json → Json
  | .ok j => j
  | .error e => failure e

def pathPair (p : String × String) : Json := .arr [.str p.1, .str p.2]

def definitions (failure : Failure → Json) (j : Json) : Except Failure Json := do
  let directory := str j "directory"
  let path := str j "file_path"
  let s := Survey.ofTree (sourceOf j) (treeOf j)
  let (r, w) := runIn emptyWorld (Analysis.recordSurvey directory path (projectOr1 j) s)
  r
  let functions := Analysis.SurveyedFile.functions directory ⟨path, sourceOf j, s⟩
  return .obj (survey functions s ++ [("effects", .arr (effects failure w))])

def entryPoints (failure : Failure → Json) (j : Json) : Json :=
  let project := projectOr1 j
  let g := (namedPairs (j.getD "nodes")).foldl
    (fun g (id, ps) =>
      g.upsert project (.str id)
        (Table.set (Table.ofPairs (namedPairs ps)) "project_id" project.given)) Graph.empty
  let (r, w) := runIn { emptyWorld with graph := g }
    (Decorator.inTree (sourceOf j) (str j "directory") (str j "file_path") project (treeOf j))
  .obj [("endpoints", orShown failure (r.map fun es => .arr (es.map pathPair))),
        ("effects", .arr (effects failure w))]

def dataClasses (j : Json) : Except Failure Json := do
  return models (← ModelSearch.inTree (sourceOf j) (str j "file_path") (modelTable (j.getD "known"))
    (treeOf j))

def bases (failure : Failure → Json) (j : Json) : Json :=
  let models := modelTable (j.getD "classes")
  let project := ProjectKey.number 1
  let g := if (j.getD "nodes").isGiven then
      models.foldl (fun g (k, c) => g.upsert project (.str (Inheritance.classId c k)) []) Graph.empty
    else Graph.empty
  let (r, w) := runIn { emptyWorld with graph := g }
    (Inheritance.connect models project (3 - number j "iteration" 0).toNat (str j "key"))
  .obj [("returned", orShown failure (r.map Json.ofOption)), ("effects", .arr (effects failure w)),
        ("extends", (graph w.graph).getD "extends")]

/-- Where a name leads. -/
def target (j : Json) : Except Failure Json := do
  let f := if str j "how" == "class" then Resolve.classTarget else Resolve.functionTarget
  let t ← f (bareFiles (texts (j.getD "paths"))) (fileIndex (j.getD "index")) (str j "directory")
    (str j "file_path") (str j "name")
  return .arr [.str t.file, Json.ofOption t.name]

def connections (failure : Failure → Json) (j : Json) : Json :=
  let scope : Calls.Scope := ⟨str j "directory", str j "file_path", fileIndex (j.getD "index"),
    texts (j.getD "defined")⟩
  let w := { emptyWorld with files := bareFiles (texts (j.getD "paths")) }
  let (r, w) := runIn w (match str? j "called" with
    | some name => Calls.connect scope (.number 1) (str j "parent") name
    | none => Calls.connectFile (sourceOf j) scope (.number 1) [(str j "parent", treeOf j)])
  .arr (effects failure w ++ match r with
    | .ok _ => []
    | .error e => [failure e])

def changedFunctions (j : Json) : Except Failure Json := do
  let w := bareWorld j
  let given := (namedPairs (j.getD "trees")).map fun (k, v) => (k, node v)
  let w := { w with trees := Table.setAll w.trees given }
  let source :=
    if ((j.get? "local").getD (.bool true)).isGiven then Change.FileSource.disk
    else .hosted { HostedRepository.blank with files := Table.ofPairs (textPairs (j.getD "remote")) }
      (str j "repo_name")
  let r := (runIn w (Change.functions source (str j "repo_path") ((str? j "branch").getD "main")
    (patchTable (j.getD "patches")))).1
  return strs (← r)

def functionRows (j : Json) : Except Failure Json := do
  let path := str j "file_path"
  let w := { emptyWorld with
    files := (bareFiles []).write path (sourceOf j).toUTF8, trees := [(sourceOf j, treeOf j)] }
  let found ← (runIn w (Change.functionsOf .disk "" path)).1
  return .arr (found.map fun (k, r) => .arr [.str k, .arr [.int r.first, .int r.last]])

def changedLines (j : Json) : Except Failure Json := do
  let found ← ChangedLines.ofPatches (str j "repo_path") (patchTable (j.getD "patches"))
  return .arr (found.map fun (k, hs) =>
    .arr [.str k, .arr ((ChangedLines.lineNumbers hs).map .int)])

def systemOf (j : Json) : DownloadPath.System :=
  match (str? j "os_name").getD "posix" with
  | "posix" => .posix
  | "nt" => .windows
  | _ => .other

def downloadName (failure : Failure → Json) (j : Json) : Json :=
  .arr [orShown failure ((DownloadPath.pattern (systemOf j) (str j "repo") (str j "branch")).map .str),
        Json.ofOption (DownloadPath.inside? (systemOf j) (str j "repo") (str j "branch") (str j "path"))]

def below (j : Json) : Json :=
  let t : FileTree := .named (Table.ofPairs ((texts (j.getD "paths")).map fun p => (p, p.toUTF8))) []
  let d := str j "directory"
  let found := strs (t.sourcesWith d (str j "substring"))
  .obj [("substring", found), ("substring2", found), ("python", strs (t.sources d)),
        ("languages", .obj ((Profile.languagesBelow t d).map fun (k, n) => (k, .int n))),
        ("size", .int (t.sizeBelow d))]

end Snapshot

/-!
## Migrations in JSON

A migration is a list of commands, each with its argument. Scripts stand for themselves; all other
commands go to one database.
-/

namespace Snapshot

def sent (fault : Schema.Fault → Json) (lines : List String) : Except Schema.Fault Unit → Json
  | .ok _ => .obj [("sql", .arr (lines.map .str))]
  | .error e => .obj [("sql", .arr (lines.map .str)), ("error", fault e)]

def command (fault : Schema.Fault → Json) (l : Schema.Live) (name argument : String) :
    Json × Schema.Live :=
  let live (r : Schema.Live.Session Unit) : Json × Schema.Live :=
    let (end', l) := r.run { l with sent := [] }
    (sent fault l.sent end', l)
  let script (d : Schema.Direction) : Json × Schema.Live :=
    let (end', lines) := (Schema.Script.write d argument).run []
    (sent fault lines end', l)
  match name with
  | "sql_upgrade" => script .up
  | "sql_downgrade" => script .down
  | "upgrade" => live (Schema.Live.migrate .up argument)
  | "downgrade" => live (Schema.Live.migrate .down argument)
  | "stamp" => live (Schema.Live.stamp argument)
  | _ => live (Schema.Live.execute argument)

def migration (fault : Schema.Fault → Json) (commands : List (String × String)) : Json :=
  let (shown, _) := commands.foldl
    (fun (shown, l) (name, argument) => let (j, l) := command fault l name argument; (shown ++ [j], l))
    ([], Schema.Live.empty)
  .arr shown

end Snapshot

end CodeAtlas
