import CodeAtlas.Change.Detection
import CodeAtlas.Change.Patch
import CodeAtlas.Flow.BlastRadius
import CodeAtlas.Project.Intake

/-!
# The impact of a branch

What a branch changes, compared with another one: the number of commits and lines, and the entry
points that the changed functions can be reached from. For the default user's projects the branches
are compared in the clone, for all others at the hosting service.
-/
namespace CodeAtlas.Impact

/-- What is compared. -/
structure Request where
  project : ProjectKey
  base : Json
  user : Json

/-- How a file differs between two branches. -/
inductive Difference where
  | changed (patch : String)
  | removed (lines : Nat)
  | added (lines : Nat)

namespace Difference

def text (bytes : ByteArray) : Except Failure String :=
  match Utf8.decode bytes with
  | .ok s => .ok s
  | .error f => .error (.undecodable f)

def ofFiles : Option ByteArray → Option ByteArray → Except Failure Difference
  | some old, some new => return .changed (Patch.between (← text old) (← text new))
  | some old, none => return .removed (Patch.split (← text old)).size
  | none, new => return .added (Patch.split (← text (new.getD .empty))).size

def lines : Difference → Nat
  | .changed patch => Patch.marked '+' patch + Patch.marked '-' patch
  | .removed n => n
  | .added n => n

def patch? : Difference → Option String
  | .changed patch => some patch
  | _ => none

end Difference

def differing (old new : Table String ByteArray) : List String :=
  ((old.keys ++ new.keys).mergeSort (· ≤ ·)).eraseDups.filter fun p => old.get? p != new.get? p

/-- How files differ, up to the first one that cannot be read, and why it cannot. -/
def differences (old new : Table String ByteArray) :
    List String → List (String × Difference) × Option Failure
  | [] => ([], none)
  | p :: ps =>
    match Difference.ofFiles (old.get? p) (new.get? p) with
    | .error e => ([], some e)
    | .ok d => let (ds, cause) := differences old new ps; ((p, d) :: ds, cause)

/-- Notes the size of a change with the request. -/
def annotate (commits lines : Json) : Run Unit :=
  Run.annotate "additional_data" (.obj [("added_commits", commits), ("lines_impacted", lines)])

/-- The patches that a comparison gathered, and why it ended early. -/
structure Gathered where
  patches : List (String × Option String)
  cause : Option Failure

namespace Gathered

/-- What there is after a comparison; one that does not come to its files gathers nothing. -/
def ofOutcome : Except Failure Gathered → Gathered
  | .ok g => g
  | .error e => ⟨[], some e⟩

end Gathered

def clonedPatches (folder : String) (base branch : Json) : Run Gathered := do
  let clone ← Clone.inFolder (.str folder)
  let old ← clone.filesOf base
  let new ← clone.filesOf branch
  let commits ← clone.commitCount (base.display ++ ".." ++ branch.display)
  let (found, cause) := differences old new (differing old new)
  if cause.isNone then
    annotate (.int commits) (.int (found.foldl (fun n d => n + d.2.lines) 0 : Nat))
  return ⟨found.filterMap fun (p, d) => d.patch?.map fun patch => (p, some patch), cause⟩

def notSummed : Failure := .unfit "unsupported operand type(s) for +"

def hostedPatches (repository : HostedRepository) (base branch : Json) : Run Gathered := do
  let c ← Hosting.compare repository base branch
  let some additions := Quantity.sum? (c.files.map ChangedFile.additions) | throw notSummed
  let some deletions := Quantity.sum? (c.files.map ChangedFile.deletions) | throw notSummed
  annotate c.commits (additions.add deletions).toJson
  let given := (c.files.filter fun f => f.patch.isGiven).map fun f => (f.name, f.patch.str?)
  return ⟨Table.ofPairs given, none⟩

/-- A value, or another one if there is none. -/
def orElse {α : Type} (usual : α) (r : Run α) : Run α := do
  match ← Run.outcome r with
  | .ok a => return a
  | .error _ => return usual

def reached (source : Change.FileSource) (project : Project)
    (patches : List (String × Option String)) : Run (Option EndpointsByFile) := do
  let branch := Json.ofOption project.branch
  let changed ← match project.directory with
    | some d => orElse [] (Change.functions source d branch.display patches)
    | none => pure []
  if changed.isEmpty then return none
  else return some (← BlastRadius.endpoints (changed.map .str) (.number project.id))

def hostedRepository (fullName : Option String) : Run (String × HostedRepository) := do
  match fullName with
  | none => throw (.noMember "NoneType" "split")
  | some fullName =>
    if !(← Hosting.isInstalled (.str fullName)) then throw (.missingKey (.str "id"))
    match ← Run.outcome (Hosting.repository (.str fullName)) with
    | .ok r => return ((Text.fields '/' fullName).getLast?.getD "", r)
    | .error _ => throw (.refuse 400 "Repository not found")

def localFolder? (project : Project) (user : Json) : Run (Option String) := do
  match project.directory.filter (· != "") with
  | some d =>
    if (← Run.isDefaultUser user) && (← get).files.contains d then return some d else return none
  | none => return none

/-- A repository whose branches can be compared. -/
inductive Opened where
  | cloned (folder : String)
  | hosted (repository : HostedRepository) (name : String)

namespace Opened

def source : Opened → Change.FileSource
  | .cloned _ => .disk
  | .hosted repository name => .hosted repository name

def compare (o : Opened) (base branch : Json) : Run Gathered :=
  match o with
  | .cloned folder => clonedPatches folder base branch
  | .hosted repository _ => hostedPatches repository base branch

end Opened

def openFor (project : Project) (user : Json) : Run Opened := do
  match ← localFolder? project user with
  | some folder =>
    Intake.switchTo folder (Json.ofOption project.branch)
    return .cloned folder
  | none =>
    let (name, repository) ← hostedRepository project.repository
    return .hosted repository name

/-- The entry points that a project's branch changes, compared with another one. The patches of a
comparison that ended early are followed like those of any other. -/
def run (r : Request) : Run (Option EndpointsByFile) := do
  match ← Registry.projectOf? r.project r.user with
  | none => throw (.refuse 400 "Project Details not found.")
  | some project =>
    let repository ← openFor project r.user
    let outcome ← Run.outcome (repository.compare r.base (Json.ofOption project.branch))
    reached repository.source project (Gathered.ofOutcome outcome).patches

end CodeAtlas.Impact
