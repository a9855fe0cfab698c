import CodeAtlas.Decimal.Quantity
import CodeAtlas.Json.Printer
import CodeAtlas.Store.Basic

/-!
# Values and rows in JSON

How values and the rows of the store are shown.
-/
namespace CodeAtlas

/-!
## Values with their kinds

JSON has one kind of number. To keep numbers with a fraction apart from whole ones they are shown as
objects with their text.
-/

namespace Snapshot

mutual

/-- A value in which every number with a fraction is shown as an object. -/
def exact : Json → Json
  | .real x => .obj [("$float", .str x.text)]
  | .arr items => .arr (exactItems items)
  | .obj members => .obj (exactMembers members)
  | j => j

def exactItems : List Json → List Json
  | [] => []
  | x :: xs => exact x :: exactItems xs

def exactMembers : List (String × Json) → List (String × Json)
  | [] => []
  | (k, x) :: xs => (k, exact x) :: exactMembers xs

end

end Snapshot

/-!
## Rows in JSON

Rows are shown with the names of their columns. The times at which they were made and changed are
left out, except where a row is shown in full with the rows that belong to it.
-/

namespace Snapshot

def ofTruth : Option Bool → Json
  | some b => .bool b
  | none => .null

def ofBytes : Option String → Json
  | some s => .obj [("$bytes", .str s)]
  | none => .null

def time : Json := .str "$time"

def ofUser (u : User) : List (String × Json) :=
  [("uid", .str u.uid), ("email", .str u.email), ("display_name", Json.ofOption u.displayName),
   ("email_verified", ofTruth u.emailVerified), ("provider_info", u.providerInfo),
   ("provider_username", Json.ofOption u.providerUsername)]

def ofProject (p : Project) : List (String × Json) :=
  [("id", .int p.id), ("directory", Json.ofOption p.directory), ("is_default", ofTruth p.isDefault),
   ("project_name", Json.ofOption p.name), ("properties", ofBytes p.properties),
   ("repo_name", Json.ofOption p.repository), ("branch_name", Json.ofOption p.branch),
   ("user_id", .str p.owner), ("commit_id", Json.ofOption p.commit),
   ("is_deleted", ofTruth p.isDeleted),
   ("status", Json.ofOption (p.status.map ProjectStatus.text))]

def ofEndpoint (e : Endpoint) : List (String × Json) :=
  [("path", Json.ofOption e.path), ("identifier", .str e.identifier),
   ("test_plan", Json.ofOption e.plan), ("preferences", Json.ofOption e.preferences),
   ("project_id", e.project.toJson)]

def ofExplanation (e : Explanation) : List (String × Json) :=
  [("id", .int e.id), ("identifier", .str e.identifier), ("hash", .str e.hash),
   ("explanation", .str e.explanation), ("project_id", e.project.toJson)]

def ofModel (m : ModelClass) : List (String × Json) :=
  [("filepath", .str m.file), ("classname", .str m.name), ("definition", Json.ofOption m.definition),
   ("project_id", m.project.toJson)]

/-- Values in the order of their texts with sorted keys, in which numbers keep their kinds. -/
def sorted (js : List Json) : List Json :=
  let key (j : Json) : String := (exact j).sortKeys.render .spaced
  js.mergeSort fun a b => decide (key a ≤ key b)

/-- All tables. -/
def dump (s : Store) : Json :=
  .obj [("users", .arr (sorted (s.users.map fun u => .obj (ofUser u)))),
        ("projects", .arr (sorted (s.projects.map fun p => .obj (ofProject p)))),
        ("endpoints", .arr (sorted (s.endpoints.map fun e => .obj (ofEndpoint e)))),
        ("explanation", .arr (sorted (s.explanations.map fun e => .obj (ofExplanation e)))),
        ("pydantic", .arr (sorted (s.models.map fun m => .obj (ofModel m)))),
        ("inference", .arr [])]

end Snapshot

/-!
## Rows with the rows that belong to them

A row can be shown together with the rows it is related to, down to a number of levels; below these
there is null.
-/

namespace Snapshot

def userColumns (u : User) : List (String × Json) :=
  ofUser u ++ [("created_at", time), ("last_login_at", time)]

def projectColumns (p : Project) : List (String × Json) :=
  ofProject p ++ [("created_at", time), ("updated_at", time)]

mutual

def fullUser (s : Store) : Nat → User → Json
  | 0, _ => .null
  | n + 1, u =>
    .obj (userColumns u ++
      [("projects", .arr ((s.projectsOf (some u.uid)).map (fullProject s n)))])

def fullProject (s : Store) : Nat → Project → Json
  | 0, _ => .null
  | n + 1, p =>
    .obj (projectColumns p ++
      ((s.user? (some p.owner)).map fun u => ("user", fullUser s n u)).toList ++
      [("endpoints", .arr ((s.endpointsOf (.number p.id)).map fun e =>
          fullPart s n (ofEndpoint e) e.project)),
       ("explanation", .arr ((s.explanationsOf (.number p.id)).map fun e =>
          fullPart s n (ofExplanation e) e.project)),
       ("pydantic", .arr ((s.modelsOf (.number p.id)).map fun m => fullPart s n (ofModel m) m.project)),
       ("inferences", .arr [])])

def fullPart (s : Store) : Nat → List (String × Json) → Cell → Json
  | 0, _, _ => .null
  | n + 1, columns, project =>
    .obj (columns ++
      ((s.project? project).map fun p => ("project", fullProject s n p)).toList)

end

/-- How many levels are shown from a depth down to a greatest depth. -/
def levels (greatest current : Json) : Except Failure Nat :=
  match Quantity.ofJson? greatest, Quantity.ofJson? current with
  | some g, some c => .ok (g.floor - c.ceiling + 1).toNat
  | _, _ => .error (.unfit
      s!"'>' not supported between instances of '{current.kindName}' and '{greatest.kindName}'")

def hasRelated (s : Store) (p : Project) : Bool :=
  (s.user? (some p.owner)).isSome || !(s.endpointsOf (.number p.id)).isEmpty ||
    !(s.explanationsOf (.number p.id)).isEmpty || !(s.modelsOf (.number p.id)).isEmpty

def deepest : Nat := 300

def projectTo (s : Store) (levels : Nat) (p : Project) : Except Failure Json :=
  if levels ≤ deepest then .ok (fullProject s levels p)
  else if hasRelated s p then .error .tooDeep
  else .ok (fullProject s 1 p)

/-- A value down to a number of levels: the project with a number, or the value as it is. A project
that is apart from its store is shown without related rows. -/
def valueTo (s : Store) (apart : Bool) (greatest current : Json) : Json → Except Failure Json
  | .null => .ok .null
  | v =>
    match Quantity.ofJson? v with
    | some (.whole id) => do
      match s.project? (← Cell.ofJson (.int id)) with
      | none => return .null
      | some p =>
        let n ← levels greatest current
        if apart && n > 0 then return .obj (projectColumns p) else projectTo s n p
    | _ => do return if (← levels greatest current) > 0 then v else .null

end Snapshot

end CodeAtlas
