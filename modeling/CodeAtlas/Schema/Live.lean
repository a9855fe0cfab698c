import CodeAtlas.Schema.Target
import CodeAtlas.Sql.Execution

/-!
# A database that is changed at once

A statement about the shape of tables takes effect when it is sent, so what was done before a fault stands,
and the version is that of the last step that was finished. From the first change of rows on, a step takes
effect as a whole (`asOne`). The versions that are recorded are the rows of a table of the database, and
other statements may change them too.
-/
namespace CodeAtlas.Schema

/-- A database, with the statements that were sent to it. -/
structure Live where
  database : Sql.Database
  sent : List String
  /-- The database before the first change of rows of the step that is being taken. -/
  before : Option Sql.Database

namespace Live

def empty : Live := ⟨.empty, [], none⟩

/-- Something that changes a database and may end early. -/
abbrev Session := ExceptT Fault (StateM Live)

def sendText (text : String) (parameter : Option Sql.Value) : Session Nat := do
  let line := Text.collapse text
  let reads := ["select", "pragma"].any fun w => Text.startsWith w (Sql.folded line)
  modify fun l => if reads then l else { l with sent := l.sent ++ [line] }
  match (← get).database.execute text parameter with
  | .ok ⟨database, changed⟩ =>
    modify fun l => { l with database }
    return changed
  | .error cause => throw (.refused cause)

def send (s : Statement) : Session Nat :=
  match s with
  | .addConstraint _ _ | .dropConstraint _ _ => throw .unsupported
  | s => do
    if s.changesRows then modify fun l => { l with before := l.before.or (some l.database) }
    sendText (s.text .sqlite) (some (.whole 0))

/-- Takes a step. If it fails, the database is as it was before its first change of rows. -/
def asOne {α : Type} (s : Session α) : Session α := do
  modify fun l => { l with before := none }
  tryCatch s fun cause => do
    modify fun l => { l with database := l.before.getD l.database }
    throw cause

/-! ## Recorded versions -/

def recording? : Session Bool := do return (← get).database.holds versionTable

def readingOrder (d : Sql.Database) : Option (Sql.Collation × Bool) := do
  let t ← d.table? versionTable
  if t.columns.length ≤ 1 || t.keyless then none
  (d.indexesOf versionTable).findSome? fun i =>
    match i.condition, i.terms with
    | none, [x] =>
      if x.e.name?.any (Sql.sameName versionColumn) then
        let own := (t.column? versionColumn).map Sql.StoredColumn.collation
        some ((x.collation.or own).getD .binary, x.falling)
      else none
    | _, _ => none

def recordedValues : Session (List Sql.Value) := do
  let d := (← get).database
  let column := Sql.Expr.column none (some versionTable) versionColumn
  let q := Sql.Query.select false [.one column none ""] (some (.table none versionTable none none)) none [] none []
  match (Sql.Binder.ofDatabase d).query q with
  | .error cause => throw (.refused cause)
  | .ok (plan, _) =>
    let plan := match readingOrder d with
      | some (c, falling) => .sorted plan [⟨0, c, falling, !falling⟩] 1 none none
      | none => plan
    match (Sql.Env.ofDatabase d none).rows plan with
    | .ok rows => return rows.filterMap List.head?
    | .error (.fault cause) => throw (.refused cause)
    | .error .ignored => return []

/-- The versions that are recorded. What is neither a text nor nothing is no version. -/
def recorded : Session (List String) := do
  if !(← recording?) then return []
  let values ← recordedValues
  values.filterMapM fun
    | .text s => return some s
    | .null => return none
    | _ => throw .unreachable

/-- The versions that are recorded. If there are none, their table is made unless it is there. -/
def present : Session (List String) := do
  let names ← recorded
  if names.isEmpty && !(← recording?) then
    let _ ← send (.createTable versionShape)
  return names

def sendForOne (s : Statement) : Session Unit := do
  if (← send s) != 1 then throw .unreachable

def insertVersion (heads : List String) (new : String) : Session (List String) := do
  if heads.contains new then throw .contradictory
  let _ ← send (.insertVersion new)
  return heads ++ [new]

def deleteVersion (heads : List String) (old : String) : Session (List String) := do
  if !heads.contains old then throw .unrecorded
  sendForOne (.deleteVersion old)
  return heads.filter (· != old)

/-- Records a version in the place of another. -/
def updateVersion (heads : List String) (old new : String) : Session (List String) := do
  if heads.contains new then throw .contradictory
  if !heads.contains old then throw .unrecorded
  sendForOne (.updateVersion old new)
  return heads.map fun h => if h = old then new else h

/-! ## Migrations -/

def change : Change → Session Unit
  | .run s => do let _ ← send s
  | .ensure t => do
    if !(← get).database.tables.any (·.name == t.name) then
      let _ ← send (.createTable t)
  | .dropNameless _ => throw .unsupported

def record (heads : List String) (s : Step) : Session (List String) := do
  let some own := idOf? s.version | return heads
  match s.direction, idOf? (s.version - 1) with
  | .up, some before =>
    if heads.contains before then updateVersion heads before own else insertVersion heads own
  | .up, none => insertVersion heads own
  | .down, none => if heads.contains own then deleteVersion heads own else throw .contradictory
  | .down, some before =>
    let others := ((allNamed (heads.filter (· != own))).toOption).getD []
    if heads.contains own && s.version ≤ highest others + 1 then deleteVersion heads own
    else updateVersion heads own before

def step (heads : List String) (s : Step) : Session (List String) := asOne do
  s.changes.forM change
  record heads s

/-- Migrates to a version. Only a script takes two versions. -/
def migrate (d : Direction) (argument : String) : Session Unit := do
  if argument.toList.contains ':' then throw .unreachable
  let heads ← present
  let _ ← (← way d heads argument).foldlM step heads.eraseDups

/-! ## Recording without a migration -/

/-- The version to record: a name or, if none is recorded yet, a number of steps down from the last.
More steps than there are versions lead to none at all. -/
def stampGoal (present : List Nat) (argument : String) : Except Fault (Option Nat) := do
  unless present.isEmpty do checkRelated argument
  match fromLast? argument with
  | some (.version n) => return some n
  | some .bottom => throw .nowhere
  | some _ => return none
  | none =>
    let n ← absoluteGoal argument
    return if n = 0 then none else some n

/-- Records a version in the place of several others: all go but the last, which it replaces. -/
def mergeVersions (heads : List String) (old : List String) (new : String) : Session Unit := do
  match old.reverse with
  | [] => let _ ← insertVersion heads new
  | last :: more =>
    let heads ← more.reverse.foldlM deleteVersion heads
    let _ ← updateVersion heads last new

/-- Records a version without a migration. Those that are recorded have to lie all above it or all
below. -/
def stamp (argument : String) : Session Unit := do
  let names ← present
  let versions := (← allNamed names).eraseDups
  let heads := names.eraseDups
  let old := versions.filterMap idOf?
  match ← stampGoal versions argument with
  | none => let _ ← old.foldlM (fun heads v => asOne (deleteVersion heads v)) heads
  | some goal =>
    let some new := idOf? goal | return
    if versions.contains goal then return
    let above := versions.any (goal < ·)
    if above && versions.any (· < goal) then throw .contradictory
    if !above && old.any (!heads.contains ·) then
      let _ ← asOne (insertVersion heads new)
    else asOne (mergeVersions heads old new)

/-- Carries out a typed statement. -/
def execute (text : String) : Session Unit := do
  let _ ← sendText text none

end Live
end CodeAtlas.Schema
