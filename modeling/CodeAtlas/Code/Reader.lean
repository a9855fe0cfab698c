import CodeAtlas.Hosting.Service

/-!
# The code of a node

A node of the graph names a file of its project and the rows of a definition. `Code.hosted` reads
these rows from the hosting service, `Code.cloned` from a clone. Whatever goes wrong, the answer is
then nothing.

Rows are cut as `Code.rows` says: from the row before `start`, so that rows counted from zero begin
one row early, up to `stop`. A negative position counts from the end.
-/
namespace CodeAtlas.Code

/-- The place that a position names in a list of a given length; negative ones count from the end. -/
def place (length : Nat) (i : Int) : Nat :=
  if i < 0 then (length + i).toNat else min i.toNat length

def rows (lines : List String) (start stop : Int) : List String :=
  let a := place lines.length (start - 1)
  let b := place lines.length stop
  (lines.drop a).take (b - a)

def linesOf (text : String) : List String :=
  ((Text.fields '\n' text).dropLast.map (· ++ "\n")) ++
    ((Text.fields '\n' text).getLast?.toList.filter (· != ""))

structure Location where
  project : Json
  path : String
  start : Json
  stop : Json

def rowNumber? : Json → Option Int
  | .int n => some n
  | .bool b => some (if b then 1 else 0)
  | _ => none

def Location.cut (l : Location) (lines : List String) : Except Failure (List String) := do
  let some start := rowNumber? l.start | throw (.unfit "unsupported operand type(s) for -")
  if l.stop = .null then return rows lines start lines.length
  let some stop := rowNumber? l.stop | throw (.unfit "slice indices must be integers")
  return rows lines start stop

def locate (node : List (String × Json)) : Except Failure Location := do
  let some project := Table.get? node "project_id" | throw (.missingKey (.str "project_id"))
  let some id := Table.get? node "id" | throw (.missingKey (.str "id"))
  let some start := Table.get? node "start" | throw (.missingKey (.str "start"))
  let some stop := Table.get? node "end" | throw (.missingKey (.str "end"))
  let some id := id.str? | throw (.noMember "int" "split")
  return ⟨project, Text.trimLeft '/' (Text.before ':' id), start, stop⟩

def projectOf (l : Location) : Run Project := do
  let key ← ProjectKey.cell ⟨l.project⟩
  match ← Run.look fun s => s.project? key with
  | some p => return p
  | none => throw (.unfit "'NoneType' object is not subscriptable")

def readHosted (node : List (String × Json)) : Run String := do
  let l ← locate node
  let p ← projectOf l
  let some name := p.repository | throw (.noMember "NoneType" "split")
  let r ← Hosting.installedRepository (.str name)
  let text ← Hosting.fileText r (Text.swap "\\" "/" l.path)
  return "\n".intercalate (← l.cut (Text.fields '\n' text))

def folderOf (p : Project) (user : Option String) : Option String :=
  match p.directory with
  | some d => if Text.endsWith ("-" ++ user.getD "None") d then some d else p.repository
  | none => p.repository

def readCloned (node : List (String × Json)) : Run String := do
  let l ← locate node
  let p ← projectOf l
  let user ← Run.setting? "defaultUsername"
  let some folder := folderOf p user | throw (.unfit "expected str, bytes or os.PathLike object")
  let _ ← Clone.checkoutAt folder (Json.ofOption p.branch)
  let text ← (← get).files.readText (Path.join folder l.path)
  return String.join (← l.cut (linesOf text))

def hosted (node : List (String × Json)) : Run (Option String) :=
  return (← Run.outcome (readHosted node)).toOption

def cloned (node : List (String × Json)) : Run (Option String) :=
  return (← Run.outcome (readCloned node)).toOption

end CodeAtlas.Code
