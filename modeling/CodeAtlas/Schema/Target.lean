import CodeAtlas.Schema.History
import CodeAtlas.Sql.Database

/-!
# Where a migration goes

A version is named by the name of its revision or by the beginning of it, as the first or the last, or
by a number of steps from a version, which is the recorded one if none is named. A database may record
more than one version; a migration up needs them to be one.
-/
namespace CodeAtlas.Schema

/-- Why a migration ends early. -/
inductive Fault where
  /-- There is no such version, or no way to it. -/
  | unreachable
  /-- Steps from a version lead beyond the last one or below the first. -/
  | nowhere
  /-- More than two versions are named. -/
  | malformed
  /-- The database has to be looked at, and there is none. -/
  | noDatabase
  /-- A constraint cannot be dropped without its name. -/
  | nameless
  /-- The database does not change constraints. -/
  | unsupported
  /-- A version would be recorded that is recorded already. -/
  | contradictory
  /-- A version would be taken back that is not recorded. -/
  | unrecorded
  | refused (cause : Sql.Fault)
  deriving DecidableEq, Repr

inductive Direction where
  | up
  | down
  deriving DecidableEq, Repr

/-! ## Names of versions -/

def startingWith (text : String) : List Nat :=
  (List.range latest).filterMap fun i =>
    if (idOf? (i + 1)).any (Text.startsWith text) then some (i + 1) else none

def revisionOf (text : String) : Except Fault Nat :=
  match startingWith text with
  | [version] => .ok version
  | _ => .error .unreachable

/-- A name of a version, and the branch in front of it. -/
structure Target where
  branch : Option String
  name : String
  deriving DecidableEq, Repr

namespace Target

def ofText (text : String) : Target :=
  match Text.cut? "@" text with
  | some (branch, name) => ⟨if branch = "" then none else some branch, name⟩
  | none => ⟨none, text⟩

def checkBranch (t : Target) : Except Fault Unit :=
  match t.branch with
  | some branch => do let _ ← revisionOf branch
  | none => .ok ()

def version (t : Target) : Except Fault Nat := do
  t.checkBranch
  if t.name = "head" ∨ t.name = "heads" then return latest
  else if t.name = "base" then return 0
  else revisionOf t.name

end Target

def named (name : String) : Except Fault Nat := (Target.ofText name).version

/-- The versions that names stand for, without the one before the first. -/
def allNamed (names : List String) : Except Fault (List Nat) := do
  return (← names.mapM named).filter (· != 0)

/-- Does a text name versions that others can be related to? Nothing is asked of the last one and of
the one before the first. -/
def checkRelated (text : String) : Except Fault Unit := do
  let t := Target.ofText text
  t.checkBranch
  unless ["base", "head", "heads"].contains t.name do
    let _ ← revisionOf t.name

/-! ## Steps -/

inductive Place where
  /-- Before the first version, where no step has been taken. -/
  | start
  | version (n : Nat)
  /-- Below the first version, by a step down. -/
  | bottom
  /-- Beyond all versions. -/
  | lost
  deriving DecidableEq, Repr

namespace Place

def ofVersion (n : Nat) : Place := if n = 0 then start else version n

def next : Direction → Place → Place
  | _, start => version 1
  | .up, version n => if n < latest then version (n + 1) else lost
  | .down, version n => if n ≤ 1 then bottom else version (n - 1)
  | _, bottom => lost
  | _, lost => lost

def walk (steps : Int) (p : Place) : Place :=
  let d : Direction := if 0 < steps then .up else .down
  Nat.repeat (next d) (min steps.natAbs (latest + 2)) p

def version? : Place → Option Nat
  | version n => some n
  | _ => none

end Place

/-- A number of steps from a version that may be named, perhaps on a branch. -/
structure Relative where
  branch : Option String
  origin : Option String
  steps : Int
  deriving DecidableEq, Repr

namespace Relative

/-- Reads a name that may be left out and a number with its sign; what follows does not count. -/
def after? (branch : Option String) (cs : List Char) : Option Relative :=
  let name := cs.takeWhile Text.isWord
  let origin := if name.isEmpty then none else some (String.ofList name)
  match cs.dropWhile Text.isWord with
  | sign :: rest =>
    let digits := rest.takeWhile fun c => (Text.digitValue? c).isSome
    if digits.isEmpty then none
    else
      let n : Nat := digits.foldl (fun n c => n * 10 + (Text.digitValue? c).getD 0) 0
      if sign = '+' then some ⟨branch, origin, n⟩
      else if sign = '-' then some ⟨branch, origin, -n⟩
      else none
  | [] => none

/-- Reads steps after the first `@` that has some after it. What stands before it, on one line, is the
branch. -/
def onBranch? (before : List Char) : List Char → Option Relative
  | [] => none
  | c :: cs =>
    let here :=
      if c = '@' ∧ !before.isEmpty then after? (some (String.ofList before.reverse)) cs else none
    here.or (if c = '\n' then none else onBranch? (c :: before) cs)

def ofText? (text : String) : Option Relative :=
  (onBranch? [] text.toList).or (after? none text.toList)

def walkUp (r : Relative) (p : Place) : Except Fault Place := do
  if r.steps > 0 ∧ p.next .up ≠ .lost then r.branch.forM checkRelated
  return p.walk r.steps

def originOn (r : Relative) (origin : String) : Except Fault Nat :=
  Target.version ⟨r.branch, origin⟩

end Relative

/-- The place that a text shows as a number below zero: so many steps down from the last version. A
branch has no last version of its own, so on one it is before the first. -/
def fromLast? (text : String) : Option Place :=
  let t := Target.ofText text
  match Integer.ofText? t.name with
  | some n =>
    if n < 0 then some (if text.toList.contains '@' then .start else (Place.ofVersion latest).walk n) else none
  | none => none

/-- The version that a migration up goes to, if it is named and not counted in steps. Of the one before
the first not even the branch is asked. -/
def absoluteGoal (text : String) : Except Fault Nat :=
  match fromLast? text with
  | some (.version n) => .ok n
  | some .start => .ok 0
  | some _ => .error .nowhere
  | none => if (Target.ofText text).name = "base" then .ok 0 else named text

def goalUp (recorded : List String) (text : String) : Except Fault Nat :=
  let found (p : Place) (fault : Fault) : Except Fault Nat := match p.version? with
    | some n => .ok n
    | none => .error fault
  match Relative.ofText? text with
  | none => absoluteGoal text
  | some r =>
    match r.origin with
    | some origin => do
      if r.steps > 0 then found (← r.walkUp (.ofVersion (← named origin))) .nowhere
      else found ((Place.ofVersion (← r.originOn origin)).walk r.steps) .nowhere
    | none => do
      if r.steps ≤ 0 then throw .unreachable
      match ← allNamed recorded with
      | [] => found (← r.walkUp .start) .unreachable
      | v :: more =>
        r.branch.forM checkRelated
        if more.isEmpty then found (← r.walkUp (.version v)) .unreachable else throw .unreachable

/-- The version that a migration down goes to. From the first version recorded it goes down only, and a
step below the first version leads to none at all. Of a version that is named, the branch is not
asked. -/
def goalDown (recorded : List String) (text : String) : Except Fault Nat :=
  let found (p : Place) : Except Fault Nat := match p with
    | .version n => .ok n
    | .bottom => .ok 0
    | _ => .error .unreachable
  match Relative.ofText? text with
  | none => named (((Text.fields '@' text).getLast?).getD "")
  | some r =>
    match r.origin with
    | some origin => do
      if r.steps ≥ 0 then found (← r.walkUp (.ofVersion (← named origin)))
      else found ((Place.ofVersion (← r.originOn origin)).walk r.steps)
    | none => do
      if r.steps ≥ 0 then throw .unreachable
      match recorded, r.branch with
      | first :: _, none => found ((Place.ofVersion (← named first)).walk r.steps)
      | [], none => throw .unreachable
      | names, some branch =>
        names.forM fun name => do
          let _ ← named name
          checkRelated branch
        match names with
        | [name] => found ((Place.ofVersion (← r.originOn name)).walk r.steps)
        | _ => throw .contradictory

/-! ## The way -/

structure Step where
  direction : Direction
  /-- The later of the two versions. -/
  version : Nat
  deriving DecidableEq, Repr

namespace Step

def source (s : Step) : Nat :=
  match s.direction with
  | .up => s.version - 1
  | .down => s.version

def goal (s : Step) : Nat :=
  match s.direction with
  | .up => s.version
  | .down => s.version - 1

def changes (s : Step) : List Change :=
  match revision? s.version, s.direction with
  | some r, .up => r.up
  | some r, .down => r.down
  | none, _ => []

end Step

def highest (versions : List Nat) : Nat := versions.foldl max 0

/-- The steps to the version that a text names. What is reached is not gone through again, and nothing is
undone that was not done. -/
def way (d : Direction) (recorded : List String) (text : String) : Except Fault (List Step) := do
  match d with
  | .up =>
    let goal ← goalUp recorded text
    let present := (← allNamed recorded).eraseDups
    if 1 < present.length then .error .unreachable
    else .ok ((List.range' (highest present + 1) (goal - highest present)).map (⟨.up, ·⟩))
  | .down =>
    let goal ← goalDown recorded text
    let present ← allNamed recorded
    if goal ≠ 0 ∧ highest present ≤ goal ∧ !present.contains goal then .error .unreachable
    else .ok ((List.range' (goal + 1) (highest present - goal)).reverse.map (⟨.down, ·⟩))

end CodeAtlas.Schema
