import CodeAtlas.Sql.Alteration
import CodeAtlas.Sql.StatementReader

/-!
# Carrying statements out

`Database.execute` reads the text of a statement and carries it out. A statement changes the database as a
whole or not at all, and two statements in one text are refused. What can be found out without looking at
rows is found out first (`Database.planned`).

A table, a view or a trigger that is only made for the time of a connection is gone when the next statement
is sent.
-/
namespace CodeAtlas.Sql

/-- A database after a statement, and how many rows the statement changed. -/
structure Outcome where
  database : Database
  changed : Nat

/-- What is left to do for a statement when its names are looked up: a step that depends on the value that is
handed over. -/
abbrev Planned := Option Value → Except Fault Outcome

/-- Carries out what is left to do for an action. -/
def Prepared.run (p : Prepared) (d : Database) (parameter : Option Value) : Except Fault Outcome :=
  match (p (Env.ofDatabase d parameter)).run d with
  | (.ok changed, d) => .ok ⟨d, changed⟩
  | (.error (.fault f), _) => .error f
  | (.error .ignored, d) => .ok ⟨d, 0⟩

def isConnected (name : String) : Bool := hasName ["main", "temp"] name

/-- Does a place name a table or an index, or a name alone something else? -/
def Database.keeps (d : Database) (alone : String → Bool) (p : Place) : Bool :=
  let isThere := (d.table? p.name).isSome || (d.index? p.name).isSome
  match p.database with
  | none => alone p.name || isThere
  | some s => isConnected s && isThere

def statistics : StoredTable :=
  .plain "sqlite_stat1" ["tbl", "idx", "stat"] "CREATE TABLE sqlite_stat1(tbl,idx,stat)"

namespace Database

def settled (r : Except Fault Database) : Except Fault Planned := r.map fun d _ => .ok ⟨d, 0⟩

def planned (d : Database) (text : String) : Statement → Except Fault Planned
  | .createTable p temporary unlessThere layout =>
    settled (d.make p temporary unlessThere do
      let (t, indexes) ← d.declare p.name layout ("CREATE TABLE " ++ text)
      return d.addTable t indexes)
  | .createTableAs p temporary unlessThere q => do
    let isPassing ← p.isTemporary temporary
    let made ← d.make p temporary unlessThere (.ok (d.add (.table (tableOfRows p.name [] []))))
    if !isPassing && d.holds p.name then return fun _ => .ok ⟨d, 0⟩
    let (plan, columns) ← (Binder.ofDatabase d).query q
    return fun parameter =>
      match (Env.ofDatabase d parameter).rows plan with
      | .error (.fault f) => .error f
      | .error .ignored => .error .rejected
      | .ok rows =>
        .ok ⟨if isPassing then d else made.setTable p.name (tableOfRows p.name columns rows), 0⟩
  | .createIndex p unlessThere unique table terms condition =>
    let sql := (if unique then "CREATE UNIQUE INDEX " else "CREATE INDEX ") ++ text
    match d.makeIndex p unlessThere unique table terms condition sql with
    | .error .rejected => .error .rejected
    | r => .ok fun _ => r.map fun d => ⟨d, 0⟩
  | .createView p temporary unlessThere columns q =>
    settled (d.make p temporary unlessThere
      (.ok (d.add (.view ⟨p.name, columns, q, "CREATE VIEW " ++ text⟩))))
  | .createTrigger p temporary unlessThere plan =>
    settled (d.makeTrigger p temporary unlessThere plan ("CREATE TRIGGER " ++ text))
  | .createVirtual p unlessThere module arguments =>
    settled (d.makeVirtual p unlessThere module arguments ("CREATE VIRTUAL TABLE " ++ text))
  | .drop kind p ifThere => settled (d.drop kind p ifThere)
  | .renameTable p name => settled (d.renameTable p name)
  | .renameColumn p column name => settled (d.renameColumn p column name)
  | .addColumn p c => settled (d.addColumn p c)
  | .dropColumn p column => settled (d.dropColumn p column)
  | .act tables a => do
    let p ← d.prepare tables a
    return p.run d
  | .explain s => do
    let _ ← planned d text s
    return fun _ => .ok ⟨d, 0⟩
  | .setting p => if p.database.all isConnected then settled (.ok d) else .error .rejected
  | .analyze p =>
    if !p.all (d.keeps isConnected) then .error .rejected
    else settled (.ok (if (d.table? statistics.name).isSome then d else d.add (.table statistics)))
  | .reindex p =>
    if p.all (d.keeps fun name => (Collation.ofName? name).isSome) then settled (.ok d) else .error .rejected
  | .vacuum s => if s.all isConnected then settled (.ok d) else .error .rejected
  | .attach _ name =>
    match name with
    | .value (.text s) | .quoted s | .column none none s =>
      if isConnected s then .error .rejected else settled (.ok d)
    | _ => settled (.ok d)
  | .pass => settled (.ok d)
  | .refuse => .error .rejected

def isKept : Statement → Bool
  | .createView _ _ _ _ _ | .createTrigger _ _ _ _ => true
  | .explain s => isKept s
  | _ => false

/-- Carries out the statement that a text shows, with a value that is handed over. A text that is cut off by
a character of code zero is none. -/
def execute (d : Database) (text : String) (parameter : Option Value) : Except Fault Outcome := do
  if text.toList.any fun c => c.toNat == 0 then .error .misused
  else
    let ts ← needed (Token.scan text)
    let (s, more) ← needed (Statement.ofTokens ts)
    let wants := ts.any fun t => t.kind == .parameter
    if isKept s && wants then .error .rejected
    let p ← d.planned (Statement.spelling ts) s
    if more || (wants && parameter.isNone) then .error .misused else p parameter

end Database
end CodeAtlas.Sql
