import CodeAtlas.Sql.Definition
import CodeAtlas.Sql.Renaming

/-!
# Other shapes of tables

A table or a column gets another name, and a column comes or goes. All views and triggers have to be in order
before and after, except for a new column.
-/
namespace CodeAtlas.Sql

namespace Database

/-- Can all views be read and all triggers be carried out? -/
def checkThings (d : Database) : Except Fault Unit := do
  for v in d.views do
    let _ ← { Binder.ofDatabase d with limits := .stored }.source (.table none v.name none none)
  for t in d.triggers do
    let target ← (Binder.ofDatabase d).target t.plan.table
    let _ ← prepareTrigger (4 * d.triggers.length + 8) ⟨Binder.ofDatabase d, none, []⟩ target t

def alterable (d : Database) (p : Place) : Except Fault StoredTable := do
  if !p.database.all (sameName "main") then .error .rejected
  let some t := d.table? p.name | .error .rejected
  if isInternal t.name then .error .rejected else return t

def ruleName (table : String) (i : StoredIndex) : String :=
  let number := i.name.toList.reverse.takeWhile Char.isDigit
  if i.isRule then "sqlite_autoindex_" ++ table ++ "_" ++ String.ofList number.reverse else i.name

def renameTable (d : Database) (p : Place) (name : String) : Except Fault Database := do
  let t ← d.alterable p
  if d.takes name || isInternal name then .error .rejected
  d.checkThings
  let new := (Renaming.table t.name name).database d
  let things := new.things.map fun
    | .index i => Thing.index (if sameName i.table name then { i with name := ruleName name i } else i)
    | .table s =>
      if s.name == sequenceTable then
        .table { s with rows := s.rows.map fun r => match r.cells with
          | .text n :: more => if n == t.name then { r with cells := .text name :: more } else r
          | _ => r }
      else .table s
    | x => x
  let new : Database := ⟨things⟩
  new.checkThings
  return new

def renameColumn (d : Database) (p : Place) (column name : String) : Except Fault Database := do
  let t ← d.alterable p
  let some c := t.column? column | .error .rejected
  if (t.column? name).isSome && !sameName column name then .error .rejected
  d.checkThings
  let new := (Renaming.column t.name c.name name).database d
  new.checkThings
  return new

def isWritten : Expr → Bool
  | .value _ | .column _ _ _ => true
  | .unary .negate e | .unary .keep e | .converted e _ => isWritten e
  | _ => false

/-- Rows that are there already need a value in a new column that is always the same. -/
def addColumn (d : Database) (p : Place) (c : Declaration) : Except Fault Database := do
  let t ← d.alterable p
  let column ← c.stored t.strict
  if (t.column? c.name).isSome || !c.primary.isEmpty || c.unique.isSome || !c.references.all (·.fits [c.name]) then
    .error .rejected
  let isFilled := !t.rows.isEmpty
  if isFilled && ((c.generated.any Prod.snd) || !c.usual.all isWritten) then .error .rejected
  let wide := { t with
    columns := t.columns ++ [column]
    checks := t.checks ++ c.checks.map fun e => (some c.name, e) }
  let new := d.setTable t.name wide
  let rules ← Rules.ofTable new wide
  if !canCompute (rules.computed.map fun (i, e) => (i, e.places sameSteps)) then .error .rejected
  let env := Env.ofDatabase new none
  let made : Except Halt (List StoredRow × Bool) := do
    let rows ← t.rows.mapM fun r => do
      let v ← rules.usualOf env t.columns.length
      rules.complete env r.key (r.cells ++ [v])
    let isKept ← rows.allM fun r => do
      let v := (r.cells[t.columns.length]?).getD .null
      let failed ← rules.checks.anyM fun e => do
        return (← (env.push (StoredTable.level r)).truth e) == some false
      return !failed && !(column.required.isSome && v == .null) && (!t.strict || StoredTable.fitsType column.type v)
    return (rows, isKept)
  match made with
  | .ok (rows, true) => return d.setTable t.name { wide with rows }
  | _ => .error .rejected

/-- A column goes if it is not the last, and if no rule, index, view or trigger needs it. -/
def dropColumn (d : Database) (p : Place) (column : String) : Except Fault Database := do
  let t ← d.alterable p
  let some i := t.place? column | .error .rejected
  let some c := t.column? column | .error .rejected
  let about (x : StoredIndex) : Bool := x.isRule && x.terms.any fun y => y.e.name?.any (sameName c.name)
  let isHeld := (t.counter.any fun (k, _) => sameName k c.name) || (t.key.any fun k => k.e.name?.any (sameName c.name)) ||
    (d.indexesOf t.name).any about || t.references.any fun r => hasName r.columns c.name
  if t.columns.length ≤ 1 || isHeld then .error .rejected
  d.checkThings
  let narrow := { t with
    columns := t.columns.eraseIdx i
    checks := t.checks.filter fun (own, _) => !own.any (sameName c.name)
    rows := t.rows.map fun r => { r with cells := r.cells.eraseIdx i } }
  if narrow.columns.all fun c => c.generated.isSome then .error .rejected
  let new := d.setTable t.name narrow
  let _ ← Rules.ofTable new narrow
  for x in d.indexesOf t.name do let _ ← (narrow.binder new .check).unique x
  new.checkThings
  return new

end Database
end CodeAtlas.Sql
