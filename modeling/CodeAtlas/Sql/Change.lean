import CodeAtlas.Sql.Rules

/-!
# Changing rows

Rows are changed one after the other. A row that breaks a rule is a fault, or is left out, or takes the place
of the rows that it clashes with (`Rules.judge`).

What a trigger has done before it gives a row up stays done (`Change`).
-/
namespace CodeAtlas.Sql

abbrev Change := ExceptT Halt (StateM Database)

namespace Change

def fail {α : Type} (f : Fault) : Change α := throw (.fault f)

def look {α : Type} (env : Env) (f : Env → Except Halt α) : Change α := do
  let d ← get
  match f { env with database := d } with
  | .ok a => return a
  | .error h => throw h

/-- Is a change made to its end, rather than given up? -/
def completed (c : Change Unit) : Change Bool :=
  tryCatch (do c; return true) fun
    | .ignored => return false
    | h => throw h

def table (name : String) : Change (Option StoredTable) := do return (← get).table? name

end Change

namespace StoredTable

def precedes (t : StoredTable) (r s : StoredRow) : Bool :=
  if t.keyless then
    let keys : List SortKey := t.key.zipIdx.map fun (k, i) => ⟨i, k.collation.getD .binary, k.falling, !k.falling⟩
    let values (r : StoredRow) : List Value := t.key.map fun k => match k.e with
      | .column _ _ n => ((t.place? n).bind (r.cells[·]?)).getD .null
      | _ => .null
    orderKeys keys (values r) (values s) == .lt
  else r.key < s.key

def add (t : StoredTable) (r : StoredRow) : StoredTable :=
  let early (s : StoredRow) : Bool := !t.precedes r s
  { t with rows := t.rows.takeWhile early ++ r :: t.rows.dropWhile early }

/-- Takes rows away by their numbers. -/
def removeAll (t : StoredTable) (keys : List Int) : StoredTable :=
  { t with rows := t.rows.filter fun r => !keys.contains r.key }

def row? (t : StoredTable) (key : Int) : Option StoredRow := t.rows.find? fun r => r.key == key

def nextKey (t : StoredTable) : Int :=
  match t.rows.map StoredRow.key with
  | [] => 1
  | k :: ks =>
    let greatest := ks.foldl max k
    if greatest < 9223372036854775807 then greatest + 1
    else Int.ofNat (((List.range (t.rows.length + 1)).find? fun k => !t.rows.any fun r => r.key == Int.ofNat (k + 1)).getD 0) + 1

end StoredTable

def sequenceTable : String := "sqlite_sequence"

def Database.usedKey (d : Database) (table : String) : Int :=
  ((d.table? sequenceTable).bind fun s =>
    (s.rows.find? fun r => r.cells.head? == some (.text table)).bind fun r =>
      (r.cells[1]?).map Value.toWhole).getD 0

def Database.useKey (d : Database) (table : String) (key : Int) : Database :=
  match d.table? sequenceTable with
  | none => d
  | some s =>
    let own (r : StoredRow) : Bool := r.cells.head? == some (.text table)
    let rows := if s.rows.any own then
        s.rows.map fun r => if own r then { r with cells := [.text table, .whole (max key (d.usedKey table))] } else r
      else s.rows ++ [⟨s.nextKey, [.text table, .whole (max key 0)]⟩]
    d.setTable sequenceTable { s with rows }

/-! ## Where a change is made -/

/-- The surroundings of a change: where names are looked up, what the statement around says of rows that
break a rule, and the triggers that are being carried out. -/
structure Context where
  binder : Binder
  reaction : Option Reaction
  active : List String

/-- What rows are changed in: a table, or a view, with its rows and columns. -/
inductive Target where
  | table (t : StoredTable)
  | view (name : String) (p : Plan) (columns : List OutColumn)

namespace Target

def name : Target → String
  | table t => t.name
  | view n _ _ => n

def columns : Target → List String
  | table t => t.columns.map StoredColumn.name
  | view _ _ cs => cs.map OutColumn.name

/-- The length of a row. The number of a row stands behind its columns. -/
def width (t : Target) : Nat := t.columns.length + 1

def slots (t : Target) (label : String) (source start : Nat) (guarded : Bool) : List Slot :=
  match t with
  | table t => t.slots label source start guarded
  | view _ _ cs => (OutColumn.slots cs label start guarded).map fun s => { s with source }

def place? (t : Target) (name : String) : Option Nat := t.columns.findIdx? (sameName name)

/-- The rows, each with its number. -/
def origin : Target → Origin
  | table t => .table t.name
  | view _ p cs => .plan (.select (.plan p) cs.length none none none none
      ((List.range cs.length).map (.column 0 ·) ++ [.value .null]) none)

end Target

def Binder.target (b : Binder) (p : Place) : Except Fault Target := do
  if !p.database.all (sameName "main") then .error .rejected
  match b.database.table? p.name, b.database.view? p.name with
  | some t, _ => return .table t
  | none, some v =>
    let source ← { Binder.ofDatabase b.database with limits := .stored }.source (.table none v.name none none)
    match source.origin with
    | .plan plan =>
      return .view v.name plan (source.slots.map fun s => ⟨s.name, s.name, s.affinity, some s.collation⟩)
    | _ => .error .rejected
  | none, none => .error .rejected

def Event.isMet (change declared : Event) : Bool :=
  match change, declared with
  | .insert, .insert | .delete, .delete => true
  | .update changed, .update columns => columns.isEmpty || columns.any (hasName changed)
  | _, _ => false

abbrev Firing := Env → List Value → List Value → Change Bool

/-! ## Rows that break a rule -/

/-- What becomes of a row. -/
inductive Verdict where
  /-- It is kept, perhaps with usual values, and other rows have to go. -/
  | kept (r : StoredRow) (gone : List Int)
  | skipped
  | clashing (index : Option String) (r : StoredRow)

/-- Where values are required and there are none, the usual ones may come in. -/
def Rules.required (s : Rules) (env : Env) (reaction : Option Reaction) (r : StoredRow) :
    Except Halt (Option StoredRow) :=
  s.table.columns.zipIdx.foldlM (fun kept (c, i) => do
    match kept, c.required with
    | some r, some own =>
      if (r.cells[i]?).getD .null != .null then return kept
      else
        match (reaction.or own).getD .abort with
        | .skip => return none
        | .abort => throw (.fault .violated)
        | .replace =>
          let v := c.affinity.apply (← s.usualOf env i)
          if v == .null then throw (.fault .violated)
          else return some { r with cells := r.cells.set i v }
    | kept, _ => return kept) (some r)

def Rules.judge (s : Rules) (env : Env) (reaction : Option Reaction) (handled : Option String → Bool)
    (rows : List StoredRow) (r : StoredRow) : Except Halt Verdict := do
  match ← s.required env reaction r with
  | none => return .skipped
  | some r =>
    if s.table.strict && (s.table.columns.zip r.cells).any fun (c, v) => !StoredTable.fitsType c.type v then
      throw (.fault .violated)
    let inner := env.push (StoredTable.level r)
    let failed ← s.checks.anyM fun t => do return (← inner.truth t) == some false
    if failed then
      if reaction = some .skip then return .skipped else throw (.fault .violated)
    let numbered : List (Option String × Option Reaction × List StoredRow) :=
      if s.table.keyless then []
      else [(none, s.table.counter.bind Prod.snd, rows.filter fun t => t.key == r.key)]
    let indexed ← s.uniques.mapM fun u => do
      return (some u.index.name, u.index.reaction, ← u.clashing env rows r)
    let clashes := (numbered ++ indexed).filter fun (_, _, rows) => !rows.isEmpty
    let handledFirst := clashes.filter (fun (i, _, _) => handled i) ++ clashes.filter fun (i, _, _) => !handled i
    let answer (own : Option Reaction) : Reaction := (reaction.or own).getD .abort
    -- rows only make place once nothing else stands in the way
    let verdict : Option (Except Halt Verdict) := handledFirst.findSome? fun (i, own, rows) =>
      match rows.head?, answer own with
      | none, _ => none
      | some other, reaction =>
        if handled i then some (.ok (.clashing i other))
        else match reaction with
          | .replace => none
          | .skip => some (.ok .skipped)
          | .abort => some (.error (.fault .violated))
    match verdict with
    | some v => v
    | none => return .kept r ((clashes.flatMap fun (_, _, rows) => rows.map StoredRow.key).eraseDups)

end CodeAtlas.Sql
