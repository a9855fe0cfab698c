import CodeAtlas.Sql.Database
import CodeAtlas.Sql.Term

/-!
# Scopes

A name in an expression stands for a column of the query at hand or of a query around it. A scope holds the
columns of one query, each with its place in the row of that query (`Slot`), and the labels that the query
gives to what it shows. Names are looked up from the innermost scope outwards (`Binder.find`).
-/
namespace CodeAtlas.Sql

/-- A column that a name can stand for. -/
structure Slot where
  /-- The number of its table in the query. -/
  source : Nat
  label : String
  database : Option String
  name : String
  place : Nat
  /-- Places that hold the value too, where the first holds nothing. -/
  others : List Nat
  affinity : Affinity
  collation : Collation
  /-- Does a star show it? -/
  shown : Bool
  /-- Is it only found under the label of its table? -/
  guarded : Bool
  /-- Is it the number of the row? -/
  isKey : Bool

/-- The columns of a query, and what its expressions may hold. -/
structure Scope where
  slots : List Slot
  labels : List (String × Expr)
  windows : List (String × Window)
  /-- Are functions of rows in place? -/
  aggregates : Bool
  windowed : Bool

structure OutColumn where
  /-- Its name in a query around it. -/
  name : String
  /-- Its name in a view or a table. -/
  declared : String
  affinity : Affinity
  collation : Option Collation

/-- How far the query of a name has been looked at. -/
inductive Progress where
  | untouched
  /-- It is being looked at, so it cannot name itself. -/
  | busy
  /-- It names itself: so many such queries are around it, and these are its columns. -/
  | working (depth : Nat) (columns : List OutColumn)

/-- A query that has a name. -/
structure Common where
  name : String
  columns : List String
  query : Query
  progress : Progress

/-- What an expression may hold besides columns and operators. -/
structure Limits where
  queries : Bool
  parameters : Bool
  /-- Functions whose value may change. -/
  unsteady : Bool
  tables : Bool
  /-- Numbers of rows. -/
  keys : Bool
  /-- The time of day. -/
  present : Bool

namespace Limits

def statement : Limits := ⟨true, true, true, true, true, true⟩

/-- A condition on the rows of a table holds no queries. -/
def check : Limits := ⟨false, false, true, true, true, false⟩

/-- What an index is about holds nothing that changes. -/
def index : Limits := ⟨false, false, false, false, false, false⟩

def partialIndex : Limits := ⟨false, false, false, true, true, false⟩

/-- What a view or a trigger does is not handed over. -/
def stored : Limits := ⟨true, false, true, true, true, true⟩

end Limits

structure Binder where
  database : Database
  /-- The scopes around an expression, the innermost first. -/
  scopes : List Scope
  /-- The row that a trigger is carried out for, as it was and as it is to be. -/
  changed : List Slot
  commons : List (List Common)
  /-- How many queries that name themselves are around. -/
  depth : Nat
  limits : Limits
  /-- Can a row be given up? -/
  raises : Bool

/-- What an expression depends on: the scopes of its columns, those that its functions of rows belong to, and
those of its windows. Scopes are counted from the outermost. -/
structure Uses where
  columns : List Nat
  aggregates : List Nat
  windows : List Nat

namespace Uses

def none : Uses := ⟨[], [], []⟩

def and (u v : Uses) : Uses := ⟨u.columns ++ v.columns, u.aggregates ++ v.aggregates, u.windows ++ v.windows⟩

end Uses

/-- Looking names up, which notes what is used and may fail. -/
abbrev Bind := StateT Uses (Except Fault)

namespace Bind

def refuse {α : Type} : Bind α := throw .rejected

def observed {α : Type} (x : Bind α) : Bind (α × Uses) := do
  let before ← get
  set Uses.none
  let a ← x
  let inner ← get
  set (before.and inner)
  return (a, inner)

/-- What is looked up, if it can be. -/
def attempt {α : Type} (x : Bind α) : Bind (Option α) := do
  match x.run Uses.none with
  | .ok (a, _) => return some a
  | .error _ => return none

def ensure (b : Bool) : Bind Unit := if b then pure () else refuse

end Bind

/-- An expression after its names were looked up: the term, the affinity of the column that it shows, and
the collation, which may be asked for expressly. -/
structure Bound where
  term : Term
  affinity : Affinity
  collation : Option Collation
  explicit : Bool
  name : Option String

namespace Bound

def plain (t : Term) : Bound := ⟨t, .none, none, false, none⟩

def made (t : Term) (parts : List Bound) : Bound :=
  match parts.find? Bound.explicit with
  | some p => ⟨t, .none, p.collation, true, none⟩
  | none => plain t

def commonCollation (a b : Bound) : Collation :=
  let found := if a.explicit then a.collation else if b.explicit then b.collation
    else a.collation.or b.collation
  found.getD .binary

/-- How two values are compared. -/
def manner (a b : Bound) : Manner := ⟨a.affinity.common b.affinity, commonCollation a b⟩

end Bound

/-- What a name stands for. -/
inductive Meaning where
  | slot (level : Nat) (s : Slot)
  | label (level : Nat) (e : Expr)
  | changed (s : Slot)
  | missing

namespace Scope

def ofSlots (slots : List Slot) : Scope := ⟨slots, [], [], false, false⟩

def isMeant (database table : Option String) (s : Slot) : Bool :=
  match table with
  | none => !s.guarded
  | some t => sameName s.label t && database.all fun d => s.database.any (sameName d)

def slot? (s : Scope) (keys : Bool) (database table : Option String) (name : String) :
    Except Fault (Option Slot) :=
  let meant := s.slots.filter (isMeant database table)
  match meant.filter fun x => !x.isKey && sameName x.name name with
  | [x] => .ok (some x)
  | _ :: _ :: _ => .error .rejected
  | [] =>
    let sources := (meant.map Slot.source).eraseDups
    if keys && sources.length == 1 && hasName StoredTable.keyNames name then .ok (meant.find? Slot.isKey)
    else .ok none

end Scope

namespace Binder

def ofDatabase (d : Database) : Binder := ⟨d, [], [], [], 0, .statement, false⟩

/-- Names within another query. -/
def push (b : Binder) (s : Scope) : Binder := { b with scopes := s :: b.scopes }

def adjust (b : Binder) (f : Scope → Scope) : Binder :=
  match b.scopes with
  | s :: ss => { b with scopes := f s :: ss }
  | [] => b

def findIn (keys : Bool) (database table : Option String) (name : String) :
    List Scope → Nat → Except Fault Meaning
  | [], _ => .ok .missing
  | s :: ss, level =>
    match s.slot? keys database table name with
    | .error e => .error e
    | .ok (some x) => .ok (.slot level x)
    | .ok none =>
      match table, s.labels.find? fun (l, _) => sameName l name with
      | none, some (_, e) => .ok (.label level e)
      | _, _ => findIn keys database table name ss (level + 1)

def find (b : Binder) (database table : Option String) (name : String) : Bind Meaning := do
  Bind.ensure (table.isNone || b.limits.tables)
  match findIn b.limits.keys database table name b.scopes 0 with
  | .ok .missing =>
    match (Scope.ofSlots b.changed).slot? b.limits.keys database table name with
    | .ok (some s) => return .changed s
    | .ok none => return .missing
    | .error e => throw e
  | .ok m => return m
  | .error e => throw e

/-- The number of a scope, counted from the outermost. -/
def absolute (b : Binder) (level : Nat) : Nat := b.scopes.length - 1 - level

def column (b : Binder) (level : Nat) (qualified : Bool) (s : Slot) : Bind Bound := do
  modify fun u => { u with columns := b.absolute level :: u.columns }
  if qualified || s.others.isEmpty then
    return ⟨.column level s.place, s.affinity, some s.collation, false, some s.name⟩
  else return .plain (.firstOf ((s.place :: s.others).map (.column level ·)))

end Binder

/-! ## Tables as scopes -/

namespace StoredTable

def keyName (t : StoredTable) : String := (t.counter.map Prod.fst).getD "rowid"

def slots (t : StoredTable) (label : String) (source start : Nat) (guarded : Bool) : List Slot :=
  let columns := t.columns.zipIdx.map fun (c, i) =>
    (⟨source, label, some "main", c.name, start + i, [], if guarded then .none else c.affinity, c.collation, true,
      guarded, false⟩ : Slot)
  let key : Slot :=
    ⟨source, label, some "main", t.keyName, start + t.columns.length, [], .integer, .binary, false, guarded, true⟩
  if t.keyless then columns else columns ++ [key]

end StoredTable

def OutColumn.slots (columns : List OutColumn) (label : String) (start : Nat) (guarded : Bool) : List Slot :=
  columns.zipIdx.map fun (c, i) =>
    (⟨0, label, none, c.name, start + i, [], c.affinity, c.collation.getD .binary, true, guarded, false⟩ : Slot)

def apart (names : List String) : List String :=
  let stem (n : String) : String :=
    match (n.toList.reverse.dropWhile Char.isDigit) with
    | ':' :: r => if r.isEmpty then n else String.ofList r.reverse
    | _ => n
  let rec fresh (seen : List String) (n : String) (count : Nat) : Nat → String
    | 0 => n
    | steps + 1 => if hasName seen n then fresh seen (stem n ++ ":" ++ toString (count + 1)) (count + 1) steps else n
  names.foldl (fun seen n => seen ++ [fresh seen n 0 (names.length + 1)]) []

def OutColumn.apart (columns : List OutColumn) : List OutColumn :=
  let names := Sql.apart (columns.map OutColumn.name)
  let declared := Sql.apart (columns.map OutColumn.declared)
  (columns.zip (names.zip declared)).map fun (c, n, d) => { c with name := n, declared := d }

end CodeAtlas.Sql
