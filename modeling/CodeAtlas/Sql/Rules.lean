import CodeAtlas.Sql.Evaluation

/-!
# What a row has to keep

A table computes some of its columns, requires values in others, sets conditions and keeps rows apart by its
indexes. `Rules.ofTable` looks the names in all of these up once; a row is then completed (`Rules.complete`)
and held against them.
-/
namespace CodeAtlas.Sql

/-- Values in which rows may not be alike. -/
structure Unique where
  index : StoredIndex
  terms : List (Term × Collation)
  condition : Option Term

/-- The rules of a table after their names were looked up. -/
structure Rules where
  table : StoredTable
  /-- The usual values of columns. One that cannot be computed is no fault until it is needed. -/
  usual : List (Except Fault (Option Term))
  computed : List (Nat × Term)
  checks : List Term
  /-- Those of its indexes that keep rows apart. -/
  uniques : List Unique

namespace StoredTable

def binder (t : StoredTable) (d : Database) (limits : Limits) : Binder :=
  { Binder.ofDatabase d with scopes := [.ofSlots (t.slots t.name 0 0 false)], limits }

def level (r : StoredRow) : Level := ⟨r.cells ++ [.whole r.key], []⟩

/-- The index by which rows without numbers are kept apart. -/
def keyIndex? (t : StoredTable) : Option StoredIndex :=
  if t.keyless then some ⟨"", t.name, true, t.key, none, none, true, none⟩ else none

/-- The column that a strict table keeps values of one kind in. -/
def fitsType (type : String) (v : Value) : Bool :=
  match folded type, v with
  | _, .null => true
  | "int", .whole _ | "integer", .whole _ => true
  | "real", .real _ => true
  | "text", .text _ => true
  | "blob", .blob _ => true
  | "any", _ => true
  | _, _ => false

end StoredTable

namespace Binder

def unique (b : Binder) (i : StoredIndex) : Except Fault Unique := do
  let terms ← i.terms.mapM fun t => do
    let x ← { b with limits := .index }.expr t.e
    pure (x.term, (t.collation.or x.collation).getD .binary)
  let condition ← i.condition.mapM fun e => return (← { b with limits := .partialIndex }.expr e).term
  return ⟨i, terms, condition⟩

end Binder

namespace Rules

def ofTable (d : Database) (t : StoredTable) : Except Fault Rules := do
  let b := t.binder d .check
  let alone := Binder.ofDatabase d
  let usual := t.columns.map fun c => match c.usual with
    | some e => (alone.expr e).map fun x => some x.term
    | none => .ok none
  let computed ← t.columns.zipIdx.mapM fun (c, i) => match c.generated with
    | some (e, _) => do pure [(i, (← { b with limits := .index }.expr e).term)]
    | none => pure []
  let checks ← t.checks.mapM fun (_, e) => do pure (← b.expr e).term
  let uniques ← ((d.indexesOf t.name).filter StoredIndex.unique ++ t.keyIndex?.toList).mapM b.unique
  return ⟨t, usual, computed.flatten, checks, uniques⟩

def complete (s : Rules) (env : Env) (key : Int) (cells : List Value) : Except Halt StoredRow := do
  let settle (place : Nat) (v : Value) : Value :=
    (s.table.columns[place]?).elim v fun c => c.affinity.apply v
  let start := cells.zipIdx.map fun (v, i) => if s.computed.any fun (j, _) => j == i then .null else settle i v
  let start := match s.table.counterPlace? with
    | some i => start.set i (.whole key)
    | none => start
  -- a column may be computed from others that are computed
  let cells ← (List.range s.computed.length).foldlM (fun cells _ =>
    s.computed.foldlM (fun cells (i, t) => do
      let v ← (env.push (StoredTable.level ⟨key, cells⟩)).value t
      pure (cells.set i (settle i v))) cells) start
  return ⟨key, cells⟩

def usualOf (s : Rules) (env : Env) (place : Nat) : Except Halt Value :=
  match s.usual[place]? with
  | some (.ok (some t)) => env.value t
  | some (.error f) => .error (.fault f)
  | _ => .ok .null

end Rules

def Unique.holding (u : Unique) (env : Env) (r : StoredRow) : Except Halt (Option (List Value)) := do
  let inner := env.push (StoredTable.level r)
  let about ← match u.condition with
    | some t => inner.holds t
    | none => pure true
  if about then return some (← u.terms.mapM fun (t, _) => inner.value t) else return none

def Unique.clash (u : Unique) (a b : List Value) : Bool :=
  !a.contains .null && alikeRows (u.terms.map Prod.snd) a b

def Unique.clashing (u : Unique) (env : Env) (rows : List StoredRow) (r : StoredRow) :
    Except Halt (List StoredRow) := do
  match ← u.holding env r with
  | none => return []
  | some own => rows.filterM fun s => do return (← u.holding env s).any (u.clash own)

end CodeAtlas.Sql
