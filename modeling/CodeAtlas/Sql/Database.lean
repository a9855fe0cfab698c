import CodeAtlas.Sql.Statement

/-!
# A database

A database keeps tables with their rows, and indexes, views and triggers, in the order in which they were
made. Tables, views and indexes do not share a name, and triggers have names of their own.
-/
namespace CodeAtlas.Sql

structure StoredColumn where
  name : String
  type : String
  affinity : Affinity
  collation : Collation
  /-- What is done about nothing in the column, if it has to hold something. -/
  required : Option (Option Reaction)
  usual : Option Expr
  /-- What its values are computed from, and whether they are stored. -/
  generated : Option (Expr × Bool)

structure StoredRow where
  key : Int
  cells : List Value
  deriving DecidableEq

structure IndexTerm where
  e : Expr
  collation : Option Collation
  falling : Bool

structure StoredIndex where
  name : String
  table : String
  unique : Bool
  terms : List IndexTerm
  condition : Option Expr
  /-- What is done about a row that clashes, if it is said. -/
  reaction : Option Reaction
  isRule : Bool
  sql : Option String

structure StoredTable where
  name : String
  columns : List StoredColumn
  /-- The column that shows the number of the row, and what is done about a number that is taken. -/
  counter : Option (String × Option Reaction)
  /-- Are numbers of rows never used again? -/
  counted : Bool
  /-- Do rows have no numbers? -/
  keyless : Bool
  /-- Does a column hold values of its type only? -/
  strict : Bool
  /-- The columns by which rows without numbers are kept in order. -/
  key : List IndexTerm
  /-- The conditions on rows, each with the column that it is declared with. -/
  checks : List (Option String × Expr)
  /-- References that are rules of the table and not of one column. -/
  references : List Referral
  rows : List StoredRow
  sql : String

structure View where
  name : String
  columns : List String
  query : Query
  sql : String

structure Trigger where
  name : String
  plan : TriggerPlan
  sql : String

/-- What a database keeps. -/
inductive Thing where
  | table (t : StoredTable)
  | index (i : StoredIndex)
  | view (v : View)
  | trigger (t : Trigger)

structure Database where
  things : List Thing

namespace StoredTable

def column? (t : StoredTable) (name : String) : Option StoredColumn :=
  t.columns.find? fun c => sameName c.name name

def place? (t : StoredTable) (name : String) : Option Nat :=
  t.columns.findIdx? fun c => sameName c.name name

def keyNames : List String := ["rowid", "oid", "_rowid_"]

def isKeyName (t : StoredTable) (name : String) : Bool :=
  !t.keyless && (t.column? name).isNone && hasName keyNames name

def counterPlace? (t : StoredTable) : Option Nat := t.counter.bind fun (c, _) => t.place? c

def givenColumns (t : StoredTable) : List StoredColumn := t.columns.filter (·.generated.isNone)

end StoredTable

namespace Thing

def name : Thing → String
  | .table t => t.name
  | .index i => i.name
  | .view v => v.name
  | .trigger t => t.name

def owner : Thing → String
  | .table t => t.name
  | .index i => i.table
  | .view v => v.name
  | .trigger t => t.plan.table.name

def kind : Thing → Kind
  | .table _ => .table
  | .index _ => .index
  | .view _ => .view
  | .trigger _ => .trigger

def sql : Thing → Option String
  | .table t => some t.sql
  | .index i => i.sql
  | .view v => some v.sql
  | .trigger t => some t.sql

end Thing

def Kind.word : Kind → String
  | .table => "table"
  | .index => "index"
  | .view => "view"
  | .trigger => "trigger"

namespace Database

def empty : Database := ⟨[]⟩

def tables (d : Database) : List StoredTable :=
  d.things.filterMap fun | .table t => some t | _ => none

def indexes (d : Database) : List StoredIndex :=
  d.things.filterMap fun | .index i => some i | _ => none

def views (d : Database) : List View :=
  d.things.filterMap fun | .view v => some v | _ => none

def triggers (d : Database) : List Trigger :=
  d.things.filterMap fun | .trigger t => some t | _ => none

def table? (d : Database) (name : String) : Option StoredTable :=
  d.tables.find? fun t => sameName t.name name

def view? (d : Database) (name : String) : Option View := d.views.find? fun v => sameName v.name name

def index? (d : Database) (name : String) : Option StoredIndex :=
  d.indexes.find? fun i => sameName i.name name

def trigger? (d : Database) (name : String) : Option Trigger :=
  d.triggers.find? fun t => sameName t.name name

def indexesOf (d : Database) (table : String) : List StoredIndex :=
  d.indexes.filter fun i => sameName i.table table

def triggersOf (d : Database) (table : String) : List Trigger :=
  (d.triggers.filter fun t => sameName t.plan.table.name table).reverse

/-- Is there something that rows can be read from? -/
def holds (d : Database) (name : String) : Bool := (d.table? name).isSome || (d.view? name).isSome

def takes (d : Database) (name : String) : Bool := d.holds name || (d.index? name).isSome

def add (d : Database) (t : Thing) : Database := ⟨d.things ++ [t]⟩

def setTable (d : Database) (name : String) (t : StoredTable) : Database :=
  ⟨d.things.map fun
    | .table u => if sameName u.name name then .table t else .table u
    | other => other⟩

def without (d : Database) (gone : Thing → Bool) : Database := ⟨d.things.filter fun t => !gone t⟩

/-- The names of the table in which a database lists what it keeps. -/
def catalogues : List String :=
  ["sqlite_master", "sqlite_schema", "sqlite_temp_master", "sqlite_temp_schema"]

def catalogue (d : Database) : List StoredRow :=
  d.things.zipIdx.map fun (t, i) =>
    let hasPages := match t.kind with
      | .table | .index => true
      | _ => false
    ⟨Int.ofNat (i + 1),
     [.text t.kind.word, .text t.name, .text t.owner, .whole (if hasPages then Int.ofNat (i + 2) else 0),
      (t.sql.map Value.text).getD .null]⟩

end Database
end CodeAtlas.Sql
