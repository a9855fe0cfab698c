import CodeAtlas.Text.Basic

/-!
# Statements about the schema

Tables as they are declared, statements about them, and the text of a statement in the dialect of a
database. A script of statements is written for one database; another is changed at once.
-/
namespace CodeAtlas.Schema

/-- A database that statements are written for. -/
inductive Dialect where
  | postgres
  | sqlite
  deriving DecidableEq, Repr

inductive ColumnType where
  | varchar (size : Nat)
  | text
  | boolean
  | integer
  /-- A number that the database counts up. -/
  | counter
  | timestamp
  | json
  | bytes
  deriving DecidableEq, Repr

/-- The value of a column that is left out. -/
inductive Usual where
  | now
  | no
  deriving DecidableEq, Repr

structure Column where
  name : String
  type : ColumnType
  required : Bool
  usual : Option Usual
  deriving DecidableEq, Repr

inductive Rule where
  | primaryKey (columns : List String)
  | unique (columns : List String)
  /-- Columns name a row of another table; they may go when that row goes. -/
  | reference (columns : List String) (table : String) (targets : List String) (follows : Bool)
  | check (condition : String) (columns : List String)
  deriving DecidableEq, Repr

structure Constraint where
  name : Option String
  rule : Rule
  deriving DecidableEq, Repr

structure TableShape where
  name : String
  columns : List Column
  constraints : List Constraint
  deriving DecidableEq, Repr

inductive Statement where
  | createTable (table : TableShape)
  | dropTable (table : String)
  | addColumn (table : String) (column : Column)
  | dropColumn (table column : String)
  | addConstraint (table : String) (constraint : Constraint)
  | dropConstraint (table name : String)
  /-- A truth value is made false in all rows. -/
  | clear (table column : String)
  | insertVersion (version : String)
  | updateVersion (old new : String)
  | deleteVersion (version : String)
  deriving DecidableEq, Repr

def Statement.changesRows : Statement → Bool
  | clear _ _ | insertVersion _ | updateVersion _ _ | deleteVersion _ => true
  | _ => false

/-! ## Parts of statements -/

/-- The words that a column has to be quoted for. -/
def Dialect.reserved : Dialect → List String
  | .postgres => ["check", "default", "end", "limit", "offset", "order", "primary", "table", "user"]
  | .sqlite =>
    ["check", "default", "end", "index", "key", "limit", "match", "offset", "order", "plan", "primary",
     "query", "replace", "row", "table", "temp", "view"]

def Dialect.name (d : Dialect) (column : String) : String :=
  if d.reserved.contains column then "\"" ++ column ++ "\"" else column

def Dialect.names (d : Dialect) (columns : List String) : String :=
  "(" ++ ", ".intercalate (columns.map d.name) ++ ")"

def ColumnType.written : Dialect → ColumnType → String
  | _, .varchar size => "VARCHAR(" ++ toString size ++ ")"
  | _, .text => "TEXT"
  | _, .boolean => "BOOLEAN"
  | _, .integer => "INTEGER"
  | .postgres, .counter => "SERIAL"
  | .sqlite, .counter => "INTEGER"
  | .postgres, .timestamp => "TIMESTAMP WITHOUT TIME ZONE"
  | .sqlite, .timestamp => "TIMESTAMP"
  | _, .json => "JSONB"
  | .postgres, .bytes => "BYTEA"
  | .sqlite, .bytes => "BLOB"

def Usual.written : Dialect → Usual → String
  | _, .now => "CURRENT_TIMESTAMP"
  | .postgres, .no => "false"
  | .sqlite, .no => "(0)"

def Column.written (d : Dialect) (c : Column) : String :=
  d.name c.name ++ " " ++ c.type.written d ++
    (match c.usual with
     | some u => " DEFAULT " ++ u.written d
     | none => "") ++
    if c.required then " NOT NULL" else ""

def Rule.written (d : Dialect) : Rule → String
  | .primaryKey columns => "PRIMARY KEY " ++ d.names columns
  | .unique columns => "UNIQUE " ++ d.names columns
  | .reference columns table targets follows =>
    "FOREIGN KEY" ++ d.names columns ++ " REFERENCES " ++ table ++ " " ++ d.names targets ++
      if follows then " ON DELETE CASCADE" else ""
  | .check condition _ => "CHECK (" ++ condition ++ ")"

def Constraint.written (d : Dialect) (c : Constraint) : String :=
  match c.name with
  | some name => "CONSTRAINT " ++ name ++ " " ++ c.rule.written d
  | none => c.rule.written d

/-! ## The version -/

def versionTable : String := "alembic_version"

def versionColumn : String := "version_num"

def versionShape : TableShape :=
  ⟨versionTable, [⟨versionColumn, .varchar 32, true, none⟩],
   [⟨some (versionTable ++ "_pkc"), .primaryKey [versionColumn]⟩]⟩

private def isVersion (version : String) : String :=
  " WHERE " ++ versionTable ++ ".version_num = '" ++ version ++ "'"

/-! ## Statements -/

def Statement.text (d : Dialect) : Statement → String
  | .createTable t =>
    "CREATE TABLE " ++ t.name ++ " ( " ++
      ", ".intercalate (t.columns.map (·.written d) ++ t.constraints.map (·.written d)) ++ " )"
  | .dropTable table => "DROP TABLE " ++ table
  | .addColumn table column => "ALTER TABLE " ++ table ++ " ADD COLUMN " ++ column.written d
  | .dropColumn table column => "ALTER TABLE " ++ table ++ " DROP COLUMN " ++ d.name column
  | .addConstraint table constraint => "ALTER TABLE " ++ table ++ " ADD " ++ constraint.written d
  | .dropConstraint table name => "ALTER TABLE " ++ table ++ " DROP CONSTRAINT " ++ name
  | .clear table column =>
    "UPDATE " ++ table ++ " SET " ++ column ++ "=" ++
      match d with
      | .postgres => "false"
      | .sqlite => "?"
  | .insertVersion v =>
    "INSERT INTO " ++ versionTable ++ " (version_num) VALUES ('" ++ v ++ "')" ++
      match d with
      | .postgres => " RETURNING " ++ versionTable ++ ".version_num"
      | .sqlite => ""
  | .updateVersion old new => "UPDATE " ++ versionTable ++ " SET version_num='" ++ new ++ "'" ++ isVersion old
  | .deleteVersion v => "DELETE FROM " ++ versionTable ++ isVersion v

end CodeAtlas.Schema
