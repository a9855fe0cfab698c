import CodeAtlas.Sql.Query

/-!
# Statements

What a statement asks of a database.
-/
namespace CodeAtlas.Sql

/-- What is done about a row that breaks a rule. -/
inductive Reaction where
  | abort
  | skip
  | replace
  deriving DecidableEq, Repr

/-- The name of something that a database keeps, perhaps with the name of the database. -/
structure Place where
  database : Option String
  name : String
  deriving DecidableEq, Repr

structure KeyTrait where
  falling : Bool
  reaction : Option Reaction
  /-- Are numbers of rows never used again? -/
  counted : Bool
  deriving DecidableEq, Repr

/-- Columns that name a row of another table, with the columns there. -/
structure Referral where
  columns : List String
  table : String
  targets : List String
  deriving DecidableEq, Repr

/-- A column as it is declared. -/
structure Declaration where
  name : String
  type : String
  required : Option (Option Reaction)
  primary : List KeyTrait
  unique : Option (Option Reaction)
  usual : Option Expr
  checks : List Expr
  collation : Option String
  /-- What the value is computed from, and whether it is stored. -/
  generated : Option (Expr × Bool)
  references : List Referral

inductive Rule where
  | primary (columns : List OrderTerm) (counted : Bool) (reaction : Option Reaction)
  | unique (columns : List OrderTerm) (reaction : Option Reaction)
  | check (condition : Expr)
  | reference (r : Referral)

/-- What a database keeps under a name. -/
inductive Kind where
  | table
  | index
  | view
  | trigger
  deriving DecidableEq, Repr

/-- When a trigger is carried out. -/
inductive Timing where
  | before
  | after
  /-- In the place of a change to a view. -/
  | instead
  deriving DecidableEq, Repr

/-- The change that a trigger follows. -/
inductive Event where
  | insert
  | delete
  | update (columns : List String)
  deriving DecidableEq, Repr

/-- Columns and what they get. Several columns get the values of a row. -/
abbrev Assignments := List (List String × Expr)

/-- What is done about a new row that clashes with another one: nothing, or the other row is changed. -/
structure Upsert where
  /-- The columns in which rows clash; any if there are none. -/
  target : List OrderTerm
  targetCondition : Option Expr
  change : Option (Assignments × Option Expr)

/-- The order in which rows are changed, and how many of them. -/
structure Portion where
  order : List OrderTerm
  limit : Option Expr
  offset : Option Expr

/-- New rows; without a query, one row of usual values. -/
structure Insertion where
  reaction : Option Reaction
  table : Place
  label : Option String
  columns : List String
  rows : Option Query
  upserts : List Upsert
  returning : List Shown

structure Update where
  reaction : Option Reaction
  table : Place
  label : Option String
  index : Option String
  values : Assignments
  source : Option Source
  condition : Option Expr
  returning : List Shown
  portion : Portion

structure Deletion where
  table : Place
  label : Option String
  index : Option String
  condition : Option Expr
  returning : List Shown
  portion : Portion

/-- A change of rows, or a query. -/
inductive Action where
  | insert (i : Insertion)
  | update (u : Update)
  | delete (d : Deletion)
  | select (q : Query)

/-- A table as it is declared. -/
structure Layout where
  columns : List Declaration
  rules : List Rule
  /-- Do rows have no numbers? -/
  keyless : Bool
  /-- Does a column hold values of its type only? -/
  strict : Bool

structure TriggerPlan where
  timing : Timing
  event : Event
  table : Place
  condition : Option Expr
  actions : List Action

inductive Statement where
  | createTable (place : Place) (temporary unlessThere : Bool) (layout : Layout)
  | createTableAs (place : Place) (temporary unlessThere : Bool) (q : Query)
  | createIndex (place : Place) (unlessThere unique : Bool) (table : String) (terms : List OrderTerm)
      (condition : Option Expr)
  | createView (place : Place) (temporary unlessThere : Bool) (columns : List String) (q : Query)
  | createTrigger (place : Place) (temporary unlessThere : Bool) (plan : TriggerPlan)
  | createVirtual (place : Place) (unlessThere : Bool) (module : String) (arguments : List String)
  | drop (kind : Kind) (place : Place) (ifThere : Bool)
  | renameTable (table : Place) (name : String)
  | renameColumn (table : Place) (column name : String)
  | addColumn (table : Place) (column : Declaration)
  | dropColumn (table : Place) (column : String)
  | act (tables : Commons) (a : Action)
  | explain (s : Statement)
  /-- A question about the database itself, or a setting. -/
  | setting (place : Place)
  | analyze (place : Option Place)
  | reindex (place : Option Place)
  | vacuum (database : Option String)
  | attach (file name : Expr)
  /-- A statement that changes nothing. -/
  | pass
  /-- A statement that is never in place. -/
  | refuse

end CodeAtlas.Sql
