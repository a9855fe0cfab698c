import CodeAtlas.Sql.Operator
import CodeAtlas.Sql.Token

/-!
# Queries

A query answers rows: those it writes out, those it selects from tables, or those of other queries taken
together. What it selects and under which condition are expressions over the columns of its tables, and an
expression may hold a query in turn.
-/
namespace CodeAtlas.Sql

/-- How two queries are taken together. -/
inductive SetOp where
  | union
  | unionAll
  | intersect
  | except
  deriving DecidableEq, Repr

/-- Which rows of two tables that are joined are kept though none of the other table fits them. -/
inductive JoinKind where
  | inner
  | left
  | right
  | full
  deriving DecidableEq, Repr

/-- What a trigger does when it gives a row up. -/
inductive RaiseAction where
  /-- The row is left as it is. -/
  | ignore
  | fail
  deriving DecidableEq, Repr

inductive WindowUnit where
  | rows
  /-- By the value that rows are ordered by. -/
  | range
  /-- By rows that stand side by side in the order. -/
  | groups
  deriving DecidableEq, Repr

inductive WindowGap where
  | nothing
  | currentRow
  | group
  /-- The rows beside the current one, but not that one. -/
  | ties
  deriving DecidableEq, Repr

mutual

inductive Expr where
  | value (v : Value)
  | parameter
  | column (database table : Option String) (name : String)
  /-- A column if there is one of that name, and a text if not. -/
  | quoted (name : String)
  | unary (op : UnaryOp) (e : Expr)
  | binary (op : BinaryOp) (a b : Expr)
  | compare (op : Comparison) (a b : Expr)
  | between (e low high : Expr)
  /-- The value of the first case that holds, or of none of them. -/
  | choice (operand : Option Expr) (cases : List (Expr × Expr)) (other : Option Expr)
  | among (e : Expr) (es : List Expr)
  | amongRows (e : Expr) (q : Query)
  /-- A function of values, or of rows. It may take every value but once, and stand for all rows with a
  star; it may be about some rows only, or about a window of them. -/
  | call (function : String) (distinct star : Bool) (arguments : List Expr) (filter : Option Expr)
      (window : Option Window)
  | converted (e : Expr) (type : String)
  | collated (e : Expr) (collation : String)
  /-- Some values side by side. -/
  | row (es : List Expr)
  | single (q : Query)
  | occupied (q : Query)
  | raise (action : RaiseAction)

/-- A term of an order: what rows are ordered by, whether it falls, and where nothing stands if not at the
low end. -/
inductive OrderTerm where
  | mk (e : Expr) (falling : Bool) (nullsFirst : Option Bool)

inductive WindowBound where
  | start
  | before (e : Expr)
  | current
  | after (e : Expr)
  | stop

/-- The rows that a function is about, as seen from each row. -/
inductive Window where
  | named (name : String)
  | mk (base : Option String) (parts : List Expr) (order : List OrderTerm)
      (frame : Option (WindowUnit × WindowBound × WindowBound × WindowGap))

/-- What a query shows of a row: all columns, those of a table, or a value, with its label or as it is
spelled. -/
inductive Shown where
  | all
  | allOf (table : String)
  | one (e : Expr) (label : Option String) (spelling : String)

inductive Source where
  | table (database : Option String) (name : String) (label index : Option String)
  | function (name : String) (arguments : List Expr) (label : Option String)
  | query (q : Query) (label : Option String)
  /-- Rows of both sources that fit each other. -/
  | joined (kind : JoinKind) (a b : Source) (natural : Bool) (on : Option Expr) (shared : List String)

inductive Query where
  | values (rows : List (List Expr))
  | select (distinct : Bool) (shown : List Shown) (source : Option Source) (condition : Option Expr)
      (groups : List Expr) (having : Option Expr) (windows : List (String × Window))
  | compound (op : SetOp) (a b : Query)
  | ordered (q : Query) (order : List OrderTerm) (limit offset : Option Expr)
  /-- A query that names others, with the names of their columns. -/
  | given (tables : List (String × List String × Query)) (q : Query)

end

/-- Queries that have names, with the names of their columns. -/
abbrev Commons := List (String × List String × Query)

end CodeAtlas.Sql
