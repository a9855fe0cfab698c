import CodeAtlas.Sql.Function
import CodeAtlas.Sql.Query

/-!
# Terms and plans

When the names of an expression are looked up, a term is left, and of a query a plan. A term finds a column
by its place in a row, and by how many queries out that row is. All that is needed to compare two values
(what they are compared as, and in which collation) is known by then.
-/
namespace CodeAtlas.Sql

/-- How two values are compared. -/
structure Manner where
  affinity : Affinity
  collation : Collation
  deriving DecidableEq, Repr

/-- What rows are ordered by: a place in the row, and in which way. -/
structure SortKey where
  place : Nat
  collation : Collation
  falling : Bool
  nullsFirst : Bool
  deriving DecidableEq, Repr

mutual

inductive Term where
  | value (v : Value)
  | parameter
  /-- The column at a place in the row of a query, so many queries out. -/
  | column (level place : Nat)
  /-- A value of the change that a trigger is carried out for. -/
  | changed (place : Nat)
  | unary (op : UnaryOp) (t : Term)
  | binary (op : BinaryOp) (a b : Term)
  | compare (op : Comparison) (tests : List (Manner × Term × Term))
  /-- Is a value true, or false, or is it not? -/
  | truth (t : Term) (expected denied : Bool)
  /-- The value of the first case that holds, or another one. -/
  | choice (cases : List (Term × Term)) (other : Term)
  | among (t : Term) (manner : Manner) (ts : List Term)
  | amongRows (ts : List (Manner × Term)) (fixed : Bool) (p : Plan)
  /-- A function, which may not have to ask for the time of day; each argument comes with whether it is a
  document. -/
  | call (function : String) (collation : Collation) (timeless : Bool) (ts : List (Term × Bool))
  /-- The first of some values that is there, or of which a condition holds. -/
  | firstOf (ts : List Term)
  /-- A function of the rows that stand together in a query, so many queries out. -/
  | aggregate (level : Nat) (function : String) (collation : Collation) (distinct : Bool)
      (ts : List (Term × Bool)) (filter : Option Term)
  | window (function : String) (collation : Collation) (ts : List (Term × Bool)) (filter : Option Term)
      (parts : List (Term × Collation)) (order : List (Term × SortKey)) (unit : WindowUnit)
      (low high : TermBound) (gap : WindowGap)
  | converted (t : Term) (affinity : Affinity)
  /-- A value of the first row of a plan. A plan that is fixed does not depend on the rows around it. -/
  | single (fixed : Bool) (p : Plan) (place : Nat)
  | occupied (fixed : Bool) (p : Plan)
  /-- A term that is looked at from some queries further out. -/
  | outward (levels : Nat) (t : Term)
  | raise (action : RaiseAction)

inductive TermBound where
  | start
  | before (t : Term)
  | current
  | after (t : Term)
  | stop

inductive Origin where
  /-- One row without columns. -/
  | unit
  /-- The rows of a table, each with its number at the end. -/
  | table (name : String)
  /-- What the database keeps. -/
  | catalogue (temporary : Bool)
  | plan (p : Plan)
  /-- The rows that a query found last that names itself, so many such queries out. -/
  | working (level : Nat)
  /-- The rows that a function answers, as seen from the rows before it. -/
  | function (name : String) (ts : List Term)
  | joined (kind : JoinKind) (a b : Origin) (left right : Nat) (shared : List (Manner × List Nat × Nat))
      (on : Option Term)

inductive Plan where
  | values (rows : List (List Term))
  /-- Rows that a condition holds of, taken together by groups if there are any, and what is shown of them.
  The first columns may show no two rows alike. Where one row stands for a group, it may be the one with the
  greatest or the least value. -/
  | select (source : Origin) (width : Nat) (condition : Option Term)
      (groups : Option (List (Term × Collation))) (having : Option Term) (representative : Option (Bool × Collation × Term))
      (shown : List Term) (distinct : Option (List Collation))
  | compound (op : SetOp) (collations : List Collation) (a b : Plan)
  /-- Rows in an order, and a part of them; only so many columns are shown. -/
  | sorted (p : Plan) (keys : List SortKey) (width : Nat) (limit offset : Option Term)
  /-- Rows, and further rows that are found from each of them in turn. -/
  | recursive (start next : Plan) (all : Bool) (collations : List Collation) (keys : List SortKey)
      (limit offset : Option Term)

end

instance : Inhabited Term := ⟨.value .null⟩

instance : Inhabited Plan := ⟨.values []⟩

end CodeAtlas.Sql
