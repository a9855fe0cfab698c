import CodeAtlas.Sql.Database

/-!
# Other names for tables and columns

When a table or a column gets another name, everything that names it is changed along: rules and indexes,
views and triggers. A name of a column is only followed where it can stand for that column: the table is in
sight there, and no nearer table has such a column.
-/
namespace CodeAtlas.Sql

inductive Renaming where
  | table (old new : String)
  | column (table old new : String)

/-- Where a name stands: the labels under which the table is known there, and whether its columns are known
without a label. -/
structure Sight where
  labels : List String
  isBare : Bool

namespace Sight

def none : Sight := ⟨[], false⟩

def own (table : String) : Sight := ⟨[table], true⟩

end Sight

namespace Renaming

def subject : Renaming → String
  | table old _ => old
  | column t _ _ => t

def tableName (r : Renaming) (name : String) : String :=
  match r with
  | table old new => if sameName name old then new else name
  | column _ _ _ => name

def columnName (r : Renaming) (name : String) : String :=
  match r with
  | table _ _ => name
  | column _ old new => if sameName name old then new else name

def labelsIn (r : Renaming) : Source → List String
  | .table _ name label _ => if sameName name r.subject then [label.getD name] else []
  | .joined _ a b _ _ _ => labelsIn r a ++ labelsIn r b
  | _ => []

def isHidden (r : Renaming) (d : Database) : Source → Bool
  | .table _ name _ _ =>
    match r with
    | column t old _ => !sameName name t && (d.table? name).any fun u => (u.column? old).isSome
    | table _ _ => false
  | .joined _ a b _ _ _ => isHidden r d a || isHidden r d b
  | _ => false

def sightIn (r : Renaming) (d : Database) (outer : Sight) (s : Option Source) : Sight :=
  match s with
  | none => outer
  | some s =>
    let labels := labelsIn r s
    ⟨labels ++ outer.labels, !labels.isEmpty || (outer.isBare && !isHidden r d s)⟩

def label (r : Renaming) (s : Sight) (name : String) : String :=
  if hasName s.labels name then r.tableName name else name

mutual

def expr (r : Renaming) (d : Database) : Nat → Sight → Expr → Expr
  | 0, _, e => e
  | n + 1, s, e =>
    let go := expr r d n s
    match e with
    | .value v => .value v
    | .parameter => .parameter
    | .column database (some t) name =>
      if hasName s.labels t then .column database (some (r.label s t)) (r.columnName name)
      else .column database (some t) name
    | .column database none name => .column database none (if s.isBare then r.columnName name else name)
    | .quoted name => .quoted (if s.isBare then r.columnName name else name)
    | .unary op e => .unary op (go e)
    | .binary op a b => .binary op (go a) (go b)
    | .compare op a b => .compare op (go a) (go b)
    | .between a b c => .between (go a) (go b) (go c)
    | .choice x cases y => .choice (x.map go) (cases.map fun (a, b) => (go a, go b)) (y.map go)
    | .among a es => .among (go a) (es.map go)
    | .amongRows a q => .amongRows (go a) (query r d n s q)
    | .call f distinct star es filter w =>
      .call f distinct star (es.map go) (filter.map go) (w.map (window r d n s))
    | .converted e t => .converted (go e) t
    | .collated e c => .collated (go e) c
    | .row es => .row (es.map go)
    | .single q => .single (query r d n s q)
    | .occupied q => .occupied (query r d n s q)
    | .raise a => .raise a

def orderTerm (r : Renaming) (d : Database) : Nat → Sight → OrderTerm → OrderTerm
  | 0, _, t => t
  | n + 1, s, .mk e falling nulls => .mk (expr r d n s e) falling nulls

def window (r : Renaming) (d : Database) : Nat → Sight → Window → Window
  | 0, _, w => w
  | _ + 1, _, .named m => .named m
  | n + 1, s, .mk base parts order frame =>
    let bound (b : WindowBound) : WindowBound := match b with
      | .before e => .before (expr r d n s e)
      | .after e => .after (expr r d n s e)
      | b => b
    .mk base (parts.map (expr r d n s)) (order.map (orderTerm r d n s))
      (frame.map fun (unit, low, high, gap) => (unit, bound low, bound high, gap))

def shown (r : Renaming) (d : Database) : Nat → Sight → Shown → Shown
  | 0, _, x => x
  | _ + 1, _, .all => .all
  | _ + 1, s, .allOf t => .allOf (r.label s t)
  | n + 1, s, .one e label spelling => .one (expr r d n s e) label spelling

def source (r : Renaming) (d : Database) : Nat → Sight → Source → Source
  | 0, _, x => x
  | n + 1, s, x =>
    match x with
    | .table database name label index => .table database (r.tableName name) label index
    | .function f es label => .function f (es.map (expr r d n s)) label
    | .query q label => .query (query r d n s q) label
    | .joined kind a b natural on shared =>
      let inner := r.sightIn d s (some x)
      .joined kind (source r d n s a) (source r d n s b) natural (on.map (expr r d n inner))
        (if inner.isBare then shared.map r.columnName else shared)

def query (r : Renaming) (d : Database) : Nat → Sight → Query → Query
  | 0, _, q => q
  | n + 1, s, q =>
    match q with
    | .values rows => .values (rows.map fun es => es.map (expr r d n s))
    | .select distinct items src condition groups having windows =>
      let inner := r.sightIn d s src
      .select distinct (items.map (shown r d n inner)) (src.map (source r d n s)) (condition.map (expr r d n inner))
        (groups.map (expr r d n inner)) (having.map (expr r d n inner))
        (windows.map fun (m, w) => (m, window r d n inner w))
    | .compound op a b => .compound op (query r d n s a) (query r d n s b)
    | .ordered q order limit offset =>
      let inner := match q with
        | .select _ _ src _ _ _ _ => r.sightIn d s src
        | _ => s
      .ordered (query r d n s q) (order.map (orderTerm r d n inner)) (limit.map (expr r d n s)) (offset.map (expr r d n s))
    | .given tables q =>
      -- a query of the same name stands before the table
      if tables.any fun (m, _, _) => sameName m r.subject then .given tables q
      else .given (tables.map fun (m, cs, q) => (m, cs, query r d n s q)) (query r d n s q)

end

/-- Steps enough for expressions and queries inside each other. -/
def steps : Nat := 2000

/-- Columns of the table that is changed and what they get. -/
def assignments (r : Renaming) (d : Database) (isOwn : Bool) (s : Sight) (values : Assignments) : Assignments :=
  values.map fun (names, e) => (if isOwn then names.map r.columnName else names, r.expr d steps s e)

def action (r : Renaming) (d : Database) (s : Sight) : Action → Action
  | .select q => .select (r.query d steps s q)
  | .insert i =>
    let isOwn := sameName i.table.name r.subject
    let inner : Sight := if isOwn then ⟨[i.label.getD i.table.name, "excluded"] ++ s.labels, true⟩ else s
    .insert { i with
      table := { i.table with name := r.tableName i.table.name }
      columns := if isOwn then i.columns.map r.columnName else i.columns
      rows := i.rows.map (r.query d steps s)
      upserts := i.upserts.map fun u => ⟨u.target.map (r.orderTerm d steps inner), u.targetCondition.map (r.expr d steps inner),
        u.change.map fun (values, c) => (r.assignments d isOwn inner values, c.map (r.expr d steps inner))⟩
      returning := i.returning.map (r.shown d steps inner) }
  | .update u =>
    let isOwn := sameName u.table.name r.subject
    let around := r.sightIn d s u.source
    let inner : Sight := if isOwn then ⟨u.label.getD u.table.name :: around.labels, true⟩ else around
    .update { u with
      table := { u.table with name := r.tableName u.table.name }
      values := r.assignments d isOwn inner u.values
      source := u.source.map (r.source d steps s)
      condition := u.condition.map (r.expr d steps inner)
      returning := u.returning.map (r.shown d steps inner) }
  | .delete x =>
    let isOwn := sameName x.table.name r.subject
    let inner : Sight := if isOwn then ⟨x.label.getD x.table.name :: s.labels, true⟩ else s
    .delete { x with
      table := { x.table with name := r.tableName x.table.name }
      condition := x.condition.map (r.expr d steps inner)
      returning := x.returning.map (r.shown d steps inner) }

def trigger (r : Renaming) (d : Database) (t : Trigger) : Trigger :=
  let isOwn := sameName t.plan.table.name r.subject
  let s : Sight := if isOwn then ⟨["new", "old"], false⟩ else .none
  let event := match t.plan.event with
    | .update columns => Event.update (if isOwn then columns.map r.columnName else columns)
    | e => e
  let table : Place := { t.plan.table with name := r.tableName t.plan.table.name }
  { t with plan := ⟨t.plan.timing, event, table, t.plan.condition.map (r.expr d steps s),
      t.plan.actions.map (r.action d s)⟩ }

def view (r : Renaming) (d : Database) (v : View) : View := { v with query := r.query d steps .none v.query }

def index (r : Renaming) (d : Database) (i : StoredIndex) : StoredIndex :=
  if !sameName i.table r.subject then i
  else
    let s := Sight.own i.table
    { i with
      table := r.tableName i.table
      terms := i.terms.map fun t => { t with e := r.expr d steps s t.e }
      condition := i.condition.map (r.expr d steps s) }

def referral (r : Renaming) (isOwn : Bool) (x : Referral) : Referral :=
  ⟨if isOwn then x.columns.map r.columnName else x.columns, r.tableName x.table,
   if sameName x.table r.subject then x.targets.map r.columnName else x.targets⟩

def storedTable (r : Renaming) (d : Database) (t : StoredTable) : StoredTable :=
  let isOwn := sameName t.name r.subject
  let references := t.references.map (r.referral isOwn)
  if !isOwn then { t with references }
  else
    let s := Sight.own t.name
    let columns := t.columns.map fun c => { c with
      name := r.columnName c.name
      generated := c.generated.map fun (e, stored) => (r.expr d steps s e, stored) }
    { t with
      name := r.tableName t.name
      columns
      counter := t.counter.map fun (c, x) => (r.columnName c, x)
      key := t.key.map fun k => { k with e := r.expr d steps s k.e }
      checks := t.checks.map fun (c, e) => (c.map r.columnName, r.expr d steps s e)
      references }

def database (r : Renaming) (d : Database) : Database :=
  ⟨d.things.map fun
    | .table t => .table (r.storedTable d t)
    | .index i => .index (r.index d i)
    | .view v => .view (r.view d v)
    | .trigger t => .trigger (r.trigger d t)⟩

end Renaming
end CodeAtlas.Sql
