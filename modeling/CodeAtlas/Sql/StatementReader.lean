import CodeAtlas.Sql.QueryReader
import CodeAtlas.Sql.Statement

/-!
# Reading statements

`Statement.ofTokens` reads the first statement of some tokens. An empty text is a statement that does
nothing.
-/
namespace CodeAtlas.Sql.Reader

def location : Reads Place := do
  let (database, name) ← kept
  return ⟨database, name⟩

/-! ## Columns and rules -/

/-- The word for what is done about a row that breaks a rule. -/
def reactionWord : Reads Reaction :=
  oneOf [("rollback", .abort), ("abort", .abort), ("fail", .abort), ("ignore", .skip), ("replace", .replace)]

/-- What is done about a row that breaks a rule, if it is said. -/
def reaction : Reads (Option Reaction) := optional "on conflict" reactionWord

/-- When a reference is looked for. -/
def deferral : Reads Unit := do
  takeAny ["not deferrable", "deferrable"]
  if ← has "initially" then takeAny ["deferred", "immediate"]

/-- What is said of a reference after its table: what happens when the row of that table changes. -/
def referral : Nat → Reads Unit
  | 0 => return
  | n + 1 => do
    if ← hasAny ["on delete", "on update", "on insert"] then
      takeAny ["set null", "set default", "cascade", "restrict", "no action"]
      referral n
    else if ← has "match" then name *> referral n

def reference (columns : List String) : Reads Referral := do
  let r : Referral := ⟨columns, ← name, ← nameList⟩
  referral (← get).length
  return r

def literal : Reads Expr := do
  let isLiteral (t : Token) : Bool := match t.kind with
    | .whole _ | .real _ | .blob _ | .text _ => true
    | _ => ["null", "current_timestamp", "current_date", "current_time"].contains t.verb
  if (← get).head?.any isLiteral then measured operand else failure

/-- The value that a column has if none is given. -/
def usual : Reads Expr := do
  if ← starts "(" then bracketed expression
  else if ← has "-" then return .unary .negate (← literal)
  else if ← has "+" then literal
  else literal <|> do
    let t ← next
    match t.kind, t.verb with
    | .quoted s, _ | .name s, _ => return .value (.text s)
    | _, "true" => return .value (.whole 1)
    | _, "false" => return .value (.whole 0)
    | _, _ => return .value (.text (← t.identifier?))

/-- How a column is computed. The word after it holds whether its values are stored. -/
def generation : Reads (Expr × Bool) := do
  let e ← bracketed expression
  if ← has "stored" then return (e, true)
  else if ← has "virtual" then return (e, false)
  else if (← get).head?.any (·.identifier?.isSome) then failure
  else return (e, false)

/-- What is said of a column after its type. -/
def traits : Nat → Declaration → Reads Declaration
  | 0, d => return d
  | n + 1, d => do
    if ← has "constraint" then name *> traits n d
    else if ← has "primary key" then
      let falling ← either "desc" "asc"
      let r ← reaction
      traits n { d with primary := d.primary ++ [⟨falling, r, ← has "autoincrement"⟩] }
    else if ← has "not null" then traits n { d with required := some (← reaction) }
    else if ← has "null" then reaction *> traits n d
    else if ← has "unique" then traits n { d with unique := some (← reaction) }
    else if ← has "check" then traits n { d with checks := d.checks ++ [← bracketed expression] }
    else if ← has "default" then traits n { d with usual := some (← usual) }
    else if ← has "collate" then traits n { d with collation := some (← name) }
    else if ← has "references" then traits n { d with references := d.references ++ [← reference [d.name]] }
    else if ← hasAny ["generated always as", "as"] then traits n { d with generated := some (← generation) }
    else if (← maybe deferral).isSome then traits n d
    else return d

def declaration : Reads Declaration := do
  let name ← name
  let type ← type
  traits (← get).length ⟨name, type, none, [], none, none, [], none, none, []⟩

def rule : Reads Rule := do
  if ← has "primary key (" then
    let columns ← measured orderTerms
    let counted ← has "autoincrement"
    take ")"
    return .primary columns counted (← reaction)
  else if ← has "unique" then return .unique (← bracketed (measured orderTerms)) (← reaction)
  else if ← has "check" then return .check (← bracketed expression <* reaction)
  else
    take "foreign key"
    let columns ← bracketed (items name (← get).length)
    take "references"
    return .reference (← reference columns <* maybe deferral)

/-- The rules up to the closing bracket. The commas between them may be left out, and a name may stand for
itself. -/
def rules : Nat → Reads (List Rule)
  | 0 => failure
  | n + 1 => do
    if ← has ")" then return []
    skip ","
    if ← has "constraint" then name *> rules n
    else
      let r ← rule
      return r :: (← rules n)

def columnsAndRules : Nat → Reads (List Declaration × List Rule)
  | 0 => failure
  | n + 1 => do
    let d ← declaration
    if ← [", constraint", ", primary", ", unique", ", check", ", foreign"].anyM starts then
      return ([d], ← rules (2 * n + 2))
    else if ← has "," then
      let (ds, rs) ← columnsAndRules n
      return (d :: ds, rs)
    else take ")" *> pure ([d], [])

/-- What is said of a table after its closing bracket: do rows have no numbers, and are types binding? -/
def options : Nat → Reads (Bool × Bool)
  | 0 => failure
  | n + 1 => do
    match ← maybe (oneOf [("without rowid", (true, false)), ("strict", (false, true))]) with
    | none => return (false, false)
    | some (a, b) =>
      if !(← has ",") then return (a, b)
      else if (← starts "without") || (← starts "strict") then
        let (c, d) ← options n
        return (a || c, b || d)
      else failure

/-! ## Changes of rows -/

/-- What a statement does with rows that break a rule. -/
def onConflict : Reads (Option Reaction) := optional "or" reactionWord

/-- The rows that a statement answers. -/
def returning : Reads (List Shown) := do
  return (← optional "returning" (measured shownList)).getD []

/-- Columns and the values they get. -/
def assignments : Reads Assignments := measured <| items do
  let names ← if ← starts "(" then nameList else pure [← name]
  take "="
  return (names, ← expression)

/-- What is done with rows that are there already, after the rows of an insertion. Only the last of several
may be about any clash. -/
def upserts : Nat → Reads (List Upsert)
  | 0 => failure
  | n + 1 => do
    if !(← has "on conflict") then return []
    let target ← if ← starts "(" then bracketed (measured orderTerms) else pure []
    let condition ← if target.isEmpty then pure none else optional "where" expression
    let change ← if ← has "do nothing" then pure none else
      take "do update set"
      let values ← assignments
      pure (some (values, ← optional "where" expression))
    let u : Upsert := ⟨target, condition, change⟩
    if target.isEmpty then return [u] else return u :: (← upserts n)

def insertion (r : Option Reaction) : Reads Insertion := do
  take "into"
  let table ← location
  let name ← optional "as" name
  let columns ← nameList
  if ← has "default values" then return ⟨r, table, name, columns, none, [], ← returning⟩
  let q ← measured query
  let us ← upserts ((← get).length + 1)
  return ⟨r, table, name, columns, some q, us, ← returning⟩

/-- The order in which rows are changed, and how many of them. -/
def portion : Reads Portion := do
  let order ← measured ordering
  let (limit, offset) ← limits expression
  return ⟨order, limit, offset⟩

def change : Reads Update := do
  let r ← onConflict
  let table ← location
  let name ← optional "as" name
  let index ← indexed
  take "set"
  let values ← assignments
  let from? ← optional "from" (measured source)
  let condition ← optional "where" expression
  return ⟨r, table, name, index, values, from?, condition, ← returning, ← portion⟩

def deletion : Reads Deletion := do
  take "from"
  let table ← location
  let name ← optional "as" name
  let index ← indexed
  let condition ← optional "where" expression
  return ⟨table, name, index, condition, ← returning, ← portion⟩

/-- A change of rows, or a query. -/
def action : Reads Action := do
  if ← has "insert" then return .insert (← insertion (← onConflict))
  else if ← has "replace" then return .insert (← insertion (some .replace))
  else if ← has "update" then return .update (← change)
  else if ← has "delete" then return .delete (← deletion)
  else return .select (← measured query)

/-! ## Triggers -/

private def isWhole (p : Portion) : Bool := p.order.isEmpty && p.limit.isNone

def Action.fitsTrigger : Action → Bool
  | .insert i => i.table.database.isNone && i.label.isNone && i.rows.isSome && i.returning.isEmpty
  | .update u =>
    u.table.database.isNone && u.label.isNone && u.index.isNone && u.returning.isEmpty && isWhole u.portion
  | .delete d =>
    d.table.database.isNone && d.label.isNone && d.index.isNone && d.returning.isEmpty && isWhole d.portion
  | .select _ => true

def actions : Nat → Reads (List Action)
  | 0 => failure
  | n + 1 => do
    let a ← action
    take ";"
    if !Action.fitsTrigger a then failure
    else if ← has "end" then return [a]
    else return a :: (← actions n)

def triggerPlan : Reads TriggerPlan := do
  let timing ← oneOf [("before", .before), ("after", .after), ("instead of", .instead)] <|> pure .before
  let event ← oneOf [("insert", .insert), ("delete", .delete)] <|> do
    take "update"
    return .update ((← optional "of" (items name (← get).length)).getD [])
  take "on"
  let table ← location
  skip "for each row"
  let condition ← optional "when" expression
  take "begin"
  return ⟨timing, event, table, condition, ← actions ((← get).length + 1)⟩

/-! ## Statements -/

/-- Is a thing made only if it is not there? -/
def unlessThere : Reads Bool := has "if not exists"

def moduleArguments : Nat → Nat → List Token → Reads (List String)
  | 0, _, _ => failure
  | n + 1, depth, acc => do
    let t ← next
    let done := Token.spell acc.reverse
    if depth == 0 && t.isMark ")" then return [done]
    else if depth == 0 && t.isMark "," then return done :: (← moduleArguments n 0 [])
    else
      let depth := if t.isMark "(" then depth + 1 else if t.isMark ")" then depth - 1 else depth
      moduleArguments n depth (t :: acc)

def creation : Reads Statement := do
  let temporary ← hasAny ["temp", "temporary"]
  if ← has "table" then
    let ifNot ← unlessThere
    let place ← location
    if ← has "as" then return .createTableAs place temporary ifNot (← measured query)
    take "("
    let (ds, rs) ← columnsAndRules ((← get).length + 1)
    let (keyless, strict) ← options ((← get).length + 1)
    return .createTable place temporary ifNot ⟨ds, rs, keyless, strict⟩
  else if ← has "view" then
    let ifNot ← unlessThere
    let place ← location
    let columns ← nameList
    take "as"
    return .createView place temporary ifNot columns (← measured query)
  else if ← has "trigger" then
    let ifNot ← unlessThere
    return .createTrigger (← location) temporary ifNot (← triggerPlan)
  else if temporary then failure
  else if ← has "virtual table" then
    let ifNot ← unlessThere
    let place ← location
    take "using"
    let module ← name
    let arguments ← if ← has "(" then moduleArguments ((← get).length + 1) 0 [] else pure []
    return .createVirtual place ifNot module arguments
  else
    let unique ← has "unique"
    take "index"
    let ifNot ← unlessThere
    let place ← location
    take "on"
    let table ← name
    let terms ← bracketed (measured orderTerms)
    return .createIndex place ifNot unique table terms (← optional "where" expression)

def removal : Reads Statement := do
  let kind ← oneOf [("table", Kind.table), ("index", .index), ("view", .view), ("trigger", .trigger)]
  let ifThere ← has "if exists"
  return .drop kind (← location) ifThere

def alteration : Reads Statement := do
  take "table"
  let table ← location
  if ← has "rename to" then return .renameTable table (← name)
  else if ← has "rename" then
    skip "column"
    let column ← name
    take "to"
    return .renameColumn table column (← name)
  else if ← has "add" then return .addColumn table (← skip "column" *> declaration)
  else return .dropColumn table (← take "drop" *> skip "column" *> name)

/-- A statement about the database itself: a name, and perhaps a value. -/
def pragma : Reads Statement := do
  let place ← location
  let value : Reads Unit := signed <|> do
    let t ← next
    guard (t.name?.isSome || ["on", "delete", "default"].contains t.verb)
  if ← has "=" then value
  else if ← has "(" then value *> take ")"
  return .setting place

def transaction : Reads Unit := do
  if ← has "transaction" then discard (maybe name)

def service : String → Reads Statement
  | "pragma" => pragma
  | "begin" => hasAny ["deferred", "immediate", "exclusive"] *> transaction *> pure .pass
  | "savepoint" => name *> pure .pass
  | "commit" | "end" => transaction *> pure .refuse
  | "rollback" => do
    transaction
    if ← has "to" then skip "savepoint" *> discard name
    return .refuse
  | "release" => skip "savepoint" *> name *> pure .refuse
  | "detach" => skip "database" *> expression *> pure .refuse
  | "vacuum" => .vacuum <$> (maybe name <* optional "into" expression)
  | "analyze" => .analyze <$> maybe location
  | "reindex" => .reindex <$> maybe location
  | "attach" => do
    skip "database"
    let file ← expression
    take "as"
    return .attach file (← expression)
  | _ => failure

def plain : Reads Statement := do
  let ts ← get
  if ts.isEmpty then return .pass
  match (← next).verb with
  | "create" => creation
  | "drop" => removal
  | "alter" => alteration
  | "insert" | "replace" | "update" | "delete" | "select" | "values" => set ts *> .act [] <$> action
  | "with" => return .act (← measured commons) (← action)
  | verb => service verb

/-- A statement, or the question how one would be carried out. -/
def statement : Reads Statement := do
  if !(← has "explain") then plain
  else
    skip "query plan"
    if (← get).isEmpty then failure else .explain <$> plain

end CodeAtlas.Sql.Reader

namespace CodeAtlas.Sql.Statement

def ofTokens (ts : List Token) : Option (Statement × Bool) := do
  let (s, rest) ← Reader.statement (ts.dropWhile (·.isMark ";"))
  match rest with
  | [] => some (s, false)
  | t :: rest => if t.isMark ";" then some (s, !rest.isEmpty) else none

/-- The text under which a database keeps what a statement makes: from the name on. -/
def spelling (ts : List Token) : String :=
  let ts := (ts.dropWhile (·.isMark ";")).drop 1
  let leading := ["temp", "temporary", "unique", "virtual", "table", "index", "view", "trigger"]
  let ts := ts.dropWhile fun t => leading.contains t.verb
  let ts := (Reader.unlessThere ts).elim ts Prod.snd
  let ts := match ts with
    | _ :: dot :: rest => if dot.isMark "." then rest else ts
    | _ => ts
  -- the mark at the end does not belong to it
  let ts := (ts.reverse.dropWhile (·.isMark ";")).reverse
  Token.spell ts

end CodeAtlas.Sql.Statement
