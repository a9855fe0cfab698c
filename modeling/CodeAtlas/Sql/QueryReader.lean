import CodeAtlas.Sql.Query

/-!
# Reading queries

Expressions and queries are read from tokens. A reader takes tokens from the front of those that are
left, or reads nothing. Operators bind on ten levels, and the readers of the levels call each other with
one step less each time; `measured` gives them steps that are enough for any text.
-/
namespace CodeAtlas.Sql.Reader

abbrev Reads := StateT (List Token) Option

variable {α : Type}

/-! ## Words, marks and names -/

def next : Reads Token
  | t :: ts => some (t, ts)
  | [] => none

/-- Takes words and marks, which are told with a blank between them. -/
def take (s : String) : Reads Unit :=
  (s.splitOn " ").forM fun w => do
    let t ← next
    if t.verb != w && !t.isMark w then failure

def maybe (p : Reads α) : Reads (Option α) := some <$> p <|> pure none

def skip (s : String) : Reads Unit := take s <|> pure ()

def takeAny (choices : List String) : Reads Unit := choices.foldr (fun s p => take s <|> p) failure

/-- Takes one of some choices if it is there. -/
def hasAny (choices : List String) : Reads Bool := Option.isSome <$> maybe (takeAny choices)

def has (s : String) : Reads Bool := hasAny [s]

/-- The value beside the first choice that can be taken. -/
def oneOf (choices : List (String × α)) : Reads α :=
  choices.foldr (fun (s, a) p => (do take s; return a) <|> p) failure

/-- Can a reader read? Nothing is taken. -/
def peek (p : Reads α) : Reads Bool := fun ts => some ((p ts).isSome, ts)

def starts (s : String) : Reads Bool := peek (take s)

/-- Takes the first of two opposite words, or the second, which may be left out. -/
def either (yes no : String) : Reads Bool := do
  let found ← has yes
  if !found then skip no
  return found

def name : Reads String := do (← next).name?

/-- The name of something that a database keeps, with the name of the database if that stands before it. -/
def kept : Reads (Option String × String) := do
  let n ← name
  if ← has "." then return (some n, ← name) else return (none, n)

def items (item : Reads α) : Nat → Reads (List α)
  | 0 => failure
  | n + 1 => do
    let a ← item
    if ← has "," then return a :: (← items item n) else return [a]

def bracketed (item : Reads α) : Reads α := take "(" *> item <* take ")"

/-- Something that may be left out, after words. -/
def optional (s : String) (item : Reads α) : Reads (Option α) := do
  if ← has s then some <$> item else return none

def startsWindows : Reads Bool := peek (take "window" *> name *> take "as")

/-- Another name. The word before it may be left out where the name is no word that joins tables. -/
def label : Reads (Option String) := do
  if ← has "as" then some <$> name
  else if (← startsWindows) || (← starts "indexed") then return none
  else maybe do (← next).label?

/-- The index that a table has to be read by. -/
def indexed : Reads (Option String) := do
  if ← has "not indexed" then return none else optional "indexed" (take "by" *> name)

def startsQuery : Reads Bool := ["( select", "( values", "( with"].anyM starts

def nameList : Reads (List String) := do
  if ← starts "(" then bracketed (items name (← get).length) else return []

/-! ## Operators -/

private def called (function : String) (es : List Expr) : Expr := .call function false false es none none

/-- The operators between two operands, with their level. -/
def operators : List (Nat × String × (Expr → Expr → Expr)) :=
  [(0, "or", .binary .or), (1, "and", .binary .and), (4, "<", .compare .less), (4, "<=", .compare .atMost),
   (4, ">", .compare .more), (4, ">=", .compare .atLeast), (5, "&", .binary .bitAnd), (5, "|", .binary .bitOr),
   (5, "<<", .binary .shiftLeft), (5, ">>", .binary .shiftRight), (6, "+", .binary .add),
   (6, "-", .binary .subtract), (7, "*", .binary .multiply), (7, "/", .binary .divide),
   (7, "%", .binary .remainder), (8, "->", fun a b => called "->" [a, b]),
   (8, "->>", fun a b => called "->>" [a, b]), (8, "||", .binary .join)]

def operator (level : Nat) : Reads (Expr → Expr → Expr) :=
  oneOf ((operators.filter fun (k, _) => k == level).map Prod.snd)

def equality : Reads Comparison :=
  oneOf [("=", .equal), ("==", .equal), ("!=", .differs), ("<>", .differs), ("is not distinct from", .is),
    ("is distinct from", .isNot), ("is not", .isNot), ("is", .is)]

def pattern : Reads String := oneOf (["like", "glob", "regexp", "match"].map fun w => (w, w))

def column : Reads Expr := do
  let t ← next
  let a ← t.name?
  if ← has "." then
    let b ← name
    if ← has "." then return .column (some a) (some b) (← name) else return .column none (some a) b
  match t.kind with
  | .quoted s => return .quoted s
  | .text _ => failure
  | _ => return .column none none a

def signed : Reads Unit := do
  discard (hasAny ["-", "+"])
  match (← next).kind with
  | .whole _ | .real _ => return
  | _ => failure

/-- The name of a type: some words, and perhaps one or two sizes. -/
def type : Reads String := do
  let ts ← get
  let isGenerated (i : Nat) : Bool := (take "generated always" (ts.drop i)).isSome
  let words := ts.take (ts.zipIdx.takeWhile fun (t, i) => t.label?.isSome && !isGenerated i).length
  set (ts.drop words.length)
  if !words.isEmpty then
    if ← has "(" then
      signed
      if ← has "," then signed
      take ")"
  return " ".intercalate (words.filterMap Token.name?)

/-- The way in which two tables are joined: how, and whether by the columns that both have. -/
def join : Reads (JoinKind × Bool) := do
  if ← has "," then return (.inner, false)
  let words := ((← get).takeWhile fun t => Token.joining.contains t.verb).map Token.verb
  modify (·.drop words.length)
  take "join"
  let holds (w : String) : Bool := words.contains w
  let inner := holds "inner" || holds "cross"
  let left := holds "left" || holds "full"
  let right := holds "right" || holds "full"
  if 3 < words.length || (inner && (left || right || holds "outer")) || (holds "outer" && !left && !right) then failure
  let kind := match left, right with
    | true, true => JoinKind.full
    | true, false => .left
    | false, true => .right
    | false, false => .inner
  return (kind, holds "natural")

/-- Which rows of a window are left out, after the bounds. -/
def windowGap : Reads WindowGap := do
  if ← has "exclude" then
    oneOf [("no others", .nothing), ("current row", .currentRow), ("group", .group), ("ties", .ties)]
  else return .nothing

/-- How many rows are taken, and how many are left out before them. -/
def limits (number : Reads Expr) : Reads (Option Expr × Option Expr) := do
  let limit ← optional "limit" number
  if limit.isNone then return (none, none)
  else if ← has "," then return (some (← number), limit)
  else return (limit, ← optional "offset" number)

def endsWritten : Query → Bool
  | .values _ => true
  | .compound _ _ b => endsWritten b
  | _ => false

/-! ## Expressions and queries -/

mutual

/-- An expression whose operators are of a level or of one that binds more closely. -/
def level : Nat → Nat → Reads Expr
  | 0, _ => failure
  | n + 1, k => do
    if k == 2 then
      if ← has "not" then return .unary .not (← level n 2) else level n 3
    else if k == 3 then tests n (← level n 4)
    else if 9 ≤ k then collations n (← operand n)
    else chain n k (← level n (k + 1))

def collations : Nat → Expr → Reads Expr
  | 0, _ => failure
  | n + 1, a => do
    if ← has "collate" then collations n (.collated a (← name)) else return a

/-- What follows an operand with operators of one level. -/
def chain : Nat → Nat → Expr → Reads Expr
  | 0, _, _ => failure
  | n + 1, k, a => do
    match ← maybe (operator k) with
    | none => return a
    | some op => chain n k (op a (← level n (k + 1)))

/-- What follows an operand with tests for equality, for membership, against a pattern or between
bounds. -/
def tests : Nat → Expr → Reads Expr
  | 0, _ => failure
  | n + 1, a => do
    if let some op ← maybe equality then tests n (.compare op a (← level n 4))
    else
      let ts ← get
      let denied ← has "not"
      let sign (e : Expr) : Expr := if denied then .unary .not e else e
      if ← has "in" then tests n (sign (← membership n a))
      else if let some function ← maybe pattern then
        let b ← level n 4
        let escape ← optional "escape" (level n 4)
        tests n (sign (called function (b :: a :: escape.toList)))
      else if ← has "between" then
        let b ← level n 3
        take "and"
        tests n (sign (.between a b (← level n 4)))
      else
        set ts
        match ← maybe (oneOf [("not null", .isNot), ("notnull", .isNot), ("isnull", .is)]) with
        | some test => tests n (.compare test a (.value .null))
        | none => return a

/-- The values that one is sought among: some in brackets, those of a query or those of a table. -/
def membership : Nat → Expr → Reads Expr
  | 0, _ => failure
  | n + 1, a => do
    if ← startsQuery then return .amongRows a (← bracketed (query n))
    else if ← starts "(" then return .among a (← listed n)
    else
      let (database, t) ← kept
      let source ← if ← starts "(" then pure (Source.function t (← listed n) none)
        else pure (.table database t none none)
      return .amongRows a (.select false [.all] (some source) none [] none [])

def listed : Nat → Reads (List Expr)
  | 0 => failure
  | n + 1 => do if ← has "( )" then return [] else bracketed (items (level n 0) n)

def operand : Nat → Reads Expr
  | 0 => failure
  | n + 1 => do
    let ts ← get
    let t ← next
    match t.kind with
    | .whole k => return .value (.whole k)
    | .real x => return .value (.real x)
    | .blob b => return .value (.blob b)
    | .text s => if ← starts "." then set ts *> column else return .value (.text s)
    | .parameter => return .parameter
    | .mark "-" => return .unary .negate (← operand n)
    | .mark "+" => return .unary .keep (← operand n)
    | .mark "~" => return .unary .invert (← operand n)
    | .mark _ =>
      set ts
      if ← startsQuery then return .single (← bracketed (query n))
      match ← bracketed (items (level n 0) n) with
      | [e] => return e
      | es => return .row es
    | _ =>
      match t.verb with
      | "null" => return .value .null
      | "not" => return .unary .not (← level n 2)
      | "case" => branching n
      | "exists" => return .occupied (← bracketed (query n))
      | "current_timestamp" | "current_date" | "current_time" => return called t.verb []
      | verb =>
        if !(← has "(") then set ts *> column
        else if verb == "cast" then
          let e ← level n 0
          take "as"
          return .converted e (← type <* take ")")
        else if verb == "raise" then
          if ← has "ignore" then take ")" *> pure (.raise .ignore)
          else takeAny ["rollback ,", "abort ,", "fail ,"] *> name *> take ")" *> pure (.raise .fail)
        else arguments n (← t.label?)

/-- The arguments of a function after the opening bracket, and the rows that it is about. -/
def arguments : Nat → String → Reads Expr
  | 0, _ => failure
  | n + 1, function => do
    let star ← starts "* )"
    if star then take "*"
    let distinct ← either "distinct" "all"
    let es ← if ← has ")" then pure [] else items (level n 0) n <* take ")"
    let filter ← optional "filter (" (take "where" *> level n 0 <* take ")")
    let window ← if ← has "over (" then some <$> window n <* take ")" else maybe (take "over" *> .named <$> name)
    return .call function distinct star es filter window

def window : Nat → Reads Window
  | 0 => failure
  | n + 1 => do
    let base ← maybe do
      let t ← next
      if ["partition", "range", "rows", "groups"].contains t.verb then failure else t.name?
    let parts ← optional "partition by" (items (level n 0) n)
    let order ← ordering n
    match ← maybe (oneOf [("rows", WindowUnit.rows), ("range", .range), ("groups", .groups)]) with
    | none => return .mk base (parts.getD []) order none
    | some unit =>
      let between ← has "between"
      let low ← windowBound n
      let high ← if between then take "and" *> windowBound n else pure .current
      return .mk base (parts.getD []) order (some (unit, low, high, ← windowGap))

def windowBound : Nat → Reads WindowBound
  | 0 => failure
  | n + 1 =>
    oneOf [("unbounded preceding", .start), ("unbounded following", .stop), ("current row", .current)] <|> do
      let e ← level n 0
      oneOf [("preceding", .before e), ("following", .after e)]

def ordering : Nat → Reads (List OrderTerm)
  | 0 => failure
  | n + 1 => do if ← has "order by" then orderTerms n else return []

def orderTerms : Nat → Reads (List OrderTerm)
  | 0 => failure
  | n + 1 => items (do
      let e ← level n 0
      let falling ← either "desc" "asc"
      return .mk e falling (← optional "nulls" (oneOf [("first", true), ("last", false)]))) n

/-- A choice between cases. -/
def branching : Nat → Reads Expr
  | 0 => failure
  | n + 1 => do
    let subject ← if ← starts "when" then pure none else some <$> level n 0
    let cases ← branches n
    let other ← optional "else" (level n 0)
    take "end"
    return .choice subject cases other

/-- The cases of a choice. -/
def branches : Nat → Reads (List (Expr × Expr))
  | 0 => failure
  | n + 1 => do
    take "when"
    let a ← level n 0
    take "then"
    let b ← level n 0
    if ← starts "when" then return (a, b) :: (← branches n) else return [(a, b)]

def query : Nat → Reads Query
  | 0 => failure
  | n + 1 => do
    if ← has "with" then
      let tables ← commons n
      return .given tables (← body n)
    else body n

/-- The queries that are named after the first word. -/
def commons : Nat → Reads Commons
  | 0 => failure
  | n + 1 => do
    skip "recursive"
    let tables ← items (do
      let name ← name
      let columns ← nameList
      take "as"
      discard (hasAny ["materialized", "not materialized"])
      return (name, columns, ← bracketed (query n))) n
    let names := tables.map Prod.fst
    if (withoutRepeats names).length == names.length then return tables else failure

/-- Queries that are taken together, in an order. Rows that are written out have none. -/
def body : Nat → Reads Query
  | 0 => failure
  | n + 1 => do
    let q ← compounds n (← core n)
    if endsWritten q then return q
    let order ← ordering n
    let (limit, offset) ← limits (level n 0)
    if order.isEmpty && limit.isNone then return q else return .ordered q order limit offset

/-- What follows a query with others that it is taken together with. -/
def compounds : Nat → Query → Reads Query
  | 0, _ => failure
  | n + 1, a => do
    match ← maybe (oneOf [("union all", SetOp.unionAll), ("union", .union), ("intersect", .intersect),
      ("except", .except)]) with
    | none => return a
    | some op => compounds n (.compound op a (← core n))

/-- Rows that are written out, or a selection. -/
def core : Nat → Reads Query
  | 0 => failure
  | n + 1 => do
    if ← has "values" then return .values (← items (bracketed (items (level n 0) n)) n)
    take "select"
    let distinct ← either "distinct" "all"
    let shown ← shownList n
    let source ← optional "from" (source n)
    let condition ← optional "where" (level n 0)
    let groups ← optional "group by" (items (level n 0) n)
    let having ← optional "having" (level n 0)
    let windows ← if ← startsWindows then
        take "window" *> items (do
          let name ← name
          take "as"
          return (name, ← bracketed (window n))) n
      else pure []
    return .select distinct shown source condition (groups.getD []) having windows

def shownList : Nat → Reads (List Shown)
  | 0 => failure
  | n + 1 => items (do
      if ← has "*" then return .all
      if let some t ← maybe (name <* take ". *") then return .allOf t
      let ts ← get
      let e ← level n 0
      let text := Token.spell (ts.take (ts.length - (← get).length))
      return .one e (← label) text) n

/-- The tables that rows are taken from. The first one is joined with none before it. -/
def source : Nat → Reads Source
  | 0 => failure
  | n + 1 => do
    let a ← place n
    if (← starts "on") || (← starts "using") then failure else joins n a

/-- A table, a query in brackets, or tables in brackets. -/
def place : Nat → Reads Source
  | 0 => failure
  | n + 1 => do
    if ← startsQuery then return .query (← bracketed (query n)) (← label)
    else if ← starts "(" then
      let s ← bracketed (source n)
      match ← label, s with
      | none, s => return s
      | some l, .table database t _ index => return .table database t (some l) index
      | some l, .function f es _ => return .function f es (some l)
      | some l, .query q _ => return .query q (some l)
      | some l, s => return .query (.select false [.all] (some s) none [] none []) (some l)
    else
      let (database, t) ← kept
      if ← starts "(" then return .function t (← listed n) (← label)
      else return .table database t (← label) (← indexed)

def joins : Nat → Source → Reads Source
  | 0, _ => failure
  | n + 1, a => do
    match ← maybe join with
    | none => return a
    | some (kind, natural) =>
      let b ← place n
      let on ← optional "on" (level n 0)
      let shared ← if on.isSome then pure none else optional "using" (bracketed (items name n))
      if natural && (on.isSome || shared.isSome) then failure
      else joins n (.joined kind a b natural on (shared.getD []))

end

/-- Reads with steps that are enough for the tokens that are left. -/
def measured (p : Nat → Reads α) : Reads α := do p (24 * ((← get).length + 4))

def expression : Reads Expr := measured fun n => level n 0

end CodeAtlas.Sql.Reader
