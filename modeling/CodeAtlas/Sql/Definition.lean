import CodeAtlas.Sql.Action

/-!
# Making and removing

What a database keeps is made by a statement that declares it. A table is checked as a whole when it is
declared (`Database.declare`); views and triggers only when they are used.
-/
namespace CodeAtlas.Sql

/-! ## Constants -/

/-- Can an expression be a usual value? It holds no columns, no queries and nothing of a row. -/
def Expr.isConstant : Nat → Expr → Bool
  | 0, _ => false
  | n + 1, e =>
    match e with
    | .value _ => true
    | .column none none name => ["true", "false"].contains (folded name)
    | .unary _ x | .converted x _ | .collated x _ => x.isConstant n
    | .binary _ x y | .compare _ x y => x.isConstant n && y.isConstant n
    | .between x y z => [x, y, z].all (isConstant n)
    | .choice x cases y =>
      x.all (isConstant n) && cases.all (fun (a, b) => a.isConstant n && b.isConstant n) && y.all (isConstant n)
    | .among x xs => (x :: xs).all (isConstant n)
    | .row xs => xs.all (isConstant n)
    | .call _ _ _ xs f none => xs.all (isConstant n) && f.all (isConstant n)
    | _ => false

/-- Is the value of an expression known without looking at the time of day or anything else that changes? -/
def Expr.isSteady : Nat → Expr → Bool
  | 0, _ => false
  | n + 1, e =>
    match e with
    | .value _ | .column _ _ _ => true
    | .unary _ x | .converted x _ | .collated x _ => x.isSteady n
    | .binary _ x y => x.isSteady n && y.isSteady n
    | _ => false

def Term.places : Nat → Term → List Nat
  | 0, _ => []
  | n + 1, t =>
    match t with
    | .column _ p => [p]
    | .unary _ x | .converted x _ | .truth x _ _ | .outward _ x => x.places n
    | .binary _ x y => x.places n ++ y.places n
    | .compare _ tests => tests.flatMap fun (_, x, y) => x.places n ++ y.places n
    | .choice cases x => cases.flatMap (fun (a, b) => a.places n ++ b.places n) ++ x.places n
    | .among x _ xs => (x :: xs).flatMap (places n)
    | .firstOf xs => xs.flatMap (places n)
    | .call _ _ _ xs => xs.flatMap fun (x, _) => x.places n
    | _ => []

/-- Can columns be computed one after the other, each from columns that are known by then? -/
def canCompute (computed : List (Nat × List Nat)) : Bool :=
  let pending := (List.range computed.length).foldl (fun pending _ =>
    pending.filter fun (_, needs) => needs.any fun p => pending.any fun (q, _) => p == q) computed
  pending.isEmpty

/-! ## Tables -/

def Expr.ruleColumn? : Expr → Option (String × Option String)
  | .collated e c => (ruleColumn? e).map fun (n, _) => (n, some c)
  | .column none none n => some (n, none)
  | .quoted n => some (n, none)
  | .value (.text n) => some (n, none)
  | _ => none

def OrderTerm.column? : OrderTerm → Option (String × Option String)
  | .mk e _ _ => e.ruleColumn?

def Declaration.stored (d : Declaration) (strict : Bool) : Except Fault StoredColumn := do
  let collation ← d.collation.elim (pure .binary) fun c => needed (Collation.ofName? c)
  let affinity := if strict && folded d.type == "any" then .blob else Affinity.ofType d.type
  let types := ["int", "integer", "real", "text", "blob", "any"]
  if strict && !types.contains (folded d.type) then .error .rejected
  if d.generated.isSome && d.usual.isSome then .error .rejected
  if !d.usual.all (Expr.isConstant sameSteps) then .error .rejected
  return ⟨d.name, d.type, affinity, collation, d.required, d.usual, d.generated⟩

def ruleTerms (columns : List StoredColumn) (terms : List OrderTerm) : Except Fault (List IndexTerm) :=
  terms.mapM fun t => do
    let some (name, given) := t.column? | .error .rejected
    let some c := columns.find? fun c => sameName c.name name | .error .rejected
    let collation ← given.elim (pure c.collation) fun g => needed (Collation.ofName? g)
    let .mk _ falling nulls := t
    if nulls.isSome then .error .rejected
    return ⟨.column none none c.name, some collation, falling⟩

def sameTerms (a b : List IndexTerm) : Bool :=
  a.length == b.length && (a.zip b).all fun (x, y) =>
    Expr.same sameSteps x.e y.e && x.collation == y.collation

/-- The indexes of some rules of a table. A rule that repeats another adds none, but may say what is done
about rows that clash. -/
def ruleIndexes (table : String) : List (List IndexTerm × Option Reaction) → List StoredIndex →
    Except Fault (List StoredIndex)
  | [], made => .ok made
  | (terms, reaction) :: rest, made =>
    match made.find? fun i => sameTerms i.terms terms with
    | some i =>
      match i.reaction, reaction with
      | some r, some s =>
        if r == s then ruleIndexes table rest made else .error .rejected
      | own, new =>
        ruleIndexes table rest (made.map fun j => if j.name == i.name then { j with reaction := own.or new } else j)
    | none =>
      let name := "sqlite_autoindex_" ++ table ++ "_" ++ toString (made.length + 1)
      ruleIndexes table rest (made ++ [⟨name, table, true, terms, none, reaction, true, none⟩])

def Referral.fits (r : Referral) (columns : List String) : Bool :=
  r.columns.all (hasName columns) && (r.targets.isEmpty || r.targets.length == r.columns.length)

def Database.declare (d : Database) (name : String) (l : Layout) (sql : String) :
    Except Fault (StoredTable × List StoredIndex) := do
  let names := l.columns.map Declaration.name
  if (withoutRepeats names).length != names.length then .error .rejected
  let columns ← l.columns.mapM (·.stored l.strict)
  let keys : List (List OrderTerm × Option KeyTrait × Bool × Option Reaction) :=
    (l.columns.flatMap fun c => c.primary.map fun k =>
      ([.mk (.column none none c.name) k.falling none], some k, k.counted, k.reaction)) ++
    l.rules.filterMap fun
      | .primary terms counted reaction => some (terms, none, counted, reaction)
      | _ => none
  if 1 < keys.length || (l.keyless && keys.isEmpty) then .error .rejected
  let key := keys.head?
  let keyColumns : List String := (key.map fun (terms, _) => (terms.filterMap OrderTerm.column?).map Prod.fst).getD []
  let counter := match key with
    | some ([t], trait, _, reaction) =>
      (t.column?.bind fun (c, _) => columns.find? fun x => sameName x.name c).bind fun c =>
        if !l.keyless && folded c.type == "integer" && !trait.any KeyTrait.falling then some (c.name, reaction) else none
    | _ => none
  let counted := key.any fun (_, _, counted, _) => counted
  if counted && (counter.isNone || l.keyless) then .error .rejected
  if columns.all fun c => c.generated.isSome then .error .rejected
  if columns.any fun c => c.generated.isSome && hasName keyColumns c.name then .error .rejected
  let keyTerms ← match key with
    | some (terms, _) => ruleTerms columns terms
    | none => pure []
  let ownRules : List (List OrderTerm × Option Reaction) :=
    (l.columns.flatMap fun c =>
      let own : List OrderTerm := [.mk (.column none none c.name) false none]
      (if counter.isNone then c.primary.map fun k => (own, k.reaction) else []) ++
        (c.unique.map fun r => (own, r)).toList) ++
    l.rules.filterMap fun
      | .primary terms _ reaction => if counter.isNone then some (terms, reaction) else none
      | .unique terms reaction => some (terms, reaction)
      | _ => none
  let rules ← ownRules.mapM fun (terms, reaction) => do pure (← ruleTerms columns terms, reaction)
  let indexes ← ruleIndexes name rules []
  let indexes := if l.keyless then indexes.filter fun i => !sameTerms i.terms keyTerms else indexes
  let references := l.rules.filterMap fun
    | .reference r => some r
    | _ => none
  if !(l.columns.flatMap Declaration.references ++ references).all (·.fits names) then .error .rejected
  let checks := l.columns.flatMap (fun c => c.checks.map fun e => (some c.name, e)) ++
    l.rules.filterMap fun
      | .check e => some (none, e)
      | _ => none
  let columns := columns.map fun c =>
    if l.keyless && hasName keyColumns c.name && c.required.isNone then { c with required := some none } else c
  let t : StoredTable := ⟨name, columns, counter, counted, l.keyless, l.strict, if l.keyless then keyTerms else [],
    checks, references, [], sql⟩
  let bound ← Rules.ofTable (indexes.foldl (fun d i => d.add (.index i)) d) t
  let computed := bound.computed.map fun (p, e) => (p, e.places sameSteps)
  if !canCompute computed then .error .rejected
  return (t, indexes)

/-- A table whose columns have no types and no rules. -/
def StoredTable.plain (name : String) (columns : List String) (sql : String) : StoredTable :=
  ⟨name, columns.map fun n => ⟨n, "", .blob, .binary, none, none, none⟩, none, false, false, false, [], [], [], [],
   sql⟩

/-- The table that notes which numbers of rows were used. -/
def sequences : StoredTable :=
  .plain sequenceTable ["name", "seq"] "CREATE TABLE sqlite_sequence(name,seq)"

def Database.addTable (d : Database) (t : StoredTable) (indexes : List StoredIndex) : Database :=
  let d := d.add (.table t)
  let d := indexes.foldl (fun d i => d.add (.index i)) d
  if t.counted && (d.table? sequenceTable).isNone then d.add (.table sequences) else d

/-- The type that a table made from a query gives a column. -/
def Affinity.typeName : Affinity → String
  | .text => "TEXT"
  | .numeric => "NUM"
  | .integer => "INT"
  | .real => "REAL"
  | _ => ""

def tableOfRows (name : String) (columns : List OutColumn) (rows : List (List Value)) : StoredTable :=
  let made := columns.map fun c =>
    let a := if c.affinity == .none then .blob else c.affinity
    (⟨c.declared, a.typeName, a, .binary, none, none, none⟩ : StoredColumn)
  let sql := "CREATE TABLE " ++ name ++ "(" ++ String.intercalate "," (made.map fun c =>
    if c.type.isEmpty then c.name else c.name ++ " " ++ c.type) ++ ")"
  let stored := rows.zipIdx.map fun (cells, i) =>
    (⟨Int.ofNat (i + 1), (made.zip cells).map fun (c, v) => c.affinity.apply v⟩ : StoredRow)
  ⟨name, made, none, false, false, false, [], [], [], stored, sql⟩

/-! ## Names -/

/-- Is something made in the database itself, or only for the time of a connection? A name with a database
is not one for a connection, unless that is said twice. -/
def Place.isTemporary (p : Place) (temporary : Bool) : Except Fault Bool :=
  match p.database with
  | none => .ok temporary
  | some s =>
    if sameName s "temp" then .ok true
    else if sameName s "main" && !temporary then .ok false
    else .error .rejected

/-- A database with a new table or view, unless its name is taken. What is made for the time of a
connection is not kept. -/
def Database.make (d : Database) (p : Place) (temporary unlessThere : Bool) (new : Except Fault Database) :
    Except Fault Database := do
  let temporary ← p.isTemporary temporary
  if isInternal p.name then .error .rejected
  else if temporary then do
    let _ ← new
    return d
  else if d.holds p.name then if unlessThere then return d else .error .rejected
  else if d.takes p.name then .error .rejected
  else new

def StoredTable.declareIndex (t : StoredTable) (d : Database) (name : String) (unique : Bool)
    (terms : List OrderTerm) (condition : Option Expr) (sql : String) : Except Fault (StoredIndex × Unique) := do
  let made ← terms.mapM fun term => do
    let .mk e falling nulls := term
    if nulls.isSome then .error .rejected
    let collation ← match e with
      | .collated _ c => some <$> needed (Collation.ofName? c)
      | _ => pure none
    -- a text in the place of a column is its name
    let e := match e.bare with
      | .value (.text n) => Expr.column none none n
      | .quoted n => if (t.column? n).isSome then .column none none n else .quoted n
      | e => e
    pure (⟨e, collation, falling⟩ : IndexTerm)
  let i : StoredIndex := ⟨name, t.name, unique, made, condition, none, false, some sql⟩
  let u ← (t.binder d .check).unique i
  return (i, u)

def Database.makeIndex (d : Database) (p : Place) (unlessThere unique : Bool) (table : String)
    (terms : List OrderTerm) (condition : Option Expr) (sql : String) : Except Fault Database := do
  if !p.database.all (sameName "main") then .error .rejected
  let some t := d.table? table | .error .rejected
  if isInternal p.name || isInternal t.name || d.holds p.name then .error .rejected
  if (d.index? p.name).isSome then if unlessThere then return d else .error .rejected
  let (i, u) ← t.declareIndex d p.name unique terms condition sql
  let env := Env.ofDatabase d none
  let clashes := t.rows.zipIdx.anyM fun (r, k) => do
    return !(← u.clashing env (t.rows.drop (k + 1)) r).isEmpty
  match clashes with
  | .error (.fault f) => .error f
  | .error .ignored => .error .rejected
  | .ok broken => if unique && broken then .error .violated else return d.add (.index i)

def Database.makeTrigger (d : Database) (p : Place) (temporary unlessThere : Bool) (plan : TriggerPlan)
    (sql : String) : Except Fault Database := do
  let temporary ← p.isTemporary temporary
  if !plan.table.database.all (sameName "main") || !d.holds plan.table.name then .error .rejected
  if isInternal p.name then .error .rejected
  if (d.trigger? p.name).isSome && !temporary then if unlessThere then return d else .error .rejected
  if isInternal plan.table.name then .error .rejected
  if (plan.timing == .instead) != (d.view? plan.table.name).isSome then .error .rejected
  if temporary then return d else return d.add (.trigger ⟨p.name, plan, sql⟩)

def Database.makeVirtual (d : Database) (p : Place) (unlessThere : Bool) (module : String)
    (arguments : List String) (sql : String) : Except Fault Database :=
  d.make p false unlessThere do
    if !hasName ["fts3", "fts4", "fts5", "rtree"] module then .error .rejected
    let names := arguments.filterMap fun a =>
      if a.toList.contains '=' then none
      else (a.toList.takeWhile fun c => c.isAlphanum || c == '_') |> fun cs =>
        if cs.isEmpty then none else some (String.ofList cs)
    let names := if names.isEmpty then ["content"] else names
    return d.add (.table (.plain p.name names sql))

/-! ## Removing -/

/-- A database without something that it keeps. Indexes and triggers go with their table or view; what
stands for a rule stays with its table. -/
def Database.remove (d : Database) : Kind → String → Except Fault (Option Database)
  | .table, name =>
    match d.table? name with
    | none => if (d.view? name).isSome || Database.catalogues.contains (folded name) then .error .rejected else .ok none
    | some t =>
      if isInternal t.name && !Text.startsWith "sqlite_stat" (folded t.name) then .error .rejected
      else
        let d := d.without fun
          | .table u => sameName u.name t.name
          | .index i => sameName i.table t.name
          | .trigger u => sameName u.plan.table.name t.name
          | .view _ => false
        .ok (some (match d.table? sequenceTable with
          | some s =>
            if t.counted then
              d.setTable sequenceTable { s with rows := s.rows.filter fun r => r.cells.head? != some (.text t.name) }
            else d
          | none => d))
  | .index, name =>
    match d.index? name with
    | none => .ok none
    | some i =>
      if i.isRule then .error .rejected
      else .ok (some (d.without fun | .index j => sameName j.name i.name | _ => false))
  | .view, name =>
    match d.view? name with
    | none => if (d.table? name).isSome then .error .rejected else .ok none
    | some v => .ok (some (d.without fun
        | .view w => sameName w.name v.name
        | .trigger t => sameName t.plan.table.name v.name
        | _ => false))
  | .trigger, name =>
    match d.trigger? name with
    | none => .ok none
    | some t => .ok (some (d.without fun | .trigger u => sameName u.name t.name | _ => false))

def Database.drop (d : Database) (kind : Kind) (p : Place) (ifThere : Bool) : Except Fault Database := do
  let found ← if p.database.all (sameName "main") then d.remove kind p.name else pure none
  match found with
  | some d => return d
  | none => if ifThere then return d else .error .rejected

end CodeAtlas.Sql
