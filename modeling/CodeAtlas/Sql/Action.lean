import CodeAtlas.Sql.Change

/-!
# Carrying changes out

A change of rows is looked at before it is made: `prepareAction` looks every name up, also in the triggers
that the change may set off, and answers what is left to do. A trigger is not set off again while it is
being carried out, so the functions call each other with one trigger less each time.
-/
namespace CodeAtlas.Sql

/-- What is left to do when all names are looked up. It answers how many rows it changed. -/
abbrev Prepared := Env → Change Nat

abbrev Given := List (Option Nat × Value)

def Target.places (t : Target) (names : List String) : Except Fault (List (Option Nat)) :=
  names.mapM fun n => match t, t.place? n with
    | .table s, some i =>
      if (s.columns[i]?).any fun c => c.generated.isSome then .error .rejected else .ok (some i)
    | .view _ _ _, some i => .ok (some i)
    | .table s, none => if s.isKeyName n then .ok none else .error .rejected
    | .view _ _ _, none => .error .rejected

def Binder.assignments (b : Binder) (t : Target) (values : Assignments) : Except Fault (List (Option Nat × Term)) := do
  let parts ← values.mapM fun (names, e) => do
    let places ← t.places names
    let terms ← b.row e
    if terms.length != names.length then .error .rejected
    pure (places.zip (terms.map Bound.term))
  return parts.flatten

def Assignments.names (values : Assignments) : List String := values.flatMap Prod.fst

/-- What a change answers of its rows is only looked up. -/
def Binder.returning (b : Binder) (t : Target) (shown : List Shown) : Except Fault Unit := do
  let slots := (t.slots t.name 0 0 false).map fun s => { s with database := none }
  let isStar (s : Shown) : Bool := match s with
    | .allOf _ => true
    | _ => false
  if shown.any isStar then .error .rejected
  { b with scopes := [.ofSlots slots] }.shown slots shown

def Binder.indexedBy (b : Binder) (t : Target) (index : Option String) : Except Fault Unit :=
  if index.all fun i => (b.database.index? i).any fun x => sameName x.table t.name then .ok () else .error .rejected

/-- The first rows in an order. An order is no use without a number of rows. -/
def Binder.portion (b outer : Binder) (p : Portion) (width : Nat) :
    Except Fault (List Term × List SortKey × Option Term × Option Term) := do
  if !p.order.isEmpty && p.limit.isNone then .error .rejected
  let terms ← p.order.mapM fun (.mk e falling nullsFirst) => do
    let x ← b.expr e
    pure (x.term, x.collation.getD .binary, falling, nullsFirst.getD (!falling))
  let alone := { outer with scopes := [] }
  let bound (e : Option Expr) : Except Fault (Option Term) := e.mapM fun e => return (← alone.expr e).term
  return (terms.map Prod.fst,
    terms.zipIdx.map fun ((_, c, falling, nullsFirst), i) => ⟨width + i, c, falling, nullsFirst⟩,
    ← bound p.limit, ← bound p.offset)

def Source.hasTarget (table : String) (label : Option String) : Source → Bool
  | .table _ name l _ => sameName name table && l.map folded == label.map folded
  | .joined _ a b _ _ _ => a.hasTarget table label || b.hasTarget table label
  | _ => false

def Given.first (g : Given) (place : Nat) : Option Value := (g.find? fun (p, _) => p == some place).map Prod.snd

def Given.last (g : Given) (place : Nat) : Option Value := Given.first g.reverse place

/-- The number that is given for a row, in the column that shows it or by another name. -/
def Given.key? (g : Given) (t : StoredTable) : Option Value :=
  (g.reverse.find? fun (p, _) => p.isNone || p == t.counterPlace?).map Prod.snd

def wholeKey (v : Value) : Change Int :=
  match Affinity.integer.apply v with
  | .whole n => return n
  | _ => Change.fail .violated

namespace Rules

def changeRow (s : Rules) (before after : Firing) (reaction : Option Reaction) (env : Env) (key : Int)
    (assign : Env → StoredRow → Except Halt Given) : Change Bool := do
  let some t ← Change.table s.table.name | return false
  let some old := t.row? key | return false
  let given ← Change.look env (assign · old)
  let newKey ← if t.keyless then pure key else match given.key? t with
    | some v => wholeKey v
    | none => pure key
  let changed (base : StoredRow) : List Value := base.cells.zipIdx.map fun (v, i) => (Given.last given i).getD v
  let row (r : StoredRow) : List Value := (StoredTable.level r).row
  let new ← Change.look env fun env => s.complete env newKey (changed old)
  if !(← before env (row old) (row new)) then return false
  let some t ← Change.table s.table.name | return false
  let some now := t.row? key | return false
  let new ← Change.look env fun env => s.complete env newKey (changed now)
  match ← Change.look env fun env =>
      s.judge env reaction (fun _ => false) (t.rows.filter fun r => r.key != key) new with
  | .kept r gone =>
    modify fun d => d.setTable t.name ((t.removeAll (key :: gone)).add r)
    let _ ← after env (row old) (row r)
    return true
  | _ => return false

/-- Takes a row away if it is still there. Is it gone by this? -/
def removeRow (s : Rules) (before after : Firing) (env : Env) (key : Int) : Change Bool := do
  let some t ← Change.table s.table.name | return false
  let some old := t.row? key | return false
  let row := (StoredTable.level old).row
  let nothing := row.map fun _ => Value.null
  if !(← before env row nothing) then return false
  let some t ← Change.table s.table.name | return false
  if (t.row? key).isNone then return false
  modify fun d => d.setTable t.name (t.removeAll [key])
  let _ ← after env row nothing
  return true

/-- The number of a new row. Where numbers are not used again, they may run out. -/
def freshKey (s : Rules) (t : StoredTable) (d : Database) : Change Int := do
  if !t.counted then return t.nextKey
  let used := t.rows.foldl (fun m r => max m r.key) (d.usedKey s.table.name)
  if used < 9223372036854775807 then return used + 1 else Change.fail .rejected

def insertRow (s : Rules) (before after : Firing) (reaction : Option Reaction) (handled : Option String → Bool)
    (clash : Env → Option String → StoredRow → StoredRow → Change Bool) (env : Env) (given : Given) :
    Change Bool := do
  let cells ← Change.look env fun env => s.table.columns.zipIdx.mapM fun (_, i) =>
    match Given.first given i with
    | some v => pure v
    | none => s.usualOf env i
  let asked ← if s.table.keyless then pure none else match given.key? s.table with
    | some .null | none => pure none
    | some v => do pure (some (← wholeKey v))
  let early ← Change.look env fun env => s.complete env (asked.getD (-1)) cells
  let row (r : StoredRow) : List Value := (StoredTable.level r).row
  let nothing (r : StoredRow) : List Value := (row r).map fun _ => .null
  if !(← before env (nothing early) (row early)) then return false
  let some t ← Change.table s.table.name | return false
  let key ← match asked with
    | some k => pure k
    | none => do s.freshKey t (← get)
  if t.counted then modify fun d => d.useKey t.name key
  let new ← Change.look env fun env => s.complete env key cells
  match ← Change.look env fun env => s.judge env reaction handled t.rows new with
  | .skipped => return false
  | .clashing index other => clash env index other new
  | .kept r gone =>
    modify fun d => d.setTable t.name ((t.removeAll gone).add r)
    let _ ← after env (nothing r) (row r)
    return true

end Rules

/-- The index, or the number of the row, in which rows clash that a clause is about. -/
def Upsert.index? (u : Upsert) (s : Rules) : Option (Option String) :=
  let terms := u.target.map fun (.mk e _ _) => (e.bare, match e with
    | .collated _ c => Collation.ofName? c
    | _ => none)
  let isKey := match u.target with
    | [.mk e _ _] => e.name?.any fun n =>
      !s.table.keyless && (s.table.isKeyName n || (s.table.counter.map Prod.fst).any (sameName n))
    | _ => false
  if isKey then some none
  else
    let isMeant (x : Unique) : Bool :=
      x.terms.length == terms.length &&
      ((x.index.terms.zip x.terms).all fun (t, _, c) =>
        terms.any fun (e, d) => Expr.same sameSteps t.e.bare e && d.all (· == c)) &&
      match x.index.condition, u.targetCondition with
      | none, _ => true
      | some c, some d => Expr.same sameSteps c d
      | some _, none => false
    (s.uniques.find? isMeant).map fun x => some x.index.name

mutual

/-- What the triggers do that a change sets off. -/
def prepareFiring : Nat → Context → Target → Event → Timing → Except Fault Firing
  | 0, _, _, _, _ => .ok fun _ _ _ => return true
  | n + 1, c, target, event, timing => do
    let d := c.binder.database
    let own := (d.triggersOf target.name).filter fun t =>
      t.plan.timing == timing && event.isMet t.plan.event && !hasName c.active t.name
    let parts ← own.mapM (prepareTrigger n c target)
    return fun env old new => parts.foldlM (fun go part => if go then part env old new else return false) true

def prepareTrigger : Nat → Context → Target → Trigger → Except Fault Firing
  | 0, _, _, _ => .ok fun _ _ _ => return true
  | n + 1, c, target, t => do
    let old := target.slots "old" 0 0 true
    let new := target.slots "new" 1 target.width true
    let changed := match t.plan.event with
      | .insert => new
      | .delete => old
      | .update _ => old ++ new
    let b : Binder := { Binder.ofDatabase c.binder.database with changed, limits := .stored, raises := true }
    let condition ← t.plan.condition.mapM fun e => return (← b.expr e).term
    let actions ← t.plan.actions.mapM (prepareAction n ⟨b, c.reaction, t.name :: c.active⟩)
    return fun env old new => Change.completed do
      let env := { env with changed := old ++ new, levels := [], working := [], shown := none }
      let isMeant ← match condition with
        | some t => Change.look env (·.holds t)
        | none => pure true
      if isMeant then
        for a in actions do
          let start ← get
          let _ ← a { env with start }

/-- A change of rows, or a query. -/
def prepareAction : Nat → Context → Action → Except Fault Prepared
  | 0, _, _ => .error .rejected
  | n + 1, c, a =>
    match a with
    | .select q => do
      let (plan, _) ← c.binder.query q
      return fun env => do
        let _ ← Change.look env (·.rows plan)
        return 0
    | .insert i => prepareInsertion n c i
    | .update u => prepareUpdate n c u
    | .delete x => prepareDeletion n c x

/-- New rows. -/
def prepareInsertion : Nat → Context → Insertion → Except Fault Prepared
  | 0, _, _ => .error .rejected
  | n + 1, c, i => do
    let b := c.binder
    let target ← b.target i.table
    let names := if i.columns.isEmpty then match target with
        | .table t => t.givenColumns.map StoredColumn.name
        | .view _ _ _ => target.columns
      else i.columns
    let places ← target.places names
    let plan ← match i.rows with
      | none => if i.columns.isEmpty then pure none else .error .rejected
      | some (.values [es]) => do
        let terms ← es.mapM fun e => do pure (← (b.push (.ofSlots [])).expr e).term
        if terms.length != places.length then .error .rejected
        pure (some (Plan.values [terms]))
      | some q => do
        let (plan, columns) ← b.query q
        if columns.length != places.length then .error .rejected
        pure (some plan)
    let reaction := c.reaction.or i.reaction
    let inner := { c with reaction }
    let firing := prepareFiring n inner target .insert
    b.returning target i.returning
    let rowsOf (env : Env) : Change (List Given) := do
      match plan with
      | none => return [[]]
      | some p => return (← Change.look env (·.rows p)).map fun row => places.zip row
    match target with
    | .view name _ columns => do
      if !((b.database.triggersOf name).any fun t => t.plan.event == .insert) || !i.upserts.isEmpty then .error .rejected
      let fire ← firing .instead
      return fun env => do
        for given in ← rowsOf env do
          let new := columns.zipIdx.map fun (_, k) => (Given.first given k).getD .null
          let _ ← fire env (List.replicate (columns.length + 1) .null) (new ++ [.whole (-1)])
        return 0
    | .table t => do
      let rules ← Rules.ofTable b.database t
      for (u, k) in rules.usual.zipIdx do
        if !places.contains (some k) then let _ ← u
      let before ← firing .before
      let after ← firing .after
      let clauses ← i.upserts.mapM fun u => do
        let own := b.push (.ofSlots (t.slots (i.label.getD t.name) 0 0 false))
        for (.mk e _ _) in u.target do let _ ← own.expr e
        match u.targetCondition with
        | some e => do let _ ← own.expr e
        | none => pure ()
        let about ← if u.target.isEmpty then pure none else some <$> needed (u.index? rules)
        let change ← match u.change with
          | none => pure none
          | some (values, condition) => do
            let slots := t.slots (i.label.getD t.name) 0 0 false ++ t.slots "excluded" 1 (t.columns.length + 1) true
            let scope := b.push (.ofSlots slots)
            let terms ← scope.assignments target values
            let condition ← condition.mapM fun e => return (← scope.expr e).term
            let aborting := { c with reaction := some .abort }
            let event := Event.update values.names
            pure (some (terms, condition, ← prepareFiring n aborting target event .before,
              ← prepareFiring n aborting target event .after))
        pure (about, change)
      let meets (about : Option (Option String)) (index : Option String) : Bool := about.all (· == index)
      let clash (env : Env) (index : Option String) (other new : StoredRow) : Change Bool := do
        match clauses.find? fun (about, _) => meets about index with
        | some (_, some (terms, condition, first, last)) =>
          let level (old : StoredRow) : Level := ⟨(StoredTable.level old).row ++ (StoredTable.level new).row, []⟩
          let wanted ← match condition with
            | some t => Change.look env fun env => (env.push (level other)).holds t
            | none => pure true
          if !wanted then return false
          rules.changeRow first last (some .abort) env other.key fun env old =>
            terms.mapM fun (p, t) => do return (p, ← (env.push (level old)).value t)
        | _ => return false
      return fun env => do
        let rows ← rowsOf env
        if t.counted then modify fun d => d.useKey t.name 0
        rows.foldlM (fun count given => do
          let done ← rules.insertRow before after reaction
            (fun index => clauses.any fun (about, _) => meets about index) clash env given
          return if done then count + 1 else count) 0

/-- Rows that get other values. -/
def prepareUpdate : Nat → Context → Update → Except Fault Prepared
  | 0, _, _ => .error .rejected
  | n + 1, c, u => do
    let outer := c.binder
    let target ← outer.target u.table
    outer.indexedBy target u.index
    let label := u.label.getD target.name
    let (origin, slots, width) ← match u.source with
      | none => pure (target.origin, target.slots label 0 0 false, target.width)
      | some s => do
        if s.hasTarget target.name u.label then .error .rejected
        let other ← outer.source s
        pure (Origin.joined .inner target.origin other.origin target.width other.width [] none,
          target.slots label 0 0 false ++ other.behind target.width 1, target.width + other.width)
    let b := outer.push (.ofSlots slots)
    let terms ← b.assignments target u.values
    let condition ← u.condition.mapM fun e => return (← b.expr e).term
    outer.returning target u.returning
    let reaction := c.reaction.or u.reaction
    let event := Event.update u.values.names
    let firing := prepareFiring n { c with reaction } target event
    let own := (List.range target.width).map (Term.column 0 ·)
    let shown := own ++ terms.map Prod.snd
    let (order, keys, limit, offset) ← b.portion outer u.portion shown.length
    let plan := Plan.sorted (.select origin width condition none none none (shown ++ order) none) keys shown.length limit offset
    let keyOf (row : List Value) : Int := ((row[target.width - 1]?).getD .null).toWhole
    let givenOf (row : List Value) : Given := (terms.map Prod.fst).zip (row.drop target.width)
    match target with
    | .view name _ columns => do
      if !((outer.database.triggersOf name).any fun t => event.isMet t.plan.event) then .error .rejected
      let fire ← firing .instead
      return fun env => do
        for row in ← Change.look env (·.rows plan) do
          let old := row.take (columns.length + 1)
          let new := old.zipIdx.map fun (v, k) => (Given.last (givenOf row) k).getD v
          let _ ← fire env old new
        return 0
    | .table t => do
      let rules ← Rules.ofTable outer.database t
      let before ← firing .before
      let after ← firing .after
      return fun env => do
        -- what is set is looked at when the turn of the row comes, unless it comes from other tables
        let light := Plan.sorted (.select origin width condition none none none
          (own ++ (terms.map fun _ => Term.value .null) ++ order) none) keys shown.length limit offset
        let rows ← Change.look env (·.rows (if u.source.isSome then plan else light))
        let last := (rows.reverse.map keyOf).eraseDups.reverse
        let chosen := if u.source.isSome then
            last.filterMap fun k => rows.reverse.find? fun r => keyOf r == k
          else rows
        chosen.foldlM (fun count row => do
          let done ← rules.changeRow before after reaction env (keyOf row) fun env old =>
            if u.source.isSome then return givenOf row
            else terms.mapM fun (p, t) => do return (p, ← (env.push (StoredTable.level old)).value t)
          return if done then count + 1 else count) 0

/-- Rows that go. -/
def prepareDeletion : Nat → Context → Deletion → Except Fault Prepared
  | 0, _, _ => .error .rejected
  | n + 1, c, x => do
    let outer := c.binder
    let target ← outer.target x.table
    outer.indexedBy target x.index
    let b := outer.push (.ofSlots (target.slots (x.label.getD target.name) 0 0 false))
    let condition ← x.condition.mapM fun e => return (← b.expr e).term
    outer.returning target x.returning
    let firing := prepareFiring n c target .delete
    let own := (List.range target.width).map (Term.column 0 ·)
    let (order, keys, limit, offset) ← b.portion outer x.portion own.length
    let plan := Plan.sorted (.select target.origin target.width condition none none none (own ++ order) none)
      keys own.length limit offset
    match target with
    | .view name _ _ => do
      if !((outer.database.triggersOf name).any fun t => t.plan.event == .delete) then .error .rejected
      let fire ← firing .instead
      return fun env => do
        for row in ← Change.look env (·.rows plan) do
          let _ ← fire env row (row.map fun _ => .null)
        return 0
    | .table t => do
      let rules ← Rules.ofTable outer.database t
      let before ← firing .before
      let after ← firing .after
      return fun env => do
        let rows ← Change.look env (·.rows plan)
        rows.foldlM (fun count row => do
          let done ← rules.removeRow before after env ((row[target.width - 1]?).getD .null).toWhole
          return if done then count + 1 else count) 0

end

/-- What is left to do for an action of a statement, with the queries that it names. -/
def Database.prepare (d : Database) (tables : Commons) (a : Action) : Except Fault Prepared :=
  let commons := tables.map fun (m, cs, q) => (⟨m, cs, q, .untouched⟩ : Common)
  let b := { Binder.ofDatabase d with commons := if tables.isEmpty then [] else [commons] }
  prepareAction (4 * d.triggers.length + 8) ⟨b, none, []⟩ a

end CodeAtlas.Sql
