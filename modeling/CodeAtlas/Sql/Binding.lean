import CodeAtlas.Sql.Scope

/-!
# Looking names up

Expressions become terms and queries plans: every name is replaced by the column it stands for, every view
and every query with a name by its plan, and whatever is not in place is refused. No row is looked at.

The functions call each other with one step less each time.
-/
namespace CodeAtlas.Sql

/-! ## Functions of rows -/

/-- The functions of all the values of some rows, with the numbers of their arguments. -/
def aggregateFunctions : List (String × Nat × Nat) :=
  [("avg", 1, 1), ("count", 0, 1), ("group_concat", 1, 2), ("json_group_array", 1, 1),
   ("json_group_object", 2, 2), ("max", 1, 1), ("min", 1, 1), ("sum", 1, 1), ("total", 1, 1)]

def windowFunctions : List (String × Nat × Nat) :=
  [("cume_dist", 0, 0), ("dense_rank", 0, 0), ("first_value", 1, 1), ("lag", 1, 3), ("last_value", 1, 1),
   ("lead", 1, 3), ("nth_value", 2, 2), ("ntile", 1, 1), ("percent_rank", 0, 0), ("rank", 0, 0),
   ("row_number", 0, 0)]

def offers (functions : List (String × Nat × Nat)) (name : String) (count : Nat) : Bool :=
  functions.any fun (f, least, most) => f == name && least ≤ count && count ≤ most

def Term.isDocument : Term → Bool
  | .call f _ _ _ => Function.documents.contains f
  | .aggregate _ f _ _ _ _ => Text.startsWith "json_group" f
  | _ => false

/-! ## Names of columns -/

def Expr.ordinal? : Expr → Option Int
  | .value (.whole n) => some n
  | .unary .negate e => (ordinal? e).map fun n => -n
  | .unary .keep e => ordinal? e
  | _ => none

def Expr.bare : Expr → Expr
  | .collated e _ => e.bare
  | e => e

/-- Are two expressions written alike, as far as indexes are about them? -/
def Expr.same : Nat → Expr → Expr → Bool
  | 0, _, _ => false
  | n + 1, a, b =>
    let all (as bs : List Expr) : Bool := as.length == bs.length && (as.zip bs).all fun (x, y) => same n x y
    match a, b with
    | .value v, .value w => v == w
    | .column _ _ c, .column _ _ d | .column _ _ c, .quoted d | .quoted c, .column _ _ d | .quoted c, .quoted d =>
      sameName c d
    | .unary o x, .unary p y => o == p && same n x y
    | .binary o x y, .binary p z w => o == p && all [x, y] [z, w]
    | .compare o x y, .compare p z w => o == p && all [x, y] [z, w]
    | .between x y z, .between u v w => all [x, y, z] [u, v, w]
    | .among x xs, .among y ys => all (x :: xs) (y :: ys)
    | .call f _ _ xs none none, .call g _ _ ys none none => sameName f g && all xs ys
    | .converted x t, .converted y u => sameName t u && same n x y
    | .collated x c, .collated y d => sameName c d && same n x y
    | _, _ => false

def sameSteps : Nat := 200

def Expr.name? : Expr → Option String
  | .column none none n => some n
  | .quoted n => some n
  | _ => none

/-- The queries that are taken together, from left to right. -/
def Query.leaves : Query → List Query
  | .compound _ a b => a.leaves ++ b.leaves
  | q => [q]

/-- What is bound of a query: its plan, its columns, and the places of further values by which it is to be
ordered. -/
structure Selected where
  plan : Plan
  columns : List OutColumn
  keys : List SortKey
  /-- Does it take rows together? -/
  grouped : Bool
  windowed : Bool

/-- What is bound of the tables of a query: the rows, and the columns by their places in them. -/
structure Sourced where
  origin : Origin
  slots : List Slot
  width : Nat

namespace Sourced

def behind (s : Sourced) (width sources : Nat) : List Slot :=
  s.slots.map fun x =>
    { x with place := x.place + width, others := x.others.map (· + width), source := x.source + sources }

def sources (s : Sourced) : Nat := (s.slots.map fun x => x.source + 1).foldl max 0

end Sourced

def memberColumns : List String := ["key", "value", "type", "atom", "id", "parent", "fullkey", "path"]

def tableFunctions : List (String × List String) :=
  [("json_each", memberColumns), ("json_tree", memberColumns)]

def markCommon (groups : List (List Common)) (name : String) (p : Progress) : List (List Common) :=
  match groups with
  | [] => []
  | g :: gs => g.map (fun c => if sameName c.name name then { c with progress := p } else c) :: gs

def commonGroups (name : String) : List (List Common) → List (List Common)
  | [] => []
  | g :: gs => if g.any fun c => sameName c.name name then g :: gs else commonGroups name gs

def renamed (columns : List OutColumn) (names : List String) : Bind (List OutColumn) :=
  if names.isEmpty then pure columns
  else if names.length = columns.length then
    pure ((columns.zip (Sql.apart names)).map fun (c, n) => { c with name := n, declared := n })
  else Bind.refuse

def boundsFit : WindowBound → WindowBound → Bool
  | .stop, _ => false
  | _, .start => false
  | .current, .before _ => false
  | .after _, .before _ => false
  | .after _, .current => false
  | _, _ => true

def WindowBound.isCounted : WindowBound → Bool
  | .before _ | .after _ => true
  | _ => false

/-- Does a query take rows from a table with a name at its first level? -/
def Source.names (name : String) : Source → Nat
  | .table none t _ _ => if sameName t name then 1 else 0
  | .joined _ a b _ _ _ => a.names name + b.names name
  | _ => 0

def Query.names (name : String) : Query → Nat
  | .select _ _ (some s) _ _ _ _ => s.names name
  | _ => 0

def Query.split? (name : String) : Query → Option (Query × List Query × Bool)
  | .compound op a b =>
    if op ≠ .union ∧ op ≠ .unionAll then none
    else if b.names name = 0 then none
    else
      match a.split? name with
      | some (start, more, all) => if all == (op == .unionAll) then some (start, more ++ [b], all) else none
      | none => some (a, [b], op == .unionAll)
  | _ => none

mutual

def bindExpr : Nat → Binder → Expr → Bind Bound
  | 0, _, _ => Bind.refuse
  | n + 1, b, e =>
    match e with
    | .value (.whole k) =>
      if Cell.fits k then pure (.plain (.value (.whole k)))
      else pure (.plain (.value ((Value.text (toString k)).toNumber)))
    | .value v => pure (.plain (.value v))
    | .parameter => do
      Bind.ensure b.limits.parameters
      return .plain .parameter
    | .column database table name => do
      match ← b.find database table name with
      | .slot level s => b.column level table.isSome s
      | .label level e => bindLabel n b level e
      | .changed s => return ⟨.changed s.place, s.affinity, some s.collation, false, some s.name⟩
      | .missing =>
        match table, folded name with
        | none, "true" => return .plain (.value (.whole 1))
        | none, "false" => return .plain (.value (.whole 0))
        | _, _ => Bind.refuse
    | .quoted name => do
      match ← b.find none none name with
      | .slot level s => b.column level false s
      | .label level e => bindLabel n b level e
      | .changed s => return ⟨.changed s.place, s.affinity, some s.collation, false, some s.name⟩
      | .missing => return .plain (.value (.text name))
    | .unary .negate (.value (.whole k)) =>
      if k = 9223372036854775808 then pure (.plain (.value (.whole (-k))))
      else do
        let x ← bindExpr n b (.value (.whole k))
        return .made (.unary .negate x.term) [x]
    | .unary .negate (.value (.real x)) => pure (.plain (.value (.real (Value.opposite x))))
    | .unary op e => do
      let x ← bindExpr n b e
      if op = .keep then return { x with term := .unary .keep x.term, affinity := .none, name := none }
      else return .made (.unary op x.term) [x]
    | .binary op a c => do
      let x ← bindExpr n b a
      let y ← bindExpr n b c
      return .made (.binary op x.term y.term) [x, y]
    | .compare op a c => do
      let isTruth : Option Bool ← match op, c.bare with
        | .is, .column none none w | .isNot, .column none none w => do
          match ← b.find none none w with
          | .missing =>
            match folded w with
            | "true" => pure (some true)
            | "false" => pure (some false)
            | _ => pure none
          | _ => pure none
        | _, _ => pure none
      match isTruth with
      | some expected =>
        let x ← bindExpr n b a
        return .made (.truth x.term expected (op == .isNot)) [x]
      | none =>
        let xs ← bindRow n b a
        let ys ← bindRow n b c
        bindComparison op xs ys
    | .between e low high => do
      let xs ← bindRow n b e
      let lows ← bindRow n b low
      let highs ← bindRow n b high
      let x ← bindComparison .atLeast xs lows
      let y ← bindComparison .atMost xs highs
      return .made (.binary .and x.term y.term) (xs ++ lows ++ highs)
    | .choice subject cases other => do
      let subject ← subject.mapM (bindRow n b)
      let cases ← cases.mapM fun (a, c) => do
        let test ← match subject with
          | some xs => do
            let ys ← bindRow n b a
            bindComparison .equal xs ys
          | none => bindExpr n b a
        let y ← bindExpr n b c
        return (test, y)
      let other ← match other with
        | some e => bindExpr n b e
        | none => pure (.plain (.value .null))
      return .made (.choice (cases.map fun (t, y) => (t.term, y.term)) other.term)
        (cases.map Prod.snd ++ [other])
    | .among e [.single q] => bindExpr n b (.amongRows e q)
    | .among (.row es) rows =>
      bindExpr n b (.amongRows (.row es) (.values (rows.map fun | .row r => r | r => [r])))
    | .among e es => do
      let x ← bindExpr n b e
      let ys ← es.mapM (bindExpr n b)
      return .made (.among x.term ⟨x.affinity, x.collation.getD .binary⟩ (ys.map Bound.term)) [x]
    | .amongRows e q => do
      Bind.ensure b.limits.queries
      let xs ← bindRow n b e
      let ((plan, columns), fixed) ← bindInner n b q
      Bind.ensure (columns.length == xs.length)
      let tests := (xs.zip columns).map fun (x, c) =>
        let y : Bound := ⟨.value .null, c.affinity, c.collation, false, none⟩
        (Bound.manner x y, x.term)
      return .made (.amongRows tests fixed plan) xs
    | .single q => do
      Bind.ensure b.limits.queries
      let ((plan, columns), fixed) ← bindInner n b q
      match columns with
      | [c] => return ⟨.single fixed plan 0, c.affinity, none, false, none⟩
      | _ => Bind.refuse
    | .occupied q => do
      Bind.ensure b.limits.queries
      let ((plan, _), fixed) ← bindInner n b q
      return .plain (.occupied fixed plan)
    | .converted e type => do
      let x ← bindExpr n b e
      let a := Affinity.ofType type
      return { x with term := .converted x.term a, affinity := a, name := none }
    | .collated e name => do
      let x ← bindExpr n b e
      return { x with collation := some (← needed (Collation.ofName? name)), explicit := true }
    | .row _ => Bind.refuse
    | .raise action => do
      Bind.ensure b.raises
      return .plain (.raise action)
    | .call function distinct _ arguments filter window =>
      bindCall n b (folded function) distinct arguments filter window

/-- A label of a query, looked at from some queries further in. -/
def bindLabel : Nat → Binder → Nat → Expr → Bind Bound
  | 0, _, _, _ => Bind.refuse
  | n + 1, b, level, e => do
    let outer := { b with scopes := b.scopes.drop level }
    let x ← bindExpr n (outer.adjust fun s => { s with labels := [] }) e
    return { x with term := if level = 0 then x.term else .outward level x.term }

def bindRow : Nat → Binder → Expr → Bind (List Bound)
  | 0, _, _ => Bind.refuse
  | n + 1, b, e =>
    match e with
    | .row es => es.mapM (bindExpr n b)
    | .single q => do
      Bind.ensure b.limits.queries
      let ((plan, columns), fixed) ← bindInner n b q
      return columns.zipIdx.map fun (c, i) => ⟨.single fixed plan i, c.affinity, none, false, none⟩
    | e => do return [← bindExpr n b e]

/-- A test of two rows of values, which have to be of the same length. -/
def bindComparison (op : Comparison) (xs ys : List Bound) : Bind Bound := do
  Bind.ensure (xs.length == ys.length)
  return .made (.compare op ((xs.zip ys).map fun (x, y) => (Bound.manner x y, x.term, y.term))) (xs ++ ys)

def bindInner : Nat → Binder → Query → Bind ((Plan × List OutColumn) × Bool)
  | 0, _, _ => Bind.refuse
  | n + 1, b, q => do
    let (found, uses) ← Bind.observed (bindQuery n b q)
    let fixed := uses.columns.all (b.scopes.length ≤ ·) && uses.aggregates.all (b.scopes.length ≤ ·)
    return (found, fixed)

def bindCall : Nat → Binder → String → Bool → List Expr → Option Expr → Option Window → Bind Bound
  | 0, _, _, _, _, _, _ => Bind.refuse
  | n + 1, b, name, distinct, arguments, filter, window => do
    let count := arguments.length
    let rowFunction := offers aggregateFunctions name count
    let placeFunction := offers windowFunctions name count
    let tagged (xs : List Bound) : List (Term × Bool) := xs.map fun x => (x.term, x.term.isDocument)
    let collationOf (xs : List Bound) : Collation := (xs.findSome? Bound.collation).getD .binary
    match window with
    | some w =>
      Bind.ensure ((rowFunction || placeFunction) && !distinct && (filter.isNone || rowFunction) &&
        b.scopes.head?.any Scope.windowed)
      let inner := b.adjust fun s => { s with windowed := false }
      let xs ← arguments.mapM (bindExpr n inner)
      let filter ← filter.mapM fun e => return (← bindExpr n inner e).term
      let t ← bindWindow n inner w fun parts order unit low high gap =>
        .window name (collationOf xs) (tagged xs) filter parts order unit low high gap
      modify fun u => { u with windows := b.absolute 0 :: u.windows }
      return .made t xs
    | none =>
      if rowFunction then
        Bind.ensure (b.scopes.head?.any Scope.aggregates && (!distinct || count == 1))
        let inner := b.adjust fun s => { s with aggregates := false, windowed := false }
        let ((xs, filter), uses) ← Bind.observed do
          let xs ← arguments.mapM (bindExpr n inner)
          let filter ← filter.mapM fun e => return (← bindExpr n inner e).term
          pure (xs, filter)
        let around := uses.columns.filter (· < b.scopes.length)
        let home := if around.isEmpty then b.absolute 0 else around.foldl max 0
        let level := b.scopes.length - 1 - home
        Bind.ensure ((b.scopes[level]?).any Scope.aggregates)
        modify fun u => { u with aggregates := home :: u.aggregates }
        return .made (.aggregate level name (collationOf xs) distinct (tagged xs) filter) xs
      else
        Bind.ensure filter.isNone
        let some f := Function.find? name count | Bind.refuse
        Bind.ensure (f.steady || b.limits.unsteady)
        let xs ← arguments.mapM (bindExpr n b)
        match name, xs with
        | "coalesce", xs | "ifnull", xs => return .made (.firstOf (xs.map Bound.term)) xs
        | "iif", [c, x, y] => return .made (.choice [(c.term, x.term)] y.term) [x, y]
        | "likely", [x] | "unlikely", [x] => return x
        | "likelihood", [x, p] =>
          match p.term with
          | .value (.real r) =>
            Bind.ensure (!r.isNegative && Value.orderReals r (Binary64.ofInt 1) != .gt)
            return x
          | _ => Bind.refuse
        | _, xs => return .made (.call name (collationOf xs) (!b.limits.present) (tagged xs)) xs

/-- A window, with the parts that it takes over from another one. -/
def bindWindow : Nat → Binder → Window →
    (List (Term × Collation) → List (Term × SortKey) → WindowUnit → TermBound → TermBound → WindowGap → Term) →
    Bind Term
  | 0, _, _, _ => Bind.refuse
  | n + 1, b, w, build => do
    let known (name : String) : Option Window :=
      (b.scopes.head?.bind fun s => s.windows.find? fun (m, _) => sameName m name).map Prod.snd
    match w with
    | .named name => bindWindow n b (← needed (known name)) build
    | .mk (some base) parts order frame =>
      match known base with
      | some (.mk base' parts' order' none) => do
        Bind.ensure (parts.isEmpty && (order.isEmpty || order'.isEmpty))
        bindWindow n b (.mk base' parts' (if order.isEmpty then order' else order) frame) build
      | _ => Bind.refuse
    | .mk none parts order frame => do
      let parts ← parts.mapM fun e => do
        let x ← bindExpr n b e
        pure (x.term, x.collation.getD .binary)
      let order ← order.mapM fun (.mk e falling nullsFirst) => do
        let x ← bindExpr n b e
        pure (x.term, (⟨0, x.collation.getD .binary, falling, nullsFirst.getD (!falling)⟩ : SortKey))
      let (unit, low, high, gap) := frame.getD (.range, .start, .current, .nothing)
      Bind.ensure (boundsFit low high)
      if unit = .range ∧ (low.isCounted ∨ high.isCounted) then Bind.ensure (order.length == 1)
      let bound (w : WindowBound) : Bind TermBound := match w with
        | .start => pure .start
        | .stop => pure .stop
        | .current => pure .current
        | .before e => do pure (.before (← bindExpr n { b with scopes := [] } e).term)
        | .after e => do pure (.after (← bindExpr n { b with scopes := [] } e).term)
      return build parts order unit (← bound low) (← bound high) gap

def bindQuery : Nat → Binder → Query → Bind (Plan × List OutColumn)
  | 0, _, _ => Bind.refuse
  | n + 1, b, q =>
    match q with
    | .given tables q =>
      bindQuery n { b with commons := (tables.map fun (m, cs, q) => ⟨m, cs, q, .untouched⟩) :: b.commons } q
    | .ordered q order limit offset => do
      let s ← bindOrdered n b q order
      let limit ← bindLimit n b limit
      let offset ← bindLimit n b offset
      return (.sorted s.plan s.keys s.columns.length limit offset, s.columns)
    | q => do
      let s ← bindOrdered n b q []
      return (s.plan, s.columns)

/-- How many rows are taken. No column is known there. -/
def bindLimit : Nat → Binder → Option Expr → Bind (Option Term)
  | 0, _, _ => Bind.refuse
  | _ + 1, _, none => pure none
  | n + 1, b, some e => do return some (← bindExpr n { b with scopes := [] } e).term

def bindOrdered : Nat → Binder → Query → List OrderTerm → Bind Selected
  | 0, _, _, _ => Bind.refuse
  | n + 1, b, q, order =>
    match q with
    | .values rows => do
      let here := b.push { Scope.ofSlots [] with aggregates := rows.length == 1 }
      let (bound, uses) ← Bind.observed (rows.mapM fun es => es.mapM (bindExpr n here))
      let first := bound.head?.getD []
      Bind.ensure (bound.all fun r => r.length == first.length)
      let columns := first.zipIdx.map fun (x, i) =>
        let name := "column" ++ toString (i + 1)
        (⟨name, name, x.affinity, x.collation⟩ : OutColumn)
      let terms := bound.map fun r => r.map Bound.term
      let plan := if uses.aggregates.contains (b.scopes.length) then
          Plan.select .unit 0 none (some []) none none (terms.head?.getD []) none
        else .values terms
      return ⟨plan, columns, [], false, false⟩
    | .select distinct shown source condition groups having windows =>
      bindSelect n b distinct shown source condition groups having windows order
    | .compound op a c => do
      let x ← bindOrdered n b a []
      let y ← bindOrdered n b c []
      Bind.ensure (x.columns.length == y.columns.length)
      let columns := (x.columns.zip y.columns).map fun (l, r) => { l with collation := l.collation.or r.collation }
      let keys ← order.mapM fun (.mk e falling nullsFirst) => do
        let i ← bindPlace n b q.leaves e
        let given := match e with
          | .collated _ name => Collation.ofName? name
          | _ => none
        let collation := (given.or ((columns[i]?).bind OutColumn.collation)).getD .binary
        pure (⟨i, collation, falling, nullsFirst.getD (!falling)⟩ : SortKey)
      return ⟨.compound op (columns.map fun c => c.collation.getD .binary) x.plan y.plan, columns, keys, false, false⟩
    | q => do
      let (plan, columns) ← bindQuery n b q
      Bind.ensure order.isEmpty
      return ⟨plan, columns, [], false, false⟩

/-- The place of a column of queries that are taken together: by its number, by a label in one of them, or as
one of them shows it. -/
def bindPlace : Nat → Binder → List Query → Expr → Bind Nat
  | 0, _, _, _ => Bind.refuse
  | _ + 1, _, [], _ => Bind.refuse
  | n + 1, b, q :: qs, e => do
    if let some k := e.bare.ordinal? then
      let s ← bindOrdered n b q []
      Bind.ensure (1 ≤ k && k ≤ s.columns.length)
      return (k - 1).toNat
    let .select _ shown source _ _ _ windows := q | bindPlace n b qs e
    let same ← Bind.attempt do
      let s ← bindSource n b (source.getD (.query (.values [[]]) none))
      let place (found : Option Nat) : Option Nat := found.map (shownPlace shown s.slots)
      let labelled := place (shown.findIdx? fun
        | .one _ (some l) _ => e.bare.name?.any (sameName l)
        | _ => false)
      let here := b.push { Scope.ofSlots s.slots with windows }
      let column ← Bind.attempt do
        let x ← bindExpr n here e.bare
        let items ← bindShown n here source.isSome s.slots shown
        let isSame (t u : Term) : Bool := match t, u with
          | .column l p, .column m q => l == m && p == q
          | _, _ => false
        needed (items.findIdx? fun (y, _) => isSame x.term y.term)
      let written := place (shown.findIdx? fun
        | .one f _ _ => Expr.same sameSteps f.bare e.bare
        | _ => false)
      needed ((labelled.or column).or written)
    match same with
    | some i => return i
    | none => bindPlace n b qs e

def bindShown : Nat → Binder → Bool → List Slot → List Shown → Bind (List (Bound × OutColumn))
  | 0, _, _, _, _ => Bind.refuse
  | n + 1, b, hasSource, slots, shown => do
    let ofSlot (qualified : Bool) (s : Slot) : Bind (Bound × OutColumn) := do
      let x ← b.column 0 qualified s
      pure (x, ⟨s.name, s.name, s.affinity, some s.collation⟩)
    let parts ← shown.mapM fun item => match item with
      | .all => do
        Bind.ensure hasSource
        (slots.filter Slot.shown).mapM (ofSlot false)
      | .allOf t => do
        let own := slots.filter fun s => !s.isKey && sameName s.label t
        Bind.ensure (!own.isEmpty)
        own.mapM (ofSlot true)
      | .one e label spelling => do
        let x ← bindExpr n b e
        let written := match label, e.bare with
          | some l, _ => l
          | none, .column _ _ name => name
          | none, .quoted name => name
          | none, _ => spelling
        let declared := match label with
          | some l => l
          | none => x.name.getD spelling
        pure [(x, ⟨written, declared, x.affinity, x.collation⟩)]
    return parts.flatten

def bindSelect : Nat → Binder → Bool → List Shown → Option Source → Option Expr → List Expr → Option Expr →
    List (String × Window) → List OrderTerm → Bind Selected
  | 0, _, _, _, _, _, _, _, _, _ => Bind.refuse
  | n + 1, b, distinct, shown, source, condition, groups, having, windows, order => do
    let taken ← match source with
      | some s => bindSource n b s
      | none => pure ⟨.unit, [], 0⟩
    let home := b.scopes.length
    let scope : Scope := ⟨taken.slots, [], windows, true, true⟩
    let (items, uses) ← Bind.observed (bindShown n (b.push scope) source.isSome taken.slots shown)
    let grouped := !groups.isEmpty || uses.aggregates.contains home
    let labels := shown.filterMap fun
      | .one e (some l) _ => some (l, e)
      | _ => none
    let within (aggregates windowed : Bool) : Binder := b.push { scope with labels, aggregates, windowed }
    let condition ← condition.mapM fun e => return (← bindExpr n (within false false) e).term
    let groupTerms ← groups.mapM fun e =>
      match e.ordinal? with
      | some k => do
        Bind.ensure (1 ≤ k && k ≤ items.length)
        let (x, used) ← Bind.observed (match shown[(k - 1).toNat]? with
          | some (.one e _ _) => bindExpr n (within true false) e
          | _ => pure ((items[(k - 1).toNat]?.map Prod.fst).getD (.plain (.value .null))))
        Bind.ensure (!used.aggregates.contains home)
        pure (x.term, x.collation.getD .binary)
      | none => do
        let x ← bindExpr n (within false false) e
        pure (x.term, x.collation.getD .binary)
    Bind.ensure (having.isNone || grouped)
    let having ← having.mapM fun e => return (← bindExpr n (within true false) e).term
    let ordered ← order.mapM fun (.mk e falling nullsFirst) => do
      let given := match e with
        | .collated _ name => Collation.ofName? name
        | _ => none
      let key (place : Nat) (c : Option Collation) : SortKey :=
        ⟨place, (given.or c).getD .binary, falling, nullsFirst.getD (!falling)⟩
      let labelled := shown.findIdx? fun
        | .one _ (some l) _ => e.bare.name?.any (sameName l)
        | _ => false
      match labelled, e.bare.ordinal? with
      | some i, _ =>
        -- stars before the label may show more than one column
        let place := shownPlace shown taken.slots i
        pure (key place ((items[place]?).bind fun (x, _) => x.collation), none)
      | none, some k => do
        Bind.ensure (1 ≤ k && k ≤ items.length)
        let place := (k - 1).toNat
        pure (key place ((items[place]?).bind fun (x, _) => x.collation), none)
      | none, none => do
        let x ← bindExpr n (within grouped true) e
        pure (key 0 x.collation, some x.term)
    let width := items.length
    let (keys, extra) := ordered.foldl (fun (keys, extra) (k, t) =>
      match t with
      | some t => (keys ++ [{ k with place := width + extra.length }], extra ++ [t])
      | none => (keys ++ [k], extra)) ([], [])
    let terms := items.map fun (x, _) => x.term
    let representative := (terms ++ extra ++ having.toList).findSome? fun
      | .aggregate 0 f c _ [(t, _)] none =>
        if f == "max" then some (true, c, t) else if f == "min" then some (false, c, t) else none
      | _ => none
    let distinctBy := if distinct then some (items.map fun (x, _) => x.collation.getD .binary) else none
    let plan := Plan.select taken.origin taken.width condition (if grouped then some groupTerms else none) having
      representative (terms ++ extra) distinctBy
    return ⟨plan, OutColumn.apart (items.map Prod.snd), keys, grouped, uses.windows.contains home⟩

def shownPlace (shown : List Shown) (slots : List Slot) (i : Nat) : Nat :=
  (shown.take i).foldl (fun k item => k + match item with
    | .all => (slots.filter Slot.shown).length
    | .allOf t => (slots.filter fun s => !s.isKey && sameName s.label t).length
    | .one _ _ _ => 1) 0

/-- The tables that rows are taken from. -/
def bindSource : Nat → Binder → Source → Bind Sourced
  | 0, _, _ => Bind.refuse
  | n + 1, b, s =>
    let function (before : List Slot) (name : String) (arguments : List Expr) (label : Option String) := do
      let some (_, columns) := tableFunctions.find? fun (f, _) => sameName f name | Bind.refuse
      Bind.ensure (1 ≤ arguments.length && arguments.length ≤ 2)
      let xs ← arguments.mapM (bindExpr n (b.push (.ofSlots before)))
      let out := columns.map fun c => (⟨c, c, .none, none⟩ : OutColumn)
      return ⟨.function (folded name) (xs.map Bound.term), OutColumn.slots out (label.getD name) 0 false, columns.length⟩
    match s with
    | .table database name label index => bindTable n b database name (label.getD name) index
    | .query q label => do
      let (plan, columns) ← bindQuery n b q
      return ⟨.plan plan, OutColumn.slots columns (label.getD "") 0 false, columns.length⟩
    | .function name arguments label => function [] name arguments label
    | .joined kind a c natural on shared => do
      let x ← bindSource n b a
      let y ← match c with
        | .function name arguments label => function x.slots name arguments label
        | c => bindSource n b c
      let right := y.behind x.width x.sources
      let names := if natural then
          (right.filter fun s => s.shown && x.slots.any fun l => l.shown && sameName l.name s.name).map Slot.name
        else shared
      let pairs ← names.mapM fun name => do
        let l := x.slots.find? fun s => !s.guarded && !s.isKey && sameName s.name name
        let r := right.find? fun s => !s.isKey && sameName s.name name
        match l, r with
        | some l, some r => pure (l, r)
        | _, _ => Bind.refuse
      let outer := kind == .right || kind == .full
      let left := x.slots.map fun s =>
        match pairs.find? fun (l, _) => l.place == s.place && !s.isKey with
        | some (_, r) => if outer then { s with others := s.others ++ [r.place] } else s
        | none => s
      let right := right.map fun s =>
        if pairs.any fun (_, r) => r.place == s.place && !s.isKey then { s with shown := false, guarded := true } else s
      let slots := left ++ right
      let tests := pairs.map fun (l, r) =>
        ((⟨l.affinity.common r.affinity, l.collation⟩ : Manner), l.place :: l.others, r.place - x.width)
      let on ← on.mapM fun e => return (← bindExpr n (b.push (.ofSlots slots)) e).term
      return ⟨.joined kind x.origin y.origin x.width y.width tests on, slots, x.width + y.width⟩

def bindTable : Nat → Binder → Option String → String → String → Option String → Bind Sourced
  | 0, _, _, _, _, _ => Bind.refuse
  | n + 1, b, database, name, label, index => do
    let groups := if database.isNone then commonGroups name b.commons else []
    match groups.head?.bind fun g => g.find? fun c => sameName c.name name with
    | some c =>
      Bind.ensure index.isNone
      bindCommon n { b with commons := groups } c label
    | none =>
      Bind.ensure (database.all fun d => sameName d "main" || sameName d "temp")
      let inTemporary := database.any (sameName "temp")
      match b.database.table? name, b.database.view? name with
      | some t, _ =>
        Bind.ensure (!inTemporary)
        Bind.ensure (index.all fun i => (b.database.index? i).any fun x => sameName x.table name)
        return ⟨.table t.name, t.slots label 0 0 false, t.columns.length + 1⟩
      | none, some v =>
        Bind.ensure (!inTemporary && index.isNone)
        let fresh : Binder := { Binder.ofDatabase b.database with limits := .stored }
        let (plan, columns) ← bindQuery n fresh v.query
        let columns ← renamed (columns.map fun c => { c with name := c.declared }) v.columns
        return ⟨.plan plan, OutColumn.slots columns label 0 false, columns.length⟩
      | none, none =>
        if let some (_, columns) := tableFunctions.find? fun (f, _) => sameName f name then
          let out := columns.map fun c => (⟨c, c, .none, none⟩ : OutColumn)
          return ⟨.plan (.values []), OutColumn.slots out label 0 false, columns.length⟩
        Bind.ensure (Database.catalogues.contains (folded name) && index.isNone)
        let column (c : String) (a : Affinity) (i : Nat) : Slot :=
          ⟨0, label, some "main", c, i, [], a, .binary, true, false, false⟩
        let key : Slot := ⟨0, label, some "main", "rowid", 5, [], .integer, .binary, false, false, true⟩
        return ⟨.catalogue (inTemporary || Text.contains "temp" (folded name)),
          [column "type" .text 0, column "name" .text 1, column "tbl_name" .text 2, column "rootpage" .integer 3,
           column "sql" .text 4, key], 6⟩

/-- A query with a name. If it names itself, its later parts find further rows from those found last. -/
def bindCommon : Nat → Binder → Common → String → Bind Sourced
  | 0, _, _, _ => Bind.refuse
  | n + 1, b, c, label =>
    match c.progress with
    | .busy => Bind.refuse
    | .working depth columns =>
      pure ⟨.working (b.depth - depth - 1), OutColumn.slots columns label 0 false, columns.length⟩
    | .untouched => do
      let busy := { b with commons := markCommon b.commons c.name .busy }
      let (body, order, limit, offset) := match c.query with
        | .ordered q order limit offset => (q, order, limit, offset)
        | q => (q, [], none, none)
      match body.split? c.name with
      | none =>
        let (plan, columns) ← bindQuery n { busy with scopes := [] } c.query
        let columns ← renamed columns c.columns
        return ⟨.plan plan, OutColumn.slots columns label 0 false, columns.length⟩
      | some (start, more, all) =>
        let alone := { busy with scopes := [] }
        let (first, columns) ← bindQuery n alone start
        let columns ← renamed columns c.columns
        let inner := { alone with
          depth := b.depth + 1, commons := markCommon b.commons c.name (.working b.depth columns) }
        let parts ← more.mapM fun q => do
          Bind.ensure (q.names c.name == 1)
          let s ← bindOrdered n inner q []
          Bind.ensure (s.columns.length == columns.length && !s.grouped && !s.windowed)
          pure s.plan
        let next := parts.tail.foldl (Plan.compound .unionAll [] · ·) (parts.head?.getD (.values []))
        let keys ← order.mapM fun (.mk e falling nullsFirst) => do
          let i ← bindPlace n inner body.leaves e
          pure (⟨i, ((columns[i]?).bind OutColumn.collation).getD .binary, falling, nullsFirst.getD (!falling)⟩ : SortKey)
        let limit ← bindLimit n alone limit
        let offset ← bindLimit n alone offset
        let collations := columns.map fun c => c.collation.getD .binary
        return ⟨.plan (.recursive first next all collations keys limit offset),
          OutColumn.slots columns label 0 false, columns.length⟩

end

def bindingSteps : Nat := 2000

def Binder.expr (b : Binder) (e : Expr) : Except Fault Bound := (bindExpr bindingSteps b e).run' Uses.none

/-- The terms of an expression of one or several values. -/
def Binder.row (b : Binder) (e : Expr) : Except Fault (List Bound) := (bindRow bindingSteps b e).run' Uses.none

def Binder.query (b : Binder) (q : Query) : Except Fault (Plan × List OutColumn) :=
  (bindQuery bindingSteps b q).run' Uses.none

def Binder.source (b : Binder) (s : Source) : Except Fault Sourced := (bindSource bindingSteps b s).run' Uses.none

def Binder.shown (b : Binder) (slots : List Slot) (shown : List Shown) : Except Fault Unit := do
  let _ ← (bindShown bindingSteps b true slots shown).run' Uses.none

end CodeAtlas.Sql
