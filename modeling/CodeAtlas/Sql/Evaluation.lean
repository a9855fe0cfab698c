import CodeAtlas.Sql.Aggregate
import CodeAtlas.Sql.Binding

/-!
# The rows of a plan

Terms have values and plans have rows. A term finds its columns in the rows of the queries around it, the
innermost first (`Env.levels`), and the functions of rows find there the rows that stand together.

The functions call each other with one step less each time.
-/

/-!
## The members of a document

A document can be listed as rows: its members, or all its parts. Each row shows the key of a part, its value
and kind, its number in the document and that of the part around it, and the ways to both.
-/
namespace CodeAtlas.Sql

/-- A part of a document. -/
structure Member where
  key : Value
  document : Document
  id : Nat
  parent : Option Nat
  fullKey : String
  path : String

namespace Member

mutual

def size : Document → Nat
  | .array ds => 1 + sizes ds
  | .object ms => 1 + memberSizes ms
  | _ => 1

def sizes : List Document → Nat
  | [] => 0
  | d :: ds => size d + sizes ds

/-- A key has a number too. -/
def memberSizes : List (String × Document) → Nat
  | [] => 0
  | (_, d) :: ms => 1 + size d + memberSizes ms

end

def step (key : String) : String :=
  let plain := match key.toList with
    | c :: cs => c.isAlpha && cs.all Char.isAlphanum
    | [] => false
  if plain then "." ++ key else ".\"" ++ key ++ "\""

/-- The documents directly within a part, as parts. -/
def children (m : Member) : List Member :=
  match m.document with
  | .array ds =>
    (ds.foldl (fun (found, i, id) d =>
      (found ++ [⟨.whole (Int.ofNat i), d, id, some m.id, m.fullKey ++ "[" ++ toString i ++ "]", m.fullKey⟩],
        i + 1, id + size d)) (([] : List Member), 0, m.id + 1)).1
  | .object ms =>
    (ms.foldl (fun (found, id) (k, d) =>
      (found ++ [⟨.text (Document.unquote k), d, id + 1, some m.id, m.fullKey ++ step k, m.fullKey⟩],
        id + 1 + size d)) (([] : List Member), m.id + 1)).1
  | _ => []

/-- A part and all parts within it. -/
def descendants : Nat → Member → List Member
  | 0, m => [m]
  | n + 1, m => m :: m.children.flatMap (descendants n)

def row (m : Member) (nested : Bool) : List Value :=
  let compound := match m.document with
    | .array _ | .object _ => true
    | _ => false
  let value := m.document.toValue
  [m.key, value, .text m.document.kind, if compound then .null else value, .whole (Int.ofNat m.id),
   if nested then (m.parent.map fun p => Value.whole (Int.ofNat p)).getD .null else .null, .text m.fullKey, .text m.path]

/-- The rows of a document: the members of the part at the end of a path, or all parts within it. -/
def rows (nested : Bool) (arguments : List Value) : Except Fault (List (List Value)) :=
  match arguments with
  | [] => .ok []
  | d :: more =>
    if d = .null ∨ more.head? = some .null then .ok []
    else do
      let text := (d.asText).getD ""
      let some whole := Document.ofText? text | .error .rejected
      let path := ((more.head?.bind Value.asText).getD "$")
      let some steps := Document.path? path | .error .rejected
      match whole.find? steps with
      | none => .ok []
      | some part =>
        let root : Member := ⟨.null, part, 0, none, path, path⟩
        let found := if nested then descendants text.length root
          else match part with
            | .array _ | .object _ => root.children
            | _ => [root]
        .ok (found.map fun m => m.row nested)

end Member
end CodeAtlas.Sql

/-! ## Rows -/
namespace CodeAtlas.Sql

/-- Why an evaluation ends early. -/
inductive Halt where
  | fault (f : Fault)
  /-- A trigger gives the row up that it is carried out for. -/
  | ignored
  deriving DecidableEq, Repr

/-- A row of a query, and the rows that it stands for. -/
structure Level where
  row : List Value
  group : List (List Value)

structure Env where
  database : Database
  /-- The database before the statement. -/
  start : Database
  parameter : Option Value
  /-- The row that a trigger is carried out for, as it was and as it is to be. -/
  changed : List Value
  levels : List Level
  /-- The rows that queries that name themselves found last. -/
  working : List (List (List Value))
  /-- All rows that the query at hand shows, and the place of the row among them. -/
  shown : Option (List Level × Nat)

namespace Env

def ofDatabase (d : Database) (parameter : Option Value) : Env := ⟨d, d, parameter, [], [], [], none⟩

def push (env : Env) (l : Level) : Env := { env with levels := l :: env.levels, shown := none }

/-- What a plan is about that does not depend on the rows around it stays the same for a whole statement. -/
def settled (env : Env) (fixed : Bool) : Env := if fixed then { env with database := env.start } else env

end Env

def Halt.lift {α : Type} : Except Fault α → Except Halt α
  | .ok a => .ok a
  | .error f => .error (.fault f)

/-- Is a row of values one of others? It is unknown if nothing stands in the way of a difference. -/
def isAmong (tests : List Value) : Value :=
  if tests.contains (.whole 1) then .whole 1 else if tests.contains .null then .null else .whole 0

def rowCount (v : Value) : Except Halt Int :=
  match Affinity.integer.apply v with
  | .whole n => .ok n
  | _ => .error (.fault .violated)

def distance (unit : WindowUnit) (v : Value) : Except Halt Value :=
  let n := Affinity.numeric.apply v
  match n, unit with
  | .whole k, _ => if k < 0 then .error (.fault .rejected) else .ok n
  | .real x, .range => if x.isNegative then .error (.fault .rejected) else .ok n
  | _, _ => .error (.fault .rejected)

/-- Goes on from a state until there is nothing more to do, for so many steps at most. -/
def repeated {σ : Type} (step : σ → Except Halt (σ × Bool)) : Nat → σ → Except Halt σ
  | 0, s => .ok s
  | n + 1, s =>
    match step s with
    | .ok (t, true) => repeated step n t
    | .ok (t, false) => .ok t
    | .error h => .error h

def mostRows : Nat := 1000000

mutual

def eval : Nat → Env → Term → Except Halt Value
  | 0, _, _ => .error (.fault .rejected)
  | n + 1, env, t =>
    match t with
    | .value v => .ok v
    | .parameter =>
      match env.parameter with
      | some v => .ok v
      | none => .error (.fault .misused)
    | .column level place => .ok (((env.levels[level]?).bind fun l => l.row[place]?).getD .null)
    | .changed place => .ok ((env.changed[place]?).getD .null)
    | .unary op t => do return (← eval n env t).operateOn op
    | .binary op a b => do
      let x ← eval n env a
      return Value.operate op x (← eval n env b)
    | .compare op tests => do
      let pairs ← tests.mapM fun (m, a, b) => do
        let x ← eval n env a
        let y ← eval n env b
        return (m.collation, m.affinity.harmonize x, m.affinity.harmonize y)
      return op.testRows pairs
    | .truth t expected denied => do
      let v ← eval n env t
      return .ofBool ((v.truth == some expected) != denied)
    | .choice cases other => choose n env cases other
    | .among t m ts => do
      let x ← eval n env t
      let tests ← ts.mapM fun t => do
        let y ← eval n env t
        return Comparison.equal.test m.collation (m.affinity.harmonize x) (m.affinity.harmonize y)
      return isAmong tests
    | .amongRows ts fixed p => do
      let xs ← ts.mapM fun (m, t) => do return (m, ← eval n env t)
      let rows ← planRows n (env.settled fixed) p
      return isAmong (rows.map fun row => Comparison.equal.testRows ((xs.zip row).map fun ((m, x), y) =>
        (m.collation, m.affinity.harmonize x, m.affinity.harmonize y)))
    | .call f c timeless ts => do
      let arguments ← ts.mapM fun (t, d) => do return (← eval n env t, d)
      if timeless && Function.asksPresent f (arguments.map Prod.fst) then throw (.fault .rejected)
      Halt.lift (Function.apply f c arguments)
    | .firstOf ts =>
      match ts with
      | [] => .ok .null
      | t :: ts => do
        let v ← eval n env t
        if v == .null then eval n env (.firstOf ts) else return v
    | .aggregate level f c distinct ts filter => do
      match env.levels.drop level with
      | [] => return .null
      | l :: outer =>
        let arguments ← l.group.mapM fun row =>
          let inner := { env with levels := env.levels.take level ++ ⟨row, []⟩ :: outer, shown := none }
          filtered n inner ts filter
        Halt.lift (Aggregate.apply f c distinct arguments.reduceOption)
    | .window f c ts filter parts order unit low high gap => do
      match env.shown with
      | none => return .null
      | some (levels, place) =>
        let outer := env.levels.drop 1
        let keyed ← levels.zipIdx.mapM fun (l, i) => do
          let inner := { env with levels := l :: outer, shown := none }
          let own ← parts.mapM fun (t, _) => eval n inner t
          let keys ← order.mapM fun (t, _) => eval n inner t
          return (own, keys, l, i)
        let own := ((keyed.find? fun (_, _, _, i) => i == place).map Prod.fst).getD []
        let mates := keyed.filter fun (o, _, _, _) => alikeRows (parts.map Prod.snd) own o
        let ks := order.map Prod.snd
        let rows := sortedBy ks (fun (_, keys, _, _) => keys) mates
        let frame : Frame := ⟨rows.map fun (_, keys, _, _) => keys, ks,
          (rows.findIdx? fun (_, _, _, i) => i == place).getD 0⟩
        let bound (b : TermBound) : Except Halt Bounds := match b with
          | .start => .ok .start
          | .stop => .ok .stop
          | .current => .ok .current
          | .before t => do return .before (← distance unit (← eval n env t))
          | .after t => do return .after (← distance unit (← eval n env t))
        let low ← bound low
        let high ← bound high
        let inside (i : Nat) : Env := match rows[i]? with
          | some (_, _, l, _) => { env with levels := l :: outer, shown := none }
          | none => env
        let argument (i k : Nat) : Except Halt Value := match ts[k]? with
          | some (t, _) => eval n (inside i) t
          | none => .ok .null
        match frame.rank? f with
        | some v => return v
        | none =>
          let window := frame.window unit low high gap
          match f with
          | "ntile" =>
            let v ← argument frame.place 0
            if v.toWhole < 1 then throw (.fault .rejected)
            else return .whole (Int.ofNat (frame.part v.toWhole.toNat))
          | "lag" | "lead" =>
            let steps ← if ts.length < 2 then pure 1 else do pure (← argument frame.place 1).toWhole
            let target : Int := if f == "lag" then frame.place - steps else frame.place + steps
            if 0 ≤ target ∧ target < rows.length then argument target.toNat 0 else argument frame.place 2
          | "first_value" => (window.head?).elim (.ok .null) fun i => argument i 0
          | "last_value" => (window.getLast?).elim (.ok .null) fun i => argument i 0
          | "nth_value" =>
            let k := Affinity.integer.apply (← argument frame.place 1)
            match k with
            | .whole k =>
              if k < 1 then throw (.fault .rejected)
              else (window[(k - 1).toNat]?).elim (.ok .null) fun i => argument i 0
            | _ => throw (.fault .rejected)
          | _ =>
            let arguments ← window.mapM fun i => filtered n (inside i) ts filter
            Halt.lift (Aggregate.apply f c false arguments.reduceOption)
    | .converted t a => do return (← eval n env t).convert a
    | .single fixed p place => do
      let rows ← planRows n (env.settled fixed) p
      return ((rows.head?.bind fun r => r[place]?).getD .null)
    | .occupied fixed p => do
      let rows ← planRows n (env.settled fixed) p
      return .ofBool (!rows.isEmpty)
    | .outward levels t => eval n { env with levels := env.levels.drop levels, shown := none } t
    | .raise .ignore => .error .ignored
    | .raise .fail => .error (.fault .violated)

/-- Does a condition hold? Its second part is only looked at where the first leaves the matter open. -/
def test : Nat → Env → Term → Except Halt (Option Bool)
  | 0, _, _ => .error (.fault .rejected)
  | n + 1, env, t =>
    match t with
    | .unary .not t => do return (← test n env t).map (!·)
    | .binary .and a b => do
      match ← test n env a with
      | some false => return some false
      | x => return match x, ← test n env b with
        | _, some false => some false
        | some true, some true => some true
        | _, _ => none
    | .binary .or a b => do
      match ← test n env a with
      | some true => return some true
      | x => return match x, ← test n env b with
        | _, some true => some true
        | some false, some false => some false
        | _, _ => none
    | t => do return (← eval n env t).truth

/-- The value of the first case that holds, or another one. -/
def choose : Nat → Env → List (Term × Term) → Term → Except Halt Value
  | 0, _, _, _ => .error (.fault .rejected)
  | n + 1, env, [], other => eval n env other
  | n + 1, env, (t, u) :: cases, other => do
    if (← test n env t) == some true then eval n env u else choose n env cases other

/-- The arguments of a function at a row, if the row is one of those that it is about. -/
def filtered : Nat → Env → List (Term × Bool) → Option Term → Except Halt (Option (List (Value × Bool)))
  | 0, _, _, _ => .error (.fault .rejected)
  | n + 1, env, ts, filter => do
    let holds ← match filter with
      | some t => do pure ((← test n env t) == some true)
      | none => pure true
    if holds then return some (← ts.mapM fun (t, d) => do return (← eval n env t, d)) else return none

def planRows : Nat → Env → Plan → Except Halt (List (List Value))
  | 0, _, _ => .error (.fault .rejected)
  | n + 1, env, p =>
    match p with
    | .values rows => rows.mapM fun ts => ts.mapM (eval n (env.push ⟨[], []⟩))
    | .select source width condition groups having representative shown distinct => do
      let rows ← originRows n env source
      let kept ← rows.filterM fun r => match condition with
        | some t => do return (← test n (env.push ⟨r, []⟩) t) == some true
        | none => pure true
      let levels ← match groups with
        | none => pure (kept.map fun r => (⟨r, []⟩ : Level))
        | some terms => do
          let cs := terms.map Prod.snd
          let marked ← kept.mapM fun r => do
            return (← terms.mapM fun (t, _) => eval n (env.push ⟨r, []⟩) t, r)
          let parts := if terms.isEmpty then [marked]
            else runs (fun a b => alikeRows cs a.1 b.1) (sortedBy (risingKeys cs) Prod.fst marked)
          let found ← parts.mapM fun part => do
            let members := part.map Prod.snd
            let row ← match representative with
              | none => pure members.head?
              | some (greatest, c, t) => do
                let values ← members.mapM fun r => do return (← eval n (env.push ⟨r, []⟩) t, r)
                let there := values.filter fun (v, _) => v != .null
                let best := Aggregate.extreme greatest c (there.map Prod.fst)
                match there.find? fun (v, _) => v == best with
                | some (_, r) => pure (some r)
                | none => pure members.getLast?
            pure (⟨row.getD (List.replicate width .null), members⟩ : Level)
          found.filterM fun l => match having with
            | some t => do return (← test n (env.push l) t) == some true
            | none => pure true
      let window? := shown.findSome? fun
        | .window _ _ _ _ parts order _ _ _ _ => some (parts, order)
        | _ => none
      let levels ← match window? with
        | none => pure levels
        | some (parts, order) => do
          let keys := risingKeys (parts.map Prod.snd) ++ order.map Prod.snd
          let keyed ← levels.mapM fun l => do
            let own ← parts.mapM fun (t, _) => eval n (env.push l) t
            let others ← order.mapM fun (t, _) => eval n (env.push l) t
            return (own ++ others, l)
          pure ((sortedBy keys Prod.fst keyed).map Prod.snd)
      let answers ← levels.zipIdx.mapM fun (l, i) =>
        shown.mapM (eval n { env.push l with shown := some (levels, i) })
      match distinct with
      | some cs => return distinctRows cs (List.take cs.length) answers
      | none => return answers
    | .compound op cs a b => do
      let rows ← planRows n env a
      let others ← planRows n env b
      return op.combine cs rows others
    | .sorted p keys width limit offset => do
      let limit ← rowLimit n env limit
      let offset ← rowLimit n env offset
      let rows ← if limit = some 0 then pure [] else planRows n env p
      let rows := sortedBy keys (fun r => keys.map fun k => (r[k.place]?).getD .null) rows
      let rows := rows.drop (offset.getD 0).toNat
      let rows := match limit with
        | some k => if k < 0 then rows else rows.take k.toNat
        | none => rows
      return rows.map (List.take width)
    | .recursive start next all cs keys limit offset => do
      let limit ← rowLimit n env limit
      let offset ← rowLimit n env offset
      let most : Option Nat := limit.bind fun k => if k < 0 then none else some (k.toNat + (offset.getD 0).toNat)
      let sort (queue : List (List Value)) : List (List Value) :=
        sortedBy keys (fun r => keys.map fun k => (r[k.place]?).getD .null) queue
      let fresh (seen rows : List (List Value)) : List (List Value) :=
        if all then rows else (distinctRows cs id rows).filter fun r => !seen.any (alikeRows cs r)
      let first := fresh [] (← planRows n env start)
      let step : List (List Value) × List (List Value) × List (List Value) →
          Except Halt ((List (List Value) × List (List Value) × List (List Value)) × Bool) :=
        fun (queue, seen, found) =>
          match queue with
          | [] => .ok (([], seen, found), false)
          | row :: rest =>
            if most.any (· ≤ found.length) then .ok (([], seen, found), false)
            else do
              let more ← planRows n { env with working := [row] :: env.working } next
              let more := fresh seen more
              .ok ((sort (rest ++ more), if all then seen else seen ++ more, row :: found), true)
      let (_, _, found) ← repeated step mostRows (sort first, if all then [] else first, [])
      let rows := found.reverse.drop (offset.getD 0).toNat
      return match most with
        | some k => rows.take (k - (offset.getD 0).toNat)
        | none => rows

def rowLimit : Nat → Env → Option Term → Except Halt (Option Int)
  | 0, _, _ => .error (.fault .rejected)
  | _ + 1, _, none => .ok none
  | n + 1, env, some t => do return some (← rowCount (← eval n env t))

def originRows : Nat → Env → Origin → Except Halt (List (List Value))
  | 0, _, _ => .error (.fault .rejected)
  | n + 1, env, o =>
    match o with
    | .unit => .ok [[]]
    | .table name =>
      .ok (((env.database.table? name).map StoredTable.rows).getD [] |>.map fun r => r.cells ++ [.whole r.key])
    | .catalogue temporary =>
      .ok (if temporary then [] else env.database.catalogue.map fun r => r.cells ++ [.whole r.key])
    | .plan p => planRows n env p
    | .working level => .ok ((env.working[level]?).getD [])
    | .function f ts => functionRows n (env.push ⟨[], []⟩) f ts
    | .joined kind a b left right shared on => do
      let rows ← originRows n env a
      let others ← match b with
        | .function _ _ => pure []
        | b => originRows n env b
      let fits (l r : List Value) : Except Halt Bool := do
        let agree := shared.all fun (m, places, place) =>
          let x := (places.findSome? fun p => (l[p]?).filter (· != .null)).getD .null
          let y := (r[place]?).getD .null
          Comparison.equal.test m.collation (m.affinity.harmonize x) (m.affinity.harmonize y) == .whole 1
        match on with
        | none => return agree
        | some t => if agree then return (← test n (env.push ⟨l ++ r, []⟩) t) == some true else return false
      let found ← rows.mapM fun l => do
        let own ← match b with
          | .function f ts => functionRows n (env.push ⟨l, []⟩) f ts
          | _ => pure others
        let hits ← own.zipIdx.filterM fun (r, _) => fits l r
        if hits.isEmpty && (kind == .left || kind == .full) then
          return [(l ++ List.replicate right .null, none)]
        else return hits.map fun (r, i) => (l ++ r, some i)
      let found := found.flatten
      let lone := if kind == .right || kind == .full then
          (others.zipIdx.filter fun (_, i) => !found.any fun (_, j) => j == some i).map fun (r, _) =>
            List.replicate left .null ++ r
        else []
      return found.map Prod.fst ++ lone

def functionRows : Nat → Env → String → List Term → Except Halt (List (List Value))
  | 0, _, _, _ => .error (.fault .rejected)
  | n + 1, env, f, ts => do
    let vs ← ts.mapM (eval n env)
    Halt.lift (Member.rows (f == "json_tree") vs)

end

/-- Steps enough for terms and plans inside each other. -/
def evaluationSteps : Nat := 4000

namespace Env

def value (env : Env) (t : Term) : Except Halt Value := eval evaluationSteps env t

/-- Is a condition true, false or neither? -/
def truth (env : Env) (t : Term) : Except Halt (Option Bool) := test evaluationSteps env t

def holds (env : Env) (t : Term) : Except Halt Bool := do return (← env.truth t) == some true

def rows (env : Env) (p : Plan) : Except Halt (List (List Value)) := planRows evaluationSteps env p

end Env
end CodeAtlas.Sql
