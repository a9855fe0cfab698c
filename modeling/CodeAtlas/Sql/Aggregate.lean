import CodeAtlas.Sql.Term

/-!
# Functions of rows

What becomes of the values of many rows (`Aggregate.apply`), and which rows around a row its window holds
(`Frame`).
-/
namespace CodeAtlas.Sql

/-! ## Rows alike and rows in order -/

def alikeRows : List Collation → List Value → List Value → Bool
  | c :: cs, a :: as, b :: bs => Value.alike c a b && alikeRows cs as bs
  | [], a :: as, b :: bs => Value.alike .binary a b && alikeRows [] as bs
  | _, [], [] => true
  | _, _, _ => false

def distinctRows {α : Type} (cs : List Collation) (cells : α → List Value) (rows : List α) : List α :=
  (rows.foldl (fun seen r => if seen.any fun s => alikeRows cs (cells s) (cells r) then seen else r :: seen)
    []).reverse

/-- Does a value stand before another one, or after it? Nothing stands at an end of its own. -/
def SortKey.order (k : SortKey) (a b : Value) : Ordering :=
  match a, b with
  | .null, .null => .eq
  | .null, _ => if k.nullsFirst then .lt else .gt
  | _, .null => if k.nullsFirst then .gt else .lt
  | a, b => if k.falling then (Value.order k.collation a b).swap else Value.order k.collation a b

def orderKeys : List SortKey → List Value → List Value → Ordering
  | k :: ks, a :: as, b :: bs =>
    match k.order a b with
    | .eq => orderKeys ks as bs
    | o => o
  | _, _, _ => .eq

def sortedBy {α : Type} (ks : List SortKey) (keys : α → List Value) (rows : List α) : List α :=
  rows.mergeSort fun a b => orderKeys ks (keys a) (keys b) != .gt

def risingKeys (cs : List Collation) : List SortKey := cs.zipIdx.map fun (c, i) => ⟨i, c, false, true⟩

/-- The rows of two queries together. Unless all are kept they rise, and of rows that are alike the last is
kept. -/
def SetOp.combine (op : SetOp) (cs : List Collation) (a b : List (List Value)) : List (List Value) :=
  let has (rows : List (List Value)) (r : List Value) : Bool := rows.any (alikeRows cs r)
  let arranged (rows : List (List Value)) : List (List Value) :=
    sortedBy (risingKeys cs) id (distinctRows cs id rows.reverse)
  match op with
  | .unionAll => a ++ b
  | .union => arranged (a ++ b)
  | .intersect => arranged (a.filter (has b))
  | .except => arranged (a.filter fun r => !has b r)

/-- Rows cut where the keys change. -/
def runs {α : Type} (same : α → α → Bool) : List α → List (List α)
  | [] => []
  | x :: xs =>
    match runs same xs with
    | (y :: ys) :: rest => if same x y then (x :: y :: ys) :: rest else [x] :: (y :: ys) :: rest
    | rest => [x] :: rest

/-! ## Functions -/

namespace Aggregate

/-- A sum on its way: the whole part while it is exact, the rounded sum, and whether a number with a fraction
came, or the whole part became too large before that. -/
structure Sum where
  exact : Int
  rounded : Binary64
  inexact : Bool
  overflown : Bool

def Sum.add (s : Sum) (v : Value) : Sum :=
  match v.number? with
  | some (.whole n) =>
    let rounded := s.rounded.add (Binary64.ofInt n)
    if s.inexact then { s with rounded }
    else if Cell.fits (s.exact + n) then { s with rounded, exact := s.exact + n }
    else { s with rounded, inexact := true, overflown := true }
  | _ => { s with rounded := s.rounded.add v.toReal, inexact := true }

def sum (vs : List Value) : Sum := vs.foldl Sum.add ⟨0, Binary64.ofInt 0, false, false⟩

def extreme (greatest : Bool) (c : Collation) : List Value → Value
  | [] => .null
  | v :: vs => vs.foldl (fun best v =>
    if Value.before c (if greatest then best else v) (if greatest then v else best) then v else best) v

/-- Texts one behind the other, each but the first behind its separator. -/
def joined (rows : List (List Value)) : Value :=
  let kept := rows.filter fun r => r.head?.any (· != .null)
  match kept with
  | [] => .null
  | first :: rest =>
    let text (r : List Value) : String := ((r.head?.bind Value.asText).getD "")
    let separator (r : List Value) : String := match r[1]? with
      | some v => v.asText.getD ""
      | none => ","
    .text (rest.foldl (fun s r => s ++ separator r ++ text r) (text first))

def apply (name : String) (c : Collation) (distinct : Bool) (arguments : List (List (Value × Bool))) :
    Except Fault Value :=
  let rows := arguments.map fun r => r.map Prod.fst
  let rows := if distinct then distinctRows [c] id rows else rows
  let firsts := (rows.filterMap List.head?).filter (· != .null)
  match name with
  | "count" =>
    .ok (.whole (Int.ofNat (rows.filter fun r => r.head? != some .null).length))
  | "sum" =>
    let s := sum firsts
    if firsts.isEmpty then .ok .null
    else if s.overflown then .error .rejected
    else .ok (if s.inexact then .ofResult s.rounded else .whole s.exact)
  | "total" => .ok (.ofResult (sum firsts).rounded)
  | "avg" =>
    .ok (if firsts.isEmpty then .null
      else Value.quotient (sum firsts).rounded (Binary64.ofInt (Int.ofNat firsts.length)))
  | "min" => .ok (extreme false c firsts)
  | "max" => .ok (extreme true c firsts)
  | "group_concat" => .ok (joined rows)
  | "json_group_array" => do
    let items ← arguments.mapM fun r => match r with
      | (v, d) :: _ => do pure (← Document.ofValue d v).render
      | [] => pure ""
    .ok (.text ("[" ++ String.intercalate "," items ++ "]"))
  | "json_group_object" => do
    let items ← arguments.mapM fun r => match r with
      | [(k, _), (v, d)] => do
        let key := (k.asText.map fun s => "\"" ++ Document.quote s ++ "\"").getD ""
        pure (key ++ ":" ++ (← Document.ofValue d v).render)
      | _ => pure ""
    .ok (.text ("\x7b" ++ String.intercalate "," items ++ "\x7d"))
  | _ => .ok .null

end Aggregate

/-! ## Windows -/

/-- A bound of a window after its distance is known. -/
inductive Bounds where
  | start
  | before (distance : Value)
  | current
  | after (distance : Value)
  | stop

/-- The rows of a part of a query in their order, each with the keys that they are ordered by, and the place
of a row among them. -/
structure Frame where
  keys : List (List Value)
  order : List SortKey
  place : Nat

namespace Frame

/-- Do rows stand side by side in the order? -/
def peers (f : Frame) (i j : Nat) : Bool :=
  match f.keys[i]?, f.keys[j]? with
  | some a, some b => orderKeys f.order a b == .eq
  | _, _ => false

def places (f : Frame) : List Nat := List.range f.keys.length

def firstPeer (f : Frame) : Nat := (f.places.find? (f.peers f.place)).getD f.place

def pastPeers (f : Frame) : Nat := f.firstPeer + (f.places.filter (f.peers f.place)).length

/-- The number of the group of a row among the groups that stand side by side. -/
def groupOf (f : Frame) (i : Nat) : Nat :=
  (f.places.filter fun j => 0 < j && j ≤ i && !f.peers (j - 1) j).length

def reaches (f : Frame) (unit : WindowUnit) (b : Bounds) (low : Bool) (i : Nat) : Bool :=
  let compareInts (x y : Int) : Bool := if low then y ≤ x else x ≤ y
  let moved (d : Value) (forward : Bool) : Bool :=
    let shift : Int := if forward then d.toWhole else -d.toWhole
    match unit with
    | .rows => compareInts i (f.place + shift)
    | .groups => compareInts (f.groupOf i) (f.groupOf f.place + shift)
    | .range =>
      match f.order, (f.keys[f.place]?).bind List.head?, (f.keys[i]?).bind List.head? with
      | k :: _, some own, some other =>
        let isNumber (v : Value) : Bool := match v with
          | .whole _ | .real _ => true
          | _ => false
        if isNumber own then
          let op := if forward != k.falling then BinaryOp.add else .subtract
          let edge := Value.operate op own d
          let o := k.order other edge
          if low then o != .lt else o != .gt
        else
          let o := k.order other own
          if low then o != .lt else o != .gt
      | _, _, _ => true
  match b with
  | .start => low
  | .stop => !low
  | .current =>
    match unit with
    | .rows => compareInts i f.place
    | _ => if low then f.firstPeer ≤ i else i < f.pastPeers
  | .before d => moved d false
  | .after d => moved d true

def window (f : Frame) (unit : WindowUnit) (low high : Bounds) (gap : WindowGap) : List Nat :=
  (f.places.filter fun i => f.reaches unit low true i && f.reaches unit high false i).filter fun i =>
    match gap with
    | .nothing => true
    | .currentRow => i != f.place
    | .group => !f.peers f.place i
    | .ties => i == f.place || !f.peers f.place i

def part (f : Frame) (parts : Nat) : Nat :=
  let size := f.keys.length / parts
  let larger := f.keys.length % parts
  if f.place < larger * (size + 1) then f.place / (size + 1) + 1
  else larger + (f.place - larger * (size + 1)) / size + 1

/-- What a function makes of the place of a row, if it depends on nothing else. -/
def rank? (f : Frame) (name : String) : Option Value :=
  let share (a b : Nat) : Value := Value.quotient (Binary64.ofInt a) (Binary64.ofInt b)
  match name with
  | "row_number" => some (.whole (Int.ofNat (f.place + 1)))
  | "rank" => some (.whole (Int.ofNat (f.firstPeer + 1)))
  | "dense_rank" => some (.whole (Int.ofNat (f.groupOf f.place + 1)))
  | "percent_rank" =>
    some (if f.keys.length ≤ 1 then .real (Binary64.ofInt 0) else share f.firstPeer (f.keys.length - 1))
  | "cume_dist" => some (share f.pastPeers f.keys.length)
  | _ => none

end Frame
end CodeAtlas.Sql
