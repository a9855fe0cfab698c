import CodeAtlas.Sql.Value

/-!
# Operators

What operators make of values. An operator on nothing gives nothing, but for `and` and `or`, where one side
may settle the matter. Whole numbers that leave 64 bits go on as numbers with a fraction.
-/
namespace CodeAtlas.Sql

inductive UnaryOp where
  | keep
  | negate
  | invert
  | not
  deriving DecidableEq, Repr

inductive BinaryOp where
  | or
  | and
  | bitAnd
  | bitOr
  | shiftLeft
  | shiftRight
  | add
  | subtract
  | multiply
  | divide
  | remainder
  | join
  deriving DecidableEq, Repr

/-- Tests of two values against each other. -/
inductive Comparison where
  | equal
  | differs
  /-- Equal, and nothing is equal to nothing. -/
  | is
  | isNot
  | less
  | atMost
  | more
  | atLeast
  deriving DecidableEq, Repr

namespace Value

def opposite (x : Binary64) : Binary64 := .ofFields (!x.isNegative) x.field x.fraction

def quotient (x y : Binary64) : Value :=
  if y.isZero then .null
  else if y.isInfinite then
    if x.isInfinite then .null else .real (Binary64.ofRatio (x.isNegative != y.isNegative) 0 1)
  else if x.isInfinite then .real (.infinity (x.isNegative != y.isNegative))
  else
    let (a, b) := x.ratio
    let (c, d) := y.ratio
    ofResult (Binary64.ofRatio (x.isNegative != y.isNegative) (a * d) (b * c))

/-- The bits of a whole number moved by some places, to the right if `places` is below zero. The sign fills
the places that become free on the left. -/
def shifted (n places : Int) : Int :=
  if places ≤ -64 then if n < 0 then -1 else 0
  else if places < 0 then n.fdiv (Binary64.twoTo (-places).toNat)
  else if places < 64 then (Int64.ofInt (n * Binary64.twoTo places.toNat)).toInt
  else 0

def arithmetic (op : BinaryOp) (a b : Value) : Value :=
  match op, a.toNumber, b.toNumber with
  | _, .null, _ => .null
  | _, _, .null => .null
  | .bitAnd, _, _ => .whole ((Int64.ofInt a.toWhole &&& Int64.ofInt b.toWhole).toInt)
  | .bitOr, _, _ => .whole ((Int64.ofInt a.toWhole ||| Int64.ofInt b.toWhole).toInt)
  | .shiftLeft, _, _ => .whole (shifted a.toWhole b.toWhole)
  | .shiftRight, _, _ => .whole (shifted a.toWhole (-b.toWhole))
  | .add, .whole m, .whole n => ofInt (m + n)
  | .subtract, .whole m, .whole n => ofInt (m - n)
  | .multiply, .whole m, .whole n => ofInt (m * n)
  | .divide, .whole m, .whole n => if n = 0 then .null else ofInt (m.tdiv n)
  | .remainder, .whole m, .whole n => if n = 0 then .null else .whole (m.tmod n)
  | .remainder, _, _ =>
    if b.toWhole = 0 then .null else .real (Binary64.ofInt (a.toWhole.tmod b.toWhole))
  | .add, x, y => ofResult (x.toReal.add y.toReal)
  | .subtract, x, y => ofResult (x.toReal.add (opposite y.toReal))
  | .multiply, x, y => ofResult (x.toReal.mul y.toReal)
  | .divide, x, y => quotient x.toReal y.toReal
  | _, _, _ => .null

def operate (op : BinaryOp) (a b : Value) : Value :=
  match op with
  | .or =>
    match a.truth, b.truth with
    | some true, _ | _, some true => ofBool true
    | some false, some false => ofBool false
    | _, _ => .null
  | .and =>
    match a.truth, b.truth with
    | some false, _ | _, some false => ofBool false
    | some true, some true => ofBool true
    | _, _ => .null
  | .join =>
    match a.asText, b.asText with
    | some s, some t => .text (s ++ t)
    | _, _ => .null
  | op => arithmetic op a b

def operateOn (op : UnaryOp) (a : Value) : Value :=
  match op with
  | .keep => a
  | .not => ofTruth (a.truth.map (!·))
  | .negate => arithmetic .subtract (.whole 0) a
  | .invert => if a = .null then .null else .whole (-a.toWhole - 1)

end Value

namespace Comparison

/-- Does a test hold of two values that are in an order? -/
def accepts : Comparison → Ordering → Bool
  | .equal, o | .is, o => o == .eq
  | .differs, o | .isNot, o => o != .eq
  | .less, o => o == .lt
  | .atMost, o => o != .gt
  | .more, o => o == .gt
  | .atLeast, o => o != .lt

/-- Can a test tell whether nothing is equal to something? -/
def knowsNothing : Comparison → Bool
  | .is | .isNot => true
  | _ => false

def test (op : Comparison) (c : Collation) (a b : Value) : Value :=
  if !op.knowsNothing && (a == .null || b == .null) then .null
  else .ofBool (op.accepts (Value.order c a b))

def testRows (op : Comparison) : List (Collation × Value × Value) → Value
  | [] => .ofBool (op.accepts .eq)
  | [(c, a, b)] => op.test c a b
  | (c, a, b) :: rest =>
    match op with
    | .is | .isNot => if Value.alike c a b then testRows op rest else .ofBool (op == .isNot)
    | .equal | .differs =>
      if a == .null || b == .null then
        -- a later difference still settles the matter
        match testRows op rest with
        | .whole n => if (n == 0) == (op == .equal) then .whole n else .null
        | v => v
      else if Value.alike c a b then testRows op rest
      else .ofBool (op == .differs)
    | op =>
      if a == .null || b == .null then .null
      else if Value.alike c a b then testRows op rest
      else .ofBool (op.accepts (Value.order c a b))

end Comparison
end CodeAtlas.Sql
