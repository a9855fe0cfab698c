import CodeAtlas.Json.Basic

/-!
# Quantities

A quantity is a whole number of any size or a number of 64 bits. Whole numbers stay whole as long as
they are added to each other; a truth value counts as one or none.
-/
namespace CodeAtlas

/-- A number that is counted or added up. -/
inductive Quantity where
  | whole (n : Int)
  | real (x : Binary64)

namespace Quantity

def ofJson? : Json → Option Quantity
  | .int n => some (whole n)
  | .bool b => some (whole (if b then 1 else 0))
  | .real x => some (real x)
  | _ => none

def toJson : Quantity → Json
  | whole n => .int n
  | real x => .real x

def toBinary64 : Quantity → Binary64
  | whole n => .ofInt n
  | real x => x

def add : Quantity → Quantity → Quantity
  | whole m, whole n => whole (m + n)
  | a, b => real (a.toBinary64.add b.toBinary64)

def below (bound : Int) : Quantity → Bool
  | whole n => n < bound
  | real x => !x.isNaN && x.floor < bound

def atMost (bound : Int) : Quantity → Bool
  | whole n => n ≤ bound
  | real x => !x.isNaN && x.ceiling ≤ bound

def above (bound : Int) : Quantity → Bool
  | whole n => bound < n
  | real x => !x.isNaN && bound < x.ceiling

def ceiling : Quantity → Int
  | whole n => n
  | real x => x.ceiling

def floor : Quantity → Int
  | whole n => n
  | real x => x.floor

def ratio : Quantity → Int × Nat
  | whole n => (n, 1)
  | real x =>
    let (num, den) := x.ratio
    (if x.isNegative then -num else num, den)

def le (a b : Quantity) : Bool :=
  let (m, d) := a.ratio
  let (n, e) := b.ratio
  m * e ≤ n * d

def sum? (vs : List Json) : Option Quantity :=
  vs.foldlM (fun total v => (ofJson? v).map total.add) (whole 0)

end Quantity
end CodeAtlas
