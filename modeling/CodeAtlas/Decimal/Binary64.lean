/-!
# Floating point numbers of 64 bits

The numbers with their arithmetic, and the shortest decimal that stands for each.
-/
namespace CodeAtlas

/-!
## Binary floating point numbers of 64 bits

A `Binary64` is its bit pattern: sign, eleven bits of exponent, fifty-two bits of fraction. A finite
one is `± m * 2 ^ q`. All arithmetic here is exact arithmetic of naturals followed by one rounding
to the nearest number, ties to the even one:

* `ofRatio`: the number nearest to a quotient of naturals;
* `ofDecimal`: the number nearest to `n * 10 ^ e`;
* `mul`, `lt`: the product of two numbers and their order.
-/

/-- A floating point number, as its bit pattern. -/
structure Binary64 where
  bits : UInt64
  deriving DecidableEq, Repr, Inhabited

namespace Binary64

def twoTo (n : Nat) : Nat := Nat.pow 2 n

def tenTo (n : Nat) : Nat := Nat.pow 10 n

def isNegative (x : Binary64) : Bool := x.bits >>> 63 == 1

def field (x : Binary64) : Nat := ((x.bits >>> 52) &&& 0x7FF).toNat

def fraction (x : Binary64) : Nat := (x.bits &&& 0xFFFFFFFFFFFFF).toNat

def isNaN (x : Binary64) : Bool := x.field == 0x7FF && x.fraction != 0

def isInfinite (x : Binary64) : Bool := x.field == 0x7FF && x.fraction == 0

/-- The `m` and `q` of a finite number `± m * 2 ^ q`. -/
def magnitude (x : Binary64) : Nat × Int :=
  if x.field = 0 then (x.fraction, -1074) else (twoTo 52 + x.fraction, (x.field : Int) - 1075)

def ofFields (negative : Bool) (field fraction : Nat) : Binary64 :=
  ⟨((if negative then 1 else 0 : UInt64) <<< 63) ||| (UInt64.ofNat field <<< 52)
    ||| UInt64.ofNat fraction⟩

def infinity (negative : Bool) : Binary64 := ofFields negative 0x7FF 0

def nan : Binary64 := ofFields false 0x7FF (twoTo 51)

/-- The quotient rounded to the nearest natural, ties to the even one. -/
def roundDiv (a b : Nat) : Nat :=
  let q := a / b
  let r := a % b
  if 2 * r < b then q else if 2 * r > b then q + 1 else if q % 2 = 0 then q else q + 1

/-- The number `± m * 2 ^ q`, for `m` of at most fifty-three bits that is of exactly so many unless
`q` is the least exponent; too large an exponent gives infinity. -/
def pack (negative : Bool) (m : Nat) (q : Int) : Binary64 :=
  let (m, q) := if m = twoTo 53 then (twoTo 52, q + 1) else (m, q)
  if m < twoTo 52 then ofFields negative 0 m
  else if q > 971 then infinity negative
  else ofFields negative (q + 1075).toNat (m - twoTo 52)

/-- The exponent that leaves a quotient one bit and `bits` more. -/
def scaleOf (bits num den : Nat) : Int :=
  let guess : Int := (num.log2 : Int) - den.log2 - bits
  let fits : Bool :=
    if guess ≥ 0 then den * twoTo (bits + guess.toNat) ≤ num
    else den * twoTo bits ≤ num * twoTo (-guess).toNat
  if fits then guess else guess - 1

/-- The quotient over `2 ^ q`, rounded. -/
def roundAt (num den : Nat) (q : Int) : Nat :=
  if q ≥ 0 then roundDiv num (den * twoTo q.toNat) else roundDiv (num * twoTo (-q).toNat) den

def ofRatio (negative : Bool) (num den : Nat) : Binary64 :=
  if num = 0 then ofFields negative 0 0
  else
    let q := max (scaleOf 52 num den) (-1074)
    pack negative (roundAt num den q) q

def digitCount (n : Nat) : Nat := (Nat.toDigits 10 n).length

def ofDecimal (negative : Bool) (n : Nat) (e : Int) : Binary64 :=
  if n = 0 then ofFields negative 0 0
  else if (digitCount n : Int) + e > 310 then infinity negative
  else if (digitCount n : Int) + e < -330 then ofFields negative 0 0
  else if e ≥ 0 then ofRatio negative (n * tenTo e.toNat) 1
  else ofRatio negative n (tenTo (-e).toNat)

def ofInt (n : Int) : Binary64 := ofRatio (n < 0) n.natAbs 1

/-- A finite number as an exact quotient. -/
def ratio (x : Binary64) : Nat × Nat :=
  let (m, q) := x.magnitude
  if q ≥ 0 then (m * twoTo q.toNat, 1) else (m, twoTo (-q).toNat)

/-- The product of two finite numbers. -/
def mul (x y : Binary64) : Binary64 :=
  let (a, b) := x.ratio
  let (c, d) := y.ratio
  ofRatio (x.isNegative != y.isNegative) (a * c) (b * d)

/-- The sum of two numbers. -/
def add (x y : Binary64) : Binary64 :=
  if x.isNaN || y.isNaN then nan
  else if x.isInfinite then if y.isInfinite && x.isNegative != y.isNegative then nan else x
  else if y.isInfinite then y
  else
    let (a, b) := x.ratio
    let (c, d) := y.ratio
    let signed (negative : Bool) (n : Nat) : Int := if negative then -(n : Int) else n
    let sum := signed x.isNegative (a * d) + signed y.isNegative (c * b)
    ofRatio (sum < 0 || (sum = 0 && x.isNegative && y.isNegative)) sum.natAbs (b * d)

/-- Is a finite number not below zero smaller than a natural? -/
def ltNat (x : Binary64) (n : Nat) : Bool :=
  let (a, b) := x.ratio
  x.isNegative || a < n * b

/-- A finite number without its fraction. -/
def truncate (x : Binary64) : Int :=
  let (a, b) := x.ratio
  if x.isNegative then -((a / b : Nat) : Int) else ((a / b : Nat) : Int)

/-- The least integer that is not below a number, 0 for what is not a number. -/
def ceiling (x : Binary64) : Int :=
  let (a, b) := x.ratio
  if x.isNaN then 0
  else if x.isNegative then -((a / b : Nat) : Int)
  else (((a + b - 1) / b : Nat) : Int)

/-- The greatest integer that is not above a number, 0 for what is not a number. -/
def floor (x : Binary64) : Int :=
  let (a, b) := x.ratio
  if x.isNaN then 0
  else if x.isNegative then -(((a + b - 1) / b : Nat) : Int)
  else ((a / b : Nat) : Int)

/-- The integer that a number is equal to. -/
def whole? (x : Binary64) : Option Int :=
  if x.field = 0x7FF then none
  else
    let (a, b) := x.ratio
    if a % b = 0 then some x.truncate else none

def isZero (x : Binary64) : Bool := x.field == 0 && x.fraction == 0

end Binary64

/-!
## The shortest decimal of a floating point number

`digits` gives the fewest decimal digits that read back as the number, and of those the ones nearest
to it. `text` writes them: positionally for exponents from -4 to 15, with `.0` kept on whole
numbers, and with an exponent of at least two digits otherwise.
-/

namespace Binary64

def pointPosition (num den : Nat) : Int :=
  let below (k : Int) : Bool :=
    if k ≥ 0 then num < den * tenTo k.toNat else num * tenTo (-k).toNat < den
  let guess : Int := ((num.log2 : Int) - den.log2 + 2) * 1233 / 4096 + 1
  if below (guess - 2) then guess - 2 else if below (guess - 1) then guess - 1
  else if below guess then guess else guess + 1

/-- The two multiples of `10 ^ e` around `num / den`, the nearer one first; of two that are equally
near the even one first. -/
def neighbours (num den : Nat) (e : Int) : Nat × Nat :=
  let (a, b) := if e ≥ 0 then (num, den * tenTo e.toNat) else (num * tenTo (-e).toNat, den)
  let q := a / b
  let r := a % b
  if 2 * r < b then (q, q + 1) else if 2 * r > b then (q + 1, q)
  else if q % 2 = 0 then (q, q + 1) else (q + 1, q)

def firstHit (x : Binary64) (num den : Nat) (k : Int) : Nat → Nat → Nat × Int
  | 0, n => ((neighbours num den (k - n)).1, k - n)
  | fuel + 1, n =>
    let e := k - n
    let (a, b) := neighbours num den e
    if ofDecimal x.isNegative a e = x then (a, e)
    else if ofDecimal x.isNegative b e = x then (b, e)
    else firstHit x num den k fuel (n + 1)

/-- The fewest digits that read back as a finite number other than zero, and the power of ten of the
last one. -/
def digits (x : Binary64) : Nat × Int :=
  let (num, den) := x.ratio
  firstHit x num den (pointPosition num den) 16 1

/-! ### Writing digits -/

/-- Digits without zeros at their end, and the power of ten of the last one. -/
def withoutZeros : Nat → Nat → Int → Nat × Int
  | 0, n, e => (n, e)
  | fuel + 1, n, e => if n % 10 = 0 && n != 0 then withoutZeros fuel (n / 10) (e + 1) else (n, e)

private def zeros (n : Nat) : String := String.ofList (List.replicate n '0')

private def exponentText (e : Int) : String :=
  let ds := toString e.natAbs
  (if e < 0 then "e-" else "e+") ++ (if ds.length < 2 then "0" ++ ds else ds)

/-- How numbers are laid out. -/
structure Layout where
  /-- With the point up to this place a number is written positionally. -/
  lastPlace : Int
  /-- Is a fraction written before an exponent even if it is zero? -/
  keepsFraction : Bool

/-- The number `n * 10 ^ e`: positionally from the fourth place after the point on, with an exponent
of at least two digits otherwise. A positional number keeps a fraction. -/
def Layout.write (l : Layout) (n : Nat) (e : Int) : String :=
  let ds := toString n
  let point : Int := ds.length + e
  if point > l.lastPlace || point ≤ -4 then
    let tail := ds.toList.drop 1
    let fraction := if tail.isEmpty then if l.keepsFraction then ".0" else ""
      else "." ++ String.ofList tail
    String.ofList (ds.toList.take 1) ++ fraction ++ exponentText (point - 1)
  else if point ≤ 0 then "0." ++ zeros (-point).toNat ++ ds
  else if point ≥ ds.length then ds ++ zeros (point - ds.length).toNat ++ ".0"
  else String.ofList (ds.toList.take point.toNat) ++ "." ++ String.ofList (ds.toList.drop point.toNat)

def shortestLayout : Layout := ⟨16, false⟩

def text (x : Binary64) : String :=
  if x.isNaN then "nan"
  else
    let sign := if x.isNegative then "-" else ""
    if x.isInfinite then sign ++ "inf"
    else if x.isZero then sign ++ "0.0"
    else
      let (n, e) := (fun p : Nat × Int => withoutZeros 20 p.1 p.2) x.digits
      sign ++ shortestLayout.write n e

end Binary64

end CodeAtlas
