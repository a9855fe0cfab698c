import CodeAtlas.Decimal.Binary64

/-!
# Numbers of sixty-four significant bits

Tables read and write decimals by arithmetic on numbers that have sixty-four significant bits, eleven
more than the numbers they keep. Every operation rounds to the nearest such number, ties to the even
one, so what is read or written can be off in the last place.

* `Extended.ofRatio`: the nearest number to a quotient, on which all operations rest;
* `Extended.ofDecimal`: how a decimal is read;
* `Extended.digits`: how the first digits of a number are found.
-/
namespace CodeAtlas

/-- The number `m * 2 ^ q`, not below zero. -/
structure Extended where
  m : Nat
  q : Int
  deriving DecidableEq, Repr

namespace Extended

open Binary64 (twoTo tenTo scaleOf roundAt)

/-- A number as an exact quotient. -/
def ratio (x : Extended) : Nat × Nat :=
  if x.q ≥ 0 then (x.m * twoTo x.q.toNat, 1) else (x.m, twoTo (-x.q).toNat)

def ofRatio (num den : Nat) : Extended :=
  if num = 0 then ⟨0, 0⟩
  else
    let q := scaleOf 63 num den
    ⟨roundAt num den q, q⟩

def ofNat (n : Nat) : Extended := ofRatio n 1

/-- The amount of a number of fifty-three bits, which is exact. -/
def ofBinary64 (x : Binary64) : Extended :=
  let (num, den) := x.ratio
  ofRatio num den

/-- The nearest number of fifty-three bits, with a sign. -/
def toBinary64 (negative : Bool) (x : Extended) : Binary64 :=
  let (num, den) := x.ratio
  Binary64.ofRatio negative num den

def add (x y : Extended) : Extended :=
  let (a, b) := x.ratio
  let (c, d) := y.ratio
  ofRatio (a * d + c * b) (b * d)

def mul (x y : Extended) : Extended :=
  let (a, b) := x.ratio
  let (c, d) := y.ratio
  ofRatio (a * c) (b * d)

def div (x y : Extended) : Extended :=
  let (a, b) := x.ratio
  let (c, d) := y.ratio
  ofRatio (a * d) (b * c)

/-- Is a number at least another one? -/
def ge (x y : Extended) : Bool :=
  let (a, b) := x.ratio
  let (c, d) := y.ratio
  c * b ≤ a * d

/-- The whole part of a number, and ten times the rest. -/
def nextDigit (x : Extended) : Nat × Extended :=
  let (a, b) := x.ratio
  (a / b, ofRatio (a % b * 10) b)

/-! ## Reading decimals -/

def raise (x r : Extended) (n : Nat) : Extended :=
  if n = 0 then r
  else
    let r := if n % 2 = 1 then r.mul x else r
    if n / 2 = 0 then r else raise (x.mul x) r (n / 2)
termination_by n
decreasing_by omega

def tenToThe (n : Nat) : Extended := raise (ofNat 10) (ofNat 1) n

def fullSignificand : Nat := 922337203685477579

/-- Reads the digits before the point: those for which there is no room count as powers of ten. -/
def readWhole (ds : List Nat) : Nat × Int :=
  ds.foldl (fun (s, e) d => if s ≥ fullSignificand then (s, e + 1) else (10 * s + d, e)) (0, 0)

/-- Reads the digits after the point as long as there is room. -/
def readFraction (whole : Nat × Int) (ds : List Nat) : Nat × Int :=
  ds.foldl (fun (s, e) d => if s ≥ fullSignificand then (s, e) else (10 * s + d, e - 1)) whole

/-- Moves powers of ten into a significand as long as there is room. -/
def grow : Nat → Nat → Nat × Nat
  | s, 0 => (s, 0)
  | s, e + 1 => if s ≥ fullSignificand + 1 then (s, e + 1) else grow (10 * s) e

/-- Takes zeros off the end of a significand for negative powers of ten. -/
def shrink : Nat → Nat → Nat × Nat
  | s, 0 => (s, 0)
  | s, e + 1 => if s % 10 ≠ 0 then (s, e + 1) else shrink (s / 10) e

def greatestPower : Binary64 := Binary64.ofRatio false (tenTo 308) 1

/-- The number `s * 10 ^ e`. Beyond the greatest power of ten the last step is made on numbers of
fifty-three bits. -/
def scaledUp (negative : Bool) (s e : Nat) : Binary64 :=
  if e = 0 then Binary64.ofRatio negative s 1
  else if e ≤ 307 then ((ofNat s).mul (tenToThe e)).toBinary64 negative
  else if e < 342 then (((ofNat s).mul (tenToThe (e - 308))).toBinary64 negative).mul greatestPower
  else .infinity negative

def scaledDown (negative : Bool) (s e : Nat) : Binary64 :=
  if e = 0 then Binary64.ofRatio negative s 1
  else if e ≤ 307 then ((ofNat s).div (tenToThe e)).toBinary64 negative
  else if e < 342 then
    let (a, b) := (((ofNat s).div (tenToThe (e - 308))).toBinary64 negative).ratio
    let (c, d) := greatestPower.ratio
    Binary64.ofRatio negative (a * d) (b * c)
  else Binary64.ofRatio negative 0 1

/-- The number that digits before and after a point, with a power of ten, are read as. -/
def ofDecimal (negative : Bool) (whole fraction : List Nat) (exponent : Int) : Binary64 :=
  let (s, shift) := readFraction (readWhole whole) fraction
  let e := exponent + shift
  if s = 0 then Binary64.ofRatio negative 0 1
  else if e ≥ 0 then
    let (s, e) := grow s e.toNat
    scaledUp negative s e
  else
    let (s, e) := shrink s (-e).toNat
    scaledDown negative s e

/-! ## Finding digits -/

/-- Multiplies a scale as long as a number stays above it. The powers of ten are those that numbers of
fifty-three bits come nearest to. -/
def climb (x : Extended) (step : Nat) : Nat → Extended × Int → Extended × Int
  | 0, s => s
  | fuel + 1, (scale, e) =>
    let factor := ofBinary64 (Binary64.ofRatio false (tenTo step) 1)
    if x.ge (factor.mul scale) && e ≤ 350 then climb x step fuel (scale.mul factor, e + step)
    else (scale, e)

/-- Multiplies a small number until it is at least a bound. -/
def lift (bound : Extended) (step : Nat) : Nat → Extended × Int → Extended × Int
  | 0, s => s
  | fuel + 1, (x, e) =>
    if x.ge bound then (x, e) else lift bound step fuel (x.mul (ofNat (tenTo step)), e - step)

def normal (x : Extended) : Extended × Int :=
  let (scale, e) := climb x 1 10 (climb x 10 10 (climb x 100 4 (ofNat 1, 0)))
  let small := ofBinary64 (Binary64.ofRatio false 1 (tenTo 8))
  lift (ofNat 1) 1 10 (lift small 8 50 (x.div scale, e))

def takeDigits : Nat → Extended → Nat → Nat
  | 0, _, n => n
  | count + 1, x, n =>
    let (d, x) := x.nextDigit
    takeDigits count x (10 * n + d)

/-- What is added to a number before its first fifteen digits are taken. -/
def halfUnit : Extended :=
  let part := Binary64.ofRatio false 5 (tenTo 5)
  ofBinary64 (part.mul (Binary64.ofRatio false 1 (tenTo 10)))

/-- The first fifteen digits of a number other than zero, and the power of ten of the last one. -/
def digits (x : Extended) : Nat × Int :=
  let (y, e) := x.normal
  let y := y.add halfUnit
  let (y, e) :=
    if y.ge (ofNat 10) then (y.mul (ofBinary64 (Binary64.ofRatio false 1 10)), e + 1) else (y, e)
  (takeDigits 15 y 0, e - 14)

end Extended
end CodeAtlas
