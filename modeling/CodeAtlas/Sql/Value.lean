import CodeAtlas.Store.Cell

/-!
# Values

A value is nothing, a whole number of 64 bits, a number with a fraction, a text or a row of bytes. Nothing
stands before numbers, numbers before texts and texts before bytes; two texts stand in the order of a
collation (`Value.order`).

What a value becomes depends on where it goes: a column has an affinity (`Affinity.apply`), and a conversion
goes further than a column does (`Value.convert`). A text counts as the number at its beginning.
-/

/-!
## Names

Names of tables, columns and functions are the same in small and in capital letters. Only the letters
from A to Z have both forms.
-/
namespace CodeAtlas.Sql

def folded (s : String) : String := String.ofList (s.toList.map Char.toLower)

def sameName (a b : String) : Bool := folded a == folded b

def hasName (names : List String) (name : String) : Bool := names.any (sameName name)

def withoutRepeats (names : List String) : List String :=
  (names.foldl (fun seen n => if hasName seen n then seen else n :: seen) []).reverse

def isInternal (name : String) : Bool := Text.startsWith "sqlite_" (folded name)

/-- Why a statement fails. -/
inductive Fault where
  /-- The statement cannot be read, or it is about something that is not there or not possible. -/
  | rejected
  /-- A row would break a rule of its table. -/
  | violated
  /-- More than one statement is sent, or a value that it needs is not handed over. -/
  | misused
  | tooLarge
  deriving DecidableEq, Repr

/-- Something that a statement has to be about. -/
def needed {α : Type} : Option α → Except Fault α
  | some a => .ok a
  | none => .error .rejected

/-! ## Values of a database -/

inductive Value where
  | null
  | whole (n : Int)
  | real (x : Binary64)
  | text (s : String)
  | blob (bytes : List UInt8)
  deriving DecidableEq

/-- What a column makes of the values that go to it. -/
inductive Affinity where
  /-- There is no column: the value of an expression. -/
  | none
  /-- Values stay as they are. -/
  | blob
  | text
  | numeric
  | integer
  | real
  deriving DecidableEq, Repr

/-- How texts are compared. -/
inductive Collation where
  | binary
  /-- Small and capital letters are the same. -/
  | nocase
  /-- Spaces at the end do not count. -/
  | rtrim
  deriving DecidableEq, Repr

namespace Collation

def ofName? (name : String) : Option Collation :=
  match folded name with
  | "binary" => some .binary
  | "nocase" => some .nocase
  | "rtrim" => some .rtrim
  | _ => none

/-- What of a text is compared. -/
def key : Collation → String → String
  | .binary, s => s
  | .nocase, s => folded s
  | .rtrim, s => String.ofList (s.toList.reverse.dropWhile (· == ' ')).reverse

def order (c : Collation) (s t : String) : Ordering :=
  if c.key s < c.key t then .lt else if c.key s = c.key t then .eq else .gt

end Collation

/-! ## Numbers at the beginning of a text -/

/-- The parts of a number without a sign. -/
structure Numeral where
  whole : List Char
  fraction : List Char
  /-- Is there a point? -/
  pointed : Bool
  power : Option Int

namespace Numeral

open Chars (digitOf natOf)

/-- The exponent at the beginning of a text: a mark, a sign that may be left out, and digits. -/
def exponent (s : List Char) : Option Int × List Char :=
  let digits (negative : Bool) (r : List Char) : Option Int × List Char :=
    match r.takeWhile Char.isDigit with
    | [] => (none, s)
    | ds =>
      let n : Int := natOf ds
      (some (if negative then -n else n), r.dropWhile Char.isDigit)
  match s with
  | e :: r =>
    if e = 'e' ∨ e = 'E' then
      match r with
      | '-' :: r => digits true r
      | '+' :: r => digits false r
      | r => digits false r
    else (none, s)
  | [] => (none, s)

/-- The number at the beginning of a text, and what follows. -/
def read (s : List Char) : Numeral × List Char :=
  let whole := s.takeWhile Char.isDigit
  let (fraction, pointed, rest) := match s.dropWhile Char.isDigit with
    | '.' :: r => (r.takeWhile Char.isDigit, true, r.dropWhile Char.isDigit)
    | r => ([], false, r)
  if whole.isEmpty && fraction.isEmpty then (⟨[], [], false, none⟩, s)
  else
    let (power, rest) := exponent rest
    (⟨whole, fraction, pointed, power⟩, rest)

def isWhole (n : Numeral) : Bool := !n.pointed && n.power.isNone

/-- The value of a number with a sign. A whole number of more than 64 bits has a fraction. -/
def value (negative : Bool) (n : Numeral) : Value :=
  let k : Int := natOf n.whole
  let k := if negative then -k else k
  if n.isWhole && Cell.fits k then .whole k
  else .real (Extended.ofDecimal negative (n.whole.map digitOf) (n.fraction.map digitOf) (n.power.getD 0))

/-- The whole number before the point, as near as 64 bits allow. -/
def clamped (negative : Bool) (n : Numeral) : Int :=
  let k : Int := natOf n.whole
  max (-9223372036854775808) (min 9223372036854775807 (if negative then -k else k))

end Numeral

/-- A text from its first sign or digit on, and whether it starts with a minus. -/
def unsignedChars (s : String) : Bool × List Char :=
  match s.toList.dropWhile Cell.isGap with
  | '-' :: r => (true, r)
  | '+' :: r => (false, r)
  | r => (false, r)

namespace Value

def ofCell : Cell → Value
  | .null => .null
  | .number n => .whole n
  | .real x => .real x
  | .text s => .text s

def ofBool (b : Bool) : Value := .whole (if b then 1 else 0)

def ofTruth : Option Bool → Value
  | none => .null
  | some b => ofBool b

def ofResult (x : Binary64) : Value := if x.isNaN then .null else .real x

/-- A whole result, or one with a fraction if it has more than 64 bits. -/
def ofInt (n : Int) : Value := if Cell.fits n then .whole n else .real (Binary64.ofInt n)

def asText : Value → Option String
  | null => none
  | whole n => some (toString n)
  | real x => some x.roundedText
  | text s => some s
  | blob b => some (Utf8.replaced b)

def chars (v : Value) : List Char := (v.asText.getD "").toList

def shownChars (v : Value) : List Char := v.chars.takeWhile (·.toNat != 0)

def bytes : Value → List UInt8
  | blob b => b
  | v => (v.asText.getD "").toUTF8.toList

def toNumber : Value → Value
  | text s => let (negative, r) := unsignedChars s; (Numeral.read r).1.value negative
  | blob b => let (negative, r) := unsignedChars (Utf8.replaced b); (Numeral.read r).1.value negative
  | v => v

/-- The whole part of a number, as near as 64 bits allow. -/
def truncated (x : Binary64) : Int :=
  if x.isInfinite then if x.isNegative then -9223372036854775808 else 9223372036854775807
  else if x.isNaN then 0
  else max (-9223372036854775808) (min 9223372036854775807 x.truncate)

def toWhole : Value → Int
  | null => 0
  | whole n => n
  | real x => truncated x
  | text s => let (negative, r) := unsignedChars s; (Numeral.read r).1.clamped negative
  | blob b => let (negative, r) := unsignedChars (Utf8.replaced b); (Numeral.read r).1.clamped negative

/-- The whole number of 32 bits that a value counts as; bits above these are lost. -/
def toShort (v : Value) : Int := (Int32.ofInt v.toWhole).toInt

def toReal (v : Value) : Binary64 :=
  match v.toNumber with
  | whole n => Binary64.ofInt n
  | real x => x
  | _ => Binary64.ofInt 0

/-- Is a value true? Nothing is neither true nor false. -/
def truth : Value → Option Bool
  | null => none
  | whole n => some (n != 0)
  | v => some (!v.toReal.isZero)

def holds (v : Value) : Bool := v.truth == some true

/-! ## Order -/

/-- The order of two numbers that are no fractions of each other's kind. -/
def orderReals (x y : Binary64) : Ordering :=
  let signed (x : Binary64) (n : Nat) : Int := if x.isNegative then -(n : Int) else n
  match x.isInfinite, y.isInfinite with
  | true, true => compare (signed x 1) (signed y 1)
  | true, false => if x.isNegative then .lt else .gt
  | false, true => if y.isNegative then .gt else .lt
  | false, false =>
    let (a, b) := x.ratio
    let (c, d) := y.ratio
    compare (signed x (a * d)) (signed y (c * b))

def orderMixed (m : Int) (y : Binary64) : Ordering :=
  if y.isInfinite then if y.isNegative then .gt else .lt
  else
    let (c, d) := y.ratio
    compare (m * d) (if y.isNegative then -(c : Int) else c)

def orderBytes : List UInt8 → List UInt8 → Ordering
  | [], [] => .eq
  | [], _ => .lt
  | _, [] => .gt
  | a :: as, b :: bs => if a < b then .lt else if b < a then .gt else orderBytes as bs

def order (c : Collation) : Value → Value → Ordering
  | null, null => .eq
  | null, _ => .lt
  | _, null => .gt
  | whole m, whole n => compare m n
  | whole m, real y => orderMixed m y
  | real x, whole n => (orderMixed n x).swap
  | real x, real y => orderReals x y
  | whole _, _ => .lt
  | real _, _ => .lt
  | _, whole _ => .gt
  | _, real _ => .gt
  | text s, text t => c.order s t
  | text _, blob _ => .lt
  | blob _, text _ => .gt
  | blob a, blob b => orderBytes a b

def before (c : Collation) (a b : Value) : Bool := order c a b == .lt

def alike (c : Collation) (a b : Value) : Bool := order c a b == .eq

/-! ## Conversion -/

/-- A number, as a whole one if it is one. -/
def settled : Value → Value
  | real x => ofCell (Cell.ofReal x)
  | v => v

/-- The number that a value is, or that a text shows if it shows nothing else. It stays of its kind. -/
def number? : Value → Option Value
  | whole n => some (whole n)
  | real x => some (real x)
  | text s => (Cell.numberOf? s).map fun _ => (text s).toNumber
  | _ => none

def numeric : Value → Value
  | text s => ((Cell.numberOf? s).map ofCell).getD (text s)
  | v => settled v

end Value

namespace Affinity

def ofType (type : String) : Affinity :=
  let t := folded type
  let has (w : String) : Bool := Text.contains w t
  if has "int" then .integer
  else if has "char" || has "clob" || has "text" then .text
  else if has "blob" || t.isEmpty then .blob
  else if has "real" || has "floa" || has "doub" then .real
  else .numeric

def isNumeric : Affinity → Bool
  | .numeric | .integer | .real => true
  | _ => false

def apply : Affinity → Value → Value
  | .text, .whole n => .text (toString n)
  | .text, .real x => .text x.roundedText
  | .numeric, v => v.numeric
  | .integer, v => v.numeric
  | .real, v =>
    match v.numeric with
    | .whole n => .real (Binary64.ofInt n)
    | v => v
  | _, v => v

/-- The affinity under which two values are compared. -/
def common (a b : Affinity) : Affinity :=
  if a ≠ .none ∧ b ≠ .none then if a.isNumeric || b.isNumeric then .numeric else .blob
  else if a = .none then b else a

/-- What two values are compared as. Only a text becomes a number, and only a number a text. -/
def harmonize (a : Affinity) (v : Value) : Value :=
  if a.isNumeric then
    match v with
    | .text _ => Affinity.numeric.apply v
    | v => v
  else if a = .text then Affinity.text.apply v
  else v

end Affinity

def Value.convert (a : Affinity) (v : Value) : Value :=
  match v, a with
  | .null, _ => .null
  | v, .none => v
  | v, .blob => .blob v.bytes
  | v, .text => ((v.asText).map Value.text).getD .null
  | v, .integer => .whole v.toWhole
  | v, .real => .real v.toReal
  | .whole n, .numeric => .whole n
  | .real x, .numeric => .real x
  | v, .numeric => v.toNumber.settled

end CodeAtlas.Sql
