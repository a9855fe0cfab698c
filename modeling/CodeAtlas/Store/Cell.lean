import CodeAtlas.Decimal.Extended
import CodeAtlas.Failure

/-!
# Cells

A cell of a table holds a whole number of 64 bits, a number with a fraction, a text or nothing. What
a cell holds follows from the value that is handed over and from the column it goes to:

* a column of texts makes a text of every number (`Cell.asText`);
* a column of numbers makes a number of every text that reads as one, and keeps any other text
  (`Cell.asNumber`).

The value that a column is compared with is turned in the same way.
-/

/-!
## Numbers with fifteen digits

A number that is kept as a text in a table is written with its first fifteen digits. Zeros at the end
are left out, but a fraction is always written.
-/
namespace CodeAtlas.Binary64

def roundedLayout : Layout := ⟨15, true⟩

def roundedText (x : Binary64) : String :=
  if x.isZero then "0.0"
  else
    let sign := if x.isNegative then "-" else ""
    if x.isInfinite then sign ++ "Inf"
    else
      let (n, e) := (Extended.ofBinary64 x).digits
      let (n, e) := withoutZeros 20 n e
      sign ++ roundedLayout.write n e

end CodeAtlas.Binary64

/-! ## Cells -/
namespace CodeAtlas

/-- What a table holds in a column of a row. -/
inductive Cell where
  | null
  | number (n : Int)
  | real (x : Binary64)
  | text (s : String)
  deriving DecidableEq

namespace Cell

def fits (n : Int) : Bool := -9223372036854775808 ≤ n && n ≤ 9223372036854775807

def tooLarge : Failure := .overflow "Python int too large to convert to SQLite INTEGER"

/-- The cell that a value is handed over as. Lists and objects cannot be handed over, and what is not
a number is nothing. -/
def ofJson : Json → Except Failure Cell
  | .null => .ok .null
  | .bool b => .ok (.number (if b then 1 else 0))
  | .int n => if fits n then .ok (.number n) else .error tooLarge
  | .real x => .ok (if x.isNaN then .null else .real x)
  | .str s => .ok (.text s)
  | .arr _ | .obj _ => .error .unbindable

def toJson : Cell → Json
  | null => .null
  | number n => .int n
  | real x => .real x
  | text s => .str s

def asText : Cell → Option String
  | null => none
  | number n => some (toString n)
  | real x => some x.roundedText
  | text s => some s

def ofReal (x : Binary64) : Cell :=
  match x.whole? with
  | some n => if fits (n - 1) && fits (n + 1) then number n else real x
  | none => real x

/-- A blank around a number in a text. -/
def isGap (c : Char) : Bool := c == ' ' || (9 ≤ c.toNat && c.toNat ≤ 13)

open Chars (digitOf natOf)

/-- The exponent at the end of a number: nothing at all, or a mark, an optional sign and digits. -/
def exponentOf? : List Char → Option Int
  | [] => some 0
  | c :: s =>
    if c == 'e' || c == 'E' then
      let (negative, ds) := match s with
        | '-' :: s => (true, s)
        | '+' :: s => (false, s)
        | s => (false, s)
      if ds.isEmpty || !ds.all Char.isDigit then none
      else some (if negative then -(natOf ds : Int) else natOf ds)
    else none

/-- The number that characters without a sign show. Only digits are a whole number; a point may stand
before, between or after them, and an exponent at the end. -/
def unsigned? (negative : Bool) (s : List Char) : Option Cell :=
  let whole := s.takeWhile Char.isDigit
  let rest := s.dropWhile Char.isDigit
  let (fraction, rest, pointed) := match rest with
    | '.' :: r => (r.takeWhile Char.isDigit, r.dropWhile Char.isDigit, true)
    | r => ([], r, false)
  if whole.isEmpty && fraction.isEmpty then none
  else
    let n := natOf whole
    let signed : Int := if negative then -(n : Int) else n
    if !pointed && rest.isEmpty && fits signed then some (number signed)
    else (exponentOf? rest).map fun e =>
      ofReal (Extended.ofDecimal negative (whole.map digitOf) (fraction.map digitOf) e)

/-- The number that a text shows, with blanks around it and an optional sign. -/
def numberOf? (s : String) : Option Cell :=
  match Chars.trimBy isGap s.toList with
  | '-' :: s => unsigned? true s
  | '+' :: s => unsigned? false s
  | s => unsigned? false s

def asNumber : Cell → Cell
  | null => null
  | number n => number n
  | real x => ofReal x
  | text s => (numberOf? s).getD (text s)

end Cell
end CodeAtlas
