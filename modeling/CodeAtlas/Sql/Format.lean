import CodeAtlas.Sql.Value

/-!
# Values in a format

A format is a text with places for values. A place starts with `%` and says how its value is written: as a
number in some base, as a number with a fraction, as a text, or as a text in quotes. Between the mark and the
letter stand flags, a width and a precision (`Style`).

Numbers with a fraction are written by arithmetic on numbers of sixty-four significant bits, and no more than
sixteen of their digits count, or twenty-six if asked for.
-/
namespace CodeAtlas.Sql

/-- How a value is written. -/
structure Style where
  leftAligned : Bool
  sign : Option Char
  alternate : Bool
  /-- Digits beyond the sixteenth count, and characters are counted instead of bytes. -/
  full : Bool
  zeros : Bool
  thousands : Bool
  width : Nat
  precision : Option Nat

namespace Style

def plain : Style := ⟨false, none, false, false, false, false, 0, none⟩

end Style

/-- The shapes of a number with a fraction. -/
inductive RealShape where
  | fixed
  | exponent
  /-- The shorter of the two. -/
  | general
  deriving DecidableEq, Repr

namespace Format

open Binary64 (tenTo)
open Chars (natOf)

/-! ## Numbers with a fraction -/

/-- Half a unit of the last digit, rounded after every ten digits. -/
def rounder (precision : Nat) : Binary64 :=
  let rec down : Nat → Binary64 → Binary64
    | 0, x => x
    | k + 1, x => down k (x.mul (Binary64.ofRatio false 1 (tenTo 10)))
  down (precision % 4096 / 10) (Binary64.ofRatio false 5 (tenTo (precision % 4096 % 10 + 1)))

def takeDigits : Nat → Nat → Extended → List Char × Nat × Extended
  | 0, count, x => ([], count, x)
  | n + 1, count, x =>
    if count = 0 then
      let (ds, rest) := takeDigits n 0 x
      ('0' :: ds, rest)
    else
      let (d, y) := x.nextDigit
      let (ds, rest) := takeDigits n (count - 1) y
      (Char.ofNat (48 + d) :: ds, rest)

/-- A digit string without zeros at its end, nor a point that ends it. -/
def withoutTail (full : Bool) (s : List Char) : List Char :=
  match s.reverse.dropWhile (· == '0') with
  | '.' :: r => if full then r.reverse ++ ['.', '0'] else r.reverse
  | r => r.reverse

/-- A number without its sign. -/
def real (shape : RealShape) (capital : Bool) (style : Style) (x : Binary64) : List Char :=
  if x.isInfinite then "Inf".toList
  else
    let given := style.precision.getD 6
    let precision := if shape = .general ∧ given > 0 then given - 1 else given
    let half := rounder precision
    let value := Extended.ofBinary64 x
    let value :=
      if shape = .fixed then
        let size : Int := (x.field : Int) - 1023
        let half :=
          if (precision : Int) + size.tdiv 3 < 15 then
            let part := value.mul (Extended.ofBinary64 (Binary64.ofRatio false 3 (tenTo 16)))
            ((Extended.ofBinary64 half).add part).toBinary64 false
          else half
        value.add (Extended.ofBinary64 half)
      else value
    let (value, e) := if value.m = 0 then (value, (0 : Int)) else value.normal
    let (value, e) :=
      if shape = .fixed then (value, e)
      else
        let value := value.add (Extended.ofBinary64 half)
        if value.ge (Extended.ofNat 10) then
          (value.mul (Extended.ofBinary64 (Binary64.ofRatio false 1 10)), e + 1)
        else (value, e)
    let (shape, precision, short) :=
      if shape = .general then
        if e < -4 ∨ e > precision then (RealShape.exponent, precision, !style.alternate)
        else (.fixed, ((precision : Int) - e).toNat, !style.alternate)
      else (shape, precision, style.full)
    let pointed := precision > 0 || style.alternate || style.full
    let place := if shape = .exponent then 0 else e
    let (front, count, value) :=
      if place < 0 then (['0'], if style.full then 26 else 16, value)
      else takeDigits (place.toNat + 1) (if style.full then 26 else 16) value
    let gap := min (if place < 0 then (-place - 1).toNat else 0) precision
    let (back, _) := takeDigits (precision - gap) count value
    let digits := front ++ (if pointed then ['.'] else []) ++ List.replicate gap '0' ++ back
    let digits := if short && pointed then withoutTail style.full digits else digits
    if shape = .exponent then
      let n := e.natAbs
      let power := if n < 10 then "0" ++ toString n else toString n
      digits ++ [if capital then 'E' else 'e', if e < 0 then '-' else '+'] ++ power.toList
    else digits

def signedReal (shape : RealShape) (capital : Bool) (style : Style) (x : Binary64) : List Char :=
  let sign := if x.isNegative && !x.isZero then ['-'] else style.sign.toList
  let digits := real shape capital style x
  let room := style.width - (sign.length + digits.length)
  if style.zeros && !style.leftAligned && !x.isInfinite then sign ++ List.replicate room '0' ++ digits
  else sign ++ digits

/-! ## Whole numbers -/

/-- Digits with a comma before every third one from the end. -/
def grouped (ds : List Char) : List Char :=
  let rec go : List Char → Nat → List Char
    | [], _ => []
    | d :: ds, k => if k % 3 = 0 ∧ k > 0 then ',' :: d :: go ds (k + 1) else d :: go ds (k + 1)
  (go ds.reverse 0).reverse

def ordinalEnd (n : Nat) : String :=
  if n / 10 % 10 = 1 then "th"
  else match n % 10 with
    | 1 => "st"
    | 2 => "nd"
    | 3 => "rd"
    | _ => "th"

def whole (style : Style) (base : Nat) (capital : Bool) (lead : String) (sign : Option Char) (tail : String)
    (n : Nat) : List Char :=
  let digits := (Nat.toDigits base n).map fun c => if capital then c.toUpper else c
  let digits := digits ++ tail.toList
  let precision := style.precision.getD 0
  let precision := if style.zeros then max precision (style.width - sign.toList.length) else precision
  let digits := List.replicate (precision - digits.length) '0' ++ digits
  let digits := if style.thousands then grouped digits else digits
  (if style.alternate && n != 0 then lead.toList else []) ++ sign.toList ++ digits

/-! ## Texts -/

/-- The beginning of a text that a precision leaves: so many bytes, or characters. -/
def portion (style : Style) (s : String) : String :=
  let s := String.ofList (s.toList.takeWhile (·.toNat != 0))
  match style.precision with
  | none => s
  | some n => if style.full then String.ofList (s.toList.take n) else Utf8.replaced (s.toUTF8.toList.take n)

/-- A text with every quote in it written twice. -/
def doubled (q : Char) (s : String) : String :=
  String.ofList (s.toList.flatMap fun c => if c = q then [c, c] else [c])

def padded (style : Style) (byChars : Bool) (s : String) : String :=
  let size := if byChars then s.length else s.utf8ByteSize
  let blanks := String.ofList (List.replicate (style.width - size) ' ')
  if style.leftAligned then s ++ blanks else blanks ++ s

/-! ## Reading a place -/

/-- What is read of a place: its style, the values that are left and the characters that follow. -/
structure Reading where
  style : Style
  values : List Value
  rest : List Char

def readStyle : Nat → Reading → Reading
  | 0, r => r
  | steps + 1, r =>
    let style := r.style
    let flag (style : Style) (rest : List Char) : Reading := readStyle steps ⟨style, r.values, rest⟩
    let size (marks : String) (next : Reading) : Reading :=
      if next.rest.head?.any marks.toList.contains then readStyle steps next else next
    match r.rest with
    | '-' :: s => flag { style with leftAligned := true } s
    | '+' :: s => flag { style with sign := some '+' } s
    | ' ' :: s => flag { style with sign := some ' ' } s
    | '#' :: s => flag { style with alternate := true } s
    | '!' :: s => flag { style with full := true } s
    | '0' :: s => flag { style with zeros := true } s
    | ',' :: s => flag { style with thousands := true } s
    | 'l' :: 'l' :: s => { r with rest := s }
    | 'l' :: s => { r with rest := s }
    | '*' :: s =>
      let n := (r.values.head?.getD .null).toWhole
      let style := { style with width := n.natAbs, leftAligned := style.leftAligned || n < 0 }
      size ".l" ⟨style, r.values.drop 1, s⟩
    | '.' :: '*' :: s =>
      let n := (r.values.head?.getD .null).toWhole
      size "l" ⟨{ style with precision := some n.natAbs }, r.values.drop 1, s⟩
    | '.' :: s =>
      let style := { style with precision := some (natOf (s.takeWhile Char.isDigit)) }
      size "l" ⟨style, r.values, s.dropWhile Char.isDigit⟩
    | c :: s =>
      if c.isDigit then
        let style := { style with width := natOf ((c :: s).takeWhile Char.isDigit) }
        size ".l" ⟨style, r.values, (c :: s).dropWhile Char.isDigit⟩
      else r
    | [] => r

def written (style : Style) (letter : Char) (v : Value) : Option String :=
  let n := v.toWhole
  let bits := n % (18446744073709551616 : Int)
  let sign := if n < 0 then some '-' else style.sign
  let exact := { style with thousands := false }
  let number (ds : List Char) : Option String := some (padded style false (String.ofList ds))
  let quoted (q : Char) (s : String) : String := doubled q (portion style s)
  match letter with
  | 'd' | 'i' => number (whole style 10 false "" sign "" n.natAbs)
  | 'u' => number (whole exact 10 false "" none "" bits.toNat)
  | 'x' => number (whole exact 16 false "0x" none "" bits.toNat)
  | 'X' => number (whole exact 16 true "0X" none "" bits.toNat)
  | 'p' => number (whole exact 16 true "0x" none "" bits.toNat)
  | 'o' => number (whole exact 8 false "0" none "" bits.toNat)
  | 'r' => number (whole exact 10 false "" sign (ordinalEnd n.natAbs) n.natAbs)
  | 'f' => number (signedReal .fixed false style v.toReal)
  | 'e' => number (signedReal .exponent false style v.toReal)
  | 'E' => number (signedReal .exponent true style v.toReal)
  | 'g' => number (signedReal .general false style v.toReal)
  | 'G' => number (signedReal .general true style v.toReal)
  | 's' | 'z' => some (padded style style.full (portion style (v.asText.getD "")))
  | 'c' =>
    let one := v.chars.take 1
    some (padded style true (String.ofList (List.replicate (max 1 (style.precision.getD 1)) one).flatten))
  | 'q' => some (padded style style.full (if v = .null then "(NULL)" else quoted '\'' (v.asText.getD "")))
  | 'w' => some (padded style style.full (if v = .null then "(NULL)" else quoted '"' (v.asText.getD "")))
  | 'Q' =>
    let s := if v = .null then "NULL" else "'" ++ quoted '\'' (v.asText.getD "") ++ "'"
    some (padded style style.full s)
  | _ => none

/-- The text of a format with its values. It ends at a letter without a meaning. -/
def fill : Nat → List Char → List Value → String
  | 0, _, _ => ""
  | steps + 1, s, values =>
    let front := String.ofList (s.takeWhile (· != '%'))
    match s.dropWhile (· != '%') with
    | [] => front
    | [_] => front ++ "%"
    | _ :: s =>
      let r := readStyle s.length ⟨.plain, values, s⟩
      match r.rest with
      | [] => front
      | '%' :: s => front ++ padded r.style false "%" ++ fill steps s r.values
      | 'n' :: s => front ++ fill steps s r.values
      | c :: s =>
        match written r.style c (r.values.head?.getD .null) with
        | some piece => front ++ piece ++ fill steps s (r.values.drop 1)
        | none => front

end Format

def format (s : List Char) (values : List Value) : String := Format.fill (s.length + 1) s values

end CodeAtlas.Sql
