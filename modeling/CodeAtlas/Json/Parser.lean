import CodeAtlas.Json.Basic
import CodeAtlas.Text.Basic

/-!
# Reading JSON text

`Json.ofText` accepts the JSON grammar, and beside it the three words `NaN`, `Infinity` and
`-Infinity` for numbers. A control character inside a quoted text is refused. Of a repeated key the
last value counts, in the place of the first. A whole number may have `Integer.maxDigits` digits, and
lists and objects may stand inside each other `maxDepth` deep.

The readers take the text as characters and return what they read and what is left. The length of
the text serves as fuel.
-/
namespace CodeAtlas.Json

/-- Why a text shows no value. -/
inductive Fault where
  | malformed
  | numberTooLong (digits : Nat)
  /-- Too many lists and objects inside each other. -/
  | tooDeep
  deriving DecidableEq, Repr

/-- How deep lists and objects may stand inside each other. -/
def maxDepth : Nat := 990

/-- The blanks between the parts of a JSON text. -/
def isGap (c : Char) : Bool := c == ' ' || c == '\n' || c == '\r' || c == '\t'

def skipGap (s : List Char) : List Char := s.dropWhile isGap

/-- The number that a hexadecimal digit stands for. -/
def hexValue? (c : Char) : Option Nat :=
  if '0' ≤ c ∧ c ≤ '9' then some (c.toNat - 48)
  else if 'a' ≤ c ∧ c ≤ 'f' then some (c.toNat - 87)
  else if 'A' ≤ c ∧ c ≤ 'F' then some (c.toNat - 55)
  else none

/-- Four hexadecimal digits. -/
def unit? : List Char → Option (Nat × List Char)
  | a :: b :: c :: d :: s => do
    let a ← hexValue? a
    let b ← hexValue? b
    let c ← hexValue? c
    let d ← hexValue? d
    some (((a * 16 + b) * 16 + c) * 16 + d, s)
  | _ => none

def simpleEscape? : Char → Option Char
  | '"' => some '"'
  | '\\' => some '\\'
  | '/' => some '/'
  | 'b' => some (Char.ofNat 8)
  | 'f' => some (Char.ofNat 12)
  | 'n' => some '\n'
  | 'r' => some '\r'
  | 't' => some '\t'
  | _ => none

def lowHalf? : List Char → Option (Nat × List Char)
  | '\\' :: 'u' :: s =>
    match unit? s with
    | some (n, r) => if 0xDC00 ≤ n ∧ n ≤ 0xDFFF then some (n, r) else none
    | none => none
  | _ => none

/-- The rest of a quoted text after its opening quote. A surrogate without its other half is read as
the replacement character. -/
def stringTail (acc : List Char) : Nat → List Char → Option (String × List Char)
  | 0, _ => none
  | _ + 1, [] => none
  | fuel + 1, c :: s =>
    if c = '"' then some (String.ofList acc.reverse, s)
    else if c = '\\' then
      match s with
      | 'u' :: s =>
        match unit? s with
        | none => none
        | some (n, r) =>
          if 0xD800 ≤ n ∧ n ≤ 0xDBFF then
            match lowHalf? r with
            | some (m, r) =>
              stringTail (Char.ofNat (0x10000 + (n - 0xD800) * 1024 + (m - 0xDC00)) :: acc) fuel r
            | none => stringTail (Char.ofNat 0xFFFD :: acc) fuel r
          else if 0xDC00 ≤ n ∧ n ≤ 0xDFFF then stringTail (Char.ofNat 0xFFFD :: acc) fuel r
          else stringTail (Char.ofNat n :: acc) fuel r
      | d :: s =>
        match simpleEscape? d with
        | some e => stringTail (e :: acc) fuel s
        | none => none
      | [] => none
    else if c.toNat < 0x20 then none
    else stringTail (c :: acc) fuel s

private def digitsValue (ds : List Char) : Nat := ds.foldl (fun n c => 10 * n + (c.toNat - 48)) 0

def fraction? : List Char → Option (List Char × List Char)
  | '.' :: s =>
    match s.takeWhile Char.isDigit with
    | [] => none
    | ds => some (ds, s.dropWhile Char.isDigit)
  | _ => none

/-- The exponent of a number: its mark, an optional sign and at least one digit. -/
def exponent? : List Char → Option (Int × List Char)
  | c :: s =>
    if c = 'e' ∨ c = 'E' then
      let (negative, s) := match s with
        | '-' :: s => (true, s)
        | '+' :: s => (false, s)
        | s => (false, s)
      match s.takeWhile Char.isDigit with
      | [] => none
      | ds =>
        let n : Int := digitsValue ds
        some (if negative then -n else n, s.dropWhile Char.isDigit)
    else none
  | [] => none

/-- The whole part of a number: a zero alone, or digits that do not start with zero. -/
def whole? : List Char → Option (List Char × List Char)
  | '0' :: s => some (['0'], s)
  | s =>
    match s.takeWhile Char.isDigit with
    | [] => none
    | ds => some (ds, s.dropWhile Char.isDigit)

def number (negative : Bool) (s : List Char) : Except Fault (Json × List Char) :=
  match whole? s with
  | none => .error .malformed
  | some (ds, r) =>
    let n := digitsValue ds
    match fraction? r, exponent? r with
    | none, none =>
      if ds.length ≤ Integer.maxDigits then .ok (.int (if negative then -(n : Int) else n), r)
      else .error (.numberTooLong ds.length)
    | none, some (e, r) => .ok (.real (Binary64.ofDecimal negative n e), r)
    | some (fs, r), _ =>
      let m := digitsValue (ds ++ fs)
      match exponent? r with
      | none => .ok (.real (Binary64.ofDecimal negative m (-(fs.length : Int))), r)
      | some (e, r) => .ok (.real (Binary64.ofDecimal negative m (e - fs.length)), r)

private def word (w : String) (v : Json) (s : List Char) : Except Fault (Json × List Char) :=
  match Chars.after? w.toList s with
  | some r => .ok (v, r)
  | none => .error .malformed

def quoted (s : List Char) : Except Fault (String × List Char) :=
  match stringTail [] (s.length + 1) s with
  | some (t, r) => .ok (t, r)
  | none => .error .malformed

mutual

/-- A value at the head of a text, in which lists and objects may go `depth` deep. -/
def value : Nat → Nat → List Char → Except Fault (Json × List Char)
  | 0, _, _ => .error .malformed
  | _ + 1, _, [] => .error .malformed
  | fuel + 1, depth, c :: s =>
    if c = '"' then do
      let (t, r) ← quoted s
      return (.str t, r)
    else if c = '\x7b' then
      match depth with
      | 0 => .error .tooDeep
      | depth + 1 =>
        match skipGap s with
        | '\x7d' :: r => .ok (.obj [], r)
        | r => do
          let (ms, r) ← membersFrom fuel depth r
          return (.obj (Table.ofPairs ms), r)
    else if c = '[' then
      match depth with
      | 0 => .error .tooDeep
      | depth + 1 =>
        match skipGap s with
        | ']' :: r => .ok (.arr [], r)
        | r => do
          let (xs, r) ← itemsFrom fuel depth r
          return (.arr xs, r)
    else if c = 'n' then word "ull" .null s
    else if c = 't' then word "rue" (.bool true) s
    else if c = 'f' then word "alse" (.bool false) s
    else if c = 'N' then word "aN" (.real Binary64.nan) s
    else if c = 'I' then word "nfinity" (.real (Binary64.infinity false)) s
    else if c = '-' then
      match s with
      | 'I' :: s => word "nfinity" (.real (Binary64.infinity true)) s
      | s => number true s
    else number false (c :: s)

def itemsFrom : Nat → Nat → List Char → Except Fault (List Json × List Char)
  | 0, _, _ => .error .malformed
  | fuel + 1, depth, s => do
    let (x, r) ← value fuel depth s
    match skipGap r with
    | ']' :: r => return ([x], r)
    | ',' :: r =>
      let (xs, r) ← itemsFrom fuel depth (skipGap r)
      return (x :: xs, r)
    | _ => throw .malformed

/-- The members of an object after its opening brace, up to its closing one. -/
def membersFrom : Nat → Nat → List Char → Except Fault (List (String × Json) × List Char)
  | 0, _, _ => .error .malformed
  | fuel + 1, depth, s =>
    match s with
    | '"' :: s => do
      let (k, r) ← quoted s
      match skipGap r with
      | ':' :: r =>
        let (x, r) ← value fuel depth (skipGap r)
        match skipGap r with
        | '\x7d' :: r => return ([(k, x)], r)
        | ',' :: r =>
          let (ms, r) ← membersFrom fuel depth (skipGap r)
          return ((k, x) :: ms, r)
        | _ => throw .malformed
      | _ => throw .malformed
    | _ => .error .malformed

end

/-- The value that a whole text shows, with nothing but blanks around it. -/
def ofChars (s : List Char) : Except Fault Json := do
  let (j, r) ← value (2 * s.length + 2) maxDepth (skipGap s)
  if (skipGap r).isEmpty then return j else throw .malformed

def ofText (s : String) : Except Fault Json := ofChars s.toList

def ofText? (s : String) : Option Json := (ofText s).toOption

end CodeAtlas.Json
