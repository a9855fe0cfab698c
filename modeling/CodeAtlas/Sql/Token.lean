import CodeAtlas.Sql.Value

/-!
# The words of a statement

A statement is a row of words, names, texts, numbers and marks, with blanks and comments between them
(`Token.scan`). Words are the same in small and in capital letters. A name can stand in backquotes or in
square brackets; what stands in double quotes is a name if there is something of that name, and a text
if not.
-/
namespace CodeAtlas.Sql

inductive Token.Kind where
  | word (text : String)
  | name (text : String)
  | quoted (text : String)
  | text (value : String)
  /-- A number in digits only, perhaps of more than 64 bits. -/
  | whole (n : Int)
  | real (x : Binary64)
  | blob (bytes : List UInt8)
  /-- The place of a value that is handed over beside the statement. -/
  | parameter
  | mark (text : String)
  deriving DecidableEq

structure Token where
  kind : Token.Kind
  gap : String
  spelling : String
  deriving DecidableEq

namespace Token

def isGap (c : Char) : Bool := c == ' ' || c == '\t' || c == '\n' || c == '\r' || c.toNat == 12

def startsWord (c : Char) : Bool := c.isAlpha || c == '_' || 128 ≤ c.toNat

def continuesWord (c : Char) : Bool := startsWord c || c.isDigit || c == '$'

/-- What stands before a closing quote and after it. Two quotes in a row stand for one. -/
def untilQuote (q : Char) (acc : List Char) : List Char → Option (String × List Char)
  | [] => none
  | [c] => if c = q then some (String.ofList acc.reverse, []) else none
  | c :: d :: s =>
    if c = q then
      if d = q then untilQuote q (q :: acc) s else some (String.ofList acc.reverse, d :: s)
    else untilQuote q (c :: acc) (d :: s)

/-- What follows a comment that is closed by a star and a slash, or by the end. -/
def afterComment : List Char → List Char
  | '*' :: '/' :: s => s
  | _ :: s => afterComment s
  | [] => []

/-- What follows blanks and comments. -/
def afterGap : Nat → List Char → List Char
  | 0, s => s
  | steps + 1, s =>
    match s with
    | [] => []
    | '-' :: '-' :: r => afterGap steps (r.dropWhile (· != '\n'))
    | '/' :: '*' :: c :: r => afterGap steps (afterComment (c :: r))
    | c :: r => if isGap c then afterGap steps r else s

/-- The number at the beginning of a text. A point or an exponent makes it a number with a fraction. -/
def number? (s : List Char) : Option (Kind × List Char) :=
  let (n, rest) := Numeral.read s
  if rest.head?.any continuesWord then none
  else if n.isWhole then
    some (.whole (Chars.natOf n.whole), rest)
  else some (.real (n.value false).toReal, rest)

/-- The number in hexadecimal digits at the beginning of a text, of at most 64 bits. -/
def hexadecimal? (s : List Char) : Option (Kind × List Char) :=
  let digits := s.takeWhile fun c => (Chars.hexValue? c).isSome
  let rest := s.dropWhile fun c => (Chars.hexValue? c).isSome
  if digits.isEmpty || rest.head?.any continuesWord then none
  else
    let n : Nat := digits.foldl (fun n c => 16 * n + (Chars.hexValue? c).getD 0) 0
    if n < Binary64.twoTo 64 then some (.whole (Int64.ofNat n).toInt, rest) else none

/-- The bytes of an even number of hexadecimal digits. -/
def bytesOf? : List Char → Option (List UInt8)
  | [] => some []
  | a :: b :: s => do
    let x ← Chars.hexValue? a
    let y ← Chars.hexValue? b
    return UInt8.ofNat (16 * x + y) :: (← bytesOf? s)
  | [_] => none

def longMarks : List String := ["->>", "->", "||", "<=", "<>", "<<", ">=", ">>", "==", "!="]

def shortMarks : List Char := "(),.;+-*/%=<>&|~".toList

def mark? (s : List Char) : Option (Kind × List Char) :=
  match longMarks.findSome? fun m => (Chars.after? m.toList s).map (Kind.mark m, ·) with
  | some found => some found
  | none =>
    match s with
    | c :: r => if shortMarks.contains c then some (.mark (String.singleton c), r) else none
    | [] => none

/-- The token at the beginning of a text that starts with no gap. -/
def first? (c : Char) (s : List Char) : Option (Kind × List Char) :=
  if c = '\'' then (untilQuote c [] s).map fun (t, r) => (.text t, r)
  else if c = '"' then (untilQuote c [] s).map fun (t, r) => (.quoted t, r)
  else if c = Char.ofNat 96 then (untilQuote c [] s).map fun (t, r) => (.name t, r)
  else if c = '[' then
    if s.contains ']' then
      some (.name (String.ofList (s.takeWhile (· != ']'))), (s.dropWhile (· != ']')).drop 1)
    else none
  else if (c = 'x' ∨ c = 'X') && s.head? == some '\'' then
    let digits := (s.drop 1).takeWhile (· != '\'')
    if (s.drop 1).contains '\'' then (bytesOf? digits).map (.blob ·, s.drop (digits.length + 2)) else none
  else if startsWord c then
    some (.word (String.ofList (c :: s.takeWhile continuesWord)), s.dropWhile continuesWord)
  else if c = '0' && s.head?.any fun d => d == 'x' || d == 'X' then hexadecimal? (s.drop 1)
  else if c.isDigit || (c == '.' && s.head?.any Char.isDigit) then number? (c :: s)
  else if c = '?' then some (.parameter, s.dropWhile Char.isDigit)
  else if (c = ':' ∨ c = '@' ∨ c = '$' ∨ c = '#') && s.head?.any continuesWord then
    some (.parameter, s.dropWhile continuesWord)
  else mark? (c :: s)

def scanFrom : Nat → List Char → Option (List Token)
  | 0, _ => some []
  | steps + 1, s =>
    let start := afterGap s.length s
    let before (rest s : List Char) : String := String.ofList (s.take (s.length - rest.length))
    match start with
    | [] => some []
    | c :: r =>
      match first? c r with
      | some (kind, rest) =>
        (scanFrom steps rest).map (⟨kind, before start s, before rest start⟩ :: ·)
      | none => none

def scan (text : String) : Option (List Token) := scanFrom (text.length + 1) text.toList

/-- The characters of some tokens in a row, without the blanks before the first one. -/
def spell : List Token → String
  | [] => ""
  | t :: ts => t.spelling ++ String.join (ts.map fun u => u.gap ++ u.spelling)

/-! ## Words and names -/

/-- The words that name nothing. -/
def reserved : List String :=
  ["add", "all", "alter", "and", "as", "autoincrement", "between", "case", "check", "collate", "commit",
   "constraint", "create", "default", "deferrable", "delete", "distinct", "drop", "else", "escape",
   "except", "exists", "foreign", "from", "group", "having", "in", "index", "insert", "intersect", "into",
   "is", "isnull", "join", "limit", "not", "nothing", "notnull", "null", "on", "or", "order", "primary",
   "references", "returning", "select", "set", "table", "then", "to", "transaction", "union", "unique",
   "update", "using", "values", "when", "where"]

def joining : List String := ["cross", "full", "inner", "left", "natural", "outer", "right"]

def verb (t : Token) : String :=
  match t.kind with
  | .word s => folded s
  | _ => ""

def isMark (m : String) (t : Token) : Bool := t.kind == .mark m

def name? (t : Token) : Option String :=
  match t.kind with
  | .word s => if reserved.contains (folded s) then none else some s
  | .name s | .quoted s | .text s => some s
  | _ => none

def identifier? (t : Token) : Option String :=
  match t.kind with
  | .text _ => none
  | _ => t.name?

def label? (t : Token) : Option String := if joining.contains t.verb then none else t.name?

end Token
end CodeAtlas.Sql
