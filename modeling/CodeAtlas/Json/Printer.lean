import CodeAtlas.Decimal.Binary64
import CodeAtlas.Json.Basic
import CodeAtlas.Text.Basic
import CodeAtlas.Text.Class

/-!
# Writing values

Two notations for values: the one of running text, and JSON.
-/
namespace CodeAtlas

/-!
## Values in running text

Prompts, tables and messages show values in a notation of their own: `None`, `True` and `False`,
texts in single quotes unless they hold a single quote and no double one, lists in brackets and
objects in braces. `Json.literal` writes that notation; `Json.display` is the same except that a
text by itself stands without quotes.
-/

namespace Json

private def hexText : Nat → Nat → List Char
  | 0, _ => []
  | w + 1, n => hexText w (n / 16) ++ [Chars.hexDigit (n % 16)]

/-- A character inside a quoted text. -/
def literalChar (q c : Char) : List Char :=
  if c = q then ['\\', q]
  else if c = '\\' then ['\\', '\\']
  else if c = '\n' then ['\\', 'n']
  else if c = '\r' then ['\\', 'r']
  else if c = '\t' then ['\\', 't']
  else if Text.isPrintable c then [c]
  else if c.toNat < 0x100 then '\\' :: 'x' :: hexText 2 c.toNat
  else if c.toNat < 0x10000 then '\\' :: 'u' :: hexText 4 c.toNat
  else '\\' :: 'U' :: hexText 8 c.toNat

/-- A text in quotes: double ones if it holds a single quote and no double one. -/
def literalText (s : String) : String :=
  let q := if s.toList.contains '\'' && !s.toList.contains '"' then '"' else '\''
  String.ofList (q :: s.toList.flatMap (literalChar q) ++ [q])

mutual

/-- A value in running text. -/
def literal : Json → String
  | .null => "None"
  | .bool b => if b then "True" else "False"
  | .int n => toString n
  | .real x => x.text
  | .str s => literalText s
  | .arr items => "[" ++ literalItems items ++ "]"
  | .obj members => "\x7b" ++ literalMembers members ++ "\x7d"

def literalItems : List Json → String
  | [] => ""
  | [x] => literal x
  | x :: xs => literal x ++ ", " ++ literalItems xs

def literalMembers : List (String × Json) → String
  | [] => ""
  | [(k, x)] => literalText k ++ ": " ++ literal x
  | (k, x) :: xs => literalText k ++ ": " ++ literal x ++ ", " ++ literalMembers xs

end

/-- A value in running text, a text by itself without quotes. -/
def display : Json → String
  | .str s => s
  | j => literal j

end Json

/-!
## JSON text

`Json.render` writes a value under a `Layout`: what stands between items and after a key, and whether
characters outside ASCII are escaped. The layouts in use:

* `Layout.spaced`: a blank after each comma and colon, everything outside ASCII escaped;
* `Layout.compact`: no blanks, characters outside ASCII kept.
-/

namespace Json

/-- How JSON text is laid out. -/
structure Layout where
  comma : String
  colon : String
  asciiOnly : Bool

def Layout.spaced : Layout := ⟨", ", ": ", true⟩

def Layout.compact : Layout := ⟨",", ":", false⟩

def unitEscape (n : Nat) : List Char :=
  ['\\', 'u', Chars.hexDigit (n / 4096 % 16), Chars.hexDigit (n / 256 % 16), Chars.hexDigit (n / 16 % 16),
    Chars.hexDigit (n % 16)]

def escapeChar (asciiOnly : Bool) (c : Char) : List Char :=
  if c = '"' then ['\\', '"']
  else if c = '\\' then ['\\', '\\']
  else if c = '\n' then ['\\', 'n']
  else if c = '\r' then ['\\', 'r']
  else if c = '\t' then ['\\', 't']
  else if c.toNat = 8 then ['\\', 'b']
  else if c.toNat = 12 then ['\\', 'f']
  else if c.toNat < 0x20 then unitEscape c.toNat
  else if asciiOnly && c.toNat ≥ 0x7F then
    if c.toNat < 0x10000 then unitEscape c.toNat
    else
      let n := c.toNat - 0x10000
      unitEscape (0xD800 + n / 1024) ++ unitEscape (0xDC00 + n % 1024)
  else [c]

def quote (asciiOnly : Bool) (s : String) : List Char :=
  '"' :: s.toList.flatMap (escapeChar asciiOnly) ++ ['"']

def realText (x : Binary64) : String :=
  if x.isNaN then "NaN"
  else if x.isInfinite then (if x.isNegative then "-Infinity" else "Infinity")
  else x.text

mutual

def chars (l : Layout) : Json → List Char
  | .null => "null".toList
  | .bool b => (if b then "true" else "false").toList
  | .int n => (toString n).toList
  | .real x => (realText x).toList
  | .str s => quote l.asciiOnly s
  | .arr items => '[' :: itemChars l items ++ [']']
  | .obj members => '\x7b' :: memberChars l members ++ ['\x7d']

def itemChars (l : Layout) : List Json → List Char
  | [] => []
  | [x] => chars l x
  | x :: xs => chars l x ++ l.comma.toList ++ itemChars l xs

def memberChars (l : Layout) : List (String × Json) → List Char
  | [] => []
  | [(k, x)] => quote l.asciiOnly k ++ l.colon.toList ++ chars l x
  | (k, x) :: xs =>
    quote l.asciiOnly k ++ l.colon.toList ++ chars l x ++ l.comma.toList ++ memberChars l xs

end

/-- The text of a value. -/
def render (l : Layout) (j : Json) : String := String.ofList (chars l j)

mutual

def sortKeys : Json → Json
  | .arr items => .arr (sortItems items)
  | .obj members => .obj ((sortMembers members).mergeSort fun a b => a.1 ≤ b.1)
  | j => j

def sortItems : List Json → List Json
  | [] => []
  | x :: xs => sortKeys x :: sortItems xs

def sortMembers : List (String × Json) → List (String × Json)
  | [] => []
  | (k, x) :: xs => (k, sortKeys x) :: sortMembers xs

end

end Json

end CodeAtlas
