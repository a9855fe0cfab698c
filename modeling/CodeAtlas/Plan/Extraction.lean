import CodeAtlas.Failure
import CodeAtlas.Json.Access

/-!
# Answers of the language model

An answer is prose with something in it: code between fences, or a value.
-/
namespace CodeAtlas

/-!
## Fenced code

Code in an answer stands between a fence that names the language and the next fence.

* `CodeBlock.all` lists the codes, from left to right.
* `CodeBlock.first?` is the first one, trimmed, also if it is not closed.
-/

namespace CodeBlock

def opening : List Char := "```python".toList

def fence : List Char := "```".toList

/-- The codes of a text, from left to right. -/
def blocks (s : List Char) : List (List Char) :=
  match _h : Chars.cut? opening s with
  | none => []
  | some (_, rest) =>
    match _h' : Chars.cut? fence rest with
    | none => []
    | some (code, tail) => code :: blocks tail
termination_by s.length
decreasing_by
  have ho := Chars.length_of_cut? _h
  have hf := Chars.length_of_cut? _h'
  have : opening.length = 9 := by decide
  omega

def all (text : String) : List String := (blocks text.toList).map String.ofList

/-- What a text is taken for: its codes, or the text itself if no code starts in it. -/
inductive Content where
  | codes (codes : List String)
  | plain (text : String)

def content (text : String) : Content :=
  if Text.contains "```python" text then .codes (all text) else .plain text

def Content.first : Content → Except Failure String
  | .codes [] => .error (.outOfRange "list")
  | .codes (c :: _) => .ok c
  | .plain text =>
    match text.toList with
    | [] => .error (.outOfRange "string")
    | c :: _ => .ok (String.singleton c)

/-- The code that starts first, up to the next fence or the end. -/
def first? (text : String) : Option String :=
  (Text.cut? "```python" text).map fun (_, rest) =>
    Text.trim (((Text.cut? "```" rest).map Prod.fst).getD rest)

end CodeBlock

/-!
## Values in prose

A language model wraps the value it is asked for into prose. `Extraction.value` takes a text that is
JSON as a whole, and otherwise the first stretch between an opening brace and the next brace, if that
one closes it. What holds neither stands for null.
-/

namespace Extraction

def isBrace (c : Char) : Bool := c = '\x7b' || c = '\x7d'

/-- The first stretch that starts with an opening brace and ends with a closing one, with no brace
between them. -/
def braced? : List Char → Option (List Char)
  | [] => none
  | c :: cs =>
    if c = '\x7b' then
      match cs.dropWhile (fun d => !isBrace d) with
      | '\x7d' :: _ => some (c :: cs.takeWhile (fun d => !isBrace d) ++ ['\x7d'])
      | _ => braced? cs
    else braced? cs

/-- The value that a text holds. A stretch in braces that shows no value stands for null; one that
shows a value beyond the reader's limits is a failure. -/
def value (text : String) : Except Failure Json :=
  match Json.ofText text with
  | .ok j => .ok j
  | .error _ =>
    match braced? text.toList with
    | none => .ok .null
    | some s =>
      match Json.ofChars s with
      | .ok j => .ok j
      | .error .malformed => .ok .null
      | .error fault => .error (.unreadable fault)

/-- The value that an answer holds; only a text can be searched. -/
def valueOf : Json → Except Failure Json
  | .str s => value s
  | _ => .error (.unfit "expected string or bytes-like object")

end Extraction

end CodeAtlas
