import CodeAtlas.Sql.Format

/-!
# Documents

A text can hold a document: numbers, texts, lists and objects inside each other. Numbers and texts keep the
spelling in which they are written, so that a part of a document shows as it does in the whole
(`Document.render`). A path leads to a part (`Document.find?`).
-/
namespace CodeAtlas.Sql

inductive Document where
  | null
  | bool (b : Bool)
  | number (spelling : String) (isReal : Bool)
  /-- A text as it is written, without its quotes. -/
  | string (spelling : String)
  | array (items : List Document)
  | object (members : List (String × Document))

namespace Document

/-! ## Reading -/

private def isSpace (c : Char) : Bool := c == ' ' || c == '\t' || c == '\n' || c == '\r'

private def spaceless (s : List Char) : List Char := s.dropWhile isSpace

/-- The characters of a text up to its closing quote, as they are written. -/
def stringChars : Nat → List Char → Option (List Char × List Char)
  | 0, _ => none
  | _ + 1, [] => none
  | steps + 1, c :: s =>
    if c = '"' then some ([], s)
    else if c = '\\' then
      match s with
      | 'u' :: a :: b :: d :: e :: r =>
        if [a, b, d, e].all fun x => (Chars.hexValue? x).isSome then
          (stringChars steps r).map fun (cs, rest) => ('\\' :: 'u' :: a :: b :: d :: e :: cs, rest)
        else none
      | e :: r =>
        if "\"\\/bfnrt".toList.contains e then
          (stringChars steps r).map fun (cs, rest) => ('\\' :: e :: cs, rest)
        else none
      | [] => none
    else if c.toNat < 32 then none
    else (stringChars steps s).map fun (cs, rest) => (c :: cs, rest)

def number? (s : List Char) : Option (Document × List Char) :=
  let (sign, r) := match s with
    | '-' :: r => (['-'], r)
    | r => ([], r)
  let whole := r.takeWhile Char.isDigit
  let rest := r.dropWhile Char.isDigit
  if whole.isEmpty || (1 < whole.length && whole.head? == some '0') then none
  else
    let (fraction, rest, good) := match rest with
      | '.' :: t =>
        let ds := t.takeWhile Char.isDigit
        ('.' :: ds, t.dropWhile Char.isDigit, !ds.isEmpty)
      | t => ([], t, true)
    let (power, rest, fine) := match rest with
      | e :: t =>
        if e = 'e' ∨ e = 'E' then
          let (mark, t) := match t with
            | '+' :: t => ([e, '+'], t)
            | '-' :: t => ([e, '-'], t)
            | t => ([e], t)
          let ds := t.takeWhile Char.isDigit
          (mark ++ ds, t.dropWhile Char.isDigit, !ds.isEmpty)
        else ([], rest, true)
      | [] => ([], [], true)
    if good && fine && rest.head? != some '.' then
      some (.number (String.ofList (sign ++ whole ++ fraction ++ power)) (!fraction.isEmpty || !power.isEmpty), rest)
    else none

abbrev Reads := StateT (List Char) Option

/-- Takes a character after blanks. -/
def mark (c : Char) : Reads Unit := fun s =>
  match spaceless s with
  | d :: r => if c = d then some ((), r) else none
  | [] => none

def has (c : Char) : Reads Bool := (do mark c; return true) <|> return false

def quotedText : Reads String := fun s =>
  (stringChars (s.length + 1) s).map fun (cs, r) => (String.ofList cs, r)

mutual

def value : Nat → Reads Document
  | 0 => failure
  | n + 1 => do
    if ← has '\x7b' then
      if ← has '\x7d' then return .object [] else return .object (← members n)
    else if ← has '[' then
      if ← has ']' then return .array [] else return .array (← elements n)
    else if ← has '"' then return .string (← quotedText)
    else
      modify spaceless
      if (← get).head?.any fun c => c == '-' || c.isDigit then number?
      else fun s =>
        [("null", Document.null), ("true", .bool true), ("false", .bool false)].findSome? fun (w, d) => do
          let rest ← Chars.after? w.toList s
          if rest.head?.any Char.isAlphanum then none else some (d, rest)

def elements : Nat → Reads (List Document)
  | 0 => failure
  | n + 1 => do
    let d ← value n
    if ← has ',' then return d :: (← elements n)
    mark ']'
    return [d]

/-- The members of an object up to its closing brace. -/
def members : Nat → Reads (List (String × Document))
  | 0 => failure
  | n + 1 => do
    mark '"'
    let name ← quotedText
    mark ':'
    let d ← value n
    if ← has ',' then return (name, d) :: (← members n)
    mark '\x7d'
    return [(name, d)]

end

def ofText? (s : String) : Option Document := do
  let (d, rest) ← value (2 * s.length + 2) s.toList
  if (spaceless rest).isEmpty then some d else none

/-! ## Writing -/

/-- A text in quotes, with what cannot stand in them written otherwise. -/
def quote (s : String) : String :=
  let escaped (c : Char) : List Char :=
    if c = '"' ∨ c = '\\' then ['\\', c]
    else if c.toNat ≤ 31 then
      match c.toNat with
      | 8 => ['\\', 'b']
      | 9 => ['\\', 't']
      | 10 => ['\\', 'n']
      | 12 => ['\\', 'f']
      | 13 => ['\\', 'r']
      | k => "\\u00".toList ++ [Chars.hexDigit (k / 16), Chars.hexDigit (k % 16)]
    else [c]
  String.ofList (s.toList.flatMap escaped)

mutual

def render : Document → String
  | .null => "null"
  | .bool b => if b then "true" else "false"
  | .number s _ => s
  | .string s => "\"" ++ s ++ "\""
  | .array ds => "[" ++ ",".intercalate (renderAll ds) ++ "]"
  | .object ms => "\x7b" ++ ",".intercalate (renderMembers ms) ++ "\x7d"

def renderAll : List Document → List String
  | [] => []
  | d :: ds => render d :: renderAll ds

def renderMembers : List (String × Document) → List String
  | [] => []
  | (name, d) :: ms => ("\"" ++ name ++ "\":" ++ render d) :: renderMembers ms

end

private def codeOf (ds : List Char) : Nat := ds.foldl (fun k x => 16 * k + (Chars.hexValue? x).getD 0) 0

def unescape : Nat → List Char → List Char
  | 0, _ => []
  | _ + 1, [] => []
  | n + 1, '\\' :: 'u' :: a :: b :: c :: d :: s =>
    let code := codeOf [a, b, c, d]
    match code, s with
    | _, '\\' :: 'u' :: e :: f :: g :: h :: t =>
      let low := codeOf [e, f, g, h]
      if 0xD800 ≤ code ∧ code < 0xDC00 ∧ 0xDC00 ≤ low ∧ low < 0xE000 then
        Char.ofNat (0x10000 + (code - 0xD800) * 1024 + (low - 0xDC00)) :: unescape n t
      else Char.ofNat code :: unescape n s
    | _, _ => Char.ofNat code :: unescape n s
  | n + 1, '\\' :: c :: s =>
    (match c with
     | 'b' => Char.ofNat 8
     | 'f' => Char.ofNat 12
     | 'n' => '\n'
     | 'r' => '\r'
     | 't' => '\t'
     | c => c) :: unescape n s
  | n + 1, c :: s => c :: unescape n s

/-- The text that a spelling stands for. -/
def unquote (s : String) : String := String.ofList (unescape s.length s.toList)

def kind : Document → String
  | .null => "null"
  | .bool b => if b then "true" else "false"
  | .number _ isReal => if isReal then "real" else "integer"
  | .string _ => "text"
  | .array _ => "array"
  | .object _ => "object"

def toValue : Document → Value
  | .null => .null
  | .bool b => .ofBool b
  | .number s isReal => if isReal then .real (Value.text s).toReal else (Value.text s).toNumber
  | .string s => .text (unquote s)
  | d => .text d.render

def ofValue (isDocument : Bool) : Value → Except Fault Document
  | .null => .ok .null
  | .whole n => .ok (.number (toString n) false)
  | .real x => .ok (.number x.roundedText true)
  | .text s =>
    if isDocument then (ofText? s).elim (.error .rejected) .ok else .ok (.string (quote s))
  | .blob _ => .error .rejected

/-! ## Paths -/

inductive Step where
  | key (spelling : String)
  | index (n : Nat)
  /-- So many places before the end; zero is the place after the last item. -/
  | fromEnd (n : Nat)
  deriving DecidableEq, Repr

def steps? : Nat → List Char → Option (List Step)
  | 0, _ => none
  | _ + 1, [] => some []
  | n + 1, '.' :: '"' :: s =>
    let name := s.takeWhile (· != '"')
    match s.dropWhile (· != '"') with
    | _ :: rest => (steps? n rest).map (.key (String.ofList name) :: ·)
    | [] => none
  | n + 1, '.' :: s =>
    let name := s.takeWhile fun c => c != '.' && c != '['
    if name.isEmpty then none
    else (steps? n (s.drop name.length)).map (.key (String.ofList name) :: ·)
  | n + 1, '[' :: '#' :: s =>
    match s with
    | ']' :: rest => (steps? n rest).map (.fromEnd 0 :: ·)
    | '-' :: r =>
      let ds := r.takeWhile Char.isDigit
      match r.drop ds.length with
      | ']' :: rest => if ds.isEmpty then none else (steps? n rest).map (.fromEnd (Chars.natOf ds) :: ·)
      | _ => none
    | _ => none
  | n + 1, '[' :: s =>
    let ds := s.takeWhile Char.isDigit
    match s.drop ds.length with
    | ']' :: rest => if ds.isEmpty then none else (steps? n rest).map (.index (Chars.natOf ds) :: ·)
    | _ => none
  | _ + 1, _ => none

def path? (s : String) : Option (List Step) :=
  match s.toList with
  | '$' :: r => steps? (r.length + 1) r
  | _ => none

/-- The path that a short form stands for: an index, a key or a path. -/
def arrowPath (s : String) : String :=
  match s.toList with
  | '$' :: _ => s
  | c :: _ => if c.isDigit then "$[" ++ s ++ "]" else if c = '[' then "$" ++ s else "$." ++ s
  | [] => "$." ++ s

def Step.place? (length : Nat) : Step → Option Nat
  | .index n => some n
  | .fromEnd n => if n ≤ length then some (length - n) else none
  | .key _ => none

def find? : List Step → Document → Option Document
  | [], d => some d
  | .key name :: steps, .object ms => (ms.find? fun (n, _) => n == name).bind fun (_, d) => find? steps d
  | s :: steps, .array ds => ((s.place? ds.length).bind (ds[·]?)).bind (find? steps)
  | _ :: _, _ => none

/-- A document that holds nothing but a value at the end of a path. Only first places of lists can be made. -/
def wrapped (d : Document) : List Step → Option Document
  | [] => some d
  | .key name :: steps => (wrapped d steps).map fun e => .object [(name, e)]
  | .index 0 :: steps => (wrapped d steps).map fun e => .array [e]
  | .fromEnd 0 :: steps => (wrapped d steps).map fun e => .array [e]
  | _ => none

/-- A document with another value at the end of a path: in the place of one that is there, or where there is
none. -/
def put (replaces inserts : Bool) (new : Document) : List Step → Document → Document
  | [], d => if replaces then new else d
  | .key name :: steps, .object ms =>
    if ms.any fun (n, _) => n == name then
      .object (ms.map fun (n, d) => if n == name then (n, put replaces inserts new steps d) else (n, d))
    else if inserts then
      match wrapped new steps with
      | some d => .object (ms ++ [(name, d)])
      | none => .object ms
    else .object ms
  | s :: steps, .array ds =>
    match s.place? ds.length with
    | none => .array ds
    | some i =>
      if i < ds.length then
        .array (ds.zipIdx.map fun (d, k) => if k == i then put replaces inserts new steps d else d)
      else if inserts && i == ds.length then
        match wrapped new steps with
        | some d => .array (ds ++ [d])
        | none => .array ds
      else .array ds
  | _ :: _, d => d

/-- A document without the part at the end of a path. -/
def erase : List Step → Document → Option Document
  | [], _ => none
  | .key name :: steps, .object ms =>
    some (.object (ms.filterMap fun (n, d) =>
      if n == name then (erase steps d).map (n, ·) else some (n, d)))
  | s :: steps, .array ds =>
    match s.place? ds.length with
    | none => some (.array ds)
    | some i => some (.array ((ds.zipIdx.filterMap fun (d, k) => if k == i then erase steps d else some d)))
  | _ :: _, d => some d

/-- A document changed by another one: members that are nothing there go, all others come in their place. -/
def patched : Nat → Document → Document → Document
  | 0, d, _ => d
  | n + 1, d, .object changes =>
    let start := match d with
      | .object ms => ms
      | _ => []
    .object (changes.foldl (fun ms (name, change) =>
      let there := ms.any fun (m, _) => m == name
      match change with
      | .null => ms.filter fun (m, _) => m != name
      | change =>
        if there then ms.map fun (m, e) => if m == name then (m, patched n e change) else (m, e)
        else ms ++ [(name, patched n .null change)]) start)
  | _ + 1, _, d => d

end Document
end CodeAtlas.Sql
