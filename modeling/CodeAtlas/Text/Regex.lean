import CodeAtlas.Text.Class

/-!
# Regular expressions

Expressions of characters, classes of characters, repetitions and one group. They are searched from
left to right and backtrack: a repetition takes as much as it can and gives back what the rest needs.
-/
namespace CodeAtlas.Regex

/-- The characters that one place of an expression accepts. -/
inductive CharClass where
  | only (c : Char)
  | word
  /-- Everything but the end of a line. -/
  | any
  deriving DecidableEq, Repr

def CharClass.accepts : CharClass → Char → Bool
  | only c, d => d == c
  | word, d => Text.isWord d
  | any, d => d != '\n'

inductive Sign where
  | one (k : CharClass)
  /-- The class before it is repeated. -/
  | plus
  | opens
  | closes
  deriving DecidableEq, Repr

def escaped? (c : Char) : Option Sign :=
  if c.isAlphanum then
    if c = 'w' then some (.one .word) else none
  else some (.one (.only c))

def sign? (c : Char) : Option Sign :=
  if c = '+' then some .plus
  else if c = '(' then some .opens
  else if c = ')' then some .closes
  else if c = '.' then some (.one .any)
  else if "\\^$*?|[]\x7b\x7d".toList.contains c then none
  else some (.one (.only c))

def signs? : List Char → Option (List Sign)
  | [] => some []
  | '\\' :: c :: s => (escaped? c).bind fun k => (signs? s).map (k :: ·)
  | c :: s => (sign? c).bind fun k => (signs? s).map (k :: ·)

/-- The ways to take one or more characters of a class from a text, the longest first. -/
def splits (k : CharClass) : List Char → List (List Char × List Char)
  | [] => []
  | c :: s =>
    if k.accepts c then (splits k s).map (fun p => (c :: p.1, p.2)) ++ [([c], s)] else []

def ways : List Sign → Option (List Char) → Option (List Char) → List Char → List (Option (List Char))
  | [], _, held, _ => [held]
  | .one k :: .plus :: ps, group, held, s =>
    (splits k s).flatMap fun p => ways ps (group.map (· ++ p.1)) held p.2
  | .one k :: ps, group, held, s =>
    match s with
    | [] => []
    | c :: s => if k.accepts c then ways ps (group.map (· ++ [c])) held s else []
  | .plus :: _, _, _, _ => []
  | .opens :: ps, _, held, s => ways ps (some []) held s
  | .closes :: ps, group, _, s => ways ps none group s

/-- What the group holds in the first match at the leftmost place where there is one. -/
def find? (ps : List Sign) : List Char → Option (List Char)
  | [] => (ways ps none none []).head?.join
  | c :: s =>
    match ways ps none none (c :: s) with
    | held :: _ => held
    | [] => find? ps s

def captured? (expression text : String) : Option String :=
  (signs? expression.toList).bind fun ps => (find? ps text.toList).map String.ofList

end CodeAtlas.Regex
