import CodeAtlas.Failure
import CodeAtlas.Json.Basic
import CodeAtlas.Json.Printer

/-!
# Looking into values

Members and items of a value, and values as keys and values.
-/
namespace CodeAtlas

/-!
## Looking into values

Looking up a key or a position of a value fails in a way that tells what kind of value it was.
-/

namespace Json

def kindName : Json → String
  | .null => "NoneType"
  | .bool _ => "bool"
  | .int _ => "int"
  | .real _ => "float"
  | .str _ => "str"
  | .arr _ => "list"
  | .obj _ => "dict"

/-- The failure to look into a value that has nothing inside. -/
def notIndexed (kind : String) : Failure := .unfit s!"'{kind}' object is not subscriptable"

def key (j : Json) (k : String) : Except Failure Json :=
  match j with
  | .obj members =>
    match Table.get? members k with
    | some v => .ok v
    | none => .error (.missingKey (.str k))
  | .arr _ => .error (.unfit "list indices must be integers or slices, not str")
  | .str _ => .error (.unfit "string indices must be integers, not 'str'")
  | j => .error (notIndexed j.kindName)

def position (j : Json) (i : Nat) : Except Failure Json :=
  match j with
  | .arr items =>
    match items[i]? with
    | some v => .ok v
    | none => .error (.outOfRange "list")
  | .str s =>
    match s.toList[i]? with
    | some c => .ok (.str (String.singleton c))
    | none => .error (.outOfRange "string")
  | .obj _ => .error (.missingKey (.int i))
  | j => .error (notIndexed j.kindName)

def keys (j : Json) : List String → Except Failure Json
  | [] => .ok j
  | k :: ks => do keys (← j.key k) ks

/-- The values that a value holds: items, characters, or names of members. -/
def elements : Json → Except Failure (List Json)
  | .arr items => .ok items
  | .str s => .ok (s.toList.map fun c => .str (String.singleton c))
  | .obj members => .ok (members.map fun (k, _) => .str k)
  | j => .error (.unfit s!"'{j.kindName}' object is not iterable")

/-- The value of a key, null if there is none. Only a value with keys can be asked. -/
def lookUp (j : Json) (k : String) : Except Failure Json :=
  match j with
  | .obj members => .ok ((Table.get? members k).getD .null)
  | j => .error (.noMember j.kindName "get")

/-- Can a value be looked up in a table? Lists and objects cannot. -/
def checkKey : Json → Except Failure Unit
  | .arr _ => .error (.unfit "unhashable type: 'list'")
  | .obj _ => .error (.unfit "unhashable type: 'dict'")
  | _ => .ok ()

def find? {α : Type} (t : Table String α) (j : Json) : Except Failure (Option α) := do
  checkKey j
  return j.str?.bind (Table.get? t)

def asText (name : String) : Json → Except Failure String
  | .str s => .ok s
  | j => .error (.noMember j.kindName name)

def asPath : Json → Except Failure String
  | .str s => .ok s
  | j => .error (.unfit s!"expected str, bytes or os.PathLike object, not {j.kindName}")

end Json

/-!
## Values as keys and values

An object holds keys and values; a list of pairs describes them one after the other. Of keys that
mean the same the first is kept, with the value that came last.
-/

namespace Json

def pairItems (j : Json) : Except Failure (Json × Json) := do
  match ← j.elements with
  | [k, v] => return (k, v)
  | items => throw (.invalid
      s!"dictionary update sequence element has length {items.length}; 2 is required")

/-- A key and a value: a list of two, a text of two characters, or the names of an object of two
members. A list or an object is no key. -/
def pair (j : Json) : Except Failure (Json × Json) := do
  let (k, v) ← j.pairItems
  checkKey k
  return (k, v)

def setEntry (entries : List (Json × Json)) (entry : Json × Json) : List (Json × Json) :=
  if entries.any fun e => e.1.same entry.1 then
    entries.map fun e => if e.1.same entry.1 then (e.1, entry.2) else e
  else entries ++ [entry]

/-- The keys and values that a value stands for. -/
def entries : Json → Except Failure (List (Json × Json))
  | .obj members => .ok (members.map fun (k, v) => (.str k, v))
  | j => do return (← (← j.elements).mapM pair).foldl setEntry []

/-- A key that is not a text is written as one. -/
def entryName : Json → String
  | .str s => s
  | k => k.render .spaced

def asMembers (j : Json) : Except Failure (Table String Json) := do
  return Table.ofPairs ((← j.entries).map fun (k, v) => (entryName k, v))

end Json

end CodeAtlas
