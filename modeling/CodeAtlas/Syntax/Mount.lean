import CodeAtlas.Syntax.Node

/-!
# Imports and mounted routers

Two kinds of statements lead to other files. An import names what it takes from them. A call of
`include_router` mounts a router, possibly under a path prefix and with dependencies of its own. Its
arguments are read as texts: `router` and `prefix` may be given by name, otherwise the first argument
is the router and the third the prefix.
-/

/-!
## Imports

Each import statement adds entries to the imports of its file: the dotted path of what is imported,
and the name it gets if it is renamed.
-/
namespace CodeAtlas

structure Import where
  module : String
  otherName : Option String
  deriving DecidableEq, Repr

namespace Import

def textsWhere (src : String) (f : Node → Bool) : List Node → Except Failure (List String)
  | [] => .ok []
  | c :: cs => do
    if f c then
      let t ← c.text src
      return t :: (← textsWhere src f cs)
    else textsWhere src f cs

def below (base name : String) : String := if base == "" then name else base ++ "." ++ name

/-- The entry of `name as alias`; a text of another form is taken whole up to its first ` as `. -/
def renamed (base text : String) : Import :=
  match Text.pieces " as " text with
  | [name, other] => ⟨below base name, some other⟩
  | name :: _ => ⟨below base name, none⟩
  | [] => ⟨below base "", none⟩

def ofStatement (src : String) (n : Node) : Except Failure (List Import) := do
  let names ← textsWhere src (fun c => c.kind == "dotted_name" || c.kind == "relative_import") n.children
  let aliased ← textsWhere src (fun c => c.kind == "aliased_import") n.children
  match names with
  | base :: rest@(_ :: _) =>
    return rest.map (fun name => ⟨base ++ "." ++ name, none⟩) ++ aliased.map (renamed base)
  | _ =>
    let base := names.head?.getD ""
    if aliased.isEmpty then return [⟨base, none⟩] else return aliased.map (renamed base)

end Import
end CodeAtlas

/-!
## Injected dependencies

A handler names the functions it depends on as `Depends(name)`. `Injection.names` finds them in a
text, from left to right: what stands between each `Depends(` and the next closing parenthesis. A
last one that is never closed gives the rest of the text without its final character.
-/
namespace CodeAtlas.Injection

def opening : List Char := "Depends(".toList

/-- What follows the name of a dependency is shorter than the text. -/
theorem length_after_lt {s before rest name after : List Char}
    (hs : Chars.cut? opening s = some (before, rest))
    (hr : Chars.cut? [')'] rest = some (name, after)) : after.length < s.length := by
  have := Chars.length_of_cut? hs
  have := Chars.length_of_cut? hr
  simp only [List.length_cons, List.length_nil] at *; omega

/-- The names of the dependencies in a text. -/
def scan (s : List Char) : List (List Char) :=
  match hs : Chars.cut? opening s with
  | none => []
  | some (_, rest) =>
    match hr : Chars.cut? [')'] rest with
    | none => [rest.dropLast]
    | some (name, after) =>
      have : after.length < s.length := length_after_lt hs hr
      name :: scan after
termination_by s.length

def names (s : String) : List String := (scan s.toList).map String.ofList

end CodeAtlas.Injection

/-! ## Calls that mount a router -/
namespace CodeAtlas

/-- A router, the path under which it is mounted and what its handlers depend on. -/
structure Mount where
  router : String
  path : Option String
  depends : List String
  deriving DecidableEq, Repr

namespace Mount

def assigned? (s : String) : Option String := (Text.cut? "=" s).map Prod.snd

def named : Option String → Option String → List String → Option String × Option String
  | router, path, [] => (router, path)
  | router, path, arg :: args =>
    match assigned? arg with
    | none => named router path args
    | some value =>
      if Text.startsWith "router" arg then named (some value) path args
      else if Text.startsWith "prefix" arg then named router (some value) args
      else named router path args

def ofArguments (src : String) (n : Node) : Except Failure Mount := do
  let args ← Import.textsWhere src (fun c => !(["(", ")", ","].contains c.kind)) n.children
  let (router, path) := named none none args
  let router ← match router, args with
    | some r, _ => .ok r
    | none, a :: _ => .ok a
    | none, [] => .error (Failure.outOfRange "list")
  let path := match path, args with
    | some p, _ => some p
    | none, _ :: _ :: c :: _ => some (Text.trimBy (· == '"') c)
    | none, _ => none
  let text ← n.text src
  return ⟨router, path, Injection.names text⟩

def ofCall (src : String) : Bool → List Node → Except Failure (List Mount)
  | _, [] => .ok []
  | including, c :: cs => do
    if c.kind == "attribute" then
      let text ← c.text src
      ofCall src (including || Text.contains "include_router" text) cs
    else if c.kind == "argument_list" && including then
      let m ← ofArguments src c
      return m :: (← ofCall src including cs)
    else ofCall src including cs

end Mount
end CodeAtlas
