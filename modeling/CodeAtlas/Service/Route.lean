import CodeAtlas.Failure
import CodeAtlas.Text.Case

/-!
# Routes

The paths that the service serves. Each path of the interface is served with and without a slash at
its end; only the one without stands in the description of the service.
-/
namespace CodeAtlas.Service

/-- A path and the methods that it is served for. -/
structure Route where
  path : String
  methods : List String
  /-- Does it stand in the description of the service? -/
  listed : Bool
  deriving DecidableEq, Repr

namespace Route

def twins (path method : String) : List Route :=
  let plain := if Text.endsWith "/" path then Text.dropLast path else path
  [⟨plain ++ "/", [Text.upper method], false⟩, ⟨plain, [Text.upper method], true⟩]

def partFits (route part : String) : Bool :=
  if Text.startsWith "\x7b" route ∧ Text.endsWith "\x7d" route then part != "" else route == part

def fits (r : Route) (path : String) : Bool :=
  let parts := Text.fields '/' r.path
  let given := Text.fields '/' path
  parts.length == given.length && (parts.zip given).all fun (a, b) => partFits a b

def covers (r : Route) (path : String) : Bool :=
  r.fits path || (Text.endsWith "\n" path && r.fits (Text.dropLast path))

/-! ## Parameters -/

def startsName (c : Char) : Bool := c.isAlpha || c == '_'

/-- A name of letters, digits and low lines at the beginning of a text, with the rest. -/
def name? : List Char → Option (String × List Char)
  | [] => none
  | c :: s =>
    let inName (d : Char) : Bool := d.isAlphanum || d == '_'
    if startsName c then some (String.ofList (c :: s.takeWhile inName), s.dropWhile inName) else none

/-- A parameter after an opening brace: its name, and its kind if one stands after a colon. -/
def parameter? (s : List Char) : Option (String × String) := do
  let (name, rest) ← name? s
  match rest with
  | '\x7d' :: _ => some (name, "str")
  | ':' :: rest =>
    let (kind, rest) ← name? rest
    if rest.head? = some '\x7d' then some (name, kind) else none
  | _ => none

def parameters : List Char → List (String × String)
  | [] => []
  | c :: s => (if c = '\x7b' then (parameter? s).toList else []) ++ parameters s

def parameterKinds : List String := ["str", "path", "int", "float", "uuid"]

def checkParameters (path : String) : Except Failure Unit := do
  let found := parameters path.toList
  if let some p := found.find? fun p => !parameterKinds.contains p.2 then
    throw (.unforeseen s!"Unknown path convertor '{p.2}'")
  let names := found.map Prod.fst
  if names.eraseDups.length < names.length then
    throw (.invalid s!"Duplicated param name at path {path}")

def ofPath (path method : String) : Except Failure (List Route) := do
  checkParameters path
  return twins path method

end Route

/-! ## The routes of the service -/

def descriptions : List Route :=
  ["/openapi.json", "/docs", "/docs/oauth2-redirect", "/redoc"].map (⟨·, ["GET", "HEAD"], false⟩)

def interface : List (String × String) :=
  [("/parse", "POST"), ("/endpoints/list", "GET"), ("/endpoints/blast", "GET"),
   ("/endpoints/flow/graph", "GET"), ("/endpoints/dependencies", "GET"),
   ("/endpoints/dependencies/more", "GET"), ("/code/node", "GET"), ("/test/plan", "PUT"),
   ("/endpoints/preference", "PUT"), ("/test/plan", "GET"), ("/endpoints/preference", "GET"),
   ("/test/generate", "GET"), ("/get-branch-list", "GET"), ("/projects/list", "GET"),
   ("/projects", "DELETE"), ("/login", "POST"), ("/signup", "POST"), ("/usage", "GET"),
   ("/secrets", "POST"), ("/secrets/\x7bprovider\x7d", "GET"), ("/secrets", "PUT"),
   ("/secrets/\x7bprovider\x7d", "DELETE"), ("/webhook", "POST")]

/-- Where the service says that it is well. -/
def health : Route := ⟨"/health", ["GET"], true⟩

def routes : List Route :=
  descriptions ++ interface.flatMap (fun (path, method) => Route.twins path method) ++ [health]

end CodeAtlas.Service
