import CodeAtlas.Service.Route
import CodeAtlas.Telemetry

/-!
# Answers

A request is served by the first route with its path and its method. A path without its method is
refused; a path that is served with the slash at its end put on or taken off is redirected there. Pages
of other origins may read every answer, and may ask before what they may send.
-/
namespace CodeAtlas.Service

structure Request where
  method : String
  path : String
  headers : List (String × String)

structure Answer where
  status : Nat
  body : String
  headers : List (String × String)
  deriving DecidableEq, Repr

def Request.header? (q : Request) (name : String) : Option String :=
  (q.headers.find? fun h => h.1 == name).map Prod.snd

/-! ## Routing -/

/-- What becomes of a request. -/
inductive Destination where
  | served (route : Route)
  | otherMethod
  | redirected
  | unknown
  deriving DecidableEq, Repr

/-- The path with the slashes at its end taken off or, if there are none, with one put on. -/
def otherForm (path : String) : String :=
  if Text.endsWith "/" path then
    String.ofList (path.toList.reverse.dropWhile (· == '/')).reverse
  else path ++ "/"

/-- Where a request goes. -/
def destination (routes : List Route) (method path : String) : Destination :=
  let here := routes.filter (·.covers path)
  match here.find? (·.methods.contains method) with
  | some route => .served route
  | none =>
    if !here.isEmpty then .otherMethod
    else if path != "/" ∧ routes.any (·.covers (otherForm path)) then .redirected
    else .unknown

private def detail (text : String) : String := (Json.obj [("detail", .str text)]).render .compact

def serve (q : Request) : Answer :=
  match destination routes q.method q.path with
  | .served route =>
    ⟨200, if route = health then (Json.obj [("status", .str "ok")]).render .compact else "", []⟩
  | .otherMethod => ⟨405, detail "Method Not Allowed", []⟩
  | .redirected => ⟨307, "", []⟩
  | .unknown => ⟨404, detail "Not Found", []⟩

def watched (watching : Bool) (q : Request) : Run Answer := do
  let a := serve q
  if watching then
    let seen ← Telemetry.observe ⟨[], .str q.path, .str q.method, .int a.status⟩
    return { a with body := seen.body.getD a.body }
  else return a

/-! ## Other origins -/

def sharedMethods : List String := ["DELETE", "GET", "HEAD", "OPTIONS", "PATCH", "POST", "PUT"]

def sharing (origin : String) (cookie : Bool) : List (String × String) :=
  ("access-control-allow-credentials", "true") ::
    if cookie then [("access-control-allow-origin", origin), ("vary", "Origin")]
    else [("access-control-allow-origin", "*")]

/-- The answer to a page of another origin that asks what it may send. -/
def permission (origin method : String) (headers : Option String) : Answer :=
  let named := match headers with
    | some names => [("access-control-allow-headers", names)]
    | none => []
  let all := [("access-control-allow-credentials", "true")] ++ named ++
    [("access-control-allow-methods", ", ".intercalate sharedMethods),
     ("access-control-allow-origin", origin), ("access-control-max-age", "600"), ("vary", "Origin")]
  if sharedMethods.contains method then ⟨200, "OK", all⟩
  else ⟨400, "Disallowed CORS method", all⟩

def answer (watching : Bool) (q : Request) : Run Answer := do
  match q.header? "origin" with
  | none => watched watching q
  | some origin =>
    match if q.method = "OPTIONS" then q.header? "access-control-request-method" else none with
    | some method => return permission origin method (q.header? "access-control-request-headers")
    | none =>
      let a ← watched watching q
      return { a with headers := a.headers ++ sharing origin (q.header? "cookie").isSome }

end CodeAtlas.Service
