import CodeAtlas.Json.Printer
import CodeAtlas.Text.Case
import CodeAtlas.World

/-!
# Telemetry

What was noted about a request is reported once it is answered: under the name of what was done, or as
an error. An answer with an error status is replaced by one that only has a detail.
-/
namespace CodeAtlas.Telemetry

/-- The requests that are reported, each with the name it is reported under. -/
def events : List (String × String) :=
  [("/signup-post", "User Signup"), ("/webhook-post", "Automated Parse Update"),
   ("/parse-post", "Parse API"), ("/endpoints/list-get", "List Endpoints"),
   ("/endpoints/blast-get", "Blast Radius")]

/-- The name under which a request is reported, by its path and method. -/
def event? (request : String) : Option String := Table.get? events request

/-! ## Details of errors -/

/-- The text up to the first quote with a closing brace after it, on one line. -/
def untilQuote : List Char → Option (List Char)
  | [] => none
  | c :: cs =>
    match Chars.after? "\"\x7d".toList (c :: cs) with
    | some _ => some []
    | none => if c = '\n' then none else (untilQuote cs).map (c :: ·)

def detailAt? (s : List Char) : Option (List Char) :=
  if (s.take 3).length = 3 ∧ (s.take 3).all fun c => (Text.digitValue? c).isSome then
    match Chars.after? ": \x7b\"detail\":\"".toList (s.drop 3) with
    | some (c :: cs) => if c = '\n' then none else (untilQuote cs).map (c :: ·)
    | _ => none
  else none

def findDetail? : List Char → Option (List Char)
  | [] => none
  | c :: cs => (detailAt? (c :: cs)).or (findDetail? cs)

def detail? (text : String) : Option String := (findDetail? text.toList).map String.ofList

/-! ## Reports -/

/-- A request that was answered. -/
structure Exchange where
  notes : List (String × Json)
  path : Json
  method : Json
  status : Json

/-- What becomes of an answer. -/
structure Outcome where
  status : Json
  /-- What stands in place of the answer. -/
  body : Option String
  /-- Is something left to do in the background? -/
  reports : Bool

/-- Reports what was noted about a request, if there is something. -/
def report (x : Exchange) (who event : Json) : Run Unit := do
  match Table.get? x.notes "additional_data" with
  | some data => if data.isGiven then Run.note (.reported who event data)
  | none => return ()

def fail (x : Exchange) (text : String) : Run Outcome := do
  report x (.str "unavailable") (.str "error")
  return ⟨x.status, some ((Json.obj [("detail", Json.ofOption (detail? text))]).render .compact), true⟩

/-- Who sent a request, and the name under which it is reported. The sender is shown by the email of
a user that also has a number. -/
def subject (x : Exchange) (user : Json) : Except Failure (Json × Option String) := do
  let email ← user.key "email"
  let _ ← user.key "user_id"
  let method ← x.method.asText "lower"
  return (email, event? (x.path.display ++ "-" ++ Text.lower method))

def isSuccess (status : Json) : Bool := (Quantity.ofJson? status).any (Quantity.below 400)

/-- Watches an answer go out. -/
def observe (x : Exchange) : Run Outcome := do
  if !isSuccess x.status then fail x ""
  else
    match Table.get? x.notes "user" with
    | none => return ⟨x.status, none, false⟩
    | some user =>
      match subject x user with
      | .error e => fail x e.message
      | .ok (_, none) => return ⟨x.status, none, false⟩
      | .ok (email, some event) =>
        report x email (.str event)
        return ⟨x.status, none, true⟩

end CodeAtlas.Telemetry
