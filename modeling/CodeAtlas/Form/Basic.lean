import CodeAtlas.Json.Access
import CodeAtlas.Text.Case

/-!
# Forms

A form lists the fields of a request. Reading a form takes the value of every field, brings it into
the shape of that field where this is possible without doubt, and reports all fields that are at
fault at once, in the order of the form. What the form does not mention is left out.
-/
namespace CodeAtlas

/-- What a field takes if it is not given. -/
inductive Presence where
  | required
  /-- Null stands for a field that is not given. -/
  | orNull
  | usual (value : Json)

inductive Shape where
  | text
  | integer
  | truth
  | texts
  /-- Members of any kind. -/
  | record
  /-- One text and no other. -/
  | constant (value : String)
  | checked (accepts : String → Bool)
  | form (fields : List (String × Presence × Shape))

abbrev Field := String × Presence × Shape

abbrev Faults := List (String × FieldFault)

namespace Shape

def textOf? : Json → Option String
  | .str s => some s
  | .int n => some (toString n)
  | .real x => some x.text
  | .bool b => some (if b then "True" else "False")
  | _ => none

/-- The integer that a value stands for. A fraction is cut off. -/
def integerOf? : Json → Option Int
  | .int n => some n
  | .bool b => some (if b then 1 else 0)
  | .real x => if x.isNaN || x.isInfinite then none else some x.truncate
  | .str s => Integer.ofText? s
  | _ => none

def truthOf? : Json → Option Bool
  | .bool b => some b
  | .int n => if n = 1 then some true else if n = 0 then some false else none
  | .real x =>
    if x = Binary64.ofInt 1 then some true else if x.isZero then some false else none
  | .str s =>
    let word := Text.lower s
    if ["1", "on", "t", "true", "y", "yes"].contains word then some true
    else if ["0", "off", "f", "false", "n", "no"].contains word then some false
    else none
  | _ => none

/-- The named members that a value stands for, all of whose keys must be texts. -/
def namedOf (v : Json) : Except FieldFault (List (String × Json)) :=
  match v.entries with
  | .error _ => .error .notObject
  | .ok es =>
    match es.mapM fun (k, v) => k.str?.map fun name => (name, v) with
    | none => .error .unusable
    | some members => .ok members

def readItem (i : Nat) : Json → Except Faults Json
  | .null => .error [(toString i, .nullNotAllowed)]
  | v =>
    match textOf? v with
    | some s => .ok (.str s)
    | none => .error [(toString i, .notText)]

def collect {α : Type} : List (Except Faults α) → Except Faults (List α)
  | [] => .ok []
  | .ok a :: rest => (collect rest).map (a :: ·)
  | .error f :: rest =>
    match collect rest with
    | .ok _ => .error f
    | .error g => .error (f ++ g)

def inField (name : String) (faults : Faults) : Faults :=
  faults.map fun (p, f) => (if p == "" then name else name ++ "." ++ p, f)

private def orFault {α : Type} (fault : FieldFault) (f : α → Json) : Option α → Except Faults Json
  | some a => .ok (f a)
  | none => .error [("", fault)]

mutual

def read : Shape → Json → Except Faults Json
  | .text, v => orFault .notText .str (textOf? v)
  | .integer, v => orFault .notInteger .int (integerOf? v)
  | .truth, v => orFault .notBoolean .bool (truthOf? v)
  | .texts, v =>
    match v with
    | .arr items => (collect (items.mapIdx readItem)).map .arr
    | _ => .error [("", .notList)]
  | .record, v => orFault .notObject .obj v.asMembers.toOption
  | .constant c, v =>
    match v.checkKey with
    | .ok _ => if v = .str c then .ok v else .error [("", .notPermitted)]
    | .error _ => .error [("", .unusable)]
  | .checked accepts, v =>
    match textOf? v with
    | some s => if accepts s then .ok (.str s) else .error [("", .rejected)]
    | none => .error [("", .notText)]
  | .form fields, v =>
    match namedOf v with
    | .ok members => (readFields fields members).map .obj
    | .error fault => .error [("", fault)]

def readFields : List Field → List (String × Json) → Except Faults (List (String × Json))
  | [], _ => .ok []
  | (name, presence, shape) :: rest, members =>
    let value : Except Faults Json :=
      match Table.get? members name, presence with
      | none, .required => .error [(name, .missing)]
      | none, .orNull => .ok .null
      | none, .usual v => .ok v
      | some .null, .orNull => .ok .null
      | some .null, _ => .error [(name, .nullNotAllowed)]
      | some v, _ =>
        match read shape v with
        | .ok v => .ok v
        | .error faults => .error (inField name faults)
    match value, readFields rest members with
    | .ok v, .ok vs => .ok ((name, v) :: vs)
    | .ok _, .error g => .error g
    | .error f, .ok _ => .error f
    | .error f, .error g => .error (f ++ g)

end

end Shape

/-- A form: its fields, and a last look at what was read. -/
structure Form where
  fields : List Field
  check : Json → Except Failure Unit

namespace Form

def ofFields (fields : List Field) : Form := ⟨fields, fun _ => .ok ()⟩

def isEndless (members : List (String × Json)) : Field → Bool
  | (name, _, .integer) =>
    match Table.get? members name with
    | some (.real x) => x.isInfinite
    | _ => false
  | _ => false

def readMembers (f : Form) (members : List (String × Json)) : Except Failure Json :=
  if f.fields.any (isEndless members) then
    .error (.overflow "cannot convert float infinity to integer")
  else
    match Shape.readFields f.fields members with
    | .error faults => .error (.invalidFields faults)
    | .ok values => do
      f.check (.obj values)
      return .obj values

def read (f : Form) : Json → Except Failure Json
  | .obj members => f.readMembers members
  | j => .error (.unfit s!"argument after ** must be a mapping, not {j.kindName}")

end Form
end CodeAtlas
