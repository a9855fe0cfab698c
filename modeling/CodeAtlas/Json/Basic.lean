import CodeAtlas.Decimal.Binary64
import CodeAtlas.Table

/-!
# JSON values

The values themselves, and when two of them are the same.
-/
namespace CodeAtlas

/-!
## JSON values

Values whose shape is only known when they arrive: payloads, saved plans and preferences, the
properties of a node. Whole numbers and numbers with a fraction are kept apart, and the members of an
object keep their order.
-/

/-- A JSON value. -/
inductive Json where
  | null
  | bool (b : Bool)
  | int (n : Int)
  | real (x : Binary64)
  | str (s : String)
  | arr (items : List Json)
  | obj (members : List (String × Json))
  deriving Inhabited

namespace Json

mutual

/-- Decides whether two values are the same. -/
def decEq : (a b : Json) → Decidable (a = b)
  | .null, .null => isTrue rfl
  | .bool a, .bool b => decidable_of_iff (a = b) (by simp)
  | .int a, .int b => decidable_of_iff (a = b) (by simp)
  | .real a, .real b => decidable_of_iff (a = b) (by simp)
  | .str a, .str b => decidable_of_iff (a = b) (by simp)
  | .arr a, .arr b => @decidable_of_iff _ (a = b) (by simp) (decEqItems a b)
  | .obj a, .obj b => @decidable_of_iff _ (a = b) (by simp) (decEqMembers a b)
  | .null, .bool _ | .null, .int _ | .null, .real _ | .null, .str _ | .null, .arr _
  | .null, .obj _ | .bool _, .null | .bool _, .int _ | .bool _, .real _ | .bool _, .str _
  | .bool _, .arr _ | .bool _, .obj _ | .int _, .null | .int _, .bool _ | .int _, .real _
  | .int _, .str _ | .int _, .arr _ | .int _, .obj _ | .real _, .null | .real _, .bool _
  | .real _, .int _ | .real _, .str _ | .real _, .arr _ | .real _, .obj _ | .str _, .null
  | .str _, .bool _ | .str _, .int _ | .str _, .real _ | .str _, .arr _ | .str _, .obj _
  | .arr _, .null | .arr _, .bool _ | .arr _, .int _ | .arr _, .real _ | .arr _, .str _
  | .arr _, .obj _ | .obj _, .null | .obj _, .bool _ | .obj _, .int _ | .obj _, .real _
  | .obj _, .str _ | .obj _, .arr _ => isFalse (by simp)

def decEqItems : (a b : List Json) → Decidable (a = b)
  | [], [] => isTrue rfl
  | x :: xs, y :: ys =>
    @decidable_of_iff _ (x = y ∧ xs = ys) (by simp)
      (@instDecidableAnd _ _ (decEq x y) (decEqItems xs ys))
  | [], _ :: _ | _ :: _, [] => isFalse (by simp)

def decEqMembers : (a b : List (String × Json)) → Decidable (a = b)
  | [], [] => isTrue rfl
  | (k, x) :: xs, (l, y) :: ys =>
    @decidable_of_iff _ (k = l ∧ x = y ∧ xs = ys) (by simp [and_assoc])
      (@instDecidableAnd _ _ (inferInstance : Decidable (k = l))
        (@instDecidableAnd _ _ (decEq x y) (decEqMembers xs ys)))
  | [], _ :: _ | _ :: _, [] => isFalse (by simp)

end

instance : DecidableEq Json := decEq

def get? : Json → String → Option Json
  | .obj members, key => Table.get? members key
  | _, _ => none

/-- The member of an object, null when it is missing. -/
def getD (j : Json) (key : String) : Json := (j.get? key).getD .null

def str? : Json → Option String
  | .str s => some s
  | _ => none

def int? : Json → Option Int
  | .int n => some n
  | _ => none

def items : Json → List Json
  | .arr items => items
  | _ => []

/-- The members of an object; nothing for any other value. -/
def members : Json → List (String × Json)
  | .obj members => members
  | _ => []

def ofOption : Option String → Json
  | some s => .str s
  | none => .null

def isGiven : Json → Bool
  | .null => false
  | .bool b => b
  | .int n => n != 0
  | .real x => !x.isZero
  | .str s => s != ""
  | .arr items => !items.isEmpty
  | .obj members => !members.isEmpty

end Json

/-!
## Values that are the same

Two values can be written differently and still be the same: `true`, `1` and `1.0` are one number, and
the order of an object's members does not count. `Json.canonical` picks one form of a value, and two
values are `same` if they have one canonical form, so `same` is an equivalence.
-/

namespace Json

mutual

/-- The form of a value that all values of the same meaning share. -/
def canonical : Json → Json
  | .null => .null
  | .bool b => .int (if b then 1 else 0)
  | .int n => .int n
  | .real x => x.whole?.elim (.real x) .int
  | .str s => .str s
  | .arr items => .arr (canonicalItems items)
  | .obj members => .obj ((canonicalMembers members).mergeSort fun a b => decide (a.1 ≤ b.1))

def canonicalItems : List Json → List Json
  | [] => []
  | x :: xs => canonical x :: canonicalItems xs

def canonicalMembers : List (String × Json) → List (String × Json)
  | [] => []
  | (k, x) :: xs => (k, canonical x) :: canonicalMembers xs

end

def same (a b : Json) : Bool := a.canonical = b.canonical

@[simp] theorem same_self (a : Json) : same a a = true := by simp [same]

theorem same_comm (a b : Json) : same a b = same b a := by simp [same, eq_comm]

theorem same_trans {a b c : Json} (h : same a b = true) (k : same b c = true) :
    same a c = true := by
  simp only [same, decide_eq_true_eq] at *
  exact h.trans k

end Json

end CodeAtlas
